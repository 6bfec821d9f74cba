import Fixture.Arithmetic
import Fixture.Fault
import Fixture.Table
/-!
# Evaluating expressions

Evaluation reads the value table and changes nothing. The right operand of an
operator goes first, then the left one, then the operator itself; the first
fault in that order is the one reported, and no operand is left out.

Whole numbers and truth values compute as 64-bit words, which wrap around; as
soon as one operand is a real, both are taken as doubles. A waypoint is no
operand.
-/

namespace Fixture

/-- Why an expression has no value. -/
inductive EvalError where
  | fault (f : Fault)
  /-- An operation whose token is no operator of the language. No source leads
  here. -/
  | unexpectedOperator (op : Kind)

/-- A fault at a token. -/
def EvalError.at (tok : Token) (cause : Cause) : EvalError :=
  .fault ⟨cause, tok.pos⟩

namespace Value

/-- The result of a comparison or computation on words. `quotient` is the
expression blamed for a division by zero. -/
def wordOperation (op : Token) (quotient : Expr) (l r : Int64) :
    Except EvalError Value :=
  match op.kind with
  | .plus => .ok (.integer (l + r))
  | .minus => .ok (.integer (l - r))
  | .mul => .ok (.integer (l * r))
  | .integerDiv =>
    if r = 0 then .error (.at op (.divisionByZero quotient))
    else .ok (.integer (floorDiv l r))
  | .floatDiv =>
    if r = 0 then .error (.at op (.divisionByZero quotient))
    else .ok (.real (Decimal.ofInt64 l / Decimal.ofInt64 r))
  | .equal => .ok (.boolean (l == r))
  | .notEqual => .ok (.boolean (l != r))
  | .less => .ok (.boolean (l < r))
  | .lessEq => .ok (.boolean (l ≤ r))
  | .greater => .ok (.boolean (r < l))
  | .greaterEq => .ok (.boolean (r ≤ l))
  | k => .error (.unexpectedOperator k)

/-- The result of a comparison or computation on doubles. -/
def realOperation (op : Token) (quotient : Expr) (l r : Float) :
    Except EvalError Value :=
  match op.kind with
  | .plus => .ok (.real (l + r))
  | .minus => .ok (.real (l - r))
  | .mul => .ok (.real (l * r))
  | .integerDiv =>
    if r == 0 then .error (.at op (.divisionByZero quotient))
    else .ok (.real (Decimal.floor (l / r)))
  | .floatDiv =>
    if r == 0 then .error (.at op (.divisionByZero quotient))
    else .ok (.real (l / r))
  | .equal => .ok (.boolean (l == r))
  | .notEqual => .ok (.boolean (l != r))
  | .less => .ok (.boolean (l < r))
  | .lessEq => .ok (.boolean (l ≤ r))
  | .greater => .ok (.boolean (r < l))
  | .greaterEq => .ok (.boolean (r ≤ l))
  | k => .error (.unexpectedOperator k)

/-- The result of an operator on two values. -/
def operation (op : Token) (quotient : Expr) (l r : Value) :
    Except EvalError Value :=
  match l.toFloat?, r.toFloat? with
  | some lf, some rf =>
    match l.toInteger?, r.toInteger? with
    | some li, some ri => wordOperation op quotient li ri
    | _, _ => realOperation op quotient lf rf
  | _, _ => .error (.at op (.operandMismatch l.kind op.literal r.kind))

/-- The result of a sign before a value. A truth value becomes a whole
number. -/
def withSign (op : Token) : Value → Except EvalError Value
  | .real x => .ok (.real (if op.kind = .minus then -x else x))
  | .integer n => .ok (.integer (if op.kind = .minus then -n else n))
  | .boolean b =>
    .ok (.integer (if op.kind = .minus then -(ofTruth b) else ofTruth b))
  | .waypoint _ _ => .error (.at op (.signMismatch op.literal .waypoint))

end Value

namespace Expr

/-- What a name is bound to. -/
def lookup (values : Table Value) (tok : Token) : Except EvalError Value :=
  match values.get? tok.literal with
  | some v => .ok v
  | none => .error (.at tok (.unassigned tok.literal))

/-- The value of an expression. -/
def eval (values : Table Value) : Expr → Except EvalError Value
  | .integer _ n => .ok (.integer n)
  | .real _ x => .ok (.real x)
  | .boolean _ b => .ok (.boolean b)
  | .name t => lookup values t
  | .signed op e => do
    let v ← e.eval values
    v.withSign op
  | .binary op l r => do
    let rv ← r.eval values
    let lv ← l.eval values
    Value.operation op (.binary op l r) lv rv

/-- An expression as a condition. -/
def evalTruth (values : Table Value) (e : Expr) : Except EvalError Bool := do
  match ← e.eval values with
  | .boolean b => .ok b
  | v => .error (.at e.leading (.conditionNotBoolean e v.kind))

/-- A value of an expression as a number. -/
def numeric (e : Expr) (v : Value) : Except EvalError Float :=
  match v.toFloat? with
  | some x => .ok x
  | none => .error (.at e.leading (.notANumber e v.kind))

/-- An expression as a number. -/
def evalNumber (values : Table Value) (e : Expr) : Except EvalError Float := do
  e.numeric (← e.eval values)

end Expr

/-- The value as the declared type of its target wants it: reals lose their
fraction for an integer, and any number but zero is true. -/
def Value.coerce (declared : Kind) (target : Token) (v : Value) :
    Except EvalError Value :=
  match v.toFloat? with
  | none => .error (.at target (.waypointAssigned target.literal declared))
  | some x =>
    match declared with
    | .tyInteger =>
      match v.toInteger? with
      | some n => .ok (.integer n)
      | none => .ok (.integer (Decimal.truncate x))
    | .tyReal => .ok (.real x)
    | .tyBool => .ok (.boolean (x != 0))
    | k => .error (.at target (.illegalType target.literal k))

/-! ## Moves -/

/-- A move with its operands worked out. -/
structure Motion where
  distance : Float
  speed : Float
  relative : Bool

/-- The speed of a move that gives none. -/
def defaultSpeed : Float := 10

/-- The operands a move works with, and whether it is relative. A name as
distance makes it relative; if a waypoint goes by that name, its pair takes the
place of both operands. -/
def Motion.resolve (values : Table Value) (distance : Expr)
    (speed : Option Expr) : Except EvalError (Expr × Option Expr × Bool) :=
  match distance with
  | .name t => do
    match ← Expr.lookup values t with
    | .waypoint d s => return (d, some s, true)
    | _ => return (distance, speed, true)
  | _ => .ok (distance, speed, false)

/-- Works out the operands of a move, the distance first. -/
def Motion.eval (values : Table Value) (distance : Expr) (speed : Option Expr) :
    Except EvalError Motion := do
  let (d, s, relative) ← resolve values distance speed
  let value ← d.evalNumber values
  let rate ← match s with
    | some e => e.evalNumber values
    | none => .ok defaultSpeed
  return ⟨value, rate, relative⟩

end Fixture
