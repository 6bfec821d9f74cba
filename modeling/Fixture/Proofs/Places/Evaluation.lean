import Mathlib
import Fixture.Evaluate
import Fixture.Proofs.Places
import Fixture.Tables
/-!
# Evaluation without places

Forgetting places commutes with everything that a program computes. The tables
keep places inside the operands of waypoints, and faults have one of their own
and more inside the expressions that they name; all of these can be forgotten as
well. Then an expression without places, over values without places, comes to
what the expression comes to, without places.

No text depends on a place. So two faults that are the same without places are
of the same kind, have the same name and the same wording.

## Main results

* `Expr.eval_unplaced`, `Motion.eval_unplaced`: expressions and moves.
* `Declaration.enterAll_unplaced`: declarations.
* `Fault.Same.of_unplaced`: what is left of faults.
-/

namespace Fixture

/-! ## Values, tables and faults -/

/-- A value with the places in it forgotten. -/
def Value.unplaced : Value → Value
  | .waypoint d s => .waypoint d.unplaced s.unplaced
  | v => v

/-- A table with all its things changed. -/
def Table.map {α β : Type} (f : α → β) (t : Table α) : Table β :=
  ⟨t.entries.map fun e => (e.1, f e.2)⟩

/-- Tables with all places forgotten. -/
def Tables.unplaced (t : Tables) : Tables :=
  { t with values := t.values.map Value.unplaced }

/-- A cause with all places forgotten. -/
def Cause.unplaced : Cause → Cause
  | .conditionNotBoolean e found => .conditionNotBoolean e.unplaced found
  | .notANumber e found => .notANumber e.unplaced found
  | .divisionByZero e => .divisionByZero e.unplaced
  | c => c

/-- A fault with all places forgotten. -/
def Fault.unplaced (f : Fault) : Fault := ⟨f.cause.unplaced, .nowhere⟩

/-- An error with all places forgotten. -/
def EvalError.unplaced : EvalError → EvalError
  | .fault f => .fault f.unplaced
  | .unexpectedOperator op => .unexpectedOperator op

/-- A result with all places forgotten, given how to forget those of a value. -/
def unplacedResult {α β : Type} (f : α → β) :
    Except EvalError α → Except EvalError β
  | .ok a => .ok (f a)
  | .error e => .error e.unplaced

namespace Table

variable {α β : Type}

private theorem lookup_map (f : α → β) (name : String)
    (entries : List (String × α)) :
    (entries.map fun e => (e.1, f e.2)).lookup name =
      (entries.lookup name).map f := by
  induction entries with
  | nil => rfl
  | cons e rest ih =>
      rw [List.map_cons, List.lookup_cons, List.lookup_cons]
      cases name == e.1 with
      | true => rfl
      | false => exact ih

@[simp] theorem get?_map (f : α → β) (t : Table α) (name : String) :
    (t.map f).get? name = (t.get? name).map f :=
  lookup_map f name t.entries

private theorem setEntry_map (f : α → β) (name : String) (a : α)
    (entries : List (String × α)) :
    setEntry name (f a) (entries.map fun e => (e.1, f e.2)) =
      (setEntry name a entries).map fun e => (e.1, f e.2) := by
  induction entries with
  | nil => rfl
  | cons e rest ih =>
      obtain ⟨n, b⟩ := e
      rw [List.map_cons, setEntry, setEntry]
      by_cases hn : n = name
      · rw [if_pos hn, if_pos hn, List.map_cons]
      · rw [if_neg hn, if_neg hn, ih, List.map_cons]

theorem set_map (f : α → β) (t : Table α) (name : String) (a : α) :
    (t.map f).set name (f a) = (t.set name a).map f :=
  congrArg Table.mk (setEntry_map f name a t.entries)

end Table

/-! ## Faults that show the same -/

/-- Faults that show the same, places aside: the same kind, name and wording. -/
def Fault.Same (f g : Fault) : Prop :=
  f.cause.kind = g.cause.kind ∧ f.cause.name = g.cause.name ∧
  f.cause.text = g.cause.text

namespace Cause

private theorem kind_unplaced (c : Cause) : c.unplaced.kind = c.kind := by
  cases c <;> rfl

private theorem name_unplaced (c : Cause) : c.unplaced.name = c.name := by
  cases c <;> rfl

private theorem text_unplaced (c : Cause) : c.unplaced.text = c.text := by
  cases c with
  | conditionNotBoolean e found =>
      exact congrArg
        ("condition " ++ · ++ " is " ++ found.name ++ ", not BOOLEAN")
        e.render_unplaced
  | notANumber e found =>
      exact congrArg (· ++ " is " ++ found.name ++ ", not a number")
        e.render_unplaced
  | divisionByZero e =>
      exact congrArg ("division by zero in " ++ ·) e.render_unplaced
  | _ => rfl

end Cause

/-- **Faults that are the same without places show the same.** -/
theorem Fault.Same.of_unplaced {f g : Fault} (h : f.unplaced = g.unplaced) :
    f.Same g := by
  have hcause : f.cause.unplaced = g.cause.unplaced := congrArg Fault.cause h
  refine ⟨?_, ?_, ?_⟩
  · rw [← f.cause.kind_unplaced, hcause, g.cause.kind_unplaced]
  · rw [← f.cause.name_unplaced, hcause, g.cause.name_unplaced]
  · rw [← f.cause.text_unplaced, hcause, g.cause.text_unplaced]

/-! ## Results in a row -/

private theorem unplacedResult_bind {α β α' β' : Type} {f : α → α'} {g : β → β'}
    {x : Except EvalError α} {x' : Except EvalError α'}
    {k : α → Except EvalError β} {k' : α' → Except EvalError β'}
    (hx : x' = unplacedResult f x)
    (hk : ∀ a, k' (f a) = unplacedResult g (k a)) :
    x' >>= k' = unplacedResult g (x >>= k) := by
  rw [hx]
  cases x with
  | ok a => exact hk a
  | error e => rfl

/-! ## Operators -/

namespace Value

@[simp] theorem kind_unplaced (v : Value) : v.unplaced.kind = v.kind := by
  cases v <;> rfl

@[simp] theorem toFloat?_unplaced (v : Value) :
    v.unplaced.toFloat? = v.toFloat? := by cases v <;> rfl

@[simp] theorem toInteger?_unplaced (v : Value) :
    v.unplaced.toInteger? = v.toInteger? := by cases v <;> rfl

private theorem withSign_unplaced (op : Token) (v : Value) :
    v.unplaced.withSign op.unplaced =
      unplacedResult unplaced (v.withSign op) := by
  cases v <;> rfl

/-- A division is the only operation that may fail, and names itself. -/
private theorem unplacedResult_guarded {c : Prop} [Decidable c] (op : Token)
    (q : Expr) {v : Value} (hv : v.unplaced = v) :
    (if c then .error (.at op.unplaced (.divisionByZero q.unplaced))
      else .ok v : Except EvalError Value) =
      unplacedResult unplaced
        (if c then .error (.at op (.divisionByZero q)) else .ok v) := by
  by_cases hc : c
  · rw [if_pos hc, if_pos hc]
    rfl
  · rw [if_neg hc, if_neg hc, unplacedResult, hv]

private theorem wordOperation_unplaced (op : Token) (q : Expr) (l r : Int64) :
    wordOperation op.unplaced q.unplaced l r =
      unplacedResult unplaced (wordOperation op q l r) := by
  unfold wordOperation
  rw [op.unplaced_kind]
  cases op.kind with
  | integerDiv | floatDiv => exact unplacedResult_guarded op q rfl
  | _ => rfl

private theorem realOperation_unplaced (op : Token) (q : Expr) (l r : Float) :
    realOperation op.unplaced q.unplaced l r =
      unplacedResult unplaced (realOperation op q l r) := by
  unfold realOperation
  rw [op.unplaced_kind]
  cases op.kind with
  | integerDiv | floatDiv => exact unplacedResult_guarded op q rfl
  | _ => rfl

private theorem operation_unplaced (op : Token) (q : Expr) (l r : Value) :
    operation op.unplaced q.unplaced l.unplaced r.unplaced =
      unplacedResult unplaced (operation op q l r) := by
  unfold operation
  rw [toFloat?_unplaced, toFloat?_unplaced, toInteger?_unplaced,
    toInteger?_unplaced, kind_unplaced, kind_unplaced]
  cases l.toFloat? with
  | none => rfl
  | some lf =>
      cases r.toFloat? with
      | none => rfl
      | some rf =>
          cases l.toInteger? with
          | none => exact realOperation_unplaced op q lf rf
          | some li =>
              cases r.toInteger? with
              | none => exact realOperation_unplaced op q lf rf
              | some ri => exact wordOperation_unplaced op q li ri

theorem coerce_unplaced (declared : Kind) (target : Token) (v : Value) :
    v.unplaced.coerce declared target.unplaced =
      unplacedResult unplaced (v.coerce declared target) := by
  unfold coerce
  rw [toFloat?_unplaced, toInteger?_unplaced]
  cases v.toFloat? with
  | none => rfl
  | some x =>
      cases declared with
      | tyInteger => cases v.toInteger? <;> rfl
      | _ => rfl

end Value

/-! ## Expressions -/

namespace Expr

variable (values : Table Value)

private theorem leading_unplaced (e : Expr) :
    e.unplaced.leading = e.leading.unplaced := by
  induction e with
  | binary op l r ihl _ => exact ihl
  | _ => rfl

private theorem lookup_unplaced (t : Token) :
    lookup (values.map Value.unplaced) t.unplaced =
      unplacedResult Value.unplaced (lookup values t) := by
  unfold lookup
  rw [Table.get?_map, Token.unplaced_literal]
  cases values.get? t.literal <;> rfl

/-- **Expressions come to the same without places.** -/
theorem eval_unplaced (e : Expr) :
    e.unplaced.eval (values.map Value.unplaced) =
      unplacedResult Value.unplaced (e.eval values) := by
  induction e with
  | name t => exact lookup_unplaced values t
  | integer t n => rfl
  | real t x => rfl
  | boolean t b => rfl
  | signed op e ih =>
      exact unplacedResult_bind ih fun v => v.withSign_unplaced op
  | binary op l r ihl ihr =>
      exact unplacedResult_bind ihr fun rv => unplacedResult_bind ihl fun lv =>
        Value.operation_unplaced op (.binary op l r) lv rv

theorem evalTruth_unplaced (e : Expr) :
    e.unplaced.evalTruth (values.map Value.unplaced) =
      unplacedResult id (e.evalTruth values) := by
  refine unplacedResult_bind (eval_unplaced values e) fun v => ?_
  cases v with
  | boolean b => rfl
  | integer n | real x | waypoint d s =>
      simp only [Value.unplaced, leading_unplaced]
      rfl

theorem numeric_unplaced (e : Expr) (v : Value) :
    e.unplaced.numeric v.unplaced = unplacedResult id (e.numeric v) := by
  unfold numeric
  rw [Value.toFloat?_unplaced, Value.kind_unplaced, leading_unplaced]
  cases v.toFloat? <;> rfl

private theorem evalNumber_unplaced (e : Expr) :
    e.unplaced.evalNumber (values.map Value.unplaced) =
      unplacedResult id (e.evalNumber values) :=
  unplacedResult_bind (eval_unplaced values e) fun v => numeric_unplaced e v

end Expr

/-! ## Moves -/

namespace Motion

variable (values : Table Value)

/-- The operands of a move with all places forgotten. -/
def unplacedOperands (o : Expr × Option Expr × Bool) :
    Expr × Option Expr × Bool :=
  (o.1.unplaced, o.2.1.map Expr.unplaced, o.2.2)

private theorem resolve_unplaced (distance : Expr) (speed : Option Expr) :
    resolve (values.map Value.unplaced) distance.unplaced
        (speed.map Expr.unplaced) =
      unplacedResult unplacedOperands (resolve values distance speed) := by
  cases distance with
  | name t =>
      refine unplacedResult_bind (Expr.lookup_unplaced values t) fun v => ?_
      cases v <;> rfl
  | _ => rfl

/-- **Moves come to the same without places.** -/
theorem eval_unplaced (distance : Expr) (speed : Option Expr) :
    Motion.eval (values.map Value.unplaced) distance.unplaced
        (speed.map Expr.unplaced) =
      unplacedResult id (Motion.eval values distance speed) := by
  refine unplacedResult_bind (resolve_unplaced values distance speed) fun o =>
    ?_
  obtain ⟨d, s, relative⟩ := o
  refine unplacedResult_bind (Expr.evalNumber_unplaced values d) fun x => ?_
  cases s with
  | none => rfl
  | some e =>
      exact unplacedResult_bind (Expr.evalNumber_unplaced values e) fun rate =>
        rfl

end Motion

/-! ## Declarations -/

namespace Declaration

/-- A declaration with all places forgotten. -/
def unplaced : Declaration → Declaration
  | .variable d => .variable d.unplaced
  | .pin d => .pin d.unplaced
  | .waypoint d => .waypoint d.unplaced

private theorem tok_unplaced (d : Declaration) :
    d.unplaced.tok = d.tok.unplaced := by cases d <;> rfl

private theorem name_unplaced (d : Declaration) : d.unplaced.name = d.name := by
  rw [name, tok_unplaced, Token.unplaced_literal, name]

private theorem enter_unplaced (t : Tables) (d : Declaration) :
    d.unplaced.enter t.unplaced = (d.enter t).unplaced := by
  cases d with
  | «variable» d => rfl
  | pin d => rfl
  | waypoint d =>
      have hset := Table.set_map Value.unplaced t.values d.name
        (.waypoint d.distance d.speed)
      exact congrArg (fun values => { t with values }) hset

/-- **Declarations enter the same without places,** up to the same one. -/
theorem enterAll_unplaced (ds : List Declaration) :
    ∀ (taken : List String) (t : Tables),
      enterAll taken t.unplaced (ds.map unplaced) =
        ((enterAll taken t ds).1.unplaced,
          (enterAll taken t ds).2.map Fault.unplaced) := by
  induction ds with
  | nil => exact fun _ _ => rfl
  | cons d ds ih =>
      intro taken t
      rw [List.map_cons, enterAll, enterAll, name_unplaced, tok_unplaced]
      by_cases hdup : d.name ∈ taken
      · rw [if_pos hdup, if_pos hdup]
        rfl
      · rw [if_neg hdup, if_neg hdup, enter_unplaced, ih]

end Declaration

theorem Block.declarations_unplaced (b : Block) :
    b.unplaced.declarations = b.declarations.map .unplaced := by
  simp only [Block.declarations, Block.unplaced, List.map_append, List.map_map]
  rfl

end Fixture
