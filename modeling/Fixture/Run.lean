import Fixture.Run.Host
import Fixture.Run.Node
/-!
# Running programs

The interpreter. A run changes a `World`: the tables of the program and the
state of its host. It ends with a result or with a `Halt`, and in both cases the
world is there to be looked at: whatever was assigned before an error stays
assigned.

A loop may go on for ever, so runs take a number of passes that no single loop
may exceed. A run that would is `unfinished`, which is an outcome of its own and
no error of the program. Every pass asks the host for leave first, so a host
that stops giving it after `n` checks ends every run that may make `n + 1`
passes.
-/

namespace Fixture

/-- Why a run ended before its time. -/
inductive Halt (ε : Type) where
  /-- An expression or declaration of the program was at fault. -/
  | fault (f : Fault)
  /-- The host could not perform a call. -/
  | failure (e : ε)
  /-- The host gave no leave to go on. -/
  | cancelled
  /-- An operation has a token that is no operator. No source leads here. -/
  | unexpectedOperator (op : Kind)
  /-- A node was visited that has no meaning by itself. No source leads here. -/
  | unexpectedNode (label : String)
  /-- A loop went through all the passes it was given. -/
  | unfinished

/-- Why a run ended, given the texts of what the host can answer. -/
def Halt.message {ε : Type} (text : ε → String) : Halt ε → String
  | .fault f => f.message
  | .failure e => text e
  | .cancelled => "context canceled"
  | .unexpectedOperator k => "unexpected operator: " ++ k.name
  | .unexpectedNode label => "unexpected node: " ++ label
  | .unfinished => "unfinished"

/-- An expression that has no value ends the run. -/
def Halt.ofEval {ε : Type} : EvalError → Halt ε
  | .fault f => .fault f
  | .unexpectedOperator k => .unexpectedOperator k

/-- What a run works on. -/
structure World (σ : Type) where
  tables : Tables
  host : σ

/-- An action of a run. -/
abbrev Run (σ ε α : Type) := EStateM (Halt ε) (World σ) α

namespace Run

variable {σ ε : Type}

/-! ## Talking to the host -/

/-- Tells the host something. -/
def tell (h : Host σ ε) (n : Note) : Run σ ε Unit :=
  modify fun w => { w with host := h.note n w.host }

/-- Asks the host for leave to go on. -/
def leave (h : Host σ ε) : Run σ ε Bool :=
  modifyGet fun w =>
    let (granted, s) := h.check w.tables w.host
    (granted, { w with host := s })

/-- Has the host perform a call. -/
def perform (h : Host σ ε) (c : Call) : Run σ ε Unit := do
  let failure ← modifyGet fun w =>
    let (failure, s) := h.perform c w.tables w.host
    (failure, { w with host := s })
  match failure with
  | none => return ()
  | some e => throw (.failure e)

/-! ## Expressions -/

/-- Takes the result of an evaluation into the run. -/
def ofEval {α : Type} : Except EvalError α → Run σ ε α
  | .ok a => return a
  | .error e => throw (Halt.ofEval e)

/-- The value of an expression. -/
def evaluate (h : Host σ ε) (e : Expr) : Run σ ε Value := do
  let w ← get
  tell h (.evaluating e w.tables.values)
  ofEval (e.eval w.tables.values)

/-- An expression as a condition. -/
def condition (h : Host σ ε) (e : Expr) : Run σ ε Bool := do
  let w ← get
  tell h (.evaluating e w.tables.values)
  ofEval (e.evalTruth w.tables.values)

/-! ## Statements -/

/-- Assigns a value to a declared variable. An undeclared target is noticed
before the value is evaluated. -/
def assign (h : Host σ ε) (target : Token) (value : Expr) : Run σ ε Unit := do
  let w ← get
  match w.tables.types.get? target.literal with
  | none => throw (.fault ⟨.undeclared target.literal, target.pos⟩)
  | some declared =>
    let v ← evaluate h value
    let v ← ofEval (v.coerce declared target)
    modify fun w => { w with
      tables :=
        { w.tables with values := w.tables.values.set target.literal v } }

/-- Waits, and gives the duration as it was written. -/
def wait (h : Host σ ε) (duration : Expr) : Run σ ε Value := do
  let v ← evaluate h duration
  let seconds ← ofEval (duration.numeric v)
  perform h (.wait seconds)
  return v

/-- Moves along an axis. -/
def move (h : Host σ ε) (axis : Axis) (distance : Expr) (speed : Option Expr) :
    Run σ ε Unit := do
  let w ← get
  tell h (.moving distance speed w.tables.values)
  let m ← ofEval (Motion.eval w.tables.values distance speed)
  perform h (.move axis m)

/-- Goes through a body until a condition holds, once at least and `passes`
times at most. -/
def repeatUntil (h : Host σ ε) (body : Run σ ε Unit) (done : Run σ ε Bool) :
    (passes : Nat) → (pass : Nat) → Run σ ε Unit
  | 0, _ => throw .unfinished
  | passes + 1, pass => do
    if ← leave h then
      body
      if ← done then return ()
      else repeatUntil h body done passes (pass + 1)
    else
      tell h (.interrupted pass)
      throw .cancelled

mutual

/-- Executes a statement. Only waiting gives a value. -/
def exec (h : Host σ ε) (passes : Nat) (s : Stmt) : Run σ ε (Option Value) := do
  tell h (.visiting s.label)
  match s with
  | .skip => return none
  | .compound _ body =>
    execAll h passes body
    return none
  | .assign _ target value =>
    assign h target value
    return none
  | .ifThen _ c _ body =>
    if ← condition h c then
      tell h (.visiting compoundLabel)
      execAll h passes body
    else tell h (.visiting skipLabel)
    return none
  | .ifElse _ c _ body _ alt =>
    if ← condition h c then
      tell h (.visiting compoundLabel)
      execAll h passes body
    else
      tell h (.visiting compoundLabel)
      execAll h passes alt
    return none
  | .loop _ _ body c =>
    repeatUntil h (tell h (.visiting compoundLabel) *> execAll h passes body)
      (condition h c) passes 1
    return none
  | .wait _ d => return some (← wait h d)
  | .move _ axis d s =>
    move h axis d s
    return none
  | .home _ =>
    perform h .home
    return none
  | .stop _ =>
    perform h .stop
    return none

/-- Executes statements in a row, with leave of the host before each of them. -/
def execAll (h : Host σ ε) (passes : Nat) : List Stmt → Run σ ε Unit
  | [] => return ()
  | s :: ss => do
    if ← leave h then
      discard (exec h passes s)
      execAll h passes ss
    else throw .cancelled

end

/-! ## Programs -/

/-- Enters the declarations of a block. -/
def declare (b : Block) : Run σ ε Unit := do
  let fault ← modifyGet fun w =>
    let (t, fault) := Declaration.enterAll [] w.tables b.declarations
    (fault, { w with tables := t })
  match fault with
  | none => return ()
  | some f => throw (.fault f)

/-- Runs a block: its declarations, then its body. -/
def block (h : Host σ ε) (passes : Nat) (b : Block) : Run σ ε Unit := do
  tell h (.visiting (Node.block b).label)
  declare b
  tell h (.visiting compoundLabel)
  execAll h passes b.body

/-- Visits a node. Only waiting and expressions give a value. -/
def visit (h : Host σ ε) (passes : Nat) : Node → Run σ ε (Option Value)
  | .program p => do
    tell h (.visiting (Node.program p).label)
    block h passes p.block
    return none
  | .block b => do
    block h passes b
    return none
  | .statement s => exec h passes s
  | .expression e => do return some (← evaluate h e)
  | n => do
    tell h (.visiting n.label)
    throw (.unexpectedNode n.label)

/-- Runs a program to its end. -/
def interpret (h : Host σ ε) (passes : Nat) (p : Program) : Run σ ε Unit := do
  tell h (.interpreting p.name)
  discard (visit h passes (.program p))

/-- More passes than any loop can make in a lifetime, for runs that nobody means
to cut short. -/
def ample : Nat := Nat.pow 2 62

end Run

end Fixture
