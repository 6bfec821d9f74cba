import Mathlib
import Fixture.Run
/-!
# How runs are composed

A program does few things: it tells its host what it is doing, asks for leave,
has calls performed, evaluates conditions, assigns, waits and moves, and it puts
all this in a row and into loops. This module has one equation for each single
action, and one induction over programs: what holds of the single actions, and
goes through sequences and loops, holds of every statement and every program.
Where it holds of some expressions only, it holds of the statements and programs
that have no others; `Stmt.deeds` lists what a statement has.

The induction is about two runs of one program, each on a host of its own, so
that it serves for comparing runs; statements about one run are the case that
ignores the other. A run is looked at from outside by `outcome`, the result it
ends with, and `after`, the world it leaves behind.

## Main results

* `Composes.exec`, `Composes.execAll`: the induction over statements.
* `Composes.block`, `Composes.interpret`: what also holds of declarations holds
  of blocks and of programs.
-/

namespace Fixture

/-- The values that a note shows, if it shows any. -/
def Note.values? : Note → Option (Table Value)
  | .evaluating _ values => some values
  | .moving _ _ values => some values
  | _ => none

namespace World

variable {σ ε : Type}

/-- Worlds are equal if their tables and their hosts' states are. -/
theorem ext {w₁ w₂ : World σ} (htables : w₁.tables = w₂.tables)
    (hhost : w₁.host = w₂.host) : w₁ = w₂ := by
  cases w₁
  cases w₂
  cases htables
  cases hhost
  rfl

/-- The world after the host was told something. -/
def told (h : Host σ ε) (n : Note) (w : World σ) : World σ :=
  ⟨w.tables, h.note n w.host⟩

/-- The world after the host was asked for leave. -/
def checked (h : Host σ ε) (w : World σ) : World σ :=
  ⟨w.tables, (h.check w.tables w.host).2⟩

/-- The world after the host was asked to perform a call. -/
def called (h : Host σ ε) (c : Call) (w : World σ) : World σ :=
  ⟨w.tables, (h.perform c w.tables w.host).2⟩

/-- The world with a name bound to a value. -/
def bound (name : String) (v : Value) (w : World σ) : World σ :=
  { w with tables := { w.tables with values := w.tables.values.set name v } }

/-- The world with the declarations of a block entered, up to the first that is
at fault. -/
def declared (b : Block) (w : World σ) : World σ :=
  { w with tables := (Declaration.enterAll [] w.tables b.declarations).1 }

end World

namespace Run

variable {σ ε α β : Type}

/-- How a run ends. -/
def outcome (x : Run σ ε α) (w : World σ) : Except (Halt ε) α :=
  match x.run w with
  | .ok a _ => .ok a
  | .error e _ => .error e

/-- The world that a run leaves behind, however it ends. -/
def after (x : Run σ ε α) (w : World σ) : World σ :=
  match x.run w with
  | .ok _ w' => w'
  | .error _ w' => w'

theorem outcome_ok {x : Run σ ε α} {w w' : World σ} {a : α}
    (h : x.run w = .ok a w') : x.outcome w = .ok a := by
  rw [outcome, h]

theorem outcome_error {x : Run σ ε α} {w w' : World σ} {e : Halt ε}
    (h : x.run w = .error e w') : x.outcome w = .error e := by
  rw [outcome, h]

theorem after_ok {x : Run σ ε α} {w w' : World σ} {a : α}
    (h : x.run w = .ok a w') : x.after w = w' := by
  rw [after, h]

theorem after_error {x : Run σ ε α} {w w' : World σ} {e : Halt ε}
    (h : x.run w = .error e w') : x.after w = w' := by
  rw [after, h]

theorem run_eq_ok {x : Run σ ε α} {w : World σ} {a : α}
    (h : x.outcome w = .ok a) : x.run w = .ok a (x.after w) := by
  cases hres : x.run w with
  | ok b w' =>
      rw [outcome_ok hres] at h
      rw [after_ok hres, Except.ok.inj h]
  | error e w' =>
      rw [outcome_error hres] at h
      cases h

theorem run_eq_error {x : Run σ ε α} {w : World σ} {e : Halt ε}
    (h : x.outcome w = .error e) : x.run w = .error e (x.after w) := by
  cases hres : x.run w with
  | ok b w' =>
      rw [outcome_ok hres] at h
      cases h
  | error e' w' =>
      rw [outcome_error hres] at h
      rw [after_error hres, Except.error.inj h]

theorem run_bind_ok {x : Run σ ε α} {w w' : World σ} {a : α}
    (h : x.run w = .ok a w') (f : α → Run σ ε β) :
    (x >>= f).run w = (f a).run w' := by
  rw [EStateM.run_bind, h]

theorem run_bind_error {x : Run σ ε α} {w w' : World σ} {e : Halt ε}
    (h : x.run w = .error e w') (f : α → Run σ ε β) :
    (x >>= f).run w = .error e w' := by
  rw [EStateM.run_bind, h]

/-! ## What the actions do

Equations for each action that talks to the host. Nothing below looks into these
actions again. -/

theorem run_tell (h : Host σ ε) (n : Note) (w : World σ) :
    (tell h n).run w = .ok () (w.told h n) := rfl

theorem run_leave (h : Host σ ε) (w : World σ) :
    (leave h).run w = .ok (h.check w.tables w.host).1 (w.checked h) := rfl

theorem run_perform_ok {h : Host σ ε} {c : Call} {w : World σ}
    (hc : (h.perform c w.tables w.host).1 = none) :
    (perform h c).run w = .ok () (w.called h c) := by
  have hcall : (modifyGet fun w : World σ =>
        ((h.perform c w.tables w.host).1, w.called h c) :
          Run σ ε (Option ε)).run w = .ok none (w.called h c) := by
    rw [EStateM.run_modifyGet, hc]
  exact run_bind_ok hcall _

theorem run_perform_error {h : Host σ ε} {c : Call} {w : World σ} {e : ε}
    (hc : (h.perform c w.tables w.host).1 = some e) :
    (perform h c).run w = .error (.failure e) (w.called h c) := by
  have hcall : (modifyGet fun w : World σ =>
        ((h.perform c w.tables w.host).1, w.called h c) :
          Run σ ε (Option ε)).run w = .ok (some e) (w.called h c) := by
    rw [EStateM.run_modifyGet, hc]
  exact run_bind_ok hcall _

theorem run_ofEval_ok (a : α) (f : α → Run σ ε β) (w : World σ) :
    (ofEval (.ok a) >>= f).run w = (f a).run w := rfl

theorem run_ofEval_error (e : EvalError) (f : α → Run σ ε β) (w : World σ) :
    (ofEval (.error e) >>= f).run w = .error (Halt.ofEval e) w := rfl

theorem run_evaluate (h : Host σ ε) (e : Expr) (w : World σ) :
    (evaluate h e).run w =
      (ofEval (e.eval w.tables.values)).run
        (w.told h (.evaluating e w.tables.values)) := rfl

theorem run_condition (h : Host σ ε) (e : Expr) (w : World σ) :
    (condition h e).run w =
      (ofEval (e.evalTruth w.tables.values)).run
        (w.told h (.evaluating e w.tables.values)) := rfl

theorem run_wait (h : Host σ ε) (d : Expr) (w : World σ) :
    (wait h d).run w =
      (ofEval (d.eval w.tables.values) >>= fun v =>
        ofEval (d.numeric v) >>= fun x =>
          perform h (.wait x) >>= fun _ => pure v).run
        (w.told h (.evaluating d w.tables.values)) := by
  show (evaluate h d >>= _).run w = _
  rw [EStateM.run_bind, EStateM.run_bind, run_evaluate]

theorem run_move (h : Host σ ε) (axis : Axis) (d : Expr) (s : Option Expr)
    (w : World σ) :
    (move h axis d s).run w =
      (ofEval (Motion.eval w.tables.values d s) >>= fun m =>
        perform h (.move axis m)).run
        (w.told h (.moving d s w.tables.values)) := rfl

theorem run_assign_undeclared {h : Host σ ε} {target : Token} {w : World σ}
    (hdecl : w.tables.types.get? target.literal = none) (value : Expr) :
    (assign h target value).run w =
      .error (.fault ⟨.undeclared target.literal, target.pos⟩) w := by
  have hget : (get : Run σ ε (World σ)).run w = .ok w w := rfl
  rw [assign, run_bind_ok hget, hdecl]
  rfl

/-- An assignment to a declared variable works the value out over the tables as
they are, and binds it. -/
theorem run_assign {h : Host σ ε} {target : Token} {declared : Kind}
    {w : World σ} (hdecl : w.tables.types.get? target.literal = some declared)
    (value : Expr) :
    (assign h target value).run w =
      (ofEval (value.eval w.tables.values) >>= fun v =>
        ofEval (v.coerce declared target) >>= fun v =>
          modify (World.bound target.literal v)).run
        (w.told h (.evaluating value w.tables.values)) := by
  have hget : (get : Run σ ε (World σ)).run w = .ok w w := rfl
  rw [assign, run_bind_ok hget, hdecl]
  show (evaluate h value >>= _).run w = _
  rw [EStateM.run_bind, EStateM.run_bind, run_evaluate]
  rfl

private theorem run_enterAll {b : Block} {w : World σ} {fault? : Option Fault}
    (hb : (Declaration.enterAll [] w.tables b.declarations).2 = fault?) :
    (modifyGet fun w : World σ =>
        ((Declaration.enterAll [] w.tables b.declarations).2, w.declared b) :
          Run σ ε (Option Fault)).run w = .ok fault? (w.declared b) := by
  rw [EStateM.run_modifyGet, hb]

theorem run_declare_ok {b : Block} {w : World σ}
    (hb : (Declaration.enterAll [] w.tables b.declarations).2 = none) :
    (declare b : Run σ ε Unit).run w = .ok () (w.declared b) :=
  run_bind_ok (run_enterAll hb) _

theorem run_declare_error {b : Block} {w : World σ} {f : Fault}
    (hb : (Declaration.enterAll [] w.tables b.declarations).2 = some f) :
    (declare b : Run σ ε Unit).run w = .error (.fault f) (w.declared b) :=
  run_bind_ok (run_enterAll hb) _

end Run

/-! ## The induction over programs -/

/-- What a statement does by itself, apart from having a call performed. -/
inductive Deed where
  | condition (e : Expr)
  | assign (target : Token) (value : Expr)
  | wait (d : Expr)
  | move (axis : Axis) (d : Expr) (s : Option Expr)

mutual

/-- All that a statement may do, the statements inside it included. -/
@[simp] def Stmt.deeds : Stmt → List Deed
  | .skip => []
  | .compound _ body => deedsEach body
  | .assign _ target value => [.assign target value]
  | .ifThen _ c _ body => .condition c :: deedsEach body
  | .ifElse _ c _ body _ alt =>
    .condition c :: (deedsEach body ++ deedsEach alt)
  | .loop _ _ body c => .condition c :: deedsEach body
  | .wait _ d => [.wait d]
  | .move _ axis d s => [.move axis d s]
  | .home _ => []
  | .stop _ => []

/-- All that statements may do. -/
@[simp] def deedsEach : List Stmt → List Deed
  | [] => []
  | s :: ss => s.deeds ++ deedsEach ss

end

open Run

/-- A relation between actions on two hosts that holds of all that a program
does by itself, as far as that is legal, and goes through sequences, checks and
loops. -/
structure Composes {σ₁ ε₁ σ₂ ε₂ : Type} (h₁ : Host σ₁ ε₁) (h₂ : Host σ₂ ε₂)
    (passes₁ passes₂ : Nat) (legal : Deed → Prop)
    (Φ : ∀ {α : Type}, Run σ₁ ε₁ α → Run σ₂ ε₂ α → Prop) : Prop where
  pure : ∀ {α : Type} (a : α), Φ (pure a) (pure a)
  bind : ∀ {α β : Type} {x : Run σ₁ ε₁ α} {y : Run σ₂ ε₂ α}
      {f : α → Run σ₁ ε₁ β} {g : α → Run σ₂ ε₂ β}, Φ x y →
    (∀ a, Φ (f a) (g a)) → Φ (x >>= f) (y >>= g)
  tell : ∀ n : Note, n.values? = none → Φ (tell h₁ n) (tell h₂ n)
  perform : ∀ c : Call, Φ (perform h₁ c) (perform h₂ c)
  condition : ∀ e : Expr, legal (.condition e) →
    Φ (condition h₁ e) (condition h₂ e)
  assign : ∀ (target : Token) (value : Expr), legal (.assign target value) →
    Φ (assign h₁ target value) (assign h₂ target value)
  wait : ∀ d : Expr, legal (.wait d) → Φ (wait h₁ d) (wait h₂ d)
  move : ∀ (axis : Axis) (d : Expr) (s : Option Expr), legal (.move axis d s) →
    Φ (move h₁ axis d s) (move h₂ axis d s)
  /-- What needs leave, and is not done without. -/
  guarded : ∀ {x : Run σ₁ ε₁ Unit} {y : Run σ₂ ε₂ Unit}, Φ x y →
    Φ (leave h₁ >>= fun granted => if granted then x else throw .cancelled)
      (leave h₂ >>= fun granted => if granted then y else throw .cancelled)
  loop : ∀ {body₁ : Run σ₁ ε₁ Unit} {body₂ : Run σ₂ ε₂ Unit}
      {done₁ : Run σ₁ ε₁ Bool} {done₂ : Run σ₂ ε₂ Bool}, Φ body₁ body₂ →
    Φ done₁ done₂ →
    Φ (repeatUntil h₁ body₁ done₁ passes₁ 1)
      (repeatUntil h₂ body₂ done₂ passes₂ 1)

namespace Composes

variable {σ₁ ε₁ σ₂ ε₂ : Type} {h₁ : Host σ₁ ε₁} {h₂ : Host σ₂ ε₂}
    {passes₁ passes₂ : Nat} {legal : Deed → Prop}
    {Φ : ∀ {α : Type}, Run σ₁ ε₁ α → Run σ₂ ε₂ α → Prop}

mutual

/-- **What goes through sequences and loops holds of statements,** if what they
do is legal. -/
theorem exec (C : Composes h₁ h₂ passes₁ passes₂ legal Φ) :
    ∀ s : Stmt, (∀ d ∈ s.deeds, legal d) →
      Φ (Run.exec h₁ passes₁ s) (Run.exec h₂ passes₂ s)
  | .skip, _ => C.bind (C.tell _ rfl) fun _ => C.pure none
  | .compound _ body, hs =>
      C.bind (C.tell _ rfl) fun _ =>
        C.bind (C.execAll body hs) fun _ => C.pure none
  | .assign _ target value, hs =>
      C.bind (C.tell _ rfl) fun _ =>
        C.bind (C.assign target value (hs _ (List.mem_singleton_self _)))
          fun _ => C.pure none
  | .ifThen _ c _ body, hs => by
      rw [Run.exec, Run.exec]
      simp only [Stmt.deeds, List.forall_mem_cons] at hs
      refine C.bind (C.tell _ rfl) fun _ =>
        C.bind (C.condition c hs.1) fun holds => ?_
      cases holds with
      | false => exact C.bind (C.tell _ rfl) fun _ => C.pure none
      | true =>
          exact C.bind (C.tell _ rfl) fun _ =>
            C.bind (C.execAll body hs.2) fun _ => C.pure none
  | .ifElse _ c _ body _ alt, hs => by
      rw [Run.exec, Run.exec]
      simp only [Stmt.deeds, List.forall_mem_cons, List.forall_mem_append] at hs
      refine C.bind (C.tell _ rfl) fun _ =>
        C.bind (C.condition c hs.1) fun holds => ?_
      cases holds with
      | false =>
          exact C.bind (C.tell _ rfl) fun _ =>
            C.bind (C.execAll alt hs.2.2) fun _ => C.pure none
      | true =>
          exact C.bind (C.tell _ rfl) fun _ =>
            C.bind (C.execAll body hs.2.1) fun _ => C.pure none
  | .loop _ _ body c, hs => by
      rw [Run.exec, Run.exec]
      simp only [Stmt.deeds, List.forall_mem_cons] at hs
      have hbody : Φ
          (Run.tell h₁ (.visiting compoundLabel) *> Run.execAll h₁ passes₁ body)
          (Run.tell h₂ (.visiting compoundLabel) *>
            Run.execAll h₂ passes₂ body) :=
        C.bind (C.tell _ rfl) fun _ => C.execAll body hs.2
      exact C.bind (C.tell _ rfl) fun _ =>
        C.bind (C.loop hbody (C.condition c hs.1)) fun _ => C.pure none
  | .wait _ d, hs =>
      C.bind (C.tell _ rfl) fun _ =>
        C.bind (C.wait d (hs _ (List.mem_singleton_self _))) fun v =>
          C.pure (some v)
  | .move _ axis d s, hs =>
      C.bind (C.tell _ rfl) fun _ =>
        C.bind (C.move axis d s (hs _ (List.mem_singleton_self _))) fun _ =>
          C.pure none
  | .home _, _ =>
      C.bind (C.tell _ rfl) fun _ =>
        C.bind (C.perform .home) fun _ => C.pure none
  | .stop _, _ =>
      C.bind (C.tell _ rfl) fun _ =>
        C.bind (C.perform .stop) fun _ => C.pure none

/-- **What goes through sequences and loops holds of statements in a row,** if
what they do is legal. -/
theorem execAll (C : Composes h₁ h₂ passes₁ passes₂ legal Φ) :
    ∀ ss : List Stmt, (∀ d ∈ deedsEach ss, legal d) →
      Φ (Run.execAll h₁ passes₁ ss) (Run.execAll h₂ passes₂ ss)
  | [], _ => C.pure ()
  | s :: ss, hss => by
      rw [Run.execAll, Run.execAll]
      simp only [deedsEach, List.forall_mem_append] at hss
      exact C.guarded (C.bind (C.bind (C.exec s hss.1) fun _ => C.pure ())
        fun _ => C.execAll ss hss.2)

end

/-- **What also holds of declarations holds of blocks.** -/
theorem block (C : Composes h₁ h₂ passes₁ passes₂ legal Φ) {b : Block}
    (hd : Φ (declare b) (declare b)) (hb : ∀ d ∈ deedsEach b.body, legal d) :
    Φ (Run.block h₁ passes₁ b) (Run.block h₂ passes₂ b) :=
  C.bind (C.tell _ rfl) fun _ =>
    C.bind hd fun _ => C.bind (C.tell _ rfl) fun _ => C.execAll b.body hb

/-- **What also holds of declarations holds of programs.** -/
theorem interpret (C : Composes h₁ h₂ passes₁ passes₂ legal Φ) {p : Program}
    (hd : Φ (declare p.block) (declare p.block))
    (hp : ∀ d ∈ deedsEach p.block.body, legal d) :
    Φ (Run.interpret h₁ passes₁ p) (Run.interpret h₂ passes₂ p) := by
  have hvisit : Φ (visit h₁ passes₁ (.program p))
      (visit h₂ passes₂ (.program p)) :=
    C.bind (C.tell _ rfl) fun _ => C.bind (C.block hd hp) fun _ => C.pure none
  exact C.bind (C.tell _ rfl) fun _ => C.bind hvisit fun _ => C.pure ()

end Composes

end Fixture
