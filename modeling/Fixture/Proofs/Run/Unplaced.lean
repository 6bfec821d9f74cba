import Fixture.Proofs.Places.Evaluation
import Fixture.Proofs.Places.Reading
import Fixture.Proofs.Run.History
import Fixture.Proofs.Run.Passes
import Fixture.Proofs.Grammar.Accepts
import Fixture.Proofs.Spelling
/-!
# Runs without places

Where the tokens of a program stand does not show when it runs, except in the
places of faults. So a program is run beside the same program without places,
from tables without places: the calls are the same, tables and faults are the
same without places. Two programs that are the same up to places run beside one
and the same, hence alike.

What is noted is left out of account. Of the checks that the two runs have made
it is left open how they belong together, as long as they get the same leave:
for a program and the same one without places the numbers are equal, but other
transformations of programs add checks and leave some out.

## Main results

* `exec_ifThen_beside` and its likes, `interpret_beside`: what is put together
  from parts that run beside each other.
* `exec_unplaced`, `interpret_unplaced`: statements and programs beside
  themselves without places.
* `sameEnd_of_beside`: two runs beside one and the same end alike.
* `interpret_layout`: sources that differ in layout.
-/

namespace Fixture

open Run Pairing

variable {μ ε α β : Type}

/-! ## Beside a run without places -/

/-- Runs of which the second one knows no places. Notes are left out of account,
and `checks` says which numbers of checks belong together. -/
def unplacing (checks : Nat → Nat → Prop) (μ ε : Type) :
    Pairing (Rig μ) ε (Rig μ) ε where
  worlds w₁ w₂ :=
    w₂.tables = w₁.tables.unplaced ∧ w₂.host.machine = w₁.host.machine ∧
    checks w₁.host.checks w₂.host.checks
  halts := Halt.Alike (fun f g => g = f.unplaced) Eq
  cut _ _ _ := False

/-- Two actions side by side, whatever values they give. -/
abbrev Beside (checks : Nat → Nat → Prop) (x : Run (Rig μ) ε α)
    (y : Run (Rig μ) ε β) : Prop :=
  (unplacing checks μ ε).Pairs (fun _ _ => True) x y

variable {checks : Nat → Nat → Prop}

theorem pairs_bind {α' β' : Type} {values : α → β → Prop}
    {values' : α' → β' → Prop} {x : Run (Rig μ) ε α} {y : Run (Rig μ) ε β}
    {f : α → Run (Rig μ) ε α'} {g : β → Run (Rig μ) ε β'}
    (hx : (unplacing checks μ ε).Pairs values x y)
    (hf : ∀ a b, values a b →
      (unplacing checks μ ε).Pairs values' (f a) (g b)) :
    (unplacing checks μ ε).Pairs values' (x >>= f) (y >>= g) :=
  hx.bind hf fun _ _ _ _ hc => hc.elim

namespace Beside

variable {x : Run (Rig μ) ε α} {y : Run (Rig μ) ε β}

theorem pure (a : α) (b : β) :
    Beside checks (Pure.pure a : Run (Rig μ) ε α) (Pure.pure b) :=
  Pairs.pure trivial

theorem bind {α' β' : Type} {f : α → Run (Rig μ) ε α'}
    {g : β → Run (Rig μ) ε β'} (hx : Beside checks x y)
    (hf : ∀ a b, Beside checks (f a) (g b)) :
    Beside checks (x >>= f) (y >>= g) :=
  pairs_bind hx fun a b _ => hf a b

end Beside

/-! ## Single actions -/

section Actions

variable (m : Machine μ ε) (limit : Option Nat)

theorem Beside.tell (n n' : Note) :
    Beside checks (tell (m.host limit) n) (tell (m.host limit) n') :=
  fun _ _ hw => .ok trivial hw

private theorem pairs_ofEval {f : α → β} {r : Except EvalError α}
    {r' : Except EvalError β} (h : r' = unplacedResult f r) :
    (unplacing checks μ ε).Pairs (fun a b => b = f a) (ofEval r)
      (ofEval r') := by
  rw [h]
  cases r with
  | ok a => exact Pairs.pure rfl
  | error e =>
      refine Pairs.throw ?_
      cases e with
      | fault f => exact .fault rfl
      | unexpectedOperator op => exact .unexpectedOperator op

theorem perform_beside (c : Call) :
    Beside checks (perform (m.host limit) c) (perform (m.host limit) c) := by
  intro w₁ w₂ hw
  have hreply : m.act c w₂.host.machine = m.act c w₁.host.machine := by
    rw [hw.2.1]
  have hworlds : (unplacing checks μ ε).worlds (w₁.called (m.host limit) c)
      (w₂.called (m.host limit) c) :=
    ⟨hw.1, congrArg Reply.state hreply, hw.2.2⟩
  cases hc : (m.act c w₁.host.machine).failure with
  | none =>
      rw [run_perform_ok hc,
        run_perform_ok ((congrArg Reply.failure hreply).trans hc)]
      exact .ok trivial hworlds
  | some e =>
      rw [run_perform_error hc,
        run_perform_error ((congrArg Reply.failure hreply).trans hc)]
      exact .error (.failure rfl) hworlds

theorem condition_pairs (c : Expr) :
    (unplacing checks μ ε).Pairs (fun a b => b = a) (condition (m.host limit) c)
      (condition (m.host limit) c.unplaced) := by
  refine Pairs.of_run fun w₁ w₂ hw => ⟨_, _, _, _,
    run_condition (m.host limit) c w₁,
    run_condition (m.host limit) c.unplaced w₂, hw, ?_⟩
  rw [hw.1]
  exact pairs_ofEval (Expr.evalTruth_unplaced w₁.tables.values c)

theorem wait_beside (d : Expr) :
    Beside checks (wait (m.host limit) d) (wait (m.host limit) d.unplaced) := by
  refine Pairs.of_run fun w₁ w₂ hw => ⟨_, _, _, _, run_wait (m.host limit) d w₁,
    run_wait (m.host limit) d.unplaced w₂, hw, ?_⟩
  rw [hw.1]
  refine pairs_bind (pairs_ofEval (Expr.eval_unplaced w₁.tables.values d))
    fun v v' hv => ?_
  rw [hv]
  refine pairs_bind (pairs_ofEval (Expr.numeric_unplaced d v)) fun x x' hx => ?_
  rw [hx]
  exact (perform_beside m limit _).bind fun _ _ => Beside.pure _ _

theorem move_beside (axis : Axis) (d : Expr) (s : Option Expr) :
    Beside checks (move (m.host limit) axis d s)
      (move (m.host limit) axis d.unplaced (s.map Expr.unplaced)) := by
  refine Pairs.of_run fun w₁ w₂ hw => ⟨_, _, _, _,
    run_move (m.host limit) axis d s w₁,
    run_move (m.host limit) axis d.unplaced _ w₂, hw, ?_⟩
  rw [hw.1]
  refine pairs_bind (pairs_ofEval (Motion.eval_unplaced w₁.tables.values d s))
    fun v v' hv => ?_
  rw [hv]
  exact perform_beside m limit _

private theorem bound_beside (name : String) (v : Value) :
    Beside checks (modify (World.bound name v) : Run (Rig μ) ε Unit)
      (modify (World.bound name v.unplaced)) := by
  intro w₁ w₂ hw
  refine .ok trivial ⟨?_, hw.2⟩
  show (World.bound name v.unplaced w₂).tables =
    (World.bound name v w₁).tables.unplaced
  rw [World.bound, World.bound, hw.1]
  exact congrArg (fun values => { w₁.tables with values })
    (Table.set_map Value.unplaced w₁.tables.values name v)

theorem assign_beside (target : Token) (value : Expr) :
    Beside checks (assign (m.host limit) target value)
      (assign (m.host limit) target.unplaced value.unplaced) := by
  intro w₁ w₂ hw
  have htypes : w₂.tables.types.get? target.unplaced.literal =
      w₁.tables.types.get? target.literal := by
    rw [hw.1]
    rfl
  cases hdecl : w₁.tables.types.get? target.literal with
  | none =>
      rw [run_assign_undeclared hdecl,
        run_assign_undeclared (htypes.trans hdecl)]
      exact .error (.fault rfl) hw
  | some declared =>
      rw [run_assign hdecl, run_assign (htypes.trans hdecl), hw.1]
      have hrest : Beside checks
          (ofEval (value.eval w₁.tables.values) >>= fun v =>
            ofEval (v.coerce declared target) >>= fun v =>
              modify (World.bound target.literal v) : Run (Rig μ) ε Unit)
          (ofEval
              (value.unplaced.eval (w₁.tables.values.map Value.unplaced)) >>=
            fun v =>
              ofEval (v.coerce declared target.unplaced) >>= fun v =>
                modify (World.bound target.literal v)) := by
        refine pairs_bind
          (pairs_ofEval (Expr.eval_unplaced w₁.tables.values value))
          fun v v' hv => ?_
        rw [hv]
        refine pairs_bind
          (pairs_ofEval (Value.coerce_unplaced declared target v))
          fun u u' hu => ?_
        rw [hu]
        exact bound_beside target.literal u
      exact hrest _ _ hw

theorem declare_beside (b : Block) :
    Beside checks (declare b : Run (Rig μ) ε Unit) (declare b.unplaced) := by
  intro w₁ w₂ hw
  have henter := Declaration.enterAll_unplaced b.declarations [] w₁.tables
  rw [← Block.declarations_unplaced, ← hw.1] at henter
  have hworlds : (unplacing checks μ ε).worlds (w₁.declared b)
      (w₂.declared b.unplaced) :=
    ⟨congrArg Prod.fst henter, hw.2⟩
  cases hfault : (Declaration.enterAll [] w₁.tables b.declarations).2 with
  | none =>
      have hfault' : (Declaration.enterAll [] w₂.tables
          b.unplaced.declarations).2 = none := by
        rw [henter, hfault]
        rfl
      rw [run_declare_ok hfault, run_declare_ok hfault']
      exact .ok trivial hworlds
  | some f =>
      have hfault' : (Declaration.enterAll [] w₂.tables
          b.unplaced.declarations).2 = some f.unplaced := by
        rw [henter, hfault]
        rfl
      rw [run_declare_error hfault, run_declare_error hfault']
      exact .error (.fault rfl) hworlds

/-- Numbers of checks that belong together get the same leave, and belong
together after one check more. -/
def Machine.Counted (limit : Option Nat) (checks : Nat → Nat → Prop) : Prop :=
  ∀ a b, checks a b →
    Machine.allows limit b = Machine.allows limit a ∧ checks (a + 1) (b + 1)

variable {limit} (hlimit : Machine.Counted limit checks)

include hlimit

private theorem pairs_guarded {values : α → β → Prop} {x z : Run (Rig μ) ε α}
    {y z' : Run (Rig μ) ε β} (hx : (unplacing checks μ ε).Pairs values x y)
    (hz : (unplacing checks μ ε).Pairs values z z') :
    (unplacing checks μ ε).Pairs values
      (leave (m.host limit) >>= fun granted => if granted then x else z)
      (leave (m.host limit) >>= fun granted => if granted then y else z') := by
  intro w₁ w₂ hw
  obtain ⟨hsame, hchecks⟩ := hlimit _ _ hw.2.2
  have hworlds : (unplacing checks μ ε).worlds (w₁.checked (m.host limit))
      (w₂.checked (m.host limit)) :=
    ⟨hw.1, hw.2.1, hchecks⟩
  rw [run_bind_ok (run_leave _ w₁), run_bind_ok (run_leave _ w₂)]
  show (unplacing checks μ ε).Linked values
    ((if Machine.allows limit w₁.host.checks then x else z).run _)
    ((if Machine.allows limit w₂.host.checks then y else z').run _)
  rw [hsame]
  cases Machine.allows limit w₁.host.checks with
  | false => exact hz _ _ hworlds
  | true => exact hx _ _ hworlds

theorem repeatUntil_beside {body body' : Run (Rig μ) ε Unit}
    {done done' : Run (Rig μ) ε Bool} (hbody : Beside checks body body')
    (hdone : (unplacing checks μ ε).Pairs (fun a b => b = a) done done')
    (passes : Nat) :
    ∀ pass, Beside checks (repeatUntil (m.host limit) body done passes pass)
      (repeatUntil (m.host limit) body' done' passes pass) := by
  induction passes with
  | zero => exact fun _ => Pairs.throw .unfinished
  | succ passes ih =>
      intro pass
      refine pairs_guarded m hlimit ?_
        ((Beside.tell m limit _ _).bind fun _ _ => Pairs.throw .cancelled)
      refine hbody.bind fun _ _ => pairs_bind hdone fun a b hab => ?_
      rw [hab]
      cases a with
      | true => exact Beside.pure () ()
      | false => exact ih (pass + 1)

end Actions

/-! ## Statements and programs -/

/-- Programs run beside each other if their declarations and their statements
do. -/
theorem interpret_beside (m : Machine μ ε) (limit : Option Nat) (passes : Nat)
    {p q : Program}
    (hdeclare :
      Beside checks (declare p.block : Run (Rig μ) ε Unit) (declare q.block))
    (hbody : Beside checks (execAll (m.host limit) passes p.block.body)
      (execAll (m.host limit) passes q.block.body)) :
    Beside checks (interpret (m.host limit) passes p)
      (interpret (m.host limit) passes q) := by
  have hblock : Beside checks (block (m.host limit) passes p.block)
      (block (m.host limit) passes q.block) :=
    (Beside.tell m limit _ _).bind fun _ _ => hdeclare.bind fun _ _ =>
      (Beside.tell m limit _ _).bind fun _ _ => hbody
  have hvisit : Beside checks (visit (m.host limit) passes (.program p))
      (visit (m.host limit) passes (.program q)) :=
    (Beside.tell m limit _ _).bind fun _ _ => hblock.bind fun _ _ =>
      Beside.pure none none
  exact (Beside.tell m limit _ _).bind fun _ _ => hvisit.bind fun _ _ =>
    Beside.pure () ()

section Statements

variable (m : Machine μ ε) {limit : Option Nat}
    (hlimit : Machine.Counted limit checks) (passes : Nat)
    {body body' alt alt' : List Stmt}
    (hbody : Beside checks (execAll (m.host limit) passes body)
      (execAll (m.host limit) passes body'))

section Bodies

include hbody

/-! Statements run beside each other if their bodies do. -/

theorem exec_ifThen_beside (t t' u u' : Token) (c : Expr) :
    Beside checks (exec (m.host limit) passes (.ifThen t c u body))
      (exec (m.host limit) passes (.ifThen t' c.unplaced u' body')) := by
  rw [exec, exec]
  refine (Beside.tell m limit _ _).bind fun _ _ =>
    pairs_bind (condition_pairs m limit c) fun a b hab => ?_
  rw [hab]
  cases a with
  | false =>
      exact (Beside.tell m limit _ _).bind fun _ _ => Beside.pure none none
  | true =>
      exact (Beside.tell m limit _ _).bind fun _ _ =>
        hbody.bind fun _ _ => Beside.pure none none

theorem exec_ifElse_beside
    (halt : Beside checks (execAll (m.host limit) passes alt)
      (execAll (m.host limit) passes alt')) (t t' u u' v v' : Token)
    (c : Expr) :
    Beside checks (exec (m.host limit) passes (.ifElse t c u body v alt))
      (exec (m.host limit) passes
        (.ifElse t' c.unplaced u' body' v' alt')) := by
  rw [exec, exec]
  refine (Beside.tell m limit _ _).bind fun _ _ =>
    pairs_bind (condition_pairs m limit c) fun a b hab => ?_
  rw [hab]
  cases a with
  | false =>
      exact (Beside.tell m limit _ _).bind fun _ _ =>
        halt.bind fun _ _ => Beside.pure none none
  | true =>
      exact (Beside.tell m limit _ _).bind fun _ _ =>
        hbody.bind fun _ _ => Beside.pure none none

include hlimit

theorem exec_loop_beside (t t' u u' : Token) (c : Expr) :
    Beside checks (exec (m.host limit) passes (.loop t u body c))
      (exec (m.host limit) passes (.loop t' u' body' c.unplaced)) := by
  rw [exec, exec]
  have hpass : Beside checks
      (tell (m.host limit) (.visiting compoundLabel) *>
        execAll (m.host limit) passes body)
      (tell (m.host limit) (.visiting compoundLabel) *>
        execAll (m.host limit) passes body') :=
    (Beside.tell m limit _ _).bind fun _ _ => hbody
  have hloop :=
    repeatUntil_beside m hlimit hpass (condition_pairs m limit c) passes 1
  exact (Beside.tell m limit _ _).bind fun _ _ =>
    hloop.bind fun _ _ => Beside.pure none none

end Bodies

include hlimit

mutual

/-- **Statements run beside themselves without places.** -/
theorem exec_unplaced : ∀ s : Stmt,
    Beside checks (exec (m.host limit) passes s)
      (exec (m.host limit) passes s.unplaced)
  | .skip => (Beside.tell m limit _ _).bind fun _ _ => Beside.pure none none
  | .compound _ body =>
      (Beside.tell m limit _ _).bind fun _ _ =>
        (execAll_unplaced body).bind fun _ _ => Beside.pure none none
  | .assign _ target value =>
      (Beside.tell m limit _ _).bind fun _ _ =>
        (assign_beside m limit target value).bind fun _ _ =>
          Beside.pure none none
  | .ifThen _ c _ body =>
      exec_ifThen_beside m passes (execAll_unplaced body) _ _ _ _ c
  | .ifElse _ c _ body _ alt =>
      exec_ifElse_beside m passes (execAll_unplaced body)
        (execAll_unplaced alt) _ _ _ _ _ _ c
  | .loop _ _ body c =>
      exec_loop_beside m hlimit passes (execAll_unplaced body) _ _ _ _ c
  | .wait _ d =>
      (Beside.tell m limit _ _).bind fun _ _ =>
        (wait_beside m limit d).bind fun v v' => Beside.pure (some v) (some v')
  | .move _ axis d s =>
      (Beside.tell m limit _ _).bind fun _ _ =>
        (move_beside m limit axis d s).bind fun _ _ => Beside.pure none none
  | .home _ =>
      (Beside.tell m limit _ _).bind fun _ _ =>
        (perform_beside m limit .home).bind fun _ _ => Beside.pure none none
  | .stop _ =>
      (Beside.tell m limit _ _).bind fun _ _ =>
        (perform_beside m limit .stop).bind fun _ _ => Beside.pure none none

/-- **Statements in a row run beside themselves without places.** -/
theorem execAll_unplaced : ∀ ss : List Stmt,
    Beside checks (execAll (m.host limit) passes ss)
      (execAll (m.host limit) passes (unplacedEach ss))
  | [] => Beside.pure () ()
  | s :: ss => by
      rw [unplacedEach, execAll, execAll]
      refine pairs_guarded m hlimit ?_ (Pairs.throw .cancelled)
      exact ((exec_unplaced s).bind fun _ _ => Beside.pure () ()).bind
        fun _ _ => execAll_unplaced ss

end

/-- **Programs run beside themselves without places.** -/
theorem interpret_unplaced (p : Program) :
    Beside checks (interpret (m.host limit) passes p)
      (interpret (m.host limit) passes p.unplaced) :=
  interpret_beside m limit passes (declare_beside p.block)
    (execAll_unplaced m hlimit passes p.block.body)

end Statements

/-! ## Runs that end alike -/

/-- Two runs have ended alike: outcomes agree, with faults that show the same,
the machine is in the same state, and the tables are the same up to places. -/
structure SameEnd (o₁ : Except (Halt ε) Unit) (w₁ : World (Rig μ))
    (o₂ : Except (Halt ε) Unit) (w₂ : World (Rig μ)) : Prop where
  outcomes : Agree Eq (Halt.Alike Fault.Same Eq) o₁ o₂
  machines : w₁.host.machine = w₂.host.machine
  types : w₁.tables.types = w₂.tables.types
  pins : w₁.tables.pins = w₂.tables.pins
  values : w₁.tables.values.map Value.unplaced =
    w₂.tables.values.map Value.unplaced

/-- Outcomes that agree with one outcome, places forgotten, agree. -/
private theorem agree_of_unplaced {o₁ o₂ o : Except (Halt ε) Unit}
    (h₁ : Agree (fun _ _ => True) (unplacing checks μ ε).halts o₁ o)
    (h₂ : Agree (fun _ _ => True) (unplacing checks μ ε).halts o₂ o) :
    Agree Eq (Halt.Alike Fault.Same Eq) o₁ o₂ := by
  cases h₁ with
  | ok _ =>
      cases h₂ with
      | ok _ => exact .ok rfl
  | error h₁ =>
      cases h₂ with
      | error h₂ =>
          refine .error ?_
          cases h₁ with
          | fault h₁ =>
              cases h₂ with
              | fault h₂ => exact .fault (.of_unplaced (h₁.symm.trans h₂))
          | failure h₁ =>
              cases h₂ with
              | failure h₂ => exact .failure (h₁.trans h₂.symm)
          | cancelled =>
              cases h₂
              exact .cancelled
          | unexpectedOperator op =>
              cases h₂
              exact .unexpectedOperator op
          | unexpectedNode label =>
              cases h₂
              exact .unexpectedNode label
          | unfinished =>
              cases h₂
              exact .unfinished

/-- **Two runs beside one and the same end alike.** -/
theorem sameEnd_of_beside {x y z : Run (Rig μ) ε Unit} (hx : Beside checks x z)
    (hy : Beside checks y z) (w : World (Rig μ))
    (hw : checks w.host.checks w.host.checks) :
    SameEnd (x.outcome w) (x.after w) (y.outcome w) (y.after w) := by
  let bare : World (Rig μ) := ⟨w.tables.unplaced, w.host⟩
  have hstart : (unplacing checks μ ε).worlds w bare := ⟨rfl, rfl, hw⟩
  rcases hx.agree_or_cut hstart with ⟨hp, htables, hmachine, -⟩ | ⟨_, _, hcut⟩
  · rcases hy.agree_or_cut hstart with
      ⟨hq, htables', hmachine', -⟩ | ⟨_, _, hcut⟩
    · have hsame := htables.symm.trans htables'
      have htypes := congrArg Tables.types hsame
      have hpins := congrArg Tables.pins hsame
      have hvalues := congrArg Tables.values hsame
      exact ⟨agree_of_unplaced hp hq, hmachine.symm.trans hmachine', htypes,
        hpins, hvalues⟩
    · exact hcut.elim
  · exact hcut.elim

/-- Programs that run alike: from the same tables, on the same machine and with
leave for the same number of checks, they end alike under every bound on passes,
and each ends if the other one does. The machine keeps its calls and what became
of them. -/
def RunAlike (p q : Program) : Prop :=
  ∀ (μ ε : Type) (m : Machine μ ε) (limit : Option Nat) (t : Tables) (s : μ)
      (j : Journal),
    let host := m.traced.host limit
    let start : World (Rig (Traced μ ε)) := .start t (.fresh s) j
    (∀ passes, SameEnd ((interpret host passes p).outcome start)
      ((interpret host passes p).after start)
      ((interpret host passes q).outcome start)
      ((interpret host passes q).after start)) ∧
    EndAlike SameEnd (Ends host p start) (Ends host q start)

/-- **Programs that are the same up to places run alike.** -/
theorem runAlike_of_unplaced {p q : Program} (h : p.unplaced = q.unplaced) :
    RunAlike p q := by
  intro μ ε m limit t s j host start
  have hlimit : Machine.Counted limit Eq := fun a b hab => hab ▸ ⟨rfl, rfl⟩
  have hsame : ∀ passes, SameEnd ((interpret host passes p).outcome start)
      ((interpret host passes p).after start)
      ((interpret host passes q).outcome start)
      ((interpret host passes q).after start) := by
    intro passes
    have hp := interpret_unplaced m.traced hlimit passes p
    rw [h] at hp
    exact sameEnd_of_beside hp (interpret_unplaced m.traced hlimit passes q)
      start rfl
  exact ⟨hsame, .of_passes hsame fun hend => hend.outcomes.unfinished_iff⟩

/--
**Layout has no meaning.** Let two sources have the same tokens, and no error
among them. Then both are refused, with errors that are the same up to places,
or both are programs, with trees that are the same up to places. In that case
the programs run alike.
-/
theorem interpret_layout {src src' : List UInt8}
    (hsound : (scan src).failure = none) (hsound' : (scan src').failure = none)
    (hsame : List.Forall₂ (fun t u => t.same u = true) (scan src).tokens
      (scan src').tokens) :
    (∃ e e', parse src = .error e ∧ parse src' = .error e' ∧
      e.unplaced = e'.unplaced) ∨
    ∃ p q, parse src = .ok p ∧ parse src' = .ok q ∧ p.displaced = q.displaced ∧
      RunAlike p q := by
  have hread : unplacedReading Program.displaced (parse src) =
      unplacedReading Program.displaced (parse src') :=
    Scan.parse_unplaced hsound hsound' hsame
  cases hp : parse src with
  | error e =>
      rw [hp] at hread
      cases hq : parse src' with
      | ok q =>
          rw [hq] at hread
          cases hread
      | error e' =>
          rw [hq] at hread
          exact .inl ⟨e, e', rfl, rfl, Except.error.inj hread⟩
  | ok p =>
      rw [hp] at hread
      cases hq : parse src' with
      | error e' =>
          rw [hq] at hread
          cases hread
      | ok q =>
          rw [hq] at hread
          have htrees : p.displaced = q.displaced := Except.ok.inj hread
          refine .inr ⟨p, q, rfl, rfl, htrees, runAlike_of_unplaced ?_⟩
          rw [← p.unplaced_displaced, htrees, q.unplaced_displaced]

/-- A source on one line. -/
def tightSource : List UInt8 :=
  asciiBytes "PROGRAM p;VAR n:REAL;BEGIN LOOP:n:=1/2;MOVETO n UNTIL n>0 END."

/-- The same source on several lines and with a comment. -/
def spreadSource : List UInt8 :=
  asciiBytes "PROGRAM p ; VAR n : REAL;\nBEGIN \x7b a turn \x7d\n" ++
    asciiBytes "LOOP: n := 1 / 2;\nMOVETO n\nUNTIL n > 0\nEND ."

theorem interpret_layout_spread :
    (scan tightSource).failure = none ∧ (scan spreadSource).failure = none ∧
    List.Forall₂ (fun t u => t.same u = true) (scan tightSource).tokens
      (scan spreadSource).tokens ∧
    ∃ p q, parse tightSource = .ok p ∧ parse spreadSource = .ok q ∧
      p.displaced = q.displaced ∧ RunAlike p q := by
  have hsound : (scan tightSource).failure = none := by decide +kernel
  have hsound' : (scan spreadSource).failure = none := by decide +kernel
  have hsame : List.Forall₂ (fun t u => t.same u = true)
      (scan tightSource).tokens (scan spreadSource).tokens := by
    decide +kernel
  refine ⟨hsound, hsound', hsame, ?_⟩
  have hread : (parse tightSource).isOk = true := by decide +kernel
  obtain ⟨p, hp⟩ := exists_of_isOk hread
  rcases interpret_layout hsound hsound' hsame with ⟨e, e', he, -⟩ | halike
  · cases hp.symm.trans he
  · exact halike

end Fixture
