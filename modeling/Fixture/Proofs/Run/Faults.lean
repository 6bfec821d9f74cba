import Fixture.Proofs.Run.Invariant
/-!
# What runs end with

A run ends before its time because the host fails, because it is cancelled or
runs out of passes, or because something that a statement does by itself goes
wrong. There are few ways for that, and `Deed.FailsWith` lists them. So to know
what the runs of a program can end with, it is enough to know it of its deeds,
over tables that can come up.

A run is `Confined` if it leads from tables of some sort to tables of that sort,
and ends with errors of some sort only; which those are may depend on the tables
at the end. That goes through sequences and loops, hence through programs. A
deed that goes wrong leaves the tables alone. So the tables at the end of a run
are those over which something went wrong, and a fault can be traced to a deed
over them.

## Main results

* `Deed.FailsWith`: how a deed goes wrong.
* `Run.composes_confined`: a statement is confined if what goes wrong in its
  deeds is of the right sort.
* `Run.fault_of_exec`: a fault of a statement is that of one of its deeds over
  the tables at the end.
-/

namespace Fixture

open Run

/-- How a deed goes wrong over some tables. -/
inductive Deed.FailsWith (t : Tables) : Deed → EvalError → Prop where
  | condition {e : Expr} {err : EvalError}
      (h : e.evalTruth t.values = .error err) : FailsWith t (.condition e) err
  | undeclared {target : Token} {value : Expr}
      (h : t.types.get? target.literal = none) :
      FailsWith t (.assign target value)
        (.fault ⟨.undeclared target.literal, target.pos⟩)
  | value {target : Token} {value : Expr} {err : EvalError}
      (h : value.eval t.values = .error err) :
      FailsWith t (.assign target value) err
  /-- A value that the declared type does not take. -/
  | coercion {target : Token} {value : Expr} {declared : Kind} {v : Value}
      {err : EvalError} (hdecl : t.types.get? target.literal = some declared)
      (hv : value.eval t.values = .ok v)
      (h : v.coerce declared target = .error err) :
      FailsWith t (.assign target value) err
  | wait {d : Expr} {err : EvalError} (h : d.evalNumber t.values = .error err) :
      FailsWith t (.wait d) err
  | move {axis : Axis} {d : Expr} {s : Option Expr} {err : EvalError}
      (h : Motion.eval t.values d s = .error err) :
      FailsWith t (.move axis d s) err

namespace Run

variable {σ ε α β : Type} {I : Tables → Prop} {E : Tables → Halt ε → Prop}

/-- A run from a world that ends with tables of a sort, and with errors only
that are of a sort for these tables. -/
def ConfinedAt (I : Tables → Prop) (E : Tables → Halt ε → Prop) (x : Run σ ε α)
    (w : World σ) : Prop :=
  I (x.after w).tables ∧ ∀ e, x.outcome w = .error e → E (x.after w).tables e

/-- A run that leads from tables of a sort to such tables, and ends with errors
of a sort only. -/
def Confined (I : Tables → Prop) (E : Tables → Halt ε → Prop) (x : Run σ ε α) :
    Prop :=
  ∀ w, I w.tables → ConfinedAt I E x w

/-! ## Runs from one world -/

namespace ConfinedAt

private theorem ok {x : Run σ ε α} {w w' : World σ} {a : α}
    (h : x.run w = .ok a w') (hw' : I w'.tables) : ConfinedAt I E x w := by
  rw [ConfinedAt, after_ok h, outcome_ok h]
  refine ⟨hw', fun e he => ?_⟩
  cases he

private theorem error {x : Run σ ε α} {w w' : World σ} {e : Halt ε}
    (h : x.run w = .error e w') (hw' : I w'.tables) (he : E w'.tables e) :
    ConfinedAt I E x w := by
  rw [ConfinedAt, after_error h, outcome_error h]
  exact ⟨hw', fun e' he' => Except.error.inj he' ▸ he⟩

/-- What is confined from another world on. -/
theorem of_run {x y : Run σ ε α} {w w' : World σ} (h : x.run w = y.run w')
    (hy : ConfinedAt I E y w') : ConfinedAt I E x w := by
  rw [ConfinedAt, after, outcome, h]
  exact hy

/-- An evaluation that goes wrong in ways of the right sort only, and what is
done with its result. The tables are those that it was over. -/
private theorem ofEval_bind {r : Except EvalError α} {f : α → Run σ ε β}
    {w : World σ} (hw : I w.tables)
    (herror : ∀ err, r = .error err → E w.tables (Halt.ofEval err))
    (hok : ∀ a, r = .ok a → ConfinedAt I E (f a) w) :
    ConfinedAt I E (Run.ofEval r >>= f) w := by
  cases r with
  | ok a => exact .of_run (run_ofEval_ok a f w) (hok a rfl)
  | error err => exact .error (run_ofEval_error err f w) hw (herror err rfl)

theorem ofEval {r : Except EvalError α} {w : World σ} (hw : I w.tables)
    (herror : ∀ err, r = .error err → E w.tables (Halt.ofEval err)) :
    ConfinedAt I E (Run.ofEval r) w := by
  rw [← bind_pure (Run.ofEval r)]
  exact ofEval_bind hw herror fun a _ => .ok rfl hw

end ConfinedAt

/-! ## Runs from anywhere -/

namespace Confined

theorem pure (a : α) : Confined I E (Pure.pure a : Run σ ε α) :=
  fun _ hw => .ok rfl hw

private theorem throw {e : Halt ε} (he : ∀ t, E t e) :
    Confined I E (MonadExcept.throw e : Run σ ε α) :=
  fun w hw => .error rfl hw (he w.tables)

theorem bind {x : Run σ ε α} {f : α → Run σ ε β} (hx : Confined I E x)
    (hf : ∀ a, Confined I E (f a)) : Confined I E (x >>= f) := by
  intro w hw
  obtain ⟨hmiddle, herrors⟩ := hx w hw
  cases hres : x.run w with
  | ok a w' =>
      rw [after_ok hres] at hmiddle
      exact .of_run (run_bind_ok hres f) (hf a w' hmiddle)
  | error e w' =>
      rw [after_error hres] at hmiddle herrors
      exact .error (run_bind_error hres f) hmiddle
        (herrors e (outcome_error hres))

end Confined

variable {h : Host σ ε}

theorem tell_confined (n : Note) : Confined I E (tell h n) :=
  fun w hw => .ok (run_tell h n w) hw

private theorem leave_confined : Confined I E (leave h) :=
  fun w hw => .ok (run_leave h w) hw

/-- The errors that do not come from the program. -/
structure Outer (E : Tables → Halt ε → Prop) : Prop where
  failure : ∀ t e, E t (.failure e)
  cancelled : ∀ t, E t .cancelled
  unfinished : ∀ t, E t .unfinished

private theorem perform_confined (hE : Outer E) (c : Call) :
    Confined I E (perform h c) := by
  intro w hw
  cases hc : (h.perform c w.tables w.host).1 with
  | none => exact .ok (run_perform_ok hc) hw
  | some e => exact .error (run_perform_error hc) hw (hE.failure _ e)

/-- A deed that goes wrong in ways of the right sort only, over tables of the
right sort. -/
def Proper (I : Tables → Prop) (E : Tables → Halt ε → Prop) (d : Deed) : Prop :=
  ∀ t, I t → ∀ err, d.FailsWith t err → E t (Halt.ofEval err)

private theorem condition_confined {e : Expr} (he : Proper I E (.condition e)) :
    Confined I E (condition h e) :=
  fun w hw =>
    .of_run (run_condition h e w)
      (.ofEval hw fun err hv => he _ hw err (.condition hv))

private theorem move_confined (hE : Outer E) {axis : Axis} {d : Expr}
    {s : Option Expr} (hd : Proper I E (.move axis d s)) :
    Confined I E (move h axis d s) := by
  intro w hw
  apply ConfinedAt.of_run (run_move h axis d s w)
  exact .ofEval_bind hw (fun err hm => hd _ hw err (.move hm)) fun m _ =>
    perform_confined hE _ _ hw

private theorem wait_confined (hE : Outer E) {d : Expr}
    (hd : Proper I E (.wait d)) : Confined I E (wait h d) := by
  intro w hw
  apply ConfinedAt.of_run (run_wait h d w)
  refine .ofEval_bind hw ?_ ?_
  · intro err hv
    apply hd _ hw err
    apply Deed.FailsWith.wait
    rw [Expr.evalNumber, hv]
    rfl
  · intro v hv
    refine .ofEval_bind hw ?_ ?_
    · intro err hnumeric
      apply hd _ hw err
      apply Deed.FailsWith.wait
      rw [Expr.evalNumber, hv]
      exact hnumeric
    · intro x _
      exact (perform_confined hE _).bind (fun _ => .pure v) _ hw

private theorem assign_confined {target : Token} {value : Expr}
    (hd : Proper I E (.assign target value))
    (hbound : ∀ (w : World σ) (declared : Kind) (v v' : Value),
      I w.tables → w.tables.types.get? target.literal = some declared →
      v.coerce declared target = .ok v' →
      I (w.bound target.literal v').tables) :
    Confined I E (assign h target value) := by
  intro w hw
  cases hdecl : w.tables.types.get? target.literal with
  | none =>
      exact .error (run_assign_undeclared hdecl value) hw
        (hd _ hw _ (.undeclared hdecl))
  | some declared =>
      apply ConfinedAt.of_run (run_assign hdecl value)
      refine .ofEval_bind hw ?_ ?_
      · exact fun err hv => hd _ hw err (.value hv)
      · intro v hv
        refine .ofEval_bind hw ?_ ?_
        · exact fun err hv' => hd _ hw err (.coercion hdecl hv hv')
        · exact fun v' hv' => .ok rfl (hbound _ declared v v' hw hdecl hv')

private theorem repeatUntil_confined (hE : Outer E) {body : Run σ ε Unit}
    {done : Run σ ε Bool} (hbody : Confined I E body)
    (hdone : Confined I E done) (passes : Nat) :
    ∀ pass, Confined I E (repeatUntil h body done passes pass) := by
  induction passes with
  | zero => exact fun _ => .throw hE.unfinished
  | succ passes ih =>
      intro pass
      refine leave_confined.bind fun granted => ?_
      cases granted with
      | false => exact (tell_confined _).bind fun _ => .throw hE.cancelled
      | true =>
          refine hbody.bind fun _ => hdone.bind fun finished => ?_
          cases finished with
          | false => exact ih (pass + 1)
          | true => exact .pure ()

/-- **Programs are confined if their deeds are proper,** and assignments keep
tables of the right sort. -/
theorem composes_confined (h : Host σ ε) (hE : Outer E)
    (hbound : ∀ (w : World σ) (target : Token) (declared : Kind) (v v' : Value),
      I w.tables → w.tables.types.get? target.literal = some declared →
      v.coerce declared target = .ok v' → I (w.bound target.literal v').tables)
    (passes : Nat) :
    Composes h h passes passes (Proper I E) fun x _ => Confined I E x where
  pure := .pure
  bind hx hf := hx.bind hf
  tell n _ := tell_confined n
  perform := perform_confined hE
  condition _ he := condition_confined he
  assign target _ hd := assign_confined hd fun w => hbound w target
  wait _ hd := wait_confined hE hd
  move _ _ _ hd := move_confined hE hd
  guarded hx := by
    refine leave_confined.bind fun granted => ?_
    cases granted with
    | false => exact .throw hE.cancelled
    | true => exact hx
  loop hbody hdone := repeatUntil_confined hE hbody hdone passes 1

theorem declare_confined {b : Block}
    (hb : ∀ w : World σ, I w.tables → I (w.declared b).tables)
    (hfault : ∀ t f, (Declaration.enterAll [] t b.declarations).2 = some f →
      E (Declaration.enterAll [] t b.declarations).1 (.fault f)) :
    Confined I E (declare b : Run σ ε Unit) := by
  intro w hw
  cases hf : (Declaration.enterAll [] w.tables b.declarations).2 with
  | none => exact .ok (run_declare_ok hf) (hb w hw)
  | some f => exact .error (run_declare_error hf) (hb w hw) (hfault _ f hf)

/-! ## Where faults come from -/

/-- A halt that is no fault, or the fault of one of some deeds. -/
def DueTo (deeds : List Deed) (t : Tables) (halt : Halt ε) : Prop :=
  ∀ f, halt = .fault f → ∃ d ∈ deeds, d.FailsWith t (.fault f)

private theorem outer_dueTo (deeds : List Deed) :
    Outer (DueTo (ε := ε) deeds) := by
  refine ⟨fun t e f he => ?_, fun t f he => ?_, fun t f he => ?_⟩ <;> cases he

private theorem proper_dueTo {deeds : List Deed} {d : Deed} (hd : d ∈ deeds) :
    Proper (fun _ => True) (DueTo (ε := ε) deeds) d := by
  intro t _ err herr f he
  cases err with
  | fault f' =>
      cases he
      exact ⟨d, hd, herr⟩
  | unexpectedOperator k => cases he

/-- **A fault of a statement is that of one of its deeds** over the tables at
the end. -/
theorem fault_of_exec {passes : Nat} {s : Stmt} {w : World σ} {f : Fault}
    (hf : (exec h passes s).outcome w = .error (.fault f)) :
    ∃ d ∈ s.deeds,
      d.FailsWith ((exec h passes s).after w).tables (.fault f) := by
  have hcomposes := composes_confined (I := fun _ => True) h
    (outer_dueTo s.deeds) (fun _ _ _ _ _ _ _ _ => trivial) passes
  exact (hcomposes.exec s (fun _ => proper_dueTo) w trivial).2 _ hf f rfl

end Run

end Fixture
