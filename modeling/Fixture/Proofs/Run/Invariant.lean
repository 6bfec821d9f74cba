import Fixture.Proofs.Run.Composition
/-!
# What every run keeps

A property of worlds that the host respects on each request, and that
assignments and declarations keep, is kept by every run, whatever the program,
however the run ends. The theorems about tables and about the histories of hosts
are instances.

## Main results

* `Keeps.bind`: what two actions keep, both in a row keep.
* `exec_keeps`, `interpret_keeps`: what the host respects, and what assignments
  and declarations keep, is kept by statements and by programs.
-/

namespace Fixture

/-- A host respects a property of worlds if nothing that it does on a request
breaks it. A note that it is told shows the values as they are. -/
structure Host.Respects {σ ε : Type} (h : Host σ ε) (I : World σ → Prop) :
    Prop where
  check : ∀ w, I w → I (w.checked h)
  perform : ∀ c w, I w → I (w.called h c)
  note : ∀ n w, (∀ values ∈ n.values?, values = w.tables.values) → I w →
    I (w.told h n)

/-- Requests do nothing to the tables, so every property of tables is
respected. -/
theorem Host.respects_tables {σ ε : Type} (h : Host σ ε) (I : Tables → Prop) :
    h.Respects fun w => I w.tables where
  check _ hw := hw
  perform _ _ hw := hw
  note _ _ _ hw := hw

/-- What entering one declaration keeps, entering them all keeps. -/
theorem Declaration.enterAll_keeps {I : Tables → Prop} {ds : List Declaration} :
    (∀ d ∈ ds, ∀ t, I t → I (d.enter t)) →
    ∀ (taken : List String) {t : Tables}, I t → I (enterAll taken t ds).1 := by
  induction ds with
  | nil => exact fun _ _ _ ht => ht
  | cons d ds ih =>
      intro henter taken t ht
      rw [List.forall_mem_cons] at henter
      rw [enterAll]
      split
      · exact ht
      · exact ih henter.2 _ (henter.1 t ht)

namespace Run

variable {σ ε α β : Type}

/-! ## Keeping a property -/

/-- An action keeps a property of worlds if the property holds afterwards
wherever it held before. -/
def Keeps (I : World σ → Prop) (x : Run σ ε α) : Prop :=
  ∀ w, I w → I (x.after w)

namespace Keeps

variable {I : World σ → Prop}

theorem pure (a : α) : Keeps I (Pure.pure a : Run σ ε α) := fun _ h => h

theorem throw (e : Halt ε) : Keeps I (MonadExcept.throw e : Run σ ε α) :=
  fun _ h => h

theorem bind {x : Run σ ε α} {f : α → Run σ ε β} (hx : Keeps I x)
    (hf : ∀ a, Keeps I (f a)) : Keeps I (x >>= f) := by
  intro w hw
  have hmid : I (x.after w) := hx w hw
  cases hres : x.run w with
  | ok a w' =>
      rw [after_ok hres] at hmid
      have hend : I ((f a).after w') := hf a w' hmid
      rwa [after, run_bind_ok hres]
  | error e w' =>
      rw [after_error hres] at hmid
      rwa [after_error (run_bind_error hres f)]

private theorem ofEval (r : Except EvalError α) :
    Keeps I (Run.ofEval r : Run σ ε α) := by
  cases r with
  | ok a => exact Keeps.pure a
  | error e => exact Keeps.throw _

/-- What holds of a run from a world on holds of the action that makes this
run. -/
private theorem of_run {x : Run σ ε α}
    (h : ∀ w, I w →
      ∃ (y : Run σ ε α) (w' : World σ), x.run w = y.run w' ∧ I w' ∧ Keeps I y) :
    Keeps I x := by
  intro w hw
  obtain ⟨y, w', hrun, hw', hy⟩ := h w hw
  have hend : I (y.after w') := hy w' hw'
  rwa [after, hrun]

end Keeps

section Programs

variable {h : Host σ ε} {I : World σ → Prop}

private theorem tell_keeps (hh : h.Respects I) {n : Note}
    (hn : n.values? = none) : Keeps I (tell h n) := by
  intro w hw
  rw [after_ok (run_tell h n w)]
  apply hh.note n w _ hw
  rw [hn]
  simp

theorem leave_keeps (hh : h.Respects I) : Keeps I (leave h) := by
  intro w hw
  rw [after_ok (run_leave h w)]
  exact hh.check w hw

theorem perform_keeps (hh : h.Respects I) (c : Call) :
    Keeps I (perform h c) := by
  intro w hw
  have hcalled : I (w.called h c) := hh.perform c w hw
  cases hc : (h.perform c w.tables w.host).1 with
  | none => rwa [after_ok (run_perform_ok hc)]
  | some e => rwa [after_error (run_perform_error hc)]

private theorem told_evaluating (hh : h.Respects I) (e : Expr) {w : World σ}
    (hw : I w) : I (w.told h (.evaluating e w.tables.values)) :=
  hh.note _ w (by simp [Note.values?]) hw

private theorem told_moving (hh : h.Respects I) (d : Expr) (s : Option Expr)
    {w : World σ} (hw : I w) : I (w.told h (.moving d s w.tables.values)) :=
  hh.note _ w (by simp [Note.values?]) hw

theorem condition_keeps (hh : h.Respects I) (e : Expr) :
    Keeps I (condition h e) := by
  apply Keeps.of_run
  intro w hw
  exact ⟨_, _, run_condition h e w, told_evaluating hh e hw, Keeps.ofEval _⟩

theorem wait_keeps (hh : h.Respects I) (d : Expr) : Keeps I (wait h d) := by
  apply Keeps.of_run
  intro w hw
  refine ⟨_, _, run_wait h d w, told_evaluating hh d hw, ?_⟩
  exact (Keeps.ofEval _).bind fun v => (Keeps.ofEval _).bind fun x =>
    (perform_keeps hh _).bind fun _ => Keeps.pure v

theorem move_keeps (hh : h.Respects I) (axis : Axis) (d : Expr)
    (s : Option Expr) : Keeps I (move h axis d s) := by
  apply Keeps.of_run
  intro w hw
  refine ⟨_, _, run_move h axis d s w, told_moving hh d s hw, ?_⟩
  exact (Keeps.ofEval _).bind fun m => perform_keeps hh _

/-- Assignments keep what binding a value of the declared type keeps. -/
theorem assign_keeps (hh : h.Respects I) (target : Token)
    (hbound : ∀ (w : World σ) (declared : Kind) (v v' : Value),
      I w → w.tables.types.get? target.literal = some declared →
      v.coerce declared target = .ok v' → I (w.bound target.literal v'))
    (value : Expr) : Keeps I (assign h target value) := by
  intro w hw
  cases hdecl : w.tables.types.get? target.literal with
  | none => rwa [after_error (run_assign_undeclared hdecl value)]
  | some declared =>
      have htold := told_evaluating hh value hw
      cases hv : value.eval w.tables.values with
      | error e =>
          rwa [after, run_assign hdecl, hv, run_ofEval_error]
      | ok v =>
          cases hv' : v.coerce declared target with
          | error e =>
              rwa [after, run_assign hdecl, hv, run_ofEval_ok, hv',
                run_ofEval_error]
          | ok v' =>
              rw [after, run_assign hdecl, hv, run_ofEval_ok, hv',
                run_ofEval_ok]
              exact hbound _ declared v v' htold hdecl hv'

theorem repeatUntil_keeps (hh : h.Respects I) {body : Run σ ε Unit}
    {done : Run σ ε Bool} (hbody : Keeps I body) (hdone : Keeps I done)
    (passes : Nat) : ∀ pass, Keeps I (repeatUntil h body done passes pass) := by
  induction passes with
  | zero => exact fun _ => Keeps.throw _
  | succ passes ih =>
      intro pass
      refine (leave_keeps hh).bind fun granted => ?_
      cases granted with
      | false => exact (tell_keeps hh rfl).bind fun _ => Keeps.throw _
      | true =>
          refine hbody.bind fun _ => hdone.bind fun finished => ?_
          cases finished with
          | false => exact ih (pass + 1)
          | true => exact Keeps.pure ()

/-- Keeping a property goes through programs, if the assignments that are legal
keep it. -/
theorem composes_keeps (legal : Deed → Prop) (hh : h.Respects I)
    (ha : ∀ target value, legal (.assign target value) →
      Keeps I (assign h target value)) (passes : Nat) :
    Composes h h passes passes legal fun x _ => Keeps I x where
  pure := Keeps.pure
  bind hx hf := hx.bind hf
  tell _ hn := tell_keeps hh hn
  perform := perform_keeps hh
  condition e _ := condition_keeps hh e
  assign := ha
  wait d _ := wait_keeps hh d
  move axis d s _ := move_keeps hh axis d s
  guarded hx := by
    refine (leave_keeps hh).bind fun granted => ?_
    cases granted with
    | false => exact Keeps.throw _
    | true => exact hx
  loop hbody hdone := repeatUntil_keeps hh hbody hdone passes 1

/-- **Statements keep what the host respects and assignments keep.** -/
theorem exec_keeps (hh : h.Respects I)
    (ha : ∀ target value, Keeps I (assign h target value)) (passes : Nat)
    (s : Stmt) : Keeps I (exec h passes s) :=
  (composes_keeps (fun _ => True) hh (fun target value _ => ha target value)
    passes).exec s fun _ _ => trivial

/-- Declarations keep what entering them keeps. -/
theorem declare_keeps {b : Block} (hb : ∀ w, I w → I (w.declared b)) :
    Keeps I (declare b : Run σ ε Unit) := by
  intro w hw
  have hdeclared : I (w.declared b) := hb w hw
  cases hfault : (Declaration.enterAll [] w.tables b.declarations).2 with
  | none => rwa [after_ok (run_declare_ok hfault)]
  | some f => rwa [after_error (run_declare_error hfault)]

/-- **Programs keep what the host respects, and what declarations and
assignments keep.** -/
theorem interpret_keeps (hh : h.Respects I)
    (ha : ∀ target value, Keeps I (assign h target value)) {p : Program}
    (hd : ∀ w, I w → I (w.declared p.block)) (passes : Nat) :
    Keeps I (interpret h passes p) :=
  (composes_keeps (fun _ => True) hh (fun target value _ => ha target value)
    passes).interpret (declare_keeps hd) fun _ _ => trivial

end Programs

end Run

end Fixture
