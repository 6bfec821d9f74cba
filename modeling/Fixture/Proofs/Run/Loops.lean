import Fixture.Proofs.Evaluation.Blame
import Fixture.Proofs.Run.Passes
/-!
# Loops

A loop executes its body, then looks at its condition, and goes on until the
condition holds. On a host that never denies leave this is all there is to it: a
loop that ends has executed its body some number of times in succession, one
time at least, and nothing else. The number is determined by the condition,
which is false after every execution but the last one. A loop fails where its
body or its condition fails, and with that error; if neither happens, it does
not end.

Executing a body by itself and executing it within a loop are not quite the
same. The loop asks for leave before every pass and tells its host of its
condition. A machine notices none of this, so worlds are compared by their
tables and their machines, and `World.Level` says that these are the same.

A `Course` follows a loop from pass to pass. It mentions no bound on the passes:
every execution in it ends under some bound, and there are finitely many of
them.

## Main results

* `Run.Finishes.unique`, `Run.Finishes.level`: a statement ends in one way,
  wherever checks and notes stand.
* `Run.Course.finishes`, `Run.exists_course`: a loop ends as its course does.
* `Run.course_iff`: a course is a number of rounds.
* `visit_loop`: what loops do.
-/

namespace Fixture

attribute [local simp] Run.exec Run.repeatUntil Expr.evalTruth

/-! ## Conditions -/

namespace Expr

/-- What becomes of a condition: it is a truth value, it has no value, or its
value is no truth value. -/
inductive Judged (values : Table Value) (c : Expr) :
    Except EvalError Bool → Prop where
  | truth {b : Bool} (h : c.eval values = .ok (.boolean b)) :
      Judged values c (.ok b)
  | valueless {err : EvalError} (h : c.eval values = .error err) :
      Judged values c (.error err)
  | other {v : Value} (h : c.eval values = .ok v) (hv : v.kind ≠ .boolean) :
      Judged values c (.error (.at c.leading (.conditionNotBoolean c v.kind)))

private theorem judged_iff {values : Table Value} {c : Expr}
    {r : Except EvalError Bool} :
    c.Judged values r ↔ c.evalTruth values = r := by
  constructor
  · rintro (h | h | ⟨h, hv⟩)
    · rw [evalTruth, h]
      rfl
    · rw [evalTruth, h]
      rfl
    · exact (evalTruth_eq_error_iff h).2 hv
  · rintro rfl
    cases h : c.evalTruth values with
    | error err =>
        rcases evalTruth_eq_error h with heval | ⟨v, heval, hv, rfl⟩
        · exact .valueless heval
        · exact .other heval hv
    | ok b =>
        refine .truth ?_
        rw [evalTruth] at h
        cases hv : c.eval values with
        | error err =>
            rw [hv] at h
            cases h
        | ok v =>
            rw [hv] at h
            cases v with
            | boolean b' =>
                cases h
                rfl
            | integer | real | waypoint => cases h

private theorem Judged.unique {values : Table Value} {c : Expr}
    {r r' : Except EvalError Bool} (h : c.Judged values r)
    (h' : c.Judged values r') : r = r' :=
  (judged_iff.1 h).symm.trans (judged_iff.1 h')

end Expr

namespace Run

/-! ## Statements that end -/

section Ending

variable {σ ε : Type} {h : Host σ ε} {s : Stmt} {w w' : World σ}
    {o : Except (Halt ε) (Option Value)}

/-- A statement that is finished ends in the same way under a higher bound on
the passes. -/
private theorem exec_of_le (h : Host σ ε) (s : Stmt) {passes more : Nat}
    (hle : passes ≤ more) (w : World σ)
    (hend : (exec h passes s).outcome w ≠ .error .unfinished) :
    (exec h more s).outcome w = (exec h passes s).outcome w ∧
    (exec h more s).after w = (exec h passes s).after w := by
  have htogether := (Side.composes_together (Side.patient_bounds h hle)).exec s
    fun _ _ => trivial
  exact htogether.eq_of_finished hend

/-- How a statement ends, and the world that it leaves: those of a finished
visit under some bound on the passes. -/
def Finishes (h : Host σ ε) (s : Stmt) (w : World σ)
    (o : Except (Halt ε) (Option Value)) (w' : World σ) : Prop :=
  ∃ passes, (visit h passes (.statement s)).outcome w = o ∧
    (visit h passes (.statement s)).after w = w' ∧ o ≠ .error .unfinished

private theorem Finishes.eventually (hend : Finishes h s w o w') :
    ∃ enough, ∀ passes, enough ≤ passes →
      (exec h passes s).outcome w = o ∧ (exec h passes s).after w = w' := by
  obtain ⟨enough, rfl, rfl, hfinished⟩ := hend
  exact ⟨enough, fun passes hle => exec_of_le h s hle w hfinished⟩

/-- **A statement ends in one way,** if it does. -/
theorem Finishes.unique {o' : Except (Halt ε) (Option Value)} {w'' : World σ}
    (h₁ : Finishes h s w o w') (h₂ : Finishes h s w o' w'') :
    o = o' ∧ w' = w'' := by
  obtain ⟨n, rfl, rfl, hn⟩ := h₁
  obtain ⟨k, rfl, rfl, hk⟩ := h₂
  exact eq_of_finished (x := fun passes => exec h passes s)
    (fun hle => exec_of_le h s hle w) hn hk

end Ending

end Run

/-! ## Machines that are not interrupted -/

section Machines

variable {μ ε : Type}

/-- Two worlds with the same tables and the same machine. They may differ in
checks and journals. -/
def World.Level (w v : World (Rig μ)) : Prop :=
  w.tables = v.tables ∧ w.host.machine = v.host.machine

/-- A machine beside itself, without regard to checks and journals. -/
def Side.level (m : Machine μ ε) : Side (m.host none) (m.host none) where
  states r₁ r₂ := r₁.machine = r₂.machine
  failures := Eq
  cut _ _ _ := False
  states_note _ hs := hs
  states_check _ hs := .inl ⟨rfl, hs⟩
  states_perform {r₁ r₂} c t hs := by
    have hact : m.act c r₁.machine = m.act c r₂.machine := congrArg _ hs
    refine .inl ⟨?_, congrArg Reply.state hact⟩
    show Option.Rel Eq (m.act c r₁.machine).failure (m.act c r₂.machine).failure
    rw [hact]
    exact rel_refl _
  cut_note _ hc := hc
  cut_check _ hc := hc
  cut_perform _ _ hc := hc
  cut_told _ hc := hc

namespace Run

variable {m : Machine μ ε} {s : Stmt} {w v w' : World (Rig μ)}
    {o : Except (Halt ε) (Option Value)}

private theorem exec_level (passes : Nat) (s : Stmt) (hw : w.Level v) :
    (exec (m.host none) passes s).outcome w =
      (exec (m.host none) passes s).outcome v ∧
    ((exec (m.host none) passes s).after w).Level
      ((exec (m.host none) passes s).after v) := by
  have htogether :=
    (Side.composes_together (S := Side.level m) (.inl (Eq.refl passes))).exec s
      fun _ _ => trivial
  rcases htogether.pairs.agree_or_cut hw with ⟨hagree, hworlds⟩ | ⟨e, -, hcut⟩
  · exact ⟨hagree.eq, hworlds⟩
  · exact hcut.elim

/-- **Where checks and journals stand makes no difference.** -/
theorem Finishes.level (hend : Finishes (m.host none) s w o w')
    (hw : w.Level v) : ∃ v', Finishes (m.host none) s v o v' ∧ w'.Level v' := by
  obtain ⟨passes, rfl, rfl, hfinished⟩ := hend
  obtain ⟨houtcome, hafter⟩ := exec_level (m := m) passes s hw
  exact ⟨_, ⟨passes, houtcome.symm, rfl, hfinished⟩, hafter⟩

/-! ## The course of a loop -/

/-- The last pass of a loop: the condition holds after it, or the body or the
condition fails. -/
inductive LastPass (h : Host (Rig μ) ε) (s : Stmt) (c : Expr)
    (w : World (Rig μ)) : Except (Halt ε) Unit → World (Rig μ) → Prop where
  | done {v : World (Rig μ)} (hbody : Finishes h s w (.ok none) v)
      (hc : c.Judged v.tables.values (.ok true)) : LastPass h s c w (.ok ()) v
  | bodyFails {v : World (Rig μ)} {e : Halt ε}
      (hbody : Finishes h s w (.error e) v) : LastPass h s c w (.error e) v
  | conditionFails {v : World (Rig μ)} {err : EvalError}
      (hbody : Finishes h s w (.ok none) v)
      (hc : c.Judged v.tables.values (.error err)) :
      LastPass h s c w (.error (Halt.ofEval err)) v

/-- The course of a loop over a statement, from pass to pass, up to how and
where it ends. -/
inductive Course (h : Host (Rig μ) ε) (s : Stmt) (c : Expr) :
    World (Rig μ) → Except (Halt ε) Unit → World (Rig μ) → Prop where
  | last {w v : World (Rig μ)} {o : Except (Halt ε) Unit}
      (hlast : LastPass h s c w o v) : Course h s c w o v
  | again {w u v : World (Rig μ)} {o : Except (Halt ε) Unit}
      (hbody : Finishes h s w (.ok none) u)
      (hc : c.Judged u.tables.values (.ok false)) (hrest : Course h s c u o v) :
      Course h s c w o v

/-- No course ends by using up passes. -/
private theorem Course.ne_unfinished {h : Host (Rig μ) ε} {c : Expr}
    {w v : World (Rig μ)} {o : Except (Halt ε) Unit}
    (hcourse : Course h s c w o v) : o ≠ .error .unfinished := by
  induction hcourse with
  | again _ _ _ ih => exact ih
  | last hlast =>
      cases hlast with
      | done => simp
      | bodyFails hbody =>
          obtain ⟨-, -, -, hfinished⟩ := hbody
          simpa using hfinished
      | @conditionFails v err _ _ => cases err <;> simp [Halt.ofEval]

/-- One pass over the body of a loop. -/
def pass (h : Host (Rig μ) ε) (passes : Nat) (body : List Stmt) :
    Run (Rig μ) ε Unit :=
  tell h (.visiting compoundLabel) *> execAll h passes body

section Passes

variable {passes : Nat} {body : List Stmt} {c : Expr} {t : Token}

/-- A run that is followed by nothing ends as it does by itself. -/
private theorem outcome_bind_none (x : Run (Rig μ) ε Unit) (w : World (Rig μ)) :
    (x >>= fun _ => pure (none : Option Value)).outcome w =
      (x.outcome w).map (fun _ => none) ∧
    (x >>= fun _ => pure (none : Option Value)).after w = x.after w := by
  unfold outcome after
  cases hrun : x.run w with
  | ok a w' =>
      rw [run_bind_ok hrun]
      exact ⟨rfl, rfl⟩
  | error e w' =>
      rw [run_bind_error hrun]
      exact ⟨rfl, rfl⟩

private theorem map_none_inj {r q : Except (Halt ε) Unit} :
    r.map (fun _ => (none : Option Value)) = q.map (fun _ => none) ↔ r = q := by
  cases r <;> cases q <;> simp [Except.map]

private theorem map_ne_unfinished {r : Except (Halt ε) Unit} :
    r.map (fun _ => (none : Option Value)) ≠ .error .unfinished ↔
      r ≠ .error .unfinished :=
  not_congr (map_none_inj (q := .error .unfinished))

/-- A pass is an execution of the body. -/
private theorem exec_compound_eq (h : Host (Rig μ) ε) (passes : Nat) (t : Token)
    (body : List Stmt) (w : World (Rig μ)) :
    (exec h passes (.compound t body)).outcome w =
      ((pass h passes body).outcome w).map (fun _ => none) ∧
    (exec h passes (.compound t body)).after w =
      (pass h passes body).after w := by
  have hexec : exec h passes (.compound t body) =
      pass h passes body >>= fun _ => pure none := by
    rw [exec, pass, seqRight_eq_bind, bind_assoc]
    rfl
  rw [hexec]
  exact outcome_bind_none _ w

/-- A pass ends as the body does, from any world that is level with the one of
the pass. -/
private theorem finishes_of_pass {u : World (Rig μ)} (hu : u.Level w)
    (hfinished : (pass (m.host none) passes body).outcome u ≠
      .error .unfinished) :
    ∃ v,
      Finishes (m.host none) (.compound t body) w
        (((pass (m.host none) passes body).outcome u).map fun _ => none) v ∧
      ((pass (m.host none) passes body).after u).Level v := by
  obtain ⟨houtcome, hafter⟩ := exec_compound_eq (m.host none) passes t body u
  exact Finishes.level ⟨passes, houtcome, hafter, map_ne_unfinished.2 hfinished⟩
    hu

/-- The other way round, with passes enough. -/
private theorem Finishes.pass {r : Except (Halt ε) Unit}
    (hbody :
      Finishes (m.host none) (.compound t body) w (r.map fun _ => none) v) :
    ∃ enough, ∀ passes u, enough ≤ passes → u.Level w →
      (Run.pass (m.host none) passes body).outcome u = r ∧
      ((Run.pass (m.host none) passes body).after u).Level v := by
  obtain ⟨enough, hbody⟩ := hbody.eventually
  refine ⟨enough, fun passes u hle hu => ?_⟩
  obtain ⟨houtcome, hafter⟩ := exec_level (m := m) passes (.compound t body) hu
  obtain ⟨hpass, hleft⟩ := exec_compound_eq (m.host none) passes t body u
  rw [(hbody passes hle).1, hpass] at houtcome
  rw [(hbody passes hle).2, hleft] at hafter
  exact ⟨map_none_inj.1 houtcome, hafter⟩

/-- A pass with leave: the body, the condition, and the passes that are left. -/
private theorem run_repeatUntil (body : Run (Rig μ) ε Unit)
    (done : Run (Rig μ) ε Bool) (left number : Nat) (w : World (Rig μ)) :
    (repeatUntil (m.host none) body done (left + 1) number).run w =
      (body >>= fun _ => done >>= fun finished =>
        if finished then pure ()
        else
          repeatUntil (m.host none) body done left (number + 1)).run
            (w.checked (m.host none)) := by
  rw [repeatUntil, run_bind_ok (run_leave _ w)]
  rfl

/-- What follows an execution of the body is decided by the condition. -/
private theorem run_condition_judged {h : Host (Rig μ) ε}
    {r : Except EvalError Bool} (hc : c.Judged w.tables.values r)
    (f : Bool → Run (Rig μ) ε Unit) :
    (condition h c >>= f).run w =
      (ofEval r >>= f).run (w.told h (.evaluating c w.tables.values)) := by
  rw [EStateM.run_bind, run_condition, Expr.judged_iff.1 hc, ← EStateM.run_bind]

/-- The passes of a loop that may make so many of them. -/
def looping (h : Host (Rig μ) ε) (passes : Nat) (body : List Stmt) (c : Expr)
    (left number : Nat) : Run (Rig μ) ε Unit :=
  repeatUntil h (pass h passes body) (condition h c) left number

private theorem LastPass.looping {o : Except (Halt ε) Unit}
    (hlast : LastPass (m.host none) (.compound t body) c w o v) :
    ∃ enough, ∀ passes left number u, enough ≤ passes → u.Level w →
      (looping (m.host none) passes body c (left + 1) number).outcome u = o ∧
      ((looping (m.host none) passes body c (left + 1) number).after u).Level
        v := by
  cases hlast with
  | done hbody hc =>
      obtain ⟨enough, hpass⟩ := hbody.pass (r := .ok ())
      refine ⟨enough, fun passes left number u hpasses hu => ?_⟩
      obtain ⟨houtcome, hlevel⟩ :=
        hpass passes (u.checked (m.host none)) hpasses hu
      unfold outcome after Run.looping
      rw [run_repeatUntil, run_bind_ok (run_eq_ok houtcome),
        run_condition_judged (hlevel.1 ▸ hc), run_ofEval_ok]
      exact ⟨rfl, hlevel⟩
  | @bodyFails v e hbody =>
      obtain ⟨enough, hpass⟩ := hbody.pass (r := .error e)
      refine ⟨enough, fun passes left number u hpasses hu => ?_⟩
      obtain ⟨houtcome, hlevel⟩ :=
        hpass passes (u.checked (m.host none)) hpasses hu
      unfold outcome after Run.looping
      rw [run_repeatUntil, run_bind_error (run_eq_error houtcome)]
      exact ⟨rfl, hlevel⟩
  | conditionFails hbody hc =>
      obtain ⟨enough, hpass⟩ := hbody.pass (r := .ok ())
      refine ⟨enough, fun passes left number u hpasses hu => ?_⟩
      obtain ⟨houtcome, hlevel⟩ :=
        hpass passes (u.checked (m.host none)) hpasses hu
      unfold outcome after Run.looping
      rw [run_repeatUntil, run_bind_ok (run_eq_ok houtcome),
        run_condition_judged (hlevel.1 ▸ hc), run_ofEval_error]
      exact ⟨rfl, hlevel⟩

/-- **A loop goes the way of its course,** as soon as it has passes enough for
every execution in it, and one for each of them. -/
theorem Course.looping {o : Except (Halt ε) Unit}
    (hcourse : Course (m.host none) (.compound t body) c w o v) :
    ∃ enough, ∀ passes left number u, enough ≤ passes → enough ≤ left →
      u.Level w →
      (looping (m.host none) passes body c left number).outcome u = o ∧
      ((looping (m.host none) passes body c left number).after u).Level v := by
  induction hcourse with
  | last hlast =>
      obtain ⟨enough, hlast⟩ := hlast.looping
      refine ⟨enough + 1, fun passes left number u hpasses hleft hu => ?_⟩
      obtain ⟨left, rfl⟩ : ∃ n, left = n + 1 := ⟨left - 1, by omega⟩
      exact hlast passes left number u (by omega) hu
  | again hbody hc _ ih =>
      obtain ⟨enough, hpass⟩ := hbody.pass (r := .ok ())
      obtain ⟨enough', ih⟩ := ih
      refine ⟨max enough enough' + 1,
        fun passes left number u hpasses hleft hu => ?_⟩
      obtain ⟨left, rfl⟩ : ∃ n, left = n + 1 := ⟨left - 1, by omega⟩
      obtain ⟨houtcome, hlevel⟩ :=
        hpass passes (u.checked (m.host none)) (by omega) hu
      unfold outcome after Run.looping
      rw [run_repeatUntil, run_bind_ok (run_eq_ok houtcome),
        run_condition_judged (hlevel.1 ▸ hc), run_ofEval_ok]
      exact ih passes left (number + 1) _ (by omega) (by omega) hlevel

/-- **A loop that ends has a course.** The induction is on the passes that are
left. -/
theorem exists_course (passes left : Nat) :
    ∀ (number : Nat) (u w : World (Rig μ)), u.Level w →
      (looping (m.host none) passes body c left number).outcome u ≠
        .error .unfinished →
      ∃ v,
        Course (m.host none) (.compound t body) c w
          ((looping (m.host none) passes body c left number).outcome u) v ∧
        ((looping (m.host none) passes body c left number).after u).Level
          v := by
  induction left with
  | zero => exact fun _ _ _ _ hfinished => absurd rfl hfinished
  | succ left ih =>
      intro number u w hu hfinished
      have hchecked : (u.checked (m.host none)).Level w := hu
      unfold outcome looping at hfinished
      unfold outcome after looping
      rw [run_repeatUntil] at hfinished ⊢
      cases hpass :
        (pass (m.host none) passes body).run (u.checked (m.host none)) with
      | error e u' =>
          rw [run_bind_error hpass] at hfinished ⊢
          have houtcome := outcome_error hpass
          obtain ⟨v, hbody, hlevel⟩ := finishes_of_pass (t := t) hchecked
            (by rw [houtcome]; exact hfinished)
          rw [houtcome] at hbody
          rw [after_error hpass] at hlevel
          exact ⟨v, .last (.bodyFails hbody), hlevel⟩
      | ok a u' =>
          have houtcome := outcome_ok hpass
          have hends : (pass (m.host none) passes body).outcome
                (u.checked (m.host none)) ≠ .error .unfinished := by
            simp [houtcome]
          obtain ⟨v, hbody, hlevel⟩ := finishes_of_pass (t := t) hchecked hends
          rw [houtcome] at hbody
          rw [after_ok hpass] at hlevel
          have hc : c.Judged u'.tables.values (c.evalTruth v.tables.values) :=
            Expr.judged_iff.2 (by rw [hlevel.1])
          rw [run_bind_ok hpass, run_condition_judged hc] at hfinished ⊢
          cases htruth : c.evalTruth v.tables.values with
          | error err =>
              rw [run_ofEval_error]
              exact ⟨v,
                .last (.conditionFails hbody (Expr.judged_iff.2 htruth)),
                hlevel⟩
          | ok b =>
              rw [htruth, run_ofEval_ok] at hfinished
              rw [run_ofEval_ok]
              cases b with
              | true =>
                  exact ⟨v, .last (.done hbody (Expr.judged_iff.2 htruth)),
                    hlevel⟩
              | false =>
                  obtain ⟨v', hrest, hlevel'⟩ := ih (number + 1)
                    (u'.told (m.host none) (.evaluating c u'.tables.values)) v
                    hlevel hfinished
                  exact ⟨v', .again hbody (Expr.judged_iff.2 htruth) hrest,
                    hlevel'⟩

end Passes

/-! ## Loop statements -/

section Statements

variable {tok t : Token} {body : List Stmt} {c : Expr}

/-- How a loop statement ends, from how its passes end. -/
private theorem visit_loop_eq (h : Host (Rig μ) ε) (passes : Nat)
    (tok t : Token) (body : List Stmt) (c : Expr) (w : World (Rig μ)) :
    (visit h passes (.statement (.loop tok t body c))).outcome w =
      ((looping h passes body c passes 1).outcome
        (w.told h (.visiting (Stmt.loop tok t body c).label))).map
        (fun _ => none) ∧
    (visit h passes (.statement (.loop tok t body c))).after w =
      (looping h passes body c passes 1).after
        (w.told h (.visiting (Stmt.loop tok t body c).label)) := by
  let told := w.told h (.visiting (Stmt.loop tok t body c).label)
  have hrun : (visit h passes (.statement (.loop tok t body c))).run w =
      (looping h passes body c passes 1 >>= fun _ => pure none).run told := by
    show (exec h passes (.loop tok t body c)).run w = _
    rw [exec, run_bind_ok (run_tell h _ w)]
    rfl
  obtain ⟨houtcome, hafter⟩ :=
    outcome_bind_none (looping h passes body c passes 1) told
  rw [← houtcome, ← hafter]
  unfold outcome after
  rw [hrun]
  exact ⟨rfl, rfl⟩

/-- A loop ends as its course does. -/
theorem Course.finishes {o : Except (Halt ε) Unit}
    (hcourse : Course (m.host none) (.compound t body) c w o v) (tok : Token) :
    ∃ w',
      Finishes (m.host none) (.loop tok t body c) w (o.map fun _ => none) w' ∧
      w'.Level v := by
  obtain ⟨enough, hlooping⟩ := hcourse.looping
  let told := w.told (m.host none) (.visiting (Stmt.loop tok t body c).label)
  have htold : told.Level w := ⟨rfl, rfl⟩
  obtain ⟨houtcome, hlevel⟩ :=
    hlooping enough enough 1 told (Nat.le_refl _) (Nat.le_refl _) htold
  obtain ⟨hvisit, hafter⟩ := visit_loop_eq (m.host none) enough tok t body c w
  rw [houtcome] at hvisit
  exact ⟨_, ⟨enough, hvisit, rfl, map_ne_unfinished.2 hcourse.ne_unfinished⟩,
    hafter ▸ hlevel⟩

private theorem Finishes.course
    (hend : Finishes (m.host none) (.loop tok t body c) w o w') :
    ∃ r v, o = r.map (fun _ => none) ∧
      Course (m.host none) (.compound t body) c w r v ∧ w'.Level v := by
  obtain ⟨passes, rfl, rfl, hfinished⟩ := hend
  obtain ⟨hvisit, hafter⟩ := visit_loop_eq (m.host none) passes tok t body c w
  let told := w.told (m.host none) (.visiting (Stmt.loop tok t body c).label)
  have htold : told.Level w := ⟨rfl, rfl⟩
  rw [hvisit] at hfinished
  obtain ⟨v, hcourse, hlevel⟩ := exists_course (t := t) passes passes 1 told w
    htold (map_ne_unfinished.1 hfinished)
  exact ⟨_, v, hvisit, hcourse, hafter ▸ hlevel⟩

end Statements

/-! ## Rounds -/

/-- A statement is executed a number of times in succession, and succeeds each
time. -/
def Times (h : Host (Rig μ) ε) (s : Stmt) :
    Nat → World (Rig μ) → World (Rig μ) → Prop
  | 0, w, v => v = w
  | k + 1, w, v => ∃ u, Times h s k w u ∧ Finishes h s u (.ok none) v

/-- Rounds of a loop that goes on: the statement is executed so many times, and
the condition is false each time. -/
def Rounds (h : Host (Rig μ) ε) (s : Stmt) (c : Expr) (k : Nat)
    (w v : World (Rig μ)) : Prop :=
  Times h s k w v ∧
  ∀ i, 1 ≤ i → i ≤ k →
    ∃ u, Times h s i w u ∧ c.Judged u.tables.values (.ok false)

/-- Rounds of a loop that ends: the statement is executed so many times, once at
least, and the condition is false each time but the last, when it is true. -/
structure LoopsThrough (h : Host (Rig μ) ε) (s : Stmt) (c : Expr) (k : Nat)
    (w v : World (Rig μ)) : Prop where
  once : 1 ≤ k
  times : Times h s k w v
  before : ∀ i, 1 ≤ i → i < k →
    ∃ u, Times h s i w u ∧ c.Judged u.tables.values (.ok false)
  last : c.Judged v.tables.values (.ok true)

section Rounds

variable {h : Host (Rig μ) ε} {c : Expr} {k : Nat} {u : World (Rig μ)}

private theorem Times.unique (h₁ : Times h s k w v) :
    ∀ {v' : World (Rig μ)}, Times h s k w v' → v = v' := by
  induction k generalizing v with
  | zero =>
      intro v' h₂
      exact Eq.trans h₁ (Eq.symm h₂)
  | succ k ih =>
      rintro v' ⟨u', hu', hv'⟩
      obtain ⟨u, hu, hv⟩ := h₁
      rw [ih hu hu'] at hv
      exact (hv.unique hv').2

/-- One time more, in front. -/
private theorem Times.cons (hfirst : Finishes h s w (.ok none) u)
    (h₁ : Times h s k u v) : Times h s (k + 1) w v := by
  induction k generalizing v with
  | zero =>
      obtain rfl : v = u := h₁
      exact ⟨w, rfl, hfirst⟩
  | succ k ih =>
      obtain ⟨x, hx, hv⟩ := h₁
      exact ⟨x, ih hx, hv⟩

/-- One round more, in front. -/
private theorem Rounds.cons (hfirst : Finishes h s w (.ok none) u)
    (hc : c.Judged u.tables.values (.ok false)) (h₁ : Rounds h s c k u v) :
    Rounds h s c (k + 1) w v := by
  refine ⟨h₁.1.cons hfirst, fun i hi hik => ?_⟩
  obtain ⟨i, rfl⟩ : ∃ j, i = j + 1 := ⟨i - 1, by omega⟩
  by_cases hzero : i = 0
  · subst hzero
    exact ⟨u, ⟨w, rfl, hfirst⟩, hc⟩
  · obtain ⟨x, hx, hjudged⟩ := h₁.2 i (by omega) (by omega)
    exact ⟨x, hx.cons hfirst, hjudged⟩

private theorem Rounds.course {o : Except (Halt ε) Unit}
    (h₁ : Rounds h s c k w u) (hrest : Course h s c u o v) :
    Course h s c w o v := by
  obtain ⟨htimes, hfalse⟩ := h₁
  induction k generalizing u with
  | zero =>
      obtain rfl : u = w := htimes
      exact hrest
  | succ k ih =>
      obtain ⟨x, hx, hbody⟩ := htimes
      obtain ⟨u', hu', hc⟩ := hfalse (k + 1) (by omega) (Nat.le_refl _)
      have htimes : Times h s (k + 1) w u := ⟨x, hx, hbody⟩
      obtain rfl := htimes.unique hu'
      exact ih (.again hbody hc hrest) hx fun i hi hik => hfalse i hi (by omega)

/-- **A course is a number of rounds** and a last pass. -/
theorem course_iff {o : Except (Halt ε) Unit} :
    Course h s c w o v ↔ ∃ k u, Rounds h s c k w u ∧ LastPass h s c u o v := by
  constructor
  · intro hcourse
    induction hcourse with
    | @last w v o hlast =>
        exact ⟨0, w, ⟨rfl, fun i hi hik => absurd hik (by omega)⟩, hlast⟩
    | again hbody hc _ ih =>
        obtain ⟨k, u, hrounds, hlast⟩ := ih
        exact ⟨k + 1, u, hrounds.cons hbody hc, hlast⟩
  · rintro ⟨k, u, hrounds, hlast⟩
    exact hrounds.course (.last hlast)

private theorem loopsThrough_iff :
    LoopsThrough h s c (k + 1) w v ↔
      ∃ u, Rounds h s c k w u ∧ LastPass h s c u (.ok ()) v := by
  constructor
  · rintro ⟨-, ⟨u, hu, hbody⟩, hbefore, hlast⟩
    exact ⟨u, ⟨hu, fun i hi hik => hbefore i hi (by omega)⟩, .done hbody hlast⟩
  · rintro ⟨u, ⟨hu, hfalse⟩, hlast⟩
    cases hlast with
    | done hbody hc =>
        exact ⟨by omega, ⟨u, hu, hbody⟩, fun i hi hik => hfalse i hi (by omega),
          hc⟩

private theorem LoopsThrough.course (h₁ : LoopsThrough h s c k w v) :
    Course h s c w (.ok ()) v := by
  obtain ⟨j, rfl⟩ : ∃ j, k = j + 1 := ⟨k - 1, by have := h₁.once; omega⟩
  obtain ⟨u, hrounds, hlast⟩ := loopsThrough_iff.1 h₁
  exact course_iff.2 ⟨j, u, hrounds, hlast⟩

/-- The condition is not true once and false later. -/
private theorem LoopsThrough.le {k' : Nat} {v' : World (Rig μ)}
    (h₁ : LoopsThrough h s c k w v) (h₂ : LoopsThrough h s c k' w v') :
    k' ≤ k := by
  by_contra hlt
  obtain ⟨u, hu, hfalse⟩ := h₂.before k h₁.once (by omega)
  rw [← h₁.times.unique hu] at hfalse
  cases hfalse.unique h₁.last

end Rounds

end Run

end Machines

open Run

/--
**What loops do.** On a machine that is never interrupted, a loop ends without
an error if and only if there is a number of executions of its body in
succession, one at least, that all succeed, with a condition that is false after
each of them but the last and true after that. There is only one such number,
and the loop leaves the tables and the machine, with the calls it was asked for,
of that many executions. The loop fails with an error if and only if the body
fails with it, or the condition does, after a number of executions with a
condition that is false each time. A condition fails if it has no value or if
its value is no truth value.
-/
theorem visit_loop {μ ε : Type} (m : Machine μ ε) (tok bodyTok : Token)
    (body : List Stmt) (c : Expr) (w : World (Rig (Traced μ ε))) :
    let h := m.traced.host none
    let loop : Stmt := .loop tok bodyTok body c
    let once : Stmt := .compound bodyTok body
    ((∃ w', Finishes h loop w (.ok none) w') ↔
      ∃ k v, LoopsThrough h once c k w v) ∧
    (∀ k v k' v', LoopsThrough h once c k w v → LoopsThrough h once c k' w v' →
      k = k') ∧
    (∀ k v w', LoopsThrough h once c k w v → Finishes h loop w (.ok none) w' →
      w'.tables = v.tables ∧ w'.host.machine = v.host.machine) ∧
    ∀ e, (∃ w', Finishes h loop w (.error e) w') ↔
      ∃ k u, Rounds h once c k w u ∧
        ((∃ v, Finishes h once u (.error e) v) ∨
          ∃ v err, Finishes h once u (.ok none) v ∧
            c.Judged v.tables.values (.error err) ∧ e = Halt.ofEval err) := by
  intro h loop once
  refine ⟨⟨?_, ?_⟩, ?_, ?_, fun e => ⟨?_, ?_⟩⟩
  · rintro ⟨w', hend⟩
    obtain ⟨r, v, hr, hcourse, -⟩ := hend.course
    obtain ⟨k, u, hrounds, hlast⟩ := course_iff.1 hcourse
    cases r with
    | error e => cases hr
    | ok a => exact ⟨k + 1, v, loopsThrough_iff.2 ⟨u, hrounds, hlast⟩⟩
  · rintro ⟨k, v, hloops⟩
    obtain ⟨w', hend, -⟩ := hloops.course.finishes tok
    exact ⟨w', hend⟩
  · intro k v k' v' h₁ h₂
    exact Nat.le_antisymm (h₂.le h₁) (h₁.le h₂)
  · intro k v w' hloops hend
    obtain ⟨w'', hend', hlevel⟩ := hloops.course.finishes tok
    rw [(hend.unique hend').2]
    exact hlevel
  · rintro ⟨w', hend⟩
    obtain ⟨r, v, hr, hcourse, -⟩ := hend.course
    obtain ⟨k, u, hrounds, hlast⟩ := course_iff.1 hcourse
    refine ⟨k, u, hrounds, ?_⟩
    cases hlast with
    | done => cases hr
    | bodyFails hbody =>
        cases hr
        exact .inl ⟨v, hbody⟩
    | conditionFails hbody hc =>
        cases hr
        exact .inr ⟨v, _, hbody, hc, rfl⟩
  · rintro ⟨k, u, hrounds, ⟨v, hbody⟩ | ⟨v, err, hbody, hc, rfl⟩⟩
    · obtain ⟨w', hend, -⟩ :=
        (hrounds.course (.last (.bodyFails hbody))).finishes tok
      exact ⟨w', hend⟩
    · obtain ⟨w', hend, -⟩ :=
        (hrounds.course (.last (.conditionFails hbody hc))).finishes tok
      exact ⟨w', hend⟩

/-- The variable that counts. -/
def counter : Expr := .name ⟨.ident, "n", .nowhere⟩

/-- The body of a loop that goes home and counts. -/
def countedHoming : List Stmt :=
  [.home (.fixed .kwHome), .assign (.fixed .assign) ⟨.ident, "n", .nowhere⟩
    (.binary (.fixed .plus) counter
      (.integer ⟨.integerConst, "1", .nowhere⟩ 1))]

/-- Whether it has been home twice. -/
def homeTwice : Expr :=
  .binary (.fixed .equal) counter (.integer ⟨.integerConst, "2", .nowhere⟩ 2)

/-- Nothing is counted yet, and nothing was asked for. -/
def uncounted : World (Rig (Traced Recorder Unit)) :=
  .start
    ⟨Table.empty.set "n" .tyInteger, Table.empty.set "n" (.integer 0), .empty⟩
    (.fresh (.fresh fun _ => false)) .silent

/-- Two rounds, and the machine was sent home in each of them. -/
theorem visit_loop_homeTwice :
    let h := (Recorder.machine ()).traced.host none
    ∃ k v,
      LoopsThrough h (.compound (.fixed .kwHome) countedHoming) homeTwice k
        uncounted v ∧ v.host.machine.calls.length = 2 := by
  intro h
  let loop : Stmt :=
    .loop (.fixed .kwLoop) (.fixed .kwHome) countedHoming homeTwice
  obtain ⟨hends, -, hlevel, -⟩ := visit_loop (Recorder.machine ())
    (.fixed .kwLoop) (.fixed .kwHome) countedHoming homeTwice uncounted
  obtain ⟨houtcome, -⟩ := visit_loop_eq h 2 (.fixed .kwLoop) (.fixed .kwHome)
    countedHoming homeTwice uncounted
  have hok : ((looping h 2 countedHoming homeTwice 2 1).outcome
      (uncounted.told h (.visiting loop.label))).isOk = true := by
    decide +kernel
  have hcalls : ((visit h 2 (.statement loop)).after
      uncounted).host.machine.calls.length = 2 := by decide +kernel
  cases hrun : (looping h 2 countedHoming homeTwice 2 1).outcome
    (uncounted.told h (.visiting loop.label)) with
  | error e =>
      rw [hrun] at hok
      cases hok
  | ok a =>
      rw [hrun] at houtcome
      have hend : Finishes h loop uncounted (.ok none)
          ((visit h 2 (.statement loop)).after uncounted) :=
        ⟨2, houtcome, rfl, by simp⟩
      obtain ⟨k, v, hloops⟩ := hends.1 ⟨_, hend⟩
      refine ⟨k, v, hloops, ?_⟩
      rw [← (hlevel k v _ hloops hend).2]
      exact hcalls

end Fixture
