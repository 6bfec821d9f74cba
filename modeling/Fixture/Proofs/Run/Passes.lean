import Fixture.Proofs.Run.Lockstep
/-!
# Bounds on the passes of loops

A run is given a number of passes that no loop of it may exceed, so that it
always comes to an end. That number is no part of the language. An outcome other
than `unfinished` is the outcome under every higher bound too, and this is how a
program ends; a program that is unfinished under every bound does not end.

Every pass of a loop begins with a check. So a run that is unfinished has made
at least as many checks as it had passes, and on a host that gives leave for `n`
checks only, a bound above `n` is never met.

## Main results

* `interpret_of_le`: a higher bound changes nothing.
* `Ends.unique`: a program ends in one way.
* `EndAlike.of_passes`: two programs that are related under every bound.
* `checks_of_unfinished`: an unfinished run has made as many checks as it had
  passes.
-/

namespace Fixture

open Run

variable {σ ε : Type}

/-! ## More passes -/

/-- A host beside itself, where a run that has used up its passes counts as cut
off. -/
def Side.patient (h : Host σ ε) : Side h h where
  states := Eq
  failures := Eq
  cut _ e _ := e = .unfinished
  states_note n hs := by rw [hs]
  states_check t hs := .inl (by rw [hs]; exact ⟨rfl, rfl⟩)
  states_perform c t hs := .inl (by rw [hs]; exact ⟨rel_refl _, rfl⟩)
  cut_note _ hc := hc
  cut_check _ hc := hc
  cut_perform _ _ hc := hc
  cut_told _ hc := hc

theorem Side.patient_bounds (h : Host σ ε) {passes more : Nat}
    (hle : passes ≤ more) : (Side.patient h).Bounds more passes :=
  .inr ⟨hle, fun _ _ _ _ => rfl⟩

/-- Of two actions that go together but for passes, the one with more of them
comes to what the other one comes to, once that one is finished. -/
theorem Side.Together.eq_of_finished {α : Type} {h : Host σ ε} {x y : Run σ ε α}
    (hxy : (Side.patient h).Together x y) {w : World σ}
    (hend : y.outcome w ≠ .error .unfinished) :
    x.outcome w = y.outcome w ∧ x.after w = y.after w := by
  have hstart : (Side.patient h).pairing.worlds w w := ⟨rfl, rfl⟩
  rcases hxy.pairs.agree_or_cut hstart with
    ⟨hagree, htables, hhost⟩ | ⟨e, he, hcut⟩
  · exact ⟨hagree.eq, World.ext htables hhost⟩
  · exact absurd (hcut ▸ he) hend

/-- Where more passes change nothing, all finished runs are the same. -/
theorem Run.eq_of_finished {α : Type} {x : Nat → Run σ ε α} {w : World σ}
    (hmore : ∀ {n k : Nat}, n ≤ k → (x n).outcome w ≠ .error .unfinished →
      (x k).outcome w = (x n).outcome w ∧ (x k).after w = (x n).after w)
    {n k : Nat} (hn : (x n).outcome w ≠ .error .unfinished)
    (hk : (x k).outcome w ≠ .error .unfinished) :
    (x n).outcome w = (x k).outcome w ∧ (x n).after w = (x k).after w := by
  rcases Nat.le_total n k with hle | hle
  · exact (hmore hle hn).imp Eq.symm Eq.symm
  · exact hmore hle hk

/-- **A finished run does not depend on the bound:** under a higher one it ends
in the same way. -/
theorem interpret_of_le (h : Host σ ε) (p : Program) {passes more : Nat}
    (hle : passes ≤ more) (w : World σ)
    (hend : (interpret h passes p).outcome w ≠ .error .unfinished) :
    (interpret h more p).outcome w = (interpret h passes p).outcome w ∧
    (interpret h more p).after w = (interpret h passes p).after w :=
  (Side.interpret_together (Side.patient_bounds h hle) p).eq_of_finished hend

/-- How a program ends, and the world that it leaves: those of a finished run
under some bound. -/
def Run.Ends (h : Host σ ε) (p : Program) (w : World σ)
    (o : Except (Halt ε) Unit) (w' : World σ) : Prop :=
  ∃ passes, (interpret h passes p).outcome w = o ∧
    (interpret h passes p).after w = w' ∧ o ≠ .error .unfinished

theorem Run.Ends.eventually {h : Host σ ε} {p : Program} {w w' : World σ}
    {o : Except (Halt ε) Unit} (hend : Ends h p w o w') :
    ∃ enough, ∀ passes, enough ≤ passes →
      (interpret h passes p).outcome w = o ∧
      (interpret h passes p).after w = w' := by
  obtain ⟨enough, rfl, rfl, hfinished⟩ := hend
  exact ⟨enough, fun passes hle => interpret_of_le h p hle w hfinished⟩

/-- **A program ends in one way,** if it does. -/
theorem Run.Ends.unique {h : Host σ ε} {p : Program} {w w₁ w₂ : World σ}
    {o₁ o₂ : Except (Halt ε) Unit} (h₁ : Ends h p w o₁ w₁)
    (h₂ : Ends h p w o₂ w₂) : o₁ = o₂ ∧ w₁ = w₂ := by
  obtain ⟨n, rfl, rfl, hn⟩ := h₁
  obtain ⟨k, rfl, rfl, hk⟩ := h₂
  exact eq_of_finished (x := fun passes => interpret h passes p)
    (fun hle => interpret_of_le h p hle w) hn hk

/-- Two runs that end alike: each one ends if the other one does, and then their
ends are related. -/
def Run.EndAlike {σ₁ ε₁ σ₂ ε₂ : Type}
    (R : Except (Halt ε₁) Unit → World σ₁ → Except (Halt ε₂) Unit → World σ₂ →
      Prop) (ends₁ : Except (Halt ε₁) Unit → World σ₁ → Prop)
    (ends₂ : Except (Halt ε₂) Unit → World σ₂ → Prop) : Prop :=
  (∀ o w, ends₁ o w → ∃ o' w', ends₂ o' w' ∧ R o w o' w') ∧
  ∀ o' w', ends₂ o' w' → ∃ o w, ends₁ o w ∧ R o w o' w'

/-- Runs that are related under every bound end alike, if only unfinished ones
are related to unfinished ones. -/
theorem Run.EndAlike.of_passes {σ₁ ε₁ σ₂ ε₂ : Type}
    {R : Except (Halt ε₁) Unit → World σ₁ → Except (Halt ε₂) Unit → World σ₂ →
      Prop} {h₁ : Host σ₁ ε₁} {h₂ : Host σ₂ ε₂} {p q : Program} {w₁ : World σ₁}
    {w₂ : World σ₂}
    (hR : ∀ passes, R ((interpret h₁ passes p).outcome w₁)
      ((interpret h₁ passes p).after w₁) ((interpret h₂ passes q).outcome w₂)
      ((interpret h₂ passes q).after w₂))
    (hend : ∀ {o w o' w'}, R o w o' w' →
      (o = .error .unfinished ↔ o' = .error .unfinished)) :
    EndAlike R (Ends h₁ p w₁) (Ends h₂ q w₂) := by
  constructor
  · rintro o w ⟨passes, rfl, rfl, hfinished⟩
    exact ⟨_, _,
      ⟨passes, rfl, rfl, fun hbad => hfinished ((hend (hR passes)).2 hbad)⟩,
      hR passes⟩
  · rintro o w ⟨passes, rfl, rfl, hfinished⟩
    exact ⟨_, _,
      ⟨passes, rfl, rfl, fun hbad => hfinished ((hend (hR passes)).1 hbad)⟩,
      hR passes⟩

/-! ## Passes and checks -/

/-- A host that counts its checks, and nothing else, in its state. -/
structure Host.Counts (h : Host σ ε) (count : σ → Nat) : Prop where
  check : ∀ t s, count (h.check t s).2 = count s + 1
  perform : ∀ c t s, count (h.perform c t s).2 = count s
  note : ∀ n s, count (h.note n s) = count s

namespace Run

variable {α β : Type} {count : σ → Nat} {passes : Nat}

/-- An action that loses no checks, and that has made as many as it has passes
if it is unfinished. -/
def Spends (count : σ → Nat) (passes : Nat) (x : Run σ ε α) : Prop :=
  ∀ w, count w.host ≤ count (x.after w).host ∧
    (x.outcome w = .error .unfinished →
      count w.host + passes ≤ count (x.after w).host)

namespace Spends

private theorem mono {fewer : Nat} {x : Run σ ε α} (hx : Spends count passes x)
    (hle : fewer ≤ passes) : Spends count fewer x := by
  intro w
  refine ⟨(hx w).1, fun hend => ?_⟩
  have hspent := (hx w).2 hend
  omega

private theorem pure (a : α) : Spends count passes (Pure.pure a : Run σ ε α) :=
  fun _ => ⟨Nat.le_refl _, fun hend => by cases hend⟩

private theorem throw {e : Halt ε} (he : e ≠ .unfinished) :
    Spends count passes (MonadExcept.throw e : Run σ ε α) :=
  fun _ => ⟨Nat.le_refl _, fun hend => absurd (Except.error.inj hend) he⟩

private theorem cancelled :
    Spends count passes (MonadExcept.throw .cancelled : Run σ ε α) :=
  throw (by simp)

private theorem bind {x : Run σ ε α} {f : α → Run σ ε β}
    (hx : Spends count passes x) (hf : ∀ a, Spends count passes (f a)) :
    Spends count passes (x >>= f) := by
  intro w
  have hmid := hx w
  cases hres : x.run w with
  | ok a w' =>
      rw [after_ok hres] at hmid
      have hrest := hf a w'
      rw [after, outcome, run_bind_ok hres]
      refine ⟨Nat.le_trans hmid.1 hrest.1, fun hend => ?_⟩
      have hspent := hrest.2 hend
      have hbefore := hmid.1
      unfold after at hspent
      omega
  | error e w' =>
      rw [outcome_error hres, after_error hres] at hmid
      have hbind := run_bind_error hres f
      rw [outcome_error hbind, after_error hbind]
      exact ⟨hmid.1, fun hend => hmid.2 (congrArg _ (Except.error.inj hend))⟩

private theorem ofEval (r : Except EvalError α) :
    Spends count passes (Run.ofEval r : Run σ ε α) := by
  cases r with
  | ok a => exact pure a
  | error e =>
      refine throw ?_
      cases e <;> simp [Halt.ofEval]

/-- Actions that go on, from a world with as many checks, as actions of this
sort. -/
private theorem of_run {x : Run σ ε α}
    (h : ∀ w, ∃ (y : Run σ ε α) (w' : World σ), x.run w = y.run w' ∧
      count w'.host = count w.host ∧ Spends count passes y) :
    Spends count passes x := by
  intro w
  obtain ⟨y, w', hrun, hcount, hy⟩ := h w
  have hspent := hy w'
  rw [hcount] at hspent
  rwa [after, outcome, hrun]

end Spends

variable {h : Host σ ε}

private theorem tell_spends (hc : h.Counts count) (n : Note) :
    Spends count passes (tell h n) :=
  fun w => ⟨Nat.le_of_eq (hc.note n w.host).symm, fun hend => by cases hend⟩

private theorem perform_spends (hc : h.Counts count) (c : Call) :
    Spends count passes (perform h c) := by
  intro w
  have hcount : count (w.called h c).host = count w.host :=
    hc.perform c w.tables w.host
  cases hcall : (h.perform c w.tables w.host).1 with
  | none =>
      rw [outcome, after, run_perform_ok hcall]
      exact ⟨Nat.le_of_eq hcount.symm, fun hend => by cases hend⟩
  | some e =>
      rw [outcome, after, run_perform_error hcall]
      exact ⟨Nat.le_of_eq hcount.symm, fun hend => by cases hend⟩

/-- A check is worth a pass. -/
private theorem leave_spends (hc : h.Counts count) {f : Bool → Run σ ε α}
    (hf : ∀ granted, Spends count passes (f granted)) :
    Spends count (passes + 1) (leave h >>= f) := by
  intro w
  have hcount : count (w.checked h).host = count w.host + 1 :=
    hc.check w.tables w.host
  have hrest := hf (h.check w.tables w.host).1 (w.checked h)
  rw [hcount] at hrest
  rw [after, outcome, run_bind_ok (run_leave h w)]
  unfold after outcome at hrest
  refine ⟨by omega, fun hend => ?_⟩
  have hspent := hrest.2 hend
  omega

private theorem assign_spends (hc : h.Counts count) (target : Token)
    (value : Expr) : Spends count passes (assign h target value) := by
  refine .of_run fun w => ?_
  cases hdecl : w.tables.types.get? target.literal with
  | none =>
      exact ⟨_, w, run_assign_undeclared hdecl value, rfl,
        Spends.throw (by simp)⟩
  | some declared =>
      refine ⟨_, _, run_assign hdecl value, hc.note _ w.host, ?_⟩
      exact (Spends.ofEval _).bind fun v => (Spends.ofEval _).bind fun v w =>
        ⟨Nat.le_refl _, fun hend => by cases hend⟩

private theorem repeatUntil_spends (hc : h.Counts count) {body : Run σ ε Unit}
    {done : Run σ ε Bool} (hbody : Spends count passes body)
    (hdone : Spends count passes done) (left : Nat) :
    left ≤ passes →
    ∀ pass, Spends count left (repeatUntil h body done left pass) := by
  induction left with
  | zero => exact fun _ _ w => ⟨Nat.le_refl _, fun _ => Nat.le_refl _⟩
  | succ left ih =>
      intro hle pass
      have hleft : left ≤ passes := Nat.le_of_succ_le hle
      refine leave_spends hc fun granted => ?_
      cases granted with
      | false => exact (tell_spends hc _).bind fun _ => Spends.cancelled
      | true =>
          refine (hbody.mono hleft).bind fun _ =>
            (hdone.mono hleft).bind fun finished => ?_
          cases finished with
          | false => exact ih hleft (pass + 1)
          | true => exact Spends.pure ()

/-- Spending passes on checks goes through programs. -/
private theorem composes_spends (hc : h.Counts count) (passes : Nat) :
    Composes h h passes passes (fun _ => True) fun x _ =>
      Spends count passes x where
  pure := Spends.pure
  bind hx hf := hx.bind hf
  tell n _ := tell_spends hc n
  perform := perform_spends hc
  condition c _ :=
    .of_run fun w =>
      ⟨_, _, run_condition h c w, hc.note _ w.host, Spends.ofEval _⟩
  assign target value _ := assign_spends hc target value
  wait d _ :=
    .of_run fun w => ⟨_, _, run_wait h d w, hc.note _ w.host,
      (Spends.ofEval _).bind fun v =>
        (Spends.ofEval _).bind fun x =>
          (perform_spends hc _).bind fun _ => Spends.pure v⟩
  move axis d s _ :=
    .of_run fun w => ⟨_, _, run_move h axis d s w, hc.note _ w.host,
      (Spends.ofEval _).bind fun m => perform_spends hc _⟩
  guarded hx := by
    refine (leave_spends hc fun granted => ?_).mono (Nat.le_succ passes)
    cases granted with
    | false => exact Spends.cancelled
    | true => exact hx
  loop hbody hdone := repeatUntil_spends hc hbody hdone passes (Nat.le_refl _) 1

/-- **An unfinished run has made as many checks as it had passes.** -/
theorem checks_of_unfinished (hc : h.Counts count) (passes : Nat) (p : Program)
    (w : World σ)
    (hend : (interpret h passes p).outcome w = .error .unfinished) :
    count w.host + passes ≤ count ((interpret h passes p).after w).host := by
  have hdeclare : Spends count passes (declare p.block : Run σ ε Unit) := by
    intro w
    cases hfault :
      (Declaration.enterAll [] w.tables p.block.declarations).2 with
    | none =>
        rw [outcome, after, run_declare_ok hfault]
        exact ⟨Nat.le_refl _, fun hend => by cases hend⟩
    | some f =>
        rw [outcome, after, run_declare_error hfault]
        exact ⟨Nat.le_refl _, fun hend => by cases hend⟩
  exact ((composes_spends hc passes).interpret hdeclare (fun _ _ => trivial)
    w).2 hend

end Run

end Fixture
