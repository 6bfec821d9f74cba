import Fixture.Proofs.Run.Invariant
/-!
# Two runs side by side

Many statements about programs hold two runs against each other: one that is
watched and one that is not, one with a sound machine and one with a machine
that breaks down, one that is cancelled and one that goes on. Up to some moment
the two do the same. At that moment the second one may be cut off while the
first goes on alone, and what is left to say is where the first one was then.

A `Pairing` says which worlds and which ends belong together, and when the
second run counts as cut off. `Pairs` holds of two actions that go from worlds
that belong together to results that do, or to a cut. It goes through sequences
by `Pairs.bind`, provided that what the first run does on its own does not undo
a cut.

For one program on two hosts all that is asked for is in a `Side`: what the two
hosts answer to single requests. Then every program runs side by side on them.

## Main results

* `Pairs.bind`: two actions in a row.
* `Side.composes_together`, `Side.interpret_together`: a program on two hosts.
-/

namespace Fixture

/-- Ends of runs that agree, given which faults and which failures do. -/
inductive Halt.Alike {ε₁ ε₂ : Type} (faults : Fault → Fault → Prop)
    (failures : ε₁ → ε₂ → Prop) : Halt ε₁ → Halt ε₂ → Prop where
  | fault {f g : Fault} (h : faults f g) :
      Alike faults failures (.fault f) (.fault g)
  | failure {e₁ : ε₁} {e₂ : ε₂} (h : failures e₁ e₂) :
      Alike faults failures (.failure e₁) (.failure e₂)
  | cancelled : Alike faults failures .cancelled .cancelled
  | unexpectedOperator (op : Kind) :
      Alike faults failures (.unexpectedOperator op) (.unexpectedOperator op)
  | unexpectedNode (label : String) :
      Alike faults failures (.unexpectedNode label) (.unexpectedNode label)
  | unfinished : Alike faults failures .unfinished .unfinished

/-- Ends that agree in every detail are equal. -/
private theorem Halt.Alike.eq {ε : Type} {e₁ e₂ : Halt ε}
    (h : Halt.Alike Eq Eq e₁ e₂) : e₁ = e₂ := by
  cases h with
  | fault h => rw [h]
  | failure h => rw [h]
  | _ => rfl

/-- Outcomes that agree, given which values and which ends do. -/
inductive Agree {α β ε₁ ε₂ : Type} (values : α → β → Prop)
    (halts : Halt ε₁ → Halt ε₂ → Prop) :
    Except (Halt ε₁) α → Except (Halt ε₂) β → Prop where
  | ok {a : α} {b : β} (h : values a b) : Agree values halts (.ok a) (.ok b)
  | error {e₁ : Halt ε₁} {e₂ : Halt ε₂} (h : halts e₁ e₂) :
      Agree values halts (.error e₁) (.error e₂)

/-- Outcomes that agree in every detail are equal. -/
theorem Agree.eq {α ε : Type} {o₁ o₂ : Except (Halt ε) α}
    (h : Agree Eq (Halt.Alike Eq Eq) o₁ o₂) : o₁ = o₂ := by
  cases h with
  | ok h => rw [h]
  | error h => rw [h.eq]

/-- Of two outcomes that agree, both are those of an unfinished run or none
is. -/
theorem Agree.unfinished_iff {α β ε₁ ε₂ : Type} {values : α → β → Prop}
    {faults : Fault → Fault → Prop} {failures : ε₁ → ε₂ → Prop}
    {o₁ : Except (Halt ε₁) α} {o₂ : Except (Halt ε₂) β}
    (h : Agree values (Halt.Alike faults failures) o₁ o₂) :
    o₁ = .error .unfinished ↔ o₂ = .error .unfinished := by
  cases h with
  | ok _ => simp
  | error halike => cases halike <;> simp

theorem rel_refl {α : Type} (o : Option α) : Option.Rel Eq o o := by
  cases o with
  | none => exact .none
  | some a => exact .some rfl

/-- How two runs are held against each other. -/
structure Pairing (σ₁ ε₁ σ₂ ε₂ : Type) where
  /-- The worlds that belong together. -/
  worlds : World σ₁ → World σ₂ → Prop
  /-- The ends that belong together. -/
  halts : Halt ε₁ → Halt ε₂ → Prop
  /-- The second run has ended in this way, and the first one has gone on to
  this world. -/
  cut : World σ₁ → Halt ε₂ → World σ₂ → Prop

namespace Pairing

variable {σ₁ ε₁ σ₂ ε₂ α β α' β' : Type}

/-- Results that belong together: both runs are there, or the second one was cut
off. -/
inductive Linked (P : Pairing σ₁ ε₁ σ₂ ε₂) (values : α → β → Prop) :
    EStateM.Result (Halt ε₁) (World σ₁) α →
    EStateM.Result (Halt ε₂) (World σ₂) β → Prop where
  | ok {a b w₁ w₂} (ha : values a b) (hw : P.worlds w₁ w₂) :
      Linked P values (.ok a w₁) (.ok b w₂)
  | error {e₁ e₂ w₁ w₂} (he : P.halts e₁ e₂) (hw : P.worlds w₁ w₂) :
      Linked P values (.error e₁ w₁) (.error e₂ w₂)
  | cutOk {a w₁ e w₂} (hc : P.cut w₁ e w₂) :
      Linked P values (.ok a w₁) (.error e w₂)
  | cutError {e₁ w₁ e w₂} (hc : P.cut w₁ e w₂) :
      Linked P values (.error e₁ w₁) (.error e w₂)

/-- Two actions that lead from worlds that belong together to results that
do. -/
def Pairs (P : Pairing σ₁ ε₁ σ₂ ε₂) (values : α → β → Prop) (x : Run σ₁ ε₁ α)
    (y : Run σ₂ ε₂ β) : Prop :=
  ∀ w₁ w₂, P.worlds w₁ w₂ → P.Linked values (x.run w₁) (y.run w₂)

/-- An action that the first run may take on its own: a cut stays a cut. -/
def Spares (P : Pairing σ₁ ε₁ σ₂ ε₂) (x : Run σ₁ ε₁ α) : Prop :=
  ∀ e w₂, Run.Keeps (P.cut · e w₂) x

variable {P : Pairing σ₁ ε₁ σ₂ ε₂} {values : α → β → Prop}
    {values' : α' → β' → Prop}

private theorem Linked.of_cut {r : EStateM.Result (Halt ε₁) (World σ₁) α}
    {x : Run σ₁ ε₁ α} {w : World σ₁} {e : Halt ε₂} {w₂ : World σ₂}
    (hr : x.run w = r) (hc : P.cut (x.after w) e w₂) :
    P.Linked values r
      (.error e w₂ : EStateM.Result (Halt ε₂) (World σ₂) β) := by
  cases r with
  | ok a w₁ =>
      rw [Run.after_ok hr] at hc
      exact .cutOk hc
  | error e₁ w₁ =>
      rw [Run.after_error hr] at hc
      exact .cutError hc

namespace Pairs

theorem pure {a : α} {b : β} (h : values a b) :
    P.Pairs values (Pure.pure a) (Pure.pure b) :=
  fun _ _ hw => .ok h hw

theorem throw {e₁ : Halt ε₁} {e₂ : Halt ε₂} (h : P.halts e₁ e₂) :
    P.Pairs values (MonadExcept.throw e₁ : Run σ₁ ε₁ α)
      (MonadExcept.throw e₂ : Run σ₂ ε₂ β) :=
  fun _ _ hw => .error h hw

/-- **Two actions in a row.** Where the second run was cut off by the first of
them, the first run takes the other one on its own. -/
theorem bind {x : Run σ₁ ε₁ α} {y : Run σ₂ ε₂ β} {f : α → Run σ₁ ε₁ α'}
    {g : β → Run σ₂ ε₂ β'} (hx : P.Pairs values x y)
    (hf : ∀ a b, values a b → P.Pairs values' (f a) (g b))
    (hs : ∀ a, P.Spares (f a)) : P.Pairs values' (x >>= f) (y >>= g) := by
  intro w₁ w₂ hw
  have hlinked := hx w₁ w₂ hw
  cases hx₁ : x.run w₁ with
  | ok a v₁ =>
      rw [Run.run_bind_ok hx₁]
      cases hy₂ : y.run w₂ with
      | ok b v₂ =>
          rw [hx₁, hy₂] at hlinked
          cases hlinked with
          | ok ha hv =>
              rw [Run.run_bind_ok hy₂]
              exact hf a b ha v₁ v₂ hv
      | error e v₂ =>
          rw [hx₁, hy₂] at hlinked
          rw [Run.run_bind_error hy₂]
          cases hlinked with
          | cutOk hc => exact .of_cut rfl (hs a e v₂ v₁ hc)
  | error e₁ v₁ =>
      rw [Run.run_bind_error hx₁]
      cases hy₂ : y.run w₂ with
      | ok b v₂ =>
          rw [hx₁, hy₂] at hlinked
          cases hlinked
      | error e v₂ =>
          rw [hx₁, hy₂] at hlinked
          rw [Run.run_bind_error hy₂]
          cases hlinked with
          | error he hv => exact .error he hv
          | cutError hc => exact .cutError hc

/-- Actions whose runs go on as actions that pair. -/
theorem of_run {x : Run σ₁ ε₁ α} {y : Run σ₂ ε₂ β}
    (h : ∀ w₁ w₂, P.worlds w₁ w₂ →
      ∃ (x' : Run σ₁ ε₁ α) (w₁' : World σ₁) (y' : Run σ₂ ε₂ β) (w₂' : World σ₂),
        x.run w₁ = x'.run w₁' ∧ y.run w₂ = y'.run w₂' ∧ P.worlds w₁' w₂' ∧
        P.Pairs values x' y') : P.Pairs values x y := by
  intro w₁ w₂ hw
  obtain ⟨x', w₁', y', w₂', hx, hy, hw', hxy⟩ := h w₁ w₂ hw
  rw [hx, hy]
  exact hxy w₁' w₂' hw'

/-- What actions that pair come to: outcomes that agree, in worlds that belong
together, or a cut. -/
theorem agree_or_cut {x : Run σ₁ ε₁ α} {y : Run σ₂ ε₂ β}
    (h : P.Pairs values x y) {w₁ : World σ₁} {w₂ : World σ₂}
    (hw : P.worlds w₁ w₂) :
    Agree values P.halts (x.outcome w₁) (y.outcome w₂) ∧
    P.worlds (x.after w₁) (y.after w₂) ∨
    ∃ e, y.outcome w₂ = .error e ∧ P.cut (x.after w₁) e (y.after w₂) := by
  have hlinked := h w₁ w₂ hw
  unfold Run.outcome Run.after
  generalize x.run w₁ = r₁ at hlinked ⊢
  generalize y.run w₂ = r₂ at hlinked ⊢
  cases hlinked with
  | ok ha hw' => exact .inl ⟨.ok ha, hw'⟩
  | error he hw' => exact .inl ⟨.error he, hw'⟩
  | cutOk hc => exact .inr ⟨_, rfl, hc⟩
  | cutError hc => exact .inr ⟨_, rfl, hc⟩

end Pairs

end Pairing

/-! ## One program on two hosts -/

/-- Two hosts side by side: what belongs together between them, and that each
request leaves it so, or cuts the second run off. -/
structure Side {σ₁ ε₁ σ₂ ε₂ : Type} (h₁ : Host σ₁ ε₁) (h₂ : Host σ₂ ε₂) where
  /-- The host states that belong together. -/
  states : σ₁ → σ₂ → Prop
  /-- The failures that belong together. -/
  failures : ε₁ → ε₂ → Prop
  /-- The second run has ended in this way, and the first host has seen it go
  there. -/
  cut : σ₁ → Halt ε₂ → World σ₂ → Prop
  states_note : ∀ {s₁ s₂} (n : Note), states s₁ s₂ →
    states (h₁.note n s₁) (h₂.note n s₂)
  states_check : ∀ {s₁ s₂} (t : Tables), states s₁ s₂ →
    (h₁.check t s₁).1 = (h₂.check t s₂).1 ∧
    states (h₁.check t s₁).2 (h₂.check t s₂).2 ∨
    (h₂.check t s₂).1 = false ∧
    cut (h₁.check t s₁).2 .cancelled ⟨t, (h₂.check t s₂).2⟩
  states_perform : ∀ {s₁ s₂} (c : Call) (t : Tables), states s₁ s₂ →
    Option.Rel failures (h₁.perform c t s₁).1 (h₂.perform c t s₂).1 ∧
        states (h₁.perform c t s₁).2 (h₂.perform c t s₂).2 ∨
      ∃ e, (h₂.perform c t s₂).1 = some e ∧
        cut (h₁.perform c t s₁).2 (.failure e) ⟨t, (h₂.perform c t s₂).2⟩
  cut_note : ∀ {s₁ e w₂} (n : Note), cut s₁ e w₂ → cut (h₁.note n s₁) e w₂
  cut_check : ∀ {s₁ e w₂} (t : Tables), cut s₁ e w₂ → cut (h₁.check t s₁).2 e w₂
  cut_perform : ∀ {s₁ e w₂} (c : Call) (t : Tables), cut s₁ e w₂ →
    cut (h₁.perform c t s₁).2 e w₂
  /-- The second host may still be told that a loop of its run was cut off. -/
  cut_told : ∀ {s₁ w₂} (pass : Nat), cut s₁ .cancelled w₂ →
    cut s₁ .cancelled (w₂.told h₂ (.interrupted pass))

namespace Side

open Pairing Run

variable {σ₁ ε₁ σ₂ ε₂ α β : Type} {h₁ : Host σ₁ ε₁} {h₂ : Host σ₂ ε₂}

/-- The pairing that two hosts side by side make: tables are the same, and so
are faults. -/
def pairing (S : Side h₁ h₂) : Pairing σ₁ ε₁ σ₂ ε₂ where
  worlds w₁ w₂ := w₁.tables = w₂.tables ∧ S.states w₁.host w₂.host
  halts := Halt.Alike Eq S.failures
  cut w₁ e w₂ := S.cut w₁.host e w₂

/-- Two actions that run side by side, and of which the first spares cuts. -/
structure Together (S : Side h₁ h₂) (x : Run σ₁ ε₁ α) (y : Run σ₂ ε₂ α) :
    Prop where
  pairs : S.pairing.Pairs Eq x y
  spares : S.pairing.Spares x

variable {S : Side h₁ h₂}

/-- The first host spares cuts. -/
private theorem respects_cut (S : Side h₁ h₂) (e : Halt ε₂) (w₂ : World σ₂) :
    h₁.Respects (S.pairing.cut · e w₂) where
  check w hc := S.cut_check w.tables hc
  perform c w hc := S.cut_perform c w.tables hc
  note n _ _ hc := S.cut_note n hc

namespace Together

private theorem pure (a : α) : S.Together (Pure.pure a) (Pure.pure a) :=
  ⟨Pairs.pure rfl, fun _ _ => Keeps.pure a⟩

private theorem throw {e₁ : Halt ε₁} {e₂ : Halt ε₂}
    (h : Halt.Alike Eq S.failures e₁ e₂) :
    S.Together (MonadExcept.throw e₁ : Run σ₁ ε₁ α) (MonadExcept.throw e₂) :=
  ⟨Pairs.throw h, fun _ _ => Keeps.throw e₁⟩

theorem bind {x : Run σ₁ ε₁ α} {y : Run σ₂ ε₂ α} {f : α → Run σ₁ ε₁ β}
    {g : α → Run σ₂ ε₂ β} (hx : S.Together x y)
    (hf : ∀ a, S.Together (f a) (g a)) : S.Together (x >>= f) (y >>= g) := by
  refine ⟨hx.pairs.bind (fun a b hab => ?_) fun a => (hf a).spares,
    fun e w₂ => ?_⟩
  · rw [← hab]
    exact (hf a).pairs
  · exact (hx.spares e w₂).bind fun a => (hf a).spares e w₂

private theorem ofEval (r : Except EvalError α) :
    S.Together (Run.ofEval r) (Run.ofEval r) := by
  cases r with
  | ok a => exact pure a
  | error e =>
      refine throw ?_
      cases e with
      | fault f => exact .fault rfl
      | unexpectedOperator op => exact .unexpectedOperator op

/-- Actions that go on, from worlds that belong together, as actions that run
side by side. -/
private theorem of_run {x : Run σ₁ ε₁ α} {y : Run σ₂ ε₂ α}
    (hx : S.pairing.Spares x)
    (h : ∀ w₁ w₂, S.pairing.worlds w₁ w₂ →
      ∃ (x' : Run σ₁ ε₁ α) (w₁' : World σ₁) (y' : Run σ₂ ε₂ α) (w₂' : World σ₂),
        x.run w₁ = x'.run w₁' ∧ y.run w₂ = y'.run w₂' ∧
        S.pairing.worlds w₁' w₂' ∧ S.Together x' y') : S.Together x y := by
  refine ⟨Pairs.of_run fun w₁ w₂ hw => ?_, hx⟩
  obtain ⟨x', w₁', y', w₂', hrun₁, hrun₂, hw', hxy⟩ := h w₁ w₂ hw
  exact ⟨x', w₁', y', w₂', hrun₁, hrun₂, hw', hxy.pairs⟩

end Together

/-! ### Requests -/

private theorem tell_together (n : Note) :
    S.Together (tell h₁ n) (tell h₂ n) where
  pairs _ _ hw := .ok rfl ⟨hw.1, S.states_note n hw.2⟩
  spares _ _ _ hc := S.cut_note n hc

private theorem perform_together (c : Call) :
    S.Together (perform h₁ c) (perform h₂ c) where
  pairs w₁ w₂ hw := by
    obtain ⟨t, s₁⟩ := w₁
    obtain ⟨t₂, s₂⟩ := w₂
    obtain ⟨ht, hs⟩ := hw
    obtain rfl : t = t₂ := ht
    rcases S.states_perform c t hs with ⟨hrel, hs'⟩ | ⟨e, he, hc⟩
    · cases hp₁ : (h₁.perform c t s₁).1 with
      | none =>
          cases hp₂ : (h₂.perform c t s₂).1 with
          | none =>
              rw [run_perform_ok hp₁, run_perform_ok hp₂]
              exact .ok rfl ⟨rfl, hs'⟩
          | some e =>
              rw [hp₁, hp₂] at hrel
              cases hrel
      | some e₁ =>
          cases hp₂ : (h₂.perform c t s₂).1 with
          | none =>
              rw [hp₁, hp₂] at hrel
              cases hrel
          | some e₂ =>
              rw [hp₁, hp₂] at hrel
              rw [run_perform_error hp₁, run_perform_error hp₂]
              cases hrel with
              | some hfail => exact .error (.failure hfail) ⟨rfl, hs'⟩
    · have hrun : (perform h₂ c).run ⟨t, s₂⟩ =
          .error (.failure e) (World.called h₂ c ⟨t, s₂⟩) :=
        run_perform_error he
      rw [hrun]
      refine .of_cut rfl ?_
      cases hp₁ : (h₁.perform c t s₁).1 with
      | none =>
          rw [after_ok (run_perform_ok hp₁)]
          exact hc
      | some e₁ =>
          rw [after_error (run_perform_error hp₁)]
          exact hc
  spares e w₂ := perform_keeps (S.respects_cut e w₂) c

/-- What stands behind a check. If only the second host denies leave, its run is
cut off there. -/
private theorem leave_together {x₁ y₁ : Run σ₁ ε₁ α} {x₂ y₂ : Run σ₂ ε₂ α}
    (hx : S.Together x₁ x₂) (hy : S.Together y₁ y₂)
    (hend : ∀ s₁ w₂, S.cut s₁ .cancelled w₂ →
      ∃ w₂', y₂.run w₂ = .error .cancelled w₂' ∧ S.cut s₁ .cancelled w₂') :
    S.Together (leave h₁ >>= fun granted => if granted then x₁ else y₁)
      (leave h₂ >>= fun granted => if granted then x₂ else y₂) where
  pairs w₁ w₂ hw := by
    obtain ⟨t, s₁⟩ := w₁
    obtain ⟨t₂, s₂⟩ := w₂
    obtain ⟨ht, hs⟩ := hw
    obtain rfl : t = t₂ := ht
    rw [run_bind_ok (run_leave h₁ _), run_bind_ok (run_leave h₂ _)]
    rcases S.states_check t hs with ⟨hsame, hs'⟩ | ⟨hdenied, hc⟩
    · show S.pairing.Linked Eq ((if (h₁.check t s₁).1 then x₁ else y₁).run _)
        ((if (h₂.check t s₂).1 then x₂ else y₂).run _)
      rw [hsame]
      cases (h₂.check t s₂).1 with
      | false => exact hy.pairs _ _ ⟨rfl, hs'⟩
      | true => exact hx.pairs _ _ ⟨rfl, hs'⟩
    · show S.pairing.Linked Eq ((if (h₁.check t s₁).1 then x₁ else y₁).run _)
        ((if (h₂.check t s₂).1 then x₂ else y₂).run _)
      rw [hdenied]
      obtain ⟨w₂', hrun, hc'⟩ := hend _ _ hc
      show S.pairing.Linked Eq _ (y₂.run _)
      rw [show y₂.run (World.checked h₂ ⟨t, s₂⟩) = .error .cancelled w₂'
        from hrun]
      refine .of_cut rfl ?_
      cases (h₁.check t s₁).1 with
      | false => exact hy.spares _ _ _ hc'
      | true => exact hx.spares _ _ _ hc'
  spares e w₂ := by
    refine (leave_keeps (S.respects_cut e w₂)).bind fun granted => ?_
    cases granted with
    | false => exact hy.spares e w₂
    | true => exact hx.spares e w₂

/-! ### Expressions and simple statements -/

private theorem condition_together (c : Expr) :
    S.Together (condition h₁ c) (condition h₂ c) := by
  refine .of_run (fun e w₂ => condition_keeps (S.respects_cut e w₂) c)
    fun w₁ w₂ hw => ?_
  refine ⟨_, _, _, _, run_condition h₁ c w₁, run_condition h₂ c w₂, ?_, ?_⟩
  · rw [hw.1]
    exact ⟨hw.1, S.states_note _ hw.2⟩
  · rw [hw.1]
    exact .ofEval _

private theorem wait_together (d : Expr) :
    S.Together (wait h₁ d) (wait h₂ d) := by
  refine .of_run (fun e w₂ => wait_keeps (S.respects_cut e w₂) d)
    fun w₁ w₂ hw => ?_
  refine ⟨_, _, _, _, run_wait h₁ d w₁, run_wait h₂ d w₂, ?_, ?_⟩
  · rw [hw.1]
    exact ⟨hw.1, S.states_note _ hw.2⟩
  · rw [hw.1]
    exact (Together.ofEval _).bind fun v => (Together.ofEval _).bind fun x =>
      (perform_together _).bind fun _ => Together.pure v

private theorem move_together (axis : Axis) (d : Expr) (s : Option Expr) :
    S.Together (move h₁ axis d s) (move h₂ axis d s) := by
  refine .of_run (fun e w₂ => move_keeps (S.respects_cut e w₂) axis d s)
    fun w₁ w₂ hw => ?_
  refine ⟨_, _, _, _, run_move h₁ axis d s w₁, run_move h₂ axis d s w₂, ?_, ?_⟩
  · rw [hw.1]
    exact ⟨hw.1, S.states_note _ hw.2⟩
  · rw [hw.1]
    exact (Together.ofEval _).bind fun m => perform_together _

private theorem bound_together (name : String) (v : Value) :
    S.Together (modify (World.bound name v)) (modify (World.bound name v)) where
  pairs w₁ w₂ hw := by
    refine .ok rfl ⟨?_, hw.2⟩
    show (World.bound name v w₁).tables = (World.bound name v w₂).tables
    rw [World.bound, World.bound, hw.1]
  spares _ _ _ hc := hc

private theorem assign_together (target : Token) (value : Expr) :
    S.Together (assign h₁ target value) (assign h₂ target value) := by
  have hspares : S.pairing.Spares (assign h₁ target value) := fun e w₂ =>
    assign_keeps (S.respects_cut e w₂) target (fun _ _ _ _ hc _ _ => hc) value
  refine ⟨fun w₁ w₂ hw => ?_, hspares⟩
  cases hdecl : w₂.tables.types.get? target.literal with
  | none =>
      rw [run_assign_undeclared hdecl, run_assign_undeclared (hw.1 ▸ hdecl)]
      exact .error (.fault rfl) hw
  | some declared =>
      rw [run_assign hdecl, run_assign (hw.1 ▸ hdecl), hw.1]
      have hrest :=
        (Together.ofEval (S := S) (value.eval w₂.tables.values)).bind fun v =>
          (Together.ofEval (v.coerce declared target)).bind fun v =>
            bound_together target.literal v
      exact hrest.pairs _ _ ⟨hw.1, S.states_note _ hw.2⟩

/-! ### Statements and programs -/

/-- Two bounds on the passes of loops that go together: they are the same, or a
run that has used up the lower one counts as cut off. -/
def Bounds (S : Side h₁ h₂) (passes₁ passes₂ : Nat) : Prop :=
  passes₁ = passes₂ ∨
  passes₂ ≤ passes₁ ∧ ∀ t s₁ s₂, S.states s₁ s₂ → S.cut s₁ .unfinished ⟨t, s₂⟩

private theorem Bounds.of_succ {passes₁ passes₂ : Nat}
    (hb : S.Bounds (passes₁ + 1) (passes₂ + 1)) : S.Bounds passes₁ passes₂ := by
  rcases hb with heq | ⟨hle, hcut⟩
  · exact .inl (Nat.succ.inj heq)
  · exact .inr ⟨Nat.le_of_succ_le_succ hle, hcut⟩

private theorem repeatUntil_together {body₁ : Run σ₁ ε₁ Unit}
    {body₂ : Run σ₂ ε₂ Unit} {done₁ : Run σ₁ ε₁ Bool} {done₂ : Run σ₂ ε₂ Bool}
    (hbody : S.Together body₁ body₂) (hdone : S.Together done₁ done₂)
    (passes₁ : Nat) :
    ∀ passes₂ pass, S.Bounds passes₁ passes₂ →
      S.Together (repeatUntil h₁ body₁ done₁ passes₁ pass)
        (repeatUntil h₂ body₂ done₂ passes₂ pass) := by
  induction passes₁ with
  | zero =>
      intro passes₂ pass hb
      have hzero : passes₂ = 0 := by
        rcases hb with heq | ⟨hle, -⟩ <;> omega
      rw [hzero]
      exact .throw .unfinished
  | succ passes₁ ih =>
      intro passes₂ pass hb
      cases passes₂ with
      | zero =>
          -- Only the second run has used up its passes.
          have hcut : ∀ t s₁ s₂, S.states s₁ s₂ →
              S.cut s₁ .unfinished ⟨t, s₂⟩ := by
            rcases hb with heq | ⟨-, hcut⟩
            · omega
            · exact hcut
          have hspares : S.pairing.Spares
              (repeatUntil h₁ body₁ done₁ (passes₁ + 1) pass) := fun e w₂ =>
                repeatUntil_keeps (S.respects_cut e w₂) (hbody.spares e w₂)
                  (hdone.spares e w₂) _ pass
          exact ⟨fun w₁ w₂ hw =>
            .of_cut rfl (hspares _ _ _ (hcut w₂.tables _ _ hw.2)), hspares⟩
      | succ passes₂ =>
          refine leave_together
            (hbody.bind fun _ => hdone.bind fun finished => ?_)
            ((tell_together _).bind fun _ => .throw .cancelled) fun s₁ w₂ hc =>
              ?_
          · cases finished with
            | false => exact ih passes₂ (pass + 1) hb.of_succ
            | true => exact .pure ()
          · exact ⟨_, run_bind_ok (run_tell h₂ _ w₂) _, S.cut_told _ hc⟩

/-- Running side by side goes through programs. -/
theorem composes_together {passes₁ passes₂ : Nat}
    (hb : S.Bounds passes₁ passes₂) :
    Composes h₁ h₂ passes₁ passes₂ (fun _ => True) fun x y =>
      S.Together x y where
  pure := .pure
  bind hx hf := hx.bind hf
  tell n _ := tell_together n
  perform := perform_together
  condition e _ := condition_together e
  assign target value _ := assign_together target value
  wait d _ := wait_together d
  move axis d s _ := move_together axis d s
  guarded hx :=
    leave_together hx (.throw .cancelled) fun _ w₂ hc => ⟨w₂, rfl, hc⟩
  loop hbody hdone := repeatUntil_together hbody hdone passes₁ passes₂ 1 hb

private theorem declare_together (b : Block) :
    S.Together (declare b) (declare b) where
  pairs w₁ w₂ hw := by
    have hworlds : S.pairing.worlds (w₁.declared b) (w₂.declared b) := by
      refine ⟨?_, hw.2⟩
      rw [World.declared, World.declared, hw.1]
    cases hfault : (Declaration.enterAll [] w₂.tables b.declarations).2 with
    | none =>
        rw [run_declare_ok hfault, run_declare_ok (hw.1 ▸ hfault)]
        exact .ok rfl hworlds
    | some f =>
        rw [run_declare_error hfault, run_declare_error (hw.1 ▸ hfault)]
        exact .error (.fault rfl) hworlds
  spares _ _ := declare_keeps fun _ hc => hc

/-- **A program on two hosts.** -/
theorem interpret_together {passes₁ passes₂ : Nat}
    (hb : S.Bounds passes₁ passes₂) (p : Program) :
    S.Together (interpret h₁ passes₁ p) (interpret h₂ passes₂ p) :=
  (composes_together hb).interpret (declare_together p.block) fun _ _ => trivial

/-- What the run of a program on two hosts comes to: outcomes that agree, or a
cut. -/
theorem agree_or_cut (S : Side h₁ h₂) (passes : Nat) (p : Program)
    {w₁ : World σ₁} {w₂ : World σ₂} (htables : w₁.tables = w₂.tables)
    (hhosts : S.states w₁.host w₂.host) :
    Agree Eq (Halt.Alike Eq S.failures) ((interpret h₁ passes p).outcome w₁)
      ((interpret h₂ passes p).outcome w₂) ∧
    ((interpret h₁ passes p).after w₁).tables =
      ((interpret h₂ passes p).after w₂).tables ∧
    S.states ((interpret h₁ passes p).after w₁).host
      ((interpret h₂ passes p).after w₂).host ∨
    ∃ e, (interpret h₂ passes p).outcome w₂ = .error e ∧
      S.cut ((interpret h₁ passes p).after w₁).host e
        ((interpret h₂ passes p).after w₂) :=
  (interpret_together (S := S) (.inl rfl) p).pairs.agree_or_cut
    ⟨htables, hhosts⟩

end Side

end Fixture
