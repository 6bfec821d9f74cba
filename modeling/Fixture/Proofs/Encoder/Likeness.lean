import Fixture.Proofs.Encoder.Actions
import Fixture.Proofs.Run.History
/-!
# Encoders that are alike

Two encoders may differ in where their lines go, in the lines that they have
sent before, or in the mode that they are in. As long as they take each line
alike, they take each call alike, since a call is put together from lines; and a
program on the one does what it does on the other.

## Main results

* `Encoder.Likeness.matched_act`: calls on encoders that are alike.
* `Encoder.Likeness.agree`: programs on encoders that are alike.
-/

namespace Fixture

open Run

namespace Encoder

/-- Actions that lead from encoders that are alike to such encoders, up to
corresponding failures. -/
def Matched (alike : Encoder → Encoder → Prop)
    (failures : EncoderError → EncoderError → Prop) (a : Action) : Prop :=
  ∀ e₁ e₂, alike e₁ e₂ →
    alike (a e₁).state (a e₂).state ∧
    Option.Rel failures (a e₁).failure (a e₂).failure

/-- A way for encoders to be alike that they do not lose over a line or a
mode. -/
structure Likeness where
  /-- The encoders that are alike. -/
  alike : Encoder → Encoder → Prop
  /-- The failures that correspond. -/
  failures : EncoderError → EncoderError → Prop
  axes_eq : ∀ {e₁ e₂}, alike e₁ e₂ → e₂.axes = e₁.axes
  alike_relative : ∀ {e₁ e₂}, alike e₁ e₂ →
    ∀ relative, alike { e₁ with relative } { e₂ with relative }
  zeroSpeed : failures .zeroSpeed .zeroSpeed
  matched_send : ∀ line, Matched alike failures (send line)

namespace Likeness

variable (L : Likeness)

private theorem matched_andThen {first second : Action}
    (hfirst : Matched L.alike L.failures first)
    (hsecond : Matched L.alike L.failures second) :
    Matched L.alike L.failures (andThen first second) := by
  intro e₁ e₂ he
  obtain ⟨halike, hrel⟩ := hfirst e₁ e₂ he
  cases hf₁ : (first e₁).failure with
  | some err₁ =>
      cases hf₂ : (first e₂).failure with
      | none =>
          rw [hf₁, hf₂] at hrel
          cases hrel
      | some err₂ =>
          rw [andThen_of_failure hf₁, andThen_of_failure hf₂]
          exact ⟨halike, hrel⟩
  | none =>
      cases hf₂ : (first e₂).failure with
      | some err₂ =>
          rw [hf₁, hf₂] at hrel
          cases hrel
      | none =>
          rw [andThen_of_none hf₁, andThen_of_none hf₂]
          exact hsecond _ _ halike

private theorem matched_setMode (relative : Bool) :
    Matched L.alike L.failures (setMode relative) :=
  fun _ _ he =>
    L.matched_send (modeCommand relative) _ _ (L.alike_relative he relative)

private theorem matched_warn (axis : Axis) (value : Float) (relative : Bool) :
    Matched L.alike L.failures (warn axis value relative) :=
  fun _ _ he => ⟨he, .none⟩

private theorem matched_move (axis : Axis) (m : Motion) :
    Matched L.alike L.failures (move axis m) := by
  intro e₁ e₂ he
  cases hspeed : m.speed == 0 with
  | true =>
      rw [move_of_error (flow_eq_error hspeed),
        move_of_error (flow_eq_error hspeed)]
      exact ⟨he, .some L.zeroSpeed⟩
  | false =>
      obtain ⟨f, hflow₁⟩ : ∃ f, flow e₁.axes m.speed axis = .ok f :=
        ⟨_, flow_eq_ok hspeed⟩
      have hflow₂ : flow e₂.axes m.speed axis = .ok f := by
        rw [L.axes_eq he, hflow₁]
      rw [move_of_ok hflow₁, move_of_ok hflow₂]
      exact L.matched_andThen (L.matched_setMode _)
        (L.matched_andThen (L.matched_warn _ _ _) (L.matched_send _)) e₁ e₂ he

/-- **Calls on encoders that are alike** do the same. -/
theorem matched_act (c : Call) : Matched L.alike L.failures (act c) := by
  cases c with
  | home => exact L.matched_send _
  | stop => exact L.matched_send _
  | wait seconds => exact L.matched_send _
  | move axis m => exact L.matched_move axis m

/-- A run on an encoder beside one on an encoder that is alike. -/
def side (limit : Option Nat) :
    Side (machine.host limit) (machine.host limit) where
  states s₁ s₂ := L.alike s₁.machine s₂.machine ∧ s₁.checks = s₂.checks
  failures := L.failures
  cut _ _ _ := False
  states_note _ hs := hs
  states_check {s₁ s₂} _ hs := by
    obtain ⟨halike, hchecks⟩ := hs
    refine .inl ⟨?_, halike, congrArg (· + 1) hchecks⟩
    show Machine.allows limit s₁.checks = Machine.allows limit s₂.checks
    rw [hchecks]
  states_perform {s₁ s₂} c _ hs := by
    obtain ⟨halike, hrel⟩ := L.matched_act c s₁.machine s₂.machine hs.1
    exact .inl ⟨hrel, halike, hs.2⟩
  cut_note _ hc := hc
  cut_check _ hc := hc
  cut_perform _ _ hc := hc
  cut_told _ hc := hc

/-- **Programs on encoders that are alike** end alike. -/
theorem agree (limit : Option Nat) (passes : Nat) (p : Program) (t : Tables)
    (j : Journal) {e₁ e₂ : Encoder} (he : L.alike e₁ e₂) :
    let run := interpret (machine.host limit) passes p
    let start₁ := World.start t e₁ j
    let start₂ := World.start t e₂ j
    Agree Eq (Halt.Alike Eq L.failures) (run.outcome start₁)
      (run.outcome start₂) ∧
    (run.after start₁).tables = (run.after start₂).tables ∧
    L.alike (run.after start₁).host.machine
      (run.after start₂).host.machine := by
  intro run start₁ start₂
  have htables : start₁.tables = start₂.tables := rfl
  have hstates : (L.side limit).states start₁.host start₂.host := ⟨he, rfl⟩
  rcases (L.side limit).agree_or_cut passes p htables hstates with
    ⟨hagree, htables', halike, -⟩ | ⟨_, _, hcut⟩
  · exact ⟨hagree, htables', halike⟩
  · exact hcut.elim

end Likeness

end Encoder

end Fixture
