import Fixture.Proofs.Encoder.FailStop
import Fixture.Proofs.Encoder.Likeness
/-!
# Session, display or neither

An encoder sends its lines to a session, shows them on a display if it has none,
or drops them if it has neither. The program must not notice. So an encoder is
held against the same one with another way out for its lines. The two stay
alike, and failures correspond.

A line that cannot be written ends both runs. With a session the error names the
command that was lost, and only a session does that. Where nothing can fail but
a move without speed, dropping the lines makes no difference either.

## Main results

* `Encoder.displaying`, `Encoder.silencing`: an encoder and the same one with
  another way out.
* `interpret_channels`: programs with a session, with a display and with
  neither.
-/

namespace Fixture

open Run

/-- The errors of one failure with a session and on a display: with a session
the command is named. -/
inductive EncoderError.Wraps (cause : String) :
    EncoderError → EncoderError → Prop where
  | zeroSpeed : Wraps cause .zeroSpeed .zeroSpeed
  | write (command : String) :
      Wraps cause (.sending command cause) (.display cause)

/-- Writing a line does not change what a failure is put down to. -/
private theorem Outlet.cause_write (o : Outlet) (line : String) :
    (o.write line).2.cause = o.cause := by
  unfold write
  dsimp only
  split <;> rfl

namespace Encoder

/-! ## Other ways out -/

/-- The same encoder with a display in place of its session. -/
def onDisplay (e : Encoder) : Encoder :=
  { e with session := false, displayed := true }

/-- The same encoder with nowhere to send its lines. -/
def silenced (cause : String) (e : Encoder) : Encoder :=
  { e with
    session := false
    displayed := false
    outlet := .fresh (fun _ => false) cause }

/-- An encoder with a session, and the same one with a display. -/
def displaying (cause : String) : Likeness where
  alike e₁ e₂ := e₁.session = true ∧ e₁.outlet.cause = cause ∧ e₂ = e₁.onDisplay
  failures := EncoderError.Wraps cause
  axes_eq he := by rw [he.2.2, onDisplay]
  alike_relative he _ := ⟨he.1, he.2.1, by rw [he.2.2, onDisplay, onDisplay]⟩
  zeroSpeed := .zeroSpeed
  matched_send line e₁ e₂ he := by
    obtain ⟨hsession, rfl, rfl⟩ := he
    have hsession' : (e₁.session || e₁.displayed) = true := by
      rw [hsession, Bool.true_or]
    have hdisplayed : (e₁.onDisplay.session || e₁.onDisplay.displayed) = true :=
      rfl
    rw [send_writing hsession', send_writing hdisplayed, hsession]
    refine ⟨⟨rfl, Outlet.cause_write e₁.outlet line, rfl⟩, ?_⟩
    show Option.Rel _ (if (e₁.outlet.write line).1 then _ else _)
      (if (e₁.outlet.write line).1 then _ else _)
    cases (e₁.outlet.write line).1 with
    | true => exact .none
    | false => exact .some (.write line)

/-- An encoder whose outlet takes every line, and the same one with nowhere to
send its lines. -/
def silencing (cause : String) : Likeness where
  alike e₁ e₂ := e₁.outlet.Sound ∧ e₂ = e₁.silenced cause
  failures err₁ err₂ := err₁ = .zeroSpeed ∧ err₂ = .zeroSpeed
  axes_eq he := by rw [he.2, silenced]
  alike_relative he _ := ⟨he.1, by rw [he.2, silenced, silenced]⟩
  zeroSpeed := ⟨rfl, rfl⟩
  matched_send line e₁ e₂ he := by
    obtain ⟨hsound, rfl⟩ := he
    have hsilent : ((e₁.silenced cause).session ||
        (e₁.silenced cause).displayed) = false := rfl
    rw [send_silent hsilent]
    cases hwriting : e₁.session || e₁.displayed with
    | false =>
        rw [send_silent hwriting]
        exact ⟨⟨hsound, rfl⟩, .none⟩
    | true =>
        rw [send_writing hwriting, Outlet.write_sound hsound]
        exact ⟨⟨hsound.wrote line, rfl⟩, .none⟩

end Encoder

/-! ## Programs -/

/-- A run with a session and one with a display have ended alike: the same
lines, the same tables and the same mode, and the same outcome up to the name of
a lost command. -/
structure DisplayedAlike (cause : String) (o₁ : Except (Halt EncoderError) Unit)
    (w₁ : World (Rig Encoder)) (o₂ : Except (Halt EncoderError) Unit)
    (w₂ : World (Rig Encoder)) : Prop where
  outcomes : Agree Eq (Halt.Alike Eq (EncoderError.Wraps cause)) o₁ o₂
  tables : w₁.tables = w₂.tables
  relative : w₁.host.machine.relative = w₂.host.machine.relative
  lines : w₁.host.machine.outlet.lines = w₂.host.machine.outlet.lines

/-- A run and one that has nowhere to send its lines have ended alike: the same
outcome, tables and mode, and no lines. -/
structure SilencedAlike (o₁ : Except (Halt EncoderError) Unit)
    (w₁ : World (Rig Encoder)) (o₂ : Except (Halt EncoderError) Unit)
    (w₂ : World (Rig Encoder)) : Prop where
  outcomes : o₂ = o₁
  tables : w₂.tables = w₁.tables
  relative : w₂.host.machine.relative = w₁.host.machine.relative
  silent : w₂.host.machine.outlet.lines = []

section Runs

variable (axes : Axes) (cause : String) (limit : Option Nat) (passes : Nat)
    (p : Program) (t : Tables) (j : Journal) (session displayed relative : Bool)

/-- On an outlet that takes every line, only a move without speed fails, with
lines and without. -/
private theorem silenced_or_still {sent : Encoder} (hsent : sent.outlet.Sound) :
    let run := interpret (Encoder.machine.host limit) passes p
    let start := World.start t sent j
    let silent := World.start t (sent.silenced cause) j
    SilencedAlike (run.outcome start) (run.after start) (run.outcome silent)
      (run.after silent) ∧
    ∀ err, run.outcome start = .error (.failure err) → err = .zeroSpeed := by
  intro run start silent
  obtain ⟨hagree, htables, -, hmachine⟩ :=
    (Encoder.silencing cause).agree limit passes p t j ⟨hsent, rfl⟩
  have hrelative := congrArg Encoder.relative hmachine
  have hlines := congrArg (fun e => e.outlet.lines) hmachine
  have hsame : ∀ {o₁ o₂ : Except (Halt EncoderError) Unit},
      Agree Eq (Halt.Alike Eq (Encoder.silencing cause).failures) o₁ o₂ →
        o₂ = o₁ ∧ ∀ err, o₁ = .error (.failure err) → err = .zeroSpeed := by
    intro o₁ o₂ h
    cases h with
    | ok h => exact ⟨rfl, by simp⟩
    | error h =>
        cases h with
        | fault h =>
            subst h
            exact ⟨rfl, by simp⟩
        | failure h =>
            obtain ⟨rfl, rfl⟩ := h
            exact ⟨rfl, by simp⟩
        | _ => exact ⟨rfl, by simp⟩
  exact ⟨⟨(hsame hagree).1, htables.symm, hrelative, hlines⟩, (hsame hagree).2⟩

/-- The command that an error names is the line that should have been sent
next. -/
private theorem command_of_sending {n : Nat} {command cause' : String} :
    let encoder := fun outlet => Encoder.mk axes true displayed relative outlet
    let run := interpret (Encoder.machine.host limit) passes p
    run.outcome (.start t (encoder (.fresh (· == n + 1) cause)) j) =
      .error (.failure (.sending command cause')) →
    cause' = cause ∧
    (run.after (.start t (encoder (.fresh (fun _ => false) cause))
      j)).host.machine.outlet.lines[n]? = some command := by
  intro encoder run hend
  have hsound : Encoder.Sound true cause
      (encoder (.fresh (fun _ => false) cause)) := ⟨rfl, rfl, rfl, rfl⟩
  rcases Ledger.same_or_stopped (L := Encoder.ledger true cause)
    (m := Encoder.machine) Encoder.clean_act limit n passes p
    (.start t (encoder (.fresh (fun _ => false) cause)) j) hsound
    (Nat.zero_le n) with
    ⟨hsame, -, -⟩ | ⟨e, hstop, b, rfl, hget, -⟩
  · have hstill :=
      (silenced_or_still cause limit passes p t j hsound.outlet).2 _
        (hsame.symm.trans hend)
    cases hstill
  · cases hstop.symm.trans hend
    rw [history_host] at hget
    exact ⟨rfl, hget⟩

end Runs

/--
**A program does not notice where its lines go.** Let any of the lines fail to
be written, and let the run be cancelled after any number of checks or never.
With a session and with a display the program ends in the same cases, with the
same lines, tables, mode and outcome, but for the error of a line that was not
written: with a session it names the command, which is the line that would have
been the next one. If no line fails, a program with neither session nor display
ends in the same cases too, with the same tables, mode and outcome, and sends
nothing.
-/
theorem interpret_channels (axes : Axes) (cause : String) (limit : Option Nat)
    (p : Program) (t : Tables) (j : Journal) (relative : Bool) :
    let start := fun session displayed fails =>
      World.start t
        (Encoder.mk axes session displayed relative (.fresh fails cause)) j
    let ends := fun session displayed fails =>
      Ends (Encoder.machine.host limit) p (start session displayed fails)
    let never := fun _ => false
    (∀ displayed fails, EndAlike (DisplayedAlike cause)
      (ends true displayed fails) (ends false true fails)) ∧
    (∀ displayed n command cause' w,
      ends true displayed (· == n + 1)
        (.error (.failure (.sending command cause'))) w →
      (EncoderError.sending command cause').message =
        "gcode: sending " ++ Text.quoted command ++ ": " ++ cause ∧
      ∃ passes,
        ((interpret (Encoder.machine.host limit) passes p).after
          (start true displayed never)).host.machine.outlet.lines[n]? =
          some command) ∧
    ∀ session displayed, EndAlike SilencedAlike (ends session displayed never)
      (ends false false never) := by
  intro start ends never
  refine ⟨fun displayed fails => ?_, fun displayed n command cause' w => ?_,
    fun session displayed => ?_⟩
  · refine .of_passes (fun passes => ?_) fun halike =>
      halike.outcomes.unfinished_iff
    have hstart : (Encoder.displaying cause).alike
        (Encoder.mk axes true displayed relative (.fresh fails cause))
        (Encoder.mk axes false true relative (.fresh fails cause)) :=
      ⟨rfl, rfl, rfl⟩
    obtain ⟨hagree, htables, -, -, hmachine⟩ :=
      (Encoder.displaying cause).agree limit passes p t j hstart
    have hrelative := congrArg Encoder.relative hmachine
    have hlines := congrArg (fun e => e.outlet.lines) hmachine
    exact ⟨hagree, htables, hrelative.symm, hlines.symm⟩
  · rintro ⟨passes, hend, -, -⟩
    obtain ⟨rfl, hget⟩ :=
      command_of_sending axes cause limit passes p t j displayed relative hend
    exact ⟨rfl, passes, hget⟩
  · refine .of_passes (fun passes => ?_) fun halike => by rw [halike.outcomes]
    have hsound : (Encoder.mk axes session displayed relative
        (.fresh never cause)).outlet.Sound := ⟨rfl, rfl⟩
    exact (silenced_or_still cause limit passes p t j hsound).1

end Fixture
