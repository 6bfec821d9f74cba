import Fixture.Proofs.Encoder.Actions
import Fixture.Proofs.Run.FailStop
/-!
# Encoders that cannot write

The encoder answers one call with up to two lines, and each of them may fail to
be written. Its actions are put together from the sending of single lines, so
that it fails cleanly is shown for one line and for two actions in a row: a line
that cannot be written ends the action, and with it the run.

## Main results

* `Encoder.clean_send`, `Encoder.clean_andThen`, `Encoder.clean_act`: an encoder
  fails cleanly.
* `interpret_failStop`: a failure ends a run where it happens, on a recorder and
  on an encoder.
-/

namespace Fixture

namespace Encoder

/-- The lines of an encoder, and an encoder that fails at one of them. -/
def ledger (session : Bool) (cause : String) :
    Ledger Encoder EncoderError String where
  record e := e.outlet.lines
  attempts e := e.outlet.attempts
  failing n e := { e with outlet := e.outlet.failing n }
  error line := writeError session line cause

/-- An encoder on an outlet that never fails. -/
structure Sound (session : Bool) (cause : String) (e : Encoder) : Prop where
  session_eq : e.session = session
  cause_eq : e.outlet.cause = cause
  outlet : e.outlet.Sound

variable {session : Bool} {cause : String}

/-! ## Actions -/

/-- An action that fails cleanly. -/
abbrev CleanAction (session : Bool) (cause : String) (a : Action) : Prop :=
  (ledger session cause).Clean (Sound session cause) a

/-- **One action after another fails cleanly if both do.** -/
theorem clean_andThen {first second : Action}
    (hfirst : CleanAction session cause first)
    (hsecond : CleanAction session cause second) :
    CleanAction session cause (andThen first second) where
  sound e h := by
    have hmiddle := hfirst.sound e h
    cases hf : (first e).failure with
    | some err =>
        rw [andThen_of_failure hf]
        exact hmiddle
    | none =>
        rw [andThen_of_none hf]
        exact hsecond.sound _ hmiddle
  grows e h := by
    have hmiddle := hfirst.grows e h
    cases hf : (first e).failure with
    | some err =>
        rw [andThen_of_failure hf]
        exact hmiddle
    | none =>
        rw [andThen_of_none hf]
        exact hmiddle.trans (hsecond.grows _ (hfirst.sound e h))
  breaks e n h hle := by
    rcases hfirst.breaks e n h hle with
      ⟨hle₁, hact⟩ | ⟨line, hget, hfailure, hrest⟩
    · cases hf : (first e).failure with
      | some err =>
          have hf' : (first ((ledger session cause).failing n e)).failure =
              some err := by
            rw [hact]
            exact hf
          rw [andThen_of_failure hf, andThen_of_failure hf']
          exact .inl ⟨hle₁, hact⟩
      | none =>
          have hf' : (first ((ledger session cause).failing n e)).failure =
              none := by
            rw [hact]
            exact hf
          rw [andThen_of_none hf, andThen_of_none hf', hact]
          rcases hsecond.breaks _ n (hfirst.sound e h) hle₁ with
            ⟨hle₂, hact₂⟩ | hbroken
          · refine .inl ⟨hle₂, ?_⟩
            show Reply.mk
                (second
                  ((ledger session cause).failing n (first e).state)).failure
                ((first e).entries ++
                  (second
                    ((ledger session cause).failing n (first e).state)).entries)
                (second
                  ((ledger session cause).failing n (first e).state)).state = _
            rw [hact₂]
            rfl
          · exact .inr hbroken
    · rw [andThen_of_failure hfailure]
      cases hf : (first e).failure with
      | some err =>
          rw [andThen_of_failure hf]
          exact .inr ⟨line, hget, hfailure, hrest⟩
      | none =>
          -- the sound encoder goes on, and only adds lines
          rw [andThen_of_none hf]
          obtain ⟨hget', htake⟩ :=
            Ledger.getElem?_eq_of_prefix (hsecond.grows _ (hfirst.sound e h))
              hget
          exact .inr ⟨line, hget', hfailure, hrest.1.trans htake.symm, hrest.2⟩

/-- An action that does nothing to the outlet, and does not look at it. -/
private theorem clean_of_quiet {a : Action} (hstate : ∀ e, (a e).state = e)
    (hfails : ∀ e n, a ((ledger session cause).failing n e) =
      (a e).onState ((ledger session cause).failing n)) :
    CleanAction session cause a where
  sound e h := by
    rw [hstate]
    exact h
  grows e _ := by
    rw [hstate]
  breaks e n _ hle := by
    rw [hstate]
    exact .inl ⟨hle, hfails e n⟩

/-- **Sending a line fails cleanly.** -/
theorem clean_send (line : String) : CleanAction session cause (send line) where
  sound e h := by
    cases hw : (e.session || e.displayed) with
    | false =>
        rw [send_silent hw]
        exact h
    | true =>
        rw [send_writing hw, Outlet.write_sound h.outlet]
        exact ⟨h.session_eq, h.cause_eq, h.outlet.wrote line⟩
  grows e h := by
    cases hw : (e.session || e.displayed) with
    | false =>
        rw [send_silent hw]
    | true =>
        rw [send_writing hw, Outlet.write_sound h.outlet]
        show e.outlet.lines <+: (e.outlet.wrote line).lines
        rw [Outlet.lines_wrote]
        exact List.prefix_append _ _
  breaks e n h hle := by
    have hlines : e.outlet.lines.length ≤ n := hle
    have hattempts := h.outlet.attempts_eq_length
    let failing : Encoder := { e with outlet := e.outlet.failing n }
    cases hw : (e.session || e.displayed) with
    | false =>
        have hfailing : send line failing =
            ⟨none, sendEntries false line, failing⟩ :=
          send_silent (e := failing) hw line
        rw [send_silent hw]
        exact .inl ⟨hle, hfailing⟩
    | true =>
        have hfailing := send_writing (e := failing) hw line
        rw [send_writing hw, Outlet.write_sound h.outlet]
        rcases Nat.lt_or_eq_of_le hlines with hlt | heq
        · rw [Outlet.write_failing_before (by omega)] at hfailing
          refine .inl ⟨?_, hfailing⟩
          show (e.outlet.wrote line).lines.length ≤ n
          rw [Outlet.lines_wrote, List.length_append]
          exact hlt
        · rw [Outlet.write_failing_due (by omega)] at hfailing
          refine .inr ⟨line, ?_, ?_, ?_, ?_⟩
          · show (e.outlet.wrote line).lines[n]? = some line
            rw [Outlet.lines_wrote, ← heq, List.getElem?_concat_length]
          · show (send line failing).failure =
              some (writeError session line cause)
            rw [hfailing, ← h.session_eq, ← h.cause_eq]
            rfl
          · show (send line failing).state.outlet.lines =
              (e.outlet.wrote line).lines.take n
            rw [hfailing, Outlet.lines_wrote, ← heq, List.take_left]
            rfl
          · show (send line failing).state.outlet.attempts = n + 1
            rw [hfailing]

private theorem clean_setMode (relative : Bool) :
    CleanAction session cause (setMode relative) where
  sound _ h := (clean_send _).sound _ ⟨h.session_eq, h.cause_eq, h.outlet⟩
  grows e h := (clean_send _).grows { e with relative }
    ⟨h.session_eq, h.cause_eq, h.outlet⟩
  breaks e n h hle := (clean_send _).breaks { e with relative } n
    ⟨h.session_eq, h.cause_eq, h.outlet⟩ hle

private theorem clean_warn (axis : Axis) (value : Float) (relative : Bool) :
    CleanAction session cause (warn axis value relative) :=
  clean_of_quiet (fun _ => rfl) fun _ _ => rfl

private theorem clean_moveWith (axis : Axis) (m : Motion) (f : Float) :
    CleanAction session cause (moveWith axis m f) :=
  clean_andThen (clean_setMode _)
    (clean_andThen (clean_warn _ _ _) (clean_send _))

private theorem clean_move (axis : Axis) (m : Motion) :
    CleanAction session cause (move axis m) := by
  refine .of_pointwise fun e => ?_
  let failing (n : Nat) : Encoder := { e with outlet := e.outlet.failing n }
  cases hflow : flow e.axes m.speed axis with
  | error err =>
      have hquiet : CleanAction session cause fun e => ⟨some err, [], e⟩ :=
        clean_of_quiet (fun _ => rfl) fun _ _ => rfl
      exact ⟨_, hquiet, move_of_error hflow,
        fun n => move_of_error (e := failing n) hflow⟩
  | ok f =>
      exact ⟨_, clean_moveWith axis m f, move_of_ok hflow,
        fun n => move_of_ok (e := failing n) hflow⟩

/-- **An encoder fails cleanly.** -/
theorem clean_act (c : Call) : CleanAction session cause (act c) := by
  cases c with
  | home => exact clean_send _
  | stop => exact clean_send _
  | wait seconds => exact clean_send _
  | move axis m => exact clean_move axis m

end Encoder

/--
**Runs stop where the machine fails.** On a recorder whose call number `n + 1`
fails, and on an encoder whose line number `n + 1` fails to be written, a
program does what it does on the sound machine, up to there and no further.
-/
theorem interpret_failStop {ε : Type} (limit : Option Nat) (p : Program)
    (t : Tables) (j : Journal) (n : Nat) (error : ε) (axes : Axes)
    (session displayed relative : Bool) (cause : String) :
    (Recorder.ledger error).FailStop (Recorder.machine error) limit p
      (.start t (.fresh fun _ => false) j) n ∧
    (Encoder.ledger session cause).FailStop Encoder.machine limit p
      (.start t
        ⟨axes, session, displayed, relative, .fresh (fun _ => false) cause⟩ j)
      n :=
  ⟨Ledger.failStop (Recorder.clean error) limit p _ n ⟨rfl, rfl⟩
    (Nat.zero_le n), Ledger.failStop Encoder.clean_act limit p _ n
    ⟨rfl, rfl, rfl, rfl⟩ (Nat.zero_le n)⟩

end Fixture
