import Mathlib
import Fixture.Encoder
/-!
# The actions of an encoder

What the encoder does is put together from single lines that are sent. Here is
what each way of putting actions together comes to, and what a single line does
on an outlet that takes it and on one that does not.

A move has no flow exactly if its speed is zero. The speed is held against ten
before, and the lesser of the two is zero for no other speed.

## Main results

* `Encoder.send_writing`, `Encoder.send_silent`: sending a line.
* `Encoder.flow_eq_error`, `Encoder.flow_eq_ok`: the flow of a move.
-/

namespace Fixture

/-! ## Writing -/

namespace Outlet

/-- An outlet set to fail at line number `n + 1`. -/
def failing (n : Nat) (o : Outlet) : Outlet := { o with fails := (· == n + 1) }

/-- An outlet with a line more. -/
def wrote (line : String) (o : Outlet) : Outlet :=
  { o with attempts := o.attempts + 1, newest := line :: o.newest }

/-- An outlet that never fails, and has tried what it has written. -/
structure Sound (o : Outlet) : Prop where
  fails_eq : o.fails = fun _ => false
  attempts_eq : o.attempts = o.newest.length

theorem lines_wrote (line : String) (o : Outlet) :
    (o.wrote line).lines = o.lines ++ [line] := List.reverse_cons

theorem Sound.wrote {o : Outlet} (h : o.Sound) (line : String) :
    (o.wrote line).Sound :=
  ⟨h.fails_eq, congrArg (· + 1) h.attempts_eq⟩

theorem Sound.attempts_eq_length {o : Outlet} (h : o.Sound) :
    o.attempts = o.lines.length := by
  rw [h.attempts_eq, lines, List.length_reverse]

theorem write_sound {o : Outlet} (h : o.Sound) (line : String) :
    o.write line = (true, o.wrote line) := by
  have hfails : o.fails (o.attempts + 1) = false := by rw [h.fails_eq]
  show (if o.fails (o.attempts + 1) = true then _ else _) = _
  rw [hfails]
  rfl

theorem write_failing_before {o : Outlet} {n : Nat} (h : o.attempts ≠ n)
    (line : String) :
    (o.failing n).write line = (true, (o.wrote line).failing n) := by
  have hnumber : (o.attempts + 1 == n + 1) = false := beq_false_of_ne (by omega)
  show (if (o.attempts + 1 == n + 1) = true then _ else _) = _
  rw [hnumber]
  rfl

theorem write_failing_due {o : Outlet} {n : Nat} (h : o.attempts = n)
    (line : String) :
    (o.failing n).write line =
      (false, { o.failing n with attempts := n + 1 }) := by
  have hnumber : (o.attempts + 1 == n + 1) = true := beq_iff_eq.2 (by omega)
  show (if (o.attempts + 1 == n + 1) = true then _ else _) = _
  rw [hnumber, ← h]
  rfl

end Outlet

namespace Encoder

/-! ## Sending -/

/-- The error for a line that cannot be written. -/
def writeError (session : Bool) (line cause : String) : EncoderError :=
  if session then .sending line cause else .display cause

/-- What is noted when a line is sent. -/
def sendEntries (session : Bool) (line : String) : List Entry :=
  if session then [entry .debug "Sending command" [("cmd", .text line)]]
  else [entry .info "No serial session, command not sent" [("cmd", .text line)]]

/-- An encoder with a session or a display writes what it sends. -/
theorem send_writing {e : Encoder} (h : (e.session || e.displayed) = true)
    (line : String) :
    send line e =
      ⟨if (e.outlet.write line).1 then none
        else some (writeError e.session line e.outlet.cause),
        sendEntries e.session line,
        { e with outlet := (e.outlet.write line).2 }⟩ := by
  unfold send writeError sendEntries
  cases hsession : e.session with
  | true => rfl
  | false =>
      have hdisplayed : e.displayed = true := by
        rw [hsession] at h
        exact h
      rw [hdisplayed]
      rfl

/-- An encoder with neither only notes it. -/
theorem send_silent {e : Encoder} (h : (e.session || e.displayed) = false)
    (line : String) : send line e = ⟨none, sendEntries false line, e⟩ := by
  obtain ⟨hsession, hdisplayed⟩ := Bool.or_eq_false_iff.1 h
  unfold send sendEntries
  rw [hsession, hdisplayed]
  rfl

/-! ## Actions in a row -/

theorem andThen_of_failure {first second : Action} {e : Encoder}
    {err : EncoderError} (h : (first e).failure = some err) :
    andThen first second e = first e := by
  simp only [andThen, h]

theorem andThen_of_none {first second : Action} {e : Encoder}
    (h : (first e).failure = none) :
    andThen first second e =
      { second (first e).state with
        entries :=
          (first e).entries ++ (second (first e).state).entries } := by
  simp only [andThen, h]

/-- The lines of a move, once its flow is known. -/
def moveWith (axis : Axis) (m : Motion) (flow : Float) : Action :=
  andThen (setMode m.relative) (andThen (warn axis m.distance m.relative)
    (send (moveCommand axis m.distance flow)))

theorem move_of_error {axis : Axis} {m : Motion} {e : Encoder}
    {err : EncoderError} (h : flow e.axes m.speed axis = .error err) :
    move axis m e = ⟨some err, [], e⟩ := by
  simp only [move, h]

theorem move_of_ok {axis : Axis} {m : Motion} {e : Encoder} {f : Float}
    (h : flow e.axes m.speed axis = .ok f) :
    move axis m e = moveWith axis m f e := by
  simp only [move, h, moveWith]

end Encoder

/-! ## Speeds -/

section Speeds

open Decimal Float.Model

private theorem unpack_zero : (0 : Float).toModel.unpack = .zero .positive :=
  rfl

private theorem unpack_ten : ∃ m e h,
    (10 : Float).toModel.unpack = .finite .positive m e h :=
  ⟨_, _, by decide, rfl⟩

/-- Whatever equals zero is below ten. -/
private theorem lt_ten_of_beq_zero {x : Float} (h : (x == 0) = true) :
    x < 10 := by
  have hcompare : (x.toModel.unpack.compare (0 : Float).toModel.unpack ==
      some Ordering.eq) = true := h
  rw [unpack_zero] at hcompare
  obtain ⟨m, e, hpos, hten⟩ := unpack_ten
  refine decide_eq_true (p := x.toModel < (10 : Float).toModel) ?_
  show (x.toModel.unpack.compare (10 : Float).toModel.unpack ==
    some Ordering.lt) = true
  rw [hten]
  cases hx : x.toModel.unpack with
  | zero s => rfl
  | notANumber =>
      rw [hx] at hcompare
      cases hcompare
  | infinity s =>
      rw [hx] at hcompare
      cases s <;> cases hcompare
  | finite s m e h =>
      rw [hx] at hcompare
      cases s <;> cases hcompare

private theorem parts_ten :
    parts 10 = .finite false 5629499534213120 (-49) := by decide +kernel

/-- The lesser of a double and ten, where infinite and undefined ones stay. -/
private theorem minimum_ten (x : Float) :
    minimum x 10 = x ∨ minimum x 10 = if x < 10 then x else 10 := by
  unfold minimum
  rw [parts_ten]
  cases parts x with
  | notANumber => exact .inl rfl
  | infinite negative =>
      cases negative with
      | true => exact .inl rfl
      | false => exact .inr rfl
  | finite negative m e =>
      -- a zero mantissa meets the patterns for two zeros, of which ten is none
      cases m with
      | zero => cases negative <;> exact .inr rfl
      | succ m => cases negative <;> exact .inr rfl

/-- **The lesser of a double and ten is zero only if the double is.** -/
theorem minimum_ten_beq_zero (x : Float) : (minimum x 10 == 0) = (x == 0) := by
  rcases minimum_ten x with h | h
  · rw [h]
  · rw [h]
    by_cases hlt : x < 10
    · rw [if_pos hlt]
    · rw [if_neg hlt]
      cases hzero : x == 0 with
      | false => decide +kernel
      | true => exact absurd (lt_ten_of_beq_zero hzero) hlt

theorem Encoder.flow_eq_error {axes : Axes} {speed : Float} {axis : Axis}
    (h : (speed == 0) = true) : flow axes speed axis = .error .zeroSpeed := by
  show (if (minimum speed 10 == 0) = true then _ else _) = _
  rw [minimum_ten_beq_zero, h]
  rfl

theorem Encoder.flow_eq_ok {axes : Axes} {speed : Float} {axis : Axis}
    (h : (speed == 0) = false) :
    flow axes speed axis =
      .ok (axes.maxFlow axis * speed / minimum speed 10) := by
  show (if (minimum speed 10 == 0) = true then _ else _) = _
  rw [minimum_ten_beq_zero, h]
  rfl

end Speeds

end Fixture
