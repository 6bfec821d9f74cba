import Fixture.Decimal.Layout
import Fixture.Machine
import Fixture.Text.Quoted
/-!
# The motion encoder

The machine of the fixture: it turns calls into the command lines of the motor
controller, one line for each command. The distance mode of the controller is
sticky, so every move sends its mode first.

With a session the lines go to the controller. Without one they only go on
display, or nowhere if there is none. A line that cannot be written fails the
call; the mode is changed even so.
-/

namespace Fixture

/-- The constants of the two axes. -/
structure Axes where
  linearMaxFlow : Float
  rotaryMaxFlow : Float
  /-- How far the linear axis travels; zero or less for no limit. -/
  linearLimit : Float
  /-- How far the rotary axis turns, in degrees; zero or less for no limit. -/
  rotaryLimit : Float

/-- The axes of the fixture as it is built. -/
def Axes.standard : Axes := ⟨1300, 9000, 300, 360⟩

/-- The greatest flow of an axis. -/
def Axes.maxFlow (a : Axes) : Axis → Float
  | .linear => a.linearMaxFlow
  | .rotary => a.rotaryMaxFlow

/-- The limit of an axis. -/
def Axes.limit (a : Axes) : Axis → Float
  | .linear => a.linearLimit
  | .rotary => a.rotaryLimit

/-- The name of the axis with a given number. -/
def Axis.nameOfNumber (n : Nat) : String :=
  if n = 0 then "linear"
  else if n = 1 then "rotary"
  else "Axis(" ++ toString n ++ ")"

/-- The axis with a given number; all numbers but one mean the linear axis. -/
def Axis.ofNumber (n : Nat) : Axis := if n = 1 then .rotary else .linear

/-- Why a command was not carried out. -/
inductive EncoderError where
  /-- A move without speed. -/
  | zeroSpeed
  /-- A command could not be sent to the controller. -/
  | sending (command cause : String)
  /-- A command could not be displayed. -/
  | display (cause : String)
deriving DecidableEq

/-- The text of an error. -/
def EncoderError.message : EncoderError → String
  | zeroSpeed => "gcode: speed must not be zero"
  | sending command cause =>
    "gcode: sending " ++ Text.quoted command ++ ": " ++ cause
  | display cause => cause

/-- An outlet for lines, the newest one first. `fails` says which writes fail,
counted from one; those leave nothing behind. -/
structure Outlet where
  fails : Nat → Bool
  cause : String
  attempts : Nat
  newest : List String

namespace Outlet

/-- An outlet before its first line. -/
def fresh (fails : Nat → Bool) (cause : String) : Outlet :=
  ⟨fails, cause, 0, []⟩

/-- An outlet that takes every line. -/
def reliable : Outlet := fresh (fun _ => false) ""

/-- The lines in order. -/
def lines (o : Outlet) : List String := o.newest.reverse

/-- Writes a line, and tells whether that went well. -/
def write (o : Outlet) (line : String) : Bool × Outlet :=
  let n := o.attempts + 1
  if o.fails n then (false, { o with attempts := n })
  else (true, { o with attempts := n, newest := line :: o.newest })

end Outlet

/-- The encoder. -/
structure Encoder where
  axes : Axes
  /-- Whether there is a session with the controller. -/
  session : Bool
  /-- Whether lines without a session are displayed. -/
  displayed : Bool
  /-- The distance mode last asked for. -/
  relative : Bool
  outlet : Outlet

namespace Encoder

/-- An action of the encoder: an error if it fails, the entries it leaves, and
the encoder after it. -/
abbrev Action := Encoder → Reply Encoder EncoderError

/-- One action, and another if the first one went well. -/
def andThen (first second : Action) : Action := fun e =>
  let r := first e
  match r.failure with
  | some _ => r
  | none =>
    let r' := second r.state
    { r' with entries := r.entries ++ r'.entries }

/-- An entry of the encoder. -/
def entry (level : Level) (message : String)
    (attributes : List (String × Attribute)) : Entry :=
  ⟨level, message, ("module", .text "gcode") :: attributes⟩

/-- Sends a command line. -/
def send (command : String) : Action := fun e =>
  if e.session then
    let (ok, outlet) := e.outlet.write command
    ⟨if ok then none else some (.sending command e.outlet.cause),
      [entry .debug "Sending command" [("cmd", .text command)]],
      { e with outlet }⟩
  else
    let entries :=
      [entry .info "No serial session, command not sent"
        [("cmd", .text command)]]
    if e.displayed then
      let (ok, outlet) := e.outlet.write command
      ⟨if ok then none else some (.display e.outlet.cause), entries,
        { e with outlet }⟩
    else ⟨none, entries, e⟩

/-- A number in a command. -/
def number (x : Float) : String := Decimal.Layout.coordinate.text x

/-- The flow for a speed: the greatest flow scaled by the speed over ten, or
over itself up to ten. It is not clamped. -/
def flow (axes : Axes) (speed : Float) (axis : Axis) :
    Except EncoderError Float :=
  let scale := Decimal.minimum speed 10
  if scale == 0 then .error .zeroSpeed
  else .ok (axes.maxFlow axis * speed / scale)

/-- Homes both axes. -/
def goHome : Action := send "G28 X,Z"

/-- The command that sets a distance mode. -/
def modeCommand (relative : Bool) : String := if relative then "G91" else "G90"

/-- Sets the distance mode. -/
def setMode (relative : Bool) : Action :=
  fun e => send (modeCommand relative) { e with relative }

/-- The command that moves an axis. -/
def moveCommand (axis : Axis) (value flow : Float) : String :=
  (match axis with
    | .linear => "G1 X"
    | .rotary => "G1 Z") ++ number value ++ " F" ++ number flow

/-- Warns of a target beyond the limit of its axis. Only absolute targets can be
told to be. -/
def warn (axis : Axis) (value : Float) (relative : Bool) : Action := fun e =>
  let limit := e.axes.limit axis
  let beyond := !relative && 0 < limit && limit < value.abs
  ⟨none,
    if beyond then
      [entry .warn "Move target beyond axis limit"
        [("axis", .axis axis), ("target", .number value),
          ("limit", .number limit)]]
    else [], e⟩

/-- Moves along an axis: the flow is worked out first, then the mode is sent,
then the move. -/
def move (axis : Axis) (m : Motion) : Action := fun e =>
  match flow e.axes m.speed axis with
  | .error err => ⟨some err, [], e⟩
  | .ok f =>
    andThen (setMode m.relative)
      (andThen (warn axis m.distance m.relative)
        (send (moveCommand axis m.distance f))) e

/-- Dwells for some seconds. -/
def wait (seconds : Float) : Action := send ("G4 " ++ number seconds)

/-- Stops the program of the controller. -/
def stop : Action := send "M0"

/-- The action for a call. -/
def act : Call → Action
  | .home => goHome
  | .stop => stop
  | .wait seconds => wait seconds
  | .move axis m => move axis m

/-- The encoder as a machine. -/
def machine : Machine Encoder EncoderError := ⟨act⟩

end Encoder

end Fixture
