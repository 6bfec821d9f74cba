import Fixture.Settings
import Fixture.Surroundings
/-!
# The serial line

Opening the line to the motor controller. The settings are looked at before the
device is: a line that is to be left alone and a rate that no line has are
refused without touching it.
-/

namespace Fixture

/-- Why there is no line. -/
inductive LineError where
  | disabled
  | unsupportedBaud (device : String) (baud : Int64)
  | unusable (device : String) (obstacle : Obstacle)

/-- The text of an error. -/
def LineError.message : LineError → String
  | disabled => "serial: port disabled by configuration"
  | unsupportedBaud device baud =>
    "serial: open " ++ device ++ ": unsupported baud rate " ++
      toString baud.toInt
  | unusable device obstacle =>
    "serial: open " ++ device ++ ": " ++ obstacle.text

/-- The rates that a line can have. -/
def SerialLine.bauds : List Int64 := [9600, 19200, 38400, 57600, 115200, 230400]

/-- Tries to open the line that the settings describe, and tells why there is
none. -/
def SerialLine.dial {m : Type → Type} [Monad m] (w : Surroundings m)
    (s : SerialSettings) : m LineError := do
  if s.disabled then return .disabled
  else if !SerialLine.bauds.contains s.baud then
    return .unsupportedBaud s.device s.baud
  else return .unusable s.device (← w.dial s.device)

end Fixture
