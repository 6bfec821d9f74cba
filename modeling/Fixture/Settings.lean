import Fixture.Encoder
import Fixture.Toml
/-!
# Settings

The line to the motor controller, the axes and the journal. Settings are kept
in TOML documents, with a table for each of the three and a key for each
field. A package does the writing and the reading; the settings say what their
fields are, and that keys have the names of fields.
-/

namespace Fixture

/-- The line to the controller. -/
structure SerialSettings where
  device : String
  baud : Int64
  /-- How long a read may take, in nanoseconds. -/
  readTimeout : Int64
  /-- Whether the line is left alone. -/
  disabled : Bool

/-- What goes to the journal, and in which form. -/
structure LogSettings where
  level : String
  format : String

/-- All settings. -/
structure Settings where
  serial : SerialSettings
  axes : Axes
  log : LogSettings

namespace Settings

/-- The settings where nothing else is said. -/
def standard : Settings where
  serial := ⟨"/dev/ttyUSB0", 115200, 1000000000, false⟩
  axes := Axes.standard
  log := ⟨"info", "text"⟩

/-- Settings with every field empty. -/
def blank : Settings where
  serial := ⟨"", 0, 0, false⟩
  axes := ⟨0, 0, 0, 0⟩
  log := ⟨"", ""⟩

/-! ## Fields -/

open Toml

/-- A text. -/
def textField (name : String) (get : Settings → String)
    (set : Settings → String → Settings) : FieldShape Settings :=
  ⟨name, "string", "string", false, .text get set⟩

/-- A number of an axis. -/
def axisField (name : String) (get : Axes → Float)
    (set : Axes → Float → Axes) : FieldShape Settings :=
  ⟨name, "float64", "float64", false,
    .float (get ·.axes) fun c x => { c with axes := set c.axes x }⟩

/-- The line to the controller. Only a line that is left alone says so. -/
def serialShape : TableShape Settings where
  name := "Serial"
  type := "serial.Config"
  fields := [
    textField "Device" (·.serial.device) fun c s =>
      { c with serial := { c.serial with device := s } },
    ⟨"Baud", "int", "int", false, .integer (·.serial.baud) fun c n =>
      { c with serial := { c.serial with baud := n } }⟩,
    ⟨"ReadTimeout", "time.Duration", "int64", false,
      .integer (·.serial.readTimeout) fun c n =>
        { c with serial := { c.serial with readTimeout := n } }⟩,
    ⟨"Disabled", "bool", "bool", true, .truth (·.serial.disabled) fun c b =>
      { c with serial := { c.serial with disabled := b } }⟩]

/-- The axes. -/
def axesShape : TableShape Settings where
  name := "Axes"
  type := "gcode.Config"
  fields := [
    axisField "LinearMaxFlow" (·.linearMaxFlow) ({ · with linearMaxFlow := · }),
    axisField "RotaryMaxFlow" (·.rotaryMaxFlow) ({ · with rotaryMaxFlow := · }),
    axisField "LinearLimit" (·.linearLimit) ({ · with linearLimit := · }),
    axisField "RotaryLimit" (·.rotaryLimit) ({ · with rotaryLimit := · })]

/-- The journal. -/
def logShape : TableShape Settings where
  name := "Log"
  type := "config.LogConfig"
  fields := [
    textField "Level" (·.log.level) fun c s =>
      { c with log := { c.log with level := s } },
    textField "Format" (·.log.format) fun c s =>
      { c with log := { c.log with format := s } }]

/-- The fields of settings. -/
def shape : Shape Settings where
  type := "config.Config"
  tables := [serialShape, axesShape, logShape]

/-- Keys have the same names as fields, and every key has to have a field. -/
def tomlSettings : Hooks where
  normFieldName _ key := key
  fieldToKey _ field := field
  missingField type key :=
    "field '" ++ key ++ "' is not defined in " ++ type

/-! ## Documents -/

/-- Settings as a document. -/
def marshal (toml : Package) (c : Settings) : Except Error (List UInt8) :=
  toml.marshal tomlSettings shape c

/-- Reads a document over settings. Fields that it does not mention stay. -/
def decode (toml : Package) (bytes : List UInt8) (c : Settings) :
    Except Error Settings :=
  toml.decode tomlSettings shape bytes c

end Settings

end Fixture
