import Fixture.Decimal.Layout
import Fixture.Journal
import Fixture.Text.Join
/-!
# Journal lines

The two forms of a journal line. In the text form level, message and attributes
are `key=value` pairs, quoted where they would be hard to tell apart. In the
JSON form they are the fields of an object, in the same order.
-/

namespace Fixture

/-- The forms of a line. -/
inductive LineFormat where
  | text
  | json
deriving DecidableEq

/-- Reads the name of a form. -/
def LineFormat.ofText (s : String) : Except String LineFormat :=
  match s with
  | "json" => .ok json
  | "" | "text" => .ok text
  | _ => .error ("unknown log format " ++ Text.quoted s)

/-- The name of an axis. -/
def Axis.name : Axis → String
  | .linear => "linear"
  | .rotary => "rotary"

/-- The number of an axis. -/
def Axis.number : Axis → Nat
  | .linear => 0
  | .rotary => 1

namespace Entry

/-- The attributes that lines show. Nothing at all under no name is left out. -/
def shown (e : Entry) : List (String × Attribute) :=
  e.attributes.filter fun
    | ("", .absent) => false
    | _ => true

/-! ## Text -/

/-- Whether a character makes the text around it need quotes. -/
def isAwkward (c : Char) : Bool :=
  let n := c.toNat
  if n < 0x80 then n ≤ 0x20 || c = '"' || c = '='
  else n = 0xfffd || !Text.isPrintable c

/-- A key or value of a text line. -/
def bare (s : String) : String :=
  if s.isEmpty || s.toList.any isAwkward then Text.quoted s else s

/-- The value of an attribute in a text line. -/
def attributeText : Attribute → String
  | .text s => bare s
  | .number x => bare (Decimal.Layout.compact.text x)
  | .whole n => toString n
  | .truth b => if b then "true" else "false"
  | .axis a => a.name
  | .absent => "<nil>"

/-- The text form of an entry. -/
def textLine (e : Entry) : String :=
  let pairs := ("level", e.level.name) :: ("msg", bare e.message) ::
    e.shown.map fun (k, a) => (bare k, attributeText a)
  Text.joined " " (pairs.map fun (k, v) => k ++ "=" ++ v)

/-! ## JSON -/

/-- A character inside a JSON string. -/
def jsonChar (c : Char) : List Char :=
  let n := c.toNat
  if c = '"' || c = '\\' then ['\\', c]
  else if n = 10 then ['\\', 'n']
  else if n = 13 then ['\\', 'r']
  else if n = 9 then ['\\', 't']
  else if n < 0x20 || n = 0x2028 || n = 0x2029 then '\\' :: 'u' :: Text.hex 4 n
  else [c]

/-- A text as a JSON string. -/
def jsonString (s : String) : String :=
  String.ofList ('"' :: s.toList.flatMap jsonChar ++ ['"'])

/-- The value of an attribute in a JSON line. A number that JSON cannot hold
leaves a remark in its place. -/
def attributeJson : Attribute → String
  | .text s => jsonString s
  | .number x =>
    let shown := Decimal.Layout.json.text x
    if x.isFinite then shown
    else jsonString ("!ERROR:json: unsupported value: " ++ shown)
  | .whole n => toString n
  | .truth b => if b then "true" else "false"
  | .axis a => toString a.number
  | .absent => "null"

/-- The JSON form of an entry. -/
def jsonLine (e : Entry) : String :=
  let pairs :=
    ("level", jsonString e.level.name) :: ("msg", jsonString e.message) ::
      e.shown.map fun (k, a) => (k, attributeJson a)
  "\x7b" ++
    Text.joined "," (pairs.map fun (k, v) => jsonString k ++ ":" ++ v) ++ "\x7d"

/-- An entry as a line. -/
def line (e : Entry) : LineFormat → String
  | .text => e.textLine
  | .json => e.jsonLine

end Entry

/-- The lines of a journal. -/
def Journal.lines (j : Journal) (f : LineFormat) : List String :=
  j.entries.map fun e => e.line f

end Fixture
