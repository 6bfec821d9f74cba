import Fixture.Text.Join
import Fixture.Text.Quoted
import Fixture.Toml
/-!
# Records as documents

What a document says of a record, apart from how it is spelt: parts with
names, and lines with keys and values. `Shape.contents` is what is written of
a record, `documentText` the text of what is written, and `Shape.assign?` what
a document makes of the record that it is read over.
-/

namespace Fixture.Toml

/-- A key with its value, or with the text of its value. -/
structure Line (ν : Type) where
  key : String
  value : ν

/-- A table of a document. -/
structure Part (ν : Type) where
  name : String
  lines : List (Line ν)

variable {α ν ω : Type}

/-- A line with another value. -/
def Line.map (f : ν → ω) (l : Line ν) : Line ω := ⟨l.key, f l.value⟩

/-- A table with other values. -/
def Part.map (f : ν → ω) (p : Part ν) : Part ω :=
  ⟨p.name, p.lines.map (·.map f)⟩

/-! ## Writing -/

/-- The characters of a key that needs no quotes. -/
def isKeyChar (c : Char) : Bool := c.isAlphanum || c = '-' || c = '_'

/-- The text of a value. -/
def Scalar.written (floatText : Float → String) : Scalar → String
  | text s => Text.quoted s
  | integer n => toString n.toInt
  | float x => floatText x
  | truth b => if b then "true" else "false"

/-- The text of a line. -/
def Line.text (l : Line String) : String := l.key ++ " = " ++ l.value ++ "\n"

/-- The text of a table: its name in brackets, and its lines. -/
def Part.text (p : Part String) : String :=
  "[" ++ p.name ++ "]\n" ++ String.join (p.lines.map Line.text)

/-- The text of a document, with an empty line between tables. -/
def documentText (ps : List (Part String)) : String :=
  Text.joined "\n" (ps.map Part.text)

/-- Whether a field is written. -/
def FieldShape.mentions (c : α) (f : FieldShape α) : Bool :=
  !(f.omitEmpty && (f.access.get c).isEmpty)

/-- What is written of a field. -/
def FieldShape.line (hooks : Hooks) (type : String) (c : α)
    (f : FieldShape α) : Line Scalar :=
  ⟨hooks.fieldToKey type f.name, f.access.get c⟩

/-- What is written of a part. -/
def TableShape.part (hooks : Hooks) (type : String) (c : α)
    (t : TableShape α) : Part Scalar :=
  ⟨hooks.fieldToKey type t.name,
    (t.fields.filter (·.mentions c)).map (·.line hooks t.type c)⟩

/-- What is written of a record. -/
def Shape.contents (hooks : Hooks) (s : Shape α) (c : α) :
    List (Part Scalar) :=
  s.tables.map (·.part hooks s.type c)

/-! ## Reading -/

/--
The field that a key is about. Of fields whose names are the same in the form
in which they are compared, it is the last one.
-/
def TableShape.field? (hooks : Hooks) (t : TableShape α) (key : String) :
    Option (FieldShape α) :=
  t.fields.reverse.find? fun f =>
    hooks.normFieldName t.type f.name == hooks.normFieldName t.type key

/-- The part that a table is about. -/
def Shape.table? (hooks : Hooks) (s : Shape α) (key : String) :
    Option (TableShape α) :=
  s.tables.reverse.find? fun t =>
    hooks.normFieldName s.type t.name == hooks.normFieldName s.type key

/-- What the lines of a table make of a record. -/
def TableShape.assign? (hooks : Hooks) (t : TableShape α) :
    α → List (Line Scalar) → Option α
  | c, [] => some c
  | c, l :: ls =>
    match t.field? hooks l.key with
    | none => none
    | some f =>
      match f.access.set? c l.value with
      | none => none
      | some c => t.assign? hooks c ls

/--
What a document makes of a record, if every table and key of it is known and
every value is of the type of its field.
-/
def Shape.assign? (hooks : Hooks) (s : Shape α) :
    α → List (Part Scalar) → Option α
  | c, [] => some c
  | c, p :: ps =>
    match s.table? hooks p.name with
    | none => none
    | some t =>
      match t.assign? hooks c p.lines with
      | none => none
      | some c => s.assign? hooks c ps

end Fixture.Toml
