import Fixture.Decimal.Layout
import Fixture.Lexeme
import Fixture.Numeral
import Fixture.Text.Utf8
import Fixture.Toml.Contents
import Fixture.Toml.Grammar
import Fixture.Toml.Tree
/-!
# The package of the program

A package for TOML documents. A document is looked at three times, and the
first look that finds a fault decides: whether it is a document at all,
whether a name is taken, and whether every key has a field that takes its
value.
-/

namespace Fixture.Toml

open Document (Literal)

variable {α : Type}

/-! ## Reading into records -/

/--
The fault of something that a field of the given type does not take. A float
is read before its type is looked at.
-/
def misplaced (owner field type : String) : Node → Fault
  | .value line v =>
    let mismatch : Fault := .mismatch line owner field v.kind type
    match v with
    | .float digits =>
      match Numeral.decimal? digits.toList with
      | some _ => mismatch
      | none => .beyondFloats line owner field digits
    | _ => mismatch
  | .list line =>
    .mismatch line owner field "array" (type ++ " (need slice)")
  | .table line _ _ => .tableMismatch line type
  | .tables line _ =>
    .mismatch line owner field "array table" (type ++ " (need slice)")

/-- Gives a field what stands under its key. An integer is no float. -/
def FieldShape.fill (owner : String) (f : FieldShape α) (c : α) (node : Node) :
    Except Fault α :=
  match f.access, node with
  | .text _ set, .value _ (.text s) => .ok (set c s)
  | .truth _ set, .value _ (.truth b) => .ok (set c b)
  | .integer _ set, .value line (.integer digits) =>
    match Numeral.signedInteger? digits.toList with
    | some n => .ok (set c n)
    | none => .error (.outOfRange line owner f.name digits f.kind)
  | .float _ set, .value line (.float digits) =>
    match Numeral.decimal? digits.toList with
    | some x => .ok (set c x)
    | none => .error (.beyondFloats line owner f.name digits)
  | _, node => .error (misplaced owner f.name f.type node)

/-- Puts the entries of a table into effect. -/
def TableShape.fill (hooks : Hooks) (t : TableShape α) :
    α → List (String × Node) → Except Fault α
  | c, [] => .ok c
  | c, (key, node) :: rest =>
    match t.field? hooks key with
    | none => .error (.missing node.line (hooks.missingField t.type key))
    | some f =>
      match f.fill t.type c node with
      | .error e => .error e
      | .ok c => t.fill hooks c rest

/-- Puts the entries of a document into effect. -/
def Shape.fill (hooks : Hooks) (s : Shape α) :
    α → List (String × Node) → Except Fault α
  | c, [] => .ok c
  | c, (key, node) :: rest =>
    match s.table? hooks key with
    | none => .error (.missing node.line (hooks.missingField s.type key))
    | some t =>
      match node with
      | .table _ _ inner =>
        match t.fill hooks c inner.entries with
        | .error e => .error e
        | .ok c => s.fill hooks c rest
      | node => .error (misplaced s.type t.name t.type node)

/-- Reads a text over a record. -/
def Shape.read (hooks : Hooks) (s : Shape α) (text : List Char) (c : α) :
    Except Fault α :=
  match Document.items text with
  | none => .error (.malformed (Grammar.faultLine text))
  | some is =>
    match Tree.ofItems is with
    | .error e => .error e
    | .ok root => s.fill hooks c root.entries

/-! ## The package -/

/-- A key as it is written, in quotes if it needs them. -/
def keyText (key : String) : String :=
  if key.isEmpty || !key.toList.all isKeyChar then Text.quoted key else key

/-- What is written of a record, as text. -/
def Shape.texts (hooks : Hooks) (s : Shape α) (c : α) : List (Part String) :=
  (s.contents hooks c).map fun p =>
    ⟨p.name, p.lines.map fun l =>
      ⟨keyText l.key, l.value.written Decimal.Layout.settings.text⟩⟩

/-- A fault as an error. -/
def Fault.toError (e : Fault) : Error := ⟨some e.line, e.reason⟩

/-- The package. Floats have the shortest digits that tell them apart. -/
def package : Package where
  floatText := Decimal.Layout.settings.text
  floatOf? s := Numeral.decimal? s.toList
  marshal hooks s c := .ok (bytesOf (documentText (s.texts hooks c)))
  decode hooks s bytes c :=
    match s.read hooks (Text.utf8Chars 0 bytes) c with
    | .ok c => .ok c
    | .error e => .error e.toError

end Fixture.Toml
