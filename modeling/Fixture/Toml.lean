/-!
# TOML packages

The program leaves it to a package to write records as TOML documents and to
read documents into records. This module says what such a package is given
and what it gives back, and nothing about how it works: a `Package` is two
functions on records of any type, told what the fields of the type are by a
`Shape` and how fields and keys are named by `Hooks`.

Records are two levels deep, as documents of tables with simple values are: a
record has named parts, and a part has named fields.
-/

namespace Fixture.Toml

/-! ## Values and fields -/

/-- What a field of a record holds. -/
inductive Scalar where
  | text (s : String)
  | integer (n : Int64)
  | float (x : Float)
  | truth (b : Bool)

/-- Whether a value is the one that its field has if nothing is said. -/
def Scalar.isEmpty : Scalar → Bool
  | text s => s.isEmpty
  | integer n => n == 0
  | float x => x == 0
  | truth b => !b

/-- A field of records by its type: how it is read and how it is changed. -/
inductive Access (α : Type) where
  | text (get : α → String) (set : α → String → α)
  | integer (get : α → Int64) (set : α → Int64 → α)
  | float (get : α → Float) (set : α → Float → α)
  | truth (get : α → Bool) (set : α → Bool → α)

namespace Access

variable {α : Type}

/-- What a field holds. -/
def get : Access α → α → Scalar
  | text get _, c => .text (get c)
  | integer get _, c => .integer (get c)
  | float get _, c => .float (get c)
  | truth get _, c => .truth (get c)

/-- Gives a field a value, if it is one of its type. -/
def set? : Access α → α → Scalar → Option α
  | text _ set, c, .text s => some (set c s)
  | integer _ set, c, .integer n => some (set c n)
  | float _ set, c, .float x => some (set c x)
  | truth _ set, c, .truth b => some (set c b)
  | _, _, _ => none

end Access

/-! ## Types of records -/

/-- A field of a record. -/
structure FieldShape (α : Type) where
  name : String
  /-- The name of its type. -/
  type : String
  /-- The name of the kind of numbers that its type is made of. -/
  kind : String
  /-- Whether it is left out where it is empty. -/
  omitEmpty : Bool
  access : Access α

/-- A part of a record. -/
structure TableShape (α : Type) where
  name : String
  type : String
  fields : List (FieldShape α)

/-- A record. -/
structure Shape (α : Type) where
  type : String
  tables : List (TableShape α)

/-- How fields and keys are named. Each is told the type that it is about. -/
structure Hooks where
  /-- The form in which the names of fields and keys are compared. -/
  normFieldName : (type name : String) → String
  /-- The key that a field is written under. -/
  fieldToKey : (type field : String) → String
  /-- What is said of a key without a field. -/
  missingField : (type key : String) → String

/-! ## Packages -/

/-- Why a document was not written or not read. -/
structure Error where
  /-- The line of the document that is to blame, if one is. -/
  line? : Option Nat
  reason : String
deriving DecidableEq

/-- The text of an error. -/
def Error.message (e : Error) : String :=
  match e.line? with
  | some n => "line " ++ toString n ++ ": " ++ e.reason
  | none => e.reason

/-- A package for TOML documents. -/
structure Package where
  /-- The text of a float. -/
  floatText : Float → String
  /-- The float that a text stands for. -/
  floatOf? : String → Option Float
  /-- Writes a record. -/
  marshal : {α : Type} → Hooks → Shape α → α → Except Error (List UInt8)
  /-- Reads a document over a record. -/
  decode : {α : Type} → Hooks → Shape α → List UInt8 → α → Except Error α

end Fixture.Toml
