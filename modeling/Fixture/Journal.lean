import Fixture.Tree
import Fixture.Text.Blank
import Fixture.Text.Quoted
/-!
# The journal

What a run and its surroundings put on record. An entry has a level, a message
and attributes. A journal keeps the entries that reach its threshold, in order;
without a threshold it keeps nothing.
-/

namespace Fixture

/-- How much an entry matters. -/
inductive Level where
  | debug
  | info
  | warn
  | error
deriving DecidableEq

namespace Level

/-- The rank of a level: the higher, the more it matters. -/
def rank : Level → Int
  | debug => -4
  | info => 0
  | warn => 4
  | error => 8

/-- The name of a level. -/
def name : Level → String
  | debug => "DEBUG"
  | info => "INFO"
  | warn => "WARN"
  | error => "ERROR"

/-- Reads a level, in any case and with blanks around it. Nothing at all means
the usual level. -/
def ofText (s : String) : Except String Level :=
  match Text.keyword s with
  | "debug" => .ok debug
  | "" | "info" => .ok info
  | "warn" | "warning" => .ok warn
  | "error" => .ok error
  | _ => .error ("unknown log level " ++ Text.quoted s)

end Level

/-- The value of an attribute. -/
inductive Attribute where
  | text (s : String)
  | number (x : Float)
  | whole (n : Int)
  | truth (b : Bool)
  | axis (a : Axis)
  /-- Nothing at all. -/
  | absent

/-- An entry of a journal. -/
structure Entry where
  level : Level
  message : String
  attributes : List (String × Attribute)

/-- Entries with a threshold, the newest one first. -/
structure Journal where
  threshold : Option Level
  newest : List Entry

namespace Journal

/-- A journal that keeps nothing. -/
def silent : Journal := ⟨none, []⟩

/-- A journal that keeps what reaches a level. -/
def atLeast (l : Level) : Journal := ⟨some l, []⟩

/-- Whether entries of a level are kept. -/
def keeps (j : Journal) (l : Level) : Bool :=
  match j.threshold with
  | none => false
  | some t => t.rank ≤ l.rank

/-- Enters an entry, if it is kept. -/
def add (j : Journal) (e : Entry) : Journal :=
  if j.keeps e.level then { j with newest := e :: j.newest } else j

/-- Enters entries in order. -/
def addAll (j : Journal) (es : List Entry) : Journal := es.foldl add j

/-- The entries in order. -/
def entries (j : Journal) : List Entry := j.newest.reverse

end Journal

/-- Pairs loose arguments to attributes: a text is the key of what follows it.
What is no key, or has nothing behind it, is filed under a key that says so. -/
def pairAttributes : List Attribute → List (String × Attribute)
  | [] => []
  | [a] => [("!BADKEY", a)]
  | .text key :: a :: rest => (key, a) :: pairAttributes rest
  | a :: b :: rest => ("!BADKEY", a) :: pairAttributes (b :: rest)

end Fixture
