import Fixture.Table
import Fixture.Text.Quoted
import Fixture.Toml.Document
/-!
# Documents as trees

The items of a document are put together one after the other: a header says
where the pairs behind it belong, and a pair adds a value there. A table
within a line is a table under its key; tables within a list are several
tables under the key of the list. A name that is taken is a conflict, unless
it is the name of a table that was not given a header of its own.
-/

namespace Fixture.Toml

open Document (Literal Value Pair Header Item)

/-- What stands under a name, with its line. -/
inductive Node where
  | value (line : Nat) (v : Literal)
  | list (line : Nat)
  /-- A table, and whether it has a header. -/
  | table (line : Nat) (headed : Bool) (inner : Table Node)
  /-- Several tables. The last one is open to more pairs; for the others only
  the line of the first is kept. -/
  | tables (line : Nat) (last : Table Node)

/-- The line of what stands under a name. -/
def Node.line : Node → Nat
  | value n _ | list n | table n _ _ | tables n _ => n

/-! ## Errors -/

/-- What can come under a name. -/
inductive Newcomer where
  | table
  | tables
  | key
  /-- A step on the way to a table. -/
  | step
deriving DecidableEq

/-- What a name can be taken by. -/
inductive Holder where
  | value
  | table
  | tables
deriving DecidableEq

/-- What a name is taken by. -/
def Node.holder : Node → Holder
  | value _ _ | list _ => .value
  | table _ _ _ => .table
  | tables _ _ => .tables

/-- Why a document is not read, with the line that is to blame. -/
inductive Fault where
  /-- The text is no document. -/
  | malformed (line : Nat)
  /-- A text has an escape that stands for no character. -/
  | unreadable (line : Nat)
  /-- A name is taken, by something on an earlier line. -/
  | conflict (line : Nat) (what : Newcomer) (name : String) (holder : Holder)
      (first : Nat)
  /-- A key has no field. The text is up to the program. -/
  | missing (line : Nat) (text : String)
  /-- A field gets a value of another type. -/
  | mismatch (line : Nat) (owner field found wanted : String)
  /-- A field gets a table. -/
  | tableMismatch (line : Nat) (wanted : String)
  /-- A field gets a number that does not fit. -/
  | outOfRange (line : Nat) (owner field digits wanted : String)
  /-- A field gets a number beyond all floats. -/
  | beyondFloats (line : Nat) (owner field digits : String)
deriving DecidableEq

namespace Fault

/-- The line that is to blame. -/
def line : Fault → Nat
  | malformed n | unreadable n | conflict n _ _ _ _ | missing n _ |
    mismatch n _ _ _ _ | tableMismatch n _ | outOfRange n _ _ _ _ |
    beyondFloats n _ _ _ => n

/-- What a name is in conflict with. The line of a repeated key is given in
hexadecimal. -/
def conflictText (what : Newcomer) (name : String) (holder : Holder)
    (first : Nat) : String :=
  let taken (who : String) : String :=
    who ++ " `" ++ name ++ "' is in conflict with "
  match what, holder with
  | .table, .value => taken "table" ++ "line " ++ toString first
  | .table, .table => taken "table" ++ "table in line " ++ toString first
  | .table, .tables => taken "table" ++ "array table in line " ++ toString first
  | .tables, .value => taken "array table" ++ "line " ++ toString first
  | .tables, _ => taken "array table" ++ "table in line " ++ toString first
  | .step, _ => taken "key" ++ "line " ++ toString first
  | .key, .value =>
    taken "key" ++ "line " ++ String.ofList (Text.hex 0 first) ++ "d"
  | .key, .table => taken "key" ++ "table in line " ++ toString first
  | .key, .tables =>
    "BUG: key `" ++ name ++
      "' is in conflict but it's unknown type `[]*ast.Table'"

/-- What is wrong. -/
def reason : Fault → String
  | malformed _ => "invalid TOML syntax"
  | unreadable _ => "invalid syntax"
  | conflict _ what name holder first => conflictText what name holder first
  | missing _ text => text
  | mismatch _ owner field found wanted =>
    "(" ++ owner ++ "." ++ field ++ ") cannot unmarshal TOML " ++ found ++
      " into " ++ wanted
  | tableMismatch _ wanted =>
    "cannot unmarshal TOML table into " ++ wanted ++ " (need struct or map)"
  | outOfRange _ owner field digits wanted =>
    "(" ++ owner ++ "." ++ field ++ ") value " ++ digits ++
      " is out of range for " ++ wanted
  | beyondFloats _ owner field digits =>
    "(" ++ owner ++ "." ++ field ++ ") strconv.ParseFloat: parsing " ++
      Text.quoted digits ++ ": value out of range"

end Fault

namespace Tree

/-! ## Tables -/

/-- The error of something that comes under a name that is taken. -/
def taken (line : Nat) (what : Newcomer) (name : String) (node : Node) :
    Fault :=
  .conflict line what name node.holder node.line

/--
The table under a name that something is to be put into. One that has no
header can be gone on with.
-/
def tableFor (line : Nat) (name key : String) (t : Table Node) :
    Except Fault (Table Node) :=
  match t.get? key with
  | none => .ok .empty
  | some (.table _ false inner) => .ok inner
  | some node => .error (taken line .table name node)

/-- The line of the first of several tables under a name. -/
def tablesFor (line : Nat) (name key : String) (t : Table Node) :
    Except Fault Nat :=
  match t.get? key with
  | none => .ok line
  | some (.tables first _) => .ok first
  | some node => .error (taken line .tables name node)

/-- Begins a table under a name. -/
def beginTable (h : Header) (key : String) (t : Table Node) :
    Except Fault (Table Node) :=
  if h.isArray then
    (tablesFor h.line h.written key t).map fun first =>
      t.set key (.tables first .empty)
  else
    (tableFor h.line h.written key t).map fun inner =>
      t.set key (.table h.line true inner)

/--
Changes the table that some keys lead to. Tables that are not there are made
on the way; of several tables the last one is meant.
-/
def within (line : Nat) (change : Table Node → Except Fault (Table Node)) :
    List String → Table Node → Except Fault (Table Node)
  | [], t => change t
  | key :: keys, t =>
    match t.get? key with
    | none =>
      (within line change keys .empty).map fun inner =>
        t.set key (.table line false inner)
    | some (.table first headed inner) =>
      (within line change keys inner).map fun inner =>
        t.set key (.table first headed inner)
    | some (.tables first last) =>
      (within line change keys last).map fun inner =>
        t.set key (.tables first inner)
    | some node => .error (taken line .step key node)

/-! ## Values -/

mutual

/--
Puts the tables of a value under its key, and tells whether there are any.
`listed` says whether the value is part of a list.
-/
def storeTables (listed : Bool) (key : String) :
    Value → Table Node → Except Fault (Table Node × Bool)
  | .literal _, t => .ok (t, false)
  | .unreadable line, _ => .error (.unreadable line)
  | .list vs, t => storeAll key vs t
  | .table line ps, t =>
    if listed then
      match tablesFor line key key t with
      | .error e => .error e
      | .ok first =>
        (storePairs true ps .empty).map fun inner =>
          (t.set key (.tables first inner), true)
    else
      match tableFor line key key t with
      | .error e => .error e
      | .ok inner =>
        (storePairs false ps inner).map fun inner =>
          (t.set key (.table line false inner), true)

/-- Puts the tables of a list under its key. -/
def storeAll (key : String) :
    List Value → Table Node → Except Fault (Table Node × Bool)
  | [], t => .ok (t, false)
  | v :: vs, t =>
    match storeTables true key v t with
    | .error e => .error e
    | .ok (t, found) =>
      (storeAll key vs t).map fun (t, more) => (t, found || more)

/-- Puts pairs into a table. -/
def storePairs (listed : Bool) :
    List Pair → Table Node → Except Fault (Table Node)
  | [], t => .ok t
  | p :: ps, t =>
    match storePair listed p t with
    | .error e => .error e
    | .ok t => storePairs listed ps t

/-- Puts a pair into a table. A value that is made of tables is not kept. -/
def storePair (listed : Bool) :
    Pair → Table Node → Except Fault (Table Node)
  | .mk keyLine none _ _, _ => .error (.unreadable keyLine)
  | .mk _ (some key) line v, t =>
    match storeTables listed key v t with
    | .error e => .error e
    | .ok (t, true) => .ok t
    | .ok (t, false) =>
      match t.get? key with
      | some node => .error (taken line .key key node)
      | none =>
        match v with
        | .literal v => .ok (t.set key (.value line v))
        | _ => .ok (t.set key (.list line))

end

/-! ## Documents -/

/-- A tree, and the keys that lead to where pairs belong. -/
structure State where
  path : List String
  root : Table Node

/-- Adds an item. -/
def add (s : State) : Item → Except Fault State
  | .pair p =>
    (within 0 (storePair false p) s.path s.root).map ({ s with root := · })
  | .header h =>
    match h.keys.mapM id with
    | none => .error (.unreadable h.line)
    | some keys =>
      match keys.getLast? with
      | none => .ok s
      | some key =>
        (within h.line (beginTable h key) keys.dropLast s.root).map
          (⟨keys, ·⟩)

/-- Adds items one after the other. -/
def addAll : State → List Item → Except Fault State
  | s, [] => .ok s
  | s, i :: is =>
    match add s i with
    | .error e => .error e
    | .ok s => addAll s is

/-- The tree of a document. -/
def ofItems (is : List Item) : Except Fault (Table Node) :=
  (addAll ⟨[], .empty⟩ is).map State.root

end Tree

end Fixture.Toml
