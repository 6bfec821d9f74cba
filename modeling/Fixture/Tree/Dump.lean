import Fixture.Decimal.Layout
import Fixture.Run.Node
import Fixture.Text.Quoted
/-!
# Trees as structured dumps

A tree with all there is in it, field by field, tokens and places included. A
dump is a list of lines: values with parts open on one line, indent their parts,
and close on another.
-/

namespace Fixture

namespace Dump

/-- Puts a comma behind a part. -/
def withComma : List String → List String
  | [] => []
  | [line] => [line ++ ","]
  | line :: lines => line :: withComma lines

/-- Parts in a row, with commas between them. -/
def separated : List (List String) → List String
  | [] => []
  | [part] => part
  | part :: parts => withComma part ++ separated parts

/-- A value with parts. -/
def group (opening closing : String) (parts : List (List String)) :
    List String :=
  opening :: (separated parts).map ("  " ++ ·) ++ [closing]

/-- A part with a name. -/
def field (name : String) : List String → List String
  | [] => []
  | line :: lines => (name ++ ": " ++ line) :: lines

/-- A node with its fields. -/
def node (label : String) (fields : List (List String)) : List String :=
  group ("(" ++ label ++ ")(\x7b") "\x7d)" fields

/-- The length of what follows, where there is anything. -/
def size (n : Nat) : String :=
  if n = 0 then "" else "(len=" ++ toString n ++ ") "

/-- A list of values. -/
def list (type : String) (items : List (List String)) : List String :=
  group ("(" ++ type ++ ") " ++ size items.length ++ "\x7b") "\x7d" items

/-- A text of some type, with its length in bytes. -/
def text (type s : String) : List String :=
  ["(" ++ type ++ ") " ++ size s.utf8ByteSize ++ Text.quoted s]

/-- A plain text. -/
def string (s : String) : List String := text "string" s

/-- A kind of token. -/
def kind (k : Kind) : List String := text "token.TokenType" k.name

/-- A value that needs no quotes. -/
def plain (type s : String) : List String := ["(" ++ type ++ ") " ++ s]

/-- A number of 64 bits. -/
def word (n : Int64) : List String := plain "int64" (toString n.toInt)

/-- A token. -/
def token (t : Token) : List String :=
  group "(token.Token) \x7b" "\x7d" [field "Type" (kind t.kind),
    field "Literal" (string t.literal),
    field "Line" (plain "int" (toString t.pos.line)),
    field "Column" (plain "int" (toString t.pos.column))]

end Dump

open Dump

/-- An expression as a dump. -/
def Expr.dump (e : Expr) : List String :=
  node e.label (field "Token" (token e.tok) ::
    match e with
    | .name t => [field "Value" (string t.literal)]
    | .integer _ n => [field "Value" (word n)]
    | .real _ x =>
      [field "Value" (plain "float64" (Decimal.Layout.compact.text x))]
    | .boolean _ b =>
      [field "Value" (plain "bool" (if b then "true" else "false"))]
    | .signed op operand =>
      [field "Operator" (string op.literal), field "Right" operand.dump]
    | .binary op l r =>
      [field "Left" l.dump, field "Operator" (string op.literal),
        field "Right" r.dump])

/-- An expression that may be missing. -/
def dumpOptional : Option Expr → List String
  | some e => e.dump
  | none => plain "ast.Expression" "<nil>"

/-- A statement list, by its token and the dumps of its statements. -/
def dumpCompound (tok : Token) (body : List (List String)) : List String :=
  node compoundLabel [field "Token" (token tok),
    field "Statements" (list "[]ast.Statement" body)]

mutual

/-- A statement as a dump. -/
def Stmt.dump : Stmt → List String
  | .skip => node skipLabel []
  | .compound t body => dumpCompound t (dumpEach body)
  | .assign t target value =>
    node "*ast.Assign" [field "Token" (token t),
      field "Name" (Expr.name target).dump, field "Value" value.dump]
  | .ifThen t c bodyTok body =>
    node "*ast.If" [field "Token" (token t), field "Condition" c.dump,
      field "Consequence" (dumpCompound bodyTok (dumpEach body)),
      field "Alternative" (node skipLabel [])]
  | .ifElse t c bodyTok body altTok alt =>
    node "*ast.If" [field "Token" (token t), field "Condition" c.dump,
      field "Consequence" (dumpCompound bodyTok (dumpEach body)),
      field "Alternative" (dumpCompound altTok (dumpEach alt))]
  | .loop t bodyTok body c =>
    node "*ast.Loop" [field "Token" (token t),
      field "Body" (dumpCompound bodyTok (dumpEach body)),
      field "Condition" c.dump]
  | .wait t d =>
    node "*ast.Wait" [field "Token" (token t), field "Duration" d.dump]
  | .move t axis d s =>
    node (Stmt.move t axis d s).label [field "Token" (token t),
      field "Distance" d.dump, field "Speed" (dumpOptional s)]
  | .home t => node "*ast.Home" [field "Token" (token t)]
  | .stop t => node "*ast.Stop" [field "Token" (token t)]

/-- Statements as dumps. -/
def dumpEach : List Stmt → List (List String)
  | [] => []
  | s :: ss => s.dump :: dumpEach ss

end

/-- A variable declaration as a dump. -/
def VarDecl.dump (d : VarDecl) : List String :=
  node "*ast.VarDecl" [field "Token" (token d.tok),
    field "Name" (string d.name), field "Type" (kind d.type)]

/-- A pin declaration as a dump. -/
def PinDecl.dump (d : PinDecl) : List String :=
  node "*ast.IODecl" [field "Token" (token d.tok), field "Name" (string d.name),
    field "Direction" (kind d.direction), field "Pin" (word d.pin)]

/-- A waypoint declaration as a dump. -/
def WaypointDecl.dump (d : WaypointDecl) : List String :=
  node "*ast.WaypointDecl" [field "Token" (token d.tok),
    field "Name" (string d.name), field "Distance" d.distance.dump,
    field "Speed" d.speed.dump]

/-- A block as a dump. -/
def Block.dump (b : Block) : List String :=
  node "*ast.Block" [field "Declarations"
    (list "[]*ast.VarDecl" (b.vars.map VarDecl.dump)),
    field "IOList" (list "[]*ast.IODecl" (b.pins.map PinDecl.dump)),
    field "Waypoints"
      (list "[]*ast.WaypointDecl" (b.waypoints.map WaypointDecl.dump)),
    field "Body" (dumpCompound b.bodyTok (dumpEach b.body))]

/-- A program as a dump. -/
def Program.dump (p : Program) : List String :=
  node "*ast.Program" [field "Token" (token p.tok),
    field "Name" (string p.name), field "Block" p.block.dump]

end Fixture
