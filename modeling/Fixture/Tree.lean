import Fixture.Token
/-!
# Program trees

The tree of a motion program: three sections of declarations and a list of
statements. Every node keeps the token it was read from, which gives diagnostics
their place and printing its text; what the node means is in its constructor and
the values beside the token.

Parentheses leave no node. An operator is the token itself: its kind decides
what it computes, its literal how it is shown.
-/

namespace Fixture

/-- An expression. -/
inductive Expr where
  /-- A variable or waypoint, by name. -/
  | name (tok : Token)
  | integer (tok : Token) (value : Int64)
  | real (tok : Token) (value : Float)
  | boolean (tok : Token) (value : Bool)
  /-- An operand with a sign. -/
  | signed (op : Token) (operand : Expr)
  /-- Two operands and the operator between them. -/
  | binary (op : Token) (left right : Expr)

namespace Expr

/-- The token a node was read from; for an operation, its operator. -/
def tok : Expr → Token
  | name t | integer t _ | real t _ | boolean t _ | signed t _ | binary t _ _ =>
    t

/-- The leftmost token of an expression, opening parentheses aside. -/
def leading : Expr → Token
  | binary _ l _ => l.leading
  | e => e.tok

/-- Puts another kind of operator into the outermost node; its literal stays. A
node without an operator is left alone. -/
def withOperator (k : Kind) : Expr → Expr
  | signed op e => signed { op with kind := k } e
  | binary op l r => binary { op with kind := k } l r
  | e => e

end Expr

/-- The axes of the fixture. -/
inductive Axis where
  | linear
  | rotary
deriving DecidableEq

/-- A statement. The bodies of branches and loops are statement lists with the
token that they begin on. -/
inductive Stmt where
  /-- The empty statement. -/
  | skip
  /-- A statement list in brackets. -/
  | compound (tok : Token) (body : List Stmt)
  | assign (tok target : Token) (value : Expr)
  /-- A branch without an alternative. -/
  | ifThen (tok : Token) (condition : Expr) (bodyTok : Token) (body : List Stmt)
  | ifElse (tok : Token) (condition : Expr) (bodyTok : Token) (body : List Stmt)
      (altTok : Token) (alt : List Stmt)
  /-- A body that is repeated until a condition holds, once at least. -/
  | loop (tok bodyTok : Token) (body : List Stmt) (condition : Expr)
  | wait (tok : Token) (duration : Expr)
  /-- A move on one axis, with or without a speed. -/
  | move (tok : Token) (axis : Axis) (distance : Expr) (speed : Option Expr)
  | home (tok : Token)
  | stop (tok : Token)

/-- The declaration of one variable. A group of names with one type makes
several of them. -/
structure VarDecl where
  tok : Token
  type : Kind

/-- The declaration of a pin of the controller. -/
structure PinDecl where
  tok : Token
  direction : Kind
  pin : Int64

/-- The declaration of a waypoint: a distance and a speed for moves to refer
to. -/
structure WaypointDecl where
  tok : Token
  distance : Expr
  speed : Expr

/-- The declared name. -/
def VarDecl.name (d : VarDecl) : String := d.tok.literal

/-- The declared name. -/
def PinDecl.name (d : PinDecl) : String := d.tok.literal

/-- The declared name. -/
def WaypointDecl.name (d : WaypointDecl) : String := d.tok.literal

/-- The declarations and the body of a program. -/
structure Block where
  vars : List VarDecl
  pins : List PinDecl
  waypoints : List WaypointDecl
  bodyTok : Token
  body : List Stmt

/-- A program. -/
structure Program where
  tok : Token
  name : String
  block : Block

/-- The names that a block declares, section after section, with repeats. -/
def Block.declaredNames (b : Block) : List String :=
  b.vars.map VarDecl.name ++ b.pins.map PinDecl.name ++
    b.waypoints.map WaypointDecl.name

/-- Gives variables the types of a list, where it names them. -/
def Program.withTypes (types : List (String × Kind)) (p : Program) : Program :=
  let retype (d : VarDecl) : VarDecl :=
    { d with type := (types.lookup d.name).getD d.type }
  { p with block := { p.block with vars := p.block.vars.map retype } }

end Fixture
