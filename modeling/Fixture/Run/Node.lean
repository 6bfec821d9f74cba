import Fixture.Tree
/-!
# Nodes

Everything that a run can be asked to visit, with the labels under which visits
are logged. Declarations are nodes too, but entering them is the business of
their block: visited by themselves they have no meaning.
-/

namespace Fixture

/-- The label of an expression. -/
def Expr.label : Expr → String
  | .name _ => "*ast.Identifier"
  | .integer _ _ => "*ast.IntegerLiteral"
  | .real _ _ => "*ast.RealLiteral"
  | .boolean _ _ => "*ast.Boolean"
  | .signed _ _ => "*ast.PrefixExpression"
  | .binary _ _ _ => "*ast.InfixExpression"

/-- The label of a statement list. -/
def compoundLabel : String := "*ast.Compound"

/-- The label of the empty statement. -/
def skipLabel : String := "*ast.NoOp"

/-- The label of a statement. -/
def Stmt.label : Stmt → String
  | .skip => skipLabel
  | .compound _ _ => compoundLabel
  | .assign _ _ _ => "*ast.Assign"
  | .ifThen _ _ _ _ | .ifElse _ _ _ _ _ _ => "*ast.If"
  | .loop _ _ _ _ => "*ast.Loop"
  | .wait _ _ => "*ast.Wait"
  | .move _ .linear _ _ => "*ast.Moveto"
  | .move _ .rotary _ _ => "*ast.Rotate"
  | .home _ => "*ast.Home"
  | .stop _ => "*ast.Stop"

/-- A node of a tree. -/
inductive Node where
  | program (p : Program)
  | block (b : Block)
  | statement (s : Stmt)
  | expression (e : Expr)
  /-- A declaration of a variable, by itself. -/
  | varDecl
  /-- A declaration of a pin, by itself. -/
  | pinDecl
  /-- A declaration of a waypoint, by itself. -/
  | waypointDecl
  /-- No node at all. -/
  | absent

/-- The label of a node. -/
def Node.label : Node → String
  | .program _ => "*ast.Program"
  | .block _ => "*ast.Block"
  | .statement s => s.label
  | .expression e => e.label
  | .varDecl => "*ast.VarDecl"
  | .pinDecl => "*ast.IODecl"
  | .waypointDecl => "*ast.WaypointDecl"
  | .absent => "<nil>"

end Fixture
