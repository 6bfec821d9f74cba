import Fixture.Tree
import Fixture.Text.Join
/-!
# Trees as source text

A tree printed as a program again. Every operation stands in parentheses, so no
precedence has to be known to read it back; empty statements are left out, and
the statements of an inner list are written in a row.
-/

namespace Fixture

/-- An expression as source text. Literals are shown as they were written. -/
def Expr.render : Expr → String
  | .name t | .integer t _ | .real t _ | .boolean t _ => t.literal
  | .signed op e => "(" ++ op.literal ++ e.render ++ ")"
  | .binary op l r =>
    "(" ++ l.render ++ " " ++ op.literal ++ " " ++ r.render ++ ")"

/-- The keyword of a move. -/
def Axis.keyword : Axis → String
  | .linear => "MOVETO"
  | .rotary => "ROTATE"

/-- Whether a statement is the empty one, which printing leaves out. -/
def Stmt.isSkip : Stmt → Bool
  | .skip => true
  | _ => false

mutual

/-- A statement as source text. -/
def Stmt.render : Stmt → String
  | .skip => ""
  | .compound _ body => Text.joined "; " (renderEach body)
  | .assign _ target value => target.literal ++ " := " ++ value.render
  | .ifThen _ c _ body =>
    "IF " ++ c.render ++ ": " ++ Text.joined "; " (renderEach body) ++ "; ENDIF"
  | .ifElse _ c _ body _ alt =>
    "IF " ++ c.render ++ ": " ++ Text.joined "; " (renderEach body) ++
      "; ELSE: " ++ Text.joined "; " (renderEach alt) ++ "; ENDIF"
  | .loop _ _ body c =>
    "LOOP: " ++ Text.joined "; " (renderEach body) ++ "; UNTIL " ++ c.render
  | .wait _ d => "WAIT " ++ d.render
  | .move _ axis d none => axis.keyword ++ " " ++ d.render
  | .move _ axis d (some s) =>
    axis.keyword ++ " " ++ d.render ++ ", " ++ s.render
  | .home _ => "HOME"
  | .stop _ => "STOP"

/-- The statements of a list as source text, one by one, the empty ones left
out. -/
def renderEach : List Stmt → List String
  | [] => []
  | s :: ss => if s.isSkip then renderEach ss else s.render :: renderEach ss

end

/-- A variable declaration as source text. -/
def VarDecl.render (d : VarDecl) : String := d.name ++ " : " ++ d.type.name

/-- A pin declaration as source text. -/
def PinDecl.render (d : PinDecl) : String :=
  d.name ++ " : " ++ d.direction.name ++ " " ++ toString d.pin.toInt

/-- A waypoint declaration as source text. -/
def WaypointDecl.render (d : WaypointDecl) : String :=
  d.name ++ " := " ++ d.distance.render ++ ", " ++ d.speed.render

/-- A line of a section or of the body. -/
def renderLine (text : String) : String := "    " ++ text ++ ";\n"

/-- A section: its keyword and a line for each declaration. A section without
declarations is left out. -/
def renderSection (keyword : String) (decls : List String) : String :=
  if decls.isEmpty then ""
  else keyword ++ "\n" ++ String.join (decls.map renderLine)

/-- A block as source text. -/
def Block.render (b : Block) : String :=
  renderSection "VAR" (b.vars.map VarDecl.render) ++
    renderSection "IO" (b.pins.map PinDecl.render) ++
    renderSection "WAYPOINT" (b.waypoints.map WaypointDecl.render) ++
    "BEGIN\n" ++ String.join ((renderEach b.body).map renderLine) ++ "END"

/-- A program as source text. -/
def Program.render (p : Program) : String :=
  "PROGRAM " ++ p.name ++ ";\n" ++ p.block.render ++ "."

end Fixture
