import Fixture.Tree.Render
import Fixture.Decimal.Layout
/-!
# Values

What the names of a running program are bound to: whole numbers of 64 bits,
doubles, truth values, and waypoints. A waypoint keeps its two operands as they
were declared; they are evaluated anew each time a move uses them.
-/

namespace Fixture

/-- The kinds of values. -/
inductive ValueKind where
  | integer
  | real
  | boolean
  | waypoint
deriving DecidableEq

/-- The name of a kind of values. -/
def ValueKind.name : ValueKind → String
  | integer => "INTEGER"
  | real => "REAL"
  | boolean => "BOOLEAN"
  | waypoint => "WAYPOINT"

/-- A value. -/
inductive Value where
  | integer (n : Int64)
  | real (x : Float)
  | boolean (b : Bool)
  | waypoint (distance speed : Expr)

namespace Value

/-- The kind of a value. -/
def kind : Value → ValueKind
  | integer _ => .integer
  | real _ => .real
  | boolean _ => .boolean
  | waypoint _ _ => .waypoint

/-- A double as a listing shows it: with a fraction, if only a zero, so that it
never looks like an integer. -/
def inspectReal (x : Float) : String :=
  let s := Decimal.Layout.coordinate.text x
  if s.toList.any fun c => c = '.' || c = 'N' || c = 'I' then s else s ++ ".0"

/-- A value as a listing shows it. -/
def inspect : Value → String
  | integer n => toString n.toInt
  | real x => inspectReal x
  | boolean true => "TRUE"
  | boolean false => "FALSE"
  | waypoint d s => "(" ++ d.render ++ ", " ++ s.render ++ ")"

/-- A truth value as a number. -/
def ofTruth (b : Bool) : Int64 := if b then 1 else 0

/-- A value as a whole number; truth values count, reals do not. -/
def toInteger? : Value → Option Int64
  | integer n => some n
  | boolean b => some (ofTruth b)
  | _ => none

/-- A value as a double. A waypoint is no number. -/
def toFloat? : Value → Option Float
  | integer n => some (Decimal.ofInt64 n)
  | real x => some x
  | boolean b => some (if b then 1 else 0)
  | waypoint _ _ => none

end Value

end Fixture
