import Fixture.Fault
import Fixture.Table
/-!
# The tables of a run

A run keeps three tables: the declared types of variables, the current values of
names, and the pins. Declarations fill them in the order variables, pins,
waypoints before the first statement runs. The three sections share one
namespace: the first declaration of a name that an earlier one of the block has
taken ends the run, and the tables keep what came before it.
-/

namespace Fixture

/-- A declared pin of the controller. -/
structure Pin where
  direction : Kind
  number : Int64
deriving DecidableEq

/-- The state of a program: what its names are declared as and bound to. -/
structure Tables where
  types : Table Kind
  values : Table Value
  pins : Table Pin

/-- The tables before anything is declared. -/
def Tables.empty : Tables := ⟨.empty, .empty, .empty⟩

/-- A declaration of any section. -/
inductive Declaration where
  | variable (d : VarDecl)
  | pin (d : PinDecl)
  | waypoint (d : WaypointDecl)

namespace Declaration

/-- The token of the declared name. -/
def tok : Declaration → Token
  | .variable d => d.tok
  | .pin d => d.tok
  | .waypoint d => d.tok

/-- The declared name. -/
def name (d : Declaration) : String := d.tok.literal

/-- Enters a declaration into the tables. A waypoint is bound right away, a
variable only gets its type. -/
def enter (t : Tables) : Declaration → Tables
  | .variable d => { t with types := t.types.set d.name d.type }
  | .pin d => { t with pins := t.pins.set d.name ⟨d.direction, d.pin⟩ }
  | .waypoint d =>
    { t with values := t.values.set d.name (.waypoint d.distance d.speed) }

/-- Enters declarations one after the other, up to the first whose name is
already taken. -/
def enterAll (taken : List String) (t : Tables) :
    List Declaration → Tables × Option Fault
  | [] => (t, none)
  | d :: ds =>
    if d.name ∈ taken then (t, some ⟨.duplicate d.name, d.tok.pos⟩)
    else enterAll (d.name :: taken) (d.enter t) ds

end Declaration

/-- The declarations of a block in source order. -/
def Block.declarations (b : Block) : List Declaration :=
  b.vars.map .variable ++ b.pins.map .pin ++ b.waypoints.map .waypoint

end Fixture
