import Fixture.Journal
import Fixture.Run.Host
import Fixture.Run.Node
/-!
# Notes of a run on record

What a run tells its host, put into journal entries. Visits and operands are for
close inspection only, so they are worked out only where the journal keeps them.
-/

namespace Fixture

/-- Whether an evaluation gave a value. -/
def hasValue {α : Type} : Except EvalError α → Bool
  | .ok _ => true
  | .error _ => false

/-- The labels of the nodes that evaluation visits, in order, up to the node
that is at fault. -/
def Expr.visited (values : Table Value) : Expr → List String
  | .signed op e => (Expr.signed op e).label :: e.visited values
  | .binary op l r =>
    (Expr.binary op l r).label :: r.visited values ++
      (if hasValue (r.eval values) then l.visited values else [])
  | e => [e.label]

namespace Note

/-- An entry of the interpreter. -/
def entry (level : Level) (message : String)
    (attributes : List (String × Attribute)) : Entry :=
  ⟨level, message, ("module", .text "evaluator") :: attributes⟩

/-- The entry for a visit. -/
def visitEntry (label : String) : Entry :=
  entry .debug "Visit" [("node", .text label)]

/-- The entries for the operands of a move. -/
def motionEntries (distance : Expr) (speed : Option Expr)
    (values : Table Value) : List Entry :=
  match Motion.resolve values distance speed with
  | .error _ => []
  | .ok (d, s, _) =>
    let speedVisits := match s with
      | some e =>
        if hasValue (d.evalNumber values) then e.visited values else []
      | none => []
    let summary := match Motion.eval values distance speed with
      | .ok m =>
        [entry .debug "Motion operands" [("distance", .number m.distance),
          ("speed", .number m.speed), ("relative", .truth m.relative)]]
      | .error _ => []
    (d.visited values ++ speedVisits).map visitEntry ++ summary

/-- The level of the entries for a note. -/
def level : Note → Level
  | .interrupted _ => .warn
  | _ => .debug

/-- The entries for a note. -/
def entries : Note → List Entry
  | .interpreting p => [entry .debug "Interpreting program" [("name", .text p)]]
  | .visiting label => [visitEntry label]
  | .evaluating e values => (e.visited values).map visitEntry
  | .moving d s values => motionEntries d s values
  | .interrupted pass =>
    [entry .warn "Loop interrupted"
      [("iteration", .whole pass), ("err", .text "context canceled")]]

end Note

/-- Puts a note on record. -/
def Journal.record (j : Journal) (n : Note) : Journal :=
  if j.keeps n.level then j.addAll n.entries else j

end Fixture
