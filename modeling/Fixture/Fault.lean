import Fixture.Value
/-!
# Faults

What can go wrong in a running program by the program's own doing. A fault is a
cause and a place; the kind, the offending name and the wording all follow from
the cause.
-/

namespace Fixture

/-- The kinds of faults. -/
inductive FaultKind where
  /-- An assignment to a name that no section declares as a variable. -/
  | undeclaredVariable
  /-- A name that is read before it has a value. -/
  | unassignedVariable
  /-- A declared type that the language does not have. -/
  | illegalType
  | typeMismatch
  | divisionByZero
  /-- A name that is declared twice, in one section or in two. -/
  | duplicateDeclaration
deriving DecidableEq

/-- The name of a kind of faults. -/
def FaultKind.name : FaultKind → String
  | undeclaredVariable => "undeclared variable"
  | unassignedVariable => "unassigned variable"
  | illegalType => "illegal type"
  | typeMismatch => "type mismatch"
  | divisionByZero => "division by zero"
  | duplicateDeclaration => "duplicate declaration"

/-- The kinds in the order of their numbers. -/
def FaultKind.all : List FaultKind :=
  [undeclaredVariable, unassignedVariable, illegalType, typeMismatch,
    divisionByZero, duplicateDeclaration]

/-- The name of the kind with a given number. A number behind the last kind is
named by itself; there is none before the first. -/
def FaultKind.nameOfCode (code : Int) : Except String String :=
  if code <
    0 then .error
      ("runtime error: index out of range [" ++ toString code ++ "]")
  else .ok (match FaultKind.all[code.toNat]? with
    | some k => k.name
    | none => "ErrorKind(" ++ toString code ++ ")")

/-- The causes of faults. -/
inductive Cause where
  | undeclared (name : String)
  | unassigned (name : String)
  | illegalType (target : String) (declared : Kind)
  /-- A waypoint is assigned to a variable. -/
  | waypointAssigned (target : String) (declared : Kind)
  | conditionNotBoolean (condition : Expr) (found : ValueKind)
  | notANumber (operand : Expr) (found : ValueKind)
  /-- A sign stands before a waypoint. -/
  | signMismatch (op : String) (found : ValueKind)
  /-- An operator has a waypoint as an operand. -/
  | operandMismatch (left : ValueKind) (op : String) (right : ValueKind)
  | divisionByZero (quotient : Expr)
  | duplicate (name : String)

namespace Cause

/-- The kind of fault a cause makes. -/
def kind : Cause → FaultKind
  | undeclared _ => .undeclaredVariable
  | unassigned _ => .unassignedVariable
  | illegalType _ _ => .illegalType
  | waypointAssigned _ _ | conditionNotBoolean _ _ | notANumber _ _ |
      signMismatch _ _
  | operandMismatch _ _ _ => .typeMismatch
  | divisionByZero _ => .divisionByZero
  | duplicate _ => .duplicateDeclaration

/-- The offending name, empty if the cause is not about a name. -/
def name : Cause → String
  | undeclared n | unassigned n | illegalType n _ | waypointAssigned n _ |
      duplicate n => n
  | _ => ""

/-- The wording of a cause. -/
def text : Cause → String
  | undeclared n => "variable " ++ n ++ " not declared"
  | unassigned n => n ++ " is defined but has not been assigned a value"
  | illegalType _ declared => "illegal type " ++ declared.name
  | waypointAssigned _ declared => "cannot assign waypoint to " ++ declared.name
  | conditionNotBoolean c found =>
    "condition " ++ c.render ++ " is " ++ found.name ++ ", not BOOLEAN"
  | notANumber e found => e.render ++ " is " ++ found.name ++ ", not a number"
  | signMismatch op found => "unknown operator: " ++ op ++ found.name
  | operandMismatch l op r =>
    "unsupported operands: " ++ l.name ++ " " ++ op ++ " " ++ r.name
  | divisionByZero e => "division by zero in " ++ e.render
  | duplicate n => n ++ " is already declared"

end Cause

/-- A fault: its cause, and the place of the token that it is reported at. -/
structure Fault where
  cause : Cause
  pos : Pos

namespace Fault

/-- The wording of a fault. A place without a line is left out. -/
def describe (kind text : String) (line column : Int) : String :=
  let body := kind ++ ": " ++ text
  if 0 < line then toString line ++ ":" ++ toString column ++ ": " ++ body
  else body

/-- The text of a fault. -/
def message (f : Fault) : String :=
  describe f.cause.kind.name f.cause.text f.pos.line f.pos.column

end Fault

end Fixture
