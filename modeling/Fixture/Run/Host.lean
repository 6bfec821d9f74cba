import Fixture.Evaluate
import Fixture.Tables
/-!
# Hosts

A run talks to its surroundings in three ways, and a `Host` is what answers. It
asks the host for leave before every statement of a list and before every pass
of a loop; it has the host perform the motion calls of the program; and it tells
the host what it is doing, for a log. The host keeps a state of its own between
these occasions. It sees the tables whenever it is asked, and cannot change
them: so two hosts can be compared at each moment of a run, and everything that
a run does to its tables is in the program.
-/

namespace Fixture

/-- What a program can have its machine do. -/
inductive Call where
  | home
  | stop
  | wait (seconds : Float)
  | move (axis : Axis) (motion : Motion)

/-- What a run tells its host. -/
inductive Note where
  /-- The run of a program of that name begins. -/
  | interpreting (program : String)
  /-- A node with that label is visited. -/
  | visiting (label : String)
  /-- An expression is evaluated over these values. -/
  | evaluating (e : Expr) (values : Table Value)
  /-- The operands of a move are worked out over these values. -/
  | moving (distance : Expr) (speed : Option Expr) (values : Table Value)
  /-- A loop got no leave for that pass. -/
  | interrupted (pass : Nat)

/-- The surroundings of a run, with a state `σ` and errors `ε` of their own. -/
structure Host (σ ε : Type) where
  /-- Gives leave to go on, or not. -/
  check : Tables → σ → Bool × σ
  /-- Performs a call; an error ends the run. -/
  perform : Call → Tables → σ → Option ε × σ
  /-- Takes notice. -/
  note : Note → σ → σ

end Fixture
