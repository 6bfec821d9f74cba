import Fixture.Journal.Notes
/-!
# Machines

A machine performs the motion calls of a program. It has a state, may fail, and
may leave entries for the journal. Together with a limit on the checks of a run,
a machine makes a host: leave is given for so many checks, calls go to the
machine, and what is noted goes to the journal.
-/

namespace Fixture

/-- What a machine answers to a call. -/
structure Reply (μ ε : Type) where
  failure : Option ε
  entries : List Entry
  state : μ

/-- A machine with states `μ` and errors `ε`. -/
structure Machine (μ ε : Type) where
  act : Call → μ → Reply μ ε

/-- A machine at work: its state, how many checks the run has made, and the
journal. -/
structure Rig (μ : Type) where
  machine : μ
  checks : Nat
  journal : Journal

/-- Starts counting checks anew. -/
def Rig.rearm {μ : Type} (r : Rig μ) : Rig μ := { r with checks := 0 }

namespace Machine

variable {μ ε : Type}

/-- Whether leave is given for one more check: always, or for the first `n`
only. -/
def allows (limit : Option Nat) (checks : Nat) : Bool :=
  match limit with
  | none => true
  | some n => checks < n

/-- The host that a machine makes. -/
def host (m : Machine μ ε) (limit : Option Nat) : Host (Rig μ) ε where
  check _ r := (allows limit r.checks, { r with checks := r.checks + 1 })
  perform c _ r :=
    let reply := m.act c r.machine
    (reply.failure, { r with
      machine := reply.state
      journal := r.journal.addAll reply.entries })
  note n r := { r with journal := r.journal.record n }

end Machine

/-! ## A recording machine -/

/-- A machine that only remembers its calls, the newest one first. `fails` says
which calls fail, counted from one; those are not remembered. -/
structure Recorder where
  fails : Nat → Bool
  attempts : Nat
  newest : List Call

namespace Recorder

/-- A recorder before its first call. -/
def fresh (fails : Nat → Bool) : Recorder := ⟨fails, 0, []⟩

/-- The calls in order. -/
def calls (r : Recorder) : List Call := r.newest.reverse

/-- The machine that records calls and fails with the given error. -/
def machine {ε : Type} (error : ε) : Machine Recorder ε where
  act c r :=
    let n := r.attempts + 1
    if r.fails n then ⟨some error, [], { r with attempts := n }⟩
    else ⟨none, [], { r with attempts := n, newest := c :: r.newest }⟩

end Recorder

end Fixture
