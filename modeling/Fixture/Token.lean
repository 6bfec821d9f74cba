import Fixture.Position
import Fixture.Token.Kind
/-!
# Tokens

A token is a kind, the text it was written with, and where it was written. Two
tokens are the `same` when kind and text agree: positions serve diagnostics
only, so that layout never decides what a source means.
-/

namespace Fixture

/-- A token of a source text. The end of the source is a token with an empty
literal. -/
structure Token where
  kind : Kind
  literal : String
  pos : Pos
deriving DecidableEq, Inhabited

namespace Token

/-- Two tokens are the same when they differ in position at most. -/
def same (s t : Token) : Bool := s.kind == t.kind && s.literal == t.literal

theorem same_iff {s t : Token} :
    s.same t = true ↔ s.kind = t.kind ∧ s.literal = t.literal := by
  simp [same]

/-- A token as a listing shows it. -/
def display (t : Token) : String :=
  "Token(" ++ t.kind.name ++ ", '" ++ t.literal ++ "')"

end Token

end Fixture
