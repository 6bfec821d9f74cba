/-!
# Source positions

A position is a line and a column, both counted from one. Columns count bytes,
and only the newline byte starts a new line. `Pos.after` walks a position over a
stretch of source, so the position of any offset `p` of a text is
`Pos.start.after (text.take p)`: one function decides every position that a
diagnostic carries.
-/

namespace Fixture

/-- A place in a source text, for diagnostics only. -/
structure Pos where
  line : Nat
  column : Nat
deriving DecidableEq, Inhabited

namespace Pos

/-- Where every source begins. -/
def start : Pos := ⟨1, 1⟩

/-- The byte that ends a line. -/
def newline : UInt8 := 10

/-- The position behind one byte. -/
def next (p : Pos) (b : UInt8) : Pos :=
  if b = newline then ⟨p.line + 1, 1⟩ else ⟨p.line, p.column + 1⟩

/-- The position behind a stretch of bytes. -/
def after (p : Pos) (bs : List UInt8) : Pos := bs.foldl next p

@[simp] theorem after_nil (p : Pos) : p.after [] = p := rfl

@[simp] theorem after_cons (p : Pos) (b : UInt8) (bs : List UInt8) :
    p.after (b :: bs) = (p.next b).after bs := rfl

theorem after_append (p : Pos) (xs ys : List UInt8) :
    p.after (xs ++ ys) = (p.after xs).after ys := List.foldl_append

end Pos

end Fixture
