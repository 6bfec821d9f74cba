import Fixture.Token.Kind
/-!
# Lexemes

How the bytes of a source fall into words, numbers, operators and the gaps
between them. Everything here works on byte lists and knows nothing of
positions: `Lexeme.split` cuts the longest lexeme off the front, and `Gap.skip`
drops blanks and comments.

A source is any list of bytes. Every lexeme is ASCII, so `textOf` may read its
bytes as characters one by one.
-/

namespace Fixture

/-- Bytes read as the first 256 characters, one by one. -/
def textOf (bs : List UInt8) : String :=
  String.ofList (bs.map fun b => Char.ofNat b.toNat)

/-- The bytes of a text in UTF-8, which is the form a source is read in. -/
def bytesOf (s : String) : List UInt8 := s.toUTF8.toList

/-! ## Classes of bytes -/

/-- Letters of the language: ASCII letters and the underscore. -/
def isLetter (b : UInt8) : Bool :=
  (97 ≤ b && b ≤ 122) || (65 ≤ b && b ≤ 90) || b == 95

/-- Decimal digits. -/
def isDigit (b : UInt8) : Bool := 48 ≤ b && b ≤ 57

/-- Bytes that continue a word. -/
def isWordByte (b : UInt8) : Bool := isLetter b || isDigit b

/-- Space, tab, newline and carriage return. -/
def isBlank (b : UInt8) : Bool := b == 32 || b == 9 || b == 10 || b == 13

/-! ## Gaps -/

/-- The byte that opens a comment. -/
def commentOpen : UInt8 := 123

/-- The byte that closes a comment. -/
def commentClose : UInt8 := 125

/-- What a gap leaves behind: the bytes it covers, the bytes after it, and
whether it broke off inside a comment that its line does not close. -/
structure Gap where
  skipped : List UInt8
  rest : List UInt8
  unclosed : Bool
deriving DecidableEq

namespace Gap

/-- Takes one more byte into the gap. -/
def push (b : UInt8) (g : Gap) : Gap := { g with skipped := b :: g.skipped }

/-- Skips blanks and comments. A comment runs to its closing brace and has to
find it on the line that it opens on; where it does not, the gap ends on the
newline, or at the end of the source. `inside` says whether the bytes begin
within a comment. -/
def skip (inside : Bool) : List UInt8 → Gap
  | [] => ⟨[], [], inside⟩
  | b :: bs =>
    if inside then
      if b = commentClose then (skip false bs).push b
      else if b = 10 then ⟨[], b :: bs, true⟩
      else (skip true bs).push b
    else if isBlank b then (skip false bs).push b
    else if b = commentOpen then (skip true bs).push b
    else ⟨[], b :: bs, false⟩

/-- Nothing is lost: a gap and what follows it make up the bytes. -/
theorem skipped_append_rest (inside : Bool) (bs : List UInt8) :
    (skip inside bs).skipped ++ (skip inside bs).rest = bs := by
  fun_induction skip inside bs <;> simp_all [push]

end Gap

/-! ## Lexemes -/

/-- A lexeme cut off the front of the bytes: its kind, its own bytes and those
behind it. -/
structure Lexeme where
  kind : Kind
  bytes : List UInt8
  rest : List UInt8
deriving DecidableEq

namespace Lexeme

/-- A word: a letter and all word bytes behind it. -/
def word (bs : List UInt8) : Lexeme :=
  let w := bs.takeWhile isWordByte
  ⟨Kind.ofWord (textOf w), w, bs.dropWhile isWordByte⟩

/-- A number: digits, with a fraction if a point and a digit follow. A point
alone is left, so that a number may end a program. -/
def number (bs : List UInt8) : Lexeme :=
  let whole := bs.takeWhile isDigit
  match bs.dropWhile isDigit with
  | 46 :: d :: bs' =>
    if isDigit d then
      ⟨.realConst, whole ++ 46 :: (d :: bs').takeWhile isDigit,
        (d :: bs').dropWhile isDigit⟩
    else ⟨.integerConst, whole, 46 :: d :: bs'⟩
  | bs' => ⟨.integerConst, whole, bs'⟩

/-- An operator or delimiter of one byte. -/
def single (b : UInt8) (bs : List UInt8) : Option Lexeme :=
  (Kind.ofSpelling? (textOf [b])).map fun k => ⟨k, [b], bs⟩

/-- An operator or delimiter; a spelling of two bytes goes before one of its
first byte alone. -/
def operator (b : UInt8) : List UInt8 → Option Lexeme
  | [] => single b []
  | c :: bs =>
    match Kind.ofSpelling? (textOf [b, c]) with
    | some k => some ⟨k, [b, c], bs⟩
    | none => single b (c :: bs)

/-- The longest lexeme at the front of the bytes, if one starts there. -/
def split : List UInt8 → Option Lexeme
  | [] => none
  | b :: bs =>
    if isLetter b then some (word (b :: bs))
    else if isDigit b then some (number (b :: bs))
    else operator b bs

end Lexeme

end Fixture
