import Fixture.Token
import Fixture.Lexeme
import Fixture.Text.Quoted
/-!
# Scanning a source

A `Cursor` stands somewhere in a source. `Cursor.next` reads the token there, or
says why there is none, and moves on; reading can go on after both. `scan` reads
to the end of the source or to the first error, whichever comes first.

A cursor never runs past the end: there it answers the end-of-source token for
ever. It does not move over an invalid character either, so that error repeats.
A comment left open is reported once, since the cursor then stands on the
newline behind it.
-/

namespace Fixture

/-! ## Errors -/

/-- What can be wrong with a character of a source. -/
inductive LexFault where
  /-- No token starts with this character. -/
  | invalidCharacter
  /-- A comment is still open where its line ends. -/
  | malformedComment
  /-- A fault the scanner does not know, by its number. -/
  | unlisted (code : Int)
deriving DecidableEq

/-- The name of a fault. -/
def LexFault.name : LexFault → String
  | invalidCharacter => "invalid character"
  | malformedComment => "malformed comment"
  | unlisted code => "ErrorKind(" ++ toString code ++ ")"

/-- The fault with a given number. -/
def LexFault.ofCode (code : Int) : LexFault :=
  if code = 1 then invalidCharacter
  else if code = 2 then malformedComment
  else unlisted code

/-- The wording of a fault at a place. The offending byte is shown as the
character of that number. -/
def LexFault.describe (fault : LexFault) (byte : UInt8) (line column : Int) :
    String :=
  let place := " at line " ++ toString line ++ " column " ++ toString column
  match fault with
  | malformedComment => "missing closing brace of comment" ++ place
  | _ =>
    "invalid character " ++ Text.quotedChar (Char.ofNat byte.toNat) ++ place

/-- An error of the scanner: what is wrong, the byte it is about (zero at the
end of the source) and where. -/
structure LexError where
  fault : LexFault
  byte : UInt8
  pos : Pos
deriving DecidableEq

/-- The text of a scanner error. -/
def LexError.message (e : LexError) : String :=
  e.fault.describe e.byte e.pos.line e.pos.column

/-! ## The cursor -/

/-- A place in a source, with the bytes from there on. -/
structure Cursor where
  rest : List UInt8
  pos : Pos
deriving DecidableEq

namespace Cursor

/-- The beginning of a source. -/
def ofSource (src : List UInt8) : Cursor := ⟨src, Pos.start⟩

/-- The byte under the cursor, zero at the end. -/
def byte (c : Cursor) : UInt8 := c.rest.headD 0

/-- The token or error at the cursor, and where the cursor stands after it. -/
def next (c : Cursor) : Except LexError Token × Cursor :=
  let gap := Gap.skip false c.rest
  let c' : Cursor := ⟨gap.rest, c.pos.after gap.skipped⟩
  if gap.unclosed then (.error ⟨.malformedComment, c'.byte, c'.pos⟩, c')
  else if gap.rest.isEmpty then (.ok ⟨.eof, "", c'.pos⟩, c')
  else
    match Lexeme.split gap.rest with
    | none => (.error ⟨.invalidCharacter, c'.byte, c'.pos⟩, c')
    | some lx =>
      (.ok ⟨lx.kind, textOf lx.bytes, c'.pos⟩, ⟨lx.rest, c'.pos.after lx.bytes⟩)

/-- The answers of `n` readings in a row, errors included. -/
def steps : Nat → Cursor → List (Except LexError Token)
  | 0, _ => []
  | n + 1, c => c.next.1 :: steps n c.next.2

end Cursor

/-! ## Whole sources -/

/-- The tokens of a source up to its end or its first error. Without an error
the last token, and only the last, is the end of the source. -/
structure Scan where
  tokens : List Token
  failure : Option LexError
deriving DecidableEq

namespace Scan

/-- Puts a token in front. -/
def push (t : Token) (s : Scan) : Scan := { s with tokens := t :: s.tokens }

/-- At most `budget` readings from a cursor on. -/
def upTo : Nat → Cursor → Scan
  | 0, _ => ⟨[], none⟩
  | budget + 1, c =>
    match c.next with
    | (.error e, _) => ⟨[], some e⟩
    | (.ok t, c') =>
      if t.kind = .eof then ⟨[t], none⟩ else (Scan.upTo budget c').push t

end Scan

/-- Reads a source. Every token but the last takes a byte at least, so one
reading for each byte and one for the end are enough. -/
def scan (src : List UInt8) : Scan :=
  Scan.upTo (src.length + 1) (Cursor.ofSource src)

end Fixture
