/-!
# Text in UTF-8

Bytes are read as the characters that they encode. A byte that belongs to no
character is read as the replacement character, and reading goes on with the
byte behind it.
-/

namespace Fixture.Text

/-- What a byte that belongs to no character is read as. -/
def replacement : Char := Char.ofNat 0xFFFD

/-- The character at the front of bytes. It takes up four of them at most. -/
def utf8Char? (bytes : List UInt8) : Option Char :=
  (bytes.take 4).toByteArray.utf8DecodeChar? 0

/--
The characters of bytes. The first bytes, as many as are `pending`, belong to
a character that was read before.
-/
def utf8Chars : (pending : Nat) → List UInt8 → List Char
  | _, [] => []
  | pending + 1, _ :: bytes => utf8Chars pending bytes
  | 0, b :: bytes =>
    match utf8Char? (b :: bytes) with
    | some c => c :: utf8Chars (c.utf8Size - 1) bytes
    | none => replacement :: utf8Chars 0 bytes

/-- Bytes as text. -/
def ofUtf8 (bytes : List UInt8) : String := String.ofList (utf8Chars 0 bytes)

end Fixture.Text
