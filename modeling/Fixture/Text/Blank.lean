/-!
# Blank characters and case

What counts as blank around a word of a settings file or a flag, and how such a
word is brought to lower case.
-/

namespace Fixture.Text

/-- The characters with the White_Space property of Unicode. -/
def isBlankChar (c : Char) : Bool :=
  let n := c.toNat
  (9 ≤ n && n ≤ 13) || n == 0x20 || n == 0x85 || n == 0xa0 || n == 0x1680 ||
  (0x2000 ≤ n && n ≤ 0x200a) || n == 0x2028 || n == 0x2029 || n == 0x202f ||
  n == 0x205f || n == 0x3000

/-- A text without the blanks at both ends. -/
def trimmed (s : String) : List Char :=
  ((s.toList.dropWhile isBlankChar).reverse.dropWhile isBlankChar).reverse

/-- The ASCII letter that a character is a capital form of, if there is one, and
the character itself otherwise. Beside the ASCII capitals these are the dotted
capital I and the kelvin sign. -/
def toAsciiLower (c : Char) : Char :=
  if c.toNat = 0x130 then 'i' else if c.toNat = 0x212a then 'k' else c.toLower

/-- A text without outer blanks, in lower case as far as ASCII letters go. -/
def keyword (s : String) : String :=
  String.ofList ((trimmed s).map toAsciiLower)

end Fixture.Text
