import Fixture.Toml.Document
/-!
# How far a text can be read

A text that is no document is at fault somewhere, and the line to blame is the
one that reading got to. This module finds it. The form of a document is set
down as a rule made of smaller ones: a choice settles on the first alternative
that fits, and a repetition takes as much as it can get. Some rules are
pieces, such as a key, a digit or a stretch of blanks. Wherever a rule is
tried, also in an alternative that is given up later, the ends of its pieces
are noted, and reading got to the furthest of them.
-/

namespace Fixture.Toml.Grammar

open Document (isGapChar isLineEnd hexDigit? escape? apostrophe)

/-- What a stretch of text has to look like. -/
inductive Rule where
  /-- Nothing. -/
  | nothing
  /-- One character of a class. -/
  | one (fits : Char → Bool)
  /-- One rule and then another. -/
  | both (first second : Rule)
  /-- One rule or, if that does not fit, another. -/
  | either (first second : Rule)
  /-- A rule as many times as it fits. -/
  | many (r : Rule)
  /-- Nothing, where a rule does not fit. -/
  | without (r : Rule)
  /-- A rule whose end is noted. -/
  | piece (r : Rule)
  /-- A value, which other values may be part of. -/
  | value

namespace Rule

/-- Rules one after the other. -/
def row (rs : List Rule) : Rule := rs.foldr both nothing

/-- The first rule that fits. -/
def firstOf : List Rule → Rule
  | [] => without nothing
  | [r] => r
  | r :: rs => either r (firstOf rs)

/-- A rule, if it fits. -/
def maybe (r : Rule) : Rule := either r nothing

/-- A rule once or more. -/
def several (r : Rule) : Rule := both r (many r)

/-- A character. -/
def just (c : Char) : Rule := one fun d => d = c

/-- A character three times. -/
def thrice (c : Char) : Rule := row [just c, just c, just c]

/-- A word. -/
def word (s : String) : Rule := row (s.toList.map just)

/-! ## Following a rule -/

/-- A place in a text: how many characters are before it, and those behind
it. -/
structure Spot where
  passed : Nat
  rest : List Char

/-- Follows a rule from a place. The outcome is the place behind it if it fits,
and the furthest end of a piece, which is `far` at first. Empty pieces do not
count. `whole` is the rule for values; `fuel` bounds how deep rules nest. -/
def follow (whole : Rule) :
    (fuel : Nat) → Rule → Spot → (far : Nat) → Option Spot × Nat
  | 0, _, _, far => (none, far)
  | _ + 1, nothing, p, far => (p, far)
  | _ + 1, one fits, p, far =>
    match p.rest with
    | [] => (none, far)
    | c :: cs => if fits c then (some ⟨p.passed + 1, cs⟩, far) else (none, far)
  | fuel + 1, both first second, p, far =>
    match follow whole fuel first p far with
    | (none, far) => (none, far)
    | (some p, far) => follow whole fuel second p far
  | fuel + 1, either first second, p, far =>
    match follow whole fuel first p far with
    | (none, far) => follow whole fuel second p far
    | (some p, far) => (p, far)
  | fuel + 1, many r, p, far =>
    match follow whole fuel r p far with
    | (none, far) => (p, far)
    | (some q, far) =>
      if q.passed = p.passed then (p, far) else follow whole fuel (many r) q far
  | fuel + 1, without r, p, far =>
    match follow whole fuel r p far with
    | (none, far) => (p, far)
    | (some _, far) => (none, far)
  | fuel + 1, piece r, p, far =>
    match follow whole fuel r p far with
    | (none, far) => (none, far)
    | (some q, far) =>
      (q, if q.passed = p.passed then far else max far q.passed)
  | fuel + 1, value, p, far => follow whole fuel whole p far

end Rule

open Rule

/-! ## Gaps -/

/-- Blanks within a line. -/
def blanks : Rule := piece (many (one isGapChar))

/-- Blanks and line ends. -/
def gap : Rule := piece (many (either (one isGapChar) (piece (one isLineEnd))))

/-- Line ends. -/
def lineEnds : Rule := piece (several (one isLineEnd))

/-- A comment, up to the end of its line. -/
def comment : Rule :=
  piece (both (just '#') (many (one fun c => c = '\t' || ' ' ≤ c)))

/-! ## Numbers and dates -/

/-- A digit. -/
def digit : Rule := piece (one Char.isDigit)

/-- A digit behind others, perhaps after an underscore. -/
def nextDigit : Rule := either digit (both (just '_') digit)

/-- A sign of a number. -/
def plusMinus : Rule := either (just '-') (just '+')

/-- A whole number. -/
def integer : Rule :=
  piece (both (maybe plusMinus) (piece (either
    (both (one fun c => '1' ≤ c && c ≤ '9') (several nextDigit)) digit)))

/-- The fraction of a number. -/
def fraction : Rule := piece (row [just '.', digit, many nextDigit])

/-- The exponent of a number. -/
def exponent : Rule :=
  piece
    (row [either (just 'e') (just 'E'), maybe plusMinus, digit, many nextDigit])

/-- A number with a fraction, an exponent, or both. -/
def float : Rule :=
  piece (both integer
    (either (both fraction (maybe exponent)) (both (maybe fraction) exponent)))

/-- Two digits. -/
def twoDigits : Rule := piece (both digit digit)

/-- A time of day. -/
def timeOfDay : Rule :=
  piece (row [twoDigits, just ':', twoDigits, just ':', twoDigits,
    maybe (piece (both (just '.') (several digit)))])

/-- How far a time is from the universal one. -/
def timeOffset : Rule :=
  piece (either (just 'Z')
    (piece (row [plusMinus, twoDigits, just ':', twoDigits])))

/-- A day. -/
def day : Rule :=
  piece (row [piece (both twoDigits twoDigits), just '-', twoDigits, just '-',
    twoDigits])

/-- A day, a moment, or a time of day. -/
def date : Rule :=
  piece (either
    (both day (maybe (both (just 'T') (piece (both timeOfDay timeOffset)))))
    timeOfDay)

/-! ## Texts -/

/-- A hexadecimal digit. -/
def hexDigit : Rule := piece (one fun c => (hexDigit? c).isSome)

/-- Four hexadecimal digits. -/
def fourHexDigits : Rule := piece (row [hexDigit, hexDigit, hexDigit, hexDigit])

/-- The backslash of an escape. -/
def backslash : Rule := piece (just '\\')

/-- A character within quotes, or an escape. -/
def quotedChar : Rule :=
  piece (either (piece (one fun c => ' ' ≤ c && c ≠ '"' && c ≠ '\\'))
    (piece (both backslash
      (firstOf [one fun c => (escape? c).isSome, both (just 'u') fourHexDigits,
        row [just 'U', fourHexDigits, fourHexDigits]]))))

/-- A text in quotes. -/
def quotedText : Rule := piece (row [just '"', many quotedChar, just '"'])

/-- A text in triple quotes, which may go over several lines. -/
def longQuotedText : Rule :=
  piece (row [thrice '"',
    piece (many (firstOf
      [piece (either quotedChar lineEnds), row [backslash, lineEnds, gap]])),
    thrice '"'])

/-- A character that a text without escapes may hold. -/
def literalChar : Rule :=
  piece (one fun c => c = '\t' || (' ' ≤ c && c ≠ apostrophe))

/-- A text without escapes. -/
def literalText : Rule :=
  piece (row [just apostrophe, many literalChar, just apostrophe])

/-- A text without escapes in triple quotes, which may go over several lines. -/
def longLiteralText : Rule :=
  piece (row [thrice apostrophe,
    piece (many (both (without (thrice apostrophe))
      (either (piece (one fun c => c = '\t' || ' ' ≤ c)) lineEnds))),
    thrice apostrophe])

/-- A text in any kind of quotes. -/
def text : Rule :=
  piece (firstOf [longLiteralText, literalText, longQuotedText, quotedText])

/-! ## Values, pairs and headers -/

/-- A key. -/
def key : Rule := piece (either (piece (several (one isKeyChar))) quotedText)

/-- A pair. -/
def pair : Rule := piece (row [key, blanks, just '=', blanks, value])

/-- What stands between the values of a list. -/
def separator : Rule := piece (both blanks (just ','))

/-- The values of a list. -/
def listValues : Rule :=
  piece (row [value,
    many (row
      [gap, maybe comment, gap, separator, gap, maybe comment, gap, value]),
    gap, maybe separator, gap, maybe comment])

/-- A list. -/
def list : Rule := piece (row [just '[', gap, maybe listValues, gap, just ']'])

/-- A table within a line. -/
def table : Rule :=
  piece (row [just '\x7b', blanks,
    piece (many (both pair (maybe (piece (row [blanks, just ',', blanks]))))),
    blanks, just '\x7d'])

/-- A value of any kind. -/
def anyValue : Rule :=
  piece (firstOf [date, float, integer, text,
    piece (either (word "true") (word "false")), list, table])

/-- The name in a header: keys with points between them. -/
def name : Rule :=
  piece (both key (many (both (piece (row [blanks, just '.', blanks])) key)))

/-- A header, in single or double brackets. -/
def header : Rule :=
  piece (either (piece (row [just '[', blanks, name, blanks, just ']']))
    (piece
      (row [just '[', just '[', blanks, name, blanks, just ']', just ']'])))

/-! ## Documents -/

/-- A header with its pairs, a single pair, or neither, and comments behind
them. -/
def entry : Rule :=
  piece (firstOf [row [blanks, header, blanks, maybe comment,
    many (row [gap, pair, blanks, maybe comment])],
    row [blanks, pair, blanks, maybe comment], row [blanks, maybe comment]])

/-- A document. -/
def document : Rule :=
  row [entry, many (both lineEnds entry), maybe lineEnds,
    without (one fun _ => true)]

/-- How many characters of a text reading gets past. -/
def reach (cs : List Char) : Nat :=
  (follow anyValue (64 * (cs.length + 4)) document ⟨0, cs⟩ 0).2

/--
The line that reading a text gets to. A line end belongs to the line that it
begins.
-/
def faultLine (cs : List Char) : Nat :=
  1 + (cs.take (reach cs + 1)).count '\n'

end Fixture.Toml.Grammar
