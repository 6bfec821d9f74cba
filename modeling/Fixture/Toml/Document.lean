import Fixture.Toml.Contents
/-!
# The text of documents

A document has tables with a name in brackets, and pairs of a key and a value.
A value is a number, a date, a text in quotes, a truth value, a list, or a
table within a line. Blanks and comments may stand around everything; before
the first table a pair ends its line, inside a table it need not.

`items` reads a text into its headers and pairs, with the lines that they
stand on. Nothing here knows which tables and keys there should be, or whether
one comes twice.
-/

namespace Fixture.Toml.Document

/-! ## What documents hold -/

/-- A simple value. Numbers keep their text, without underscores. -/
inductive Literal where
  | integer (digits : String)
  | float (digits : String)
  | date (written : String)
  | text (s : String)
  | truth (b : Bool)
deriving DecidableEq

/-- The kind of a value, as errors name it. -/
def Literal.kind : Literal → String
  | integer _ => "integer"
  | float _ => "float"
  | date _ => "datetime"
  | text _ => "string"
  | truth _ => "boolean"

mutual

/-- A value of any kind. -/
inductive Value where
  | literal (v : Literal)
  /-- A text with an escape that stands for no character. -/
  | unreadable (line : Nat)
  | list (vs : List Value)
  | table (line : Nat) (pairs : List Pair)

/--
A pair of a key and a value, with the lines that each of them ends on. A key
with an escape that stands for no character is `none`.
-/
inductive Pair where
  | mk (keyLine : Nat) (key : Option String) (line : Nat) (value : Value)

end

/-- A header: keys with points between them. -/
structure Header where
  line : Nat
  written : String
  keys : List (Option String)
  /-- Whether it begins one of several tables of its name. -/
  isArray : Bool

/-- What a document is made of. -/
inductive Item where
  | header (h : Header)
  | pair (p : Pair)

/-! ## Gaps -/

/-- Blanks within a line. -/
def isGapChar (c : Char) : Bool := c = ' ' || c = '\t'

/-- The characters that lines end with, each of which ends one. -/
def isLineEnd (c : Char) : Bool := c = '\n' || c = '\r'

/-- Drops blanks. -/
def dropBlanks (cs : List Char) : List Char := cs.dropWhile isGapChar

/-- Drops a comment. -/
def dropComment : List Char → List Char
  | '#' :: cs => cs.dropWhile fun c => c = '\t' || ' ' ≤ c
  | cs => cs

/-- Drops blanks and, after them, a comment. -/
def dropTail (cs : List Char) : List Char := dropComment (dropBlanks cs)

/-- Drops blanks and line ends, and counts the latter. -/
def dropGap (line : Nat) : List Char → Nat × List Char
  | [] => (line, [])
  | c :: cs =>
    if isGapChar c then dropGap line cs
    else if isLineEnd c then dropGap (line + 1) cs
    else (line, c :: cs)

/-- Drops line ends, and counts them. -/
def dropLineEnds (line : Nat) : List Char → Nat × List Char
  | [] => (line, [])
  | c :: cs =>
    if isLineEnd c then dropLineEnds (line + 1) cs else (line, c :: cs)

/-- Drops blanks, line ends and a comment between them. -/
def dropNotes (line : Nat) (cs : List Char) : Nat × List Char :=
  let (line, cs) := dropGap line cs
  dropGap line (dropComment cs)

/-! ## Texts -/

/-- The value of a hexadecimal digit. -/
def hexDigit? (c : Char) : Option Nat :=
  let n := c.toNat
  if 48 ≤ n && n ≤ 57 then some (n - 48)
  else if 97 ≤ n && n ≤ 102 then some (n - 87)
  else if 65 ≤ n && n ≤ 70 then some (n - 55)
  else none

/-- The character with a code, if there is one. -/
def charOfCode? (n : Nat) : Option Char :=
  if n.isValidChar then some (Char.ofNat n) else none

/--
What a letter behind a backslash stands for. A slash may be escaped, but that
stands for no character.
-/
def escape? (c : Char) : Option (Option Char) :=
  match c with
  | 'b' => some (some (Char.ofNat 8))
  | 't' => some (some '\t')
  | 'n' => some (some '\n')
  | 'f' => some (some (Char.ofNat 12))
  | 'r' => some (some '\r')
  | '"' => some (some '"')
  | '\\' => some (some '\\')
  | '/' => some none
  | _ => none

/-- Where a reader is within a text. -/
inductive TextState where
  | plain
  /-- Behind a backslash. -/
  | escape
  /-- In a character code, with the digits still to come after the next one
  and the value of those before it. -/
  | code (left value : Nat)

/--
A text read up to its closing quote, and what follows it. A text that stands
for no characters is `none`.
-/
abbrev ReadText := Option (List Char) × List Char

/-- Puts a character before a text. -/
def ReadText.push (c : Option Char) (r : ReadText) : ReadText :=
  match c, r with
  | some c, (some cs, rest) => (some (c :: cs), rest)
  | _, (_, rest) => (none, rest)

/-- Reads a text up to its closing quote. -/
def quotedText : TextState → List Char → Option ReadText
  | _, [] => none
  | .plain, c :: cs =>
    if c = '"' then some (some [], cs)
    else if c = '\\' then quotedText .escape cs
    else if ' ' ≤ c then
      (quotedText .plain cs).map (ReadText.push (some c))
    else none
  | .escape, c :: cs =>
    if c = 'u' then quotedText (.code 3 0) cs
    else if c = 'U' then quotedText (.code 7 0) cs
    else
      match escape? c with
      | some x => (quotedText .plain cs).map (ReadText.push x)
      | none => none
  | .code left value, c :: cs =>
    match hexDigit? c with
    | none => none
    | some d =>
      match left with
      | 0 =>
        (quotedText .plain cs).map
          (ReadText.push (charOfCode? (16 * value + d)))
      | left + 1 => quotedText (.code left (16 * value + d)) cs

/-- The quote of texts without escapes. -/
def apostrophe : Char := Char.ofNat 39

/-- The characters that a text without escapes may hold. -/
def isLiteralChar (c : Char) : Bool := c = '\t' || ' ' ≤ c

/-- Reads a text without escapes up to its closing quote. -/
def literalText : List Char → Option (List Char × List Char)
  | [] => none
  | c :: cs =>
    if c = apostrophe then some ([], cs)
    else if isLiteralChar c then
      (literalText cs).map fun (s, rest) => (c :: s, rest)
    else none

/-! ## Texts over several lines -/

/-- What a long text is read as: its characters, the line and the rest. -/
abbrev ReadLines := List Char × Nat × List Char

/-- Puts a character before a long text. -/
def ReadLines.push (c : Char) (r : ReadLines) : ReadLines := (c :: r.1, r.2)

/-- Where a reader is within a long text. -/
inductive LongState where
  | plain
  /-- Behind a backslash. -/
  | escape
  /-- Behind a backslash at the end of a line, which takes away all blanks and
  line ends up to the next character. -/
  | splice

/--
Reads a long text up to its closing quotes. Escapes are left as they are, and
so are line ends, unless a backslash takes them away.
-/
def longBody : LongState → (line : Nat) → List Char → Option ReadLines
  | _, _, [] => none
  | .escape, line, c :: cs =>
    if isLineEnd c then longBody .splice (line + 1) cs
    else
      (longBody .plain line cs).map fun r =>
        ReadLines.push '\\' (ReadLines.push c r)
  | .splice, line, c :: cs =>
    if isGapChar c then longBody .splice line cs
    else if isLineEnd c then longBody .splice (line + 1) cs
    else if c = '"' then closed line cs
    else if c = '\\' then longBody .escape line cs
    else if ' ' ≤ c then (longBody .plain line cs).map (ReadLines.push c)
    else none
  | .plain, line, c :: cs =>
    if isLineEnd c then
      (longBody .plain (line + 1) cs).map (ReadLines.push c)
    else if c = '"' then closed line cs
    else if c = '\\' then longBody .escape line cs
    else if ' ' ≤ c then (longBody .plain line cs).map (ReadLines.push c)
    else none
where
  /-- The end of a long text, if there are two more quotes. -/
  closed (line : Nat) : List Char → Option ReadLines
    | '"' :: '"' :: cs => some ([], line, cs)
    | _ => none

/-- Reads a long text without escapes up to its closing quotes. -/
def longLiteralBody (line : Nat) : List Char → Option ReadLines
  | [] => none
  | c :: cs =>
    if c = apostrophe && cs.take 2 = [apostrophe, apostrophe] then
      some ([], line, cs.drop 2)
    else if isLineEnd c then
      (longLiteralBody (line + 1) cs).map (ReadLines.push c)
    else if isLiteralChar c then
      (longLiteralBody line cs).map (ReadLines.push c)
    else none

/-- A line end as an escape. -/
def escapedLineEnd (c : Char) : List Char :=
  if c = '\n' then ['\\', 'n']
  else if c = '\r' then ['\\', 'r']
  else [c]

/-- What a long text stands for. Line ends at its beginning do not count. -/
def longText (body : List Char) : Option ReadText :=
  quotedText .plain
    ((body.dropWhile isLineEnd).flatMap escapedLineEnd ++ ['"'])

/-! ## Values on one line -/

/-- A value as it is read, with the line that it ends on and the rest. -/
abbrev ReadValue := Value × Nat × List Char

/-- A text that was read, as a value. -/
def ofText (line : Nat) : Option (List Char) → Value
  | some s => .literal (.text (String.ofList s))
  | none => .unreadable line

/-- Reads a text in triple quotes. -/
def longText? (line : Nat) : List Char → Option ReadValue
  | '"' :: '"' :: '"' :: cs =>
    match longBody .plain line cs with
    | none => none
    | some (body, line, rest) =>
      (longText body).map fun (s, _) => (ofText line s, line, rest)
  | cs =>
    if cs.take 3 = [apostrophe, apostrophe, apostrophe] then
      (longLiteralBody line (cs.drop 3)).map fun (body, line, rest) =>
        (ofText line (some (body.dropWhile isLineEnd)), line, rest)
    else none

/-- Reads a text in single quotes of either kind. -/
def shortText? (line : Nat) : List Char → Option ReadValue
  | [] => none
  | c :: cs =>
    if c = '"' then
      (quotedText .plain cs).map fun (s, rest) => (ofText line s, line, rest)
    else if c = apostrophe then
      (literalText cs).map fun (s, rest) => (ofText line (some s), line, rest)
    else none

/-- Reads a text. -/
def text? (line : Nat) (cs : List Char) : Option ReadValue :=
  match longText? line cs with
  | some r => some r
  | none => shortText? line cs

/-- Reads a truth value. -/
def truth? (line : Nat) : List Char → Option ReadValue
  | 't' :: 'r' :: 'u' :: 'e' :: cs => some (.literal (.truth true), line, cs)
  | 'f' :: 'a' :: 'l' :: 's' :: 'e' :: cs =>
    some (.literal (.truth false), line, cs)
  | _ => none

/-! ## Numbers -/

/-- Reads digits, with single underscores between them, which are dropped. -/
def digitRun : List Char → List Char × List Char
  | [] => ([], [])
  | '_' :: c :: cs =>
    if c.isDigit then
      let (ds, rest) := digitRun cs
      (c :: ds, rest)
    else ([], '_' :: c :: cs)
  | c :: cs =>
    if c.isDigit then
      let (ds, rest) := digitRun cs
      (c :: ds, rest)
    else ([], c :: cs)

/-- Reads digits that have to begin with one. -/
def digits? : List Char → Option (List Char × List Char)
  | [] => none
  | c :: cs =>
    if c.isDigit then
      let (ds, rest) := digitRun cs
      some (c :: ds, rest)
    else none

/-- Reads the sign of a number or exponent, if it has one. -/
def sign : List Char → List Char × List Char
  | '-' :: cs => (['-'], cs)
  | '+' :: cs => (['+'], cs)
  | cs => ([], cs)

/-- Reads the digits of a whole number. Zero is not followed by others. -/
def whole? : List Char → Option (List Char × List Char)
  | '0' :: cs => some (['0'], cs)
  | cs => digits? cs

/-- Reads a fraction, if there is one. -/
def fraction : List Char → List Char × List Char
  | '.' :: cs =>
    match digits? cs with
    | some (ds, rest) => ('.' :: ds, rest)
    | none => ([], '.' :: cs)
  | cs => ([], cs)

/-- Reads an exponent, if there is one. -/
def exponent : List Char → List Char × List Char
  | [] => ([], [])
  | c :: cs =>
    if c = 'e' || c = 'E' then
      let (s, rest) := sign cs
      match digits? rest with
      | some (ds, rest) => (c :: s ++ ds, rest)
      | none => ([], c :: cs)
    else ([], c :: cs)

/-- Reads a number. It is a float if it has a fraction or an exponent. -/
def number? (cs : List Char) : Option (Literal × List Char) :=
  let (s, rest) := sign cs
  match whole? rest with
  | none => none
  | some (ds, rest) =>
    let (f, rest) := fraction rest
    let (e, rest) := exponent rest
    if f.isEmpty && e.isEmpty then
      some (.integer (String.ofList (s ++ ds)), rest)
    else some (.float (String.ofList (s ++ ds ++ f ++ e)), rest)

/-! ## Dates -/

/-- Reads a character. -/
def just? (c : Char) : List Char → Option (List Char)
  | [] => none
  | d :: cs => if d = c then some cs else none

/-- Reads a digit. -/
def digit? : List Char → Option (List Char)
  | [] => none
  | c :: cs => if c.isDigit then some cs else none

/-- Reads two digits. -/
def twoDigits? (cs : List Char) : Option (List Char) := (digit? cs).bind digit?

/-- Reads a separator and two digits. -/
def nextTwo? (c : Char) (cs : List Char) : Option (List Char) :=
  (just? c cs).bind twoDigits?

/-- Drops the fraction of a second, if there is one. -/
def dropFraction (cs : List Char) : List Char :=
  match (just? '.' cs).bind digit? with
  | some rest => rest.dropWhile Char.isDigit
  | none => cs

/-- Reads a time of day. -/
def timeOfDay? (cs : List Char) : Option (List Char) :=
  (((twoDigits? cs).bind (nextTwo? ':')).bind (nextTwo? ':')).map dropFraction

/-- Reads how far a time is from the universal one. -/
def timeOffset? (cs : List Char) : Option (List Char) :=
  match just? 'Z' cs with
  | some rest => some rest
  | none =>
    match sign cs with
    | ([], _) => none
    | (_, rest) => (twoDigits? rest).bind (nextTwo? ':')

/-- Reads a day. -/
def day? (cs : List Char) : Option (List Char) :=
  (((twoDigits? cs).bind twoDigits?).bind (nextTwo? '-')).bind (nextTwo? '-')

/-- Drops the time behind a day, if there is one. -/
def dropTime (cs : List Char) : List Char :=
  (((just? 'T' cs).bind timeOfDay?).bind timeOffset?).getD cs

/-- What stands behind a day, a moment or a time of day. -/
def date? (cs : List Char) : Option (List Char) :=
  match day? cs with
  | some rest => some (dropTime rest)
  | none => timeOfDay? cs

/-- The part of a text before the rest of it. -/
def before (cs rest : List Char) : String :=
  String.ofList (cs.take (cs.length - rest.length))

/-- Reads a value that holds no others. -/
def simple? (line : Nat) (cs : List Char) : Option ReadValue :=
  match date? cs with
  | some rest => some (.literal (.date (before cs rest)), line, rest)
  | none =>
    match number? cs with
    | some (v, rest) => some (.literal v, line, rest)
    | none =>
      match text? line cs with
      | some r => some r
      | none => truth? line cs

/-! ## Keys, pairs and values -/

/-- Reads a key. Without quotes it is not empty. -/
def key? : List Char → Option (Option String × List Char)
  | '"' :: cs =>
    (quotedText .plain cs).map fun (s, rest) => (s.map String.ofList, rest)
  | cs =>
    let key := cs.takeWhile isKeyChar
    if key.isEmpty then none
    else some (some (String.ofList key), cs.dropWhile isKeyChar)

/-- Drops the comma behind a value of a list, if there is one. -/
def dropComma (cs : List Char) : List Char :=
  match dropBlanks cs with
  | ',' :: rest => rest
  | _ => cs

/-- Drops the comma behind a pair within a line, if there is one. -/
def dropPairComma (cs : List Char) : List Char :=
  match dropBlanks cs with
  | ',' :: rest => dropBlanks rest
  | _ => cs

mutual

/-- Reads a value. `fuel` bounds how many values it is made of. -/
def value? (fuel line : Nat) (cs : List Char) : Option ReadValue :=
  match simple? line cs with
  | some r => some r
  | none =>
    match fuel, cs with
    | fuel + 1, '[' :: cs =>
      let (start, cs) := dropGap line cs
      let (vs, line, cs) := (values? fuel start cs).getD ([], start, cs)
      match dropGap line cs with
      | (line, ']' :: rest) => some (.list vs, line, rest)
      | _ => none
    | fuel + 1, '\x7b' :: cs =>
      let (ps, last, cs) := members fuel line (dropBlanks cs)
      match dropBlanks cs with
      | '\x7d' :: rest => some (.table line ps, last, rest)
      | _ => none
    | _, _ => none

/--
Reads the values of a list, with commas between them and perhaps one behind
the last, and with comments around them.
-/
def values? (fuel line : Nat) (cs : List Char) :
    Option (List Value × Nat × List Char) :=
  match fuel with
  | 0 => none
  | fuel + 1 =>
    match value? fuel line cs with
    | none => none
    | some (v, line, rest) =>
      let last :=
        let (next, cs) := dropGap line rest
        let (next, cs) := dropGap next (dropComma cs)
        ([v], next, dropComment cs)
      let (next, cs) := dropNotes line rest
      match dropBlanks cs with
      | ',' :: cs =>
        let (next, cs) := dropNotes next cs
        match values? fuel next cs with
        | some (vs, line, rest) => some (v :: vs, line, rest)
        | none => some last
      | _ => some last

/-- Reads a pair. -/
def pair? (fuel line : Nat) (cs : List Char) :
    Option (Pair × Nat × List Char) :=
  match fuel with
  | 0 => none
  | fuel + 1 =>
    match key? cs with
    | none => none
    | some (key, rest) =>
      match dropBlanks rest with
      | '=' :: rest =>
        match value? fuel line (dropBlanks rest) with
        | some (v, last, rest) => some (.mk line key last v, last, rest)
        | none => none
      | _ => none

/-- Reads the pairs of a table within a line. -/
def members (fuel line : Nat) (cs : List Char) :
    List Pair × Nat × List Char :=
  match fuel with
  | 0 => ([], line, cs)
  | fuel + 1 =>
    match pair? fuel line cs with
    | none => ([], line, cs)
    | some (p, line, rest) =>
      let (ps, line, rest) := members fuel line (dropPairComma rest)
      (p :: ps, line, rest)

end

/-! ## Headers -/

/-- Reads the keys that follow a key, each behind a point. -/
def moreKeys : (fuel : Nat) → List Char → List (Option String) × List Char
  | 0, cs => ([], cs)
  | fuel + 1, cs =>
    match dropBlanks cs with
    | '.' :: rest =>
      match key? (dropBlanks rest) with
      | some (key, rest) =>
        let (keys, rest) := moreKeys fuel rest
        (key :: keys, rest)
      | none => ([], cs)
    | _ => ([], cs)

/-- Reads keys with points between them. -/
def keys? (cs : List Char) : Option (List (Option String) × List Char) :=
  match key? cs with
  | none => none
  | some (key, rest) =>
    let (keys, rest) := moreKeys rest.length rest
    some (key :: keys, rest)

/-- Reads the keys of a header and what closes it. -/
def headerEnd? (line : Nat) (isArray : Bool) (close cs : List Char) :
    Option (Header × List Char) :=
  let cs := dropBlanks cs
  match keys? cs with
  | none => none
  | some (keys, rest) =>
    let body := dropBlanks rest
    if close.isPrefixOf body then
      some (⟨line, before cs rest, keys, isArray⟩, body.drop close.length)
    else none

/-- Reads a header, in single or double brackets. -/
def header? (line : Nat) : List Char → Option (Header × List Char)
  | '[' :: cs =>
    match headerEnd? line false [']'] cs with
    | some r => some r
    | none =>
      match cs with
      | '[' :: cs => headerEnd? line true [']', ']'] cs
      | _ => none
  | _ => none

/-! ## Documents -/

/-- What has been read: items, and the line and the text after them. -/
structure Progress where
  items : List Item
  line : Nat
  rest : List Char

/-- How many values a text can hold, within each other and in a row. -/
def enough (cs : List Char) : Nat := 2 * cs.length + 2

/--
Reads the pairs that follow a header. A gap is only taken along with the pair
behind it. `fuel` bounds their number; the length of the text is enough.
-/
def pairs (fuel line : Nat) (cs : List Char) : Progress :=
  match fuel with
  | 0 => ⟨[], line, cs⟩
  | fuel + 1 =>
    let (next, body) := dropGap line cs
    match pair? (enough body) next body with
    | none => ⟨[], line, cs⟩
    | some (pair, next, rest) =>
      let p := pairs fuel next (dropTail rest)
      { p with items := .pair pair :: p.items }

/--
Reads a header with its pairs, or a single pair, or nothing, and the comment
behind it.
-/
def entry (fuel line : Nat) (cs : List Char) : Progress :=
  let cs := dropBlanks cs
  match header? line cs with
  | some (header, rest) =>
    let p := pairs fuel line (dropTail rest)
    { p with items := .header header :: p.items }
  | none =>
    match pair? (enough cs) line cs with
    | some (pair, line, rest) => ⟨[.pair pair], line, dropTail rest⟩
    | none => ⟨[], line, dropTail cs⟩

/--
Reads the entries of a document, with line ends between them. There are fewer
of them than `fuel`.
-/
def entries : (fuel line : Nat) → List Char → Option (List Item)
  | 0, _, _ => none
  | fuel + 1, line, cs =>
    let p := entry (cs.length + 1) line cs
    match p.rest with
    | [] => some p.items
    | c :: rest =>
      if isLineEnd c then
        let (line, rest) := dropLineEnds p.line (c :: rest)
        (entries fuel line rest).map (p.items ++ ·)
      else none

/-- The items of a document, or nothing if a text is none. -/
def items (text : List Char) : Option (List Item) :=
  entries (text.length + 1) 1 text

end Fixture.Toml.Document
