import Fixture.Text.Join
/-!
# Grids

Tables in plain characters: a border, a header, a border, the rows, and a border
again. A long cell is broken into lines at its spaces. Of all ways to do that
the one is taken that leaves the least slack, counted in squares, on the lines
before the last.

Lengths are counted in characters. That is the width on a terminal for the ASCII
texts that grids are made of.
-/

namespace Fixture.Text

/-! ## Breaking lines -/

/-- A way to set a row of words: its lines, and what they cost. -/
structure Breaks where
  cost : Nat
  lines : List String

/-- The cost of a line that is not the last. One that does not fit is only a
last resort. -/
def lineCost (limit length : Nat) : Nat :=
  let slack := (limit : Int) - length
  slack.natAbs * slack.natAbs + if limit < length then 100000 else 0

/-- The best way to set words that do not fit on one line, given the first of
them, the best ways to set the words after it from every point on, and those
that follow. On a tie the first line is the shorter one. -/
def cheapest (limit : Nat) :
    (line : String) → List String → List Breaks → Option Breaks
  | line, word :: words, plan :: plans =>
    let here : Breaks :=
      ⟨lineCost limit line.length + plan.cost, line :: plan.lines⟩
    match cheapest limit (line ++ " " ++ word) words plans with
    | some other => if other.cost < here.cost then some other else some here
    | none => some here
  | _, _, _ => none

/-- The best ways to set words, from every point on. -/
def plans (limit : Nat) : List String → List Breaks
  | [] => []
  | word :: words =>
    let rest := plans limit words
    let line := joined " " (word :: words)
    let whole : Breaks := ⟨0, [line]⟩
    (if line.length ≤ limit then whole
      else (cheapest limit word words rest).getD whole) :: rest

/-- The longest of some lengths. -/
def longest (lengths : List Nat) : Nat := lengths.foldl max 0

/-- The most characters that a cell is given on a line, unless one of its words
is longer. -/
def cellLimit : Nat := 30

/-- Breaks a text into lines. -/
def wrapped (s : String) : List String :=
  let words := divided ' ' s
  let limit := max (min s.length cellLimit) (longest (words.map String.length))
  match plans limit words with
  | plan :: _ => plan.lines
  | [] => []

/-! ## Cells -/

/-- Blanks in a row. -/
def blanks (n : Nat) : String := String.ofList (List.replicate n ' ')

/-- Whether a text is a decimal number: digits with a sign before them or a
fraction behind them, perhaps. -/
def isNumber (s : String) : Bool :=
  let cs := match s.toList with
    | '-' :: cs => cs
    | cs => cs
  let digits := cs.takeWhile Char.isDigit
  !digits.isEmpty &&
    match cs.dropWhile Char.isDigit with
    | [] => true
    | '.' :: fraction => !fraction.isEmpty && fraction.all Char.isDigit
    | _ => false

/-- A line of a cell: numbers stand on the right, all else on the left. -/
def aligned (width : Nat) (s : String) : String :=
  let gap := blanks (width - s.length)
  if isNumber s then gap ++ s else s ++ gap

/-- A line in the middle of its column, or a little to the left of it. -/
def centred (width : Nat) (s : String) : String :=
  let gap := width - s.length
  blanks (gap / 2) ++ s ++ blanks (gap - gap / 2)

/-! ## Grids -/

/-- A grid. All rows are as long as the header. -/
structure Grid where
  header : List String
  rows : List (List String)

namespace Grid

/-- The width that a cell asks for. -/
def cellWidth (s : String) : Nat :=
  max (min s.length cellLimit) (longest ((wrapped s).map String.length))

/-- The widths of the columns. -/
def widths (g : Grid) : List Nat :=
  g.rows.foldl (fun ws row => List.zipWith max ws (row.map cellWidth))
    (g.header.map cellWidth)

/-- The border between parts. -/
def border (ws : List Nat) : String :=
  "+" ++
    String.join
      (ws.map fun w => String.ofList (List.replicate (w + 2) '-') ++ "+") ++
    "\n"

/-- One line of a row. -/
def line (cells : List String) : String :=
  "|" ++ String.join (cells.map fun c => " " ++ c ++ " |") ++ "\n"

/-- A row: as many lines as its longest cell has. -/
def row (ws : List Nat) (cells : List String) : String :=
  let cells := cells.map wrapped
  let height := longest (cells.map List.length)
  String.join ((List.range height).map fun i =>
    line (List.zipWith (fun w c => aligned w (c.getD i "")) ws cells))

/-- A grid as text. -/
def render (g : Grid) : String :=
  let ws := g.widths
  border ws ++ line (List.zipWith centred ws g.header) ++ border ws ++
    String.join (g.rows.map (row ws)) ++ border ws

end Grid

end Fixture.Text
