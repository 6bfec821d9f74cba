/-!
# Joined and divided texts
-/

namespace Fixture.Text

/-- Texts in a row with a separator between them. -/
def joined (separator : String) : List String → String
  | [] => ""
  | [s] => s
  | s :: t :: rest => s ++ separator ++ joined separator (t :: rest)

/-- The stretches between the places where a character stands, empty ones
included. -/
def stretches (separator : Char) : List Char → List (List Char)
  | [] => [[]]
  | c :: cs =>
    if c = separator then [] :: stretches separator cs
    else
      match stretches separator cs with
      | [] => [[c]]
      | s :: ss => (c :: s) :: ss

/-- A text divided where a character stands. -/
def divided (separator : Char) (s : String) : List String :=
  (stretches separator s.toList).map String.ofList

end Fixture.Text
