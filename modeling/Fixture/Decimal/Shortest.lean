import Fixture.Decimal.Binary
import Fixture.Numeral
/-!
# The shortest decimal of a double

The fewest decimal digits that read back as the same double, and of those with
that many digits the ones nearest to it, an even one if two are as near. For one
digit, two digits and so on, the two neighbours of the value on that decimal
grid are tried; the first grid with a hit wins. Whether a neighbour reads back
is decided by reading it, with the same rounding that reads the numerals of a
source, so what is printed can be read again.

Seventeen digits always suffice for a double.
-/

namespace Fixture.Decimal

/-- The digits of a positive number, the first one not zero, and the place of
the point among them: the number is `0.d₁d₂… * 10 ^ point`. Zero has no digits,
and its point is at zero. -/
structure Digits where
  digits : List Char
  point : Int
deriving DecidableEq

/-- How many decimal digits a number has. -/
def width (n : Nat) : Nat := (Nat.toDigits 10 n).length

/-- The fraction `num / den` divided by `10 ^ n`. -/
def scaleDown (num den : Nat) (n : Int) : Nat × Nat :=
  if 0 ≤ n then (num, den * Nat.pow 10 n.toNat)
  else (num * Nat.pow 10 (-n).toNat, den)

/-- The place of the point: the least `k` with `num / den < 10 ^ k`. -/
def pointOf (num den : Nat) : Int :=
  let guess : Int := width num - width den
  let (a, b) := scaleDown num den guess
  if a < b then guess else guess + 1

/-- The digits of `d * 10 ^ exponent`, without zeros at the end. -/
def Digits.ofScaled (d : Nat) (exponent : Int) : Digits :=
  let cs := Nat.toDigits 10 d
  ⟨(cs.reverse.dropWhile (· = '0')).reverse, cs.length + exponent⟩

/-- The neighbours of `num / den` among the multiples of `10 ^ exponent`, the
nearer one first, and the even one first if both are as near. -/
def neighbours (num den : Nat) (exponent : Int) : List Nat :=
  let (a, b) := scaleDown num den exponent
  let low := a / b
  let rest := 2 * (a % b)
  if rest < b || (rest = b && low % 2 = 0) then [low, low + 1]
  else [low + 1, low]

/-- The first of the neighbours that reads back as `x`. -/
def hit? (x : Float) (num den : Nat) (exponent : Int) : Option Digits :=
  ((neighbours num den exponent).find? fun d =>
    (Numeral.scaled d exponent).toBits == x.toBits).map fun d =>
      Digits.ofScaled d exponent

/-- The digits of a positive double with value `num / den`: the first hit on the
grids of one to seventeen digits. -/
def shortestOf (x : Float) (num den : Nat) : Digits :=
  let point := pointOf num den
  match (List.range 17).findSome? fun (i : Nat) =>
    hit? x num den (point - (i + 1)) with
  | some d => d
  | none =>
    let (a, b) := scaleDown num den (point - 17)
    Digits.ofScaled (a / b) (point - 17)

/-- The shortest digits of the size of a finite double. -/
def shortest (x : Float) : Digits :=
  match parts x with
  | .finite _ 0 _ => ⟨[], 0⟩
  | .finite _ m e =>
    if 0 ≤ e then shortestOf x.abs (m * Nat.pow 2 e.toNat) 1
    else shortestOf x.abs m (Nat.pow 2 (-e).toNat)
  | _ => ⟨[], 0⟩

end Fixture.Decimal
