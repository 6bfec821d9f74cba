import Fixture.Decimal.Binary
/-!
# Numerals

The value of a decimal numeral: digits, or digits with a fraction, as a source
writes them, and with a sign and an exponent, as a settings file may. An integer
has to fit a signed 64-bit word. A real is rounded to the nearest double; one
that rounds beyond the largest double has no value, and one too small for any
double is zero.
-/

namespace Fixture.Numeral

/-- The value of a decimal digit. -/
def digit (c : Char) : Nat := c.toNat - 48

/-- The value of a row of digits, with what the digits before it are worth. -/
def digits (acc : Nat) (cs : List Char) : Nat :=
  cs.foldl (fun n c => 10 * n + digit c) acc

/-- The double nearest to `mantissa * 10 ^ exponent`. -/
def scaled (mantissa : Nat) (exponent : Int) : Float :=
  if 0 ≤ exponent then Decimal.nearest (mantissa * Nat.pow 10 exponent.toNat) 1
  else Decimal.nearest mantissa (Nat.pow 10 (-exponent).toNat)

/-- The value of an integer numeral, unless it is too large. -/
def integer? (literal : String) : Option Int64 :=
  let n := digits 0 literal.toList
  if n < Nat.pow 2 63 then some (Int64.ofNat n) else none

/-- The value of a numeral with a fraction, unless it is too large. -/
def real? (literal : String) : Option Float :=
  let whole := literal.toList.takeWhile (· ≠ '.')
  let fraction := (literal.toList.dropWhile (· ≠ '.')).drop 1
  let x := scaled (digits (digits 0 whole) fraction) (-fraction.length)
  if x.isFinite then some x else none

/-! ## Numerals with a sign -/

/-- Splits a sign off; without one a numeral is not negative. -/
def splitSign : List Char → Bool × List Char
  | '-' :: cs => (true, cs)
  | '+' :: cs => (false, cs)
  | cs => (false, cs)

/-- The value of an integer numeral with or without a sign, unless it does not
fit. -/
def signedInteger? (cs : List Char) : Option Int64 :=
  let (negative, ds) := splitSign cs
  let n := digits 0 ds
  if negative then
    if n ≤ Nat.pow 2 63 then some (Int64.ofInt (-n)) else none
  else if n < Nat.pow 2 63 then some (Int64.ofNat n)
  else none

/-- The value of the exponent that a numeral ends in. Nothing at all stands for
zero. -/
def exponent? : List Char → Option Int
  | [] => some 0
  | c :: cs =>
    let (negative, ds) := splitSign cs
    if (c = 'e' || c = 'E') && !ds.isEmpty && ds.all Char.isDigit then
      some (if negative then -(digits 0 ds : Int) else digits 0 ds)
    else none

/-- The value of a numeral that may have a sign, a fraction and an exponent.
What is no such numeral has no value, and neither has one that is too large. An
exponent beyond all doubles is brought near enough to be computed with. -/
def decimal? (cs : List Char) : Option Float :=
  let (negative, cs) := splitSign cs
  let whole := cs.takeWhile Char.isDigit
  let cs := cs.dropWhile Char.isDigit
  let (fraction, cs) := match cs with
    | '.' :: cs => (cs.takeWhile Char.isDigit, cs.dropWhile Char.isDigit)
    | cs => ([], cs)
  match exponent? cs with
  | none => none
  | some e =>
    let size := whole.length + fraction.length
    let exponent := max (-(size + 400 : Int)) (min 400 (e - fraction.length))
    let x := scaled (digits (digits 0 whole) fraction) exponent
    if size = 0 || !x.isFinite then none else some (Decimal.withSign negative x)

end Fixture.Numeral
