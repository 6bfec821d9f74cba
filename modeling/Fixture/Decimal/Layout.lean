import Fixture.Decimal.Shortest
/-!
# Layouts of decimal numbers

How the shortest digits of a double are set out. A layout decides which numbers
are written positionally, and how wide an exponent is at least. Each kind of
output has one layout: motion commands, listings, log lines and settings files
differ in nothing else.
-/

namespace Fixture.Decimal

/-- A way to set out digits. -/
structure Layout where
  /-- Whether a number is written positionally, by the exponent of its first
  digit. -/
  positional : Int → Bool
  /-- The least number of exponent digits. -/
  exponentWidth : Nat

/-- The exponent of the first digit; zero has exponent zero. -/
def Digits.exponent (d : Digits) : Int :=
  if d.digits.isEmpty then 0 else d.point - 1

/-- Digits in positional notation, padded with zeros up to the point or behind
it. -/
def Digits.positional (d : Digits) : List Char :=
  let n := d.point.toNat
  let whole := d.digits.take n ++ List.replicate (n - d.digits.length) '0'
  let fraction := List.replicate (-d.point).toNat '0' ++ d.digits.drop n
  (if whole.isEmpty then ['0'] else whole) ++
    (if (d.digits.drop n).isEmpty then [] else '.' :: fraction)

/-- Digits with an exponent: one digit, the others behind a point, and a signed
exponent. -/
def Digits.scientific (exponentWidth : Nat) (d : Digits) : List Char :=
  let mantissa := match d.digits with
    | [] => ['0']
    | [c] => [c]
    | c :: cs => c :: '.' :: cs
  let e := Nat.toDigits 10 d.exponent.natAbs
  mantissa ++ 'e' :: (if d.exponent < 0 then '-' else '+') ::
    (List.replicate (exponentWidth - e.length) '0' ++ e)

/-- Digits in a layout. -/
def Layout.digits (l : Layout) (d : Digits) : List Char :=
  if l.positional d.exponent then d.positional else d.scientific l.exponentWidth

/-- A double in a layout. -/
def Layout.text (l : Layout) (x : Float) : String :=
  match parts x with
  | .notANumber => "NaN"
  | .infinite negative => if negative then "-Inf" else "+Inf"
  | .finite negative _ _ =>
    String.ofList ((if negative then ['-'] else []) ++ l.digits (shortest x))

/-- Motion commands and listings: always positional. -/
def Layout.coordinate : Layout := ⟨fun _ => true, 0⟩

/-- Log lines and dumps: positional from four zeros behind the point up to six
digits before it. -/
def Layout.compact : Layout := ⟨fun e => -4 ≤ e && e < 6, 2⟩

/-- Numbers in JSON: positional from a millionth up to twenty-one digits before
the point. -/
def Layout.json : Layout := ⟨fun e => -6 ≤ e && e < 21, 1⟩

/-- Settings files: never positional. -/
def Layout.settings : Layout := ⟨fun _ => false, 2⟩

end Fixture.Decimal
