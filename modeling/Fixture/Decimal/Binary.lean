/-!
# Doubles as binary fractions

A finite double is a sign and `mantissa * 2 ^ exponent`, both exact integers.
Everything that has to be exact about doubles, their shortest decimal text as
well as rounding to whole numbers, starts from these parts. The other way round,
`nearest` finds the double for a fraction.
-/

namespace Fixture.Decimal

/-- The parts of a double. -/
inductive Parts where
  | notANumber
  | infinite (negative : Bool)
  | finite (negative : Bool) (mantissa : Nat) (exponent : Int)
deriving DecidableEq

/-- The parts of a double, read off its bits. -/
def parts (x : Float) : Parts :=
  let bits := x.toBits.toNat
  let negative := bits / Nat.pow 2 63 == 1
  let biased : Nat := bits / Nat.pow 2 52 % Nat.pow 2 11
  let fraction := bits % Nat.pow 2 52
  if biased = Nat.pow 2 11 - 1 then
    if fraction = 0 then .infinite negative else .notANumber
  else if biased = 0 then .finite negative fraction (-1074)
  else .finite negative (fraction + Nat.pow 2 52) ((biased : Int) - 1075)

/-- `num / den` rounded to a whole number, a half to the even one. -/
def roundedQuotient (num den : Nat) : Nat :=
  let low := num / den
  let rest := 2 * (num % den)
  if rest < den || (rest = den && low % 2 = 0) then low else low + 1

/-- `num / den` divided by a power of two, as a fraction. -/
def scaled (num den : Nat) (exponent : Int) : Nat × Nat :=
  if 0 ≤ exponent then (num, den * Nat.pow 2 exponent.toNat)
  else (num * Nat.pow 2 (-exponent).toNat, den)

/-- The exponent of the double nearest to `num / den`: the one that leaves a
mantissa of 53 bits, or the least there is. -/
def nearestExponent (num den : Nat) : Int :=
  let guess : Int := (num.log2 : Int) - den.log2 - 52
  let q := scaled num den guess
  max (-1074) (if q.1 < q.2 * Nat.pow 2 52 then guess - 1 else guess)

/-- The bits of the double nearest to `num / den`, if there were no largest one.
A mantissa that is rounded up to 54 bits carries into the exponent by itself,
since the two stand side by side in the bits. -/
def nearestBits (num den : Nat) : Nat :=
  let exponent := nearestExponent num den
  let q := scaled num den exponent
  (exponent + 1074).toNat * Nat.pow 2 52 + roundedQuotient q.1 q.2

/-- The double nearest to `num / den`, the even one of two that are as near.
What is beyond the largest double is infinite. -/
def nearest (num den : Nat) : Float :=
  if num = 0 then 0
  else
    Float.ofBits
      (UInt64.ofNat (min (nearestBits num den) (2047 * Nat.pow 2 52)))

/-- The double with the given sign and size. -/
def withSign (negative : Bool) (x : Float) : Float := if negative then -x else x

/-- The whole part of `mantissa * 2 ^ exponent`. -/
def wholePart (mantissa : Nat) (exponent : Int) : Nat :=
  if 0 ≤ exponent then mantissa * Nat.pow 2 exponent.toNat
  else mantissa / Nat.pow 2 (-exponent).toNat

/-- Whether `mantissa * 2 ^ exponent` is a whole number. -/
def isWhole (mantissa : Nat) (exponent : Int) : Bool :=
  0 ≤ exponent || mantissa % Nat.pow 2 (-exponent).toNat == 0

/-- The greatest whole number that is not above a double. The sign of zero
stays. -/
def floor (x : Float) : Float :=
  match parts x with
  | .finite negative m e =>
    if isWhole m e then x
    else if negative then -nearest (wholePart m e + 1) 1
    else nearest (wholePart m e) 1
  | _ => x

/-- A double without its fraction, as a signed 64-bit integer. What does not fit
is the least such integer. -/
def truncate (x : Float) : Int64 :=
  match parts x with
  | .finite negative m e =>
    let n := wholePart m e
    if n < Nat.pow 2 63 then
      (if negative then -Int64.ofNat n else Int64.ofNat n)
    else Int64.minValue
  | _ => Int64.minValue

/-- The double nearest to an integer. -/
def ofInt64 (n : Int64) : Float := withSign (n < 0) (nearest n.toInt.natAbs 1)

/-- The lesser of two doubles: an infinite loss goes before what is not a
number, that goes before the rest, and the negative zero is less than the
positive one. -/
def minimum (x y : Float) : Float :=
  match parts x, parts y with
  | .infinite true, _ => x
  | _, .infinite true => y
  | .notANumber, _ => x
  | _, .notANumber => y
  | .finite true 0 _, .finite _ 0 _ => x
  | .finite _ 0 _, .finite true 0 _ => y
  | _, _ => if x < y then x else y

end Fixture.Decimal
