import Fixture.Numeral
/-!
# Integers with a radix

Integers as they are given on a command line: with a sign, with a mark for the
radix (`0x`, `0o`, `0b`, or just a leading zero for octal), and with underscores
between the digits.
-/

namespace Fixture.Numeral

/-- Why a text is no integer of 64 bits. -/
inductive RadixFault where
  | malformed
  | outOfRange
deriving DecidableEq

/-- The value of a digit of any radix up to 36. -/
def letterDigit? (c : Char) : Option Nat :=
  let n := c.toNat
  if 48 ≤ n && n ≤ 57 then some (n - 48)
  else if 97 ≤ n && n ≤ 122 then some (n - 87)
  else if 65 ≤ n && n ≤ 90 then some (n - 55)
  else none

/-- Splits the mark of the radix off. A zero alone is octal too, with no digits
left. -/
def splitRadix : List Char → Nat × List Char
  | '0' :: c :: d :: cs =>
    if c = 'b' || c = 'B' then (2, d :: cs)
    else if c = 'o' || c = 'O' then (8, d :: cs)
    else if c = 'x' || c = 'X' then (16, d :: cs)
    else (8, c :: d :: cs)
  | '0' :: cs => (8, cs)
  | cs => (10, cs)

/-- The value of digits, underscores aside. The first thing that is wrong
decides, where leaving 64 bits counts. -/
def radixDigits (radix : Nat) : Nat → List Char → Except RadixFault Nat
  | n, [] => .ok n
  | n, c :: cs =>
    if c = '_' then radixDigits radix n cs
    else
      match letterDigit? c with
      | none => .error .malformed
      | some d =>
        if radix ≤ d then .error .malformed
        else if Nat.pow 2 64 ≤ radix * n + d then .error .outOfRange
        else radixDigits radix (radix * n + d) cs

/-- Whether every underscore has a digit before and behind it. The flag says
whether the text before does. -/
def separates : Bool → List Char → Bool
  | digit, [] => digit
  | digit, c :: cs =>
    if c = '_' then digit && separates false cs else separates true cs

/-- Reads an integer. -/
def radixInteger (s : String) : Except RadixFault Int64 :=
  let (negative, cs) := splitSign s.toList
  let (radix, ds) := splitRadix cs
  if cs.isEmpty then .error .malformed
  else
    match radixDigits radix 0 ds with
    | .error e => .error e
    | .ok n =>
      if !separates (radix != 10) ds then .error .malformed
      else if negative then
        if n ≤ Nat.pow 2 63 then .ok (Int64.ofInt (-n)) else .error .outOfRange
      else if n < Nat.pow 2 63 then .ok (Int64.ofNat n)
      else .error .outOfRange

end Fixture.Numeral
