import Mathlib
import Fixture.Decimal.Binary
/-!
# Whole numbers as doubles

The double nearest to a whole number is zero only if the number is. It has to be
said, because a division by a whole number may be carried out on doubles, and
there it is the double that is compared with zero.

Doubles are compared by their parts. A double whose exponent bits are not all
zero is no zero, and these bits survive a change of the sign. The nearest double
of a number other than zero has such bits, as the number is at least one.

## Main results

* `beq_zero_ofBits`, `beq_zero_neg_ofBits`: doubles with exponent bits are no
  zeros.
* `ofInt64_beq_zero`: the double of a whole number is zero exactly if the number
  is.
-/

namespace Fixture.Decimal

open Float.Model Float.Model.UnpackedFloat

/-! ## Zeros -/

private theorem beq_zero_eq_false {x : Float}
    (h : ∀ s, x.toModel.unpack ≠ .zero s) : (x == 0) = false := by
  have hcompare : (x == 0) =
      (x.toModel.unpack.compare (.zero .positive) == some .eq) := rfl
  rw [hcompare]
  cases hx : x.toModel.unpack with
  | infinity s => cases s <;> rfl
  | notANumber => rfl
  | zero s => exact absurd hx (h s)
  | finite s m e hm => cases s <;> rfl

/-- The exponent bits. -/
abbrev exponentBits (b : BitVec 64) : BitVec 11 := @unpackExponent .binary64 b

/-- The bits behind the exponent. -/
abbrev mantissaBits (b : BitVec 64) : BitVec 52 := @unpackMantissa .binary64 b

private theorem unpack_ne_zero {b : BitVec 64} (h : exponentBits b ≠ 0#11)
    (s : Sign) : UnpackedFloat.unpack .binary64 b ≠ .zero s := by
  unfold UnpackedFloat.unpack
  simp only [if_neg h]
  split_ifs <;> simp

/-! ## Bits -/

theorem toNat_exponentBits (b : BitVec 64) :
    (exponentBits b).toNat = b.toNat / 2 ^ 52 % 2 ^ 11 := by
  rw [exponentBits, unpackExponent, BitVec.toNat_cast, BitVec.extractLsb_toNat,
    Nat.shiftRight_eq_div_pow]
  rfl

theorem toNat_mantissaBits (b : BitVec 64) :
    (mantissaBits b).toNat = b.toNat % 2 ^ 52 := by
  rw [mantissaBits, unpackMantissa, BitVec.toNat_cast, BitVec.extractLsb_toNat,
    Nat.shiftRight_zero]
  rfl

/-- Bits up to those of the infinite double are those of a number. -/
private theorem valid_of_le {b : BitVec 64} (h : b.toNat ≤ 2047 * 2 ^ 52) :
    Format.binary64.Valid b := by
  refine ⟨fun hexponent hmantissa => absurd ?_ hmantissa⟩
  have hbits : exponentBits b = -1#11 := hexponent
  have hall : 2047 = b.toNat / 2 ^ 52 % 2 ^ 11 := by
    rw [← toNat_exponentBits, hbits]
    rfl
  apply BitVec.eq_of_toNat_eq
  rw [toNat_mantissaBits, BitVec.toNat_zero]
  omega

/-- A mantissa with its implicit bit in front has 53 bits. -/
private theorem log2_implicit (m : BitVec 52) : (1#1 ++ m).toNat.log2 = 52 := by
  have hmsb : (1#1 ++ m).msb = true := BitVec.msb_append
  have hlow : 2 ^ 52 ≤ (1#1 ++ m).toNat := BitVec.toNat_ge_of_msb_true hmsb
  have hhigh : (1#1 ++ m).toNat < 2 ^ 53 := (1#1 ++ m).isLt
  exact (Nat.log2_eq_iff (by omega)).2 ⟨hlow, hhigh⟩

private theorem exponentBits_packedInfinity (s : Sign) :
    exponentBits (packedInfinity .binary64 s) ≠ 0#11 := by
  rw [exponentBits, packedInfinity, unpackExponent_packComponents]
  decide

private theorem exponentBits_packedNaN :
    exponentBits (packedNaN .binary64) ≠ 0#11 := by
  rw [exponentBits, packedNaN, unpackExponent_packComponents]
  decide

/-- A change of the sign leaves exponent bits. -/
private theorem exponentBits_neg {b : BitVec 64} (h : exponentBits b ≠ 0#11) :
    exponentBits
        (UnpackedFloat.pack .binary64 (UnpackedFloat.unpack .binary64 b).neg) ≠
      0#11 := by
  have hbiased (n : Nat) (c d : Int) : ((n : Int) - (c + d) + c + d).toNat =
      n := by omega
  unfold UnpackedFloat.unpack
  simp only [if_neg h]
  split_ifs with hall hmantissa
  · exact exponentBits_packedInfinity _
  · exact exponentBits_packedNaN
  · unfold UnpackedFloat.neg UnpackedFloat.pack
    dsimp only
    rw [log2_implicit, hbiased]
    split_ifs with hlarge hbits
    · exact exponentBits_packedInfinity _
    · rw [exponentBits, unpackExponent_packComponents, BitVec.ofNat_toNat,
        BitVec.setWidth_eq]
      exact h
    · exact absurd rfl hbits

/-! ## Doubles with exponent bits -/

section ExponentBits

variable {u : UInt64}

private theorem exponentBits_ne_zero (hlow : 2 ^ 52 ≤ u.toNat)
    (hhigh : u.toNat ≤ 2047 * 2 ^ 52) : exponentBits u.toBitVec ≠ 0#11 := by
  intro hzero
  have hbits := toNat_exponentBits u.toBitVec
  rw [hzero, BitVec.toNat_zero, UInt64.toNat_toBitVec] at hbits
  omega

private theorem unpack_ofBits (hhigh : u.toNat ≤ 2047 * 2 ^ 52) :
    (Float.ofBits u).toModel.unpack =
      UnpackedFloat.unpack .binary64 u.toBitVec := by
  have hvalid : Format.binary64.Valid u.toBitVec :=
    valid_of_le (by rwa [UInt64.toNat_toBitVec])
  have hbits : Float.ofBits u = ⟨⟨u, hvalid⟩⟩ :=
    Float.ofBits_toBits ⟨⟨u, hvalid⟩⟩
  rw [hbits]
  rfl

theorem beq_zero_ofBits (hlow : 2 ^ 52 ≤ u.toNat)
    (hhigh : u.toNat ≤ 2047 * 2 ^ 52) : (Float.ofBits u == 0) = false := by
  refine beq_zero_eq_false fun s => ?_
  rw [unpack_ofBits hhigh]
  exact unpack_ne_zero (exponentBits_ne_zero hlow hhigh) s

theorem beq_zero_neg_ofBits (hlow : 2 ^ 52 ≤ u.toNat)
    (hhigh : u.toNat ≤ 2047 * 2 ^ 52) : (-Float.ofBits u == 0) = false := by
  refine beq_zero_eq_false fun s => ?_
  show UnpackedFloat.unpack .binary64
      (UnpackedFloat.pack .binary64 (Float.ofBits u).toModel.unpack.neg) ≠ _
  rw [unpack_ofBits hhigh]
  exact unpack_ne_zero (exponentBits_neg (exponentBits_ne_zero hlow hhigh)) s

end ExponentBits

/-! ## Whole numbers -/

private theorem nearestExponent_ge (n : Nat) : -53 ≤ nearestExponent n 1 := by
  have hlog : Nat.log2 1 = 0 := by decide
  have hguess : -53 ≤ (n.log2 : Int) - Nat.log2 1 - 52 - 1 := by
    rw [hlog]
    omega
  refine le_max_of_le_right ?_
  split
  · exact hguess
  · omega

private theorem nearestBits_ge (n : Nat) : Nat.pow 2 52 ≤ nearestBits n 1 := by
  have hexponent := nearestExponent_ge n
  have hone : 1 ≤ (nearestExponent n 1 + 1074).toNat := by omega
  exact (Nat.le_mul_of_pos_left (Nat.pow 2 52) hone).trans
    (Nat.le_add_right _ _)

/-- The double of a whole number has exponent bits. -/
private theorem nearest_eq {n : Nat} (hn : n ≠ 0) :
    ∃ u : UInt64, nearest n 1 = Float.ofBits u ∧ 2 ^ 52 ≤ u.toNat ∧
      u.toNat ≤ 2047 * 2 ^ 52 := by
  have hge : 2 ^ 52 ≤ nearestBits n 1 := nearestBits_ge n
  refine ⟨UInt64.ofNat (min (nearestBits n 1) (2047 * 2 ^ 52)), ?_, ?_⟩
  · rw [nearest, if_neg hn]
    rfl
  · rw [UInt64.toNat_ofNat']
    omega

/-- **The double of a whole number is zero exactly if the number is.** -/
theorem ofInt64_beq_zero (n : Int64) : (ofInt64 n == 0) = (n == 0) := by
  by_cases hn : n = 0
  · rw [hn]
    decide
  · have habs : n.toInt.natAbs ≠ 0 :=
      fun h => hn (Int64.toInt_inj.1 (Int.natAbs_eq_zero.1 h))
    obtain ⟨u, hu, hlow, hhigh⟩ := nearest_eq habs
    rw [beq_eq_false_iff_ne.2 hn, ofInt64, hu, withSign]
    split
    · exact beq_zero_neg_ofBits hlow hhigh
    · exact beq_zero_ofBits hlow hhigh

end Fixture.Decimal
