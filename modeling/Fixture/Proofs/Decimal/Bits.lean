import Fixture.Proofs.Decimal
/-!
# The bits of finite doubles

A double is finite unless its exponent bits are all set. Then its bits without
the first one are those of its size, and to change its sign is to change the
first bit. So the bits tell sign and size apart, for zero as well, and a double
is put together again from the two.

The bits of the size are also the parts of the double in one row: the exponent
counted from the least one, then the mantissa, whose leading bit adds one to the
exponent.

## Main results

* `toNat_toBits_abs`, `toNat_toBits_neg`: size and sign in the bits.
* `withSign_abs`: a finite double is its size with its sign.
* `parts_eq`: the parts of a finite double.
-/

namespace Fixture.Decimal

open Float.Model Float.Model.UnpackedFloat

attribute [local simp] withSign parts

/-! ## Packed bits -/

private theorem toNat_packComponents (s : Sign) (e : BitVec 11)
    (m : BitVec 52) :
    (packComponents .binary64 s e m).toNat =
      s.toBitVec.toNat * 2 ^ 63 + e.toNat * 2 ^ 52 + m.toNat := by
  have hfront : (s.toBitVec ++ e).toNat =
      s.toBitVec.toNat * 2 ^ 11 + e.toNat := by
    rw [BitVec.toNat_append, ← Nat.shiftLeft_add_eq_or_of_lt e.isLt,
      Nat.shiftLeft_eq]
  have hall : (packComponents .binary64 s e m).toNat =
      (s.toBitVec ++ e).toNat * 2 ^ 52 + m.toNat := by
    rw [packComponents, BitVec.toNat_append,
      ← Nat.shiftLeft_add_eq_or_of_lt m.isLt, Nat.shiftLeft_eq]
  rw [hall, hfront]
  omega

/-- The same bits with another sign. -/
abbrev resigned (s : Sign) (b : BitVec 64) : BitVec 64 :=
  packComponents .binary64 s (exponentBits b) (mantissaBits b)

/-- An operation that only puts the sign `s` in the place of a double's own
gives what the bits with the sign `s` are unpacked to. -/
private theorem unpack_resigned {f : UnpackedFloat → UnpackedFloat} {s r : Sign}
    {b : BitVec 64} (hr : Sign.ofBitVec (@unpackSign .binary64 b) = r)
    (hnan : f .notANumber = .notANumber)
    (hinfinity : f (.infinity r) = .infinity s) (hzero : f (.zero r) = .zero s)
    (hfinite : ∀ m e hm, f (.finite r m e hm) = .finite s m e hm) :
    f (UnpackedFloat.unpack .binary64 b) =
      UnpackedFloat.unpack .binary64 (resigned s b) := by
  unfold UnpackedFloat.unpack
  simp only [unpackExponent_packComponents, unpackMantissa_packComponents,
    unpackSign_packComponents, Sign.ofBitVec_toBitVec, hr]
  split_ifs
  · exact hinfinity
  · exact hnan
  · exact hzero
  · exact hfinite _ _ _
  · exact hfinite _ _ _

private theorem unpack_abs (b : BitVec 64) :
    (UnpackedFloat.unpack .binary64 b).abs =
      UnpackedFloat.unpack .binary64 (resigned .positive b) :=
  unpack_resigned rfl rfl rfl rfl fun _ _ _ => rfl

private theorem unpack_neg (b : BitVec 64) :
    (UnpackedFloat.unpack .binary64 b).neg =
      UnpackedFloat.unpack .binary64
        (resigned (-Sign.ofBitVec (@unpackSign .binary64 b)) b) :=
  unpack_resigned rfl rfl rfl rfl fun _ _ _ => rfl

private theorem pack_unpack_resigned {b : BitVec 64}
    (h : exponentBits b ≠ -1#11) (s : Sign) :
    UnpackedFloat.pack .binary64
        (UnpackedFloat.unpack .binary64 (resigned s b)) = resigned s b := by
  refine pack_unpack_of_valid ⟨fun hexponent _ => absurd ?_ h⟩ (by decide)
  rwa [unpackExponent_packComponents] at hexponent

private theorem toNat_unpackSign (u : UInt64) :
    (@unpackSign .binary64 u.toBitVec).toNat = u.toNat / 2 ^ 63 := by
  have hlt := u.toNat_lt
  rw [unpackSign, BitVec.toNat_cast, BitVec.extractLsb_toNat,
    Nat.shiftRight_eq_div_pow, UInt64.toNat_toBitVec]
  show u.toNat / 2 ^ 63 % 2 = _
  omega

/-! ## Sign and size -/

theorem isFinite_iff (x : Float) :
    x.isFinite = true ↔ x.toBits.toNat / 2 ^ 52 % 2 ^ 11 ≠ 2047 := by
  have hbits : x.toBits.toNat / 2 ^ 52 % 2 ^ 11 =
      (exponentBits x.toBits.toBitVec).toNat := by
    rw [toNat_exponentBits, UInt64.toNat_toBitVec]
  have hall : exponentBits x.toBits.toBitVec = -1#11 ↔
      (exponentBits x.toBits.toBitVec).toNat = 2047 := by
    rw [← BitVec.toNat_inj]
    rfl
  show (UnpackedFloat.unpack .binary64 x.toBits.toBitVec).isFinite = true ↔ _
  rw [hbits, ne_eq, ← hall]
  unfold UnpackedFloat.unpack
  dsimp only
  split_ifs <;> simp_all [UnpackedFloat.isFinite]

section Finite

variable {x : Float}

private theorem exponentBits_ne_ones (h : x.isFinite = true) :
    exponentBits x.toBits.toBitVec ≠ -1#11 := by
  intro hones
  have hbits := toNat_exponentBits x.toBits.toBitVec
  rw [hones, UInt64.toNat_toBitVec] at hbits
  exact (isFinite_iff x).1 h hbits.symm

theorem toNat_toBits_abs (h : x.isFinite = true) :
    x.abs.toBits.toNat = x.toBits.toNat % 2 ^ 63 := by
  have hbits : x.abs.toBits.toNat =
      (UnpackedFloat.pack .binary64
        (UnpackedFloat.unpack .binary64 x.toBits.toBitVec).abs).toNat := rfl
  rw [hbits, unpack_abs, pack_unpack_resigned (exponentBits_ne_ones h),
    toNat_packComponents, toNat_exponentBits, toNat_mantissaBits,
    UInt64.toNat_toBitVec]
  show 0 * 2 ^ 63 + _ + _ = _
  omega

theorem toNat_toBits_neg (h : x.isFinite = true) :
    (-x).toBits.toNat = (x.toBits.toNat + 2 ^ 63) % 2 ^ 64 := by
  have hbits : (-x).toBits.toNat =
      (UnpackedFloat.pack .binary64
        (UnpackedFloat.unpack .binary64 x.toBits.toBitVec).neg).toNat := rfl
  have hflip : ∀ b : BitVec 1, (-Sign.ofBitVec b).toBitVec.toNat =
      1 - b.toNat := by decide
  have hlt := x.toBits.toNat_lt
  rw [hbits, unpack_neg, pack_unpack_resigned (exponentBits_ne_ones h),
    toNat_packComponents, toNat_exponentBits, toNat_mantissaBits,
    UInt64.toNat_toBitVec, hflip, toNat_unpackSign]
  omega

/-- Whether the first bit of a double is set. -/
def isNegative (x : Float) : Bool := x.toBits.toNat / Nat.pow 2 63 == 1

private theorem isNegative_iff (x : Float) :
    isNegative x = true ↔ 2 ^ 63 ≤ x.toBits.toNat := by
  have hlt := x.toBits.toNat_lt
  have hfirst : isNegative x = true ↔ x.toBits.toNat / 2 ^ 63 = 1 := beq_iff_eq
  rw [hfirst]
  omega

theorem isFinite_abs (h : x.isFinite = true) : x.abs.isFinite = true := by
  have hbits := (isFinite_iff x).1 h
  rw [isFinite_iff, toNat_toBits_abs h]
  omega

/-- **A finite double is its size with its sign.** -/
theorem withSign_abs (h : x.isFinite = true) :
    withSign (isNegative x) x.abs = x := by
  have habs := toNat_toBits_abs h
  have hneg := toNat_toBits_neg (isFinite_abs h)
  have hlt := x.toBits.toNat_lt
  rw [← Float.toBits_inj, ← UInt64.toNat_inj, withSign]
  split
  next hsign =>
    rw [isNegative_iff] at hsign
    rw [hneg, habs]
    omega
  next hsign =>
    rw [isNegative_iff] at hsign
    rw [habs]
    omega

end Finite

/-! ## Parts -/

/-- The parts of a double: a mantissa of 53 bits, or of fewer with the least
exponent. -/
structure IsParts (m : Nat) (e : Int) : Prop where
  lt : m < 2 ^ 53
  least : -1074 ≤ e
  full : m < 2 ^ 52 → e = -1074

/-- **The parts of a finite double,** and its bits in terms of them. -/
theorem parts_eq {x : Float} (h : x.isFinite = true) :
    ∃ m e, parts x = .finite (isNegative x) m e ∧ IsParts m e ∧
      x.abs.toBits.toNat = (e + 1074).toNat * 2 ^ 52 + m := by
  have hones : ¬ x.toBits.toNat / Nat.pow 2 52 % Nat.pow 2 11 =
      Nat.pow 2 11 - 1 := (isFinite_iff x).1 h
  rw [toNat_toBits_abs h]
  unfold parts
  dsimp only
  rw [if_neg hones]
  by_cases hzero : x.toBits.toNat / Nat.pow 2 52 % Nat.pow 2 11 = 0
  · rw [if_pos hzero]
    refine ⟨_, _, rfl, ⟨?_, le_refl _, fun _ => rfl⟩, ?_⟩
    · show x.toBits.toNat % 2 ^ 52 < 2 ^ 53
      omega
    · have hzero : x.toBits.toNat / 2 ^ 52 % 2 ^ 11 = 0 := hzero
      show x.toBits.toNat % 2 ^ 63 = 0 * 2 ^ 52 + x.toBits.toNat % 2 ^ 52
      omega
  · rw [if_neg hzero]
    have hzero : ¬ x.toBits.toNat / 2 ^ 52 % 2 ^ 11 = 0 := hzero
    refine ⟨_, _, rfl, ⟨?_, ?_, ?_⟩, ?_⟩
    · show x.toBits.toNat % 2 ^ 52 + 2 ^ 52 < 2 ^ 53
      omega
    · show -1074 ≤ ((x.toBits.toNat / 2 ^ 52 % 2 ^ 11 : Nat) : Int) - 1075
      omega
    · intro hlt
      have hlt : x.toBits.toNat % 2 ^ 52 + 2 ^ 52 < 2 ^ 52 := hlt
      omega
    · show x.toBits.toNat % 2 ^ 63 =
        (((x.toBits.toNat / 2 ^ 52 % 2 ^ 11 : Nat) : Int) - 1075 + 1074).toNat *
            2 ^ 52 + (x.toBits.toNat % 2 ^ 52 + 2 ^ 52)
      omega

end Fixture.Decimal
