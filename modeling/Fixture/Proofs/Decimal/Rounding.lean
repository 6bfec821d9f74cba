import Fixture.Decimal.Shortest
import Fixture.Proofs.Decimal.Bits
/-!
# Reading fractions

The double nearest to a fraction is found with whole numbers only. Here it is
compared with the fraction as a rational number: it depends on the value of the
fraction alone, and it is the double that the value is nearer to than half a
step. Below a power of two the steps are half as long, so there it has to be
nearer than a quarter.

The exponent is guessed from the lengths of numerator and denominator, and put
right by one comparison. What comes out is the logarithm of the value, rounded
down. The place of the decimal point is found in the same way, for ten instead
of two, so both rest on `log_ratio`.

## Main results

* `nearest_congr`: fractions with one value are read as one double.
* `nearest_eq_abs`: a fraction near enough to a double is read as its size.
-/

namespace Fixture.Decimal

attribute [local simp] roundedQuotient nearestExponent nearestBits nearest

/-! ## Fractions -/

/-- The number that a fraction stands for. -/
def ratio (q : Nat × Nat) : ℚ := q.1 / q.2

/-- The fraction `num / den` divided by a power of a base. -/
def dividedBy (base num den : Nat) (n : Int) : Nat × Nat :=
  if 0 ≤ n then (num, den * base ^ n.toNat) else (num * base ^ (-n).toNat, den)

section Dividing

variable {base num den : Nat}

private theorem dividedBy_pos (hbase : 0 < base) (hden : 0 < den) (n : Int) :
    0 < (dividedBy base num den n).2 := by
  unfold dividedBy
  split
  · exact Nat.mul_pos hden (Nat.pow_pos hbase)
  · exact hden

private theorem ratio_dividedBy (base num den : Nat) (n : Int) :
    ratio (dividedBy base num den n) = (num : ℚ) / den / (base : ℚ) ^ n := by
  unfold dividedBy ratio
  split
  next h =>
    obtain ⟨k, rfl⟩ := Int.eq_ofNat_of_zero_le h
    rw [Int.toNat_natCast, zpow_natCast, div_div, Nat.cast_mul, Nat.cast_pow]
  next h =>
    obtain ⟨k, rfl⟩ : ∃ k : Nat, n = -(k : Int) := ⟨(-n).toNat, by omega⟩
    rw [neg_neg, Int.toNat_natCast, zpow_neg, zpow_natCast, div_inv_eq_mul,
      div_mul_eq_mul_div, Nat.cast_mul, Nat.cast_pow]

theorem ratio_scaled (num den : Nat) (e : Int) :
    ratio (scaled num den e) = (num : ℚ) / den / 2 ^ e :=
  ratio_dividedBy 2 num den e

theorem scaled_pos (hden : 0 < den) (e : Int) : 0 < (scaled num den e).2 :=
  dividedBy_pos (by decide) hden e

theorem ratio_scaleDown (num den : Nat) (n : Int) :
    ratio (scaleDown num den n) = (num : ℚ) / den / 10 ^ n :=
  ratio_dividedBy 10 num den n

theorem scaleDown_pos (hden : 0 < den) (n : Int) :
    0 < (scaleDown num den n).2 :=
  dividedBy_pos (by decide) hden n

/-- Fractions are compared with whole numbers by multiplication. -/
theorem ratio_lt {q : Nat × Nat} (hq : 0 < q.2) (k : Nat) :
    ratio q < k ↔ q.1 < q.2 * k := by
  rw [ratio, div_lt_iff₀ (by exact_mod_cast hq), mul_comm]
  norm_cast

end Dividing

theorem fraction_pos {num den : Nat} (hnum : num ≠ 0) (hden : den ≠ 0) :
    (0 : ℚ) < (num : ℚ) / den :=
  div_pos (by exact_mod_cast Nat.pos_of_ne_zero hnum)
    (by exact_mod_cast Nat.pos_of_ne_zero hden)

/-- The size of a fraction, from the sizes of its parts. -/
theorem log_ratio {base num den i j : Nat} (hbase : 1 < base)
    (hnum : base ^ i ≤ num ∧ num < base ^ (i + 1))
    (hden : base ^ j ≤ den ∧ den < base ^ (j + 1)) :
    (i : Int) - j - 1 ≤ Int.log base ((num : ℚ) / den) ∧
    Int.log base ((num : ℚ) / den) ≤ i - j := by
  have hbpos : (0 : ℚ) < base := by exact_mod_cast Nat.zero_lt_of_lt hbase
  have hdpos : (0 : ℚ) < den := by
    exact_mod_cast lt_of_lt_of_le (Nat.pow_pos (Nat.zero_lt_of_lt hbase)) hden.1
  have hnpos : (0 : ℚ) < num := by
    exact_mod_cast lt_of_lt_of_le (Nat.pow_pos (Nat.zero_lt_of_lt hbase)) hnum.1
  have hr : (0 : ℚ) < (num : ℚ) / den := div_pos hnpos hdpos
  have hn1 : (base : ℚ) ^ i ≤ num := by exact_mod_cast hnum.1
  have hn2 : (num : ℚ) < (base : ℚ) ^ (i + 1) := by exact_mod_cast hnum.2
  have hd1 : (base : ℚ) ^ j ≤ den := by exact_mod_cast hden.1
  have hd2 : (den : ℚ) < (base : ℚ) ^ (j + 1) := by exact_mod_cast hden.2
  constructor
  · rw [← Int.zpow_le_iff_le_log hbase hr, le_div_iff₀ hdpos]
    calc
      (base : ℚ) ^ ((i : Int) - j - 1) * den ≤
          (base : ℚ) ^ ((i : Int) - j - 1) * (base : ℚ) ^ (j + 1) := by
        gcongr
      _ = (base : ℚ) ^ i := by
        rw [← zpow_natCast, ← zpow_natCast, ← zpow_add₀ hbpos.ne']
        congr 1
        push_cast
        ring
      _ ≤ num := hn1
  · rw [← Int.lt_add_one_iff, ← Int.lt_zpow_iff_log_lt hbase hr,
      div_lt_iff₀ hdpos]
    calc (num : ℚ) < (base : ℚ) ^ (i + 1) := hn2
      _ = (base : ℚ) ^ ((i : Int) - j + 1) * (base : ℚ) ^ j := by
        rw [← zpow_natCast, ← zpow_natCast, ← zpow_add₀ hbpos.ne']
        congr 1
        push_cast
        ring
      _ ≤ (base : ℚ) ^ ((i : Int) - j + 1) * den := by gcongr

/-! ## Rounding -/

private theorem roundedQuotient_mul {k : Nat} (hk : 0 < k) (a b : Nat) :
    roundedQuotient (k * a) (k * b) = roundedQuotient a b := by
  have hlt : 2 * (k * (a % b)) < k * b ↔ 2 * (a % b) < b := by
    rw [Nat.mul_left_comm]
    exact Nat.mul_lt_mul_left hk
  have heq : 2 * (k * (a % b)) = k * b ↔ 2 * (a % b) = b := by
    rw [Nat.mul_left_comm]
    exact Nat.mul_right_inj hk.ne'
  simp only [roundedQuotient, Nat.mul_div_mul_left a b hk, Nat.mul_mod_mul_left,
    hlt, heq]

/-- Rounding depends on the value of the fraction only. -/
private theorem roundedQuotient_congr {p q : Nat × Nat} (hp : 0 < p.2)
    (hq : 0 < q.2) (h : ratio p = ratio q) :
    roundedQuotient p.1 p.2 = roundedQuotient q.1 q.2 := by
  have hcross : p.1 * q.2 = q.1 * p.2 := by
    unfold ratio at h
    rw [div_eq_div_iff (by exact_mod_cast hp.ne') (by exact_mod_cast hq.ne')]
      at h
    exact_mod_cast h
  rw [← roundedQuotient_mul hq p.1 p.2, ← roundedQuotient_mul hp q.1 q.2,
    Nat.mul_comm q.2 p.1, hcross, Nat.mul_comm q.1, Nat.mul_comm q.2]

/-- A number nearer than a half is the rounded one. -/
theorem roundedQuotient_eq {q : Nat × Nat} {m : Nat} (hq : 0 < q.2)
    (h : |ratio q - m| < 1 / 2) : roundedQuotient q.1 q.2 = m := by
  obtain ⟨a, b⟩ := q
  have hb : (0 : ℚ) < b := by exact_mod_cast hq
  obtain ⟨hlow, hhigh⟩ := abs_lt.1 h
  have hlow' : 2 * (m * b) < 2 * a + b := by
    have hle : (m : ℚ) - 1 / 2 < a / b := by
      unfold ratio at hlow
      linarith
    rw [lt_div_iff₀ hb] at hle
    have : (2 * (m * b) : ℚ) < 2 * a + b := by linarith
    exact_mod_cast this
  have hhigh' : 2 * a < 2 * (m * b) + b := by
    have hle : (a : ℚ) / b < m + 1 / 2 := by
      unfold ratio at hhigh
      linarith
    rw [div_lt_iff₀ hb] at hle
    have : (2 * a : ℚ) < 2 * (m * b) + b := by linarith
    exact_mod_cast this
  have hdiv : b * (a / b) + a % b = a := Nat.div_add_mod a b
  have hmod : a % b < b := Nat.mod_lt a hq
  -- The whole part is the number itself or the one before it.
  have hcases : a / b = m ∨ a / b + 1 = m := by
    have h1 : a / b < m + 1 := by
      rw [Nat.div_lt_iff_lt_mul hq]
      linarith
    have h2 : m < a / b + 2 := by
      by_contra hge
      have hmul := Nat.mul_le_mul_left b (not_lt.1 hge)
      have hexp : b * (a / b + 2) = b * (a / b) + 2 * b := by ring
      have hcomm : b * m = m * b := Nat.mul_comm b m
      omega
    omega
  simp only [roundedQuotient]
  rcases hcases with hm | hm
  · have hrest : 2 * (a % b) < b := by
      rw [hm, Nat.mul_comm] at hdiv
      omega
    simp [hrest, hm]
  · have hrest : b < 2 * (a % b) := by
      rw [← hm, Nat.add_mul, Nat.mul_comm (a / b)] at hlow'
      omega
    have h1 : ¬ 2 * (a % b) < b := by omega
    have h2 : ¬ 2 * (a % b) = b := by omega
    simp [h1, h2, hm]

/-! ## The nearest double -/

section Nearest

variable {num den : Nat}

/-- The exponent of the nearest double, from the size of the fraction. -/
theorem nearestExponent_eq (hnum : num ≠ 0) (hden : den ≠ 0) :
    nearestExponent num den =
      max (-1074) (Int.log 2 ((num : ℚ) / den) - 52) := by
  have hr := fraction_pos hnum hden
  obtain ⟨hlow, hhigh⟩ := log_ratio (by decide)
    ⟨Nat.log2_self_le hnum, Nat.lt_log2_self⟩
    ⟨Nat.log2_self_le hden, Nat.lt_log2_self⟩
  simp only [nearestExponent]
  generalize hg : (num.log2 : Int) - den.log2 - 52 = g
  -- The guess is one too high if it leaves less than 53 bits.
  have htest : (scaled num den g).1 < (scaled num den g).2 * Nat.pow 2 52 ↔
      Int.log 2 ((num : ℚ) / den) < g + 52 := by
    rw [← ratio_lt (scaled_pos (Nat.pos_of_ne_zero hden) g), ratio_scaled,
      div_lt_iff₀ (by positivity), ← Int.lt_zpow_iff_log_lt (by decide) hr,
      add_comm, zpow_add₀ (by norm_num)]
    norm_num
  congr 1
  split
  next h =>
    have := htest.1 h
    omega
  next h =>
    have := mt htest.2 h
    omega

/-- The nearest double depends on the value of the fraction only. -/
theorem nearest_congr {num' den' : Nat} (hden : den ≠ 0) (hden' : den' ≠ 0)
    (h : (num : ℚ) / den = (num' : ℚ) / den') :
    nearest num den = nearest num' den' := by
  have hd : (den : ℚ) ≠ 0 := by exact_mod_cast hden
  have hd' : (den' : ℚ) ≠ 0 := by exact_mod_cast hden'
  by_cases hnum : num = 0
  · have hnum' : num' = 0 := by
      rw [hnum, Nat.cast_zero, zero_div, eq_comm, div_eq_zero_iff,
        or_iff_left hd'] at h
      exact_mod_cast h
    rw [hnum, hnum', nearest, nearest, if_pos rfl, if_pos rfl]
  · have hnum' : num' ≠ 0 := by
      rintro rfl
      rw [Nat.cast_zero, zero_div, div_eq_zero_iff, or_iff_left hd] at h
      exact hnum (by exact_mod_cast h)
    have hexponent : nearestExponent num den = nearestExponent num' den' := by
      rw [nearestExponent_eq hnum hden, nearestExponent_eq hnum' hden', h]
    have hbits : nearestBits num den = nearestBits num' den' := by
      simp only [nearestBits]
      rw [hexponent]
      congr 1
      refine roundedQuotient_congr (scaled_pos (Nat.pos_of_ne_zero hden) _)
        (scaled_pos (Nat.pos_of_ne_zero hden') _) ?_
      rw [ratio_scaled, ratio_scaled, h]
    rw [nearest, nearest, if_neg hnum, if_neg hnum', hbits]

/-- A fraction that is read as the double with the given parts: nearer than half
a step, and below a power of two, where the steps are half as long, nearer than
a quarter. -/
structure Near (r : ℚ) (m : Nat) (e : Int) : Prop where
  half : |r / 2 ^ e - m| < 1 / 2
  quarter : m = 2 ^ 52 → |r / 2 ^ e - m| < 1 / 4

private theorem nearestBits_eq {m : Nat} {e : Int} (hm : IsParts m e)
    (hnum : num ≠ 0) (hden : den ≠ 0) (h : Near ((num : ℚ) / den) m e) :
    nearestBits num den = (e + 1074).toNat * 2 ^ 52 + m := by
  have hr := fraction_pos hnum hden
  have hexponent := nearestExponent_eq hnum hden
  have hle := hm.least
  generalize hrr : (num : ℚ) / den = r at *
  have hpow : (0 : ℚ) < 2 ^ e := by positivity
  obtain ⟨hlow, hhigh⟩ := abs_lt.1 h.half
  have hround (E : Int) (M : Nat) (hE : nearestExponent num den = E)
      (hM : |r / 2 ^ E - M| < 1 / 2) : nearestBits num den =
      (E + 1074).toNat * 2 ^ 52 + M := by
    simp only [nearestBits, hE]
    congr 1
    refine roundedQuotient_eq (scaled_pos (Nat.pos_of_ne_zero hden) _) ?_
    rwa [ratio_scaled, hrr]
  -- The size of the fraction in steps of the double.
  have hlog (k : Nat) : Int.log 2 r < e + k ↔ r / 2 ^ e < 2 ^ k := by
    rw [← Int.lt_zpow_iff_log_lt (by decide) hr, div_lt_iff₀ hpow,
      Nat.cast_ofNat, add_comm, zpow_add₀ (by norm_num), zpow_natCast]
  have hlt : Int.log 2 r < e + 53 := by
    refine (hlog 53).2 ?_
    have : (m : ℚ) + 1 ≤ 2 ^ 53 := by exact_mod_cast hm.lt
    linarith
  by_cases hsmall : r / 2 ^ e < 2 ^ 52
  · have hlog52 : Int.log 2 r < e + 52 := (hlog 52).2 hsmall
    by_cases he : e = -1074
    · exact hround e m (by rw [hexponent]; omega) h.half
    · -- Only the least mantissa is reached from below, and there the exponent
      -- is one less.
      have hge : 2 ^ 52 ≤ m := by
        by_contra hfull
        exact he (hm.full (not_le.1 hfull))
      have hm52 : m = 2 ^ 52 := by
        have : (m : ℚ) < 2 ^ 52 + 1 := by linarith
        have : m < 2 ^ 52 + 1 := by exact_mod_cast this
        omega
      obtain ⟨hquarter, -⟩ := abs_lt.1 (h.quarter hm52)
      have hlog51 : e + 51 ≤ Int.log 2 r := by
        rw [← not_lt]
        refine mt (hlog 51).1 (not_lt.2 ?_)
        rw [hm52] at hquarter
        push_cast at hquarter
        linarith
      have hstep : r / 2 ^ (e - 1) = 2 * (r / 2 ^ e) := by
        rw [zpow_sub_one₀ (by norm_num)]
        field_simp
      have hbits := hround (e - 1) (2 ^ 53) (by rw [hexponent]; omega) (by
        rw [hstep, abs_lt]
        rw [hm52] at hquarter
        push_cast at hquarter ⊢
        constructor <;> linarith)
      rw [hbits, hm52]
      omega
  · have hlog52 : e + 52 ≤ Int.log 2 r := not_lt.1 (mt (hlog 52).1 hsmall)
    exact hround e m (by rw [hexponent]; omega) h.half

/-- **A fraction near to a double is read as its size.** -/
theorem nearest_eq_abs {x : Float} (hx : x.isFinite = true) {negative : Bool}
    {m : Nat} {e : Int} (hparts : parts x = .finite negative m e)
    (hnum : num ≠ 0) (hden : den ≠ 0) (h : Near ((num : ℚ) / den) m e) :
    nearest num den = x.abs := by
  obtain ⟨m', e', hparts', hm, hbits⟩ := parts_eq hx
  cases hparts.symm.trans hparts'
  have hfinite := (isFinite_iff x).1 hx
  have hsize : x.abs.toBits.toNat < 2047 * 2 ^ 52 := by
    rw [toNat_toBits_abs hx]
    omega
  have hnearest : nearestBits num den = x.abs.toBits.toNat := by
    rw [nearestBits_eq hm hnum hden h, hbits]
  have hmin : min (nearestBits num den) (2047 * Nat.pow 2 52) =
      x.abs.toBits.toNat := by
    rw [hnearest]
    exact min_eq_left hsize.le
  rw [nearest, if_neg hnum, hmin, UInt64.ofNat_toNat, Float.ofBits_toBits]

end Nearest

end Fixture.Decimal
