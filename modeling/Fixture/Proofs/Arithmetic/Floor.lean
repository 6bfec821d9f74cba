import Fixture.Proofs.Arithmetic
/-!
# The range of the floor

Dividing words to the floor can leave the range of words in one place only. A
quotient is no larger than its dividend, so the dividend has to be the least
word and the divisor minus one for the quotient to be one too large. There it is
reduced to the least word again. Everywhere else the floor is exact, and what it
leaves of the dividend is on the side of the divisor and smaller.

The correction by one is no such place. It is made only if the division leaves
something, so the divisor is not minus one, and both the quotient toward zero
and the floor below it are exact.

## Main results

* `isWord_fdiv`: the floor of words is a word, with one exception.
* `toInt_div_sub_one`: the correction does not wrap around.
* `floorDiv_floor`: the floor, its one exception, and what it leaves.
-/

namespace Fixture

/-! ## The floor of words -/

/-- Dividing by a positive number does not lead out of the range of words, the
upper end aside. -/
private theorem isWord_fdiv_of_pos {l r : Int} (hr : 0 < r) (hlow : -2 ^ 63 ≤ l)
    (hhigh : l ≤ 2 ^ 63) (hne : ¬ (l = 2 ^ 63 ∧ r = 1)) :
    IsWord (l.fdiv r) := by
  rw [Int.fdiv_eq_ediv_of_nonneg l hr.le]
  constructor
  · rw [Int.le_ediv_iff_mul_le hr]
    omega
  · rw [Int.ediv_lt_iff_lt_mul hr]
    omega

/-- **The floor of words is a word,** unless the least one is divided by minus
one. -/
theorem isWord_fdiv {l r : Int} (hl : IsWord l) (hr : r ≠ 0)
    (hne : ¬ (l = -2 ^ 63 ∧ r = -1)) : IsWord (l.fdiv r) := by
  obtain ⟨hlow, hhigh⟩ := hl
  rcases lt_or_gt_of_ne hr with hneg | hpos
  · rw [← Int.neg_fdiv_neg]
    exact isWord_fdiv_of_pos (by omega) (by omega) (by omega) (by omega)
  · exact isWord_fdiv_of_pos hpos hlow hhigh.le (by omega)

/-- Numbers on the side of `r` that are smaller than `r`, and zero. -/
def Under (r m : Int) : Prop := m = 0 ∨ m.sign = r.sign ∧ |m| < |r|

private theorem Under.isWord {r m : Int} (h : Under r m) (hr : IsWord r) :
    IsWord m := by
  obtain ⟨hlow, hhigh⟩ := hr
  rcases h with rfl | ⟨-, habs⟩
  · decide
  · have habs' : |m| < 2 ^ 63 := lt_of_lt_of_le habs (abs_le.2 ⟨hlow, hhigh.le⟩)
    exact ⟨(abs_lt.1 habs').1.le, (abs_lt.1 habs').2⟩

/-- What the floor leaves of the dividend. -/
private theorem under_fmod (l : Int) {r : Int} (hr : r ≠ 0) :
    Under r (l.fmod r) := by
  by_cases hzero : l.fmod r = 0
  · exact .inl hzero
  · refine .inr ?_
    rcases lt_or_gt_of_ne hr with hneg | hpos
    · have hlow : 0 ≤ (-l).fmod (-r) := Int.fmod_nonneg_of_pos _ (by omega)
      have hhigh : (-l).fmod (-r) < -r := Int.fmod_lt_of_pos _ (by omega)
      rw [Int.neg_fmod_neg] at hlow hhigh
      rw [Int.sign_eq_neg_one_of_neg hneg,
        Int.sign_eq_neg_one_of_neg (by omega), abs_of_neg hneg,
        abs_of_nonpos (by omega)]
      exact ⟨rfl, hhigh⟩
    · have hlow : 0 ≤ l.fmod r := Int.fmod_nonneg_of_pos _ hpos
      have hhigh : l.fmod r < r := Int.fmod_lt_of_pos _ hpos
      rw [Int.sign_eq_one_of_pos hpos, Int.sign_eq_one_of_pos (by omega),
        abs_of_pos hpos, abs_of_nonneg hlow]
      exact ⟨rfl, hhigh⟩

/-! ## Machine words -/

section Words

variable {l r : Int64}

/-- The words whose quotient is no word: it is one more than the greatest. -/
def Overflows (l r : Int64) : Prop := l = Int64.minValue ∧ r = -1

private theorem overflows_iff :
    Overflows l r ↔ l.toInt = -2 ^ 63 ∧ r.toInt = -1 := by
  rw [Overflows, ← Int64.toInt_inj, ← Int64.toInt_inj]
  rfl

private theorem Corrected.not_overflows (h : Corrected l r) :
    ¬ Overflows l r := by
  rintro ⟨rfl, rfl⟩
  exact h.1 (by decide)

private theorem toInt_ne_zero (hr : r ≠ 0) : r.toInt ≠ 0 :=
  fun h => hr (Int64.toInt_inj.1 h)

/-- **The floor is exact,** with one exception. -/
theorem toInt_floorDiv_eq_fdiv (hr : r ≠ 0) (h : ¬ Overflows l r) :
    (floorDiv l r).toInt = l.toInt.fdiv r.toInt := by
  rw [overflows_iff] at h
  have hword : IsWord (l.toInt.fdiv r.toInt) :=
    isWord_fdiv ⟨l.le_toInt, l.toInt_lt⟩ (toInt_ne_zero hr) h
  rw [toInt_floorDiv l hr, floor_div_eq_fdiv _ (toInt_ne_zero hr),
    hword.bmod_eq]

/-- **The correction does not wrap around.** -/
theorem toInt_div_sub_one (hr : r ≠ 0) (h : Corrected l r) :
    (l / r - 1).toInt = (l / r).toInt - 1 := by
  have hdivisor : r ≠ -1 := by
    rintro rfl
    refine ((corrected_iff l (-1)).1 h).1 ?_
    rw [show (-1 : Int64).toInt = -1 from rfl, Int.tmod_neg, Int.tmod_one]
  rw [← floorDiv_of_corrected h, toInt_floorDiv_eq_fdiv hr h.not_overflows,
    fdiv_eq_tdiv_sub (toInt_ne_zero hr), if_pos ((corrected_iff l r).1 h),
    Int64.toInt_div_of_ne_right l r hdivisor]

/-- What words leave when they are divided to the floor is computed exactly. -/
private theorem toInt_sub_mul_floorDiv (hr : r ≠ 0) (h : ¬ Overflows l r) :
    (l - r * floorDiv l r).toInt = l.toInt.fmod r.toInt := by
  have hword : IsWord (l.toInt.fmod r.toInt) :=
    (under_fmod _ (toInt_ne_zero hr)).isWord ⟨r.le_toInt, r.toInt_lt⟩
  rw [Int64.toInt_sub, Int64.toInt_mul, Int.sub_bmod_bmod,
    toInt_floorDiv_eq_fdiv hr h, ← Int.fmod_def, hword.bmod_eq]

end Words

/--
**Words divide to the floor.** For a divisor other than zero the corrected
quotient is the floor of the rational quotient, reduced modulo `2 ^ 64` to a
word. The floor is a word already, and so is the result, unless the least word
is divided by minus one; that gives the least word again. The correction by one
never wraps around. Without the exception, what is left of the dividend is zero,
or on the side of the divisor and smaller, and words compute it exactly.
-/
theorem floorDiv_floor {l r : Int64} (hr : r ≠ 0) :
    (IsWord (floorDiv l r).toInt ∧
      (floorDiv l r).toInt ≡ ⌊(l.toInt / r.toInt : ℚ)⌋ [ZMOD 2 ^ 64]) ∧
    ((floorDiv l r).toInt = ⌊(l.toInt / r.toInt : ℚ)⌋ ↔
      ¬ (l = Int64.minValue ∧ r = -1)) ∧
    (l = Int64.minValue ∧ r = -1 → floorDiv l r = Int64.minValue) ∧
    (Corrected l r →
      floorDiv l r = l / r - 1 ∧ (l / r - 1).toInt = (l / r).toInt - 1) ∧
    (¬ Corrected l r → floorDiv l r = l / r) ∧
    (¬ (l = Int64.minValue ∧ r = -1) →
      (l - r * floorDiv l r).toInt = l.toInt - r.toInt * (floorDiv l r).toInt ∧
      Under r.toInt (l.toInt - r.toInt * (floorDiv l r).toInt)) := by
  have hfloor : ⌊(l.toInt / r.toInt : ℚ)⌋ = l.toInt.fdiv r.toInt :=
    floor_div_eq_fdiv _ (toInt_ne_zero hr)
  refine ⟨⟨⟨Int64.le_toInt _, Int64.toInt_lt _⟩, ?_⟩, ⟨?_, ?_⟩, ?_, ?_,
    floorDiv_of_not_corrected, ?_⟩
  · rw [toInt_floorDiv l hr]
    exact Int.bmod_emod
  · rintro hexact ⟨rfl, rfl⟩
    rw [hfloor] at hexact
    exact absurd hexact (by decide)
  · intro h
    rw [hfloor, toInt_floorDiv_eq_fdiv hr h]
  · rintro ⟨rfl, rfl⟩
    decide
  · intro h
    exact ⟨floorDiv_of_corrected h, toInt_div_sub_one hr h⟩
  · intro h
    rw [toInt_sub_mul_floorDiv hr h, toInt_floorDiv_eq_fdiv hr h,
      ← Int.fmod_def]
    exact ⟨rfl, under_fmod _ (toInt_ne_zero hr)⟩

/-- The least word is divided with a rest, so its quotient is corrected. -/
theorem floorDiv_floor_least :
    (3 : Int64) ≠ 0 ∧ Corrected Int64.minValue 3 ∧
    ¬ Overflows Int64.minValue 3 ∧
    floorDiv Int64.minValue 3 = -3074457345618258603 ∧
    floorDiv Int64.minValue 3 = Int64.minValue / 3 - 1 ∧
    (Int64.minValue / 3 - 1).toInt = (Int64.minValue / 3).toInt - 1 ∧
    Under 3 (Int64.minValue.toInt - 3 * (floorDiv Int64.minValue 3).toInt) := by
  have hcorrected : Corrected Int64.minValue 3 := by
    rw [Corrected]
    decide
  have hexact : ¬ Overflows Int64.minValue 3 := hcorrected.not_overflows
  obtain ⟨-, -, -, hstep, -, hleft⟩ :=
    floorDiv_floor (l := Int64.minValue) (r := 3) (by decide)
  exact ⟨by decide, hcorrected, hexact, by decide, (hstep hcorrected).1,
    (hstep hcorrected).2, (hleft hexact).2⟩

end Fixture
