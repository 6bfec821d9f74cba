import Mathlib
import Fixture.Arithmetic
/-!
# Words and whole numbers

A word stands for a whole number from `-2 ^ 63` up to, but not including, `2 ^
63`, and computing with words is computing with whole numbers up to multiples of
`2 ^ 64`. Division is no exception: the quotient of words that is rounded down
is the floor of the rational quotient. As long as results are words, nothing is
lost.

## Main results

* `toInt_floorDiv`: the corrected quotient of words is a floor.
* `IsWord.bmod_eq`: numbers that words stand for are not reduced.
-/

namespace Fixture

/-- A whole number that a word stands for. -/
def IsWord (x : Int) : Prop := -2 ^ 63 ≤ x ∧ x < 2 ^ 63

instance (x : Int) : Decidable (IsWord x) := inferInstanceAs (Decidable (_ ∧ _))

theorem IsWord.bmod_eq {x : Int} (h : IsWord x) : x.bmod (2 ^ 64) = x := by
  refine Int.bmod_eq_of_le ?_ ?_
  · have := h.1
    omega
  · have := h.2
    omega

/-! ## Division -/

/-- Quotients rounded down and toward zero differ if the division leaves
something and the signs differ. -/
theorem fdiv_eq_tdiv_sub {l r : Int} (hr : r ≠ 0) :
    l.fdiv r =
      l.tdiv r - if l.tmod r ≠ 0 ∧ ¬ (l < 0 ↔ r < 0) then 1 else 0 := by
  have hdvd : r ∣ l ↔ l.tmod r = 0 := Int.dvd_iff_tmod_eq_zero
  rw [Int.fdiv_eq_tdiv]
  rcases lt_or_gt_of_ne hr with hneg | hpos
  · rw [Int.sign_eq_neg_one_of_neg hneg]
    split_ifs <;> omega
  · rw [Int.sign_eq_one_of_pos hpos]
    split_ifs <;> omega

/-- The floor of a rational quotient is the quotient that is rounded down. -/
theorem floor_div_eq_fdiv (l : Int) {r : Int} (hr : r ≠ 0) :
    ⌊(l / r : ℚ)⌋ = l.fdiv r := by
  have hpos (l : Int) {r : Int} (hr : 0 < r) : ⌊(l / r : ℚ)⌋ = l.fdiv r := by
    obtain ⟨n, rfl⟩ := Int.eq_ofNat_of_zero_le hr.le
    rw [Int.fdiv_eq_ediv_of_nonneg l hr.le]
    exact Rat.floor_intCast_div_natCast l n
  rcases lt_or_gt_of_ne hr with h | h
  · have hneg := hpos (-l) (Int.neg_pos.2 h)
    rwa [Int.neg_fdiv_neg, Int.cast_neg, Int.cast_neg, neg_div_neg_eq] at hneg
  · exact hpos l h

/-- The quotient toward zero is corrected: something is left, and the signs
differ. -/
def Corrected (l r : Int64) : Prop := l % r ≠ 0 ∧ ¬ (l < 0 ↔ r < 0)

theorem corrected_iff (l r : Int64) :
    Corrected l r ↔
      l.toInt.tmod r.toInt ≠ 0 ∧ ¬ (l.toInt < 0 ↔ r.toInt < 0) := by
  have hmod : l % r = 0 ↔ l.toInt.tmod r.toInt = 0 := by
    rw [← Int64.toInt_mod, ← Int64.toInt_inj]
    rfl
  have hneg (n : Int64) : n < 0 ↔ n.toInt < 0 := Int64.lt_iff_toInt_lt
  rw [Corrected, ne_eq, hmod, hneg, hneg]

theorem floorDiv_of_corrected {l r : Int64} (h : Corrected l r) :
    floorDiv l r = l / r - 1 := by
  have htest : (decide (l % r ≠ 0) && decide (l < 0) != decide (r < 0)) =
      true := by simpa [Corrected] using h
  rw [floorDiv, if_pos htest]

theorem floorDiv_of_not_corrected {l r : Int64} (h : ¬ Corrected l r) :
    floorDiv l r = l / r := by
  have htest : ¬ (decide (l % r ≠ 0) && decide (l < 0) != decide (r < 0)) =
      true := by simpa [Corrected] using h
  rw [floorDiv, if_neg htest]

/-- **Words divide to the floor**, up to multiples of `2 ^ 64`. -/
theorem toInt_floorDiv (l : Int64) {r : Int64} (hr : r ≠ 0) :
    (floorDiv l r).toInt = ⌊(l.toInt / r.toInt : ℚ)⌋.bmod (2 ^ 64) := by
  have hr' : r.toInt ≠ 0 := fun h => hr (Int64.toInt_inj.1 h)
  rw [floor_div_eq_fdiv _ hr', fdiv_eq_tdiv_sub hr']
  by_cases hc : Corrected l r
  · rw [floorDiv_of_corrected hc, if_pos ((corrected_iff l r).1 hc),
      Int64.toInt_sub, Int64.toInt_div, Int64.toInt_one, Int.bmod_sub_bmod]
  · rw [floorDiv_of_not_corrected hc, if_neg (mt (corrected_iff l r).2 hc),
      Int64.toInt_div, sub_zero]

end Fixture
