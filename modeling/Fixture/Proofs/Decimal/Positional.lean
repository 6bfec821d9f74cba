import Fixture.Value
import Fixture.Proofs.Decimal.Shortest
/-!
# Positional texts read back

A double is shown with its shortest digits, padded with zeros so that no
exponent is needed. The padding changes the digits and the number of them behind
the point, but not their value, and the value is all that reading depends on. So
the text is read as the size of the double, be it whole, tiny or huge; zero has
no digits and is all padding.

## Main results

* `Digits.positional_eq`: the two rows of digits of a positional text, and their
  value.
* `shortest_reads`: every numeral with the value of the shortest digits is read
  as the size of the double.
* `inspectReal_eq`: the text of a double is its sign and a numeral that is read
  as its size.
-/

namespace Fixture

attribute [local simp] Decimal.Digits.positional Decimal.Digits.ofScaled
  Decimal.shortest Decimal.Layout.text Decimal.Layout.digits Numeral.real?

/-! ## Rows of digits -/

namespace Numeral

private theorem digits_eq (acc : Nat) (cs : List Char) :
    digits acc cs = Nat.ofDigitChars 10 cs acc := by
  rw [Nat.ofDigitChars_eq_foldl]
  rfl

theorem digits_append (acc : Nat) (cs ds : List Char) :
    digits acc (cs ++ ds) = digits (digits acc cs) ds :=
  List.foldl_append

theorem digits_zeros (acc n : Nat) :
    digits acc (List.replicate n '0') = 10 ^ n * acc := by
  rw [digits_eq, Nat.ofDigitChars_replicate_zero]

theorem digits_toDigits (n : Nat) : digits 0 (Nat.toDigits 10 n) = n := by
  rw [digits_eq, Nat.ofDigitChars_ten_toDigits]

end Numeral

/-- A row of decimal digits. -/
def AllDigits (cs : List Char) : Prop := ∀ c ∈ cs, c.isDigit = true

theorem AllDigits.append {cs ds : List Char} (hcs : AllDigits cs)
    (hds : AllDigits ds) : AllDigits (cs ++ ds) := by
  intro c hc
  rcases List.mem_append.1 hc with h | h
  · exact hcs c h
  · exact hds c h

theorem allDigits_zeros (n : Nat) : AllDigits (List.replicate n '0') := by
  intro c hc
  rw [(List.mem_replicate.1 hc).2]
  decide

private theorem AllDigits.ne_point {cs : List Char} (h : AllDigits cs) :
    ∀ c ∈ cs, decide (c ≠ '.') = true := by
  intro c hc
  rw [decide_eq_true_eq]
  rintro rfl
  exact absurd (h _ hc) (by decide)

namespace Decimal

/-! ## The value of digits -/

/-- The number that digits with a point stand for. -/
def Digits.value (d : Digits) : ℚ :=
  Numeral.digits 0 d.digits * 10 ^ (d.point - d.digits.length)

/-- Zeros at the end are split off. -/
private theorem exists_zeros (cs : List Char) :
    ∃ n, cs =
      (cs.reverse.dropWhile (· = '0')).reverse ++ List.replicate n '0' := by
  refine ⟨(cs.reverse.takeWhile (· = '0')).length, ?_⟩
  have hzeros : (cs.reverse.takeWhile (· = '0')).reverse =
      List.replicate (cs.reverse.takeWhile (· = '0')).length '0' := by
    rw [List.eq_replicate_iff]
    refine ⟨List.length_reverse, fun c hc => ?_⟩
    have hc := List.mem_takeWhile_imp (List.mem_reverse.1 hc)
    exact of_decide_eq_true hc
  rw [← hzeros, ← List.reverse_append, List.takeWhile_append_dropWhile,
    List.reverse_reverse]

section OfScaled

variable (d : Nat) (n : Int)

private theorem Digits.allDigits_ofScaled :
    AllDigits (ofScaled d n).digits := by
  intro c hc
  have hmem : c ∈ (Nat.toDigits 10 d).reverse :=
    List.dropWhile_subset _ (List.mem_reverse.1 hc)
  exact Nat.isDigit_of_mem_toDigits (by decide) (by decide)
    (List.mem_reverse.1 hmem)

private theorem Digits.value_ofScaled : (ofScaled d n).value = d * 10 ^ n := by
  obtain ⟨k, hk⟩ := exists_zeros (Nat.toDigits 10 d)
  have hvalue := Numeral.digits_toDigits d
  simp only [value, ofScaled]
  generalize ((Nat.toDigits 10 d).reverse.dropWhile (· = '0')).reverse = cs
    at hk ⊢
  have hlength : ((Nat.toDigits 10 d).length : Int) + n - cs.length =
      k + n := by
    rw [hk, List.length_append, List.length_replicate]
    push_cast
    ring
  rw [hk, Numeral.digits_append, Numeral.digits_zeros] at hvalue
  rw [hlength, zpow_add₀ (by norm_num), zpow_natCast, ← hvalue]
  push_cast
  ring

end OfScaled

/-- The number that a row of digits and another one behind a point stand for. -/
def rowsValue (whole fraction : List Char) : ℚ :=
  Numeral.digits 0 (whole ++ fraction) * 10 ^ (-(fraction.length : Int))

/-- **A positional text** is a row of digits, and another one behind a point
unless that is empty. -/
theorem Digits.positional_eq {d : Digits} (h : AllDigits d.digits) :
    ∃ whole fraction, whole ≠ [] ∧ AllDigits whole ∧ AllDigits fraction ∧
      d.positional =
        whole ++ (if fraction.isEmpty then [] else '.' :: fraction) ∧
      rowsValue whole fraction = d.value := by
  obtain ⟨cs, point⟩ := d
  have hcs : AllDigits cs := h
  have hzero : Numeral.digits 0 ['0'] = 0 := rfl
  simp only [positional, value, rowsValue]
  rcases le_or_gt point 0 with hpoint | hpoint
  · -- All digits are behind the point.
    obtain ⟨k, rfl⟩ : ∃ k : Nat, point = -(k : Int) :=
      ⟨(-point).toNat, by omega⟩
    have hn : (-(k : Int)).toNat = 0 := by omega
    by_cases hempty : cs = []
    · subst hempty
      refine ⟨['0'], [], by simp, allDigits_zeros 1, by simp [AllDigits], by
        simp [hn], ?_⟩
      rw [List.append_nil, hzero]
      simp [Numeral.digits]
    · refine ⟨['0'], List.replicate k '0' ++ cs, by simp, allDigits_zeros 1,
        (allDigits_zeros k).append hcs, ?_, ?_⟩
      · simp [hn, hempty]
      · rw [Numeral.digits_append, Numeral.digits_append, Numeral.digits_zeros,
          hzero, mul_zero, List.length_append, List.length_replicate,
          Nat.cast_add, neg_add]
        rfl
  · obtain ⟨n, rfl⟩ := Int.eq_ofNat_of_zero_le hpoint.le
    have hn : 0 < n := by exact_mod_cast hpoint
    have hneg : (-(n : Int)).toNat = 0 := by omega
    rcases le_or_gt cs.length n with hlen | hlen
    · -- All digits are before the point.
      have htake : cs.take n = cs := List.take_of_length_le hlen
      have hdrop : cs.drop n = [] := List.drop_of_length_le hlen
      have hwhole : cs ++ List.replicate (n - cs.length) '0' ≠ [] := by
        rw [← List.length_pos_iff, List.length_append, List.length_replicate]
        omega
      refine ⟨cs ++ List.replicate (n - cs.length) '0', [], hwhole,
        hcs.append (allDigits_zeros _), by simp [AllDigits], ?_, ?_⟩
      · simp only [Int.toNat_natCast, htake, hdrop]
        rw [if_neg (by simpa using hwhole)]
        rfl
      · rw [List.append_nil, Numeral.digits_append, Numeral.digits_zeros,
          ← Nat.cast_sub hlen, zpow_natCast]
        push_cast
        simp [mul_comm]
    · -- The point stands among the digits.
      have hwhole : cs.take n ≠ [] := by
        rw [← List.length_pos_iff, List.length_take]
        omega
      have hfraction : cs.drop n ≠ [] := by
        rw [← List.length_pos_iff, List.length_drop]
        omega
      have hpad : n - cs.length = 0 := by omega
      refine ⟨cs.take n, cs.drop n, hwhole,
        fun c hc => hcs c (List.mem_of_mem_take hc),
        fun c hc => hcs c (List.mem_of_mem_drop hc), ?_, ?_⟩
      · simp only [Int.toNat_natCast, hneg, hpad, List.replicate_zero,
          List.append_nil, List.nil_append]
        rw [if_neg (by simpa using hwhole)]
      · rw [List.take_append_drop, List.length_drop, Nat.cast_sub hlen.le,
          neg_sub]

/-! ## The shortest digits -/

/-- **Numerals with the value of the shortest digits** are read as the size of
the double. -/
theorem shortest_reads {x : Float} (hx : x.isFinite = true) :
    AllDigits (shortest x).digits ∧
    ∀ (d : Nat) (n : Int), (d : ℚ) * 10 ^ n = (shortest x).value →
      Numeral.scaled d n = x.abs := by
  obtain ⟨m, e, hparts, hm, hbits⟩ := parts_eq hx
  by_cases hm0 : m = 0
  · subst hm0
    have hshortest : shortest x = ⟨[], 0⟩ := by simp only [shortest, hparts]
    have habs : x.abs = 0 := by
      rw [← Float.toBits_inj, ← UInt64.toNat_inj, hbits, hm.full (by decide)]
      rfl
    rw [hshortest]
    refine ⟨by simp [AllDigits], fun d n hvalue => ?_⟩
    have hd : d = 0 := by
      simp only [Digits.value, Numeral.digits, List.foldl_nil, Nat.cast_zero,
        zero_mul, mul_eq_zero] at hvalue
      rcases hvalue with h | h
      · exact_mod_cast h
      · exact absurd h (by positivity)
    rw [hd, scaled_zero, habs]
  · obtain ⟨d', n', hshortest, hread⟩ := shortest_eq hx hparts hm0
    rw [hshortest]
    refine ⟨Digits.allDigits_ofScaled d' n', fun d n hvalue => ?_⟩
    rw [← hread]
    exact scaled_congr (hvalue.trans (Digits.value_ofScaled d' n'))

end Decimal

/-! ## Texts of doubles -/

open Decimal

/-- A numeral with a fraction, read by its value. -/
private theorem Numeral.real?_eq {whole fraction : List Char}
    (hwhole : AllDigits whole) {x : Float}
    (hread : scaled (digits 0 (whole ++ fraction)) (-fraction.length) = x)
    (hx : x.isFinite = true) :
    real? (String.ofList (whole ++ '.' :: fraction)) = some x := by
  have htake : (whole ++ '.' :: fraction).takeWhile (· ≠ '.') = whole := by
    rw [List.takeWhile_append_of_pos hwhole.ne_point]
    simp
  have hdrop : (whole ++ '.' :: fraction).dropWhile (· ≠ '.') =
      '.' :: fraction := by
    rw [List.dropWhile_append_of_pos hwhole.ne_point]
    simp
  simp only [real?, String.toList_ofList, htake, hdrop, List.drop_succ_cons,
    List.drop_zero]
  rw [← digits_append, hread, if_pos hx]

/-- The characters that a text of a real has and that of an integer has not. -/
def marksReal (c : Char) : Bool := c = '.' || c = 'N' || c = 'I'

private theorem AllDigits.not_marksReal {cs : List Char} (h : AllDigits cs) :
    ∀ c ∈ cs, ¬ marksReal c = true := by
  intro c hc hmark
  simp only [marksReal, Bool.or_eq_true, decide_eq_true_eq] at hmark
  have hdigit := h c hc
  rcases hmark with (rfl | rfl) | rfl <;> exact absurd hdigit (by decide)

private theorem Value.inspectReal_eq_ite (x : Float) :
    inspectReal x =
      if (Decimal.Layout.coordinate.text x).toList.any marksReal then
        Decimal.Layout.coordinate.text x
      else Decimal.Layout.coordinate.text x ++ ".0" := rfl

/-- **The text of a finite double** is its sign and a numeral with a fraction,
which is read as its size. -/
theorem Value.inspectReal_eq {x : Float} (hx : x.isFinite = true) :
    ∃ whole fraction, whole ≠ [] ∧ fraction ≠ [] ∧ AllDigits whole ∧
      AllDigits fraction ∧
      inspectReal x =
        (if isNegative x then "-" else "") ++
          String.ofList (whole ++ '.' :: fraction) ∧
      Numeral.real? (String.ofList (whole ++ '.' :: fraction)) =
        some x.abs := by
  obtain ⟨m, e, hparts, -, -⟩ := parts_eq hx
  obtain ⟨hdigits, hread⟩ := shortest_reads hx
  obtain ⟨whole, fraction, hne, hwhole, hfraction, htext, hvalue⟩ :=
    Digits.positional_eq hdigits
  have hcoordinate : Decimal.Layout.coordinate.text x =
      (if isNegative x then "-" else "") ++
        String.ofList (shortest x).positional := by
    simp only [Decimal.Layout.text, hparts, Decimal.Layout.digits,
      Decimal.Layout.coordinate, if_true, String.ofList_append]
    congr 1
    cases isNegative x <;> rfl
  rw [htext] at hcoordinate
  by_cases hempty : fraction = []
  · -- A whole number gets a zero behind the point.
    subst hempty
    have hplain : (Decimal.Layout.coordinate.text x).toList.any marksReal =
        false := by
      rw [hcoordinate, List.any_eq_false]
      intro c hc
      simp only [List.isEmpty_nil, if_true, List.append_nil,
        String.toList_append, String.toList_ofList, List.mem_append] at hc
      rcases hc with hc | hc
      · cases hsign : isNegative x <;> simp [hsign] at hc
        subst hc
        decide
      · exact hwhole.not_marksReal c hc
    refine ⟨whole, ['0'], hne, by simp, hwhole, allDigits_zeros 1, ?_, ?_⟩
    · rw [inspectReal_eq_ite, hplain, hcoordinate]
      simp [String.ofList_append, String.append_assoc]
    · refine Numeral.real?_eq hwhole (hread _ _ ?_) (isFinite_abs hx)
      have hten : Numeral.digits (Numeral.digits 0 whole) ['0'] =
          10 ^ 1 * Numeral.digits 0 whole :=
        Numeral.digits_zeros _ 1
      rw [← hvalue, rowsValue, Numeral.digits_append, hten, mul_comm]
      simp
  · have hmarked : (Decimal.Layout.coordinate.text x).toList.any marksReal =
        true := by
      rw [hcoordinate, List.any_eq_true]
      exact ⟨'.', by simp [hempty], by decide⟩
    refine ⟨whole, fraction, hne, hempty, hwhole, hfraction, ?_, ?_⟩
    · rw [inspectReal_eq_ite, hmarked, hcoordinate]
      simp [hempty]
    · exact Numeral.real?_eq hwhole (hread _ _ hvalue) (isFinite_abs hx)

end Fixture
