import Fixture.Proofs.Decimal.Positional
import Fixture.Proofs.Spelling
/-!
# Numbers with exponents read back

Settings show a double with an exponent: one digit, the others behind a point,
and how far the point has to be moved. The digits are the shortest ones and the
exponent puts the point back where it was, so the value is that of the shortest
digits, and that is read as the size of the double.

A reader brings exponents into the range that it can compute with. That would
change the value of a numeral, were it out of that range. It never is, since a
numeral that is read as a double other than zero and the infinite one is no
smaller than half of the least double, and no larger than the largest power of
two.

## Main results

* `range_of_scaled`: the numerals that are read as doubles other than zero lie
  in a range.
* `point_bounds`: the point of the shortest digits of a double is not far off.
* `exists_scientific`: the text of a double with an exponent is read as the
  double.
-/

namespace Fixture

attribute [local simp] Decimal.roundedQuotient Decimal.nearestBits
  Decimal.nearest Decimal.shortest Decimal.Digits.exponent
  Decimal.Digits.scientific Decimal.Layout.text Numeral.exponent?
  Numeral.decimal?

namespace Decimal

/-! ## The range of doubles -/

section Range

variable {num den : Nat}

private theorem le_roundedQuotient (num den : Nat) :
    num / den ≤ roundedQuotient num den := by
  simp only [roundedQuotient]
  split
  · exact le_rfl
  · exact Nat.le_succ _

/-- What is beyond all doubles is read as infinite. -/
private theorem not_isFinite_nearest (hnum : num ≠ 0) (hden : den ≠ 0)
    (h : (2 : ℚ) ^ 1024 ≤ (num : ℚ) / den) :
    (nearest num den).isFinite = false := by
  have hr := fraction_pos hnum hden
  have hlog : 1024 ≤ Int.log 2 ((num : ℚ) / den) := by
    rw [← Int.zpow_le_iff_le_log (by decide) hr]
    exact_mod_cast h
  have hexponent : nearestExponent num den =
      Int.log 2 ((num : ℚ) / den) - 52 := by
    rw [nearestExponent_eq hnum hden]
    omega
  generalize hE : nearestExponent num den = E at hexponent
  have hmantissa : 2 ^ 52 ≤
      roundedQuotient (scaled num den E).1 (scaled num den E).2 := by
    have hpos : 0 < (scaled num den E).2 :=
      scaled_pos (Nat.pos_of_ne_zero hden) E
    have hge : ¬ ratio (scaled num den E) < (2 ^ 52 : Nat) := by
      rw [ratio_scaled, not_lt, le_div_iff₀ (by positivity), Nat.cast_pow,
        Nat.cast_ofNat, ← zpow_natCast, ← zpow_add₀ (by norm_num)]
      have hself : ((2 : Nat) : ℚ) ^ Int.log 2 ((num : ℚ) / den) ≤
          (num : ℚ) / den :=
        Int.zpow_log_le_self (by decide) hr
      have hsum : ((52 : Nat) : Int) + E = Int.log 2 ((num : ℚ) / den) := by
        omega
      rw [hsum]
      exact_mod_cast hself
    rw [ratio_lt hpos, not_lt] at hge
    refine le_trans ?_ (le_roundedQuotient _ _)
    rw [Nat.le_div_iff_mul_le hpos, Nat.mul_comm]
    exact hge
  have hbits : 2047 * Nat.pow 2 52 ≤ nearestBits num den := by
    simp only [nearestBits, hE]
    show 2047 * 2 ^ 52 ≤ (E + 1074).toNat * 2 ^ 52 + _
    omega
  rw [nearest, if_neg hnum, min_eq_right hbits]
  decide +kernel

/-- What is less than half of the least double is read as zero. -/
private theorem nearest_eq_zero (hden : den ≠ 0)
    (h : (num : ℚ) / den < 2 ^ (-1075 : Int)) : nearest num den = 0 := by
  by_cases hnum : num = 0
  · rw [nearest, if_pos hnum]
  · have hr := fraction_pos hnum hden
    have hlog : Int.log 2 ((num : ℚ) / den) < -1075 := by
      rw [← Int.lt_zpow_iff_log_lt (by decide) hr]
      exact_mod_cast h
    have hE : nearestExponent num den = -1074 := by
      rw [nearestExponent_eq hnum hden]
      omega
    have hmantissa : roundedQuotient (scaled num den (-1074)).1
          (scaled num den (-1074)).2 = 0 := by
      refine roundedQuotient_eq (scaled_pos (Nat.pos_of_ne_zero hden) _) ?_
      have hsplit : (2 : ℚ) ^ (-1075 : Int) = 2 ^ (-1074 : Int) / 2 :=
        zpow_sub_one₀ (by norm_num) (-1074)
      rw [ratio_scaled, Nat.cast_zero, sub_zero, abs_of_pos (by positivity),
        div_lt_iff₀ (by positivity)]
      rw [hsplit] at h
      linarith
    have hbits : nearestBits num den = 0 := by
      simp only [nearestBits, hE, hmantissa]
      rfl
    rw [nearest, if_neg hnum, hbits]
    rfl

/-- **Numerals that are read as doubles other than zero** lie in the range of
doubles. -/
theorem range_of_scaled {d : Nat} {n : Int} {x : Float}
    (h : Numeral.scaled d n = x) (hx : x.isFinite = true) (hne : x ≠ 0) :
    (2 : ℚ) ^ (-1075 : Int) ≤ d * 10 ^ n ∧ (d : ℚ) * 10 ^ n < 2 ^ 1024 := by
  obtain ⟨num, den, hread, hden, hvalue⟩ := exists_fraction d n
  rw [← hvalue]
  constructor
  · by_contra hlt
    exact hne (by rw [← h, hread, nearest_eq_zero hden (not_le.1 hlt)])
  · by_contra hge
    have hge := not_lt.1 hge
    have hnum : num ≠ 0 := by
      rintro rfl
      rw [Nat.cast_zero, zero_div] at hge
      exact absurd hge (not_le.2 (by positivity))
    rw [← h, hread, not_isFinite_nearest hnum hden hge] at hx
    exact Bool.false_ne_true hx

end Range

/-- **The point of the shortest digits** of a double is not far off. -/
theorem point_bounds {x : Float} (hx : x.isFinite = true) :
    -323 ≤ (shortest x).point ∧ (shortest x).point ≤ 309 := by
  obtain ⟨m, e, hparts, -, hbits⟩ := parts_eq hx
  by_cases hm0 : m = 0
  · subst hm0
    have hshortest : shortest x = ⟨[], 0⟩ := by simp only [shortest, hparts]
    rw [hshortest]
    decide
  · obtain ⟨d, n, hshortest, hread⟩ := shortest_eq hx hparts hm0
    have hne : x.abs ≠ 0 := by
      intro hzero
      rw [hzero] at hbits
      have hbits : 0 = (e + 1074).toNat * 2 ^ 52 + m := hbits
      omega
    have hd : d ≠ 0 := by
      rintro rfl
      exact hne (hread.symm.trans (scaled_zero n))
    obtain ⟨hlow, hhigh⟩ := range_of_scaled hread (isFinite_abs hx) hne
    obtain ⟨hleast, hmost⟩ := width_bounds hd
    have hwidth : 0 < width d := List.length_pos_iff.2 Nat.toDigits_ne_nil
    have hpoint : (shortest x).point = width d + n := by
      rw [hshortest]
      rfl
    rw [Nat.sub_add_cancel hwidth] at hmost
    rw [hpoint]
    have hten : (0 : ℚ) < 10 ^ n := by positivity
    constructor
    · have hlt : (10 : ℚ) ^ (-324 : Int) < 10 ^ ((width d : Int) + n) := by
        calc (10 : ℚ) ^ (-324 : Int) ≤ 2 ^ (-1075 : Int) := by
              have hpowers : 2 ^ 1075 ≤ 10 ^ 324 := by decide +kernel
              rw [zpow_neg, zpow_neg]
              exact inv_anti₀ (by positivity) (by exact_mod_cast hpowers)
          _ ≤ d * 10 ^ n := hlow
          _ < 10 ^ width d * 10 ^ n := by
            refine mul_lt_mul_of_pos_right ?_ hten
            exact_mod_cast hmost
          _ = 10 ^ ((width d : Int) + n) := by
            rw [zpow_add₀ (by norm_num), zpow_natCast]
      have := (zpow_lt_zpow_iff_right₀ (by norm_num : (1 : ℚ) < 10)).1 hlt
      omega
    · have hlt : (10 : ℚ) ^ (((width d - 1 : Nat) : Int) + n) <
          10 ^ (309 : Int) := by
        calc
          (10 : ℚ) ^ (((width d - 1 : Nat) : Int) + n) =
              10 ^ (width d - 1) * 10 ^ n := by
            rw [zpow_add₀ (by norm_num), zpow_natCast]
          _ ≤ d * 10 ^ n := by
            refine mul_le_mul_of_nonneg_right ?_ hten.le
            exact_mod_cast hleast
          _ < 2 ^ 1024 := hhigh
          _ ≤ 10 ^ (309 : Int) := by
            have hpowers : 2 ^ 1024 ≤ 10 ^ 309 := by decide +kernel
            exact_mod_cast hpowers
      have := (zpow_lt_zpow_iff_right₀ (by norm_num : (1 : ℚ) < 10)).1 hlt
      omega

end Decimal

/-! ## Numerals with exponents -/

theorem Numeral.splitSign_digit {c : Char} (hc : c.isDigit = true)
    (cs : List Char) : splitSign (c :: cs) = (false, c :: cs) := by
  unfold splitSign
  split
  next h =>
    cases h
    exact absurd hc (by decide)
  next h =>
    cases h
    exact absurd hc (by decide)
  next => rfl

/-- The sign of a number, as it is written. -/
def signText (negative : Bool) : List Char := if negative then ['-'] else []

/-- A numeral with an exponent: a sign, a digit, others behind a point if there
are any, and a signed exponent. -/
structure Scientific where
  negative : Bool
  first : Char
  behind : List Char
  /-- Whether the exponent is negative. -/
  below : Bool
  power : List Char
  first_isDigit : first.isDigit = true
  behind_digits : AllDigits behind
  power_digits : AllDigits power
  power_ne_nil : power ≠ []

namespace Scientific

/-- The digits behind the point with the point. -/
def fraction (s : Scientific) : List Char :=
  if s.behind.isEmpty then [] else '.' :: s.behind

/-- The exponent as it is written. -/
def exponent (s : Scientific) : List Char :=
  'e' :: (if s.below then '-' else '+') :: s.power

/-- The numeral as it is written. -/
def text (s : Scientific) : List Char :=
  signText s.negative ++ s.first :: (s.fraction ++ s.exponent)

/-- The value of the exponent. -/
def exponentValue (s : Scientific) : Int :=
  if s.below then -(Numeral.digits 0 s.power : Int)
  else Numeral.digits 0 s.power

private theorem exponent?_exponent (s : Scientific) :
    Numeral.exponent? s.exponent = some s.exponentValue := by
  have hsign : Numeral.splitSign ((if s.below then '-' else '+') :: s.power) =
      (s.below, s.power) := by
    cases s.below <;> rfl
  have hdigits : (!s.power.isEmpty && s.power.all Char.isDigit) = true := by
    simp [s.power_ne_nil, List.all_eq_true.2 s.power_digits]
  simp only [exponent, Numeral.exponent?, hsign]
  simp [hdigits, exponentValue]

/-- **A numeral with an exponent** is read by its value, if the exponent is in
the range that is computed with. -/
theorem decimal?_text (s : Scientific) {x : Float}
    (hlow : -400 ≤ s.exponentValue) (hhigh : s.exponentValue ≤ 400)
    (hread : Numeral.scaled (Numeral.digits 0 (s.first :: s.behind))
        (s.exponentValue - s.behind.length) = x) (hx : x.isFinite = true) :
    Numeral.decimal? s.text = some (Decimal.withSign s.negative x) := by
  have hsplit : Numeral.splitSign s.text =
      (s.negative, [s.first] ++ (s.fraction ++ s.exponent)) := by
    rw [text]
    cases s.negative with
    | true => rfl
    | false => exact Numeral.splitSign_digit s.first_isDigit _
  have hfirst : AllDigits [s.first] :=
    List.forall_mem_singleton.2 s.first_isDigit
  have hstop : ∀ c ∈ (s.fraction ++ s.exponent).head?, c.isDigit = false := by
    rw [fraction, exponent]
    cases s.behind with
    | nil => rintro c ⟨⟩; rfl
    | cons b bs => rintro c ⟨⟩; rfl
  obtain ⟨hwhole, hrest⟩ := span_append hfirst hstop
  have hclamp : max (-(([s.first].length + s.behind.length : Nat) + 400 : Int))
        (min 400 (s.exponentValue - s.behind.length)) =
      s.exponentValue - s.behind.length := by
    rw [List.length_singleton]
    omega
  have hdigits : Numeral.digits (Numeral.digits 0 [s.first]) s.behind =
      Numeral.digits 0 (s.first :: s.behind) :=
    (Numeral.digits_append 0 [s.first] s.behind).symm
  have hexponent := s.exponent?_exponent
  by_cases hempty : s.behind = []
  · have hfraction : s.fraction ++ s.exponent = s.exponent := by
      rw [fraction, hempty]
      rfl
    rw [hempty] at hclamp hdigits hread
    rw [hfraction, exponent] at hsplit hwhole hrest
    rw [exponent] at hexponent
    simp only [Numeral.decimal?, hsplit, hwhole, hrest, List.cons.injEq,
      Char.reduceEq, false_and, imp_false, not_false_eq_true, implies_true,
      hexponent, hclamp, hdigits, hread, hx]
    simp
  · have hfraction : s.fraction ++ s.exponent =
        '.' :: (s.behind ++ s.exponent) := by
      rw [fraction, if_neg (by simpa using hempty)]
      rfl
    have hmark : ∀ c ∈ s.exponent.head?, c.isDigit = false := by
      rintro c ⟨⟩
      rfl
    obtain ⟨htake, hdrop⟩ := span_append s.behind_digits hmark
    rw [hfraction] at hsplit hwhole hrest
    simp only [Numeral.decimal?, hsplit, hwhole, hrest, htake, hdrop, hexponent,
      hclamp, hdigits, hread, hx]
    simp

end Scientific

namespace Decimal

/-- The digits of an exponent, padded with zeros on the left. -/
def Digits.power (width : Nat) (d : Digits) : List Char :=
  List.replicate (width - (Nat.toDigits 10 d.exponent.natAbs).length) '0' ++
    Nat.toDigits 10 d.exponent.natAbs

/-- Digits with an exponent as a numeral. -/
def Digits.toScientific (d : Digits) (h : AllDigits d.digits) (negative : Bool)
    (width : Nat) : Scientific where
  negative := negative
  first := d.digits.headD '0'
  behind := d.digits.tail
  below := d.exponent < 0
  power := d.power width
  first_isDigit := by
    cases hdigits : d.digits with
    | nil => rfl
    | cons c cs => exact h c (hdigits ▸ List.mem_cons_self)
  behind_digits := fun c hc => h c (List.mem_of_mem_tail hc)
  power_digits :=
    (allDigits_zeros _).append fun c hc =>
      Nat.isDigit_of_mem_toDigits (by decide) (by decide) hc
  power_ne_nil := by simp [power]

section ToScientific

variable {d : Digits} (h : AllDigits d.digits) (negative : Bool) (width : Nat)

private theorem Digits.text_toScientific :
    (d.toScientific h negative width).text =
      signText negative ++ d.scientific width := by
  obtain ⟨cs, point⟩ := d
  simp only [toScientific, Scientific.text, Scientific.fraction,
    Scientific.exponent, scientific, power]
  cases cs with
  | nil => rfl
  | cons c cs => cases cs <;> cases negative <;> simp

private theorem Digits.exponentValue_toScientific :
    (d.toScientific h negative width).exponentValue = d.exponent := by
  have hpower : Numeral.digits 0 (d.power width) = d.exponent.natAbs := by
    rw [power, Numeral.digits_append, Numeral.digits_zeros, Nat.mul_zero,
      Numeral.digits_toDigits]
  simp only [toScientific, Scientific.exponentValue, hpower, decide_eq_true_eq]
  split <;> omega

/-- The value of a numeral with an exponent is that of its digits. -/
private theorem Digits.value_toScientific {s : Scientific}
    (hs : s = d.toScientific h negative width) :
    (Numeral.digits 0 (s.first :: s.behind) : ℚ) *
        10 ^ (s.exponentValue - s.behind.length) = d.value := by
  subst hs
  rw [exponentValue_toScientific]
  obtain ⟨cs, point⟩ := d
  simp only [toScientific, exponent, value]
  cases cs with
  | nil => simp [Numeral.digits, Numeral.digit]
  | cons c cs =>
      have hlength : point - 1 - (cs.length : Int) =
          point - ((c :: cs).length : Nat) := by
        rw [List.length_cons]
        push_cast
        ring
      simp [hlength]

end ToScientific

/-- **The text of a finite double with an exponent** is read as the double. -/
theorem exists_scientific {x : Float} (hx : x.isFinite = true) :
    ∃ s : Scientific, Layout.settings.text x = String.ofList s.text ∧
      Numeral.decimal? s.text = some x := by
  obtain ⟨m, e, hparts, -, -⟩ := parts_eq hx
  obtain ⟨hdigits, hread⟩ := shortest_reads hx
  refine ⟨(shortest x).toScientific hdigits (isNegative x) 2, ?_, ?_⟩
  · rw [Digits.text_toScientific]
    simp only [Layout.text, hparts]
    rfl
  · obtain ⟨hlow, hhigh⟩ := point_bounds hx
    have hexponent : -400 ≤ (shortest x).exponent ∧
        (shortest x).exponent ≤ 400 := by
      rw [Digits.exponent]
      split <;> omega
    rw [← Digits.exponentValue_toScientific hdigits (isNegative x) 2]
      at hexponent
    rw [Scientific.decimal?_text _ hexponent.1 hexponent.2
      (hread _ _ (Digits.value_toScientific hdigits (isNegative x) 2 rfl))
      (isFinite_abs hx)]
    exact congrArg some (withSign_abs hx)

end Decimal

end Fixture
