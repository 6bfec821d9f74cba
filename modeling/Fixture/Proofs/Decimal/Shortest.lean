import Fixture.Proofs.Decimal.Rounding
/-!
# The shortest digits read back

The digits of a double are looked for on ever finer decimal grids, and those
found are read back before they are taken. So whatever is found is right; the
point is that something is found. On the grid of seventeen digits the double
lies within half a step of a grid point, and a step there is at most the
sixteenth decimal place of the double itself. That is less than the distance at
which the rounding of a fraction would miss the double, since a mantissa is
below `2 ^ 53`, which is less than `10 ^ 16`.

## Main results

* `pointOf_eq`: the place of the point is the logarithm.
* `near_of_seventeen`: seventeen digits are near enough.
* `shortest_eq`: the shortest digits of a double are read as its size.
-/

namespace Fixture.Decimal

attribute [local simp] pointOf neighbours roundedQuotient hit? shortest
  Numeral.scaled

/-! ## The place of the point -/

theorem width_bounds {n : Nat} (hn : n ≠ 0) :
    10 ^ (width n - 1) ≤ n ∧ n < 10 ^ (width n - 1 + 1) := by
  have hpos : 0 < width n := List.length_pos_iff.2 Nat.toDigits_ne_nil
  constructor
  · rcases Nat.eq_zero_or_pos (width n - 1) with hone | hmore
    · rw [hone]
      omega
    · have hlt : ¬ n < 10 ^ (width n - 1) := fun hlt => by
        have := (Nat.length_toDigits_le_iff (by decide) hmore).2 hlt
        unfold width at *
        omega
      exact not_lt.1 hlt
  · rw [Nat.sub_add_cancel hpos]
    exact (Nat.length_toDigits_le_iff (by decide) hpos).1 (le_refl _)

/-- The place of the point, from the size of the fraction. -/
theorem pointOf_eq {num den : Nat} (hnum : num ≠ 0) (hden : den ≠ 0) :
    pointOf num den = Int.log 10 ((num : ℚ) / den) + 1 := by
  have hr := fraction_pos hnum hden
  obtain ⟨hlow, hhigh⟩ :=
    log_ratio (by decide) (width_bounds hnum) (width_bounds hden)
  have hn : 0 < width num := List.length_pos_iff.2 Nat.toDigits_ne_nil
  have hd : 0 < width den := List.length_pos_iff.2 Nat.toDigits_ne_nil
  simp only [pointOf]
  generalize hg : (width num : Int) - width den = g
  have htest : (scaleDown num den g).1 < (scaleDown num den g).2 ↔
      Int.log 10 ((num : ℚ) / den) < g := by
    have hone := ratio_lt (scaleDown_pos (Nat.pos_of_ne_zero hden) g)
      (q := scaleDown num den g) 1
    rw [mul_one] at hone
    rw [← hone, ratio_scaleDown, div_lt_iff₀ (by positivity),
      ← Int.lt_zpow_iff_log_lt (by decide) hr]
    norm_num
  split
  next h =>
    have := htest.1 h
    omega
  next h =>
    have := mt htest.2 h
    omega

/-! ## Grids -/

/-- The nearer neighbour on a grid is the rounded quotient. -/
private theorem head_neighbours (num den : Nat) (n : Int) :
    (neighbours num den n).head? =
      some
        (roundedQuotient (scaleDown num den n).1 (scaleDown num den n).2) := by
  simp only [neighbours, roundedQuotient]
  split <;> rfl

/-- Rounding goes half a step at most. -/
private theorem abs_sub_roundedQuotient {q : Nat × Nat} (hq : 0 < q.2) :
    |ratio q - roundedQuotient q.1 q.2| ≤ 1 / 2 := by
  obtain ⟨a, b⟩ := q
  have hb : (0 : ℚ) < b := by exact_mod_cast hq
  have hsplit : ratio (a, b) =
      ((a / b : Nat) : ℚ) + ((a % b : Nat) : ℚ) / b := by
    have hdiv : (b : ℚ) * ((a / b : Nat) : ℚ) + ((a % b : Nat) : ℚ) = a := by
      exact_mod_cast Nat.div_add_mod a b
    rw [ratio, ← hdiv]
    field_simp
  have hhalf (h : 2 * (a % b) ≤ b) : ((a % b : Nat) : ℚ) / b ≤ 1 / 2 := by
    have : ((2 * (a % b) : Nat) : ℚ) ≤ b := by exact_mod_cast h
    rw [div_le_iff₀ hb]
    push_cast at this
    linarith
  have hhalf' (h : b ≤ 2 * (a % b)) : 1 / 2 ≤ ((a % b : Nat) : ℚ) / b := by
    have : (b : ℚ) ≤ ((2 * (a % b) : Nat) : ℚ) := by exact_mod_cast h
    rw [le_div_iff₀ hb]
    push_cast at this
    linarith
  have hnonneg : (0 : ℚ) ≤ ((a % b : Nat) : ℚ) / b := by positivity
  have hlt : ((a % b : Nat) : ℚ) / b < 1 := by
    rw [div_lt_one hb]
    exact_mod_cast Nat.mod_lt a hq
  simp only [roundedQuotient, hsplit]
  split
  next h =>
    have hle := hhalf (by simp at h; omega)
    rw [abs_le]
    constructor <;> linarith
  next h =>
    have hge := hhalf' (by simp at h; omega)
    rw [abs_le]
    push_cast
    constructor <;> linarith

/-! ## Seventeen digits -/

/-- **Seventeen digits suffice.** A grid point within half a step of a double is
near enough, if the step is at most the sixteenth decimal place of the
double. -/
theorem near_of_seventeen {m : Nat} {e : Int} (hm : IsParts m e) {step r : ℚ}
    (hstep : step * 10 ^ 16 ≤ m * 2 ^ e) (hr : |m * 2 ^ e - r| ≤ step / 2) :
    Near r m e := by
  have hpow : (0 : ℚ) < 2 ^ e := by positivity
  -- The distance from the mantissa, in steps of the double.
  have hdist : |r / 2 ^ e - m| ≤ m / (2 * 10 ^ 16) := by
    have hscale : r / 2 ^ e - m = (r - m * 2 ^ e) / 2 ^ e := by
      field_simp
    rw [hscale, abs_div, abs_of_pos hpow, div_le_iff₀ hpow, abs_sub_comm]
    have : step / 2 ≤ m / (2 * 10 ^ 16) * 2 ^ e := by
      rw [div_mul_eq_mul_div, le_div_iff₀ (by norm_num)]
      linarith
    exact hr.trans this
  constructor
  · have : (m : ℚ) < 2 ^ 53 := by exact_mod_cast hm.lt
    refine lt_of_le_of_lt hdist ?_
    rw [div_lt_iff₀ (by norm_num)]
    norm_num at this ⊢
    linarith
  · intro hm52
    refine lt_of_le_of_lt hdist ?_
    rw [hm52]
    norm_num

/-! ## What is found -/

/-- A numeral is read as the double nearest to a fraction with its value. -/
theorem exists_fraction (d : Nat) (n : Int) :
    ∃ num den, Numeral.scaled d n = nearest num den ∧ den ≠ 0 ∧
      (num : ℚ) / den = d * 10 ^ n := by
  unfold Numeral.scaled
  split
  next h =>
    obtain ⟨k, rfl⟩ := Int.eq_ofNat_of_zero_le h
    exact ⟨_, _, rfl, by decide, by simp [Nat.pow_eq]⟩
  next h =>
    obtain ⟨k, rfl⟩ : ∃ k : Nat, n = -(k : Int) := ⟨(-n).toNat, by omega⟩
    exact ⟨_, _, rfl, by simp [Nat.pow_eq], by
      simp [Nat.pow_eq, div_eq_mul_inv]⟩

/-- Numerals with one value are read as one double. -/
theorem scaled_congr {d d' : Nat} {n n' : Int}
    (h : (d : ℚ) * 10 ^ n = d' * 10 ^ n') :
    Numeral.scaled d n = Numeral.scaled d' n' := by
  obtain ⟨num, den, hread, hden, hvalue⟩ := exists_fraction d n
  obtain ⟨num', den', hread', hden', hvalue'⟩ := exists_fraction d' n'
  rw [hread, hread']
  exact nearest_congr hden hden' (by rw [hvalue, hvalue', h])

/-- A numeral of no size is zero. -/
theorem scaled_zero (n : Int) : Numeral.scaled 0 n = 0 := by
  unfold Numeral.scaled
  split
  · rw [Nat.zero_mul]
    rfl
  · rfl

section Found

variable {x : Float} {negative : Bool} {m num den : Nat} {e : Int}

/-- On the grid of seventeen digits there is a hit. -/
private theorem isSome_hit (hx : x.isFinite = true)
    (hparts : parts x = .finite negative m e) (hm : IsParts m e)
    (hnum : num ≠ 0) (hden : den ≠ 0) (hvalue : (num : ℚ) / den = m * 2 ^ e) :
    (hit? x.abs num den (pointOf num den - 17)).isSome = true := by
  have hr := fraction_pos hnum hden
  have hpoint := pointOf_eq hnum hden
  generalize hn : pointOf num den - 17 = n
  have hstep : (0 : ℚ) < 10 ^ n := by positivity
  -- The step of the grid is small against the double.
  have hsmall : (10 : ℚ) ^ n * 10 ^ 16 ≤ m * 2 ^ e := by
    have hlog : (10 : ℚ) ^ Int.log 10 ((num : ℚ) / den) ≤ (num : ℚ) / den := by
      exact_mod_cast Int.zpow_log_le_self (b := 10) (by decide) hr
    rw [← hvalue, ← zpow_natCast, ← zpow_add₀ (by norm_num)]
    refine le_trans (le_of_eq ?_) hlog
    congr 1
    push_cast
    omega
  generalize hd : roundedQuotient (scaleDown num den n).1
      (scaleDown num den n).2 = d
  have hround : |(m : ℚ) * 2 ^ e - d * 10 ^ n| ≤ 10 ^ n / 2 := by
    have hle :=
      abs_sub_roundedQuotient (scaleDown_pos (Nat.pos_of_ne_zero hden) n)
        (q := scaleDown num den n)
    rw [hd, ratio_scaleDown, hvalue] at hle
    have hscale : (m : ℚ) * 2 ^ e - d * 10 ^ n =
        (m * 2 ^ e / 10 ^ n - d) * 10 ^ n := by
      field_simp
    rw [hscale, abs_mul, abs_of_pos hstep]
    linarith [mul_le_mul_of_nonneg_right hle hstep.le]
  have hnear : Near (d * 10 ^ n) m e := near_of_seventeen hm hsmall hround
  have hd0 : d ≠ 0 := by
    rintro rfl
    rw [Nat.cast_zero, zero_mul, sub_zero, ← hvalue, abs_of_pos hr, hvalue]
      at hround
    linarith
  obtain ⟨num', den', hread, hden', hvalue'⟩ := exists_fraction d n
  have hnum' : num' ≠ 0 := by
    rintro rfl
    rw [Nat.cast_zero, zero_div, eq_comm, mul_eq_zero] at hvalue'
    rcases hvalue' with h | h
    · exact hd0 (by exact_mod_cast h)
    · exact hstep.ne' h
  have hhit : Numeral.scaled d n = x.abs := by
    rw [hread]
    exact nearest_eq_abs hx hparts hnum' hden' (hvalue' ▸ hnear)
  have hmem : d ∈ neighbours num den n :=
    List.mem_of_mem_head? (by rw [head_neighbours, hd]; rfl)
  rw [hit?, Option.isSome_map, List.find?_isSome]
  exact ⟨d, hmem, by rw [hhit]; exact beq_self_eq_true _⟩

/-- What is found reads back. -/
private theorem exists_of_hit {n : Int} {ds : Digits}
    (h : hit? x num den n = some ds) :
    ∃ d, ds = Digits.ofScaled d n ∧ Numeral.scaled d n = x := by
  rw [hit?, Option.map_eq_some_iff] at h
  obtain ⟨d, hfind, rfl⟩ := h
  have hfound := List.find?_some hfind
  exact ⟨d, rfl, Float.toBits_inj.1 (eq_of_beq hfound)⟩

private theorem shortestOf_of_found {ds : Digits}
    (h : ((List.range 17).findSome? fun (i : Nat) =>
      hit? x num den (pointOf num den - (i + 1))) = some ds) :
    shortestOf x num den = ds := by
  unfold shortestOf
  dsimp only
  rw [h]

private theorem shortestOf_eq (hx : x.isFinite = true)
    (hparts : parts x = .finite negative m e) (hm : IsParts m e)
    (hnum : num ≠ 0) (hden : den ≠ 0) (hvalue : (num : ℚ) / den = m * 2 ^ e) :
    ∃ d n, shortestOf x.abs num den = Digits.ofScaled d n ∧
      Numeral.scaled d n = x.abs := by
  have hhit := isSome_hit hx hparts hm hnum hden hvalue
  have hlast : pointOf num den - (((16 : Nat) : Int) + 1) =
      pointOf num den - 17 := by norm_num
  rw [← hlast] at hhit
  have hsome : ((List.range 17).findSome? fun (i : Nat) =>
      hit? x.abs num den (pointOf num den - (i + 1))).isSome = true :=
    List.findSome?_isSome_iff.2 ⟨16, by decide, hhit⟩
  obtain ⟨ds, hds⟩ := Option.isSome_iff_exists.1 hsome
  obtain ⟨i, -, hi⟩ := List.exists_of_findSome?_eq_some hds
  obtain ⟨d, hd, hread⟩ := exists_of_hit hi
  exact ⟨d, _, (shortestOf_of_found hds).trans hd, hread⟩

/-- **The shortest digits of a double are read as its size.** -/
theorem shortest_eq (hx : x.isFinite = true)
    (hparts : parts x = .finite negative m e) (hm0 : m ≠ 0) :
    ∃ d n, shortest x = Digits.ofScaled d n ∧ Numeral.scaled d n = x.abs := by
  obtain ⟨m', e', hparts', hm, -⟩ := parts_eq hx
  cases hparts.symm.trans hparts'
  obtain ⟨k, rfl⟩ := Nat.exists_eq_succ_of_ne_zero hm0
  simp only [shortest, hparts]
  split
  next he =>
    obtain ⟨i, rfl⟩ := Int.eq_ofNat_of_zero_le he
    refine shortestOf_eq hx hparts hm (by simp [Nat.pow_eq]) (by decide) ?_
    simp [Nat.pow_eq]
  next he =>
    obtain ⟨i, rfl⟩ : ∃ i : Nat, e = -(i : Int) := ⟨(-e).toNat, by omega⟩
    refine shortestOf_eq hx hparts hm (by simp) (by simp [Nat.pow_eq]) ?_
    simp [Nat.pow_eq, div_eq_mul_inv]

end Found

end Fixture.Decimal
