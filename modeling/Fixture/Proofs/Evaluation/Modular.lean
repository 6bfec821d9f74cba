import Fixture.Proofs.Evaluation.Exact
/-!
# Evaluation modulo `2 ^ 64`

Words wrap around. An expression over whole numbers and truth values in which
only signs, `+`, `-` and `*` occur is a polynomial in its names, and reducing
whole numbers modulo `2 ^ 64` goes through signs, sums, differences and
products. So it does not matter where, how often and how far the values of nodes
leave the range of words: what evaluation finds is the one word that is
congruent to the exact value. Such an expression has a value always, since
nothing is divided.

## Main results

* `unique_word`: every whole number is congruent to one word, which is what it
  is reduced to.
* `Exact.operation_ring`: sums, differences and products of reduced numbers.
* `Expr.Polynomial.eval_eq`: evaluation finds the reduced exact value.
* `visit_modular`: evaluation modulo `2 ^ 64`.
-/

namespace Fixture

attribute [local simp] Expr.eval Expr.lookup Value.wordOperation

/-! ## Words modulo `2 ^ 64` -/

private theorem isWord_toInt (n : Int64) : IsWord n.toInt :=
  ⟨n.le_toInt, n.toInt_lt⟩

private theorem toInt_ofInt_modEq (x : Int) :
    (Int64.ofInt x).toInt ≡ x [ZMOD 2 ^ 64] := by
  rw [Int64.toInt_ofInt]
  exact Int.bmod_emod

/-- Words that are congruent are equal. -/
private theorem IsWord.eq_of_modEq {m n : Int} (hm : IsWord m) (hn : IsWord n)
    (h : m ≡ n [ZMOD 2 ^ 64]) : m = n := by
  have hbmod : (m % (2 ^ 64 : Nat)).bmod (2 ^ 64) =
      (n % (2 ^ 64 : Nat)).bmod (2 ^ 64) := congrArg (Int.bmod · _) h
  rwa [Int.emod_bmod, Int.emod_bmod, hm.bmod_eq, hn.bmod_eq] at hbmod

/-- **Every whole number is congruent to one word.** -/
theorem unique_word (x : Int) :
    (IsWord (Int64.ofInt x).toInt ∧ (Int64.ofInt x).toInt ≡ x [ZMOD 2 ^ 64]) ∧
      ∀ m, IsWord m ∧ m ≡ x [ZMOD 2 ^ 64] → m = (Int64.ofInt x).toInt := by
  refine ⟨⟨isWord_toInt _, toInt_ofInt_modEq x⟩, ?_⟩
  rintro m ⟨hm, hmod⟩
  exact hm.eq_of_modEq (isWord_toInt _) (hmod.trans (toInt_ofInt_modEq x).symm)

/-! ## Operators -/

/-- The operators that reducing goes through. -/
def Kind.isRing : Kind → Bool
  | .plus | .minus | .mul => true
  | _ => false

private theorem Value.exists_exactly {v : Value} (h : v.kind.isWord = true) :
    ∃ x, v.exactly? = some x := by
  cases v with
  | integer n => exact ⟨.number n.toInt, rfl⟩
  | boolean b => exact ⟨.truth b, rfl⟩
  | real | waypoint => cases h

namespace Exact

/-- A sign makes a number, and the reduced one of what was reduced before. -/
private theorem withSign_ring {op : Token} (hop : op.kind.isAdditive = true)
    (x : Exact) :
    ∃ n, signed? op.kind x.toInt = some (.number n) ∧
      x.toValue.withSign op = .ok (.integer (Int64.ofInt n)) := by
  have hsigned : ∃ n, signed? op.kind x.toInt = some (.number n) := by
    cases hk : op.kind with
    | plus | minus => exact ⟨_, rfl⟩
    | _ =>
        rw [hk] at hop
        cases hop
  obtain ⟨n, hn⟩ := hsigned
  exact ⟨n, hn, withSign_toValue hn⟩

/-- **Sums, differences and products of reduced numbers** are the reduced sums,
differences and products. -/
theorem operation_ring {op : Token} (hop : op.kind.isRing = true) (q : Expr)
    (x y : Exact) :
    ∃ n, operation? op.kind x.toInt y.toInt = some (.number n) ∧
      Value.operation op q x.toValue y.toValue =
        .ok (.integer (Int64.ofInt n)) := by
  rw [Value.operation_of_words (toInteger?_toValue x) (toInteger?_toValue y)]
  cases hk : op.kind with
  | plus =>
      refine ⟨x.toInt + y.toInt, rfl, ?_⟩
      simp [hk, Int64.ofInt_add]
  | minus =>
      refine ⟨x.toInt - y.toInt, rfl, ?_⟩
      simp [hk, Int64.ofInt_sub]
  | mul =>
      refine ⟨x.toInt * y.toInt, rfl, ?_⟩
      simp [hk, Int64.ofInt_mul]
  | _ =>
      rw [hk] at hop
      cases hop

end Exact

/-! ## Expressions -/

namespace Expr

variable {values : Table Value}

/-- An expression over whole numbers and truth values with signs, `+`, `-` and
`*` only. -/
def Polynomial (values : Table Value) : Expr → Prop
  | .integer _ _ | .boolean _ _ => True
  | .real _ _ => False
  | .name t => ∃ v, values.get? t.literal = some v ∧ v.kind.isWord = true
  | .signed op e => op.kind.isAdditive = true ∧ e.Polynomial values
  | .binary op l r =>
    op.kind.isRing = true ∧ l.Polynomial values ∧ r.Polynomial values

/-- **Evaluation finds the reduced exact value**, and a number wherever there is
an operator. -/
theorem Polynomial.eval_eq {e : Expr} (he : e.Polynomial values) :
    ∃ x, e.exactly? values = some x ∧ e.eval values = .ok x.toValue ∧
      (e.operands ≠ [] → ∃ n, x = .number n) := by
  induction e with
  | integer tok n =>
      refine ⟨.number n.toInt, rfl, ?_, fun _ => ⟨_, rfl⟩⟩
      rw [eval, Exact.toValue, Int64.ofInt_toInt]
  | boolean tok b => exact ⟨.truth b, rfl, rfl, fun h => absurd rfl h⟩
  | real tok y => exact he.elim
  | name t =>
      obtain ⟨v, hget, hword⟩ := he
      obtain ⟨x, hx⟩ := Value.exists_exactly hword
      refine ⟨x, ?_, ?_, fun h => absurd rfl h⟩
      · rw [exactly?, hget, Option.bind_some, hx]
      · rw [eval, lookup, hget, Value.eq_toValue hx]
  | signed op e ih =>
      obtain ⟨x, hx, hev, -⟩ := ih he.2
      obtain ⟨n, hn, hsign⟩ := Exact.withSign_ring he.1 x
      refine ⟨.number n, ?_, ?_, fun _ => ⟨n, rfl⟩⟩
      · rw [exactly?, hx, Option.bind_some, hn]
      · rw [eval_signed_of_ok hev, hsign, Exact.toValue]
  | binary op l r ihl ihr =>
      obtain ⟨hop, hl, hr⟩ := he
      obtain ⟨x, hx, hxv, -⟩ := ihl hl
      obtain ⟨y, hy, hyv, -⟩ := ihr hr
      -- the operands may long have left the range of words: only their reduced
      -- values meet here
      obtain ⟨n, hn, hres⟩ := Exact.operation_ring hop (.binary op l r) x y
      refine ⟨.number n, ?_, ?_, fun _ => ⟨n, rfl⟩⟩
      · rw [exactly?, hx, Option.bind_some, hy, Option.bind_some, hn]
      · rw [eval_binary_of_ok hxv hyv, hres, Exact.toValue]

end Expr

/--
**Evaluation modulo `2 ^ 64`.** Let an expression be built from whole numbers
and truth values by signs, `+`, `-` and `*`, with one of them at least. It has
an exact value, which is a whole number without bounds. Evaluating it succeeds,
on any host and whatever the exact values of its nodes are, with the word that
is congruent to that number modulo `2 ^ 64`; and there is only one.
-/
theorem visit_modular {σ ε : Type} (h : Host σ ε) (passes : Nat) (w : World σ)
    {e : Expr} (he : e.Polynomial w.tables.values) (hop : e.operands ≠ []) :
    ∃ (x : Int) (n : Int64), e.exactly? w.tables.values = some (.number x) ∧
      (Run.visit h passes (.expression e)).outcome w = .ok (some (.integer n)) ∧
      (IsWord n.toInt ∧ n.toInt ≡ x [ZMOD 2 ^ 64]) ∧
      ∀ m : Int, IsWord m ∧ m ≡ x [ZMOD 2 ^ 64] → m = n.toInt := by
  obtain ⟨y, hy, hev, hnumber⟩ := he.eval_eq
  obtain ⟨x, rfl⟩ := hnumber hop
  refine ⟨x, Int64.ofInt x, hy, ?_, unique_word x⟩
  rw [Run.outcome, run_visit_expression, hev, Run.run_ofEval_ok]
  rfl

/-- An expression whose value is a word, though its exact value and those of two
more of its nodes need not be: `-(x * x) + TRUE`. -/
def overflows : Expr :=
  .binary (.fixed .plus)
    (.signed (.fixed .minus) (.binary (.fixed .mul)
      (.name ⟨.ident, "x", .nowhere⟩) (.name ⟨.ident, "x", .nowhere⟩)))
    (.boolean ⟨.boolConst, "TRUE", .nowhere⟩ true)

/-- Tables that bind `x` to the least word. -/
def bindsLeast : Tables :=
  { Tables.empty with
    values := Table.empty.set "x" (.integer (Int64.ofInt (-2 ^ 63))) }

theorem visit_modular_overflows :
    overflows.Polynomial bindsLeast.values ∧ overflows.operands ≠ [] ∧
    overflows.exactly? bindsLeast.values = some (.number (1 - 2 ^ 126)) ∧
    (Run.visit Host.willing 1 (.expression overflows)).outcome
        ⟨bindsLeast, ()⟩ = .ok (some (.integer 1)) := by
  have hx : (Expr.name ⟨.ident, "x", .nowhere⟩).Polynomial bindsLeast.values :=
    ⟨_, rfl, rfl⟩
  have hpolynomial : overflows.Polynomial bindsLeast.values :=
    ⟨rfl, ⟨rfl, rfl, hx, hx⟩, trivial⟩
  have hop : overflows.operands ≠ [] := by simp [overflows]
  have hexact : overflows.exactly? bindsLeast.values =
      some (.number (1 - 2 ^ 126)) := by decide +kernel
  obtain ⟨x, n, hx, houtcome, -, hunique⟩ :=
    visit_modular Host.willing 1 ⟨bindsLeast, ()⟩ hpolynomial hop
  cases hx.symm.trans hexact
  have hone : (1 : Int) = n.toInt := hunique 1 (by decide +kernel)
  rw [houtcome, ← Int64.ofInt_toInt n, ← hone]
  exact ⟨hpolynomial, hop, hexact, rfl⟩

end Fixture
