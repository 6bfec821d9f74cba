import Fixture.Proofs.Grammar.Sound
/-!
# What is derived is read

The frontier of every derivation is read as its tree, whatever stands behind it,
on two conditions. One is a lookahead: the next token must not be one that would
carry the derivation on, such as an operator behind a term. Where a derivation
stands inside a larger one this always holds, because the larger one has a token
there that ends the smaller. The other is a budget of four calls for each token
and a few more: at most four functions call one another before one of them
consumes a token.

The proof follows the derivation, with one equation for each way that a function
of the reader can go.

## Main results

* `factor_complete`, `expression_complete`, `statements_complete`: for one
  nonterminal each.
* `program_complete`: the frontier of a program, followed by the end of the
  source, is read as its tree.
-/

namespace Fixture

namespace Kind

/-- The kinds that end a statement. -/
def endsStatement : Kind → Bool
  | semi | kwEnd | kwElse | kwEndif | kwUntil => true
  | _ => false

/-- The kinds that end a statement list. -/
def endsList : Kind → Bool
  | kwEnd | kwElse | kwEndif | kwUntil => true
  | _ => false

/-- The operators of expressions. -/
def isOperator (k : Kind) : Bool :=
  k.isMultiplicative || k.isAdditive || k.isRelational

theorem isMultiplicative_of_isAdditive {k : Kind} (h : k.isAdditive = true) :
    k.isMultiplicative = false := by
  cases k <;> first | rfl | cases h

theorem isMultiplicative_of_isRelational {k : Kind}
    (h : k.isRelational = true) : k.isMultiplicative = false := by
  cases k <;> first | rfl | cases h

theorem isAdditive_of_isRelational {k : Kind} (h : k.isRelational = true) :
    k.isAdditive = false := by
  cases k <;> first | rfl | cases h

theorem endsStatement_of_endsList {k : Kind} (h : k.endsList = true) :
    k.endsStatement = true := by
  cases k <;> first | rfl | cases h

theorem isOperator_of_endsStatement {k : Kind} (h : k.endsStatement = true) :
    k.isOperator = false := by
  cases k <;> first | rfl | cases h

theorem ne_comma_of_endsStatement {k : Kind} (h : k.endsStatement = true) :
    k ≠ comma := by
  rintro rfl
  cases h

private theorem ne_semi_of_endsList {k : Kind} (h : k.endsList = true) :
    k ≠ semi := by
  rintro rfl
  cases h

end Kind

namespace Parse

open Grammar

/-! ## Single tokens -/

section Tokens

variable {behind : ParseError} {rest : List Token} {t : Token} {k : Kind}

theorem ok_bind {α β : Type} (a : α) (f : α → Except ParseError β) :
    (Except.ok a >>= f) = f a := rfl

private theorem advance_cons (h : rest ≠ []) :
    advance behind (t :: rest) = .ok rest := by
  cases rest with
  | nil => exact absurd rfl h
  | cons s rest => rfl

private theorem expect_cons (ht : t.kind = k) (h : rest ≠ []) :
    expect behind k (t :: rest) = .ok (t, rest) := by
  rw [expect, if_pos ht, advance_cons h]
  rfl

private theorem ne_nil_of_endsStatement (h : (peek rest).endsStatement = true) :
    rest ≠ [] := by
  rintro rfl
  cases h

theorem integer?_eq {s : String} (h : Numeral.digits 0 s.toList < 2 ^ 63) :
    Numeral.integer? s = some (Int64.ofNat (Numeral.digits 0 s.toList)) :=
  if_pos h

end Tokens

/-! ## Expressions -/

theorem factor_signed {behind : ParseError} {n : Nat} {ts : List Token}
    {t : Token} (h : t.kind.isAdditive = true) :
    factor behind (n + 1) (t :: ts) = (do
      let ts ← advance behind (t :: ts)
      let (e, ts) ← factor behind n ts
      return (.signed t e, ts)) := by
  rw [factor]
  split <;> simp_all [Kind.isAdditive]

section OperatorTail

variable {behind : ParseError} {p : Kind → Bool} {operand : ExprReader}
  {more : Expr → ExprReader} {left right : Expr} {ts us : List Token}

/-- Where no operator stands, the expression is complete. -/
private theorem operatorTail_of_peek (hts : ts ≠ [])
    (hp : p (peek ts) = false) :
    operatorTail behind p operand more left ts = .ok (left, ts) := by
  obtain ⟨t, ts, rfl⟩ := List.exists_cons_of_ne_nil hts
  have ht : ¬ p t.kind = true := by simpa [peek] using hp
  rw [operatorTail, if_neg ht]

/-- An operator is read with its operand and with what stands behind it. -/
private theorem operatorTail_cons (op : TokenIn p) (hts : ts ≠ [])
    (hoperand : operand ts = .ok (right, us)) :
    operatorTail behind p operand more left (op.val :: ts) =
      more (.binary op.val left right) us := by
  rw [operatorTail, if_pos op.property, advance_cons hts, ok_bind, hoperand]
  rfl

end OperatorTail

/-- Behind the rest of a sum stands what ends the sum. -/
theorem peek_terms (d : Terms) {rest : List Token} {p : Kind → Bool}
    (hp : ∀ k : Kind, k.isAdditive = true → p k = false)
    (h : p (peek rest) = false) : p (peek (d.tokens ++ rest)) = false := by
  cases d with
  | nil => exact h
  | cons op t ts => exact hp _ op.property

/-- A factor has a token. -/
theorem Factor.length_pos : ∀ d : Factor, 0 < d.tokens.length := by
  intro d
  cases d <;> simp [Factor.tokens]

mutual

/-- **Factors are complete.** -/
theorem factor_complete (behind : ParseError) :
    ∀ (d : Factor) (n : Nat) (rest : List Token), 4 * d.tokens.length ≤ n →
      (∀ t ∈ d.tokens, t.Fits) → rest ≠ [] →
      factor behind n (d.tokens ++ rest) = .ok (d.tree, rest)
  | .signed op f, n, rest, hn, hfit, hne => by
      simp only [Factor.tokens, List.length_cons, List.forall_mem_cons]
        at hn hfit
      obtain ⟨n, rfl⟩ : ∃ m, n = m + 1 := ⟨n - 1, by omega⟩
      have hf := factor_complete behind f n rest (by omega) hfit.2 hne
      simp only [Factor.tokens, List.cons_append, factor_signed op.property,
        advance_cons (List.append_ne_nil_of_right_ne_nil _ hne), ok_bind, hf]
      rfl
  | .integer t, n, rest, hn, hfit, hne => by
      simp only [Factor.tokens, List.length_cons, List.forall_mem_cons]
        at hn hfit
      obtain ⟨n, rfl⟩ : ∃ m, n = m + 1 := ⟨n - 1, by omega⟩
      simp only [Factor.tokens, List.cons_append, List.nil_append, factor,
        t.property, integer?_eq (hfit.1.integer t.property), advance_cons hne]
      rfl
  | .real t, n, rest, hn, hfit, hne => by
      simp only [Factor.tokens, List.length_cons, List.forall_mem_cons]
        at hn hfit
      obtain ⟨n, rfl⟩ : ∃ m, n = m + 1 := ⟨n - 1, by omega⟩
      obtain ⟨x, hx⟩ := Option.isSome_iff_exists.1 (hfit.1.real t.property)
      simp only [Factor.tokens, List.cons_append, List.nil_append, factor,
        t.property, hx, advance_cons hne, Factor.tree, Option.getD_some]
      rfl
  | .boolean t, n, rest, hn, _, hne => by
      simp only [Factor.tokens, List.length_cons] at hn
      obtain ⟨n, rfl⟩ : ∃ m, n = m + 1 := ⟨n - 1, by omega⟩
      simp only [Factor.tokens, List.cons_append, List.nil_append, factor,
        t.property, advance_cons hne]
      rfl
  | .paren l e r, n, rest, hn, hfit, hne => by
      simp only [Factor.tokens, List.length_cons, List.length_append,
        List.length_nil, List.forall_mem_cons, List.forall_mem_append]
        at hn hfit
      obtain ⟨n, rfl⟩ : ∃ m, n = m + 1 := ⟨n - 1, by omega⟩
      have hr : (peek (r.val :: rest)).isOperator = false := by
        rw [peek, r.property]
        rfl
      have he := expression_complete behind e n (r.val :: rest) (by omega)
        hfit.2.1 hr (by simp)
      simp only [Factor.tokens, List.cons_append, List.append_assoc,
        List.nil_append, factor, l.property,
        advance_cons
          (List.append_ne_nil_of_right_ne_nil _ (List.cons_ne_nil _ _)),
        ok_bind, he, expect_cons r.property hne]
      rfl
  | .name t, n, rest, hn, _, hne => by
      simp only [Factor.tokens, List.length_cons] at hn
      obtain ⟨n, rfl⟩ : ∃ m, n = m + 1 := ⟨n - 1, by omega⟩
      simp only [Factor.tokens, List.cons_append, List.nil_append, factor,
        t.property, expect_cons t.property hne]
      rfl

private theorem termTail_complete (behind : ParseError) :
    ∀ (d : Factors) (n : Nat) (left : Expr) (rest : List Token),
      4 * d.tokens.length + 1 ≤ n → (∀ t ∈ d.tokens, t.Fits) →
      (peek rest).isMultiplicative = false → rest ≠ [] →
      termTail behind n left (d.tokens ++ rest) = .ok (d.tree left, rest)
  | .nil, n, left, rest, hn, _, hm, hne => by
      obtain ⟨n, rfl⟩ : ∃ m, n = m + 1 := ⟨n - 1, by omega⟩
      exact operatorTail_of_peek hne hm
  | .cons op f fs, n, left, rest, hn, hfit, hm, hne => by
      simp only [Factors.tokens, List.length_cons, List.length_append,
        List.forall_mem_cons, List.forall_mem_append] at hn hfit
      obtain ⟨n, rfl⟩ : ∃ m, n = m + 1 := ⟨n - 1, by omega⟩
      have hne' : fs.tokens ++ rest ≠ [] :=
        List.append_ne_nil_of_right_ne_nil _ hne
      have hf :=
        factor_complete behind f n (fs.tokens ++ rest) (by omega) hfit.2.1 hne'
      have hfs := termTail_complete behind fs n (.binary op.val left f.tree)
        rest (by omega) hfit.2.2 hm hne
      rw [Factors.tokens, List.cons_append, List.append_assoc, termTail,
        operatorTail_cons op (List.append_ne_nil_of_right_ne_nil _ hne') hf]
      exact hfs

private theorem term_complete (behind : ParseError) :
    ∀ (d : Term) (n : Nat) (rest : List Token), 4 * d.tokens.length + 1 ≤ n →
      (∀ t ∈ d.tokens, t.Fits) → (peek rest).isMultiplicative = false →
      rest ≠ [] → term behind n (d.tokens ++ rest) = .ok (d.tree, rest)
  | .mk f fs, n, rest, hn, hfit, hm, hne => by
      simp only [Term.tokens, List.length_append, List.forall_mem_append]
        at hn hfit
      have hpos := Factor.length_pos f
      obtain ⟨n, rfl⟩ : ∃ m, n = m + 1 := ⟨n - 1, by omega⟩
      have hf := factor_complete behind f n (fs.tokens ++ rest) (by omega)
        hfit.1 (List.append_ne_nil_of_right_ne_nil _ hne)
      have hfs :=
        termTail_complete behind fs n f.tree rest (by omega) hfit.2 hm hne
      simp only [Term.tokens, List.append_assoc, term, hf, ok_bind, hfs]
      rfl

private theorem sumTail_complete (behind : ParseError) :
    ∀ (d : Terms) (n : Nat) (left : Expr) (rest : List Token),
      4 * d.tokens.length + 1 ≤ n → (∀ t ∈ d.tokens, t.Fits) →
      (peek rest).isMultiplicative = false → (peek rest).isAdditive = false →
      rest ≠ [] →
      sumTail behind n left (d.tokens ++ rest) = .ok (d.tree left, rest)
  | .nil, n, left, rest, hn, _, _, ha, hne => by
      obtain ⟨n, rfl⟩ : ∃ m, n = m + 1 := ⟨n - 1, by omega⟩
      exact operatorTail_of_peek hne ha
  | .cons op t ts, n, left, rest, hn, hfit, hm, ha, hne => by
      simp only [Terms.tokens, List.length_cons, List.length_append,
        List.forall_mem_cons, List.forall_mem_append] at hn hfit
      obtain ⟨n, rfl⟩ : ∃ m, n = m + 1 := ⟨n - 1, by omega⟩
      have hne' : ts.tokens ++ rest ≠ [] :=
        List.append_ne_nil_of_right_ne_nil _ hne
      have hm' :=
        peek_terms ts (fun _ h => Kind.isMultiplicative_of_isAdditive h) hm
      have ht := term_complete behind t n (ts.tokens ++ rest) (by omega)
        hfit.2.1 hm' hne'
      have hts := sumTail_complete behind ts n (.binary op.val left t.tree) rest
        (by omega) hfit.2.2 hm ha hne
      rw [Terms.tokens, List.cons_append, List.append_assoc, sumTail,
        operatorTail_cons op (List.append_ne_nil_of_right_ne_nil _ hne') ht]
      exact hts

private theorem sum_complete (behind : ParseError) :
    ∀ (d : Grammar.Sum) (n : Nat) (rest : List Token),
      4 * d.tokens.length + 2 ≤ n → (∀ t ∈ d.tokens, t.Fits) →
      (peek rest).isMultiplicative = false → (peek rest).isAdditive = false →
      rest ≠ [] → sum behind n (d.tokens ++ rest) = .ok (d.tree, rest)
  | .mk t ts, n, rest, hn, hfit, hm, ha, hne => by
      simp only [Sum.tokens, List.length_append, List.forall_mem_append]
        at hn hfit
      obtain ⟨n, rfl⟩ : ∃ m, n = m + 1 := ⟨n - 1, by omega⟩
      have hm' :=
        peek_terms ts (fun _ h => Kind.isMultiplicative_of_isAdditive h) hm
      have ht := term_complete behind t n (ts.tokens ++ rest) (by omega) hfit.1
        hm' (List.append_ne_nil_of_right_ne_nil _ hne)
      have hts :=
        sumTail_complete behind ts n t.tree rest (by omega) hfit.2 hm ha hne
      simp only [Sum.tokens, List.append_assoc, sum, ht, ok_bind, hts]
      rfl

/-- **Expressions are complete.** -/
theorem expression_complete (behind : ParseError) :
    ∀ (d : Expression) (n : Nat) (rest : List Token),
      4 * d.tokens.length + 3 ≤ n → (∀ t ∈ d.tokens, t.Fits) →
      (peek rest).isOperator = false → rest ≠ [] →
      expression behind n (d.tokens ++ rest) = .ok (d.tree, rest)
  | .sum s, n, rest, hn, hfit, ho, hne => by
      simp only [Expression.tokens] at hn hfit
      obtain ⟨n, rfl⟩ : ∃ m, n = m + 2 := ⟨n - 2, by omega⟩
      simp only [Kind.isOperator, Bool.or_eq_false_iff] at ho
      have hs :=
        sum_complete behind s (n + 1) rest (by omega) hfit ho.1.1 ho.1.2 hne
      simp only [Expression.tokens, expression, hs, ok_bind]
      rw [comparison]
      exact operatorTail_of_peek hne ho.2
  | .comparison l op r, n, rest, hn, hfit, ho, hne => by
      simp only [Expression.tokens, List.length_append, List.length_cons,
        List.forall_mem_cons, List.forall_mem_append] at hn hfit
      obtain ⟨n, rfl⟩ : ∃ m, n = m + 2 := ⟨n - 2, by omega⟩
      simp only [Kind.isOperator, Bool.or_eq_false_iff] at ho
      have hl := sum_complete behind l (n + 1) (op.val :: (r.tokens ++ rest))
        (by omega) hfit.1 (Kind.isMultiplicative_of_isRelational op.property)
        (Kind.isAdditive_of_isRelational op.property) (by simp)
      have hr :=
        sum_complete behind r n rest (by omega) hfit.2.2 ho.1.1 ho.1.2 hne
      simp only [Expression.tokens, List.append_assoc, List.cons_append,
        expression, hl, ok_bind]
      rw [comparison,
        operatorTail_cons op (List.append_ne_nil_of_right_ne_nil _ hne) hr]
      rfl

end

/-! ## Statements -/

private theorem operands_complete (behind : ParseError) (d : Operands) (n : Nat)
    (rest : List Token) (hn : 4 * d.tokens.length ≤ n)
    (hfit : ∀ t ∈ d.tokens, t.Fits) (hc : peek rest ≠ .comma)
    (hne : rest ≠ []) :
    operands behind n (d.tokens ++ rest) = .ok (d.tree, rest) := by
  cases d with
  | distance d =>
      simp only [Operands.tokens] at hn hfit
      have hd := factor_complete behind d n rest hn hfit hne
      simp only [Operands.tokens, operands, hd, ok_bind, if_neg hc]
      rfl
  | both d c s =>
      simp only [Operands.tokens, List.length_append, List.length_cons,
        List.forall_mem_append, List.forall_mem_cons] at hn hfit
      have hd := factor_complete behind d n (c.val :: (s.tokens ++ rest))
        (by omega) hfit.1 (by simp)
      have hs := factor_complete behind s n rest (by omega) hfit.2.2 hne
      have hp : peek (c.val :: (s.tokens ++ rest)) = .comma := c.property
      simp only [Operands.tokens, List.append_assoc, List.cons_append, operands,
        hd, ok_bind, if_pos hp,
        advance_cons (List.append_ne_nil_of_right_ne_nil _ hne), hs]
      rfl

/-- Where nothing begins, the empty statement is read. -/
private theorem statement_skip {behind : ParseError} {n : Nat}
    {rest : List Token} (h : (peek rest).endsStatement = true) :
    statement behind (n + 1) rest = .ok (.skip, rest) := by
  cases rest with
  | nil => cases h
  | cons t rest =>
      rw [statement]
      split <;> simp_all [peek, Kind.endsStatement]

theorem statement_move {behind : ParseError} {n : Nat} {ts : List Token}
    {axis : Axis} {t : Token} (h : t.kind = axis.kind) :
    statement behind (n + 1) (t :: ts) = (do
      let ts ← advance behind (t :: ts)
      let ((distance, speed), ts) ← operands behind n ts
      return (.move t axis distance speed, ts)) := by
  cases axis with
  | linear => simp only [statement, h, Axis.kind]
  | rotary => simp only [statement, h, Axis.kind]

private theorem headD_append_cons (front : List Token) (c t : Token)
    (rest : List Token) : (front ++ c :: rest).headD t = front.headD c := by
  cases front with
  | nil => rfl
  | cons s front => rfl

mutual

private theorem statement_complete (behind : ParseError) :
    ∀ (d : Statement) (n : Nat) (rest : List Token),
      4 * d.tokens.length + 1 ≤ n → (∀ t ∈ d.tokens, t.Fits) →
      (peek rest).endsStatement = true →
      statement behind n (d.tokens ++ rest) = .ok (d.tree, rest)
  | .empty, n, rest, hn, _, he => by
      obtain ⟨n, rfl⟩ : ∃ m, n = m + 1 := ⟨n - 1, by omega⟩
      exact statement_skip he
  | .compound b ss e, n, rest, hn, hfit, he => by
      simp only [Statement.tokens, List.length_cons, List.length_append,
        List.length_nil, List.forall_mem_cons, List.forall_mem_append]
        at hn hfit
      obtain ⟨n, rfl⟩ : ∃ m, n = m + 1 := ⟨n - 1, by omega⟩
      have hss := statements_complete behind ss n (e.val :: rest) (by omega)
        hfit.2.1 (by rw [peek, e.property]; rfl)
      simp only [Statement.tokens, List.cons_append, List.append_assoc,
        List.nil_append, statement, b.property,
        advance_cons
          (List.append_ne_nil_of_right_ne_nil _ (List.cons_ne_nil _ _)),
        ok_bind, hss, expect_cons e.property (ne_nil_of_endsStatement he)]
      rfl
  | .assign t op e, n, rest, hn, hfit, he => by
      simp only [Statement.tokens, List.length_cons, List.forall_mem_cons]
        at hn hfit
      obtain ⟨n, rfl⟩ : ∃ m, n = m + 1 := ⟨n - 1, by omega⟩
      have hne := ne_nil_of_endsStatement he
      have hv := expression_complete behind e n rest (by omega) hfit.2.2
        (Kind.isOperator_of_endsStatement he) hne
      simp only [Statement.tokens, List.cons_append, statement, t.property,
        advance_cons (List.cons_ne_nil _ _), ok_bind,
        expect_cons op.property (List.append_ne_nil_of_right_ne_nil _ hne), hv]
      rfl
  | .ifThen i c col ss e, n, rest, hn, hfit, he => by
      simp only [Statement.tokens, List.length_cons, List.length_append,
        List.length_nil, List.forall_mem_cons, List.forall_mem_append]
        at hn hfit
      obtain ⟨n, rfl⟩ : ∃ m, n = m + 1 := ⟨n - 1, by omega⟩
      have hc := expression_complete behind c n
        (col.val :: (ss.tokens ++ e.val :: rest)) (by omega) hfit.2.1
        (by rw [peek, col.property]; rfl) (by simp)
      have hss := statements_complete behind ss n (e.val :: rest) (by omega)
        hfit.2.2.2.1 (by rw [peek, e.property]; rfl)
      have hp : ¬ peek (e.val :: rest) = .kwElse := by
        rw [peek, e.property]; simp
      simp only [Statement.tokens, List.cons_append, List.append_assoc,
        List.nil_append, statement, i.property,
        advance_cons
          (List.append_ne_nil_of_right_ne_nil _ (List.cons_ne_nil _ _)),
        ok_bind, hc,
        expect_cons col.property
          (List.append_ne_nil_of_right_ne_nil _ (List.cons_ne_nil _ _)), hss,
        if_neg hp, expect_cons e.property (ne_nil_of_endsStatement he),
        headD_append_cons]
      rfl
  | .ifElse i c col ss el col' alt e, n, rest, hn, hfit, he => by
      simp only [Statement.tokens, List.length_cons, List.length_append,
        List.length_nil, List.forall_mem_cons, List.forall_mem_append]
        at hn hfit
      obtain ⟨n, rfl⟩ : ∃ m, n = m + 1 := ⟨n - 1, by omega⟩
      have hc := expression_complete behind c n
        (col.val ::
          (ss.tokens ++ el.val :: col'.val :: (alt.tokens ++ e.val :: rest)))
        (by omega) hfit.2.1 (by rw [peek, col.property]; rfl) (by simp)
      have hss := statements_complete behind ss n
        (el.val :: col'.val :: (alt.tokens ++ e.val :: rest)) (by omega)
        hfit.2.2.2.1 (by rw [peek, el.property]; rfl)
      have halt := statements_complete behind alt n (e.val :: rest) (by omega)
        hfit.2.2.2.2.2.2.1 (by rw [peek, e.property]; rfl)
      have hp : peek (el.val :: col'.val :: (alt.tokens ++ e.val :: rest)) =
          .kwElse := el.property
      simp only [Statement.tokens, List.cons_append, List.append_assoc,
        List.nil_append, statement, i.property,
        advance_cons
          (List.append_ne_nil_of_right_ne_nil _ (List.cons_ne_nil _ _)),
        ok_bind, hc,
        expect_cons col.property
          (List.append_ne_nil_of_right_ne_nil _ (List.cons_ne_nil _ _)), hss,
        if_pos hp, advance_cons (List.cons_ne_nil _ _), halt,
        expect_cons col'.property
          (List.append_ne_nil_of_right_ne_nil _ (List.cons_ne_nil _ _)),
        expect_cons e.property (ne_nil_of_endsStatement he), headD_append_cons]
      rfl
  | .loop l col ss u c, n, rest, hn, hfit, he => by
      simp only [Statement.tokens, List.length_cons, List.length_append,
        List.forall_mem_cons, List.forall_mem_append] at hn hfit
      obtain ⟨n, rfl⟩ : ∃ m, n = m + 1 := ⟨n - 1, by omega⟩
      have hne := ne_nil_of_endsStatement he
      have hss := statements_complete behind ss n (u.val :: (c.tokens ++ rest))
        (by omega) hfit.2.2.1 (by rw [peek, u.property]; rfl)
      have hc := expression_complete behind c n rest (by omega) hfit.2.2.2.2
        (Kind.isOperator_of_endsStatement he) hne
      simp only [Statement.tokens, List.cons_append, List.append_assoc,
        statement, l.property, advance_cons (List.cons_ne_nil _ _), ok_bind,
        expect_cons col.property
          (List.append_ne_nil_of_right_ne_nil _ (List.cons_ne_nil _ _)), hss,
        expect_cons u.property (List.append_ne_nil_of_right_ne_nil _ hne), hc,
        headD_append_cons]
      rfl
  | .wait w e, n, rest, hn, hfit, he => by
      simp only [Statement.tokens, List.length_cons, List.forall_mem_cons]
        at hn hfit
      obtain ⟨n, rfl⟩ : ∃ m, n = m + 1 := ⟨n - 1, by omega⟩
      have hne := ne_nil_of_endsStatement he
      have hd := expression_complete behind e n rest (by omega) hfit.2
        (Kind.isOperator_of_endsStatement he) hne
      simp only [Statement.tokens, List.cons_append, statement, w.property,
        advance_cons (List.append_ne_nil_of_right_ne_nil _ hne), ok_bind, hd]
      rfl
  | .move axis m o, n, rest, hn, hfit, he => by
      simp only [Statement.tokens, List.length_cons, List.forall_mem_cons]
        at hn hfit
      obtain ⟨n, rfl⟩ : ∃ m, n = m + 1 := ⟨n - 1, by omega⟩
      have hne := ne_nil_of_endsStatement he
      have ho := operands_complete behind o n rest (by omega) hfit.2
        (Kind.ne_comma_of_endsStatement he) hne
      simp only [Statement.tokens, List.cons_append, statement_move m.property,
        advance_cons (List.append_ne_nil_of_right_ne_nil _ hne), ok_bind, ho]
      rfl
  | .home h, n, rest, hn, _, he => by
      obtain ⟨n, rfl⟩ : ∃ m, n = m + 1 := ⟨n - 1, by omega⟩
      simp only [Statement.tokens, List.cons_append, List.nil_append, statement,
        h.property, advance_cons (ne_nil_of_endsStatement he)]
      rfl
  | .stop s, n, rest, hn, _, he => by
      obtain ⟨n, rfl⟩ : ∃ m, n = m + 1 := ⟨n - 1, by omega⟩
      simp only [Statement.tokens, List.cons_append, List.nil_append, statement,
        s.property, advance_cons (ne_nil_of_endsStatement he)]
      rfl

/-- **Statement lists are complete.** -/
theorem statements_complete (behind : ParseError) :
    ∀ (d : Statements) (n : Nat) (rest : List Token),
      4 * d.tokens.length + 2 ≤ n → (∀ t ∈ d.tokens, t.Fits) →
      (peek rest).endsList = true →
      statements behind n (d.tokens ++ rest) = .ok (d.tree, rest)
  | .one s, n, rest, hn, hfit, he => by
      simp only [Statements.tokens] at hn hfit
      obtain ⟨n, rfl⟩ : ∃ m, n = m + 1 := ⟨n - 1, by omega⟩
      have hs := statement_complete behind s n rest (by omega) hfit
        (Kind.endsStatement_of_endsList he)
      simp only [Statements.tokens, statements, hs, ok_bind,
        if_neg (Kind.ne_semi_of_endsList he)]
      rfl
  | .more s semi ss, n, rest, hn, hfit, he => by
      simp only [Statements.tokens, List.length_append, List.length_cons,
        List.forall_mem_append, List.forall_mem_cons] at hn hfit
      obtain ⟨n, rfl⟩ : ∃ m, n = m + 1 := ⟨n - 1, by omega⟩
      have hs := statement_complete behind s n (semi.val :: (ss.tokens ++ rest))
        (by omega) hfit.1 (by rw [peek, semi.property]; rfl)
      have hss := statements_complete behind ss n rest (by omega) hfit.2.2 he
      have hp : peek (semi.val :: (ss.tokens ++ rest)) = .semi := semi.property
      have hne := ne_nil_of_endsStatement (Kind.endsStatement_of_endsList he)
      simp only [Statements.tokens, List.append_assoc, List.cons_append,
        statements, hs, ok_bind, if_pos hp,
        advance_cons (List.append_ne_nil_of_right_ne_nil _ hne), hss]
      rfl

end

/-! ## Declarations -/

section Declarations

variable (behind : ParseError)

private theorem names_complete : ∀ (d : Names) (n : Nat) (rest : List Token),
    d.tokens.length ≤ n → peek rest ≠ .comma → rest ≠ [] →
    names behind n (d.tokens ++ rest) = .ok (d.ids, rest)
  | .one id, n, rest, hn, hc, hne => by
      simp only [Names.tokens, List.length_cons] at hn
      obtain ⟨n, rfl⟩ : ∃ m, n = m + 1 := ⟨n - 1, by omega⟩
      simp only [Names.tokens, List.cons_append, List.nil_append, names,
        expect_cons id.property hne, ok_bind, if_neg hc]
      rfl
  | .more id c ids, n, rest, hn, hc, hne => by
      simp only [Names.tokens, List.length_cons] at hn
      obtain ⟨n, rfl⟩ : ∃ m, n = m + 1 := ⟨n - 1, by omega⟩
      have hids := names_complete ids n rest (by omega) hc hne
      have hp : peek (c.val :: (ids.tokens ++ rest)) = .comma := c.property
      simp only [Names.tokens, List.cons_append, names,
        expect_cons id.property (List.cons_ne_nil _ _), ok_bind, if_pos hp,
        advance_cons (List.append_ne_nil_of_right_ne_nil _ hne), hids]
      rfl

theorem peek_names (d : Names) (rest : List Token) :
    peek (d.tokens ++ rest) = .ident := by
  cases d with
  | one id => exact id.property
  | more id c ids => exact id.property

private theorem varDecls_complete :
    ∀ (d : List VarGroup) (n : Nat) (rest : List Token),
      4 * (d.flatMap VarGroup.tokens).length + 1 ≤ n → peek rest ≠ .ident →
      rest ≠ [] →
      varDecls behind n (d.flatMap VarGroup.tokens ++ rest) =
        .ok (d.flatMap VarGroup.tree, rest)
  | [], n, rest, hn, hp, _ => by
      obtain ⟨n, rfl⟩ : ∃ m, n = m + 1 := ⟨n - 1, by omega⟩
      simp only [List.flatMap_nil, List.nil_append, varDecls, if_neg hp]
  | g :: gs, n, rest, hn, hp, hne => by
      simp only [List.flatMap_cons, VarGroup.tokens, List.length_append,
        List.length_cons] at hn
      obtain ⟨n, rfl⟩ : ∃ m, n = m + 1 := ⟨n - 1, by omega⟩
      have hgs := varDecls_complete gs n rest (by omega) hp hne
      have hids := names_complete behind g.names n
        (g.colon.val :: g.type.val :: g.semi.val ::
          (gs.flatMap VarGroup.tokens ++ rest)) (by omega)
        (by rw [peek, g.colon.property]; simp) (by simp)
      have hty : (peek (g.type.val :: g.semi.val ::
          (gs.flatMap VarGroup.tokens ++ rest))).isVariableType = true :=
        g.type.property
      simp only [List.flatMap_cons, VarGroup.tokens, List.append_assoc,
        List.cons_append, List.nil_append, varDecls,
        if_pos (peek_names g.names _), hids, ok_bind,
        expect_cons g.colon.property (List.cons_ne_nil _ _), if_pos hty,
        advance_cons (List.cons_ne_nil _ _),
        expect_cons g.semi.property (List.append_ne_nil_of_right_ne_nil _ hne),
        hgs]
      rfl

private theorem pinNumber_cons {t : Token} {rest : List Token}
    (hk : t.kind = .integerConst) (hfit : t.Fits) (hne : rest ≠ []) :
    pinNumber behind (t :: rest) =
      .ok (Int64.ofNat (Numeral.digits 0 t.literal.toList), rest) := by
  simp only [pinNumber, if_pos hk, integer?_eq (hfit.integer hk),
    advance_cons hne]
  rfl

private theorem pinDecls_complete :
    ∀ (d : List Grammar.Pin) (n : Nat) (rest : List Token),
      4 * (d.flatMap Grammar.Pin.tokens).length + 1 ≤ n →
      (∀ t ∈ d.flatMap Grammar.Pin.tokens, t.Fits) → peek rest ≠ .ident →
      rest ≠ [] →
      pinDecls behind n (d.flatMap Grammar.Pin.tokens ++ rest) =
        .ok (d.map Grammar.Pin.tree, rest)
  | [], n, rest, hn, _, hp, _ => by
      obtain ⟨n, rfl⟩ : ∃ m, n = m + 1 := ⟨n - 1, by omega⟩
      simp only [List.flatMap_nil, List.nil_append, pinDecls, if_neg hp,
        List.map_nil]
  | g :: gs, n, rest, hn, hfit, hp, hne => by
      simp only [List.flatMap_cons, Grammar.Pin.tokens, List.length_append,
        List.length_cons, List.forall_mem_append, List.forall_mem_cons]
        at hn hfit
      obtain ⟨n, rfl⟩ : ∃ m, n = m + 1 := ⟨n - 1, by omega⟩
      have hgs := pinDecls_complete gs n rest (by omega) hfit.2 hp hne
      have hid : peek (g.id.val :: g.colon.val :: g.direction.val ::
            g.number.val :: g.semi.val ::
            (gs.flatMap Grammar.Pin.tokens ++ rest)) = .ident := g.id.property
      have hdir : (peek (g.direction.val :: g.number.val :: g.semi.val ::
          (gs.flatMap Grammar.Pin.tokens ++ rest))).isDirection = true :=
        g.direction.property
      simp only [List.flatMap_cons, Grammar.Pin.tokens, List.cons_append,
        List.nil_append, pinDecls, if_pos hid,
        expect_cons g.id.property (List.cons_ne_nil _ _), ok_bind,
        expect_cons g.colon.property (List.cons_ne_nil _ _), if_pos hdir,
        advance_cons (List.cons_ne_nil _ _),
        pinNumber_cons behind g.number.property hfit.1.2.2.2.1
          (List.cons_ne_nil _ _),
        expect_cons g.semi.property (List.append_ne_nil_of_right_ne_nil _ hne),
        hgs]
      rfl

private theorem waypointDecls_complete :
    ∀ (d : List Waypoint) (n : Nat) (rest : List Token),
      4 * (d.flatMap Waypoint.tokens).length + 1 ≤ n →
      (∀ t ∈ d.flatMap Waypoint.tokens, t.Fits) → peek rest ≠ .ident →
      rest ≠ [] →
      waypointDecls behind n (d.flatMap Waypoint.tokens ++ rest) =
        .ok (d.map Waypoint.tree, rest)
  | [], n, rest, hn, _, hp, _ => by
      obtain ⟨n, rfl⟩ : ∃ m, n = m + 1 := ⟨n - 1, by omega⟩
      simp only [List.flatMap_nil, List.nil_append, waypointDecls, if_neg hp,
        List.map_nil]
  | g :: gs, n, rest, hn, hfit, hp, hne => by
      simp only [List.flatMap_cons, Waypoint.tokens, List.length_append,
        List.length_cons, List.forall_mem_append, List.forall_mem_cons]
        at hn hfit
      obtain ⟨n, rfl⟩ : ∃ m, n = m + 1 := ⟨n - 1, by omega⟩
      have hne' : gs.flatMap Waypoint.tokens ++ rest ≠ [] :=
        List.append_ne_nil_of_right_ne_nil _ hne
      have hgs := waypointDecls_complete gs n rest (by omega) hfit.2 hp hne
      have hd := factor_complete behind g.distance n
        (g.comma.val ::
          (g.speed.tokens ++ g.semi.val ::
            (gs.flatMap Waypoint.tokens ++ rest))) (by omega) hfit.1.2.2.1
        (by simp)
      have hs := factor_complete behind g.speed n
        (g.semi.val :: (gs.flatMap Waypoint.tokens ++ rest)) (by omega)
        hfit.1.2.2.2.2.1 (by simp)
      have hid : peek (g.id.val :: g.op.val ::
            (g.distance.tokens ++ g.comma.val ::
              (g.speed.tokens ++ g.semi.val ::
                (gs.flatMap Waypoint.tokens ++ rest)))) = .ident :=
        g.id.property
      simp only [List.flatMap_cons, Waypoint.tokens, List.cons_append,
        List.append_assoc, List.nil_append, waypointDecls, if_pos hid,
        expect_cons g.id.property (List.cons_ne_nil _ _), ok_bind,
        expect_cons g.op.property
          (List.append_ne_nil_of_right_ne_nil _ (List.cons_ne_nil _ _)), hd,
        expect_cons g.comma.property
          (List.append_ne_nil_of_right_ne_nil _ (List.cons_ne_nil _ _)), hs,
        expect_cons g.semi.property hne', hgs]
      rfl

variable {behind}

/-- A section is complete if its declarations are. -/
private theorem optionalSection_complete {δ α : Type} {k : Kind}
    {tokens : δ → List Token} {tree : List δ → List α}
    {decls : List Token → Except ParseError (List α × List Token)}
    (d : Grammar.Section k δ) {rest : List Token} (hnil : tree [] = [])
    (hdecls : decls (d.decls.flatMap tokens ++ rest) = .ok (tree d.decls, rest))
    (hk : peek rest ≠ k) (hne : rest ≠ []) :
    optionalSection behind k decls (d.tokens tokens ++ rest) =
      .ok (tree d.decls, rest) := by
  cases d with
  | absent =>
      rw [Section.tokens, List.nil_append, optionalSection, if_neg hk,
        Section.decls, hnil]
  | present t ds =>
      have hp : peek (t.val :: (ds.flatMap tokens ++ rest)) = k := t.property
      simp only [Section.decls] at hdecls
      simp only [Section.tokens, List.cons_append, Section.decls,
        optionalSection, if_pos hp,
        advance_cons (List.append_ne_nil_of_right_ne_nil _ hne), ok_bind,
        hdecls]

/-- What stands at the front of a section that may be missing. -/
theorem peek_section {δ : Type} {k : Kind} (tokens : δ → List Token)
    (d : Grammar.Section k δ) {rest : List Token} {ks : List Kind}
    (h : peek rest ∈ ks) : peek (d.tokens tokens ++ rest) ∈ k :: ks := by
  cases d with
  | absent => exact List.mem_cons_of_mem _ h
  | present t ds => exact List.mem_cons.2 (.inl t.property)

private theorem length_section {δ : Type} {k : Kind} (tokens : δ → List Token)
    (d : Grammar.Section k δ) :
    (d.decls.flatMap tokens).length ≤ (d.tokens tokens).length := by
  cases d with
  | absent => exact Nat.le_refl _
  | present t ds => exact Nat.le_succ _

private theorem fits_section {δ : Type} {k : Kind} {tokens : δ → List Token}
    {d : Grammar.Section k δ} (h : ∀ t ∈ d.tokens tokens, t.Fits) :
    ∀ t ∈ d.decls.flatMap tokens, t.Fits := by
  cases d with
  | absent => exact h
  | present s ds => exact fun t ht => h t (List.mem_cons_of_mem _ ht)

end Declarations

/-! ## Programs -/

private theorem block_complete (behind : ParseError) (d : Grammar.Block)
    (n : Nat) (rest : List Token) (hn : 4 * d.tokens.length + 1 ≤ n)
    (hfit : ∀ t ∈ d.tokens, t.Fits) (hne : rest ≠ []) :
    block behind n (d.tokens ++ rest) = .ok (d.tree, rest) := by
  obtain ⟨vars, pins, ways, opening, body, closing⟩ := d
  simp only [Block.tokens, List.length_append, List.length_cons,
    List.length_nil, List.forall_mem_append, List.forall_mem_cons] at hn hfit
  have hlv := length_section VarGroup.tokens vars
  have hlp := length_section Grammar.Pin.tokens pins
  have hlw := length_section Waypoint.tokens ways
  -- The rest behind each part, and what the lookahead sees there.
  let rest₃ := opening.val :: (body.tokens ++ closing.val :: rest)
  let rest₂ := ways.tokens Waypoint.tokens ++ rest₃
  let rest₁ := pins.tokens Grammar.Pin.tokens ++ rest₂
  have hp₃ : peek rest₃ ∈ [Kind.kwBegin] :=
    List.mem_singleton.2 opening.property
  have hp₂ : peek rest₂ ∈ [Kind.kwWaypoint, .kwBegin] :=
    peek_section Waypoint.tokens ways hp₃
  have hp₁ : peek rest₁ ∈ [Kind.kwPins, .kwWaypoint, .kwBegin] :=
    peek_section Grammar.Pin.tokens pins hp₂
  have hne₃ : rest₃ ≠ [] := List.cons_ne_nil _ _
  have hne₂ : rest₂ ≠ [] := List.append_ne_nil_of_right_ne_nil _ hne₃
  have hne₁ : rest₁ ≠ [] := List.append_ne_nil_of_right_ne_nil _ hne₂
  have hvars : optionalSection behind .kwVar (varDecls behind n)
        (vars.tokens VarGroup.tokens ++ rest₁) =
      .ok (vars.decls.flatMap VarGroup.tree, rest₁) :=
    optionalSection_complete vars rfl
      (varDecls_complete behind vars.decls n rest₁ (by omega)
        (ne_of_mem_of_not_mem hp₁ (by simp)) hne₁)
      (ne_of_mem_of_not_mem hp₁ (by simp)) hne₁
  have hpins : optionalSection behind .kwPins (pinDecls behind n) rest₁ =
      .ok (pins.decls.map Grammar.Pin.tree, rest₂) :=
    optionalSection_complete pins rfl
      (pinDecls_complete behind pins.decls n rest₂ (by omega)
        (fits_section hfit.2.1) (ne_of_mem_of_not_mem hp₂ (by simp)) hne₂)
      (ne_of_mem_of_not_mem hp₂ (by simp)) hne₂
  have hways : optionalSection behind .kwWaypoint (waypointDecls behind n)
        rest₂ = .ok (ways.decls.map Waypoint.tree, rest₃) :=
    optionalSection_complete ways rfl
      (waypointDecls_complete behind ways.decls n rest₃ (by omega)
        (fits_section hfit.2.2.1) (ne_of_mem_of_not_mem hp₃ (by simp)) hne₃)
      (ne_of_mem_of_not_mem hp₃ (by simp)) hne₃
  have hbody := statements_complete behind body n (closing.val :: rest)
    (by omega) hfit.2.2.2.2.1 (by rw [peek, closing.property]; rfl)
  have hsplit : Block.tokens ⟨vars, pins, ways, opening, body, closing⟩ ++
        rest = vars.tokens VarGroup.tokens ++ rest₁ := by
    simp only [Block.tokens, List.append_assoc, List.cons_append,
      List.nil_append, rest₁, rest₂, rest₃]
  simp only [hsplit, block, hvars, ok_bind, hpins, hways, rest₃,
    expect_cons opening.property
      (List.append_ne_nil_of_right_ne_nil _ (List.cons_ne_nil _ _)), hbody,
    expect_cons closing.property hne]
  rfl

/-- **Programs are complete.** The frontier of a program, followed by the end of
the source, is read as its tree. -/
theorem program_complete (behind : ParseError) (d : Grammar.Program)
    (eof : TokenOf .eof) (more : List Token) (n : Nat)
    (hn : 4 * d.tokens.length ≤ n) (hfit : ∀ t ∈ d.tokens, t.Fits) :
    program behind n (d.tokens ++ eof.val :: more) = .ok d.tree := by
  obtain ⟨tok, name, semi, b, dot⟩ := d
  simp only [Program.tokens, List.length_append, List.length_cons,
    List.length_nil, List.forall_mem_append, List.forall_mem_cons] at hn hfit
  have hb := block_complete behind b n (dot.val :: eof.val :: more) (by omega)
    hfit.2.2.2.1 (by simp)
  have hp : peek (eof.val :: more) = .eof := eof.property
  simp only [Program.tokens, List.cons_append, List.append_assoc,
    List.nil_append, program, expect_cons tok.property (List.cons_ne_nil _ _),
    ok_bind, expect_cons name.property (List.cons_ne_nil _ _),
    expect_cons semi.property
      (List.append_ne_nil_of_right_ne_nil _ (List.cons_ne_nil _ _)), hb,
    expect_cons dot.property (List.cons_ne_nil _ _), if_pos hp]
  rfl

end Parse

end Fixture
