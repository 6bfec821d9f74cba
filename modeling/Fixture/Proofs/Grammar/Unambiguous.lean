import Fixture.Proofs.Grammar.Complete
/-!
# The grammar is unambiguous

A list of tokens is the frontier of one derivation at most. Each lemma here says
more, so that an induction can carry it: if two derivations of one nonterminal,
each with something behind it, make up the same list, then the derivations are
equal and so is what stands behind them. As in
`Fixture.Proofs.Grammar.Complete`, what stands behind must not carry the
derivation on.

Nothing about numerals enters: a source with a numeral that is too large has a
unique derivation all the same.

## Main results

* `Factor.unique`, `Expression.unique`, `Statements.unique`: for one nonterminal
  each.
* `Source.unique`: a whole source has one derivation at most.
-/

namespace Fixture.Grammar

open Parse

/-! ## Terminals -/

section Terminals

variable {rest rest' : List Token}

private theorem tokenOf_unique {k : Kind} {t t' : TokenOf k}
    (h : t.val :: rest = t'.val :: rest') : t = t' ∧ rest = rest' :=
  ⟨Subtype.ext (List.cons.inj h).1, (List.cons.inj h).2⟩

private theorem tokenIn_unique {p : Kind → Bool} {t t' : TokenIn p}
    (h : t.val :: rest = t'.val :: rest') : t = t' ∧ rest = rest' :=
  ⟨Subtype.ext (List.cons.inj h).1, (List.cons.inj h).2⟩

end Terminals

/-! ## Expressions -/

mutual

/-- **Factors are unambiguous.** The kind of the first token tells the
right-hand sides apart. -/
theorem Factor.unique : ∀ (d d' : Factor) (rest rest' : List Token),
    d.tokens ++ rest = d'.tokens ++ rest' → d = d' ∧ rest = rest'
  | .signed op f, d', rest, rest', h => by
      cases d' with
      | signed op' f' =>
          obtain ⟨rfl, hf⟩ := tokenIn_unique h
          obtain ⟨rfl, rfl⟩ := Factor.unique f f' rest rest' hf
          exact ⟨rfl, rfl⟩
      | _ => grind [Factor.tokens, Kind.isAdditive]
  | .integer t, d', rest, rest', h => by
      cases d' with
      | integer t' =>
          obtain ⟨rfl, rfl⟩ := tokenOf_unique h
          exact ⟨rfl, rfl⟩
      | _ => grind [Factor.tokens, Kind.isAdditive]
  | .real t, d', rest, rest', h => by
      cases d' with
      | real t' =>
          obtain ⟨rfl, rfl⟩ := tokenOf_unique h
          exact ⟨rfl, rfl⟩
      | _ => grind [Factor.tokens, Kind.isAdditive]
  | .boolean t, d', rest, rest', h => by
      cases d' with
      | boolean t' =>
          obtain ⟨rfl, rfl⟩ := tokenOf_unique h
          exact ⟨rfl, rfl⟩
      | _ => grind [Factor.tokens, Kind.isAdditive]
  | .paren l e r, d', rest, rest', h => by
      cases d' with
      | paren l' e' r' =>
          simp only [Factor.tokens, List.cons_append, List.append_assoc,
            List.nil_append] at h
          obtain ⟨rfl, he⟩ := tokenOf_unique h
          have hr : (peek (r.val :: rest)).isOperator = false := by
            rw [peek, r.property]; rfl
          have hr' : (peek (r'.val :: rest')).isOperator = false := by
            rw [peek, r'.property]; rfl
          obtain ⟨rfl, hclose⟩ := Expression.unique e e' _ _ hr hr' he
          obtain ⟨rfl, rfl⟩ := tokenOf_unique hclose
          exact ⟨rfl, rfl⟩
      | _ => grind [Factor.tokens, Kind.isAdditive]
  | .name t, d', rest, rest', h => by
      cases d' with
      | name t' =>
          obtain ⟨rfl, rfl⟩ := tokenOf_unique h
          exact ⟨rfl, rfl⟩
      | _ => grind [Factor.tokens, Kind.isAdditive]

private theorem Factors.unique : ∀ (d d' : Factors) (rest rest' : List Token),
    (peek rest).isMultiplicative = false →
    (peek rest').isMultiplicative = false →
    d.tokens ++ rest = d'.tokens ++ rest' → d = d' ∧ rest = rest'
  | .nil, .nil, _, _, _, _, h => ⟨rfl, h⟩
  | .nil, .cons op f fs, rest, rest', hm, _, h => by
      -- The operator would be what stands behind the empty one.
      rw [show rest = op.val :: (f.tokens ++ fs.tokens ++ rest') from h, peek,
        op.property] at hm
      cases hm
  | .cons op f fs, .nil, rest, rest', _, hm', h => by
      rw [show rest' = op.val :: (f.tokens ++ fs.tokens ++ rest) from h.symm,
        peek, op.property] at hm'
      cases hm'
  | .cons op f fs, .cons op' f' fs', rest, rest', hm, hm', h => by
      simp only [Factors.tokens, List.cons_append, List.append_assoc] at h
      obtain ⟨rfl, hf⟩ := tokenIn_unique h
      obtain ⟨rfl, hfs⟩ := Factor.unique f f' _ _ hf
      obtain ⟨rfl, rfl⟩ := Factors.unique fs fs' rest rest' hm hm' hfs
      exact ⟨rfl, rfl⟩

private theorem Term.unique : ∀ (d d' : Term) (rest rest' : List Token),
    (peek rest).isMultiplicative = false →
    (peek rest').isMultiplicative = false →
    d.tokens ++ rest = d'.tokens ++ rest' → d = d' ∧ rest = rest'
  | .mk f fs, .mk f' fs', rest, rest', hm, hm', h => by
      simp only [Term.tokens, List.append_assoc] at h
      obtain ⟨rfl, hfs⟩ := Factor.unique f f' _ _ h
      obtain ⟨rfl, rfl⟩ := Factors.unique fs fs' rest rest' hm hm' hfs
      exact ⟨rfl, rfl⟩

private theorem Terms.unique : ∀ (d d' : Terms) (rest rest' : List Token),
    (peek rest).isMultiplicative = false →
    (peek rest').isMultiplicative = false → (peek rest).isAdditive = false →
    (peek rest').isAdditive = false → d.tokens ++ rest = d'.tokens ++ rest' →
    d = d' ∧ rest = rest'
  | .nil, .nil, _, _, _, _, _, _, h => ⟨rfl, h⟩
  | .nil, .cons op t ts, rest, rest', _, _, ha, _, h => by
      rw [show rest = op.val :: (t.tokens ++ ts.tokens ++ rest') from h, peek,
        op.property] at ha
      cases ha
  | .cons op t ts, .nil, rest, rest', _, _, _, ha', h => by
      rw [show rest' = op.val :: (t.tokens ++ ts.tokens ++ rest) from h.symm,
        peek, op.property] at ha'
      cases ha'
  | .cons op t ts, .cons op' t' ts', rest, rest', hm, hm', ha, ha', h => by
      simp only [Terms.tokens, List.cons_append, List.append_assoc] at h
      obtain ⟨rfl, ht⟩ := tokenIn_unique h
      obtain ⟨rfl, hts⟩ := Term.unique t t' _ _
        (peek_terms ts (fun _ h => Kind.isMultiplicative_of_isAdditive h) hm)
        (peek_terms ts' (fun _ h => Kind.isMultiplicative_of_isAdditive h) hm')
        ht
      obtain ⟨rfl, rfl⟩ := Terms.unique ts ts' rest rest' hm hm' ha ha' hts
      exact ⟨rfl, rfl⟩

private theorem Sum.unique : ∀ (d d' : Sum) (rest rest' : List Token),
    (peek rest).isMultiplicative = false →
    (peek rest').isMultiplicative = false → (peek rest).isAdditive = false →
    (peek rest').isAdditive = false → d.tokens ++ rest = d'.tokens ++ rest' →
    d = d' ∧ rest = rest'
  | .mk t ts, .mk t' ts', rest, rest', hm, hm', ha, ha', h => by
      simp only [Sum.tokens, List.append_assoc] at h
      obtain ⟨rfl, hts⟩ := Term.unique t t' _ _
        (peek_terms ts (fun _ h => Kind.isMultiplicative_of_isAdditive h) hm)
        (peek_terms ts' (fun _ h => Kind.isMultiplicative_of_isAdditive h) hm')
        h
      obtain ⟨rfl, rfl⟩ := Terms.unique ts ts' rest rest' hm hm' ha ha' hts
      exact ⟨rfl, rfl⟩

/-- **Expressions are unambiguous.** -/
theorem Expression.unique : ∀ (d d' : Expression) (rest rest' : List Token),
    (peek rest).isOperator = false → (peek rest').isOperator = false →
    d.tokens ++ rest = d'.tokens ++ rest' → d = d' ∧ rest = rest'
  | .sum s, .sum s', rest, rest', ho, ho', h => by
      simp only [Kind.isOperator, Bool.or_eq_false_iff] at ho ho'
      obtain ⟨rfl, rfl⟩ :=
        Sum.unique s s' rest rest' ho.1.1 ho'.1.1 ho.1.2 ho'.1.2 h
      exact ⟨rfl, rfl⟩
  | .sum s, .comparison l op r, rest, rest', ho, _, h => by
      simp only [Kind.isOperator, Bool.or_eq_false_iff] at ho
      simp only [Expression.tokens, List.append_assoc, List.cons_append] at h
      obtain ⟨-, hop⟩ := Sum.unique s l rest (op.val :: (r.tokens ++ rest'))
        ho.1.1 (Kind.isMultiplicative_of_isRelational op.property) ho.1.2
        (Kind.isAdditive_of_isRelational op.property) h
      rw [hop, peek, op.property] at ho
      cases ho.2
  | .comparison l op r, .sum s, rest, rest', _, ho', h => by
      simp only [Kind.isOperator, Bool.or_eq_false_iff] at ho'
      simp only [Expression.tokens, List.append_assoc, List.cons_append] at h
      obtain ⟨-, hop⟩ := Sum.unique l s (op.val :: (r.tokens ++ rest)) rest'
        (Kind.isMultiplicative_of_isRelational op.property) ho'.1.1
        (Kind.isAdditive_of_isRelational op.property) ho'.1.2 h
      rw [← hop, peek, op.property] at ho'
      cases ho'.2
  | .comparison l op r, .comparison l' op' r', rest, rest', ho, ho', h => by
      simp only [Kind.isOperator, Bool.or_eq_false_iff] at ho ho'
      simp only [Expression.tokens, List.append_assoc, List.cons_append] at h
      obtain ⟨rfl, hop⟩ := Sum.unique l l' (op.val :: (r.tokens ++ rest))
        (op'.val :: (r'.tokens ++ rest'))
        (Kind.isMultiplicative_of_isRelational op.property)
        (Kind.isMultiplicative_of_isRelational op'.property)
        (Kind.isAdditive_of_isRelational op.property)
        (Kind.isAdditive_of_isRelational op'.property) h
      obtain ⟨rfl, hr⟩ := tokenIn_unique hop
      obtain ⟨rfl, rfl⟩ :=
        Sum.unique r r' rest rest' ho.1.1 ho'.1.1 ho.1.2 ho'.1.2 hr
      exact ⟨rfl, rfl⟩

end

/-! ## Statements -/

private theorem Operands.unique (d d' : Operands) (rest rest' : List Token)
    (hc : peek rest ≠ .comma) (hc' : peek rest' ≠ .comma)
    (h : d.tokens ++ rest = d'.tokens ++ rest') : d = d' ∧ rest = rest' := by
  cases d with
  | distance d =>
      cases d' with
      | distance d' =>
          obtain ⟨rfl, rfl⟩ := Factor.unique d d' rest rest' h
          exact ⟨rfl, rfl⟩
      | both d' c' s' =>
          simp only [Operands.tokens, List.append_assoc, List.cons_append] at h
          obtain ⟨-, hcomma⟩ := Factor.unique d d' _ _ h
          rw [hcomma, peek] at hc
          exact absurd c'.property hc
  | both d c s =>
      cases d' with
      | distance d' =>
          simp only [Operands.tokens, List.append_assoc, List.cons_append] at h
          obtain ⟨-, hcomma⟩ := Factor.unique d d' _ _ h
          rw [← hcomma, peek] at hc'
          exact absurd c.property hc'
      | both d' c' s' =>
          simp only [Operands.tokens, List.append_assoc, List.cons_append] at h
          obtain ⟨rfl, hcomma⟩ := Factor.unique d d' _ _ h
          obtain ⟨rfl, hs⟩ := tokenOf_unique hcomma
          obtain ⟨rfl, rfl⟩ := Factor.unique s s' rest rest' hs
          exact ⟨rfl, rfl⟩

/-- An axis is known by its keyword. -/
private theorem axis_unique {a a' : Axis} {t : TokenOf a.kind}
    {t' : TokenOf a'.kind} (h : t.val = t'.val) : a = a' := by
  have hk : a.kind = a'.kind := by rw [← t.property, ← t'.property, h]
  cases a <;> cases a' <;> first | rfl | cases hk

/-- Two branches agree up to what stands behind their first list. The list
itself is left to the induction. -/
private theorem branch_unique {i i' : TokenOf .kwIf} {c c' : Expression}
    {col col' : TokenOf .colon} {ss ss' : Statements} {rest rest' : List Token}
    (ih : ss.tokens ++ rest = ss'.tokens ++ rest' → ss = ss' ∧ rest = rest')
    (h : i.val :: (c.tokens ++ col.val :: (ss.tokens ++ rest)) =
      i'.val :: (c'.tokens ++ col'.val :: (ss'.tokens ++ rest'))) :
    i = i' ∧ c = c' ∧ col = col' ∧ ss = ss' ∧ rest = rest' := by
  obtain ⟨rfl, hc⟩ := tokenOf_unique h
  obtain ⟨rfl, hcol⟩ := Expression.unique c c' (col.val :: (ss.tokens ++ rest))
    (col'.val :: (ss'.tokens ++ rest')) (by rw [peek, col.property]; rfl)
    (by rw [peek, col'.property]; rfl) hc
  obtain ⟨rfl, hss⟩ := tokenOf_unique hcol
  obtain ⟨rfl, rfl⟩ := ih hss
  exact ⟨rfl, rfl, rfl, rfl, rfl⟩

/-- The kind that a statement begins on. The empty statement has none. -/
def Statement.first? : Statement → Option Kind
  | .empty => none
  | .compound .. => some .kwBegin
  | .assign .. => some .ident
  | .ifThen .. | .ifElse .. => some .kwIf
  | .loop .. => some .kwLoop
  | .wait .. => some .kwWait
  | .move a .. => some a.kind
  | .home _ => some .kwHome
  | .stop _ => some .kwStop

private theorem Statement.peek_tokens (d : Statement) (rest : List Token) :
    peek (d.tokens ++ rest) = d.first?.getD (peek rest) := by
  cases d with
  | empty => rfl
  | compound b _ _ => exact b.property
  | assign t _ _ => exact t.property
  | ifThen i _ _ _ _ => exact i.property
  | ifElse i _ _ _ _ _ _ _ => exact i.property
  | loop l _ _ _ _ => exact l.property
  | wait w _ => exact w.property
  | move _ m _ => exact m.property
  | home t => exact t.property
  | stop t => exact t.property

/-- No statement begins on what ends one. -/
private theorem Statement.endsStatement_first? {d : Statement} {k : Kind}
    (h : d.first? = some k) : k.endsStatement = false := by
  cases d with
  | empty => cases h
  | move a _ _ => cases a <;> cases h <;> rfl
  | _ => cases h; rfl

/-- Two statements that make up the same list begin alike. -/
private theorem Statement.first?_eq {d d' : Statement} {rest rest' : List Token}
    (he : (peek rest).endsStatement = true)
    (he' : (peek rest').endsStatement = true)
    (h : d.tokens ++ rest = d'.tokens ++ rest') : d.first? = d'.first? := by
  have hpeek : d.first?.getD (peek rest) = d'.first?.getD (peek rest') := by
    rw [← Statement.peek_tokens, h, Statement.peek_tokens]
  cases hd : d.first? with
  | none =>
      cases hd' : d'.first? with
      | none => rfl
      | some k' =>
          rw [hd, hd', Option.getD_none, Option.getD_some] at hpeek
          rw [hpeek, Statement.endsStatement_first? hd'] at he
          cases he
  | some k =>
      cases hd' : d'.first? with
      | none =>
          rw [hd, hd', Option.getD_none, Option.getD_some] at hpeek
          rw [← hpeek, Statement.endsStatement_first? hd] at he'
          cases he'
      | some k' => rw [hd, hd'] at hpeek; exact congrArg some hpeek

mutual

/-- **Statements are unambiguous.** The first kind tells the right-hand sides
apart, but for the two kinds of branch, which part where the first list of the
branch ends. -/
theorem Statement.unique : ∀ (d d' : Statement) (rest rest' : List Token),
    (peek rest).endsStatement = true → (peek rest').endsStatement = true →
    d.tokens ++ rest = d'.tokens ++ rest' → d = d' ∧ rest = rest'
  | .empty, d', rest, rest', he, he', h => by
      have hfirst := Statement.first?_eq he he' h
      cases d' with
      | empty => exact ⟨rfl, h⟩
      | move a _ _ => cases a <;> cases hfirst
      | _ => cases hfirst
  | .compound b ss e, d', rest, rest', he, he', h => by
      have hfirst := Statement.first?_eq he he' h
      cases d' with
      | compound b' ss' e' =>
          simp only [Statement.tokens, List.cons_append, List.append_assoc,
            List.nil_append] at h
          obtain ⟨rfl, hss⟩ := tokenOf_unique h
          obtain ⟨rfl, hclose⟩ := Statements.unique ss ss' (e.val :: rest)
            (e'.val :: rest') (by rw [peek, e.property]; rfl)
            (by rw [peek, e'.property]; rfl) hss
          obtain ⟨rfl, rfl⟩ := tokenOf_unique hclose
          exact ⟨rfl, rfl⟩
      | move a _ _ => cases a <;> cases hfirst
      | _ => cases hfirst
  | .assign t op e, d', rest, rest', he, he', h => by
      have hfirst := Statement.first?_eq he he' h
      cases d' with
      | assign t' op' e' =>
          simp only [Statement.tokens, List.cons_append] at h
          obtain ⟨rfl, hop⟩ := tokenOf_unique h
          obtain ⟨rfl, hv⟩ := tokenOf_unique hop
          obtain ⟨rfl, rfl⟩ := Expression.unique e e' rest rest'
            (Kind.isOperator_of_endsStatement he)
            (Kind.isOperator_of_endsStatement he') hv
          exact ⟨rfl, rfl⟩
      | move a _ _ => cases a <;> cases hfirst
      | _ => cases hfirst
  | .ifThen i c col ss e, d', rest, rest', he, he', h => by
      have hfirst := Statement.first?_eq he he' h
      cases d' with
      | ifThen i' c' col' ss' e' =>
          simp only [Statement.tokens, List.cons_append, List.append_assoc,
            List.nil_append] at h
          obtain ⟨rfl, rfl, rfl, rfl, hclose⟩ :=
            branch_unique
              (Statements.unique ss ss' (e.val :: rest) (e'.val :: rest')
                (by rw [peek, e.property]; rfl)
                (by rw [peek, e'.property]; rfl)) h
          obtain ⟨rfl, rfl⟩ := tokenOf_unique hclose
          exact ⟨rfl, rfl⟩
      | ifElse i' c' col' ss' el' col₂' alt' e' =>
          simp only [Statement.tokens, List.cons_append, List.append_assoc,
            List.nil_append] at h
          obtain ⟨-, -, -, -, hclose⟩ :=
            branch_unique
              (Statements.unique ss ss' (e.val :: rest)
                (el'.val :: col₂'.val :: (alt'.tokens ++ e'.val :: rest'))
                (by rw [peek, e.property]; rfl)
                (by rw [peek, el'.property]; rfl)) h
          grind
      | move a _ _ => cases a <;> cases hfirst
      | _ => cases hfirst
  | .ifElse i c col ss el col₂ alt e, d', rest, rest', he, he', h => by
      have hfirst := Statement.first?_eq he he' h
      cases d' with
      | ifThen i' c' col' ss' e' =>
          simp only [Statement.tokens, List.cons_append, List.append_assoc,
            List.nil_append] at h
          obtain ⟨-, -, -, -, hclose⟩ :=
            branch_unique
              (Statements.unique ss ss'
                (el.val :: col₂.val :: (alt.tokens ++ e.val :: rest))
                (e'.val :: rest') (by rw [peek, el.property]; rfl)
                (by rw [peek, e'.property]; rfl)) h
          grind
      | ifElse i' c' col' ss' el' col₂' alt' e' =>
          simp only [Statement.tokens, List.cons_append, List.append_assoc,
            List.nil_append] at h
          obtain ⟨rfl, rfl, rfl, rfl, helse⟩ :=
            branch_unique
              (Statements.unique ss ss'
                (el.val :: col₂.val :: (alt.tokens ++ e.val :: rest))
                (el'.val :: col₂'.val :: (alt'.tokens ++ e'.val :: rest'))
                (by rw [peek, el.property]; rfl)
                (by rw [peek, el'.property]; rfl)) h
          obtain ⟨rfl, hcol₂⟩ := tokenOf_unique helse
          obtain ⟨rfl, halt⟩ := tokenOf_unique hcol₂
          obtain ⟨rfl, hclose⟩ := Statements.unique alt alt' (e.val :: rest)
            (e'.val :: rest') (by rw [peek, e.property]; rfl)
            (by rw [peek, e'.property]; rfl) halt
          obtain ⟨rfl, rfl⟩ := tokenOf_unique hclose
          exact ⟨rfl, rfl⟩
      | move a _ _ => cases a <;> cases hfirst
      | _ => cases hfirst
  | .loop l col ss u c, d', rest, rest', he, he', h => by
      have hfirst := Statement.first?_eq he he' h
      cases d' with
      | loop l' col' ss' u' c' =>
          simp only [Statement.tokens, List.cons_append, List.append_assoc] at h
          obtain ⟨rfl, hcol⟩ := tokenOf_unique h
          obtain ⟨rfl, hss⟩ := tokenOf_unique hcol
          obtain ⟨rfl, huntil⟩ := Statements.unique ss ss'
            (u.val :: (c.tokens ++ rest)) (u'.val :: (c'.tokens ++ rest'))
            (by rw [peek, u.property]; rfl) (by rw [peek, u'.property]; rfl) hss
          obtain ⟨rfl, hc⟩ := tokenOf_unique huntil
          obtain ⟨rfl, rfl⟩ := Expression.unique c c' rest rest'
            (Kind.isOperator_of_endsStatement he)
            (Kind.isOperator_of_endsStatement he') hc
          exact ⟨rfl, rfl⟩
      | move a _ _ => cases a <;> cases hfirst
      | _ => cases hfirst
  | .wait w e, d', rest, rest', he, he', h => by
      have hfirst := Statement.first?_eq he he' h
      cases d' with
      | wait w' e' =>
          simp only [Statement.tokens, List.cons_append] at h
          obtain ⟨rfl, hd⟩ := tokenOf_unique h
          obtain ⟨rfl, rfl⟩ := Expression.unique e e' rest rest'
            (Kind.isOperator_of_endsStatement he)
            (Kind.isOperator_of_endsStatement he') hd
          exact ⟨rfl, rfl⟩
      | move a _ _ => cases a <;> cases hfirst
      | _ => cases hfirst
  | .move a m o, d', rest, rest', he, he', h => by
      have hfirst := Statement.first?_eq he he' h
      cases d' with
      | move a' m' o' =>
          simp only [Statement.tokens, List.cons_append] at h
          obtain rfl := axis_unique (List.cons.inj h).1
          obtain ⟨rfl, ho⟩ := tokenOf_unique h
          obtain ⟨rfl, rfl⟩ := Operands.unique o o' rest rest'
            (Kind.ne_comma_of_endsStatement he)
            (Kind.ne_comma_of_endsStatement he') ho
          exact ⟨rfl, rfl⟩
      | _ => cases a <;> cases hfirst
  | .home t, d', rest, rest', he, he', h => by
      have hfirst := Statement.first?_eq he he' h
      cases d' with
      | home t' =>
          obtain ⟨rfl, rfl⟩ := tokenOf_unique h
          exact ⟨rfl, rfl⟩
      | move a _ _ => cases a <;> cases hfirst
      | _ => cases hfirst
  | .stop t, d', rest, rest', he, he', h => by
      have hfirst := Statement.first?_eq he he' h
      cases d' with
      | stop t' =>
          obtain ⟨rfl, rfl⟩ := tokenOf_unique h
          exact ⟨rfl, rfl⟩
      | move a _ _ => cases a <;> cases hfirst
      | _ => cases hfirst

/-- **Statement lists are unambiguous.** -/
theorem Statements.unique : ∀ (d d' : Statements) (rest rest' : List Token),
    (peek rest).endsList = true → (peek rest').endsList = true →
    d.tokens ++ rest = d'.tokens ++ rest' → d = d' ∧ rest = rest'
  | .one s, .one s', rest, rest', he, he', h => by
      obtain ⟨rfl, rfl⟩ := Statement.unique s s' rest rest'
        (Kind.endsStatement_of_endsList he) (Kind.endsStatement_of_endsList he')
        h
      exact ⟨rfl, rfl⟩
  | .one s, .more s' semi' ss', rest, rest', he, _, h => by
      simp only [Statements.tokens, List.append_assoc, List.cons_append] at h
      obtain ⟨-, hsemi⟩ := Statement.unique s s' rest
        (semi'.val :: (ss'.tokens ++ rest')) (Kind.endsStatement_of_endsList he)
        (by rw [peek, semi'.property]; rfl) h
      rw [hsemi, peek, semi'.property] at he
      cases he
  | .more s semi ss, .one s', rest, rest', _, he', h => by
      simp only [Statements.tokens, List.append_assoc, List.cons_append] at h
      obtain ⟨-, hsemi⟩ := Statement.unique s s'
        (semi.val :: (ss.tokens ++ rest)) rest'
        (by rw [peek, semi.property]; rfl) (Kind.endsStatement_of_endsList he')
        h
      rw [← hsemi, peek, semi.property] at he'
      cases he'
  | .more s semi ss, .more s' semi' ss', rest, rest', he, he', h => by
      simp only [Statements.tokens, List.append_assoc, List.cons_append] at h
      obtain ⟨rfl, hsemi⟩ := Statement.unique s s'
        (semi.val :: (ss.tokens ++ rest)) (semi'.val :: (ss'.tokens ++ rest'))
        (by rw [peek, semi.property]; rfl) (by rw [peek, semi'.property]; rfl) h
      obtain ⟨rfl, hss⟩ := tokenOf_unique hsemi
      obtain ⟨rfl, rfl⟩ := Statements.unique ss ss' rest rest' he he' hss
      exact ⟨rfl, rfl⟩

end

/-! ## Declarations -/

private theorem Names.unique : ∀ (d d' : Names) (rest rest' : List Token),
    peek rest ≠ .comma → peek rest' ≠ .comma →
    d.tokens ++ rest = d'.tokens ++ rest' → d = d' ∧ rest = rest'
  | .one id, .one id', rest, rest', _, _, h => by
      obtain ⟨rfl, rfl⟩ := tokenOf_unique h
      exact ⟨rfl, rfl⟩
  | .one id, .more id' c' ids', rest, rest', hc, _, h => by
      obtain ⟨-, hrest⟩ := tokenOf_unique h
      rw [show rest = c'.val :: (ids'.tokens ++ rest') from hrest, peek] at hc
      exact absurd c'.property hc
  | .more id c ids, .one id', rest, rest', _, hc', h => by
      obtain ⟨-, hrest⟩ := tokenOf_unique h
      rw [show rest' = c.val :: (ids.tokens ++ rest) from hrest.symm, peek]
        at hc'
      exact absurd c.property hc'
  | .more id c ids, .more id' c' ids', rest, rest', hc, hc', h => by
      obtain ⟨rfl, hcomma⟩ := tokenOf_unique h
      obtain ⟨rfl, hids⟩ := tokenOf_unique hcomma
      obtain ⟨rfl, rfl⟩ := Names.unique ids ids' rest rest' hc hc' hids
      exact ⟨rfl, rfl⟩

private theorem VarGroup.unique (d d' : VarGroup) (rest rest' : List Token)
    (h : d.tokens ++ rest = d'.tokens ++ rest') : d = d' ∧ rest = rest' := by
  obtain ⟨ids, c, ty, se⟩ := d
  obtain ⟨ids', c', ty', se'⟩ := d'
  simp only [VarGroup.tokens, List.append_assoc, List.cons_append,
    List.nil_append] at h
  obtain ⟨rfl, hcol⟩ := Names.unique ids ids'
    (c.val :: ty.val :: se.val :: rest) (c'.val :: ty'.val :: se'.val :: rest')
    (by rw [peek, c.property]; simp) (by rw [peek, c'.property]; simp) h
  obtain ⟨rfl, hty⟩ := tokenOf_unique hcol
  obtain ⟨rfl, hse⟩ := tokenIn_unique hty
  obtain ⟨rfl, rfl⟩ := tokenOf_unique hse
  exact ⟨rfl, rfl⟩

private theorem Pin.unique (d d' : Pin) (rest rest' : List Token)
    (h : d.tokens ++ rest = d'.tokens ++ rest') : d = d' ∧ rest = rest' := by
  obtain ⟨id, c, dir, num, se⟩ := d
  obtain ⟨id', c', dir', num', se'⟩ := d'
  obtain ⟨rfl, hcol⟩ := tokenOf_unique h
  obtain ⟨rfl, hdir⟩ := tokenOf_unique hcol
  obtain ⟨rfl, hnum⟩ := tokenIn_unique hdir
  obtain ⟨rfl, hse⟩ := tokenOf_unique hnum
  obtain ⟨rfl, rfl⟩ := tokenOf_unique hse
  exact ⟨rfl, rfl⟩

private theorem Waypoint.unique (d d' : Waypoint) (rest rest' : List Token)
    (h : d.tokens ++ rest = d'.tokens ++ rest') : d = d' ∧ rest = rest' := by
  obtain ⟨id, op, dist, c, sp, se⟩ := d
  obtain ⟨id', op', dist', c', sp', se'⟩ := d'
  simp only [Waypoint.tokens, List.cons_append, List.append_assoc,
    List.nil_append] at h
  obtain ⟨rfl, hop⟩ := tokenOf_unique h
  obtain ⟨rfl, hdist⟩ := tokenOf_unique hop
  obtain ⟨rfl, hc⟩ := Factor.unique dist dist' _ _ hdist
  obtain ⟨rfl, hsp⟩ := tokenOf_unique hc
  obtain ⟨rfl, hse⟩ := Factor.unique sp sp' _ _ hsp
  obtain ⟨rfl, rfl⟩ := tokenOf_unique hse
  exact ⟨rfl, rfl⟩

section Sections

variable {δ : Type} {tokens : δ → List Token}
  (huniq : ∀ (d d' : δ) (rest rest' : List Token),
    tokens d ++ rest = tokens d' ++ rest' → d = d' ∧ rest = rest')
  (hhead : ∀ (d : δ) (rest : List Token), peek (tokens d ++ rest) = .ident)

include huniq hhead

/-- Declarations begin with a name, so a list of them ends where none stands. -/
private theorem decls_unique : ∀ (ds ds' : List δ) (rest rest' : List Token),
    peek rest ≠ .ident → peek rest' ≠ .ident →
    ds.flatMap tokens ++ rest = ds'.flatMap tokens ++ rest' →
    ds = ds' ∧ rest = rest'
  | [], [], _, _, _, _, h => ⟨rfl, h⟩
  | [], d' :: ds', rest, rest', hp, _, h => by
      simp only [List.flatMap_nil, List.nil_append, List.flatMap_cons,
        List.append_assoc] at h
      rw [h] at hp
      exact absurd (hhead d' _) hp
  | d :: ds, [], rest, rest', _, hp', h => by
      simp only [List.flatMap_nil, List.nil_append, List.flatMap_cons,
        List.append_assoc] at h
      rw [← h] at hp'
      exact absurd (hhead d _) hp'
  | d :: ds, d' :: ds', rest, rest', hp, hp', h => by
      simp only [List.flatMap_cons, List.append_assoc] at h
      obtain ⟨rfl, hds⟩ := huniq d d' _ _ h
      obtain ⟨rfl, rfl⟩ := decls_unique ds ds' rest rest' hp hp' hds
      exact ⟨rfl, rfl⟩

private theorem Section.unique {k : Kind} (d d' : Section k δ)
    (rest rest' : List Token) (hk : peek rest ≠ k) (hk' : peek rest' ≠ k)
    (hp : peek rest ≠ .ident) (hp' : peek rest' ≠ .ident)
    (h : d.tokens tokens ++ rest = d'.tokens tokens ++ rest') :
    d = d' ∧ rest = rest' := by
  cases d with
  | absent =>
      cases d' with
      | absent => exact ⟨rfl, h⟩
      | present t' ds' =>
          rw [show rest = t'.val :: (ds'.flatMap tokens ++ rest') from h, peek]
            at hk
          exact absurd t'.property hk
  | present t ds =>
      cases d' with
      | absent =>
          rw [show rest' = t.val :: (ds.flatMap tokens ++ rest) from h.symm,
            peek] at hk'
          exact absurd t.property hk'
      | present t' ds' =>
          obtain ⟨rfl, hds⟩ := tokenOf_unique h
          obtain ⟨rfl, rfl⟩ :=
            decls_unique huniq hhead ds ds' rest rest' hp hp' hds
          exact ⟨rfl, rfl⟩

end Sections

/-! ## Programs -/

private theorem Block.unique (d d' : Block) (rest rest' : List Token)
    (h : d.tokens ++ rest = d'.tokens ++ rest') : d = d' ∧ rest = rest' := by
  obtain ⟨vars, pins, ways, o, body, c⟩ := d
  obtain ⟨vars', pins', ways', o', body', c'⟩ := d'
  simp only [Block.tokens, List.append_assoc, List.cons_append, List.nil_append]
    at h
  -- What the lookahead can see behind each section.
  have hways : peek (o.val :: (body.tokens ++ c.val :: rest)) ∈
      [Kind.kwBegin] :=
    List.mem_singleton.2 o.property
  have hways' : peek (o'.val :: (body'.tokens ++ c'.val :: rest')) ∈
      [Kind.kwBegin] :=
    List.mem_singleton.2 o'.property
  have hpins := peek_section Waypoint.tokens ways hways
  have hpins' := peek_section Waypoint.tokens ways' hways'
  have hvars := peek_section Pin.tokens pins hpins
  have hvars' := peek_section Pin.tokens pins' hpins'
  have hgroup (g : VarGroup) (rest : List Token) : peek (g.tokens ++ rest) =
      .ident := by
    simp only [VarGroup.tokens, List.append_assoc]
    exact peek_names g.names _
  obtain ⟨rfl, h₁⟩ := Section.unique VarGroup.unique hgroup vars vars' _ _
    (ne_of_mem_of_not_mem hvars (by simp))
    (ne_of_mem_of_not_mem hvars' (by simp))
    (ne_of_mem_of_not_mem hvars (by simp))
    (ne_of_mem_of_not_mem hvars' (by simp)) h
  obtain ⟨rfl, h₂⟩ := Section.unique Pin.unique (fun d _ => d.id.property) pins
    pins' _ _ (ne_of_mem_of_not_mem hpins (by simp))
    (ne_of_mem_of_not_mem hpins' (by simp))
    (ne_of_mem_of_not_mem hpins (by simp))
    (ne_of_mem_of_not_mem hpins' (by simp)) h₁
  obtain ⟨rfl, hopen⟩ := Section.unique Waypoint.unique
    (fun d _ => d.id.property) ways ways' _ _
    (ne_of_mem_of_not_mem hways (by simp))
    (ne_of_mem_of_not_mem hways' (by simp))
    (ne_of_mem_of_not_mem hways (by simp))
    (ne_of_mem_of_not_mem hways' (by simp)) h₂
  obtain ⟨rfl, hbody⟩ := tokenOf_unique hopen
  obtain ⟨rfl, hclose⟩ := Statements.unique body body' (c.val :: rest)
    (c'.val :: rest') (by rw [peek, c.property]; rfl)
    (by rw [peek, c'.property]; rfl) hbody
  obtain ⟨rfl, rfl⟩ := tokenOf_unique hclose
  exact ⟨rfl, rfl⟩

/-- **A source has one derivation at most.** -/
theorem Source.unique {d d' : Source} (h : d.tokens = d'.tokens) : d = d' := by
  obtain ⟨⟨tok, name, semi, b, dot⟩, eof⟩ := d
  obtain ⟨⟨tok', name', semi', b', dot'⟩, eof'⟩ := d'
  simp only [Source.tokens, Program.tokens, List.cons_append, List.append_assoc,
    List.nil_append] at h
  obtain ⟨rfl, hname⟩ := tokenOf_unique h
  obtain ⟨rfl, hsemi⟩ := tokenOf_unique hname
  obtain ⟨rfl, hb⟩ := tokenOf_unique hsemi
  obtain ⟨rfl, hdot⟩ := Block.unique b b' _ _ hb
  obtain ⟨rfl, heof⟩ := tokenOf_unique hdot
  obtain ⟨rfl, -⟩ := tokenOf_unique heof
  rfl

end Fixture.Grammar
