import Fixture.Proofs.Grammar
/-!
# What is read is derived

Every success of the reader has a derivation behind it: the tokens that it took
off the front of the list are the frontier of a derivation whose tree it gave
back, all numerals among them fit, and at least one token is left. The last
point is the reader's own discipline: it consumes a token only when it has seen
the next one.

The functions of the reader call one another with a budget that drops by one at
each call. So the proof goes by the budget: `SoundExpressions n` and
`SoundStatements n` collect what holds of all functions at budget `n`, each
function has one lemma that leads from `n` to `n + 1`, and an induction puts
them together.

## Main results

* `expression_sound`, `factor_sound`, `statements_sound`: for one nonterminal
  each.
* `program_sound`: a program that is read has a derivation, and behind it stands
  the end of the source.
-/

namespace Fixture.Parse

open Grammar

attribute [local simp] peek advance expect factor termTail term sumTail sum
  comparison expression operands statement statements names varDecls pinNumber
  pinDecls waypointDecls optionalSection

/-! ## Steps -/

/-- A reading in steps that succeeds has a first step that does. -/
theorem of_bind_eq_ok {α β : Type} {x : Except ParseError α}
    {f : α → Except ParseError β} {b : β} (h : x >>= f = .ok b) :
    ∃ a, x = .ok a ∧ f a = .ok b := by
  match x, h with
  | .ok a, h => exact ⟨a, rfl, h⟩

/-- `front` is read off `ts`: it is followed by `rest`, which is not empty, and
its numerals fit. -/
structure Consumes (ts front rest : List Token) : Prop where
  split : ts = front ++ rest
  fits : ∀ t ∈ front, t.Fits
  more : rest ≠ []

namespace Consumes

variable {ts mid rest front front' : List Token}

theorem none (h : ts ≠ []) : Consumes ts [] ts := ⟨rfl, by simp, h⟩

theorem append (h : Consumes ts front mid) (h' : Consumes mid front' rest) :
    Consumes ts (front ++ front') rest := by
  refine ⟨?_, ?_, h'.more⟩
  · rw [h.split, h'.split, List.append_assoc]
  · intro t ht
    rcases List.mem_append.1 ht with ht | ht
    · exact h.fits t ht
    · exact h'.fits t ht

private theorem cons {t : Token} (h : Consumes ts [t] mid)
    (h' : Consumes mid front rest) : Consumes ts (t :: front) rest :=
  h.append h'

end Consumes

/-- A token of a class without numerals fits. -/
theorem fits_of_class {t : Token} {p : Kind → Bool} (h : p t.kind = true)
    (hi : p .integerConst = false) (hr : p .realConst = false) : t.Fits := by
  refine ⟨fun h' => ?_, fun h' => ?_⟩
  · rw [h', hi] at h
    cases h
  · rw [h', hr] at h
    cases h

/-- The kinds whose tokens hold no number. -/
def isPlain : Kind → Bool
  | .integerConst | .realConst => false
  | _ => true

theorem fits_of_kind {t : Token} {k : Kind} (h : t.kind = k)
    (hk : isPlain k = true) : t.Fits :=
  fits_of_class (p := isPlain) (h ▸ hk) rfl rfl

section Tokens

variable {behind : ParseError} {ts rest : List Token} {t : Token} {k : Kind}

theorem advance_eq_ok (h : advance behind ts = .ok rest) :
    ∃ t, ts = t :: rest ∧ rest ≠ [] := by
  unfold advance at h
  split at h
  · cases h
    exact ⟨_, rfl, by simp⟩
  · cases h

/-- A token that fits is consumed. -/
theorem consumes_of_advance (h : advance behind (t :: ts) = .ok rest)
    (ht : t.Fits) : Consumes (t :: ts) [t] rest := by
  obtain ⟨s, hts, hne⟩ := advance_eq_ok h
  cases hts
  exact ⟨rfl, by simpa using ht, hne⟩

private theorem expect_eq_ok (h : expect behind k ts = .ok (t, rest)) :
    t.kind = k ∧ ts = t :: rest ∧ rest ≠ [] := by
  cases ts with
  | nil => cases h
  | cons s ts =>
      simp only [expect] at h
      split at h
      · next hk =>
        obtain ⟨r, hr, heq⟩ := of_bind_eq_ok h
        obtain ⟨_, hts, hne⟩ := advance_eq_ok hr
        cases heq
        cases hts
        exact ⟨hk, rfl, hne⟩
      · cases h

/-- An expected token that is no numeral is consumed. -/
private theorem consumes_of_expect (h : expect behind k ts = .ok (t, rest))
    (hk : isPlain k = true) :
    ∃ d : TokenOf k, d.val = t ∧ Consumes ts [d.val] rest := by
  obtain ⟨ht, hts, hne⟩ := expect_eq_ok h
  exact ⟨⟨t, ht⟩, rfl, hts, by simpa using fits_of_kind ht hk, hne⟩

/-- A token seen and then consumed. -/
private theorem consumes_of_peek (hp : peek ts = k)
    (h : advance behind ts = .ok rest) (hk : isPlain k = true) :
    ∃ d : TokenOf k, Consumes ts [d.val] rest := by
  obtain ⟨t, rfl, -⟩ := advance_eq_ok h
  exact ⟨⟨t, hp⟩, consumes_of_advance h (fits_of_kind hp hk)⟩

/-- A token of a class, seen and then consumed. -/
private theorem consumes_of_peek_class {p : Kind → Bool}
    (hp : p (peek ts) = true) (h : advance behind ts = .ok rest)
    (hi : p .integerConst = false) (hr : p .realConst = false) :
    ∃ d : TokenIn p, d.val.kind = peek ts ∧ Consumes ts [d.val] rest := by
  obtain ⟨t, rfl, hne⟩ := advance_eq_ok h
  exact ⟨⟨t, hp⟩, rfl, rfl, by simpa using fits_of_class hp hi hr, hne⟩

end Tokens

/-! ## Numerals -/

private theorem integer?_eq_some {s : String} {v : Int64}
    (h : Numeral.integer? s = some v) :
    Numeral.digits 0 s.toList < 2 ^ 63 ∧
    v = Int64.ofNat (Numeral.digits 0 s.toList) := by
  simp only [Numeral.integer?] at h
  split at h
  · next hlt =>
    cases h
    exact ⟨hlt, rfl⟩
  · cases h

/-- An integer that has a value fits. -/
theorem fits_of_integer? {t : Token} {v : Int64} (hk : t.kind = .integerConst)
    (h : Numeral.integer? t.literal = some v) : t.Fits := by
  refine ⟨fun _ => (integer?_eq_some h).1, fun hr => ?_⟩
  rw [hk] at hr
  cases hr

/-- A real that has a value fits. -/
theorem fits_of_real? {t : Token} {x : Float} (hk : t.kind = .realConst)
    (h : Numeral.real? t.literal = some x) : t.Fits := by
  refine ⟨fun hi => ?_, fun _ => by rw [h]; rfl⟩
  rw [hk] at hi
  cases hi

/-! ## Expressions -/

/-- What holds of the readers of expressions at a budget. -/
structure SoundExpressions (behind : ParseError) (n : Nat) : Prop where
  factor : ∀ {ts e rest}, factor behind n ts = .ok (e, rest) →
    ∃ d : Factor, d.tree = e ∧ Consumes ts d.tokens rest
  termTail : ∀ {left ts e rest}, termTail behind n left ts = .ok (e, rest) →
    ∃ d : Factors, d.tree left = e ∧ Consumes ts d.tokens rest
  term : ∀ {ts e rest}, term behind n ts = .ok (e, rest) →
    ∃ d : Term, d.tree = e ∧ Consumes ts d.tokens rest
  sumTail : ∀ {left ts e rest}, sumTail behind n left ts = .ok (e, rest) →
    ∃ d : Terms, d.tree left = e ∧ Consumes ts d.tokens rest
  sum : ∀ {ts e rest}, sum behind n ts = .ok (e, rest) →
    ∃ d : Grammar.Sum, d.tree = e ∧ Consumes ts d.tokens rest
  comparison : ∀ {left : Grammar.Sum} {ts e rest},
    comparison behind n left.tree ts = .ok (e, rest) →
    ∃ (d : Expression) (front : List Token), d.tree = e ∧
      d.tokens = left.tokens ++ front ∧ Consumes ts front rest
  expression : ∀ {ts e rest}, expression behind n ts = .ok (e, rest) →
    ∃ d : Expression, d.tree = e ∧ Consumes ts d.tokens rest

section Step

variable {behind : ParseError} {n : Nat} {ts rest : List Token} {left e : Expr}

private theorem factor_step (ih : SoundExpressions behind n)
    (h : factor behind (n + 1) ts = .ok (e, rest)) :
    ∃ d : Factor, d.tree = e ∧ Consumes ts d.tokens rest := by
  cases ts with
  | nil => cases h
  | cons t ts =>
      -- A sign is one of two kinds, and both are read alike.
      have signed (hk : t.kind.isAdditive = true) (h : (do
          let ts ← advance behind (t :: ts)
          let r ← factor behind n ts
          return (Expr.signed t r.1, r.2)) = .ok (e, rest)) :
          ∃ d : Factor, d.tree = e ∧ Consumes (t :: ts) d.tokens rest := by
        obtain ⟨us, hus, h⟩ := of_bind_eq_ok h
        obtain ⟨⟨e', vs⟩, hf, h⟩ := of_bind_eq_ok h
        cases h
        obtain ⟨d, rfl, hd⟩ := ih.factor hf
        exact ⟨.signed ⟨t, hk⟩ d, rfl,
          (consumes_of_advance hus (fits_of_class hk rfl rfl)).cons hd⟩
      rw [factor] at h
      split at h
      · next hk => exact signed (by rw [hk]; rfl) h
      · next hk => exact signed (by rw [hk]; rfl) h
      · next hk =>
        split at h
        · cases h
        · next v hv =>
          obtain ⟨us, hus, h⟩ := of_bind_eq_ok h
          cases h
          obtain ⟨-, rfl⟩ := integer?_eq_some hv
          exact ⟨.integer ⟨t, hk⟩, rfl,
            consumes_of_advance hus (fits_of_integer? hk hv)⟩
      · next hk =>
        split at h
        · cases h
        · next x hx =>
          obtain ⟨us, hus, h⟩ := of_bind_eq_ok h
          cases h
          refine ⟨.real ⟨t, hk⟩, ?_,
            consumes_of_advance hus (fits_of_real? hk hx)⟩
          simp only [Factor.tree, hx, Option.getD_some]
      · next hk =>
        obtain ⟨us, hus, h⟩ := of_bind_eq_ok h
        cases h
        exact ⟨.boolean ⟨t, hk⟩, rfl,
          consumes_of_advance hus (fits_of_kind hk rfl)⟩
      · next hk =>
        obtain ⟨us, hus, h⟩ := of_bind_eq_ok h
        obtain ⟨⟨e', vs⟩, he, h⟩ := of_bind_eq_ok h
        obtain ⟨⟨r, ws⟩, hr, h⟩ := of_bind_eq_ok h
        cases h
        obtain ⟨d, rfl, hd⟩ := ih.expression he
        obtain ⟨r', rfl, hr'⟩ := consumes_of_expect hr rfl
        exact ⟨.paren ⟨t, hk⟩ d r', rfl,
          (consumes_of_advance hus (fits_of_kind hk rfl)).cons (hd.append hr')⟩
      · obtain ⟨⟨id, us⟩, hid, h⟩ := of_bind_eq_ok h
        cases h
        obtain ⟨d, rfl, hd⟩ := consumes_of_expect hid rfl
        exact ⟨.name d, rfl, hd⟩

/--
What may follow an expression is derived, if the other operand is and what
stands behind it is.
-/
private theorem operatorTail_sound {p : Kind → Bool} {operand : ExprReader}
    {more : Expr → ExprReader} {δ δs : Type} {tree : δ → Expr}
    {tokens : δ → List Token} {trees : δs → Expr → Expr}
    {tokens' : δs → List Token}
    (h : operatorTail behind p operand more left ts = .ok (e, rest))
    (hi : p .integerConst = false) (hr : p .realConst = false)
    (hoperand : ∀ {ts e rest}, operand ts = .ok (e, rest) →
      ∃ d, tree d = e ∧ Consumes ts (tokens d) rest)
    (hmore : ∀ {left ts e rest}, ts ≠ [] → more left ts = .ok (e, rest) →
      ∃ ds, trees ds left = e ∧ Consumes ts (tokens' ds) rest) :
    (e = left ∧ Consumes ts [] rest) ∨
      ∃ (op : TokenIn p) (d : δ) (ds : δs),
        trees ds (.binary op.val left (tree d)) = e ∧
        Consumes ts (op.val :: (tokens d ++ tokens' ds)) rest := by
  cases ts with
  | nil => cases h
  | cons op ts =>
      rw [operatorTail] at h
      split at h
      next hk =>
        obtain ⟨us, hus, h⟩ := of_bind_eq_ok h
        obtain ⟨⟨right, vs⟩, hright, h⟩ := of_bind_eq_ok h
        obtain ⟨d, rfl, hd⟩ := hoperand hright
        obtain ⟨ds, rfl, hds⟩ := hmore hd.more h
        have hop := consumes_of_advance hus (fits_of_class hk hi hr)
        exact .inr ⟨⟨op, hk⟩, d, ds, rfl, hop.cons (hd.append hds)⟩
      next =>
        cases h
        exact .inl ⟨rfl, .none (by simp)⟩

private theorem termTail_step (ih : SoundExpressions behind n)
    (h : termTail behind (n + 1) left ts = .ok (e, rest)) :
    ∃ d : Factors, d.tree left = e ∧ Consumes ts d.tokens rest := by
  rw [termTail] at h
  obtain ⟨rfl, hc⟩ | ⟨op, f, fs, rfl, hc⟩ :=
    operatorTail_sound h rfl rfl ih.factor fun _ => ih.termTail
  · exact ⟨.nil, rfl, hc⟩
  · exact ⟨.cons op f fs, rfl, hc⟩

private theorem term_step (ih : SoundExpressions behind n)
    (h : term behind (n + 1) ts = .ok (e, rest)) :
    ∃ d : Term, d.tree = e ∧ Consumes ts d.tokens rest := by
  rw [term] at h
  obtain ⟨⟨left, us⟩, hf, h⟩ := of_bind_eq_ok h
  obtain ⟨f, rfl, hfc⟩ := ih.factor hf
  obtain ⟨fs, rfl, hfs⟩ := ih.termTail h
  exact ⟨.mk f fs, rfl, hfc.append hfs⟩

private theorem sumTail_step (ih : SoundExpressions behind n)
    (h : sumTail behind (n + 1) left ts = .ok (e, rest)) :
    ∃ d : Terms, d.tree left = e ∧ Consumes ts d.tokens rest := by
  rw [sumTail] at h
  obtain ⟨rfl, hc⟩ | ⟨op, t, ts', rfl, hc⟩ :=
    operatorTail_sound h rfl rfl ih.term fun _ => ih.sumTail
  · exact ⟨.nil, rfl, hc⟩
  · exact ⟨.cons op t ts', rfl, hc⟩

private theorem sum_step (ih : SoundExpressions behind n)
    (h : sum behind (n + 1) ts = .ok (e, rest)) :
    ∃ d : Grammar.Sum, d.tree = e ∧ Consumes ts d.tokens rest := by
  rw [sum] at h
  obtain ⟨⟨left, us⟩, ht, h⟩ := of_bind_eq_ok h
  obtain ⟨t, rfl, htc⟩ := ih.term ht
  obtain ⟨ts', rfl, hts⟩ := ih.sumTail h
  exact ⟨.mk t ts', rfl, htc.append hts⟩

private theorem comparison_step (ih : SoundExpressions behind n)
    {left : Grammar.Sum}
    (h : comparison behind (n + 1) left.tree ts = .ok (e, rest)) :
    ∃ (d : Expression) (front : List Token), d.tree = e ∧
      d.tokens = left.tokens ++ front ∧ Consumes ts front rest := by
  -- Nothing more is read behind a comparison.
  have hmore {left e : Expr} {ts rest : List Token} (hts : ts ≠ [])
      (h : Except.ok (left, ts) = (.ok (e, rest) : Except ParseError _)) :
      ∃ _ : Unit, left = e ∧ Consumes ts [] rest := by
    cases h
    exact ⟨(), rfl, .none hts⟩
  rw [comparison] at h
  obtain ⟨rfl, hc⟩ | ⟨op, s, -, rfl, hc⟩ :=
    operatorTail_sound h rfl rfl ih.sum hmore
  · refine ⟨.sum left, [], rfl, ?_, hc⟩
    simp only [Expression.tokens, List.append_nil]
  · rw [List.append_nil] at hc
    exact ⟨.comparison left op s, _, rfl, rfl, hc⟩

private theorem expression_step (ih : SoundExpressions behind n)
    (h : expression behind (n + 1) ts = .ok (e, rest)) :
    ∃ d : Expression, d.tree = e ∧ Consumes ts d.tokens rest := by
  rw [expression] at h
  obtain ⟨⟨left, us⟩, hs, h⟩ := of_bind_eq_ok h
  obtain ⟨s, rfl, hsc⟩ := ih.sum hs
  obtain ⟨d, front, htree, htokens, hd⟩ := ih.comparison h
  exact ⟨d, htree, htokens ▸ hsc.append hd⟩

end Step

/-- The readers of expressions are sound at every budget. -/
private theorem soundExpressions (behind : ParseError) (n : Nat) :
    SoundExpressions behind n := by
  induction n with
  | zero =>
      -- Without a budget nothing is read.
      constructor <;> intros <;> contradiction
  | succ n ih =>
      exact ⟨factor_step ih, termTail_step ih, term_step ih, sumTail_step ih,
        sum_step ih, comparison_step ih, expression_step ih⟩

/-- **Factors are sound.** -/
theorem factor_sound {behind : ParseError} {n : Nat} {ts rest : List Token}
    {e : Expr} (h : factor behind n ts = .ok (e, rest)) :
    ∃ d : Factor, d.tree = e ∧ Consumes ts d.tokens rest :=
  (soundExpressions behind n).factor h

/-- **Expressions are sound.** -/
theorem expression_sound {behind : ParseError} {n : Nat} {ts rest : List Token}
    {e : Expr} (h : expression behind n ts = .ok (e, rest)) :
    ∃ d : Expression, d.tree = e ∧ Consumes ts d.tokens rest :=
  (soundExpressions behind n).expression h

/-! ## Statements -/

section Statements

variable {behind : ParseError} {n : Nat} {ts rest : List Token} {t : Token}

private theorem operands_sound {o : Expr × Option Expr}
    (h : operands behind n ts = .ok (o, rest)) :
    ∃ d : Operands, d.tree = o ∧ Consumes ts d.tokens rest := by
  obtain ⟨⟨distance, us⟩, hd, h⟩ := of_bind_eq_ok h
  obtain ⟨d, rfl, hdc⟩ := factor_sound hd
  dsimp only at h
  split at h
  · next hp =>
    obtain ⟨vs, hvs, h⟩ := of_bind_eq_ok h
    obtain ⟨⟨speed, ws⟩, hs, h⟩ := of_bind_eq_ok h
    cases h
    obtain ⟨c, hc⟩ := consumes_of_peek hp hvs rfl
    obtain ⟨s, rfl, hsc⟩ := factor_sound hs
    exact ⟨.both d c s, rfl, hdc.append (hc.cons hsc)⟩
  · cases h
    exact ⟨.distance d, rfl, hdc⟩

/-- What holds of the readers of statements at a budget. -/
structure SoundStatements (behind : ParseError) (n : Nat) : Prop where
  statement : ∀ {ts s rest}, statement behind n ts = .ok (s, rest) →
    ∃ d : Statement, d.tree = s ∧ Consumes ts d.tokens rest
  statements : ∀ {ts ss rest}, statements behind n ts = .ok (ss, rest) →
    ∃ d : Statements, d.tree = ss ∧ Consumes ts d.tokens rest

/-- The token that a list begins on is its first one, or else the one behind
it. -/
private theorem headD_of_consumes {front us : List Token} {c t : Token}
    (h : Consumes ts front us) (hc : Consumes us [c] rest) :
    ts.headD t = front.headD c := by
  rw [h.split, hc.split]
  cases front with
  | nil => rfl
  | cons s front => rfl

/-- A statement list in brackets, with the opening one at the front. -/
private theorem compound_step (ih : SoundStatements behind n)
    (hk : t.kind = .kwBegin) {s : Stmt}
    (h : statement behind (n + 1) (t :: ts) = .ok (s, rest)) :
    ∃ d : Statement, d.tree = s ∧ Consumes (t :: ts) d.tokens rest := by
  simp only [statement, hk] at h
  obtain ⟨us, hus, h⟩ := of_bind_eq_ok h
  obtain ⟨⟨body, vs⟩, hb, h⟩ := of_bind_eq_ok h
  obtain ⟨⟨e, ws⟩, he, h⟩ := of_bind_eq_ok h
  cases h
  obtain ⟨d, rfl, hd⟩ := ih.statements hb
  obtain ⟨c, rfl, hc⟩ := consumes_of_expect he rfl
  exact ⟨.compound ⟨t, hk⟩ d c, rfl,
    (consumes_of_advance hus (fits_of_kind hk rfl)).cons (hd.append hc)⟩

/-- An assignment, with its target at the front. -/
private theorem assign_step (hk : t.kind = .ident) {s : Stmt}
    (h : statement behind (n + 1) (t :: ts) = .ok (s, rest)) :
    ∃ d : Statement, d.tree = s ∧ Consumes (t :: ts) d.tokens rest := by
  simp only [statement, hk] at h
  obtain ⟨us, hus, h⟩ := of_bind_eq_ok h
  obtain ⟨⟨op, vs⟩, ho, h⟩ := of_bind_eq_ok h
  obtain ⟨⟨value, ws⟩, hv, h⟩ := of_bind_eq_ok h
  cases h
  obtain ⟨o, rfl, hoc⟩ := consumes_of_expect ho rfl
  obtain ⟨e, rfl, hec⟩ := expression_sound hv
  exact ⟨.assign ⟨t, hk⟩ o e, rfl,
    (consumes_of_advance hus (fits_of_kind hk rfl)).cons (hoc.cons hec)⟩

/-- A branch, with or without an alternative. -/
private theorem branch_step (ih : SoundStatements behind n)
    (hk : t.kind = .kwIf) {s : Stmt}
    (h : statement behind (n + 1) (t :: ts) = .ok (s, rest)) :
    ∃ d : Statement, d.tree = s ∧ Consumes (t :: ts) d.tokens rest := by
  simp only [statement, hk] at h
  obtain ⟨us, hus, h⟩ := of_bind_eq_ok h
  obtain ⟨⟨condition, vs⟩, hcond, h⟩ := of_bind_eq_ok h
  obtain ⟨⟨colon, ws⟩, hcol, h⟩ := of_bind_eq_ok h
  obtain ⟨⟨body, xs⟩, hb, h⟩ := of_bind_eq_ok h
  obtain ⟨c, rfl, hc⟩ := expression_sound hcond
  obtain ⟨col, -, hcolc⟩ := consumes_of_expect hcol rfl
  obtain ⟨b, rfl, hbc⟩ := ih.statements hb
  have hfront :=
    (consumes_of_advance hus (fits_of_kind hk rfl)).cons
      (hc.append (hcolc.cons hbc))
  by_cases hp : peek xs = .kwElse
  · simp only [if_pos hp] at h
    obtain ⟨ys, hys, h⟩ := of_bind_eq_ok h
    obtain ⟨⟨colon', zs⟩, hcol', h⟩ := of_bind_eq_ok h
    obtain ⟨⟨alt, as⟩, ha, h⟩ := of_bind_eq_ok h
    obtain ⟨⟨e, es⟩, he, h⟩ := of_bind_eq_ok h
    cases h
    obtain ⟨el, hel⟩ := consumes_of_peek hp hys rfl
    obtain ⟨col', -, hcolc'⟩ := consumes_of_expect hcol' rfl
    obtain ⟨a, htree, hac⟩ := ih.statements ha
    obtain ⟨en, -, hen⟩ := consumes_of_expect he rfl
    refine ⟨.ifElse ⟨t, hk⟩ c col b el col' a en, ?_, ?_⟩
    · simp only [Statement.tree, htree, headD_of_consumes hbc hel,
        headD_of_consumes hac hen]
    · simpa [Statement.tokens]
        using hfront.append (hel.cons (hcolc'.cons (hac.append hen)))
  · simp only [if_neg hp] at h
    obtain ⟨⟨e, es⟩, he, h⟩ := of_bind_eq_ok h
    cases h
    obtain ⟨en, -, hen⟩ := consumes_of_expect he rfl
    refine ⟨.ifThen ⟨t, hk⟩ c col b en, ?_, ?_⟩
    · simp only [Statement.tree, headD_of_consumes hbc hen]
    · simpa [Statement.tokens] using hfront.append hen

private theorem loop_step (ih : SoundStatements behind n)
    (hk : t.kind = .kwLoop) {s : Stmt}
    (h : statement behind (n + 1) (t :: ts) = .ok (s, rest)) :
    ∃ d : Statement, d.tree = s ∧ Consumes (t :: ts) d.tokens rest := by
  simp only [statement, hk] at h
  obtain ⟨us, hus, h⟩ := of_bind_eq_ok h
  obtain ⟨⟨colon, vs⟩, hcol, h⟩ := of_bind_eq_ok h
  obtain ⟨⟨body, ws⟩, hb, h⟩ := of_bind_eq_ok h
  obtain ⟨⟨u, xs⟩, hu, h⟩ := of_bind_eq_ok h
  obtain ⟨⟨condition, ys⟩, hcond, h⟩ := of_bind_eq_ok h
  cases h
  obtain ⟨col, -, hcolc⟩ := consumes_of_expect hcol rfl
  obtain ⟨b, rfl, hbc⟩ := ih.statements hb
  obtain ⟨un, -, hun⟩ := consumes_of_expect hu rfl
  obtain ⟨c, rfl, hc⟩ := expression_sound hcond
  refine ⟨.loop ⟨t, hk⟩ col b un c, ?_, (consumes_of_advance hus
    (fits_of_kind hk rfl)).cons (hcolc.cons (hbc.append (hun.cons hc)))⟩
  simp only [Statement.tree, headD_of_consumes hbc hun]

private theorem statement_step (ih : SoundStatements behind n) {s : Stmt}
    (h : statement behind (n + 1) ts = .ok (s, rest)) :
    ∃ d : Statement, d.tree = s ∧ Consumes ts d.tokens rest := by
  cases ts with
  | nil => cases h
  | cons t ts =>
      -- The two axes differ in nothing but their keyword.
      have moved (axis : Axis) (hk : t.kind = axis.kind) (ht : t.Fits) (h : (do
          let ts ← advance behind (t :: ts)
          let r ← operands behind n ts
          return (Stmt.move t axis r.1.1 r.1.2, r.2)) = .ok (s, rest)) :
          ∃ d : Statement, d.tree = s ∧ Consumes (t :: ts) d.tokens rest := by
        obtain ⟨us, hus, h⟩ := of_bind_eq_ok h
        obtain ⟨⟨o, vs⟩, ho, h⟩ := of_bind_eq_ok h
        cases h
        obtain ⟨d, rfl, hdc⟩ := operands_sound ho
        exact ⟨.move axis ⟨t, hk⟩ d, rfl, (consumes_of_advance hus ht).cons hdc⟩
      have hstep := h
      rw [statement] at h
      split at h
      · next hk => exact compound_step ih hk hstep
      · next hk => exact assign_step hk hstep
      · next hk => exact branch_step ih hk hstep
      · next hk => exact loop_step ih hk hstep
      · next hk =>
        obtain ⟨us, hus, h⟩ := of_bind_eq_ok h
        obtain ⟨⟨duration, vs⟩, hd, h⟩ := of_bind_eq_ok h
        cases h
        obtain ⟨d, rfl, hdc⟩ := expression_sound hd
        exact ⟨.wait ⟨t, hk⟩ d, rfl,
          (consumes_of_advance hus (fits_of_kind hk rfl)).cons hdc⟩
      · next hk => exact moved .linear hk (fits_of_kind hk rfl) h
      · next hk => exact moved .rotary hk (fits_of_kind hk rfl) h
      · next hk =>
        obtain ⟨us, hus, h⟩ := of_bind_eq_ok h
        cases h
        exact ⟨.home ⟨t, hk⟩, rfl,
          consumes_of_advance hus (fits_of_kind hk rfl)⟩
      · next hk =>
        obtain ⟨us, hus, h⟩ := of_bind_eq_ok h
        cases h
        exact ⟨.stop ⟨t, hk⟩, rfl,
          consumes_of_advance hus (fits_of_kind hk rfl)⟩
      · cases h
        exact ⟨.empty, rfl, .none (by simp)⟩

private theorem statements_step (ih : SoundStatements behind n) {ss : List Stmt}
    (h : statements behind (n + 1) ts = .ok (ss, rest)) :
    ∃ d : Statements, d.tree = ss ∧ Consumes ts d.tokens rest := by
  rw [statements] at h
  obtain ⟨⟨s, us⟩, hs, h⟩ := of_bind_eq_ok h
  obtain ⟨d, rfl, hd⟩ := ih.statement hs
  dsimp only at h
  split at h
  · next hp =>
    obtain ⟨vs, hvs, h⟩ := of_bind_eq_ok h
    obtain ⟨⟨ss', ws⟩, hss, h⟩ := of_bind_eq_ok h
    cases h
    obtain ⟨semi, hsemi⟩ := consumes_of_peek hp hvs rfl
    obtain ⟨ds, rfl, hds⟩ := ih.statements hss
    exact ⟨.more d semi ds, rfl, hd.append (hsemi.cons hds)⟩
  · cases h
    exact ⟨.one d, rfl, hd⟩

/-- The readers of statements are sound at every budget. -/
private theorem soundStatements (behind : ParseError) (n : Nat) :
    SoundStatements behind n := by
  induction n with
  | zero => constructor <;> intros <;> contradiction
  | succ n ih => exact ⟨statement_step ih, statements_step ih⟩

/-- **Statement lists are sound.** -/
theorem statements_sound {ss : List Stmt}
    (h : statements behind n ts = .ok (ss, rest)) :
    ∃ d : Statements, d.tree = ss ∧ Consumes ts d.tokens rest :=
  (soundStatements behind n).statements h

end Statements

/-! ## Declarations -/

section Declarations

variable {behind : ParseError} {ts rest : List Token}

private theorem names_sound : ∀ {n : Nat} {ts rest ids : List Token},
    names behind n ts = .ok (ids, rest) →
    ∃ d : Names, d.ids = ids ∧ Consumes ts d.tokens rest := by
  intro n
  induction n with
  | zero =>
      intro ts rest ids h
      cases h
  | succ n ih =>
      intro ts rest ids h
      rw [names] at h
      obtain ⟨⟨id, us⟩, hid, h⟩ := of_bind_eq_ok h
      obtain ⟨d, rfl, hd⟩ := consumes_of_expect hid rfl
      by_cases hp : peek us = .comma
      · simp only [if_pos hp] at h
        obtain ⟨vs, hvs, h⟩ := of_bind_eq_ok h
        obtain ⟨⟨ids', ws⟩, hids, h⟩ := of_bind_eq_ok h
        cases h
        obtain ⟨c, hc⟩ := consumes_of_peek hp hvs rfl
        obtain ⟨ds, rfl, hds⟩ := ih hids
        exact ⟨.more d c ds, rfl, hd.cons (hc.cons hds)⟩
      · simp only [if_neg hp] at h
        cases h
        exact ⟨.one d, rfl, hd⟩

private theorem varDecls_sound :
    ∀ {n : Nat} {ts rest : List Token} {vs : List VarDecl}, ts ≠ [] →
      varDecls behind n ts = .ok (vs, rest) →
      ∃ d : List VarGroup, d.flatMap VarGroup.tree = vs ∧
        Consumes ts (d.flatMap VarGroup.tokens) rest := by
  intro n
  induction n with
  | zero =>
      intro ts rest vs _ h
      cases h
  | succ n ih =>
      intro ts rest vs hne h
      rw [varDecls] at h
      by_cases hp : peek ts = .ident
      · simp only [if_pos hp] at h
        obtain ⟨⟨ids, us⟩, hids, h⟩ := of_bind_eq_ok h
        obtain ⟨⟨colon, ws⟩, hcol, h⟩ := of_bind_eq_ok h
        by_cases hty : (peek ws).isVariableType = true
        · simp only [if_pos hty] at h
          obtain ⟨xs, hxs, h⟩ := of_bind_eq_ok h
          obtain ⟨⟨semi, ys⟩, hsemi, h⟩ := of_bind_eq_ok h
          obtain ⟨⟨ds, zs⟩, hds, h⟩ := of_bind_eq_ok h
          cases h
          obtain ⟨is, rfl, hisc⟩ := names_sound hids
          obtain ⟨c, -, hc⟩ := consumes_of_expect hcol rfl
          obtain ⟨ty, htyk, htyc⟩ := consumes_of_peek_class hty hxs rfl rfl
          obtain ⟨se, -, hse⟩ := consumes_of_expect hsemi rfl
          obtain ⟨d, rfl, hd⟩ := ih hse.more hds
          refine ⟨⟨is, c, ty, se⟩ :: d, ?_, ?_⟩
          · simp only [List.flatMap_cons, VarGroup.tree, htyk]
          · simpa [VarGroup.tokens]
              using hisc.append (hc.cons (htyc.cons (hse.cons hd)))
        · simp only [if_neg hty] at h
          cases h
      · simp only [if_neg hp] at h
        cases h
        exact ⟨[], rfl, .none hne⟩

private theorem pinNumber_sound {v : Int64}
    (h : pinNumber behind ts = .ok (v, rest)) :
    ∃ t : TokenOf .integerConst,
      Int64.ofNat (Numeral.digits 0 t.val.literal.toList) = v ∧
      Consumes ts [t.val] rest := by
  cases ts with
  | nil => cases h
  | cons t ts =>
      rw [pinNumber] at h
      split at h
      · next hk =>
        split at h
        · cases h
        · next v' hv =>
          obtain ⟨us, hus, h⟩ := of_bind_eq_ok h
          cases h
          exact ⟨⟨t, hk⟩, (integer?_eq_some hv).2.symm,
            consumes_of_advance hus (fits_of_integer? hk hv)⟩
      · cases h

private theorem pinDecls_sound :
    ∀ {n : Nat} {ts rest : List Token} {ps : List PinDecl}, ts ≠ [] →
      pinDecls behind n ts = .ok (ps, rest) →
      ∃ d : List Grammar.Pin, d.map Grammar.Pin.tree = ps ∧
        Consumes ts (d.flatMap Grammar.Pin.tokens) rest := by
  intro n
  induction n with
  | zero =>
      intro ts rest ps _ h
      cases h
  | succ n ih =>
      intro ts rest ps hne h
      rw [pinDecls] at h
      by_cases hp : peek ts = .ident
      · simp only [if_pos hp] at h
        obtain ⟨⟨id, us⟩, hid, h⟩ := of_bind_eq_ok h
        obtain ⟨⟨colon, ws⟩, hcol, h⟩ := of_bind_eq_ok h
        by_cases hdir : (peek ws).isDirection = true
        · simp only [if_pos hdir] at h
          obtain ⟨xs, hxs, h⟩ := of_bind_eq_ok h
          obtain ⟨⟨pin, ys⟩, hpin, h⟩ := of_bind_eq_ok h
          obtain ⟨⟨semi, zs⟩, hsemi, h⟩ := of_bind_eq_ok h
          obtain ⟨⟨ds, as⟩, hds, h⟩ := of_bind_eq_ok h
          cases h
          obtain ⟨i, rfl, hi⟩ := consumes_of_expect hid rfl
          obtain ⟨c, -, hc⟩ := consumes_of_expect hcol rfl
          obtain ⟨dir, hdirk, hdirc⟩ := consumes_of_peek_class hdir hxs rfl rfl
          obtain ⟨num, rfl, hnum⟩ := pinNumber_sound hpin
          obtain ⟨se, -, hse⟩ := consumes_of_expect hsemi rfl
          obtain ⟨d, rfl, hd⟩ := ih hse.more hds
          refine ⟨⟨i, c, dir, num, se⟩ :: d, ?_, ?_⟩
          · simp only [List.map_cons, Grammar.Pin.tree, hdirk]
          · exact hi.cons (hc.cons (hdirc.cons (hnum.cons (hse.cons hd))))
        · simp only [if_neg hdir] at h
          cases h
      · simp only [if_neg hp] at h
        cases h
        exact ⟨[], rfl, .none hne⟩

private theorem waypointDecls_sound :
    ∀ {n : Nat} {ts rest : List Token} {ws : List WaypointDecl},
      ts ≠ [] → waypointDecls behind n ts = .ok (ws, rest) →
      ∃ d : List Waypoint, d.map Waypoint.tree = ws ∧
        Consumes ts (d.flatMap Waypoint.tokens) rest := by
  intro n
  induction n with
  | zero =>
      intro ts rest ws _ h
      cases h
  | succ n ih =>
      intro ts rest ws hne h
      rw [waypointDecls] at h
      by_cases hp : peek ts = .ident
      · simp only [if_pos hp] at h
        obtain ⟨⟨id, us⟩, hid, h⟩ := of_bind_eq_ok h
        obtain ⟨⟨op, vs⟩, hop, h⟩ := of_bind_eq_ok h
        obtain ⟨⟨distance, xs⟩, hdist, h⟩ := of_bind_eq_ok h
        obtain ⟨⟨comma, ys⟩, hcom, h⟩ := of_bind_eq_ok h
        obtain ⟨⟨speed, zs⟩, hsp, h⟩ := of_bind_eq_ok h
        obtain ⟨⟨semi, as⟩, hsemi, h⟩ := of_bind_eq_ok h
        obtain ⟨⟨ds, bs⟩, hds, h⟩ := of_bind_eq_ok h
        cases h
        obtain ⟨i, rfl, hi⟩ := consumes_of_expect hid rfl
        obtain ⟨o, -, ho⟩ := consumes_of_expect hop rfl
        obtain ⟨dist, rfl, hdistc⟩ := factor_sound hdist
        obtain ⟨c, -, hc⟩ := consumes_of_expect hcom rfl
        obtain ⟨sp, rfl, hspc⟩ := factor_sound hsp
        obtain ⟨se, -, hse⟩ := consumes_of_expect hsemi rfl
        obtain ⟨d, rfl, hd⟩ := ih hse.more hds
        refine ⟨⟨i, o, dist, c, sp, se⟩ :: d, rfl, ?_⟩
        simpa [Waypoint.tokens] using hi.cons
            (ho.cons (hdistc.append (hc.cons (hspc.append (hse.cons hd)))))
      · simp only [if_neg hp] at h
        cases h
        exact ⟨[], rfl, .none hne⟩

/-- A section is sound if its declarations are. -/
private theorem optionalSection_sound {δ α : Type} {k : Kind}
    {tokens : δ → List Token} {tree : List δ → List α}
    {decls : List Token → Except ParseError (List α × List Token)} {as : List α}
    (hdecls : ∀ {ts rest as}, ts ≠ [] → decls ts = .ok (as, rest) →
      ∃ d : List δ, tree d = as ∧ Consumes ts (d.flatMap tokens) rest)
    (hnil : tree [] = []) (hne : ts ≠ [])
    (h : optionalSection behind k decls ts = .ok (as, rest))
    (hk : isPlain k = true) :
    ∃ d : Grammar.Section k δ, tree d.decls = as ∧
      Consumes ts (d.tokens tokens) rest := by
  unfold optionalSection at h
  split at h
  · next hp =>
    obtain ⟨us, hus, h⟩ := of_bind_eq_ok h
    obtain ⟨t, ht⟩ := consumes_of_peek hp hus hk
    obtain ⟨d, rfl, hd⟩ := hdecls ht.more h
    exact ⟨.present t d, rfl, ht.cons hd⟩
  · cases h
    exact ⟨.absent, hnil, .none hne⟩

end Declarations

/-! ## Programs -/

section Programs

variable {behind : ParseError} {n : Nat} {ts rest : List Token}

private theorem block_sound {b : Fixture.Block} (hne : ts ≠ [])
    (h : block behind n ts = .ok (b, rest)) :
    ∃ d : Grammar.Block, d.tree = b ∧ Consumes ts d.tokens rest := by
  unfold block at h
  obtain ⟨⟨vars, us⟩, hvars, h⟩ := of_bind_eq_ok h
  obtain ⟨⟨pins, vs⟩, hpins, h⟩ := of_bind_eq_ok h
  obtain ⟨⟨waypoints, ws⟩, hways, h⟩ := of_bind_eq_ok h
  obtain ⟨⟨bodyTok, xs⟩, hbegin, h⟩ := of_bind_eq_ok h
  obtain ⟨⟨body, ys⟩, hbody, h⟩ := of_bind_eq_ok h
  obtain ⟨⟨e, zs⟩, hend, h⟩ := of_bind_eq_ok h
  cases h
  obtain ⟨dv, rfl, hdv⟩ :=
    optionalSection_sound varDecls_sound rfl hne hvars rfl
  obtain ⟨dp, rfl, hdp⟩ :=
    optionalSection_sound pinDecls_sound rfl hdv.more hpins rfl
  obtain ⟨dw, rfl, hdw⟩ :=
    optionalSection_sound waypointDecls_sound rfl hdp.more hways rfl
  obtain ⟨o, rfl, ho⟩ := consumes_of_expect hbegin rfl
  obtain ⟨ss, rfl, hss⟩ := statements_sound hbody
  obtain ⟨c, -, hc⟩ := consumes_of_expect hend rfl
  exact ⟨⟨dv, dp, dw, o, ss, c⟩, rfl,
    hdv.append (hdp.append (hdw.append (ho.cons (hss.append hc))))⟩

/-- **Programs are sound.** Behind a program that is read stands the end of the
source. -/
theorem program_sound {p : Fixture.Program} (h : program behind n ts = .ok p) :
    ∃ (d : Grammar.Program) (eof : TokenOf .eof) (more : List Token),
      d.tree = p ∧ Consumes ts d.tokens (eof.val :: more) := by
  unfold program at h
  obtain ⟨⟨tok, us⟩, htok, h⟩ := of_bind_eq_ok h
  obtain ⟨⟨name, vs⟩, hname, h⟩ := of_bind_eq_ok h
  obtain ⟨⟨semi, ws⟩, hsemi, h⟩ := of_bind_eq_ok h
  obtain ⟨⟨b, xs⟩, hb, h⟩ := of_bind_eq_ok h
  obtain ⟨⟨dot, ys⟩, hdot, h⟩ := of_bind_eq_ok h
  obtain ⟨t, rfl, ht⟩ := consumes_of_expect htok rfl
  obtain ⟨id, rfl, hid⟩ := consumes_of_expect hname rfl
  obtain ⟨se, -, hse⟩ := consumes_of_expect hsemi rfl
  obtain ⟨d, rfl, hd⟩ := block_sound hse.more hb
  obtain ⟨dt, -, hdt⟩ := consumes_of_expect hdot rfl
  have hfront := ht.cons (hid.cons (hse.cons (hd.append hdt)))
  by_cases hp : peek ys = .eof
  · simp only [if_pos hp] at h
    cases h
    cases ys with
    | nil => exact absurd rfl hdt.more
    | cons e more => exact ⟨⟨t, id, se, d, dt⟩, ⟨e, hp⟩, more, rfl, hfront⟩
  · simp only [if_neg hp] at h
    cases h

end Programs

end Fixture.Parse
