import Fixture.Proofs.Grammar.Obeys
/-!
# The readers keep to the grammar

Every reader keeps to the language of its nonterminal, the frontiers of its
derivations, on a budget of four calls for each token and a few more.

## Main results

* `factor_obeys`, `expression_obeys`, `statements_obeys`: for one nonterminal
  each.
* `program_obeys`: for programs.
-/

namespace Fixture.Parse

open Grammar

/-! ## Tokens to go on with -/

/-- A name to go on with. -/
def anyName : Token := ⟨.ident, "x", .nowhere⟩

private theorem sound_anyName : anyName.Sound := by
  refine ⟨⟨[120], ?_, rfl⟩, fits_of_kind rfl rfl⟩
  exact Lexeme.Spelt.word (b := 120) (w := []) rfl (by simp)

private theorem sound_fixed {k : Kind} (hk : k.isFixed = true)
    (hplain : isPlain k = true) : (Token.fixed k).Sound :=
  ⟨Token.spelt_fixed hk, Token.fits_fixed hplain⟩

private theorem completes_fixed {k : Kind} (hk : k.isFixed = true)
    (hplain : isPlain k = true) : Completes (oneOf (· = k)) [] :=
  completes_oneOf (sound_fixed hk hplain) rfl

private theorem not_mem_oneOf {p : Kind → Prop} : [] ∉ oneOf p := by
  rintro ⟨t, -, h⟩
  cases h

variable {b b' : ParseError} {n m : Nat} {ts : List Token}

private theorem expect_fixed {k : Kind} (hk : k.isFixed = true)
    (hplain : isPlain k = true) (hts : ts ≠ []) :
    Obeys b (oneOf (· = k)) (skim (expect b k)) (skim (expect b' k)) ts := by
  obtain ⟨t, us, rfl⟩ := List.exists_cons_of_ne_nil hts
  refine .expect (sound_fixed hk hplain) rfl ?_ fun ht => fits_of_kind ht hplain
  rintro rfl
  cases hk

private theorem expect_name (hts : ts ≠ []) :
    Obeys b (oneOf (· = .ident)) (skim (expect b .ident))
      (skim (expect b' .ident)) ts := by
  obtain ⟨t, us, rfl⟩ := List.exists_cons_of_ne_nil hts
  exact .expect sound_anyName rfl Kind.noConfusion fun ht => fits_of_kind ht rfl

private theorem advance_kind {k : Kind} (hts : ts ≠ []) (hk : peek ts = k)
    (hplain : isPlain k = true) (heof : k ≠ .eof) :
    Obeys b (oneOf (· = k)) (advance b) (advance b') ts := by
  obtain ⟨t, us, rfl⟩ := List.exists_cons_of_ne_nil hts
  exact .advance (p := (· = k)) hk (fun ht => heof (hk.symm.trans ht))
    (fits_of_kind hk hplain)

private theorem advance_class {p : Kind → Bool} (hts : ts ≠ [])
    (hk : p (peek ts) = true) (heof : p .eof = false)
    (hi : p .integerConst = false) (hr : p .realConst = false) :
    Obeys b (oneOf (p · = true)) (advance b) (advance b') ts := by
  obtain ⟨t, us, rfl⟩ := List.exists_cons_of_ne_nil hts
  refine .advance (p := (p · = true)) hk (fun ht => ?_) (fits_of_class hk hi hr)
  rw [peek, ht, heof] at hk
  cases hk

/--
A way that may be taken behind an operator of a class: an operand, and then
whatever more there is.
-/
private theorem operatorTail_obeys {p : Kind → Bool} {X Y V W F G : Skim}
    {L L' : Set (List Token)} (hts : ts ≠ []) (heof : p .eof = false)
    (hi : p .integerConst = false) (hr : p .realConst = false)
    (hF : ∀ t us, F (t :: us) =
      optionally (p · = true) (advance b >=> X >=> Y) (t :: us))
    (hG : ∀ t us, G (t :: us) =
      optionally (p · = true) (advance b' >=> V >=> W) (t :: us))
    (hpos : [] ∉ L) (hL : Completes L []) (hL' : Derives L' [])
    (hX : ∀ rest, rest ≠ [] → rest.length < ts.length → Obeys b L X V rest)
    (hY : ∀ rest, rest ≠ [] → rest.length < ts.length → Obeys b L' Y W rest) :
    Obeys b (maybe (chain (oneOf (p · = true)) (chain L L'))) F G ts := by
  obtain ⟨t, us, rfl⟩ := List.exists_cons_of_ne_nil hts
  refine .congr (hF t us) (fun t' us' _ => hG t' us') (.optionally hts ?_)
  intro hk
  refine .seq_lt (advance_class hts hk heof hi hr) not_mem_oneOf
    (hL.left hL'.completes) fun rest hrest hlt => ?_
  refine .seq_lt (hX rest hrest hlt) hpos hL'.completes ?_
  exact fun rest' hrest' hlt' => hY rest' hrest' (hlt'.trans hlt)

/-! ## Expressions -/

private theorem factor_subset_term :
    Set.range Factor.tokens ⊆ Set.range Term.tokens := by
  rintro us ⟨f, rfl⟩
  exact ⟨.mk f .nil, by simp⟩

private theorem term_subset_sum :
    Set.range Term.tokens ⊆ Set.range Grammar.Sum.tokens := by
  rintro us ⟨d, rfl⟩
  exact ⟨.mk d .nil, by simp⟩

private theorem sum_subset_expression :
    Set.range Grammar.Sum.tokens ⊆ Set.range Expression.tokens := by
  rintro us ⟨d, rfl⟩
  exact ⟨.sum d, rfl⟩

private theorem completes_factor : Completes (Set.range Factor.tokens) [] := by
  refine (completes_oneOf (p := (· = .ident)) sound_anyName rfl).mono ?_
  rintro us ⟨t, ht, rfl⟩
  exact ⟨.name ⟨t, ht⟩, rfl⟩

private theorem completes_term : Completes (Set.range Term.tokens) [] :=
  completes_factor.mono factor_subset_term

private theorem completes_sum : Completes (Set.range Grammar.Sum.tokens) [] :=
  completes_term.mono term_subset_sum

private theorem completes_expression :
    Completes (Set.range Expression.tokens) [] :=
  completes_sum.mono sum_subset_expression

private theorem derives_factors : Derives (Set.range Factors.tokens) [] :=
  derives_nil ⟨.nil, rfl⟩

private theorem derives_terms : Derives (Set.range Terms.tokens) [] :=
  derives_nil ⟨.nil, rfl⟩

private theorem not_mem_factor : [] ∉ Set.range Factor.tokens := by
  rintro ⟨d, hd⟩
  exact absurd (Factor.length_pos d) (by rw [hd]; exact Nat.lt_irrefl 0)

private theorem not_mem_term : [] ∉ Set.range Term.tokens := by
  rintro ⟨⟨f, fs⟩, hd⟩
  exact not_mem_factor ⟨f, (List.append_eq_nil_iff.1 hd).1⟩

private theorem not_mem_sum : [] ∉ Set.range Grammar.Sum.tokens := by
  rintro ⟨⟨t, ts⟩, hd⟩
  exact not_mem_term ⟨t, (List.append_eq_nil_iff.1 hd).1⟩

/-- What may stand behind the first sum of an expression. -/
def comparisons : Set (List Token) :=
  maybe (chain (oneOf (·.isRelational = true)) (Set.range Grammar.Sum.tokens))

/-- What holds of the readers of expressions at a budget. -/
structure TameExpressions (b b' : ParseError) (n m : Nat) : Prop where
  factor : ∀ {ts}, ts ≠ [] → 4 * ts.length ≤ n →
    Obeys b (Set.range Factor.tokens) (skim (factor b n)) (skim (factor b' m))
      ts
  termTail : ∀ {left ts}, ts ≠ [] → 4 * ts.length + 1 ≤ n →
    Obeys b (Set.range Factors.tokens) (skim (termTail b n left))
      (skim (termTail b' m left)) ts
  term : ∀ {ts}, ts ≠ [] → 4 * ts.length + 1 ≤ n →
    Obeys b (Set.range Term.tokens) (skim (term b n)) (skim (term b' m)) ts
  sumTail : ∀ {left ts}, ts ≠ [] → 4 * ts.length + 1 ≤ n →
    Obeys b (Set.range Terms.tokens) (skim (sumTail b n left))
      (skim (sumTail b' m left)) ts
  sum : ∀ {ts}, ts ≠ [] → 4 * ts.length + 2 ≤ n →
    Obeys b (Set.range Grammar.Sum.tokens) (skim (sum b n)) (skim (sum b' m)) ts
  comparison : ∀ {left ts}, ts ≠ [] → 4 * ts.length + 1 ≤ n →
    Obeys b comparisons (skim (comparison b n left))
      (skim (comparison b' m left)) ts
  expression : ∀ {ts}, ts ≠ [] → 4 * ts.length + 3 ≤ n →
    Obeys b (Set.range Expression.tokens) (skim (expression b n))
      (skim (expression b' m)) ts

section Step

variable (ih : TameExpressions b b' n m)
include ih

private theorem factor_tame (hts : ts ≠ []) (hn : 4 * ts.length ≤ n + 1) :
    Obeys b (Set.range Factor.tokens) (skim (factor b (n + 1)))
      (skim (factor b' (m + 1))) ts := by
  obtain ⟨t, us, rfl⟩ := List.exists_cons_of_ne_nil hts
  rw [List.length_cons] at hn
  have hkind {t' : Token} {k : Kind} (ht : t.unplaced = t'.unplaced)
      (hk : t.kind = k) : t'.kind = k :=
    (Token.kind_eq_of_unplaced ht).symm.trans hk
  have signed (hk : t.kind.isAdditive = true) : Obeys b
      (Set.range Factor.tokens) (skim (factor b (n + 1)))
      (skim (factor b' (m + 1))) (t :: us) := by
    refine .congr (skim_factor_signed hk)
      (fun t' us' ht => skim_factor_signed (hkind ht rfl ▸ hk))
      (.mono
        (.seq_lt (advance_class hts hk rfl rfl rfl) not_mem_oneOf
          completes_factor fun rest hrest hlt =>
            ih.factor hrest (by rw [List.length_cons] at hlt; omega)) ?_)
    rintro _ ⟨_, _, ⟨op, hop, rfl⟩, ⟨f, rfl⟩, rfl⟩
    exact ⟨.signed ⟨op, hop⟩ f, rfl⟩
  cases hk : t.kind with
  | plus => exact signed (by rw [hk]; rfl)
  | minus => exact signed (by rw [hk]; rfl)
  | integerConst =>
      have hsubset : oneOf (· = .integerConst) ⊆ Set.range Factor.tokens := by
        rintro _ ⟨s, hs, rfl⟩
        exact ⟨.integer ⟨s, hs⟩, rfl⟩
      cases hv : Numeral.integer? t.literal with
      | none =>
          have hfail : skim (factor b (n + 1)) (t :: us) =
              .error (.outOfRange .integer t) := by
            simp only [skim_eq]
            simp only [factor, hk, hv]
            rfl
          refine .tooLarge hfail (.inl hk) (fun hfits => ?_) (hk ▸ hsubset)
          rw [integer?_eq (hfits.integer hk)] at hv
          cases hv
      | some v =>
          have hsame : ∀ t' us', t.unplaced = t'.unplaced →
              skim (factor b' (m + 1)) (t' :: us') =
                advance b' (t' :: us') := by
            intro t' us' ht
            rw [Token.literal_eq_of_unplaced ht] at hv
            exact skim_factor_integer (hkind ht hk) hv
          exact .congr (skim_factor_integer hk hv) hsame
            (.mono
              (.advance (p := (· = .integerConst)) hk (hk ▸ Kind.noConfusion)
                (fits_of_integer? hk hv)) hsubset)
  | realConst =>
      have hsubset : oneOf (· = .realConst) ⊆ Set.range Factor.tokens := by
        rintro _ ⟨s, hs, rfl⟩
        exact ⟨.real ⟨s, hs⟩, rfl⟩
      cases hv : Numeral.real? t.literal with
      | none =>
          have hfail : skim (factor b (n + 1)) (t :: us) =
              .error (.outOfRange .real t) := by
            simp only [skim_eq]
            simp only [factor, hk, hv]
            rfl
          refine .tooLarge hfail (.inr hk) (fun hfits => ?_) (hk ▸ hsubset)
          have hsome := hfits.real hk
          rw [hv] at hsome
          cases hsome
      | some v =>
          have hsame : ∀ t' us', t.unplaced = t'.unplaced →
              skim (factor b' (m + 1)) (t' :: us') =
                advance b' (t' :: us') := by
            intro t' us' ht
            rw [Token.literal_eq_of_unplaced ht] at hv
            exact skim_factor_real (hkind ht hk) hv
          exact .congr (skim_factor_real hk hv) hsame
            (.mono
              (.advance (p := (· = .realConst)) hk (hk ▸ Kind.noConfusion)
                (fits_of_real? hk hv)) hsubset)
  | boolConst =>
      refine .congr (skim_factor_boolean hk)
        (fun t' us' ht => skim_factor_boolean (hkind ht hk))
        (.mono (advance_kind hts hk rfl Kind.noConfusion) ?_)
      rintro _ ⟨s, hs, rfl⟩
      exact ⟨.boolean ⟨s, hs⟩, rfl⟩
  | lparen =>
      refine .congr (skim_factor_paren hk)
        (fun t' us' ht => skim_factor_paren (hkind ht hk))
        (.mono
          (.seq_lt (advance_kind hts hk rfl Kind.noConfusion) not_mem_oneOf
            (completes_expression.left (completes_fixed rfl rfl))
            fun rest hrest hlt =>
              .seq_le
                (ih.expression hrest (by rw [List.length_cons] at hlt; omega))
                (completes_fixed rfl rfl) fun rest hrest _ =>
                  expect_fixed rfl rfl hrest) ?_)
      rintro _ ⟨_, _, ⟨l, hl, rfl⟩, ⟨_, _, ⟨e, rfl⟩, ⟨r, hr, rfl⟩, rfl⟩, rfl⟩
      exact ⟨.paren ⟨l, hl⟩ e ⟨r, hr⟩, rfl⟩
  | _ =>
      have hnone : beginsFactor t.kind = false := by rw [hk]; rfl
      refine .congr (skim_factor_name hnone)
        (fun t' us' ht => skim_factor_name (hkind ht rfl ▸ hnone))
        (.mono (expect_name hts) ?_)
      rintro _ ⟨s, hs, rfl⟩
      exact ⟨.name ⟨s, hs⟩, rfl⟩

private theorem termTail_tame {left : Expr} (hts : ts ≠ [])
    (hn : 4 * ts.length + 1 ≤ n + 1) :
    Obeys b (Set.range Factors.tokens) (skim (termTail b (n + 1) left))
      (skim (termTail b' (m + 1) left)) ts := by
  refine .mono
    (operatorTail_obeys hts rfl rfl rfl (fun _ _ => skim_termTail left)
      (fun _ _ => skim_termTail left) not_mem_factor completes_factor
      derives_factors (fun rest hrest hlt => ih.factor hrest (by omega))
      (fun rest hrest hlt => ih.termTail hrest (by omega))) ?_
  rintro _ (rfl | ⟨_, _, ⟨op, hop, rfl⟩, ⟨_, _, ⟨f, rfl⟩, ⟨fs, rfl⟩, rfl⟩, rfl⟩)
  · exact ⟨.nil, rfl⟩
  · exact ⟨.cons ⟨op, hop⟩ f fs, rfl⟩

private theorem term_tame (hts : ts ≠ []) (hn : 4 * ts.length + 1 ≤ n + 1) :
    Obeys b (Set.range Term.tokens) (skim (term b (n + 1)))
      (skim (term b' (m + 1))) ts := by
  obtain ⟨t, us, rfl⟩ := List.exists_cons_of_ne_nil hts
  let left : Expr := .name t
  refine .congr (skim_term left) (fun t' us' _ => skim_term left)
    (.mono
      (.seq_lt (ih.factor hts (by omega)) not_mem_factor
        derives_factors.completes fun rest hrest hlt =>
          ih.termTail hrest (by omega)) ?_)
  rintro _ ⟨_, _, ⟨f, rfl⟩, ⟨fs, rfl⟩, rfl⟩
  exact ⟨.mk f fs, rfl⟩

private theorem sumTail_tame {left : Expr} (hts : ts ≠ [])
    (hn : 4 * ts.length + 1 ≤ n + 1) :
    Obeys b (Set.range Terms.tokens) (skim (sumTail b (n + 1) left))
      (skim (sumTail b' (m + 1) left)) ts := by
  refine .mono
    (operatorTail_obeys hts rfl rfl rfl (fun _ _ => skim_sumTail left)
      (fun _ _ => skim_sumTail left) not_mem_term completes_term derives_terms
      (fun rest hrest hlt => ih.term hrest (by omega))
      (fun rest hrest hlt => ih.sumTail hrest (by omega))) ?_
  rintro _ (rfl | ⟨_, _, ⟨op, hop, rfl⟩, ⟨_, _, ⟨d, rfl⟩, ⟨ds, rfl⟩, rfl⟩, rfl⟩)
  · exact ⟨.nil, rfl⟩
  · exact ⟨.cons ⟨op, hop⟩ d ds, rfl⟩

private theorem sum_tame (hts : ts ≠ []) (hn : 4 * ts.length + 2 ≤ n + 1) :
    Obeys b (Set.range Grammar.Sum.tokens) (skim (sum b (n + 1)))
      (skim (sum b' (m + 1))) ts := by
  obtain ⟨t, us, rfl⟩ := List.exists_cons_of_ne_nil hts
  let left : Expr := .name t
  refine .congr (skim_sum left) (fun t' us' _ => skim_sum left)
    (.mono
      (.seq_lt (ih.term hts (by omega)) not_mem_term derives_terms.completes
        fun rest hrest hlt => ih.sumTail hrest (by omega)) ?_)
  rintro _ ⟨_, _, ⟨d, rfl⟩, ⟨ds, rfl⟩, rfl⟩
  exact ⟨.mk d ds, rfl⟩

private theorem comparison_tame {left : Expr} (hts : ts ≠ [])
    (hn : 4 * ts.length + 1 ≤ n + 1) :
    Obeys b comparisons (skim (comparison b (n + 1) left))
      (skim (comparison b' (m + 1) left)) ts := by
  obtain ⟨t, us, rfl⟩ := List.exists_cons_of_ne_nil hts
  exact .congr (skim_comparison left) (fun t' us' _ => skim_comparison left)
    (.optionally hts fun hk =>
      .seq_lt (advance_class hts hk rfl rfl rfl) not_mem_oneOf completes_sum
        fun rest hrest hlt => ih.sum hrest (by omega))

private theorem expression_tame (hts : ts ≠ [])
    (hn : 4 * ts.length + 3 ≤ n + 1) :
    Obeys b (Set.range Expression.tokens) (skim (expression b (n + 1)))
      (skim (expression b' (m + 1))) ts := by
  obtain ⟨t, us, rfl⟩ := List.exists_cons_of_ne_nil hts
  let left : Expr := .name t
  refine .congr (skim_expression left) (fun t' us' _ => skim_expression left)
    (.mono
      (.seq_lt (ih.sum hts (by omega)) not_mem_sum derives_maybe.completes
        fun rest hrest hlt => ih.comparison hrest (by omega)) ?_)
  rintro _ ⟨_, _, ⟨l, rfl⟩, rfl | ⟨_, _, ⟨op, hop, rfl⟩, ⟨r, rfl⟩, rfl⟩, rfl⟩
  · exact ⟨.sum l, (List.append_nil _).symm⟩
  · exact ⟨.comparison l ⟨op, hop⟩ r, rfl⟩

end Step

/-- The readers of expressions keep to the grammar at every budget. -/
private theorem tameExpressions (b b' : ParseError) :
    ∀ {n m : Nat}, n ≤ m → TameExpressions b b' n m := by
  intro n
  induction n with
  | zero =>
      -- No token can be read without a budget, and there is a token.
      have hnever {ts : List Token} (hts : ts ≠ []) (hn : 4 * ts.length ≤ 0) :
          False := by
        have := List.length_pos_iff.2 hts
        omega
      intro m _
      constructor <;> intros <;> exact (hnever ‹_› (by omega)).elim
  | succ n ih =>
      intro m hm
      obtain ⟨m, rfl⟩ : ∃ k, m = k + 1 := ⟨m - 1, by omega⟩
      have ih := ih (Nat.le_of_succ_le_succ hm)
      exact ⟨factor_tame ih, termTail_tame ih, term_tame ih, sumTail_tame ih,
        sum_tame ih, comparison_tame ih, expression_tame ih⟩

/-- **Factors keep to the grammar.** -/
theorem factor_obeys (hm : n ≤ m) (hts : ts ≠ []) (hn : 4 * ts.length ≤ n) :
    Obeys b (Set.range Factor.tokens) (skim (factor b n)) (skim (factor b' m))
      ts :=
  (tameExpressions b b' hm).factor hts hn

/-- **Expressions keep to the grammar.** -/
theorem expression_obeys (hm : n ≤ m) (hts : ts ≠ [])
    (hn : 4 * ts.length + 3 ≤ n) :
    Obeys b (Set.range Expression.tokens) (skim (expression b n))
      (skim (expression b' m)) ts :=
  (tameExpressions b b' hm).expression hts hn

/-! ## Statements -/

private theorem operands_obeys (hm : n ≤ m) (hts : ts ≠ [])
    (hn : 4 * ts.length ≤ n) :
    Obeys b (Set.range Operands.tokens) (skim (operands b n))
      (skim (operands b' m)) ts := by
  obtain ⟨t, us, rfl⟩ := List.exists_cons_of_ne_nil hts
  refine .congr skim_operands (fun t' us' _ => skim_operands)
    (.mono
      (.seq_le (factor_obeys hm hts hn) derives_maybe.completes
        fun rest hrest hle =>
          .optionally hrest fun hk =>
            .seq_lt (advance_kind hrest hk rfl Kind.noConfusion) not_mem_oneOf
              completes_factor fun rest' hrest' hlt =>
                factor_obeys hm hrest' (by omega)) ?_)
  rintro _ ⟨_, _, ⟨d, rfl⟩, rfl | ⟨_, _, ⟨c, hc, rfl⟩, ⟨s, rfl⟩, rfl⟩, rfl⟩
  · exact ⟨.distance d, (List.append_nil _).symm⟩
  · exact ⟨.both d ⟨c, hc⟩ s, rfl⟩

private theorem completes_operands :
    Completes (Set.range Operands.tokens) [] := by
  refine completes_factor.mono ?_
  rintro _ ⟨d, rfl⟩
  exact ⟨.distance d, rfl⟩

private theorem derives_statements : Derives (Set.range Statements.tokens) [] :=
  derives_nil ⟨.one .empty, rfl⟩

/-- What may stand behind the first list of a branch. -/
def alternatives : Set (List Token) :=
  maybe (chain (oneOf (· = .kwElse))
    (chain (oneOf (· = .colon)) (Set.range Statements.tokens)))

/-- What holds of the readers of statements at a budget. -/
structure TameStatements (b b' : ParseError) (n m : Nat) : Prop where
  statement : ∀ {ts}, ts ≠ [] → 4 * ts.length + 1 ≤ n →
    Obeys b (Set.range Statement.tokens) (skim (statement b n))
      (skim (statement b' m)) ts
  statements : ∀ {ts}, ts ≠ [] → 4 * ts.length + 2 ≤ n →
    Obeys b (Set.range Statements.tokens) (skim (statements b n))
      (skim (statements b' m)) ts

section Step

variable (ih : TameStatements b b' n m) (hm : n ≤ m) {t : Token}
    {us : List Token}
include ih hm

/-- A branch, with or without an alternative. -/
private theorem branch_tame (hk : t.kind = .kwIf)
    (hn : 4 * (t :: us).length + 1 ≤ n + 1) :
    Obeys b (Set.range Statement.tokens) (skim (statement b (n + 1)))
      (skim (statement b' (m + 1))) (t :: us) := by
  -- From each place on, the branch can be closed.
  have hclosing : Completes (oneOf (· = .kwEndif)) [] := completes_fixed rfl rfl
  have hlast : Completes (chain alternatives (oneOf (· = .kwEndif))) [] :=
    derives_maybe.completes.left hclosing
  have hbody := derives_statements.completes.left hlast
  have hcolon : Completes (chain (oneOf (· = .colon)) _) [] :=
    (completes_fixed rfl rfl).left hbody
  have halt : Completes
      (chain (oneOf (· = .colon)) (Set.range Statements.tokens)) [] :=
    (completes_fixed rfl rfl).left derives_statements.completes
  refine .congr (skim_branch hk)
    (fun t' us' ht =>
      skim_branch ((Token.kind_eq_of_unplaced ht).symm.trans hk))
    (.mono
      (.seq_lt (advance_kind (List.cons_ne_nil t us) hk rfl Kind.noConfusion)
        not_mem_oneOf (completes_expression.left hcolon) fun rest hrest hlt =>
          .seq_le (expression_obeys hm hrest (by omega)) hcolon
            fun rest₁ hrest₁ hle₁ =>
              .seq_le (expect_fixed rfl rfl hrest₁) hbody
                fun rest₂ hrest₂ hle₂ =>
                  .seq_le (ih.statements hrest₂ (by omega)) hlast
                    fun rest₃ hrest₃ hle₃ =>
                      .seq_le
                        (.optionally hrest₃ fun helse =>
                          .seq_lt
                            (advance_kind hrest₃ helse rfl Kind.noConfusion)
                            not_mem_oneOf halt fun rest₄ hrest₄ hlt₄ =>
                              .seq_le (expect_fixed rfl rfl hrest₄)
                                derives_statements.completes
                                fun rest₅ hrest₅ hle₅ =>
                                  ih.statements hrest₅ (by omega)) hclosing
                        fun rest₆ hrest₆ _ => expect_fixed rfl rfl hrest₆) ?_)
  rintro _ ⟨_, _, ⟨i, hi, rfl⟩,
    ⟨_, _, ⟨c, rfl⟩,
      ⟨_, _, ⟨col, hcol, rfl⟩,
        ⟨_, _, ⟨ss, rfl⟩, ⟨_, _, halt, ⟨e, he, rfl⟩, rfl⟩, rfl⟩, rfl⟩, rfl⟩,
    rfl⟩
  rcases halt with
    rfl |
      ⟨_, _, ⟨el, hel, rfl⟩, ⟨_, _, ⟨col', hcol', rfl⟩, ⟨alt, rfl⟩, rfl⟩, rfl⟩
  · exact ⟨.ifThen ⟨i, hi⟩ c ⟨col, hcol⟩ ss ⟨e, he⟩, rfl⟩
  · exact ⟨.ifElse ⟨i, hi⟩ c ⟨col, hcol⟩ ss ⟨el, hel⟩ ⟨col', hcol'⟩ alt ⟨e, he⟩,
      by simp⟩

private theorem statement_tame (hts : ts ≠ [])
    (hn : 4 * ts.length + 1 ≤ n + 1) :
    Obeys b (Set.range Statement.tokens) (skim (statement b (n + 1)))
      (skim (statement b' (m + 1))) ts := by
  obtain ⟨t, us, rfl⟩ := List.exists_cons_of_ne_nil hts
  have hkind {t' : Token} {k : Kind} (ht : t.unplaced = t'.unplaced)
      (hk : t.kind = k) : t'.kind = k :=
    (Token.kind_eq_of_unplaced ht).symm.trans hk
  have moved (axis : Axis) (hk : t.kind = axis.kind)
      (hplain : isPlain axis.kind = true) (heof : axis.kind ≠ .eof) :
      Obeys b (Set.range Statement.tokens) (skim (statement b (n + 1)))
        (skim (statement b' (m + 1))) (t :: us) := by
    refine .congr (skim_move hk) (fun t' us' ht => skim_move (hkind ht hk))
      (.mono
        (.seq_lt (advance_kind hts hk hplain heof) not_mem_oneOf
          completes_operands fun rest hrest hlt =>
            operands_obeys hm hrest (by omega)) ?_)
    rintro _ ⟨_, _, ⟨s, hs, rfl⟩, ⟨o, rfl⟩, rfl⟩
    exact ⟨.move axis ⟨s, hs⟩ o, rfl⟩
  cases hk : t.kind with
  | kwBegin =>
      refine .congr (skim_compound hk)
        (fun t' us' ht => skim_compound (hkind ht hk))
        (.mono
          (.seq_lt (advance_kind hts hk rfl Kind.noConfusion) not_mem_oneOf
            (derives_statements.completes.left (completes_fixed rfl rfl))
            fun rest hrest hlt =>
              .seq_le (ih.statements hrest (by omega)) (completes_fixed rfl rfl)
                fun rest' hrest' _ => expect_fixed rfl rfl hrest') ?_)
      rintro _ ⟨_, _, ⟨s, hs, rfl⟩, ⟨_, _, ⟨ss, rfl⟩, ⟨e, he, rfl⟩, rfl⟩, rfl⟩
      exact ⟨.compound ⟨s, hs⟩ ss ⟨e, he⟩, rfl⟩
  | ident =>
      refine .congr (skim_assign hk)
        (fun t' us' ht => skim_assign (hkind ht hk))
        (.mono
          (.seq_lt (advance_kind hts hk rfl Kind.noConfusion) not_mem_oneOf
            ((completes_fixed rfl rfl).left completes_expression)
            fun rest hrest hlt =>
              .seq_le (expect_fixed rfl rfl hrest) completes_expression
                fun rest' hrest' hle => expression_obeys hm hrest' (by omega))
          ?_)
      rintro _ ⟨_, _, ⟨s, hs, rfl⟩, ⟨_, _, ⟨op, hop, rfl⟩, ⟨e, rfl⟩, rfl⟩, rfl⟩
      exact ⟨.assign ⟨s, hs⟩ ⟨op, hop⟩ e, rfl⟩
  | kwIf => exact branch_tame ih hm hk hn
  | kwLoop =>
      refine .congr (skim_loop hk) (fun t' us' ht => skim_loop (hkind ht hk))
        (.mono
          (.seq_lt (advance_kind hts hk rfl Kind.noConfusion) not_mem_oneOf
            ((completes_fixed rfl rfl).left
              (derives_statements.completes.left
                ((completes_fixed rfl rfl).left completes_expression)))
            fun rest hrest hlt =>
              .seq_le (expect_fixed rfl rfl hrest)
                (derives_statements.completes.left
                  ((completes_fixed rfl rfl).left completes_expression))
                fun rest₁ hrest₁ hle₁ =>
                  .seq_le (ih.statements hrest₁ (by omega))
                    ((completes_fixed rfl rfl).left completes_expression)
                    fun rest₂ hrest₂ hle₂ =>
                      .seq_le (expect_fixed rfl rfl hrest₂) completes_expression
                        fun rest₃ hrest₃ hle₃ =>
                          expression_obeys hm hrest₃ (by omega)) ?_)
      rintro _ ⟨_, _, ⟨s, hs, rfl⟩,
        ⟨_, _, ⟨c, hc, rfl⟩,
          ⟨_, _, ⟨ss, rfl⟩, ⟨_, _, ⟨u, hu, rfl⟩, ⟨e, rfl⟩, rfl⟩, rfl⟩, rfl⟩,
        rfl⟩
      exact ⟨.loop ⟨s, hs⟩ ⟨c, hc⟩ ss ⟨u, hu⟩ e, rfl⟩
  | kwWait =>
      refine .congr (skim_wait hk) (fun t' us' ht => skim_wait (hkind ht hk))
        (.mono
          (.seq_lt (advance_kind hts hk rfl Kind.noConfusion) not_mem_oneOf
            completes_expression fun rest hrest hlt =>
              expression_obeys hm hrest (by omega)) ?_)
      rintro _ ⟨_, _, ⟨s, hs, rfl⟩, ⟨e, rfl⟩, rfl⟩
      exact ⟨.wait ⟨s, hs⟩ e, rfl⟩
  | kwMoveto => exact moved .linear hk rfl Kind.noConfusion
  | kwRotate => exact moved .rotary hk rfl Kind.noConfusion
  | kwHome =>
      refine .congr (skim_home hk) (fun t' us' ht => skim_home (hkind ht hk))
        (.mono (advance_kind hts hk rfl Kind.noConfusion) ?_)
      rintro _ ⟨s, hs, rfl⟩
      exact ⟨.home ⟨s, hs⟩, rfl⟩
  | kwStop =>
      refine .congr (skim_stop hk) (fun t' us' ht => skim_stop (hkind ht hk))
        (.mono (advance_kind hts hk rfl Kind.noConfusion) ?_)
      rintro _ ⟨s, hs, rfl⟩
      exact ⟨.stop ⟨s, hs⟩, rfl⟩
  | _ =>
      have hnone : beginsStatement t.kind = false := by rw [hk]; rfl
      refine .stay (derives_nil ⟨.empty, rfl⟩) hts (skim_empty hnone)
        fun ts' hts' => ?_
      obtain ⟨t', us', rfl, ht, -⟩ := hts'.of_cons
      exact skim_empty (hkind ht rfl ▸ hnone)

omit hm in
private theorem statements_tame (hts : ts ≠ [])
    (hn : 4 * ts.length + 2 ≤ n + 1) :
    Obeys b (Set.range Statements.tokens) (skim (statements b (n + 1)))
      (skim (statements b' (m + 1))) ts := by
  obtain ⟨t, us, rfl⟩ := List.exists_cons_of_ne_nil hts
  refine .congr skim_statements (fun t' us' _ => skim_statements)
    (.mono
      (.seq_le (ih.statement hts (by omega)) derives_maybe.completes
        fun rest hrest hle =>
          .optionally hrest fun hk =>
            .seq_lt (advance_kind hrest hk rfl Kind.noConfusion) not_mem_oneOf
              derives_statements.completes fun rest' hrest' hlt =>
                ih.statements hrest' (by omega)) ?_)
  rintro _ ⟨_, _, ⟨d, rfl⟩, rfl | ⟨_, _, ⟨c, hc, rfl⟩, ⟨ds, rfl⟩, rfl⟩, rfl⟩
  · exact ⟨.one d, (List.append_nil _).symm⟩
  · exact ⟨.more d ⟨c, hc⟩ ds, rfl⟩

end Step

/-- The readers of statements keep to the grammar at every budget. -/
private theorem tameStatements (b b' : ParseError) :
    ∀ {n m : Nat}, n ≤ m → TameStatements b b' n m := by
  intro n
  induction n with
  | zero =>
      intro m _
      constructor <;> intros <;> omega
  | succ n ih =>
      intro m hm
      obtain ⟨m, rfl⟩ : ∃ k, m = k + 1 := ⟨m - 1, by omega⟩
      have hm := Nat.le_of_succ_le_succ hm
      exact ⟨statement_tame (ih hm) hm, statements_tame (ih hm)⟩

/-- **Statement lists keep to the grammar.** -/
theorem statements_obeys (hm : n ≤ m) (hts : ts ≠ [])
    (hn : 4 * ts.length + 2 ≤ n) :
    Obeys b (Set.range Statements.tokens) (skim (statements b n))
      (skim (statements b' m)) ts :=
  (tameStatements b b' hm).statements hts hn

/-! ## Declarations -/

private theorem expect_class {p : Kind → Bool} {k : Kind} {expected : String}
    (hk : k.isFixed = true) (hplain : isPlain k = true) (hp : p k = true)
    (heof : p .eof = false) (hi : p .integerConst = false)
    (hr : p .realConst = false) (hts : ts ≠ []) :
    Obeys b (oneOf (p · = true)) (among b p expected) (among b' p expected)
      ts := by
  obtain ⟨t, us, rfl⟩ := List.exists_cons_of_ne_nil hts
  exact .among (sound_fixed hk hplain) hp heof fun ht => fits_of_class ht hi hr

private theorem completes_class {p : Kind → Bool} {k : Kind}
    (hk : k.isFixed = true) (hplain : isPlain k = true) (hp : p k = true) :
    Completes (oneOf (p · = true)) [] :=
  completes_oneOf (t := .fixed k) (sound_fixed hk hplain) hp

private theorem completes_names : Completes (Set.range Names.tokens) [] := by
  refine (completes_oneOf (p := (· = .ident)) sound_anyName rfl).mono ?_
  rintro _ ⟨t, ht, rfl⟩
  exact ⟨.one ⟨t, ht⟩, rfl⟩

private theorem names_obeys : ∀ {n m : Nat} {ts : List Token},
    n ≤ m → ts ≠ [] → 4 * ts.length ≤ n →
    Obeys b (Set.range Names.tokens) (skim (names b n)) (skim (names b' m))
      ts := by
  intro n
  induction n with
  | zero =>
      intro m ts _ hts hn
      have := List.length_pos_iff.2 hts
      omega
  | succ n ih =>
      intro m ts hm hts hn
      obtain ⟨m, rfl⟩ : ∃ k, m = k + 1 := ⟨m - 1, by omega⟩
      obtain ⟨t, us, rfl⟩ := List.exists_cons_of_ne_nil hts
      refine .congr skim_names (fun t' us' _ => skim_names)
        (.mono
          (.seq_lt (expect_name hts) not_mem_oneOf derives_maybe.completes
            fun rest hrest hlt =>
              .optionally hrest fun hk =>
                .seq_lt (advance_kind hrest hk rfl Kind.noConfusion)
                  not_mem_oneOf completes_names fun rest₁ hrest₁ hlt₁ =>
                    ih (Nat.le_of_succ_le_succ hm) hrest₁ (by omega)) ?_)
      rintro _
        ⟨_, _, ⟨id, hid, rfl⟩, rfl | ⟨_, _, ⟨c, hc, rfl⟩, ⟨ids, rfl⟩, rfl⟩, rfl⟩
      · exact ⟨.one ⟨id, hid⟩, rfl⟩
      · exact ⟨.more ⟨id, hid⟩ ⟨c, hc⟩ ids, rfl⟩

/-- The frontiers of declarations in a row. -/
def rows {δ : Type} (tokens : δ → List Token) : Set (List Token) :=
  Set.range fun ds : List δ => ds.flatMap tokens

private theorem derives_rows {δ : Type} {tokens : δ → List Token} :
    Derives (rows tokens) [] := derives_nil ⟨[], rfl⟩

private theorem varDecls_obeys : ∀ {n m : Nat} {ts : List Token},
    n ≤ m → ts ≠ [] → 4 * ts.length + 1 ≤ n →
    Obeys b (rows VarGroup.tokens) (skim (varDecls b n)) (skim (varDecls b' m))
      ts := by
  intro n
  induction n with
  | zero =>
      intro m ts _ hts hn
      omega
  | succ n ih =>
      intro m ts hm hts hn
      obtain ⟨m, rfl⟩ : ∃ k, m = k + 1 := ⟨m - 1, by omega⟩
      have hm := Nat.le_of_succ_le_succ hm
      obtain ⟨t, us, rfl⟩ := List.exists_cons_of_ne_nil hts
      have hsemi : Completes (chain (oneOf (· = .semi)) (rows VarGroup.tokens))
          [] :=
        (completes_fixed rfl rfl).left derives_rows.completes
      have htype :=
        (completes_class (p := Kind.isVariableType) (k := .tyInteger) rfl rfl
          rfl).left hsemi
      have hcolon : Completes (chain (oneOf (· = .colon)) _) [] :=
        (completes_fixed rfl rfl).left htype
      refine .congr skim_varDecls (fun t' us' _ => skim_varDecls)
        (.mono
          (.optionally hts fun hk =>
            .seq_le (names_obeys hm hts (by omega)) hcolon
              fun rest₁ hrest₁ hle₁ =>
                .seq_lt (expect_fixed rfl rfl hrest₁) not_mem_oneOf htype
                  fun rest₂ hrest₂ hlt₂ =>
                    .seq_le
                      (expect_class (k := .tyInteger) rfl rfl rfl rfl rfl rfl
                        hrest₂) hsemi fun rest₃ hrest₃ hle₃ =>
                          .seq_le (expect_fixed rfl rfl hrest₃)
                            derives_rows.completes fun rest₄ hrest₄ hle₄ =>
                              ih hm hrest₄ (by omega)) ?_)
      rintro _ (rfl |
        ⟨_, _, ⟨ids, rfl⟩,
          ⟨_, _, ⟨c, hc, rfl⟩,
            ⟨_, _, ⟨ty, hty, rfl⟩, ⟨_, _, ⟨s, hs, rfl⟩, ⟨ds, rfl⟩, rfl⟩, rfl⟩,
            rfl⟩, rfl⟩)
      · exact ⟨[], rfl⟩
      · exact ⟨⟨ids, ⟨c, hc⟩, ⟨ty, hty⟩, ⟨s, hs⟩⟩ :: ds, by simp⟩

/-- A number to go on with. -/
def anyNumber : Token := ⟨.integerConst, "0", .nowhere⟩

theorem sound_anyNumber : anyNumber.Sound := by
  refine ⟨⟨[48], ?_, rfl⟩, fits_of_integer? (v := 0) rfl (by decide +kernel)⟩
  exact Lexeme.Spelt.integer (b := 48) (w := [])
    (List.forall_mem_singleton.2 rfl)

private theorem completes_number : Completes (oneOf (· = .integerConst)) [] :=
  completes_oneOf sound_anyNumber rfl

private theorem pinNumber_obeys (hts : ts ≠ []) :
    Obeys b (oneOf (· = .integerConst)) (skim (pinNumber b))
      (skim (pinNumber b')) ts := by
  obtain ⟨t, us, rfl⟩ := List.exists_cons_of_ne_nil hts
  by_cases hk : t.kind = .integerConst ∧ Numeral.integer? t.literal = none
  · obtain ⟨hk, hv⟩ := hk
    have hfail : skim (pinNumber b) (t :: us) =
        .error (.outOfRange .pin t) := by
      simp only [skim_eq, pinNumber, if_pos hk, hv]
      rfl
    refine .tooLarge hfail (.inl hk) (fun hfits => ?_) (by rw [hk])
    rw [integer?_eq (hfits.integer hk)] at hv
    cases hv
  · have hsome (ht : t.kind = .integerConst) : (Numeral.integer?
        t.literal).isSome = true :=
      Option.isSome_iff_ne_none.2 fun hv => hk ⟨ht, hv⟩
    have hsame : ∀ t' us', t.unplaced = t'.unplaced →
        skim (pinNumber b') (t' :: us') =
          skim (expect b' .integerConst) (t' :: us') := by
      intro t' us' ht
      rw [Token.kind_eq_of_unplaced ht, Token.literal_eq_of_unplaced ht]
        at hsome
      exact skim_pinNumber hsome
    refine .congr (skim_pinNumber hsome) hsame
      (.expect sound_anyNumber rfl Kind.noConfusion fun ht => ?_)
    obtain ⟨v, hv⟩ := Option.isSome_iff_exists.1 (hsome ht)
    exact fits_of_integer? ht hv

private theorem pinDecls_obeys : ∀ {n m : Nat} {ts : List Token},
    n ≤ m → ts ≠ [] → 4 * ts.length + 1 ≤ n →
    Obeys b (rows Grammar.Pin.tokens) (skim (pinDecls b n))
      (skim (pinDecls b' m)) ts := by
  intro n
  induction n with
  | zero =>
      intro m ts _ hts hn
      omega
  | succ n ih =>
      intro m ts hm hts hn
      obtain ⟨m, rfl⟩ : ∃ k, m = k + 1 := ⟨m - 1, by omega⟩
      obtain ⟨t, us, rfl⟩ := List.exists_cons_of_ne_nil hts
      have hsemi : Completes
          (chain (oneOf (· = .semi)) (rows Grammar.Pin.tokens)) [] :=
        (completes_fixed rfl rfl).left derives_rows.completes
      have hnumber := completes_number.left hsemi
      have hdirection :=
        (completes_class (p := Kind.isDirection) (k := .pinIn) rfl rfl rfl).left
          hnumber
      have hcolon : Completes (chain (oneOf (· = .colon)) _) [] :=
        (completes_fixed rfl rfl).left hdirection
      refine .congr skim_pinDecls (fun t' us' _ => skim_pinDecls)
        (.mono
          (.optionally hts fun hk =>
            .seq_lt (expect_name hts) not_mem_oneOf hcolon
              fun rest₁ hrest₁ hlt₁ =>
                .seq_le (expect_fixed rfl rfl hrest₁) hdirection
                  fun rest₂ hrest₂ hle₂ =>
                    .seq_le
                      (expect_class (k := .pinIn) rfl rfl rfl rfl rfl rfl
                        hrest₂) hnumber fun rest₃ hrest₃ hle₃ =>
                          .seq_le (pinNumber_obeys hrest₃) hsemi
                            fun rest₄ hrest₄ hle₄ =>
                              .seq_le (expect_fixed rfl rfl hrest₄)
                                derives_rows.completes fun rest₅ hrest₅ hle₅ =>
                                  ih (Nat.le_of_succ_le_succ hm) hrest₅
                                    (by omega)) ?_)
      rintro _ (rfl |
        ⟨_, _, ⟨id, hid, rfl⟩,
          ⟨_, _, ⟨c, hc, rfl⟩,
            ⟨_, _, ⟨dir, hdir, rfl⟩,
              ⟨_, _, ⟨num, hnum, rfl⟩, ⟨_, _, ⟨s, hs, rfl⟩, ⟨ds, rfl⟩, rfl⟩,
                rfl⟩, rfl⟩, rfl⟩, rfl⟩)
      · exact ⟨[], rfl⟩
      · exact ⟨⟨⟨id, hid⟩, ⟨c, hc⟩, ⟨dir, hdir⟩, ⟨num, hnum⟩, ⟨s, hs⟩⟩ :: ds,
          rfl⟩

private theorem waypointDecls_obeys : ∀ {n m : Nat} {ts : List Token},
    n ≤ m → ts ≠ [] → 4 * ts.length + 1 ≤ n →
    Obeys b (rows Waypoint.tokens) (skim (waypointDecls b n))
      (skim (waypointDecls b' m)) ts := by
  intro n
  induction n with
  | zero =>
      intro m ts _ hts hn
      omega
  | succ n ih =>
      intro m ts hm hts hn
      obtain ⟨m, rfl⟩ : ∃ k, m = k + 1 := ⟨m - 1, by omega⟩
      have hm := Nat.le_of_succ_le_succ hm
      obtain ⟨t, us, rfl⟩ := List.exists_cons_of_ne_nil hts
      have hsemi : Completes (chain (oneOf (· = .semi)) (rows Waypoint.tokens))
          [] :=
        (completes_fixed rfl rfl).left derives_rows.completes
      have hspeed := completes_factor.left hsemi
      have hcomma : Completes (chain (oneOf (· = .comma)) _) [] :=
        (completes_fixed rfl rfl).left hspeed
      have hdistance := completes_factor.left hcomma
      have hassign : Completes (chain (oneOf (· = .assign)) _) [] :=
        (completes_fixed rfl rfl).left hdistance
      refine .congr skim_waypointDecls (fun t' us' _ => skim_waypointDecls)
        (.mono
          (.optionally hts fun hk =>
            .seq_lt (expect_name hts) not_mem_oneOf hassign
              fun rest₁ hrest₁ hlt₁ =>
                .seq_le (expect_fixed rfl rfl hrest₁) hdistance
                  fun rest₂ hrest₂ hle₂ =>
                    .seq_le (factor_obeys hm hrest₂ (by omega)) hcomma
                      fun rest₃ hrest₃ hle₃ =>
                        .seq_le (expect_fixed rfl rfl hrest₃) hspeed
                          fun rest₄ hrest₄ hle₄ =>
                            .seq_le (factor_obeys hm hrest₄ (by omega)) hsemi
                              fun rest₅ hrest₅ hle₅ =>
                                .seq_le (expect_fixed rfl rfl hrest₅)
                                  derives_rows.completes
                                  fun rest₆ hrest₆ hle₆ =>
                                    ih hm hrest₆ (by omega)) ?_)
      rintro _ (rfl |
        ⟨_, _, ⟨id, hid, rfl⟩,
          ⟨_, _, ⟨op, hop, rfl⟩,
            ⟨_, _, ⟨dist, rfl⟩,
              ⟨_, _, ⟨c, hc, rfl⟩,
                ⟨_, _, ⟨sp, rfl⟩, ⟨_, _, ⟨s, hs, rfl⟩, ⟨ds, rfl⟩, rfl⟩, rfl⟩,
                rfl⟩, rfl⟩, rfl⟩, rfl⟩)
      · exact ⟨[], rfl⟩
      · exact ⟨⟨⟨id, hid⟩, ⟨op, hop⟩, dist, ⟨c, hc⟩, sp, ⟨s, hs⟩⟩ :: ds, by
          simp⟩

/-- The frontiers of a section, given those of a declaration. -/
def sections {δ : Type} (k : Kind) (tokens : δ → List Token) :
    Set (List Token) :=
  Set.range fun d : Grammar.Section k δ => d.tokens tokens

private theorem completes_section {δ : Type} {k : Kind}
    {tokens : δ → List Token} : Completes (sections k tokens) [] :=
  Derives.completes (derives_nil ⟨.absent, rfl⟩)

/-- A section keeps to the grammar if its declarations do. -/
private theorem section_obeys {δ α : Type} {k : Kind} {tokens : δ → List Token}
    {decls decls' : List Token → Except ParseError (List α × List Token)}
    (hplain : isPlain k = true) (heof : k ≠ .eof) (hts : ts ≠ [])
    (h : ∀ rest, rest ≠ [] → rest.length ≤ ts.length →
      Obeys b (rows tokens) (skim decls) (skim decls') rest) :
    Obeys b (sections k tokens) (skim (optionalSection b k decls))
      (skim (optionalSection b' k decls')) ts := by
  obtain ⟨t, us, rfl⟩ := List.exists_cons_of_ne_nil hts
  refine .congr (skim_section k decls) (fun t' us' _ => skim_section k decls')
    (.mono
      (.optionally hts fun hk =>
        .seq_le (advance_kind hts hk hplain heof) derives_rows.completes h) ?_)
  rintro _ (rfl | ⟨_, _, ⟨s, hs, rfl⟩, ⟨ds, rfl⟩, rfl⟩)
  · exact ⟨.absent, rfl⟩
  · exact ⟨.present ⟨s, hs⟩ ds, rfl⟩

/-! ## Programs -/

/-- The frontiers of the statements of a block, keywords included. -/
def bodies : Set (List Token) :=
  chain (oneOf (· = .kwBegin))
    (chain (Set.range Statements.tokens) (oneOf (· = .kwEnd)))

private theorem block_subset :
    chain (sections .kwVar VarGroup.tokens)
        (chain (sections .kwPins Grammar.Pin.tokens)
          (chain (sections .kwWaypoint Waypoint.tokens) bodies)) ⊆
      Set.range Grammar.Block.tokens := by
  rintro _ ⟨_, _, ⟨dv, rfl⟩,
    ⟨_, _, ⟨dp, rfl⟩,
      ⟨_, _, ⟨dw, rfl⟩,
        ⟨_, _, ⟨o, ho, rfl⟩, ⟨_, _, ⟨ss, rfl⟩, ⟨c, hc, rfl⟩, rfl⟩, rfl⟩, rfl⟩,
      rfl⟩, rfl⟩
  exact ⟨⟨dv, dp, dw, ⟨o, ho⟩, ss, ⟨c, hc⟩⟩, by simp⟩

private theorem completes_statements :
    Completes (chain (Set.range Statements.tokens) (oneOf (· = .kwEnd))) [] :=
  derives_statements.completes.left (completes_fixed rfl rfl)

private theorem completes_body : Completes bodies [] :=
  (completes_fixed rfl rfl).left completes_statements

private theorem completes_block :
    Completes (Set.range Grammar.Block.tokens) [] :=
  (completes_section.left
    (completes_section.left (completes_section.left completes_body))).mono
    block_subset

private theorem block_obeys (hm : n ≤ m) (hts : ts ≠ [])
    (hn : 4 * ts.length + 2 ≤ n) :
    Obeys b (Set.range Grammar.Block.tokens) (skim (block b n))
      (skim (block b' m)) ts := by
  obtain ⟨t, us, rfl⟩ := List.exists_cons_of_ne_nil hts
  exact .congr skim_block (fun t' us' _ => skim_block)
    (.mono
      (.seq_le
        (section_obeys rfl Kind.noConfusion hts fun rest h _ =>
          varDecls_obeys hm h (by omega))
        (completes_section.left (completes_section.left completes_body))
        fun rest₁ hrest₁ hle₁ =>
          .seq_le
            (section_obeys rfl Kind.noConfusion hrest₁ fun rest h _ =>
              pinDecls_obeys hm h (by omega))
            (completes_section.left completes_body) fun rest₂ hrest₂ hle₂ =>
              .seq_le
                (section_obeys rfl Kind.noConfusion hrest₂ fun rest h _ =>
                  waypointDecls_obeys hm h (by omega)) completes_body
                fun rest₃ hrest₃ hle₃ =>
                  .seq_le (expect_fixed rfl rfl hrest₃) completes_statements
                    fun rest₄ hrest₄ hle₄ =>
                      .seq_le (statements_obeys hm hrest₄ (by omega))
                        (completes_fixed rfl rfl) fun rest₅ hrest₅ _ =>
                          expect_fixed rfl rfl hrest₅) block_subset)

private theorem completes_point :
    Completes (chain (Set.range Grammar.Block.tokens) (oneOf (· = .dot))) [] :=
  completes_block.left (completes_fixed rfl rfl)

private theorem completes_title :
    Completes
      (chain (oneOf (· = .ident)) (chain (oneOf (· = .semi))
        (chain (Set.range Grammar.Block.tokens) (oneOf (· = .dot))))) [] :=
  (completes_oneOf (p := (· = .ident)) sound_anyName rfl).left
    ((completes_fixed rfl rfl).left completes_point)

private theorem program_subset :
    chain (oneOf (· = .kwProgram)) (chain (oneOf (· = .ident))
        (chain (oneOf (· = .semi))
          (chain (Set.range Grammar.Block.tokens) (oneOf (· = .dot))))) ⊆
      Set.range Grammar.Program.tokens := by
  rintro _ ⟨_, _, ⟨t, ht, rfl⟩,
    ⟨_, _, ⟨id, hid, rfl⟩,
      ⟨_, _, ⟨s, hs, rfl⟩, ⟨_, _, ⟨d, rfl⟩, ⟨dot, hdot, rfl⟩, rfl⟩, rfl⟩, rfl⟩,
    rfl⟩
  exact ⟨⟨⟨t, ht⟩, ⟨id, hid⟩, ⟨s, hs⟩, d, ⟨dot, hdot⟩⟩, rfl⟩

theorem completes_program : Completes (Set.range Grammar.Program.tokens) [] :=
  Completes.mono ((completes_fixed rfl rfl).left completes_title) program_subset

private theorem frame_obeys (hm : n ≤ m) (hts : ts ≠ [])
    (hn : 4 * ts.length + 2 ≤ n) :
    Obeys b (Set.range Grammar.Program.tokens) (frame b n) (frame b' m) ts :=
  .mono
    (.seq_le (expect_fixed rfl rfl hts) completes_title fun rest₁ hrest₁ hle₁ =>
      .seq_le (expect_name hrest₁)
        ((completes_fixed rfl rfl).left completes_point)
        fun rest₂ hrest₂ hle₂ =>
          .seq_le (expect_fixed rfl rfl hrest₂) completes_point
            fun rest₃ hrest₃ hle₃ =>
              .seq_le (block_obeys hm hrest₃ (by omega))
                (completes_fixed rfl rfl) fun rest₄ hrest₄ _ =>
                  expect_fixed rfl rfl hrest₄) program_subset

private theorem derives_end : Derives {[]} [] := derives_nil rfl

/-- Where the source has to end, nothing is consumed, and any token but the end
is refused. -/
private theorem atEnd_obeys (hts : ts ≠ []) :
    Obeys b {[]} (atEnd b) (atEnd b') ts := by
  obtain ⟨t, us, rfl⟩ := List.exists_cons_of_ne_nil hts
  by_cases hk : t.kind = .eof
  · refine .stay derives_end hts (if_pos hk) fun ts' hts' => ?_
    obtain ⟨t', us', rfl, ht, -⟩ := hts'.of_cons
    rw [Token.kind_eq_of_unplaced ht] at hk
    exact if_pos hk
  · refine .refuse (if_neg hk) derives_end.completes fun t' us' ht => ?_
    rw [Token.kind_eq_of_unplaced ht] at hk
    exact ⟨_, if_neg hk⟩

/-- **Programs keep to the grammar.** -/
theorem program_obeys (hm : n ≤ m) (hts : ts ≠ [])
    (hn : 4 * ts.length + 2 ≤ n) :
    Obeys b (Set.range Grammar.Program.tokens) (frame b n >=> atEnd b)
      (frame b' m >=> atEnd b') ts := by
  refine .mono
    (.seq_le (frame_obeys hm hts hn) derives_end.completes fun rest hrest _ =>
      atEnd_obeys hrest) ?_
  rintro _ ⟨us, _, hus, rfl, rfl⟩
  rwa [List.append_nil]

end Fixture.Parse
