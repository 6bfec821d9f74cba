import Fixture.Proofs.Grammar.Sound
import Fixture.Proofs.NormalForm
import Fixture.Proofs.Reading
/-!
# Reading printed programs

A printed tree is read back in two steps. The scanner reads its text as the
tokens that printing wrote: `written` lists them, without places. The reader of
programs then finds a derivation for those tokens, wherever they stand, and the
tree of the derivation agrees with the printed one up to places, empty
statements and inner lists.

Both steps need a tree whose tokens are what they look like: an operator in an
operation, a name in a declaration, a numeral with the value beside it.
`Legible` says so, and every tree that was read from a source is legible.

## Main results

* `Expr.writes`: a legible expression prints as the tokens it is written with.
* `Expr.derived`: these tokens have a derivation with the right tree.
-/

namespace Fixture

open Grammar

/-! ## Texts of the printer -/

theorem opens_space : Opens " " [] := Opens.blank (b := 32) rfl (by decide)

theorem closes_space : Closes " " :=
  closes_textOf (b := 32) (w := []) rfl (by decide +kernel)

theorem opens_newline : Opens "\n" [] := Opens.blank (b := 10) rfl (by decide)

theorem closes_newline : Closes "\n" :=
  closes_textOf (b := 10) (w := []) rfl (by decide +kernel)

private theorem opens_lparen : Opens "(" [.fixed .lparen] :=
  Opens.lone (b := 40) (by decide) (by decide)

private theorem opens_rparen : Opens ")" [.fixed .rparen] :=
  Opens.lone (b := 41) (by decide) (by decide)

private theorem closes_rparen : Closes ")" :=
  closes_textOf (b := 41) (w := []) rfl (by decide +kernel)

theorem opens_semi : Opens ";" [.fixed .semi] :=
  Opens.lone (b := 59) (by decide) (by decide)

theorem closes_semi : Closes ";" :=
  closes_textOf (b := 59) (w := []) rfl (by decide +kernel)

theorem opens_comma : Opens "," [.fixed .comma] :=
  Opens.lone (b := 44) (by decide) (by decide)

theorem closes_comma : Closes "," :=
  closes_textOf (b := 44) (w := []) rfl (by decide +kernel)

theorem closes_colon : Closes ":" :=
  closes_textOf (b := 58) (w := []) rfl (by decide +kernel)

/-- A word or operator with a space behind it. -/
theorem opens_spaced {k : Kind} (hk : k.isFixed = true) :
    Opens (k.spelling ++ " ") [.fixed k] :=
  (Writes.fixed hk).opens opens_space closes_space

/-- Signs need no space. -/
private theorem opens_sign {op : Token} (hop : op.kind.isAdditive = true)
    (h : op.Spelt) : Opens op.literal [op.unplaced] := by
  have hsign : op.kind = .plus ∨ op.kind = .minus := by
    cases hk : op.kind <;> rw [hk] at hop <;> simp_all [Kind.isAdditive]
  rcases hsign with hk | hk
  · rw [h.literal_eq (by rw [hk]; rfl), h.unplaced_eq hk rfl, hk]
    exact Opens.lone (b := 43) (by decide) (by decide)
  · rw [h.literal_eq (by rw [hk]; rfl), h.unplaced_eq hk rfl, hk]
    exact Opens.lone (b := 45) (by decide) (by decide)

/-! ## Expressions -/

/-- The operators of operations with two operands. -/
def Kind.isInfix (k : Kind) : Bool :=
  k.isMultiplicative || (k.isAdditive || k.isRelational)

namespace Expr

attribute [local simp] Expr.render

/-- An expression whose tokens are what they look like, and whose literals have
the values they spell. -/
@[simp] def Legible : Expr → Prop
  | .name t => t.kind = .ident ∧ t.Spelt
  | .integer t n => t.kind = .integerConst ∧ t.Spelt ∧ t.Fits ∧
      n = Int64.ofNat (Numeral.digits 0 t.literal.toList)
  | .real t x =>
    t.kind = .realConst ∧ t.Spelt ∧ t.Fits ∧
    x = (Numeral.real? t.literal).getD 0
  | .boolean t b => t.kind = .boolConst ∧ t.Spelt ∧ b = (t.literal == "TRUE")
  | .signed op e => op.kind.isAdditive = true ∧ op.Spelt ∧ e.Legible
  | .binary op l r => op.kind.isInfix = true ∧ op.Spelt ∧ l.Legible ∧ r.Legible

/-- The tokens that an expression is printed with. -/
@[simp] def written : Expr → List Token
  | .name t | .integer t _ | .real t _ | .boolean t _ => [t.unplaced]
  | .signed op e =>
    .fixed .lparen :: op.unplaced :: (e.written ++ [.fixed .rparen])
  | .binary op l r =>
    .fixed .lparen ::
      (l.written ++ op.unplaced :: (r.written ++ [.fixed .rparen]))

/-- **A legible expression prints as its tokens.** -/
theorem writes : ∀ {e : Expr}, e.Legible → Writes e.render e.written
  | .name t, h => Writes.token h.2
  | .integer t _, h => Writes.token h.2.1
  | .real t _, h => Writes.token h.2.1
  | .boolean t _, h => Writes.token h.2.1
  | .signed op e, h => by
      have hopen := opens_lparen.append (opens_sign h.1 h.2.1)
      have hprint :=
        (hopen.writes (writes h.2.2)).opens opens_rparen closes_rparen
      simpa [render] using hprint.toWrites
  | .binary op l r, h => by
      have hleft :=
        (opens_lparen.writes (writes h.2.2.1)).opens opens_space closes_space
      have hop :=
        (hleft.writes (Writes.token h.2.1)).opens opens_space closes_space
      have hprint :=
        (hop.writes (writes h.2.2.2)).opens opens_rparen closes_rparen
      simpa [render] using hprint.toWrites

end Expr

namespace Token

/-- Whether a numeral fits is no matter of its place. -/
theorem fits_of_unplaced {t s : Token} (h : t.unplaced = s) (hs : s.Fits) :
    t.Fits := by
  subst h
  exact ⟨hs.integer, hs.real⟩

theorem Fits.unplaced {t : Token} (h : t.Fits) : t.unplaced.Fits :=
  ⟨h.integer, h.real⟩

theorem fits_fixed {k : Kind} (hk : Parse.isPlain k = true) : (fixed k).Fits :=
  Parse.fits_of_kind rfl hk

end Token

theorem Expr.fits : ∀ {e : Expr}, e.Legible → ∀ t ∈ e.written, t.Fits
  | .name t, h => by simpa using Parse.fits_of_kind (t := t.unplaced) h.1 rfl
  | .integer t _, h => by simpa using h.2.2.1.unplaced
  | .real t _, h => by simpa using h.2.2.1.unplaced
  | .boolean t _, h => by
      simpa using Parse.fits_of_kind (t := t.unplaced) h.1 rfl
  | .signed op e, h => by
      have hop : op.unplaced.Fits := Parse.fits_of_class h.1 rfl rfl
      simpa [or_imp, forall_and] using
        ⟨Token.fits_fixed rfl, hop, fits h.2.2, Token.fits_fixed rfl⟩
  | .binary op l r, h => by
      have hop : op.unplaced.Fits := Parse.fits_of_class h.1 rfl rfl
      simpa [or_imp, forall_and] using ⟨Token.fits_fixed rfl, fits h.2.2.1, hop,
          fits h.2.2.2, Token.fits_fixed rfl⟩

/-! ### Derivations -/

namespace Grammar

/-- A factor by itself, as a sum. -/
def Factor.toSum (f : Factor) : Sum := .mk (.mk f .nil) .nil

/-- A factor by itself, as an expression. -/
def Factor.toExpression (f : Factor) : Expression := .sum f.toSum

@[simp] theorem Factor.toSum_tokens (f : Factor) :
    f.toSum.tokens = f.tokens := by simp [toSum]

@[simp] theorem Factor.toSum_tree (f : Factor) : f.toSum.tree = f.tree := by
  simp [toSum]

@[simp] theorem Factor.toExpression_tokens (f : Factor) :
    f.toExpression.tokens = f.tokens := by
  simp [toExpression]

@[simp] theorem Factor.toExpression_tree (f : Factor) :
    f.toExpression.tree = f.tree := by
  simp [toExpression]

/-- Two factors with an operator between them are an expression, whatever the
operator binds like. -/
private theorem Expression.exists_infix (f g : Factor) {op : Token}
    (hop : op.kind.isInfix = true) :
    ∃ d : Expression, d.tokens = f.tokens ++ op :: g.tokens ∧
      d.tree = .binary op f.tree g.tree := by
  rw [Kind.isInfix, Bool.or_eq_true, Bool.or_eq_true] at hop
  rcases hop with hop | hop | hop
  · exact ⟨.sum (.mk (.mk f (.cons ⟨op, hop⟩ g .nil)) .nil), by simp, by simp⟩
  · exact ⟨.sum (.mk (.mk f .nil) (.cons ⟨op, hop⟩ (.mk g .nil) .nil)), by simp,
      by simp⟩
  · exact ⟨.comparison f.toSum ⟨op, hop⟩ g.toSum, by simp, by simp⟩

end Grammar

/-- **The tokens of a printed expression are a factor,** wherever they stand,
and its tree is the expression up to places. -/
theorem Expr.derived : ∀ {e : Expr},
    e.Legible →
    ∀ us : List Token, us.map Token.unplaced = e.written →
      ∃ d : Factor, d.tokens = us ∧ d.tree.unplaced = e.unplaced := by
  intro e
  induction e with
  | name t =>
      intro h us hus
      obtain ⟨u, rfl, hu⟩ := List.map_eq_singleton_iff.1 hus
      have hk : u.kind = .ident := (Token.kind_eq_of_unplaced hu).trans h.1
      exact ⟨.name ⟨u, hk⟩, rfl, by simp [hu]⟩
  | integer t n =>
      intro h us hus
      obtain ⟨u, rfl, hu⟩ := List.map_eq_singleton_iff.1 hus
      have hk : u.kind = .integerConst :=
        (Token.kind_eq_of_unplaced hu).trans h.1
      have hlit : u.literal = t.literal := Token.literal_eq_of_unplaced hu
      exact ⟨.integer ⟨u, hk⟩, rfl, by simp [hu, hlit, h.2.2.2]⟩
  | real t x =>
      intro h us hus
      obtain ⟨u, rfl, hu⟩ := List.map_eq_singleton_iff.1 hus
      have hk : u.kind = .realConst := (Token.kind_eq_of_unplaced hu).trans h.1
      have hlit : u.literal = t.literal := Token.literal_eq_of_unplaced hu
      exact ⟨.real ⟨u, hk⟩, rfl, by simp [hu, hlit, h.2.2.2]⟩
  | boolean t b =>
      intro h us hus
      obtain ⟨u, rfl, hu⟩ := List.map_eq_singleton_iff.1 hus
      have hk : u.kind = .boolConst := (Token.kind_eq_of_unplaced hu).trans h.1
      have hlit : u.literal = t.literal := Token.literal_eq_of_unplaced hu
      exact ⟨.boolean ⟨u, hk⟩, rfl, by simp [hu, hlit, h.2.2]⟩
  | signed op e ih =>
      intro h us hus
      simp only [written, List.map_eq_cons_iff, List.map_eq_append_iff,
        List.map_eq_nil_iff] at hus
      obtain ⟨l, _, rfl, hl, o, _, rfl, ho, es, _, rfl, hes, r, _, rfl, hr,
        rfl⟩ := hus
      obtain ⟨d, rfl, hd⟩ := ih h.2.2 es hes
      have hop : o.kind.isAdditive = true := by
        rw [Token.kind_eq_of_unplaced ho]
        exact h.1
      refine ⟨.paren ⟨l, Token.kind_of_unplaced hl⟩
        (Factor.signed ⟨o, hop⟩ d).toExpression ⟨r, Token.kind_of_unplaced hr⟩,
        by simp, ?_⟩
      simp [ho, hd]
  | binary op l r ihl ihr =>
      intro h us hus
      simp only [written, List.map_eq_cons_iff, List.map_eq_append_iff,
        List.map_eq_nil_iff] at hus
      obtain ⟨p, _, rfl, hp, ls, _, rfl, hls, o, _, rfl, ho, rs, _, rfl, hrs, q,
        _, rfl, hq, rfl⟩ := hus
      obtain ⟨dl, rfl, hdl⟩ := ihl h.2.2.1 ls hls
      obtain ⟨dr, rfl, hdr⟩ := ihr h.2.2.2 rs hrs
      have hop : o.kind.isInfix = true := by
        rw [Token.kind_eq_of_unplaced ho]
        exact h.1
      obtain ⟨d, htokens, htree⟩ := Expression.exists_infix dl dr hop
      refine ⟨.paren ⟨p, Token.kind_of_unplaced hp⟩ d
        ⟨q, Token.kind_of_unplaced hq⟩, ?_, ?_⟩
      · simp [htokens]
      · simp [htree, ho, hdl, hdr]

end Fixture
