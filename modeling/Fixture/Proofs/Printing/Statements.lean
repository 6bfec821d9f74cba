import Mathlib.Data.List.Forall2
import Fixture.Proofs.Printing
/-!
# Reading printed statements

Printing leaves out empty statements and puts semicolons between the others, and
behind the last one of a body. An inner list is printed like its statements in a
row, so a list that holds nothing leaves two semicolons side by side. Read back,
every gap between semicolons is a statement again, if only an empty one. The
statements that are read differ from those that were printed; what stays is
their normal form, and `Says` is about that.

## Main results

* `Stmt.writes`, `writesEach`: a legible statement prints as the tokens it is
  written with.
* `Stmt.derived`, `derivedEach`: these tokens are a flat statement list with the
  normal form of what was printed.
-/

namespace Fixture

open Grammar

attribute [local simp] Stmt.render renderEach Stmt.isSkip Text.joined

mutual

/-- A statement whose tokens are what they look like. -/
@[simp] def Stmt.Legible : Stmt → Prop
  | .skip => True
  | .compound _ body => LegibleEach body
  | .assign t target value =>
    t.unplaced = .fixed .assign ∧ target.kind = .ident ∧ target.Spelt ∧
    value.Legible
  | .ifThen t c _ body =>
    t.unplaced = .fixed .kwIf ∧ c.Legible ∧ LegibleEach body
  | .ifElse t c _ body _ alt =>
    t.unplaced = .fixed .kwIf ∧ c.Legible ∧ LegibleEach body ∧ LegibleEach alt
  | .loop t _ body c =>
    t.unplaced = .fixed .kwLoop ∧ LegibleEach body ∧ c.Legible
  | .wait t d => t.unplaced = .fixed .kwWait ∧ d.Legible
  | .move t axis d s =>
    t.unplaced = .fixed axis.kind ∧ d.Legible ∧ ∀ e ∈ s, e.Legible
  | .home t => t.unplaced = .fixed .kwHome
  | .stop t => t.unplaced = .fixed .kwStop

/-- Statements whose tokens are what they look like. -/
@[simp] def LegibleEach : List Stmt → Prop
  | [] => True
  | s :: ss => s.Legible ∧ LegibleEach ss

end

/-- Rows of tokens with a semicolon between them. -/
@[simp] def separated : List (List Token) → List Token
  | [] => []
  | [ts] => ts
  | ts :: us :: rest => ts ++ .fixed .semi :: separated (us :: rest)

mutual

/-- The tokens that a statement is printed with. -/
@[simp] def Stmt.written : Stmt → List Token
  | .skip => []
  | .compound _ body => separated (writtenEach body)
  | .assign _ target value => target.unplaced :: .fixed .assign :: value.written
  | .ifThen _ c _ body =>
    .fixed .kwIf ::
      (c.written ++ .fixed .colon ::
        (separated (writtenEach body) ++ [.fixed .semi, .fixed .kwEndif]))
  | .ifElse _ c _ body _ alt =>
    .fixed .kwIf ::
      (c.written ++ .fixed .colon ::
        (separated (writtenEach body) ++ .fixed .semi :: .fixed .kwElse ::
          .fixed .colon ::
          (separated (writtenEach alt) ++ [.fixed .semi, .fixed .kwEndif])))
  | .loop _ _ body c =>
    .fixed .kwLoop :: .fixed .colon :: (separated (writtenEach body) ++
      .fixed .semi :: .fixed .kwUntil :: c.written)
  | .wait _ d => .fixed .kwWait :: d.written
  | .move _ axis d none => .fixed axis.kind :: d.written
  | .move _ axis d (some s) =>
    .fixed axis.kind :: (d.written ++ .fixed .comma :: s.written)
  | .home _ => [.fixed .kwHome]
  | .stop _ => [.fixed .kwStop]

/-- The tokens of the statements of a list, one by one, the empty ones left
out. -/
@[simp] def writtenEach : List Stmt → List (List Token)
  | [] => []
  | s :: ss => if s.isSkip then writtenEach ss else s.written :: writtenEach ss

end

/-! ## Text -/

theorem opens_semi_space : Opens "; " [.fixed .semi] :=
  opens_semi.append opens_space

theorem closes_semi_space : Closes "; " := closes_semi.append " "

private theorem opens_colon_space : Opens ": " [.fixed .colon] :=
  opens_spaced (k := .colon) rfl

private theorem closes_colon_space : Closes ": " := closes_colon.append " "

theorem opens_assign : Opens " := " [.fixed .assign] :=
  opens_space.append (opens_spaced (k := .assign) rfl)

theorem closes_assign : Closes " := " := closes_space.append ":= "

theorem opens_comma_space : Opens ", " [.fixed .comma] :=
  opens_comma.append opens_space

theorem closes_comma_space : Closes ", " := closes_comma.append " "

private theorem writes_endif :
    Writes "; ENDIF" [.fixed .semi, .fixed .kwEndif] :=
  opens_semi_space.writes (Writes.fixed (k := .kwEndif) rfl)

private theorem closes_endif : Closes "; ENDIF" :=
  closes_semi_space.append "ENDIF"

private theorem opens_axis (axis : Axis) :
    Opens (axis.keyword ++ " ") [.fixed axis.kind] := by
  cases axis with
  | linear => exact opens_spaced (k := .kwMoveto) rfl
  | rotary => exact opens_spaced (k := .kwRotate) rfl

private theorem writes_joined {texts : List String} {rows : List (List Token)}
    (h : List.Forall₂ Writes texts rows) :
    Writes (Text.joined "; " texts) (separated rows) := by
  induction h with
  | nil => exact Opens.empty.toWrites
  | cons hs hrest ih =>
      cases hrest with
      | nil => exact hs
      | cons ht hmore =>
          have hprint := (hs.opens opens_semi_space closes_semi_space).writes ih
          simpa using hprint

mutual

/-- **A legible statement prints as its tokens.** -/
theorem Stmt.writes : ∀ {s : Stmt}, s.Legible → Writes s.render s.written
  | .skip, _ => Opens.empty.toWrites
  | .compound _ body, h => by
      simp only [Stmt.Legible] at h
      exact writes_joined (writesEach h)
  | .assign _ target value, h => by
      simp only [Stmt.Legible] at h
      have hprint :=
        ((Writes.token h.2.2.1).opens opens_assign closes_assign).writes
          (Expr.writes h.2.2.2)
      simpa using hprint
  | .ifThen _ c _ body, h => by
      simp only [Stmt.Legible] at h
      have hopen : Opens "IF " [.fixed .kwIf] := opens_spaced (k := .kwIf) rfl
      have hcond := (hopen.writes (Expr.writes h.2.1)).opens opens_colon_space
        closes_colon_space
      have hbody := hcond.writes (writes_joined (writesEach h.2.2))
      have hprint := hbody.append writes_endif closes_endif
      simpa using hprint
  | .ifElse _ c _ body _ alt, h => by
      simp only [Stmt.Legible] at h
      have hopen : Opens "IF " [.fixed .kwIf] := opens_spaced (k := .kwIf) rfl
      have hcond := (hopen.writes (Expr.writes h.2.1)).opens opens_colon_space
        closes_colon_space
      have hbody := hcond.writes (writes_joined (writesEach h.2.2.1))
      have helse : Opens "; ELSE: "
          [.fixed .semi, .fixed .kwElse, .fixed .colon] :=
        opens_semi_space.append ((Writes.fixed (k := .kwElse) rfl).opens
          opens_colon_space closes_colon_space)
      have halt :=
        (hbody.opens helse (closes_semi_space.append "ELSE: ")).writes
          (writes_joined (writesEach h.2.2.2))
      have hprint := halt.append writes_endif closes_endif
      simpa using hprint
  | .loop _ _ body c, h => by
      simp only [Stmt.Legible] at h
      have hopen : Opens "LOOP: " [.fixed .kwLoop, .fixed .colon] :=
        (Writes.fixed (k := .kwLoop) rfl).opens opens_colon_space
          closes_colon_space
      have hbody := hopen.writes (writes_joined (writesEach h.2.1))
      have huntil : Opens "; UNTIL " [.fixed .semi, .fixed .kwUntil] :=
        opens_semi_space.append (opens_spaced (k := .kwUntil) rfl)
      have hprint :=
        (hbody.opens huntil (closes_semi_space.append "UNTIL ")).writes
          (Expr.writes h.2.2)
      simpa using hprint
  | .wait _ d, h => by
      simp only [Stmt.Legible] at h
      have hopen : Opens "WAIT " [.fixed .kwWait] :=
        opens_spaced (k := .kwWait) rfl
      exact hopen.writes (Expr.writes h.2)
  | .move _ axis d none, h => by
      simp only [Stmt.Legible] at h
      exact (opens_axis axis).writes (Expr.writes h.2.1)
  | .move _ axis d (some e), h => by
      simp only [Stmt.Legible] at h
      have hd :=
        ((opens_axis axis).writes (Expr.writes h.2.1)).opens opens_comma_space
          closes_comma_space
      have hprint := hd.writes (Expr.writes (h.2.2 e rfl))
      simpa using hprint
  | .home _, _ => Writes.fixed (k := .kwHome) rfl
  | .stop _, _ => Writes.fixed (k := .kwStop) rfl

theorem writesEach : ∀ {ss : List Stmt},
    LegibleEach ss → List.Forall₂ Writes (renderEach ss) (writtenEach ss)
  | [], _ => .nil
  | s :: ss, h => by
      simp only [renderEach, writtenEach]
      by_cases hs : s.isSkip = true
      · rw [if_pos hs, if_pos hs]
        exact writesEach h.2
      · rw [if_neg hs, if_neg hs]
        exact .cons (Stmt.writes h.1) (writesEach h.2)

end

/-! ## Numerals -/

private theorem forall_mem_separated {P : Token → Prop}
    (hsemi : P (.fixed .semi)) :
    ∀ {rows : List (List Token)}, (∀ row ∈ rows, ∀ t ∈ row, P t) →
      ∀ t ∈ separated rows, P t
  | [], _, t, ht => by cases ht
  | [row], h, t, ht => h row (List.mem_singleton.2 rfl) t ht
  | row :: row' :: rows, h, t, ht => by
      rw [separated, List.mem_append, List.mem_cons] at ht
      rcases ht with ht | rfl | ht
      · exact h row (List.mem_cons_self ..) t ht
      · exact hsemi
      · exact forall_mem_separated hsemi
          (fun r hr => h r (List.mem_cons_of_mem _ hr)) t ht

mutual

private theorem Stmt.fits : ∀ {s : Stmt}, s.Legible → ∀ t ∈ s.written, t.Fits
  | .skip, _ => by simp
  | .compound _ body, h => by
      simp only [Stmt.Legible] at h
      exact forall_mem_separated (Token.fits_fixed rfl) (fitsEach h)
  | .assign _ target value, h => by
      simp only [Stmt.Legible] at h
      have htarget : target.unplaced.Fits := Parse.fits_of_kind h.2.1 rfl
      simpa [or_imp, forall_and]
        using ⟨htarget, Token.fits_fixed rfl, Expr.fits h.2.2.2⟩
  | .ifThen _ c _ body, h => by
      simp only [Stmt.Legible] at h
      have hbody := forall_mem_separated (Token.fits_fixed rfl) (fitsEach h.2.2)
      simpa [or_imp, forall_and] using ⟨Token.fits_fixed rfl, Expr.fits h.2.1,
          Token.fits_fixed rfl, hbody, Token.fits_fixed rfl,
          Token.fits_fixed rfl⟩
  | .ifElse _ c _ body _ alt, h => by
      simp only [Stmt.Legible] at h
      have hbody :=
        forall_mem_separated (Token.fits_fixed rfl) (fitsEach h.2.2.1)
      have halt :=
        forall_mem_separated (Token.fits_fixed rfl) (fitsEach h.2.2.2)
      simpa [or_imp, forall_and] using ⟨Token.fits_fixed rfl, Expr.fits h.2.1,
          Token.fits_fixed rfl, hbody, Token.fits_fixed rfl,
          Token.fits_fixed rfl, Token.fits_fixed rfl, halt,
          Token.fits_fixed rfl, Token.fits_fixed rfl⟩
  | .loop _ _ body c, h => by
      simp only [Stmt.Legible] at h
      have hbody := forall_mem_separated (Token.fits_fixed rfl) (fitsEach h.2.1)
      simpa [or_imp, forall_and] using ⟨Token.fits_fixed rfl,
          Token.fits_fixed rfl, hbody, Token.fits_fixed rfl,
          Token.fits_fixed rfl, Expr.fits h.2.2⟩
  | .wait _ d, h => by
      simp only [Stmt.Legible] at h
      simpa [or_imp, forall_and] using ⟨Token.fits_fixed rfl, Expr.fits h.2⟩
  | .move _ axis d none, h => by
      simp only [Stmt.Legible] at h
      have haxis : (Token.fixed axis.kind).Fits :=
        Token.fits_fixed (by cases axis <;> rfl)
      simpa [or_imp, forall_and] using ⟨haxis, Expr.fits h.2.1⟩
  | .move _ axis d (some e), h => by
      simp only [Stmt.Legible] at h
      have haxis : (Token.fixed axis.kind).Fits :=
        Token.fits_fixed (by cases axis <;> rfl)
      simpa [or_imp, forall_and] using ⟨haxis, Expr.fits h.2.1,
          Token.fits_fixed rfl, Expr.fits (h.2.2 e rfl)⟩
  | .home _, _ => by simpa using Token.fits_fixed rfl
  | .stop _, _ => by simpa using Token.fits_fixed rfl

theorem fitsEach : ∀ {ss : List Stmt},
    LegibleEach ss → ∀ row ∈ writtenEach ss, ∀ t ∈ row, t.Fits
  | [], _ => by simp
  | s :: ss, h => by
      intro row hrow
      rw [writtenEach] at hrow
      by_cases hs : s.isSkip = true
      · rw [if_pos hs] at hrow
        exact fitsEach h.2 row hrow
      · rw [if_neg hs, List.mem_cons] at hrow
        rcases hrow with rfl | hrow
        · exact Stmt.fits h.1
        · exact fitsEach h.2 row hrow

end

/-! ## Derivations -/

namespace Grammar.Statements

/-- Two statement lists with a semicolon between them. -/
def append (semi : TokenOf .semi) : Statements → Statements → Statements
  | .one s, ds => .more s semi ds
  | .more s semi' ss, ds => .more s semi' (append semi ss ds)

private theorem append_tokens (semi : TokenOf .semi) : ∀ ss ds : Statements,
    (append semi ss ds).tokens = ss.tokens ++ semi.val :: ds.tokens
  | .one s, ds => rfl
  | .more s semi' ss, ds => by
      simp only [append, Statements.tokens, append_tokens semi ss ds,
        List.append_assoc, List.cons_append]

private theorem append_tree (semi : TokenOf .semi) : ∀ ss ds : Statements,
    (append semi ss ds).tree = ss.tree ++ ds.tree
  | .one s, ds => rfl
  | .more s semi' ss, ds => by
      simp only [append, Statements.tree, append_tree semi ss ds,
        List.cons_append]

end Grammar.Statements

/-- The tokens are a flat statement list with the normal form of the given
statements, places aside. -/
def Says (us : List Token) (ss : List Stmt) : Prop :=
  ∃ d : Statements, d.tokens = us ∧ isFlatEach d.tree = true ∧
    unplacedEach (normalEach d.tree) = unplacedEach (normalEach ss)

namespace Says

variable {us vs : List Token} {ss ss' : List Stmt} {semi : Token}

theorem empty : Says [] [] := ⟨.one .empty, rfl, rfl, rfl⟩

theorem congr (h : Says us ss) (hss : normalEach ss = normalEach ss') :
    Says us ss' := by
  rw [Says, hss] at h
  exact h

private theorem statement {s : Stmt} (d : Statement)
    (hflat : d.tree.isFlat = true)
    (hnormal : unplacedEach d.tree.normal = unplacedEach s.normal) :
    Says d.tokens [s] := by
  refine ⟨.one d, rfl, ?_, ?_⟩
  · simp only [Statements.tree, isFlatEach, hflat, Bool.and_true]
  · simp only [Statements.tree, normalEach, List.append_nil, hnormal]

theorem append (hs : Says us ss) (hk : semi.unplaced = .fixed .semi)
    (hs' : Says vs ss') : Says (us ++ semi :: vs) (ss ++ ss') := by
  obtain ⟨d, rfl, hflat, hnormal⟩ := hs
  obtain ⟨d', rfl, hflat', hnormal'⟩ := hs'
  refine ⟨d.append ⟨semi, Token.kind_of_unplaced hk⟩ d',
    Statements.append_tokens .., ?_, ?_⟩
  · rw [Statements.append_tree, isFlatEach_append, hflat, hflat']
    rfl
  · rw [Statements.append_tree, normalEach_append, normalEach_append,
      unplacedEach_append, unplacedEach_append, hnormal, hnormal']

/-- A semicolon at the end adds an empty statement, which says nothing. -/
private theorem trail (hs : Says us ss) (hk : semi.unplaced = .fixed .semi) :
    Says (us ++ [semi]) ss := by
  have happ := hs.append hk empty
  rwa [List.append_nil] at happ

end Says

theorem Stmt.eq_skip {s : Stmt} (h : s.isSkip = true) : s = .skip := by
  cases s with
  | skip => rfl
  | _ => cases h

private theorem normalEach_eq_nil : ∀ {ss : List Stmt},
    writtenEach ss = [] → normalEach ss = []
  | [], _ => rfl
  | s :: ss, h => by
      by_cases hs : s.isSkip = true
      · obtain rfl := Stmt.eq_skip hs
        have hnil : normalEach ss = [] := normalEach_eq_nil h
        exact hnil
      · rw [writtenEach, if_neg hs] at h
        cases h

mutual

/-- **The tokens of a printed statement say what it says.** -/
theorem Stmt.derived : ∀ {s : Stmt},
    s.Legible →
    ∀ us : List Token, us.map Token.unplaced = s.written → Says us [s]
  | .skip, _, us, hus => by
      obtain rfl := List.map_eq_nil_iff.1 hus
      exact Says.empty
  | .compound t body, h, us, hus => by
      simp only [Stmt.Legible] at h
      refine (derivedEach h us hus).congr ?_
      simp only [normalEach, Stmt.normal, List.append_nil]
  | .assign t target value, h, us, hus => by
      simp only [Stmt.Legible] at h
      simp only [Stmt.written, List.map_eq_cons_iff] at hus
      obtain ⟨x, _, rfl, hx, op, es, rfl, hop, hes⟩ := hus
      obtain ⟨d, rfl, hd⟩ := Expr.derived h.2.2.2 es hes
      have hxk : x.kind = .ident := (Token.kind_eq_of_unplaced hx).trans h.2.1
      have hsays := Says.statement (s := .assign t target value)
        (.assign ⟨x, hxk⟩ ⟨op, Token.kind_of_unplaced hop⟩ d.toExpression) rfl
        (by simp [hx, hop, hd, h.1])
      simpa using hsays
  | .ifThen t c bodyTok body, h, us, hus => by
      simp only [Stmt.Legible] at h
      simp only [Stmt.written, List.map_eq_cons_iff, List.map_eq_append_iff,
        List.map_eq_nil_iff] at hus
      obtain ⟨i, _, rfl, hi, cs, _, rfl, hcs, col, _, rfl, hcol, bs, _, rfl,
        hbs, se, _, rfl, hse, e, _, rfl, he, rfl⟩ := hus
      obtain ⟨dc, rfl, hdc⟩ := Expr.derived h.2.1 cs hcs
      obtain ⟨db, hdb, hflat, hnormal⟩ := (derivedEach h.2.2 bs hbs).trail hse
      have hsays := Says.statement (s := .ifThen t c bodyTok body)
        (.ifThen ⟨i, Token.kind_of_unplaced hi⟩ dc.toExpression
          ⟨col, Token.kind_of_unplaced hcol⟩ db ⟨e, Token.kind_of_unplaced he⟩)
        hflat (by simp [hi, hdc, hnormal, h.1])
      simpa [hdb] using hsays
  | .ifElse t c bodyTok body altTok alt, h, us, hus => by
      simp only [Stmt.Legible] at h
      simp only [Stmt.written, List.map_eq_cons_iff, List.map_eq_append_iff,
        List.map_eq_nil_iff] at hus
      obtain ⟨i, _, rfl, hi, cs, _, rfl, hcs, col, _, rfl, hcol, bs, _, rfl,
        hbs, se, _, rfl, hse, el, _, rfl, hel, col', _, rfl, hcol', as, _, rfl,
        has, se', _, rfl, hse', e, _, rfl, he, rfl⟩ := hus
      obtain ⟨dc, rfl, hdc⟩ := Expr.derived h.2.1 cs hcs
      obtain ⟨db, hdb, hflat, hnormal⟩ := (derivedEach h.2.2.1 bs hbs).trail hse
      obtain ⟨da, hda, hflat', hnormal'⟩ :=
        (derivedEach h.2.2.2 as has).trail hse'
      have hsays := Says.statement (s := .ifElse t c bodyTok body altTok alt)
        (.ifElse ⟨i, Token.kind_of_unplaced hi⟩ dc.toExpression
          ⟨col, Token.kind_of_unplaced hcol⟩ db ⟨el, Token.kind_of_unplaced hel⟩
          ⟨col', Token.kind_of_unplaced hcol'⟩ da
          ⟨e, Token.kind_of_unplaced he⟩) (by simp [hflat, hflat'])
        (by simp [hi, hdc, hnormal, hnormal', h.1])
      simpa [hdb, hda] using hsays
  | .loop t bodyTok body c, h, us, hus => by
      simp only [Stmt.Legible] at h
      simp only [Stmt.written, List.map_eq_cons_iff, List.map_eq_append_iff]
        at hus
      obtain ⟨l, _, rfl, hl, col, _, rfl, hcol, bs, _, rfl, hbs, se, _, rfl,
        hse, u, cs, rfl, hu, hcs⟩ := hus
      obtain ⟨db, hdb, hflat, hnormal⟩ := (derivedEach h.2.1 bs hbs).trail hse
      obtain ⟨dc, rfl, hdc⟩ := Expr.derived h.2.2 cs hcs
      have hsays := Says.statement (s := .loop t bodyTok body c)
        (.loop ⟨l, Token.kind_of_unplaced hl⟩ ⟨col, Token.kind_of_unplaced hcol⟩
          db ⟨u, Token.kind_of_unplaced hu⟩ dc.toExpression) hflat
        (by simp [hl, hdc, hnormal, h.1])
      simpa [hdb] using hsays
  | .wait t d, h, us, hus => by
      simp only [Stmt.Legible] at h
      simp only [Stmt.written, List.map_eq_cons_iff] at hus
      obtain ⟨w, es, rfl, hw, hes⟩ := hus
      obtain ⟨dd, rfl, hdd⟩ := Expr.derived h.2 es hes
      have hsays := Says.statement (s := .wait t d)
        (.wait ⟨w, Token.kind_of_unplaced hw⟩ dd.toExpression) rfl
        (by simp [hw, hdd, h.1])
      simpa using hsays
  | .move t axis d none, h, us, hus => by
      simp only [Stmt.Legible] at h
      simp only [Stmt.written, List.map_eq_cons_iff] at hus
      obtain ⟨m, es, rfl, hm, hes⟩ := hus
      obtain ⟨dd, rfl, hdd⟩ := Expr.derived h.2.1 es hes
      exact Says.statement (s := .move t axis d none)
        (.move axis ⟨m, Token.kind_of_unplaced hm⟩ (.distance dd)) rfl
        (by simp [hm, hdd, h.1])
  | .move t axis d (some e), h, us, hus => by
      simp only [Stmt.Legible] at h
      simp only [Stmt.written, List.map_eq_cons_iff, List.map_eq_append_iff]
        at hus
      obtain ⟨m, _, rfl, hm, ds, _, rfl, hds, co, es, rfl, hco, hes⟩ := hus
      obtain ⟨dd, rfl, hdd⟩ := Expr.derived h.2.1 ds hds
      obtain ⟨de, rfl, hde⟩ := Expr.derived (h.2.2 e rfl) es hes
      exact Says.statement (s := .move t axis d (some e))
        (.move axis ⟨m, Token.kind_of_unplaced hm⟩
          (.both dd ⟨co, Token.kind_of_unplaced hco⟩ de)) rfl
        (by simp [hm, hdd, hde, h.1])
  | .home t, h, us, hus => by
      simp only [Stmt.Legible] at h
      obtain ⟨u, rfl, hu⟩ := List.map_eq_singleton_iff.1 hus
      exact Says.statement (s := .home t) (.home ⟨u, Token.kind_of_unplaced hu⟩)
        rfl (by simp [hu, h])
  | .stop t, h, us, hus => by
      simp only [Stmt.Legible] at h
      obtain ⟨u, rfl, hu⟩ := List.map_eq_singleton_iff.1 hus
      exact Says.statement (s := .stop t) (.stop ⟨u, Token.kind_of_unplaced hu⟩)
        rfl (by simp [hu, h])

/-- **The tokens of a printed statement list say what it says.** -/
theorem derivedEach : ∀ {ss : List Stmt}, LegibleEach ss → ∀ us : List Token,
    us.map Token.unplaced = separated (writtenEach ss) → Says us ss
  | [], _, us, hus => by
      obtain rfl := List.map_eq_nil_iff.1 hus
      exact Says.empty
  | s :: ss, h, us, hus => by
      by_cases hs : s.isSkip = true
      · obtain rfl := Stmt.eq_skip hs
        have hsays : Says us ss := derivedEach h.2 us hus
        exact hsays.congr rfl
      · rw [writtenEach, if_neg hs] at hus
        cases hrows : writtenEach ss with
        | nil =>
            rw [hrows] at hus
            refine (Stmt.derived h.1 us hus).congr ?_
            simp only [normalEach, normalEach_eq_nil hrows]
        | cons row rows =>
            rw [hrows, separated, ← hrows, List.map_eq_append_iff] at hus
            obtain ⟨vs, ws, rfl, hvs, hws⟩ := hus
            obtain ⟨se, ws, rfl, hse, hws⟩ := List.map_eq_cons_iff.1 hws
            exact (Stmt.derived h.1 vs hvs).append hse (derivedEach h.2 ws hws)

end

end Fixture
