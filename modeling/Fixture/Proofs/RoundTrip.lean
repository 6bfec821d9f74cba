import Fixture.Proofs.Grammar.Accepts
import Fixture.Proofs.Printing.Programs
/-!
# Printing and reading back

A program that was read from a source can be printed and read again. What comes
back is flat, and agrees with the first program up to places, once both are in
normal form. The second print is stable: from there on printing and reading
change nothing that shows.

The bridge is legibility. The tokens of a source are spelt, so the tree of a
derivation over them is legible, and legible programs are read back.

## Main results

* `Grammar.Program.legible`: trees of derivations over spelt tokens are legible.
* `Program.reread`: a legible program is read back.
* `parse_render`: the round trip.
-/

namespace Fixture

open Grammar

/-! ## Trees that are read are legible -/

/-- A token that the scanner gives, with a value if it is a numeral. -/
def Token.Sound (t : Token) : Prop := t.Spelt ∧ t.Fits

namespace Grammar

mutual

private theorem Factor.legible : ∀ d : Factor,
    (∀ t ∈ d.tokens, t.Sound) → d.tree.Legible
  | .signed op f, h => by
      simp only [Factor.tokens, List.forall_mem_cons] at h
      exact ⟨op.property, h.1.1, Factor.legible f h.2⟩
  | .integer t, h => by
      have ht := h t.val (List.mem_singleton.2 rfl)
      exact ⟨t.property, ht.1, ht.2, rfl⟩
  | .real t, h => by
      have ht := h t.val (List.mem_singleton.2 rfl)
      exact ⟨t.property, ht.1, ht.2, rfl⟩
  | .boolean t, h => ⟨t.property, (h t.val (List.mem_singleton.2 rfl)).1, rfl⟩
  | .paren l e r, h => by
      simp only [Factor.tokens, List.forall_mem_cons, List.forall_mem_append]
        at h
      exact Expression.legible e h.2.1
  | .name t, h => ⟨t.property, (h t.val (List.mem_singleton.2 rfl)).1⟩

private theorem Factors.legible : ∀ (d : Factors) {left : Expr},
    left.Legible → (∀ t ∈ d.tokens, t.Sound) → (d.tree left).Legible
  | .nil, _, hl, _ => hl
  | .cons op f fs, left, hl, h => by
      simp only [Factors.tokens, List.forall_mem_cons, List.forall_mem_append]
        at h
      have hop : op.val.kind.isInfix = true := by
        rw [Kind.isInfix, op.property]; rfl
      have hleft : (Expr.binary op.val left f.tree).Legible :=
        ⟨hop, h.1.1, hl, Factor.legible f h.2.1⟩
      exact Factors.legible fs hleft h.2.2

private theorem Term.legible : ∀ d : Term,
    (∀ t ∈ d.tokens, t.Sound) → d.tree.Legible
  | .mk f fs, h => by
      simp only [Term.tokens, List.forall_mem_append] at h
      exact Factors.legible fs (Factor.legible f h.1) h.2

private theorem Terms.legible : ∀ (d : Terms) {left : Expr},
    left.Legible → (∀ t ∈ d.tokens, t.Sound) → (d.tree left).Legible
  | .nil, _, hl, _ => hl
  | .cons op t ts, left, hl, h => by
      simp only [Terms.tokens, List.forall_mem_cons, List.forall_mem_append]
        at h
      have hop : op.val.kind.isInfix = true := by
        simp [Kind.isInfix, op.property]
      have hleft : (Expr.binary op.val left t.tree).Legible :=
        ⟨hop, h.1.1, hl, Term.legible t h.2.1⟩
      exact Terms.legible ts hleft h.2.2

private theorem Sum.legible : ∀ d : Sum,
    (∀ t ∈ d.tokens, t.Sound) → d.tree.Legible
  | .mk t ts, h => by
      simp only [Sum.tokens, List.forall_mem_append] at h
      exact Terms.legible ts (Term.legible t h.1) h.2

private theorem Expression.legible : ∀ d : Expression,
    (∀ t ∈ d.tokens, t.Sound) → d.tree.Legible
  | .sum s, h => Sum.legible s h
  | .comparison l op r, h => by
      simp only [Expression.tokens, List.forall_mem_cons,
        List.forall_mem_append] at h
      have hop : op.val.kind.isInfix = true := by
        simp [Kind.isInfix, op.property]
      exact ⟨hop, h.2.1.1, Sum.legible l h.1, Sum.legible r h.2.2⟩

end

/-- A token of a kind with one text is the fixed token of that kind, places
aside. -/
private theorem fixed_of_sound {k : Kind} (t : TokenOf k) (h : t.val.Sound)
    (hk : k.isFixed = true) : t.val.unplaced = .fixed k :=
  h.1.unplaced_eq t.property hk

private theorem Operands.legible : ∀ d : Operands, (∀ t ∈ d.tokens, t.Sound) →
    d.tree.1.Legible ∧ ∀ e ∈ d.tree.2, e.Legible
  | .distance d, h => ⟨Factor.legible d h, by simp⟩
  | .both d c s, h => by
      simp only [Operands.tokens, List.forall_mem_cons, List.forall_mem_append]
        at h
      exact ⟨Factor.legible d h.1, by simpa using Factor.legible s h.2.2⟩

mutual

private theorem Statement.legible : ∀ d : Statement,
    (∀ t ∈ d.tokens, t.Sound) → d.tree.Legible
  | .empty, _ => trivial
  | .compound b ss e, h => by
      simp only [Statement.tokens, List.forall_mem_cons, List.forall_mem_append]
        at h
      exact Statements.legible ss h.2.1
  | .assign t op e, h => by
      simp only [Statement.tokens, List.forall_mem_cons] at h
      exact ⟨fixed_of_sound op h.2.1 rfl, t.property, h.1.1,
        Expression.legible e h.2.2⟩
  | .ifThen i c col ss e, h => by
      simp only [Statement.tokens, List.forall_mem_cons, List.forall_mem_append]
        at h
      exact ⟨fixed_of_sound i h.1 rfl, Expression.legible c h.2.1,
        Statements.legible ss h.2.2.2.1⟩
  | .ifElse i c col ss el col' alt e, h => by
      simp only [Statement.tokens, List.forall_mem_cons, List.forall_mem_append]
        at h
      exact ⟨fixed_of_sound i h.1 rfl, Expression.legible c h.2.1,
        Statements.legible ss h.2.2.2.1, Statements.legible alt h.2.2.2.2.2.2.1⟩
  | .loop l col ss u c, h => by
      simp only [Statement.tokens, List.forall_mem_cons, List.forall_mem_append]
        at h
      exact ⟨fixed_of_sound l h.1 rfl, Statements.legible ss h.2.2.1,
        Expression.legible c h.2.2.2.2⟩
  | .wait w e, h => by
      simp only [Statement.tokens, List.forall_mem_cons] at h
      exact ⟨fixed_of_sound w h.1 rfl, Expression.legible e h.2⟩
  | .move axis m o, h => by
      simp only [Statement.tokens, List.forall_mem_cons] at h
      exact ⟨fixed_of_sound m h.1 (by cases axis <;> rfl),
        Operands.legible o h.2⟩
  | .home t, h => fixed_of_sound t (h t.val (List.mem_singleton.2 rfl)) rfl
  | .stop t, h => fixed_of_sound t (h t.val (List.mem_singleton.2 rfl)) rfl

private theorem Statements.legible : ∀ d : Statements,
    (∀ t ∈ d.tokens, t.Sound) → LegibleEach d.tree
  | .one s, h => ⟨Statement.legible s h, trivial⟩
  | .more s semi ss, h => by
      simp only [Statements.tokens, List.forall_mem_cons,
        List.forall_mem_append] at h
      exact ⟨Statement.legible s h.1, Statements.legible ss h.2.2⟩

end

private theorem Names.legible : ∀ d : Names,
    (∀ t ∈ d.tokens, t.Sound) → ∀ id ∈ d.ids, id.kind = .ident ∧ id.Spelt
  | .one id, h => by
      simpa using ⟨id.property, (h id.val (List.mem_singleton.2 rfl)).1⟩
  | .more id c ids, h => by
      simp only [Names.tokens, List.forall_mem_cons] at h
      simp only [Names.ids, List.forall_mem_cons]
      exact ⟨⟨id.property, h.1.1⟩, Names.legible ids h.2.2⟩

private theorem VarGroup.legible (g : VarGroup) (h : ∀ t ∈ g.tokens, t.Sound) :
    ∀ d ∈ g.tree, d.Legible := by
  simp only [VarGroup.tokens, List.forall_mem_append] at h
  intro d hd
  obtain ⟨id, hid, rfl⟩ := List.mem_map.1 hd
  exact ⟨Names.legible g.names h.1 id hid, g.type.property⟩

private theorem Pin.legible (g : Grammar.Pin) (h : ∀ t ∈ g.tokens, t.Sound) :
    g.tree.Legible := by
  simp only [Grammar.Pin.tokens, List.forall_mem_cons] at h
  exact ⟨⟨g.id.property, h.1.1⟩, g.direction.property, _,
    h.2.2.2.1.2.integer g.number.property, rfl⟩

private theorem Waypoint.legible (g : Waypoint) (h : ∀ t ∈ g.tokens, t.Sound) :
    g.tree.Legible := by
  simp only [Waypoint.tokens, List.forall_mem_cons, List.forall_mem_append] at h
  exact ⟨⟨g.id.property, h.1.1⟩, Factor.legible g.distance h.2.2.1,
    Factor.legible g.speed h.2.2.2.2.1⟩

/-- What holds of all tokens of a section holds of all tokens of each
declaration. -/
private theorem Section.forall_decls {δ : Type} {k : Kind}
    {tokens : δ → List Token} {P : Token → Prop} {d : Grammar.Section k δ}
    (h : ∀ t ∈ d.tokens tokens, P t) : ∀ g ∈ d.decls, ∀ t ∈ tokens g, P t := by
  cases d with
  | absent => simp
  | present s ds =>
      intro g hg t ht
      exact h t (List.mem_cons_of_mem _ (List.mem_flatMap.2 ⟨g, hg, ht⟩))

/-- **Trees that are read are legible.** -/
theorem Program.legible (d : Grammar.Program) (h : ∀ t ∈ d.tokens, t.Sound) :
    d.tree.Legible := by
  simp only [Grammar.Program.tokens, Grammar.Block.tokens, List.forall_mem_cons,
    List.forall_mem_append] at h
  obtain ⟨htok, hname, -, ⟨hvars, hpins, hways, -, hbody, -⟩, -⟩ := h
  refine ⟨fixed_of_sound d.tok htok rfl, ?_, ?_, ?_, ?_,
    Statements.legible d.block.body hbody⟩
  · obtain ⟨w, hw, hlit⟩ := hname.1
    rw [d.name.property] at hw
    exact ⟨w, hw, hlit⟩
  · intro v hv
    obtain ⟨g, hg, hv⟩ := List.mem_flatMap.1 hv
    exact VarGroup.legible g (Section.forall_decls hvars g hg) v hv
  · exact List.forall_mem_map.2 fun g hg =>
      Pin.legible g (Section.forall_decls hpins g hg)
  · exact List.forall_mem_map.2 fun g hg =>
      Waypoint.legible g (Section.forall_decls hways g hg)

end Grammar

/-! ## The round trip -/

/-- What comes in front of another token is spelt. -/
theorem spelt_of_scan_eq {src : List UInt8} {t : Token} {pre post : List Token}
    (h : (scan src).tokens = pre ++ t :: post) : ∀ u ∈ pre, u.Spelt := by
  intro u hu
  refine Token.spelt_of_mem_scan (h ▸ List.mem_append_left _ hu) fun heof => ?_
  -- The end of the source comes last, so it does not come in front of `t`.
  obtain ⟨front, more, rfl⟩ := List.append_of_mem hu
  rw [List.append_assoc, List.cons_append] at h
  obtain ⟨hmore, -⟩ := Scan.upTo_eof _ _ h heof
  exact absurd hmore (by simp)

theorem Program.legible_of_parse {src : List UInt8} {p : Program}
    (h : parse src = .ok p) : p.Legible := by
  obtain ⟨d, hd, hfit, -, rfl⟩ := parse_sound h
  apply Grammar.Program.legible
  intro t ht
  exact ⟨spelt_of_scan_eq hd.symm t ht, hfit t (List.mem_append_left _ ht)⟩

/-- A legible program is read back. -/
theorem Program.reread {p : Program} (h : p.Legible) :
    ∃ q, parse (bytesOf p.render) = .ok q ∧ q.isFlat = true ∧
      q.normal.unplaced = p.normal.unplaced := by
  obtain ⟨-, hread⟩ := (Program.reads h).scan
  rw [List.map_eq_append_iff] at hread
  obtain ⟨us, es, hscan, hus, hes⟩ := hread
  obtain ⟨e, rfl, he⟩ := List.map_eq_singleton_iff.1 hes
  obtain ⟨d, rfl, hflat, hnormal⟩ := Program.derived h us hus
  have hkind : e.kind = .eof := congrArg Token.kind he
  have hfit : ∀ t ∈ Source.tokens ⟨d, ⟨e, hkind⟩⟩, t.Fits := by
    intro t ht
    rw [Source.tokens, List.mem_append, List.mem_singleton] at ht
    rcases ht with ht | rfl
    · have hmem : t.unplaced ∈ p.written := hus ▸ List.mem_map_of_mem ht
      exact Token.fits_of_unplaced rfl (Program.fits h _ hmem)
    · exact Parse.fits_of_kind hkind rfl
  exact ⟨d.tree, parse_complete (d := ⟨d, ⟨e, hkind⟩⟩) hscan.symm hfit, hflat,
    hnormal⟩

/--
**The round trip.** A program that is read can be printed and read again. What
is read then is flat, and it is the first program up to places once both are in
normal form. Printing it is stable: read back once more, it has the same print.
-/
theorem parse_render {src : List UInt8} {p : Program} (h : parse src = .ok p) :
    ∃ q, parse (bytesOf p.render) = .ok q ∧ q.isFlat = true ∧
      q.normal.unplaced = p.normal.unplaced ∧
      ∃ q', parse (bytesOf q.render) = .ok q' ∧ q'.render = q.render := by
  obtain ⟨q, hq, hflat, hnormal⟩ := Program.reread (Program.legible_of_parse h)
  obtain ⟨q', hq', hflat', hnormal'⟩ :=
    Program.reread (Program.legible_of_parse hq)
  exact ⟨q, hq, hflat, hnormal, q', hq',
    Program.render_eq_of_normal hflat' hflat hnormal'⟩

/-- A source with an empty statement, a compound in a compound and a branch with
nothing in it. -/
def nestedSource : List UInt8 :=
  asciiBytes "PROGRAM p; VAR x : INTEGER; BEGIN ; BEGIN HOME; END; " ++
    asciiBytes "IF x > 1: STOP ELSE: ENDIF END."

theorem parse_render_nestedSource : ∃ p,
    parse nestedSource = .ok p ∧
    ∃ q, parse (bytesOf p.render) = .ok q ∧ q.isFlat = true ∧
      q.normal.unplaced = p.normal.unplaced ∧
      ∃ q', parse (bytesOf q.render) = .ok q' ∧ q'.render = q.render := by
  have hread : (parse nestedSource).isOk = true := by decide +kernel
  obtain ⟨p, hp⟩ := exists_of_isOk hread
  exact ⟨p, hp, parse_render hp⟩

end Fixture
