import Fixture.Proofs.Printing.Statements
/-!
# Reading printed programs

Declarations are printed one to a line, each with a semicolon, and so are the
statements of the body. The three sections are alike but for their declarations,
so one lemma serves all of them.

Pins are the one place where print does not show a token as it was: the number
of a pin is printed in decimal, whatever zeros it was written with.

## Main results

* `Program.reads`: the text of a legible program is read as the tokens it is
  written with.
* `Program.derived`: these tokens are a program, flat and with the normal form
  of the printed one.
-/

namespace Fixture

open Grammar

/-! ## Numbers -/

theorem isDigit_byte {c : Char} (h : c.isDigit = true) :
    c.toNat < 128 ∧ isDigit (UInt8.ofNat c.toNat) = true := by
  simp only [Char.isDigit, Bool.and_eq_true, decide_eq_true_eq, ge_iff_le,
    UInt32.le_iff_toNat_le] at h
  have hrange : 48 ≤ c.toNat ∧ c.toNat ≤ 57 := h
  simp only [isDigit, Bool.and_eq_true, decide_eq_true_eq,
    UInt8.le_iff_toNat_le, UInt8.reduceToNat, UInt8.toNat_ofNat']
  omega

/-- The decimal digits of a number are an integer numeral. -/
theorem Token.spelt_numeral (n : Nat) (pos : Pos) :
    Token.Spelt ⟨.integerConst, toString n, pos⟩ := by
  have hdigits : ∀ c ∈ (toString n).toList, c.isDigit = true := by
    intro c hc
    rw [Nat.toString_eq_repr, Nat.toList_repr] at hc
    exact Nat.isDigit_of_mem_toDigits (by decide) (by decide) hc
  have hbytes : ∀ b ∈ asciiBytes (toString n), isDigit b = true := by
    intro b hb
    obtain ⟨c, hc, rfl⟩ := List.mem_map.1 hb
    exact (isDigit_byte (hdigits c hc)).2
  have htext : textOf (asciiBytes (toString n)) = toString n :=
    textOf_asciiBytes fun c hc => (isDigit_byte (hdigits c hc)).1
  cases hw : asciiBytes (toString n) with
  | nil =>
      rw [hw] at htext
      exact absurd htext.symm Nat.repr_ne_empty
  | cons b w =>
      rw [hw] at hbytes htext
      exact ⟨b :: w, .integer hbytes, htext.symm⟩

theorem digits_toString (n : Nat) :
    Numeral.digits 0 (toString n).toList = n := by
  rw [Nat.toString_eq_repr, Nat.toList_repr]
  exact Nat.ofDigitChars_toDigits (by decide) (by decide)

/-! ## Declarations -/

/-- A declaration whose tokens are what they look like. -/
@[simp] def VarDecl.Legible (d : VarDecl) : Prop :=
  (d.tok.kind = .ident ∧ d.tok.Spelt) ∧ d.type.isVariableType = true

/-- A declaration whose tokens are what they look like, with a number that can
be written. -/
@[simp] def PinDecl.Legible (d : PinDecl) : Prop :=
  (d.tok.kind = .ident ∧ d.tok.Spelt) ∧ d.direction.isDirection = true ∧
    ∃ n : Nat, n < 2 ^ 63 ∧ d.pin = Int64.ofNat n

/-- A declaration whose tokens are what they look like. -/
@[simp] def WaypointDecl.Legible (d : WaypointDecl) : Prop :=
  (d.tok.kind = .ident ∧ d.tok.Spelt) ∧ d.distance.Legible ∧ d.speed.Legible

/-- The tokens that a declaration is printed with. -/
@[simp] def VarDecl.written (d : VarDecl) : List Token :=
  [d.tok.unplaced, .fixed .colon, .fixed d.type]

/-- The tokens that a declaration is printed with. -/
@[simp] def PinDecl.written (d : PinDecl) : List Token :=
  [d.tok.unplaced, .fixed .colon, .fixed d.direction,
    ⟨.integerConst, toString d.pin.toInt, .nowhere⟩]

/-- The tokens that a declaration is printed with. -/
@[simp] def WaypointDecl.written (d : WaypointDecl) : List Token :=
  d.tok.unplaced :: .fixed .assign ::
    (d.distance.written ++ .fixed .comma :: d.speed.written)

private theorem opens_colon_spaced : Opens " : " [.fixed .colon] :=
  opens_space.append (opens_spaced (k := .colon) rfl)

private theorem closes_colon_spaced : Closes " : " := closes_space.append ": "

/-- Types are printed by their names, which are their texts. -/
private theorem Kind.name_of_isVariableType {k : Kind}
    (h : k.isVariableType = true) : k.isFixed = true ∧ k.name = k.spelling := by
  cases k with
  | tyInteger | tyReal | tyBool => decide
  | _ => cases h

/-- Directions are printed by their names, which are their texts. -/
private theorem Kind.name_of_isDirection {k : Kind} (h : k.isDirection = true) :
    k.isFixed = true ∧ k.name = k.spelling := by
  cases k with
  | pinIn | pinOut => decide
  | _ => cases h

private theorem VarDecl.writes {d : VarDecl} (h : d.Legible) :
    Writes d.render d.written := by
  obtain ⟨hfixed, hname⟩ := Kind.name_of_isVariableType h.2
  have htok := (Writes.token h.1.2).opens opens_colon_spaced closes_colon_spaced
  have hprint := htok.writes (Writes.fixed hfixed)
  rw [← hname] at hprint
  simpa [VarDecl.render, VarDecl.name] using hprint

private theorem PinDecl.writes {d : PinDecl} (h : d.Legible) :
    Writes d.render d.written := by
  obtain ⟨hfixed, hname⟩ := Kind.name_of_isDirection h.2.1
  obtain ⟨n, hn, hpin⟩ := h.2.2
  have hnum : toString d.pin.toInt = toString n := by
    rw [hpin, Int64.toInt_ofNat_of_lt hn]
    rfl
  have htok := (Writes.token h.1.2).opens opens_colon_spaced closes_colon_spaced
  have hdir :=
    (htok.writes (Writes.fixed hfixed)).opens opens_space closes_space
  have hprint := hdir.writes (Writes.token (Token.spelt_numeral n .nowhere))
  rw [← hname] at hprint
  simpa [PinDecl.render, PinDecl.name, hnum, Token.unplaced] using hprint

private theorem WaypointDecl.writes {d : WaypointDecl} (h : d.Legible) :
    Writes d.render d.written := by
  have htok := (Writes.token h.1.2).opens opens_assign closes_assign
  have hdist :=
    (htok.writes (Expr.writes h.2.1)).opens opens_comma_space closes_comma_space
  have hprint := hdist.writes (Expr.writes h.2.2)
  simpa [WaypointDecl.render, WaypointDecl.name] using hprint

/-! ## Lines and sections -/

/-- Rows of tokens with a semicolon behind each of them. -/
@[simp] def ended (rows : List (List Token)) : List Token :=
  rows.flatMap (· ++ [.fixed .semi])

/-- The tokens of a section: none without declarations. -/
def writtenSection (k : Kind) (rows : List (List Token)) : List Token :=
  if rows.isEmpty then [] else .fixed k :: ended rows

private theorem opens_lines {texts : List String} {rows : List (List Token)}
    (h : List.Forall₂ Writes texts rows) :
    Opens (String.join (texts.map renderLine)) (ended rows) := by
  induction h with
  | nil => exact Opens.empty
  | cons hs hrest ih =>
      have hindent : Opens "    " [] :=
        opens_space.append (opens_space.append (opens_space.append opens_space))
      have hend : Opens ";\n" [.fixed .semi] := opens_semi.append opens_newline
      have hline := (hindent.writes hs).opens hend (closes_semi.append "\n")
      rw [List.map_cons, String.join_cons]
      simpa [renderLine] using hline.append ih

private theorem opens_section {k : Kind} (hk : k.isFixed = true)
    {texts : List String} {rows : List (List Token)}
    (h : List.Forall₂ Writes texts rows) :
    Opens (renderSection k.spelling texts) (writtenSection k rows) := by
  cases h with
  | nil => exact Opens.empty
  | cons hs hrest =>
      have hkeyword := (Writes.fixed hk).opens opens_newline closes_newline
      exact hkeyword.append (opens_lines (.cons hs hrest))

private theorem forall₂_map {α : Type} {render : α → String}
    {written : α → List Token} {as : List α}
    (h : ∀ a ∈ as, Writes (render a) (written a)) :
    List.Forall₂ Writes (as.map render) (as.map written) := by
  induction as with
  | nil => exact .nil
  | cons a as ih =>
      exact .cons (h a (List.mem_cons_self ..))
        (ih fun b hb => h b (List.mem_cons_of_mem _ hb))

private theorem forall_mem_ended {P : Token → Prop} (hsemi : P (.fixed .semi))
    {rows : List (List Token)} (h : ∀ row ∈ rows, ∀ t ∈ row, P t) :
    ∀ t ∈ ended rows, P t := by
  intro t ht
  obtain ⟨row, hrow, ht⟩ := List.mem_flatMap.1 ht
  rcases List.mem_append.1 ht with ht | ht
  · exact h row hrow t ht
  · rw [List.mem_singleton.1 ht]
    exact hsemi

section Sections

variable {α δ : Type} {tokens : δ → List Token} {tree : δ → List α}
    {written : α → List Token} {erase : α → α}

/-- Declarations that can be read back one by one can be read back in a row. -/
private theorem derivedDecls : ∀ {as : List α},
    (∀ a ∈ as, ∀ (us : List Token) (semi : Token),
      us.map Token.unplaced = written a → semi.unplaced = .fixed .semi →
      ∃ g : δ, tokens g = us ++ [semi] ∧ (tree g).map erase = [erase a]) →
    ∀ us : List Token, us.map Token.unplaced = ended (as.map written) →
      ∃ gs : List δ, gs.flatMap tokens = us ∧
        (gs.flatMap tree).map erase = as.map erase
  | [], _, us, hus => by
      obtain rfl := List.map_eq_nil_iff.1 hus
      exact ⟨[], rfl, rfl⟩
  | a :: as, h, us, hus => by
      simp only [ended, List.map_cons, List.flatMap_cons, List.append_assoc,
        List.cons_append, List.nil_append, List.map_eq_append_iff,
        List.map_eq_cons_iff] at hus
      obtain ⟨vs, _, rfl, hvs, semi, ws, rfl, hsemi, hws⟩ := hus
      obtain ⟨g, hg, hgtree⟩ := h a (List.mem_cons_self ..) vs semi hvs hsemi
      obtain ⟨gs, hgs, hgstree⟩ :=
        derivedDecls (fun b hb => h b (List.mem_cons_of_mem _ hb)) ws hws
      refine ⟨g :: gs, ?_, ?_⟩
      · rw [List.flatMap_cons, hg, hgs, List.append_assoc,
          List.singleton_append]
      · rw [List.flatMap_cons, List.map_append, hgtree, hgstree, List.map_cons,
          List.singleton_append]

private theorem derivedSection {k : Kind} {as : List α}
    (h : ∀ a ∈ as, ∀ (us : List Token) (semi : Token),
      us.map Token.unplaced = written a → semi.unplaced = .fixed .semi →
      ∃ g : δ, tokens g = us ++ [semi] ∧ (tree g).map erase = [erase a])
    (us : List Token)
    (hus : us.map Token.unplaced = writtenSection k (as.map written)) :
    ∃ d : Grammar.Section k δ, d.tokens tokens = us ∧
      (d.decls.flatMap tree).map erase = as.map erase := by
  cases as with
  | nil =>
      obtain rfl := List.map_eq_nil_iff.1 hus
      exact ⟨.absent, rfl, rfl⟩
  | cons a as =>
      rw [writtenSection, List.map_cons, List.isEmpty_cons,
        if_neg Bool.false_ne_true, List.map_eq_cons_iff] at hus
      obtain ⟨t, vs, rfl, ht, hvs⟩ := hus
      obtain ⟨gs, rfl, hgs⟩ := derivedDecls h vs hvs
      exact ⟨.present ⟨t, Token.kind_of_unplaced ht⟩ gs, rfl, hgs⟩

end Sections

private theorem VarDecl.derived {d : VarDecl} (h : d.Legible) (us : List Token)
    (semi : Token) (hus : us.map Token.unplaced = d.written)
    (hsemi : semi.unplaced = .fixed .semi) :
    ∃ g : VarGroup, g.tokens = us ++ [semi] ∧
      g.tree.map VarDecl.unplaced = [d.unplaced] := by
  simp only [VarDecl.written, List.map_eq_cons_iff, List.map_eq_nil_iff] at hus
  obtain ⟨x, _, rfl, hx, col, _, rfl, hcol, ty, _, rfl, hty, rfl⟩ := hus
  have hxk : x.kind = .ident := (Token.kind_eq_of_unplaced hx).trans h.1.1
  have htyk : ty.kind = d.type := Token.kind_of_unplaced hty
  refine ⟨⟨.one ⟨x, hxk⟩, ⟨col, Token.kind_of_unplaced hcol⟩,
    ⟨ty, by rw [htyk]; exact h.2⟩, ⟨semi, Token.kind_of_unplaced hsemi⟩⟩, rfl,
    ?_⟩
  simp [hx, htyk]

private theorem PinDecl.derived {d : PinDecl} (h : d.Legible) (us : List Token)
    (semi : Token) (hus : us.map Token.unplaced = d.written)
    (hsemi : semi.unplaced = .fixed .semi) :
    ∃ g : Grammar.Pin, g.tokens = us ++ [semi] ∧
      [g.tree].map PinDecl.unplaced = [d.unplaced] := by
  simp only [PinDecl.written, List.map_eq_cons_iff, List.map_eq_nil_iff] at hus
  obtain ⟨x, _, rfl, hx, col, _, rfl, hcol, dir, _, rfl, hdir, num, _, rfl,
    hnum, rfl⟩ := hus
  obtain ⟨n, hn, hpin⟩ := h.2.2
  have hxk : x.kind = .ident := (Token.kind_eq_of_unplaced hx).trans h.1.1
  have hdirk : dir.kind = d.direction := Token.kind_of_unplaced hdir
  have hnumk : num.kind = .integerConst := congrArg Token.kind hnum
  have hlit : num.literal = toString n := by
    rw [hpin, Int64.toInt_ofNat_of_lt hn] at hnum
    exact congrArg Token.literal hnum
  refine ⟨⟨⟨x, hxk⟩, ⟨col, Token.kind_of_unplaced hcol⟩,
    ⟨dir, by rw [hdirk]; exact h.2.1⟩, ⟨num, hnumk⟩,
    ⟨semi, Token.kind_of_unplaced hsemi⟩⟩, rfl, ?_⟩
  simp only [Grammar.Pin.tree, List.map_cons, List.map_nil, PinDecl.unplaced,
    hx, hdirk, hlit, digits_toString, hpin]

private theorem WaypointDecl.derived {d : WaypointDecl} (h : d.Legible)
    (us : List Token) (semi : Token) (hus : us.map Token.unplaced = d.written)
    (hsemi : semi.unplaced = .fixed .semi) :
    ∃ g : Waypoint, g.tokens = us ++ [semi] ∧
      [g.tree].map WaypointDecl.unplaced = [d.unplaced] := by
  simp only [WaypointDecl.written, List.map_eq_cons_iff, List.map_eq_append_iff]
    at hus
  obtain ⟨x, _, rfl, hx, op, _, rfl, hop, ds, _, rfl, hds, co, ss, rfl, hco,
    hss⟩ := hus
  have hxk : x.kind = .ident := (Token.kind_eq_of_unplaced hx).trans h.1.1
  obtain ⟨dd, rfl, hdd⟩ := Expr.derived h.2.1 ds hds
  obtain ⟨de, rfl, hde⟩ := Expr.derived h.2.2 ss hss
  refine ⟨⟨⟨x, hxk⟩, ⟨op, Token.kind_of_unplaced hop⟩, dd,
    ⟨co, Token.kind_of_unplaced hco⟩, de, ⟨semi, Token.kind_of_unplaced hsemi⟩⟩,
    by simp, ?_⟩
  simp [hx, hdd, hde]

/-! ## Programs -/

/-- A block whose tokens are what they look like. -/
structure Block.Legible (b : Block) : Prop where
  vars : ∀ d ∈ b.vars, d.Legible
  pins : ∀ d ∈ b.pins, d.Legible
  waypoints : ∀ d ∈ b.waypoints, d.Legible
  body : LegibleEach b.body

/-- The token of the name of a program. -/
def Program.nameTok (p : Program) : Token := ⟨.ident, p.name, .nowhere⟩

/-- A program whose tokens are what they look like. -/
structure Program.Legible (p : Program) : Prop where
  tok : p.tok.unplaced = .fixed .kwProgram
  name : p.nameTok.Spelt
  block : p.block.Legible

/-- The tokens that a block is printed with. -/
def Block.written (b : Block) : List Token :=
  writtenSection .kwVar (b.vars.map VarDecl.written) ++
    (writtenSection .kwPins (b.pins.map PinDecl.written) ++
      (writtenSection .kwWaypoint (b.waypoints.map WaypointDecl.written) ++
        .fixed .kwBegin :: (ended (writtenEach b.body) ++ [.fixed .kwEnd])))

/-- The tokens that a program is printed with. -/
def Program.written (p : Program) : List Token :=
  .fixed .kwProgram :: p.nameTok :: .fixed .semi ::
    (p.block.written ++ [.fixed .dot])

/-- The one place where a point follows a word. -/
theorem reads_end :
    Reads (bytesOf "END" ++ bytesOf ".") [.fixed .kwEnd, .fixed .dot] := by
  have hdot : Reads (bytesOf "." ++ []) ([.fixed .dot] ++ []) :=
    Opens.lone (b := 46) (k := .dot) (by decide) (by decide) [] [] Reads.nil
  have hbytes : bytesOf "." = [46] :=
    bytesOf_textOf (w := [46]) (by decide +kernel)
  have hend : Lexeme.Spelt .kwEnd [69, 78, 68] :=
    .word (b := 69) (w := [78, 68]) rfl (by decide +kernel)
  have hsplit : Lexeme.split ([69, 78, 68] ++ bytesOf ".") =
      some ⟨.kwEnd, [69, 78, 68], bytesOf "."⟩ :=
    Lexeme.split_word (b := 69) (w := [78, 68]) rfl (by decide +kernel)
      (by rw [hbytes]; simp; decide)
  rw [List.append_nil] at hdot
  rw [show bytesOf "END" = [69, 78, 68]
    from bytesOf_textOf (w := [69, 78, 68]) (by decide +kernel)]
  exact hdot.lexeme hend hsplit

/-- **The text of a legible program is read as its tokens.** -/
theorem Program.reads {p : Program} (h : p.Legible) :
    Reads (bytesOf p.render) p.written := by
  have hvars : Opens (renderSection "VAR" (p.block.vars.map VarDecl.render))
      (writtenSection .kwVar (p.block.vars.map VarDecl.written)) :=
    opens_section (k := .kwVar) rfl
      (forall₂_map fun d hd => VarDecl.writes (h.block.vars d hd))
  have hpins : Opens (renderSection "IO" (p.block.pins.map PinDecl.render))
      (writtenSection .kwPins (p.block.pins.map PinDecl.written)) :=
    opens_section (k := .kwPins) rfl
      (forall₂_map fun d hd => PinDecl.writes (h.block.pins d hd))
  have hways : Opens
      (renderSection "WAYPOINT" (p.block.waypoints.map WaypointDecl.render))
      (writtenSection .kwWaypoint
        (p.block.waypoints.map WaypointDecl.written)) :=
    opens_section (k := .kwWaypoint) rfl
      (forall₂_map fun d hd => WaypointDecl.writes (h.block.waypoints d hd))
  have hbegin : Opens "BEGIN\n" [.fixed .kwBegin] :=
    (Writes.fixed (k := .kwBegin) rfl).opens opens_newline closes_newline
  have hbody :=
    (((hvars.append hpins).append hways).append hbegin).append
      (opens_lines (writesEach h.block.body))
  have hprogram : Opens "PROGRAM " [.fixed .kwProgram] :=
    opens_spaced (k := .kwProgram) rfl
  have hline : Opens ";\n" [.fixed .semi] := opens_semi.append opens_newline
  have hname : Writes p.name [p.nameTok] := Writes.token h.name
  have hhead := (hprogram.writes hname).opens hline (closes_semi.append "\n")
  have hread := hhead _ _ (hbody _ _ reads_end)
  simpa only [Program.render, Block.render, bytesOf_append, List.append_assoc,
    Program.written, Block.written, List.cons_append, List.nil_append]
    using hread

/-! ### Numerals -/

private theorem VarDecl.fits {d : VarDecl} (h : d.Legible) :
    ∀ t ∈ d.written, t.Fits := by
  have htok : d.tok.unplaced.Fits := Parse.fits_of_kind h.1.1 rfl
  have htype : (Token.fixed d.type).Fits :=
    Parse.fits_of_class (p := Kind.isVariableType) h.2 rfl rfl
  simpa [or_imp, forall_and] using ⟨htok, Token.fits_fixed rfl, htype⟩

private theorem PinDecl.fits {d : PinDecl} (h : d.Legible) :
    ∀ t ∈ d.written, t.Fits := by
  have htok : d.tok.unplaced.Fits := Parse.fits_of_kind h.1.1 rfl
  have hdir : (Token.fixed d.direction).Fits :=
    Parse.fits_of_class (p := Kind.isDirection) h.2.1 rfl rfl
  obtain ⟨n, hn, hpin⟩ := h.2.2
  have hnum : Token.Fits ⟨.integerConst, toString d.pin.toInt, .nowhere⟩ := by
    rw [hpin, Int64.toInt_ofNat_of_lt hn]
    refine ⟨fun _ => ?_, fun hk => by cases hk⟩
    show Numeral.digits 0 (toString n).toList < 2 ^ 63
    rwa [digits_toString]
  intro t ht
  simp only [PinDecl.written, List.mem_cons, List.not_mem_nil, or_false] at ht
  rcases ht with rfl | rfl | rfl | rfl
  · exact htok
  · exact Token.fits_fixed rfl
  · exact hdir
  · exact hnum

private theorem WaypointDecl.fits {d : WaypointDecl} (h : d.Legible) :
    ∀ t ∈ d.written, t.Fits := by
  have htok : d.tok.unplaced.Fits := Parse.fits_of_kind h.1.1 rfl
  simpa [or_imp, forall_and] using ⟨htok, Token.fits_fixed rfl, Expr.fits h.2.1,
      Token.fits_fixed rfl, Expr.fits h.2.2⟩

private theorem fits_writtenSection {k : Kind} (hk : Parse.isPlain k = true)
    {rows : List (List Token)} (h : ∀ row ∈ rows, ∀ t ∈ row, t.Fits) :
    ∀ t ∈ writtenSection k rows, t.Fits := by
  intro t ht
  rw [writtenSection] at ht
  by_cases hrows : rows.isEmpty = true
  · rw [if_pos hrows] at ht
    cases ht
  · rw [if_neg hrows, List.mem_cons] at ht
    rcases ht with rfl | ht
    · exact Token.fits_fixed hk
    · exact forall_mem_ended (Token.fits_fixed rfl) h t ht

/-- The numerals of a printed program fit. -/
theorem Program.fits {p : Program} (h : p.Legible) :
    ∀ t ∈ p.written, t.Fits := by
  have hname : p.nameTok.Fits := Parse.fits_of_kind rfl rfl
  have hvars := fits_writtenSection (k := .kwVar) rfl
    (List.forall_mem_map.2 fun d hd => VarDecl.fits (h.block.vars d hd))
  have hpins := fits_writtenSection (k := .kwPins) rfl
    (List.forall_mem_map.2 fun d hd => PinDecl.fits (h.block.pins d hd))
  have hways := fits_writtenSection (k := .kwWaypoint) rfl
    (List.forall_mem_map.2 fun d hd =>
      WaypointDecl.fits (h.block.waypoints d hd))
  have hbody := forall_mem_ended (Token.fits_fixed rfl) (fitsEach h.block.body)
  simp only [Program.written, Block.written, List.forall_mem_cons,
    List.forall_mem_append]
  exact ⟨Token.fits_fixed rfl, hname, Token.fits_fixed rfl,
    ⟨hvars, hpins, hways, Token.fits_fixed rfl, hbody, Token.fits_fixed rfl, by
      simp⟩, Token.fits_fixed rfl, by simp⟩

/-! ### Derivations -/

/-- The tokens of printed lines say what their statements say. -/
private theorem derivedLines : ∀ {ss : List Stmt},
    LegibleEach ss →
    ∀ us : List Token, us.map Token.unplaced = ended (writtenEach ss) →
      Says us ss
  | [], _, us, hus => by
      obtain rfl := List.map_eq_nil_iff.1 hus
      exact Says.empty
  | s :: ss, h, us, hus => by
      by_cases hs : s.isSkip = true
      · obtain rfl := Stmt.eq_skip hs
        have hsays : Says us ss := derivedLines h.2 us hus
        exact hsays.congr rfl
      · rw [writtenEach, if_neg hs] at hus
        simp only [ended, List.flatMap_cons, List.append_assoc,
          List.cons_append, List.nil_append, List.map_eq_append_iff,
          List.map_eq_cons_iff] at hus
        obtain ⟨vs, _, rfl, hvs, semi, ws, rfl, hsemi, hws⟩ := hus
        exact (Stmt.derived h.1 vs hvs).append hsemi (derivedLines h.2 ws hws)

/-- **The tokens of a printed program are a program,** flat and with the same
normal form. -/
theorem Program.derived {p : Program} (h : p.Legible) (us : List Token)
    (hus : us.map Token.unplaced = p.written) :
    ∃ d : Grammar.Program, d.tokens = us ∧ d.tree.isFlat = true ∧
      d.tree.normal.unplaced = p.normal.unplaced := by
  simp only [Program.written, Block.written, List.append_assoc,
    List.cons_append, List.nil_append, List.map_eq_cons_iff,
    List.map_eq_append_iff, List.map_eq_nil_iff] at hus
  obtain ⟨t, _, rfl, ht, x, _, rfl, hx, semi, _, rfl, hsemi, vs, _, rfl, hvs,
    ps, _, rfl, hps, ws, _, rfl, hws, o, _, rfl, ho, bs, _, rfl, hbs, e, _, rfl,
    he, dot, _, rfl, hdot, rfl⟩ := hus
  have hxk : x.kind = .ident := congrArg Token.kind hx
  have hxlit : x.literal = p.name := congrArg Token.literal hx
  obtain ⟨dv, hdv, hdvtree⟩ := derivedSection (k := .kwVar)
    (fun d hd => VarDecl.derived (h.block.vars d hd)) vs hvs
  obtain ⟨dp, hdp, hdptree⟩ := derivedSection (k := .kwPins)
    (fun d hd => PinDecl.derived (h.block.pins d hd)) ps hps
  obtain ⟨dw, hdw, hdwtree⟩ := derivedSection (k := .kwWaypoint)
    (fun d hd => WaypointDecl.derived (h.block.waypoints d hd)) ws hws
  obtain ⟨db, hdb, hflat, hnormal⟩ := derivedLines h.block.body bs hbs
  refine ⟨⟨⟨t, Token.kind_of_unplaced ht⟩, ⟨x, hxk⟩,
    ⟨semi, Token.kind_of_unplaced hsemi⟩,
    ⟨dv, dp, dw, ⟨o, Token.kind_of_unplaced ho⟩, db,
      ⟨e, Token.kind_of_unplaced he⟩⟩, ⟨dot, Token.kind_of_unplaced hdot⟩⟩, ?_,
    hflat, ?_⟩
  · simp only [Grammar.Program.tokens, Grammar.Block.tokens, hdv, hdp, hdw, hdb,
      List.append_assoc, List.cons_append, List.nil_append]
  · simp only [Grammar.Program.tree, Grammar.Block.tree, Program.normal,
      Program.unplaced, Block.unplaced, ht, h.tok, hxlit, hdvtree,
      List.map_eq_flatMap (f := Grammar.Pin.tree), hdptree,
      List.map_eq_flatMap (f := Waypoint.tree), hdwtree, hnormal]

end Fixture
