import Fixture.Proofs.Layout.Offsets
import Fixture.Proofs.Run.Duplicates
/-!
# Where faults stand

A fault has the position of a token of the source, and its cause tells which
one. A name stands where it is assigned, read or declared again, an operation
where its operator is, and a value that is not wanted where the expression
begins, parentheses aside. This holds of the operands of a waypoint as well,
which are worked out wherever the program moves to it: the fault stands in the
declaration of the waypoint.

The tokens come from two sides. The grammar has the expressions of a program as
stretches of its tokens, and a run has its faults from deeds of the program.
What lies between are the tables: waypoints are bound to operands that the
program declares, so that every expression that is worked out stands somewhere
in the source.

## Main results

* `Token.counted_of_scan`: lines and columns are counted from one.
* `Program.Asks.isRead`: what a run works out stands in the source.
* `Deed.Blamed.blames`: the tokens that the faults of deeds are blamed on.
* `interpret_fault_places`: where faults stand.
-/

namespace Fixture

/-! ## Positions of tokens -/

/-- A token stands behind some bytes of its layout. -/
private theorem Layout.exists_after (l : Layout) :
    ∀ (pos : Pos), ∀ t ∈ l.tokens pos, ∃ bs, t.pos = pos.after bs := by
  induction l with
  | last gap =>
      intro pos t ht
      rw [tokens, List.mem_singleton] at ht
      exact ⟨gap, congrArg Token.pos ht⟩
  | lexeme gap kind bytes rest ih =>
      intro pos t ht
      rcases List.mem_cons.1 ht with rfl | ht
      · exact ⟨gap, rfl⟩
      · obtain ⟨bs, hbs⟩ := ih _ t ht
        exact ⟨gap ++ (bytes ++ bs), by
          rw [hbs, Pos.after_append, Pos.after_append]⟩

/-- Lines and columns of tokens are counted from one. -/
theorem Token.counted_of_scan {src : List UInt8} (h : (scan src).failure = none)
    {t : Token} (ht : t ∈ (scan src).tokens) :
    0 < t.pos.line ∧ 0 < t.pos.column := by
  obtain ⟨l, -, -, htokens⟩ :=
    Layout.exists_of_upTo _ (.ofSource src) (Nat.lt_succ_self _) h
  obtain ⟨bs, hbs⟩ := l.exists_after _ t (htokens.symm ▸ ht)
  have hpos : t.pos = Pos.start.after bs := hbs
  rw [hpos, Pos.after_start]
  exact ⟨Nat.add_pos_left Nat.one_pos _, Nat.add_pos_left Nat.one_pos _⟩

/-! ## What a program works out -/

namespace Program

/-- The expressions that a program works out over some values, and what it wants
of them. -/
def Asks (p : Program) (values : Table Value) (e : Expr) (want : Want) : Prop :=
  ∃ d ∈ p.deeds, d.Asks values e want

/-- The nodes of expressions that a program works out over some values. -/
def WorksOut (p : Program) (values : Table Value) (n : Expr) : Prop :=
  ∃ e want, p.Asks values e want ∧ n ∈ e.agenda

end Program

/-- An expression that was read from a stretch of some tokens. -/
structure Expr.IsRead (ts : List Token) (e : Expr) : Prop where
  legible : e.Legible
  written : e.WrittenIn ts

section Read

variable {src : List UInt8} {p : Program} {t : Tables}

/-- The operands of waypoints are those of declarations, and were read with
them. -/
private theorem isRead_of_waypoint (hp : parse src = .ok p)
    (ht : t.Conforms p.block.declarations) (name : String) (d s : Expr)
    (hget : t.values.get? name = some (.waypoint d s)) :
    d.IsRead (scan src).tokens ∧ s.IsRead (scan src).tokens := by
  rcases ht.values name _ hget with ⟨w, hfirst, hw⟩ | ⟨v, -, hkind⟩
  · have hmem : w ∈ p.block.waypoints := by
      simpa [Block.declarations] using List.mem_of_find?_eq_some hfirst
    obtain ⟨hd, hs⟩ := (Program.writtenIn_of_parse hp).waypoints w hmem
    have hlegible := (Program.legible_of_parse hp).block.waypoints w hmem
    cases hw
    exact ⟨⟨hlegible.2.1, hd⟩, ⟨hlegible.2.2, hs⟩⟩
  · exact absurd hkind (Kind.valueKind?_ne _)

/-- **What a program works out stands in its source.** -/
theorem Program.Asks.isRead (hp : parse src = .ok p)
    (ht : t.Conforms p.block.declarations) {e : Expr} {want : Want}
    (h : p.Asks t.values e want) : e.IsRead (scan src).tokens := by
  obtain ⟨d, hd, hask⟩ := h
  have hlegible : d.Legible :=
    LegibleEach.deeds (Program.legible_of_parse hp).block.body d hd
  have hwritten := (Program.writtenIn_of_parse hp).deeds d hd
  cases hask with
  | condition | duration => exact ⟨hlegible, hwritten⟩
  | value => exact ⟨hlegible, hwritten.2⟩
  | name => exact ⟨hlegible.1, hwritten.1⟩
  | distance ho =>
      exact (Motion.forall_of_resolve (isRead_of_waypoint hp ht)
        ⟨hlegible.1, hwritten.1⟩
        (fun e he => ⟨hlegible.2 e he, hwritten.2 e he⟩) ho).1
  | speed ho he =>
      exact (Motion.forall_of_resolve (isRead_of_waypoint hp ht)
        ⟨hlegible.1, hwritten.1⟩
        (fun e he => ⟨hlegible.2 e he, hwritten.2 e he⟩) ho).2 _ he

private theorem Program.WorksOut.isRead (hp : parse src = .ok p)
    (ht : t.Conforms p.block.declarations) {n : Expr}
    (h : p.WorksOut t.values n) : n.Legible ∧ n.tok ∈ (scan src).tokens := by
  obtain ⟨e, want, hask, hn⟩ := h
  have he := hask.isRead hp ht
  exact ⟨he.legible.forall_mem n hn, he.written.node_mem n hn⟩

end Read

/-! ## Faults -/

/-- What a token has to do with the cause of a fault, in a program among whose
tokens it is and over the tables at the end: the name that is undeclared,
unassigned or declared again, the operator whose operands are wrong, the target
that a waypoint is assigned to, or the leftmost token of an expression whose
value is not wanted. -/
def Cause.Blames (ts : List Token) (p : Program) (t : Tables) (tok : Token) :
    Cause → Prop
  | .undeclared name =>
    tok.kind = .ident ∧ tok.literal = name ∧ t.types.get? name = none ∧
    ∃ value, .assign tok value ∈ p.deeds
  | .unassigned name =>
    tok.kind = .ident ∧ tok.literal = name ∧ t.values.get? name = none ∧
    p.WorksOut t.values (.name tok)
  | .duplicate name =>
    tok.kind = .ident ∧ tok.literal = name ∧
    ∃ (before : List Declaration) (d : Declaration) (behind : List Declaration),
      p.block.declarations = before ++ d :: behind ∧ d.tok = tok ∧
      name ∈ before.map Declaration.name
  | .divisionByZero q =>
    tok.kind.divides = true ∧ p.WorksOut t.values q ∧
    ∃ l r v, q = .binary tok l r ∧ r.eval t.values = .ok v ∧ v.isZero = true
  | .waypointAssigned name _ =>
    tok.kind = .ident ∧ tok.literal = name ∧
    ∃ value, .assign tok value ∈ p.deeds ∧ value.IsWaypoint t.values
  | .signMismatch op _ =>
    tok.kind.isAdditive = true ∧ tok.literal = op ∧
    ∃ e, p.WorksOut t.values (.signed tok e) ∧ e.IsWaypoint t.values
  | .operandMismatch _ op _ =>
    tok.kind.isInfix = true ∧ tok.literal = op ∧
    ∃ l r, p.WorksOut t.values (.binary tok l r) ∧
      (l.IsWaypoint t.values ∨ r.IsWaypoint t.values)
  | .conditionNotBoolean c found =>
    c.BeginsWith ts tok ∧ p.Asks t.values c .truth ∧
    ∃ v, c.eval t.values = .ok v ∧ v.kind = found ∧ found ≠ .boolean
  | .notANumber e found =>
    e.BeginsWith ts tok ∧ p.Asks t.values e .number ∧ e.IsWaypoint t.values ∧
    found = .waypoint
  | .illegalType _ _ => False

section Faults

variable {src : List UInt8} {p : Program} {t : Tables} {tok : Token}

/-- The faults of nodes are blamed on their tokens. -/
private theorem Expr.Faulty.blames (hp : parse src = .ok p)
    (ht : t.Conforms p.block.declarations) {n : Expr} {f : Fault}
    (hn : p.WorksOut t.values n) (h : n.Faulty t.values f) :
    f.cause.Blames (scan src).tokens p t n.tok := by
  have hlegible := (hn.isRead hp ht).1
  cases h with
  | unassigned hget => exact ⟨hlegible.1, rfl, hget, hn⟩
  | sign hway => exact ⟨hlegible.1, rfl, _, hn, hway⟩
  | operand hl hr hway =>
      exact ⟨hlegible.1, rfl, _, _, hn,
        hway.imp (fun hkind => ⟨_, hl, hkind⟩) fun hkind => ⟨_, hr, hkind⟩⟩
  | zero hop _ _ hr hzero => exact ⟨hop, hn, _, _, _, rfl, hr, hzero⟩

/-- **What the faults of deeds are blamed on.** -/
theorem Deed.Blamed.blames (hp : parse src = .ok p)
    (ht : t.Conforms p.block.declarations) {d : Deed} {cause : Cause}
    (hd : d ∈ p.deeds) (h : d.Blamed t tok cause) :
    tok ∈ (scan src).tokens ∧ cause.Blames (scan src).tokens p t tok := by
  have hwritten := (Program.writtenIn_of_parse hp).deeds d hd
  cases h with
  | undeclared hnone => exact ⟨hwritten.1.1, hwritten.1.2, rfl, hnone, _, hd⟩
  | assigned hway => exact ⟨hwritten.1.1, hwritten.1.2, rfl, _, hd, hway⟩
  | illegal hdecl htype =>
      -- The types in the tables are those of declarations, and these are types
      -- of the language.
      obtain ⟨v, hfirst, rfl⟩ := ht.types _ _ hdecl
      have hlegible := (Program.legible_of_parse hp).block.declarations _
        (List.mem_of_find?_eq_some hfirst)
      rw [hlegible.2] at htype
      cases htype
  | node he hn hf =>
      have hworks : p.WorksOut t.values _ := ⟨_, _, ⟨d, hd, he⟩, hn⟩
      exact ⟨(hworks.isRead hp ht).2, hf.blames hp ht hworks⟩
  | truth hc hv hkind =>
      have hask : p.Asks t.values _ .truth := ⟨d, hd, hc⟩
      have hbegins := (hask.isRead hp ht).written.beginsWith
      exact ⟨hbegins.mem, hbegins, hask, _, hv, rfl, hkind⟩
  | number he hway =>
      have hask : p.Asks t.values _ .number := ⟨d, hd, he⟩
      have hbegins := (hask.isRead hp ht).written.beginsWith
      exact ⟨hbegins.mem, hbegins, hask, hway, rfl⟩

/--
**Where faults stand.** If a program that was read ends with a fault, on empty
tables and any host, then the fault has the position of a token of the source,
with a line and a column that are counted from one. The token is what the cause
is about: a name with the name of the fault where a variable is undeclared or
unassigned or a declaration is one too many, the operator of a division by zero,
the target that a waypoint is assigned to, the operator one of whose operands is
a waypoint, and otherwise the leftmost token, parentheses aside, of the
condition, the duration, the distance or the speed whose value is of the wrong
kind. These are expressions that the program works out, be it in its statements
or in the declarations of its waypoints.
-/
theorem interpret_fault_places (hp : parse src = .ok p) {σ ε : Type}
    (h : Host σ ε) (passes : Nat) (s : σ) {f : Fault}
    (hf : (Run.interpret h passes p).outcome ⟨.empty, s⟩ = .error (.fault f)) :
    ∃ tok ∈ (scan src).tokens, f.pos = tok.pos ∧ 0 < f.pos.line ∧
      0 < f.pos.column ∧
      f.cause.Blames (scan src).tokens p
        ((Run.interpret h passes p).after ⟨.empty, s⟩).tables tok := by
  have ht := interpret_conforms h passes p ⟨.empty, s⟩ (Tables.conforms_empty _)
  suffices hplace : ∃ tok ∈ (scan src).tokens, f.pos = tok.pos ∧
    f.cause.Blames (scan src).tokens p
      ((Run.interpret h passes p).after ⟨.empty, s⟩).tables tok by
    obtain ⟨tok, hmem, hpos, hblames⟩ := hplace
    obtain ⟨-, -, -, hfailure, -⟩ := parse_sound hp
    obtain ⟨hline, hcolumn⟩ := Token.counted_of_scan hfailure hmem
    rw [← hpos] at hline hcolumn
    exact ⟨tok, hmem, hpos, hline, hcolumn, hblames⟩
  rcases fault_of_interpret hf with
    ⟨before, d, behind, hds, hbefore, rfl⟩ | ⟨d, hd, hfails⟩
  · have hd : d ∈ p.block.declarations :=
      hds ▸ List.mem_append_right _ (List.mem_cons_self ..)
    have hlegible := (Program.legible_of_parse hp).block.declarations d hd
    exact ⟨d.tok,
      (Program.writtenIn_of_parse hp).declarations.subset
        (List.mem_map_of_mem hd), rfl, hlegible.isName.1, rfl, before, d,
      behind, hds, rfl, hbefore⟩
  · obtain ⟨tok, hpos, hblamed⟩ := hfails.blamed
    obtain ⟨hmem, hblames⟩ := hblamed.blames hp ht hd
    exact ⟨tok, hmem, hpos, hblames⟩

end Faults

/-- A program that moves to a waypoint whose distance is another waypoint, in
parentheses. -/
def movesThrough : List UInt8 :=
  asciiBytes "PROGRAM p; WAYPOINT a := 1, 2; b := (a), 3; BEGIN MOVETO b END."

/-- The position of the fault that a run ends with. -/
def faultPlace? {ε α : Type} : Except (Halt ε) α → Option Pos
  | .error (.fault f) => some f.pos
  | _ => none

private theorem exists_of_faultPlace? {ε α : Type} {r : Except (Halt ε) α}
    {pos : Pos} (h : faultPlace? r = some pos) :
    ∃ f, r = .error (.fault f) ∧ f.pos = pos := by
  unfold faultPlace? at h
  split at h
  · exact ⟨_, rfl, Option.some.inj h⟩
  · cases h

theorem interpret_fault_places_movesThrough : ∃ p f,
    parse movesThrough = .ok p ∧
    (Run.interpret .willing 1 p).outcome ⟨.empty, ()⟩ = .error (.fault f) ∧
    f.pos = ⟨1, 38⟩ ∧
    ∃ tok ∈ (scan movesThrough).tokens, f.pos = tok.pos ∧ 0 < f.pos.line ∧
      0 < f.pos.column ∧
      f.cause.Blames (scan movesThrough).tokens p
        ((Run.interpret .willing 1 p).after ⟨.empty, ()⟩).tables tok := by
  have hread : (parse movesThrough).toOption.any
        (fun p =>
          decide (faultPlace?
              ((Run.interpret .willing 1 p).outcome ⟨.empty, ()⟩) =
            some ⟨1, 38⟩)) = true := by
    decide +kernel
  obtain ⟨p, hp, hplace⟩ := exists_of_any hread
  obtain ⟨f, hf, hpos⟩ := exists_of_faultPlace? (of_decide_eq_true hplace)
  exact ⟨p, f, hp, hf, hpos, interpret_fault_places hp .willing 1 () hf⟩

end Fixture
