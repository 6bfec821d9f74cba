import Fixture.Machine
import Fixture.Proofs.Run.Invariant
/-!
# What names are bound to

The sections of a program share one namespace, and the first declaration of a
name says what the name is for good: a variable only ever holds values of its
declared type, a waypoint only ever the pair it was declared with, and a pin
nothing at all. Tables that are like that conform to the declarations.

A second declaration of a name ends the run before it is entered, so entering
declarations leads from tables that conform to tables that conform. Assignments
only reach variables, and bind what was coerced to the declared type. So tables
conform after every run, however it ended, and after whatever is executed later
on.

## Main results

* `enterAll_conforms`, `bound_conforms`: declarations and assignments keep
  tables that conform.
* `interpret_conforms`, `exec_conforms`: so do programs and statements.
* `bound_as_declared`: what names are bound to, in every state that can be
  reached.
-/

namespace Fixture

/-! ## Declarations and tables -/

/-- The kind of the values of a declared type. -/
def Kind.valueKind? : Kind → Option ValueKind
  | .tyInteger => some .integer
  | .tyReal => some .real
  | .tyBool => some .boolean
  | _ => none

/-- The declaration of a name that counts: the first. -/
def Declaration.first? (ds : List Declaration) (name : String) :
    Option Declaration :=
  ds.find? (·.name == name)

/-- Tables in which names are what their declarations say. -/
structure Tables.Conforms (ds : List Declaration) (t : Tables) : Prop where
  types : ∀ name type, t.types.get? name = some type →
    ∃ d, Declaration.first? ds name = some (.variable d) ∧ d.type = type
  pins : ∀ name pin, t.pins.get? name = some pin →
    ∃ d, Declaration.first? ds name = some (.pin d) ∧ pin = ⟨d.direction, d.pin⟩
  values : ∀ name v, t.values.get? name = some v →
    (∃ d, Declaration.first? ds name = some (.waypoint d) ∧
      v = .waypoint d.distance d.speed) ∨
    ∃ d, Declaration.first? ds name = some (.variable d) ∧
      d.type.valueKind? = some v.kind

/-- The types that have values. -/
theorem Kind.valueKind?_cases {k : Kind} {found : ValueKind}
    (h : k.valueKind? = some found) :
    k = .tyInteger ∧ found = .integer ∨ k = .tyReal ∧ found = .real ∨
    k = .tyBool ∧ found = .boolean := by
  cases k with
  | tyInteger => exact .inl ⟨rfl, (Option.some.inj h).symm⟩
  | tyReal => exact .inr (.inl ⟨rfl, (Option.some.inj h).symm⟩)
  | tyBool => exact .inr (.inr ⟨rfl, (Option.some.inj h).symm⟩)
  | _ => cases h

/-- No type has waypoints for values. -/
theorem Kind.valueKind?_ne (k : Kind) : k.valueKind? ≠ some .waypoint := by
  intro h
  rcases Kind.valueKind?_cases h with ⟨-, hbad⟩ | ⟨-, hbad⟩ | ⟨-, hbad⟩ <;>
    cases hbad

/-- What was coerced to a type is of that type. -/
theorem Value.kind_of_coerce {declared : Kind} {target : Token} {v v' : Value}
    (h : v.coerce declared target = .ok v') :
    declared.valueKind? = some v'.kind := by
  unfold Value.coerce at h
  cases hx : v.toFloat? with
  | none =>
      rw [hx] at h
      cases h
  | some x =>
      rw [hx] at h
      cases declared with
      | tyInteger =>
          cases hn : v.toInteger? with
          | none =>
              simp only [hn] at h
              cases h
              rfl
          | some n =>
              simp only [hn] at h
              cases h
              rfl
      | tyReal =>
          cases h
          rfl
      | tyBool =>
          cases h
          rfl
      | _ => cases h

namespace Declaration

/-- A name that no declaration before has taken is declared here. -/
private theorem first?_of_not_taken {before after : List Declaration}
    {d : Declaration} (h : ∀ d' ∈ before, d'.name ≠ d.name) :
    first? (before ++ d :: after) d.name = some d := by
  unfold first?
  have hnone : before.find? (·.name == d.name) = none := by
    rw [List.find?_eq_none]
    intro d' hmem heq
    exact h d' hmem (beq_iff_eq.1 heq)
  rw [List.find?_append, hnone, Option.none_or]
  exact List.find?_cons_of_pos (p := fun d' : Declaration => d'.name == d.name)
    (beq_self_eq_true d.name)

/-- Entering the declaration of a name that counts. -/
private theorem enter_conforms {ds : List Declaration} {t : Tables}
    (h : t.Conforms ds) :
    ∀ d : Declaration, first? ds d.name = some d → (d.enter t).Conforms ds
  | .variable d, hd => by
      refine ⟨fun name type hget => ?_, h.pins, h.values⟩
      rw [show (enter t (.variable d)).types = t.types.set d.name d.type
        from rfl, Table.get?_set] at hget
      by_cases hname : name = d.name
      · rw [if_pos hname] at hget
        exact ⟨d, hname ▸ hd, Option.some.inj hget⟩
      · rw [if_neg hname] at hget
        exact h.types name type hget
  | .pin d, hd => by
      refine ⟨h.types, fun name pin hget => ?_, h.values⟩
      rw [show (enter t (.pin d)).pins = t.pins.set d.name ⟨d.direction, d.pin⟩
        from rfl, Table.get?_set] at hget
      by_cases hname : name = d.name
      · rw [if_pos hname] at hget
        exact ⟨d, hname ▸ hd, (Option.some.inj hget).symm⟩
      · rw [if_neg hname] at hget
        exact h.pins name pin hget
  | .waypoint d, hd => by
      refine ⟨h.types, h.pins, fun name v hget => ?_⟩
      rw [show (enter t (.waypoint d)).values =
        t.values.set d.name (.waypoint d.distance d.speed) from rfl,
        Table.get?_set] at hget
      by_cases hname : name = d.name
      · rw [if_pos hname] at hget
        exact .inl ⟨d, hname ▸ hd, (Option.some.inj hget).symm⟩
      · rw [if_neg hname] at hget
        exact h.values name v hget

/-- **Declarations keep tables that conform,** also where a name that is taken
ends them half-way. -/
theorem enterAll_conforms {ds : List Declaration} (after : List Declaration) :
    ∀ (before : List Declaration) (taken : List String) (t : Tables),
      ds = before ++ after → (∀ d ∈ before, d.name ∈ taken) → t.Conforms ds →
      (enterAll taken t after).1.Conforms ds := by
  induction after with
  | nil => exact fun _ _ _ _ _ h => h
  | cons d after ih =>
      intro before taken t hds htaken h
      rw [enterAll]
      by_cases hdup : d.name ∈ taken
      · rw [if_pos hdup]
        exact h
      · rw [if_neg hdup]
        have hfirst : first? ds d.name = some d := by
          rw [hds]
          apply first?_of_not_taken
          intro d' hmem heq
          exact hdup (heq ▸ htaken d' hmem)
        apply ih (before ++ [d]) (d.name :: taken) (d.enter t)
        · rw [hds, List.append_assoc, List.singleton_append]
        · intro d' hmem
          rcases List.mem_append.1 hmem with hmem | hmem
          · exact List.mem_cons_of_mem _ (htaken d' hmem)
          · rw [List.mem_singleton.1 hmem]
            exact List.mem_cons_self
        · exact enter_conforms h d hfirst

end Declaration

namespace Tables

/-- A name that is bound to a waypoint is declared as one. -/
private theorem Conforms.first?_of_waypoint {ds : List Declaration} {t : Tables}
    (h : t.Conforms ds) {name : String} {d s : Expr}
    (hget : t.values.get? name = some (.waypoint d s)) :
    ∃ w, Declaration.first? ds name = some (.waypoint w) := by
  rcases h.values name _ hget with ⟨w, hfirst, -⟩ | ⟨v, -, hkind⟩
  · exact ⟨w, hfirst⟩
  · exact absurd hkind (Kind.valueKind?_ne _)

theorem conforms_empty (ds : List Declaration) : empty.Conforms ds :=
  ⟨fun _ _ h => (nomatch h), fun _ _ h => (nomatch h), fun _ _ h => (nomatch h)⟩

end Tables

/-! ## Runs -/

section Runs

open Run

variable {σ ε : Type} {ds : List Declaration}

/-- **Assignments keep tables that conform.** -/
theorem bound_conforms {w : World σ} {target : Token} {declared : Kind}
    {v v' : Value} (h : w.tables.Conforms ds)
    (hdecl : w.tables.types.get? target.literal = some declared)
    (hv : v.coerce declared target = .ok v') :
    (w.bound target.literal v').tables.Conforms ds := by
  obtain ⟨d, hfirst, rfl⟩ := h.types _ _ hdecl
  refine ⟨h.types, h.pins, fun name u hget => ?_⟩
  rw [show (w.bound target.literal v').tables.values =
    w.tables.values.set target.literal v' from rfl, Table.get?_set] at hget
  by_cases hname : name = target.literal
  · rw [if_pos hname] at hget
    obtain rfl : v' = u := Option.some.inj hget
    exact .inr ⟨d, hname ▸ hfirst, Value.kind_of_coerce hv⟩
  · rw [if_neg hname] at hget
    exact h.values name u hget

private theorem assign_conforms (h : Host σ ε) (ds : List Declaration)
    (target : Token) (value : Expr) :
    Keeps (fun w => w.tables.Conforms ds) (assign h target value) :=
  assign_keeps (h.respects_tables (Tables.Conforms ds)) target
    (fun _ _ _ _ hw hdecl hv => bound_conforms hw hdecl hv) value

theorem declared_conforms (b : Block) (w : World σ)
    (hw : w.tables.Conforms b.declarations) :
    (w.declared b).tables.Conforms b.declarations :=
  Declaration.enterAll_conforms b.declarations [] [] w.tables rfl
    (fun _ hd => nomatch hd) hw

/-- **Statements keep tables that conform.** -/
theorem exec_conforms (h : Host σ ε) (passes : Nat) (ds : List Declaration)
    (s : Stmt) : Keeps (fun w => w.tables.Conforms ds) (exec h passes s) :=
  exec_keeps (h.respects_tables (Tables.Conforms ds)) (assign_conforms h ds)
    passes s

/-- **Programs keep tables that conform to them.** -/
theorem interpret_conforms (h : Host σ ε) (passes : Nat) (p : Program) :
    Keeps (fun w => w.tables.Conforms p.block.declarations)
      (interpret h passes p) :=
  interpret_keeps (h.respects_tables (Tables.Conforms _)) (assign_conforms h _)
    (declared_conforms p.block) passes

end Runs

/-! ## Reachable tables -/

/-- The tables that can be reached by running a program on empty tables, on any
host, and by executing statements afterwards, each on a host of its own. -/
inductive Reached (p : Program) : Tables → Prop where
  | fresh : Reached p .empty
  | interpreted {σ ε : Type} (h : Host σ ε) (passes : Nat) (s : σ) :
      Reached p ((Run.interpret h passes p).after ⟨.empty, s⟩).tables
  | executed {σ ε : Type} (h : Host σ ε) (passes : Nat) (s : σ) (stmt : Stmt)
      {t : Tables} (ht : Reached p t) :
      Reached p ((Run.exec h passes stmt).after ⟨t, s⟩).tables

private theorem Reached.conforms {p : Program} {t : Tables} (h : Reached p t) :
    t.Conforms p.block.declarations := by
  induction h with
  | fresh => exact Tables.conforms_empty _
  | interpreted h passes s =>
      exact interpret_conforms h passes p ⟨.empty, s⟩ (Tables.conforms_empty _)
  | executed h passes s stmt _ ih =>
      exact exec_conforms h passes _ stmt ⟨_, s⟩ ih

/--
**Names are bound to what they are declared as.** In whatever way tables are
reached, a name that is bound is a waypoint with the operands of its
declaration, or a variable with a value of its type; pins and names that are not
declared are not bound; and no name is in two of the types, the pins and the
waypoints.
-/
theorem bound_as_declared {p : Program} {t : Tables} (h : Reached p t) :
    (∀ name v, t.values.get? name = some v →
      (∃ d, Declaration.first? p.block.declarations name = some (.waypoint d) ∧
        v = .waypoint d.distance d.speed) ∨
      ∃ d, Declaration.first? p.block.declarations name = some (.variable d) ∧
        (d.type = .tyInteger ∧ v.kind = .integer ∨
          d.type = .tyReal ∧ v.kind = .real ∨
          d.type = .tyBool ∧ v.kind = .boolean)) ∧
    (∀ name,
      Declaration.first? p.block.declarations name = none ∨
      (∃ d, Declaration.first? p.block.declarations name = some (.pin d)) →
      t.values.get? name = none) ∧
    ∀ name, ¬ ((t.types.get? name).isSome ∧ (t.pins.get? name).isSome) ∧
      ¬ ((t.types.get? name).isSome ∧
        ∃ d s, t.values.get? name = some (.waypoint d s)) ∧
      ¬ ((t.pins.get? name).isSome ∧
        ∃ d s, t.values.get? name = some (.waypoint d s)) := by
  have hc := h.conforms
  refine ⟨fun name v hget => ?_, fun name hname => ?_, fun name => ⟨?_, ?_, ?_⟩⟩
  · rcases hc.values name v hget with hway | ⟨d, hfirst, hkind⟩
    · exact .inl hway
    · exact .inr ⟨d, hfirst, Kind.valueKind?_cases hkind⟩
  · cases hget : t.values.get? name with
    | none => rfl
    | some v =>
        -- what is bound is declared, and not as a pin
        rcases hc.values name v hget with ⟨d, hfirst, -⟩ | ⟨d, hfirst, -⟩ <;>
          rcases hname with hname | ⟨d', hname⟩ <;> rw [hfirst] at hname <;>
          cases hname
  · rintro ⟨htype, hpin⟩
    obtain ⟨type, htype⟩ := Option.isSome_iff_exists.1 htype
    obtain ⟨pin, hpin⟩ := Option.isSome_iff_exists.1 hpin
    obtain ⟨d, hfirst, -⟩ := hc.types name type htype
    obtain ⟨d', hfirst', -⟩ := hc.pins name pin hpin
    rw [hfirst] at hfirst'
    cases hfirst'
  · rintro ⟨htype, d, s, hget⟩
    obtain ⟨type, htype⟩ := Option.isSome_iff_exists.1 htype
    obtain ⟨d, hfirst, -⟩ := hc.types name type htype
    obtain ⟨d', hfirst'⟩ := hc.first?_of_waypoint hget
    rw [hfirst] at hfirst'
    cases hfirst'
  · rintro ⟨hpin, d, s, hget⟩
    obtain ⟨pin, hpin⟩ := Option.isSome_iff_exists.1 hpin
    obtain ⟨d, hfirst, -⟩ := hc.pins name pin hpin
    obtain ⟨d', hfirst'⟩ := hc.first?_of_waypoint hget
    rw [hfirst] at hfirst'
    cases hfirst'

/-- A name as a token of its own. -/
def nameToken (name : String) : Token := ⟨.ident, name, ⟨1, 1⟩⟩

/-- A program with a variable, a pin and a waypoint, behind which the name of
the variable is declared again. -/
def twiceDeclared : Program :=
  ⟨nameToken "p", "p", ⟨[⟨nameToken "a", .tyInteger⟩],
    [⟨nameToken "q", .pinIn, 1⟩],
    [⟨nameToken "w", .name (nameToken "a"), .integer (nameToken "2") 2⟩,
      ⟨nameToken "a", .integer (nameToken "1") 1, .integer (nameToken "2") 2⟩],
    nameToken "", []⟩⟩

/-- A host that gives leave and performs calls. -/
def Host.willing : Host Unit Empty :=
  ⟨fun _ _ => (true, ()), fun _ _ _ => (none, ()), fun _ _ => ()⟩

/-- The tables of `twiceDeclared`, and a truth value assigned to its variable
afterwards. -/
def twiceDeclaredTables : Tables :=
  ((Run.exec .willing 1 (.assign (nameToken "a") (nameToken "a")
    (.boolean (nameToken "TRUE") true))).after
    ⟨((Run.interpret .willing 1 twiceDeclared).after ⟨.empty, ()⟩).tables,
      ()⟩).tables

theorem bound_as_declared_twice :
    Reached twiceDeclared twiceDeclaredTables ∧
    twiceDeclaredTables.values.get? "a" = some (.integer 1) ∧
    twiceDeclaredTables.values.get? "q" = none ∧
    ¬ ((twiceDeclaredTables.types.get? "a").isSome ∧
      ∃ d s, twiceDeclaredTables.values.get? "a" = some (.waypoint d s)) :=
  have hreached : Reached twiceDeclared twiceDeclaredTables :=
    .executed _ _ _ _ (.interpreted _ _ _)
  have h := bound_as_declared hreached
  ⟨hreached, rfl, h.2.1 "q" (.inr ⟨_, rfl⟩), (h.2.2 "a").2.1⟩

end Fixture
