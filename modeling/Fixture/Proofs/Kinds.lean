import Fixture.Proofs.Declared
import Fixture.Proofs.Evaluation.Operators
import Fixture.Proofs.Run.History
/-!
# Kinds of expressions

The declarations of a program fix the kind of every expression before it runs:
names have the kind they are declared with, literals their own, and operators
work the kind of the result out from those of the operands. A waypoint is no
operand, so an operation on one has no kind.

An expression that has a value in a run has a value of its kind. That follows
from what tables look like at every moment of the run, `Tables.Conforms`, and
from what each operator does.

## Main results

* `Expr.kind_of_eval`: values have the kinds of their expressions.
* `interpret_kinds`: so they have at every moment of a run.
-/

namespace Fixture

/-- The kind of the values that a declared name can have. A pin has none. -/
def Declaration.valueKind? : Declaration → Option ValueKind
  | .variable d => d.type.valueKind?
  | .pin _ => none
  | .waypoint _ => some .waypoint

/-- The kind of a name, by its first declaration. -/
def Declaration.kindOf (ds : List Declaration) (name : String) :
    Option ValueKind :=
  (first? ds name).bind valueKind?

/-- The kind of an expression, from the kinds of the names. -/
def Expr.kind? (names : String → Option ValueKind) : Expr → Option ValueKind
  | .name t => names t.literal
  | .integer _ _ => some .integer
  | .real _ _ => some .real
  | .boolean _ _ => some .boolean
  | .signed _ e => (e.kind? names).bind ValueKind.signed?
  | .binary op l r =>
    (l.kind? names).bind fun lk =>
      (r.kind? names).bind fun rk => ValueKind.combined? op.kind lk rk

/-! ## Expressions -/

/-- Values that have the kinds of their names. -/
def Table.Kinded (names : String → Option ValueKind) (values : Table Value) :
    Prop :=
  ∀ name v, values.get? name = some v → names name = some v.kind

namespace Expr

theorem eval_signed_eq_ok {values : Table Value} {op : Token} {e : Expr}
    {v : Value} (h : (Expr.signed op e).eval values = .ok v) :
    ∃ u, e.eval values = .ok u ∧ u.withSign op = .ok v := by
  rw [eval] at h
  cases he : e.eval values with
  | error err =>
      rw [he] at h
      cases h
  | ok u =>
      rw [he] at h
      exact ⟨u, rfl, h⟩

theorem eval_binary_eq_ok {values : Table Value} {op : Token} {l r : Expr}
    {v : Value} (h : (Expr.binary op l r).eval values = .ok v) :
    ∃ lv rv, l.eval values = .ok lv ∧ r.eval values = .ok rv ∧
      Value.operation op (.binary op l r) lv rv = .ok v := by
  rw [eval] at h
  cases hr : r.eval values with
  | error err =>
      rw [hr] at h
      cases h
  | ok rv =>
      cases hl : l.eval values with
      | error err =>
          rw [hr, hl] at h
          cases h
      | ok lv =>
          rw [hr, hl] at h
          exact ⟨lv, rv, rfl, rfl, h⟩

theorem lookup_eq_ok {values : Table Value} {t : Token} {v : Value}
    (h : lookup values t = .ok v) : values.get? t.literal = some v := by
  unfold lookup at h
  cases hget : values.get? t.literal with
  | none =>
      rw [hget] at h
      cases h
  | some u =>
      rw [hget] at h
      rw [Except.ok.inj h]

/-- **Values have the kinds of their expressions.** -/
theorem kind_of_eval {names : String → Option ValueKind} {values : Table Value}
    (hk : values.Kinded names) (e : Expr) :
    ∀ v, e.eval values = .ok v → e.kind? names = some v.kind := by
  induction e with
  | name t => exact fun v h => hk _ v (lookup_eq_ok h)
  | integer t n =>
      intro v h
      cases h
      rfl
  | real t x =>
      intro v h
      cases h
      rfl
  | boolean t b =>
      intro v h
      cases h
      rfl
  | signed op e ih =>
      intro v h
      obtain ⟨u, hu, hv⟩ := eval_signed_eq_ok h
      rw [kind?, ih u hu, Option.bind_some, Value.kind_of_withSign hv]
  | binary op l r ihl ihr =>
      intro v h
      obtain ⟨lv, rv, hl, hr, hv⟩ := eval_binary_eq_ok h
      rw [kind?, ihl lv hl, ihr rv hr, Option.bind_some, Option.bind_some,
        Value.kind_of_operation hv]

/-- A condition that has a value is turned down if and only if the value is no
truth value. -/
theorem evalTruth_eq_error_iff {values : Table Value} {c : Expr} {v : Value}
    (h : c.eval values = .ok v) :
    c.evalTruth values =
        .error (.at c.leading (.conditionNotBoolean c v.kind)) ↔
      v.kind ≠ .boolean := by
  unfold evalTruth
  rw [h]
  cases v with
  | boolean b => exact ⟨fun hbad => (nomatch hbad), fun hbad => absurd rfl hbad⟩
  | integer n => exact ⟨fun _ hbad => (nomatch hbad), fun _ => rfl⟩
  | real x => exact ⟨fun _ hbad => (nomatch hbad), fun _ => rfl⟩
  | waypoint d s => exact ⟨fun _ hbad => (nomatch hbad), fun _ => rfl⟩

end Expr

/-! ## Runs -/

section Runs

open Run

variable {σ ε : Type}

/-- Tables that conform to the declarations hold values of the kinds of their
names. -/
private theorem Tables.Conforms.kinded {ds : List Declaration} {t : Tables}
    (h : t.Conforms ds) : t.values.Kinded (Declaration.kindOf ds) := by
  intro name v hget
  unfold Declaration.kindOf
  rcases h.values name v hget with ⟨d, hfirst, rfl⟩ | ⟨d, hfirst, hkind⟩
  · rw [hfirst]
    rfl
  · rw [hfirst]
    exact hkind

/-- Tables conform now, and values had the kinds of their names whenever the
host was shown some. -/
def AlwaysKinded (ds : List Declaration) (w : World (History σ)) : Prop :=
  w.tables.Conforms ds ∧
  ∀ values ∈ w.host.shown, values.Kinded (Declaration.kindOf ds)

private theorem respects_alwaysKinded (h : Host σ ε) (ds : List Declaration) :
    h.watched.Respects (AlwaysKinded ds) := by
  have hmore : ∀ {t : Tables} {shown more : List (Table Value)},
      t.Conforms ds →
      (∀ values ∈ shown, values.Kinded (Declaration.kindOf ds)) →
      (∀ values ∈ more, values = t.values) →
      ∀ values ∈ shown ++ more, values.Kinded (Declaration.kindOf ds) := by
    intro t shown more ht hshown hmore values hmem
    rcases List.mem_append.1 hmem with hmem | hmem
    · exact hshown values hmem
    · rw [hmore values hmem]
      exact ht.kinded
  refine ⟨fun w hw => ⟨hw.1, ?_⟩, fun c w hw => ⟨hw.1, ?_⟩,
    fun n w hn hw => ⟨hw.1, ?_⟩⟩
  · exact hmore hw.1 hw.2 fun values hmem => List.mem_singleton.1 hmem
  · exact hmore hw.1 hw.2 fun values hmem => List.mem_singleton.1 hmem
  · exact hmore hw.1 hw.2 fun values hmem =>
      hn values (Option.mem_toList.1 hmem)

private theorem interpret_alwaysKinded (h : Host σ ε) (passes : Nat)
    (p : Program) :
    Keeps (AlwaysKinded p.block.declarations) (interpret h.watched passes p) :=
  interpret_keeps (respects_alwaysKinded h _)
    (fun target value => assign_keeps (respects_alwaysKinded h _) target
      (fun _ _ _ _ hw hdecl hv => ⟨bound_conforms hw.1 hdecl hv, hw.2⟩) value)
    (fun w hw => ⟨declared_conforms p.block w hw.1, hw.2⟩) passes

/--
**Kinds are sound.** Let a program run on empty tables and any host. Over the
values at any moment of the run, and at its end, an expression that has a value
has one of its kind; and as a condition it is turned down, for not being a truth
value, if and only if that is not its kind.
-/
theorem interpret_kinds (h : Host σ ε) (passes : Nat) (p : Program) (s : σ) :
    let start : World σ := ⟨.empty, s⟩
    let names := Declaration.kindOf p.block.declarations
    ∀ values,
      values ∈ (history h passes p start).shown ∨
      values = ((interpret h passes p).after start).tables.values →
      ∀ (e : Expr) (v : Value), e.eval values = .ok v →
        e.kind? names = some v.kind ∧
        (e.evalTruth values =
            .error (.at e.leading (.conditionNotBoolean e v.kind)) ↔
          e.kind? names ≠ some .boolean) := by
  intro start names values hvalues e v hv
  have hstart : AlwaysKinded p.block.declarations
      ⟨start.tables, .start start.host⟩ :=
    ⟨Tables.conforms_empty _, fun _ hmem => (nomatch hmem)⟩
  have hend := interpret_alwaysKinded h passes p _ hstart
  have hkinded : values.Kinded names := by
    rcases hvalues with hshown | hlast
    · exact hend.2 values hshown
    · rw [hlast, ← (interpret_watched h passes p start).2.1]
      exact hend.1.kinded
  have hkind := e.kind_of_eval hkinded v hv
  refine ⟨hkind, ?_⟩
  rw [Expr.evalTruth_eq_error_iff hv, hkind, ne_eq, ne_eq, Option.some.injEq]

/-- A program that assigns a truth value to a whole number. -/
def countsTruth : Program :=
  ⟨nameToken "p", "p", ⟨[⟨nameToken "a", .tyInteger⟩], [], [], nameToken "",
    [.assign (nameToken "a") (nameToken "a")
      (.boolean (nameToken "TRUE") true)]⟩⟩

/-- Half of the number. -/
def halfCount : Expr :=
  .binary ⟨.floatDiv, "/", ⟨1, 1⟩⟩ (.name (nameToken "a"))
    (.integer (nameToken "2") 2)

theorem interpret_kinds_half :
    let values :=
      ((interpret .willing 1 countsTruth).after ⟨.empty, ()⟩).tables.values
    ∃ v, halfCount.eval values = .ok v ∧
      halfCount.kind? (Declaration.kindOf countsTruth.block.declarations) =
        some v.kind ∧
      (halfCount.evalTruth values =
          .error
            (.at halfCount.leading (.conditionNotBoolean halfCount v.kind)) ↔
        halfCount.kind? (Declaration.kindOf countsTruth.block.declarations) ≠
          some .boolean) :=
  have heval : ∃ v,
      halfCount.eval ((interpret .willing 1 countsTruth).after
          ⟨.empty, ()⟩).tables.values = .ok v :=
    ⟨_, rfl⟩
  heval.elim fun v hv => ⟨v, hv,
    interpret_kinds .willing 1 countsTruth () _ (.inr rfl) halfCount v hv⟩

end Runs

end Fixture
