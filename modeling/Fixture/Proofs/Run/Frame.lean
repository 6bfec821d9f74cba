import Fixture.Proofs.Declared
/-!
# What statements leave alone

A statement can do nothing to the tables but bind variables, and no other
variables than those that it assigns to. That holds of everything inside it, of
every pass of its loops and however it ends. The declared types and the pins are
what they were, and no name loses its value. What is bound was coerced to a
declared type, so it is no waypoint.

Statements that contain no others are atomic on top of that: they have their
effect on the tables at their very end, so one that fails has none.

## Main results

* `Tables.Framed.bound`: an assignment stays within the frame.
* `Run.exec_framed`: so does every statement.
* `Run.exec_atomic`: statements that contain no others do nothing to the tables
  if they fail.
* `visit_frame`: what statements leave alone.
-/

namespace Fixture

/-! ## Frames -/

/-- The name that a deed assigns to. -/
def Deed.target? : Deed → Option String
  | .assign target _ => some target.literal
  | _ => none

/-- The names that a statement assigns to, the statements inside it included. -/
def Stmt.targets (s : Stmt) : List String := s.deeds.filterMap Deed.target?

/-- Tables `t'` that differ from `t` in what some variables are bound to, and in
nothing else. -/
structure Tables.Framed (names : List String) (t t' : Tables) : Prop where
  types : t'.types = t.types
  pins : t'.pins = t.pins
  values : ∀ name, t'.values.get? name = t.values.get? name ∨
    name ∈ names ∧ (t.types.get? name).isSome = true ∧
    ∃ v, t'.values.get? name = some v ∧ v.kind ≠ .waypoint

namespace Tables.Framed

variable {names : List String} {t t' : Tables}

private theorem refl (names : List String) (t : Tables) : Framed names t t :=
  ⟨rfl, rfl, fun _ => .inl rfl⟩

/-- **An assignment stays within the frame** of the names that it may assign
to. -/
theorem bound {σ : Type} {w : World σ} (h : Framed names t w.tables)
    {target : Token} {declared : Kind} {v v' : Value}
    (hname : target.literal ∈ names)
    (hdecl : w.tables.types.get? target.literal = some declared)
    (hv : v.coerce declared target = .ok v') :
    Framed names t (w.bound target.literal v').tables := by
  refine ⟨h.types, h.pins, fun name => ?_⟩
  rw [show (w.bound target.literal v').tables.values =
    w.tables.values.set target.literal v' from rfl, Table.get?_set]
  by_cases htarget : name = target.literal
  · right
    rw [if_pos htarget, htarget, ← h.types, hdecl]
    have hkind := Value.kind_of_coerce hv
    exact ⟨hname, rfl, v', rfl,
      fun hway => Kind.valueKind?_ne declared (hway ▸ hkind)⟩
  · rw [if_neg htarget]
    exact h.values name

/-- Within a frame no name loses its value. -/
private theorem isSome (h : Framed names t t') {name : String}
    (hname : (t.values.get? name).isSome = true) :
    (t'.values.get? name).isSome = true := by
  rcases h.values name with hsame | ⟨-, -, v, hv, -⟩
  · rwa [hsame]
  · rw [hv]
    rfl

end Tables.Framed

namespace Run

variable {σ ε α β : Type}

/-! ## Statements and their frames -/

/-- **Statements stay within the frame** of the names that they assign to. -/
theorem exec_framed (h : Host σ ε) (passes : Nat) (s : Stmt) (w : World σ) :
    Tables.Framed s.targets w.tables ((exec h passes s).after w).tables := by
  let legal : Deed → Prop := fun d => ∀ name ∈ d.target?, name ∈ s.targets
  have hrespects := h.respects_tables (Tables.Framed s.targets w.tables)
  have hassign : ∀ target value, legal (.assign target value) →
      Keeps (fun w' => Tables.Framed s.targets w.tables w'.tables)
        (assign h target value) := by
    intro target value hlegal
    apply assign_keeps hrespects target
    intro w' declared v v' hw' hdecl hv
    exact hw'.bound (hlegal _ rfl) hdecl hv
  have hdeeds : ∀ d ∈ s.deeds, legal d :=
    fun d hd name hname => List.mem_filterMap.2 ⟨d, hd, hname⟩
  exact (composes_keeps legal hrespects hassign passes).exec s hdeeds w
    (.refl _ _)

/-! ## Statements that contain no others -/

/-- An action that does nothing to the tables if it fails. -/
def Atomic (x : Run σ ε α) : Prop :=
  ∀ w halt, x.outcome w = .error halt → (x.after w).tables = w.tables

/-- What never does anything to the tables does nothing if it fails. -/
private theorem atomic_of_keeps {x : Run σ ε α}
    (hx : ∀ t, Keeps (fun w => w.tables = t) x) : Atomic x :=
  fun w _ _ => hx w.tables w rfl

/-- Telling the host before, and giving a result after, makes no difference. -/
private theorem Atomic.announced {x : Run σ ε α} (hx : Atomic x) (h : Host σ ε)
    (n : Note) (f : α → β) :
    Atomic (tell h n >>= fun _ => x >>= fun a => pure (f a)) := by
  intro w halt hfail
  have htell := run_tell h n w
  rw [outcome, run_bind_ok htell] at hfail
  rw [after, run_bind_ok htell]
  cases hres : x.run (w.told h n) with
  | ok a w' =>
      rw [run_bind_ok hres] at hfail
      cases hfail
  | error e w' =>
      rw [run_bind_error hres]
      have htables := hx (w.told h n) e (outcome_error hres)
      rwa [after_error hres] at htables

/-- An assignment binds nothing before its value is there and coerced. -/
private theorem assign_atomic (h : Host σ ε) (target : Token) (value : Expr) :
    Atomic (assign h target value) := by
  intro w halt hfail
  cases hdecl : w.tables.types.get? target.literal with
  | none => rw [after_error (run_assign_undeclared hdecl value)]
  | some declared =>
      rw [outcome, run_assign hdecl] at hfail
      rw [after, run_assign hdecl]
      cases hv : value.eval w.tables.values with
      | error e =>
          rw [run_ofEval_error]
          rfl
      | ok v =>
          rw [hv, run_ofEval_ok] at hfail
          rw [run_ofEval_ok]
          cases hv' : v.coerce declared target with
          | error e =>
              rw [run_ofEval_error]
              rfl
          | ok v' =>
              rw [hv', run_ofEval_ok] at hfail
              cases hfail

end Run

/-- The statements that do something and contain no others. -/
def Stmt.isSimple : Stmt → Bool
  | .assign _ _ _ | .wait _ _ | .move _ _ _ _ | .home _ | .stop _ => true
  | _ => false

namespace Run

variable {σ ε : Type}

/-- **Statements that contain no others do nothing to the tables if they
fail.** -/
theorem exec_atomic (h : Host σ ε) (passes : Nat) {s : Stmt}
    (hs : s.isSimple = true) : Atomic (exec h passes s) := by
  cases s with
  | assign tok target value =>
      exact (assign_atomic h target value).announced h _ fun _ => none
  | wait tok d =>
      exact (atomic_of_keeps fun t =>
        wait_keeps (h.respects_tables (· = t)) d).announced h _ some
  | move tok axis d speed =>
      exact (atomic_of_keeps fun t =>
        move_keeps (h.respects_tables (· = t)) axis d speed).announced h _
        fun _ => none
  | home tok =>
      exact (atomic_of_keeps fun t =>
        perform_keeps (h.respects_tables (· = t)) .home).announced h _ fun _ =>
          none
  | stop tok =>
      exact (atomic_of_keeps fun t =>
        perform_keeps (h.respects_tables (· = t)) .stop).announced h _ fun _ =>
          none
  | skip | compound | ifThen | ifElse | loop => cases hs

end Run

/--
**What statements leave alone.** However a statement ends, on whatever host and
tables: the declared types and the pins are what they were; every name that had
a value has one; and where a name has another value, it is one that the
statement assigns to, it is declared as a variable, and the value is no
waypoint. If an assignment, a wait, a move or one of the statements `HOME` and
`STOP` fails, all tables are what they were.
-/
theorem visit_frame {σ ε : Type} (h : Host σ ε) (passes : Nat) (s : Stmt)
    (w : World σ) :
    let visit := Run.visit h passes (.statement s)
    let t := w.tables
    let t' := (visit.after w).tables
    t'.types = t.types ∧ t'.pins = t.pins ∧
    (∀ name, (t.values.get? name).isSome = true →
      (t'.values.get? name).isSome = true) ∧
    (∀ name, t'.values.get? name ≠ t.values.get? name →
      name ∈ s.targets ∧ (t.types.get? name).isSome = true ∧
        ∃ v, t'.values.get? name = some v ∧ v.kind ≠ .waypoint) ∧
    (s.isSimple = true → ∀ halt, visit.outcome w = .error halt → t' = t) := by
  intro visit t t'
  have hframed : Tables.Framed s.targets t t' := Run.exec_framed h passes s w
  refine ⟨hframed.types, hframed.pins, fun name => hframed.isSome,
    fun name hne => ?_, fun hs halt hfail => ?_⟩
  · exact (hframed.values name).resolve_left hne
  · exact Run.exec_atomic h passes hs w halt hfail

end Fixture
