import Fixture.Proofs.NormalForm
import Fixture.Proofs.RoundTrip
import Fixture.Proofs.Run.Unplaced
/-!
# Printed programs run the same

What printing does to a program does not show when it runs. Places are
forgotten, inner lists are spliced into the lists around them, and empty
statements come and go. So a program is run beside its normal form without
places, from tables without places: the calls are the same, tables and faults
are the same without places. A program and the one that is read from its print
have one normal form up to places, and both run beside it.

With leave for ever the checks of a run do not matter, and neither does what is
noted. That is what makes the two runs comparable: they do not make the same
checks.

## Main results

* `exec_unplacing`, `interpret_unplacing`: statements and programs beside their
  normal forms without places.
* `interpret_reread`: a program and what is read from its print.
-/

namespace Fixture

open Run Pairing

variable {μ ε α β γ : Type}

/-! ## What does not matter -/

/-- Any number of checks belongs to any other. -/
def anyChecks (_ _ : Nat) : Prop := True

private theorem counted_anyChecks : Machine.Counted none anyChecks :=
  fun _ _ _ => ⟨rfl, trivial⟩

namespace Beside

variable {x : Run (Rig μ) ε α} {y : Run (Rig μ) ε β}

/-- A value that nothing depends on may be given in the end. -/
private theorem bind_pure_left (h : Beside anyChecks x y) (c : γ) :
    Beside anyChecks (x >>= fun _ => Pure.pure c) y := by
  have hend := h.bind fun _ b => pure c b
  rwa [bind_pure] at hend

private theorem bind_pure_right (h : Beside anyChecks x y) (c : γ) :
    Beside anyChecks x (y >>= fun _ => Pure.pure c) := by
  have hend := h.bind fun a _ => pure a c
  rwa [bind_pure] at hend

end Beside

section Silent

variable (m : Machine μ ε) {values : α → β → Prop} {x : Run (Rig μ) ε α}
    {y : Run (Rig μ) ε β}

/-- With leave for ever, a check does nothing but count. -/
private theorem run_guarded (x z : Run (Rig μ) ε α) (w : World (Rig μ)) :
    (leave (m.host none) >>= fun granted => if granted then x else z).run w =
      x.run (w.checked (m.host none)) :=
  run_bind_ok (run_leave (m.host none) w) _

private theorem pairs_tell_left (n : Note)
    (h : (unplacing anyChecks μ ε).Pairs values x y) :
    (unplacing anyChecks μ ε).Pairs values (tell (m.host none) n >>= fun _ => x)
      y :=
  Pairs.of_run fun w₁ w₂ hw =>
    ⟨x, w₁.told (m.host none) n, y, w₂, rfl, rfl, hw, h⟩

private theorem pairs_guarded_left (z : Run (Rig μ) ε α)
    (h : (unplacing anyChecks μ ε).Pairs values x y) :
    (unplacing anyChecks μ ε).Pairs values
      (leave (m.host none) >>= fun granted => if granted then x else z) y :=
  Pairs.of_run fun w₁ w₂ hw =>
    ⟨x, w₁.checked (m.host none), y, w₂, run_guarded m x z w₁, rfl, hw, h⟩

private theorem pairs_guarded_right (z : Run (Rig μ) ε β)
    (h : (unplacing anyChecks μ ε).Pairs values x y) :
    (unplacing anyChecks μ ε).Pairs values x
      (leave (m.host none) >>= fun granted => if granted then y else z) :=
  Pairs.of_run fun w₁ w₂ hw =>
    ⟨x, w₁, y, w₂.checked (m.host none), rfl, run_guarded m y z w₂, hw, h⟩

end Silent

/-! ## Statements -/

section Statements

variable (m : Machine μ ε) (passes : Nat)

/-- Statements in a row are those in front, then the others. -/
private theorem execAll_append {σ : Type} (h : Host σ ε) (ss ss' : List Stmt) :
    execAll h passes (ss ++ ss') =
      execAll h passes ss >>= fun _ => execAll h passes ss' := by
  induction ss with
  | nil => rw [List.nil_append, execAll, pure_bind]
  | cons s ss ih =>
      rw [List.cons_append, execAll, execAll, bind_assoc]
      refine bind_congr fun granted => ?_
      cases granted with
      | false => rfl
      | true =>
          show (discard (exec h passes s) >>= fun _ =>
            execAll h passes (ss ++ ss')) =
            (discard (exec h passes s) >>= fun _ => execAll h passes ss) >>=
              fun _ => execAll h passes ss'
          rw [bind_assoc, ih]

/-- A statement by itself, as a list. -/
private theorem beside_singleton {s s' : Stmt}
    (h : Beside anyChecks (exec (m.host none) passes s)
      (exec (m.host none) passes s')) :
    Beside anyChecks (exec (m.host none) passes s)
      (execAll (m.host none) passes [s']) := by
  rw [execAll]
  exact pairs_guarded_right m _ ((h.bind_pure_right ()).bind_pure_right ())

mutual

/-- **Statements run beside their normal forms without places.** -/
theorem exec_unplacing : ∀ s : Stmt,
    Beside anyChecks (exec (m.host none) passes s)
      (execAll (m.host none) passes (unplacedEach s.normal))
  | .skip => pairs_tell_left m _ (Beside.pure none ())
  | .compound _ body =>
      pairs_tell_left m _ ((execAll_unplacing body).bind_pure_left none)
  | .ifThen _ c _ body =>
      beside_singleton m passes <|
        exec_ifThen_beside m passes (execAll_unplacing body) _ _ _ _ c
  | .ifElse _ c _ body _ alt =>
      beside_singleton m passes <|
        exec_ifElse_beside m passes (execAll_unplacing body)
          (execAll_unplacing alt) _ _ _ _ _ _ c
  | .loop _ _ body c =>
      beside_singleton m passes <|
        exec_loop_beside m counted_anyChecks passes (execAll_unplacing body)
          _ _ _ _ c
  -- The others are their own normal forms.
  | .assign t target value =>
      beside_singleton m passes <|
        exec_unplaced m counted_anyChecks passes (.assign t target value)
  | .wait t d =>
      beside_singleton m passes <|
        exec_unplaced m counted_anyChecks passes (.wait t d)
  | .move t axis d s =>
      beside_singleton m passes <|
        exec_unplaced m counted_anyChecks passes (.move t axis d s)
  | .home t =>
      beside_singleton m passes <|
        exec_unplaced m counted_anyChecks passes (.home t)
  | .stop t =>
      beside_singleton m passes <|
        exec_unplaced m counted_anyChecks passes (.stop t)

/-- **Statements in a row run beside their normal forms without places.** -/
theorem execAll_unplacing : ∀ ss : List Stmt,
    Beside anyChecks (execAll (m.host none) passes ss)
      (execAll (m.host none) passes (unplacedEach (normalEach ss)))
  | [] => Beside.pure () ()
  | s :: ss => by
      rw [normalEach, unplacedEach_append, execAll_append, execAll]
      refine pairs_guarded_left m _ ?_
      exact ((exec_unplacing s).bind_pure_left ()).bind fun _ _ =>
        execAll_unplacing ss

end

/-- **Programs run beside their normal forms without places.** -/
theorem interpret_unplacing (p : Program) :
    Beside anyChecks (interpret (m.host none) passes p)
      (interpret (m.host none) passes p.normal.unplaced) :=
  interpret_beside m none passes (declare_beside p.normal.block)
    (execAll_unplacing m passes p.block.body)

end Statements

/-! ## Programs with one normal form -/

/-- Programs that run the same: from the same tables and on the same machine,
with leave for ever, each ends if the other one does, and then both end alike.
The machine keeps its calls and what became of them. -/
def RunTheSame (p q : Program) : Prop :=
  ∀ (μ ε : Type) (m : Machine μ ε) (t : Tables) (s : μ) (j : Journal),
    let start : World (Rig (Traced μ ε)) := .start t (.fresh s) j
    (∀ o w, Ends (m.traced.host none) p start o w →
      ∃ o' w', Ends (m.traced.host none) q start o' w' ∧ SameEnd o w o' w') ∧
    ∀ o' w', Ends (m.traced.host none) q start o' w' →
      ∃ o w, Ends (m.traced.host none) p start o w ∧ SameEnd o w o' w'

/-- Programs with one normal form, places aside, end alike. -/
private theorem sameEnd_of_normal (m : Machine μ ε) (passes : Nat)
    {p q : Program} (h : q.normal.unplaced = p.normal.unplaced)
    (w : World (Rig μ)) :
    SameEnd ((interpret (m.host none) passes p).outcome w)
      ((interpret (m.host none) passes p).after w)
      ((interpret (m.host none) passes q).outcome w)
      ((interpret (m.host none) passes q).after w) := by
  have hq := interpret_unplacing m passes q
  rw [h] at hq
  exact sameEnd_of_beside (interpret_unplacing m passes p) hq w trivial

/-- **Programs with one normal form, places aside, run the same.** -/
theorem runTheSame_of_normal {p q : Program}
    (h : q.normal.unplaced = p.normal.unplaced) : RunTheSame p q :=
  fun _ _ m _ _ _ =>
    EndAlike.of_passes (fun passes => sameEnd_of_normal m.traced passes h _)
      fun hsame => hsame.outcomes.unfinished_iff

/--
**Printing a program keeps its meaning.** What is read from the print of a
program runs the same as the program, on every machine and from all tables.
-/
theorem interpret_reread {src : List UInt8} {p : Program}
    (h : parse src = .ok p) :
    ∃ q, parse (bytesOf p.render) = .ok q ∧ RunTheSame p q := by
  obtain ⟨q, hq, -, hnormal⟩ := Program.reread (Program.legible_of_parse h)
  exact ⟨q, hq, runTheSame_of_normal hnormal⟩

theorem interpret_reread_nestedSource : ∃ p, parse nestedSource = .ok p ∧
    ∃ q, parse (bytesOf p.render) = .ok q ∧ RunTheSame p q := by
  have hread : (parse nestedSource).isOk = true := by decide +kernel
  obtain ⟨p, hp⟩ := exists_of_isOk hread
  exact ⟨p, hp, interpret_reread hp⟩

end Fixture
