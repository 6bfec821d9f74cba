import Fixture.Proofs.Places
/-!
# Normal forms of programs

Two programs can differ in statements that do nothing and in brackets around
statements. The normal form of a program has neither: empty statements are
dropped, and the statements of an inner list are spliced into the list around
it, in the bodies of branches and loops as well. A branch keeps its alternative
even if nothing is left of it.

A program is flat if no statement list of it has an inner list. The print of a
flat program is that of its normal form, so flat programs with one normal form
have one print.

## Main results

* `renderEach_normalEach`: statements of flat programs print like their normal
  forms.
* `Program.render_eq_of_normal`: flat programs that agree in normal form, places
  aside, have the same print.
-/

namespace Fixture

/-! ## Splicing -/

mutual

/-- What is left of a statement in normal form: nothing, one statement, or those
of an inner list. -/
@[simp] def Stmt.normal : Stmt → List Stmt
  | .skip => []
  | .compound _ body => normalEach body
  | .assign t target value => [.assign t target value]
  | .ifThen t c bodyTok body => [.ifThen t c bodyTok (normalEach body)]
  | .ifElse t c bodyTok body altTok alt =>
    [.ifElse t c bodyTok (normalEach body) altTok (normalEach alt)]
  | .loop t bodyTok body c => [.loop t bodyTok (normalEach body) c]
  | .wait t d => [.wait t d]
  | .move t axis d s => [.move t axis d s]
  | .home t => [.home t]
  | .stop t => [.stop t]

/-- Statements in normal form. -/
@[simp] def normalEach : List Stmt → List Stmt
  | [] => []
  | s :: ss => s.normal ++ normalEach ss

end

/-- A program in normal form. -/
@[simp] def Program.normal (p : Program) : Program :=
  { p with block := { p.block with body := normalEach p.block.body } }

theorem normalEach_append (ss ss' : List Stmt) :
    normalEach (ss ++ ss') = normalEach ss ++ normalEach ss' := by
  induction ss with
  | nil => rfl
  | cons s ss ih =>
      simp only [List.cons_append, normalEach, ih, List.append_assoc]

/-! ## Flat programs -/

mutual

/-- Whether a statement holds no inner list; the bodies of branches and loops
are no inner lists. -/
@[simp] def Stmt.isFlat : Stmt → Bool
  | .compound _ _ => false
  | .ifThen _ _ _ body => isFlatEach body
  | .ifElse _ _ _ body _ alt => isFlatEach body && isFlatEach alt
  | .loop _ _ body _ => isFlatEach body
  | _ => true

/-- Whether none of the statements holds an inner list. -/
@[simp] def isFlatEach : List Stmt → Bool
  | [] => true
  | s :: ss => s.isFlat && isFlatEach ss

end

/-- Whether no statement list of a program has an inner list. -/
@[simp] def Program.isFlat (p : Program) : Bool := isFlatEach p.block.body

theorem isFlatEach_append (ss ss' : List Stmt) :
    isFlatEach (ss ++ ss') = (isFlatEach ss && isFlatEach ss') := by
  induction ss with
  | nil => rfl
  | cons s ss ih => simp only [List.cons_append, isFlatEach, ih, Bool.and_assoc]

/-! ## Printing -/

attribute [local simp] Stmt.render renderEach Stmt.isSkip

/-- One statement in front of a list that is printed. -/
private theorem renderEach_singleton_append {s : Stmt} (h : s.isSkip = false)
    (ss : List Stmt) : renderEach ([s] ++ ss) = s.render :: renderEach ss := by
  rw [List.singleton_append, renderEach, h]
  rfl

mutual

/-- A flat statement is dropped or prints like its normal form. -/
private theorem Stmt.renderEach_normal : ∀ (s : Stmt),
    s.isFlat = true →
    ∀ ss : List Stmt, renderEach (s.normal ++ ss) =
      if s.isSkip then renderEach ss else s.render :: renderEach ss
  | .skip, _, _ => rfl
  | .ifThen t c b body, h, ss => by
      simp only [Stmt.isFlat] at h
      rw [Stmt.normal, renderEach_singleton_append rfl]
      simp only [Stmt.render, renderEach_normalEach body h, Stmt.isSkip,
        Bool.false_eq_true, if_false]
  | .ifElse t c b body a alt, h, ss => by
      simp only [Stmt.isFlat, Bool.and_eq_true] at h
      rw [Stmt.normal, renderEach_singleton_append rfl]
      simp only [Stmt.render, renderEach_normalEach body h.1,
        renderEach_normalEach alt h.2, Stmt.isSkip, Bool.false_eq_true,
        if_false]
  | .loop t b body c, h, ss => by
      simp only [Stmt.isFlat] at h
      rw [Stmt.normal, renderEach_singleton_append rfl]
      simp only [Stmt.render, renderEach_normalEach body h, Stmt.isSkip,
        Bool.false_eq_true, if_false]
  | .assign _ _ _, _, _ | .wait _ _, _, _ | .move _ _ _ _, _, _ | .home _, _,
      _ | .stop _, _, _ => rfl

/-- **Flat statements print like their normal forms.** -/
theorem renderEach_normalEach : ∀ ss : List Stmt, isFlatEach ss = true →
    renderEach (normalEach ss) = renderEach ss
  | [], _ => rfl
  | s :: ss, h => by
      simp only [isFlatEach, Bool.and_eq_true] at h
      rw [normalEach, Stmt.renderEach_normal s h.1,
        renderEach_normalEach ss h.2, renderEach]

end

private theorem Program.render_normal {p : Program} (h : p.isFlat = true) :
    p.normal.render = p.render := by
  simp only [Program.normal, Program.render, Block.render,
    renderEach_normalEach _ h]

/-- **Flat programs with one normal form, places aside, have one print.** -/
theorem Program.render_eq_of_normal {p q : Program} (hp : p.isFlat = true)
    (hq : q.isFlat = true) (h : p.normal.unplaced = q.normal.unplaced) :
    p.render = q.render := by
  rw [← Program.render_normal hp, ← Program.render_normal hq,
    ← Program.render_unplaced p.normal, h, Program.render_unplaced]

end Fixture
