import Mathlib
import Fixture.Tree.Render
/-!
# Trees without places

Every token of a tree remembers where it was written. `unplaced` forgets that,
all through a tree, and with it the tokens that mark where a statement list
begins, since those are a matter of layout too: two trees agree up to places if
they are equal once unplaced. Printing never looks at what is forgotten here.

## Main results

* `Expr.render_unplaced`, `renderEach_unplaced`, `Program.render_unplaced`:
  places do not show in print.
-/

namespace Fixture

/-- The place of a token that is written nowhere. -/
def Pos.nowhere : Pos := ⟨0, 0⟩

namespace Token

/-- A token with its place forgotten. -/
def unplaced (t : Token) : Token := { t with pos := .nowhere }

/-- The end of a source, and what stands for a token that is forgotten
altogether. -/
def ending : Token := ⟨.eof, "", .nowhere⟩

@[simp] theorem unplaced_kind (t : Token) : t.unplaced.kind = t.kind := rfl

@[simp] theorem unplaced_literal (t : Token) : t.unplaced.literal = t.literal :=
  rfl

@[simp] theorem unplaced_unplaced (t : Token) :
    t.unplaced.unplaced = t.unplaced := rfl

theorem kind_eq_of_unplaced {s t : Token} (h : s.unplaced = t.unplaced) :
    s.kind = t.kind := by
  rw [← unplaced_kind, h, unplaced_kind]

theorem literal_eq_of_unplaced {s t : Token} (h : s.unplaced = t.unplaced) :
    s.literal = t.literal := by
  rw [← unplaced_literal, h, unplaced_literal]

/-- Tokens are the same if they are equal once their places are forgotten. -/
private theorem same_iff_unplaced {t u : Token} :
    t.same u = true ↔ t.unplaced = u.unplaced := by
  rw [Token.same_iff]
  refine ⟨fun h => ?_,
    fun h => ⟨kind_eq_of_unplaced h, literal_eq_of_unplaced h⟩⟩
  rw [unplaced, unplaced, h.1, h.2]

theorem forall₂_same_iff {ts us : List Token} :
    List.Forall₂ (fun t u => t.same u = true) ts us ↔
      ts.map unplaced = us.map unplaced := by
  rw [← List.forall₂_eq_eq_eq, List.forall₂_map_left_iff,
    List.forall₂_map_right_iff]
  simp only [same_iff_unplaced]

end Token

/-- An expression with all places forgotten. -/
@[simp] def Expr.unplaced : Expr → Expr
  | .name t => .name t.unplaced
  | .integer t n => .integer t.unplaced n
  | .real t x => .real t.unplaced x
  | .boolean t b => .boolean t.unplaced b
  | .signed op e => .signed op.unplaced e.unplaced
  | .binary op l r => .binary op.unplaced l.unplaced r.unplaced

mutual

/-- A statement with all places forgotten, and with them the tokens that
statement lists begin on. -/
@[simp] def Stmt.unplaced : Stmt → Stmt
  | .skip => .skip
  | .compound _ body => .compound .ending (unplacedEach body)
  | .assign t target value => .assign t.unplaced target.unplaced value.unplaced
  | .ifThen t c _ body =>
    .ifThen t.unplaced c.unplaced .ending (unplacedEach body)
  | .ifElse t c _ body _ alt =>
    .ifElse t.unplaced c.unplaced .ending (unplacedEach body) .ending
      (unplacedEach alt)
  | .loop t _ body c => .loop t.unplaced .ending (unplacedEach body) c.unplaced
  | .wait t d => .wait t.unplaced d.unplaced
  | .move t axis d s => .move t.unplaced axis d.unplaced (s.map Expr.unplaced)
  | .home t => .home t.unplaced
  | .stop t => .stop t.unplaced

/-- Statements with all places forgotten. -/
@[simp] def unplacedEach : List Stmt → List Stmt
  | [] => []
  | s :: ss => s.unplaced :: unplacedEach ss

end

/-- A variable declaration with its place forgotten. -/
@[simp] def VarDecl.unplaced (d : VarDecl) : VarDecl :=
  { d with tok := d.tok.unplaced }

/-- A pin declaration with its place forgotten. -/
@[simp] def PinDecl.unplaced (d : PinDecl) : PinDecl :=
  { d with tok := d.tok.unplaced }

/-- A waypoint declaration with all places forgotten. -/
@[simp] def WaypointDecl.unplaced (d : WaypointDecl) : WaypointDecl :=
  ⟨d.tok.unplaced, d.distance.unplaced, d.speed.unplaced⟩

/-- A block with all places forgotten. -/
@[simp] def Block.unplaced (b : Block) : Block :=
  ⟨b.vars.map VarDecl.unplaced, b.pins.map PinDecl.unplaced,
    b.waypoints.map WaypointDecl.unplaced, .ending, unplacedEach b.body⟩

/-- A program with all places forgotten. -/
@[simp] def Program.unplaced (p : Program) : Program :=
  ⟨p.tok.unplaced, p.name, p.block.unplaced⟩

attribute [local simp] Expr.render Stmt.render renderEach Stmt.isSkip

theorem unplacedEach_append (ss ss' : List Stmt) :
    unplacedEach (ss ++ ss') = unplacedEach ss ++ unplacedEach ss' := by
  induction ss with
  | nil => rfl
  | cons s ss ih => simp only [List.cons_append, unplacedEach, ih]

/-! ## Printing -/

theorem Expr.render_unplaced (e : Expr) : e.unplaced.render = e.render := by
  induction e with
  | signed op e ih =>
      simp only [Expr.unplaced, Expr.render, Token.unplaced_literal, ih]
  | binary op l r ihl ihr =>
      simp only [Expr.unplaced, Expr.render, Token.unplaced_literal, ihl, ihr]
  | _ => rfl

private theorem Stmt.isSkip_unplaced (s : Stmt) :
    s.unplaced.isSkip = s.isSkip := by
  cases s <;> simp only [Stmt.unplaced, Stmt.isSkip]

mutual

private theorem Stmt.render_unplaced : ∀ s : Stmt, s.unplaced.render = s.render
  | .skip => rfl
  | .compound _ body => by
      simp only [Stmt.unplaced, Stmt.render, renderEach_unplaced body]
  | .assign _ target value => by
      simp only [Stmt.unplaced, Stmt.render, Token.unplaced_literal,
        Expr.render_unplaced]
  | .ifThen _ c _ body => by
      simp only [Stmt.unplaced, Stmt.render, Expr.render_unplaced,
        renderEach_unplaced body]
  | .ifElse _ c _ body _ alt => by
      simp only [Stmt.unplaced, Stmt.render, Expr.render_unplaced,
        renderEach_unplaced body, renderEach_unplaced alt]
  | .loop _ _ body c => by
      simp only [Stmt.unplaced, Stmt.render, Expr.render_unplaced,
        renderEach_unplaced body]
  | .wait _ d => by simp only [Stmt.unplaced, Stmt.render, Expr.render_unplaced]
  | .move _ axis d none => by
      simp only [Stmt.unplaced, Stmt.render, Option.map_none,
        Expr.render_unplaced]
  | .move _ axis d (some s) => by
      simp only [Stmt.unplaced, Stmt.render, Option.map_some,
        Expr.render_unplaced]
  | .home _ => rfl
  | .stop _ => rfl

/-- Places do not show in print. -/
theorem renderEach_unplaced : ∀ ss : List Stmt,
    renderEach (unplacedEach ss) = renderEach ss
  | [] => rfl
  | s :: ss => by
      simp only [unplacedEach, renderEach, Stmt.isSkip_unplaced,
        Stmt.render_unplaced s, renderEach_unplaced ss]

end

private theorem Block.render_unplaced (b : Block) :
    b.unplaced.render = b.render := by
  have hvars : (b.vars.map VarDecl.unplaced).map VarDecl.render =
      b.vars.map VarDecl.render := by
    rw [List.map_map]
    rfl
  have hpins : (b.pins.map PinDecl.unplaced).map PinDecl.render =
      b.pins.map PinDecl.render := by
    rw [List.map_map]
    rfl
  have hways : (b.waypoints.map WaypointDecl.unplaced).map WaypointDecl.render =
      b.waypoints.map WaypointDecl.render := by
    rw [List.map_map]
    apply List.map_congr_left
    intro d _
    simp only [Function.comp_apply, WaypointDecl.unplaced, WaypointDecl.render,
      WaypointDecl.name, Token.unplaced_literal, Expr.render_unplaced]
  simp only [Block.unplaced, Block.render, hvars, hpins, hways,
    renderEach_unplaced]

theorem Program.render_unplaced (p : Program) :
    p.unplaced.render = p.render := by
  simp only [Program.unplaced, Program.render, Block.render_unplaced]

end Fixture
