import Mathlib
import Fixture.Parse
import Fixture.Proofs.Places
/-!
# Reading without places

The reader goes by the kinds and the literals of tokens. Where a token stands is
only copied, into trees and into errors. So reading commutes with forgetting
places: if all tokens are put nowhere, what is read is the same tree or the same
error, with everything in it put nowhere. Hence the layout of a source has no
part in what it means.

A tree also keeps the tokens that its statement lists begin on. They belong to
the source like the others, so here they are put nowhere and not dropped;
`displaced` does that, where `unplaced` drops them.

Each reader has one lemma. The readers for expressions call each other, as do
those for statements, and so their lemmas are proved together by induction on
the budget.

## Main results

* `Parse.program_unplaced`: programs.
* `Scan.parse_unplaced`: sources with the same tokens, up to places.
-/

namespace Fixture

/-! ## Trees and errors put nowhere -/

mutual

/-- A statement with all its tokens put nowhere. -/
@[simp] def Stmt.displaced : Stmt → Stmt
  | .skip => .skip
  | .compound t body => .compound t.unplaced (displacedEach body)
  | .assign t target value => .assign t.unplaced target.unplaced value.unplaced
  | .ifThen t c bodyTok body =>
    .ifThen t.unplaced c.unplaced bodyTok.unplaced (displacedEach body)
  | .ifElse t c bodyTok body altTok alt =>
    .ifElse t.unplaced c.unplaced bodyTok.unplaced (displacedEach body)
      altTok.unplaced (displacedEach alt)
  | .loop t bodyTok body c =>
    .loop t.unplaced bodyTok.unplaced (displacedEach body) c.unplaced
  | .wait t d => .wait t.unplaced d.unplaced
  | .move t axis d s => .move t.unplaced axis d.unplaced (s.map Expr.unplaced)
  | .home t => .home t.unplaced
  | .stop t => .stop t.unplaced

/-- Statements with all their tokens put nowhere. -/
@[simp] def displacedEach : List Stmt → List Stmt
  | [] => []
  | s :: ss => s.displaced :: displacedEach ss

end

/-- A block with all its tokens put nowhere. -/
def Block.displaced (b : Block) : Block :=
  ⟨b.vars.map VarDecl.unplaced, b.pins.map PinDecl.unplaced,
    b.waypoints.map WaypointDecl.unplaced, b.bodyTok.unplaced,
    displacedEach b.body⟩

/-- A program with all its tokens put nowhere. -/
def Program.displaced (p : Program) : Program :=
  ⟨p.tok.unplaced, p.name, p.block.displaced⟩

/-- An error with its place forgotten. -/
def ParseError.unplaced : ParseError → ParseError
  | .lexical e => .lexical { e with pos := .nowhere }
  | .unexpected e => .unexpected { e with found := e.found.unplaced }
  | .outOfRange use t => .outOfRange use t.unplaced
  | .exhausted => .exhausted

private theorem Expr.unplaced_unplaced (e : Expr) :
    e.unplaced.unplaced = e.unplaced := by
  induction e with
  | signed op e ih => rw [unplaced, unplaced, ih, Token.unplaced_unplaced]
  | binary op l r ihl ihr =>
      rw [unplaced, unplaced, ihl, ihr, Token.unplaced_unplaced]
  | _ => rfl

mutual

private theorem Stmt.unplaced_displaced : ∀ s : Stmt,
    s.displaced.unplaced = s.unplaced
  | .skip => rfl
  | .compound _ body => by
      simp only [Stmt.displaced, Stmt.unplaced, unplacedEach_displaced body]
  | .assign _ _ value => by
      simp only [Stmt.displaced, Stmt.unplaced, Token.unplaced_unplaced,
        Expr.unplaced_unplaced]
  | .ifThen _ c _ body => by
      simp only [Stmt.displaced, Stmt.unplaced, Token.unplaced_unplaced,
        Expr.unplaced_unplaced, unplacedEach_displaced body]
  | .ifElse _ c _ body _ alt => by
      simp only [Stmt.displaced, Stmt.unplaced, Token.unplaced_unplaced,
        Expr.unplaced_unplaced, unplacedEach_displaced body,
        unplacedEach_displaced alt]
  | .loop _ _ body c => by
      simp only [Stmt.displaced, Stmt.unplaced, Token.unplaced_unplaced,
        Expr.unplaced_unplaced, unplacedEach_displaced body]
  | .wait _ d => by
      simp only [Stmt.displaced, Stmt.unplaced, Token.unplaced_unplaced,
        Expr.unplaced_unplaced]
  | .move _ _ d none => by
      simp only [Stmt.displaced, Stmt.unplaced, Token.unplaced_unplaced,
        Expr.unplaced_unplaced, Option.map_none]
  | .move _ _ d (some s) => by
      simp only [Stmt.displaced, Stmt.unplaced, Token.unplaced_unplaced,
        Expr.unplaced_unplaced, Option.map_some]
  | .home _ => rfl
  | .stop _ => rfl

private theorem unplacedEach_displaced : ∀ ss : List Stmt,
    unplacedEach (displacedEach ss) = unplacedEach ss
  | [] => rfl
  | s :: ss => by
      rw [displacedEach, unplacedEach, unplacedEach, s.unplaced_displaced,
        unplacedEach_displaced ss]

end

/-- Whatever is the same with all tokens put nowhere is the same without
places. -/
theorem Program.unplaced_displaced (p : Program) :
    p.displaced.unplaced = p.unplaced := by
  have hways : (p.block.waypoints.map WaypointDecl.unplaced).map
        WaypointDecl.unplaced =
      p.block.waypoints.map WaypointDecl.unplaced := by
    rw [List.map_map]
    refine List.map_congr_left fun d _ => ?_
    simp only [Function.comp_apply, WaypointDecl.unplaced,
      Expr.unplaced_unplaced, Token.unplaced_unplaced]
  have hvars : (p.block.vars.map VarDecl.unplaced).map VarDecl.unplaced =
      p.block.vars.map VarDecl.unplaced :=
    List.map_map
  have hpins : (p.block.pins.map PinDecl.unplaced).map PinDecl.unplaced =
      p.block.pins.map PinDecl.unplaced :=
    List.map_map
  simp only [displaced, Block.displaced, unplaced, Block.unplaced, hvars, hpins,
    hways, unplacedEach_displaced, Token.unplaced_unplaced]

/-! ## Readings put nowhere -/

/-- What was read with all places forgotten, given how to forget those of a
result. -/
def unplacedReading {α β : Type} (f : α → β) :
    Except ParseError α → Except ParseError β
  | .ok a => .ok (f a)
  | .error e => .error e.unplaced

private theorem unplacedReading_bind {α β α' β' : Type} {f : α → α'}
    {g : β → β'} {x : Except ParseError α} {x' : Except ParseError α'}
    {k : α → Except ParseError β} {k' : α' → Except ParseError β'}
    (hx : x' = unplacedReading f x)
    (hk : ∀ a, k' (f a) = unplacedReading g (k a)) :
    x' >>= k' = unplacedReading g (x >>= k) := by
  rw [hx]
  cases x with
  | ok a => exact hk a
  | error e => rfl

/-- A part of a tree, and the tokens behind it, with all places forgotten. -/
def unplacedPart {α β : Type} (f : α → β) (r : α × List Token) :
    β × List Token := (f r.1, r.2.map Token.unplaced)

/-- A reader that comes to the same as another one without places. -/
def Placeless {α β : Type} (f : α → β)
    (reader : List Token → Except ParseError (α × List Token))
    (reader' : List Token → Except ParseError (β × List Token)) : Prop :=
  ∀ ts, reader' (ts.map Token.unplaced) =
    unplacedReading (unplacedPart f) (reader ts)

namespace Parse

private theorem peek_unplaced (ts : List Token) :
    peek (ts.map Token.unplaced) = peek ts := by cases ts <;> rfl

/-- A branch on what is the same for both readers. -/
private theorem branch_unplaced {α β : Type} {f : α → β}
    {x y : Except ParseError α} {x' y' : Except ParseError β} {c c' : Prop}
    [Decidable c] [Decidable c'] (hc : c' ↔ c) (hx : x' = unplacedReading f x)
    (hy : y' = unplacedReading f y) :
    (if c' then x' else y') = unplacedReading f (if c then x else y) := by
  by_cases h : c
  · rw [if_pos h, if_pos (hc.2 h), hx]
  · rw [if_neg h, if_neg (h ∘ hc.1), hy]

/-- A branch on the kind of the next token. -/
private theorem peeked_unplaced {α β : Type} {f : α → β}
    {x y : Except ParseError α} {x' y' : Except ParseError β} (k : Kind)
    (ts : List Token) (hx : x' = unplacedReading f x)
    (hy : y' = unplacedReading f y) :
    (if peek (ts.map Token.unplaced) = k then x' else y') =
      unplacedReading f (if peek ts = k then x else y) :=
  branch_unplaced (by rw [peek_unplaced]) hx hy

private theorem headD_unplaced (t : Token) (ts : List Token) :
    (ts.map Token.unplaced).headD t.unplaced = (ts.headD t).unplaced := by
  cases ts <;> rfl

variable (b : ParseError)

private theorem refuse_unplaced (expected : String) (ts : List Token) :
    refuse b.unplaced expected (ts.map Token.unplaced) =
      (refuse b expected ts).unplaced := by cases ts <;> rfl

private theorem advance_unplaced (ts : List Token) :
    advance b.unplaced (ts.map Token.unplaced) =
      unplacedReading (List.map Token.unplaced) (advance b ts) := by
  cases ts with
  | nil => rfl
  | cons t ts => cases ts <;> rfl

private theorem expect_unplaced (k : Kind) :
    Placeless Token.unplaced (expect b k) (expect b.unplaced k) := by
  intro ts
  cases ts with
  | nil => rfl
  | cons t ts =>
      rw [List.map_cons, expect, expect, Token.unplaced_kind]
      by_cases hk : t.kind = k
      · rw [if_pos hk, if_pos hk]
        exact unplacedReading_bind (advance_unplaced b (t :: ts)) fun _ => rfl
      · rw [if_neg hk, if_neg hk]
        rfl

/-! ## Expressions -/

variable {b} in
/-- What follows an expression comes to the same without places. -/
private theorem operatorTail_unplaced {p : Kind → Bool}
    {operand operand' : ExprReader} {more more' : Expr → ExprReader}
    (hoperand : Placeless Expr.unplaced operand operand')
    (hmore : ∀ e : Expr, Placeless Expr.unplaced (more e) (more' e.unplaced))
    (e : Expr) :
    Placeless Expr.unplaced (operatorTail b p operand more e)
      (operatorTail b.unplaced p operand' more' e.unplaced) := by
  intro ts
  cases ts with
  | nil => rfl
  | cons op ts =>
      rw [List.map_cons, operatorTail, operatorTail, Token.unplaced_kind]
      by_cases hop : p op.kind = true
      · rw [if_pos hop, if_pos hop]
        exact unplacedReading_bind (advance_unplaced b (op :: ts)) fun ts =>
          unplacedReading_bind (hoperand ts) fun r =>
            hmore (.binary op e r.1) r.2
      · rw [if_neg hop, if_neg hop]
        rfl

/-- The readers for expressions come to the same without places, at a budget. -/
structure PlacelessExpressions (n : Nat) : Prop where
  factor : Placeless Expr.unplaced (factor b n) (Parse.factor b.unplaced n)
  termTail : ∀ e : Expr, Placeless Expr.unplaced (termTail b n e)
    (Parse.termTail b.unplaced n e.unplaced)
  term : Placeless Expr.unplaced (term b n) (Parse.term b.unplaced n)
  sumTail : ∀ e : Expr, Placeless Expr.unplaced (sumTail b n e)
    (Parse.sumTail b.unplaced n e.unplaced)
  sum : Placeless Expr.unplaced (sum b n) (Parse.sum b.unplaced n)
  comparison : ∀ e : Expr, Placeless Expr.unplaced (comparison b n e)
    (Parse.comparison b.unplaced n e.unplaced)
  expression :
    Placeless Expr.unplaced (expression b n) (Parse.expression b.unplaced n)

section Expressions

variable {b} {n : Nat} (ih : PlacelessExpressions b n)

include ih

private theorem factor_step_unplaced :
    Placeless Expr.unplaced (factor b (n + 1)) (factor b.unplaced (n + 1)) := by
  intro ts
  cases ts with
  | nil => rfl
  | cons t ts =>
      have hadvance := advance_unplaced b (t :: ts)
      rw [List.map_cons, factor, factor, Token.unplaced_kind,
        Token.unplaced_literal]
      cases t.kind with
      | plus | minus =>
          exact unplacedReading_bind hadvance fun ts =>
            unplacedReading_bind (ih.factor ts) fun _ => rfl
      | integerConst =>
          cases Numeral.integer? t.literal with
          | none => rfl
          | some v => exact unplacedReading_bind hadvance fun _ => rfl
      | realConst =>
          cases Numeral.real? t.literal with
          | none => rfl
          | some x => exact unplacedReading_bind hadvance fun _ => rfl
      | boolConst => exact unplacedReading_bind hadvance fun _ => rfl
      | lparen =>
          exact unplacedReading_bind hadvance fun ts =>
            unplacedReading_bind (ih.expression ts) fun r =>
              unplacedReading_bind (expect_unplaced b .rparen r.2) fun _ => rfl
      | _ =>
          exact unplacedReading_bind (expect_unplaced b .ident (t :: ts))
            fun _ => rfl

private theorem termTail_step_unplaced (e : Expr) :
    Placeless Expr.unplaced (termTail b (n + 1) e)
      (termTail b.unplaced (n + 1) e.unplaced) :=
  operatorTail_unplaced ih.factor ih.termTail e

private theorem term_step_unplaced :
    Placeless Expr.unplaced (term b (n + 1)) (term b.unplaced (n + 1)) := by
  intro ts
  rw [term, term]
  exact unplacedReading_bind (ih.factor ts) fun r => ih.termTail r.1 r.2

private theorem sumTail_step_unplaced (e : Expr) :
    Placeless Expr.unplaced (sumTail b (n + 1) e)
      (sumTail b.unplaced (n + 1) e.unplaced) :=
  operatorTail_unplaced ih.term ih.sumTail e

private theorem sum_step_unplaced :
    Placeless Expr.unplaced (sum b (n + 1)) (sum b.unplaced (n + 1)) := by
  intro ts
  rw [sum, sum]
  exact unplacedReading_bind (ih.term ts) fun r => ih.sumTail r.1 r.2

private theorem comparison_step_unplaced (e : Expr) :
    Placeless Expr.unplaced (comparison b (n + 1) e)
      (comparison b.unplaced (n + 1) e.unplaced) := by
  intro ts
  rw [comparison, comparison]
  exact operatorTail_unplaced ih.sum (fun _ _ => rfl) e ts

private theorem expression_step_unplaced :
    Placeless Expr.unplaced (expression b (n + 1))
      (expression b.unplaced (n + 1)) := by
  intro ts
  rw [expression, expression]
  exact unplacedReading_bind (ih.sum ts) fun r => ih.comparison r.1 r.2

end Expressions

/-- **Expressions are read the same without places.** -/
theorem placelessExpressions (n : Nat) : PlacelessExpressions b n := by
  induction n with
  | zero =>
      exact ⟨fun _ => rfl, fun _ _ => rfl, fun _ => rfl, fun _ _ => rfl,
        fun _ => rfl, fun _ _ => rfl, fun _ => rfl⟩
  | succ n ih =>
      exact ⟨factor_step_unplaced ih, termTail_step_unplaced ih,
        term_step_unplaced ih, sumTail_step_unplaced ih, sum_step_unplaced ih,
        comparison_step_unplaced ih, expression_step_unplaced ih⟩

/-! ## Statements -/

/-- The operands of a move with all places forgotten. -/
def unplacedOperands (o : Expr × Option Expr) : Expr × Option Expr :=
  (o.1.unplaced, o.2.map Expr.unplaced)

private theorem operands_unplaced (n : Nat) :
    Placeless unplacedOperands (operands b n) (operands b.unplaced n) := by
  intro ts
  have hfactor := (placelessExpressions b n).factor
  refine unplacedReading_bind (hfactor ts) fun r =>
    peeked_unplaced .comma r.2 ?_ rfl
  exact unplacedReading_bind (advance_unplaced b r.2) fun ts =>
    unplacedReading_bind (hfactor ts) fun _ => rfl

/-- The readers for statements come to the same without places, at a budget. -/
structure PlacelessStatements (n : Nat) : Prop where
  statement :
    Placeless Stmt.displaced (statement b n) (Parse.statement b.unplaced n)
  statements :
    Placeless displacedEach (statements b n) (Parse.statements b.unplaced n)

section Statements

variable {b} {n : Nat} (ih : PlacelessStatements b n)

include ih

private theorem statement_step_unplaced :
    Placeless Stmt.displaced (statement b (n + 1))
      (statement b.unplaced (n + 1)) := by
  intro ts
  cases ts with
  | nil => rfl
  | cons t ts =>
      have hadvance := advance_unplaced b (t :: ts)
      have hexpression := (placelessExpressions b n).expression
      rw [List.map_cons, statement, statement, Token.unplaced_kind]
      cases t.kind with
      | kwBegin =>
          exact unplacedReading_bind hadvance fun ts =>
            unplacedReading_bind (ih.statements ts) fun body =>
              unplacedReading_bind (expect_unplaced b .kwEnd body.2) fun _ =>
                rfl
      | ident =>
          exact unplacedReading_bind hadvance fun ts =>
            unplacedReading_bind (expect_unplaced b .assign ts) fun op =>
              unplacedReading_bind (hexpression op.2) fun _ => rfl
      | kwIf =>
          refine unplacedReading_bind hadvance fun ts =>
            unplacedReading_bind (hexpression ts) fun c =>
              unplacedReading_bind (expect_unplaced b .colon c.2) fun colon =>
                unplacedReading_bind (ih.statements colon.2) fun body =>
                  peeked_unplaced .kwElse body.2 ?_ ?_
          -- the tokens that the lists begin on are found behind the colons
          · refine unplacedReading_bind (advance_unplaced b body.2) fun ts =>
              unplacedReading_bind (expect_unplaced b .colon ts) fun colon' =>
                unplacedReading_bind (ih.statements colon'.2) fun alt =>
                  unplacedReading_bind (expect_unplaced b .kwEndif alt.2)
                    fun _ => ?_
            simp only [unplacedPart, headD_unplaced]
            rfl
          · refine unplacedReading_bind (expect_unplaced b .kwEndif body.2)
              fun _ => ?_
            simp only [unplacedPart, headD_unplaced]
            rfl
      | kwLoop =>
          refine unplacedReading_bind hadvance fun ts =>
            unplacedReading_bind (expect_unplaced b .colon ts) fun colon =>
              unplacedReading_bind (ih.statements colon.2) fun body =>
                unplacedReading_bind (expect_unplaced b .kwUntil body.2)
                  fun tail =>
                    unplacedReading_bind (hexpression tail.2) fun _ => ?_
          simp only [unplacedPart, headD_unplaced]
          rfl
      | kwWait =>
          exact unplacedReading_bind hadvance fun ts =>
            unplacedReading_bind (hexpression ts) fun _ => rfl
      | kwMoveto | kwRotate =>
          exact unplacedReading_bind hadvance fun ts =>
            unplacedReading_bind (operands_unplaced b n ts) fun _ => rfl
      | kwHome | kwStop => exact unplacedReading_bind hadvance fun _ => rfl
      | _ => rfl

private theorem statements_step_unplaced :
    Placeless displacedEach (statements b (n + 1))
      (statements b.unplaced (n + 1)) := by
  intro ts
  rw [statements, statements]
  refine unplacedReading_bind (ih.statement ts) fun s =>
    peeked_unplaced .semi s.2 ?_ rfl
  exact unplacedReading_bind (advance_unplaced b s.2) fun ts =>
    unplacedReading_bind (ih.statements ts) fun _ => rfl

end Statements

/-- **Statements are read the same without places.** -/
theorem placelessStatements (n : Nat) : PlacelessStatements b n := by
  induction n with
  | zero => exact ⟨fun _ => rfl, fun _ => rfl⟩
  | succ n ih => exact ⟨statement_step_unplaced ih, statements_step_unplaced ih⟩

/-! ## Declarations -/

private theorem names_unplaced (n : Nat) :
    Placeless (List.map Token.unplaced) (names b n) (names b.unplaced n) := by
  induction n with
  | zero => exact fun _ => rfl
  | succ n ih =>
      intro ts
      rw [names, names]
      refine unplacedReading_bind (expect_unplaced b .ident ts) fun id =>
        peeked_unplaced .comma id.2 ?_ rfl
      exact unplacedReading_bind (advance_unplaced b id.2) fun ts =>
        unplacedReading_bind (ih ts) fun _ => rfl

private theorem varDecls_unplaced (n : Nat) :
    Placeless (List.map VarDecl.unplaced) (varDecls b n)
      (varDecls b.unplaced n) := by
  induction n with
  | zero => exact fun _ => rfl
  | succ n ih =>
      intro ts
      rw [varDecls, varDecls]
      refine peeked_unplaced .ident ts ?_ rfl
      refine unplacedReading_bind (names_unplaced b n ts) fun ids =>
        unplacedReading_bind (expect_unplaced b .colon ids.2) fun colon => ?_
      have htype :=
        (congrArg (·.isVariableType = true) (peek_unplaced colon.2)).to_iff
      refine branch_unplaced htype ?_
        (congrArg Except.error (refuse_unplaced b _ _))
      refine unplacedReading_bind (advance_unplaced b colon.2) fun ts =>
        unplacedReading_bind (expect_unplaced b .semi ts) fun semi =>
          unplacedReading_bind (ih semi.2) fun ds => ?_
      -- a group of names becomes one declaration for each name
      have hgroup : (ids.1.map Token.unplaced).map
              (fun id => VarDecl.mk id (peek colon.2)) ++
            ds.1.map VarDecl.unplaced =
          (ids.1.map (fun id => VarDecl.mk id (peek colon.2)) ++ ds.1).map
            VarDecl.unplaced := by
        rw [List.map_append, List.map_map, List.map_map]
        rfl
      simp only [unplacedPart, peek_unplaced, hgroup]
      rfl

private theorem pinNumber_unplaced :
    Placeless id (pinNumber b) (pinNumber b.unplaced) := by
  intro ts
  cases ts with
  | nil => rfl
  | cons t ts =>
      rw [List.map_cons, pinNumber, pinNumber, Token.unplaced_kind,
        Token.unplaced_literal]
      by_cases hk : t.kind = .integerConst
      · rw [if_pos hk, if_pos hk]
        cases Numeral.integer? t.literal with
        | none => rfl
        | some v =>
            exact unplacedReading_bind (advance_unplaced b (t :: ts)) fun _ =>
              rfl
      · rw [if_neg hk, if_neg hk]
        rfl

private theorem pinDecls_unplaced (n : Nat) :
    Placeless (List.map PinDecl.unplaced) (pinDecls b n)
      (pinDecls b.unplaced n) := by
  induction n with
  | zero => exact fun _ => rfl
  | succ n ih =>
      intro ts
      rw [pinDecls, pinDecls]
      refine peeked_unplaced .ident ts ?_ rfl
      refine unplacedReading_bind (expect_unplaced b .ident ts) fun id =>
        unplacedReading_bind (expect_unplaced b .colon id.2) fun colon => ?_
      have hdirection :=
        (congrArg (·.isDirection = true) (peek_unplaced colon.2)).to_iff
      refine branch_unplaced hdirection ?_
        (congrArg Except.error (refuse_unplaced b _ _))
      refine unplacedReading_bind (advance_unplaced b colon.2) fun ts =>
        unplacedReading_bind (pinNumber_unplaced b ts) fun pin =>
          unplacedReading_bind (expect_unplaced b .semi pin.2) fun semi =>
            unplacedReading_bind (ih semi.2) fun ds => ?_
      simp only [unplacedPart, peek_unplaced]
      rfl

private theorem waypointDecls_unplaced (n : Nat) :
    Placeless (List.map WaypointDecl.unplaced) (waypointDecls b n)
      (waypointDecls b.unplaced n) := by
  have hfactor := fun n => (placelessExpressions b n).factor
  induction n with
  | zero => exact fun _ => rfl
  | succ n ih =>
      intro ts
      rw [waypointDecls, waypointDecls]
      refine peeked_unplaced .ident ts ?_ rfl
      exact unplacedReading_bind (expect_unplaced b .ident ts) fun id =>
        unplacedReading_bind (expect_unplaced b .assign id.2) fun op =>
          unplacedReading_bind (hfactor n op.2) fun distance =>
            unplacedReading_bind (expect_unplaced b .comma distance.2)
              fun comma =>
                unplacedReading_bind (hfactor n comma.2) fun speed =>
                  unplacedReading_bind (expect_unplaced b .semi speed.2)
                    fun semi => unplacedReading_bind (ih semi.2) fun _ => rfl

private theorem optionalSection_unplaced {α β : Type} {f : α → β}
    (keyword : Kind)
    {decls : List Token → Except ParseError (List α × List Token)}
    {decls' : List Token → Except ParseError (List β × List Token)}
    (h : Placeless (List.map f) decls decls') :
    Placeless (List.map f) (optionalSection b keyword decls)
      (optionalSection b.unplaced keyword decls') := by
  intro ts
  refine peeked_unplaced keyword ts ?_ rfl
  exact unplacedReading_bind (advance_unplaced b ts) fun ts => h ts

/-! ## Programs -/

private theorem block_unplaced (n : Nat) :
    Placeless Block.displaced (block b n) (block b.unplaced n) := fun ts =>
      unplacedReading_bind
        (optionalSection_unplaced b .kwVar (varDecls_unplaced b n) ts)
        fun vars =>
          unplacedReading_bind
            (optionalSection_unplaced b .kwPins (pinDecls_unplaced b n) vars.2)
            fun pins =>
              unplacedReading_bind
                (optionalSection_unplaced b .kwWaypoint
                  (waypointDecls_unplaced b n) pins.2) fun ways =>
                    unplacedReading_bind (expect_unplaced b .kwBegin ways.2)
                      fun bodyTok =>
                        unplacedReading_bind
                          ((placelessStatements b n).statements bodyTok.2)
                          fun body =>
                            unplacedReading_bind
                              (expect_unplaced b .kwEnd body.2) fun _ => rfl

/-- **Programs are read the same without places.** -/
theorem program_unplaced (n : Nat) (ts : List Token) :
    program b.unplaced n (ts.map Token.unplaced) =
      unplacedReading Program.displaced (program b n ts) := by
  refine unplacedReading_bind (expect_unplaced b .kwProgram ts) fun tok =>
    unplacedReading_bind (expect_unplaced b .ident tok.2) fun name =>
      unplacedReading_bind (expect_unplaced b .semi name.2) fun semi =>
        unplacedReading_bind (block_unplaced b n semi.2) fun body =>
          unplacedReading_bind (expect_unplaced b .dot body.2) fun dot => ?_
  exact peeked_unplaced .eof dot.2 rfl
    (congrArg Except.error (refuse_unplaced b _ _))

end Parse

private theorem Scan.parse_eq {s : Scan} (h : s.failure = none) :
    s.parse =
      Parse.program .exhausted (Parse.budget s.tokens.length) s.tokens := by
  unfold Scan.parse
  rw [h]

/-- **Sources with the same tokens are read the same,** up to places. -/
theorem Scan.parse_unplaced {s s' : Scan} (h : s.failure = none)
    (h' : s'.failure = none)
    (hsame : List.Forall₂ (fun t u => t.same u = true) s.tokens s'.tokens) :
    unplacedReading Program.displaced s.parse =
      unplacedReading Program.displaced s'.parse := by
  have htokens : s.tokens.map Token.unplaced = s'.tokens.map Token.unplaced :=
    Token.forall₂_same_iff.1 hsame
  rw [parse_eq h, parse_eq h', ← Parse.program_unplaced,
    ← Parse.program_unplaced, htokens, hsame.length_eq]

end Fixture
