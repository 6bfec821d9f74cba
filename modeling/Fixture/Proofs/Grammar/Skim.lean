import Fixture.Proofs.Grammar.Complete
/-!
# Reading without trees

Where a reader stops, and with what error, never depends on the trees that it
builds. `skim` forgets them, and what is left of the reader is its way through
the tokens. That way is put together from few pieces with `>=>`: consume a
token, expect one of a kind or of a class, go on to another reader, and do
something only if the next token asks for it. This module has one equation for
each production, and after it the readers themselves are not opened again.

## Main results

* `skim_factor_paren` and its likes: one for each thing that a reader may do.
* `skim_program`: the reader of programs.
-/

namespace Fixture.Parse

attribute [local simp] peek advance expect factor termTail term sumTail sum
  comparison expression operands statement statements names varDecls pinNumber
  pinDecls waypointDecls optionalSection

/-- A way through the tokens: what stands behind the tokens that were consumed,
or an error. -/
abbrev Skim := List Token → Except ParseError (List Token)

/-- A reader without its trees. -/
def skim {α : Type} (f : List Token → Except ParseError (α × List Token)) :
    Skim := fun ts => Prod.snd <$> f ts

/-- Goes some way if the next token asks for it. -/
def optionally (p : Kind → Prop) [DecidablePred p] (X : Skim) : Skim :=
  fun ts => if p (peek ts) then X ts else .ok ts

/-- Consumes a token of a class. -/
def among (b : ParseError) (p : Kind → Bool) (expected : String) : Skim :=
  fun ts => if p (peek ts) then advance b ts else .error (refuse b expected ts)

theorem skim_eq {α : Type}
    (f : List Token → Except ParseError (α × List Token)) :
    skim f = fun ts => f ts >>= fun p => pure p.2 := by
  funext ts
  exact map_eq_pure_bind Prod.snd (f ts)

theorem kleisli_eq (X Y : Skim) : (X >=> Y) = fun ts => X ts >>= Y := rfl

section Equations

variable {b : ParseError} {n : Nat} {t : Token} {ts : List Token}

/-- To expect a token is to consume it if it is of the kind. -/
theorem skim_expect {k : Kind} :
    skim (expect b k) (t :: ts) = among b (· == k) k.name (t :: ts) := by
  by_cases hk : t.kind = k
  · simp only [skim_eq, expect, if_pos hk, among, peek, beq_iff_eq, bind_assoc,
      pure_bind, bind_pure]
  · simp only [skim_eq, expect, if_neg hk, among, peek, beq_iff_eq]
    rfl

/-! ## Expressions -/

theorem skim_factor_signed (hk : t.kind.isAdditive = true) :
    skim (factor b (n + 1)) (t :: ts) =
      (advance b >=> skim (factor b n)) (t :: ts) := by
  simp only [skim_eq, kleisli_eq]
  simp only [factor_signed hk, bind_assoc, pure_bind]

theorem skim_factor_integer (hk : t.kind = .integerConst) {v : Int64}
    (hv : Numeral.integer? t.literal = some v) :
    skim (factor b (n + 1)) (t :: ts) = advance b (t :: ts) := by
  simp only [skim_eq]
  simp only [factor, hk, hv, bind_assoc, pure_bind, bind_pure]

theorem skim_factor_real (hk : t.kind = .realConst) {x : Float}
    (hx : Numeral.real? t.literal = some x) :
    skim (factor b (n + 1)) (t :: ts) = advance b (t :: ts) := by
  simp only [skim_eq]
  simp only [factor, hk, hx, bind_assoc, pure_bind, bind_pure]

theorem skim_factor_boolean (hk : t.kind = .boolConst) :
    skim (factor b (n + 1)) (t :: ts) = advance b (t :: ts) := by
  simp only [skim_eq]
  simp only [factor, hk, bind_assoc, pure_bind, bind_pure]

theorem skim_factor_paren (hk : t.kind = .lparen) :
    skim (factor b (n + 1)) (t :: ts) =
      (advance b >=> skim (expression b n) >=> skim (expect b .rparen))
        (t :: ts) := by
  simp only [skim_eq, kleisli_eq]
  simp only [factor, hk, bind_assoc, pure_bind]

/-- The kinds that a factor begins with, names aside. -/
def beginsFactor : Kind → Bool
  | .plus | .minus | .integerConst | .realConst | .boolConst | .lparen => true
  | _ => false

theorem skim_factor_name (hk : beginsFactor t.kind = false) :
    skim (factor b (n + 1)) (t :: ts) = skim (expect b .ident) (t :: ts) := by
  simp only [skim_eq]
  rw [factor]
  split <;> simp_all [beginsFactor]

section OperatorTail

variable {p : Kind → Bool} {operand : ExprReader} {more : Expr → ExprReader}
  (hmore : ∀ (left left' : Expr) (ts : List Token),
    skim (more left) ts = skim (more left') ts)
include hmore

/-- The operand on the left makes no difference. -/
private theorem skim_operatorTail_left (left left' : Expr) (ts : List Token) :
    skim (operatorTail b p operand more left) ts =
      skim (operatorTail b p operand more left') ts := by
  cases ts with
  | nil => rfl
  | cons op ts =>
      simp only [skim, operatorTail]
      by_cases hk : p op.kind = true
      · simp only [if_pos hk, map_bind]
        exact bind_congr fun us => bind_congr fun r => hmore _ _ _
      · simp only [if_neg hk]
        rfl

private theorem skim_operatorTail (left : Expr) :
    skim (operatorTail b p operand more left) (t :: ts) =
      optionally (p · = true) (advance b >=> skim operand >=> skim (more left))
        (t :: ts) := by
  by_cases hk : p t.kind = true
  · simp only [optionally, peek, skim_eq, kleisli_eq]
    simp only [if_pos hk, operatorTail, bind_assoc, pure_bind]
    refine bind_congr fun us => bind_congr fun r => ?_
    simpa only [skim_eq] using hmore _ left r.2
  · simp only [optionally, peek, skim_eq]
    simp only [if_neg hk, operatorTail]
    rfl

end OperatorTail

private theorem skim_termTail_left (left left' : Expr) (ts : List Token) :
    skim (termTail b n left) ts = skim (termTail b n left') ts := by
  induction n generalizing left left' ts with
  | zero => rfl
  | succ n ih => exact skim_operatorTail_left ih left left' ts

theorem skim_termTail (left : Expr) :
    skim (termTail b (n + 1) left) (t :: ts) =
      optionally (·.isMultiplicative = true)
        (advance b >=> skim (factor b n) >=> skim (termTail b n left))
        (t :: ts) :=
  skim_operatorTail skim_termTail_left left

theorem skim_term (left : Expr) :
    skim (term b (n + 1)) ts =
      (skim (factor b n) >=> skim (termTail b n left)) ts := by
  simp only [skim_eq, kleisli_eq]
  simp only [term, bind_assoc, pure_bind]
  refine bind_congr fun p => ?_
  simpa only [skim_eq] using skim_termTail_left p.1 left p.2

private theorem skim_sumTail_left (left left' : Expr) (ts : List Token) :
    skim (sumTail b n left) ts = skim (sumTail b n left') ts := by
  induction n generalizing left left' ts with
  | zero => rfl
  | succ n ih => exact skim_operatorTail_left ih left left' ts

theorem skim_sumTail (left : Expr) :
    skim (sumTail b (n + 1) left) (t :: ts) = optionally (·.isAdditive = true)
      (advance b >=> skim (term b n) >=> skim (sumTail b n left)) (t :: ts) :=
  skim_operatorTail skim_sumTail_left left

theorem skim_sum (left : Expr) :
    skim (sum b (n + 1)) ts =
      (skim (term b n) >=> skim (sumTail b n left)) ts := by
  simp only [skim_eq, kleisli_eq]
  simp only [sum, bind_assoc, pure_bind]
  refine bind_congr fun p => ?_
  simpa only [skim_eq] using skim_sumTail_left p.1 left p.2

theorem skim_comparison (left : Expr) :
    skim (comparison b (n + 1) left) (t :: ts) =
      optionally (·.isRelational = true) (advance b >=> skim (sum b n))
        (t :: ts) := by
  have hnone (X : Skim) : (X >=> skim fun ts => .ok (left, ts)) = X := by
    funext ts
    exact bind_pure (X ts)
  have hmore (left left' : Expr) (ts : List Token) : skim
        (fun ts => .ok (left, ts)) ts = skim (fun ts => .ok (left', ts)) ts :=
    rfl
  rw [← hnone (skim (sum b n))]
  exact skim_operatorTail hmore left

private theorem skim_comparison_left (left left' : Expr) (ts : List Token) :
    skim (comparison b n left) ts = skim (comparison b n left') ts := by
  cases n with
  | zero => rfl
  | succ n =>
      have hmore (left left' : Expr) (ts : List Token) :
          skim (fun ts => .ok (left, ts)) ts =
            skim (fun ts => .ok (left', ts)) ts := rfl
      exact skim_operatorTail_left hmore left left' ts

theorem skim_expression (left : Expr) :
    skim (expression b (n + 1)) ts =
      (skim (sum b n) >=> skim (comparison b n left)) ts := by
  simp only [skim_eq, kleisli_eq]
  simp only [expression, bind_assoc, pure_bind]
  refine bind_congr fun p => ?_
  simpa only [skim_eq] using skim_comparison_left p.1 left p.2

/-! ## Choices -/

section Choices

variable {α : Type} {X : Skim}

/-- What is read only if the next token asks for it. -/
private theorem bind_ite_peek {k : Kind}
    {x : Except ParseError (α × List Token)}
    (hx : (x >>= fun p => pure p.2) = X ts) (a : α) :
    ((if peek ts = k then x else pure (a, ts)) >>= fun p => pure p.2) =
      optionally (· = k) X ts := by
  by_cases hk : peek ts = k
  · rw [optionally, if_pos hk, if_pos hk, hx]
  · rw [optionally, if_neg hk, if_neg hk]
    rfl

/-- What is read behind a token of a class. -/
private theorem bind_ite_among {p : Kind → Bool} {expected : String}
    {f : List Token → Except ParseError (α × List Token)}
    (hf : ∀ us, (f us >>= fun p => pure p.2) = X us) :
    ((if p (peek ts) = true then advance b ts >>= f
      else .error (refuse b expected ts)) >>= fun p => pure p.2) =
      among b p expected ts >>= X := by
  by_cases hp : p (peek ts) = true
  · rw [among, if_pos hp, if_pos hp, bind_assoc]
    exact bind_congr hf
  · rw [among, if_neg hp, if_neg hp]
    rfl

end Choices

/-! ## Statements -/

theorem skim_operands :
    skim (operands b n) ts =
      (skim (factor b n) >=>
        optionally (· = .comma) (advance b >=> skim (factor b n))) ts := by
  simp only [skim_eq, operands, kleisli_eq, bind_assoc, pure_bind]
  refine bind_congr fun p => bind_ite_peek ?_ _
  simp only [bind_assoc, pure_bind]

theorem skim_compound (hk : t.kind = .kwBegin) :
    skim (statement b (n + 1)) (t :: ts) =
      (advance b >=> skim (statements b n) >=> skim (expect b .kwEnd))
        (t :: ts) := by
  simp only [skim_eq, kleisli_eq]
  simp only [statement, hk, bind_assoc, pure_bind]

theorem skim_assign (hk : t.kind = .ident) :
    skim (statement b (n + 1)) (t :: ts) =
      (advance b >=> skim (expect b .assign) >=> skim (expression b n))
        (t :: ts) := by
  simp only [skim_eq, kleisli_eq]
  simp only [statement, hk, bind_assoc, pure_bind]

theorem skim_branch (hk : t.kind = .kwIf) :
    skim (statement b (n + 1)) (t :: ts) =
      (advance b >=> skim (expression b n) >=> skim (expect b .colon) >=>
        skim (statements b n) >=>
        optionally (· = .kwElse)
          (advance b >=> skim (expect b .colon) >=> skim (statements b n)) >=>
        skim (expect b .kwEndif)) (t :: ts) := by
  simp only [skim_eq, kleisli_eq]
  simp only [statement, hk, bind_assoc, pure_bind]
  refine bind_congr fun us =>
    bind_congr fun c => bind_congr fun colon => bind_congr fun body => ?_
  by_cases hp : peek body.2 = .kwElse
  · simp only [optionally, if_pos hp, bind_assoc, pure_bind]
  · simp only [optionally, if_neg hp, bind_assoc, pure_bind, ok_bind]

theorem skim_loop (hk : t.kind = .kwLoop) :
    skim (statement b (n + 1)) (t :: ts) =
      (advance b >=> skim (expect b .colon) >=> skim (statements b n) >=>
        skim (expect b .kwUntil) >=> skim (expression b n)) (t :: ts) := by
  simp only [skim_eq, kleisli_eq]
  simp only [statement, hk, bind_assoc, pure_bind]

theorem skim_wait (hk : t.kind = .kwWait) :
    skim (statement b (n + 1)) (t :: ts) =
      (advance b >=> skim (expression b n)) (t :: ts) := by
  simp only [skim_eq, kleisli_eq]
  simp only [statement, hk, bind_assoc, pure_bind]

theorem skim_move {axis : Axis} (hk : t.kind = axis.kind) :
    skim (statement b (n + 1)) (t :: ts) =
      (advance b >=> skim (operands b n)) (t :: ts) := by
  simp only [skim_eq, kleisli_eq]
  simp only [statement_move hk, bind_assoc, pure_bind]

theorem skim_home (hk : t.kind = .kwHome) :
    skim (statement b (n + 1)) (t :: ts) = advance b (t :: ts) := by
  simp only [skim_eq]
  simp only [statement, hk, bind_assoc, pure_bind, bind_pure]

theorem skim_stop (hk : t.kind = .kwStop) :
    skim (statement b (n + 1)) (t :: ts) = advance b (t :: ts) := by
  simp only [skim_eq]
  simp only [statement, hk, bind_assoc, pure_bind, bind_pure]

/-- The kinds that a statement begins with, unless it is empty. -/
def beginsStatement : Kind → Bool
  | .kwBegin | .ident | .kwIf | .kwLoop | .kwWait | .kwMoveto | .kwRotate |
      .kwHome | .kwStop => true
  | _ => false

theorem skim_empty (hk : beginsStatement t.kind = false) :
    skim (statement b (n + 1)) (t :: ts) = .ok (t :: ts) := by
  simp only [skim_eq]
  rw [statement]
  split <;> simp_all [beginsStatement]

theorem skim_statements :
    skim (statements b (n + 1)) ts =
      (skim (statement b n) >=>
        optionally (· = .semi) (advance b >=> skim (statements b n))) ts := by
  simp only [skim_eq, statements, kleisli_eq, bind_assoc, pure_bind]
  refine bind_congr fun p => bind_ite_peek ?_ _
  simp only [bind_assoc, pure_bind]

/-! ## Declarations -/

theorem skim_names :
    skim (names b (n + 1)) ts =
      (skim (expect b .ident) >=>
        optionally (· = .comma) (advance b >=> skim (names b n))) ts := by
  simp only [skim_eq, names, kleisli_eq, bind_assoc, pure_bind]
  refine bind_congr fun p => bind_ite_peek ?_ _
  simp only [bind_assoc, pure_bind]

theorem skim_varDecls :
    skim (varDecls b (n + 1)) ts =
      optionally (· = .ident)
        (skim (names b n) >=> skim (expect b .colon) >=>
          among b Kind.isVariableType "INTEGER, REAL or BOOL" >=>
          skim (expect b .semi) >=> skim (varDecls b n)) ts := by
  simp only [skim_eq, varDecls]
  refine bind_ite_peek ?_ _
  simp only [kleisli_eq, bind_assoc]
  refine bind_congr fun p => bind_congr fun q => bind_ite_among fun us => ?_
  simp only [bind_assoc, pure_bind]

/-- A pin number is an integer that fits. -/
theorem skim_pinNumber
    (h : t.kind = .integerConst → (Numeral.integer? t.literal).isSome = true) :
    skim (pinNumber b) (t :: ts) = skim (expect b .integerConst) (t :: ts) := by
  simp only [skim_eq]
  by_cases hk : t.kind = .integerConst
  · obtain ⟨v, hv⟩ := Option.isSome_iff_exists.1 (h hk)
    simp only [pinNumber, expect, if_pos hk, hv, bind_assoc, pure_bind]
  · simp only [pinNumber, expect, if_neg hk]
    rfl

theorem skim_pinDecls :
    skim (pinDecls b (n + 1)) ts =
      optionally (· = .ident)
        (skim (expect b .ident) >=> skim (expect b .colon) >=>
          among b Kind.isDirection "PININ or PINOUT" >=> skim (pinNumber b) >=>
          skim (expect b .semi) >=> skim (pinDecls b n)) ts := by
  simp only [skim_eq, pinDecls]
  refine bind_ite_peek ?_ _
  simp only [kleisli_eq, bind_assoc]
  refine bind_congr fun p => bind_congr fun q => bind_ite_among fun us => ?_
  simp only [bind_assoc, pure_bind]

theorem skim_waypointDecls :
    skim (waypointDecls b (n + 1)) ts =
      optionally (· = .ident)
        (skim (expect b .ident) >=> skim (expect b .assign) >=>
          skim (factor b n) >=> skim (expect b .comma) >=> skim (factor b n) >=>
          skim (expect b .semi) >=> skim (waypointDecls b n)) ts := by
  simp only [skim_eq, waypointDecls]
  refine bind_ite_peek ?_ _
  simp only [kleisli_eq, bind_assoc, pure_bind]

theorem skim_section {α : Type} (k : Kind)
    (decls : List Token → Except ParseError (List α × List Token)) :
    skim (optionalSection b k decls) ts =
      optionally (· = k) (advance b >=> skim decls) ts := by
  by_cases hk : peek ts = k
  · simp only [optionally, skim_eq, kleisli_eq, optionalSection, if_pos hk,
      bind_assoc]
  · simp only [optionally, skim_eq, optionalSection, if_neg hk]
    rfl

/-! ## Programs -/

theorem skim_block :
    skim (block b n) ts =
      (skim (optionalSection b .kwVar (varDecls b n)) >=>
        skim (optionalSection b .kwPins (pinDecls b n)) >=>
        skim (optionalSection b .kwWaypoint (waypointDecls b n)) >=>
        skim (expect b .kwBegin) >=> skim (statements b n) >=>
        skim (expect b .kwEnd)) ts := by
  simp only [skim_eq, kleisli_eq, block, bind_assoc, pure_bind]

/-- A program up to its point. -/
def frame (b : ParseError) (n : Nat) : Skim :=
  skim (expect b .kwProgram) >=> skim (expect b .ident) >=>
    skim (expect b .semi) >=> skim (block b n) >=> skim (expect b .dot)

/-- Goes nowhere, and requires the end of the source. -/
def atEnd (b : ParseError) : Skim :=
  fun ts =>
    if peek ts = .eof then .ok ts else .error (refuse b (Kind.name .eof) ts)

/-- A program is read if its way leads to the end. -/
theorem skim_program :
    (fun _ => ()) <$> program b n ts =
      (fun _ => ()) <$> (frame b n >=> atEnd b) ts := by
  simp only [frame, skim_eq, kleisli_eq, program, map_eq_pure_bind, bind_assoc,
    pure_bind]
  refine bind_congr fun p =>
    bind_congr fun q =>
      bind_congr fun r => bind_congr fun s => bind_congr fun u => ?_
  by_cases hp : peek u.2 = .eof
  · simp only [atEnd, if_pos hp, pure_bind, ok_bind]
  · simp only [atEnd, if_neg hp]
    rfl

end Equations

end Fixture.Parse
