import Fixture.Proofs.Grammar.Skim
/-!
# Plans of readers

What a reader does is laid down in a plan: stop, refuse the next token, look at
its kind, consume it, or call another reader and go on behind what that one
consumed. A plan has no loops and no recursion of its own. These are all in the
calls, where a plan names the reader that is called and nothing else. So what
there is to say about how readers call one another is said about plans, once for
each way to make one, and then holds of every reader.

## Main results

* `way_succ`: a reader with a budget follows its plan, and the readers that it
  calls have one less to spend.
* `program_follow`: the reader of programs follows its plan.
-/

namespace Fixture.Parse

attribute [local simp] peek factor pinNumber

/-! ## Readers and plans -/

/-- The readers that are called with a budget. -/
inductive Reader where
  | factor
  | termTail
  | term
  | sumTail
  | sum
  | comparison
  | expression
  | statement
  | statements
  | names
  | varDecls
  | pinDecls
  | waypointDecls
deriving DecidableEq

/-- The way of a reader. The operand on the left of a tail makes no difference
to it. -/
def Reader.way (b : ParseError) (n : Nat) : Reader → Skim
  | factor => skim (Parse.factor b n)
  | termTail => skim (Parse.termTail b n (.name default))
  | term => skim (Parse.term b n)
  | sumTail => skim (Parse.sumTail b n (.name default))
  | sum => skim (Parse.sum b n)
  | comparison => skim (Parse.comparison b n (.name default))
  | expression => skim (Parse.expression b n)
  | statement => skim (Parse.statement b n)
  | statements => skim (Parse.statements b n)
  | names => skim (Parse.names b n)
  | varDecls => skim (Parse.varDecls b n)
  | pinDecls => skim (Parse.pinDecls b n)
  | waypointDecls => skim (Parse.waypointDecls b n)

/-- What a reader does. -/
inductive Plan where
  /-- Nothing more. -/
  | stop
  /-- Refuses the next token. -/
  | refuse (expected : String)
  /-- Looks at the kind of the next token. -/
  | look (choose : Kind → Plan)
  /-- Consumes the next token. A numeral has to be in the range of its use. -/
  | take (use : Option NumberUse) (p : Plan)
  /-- Calls a reader. -/
  | call (r : Reader) (p : Plan)

/-- Whether a numeral is in the range of its use. -/
def inRange (use : NumberUse) (literal : String) : Bool :=
  match use with
  | .real => (Numeral.real? literal).isSome
  | .integer | .pin => (Numeral.integer? literal).isSome

/-- Consumes a token, which has to be in the range of its use if it has one. -/
def consume (b : ParseError) (use : Option NumberUse) (ts : List Token) :
    Except ParseError (List Token) :=
  match use, ts with
  | some u, t :: _ =>
    if inRange u t.literal then advance b ts else .error (.outOfRange u t)
  | _, _ => advance b ts

namespace Plan

/-- Follows a plan. The readers that it calls go the ways given. -/
def follow (b : ParseError) (way : Reader → Skim) : Plan → Skim
  | stop => .ok
  | refuse expected => fun ts => .error (Parse.refuse b expected ts)
  | look choose => fun ts => (choose (peek ts)).follow b way ts
  | take use p => consume b use >=> p.follow b way
  | call r p => way r >=> p.follow b way

/-- Goes on one way or the other. -/
def branch (q : Kind → Prop) [DecidablePred q] (p otherwise : Plan) : Plan :=
  look fun k => if q k then p else otherwise

/-- Consumes a token of a class, and goes on. -/
def among (q : Kind → Bool) (expected : String) (p : Plan) : Plan :=
  branch (q · = true) (take none p) (refuse expected)

/-- Consumes a token of a kind, and goes on. -/
def expect (k : Kind) (p : Plan) : Plan := among (· == k) k.name p

/-- Consumes a pin number, and goes on. -/
def pin (p : Plan) : Plan :=
  branch (· = .integerConst) (take (some .pin) p)
    (refuse (Kind.name .integerConst))

/-- Reads a section that a keyword opens, and goes on. -/
def optionalSection (k : Kind) (decls : Reader) (p : Plan) : Plan :=
  branch (· = k) (take none (call decls p)) p

end Plan

/-- The plan of a reader. -/
def Reader.plan : Reader → Plan
  | factor => .look fun
    | .plus | .minus => .take none (.call factor .stop)
    | .integerConst => .take (some .integer) .stop
    | .realConst => .take (some .real) .stop
    | .boolConst => .take none .stop
    | .lparen => .take none (.call expression (.expect .rparen .stop))
    | _ => .expect .ident .stop
  | termTail =>
    .branch (·.isMultiplicative = true)
      (.take none (.call factor (.call termTail .stop))) .stop
  | term => .call factor (.call termTail .stop)
  | sumTail =>
    .branch (·.isAdditive = true)
      (.take none (.call term (.call sumTail .stop))) .stop
  | sum => .call term (.call sumTail .stop)
  | comparison =>
    .branch (·.isRelational = true) (.take none (.call sum .stop)) .stop
  | expression => .call sum (.call comparison .stop)
  | statement => .look fun
    | .kwBegin => .take none (.call statements (.expect .kwEnd .stop))
    | .ident => .take none (.expect .assign (.call expression .stop))
    | .kwIf =>
      .take none (.call expression (.expect .colon
        (.call statements (.branch (· = .kwElse)
          (.take none
            (.expect .colon (.call statements (.expect .kwEndif .stop))))
          (.expect .kwEndif .stop)))))
    | .kwLoop =>
      .take none (.expect .colon
        (.call statements (.expect .kwUntil (.call expression .stop))))
    | .kwWait => .take none (.call expression .stop)
    | .kwMoveto | .kwRotate =>
      .take none (.call factor
        (.branch (· = .comma) (.take none (.call factor .stop)) .stop))
    | .kwHome | .kwStop => .take none .stop
    | _ => .stop
  | statements =>
    .call statement
      (.branch (· = .semi) (.take none (.call statements .stop)) .stop)
  | names =>
    .expect .ident (.branch (· = .comma) (.take none (.call names .stop)) .stop)
  | varDecls =>
    .branch (· = .ident)
      (.call names (.expect .colon (.among Kind.isVariableType
        "INTEGER, REAL or BOOL" (.expect .semi (.call varDecls .stop))))) .stop
  | pinDecls =>
    .branch (· = .ident)
      (.expect .ident (.expect .colon (.among Kind.isDirection "PININ or PINOUT"
        (.pin (.expect .semi (.call pinDecls .stop)))))) .stop
  | waypointDecls =>
    .branch (· = .ident)
      (.expect .ident (.expect .assign (.call factor
        (.expect .comma
          (.call factor (.expect .semi (.call waypointDecls .stop))))))) .stop

/-- The plan of the reader of programs. -/
def Plan.program : Plan :=
  .expect .kwProgram (.expect .ident (.expect .semi
    (.optionalSection .kwVar .varDecls (.optionalSection .kwPins .pinDecls
      (.optionalSection .kwWaypoint .waypointDecls
        (.expect .kwBegin (.call .statements
          (.expect .kwEnd (.expect .dot
            (.branch (· = .eof) .stop (.refuse (Kind.name .eof))))))))))))

/-! ## Plans and ways -/

section Equations

variable {b : ParseError} {n : Nat} {t : Token} {ts : List Token}
    {way : Reader → Skim}

private theorem kleisli_ok (X : Skim) : (X >=> Except.ok) = X := by
  funext ts
  exact bind_pure (X ts)

private theorem kleisli_assoc (X Y Z : Skim) :
    ((X >=> Y) >=> Z) = (X >=> Y >=> Z) := by
  funext ts
  exact bind_assoc (X ts) Y Z

section Branch

variable {q : Kind → Prop} [DecidablePred q] {p rest : Plan}

private theorem follow_branch_pos (hq : q (peek ts)) :
    (Plan.branch q p rest).follow b way ts = p.follow b way ts := by
  simp only [Plan.branch, Plan.follow, if_pos hq]

private theorem follow_branch_neg (hq : ¬ q (peek ts)) :
    (Plan.branch q p rest).follow b way ts = rest.follow b way ts := by
  simp only [Plan.branch, Plan.follow, if_neg hq]

/-- A branch that leads back to the other one is a detour. -/
private theorem follow_detour {X : Skim}
    (h : p.follow b way = (X >=> rest.follow b way)) :
    (Plan.branch q p rest).follow b way =
      (optionally q X >=> rest.follow b way) := by
  funext ts
  simp only [kleisli_eq, optionally]
  by_cases hq : q (peek ts)
  · rw [follow_branch_pos hq, if_pos hq, h]
    rfl
  · rw [follow_branch_neg hq, if_neg hq, ok_bind]

private theorem follow_branch_stop :
    (Plan.branch q p .stop).follow b way = optionally q (p.follow b way) := by
  rw [follow_detour (X := p.follow b way) (kleisli_ok _).symm]
  exact kleisli_ok _

end Branch

private theorem follow_among (q : Kind → Bool) (expected : String) (p : Plan) :
    (Plan.among q expected p).follow b way =
      (among b q expected >=> p.follow b way) := by
  funext ts
  simp only [Plan.among, kleisli_eq, among]
  by_cases hq : q (peek ts) = true
  · rw [follow_branch_pos hq, if_pos hq]
    rfl
  · rw [follow_branch_neg hq, if_neg hq]
    rfl

private theorem follow_expect {k : Kind} (hk : k ≠ .eof) (p : Plan) :
    (Plan.expect k p).follow b way =
      (skim (expect b k) >=> p.follow b way) := by
  have hexpect : skim (expect b k) = among b (· == k) k.name := by
    funext ts
    cases ts with
    | nil =>
        rw [among, peek, beq_false_of_ne hk.symm]
        rfl
    | cons t ts => exact skim_expect
  rw [Plan.expect, follow_among, hexpect]

/-- A numeral is consumed if it is in range. -/
private theorem skim_numeral {α : Type}
    {f : List Token → Except ParseError (α × List Token)} {use : NumberUse}
    (hin : inRange use t.literal = true →
      skim f (t :: ts) = advance b (t :: ts))
    (hout : inRange use t.literal = false →
      skim f (t :: ts) = .error (.outOfRange use t)) :
    skim f (t :: ts) = consume b (some use) (t :: ts) := by
  cases hv : inRange use t.literal with
  | true => rw [hin hv, consume, if_pos hv]
  | false =>
      rw [hout hv, consume, if_neg (by rw [hv]; exact Bool.false_ne_true)]

private theorem follow_pin (p : Plan) :
    (Plan.pin p).follow b way = (skim (pinNumber b) >=> p.follow b way) := by
  funext ts
  cases ts with
  | nil => rfl
  | cons t ts =>
      by_cases hk : t.kind = .integerConst
      · have hnumeral : skim (pinNumber b) (t :: ts) =
            consume b (some .pin) (t :: ts) := by
          refine skim_numeral (fun hv => ?_) fun hv => ?_
          · obtain ⟨v, hv⟩ := Option.isSome_iff_exists.1 hv
            simp only [skim_eq, pinNumber, if_pos hk, hv, bind_assoc, pure_bind,
              bind_pure]
          · have hnone :=
              Option.not_isSome_iff_eq_none.1 (Bool.not_eq_true _ ▸ hv)
            simp only [skim_eq, pinNumber, if_pos hk, hnone]
            rfl
        rw [Plan.pin, follow_branch_pos hk]
        simp only [kleisli_eq, hnumeral]
        rfl
      · rw [Plan.pin, follow_branch_neg hk]
        simp only [kleisli_eq, skim_eq, pinNumber, if_neg hk]
        rfl

/-! ## Readers follow their plans -/

/-- The reader of factors follows its plan. -/
private theorem way_factor : Reader.way b (n + 1) .factor (t :: ts) =
    (Reader.plan .factor).follow b (Reader.way b n) (t :: ts) := by
  have hsigned (hk : t.kind.isAdditive = true) : Reader.way b (n + 1) .factor
        (t :: ts) =
      (Plan.take none (.call .factor .stop)).follow b (Reader.way b n)
        (t :: ts) := by
    simp only [Plan.follow, kleisli_ok]
    exact skim_factor_signed hk
  simp only [Reader.plan, Plan.follow, peek]
  cases hk : t.kind with
  | plus => exact hsigned (by rw [hk]; rfl)
  | minus => exact hsigned (by rw [hk]; rfl)
  | integerConst =>
      simp only [Plan.follow, kleisli_ok]
      refine skim_numeral (fun hv => ?_) fun hv => ?_
      · obtain ⟨v, hv⟩ := Option.isSome_iff_exists.1 hv
        exact skim_factor_integer hk hv
      · have hnone := Option.not_isSome_iff_eq_none.1 (Bool.not_eq_true _ ▸ hv)
        simp only [skim_eq, factor, hk, hnone]
        rfl
  | realConst =>
      simp only [Plan.follow, kleisli_ok]
      refine skim_numeral (fun hv => ?_) fun hv => ?_
      · obtain ⟨v, hv⟩ := Option.isSome_iff_exists.1 hv
        exact skim_factor_real hk hv
      · have hnone := Option.not_isSome_iff_eq_none.1 (Bool.not_eq_true _ ▸ hv)
        simp only [skim_eq, factor, hk, hnone]
        rfl
  | boolConst =>
      simp only [Plan.follow, kleisli_ok]
      exact skim_factor_boolean hk
  | lparen =>
      simp (disch := decide) only [Plan.follow, follow_expect, kleisli_ok]
      exact skim_factor_paren hk
  | _ =>
      simp (disch := decide) only [follow_expect, Plan.follow, kleisli_ok]
      exact skim_factor_name (by rw [hk]; rfl)

/-- The reader of statements follows its plan. -/
private theorem way_statement : Reader.way b (n + 1) .statement (t :: ts) =
    (Reader.plan .statement).follow b (Reader.way b n) (t :: ts) := by
  have hmoved (axis : Axis) (hk : t.kind = axis.kind) : Reader.way b (n + 1)
        .statement (t :: ts) =
      (Plan.take none (.call .factor
        (.branch (· = .comma) (.take none (.call .factor .stop)) .stop))).follow
        b (Reader.way b n) (t :: ts) := by
    have hoperands : skim (operands b n) = (Reader.way b n .factor >=>
        optionally (· = .comma) (advance b >=> Reader.way b n .factor)) := by
      funext us
      exact skim_operands
    simp only [Plan.follow, follow_branch_stop, kleisli_ok]
    refine (skim_move hk).trans ?_
    rw [hoperands]
    rfl
  simp only [Reader.plan, Plan.follow, peek]
  cases hk : t.kind with
  | kwBegin =>
      simp (disch := decide) only [Plan.follow, follow_expect, kleisli_ok]
      exact skim_compound hk
  | ident =>
      simp (disch := decide) only [Plan.follow, follow_expect, kleisli_ok]
      exact skim_assign hk
  | kwIf =>
      have halternative : (Plan.take none
            (.expect .colon
              (.call .statements (.expect .kwEndif .stop)))).follow b
            (Reader.way b n) =
          ((advance b >=> skim (expect b .colon) >=>
            Reader.way b n .statements) >=>
            (Plan.expect .kwEndif .stop).follow b (Reader.way b n)) := by
        simp (disch := decide) only [Plan.follow, follow_expect, kleisli_assoc]
        rfl
      simp (disch := decide) only
        [Plan.follow, follow_expect, follow_detour halternative, kleisli_ok]
      exact skim_branch hk
  | kwLoop =>
      simp (disch := decide) only [Plan.follow, follow_expect, kleisli_ok]
      exact skim_loop hk
  | kwWait =>
      simp only [Plan.follow, kleisli_ok]
      exact skim_wait hk
  | kwMoveto => exact hmoved .linear hk
  | kwRotate => exact hmoved .rotary hk
  | kwHome =>
      simp only [Plan.follow, kleisli_ok]
      exact skim_home hk
  | kwStop =>
      simp only [Plan.follow, kleisli_ok]
      exact skim_stop hk
  | _ => exact skim_empty (by rw [hk]; rfl)

/-- **A reader follows its plan,** and the readers that it calls have one less
to spend. -/
theorem way_succ (r : Reader) :
    r.way b (n + 1) (t :: ts) = r.plan.follow b (Reader.way b n) (t :: ts) := by
  cases r with
  | factor => exact way_factor
  | statement => exact way_statement
  | term =>
      simp only [Reader.plan, Plan.follow, kleisli_ok]
      exact skim_term _
  | sum =>
      simp only [Reader.plan, Plan.follow, kleisli_ok]
      exact skim_sum _
  | expression =>
      simp only [Reader.plan, Plan.follow, kleisli_ok]
      exact skim_expression _
  | termTail =>
      simp only [Reader.plan, follow_branch_stop, Plan.follow, kleisli_ok]
      exact skim_termTail _
  | sumTail =>
      simp only [Reader.plan, follow_branch_stop, Plan.follow, kleisli_ok]
      exact skim_sumTail _
  | comparison =>
      simp only [Reader.plan, follow_branch_stop, Plan.follow, kleisli_ok]
      exact skim_comparison _
  | statements =>
      simp only [Reader.plan, Plan.follow, follow_branch_stop, kleisli_ok]
      exact skim_statements
  | names =>
      simp (disch := decide) only [Reader.plan, follow_expect,
        follow_branch_stop, Plan.follow, kleisli_ok]
      exact skim_names
  | varDecls =>
      simp (disch := decide) only [Reader.plan, follow_expect, follow_among,
        follow_branch_stop, Plan.follow, kleisli_ok]
      exact skim_varDecls
  | pinDecls =>
      simp (disch := decide) only [Reader.plan, follow_expect, follow_among,
        follow_pin, follow_branch_stop, Plan.follow, kleisli_ok]
      exact skim_pinDecls
  | waypointDecls =>
      simp (disch := decide) only [Reader.plan, follow_expect,
        follow_branch_stop, Plan.follow, kleisli_ok]
      exact skim_waypointDecls

private theorem follow_section (k : Kind) {decls : Reader} {α : Type}
    {f : List Token → Except ParseError (List α × List Token)}
    (hf : way decls = skim f) (p : Plan) :
    (Plan.optionalSection k decls p).follow b way =
      (skim (optionalSection b k f) >=> p.follow b way) := by
  have hsection : skim (optionalSection b k f) =
      optionally (· = k) (advance b >=> way decls) := by
    funext ts
    rw [hf]
    exact skim_section k f
  rw [hsection]
  refine follow_detour ?_
  simp only [Plan.follow, kleisli_assoc]
  rfl

/-- **The reader of programs follows its plan.** -/
theorem program_follow :
    (fun _ => ()) <$> program b n ts =
      (fun _ => ()) <$> Plan.program.follow b (Reader.way b n) ts := by
  have hframe : Plan.program.follow b (Reader.way b n) =
      (frame b n >=> atEnd b) := by
    have hblock := funext (@skim_block b n)
    have hend : (Plan.branch (· = .eof) .stop (.refuse (Kind.name .eof))).follow
          b (Reader.way b n) = atEnd b := by
      funext ts
      by_cases hk : peek ts = .eof
      · rw [follow_branch_pos hk, atEnd, if_pos hk]
        rfl
      · rw [follow_branch_neg hk, atEnd, if_neg hk]
        rfl
    have hvar (p : Plan) : (Plan.optionalSection .kwVar .varDecls p).follow b
          (Reader.way b n) =
        (skim (optionalSection b .kwVar (varDecls b n)) >=>
          p.follow b (Reader.way b n)) := follow_section .kwVar rfl p
    have hpins (p : Plan) : (Plan.optionalSection .kwPins .pinDecls p).follow b
          (Reader.way b n) =
        (skim (optionalSection b .kwPins (pinDecls b n)) >=>
          p.follow b (Reader.way b n)) :=
      follow_section .kwPins rfl p
    have hwaypoints (p : Plan) : (Plan.optionalSection .kwWaypoint
          .waypointDecls p).follow b (Reader.way b n) =
        (skim (optionalSection b .kwWaypoint (waypointDecls b n)) >=>
          p.follow b (Reader.way b n)) :=
      follow_section .kwWaypoint rfl p
    simp (disch := decide) only [Plan.program, follow_expect, hvar, hpins,
      hwaypoints, Plan.follow, hend, frame, hblock, kleisli_assoc]
    rfl
  rw [hframe]
  exact skim_program

end Equations

end Fixture.Parse
