import Fixture.Proofs.Kinds
import Fixture.Proofs.RoundTrip
import Fixture.Proofs.Run.Faults
/-!
# Runs end in an orderly way

Some ends of a run would be the interpreter's own fault: a node that has no
meaning by itself, an operation whose token is no operator, a declared type that
the language does not have. Nothing in the interpreter rules them out. What does
is the reader: it only makes trees that are legible, and so are the parts of
such trees.

An interpreter may be used again and again, with other programs and on other
hosts, and what it keeps from the past are declared types and the operands of
waypoints. Those come from trees that were read as well. So whatever was done
before, and however it ended, nothing of that kind happens.

## Main results

* `Node.PartOf.legible`: the parts of a program that was read are legible.
* `Expr.eval_orderly`, `Deed.Legible.orderly`: evaluation ends in an orderly
  way.
* `visit_orderly`: so does everything that is done with the parts of programs,
  one after the other.
-/

namespace Fixture

/-! ## Parts of programs -/

/-- The statement list of a branch, a loop or a block as a statement. -/
def bodyNode (tok : Token) (body : List Stmt) : Node :=
  .statement (.compound tok body)

/-- The nodes right below a node that can be visited by themselves. -/
def Node.children : Node → List Node
  | .program p => [.block p.block]
  | .block b =>
    bodyNode b.bodyTok b.body ::
      b.waypoints.flatMap fun d => [.expression d.distance, .expression d.speed]
  | .statement (.compound _ body) => body.map .statement
  | .statement (.assign _ target value) =>
    [.expression (.name target), .expression value]
  | .statement (.ifThen _ c tok body) =>
    [.expression c, bodyNode tok body, .statement .skip]
  | .statement (.ifElse _ c tok body altTok alt) =>
    [.expression c, bodyNode tok body, bodyNode altTok alt]
  | .statement (.loop _ tok body c) => [bodyNode tok body, .expression c]
  | .statement (.wait _ d) => [.expression d]
  | .statement (.move _ _ d s) => .expression d :: s.toList.map .expression
  | .expression (.signed _ e) => [.expression e]
  | .expression (.binary _ l r) => [.expression l, .expression r]
  | _ => []

/-- A program and all that is below it. -/
inductive Node.PartOf (p : Program) : Node → Prop where
  | whole : PartOf p (.program p)
  | child {n c : Node} (hn : PartOf p n) (hc : c ∈ n.children) : PartOf p c

/-- A node whose tokens are what they look like. -/
def Node.Legible : Node → Prop
  | .program p => p.Legible
  | .block b => b.Legible
  | .statement s => s.Legible
  | .expression e => e.Legible
  | _ => False

private theorem legibleEach_iff {ss : List Stmt} :
    LegibleEach ss ↔ ∀ s ∈ ss, s.Legible := by
  induction ss with
  | nil => simp
  | cons s ss ih => rw [LegibleEach, List.forall_mem_cons, ih]

private theorem Node.Legible.children {n : Node} (h : n.Legible) :
    ∀ c ∈ n.children, c.Legible := by
  match n with
  | .program p => exact List.forall_mem_singleton.2 (Program.Legible.block h)
  | .block b =>
      have hb : b.Legible := h
      simp only [Node.children, List.forall_mem_cons, List.mem_flatMap]
      refine ⟨hb.body, ?_⟩
      rintro c ⟨d, hd, hc⟩
      have hways := hb.waypoints d hd
      rcases List.mem_pair.1 hc with rfl | rfl
      · exact hways.2.1
      · exact hways.2.2
  | .statement (.compound _ body) =>
      exact List.forall_mem_map.2 (legibleEach_iff.1 h)
  | .statement (.assign _ target value) =>
      obtain ⟨-, hkind, hspelt, hvalue⟩ := h
      simp only [Node.children, List.forall_mem_cons]
      exact ⟨⟨hkind, hspelt⟩, hvalue, by simp⟩
  | .statement (.ifThen _ c _ body) =>
      simp only [Node.children, List.forall_mem_cons]
      exact ⟨h.2.1, h.2.2, trivial, by simp⟩
  | .statement (.ifElse _ c _ body _ alt) =>
      simp only [Node.children, List.forall_mem_cons]
      exact ⟨h.2.1, h.2.2.1, h.2.2.2, by simp⟩
  | .statement (.loop _ _ body c) =>
      simp only [Node.children, List.forall_mem_cons]
      exact ⟨h.2.1, h.2.2, by simp⟩
  | .statement (.wait _ d) => exact List.forall_mem_singleton.2 h.2
  | .statement (.move _ _ d s) =>
      simp only [Node.children, List.forall_mem_cons]
      refine ⟨h.2.1,
        List.forall_mem_map.2 fun e he => h.2.2 e (Option.mem_toList.1 he)⟩
  | .expression (.signed _ e) => exact List.forall_mem_singleton.2 h.2.2
  | .expression (.binary _ l r) =>
      simp only [Node.children, List.forall_mem_cons]
      exact ⟨h.2.2.1, h.2.2.2, by simp⟩
  | .statement .skip | .statement (.home _) | .statement (.stop _) | .expression
      (.name _)
  | .expression (.integer _ _) | .expression (.real _ _) |
      .expression (.boolean _ _) => simp [Node.children]
  | .varDecl | .pinDecl | .waypointDecl | .absent => exact h.elim

/-- **The parts of a program that was read are legible.** -/
theorem Node.PartOf.legible {src : List UInt8} {p : Program} {n : Node}
    (hn : n.PartOf p) (hp : parse src = .ok p) : n.Legible := by
  induction hn with
  | whole => exact Program.legible_of_parse hp
  | child _ hc ih => exact ih.children _ hc

/-! ## Evaluation -/

/-- A fault that the language knows of. -/
def Fault.Orderly (f : Fault) : Prop := f.cause.kind ≠ .illegalType

/-- An end of an evaluation that is the program's doing. -/
def EvalError.Orderly : EvalError → Prop
  | .fault f => f.Orderly
  | .unexpectedOperator _ => False

/-- An end of a run that is not the interpreter's own doing. -/
def Halt.Orderly {ε : Type} : Halt ε → Prop
  | .fault f => f.Orderly
  | .failure _ | .cancelled | .unfinished => True
  | .unexpectedOperator _ | .unexpectedNode _ => False

private theorem EvalError.Orderly.halt {ε : Type} {err : EvalError}
    (h : err.Orderly) : (Halt.ofEval err : Halt ε).Orderly := by
  cases err with
  | fault f => exact h
  | unexpectedOperator k => exact h

/-- A result that is a value, or an error that is the program's doing. -/
def OrderlyResult {α : Type} (r : Except EvalError α) : Prop :=
  ∀ err, r = .error err → err.Orderly

namespace OrderlyResult

variable {α β : Type}

private theorem ok (a : α) : OrderlyResult (.ok a) := fun _ h => nomatch h

private theorem fault {f : Fault} (h : f.Orderly) :
    OrderlyResult (.error (.fault f) : Except EvalError α) :=
  fun _ he => Except.error.inj he ▸ h

private theorem bind {x : Except EvalError α} {f : α → Except EvalError β}
    (hx : OrderlyResult x) (hf : ∀ a, x = .ok a → OrderlyResult (f a)) :
    OrderlyResult (x >>= f) := by
  cases x with
  | error err => exact fun e he => hx e (congrArg _ (Except.error.inj he))
  | ok a => exact hf a rfl

end OrderlyResult

/-- Operators give a kind to all operands but waypoints. -/
theorem ValueKind.combined?_ne_none {op : Kind} {l r : ValueKind}
    (hop : op.isInfix = true) (hl : l ≠ .waypoint) (hr : r ≠ .waypoint) :
    combined? op l r ≠ none := by
  unfold combined?
  rw [if_neg (not_or.2 ⟨hl, hr⟩)]
  cases op <;> first | exact Option.some_ne_none _ | cases hop

namespace Value

private theorem operation_orderly {op : Token} (hop : op.kind.isInfix = true)
    (q : Expr) (l r : Value) : OrderlyResult (operation op q l r) := by
  intro err herr
  have hend := operation_operated op q l r
  rw [herr] at hend
  cases hend with
  | mismatch _ => exact FaultKind.noConfusion
  | byZero _ _ _ => exact FaultKind.noConfusion
  | refused hl hr hnone =>
      exact absurd hnone (ValueKind.combined?_ne_none hop hl hr)

private theorem withSign_orderly (op : Token) (v : Value) :
    OrderlyResult (v.withSign op) := by
  cases v with
  | waypoint d s => exact .fault FaultKind.noConfusion
  | _ => exact .ok _

private theorem coerce_orderly {declared : Kind}
    (h : declared.isVariableType = true) (target : Token) (v : Value) :
    OrderlyResult (v.coerce declared target) := by
  unfold coerce
  split
  · exact .fault FaultKind.noConfusion
  · cases declared with
    | tyInteger =>
        dsimp only
        split
        · exact .ok _
        · exact .ok _
    | tyReal => exact .ok _
    | tyBool => exact .ok _
    | _ => cases h

end Value

namespace Expr

private theorem lookup_orderly (values : Table Value) (t : Token) :
    OrderlyResult (lookup values t) := by
  unfold lookup
  split
  · exact .ok _
  · exact .fault FaultKind.noConfusion

/-- **Legible expressions are evaluated in an orderly way.** -/
theorem eval_orderly (values : Table Value) :
    ∀ {e : Expr}, e.Legible → OrderlyResult (e.eval values)
  | .name t, _ => lookup_orderly values t
  | .integer _ _, _ => .ok _
  | .real _ _, _ => .ok _
  | .boolean _ _, _ => .ok _
  | .signed op _, h =>
      .bind (eval_orderly values h.2.2) fun v _ => Value.withSign_orderly op v
  | .binary _ _ _, h =>
      .bind (eval_orderly values h.2.2.2) fun rv _ =>
        .bind (eval_orderly values h.2.2.1) fun lv _ =>
          Value.operation_orderly h.1 _ lv rv

private theorem evalTruth_orderly (values : Table Value) {e : Expr}
    (h : e.Legible) : OrderlyResult (e.evalTruth values) := by
  refine .bind (eval_orderly values h) fun v _ => ?_
  cases v with
  | boolean b => exact .ok b
  | _ => exact .fault FaultKind.noConfusion

private theorem evalNumber_orderly (values : Table Value) {e : Expr}
    (h : e.Legible) : OrderlyResult (e.evalNumber values) := by
  refine .bind (eval_orderly values h) fun v _ => ?_
  unfold numeric
  split
  · exact .ok _
  · exact .fault FaultKind.noConfusion

end Expr

/-! ## Tables -/

/-- Tables as programs that were read leave them: the types are types of the
language, and the operands of waypoints are legible. -/
structure Tables.Orderly (t : Tables) : Prop where
  types : ∀ name declared, t.types.get? name = some declared →
    declared.isVariableType = true
  waypoints : ∀ name d s, t.values.get? name = some (.waypoint d s) →
    d.Legible ∧ s.Legible

private theorem Tables.orderly_empty : empty.Orderly :=
  ⟨fun _ _ h => (nomatch h), fun _ _ _ h => (nomatch h)⟩

namespace Declaration

/-- A declaration whose tokens are what they look like. -/
def Legible : Declaration → Prop
  | .variable d => d.Legible
  | .pin d => d.Legible
  | .waypoint d => d.Legible

theorem Legible.isName {d : Declaration} (h : d.Legible) :
    d.tok.kind = .ident ∧ d.tok.Spelt := by
  cases d <;> exact h.1

private theorem enter_orderly {t : Tables} (ht : t.Orderly) {d : Declaration}
    (hd : d.Legible) : (d.enter t).Orderly := by
  match d, hd with
  | .variable d, hd =>
      refine ⟨fun name declared hget => ?_, ht.waypoints⟩
      rw [enter, Table.get?_set] at hget
      by_cases hname : name = d.name
      · rw [if_pos hname] at hget
        exact Option.some.inj hget ▸ hd.2
      · rw [if_neg hname] at hget
        exact ht.types name declared hget
  | .pin _, _ => exact ⟨ht.types, ht.waypoints⟩
  | .waypoint d, hd =>
      refine ⟨ht.types, fun name e s hget => ?_⟩
      rw [enter, Table.get?_set] at hget
      by_cases hname : name = d.name
      · rw [if_pos hname] at hget
        cases hget
        exact hd.2
      · rw [if_neg hname] at hget
        exact ht.waypoints name e s hget

/-- Legible declarations keep the tables in order. -/
private theorem enterAll_orderly {ds : List Declaration}
    (hds : ∀ d ∈ ds, d.Legible) :
    ∀ (taken : List String) {t : Tables}, t.Orderly →
      (enterAll taken t ds).1.Orderly := by
  induction ds with
  | nil => exact fun _ _ ht => ht
  | cons d ds ih =>
      intro taken t ht
      obtain ⟨hd, hds⟩ := List.forall_mem_cons.1 hds
      rw [enterAll]
      split
      · exact ht
      · exact ih hds _ (enter_orderly ht hd)

/-- The only fault among declarations is a name that is taken. -/
private theorem orderly_of_enterAll (taken : List String) (t : Tables)
    (ds : List Declaration) {f : Fault} (h : (enterAll taken t ds).2 = some f) :
    f.Orderly := by
  induction ds generalizing taken t with
  | nil => cases h
  | cons d ds ih =>
      rw [enterAll] at h
      split at h
      · cases h
        exact FaultKind.noConfusion
      · exact ih _ _ h

end Declaration

theorem Block.Legible.declarations {b : Block} (hb : b.Legible) :
    ∀ d ∈ b.declarations, d.Legible := by
  simp only [Block.declarations, List.forall_mem_append, List.forall_mem_map]
  exact ⟨⟨hb.vars, hb.pins⟩, hb.waypoints⟩

namespace Motion

/-- The operands that a move comes to are its own or those of a waypoint, so
what holds of all these holds of them. -/
theorem forall_of_resolve {P : Expr → Prop} {values : Table Value}
    (hways : ∀ name d s, values.get? name = some (.waypoint d s) → P d ∧ P s)
    {d : Expr} {s : Option Expr} (hd : P d) (hs : ∀ e ∈ s, P e)
    {o : Expr × Option Expr × Bool} (h : resolve values d s = .ok o) :
    P o.1 ∧ ∀ e ∈ o.2.1, P e := by
  cases d with
  | name tok =>
      rw [resolve] at h
      cases hv : Expr.lookup values tok with
      | error err =>
          rw [hv] at h
          cases h
      | ok v =>
          rw [hv] at h
          cases v with
          | waypoint wd ws =>
              cases h
              obtain ⟨hwd, hws⟩ := hways _ wd ws (Expr.lookup_eq_ok hv)
              exact ⟨hwd, fun e he => Option.some.inj he ▸ hws⟩
          | _ =>
              cases h
              exact ⟨hd, hs⟩
  | _ =>
      cases h
      exact ⟨hd, hs⟩

private theorem resolve_orderly (values : Table Value) (d : Expr)
    (s : Option Expr) : OrderlyResult (resolve values d s) := by
  cases d with
  | name tok =>
      refine .bind (Expr.lookup_orderly values tok) fun v _ => ?_
      cases v <;> exact .ok _
  | _ => exact .ok _

theorem eval_orderly {t : Tables} (ht : t.Orderly) {d : Expr} {s : Option Expr}
    (hd : d.Legible) (hs : ∀ e ∈ s, e.Legible) :
    OrderlyResult (Motion.eval t.values d s) := by
  refine .bind (resolve_orderly t.values d s) fun o ho => ?_
  obtain ⟨hd', hs'⟩ := forall_of_resolve ht.waypoints hd hs ho
  refine .bind (Expr.evalNumber_orderly t.values hd') fun x _ => ?_
  obtain ⟨d', s', relative⟩ := o
  cases s' with
  | none => exact .ok _
  | some e =>
      exact .bind (Expr.evalNumber_orderly t.values (hs' e rfl)) fun rate _ =>
        .ok _

end Motion

/-! ## Deeds -/

/-- A deed with legible expressions. -/
def Deed.Legible : Deed → Prop
  | .condition e => e.Legible
  | .assign _ value => value.Legible
  | .wait d => d.Legible
  | .move _ d s => d.Legible ∧ ∀ e ∈ s, e.Legible

/-- **What goes wrong in a legible deed is the program's doing.** -/
theorem Deed.Legible.orderly {d : Deed} (hd : d.Legible) {t : Tables}
    (ht : t.Orderly) {err : EvalError} (h : d.FailsWith t err) :
    err.Orderly := by
  cases h with
  | condition h => exact Expr.evalTruth_orderly t.values hd err h
  | undeclared h => exact FaultKind.noConfusion
  | value h => exact Expr.eval_orderly t.values hd err h
  | @coercion target value declared v err hdecl hv h =>
      exact Value.coerce_orderly (ht.types _ _ hdecl) target v err h
  | wait h => exact Expr.evalNumber_orderly t.values hd err h
  | move h => exact Motion.eval_orderly ht hd.1 hd.2 err h

mutual

private theorem Stmt.Legible.deeds : ∀ {s : Stmt},
    s.Legible → ∀ d ∈ s.deeds, d.Legible
  | .skip, _ => by simp
  | .compound _ _, h => LegibleEach.deeds h
  | .assign _ _ _, h => List.forall_mem_singleton.2 h.2.2.2
  | .ifThen _ _ _ _, h =>
      List.forall_mem_cons.2 ⟨h.2.1, LegibleEach.deeds h.2.2⟩
  | .ifElse _ _ _ _ _ _, h =>
      List.forall_mem_cons.2 ⟨h.2.1, List.forall_mem_append.2
        ⟨LegibleEach.deeds h.2.2.1, LegibleEach.deeds h.2.2.2⟩⟩
  | .loop _ _ _ _, h => List.forall_mem_cons.2 ⟨h.2.2, LegibleEach.deeds h.2.1⟩
  | .wait _ _, h => List.forall_mem_singleton.2 h.2
  | .move _ _ _ _, h => List.forall_mem_singleton.2 h.2
  | .home _, _ => by simp
  | .stop _, _ => by simp

/-- What legible statements do is legible. -/
theorem LegibleEach.deeds : ∀ {ss : List Stmt},
    LegibleEach ss → ∀ d ∈ deedsEach ss, d.Legible
  | [], _ => by simp
  | _ :: _, h =>
      List.forall_mem_append.2 ⟨Stmt.Legible.deeds h.1, LegibleEach.deeds h.2⟩

end

/-! ## Runs -/

section Runs

open Run

variable {σ ε : Type}

/-- A run that ends in an orderly way, and leaves the tables in order. -/
abbrev OrderlyRun {α : Type} (x : Run σ ε α) : Prop :=
  Confined Tables.Orderly (fun _ => Halt.Orderly) x

private theorem outer_orderly : Outer fun _ => Halt.Orderly (ε := ε) :=
  ⟨fun _ _ => trivial, fun _ => trivial, fun _ => trivial⟩

private theorem proper_of_legible {d : Deed} (hd : d.Legible) :
    Proper Tables.Orderly (fun _ => Halt.Orderly (ε := ε)) d :=
  fun _ ht _ h => (hd.orderly ht h).halt

/-- Assignments keep the tables in order: no waypoint is assigned. -/
private theorem bound_orderly (w : World σ) (target : Token) (declared : Kind)
    (v v' : Value) (hw : w.tables.Orderly)
    (_ : w.tables.types.get? target.literal = some declared)
    (hv : v.coerce declared target = .ok v') :
    (w.bound target.literal v').tables.Orderly := by
  refine ⟨hw.types, fun name d s hget => ?_⟩
  rw [show (w.bound target.literal v').tables.values =
    w.tables.values.set target.literal v' from rfl, Table.get?_set] at hget
  by_cases hname : name = target.literal
  · rw [if_pos hname] at hget
    have hkind := Value.kind_of_coerce hv
    rw [Option.some.inj hget] at hkind
    exact absurd hkind (Kind.valueKind?_ne _)
  · rw [if_neg hname] at hget
    exact hw.waypoints name d s hget

private theorem composes_orderly (h : Host σ ε) (passes : Nat) :
    Composes h h passes passes
      (Proper Tables.Orderly fun _ => Halt.Orderly (ε := ε)) fun x _ =>
        OrderlyRun x :=
  composes_confined h outer_orderly bound_orderly passes

private theorem exec_orderly (h : Host σ ε) (passes : Nat) {s : Stmt}
    (hs : s.Legible) : OrderlyRun (exec h passes s) :=
  (composes_orderly h passes).exec s fun d hd =>
    proper_of_legible (hs.deeds d hd)

private theorem declare_orderly {b : Block} (hb : b.Legible) :
    OrderlyRun (declare b : Run σ ε Unit) :=
  declare_confined
    (fun _ hw => Declaration.enterAll_orderly hb.declarations [] hw) fun t _ =>
      Declaration.orderly_of_enterAll [] t b.declarations

private theorem block_orderly (h : Host σ ε) (passes : Nat) {b : Block}
    (hb : b.Legible) : OrderlyRun (block h passes b) :=
  (composes_orderly h passes).block (declare_orderly hb) fun d hd =>
    proper_of_legible (LegibleEach.deeds hb.body d hd)

private theorem evaluate_orderly (h : Host σ ε) {e : Expr} (he : e.Legible) :
    OrderlyRun (evaluate h e) :=
  fun w hw =>
    .of_run (run_evaluate h e w)
      (.ofEval hw fun err hv => (Expr.eval_orderly _ he err hv).halt)

/-- **Visits of legible nodes end in an orderly way.** -/
theorem visit_legible (h : Host σ ε) (passes : Nat) {n : Node}
    (hn : n.Legible) : OrderlyRun (visit h passes n) := by
  cases n with
  | program p =>
      exact (tell_confined _).bind fun _ =>
        (block_orderly h passes hn.block).bind fun _ => .pure none
  | block b => exact (block_orderly h passes hn).bind fun _ => .pure none
  | statement s => exact exec_orderly h passes hn
  | expression e => exact (evaluate_orderly h hn).bind fun v => .pure (some v)
  | _ => exact hn.elim

private theorem isSome_of_expression {h : Host σ ε} {passes : Nat} {e : Expr}
    {w : World σ} {v : Option Value}
    (hv : (visit h passes (.expression e)).outcome w = .ok v) :
    v.isSome = true := by
  rw [outcome, visit] at hv
  cases hres : (evaluate h e).run w with
  | ok found w' =>
      rw [run_bind_ok hres] at hv
      cases hv
      rfl
  | error err w' =>
      rw [run_bind_error hres] at hv
      cases hv

/-- **Legible programs run in an orderly way.** -/
theorem interpret_legible (h : Host σ ε) (passes : Nat) {p : Program}
    (hp : p.Legible) : OrderlyRun (interpret h passes p) :=
  (tell_confined _).bind fun _ =>
    (visit_legible h passes (n := .program p) hp).bind fun _ => .pure ()

end Runs

/-! ## One interpreter -/

/-- Tables as they are in an interpreter that ran programs and visited parts of
programs, one after the other. Each program was read from a source of its own,
and each run had a host of its own and ended in some way. -/
inductive Visited : Tables → Prop where
  | fresh : Visited .empty
  | interpreted {t : Tables} (ht : Visited t) {σ ε : Type} (h : Host σ ε)
      (passes : Nat) (s : σ) {src : List UInt8} {p : Program}
      (hp : parse src = .ok p) :
      Visited ((Run.interpret h passes p).after ⟨t, s⟩).tables
  | visited {t : Tables} (ht : Visited t) {σ ε : Type} (h : Host σ ε)
      (passes : Nat) (s : σ) {src : List UInt8} {p : Program}
      (hp : parse src = .ok p) {n : Node} (hn : n.PartOf p) :
      Visited ((Run.visit h passes n).after ⟨t, s⟩).tables

private theorem Visited.orderly {t : Tables} (ht : Visited t) : t.Orderly := by
  induction ht with
  | fresh => exact Tables.orderly_empty
  | interpreted _ h passes s hp ih =>
      exact (interpret_legible h passes (Program.legible_of_parse hp) ⟨_, s⟩
        ih).1
  | visited _ h passes s hp hn ih =>
      exact (visit_legible h passes (hn.legible hp) ⟨_, s⟩ ih).1

/--
**Nothing goes wrong that is not the program's doing.** Whatever programs and
parts of programs an interpreter ran before, a program that was read runs, and
its parts are visited, without coming upon a node that has no meaning, an
operation whose token is no operator or a type that the language does not have.
Every expression that is evaluated without a fault has a value, and every
operation has an operator for its token.
-/
theorem visit_orderly {t : Tables} (ht : Visited t) {σ ε : Type} (h : Host σ ε)
    (passes : Nat) (s : σ) {src : List UInt8} {p : Program}
    (hp : parse src = .ok p) :
    (∀ err, (Run.interpret h passes p).outcome ⟨t, s⟩ = .error err →
      err.Orderly) ∧
    ∀ n : Node, n.PartOf p →
      (∀ err, (Run.visit h passes n).outcome ⟨t, s⟩ = .error err →
        err.Orderly) ∧
      (∀ e v, n = .expression e →
        (Run.visit h passes n).outcome ⟨t, s⟩ = .ok v → v.isSome = true) ∧
      ∀ op l r, n = .expression (.binary op l r) → op.kind.isInfix = true := by
  refine ⟨(interpret_legible h passes (Program.legible_of_parse hp) ⟨t, s⟩
    ht.orderly).2, fun n hn => ?_⟩
  have hlegible := hn.legible hp
  refine ⟨(visit_legible h passes hlegible ⟨t, s⟩ ht.orderly).2, ?_, ?_⟩
  · rintro e v rfl hv
    exact isSome_of_expression hv
  · rintro op l r rfl
    exact hlegible.1

/-- A program that leaves a waypoint behind, and ends with a fault. -/
def leavesWaypoint : List UInt8 :=
  asciiBytes
    "PROGRAM p; VAR x : INTEGER; WAYPOINT w := y, -10; BEGIN x := w END."

/-- A program that does not declare the waypoint it moves to. -/
def takesWaypoint : List UInt8 := asciiBytes "PROGRAM q; BEGIN MOVETO w END."

theorem visit_orderly_waypoint : ∃ p q,
    parse leavesWaypoint = .ok p ∧ parse takesWaypoint = .ok q ∧
    ∀ err,
      (Run.interpret .willing 1 q).outcome
          ⟨((Run.interpret .willing 1 p).after ⟨.empty, ()⟩).tables, ()⟩ =
        .error err → err.Orderly := by
  have hreadp : (parse leavesWaypoint).isOk = true := by decide +kernel
  have hreadq : (parse takesWaypoint).isOk = true := by decide +kernel
  obtain ⟨p, hp⟩ := exists_of_isOk hreadp
  obtain ⟨q, hq⟩ := exists_of_isOk hreadq
  exact ⟨p, q, hp, hq,
    (visit_orderly (.interpreted .fresh .willing 1 () hp) .willing 1 () hq).1⟩

end Fixture
