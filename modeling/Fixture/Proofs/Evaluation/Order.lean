import Fixture.Proofs.Run.Orderly
/-!
# The order of evaluation

An expression is worked out node by node: the nodes of the right operand come
first, then those of the left one, then the node itself. `Expr.agenda` is the
list of all nodes in that order. Evaluation goes along the agenda up to the
first node that has no value, and the fault of that node is the fault of the
expression. So the faults of whole expressions follow from those of single nodes
whose operands have values.

What is wrong with a node is said by `Expr.Offends`, in terms of the values of
its operands: a name that is bound to nothing, a waypoint as an operand, a
division by zero. Nothing else can be wrong in an expression that was read.

## Main results

* `Expr.agenda_induction`: from a node of the agenda up to the whole expression.
* `Expr.eval_eq_error`: the first node without a value decides.
* `Expr.faulty_of_error`, `Expr.blamed_of_error`: what is wrong with a node
  whose operands have values.
* `Expr.exists_faulty`: the fault of an expression is that of a node.
* `visit_expression_faults`: faults of expressions, and that evaluating them
  changes nothing.
-/

namespace Fixture

attribute [local simp] Expr.eval Expr.lookup

/-! ## Agendas -/

namespace Expr

/-- The nodes of an expression in the order in which they are worked out. -/
@[simp] def agenda : Expr → List Expr
  | .signed op e => e.agenda ++ [.signed op e]
  | .binary op l r => r.agenda ++ (l.agenda ++ [.binary op l r])
  | e => [e]

/-- The operands of a node, the right one first. -/
@[simp] def operands : Expr → List Expr
  | .signed _ e => [e]
  | .binary _ l r => [r, l]
  | _ => []

private theorem agenda_eq (e : Expr) :
    e.agenda = e.operands.flatMap agenda ++ [e] := by
  cases e <;> simp

theorem mem_agenda (e : Expr) : e ∈ e.agenda := by
  rw [agenda_eq]
  exact List.mem_append_right _ (List.mem_singleton_self e)

/-- Where two lists in a row are split, one of them is. -/
private theorem split_append {α : Type} {xs ys before behind : List α} {d : α}
    (h : xs ++ ys = before ++ d :: behind) :
    (∃ between, xs = before ++ d :: between) ∨
    ∃ between, before = xs ++ between ∧ ys = between ++ d :: behind := by
  rcases List.append_eq_append_iff.1 h with hright | ⟨cs, hxs, hcs⟩
  · exact .inr hright
  · cases cs with
    | nil => exact .inr ⟨[], by simp [hxs], hcs.symm⟩
    | cons c cs =>
        obtain ⟨rfl, -⟩ := List.cons.inj hcs
        exact .inl ⟨cs, hxs⟩

/-- **From a node up.** What holds of a node `d` and the nodes below it, and
goes up to a sign, to an operation from its right operand, and to an operation
from its left operand once the nodes of the right one are done, holds of every
expression with the node `d` and of the nodes that come before `d` in its
agenda. -/
theorem agenda_induction {motive : Expr → List Expr → Prop} {d : Expr}
    (here : motive d (d.operands.flatMap agenda))
    (signed : ∀ {op e before}, motive e before → motive (.signed op e) before)
    (right : ∀ {op l r before}, motive r before →
      motive (.binary op l r) before)
    (left : ∀ {op l r before}, motive l before →
      motive (.binary op l r) (r.agenda ++ before)) :
    ∀ {e : Expr} {before behind : List Expr}, e.agenda = before ++ d :: behind →
      motive e before := by
  -- behind all the nodes of its operands there is only the expression itself
  have hnode {e : Expr} {xs between behind : List Expr}
      (hxs : e.operands.flatMap agenda = xs)
      (h : [e] = between ++ d :: behind) : motive e (xs ++ between) := by
    obtain ⟨rfl, hd⟩ :=
      (List.append_eq_singleton_iff.1 h.symm).resolve_right (by simp)
    obtain ⟨rfl, -⟩ := List.cons.inj hd
    rw [← hxs, List.append_nil]
    exact here
  intro e
  induction e with
  | signed op e ih =>
      intro before behind h
      rcases split_append h with ⟨_, hinner⟩ | ⟨between, rfl, hself⟩
      · exact signed (ih hinner)
      · exact hnode (by simp) hself
  | binary op l r ihl ihr =>
      intro before behind h
      rcases split_append h with ⟨_, hinner⟩ | ⟨between, rfl, hrest⟩
      · exact right (ihr hinner)
      · rcases split_append hrest with ⟨_, hinner⟩ | ⟨between, rfl, hself⟩
        · exact left (ihl hinner)
        · rw [← List.append_assoc]
          exact hnode (by simp) hself
  | name | integer | real | boolean =>
      intro before behind h
      exact hnode rfl h

private theorem mem_agenda_of_eq {d e : Expr} {before behind : List Expr}
    (h : e.agenda = before ++ d :: behind) : d ∈ e.agenda := by
  rw [h]
  exact List.mem_append_right _ (List.mem_cons_self ..)

/-- A node comes after all nodes of its operands. -/
private theorem mem_before {d e : Expr} {before behind : List Expr}
    (h : e.agenda = before ++ d :: behind) :
    ∀ m ∈ d.operands.flatMap agenda, m ∈ before := by
  refine agenda_induction
    (motive := fun _ before => ∀ m ∈ d.operands.flatMap agenda, m ∈ before) ?_
    ?_ ?_ ?_ h
  · exact fun m hm => hm
  · exact fun ih => ih
  · exact fun ih => ih
  · exact fun ih m hm => List.mem_append_right _ (ih m hm)

theorem operand_mem_before {d o e : Expr} {before behind : List Expr}
    (h : e.agenda = before ++ d :: behind) (ho : o ∈ d.operands) : o ∈ before :=
  mem_before h o (List.mem_flatMap.2 ⟨o, ho, o.mem_agenda⟩)

/-- So the nodes before a node are all there is of them. -/
theorem agenda_subset_before {d m e : Expr} {before behind : List Expr}
    (h : e.agenda = before ++ d :: behind) (hm : m ∈ before) {n : Expr}
    (hn : n ∈ m.agenda) : n ∈ before := by
  obtain ⟨front, back, rfl⟩ := List.append_of_mem hm
  rw [agenda_eq] at hn
  rcases List.mem_append.1 hn with hn | hn
  · rw [List.append_assoc] at h
    exact List.mem_append_left _ (mem_before h n hn)
  · rwa [List.mem_singleton.1 hn]

/-- What goes from nodes to their operands goes to all of an agenda. -/
private theorem forall_mem_agenda {motive : Expr → Prop}
    (down : ∀ {e}, motive e → ∀ o ∈ e.operands, motive o) :
    ∀ {e : Expr}, motive e → ∀ n ∈ e.agenda, motive n := by
  intro e
  induction e with
  | signed op e ih =>
      intro h n hn
      rcases List.mem_append.1 hn with hn | hn
      · exact ih (down h e (by simp)) n hn
      · rwa [List.mem_singleton.1 hn]
  | binary op l r ihl ihr =>
      intro h n hn
      rcases List.mem_append.1 hn with hn | hn
      · exact ihr (down h r (by simp)) n hn
      · rcases List.mem_append.1 hn with hn | hn
        · exact ihl (down h l (by simp)) n hn
        · rwa [List.mem_singleton.1 hn]
  | name | integer | real | boolean =>
      intro h n hn
      rwa [List.mem_singleton.1 hn]

/-! ## The first node without a value -/

variable {values : Table Value}

/-- An expression that has a value. -/
def Valued (values : Table Value) (e : Expr) : Prop :=
  ∃ v, e.eval values = .ok v

theorem not_valued {e : Expr} {err : EvalError}
    (h : e.eval values = .error err) : ¬ e.Valued values := by
  rintro ⟨v, hv⟩
  rw [h] at hv
  cases hv

theorem eval_signed_of_error {op : Token} {e : Expr} {err : EvalError}
    (h : e.eval values = .error err) :
    (Expr.signed op e).eval values = .error err := by
  rw [eval, h]
  rfl

theorem eval_signed_of_ok {op : Token} {e : Expr} {v : Value}
    (h : e.eval values = .ok v) :
    (Expr.signed op e).eval values = v.withSign op := by
  rw [eval, h]
  rfl

theorem eval_binary_of_right_error {op : Token} {l r : Expr} {err : EvalError}
    (h : r.eval values = .error err) :
    (Expr.binary op l r).eval values = .error err := by
  rw [eval, h]
  rfl

theorem eval_binary_of_left_error {op : Token} {l r : Expr} {err : EvalError}
    (hr : r.Valued values) (h : l.eval values = .error err) :
    (Expr.binary op l r).eval values = .error err := by
  obtain ⟨rv, hr⟩ := hr
  rw [eval, hr, h]
  rfl

theorem eval_binary_of_ok {op : Token} {l r : Expr} {lv rv : Value}
    (hl : l.eval values = .ok lv) (hr : r.eval values = .ok rv) :
    (Expr.binary op l r).eval values =
      Value.operation op (.binary op l r) lv rv := by
  rw [eval, hr, hl]
  rfl

/-- **The first node without a value decides**: where all nodes before it have
values, its error is that of the whole expression. -/
theorem eval_eq_error {d e : Expr} {before behind : List Expr} {err : EvalError}
    (h : e.agenda = before ++ d :: behind)
    (hbefore : ∀ m ∈ before, m.Valued values)
    (hd : d.eval values = .error err) : e.eval values = .error err := by
  refine agenda_induction
    (motive := fun e before =>
      (∀ m ∈ before, m.Valued values) → e.eval values = .error err) ?_ ?_ ?_ ?_
    h hbefore
  · exact fun _ => hd
  · exact fun ih hbefore => eval_signed_of_error (ih hbefore)
  · exact fun ih hbefore => eval_binary_of_right_error (ih hbefore)
  · intro op l r before ih hbefore
    have hr : r.Valued values := hbefore r (List.mem_append_left _ r.mem_agenda)
    exact eval_binary_of_left_error hr
      (ih fun m hm => hbefore m (List.mem_append_right _ hm))

/-- An expression has a value only if all its nodes have: no operand is left
out. -/
theorem Valued.forall_mem {e : Expr} (h : e.Valued values) :
    ∀ n ∈ e.agenda, n.Valued values := by
  refine forall_mem_agenda (motive := Valued values) (fun {e} h o ho => ?_) h
  obtain ⟨v, hv⟩ := h
  cases e with
  | signed op e =>
      obtain ⟨u, hu, -⟩ := eval_signed_eq_ok hv
      rw [List.mem_singleton.1 ho]
      exact ⟨u, hu⟩
  | binary op l r =>
      obtain ⟨lv, rv, hl, hr, -⟩ := eval_binary_eq_ok hv
      rcases List.mem_pair.1 ho with rfl | rfl
      · exact ⟨rv, hr⟩
      · exact ⟨lv, hl⟩
  | name | integer | real | boolean => cases ho

/-- An agenda on which not all nodes have values has a first one without. -/
private theorem exists_first {e : Expr} (h : ¬ e.Valued values) :
    ∃ (before : List Expr) (d : Expr) (behind : List Expr) (err : EvalError),
      e.agenda = before ++ d :: behind ∧ (∀ m ∈ before, m.Valued values) ∧
      d.eval values = .error err := by
  classical
  have hsome : (e.agenda.find? fun n => ¬ n.Valued values).isSome :=
    List.find?_isSome.2 ⟨e, e.mem_agenda, decide_eq_true h⟩
  obtain ⟨d, hfind⟩ := Option.isSome_iff_exists.1 hsome
  obtain ⟨hd, before, behind, hsplit, hbefore⟩ :=
    List.find?_eq_some_iff_append.1 hfind
  cases heval : d.eval values with
  | ok v => exact absurd ⟨v, heval⟩ (of_decide_eq_true hd)
  | error err =>
      exact ⟨before, d, behind, err, hsplit,
        fun m hm => by simpa using hbefore m hm, heval⟩

end Expr

/-! ## What operators refuse -/

theorem Kind.isInfix_of_divides {k : Kind} (h : k.divides = true) :
    k.isInfix = true := by
  cases k <;> first | rfl | cases h

namespace Value

/-- A result that is an error of one kind exactly under a condition. -/
def FailsIf (c : Prop) (err : EvalError) (result : Except EvalError Value) :
    Prop :=
  (c → result = .error err) ∧ (¬ c → ∃ v, result = .ok v)

/-- An operator on numbers and truth values refuses a division by zero and
nothing else. -/
theorem operation_failsIf {op : Token} (hop : op.kind.isInfix = true) (q : Expr)
    {l r : Value} (hl : l.kind ≠ .waypoint) (hr : r.kind ≠ .waypoint) :
    FailsIf (op.kind.divides = true ∧ r.isZero = true)
      (.at op (.divisionByZero q)) (operation op q l r) := by
  have hend := operation_operated op q l r
  generalize operation op q l r = result at hend ⊢
  cases hend with
  | mismatch hway => exact (hway.elim hl hr).elim
  | value _ hzero => exact ⟨fun hc => absurd hc hzero, fun _ => ⟨_, rfl⟩⟩
  | byZero _ hdivides hzero =>
      exact ⟨fun _ => rfl, fun hc => absurd ⟨hdivides, hzero⟩ hc⟩
  | refused _ _ hnone =>
      exact absurd hnone (ValueKind.combined?_ne_none hop hl hr)

end Value

/-! ## What can be wrong with a node -/

namespace Expr

variable {values : Table Value}

/-- An expression whose value is a waypoint. -/
def IsWaypoint (values : Table Value) (e : Expr) : Prop :=
  ∃ v, e.eval values = .ok v ∧ v.kind = .waypoint

/-- What is wrong with a node: a name is bound to nothing, an operand is a
waypoint, or a divisor is zero. -/
inductive Offends (values : Table Value) : Expr → FaultKind → Prop where
  | unassigned {t : Token} (h : values.get? t.literal = none) :
      Offends values (.name t) .unassignedVariable
  | sign {op : Token} {e : Expr} (h : e.IsWaypoint values) :
      Offends values (.signed op e) .typeMismatch
  | operand {op : Token} {l r : Expr}
      (h : l.IsWaypoint values ∨ r.IsWaypoint values) :
      Offends values (.binary op l r) .typeMismatch
  | zero {op : Token} {l r : Expr} {v : Value} (hop : op.kind.divides = true)
      (hr : r.eval values = .ok v) (hv : v.isZero = true) :
      Offends values (.binary op l r) .divisionByZero

/-- The name that a fault of a node gives, which is empty unless the node is a
name. -/
def blamedName : Expr → String
  | .name t => t.literal
  | _ => ""

/-- A fault that says what is wrong with a node, at its place and with its name.
A waypoint as an operand is blamed before a division by zero. -/
def Blamed (values : Table Value) (n : Expr) (f : Fault) : Prop :=
  f.pos = n.tok.pos ∧ f.cause.name = n.blamedName ∧
  n.Offends values f.cause.kind ∧
  (n.Offends values .typeMismatch → f.cause.kind = .typeMismatch)

private theorem not_isWaypoint {e : Expr} {v : Value}
    (h : e.eval values = .ok v) (hv : v.kind ≠ .waypoint) :
    ¬ e.IsWaypoint values := by
  rintro ⟨u, hu, hkind⟩
  cases h.symm.trans hu
  exact hv hkind

/-- A node with which something is wrong has no value. -/
private theorem Offends.not_valued {n : Expr} {k : FaultKind}
    (h : n.Offends values k) : ¬ n.Valued values := by
  rintro ⟨v, hv⟩
  cases h with
  | unassigned hnone =>
      rw [lookup_eq_ok hv] at hnone
      cases hnone
  | sign hway =>
      obtain ⟨u, hu, hsign⟩ := eval_signed_eq_ok hv
      obtain ⟨u', hu', hkind⟩ := hway
      cases hu.symm.trans hu'
      cases u with
      | waypoint d s => cases hsign
      | integer | real | boolean => cases hkind
  | @operand op l r hway =>
      obtain ⟨lv, rv, hl, hr, hres⟩ := eval_binary_eq_ok hv
      have hkind : lv.kind = .waypoint ∨ rv.kind = .waypoint := by
        rcases hway with ⟨u, hu, hkind⟩ | ⟨u, hu, hkind⟩
        · cases hl.symm.trans hu
          exact .inl hkind
        · cases hr.symm.trans hu
          exact .inr hkind
      rw [Value.operation_of_waypoint _ hkind] at hres
      cases hres
  | @zero op l r rv hop hr hzero =>
      obtain ⟨lv, rv', hl, hr', hres⟩ := eval_binary_eq_ok hv
      cases hr.symm.trans hr'
      by_cases hway : lv.kind = .waypoint ∨ rv.kind = .waypoint
      · rw [Value.operation_of_waypoint _ hway] at hres
        cases hres
      · have hfails := Value.operation_failsIf (Kind.isInfix_of_divides hop)
          (.binary op l r) (fun hl => hway (.inl hl)) (fun hr => hway (.inr hr))
        rw [hfails.1 ⟨hop, hzero⟩] at hres
        cases hres

/-- A node and its fault, where its operands have values. A waypoint as an
operand comes before a division by zero. -/
inductive Faulty (values : Table Value) : Expr → Fault → Prop where
  | unassigned {t : Token} (h : values.get? t.literal = none) :
      Faulty values (.name t) ⟨.unassigned t.literal, t.pos⟩
  | sign {op : Token} {e : Expr} (h : e.IsWaypoint values) :
      Faulty values (.signed op e) ⟨.signMismatch op.literal .waypoint, op.pos⟩
  | operand {op : Token} {l r : Expr} {lv rv : Value}
      (hl : l.eval values = .ok lv) (hr : r.eval values = .ok rv)
      (h : lv.kind = .waypoint ∨ rv.kind = .waypoint) :
      Faulty values (.binary op l r)
        ⟨.operandMismatch lv.kind op.literal rv.kind, op.pos⟩
  | zero {op : Token} {l r : Expr} {lv rv : Value}
      (hop : op.kind.divides = true) (hl : l.eval values = .ok lv)
      (hlv : lv.kind ≠ .waypoint) (hr : r.eval values = .ok rv)
      (hrv : rv.isZero = true) :
      Faulty values (.binary op l r) ⟨.divisionByZero (.binary op l r), op.pos⟩

/-- **The fault of a node whose operands have values.** -/
theorem faulty_of_error {n : Expr} {f : Fault}
    (ho : ∀ o ∈ n.operands, o.Valued values)
    (h : n.eval values = .error (.fault f)) : n.Faulty values f := by
  cases n with
  | integer | real | boolean => cases h
  | name t =>
      rw [eval, lookup] at h
      cases hget : values.get? t.literal with
      | some v =>
          rw [hget] at h
          cases h
      | none =>
          rw [hget] at h
          cases h
          exact .unassigned hget
  | signed op e =>
      obtain ⟨v, hv⟩ := ho e (by simp)
      rw [eval_signed_of_ok hv] at h
      cases v with
      | waypoint d s =>
          cases h
          exact .sign ⟨_, hv, rfl⟩
      | integer | real | boolean => cases h
  | binary op l r =>
      obtain ⟨rv, hr⟩ := ho r (by simp)
      obtain ⟨lv, hl⟩ := ho l (by simp)
      rw [eval_binary_of_ok hl hr] at h
      have hend := Value.operation_operated op (.binary op l r) lv rv
      rw [h] at hend
      cases hend with
      | mismatch hway => exact .operand hl hr hway
      | byZero hlk hop hzero => exact .zero hop hl hlk hr hzero

/-- The fault of a node is blamed on it. -/
theorem Faulty.blamed {n : Expr} {f : Fault} (h : n.Faulty values f) :
    n.Blamed values f := by
  cases h with
  | unassigned hget =>
      exact ⟨rfl, rfl, .unassigned hget, fun hoff => by cases hoff⟩
  | sign hway => exact ⟨rfl, rfl, .sign hway, fun _ => rfl⟩
  | operand hl hr hway =>
      refine ⟨rfl, rfl, .operand ?_, fun _ => rfl⟩
      exact hway.imp (fun hkind => ⟨_, hl, hkind⟩) (fun hkind => ⟨_, hr, hkind⟩)
  | zero hop hl hlv hr hrv =>
      refine ⟨rfl, rfl, .zero hop hr hrv, fun hoff => ?_⟩
      cases hoff with
      | operand hw =>
          exact (hw.elim (not_isWaypoint hl hlv)
            (not_isWaypoint hr (Value.ne_waypoint_of_isZero hrv))).elim

/-- **What is wrong with a node whose operands have values.** -/
theorem blamed_of_error {n : Expr} {err : EvalError} (hn : n.Legible)
    (ho : ∀ o ∈ n.operands, o.Valued values) (h : n.eval values = .error err) :
    ∃ f, err = .fault f ∧ n.Blamed values f := by
  cases err with
  | fault f => exact ⟨f, rfl, (faulty_of_error ho h).blamed⟩
  | unexpectedOperator k => exact (eval_orderly values hn _ h).elim

/-- **Where the fault of an expression comes from.** -/
theorem exists_faulty {e : Expr} {f : Fault}
    (h : e.eval values = .error (.fault f)) :
    ∃ n ∈ e.agenda, n.Faulty values f := by
  obtain ⟨before, n, behind, err, hsplit, hbefore, hn⟩ :=
    exists_first (not_valued h)
  have heq : EvalError.fault f = err :=
    Except.error.inj (h.symm.trans (eval_eq_error hsplit hbefore hn))
  have hoperands : ∀ o ∈ n.operands, o.Valued values :=
    fun o ho => hbefore o (operand_mem_before hsplit ho)
  exact ⟨n, mem_agenda_of_eq hsplit, faulty_of_error hoperands (heq ▸ hn)⟩

theorem Legible.forall_mem {e : Expr} (h : e.Legible) :
    ∀ n ∈ e.agenda, n.Legible := by
  refine forall_mem_agenda (motive := Legible) (fun {e} h o ho => ?_) h
  cases e with
  | signed op e =>
      rw [List.mem_singleton.1 ho]
      exact h.2.2
  | binary op l r =>
      rcases List.mem_pair.1 ho with rfl | rfl
      · exact h.2.2.2
      · exact h.2.2.1
  | name | integer | real | boolean => cases ho

/-- **Faults of expressions.** An expression without a value has a first node
with which something is wrong, and its fault is what is wrong with that node. -/
theorem exists_blamed {e : Expr} {err : EvalError} (he : e.Legible)
    (h : e.eval values = .error err) :
    ∃ (before : List Expr) (n : Expr) (behind : List Expr) (f : Fault),
      e.agenda = before ++ n :: behind ∧
      (∀ m ∈ before, ∀ k, ¬ m.Offends values k) ∧ err = .fault f ∧
      n.Blamed values f := by
  obtain ⟨before, n, behind, err', hsplit, hbefore, hn⟩ :=
    exists_first (not_valued h)
  have heq : err = err' :=
    Except.error.inj (h.symm.trans (eval_eq_error hsplit hbefore hn))
  have hlegible : n.Legible := he.forall_mem n (mem_agenda_of_eq hsplit)
  have hoperands : ∀ o ∈ n.operands, o.Valued values :=
    fun o ho => hbefore o (operand_mem_before hsplit ho)
  obtain ⟨f, hf, hblamed⟩ := blamed_of_error hlegible hoperands hn
  exact ⟨before, n, behind, f, hsplit,
    fun m hm k hoff => hoff.not_valued (hbefore m hm), heq.trans hf, hblamed⟩

/-- An expression has a value exactly if nothing is wrong with any of its
nodes. -/
private theorem valued_iff {e : Expr} (he : e.Legible) :
    e.Valued values ↔ ∀ n ∈ e.agenda, ∀ k, ¬ n.Offends values k := by
  constructor
  · exact fun h n hn k hoff => hoff.not_valued (h.forall_mem n hn)
  · intro hall
    cases heval : e.eval values with
    | ok v => exact ⟨v, heval⟩
    | error err =>
        obtain ⟨before, n, behind, f, hsplit, -, -, hblamed⟩ :=
          exists_blamed he heval
        exact absurd hblamed.2.2.1 (hall n (mem_agenda_of_eq hsplit) _)

end Expr

/-! ## Visits of expressions -/

section Visits

open Run

variable {σ ε : Type}

theorem run_visit_expression (h : Host σ ε) (passes : Nat) (e : Expr)
    (w : World σ) :
    (visit h passes (.expression e)).run w =
      (ofEval (e.eval w.tables.values) >>= fun v => pure (some v)).run
        (w.told h (.evaluating e w.tables.values)) := by
  show (evaluate h e >>= _).run w = _
  rw [EStateM.run_bind, EStateM.run_bind, run_evaluate]

/--
**Faults of expressions.** Evaluating an expression that was read leaves all
tables as they are and asks nothing of the host, which is only told of it. It
fails exactly if something is wrong with some node: a name that has no value, a
waypoint as an operand, a divisor that is zero. The fault is that of the first
such node in the order right operand, left operand, node, with its place and its
name. If there is none, every node was evaluated.
-/
theorem visit_expression_faults {src : List UInt8} {p : Program}
    (hp : parse src = .ok p) {e : Expr} (he : Node.PartOf p (.expression e))
    (h : Host σ ε) (passes : Nat) (w : World σ) :
    let evaluation := visit h passes (.expression e)
    let values := w.tables.values
    (evaluation.after w).tables = w.tables ∧
    (evaluation.after w).host = h.note (.evaluating e values) w.host ∧
    ((∃ halt, evaluation.outcome w = .error halt) ↔
      ∃ n ∈ e.agenda, ∃ k, n.Offends values k) ∧
    (∀ halt, evaluation.outcome w = .error halt →
      ∃ before n behind f, e.agenda = before ++ n :: behind ∧
        (∀ m ∈ before, ∀ k, ¬ m.Offends values k) ∧ halt = .fault f ∧
        n.Blamed values f) ∧
    ∀ v, evaluation.outcome w = .ok v →
      v.isSome = true ∧ ∀ n ∈ e.agenda, n.Valued values := by
  intro evaluation values
  have hlegible : e.Legible := he.legible hp
  cases heval : e.eval values with
  | ok v =>
      have hrun : evaluation.run w =
          .ok (some v) (w.told h (.evaluating e values)) := by
        rw [run_visit_expression, heval, run_ofEval_ok]
        rfl
      have houtcome : evaluation.outcome w = .ok (some v) := outcome_ok hrun
      have hafter : evaluation.after w = w.told h (.evaluating e values) :=
        after_ok hrun
      have hvalued : e.Valued values := ⟨v, heval⟩
      rw [hafter, houtcome]
      refine ⟨rfl, rfl, ⟨?_, ?_⟩, ?_, ?_⟩
      · rintro ⟨halt, hhalt⟩
        cases hhalt
      · rintro ⟨n, hn, k, hoff⟩
        exact absurd hoff ((Expr.valued_iff hlegible).1 hvalued n hn k)
      · rintro halt hhalt
        cases hhalt
      · rintro u hu
        cases hu
        exact ⟨rfl, hvalued.forall_mem⟩
  | error err =>
      have hrun : evaluation.run w =
          .error (Halt.ofEval err) (w.told h (.evaluating e values)) := by
        rw [run_visit_expression, heval, run_ofEval_error]
      have houtcome : evaluation.outcome w = .error (Halt.ofEval err) :=
        outcome_error hrun
      have hafter : evaluation.after w = w.told h (.evaluating e values) :=
        after_error hrun
      obtain ⟨before, n, behind, f, hsplit, hbefore, rfl, hblamed⟩ :=
        Expr.exists_blamed hlegible heval
      rw [hafter, houtcome]
      refine ⟨rfl, rfl, ⟨fun _ => ?_, fun _ => ⟨_, rfl⟩⟩, ?_, ?_⟩
      · exact ⟨n, Expr.mem_agenda_of_eq hsplit, _, hblamed.2.2.1⟩
      · rintro halt hhalt
        cases hhalt
        exact ⟨before, n, behind, f, hsplit, hbefore, rfl, hblamed⟩
      · rintro u hu
        cases hu

end Visits

/-- A program that divides a name without a value by zero. -/
def dividesName : List UInt8 := asciiBytes "PROGRAM p; BEGIN WAIT x / 0 END."

/-- What a program waits for that does nothing else. -/
def Program.duration? (p : Program) : Option Expr :=
  match p.block.body with
  | [.wait _ d] => some d
  | _ => none

private theorem Program.partOf_of_duration? {p : Program} {d : Expr}
    (h : p.duration? = some d) : Node.PartOf p (.expression d) := by
  unfold duration? at h
  split at h
  next tok d' hbody =>
    cases h
    have hblock : Node.PartOf p (.block p.block) :=
      .child .whole (List.mem_singleton_self _)
    have hlist : Node.PartOf p (bodyNode p.block.bodyTok p.block.body) :=
      .child hblock (List.mem_cons_self ..)
    have hwait : Node.PartOf p (.statement (.wait tok d)) :=
      .child hlist (by simp [bodyNode, Node.children, hbody])
    exact .child hwait (List.mem_singleton_self _)
  next => cases h

/-- A quotient of the name `x` and a literal. -/
def Expr.dividesX : Expr → Bool
  | .binary _ (.name t) (.integer _ _) => t.literal == "x"
  | _ => false

theorem visit_expression_faults_unassigned : ∃ p e,
    parse dividesName = .ok p ∧ Node.PartOf p (.expression e) ∧
    ∃ f,
      (Run.visit .willing 1 (.expression e)).outcome ⟨.empty, ()⟩ =
        .error (.fault f) ∧ f.cause.name = "x" := by
  have hread : (parse dividesName).isOk = true := by decide +kernel
  obtain ⟨p, hp⟩ := exists_of_isOk hread
  have hshape : (parse dividesName).toOption.any
        (fun p => p.duration?.any Expr.dividesX) = true := by decide +kernel
  obtain ⟨e, hd, hx⟩ : ∃ e, p.duration? = some e ∧ e.dividesX = true := by
    rw [hp] at hshape
    exact (Option.any_eq_true _ _).1 hshape
  have hpart := Program.partOf_of_duration? hd
  obtain ⟨-, -, hiff, hblame, -⟩ :=
    visit_expression_faults hp hpart .willing 1 ⟨.empty, ()⟩
  unfold Expr.dividesX at hx
  split at hx
  next op t tok k =>
    have hoff : (Expr.name t).Offends Tables.empty.values .unassignedVariable :=
      .unassigned rfl
    obtain ⟨halt, hhalt⟩ := hiff.2 ⟨.name t, by simp, _, hoff⟩
    obtain ⟨before, n, behind, f, hsplit, hbefore, rfl, -, hname, hn, -⟩ :=
      hblame halt hhalt
    refine ⟨p, _, hp, hpart, f, hhalt, hname.trans ?_⟩
    -- the literal is fine, and the quotient comes after the name
    rcases before with _ | ⟨a, _ | ⟨b, rest⟩⟩
    · cases hsplit
      cases hn
    · cases hsplit
      exact eq_of_beq hx
    · have hb : Expr.name t = b := (List.cons.inj (List.cons.inj hsplit).2).1
      exact absurd (hb ▸ hoff) (hbefore b (by simp) _)
  next => cases hx

end Fixture
