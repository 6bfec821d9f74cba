import Fixture.Proofs.Evaluation.Order
/-!
# What faults are blamed on

A deed works out expressions and wants something of their values: a condition
has to be a truth value, a duration, a distance and a speed have to be numbers,
and what is assigned only must not be a waypoint. Which expressions these are
depends on the values at hand, for a move to a waypoint works out the operands
of the waypoint and not its own.

So there are two ways for a deed to go wrong. Something is wrong with a node of
an expression, and that is blamed on the token of the node. Or all nodes have
values and the deed does not want the one it gets: that is blamed on the
leftmost token of the expression, or on the target, if there is one.

## Main results

* `Deed.Asks`: what a deed works out, and what it wants.
* `Deed.Blamed`: the tokens and causes of its faults.
* `Deed.FailsWith.blamed`: deeds have no other faults.
-/

namespace Fixture

attribute [local simp] Expr.lookup Expr.evalTruth Expr.evalNumber Expr.numeric
  Value.coerce Motion.resolve Motion.eval

/-! ## Results -/

/-- An error of two steps is one of the first, or one of the second on what the
first gave. -/
private theorem error_of_bind {α β : Type} {x : Except EvalError α}
    {f : α → Except EvalError β} {err : EvalError}
    (h : (x >>= f) = .error err) :
    x = .error err ∨ ∃ a, x = .ok a ∧ f a = .error err := by
  cases x with
  | error e => exact .inl (congrArg _ (Except.error.inj h))
  | ok a => exact .inr ⟨a, rfl, h⟩

namespace Value

private theorem kind_of_toFloat? {v : Value} (h : v.toFloat? = none) :
    v.kind = .waypoint := by
  cases v with
  | waypoint d s => rfl
  | integer | real | boolean => cases h

/-- What cannot be assigned: a waypoint to anything, and anything to what is no
type. -/
private theorem coerce_eq_error {declared : Kind} {target : Token} {v : Value}
    {err : EvalError} (h : v.coerce declared target = .error err) :
    v.kind = .waypoint ∧
    err = .at target (.waypointAssigned target.literal declared) ∨
    declared.isVariableType = false ∧
    err = .at target (.illegalType target.literal declared) := by
  unfold coerce at h
  cases hx : v.toFloat? with
  | none =>
      rw [hx] at h
      cases h
      exact .inl ⟨kind_of_toFloat? hx, rfl⟩
  | some x =>
      right
      rw [hx] at h
      cases declared with
      | tyInteger =>
          dsimp only at h
          split at h <;> cases h
      | tyReal | tyBool => cases h
      | _ =>
          cases h
          exact ⟨rfl, rfl⟩

end Value

namespace Expr

variable {values : Table Value} {e : Expr} {err : EvalError}

/-- What is no condition: an expression without a value, or one whose value is
no truth value. -/
theorem evalTruth_eq_error (h : e.evalTruth values = .error err) :
    e.eval values = .error err ∨
    ∃ v, e.eval values = .ok v ∧ v.kind ≠ .boolean ∧
      err = .at e.leading (.conditionNotBoolean e v.kind) := by
  refine (error_of_bind h).imp id ?_
  rintro ⟨v, hv, herr⟩
  cases v with
  | boolean b => cases herr
  | integer | real | waypoint =>
      cases herr
      exact ⟨_, hv, ValueKind.noConfusion, rfl⟩

/-- What is no number: an expression without a value, or one whose value is a
waypoint. -/
private theorem evalNumber_eq_error (h : e.evalNumber values = .error err) :
    e.eval values = .error err ∨
    e.IsWaypoint values ∧ err = .at e.leading (.notANumber e .waypoint) := by
  refine (error_of_bind h).imp id ?_
  rintro ⟨v, hv, herr⟩
  unfold numeric at herr
  cases hx : v.toFloat? with
  | some x =>
      rw [hx] at herr
      cases herr
  | none =>
      have hkind := Value.kind_of_toFloat? hx
      rw [hx, hkind] at herr
      cases herr
      exact ⟨⟨v, hv, hkind⟩, rfl⟩

end Expr

namespace Motion

variable {values : Table Value} {d : Expr} {s : Option Expr} {err : EvalError}

/-- Operands are there unless a name is the distance that is bound to
nothing. -/
private theorem resolve_eq_error (h : resolve values d s = .error err) :
    ∃ tok, d = .name tok ∧ d.eval values = .error err := by
  cases d with
  | name tok =>
      rcases error_of_bind h with hlookup | ⟨v, -, hv⟩
      · exact ⟨tok, rfl, hlookup⟩
      · cases v <;> cases hv
  | integer | real | boolean | signed | binary => cases h

/-- What is no move: the distance is a name that is bound to nothing, or an
operand is no number. -/
private theorem eval_eq_error (h : Motion.eval values d s = .error err) :
    (∃ tok, d = .name tok ∧ d.eval values = .error err) ∨
    ∃ o, resolve values d s = .ok o ∧
      (o.1.evalNumber values = .error err ∨
        ∃ e ∈ o.2.1, e.evalNumber values = .error err) := by
  refine (error_of_bind h).imp resolve_eq_error ?_
  rintro ⟨o, ho, hrest⟩
  refine ⟨o, ho, (error_of_bind hrest).imp id ?_⟩
  rintro ⟨x, -, hspeed⟩
  obtain ⟨d', s', relative⟩ := o
  cases s' with
  | none => cases hspeed
  | some e =>
      rcases error_of_bind hspeed with hrate | ⟨rate, -, hpair⟩
      · exact ⟨e, rfl, hrate⟩
      · cases hpair

end Motion

/-! ## Deeds -/

/-- What is wanted of the value of an expression. -/
inductive Want where
  /-- A truth value. -/
  | truth
  /-- Anything but a waypoint, as a number. -/
  | number
  /-- That there is one. -/
  | any

namespace Deed

/-- The expressions that a deed works out over some values, and what it wants of
them. A name as distance is looked up first, and may stand for the operands of a
waypoint. -/
inductive Asks (values : Table Value) : Deed → Expr → Want → Prop where
  | condition {c : Expr} : Asks values (.condition c) c .truth
  | value {target : Token} {value : Expr} :
      Asks values (.assign target value) value .any
  | duration {e : Expr} : Asks values (.wait e) e .number
  | name {axis : Axis} {tok : Token} {s : Option Expr} :
      Asks values (.move axis (.name tok) s) (.name tok) .any
  | distance {axis : Axis} {d : Expr} {s : Option Expr}
      {o : Expr × Option Expr × Bool} (h : Motion.resolve values d s = .ok o) :
      Asks values (.move axis d s) o.1 .number
  | speed {axis : Axis} {d : Expr} {s : Option Expr}
      {o : Expr × Option Expr × Bool} {e : Expr}
      (h : Motion.resolve values d s = .ok o) (he : e ∈ o.2.1) :
      Asks values (.move axis d s) e .number

/-- The faults of a deed over some tables: what causes them, and the tokens that
they are blamed on. -/
inductive Blamed (t : Tables) : Deed → Token → Cause → Prop where
  | undeclared {target : Token} {value : Expr}
      (h : t.types.get? target.literal = none) :
      Blamed t (.assign target value) target (.undeclared target.literal)
  | assigned {target : Token} {value : Expr} {declared : Kind}
      (hway : value.IsWaypoint t.values) :
      Blamed t (.assign target value) target
        (.waypointAssigned target.literal declared)
  | illegal {target : Token} {value : Expr} {declared : Kind}
      (hdecl : t.types.get? target.literal = some declared)
      (htype : declared.isVariableType = false) :
      Blamed t (.assign target value) target
        (.illegalType target.literal declared)
  | node {d : Deed} {e n : Expr} {want : Want} {f : Fault}
      (he : d.Asks t.values e want) (hn : n ∈ e.agenda)
      (hf : n.Faulty t.values f) : Blamed t d n.tok f.cause
  | truth {d : Deed} {c : Expr} {v : Value} (hc : d.Asks t.values c .truth)
      (hv : c.eval t.values = .ok v) (hkind : v.kind ≠ .boolean) :
      Blamed t d c.leading (.conditionNotBoolean c v.kind)
  | number {d : Deed} {e : Expr} (he : d.Asks t.values e .number)
      (hway : e.IsWaypoint t.values) :
      Blamed t d e.leading (.notANumber e .waypoint)

variable {t : Tables} {d : Deed} {f : Fault}

private theorem blamed_of_eval {e : Expr} {want : Want}
    (he : d.Asks t.values e want) (h : e.eval t.values = .error (.fault f)) :
    ∃ tok, f.pos = tok.pos ∧ d.Blamed t tok f.cause := by
  obtain ⟨n, hn, hf⟩ := Expr.exists_faulty h
  exact ⟨n.tok, hf.blamed.1, .node he hn hf⟩

private theorem blamed_of_evalNumber {e : Expr} (he : d.Asks t.values e .number)
    (h : e.evalNumber t.values = .error (.fault f)) :
    ∃ tok, f.pos = tok.pos ∧ d.Blamed t tok f.cause := by
  rcases Expr.evalNumber_eq_error h with heval | ⟨hway, hf⟩
  · exact blamed_of_eval he heval
  · cases hf
    exact ⟨e.leading, rfl, .number he hway⟩

/-- **Deeds have no other faults.** -/
theorem FailsWith.blamed (h : d.FailsWith t (.fault f)) :
    ∃ tok, f.pos = tok.pos ∧ d.Blamed t tok f.cause := by
  cases h with
  | condition htruth =>
      rcases Expr.evalTruth_eq_error htruth with heval | ⟨v, hv, hkind, hf⟩
      · exact blamed_of_eval .condition heval
      · cases hf
        exact ⟨_, rfl, .truth .condition hv hkind⟩
  | undeclared hdecl => exact ⟨_, rfl, .undeclared hdecl⟩
  | value heval => exact blamed_of_eval .value heval
  | coercion hdecl hv hcoerce =>
      rcases Value.coerce_eq_error hcoerce with ⟨hkind, hf⟩ | ⟨htype, hf⟩
      · cases hf
        exact ⟨_, rfl, .assigned ⟨_, hv, hkind⟩⟩
      · cases hf
        exact ⟨_, rfl, .illegal hdecl htype⟩
  | wait hnumber => exact blamed_of_evalNumber .duration hnumber
  | move hmove =>
      rcases Motion.eval_eq_error hmove with
        ⟨tok, rfl, heval⟩ | ⟨o, ho, hdistance | ⟨e, he, hspeed⟩⟩
      · exact blamed_of_eval .name heval
      · exact blamed_of_evalNumber (.distance ho) hdistance
      · exact blamed_of_evalNumber (.speed ho he) hspeed

end Deed

end Fixture
