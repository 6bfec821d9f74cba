import Fixture.Evaluate
import Fixture.Proofs.Decimal
/-!
# What comes of operators

An operator on two values gives a value, and the kinds of the operands fix the
kind of it. Where it gives none, there is one of three reasons: an operand is a
waypoint, something is divided by zero, or the token is no operator.
`Value.Operated` lists these four ends with all that is known in each, so what
other modules say of operators follows from one case distinction. Whether words
or doubles are computed with matters to none of it.

## Main results

* `Value.operation_operated`: the ends of an operation.
* `Value.kind_of_withSign`, `Value.kind_of_operation`: what operators make of
  kinds.
* `Value.operation_of_waypoint`: a waypoint is refused before anything is
  divided.
-/

namespace Fixture

/-! ## Kinds of results -/

namespace ValueKind

/-- Whether values of a kind compute as whole numbers. -/
def isWord : ValueKind → Bool
  | integer | boolean => true
  | real | waypoint => false

/-- The kind of a value with a sign before it. -/
def signed? : ValueKind → Option ValueKind
  | real => some .real
  | integer | boolean => some .integer
  | waypoint => none

/-- The kind of the result of an operator. -/
def combined? (op : Kind) (l r : ValueKind) : Option ValueKind :=
  if l = .waypoint ∨ r = .waypoint then none
  else match op with
    | .equal | .notEqual | .less | .lessEq | .greater | .greaterEq =>
      some .boolean
    | .floatDiv => some .real
    | .plus | .minus | .mul | .integerDiv =>
      some (if l.isWord && r.isWord then .integer else .real)
    | _ => none

theorem ne_waypoint {k : ValueKind} (h : k.isWord = true) : k ≠ .waypoint := by
  rintro rfl
  cases h

private theorem combined?_of_isWord {l r : ValueKind} (hl : l.isWord = true)
    (hr : r.isWord = true) (op : Kind) :
    combined? op l r = combined? op .integer .integer := by
  have hwaypoint : ¬ (l = .waypoint ∨ r = .waypoint) :=
    not_or.2 ⟨ne_waypoint hl, ne_waypoint hr⟩
  unfold combined?
  rw [if_neg hwaypoint, hl, hr]
  rfl

/-- One operand that is no whole number makes both of them reals. -/
private theorem combined?_of_real {l r : ValueKind} (hl : l ≠ .waypoint)
    (hr : r ≠ .waypoint) (hreal : (l.isWord && r.isWord) = false) (op : Kind) :
    combined? op l r = combined? op .real .real := by
  unfold combined?
  rw [if_neg (not_or.2 ⟨hl, hr⟩), hreal]
  rfl

end ValueKind

/-- The operators that divide. -/
def Kind.divides : Kind → Bool
  | .integerDiv | .floatDiv => true
  | _ => false

namespace Value

theorem kind_of_withSign {op : Token} {u v : Value}
    (h : u.withSign op = .ok v) : u.kind.signed? = some v.kind := by
  cases u with
  | waypoint d s => cases h
  | integer n =>
      cases h
      rfl
  | real x =>
      cases h
      rfl
  | boolean b =>
      cases h
      rfl

/-! ## Numbers -/

/-- A value that nothing can be divided by. -/
def isZero : Value → Bool
  | integer n => n == 0
  | real x => x == 0
  | boolean b => !b
  | waypoint _ _ => false

theorem eq_zero_iff_of_toInteger? {v : Value} {n : Int64}
    (h : v.toInteger? = some n) : n = 0 ↔ v.isZero = true := by
  cases v with
  | integer m =>
      cases h
      simp [isZero]
  | boolean b =>
      cases h
      cases b <;> simp [isZero, ofTruth]
  | real x => cases h
  | waypoint d s => cases h

theorem ne_waypoint_of_isZero {v : Value} (h : v.isZero = true) :
    v.kind ≠ .waypoint := by
  cases v with
  | waypoint d s => cases h
  | integer | real | boolean => exact ValueKind.noConfusion

/-- Taking a value as a double makes it zero only if it is. -/
private theorem beq_zero_of_toFloat? {v : Value} {x : Float}
    (h : v.toFloat? = some x) : (x == 0) = v.isZero := by
  cases v with
  | integer m =>
      cases h
      exact Decimal.ofInt64_beq_zero m
  | real y =>
      cases h
      rfl
  | boolean b =>
      cases h
      cases b <;> decide
  | waypoint d s => cases h

private theorem exists_toFloat? {v : Value} (h : v.kind ≠ .waypoint) :
    ∃ x, v.toFloat? = some x := by
  cases v with
  | waypoint d s => exact absurd rfl h
  | integer | real | boolean => exact ⟨_, rfl⟩

private theorem isWord_kind (v : Value) :
    v.kind.isWord = v.toInteger?.isSome := by
  cases v <;> rfl

/-! ## Ends of an operation -/

/-- The ends of an operation. A waypoint is refused before anything else is
looked at. -/
inductive Operated (op : Token) (q : Expr) (l r : Value) :
    Except EvalError Value → Prop where
  | mismatch (h : l.kind = .waypoint ∨ r.kind = .waypoint) :
      Operated op q l r
        (.error (.at op (.operandMismatch l.kind op.literal r.kind)))
  | value {v : Value}
      (hkind : ValueKind.combined? op.kind l.kind r.kind = some v.kind)
      (hzero : ¬ (op.kind.divides = true ∧ r.isZero = true)) :
      Operated op q l r (.ok v)
  | byZero (hl : l.kind ≠ .waypoint) (hop : op.kind.divides = true)
      (hr : r.isZero = true) :
      Operated op q l r (.error (.at op (.divisionByZero q)))
  | refused (hl : l.kind ≠ .waypoint) (hr : r.kind ≠ .waypoint)
      (hop : ValueKind.combined? op.kind l.kind r.kind = none) :
      Operated op q l r (.error (.unexpectedOperator op.kind))

section Ends

variable {op : Token} {q : Expr} {l r v : Value}

private theorem Operated.guarded {c : Prop} [Decidable c]
    (hl : l.kind ≠ .waypoint) (hop : op.kind.divides = true)
    (hzero : c ↔ r.isZero = true)
    (hkind : ValueKind.combined? op.kind l.kind r.kind = some v.kind) :
    Operated op q l r
      (if c then .error (.at op (.divisionByZero q)) else .ok v) := by
  by_cases hc : c
  · rw [if_pos hc]
    exact .byZero hl hop (hzero.1 hc)
  · rw [if_neg hc]
    exact .value hkind fun h => hc (hzero.2 h.2)

private theorem Operated.refused_of_kind {k : Kind} (hk : op.kind = k)
    (hl : l.kind ≠ .waypoint) (hr : r.kind ≠ .waypoint)
    (hop : ValueKind.combined? k l.kind r.kind = none) :
    Operated op q l r (.error (.unexpectedOperator k)) := by
  subst hk
  exact .refused hl hr hop

private theorem wordOperation_operated {m n : Int64}
    (hl : l.toInteger? = some m) (hr : r.toInteger? = some n) :
    Operated op q l r (wordOperation op q m n) := by
  have hlword : l.kind.isWord = true := by rw [isWord_kind, hl]; rfl
  have hrword : r.kind.isWord = true := by rw [isWord_kind, hr]; rfl
  have hcombined := ValueKind.combined?_of_isWord hlword hrword
  have hlway := ValueKind.ne_waypoint hlword
  have hzero := eq_zero_iff_of_toInteger? hr
  unfold wordOperation
  cases hop : op.kind with
  | plus | minus | mul | equal | notEqual | less | lessEq | greater |
      greaterEq =>
        refine .value (by rw [hop, hcombined]; rfl) ?_
        simp [hop, Kind.divides]
  | integerDiv | floatDiv =>
      exact .guarded hlway (by rw [hop]; rfl) hzero
        (by rw [hop, hcombined]; rfl)
  | _ =>
      exact .refused_of_kind hop hlway (ValueKind.ne_waypoint hrword)
        (hcombined _)

private theorem realOperation_operated {x y : Float} (hl : l.kind ≠ .waypoint)
    (hr : r.toFloat? = some y) (hrway : r.kind ≠ .waypoint)
    (hreal : (l.kind.isWord && r.kind.isWord) = false) :
    Operated op q l r (realOperation op q x y) := by
  have hcombined := ValueKind.combined?_of_real hl hrway hreal
  have hzero : (y == 0) = true ↔ r.isZero = true := by
    rw [beq_zero_of_toFloat? hr]
  unfold realOperation
  cases hop : op.kind with
  | plus | minus | mul | equal | notEqual | less | lessEq | greater |
      greaterEq =>
        refine .value (by rw [hop, hcombined]; rfl) ?_
        simp [hop, Kind.divides]
  | integerDiv | floatDiv =>
      exact .guarded hl (by rw [hop]; rfl) hzero (by rw [hop, hcombined]; rfl)
  | _ => exact .refused_of_kind hop hl hrway (hcombined _)

/-- A waypoint is refused before anything is divided. -/
theorem operation_of_waypoint (q : Expr)
    (h : l.kind = .waypoint ∨ r.kind = .waypoint) :
    operation op q l r =
      .error (.at op (.operandMismatch l.kind op.literal r.kind)) := by
  cases l with
  | waypoint d s => rfl
  | integer | real | boolean =>
      cases r with
      | waypoint d s => rfl
      | integer | real | boolean => simp [kind] at h

/-- **An operation has one of four ends.** -/
theorem operation_operated (op : Token) (q : Expr) (l r : Value) :
    Operated op q l r (operation op q l r) := by
  by_cases hway : l.kind = .waypoint ∨ r.kind = .waypoint
  · rw [operation_of_waypoint q hway]
    exact .mismatch hway
  · obtain ⟨hl, hr⟩ := not_or.1 hway
    obtain ⟨lf, hlf⟩ := exists_toFloat? hl
    obtain ⟨rf, hrf⟩ := exists_toFloat? hr
    unfold operation
    rw [hlf, hrf]
    dsimp only
    split
    next li ri hli hri => exact wordOperation_operated hli hri
    next hnot =>
      refine realOperation_operated hl hrf hr ?_
      rw [isWord_kind, isWord_kind]
      cases hli : l.toInteger? with
      | none => rfl
      | some li =>
          cases hri : r.toInteger? with
          | none => rfl
          | some ri => exact (hnot li ri hli hri).elim

/-- **Operators give values of the kind that they give kinds.** -/
theorem kind_of_operation (h : operation op q l r = .ok v) :
    ValueKind.combined? op.kind l.kind r.kind = some v.kind := by
  have hend := operation_operated op q l r
  rw [h] at hend
  cases hend with
  | value hkind _ => exact hkind

end Ends

end Value

end Fixture
