import Fixture.Proofs.Arithmetic
import Fixture.Proofs.Evaluation.Order
/-!
# Exact evaluation

Expressions over whole numbers and truth values have an exact value, which is
computed without bounds: truth values count as one and zero, `DIV` is the floor
of the rational quotient, and comparisons give truth values that may be computed
with again. A division by zero is the only thing that leaves such an expression
without an exact value.

Evaluation computes with words. As long as the exact values of all nodes are
words, it finds the exact value of the expression, and a division by zero that
comes before any node whose exact value is no word is found as well.

## Main results

* `Exact.wordOperation_eq`: operators on words compute exactly, up to multiples
  of `2 ^ 64`.
* `Expr.eval_eq_toValue`: expressions over words have their exact values.
* `eval_exact`: exact evaluation and evaluation.
-/

namespace Fixture

attribute [local simp] Expr.eval Expr.lookup Value.wordOperation Value.withSign
  ValueKind.combined?

/-- A whole number without bounds, or a truth value. -/
inductive Exact where
  | number (n : Int)
  | truth (b : Bool)
deriving DecidableEq

namespace Exact

/-- An exact value as a whole number. -/
def toInt : Exact → Int
  | number n => n
  | truth b => if b then 1 else 0

/-- An exact value as a value of the language. Numbers lose multiples of `2 ^
64`. -/
def toValue : Exact → Value
  | number n => .integer (Int64.ofInt n)
  | truth b => .boolean b

/-- A sign before a number. -/
def signed? (op : Kind) (n : Int) : Option Exact :=
  match op with
  | .plus => some (.number n)
  | .minus => some (.number (-n))
  | _ => none

/-- An operator between two numbers. -/
def operation? (op : Kind) (l r : Int) : Option Exact :=
  match op with
  | .plus => some (.number (l + r))
  | .minus => some (.number (l - r))
  | .mul => some (.number (l * r))
  | .integerDiv => if r = 0 then none else some (.number ⌊(l / r : ℚ)⌋)
  | .equal => some (.truth (l = r))
  | .notEqual => some (.truth (l ≠ r))
  | .less => some (.truth (l < r))
  | .lessEq => some (.truth (l ≤ r))
  | .greater => some (.truth (r < l))
  | .greaterEq => some (.truth (r ≤ l))
  | _ => none

end Exact

/-- The exact value that a value of the language stands for. -/
def Value.exactly? : Value → Option Exact
  | .integer n => some (.number n.toInt)
  | .boolean b => some (.truth b)
  | _ => none

/-- The exact value of an expression. -/
def Expr.exactly? (values : Table Value) : Expr → Option Exact
  | .integer _ n => some (.number n.toInt)
  | .real _ _ => none
  | .boolean _ b => some (.truth b)
  | .name t => (values.get? t.literal).bind Value.exactly?
  | .signed op e =>
    (e.exactly? values).bind fun x => Exact.signed? op.kind x.toInt
  | .binary op l r =>
    (l.exactly? values).bind fun x =>
      (r.exactly? values).bind fun y => Exact.operation? op.kind x.toInt y.toInt

/-- An expression over whole numbers and truth values, with signs, `+`, `-`,
`*`, `DIV` and comparisons. -/
def Expr.Integral (values : Table Value) : Expr → Prop
  | .integer _ _ | .boolean _ _ => True
  | .real _ _ => False
  | .name t => ∃ v, values.get? t.literal = some v ∧ v.kind.isWord = true
  | .signed op e => op.kind.isAdditive = true ∧ e.Integral values
  | .binary op l r =>
    (op.kind.isInfix = true ∧ op.kind ≠ .floatDiv) ∧ l.Integral values ∧
    r.Integral values

/-! ## Operators -/

namespace ValueKind

/-- Only `/` leads out of the whole numbers and truth values. -/
private theorem isWord_of_combined? {op : Kind} {l r k : ValueKind}
    (hl : l.isWord = true) (hr : r.isWord = true) (hop : op ≠ .floatDiv)
    (h : combined? op l r = some k) : k.isWord = true := by
  unfold combined? at h
  rw [if_neg (not_or.2 ⟨ne_waypoint hl, ne_waypoint hr⟩), hl, hr] at h
  cases op with
  | floatDiv => exact absurd rfl hop
  | plus | minus | mul | integerDiv | equal | notEqual | less | lessEq |
      greater | greaterEq =>
        cases h
        rfl
  | _ => cases h

end ValueKind

namespace Value

/-- Whole numbers and truth values compute as words. -/
theorem operation_of_words {op : Token} {q : Expr} {l r : Value} {m n : Int64}
    (hl : l.toInteger? = some m) (hr : r.toInteger? = some n) :
    operation op q l r = wordOperation op q m n := by
  cases l with
  | integer | boolean =>
      cases r with
      | integer | boolean =>
          cases hl
          cases hr
          rfl
      | real | waypoint => cases hr
  | real | waypoint => cases hl

/-- A value is that of the exact value it stands for. -/
theorem eq_toValue {v : Value} {x : Exact} (h : v.exactly? = some x) :
    v = x.toValue := by
  cases v with
  | integer n =>
      cases h
      rw [Exact.toValue, Int64.ofInt_toInt]
  | boolean b =>
      cases h
      rfl
  | real | waypoint => cases h

end Value

namespace Exact

theorem toInteger?_toValue (x : Exact) :
    x.toValue.toInteger? = some (Int64.ofInt x.toInt) := by
  cases x with
  | number n => rfl
  | truth b => cases b <;> rfl

private theorem toInt_ofInt {x : Int} (h : IsWord x) :
    (Int64.ofInt x).toInt = x := by
  rw [Int64.toInt_ofInt]
  exact h.bmod_eq

/-- What is a word stands for itself. -/
private theorem exactly?_toValue {x : Exact} (h : IsWord x.toInt) :
    x.toValue.exactly? = some x := by
  cases x with
  | number n => exact congrArg (fun m => some (number m)) (toInt_ofInt h)
  | truth b => rfl

private theorem kind_toValue_ne (x : Exact) : x.toValue.kind ≠ .waypoint := by
  cases x with
  | number n => exact ValueKind.noConfusion
  | truth b => exact ValueKind.noConfusion

theorem withSign_toValue {op : Token} {x y : Exact}
    (h : signed? op.kind x.toInt = some y) :
    x.toValue.withSign op = .ok y.toValue := by
  unfold signed? at h
  split at h
  next hk =>
    cases h
    cases x with
    | number n => simp [toValue, toInt, hk]
    | truth b => cases b <;> simp [toValue, toInt, Value.ofTruth, hk]
  next hk =>
    cases h
    cases x with
    | number n => simp [toValue, toInt, hk, Int64.ofInt_neg]
    | truth b =>
        cases b <;> simp [toValue, toInt, Value.ofTruth, hk, Int64.ofInt_neg]
  next => cases h

/-- **Operators on words compute exactly**, up to multiples of `2 ^ 64`. -/
theorem wordOperation_eq {op : Token} {q : Expr} {l r : Int64} {x : Exact}
    (h : operation? op.kind l.toInt r.toInt = some x) :
    Value.wordOperation op q l r = .ok x.toValue := by
  unfold operation? at h
  unfold Value.wordOperation
  cases hk : op.kind with
  | plus =>
      rw [hk] at h
      cases h
      simp [toValue, Int64.ofInt_add, Int64.ofInt_toInt]
  | minus =>
      rw [hk] at h
      cases h
      simp [toValue, Int64.ofInt_sub, Int64.ofInt_toInt]
  | mul =>
      rw [hk] at h
      cases h
      simp [toValue, Int64.ofInt_mul, Int64.ofInt_toInt]
  | integerDiv =>
      rw [hk] at h
      dsimp only at h ⊢
      by_cases hr : r.toInt = 0
      · rw [if_pos hr] at h
        cases h
      · have hr' : r ≠ 0 := fun heq => hr (congrArg Int64.toInt heq)
        rw [if_neg hr] at h
        cases h
        have hdiv : Int64.ofInt ⌊(l.toInt / r.toInt : ℚ)⌋ = floorDiv l r :=
          (Int64.ofInt_eq_iff_bmod_eq_toInt _ _).2 (toInt_floorDiv l hr').symm
        rw [if_neg hr', toValue, hdiv]
  | equal | notEqual | less | lessEq | greater | greaterEq =>
      rw [hk] at h
      cases h
      simp [toValue, bne, beq_eq_decide, Int64.toInt_inj, Int64.lt_iff_toInt_lt,
        Int64.le_iff_toInt_le]
  | _ =>
      rw [hk] at h
      cases h

/-- What operators give on exact values that are words. -/
private theorem operation_toValue {op : Token} {q : Expr} {x y z : Exact}
    (hx : IsWord x.toInt) (hy : IsWord y.toInt)
    (h : operation? op.kind x.toInt y.toInt = some z) :
    Value.operation op q x.toValue y.toValue = .ok z.toValue := by
  rw [Value.operation_of_words (toInteger?_toValue x) (toInteger?_toValue y)]
  refine wordOperation_eq ?_
  rwa [toInt_ofInt hx, toInt_ofInt hy]

private theorem signed?_ne_none {op : Kind} (h : op.isAdditive = true)
    (n : Int) : signed? op n ≠ none := by
  unfold signed?
  cases op with
  | plus | minus => exact Option.some_ne_none _
  | _ => cases h

/-- Only a division by zero has no exact value. -/
private theorem zero_of_operation? {op : Kind} {l r : Int}
    (hop : op.isInfix = true) (hdiv : op ≠ .floatDiv)
    (h : operation? op l r = none) : op = .integerDiv ∧ r = 0 := by
  unfold operation? at h
  cases op with
  | integerDiv =>
      dsimp only at h
      by_cases hr : r = 0
      · exact ⟨rfl, hr⟩
      · rw [if_neg hr] at h
        cases h
  | floatDiv => exact absurd rfl hdiv
  | plus | minus | mul | equal | notEqual | less | lessEq | greater |
      greaterEq => cases h
  | _ => cases hop

private theorem isZero_toValue {x : Exact} (h : x.toInt = 0) :
    x.toValue.isZero = true := by
  refine (Value.eq_zero_iff_of_toInteger? (toInteger?_toValue x)).1 ?_
  rw [h]
  rfl

end Exact

/-! ## Expressions -/

namespace Expr

variable {values : Table Value}

/-- An expression whose exact value is a word. -/
def ExactWord (values : Table Value) (e : Expr) : Prop :=
  ∃ x, e.exactly? values = some x ∧ IsWord x.toInt

instance (e : Expr) : Decidable (e.ExactWord values) :=
  decidable_of_iff
    ((e.exactly? values).any (fun x => decide (IsWord x.toInt)) = true)
    (by simp only [Option.any_eq_true, decide_eq_true_eq, ExactWord])

/-- **Expressions over words have their exact values.** -/
theorem eval_eq_toValue {e : Expr} {x : Exact}
    (hwords : ∀ n ∈ e.agenda, n.ExactWord values)
    (h : e.exactly? values = some x) : e.eval values = .ok x.toValue := by
  induction e generalizing x with
  | integer tok n =>
      cases h
      rw [eval, Exact.toValue, Int64.ofInt_toInt]
  | real tok y => cases h
  | boolean tok b =>
      cases h
      rfl
  | name t =>
      obtain ⟨v, hget, hv⟩ := Option.bind_eq_some_iff.1 h
      rw [eval, lookup, hget, Value.eq_toValue hv]
  | signed op e ih =>
      obtain ⟨y, hy, hx⟩ := Option.bind_eq_some_iff.1 h
      have hev := ih (fun n hn => hwords n (List.mem_append_left _ hn)) hy
      rw [eval_signed_of_ok hev]
      exact Exact.withSign_toValue hx
  | binary op l r ihl ihr =>
      obtain ⟨y, hy, hbind⟩ := Option.bind_eq_some_iff.1 h
      obtain ⟨z, hz, hx⟩ := Option.bind_eq_some_iff.1 hbind
      have hl : ∀ n ∈ l.agenda, n.ExactWord values :=
        fun n hn => hwords n (by simp [hn])
      have hr : ∀ n ∈ r.agenda, n.ExactWord values :=
        fun n hn => hwords n (by simp [hn])
      obtain ⟨y', hy', hyword⟩ := hl l l.mem_agenda
      obtain ⟨z', hz', hzword⟩ := hr r r.mem_agenda
      cases hy.symm.trans hy'
      cases hz.symm.trans hz'
      rw [eval_binary_of_ok (ihl hl hy) (ihr hr hz)]
      exact Exact.operation_toValue hyword hzword hx

/-- A division by an exact zero fails. -/
private theorem eval_div_zero {op : Token} {l r : Expr} {y : Exact}
    (hop : op.kind = .integerDiv) (hl : ∀ n ∈ l.agenda, n.ExactWord values)
    (hr : ∀ n ∈ r.agenda, n.ExactWord values) (hy : r.exactly? values = some y)
    (hzero : y.toInt = 0) :
    (Expr.binary op l r).eval values =
      .error (.at op (.divisionByZero (.binary op l r))) := by
  obtain ⟨x, hx, -⟩ := hl l l.mem_agenda
  have hdivides : op.kind.divides = true := by
    rw [hop]
    rfl
  rw [eval_binary_of_ok (eval_eq_toValue hl hx) (eval_eq_toValue hr hy)]
  exact (Value.operation_failsIf (Kind.isInfix_of_divides hdivides) _
    x.kind_toValue_ne y.kind_toValue_ne).1
    ⟨hdivides, Exact.isZero_toValue hzero⟩

/-! ## Expressions over whole numbers and truth values -/

/-- An expression over whole numbers and truth values has an exact value unless
it divides by zero. -/
private theorem Integral.exists_zero {e : Expr} (he : e.Integral values)
    (h : e.exactly? values = none) :
    ∃ op l r y, .binary op l r ∈ e.agenda ∧ op.kind = .integerDiv ∧
      r.exactly? values = some y ∧ y.toInt = 0 := by
  induction e with
  | integer | boolean => cases h
  | real => exact he.elim
  | name t =>
      obtain ⟨v, hget, hword⟩ := he
      rw [exactly?, hget] at h
      cases v with
      | integer | boolean => cases h
      | real | waypoint => cases hword
  | signed op e ih =>
      rw [exactly?] at h
      cases hx : e.exactly? values with
      | none =>
          obtain ⟨op', l, r, y, hmem, hzero⟩ := ih he.2 hx
          exact ⟨op', l, r, y, List.mem_append_left _ hmem, hzero⟩
      | some x =>
          rw [hx] at h
          exact absurd h (Exact.signed?_ne_none he.1 x.toInt)
  | binary op l r ihl ihr =>
      obtain ⟨hop, hl, hr⟩ := he
      rw [exactly?] at h
      cases hx : l.exactly? values with
      | none =>
          obtain ⟨op', l', r', y, hmem, hzero⟩ := ihl hl hx
          exact ⟨op', l', r', y, by simp [hmem], hzero⟩
      | some x =>
          cases hy : r.exactly? values with
          | none =>
              obtain ⟨op', l', r', y, hmem, hzero⟩ := ihr hr hy
              exact ⟨op', l', r', y, by simp [hmem], hzero⟩
          | some y =>
              rw [hx, hy] at h
              obtain ⟨hdiv, hzero⟩ := Exact.zero_of_operation? hop.1 hop.2 h
              exact ⟨op, l, r, y, mem_agenda _, hdiv, hy, hzero⟩

/-- What such an expression can come to: a whole number, a truth value or a
division by zero. -/
private theorem Integral.eval_cases {e : Expr} (he : e.Integral values) :
    (∃ v, e.eval values = .ok v ∧ v.kind.isWord = true) ∨
    ∃ f, e.eval values = .error (.fault f) ∧
      f.cause.kind = .divisionByZero := by
  induction e with
  | integer | boolean => exact .inl ⟨_, rfl, rfl⟩
  | real => exact he.elim
  | name t =>
      obtain ⟨v, hget, hword⟩ := he
      refine .inl ⟨v, ?_, hword⟩
      rw [eval, lookup, hget]
  | signed op e ih =>
      rcases ih he.2 with ⟨v, hv, hword⟩ | ⟨f, hf, hkind⟩
      · rw [eval_signed_of_ok hv]
        cases v with
        | integer | boolean => exact .inl ⟨_, rfl, rfl⟩
        | real | waypoint => cases hword
      · exact .inr ⟨f, eval_signed_of_error hf, hkind⟩
  | binary op l r ihl ihr =>
      obtain ⟨hop, hl, hr⟩ := he
      rcases ihr hr with ⟨rv, hrv, hrword⟩ | ⟨f, hf, hkind⟩
      · rcases ihl hl with ⟨lv, hlv, hlword⟩ | ⟨f, hf, hkind⟩
        · rw [eval_binary_of_ok hlv hrv]
          have hfails := Value.operation_failsIf hop.1 (.binary op l r)
            (ValueKind.ne_waypoint hlword) (ValueKind.ne_waypoint hrword)
          by_cases hzero : op.kind.divides = true ∧ rv.isZero = true
          · exact .inr ⟨_, hfails.1 hzero, rfl⟩
          · obtain ⟨v, hv⟩ := hfails.2 hzero
            exact .inl ⟨v, hv, ValueKind.isWord_of_combined? hlword hrword hop.2
              (Value.kind_of_operation hv)⟩
        · exact .inr ⟨f, eval_binary_of_left_error ⟨rv, hrv⟩ hf, hkind⟩
      · exact .inr ⟨f, eval_binary_of_right_error hf, hkind⟩

end Expr

/--
**Exact evaluation.** Let an expression be built from whole numbers and truth
values by signs, `+`, `-`, `*`, `DIV` and comparisons. It has an exact value
unless it divides by zero. If the exact values of all its nodes are words, its
value is the exact one, a whole number where it computes and a truth value where
it compares. If the exact values below a `DIV` are words and its divisor is
zero, the expression fails with a division by zero; and with that very one, if
the exact values of all nodes that come before it are words.
-/
theorem eval_exact {values : Table Value} {e : Expr} (he : e.Integral values) :
    (e.exactly? values = none →
      ∃ op l r y, .binary op l r ∈ e.agenda ∧ op.kind = .integerDiv ∧
        r.exactly? values = some y ∧ y.toInt = 0) ∧
    ((∀ n ∈ e.agenda, n.ExactWord values) →
      ∃ x v, e.exactly? values = some x ∧ e.eval values = .ok v ∧
        v.exactly? = some x) ∧
    ∀ op l r y, op.kind = .integerDiv → r.exactly? values = some y →
      y.toInt = 0 →
      (.binary op l r ∈ e.agenda → (∀ n ∈ l.agenda, n.ExactWord values) →
        (∀ n ∈ r.agenda, n.ExactWord values) →
        ∃ f, e.eval values = .error (.fault f) ∧
          f.cause.kind = .divisionByZero) ∧
      ∀ before behind, e.agenda = before ++ .binary op l r :: behind →
        (∀ n ∈ before, n.ExactWord values) →
        e.eval values = .error (.at op (.divisionByZero (.binary op l r))) := by
  refine ⟨he.exists_zero, fun hwords => ?_,
    fun op l r y hop hy hzero => ⟨fun hmem hl hr => ?_, ?_⟩⟩
  · obtain ⟨x, hx, hword⟩ := hwords e e.mem_agenda
    exact ⟨x, x.toValue, hx, Expr.eval_eq_toValue hwords hx,
      Exact.exactly?_toValue hword⟩
  · have hdiv := Expr.not_valued (Expr.eval_div_zero hop hl hr hy hzero)
    refine he.eval_cases.resolve_left ?_
    rintro ⟨v, hv, -⟩
    exact hdiv (Expr.Valued.forall_mem ⟨v, hv⟩ _ hmem)
  · intro before behind hsplit hwords
    have hbelow {m : Expr} (hm : m ∈ before) : ∀ n ∈ m.agenda,
        n.ExactWord values :=
      fun n hn => hwords n (Expr.agenda_subset_before hsplit hm hn)
    have hl : l ∈ before := Expr.operand_mem_before hsplit (by simp)
    have hr : r ∈ before := Expr.operand_mem_before hsplit (by simp)
    refine Expr.eval_eq_error hsplit (fun m hm => ?_)
      (Expr.eval_div_zero hop (hbelow hl) (hbelow hr) hy hzero)
    obtain ⟨x, hx, -⟩ := hwords m hm
    exact ⟨_, Expr.eval_eq_toValue (hbelow hm) hx⟩

/-- An expression that computes with a truth value and rounds down: `(TRUE - 8)
DIV x`. -/
def roundsDown : Expr :=
  .binary (.fixed .integerDiv)
    (.binary (.fixed .minus) (.boolean ⟨.boolConst, "TRUE", .nowhere⟩ true)
      (.integer ⟨.integerConst, "8", .nowhere⟩ 8))
    (.name ⟨.ident, "x", .nowhere⟩)

/-- A table that binds `x` to two. -/
def bindsX : Table Value := Table.empty.set "x" (.integer 2)

theorem eval_exact_roundsDown : roundsDown.Integral bindsX ∧
    ∃ v, roundsDown.eval bindsX = .ok v ∧ v.exactly? = some (.number (-4)) := by
  have hintegral : roundsDown.Integral bindsX :=
    ⟨by decide, ⟨by decide, trivial, trivial⟩, .integer 2, rfl, rfl⟩
  have hexact : roundsDown.exactly? bindsX = some (.number (-4)) := by
    decide +kernel
  have hwords : ∀ n ∈ roundsDown.agenda, n.ExactWord bindsX := by decide +kernel
  obtain ⟨x, v, hx, hv, hvx⟩ := (eval_exact hintegral).2.1 hwords
  exact ⟨hintegral, v, hv, hvx.trans (hx.symm.trans hexact)⟩

end Fixture
