import Fixture.Proofs.Run.Effort
/-!
# What moves do

A move statement comes to one of two things. It issues a single call and ends as
that call does, or it fails without issuing any. Which one it is, and which call
or error, is decided by the values at hand.

The distance as it is written decides the mode: a name makes the move relative,
anything else makes it absolute. What the distance is worth is another matter. A
name may stand for a waypoint, whose pair of operands is then worked out in
place of the written ones; the written speed is not looked at. A waypoint in the
place of a distance is not followed a second time.

## Main results

* `Motion.eval_plain`: operands that do not name a waypoint.
* `Motion.eval_pair`: a move to a waypoint is the move with its pair, made
  relative.
* `Run.issues_move_iff`: the call of a move statement is the motion that was
  worked out.
* `visit_move`: what moves do.
-/

namespace Fixture

open Run

attribute [local simp] Expr.lookup Motion.resolve Motion.eval

/-! ## Operands -/

/-- Whether an expression is a name. -/
def Expr.isName : Expr → Bool
  | .name _ => true
  | _ => false

/-- An expression is a name that is bound to a waypoint. -/
def Expr.NamesWaypoint (values : Table Value) (e : Expr) : Prop :=
  ∃ t d s, e = .name t ∧ values.get? t.literal = some (.waypoint d s)

/-- An expression is worth a number. -/
def Expr.Counts (values : Table Value) (e : Expr) (x : Float) : Prop :=
  ∃ v, e.eval values = .ok v ∧ v.toFloat? = some x

private theorem Expr.counts_iff {values : Table Value} {e : Expr} {x : Float} :
    e.Counts values x ↔ e.evalNumber values = .ok x := by
  unfold Counts evalNumber
  cases e.eval values with
  | error err =>
      constructor
      · rintro ⟨v, hv, -⟩
        cases hv
      · intro h
        cases h
  | ok v =>
      have hnumeric : (Except.ok v >>= fun v => e.numeric v) = .ok x ↔
          v.toFloat? = some x := by
        show e.numeric v = _ ↔ _
        unfold numeric
        cases v.toFloat? with
        | none => simp
        | some y => simp
      rw [hnumeric]
      constructor
      · rintro ⟨u, hu, hx⟩
        cases hu
        exact hx
      · exact fun hx => ⟨v, rfl, hx⟩

namespace Motion

/-- What a speed is worth: the number that is written, or ten if there is
none. -/
def Paced (values : Table Value) : Option Expr → Float → Prop
  | some e, rate => e.Counts values rate
  | none, rate => rate = 10

variable {values : Table Value}

/-- The speed that a move works out. -/
def rate (values : Table Value) : Option Expr → Except EvalError Float
  | some e => e.evalNumber values
  | none => .ok defaultSpeed

private theorem paced_iff {speed : Option Expr} {r : Float} :
    Paced values speed r ↔ rate values speed = .ok r := by
  cases speed with
  | some e => exact Expr.counts_iff
  | none =>
      show r = 10 ↔ Except.ok (10 : Float) = .ok r
      rw [Except.ok.injEq, eq_comm]

private theorem eval_of_resolve {d d' : Expr} {speed speed' : Option Expr}
    {relative : Bool}
    (h : resolve values d speed = .ok (d', speed', relative)) :
    Motion.eval values d speed =
      d'.evalNumber values >>= fun x =>
        rate values speed' >>= fun r => .ok ⟨x, r, relative⟩ := by
  rw [Motion.eval, h]
  cases speed' <;> rfl

/-- **Operands that do not name a waypoint** are worked out one after the
other. -/
theorem eval_plain {d : Expr} (hd : ¬ d.NamesWaypoint values)
    (speed : Option Expr) :
    Motion.eval values d speed =
      d.evalNumber values >>= fun x =>
        rate values speed >>= fun r => .ok ⟨x, r, d.isName⟩ := by
  cases d with
  | name t =>
      cases hget : values.get? t.literal with
      | none =>
          have hlookup : Expr.lookup values t =
              .error (.at t (.unassigned t.literal)) := by
            rw [Expr.lookup, hget]
          have hresolve : resolve values (.name t) speed =
              .error (.at t (.unassigned t.literal)) := by
            rw [resolve, hlookup]
            rfl
          have hnumber : (Expr.name t).evalNumber values =
              .error (.at t (.unassigned t.literal)) := by
            rw [Expr.evalNumber, Expr.eval, hlookup]
            rfl
          rw [Motion.eval, hresolve, hnumber]
          rfl
      | some v =>
          apply eval_of_resolve
          rw [resolve, Expr.lookup, hget]
          cases v with
          | waypoint d s => exact absurd ⟨t, d, s, rfl, hget⟩ hd
          | integer | real | boolean => rfl
  | integer | real | boolean | signed | binary => exact eval_of_resolve rfl

/-- **A move to a waypoint is the move with its pair,** made relative. The
written speed is not looked at. -/
theorem eval_pair {t : Token} {d s : Expr}
    (hway : values.get? t.literal = some (.waypoint d s))
    (hd : ¬ d.NamesWaypoint values) (speed : Option Expr) :
    Motion.eval values (.name t) speed =
      (Motion.eval values d (some s)).map fun m =>
        { m with relative := true } := by
  rw [eval_waypoint hway, eval_plain hd]
  cases d.evalNumber values with
  | error err => rfl
  | ok x =>
      rw [rate]
      cases s.evalNumber values with
      | error err => rfl
      | ok r => rfl

private theorem eval_eq_ok_iff {d : Expr} (hd : ¬ d.NamesWaypoint values)
    {speed : Option Expr} {m : Motion} :
    Motion.eval values d speed = .ok m ↔
      ∃ x r, d.Counts values x ∧ Paced values speed r ∧
        m = ⟨x, r, d.isName⟩ := by
  simp only [Expr.counts_iff, paced_iff]
  rw [eval_plain hd]
  cases d.evalNumber values with
  | error err =>
      constructor
      · intro h
        cases h
      · rintro ⟨x, r, hx, -⟩
        cases hx
  | ok x =>
      cases rate values speed with
      | error err =>
          constructor
          · intro h
            cases h
          · rintro ⟨y, r, -, hr, -⟩
            cases hr
      | ok r =>
          constructor
          · intro h
            cases h
            exact ⟨x, r, rfl, rfl, rfl⟩
          · rintro ⟨y, r', hy, hr, rfl⟩
            cases hy
            cases hr
            rfl

end Motion

/-! ## Statements -/

namespace Run

variable {σ ε : Type} {h : Host σ ε} {passes : Nat} {w : World σ}

/-- How a statement ends that hands on what its call comes to. -/
def answered : Option ε → Except (Halt ε) (Option Value)
  | none => .ok none
  | some e => .error (.failure e)

/-- The calls that a statement asks its host for, with the moments. -/
def callsOf (h : Host σ ε) (passes : Nat) (s : Stmt) (w : World σ) :
    List (Call × Moment σ) :=
  ((visit h.watched passes (.statement s)).after
    ⟨w.tables, .start w.host⟩).host.calls

/-- A statement issues a call: it asks for this one and for no other, ends as
the call does, and leaves the tables alone. -/
def Issues (h : Host σ ε) (passes : Nat) (s : Stmt) (w : World σ) (c : Call) :
    Prop :=
  ∃ now : σ, callsOf h passes s w = [(c, ⟨w.tables, now⟩)] ∧
    (visit h passes (.statement s)).outcome w =
      answered (h.perform c w.tables now).1 ∧
    ((visit h passes (.statement s)).after w).tables = w.tables

/-- A statement fails by itself: it ends in this way, without asking for any
call, and leaves the tables alone. -/
def Fails (h : Host σ ε) (passes : Nat) (s : Stmt) (w : World σ)
    (halt : Halt ε) : Prop :=
  callsOf h passes s w = [] ∧
  (visit h passes (.statement s)).outcome w = .error halt ∧
  ((visit h passes (.statement s)).after w).tables = w.tables

section Move

variable (h) (passes) (tok : Token) (axis : Axis) {d : Expr}
    {speed : Option Expr}

/-- The world in which a move statement works its operands out: its host has
been told of it. -/
def readied (d : Expr) (speed : Option Expr) (w : World σ) : World σ :=
  (w.told h (.visiting (Stmt.move tok axis d speed).label)).told h
    (.moving d speed w.tables.values)

private theorem run_visit_move (d : Expr) (speed : Option Expr) (w : World σ) :
    (visit h passes (.statement (.move tok axis d speed))).run w =
      (ofEval (Motion.eval w.tables.values d speed) >>= fun m =>
        perform h (.move axis m) >>= fun _ => pure none).run
        (readied h tok axis d speed w) := by
  show (tell h _ >>= fun _ => move h axis d speed >>= fun _ => pure none).run
      w = _
  rw [run_bind_ok (run_tell h _ w), EStateM.run_bind, run_move,
    ← EStateM.run_bind, bind_assoc]
  rfl

/-- A move whose operands are worked out hands on what its call comes to. -/
private theorem run_visit_move_ok {m : Motion}
    (hm : Motion.eval w.tables.values d speed = .ok m) :
    (visit h passes (.statement (.move tok axis d speed))).outcome w =
      answered (h.perform (.move axis m) w.tables
        (readied h tok axis d speed w).host).1 ∧
    (visit h passes (.statement (.move tok axis d speed))).after w =
      (readied h tok axis d speed w).called h (.move axis m) := by
  unfold outcome after
  rw [run_visit_move, hm, run_ofEval_ok]
  generalize hready : readied h tok axis d speed w = ready
  have htables : ready.tables = w.tables := by rw [← hready]; rfl
  rw [← htables]
  cases hcall : (h.perform (.move axis m) ready.tables ready.host).1 with
  | none =>
      rw [run_bind_ok (run_perform_ok hcall)]
      exact ⟨rfl, rfl⟩
  | some e =>
      rw [run_bind_error (run_perform_error hcall)]
      exact ⟨rfl, rfl⟩

private theorem run_visit_move_error {err : EvalError}
    (herr : Motion.eval w.tables.values d speed = .error err) :
    (visit h passes (.statement (.move tok axis d speed))).run w =
      .error (Halt.ofEval err) (readied h tok axis d speed w) := by
  rw [run_visit_move, herr, run_ofEval_error]

private theorem issues_of_eval {m : Motion}
    (hm : Motion.eval w.tables.values d speed = .ok m) :
    Issues h passes (.move tok axis d speed) w (.move axis m) := by
  obtain ⟨houtcome, hafter⟩ := run_visit_move_ok h passes tok axis hm
  refine ⟨(readied h tok axis d speed w).host, ?_, houtcome, by
    rw [hafter]; rfl⟩
  let watched : World (History σ) := ⟨w.tables, .start w.host⟩
  have hwatched : Motion.eval watched.tables.values d speed = .ok m := hm
  rw [callsOf, (run_visit_move_ok h.watched passes tok axis hwatched).2]
  rfl

private theorem fails_of_eval {err : EvalError}
    (herr : Motion.eval w.tables.values d speed = .error err) :
    Fails h passes (.move tok axis d speed) w (Halt.ofEval err) := by
  have hrun := run_visit_move_error h passes tok axis herr
  refine ⟨?_, outcome_error hrun, by rw [after_error hrun]; rfl⟩
  let watched : World (History σ) := ⟨w.tables, .start w.host⟩
  have hwatched : Motion.eval watched.tables.values d speed = .error err := herr
  rw [callsOf,
    after_error (run_visit_move_error h.watched passes tok axis hwatched)]
  rfl

/-- **The call of a move statement is the motion that was worked out.** -/
theorem issues_move_iff (d : Expr) (speed : Option Expr) (c : Call) :
    Issues h passes (.move tok axis d speed) w c ↔
      ∃ m, Motion.eval w.tables.values d speed = .ok m ∧ c = .move axis m := by
  constructor
  · rintro ⟨now, hcalls, -⟩
    cases hm : Motion.eval w.tables.values d speed with
    | error err =>
        rw [(fails_of_eval h passes tok axis hm).1] at hcalls
        cases hcalls
    | ok m =>
        obtain ⟨now', hcalls', -⟩ := issues_of_eval h passes tok axis hm
        rw [hcalls'] at hcalls
        cases hcalls
        exact ⟨m, rfl, rfl⟩
  · rintro ⟨m, hm, rfl⟩
    exact issues_of_eval h passes tok axis hm

/-- A distance that does not name a waypoint: the move is relative if the
distance is a name and absolute otherwise. -/
private theorem issues_plain_iff (hd : ¬ d.NamesWaypoint w.tables.values)
    (speed : Option Expr) (c : Call) :
    Issues h passes (.move tok axis d speed) w c ↔
      ∃ x rate, d.Counts w.tables.values x ∧
        Motion.Paced w.tables.values speed rate ∧
        c = .move axis ⟨x, rate, d.isName⟩ := by
  rw [issues_move_iff]
  simp only [Motion.eval_eq_ok_iff hd]
  constructor
  · rintro ⟨m, ⟨x, rate, hx, hrate, rfl⟩, rfl⟩
    exact ⟨x, rate, hx, hrate, rfl⟩
  · rintro ⟨x, rate, hx, hrate, rfl⟩
    exact ⟨_, ⟨x, rate, hx, hrate, rfl⟩, rfl⟩

end Move

end Run

/-- What a name counts for is what it is bound to. -/
private theorem Expr.counts_name {values : Table Value} {t : Token} {v : Value}
    (hget : values.get? t.literal = some v) {x : Float} :
    (Expr.name t).Counts values x ↔ v.toFloat? = some x := by
  have heval : (Expr.name t).eval values = .ok v := by rw [eval, lookup, hget]
  unfold Counts
  rw [heval]
  constructor
  · rintro ⟨u, hu, hx⟩
    cases hu
    exact hx
  · exact fun hx => ⟨v, rfl, hx⟩

private theorem Expr.not_namesWaypoint {values : Table Value} {t : Token}
    {v : Value} (hget : values.get? t.literal = some v)
    (hv : v.kind ≠ .waypoint) : ¬ (Expr.name t).NamesWaypoint values := by
  rintro ⟨t', d, s, ht, hget'⟩
  cases ht
  cases hget.symm.trans hget'
  exact hv rfl

/--
**What moves do.** Let a name be bound to a waypoint. A move to it issues the
call that the move with the operands of the waypoint issues, but a relative one,
or it fails with the error that this move fails with, whatever speed is written.
If the distance of the waypoint is a name of a waypoint again, the move fails
with a type mismatch. The call of any other move has the value of its distance
and of its speed, which is ten if none is written; it is relative if the
distance is a name that is bound to a number, and absolute if the distance is
not a name.
-/
theorem visit_move {σ ε : Type} (h : Host σ ε) (passes : Nat) (w : World σ)
    (tok : Token) (axis : Axis) (speed : Option Expr) :
    let values := w.tables.values
    let move (d : Expr) (s : Option Expr) : Stmt := .move tok axis d s
    (∀ (t : Token) (d s : Expr), values.get? t.literal = some (.waypoint d s) →
      (¬ d.NamesWaypoint values →
        (∃ m : Motion, Issues h passes (move d (some s)) w (.move axis m) ∧
          Issues h passes (move (.name t) speed) w
            (.move axis { m with relative := true })) ∨
        ∃ halt, Fails h passes (move d (some s)) w halt ∧
          Fails h passes (move (.name t) speed) w halt) ∧
      (d.NamesWaypoint values →
        ∃ f : Fault, Fails h passes (move (.name t) speed) w (.fault f) ∧
          f.cause.kind = .typeMismatch)) ∧
    (∀ (t : Token) (v : Value), values.get? t.literal = some v →
      v.kind ≠ .waypoint →
      ∀ c, Issues h passes (move (.name t) speed) w c ↔
        ∃ x rate, v.toFloat? = some x ∧ Motion.Paced values speed rate ∧
          c = .move axis ⟨x, rate, true⟩) ∧
    ∀ d : Expr, (∀ t, d ≠ .name t) →
      ∀ c, Issues h passes (move d speed) w c ↔
        ∃ x rate, d.Counts values x ∧ Motion.Paced values speed rate ∧
          c = .move axis ⟨x, rate, false⟩ := by
  intro values move
  refine ⟨fun t d s hway => ⟨fun hd => ?_, ?_⟩, fun t v hget hv c => ?_,
    fun d hd c => ?_⟩
  · have hpair := Motion.eval_pair hway hd speed
    cases hm : Motion.eval values d (some s) with
    | error err =>
        rw [hm] at hpair
        exact .inr ⟨_, fails_of_eval h passes tok axis hm,
          fails_of_eval h passes tok axis hpair⟩
    | ok m =>
        rw [hm] at hpair
        exact .inl ⟨m, issues_of_eval h passes tok axis hm,
          issues_of_eval h passes tok axis hpair⟩
  · rintro ⟨t', d', s', rfl, hway'⟩
    have heval : (Expr.name t').eval values = .ok (.waypoint d' s') := by
      rw [Expr.eval, Expr.lookup, hway']
    have herr : Motion.eval values (.name t) speed =
        .error (.at t' (.notANumber (.name t') .waypoint)) := by
      rw [Motion.eval_waypoint hway, Expr.evalNumber_of_waypoint heval]
      rfl
    exact ⟨_, fails_of_eval h passes tok axis herr, rfl⟩
  · have hcounts (x : Float) : (Expr.name t).Counts w.tables.values x ↔
        v.toFloat? = some x := Expr.counts_name hget
    rw [issues_plain_iff h passes tok axis (Expr.not_namesWaypoint hget hv)]
    simp only [hcounts]
    rfl
  · have hplain : ¬ d.NamesWaypoint values := by
      rintro ⟨t, -, -, ht, -⟩
      exact hd t ht
    have hname : d.isName = false := by
      cases d with
      | name t => exact absurd rfl (hd t)
      | integer | real | boolean | signed | binary => rfl
    rw [issues_plain_iff h passes tok axis hplain, hname]

/-- Tables with a number and two waypoints: `far` goes by the number, and `lost`
goes by `far`. -/
def waymarks : Tables :=
  { Tables.empty with
    values := ((Table.empty.set "d" (.real 5)).set
      "far" (.waypoint (.name (nameToken "d")) (.real (nameToken "15") 15))).set
      "lost" (.waypoint (.name (nameToken "far")) (.real (nameToken "15") 15)) }

/-- A move to `far` is a relative one by the number, at the speed of the
waypoint, though the written speed has no value; and a move to `lost` leads
nowhere. -/
theorem visit_move_waymarks :
    let move (name : String) : Stmt :=
      .move (nameToken "MOVETO") .linear (.name (nameToken name))
        (some (.name (nameToken "unknown")))
    Issues Host.willing 1 (move "far") ⟨waymarks, ()⟩
      (.move .linear ⟨5, 15, true⟩) ∧
    ∃ f : Fault, Fails Host.willing 1 (move "lost") ⟨waymarks, ()⟩ (.fault f) ∧
      f.cause.kind = .typeMismatch := by
  intro move
  obtain ⟨hways, -, -⟩ := visit_move Host.willing 1 ⟨waymarks, ()⟩
    (nameToken "MOVETO") .linear (some (.name (nameToken "unknown")))
  have hfar : waymarks.values.get? "far" =
      some (.waypoint (.name (nameToken "d")) (.real (nameToken "15") 15)) :=
    rfl
  have hlost : waymarks.values.get? "lost" =
      some (.waypoint (.name (nameToken "far")) (.real (nameToken "15") 15)) :=
    rfl
  have hd : ¬ (Expr.name (nameToken "d")).NamesWaypoint waymarks.values :=
    Expr.not_namesWaypoint (v := .real 5) rfl ValueKind.noConfusion
  refine ⟨?_,
    (hways (nameToken "lost") _ _ hlost).2 ⟨nameToken "far", _, _, rfl, hfar⟩⟩
  rcases (hways (nameToken "far") _ _ hfar).1 hd with
    ⟨m, hpair, hmove⟩ | ⟨halt, hpair, -⟩
  · obtain ⟨m', hm', hcall⟩ := (issues_move_iff ..).1 hpair
    cases hcall
    cases hm'
    exact hmove
  · cases hpair.2.1

end Fixture
