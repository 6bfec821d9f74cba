import Fixture.Proofs.Declared
import Fixture.Proofs.Run.Cancellation
import Fixture.Proofs.Spelling
/-!
# The effort of a run

A loop need not come to an end by itself. But every pass of a loop begins with a
check, and a run that gets leave for `n` checks only comes to an end. This
module says how much it does until then. Checks and calls count one each, and so
does every node that is visited, those inside the operands of waypoints
included. The bound is linear in `n`, with a factor that is read off the program
and the tables it starts with.

The account is kept as follows. A check that is granted pays for one whole pass
of whatever loop it belongs to. So what has been done so far, plus the worth of
the checks that are left, grows by no more than the cost of what is executed
outside of loops.

Waypoints are evaluated anew each time they are used. They refer to other
waypoints, and to themselves, as they like: a waypoint that is come upon inside
another one is no number, and is not followed.

## Main results

* `Run.Costs.bind`, `Run.repeatUntil_costs`, `Run.exec_costs`: what actions,
  loops and statements cost.
* `interpret_terminates`: a run with leave for a number of checks ends, and has
  done so much at most.
-/

namespace Fixture

open Run

/-! ## Sizes -/

/-- The number of nodes of an expression. -/
@[simp] def Expr.size : Expr → Nat
  | .name _ | .integer _ _ | .real _ _ | .boolean _ _ => 1
  | .signed _ e => e.size + 1
  | .binary _ l r => l.size + r.size + 1

/-- The number of nodes in the operands of a waypoint. -/
def Value.width : Value → Nat
  | .waypoint d s => d.size + s.size
  | _ => 0

/-- The number of nodes in the operands of all waypoints of some tables. -/
def Tables.width (t : Tables) : Nat := (t.values.entries.map (·.2.width)).sum

/-- The number of nodes in the operands of all waypoints of a block. -/
def Block.width (b : Block) : Nat :=
  (b.waypoints.map fun d => d.distance.size + d.speed.size).sum

/-- The waypoints of some tables have no more than so many nodes each. -/
def Tables.Narrow (width : Nat) (t : Tables) : Prop :=
  ∀ name v, t.values.get? name = some v → v.width ≤ width

mutual

/-- What a statement costs, one pass of each loop included, if waypoints have so
many nodes at most. -/
@[simp] def Stmt.cost (width : Nat) : Stmt → Nat
  | .skip => 1
  | .compound _ body => costEach width body + 1
  | .assign _ _ value => value.size + 1
  | .ifThen _ c _ body => c.size + costEach width body + 2
  | .ifElse _ c _ body _ alt =>
    c.size + costEach width body + costEach width alt + 2
  | .loop _ _ body c => c.size + costEach width body + 4
  | .wait _ d => d.size + 2
  | .move _ _ d s => d.size + (s.map Expr.size).getD 0 + width + 3
  | .home _ => 2
  | .stop _ => 2

/-- What statements in a row cost, with the checks in front of them. -/
@[simp] def costEach (width : Nat) : List Stmt → Nat
  | [] => 0
  | s :: ss => s.cost width + costEach width ss + 1

end

/-- What a program costs, one pass of each loop included, from tables whose
waypoints have so many nodes. -/
def Program.cost (width : Nat) (p : Program) : Nat :=
  costEach (width + p.block.width) p.block.body + 4

/-! ## Waypoints -/

private theorem Expr.length_visited_le (values : Table Value) (e : Expr) :
    (e.visited values).length ≤ e.size := by
  induction e with
  | signed op e ih =>
      rw [visited, List.length_cons, size]
      omega
  | binary op l r ihl ihr =>
      rw [visited, List.length_append, List.length_cons, size]
      split
      · omega
      · rw [List.length_nil]
        omega
  | _ => exact Nat.le_refl 1

/-- A waypoint is no number. -/
theorem Expr.evalNumber_of_waypoint {values : Table Value} {e d s : Expr}
    (h : e.eval values = .ok (.waypoint d s)) :
    e.evalNumber values = .error (.at e.leading (.notANumber e .waypoint)) := by
  rw [evalNumber, h]
  rfl

/-- A move to a waypoint works out the two operands of the waypoint, and nothing
else. -/
theorem Motion.eval_waypoint {values : Table Value} {tok : Token} {d s : Expr}
    (h : values.get? tok.literal = some (.waypoint d s)) (speed : Option Expr) :
    Motion.eval values (.name tok) speed =
      d.evalNumber values >>= fun x =>
        s.evalNumber values >>= fun rate => .ok ⟨x, rate, true⟩ := by
  have hresolve : resolve values (.name tok) speed = .ok (d, some s, true) := by
    rw [resolve]
    unfold Expr.lookup
    rw [h]
    rfl
  unfold Motion.eval
  rw [hresolve]
  rfl

/-- A move visits its own operands or those of a waypoint. -/
private theorem Motion.size_of_resolve {t : Tables} {width : Nat}
    (ht : t.Narrow width) {d : Expr} {s : Option Expr}
    {o : Expr × Option Expr × Bool} (h : resolve t.values d s = .ok o) :
    o.1.size + (o.2.1.map Expr.size).getD 0 ≤
      d.size + (s.map Expr.size).getD 0 + width := by
  cases d with
  | name tok =>
      rw [resolve] at h
      unfold Expr.lookup at h
      cases hget : t.values.get? tok.literal with
      | none =>
          rw [hget] at h
          cases h
      | some v =>
          rw [hget] at h
          cases v with
          | waypoint wd ws =>
              cases h
              have hwidth : wd.size + ws.size ≤ width := ht _ _ hget
              simp only [Option.map_some, Option.getD_some]
              omega
          | _ =>
              cases h
              exact Nat.le_add_right _ _
  | _ =>
      cases h
      exact Nat.le_add_right _ _

private theorem Note.length_motionEntries_le {t : Tables} {width : Nat}
    (ht : t.Narrow width) (d : Expr) (s : Option Expr) :
    (motionEntries d s t.values).length ≤
      d.size + (s.map Expr.size).getD 0 + width + 1 := by
  unfold motionEntries
  cases hresolve : Motion.resolve t.values d s with
  | error e => exact Nat.zero_le _
  | ok o =>
      obtain ⟨d', s', relative⟩ := o
      have hsize := Motion.size_of_resolve ht hresolve
      have hdistance := d'.length_visited_le t.values
      dsimp only
      rw [List.length_append, List.length_map, List.length_append]
      refine Nat.add_le_add ?_ ?_
      · cases s' with
        | none => exact Nat.le_trans hdistance hsize
        | some e =>
            have hspeed := e.length_visited_le t.values
            simp only [Option.map_some, Option.getD_some] at hsize
            dsimp only
            split
            · omega
            · rw [List.length_nil]
              omega
      · split
        · exact Nat.le_refl 1
        · exact Nat.zero_le 1

/-! ## Tables -/

namespace Tables

variable {width : Nat} {t : Tables}

private theorem narrow_width (t : Tables) : t.Narrow t.width := by
  intro name v hget
  have hmem : (name, v) ∈ t.values.entries := mem_of_lookup hget
  exact List.le_sum_of_mem
    (List.mem_map_of_mem (f := fun e : String × Value => e.2.width) hmem)

private theorem Narrow.mono {width' : Nat} (ht : t.Narrow width)
    (hle : width ≤ width') : t.Narrow width' :=
  fun name v hget => Nat.le_trans (ht name v hget) hle

private theorem Narrow.set (ht : t.Narrow width) (name : String) {v : Value}
    (hv : v.width ≤ width) :
    Narrow width { t with values := t.values.set name v } := by
  intro other u hget
  replace hget : (t.values.set name v).get? other = some u := hget
  rw [Table.get?_set] at hget
  by_cases hname : other = name
  · rw [if_pos hname] at hget
    exact Option.some.inj hget ▸ hv
  · rw [if_neg hname] at hget
    exact ht other u hget

/-- Declarations bring in the waypoints of their block. -/
private theorem Narrow.declared (ht : t.Narrow width) {b : Block}
    (hb : b.width ≤ width) :
    (Declaration.enterAll [] t b.declarations).1.Narrow width := by
  refine Declaration.enterAll_keeps (fun d hmem t ht => ?_) [] ht
  cases d with
  | «variable» d => exact ht
  | pin d => exact ht
  | waypoint d =>
      have hmem' : d ∈ b.waypoints := by simpa [Block.declarations] using hmem
      have hle :=
        List.le_sum_of_mem (List.mem_map_of_mem
          (f := fun d : WaypointDecl => d.distance.size + d.speed.size) hmem')
      exact ht.set d.name (Nat.le_trans hle hb)

end Tables

/-- Assignments bind no waypoints. -/
private theorem Value.width_of_coerce {declared : Kind} {target : Token}
    {v v' : Value} (h : v.coerce declared target = .ok v') : v'.width = 0 := by
  have hkind := Value.kind_of_coerce h
  cases v' with
  | waypoint d s =>
      rcases Kind.valueKind?_cases hkind with
        ⟨-, hbad⟩ | ⟨-, hbad⟩ | ⟨-, hbad⟩ <;> cases hbad
  | _ => rfl

/-! ## Counting what a run does -/

/-- The state of a host, and how much the run has done up to now. -/
structure Metered (σ : Type) where
  host : σ
  work : Nat

/-- A host that counts checks, calls and the entries that notes are worth, one
for every node that is visited. -/
def Host.metered {σ ε : Type} (h : Host σ ε) : Host (Metered σ) ε where
  check t s := ((h.check t s.host).1, ⟨(h.check t s.host).2, s.work + 1⟩)
  perform c t s :=
    ((h.perform c t s.host).1, ⟨(h.perform c t s.host).2, s.work + 1⟩)
  note n s := ⟨h.note n s.host, s.work + n.entries.length⟩

/-- The world in which a run begins whose host counts. -/
def World.metered {σ : Type} (w : World σ) (work : Nat) : World (Metered σ) :=
  ⟨w.tables, w.host, work⟩

/-- A host that counts beside the host itself. -/
def Side.metering {σ ε : Type} (h : Host σ ε) : Side h.metered h where
  states s₁ s₂ := s₁.host = s₂
  failures := Eq
  cut _ _ _ := False
  states_note n hs := by
    subst hs
    rfl
  states_check t hs := by
    subst hs
    exact .inl ⟨rfl, rfl⟩
  states_perform c t hs := by
    subst hs
    exact .inl ⟨rel_refl _, rfl⟩
  cut_note _ hc := hc
  cut_check _ hc := hc
  cut_perform _ _ hc := hc
  cut_told _ hc := hc

/-- Counting what a run does does not change it. -/
private theorem interpret_metered {σ ε : Type} (h : Host σ ε) (passes : Nat)
    (p : Program) (w : World σ) :
    (interpret h.metered passes p).outcome (w.metered 0) =
      (interpret h passes p).outcome w ∧
    ∃ work, (interpret h.metered passes p).after (w.metered 0) =
      ((interpret h passes p).after w).metered work := by
  have htables : (w.metered 0).tables = w.tables := rfl
  rcases (Side.metering h).agree_or_cut passes p htables rfl with
    ⟨hagree, htables', hhost⟩ | ⟨e, -, hcut⟩
  · refine ⟨hagree.eq,
      ((interpret h.metered passes p).after (w.metered 0)).host.work,
      World.ext htables' ?_⟩
    exact congrArg (fun s => Metered.mk s _) hhost
  · exact hcut.elim

/-! ## What actions cost -/

namespace Run

variable {μ ε α β : Type} {n worth width : Nat}

/-- What has been done, and the worth of the checks that are left out of `n +
1`. -/
def account (n worth : Nat) (w : World (Metered (Rig μ))) : Nat :=
  w.host.work + worth * (n + 1 - w.host.host.checks)

/-- An action that adds no more than its cost to the account, over tables with
narrow waypoints. -/
def Costs (n worth width cost : Nat) (x : Run (Metered (Rig μ)) ε α) : Prop :=
  ∀ w, w.tables.Narrow width →
    (x.after w).tables.Narrow width ∧
    account n worth (x.after w) ≤ account n worth w + cost

namespace Costs

private theorem mono {c c' : Nat} {x : Run (Metered (Rig μ)) ε α}
    (hx : Costs n worth width c x) (hle : c ≤ c') : Costs n worth width c' x :=
  fun w hw =>
    ⟨(hx w hw).1, Nat.le_trans (hx w hw).2 (Nat.add_le_add_left hle _)⟩

private theorem pure (a : α) :
    Costs n worth width 0 (Pure.pure a : Run (Metered (Rig μ)) ε α) :=
  fun _ hw => ⟨hw, Nat.le_refl _⟩

private theorem throw (e : Halt ε) :
    Costs n worth width 0 (MonadExcept.throw e : Run (Metered (Rig μ)) ε α) :=
  fun _ hw => ⟨hw, Nat.le_refl _⟩

/-- **Actions in a row cost what both cost.** -/
theorem bind {c c' : Nat} {x : Run (Metered (Rig μ)) ε α}
    {f : α → Run (Metered (Rig μ)) ε β} (hx : Costs n worth width c x)
    (hf : ∀ a, Costs n worth width c' (f a)) :
    Costs n worth width (c + c') (x >>= f) := by
  intro w hw
  obtain ⟨hnarrow, hcost⟩ := hx w hw
  cases hres : x.run w with
  | ok a w' =>
      rw [after_ok hres] at hnarrow hcost
      obtain ⟨hnarrow', hcost'⟩ := hf a w' hnarrow
      rw [after, run_bind_ok hres]
      unfold after at hnarrow' hcost'
      exact ⟨hnarrow', by omega⟩
  | error e w' =>
      rw [after_error hres] at hnarrow hcost
      rw [after_error (run_bind_error hres f)]
      exact ⟨hnarrow, by omega⟩

/-- A branch that costs no more on either side. -/
private theorem branch {c : Nat} {x y : Run (Metered (Rig μ)) ε α}
    (hx : Costs n worth width c x) (hy : Costs n worth width c y) (b : Bool) :
    Costs n worth width c (if b then x else y) := by
  cases b with
  | false => exact hy
  | true => exact hx

private theorem ofEval (r : Except EvalError α) :
    Costs n worth width 0 (Run.ofEval r : Run (Metered (Rig μ)) ε α) := by
  cases r with
  | ok a => exact pure a
  | error e => exact throw _

/-- Actions that go on, from a world with little more on the account, as actions
with a cost. -/
private theorem of_run {c c' : Nat} {x : Run (Metered (Rig μ)) ε α}
    (h : ∀ w, w.tables.Narrow width →
      ∃ (y : Run (Metered (Rig μ)) ε α) (w' : World (Metered (Rig μ))),
        x.run w = y.run w' ∧ w'.tables = w.tables ∧
        account n worth w' ≤ account n worth w + c ∧ Costs n worth width c' y) :
    Costs n worth width (c + c') x := by
  intro w hw
  obtain ⟨y, w', hrun, htables, haccount, hy⟩ := h w hw
  obtain ⟨hnarrow, hcost⟩ := hy w' (htables ▸ hw)
  rw [after, hrun]
  unfold after at hnarrow hcost
  exact ⟨hnarrow, by omega⟩

end Costs

section Actions

variable (m : Machine μ ε)

private theorem account_told (note : Note) (w : World (Metered (Rig μ))) :
    account n worth (w.told (m.host (some n)).metered note) =
      account n worth w + note.entries.length :=
  Nat.add_right_comm _ _ _

private theorem account_called (c : Call) (w : World (Metered (Rig μ))) :
    account n worth (w.called (m.host (some n)).metered c) =
      account n worth w + 1 :=
  Nat.add_right_comm _ _ _

private theorem account_checked_le (w : World (Metered (Rig μ))) :
    account n worth (w.checked (m.host (some n)).metered) ≤
      account n worth w + 1 := by
  have hleft : worth * (n + 1 - (w.host.host.checks + 1)) ≤
      worth * (n + 1 - w.host.host.checks) :=
    Nat.mul_le_mul_left _ (by omega)
  show w.host.work + 1 + worth * (n + 1 - (w.host.host.checks + 1)) ≤ _
  unfold account
  omega

/-- A check that is granted is paid for with its worth. -/
private theorem account_granted {w : World (Metered (Rig μ))}
    (h : (((m.host (some n)).metered).check w.tables w.host).1 = true) :
    account n worth (w.checked (m.host (some n)).metered) + worth ≤
      account n worth w + 1 := by
  have hlt : w.host.host.checks < n := of_decide_eq_true h
  have hleft : n + 1 - w.host.host.checks =
      n + 1 - (w.host.host.checks + 1) + 1 := by omega
  show w.host.work + 1 + worth * (n + 1 - (w.host.host.checks + 1)) + worth ≤ _
  unfold account
  rw [hleft, Nat.mul_succ]
  omega

private theorem tell_costs (note : Note) :
    Costs n worth width note.entries.length
      (tell (m.host (some n)).metered note) :=
  fun w hw => ⟨hw, Nat.le_of_eq (account_told m note w)⟩

private theorem visiting_costs (label : String) :
    Costs n worth width 1 (tell (m.host (some n)).metered (.visiting label)) :=
  tell_costs m _

private theorem perform_costs (c : Call) :
    Costs n worth width 1 (perform (m.host (some n)).metered c) := by
  intro w hw
  have haccount : account n worth (w.called (m.host (some n)).metered c) ≤
      account n worth w + 1 :=
    Nat.le_of_eq (account_called m c w)
  cases hc : ((m.host (some n)).metered.perform c w.tables w.host).1 with
  | none =>
      rw [after_ok (run_perform_ok hc)]
      exact ⟨hw, haccount⟩
  | some e =>
      rw [after_error (run_perform_error hc)]
      exact ⟨hw, haccount⟩

/-- What stands behind a check, and what stands there if it is denied. -/
private theorem guarded_costs {c : Nat} {x y : Run (Metered (Rig μ)) ε α}
    (hx : Costs n worth width (c + worth) x) (hy : Costs n worth width c y) :
    Costs n worth width (c + 1) (leave (m.host (some n)).metered >>=
      fun granted => if granted then x else y) := by
  intro w hw
  rw [after, run_bind_ok (run_leave _ w)]
  cases hgranted : ((m.host (some n)).metered.check w.tables w.host).1 with
  | true =>
      have haccount : _ ≤ account n worth w + 1 := account_granted m hgranted
      obtain ⟨hnarrow, hcost⟩ := hx (w.checked (m.host (some n)).metered) hw
      exact ⟨hnarrow, Nat.le_trans hcost (by omega)⟩
  | false =>
      have haccount : account n worth _ ≤ account n worth w + 1 :=
        account_checked_le m w
      obtain ⟨hnarrow, hcost⟩ := hy (w.checked (m.host (some n)).metered) hw
      exact ⟨hnarrow, Nat.le_trans hcost (by omega)⟩

private theorem told_evaluating_le (e : Expr) (w : World (Metered (Rig μ))) :
    account n worth
        (w.told (m.host (some n)).metered (.evaluating e w.tables.values)) ≤
      account n worth w + e.size := by
  have hlength : (Note.evaluating e w.tables.values).entries.length ≤
      e.size := by
    rw [Note.entries, List.length_map]
    exact e.length_visited_le w.tables.values
  rw [account_told]
  omega

private theorem condition_costs (e : Expr) :
    Costs n worth width e.size (condition (m.host (some n)).metered e) :=
  .of_run fun w _ =>
    ⟨_, _, run_condition _ e w, rfl, told_evaluating_le m e w, .ofEval _⟩

private theorem wait_costs (d : Expr) :
    Costs n worth width (d.size + 1) (wait (m.host (some n)).metered d) := by
  refine .of_run fun w _ =>
    ⟨_, _, run_wait _ d w, rfl, told_evaluating_le m d w, ?_⟩
  have hcall : ∀ (v : Value) (x : Float), Costs n worth width 1
      (perform (m.host (some n)).metered (.wait x) >>= fun _ => Pure.pure v) :=
    fun v x => (perform_costs m (.wait x)).bind fun _ => Costs.pure v
  exact ((Costs.ofEval _).bind fun v => (Costs.ofEval _).bind (hcall v)).mono
    (Nat.le_refl 1)

private theorem move_costs (axis : Axis) (d : Expr) (s : Option Expr) :
    Costs n worth width (d.size + (s.map Expr.size).getD 0 + width + 2)
      (move (m.host (some n)).metered axis d s) := by
  refine .of_run (c := d.size + (s.map Expr.size).getD 0 + width + 1)
    fun w hw => ⟨_, _, run_move _ axis d s w, rfl, ?_,
      (Costs.ofEval _).bind fun _ => perform_costs m _⟩
  rw [account_told]
  exact Nat.add_le_add_left (Note.length_motionEntries_le hw d s) _

private theorem assign_costs (target : Token) (value : Expr) :
    Costs n worth width value.size
      (assign (m.host (some n)).metered target value) := by
  intro w hw
  cases hdecl : w.tables.types.get? target.literal with
  | none =>
      rw [after_error (run_assign_undeclared hdecl value)]
      exact ⟨hw, Nat.le_add_right _ _⟩
  | some declared =>
      have htold : account n worth _ ≤ account n worth w + value.size :=
        told_evaluating_le m value w
      rw [after, run_assign hdecl]
      cases hv : value.eval w.tables.values with
      | error err => exact ⟨hw, htold⟩
      | ok v =>
          rw [run_ofEval_ok]
          cases hv' : v.coerce declared target with
          | error err => exact ⟨hw, htold⟩
          | ok v' =>
              exact ⟨hw.set target.literal
                (Value.width_of_coerce hv' ▸ Nat.zero_le width), htold⟩

/-- **A loop costs little by itself,** if a check is worth one pass of it. -/
theorem repeatUntil_costs {body : Run (Metered (Rig μ)) ε Unit}
    {done : Run (Metered (Rig μ)) ε Bool} {b d : Nat}
    (hbody : Costs n worth width b body) (hdone : Costs n worth width d done)
    (hworth : b + d + 1 ≤ worth) (passes : Nat) :
    ∀ pass, Costs n worth width 2
      (repeatUntil (m.host (some n)).metered body done passes pass) := by
  induction passes with
  | zero => exact fun _ => (Costs.throw _).mono (Nat.zero_le 2)
  | succ passes ih =>
      intro pass
      refine guarded_costs (c := 1) m ?_
        (((tell_costs m (.interrupted pass)).bind fun _ => Costs.throw _).mono
          (by
            simp [Note.entries]))
      have hrest :=
        ((Costs.pure ()).mono (Nat.zero_le 2)).branch (ih (pass + 1))
      exact (hbody.bind fun _ => hdone.bind hrest).mono (by omega)

/-! ## Statements -/

/-- The body of a statement, with the visit of its compound. -/
private theorem visited_costs {c : Nat} {x : Run (Metered (Rig μ)) ε Unit}
    (hx : Costs n worth width c x) :
    Costs n worth width (c + 1) (tell (m.host (some n)).metered
        (.visiting compoundLabel) >>= fun _ =>
          x >>= fun _ => Pure.pure (none : Option Value)) :=
  ((visiting_costs m compoundLabel).bind fun _ =>
    hx.bind fun _ => Costs.pure none).mono (by omega)

mutual

/-- **Statements have their cost,** if a check is worth as much. -/
theorem exec_costs (passes : Nat) : ∀ s : Stmt, s.cost width ≤ worth →
    Costs n worth width (s.cost width) (exec (m.host (some n)).metered passes s)
  | .skip, _ => (visiting_costs m _).bind fun _ => Costs.pure none
  | .compound _ body, hs => by
      rw [Stmt.cost] at hs ⊢
      rw [exec]
      have hbody := execAll_costs passes body (by omega)
      exact ((visiting_costs m _).bind fun _ =>
        hbody.bind fun _ => Costs.pure none).mono (by omega)
  | .assign _ target value, _ => by
      rw [Stmt.cost, exec]
      exact ((visiting_costs m _).bind fun _ =>
        (assign_costs m target value).bind fun _ => Costs.pure none).mono
        (by omega)
  | .ifThen _ c _ body, hs => by
      rw [Stmt.cost] at hs ⊢
      rw [exec]
      have hbody := visited_costs m (execAll_costs passes body (by omega))
      have hskip : Costs n worth width 1 _ :=
        (visiting_costs m skipLabel).bind fun _ =>
          Costs.pure (none : Option Value)
      exact ((visiting_costs m _).bind fun _ =>
        (condition_costs m c).bind (hbody.branch (hskip.mono (by omega)))).mono
        (by omega)
  | .ifElse _ c _ body _ alt, hs => by
      rw [Stmt.cost] at hs ⊢
      rw [exec]
      have hbody := visited_costs m (execAll_costs passes body (by omega))
      have halt := visited_costs m (execAll_costs passes alt (by omega))
      -- the dearer branch is not known, so the two are put down together
      have hbody : Costs n worth width
          (costEach width body + costEach width alt + 1) _ :=
        hbody.mono (by omega)
      exact ((visiting_costs m _).bind fun _ =>
        (condition_costs m c).bind (hbody.branch (halt.mono (by omega)))).mono
        (by omega)
  | .loop _ _ body c, hs => by
      rw [Stmt.cost] at hs ⊢
      rw [exec]
      have hbody :=
        (visiting_costs m compoundLabel).bind fun _ =>
          execAll_costs passes body (by omega)
      have hloop :=
        repeatUntil_costs m hbody (condition_costs m c) (by omega) passes 1
      exact ((visiting_costs m _).bind fun _ =>
        hloop.bind fun _ => Costs.pure none).mono (by omega)
  | .wait _ d, _ => by
      rw [Stmt.cost, exec]
      exact ((visiting_costs m _).bind fun _ =>
        (wait_costs m d).bind fun v => Costs.pure (some v)).mono (by omega)
  | .move _ axis d s, _ => by
      rw [Stmt.cost, exec]
      exact ((visiting_costs m _).bind fun _ =>
        (move_costs m axis d s).bind fun _ => Costs.pure none).mono (by omega)
  | .home _, _ =>
      (visiting_costs m _).bind fun _ =>
        (perform_costs m .home).bind fun _ => Costs.pure none
  | .stop _, _ =>
      (visiting_costs m _).bind fun _ =>
        (perform_costs m .stop).bind fun _ => Costs.pure none

/-- **Statements in a row have their cost,** if a check is worth as much. -/
theorem execAll_costs (passes : Nat) :
    ∀ ss : List Stmt, costEach width ss ≤ worth →
      Costs n worth width (costEach width ss)
        (execAll (m.host (some n)).metered passes ss)
  | [], _ => Costs.pure ()
  | s :: ss, hss => by
      rw [costEach] at hss ⊢
      rw [execAll]
      have hfirst :=
        (exec_costs passes s (by omega)).bind fun _ => Costs.pure ()
      have hrest := hfirst.bind fun _ => execAll_costs passes ss (by omega)
      exact guarded_costs m (hrest.mono (by omega))
        ((Costs.throw _).mono (Nat.zero_le _))

end

/-! ## Programs -/

private theorem declare_costs {b : Block} (hb : b.width ≤ width) :
    Costs n worth width 0 (declare b : Run (Metered (Rig μ)) ε Unit) := by
  intro w hw
  have hnarrow : (w.declared b).tables.Narrow width := hw.declared hb
  cases hfault : (Declaration.enterAll [] w.tables b.declarations).2 with
  | none =>
      rw [after_ok (run_declare_ok hfault)]
      exact ⟨hnarrow, Nat.le_refl _⟩
  | some f =>
      rw [after_error (run_declare_error hfault)]
      exact ⟨hnarrow, Nat.le_refl _⟩

/-- **Programs have their cost.** -/
theorem interpret_costs (passes : Nat) (p : Program) (width : Nat) :
    Costs n (p.cost width) (width + p.block.width) (p.cost width)
      (interpret (m.host (some n)).metered passes p) := by
  have hbody : Costs n (p.cost width) (width + p.block.width)
      (costEach (width + p.block.width) p.block.body) _ :=
    execAll_costs m passes p.block.body (Nat.le_add_right _ _)
  have hblock := (visiting_costs m (Node.block p.block).label).bind fun _ =>
    (declare_costs (Nat.le_add_left p.block.width width)).bind fun _ =>
      (visiting_costs m compoundLabel).bind fun _ => hbody
  have hvisit :=
    (visiting_costs m (Node.program p).label).bind fun _ =>
      hblock.bind fun _ => Costs.pure (none : Option Value)
  refine ((tell_costs m (.interpreting p.name)).bind fun _ =>
    hvisit.bind fun _ => Costs.pure ()).mono ?_
  rw [Program.cost, Note.entries, List.length_singleton]
  omega

end Actions

end Run

/--
**Runs with leave for a number of checks end.** Whatever the program, the tables
and the machine, a run that gets leave for `n` checks ends, in one way or
another. Until then its checks, its calls and the nodes that it visits are no
more than `n + 2` times what the program costs. In particular waypoints are not
followed for ever: a move to a waypoint works out the two operands of the
waypoint, and an operand that comes to a waypoint again is refused.
-/
theorem interpret_terminates {μ ε : Type} (m : Machine μ ε) (p : Program)
    (t : Tables) (s : μ) (j : Journal) (n : Nat) :
    let host := m.host (some n)
    let start := World.start t s j
    (∃ o w work, Ends host p start o w ∧
      Ends host.metered p (start.metered 0) o (w.metered work) ∧
      work ≤ (n + 2) * p.cost t.width) ∧
    ∀ (values : Table Value) (tok : Token) (d e : Expr),
      values.get? tok.literal = some (.waypoint d e) →
      (∀ speed, Motion.eval values (.name tok) speed =
        d.evalNumber values >>= fun x =>
          e.evalNumber values >>= fun rate => .ok ⟨x, rate, true⟩) ∧
      ∀ operand d' e' : Expr, operand.eval values = .ok (.waypoint d' e') →
        operand.evalNumber values =
          .error (.at operand.leading (.notANumber operand .waypoint)) := by
  intro host start
  refine ⟨?_, fun values tok d e hget =>
    ⟨Motion.eval_waypoint hget, fun _ _ _ => Expr.evalNumber_of_waypoint⟩⟩
  obtain ⟨o, w, passes, hend, hafter, hfinished⟩ := ends_bounded m p t s j n
  obtain ⟨houtcome, work, hmetered⟩ := interpret_metered host passes p start
  rw [hend] at houtcome
  rw [hafter] at hmetered
  refine ⟨o, w, work, ⟨passes, hend, hafter, hfinished⟩,
    ⟨passes, houtcome, hmetered, hfinished⟩, ?_⟩
  have hnarrow : (start.metered 0).tables.Narrow (t.width + p.block.width) :=
    t.narrow_width.mono (Nat.le_add_right _ _)
  have hcost :=
    (interpret_costs (n := n) m passes p t.width (start.metered 0) hnarrow).2
  rw [hmetered] at hcost
  have hwork : work ≤ account n (p.cost t.width) (w.metered work) :=
    Nat.le_add_right _ _
  have hstart : account n (p.cost t.width) (start.metered 0) =
      p.cost t.width * (n + 1) := Nat.zero_add _
  rw [hstart] at hcost
  calc
    work ≤ p.cost t.width * (n + 1) + p.cost t.width := Nat.le_trans hwork hcost
    _ = (n + 2) * p.cost t.width := by ring

end Fixture
