import Fixture.Proofs.Encoder.Likeness
import Fixture.Proofs.Grammar.Accepts
import Fixture.Proofs.Kinds
import Fixture.Proofs.Run.Passes
import Fixture.Proofs.Spelling
/-!
# Running a program again

A program that has run well can be run again where it left off: over the tables
that it has filled, and on the encoder as it is, with the lines that it has sent
and in the mode that it is in. Nothing of that is seen by the second run. A name
that the first run had not bound when it read it would have ended the run, so
wherever the second run finds a name bound, either the first run had bound it
too, to the same thing, or neither of them looks.

The two runs are held against each other step by step, the first one over empty
tables and the second one over what is left behind. What is bound in the tables
of the first run is bound in those of the second one, and what stands there
besides is left over.

## Main results

* `Table.Rebound.eq`: bound all anew, the table that was left behind is itself
  again.
* `Expr.eval_steady`, `Motion.eval_steady`: more bindings do not change what has
  a value.
* `Run.interpret_repeats`: a run that goes well goes well over leftovers.
* `interpret_again`: a program that has run well runs in the same way again.
-/

namespace Fixture

open Run

/-! ## Tables with leftovers -/

namespace Table

variable {α : Type}

/-- The bound names, in the order in which they were first bound. -/
def keys (t : Table α) : List String := t.entries.map Prod.fst

/-- What is bound in a table is bound to the same in another one. -/
def Within (t u : Table α) : Prop :=
  ∀ name a, t.get? name = some a → u.get? name = some a

private theorem mem_keys_iff {t : Table α} {name : String} :
    name ∈ t.keys ↔ ∃ a, t.get? name = some a := by
  obtain ⟨entries⟩ := t
  show name ∈ entries.map Prod.fst ↔ ∃ a, entries.lookup name = some a
  induction entries with
  | nil => simp
  | cons entry rest ih =>
      obtain ⟨n, b⟩ := entry
      rw [List.map_cons, List.mem_cons, List.lookup_cons]
      by_cases hname : name = n
      · simp [hname]
      · simp [hname, beq_false_of_ne hname, ih]

/-- A known name keeps its place, and a new one goes to the end. -/
private theorem keys_set (t : Table α) (name : String) (a : α) :
    (t.set name a).keys =
      if name ∈ t.keys then t.keys else t.keys ++ [name] := by
  obtain ⟨entries⟩ := t
  show (setEntry name a entries).map Prod.fst =
    if name ∈ entries.map Prod.fst then entries.map Prod.fst
    else entries.map Prod.fst ++ [name]
  induction entries with
  | nil => rfl
  | cons entry rest ih =>
      obtain ⟨n, b⟩ := entry
      rw [setEntry]
      by_cases hname : n = name
      · simp [hname]
      · rw [if_neg hname, List.map_cons, ih, List.map_cons]
        by_cases hmem : name ∈ rest.map Prod.fst
        · rw [if_pos hmem, if_pos (List.mem_cons_of_mem _ hmem)]
        · rw [if_neg hmem, if_neg
            (by simp only [List.mem_cons, not_or]; exact ⟨Ne.symm hname, hmem⟩)]
          rfl

private theorem mem_keys_set {t : Table α} {name other : String} {a : α} :
    other ∈ (t.set name a).keys ↔ other = name ∨ other ∈ t.keys := by
  rw [keys_set]
  by_cases hmem : name ∈ t.keys
  · rw [if_pos hmem]
    refine ⟨.inr, fun h => h.elim (fun heq => heq ▸ hmem) id⟩
  · rw [if_neg hmem, List.mem_append, List.mem_singleton, or_comm]

private theorem nodup_set {t : Table α} (ht : t.keys.Nodup) (name : String)
    (a : α) : (t.set name a).keys.Nodup := by
  rw [keys_set]
  by_cases hmem : name ∈ t.keys
  · rwa [if_pos hmem]
  · rw [if_neg hmem]
    exact List.nodup_append.2 ⟨ht, List.nodup_singleton name,
      fun x hx y hy heq => hmem (List.mem_singleton.1 hy ▸ heq ▸ hx)⟩

/-- Tables with the same names in the same order, of which one is within the
other, are equal. -/
private theorem eq_of_within {t u : Table α} (hkeys : u.keys = t.keys)
    (hnodup : t.keys.Nodup) (hwithin : t.Within u) : u = t := by
  obtain ⟨entries⟩ := t
  obtain ⟨entries'⟩ := u
  refine congrArg Table.mk ?_
  replace hkeys : entries'.map Prod.fst = entries.map Prod.fst := hkeys
  replace hnodup : (entries.map Prod.fst).Nodup := hnodup
  replace hwithin : ∀ name a, entries.lookup name = some a →
      entries'.lookup name = some a := hwithin
  induction entries generalizing entries' with
  | nil => exact List.map_eq_nil_iff.1 hkeys
  | cons entry rest ih =>
      obtain ⟨n, b⟩ := entry
      cases entries' with
      | nil => cases hkeys
      | cons entry' rest' =>
          obtain ⟨n', b'⟩ := entry'
          rw [List.map_cons, List.map_cons] at hkeys
          obtain ⟨rfl, hrest⟩ := List.cons.inj hkeys
          rw [List.map_cons, List.nodup_cons] at hnodup
          have hfirst := hwithin n' b (by rw [List.lookup_cons_self])
          rw [List.lookup_cons_self] at hfirst
          rw [Option.some.inj hfirst,
            ih rest' hrest hnodup.2 fun name a hget => ?_]
          -- the first name does not come again
          have hname : name ≠ n' := by
            rintro rfl
            exact hnodup.1 (mem_keys_iff (t := ⟨rest⟩).2 ⟨a, hget⟩)
          have hboth := hwithin name a
          rw [List.lookup_cons, beq_false_of_ne hname, List.lookup_cons,
            beq_false_of_ne hname] at hboth
          exact hboth hget

/-- A table that was `left`, in which the same names have been bound as in
`first`, which was empty. -/
structure Rebound (left first again : Table α) : Prop where
  within : first.Within again
  nodup : again.keys.Nodup
  front : left.keys <+: again.keys
  back : ∀ name ∈ again.keys, name ∈ left.keys ∨ name ∈ first.keys

namespace Rebound

variable {left first again : Table α}

private theorem start (hleft : left.keys.Nodup) : Rebound left .empty left where
  within _ _ hget := by cases hget
  nodup := hleft
  front := List.prefix_refl _
  back _ hname := .inl hname

private theorem set (h : Rebound left first again) (name : String) (a : α) :
    Rebound left (first.set name a) (again.set name a) where
  within other b hget := by
    rw [get?_set] at hget ⊢
    by_cases hname : other = name
    · rwa [if_pos hname] at hget ⊢
    · rw [if_neg hname] at hget ⊢
      exact h.within other b hget
  nodup := nodup_set h.nodup name a
  front := by
    rw [keys_set]
    by_cases hmem : name ∈ again.keys
    · rw [if_pos hmem]
      exact h.front
    · rw [if_neg hmem]
      exact h.front.trans (List.prefix_append _ _)
  back other hother := by
    rcases mem_keys_set.1 hother with rfl | hother
    · exact .inr (mem_keys_set.2 (.inl rfl))
    · rcases h.back other hother with hleft | hfirst
      · exact .inl hleft
      · exact .inr (mem_keys_set.2 (.inr hfirst))

/-- **Bound all anew, the table that was left is itself again.** -/
theorem eq (h : Rebound left left again) : again = left := by
  obtain ⟨more, hmore⟩ := h.front
  have hnodup := h.nodup
  rw [← hmore, List.nodup_append] at hnodup
  have hnone : more = [] := by
    rw [List.eq_nil_iff_forall_not_mem]
    intro name hname
    -- a name that came later would be one of those left
    have hleft : name ∈ left.keys :=
      (h.back name (hmore ▸ List.mem_append_right _ hname)).elim id id
    exact hnodup.2.2 name hleft name hname rfl
  refine eq_of_within ?_ hnodup.1 h.within
  rw [← hmore, hnone, List.append_nil]

end Rebound

end Table

/-- Names are bound once in each of the tables. -/
structure Tables.Distinct (t : Tables) : Prop where
  types : t.types.keys.Nodup
  values : t.values.keys.Nodup
  pins : t.pins.keys.Nodup

/-- Tables that were `left`, in which the same has been declared and bound as in
`first`, which were empty. -/
structure Tables.Rebound (left first again : Tables) : Prop where
  types : left.types.Rebound first.types again.types
  values : left.values.Rebound first.values again.values
  pins : left.pins.Rebound first.pins again.pins

namespace Tables

private theorem distinct_empty : Tables.empty.Distinct :=
  ⟨List.nodup_nil, List.nodup_nil, List.nodup_nil⟩

private theorem Rebound.start {left : Tables} (hleft : left.Distinct) :
    Rebound left .empty left :=
  ⟨.start hleft.types, .start hleft.values, .start hleft.pins⟩

theorem Rebound.eq {left again : Tables} (h : Rebound left left again) :
    again = left := by
  obtain ⟨types, values, pins⟩ := again
  obtain ⟨htypes, hvalues, hpins⟩ := h
  rw [show types = left.types from htypes.eq,
    show values = left.values from hvalues.eq,
    show pins = left.pins from hpins.eq]

end Tables

namespace Declaration

private theorem enter_distinct {t : Tables} (ht : t.Distinct)
    (d : Declaration) : (d.enter t).Distinct := by
  cases d with
  | «variable» d => exact ⟨Table.nodup_set ht.types _ _, ht.values, ht.pins⟩
  | pin d => exact ⟨ht.types, ht.values, Table.nodup_set ht.pins _ _⟩
  | waypoint d => exact ⟨ht.types, Table.nodup_set ht.values _ _, ht.pins⟩

private theorem enter_rebound {left first again : Tables}
    (h : left.Rebound first again) (d : Declaration) :
    left.Rebound (d.enter first) (d.enter again) := by
  cases d with
  | «variable» d => exact ⟨h.types.set _ _, h.values, h.pins⟩
  | pin d => exact ⟨h.types, h.values, h.pins.set _ _⟩
  | waypoint d => exact ⟨h.types, h.values.set _ _, h.pins⟩

/-- Declarations do not depend on what is in the tables: a name is taken by the
block only. -/
private theorem enterAll_rebound {left : Tables} (ds : List Declaration) :
    ∀ (taken : List String) {first again : Tables}, left.Rebound first again →
      left.Rebound (enterAll taken first ds).1 (enterAll taken again ds).1 ∧
        (enterAll taken again ds).2 = (enterAll taken first ds).2 := by
  induction ds with
  | nil => exact fun _ _ _ h => ⟨h, rfl⟩
  | cons d ds ih =>
      intro taken first again h
      rw [enterAll, enterAll]
      by_cases htaken : d.name ∈ taken
      · rw [if_pos htaken, if_pos htaken]
        exact ⟨h, rfl⟩
      · rw [if_neg htaken, if_neg htaken]
        exact ih _ (enter_rebound h d)

end Declaration

/-! ## Evaluation with leftovers -/

/-- An evaluation that comes to the same over more bindings, if it comes to
something. -/
def Steady {α : Type} (f : Table Value → Except EvalError α) : Prop :=
  ∀ ⦃t u⦄, t.Within u → ∀ ⦃a⦄, f t = .ok a → f u = .ok a

namespace Steady

variable {α β : Type}

private theorem const (r : Except EvalError α) : Steady fun _ => r :=
  fun _ _ _ _ h => h

private theorem bind {f : Table Value → Except EvalError α}
    {g : α → Table Value → Except EvalError β} (hf : Steady f)
    (hg : ∀ a, Steady (g a)) :
    Steady fun values => f values >>= fun a => g a values := by
  intro t u hwithin b h
  dsimp only at h ⊢
  cases hft : f t with
  | error e =>
      rw [hft] at h
      cases h
  | ok a =>
      rw [hft] at h
      rw [hf hwithin hft]
      exact hg a hwithin h

end Steady

namespace Expr

private theorem lookup_steady (tok : Token) :
    Steady fun values => lookup values tok := by
  intro t u hwithin v h
  have hget := hwithin _ _ (lookup_eq_ok h)
  show lookup u tok = .ok v
  unfold lookup
  rw [hget]

/-- **More bindings do not change the value of an expression that has one.** -/
theorem eval_steady (e : Expr) : Steady fun values => e.eval values := by
  induction e with
  | name tok => exact lookup_steady tok
  | integer tok n => exact .const _
  | real tok x => exact .const _
  | boolean tok b => exact .const _
  | signed op e ih => exact ih.bind fun v => .const (v.withSign op)
  | binary op l r ihl ihr =>
      exact ihr.bind fun rv =>
        ihl.bind fun lv => .const (Value.operation op (.binary op l r) lv rv)

private theorem evalTruth_steady (e : Expr) :
    Steady fun values => e.evalTruth values :=
  (eval_steady e).bind fun _ => .const _

private theorem evalNumber_steady (e : Expr) :
    Steady fun values => e.evalNumber values :=
  (eval_steady e).bind fun v => .const (e.numeric v)

end Expr

namespace Motion

private theorem resolve_steady (d : Expr) (s : Option Expr) :
    Steady fun values => resolve values d s := by
  cases d with
  | name tok => exact (Expr.lookup_steady tok).bind fun _ => .const _
  | _ => exact .const _

/-- **More bindings do not change a move whose operands have values.** -/
theorem eval_steady (d : Expr) (s : Option Expr) :
    Steady fun values => Motion.eval values d s := by
  refine (resolve_steady d s).bind fun o => ?_
  obtain ⟨d', s', relative⟩ := o
  refine (Expr.evalNumber_steady d').bind fun x => ?_
  cases s' with
  | none => exact .const _
  | some e => exact (Expr.evalNumber_steady e).bind fun _ => .const _

end Motion

/-! ## Runs with leftovers -/

namespace Run

variable {σ μ ε α β : Type}

/-- An action that goes well in one world goes well, with the same result, in
one that corresponds to it. -/
def Repeats (again : World σ → World σ → Prop) (x : Run σ ε α) : Prop :=
  ∀ ⦃w v⦄, again w v →
    ∀ ⦃a w'⦄, x.run w = .ok a w' → ∃ v', x.run v = .ok a v' ∧ again w' v'

namespace Repeats

variable {again : World σ → World σ → Prop}

private theorem pure (a : α) : Repeats again (Pure.pure a : Run σ ε α) := by
  intro w v hw a' w' hrun
  cases hrun
  exact ⟨v, rfl, hw⟩

private theorem throw (e : Halt ε) :
    Repeats again (MonadExcept.throw e : Run σ ε α) := by
  intro w v hw a w' hrun
  cases hrun

private theorem bind {x : Run σ ε α} {f : α → Run σ ε β} (hx : Repeats again x)
    (hf : ∀ a, Repeats again (f a)) : Repeats again (x >>= f) := by
  intro w v hw b w'' hrun
  cases hres : x.run w with
  | error e w' =>
      rw [run_bind_error hres] at hrun
      cases hrun
  | ok a w' =>
      rw [run_bind_ok hres] at hrun
      obtain ⟨v', hrun', hw'⟩ := hx hw hres
      rw [run_bind_ok hrun']
      exact hf a hw' hrun

private theorem ofEval (r : Except EvalError α) :
    Repeats again (Run.ofEval r : Run σ ε α) := by
  cases r with
  | ok a => exact pure a
  | error e => exact throw _

end Repeats

/-- The worlds of a run and of the run again: tables with leftovers, and
machines that correspond. -/
structure Again (left : Tables) (machines : μ → μ → Prop)
    (w v : World (Rig μ)) : Prop where
  tables : left.Rebound w.tables v.tables
  machine : machines w.host.machine v.host.machine

/-- What goes well on a machine goes well on one that corresponds to it. -/
def Consistent (m : Machine μ ε) (machines : μ → μ → Prop) : Prop :=
  ∀ c s₁ s₂, machines s₁ s₂ → (m.act c s₁).failure = none →
    (m.act c s₂).failure = none ∧ machines (m.act c s₁).state (m.act c s₂).state

section Programs

variable {m : Machine μ ε} {left : Tables} {machines : μ → μ → Prop}

/-- What a run goes on with after an evaluation, the run again goes on with
too. -/
private theorem Again.evaluated {w v : World (Rig μ)}
    (hw : Again left machines w v) {f : Table Value → Except EvalError α}
    (hf : Steady f) {g : α → Run (Rig μ) ε β}
    (hg : ∀ a, Repeats (Again left machines) (g a)) (n n' : Note) {b : β}
    {w' : World (Rig μ)}
    (hrun : (Run.ofEval (f w.tables.values) >>= g).run
        (w.told (m.host none) n) = .ok b w') :
    ∃ v',
      (Run.ofEval (f v.tables.values) >>= g).run (v.told (m.host none) n') =
        .ok b v' ∧ Again left machines w' v' := by
  have htold : Again left machines (w.told (m.host none) n)
      (v.told (m.host none) n') := ⟨hw.tables, hw.machine⟩
  cases hres : f w.tables.values with
  | error e =>
      rw [hres, run_ofEval_error] at hrun
      cases hrun
  | ok a =>
      rw [hres, run_ofEval_ok] at hrun
      rw [hf hw.tables.values.within hres, run_ofEval_ok]
      exact hg a htold hrun

private theorem tell_repeats (n : Note) :
    Repeats (Again left machines) (tell (m.host none) n) := by
  intro w v hw a w' hrun
  cases hrun
  exact ⟨_, rfl, hw.tables, hw.machine⟩

private theorem perform_repeats (hm : Consistent m machines) (c : Call) :
    Repeats (Again left machines) (perform (m.host none) c) := by
  intro w v hw a w' hrun
  cases hc : ((m.host none).perform c w.tables w.host).1 with
  | some e =>
      rw [run_perform_error hc] at hrun
      cases hrun
  | none =>
      rw [run_perform_ok hc] at hrun
      cases hrun
      obtain ⟨hnone, hmachines⟩ := hm c _ _ hw.machine hc
      exact ⟨_, run_perform_ok hnone, hw.tables, hmachines⟩

private theorem guarded_repeats {x y : Run (Rig μ) ε α}
    (hx : Repeats (Again left machines) x) :
    Repeats (Again left machines)
      (leave (m.host none) >>= fun granted => if granted then x else y) := by
  intro w v hw a w' hrun
  rw [run_bind_ok (run_leave _ w)] at hrun
  rw [run_bind_ok (run_leave _ v)]
  have hchecked : Again left machines (w.checked (m.host none))
      (v.checked (m.host none)) := ⟨hw.tables, hw.machine⟩
  exact hx hchecked hrun

private theorem condition_repeats (e : Expr) :
    Repeats (Again left machines) (condition (m.host none) e) := by
  intro w v hw a w' hrun
  rw [run_condition, ← bind_pure (Run.ofEval (e.evalTruth w.tables.values))]
    at hrun
  rw [run_condition, ← bind_pure (Run.ofEval (e.evalTruth v.tables.values))]
  exact hw.evaluated e.evalTruth_steady Repeats.pure _ _ hrun

private theorem wait_repeats (hm : Consistent m machines) (d : Expr) :
    Repeats (Again left machines) (wait (m.host none) d) := by
  intro w v hw a w' hrun
  rw [run_wait] at hrun ⊢
  exact hw.evaluated d.eval_steady (fun u => (Repeats.ofEval _).bind fun x =>
    (perform_repeats hm (.wait x)).bind fun _ => Repeats.pure u) _ _ hrun

private theorem move_repeats (hm : Consistent m machines) (axis : Axis)
    (d : Expr) (s : Option Expr) :
    Repeats (Again left machines) (move (m.host none) axis d s) := by
  intro w v hw a w' hrun
  rw [run_move] at hrun ⊢
  exact hw.evaluated (Motion.eval_steady d s)
    (fun motion => perform_repeats hm (.move axis motion)) _ _ hrun

private theorem bound_repeats (name : String) (u : Value) :
    Repeats (Again left machines)
      (modify (World.bound name u) : Run (Rig μ) ε Unit) := by
  intro w v hw a w' hrun
  cases hrun
  exact ⟨_, rfl, ⟨hw.tables.types, hw.tables.values.set name u, hw.tables.pins⟩,
    hw.machine⟩

private theorem assign_repeats (target : Token) (value : Expr) :
    Repeats (Again left machines) (assign (m.host none) target value) := by
  intro w v hw a w' hrun
  cases hdecl : w.tables.types.get? target.literal with
  | none =>
      rw [run_assign_undeclared hdecl] at hrun
      cases hrun
  | some declared =>
      rw [run_assign hdecl] at hrun
      rw [run_assign (hw.tables.types.within _ _ hdecl)]
      exact hw.evaluated value.eval_steady
        (fun u =>
          (Repeats.ofEval _).bind fun u' => bound_repeats target.literal u') _ _
        hrun

private theorem repeatUntil_repeats {body : Run (Rig μ) ε Unit}
    {done : Run (Rig μ) ε Bool} (hbody : Repeats (Again left machines) body)
    (hdone : Repeats (Again left machines) done) (passes : Nat) :
    ∀ pass, Repeats (Again left machines)
      (repeatUntil (m.host none) body done passes pass) := by
  induction passes with
  | zero => exact fun _ => .throw _
  | succ passes ih =>
      intro pass
      refine guarded_repeats (hbody.bind fun _ => hdone.bind fun finished => ?_)
      cases finished with
      | false => exact ih (pass + 1)
      | true => exact .pure ()

/-- Being repeated goes through programs. -/
private theorem composes_repeats (hm : Consistent m machines) (passes : Nat) :
    Composes (m.host none) (m.host none) passes passes (fun _ => True)
      fun x _ => Repeats (Again left machines) x where
  pure := .pure
  bind hx hf := hx.bind hf
  tell n _ := tell_repeats n
  perform := perform_repeats hm
  condition e _ := condition_repeats e
  assign target value _ := assign_repeats target value
  wait d _ := wait_repeats hm d
  move axis d s _ := move_repeats hm axis d s
  guarded hx := guarded_repeats hx
  loop hbody hdone := repeatUntil_repeats hbody hdone passes 1

private theorem declare_repeats (b : Block) :
    Repeats (Again left machines) (declare b : Run (Rig μ) ε Unit) := by
  intro w v hw a w' hrun
  obtain ⟨htables, hfault⟩ :=
    Declaration.enterAll_rebound b.declarations [] hw.tables
  cases hres : (Declaration.enterAll [] w.tables b.declarations).2 with
  | some f =>
      rw [run_declare_error hres] at hrun
      cases hrun
  | none =>
      rw [run_declare_ok hres] at hrun
      cases hrun
      exact ⟨_, run_declare_ok (hfault.trans hres), htables, hw.machine⟩

/-- **A program that goes well over empty tables goes well over leftovers,**
with the same calls. -/
theorem interpret_repeats (hm : Consistent m machines) (passes : Nat)
    (p : Program) :
    Repeats (Again left machines) (interpret (m.host none) passes p) :=
  (composes_repeats hm passes).interpret (declare_repeats p.block) fun _ _ =>
    trivial

/-- Programs bind names once. -/
private theorem interpret_distinct (m : Machine μ ε) (limit : Option Nat)
    (passes : Nat) (p : Program) :
    Keeps (fun w => w.tables.Distinct) (interpret (m.host limit) passes p) := by
  have hrespects := (m.host limit).respects_tables Tables.Distinct
  have hassign := fun target =>
    assign_keeps hrespects target fun w _ _ v' hw _ _ =>
      (⟨hw.types, Table.nodup_set hw.values target.literal v', hw.pins⟩ :
        (w.bound target.literal v').tables.Distinct)
  have hdeclare : ∀ w : World (Rig μ), w.tables.Distinct →
      (w.declared p.block).tables.Distinct := fun _ hw =>
        Declaration.enterAll_keeps (I := Tables.Distinct)
          (fun d _ _ ht => Declaration.enter_distinct ht d) [] hw
  exact interpret_keeps hrespects hassign hdeclare passes

end Programs

end Run

/-! ## Encoders with leftovers -/

namespace Encoder

/-- An encoder that has come of another one by sending lines and changing modes,
on an outlet that takes every line. -/
structure Descends (origin e : Encoder) : Prop where
  axes : e.axes = origin.axes
  session : e.session = origin.session
  displayed : e.displayed = origin.displayed
  sound : e.outlet.Sound

/-- An encoder in a run, and in the run again: they have sent the same since
they began, and have the same mode since they were given one. -/
structure Resent (origin : Encoder) (front front' : List String) (mode : Bool)
    (e₁ e₂ : Encoder) : Prop where
  first : Descends origin e₁
  again : Descends origin e₂
  relative : e₂.relative = e₁.relative ∨ e₂.relative = mode
  lines : ∃ lines, e₁.outlet.lines = front ++ lines ∧
    e₂.outlet.lines = front' ++ lines

variable {origin : Encoder} {front front' : List String} {mode : Bool}

private theorem Descends.writing {e : Encoder} (h : Descends origin e) :
    (e.session || e.displayed) = (origin.session || origin.displayed) := by
  rw [h.session, h.displayed]

private theorem Descends.wrote {e : Encoder} (h : Descends origin e)
    (line : String) :
    Descends origin { e with outlet := e.outlet.wrote line } :=
  ⟨h.axes, h.session, h.displayed, h.sound.wrote line⟩

private theorem Resent.wrote {e₁ e₂ : Encoder}
    (h : Resent origin front front' mode e₁ e₂) (line : String) :
    Resent origin front front' mode { e₁ with outlet := e₁.outlet.wrote line }
      { e₂ with outlet := e₂.outlet.wrote line } := by
  obtain ⟨lines, hlines, hlines'⟩ := h.lines
  refine ⟨h.first.wrote line, h.again.wrote line, h.relative, lines ++ [line],
    ?_, ?_⟩
  · rw [Outlet.lines_wrote, hlines, List.append_assoc]
  · rw [Outlet.lines_wrote, hlines', List.append_assoc]

/-- An encoder in a run is like the one in the run again. -/
def resending (origin : Encoder) (front front' : List String) (mode : Bool) :
    Likeness where
  alike := Resent origin front front' mode
  failures := Eq
  axes_eq he := he.again.axes.trans he.first.axes.symm
  alike_relative he _ :=
    ⟨⟨he.first.axes, he.first.session, he.first.displayed, he.first.sound⟩,
      ⟨he.again.axes, he.again.session, he.again.displayed, he.again.sound⟩,
      .inl rfl, he.lines⟩
  zeroSpeed := rfl
  matched_send line e₁ e₂ he := by
    cases hwriting : origin.session || origin.displayed with
    | false =>
        rw [send_silent (he.first.writing.trans hwriting),
          send_silent (he.again.writing.trans hwriting)]
        exact ⟨he, .none⟩
    | true =>
        rw [send_writing (he.first.writing.trans hwriting),
          send_writing (he.again.writing.trans hwriting),
          Outlet.write_sound he.first.sound, Outlet.write_sound he.again.sound]
        exact ⟨he.wrote line, .none⟩

private theorem consistent_resent :
    Consistent machine (Resent origin front front' mode) := by
  intro c e₁ e₂ he hnone
  obtain ⟨halike, hrel⟩ :=
    (resending origin front front' mode).matched_act c e₁ e₂ he
  replace hnone : (act c e₁).failure = none := hnone
  rw [hnone] at hrel
  cases hfail : (act c e₂).failure with
  | none => exact ⟨hfail, halike⟩
  | some err =>
      rw [hfail] at hrel
      cases hrel

/-- A run leaves an encoder that has come of the one it was given. -/
private theorem descends_of_run {e : Encoder} (he : e.outlet.Sound)
    (limit : Option Nat) (passes : Nat) (p : Program) (t : Tables)
    (j : Journal) :
    Descends e ((interpret (machine.host limit) passes p).after
      (.start t e j)).host.machine := by
  have hstart : Descends e e := ⟨rfl, rfl, rfl, he⟩
  -- the run beside itself
  have hself : (resending e e.outlet.lines e.outlet.lines e.relative).alike e
      e :=
    ⟨hstart, hstart, .inl rfl, [], (List.append_nil _).symm,
      (List.append_nil _).symm⟩
  obtain ⟨-, -, hresent⟩ := Likeness.agree _ limit passes p t j hself
  exact hresent.first

end Encoder

/--
**A program that has run well runs in the same way again.** Let a program end
without error over empty tables, on an encoder that takes every line. Over the
tables and on the encoder as they are then, it ends without error again. It
sends the lines that it sent before, and leaves the tables and the mode as it
found them.
-/
theorem interpret_again {e : Encoder} (he : e.outlet.Sound) {p : Program}
    {j : Journal} {w : World (Rig Encoder)}
    (hend : Ends (Encoder.machine.host none) p (.start .empty e j) (.ok ()) w)
    (j' : Journal) :
    ∃ w',
      Ends (Encoder.machine.host none) p (.start w.tables w.host.machine j')
        (.ok ()) w' ∧ w'.tables = w.tables ∧
      w'.host.machine.relative = w.host.machine.relative ∧
      ∃ lines, w.host.machine.outlet.lines = e.outlet.lines ++ lines ∧
        w'.host.machine.outlet.lines =
          w.host.machine.outlet.lines ++ lines := by
  obtain ⟨passes, hok, rfl, -⟩ := hend
  have hrun := run_eq_ok hok
  have hdistinct := interpret_distinct Encoder.machine none passes p
    (.start .empty e j) Tables.distinct_empty
  have hdescends := Encoder.descends_of_run he none passes p .empty j
  generalize (interpret (Encoder.machine.host none) passes p).after
      (.start .empty e j) = w at *
  -- the run again begins with everything left over, and the first run with
  -- nothing
  have hstart : Again w.tables
      (Encoder.Resent e e.outlet.lines w.host.machine.outlet.lines
        w.host.machine.relative) (.start .empty e j)
      (.start w.tables w.host.machine j') :=
    ⟨.start hdistinct, ⟨rfl, rfl, rfl, he⟩, hdescends, .inr rfl, [],
      (List.append_nil _).symm, (List.append_nil _).symm⟩
  obtain ⟨w', hrun', htables, hresent⟩ :=
    interpret_repeats Encoder.consistent_resent passes p hstart hrun
  refine ⟨w', ⟨passes, outcome_ok hrun', after_ok hrun', by simp⟩, htables.eq,
    ?_, hresent.lines⟩
  exact hresent.relative.elim id id

/-- A source with a loop, an assignment that reads its own variable, and a
waypoint that is worked out late. -/
def spiralSource : List UInt8 :=
  asciiBytes "PROGRAM p; VAR n : INTEGER; WAYPOINT w := (n * 2), 5; " ++
    asciiBytes "BEGIN n := 0; MOVETO 7; LOOP: n := n + 1; " ++
    asciiBytes "MOVETO w; WAIT 1; UNTIL n > 2; END."

/-- An encoder with a session that has sent nothing yet. -/
def idleEncoder : Encoder := ⟨.standard, true, false, false, .reliable⟩

/-- The run of a program on that encoder, over empty tables. -/
def idleOutcome (p : Program) : Except (Halt EncoderError) Unit :=
  (interpret (Encoder.machine.host none) 5 p).outcome
    (.start .empty idleEncoder .silent)

theorem interpret_again_spiral : ∃ p w w' lines,
    parse spiralSource = .ok p ∧
    Ends (Encoder.machine.host none) p (.start .empty idleEncoder .silent)
      (.ok ()) w ∧
    Ends (Encoder.machine.host none) p (.start w.tables w.host.machine .silent)
      (.ok ()) w' ∧ w'.tables = w.tables ∧ w.host.machine.outlet.lines = lines ∧
    w'.host.machine.outlet.lines = lines ++ lines := by
  have hread : (parse spiralSource).isOk = true := by decide +kernel
  obtain ⟨p, hp⟩ := exists_of_isOk hread
  have hruns : ((parse spiralSource).toOption.any fun p =>
      (idleOutcome p).isOk) = true := by decide +kernel
  rw [hp] at hruns
  replace hruns : (idleOutcome p).isOk = true := hruns
  cases hout : idleOutcome p with
  | error e =>
      rw [hout] at hruns
      cases hruns
  | ok _ =>
      have hend : Ends (Encoder.machine.host none) p
          (.start .empty idleEncoder .silent) (.ok ()) _ :=
        ⟨5, hout, rfl, by simp⟩
      obtain ⟨w', hend', htables, -, lines, hlines, hlines'⟩ :=
        interpret_again ⟨rfl, rfl⟩ hend .silent
      rw [hlines] at hlines'
      exact ⟨p, _, w', lines, hp, hend, hend', htables, hlines, hlines'⟩

end Fixture
