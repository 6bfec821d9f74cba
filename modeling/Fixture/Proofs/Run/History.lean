import Fixture.Machine
import Fixture.Proofs.Run.Lockstep
/-!
# Histories of runs

What happened in a run is not in its result. To speak of the moment of a check
or of a call, the run is watched: its host keeps, beside its own state, the
moments at which it was asked for leave or for a call, and every table of values
that it was shown. A watched host answers like the host itself, so the run is
the same.

In the same way a machine can keep the calls that it was asked to perform, with
what became of them.

## Main results

* `interpret_watched`: watching a run does not change it.
* `Side.agree_or_cut_watched`: a watched run beside another.
* `history_prefix`: a higher bound on passes only adds to a history.
-/

namespace Fixture

/-- A moment at which a host was asked for something: the tables, and the state
of the host before it answered. -/
structure Moment (σ : Type) where
  tables : Tables
  host : σ

/-- The state of a host, and what it has been asked and shown up to now, in
order. -/
structure History (σ : Type) where
  host : σ
  /-- The moments at which the host was asked for leave. -/
  checks : List (Moment σ)
  /-- The calls that the host was asked for, with their moments. -/
  calls : List (Call × Moment σ)
  /-- The tables of values that came with checks, calls and notes. -/
  shown : List (Table Value)

/-- A history in which nothing has happened. -/
def History.start {σ : Type} (s : σ) : History σ := ⟨s, [], [], []⟩

/-- A host that remembers what it is asked and shown. -/
def Host.watched {σ ε : Type} (h : Host σ ε) : Host (History σ) ε where
  check t s :=
    ((h.check t s.host).1, { s with
      host := (h.check t s.host).2
      checks := s.checks ++ [⟨t, s.host⟩]
      shown := s.shown ++ [t.values] })
  perform c t s :=
    ((h.perform c t s.host).1, { s with
      host := (h.perform c t s.host).2
      calls := s.calls ++ [(c, ⟨t, s.host⟩)]
      shown := s.shown ++ [t.values] })
  note n s :=
    { s with host := h.note n s.host, shown := s.shown ++ n.values?.toList }

/-- What happens in the run of a program. -/
def Run.history {σ ε : Type} (h : Host σ ε) (passes : Nat) (p : Program)
    (w : World σ) : History σ :=
  ((Run.interpret h.watched passes p).after ⟨w.tables, .start w.host⟩).host

/-- The moment of check number `n + 1` of a program. -/
def Run.ChecksAt {σ ε : Type} (h : Host σ ε) (p : Program) (w : World σ)
    (n : Nat) (m : Moment σ) : Prop :=
  ∃ passes, (history h passes p w).checks[n]? = some m

/-- What has happened stays where it stands in a history. -/
theorem getElem?_append_of_some {α : Type} {xs : List α} {n : Nat} {a : α}
    (h : xs[n]? = some a) (ys : List α) : (xs ++ ys)[n]? = some a := by
  obtain ⟨hlt, -⟩ := List.getElem?_eq_some_iff.1 h
  rw [List.getElem?_append_left hlt, h]

/-! ## Watching changes nothing -/

section Watching

open Run

variable {σ ε : Type}

/-- A watched host beside the host itself. -/
def Side.watching (h : Host σ ε) : Side h.watched h where
  states s₁ s₂ := s₁.host = s₂
  failures := Eq
  cut _ _ _ := False
  states_note n hs := by
    subst hs
    rfl
  states_check t hs := by
    subst hs
    exact .inl ⟨rfl, rfl⟩
  states_perform c t hs := by
    subst hs
    exact .inl ⟨rel_refl _, rfl⟩
  cut_note _ hc := hc
  cut_check _ hc := hc
  cut_perform _ _ hc := hc
  cut_told _ hc := hc

/-- **Watching a run does not change it.** -/
theorem interpret_watched (h : Host σ ε) (passes : Nat) (p : Program)
    (w : World σ) :
    (interpret h.watched passes p).outcome ⟨w.tables, .start w.host⟩ =
      (interpret h passes p).outcome w ∧
    ((interpret h.watched passes p).after ⟨w.tables, .start w.host⟩).tables =
      ((interpret h passes p).after w).tables ∧
    (history h passes p w).host = ((interpret h passes p).after w).host := by
  let start : World (History σ) := ⟨w.tables, .start w.host⟩
  have htables : start.tables = w.tables := rfl
  rcases (Side.watching h).agree_or_cut passes p htables rfl with
    ⟨hagree, htables', hhost⟩ | ⟨e, -, hcut⟩
  · exact ⟨hagree.eq, htables', hhost⟩
  · exact hcut.elim

theorem history_host (h : Host σ ε) (passes : Nat) (p : Program) (w : World σ) :
    (history h passes p w).host = ((interpret h passes p).after w).host :=
  (interpret_watched h passes p w).2.2

/-- **A watched run beside another:** what the two come to, with the history of
the first. -/
theorem Side.agree_or_cut_watched {σ₂ ε₂ : Type} {h₁ : Host σ ε}
    {h₂ : Host σ₂ ε₂} (S : Side h₁.watched h₂) (passes : Nat) (p : Program)
    {w₁ : World σ} {w₂ : World σ₂} (htables : w₁.tables = w₂.tables)
    (hstates : S.states (.start w₁.host) w₂.host) :
    (Agree Eq (Halt.Alike Eq S.failures) ((interpret h₁ passes p).outcome w₁)
        ((interpret h₂ passes p).outcome w₂) ∧
      ((interpret h₁ passes p).after w₁).tables =
        ((interpret h₂ passes p).after w₂).tables ∧
      S.states (history h₁ passes p w₁)
        ((interpret h₂ passes p).after w₂).host) ∨
    ∃ e, (interpret h₂ passes p).outcome w₂ = .error e ∧
      S.cut (history h₁ passes p w₁) e ((interpret h₂ passes p).after w₂) := by
  let watched : World (History σ) := ⟨w₁.tables, .start w₁.host⟩
  have hstart : watched.tables = w₂.tables := htables
  obtain ⟨houtcome, htables', -⟩ := interpret_watched h₁ passes p w₁
  rw [← houtcome, ← htables']
  exact S.agree_or_cut passes p hstart hstates

/-- A watched host beside itself, where a run that has used up its passes counts
as cut off, with a history that the other run only adds to. -/
def Side.remembering (h : Host σ ε) : Side h.watched h.watched where
  states := Eq
  failures := Eq
  cut s e w :=
    e = .unfinished ∧ w.host.checks <+: s.checks ∧ w.host.calls <+: s.calls
  states_note n hs := by rw [hs]
  states_check t hs := .inl (by rw [hs]; exact ⟨rfl, rfl⟩)
  states_perform c t hs := .inl (by rw [hs]; exact ⟨rel_refl _, rfl⟩)
  cut_note _ hc := hc
  cut_check _ hc := ⟨hc.1, hc.2.1.trans (List.prefix_append _ _), hc.2.2⟩
  cut_perform _ _ hc := ⟨hc.1, hc.2.1, hc.2.2.trans (List.prefix_append _ _)⟩
  cut_told _ hc := nomatch hc.1

/-- **A history under a higher bound goes on from the same beginning.** -/
theorem history_prefix (h : Host σ ε) (p : Program) {passes more : Nat}
    (hle : passes ≤ more) (w : World σ) :
    (history h passes p w).checks <+: (history h more p w).checks ∧
    (history h passes p w).calls <+: (history h more p w).calls := by
  have hbounds : (Side.remembering h).Bounds more passes := by
    refine .inr ⟨hle, fun t s₁ s₂ hs => ?_⟩
    obtain rfl : s₁ = s₂ := hs
    exact ⟨rfl, List.prefix_refl _, List.prefix_refl _⟩
  have hstart : (Side.remembering h).pairing.worlds ⟨w.tables, .start w.host⟩
      ⟨w.tables, .start w.host⟩ :=
    ⟨rfl, rfl⟩
  rcases (Side.interpret_together hbounds p).pairs.agree_or_cut hstart with
    ⟨-, -, hhost⟩ | ⟨e, -, -, hcut⟩
  · have hsame : history h more p w = history h passes p w := hhost
    rw [hsame]
    exact ⟨List.prefix_refl _, List.prefix_refl _⟩
  · exact hcut

theorem ChecksAt.unique {h : Host σ ε} {p : Program} {w : World σ} {n : Nat}
    {m₁ m₂ : Moment σ} (h₁ : ChecksAt h p w n m₁) (h₂ : ChecksAt h p w n m₂) :
    m₁ = m₂ := by
  obtain ⟨k₁, hk₁⟩ := h₁
  obtain ⟨k₂, hk₂⟩ := h₂
  rcases Nat.le_total k₁ k₂ with hle | hle
  · obtain ⟨⟨rest, hrest⟩, -⟩ := history_prefix h p hle w
    have hget := getElem?_append_of_some hk₁ rest
    rw [hrest, hk₂] at hget
    exact (Option.some.inj hget).symm
  · obtain ⟨⟨rest, hrest⟩, -⟩ := history_prefix h p hle w
    have hget := getElem?_append_of_some hk₂ rest
    rw [hrest, hk₁] at hget
    exact Option.some.inj hget

end Watching

/-! ## Machines at work -/

variable {μ ε : Type}

/-- The world in which a run on a machine begins. -/
def World.start (t : Tables) (s : μ) (j : Journal) : World (Rig μ) :=
  ⟨t, s, 0, j⟩

/-- The state of a machine, and the calls it was asked for, with their failures,
in order. -/
structure Traced (μ ε : Type) where
  machine : μ
  calls : List (Call × Option ε)

/-- A machine that has not been asked for anything. -/
def Traced.fresh (s : μ) : Traced μ ε := ⟨s, []⟩

/-- A machine that remembers its calls. -/
def Machine.traced (m : Machine μ ε) : Machine (Traced μ ε) ε where
  act c s :=
    let reply := m.act c s.machine
    ⟨reply.failure, reply.entries,
      ⟨reply.state, s.calls ++ [(c, reply.failure)]⟩⟩

/-- A run has as many moments of checks as checks. -/
theorem length_checks (m : Machine μ ε) (limit : Option Nat) (passes : Nat)
    (p : Program) (t : Tables) (s : μ) (j : Journal) :
    (Run.history (m.host limit) passes p (.start t s j)).checks.length =
      ((Run.interpret (m.host limit) passes p).after
        (.start t s j)).host.checks := by
  let I : World (History (Rig μ)) → Prop :=
    fun w => w.host.checks.length = w.host.host.checks
  have hrespects : (m.host limit).watched.Respects I := by
    refine ⟨fun w hw => ?_, fun _ _ hw => hw, fun _ _ _ hw => hw⟩
    show (w.host.checks ++ [Moment.mk w.tables w.host.host]).length =
      w.host.host.checks + 1
    rw [List.length_append, List.length_singleton,
      show w.host.checks.length = w.host.host.checks from hw]
  have hassign := fun target value =>
    Run.assign_keeps hrespects target (fun _ _ _ _ hw _ _ => hw) value
  have hkeeps :=
    Run.interpret_keeps (p := p) hrespects hassign (fun _ hw => hw) passes
  have hlength := hkeeps ⟨t, .start (World.start t s j).host⟩ rfl
  rw [← history_host]
  exact hlength

end Fixture
