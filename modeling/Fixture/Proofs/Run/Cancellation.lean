import Fixture.Proofs.Run.History
import Fixture.Proofs.Run.Passes
/-!
# Cancelled runs

A run that gets leave for `n` checks only is the run that always gets leave, up
to its check number `n + 1`, and then nothing more: no statement is executed
behind a denied check, however deep in branches and loops it was made.

## Main results

* `Side.cancelling`: a run with leave for `n` checks beside one that always has
  leave.
* `interpret_cancelled`: where the run is cut off, what is left there, and that
  later cuts have more calls.
-/

namespace Fixture

open Run

variable {μ ε : Type}

/-- A machine counts the checks of its run. -/
private theorem Machine.counts (m : Machine μ ε) (limit : Option Nat) :
    (m.host limit).Counts Rig.checks where
  check _ _ := rfl
  perform _ _ _ := rfl
  note _ _ := rfl

private theorem Machine.allows_some {n checks : Nat} (h : checks < n) :
    Machine.allows (some n) checks = true :=
  decide_eq_true h

private theorem Machine.not_allows_some (n : Nat) :
    Machine.allows (some n) n = false :=
  decide_eq_false (Nat.lt_irrefl n)

/-! ## Beside a run that always has leave -/

/-- A run has been cancelled where the watched run made its check number `n +
1`. -/
def CancelledAt (n : Nat) (s : History (Rig μ)) (e : Halt ε)
    (w : World (Rig μ)) : Prop :=
  e = .cancelled ∧
  ∃ moment, s.checks[n]? = some moment ∧ w.tables = moment.tables ∧
    w.host.machine = moment.host.machine

/-- A run with leave for `n` checks, beside one that always has leave and is
watched. -/
def Side.cancelling (m : Machine μ ε) (n : Nat) :
    Side (m.host none).watched (m.host (some n)) where
  states s₁ s₂ := s₁.host = s₂ ∧ s₁.checks.length = s₂.checks ∧ s₂.checks ≤ n
  failures := Eq
  cut := CancelledAt n
  states_note _ hs := by
    obtain ⟨rfl, hlen, hle⟩ := hs
    exact ⟨rfl, hlen, hle⟩
  states_check {s₁} _ t hs := by
    obtain ⟨rfl, hlen, hle⟩ := hs
    rcases Nat.lt_or_eq_of_le hle with hlt | heq
    · refine .inl ⟨(Machine.allows_some hlt).symm, rfl, ?_, hlt⟩
      show (s₁.checks ++ [Moment.mk t s₁.host]).length = s₁.host.checks + 1
      rw [List.length_append, hlen, List.length_singleton]
    · refine .inr ⟨?_, rfl, Moment.mk t s₁.host, ?_, rfl, rfl⟩
      · show Machine.allows (some n) s₁.host.checks = false
        rw [heq, Machine.not_allows_some]
      · show (s₁.checks ++ [Moment.mk t s₁.host])[n]? = _
        rw [← heq, ← hlen, List.getElem?_concat_length]
  states_perform _ _ hs := by
    obtain ⟨rfl, hlen, hle⟩ := hs
    exact .inl ⟨rel_refl _, rfl, hlen, hle⟩
  cut_note _ hc := hc
  cut_check _ hc := by
    obtain ⟨rfl, moment, hget, hleft⟩ := hc
    exact ⟨rfl, moment, getElem?_append_of_some hget _, hleft⟩
  cut_perform _ _ hc := hc
  cut_told _ hc := hc

/-! ## Beside a run that is cancelled later -/

/-- A run with leave for `n` checks, beside one with leave for `k`. Both keep
their calls. -/
def Side.cancellingEarlier (m : Machine μ ε) {n k : Nat} (hnk : n ≤ k) :
    Side (m.traced.host (some k)) (m.traced.host (some n)) where
  states s₁ s₂ := s₁ = s₂ ∧ s₂.checks ≤ n
  failures := Eq
  cut s₁ _ w₂ := w₂.host.machine.calls <+: s₁.machine.calls
  states_note _ hs := by
    obtain ⟨rfl, hle⟩ := hs
    exact ⟨rfl, hle⟩
  states_check {s₁} _ t hs := by
    obtain ⟨rfl, hle⟩ := hs
    rcases Nat.lt_or_eq_of_le hle with hlt | heq
    · refine .inl ⟨?_, rfl, hlt⟩
      show Machine.allows (some k) s₁.checks = Machine.allows (some n) s₁.checks
      rw [Machine.allows_some hlt,
        Machine.allows_some (Nat.lt_of_lt_of_le hlt hnk)]
    · refine .inr ⟨?_, List.prefix_refl _⟩
      show Machine.allows (some n) s₁.checks = false
      rw [heq, Machine.not_allows_some]
  states_perform _ _ hs := by
    obtain ⟨rfl, hle⟩ := hs
    exact .inl ⟨rel_refl _, rfl, hle⟩
  cut_note _ hc := hc
  cut_check _ hc := hc
  cut_perform _ _ hc := hc.trans (List.prefix_append _ _)
  cut_told _ hc := hc

/-! ## The cut -/

section Cut

variable (m : Machine μ ε) (p : Program) (t : Tables) (s : μ) (j : Journal)

/-- A run with leave for `n` checks is the run that always has leave, or is
cancelled at check number `n + 1`. -/
private theorem same_or_cancelled (n passes : Nat) :
    let start := World.start t s j
    let free := interpret (m.host none) passes p
    let bounded := interpret (m.host (some n)) passes p
    bounded.outcome start = free.outcome start ∧
    bounded.after start = free.after start ∧
    (free.after start).host.checks ≤ n ∨
    bounded.outcome start = .error .cancelled ∧
    n < (free.after start).host.checks ∧
    ∃ moment, (history (m.host none) passes p start).checks[n]? = some moment ∧
      (bounded.after start).tables = moment.tables ∧
      (bounded.after start).host.machine = moment.host.machine := by
  intro start free bounded
  have hstates : (Side.cancelling m n).states (.start start.host) start.host :=
    ⟨rfl, rfl, Nat.zero_le n⟩
  rcases (Side.cancelling m n).agree_or_cut_watched passes p
    (Eq.refl start.tables) hstates with
    ⟨hagree, htables, hhost, -, hle⟩ | ⟨e, he, rfl, moment, hget, hleft⟩
  · rw [history_host] at hhost
    have hafter : bounded.after start = free.after start :=
      World.ext htables.symm hhost.symm
    exact .inl ⟨hagree.eq.symm, hafter, hafter ▸ hle⟩
  · have hlength := length_checks m none passes p t s j
    have hlt := (List.getElem?_eq_some_iff.1 hget).1
    exact .inr ⟨he, hlength ▸ hlt, moment, hget, hleft⟩

/-- A run with fewer checks than passes is finished. -/
private theorem finished_of_checks_lt {limit : Option Nat} {passes : Nat}
    (hlt : ((interpret (m.host limit) passes p).after
      (.start t s j)).host.checks < passes) :
    (interpret (m.host limit) passes p).outcome (.start t s j) ≠
      .error .unfinished := by
  intro hend
  have hspent :=
    checks_of_unfinished (m.counts limit) passes p (.start t s j) hend
  have hzero : (World.start t s j).host.checks = 0 := rfl
  omega

/-- A run with leave for a number of checks ends. -/
theorem ends_bounded (n : Nat) :
    ∃ o w, Ends (m.host (some n)) p (.start t s j) o w := by
  refine ⟨_, _, n + 1, rfl, rfl, ?_⟩
  rcases same_or_cancelled m p t s j n (n + 1) with
    ⟨-, hafter, hle⟩ | ⟨hcancelled, -⟩
  · apply finished_of_checks_lt
    rw [hafter]
    exact Nat.lt_succ_of_le hle
  · rw [hcancelled]
    nofun

/-- A run with leave for `n` checks has the calls of one with leave for more, up
to some point. -/
private theorem calls_prefix_of_le (passes : Nat) {n k : Nat} (hnk : n ≤ k) :
    ((interpret (m.traced.host (some n)) passes p).after
      (.start t (.fresh s) j)).host.machine.calls <+:
      ((interpret (m.traced.host (some k)) passes p).after
        (.start t (.fresh s) j)).host.machine.calls := by
  let start : World (Rig (Traced μ ε)) := .start t (.fresh s) j
  have hstates : (Side.cancellingEarlier m hnk).states start.host start.host :=
    ⟨rfl, Nat.zero_le n⟩
  rcases (Side.cancellingEarlier m hnk).agree_or_cut passes p
    (Eq.refl start.tables) hstates with
    ⟨-, -, hhost, -⟩ | ⟨e, -, hcut⟩
  · rw [hhost]
  · exact hcut

/--
**Cancellation is a clean cut.** Let a program run with leave for ever, and with
leave for `n` checks. If the first run ends after at most `n` checks, the second
ends the same, to the last detail. If it does not, the second is cancelled, and
its tables and its calls are those of the first at its check number `n + 1`. In
any case the second run ends, and leave for more checks gives the same calls,
and perhaps more behind them.
-/
theorem interpret_cancelled (n : Nat) :
    let start : World (Rig (Traced μ ε)) := .start t (.fresh s) j
    let free := Ends (m.traced.host none) p start
    let bounded := fun n => Ends (m.traced.host (some n)) p start
    (∀ o w, free o w → w.host.checks ≤ n → bounded n o w) ∧
    ((∀ o w, free o w → n < w.host.checks) →
      ∃ w moment, bounded n (.error .cancelled) w ∧
        ChecksAt (m.traced.host none) p start n moment ∧
        w.tables = moment.tables ∧ w.host.machine = moment.host.machine) ∧
    (∃ o w, bounded n o w) ∧
    ∀ k o o' w w', n ≤ k → bounded n o w → bounded k o' w' →
      w.host.machine.calls <+: w'.host.machine.calls := by
  intro start free bounded
  refine ⟨?same, ?cancelled, ends_bounded m.traced p t (.fresh s) j n,
    ?prefixes⟩
  case same =>
    rintro o w ⟨passes, rfl, rfl, hend⟩ hle
    rcases same_or_cancelled m.traced p t (.fresh s) j n passes with
      ⟨houtcome, hafter, -⟩ | ⟨-, hlt, -⟩
    · exact ⟨passes, houtcome, hafter, hend⟩
    · exact absurd hle (Nat.not_le_of_lt hlt)
  case cancelled =>
    intro hmore
    -- so many passes that the bounded run cannot be out of them
    rcases same_or_cancelled m.traced p t (.fresh s) j n (n + 1) with
      ⟨-, -, hle⟩ | ⟨hcancelled, -, moment, hget, hleft⟩
    · have hend :=
        finished_of_checks_lt m.traced p t (.fresh s) j (Nat.lt_succ_of_le hle)
      exact absurd hle (Nat.not_le_of_lt (hmore _ _ ⟨n + 1, rfl, rfl, hend⟩))
    · exact ⟨_, moment, ⟨n + 1, hcancelled, rfl, nofun⟩, ⟨n + 1, hget⟩, hleft⟩
  case prefixes =>
    intro k o o' w w' hnk hn hk
    obtain ⟨enough₁, hn⟩ := hn.eventually
    obtain ⟨enough₂, hk⟩ := hk.eventually
    rw [← (hn (max enough₁ enough₂) (Nat.le_max_left _ _)).2,
      ← (hk (max enough₁ enough₂) (Nat.le_max_right _ _)).2]
    exact calls_prefix_of_le m p t s j _ hnk

end Cut

end Fixture
