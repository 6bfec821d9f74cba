import Fixture.Proofs.Run.History
import Fixture.Proofs.Run.Passes
/-!
# Runs on machines that break down

A machine that works keeps a record: of its calls, or of the lines it has sent.
The same machine can be set to fail at one entry of the record. Then a program
runs as on the sound machine until that entry is due, and there it ends: with
the error of the machine, with the tables of that moment, and with nothing done
afterwards.

What is asked of a machine for this is a property of its single actions,
`Ledger.Clean`, that goes through actions in a row.

## Main results

* `Ledger.failStop`: a failure ends a run where it happens.
* `Recorder.clean`: a recorder fails cleanly.
-/

namespace Fixture

open Run

variable {μ ε β : Type}

/-- Changes the machine of a world. -/
def World.onMachine (f : μ → μ) (w : World (Rig μ)) : World (Rig μ) :=
  { w with host := { w.host with machine := f w.host.machine } }

/-- Changes the machine in a reply. -/
def Reply.onState (f : μ → μ) (r : Reply μ ε) : Reply μ ε :=
  { r with state := f r.state }

/-- How a machine keeps a record of what it has done, and how it can be set to
fail. -/
structure Ledger (μ ε β : Type) where
  /-- What was done, in order. -/
  record : μ → List β
  /-- How often an entry was due, done or failed. -/
  attempts : μ → Nat
  /-- The machine set to fail at entry number `n + 1`. -/
  failing : Nat → μ → μ
  /-- The error for an entry that fails. -/
  error : β → ε

namespace Ledger

variable (L : Ledger μ ε β)

/-- An action has failed at entry number `n + 1` of what the sound machine
does. -/
def Broken (n : Nat) (sound failed : Reply μ ε) : Prop :=
  ∃ b, (L.record sound.state)[n]? = some b ∧ failed.failure = some (L.error b) ∧
    L.record failed.state = (L.record sound.state).take n ∧
    L.attempts failed.state = n + 1

/-- An action that only adds to the record, and that fails at a due entry, with
all entries before it done. -/
structure Clean (Sound : μ → Prop) (act : μ → Reply μ ε) : Prop where
  sound : ∀ s, Sound s → Sound (act s).state
  grows : ∀ s, Sound s → L.record s <+: L.record (act s).state
  breaks : ∀ s n, Sound s → (L.record s).length ≤ n →
    (L.record (act s).state).length ≤ n ∧
    act (L.failing n s) = (act s).onState (L.failing n) ∨
    L.Broken n (act s) (act (L.failing n s))

/-- A call was made at this moment, and entry number `n + 1` was due in it. -/
def Due (m : Machine μ ε) (n : Nat) (c : Call) (moment : Moment (Rig μ)) :
    Prop :=
  (L.record moment.host.machine).length ≤ n ∧
  n < (L.record (m.act c moment.host.machine).state).length

/-- A run on a sound machine beside one that fails at entry number `n + 1`. -/
structure FailStop (m : Machine μ ε) (limit : Option Nat) (p : Program)
    (start : World (Rig μ)) (n : Nat) : Prop where
  /-- If the sound run never gets as far as that entry, the runs are the
  same. -/
  same : (∀ passes,
    (L.record
      ((interpret (m.host limit) passes p).after start).host.machine).length ≤
      n) →
    ∀ o w', Ends (m.host limit) p (start.onMachine (L.failing n)) o w' ↔
      ∃ w, Ends (m.host limit) p start o w ∧ w' = w.onMachine (L.failing n)
  /-- If it does, the other run ends there: with the error for that entry, with
  the entries before it and none behind it, and with the tables that the sound
  run has when it makes the call in which the entry is due. -/
  stops : ∀ passes b,
    (L.record
      ((interpret (m.host limit) passes p).after start).host.machine)[n]? =
      some b →
    ∃ w,
      Ends (m.host limit) p (start.onMachine (L.failing n))
        (.error (.failure (L.error b))) w ∧
      L.record w.host.machine =
        (L.record
          ((interpret (m.host limit) passes p).after start).host.machine).take
          n ∧ L.attempts w.host.machine = n + 1 ∧
      ∃ c moment, (c, moment) ∈ (history (m.host limit) passes p start).calls ∧
        L.Due m n c moment ∧ w.tables = moment.tables

variable {L} {Sound : μ → Prop} {m : Machine μ ε}

/-- An action that does at each state what some clean action does. -/
theorem Clean.of_pointwise {act : μ → Reply μ ε}
    (h : ∀ s, ∃ act', L.Clean Sound act' ∧ act s = act' s ∧
      ∀ n, act (L.failing n s) = act' (L.failing n s)) : L.Clean Sound act where
  sound s hs := by
    obtain ⟨act', hclean, hact, -⟩ := h s
    rw [hact]
    exact hclean.sound s hs
  grows s hs := by
    obtain ⟨act', hclean, hact, -⟩ := h s
    rw [hact]
    exact hclean.grows s hs
  breaks s n hs hle := by
    obtain ⟨act', hclean, hact, hfailing⟩ := h s
    rw [hact, hfailing]
    exact hclean.breaks s n hs hle

theorem getElem?_eq_of_prefix {xs ys : List β} {n : Nat} {b : β} (h : xs <+: ys)
    (hget : xs[n]? = some b) : ys[n]? = some b ∧ ys.take n = xs.take n := by
  obtain ⟨rest, rfl⟩ := h
  have hlt := (List.getElem?_eq_some_iff.1 hget).1
  exact ⟨getElem?_append_of_some hget rest,
    List.take_append_of_le_length (Nat.le_of_lt hlt)⟩

/-! ## Beside a sound machine -/

/-- A run has been ended by the failure of an entry that the watched run went
past. -/
def Stopped (L : Ledger μ ε β) (m : Machine μ ε) (n : Nat) (s : History (Rig μ))
    (e : Halt ε) (w : World (Rig μ)) : Prop :=
  ∃ b, e = .failure (L.error b) ∧ (L.record s.host.machine)[n]? = some b ∧
    L.record w.host.machine = (L.record s.host.machine).take n ∧
    L.attempts w.host.machine = n + 1 ∧
    ∃ c moment, (c, moment) ∈ s.calls ∧ L.Due m n c moment ∧
      w.tables = moment.tables

/-- A run stays stopped while the watched run adds to its record and its
calls. -/
private theorem Stopped.mono {n : Nat} {s s' : History (Rig μ)} {e : Halt ε}
    {w : World (Rig μ)} (h : Stopped L m n s e w)
    (hrecord : L.record s.host.machine <+: L.record s'.host.machine)
    (hcalls : s.calls ⊆ s'.calls) : Stopped L m n s' e w := by
  obtain ⟨b, he, hget, hleft, hattempts, c, moment, hmem, hrest⟩ := h
  obtain ⟨hget', htake⟩ := getElem?_eq_of_prefix hrecord hget
  exact ⟨b, he, hget', hleft.trans htake.symm, hattempts, c, moment,
    hcalls hmem, hrest⟩

/-- A run on a machine that fails at entry number `n + 1`, beside a watched one
on the sound machine. -/
def breaking (hL : ∀ c, L.Clean Sound (m.act c)) (limit : Option Nat)
    (n : Nat) : Side (m.host limit).watched (m.host limit) where
  states s₁ s₂ :=
    Sound s₁.host.machine ∧ (L.record s₁.host.machine).length ≤ n ∧
    s₂ = { s₁.host with machine := L.failing n s₁.host.machine }
  failures := Eq
  cut s₁ e w₂ := Sound s₁.host.machine ∧ Stopped L m n s₁ e w₂
  states_note note hs := by
    obtain ⟨hsound, hle, rfl⟩ := hs
    exact ⟨hsound, hle, rfl⟩
  states_check t hs := by
    obtain ⟨hsound, hle, rfl⟩ := hs
    exact .inl ⟨rfl, hsound, hle, rfl⟩
  states_perform {s₁ s₂} c t hs := by
    obtain ⟨hsound, hle, rfl⟩ := hs
    have hsound' := (hL c).sound _ hsound
    rcases (hL c).breaks _ n hsound hle with
      ⟨hle', hact⟩ | ⟨b, hget, hfailure, hrecord, hattempts⟩
    · refine .inl ⟨?_, hsound', hle', ?_⟩
      · show Option.Rel Eq (m.act c s₁.host.machine).failure
          (m.act c (L.failing n s₁.host.machine)).failure
        rw [hact]
        exact rel_refl _
      · show Rig.mk (m.act c (L.failing n s₁.host.machine)).state s₁.host.checks
            (s₁.host.journal.addAll
              (m.act c (L.failing n s₁.host.machine)).entries) = _
        rw [hact]
        rfl
    · have hdue : L.Due m n c ⟨t, s₁.host⟩ :=
        ⟨hle, (List.getElem?_eq_some_iff.1 hget).1⟩
      have hmem : (c, Moment.mk t s₁.host) ∈
          s₁.calls ++ [(c, Moment.mk t s₁.host)] := by simp
      exact .inr ⟨L.error b, hfailure, hsound', b, rfl, hget, hrecord,
        hattempts, c, _, hmem, hdue, rfl⟩
  cut_note _ hc := hc
  cut_check _ hc := hc
  cut_perform {s₁ _ _} c _ hc :=
    ⟨(hL c).sound _ hc.1,
      hc.2.mono ((hL c).grows _ hc.1) (List.subset_append_left _ _)⟩
  cut_told {_ _} _ hc := by
    obtain ⟨-, b, he, -⟩ := hc
    cases he

/-- A run on a machine set to fail is the run on the sound one, or it was
stopped. -/
theorem same_or_stopped (hL : ∀ c, L.Clean Sound (m.act c)) (limit : Option Nat)
    (n passes : Nat) (p : Program) (start : World (Rig μ))
    (hsound : Sound start.host.machine)
    (hle : (L.record start.host.machine).length ≤ n) :
    let run := interpret (m.host limit) passes p
    let failing := start.onMachine (L.failing n)
    run.outcome failing = run.outcome start ∧
    run.after failing = (run.after start).onMachine (L.failing n) ∧
    (L.record (run.after start).host.machine).length ≤ n ∨
    ∃ e, run.outcome failing = .error e ∧
      Stopped L m n (history (m.host limit) passes p start) e
        (run.after failing) := by
  intro run failing
  have htables : start.tables = failing.tables := rfl
  have hstates : (breaking hL limit n).states (.start start.host)
      failing.host := ⟨hsound, hle, rfl⟩
  rcases (breaking hL limit n).agree_or_cut_watched passes p htables
    hstates with
    ⟨hagree, htables', -, hle', hhost⟩ | ⟨e, he, -, hstopped⟩
  · rw [history_host] at hle' hhost
    exact .inl ⟨hagree.eq.symm, World.ext htables'.symm hhost, hle'⟩
  · exact .inr ⟨e, he, hstopped⟩

/-- **A failure ends a run where it happens.** -/
theorem failStop (hL : ∀ c, L.Clean Sound (m.act c)) (limit : Option Nat)
    (p : Program) (start : World (Rig μ)) (n : Nat)
    (hsound : Sound start.host.machine)
    (hle : (L.record start.host.machine).length ≤ n) :
    L.FailStop m limit p start n where
  same hshort o w' := by
    have hcase : ∀ passes,
        (interpret (m.host limit) passes p).outcome
            (start.onMachine (L.failing n)) =
          (interpret (m.host limit) passes p).outcome start ∧
        (interpret (m.host limit) passes p).after
            (start.onMachine (L.failing n)) =
          ((interpret (m.host limit) passes p).after start).onMachine
            (L.failing n) := by
      intro passes
      rcases same_or_stopped hL limit n passes p start hsound hle with
        ⟨houtcome, hafter, -⟩ | ⟨e, -, b, -, hget, -⟩
      · exact ⟨houtcome, hafter⟩
      · rw [history_host] at hget
        exact absurd (hshort passes)
          (Nat.not_le_of_lt (List.getElem?_eq_some_iff.1 hget).1)
    constructor
    · rintro ⟨passes, rfl, rfl, hend⟩
      obtain ⟨houtcome, hafter⟩ := hcase passes
      exact ⟨_, ⟨passes, houtcome.symm, rfl, hend⟩, hafter⟩
    · rintro ⟨w, ⟨passes, rfl, rfl, hend⟩, rfl⟩
      obtain ⟨houtcome, hafter⟩ := hcase passes
      exact ⟨passes, houtcome, hafter, hend⟩
  stops passes b hget := by
    rcases same_or_stopped hL limit n passes p start hsound hle with
      ⟨-, -, hshort⟩ | ⟨e, he, b', rfl, hget', hrecord, hrest⟩
    · exact absurd hshort
        (Nat.not_le_of_lt (List.getElem?_eq_some_iff.1 hget).1)
    · rw [history_host] at hget' hrecord
      obtain rfl : b = b' := Option.some.inj (hget.symm.trans hget')
      exact ⟨_, ⟨passes, he, rfl, nofun⟩, hrecord, hrest⟩

end Ledger

/-! ## Recorders -/

namespace Recorder

/-- The calls of a recorder, and a recorder that fails at one of them. -/
def ledger (error : ε) : Ledger Recorder ε Call where
  record := calls
  attempts := attempts
  failing n r := { r with fails := (· == n + 1) }
  error _ := error

/-- A recorder that never fails, and has tried what it has done. -/
def Sound (r : Recorder) : Prop :=
  r.fails = (fun _ => false) ∧ r.attempts = r.newest.length

theorem act_of_sound (error : ε) (c : Call) {r : Recorder} (h : r.Sound) :
    (machine error).act c r =
      ⟨none, [],
        { r with attempts := r.attempts + 1, newest := c :: r.newest }⟩ := by
  show (if r.fails (r.attempts + 1) = true then _ else _) = _
  rw [h.1]
  rfl

/-- **A recorder fails cleanly.** -/
theorem clean (error : ε) (c : Call) :
    (ledger error).Clean Sound ((machine error).act c) where
  sound r h := by
    rw [act_of_sound error c h]
    exact ⟨h.1, congrArg (· + 1) h.2⟩
  grows r h := by
    rw [act_of_sound error c h]
    show r.newest.reverse <+: (c :: r.newest).reverse
    rw [List.reverse_cons]
    exact List.prefix_append _ _
  breaks r n h hle := by
    have hlength : r.newest.length ≤ n := by
      rw [← List.length_reverse]
      exact hle
    have hattempts := h.2
    rw [act_of_sound error c h]
    -- the recorder set to fail looks at the number of the call
    rcases Nat.lt_or_eq_of_le hlength with hlt | heq
    · have hnumber : (r.attempts + 1 == n + 1) = false :=
        beq_false_of_ne (by omega)
      refine .inl ⟨?_, ?_⟩
      · show (c :: r.newest).reverse.length ≤ n
        rw [List.length_reverse]
        exact hlt
      · show (if (r.attempts + 1 == n + 1) = true then _ else _) = _
        rw [hnumber]
        rfl
    · have hnumber : (r.attempts + 1 == n + 1) = true := beq_iff_eq.2 (by omega)
      have hact : (machine error).act c ((ledger error).failing n r) =
          ⟨some error, [],
            { r with fails := (· == n + 1), attempts := r.attempts + 1 }⟩ := by
        show (if (r.attempts + 1 == n + 1) = true then _ else _) = _
        rw [hnumber]
        rfl
      have hrecord : (c :: r.newest).reverse = r.newest.reverse ++ [c] :=
        List.reverse_cons
      have hlen : r.newest.reverse.length = n := by
        rw [List.length_reverse, heq]
      rw [hact]
      refine .inr ⟨c, ?_, rfl, ?_, ?_⟩
      · show (c :: r.newest).reverse[n]? = some c
        rw [hrecord, ← hlen, List.getElem?_concat_length]
      · show r.newest.reverse = (c :: r.newest).reverse.take n
        rw [hrecord, ← hlen, List.take_left]
      · show r.attempts + 1 = n + 1
        rw [hattempts, heq]

end Recorder

end Fixture
