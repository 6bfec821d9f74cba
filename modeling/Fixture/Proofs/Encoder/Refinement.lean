import Fixture.Proofs.Encoder.Actions
import Fixture.Proofs.Run.FailStop
/-!
# The encoder as a machine

A program does not know its machine: what it asks for is the same on a machine
that only writes the calls down and on the encoder. So the lines of an encoder
can be read off the calls, one call after the other. The encoder has one reason
of its own to fail. A move without speed has no flow, and then no line of it is
sent, not even its mode.

## Main results

* `Encoder.sends_act`: the lines of a call.
* `interpret_encoded`: a program on an encoder, read off its calls.
-/

namespace Fixture

open Run

namespace Call

/-- Whether a call is a move without speed. -/
def isStill : Call → Bool
  | .move _ m => m.speed == 0
  | _ => false

/-- The lines of a call. A move without a flow has none. -/
def lines (axes : Axes) : Call → List String
  | .home => ["G28 X,Z"]
  | .stop => ["M0"]
  | .wait seconds => ["G4 " ++ Encoder.number seconds]
  | .move axis m =>
    match Encoder.flow axes m.speed axis with
    | .error _ => []
    | .ok flow =>
      [if m.relative then "G91" else "G90",
        (match axis with
          | .linear => "G1 X"
          | .rotary =>
            "G1 Z") ++ Encoder.number m.distance ++ " F" ++ Encoder.number flow]

end Call

/-! ## Sending lines -/

namespace Encoder

/-- An encoder with a session that takes every line. -/
structure Open (axes : Axes) (e : Encoder) : Prop where
  axes_eq : e.axes = axes
  session_eq : e.session = true
  outlet : e.outlet.Sound

/-- An action that goes well and sends these lines. -/
def Sends (axes : Axes) (lines : List String) (a : Action) : Prop :=
  ∀ e, Open axes e →
    (a e).failure = none ∧ Open axes (a e).state ∧
    (a e).state.outlet.lines = e.outlet.lines ++ lines

variable {axes : Axes}

private theorem sends_send (line : String) : Sends axes [line] (send line) := by
  intro e h
  have hwriting : (e.session || e.displayed) = true := by
    rw [h.session_eq, Bool.true_or]
  rw [send_writing hwriting, Outlet.write_sound h.outlet]
  exact ⟨rfl, ⟨h.axes_eq, h.session_eq, h.outlet.wrote line⟩,
    Outlet.lines_wrote line e.outlet⟩

private theorem sends_setMode (relative : Bool) :
    Sends axes [modeCommand relative] (setMode relative) :=
  fun e h =>
    sends_send (modeCommand relative) { e with relative }
      ⟨h.axes_eq, h.session_eq, h.outlet⟩

private theorem sends_warn (axis : Axis) (value : Float) (relative : Bool) :
    Sends axes [] (warn axis value relative) :=
  fun _ h => ⟨rfl, h, (List.append_nil _).symm⟩

private theorem sends_andThen {lines lines' : List String}
    {first second : Action} (hfirst : Sends axes lines first)
    (hsecond : Sends axes lines' second) :
    Sends axes (lines ++ lines') (andThen first second) := by
  intro e h
  obtain ⟨hnone, hmiddle, hlines⟩ := hfirst e h
  obtain ⟨hnone', hend, hlines'⟩ := hsecond (first e).state hmiddle
  rw [andThen_of_none hnone]
  refine ⟨hnone', hend, ?_⟩
  show (second (first e).state).state.outlet.lines = _
  rw [hlines', hlines, List.append_assoc]

/-- **A call that is no still move goes well and sends its lines.** -/
theorem sends_act {c : Call} (hc : c.isStill = false) :
    Sends axes (c.lines axes) (act c) := by
  cases c with
  | home => exact sends_send _
  | stop => exact sends_send _
  | wait seconds => exact sends_send _
  | move axis m =>
      intro e h
      obtain ⟨f, hflow⟩ : ∃ f, flow axes m.speed axis = .ok f :=
        ⟨_, flow_eq_ok hc⟩
      have hlines : Call.lines axes (.move axis m) =
          [modeCommand m.relative] ++
            ([] ++ [moveCommand axis m.distance f]) := by
        simp only [Call.lines, hflow]
        rfl
      have hact : act (.move axis m) e = moveWith axis m f e :=
        move_of_ok (h.axes_eq ▸ hflow)
      rw [hact, hlines]
      exact sends_andThen (sends_setMode _)
        (sends_andThen (sends_warn _ _ _) (sends_send _)) e h

/-- **A still move does nothing but fail.** -/
theorem act_of_isStill {c : Call} (hc : c.isStill = true) (e : Encoder) :
    act c e = ⟨some .zeroSpeed, [], e⟩ := by
  cases c with
  | move axis m => exact move_of_error (flow_eq_error hc)
  | home => cases hc
  | stop => cases hc
  | wait seconds => cases hc

/-! ## Beside a recorder -/

/-- There is one way to split a list at the first element with a property. -/
private theorem split_unique {α : Type} {q : α → Bool}
    {before before' after after' : List α} {a a' : α}
    (hsplit : before ++ a :: after = before' ++ a' :: after')
    (hbefore : ∀ b ∈ before, q b = false) (ha : q a = true)
    (hbefore' : ∀ b ∈ before', q b = false) (ha' : q a' = true) :
    before = before' ∧ a = a' := by
  have htake : ∀ {xs : List α} (ys : List α) {x : α}, (∀ b ∈ xs, q b = false) →
      q x = true → (xs ++ x :: ys).takeWhile (fun b => !q b) = xs := by
    intro xs ys x hxs hx
    rw [List.takeWhile_append_of_pos (fun b hb => by rw [hxs b hb]; rfl),
      List.takeWhile_cons_of_neg (by simp [hx]), List.append_nil]
  obtain rfl : before = before' := by
    rw [← htake after hbefore ha, hsplit, htake after' hbefore' ha']
  exact ⟨rfl, (List.cons.inj (List.append_cancel_left hsplit)).1⟩

/-- A run on an encoder has been ended by the first still move among the calls
of the watched run. -/
def StoppedStill (axes : Axes) (s : History (Rig Recorder))
    (e : Halt EncoderError) (w : World (Rig Encoder)) : Prop :=
  e = .failure .zeroSpeed ∧
  ∃ before c after moment, s.host.machine.calls = before ++ c :: after ∧
    (∀ b ∈ before, b.isStill = false) ∧ c.isStill = true ∧
    w.host.machine.outlet.lines = before.flatMap (Call.lines axes) ∧
    (c, moment) ∈ s.calls ∧ moment.host.machine.calls = before ∧
    w.tables = moment.tables

private theorem StoppedStill.mono {s s' : History (Rig Recorder)}
    {e : Halt EncoderError} {w : World (Rig Encoder)}
    (h : StoppedStill axes s e w)
    (hrecord : s.host.machine.calls <+: s'.host.machine.calls)
    (hcalls : s.calls ⊆ s'.calls) : StoppedStill axes s' e w := by
  obtain ⟨he, before, c, after, moment, hsplit, hbefore, hc, hlines, hmem,
    hrest⟩ := h
  obtain ⟨rest, hrest'⟩ := hrecord
  refine ⟨he, before, c, after ++ rest, moment, ?_, hbefore, hc, hlines,
    hcalls hmem, hrest⟩
  rw [← hrest', hsplit, List.append_assoc, List.cons_append]

/-- A run on an encoder, beside a watched one on a recorder that never fails. -/
def recorded (axes : Axes) (error : EncoderError) (limit : Option Nat) :
    Side ((Recorder.machine error).host limit).watched
      (machine.host limit) where
  states s₁ s₂ :=
    s₁.host.machine.Sound ∧ Open axes s₂.machine ∧ s₁.host.checks = s₂.checks ∧
    (∀ c ∈ s₁.host.machine.calls, c.isStill = false) ∧
    s₂.machine.outlet.lines = s₁.host.machine.calls.flatMap (Call.lines axes)
  failures := Eq
  cut s₁ e w₂ := s₁.host.machine.Sound ∧ StoppedStill axes s₁ e w₂
  states_note _ hs := hs
  states_check {s₁ s₂} _ hs := by
    obtain ⟨hsound, hopen, hchecks, hrest⟩ := hs
    refine .inl ⟨?_, hsound, hopen, congrArg (· + 1) hchecks, hrest⟩
    show Machine.allows limit s₁.host.checks = Machine.allows limit s₂.checks
    rw [hchecks]
  states_perform {s₁ s₂} c t hs := by
    obtain ⟨hsound, hopen, hchecks, hmoving, hlines⟩ := hs
    have hsound' := (Recorder.clean error c).sound _ hsound
    have hact := Recorder.act_of_sound error c hsound
    have hcalls : ((Recorder.machine error).act c s₁.host.machine).state.calls =
        s₁.host.machine.calls ++ [c] := by
      rw [hact]
      exact List.reverse_cons
    cases hc : c.isStill with
    | false =>
        obtain ⟨hnone, hopen', hlines'⟩ := sends_act hc s₂.machine hopen
        refine .inl ⟨?_, hsound', hopen', hchecks, ?_, ?_⟩
        · show Option.Rel Eq
            ((Recorder.machine error).act c s₁.host.machine).failure
            (act c s₂.machine).failure
          rw [hact, hnone]
          exact .none
        · show ∀ b ∈
              ((Recorder.machine error).act c s₁.host.machine).state.calls,
            b.isStill = false
          rw [hcalls]
          intro b hb
          rcases List.mem_append.1 hb with hb | hb
          · exact hmoving b hb
          · rw [List.mem_singleton.1 hb, hc]
        · show (act c s₂.machine).state.outlet.lines =
            ((Recorder.machine error).act c s₁.host.machine).state.calls.flatMap
              (Call.lines axes)
          rw [hlines', hcalls, hlines, List.flatMap_append,
            List.flatMap_singleton]
    | true =>
        have hstill := act_of_isStill hc s₂.machine
        refine .inr ⟨.zeroSpeed, congrArg Reply.failure hstill, hsound', rfl,
          s₁.host.machine.calls, c, [], ⟨t, s₁.host⟩, hcalls, hmoving, hc, ?_,
          List.mem_append_right _ (List.mem_singleton_self _), rfl, rfl⟩
        show (act c s₂.machine).state.outlet.lines = _
        rw [hstill, ← hlines]
  cut_note _ hc := hc
  cut_check _ hc := hc
  cut_perform {s₁ _ _} c _ hc :=
    ⟨(Recorder.clean error c).sound _ hc.1,
      hc.2.mono ((Recorder.clean error c).grows _ hc.1)
        (List.subset_append_left _ _)⟩
  cut_told _ hc := nomatch hc.2.1

section Runs

variable (axes : Axes) (error : EncoderError) (limit : Option Nat)
    (passes : Nat) (p : Program) (t : Tables) (j : Journal)
    (displayed relative : Bool)

/-- A run on an encoder is the run on a recorder, or it was stopped by a still
move. -/
private theorem recorded_or_stopped :
    let recording := interpret ((Recorder.machine error).host limit) passes p
    let encoding := interpret (machine.host limit) passes p
    let recorder := World.start t (Recorder.fresh fun _ => false) j
    let encoder :=
      World.start t (Encoder.mk axes true displayed relative .reliable) j
    encoding.outcome encoder = recording.outcome recorder ∧
    (encoding.after encoder).tables = (recording.after recorder).tables ∧
    (∀ c ∈ (recording.after recorder).host.machine.calls, c.isStill = false) ∧
    (encoding.after encoder).host.machine.outlet.lines =
      (recording.after recorder).host.machine.calls.flatMap (Call.lines axes) ∨
    ∃ e, encoding.outcome encoder = .error e ∧
      StoppedStill axes
        (history ((Recorder.machine error).host limit) passes p recorder) e
        (encoding.after encoder) := by
  intro recording encoding recorder encoder
  have htables : recorder.tables = encoder.tables := rfl
  have hstates : (recorded axes error limit).states (.start recorder.host)
      encoder.host :=
    ⟨⟨rfl, rfl⟩, ⟨rfl, rfl, rfl, rfl⟩, rfl, (fun _ hc => nomatch hc), rfl⟩
  rcases (recorded axes error limit).agree_or_cut_watched passes p htables
    hstates with
    ⟨hagree, htables', -, -, -, hmoving, hlines⟩ | ⟨e, he, -, hstopped⟩
  · rw [history_host] at hmoving hlines
    exact .inl ⟨hagree.eq.symm, htables'.symm, hmoving, hlines⟩
  · exact .inr ⟨e, he, hstopped⟩

/-- Without still moves the runs are the same. -/
private theorem encoded_of_moving :
    let recording := interpret ((Recorder.machine error).host limit) passes p
    let encoding := interpret (machine.host limit) passes p
    let recorder := World.start t (Recorder.fresh fun _ => false) j
    let encoder :=
      World.start t (Encoder.mk axes true displayed relative .reliable) j
    (∀ c ∈ (recording.after recorder).host.machine.calls, c.isStill = false) →
    encoding.outcome encoder = recording.outcome recorder ∧
    (encoding.after encoder).tables = (recording.after recorder).tables ∧
    (encoding.after encoder).host.machine.outlet.lines =
      (recording.after recorder).host.machine.calls.flatMap
        (Call.lines axes) := by
  intro recording encoding recorder encoder hmoving
  rcases recorded_or_stopped axes error limit passes p t j displayed
    relative with
    ⟨houtcome, htables, -, hlines⟩ |
      ⟨e, -, -, before, c, after, moment, hsplit, -, hc, -⟩
  · exact ⟨houtcome, htables, hlines⟩
  · rw [history_host] at hsplit
    have hmem : c ∈ (recording.after recorder).host.machine.calls :=
      hsplit ▸ List.mem_append_right before List.mem_cons_self
    rw [hmoving c hmem] at hc
    cases hc

/-- The first still move stops the encoder. -/
private theorem stopped_of_still {before after : List Call} {c : Call} :
    let recording := (Recorder.machine error).host limit
    let encoding := interpret (machine.host limit) passes p
    let recorder := World.start t (Recorder.fresh fun _ => false) j
    let encoder :=
      World.start t (Encoder.mk axes true displayed relative .reliable) j
    ((interpret recording passes p).after recorder).host.machine.calls =
      before ++ c :: after → (∀ b ∈ before, b.isStill = false) →
    c.isStill = true →
    encoding.outcome encoder = .error (.failure .zeroSpeed) ∧
    (encoding.after encoder).host.machine.outlet.lines =
      before.flatMap (Call.lines axes) ∧
    ∃ moment, (c, moment) ∈ (history recording passes p recorder).calls ∧
      moment.host.machine.calls = before ∧
      (encoding.after encoder).tables = moment.tables := by
  intro recording encoding recorder encoder hsplit hbefore hc
  rcases recorded_or_stopped axes error limit passes p t j displayed
    relative with
    ⟨-, -, hmoving, -⟩ |
      ⟨e, he, rfl, before', c', after', moment, hsplit', hbefore', hc', hlines,
        hrest⟩
  · have hstill :=
      hmoving c (hsplit ▸ List.mem_append_right before List.mem_cons_self)
    rw [hc] at hstill
    cases hstill
  · rw [history_host] at hsplit'
    obtain ⟨rfl, rfl⟩ :=
      split_unique (hsplit.symm.trans hsplit') hbefore hc hbefore' hc'
    exact ⟨he, hlines, moment, hrest⟩

end Runs

end Encoder

/--
**The encoder does what its calls say.** Let a program run on a recorder that
never fails. If no call is a move without speed, the program ends on an encoder
if and only if it ends there, with the same outcome and the same tables, and the
lines are those of the calls, one after the other. The first move without speed
stops the encoder, with the lines of the calls before it and the tables of that
moment.
-/
theorem interpret_encoded (axes : Axes) (error : EncoderError)
    (limit : Option Nat) (p : Program) (t : Tables) (j : Journal)
    (displayed relative : Bool) :
    let recorder := World.start t (Recorder.fresh fun _ => false) j
    let recording := (Recorder.machine error).host limit
    let calls := fun passes =>
      ((interpret recording passes p).after recorder).host.machine.calls
    let encoder :=
      World.start t (Encoder.mk axes true displayed relative .reliable) j
    let encoding := Ends (Encoder.machine.host limit) p encoder
    ((∀ passes, ∀ c ∈ calls passes, c.isStill = false) →
      ∀ o t' lines,
        (∃ w, encoding o w ∧ w.tables = t' ∧
          w.host.machine.outlet.lines = lines) ↔
          ∃ w, Ends recording p recorder o w ∧ w.tables = t' ∧
            w.host.machine.calls.flatMap (Call.lines axes) = lines) ∧
    ∀ passes before c after, calls passes = before ++ c :: after →
      (∀ b ∈ before, b.isStill = false) → c.isStill = true →
      ∃ w moment, encoding (.error (.failure .zeroSpeed)) w ∧
        w.host.machine.outlet.lines = before.flatMap (Call.lines axes) ∧
        (c, moment) ∈ (history recording passes p recorder).calls ∧
        moment.host.machine.calls = before ∧ w.tables = moment.tables := by
  intro recorder recording calls encoder encoding
  constructor
  · intro hmoving o t' lines
    have hsame := fun passes =>
      Encoder.encoded_of_moving axes error limit passes p t j displayed relative
        (hmoving passes)
    constructor
    · rintro ⟨w, ⟨passes, rfl, rfl, hend⟩, rfl, rfl⟩
      obtain ⟨houtcome, htables, hlines⟩ := hsame passes
      exact ⟨_, ⟨passes, houtcome.symm, rfl, hend⟩, htables.symm, hlines.symm⟩
    · rintro ⟨w, ⟨passes, rfl, rfl, hend⟩, rfl, rfl⟩
      obtain ⟨houtcome, htables, hlines⟩ := hsame passes
      exact ⟨_, ⟨passes, houtcome, rfl, hend⟩, htables, hlines⟩
  · intro passes before c after hsplit hbefore hc
    obtain ⟨houtcome, hlines, moment, hrest⟩ :=
      Encoder.stopped_of_still axes error limit passes p t j displayed relative
        hsplit hbefore hc
    exact ⟨_, moment, ⟨passes, houtcome, rfl, nofun⟩, hlines, hrest⟩

end Fixture
