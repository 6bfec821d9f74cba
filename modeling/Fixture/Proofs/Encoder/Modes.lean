import Fixture.Proofs.Encoder.Actions
/-!
# Distance modes

The controller keeps the distance mode of the last mode line that it got, and
takes every move in that mode. The encoder has a flag for the mode that was last
asked for, and the two part ways as soon as a mode line is lost on its way. So a
move can not rely on the flag. It sends its own mode, and does not go on if that
line could not be written: whatever was lost before, a move that reaches the
controller has its mode right in front of it.

Commands come in any order here, and go on after failures. What the encoder
tried to send is on record in the entries that it leaves, also where the line
was lost; `attempted` reads it off. The outlet has the lines that were not lost.

## Main results

* `Encoder.lines_move`: how much of a move can reach the outlet.
* `Encoder.fronted_action`, `Encoder.tracked_action`: what one command adds, to
  the outlet and to what was tried.
* `mode_precedes_move`: moves have their mode in front of them, and the flag is
  the mode last attempted.
-/

namespace Fixture

/-! ## Modes of lines -/

/-- The distance mode that a line sets, if it sets one. -/
def modeOf? (line : String) : Option Bool :=
  if line = "G91" then some true else if line = "G90" then some false else none

/-- The distance mode that lines leave behind: that of the last mode line, and
absolute without one. -/
def lastMode (lines : List String) : Bool :=
  (lines.filterMap modeOf?).getLast?.getD false

/-- Lines that move an axis. -/
def IsMoveLine (line : String) : Prop := "G1 ".toList <+: line.toList

private theorem lastMode_concat (lines : List String) (line : String) :
    lastMode (lines ++ [line]) = (modeOf? line).getD (lastMode lines) := by
  unfold lastMode
  cases hmode : modeOf? line with
  | none =>
      rw [List.filterMap_append, List.filterMap_cons_none hmode,
        List.filterMap_nil, List.append_nil]
      rfl
  | some relative =>
      rw [List.filterMap_append, List.filterMap_cons_some hmode,
        List.filterMap_nil, List.getLast?_concat]
      rfl

private theorem modeOf?_modeCommand (relative : Bool) :
    modeOf? (Encoder.modeCommand relative) = some relative := by
  cases relative <;> decide

/-- A text that begins otherwise sets no mode. -/
private theorem modeOf?_append {front : String}
    (h₁ : ¬ front.toList <+: "G91".toList)
    (h₂ : ¬ front.toList <+: "G90".toList) (back : String) :
    modeOf? (front ++ back) = none := by
  have hne {line : String} (h : ¬ front.toList <+: line.toList) :
      front ++ back ≠ line := by
    rintro rfl
    exact h (by rw [String.toList_append]; exact List.prefix_append _ _)
  rw [modeOf?, if_neg (hne h₁), if_neg (hne h₂)]

private theorem modeOf?_moveCommand (axis : Axis) (value flow : Float) :
    modeOf? (Encoder.moveCommand axis value flow) = none := by
  cases axis with
  | linear =>
      show modeOf? ("G1 X" ++ _ ++ _ ++ _) = none
      rw [String.append_assoc, String.append_assoc]
      exact modeOf?_append (by decide) (by decide) _
  | rotary =>
      show modeOf? ("G1 Z" ++ _ ++ _ ++ _) = none
      rw [String.append_assoc, String.append_assoc]
      exact modeOf?_append (by decide) (by decide) _

/-- A text moves an axis only if it begins that way. -/
private theorem not_isMoveLine_append {front : String}
    (h : ¬ front.toList <+: "G1 ".toList ∧ ¬ "G1 ".toList <+: front.toList)
    (back : String) : ¬ IsMoveLine (front ++ back) := by
  intro hmove
  rw [IsMoveLine, String.toList_append] at hmove
  rcases List.prefix_or_prefix_of_prefix hmove
    (List.prefix_append front.toList back.toList) with hp | hp
  · exact h.2 hp
  · exact h.1 hp

private theorem not_isMoveLine_modeCommand (relative : Bool) :
    ¬ IsMoveLine (Encoder.modeCommand relative) := by
  unfold IsMoveLine
  cases relative <;> decide

/-! ## Lines that are lost -/

/-- The lines that an outlet with this pattern of failures takes. -/
def survivors (fails : Nat → Bool) (attempted : List String) : List String :=
  (attempted.zipIdx 1).filterMap fun x => if fails x.2 then none else some x.1

private theorem survivors_concat (fails : Nat → Bool) (attempted : List String)
    (line : String) :
    survivors fails (attempted ++ [line]) =
      survivors fails attempted ++
        if fails (attempted.length + 1) then [] else [line] := by
  unfold survivors
  rw [List.zipIdx_append, List.filterMap_append, List.zipIdx_singleton,
    Nat.add_comm 1]
  cases hfails : fails (attempted.length + 1) with
  | true =>
      rw [List.filterMap_cons_none (by rw [hfails]; rfl)]
      rfl
  | false =>
      rw [List.filterMap_cons_some (by rw [hfails]; rfl)]
      rfl

/-- An outlet after a line, lost or not. -/
private theorem Outlet.after_write (o : Outlet) (line : String) :
    (o.write line).2.fails = o.fails ∧
    (o.write line).2.attempts = o.attempts + 1 ∧
    (o.write line).2.lines =
      o.lines ++ if o.fails (o.attempts + 1) then [] else [line] := by
  cases hfails : o.fails (o.attempts + 1) with
  | true => simp [write, lines, hfails]
  | false => simp [write, lines, hfails]

/-- If no mode line is lost, the lines that are left set the same modes. -/
private theorem filterMap_survivors {fails : Nat → Bool}
    {attempted : List String}
    (h : ∀ n line, attempted[n]? = some line → (modeOf? line).isSome = true →
      fails (n + 1) = false) :
    (survivors fails attempted).filterMap modeOf? =
      attempted.filterMap modeOf? := by
  induction attempted using List.reverseRecOn with
  | nil => rfl
  | append_singleton attempted line ih =>
      have hbefore := ih fun n l hget => h n l (by
        rw [List.getElem?_append_left (List.getElem?_eq_some_iff.1 hget).1]
        exact hget)
      have hlast := h attempted.length line List.getElem?_concat_length
      rw [survivors_concat, List.filterMap_append, List.filterMap_append,
        hbefore]
      cases hmode : modeOf? line with
      | none => cases fails (attempted.length + 1) <;> simp [hmode]
      | some relative =>
          rw [hlast (by rw [hmode]; rfl)]
          rfl

/-! ## Commands -/

/-- The line that an entry of an encoder is about. -/
def Entry.line? (x : Entry) : Option String :=
  match x.attributes.lookup "cmd" with
  | some (.text line) => some line
  | _ => none

namespace Encoder

/-- What an encoder can be asked for: a call, or a distance mode by itself. -/
inductive Command where
  | call (c : Call)
  | mode (relative : Bool)

/-- The action for a command. -/
def Command.action : Command → Action
  | .call c => act c
  | .mode relative => setMode relative

/-- The encoder after commands in a row, whichever of them fail. -/
def afterAll (e : Encoder) (cs : List Command) : Encoder :=
  cs.foldl (fun e c => (c.action e).state) e

/-- The lines that an action tries to send, written or not. -/
def tried (a : Action) (e : Encoder) : List String :=
  (a e).entries.filterMap Entry.line?

/-- The lines that commands in a row try to send. -/
def attempted (e : Encoder) : List Command → List String
  | [] => []
  | c :: cs => tried c.action e ++ attempted (c.action e).state cs

private theorem afterAll_concat (e : Encoder) (cs : List Command)
    (c : Command) :
    e.afterAll (cs ++ [c]) = (c.action (e.afterAll cs)).state := by
  rw [afterAll, List.foldl_append]
  rfl

private theorem attempted_concat (e : Encoder) (cs : List Command)
    (c : Command) :
    attempted e (cs ++ [c]) =
      attempted e cs ++ tried c.action (e.afterAll cs) := by
  induction cs generalizing e with
  | nil => exact List.append_nil _
  | cons d cs ih =>
      rw [List.cons_append, attempted, attempted, ih, List.append_assoc]
      rfl

/-! ## What reaches the outlet -/

/-- Whether an encoder has anything to write to. -/
def writing (e : Encoder) : Bool := e.session || e.displayed

/-- A line that is sent reaches the outlet or not, and if there is an outlet,
only a failure keeps it away. -/
private theorem lines_send (line : String) (e : Encoder) :
    (send line e).state.outlet.lines = e.outlet.lines ++ [line] ∨
    (send line e).state.outlet.lines = e.outlet.lines ∧
    (e.writing = true → (send line e).failure ≠ none) := by
  cases hw : e.writing with
  | false =>
      rw [send_silent hw]
      exact .inr ⟨rfl, Bool.noConfusion⟩
  | true =>
      rw [send_writing hw, Outlet.write]
      cases e.outlet.fails (e.outlet.attempts + 1) with
      | true => exact .inr ⟨rfl, fun _ => Option.some_ne_none _⟩
      | false => exact .inl List.reverse_cons

private theorem writing_send (line : String) (e : Encoder) :
    (send line e).state.writing = e.writing := by
  cases hw : e.writing with
  | false =>
      rw [send_silent hw]
      exact hw
  | true =>
      rw [send_writing hw]
      exact hw

/-- **Nothing, the mode, or the mode and the move:** that is what can reach the
outlet of a move. -/
theorem lines_move (axis : Axis) (m : Motion) (e : Encoder) :
    (move axis m e).state.outlet.lines = e.outlet.lines ∨
    (move axis m e).state.outlet.lines =
      e.outlet.lines ++ [modeCommand m.relative] ∨
    ∃ f, (move axis m e).state.outlet.lines =
      e.outlet.lines ++
        [modeCommand m.relative, moveCommand axis m.distance f] := by
  cases hflow : flow e.axes m.speed axis with
  | error err =>
      rw [move_of_error hflow]
      exact .inl rfl
  | ok f =>
      rw [move_of_ok hflow, moveWith]
      have hmode :=
        lines_send (modeCommand m.relative) { e with relative := m.relative }
      cases hfailure : (setMode m.relative e).failure with
      | some err =>
          rw [andThen_of_failure hfailure]
          exact hmode.elim (fun h => .inr (.inl h)) fun h => .inl h.1
      | none =>
          rw [andThen_of_none hfailure, andThen_of_none rfl]
          have hline := lines_send (moveCommand axis m.distance f)
            (setMode m.relative e).state
          rcases hmode with hsent | ⟨hsame, hlost⟩
          · rcases hline with h | ⟨h, -⟩
            · exact .inr (.inr
                ⟨f, h.trans (by rw [setMode, hsent, List.append_assoc]; rfl)⟩)
            · exact .inr (.inl (h.trans hsent))
          · -- the mode went well without reaching an outlet, so there is none
            have hsilent : (setMode m.relative e).state.writing = false := by
              rw [setMode, writing_send]
              exact Bool.eq_false_iff.2 fun hw => hlost hw hfailure
            refine .inl ?_
            show (send _ (setMode m.relative e).state).state.outlet.lines = _
            rw [send_silent hsilent]
            exact hsame

/-- Of these lines of a command, one that moves an axis is the last of two,
behind the mode of the move. -/
def Fronted (c : Command) (new : List String) : Prop :=
  ∀ front line back, new = front ++ line :: back → IsMoveLine line →
    ∃ axis m f, c = .call (.move axis m) ∧ front = [modeCommand m.relative] ∧
      line = moveCommand axis m.distance f ∧ back = []

private theorem fronted_of_none {new : List String}
    (h : ∀ line ∈ new, ¬ IsMoveLine line) (c : Command) : Fronted c new := by
  rintro front line back rfl hline
  exact absurd hline (h line (by simp))

private theorem fronted_send {line : String} (h : ¬ IsMoveLine line)
    (c : Command) (e : Encoder) :
    ∃ new, (send line e).state.outlet.lines = e.outlet.lines ++ new ∧
      Fronted c new := by
  rcases lines_send line e with hsent | ⟨hsame, -⟩
  · exact ⟨[line], hsent, fronted_of_none (by simpa using h) c⟩
  · exact ⟨[], hsame.trans (List.append_nil _).symm,
      fronted_of_none (by simp) c⟩

private theorem fronted_move (axis : Axis) (m : Motion) (e : Encoder) :
    ∃ new, (move axis m e).state.outlet.lines = e.outlet.lines ++ new ∧
      Fronted (.call (.move axis m)) new := by
  have hmode := not_isMoveLine_modeCommand m.relative
  rcases lines_move axis m e with h | h | ⟨f, h⟩
  · exact ⟨[], h.trans (List.append_nil _).symm, fronted_of_none (by simp) _⟩
  · exact ⟨_, h, fronted_of_none (by simpa using hmode) _⟩
  · refine ⟨_, h, fun front line back hsplit hline => ?_⟩
    cases front with
    | nil =>
        rw [(List.cons.inj hsplit).1] at hmode
        exact absurd hline hmode
    | cons first front =>
        obtain ⟨rfl, hrest⟩ := List.cons.inj hsplit
        obtain ⟨hnil, hone⟩ | ⟨rest, -, hmore⟩ :=
          List.cons_eq_append_iff.1 hrest
        · obtain ⟨hline', hback⟩ := List.cons.inj hone
          exact ⟨axis, m, f, rfl, by rw [hnil], hline', hback⟩
        · exact absurd hmore (by simp)

/-- **One command:** the lines that it adds. -/
theorem fronted_action (c : Command) (e : Encoder) :
    ∃ new, (c.action e).state.outlet.lines = e.outlet.lines ++ new ∧
      Fronted c new := by
  match c with
  | .mode relative =>
      exact fronted_send (not_isMoveLine_modeCommand relative) _
        { e with relative }
  | .call .home => exact fronted_send (by unfold IsMoveLine; decide) _ e
  | .call .stop => exact fronted_send (by unfold IsMoveLine; decide) _ e
  | .call (.wait seconds) =>
      exact fronted_send (not_isMoveLine_append (by decide) _) _ e
  | .call (.move axis m) => exact fronted_move axis m e

/-- **Commands in a row:** a line that moves an axis comes from a move, which
sent its mode right before. -/
theorem fronted_afterAll {e : Encoder} (he : e.outlet.lines = [])
    (cs : List Command) :
    ∀ front line back, (e.afterAll cs).outlet.lines = front ++ line :: back →
      IsMoveLine line →
      ∃ before axis m f after, cs = before ++ .call (.move axis m) :: after ∧
        front = (e.afterAll before).outlet.lines ++ [modeCommand m.relative] ∧
        line = moveCommand axis m.distance f ∧
        (e.afterAll (before ++ [.call (.move axis m)])).outlet.lines =
          front ++ [line] := by
  induction cs using List.reverseRecOn with
  | nil =>
      intro front line back hlines
      rw [show e.afterAll [] = e from rfl, he] at hlines
      exact absurd hlines (by simp)
  | append_singleton cs c ih =>
      intro front line back hlines hline
      obtain ⟨new, hnew, hfronted⟩ := fronted_action c (e.afterAll cs)
      rw [afterAll_concat, hnew] at hlines
      rcases List.append_eq_append_iff.1 hlines with
        ⟨front', rfl, hsplit⟩ | ⟨back', hold, hback⟩
      · -- the line is one of the last command
        obtain ⟨axis, m, f, rfl, rfl, rfl, rfl⟩ :=
          hfronted front' line back hsplit hline
        refine ⟨cs, axis, m, f, [], rfl, rfl, rfl, ?_⟩
        rw [afterAll_concat, hnew, hsplit, List.append_assoc]
      · cases back' with
        | nil =>
            obtain ⟨axis, m, f, -, hbad, -⟩ :=
              hfronted [] line back hback.symm hline
            exact absurd hbad (by simp)
        | cons l back' =>
            obtain ⟨rfl, -⟩ := List.cons.inj hback
            obtain ⟨before, axis, m, f, after, rfl, hrest⟩ :=
              ih front line back' hold hline
            exact ⟨before, axis, m, f, after ++ [c], by simp, hrest⟩

/-! ## The flag -/

/-- The flag of an encoder that has tried these lines is the mode of the last of
them, and its outlet has those that were not lost. -/
structure Tracks (writes : Bool) (fails : Nat → Bool) (lines : List String)
    (e : Encoder) : Prop where
  relative : e.relative = lastMode lines
  writing : e.writing = writes
  outlet : writes = true →
    e.outlet.fails = fails ∧ e.outlet.attempts = lines.length ∧
    e.outlet.lines = survivors fails lines

variable {writes : Bool} {fails : Nat → Bool}

/-- An action that keeps track of what it tries. -/
def Tracked (writes : Bool) (fails : Nat → Bool) (a : Action) : Prop :=
  ∀ lines e, Tracks writes fails lines e →
    Tracks writes fails (lines ++ tried a e) (a e).state

private theorem tried_send (line : String) (e : Encoder) :
    tried (send line) e = [line] := by
  cases hw : e.writing with
  | false =>
      rw [tried, send_silent hw]
      rfl
  | true =>
      rw [tried, send_writing hw]
      cases e.session <;> rfl

/-- A line that is sent is tracked, if the flag is what it is to be behind the
line. -/
private theorem tracks_send {line : String} {lines : List String} {e : Encoder}
    (hrelative : e.relative = (modeOf? line).getD (lastMode lines))
    (hwriting : e.writing = writes)
    (houtlet : writes = true →
      e.outlet.fails = fails ∧ e.outlet.attempts = lines.length ∧
      e.outlet.lines = survivors fails lines) :
    Tracks writes fails (lines ++ tried (send line) e) (send line e).state := by
  rw [tried_send]
  have hlast := hrelative.trans (lastMode_concat lines line).symm
  cases writes with
  | false =>
      rw [send_silent hwriting]
      exact ⟨hlast, hwriting, Bool.noConfusion⟩
  | true =>
      obtain ⟨hfails, hattempts, hlines⟩ := houtlet rfl
      rw [send_writing hwriting]
      refine ⟨hlast, hwriting, fun _ => ?_⟩
      rw [survivors_concat, ← hlines, List.length_append, List.length_singleton,
        ← hattempts, ← hfails]
      exact Outlet.after_write e.outlet line

private theorem tracked_send {line : String} (h : modeOf? line = none) :
    Tracked writes fails (send line) :=
  fun _ _ he => tracks_send (by rw [h]; exact he.relative) he.writing he.outlet

private theorem tracked_setMode (relative : Bool) :
    Tracked writes fails (setMode relative) :=
  fun _ e he =>
    tracks_send (e := { e with relative }) (by rw [modeOf?_modeCommand]; rfl)
      he.writing he.outlet

private theorem tracked_warn (axis : Axis) (value : Float) (relative : Bool) :
    Tracked writes fails (warn axis value relative) := by
  intro lines e he
  have hnone : tried (warn axis value relative) e = [] := by
    unfold tried warn
    dsimp only
    split <;> rfl
  rw [hnone, List.append_nil]
  exact he

private theorem tracked_andThen {first second : Action}
    (hfirst : Tracked writes fails first)
    (hsecond : Tracked writes fails second) :
    Tracked writes fails (andThen first second) := by
  intro lines e he
  have hmiddle := hfirst lines e he
  cases hfailure : (first e).failure with
  | some err =>
      rw [tried, andThen_of_failure hfailure]
      exact hmiddle
  | none =>
      rw [tried, andThen_of_none hfailure, List.filterMap_append,
        ← List.append_assoc]
      exact hsecond _ _ hmiddle

private theorem tracked_move (axis : Axis) (m : Motion) :
    Tracked writes fails (move axis m) := by
  intro lines e he
  cases hflow : flow e.axes m.speed axis with
  | error err =>
      rw [tried, move_of_error hflow, List.filterMap_nil, List.append_nil]
      exact he
  | ok f =>
      rw [tried, move_of_ok hflow]
      exact tracked_andThen (tracked_setMode _)
        (tracked_andThen (tracked_warn _ _ _)
          (tracked_send (modeOf?_moveCommand _ _ _))) lines e he

/-- **One command** keeps track of what it tries. -/
theorem tracked_action (c : Command) : Tracked writes fails c.action := by
  match c with
  | .mode relative => exact tracked_setMode relative
  | .call .home => exact tracked_send (by decide)
  | .call .stop => exact tracked_send (by decide)
  | .call (.wait seconds) =>
      exact tracked_send (modeOf?_append (by decide) (by decide) _)
  | .call (.move axis m) => exact tracked_move axis m

/-- **Commands in a row** keep track of what they try. -/
theorem tracks_afterAll {e : Encoder} (he : Tracks writes fails [] e)
    (cs : List Command) :
    Tracks writes fails (attempted e cs) (e.afterAll cs) := by
  induction cs using List.reverseRecOn with
  | nil => exact he
  | append_singleton cs c ih =>
      rw [attempted_concat, afterAll_concat]
      exact tracked_action c _ _ ih

end Encoder

/--
**Every move is made in its mode.** Let an encoder get any commands in a row,
and let any of its lines be lost. A line that moves an axis was sent by a move,
the mode of that move right before it, and so it is made in the mode that the
controller keeps. The flag of the encoder is the mode of the last mode line that
it tried to send. What reached the outlet is what was tried and not lost; if
that is all of the mode lines, the flag is the mode of the controller.
-/
theorem mode_precedes_move (axes : Axes) (session displayed : Bool)
    (fails : Nat → Bool) (cause : String) (cs : List Encoder.Command) :
    let e : Encoder := ⟨axes, session, displayed, false, .fresh fails cause⟩
    let lines := fun cs => (e.afterAll cs).outlet.lines
    (∀ front line back, lines cs = front ++ line :: back → IsMoveLine line →
      ∃ before axis m after, cs = before ++ .call (.move axis m) :: after ∧
        lines (before ++ [.call (.move axis m)]) = front ++ [line] ∧
        front = lines before ++ [if m.relative then "G91" else "G90"] ∧
        lastMode front = m.relative) ∧
    (e.afterAll cs).relative = lastMode (e.attempted cs) ∧
    ((session || displayed) = true →
      lines cs = survivors fails (e.attempted cs) ∧
      ((∀ n line, (e.attempted cs)[n]? = some line →
        (modeOf? line).isSome = true → fails (n + 1) = false) →
        (e.afterAll cs).relative = lastMode (lines cs))) := by
  intro e lines
  have hstart : Encoder.Tracks (session || displayed) fails [] e :=
    ⟨rfl, rfl, fun _ => ⟨rfl, rfl, rfl⟩⟩
  have htracks := Encoder.tracks_afterAll hstart cs
  refine ⟨fun front line back hlines hline => ?_, htracks.relative,
    fun hw => ?_⟩
  · obtain ⟨before, axis, m, f, after, hcs, hfront, -, hsent⟩ :=
      Encoder.fronted_afterAll (e := e) rfl cs front line back hlines hline
    refine ⟨before, axis, m, after, hcs, hsent, hfront, ?_⟩
    rw [hfront, lastMode_concat, modeOf?_modeCommand]
    rfl
  · obtain ⟨-, -, hlines⟩ := htracks.outlet hw
    refine ⟨hlines, fun hkept => ?_⟩
    rw [htracks.relative, show lines cs = _ from hlines, lastMode, lastMode,
      filterMap_survivors hkept]

end Fixture
