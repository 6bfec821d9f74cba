import Fixture.Proofs.Layout
/-!
# What readings are about

A cursor can be read from again and again, after errors and at the end of the
source as well. Every reading is about one offset of the source: the first byte
of the lexeme that it answers, the end of the source, a byte that nothing begins
with, or the place where a comment should have been closed. `Meets` says which
offset that is, from the bytes of the source alone, and where the next reading
begins; a `Trail` has the offsets of readings in a row. Neither of them mentions
a position.

The position of an offset is counted from the bytes in front of it. The cursor
does not count, it moves a position over every byte that it passes. So it is
enough to know, before and after each reading, that the cursor stands at an
offset with the position of that offset.

## Main results

* `Pos.after_start`: moving a position over bytes counts their newlines and what
  stands behind the last of them.
* `Cursor.StandsAt.next`: one reading, from one offset to another.
* `Trail.unique`: what readings are about is determined by the source.
* `steps_placed`: readings in a row have the positions of the offsets that they
  are about.
-/

namespace Fixture

attribute [local simp] Gap.skip Lexeme.single Lexeme.operator Lexeme.split
  Cursor.next Cursor.steps

/-! ## Positions -/

namespace Pos

/-- The position of an offset. Every newline in front of it makes a line, and
every byte between the last of them and the offset makes a column. -/
def ofOffset (src : List UInt8) (p : Nat) : Pos :=
  ⟨1 + (src.take p).count newline,
    1 + ((src.take p).rtakeWhile (· != newline)).length⟩

theorem after_start (bs : List UInt8) :
    start.after bs =
      ⟨1 + bs.count newline, 1 + (bs.rtakeWhile (· != newline)).length⟩ := by
  induction bs using List.reverseRecOn with
  | nil => rfl
  | append_singleton bs b ih =>
      rw [after_append, ih, after_cons, after_nil, next, List.count_append,
        List.rtakeWhile_concat]
      by_cases hb : b = newline
      · simp [hb, Nat.add_assoc]
      · simp [hb, Nat.add_assoc]

private theorem ofOffset_eq (src : List UInt8) (p : Nat) :
    ofOffset src p = start.after (src.take p) :=
  (after_start _).symm

end Pos

/-! ## Comments that are not closed -/

namespace Gap

/-- Bytes behind which a comment can still be closed. -/
def InComment (c : List UInt8) : Prop := ∀ b ∈ c, b ≠ 125 ∧ b ≠ 10

private theorem skip_open {c rest : List UInt8} (hc : InComment c)
    (hrest : ∀ b ∈ rest.head?, b = 10) :
    skip true (c ++ rest) = ⟨c, rest, true⟩ := by
  induction c with
  | nil =>
      cases rest with
      | nil => rfl
      | cons b rest =>
          obtain rfl : b = 10 := hrest b rfl
          rfl
  | cons b c ih =>
      obtain ⟨⟨hclose, hline⟩, hc⟩ := List.forall_mem_cons.1 hc
      have hclose : b ≠ commentClose := hclose
      simp only [List.cons_append, skip, if_true, if_neg hclose, if_neg hline,
        ih hc, push]

/-- A gap and a comment behind it that its line does not close. -/
private theorem skip_unclosed {g c rest : List UInt8} (hg : IsGap g)
    (hc : InComment c) (hrest : ∀ b ∈ rest.head?, b = 10) :
    skip false (g ++ 123 :: (c ++ rest)) = ⟨g ++ 123 :: c, rest, true⟩ := by
  have hopen : skip false (123 :: (c ++ rest)) =
      (skip true (c ++ rest)).push 123 := rfl
  rw [skip_gap hg, hopen, skip_open hc hrest, push]

/-- What is skipped up to the end of a line that leaves a comment open, from a
gap or from within a comment on. -/
def Broken : Bool → List UInt8 → Prop
  | false, s => ∃ g c, s = g ++ 123 :: c ∧ IsGap g ∧ InComment c
  | true, s =>
    InComment s ∨
    ∃ c g d, s = c ++ 125 :: (g ++ 123 :: d) ∧ InComment c ∧ IsGap g ∧
      InComment d

private theorem broken_of_skip (inside : Bool) (bs : List UInt8)
    (h : (skip inside bs).unclosed = true) :
    Broken inside (skip inside bs).skipped ∧
    ∀ b ∈ (skip inside bs).rest.head?, b = 10 := by
  fun_induction skip inside bs with
  | case1 inside =>
      cases h
      exact ⟨.inl (by simp [InComment]), by simp⟩
  | case2 bs ih =>
      obtain ⟨⟨g, c, hskip, hg, hc⟩, hend⟩ := ih h
      exact ⟨.inr
        ⟨[], g, c, by rw [push, hskip]; rfl, by simp [InComment], hg, hc⟩, hend⟩
  | case3 => exact ⟨.inl (by simp [InComment]), by simp⟩
  | case4 b bs hclose hline ih =>
      obtain ⟨hbroken, hend⟩ := ih h
      refine ⟨?_, hend⟩
      rcases hbroken with hin | ⟨c, g, d, hskip, hc, hg, hd⟩
      · exact .inl (List.forall_mem_cons.2 ⟨⟨hclose, hline⟩, hin⟩)
      · exact .inr ⟨b :: c, g, d, by rw [push, hskip]; rfl,
          List.forall_mem_cons.2 ⟨⟨hclose, hline⟩, hc⟩, hg, hd⟩
  | case5 inside b bs hin hblank ih =>
      cases inside with
      | true => exact absurd rfl hin
      | false =>
          obtain ⟨⟨g, c, hskip, hg, hc⟩, hend⟩ := ih h
          exact ⟨⟨b :: g, c, by rw [push, hskip]; rfl,
            .blank (isBlank_iff.1 hblank) hg, hc⟩, hend⟩
  | case6 inside bs hin hblank ih =>
      obtain ⟨hbroken, hend⟩ := ih h
      cases inside with
      | true => exact absurd rfl hin
      | false =>
          refine ⟨?_, hend⟩
          rcases hbroken with hc | ⟨c, g, d, hskip, hc, hg, hd⟩
          · exact ⟨[], _, rfl, .nil, hc⟩
          · exact ⟨123 :: c ++ 125 :: g, d, by
              rw [push, hskip]; simp [commentOpen], .comment hc hg, hd⟩
  | case7 => cases h

end Gap

/-- Where something that is spelt begins, there is a lexeme. -/
private theorem Lexeme.isSome_split {k : Kind} {w : List UInt8} (hw : Spelt k w)
    (rest : List UInt8) : (split (w ++ rest)).isSome = true := by
  cases hw with
  | word hb _ => rw [List.cons_append, split, if_pos hb, Option.isSome_some]
  | integer hw | real hw _ =>
      have hb := hw _ (List.mem_cons_self ..)
      simp only [List.cons_append, split, not_isLetter_of_isDigit hb, hb,
        Bool.false_eq_true, if_false, if_true, Option.isSome_some]
  | operator hk =>
      have hlook := ofSpelling?_of_mem _ hk
      obtain ⟨hne, htail⟩ := tail_of_mem _ hk
      obtain ⟨b, v, rfl⟩ := List.exists_cons_of_ne_nil hne
      rw [List.cons_append, split_cons_operator
        (not_isWordByte_of_mem _ hk b (List.mem_cons_self ..))]
      rcases htail with rfl | rfl
      · have hsingle (bs : List UInt8) : (single b bs).isSome = true := by
          rw [single, hlook, Option.map_some, Option.isSome_some]
        cases rest with
        | nil => exact hsingle []
        | cons c rest =>
            rw [List.nil_append, operator]
            cases Kind.ofSpelling? (textOf [b, c]) with
            | none => exact hsingle _
            | some k => rfl
      · rw [List.singleton_append, operator, hlook, Option.isSome_some]

/-! ## What a reading is about -/

/-- What a reading comes upon that begins at offset `o`. It is about offset `p`,
and the next reading begins at `o'`. -/
inductive Meets (src : List UInt8) (o : Nat) :
    Except LexError Token → (p o' : Nat) → Prop where
  /-- A gap and the longest lexeme behind it. The reading is about its first
  byte. -/
  | lexeme {gap w rest : List UInt8} {k : Kind} {pos : Pos}
      (hsrc : src.drop o = gap ++ (w ++ rest)) (hgap : IsGap gap)
      (hw : Lexeme.Spelt k w) (huncut : Lexeme.Uncut w rest) :
      Meets src o (.ok ⟨k, textOf w, pos⟩) (o + gap.length)
        (o + gap.length + w.length)
  /-- Nothing but a gap. The reading is about the end of the source. -/
  | ending {pos : Pos} (hbound : o ≤ src.length) (hgap : IsGap (src.drop o)) :
      Meets src o (.ok ⟨.eof, "", pos⟩) src.length src.length
  /-- A gap, and a byte behind it that neither a gap nor a lexeme begins
  with. -/
  | stray {gap rest : List UInt8} {b byte : UInt8} {pos : Pos}
      (hsrc : src.drop o = gap ++ b :: rest) (hgap : IsGap gap)
      (hover : Gap.Over (b :: rest))
      (hnone : ∀ k w more, b :: rest = w ++ more → ¬ Lexeme.Spelt k w) :
      Meets src o (.error ⟨.invalidCharacter, byte, pos⟩) (o + gap.length)
        (o + gap.length)
  /-- A gap, and a comment behind it that is open where its line or the source
  ends. The reading is about that end. -/
  | unclosed {gap c rest : List UInt8} {byte : UInt8} {pos : Pos}
      (hsrc : src.drop o = gap ++ 123 :: (c ++ rest)) (hgap : IsGap gap)
      (hc : Gap.InComment c) (hrest : ∀ b ∈ rest.head?, b = 10) :
      Meets src o (.error ⟨.malformedComment, byte, pos⟩)
        (o + (gap ++ 123 :: c).length) (o + (gap ++ 123 :: c).length)

/-- The offsets that readings in a row are about, if the first of them begins at
offset `o`. -/
inductive Trail (src : List UInt8) :
    Nat → List (Except LexError Token) → List Nat → Prop where
  | nil {o : Nat} : Trail src o [] []
  | cons {o p o' : Nat} {answer : Except LexError Token}
      {answers : List (Except LexError Token)} {ps : List Nat}
      (hfirst : Meets src o answer p o') (hrest : Trail src o' answers ps) :
      Trail src o (answer :: answers) (p :: ps)

/-- An answer has the position of an offset, and an error shows the byte there,
or zero at the end of the source. -/
def Placed (src : List UInt8) : Except LexError Token → Nat → Prop
  | .ok t, p => t.pos = .ofOffset src p
  | .error e, p => e.pos = .ofOffset src p ∧ e.byte = src[p]?.getD 0

/-! ## One reading -/

namespace Cursor

/-- The cursor stands at an offset of the source, with the position of that
offset. -/
structure StandsAt (src : List UInt8) (o : Nat) (c : Cursor) : Prop where
  bound : o ≤ src.length
  rest : c.rest = src.drop o
  pos : c.pos = .ofOffset src o

theorem standsAt_ofSource (src : List UInt8) : (ofSource src).StandsAt src 0 :=
  ⟨Nat.zero_le _, rfl, (Pos.ofOffset_eq src 0).symm⟩

variable {src : List UInt8} {o : Nat} {c : Cursor}

/-- A cursor that goes over bytes of the source stands behind them. -/
private theorem StandsAt.over (h : c.StandsAt src o) {w rest : List UInt8}
    (hrest : src.drop o = w ++ rest) :
    StandsAt src (o + w.length) ⟨rest, c.pos.after w⟩ := by
  have hlength : src.length - o = w.length + rest.length := by
    rw [← List.length_drop, hrest, List.length_append]
  have hbound := h.bound
  refine ⟨by omega, ?_, ?_⟩
  · show rest = _
    rw [← List.drop_drop, hrest, List.drop_left]
  · show c.pos.after w = _
    rw [h.pos, Pos.ofOffset_eq, Pos.ofOffset_eq, List.take_add, hrest,
      List.take_left, Pos.after_append]

private theorem StandsAt.byte_eq (h : c.StandsAt src o) :
    c.byte = src[o]?.getD 0 := by
  rw [byte, h.rest, List.headD_eq_head?_getD, List.head?_drop]

/-- **One reading.** It comes upon what stands in the source, its answer has the
position of that, and the cursor goes on to where the next reading begins. -/
theorem StandsAt.next (h : c.StandsAt src o) :
    ∃ p o', Meets src o c.next.1 p o' ∧ Placed src c.next.1 p ∧
      c.next.2.StandsAt src o' := by
  have hskip : src.drop o =
      (Gap.skip false c.rest).skipped ++ (Gap.skip false c.rest).rest := by
    rw [Gap.skipped_append_rest, h.rest]
  have hover := h.over hskip
  simp only [Cursor.next]
  by_cases hunclosed : (Gap.skip false c.rest).unclosed = true
  · rw [if_pos hunclosed]
    obtain ⟨⟨g, d, hbroken, hg, hd⟩, hend⟩ :=
      Gap.broken_of_skip false c.rest hunclosed
    rw [hbroken] at hover hskip ⊢
    rw [List.append_assoc] at hskip
    exact ⟨_, _, .unclosed hskip hg hd hend, ⟨hover.pos, hover.byte_eq⟩, hover⟩
  · rw [if_neg hunclosed]
    obtain ⟨hgap, hclear⟩ :=
      Gap.isGap_of_skip false c.rest (Bool.eq_false_of_not_eq_true hunclosed)
    generalize (Gap.skip false c.rest).skipped = g at *
    generalize (Gap.skip false c.rest).rest = rest at *
    cases rest with
    | nil =>
        rw [List.append_nil] at hskip
        have hend : o + g.length = src.length := by
          rw [← hskip, List.length_drop]
          have hbound := h.bound
          omega
        rw [hend] at hover
        exact ⟨_, _, .ending h.bound (hskip ▸ hgap), hover.pos, hover⟩
    | cons b rest =>
        rw [if_neg (by simp)]
        cases hlx : Lexeme.split (b :: rest) with
        | none =>
            refine ⟨_, _, .stray hskip hgap hclear fun k w more heq hw => ?_,
              ⟨hover.pos, hover.byte_eq⟩, hover⟩
            have hsome := Lexeme.isSome_split hw more
            rw [← heq, hlx] at hsome
            cases hsome
        | some lx =>
            obtain ⟨hbytes, hspelt, huncut⟩ := Lexeme.split_eq_some_iff.1 hlx
            rw [← hbytes] at hskip hover
            have hbehind := hover.over hover.rest.symm
            exact ⟨_, _, .lexeme hskip hgap hspelt huncut, hover.pos, hbehind⟩

end Cursor

/-! ## Readings in a row -/

/-- The bytes of the lexeme at the front, none if there is no lexeme. -/
def Lexeme.front (bs : List UInt8) : List UInt8 :=
  (split bs).elim [] Lexeme.bytes

private theorem Lexeme.front_append {k : Kind} {w rest : List UInt8}
    (hw : Spelt k w) (huncut : Uncut w rest) : front (w ++ rest) = w := by
  have hsplit : split (w ++ rest) = some ⟨k, w, rest⟩ :=
    split_eq_some_iff.2 ⟨rfl, hw, huncut⟩
  rw [front, hsplit, Option.elim_some]

private theorem Lexeme.front_eq_nil {bs : List UInt8}
    (h : ∀ k w more, bs = w ++ more → ¬ Spelt k w) : front bs = [] := by
  cases hlx : split bs with
  | none => rw [front, hlx, Option.elim_none]
  | some lx =>
      obtain ⟨hbytes, hspelt, -⟩ := split_eq_some_iff.1 hlx
      exact absurd hspelt (h _ _ _ hbytes.symm)

/-- No lexeme begins where a line ends. -/
theorem Lexeme.not_spelt_of_line {rest : List UInt8}
    (hrest : ∀ b ∈ rest.head?, b = 10) (k : Kind) (w more : List UInt8)
    (h : rest = w ++ more) : ¬ Spelt k w := by
  intro hw
  obtain ⟨b, v, rfl⟩ := List.exists_cons_of_ne_nil hw.ne_nil
  obtain rfl : b = 10 := hrest b (by rw [h]; rfl)
  exact absurd (hw.byte.2 10 rfl).1 (by decide)

/-- Both offsets of a reading are in the bytes. -/
theorem Meets.offsets {src : List UInt8} {o p o' : Nat}
    {answer : Except LexError Token} (h : Meets src o answer p o') :
    p = o + (Gap.skip false (src.drop o)).skipped.length ∧
    o' = p + (Lexeme.front (Gap.skip false (src.drop o)).rest).length := by
  cases h with
  | lexeme hsrc hgap hw huncut =>
      rw [hsrc, Gap.skip_append hgap (Gap.over_append hw _),
        Lexeme.front_append hw huncut]
      exact ⟨rfl, rfl⟩
  | ending hbound hgap =>
      have hskip := Gap.skip_append hgap Gap.over_nil
      rw [List.append_nil] at hskip
      rw [hskip, List.length_drop]
      exact ⟨by omega, rfl⟩
  | stray hsrc hgap hover hnone =>
      rw [hsrc, Gap.skip_append hgap hover, Lexeme.front_eq_nil hnone]
      exact ⟨rfl, rfl⟩
  | unclosed hsrc hgap hc hrest =>
      rw [hsrc, Gap.skip_unclosed hgap hc hrest,
        Lexeme.front_eq_nil (Lexeme.not_spelt_of_line hrest)]
      exact ⟨rfl, rfl⟩

/-- **What readings are about is determined by the source.** -/
theorem Trail.unique {src : List UInt8} {o : Nat}
    {answers : List (Except LexError Token)} {ps qs : List Nat}
    (h : Trail src o answers ps) (h' : Trail src o answers qs) : qs = ps := by
  induction h generalizing qs with
  | nil =>
      cases h'
      rfl
  | cons hfirst _ ih =>
      cases h' with
      | cons hfirst' hrest' =>
          obtain ⟨rfl, rfl⟩ := hfirst.offsets
          obtain ⟨rfl, rfl⟩ := hfirst'.offsets
          rw [ih hrest']

/-- Readings in a row leave a trail, and each answer has the position of its
offset. -/
private theorem Cursor.StandsAt.steps {src : List UInt8} (n : Nat) :
    ∀ {o : Nat} {c : Cursor}, c.StandsAt src o →
      ∃ ps, Trail src o (Cursor.steps n c) ps ∧
        List.Forall₂ (Placed src) (Cursor.steps n c) ps := by
  induction n with
  | zero => exact fun _ => ⟨[], .nil, .nil⟩
  | succ n ih =>
      intro o c h
      obtain ⟨p, o', hmeets, hplaced, hnext⟩ := h.next
      obtain ⟨ps, htrail, hall⟩ := ih hnext
      exact ⟨p :: ps, .cons hmeets htrail, .cons hplaced hall⟩

/--
**Readings have the positions of what they are about.** Read a source any number
of times in a row, going on after errors and at the end. Each answer is about
one offset of the source, and the source determines which: the first byte of a
lexeme, the end of the source, a byte that nothing begins with, or the end of a
line or of the source that leaves a comment open. The answer has the line and
the column of that offset, and an error shows the byte there, or zero at the
end.
-/
theorem steps_placed (src : List UInt8) (n : Nat) :
    ∃ ps, Trail src 0 (Cursor.steps n (.ofSource src)) ps ∧
      (∀ qs, Trail src 0 (Cursor.steps n (.ofSource src)) qs → qs = ps) ∧
      List.Forall₂ (Placed src) (Cursor.steps n (.ofSource src)) ps := by
  obtain ⟨ps, htrail, hplaced⟩ := (Cursor.standsAt_ofSource src).steps n
  exact ⟨ps, htrail, fun _ hqs => htrail.unique hqs, hplaced⟩

end Fixture
