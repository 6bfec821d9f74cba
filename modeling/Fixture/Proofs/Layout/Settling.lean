import Fixture.Proofs.Layout.Offsets
/-!
# How reading comes to an end

A cursor answers for ever, but only some of its answers are news. A token and a
comment that is left open each take the cursor further: the next such answer is
about a later offset. So there are no more of them than there are bytes. The
first answer of another sort is the last one: at the end of the source, or in
front of a byte that nothing begins with, the cursor stays where it is and
answers the same again and again.

A comment that is left open is the only answer that takes no lexeme. Its line
ends where the cursor stands then, and no lexeme and no comment begins there, so
the next answer is not about that offset.

## Main results

* `Cursor.next_of_settles`: the last answer is repeated.
* `Meets.onward`: any other answer takes the cursor further.
* `Cursor.settles_of_standsAt`: readings in a row come to a last answer.
* `steps_settle`: reading settles, and scanning ends, within the length of the
  source.
-/

namespace Fixture

attribute [local simp] Cursor.next Cursor.steps Scan.upTo

/-- Whether an answer is one that the cursor does not get beyond: the end of the
source, or an invalid character. -/
def settles : Except LexError Token → Bool
  | .ok t => t.kind == .eof
  | .error e => e.fault == .invalidCharacter

namespace Cursor

/-- The cursor after a number of readings. -/
def ahead : Nat → Cursor → Cursor
  | 0, c => c
  | n + 1, c => ahead n c.next.2

private theorem ahead_succ (n : Nat) (c : Cursor) :
    c.ahead (n + 1) = (c.ahead n).next.2 := by
  induction n generalizing c with
  | zero => rfl
  | succ n ih => exact ih c.next.2

private theorem ahead_add (n k : Nat) (c : Cursor) :
    c.ahead (n + k) = (c.ahead n).ahead k := by
  induction n generalizing c with
  | zero => rw [Nat.zero_add, ahead]
  | succ n ih =>
      rw [Nat.add_right_comm, ahead, ahead]
      exact ih c.next.2

/-- **The last answer is repeated,** and the cursor stays where it is. -/
theorem next_of_settles {c : Cursor} (h : settles c.next.1 = true) :
    c.next.2.next = (c.next.1, c.next.2) := by
  revert h
  simp only [Cursor.next]
  by_cases hunclosed : (Gap.skip false c.rest).unclosed = true
  · rw [if_pos hunclosed]
    intro h
    cases h
  · rw [if_neg hunclosed]
    obtain ⟨-, hover⟩ :=
      Gap.isGap_of_skip false c.rest (Bool.eq_false_of_not_eq_true hunclosed)
    have hskip := Gap.skip_over hover
    cases hempty : (Gap.skip false c.rest).rest.isEmpty with
    | true =>
        intro _
        simp only [if_true, hskip, hempty, Pos.after_nil]
        rfl
    | false =>
        cases hlx : Lexeme.split (Gap.skip false c.rest).rest with
        | none =>
            intro _
            simp [hskip, hempty, hlx]
        | some lx =>
            intro h
            have hspelt := Lexeme.spelt_of_split hlx
            simp [settles] at h
            exact absurd h hspelt.ne_eof

/-- From the last answer on, a cursor has nothing else to say. -/
private theorem ahead_of_settles {c : Cursor} (h : settles c.next.1 = true)
    (k : Nat) : (c.ahead k).next.1 = c.next.1 ∧ c.ahead (k + 1) = c.next.2 := by
  induction k with
  | zero => exact ⟨rfl, rfl⟩
  | succ k ih =>
      have hnext := next_of_settles h
      rw [ahead_succ (k + 1), ih.2, hnext]
      exact ⟨rfl, rfl⟩

end Cursor

/-! ## Progress -/

namespace Meets

variable {src : List UInt8} {o p o' : Nat} {answer : Except LexError Token}

private theorem le (h : Meets src o answer p o') : o ≤ p ∧ p ≤ o' := by
  obtain ⟨hp, ho'⟩ := h.offsets
  omega

/-- An answer that is not the last one is a token, or a comment that is left
open. -/
private theorem token_or_comment (h : Meets src o answer p o')
    (hnews : settles answer = false) :
    (∃ t, answer = .ok t ∧ t.kind ≠ .eof) ∨
    ∃ e, answer = .error e ∧ e.fault = .malformedComment := by
  cases h with
  | lexeme _ _ hw _ => exact .inl ⟨_, rfl, hw.ne_eof⟩
  | ending => cases hnews
  | stray => cases hnews
  | unclosed => exact .inr ⟨_, rfl, rfl⟩

/-- The last answer is the end of the source, or an invalid character. -/
private theorem last (h : Meets src o answer p o')
    (hlast : settles answer = true) (hplaced : Placed src answer p) :
    answer = .ok ⟨.eof, "", .ofOffset src src.length⟩ ∨
    ∃ q b, src[q]? = some b ∧
      answer = .error ⟨.invalidCharacter, b, .ofOffset src q⟩ := by
  cases h with
  | @lexeme gap w rest k pos _ _ hw _ =>
      exact absurd (beq_iff_eq.1 hlast) hw.ne_eof
  | @ending pos _ _ =>
      have hpos : pos = .ofOffset src src.length := hplaced
      exact .inl (by rw [hpos])
  | @stray gap rest b byte pos hsrc _ _ _ =>
      obtain ⟨hpos, hbyte⟩ := hplaced
      have hget : src[o + gap.length]? = some b := by
        rw [← List.getElem?_drop, hsrc,
          List.getElem?_append_right (Nat.le_refl _), Nat.sub_self]
        rfl
      rw [hget] at hbyte
      exact .inr
        ⟨_, b, hget, by rw [show byte = b from hbyte, show pos = _ from hpos]⟩
  | unclosed => cases hlast

/-- Answers that are not the last one, for readings that begin at `o`, are about
offsets behind `q`. -/
def Beyond (src : List UInt8) (q o : Nat) : Prop :=
  ∀ (answer : Except LexError Token) (p o' : Nat), Meets src o answer p o' →
    settles answer = false → q < p

/-- **An answer that is not the last one takes the cursor further:** the next
reading begins at a later offset, and if it does not give the last answer
either, it is about a later offset too. -/
theorem onward (h : Meets src o answer p o') (hnews : settles answer = false) :
    o < o' ∧ Beyond src p o' := by
  cases h with
  | @lexeme gap w rest k pos hsrc hgap hw huncut =>
      have hlength : 0 < w.length := List.length_pos_iff.2 hw.ne_nil
      refine ⟨by omega, fun _ _ _ hnext _ => ?_⟩
      have hle := hnext.le.1
      omega
  | ending => cases hnews
  | stray => cases hnews
  | @unclosed gap c rest byte pos hsrc hgap hc hrest =>
      have hlength : 0 < (gap ++ 123 :: c).length := by simp
      refine ⟨by omega, fun _ _ _ hnext hnews' => ?_⟩
      -- The line ends where the comment is left open, and only a gap begins
      -- there.
      have hline : src.drop (o + (gap ++ 123 :: c).length) = rest := by
        rw [← List.drop_drop, hsrc, ← List.cons_append, ← List.append_assoc,
          List.drop_left]
      cases hnext with
      | @lexeme gap' w rest' k pos hsrc' hgap' hw huncut =>
          rw [hline] at hsrc'
          have hgap' : gap' ≠ [] := by
            rintro rfl
            exact Lexeme.not_spelt_of_line hrest k w rest' hsrc' hw
          have hlength' : 0 < gap'.length := List.length_pos_iff.2 hgap'
          omega
      | ending => cases hnews'
      | stray => cases hnews'
      | @unclosed gap' c' rest' byte' pos' hsrc' hgap' hc' hrest' =>
          have hlength' : 0 < (gap' ++ 123 :: c').length := by simp
          omega

end Meets

/-- **Readings in a row come to a last answer.** Those before it are about
offsets that increase, from behind the offset `q` on, if there is one that the
first of them is known to be behind. -/
theorem Cursor.settles_of_standsAt {src : List UInt8} (fuel : Nat) :
    ∀ {o : Nat} {c : Cursor} (q : Option Nat), src.length - o < fuel →
      c.StandsAt src o → (∀ x ∈ q, Meets.Beyond src x o) →
      ∃ n ps, n ≤ src.length - o ∧ Trail src o (c.steps n) ps ∧
        ps.Pairwise (· < ·) ∧ (∀ x ∈ q, ∀ p ∈ ps, x < p) ∧
        (∀ a ∈ c.steps n, (∃ t, a = .ok t ∧ t.kind ≠ .eof) ∨
          ∃ e, a = .error e ∧ e.fault = .malformedComment) ∧
        settles (c.ahead n).next.1 = true ∧
        ∃ o', (c.ahead n).StandsAt src o' := by
  induction fuel with
  | zero => exact fun _ hfuel => absurd hfuel (Nat.not_lt_zero _)
  | succ fuel ih =>
      intro o c q hfuel hc hq
      cases hlast : settles c.next.1 with
      | true =>
          exact ⟨0, [], Nat.zero_le _, .nil, .nil, by simp, by simp [steps],
            hlast, o, hc⟩
      | false =>
          obtain ⟨p, o', hmeets, -, hnext⟩ := hc.next
          obtain ⟨hlt, hbeyond⟩ := hmeets.onward hlast
          have hbound := hnext.bound
          obtain ⟨n, ps, hn, htrail, hincreasing, hbehind, hnews, hend⟩ :=
            ih (some p) (by omega) hnext (by simpa using hbeyond)
          have hbehind : ∀ p' ∈ ps, p < p' := hbehind p rfl
          refine ⟨n + 1, p :: ps, by omega, .cons hmeets htrail,
            List.pairwise_cons.2 ⟨hbehind, hincreasing⟩, ?_,
            List.forall_mem_cons.2 ⟨hmeets.token_or_comment hlast, hnews⟩, hend⟩
          intro x hx
          have hfirst : x < p := hq x hx _ p o' hmeets hlast
          refine List.forall_mem_cons.2 ⟨hfirst, fun p' hp' => ?_⟩
          have hlater := hbehind p' hp'
          omega

/-! ## Scanning -/

/-- A scan that ends by itself: it has the tokens in front of the first answer
that is an error or the end of the source, no more than so many of them, and
that answer. -/
def Scan.Ends (c : Cursor) (most : Nat) (s : Scan) : Prop :=
  ∃ ts : List Token, ts.length ≤ most ∧ (∀ t ∈ ts, t.kind ≠ .eof) ∧
    ((∃ t, t.kind = .eof ∧ c.steps (ts.length + 1) = ts.map .ok ++ [.ok t] ∧
      s = ⟨ts ++ [t], none⟩) ∨
      ∃ e, c.steps (ts.length + 1) = ts.map .ok ++ [.error e] ∧
        s = ⟨ts, some e⟩)

private theorem Scan.Ends.push {c : Cursor} {t : Token} {most most' : Nat}
    {s : Scan} (hread : c.next.1 = .ok t) (ht : t.kind ≠ .eof)
    (hmost : most < most') (h : Scan.Ends c.next.2 most s) :
    Scan.Ends c most' (s.push t) := by
  have hsteps (n : Nat) : c.steps (n + 1) = .ok t :: c.next.2.steps n := by
    rw [Cursor.steps, hread]
  obtain ⟨ts, hlength, hkinds, hend⟩ := h
  refine ⟨t :: ts, by rw [List.length_cons]; omega,
    List.forall_mem_cons.2 ⟨ht, hkinds⟩, ?_⟩
  rw [List.length_cons, hsteps]
  rcases hend with ⟨u, hu, hanswers, rfl⟩ | ⟨e, hanswers, rfl⟩
  · exact .inl ⟨u, hu, by rw [hanswers]; rfl, rfl⟩
  · exact .inr ⟨e, by rw [hanswers]; rfl, rfl⟩

/-- A budget above the number of bytes is not used up. -/
private theorem Scan.ends_upTo {src : List UInt8} (budget : Nat) :
    ∀ {o : Nat} {c : Cursor}, src.length - o < budget → c.StandsAt src o →
      Scan.Ends c (src.length - o) (Scan.upTo budget c) := by
  induction budget with
  | zero => exact fun hbudget => absurd hbudget (Nat.not_lt_zero _)
  | succ budget ih =>
      intro o c hbudget hc
      obtain ⟨p, o', hmeets, -, hnext⟩ := hc.next
      have hbound := hnext.bound
      cases hread : c.next.1 with
      | error e =>
          refine ⟨[], Nat.zero_le _, by simp,
            .inr ⟨e, by rw [← hread]; rfl, ?_⟩⟩
          rw [Scan.upTo,
            show c.next = (.error e, c.next.2) from Prod.ext hread rfl]
      | ok t =>
          have hupTo : Scan.upTo (budget + 1) c =
              if t.kind = .eof then ⟨[t], none⟩
              else (Scan.upTo budget c.next.2).push t := by
            rw [Scan.upTo,
              show c.next = (.ok t, c.next.2) from Prod.ext hread rfl]
          rw [hupTo]
          by_cases ht : t.kind = .eof
          · rw [if_pos ht]
            exact ⟨[], Nat.zero_le _, by simp,
              .inl ⟨t, ht, by rw [← hread]; rfl, rfl⟩⟩
          · rw [if_neg ht]
            have hnews : settles c.next.1 = false := by
              rw [hread, settles, beq_false_of_ne ht]
            obtain ⟨hlt, -⟩ := hmeets.onward hnews
            exact (ih (by omega) hnext).push hread ht (by omega)

/--
**Reading settles.** Read a source again and again, going on after errors. At
first the answers are tokens and comments that are left open, no more of them
than there are bytes, and about offsets that increase strictly. Then comes the
last answer, which is the end of the source or an invalid character. All later
answers are the same, and the cursor does not move any more once it has been
given.

In particular scanning ends by itself: with the tokens in front of the first
error or in front of the end of the source, of which there are no more than
there are bytes.
-/
theorem steps_settle (src : List UInt8) :
    let cursor (n : Nat) : Cursor := (Cursor.ofSource src).ahead n
    (∃ (n : Nat) (ps : List Nat) (last : Except LexError Token),
      n ≤ src.length ∧ Trail src 0 ((cursor 0).steps n) ps ∧
      ps.Pairwise (· < ·) ∧
      (∀ a ∈ (cursor 0).steps n, (∃ t, a = .ok t ∧ t.kind ≠ .eof) ∨
        ∃ e, a = .error e ∧ e.fault = .malformedComment) ∧
      (last = .ok ⟨.eof, "", .ofOffset src src.length⟩ ∨
        ∃ p b, src[p]? = some b ∧
          last = .error ⟨.invalidCharacter, b, .ofOffset src p⟩) ∧
      (∀ k, n ≤ k → (cursor k).next.1 = last) ∧
      ∀ k, n < k → cursor k = cursor (n + 1)) ∧
    Scan.Ends (cursor 0) src.length (scan src) ∧
    (scan src).tokens.length ≤ src.length + 1 := by
  intro cursor
  have hstart := Cursor.standsAt_ofSource src
  have hends : Scan.Ends (cursor 0) src.length (scan src) :=
    Scan.ends_upTo (src.length + 1) (by omega) hstart
  refine ⟨?_, hends, ?_⟩
  · obtain ⟨n, ps, hn, htrail, hincreasing, -, hnews, hlast, o, hsettled⟩ :=
      Cursor.settles_of_standsAt (src.length - 0 + 1) none (Nat.lt_succ_self _)
        hstart (by simp)
    obtain ⟨p, o', hmeets, hplaced, -⟩ := hsettled.next
    refine ⟨n, ps, (cursor n).next.1, hn, htrail, hincreasing, hnews,
      hmeets.last hlast hplaced, ?_, ?_⟩
    · intro k hk
      obtain ⟨j, rfl⟩ := Nat.exists_eq_add_of_le hk
      rw [show cursor (n + j) = (cursor n).ahead j from Cursor.ahead_add n j _]
      exact (Cursor.ahead_of_settles hlast j).1
    · intro k hk
      obtain ⟨j, rfl⟩ := Nat.exists_eq_add_of_lt hk
      rw [show cursor (n + j + 1) = (cursor n).ahead (j + 1)
        from Cursor.ahead_add n (j + 1) _,
        show cursor (n + 1) = (cursor n).ahead 1 from Cursor.ahead_add n 1 _]
      exact (Cursor.ahead_of_settles hlast j).2
  · obtain ⟨ts, hlength, -, ⟨t, -, -, hscan⟩ | ⟨e, -, hscan⟩⟩ := hends
    · rw [hscan, List.length_append, List.length_singleton]
      omega
    · rw [hscan]
      show ts.length ≤ _
      omega

end Fixture
