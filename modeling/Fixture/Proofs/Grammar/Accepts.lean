import Fixture.Proofs.Grammar.Unambiguous
/-!
# The reader accepts the grammar

Soundness, completeness and unambiguity put together, for a source of any bytes.
A source is a program exactly if the scanner gets through it, its tokens are
derived by the grammar, and its numerals fit; and then it is the program of its
one derivation.

The scanner enters with one fact only: the end of the source is a token of its
own, it comes last, and it comes only where no error stopped the scanner.
-/

namespace Fixture

/-- The end of the source comes last, and only without an error. -/
theorem Scan.upTo_eof :
    ∀ (budget : Nat) (c : Cursor) {front more : List Token} {t : Token},
      (Scan.upTo budget c).tokens = front ++ t :: more → t.kind = .eof →
      more = [] ∧ (Scan.upTo budget c).failure = none := by
  intro budget
  induction budget with
  | zero =>
      intro c front more t h _
      exact absurd h (by simp [Scan.upTo])
  | succ budget ih =>
      intro c front more t h ht
      rcases hnext : c.next with ⟨e | s, c'⟩
      · simp only [Scan.upTo, hnext] at h
        exact absurd h (by simp)
      · simp only [Scan.upTo, hnext] at h ⊢
        by_cases hs : s.kind = .eof
        · rw [if_pos hs] at h ⊢
          cases front with
          | nil => exact ⟨(List.cons.inj h).2.symm, rfl⟩
          | cons f front => exact absurd (List.cons.inj h).2 (by simp)
        · rw [if_neg hs] at h ⊢
          cases front with
          | nil => exact absurd ((List.cons.inj h).1 ▸ ht) hs
          | cons f front => exact ih c' (List.cons.inj h).2 ht

open Grammar Parse

/-- A program that is read has a derivation, with numerals that fit, and the
scanner found no error. -/
theorem parse_sound {src : List UInt8} {p : Program} (h : parse src = .ok p) :
    ∃ d : Source, d.tokens = (scan src).tokens ∧ (∀ t ∈ d.tokens, t.Fits) ∧
      (scan src).failure = none ∧ d.tree = p := by
  obtain ⟨d, eof, more, rfl, hd⟩ := program_sound h
  obtain ⟨rfl, hfailure⟩ := Scan.upTo_eof _ _ hd.split eof.property
  refine ⟨⟨d, eof⟩, hd.split.symm, ?_, hfailure, rfl⟩
  intro t ht
  rw [Source.tokens, List.mem_append, List.mem_singleton] at ht
  rcases ht with ht | rfl
  · exact hd.fits t ht
  · exact fits_of_kind eof.property rfl

/-- A source with a derivation whose numerals fit is read as the tree of the
derivation. -/
theorem parse_complete {src : List UInt8} {d : Source}
    (hd : d.tokens = (scan src).tokens) (hfit : ∀ t ∈ d.tokens, t.Fits) :
    parse src = .ok d.tree := by
  have hfit' : ∀ t ∈ d.program.tokens, t.Fits :=
    fun t ht => hfit t (List.mem_append_left _ ht)
  unfold parse Scan.parse
  rw [← hd]
  refine program_complete _ d.program d.eof [] _ ?_ hfit'
  simp only [budget, Source.tokens, List.length_append]
  omega

/-- A source is read unless there is an error. -/
theorem exists_of_isOk {src : List UInt8} (h : (parse src).isOk = true) :
    ∃ p, parse src = .ok p := by
  cases hread : parse src with
  | error e =>
      rw [hread] at h
      cases h
  | ok p => exact ⟨p, rfl⟩

/-- A source is read as a program with a property, if what is read has it. -/
theorem exists_of_any {src : List UInt8} {q : Program → Bool}
    (h : (parse src).toOption.any q = true) :
    ∃ p, parse src = .ok p ∧ q p = true := by
  cases hread : parse src with
  | error e =>
      rw [hread] at h
      cases h
  | ok p =>
      rw [hread] at h
      exact ⟨p, rfl, h⟩

/--
**The reader accepts the grammar.** A source is read as a program `p` if and
only if the scanner finds no error in it, each of its numerals fits, and its
tokens are the frontier of a derivation. That derivation is the only one there
is, and `p` is its tree.
-/
theorem parse_eq_ok_iff (src : List UInt8) (p : Program) :
    parse src = .ok p ↔
      (scan src).failure = none ∧ (∀ t ∈ (scan src).tokens, t.Fits) ∧
      ∃ d : Source, d.tokens = (scan src).tokens ∧
        (∀ d' : Source, d'.tokens = (scan src).tokens → d' = d) ∧
        d.tree = p := by
  constructor
  · intro h
    obtain ⟨d, hd, hfit, hfailure, htree⟩ := parse_sound h
    refine ⟨hfailure, hd ▸ hfit, d, hd, ?_, htree⟩
    intro d' hd'
    exact Source.unique (hd'.trans hd.symm)
  · rintro ⟨-, hfit, d, hd, -, rfl⟩
    exact parse_complete hd (hd ▸ hfit)

end Fixture
