import Fixture.Proofs.Layout
/-!
# Lexemes with gaps between them

A source can be put together from lexemes and gaps, so long as there is a gap
between any two lexemes. It is read as these lexemes and nothing else: where a
lexeme ends does not depend on its neighbours then. The greedy part of the
scanner cannot reach across a gap, since a gap begins on a byte that continues
no lexeme, and a comment is skipped whatever stands in it.

## Main results

* `Reads.gap`: a gap in front changes nothing.
* `IsGap.clear`: a gap that is not empty continues no lexeme.
* `scan_separated`: lexemes with gaps between them are read back.
-/

namespace Fixture

attribute [local simp] Cursor.next Scan.upTo

/-- A gap that is not empty continues no lexeme in front of it. -/
theorem IsGap.clear {g : List UInt8} (hg : IsGap g) (hne : g ≠ [])
    (bs : List UInt8) : Lexeme.Clear (g ++ bs) := by
  have hblank : ∀ b ∈ ([32, 9, 10, 13] : List UInt8), Lexeme.isClear b =
      true := by decide +kernel
  cases hg with
  | nil => exact absurd rfl hne
  | blank hb _ => exact .cons (hblank _ hb) _
  | comment _ _ => exact .cons (by decide +kernel) _

private theorem Cursor.next_over {g : List UInt8} (hg : IsGap g)
    (bs : List UInt8) (pos : Pos) :
    Cursor.next ⟨g ++ bs, pos⟩ = Cursor.next ⟨bs, pos.after g⟩ := by
  simp only [Cursor.next, Gap.skip_gap hg, Pos.after_append]

/-- A gap in front changes nothing. -/
theorem Reads.gap {g bs : List UInt8} {ts : List Token} (hg : IsGap g)
    (h : Reads bs ts) : Reads (g ++ bs) ts := by
  intro pos n hn
  rw [List.length_append] at hn
  obtain ⟨read, hread, hts⟩ := h (pos.after g) n (by omega)
  refine ⟨read, ?_, hts⟩
  obtain ⟨n, rfl⟩ : ∃ m, n = m + 1 := ⟨n - 1, by omega⟩
  rw [← hread, Scan.upTo, Scan.upTo, Cursor.next_over hg]

/-- Tokens as they are written, each with a gap behind it. -/
def written (pieces : List (Token × List UInt8)) : List UInt8 :=
  pieces.flatMap fun x => bytesOf x.1.literal ++ x.2

/-- The induction goes from the last token to the first, since what stands
behind a token decides where it ends. -/
private theorem reads_written {pieces : List (Token × List UInt8)}
    (hpieces : ∀ x ∈ pieces, x.1.Spelt ∧ IsGap x.2)
    (hbetween : ∀ x ∈ pieces.dropLast, x.2 ≠ []) :
    Reads (written pieces) (pieces.map fun x => x.1.unplaced) := by
  induction pieces with
  | nil => exact .nil
  | cons x pieces ih =>
      obtain ⟨⟨hspelt, hgap⟩, hpieces⟩ := List.forall_mem_cons.1 hpieces
      have hclear : Lexeme.Clear (x.2 ++ written pieces) := by
        by_cases hne : x.2 = []
        · cases pieces with
          | nil => simp [hne, written, Lexeme.Clear]
          | cons y pieces => exact absurd hne (hbetween x (by simp))
        · exact hgap.clear hne _
      have hrest : Reads (written pieces)
          (pieces.map fun x => x.1.unplaced) := by
        refine ih hpieces fun y hy => hbetween y ?_
        cases pieces with
        | nil => cases hy
        | cons z pieces => exact List.mem_cons_of_mem x hy
      have hread := Writes.token hspelt _ _ hclear (hrest.gap hgap)
      rwa [written, List.flatMap_cons, List.append_assoc]

/--
**Lexemes with gaps between them are read back.** Write any tokens one behind
the other, with a gap in front of the first, gaps that are not empty between
them and a gap behind the last. That is read without an error, as the same
tokens and the end of the source.
-/
theorem scan_separated (front : List UInt8) (pieces : List (Token × List UInt8))
    (hfront : IsGap front) (hpieces : ∀ x ∈ pieces, x.1.Spelt ∧ IsGap x.2)
    (hbetween : ∀ x ∈ pieces.dropLast, x.2 ≠ []) :
    let s := scan (front ++ written pieces)
    s.failure = none ∧
    List.Forall₂ (fun read t => read.same t = true) s.tokens
      (pieces.map Prod.fst ++ [Token.ending]) := by
  intro s
  obtain ⟨hnone, htokens⟩ := ((reads_written hpieces hbetween).gap hfront).scan
  refine ⟨hnone, Token.forall₂_same_iff.2 ?_⟩
  rw [List.map_append, List.map_map]
  exact htokens

/-- A number, a point, a number and two comparisons. Without the gaps they would
be a fraction, another comparison and a byte that nothing begins with. -/
def separatedPieces : List (Token × List UInt8) :=
  [(⟨.integerConst, "12", .nowhere⟩, [32]),
    (⟨.dot, ".", .nowhere⟩, [123, 0, 123, 125]),
    (⟨.integerConst, "5", .nowhere⟩, [10]),
    (⟨.less, "<", .nowhere⟩, [123, 125]), (⟨.equal, "==", .nowhere⟩, [])]

theorem scan_separated_pieces :
    let s := scan ([9] ++ written separatedPieces)
    (∀ x ∈ separatedPieces, x.1.Spelt ∧ IsGap x.2) ∧
    (∀ x ∈ separatedPieces.dropLast, x.2 ≠ []) ∧ s.failure = none ∧
    List.Forall₂ (fun read t => read.same t = true) s.tokens
      (separatedPieces.map Prod.fst ++ [Token.ending]) := by
  have hfront : IsGap [9] := .blank (by decide) .nil
  have hpieces : ∀ x ∈ separatedPieces, x.1.Spelt ∧ IsGap x.2 := by
    simp only [separatedPieces, List.forall_mem_cons]
    refine ⟨?_, ?_, ?_, ?_, ?_, by simp⟩
    · exact ⟨⟨[49, 50], .integer (by decide +kernel), by decide +kernel⟩,
        .blank (by decide) .nil⟩
    · exact ⟨⟨[46], .operator (by decide), by decide +kernel⟩,
        .comment (c := [0, 123]) (by decide +kernel) .nil⟩
    · exact ⟨⟨[53], .integer (by decide +kernel), by decide +kernel⟩,
        .blank (by decide) .nil⟩
    · exact ⟨⟨[60], .operator (by decide), by decide +kernel⟩,
        .comment (c := []) (by simp) .nil⟩
    · exact ⟨⟨[61, 61], .operator (by decide), by decide +kernel⟩, .nil⟩
  have hbetween : ∀ x ∈ separatedPieces.dropLast, x.2 ≠ [] := by decide +kernel
  exact ⟨hpieces, hbetween,
    scan_separated [9] separatedPieces hfront hpieces hbetween⟩

end Fixture
