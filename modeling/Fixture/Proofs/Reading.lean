import Fixture.Proofs.Places
import Fixture.Proofs.Spelling
/-!
# Reading texts piece by piece

What the scanner makes of a text that is put together from pieces. `Reads bs ts`
says that the bytes `bs` are read as the tokens `ts`, their places aside. It is
stated for bytes in any position, so that it can be built from the end of a text
to its beginning: a blank in front changes nothing, and a spelling in front adds
its token.

A piece is a text with its tokens. One that `Opens` may stand in front of
anything; one that `Writes` needs clear bytes behind it, since a word, say,
would swallow the letters that follow. The two are closed under juxtaposition,
so the tokens of a printed tree can be read off the way it is printed.

## Main results

* `Opens.append`, `Opens.writes`, `Writes.opens`, `Writes.append`: juxtaposition
  of pieces.
* `Writes.token`, `Writes.fixed`, `Opens.lone`, `Opens.blank`: the pieces of one
  token, or of none.
* `Reads.scan`: a text that is read has no failure, and its tokens are known up
  to their places.
-/

namespace Fixture

/-! ## Tokens with one text -/

namespace Token

/-- The token of a kind that has one text only. -/
def fixed (k : Kind) : Token := ⟨k, k.spelling, .nowhere⟩

@[simp] theorem fixed_kind (k : Kind) : (fixed k).kind = k := rfl

theorem Spelt.unplaced_eq {t : Token} {k : Kind} (h : t.Spelt) (ht : t.kind = k)
    (hk : k.isFixed = true) : t.unplaced = fixed k := by
  subst ht
  rw [unplaced, fixed, h.literal_eq hk]

theorem kind_of_unplaced {t : Token} {k : Kind} (h : t.unplaced = fixed k) :
    t.kind = k :=
  congrArg kind h

/-- A fixed token is spelt. -/
theorem spelt_fixed {k : Kind} (hk : k.isFixed = true) : (fixed k).Spelt := by
  have hsome := (Bool.and_eq_true_iff.1 hk).1
  obtain ⟨x, hx, hxk⟩ := List.any_eq_true.1 hsome
  have hxk : x.2 = k := eq_of_beq hxk
  have hlit : x.1 = k.spelling := by
    rw [← hxk]
    exact Kind.eq_spelling_of_mem x hx (hxk ▸ hk)
  rcases List.mem_append.1 hx with hx | hx
  · obtain ⟨htext, hlook, b, hb, hletter, hword⟩ :=
      Kind.asciiBytes_reserved x hx
    refine ⟨asciiBytes x.1, ?_, by rw [htext, hlit]; rfl⟩
    have hkind : Kind.ofWord (textOf (asciiBytes x.1)) = k := by
      rw [htext, Kind.ofWord, hlook]; exact hxk
    cases hw : asciiBytes x.1 with
    | nil =>
        rw [hw] at hb
        cases hb
    | cons c w =>
        rw [hw] at hb hword hkind
        cases hb
        have hspelt : Lexeme.Spelt (Kind.ofWord (textOf (b :: w))) (b :: w) :=
          .word hletter hword
        rwa [hkind] at hspelt
  · rw [spellings_eq, List.mem_map] at hx
    obtain ⟨⟨w, k'⟩, hmem, rfl⟩ := hx
    subst hxk
    exact ⟨w, .operator hmem, hlit.symm⟩

end Token

/-! ## Bytes -/

/-- The bytes are read as these tokens and the end of the source, places
aside. -/
def Reads (bs : List UInt8) (ts : List Token) : Prop :=
  ∀ (pos : Pos) (n : Nat), bs.length < n →
    ∃ read, Scan.upTo n ⟨bs, pos⟩ = ⟨read, none⟩ ∧
      read.map Token.unplaced = ts ++ [Token.ending]

private theorem Cursor.next_blank {b : UInt8} (hb : isBlank b = true)
    (bs : List UInt8) (pos : Pos) :
    Cursor.next ⟨b :: bs, pos⟩ = Cursor.next ⟨bs, pos.next b⟩ := by
  simp only [Cursor.next, Gap.skip, Bool.false_eq_true, if_false, if_pos hb,
    Gap.push, Pos.after_cons]

private theorem Cursor.next_lexeme {k : Kind} {w rest : List UInt8}
    (hw : Lexeme.Spelt k w)
    (hsplit : Lexeme.split (w ++ rest) = some ⟨k, w, rest⟩) (pos : Pos) :
    Cursor.next ⟨w ++ rest, pos⟩ =
      (.ok ⟨k, textOf w, pos⟩, ⟨rest, pos.after w⟩) := by
  cases w with
  | nil => exact absurd rfl hw.ne_nil
  | cons b w =>
      obtain ⟨hblank, hopen⟩ := hw.byte.2 b rfl
      have hgap : Gap.skip false (b :: w ++ rest) =
          ⟨[], b :: w ++ rest, false⟩ := by
        simp only [List.cons_append, Gap.skip, hblank, Bool.false_eq_true,
          if_false, if_neg hopen]
      have hempty : (b :: w ++ rest).isEmpty = false := rfl
      simp only [Cursor.next, hgap, hempty, Bool.false_eq_true, if_false,
        Pos.after_nil, hsplit]

theorem Lexeme.Spelt.ne_eof {k : Kind} {w : List UInt8} (h : Lexeme.Spelt k w) :
    k ≠ .eof := by
  have hwords : ∀ x ∈ Kind.reservedWords, x.2 ≠ .eof := by decide
  have hoperators : ∀ x ∈ operatorBytes, x.2 ≠ .eof := by decide
  cases h with
  | @word b w hb hw =>
      rw [Kind.ofWord]
      cases hlook : Kind.reservedWords.lookup (textOf (b :: w)) with
      | none => exact Kind.noConfusion
      | some k => exact hwords _ (mem_of_lookup hlook)
  | integer hw => exact Kind.noConfusion
  | real hw hv => exact Kind.noConfusion
  | operator hk => exact hoperators _ hk

namespace Reads

theorem nil : Reads [] [] := by
  intro pos n hn
  obtain ⟨n, rfl⟩ : ∃ m, n = m + 1 := ⟨n - 1, by omega⟩
  exact ⟨[⟨.eof, "", pos⟩], rfl, rfl⟩

theorem blank {b : UInt8} (hb : isBlank b = true) {bs : List UInt8}
    {ts : List Token} (h : Reads bs ts) : Reads (b :: bs) ts := by
  intro pos n hn
  rw [List.length_cons] at hn
  obtain ⟨read, hread, hts⟩ := h (pos.next b) n (by omega)
  refine ⟨read, ?_, hts⟩
  obtain ⟨n, rfl⟩ : ∃ m, n = m + 1 := ⟨n - 1, by omega⟩
  rw [← hread, Scan.upTo, Scan.upTo, Cursor.next_blank hb]

theorem lexeme {k : Kind} {w rest : List UInt8} {ts : List Token}
    (hw : Lexeme.Spelt k w)
    (hsplit : Lexeme.split (w ++ rest) = some ⟨k, w, rest⟩)
    (h : Reads rest ts) :
    Reads (w ++ rest) (⟨k, textOf w, .nowhere⟩ :: ts) := by
  intro pos n hn
  have hpos : 0 < w.length := List.length_pos_iff.2 hw.ne_nil
  rw [List.length_append] at hn
  obtain ⟨n, rfl⟩ : ∃ m, n = m + 1 := ⟨n - 1, by omega⟩
  obtain ⟨read, hread, hts⟩ := h (pos.after w) n (by omega)
  refine ⟨⟨k, textOf w, pos⟩ :: read, ?_, ?_⟩
  · simp only [Scan.upTo, Cursor.next_lexeme hw hsplit, if_neg hw.ne_eof, hread,
      Scan.push]
  · rw [List.map_cons, hts]
    rfl

/-- **A text that is read has no failure,** and its tokens are the ones it is
read as. -/
theorem scan {src : List UInt8} {ts : List Token} (h : Reads src ts) :
    (scan src).failure = none ∧
    (scan src).tokens.map Token.unplaced = ts ++ [Token.ending] := by
  obtain ⟨read, hread, hts⟩ := h Pos.start (src.length + 1) (by omega)
  rw [Fixture.scan, Cursor.ofSource, hread]
  exact ⟨rfl, hts⟩

end Reads

/-! ## Pieces of text -/

/-- In front of clear bytes, the text adds these tokens. -/
def Writes (s : String) (ts : List Token) : Prop :=
  ∀ (rest : List UInt8) (rs : List Token), Lexeme.Clear rest → Reads rest rs →
    Reads (bytesOf s ++ rest) (ts ++ rs)

/-- In front of any bytes, the text adds these tokens. -/
def Opens (s : String) (ts : List Token) : Prop :=
  ∀ (rest : List UInt8) (rs : List Token), Reads rest rs →
    Reads (bytesOf s ++ rest) (ts ++ rs)

/-- A text that begins on a byte that continues no lexeme. -/
def Closes (s : String) : Prop :=
  ∀ rest : List UInt8, Lexeme.Clear (bytesOf s ++ rest)

theorem Closes.append {s : String} (h : Closes s) (t : String) :
    Closes (s ++ t) := by
  intro rest
  rw [bytesOf_append, List.append_assoc]
  exact h (bytesOf t ++ rest)

theorem closes_textOf {b : UInt8} {w : List UInt8}
    (hb : Lexeme.isClear b = true) (hascii : ∀ c ∈ b :: w, c.toNat < 128) :
    Closes (textOf (b :: w)) := by
  intro rest
  rw [bytesOf_textOf hascii]
  exact .cons hb _

section Juxtaposition

variable {s t : String} {ts us : List Token}

theorem Opens.toWrites (h : Opens s ts) : Writes s ts :=
  fun rest rs _ hrest => h rest rs hrest

theorem Opens.append (hs : Opens s ts) (ht : Opens t us) :
    Opens (s ++ t) (ts ++ us) := by
  intro rest rs hrest
  rw [bytesOf_append, List.append_assoc, List.append_assoc]
  exact hs _ _ (ht _ _ hrest)

theorem Opens.writes (hs : Opens s ts) (ht : Writes t us) :
    Writes (s ++ t) (ts ++ us) := by
  intro rest rs hclear hrest
  rw [bytesOf_append, List.append_assoc, List.append_assoc]
  exact hs _ _ (ht _ _ hclear hrest)

theorem Writes.opens (hs : Writes s ts) (ht : Opens t us) (hclose : Closes t) :
    Opens (s ++ t) (ts ++ us) := by
  intro rest rs hrest
  rw [bytesOf_append, List.append_assoc, List.append_assoc]
  exact hs _ _ (hclose rest) (ht _ _ hrest)

theorem Writes.append (hs : Writes s ts) (ht : Writes t us)
    (hclose : Closes t) : Writes (s ++ t) (ts ++ us) := by
  intro rest rs hclear hrest
  rw [bytesOf_append, List.append_assoc, List.append_assoc]
  exact hs _ _ (hclose rest) (ht _ _ hclear hrest)

end Juxtaposition

theorem Opens.empty : Opens "" [] := by
  intro rest rs hrest
  rwa [show bytesOf "" = [] from bytesOf_textOf (w := []) (by simp)]

theorem Opens.blank {b : UInt8} (hb : isBlank b = true)
    (hascii : b.toNat < 128) : Opens (textOf [b]) [] := by
  intro rest rs hrest
  rw [bytesOf_textOf (by simpa using hascii)]
  exact hrest.blank hb

/-- A token adds itself. -/
theorem Writes.token {t : Token} (h : t.Spelt) :
    Writes t.literal [t.unplaced] := by
  intro rest rs hclear hrest
  obtain ⟨w, hw, hlit⟩ := h
  have hread := hrest.lexeme hw (Lexeme.split_append hw hclear)
  rw [hlit, bytesOf_textOf hw.byte.1]
  rwa [← hlit] at hread

theorem Writes.fixed {k : Kind} (hk : k.isFixed = true) :
    Writes k.spelling [.fixed k] :=
  Writes.token (Token.spelt_fixed hk)

/-- Operators that no longer one begins with add themselves in front of
anything. -/
theorem Opens.lone {b : UInt8} {k : Kind} (hk : ([b], k) ∈ operatorBytes)
    (hb : b ∉ [58, 61, 33, 60, 62]) :
    Opens (textOf [b]) [⟨k, textOf [b], .nowhere⟩] := by
  intro rest rs hrest
  have hw : Lexeme.Spelt k [b] := .operator hk
  rw [bytesOf_textOf hw.byte.1]
  exact hrest.lexeme hw (Lexeme.split_lone hk hb rest)

end Fixture
