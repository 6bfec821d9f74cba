import Fixture.Proofs.Reading
/-!
# Layouts

What a source is made of, byte for byte: lexemes with gaps between them, in
front of the first and behind the last. A gap is a row of blanks and of comments
that their line closes. A lexeme is one that no byte behind it continues, so
`12.5` is one number and `<=` one operator, but `12.` is a number and a point. A
`Layout` has all this as data, and it says nothing about how a source is read.

## Main results

* `Lexeme.uncut_word_iff` and its likes: what may stand behind a lexeme of each
  class.
* `Lexeme.split_eq_some_iff`: the scanner cuts off what is spelt and not
  continued.
* `Gap.skip_append`, `Gap.isGap_of_skip`: it skips exactly the gap.
* `scan_eq_iff`: it reads exactly the sources that have a layout, and a source
  has at most one.
-/

namespace Fixture

attribute [local simp] Lexeme.word Lexeme.number Lexeme.single Lexeme.operator
  Lexeme.split Gap.skip Cursor.next Scan.upTo

/-! ## Lexemes that are not continued -/

namespace Lexeme

/-- Nothing that stands behind these bytes makes a longer lexeme of them. -/
def Uncut (w rest : List UInt8) : Prop :=
  ∀ v more : List UInt8, rest = v ++ more → v ≠ [] → ∀ k, ¬ Spelt k (w ++ v)

/-- Where bytes of a class end is the same however one writes it. -/
private theorem span_unique {p : UInt8 → Bool} {w w' rest rest' : List UInt8}
    (hw : ∀ c ∈ w, p c = true) (hrest : ∀ c ∈ rest.head?, p c = false)
    (hw' : ∀ c ∈ w', p c = true) (hrest' : ∀ c ∈ rest'.head?, p c = false)
    (h : w ++ rest = w' ++ rest') : rest = rest' := by
  rw [← (span_append hw hrest).2, h, (span_append hw' hrest').2]

/-- A point is no digit. -/
private theorem head?_point (rest : List UInt8) :
    ∀ c ∈ (46 :: rest).head?, isDigit c = false := by
  intro c hc
  cases hc
  rfl

section Classes

variable {k : Kind} {b d : UInt8} {u w v rest : List UInt8}

/-- What begins with a letter is a word. -/
private theorem Spelt.of_letter (h : Spelt k (b :: u))
    (hb : isLetter b = true) :
    k = Kind.ofWord (textOf (b :: u)) ∧ ∀ c ∈ u, isWordByte c = true := by
  have hdigit {c : UInt8} (hc : isDigit c = true) (heq : c = b) : False := by
    rw [heq] at hc
    rw [not_isLetter_of_isDigit hc] at hb
    cases hb
  generalize hx : b :: u = x at h
  cases h with
  | word _ hw =>
      cases hx
      exact ⟨rfl, hw⟩
  | integer hw =>
      cases hx
      exact (hdigit (hw b (List.mem_cons_self ..)) rfl).elim
  | real hw _ =>
      cases hx
      exact (hdigit (hw b (List.mem_cons_self ..)) rfl).elim
  | operator hk =>
      have hword := not_isWordByte_of_mem _ hk b (hx ▸ List.mem_cons_self ..)
      rw [isWordByte, hb] at hword
      cases hword

/-- What begins with a digit is a row of digits, with or without a fraction. -/
private theorem Spelt.of_digit (h : Spelt k (b :: u)) (hb : isDigit b = true) :
    (∀ c ∈ b :: u, isDigit c = true) ∨
    ∃ w d v, b :: u = w ++ 46 :: d :: v ∧ (∀ c ∈ w, isDigit c = true) ∧
      ∀ c ∈ d :: v, isDigit c = true := by
  generalize hx : b :: u = x at h ⊢
  cases h with
  | word hl _ =>
      cases hx
      rw [not_isLetter_of_isDigit hb] at hl
      cases hl
  | integer hw => exact .inl hw
  | real hw hv => exact .inr ⟨_, _, _, rfl, hw, hv⟩
  | operator hk =>
      have hword := not_isWordByte_of_mem _ hk b (hx ▸ List.mem_cons_self ..)
      rw [isWordByte, hb, Bool.or_true] at hword
      cases hword

/-- What begins with any other byte is an operator. -/
private theorem Spelt.of_other (h : Spelt k (b :: u))
    (hb : isWordByte b = false) : (b :: u, k) ∈ operatorBytes := by
  obtain ⟨hl, hd⟩ := Bool.or_eq_false_iff.1 hb
  generalize hx : b :: u = x at h ⊢
  cases h with
  | word hb' _ =>
      cases hx
      rw [hl] at hb'
      cases hb'
  | integer hw =>
      cases hx
      exact absurd (hw b (List.mem_cons_self ..))
        (by rw [hd]; exact Bool.false_ne_true)
  | real hw _ =>
      cases hx
      exact absurd (hw b (List.mem_cons_self ..))
        (by rw [hd]; exact Bool.false_ne_true)
  | operator hk => exact hk

/-- A word is continued by a word byte and by nothing else. -/
theorem uncut_word_iff (hb : isLetter b = true)
    (hw : ∀ c ∈ w, isWordByte c = true) :
    Uncut (b :: w) rest ↔ ∀ c ∈ rest.head?, isWordByte c = false := by
  constructor
  · intro h c hc
    obtain ⟨more, rfl⟩ := List.head?_eq_some_iff.1 hc
    by_contra hword
    have hwc : ∀ x ∈ w ++ [c], isWordByte x = true :=
      List.forall_mem_append.2
        ⟨hw, List.forall_mem_singleton.2 (Bool.eq_true_of_not_eq_false hword)⟩
    exact h [c] more rfl (List.cons_ne_nil c []) _ (.word hb hwc)
  · rintro h (_ | ⟨c, v⟩) more rfl hv k hk
    · exact hv rfl
    · have hword :=
        (hk.of_letter hb).2 c (List.mem_append_right w (List.mem_cons_self ..))
      rw [h c rfl] at hword
      cases hword

/-- A row of digits is continued by a digit, and by a point that a digit
follows. -/
private theorem uncut_integer_iff (hw : ∀ c ∈ b :: w, isDigit c = true) :
    Uncut (b :: w) rest ↔
      (∀ c ∈ rest.head?, isDigit c = false) ∧
      ∀ d more, rest = 46 :: d :: more → isDigit d = false := by
  constructor
  · refine fun h => ⟨fun c hc => ?_, fun d more hrest => ?_⟩
    · obtain ⟨more, rfl⟩ := List.head?_eq_some_iff.1 hc
      by_contra hdigit
      have hwc : ∀ x ∈ b :: (w ++ [c]), isDigit x = true :=
        List.forall_mem_append.2 ⟨hw,
          List.forall_mem_singleton.2 (Bool.eq_true_of_not_eq_false hdigit)⟩
      exact h [c] more rfl (List.cons_ne_nil c []) _ (.integer hwc)
    · by_contra hdigit
      exact h [46, d] more hrest (List.cons_ne_nil _ _) _
        (.real hw
          (List.forall_mem_singleton.2 (Bool.eq_true_of_not_eq_false hdigit)))
  · rintro ⟨hrest, hpoint⟩ (_ | ⟨c, v⟩) more rfl hv k hk
    · exact hv rfl
    · have hc : isDigit c = false := hrest c rfl
      rcases hk.of_digit (hw b (List.mem_cons_self ..)) with
        hall | ⟨whole, d, frac, heq, hwhole, hfrac⟩
      · have hdigit :=
          hall c (List.mem_append_right (b :: w) (List.mem_cons_self ..))
        rw [hc] at hdigit
        cases hdigit
      · -- the first byte that is no digit is the point
        have hcv : c :: v = 46 :: d :: frac :=
          span_unique hw hrest hwhole (head?_point _) heq
        have hd := hpoint d (frac ++ more) (by rw [hcv]; rfl)
        rw [hfrac d (List.mem_cons_self ..)] at hd
        cases hd

/-- A fraction is continued by a digit and by nothing else. -/
private theorem uncut_real_iff (hw : ∀ c ∈ b :: w, isDigit c = true)
    (hv : ∀ c ∈ d :: v, isDigit c = true) :
    Uncut (b :: w ++ 46 :: d :: v) rest ↔
      ∀ c ∈ rest.head?, isDigit c = false := by
  constructor
  · intro h c hc
    obtain ⟨more, rfl⟩ := List.head?_eq_some_iff.1 hc
    by_contra hdigit
    have hvc : ∀ x ∈ d :: (v ++ [c]), isDigit x = true :=
      List.forall_mem_append.2
        ⟨hv, List.forall_mem_singleton.2 (Bool.eq_true_of_not_eq_false hdigit)⟩
    have hlonger := Spelt.real hw hvc
    refine h [c] more rfl (List.cons_ne_nil c []) .realConst ?_
    rwa [List.append_assoc]
  · rintro hrest (_ | ⟨c, u⟩) more rfl hne k hk
    · exact hne rfl
    · have hc : isDigit c = false := hrest c rfl
      rw [List.append_assoc] at hk
      rcases hk.of_digit (hw b (List.mem_cons_self ..)) with
        hall | ⟨whole, e, frac, heq, hwhole, hfrac⟩
      · exact absurd
          (hall 46 (List.mem_append_right (b :: w) (List.mem_cons_self ..)))
          (by decide)
      · have hpoint : 46 :: (d :: v ++ c :: u) = 46 :: e :: frac :=
          span_unique hw (head?_point _) hwhole (head?_point _) heq
        have hmem : c ∈ e :: frac := by
          rw [← (List.cons.inj hpoint).2]
          exact List.mem_append_right (d :: v) (List.mem_cons_self ..)
        have hdigit := hfrac c hmem
        rw [hc] at hdigit
        cases hdigit

/-- An operator is continued only by a byte that makes an operator of two bytes
of it. -/
private theorem uncut_operator_iff (hk : (w, k) ∈ operatorBytes) :
    Uncut w rest ↔
      ∀ b c, w = [b] → c ∈ rest.head? →
        Kind.ofSpelling? (textOf [b, c]) = none := by
  obtain ⟨hne, -⟩ := tail_of_mem _ hk
  constructor
  · rintro h b c rfl hc
    obtain ⟨more, rfl⟩ := List.head?_eq_some_iff.1 hc
    cases hlook : Kind.ofSpelling? (textOf [b, c]) with
    | none => rfl
    | some k' =>
        exact absurd (.operator (mem_operatorBytes hlook))
          (h [c] more rfl (List.cons_ne_nil c []) k')
  · rintro h (_ | ⟨c, v⟩) more rfl hv k' hk'
    · exact hv rfl
    · obtain ⟨b, u, rfl⟩ := List.exists_cons_of_ne_nil hne
      have hb : isWordByte b = false :=
        not_isWordByte_of_mem _ hk b (List.mem_cons_self ..)
      have hlonger : (b :: (u ++ c :: v), k') ∈ operatorBytes := hk'.of_other hb
      -- an operator has two bytes at most, so the shorter one has one
      rcases (tail_of_mem _ hlonger).2 with htail | htail
      · exact absurd htail (by simp)
      · obtain ⟨rfl, hcv⟩ :=
          List.append_eq_singleton_iff.1 htail |>.resolve_right (by simp)
        obtain ⟨rfl, rfl⟩ := List.cons.inj hcv
        have hlook : Kind.ofSpelling? (textOf [b, 61]) = some k' :=
          ofSpelling?_of_mem _ hlonger
        rw [h b 61 rfl rfl] at hlook
        cases hlook

end Classes

/-! ### What the scanner cuts off -/

private theorem head?_dropWhile {p : UInt8 → Bool} (bs : List UInt8) :
    ∀ c ∈ (bs.dropWhile p).head?, p c = false := by
  intro c hc
  have h := List.head?_dropWhile_not p bs
  rw [hc] at h
  exact h

private theorem uncut_of_word {b : UInt8} (hb : isLetter b = true)
    (bs : List UInt8) : Uncut (word (b :: bs)).bytes (word (b :: bs)).rest := by
  have hword : isWordByte b = true := by rw [isWordByte, hb]; rfl
  obtain ⟨w, hw, hall⟩ := takeWhile_cons_pos hword bs
  simp only [word, hw]
  exact (uncut_word_iff hb fun c hc => hall c (List.mem_cons_of_mem b hc)).2
    (head?_dropWhile _)

private theorem uncut_of_number {b : UInt8} (hb : isDigit b = true)
    (bs : List UInt8) :
    Uncut (number (b :: bs)).bytes (number (b :: bs)).rest := by
  obtain ⟨w, hw, hall⟩ := takeWhile_cons_pos hb bs
  have hrest := head?_dropWhile (p := isDigit) (b :: bs)
  simp only [number, hw]
  split
  · next d bs' hdrop =>
    rw [hdrop] at hrest
    by_cases hd : isDigit d = true
    · obtain ⟨v, hv, hall'⟩ := takeWhile_cons_pos hd bs'
      rw [if_pos hd, hv]
      exact (uncut_real_iff hall hall').2 (head?_dropWhile _)
    · rw [if_neg hd]
      refine (uncut_integer_iff hall).2 ⟨hrest, fun d' more heq => ?_⟩
      cases heq
      exact Bool.eq_false_of_not_eq_true hd
  · next hother =>
    exact (uncut_integer_iff hall).2
      ⟨hrest, fun d more heq => absurd heq (hother d more)⟩

private theorem uncut_of_operator {b : UInt8} {bs : List UInt8} {lx : Lexeme}
    (h : operator b bs = some lx) :
    lx.bytes ++ lx.rest = b :: bs ∧ Uncut lx.bytes lx.rest := by
  have hsingle (hnone : ∀ c ∈ bs.head?, Kind.ofSpelling? (textOf [b, c]) = none)
      (hs : single b bs = some lx) : lx.bytes ++ lx.rest = b :: bs ∧
      Uncut lx.bytes lx.rest := by
    obtain ⟨k, hk, rfl⟩ := Option.map_eq_some_iff.1 hs
    refine ⟨rfl,
      (uncut_operator_iff (mem_operatorBytes hk)).2 fun b' c heq hc => ?_⟩
    cases heq
    exact hnone c hc
  cases bs with
  | nil => exact hsingle (fun c hc => nomatch hc) h
  | cons c bs =>
      rw [operator] at h
      cases hk : Kind.ofSpelling? (textOf [b, c]) with
      | none =>
          rw [hk] at h
          exact hsingle (fun c' hc' => Option.some.inj hc' ▸ hk) h
      | some k =>
          rw [hk] at h
          cases h
          exact ⟨rfl, (uncut_operator_iff (mem_operatorBytes hk)).2
            fun b' c' heq => nomatch heq⟩

private theorem number_append (bs : List UInt8) :
    (number bs).bytes ++ (number bs).rest = bs := by
  have hwhole := List.takeWhile_append_dropWhile (p := isDigit) (l := bs)
  rw [number]
  split
  · next d more hdrop =>
    rw [hdrop] at hwhole
    split
    · rw [List.append_assoc, List.cons_append, List.takeWhile_append_dropWhile,
        hwhole]
    · exact hwhole
  · exact hwhole

/-- **The scanner cuts off what is spelt and not continued,** and nothing
else. -/
theorem split_eq_some_iff {bs : List UInt8} {lx : Lexeme} :
    split bs = some lx ↔
      lx.bytes ++ lx.rest = bs ∧ Spelt lx.kind lx.bytes ∧
      Uncut lx.bytes lx.rest := by
  constructor
  · intro h
    suffices huncut : lx.bytes ++ lx.rest = bs ∧ Uncut lx.bytes lx.rest from
      ⟨huncut.1, spelt_of_split h, huncut.2⟩
    cases bs with
    | nil => cases h
    | cons b bs =>
        rw [split] at h
        by_cases hl : isLetter b = true
        · rw [if_pos hl] at h
          cases h
          exact ⟨List.takeWhile_append_dropWhile, uncut_of_word hl bs⟩
        · by_cases hd : isDigit b = true
          · rw [if_neg hl, if_pos hd] at h
            cases h
            exact ⟨number_append (b :: bs), uncut_of_number hd bs⟩
          · rw [if_neg hl, if_neg hd] at h
            exact uncut_of_operator h
  · obtain ⟨k, w, rest⟩ := lx
    rintro ⟨rfl, hspelt, huncut⟩
    cases hspelt with
    | word hb hw => exact split_word hb hw ((uncut_word_iff hb hw).1 huncut)
    | integer hw =>
        obtain ⟨hrest, hpoint⟩ := (uncut_integer_iff hw).1 huncut
        exact split_integer hw hrest hpoint
    | real hw hv => exact split_real hw hv ((uncut_real_iff hw hv).1 huncut)
    | operator hk => exact split_operator hk ((uncut_operator_iff hk).1 huncut)

end Lexeme

/-! ## Gaps -/

/-- A gap: blanks, and comments that begin and end on one line. -/
inductive IsGap : List UInt8 → Prop where
  | nil : IsGap []
  /-- A space, a tab, a newline or a carriage return, and a gap behind it. -/
  | blank {b : UInt8} {g : List UInt8} (hb : b ∈ ([32, 9, 10, 13] : List UInt8))
      (hg : IsGap g) : IsGap (b :: g)
  /-- A comment from its opening to its closing brace, and a gap behind it. -/
  | comment {c g : List UInt8} (hc : ∀ b ∈ c, b ≠ 125 ∧ b ≠ 10) (hg : IsGap g) :
      IsGap (123 :: c ++ 125 :: g)

namespace Gap

/-- Bytes that no gap begins with. -/
def Over (rest : List UInt8) : Prop :=
  ∀ b ∈ rest.head?, isBlank b = false ∧ b ≠ commentOpen

theorem over_nil : Over [] := by
  intro b hb
  cases hb

theorem isBlank_iff {b : UInt8} :
    isBlank b = true ↔ b ∈ ([32, 9, 10, 13] : List UInt8) := by
  simp [isBlank, or_assoc]

theorem skip_over {rest : List UInt8} (h : Over rest) :
    skip false rest = ⟨[], rest, false⟩ := by
  cases rest with
  | nil => rfl
  | cons b rest =>
      obtain ⟨hblank, hopen⟩ := h b rfl
      simp only [skip, Bool.false_eq_true, if_false, hblank, if_neg hopen]

private theorem skip_comment {c : List UInt8} (hc : ∀ b ∈ c, b ≠ 125 ∧ b ≠ 10)
    (bs : List UInt8) :
    skip true (c ++ 125 :: bs) =
      ⟨c ++ 125 :: (skip false bs).skipped, (skip false bs).rest,
        (skip false bs).unclosed⟩ := by
  induction c with
  | nil => rfl
  | cons b c ih =>
      obtain ⟨⟨hclose, hline⟩, hc⟩ := List.forall_mem_cons.1 hc
      have hclose : b ≠ commentClose := hclose
      simp only [List.cons_append, skip, if_true, if_neg hclose, if_neg hline,
        ih hc, push]

/-- A gap is skipped, and then what can be skipped behind it. -/
theorem skip_gap {g : List UInt8} (hg : IsGap g) (bs : List UInt8) :
    skip false (g ++ bs) =
      ⟨g ++ (skip false bs).skipped, (skip false bs).rest,
        (skip false bs).unclosed⟩ := by
  induction hg with
  | nil => rfl
  | blank hb hg ih =>
      simp only [List.cons_append, skip, Bool.false_eq_true, if_false,
        if_pos (isBlank_iff.2 hb), ih, push]
  | @comment c g hc hg ih =>
      have hopen : skip false (123 :: (c ++ 125 :: (g ++ bs))) =
          (skip true (c ++ 125 :: (g ++ bs))).push 123 := rfl
      rw [List.cons_append, List.cons_append, List.append_assoc,
        List.cons_append, hopen, skip_comment hc, ih, push]
      simp only [List.cons_append, List.append_assoc]

/-- A gap is skipped whole. -/
theorem skip_append {g rest : List UInt8} (hg : IsGap g) (hrest : Over rest) :
    skip false (g ++ rest) = ⟨g, rest, false⟩ := by
  rw [skip_gap hg, skip_over hrest, List.append_nil]

/-- A gap, or the rest of one from within a comment on. -/
def Rest : Bool → List UInt8 → Prop
  | false, g => IsGap g
  | true, s => ∃ c g, s = c ++ 125 :: g ∧ (∀ b ∈ c, b ≠ 125 ∧ b ≠ 10) ∧ IsGap g

/-- What is skipped in front of a lexeme or of the end is a gap. -/
theorem isGap_of_skip (inside : Bool) (bs : List UInt8)
    (h : (skip inside bs).unclosed = false) :
    Rest inside (skip inside bs).skipped ∧ Over (skip inside bs).rest := by
  fun_induction skip inside bs with
  | case1 inside =>
      cases h
      exact ⟨.nil, over_nil⟩
  | case2 bs ih => exact ⟨⟨[], _, rfl, by simp, (ih h).1⟩, (ih h).2⟩
  | case3 => cases h
  | case4 b bs hclose hline ih =>
      obtain ⟨⟨c, g, hskip, hc, hg⟩, hover⟩ := ih h
      exact ⟨⟨b :: c, g, by rw [push, hskip]; rfl,
        List.forall_mem_cons.2 ⟨⟨hclose, hline⟩, hc⟩, hg⟩, hover⟩
  | case5 inside b bs hin hblank ih =>
      cases inside with
      | true => exact absurd rfl hin
      | false => exact ⟨.blank (isBlank_iff.1 hblank) (ih h).1, (ih h).2⟩
  | case6 inside bs hin hblank ih =>
      obtain ⟨⟨c, g, hskip, hc, hg⟩, hover⟩ := ih h
      cases inside with
      | true => exact absurd rfl hin
      | false =>
          refine ⟨?_, hover⟩
          rw [push, hskip]
          exact .comment hc hg
  | case7 inside b bs hin hblank hopen =>
      cases inside with
      | true => exact absurd rfl hin
      | false =>
          refine ⟨.nil, fun c hc => ?_⟩
          cases hc
          exact ⟨Bool.eq_false_of_not_eq_true hblank, hopen⟩

end Gap

/-! ## Layouts -/

/-- Bytes as they fall into gaps and lexemes, from a gap on. -/
inductive Layout where
  /-- A gap that ends the source. -/
  | last (gap : List UInt8)
  /-- A gap, a lexeme of a kind behind it, and so on. -/
  | lexeme (gap : List UInt8) (kind : Kind) (bytes : List UInt8) (rest : Layout)

namespace Layout

/-- The bytes of a layout. -/
def text : Layout → List UInt8
  | last gap => gap
  | lexeme gap _ bytes rest => gap ++ (bytes ++ rest.text)

/-- Gaps are gaps, and lexemes are spelt for their kind and not continued by
what follows. -/
def Sound : Layout → Prop
  | last gap => IsGap gap
  | lexeme gap kind bytes rest =>
    IsGap gap ∧ Lexeme.Spelt kind bytes ∧ Lexeme.Uncut bytes rest.text ∧
    rest.Sound

/-- The tokens of a layout that begins at a position: one for each lexeme, and
one for the end. -/
def tokens (pos : Pos) : Layout → List Token
  | last gap => [⟨.eof, "", pos.after gap⟩]
  | lexeme gap kind bytes rest =>
    ⟨kind, textOf bytes, pos.after gap⟩ ::
      rest.tokens ((pos.after gap).after bytes)

/-- The gap that a layout begins with. -/
def gap : Layout → List UInt8
  | last gap => gap
  | lexeme gap _ _ _ => gap

/-- The bytes behind the first gap. -/
def body : Layout → List UInt8
  | last _ => []
  | lexeme _ _ bytes rest => bytes ++ rest.text

end Layout

theorem Gap.over_append {k : Kind} {w : List UInt8} (hw : Lexeme.Spelt k w)
    (rest : List UInt8) : Over (w ++ rest) := by
  cases w with
  | nil => exact absurd rfl hw.ne_nil
  | cons b w => exact fun c hc => hw.byte.2 c hc

namespace Layout

private theorem skip_text {l : Layout} (h : l.Sound) :
    Gap.skip false l.text = ⟨l.gap, l.body, false⟩ := by
  cases l with
  | last g =>
      have hskip : Gap.skip false (g ++ []) = ⟨g, [], false⟩ :=
        Gap.skip_append h Gap.over_nil
      rwa [List.append_nil] at hskip
  | lexeme g k w rest => exact Gap.skip_append h.1 (Gap.over_append h.2.1 _)

private theorem split_body {gap bytes : List UInt8} {kind : Kind}
    {rest : Layout} (h : (lexeme gap kind bytes rest).Sound) :
    Lexeme.split (bytes ++ rest.text) = some ⟨kind, bytes, rest.text⟩ :=
  Lexeme.split_eq_some_iff.2 ⟨rfl, h.2.1, h.2.2.1⟩

/-- **A source has one layout at most.** The scanner's own way through the bytes
tells both layouts where the first gap and the first lexeme end. -/
theorem eq_of_text {l l' : Layout} (h : l.Sound) (h' : l'.Sound)
    (htext : l.text = l'.text) : l = l' := by
  induction l generalizing l' with
  | last g =>
      have hskip := (skip_text h).symm.trans (htext ▸ skip_text h')
      injection hskip with hgap hbody
      cases l' with
      | last g' => rw [show g = g' from hgap]
      | lexeme g' k' w' rest' =>
          exact absurd (List.append_eq_nil_iff.1 hbody.symm).1 h'.2.1.ne_nil
  | lexeme g k w rest ih =>
      have hskip := (skip_text h).symm.trans (htext ▸ skip_text h')
      injection hskip with hgap hbody
      cases l' with
      | last g' => exact absurd (List.append_eq_nil_iff.1 hbody).1 h.2.1.ne_nil
      | lexeme g' k' w' rest' =>
          have hbody : w ++ rest.text = w' ++ rest'.text := hbody
          have hsplit := (split_body h).symm.trans (hbody ▸ split_body h')
          injection hsplit with hsplit
          injection hsplit with hkind hbytes hrest
          rw [show g = g' from hgap, hkind, hbytes, ih h.2.2.2 h'.2.2.2 hrest]

end Layout

/-! ## Scanning -/

namespace Cursor

private theorem next_last {g : List UInt8} (hg : IsGap g) (pos : Pos) :
    next ⟨g, pos⟩ = (.ok ⟨.eof, "", pos.after g⟩, ⟨[], pos.after g⟩) := by
  have hskip := Layout.skip_text (l := .last g) hg
  simp only [Layout.text, Layout.gap, Layout.body] at hskip
  simp only [next, hskip, Bool.false_eq_true, if_false, List.isEmpty_nil,
    if_true]

private theorem next_gap {g : List UInt8} (hg : IsGap g) {k : Kind}
    {w rest : List UInt8} (hw : Lexeme.Spelt k w) (huncut : Lexeme.Uncut w rest)
    (pos : Pos) :
    next ⟨g ++ (w ++ rest), pos⟩ =
      (.ok ⟨k, textOf w, pos.after g⟩, ⟨rest, (pos.after g).after w⟩) := by
  have hskip := Gap.skip_append hg (Gap.over_append hw rest)
  have hsplit : Lexeme.split (w ++ rest) = some ⟨k, w, rest⟩ :=
    Lexeme.split_eq_some_iff.2 ⟨rfl, hw, huncut⟩
  have hempty : (w ++ rest).isEmpty = false := by
    simpa using fun h : w = [] => absurd h hw.ne_nil
  simp only [next, hskip, hempty, Bool.false_eq_true, if_false, hsplit]

/-- What the cursor went over when it read a token. -/
private theorem of_next {c c' : Cursor} {t : Token} (h : c.next = (.ok t, c')) :
    (IsGap c.rest ∧ t = ⟨.eof, "", c.pos.after c.rest⟩) ∨
    ∃ g k w, c.rest = g ++ (w ++ c'.rest) ∧ IsGap g ∧ Lexeme.Spelt k w ∧
      Lexeme.Uncut w c'.rest ∧ t = ⟨k, textOf w, c.pos.after g⟩ ∧
      c'.pos = (c.pos.after g).after w := by
  have happend := Gap.skipped_append_rest false c.rest
  simp only [next] at h
  by_cases hclosed : (Gap.skip false c.rest).unclosed = true
  · rw [if_pos hclosed] at h
    cases h
  · obtain ⟨hgap, -⟩ :=
      Gap.isGap_of_skip false c.rest (Bool.eq_false_of_not_eq_true hclosed)
    rw [if_neg hclosed] at h
    by_cases hempty : (Gap.skip false c.rest).rest.isEmpty = true
    · rw [if_pos hempty] at h
      rw [List.isEmpty_iff.1 hempty, List.append_nil] at happend
      rw [happend] at h hgap
      cases h
      exact .inl ⟨hgap, rfl⟩
    · rw [if_neg hempty] at h
      cases hlx : Lexeme.split (Gap.skip false c.rest).rest with
      | none =>
          rw [hlx] at h
          cases h
      | some lx =>
          rw [hlx] at h
          cases h
          obtain ⟨hbytes, hspelt, huncut⟩ := Lexeme.split_eq_some_iff.1 hlx
          exact .inr ⟨_, lx.kind, lx.bytes, by rw [hbytes, happend], hgap,
            hspelt, huncut, rfl, rfl⟩

end Cursor

namespace Layout

/-- A sound layout is read as its tokens. -/
private theorem upTo_text {l : Layout} (h : l.Sound) (pos : Pos) {n : Nat}
    (hn : l.text.length < n) :
    Scan.upTo n ⟨l.text, pos⟩ = ⟨l.tokens pos, none⟩ := by
  induction l generalizing pos n with
  | last g =>
      obtain ⟨n, rfl⟩ : ∃ m, n = m + 1 := ⟨n - 1, by omega⟩
      simp only [text, tokens, Scan.upTo, Cursor.next_last h, if_true]
  | lexeme g k w rest ih =>
      obtain ⟨hg, hw, huncut, hrest⟩ := h
      have hpos : 0 < w.length := List.length_pos_iff.2 hw.ne_nil
      obtain ⟨n, rfl⟩ : ∃ m, n = m + 1 := ⟨n - 1, by omega⟩
      simp only [text, List.length_append] at hn
      have hread := ih hrest ((pos.after g).after w) (n := n) (by omega)
      simp only [text, tokens, Scan.upTo, Cursor.next_gap hg hw huncut,
        if_neg hw.ne_eof, hread, Scan.push]

/-- What is read without an error has a layout. -/
theorem exists_of_upTo : ∀ (n : Nat) (c : Cursor),
    c.rest.length < n → (Scan.upTo n c).failure = none →
    ∃ l : Layout, l.Sound ∧ l.text = c.rest ∧
      l.tokens c.pos = (Scan.upTo n c).tokens := by
  intro n
  induction n with
  | zero => exact fun c hn => absurd hn (Nat.not_lt_zero _)
  | succ n ih =>
      intro c hn hnone
      rcases hnext : c.next with ⟨e | t, c'⟩
      · simp only [Scan.upTo, hnext] at hnone
        cases hnone
      · simp only [Scan.upTo, hnext] at hnone ⊢
        rcases Cursor.of_next hnext with
          ⟨hgap, rfl⟩ | ⟨g, k, w, hbytes, hgap, hw, huncut, rfl, hpos⟩
        · exact ⟨.last c.rest, hgap, rfl, rfl⟩
        · rw [if_neg hw.ne_eof] at hnone ⊢
          have hlength : 0 < w.length := List.length_pos_iff.2 hw.ne_nil
          have hn' : c'.rest.length < n := by
            rw [hbytes, List.length_append, List.length_append] at hn
            omega
          obtain ⟨l, hl, htext, htokens⟩ := ih c' hn' hnone
          rw [← htext] at huncut hbytes
          rw [hpos] at htokens
          exact ⟨.lexeme g k w l, ⟨hgap, hw, huncut, hl⟩, hbytes.symm,
            congrArg _ htokens⟩

/-- The end comes last, and what comes before it is spelt. -/
theorem tokens_eq {l : Layout} (h : l.Sound) (pos : Pos) :
    ∃ us : List Token, l.tokens pos = us ++ [⟨.eof, "", pos.after l.text⟩] ∧
      ∀ t ∈ us, t.Spelt := by
  induction l generalizing pos with
  | last g => exact ⟨[], rfl, by simp⟩
  | lexeme g k w rest ih =>
      obtain ⟨us, htokens, hus⟩ := ih h.2.2.2 ((pos.after g).after w)
      refine ⟨⟨k, textOf w, pos.after g⟩ :: us, ?_,
        List.forall_mem_cons.2 ⟨⟨w, h.2.1, rfl⟩, hus⟩⟩
      rw [tokens, htokens, text, Pos.after_append, Pos.after_append,
        List.cons_append]

end Layout

/-! ## Places -/

/-- Places are ordered by their lines, and within a line by their columns. -/
def Pos.key (p : Pos) : Nat ×ₗ Nat := toLex (p.line, p.column)

namespace Pos

private theorem key_lt_next (p : Pos) (b : UInt8) : p.key < (p.next b).key := by
  rw [key, key, Prod.Lex.toLex_lt_toLex, next]
  split
  · exact .inl (Nat.lt_succ_self _)
  · exact .inr ⟨rfl, Nat.lt_succ_self _⟩

private theorem key_le_after (p : Pos) (bs : List UInt8) :
    p.key ≤ (p.after bs).key := by
  induction bs generalizing p with
  | nil => exact le_rfl
  | cons b bs ih => exact (p.key_lt_next b).le.trans (ih (p.next b))

private theorem key_lt_after (p : Pos) {bs : List UInt8} (h : bs ≠ []) :
    p.key < (p.after bs).key := by
  obtain ⟨b, bs, rfl⟩ := List.exists_cons_of_ne_nil h
  exact (p.key_lt_next b).trans_le ((p.next b).key_le_after bs)

end Pos

/-- The tokens of a source stand one behind the other. -/
private theorem Scan.places (n : Nat) (c : Cursor) :
    (∀ t ∈ (Scan.upTo n c).tokens, c.pos.key ≤ t.pos.key) ∧
    (Scan.upTo n c).tokens.Pairwise fun s t => s.pos.key < t.pos.key := by
  induction n generalizing c with
  | zero => exact ⟨fun _ ht => (nomatch ht), .nil⟩
  | succ n ih =>
      rcases hnext : c.next with ⟨e | t, c'⟩
      · simp only [Scan.upTo, hnext]
        exact ⟨fun _ ht => (nomatch ht), .nil⟩
      · obtain ⟨hplaces, hpairs⟩ := ih c'
        simp only [Scan.upTo, hnext]
        rcases Cursor.of_next hnext with
          ⟨-, rfl⟩ | ⟨g, k, w, -, -, hw, -, rfl, hpos⟩
        · simpa using Pos.key_le_after c.pos c.rest
        · rw [if_neg hw.ne_eof, Scan.push]
          have hstart : c.pos.key ≤ (c.pos.after g).key := c.pos.key_le_after g
          have hbehind : (c.pos.after g).key < c'.pos.key :=
            hpos ▸ (c.pos.after g).key_lt_after hw.ne_nil
          refine ⟨List.forall_mem_cons.2 ⟨hstart, fun s hs => ?_⟩,
            List.pairwise_cons.2 ⟨fun s hs => ?_, hpairs⟩⟩
          · exact hstart.trans (hbehind.le.trans (hplaces s hs))
          · exact hbehind.trans_le (hplaces s hs)

/-- A token of a source stands at one place in it. -/
theorem Scan.split_unique {src : List UInt8} {t : Token}
    {pre pre' post post' : List Token}
    (h : (scan src).tokens = pre ++ t :: post)
    (h' : (scan src).tokens = pre' ++ t :: post') : pre = pre' := by
  have hnodup : (scan src).tokens.Nodup :=
    (Scan.places _ _).2.imp fun hlt heq => absurd (heq ▸ hlt) (lt_irrefl _)
  rw [h] at hnodup h'
  have hnot : t ∉ pre ++ post :=
    (List.nodup_cons.1 (List.nodup_middle.1 hnodup)).1
  rw [List.mem_append, not_or] at hnot
  exact ((List.append_cons_inj_of_notMem hnot.1 hnot.2).1 h').1

/-! ## Reserved words -/

/-- A token with the text of a reserved word is of its kind. -/
private theorem Token.Spelt.kind_of_reserved {t : Token} (h : t.Spelt)
    {k : Kind} (hk : (t.literal, k) ∈ Kind.reservedWords) : t.kind = k := by
  obtain ⟨w, hw, hlit⟩ := h
  obtain ⟨htext, hlook, b, hb, hletter, -⟩ := Kind.asciiBytes_reserved _ hk
  have hbytes : asciiBytes t.literal = w := textOf_injective (htext.trans hlit)
  obtain ⟨u, hu⟩ := List.head?_eq_some_iff.1 hb
  obtain rfl : w = b :: u := hbytes.symm.trans hu
  rw [(hw.of_letter hletter).1, ← hlit, Kind.ofWord, hlook, Option.getD_some]

/-- No name is a reserved word. -/
private theorem Token.Spelt.not_reserved {t : Token} (h : t.Spelt)
    (ht : t.kind = .ident) : Kind.isReserved t.literal = false := by
  have hnames : ∀ x ∈ Kind.reservedWords, x.2 ≠ .ident := by decide
  cases hlook : Kind.reservedWords.lookup t.literal with
  | none => rw [Kind.isReserved, hlook, Option.isSome_none]
  | some k =>
      have hmem := mem_of_lookup hlook
      exact absurd ((h.kind_of_reserved hmem).symm.trans ht) (hnames _ hmem)

/--
**What is read is what has a layout.** A source is read without an error exactly
if it falls into gaps and lexemes, and then its tokens are the lexemes at their
places, and the end. The layout of a source is unique. The token of the end
comes last and only there, reserved words have their own kinds, and no name is a
reserved word.
-/
theorem scan_eq_iff (src : List UInt8) :
    (∀ ts, scan src = ⟨ts, none⟩ ↔
      ∃ l : Layout, l.Sound ∧ l.text = src ∧ l.tokens .start = ts) ∧
    (∀ l l' : Layout, l.Sound → l'.Sound → l.text = src → l'.text = src →
      l = l') ∧
    ∀ ts, scan src = ⟨ts, none⟩ →
      ∃ us, ts = us ++ [⟨.eof, "", Pos.start.after src⟩] ∧
        ∀ t ∈ us, t.kind ≠ .eof ∧
          (∀ k, (t.literal, k) ∈ Kind.reservedWords → t.kind = k) ∧
          (t.kind = .ident → Kind.isReserved t.literal = false) := by
  have hiff : ∀ ts, scan src = ⟨ts, none⟩ ↔
      ∃ l : Layout, l.Sound ∧ l.text = src ∧ l.tokens .start = ts := by
    intro ts
    constructor
    · intro h
      have hfailure : (scan src).failure = none := by rw [h]
      obtain ⟨l, hl, htext, htokens⟩ :=
        Layout.exists_of_upTo _ (.ofSource src) (Nat.lt_succ_self _) hfailure
      exact ⟨l, hl, htext, htokens.trans (congrArg Scan.tokens h)⟩
    · rintro ⟨l, hl, rfl, rfl⟩
      exact Layout.upTo_text hl .start (Nat.lt_succ_self _)
  refine ⟨hiff, fun l l' h h' htext htext' =>
    Layout.eq_of_text h h' (htext.trans htext'.symm), fun ts hts => ?_⟩
  obtain ⟨l, hl, rfl, rfl⟩ := (hiff ts).1 hts
  obtain ⟨us, htokens, hus⟩ := Layout.tokens_eq hl .start
  refine ⟨us, htokens, fun t ht =>
    ⟨?_, fun k hk => (hus t ht).kind_of_reserved hk, (hus t ht).not_reserved⟩⟩
  obtain ⟨w, hw, -⟩ := hus t ht
  exact hw.ne_eof

end Fixture
