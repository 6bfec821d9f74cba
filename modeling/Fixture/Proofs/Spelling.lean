import Mathlib
import Fixture.Scan
/-!
# Spellings

Which bytes a token can be written with, and what the scanner makes of them. A
spelling is a word, a row of digits with or without a fraction, or an entry of
the table of operators. The scanner cuts the longest lexeme, so a spelling is
only safe in front of bytes that cannot continue it: `Clear` says that of what
follows.

Two facts connect spellings to the scanner. Whatever it cuts off is a spelling,
and a spelling in front of clear bytes is cut off whole.

## Main results

* `Lexeme.spelt_of_split`: a lexeme is spelt for its kind.
* `Lexeme.split_append`: a spelling is read back as its kind, whatever clear
  bytes follow.
* `Token.spelt_of_mem_scan`: every token of a source but its end is spelt.
* `Token.Spelt.literal_eq`: outside names and literals, the kind of a token
  fixes its text.
-/

namespace Fixture

attribute [local simp] List.lookup Kind.ofWord Kind.ofSpelling? Kind.isReserved
  isLetter isDigit isWordByte isBlank Lexeme.word Lexeme.number Lexeme.single
  Lexeme.operator Lexeme.split Gap.skip Cursor.next Scan.upTo

/-! ## Texts and their bytes -/

private theorem toList_loop (bs : ByteArray) (i : Nat) (acc : List UInt8) :
    ByteArray.toList.loop bs i acc = acc.reverse ++ bs.data.toList.drop i := by
  fun_induction ByteArray.toList.loop bs i acc with
  | case1 i acc hi ih =>
      have hlen : i < bs.data.toList.length := hi
      have hget : bs.get! i = bs.data.toList[i] := getElem!_pos bs.data i hi
      rw [ih, List.drop_eq_getElem_cons hlen, List.reverse_cons,
        List.append_assoc, hget]
      rfl
  | case2 i acc hi =>
      have hlen : bs.data.toList.length ≤ i := Nat.le_of_not_lt hi
      rw [List.drop_eq_nil_of_le hlen, List.append_nil]

private theorem bytesOf_eq (s : String) :
    bytesOf s = s.toByteArray.data.toList := by
  rw [bytesOf, ByteArray.toList, toList_loop]
  rfl

theorem bytesOf_append (s t : String) :
    bytesOf (s ++ t) = bytesOf s ++ bytesOf t := by
  simp only [bytesOf_eq, String.toByteArray_append,
    ByteArray.toList_data_append]

theorem bytesOf_ofList (cs : List Char) :
    bytesOf (String.ofList cs) = cs.flatMap String.utf8EncodeChar := by
  rw [bytesOf_eq, String.toByteArray_ofList, List.utf8Encode,
    List.toList_data_toByteArray]

private theorem toNat_ofNat {n : Nat} (h : n < 256) :
    (Char.ofNat n).toNat = n := by
  have hvalid : n.isValidChar := .inl (by omega)
  rw [Char.ofNat, dif_pos hvalid]
  rfl

private theorem utf8EncodeChar_ofNat {b : UInt8} (h : b.toNat < 128) :
    String.utf8EncodeChar (Char.ofNat b.toNat) = [b] := by
  have hb : (Char.ofNat b.toNat).toNat = b.toNat := toNat_ofNat (by omega)
  have hsize : (Char.ofNat b.toNat).utf8Size = 1 := by
    rw [Char.utf8Size_eq_one_iff, UInt32.le_iff_toNat_le]
    show (Char.ofNat b.toNat).toNat ≤ 127
    omega
  rw [String.utf8EncodeChar_eq_singleton hsize]
  congr 1
  apply UInt8.toNat_inj.1
  rw [UInt32.toNat_toUInt8]
  show (Char.ofNat b.toNat).toNat % 2 ^ 8 = b.toNat
  omega

/-- ASCII bytes are the bytes of their text. -/
theorem bytesOf_textOf {w : List UInt8} (h : ∀ b ∈ w, b.toNat < 128) :
    bytesOf (textOf w) = w := by
  rw [textOf, bytesOf_ofList]
  induction w with
  | nil => rfl
  | cons b w ih =>
      have hb : b.toNat < 128 := h b (by simp)
      have hw : ∀ c ∈ w, c.toNat < 128 := fun c hc => h c (by simp [hc])
      rw [List.map_cons, List.flatMap_cons, utf8EncodeChar_ofNat hb, ih hw]
      rfl

/-- The characters of a text as bytes, where they are that small. -/
def asciiBytes (s : String) : List UInt8 :=
  s.toList.map fun c => UInt8.ofNat c.toNat

theorem textOf_asciiBytes {s : String} (h : ∀ c ∈ s.toList, c.toNat < 128) :
    textOf (asciiBytes s) = s := by
  have hchars : (asciiBytes s).map (fun b => Char.ofNat b.toNat) =
      s.toList := by
    rw [asciiBytes, List.map_map]
    refine (List.map_congr_left fun c hc => ?_).trans (List.map_id' s.toList)
    have hsmall : c.toNat < 128 := h c hc
    rw [Function.comp_apply, UInt8.toNat_ofNat', Nat.mod_eq_of_lt (by omega),
      Char.ofNat_toNat]
  rw [textOf, hchars, String.ofList_toList]

/-- Different bytes make different texts. -/
theorem textOf_injective {w w' : List UInt8} (h : textOf w = textOf w') :
    w = w' := by
  have hmap := String.ofList_injective h
  refine List.map_inj_right ?_ |>.1 hmap
  intro b c hbc
  apply UInt8.toNat_inj.1
  have hn := congrArg Char.toNat hbc
  rwa [toNat_ofNat b.toNat_lt, toNat_ofNat c.toNat_lt] at hn

/-! ## Spellings -/

/-- The spellings of operators and delimiters, byte for byte. -/
def operatorBytes : List (List UInt8 × Kind) :=
  [([58, 61], .assign), ([61, 61], .equal), ([33, 61], .notEqual),
    ([60, 61], .lessEq), ([62, 61], .greaterEq), ([60], .less),
    ([62], .greater), ([43], .plus), ([45], .minus), ([42], .mul),
    ([47], .floatDiv), ([40], .lparen), ([41], .rparen), ([59], .semi),
    ([58], .colon), ([44], .comma), ([46], .dot)]

theorem spellings_eq :
    Kind.spellings = operatorBytes.map fun x => (textOf x.1, x.2) := by decide

theorem mem_of_lookup {α : Type} {table : List (String × α)} {s : String}
    {a : α} (h : table.lookup s = some a) : (s, a) ∈ table := by
  obtain ⟨front, back, rfl, -⟩ := List.lookup_eq_some_iff.1 h
  simp

theorem mem_operatorBytes {w : List UInt8} {k : Kind}
    (h : Kind.ofSpelling? (textOf w) = some k) : (w, k) ∈ operatorBytes := by
  have hmem := mem_of_lookup h
  rw [spellings_eq, List.mem_map] at hmem
  obtain ⟨⟨w', k'⟩, hw', heq⟩ := hmem
  rw [Prod.mk.injEq] at heq
  obtain rfl := textOf_injective heq.1
  obtain rfl := heq.2
  exact hw'

/-- A run of things of one kind is split off where another kind begins. -/
theorem span_append {α : Type} {p : α → Bool} {w rest : List α}
    (hw : ∀ c ∈ w, p c = true) (hrest : ∀ b ∈ rest.head?, p b = false) :
    (w ++ rest).takeWhile p = w ∧ (w ++ rest).dropWhile p = rest := by
  rw [List.takeWhile_append_of_pos hw, List.dropWhile_append_of_pos hw]
  cases rest with
  | nil => exact ⟨List.append_nil w, rfl⟩
  | cons b rest =>
      have hb : ¬ p b = true := by rw [hrest b rfl]; exact Bool.false_ne_true
      rw [List.takeWhile_cons_of_neg hb, List.dropWhile_cons_of_neg hb]
      exact ⟨List.append_nil w, rfl⟩

namespace Lexeme

/-- The bytes that a lexeme of a kind can be written with. -/
inductive Spelt : Kind → List UInt8 → Prop where
  /-- A letter and word bytes, for the kind of that word. -/
  | word {b : UInt8} {w : List UInt8} (letter : isLetter b = true)
      (more : ∀ c ∈ w, isWordByte c = true) :
      Spelt (Kind.ofWord (textOf (b :: w))) (b :: w)
  | integer {b : UInt8} {w : List UInt8}
      (digits : ∀ c ∈ b :: w, isDigit c = true) : Spelt .integerConst (b :: w)
  /-- Digits, a point and digits. -/
  | real {b d : UInt8} {w v : List UInt8}
      (whole : ∀ c ∈ b :: w, isDigit c = true)
      (fraction : ∀ c ∈ d :: v, isDigit c = true) :
      Spelt .realConst (b :: w ++ 46 :: d :: v)
  | operator {w : List UInt8} {k : Kind} (listed : (w, k) ∈ operatorBytes) :
      Spelt k w

/-- A byte that continues no lexeme. -/
def isClear (b : UInt8) : Bool := !isWordByte b && b != 46 && b != 61

/-- Bytes that continue no lexeme in front of them. -/
def Clear (bs : List UInt8) : Prop := ∀ b ∈ bs.head?, isClear b = true

theorem Clear.cons {b : UInt8} (h : isClear b = true) (bs : List UInt8) :
    Clear (b :: bs) := by
  intro c hc
  cases hc
  exact h

/-! ### What is cut off is spelt -/

theorem takeWhile_cons_pos {p : UInt8 → Bool} {b : UInt8} (h : p b = true)
    (bs : List UInt8) :
    ∃ w, (b :: bs).takeWhile p = b :: w ∧ ∀ c ∈ b :: w, p c = true := by
  refine ⟨bs.takeWhile p, List.takeWhile_cons_of_pos h, ?_⟩
  rw [← List.takeWhile_cons_of_pos h]
  exact List.all_eq_true.1 List.all_takeWhile

private theorem spelt_word {b : UInt8} (h : isLetter b = true)
    (bs : List UInt8) : Spelt (word (b :: bs)).kind (word (b :: bs)).bytes := by
  have hword : isWordByte b = true := by rw [isWordByte, h]; rfl
  obtain ⟨w, hw, hall⟩ := takeWhile_cons_pos hword bs
  simp only [word, hw]
  exact .word h fun c hc => hall c (List.mem_cons_of_mem b hc)

private theorem spelt_number {b : UInt8} (h : isDigit b = true)
    (bs : List UInt8) :
    Spelt (number (b :: bs)).kind (number (b :: bs)).bytes := by
  obtain ⟨w, hw, hall⟩ := takeWhile_cons_pos h bs
  simp only [number, hw]
  split
  · next d bs' hrest =>
    by_cases hd : isDigit d = true
    · obtain ⟨v, hv, hall'⟩ := takeWhile_cons_pos hd bs'
      rw [if_pos hd, hv]
      exact .real hall hall'
    · rw [if_neg hd]
      exact .integer hall
  · exact .integer hall

private theorem spelt_operator {b : UInt8} {bs : List UInt8} {lx : Lexeme}
    (h : operator b bs = some lx) : Spelt lx.kind lx.bytes := by
  have hsingle {cs : List UInt8} (hs : single b cs = some lx) :
      Spelt lx.kind lx.bytes := by
    obtain ⟨k, hk, rfl⟩ := Option.map_eq_some_iff.1 hs
    exact .operator (mem_operatorBytes hk)
  cases bs with
  | nil => exact hsingle h
  | cons c bs =>
      rw [operator] at h
      cases hk : Kind.ofSpelling? (textOf [b, c]) with
      | none =>
          rw [hk] at h
          exact hsingle h
      | some k =>
          rw [hk] at h
          cases h
          exact .operator (mem_operatorBytes hk)

/-- **What the scanner cuts off is spelt for its kind.** -/
theorem spelt_of_split {bs : List UInt8} {lx : Lexeme}
    (h : split bs = some lx) : Spelt lx.kind lx.bytes := by
  cases bs with
  | nil => cases h
  | cons b bs =>
      rw [split] at h
      by_cases hl : isLetter b = true
      · rw [if_pos hl] at h
        cases h
        exact spelt_word hl bs
      · by_cases hd : isDigit b = true
        · rw [if_neg hl, if_pos hd] at h
          cases h
          exact spelt_number hd bs
        · rw [if_neg hl, if_neg hd] at h
          exact spelt_operator h

/-! ### What is spelt is cut off -/

private theorem not_isWordByte_of_isClear {b : UInt8} (h : isClear b = true) :
    isWordByte b = false := by
  simp only [isClear, Bool.and_eq_true, Bool.not_eq_true'] at h
  exact h.1.1

private theorem not_isDigit_of_isClear {b : UInt8} (h : isClear b = true) :
    isDigit b = false :=
  (Bool.or_eq_false_iff.1 (not_isWordByte_of_isClear h)).2

theorem not_isLetter_of_isDigit {b : UInt8} (h : isDigit b = true) :
    isLetter b = false := by
  simp only [isDigit, isLetter, Bool.and_eq_true, decide_eq_true_eq,
    UInt8.le_iff_toNat_le, UInt8.reduceToNat, Bool.or_eq_false_iff,
    Bool.and_eq_false_iff, decide_eq_false_iff_not, beq_eq_false_iff_ne, ne_eq,
    ← UInt8.toNat_inj] at h ⊢
  omega

/-- A word ends before any byte that is no word byte. -/
theorem split_word {b : UInt8} {w rest : List UInt8} (hb : isLetter b = true)
    (hw : ∀ c ∈ w, isWordByte c = true)
    (hrest : ∀ c ∈ rest.head?, isWordByte c = false) :
    split (b :: w ++ rest) =
      some ⟨Kind.ofWord (textOf (b :: w)), b :: w, rest⟩ := by
  have hword : isWordByte b = true := by rw [isWordByte, hb]; rfl
  obtain ⟨htake, hdrop⟩ :=
    span_append (List.forall_mem_cons.2 ⟨hword, hw⟩) hrest
  rw [List.cons_append] at htake hdrop
  simp only [List.cons_append, split, if_pos hb, word, htake, hdrop]

/-- A row of digits ends before any byte that is no digit, unless it is a point
and a digit follows. -/
theorem split_integer {b : UInt8} {w rest : List UInt8}
    (hw : ∀ c ∈ b :: w, isDigit c = true)
    (hrest : ∀ c ∈ rest.head?, isDigit c = false)
    (hpoint : ∀ d more, rest = 46 :: d :: more → isDigit d = false) :
    split (b :: w ++ rest) = some ⟨.integerConst, b :: w, rest⟩ := by
  have hb : isDigit b = true := hw b (List.mem_cons_self ..)
  obtain ⟨htake, hdrop⟩ := span_append hw hrest
  rw [List.cons_append] at htake hdrop
  simp only [List.cons_append, split, not_isLetter_of_isDigit hb,
    Bool.false_eq_true, if_false, if_pos hb, number, htake, hdrop]
  split
  · next d more =>
    rw [if_neg (by rw [hpoint d more rfl]; exact Bool.false_ne_true)]
  · rfl

/-- A fraction ends before any byte that is no digit. -/
theorem split_real {b d : UInt8} {w v rest : List UInt8}
    (hw : ∀ c ∈ b :: w, isDigit c = true) (hv : ∀ c ∈ d :: v, isDigit c = true)
    (hrest : ∀ c ∈ rest.head?, isDigit c = false) :
    split (b :: w ++ 46 :: d :: v ++ rest) =
      some ⟨.realConst, b :: w ++ 46 :: d :: v, rest⟩ := by
  have hb : isDigit b = true := hw b (List.mem_cons_self ..)
  have hd : isDigit d = true := hv d (List.mem_cons_self ..)
  have hpoint : ∀ c ∈ (46 :: d :: (v ++ rest)).head?, isDigit c = false := by
    intro c hc
    cases hc
    rfl
  obtain ⟨htake, hdrop⟩ := span_append hw hpoint
  obtain ⟨htake', hdrop'⟩ := span_append hv hrest
  rw [List.cons_append] at htake hdrop htake' hdrop'
  simp only [List.append_assoc, List.cons_append, split,
    not_isLetter_of_isDigit hb, Bool.false_eq_true, if_false, if_pos hb, number,
    htake, hdrop, if_pos hd, htake', hdrop']

/-- What a test finds of every byte of the table. -/
private theorem of_mem_operatorBytes {p : UInt8 → Bool}
    (h : operatorBytes.all (fun x => x.1.all p) = true) :
    ∀ x ∈ operatorBytes, ∀ b ∈ x.1, p b = true :=
  fun x hx => List.all_eq_true.1 (List.all_eq_true.1 h x hx)

theorem not_isWordByte_of_mem : ∀ x ∈ operatorBytes,
    ∀ b ∈ x.1, isWordByte b = false := by
  -- the table is gone through; the statement itself would be decided by trying
  -- all bytes there are
  have htable : operatorBytes.all (fun x => x.1.all fun b => !isWordByte b) =
      true := by decide
  intro x hx b hb
  rw [← Bool.not_eq_true']
  exact of_mem_operatorBytes htable x hx b hb

theorem ofSpelling?_of_mem : ∀ x ∈ operatorBytes,
    Kind.ofSpelling? (textOf x.1) = some x.2 := by decide

/-- No spelling of an operator is longer than two bytes, and the second one is
an equals sign. -/
theorem tail_of_mem : ∀ x ∈ operatorBytes,
    x.1 ≠ [] ∧ (x.1.tail = [] ∨ x.1.tail = [61]) := by decide

theorem split_cons_operator {b : UInt8} (hb : isWordByte b = false)
    (bs : List UInt8) : split (b :: bs) = operator b bs := by
  obtain ⟨hl, hd⟩ := Bool.or_eq_false_iff.1 hb
  simp only [split, hl, hd, Bool.false_eq_true, if_false]

theorem split_operator {w rest : List UInt8} {k : Kind}
    (hk : (w, k) ∈ operatorBytes)
    (hrest : ∀ b c, w = [b] → c ∈ rest.head? →
      Kind.ofSpelling? (textOf [b, c]) = none) :
    split (w ++ rest) = some ⟨k, w, rest⟩ := by
  have hlook : Kind.ofSpelling? (textOf w) = some k := ofSpelling?_of_mem _ hk
  obtain ⟨hne, htail⟩ := tail_of_mem _ hk
  cases w with
  | nil => exact absurd rfl hne
  | cons b v =>
      have hb : isWordByte b = false :=
        not_isWordByte_of_mem _ hk b (List.mem_cons_self ..)
      rw [List.cons_append, split_cons_operator hb]
      rcases htail with rfl | rfl
      · have hsingle (bs : List UInt8) : single b bs = some ⟨k, [b], bs⟩ := by
          rw [single, hlook]; rfl
        cases rest with
        | nil => exact hsingle []
        | cons c rest =>
            show operator b (c :: rest) = _
            rw [operator, hrest b c rfl rfl]
            exact hsingle (c :: rest)
      · show operator b (61 :: rest) = _
        rw [operator, hlook]

/-- In front of clear bytes an operator is no part of a longer one. -/
private theorem ofSpelling?_eq_none {b c : UInt8} (hc : c ≠ 61) :
    Kind.ofSpelling? (textOf [b, c]) = none := by
  cases hk : Kind.ofSpelling? (textOf [b, c]) with
  | none => rfl
  | some k =>
      rcases (tail_of_mem _ (mem_operatorBytes hk)).2 with h | h
      · cases h
      · cases h
        exact absurd rfl hc

/-- **What is spelt is cut off whole,** in front of whatever does not continue
it. -/
theorem split_append {k : Kind} {w rest : List UInt8} (h : Spelt k w)
    (hrest : Clear rest) : split (w ++ rest) = some ⟨k, w, rest⟩ := by
  cases h with
  | word hb hw =>
      exact split_word hb hw fun c hc => not_isWordByte_of_isClear (hrest c hc)
  | integer hw =>
      refine split_integer hw (fun c hc => not_isDigit_of_isClear (hrest c hc))
        fun d more hpoint => ?_
      -- A point cannot stand behind the digits, since it is not clear.
      exact absurd (hrest 46 (by rw [hpoint]; rfl)) (by decide)
  | real hw hv =>
      exact split_real hw hv fun c hc => not_isDigit_of_isClear (hrest c hc)
  | operator hk =>
      refine split_operator hk fun b c _ hc => ofSpelling?_eq_none ?_
      rintro rfl
      exact absurd (hrest 61 hc) (by decide)

/-- The operators that no longer one begins with are safe in front of
anything. -/
theorem split_lone {b : UInt8} {k : Kind} (hk : ([b], k) ∈ operatorBytes)
    (hb : b ∉ [58, 61, 33, 60, 62]) (rest : List UInt8) :
    split (b :: rest) = some ⟨k, [b], rest⟩ := by
  have halone : ∀ b' c, [b] = [b'] → c ∈ rest.head? →
      Kind.ofSpelling? (textOf [b', c]) = none := by
    intro b' c hb' _
    cases hb'
    cases hk' : Kind.ofSpelling? (textOf [b, c]) with
    | none => rfl
    | some k' =>
        have hlong : ∀ x ∈ operatorBytes, x.1.tail ≠ [] →
            x.1.headD 0 ∈ [58, 61, 33, 60, 62] := by decide
        exact absurd (hlong _ (mem_operatorBytes hk') (List.cons_ne_nil c []))
          hb
  exact split_operator hk halone

/-! ### The bytes of a spelling -/

private theorem isWordByte_facts {b : UInt8} (h : isWordByte b = true) :
    b.toNat < 128 ∧ isBlank b = false ∧ b ≠ commentOpen := by
  simp only [isWordByte, isLetter, isDigit, isBlank, commentOpen,
    Bool.or_eq_true, Bool.and_eq_true, decide_eq_true_eq, UInt8.le_iff_toNat_le,
    UInt8.reduceToNat, beq_iff_eq, Bool.or_eq_false_iff, beq_eq_false_iff_ne,
    ne_eq, ← UInt8.toNat_inj] at h ⊢
  omega

theorem Spelt.ne_nil {k : Kind} {w : List UInt8} (h : Spelt k w) : w ≠ [] := by
  cases h with
  | operator hk => exact (tail_of_mem _ hk).1
  | _ => simp

/-- A spelling is ASCII, and neither a blank nor a comment begins with its
bytes. -/
theorem Spelt.byte {k : Kind} {w : List UInt8} (h : Spelt k w) :
    (∀ b ∈ w, b.toNat < 128) ∧
    ∀ b ∈ w.head?, isBlank b = false ∧ b ≠ commentOpen := by
  have hwords {v : List UInt8} (hv : ∀ b ∈ v, isWordByte b = true) :
      (∀ b ∈ v, b.toNat < 128) ∧
      ∀ b ∈ v.head?, isBlank b = false ∧ b ≠ commentOpen :=
    ⟨fun b hb => (isWordByte_facts (hv b hb)).1,
      fun b hb => (isWordByte_facts (hv b (List.mem_of_mem_head? hb))).2⟩
  have hdigit {b : UInt8} (hb : isDigit b = true) : isWordByte b = true := by
    rw [isWordByte, hb, Bool.or_true]
  cases h with
  | word hb hw =>
      exact hwords (List.forall_mem_cons.2 ⟨by rw [isWordByte, hb]; rfl, hw⟩)
  | integer hw => exact hwords fun b hb => hdigit (hw b hb)
  | @real b d w v hw hv =>
      refine ⟨fun c hc => ?_, fun c hc => ?_⟩
      · rcases List.mem_append.1 hc with hc | hc
        · exact (isWordByte_facts (hdigit (hw c hc))).1
        · rcases List.mem_cons.1 hc with rfl | hc
          · decide
          · exact (isWordByte_facts (hdigit (hv c hc))).1
      · cases hc
        exact (isWordByte_facts (hdigit (hw b (List.mem_cons_self ..)))).2
  | operator hk =>
      have hascii : operatorBytes.all
            (fun x => x.1.all fun b => decide (b.toNat < 128)) = true := by
        decide
      have hfirst : operatorBytes.all
            (fun x => x.1.all fun b => !isBlank b && b != commentOpen) =
          true := by decide
      refine ⟨fun b hb => ?_, fun b hb => ?_⟩
      · exact of_decide_eq_true (of_mem_operatorBytes hascii _ hk b hb)
      · simpa
          using of_mem_operatorBytes hfirst _ hk b (List.mem_of_mem_head? hb)

end Lexeme

/-! ## Tokens -/

/-- A token with bytes behind its text that are spelt for its kind. -/
def Token.Spelt (t : Token) : Prop :=
  ∃ w, Lexeme.Spelt t.kind w ∧ t.literal = textOf w

private theorem Cursor.spelt_of_next {c : Cursor} {t : Token}
    (h : c.next.1 = .ok t) (ht : t.kind ≠ .eof) : t.Spelt := by
  simp only [Cursor.next] at h
  split at h
  · cases h
  · split at h
    · cases h
      exact absurd rfl ht
    · cases hlx : Lexeme.split (Gap.skip false c.rest).rest with
      | none =>
          rw [hlx] at h
          cases h
      | some lx =>
          rw [hlx] at h
          cases h
          exact ⟨lx.bytes, Lexeme.spelt_of_split hlx, rfl⟩

private theorem Scan.spelt_of_mem_upTo {t : Token} (ht : t.kind ≠ .eof) :
    ∀ (n : Nat) (c : Cursor), t ∈ (Scan.upTo n c).tokens → t.Spelt := by
  intro n
  induction n with
  | zero =>
      intro c h
      cases h
  | succ n ih =>
      intro c h
      rcases hnext : c.next with ⟨e | s, c'⟩
      · simp only [Scan.upTo, hnext] at h
        cases h
      · have hs : s.kind ≠ .eof → s.Spelt :=
          Cursor.spelt_of_next (by rw [hnext])
        simp only [Scan.upTo, hnext] at h
        by_cases hk : s.kind = .eof
        · rw [if_pos hk] at h
          rw [List.mem_singleton.1 h] at ht
          exact absurd hk ht
        · rw [if_neg hk] at h
          rcases List.mem_cons.1 h with rfl | h
          · exact hs hk
          · exact ih c' h

/-- **Every token of a source but its end is spelt.** -/
theorem Token.spelt_of_mem_scan {src : List UInt8} {t : Token}
    (h : t ∈ (scan src).tokens) (ht : t.kind ≠ .eof) : t.Spelt :=
  Scan.spelt_of_mem_upTo ht _ _ h

/-! ## Kinds with one text -/

namespace Kind

/-- Every reserved word and every operator, with its kind. -/
def vocabulary : List (String × Kind) := reservedWords ++ spellings

/-- The text of a kind, for a kind with a single one. -/
def spelling (k : Kind) : String :=
  ((vocabulary.find? fun x => x.2 == k).map Prod.fst).getD ""

/-- The kinds with a single text: those of reserved words and operators, truth
values aside. -/
def isFixed (k : Kind) : Bool :=
  vocabulary.any (fun x => x.2 == k) && k != .boolConst

theorem eq_spelling_of_mem : ∀ x ∈ vocabulary,
    x.2.isFixed = true → x.1 = x.2.spelling := by decide

theorem asciiBytes_reserved : ∀ x ∈ reservedWords,
    textOf (asciiBytes x.1) = x.1 ∧ reservedWords.lookup x.1 = some x.2 ∧
    ∃ b ∈ (asciiBytes x.1).head?, isLetter b = true ∧
      ∀ c ∈ (asciiBytes x.1).tail, isWordByte c = true := by
  have hascii : reservedWords.all
        (fun x => x.1.toList.all fun c => decide (c.toNat < 128)) = true := by
    decide +kernel
  have hlook : ∀ x ∈ reservedWords, reservedWords.lookup x.1 = some x.2 := by
    decide
  have hword : reservedWords.all (fun x =>
        (asciiBytes x.1).head?.any isLetter &&
        (asciiBytes x.1).tail.all isWordByte) = true := by decide +kernel
  intro x hx
  obtain ⟨hhead, htail⟩ :=
    Bool.and_eq_true_iff.1 (List.all_eq_true.1 hword x hx)
  obtain ⟨b, hb, hletter⟩ := (Option.any_eq_true _ _).1 hhead
  refine ⟨textOf_asciiBytes fun c hc => ?_, hlook x hx, b, hb, hletter,
    List.all_eq_true.1 htail⟩
  exact of_decide_eq_true
    (List.all_eq_true.1 (List.all_eq_true.1 hascii x hx) c hc)

end Kind

namespace Token

/-- **The kind fixes the text,** except for names and literals. -/
theorem Spelt.literal_eq {t : Token} (h : t.Spelt)
    (hk : t.kind.isFixed = true) : t.literal = t.kind.spelling := by
  obtain ⟨w, hw, hlit⟩ := h
  rw [hlit]
  generalize t.kind = k at hw hk
  cases hw with
  | word hb hv =>
      next b v =>
      rw [Kind.ofWord] at hk ⊢
      cases hlook : Kind.reservedWords.lookup (textOf (b :: v)) with
      | none =>
          rw [hlook] at hk
          exact absurd hk (by decide)
      | some k =>
          rw [hlook] at hk
          exact Kind.eq_spelling_of_mem _
            (List.mem_append_left _ (mem_of_lookup hlook)) hk
  | integer hv => exact absurd hk (by decide)
  | real hv hv' => exact absurd hk (by decide)
  | operator hmem =>
      have hlook := mem_of_lookup (Lexeme.ofSpelling?_of_mem _ hmem)
      exact Kind.eq_spelling_of_mem _ (List.mem_append_right _ hlook) hk

end Token

end Fixture
