import Fixture.Lexeme
import Fixture.Proofs.Decimal.Scientific
import Fixture.Toml.Contents
/-!
# Records read back from documents

What is asked of a package for TOML documents, and what follows for the
records that go through it. The package itself stays outside: a `Lawful` one
writes a record as a document with a line for each field, reads such a
document line by line, and reads the text of a finite float as the float.

The first two laws meet in the contents of a document. They say nothing of
each other, so three things are left to show: that the text of a value, as it
is written, is one that stands for the value; that the keys under which the
fields of a record are written lead back to the fields; and what becomes of a
field that is left out.

## Main results

* `Lawful.reads_written`: a value is read as it was written.
* `Shape.Sound.assign?_contents`: the lines of a record are put into effect
  field by field.
* `Lawful.decode_of_marshal`: a record that was written replaces the fields of
  the record that it is read over, apart from those that were left out.
-/

namespace Fixture.Toml

variable {α ν : Type}

/-! ## Spelling -/

/-- A key that needs no quotes. -/
def Bare (key : String) : Prop :=
  key.toList ≠ [] ∧ key.toList.all isKeyChar = true

instance (key : String) : Decidable (Bare key) :=
  inferInstanceAs (Decidable (_ ∧ _))

/-- The keys of a table differ and need no quotes. -/
structure Part.WellNamed (p : Part ν) : Prop where
  name : Bare p.name
  keys : ∀ l ∈ p.lines, Bare l.key
  nodup : (p.lines.map Line.key).Nodup

/-- The names of tables and of keys in a table differ and need no quotes. -/
structure WellNamed (ps : List (Part ν)) : Prop where
  parts : ∀ p ∈ ps, p.WellNamed
  nodup : (ps.map Part.name).Nodup

/-- What stands between quotes, and the characters that it stands for. -/
inductive Unescapes : List Char → List Char → Prop where
  | nil : Unescapes [] []
  | plain {c : Char} {body cs : List Char} (low : ' ' ≤ c) (quote : c ≠ '"')
      (slash : c ≠ '\\') (rest : Unescapes body cs) :
      Unescapes (c :: body) (c :: cs)
  | quote {body cs : List Char} (rest : Unescapes body cs) :
      Unescapes ('\\' :: '"' :: body) ('"' :: cs)
  | slash {body cs : List Char} (rest : Unescapes body cs) :
      Unescapes ('\\' :: '\\' :: body) ('\\' :: cs)

/-- The digits of a whole number. Zero comes first only if it comes alone. -/
structure WholeDigits (ds : List Char) : Prop where
  digits : AllDigits ds
  ne_nil : ds ≠ []
  zero : ds.head? = some '0' → ds = ['0']

/-- The text of a value, and the value that it stands for. -/
inductive Package.Reads (p : Package) : String → Scalar → Prop where
  | text {body cs : List Char} (h : Unescapes body cs) :
      p.Reads (String.ofList ('"' :: (body ++ ['"'])))
        (.text (String.ofList cs))
  | integer (negative : Bool) {ds : List Char} {n : Int64}
      (hds : WholeDigits ds)
      (hn : Numeral.signedInteger? (signText negative ++ ds) = some n) :
      p.Reads (String.ofList (signText negative ++ ds)) (.integer n)
  | float (s : Scientific) {x : Float}
      (hx : p.floatOf? (String.ofList s.text) = some x) :
      p.Reads (String.ofList s.text) (.float x)
  | isTrue : p.Reads "true" (.truth true)
  | isFalse : p.Reads "false" (.truth false)

/-! ## Packages -/

/-- What is asked of a package. -/
structure Package.Lawful (p : Package) : Prop where
  /-- A record is written as its contents, if no key needs quotes: texts in
  quotes, integers in decimal digits, floats as the package does it. -/
  marshal_writes {α : Type} (hooks : Hooks) (s : Shape α) (c : α)
    (hnames : WellNamed (s.contents hooks c)) :
    p.marshal hooks s c = .ok (bytesOf (documentText
      ((s.contents hooks c).map (·.map (·.written p.floatText)))))
  /-- A document with tables and simple values is put into effect line by
  line. What is said about the text of a value is all that may be used. -/
  decode_reads {α : Type} (hooks : Hooks) (s : Shape α)
    {ps : List (Part Scalar)} (hnames : WellNamed ps) {spell : Scalar → String}
    (hspell : ∀ q ∈ ps, ∀ l ∈ q.lines, p.Reads (spell l.value) l.value)
    {base c : α} (hc : s.assign? hooks base ps = some c) : p.decode hooks s
      (bytesOf (documentText (ps.map (·.map spell)))) base = .ok c
  /-- The text of a finite float is a numeral with an exponent, and stands for
  the float. -/
  float_reads_back {x : Float} (hx : x.isFinite = true) :
    ∃ s : Scientific, p.floatText x = String.ofList s.text ∧
      p.floatOf? (p.floatText x) = some x

/-! ## Values read as they are written -/

/-- The characters that can be seen, and the space. -/
def Visible (c : Char) : Prop := ' ' ≤ c ∧ c ≤ '~'

instance (c : Char) : Decidable (Visible c) :=
  inferInstanceAs (Decidable (_ ∧ _))

/-- The values that can be written: visible texts and finite floats. -/
def Scalar.Plain : Scalar → Prop
  | text s => ∀ c ∈ s.toList, Visible c
  | integer _ => True
  | float x => x.isFinite = true
  | truth _ => True

private theorem Visible.isPrintable {c : Char} (h : Visible c) :
    Text.isPrintable c = true := by
  obtain ⟨hlow, hhigh⟩ := h
  have hlow : 32 ≤ c.toNat := hlow
  have hhigh : c.toNat ≤ 126 := hhigh
  simp only [Text.isPrintable]
  rw [if_pos (by omega)]
  exact decide_eq_true hlow

private theorem unescapes_escaped {cs : List Char} (h : ∀ c ∈ cs, Visible c) :
    Unescapes (cs.flatMap (Text.escaped '"')) cs := by
  induction cs with
  | nil => exact .nil
  | cons c cs ih =>
      obtain ⟨hc, hcs⟩ := List.forall_mem_cons.1 h
      rw [List.flatMap_cons]
      by_cases hquote : c = '"'
      · subst hquote
        exact .quote (ih hcs)
      by_cases hslash : c = '\\'
      · subst hslash
        exact .slash (ih hcs)
      · have hself : Text.escaped '"' c = [c] := by
          simp [Text.escaped, hquote, hslash, hc.isPrintable]
        rw [hself]
        exact .plain hc.1 hquote hslash (ih hcs)

/-- A number other than zero does not begin with zero. -/
private theorem head_toDigits {n : Nat} (hn : 0 < n) :
    (Nat.toDigits 10 n).head? ≠ some '0' := by
  induction n using Nat.strongRecOn with
  | ind n ih =>
      by_cases hlt : n < 10
      · have hdigits : ∀ n < 10, 0 < n → n.digitChar ≠ '0' := by decide
        rw [Nat.toDigits_of_lt_base hlt]
        simpa using hdigits n hlt hn
      · rw [Nat.toDigits_of_base_le (by decide) (by omega),
          List.head?_append_of_ne_nil _ Nat.toDigits_ne_nil]
        exact ih (n / 10) (by omega) (by omega)

private theorem wholeDigits_toDigits (n : Nat) :
    WholeDigits (Nat.toDigits 10 n) := by
  refine ⟨?_, Nat.toDigits_ne_nil, fun h => ?_⟩
  · intro c hc
    exact Nat.isDigit_of_mem_toDigits (by decide) (by decide) hc
  · rcases Nat.eq_zero_or_pos n with rfl | hn
    · rfl
    · exact absurd h (head_toDigits hn)

private theorem toList_toString (i : Int) : (toString i).toList =
    signText (i < 0) ++ Nat.toDigits 10 i.natAbs := by
  have hnat (n : Nat) : (toString n).toList = Nat.toDigits 10 n := by
    rw [Nat.toString_eq_repr, Nat.toList_repr]
  cases i with
  | ofNat n => exact hnat n
  | negSucc n =>
      have htext : toString (Int.negSucc n) = "-" ++ toString (n + 1) := rfl
      rw [Int.natAbs_negSucc, htext, String.toList_append, hnat,
        decide_eq_true (Int.negSucc_lt_zero n)]
      rfl

/-- A whole number is read as the number, the least one included. -/
private theorem signedInteger?_toDigits (n : Int64) : Numeral.signedInteger?
    (signText (n.toInt < 0) ++ Nat.toDigits 10 n.toInt.natAbs) = some n := by
  have hlow := n.le_toInt
  have hhigh := n.toInt_lt
  have hvalue := Numeral.digits_toDigits n.toInt.natAbs
  by_cases hneg : n.toInt < 0
  · have hsplit : Numeral.splitSign
        (signText (n.toInt < 0) ++ Nat.toDigits 10 n.toInt.natAbs) =
          (true, Nat.toDigits 10 n.toInt.natAbs) := by
      rw [decide_eq_true hneg]
      rfl
    have hle : n.toInt.natAbs ≤ Nat.pow 2 63 := by
      show n.toInt.natAbs ≤ 2 ^ 63
      omega
    have hsize : -(n.toInt.natAbs : Int) = n.toInt := by omega
    simp only [Numeral.signedInteger?, hsplit, hvalue, if_true, if_pos hle,
      hsize, Int64.ofInt_toInt]
  · obtain ⟨c, cs, hcons⟩ := List.exists_cons_of_ne_nil
      (Nat.toDigits_ne_nil (n := n.toInt.natAbs) (b := 10))
    have hc : c.isDigit = true :=
      (wholeDigits_toDigits _).digits c (hcons ▸ List.mem_cons_self)
    have hsplit : Numeral.splitSign
        (signText (n.toInt < 0) ++ Nat.toDigits 10 n.toInt.natAbs) =
          (false, Nat.toDigits 10 n.toInt.natAbs) := by
      rw [decide_eq_false hneg, hcons]
      exact Numeral.splitSign_digit hc cs
    have hlt : n.toInt.natAbs < Nat.pow 2 63 := by
      show n.toInt.natAbs < 2 ^ 63
      omega
    have hword : Int64.ofNat n.toInt.natAbs = n := by
      rw [← Int64.toInt_inj, Int64.toInt_ofNat_of_lt hlt]
      omega
    simp only [Numeral.signedInteger?, hsplit, hvalue, Bool.false_eq_true,
      if_false, if_pos hlt, hword]

variable {p : Package}

/-- **A value is read as it was written.** -/
theorem Package.Lawful.reads_written (h : p.Lawful) {v : Scalar}
    (hv : v.Plain) : p.Reads (v.written p.floatText) v := by
  cases v with
  | text s =>
      have hbody := Reads.text (p := p) (unescapes_escaped hv)
      rwa [String.ofList_toList] at hbody
  | integer n =>
      have hdigits := Reads.integer (p := p) (n.toInt < 0)
        (wholeDigits_toDigits _) (signedInteger?_toDigits n)
      rwa [← toList_toString, String.ofList_toList] at hdigits
  | float x =>
      obtain ⟨s, htext, hread⟩ := h.float_reads_back hv
      rw [htext] at hread
      have hnumeral := Reads.float s hread
      rwa [← htext] at hnumeral
  | truth b =>
      cases b with
      | true => exact .isTrue
      | false => exact .isFalse

/-! ## Records put together again -/

/-- The fields of a record lead to their keys, and the keys to the fields. -/
structure TableShape.Sound (hooks : Hooks) (t : TableShape α) : Prop where
  found : ∀ f ∈ t.fields,
    t.field? hooks (hooks.fieldToKey t.type f.name) = some f
  bare : ∀ f ∈ t.fields, Bare (hooks.fieldToKey t.type f.name)
  nodup : (t.fields.map fun f => hooks.fieldToKey t.type f.name).Nodup

/-- The parts of a record lead to their names, and the names to the parts. -/
structure Shape.Sound (hooks : Hooks) (s : Shape α) : Prop where
  tables : ∀ t ∈ s.tables, t.Sound hooks
  found : ∀ t ∈ s.tables,
    s.table? hooks (hooks.fieldToKey s.type t.name) = some t
  bare : ∀ t ∈ s.tables, Bare (hooks.fieldToKey s.type t.name)
  nodup : (s.tables.map fun t => hooks.fieldToKey s.type t.name).Nodup

/-- Gives a record a field of another one. -/
def Access.copy (c base : α) : Access α → α
  | text get set => set base (get c)
  | integer get set => set base (get c)
  | float get set => set base (get c)
  | truth get set => set base (get c)

/-- Gives a record the fields of another one that are not left out. -/
def TableShape.copy (c base : α) (t : TableShape α) : α :=
  (t.fields.filter (·.mentions c)).foldl (fun b f => f.access.copy c b) base

/-- Gives a record all parts of another one. -/
def Shape.copy (c base : α) (s : Shape α) : α :=
  s.tables.foldl (fun b t => t.copy c b) base

private theorem Access.set?_get (a : Access α) (c base : α) :
    a.set? base (a.get c) = some (a.copy c base) := by
  cases a <;> rfl

variable {hooks : Hooks}

private theorem TableShape.assign?_lines {t : TableShape α} (c : α)
    {fs : List (FieldShape α)}
    (h : ∀ f ∈ fs, t.field? hooks (hooks.fieldToKey t.type f.name) = some f)
    (base : α) : t.assign? hooks base (fs.map (·.line hooks t.type c)) =
      some (fs.foldl (fun b f => f.access.copy c b) base) := by
  induction fs generalizing base with
  | nil => rfl
  | cons f fs ih =>
      obtain ⟨hf, hfs⟩ := List.forall_mem_cons.1 h
      simp only [List.map_cons, assign?, FieldShape.line, hf, Access.set?_get,
        List.foldl_cons]
      exact ih hfs _

private theorem TableShape.Sound.assign?_part {t : TableShape α}
    (h : t.Sound hooks) (type : String) (c base : α) :
    t.assign? hooks base (t.part hooks type c).lines = some (t.copy c base) :=
  assign?_lines c (fun f hf => h.found f (List.mem_of_mem_filter hf)) base

/-- **The lines of a record** are put into effect field by field. -/
theorem Shape.Sound.assign?_contents {s : Shape α} (h : s.Sound hooks)
    (c base : α) :
    s.assign? hooks base (s.contents hooks c) = some (s.copy c base) := by
  obtain ⟨type, tables⟩ := s
  obtain ⟨hsound, hfound, -, -⟩ := h
  dsimp only at hsound hfound
  -- The list of tables that names are looked up in stays whole, so the
  -- induction is on the tables that are still to come.
  suffices hrest : ∀ ts : List (TableShape α), (∀ t ∈ ts, t ∈ tables) →
      ∀ base, (Shape.mk type tables).assign? hooks base
        (ts.map (·.part hooks type c)) =
          some (ts.foldl (fun b t => t.copy c b) base) from
    hrest tables (fun t ht => ht) base
  intro ts
  induction ts with
  | nil => intro _ base; rfl
  | cons t ts ih =>
      intro hts base
      obtain ⟨ht, hts⟩ := List.forall_mem_cons.1 hts
      have hname : (Shape.mk type tables).table? hooks
          (t.part hooks type c).name = some t := hfound t ht
      simp only [List.map_cons, assign?, hname, (hsound t ht).assign?_part,
        List.foldl_cons]
      exact ih hts _

private theorem TableShape.Sound.part_wellNamed {t : TableShape α}
    (h : t.Sound hooks) {type : String}
    (hname : Bare (hooks.fieldToKey type t.name)) (c : α) :
    (t.part hooks type c).WellNamed := by
  refine ⟨hname, fun l hl => ?_, ?_⟩
  · obtain ⟨f, hf, rfl⟩ := List.mem_map.1 hl
    exact h.bare f (List.mem_of_mem_filter hf)
  · have hkeys : (t.part hooks type c).lines.map Line.key =
        (t.fields.filter (·.mentions c)).map
          fun f => hooks.fieldToKey t.type f.name := List.map_map
    rw [hkeys]
    exact h.nodup.sublist (List.filter_sublist.map _)

private theorem Shape.Sound.contents_wellNamed {s : Shape α}
    (h : s.Sound hooks) (c : α) : WellNamed (s.contents hooks c) := by
  constructor
  · intro p hp
    obtain ⟨t, ht, rfl⟩ := List.mem_map.1 hp
    exact (h.tables t ht).part_wellNamed (h.bare t ht) c
  · have hnames : (s.contents hooks c).map Part.name =
        s.tables.map fun t => hooks.fieldToKey s.type t.name := List.map_map
    rw [hnames]
    exact h.nodup

/-- The fields of a record can be written. -/
def Shape.Plain (s : Shape α) (c : α) : Prop :=
  ∀ t ∈ s.tables, ∀ f ∈ t.fields, (f.access.get c).Plain

/--
**A record that was written** replaces the fields of the record that it is
read over, apart from those that were left out.
-/
theorem Package.Lawful.decode_of_marshal (h : p.Lawful) {s : Shape α}
    (hs : s.Sound hooks) {c : α} (hc : s.Plain c) :
    ∃ bytes, p.marshal hooks s c = .ok bytes ∧
      ∀ base, p.decode hooks s bytes base = .ok (s.copy c base) := by
  have hnames := hs.contents_wellNamed c
  have hspell : ∀ q ∈ s.contents hooks c, ∀ l ∈ q.lines,
      p.Reads (l.value.written p.floatText) l.value := by
    intro q hq l hl
    obtain ⟨t, ht, rfl⟩ := List.mem_map.1 hq
    obtain ⟨f, hf, rfl⟩ := List.mem_map.1 hl
    exact h.reads_written (hc t ht f (List.mem_of_mem_filter hf))
  refine ⟨_, h.marshal_writes hooks s c hnames, fun base => ?_⟩
  exact h.decode_reads hooks s hnames hspell (hs.assign?_contents c base)

end Fixture.Toml
