import Fixture.Proofs.Toml.Documents
/-!
# The package of the program is lawful

The laws that are asked of a package hold of the one that the program comes
with. A document with names that differ becomes a tree with a table for each
header and a value for each line, in their order, and the tree is put into
effect in that order.

## Main results

* `ofItems_partItems`: the tree of a document whose names differ.
* `fill_partEntries`: the tree puts the lines of its document into effect.
* `package_lawful`: the package of the program is lawful.
-/

namespace Fixture

/-! ## Text in UTF-8 -/

namespace Text

private theorem utf8Char?_append (c : Char) (bytes : List UInt8) :
    utf8Char? (String.utf8EncodeChar c ++ bytes) = some c := by
  have hsize : (String.utf8EncodeChar c).length ≤ 4 := by
    rw [String.length_utf8EncodeChar]
    exact c.utf8Size_le_four
  have htake : (String.utf8EncodeChar c ++ bytes).take 4 =
      String.utf8EncodeChar c ++
        bytes.take (4 - (String.utf8EncodeChar c).length) := by
    rw [List.take_append, List.take_of_length_le hsize]
  rw [utf8Char?, htake, List.toByteArray_append]
  exact ByteArray.utf8DecodeChar?_utf8EncodeChar_append

/-- Bytes of a character that was read before are passed over. -/
private theorem utf8Chars_pending (skipped bytes : List UInt8) :
    utf8Chars skipped.length (skipped ++ bytes) = utf8Chars 0 bytes := by
  induction skipped with
  | nil => rfl
  | cons b skipped ih => exact ih

private theorem utf8Chars_cons (c : Char) (bytes : List UInt8) :
    utf8Chars 0 (String.utf8EncodeChar c ++ bytes) =
      c :: utf8Chars 0 bytes := by
  have hread := utf8Char?_append c bytes
  have hsize := String.length_utf8EncodeChar c
  cases hencode : String.utf8EncodeChar c with
  | nil =>
      rw [hencode] at hsize
      exact absurd hsize (Nat.ne_of_lt c.utf8Size_pos)
  | cons b more =>
      rw [hencode, List.length_cons] at hsize
      rw [hencode] at hread
      have hmore : c.utf8Size - 1 = more.length := by omega
      rw [List.cons_append] at hread ⊢
      rw [utf8Chars, hread]
      dsimp only
      rw [hmore, utf8Chars_pending]

/-- **The bytes of a text are read as the text.** -/
theorem utf8Chars_bytesOf (s : String) :
    utf8Chars 0 (bytesOf s) = s.toList := by
  rw [← String.ofList_toList (s := s), bytesOf_ofList, String.toList_ofList]
  induction s.toList with
  | nil => rfl
  | cons c cs ih => rw [List.flatMap_cons, utf8Chars_cons, ih]

/-- The bytes of a text are read as the text. -/
theorem ofUtf8_bytesOf (s : String) : ofUtf8 (bytesOf s) = s := by
  rw [ofUtf8, utf8Chars_bytesOf, String.ofList_toList]

end Text

namespace Toml

open Document

/-! ## Trees -/

/-- The entries of lines, where the first one is behind the given line. -/
def lineEntries (n : Nat) : List (Line Literal) → List (String × Node)
  | [] => []
  | l :: ls => (l.key, .value (n + 1) l.value) :: lineEntries (n + 1) ls

/-- The entries of tables, where the first one is on the given line. -/
def partEntries (n : Nat) : List (Part Literal) → List (String × Node)
  | [] => []
  | p :: ps =>
    (p.name, .table n true ⟨lineEntries n p.lines⟩) ::
      partEntries (n + p.lines.length + 2) ps

namespace Tree

/-- A line adds a value to the table that lines belong to. -/
private theorem add_pair {root inner : Table Node} {name key : String}
    {first : Nat} {headed : Bool} (hkey : inner.get? key = none) (n : Nat)
    (v : Literal) :
    add ⟨[name], root.set name (.table first headed inner)⟩
        (.pair (.mk n (some key) n (.literal v))) =
      .ok ⟨[name], root.set name
        (.table first headed (inner.set key (.value n v)))⟩ := by
  have hget : (root.set name (.table first headed inner)).get? name =
      some (.table first headed inner) := by
    rw [Table.get?_set, if_pos rfl]
  have hstore : storePair false (.mk n (some key) n (.literal v)) inner =
      .ok (inner.set key (.value n v)) := by
    simp only [storePair, storeTables, hkey]
  simp only [add, within, hget, hstore, Except.map, Table.set_set]

/-- **Lines whose keys differ** add their values in order. -/
private theorem addAll_lineItems {ls : List (Line Literal)}
    (hls : (ls.map Line.key).Nodup) (root : Table Node) {inner : Table Node}
    (hinner : ∀ l ∈ ls, inner.get? l.key = none) (name : String)
    (first n : Nat) (is : List Item) :
    addAll ⟨[name], root.set name (.table first true inner)⟩
        (lineItems n ls ++ is) =
      addAll ⟨[name], root.set name
        (.table first true ⟨inner.entries ++ lineEntries n ls⟩)⟩ is := by
  induction ls generalizing inner n with
  | nil => rw [lineEntries, List.append_nil]; rfl
  | cons l ls ih =>
      obtain ⟨hl, hinner⟩ := List.forall_mem_cons.1 hinner
      rw [List.map_cons, List.nodup_cons] at hls
      have hfresh : ∀ l' ∈ ls,
          (inner.set l.key (.value (n + 1) l.value)).get? l'.key = none := by
        intro l' hl'
        have hne : l'.key ≠ l.key :=
          fun heq => hls.1 (heq ▸ List.mem_map_of_mem hl')
        rw [Table.get?_set, if_neg hne]
        exact hinner l' hl'
      have hrest := ih hls.2 hfresh (n + 1)
      rw [Table.entries_set_of_fresh hl, List.append_assoc] at hrest
      simp only [lineItems, List.cons_append, addAll, add_pair hl]
      exact hrest

/-- A header begins a table, and pairs belong there from then on. -/
private theorem add_header {s : State} {name : String}
    (hname : s.root.get? name = none) (n : Nat) :
    add s (.header ⟨n, name, [some name], false⟩) =
      .ok ⟨[name], s.root.set name (.table n true .empty)⟩ := by
  have hbegin : beginTable ⟨n, name, [some name], false⟩ name s.root =
      .ok (s.root.set name (.table n true .empty)) := by
    simp only [beginTable, tableFor, hname]
    rfl
  have hkeys : [some name].mapM id = some [name] := rfl
  have hlast : [name].getLast? = some name := rfl
  have hfront : [name].dropLast = [] := rfl
  simp only [add, hkeys, hlast, hfront, within, hbegin]
  rfl

/-- Tables whose names differ are added in order. -/
private theorem addAll_partItems {ps : List (Part Literal)}
    (hkeys : ∀ p ∈ ps, (p.lines.map Line.key).Nodup)
    (hnames : (ps.map Part.name).Nodup) {s : State}
    (hroot : ∀ p ∈ ps, s.root.get? p.name = none) (n : Nat) :
    ∃ path, addAll s (partItems n ps) =
      .ok ⟨path, ⟨s.root.entries ++ partEntries n ps⟩⟩ := by
  induction ps generalizing s n with
  | nil =>
      refine ⟨s.path, ?_⟩
      rw [partEntries, List.append_nil]
      rfl
  | cons p ps ih =>
      obtain ⟨hp, hroot⟩ := List.forall_mem_cons.1 hroot
      obtain ⟨hkey, hkeys⟩ := List.forall_mem_cons.1 hkeys
      rw [List.map_cons, List.nodup_cons] at hnames
      have hunset : ∀ l ∈ p.lines,
          (Table.empty : Table Node).get? l.key = none := fun _ _ => rfl
      have hlines := addAll_lineItems hkey s.root hunset p.name n n
        (partItems (n + p.lines.length + 2) ps)
      have hempty : (Table.empty : Table Node).entries ++
          lineEntries n p.lines = lineEntries n p.lines := List.nil_append _
      have hfresh : ∀ q ∈ ps, (s.root.set p.name
          (.table n true ⟨lineEntries n p.lines⟩)).get? q.name = none := by
        intro q hq
        have hne : q.name ≠ p.name :=
          fun heq => hnames.1 (heq ▸ List.mem_map_of_mem hq)
        rw [Table.get?_set, if_neg hne]
        exact hroot q hq
      obtain ⟨path, hrest⟩ := ih hkeys hnames.2
        (s := ⟨[p.name], s.root.set p.name
          (.table n true ⟨lineEntries n p.lines⟩)⟩)
        hfresh (n + p.lines.length + 2)
      refine ⟨path, ?_⟩
      simp only [partItems, addAll, add_header hp, hlines, hempty, hrest,
        Table.entries_set_of_fresh hp, partEntries, List.append_assoc]
      rfl

/-- **The tree of a document whose names differ.** -/
theorem ofItems_partItems {ps : List (Part Literal)}
    (hkeys : ∀ p ∈ ps, (p.lines.map Line.key).Nodup)
    (hnames : (ps.map Part.name).Nodup) (n : Nat) :
    ofItems (partItems n ps) = .ok ⟨partEntries n ps⟩ := by
  obtain ⟨path, hall⟩ := addAll_partItems hkeys hnames
    (s := ⟨[], .empty⟩) (fun _ _ => rfl) n
  rw [ofItems, hall]
  rfl

end Tree

/-! ## Trees put into effect -/

section Fill

variable {α : Type} {hooks : Hooks} {lit : Scalar → Literal}

private theorem fill_lineEntries {t : TableShape α} {ls : List (Line Scalar)}
    (hlit : ∀ l ∈ ls, Means (lit l.value) l.value) {c c' : α}
    (hc : t.assign? hooks c ls = some c') (n : Nat) :
    t.fill hooks c (lineEntries n (ls.map (·.map lit))) = .ok c' := by
  induction ls generalizing c n with
  | nil =>
      cases hc
      rfl
  | cons l ls ih =>
      obtain ⟨hl, hlit⟩ := List.forall_mem_cons.1 hlit
      rw [TableShape.assign?] at hc
      split at hc
      next => cases hc
      next f hfield =>
        split at hc
        next => cases hc
        next c₁ hset =>
          have hkey : t.field? hooks (l.map lit).key = some f := hfield
          have hfill : f.fill t.type c (.value (n + 1) (l.map lit).value) =
              .ok c₁ := fill_of_means hl hset t.type (n + 1)
          simp only [List.map_cons, lineEntries, TableShape.fill, hkey, hfill]
          exact ih hlit hc (n + 1)

/-- **The tree of a document puts its lines into effect.** -/
theorem fill_partEntries {s : Shape α} {ps : List (Part Scalar)}
    (hlit : ∀ p ∈ ps, ∀ l ∈ p.lines, Means (lit l.value) l.value) {c c' : α}
    (hc : s.assign? hooks c ps = some c') (n : Nat) :
    s.fill hooks c (partEntries n (ps.map (·.map lit))) = .ok c' := by
  induction ps generalizing c n with
  | nil =>
      cases hc
      rfl
  | cons p ps ih =>
      obtain ⟨hp, hlit⟩ := List.forall_mem_cons.1 hlit
      rw [Shape.assign?] at hc
      split at hc
      next => cases hc
      next t htable =>
        split at hc
        next => cases hc
        next c₁ hlines =>
          have hname : s.table? hooks (p.map lit).name = some t := htable
          have hfill : t.fill hooks c (lineEntries n (p.map lit).lines) =
              .ok c₁ := fill_lineEntries hp hlines n
          simp only [List.map_cons, partEntries, Shape.fill, hname, hfill]
          exact ih hlit hc _

end Fill

/-! ## The package -/

private theorem keyText_of_bare {key : String} (h : Bare key) :
    keyText key = key := by
  have hempty : key.isEmpty = false := by
    have hne := h.1
    simpa using hne
  simp [keyText, hempty, h.2]

/-- Keys that need no quotes are written as they are. -/
private theorem texts_eq {α : Type} {hooks : Hooks} {s : Shape α} {c : α}
    (h : WellNamed (s.contents hooks c)) : s.texts hooks c =
      (s.contents hooks c).map (·.map (·.written package.floatText)) := by
  refine List.map_congr_left fun p hp => ?_
  rw [Part.map, Part.mk.injEq]
  refine ⟨rfl, List.map_congr_left fun l hl => ?_⟩
  rw [keyText_of_bare ((h.parts p hp).keys l hl)]
  rfl

/-- **The package of the program is lawful.** -/
theorem package_lawful : package.Lawful where
  marshal_writes hooks s c hnames := by
    show Except.ok (bytesOf (documentText (s.texts hooks c))) = _
    rw [texts_eq hnames]
  decode_reads hooks s ps hnames spell hspell base c hc := by
    -- Each text that stands for a value is read as some literal.
    have hexists (v : Scalar) : ∃ lit, package.Reads (spell v) v →
        Spells (spell v).toList lit ∧ Means lit v := by
      by_cases h : package.Reads (spell v) v
      · obtain ⟨lit, hlit⟩ := exists_spells h
        exact ⟨lit, fun _ => hlit⟩
      · exact ⟨.truth true, fun h' => absurd h' h⟩
    choose lit hlit using hexists
    have hlegible : ∀ p ∈ ps, Legible spell lit p := by
      intro p hp
      refine ⟨(hnames.parts p hp).name, (hnames.parts p hp).keys, ?_⟩
      exact fun l hl => (hlit _ (hspell p hp l hl)).1
    have hmeans : ∀ p ∈ ps, ∀ l ∈ p.lines, Means (lit l.value) l.value :=
      fun p hp l hl => (hlit _ (hspell p hp l hl)).2
    have hkeys : ∀ p ∈ ps.map (·.map lit), (p.lines.map Line.key).Nodup := by
      intro p hp
      obtain ⟨q, hq, rfl⟩ := List.mem_map.1 hp
      have hsame : (q.map lit).lines.map Line.key = q.lines.map Line.key :=
        List.map_map
      rw [hsame]
      exact (hnames.parts q hq).nodup
    have hparts : ((ps.map (·.map lit)).map Part.name).Nodup := by
      have hsame : (ps.map (·.map lit)).map Part.name = ps.map Part.name :=
        List.map_map
      rw [hsame]
      exact hnames.nodup
    simp only [package, Text.utf8Chars_bytesOf, Shape.read,
      items_documentText hlegible, Tree.ofItems_partItems hkeys hparts,
      fill_partEntries hmeans hc]
  float_reads_back {x} hx := by
    obtain ⟨s, htext, hread⟩ := Decimal.exists_scientific hx
    refine ⟨s, htext, ?_⟩
    show Numeral.decimal? (Decimal.Layout.settings.text x).toList = some x
    rw [htext, String.toList_ofList, hread]

end Toml

end Fixture
