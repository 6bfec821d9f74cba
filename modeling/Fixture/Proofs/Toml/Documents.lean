import Fixture.Proofs.Toml.Values
/-!
# Written documents read back

A document is written table by table: a name in brackets, a line for each key
with its value, and an empty line before the next table. It is read as the
items that were written, each with the line that it stands on. A line end
behind a value ends the value, and the bracket behind an empty line ends the
keys of a table, so nothing is read across.

## Main results

* `pairs_chars`: the lines of a table are read as its keys and values.
* `items_documentText`: a document is read as its tables, keys and values.
-/

namespace Fixture.Toml

namespace Document

attribute [local simp] dropGap dropLineEnds dropTail dropComment key? pairs
  entry entries

variable {ν : Type}

/-! ## Characters and items of documents -/

/-- The characters of a line. -/
def lineChars (l : Line String) : List Char :=
  l.key.toList ++ ' ' :: '=' :: ' ' :: (l.value.toList ++ ['\n'])

/-- The characters of a table. -/
def partChars (p : Part String) : List Char :=
  '[' :: (p.name.toList ++ ']' :: '\n' :: p.lines.flatMap lineChars)

/-- The characters of a document. -/
def documentChars : List (Part String) → List Char
  | [] => []
  | [p] => partChars p
  | p :: q :: ps => partChars p ++ '\n' :: documentChars (q :: ps)

private theorem toList_joinText (ls : List (Line String)) :
    (String.join (ls.map Line.text)).toList = ls.flatMap lineChars := by
  induction ls with
  | nil => rfl
  | cons l ls ih =>
      rw [List.map_cons, String.join_cons, String.toList_append, ih]
      simp [Line.text, lineChars]

private theorem toList_partText (p : Part String) :
    p.text.toList = partChars p := by
  rw [Part.text, String.toList_append, toList_joinText]
  simp [partChars]

private theorem toList_documentText (ps : List (Part String)) :
    (documentText ps).toList = documentChars ps := by
  rw [documentText]
  induction ps with
  | nil => rfl
  | cons p ps ih =>
      cases ps with
      | nil => exact toList_partText p
      | cons q ps =>
          rw [List.map_cons] at ih ⊢
          simp [Text.joined, documentChars, toList_partText, ih]

/-- The items of lines, where the first one is behind the given line. -/
def lineItems (n : Nat) : List (Line Literal) → List Item
  | [] => []
  | l :: ls =>
    .pair (.mk (n + 1) (some l.key) (n + 1) (.literal l.value)) ::
      lineItems (n + 1) ls

/-- The items of tables, where the first one is on the given line. -/
def partItems (n : Nat) : List (Part Literal) → List Item
  | [] => []
  | p :: ps =>
    .header ⟨n, p.name, [some p.name], false⟩ ::
      (lineItems n p.lines ++ partItems (n + p.lines.length + 2) ps)

/-! ## Keys -/

/-- A key begins with none but the characters of keys. -/
private theorem Bare.exists_head {key : String} (h : Bare key) :
    ∃ k ks, key.toList = k :: ks ∧ ∀ c, isKeyChar c = false → k ≠ c := by
  obtain ⟨k, ks, hcons⟩ := List.exists_cons_of_ne_nil h.1
  have hk : isKeyChar k = true :=
    List.all_eq_true.1 h.2 k (hcons ▸ List.mem_cons_self)
  exact ⟨k, ks, hcons, fun c hc => ne_of_apply_ne isKeyChar (by simp [hk, hc])⟩

private theorem key?_append {key : String} (h : Bare key) {c : Char}
    (hc : isKeyChar c = false) (cs : List Char) :
    key? (key.toList ++ c :: cs) = some (some key, c :: cs) := by
  obtain ⟨k, ks, hcons, hother⟩ := Bare.exists_head h
  have hkey : ∀ c ∈ key.toList, isKeyChar c = true := List.all_eq_true.1 h.2
  have hstop : ∀ d ∈ (c :: cs).head?, isKeyChar d = false := by
    rintro d ⟨⟩
    exact hc
  obtain ⟨htake, hdrop⟩ := span_append hkey hstop
  unfold key?
  split
  next heq =>
    rw [hcons, List.cons_append] at heq
    exact absurd (List.cons.inj heq).1 (hother '"' (by decide))
  next => simp [htake, hdrop, h.1]

private theorem dropBlanks_key {key : String} (h : Bare key)
    (cs : List Char) : dropBlanks (key.toList ++ cs) = key.toList ++ cs := by
  obtain ⟨k, ks, hcons, hother⟩ := Bare.exists_head h
  rw [hcons, List.cons_append]
  refine dropBlanks_cons ?_ _
  simp [isGapChar, hother ' ' (by decide), hother '\t' (by decide)]

/-! ## Lines -/

private theorem value?_of_simple? {fuel line : Nat} {cs : List Char}
    {r : ReadValue} (h : simple? line cs = some r) :
    value? fuel line cs = some r := by
  rw [value?.eq_def, h]

section Lines

variable {spell : ν → String} {lit : ν → Literal}

/-- A line is read as its key and its value. -/
private theorem pair?_lineChars {l : Line ν} (hkey : Bare l.key)
    (hvalue : Spells (spell l.value).toList (lit l.value)) (fuel line : Nat)
    (rest : List Char) :
    pair? (fuel + 1) line (lineChars (l.map spell) ++ rest) =
      some (.mk line (some l.key) line (.literal (lit l.value)), line,
        '\n' :: rest) := by
  obtain ⟨key, v⟩ := l
  dsimp only at hkey hvalue
  generalize hv : (spell v).toList = text at hvalue
  have hchars : lineChars (Line.map spell ⟨key, v⟩) ++ rest =
      key.toList ++ ' ' :: ('=' :: ' ' :: (text ++ '\n' :: rest)) := by
    simp [lineChars, Line.map, hv]
  have hread := key?_append hkey (c := ' ') (by decide)
    ('=' :: ' ' :: (text ++ '\n' :: rest))
  have hequals : dropBlanks (' ' :: '=' :: ' ' :: (text ++ '\n' :: rest)) =
      '=' :: ' ' :: (text ++ '\n' :: rest) := rfl
  have hblank : dropBlanks (' ' :: (text ++ '\n' :: rest)) =
      dropBlanks (text ++ '\n' :: rest) := rfl
  rw [hchars]
  simp only [pair?, hread, hequals, hblank,
    value?_of_simple? (hvalue line rest)]

/-- A line is no gap. -/
private theorem dropGap_lineChars {l : Line String} (h : Bare l.key) (n : Nat)
    (rest : List Char) :
    dropGap n (lineChars l ++ rest) = (n, lineChars l ++ rest) := by
  obtain ⟨k, ks, hcons, hother⟩ := Bare.exists_head h
  simp [lineChars, hcons, isGapChar, isLineEnd, hother ' ' (by decide),
    hother '\t' (by decide), hother '\n' (by decide), hother '\r' (by decide)]

private theorem dropTail_lineEnd (cs : List Char) :
    dropTail ('\n' :: cs) = '\n' :: cs := rfl

/--
**The lines of a table are read as its keys and values,** up to what is no
line any more.
-/
theorem pairs_chars {ls : List (Line ν)} (hkeys : ∀ l ∈ ls, Bare l.key)
    (hvalues : ∀ l ∈ ls, Spells (spell l.value).toList (lit l.value))
    {rest : List Char}
    (hrest : ∀ fuel line n, pair? fuel line (dropGap n rest).2 = none)
    {fuel : Nat} (hfuel : ls.length < fuel) (n : Nat) :
    pairs fuel n ('\n' ::
        ((ls.map (·.map spell)).flatMap lineChars ++ rest)) =
      ⟨lineItems n (ls.map (·.map lit)), n + ls.length, '\n' :: rest⟩ := by
  induction ls generalizing fuel n with
  | nil =>
      obtain ⟨fuel, rfl⟩ :=
        Nat.exists_eq_succ_of_ne_zero (Nat.ne_zero_of_lt hfuel)
      have hgap : dropGap n ('\n' :: rest) = dropGap (n + 1) rest := rfl
      simp only [List.map_nil, List.flatMap_nil, List.nil_append, pairs, hgap,
        hrest]
      rfl
  | cons l ls ih =>
      obtain ⟨hkey, hkeys⟩ := List.forall_mem_cons.1 hkeys
      obtain ⟨hvalue, hvalues⟩ := List.forall_mem_cons.1 hvalues
      obtain ⟨fuel, rfl⟩ :=
        Nat.exists_eq_succ_of_ne_zero (Nat.ne_zero_of_lt hfuel)
      rw [List.map_cons, List.flatMap_cons, List.append_assoc]
      generalize hmore : (ls.map (·.map spell)).flatMap lineChars ++ rest =
        more at ih
      have hgap : dropGap n ('\n' :: (lineChars (l.map spell) ++ more)) =
          (n + 1, lineChars (l.map spell) ++ more) :=
        dropGap_lineChars hkey (n + 1) more
      have hfuel : ls.length < fuel := Nat.lt_of_succ_lt_succ hfuel
      simp only [pairs, hgap, enough, pair?_lineChars hkey hvalue,
        dropTail_lineEnd, ih hkeys hvalues hfuel]
      rw [Progress.mk.injEq]
      refine ⟨rfl, ?_, rfl⟩
      rw [List.length_cons]
      omega

end Lines

/-! ## Headers -/

/-- A header is read as the name of its table. -/
private theorem header?_chars {name : String} (h : Bare name) (line : Nat)
    (rest : List Char) :
    header? line ('[' :: (name.toList ++ ']' :: rest)) =
      some (⟨line, name, [some name], false⟩, rest) := by
  have hkey := key?_append h (c := ']') (by decide) rest
  have hmore : moreKeys (']' :: rest).length (']' :: rest) =
      ([], ']' :: rest) := rfl
  have hkeys : keys? (name.toList ++ ']' :: rest) =
      some ([some name], ']' :: rest) := by
    simp only [keys?, hkey, hmore]
  have hclose : dropBlanks (']' :: rest) = ']' :: rest := rfl
  have hbefore : before (name.toList ++ ']' :: rest) (']' :: rest) = name := by
    rw [before, List.length_append, Nat.add_sub_cancel, List.take_left,
      String.ofList_toList]
  simp only [header?, headerEnd?, dropBlanks_key h, hkeys, hclose, hbefore]
  simp

/-! ## Documents -/

private theorem length_le_flatMap_lineChars (ls : List (Line String)) :
    ls.length ≤ (ls.flatMap lineChars).length := by
  induction ls with
  | nil => exact Nat.le_refl 0
  | cons l ls ih =>
      rw [List.flatMap_cons, List.length_append, List.length_cons, lineChars,
        List.length_append, List.length_cons]
      omega

section Parts

variable {spell : ν → String} {lit : ν → Literal}

/-- A table can be read: its keys need no quotes, and its values are read. -/
structure Legible (spell : ν → String) (lit : ν → Literal) (p : Part ν) :
    Prop where
  name : Bare p.name
  keys : ∀ l ∈ p.lines, Bare l.key
  values : ∀ l ∈ p.lines, Spells (spell l.value).toList (lit l.value)

/-- A table is read up to the line end behind its last line. -/
private theorem entry_partChars {p : Part ν} (h : Legible spell lit p)
    {rest : List Char}
    (hrest : ∀ fuel line n, pair? fuel line (dropGap n rest).2 = none)
    {fuel : Nat} (hfuel : p.lines.length < fuel) (n : Nat) :
    entry fuel n (partChars (p.map spell) ++ rest) =
      ⟨.header ⟨n, p.name, [some p.name], false⟩ ::
          lineItems n (p.map lit).lines,
        n + p.lines.length, '\n' :: rest⟩ := by
  obtain ⟨name, lines⟩ := p
  obtain ⟨hname, hkeys, hvalues⟩ := h
  have hchars : partChars (Part.map spell ⟨name, lines⟩) ++ rest =
      '[' :: (name.toList ++ ']' :: '\n' ::
        ((lines.map (·.map spell)).flatMap lineChars ++ rest)) := by
    simp [partChars, Part.map]
  rw [hchars]
  simp only [entry, dropBlanks_cons (show isGapChar '[' = false by decide),
    header?_chars hname, dropTail_lineEnd,
    pairs_chars hkeys hvalues hrest hfuel]
  rfl

/-- What stands behind a table: nothing, or an empty line and a header. -/
private theorem documentChars_cons (p : Part String) (ps : List (Part String)) :
    ∃ rest, documentChars (p :: ps) = partChars p ++ rest ∧
      ((ps = [] ∧ rest = []) ∨
        ∃ cs, documentChars ps = '[' :: cs ∧ rest = '\n' :: '[' :: cs) := by
  cases ps with
  | nil => exact ⟨[], (List.append_nil _).symm, .inl ⟨rfl, rfl⟩⟩
  | cons q qs =>
      obtain ⟨cs, hcs⟩ : ∃ cs, documentChars (q :: qs) = '[' :: cs := by
        cases qs <;> exact ⟨_, rfl⟩
      exact ⟨'\n' :: '[' :: cs, by rw [documentChars, hcs],
        .inr ⟨cs, hcs, rfl⟩⟩

private theorem pair?_of_key? {cs : List Char} (h : key? cs = none)
    (fuel line : Nat) : pair? fuel line cs = none := by
  cases fuel with
  | zero => rw [pair?]
  | succ fuel => rw [pair?, h]

private theorem entries_nil (fuel n : Nat) :
    entries (fuel + 1) n [] = some [] := by
  have hblank : dropBlanks [] = [] := rfl
  have hkey : key? [] = none := rfl
  simp only [entries, entry, hblank, header?, pair?_of_key? hkey]
  rfl

private theorem entries_documentChars {ps : List (Part ν)}
    (h : ∀ p ∈ ps, Legible spell lit p) {fuel : Nat}
    (hfuel : ps.length < fuel) (n : Nat) :
    entries fuel n (documentChars (ps.map (·.map spell))) =
      some (partItems n (ps.map (·.map lit))) := by
  induction ps generalizing fuel n with
  | nil =>
      obtain ⟨fuel, rfl⟩ :=
        Nat.exists_eq_succ_of_ne_zero (Nat.ne_zero_of_lt hfuel)
      exact entries_nil fuel n
  | cons p ps ih =>
      obtain ⟨hp, hps⟩ := List.forall_mem_cons.1 h
      obtain ⟨fuel, rfl⟩ :=
        Nat.exists_eq_succ_of_ne_zero (Nat.ne_zero_of_lt hfuel)
      have hfuel : ps.length < fuel := Nat.lt_of_succ_lt_succ hfuel
      have ih := ih hps hfuel (n + p.lines.length + 2)
      rw [List.map_cons]
      obtain ⟨rest, hchars, hrest⟩ :=
        documentChars_cons (p.map spell) (ps.map (·.map spell))
      have hlines : p.lines.length <
          (partChars (p.map spell) ++ rest).length + 1 := by
        have hle := length_le_flatMap_lineChars (p.map spell).lines
        have hlength : (p.map spell).lines.length = p.lines.length :=
          List.length_map _
        simp only [partChars, List.length_append, List.length_cons]
        omega
      have hend : ∀ fuel line n, pair? fuel line (dropGap n rest).2 = none := by
        intro fuel line n
        rcases hrest with ⟨-, rfl⟩ | ⟨cs, -, rfl⟩
        · exact pair?_of_key? rfl fuel line
        · exact pair?_of_key? rfl fuel line
      have hlength : (p.map lit).lines.length = p.lines.length :=
        List.length_map _
      rw [hchars]
      simp only [entries, entry_partChars hp hend hlines,
        show isLineEnd '\n' = true from rfl, if_true, List.map_cons, partItems,
        hlength]
      rcases hrest with ⟨hnil, rfl⟩ | ⟨cs, hcs, rfl⟩
      · -- Behind the last table there is nothing left to read.
        obtain rfl := List.map_eq_nil_iff.1 hnil
        obtain ⟨fuel, rfl⟩ :=
          Nat.exists_eq_succ_of_ne_zero (Nat.ne_zero_of_lt hfuel)
        have hnext : dropLineEnds (n + p.lines.length) ['\n'] =
            (n + p.lines.length + 1, []) := rfl
        rw [hnext, entries_nil]
        rfl
      · have hnext : dropLineEnds (n + p.lines.length)
              ('\n' :: '\n' :: '[' :: cs) =
            (n + p.lines.length + 2, '[' :: cs) := rfl
        rw [hnext, ← hcs, ih]
        rfl

private theorem length_le_documentChars (ps : List (Part String)) :
    ps.length ≤ (documentChars ps).length := by
  induction ps with
  | nil => exact Nat.le_refl 0
  | cons p ps ih =>
      obtain ⟨rest, hchars, hrest⟩ := documentChars_cons p ps
      rw [hchars, List.length_append, partChars, List.length_cons,
        List.length_cons]
      rcases hrest with ⟨rfl, rfl⟩ | ⟨cs, hcs, rfl⟩
      · exact Nat.succ_le_succ (Nat.zero_le _)
      · rw [hcs, List.length_cons] at ih
        simp only [List.length_cons]
        omega

/-- **A document is read as its tables, keys and values.** -/
theorem items_documentText {ps : List (Part ν)}
    (h : ∀ p ∈ ps, Legible spell lit p) :
    items (documentText (ps.map (·.map spell))).toList =
      some (partItems 1 (ps.map (·.map lit))) := by
  have hle := length_le_documentChars (ps.map (·.map spell))
  rw [List.length_map] at hle
  rw [items, toList_documentText]
  exact entries_documentChars h (Nat.lt_succ_of_le hle) 1

end Parts

end Document

end Fixture.Toml
