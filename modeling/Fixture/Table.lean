/-!
# Tables

A table binds names to things. A new name goes to the end and a known name keeps
its place, so two runs that bind the same names in the same order have equal
tables, and binding a name to what it already holds changes nothing.
-/

namespace Fixture

/-- Bindings of names, in the order in which the names were first bound. -/
structure Table (α : Type) where
  entries : List (String × α)

namespace Table

variable {α : Type}

/-- The table without bindings. -/
def empty : Table α := ⟨[]⟩

/-- What a name is bound to. -/
def get? (t : Table α) (name : String) : Option α := t.entries.lookup name

/-- Binds a name in a list of entries. -/
def setEntry (name : String) (a : α) : List (String × α) → List (String × α)
  | [] => [(name, a)]
  | (n, b) :: rest =>
    if n = name then (name, a) :: rest else (n, b) :: setEntry name a rest

/-- Binds a name, in place of what it was bound to before. -/
def set (t : Table α) (name : String) (a : α) : Table α :=
  ⟨setEntry name a t.entries⟩

/-- How many names are bound. -/
def size (t : Table α) : Nat := t.entries.length

/-- The bindings in the order of their names. -/
def sorted (t : Table α) : List (String × α) :=
  t.entries.mergeSort fun a b => a.1 ≤ b.1

/-- The bound names in order. -/
def names (t : Table α) : List String := t.sorted.map Prod.fst

@[simp] theorem get?_empty (name : String) :
    (empty : Table α).get? name = none := rfl

private theorem lookup_setEntry (name other : String) (a : α)
    (entries : List (String × α)) :
    (setEntry name a entries).lookup other =
      if other = name then some a else entries.lookup other := by
  induction entries with
  | nil =>
    by_cases h : other = name
    · simp [setEntry, h]
    · simp [setEntry, List.lookup_cons, beq_false_of_ne h, h]
  | cons entry rest ih =>
    obtain ⟨n, b⟩ := entry
    by_cases hn : n = name
    · subst hn
      by_cases h : other = n
      · simp [setEntry, h]
      · simp [setEntry, List.lookup_cons, beq_false_of_ne h, h]
    · by_cases h : other = n
      · simp [setEntry, h, hn]
      · simp [setEntry, List.lookup_cons, beq_false_of_ne h, hn, ih]

theorem get?_set (t : Table α) (name other : String) (a : α) :
    (t.set name a).get? other = if other = name then some a else t.get? other :=
  lookup_setEntry name other a t.entries

/-- A new name goes to the end. -/
theorem entries_set_of_fresh {t : Table α} {name : String}
    (h : t.get? name = none) (a : α) :
    (t.set name a).entries = t.entries ++ [(name, a)] := by
  obtain ⟨entries⟩ := t
  replace h : ∀ e ∈ entries, ¬ name = e.1 := by
    simpa [get?, List.lookup_eq_none_iff] using h
  show setEntry name a entries = entries ++ [(name, a)]
  induction entries with
  | nil => rfl
  | cons entry rest ih =>
    obtain ⟨hentry, hrest⟩ := List.forall_mem_cons.1 h
    rw [setEntry, if_neg (Ne.symm hentry), ih hrest]
    rfl

/-- What a name was bound to before is forgotten. -/
theorem set_set (t : Table α) (name : String) (a b : α) :
    (t.set name a).set name b = t.set name b := by
  obtain ⟨entries⟩ := t
  show Table.mk (setEntry name b (setEntry name a entries)) =
    ⟨setEntry name b entries⟩
  rw [mk.injEq]
  induction entries with
  | nil => simp [setEntry]
  | cons entry rest ih =>
    rw [setEntry]
    split
    next h => simp [setEntry, h]
    next h => simp [setEntry, h, ih]

end Table

end Fixture
