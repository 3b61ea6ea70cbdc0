/-!
# Tables

Finite maps as lists of entries with distinct keys, the latest entry first.
`Table.insert` replaces, so that the view `Table.find?` satisfies the two
usual equations and the size is the number of keys.
-/

namespace ClassMachine

/-- A finite map. No key stands in two entries. -/
structure Table (α β : Type) where
  entries : List (α × β)
  distinct : (entries.map Prod.fst).Nodup
deriving DecidableEq

namespace Table

variable {α β : Type} [DecidableEq α]

def empty : Table α β :=
  ⟨[], List.nodup_nil⟩

/-- The value of a key. -/
def find? (t : Table α β) (key : α) : Option β :=
  t.entries.lookup key

/-- The table without a key. -/
def erase (t : Table α β) (key : α) : Table α β where
  entries := t.entries.filter fun entry => entry.1 ≠ key
  distinct := t.distinct.sublist (List.filter_sublist.map Prod.fst)

/-- No entry of an erased key is left. -/
theorem notMem_keys_erase (t : Table α β) (key : α) :
    key ∉ (t.erase key).entries.map Prod.fst := by
  simp [erase]

/-- The table with a key set to a value. -/
def insert (t : Table α β) (key : α) (value : β) : Table α β where
  entries := (key, value) :: (t.erase key).entries
  distinct := List.nodup_cons.2 ⟨t.notMem_keys_erase key, (t.erase key).distinct⟩

/-- The number of keys. -/
def size (t : Table α β) : Nat :=
  t.entries.length

@[simp]
theorem find?_empty (key : α) : (empty : Table α β).find? key = none :=
  rfl

@[simp]
theorem find?_insert_self (t : Table α β) (key : α) (value : β) :
    (t.insert key value).find? key = some value := by
  simp [insert, find?]

/-- Dropping the entries of one key leaves the values of the others. -/
theorem lookup_filter_ne (entries : List (α × β)) {key other : α} (h : other ≠ key) :
    (entries.filter fun entry => entry.1 ≠ key).lookup other = entries.lookup other := by
  induction entries with
  | nil => rfl
  | cons entry rest ih =>
    obtain ⟨k, v⟩ := entry
    by_cases hk : k = key
    · subst hk
      have hne : (other == k) = false := by simpa using h
      simpa [List.lookup_cons, hne] using ih
    · by_cases ho : other == k <;> simp_all [List.lookup_cons]

theorem find?_insert_of_ne (t : Table α β) {key other : α} (value : β) (h : other ≠ key) :
    (t.insert key value).find? other = t.find? other := by
  have hne : (other == key) = false := by simpa using h
  simpa [insert, find?, erase, List.lookup_cons, hne] using lookup_filter_ne t.entries h

/-- The keys are those that have a value. -/
theorem mem_keys_iff {t : Table α β} {key : α} :
    key ∈ t.entries.map Prod.fst ↔ ∃ value, t.find? key = some value := by
  rw [← Option.isSome_iff_exists, ← Option.ne_none_iff_isSome, find?, ne_eq,
    List.lookup_eq_none_iff]
  simp

/-- What is found after an insertion has been inserted, or has been there before. -/
theorem find?_insert_eq_some {t : Table α β} {key other : α} {value found : β}
    (there : (t.insert key value).find? other = some found) :
    other = key ∧ found = value ∨ other ≠ key ∧ t.find? other = some found := by
  by_cases same : other = key
  · rw [same, find?_insert_self] at there
    exact Or.inl ⟨same, (Option.some.inj there).symm⟩
  · rw [find?_insert_of_ne t value same] at there
    exact Or.inr ⟨same, there⟩

end Table

end ClassMachine
