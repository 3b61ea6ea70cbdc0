/-!
# Cells

The storage of an array: a fixed number of cells, blank until they are
written. Only the cells up to the last one written are kept, so that a new
array costs nothing, however long it is. The view is `Cells.get`.
-/

namespace ClassMachine

/-- A fixed number of cells. Those behind the written ones are blank. -/
structure Cells {α : Type} (blank : α) where
  size : Nat
  written : Array α
  written_le : written.size ≤ size
deriving DecidableEq

namespace Cells

variable {α : Type} {blank : α}

/-- Cells of which none has been written. -/
def new (size : Nat) : Cells blank :=
  ⟨size, #[], Nat.zero_le size⟩

def ofList (values : List α) : Cells blank :=
  ⟨values.length, values.toArray, by simp⟩

/-- What a cell holds. -/
def get (cells : Cells blank) (position : Nat) : α :=
  cells.written.getD position blank

/-- What the cells hold, in order. -/
def toList (cells : Cells blank) : List α :=
  cells.written.toList ++ List.replicate (cells.size - cells.written.size) blank

/-- Writes a cell. Blanks fill the gap to a cell behind the written ones. -/
def set (cells : Cells blank) (position : Nat) (value : α) : Cells blank :=
  if h : position < cells.size then
    let gap := Array.replicate (position + 1 - cells.written.size) blank
    { size := cells.size
      written := (cells.written ++ gap).setIfInBounds position value
      written_le := by have := cells.written_le; simp [gap]; omega }
  else cells

@[simp]
theorem length_toList (cells : Cells blank) : cells.toList.length = cells.size := by
  have h := cells.written_le
  simp [toList]
  omega

@[simp]
theorem size_set (cells : Cells blank) (position : Nat) (value : α) :
    (cells.set position value).size = cells.size := by
  unfold set
  split <;> rfl

@[simp]
theorem get_new (size position : Nat) : (new size : Cells blank).get position = blank := by
  simp [new, get]

/-- Blanks behind the written cells change nothing. -/
theorem getD_append_blanks (written : Array α) (count position : Nat) :
    (written ++ Array.replicate count blank).getD position blank
      = written.getD position blank := by
  simp only [Array.getD_eq_getD_getElem?, Array.getElem?_append, Array.getElem?_replicate]
  split
  · rfl
  · next outside =>
    rw [Array.getElem?_eq_none (Nat.le_of_not_lt outside)]
    split <;> rfl

/-- A cell holds what was written last. -/
theorem get_set_self (cells : Cells blank) {position : Nat} (value : α)
    (h : position < cells.size) : (cells.set position value).get position = value := by
  have inside : position < cells.written.size + (position + 1 - cells.written.size) := by omega
  simp [set, get, h, inside]

/-- Writing a cell leaves the others. -/
theorem get_set_of_ne (cells : Cells blank) {position other : Nat} (value : α)
    (h : other ≠ position) : (cells.set position value).get other = cells.get other := by
  unfold set get
  split
  · rw [Array.getD_eq_getD_getElem?, Array.getElem?_setIfInBounds, if_neg h.symm,
      ← Array.getD_eq_getD_getElem?, getD_append_blanks]
  · rfl

end Cells

end ClassMachine
