/-!
Cells that are shared through handles.

A handle is a number that stands for a cell. Cloning a handle gives another one
for the same cell; the handles of one cell are a family, and what is written
through one of them is read through all of them.
-/

namespace Chip8VM

structure Handles (α : Type) where
  cells : List α := []
  cellOf : List Nat := []
  deriving DecidableEq, Repr

namespace Handles

variable {α : Type}

def size (h : Handles α) : Nat := h.cellOf.length

def create (h : Handles α) (value : α) : Nat × Handles α :=
  (h.size, ⟨h.cells ++ [value], h.cellOf ++ [h.cells.length]⟩)

def clone? (h : Handles α) (handle : Nat) : Option (Nat × Handles α) :=
  (h.cellOf[handle]?).map fun cell => (h.size, { h with cellOf := h.cellOf ++ [cell] })

def read? (h : Handles α) (handle : Nat) : Option α :=
  (h.cellOf[handle]?).bind fun cell => h.cells[cell]?

def write (h : Handles α) (handle : Nat) (value : α) : Handles α :=
  match h.cellOf[handle]? with
  | some cell => { h with cells := h.cells.set cell value }
  | none => h

def readings (h : Handles α) : List α := h.cellOf.filterMap fun cell => h.cells[cell]?

/-- A write through one handle is read through all handles of its family. -/
theorem read?_write (h : Handles α) {i j : Nat} {cell : Nat} {old : α}
    (hi : h.cellOf[i]? = some cell) (ho : h.cells[cell]? = some old) (value : α) :
    (h.write i value).read? j = if h.cellOf[j]? = some cell then some value else h.read? j := by
  have hlt : cell < h.cells.length := by
    rcases List.getElem?_eq_some_iff.1 ho with ⟨hl, _⟩; exact hl
  unfold write read?
  simp only [hi]
  cases hj : h.cellOf[j]? with
  | none => simp
  | some other =>
      by_cases hc : cell = other
      · subst hc; simp [hlt]
      · have : other ≠ cell := fun h => hc h.symm
        simp [List.getElem?_set, hc, this]

end Handles

end Chip8VM
