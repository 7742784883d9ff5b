import Chip8VM.Machine.Dump

/-!
# The memory table

The rows of the memory table cover the cells one after the other, each cell
exactly once, and each row shows the cells that it covers.  So the cells can be
read back from the rows, although neighbouring rows of zeros are one row.
-/

namespace Chip8VM.Dump

/-! ## Pieces and words -/

theorem flatten_pieces {α : Type} (size : Nat) (l : List α) : (pieces size l).flatten = l := by
  induction l using pieces.induct size with
  | case1 => simp [pieces]
  | case2 a rest ih => rw [pieces, List.flatten_cons, ih, List.cons_append, List.take_append_drop]

theorem of_mem_pieces {α : Type} {size : Nat} (hsize : 0 < size) {l piece : List α}
    (h : piece ∈ pieces size l) : piece ≠ [] ∧ piece.length ≤ size := by
  induction l using pieces.induct size with
  | case1 => simp [pieces] at h
  | case2 a rest ih =>
      rw [pieces] at h
      rcases List.mem_cons.mp h with rfl | hlater
      · refine ⟨by simp, ?_⟩
        simp only [List.length_cons, List.length_take]
        omega
      · exact ih hlater

def bytesOf (word : UInt16) : List UInt8 :=
  [UInt8.ofNat (word.toNat / 256), UInt8.ofNat (word.toNat % 256)]

theorem bytesOf_ofBytes (high low : UInt8) : bytesOf (Word.ofBytes high low) = [high, low] := by
  have hhigh := high.toNat_lt
  have hlow := low.toNat_lt
  have hquotient : (256 * high.toNat + low.toNat) / 256 = high.toNat := by omega
  have hremainder : (256 * high.toNat + low.toNat) % 256 = low.toNat := by omega
  rw [bytesOf, Word.toNat_ofBytes, hquotient, hremainder, UInt8.ofNat_toNat, UInt8.ofNat_toNat]

theorem length_wordsOf (bytes : List UInt8) : (wordsOf bytes).length = (bytes.length + 1) / 2 := by
  induction bytes using wordsOf.induct with
  | case1 => rfl
  | case2 high => simp [wordsOf]
  | case3 high low rest ih =>
      simp only [wordsOf, List.length_cons, ih]
      omega

theorem flatMap_wordsOf (bytes : List UInt8) :
    ∃ filling, (wordsOf bytes).flatMap bytesOf = bytes ++ filling := by
  induction bytes using wordsOf.induct with
  | case1 => exact ⟨[], rfl⟩
  | case2 high => exact ⟨[0], by simp [wordsOf, bytesOf_ofBytes]⟩
  | case3 high low rest ih =>
      obtain ⟨filling, hrest⟩ := ih
      exact ⟨filling, by simp [wordsOf, bytesOf_ofBytes, hrest]⟩

/-! ## Rows -/

namespace Row

def first : Row → Nat
  | .words first _ _ | .zeros first _ => first

def last : Row → Nat
  | .words _ last _ | .zeros _ last => last

def cells : Row → List UInt8
  | .words first last entries => (entries.flatMap bytesOf).take (last + 1 - first)
  | .zeros first last => List.replicate (last + 1 - first) 0

/-- A row covers at least one cell, and a row of words has room for all of them. -/
def Regular : Row → Prop
  | .words first last entries => first ≤ last ∧ entries.length = rowLength
  | .zeros first last => first ≤ last

theorem Regular.first_le {row : Row} (h : row.Regular) : row.first ≤ row.last := by
  cases row with
  | words => exact h.1
  | zeros => exact h

end Row

section

variable {start : Nat} {bytes : List UInt8} (hsome : bytes ≠ [])
  (hlength : bytes.length ≤ rowLength * wordSize)

theorem first_rowOf : (rowOf start bytes).first = start := by
  unfold rowOf
  split <;> rfl

include hsome

theorem last_rowOf : (rowOf start bytes).last + 1 = start + bytes.length := by
  have hpos : 0 < bytes.length := List.length_pos_iff.mpr hsome
  unfold rowOf
  split <;> simp only [Row.last] <;> omega

include hlength

theorem regular_rowOf : (rowOf start bytes).Regular := by
  have hpos : 0 < bytes.length := List.length_pos_iff.mpr hsome
  unfold rowOf
  split
  case isTrue =>
      simp only [Row.Regular]
      omega
  case isFalse =>
      simp only [Row.Regular, List.length_append, length_wordsOf, List.length_replicate]
      simp only [rowLength, wordSize] at hlength ⊢
      omega

omit hlength

theorem cells_rowOf : (rowOf start bytes).cells = bytes := by
  have hpos : 0 < bytes.length := List.length_pos_iff.mpr hsome
  have hcount : start + bytes.length - 1 + 1 - start = bytes.length := by omega
  unfold rowOf
  split
  case isTrue hzero =>
      rw [Row.cells, hcount, eq_comm, List.eq_replicate_iff]
      exact ⟨rfl, by simpa using hzero⟩
  case isFalse =>
      obtain ⟨filling, hwords⟩ := flatMap_wordsOf bytes
      simp only [Row.cells, hcount, List.flatMap_append, hwords, List.append_assoc]
      exact List.take_left

end

/-! ## Tables -/

def Tiles (start : Nat) : List Row → Nat → Prop
  | [], stop => start = stop
  | row :: rows, stop => row.first = start ∧ row.Regular ∧ Tiles (row.last + 1) rows stop

theorem Tiles.le {start stop : Nat} {rows : List Row} (h : Tiles start rows stop) :
    start + rows.length ≤ stop := by
  induction rows generalizing start with
  | nil => exact Nat.le_of_eq h
  | cons row rows ih =>
      obtain ⟨hfirst, hregular, hrest⟩ := h
      have hlater := ih hrest
      have hrow := hregular.first_le
      simp only [List.length_cons]
      omega

theorem tiles_append {start stop : Nat} {rows later : List Row} :
    Tiles start (rows ++ later) stop ↔ ∃ next, Tiles start rows next ∧ Tiles next later stop := by
  induction rows generalizing start with
  | nil => simp [Tiles]
  | cons row rows ih =>
      simp only [List.cons_append, Tiles, ih, and_assoc, exists_and_left]

theorem tiles_cons {row : Row} {rows : List Row} {next stop : Nat} (hregular : row.Regular)
    (hnext : row.last + 1 = next) (h : Tiles next rows stop) :
    Tiles row.first (row.cons rows) stop ∧
      (row.cons rows).flatMap Row.cells = row.cells ++ rows.flatMap Row.cells := by
  subst hnext
  unfold Row.cons
  split
  case h_1 first last first' last' rest =>
      obtain ⟨hfirst, hregular', hrest⟩ := h
      simp only [Row.first, Row.last, Row.Regular] at *
      refine ⟨⟨rfl, by simp only [Row.Regular]; omega, hrest⟩, ?_⟩
      have hcount : last' + 1 - first = (last + 1 - first) + (last' + 1 - first') := by omega
      rw [List.flatMap_cons, List.flatMap_cons, Row.cells, Row.cells, Row.cells, hcount,
        ← List.replicate_append_replicate, List.append_assoc]
  case h_2 => exact ⟨⟨rfl, hregular, h⟩, List.flatMap_cons⟩

theorem tiles_rowsFrom (start : Nat) {parts : List (List UInt8)}
    (h : ∀ part ∈ parts, part ≠ [] ∧ part.length ≤ rowLength * wordSize) :
    Tiles start (rowsFrom start parts) (start + parts.flatten.length) ∧
      (rowsFrom start parts).flatMap Row.cells = parts.flatten := by
  induction parts generalizing start with
  | nil => exact ⟨rfl, rfl⟩
  | cons bytes parts ih =>
      obtain ⟨hsome, hlength⟩ := h bytes List.mem_cons_self
      obtain ⟨hlater, hshown⟩ := ih (start + bytes.length)
        fun part hpart => h part (List.mem_cons_of_mem bytes hpart)
      obtain ⟨htiles, hcells⟩ :=
        tiles_cons (regular_rowOf hsome hlength) (last_rowOf hsome) hlater
      rw [first_rowOf, Nat.add_assoc, ← List.length_append, ← List.flatten_cons] at htiles
      rw [cells_rowOf hsome, hshown, ← List.flatten_cons] at hcells
      exact ⟨htiles, hcells⟩

theorem tiles_memoryRows (bytes : List UInt8) : Tiles 0 (memoryRows bytes) bytes.length := by
  have hpieces := @of_mem_pieces UInt8 (rowLength * wordSize) (by decide) bytes
  have htiles := (tiles_rowsFrom 0 fun part hpart => hpieces hpart).1
  rwa [flatten_pieces, Nat.zero_add] at htiles

theorem cells_memoryRows (bytes : List UInt8) :
    (memoryRows bytes).flatMap Row.cells = bytes := by
  have hpieces := @of_mem_pieces UInt8 (rowLength * wordSize) (by decide) bytes
  have hcells := (tiles_rowsFrom 0 fun part hpart => hpieces hpart).2
  rwa [flatten_pieces] at hcells

end Chip8VM.Dump
