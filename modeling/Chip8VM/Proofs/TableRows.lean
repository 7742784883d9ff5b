import Mathlib.Data.List.Chain
import Chip8VM.Proofs.TableText

/-!
# What the rows of the memory table show

A row of words shows one chunk of sixteen bytes, of which not all are zero, and a row of
zeros stands for as many chunks of zeros as follow one another.  The last chunk may be
short.  No numeral and no filler contains a line break, so that the rows can be read off
the text, and the bytes off the rows, however many there are.
-/

namespace Chip8VM.Dump

def byteAt (bytes : List UInt8) (a : Nat) : UInt8 := bytes[a]?.getD 0

def wordAt (bytes : List UInt8) (a : Nat) : UInt16 :=
  Word.ofBytes (byteAt bytes a) (byteAt bytes (a + 1))

namespace Row

/-- A row of words shows the chunk that it covers, and a row of zeros covers whole chunks. -/
def Shows (bytes : List UInt8) : Row → Prop
  | .words first last entries =>
      16 ∣ first ∧ last + 1 = min (first + 16) bytes.length ∧
        (∃ a, first ≤ a ∧ a ≤ last ∧ byteAt bytes a ≠ 0) ∧
        entries.length = 8 ∧ ∀ i < 8, entries[i]? = some (wordAt bytes (first + 2 * i))
  | .zeros first last =>
      16 ∣ first ∧ first ≤ last ∧
        (last + 1 = bytes.length ∨ 16 ∣ last + 1 ∧ last + 1 < bytes.length) ∧
        ∀ a, first ≤ a → a ≤ last → byteAt bytes a = 0

def IsZeros : Row → Prop
  | .words _ _ _ => False
  | .zeros _ _ => True

def Apart (row next : Row) : Prop := ¬ (row.IsZeros ∧ next.IsZeros)

theorem Shows.regular {bytes : List UInt8} {row : Row} (h : row.Shows bytes) : row.Regular := by
  cases row with
  | words first last entries =>
      obtain ⟨-, -, ⟨a, hfirst, hlast, -⟩, hlength, -⟩ := h
      exact ⟨Nat.le_trans hfirst hlast, hlength⟩
  | zeros first last => exact h.2.1

end Row

/-! ## One chunk -/

section

variable {bytes : List UInt8} {start : Nat}

end

/-! ## The whole table -/

/-- Rows that show the cells from `start` on, as few of them as possible. -/
structure Tabulates (bytes : List UInt8) (start : Nat) (rows : List Row) : Prop where
  tiles : Tiles start rows bytes.length
  shows : ∀ row ∈ rows, row.Shows bytes
  apart : rows.IsChain Row.Apart

section

variable {bytes : List UInt8} {start : Nat}

theorem Row.cons_cases (row : Row) (rows : List Row) :
    (∃ first last first' last' later, row = .zeros first last ∧
      rows = .zeros first' last' :: later ∧ row.cons rows = .zeros first last' :: later) ∨
    row.cons rows = row :: rows ∧ ∀ next ∈ rows.head?, row.Apart next := by
  cases row with
  | words first last entries => exact .inr ⟨rfl, fun _ _ => And.left⟩
  | zeros first last =>
      match rows with
      | [] => exact .inr ⟨rfl, fun _ hnext => absurd hnext (by simp)⟩
      | .words first' last' entries' :: later =>
          refine .inr ⟨rfl, fun next hnext => ?_⟩
          obtain rfl := Option.some.inj hnext
          exact And.right
      | .zeros first' last' :: later => exact .inl ⟨_, _, _, _, _, rfl, rfl, rfl⟩

theorem Tabulates.cons {row : Row} {rows : List Row} {next : Nat} (hrow : row.Shows bytes)
    (hnext : row.last + 1 = next) (h : Tabulates bytes next rows) :
    Tabulates bytes row.first (row.cons rows) := by
  have htiles := (tiles_cons hrow.regular hnext h.tiles).1
  rcases row.cons_cases rows with ⟨first, last, first', last', later, rfl, rfl, hcons⟩ |
    ⟨hcons, hapart⟩
  · rw [hcons] at htiles ⊢
    obtain ⟨halign, hrange, -, hzero⟩ := hrow
    obtain ⟨⟨-, hrange', hend', hzero'⟩, hlater⟩ := List.forall_mem_cons.mp h.shows
    obtain rfl : first' = last + 1 := h.tiles.1.trans hnext.symm
    refine ⟨htiles, List.forall_mem_cons.mpr ⟨⟨halign, by omega, hend', ?_⟩, hlater⟩, ?_⟩
    · intro a hfirst hlast
      rcases Nat.lt_or_ge last a with hbehind | hbefore
      · exact hzero' a hbehind hlast
      · exact hzero a hfirst hbefore
    · exact h.apart.tail.cons (List.isChain_cons.mp h.apart).1
  · rw [hcons] at htiles ⊢
    exact ⟨htiles, List.forall_mem_cons.mpr ⟨hrow, h.shows⟩, h.apart.cons hapart⟩

end

/-! ## Reading the text -/

end Chip8VM.Dump
