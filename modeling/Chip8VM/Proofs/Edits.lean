import Chip8VM.Instruction
import Chip8VM.Proofs.StrictAccess

/-!
# What the cells hold

The memory is a map from addresses to bytes.  It is edited as a whole: reset, loaded with a
program, written from an address on.  An edit that does not fit leaves every cell as it is;
after any edits a cell holds the byte of the last one that fits and covers it.
-/

namespace Chip8VM

inductive Edit where
  | reset
  | load (program : List UInt8)
  | write (address : Nat) (bytes : List UInt8)
  deriving DecidableEq, Repr

inductive EditError where
  | size (cause : SizeError)
  | access (cause : AccessError)
  deriving DecidableEq, Repr

namespace Edit

def Fits : Edit → Prop
  | .reset => True
  | .load program => program.length ≤ programLimit
  | .write address bytes => address + bytes.length ≤ memorySize

instance : (e : Edit) → Decidable e.Fits
  | .reset => isTrue trivial
  | .load program => inferInstanceAs (Decidable (program.length ≤ programLimit))
  | .write address bytes => inferInstanceAs (Decidable (address + bytes.length ≤ memorySize))

def byte? (a : Nat) : Edit → Option UInt8
  | .reset => some (Font.bytes.getD a 0)
  | .load program => if programStart ≤ a then program[a - programStart]? else none
  | .write address bytes => if address ≤ a then bytes[a - address]? else none

def Covers (e : Edit) (a : Nat) : Prop := e.Fits ∧ e.byte? a ≠ none

instance (e : Edit) (a : Nat) : Decidable (e.Covers a) := inferInstanceAs (Decidable (_ ∧ _))

end Edit

namespace Memory

def edit (m : Memory) : Edit → Memory × Except EditError Unit
  | .reset => (initial, .ok ())
  | .load program =>
      match m.load program with
      | .error e => (m, .error (.size e))
      | .ok loaded => (loaded, .ok ())
  | .write address bytes =>
      match m.write address bytes with
      | .error e => (m, .error (.access e))
      | .ok written => (written, .ok ())

def edited (m : Memory) (edits : List Edit) : Memory :=
  edits.foldl (fun m e => (m.edit e).1) m

variable {m : Memory}

/-! ## One edit -/

theorem edit_of_fits {e : Edit} (h : e.Fits) : (m.edit e).2 = .ok () := by
  cases e with
  | reset => rfl
  | load program => simp only [edit, load_of_le m h]
  | write address bytes => simp only [edit, write_of_le m h]

theorem edit_load_of_lt {program : List UInt8} (h : programLimit < program.length) :
    m.edit (.load program) = (m, .error (.size ⟨program.length, programLimit⟩)) := by
  simp only [edit, load_of_lt m h]

theorem edit_write_of_lt {address : Nat} {bytes : List UInt8}
    (h : memorySize < address + bytes.length) :
    m.edit (.write address bytes) = (m, .error (.access ⟨address, bytes.length⟩)) := by
  simp only [edit, write_of_lt m h]

theorem edit_of_not_fits {e : Edit} (h : ¬ e.Fits) : (m.edit e).1 = m := by
  cases e with
  | reset => exact absurd trivial h
  | load program => rw [edit_load_of_lt (Nat.lt_of_not_le h)]
  | write address bytes => rw [edit_write_of_lt (Nat.lt_of_not_le h)]

theorem get_edit_of_fits {e : Edit} (h : e.Fits) (a : Address) :
    (m.edit e).1.cells.get a = (e.byte? a.val).getD (m.cells.get a) := by
  cases e with
  | reset =>
      refine (get_place _ Font.start Font.bytes a).trans ?_
      have hzero : (Vector.replicate memorySize (0 : UInt8)).get a = 0 :=
        Vector.getElem_replicate a.isLt
      simp [Edit.byte?, Font.start, hzero]
  | load program =>
      simp only [edit, load_of_le m h]
      exact get_place _ _ _ a
  | write address bytes =>
      simp only [edit, write_of_le m h]
      exact get_place _ _ _ a

theorem get_edit_of_not_covers {e : Edit} {a : Address} (h : ¬ e.Covers a.val) :
    (m.edit e).1.cells.get a = m.cells.get a := by
  by_cases hfits : e.Fits
  · have hnone : e.byte? a.val = none := by
      exact Decidable.byContradiction fun hsome => h ⟨hfits, hsome⟩
    rw [get_edit_of_fits hfits, hnone, Option.getD_none]
  · rw [edit_of_not_fits hfits]

/-! ## Edits one after the other -/

theorem get_edited_of_not_covers {edits : List Edit} {a : Address}
    (h : ∀ e ∈ edits, ¬ e.Covers a.val) : (m.edited edits).cells.get a = m.cells.get a := by
  induction edits generalizing m with
  | nil => rfl
  | cons e edits ih =>
      calc
        (m.edited (e :: edits)).cells.get a = ((m.edit e).1.edited edits).cells.get a := rfl
        _ = (m.edit e).1.cells.get a :=
          ih fun later hlater => h later (List.mem_cons_of_mem e hlater)
        _ = m.cells.get a := get_edit_of_not_covers (h e List.mem_cons_self)

theorem get_edited_last {before later : List Edit} {e : Edit} {a : Address} {byte : UInt8}
    (hfits : e.Fits) (hbyte : e.byte? a.val = some byte)
    (hlater : ∀ e ∈ later, ¬ e.Covers a.val) :
    (m.edited (before ++ e :: later)).cells.get a = byte := by
  have hsplit : m.edited (before ++ e :: later) = ((m.edited before).edit e).1.edited later := by
    simp only [edited, List.foldl_append, List.foldl_cons]
  rw [hsplit, get_edited_of_not_covers hlater, get_edit_of_fits hfits, hbyte, Option.getD_some]

/-! ## Words and blocks -/

theorem fetch_eq_ok_iff_read {pointer : Nat} {word : UInt16} :
    m.fetch pointer = .ok word ↔
      ∃ high low, m.read pointer 2 = .ok [high, low] ∧
        word.toNat = 256 * high.toNat + low.toNat := by
  rcases Nat.lt_or_ge (pointer + 1) memorySize with hlt | hge
  · rw [fetch_of_lt m hlt, read_two m hlt, Except.ok.injEq, ← UInt16.toNat_inj,
      Word.toNat_ofBytes]
    simp only [Except.ok.injEq, List.cons.injEq, and_true]
    constructor
    · intro hvalue
      exact ⟨_, _, ⟨rfl, rfl⟩, hvalue.symm⟩
    · rintro ⟨high, low, ⟨rfl, rfl⟩, hvalue⟩
      exact hvalue.symm
  · rw [fetch_of_le m hge, read_of_lt m (Nat.lt_succ_of_le hge)]
    simp

theorem fetch_eq_error_iff_read {pointer : Nat} {e : WordError} :
    m.fetch pointer = .error e ↔
      m.read pointer 2 = .error ⟨pointer, 2⟩ ∧ e = .outside pointer memorySize := by
  rw [fetch_eq_error_iff, read_eq_error_iff]
  simp [Nat.lt_succ_iff]

theorem strict_fetch_eq (pointer : UInt64) :
    Strict.fetch m.cells.toArray pointer = m.fetch pointer.toNat :=
  Strict.fetch_eq (Nat.le_trans (Nat.le_of_eq m.cells.size_toArray) (by decide)) pointer

/-- The memory is a bounded map of bytes.  An edit that does not fit is refused and writes
nothing; after any edits a cell holds the byte of the last one that fits and covers it, or
what it held before.  A block is read exactly if it ends in memory, and a word exactly if
the block of its two bytes is.  Addresses and lengths of 64 bits give the same answers. -/
theorem cells_hold_last_edit (m : Memory) :
    (∀ e : Edit, e.Fits → (m.edit e).2 = .ok ()) ∧
    (∀ program, 3584 < program.length →
      m.edit (.load program) = (m, .error (.size ⟨program.length, 3584⟩))) ∧
    (∀ address bytes, 4096 < address + bytes.length →
      m.edit (.write address bytes) = (m, .error (.access ⟨address, bytes.length⟩))) ∧
    (∀ (edits : List Edit) (a : Address),
      (∀ before e later byte, edits = before ++ e :: later → e.Fits →
        e.byte? a.val = some byte → (∀ other ∈ later, ¬ other.Covers a.val) →
          (m.edited edits).cells.get a = byte) ∧
      ((∀ e ∈ edits, ¬ e.Covers a.val) →
        (m.edited edits).cells.get a = m.cells.get a)) ∧
    (∀ address length,
      (∀ bytes, m.read address length = .ok bytes ↔
        address + length ≤ 4096 ∧ bytes = (m.bytes.drop address).take length) ∧
      (∀ e, m.read address length = .error e ↔
        4096 < address + length ∧ e = ⟨address, length⟩)) ∧
    (∀ pointer,
      (∀ word, m.fetch pointer = .ok word ↔
        ∃ high low, m.read pointer 2 = .ok [high, low] ∧
          word.toNat = 256 * high.toNat + low.toNat) ∧
      (∀ e, m.fetch pointer = .error e ↔
        m.read pointer 2 = .error ⟨pointer, 2⟩ ∧ e = .outside pointer 4096)) ∧
    (∀ address length : UInt64,
      Strict.read m address length = m.read address.toNat length.toNat) ∧
    (∀ (address : UInt64) (bytes : List UInt8), bytes.length < UInt64.size →
      Strict.write m address bytes = m.write address.toNat bytes) ∧
    (∀ pointer : UInt64, Strict.fetch m.cells.toArray pointer = m.fetch pointer.toNat) := by
  refine ⟨fun e => edit_of_fits, fun program => edit_load_of_lt,
    fun address bytes => edit_write_of_lt, fun edits a => ⟨?_, get_edited_of_not_covers⟩,
    fun address length => ⟨fun bytes => read_eq_ok_iff, fun e => read_eq_error_iff⟩,
    fun pointer => ⟨fun word => fetch_eq_ok_iff_read, fun e => fetch_eq_error_iff_read⟩,
    Strict.read_eq m, fun address bytes => Strict.write_eq m address,
    fun pointer => strict_fetch_eq pointer⟩
  rintro before e later byte rfl hfits hbyte hlater
  exact get_edited_last hfits hbyte hlater

/-- The third edit does not fit, and the fourth one is too short for the cell. -/
theorem cell_of_overlapping_edits :
    let written : Edit := .write 0x201 [9, 8]
    let later : List Edit := [.write 0xFFE [7, 7, 7], .load [5]]
    let a := Word.nnn 0x0202
    written.Fits ∧ written.byte? a.val = some 8 ∧ (∀ other ∈ later, ¬ other.Covers a.val) ∧
      (initial.edited ([.load [1, 2, 3]] ++ written :: later)).cells.get a = 8 ∧
      4096 < 0xFFE + 3 ∧
      initial.edit (.write 0xFFE [7, 7, 7]) = (initial, .error (.access ⟨0xFFE, 3⟩)) ∧
      Strict.read initial 0xFFFFFFFFFFFFFFFF 2 = .error ⟨0xFFFFFFFFFFFFFFFF, 2⟩ := by
  intro written later a
  have hfits : written.Fits := by decide
  have hbyte : written.byte? a.val = some 8 := by decide
  have hlater : ∀ other ∈ later, ¬ other.Covers a.val := by decide
  have hlong : 4096 < 0xFFE + 3 := by decide
  obtain ⟨-, -, hrefused, hcells, hread, -, hstrict, -⟩ := cells_hold_last_edit initial
  have hcell := (hcells _ a).1 [.load [1, 2, 3]] written later 8 rfl hfits hbyte hlater
  have hout := ((hread 0xFFFFFFFFFFFFFFFF 2).2 ⟨0xFFFFFFFFFFFFFFFF, 2⟩).mpr ⟨by decide, rfl⟩
  exact ⟨hfits, hbyte, hlater, hcell, hlong, hrefused 0xFFE [7, 7, 7] hlong,
    (hstrict 0xFFFFFFFFFFFFFFFF 2).trans hout⟩

end Memory

end Chip8VM
