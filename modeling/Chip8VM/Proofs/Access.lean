import Chip8VM.Memory

/-!
# Accesses to memory

Words and blocks are read and written where all of their bytes lie in memory,
and nowhere else.
-/

namespace Chip8VM.Memory

theorem fetch_of_lt (m : Memory) {pointer : Nat} (h : pointer + 1 < memorySize) :
    m.fetch pointer = .ok (Word.ofBytes m.cells[pointer] m.cells[pointer + 1]) := by
  simp [fetch, Word.fetch, Nat.lt_of_succ_lt h, h]

theorem fetch_of_le (m : Memory) {pointer : Nat} (h : memorySize ≤ pointer + 1) :
    m.fetch pointer = .error (.outside pointer memorySize) := by
  have hlow : m.cells[pointer + 1]? = none := Vector.getElem?_eq_none h
  simp [fetch, Word.fetch, hlow]

def HoldsWord (m : Memory) (pointer : Nat) (word : UInt16) : Prop :=
  pointer + 1 < memorySize ∧
    word.toNat = 256 * (m.bytes.getD pointer 0).toNat + (m.bytes.getD (pointer + 1) 0).toNat

theorem fetch_eq_ok_iff {m : Memory} {pointer : Nat} {word : UInt16} :
    m.fetch pointer = .ok word ↔ m.HoldsWord pointer word := by
  rcases Nat.lt_or_ge (pointer + 1) memorySize with hlt | hge
  · rw [fetch_of_lt m hlt, Except.ok.injEq, HoldsWord, ← UInt16.toNat_inj,
      Word.toNat_ofBytes]
    simp [bytes, memorySize, hlt, Nat.lt_of_succ_lt hlt, eq_comm]
  · rw [fetch_of_le m hge]
    simp [HoldsWord, memorySize, Nat.not_lt.mpr hge]

theorem toNat_next {pointer : UInt16} (h : pointer.toNat + 1 < memorySize) :
    (pointer + 2).toNat = pointer.toNat + 2 := by
  refine Word.toNat_add_of_lt ?_
  simp only [memorySize, UInt16.reduceToNat] at h ⊢
  omega

theorem lt_of_fetch_eq_ok {m : Memory} {pointer : Nat} {word : UInt16}
    (h : m.fetch pointer = .ok word) : pointer + 1 < memorySize :=
  (fetch_eq_ok_iff.mp h).1

theorem fetch_eq_error_iff {m : Memory} {pointer : Nat} {e : WordError} :
    m.fetch pointer = .error e ↔ memorySize ≤ pointer + 1 ∧ e = .outside pointer memorySize := by
  rcases Nat.lt_or_ge (pointer + 1) memorySize with hlt | hge
  · rw [fetch_of_lt m hlt]
    simp [memorySize, Nat.not_le.mpr hlt]
  · rw [fetch_of_le m hge, Except.error.injEq]
    simp [memorySize, hge, eq_comm]

theorem fetch_place (cells : Vector UInt8 memorySize) {program : List UInt8}
    {address offset : Nat} {high low : UInt8} (hbound : address + offset + 1 < memorySize)
    (hhigh : program[offset]? = some high) (hlow : program[offset + 1]? = some low) :
    (Memory.mk (place cells address program)).fetch (address + offset) =
      .ok (Word.ofBytes high low) := by
  rw [fetch_of_lt _ hbound]
  simp only [getElem_place, Nat.le_add_right, Nat.add_assoc, if_true,
    Nat.add_sub_cancel_left, hhigh, hlow, Option.getD_some]

theorem read_eq_ok {m : Memory} {address length : Nat} {bytes : List UInt8}
    (h : m.read address length = .ok bytes) :
    address + length ≤ memorySize ∧ bytes.length = length := by
  unfold read at h
  split at h <;> cases h
  case isTrue hbound => exact ⟨hbound, List.length_ofFn⟩

theorem read_of_le (m : Memory) {address length : Nat} (h : address + length ≤ memorySize) :
    m.read address length = .ok ((m.bytes.drop address).take length) := by
  rw [read, dif_pos h]
  refine congrArg Except.ok (List.ext_getElem ?_ fun k hk _ => ?_)
  · simp only [bytes, List.length_ofFn, List.length_take, List.length_drop,
      Vector.length_toList]
    omega
  · simp [bytes]

theorem read_of_lt (m : Memory) {address length : Nat} (h : memorySize < address + length) :
    m.read address length = .error ⟨address, length⟩ := dif_neg (Nat.not_le.mpr h)

theorem read_eq_ok_iff {m : Memory} {address length : Nat} {bytes : List UInt8} :
    m.read address length = .ok bytes ↔
      address + length ≤ memorySize ∧ bytes = (m.bytes.drop address).take length := by
  rcases Nat.lt_or_ge memorySize (address + length) with hlt | hle
  · simp [m.read_of_lt hlt, Nat.not_le.mpr hlt]
  · simp [m.read_of_le hle, hle, eq_comm]

theorem read_eq_error_iff {m : Memory} {address length : Nat} {e : AccessError} :
    m.read address length = .error e ↔
      memorySize < address + length ∧ e = ⟨address, length⟩ := by
  rcases Nat.lt_or_ge memorySize (address + length) with hlt | hle
  · simp [m.read_of_lt hlt, hlt, eq_comm]
  · simp [m.read_of_le hle, Nat.not_lt.mpr hle]

theorem read_two (m : Memory) {address : Nat} (h : address + 1 < memorySize) :
    m.read address 2 = .ok [m.cells[address], m.cells[address + 1]] := dif_pos h

theorem write_of_le (m : Memory) {address : Nat} {bytes : List UInt8}
    (h : address + bytes.length ≤ memorySize) :
    m.write address bytes = .ok ⟨place m.cells address bytes⟩ := if_pos h

theorem write_of_lt (m : Memory) {address : Nat} {bytes : List UInt8}
    (h : memorySize < address + bytes.length) :
    m.write address bytes = .error ⟨address, bytes.length⟩ := if_neg (Nat.not_le.mpr h)

theorem write_eq_ok {m written : Memory} {address : Nat} {bytes : List UInt8}
    (h : m.write address bytes = .ok written) :
    address + bytes.length ≤ memorySize ∧ written.cells = place m.cells address bytes := by
  unfold write at h
  split at h <;> cases h
  case isTrue hbound => exact ⟨hbound, rfl⟩

/-! ## Programs -/

theorem checkProgram_of_le {program : List UInt8}
    (h : program.length ≤ programLimit) : checkProgram program = .ok () := by
  simp [checkProgram, Nat.not_lt.mpr h]

theorem checkProgram_of_lt {program : List UInt8}
    (h : programLimit < program.length) :
    checkProgram program = .error ⟨program.length, programLimit⟩ := by
  simp [checkProgram, h]

theorem load_of_le (m : Memory) {program : List UInt8} (h : program.length ≤ programLimit) :
    m.load program = .ok ⟨place m.cells programStart program⟩ := by
  simp only [load, checkProgram_of_le h]

theorem load_of_lt (m : Memory) {program : List UInt8} (h : programLimit < program.length) :
    m.load program = .error ⟨program.length, programLimit⟩ := by
  simp only [load, checkProgram_of_lt h]

/-! ## Bytes put into memory -/

theorem get_place (cells : Vector UInt8 memorySize) (address : Nat) (bytes : List UInt8)
    (a : Fin memorySize) :
    (place cells address bytes).get a =
      (if address ≤ a.val then bytes[a.val - address]? else none).getD (cells.get a) := by
  refine (getElem_place cells address bytes a.val a.isLt).trans ?_
  split
  case isTrue => rfl
  case isFalse => rfl

theorem place_append (cells : Vector UInt8 memorySize) (address : Nat) (bytes more : List UInt8) :
    place cells address (bytes ++ more) =
      place (place cells address bytes) (address + bytes.length) more := by
  induction bytes generalizing cells address with
  | nil => rfl
  | cons byte bytes ih =>
      rw [List.cons_append, place, ih, place, List.length_cons, Nat.add_right_comm,
        Nat.add_assoc]

theorem length_front {size : Nat} (cells : Vector UInt8 size) {length : Nat}
    (h : length ≤ size) : (cells.toList.take length).length = length := by
  rw [List.length_take, Vector.length_toList]
  exact Nat.min_eq_left h

theorem bytes_place (cells : Vector UInt8 memorySize) {address : Nat} {bytes : List UInt8}
    (h : address + bytes.length ≤ memorySize) :
    (Memory.mk (place cells address bytes)).bytes =
      cells.toList.take address ++ bytes ++ cells.toList.drop (address + bytes.length) := by
  have hfront := length_front cells (Nat.le_of_add_right_le h)
  refine List.ext_getElem ?_ fun i hi _ => ?_
  · simp only [Memory.bytes, List.length_append, hfront, List.length_drop,
      Vector.length_toList]
    exact (Nat.add_sub_cancel' h).symm
  · simp only [Memory.bytes, Vector.length_toList] at hi
    simp only [Memory.bytes, Vector.getElem_toList, getElem_place, List.getElem_append,
      List.length_append, hfront, List.getElem_take, List.getElem_drop]
    rcases Nat.lt_or_ge i address with hbefore | hfrom
    · simp [hbefore, Nat.lt_add_right, Nat.not_le.mpr hbefore]
    · rcases Nat.lt_or_ge i (address + bytes.length) with hinside | hbehind
      · have hoffset : i - address < bytes.length := by omega
        simp [hfrom, Nat.not_lt.mpr hfrom, hinside, hoffset]
      · have hoffset : bytes[i - address]? = none :=
          List.getElem?_eq_none (by omega)
        simp [hfrom, hbehind, Nat.not_lt.mpr hbehind, hoffset]

theorem drop_bytes_place (cells : Vector UInt8 memorySize) {address : Nat} {bytes : List UInt8}
    (h : address + bytes.length ≤ memorySize) :
    (Memory.mk (place cells address bytes)).bytes.drop address =
      bytes ++ cells.toList.drop (address + bytes.length) := by
  rw [bytes_place cells h, List.append_assoc]
  exact List.drop_left' (length_front cells (Nat.le_of_add_right_le h))

theorem read_place (cells : Vector UInt8 memorySize) {address : Nat} {bytes : List UInt8}
    (h : address + bytes.length ≤ memorySize) :
    (Memory.mk (place cells address bytes)).read address bytes.length = .ok bytes := by
  rw [read_of_le _ h, drop_bytes_place cells h, List.take_left' rfl]

end Chip8VM.Memory
