import Chip8VM.Proofs.MemoryTable
import Chip8VM.Proofs.Spelling
import Chip8VM.Proofs.StrictAccess

/-!
# Words and instructions

Each instruction is spelled by one word, and this word is the only one that decodes to it.
So a program that is written word by word is read back instruction by instruction.
-/

namespace Chip8VM

namespace Instruction

open Word

variable {w : UInt16}

/-! ## The layouts of words -/

theorem eq_spell_iff {first last : Nat} (hfirst : first < 16) (hlast : last < 16)
    (r s : Register) :
    w = spell first r s last ↔
      (family w).val = first ∧ r = x w ∧ s = y w ∧ (n w).val = last := by
  have hr : r.val < 16 := r.isLt
  have hs : s.val < 16 := s.isLt
  have hw := w.toNat_lt
  rw [← UInt16.toNat_inj, spell,
    UInt16.toNat_ofNat_of_lt' (by simp only [UInt16.size]; omega)]
  simp only [family, x, y, n, Fin.ext_iff]
  omega

theorem eq_spellByte_iff {first byte : Nat} (hfirst : first < 16) (hbyte : byte < 256)
    (r : Register) :
    w = spellByte first r byte ↔
      (family w).val = first ∧ r = x w ∧ (nn w).toNat = byte := by
  have hr : r.val < 16 := r.isLt
  have hw := w.toNat_lt
  have hnn : (nn w).toNat = w.toNat % 256 :=
    UInt8.toNat_ofNat_of_lt' (Nat.mod_lt _ (by decide))
  rw [← UInt16.toNat_inj, spellByte,
    UInt16.toNat_ofNat_of_lt' (by simp only [UInt16.size]; omega)]
  simp only [family, x, hnn, Fin.ext_iff]
  omega

theorem eq_spellAddress_iff {first : Nat} (hfirst : first < 16) (address : Address) :
    w = spellAddress first address ↔ (family w).val = first ∧ address = nnn w := by
  have haddress : address.val < 4096 := address.isLt
  have hw := w.toNat_lt
  rw [← UInt16.toNat_inj, spellAddress,
    UInt16.toNat_ofNat_of_lt' (by simp only [UInt16.size]; omega)]
  simp only [family, nnn, Fin.ext_iff]
  omega

theorem eq_nn_iff (byte : UInt8) : byte = nn w ↔ (nn w).toNat = byte.toNat := by
  rw [← UInt8.toNat_inj, eq_comm]

theorem spelledBy_iff_eq_encode {i : Instruction} : i.SpelledBy w ↔ w = i.encode := by
  cases i with
  | system op =>
      rw [SpelledBy, encode, ← UInt16.toNat_inj]
      cases op <;> rfl
  | jump target | call target | setIndex target | jumpOffset target =>
      exact (eq_spellAddress_iff (by decide) target).symm
  | skipIfEqual r byte | skipIfNotEqual r byte | load r byte | add r byte
  | random r byte =>
      rw [SpelledBy, eq_nn_iff, encode, eq_spellByte_iff (by decide) byte.toNat_lt]
  | skipIfSame r s | skipIfDifferent r s =>
      exact (eq_spell_iff (by decide) (by decide) r s).symm
  | alu op r s =>
      have hcode : op.code < 16 := by cases op <;> decide
      exact (eq_spell_iff (by decide) hcode r s).symm
  | draw r s rows =>
      rw [SpelledBy, Fin.ext_iff (a := rows), eq_comm (a := rows.val), encode,
        eq_spell_iff (by decide) rows.isLt]
  | key op r =>
      have hcode : op.code < 256 := by cases op <;> decide
      exact (eq_spellByte_iff (by decide) hcode r).symm
  | misc op r =>
      have hcode : op.code < 256 := by cases op <;> decide
      exact (eq_spellByte_iff (by decide) hcode r).symm

theorem decode?_eq_some_iff_eq_encode {i : Instruction} :
    decode? w = some i ↔ w = i.encode :=
  decode?_eq_some_iff.trans spelledBy_iff_eq_encode

theorem decode_eq_ok_iff {i : Instruction} : decode w = .ok i ↔ w = i.encode := by
  rw [← decode?_eq_some_iff_eq_encode, decode]
  cases decode? w with
  | none => simp
  | some j => simp

theorem decode_encode (i : Instruction) : decode i.encode = .ok i := decode_eq_ok_iff.mpr rfl

theorem decode_eq_error_iff {e : WordError} :
    decode w = .error e ↔ e = .unsupported w ∧ ∀ i : Instruction, w ≠ i.encode := by
  simp only [Ne, ← decode?_eq_some_iff_eq_encode, ← Option.eq_none_iff_forall_ne_some, decode]
  cases decode? w with
  | none => simp [eq_comm]
  | some i => simp

end Instruction

/-! ## Programs -/

namespace Word

theorem fetch_eq_error_iff {data : Array UInt8} {pointer : Nat} {e : WordError} :
    fetch data pointer = .error e ↔
      data.size ≤ pointer + 1 ∧ e = .outside pointer data.size := by
  unfold fetch
  rcases Nat.lt_or_ge (pointer + 1) data.size with hlt | hge
  · simp [hlt, Nat.lt_of_succ_lt hlt, Nat.not_le.mpr hlt]
  · simp [hge, eq_comm]

def written (words : List UInt16) : List UInt8 := words.flatMap Dump.bytesOf

theorem ofBytes_halves (word : UInt16) :
    ofBytes (UInt8.ofNat (word.toNat / 256)) (UInt8.ofNat (word.toNat % 256)) = word := by
  have hword := word.toNat_lt
  have hhigh : (UInt8.ofNat (word.toNat / 256)).toNat = word.toNat / 256 :=
    UInt8.toNat_ofNat_of_lt' (by simp only [UInt8.size]; omega)
  have hlow : (UInt8.ofNat (word.toNat % 256)).toNat = word.toNat % 256 :=
    UInt8.toNat_ofNat_of_lt' (Nat.mod_lt _ (by decide))
  apply UInt16.toNat_inj.mp
  rw [toNat_ofBytes, hhigh, hlow]
  omega

theorem getElem?_written {words : List UInt16} {k : Nat} (h : k < words.length) :
    (written words)[2 * k]? = some (UInt8.ofNat (words[k].toNat / 256)) ∧
      (written words)[2 * k + 1]? = some (UInt8.ofNat (words[k].toNat % 256)) := by
  induction words generalizing k with
  | nil => cases h
  | cons word words ih =>
      cases k with
      | zero => exact ⟨rfl, rfl⟩
      | succ k => exact ih (Nat.lt_of_succ_lt_succ h)

theorem fetch_written {words : List UInt16} {k : Nat} (h : k < words.length) :
    fetch (written words).toArray (2 * k) = .ok words[k] := by
  obtain ⟨hhigh, hlow⟩ := getElem?_written h
  rw [fetch, List.getElem?_toArray, List.getElem?_toArray, hhigh, hlow]
  exact congrArg Except.ok (ofBytes_halves words[k])

end Word

namespace Instruction

/-- Decoding inverts spelling, and no word but those that are spelled decodes.  A program
that is written word by word is read back at every second pointer, and only a pointer whose
successor is not inside the data reads no word, however many bits their sum takes. -/
theorem spelling_determines_instruction :
    (∀ (w : UInt16) (i : Instruction), decode w = .ok i ↔ w = i.encode) ∧
    (∀ i : Instruction, ∃ w : UInt16, decode w = .ok i ∧ ∀ v, decode v = .ok i → v = w) ∧
    (∀ w : UInt16, (∀ i : Instruction, w ≠ i.encode) → decode w = .error (.unsupported w)) ∧
    (∀ (program : List Instruction) (k : Nat) (h : k < program.length),
      let data := (Word.written (program.map encode)).toArray
      (Word.fetch data (2 * k)).bind decode = .ok program[k]) ∧
    (∀ (data : Array UInt8) (pointer : Nat) (e : WordError),
      Word.fetch data pointer = .error e ↔
        data.size ≤ pointer + 1 ∧ e = .outside pointer data.size) ∧
    (∀ (data : Array UInt8) (pointer : UInt64), data.size ≤ UInt64.size →
      Strict.fetch data pointer = Word.fetch data pointer.toNat) := by
  refine ⟨fun w i => decode_eq_ok_iff, fun i => ⟨i.encode, decode_encode i, fun v h => ?_⟩,
    fun w h => decode_eq_error_iff.mpr ⟨rfl, h⟩, fun program k h => ?_,
    fun data pointer e => Word.fetch_eq_error_iff, fun data pointer h => ?_⟩
  · exact decode_eq_ok_iff.mp h
  · have hk : k < (program.map encode).length := by rwa [List.length_map]
    simp only [Word.fetch_written hk, List.getElem_map]
    exact decode_encode program[k]
  · exact Strict.fetch_eq h pointer

theorem program_of_two_words :
    let program : List Instruction :=
      [.call (Word.nnn 0x2ABC), .misc .storeDigits (Word.x 0xF733)]
    let data := (Word.written (program.map encode)).toArray
    data = #[0x2A, 0xBC, 0xF7, 0x33] ∧ 1 < program.length ∧
      (Word.fetch data 2).bind decode = .ok (.misc .storeDigits (Word.x 0xF733)) ∧
      data.size ≤ UInt64.size ∧
      Strict.fetch data 0xFFFFFFFFFFFFFFFF = .error (.outside 0xFFFFFFFFFFFFFFFF 4) ∧
      (∀ i : Instruction, 0x8018 ≠ i.encode) ∧
      decode 0x8018 = .error (.unsupported 0x8018) := by
  intro program data
  have hsize : data.size ≤ UInt64.size := by decide
  obtain ⟨hdecode, -, hother, hprogram, hfetch, hstrict⟩ := spelling_determines_instruction
  have hlast : Word.fetch data 0xFFFFFFFFFFFFFFFF =
      .error (.outside 0xFFFFFFFFFFFFFFFF 4) :=
    (hfetch data _ _).mpr ⟨by decide, rfl⟩
  have hnone : ∀ i : Instruction, 0x8018 ≠ i.encode := by
    intro i hi
    have hok := (hdecode 0x8018 i).mpr hi
    cases hok
  exact ⟨rfl, by decide, hprogram program 1 (by decide), hsize,
    (hstrict data 0xFFFFFFFFFFFFFFFF hsize).trans hlast, hnone, hother 0x8018 hnone⟩

end Instruction

end Chip8VM
