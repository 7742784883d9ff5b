import Chip8VM.Instruction

/-!
# How instructions are spelled

A word that decodes to an instruction carries its family in the first digit, its
operands in the fields below, and the code of its operation in the last digits.
-/

namespace Chip8VM

theorem SystemOp.code_of_ofCode? {n : Nat} {op : SystemOp} (h : ofCode? n = some op) :
    op.code = n := by
  unfold ofCode? at h
  split at h <;> cases h <;> rfl

theorem AluOp.code_of_ofCode? {n : Nat} {op : AluOp} (h : ofCode? n = some op) :
    op.code = n := by
  unfold ofCode? at h
  split at h <;> cases h <;> rfl

theorem KeyOp.code_of_ofCode? {n : Nat} {op : KeyOp} (h : ofCode? n = some op) :
    op.code = n := by
  unfold ofCode? at h
  split at h <;> cases h <;> rfl

theorem MiscOp.code_of_ofCode? {n : Nat} {op : MiscOp} (h : ofCode? n = some op) :
    op.code = n := by
  unfold ofCode? at h
  split at h <;> cases h <;> rfl

namespace Instruction

open Word

def SpelledBy (w : UInt16) : Instruction → Prop
  | .system op => w.toNat = op.code
  | .jump target => (family w).val = 0x1 ∧ target = nnn w
  | .call target => (family w).val = 0x2 ∧ target = nnn w
  | .skipIfEqual r byte => (family w).val = 0x3 ∧ r = x w ∧ byte = nn w
  | .skipIfNotEqual r byte => (family w).val = 0x4 ∧ r = x w ∧ byte = nn w
  | .skipIfSame r s => (family w).val = 0x5 ∧ r = x w ∧ s = y w ∧ (n w).val = 0
  | .load r byte => (family w).val = 0x6 ∧ r = x w ∧ byte = nn w
  | .add r byte => (family w).val = 0x7 ∧ r = x w ∧ byte = nn w
  | .alu op r s => (family w).val = 0x8 ∧ r = x w ∧ s = y w ∧ (n w).val = op.code
  | .skipIfDifferent r s => (family w).val = 0x9 ∧ r = x w ∧ s = y w ∧ (n w).val = 0
  | .setIndex address => (family w).val = 0xA ∧ address = nnn w
  | .jumpOffset address => (family w).val = 0xB ∧ address = nnn w
  | .random r mask => (family w).val = 0xC ∧ r = x w ∧ mask = nn w
  | .draw r s rows => (family w).val = 0xD ∧ r = x w ∧ s = y w ∧ rows = n w
  | .key op r => (family w).val = 0xE ∧ r = x w ∧ (nn w).toNat = op.code
  | .misc op r => (family w).val = 0xF ∧ r = x w ∧ (nn w).toNat = op.code

theorem pair?_eq_some {w : UInt16} {r s : Register} (h : pair? w = some (r, s)) :
    (n w).val = 0 ∧ r = x w ∧ s = y w := by
  unfold pair? at h
  split at h
  case isTrue hn => cases h; exact ⟨by rw [hn]; rfl, rfl, rfl⟩
  case isFalse => cases h

theorem spelledBy_of_decode? {w : UInt16} {i : Instruction} (h : decode? w = some i) :
    i.SpelledBy w := by
  unfold decode? at h
  split at h
  case h_1 =>
      obtain ⟨op, hop, rfl⟩ := Option.map_eq_some_iff.mp h
      exact (SystemOp.code_of_ofCode? hop).symm
  case h_2 hfamily | h_3 hfamily | h_11 hfamily | h_12 hfamily =>
      cases h
      exact ⟨hfamily, rfl⟩
  case h_4 hfamily | h_5 hfamily | h_7 hfamily | h_8 hfamily | h_13 hfamily =>
      cases h
      exact ⟨hfamily, rfl, rfl⟩
  case h_6 hfamily | h_10 hfamily =>
      obtain ⟨⟨r, s⟩, hpair, rfl⟩ := Option.map_eq_some_iff.mp h
      obtain ⟨hzero, hr, hs⟩ := pair?_eq_some hpair
      exact ⟨hfamily, hr, hs, hzero⟩
  case h_9 hfamily =>
      obtain ⟨op, hop, rfl⟩ := Option.map_eq_some_iff.mp h
      exact ⟨hfamily, rfl, rfl, (AluOp.code_of_ofCode? hop).symm⟩
  case h_14 hfamily =>
      cases h
      exact ⟨hfamily, rfl, rfl, rfl⟩
  case h_15 hfamily =>
      obtain ⟨op, hop, rfl⟩ := Option.map_eq_some_iff.mp h
      exact ⟨hfamily, rfl, (KeyOp.code_of_ofCode? hop).symm⟩
  case h_16 hfamily =>
      obtain ⟨op, hop, rfl⟩ := Option.map_eq_some_iff.mp h
      exact ⟨hfamily, rfl, (MiscOp.code_of_ofCode? hop).symm⟩
  case h_17 => cases h

theorem decode?_of_spelledBy {w : UInt16} {i : Instruction} (h : i.SpelledBy w) :
    decode? w = some i := by
  cases i with
  | system op =>
      have hfamily : (family w).val = 0 := by
        simp only [family, show w.toNat = op.code from h]
        cases op <;> rfl
      have hcode : w.toNat = op.code := h
      cases op <;> simp [decode?, hfamily, system?, hcode, SystemOp.code, SystemOp.ofCode?]
  | jump target | call target | setIndex address | jumpOffset address =>
      obtain ⟨hfamily, rfl⟩ := h
      simp [decode?, hfamily]
  | skipIfEqual r byte | skipIfNotEqual r byte | load r byte | add r byte | random r mask =>
      obtain ⟨hfamily, rfl, rfl⟩ := h
      simp [decode?, hfamily]
  | skipIfSame r s | skipIfDifferent r s =>
      obtain ⟨hfamily, rfl, rfl, hzero⟩ := h
      have hn : n w = 0 := Fin.ext hzero
      simp [decode?, hfamily, pair?, hn]
  | draw r s rows =>
      obtain ⟨hfamily, rfl, rfl, rfl⟩ := h
      simp [decode?, hfamily]
  | alu op r s =>
      obtain ⟨hfamily, rfl, rfl, hcode⟩ := h
      cases op <;> simp [decode?, hfamily, alu?, hcode, AluOp.code, AluOp.ofCode?]
  | key op r =>
      obtain ⟨hfamily, rfl, hcode⟩ := h
      cases op <;> simp [decode?, hfamily, key?, hcode, KeyOp.code, KeyOp.ofCode?]
  | misc op r =>
      obtain ⟨hfamily, rfl, hcode⟩ := h
      cases op <;> simp [decode?, hfamily, misc?, hcode, MiscOp.code, MiscOp.ofCode?]

theorem decode?_eq_some_iff {w : UInt16} {i : Instruction} :
    decode? w = some i ↔ i.SpelledBy w :=
  ⟨spelledBy_of_decode?, decode?_of_spelledBy⟩

end Instruction

end Chip8VM
