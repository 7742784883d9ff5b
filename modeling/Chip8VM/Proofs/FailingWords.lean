import Chip8VM.Proofs.Footprint

/-!
# Which words fail

A step fails at a word that does not lie in memory, at a return from nowhere, at a call
too deep, and at a block from `I` on that leaves memory.  Nothing else fails; above all,
a word that is no instruction is passed over.
-/

namespace Chip8VM.Machine

open Word

def NextWord (m : Machine) (word : UInt16) : Prop := m.memory.HoldsWord m.pc.toNat word

/-- The states at which a step fails, each with its fault. -/
inductive FailsWith (m : Machine) : Fault → Prop where
  | outside (h : memorySize ≤ m.pc.toNat + 1) :
      FailsWith m (.word (.outside m.pc.toNat memorySize))
  | ret {word : UInt16} (hword : m.NextWord word) (hret : word.toNat = 0x00EE)
      (h : m.stack.depth = 0) : FailsWith m (.stack .empty)
  | call {word : UInt16} (hword : m.NextWord word) (hcall : (family word).val = 0x2)
      (h : m.stack.depth = stackLimit) : FailsWith m (.stack .full)
  | draw {word : UInt16} (hword : m.NextWord word) (hdraw : (family word).val = 0xD)
      (h : memorySize < m.index.toNat + (n word).val) :
      FailsWith m (.memory ⟨m.index.toNat, (n word).val⟩)
  | digits {word : UInt16} (hword : m.NextWord word) (hstore : Fits word 0xF 0x33)
      (h : memorySize < m.index.toNat + 3) : FailsWith m (.memory ⟨m.index.toNat, 3⟩)
  | registers {word : UInt16} (hword : m.NextWord word)
      (hblock : Fits word 0xF 0x55 ∨ Fits word 0xF 0x65)
      (h : memorySize < m.index.toNat + ((x word).val + 1)) :
      FailsWith m (.memory ⟨m.index.toNat, (x word).val + 1⟩)

variable {m : Machine} {fault : Fault}

theorem failsWith_of_fault? {word : UInt16} {i : Instruction} (hword : m.NextWord word)
    (hi : i.SpelledBy word) (h : m.fault? i = some fault) : m.FailsWith fault := by
  cases i with
  | system op =>
      cases op with
      | clear => cases h
      | ret =>
          simp only [fault?, Option.ite_none_right_eq_some, Option.some.injEq] at h
          exact h.2 ▸ .ret hword hi h.1
  | call target =>
      simp only [fault?, Option.ite_none_right_eq_some, Option.some.injEq] at h
      exact h.2 ▸ .call hword hi.1 h.1
  | draw r s rows =>
      obtain ⟨hfamily, -, -, rfl⟩ := hi
      obtain ⟨hroom, rfl⟩ := blockFault?_eq_some_iff.mp h
      exact .draw hword hfamily hroom
  | misc op r =>
      obtain ⟨hfamily, rfl, hcode⟩ := hi
      cases op with
      | storeDigits =>
          obtain ⟨hroom, rfl⟩ := blockFault?_eq_some_iff.mp h
          exact .digits hword ⟨hfamily, hcode⟩ hroom
      | storeRegisters =>
          obtain ⟨hroom, rfl⟩ := blockFault?_eq_some_iff.mp h
          exact .registers hword (.inl ⟨hfamily, hcode⟩) hroom
      | loadRegisters =>
          obtain ⟨hroom, rfl⟩ := blockFault?_eq_some_iff.mp h
          exact .registers hword (.inr ⟨hfamily, hcode⟩) hroom
      | getDelay | awaitKey | setDelay | setSound | addToIndex | glyph => cases h
  | jump | skipIfEqual | skipIfNotEqual | skipIfSame | load | add | alu | skipIfDifferent
  | setIndex | jumpOffset | random | key => cases h

theorem stepFault?_of_spelledBy {word : UInt16} {i : Instruction} (hword : m.NextWord word)
    (hi : i.SpelledBy word) : m.stepFault? = m.fault? i := by
  rw [stepFault?, Memory.fetch_eq_ok_iff.mpr hword]
  simp only [Instruction.decode?_of_spelledBy hi]

theorem stepFault?_of_failsWith (h : m.FailsWith fault) : m.stepFault? = some fault := by
  cases h with
  | outside h => rw [stepFault?, Memory.fetch_eq_error_iff.mpr ⟨h, rfl⟩]
  | ret hword hret h =>
      rw [stepFault?_of_spelledBy (i := .system .ret) hword hret]
      exact if_pos h
  | @call word hword hcall h =>
      rw [stepFault?_of_spelledBy (i := .call (nnn word)) hword ⟨hcall, rfl⟩]
      exact if_pos h
  | @draw word hword hdraw h =>
      rw [stepFault?_of_spelledBy (i := .draw (x word) (y word) (n word)) hword
        ⟨hdraw, rfl, rfl, rfl⟩]
      exact blockFault?_eq_some_iff.mpr ⟨h, rfl⟩
  | @digits word hword hstore h =>
      rw [stepFault?_of_spelledBy (i := .misc .storeDigits (x word)) hword
        ⟨hstore.1, rfl, hstore.2⟩]
      exact blockFault?_eq_some_iff.mpr ⟨h, rfl⟩
  | @registers word hword hblock h =>
      rcases hblock with hstore | hload
      · rw [stepFault?_of_spelledBy (i := .misc .storeRegisters (x word)) hword
          ⟨hstore.1, rfl, hstore.2⟩]
        exact blockFault?_eq_some_iff.mpr ⟨h, rfl⟩
      · rw [stepFault?_of_spelledBy (i := .misc .loadRegisters (x word)) hword
          ⟨hload.1, rfl, hload.2⟩]
        exact blockFault?_eq_some_iff.mpr ⟨h, rfl⟩

theorem stepFault?_eq_some_iff : m.stepFault? = some fault ↔ m.FailsWith fault := by
  refine ⟨fun h => ?_, stepFault?_of_failsWith⟩
  unfold stepFault? at h
  cases hfetch : m.memory.fetch m.pc.toNat with
  | error e =>
      obtain ⟨hpc, rfl⟩ := Memory.fetch_eq_error_iff.mp hfetch
      rw [hfetch] at h
      cases h
      exact .outside hpc
  | ok word =>
      simp only [hfetch] at h
      cases hdecode : Instruction.decode? word with
      | none => simp [hdecode] at h
      | some i =>
          simp only [hdecode] at h
          exact failsWith_of_fault? (Memory.fetch_eq_ok_iff.mp hfetch)
            (Instruction.spelledBy_of_decode? hdecode) h

theorem step_fails_iff : m.step.2 = .error fault ↔ m.FailsWith fault := by
  rw [← stepFault?_eq_some_iff]
  constructor
  · intro h
    exact (step_eq_error_iff.mp (Prod.ext rfl h)).2
  · intro h
    rw [step_eq_error_iff.mpr ⟨rfl, h⟩]

/-- A step fails exactly in these states and with these faults.  A word that is no
instruction is no reason to fail: the step goes on behind it and changes nothing else. -/
theorem step_fails_exactly (m : Machine) :
    (∀ fault, m.step.2 = .error fault ↔ m.FailsWith fault) ∧
    ((∃ signal, m.step.2 = .ok signal) ↔ ∀ fault, ¬ m.FailsWith fault) ∧
    (∀ word, m.step.2 ≠ .error (.word (.unsupported word))) ∧
    (∀ word, m.NextWord word → Instruction.decode? word = none →
      m.step = ({ m with word, pc := m.pc + 2 }, .ok .quiet) ∧
        (m.pc + 2).toNat = m.pc.toNat + 2) := by
  refine ⟨fun fault => step_fails_iff, ?_, fun word h => ?_, fun word hword hdecode => ?_⟩
  · simp only [← step_fails_iff]
    cases m.step.2 with
    | error fault => simp
    | ok signal => simp
  · cases step_fails_iff.mp h
  · exact ⟨step_of_undecodable (Memory.fetch_eq_ok_iff.mpr hword) hdecode,
      Memory.toNat_next hword.1⟩

/-- `D010` draws no rows, but `I` is behind the end of memory; `8018` is no instruction. -/
theorem empty_drawing_fails :
    let program : List UInt8 := [0x80, 0x18, 0xD0, 0x10]
    let m : Machine :=
      { fresh (.constant 0) with
        memory := ⟨Memory.place Memory.initial.cells programStart program⟩, index := 0x1001 }
    m.NextWord 0x8018 ∧ Instruction.decode? 0x8018 = none ∧
      m.step = ({ m with word := 0x8018, pc := m.pc + 2 }, .ok .quiet) ∧
      m.step.1.FailsWith (.memory ⟨0x1001, 0⟩) ∧
      m.step.1.step.2 = .error (.memory ⟨0x1001, 0⟩) := by
  intro program m
  have hfirst : m.NextWord 0x8018 := Memory.fetch_eq_ok_iff.mp
    (@Memory.fetch_place _ program programStart 0 0x80 0x18 (by decide) rfl rfl)
  have hsecond : m.memory.HoldsWord 0x202 0xD010 := Memory.fetch_eq_ok_iff.mp
    (@Memory.fetch_place _ program programStart 2 0xD0 0x10 (by decide) rfl rfl)
  have hstep := ((step_fails_exactly m).2.2.2 0x8018 hfirst rfl).1
  have hfails : m.step.1.FailsWith (.memory ⟨0x1001, 0⟩) := by
    rw [hstep]
    exact @FailsWith.draw _ 0xD010 hsecond rfl (by decide)
  exact ⟨hfirst, rfl, hstep, hfails, ((step_fails_exactly m.step.1).1 _).mpr hfails⟩

end Chip8VM.Machine
