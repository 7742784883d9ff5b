import Chip8VM.Proofs.Access
import Chip8VM.Machine.Execute

/-!
# Where a step goes

The program counter and the call stack move together.  `Transfer` lists the ways
in which a successful step can move them, with the bounds that the instruction
words give: everything said about addresses and calls is derived from it.
-/

namespace Chip8VM

/-- The highest target of a jump, `0xFFF` plus the largest byte. -/
def highestTarget : Nat := 0x10FE

/-- The moves from a program counter and a call stack to the next ones. -/
inductive Transfer (pc : UInt16) (s : CallStack) : UInt16 → CallStack → Prop where
  | ahead (distance : UInt16) (h : distance.toNat ≤ 4) : Transfer pc s (pc + distance) s
  | jump (target : UInt16) (h : target.toNat ≤ highestTarget) : Transfer pc s target s
  | call (target : Address) {t : CallStack} (h : s.push (pc + 2) = .ok t) :
      Transfer pc s (UInt16.ofNat target) t
  | ret {address : UInt16} {t : CallStack} (h : s.pop = .ok (address, t)) :
      Transfer pc s address t

namespace Transfer

variable {pc : UInt16} {s : CallStack}

theorem next : Transfer pc s (Advance.next.apply pc) s := .ahead 2 (by decide)

theorem stay : Transfer pc s (Advance.stay.apply pc) s := .ahead 0 (by decide)

theorem skipWhen (condition : Bool) :
    Transfer pc s ((Advance.skipWhen condition).apply pc) s := by
  cases condition with
  | false => exact .next
  | true => exact .ahead 4 (by decide)

theorem jumpAddress (target : Address) : Transfer pc s (UInt16.ofNat target) s := by
  refine .jump _ ?_
  rw [UInt16.toNat_ofNat_of_lt' (Nat.lt_trans target.isLt (by decide))]
  exact Nat.le_trans (Nat.le_of_lt target.isLt) (by decide)

theorem jumpOffset (target : Address) (byte : UInt8) :
    Transfer pc s (UInt16.ofNat (target.val + byte.toNat)) s := by
  have htarget := target.isLt
  have hbyte := byte.toNat_lt
  simp only [memorySize] at htarget
  refine .jump _ ?_
  rw [UInt16.toNat_ofNat_of_lt' (by simp only [UInt16.size]; omega)]
  simp only [highestTarget]
  omega

end Transfer

namespace Machine

theorem perform_keeps (m : Machine) (i : Instruction) :
    (m.perform i).1.name = m.name ∧ (m.perform i).1.word = m.word ∧
      (m.perform i).1.pc = m.pc ∧ (m.perform i).1.keys = m.keys := by
  cases i with
  | system op =>
      cases op with
      | clear => exact ⟨rfl, rfl, rfl, rfl⟩
      | ret => simp only [perform, system]; split <;> exact ⟨rfl, rfl, rfl, rfl⟩
  | jump | skipIfEqual | skipIfNotEqual | skipIfSame | skipIfDifferent | load | add
  | setIndex | jumpOffset | random => exact ⟨rfl, rfl, rfl, rfl⟩
  | call target => simp only [perform, call]; split <;> exact ⟨rfl, rfl, rfl, rfl⟩
  | alu op x y => simp only [perform, alu]; split <;> exact ⟨rfl, rfl, rfl, rfl⟩
  | draw x y rows =>
      simp only [perform, draw]
      cases m.memory.read m.index.toNat rows with
      | error e => exact ⟨rfl, rfl, rfl, rfl⟩
      | ok sprite => exact ⟨rfl, rfl, rfl, rfl⟩
  | key op x => cases op <;> exact ⟨rfl, rfl, rfl, rfl⟩
  | misc op x =>
      cases op with
      | getDelay | setDelay | setSound | addToIndex | glyph =>
          exact ⟨rfl, rfl, rfl, rfl⟩
      | awaitKey => simp only [perform, misc]; split <;> exact ⟨rfl, rfl, rfl, rfl⟩
      | storeDigits =>
          simp only [perform, misc, storeDigits]
          split <;> exact ⟨rfl, rfl, rfl, rfl⟩
      | storeRegisters =>
          simp only [perform, misc, storeRegisters]
          split <;> exact ⟨rfl, rfl, rfl, rfl⟩
      | loadRegisters =>
          simp only [perform, misc, loadRegisters]
          cases m.memory.read m.index.toNat (x.val + 1) with
          | error e => exact ⟨rfl, rfl, rfl, rfl⟩
          | ok bytes => simp [done]

theorem transfer_of_perform {m m' : Machine} {i : Instruction} {effect : Effect}
    (h : m.perform i = (m', .ok effect)) :
    Transfer m.pc m.stack (effect.advance.apply m.pc) m'.stack := by
  cases i with
  | system op =>
      cases op with
      | clear => cases h; exact .next
      | ret =>
          simp only [perform, system] at h
          split at h <;> cases h
          case h_2 hpop => exact .ret hpop
  | jump target => cases h; exact .jumpAddress target
  | call target =>
      simp only [perform, call] at h
      split at h <;> cases h
      case h_2 hpush => exact .call target hpush
  | skipIfEqual | skipIfNotEqual | skipIfSame | skipIfDifferent =>
      cases h; exact .skipWhen _
  | key op x => cases op <;> (cases h; exact .skipWhen _)
  | jumpOffset address => cases h; exact .jumpOffset address _
  | load | add | setIndex | random => cases h; exact .next
  | alu op x y =>
      simp only [perform, alu] at h
      split at h <;> (cases h; exact .next)
  | draw x y rows =>
      simp only [perform, draw] at h
      split at h <;> cases h
      exact .next
  | misc op x =>
      obtain ⟨rfl, hstack, -⟩ := misc_eq_ok h
      rw [hstack]
      split
      case isTrue => exact .stay
      case isFalse => exact .next

theorem transfer_of_execute {m m' : Machine} {i : Instruction} {signal : Signal}
    (h : m.execute i = (m', .ok signal)) : Transfer m.pc m.stack m'.pc m'.stack := by
  obtain ⟨performed, effect, hperform, rfl, rfl⟩ := execute_eq_ok h
  have hpc : performed.pc = m.pc := by
    have hkept := (m.perform_keeps i).2.2.1
    rwa [hperform] at hkept
  simpa [move, hpc] using transfer_of_perform hperform

theorem execute_keeps (m : Machine) (i : Instruction) :
    (m.execute i).1.name = m.name ∧ (m.execute i).1.word = m.word ∧
      (m.execute i).1.keys = m.keys := by
  obtain ⟨hname, hword, -, hkeys⟩ := m.perform_keeps i
  rcases hperform : m.perform i with ⟨performed, result⟩
  rw [hperform] at hname hword hkeys
  cases result with
  | error fault =>
      rw [execute_of_error hperform]
      exact ⟨hname, hword, hkeys⟩
  | ok effect =>
      rw [execute_of_ok hperform]
      exact ⟨hname, hword, hkeys⟩

theorem step_keeps (m : Machine) : m.step.1.name = m.name ∧ m.step.1.keys = m.keys := by
  cases hfetch : m.memory.fetch m.pc.toNat with
  | error e =>
      rw [step_of_fetch_error hfetch]
      exact ⟨rfl, rfl⟩
  | ok word =>
      cases hdecode : Instruction.decode? word with
      | none =>
          rw [step_of_undecodable hfetch hdecode]
          exact ⟨rfl, rfl⟩
      | some i =>
          rw [step_of_fetch hfetch hdecode]
          obtain ⟨hname, -, hkeys⟩ := execute_keeps { m with word } i
          exact ⟨hname, hkeys⟩

theorem step_word {m : Machine} {word : UInt16}
    (hfetch : m.memory.fetch m.pc.toNat = .ok word) : m.step.1.word = word := by
  cases hdecode : Instruction.decode? word with
  | none =>
      rw [step_of_undecodable hfetch hdecode]
      rfl
  | some i =>
      rw [step_of_fetch hfetch hdecode]
      exact (execute_keeps { m with word } i).2.1

/-- A step succeeds only where its word lies in memory, and then moves by a transfer. -/
theorem transfer_of_step {m m' : Machine} {signal : Signal}
    (h : m.step = (m', .ok signal)) :
    m.pc.toNat + 1 < memorySize ∧ Transfer m.pc m.stack m'.pc m'.stack := by
  cases hfetch : m.memory.fetch m.pc.toNat with
  | error e =>
      rw [step_of_fetch_error hfetch] at h
      cases h
  | ok word =>
      refine ⟨Memory.lt_of_fetch_eq_ok hfetch, ?_⟩
      cases hdecode : Instruction.decode? word with
      | none =>
          rw [step_of_undecodable hfetch hdecode] at h
          cases h
          exact .next
      | some i =>
          rw [step_of_fetch hfetch hdecode] at h
          exact transfer_of_execute (m := { m with word }) h

end Machine

end Chip8VM
