import Chip8VM.Proofs.ControlFlow
import Chip8VM.Proofs.Run
import Chip8VM.Proofs.Strict

/-!
# Bounds of every run

The program counter alone has no inductive bound, since a return puts it where
the stack says.  Together with the return addresses it has one: a call is only
fetched from inside memory, so the address after it is at most `0x1000`.
-/

namespace Chip8VM

def IsReturnAddress (address : UInt16) : Prop :=
  2 ≤ address.toNat ∧ address.toNat ≤ memorySize

theorem Transfer.bounded {pc pc' : UInt16} {s s' : CallStack}
    (h : Transfer pc s pc' s') (hpc : pc.toNat + 1 < memorySize)
    (hs : ∀ address ∈ s.addresses, IsReturnAddress address) :
    pc'.toNat ≤ highestTarget ∧ ∀ address ∈ s'.addresses, IsReturnAddress address := by
  simp only [memorySize] at hpc
  cases h with
  | ahead distance hdistance =>
      refine ⟨?_, hs⟩
      rw [Word.toNat_add_of_lt (by omega)]
      simp only [highestTarget]
      omega
  | jump _ htarget => exact ⟨htarget, hs⟩
  | call target hpush =>
      have hnext := Memory.toNat_next hpc
      constructor
      · rw [UInt16.toNat_ofNat_of_lt' (Nat.lt_trans target.isLt (by decide))]
        exact Nat.le_trans (Nat.le_of_lt target.isLt) (by decide)
      · intro saved hsaved
        rw [CallStack.addresses_of_push hpush] at hsaved
        rcases List.mem_cons.mp hsaved with rfl | hold
        · simp only [IsReturnAddress, hnext, memorySize]
          omega
        · exact hs saved hold
  | ret hpop =>
      rw [CallStack.addresses_of_pop hpop] at hs
      constructor
      · have hbound := (hs pc' List.mem_cons_self).2
        simp only [memorySize] at hbound
        simp only [highestTarget]
        omega
      · intro saved hsaved
        exact hs saved (List.mem_cons_of_mem pc' hsaved)

namespace Machine

structure Bounded (m : Machine) : Prop where
  pc_le : m.pc.toNat ≤ highestTarget
  returns : ∀ address ∈ m.stack.addresses, IsReturnAddress address
  key_lt : ∀ key, m.keys.get = some key → key.toNat < keyCount

theorem Bounded.reset {m : Machine} (h : m.Bounded) : m.reset.Bounded where
  pc_le := by simp only [Machine.reset]; decide
  returns := by intro address haddress; cases haddress
  key_lt := h.key_lt

theorem bounded_fresh (random : RandomStream) : (fresh random).Bounded where
  pc_le := by simp only [fresh]; decide
  returns := by intro address haddress; cases haddress
  key_lt := by intro key hkey; cases hkey

theorem Bounded.load {m loaded : Machine} {program : List UInt8} (h : m.Bounded)
    (hload : m.load program = .ok loaded) : loaded.Bounded := by
  unfold Machine.load at hload
  split at hload <;> cases hload
  exact ⟨h.pc_le, h.returns, h.key_lt⟩

theorem Bounded.loadRom {m loaded : Machine} {rom : Rom} (h : m.Bounded)
    (hload : m.loadRom rom = .ok loaded) : loaded.Bounded := by
  unfold Machine.loadRom at hload
  split at hload
  · cases hload
  · split at hload <;> cases hload
    rename_i reloaded hreload
    have hreloaded := h.reset.load hreload
    exact ⟨hreloaded.pc_le, hreloaded.returns, hreloaded.key_lt⟩

theorem Bounded.pressKey {m pressed : Machine} {key : Option UInt8} (h : m.Bounded)
    (hpress : m.pressKey key = .ok pressed) : pressed.Bounded := by
  unfold Machine.pressKey at hpress
  split at hpress <;> cases hpress
  rename_i keys hset
  refine ⟨h.pc_le, h.returns, fun k hk => ?_⟩
  rw [KeyLatch.get_of_set hset] at hk
  exact (KeyLatch.set_eq_ok_iff.mp hset).1 k hk

theorem Bounded.step {m : Machine} (h : m.Bounded) : m.step.1.Bounded := by
  have hkeys := m.step_keeps.2
  rcases hstep : m.step with ⟨m', result⟩
  rw [hstep] at hkeys
  cases result with
  | error fault =>
      obtain ⟨rfl, -⟩ := step_eq_error_iff.mp hstep
      unfold fetched
      split
      · exact h
      · exact ⟨h.pc_le, h.returns, h.key_lt⟩
  | ok signal =>
      obtain ⟨hpc, htransfer⟩ := transfer_of_step hstep
      obtain ⟨hpc', hreturns'⟩ := htransfer.bounded hpc h.returns
      refine ⟨hpc', hreturns', ?_⟩
      rw [hkeys]
      exact h.key_lt

theorem Bounded.serve {m : Machine} (h : m.Bounded) (op : Operation) :
    (m.serve op).1.Bounded := by
  cases op with
  | step => exact h.step
  | load program =>
      simp only [Machine.serve]
      split
      · exact h
      · exact h.load ‹_›
  | loadRom rom =>
      simp only [Machine.serve]
      split
      · exact h
      · exact h.loadRom ‹_›
  | reset => exact h.reset
  | pressKey key =>
      simp only [Machine.serve]
      split
      · exact h
      · exact h.pressKey ‹_›
  | setDelay | setSound | resetTimers | tick => exact ⟨h.pc_le, h.returns, h.key_lt⟩

theorem bounded_after (random : RandomStream) (ops : List Operation) :
    ((fresh random).after ops).Bounded :=
  after_induction (P := Bounded) (A := fun _ => True)
    (fun _ op _ hm => hm.serve op) (fun _ _ => trivial) (bounded_fresh random)

/-- Whatever a new machine goes through, its program counter, its return addresses and
its key stay in bounds, and its next step does nothing that strict execution refuses. -/
theorem run_stays_in_bounds (random : RandomStream) (ops : List Operation) :
    let m := (fresh random).after ops
    m.pc.toNat ≤ 0x10FE ∧
      m.stack.addresses.length ≤ 16 ∧
      (∀ address ∈ m.stack.addresses, 2 ≤ address.toNat ∧ address.toNat ≤ 0x1000) ∧
      (∀ key, m.keys.get = some key → key.toNat ≤ 15) ∧
      Strict.step? m = some m.step := by
  intro m
  have hm : m.Bounded := bounded_after random ops
  exact ⟨hm.pc_le, m.stack.length_le, hm.returns,
    fun key hkey => Nat.le_of_lt_succ (hm.key_lt key hkey), Strict.step?_eq m⟩

end Machine

end Chip8VM
