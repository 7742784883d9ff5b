import Chip8VM.Fault

/-!
The return addresses of the running subroutines, the innermost one first. There
are never more than sixteen.
-/

namespace Chip8VM

def stackLimit : Nat := 16

structure CallStack where
  addresses : List UInt16 := []
  length_le : addresses.length ≤ stackLimit := by decide
  deriving DecidableEq

namespace CallStack

def depth (s : CallStack) : Nat := s.addresses.length

def push (s : CallStack) (address : UInt16) : Except StackError CallStack :=
  if h : s.addresses.length < stackLimit then
    .ok ⟨address :: s.addresses, h⟩
  else
    .error .full

def pop (s : CallStack) : Except StackError (UInt16 × CallStack) :=
  match s with
  | ⟨[], _⟩ => .error .empty
  | ⟨address :: rest, h⟩ => .ok (address, ⟨rest, Nat.le_of_succ_le h⟩)

theorem ext_addresses {s t : CallStack} (h : s.addresses = t.addresses) : s = t := by
  cases s
  cases t
  congr

theorem addresses_of_push {s t : CallStack} {address : UInt16}
    (h : s.push address = .ok t) : t.addresses = address :: s.addresses := by
  unfold push at h
  split at h <;> cases h
  rfl

theorem addresses_of_pop {s t : CallStack} {address : UInt16}
    (h : s.pop = .ok (address, t)) : s.addresses = address :: t.addresses := by
  unfold pop at h
  split at h <;> cases h
  rfl

theorem push_eq_error_iff (s : CallStack) (address : UInt16) (e : StackError) :
    s.push address = .error e ↔ e = .full ∧ s.depth = stackLimit := by
  have := s.length_le
  unfold push depth
  split
  · simp; omega
  · simp [eq_comm]; omega

theorem pop_eq_error_iff (s : CallStack) (e : StackError) :
    s.pop = .error e ↔ e = .empty ∧ s.depth = 0 := by
  obtain ⟨addresses, hlength⟩ := s
  cases addresses with
  | nil => simp [pop, depth, eq_comm]
  | cons address rest => simp [pop, depth]

end CallStack

end Chip8VM
