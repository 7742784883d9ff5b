import Chip8VM.Fault

/-!
The key latch holds the key that is pressed, or none.

It is a single byte, so that it can be written at once: the keys are the
values 0 to 15, and `noKey` stands for none.
-/

namespace Chip8VM

def keyCount : Nat := 16

/-- The stored byte while no key is pressed. -/
def noKey : UInt8 := 255

structure KeyLatch where
  stored : UInt8 := noKey
  deriving DecidableEq, Repr

namespace KeyLatch

def set (latch : KeyLatch) : Option UInt8 → Except KeyError KeyLatch
  | none => .ok { latch with stored := noKey }
  | some key =>
      if key.toNat ≥ keyCount then .error ⟨key⟩ else .ok { latch with stored := key }

def get (latch : KeyLatch) : Option UInt8 :=
  if latch.stored = noKey then none else some latch.stored

def isPressed (latch : KeyLatch) (key : UInt8) : Bool := latch.get == some key

theorem set_eq_ok_iff {latch latch' : KeyLatch} {key : Option UInt8} :
    latch.set key = .ok latch' ↔
      (∀ k, key = some k → k.toNat < keyCount) ∧ latch' = ⟨key.getD noKey⟩ := by
  cases key with
  | none => simp [set, eq_comm]
  | some k =>
      simp only [set]
      split
      · simp; omega
      · simp [eq_comm]; omega

theorem get_of_set {latch latch' : KeyLatch} {key : Option UInt8}
    (h : latch.set key = .ok latch') : latch'.get = key := by
  obtain ⟨hkey, rfl⟩ := set_eq_ok_iff.mp h
  cases key with
  | none => rfl
  | some k =>
      have hk := hkey k rfl
      have hne : k ≠ noKey := by
        rintro rfl
        exact absurd hk (by decide)
      simp [get, hne]

end KeyLatch

end Chip8VM
