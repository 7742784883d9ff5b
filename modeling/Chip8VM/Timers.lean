/-!
The two countdown timers. Both lose one with each tick until they are at zero; while
the sound timer is above zero the machine beeps.
-/

namespace Chip8VM

def timerRate : Nat := 60

def timerInterval : Nat := 1000 / timerRate

structure Timers where
  delay : UInt8 := 0
  sound : UInt8 := 0
  deriving DecidableEq, Repr

namespace Timers

def countDown (counter : UInt8) : UInt8 := if counter = 0 then 0 else counter - 1

def setDelay (t : Timers) (value : UInt8) : Timers := { t with delay := value }

def setSound (t : Timers) (value : UInt8) : Timers := { t with sound := value }

def reset (_ : Timers) : Timers := {}

def beeping (t : Timers) : Bool := t.sound > 0

/-- Counts both timers down. The answer is whether the sound timer still runs. -/
def tick (t : Timers) : Bool × Timers :=
  let t : Timers := ⟨countDown t.delay, countDown t.sound⟩
  (t.beeping, t)

theorem toNat_countDown (counter : UInt8) : (countDown counter).toNat = counter.toNat - 1 := by
  unfold countDown
  split
  case isTrue hzero => simp [hzero]
  case isFalse hzero =>
      have hpos : counter.toNat ≠ 0 := fun h => hzero (UInt8.toNat.inj h)
      have hone : (1 : UInt8) ≤ counter := UInt8.le_iff_toNat_le.mpr (Nat.pos_of_ne_zero hpos)
      exact UInt8.toNat_sub_of_le _ _ hone

end Timers

end Chip8VM
