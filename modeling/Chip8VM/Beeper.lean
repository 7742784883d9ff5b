import Chip8VM.Timers

/-!
The beeper reports when the sound timer starts and stops running.

A tick of the beeper is two accesses to the timers, between which others may
write them: `notice` looks for a value written since the last tick, `count`
counts the timers down.
-/

namespace Chip8VM

structure Beeper where
  /-- Whether the start of a beep was reported, and not yet its end. -/
  active : Bool := false
  deriving DecidableEq, Repr

namespace Beeper

/-- A running sound timer counts as switched on. -/
def notice (b : Beeper) (t : Timers) : Beeper × List Bool :=
  if !b.active && t.beeping then (⟨true⟩, [true]) else (b, [])

def count (b : Beeper) (t : Timers) : Beeper × Timers × List Bool :=
  let (running, t) := t.tick
  (⟨running⟩, t, if b.active && !running then [false] else [])

def tick (b : Beeper) (t : Timers) : Beeper × Timers × List Bool :=
  let (b, started) := b.notice t
  let (b, t, stopped) := b.count t
  (b, t, started ++ stopped)

end Beeper

end Chip8VM
