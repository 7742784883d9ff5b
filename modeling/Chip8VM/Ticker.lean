import Chip8VM.Beeper

/-!
Timers with a clock that counts them down and a beeper that listens to them.
-/

namespace Chip8VM

structure Ticker where
  timers : Timers := {}
  beeper : Beeper := {}
  running : Bool := true
  deriving DecidableEq, Repr

namespace Ticker

def tick (t : Ticker) : Ticker × List Bool :=
  let (beeper, timers, reports) := t.beeper.tick t.timers
  ({ t with timers, beeper }, reports)

def ticks (t : Ticker) : Nat → Ticker × List Bool
  | 0 => (t, [])
  | n + 1 =>
      let (t, first) := t.tick
      let (t, rest) := t.ticks n
      (t, first ++ rest)

def strike (t : Ticker) (n : Nat) : Nat × Ticker × List Bool :=
  if t.running then (n, t.ticks n) else (0, t, [])

def stop (t : Ticker) : Ticker := { t with running := false }

def runDown (t : Ticker) : Ticker × List Bool :=
  t.ticks (max t.timers.delay.toNat t.timers.sound.toNat)

end Ticker

end Chip8VM
