import Chip8VM.Beeper
import Chip8VM.Machine.Execute

/-!
A console: a machine that two clocks drive, with a display and a speaker.

One clock steps the machine until a step fails; the fault stays for everyone to
see, and the clock itself remembers that it has nothing to do any more. The other
one counts the timers down. Both run until the console is stopped.
-/

namespace Chip8VM

def stepRate : Nat := 100

def stepInterval : Nat := 1000 / stepRate

inductive Event where
  | clear
  | display (screen : Screen)
  | sound (active : Bool)
  deriving DecidableEq

structure Console where
  machine : Machine
  beeper : Beeper := {}
  fault : Option Fault := none
  /-- What the step clock remembers; nobody else sees it. -/
  failed : Bool := false
  running : Bool := true

namespace Console

def eventsOf (m : Machine) : Signal → List Event
  | .drawn => [.display m.screen]
  | .cleared => [.clear]
  | .quiet | .waiting => []

def step (c : Console) : Console × List Event :=
  if c.failed then
    (c, [])
  else
    match c.machine.step with
    | (machine, .ok signal) => ({ c with machine }, eventsOf machine signal)
    | (machine, .error fault) => ({ c with machine, fault := some fault, failed := true }, [])

def tick (c : Console) : Console × List Event :=
  let (beeper, timers, reports) := c.beeper.tick c.machine.timers
  ({ c with beeper, machine := { c.machine with timers } }, reports.map .sound)

def stop (c : Console) : Console := { c with running := false }

/-! ## Several strikes -/

def repeated (strike : Console → Console × List Event) (c : Console) :
    Nat → Console × List Event
  | 0 => (c, [])
  | n + 1 =>
      let (c, first) := strike c
      let (c, rest) := repeated strike c n
      (c, first ++ rest)

def strikes (strike : Console → Console × List Event) (c : Console) (n : Nat) :
    Nat × Console × List Event :=
  if c.running then (n, repeated strike c n) else (0, c, [])

def steps (c : Console) (n : Nat) : Nat × Console × List Event := strikes step c n

def ticks (c : Console) (n : Nat) : Nat × Console × List Event := strikes tick c n

def settled (c : Console) (address : UInt16) : Bool :=
  c.fault.isSome ||
    (c.machine.pc == address &&
      match c.machine.memory.fetch address.toNat with
      | .ok word => c.machine.word == word
      | .error _ => false)

/-- Steps the machine until it is settled, at most `limit` times, and counts the timers
down once in `pace` steps. The answer is whether it settled. -/
def runUntil (address : UInt16) (pace limit : Nat) (c : Console) (events : List Event) :
    Bool × Console × List Event :=
  if c.settled address then
    (true, c, events)
  else
    match limit with
    | 0 => (false, c, events)
    | limit + 1 =>
        let (c, seen) := c.step
        let (c, heard) := if (limit + 1) % pace = 0 then c.tick else (c, [])
        runUntil address pace limit c (events ++ seen ++ heard)

end Console

end Chip8VM
