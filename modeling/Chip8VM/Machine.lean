import Chip8VM.CallStack
import Chip8VM.Instruction
import Chip8VM.KeyLatch
import Chip8VM.Memory
import Chip8VM.RandomStream
import Chip8VM.Rom
import Chip8VM.Screen
import Chip8VM.Timers

/-!
The state of the machine, and how programs get into it.
-/

namespace Chip8VM

structure Machine where
  name : String := ""
  /-- The word fetched last. -/
  word : UInt16 := 0
  memory : Memory := .initial
  v : Vector UInt8 registerCount := Vector.replicate registerCount 0
  index : UInt16 := 0
  pc : UInt16 := UInt16.ofNat programStart
  stack : CallStack := {}
  screen : Screen := .blank
  timers : Timers := {}
  keys : KeyLatch := {}
  random : RandomStream

namespace Machine

def fresh (random : RandomStream) : Machine := { random }

/-- The state at power on, except for the name, the key latch and the random bytes. -/
def reset (m : Machine) : Machine :=
  { name := m.name, keys := m.keys, random := m.random }

def load (m : Machine) (program : List UInt8) : Except SizeError Machine :=
  match m.memory.load program with
  | .error e => .error e
  | .ok memory => .ok { m with memory }

def loadRom (m : Machine) (rom : Rom) : Except SizeError Machine :=
  match Memory.checkProgram rom.bytes with
  | .error e => .error e
  | .ok () =>
      match m.reset.load rom.bytes with
      | .error e => .error e
      | .ok loaded => .ok { loaded with name := rom.name }

/-! ## What others change -/

def pressKey (m : Machine) (key : Option UInt8) : Except KeyError Machine :=
  match m.keys.set key with
  | .error e => .error e
  | .ok keys => .ok { m with keys }

def setDelay (m : Machine) (value : UInt8) : Machine :=
  { m with timers := m.timers.setDelay value }

def setSound (m : Machine) (value : UInt8) : Machine :=
  { m with timers := m.timers.setSound value }

def tick (m : Machine) : Bool × Machine :=
  let (running, timers) := m.timers.tick
  (running, { m with timers })

end Machine

end Chip8VM
