import Chip8VM.Instruction
import Chip8VM.Machine

/-!
What the instructions do.

`perform` carries out an instruction and answers how the program counter has to
move and what the outside has to know. `execute` also moves the program counter,
and `step` runs the instruction that the program counter points at. All three
answer the machine together with the result, also when the result is a fault.
-/

namespace Chip8VM

inductive Advance where
  | stay
  | next
  | skip
  | jump (target : UInt16)
  deriving DecidableEq, Repr

namespace Advance

def skipWhen (condition : Bool) : Advance := if condition then .skip else .next

/-- How far the program counter moves; of a jump, where to. -/
def distance : Advance → UInt16
  | .stay => 0
  | .next => UInt16.ofNat wordSize
  | .skip => UInt16.ofNat (2 * wordSize)
  | .jump target => target

def apply (pc : UInt16) : Advance → UInt16
  | .jump target => target
  | advance => pc + advance.distance

end Advance

inductive Signal where
  | quiet
  | cleared
  | drawn
  | waiting
  deriving DecidableEq, Repr

structure Effect where
  advance : Advance := .next
  signal : Signal := .quiet
  deriving DecidableEq, Repr

abbrev Outcome := Machine × Except Fault Effect

/-! ## Arithmetic -/

namespace AluOp

/-- The result for the operands `VX` and `VY`. The shifts take `VY`. -/
def result (op : AluOp) (a b : UInt8) : UInt8 :=
  match op with
  | .assign => b
  | .or => a ||| b
  | .and => a &&& b
  | .xor => a ^^^ b
  | .add => a + b
  | .sub => a - b
  | .shiftRight => b >>> 1
  | .subReverse => b - a
  | .shiftLeft => b <<< 1

/-- The flag, for the operations that set one: the carry of a sum, no borrow of a
difference, the bit that a shift drops. -/
def flag? (op : AluOp) (a b : UInt8) : Option Bool :=
  match op with
  | .add => some (a.toNat + b.toNat > 255)
  | .sub => some (a ≥ b)
  | .subReverse => some (b ≥ a)
  | .shiftRight => some (b.toNat.testBit 0)
  | .shiftLeft => some (b.toNat.testBit 7)
  | _ => none

end AluOp

def flagRegister : Register := Fin.last 15

namespace Machine

def setRegister (m : Machine) (x : Register) (value : UInt8) : Machine :=
  { m with v := m.v.set x value }

def setFlag (m : Machine) (flag : Bool) : Machine :=
  m.setRegister flagRegister (if flag then 1 else 0)

theorem get_setRegister_self (m : Machine) (x : Register) (value : UInt8) :
    (m.setRegister x value).v.get x = value := Vector.getElem_set_self x.isLt

theorem get_setRegister_of_ne (m : Machine) {x r : Register} (h : r ≠ x) (value : UInt8) :
    (m.setRegister x value).v.get r = m.v.get r :=
  Vector.getElem_set_ne x.isLt r.isLt fun hsame => h (Fin.ext hsame.symm)

theorem get_setFlag_self (m : Machine) (flag : Bool) :
    (m.setFlag flag).v.get flagRegister = if flag then 1 else 0 := m.get_setRegister_self _ _

theorem get_setFlag_of_ne (m : Machine) {r : Register} (h : r ≠ flagRegister) (flag : Bool) :
    (m.setFlag flag).v.get r = m.v.get r := m.get_setRegister_of_ne h _

def move (m : Machine) (advance : Advance) : Machine :=
  { m with pc := advance.apply m.pc }

/-! ## The instructions -/

def done (m : Machine) : Outcome := (m, .ok {})

def branch (m : Machine) (advance : Advance) : Outcome := (m, .ok { advance })

def fail (m : Machine) (fault : Fault) : Outcome := (m, .error fault)

def system (m : Machine) : SystemOp → Outcome
  | .clear => ({ m with screen := .blank }, .ok { signal := .cleared })
  | .ret =>
      match m.stack.pop with
      | .error e => m.fail (.stack e)
      | .ok (address, stack) => { m with stack }.branch (.jump address)

def call (m : Machine) (target : Address) : Outcome :=
  match m.stack.push (m.pc + Advance.next.distance) with
  | .error e => m.fail (.stack e)
  | .ok stack => { m with stack }.branch (.jump (UInt16.ofNat target))

/-- The flag is written before the result, so the result stays if both go to `VF`. -/
def alu (m : Machine) (op : AluOp) (x y : Register) : Outcome :=
  let a := m.v[x]
  let b := m.v[y]
  match op.flag? a b with
  | some flag => ((m.setFlag flag).setRegister x (op.result a b)).done
  | none => (m.setRegister x (op.result a b)).done

def randomByte (m : Machine) (x : Register) (mask : UInt8) : Outcome :=
  let (byte, random) := m.random.draw
  ({ m with random }.setRegister x (mask &&& byte)).done

def draw (m : Machine) (x y : Register) (rows : Fin 16) : Outcome :=
  match m.memory.read m.index.toNat rows with
  | .error e => m.fail (.memory e)
  | .ok sprite =>
      let (erased, screen) := m.screen.drawRows m.v[x].toNat m.v[y].toNat sprite
      ({ m with screen }.setFlag erased, .ok { signal := .drawn })

def key (m : Machine) (op : KeyOp) (x : Register) : Outcome :=
  let pressed := m.keys.isPressed m.v[x]
  match op with
  | .pressed => m.branch (.skipWhen pressed)
  | .notPressed => m.branch (.skipWhen (!pressed))

def decimalDigits (byte : UInt8) : List UInt8 :=
  [byte / 100, byte / 10 % 10, byte % 10]

def registersUpTo (m : Machine) (x : Register) : List UInt8 :=
  m.v.toList.take (x.val + 1)

def indexPast (m : Machine) (x : Register) : UInt16 :=
  m.index + UInt16.ofNat (x.val + 1)

def storeDigits (m : Machine) (x : Register) : Outcome :=
  match m.memory.write m.index.toNat (decimalDigits m.v[x]) with
  | .error e => m.fail (.memory e)
  | .ok memory => { m with memory }.done

def storeRegisters (m : Machine) (x : Register) : Outcome :=
  match m.memory.write m.index.toNat (m.registersUpTo x) with
  | .error e => m.fail (.memory e)
  | .ok memory => { m with memory, index := m.indexPast x }.done

def loadRegisters (m : Machine) (x : Register) : Outcome :=
  match m.memory.read m.index.toNat (x.val + 1) with
  | .error e => m.fail (.memory e)
  | .ok bytes =>
      { m with
        v := Vector.ofFn fun r : Register => bytes[r.val]?.getD m.v[r]
        index := m.indexPast x }.done

def misc (m : Machine) (op : MiscOp) (x : Register) : Outcome :=
  match op with
  | .getDelay => (m.setRegister x m.timers.delay).done
  | .awaitKey =>
      match m.keys.get with
      | some key => (m.setRegister x key).done
      | none => (m, .ok { advance := .stay, signal := .waiting })
  | .setDelay => (m.setDelay m.v[x]).done
  | .setSound => (m.setSound m.v[x]).done
  | .addToIndex => { m with index := m.index + m.v[x].toUInt16 }.done
  | .glyph =>
      { m with index := UInt16.ofNat (Font.start + Font.glyphRows * m.v[x].toNat) }.done
  | .storeDigits => m.storeDigits x
  | .storeRegisters => m.storeRegisters x
  | .loadRegisters => m.loadRegisters x

theorem misc_eq_ok {m m' : Machine} {op : MiscOp} {x : Register} {effect : Effect}
    (h : m.misc op x = (m', .ok effect)) :
    effect = (if op = .awaitKey ∧ m.keys.get = none then
        { advance := .stay, signal := .waiting } else {}) ∧
      m'.stack = m.stack ∧ m'.screen = m.screen := by
  cases op with
  | getDelay | setDelay | setSound | addToIndex | glyph => cases h; exact ⟨rfl, rfl, rfl⟩
  | awaitKey =>
      simp only [misc] at h
      split at h <;> cases h
      case h_1 key hkey => simp [hkey, setRegister]
      case h_2 hkey => simp [hkey]
  | storeDigits =>
      simp only [misc, storeDigits] at h
      split at h <;> cases h
      exact ⟨rfl, rfl, rfl⟩
  | storeRegisters =>
      simp only [misc, storeRegisters] at h
      split at h <;> cases h
      exact ⟨rfl, rfl, rfl⟩
  | loadRegisters =>
      simp only [misc, loadRegisters] at h
      split at h <;> cases h
      exact ⟨rfl, rfl, rfl⟩

def perform (m : Machine) : Instruction → Outcome
  | .system op => m.system op
  | .jump target => m.branch (.jump (UInt16.ofNat target))
  | .call target => m.call target
  | .skipIfEqual x byte => m.branch (.skipWhen (m.v[x] == byte))
  | .skipIfNotEqual x byte => m.branch (.skipWhen (m.v[x] != byte))
  | .skipIfSame x y => m.branch (.skipWhen (m.v[x] == m.v[y]))
  | .load x byte => (m.setRegister x byte).done
  | .add x byte => (m.setRegister x (m.v[x] + byte)).done
  | .alu op x y => m.alu op x y
  | .skipIfDifferent x y => m.branch (.skipWhen (m.v[x] != m.v[y]))
  | .setIndex address => { m with index := UInt16.ofNat address }.done
  | .jumpOffset address =>
      m.branch (.jump (UInt16.ofNat (address.val + (m.v.get ⟨0, by decide⟩).toNat)))
  | .random x mask => m.randomByte x mask
  | .draw x y rows => m.draw x y rows
  | .key op x => m.key op x
  | .misc op x => m.misc op x

def execute (m : Machine) (i : Instruction) : Machine × Except Fault Signal :=
  match m.perform i with
  | (m, .error fault) => (m, .error fault)
  | (m, .ok effect) => (m.move effect.advance, .ok effect.signal)

theorem execute_of_error {m m' : Machine} {i : Instruction} {fault : Fault}
    (h : m.perform i = (m', .error fault)) : m.execute i = (m', .error fault) := by
  simp [execute, h]

theorem execute_of_ok {m m' : Machine} {i : Instruction} {effect : Effect}
    (h : m.perform i = (m', .ok effect)) :
    m.execute i = (m'.move effect.advance, .ok effect.signal) := by
  simp [execute, h]

theorem execute_eq_ok {m m' : Machine} {i : Instruction} {signal : Signal}
    (h : m.execute i = (m', .ok signal)) :
    ∃ performed effect, m.perform i = (performed, .ok effect) ∧
      m' = performed.move effect.advance ∧ signal = effect.signal := by
  rcases hperform : m.perform i with ⟨performed, fault | effect⟩
  · rw [execute_of_error hperform] at h
    cases h
  · rw [execute_of_ok hperform] at h
    cases h
    exact ⟨performed, effect, rfl, rfl, rfl⟩

/-- Runs the next instruction. A word that is no instruction is passed over. -/
def step (m : Machine) : Machine × Except Fault Signal :=
  match m.memory.fetch m.pc.toNat with
  | .error e => (m, .error (.word e))
  | .ok word =>
      match Instruction.decode word with
      | .error _ => ({ m with word }.move .next, .ok .quiet)
      | .ok i => { m with word }.execute i

theorem step_of_fetch_error {m : Machine} {e : WordError}
    (hfetch : m.memory.fetch m.pc.toNat = .error e) : m.step = (m, .error (.word e)) := by
  simp [step, hfetch]

theorem step_of_undecodable {m : Machine} {word : UInt16}
    (hfetch : m.memory.fetch m.pc.toNat = .ok word)
    (hdecode : Instruction.decode? word = none) :
    m.step = ({ m with word }.move .next, .ok .quiet) := by
  simp [step, hfetch, Instruction.decode, hdecode]

theorem step_of_fetch {m : Machine} {word : UInt16} {i : Instruction}
    (hfetch : m.memory.fetch m.pc.toNat = .ok word)
    (hdecode : Instruction.decode? word = some i) :
    m.step = { m with word }.execute i := by
  simp [step, hfetch, Instruction.decode, hdecode]

end Machine

end Chip8VM
