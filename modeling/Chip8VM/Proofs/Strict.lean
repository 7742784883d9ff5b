import Chip8VM.Proofs.ControlFlow
import Chip8VM.Proofs.Failure
import Chip8VM.Proofs.Spelling

/-!
# Strict execution

A second way to run a step, in which nothing can go wrong unseen.  The fields of
a word are cut out by masks and shifts, registers are looked up by plain
numbers, addresses are added as numbers and have to fit into sixteen bits, and
a block is copied only onto a block of the same length.  Where one of these is
impossible, the answer is `none`.

`FX1E` is the one addition that wraps around on purpose.
-/

namespace Chip8VM.Strict

def x (w : UInt16) : Nat := ((w &&& 0x0F00) >>> 8).toNat

def y (w : UInt16) : Nat := ((w &&& 0x00F0) >>> 4).toNat

def nnn (w : UInt16) : UInt16 := w &&& 0x0FFF

def word? (n : Nat) : Option UInt16 :=
  if n < 65536 then some (UInt16.ofNat n) else none

def add? (a : UInt16) (b : Nat) : Option UInt16 := word? (a.toNat + b)

def register? (m : Machine) (k : Nat) : Option UInt8 := m.v[k]?

def setRegister? (m : Machine) (k : Nat) (value : UInt8) : Option Machine :=
  if h : k < registerCount then some { m with v := m.v.set k value } else none

def registersUpTo? (m : Machine) (k : Nat) : Option (List UInt8) :=
  if k < registerCount then some (m.v.toList.take (k + 1)) else none

def fillRegisters? (m : Machine) (k : Nat) (bytes : List UInt8) : Option Machine :=
  if k < registerCount ∧ bytes.length = k + 1 then
    some { m with v := Vector.ofFn fun r : Register => bytes[r.val]?.getD (m.v.get r) }
  else
    none

def fillCells? (memory : Memory) (address length : Nat) (bytes : List UInt8) :
    Option (Except AccessError Memory) :=
  if address + length ≤ memorySize then
    if bytes.length = length then
      some (.ok ⟨Memory.place memory.cells address bytes⟩)
    else
      none
  else
    some (.error ⟨address, length⟩)

def move? (m : Machine) : Advance → Option Machine
  | .jump target => some { m with pc := target }
  | advance => do
      let pc ← add? m.pc advance.distance.toNat
      some { m with pc }

/-! ## Instructions -/

def storeDigits? (m : Machine) (k : Nat) : Option Outcome := do
  let value ← register? m k
  match ← fillCells? m.memory m.index.toNat 3 (Machine.decimalDigits value) with
  | .error e => some (m.fail (.memory e))
  | .ok memory => some { m with memory }.done

def storeRegisters? (m : Machine) (k : Nat) : Option Outcome := do
  let bytes ← registersUpTo? m k
  match ← fillCells? m.memory m.index.toNat (k + 1) bytes with
  | .error e => some (m.fail (.memory e))
  | .ok memory =>
      let index ← add? m.index (k + 1)
      some { m with memory, index }.done

def loadRegisters? (m : Machine) (k : Nat) : Option Outcome :=
  match m.memory.read m.index.toNat (k + 1) with
  | .error e => some (m.fail (.memory e))
  | .ok bytes => do
      let filled ← fillRegisters? m k bytes
      let index ← add? m.index (k + 1)
      some { filled with index }.done

def misc? (m : Machine) (k : Nat) : MiscOp → Option Outcome
  | .getDelay => do
      let m ← setRegister? m k m.timers.delay
      some m.done
  | .awaitKey =>
      match m.keys.get with
      | some key => do
          let m ← setRegister? m k key
          some m.done
      | none => some (m, .ok { advance := .stay, signal := .waiting })
  | .setDelay => do
      let value ← register? m k
      some (m.setDelay value).done
  | .setSound => do
      let value ← register? m k
      some (m.setSound value).done
  | .addToIndex => do
      let value ← register? m k
      some { m with index := m.index + value.toUInt16 }.done
  | .glyph => do
      let digit ← register? m k
      let index ← word? (Font.start + Font.glyphRows * digit.toNat)
      some { m with index }.done
  | .storeDigits => storeDigits? m k
  | .storeRegisters => storeRegisters? m k
  | .loadRegisters => loadRegisters? m k

/-- Carries out an instruction with the operands of the word that spells it. -/
def perform? (m : Machine) (w : UInt16) : Instruction → Option Outcome
  | .system op => some (m.system op)
  | .jump _ => some (m.branch (.jump (nnn w)))
  | .call _ => do
      let next ← add? m.pc wordSize
      match m.stack.push next with
      | .error e => some (m.fail (.stack e))
      | .ok stack => some ({ m with stack }.branch (.jump (nnn w)))
  | .skipIfEqual _ byte => do
      let a ← register? m (x w)
      some (m.branch (.skipWhen (a == byte)))
  | .skipIfNotEqual _ byte => do
      let a ← register? m (x w)
      some (m.branch (.skipWhen (a != byte)))
  | .skipIfSame _ _ => do
      let a ← register? m (x w)
      let b ← register? m (y w)
      some (m.branch (.skipWhen (a == b)))
  | .load _ byte => do
      let m ← setRegister? m (x w) byte
      some m.done
  | .add _ byte => do
      let a ← register? m (x w)
      let m ← setRegister? m (x w) (a + byte)
      some m.done
  | .alu op _ _ => do
      let a ← register? m (x w)
      let b ← register? m (y w)
      let flagged ← match op.flag? a b with
        | some flag => setRegister? m flagRegister (if flag then 1 else 0)
        | none => some m
      let m ← setRegister? flagged (x w) (op.result a b)
      some m.done
  | .skipIfDifferent _ _ => do
      let a ← register? m (x w)
      let b ← register? m (y w)
      some (m.branch (.skipWhen (a != b)))
  | .setIndex _ => some { m with index := nnn w }.done
  | .jumpOffset _ => do
      let offset ← register? m 0
      let target ← add? (nnn w) offset.toNat
      some (m.branch (.jump target))
  | .random _ mask => do
      let (byte, random) := m.random.draw
      let m ← setRegister? { m with random } (x w) (mask &&& byte)
      some m.done
  | .draw _ _ rows => do
      let a ← register? m (x w)
      let b ← register? m (y w)
      match m.memory.read m.index.toNat rows with
      | .error e => some (m.fail (.memory e))
      | .ok sprite =>
          let (erased, screen) := m.screen.drawRows a.toNat b.toNat sprite
          let m ← setRegister? { m with screen } flagRegister (if erased then 1 else 0)
          some (m, .ok { signal := .drawn })
  | .key op _ => do
      let a ← register? m (x w)
      match op with
      | .pressed => some (m.branch (.skipWhen (m.keys.isPressed a)))
      | .notPressed => some (m.branch (.skipWhen (!m.keys.isPressed a)))
  | .misc op _ => misc? m (x w) op

def execute? (m : Machine) (w : UInt16) (i : Instruction) :
    Option (Machine × Except Fault Signal) := do
  match ← perform? m w i with
  | (m, .error fault) => some (m, .error fault)
  | (m, .ok effect) =>
      let m ← move? m effect.advance
      some (m, .ok effect.signal)

def step? (m : Machine) : Option (Machine × Except Fault Signal) :=
  match m.memory.fetch m.pc.toNat with
  | .error e => some (m, .error (.word e))
  | .ok word =>
      match Instruction.decode word with
      | .error _ => do
          let m ← move? { m with word } .next
          some (m, .ok .quiet)
      | .ok i => execute? { m with word } word i

/-! ## Fields -/

theorem x_eq (w : UInt16) : x w = Word.x w := by
  have hfield : (w.toNat &&& 3840) >>> 8 = w.toNat >>> 8 &&& (2 ^ 4 - 1) :=
    Nat.shiftRight_and_distrib
  have hx : x w = (w.toNat &&& 3840) >>> 8 := by
    simp [x, UInt16.toNat_shiftRight, UInt16.toNat_and]
  rw [hx, hfield, Nat.and_two_pow_sub_one_eq_mod, Nat.shiftRight_eq_div_pow]
  rfl

theorem y_eq (w : UInt16) : y w = Word.y w := by
  have hfield : (w.toNat &&& 240) >>> 4 = w.toNat >>> 4 &&& (2 ^ 4 - 1) :=
    Nat.shiftRight_and_distrib
  have hy : y w = (w.toNat &&& 240) >>> 4 := by
    simp [y, UInt16.toNat_shiftRight, UInt16.toNat_and]
  rw [hy, hfield, Nat.and_two_pow_sub_one_eq_mod, Nat.shiftRight_eq_div_pow]
  rfl

theorem nnn_eq (w : UInt16) : nnn w = UInt16.ofNat (Word.nnn w) := by
  apply UInt16.toNat_inj.mp
  have hmask : (nnn w).toNat = w.toNat &&& (2 ^ 12 - 1) := by
    simp [nnn, UInt16.toNat_and]
  have hsmall : (Word.nnn w).val < UInt16.size :=
    Nat.lt_trans (Word.nnn w).isLt (by decide)
  rw [hmask, Nat.and_two_pow_sub_one_eq_mod, UInt16.toNat_ofNat_of_lt' hsmall]
  rfl

def OperandsOf (w : UInt16) : Instruction → Prop
  | .system _ => True
  | .jump target | .call target | .setIndex target | .jumpOffset target =>
      target = Word.nnn w
  | .skipIfEqual r _ | .skipIfNotEqual r _ | .load r _ | .add r _ | .random r _
  | .key _ r | .misc _ r => r = Word.x w
  | .skipIfSame r s | .skipIfDifferent r s | .alu _ r s | .draw r s _ =>
      r = Word.x w ∧ s = Word.y w

theorem operandsOf_of_spelledBy {w : UInt16} {i : Instruction} (h : i.SpelledBy w) :
    OperandsOf w i := by
  cases i with
  | system => trivial
  | jump | call | setIndex | jumpOffset => exact h.2
  | skipIfEqual | skipIfNotEqual | load | add | random | key | misc => exact h.2.1
  | skipIfSame | skipIfDifferent | alu | draw => exact ⟨h.2.1, h.2.2.1⟩

/-! ## Nothing is impossible -/

@[simp] theorem register?_of_lt (m : Machine) {k : Nat} (h : k < registerCount) :
    register? m k = some m.v[k] := by
  simp [register?, h]

@[simp] theorem register?_x (m : Machine) (w : UInt16) :
    register? m (x w) = some m.v[Word.x w] := by
  rw [x_eq]
  exact register?_of_lt m (Word.x w).isLt

@[simp] theorem register?_y (m : Machine) (w : UInt16) :
    register? m (y w) = some m.v[Word.y w] := by
  rw [y_eq]
  exact register?_of_lt m (Word.y w).isLt

@[simp] theorem setRegister?_fin (m : Machine) (r : Register) (value : UInt8) :
    setRegister? m r value = some (m.setRegister r value) := by
  simp [setRegister?, Machine.setRegister]

@[simp] theorem setRegister?_x (m : Machine) (w : UInt16) (value : UInt8) :
    setRegister? m (x w) value = some (m.setRegister (Word.x w) value) := by
  rw [x_eq, setRegister?_fin]

theorem word?_of_lt {n : Nat} (h : n < 65536) : word? n = some (UInt16.ofNat n) :=
  if_pos h

theorem add?_of_lt {a b : UInt16} (h : a.toNat + b.toNat < 65536) :
    add? a b.toNat = some (a + b) := by
  rw [add?, word?_of_lt h, UInt16.ofNat_add, UInt16.ofNat_toNat, UInt16.ofNat_toNat]

theorem move?_of_lt {m : Machine} (hpc : m.pc.toNat + 1 < memorySize) (advance : Advance) :
    move? m advance = some (m.move advance) := by
  simp only [memorySize] at hpc
  have hfits : ∀ d : UInt16, d.toNat ≤ 4 → add? m.pc d.toNat = some (m.pc + d) :=
    fun d hd => add?_of_lt (by omega)
  cases advance with
  | jump target => rfl
  | stay =>
      simp only [move?, hfits Advance.stay.distance (by decide)]
      rfl
  | next =>
      simp only [move?, hfits Advance.next.distance (by decide)]
      rfl
  | skip =>
      simp only [move?, hfits Advance.skip.distance (by decide)]
      rfl

/-! ## Instructions that touch memory -/

theorem add?_index {m : Machine} {x : Register}
    (h : m.index.toNat + (x.val + 1) ≤ memorySize) :
    add? m.index (x.val + 1) = some (m.indexPast x) := by
  have hx := x.isLt
  have hcount : (UInt16.ofNat (x.val + 1)).toNat = x.val + 1 :=
    UInt16.toNat_ofNat_of_lt' (Nat.lt_of_le_of_lt hx (by decide))
  have hfits : m.index.toNat + (UInt16.ofNat (x.val + 1)).toNat < 65536 := by
    simp only [memorySize] at h
    omega
  calc
    add? m.index (x.val + 1) = add? m.index (UInt16.ofNat (x.val + 1)).toNat := by
      rw [hcount]
    _ = some (m.indexPast x) := add?_of_lt hfits

theorem fillCells?_eq (memory : Memory) (address : Nat) (bytes : List UInt8) :
    fillCells? memory address bytes.length bytes = some (memory.write address bytes) := by
  unfold fillCells? Memory.write
  split <;> simp

theorem registersUpTo?_fin (m : Machine) (r : Register) :
    registersUpTo? m r = some (m.registersUpTo r) := if_pos r.isLt

theorem storeDigits?_eq (m : Machine) (r : Register) :
    storeDigits? m r = some (m.storeDigits r) := by
  have hread : register? m r = some m.v[r] := register?_of_lt m r.isLt
  have hfill : fillCells? m.memory m.index.toNat 3 (Machine.decimalDigits m.v[r]) =
      some (m.memory.write m.index.toNat (Machine.decimalDigits m.v[r])) := by
    rw [← Machine.decimalDigits_length m.v[r], fillCells?_eq]
  simp only [storeDigits?, Machine.storeDigits, hread, Option.bind_eq_bind,
    Option.bind_some, hfill]
  cases m.memory.write m.index.toNat (Machine.decimalDigits m.v[r]) with
  | error e => rfl
  | ok memory => rfl

theorem storeRegisters?_eq (m : Machine) (r : Register) :
    storeRegisters? m r = some (m.storeRegisters r) := by
  have hlength : (m.registersUpTo r).length = r.val + 1 := m.registersUpTo_length r
  have hfill : fillCells? m.memory m.index.toNat (r.val + 1) (m.registersUpTo r) =
      some (m.memory.write m.index.toNat (m.registersUpTo r)) := by
    rw [← hlength, fillCells?_eq]
  simp only [storeRegisters?, Machine.storeRegisters, registersUpTo?_fin,
    Option.bind_eq_bind, Option.bind_some, hfill]
  cases hwrite : m.memory.write m.index.toNat (m.registersUpTo r) with
  | error e => rfl
  | ok memory =>
      have hbound := (Memory.write_eq_ok hwrite).1
      rw [hlength] at hbound
      simp only [add?_index hbound, Option.bind_some]

theorem loadRegisters?_eq (m : Machine) (r : Register) :
    loadRegisters? m r = some (m.loadRegisters r) := by
  unfold loadRegisters? Machine.loadRegisters
  cases hread : m.memory.read m.index.toNat (r.val + 1) with
  | error e => rfl
  | ok bytes =>
      obtain ⟨hbound, hlength⟩ := Memory.read_eq_ok hread
      simp only [fillRegisters?, r.isLt, hlength, and_self, if_true, add?_index hbound,
        Option.bind_eq_bind, Option.bind_some]
      rfl

/-! ## Steps -/

theorem misc?_eq (m : Machine) (r : Register) (op : MiscOp) :
    misc? m r op = some (m.misc op r) := by
  cases op with
  | getDelay | setDelay | setSound | addToIndex =>
      simp [misc?, Machine.misc]
  | awaitKey =>
      simp only [misc?, Machine.misc]
      cases m.keys.get with
      | none => rfl
      | some key => simp
  | glyph =>
      have hdigit := m.v[r].toNat_lt
      have hfits : Font.start + Font.glyphRows * m.v[r].toNat < 65536 := by
        simp only [Font.start, Font.glyphRows]
        omega
      have hread : register? m r = some m.v[r] := register?_of_lt m r.isLt
      simp only [misc?, Machine.misc, hread, Option.bind_eq_bind,
        Option.bind_some, word?_of_lt hfits]
  | storeDigits => exact storeDigits?_eq m r
  | storeRegisters => exact storeRegisters?_eq m r
  | loadRegisters => exact loadRegisters?_eq m r

theorem perform?_eq {m : Machine} {w : UInt16} {i : Instruction}
    (hpc : m.pc.toNat + 1 < memorySize) (hi : OperandsOf w i) :
    perform? m w i = some (m.perform i) := by
  cases i with
  | system op => rfl
  | jump target | setIndex target =>
      cases hi
      simp only [perform?, Machine.perform, nnn_eq]
  | call target =>
      cases hi
      have hdistance : Advance.next.distance.toNat = wordSize := rfl
      have hnext : add? m.pc wordSize = some (m.pc + Advance.next.distance) := by
        rw [← hdistance]
        refine add?_of_lt ?_
        simp only [hdistance, wordSize]
        simp only [memorySize] at hpc
        omega
      simp only [perform?, Machine.perform, Machine.call, hnext, nnn_eq,
        Option.bind_eq_bind, Option.bind_some]
      cases m.stack.push (m.pc + Advance.next.distance) with
      | error e => rfl
      | ok stack => rfl
  | jumpOffset target =>
      cases hi
      have htarget := (Word.nnn w).isLt
      have hoffset := (m.v.get ⟨0, by decide⟩).toNat_lt
      have hfits : (Word.nnn w).val + (m.v.get ⟨0, by decide⟩).toNat < 65536 := by omega
      have hnnn : (UInt16.ofNat (Word.nnn w)).toNat = Word.nnn w :=
        UInt16.toNat_ofNat_of_lt' (Nat.lt_trans htarget (by decide))
      have hzero : register? m 0 = some (m.v.get ⟨0, by decide⟩) :=
        register?_of_lt m (by decide)
      simp only [perform?, Machine.perform, hzero, nnn_eq, add?, hnnn,
        word?_of_lt hfits, Option.bind_eq_bind, Option.bind_some]
  | skipIfEqual | skipIfNotEqual | load | add =>
      cases hi
      simp [perform?, Machine.perform]
  | random r mask =>
      cases hi
      simp only [perform?, Machine.perform, Machine.randomByte, setRegister?_x,
        Option.bind_eq_bind, Option.bind_some]
  | skipIfSame r s | skipIfDifferent r s =>
      obtain ⟨rfl, rfl⟩ := hi
      simp [perform?, Machine.perform]
  | alu op r s =>
      obtain ⟨rfl, rfl⟩ := hi
      simp only [perform?, Machine.perform, Machine.alu, register?_x, register?_y,
        Option.bind_eq_bind, Option.bind_some]
      cases op.flag? m.v[Word.x w] m.v[Word.y w] with
      | none => simp
      | some flag => simp [Machine.setFlag]
  | draw r s rows =>
      obtain ⟨rfl, rfl⟩ := hi
      simp only [perform?, Machine.perform, Machine.draw, register?_x, register?_y,
        Option.bind_eq_bind, Option.bind_some]
      cases m.memory.read m.index.toNat rows with
      | error e => rfl
      | ok sprite => simp [Machine.setFlag]
  | key op r =>
      cases hi
      cases op <;> simp [perform?, Machine.perform, Machine.key]
  | misc op r =>
      cases hi
      simp only [perform?, x_eq, misc?_eq]
      rfl

theorem execute?_eq {m : Machine} {w : UInt16} {i : Instruction}
    (hpc : m.pc.toNat + 1 < memorySize) (hi : OperandsOf w i) :
    execute? m w i = some (m.execute i) := by
  simp only [execute?, Machine.execute, perform?_eq hpc hi, Option.bind_eq_bind,
    Option.bind_some]
  rcases hperform : m.perform i with ⟨performed, result⟩
  cases result with
  | error fault => rfl
  | ok effect =>
      have hsame : performed.pc.toNat + 1 < memorySize := by
        have hkept := (m.perform_keeps i).2.2.1
        rw [hperform] at hkept
        rwa [hkept]
      simp only [move?_of_lt hsame, Option.bind_some]

/-- No step of any machine does what strict execution refuses. -/
theorem step?_eq (m : Machine) : step? m = some m.step := by
  unfold step? Machine.step
  cases hfetch : m.memory.fetch m.pc.toNat with
  | error e => rfl
  | ok word =>
      have hpc := Memory.lt_of_fetch_eq_ok hfetch
      cases hdecode : Instruction.decode? word with
      | none =>
          simp only [Instruction.decode, hdecode, Option.bind_eq_bind]
          rw [move?_of_lt (m := { m with word }) hpc]
          rfl
      | some i =>
          simp only [Instruction.decode, hdecode]
          have hoperands := operandsOf_of_spelledBy (Instruction.spelledBy_of_decode? hdecode)
          exact execute?_eq (m := { m with word }) hpc hoperands

end Chip8VM.Strict
