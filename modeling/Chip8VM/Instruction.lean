import Chip8VM.Memory

/-!
The instruction set, and its two directions: `Instruction.decode?` reads a word,
`Instruction.encode` spells one.

Four families hold several operations, told apart by a code in the low bits.
Each of them has its own type with `code` and `ofCode?`, which do not look at
the family nibble.
-/

namespace Chip8VM

abbrev registerCount : Nat := 16

abbrev Register := Fin registerCount

abbrev Address := Fin memorySize

inductive SystemOp where
  | clear
  | ret
  deriving DecidableEq, Repr

inductive AluOp where
  | assign
  | or
  | and
  | xor
  | add
  | sub
  | shiftRight
  | subReverse
  | shiftLeft
  deriving DecidableEq, Repr

inductive KeyOp where
  | pressed
  | notPressed
  deriving DecidableEq, Repr

inductive MiscOp where
  | getDelay
  | awaitKey
  | setDelay
  | setSound
  | addToIndex
  | glyph
  | storeDigits
  | storeRegisters
  | loadRegisters
  deriving DecidableEq, Repr

inductive Instruction where
  | system (op : SystemOp)
  | jump (target : Address)
  | call (target : Address)
  | skipIfEqual (x : Register) (byte : UInt8)
  | skipIfNotEqual (x : Register) (byte : UInt8)
  | skipIfSame (x y : Register)
  | load (x : Register) (byte : UInt8)
  | add (x : Register) (byte : UInt8)
  | alu (op : AluOp) (x y : Register)
  | skipIfDifferent (x y : Register)
  | setIndex (address : Address)
  | jumpOffset (address : Address)
  | random (x : Register) (mask : UInt8)
  | draw (x y : Register) (rows : Fin 16)
  | key (op : KeyOp) (x : Register)
  | misc (op : MiscOp) (x : Register)
  deriving DecidableEq, Repr

/-! ## Operation codes -/

def SystemOp.code : SystemOp → Nat
  | .clear => 0x00E0
  | .ret => 0x00EE

def SystemOp.ofCode? : Nat → Option SystemOp
  | 0x00E0 => some .clear
  | 0x00EE => some .ret
  | _ => none

def AluOp.code : AluOp → Nat
  | .assign => 0x0
  | .or => 0x1
  | .and => 0x2
  | .xor => 0x3
  | .add => 0x4
  | .sub => 0x5
  | .shiftRight => 0x6
  | .subReverse => 0x7
  | .shiftLeft => 0xE

def AluOp.ofCode? : Nat → Option AluOp
  | 0x0 => some .assign
  | 0x1 => some .or
  | 0x2 => some .and
  | 0x3 => some .xor
  | 0x4 => some .add
  | 0x5 => some .sub
  | 0x6 => some .shiftRight
  | 0x7 => some .subReverse
  | 0xE => some .shiftLeft
  | _ => none

def KeyOp.code : KeyOp → Nat
  | .pressed => 0x9E
  | .notPressed => 0xA1

def KeyOp.ofCode? : Nat → Option KeyOp
  | 0x9E => some .pressed
  | 0xA1 => some .notPressed
  | _ => none

def MiscOp.code : MiscOp → Nat
  | .getDelay => 0x07
  | .awaitKey => 0x0A
  | .setDelay => 0x15
  | .setSound => 0x18
  | .addToIndex => 0x1E
  | .glyph => 0x29
  | .storeDigits => 0x33
  | .storeRegisters => 0x55
  | .loadRegisters => 0x65

def MiscOp.ofCode? : Nat → Option MiscOp
  | 0x07 => some .getDelay
  | 0x0A => some .awaitKey
  | 0x15 => some .setDelay
  | 0x18 => some .setSound
  | 0x1E => some .addToIndex
  | 0x29 => some .glyph
  | 0x33 => some .storeDigits
  | 0x55 => some .storeRegisters
  | 0x65 => some .loadRegisters
  | _ => none

/-! ## Operands that can be missing -/

namespace Word

def system? (w : UInt16) : Option SystemOp := SystemOp.ofCode? w.toNat

def pair? (w : UInt16) : Option (Register × Register) :=
  if n w = 0 then some (x w, y w) else none

def alu? (w : UInt16) : Option AluOp := AluOp.ofCode? (n w).val

def key? (w : UInt16) : Option KeyOp := KeyOp.ofCode? (nn w).toNat

def misc? (w : UInt16) : Option MiscOp := MiscOp.ofCode? (nn w).toNat

end Word

/-! ## Decoding and encoding -/

namespace Instruction

open Word in
def decode? (w : UInt16) : Option Instruction :=
  match (family w).val with
  | 0x0 => (system? w).map .system
  | 0x1 => some (.jump (nnn w))
  | 0x2 => some (.call (nnn w))
  | 0x3 => some (.skipIfEqual (x w) (nn w))
  | 0x4 => some (.skipIfNotEqual (x w) (nn w))
  | 0x5 => (pair? w).map fun (x, y) => .skipIfSame x y
  | 0x6 => some (.load (x w) (nn w))
  | 0x7 => some (.add (x w) (nn w))
  | 0x8 => (alu? w).map fun op => .alu op (x w) (y w)
  | 0x9 => (pair? w).map fun (x, y) => .skipIfDifferent x y
  | 0xA => some (.setIndex (nnn w))
  | 0xB => some (.jumpOffset (nnn w))
  | 0xC => some (.random (x w) (nn w))
  | 0xD => some (.draw (x w) (y w) (n w))
  | 0xE => (key? w).map fun op => .key op (x w)
  | 0xF => (misc? w).map fun op => .misc op (x w)
  | _ => none

def decode (w : UInt16) : Except WordError Instruction :=
  match decode? w with
  | some i => .ok i
  | none => .error (.unsupported w)

def spell (family x y n : Nat) : UInt16 :=
  UInt16.ofNat (4096 * family + 256 * x + 16 * y + n)

def spellByte (family x byte : Nat) : UInt16 :=
  UInt16.ofNat (4096 * family + 256 * x + byte)

def spellAddress (family address : Nat) : UInt16 :=
  UInt16.ofNat (4096 * family + address)

/-- The word that spells an instruction: the family nibble, then the operands in
their bit positions. -/
def encode : Instruction → UInt16
  | .system op => UInt16.ofNat op.code
  | .jump target => spellAddress 0x1 target
  | .call target => spellAddress 0x2 target
  | .skipIfEqual x byte => spellByte 0x3 x byte.toNat
  | .skipIfNotEqual x byte => spellByte 0x4 x byte.toNat
  | .skipIfSame x y => spell 0x5 x y 0
  | .load x byte => spellByte 0x6 x byte.toNat
  | .add x byte => spellByte 0x7 x byte.toNat
  | .alu op x y => spell 0x8 x y op.code
  | .skipIfDifferent x y => spell 0x9 x y 0
  | .setIndex address => spellAddress 0xA address
  | .jumpOffset address => spellAddress 0xB address
  | .random x mask => spellByte 0xC x mask.toNat
  | .draw x y rows => spell 0xD x y rows
  | .key op x => spellByte 0xE x op.code
  | .misc op x => spellByte 0xF x op.code

end Instruction

end Chip8VM
