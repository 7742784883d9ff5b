import Chip8VM.Font
import Chip8VM.Word

/-!
The memory: 4096 bytes.

    0x000-0x04F   the glyphs of the digits 0 to F, five rows each
    0x050-0x1FF   empty
    0x200-0xFFF   program and work space

Reads and writes of a block fail unless the whole block lies in memory, and a
failing write writes nothing.
-/

namespace Chip8VM

/-! ## Layout -/

abbrev memorySize : Nat := 4096

def programStart : Nat := 0x200

def programLimit : Nat := memorySize - programStart

def wordSize : Nat := 2

structure Memory where
  cells : Vector UInt8 memorySize
  deriving DecidableEq

namespace Memory

def place (cells : Vector UInt8 memorySize) (address : Nat) : List UInt8 → Vector UInt8 memorySize
  | [] => cells
  | byte :: rest => place (cells.setIfInBounds address byte) (address + 1) rest

theorem getElem_place (cells : Vector UInt8 memorySize) (address : Nat) (bytes : List UInt8)
    (i : Nat) (h : i < memorySize) :
    (place cells address bytes)[i] =
      if address ≤ i then (bytes[i - address]?).getD cells[i] else cells[i] := by
  induction bytes generalizing cells address with
  | nil => simp [place]
  | cons byte rest ih =>
      rw [place, ih, Vector.getElem_setIfInBounds]
      by_cases h₁ : address + 1 ≤ i
      · have h₂ : i - address = (i - (address + 1)) + 1 := by omega
        have h₃ : address ≤ i := by omega
        have h₄ : address ≠ i := by omega
        rw [if_pos h₁, if_pos h₃, h₂, List.getElem?_cons_succ]
        simp [h₄]
      · by_cases h₂ : address = i
        · subst h₂
          simp only [if_neg h₁, Nat.le_refl, Nat.sub_self, List.getElem?_cons_zero, ite_true,
            Option.getD_some]
        · have h₃ : ¬ address ≤ i := by omega
          simp [h₁, h₂, h₃]

def initial : Memory :=
  ⟨place (Vector.replicate memorySize 0) Font.start Font.bytes⟩

def bytes (m : Memory) : List UInt8 := m.cells.toList

theorem ext_bytes {m m' : Memory} (h : m.bytes = m'.bytes) : m = m' := by
  cases m
  cases m'
  exact congrArg Memory.mk (Vector.toList_inj.mp h)

def read (m : Memory) (address length : Nat) : Except AccessError (List UInt8) :=
  if h : address + length ≤ memorySize then
    .ok (List.ofFn fun k : Fin length => m.cells[address + k.val])
  else
    .error ⟨address, length⟩

def write (m : Memory) (address : Nat) (bytes : List UInt8) : Except AccessError Memory :=
  if address + bytes.length ≤ memorySize then
    .ok ⟨place m.cells address bytes⟩
  else
    .error ⟨address, bytes.length⟩

def fetch (m : Memory) (pointer : Nat) : Except WordError UInt16 :=
  Word.fetch m.cells.toArray pointer

def checkProgram (program : List UInt8) : Except SizeError Unit :=
  if program.length > programLimit then
    .error ⟨program.length, programLimit⟩
  else
    .ok ()

def load (m : Memory) (program : List UInt8) : Except SizeError Memory :=
  match checkProgram program with
  | .error e => .error e
  | .ok () => .ok ⟨place m.cells programStart program⟩

end Memory

end Chip8VM
