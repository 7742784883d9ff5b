import Chip8VM.Machine
import Chip8VM.Text.Hex

/-!
A machine as text.

Every part stands under its heading. Memory and registers are tables with the
range of addresses or numbers in front of each row; neighbouring memory rows of
zeros are drawn together into one. The screen and the random bytes are not shown.
-/

namespace Chip8VM.Dump

def rowLength : Nat := 8

def indent : List Char := ['\t', '\t']

def pieces {α : Type} (size : Nat) : List α → List (List α)
  | [] => []
  | a :: rest => (a :: rest.take (size - 1)) :: pieces size (rest.drop (size - 1))
termination_by l => l.length
decreasing_by rw [List.length_drop, List.length_cons]; omega

def range (first last : Nat) : List Char :=
  Hex.word first ++ " - ".toList ++ Hex.word last ++ " :".toList

def lines (rows : List (List Char)) : List Char := List.intercalate ['\n'] rows

/-! ## Tables of numbers -/

def numberRow (first : Nat) (entries : List Nat) : List Char :=
  indent ++ range first (first + entries.length - 1)
    ++ entries.flatMap fun entry => ' ' :: Hex.word entry

def numberRows (first : Nat) : List (List Nat) → List (List Char)
  | [] => []
  | entries :: rest => numberRow first entries :: numberRows (first + entries.length) rest

def numbers (entries : List Nat) : List Char :=
  lines (numberRows 0 (pieces rowLength entries))

/-! ## The memory table -/

inductive Row where
  | words (first last : Nat) (entries : List UInt16)
  | zeros (first last : Nat)
  deriving DecidableEq, Repr

/-- The bytes as words; an odd last byte is the high half of its word. -/
def wordsOf : List UInt8 → List UInt16
  | [] => []
  | [high] => [Word.ofBytes high 0]
  | high :: low :: rest => Word.ofBytes high low :: wordsOf rest

def rowOf (first : Nat) (bytes : List UInt8) : Row :=
  let last := first + bytes.length - 1
  if bytes.all (· == 0) then
    .zeros first last
  else
    let words := wordsOf bytes
    .words first last (words ++ List.replicate (rowLength - words.length) 0)

/-- Puts a row in front; two rows of zeros become one. -/
def Row.cons : Row → List Row → List Row
  | .zeros first _, .zeros _ last :: rest => .zeros first last :: rest
  | row, rest => row :: rest

def rowsFrom (first : Nat) : List (List UInt8) → List Row
  | [] => []
  | bytes :: rest => (rowOf first bytes).cons (rowsFrom (first + bytes.length) rest)

def memoryRows (bytes : List UInt8) : List Row :=
  rowsFrom 0 (pieces (rowLength * wordSize) bytes)

def filler : List Char :=
  Hex.word 0 ++ List.replicate 20 ' ' ++ "...".toList ++ List.replicate 20 ' ' ++ Hex.word 0

def Row.text : Row → List Char
  | .words first last entries =>
      indent ++ range first last ++ entries.flatMap fun word => ' ' :: Hex.word word.toNat
  | .zeros first last => indent ++ range first last ++ ' ' :: filler

def memory (bytes : List UInt8) : List Char :=
  lines ((memoryRows bytes).map Row.text)

/-! ## The parts of a machine -/

/-- The return addresses, the outermost one first, filled up with zeros. -/
def stackEntries (stack : CallStack) : List Nat :=
  let entries := stack.addresses.reverse.map UInt16.toNat
  entries ++ List.replicate (stackLimit - entries.length) 0

def key : Option UInt8 → List Char
  | some key => Hex.word key.toNat
  | none => "none".toList

def timers (t : Timers) : List Char :=
  "delay ".toList ++ Hex.word t.delay.toNat ++ " sound ".toList ++ Hex.word t.sound.toNat

def part (heading : String) (body : List Char) : List Char :=
  '\t' :: (heading.toList ++ " :\n".toList ++ body ++ ['\n'])

def text (m : Machine) : List Char :=
  "Chipset \x7b\n".toList
    ++ part "Program Name" (indent ++ m.name.toList)
    ++ part "Opcode" (indent ++ Hex.word m.word.toNat)
    ++ part "Program Counter" (indent ++ Hex.word m.pc.toNat)
    ++ part "Index" (indent ++ Hex.word m.index.toNat)
    ++ part "Memory" (memory m.memory.bytes)
    ++ part "Keyboard" (indent ++ key m.keys.get)
    ++ part "Stack" (numbers (stackEntries m.stack))
    ++ part "Register" (numbers (m.v.toList.map UInt8.toNat))
    ++ part "Timers" (indent ++ timers m.timers)
    ++ ['\x7d']

end Chip8VM.Dump

namespace Chip8VM

def Machine.dump (m : Machine) : String := String.ofList (Dump.text m)

end Chip8VM
