import Chip8VM.Text.Hex

/-!
The ways in which the machine and its parts refuse to go on, each with its
message.

Every cause is a constructor that carries what its message names; the wording
stands in one `message` function per type.
-/

namespace Chip8VM

/-- A word that is not an instruction, or a place where no word can be. -/
inductive WordError where
  | unsupported (word : UInt16)
  | outside (pointer length : Nat)
  deriving DecidableEq, Repr

inductive StackError where
  | full
  | empty
  deriving DecidableEq, Repr

structure AccessError where
  address : Nat
  length : Nat
  deriving DecidableEq, Repr

structure KeyError where
  key : UInt8
  deriving DecidableEq, Repr

structure SizeError where
  length : Nat
  limit : Nat
  deriving DecidableEq, Repr

inductive Fault where
  | word (cause : WordError)
  | stack (cause : StackError)
  | memory (cause : AccessError)
  deriving DecidableEq, Repr

private def hexText (width n : Nat) : String := String.ofList (Hex.numeral width n)

def WordError.message : WordError → String
  | .unsupported word => "An unsupported opcode was used " ++ hexText 4 word.toNat ++ "."
  | .outside pointer length =>
      "Pointer location invalid there can not be an opcode at " ++ toString pointer
        ++ ", if data len is " ++ toString length

def StackError.message : StackError → String
  | .full => "Stack is full!"
  | .empty => "Stack is empty!"

def AccessError.message (e : AccessError) : String :=
  "Access of " ++ toString e.length ++ " bytes at " ++ hexText 4 e.address
    ++ " is out of bounds."

def KeyError.message (e : KeyError) : String :=
  "There is no key " ++ hexText 1 e.key.toNat ++ ", only the keys 0x0 to 0xF exist."

def SizeError.message (e : SizeError) : String :=
  "The rom is " ++ toString e.length ++ " bytes long, but only " ++ toString e.limit
    ++ " bytes fit into memory."

def Fault.message : Fault → String
  | .word cause => "Invalid opcode state '" ++ cause.message ++ "'."
  | .stack cause => "Invalid stack state '" ++ cause.message ++ "'."
  | .memory cause => "Invalid memory access '" ++ cause.message ++ "'."

end Chip8VM
