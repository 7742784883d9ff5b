import Chip8VM.Rom

/-!
Numbers and sections of bytes at given places of an archive.
-/

namespace Chip8VM.Zip

def number? (data : Array UInt8) (place : Nat) : (width : Nat) → Option Nat
  | 0 => some 0
  | width + 1 =>
      match data[place]?, number? data (place + 1) width with
      | some low, some high => some (low.toNat + 256 * high)
      | _, _ => none

def number (data : Array UInt8) (place width : Nat) : Except ArchiveError Nat :=
  match number? data place width with
  | some n => .ok n
  | none => .error (.read .endOfData)

def section? (data : Array UInt8) (place length : Nat) : Option (Array UInt8) :=
  if place + length ≤ data.size then some (data.extract place (place + length)) else none

def bytesAt (data : Array UInt8) (place length : Nat) : Except ArchiveError (Array UInt8) :=
  match section? data place length with
  | some bytes => .ok bytes
  | none => .error (.read .endOfData)

end Chip8VM.Zip
