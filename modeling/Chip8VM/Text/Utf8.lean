/-!
Bytes as UTF-8 text, with a replacement character for what is no text.

A replacement stands for the longest start of a character that is broken off or
spoilt by the byte after it, or for a single byte that starts no character.
-/

namespace Chip8VM.Utf8

def replacement : Char := '\ufffd'

def isTail (byte : UInt8) : Bool := 0x80 ≤ byte && byte ≤ 0xBF

/-- How many bytes follow a first byte, and the range of the first of them; nothing if no
character starts with the byte. The range leaves out overlong forms, surrogates and
numbers past the last code point. -/
def shape? (first : UInt8) : Option (Nat × UInt8 × UInt8) :=
  if first < 0x80 then some (0, 0x80, 0xBF)
  else if first < 0xC2 then none
  else if first ≤ 0xDF then some (1, 0x80, 0xBF)
  else if first = 0xE0 then some (2, 0xA0, 0xBF)
  else if first = 0xED then some (2, 0x80, 0x9F)
  else if first ≤ 0xEF then some (2, 0x80, 0xBF)
  else if first = 0xF0 then some (3, 0x90, 0xBF)
  else if first ≤ 0xF3 then some (3, 0x80, 0xBF)
  else if first = 0xF4 then some (3, 0x80, 0x8F)
  else none

def headBits (first : UInt8) (following : Nat) : Nat :=
  match following with
  | 0 => first.toNat
  | 1 => first.toNat % 32
  | 2 => first.toNat % 16
  | _ => first.toNat % 8

def tails (count : Nat) (low high : UInt8) (bytes : List UInt8) : List UInt8 :=
  match bytes with
  | byte :: rest =>
      if count ≠ 0 ∧ low ≤ byte ∧ byte ≤ high then
        byte :: (rest.take (count - 1)).takeWhile isTail
      else
        []
  | [] => []

def decode : List UInt8 → List Char
  | [] => []
  | first :: rest =>
      match shape? first with
      | none => replacement :: decode rest
      | some (count, low, high) =>
          let found := tails count low high rest
          let point := found.foldl (fun p byte => p * 64 + byte.toNat % 64)
            (headBits first count)
          let char := if found.length = count then Char.ofNat point else replacement
          char :: decode (rest.drop found.length)
termination_by bytes => bytes.length
decreasing_by all_goals simp only [List.length_drop, List.length_cons]; omega

end Chip8VM.Utf8
