import Chip8VM.Rom

/-!
Bytes as bits, the low bit of each byte first, and numbers in a sequence of bits.

What remains after a number is never longer than what it was taken from; the
readers of compressed data end because of this.
-/

namespace Chip8VM.Zip

def bitsOf (bytes : List UInt8) : List Bool :=
  bytes.flatMap fun byte => (List.range 8).map byte.toNat.testBit

abbrev Taken (α : Type) (limit : Nat) := α × { rest : List Bool // rest.length ≤ limit }

theorem length_le_self (bits : List Bool) : bits.length ≤ bits.length := Nat.le_refl _

def takeNumber : (width : Nat) → (bits : List Bool) → Except ReadError (Taken Nat bits.length)
  | 0, bits => .ok (0, ⟨bits, length_le_self bits⟩)
  | _ + 1, [] => .error .incompleteDeflate
  | width + 1, bit :: bits =>
      match takeNumber width bits with
      | .error e => .error e
      | .ok (high, ⟨rest, h⟩) =>
          .ok (bit.toNat + 2 * high, ⟨rest, Nat.le_succ_of_le h⟩)

def toByte (bits : List Bool) : List Bool := bits.drop (bits.length % 8)

theorem length_toByte_le (bits : List Bool) : (toByte bits).length ≤ bits.length := by
  simp [toByte]

end Chip8VM.Zip
