import Chip8VM.Fault

/-!
Instruction words: two bytes, the high one first, read as overlapping fields.

    F X Y N     four nibbles: family, two register numbers, a small constant
    F X NN      a register number and a byte
    F NNN       an address
-/

namespace Chip8VM.Word

def family (w : UInt16) : Fin 16 :=
  ⟨w.toNat / 4096, by have := w.toNat_lt; omega⟩

def x (w : UInt16) : Fin 16 := ⟨w.toNat / 256 % 16, by omega⟩

def y (w : UInt16) : Fin 16 := ⟨w.toNat / 16 % 16, by omega⟩

def n (w : UInt16) : Fin 16 := ⟨w.toNat % 16, by omega⟩

def nn (w : UInt16) : UInt8 := UInt8.ofNat (w.toNat % 256)

def nnn (w : UInt16) : Fin 4096 := ⟨w.toNat % 4096, by omega⟩

def ofBytes (high low : UInt8) : UInt16 :=
  UInt16.ofNat (256 * high.toNat + low.toNat)

theorem toNat_ofBytes (high low : UInt8) :
    (ofBytes high low).toNat = 256 * high.toNat + low.toNat := by
  have hhigh := high.toNat_lt
  have hlow := low.toNat_lt
  exact UInt16.toNat_ofNat_of_lt' (by simp only [UInt16.size]; omega)

theorem toNat_add_of_lt {a b : UInt16} (h : a.toNat + b.toNat < 65536) :
    (a + b).toNat = a.toNat + b.toNat :=
  (UInt16.toNat_add a b).trans (Nat.mod_eq_of_lt h)

def fetch (data : Array UInt8) (pointer : Nat) : Except WordError UInt16 :=
  match data[pointer]?, data[pointer + 1]? with
  | some high, some low => .ok (ofBytes high low)
  | _, _ => .error (.outside pointer data.size)

end Chip8VM.Word
