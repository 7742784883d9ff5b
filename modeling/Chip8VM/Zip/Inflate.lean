import Chip8VM.Zip.Huffman

/-!
Decompression of DEFLATE data.

The data are blocks of bits: bytes as they are, or symbols under Huffman codes
that stand for single bytes and for copies of earlier output. Copies may reach
back before the start of the output, where all bytes are zero. What follows the
last block is ignored.
-/

namespace Chip8VM.Zip.Inflate

abbrev Progress (limit : Nat) := Array UInt8 × { rest : List Bool // rest.length < limit }

/-! ## Copies -/

def copyLengths : List (Nat × Nat) := [
  (3, 0), (4, 0), (5, 0), (6, 0), (7, 0), (8, 0), (9, 0), (10, 0),
  (11, 1), (13, 1), (15, 1), (17, 1), (19, 2), (23, 2), (27, 2), (31, 2),
  (35, 3), (43, 3), (51, 3), (59, 3), (67, 4), (83, 4), (99, 4), (115, 4),
  (131, 5), (163, 5), (195, 5), (227, 5), (258, 0)]

def copyDistances : List (Nat × Nat) := [
  (1, 0), (2, 0), (3, 0), (4, 0), (5, 1), (7, 1), (9, 2), (13, 2),
  (17, 3), (25, 3), (33, 4), (49, 4), (65, 5), (97, 5), (129, 6), (193, 6),
  (257, 7), (385, 7), (513, 8), (769, 8), (1025, 9), (1537, 9), (2049, 10), (3073, 10),
  (4097, 11), (6145, 11), (8193, 12), (12289, 12), (16385, 13), (24577, 13)]

def copy (out : Array UInt8) (distance : Nat) : Nat → Array UInt8
  | 0 => out
  | length + 1 =>
      let byte := if distance ≤ out.size then out[out.size - distance]?.getD 0 else 0
      copy (out.push byte) distance length

def takeExtended (table : List (Nat × Nat)) (first symbol : Nat) (bits : List Bool) :
    Except ReadError (Taken Nat bits.length) :=
  if symbol < first then
    .error .corruptDeflate
  else
    match table[symbol - first]? with
    | none => .error .corruptDeflate
    | some (least, extra) =>
        match takeNumber extra bits with
        | .error e => .error e
        | .ok (more, rest) => .ok (least + more, rest)

/-! ## Blocks of symbols -/

structure Codes where
  literals : Huffman
  distances : Huffman

def endOfBlock : Nat := 256

def takeCopy (codes : Codes) (symbol : Nat) (bits : List Bool) :
    Except ReadError (Taken (Nat × Nat) bits.length) :=
  match takeExtended copyLengths (endOfBlock + 1) symbol bits with
  | .error e => .error e
  | .ok (length, ⟨bits₁, h₁⟩) =>
      match codes.distances.decode bits₁ with
      | .error e => .error e
      | .ok (distanceSymbol, ⟨bits₂, h₂⟩) =>
          match takeExtended copyDistances 0 distanceSymbol bits₂ with
          | .error e => .error e
          | .ok (distance, ⟨rest, h⟩) =>
              .ok ((length, distance),
                ⟨rest, Nat.le_trans h (Nat.le_trans (Nat.le_of_lt h₂) h₁)⟩)

def symbols (codes : Codes) (limit : Nat) (out : Array UInt8) (bits : List Bool)
    (le : bits.length ≤ limit) : Except ReadError (Progress limit) :=
  match codes.literals.decode bits with
  | .error e => .error e
  | .ok (symbol, ⟨bits₁, h₁⟩) =>
      if symbol < endOfBlock then
        symbols codes limit (out.push (UInt8.ofNat symbol)) bits₁
          (Nat.le_of_lt (Nat.lt_of_lt_of_le h₁ le))
      else if symbol = endOfBlock then
        .ok (out, ⟨bits₁, Nat.lt_of_lt_of_le h₁ le⟩)
      else
        match takeCopy codes symbol bits₁ with
        | .error e => .error e
        | .ok ((length, distance), ⟨bits₂, h₂⟩) =>
            symbols codes limit (copy out distance length) bits₂
              (Nat.le_trans h₂ (Nat.le_of_lt (Nat.lt_of_lt_of_le h₁ le)))
termination_by bits.length
decreasing_by
  · exact h₁
  · exact Nat.lt_of_le_of_lt h₂ h₁

def fixedCodes : Codes :=
  { literals := .ofLengths (List.replicate 144 8 ++ List.replicate 112 9
      ++ List.replicate 24 7 ++ List.replicate 8 8)
    distances := .ofLengths (List.replicate 32 5) }

/-! ## Codes in front of a block -/

/-- The symbols of the code for code lengths, in the order in which their own code lengths
are given. -/
def lengthOrder : List Nat := [16, 17, 18, 0, 8, 7, 9, 6, 10, 5, 11, 4, 12, 3, 13, 2, 14, 1, 15]

def takeTriples : (count : Nat) → (bits : List Bool) →
    Except ReadError (Taken (List Nat) bits.length)
  | 0, bits => .ok ([], ⟨bits, length_le_self bits⟩)
  | count + 1, bits =>
      match takeNumber 3 bits with
      | .error e => .error e
      | .ok (first, ⟨bits₁, h₁⟩) =>
          match takeTriples count bits₁ with
          | .error e => .error e
          | .ok (others, ⟨bits₂, h₂⟩) =>
              .ok (first :: others, ⟨bits₂, Nat.le_trans h₂ h₁⟩)

def codeLengths (code : Huffman) (wanted limit : Nat) (found : Array Nat) (bits : List Bool)
    (le : bits.length ≤ limit) : Except ReadError (Taken (Array Nat) limit) :=
  if wanted ≤ found.size then
    .ok (found, ⟨bits, le⟩)
  else
    match code.decode bits with
    | .error e => .error e
    | .ok (symbol, ⟨bits₁, h₁⟩) =>
        if symbol < 16 then
          codeLengths code wanted limit (found.push symbol) bits₁ (by omega)
        else if symbol = 16 ∧ found.size = 0 then
          .error .corruptDeflate
        else
          let (value, least, extra) :=
            if symbol = 16 then (found[found.size - 1]?.getD 0, 3, 2)
            else if symbol = 17 then (0, 3, 3)
            else (0, 11, 7)
          match takeNumber extra bits₁ with
          | .error e => .error e
          | .ok (more, ⟨bits₂, h₂⟩) =>
              codeLengths code wanted limit
                (found ++ Array.replicate (least + more) value) bits₂ (by omega)
termination_by bits.length

def takeCodes (literals distances triples : Nat) (bits : List Bool) :
    Except ReadError (Taken Codes bits.length) :=
  match takeTriples triples bits with
  | .error e => .error e
  | .ok (lengths, ⟨bits₁, h₁⟩) =>
      let given := lengthOrder.zip lengths
      let code := Huffman.ofLengths
        ((List.range 19).map fun symbol => (given.lookup symbol).getD 0)
      if !code.isComplete then
        .error .corruptDeflate
      else
        match codeLengths code (literals + distances) bits.length #[] bits₁ h₁ with
        | .error e => .error e
        | .ok (found, rest) =>
            if found.size ≠ literals + distances then
              .error .corruptDeflate
            else
              let codes : Codes :=
                { literals := .ofLengths (found.toList.take literals)
                  distances := .ofLengths (found.toList.drop literals) }
              if codes.literals.isUsable && codes.distances.isUsable then
                .ok (codes, rest)
              else
                .error .corruptDeflate

def ownCodes (bits : List Bool) : Except ReadError (Taken Codes bits.length) :=
  match takeNumber 5 bits with
  | .error e => .error e
  | .ok (literals, ⟨bits₁, h₁⟩) =>
      match takeNumber 5 bits₁ with
      | .error e => .error e
      | .ok (distances, ⟨bits₂, h₂⟩) =>
          match takeNumber 4 bits₂ with
          | .error e => .error e
          | .ok (triples, ⟨bits₃, h₃⟩) =>
              if literals + 257 > 286 ∨ distances + 1 > 30 then
                .error .corruptDeflate
              else
                match takeCodes (literals + 257) (distances + 1) (triples + 4) bits₃ with
                | .error e => .error e
                | .ok (codes, ⟨rest, h⟩) => .ok (codes, ⟨rest, by omega⟩)

/-! ## Stored blocks -/

def takeBytes (out : Array UInt8) : (count : Nat) → (bits : List Bool) →
    Except ReadError (Taken (Array UInt8) bits.length)
  | 0, bits => .ok (out, ⟨bits, length_le_self bits⟩)
  | count + 1, bits =>
      match takeNumber 8 bits with
      | .error e => .error e
      | .ok (byte, ⟨bits₁, h₁⟩) =>
          match takeBytes (out.push (UInt8.ofNat byte)) count bits₁ with
          | .error e => .error e
          | .ok (out, ⟨bits₂, h₂⟩) => .ok (out, ⟨bits₂, Nat.le_trans h₂ h₁⟩)

/-- The length stands twice, the second time with all of its bits turned over. -/
def stored (out : Array UInt8) (bits : List Bool) :
    Except ReadError (Taken (Array UInt8) bits.length) :=
  match takeNumber 16 (toByte bits) with
  | .error e => .error e
  | .ok (length, ⟨bits₁, h₁⟩) =>
      match takeNumber 16 bits₁ with
      | .error e => .error e
      | .ok (complement, ⟨bits₂, h₂⟩) =>
          if length + complement ≠ 65535 then
            .error .corruptDeflate
          else
            match takeBytes out length bits₂ with
            | .error e => .error e
            | .ok (out, ⟨rest, h⟩) =>
                .ok (out, ⟨rest, by have := length_toByte_le bits; omega⟩)

/-! ## All blocks -/

def block (out : Array UInt8) (bits : List Bool) :
    Except ReadError (Taken (Array UInt8) bits.length) :=
  match takeNumber 2 bits with
  | .error e => .error e
  | .ok (0, ⟨bits₁, h₁⟩) =>
      match stored out bits₁ with
      | .error e => .error e
      | .ok (out, ⟨rest, h⟩) => .ok (out, ⟨rest, by omega⟩)
  | .ok (1, ⟨bits₁, h₁⟩) =>
      match symbols fixedCodes bits₁.length out bits₁ (length_le_self bits₁) with
      | .error e => .error e
      | .ok (out, ⟨rest, h⟩) => .ok (out, ⟨rest, by omega⟩)
  | .ok (2, ⟨bits₁, h₁⟩) =>
      match ownCodes bits₁ with
      | .error e => .error e
      | .ok (codes, ⟨bits₂, h₂⟩) =>
          match symbols codes bits₂.length out bits₂ (length_le_self bits₂) with
          | .error e => .error e
          | .ok (out, ⟨rest, h⟩) => .ok (out, ⟨rest, by omega⟩)
  | .ok _ => .error .corruptDeflate

def blocks (out : Array UInt8) : List Bool → Except ReadError (Array UInt8)
  | [] => .error .incompleteDeflate
  | last :: bits =>
      match block out bits with
      | .error e => .error e
      | .ok (out, ⟨rest, _⟩) => if last then .ok out else blocks out rest
termination_by bits => bits.length
decreasing_by exact Nat.lt_succ_of_le ‹_›

end Chip8VM.Zip.Inflate

namespace Chip8VM.Zip

def inflate (bytes : List UInt8) : Except ReadError (List UInt8) :=
  (Inflate.blocks #[] (bitsOf bytes)).map Array.toList

end Chip8VM.Zip
