import Chip8VM.Zip.Bits

/-!
Canonical Huffman codes, given by the length of the code of each symbol.

Codes of one length are consecutive numbers in the order of their symbols, and
they follow the shorter codes. A length of zero means that a symbol has no code.
-/

namespace Chip8VM.Zip

structure Huffman where
  counts : List Nat
  symbols : Array Nat

namespace Huffman

/-- The length of the longest code. Without any code, a single bit is looked at. -/
def longest (lengths : List Nat) : Nat := lengths.foldl max 1

def ofLengths (lengths : List Nat) : Huffman :=
  let sizes := List.range' 1 (longest lengths)
  { counts := sizes.map fun size => lengths.count size
    symbols := (sizes.flatMap fun size =>
      (lengths.zipIdx.filter fun (length, _) => length == size).map Prod.snd).toArray }

/-- The share of all bit sequences that start with a code, in units of the share of a
longest code. -/
def share (h : Huffman) : Nat :=
  h.counts.foldl (fun sum count => 2 * sum + count) 0

def isComplete (h : Huffman) : Bool := h.share == 1 <<< h.counts.length

/-- Besides complete codes, a single code of one bit is usable, and so is no code at all. -/
def isUsable (h : Huffman) : Bool :=
  h.isComplete || (h.counts.length == 1 && h.share ≤ 1)

abbrev Symbol (limit : Nat) := Nat × { rest : List Bool // rest.length < limit }

/-- Looks for a code among those of the given lengths. `code` are the bits so far, `first`
is the first code of the next length but one bit shorter, and `index` counts the
symbols with shorter codes. After as many bits as the longest code has, no further
bits are waited for. -/
def find (symbols : Array Nat) :
    (counts : List Nat) → (code first index : Nat) → (bits : List Bool) →
      Except ReadError (Symbol bits.length)
  | [], _, _, _, _ => .error .corruptDeflate
  | _ :: _, _, _, _, [] => .error .incompleteDeflate
  | count :: counts, code, first, index, bit :: bits =>
      let code := 2 * code + bit.toNat
      let first := 2 * first
      if code < first + count then
        .ok (symbols[index + (code - first)]?.getD 0, ⟨bits, Nat.lt_succ_self _⟩)
      else
        match find symbols counts code (first + count) (index + count) bits with
        | .error e => .error e
        | .ok (symbol, ⟨rest, h⟩) => .ok (symbol, ⟨rest, Nat.lt_succ_of_lt h⟩)

def decode (h : Huffman) (bits : List Bool) : Except ReadError (Symbol bits.length) :=
  find h.symbols h.counts 0 0 0 bits

end Huffman

end Chip8VM.Zip
