import Chip8VM.Proofs.Access

/-!
# Addresses of 64 bits

A second way to reach words and blocks, for callers whose addresses and lengths are numbers
of 64 bits.  A sum that takes more bits is refused where it is formed, and a block is cut out
of memory by its two ends.  The answers are those of the unbounded numbers.
-/

namespace Chip8VM.Strict

def sum? (a b : UInt64) : Option UInt64 :=
  if a.toNat + b.toNat < UInt64.size then some (a + b) else none

def blockEnd (address length : UInt64) : Except AccessError UInt64 :=
  match sum? address length with
  | some last =>
      if last.toNat ≤ memorySize then .ok last else .error ⟨address.toNat, length.toNat⟩
  | none => .error ⟨address.toNat, length.toNat⟩

def read (m : Memory) (address length : UInt64) : Except AccessError (List UInt8) :=
  match blockEnd address length with
  | .error e => .error e
  | .ok last => .ok ((m.bytes.take last.toNat).drop address.toNat)

def write (m : Memory) (address : UInt64) (bytes : List UInt8) : Except AccessError Memory :=
  match blockEnd address (UInt64.ofNat bytes.length) with
  | .error e => .error e
  | .ok _ => .ok ⟨Memory.place m.cells address.toNat bytes⟩

/-- The word at `pointer`; behind the last number of 64 bits there is no second byte. -/
def fetch (data : Array UInt8) (pointer : UInt64) : Except WordError UInt16 :=
  match data[pointer.toNat]?, (sum? pointer 1).bind fun next => data[next.toNat]? with
  | some high, some low => .ok (Word.ofBytes high low)
  | _, _ => .error (.outside pointer.toNat data.size)

theorem sum?_of_lt {a b : UInt64} (h : a.toNat + b.toNat < UInt64.size) :
    sum? a b = some (a + b) ∧ (a + b).toNat = a.toNat + b.toNat :=
  ⟨if_pos h, (UInt64.toNat_add a b).trans (Nat.mod_eq_of_lt h)⟩

theorem sum?_of_le {a b : UInt64} (h : UInt64.size ≤ a.toNat + b.toNat) : sum? a b = none :=
  if_neg (Nat.not_lt.mpr h)

theorem blockEnd_cases (address length : UInt64) :
    (address.toNat + length.toNat ≤ memorySize ∧
      ∃ last, blockEnd address length = .ok last ∧
        last.toNat = address.toNat + length.toNat) ∨
    (memorySize < address.toNat + length.toNat ∧
      blockEnd address length = .error ⟨address.toNat, length.toNat⟩) := by
  rcases Nat.lt_or_ge (address.toNat + length.toNat) UInt64.size with hlt | hge
  · obtain ⟨hsum, hlast⟩ := sum?_of_lt hlt
    rcases Nat.lt_or_ge memorySize (address.toNat + length.toNat) with hout | hin
    · right
      simp [blockEnd, hsum, hlast, hout, Nat.not_le.mpr hout]
    · left
      exact ⟨hin, _, by simp [blockEnd, hsum, hlast, hin], hlast⟩
  · right
    refine ⟨Nat.lt_of_lt_of_le (by decide) hge, ?_⟩
    simp only [blockEnd, sum?_of_le hge]

theorem read_eq (m : Memory) (address length : UInt64) :
    read m address length = m.read address.toNat length.toNat := by
  rcases blockEnd_cases address length with ⟨hin, last, hend, hlast⟩ | ⟨hout, hend⟩
  · rw [read, hend, m.read_of_le hin]
    simp only [hlast, List.drop_take, Nat.add_sub_cancel_left]
  · rw [read, hend, m.read_of_lt hout]

theorem write_eq (m : Memory) (address : UInt64) {bytes : List UInt8}
    (hbytes : bytes.length < UInt64.size) :
    write m address bytes = m.write address.toNat bytes := by
  have hlength : (UInt64.ofNat bytes.length).toNat = bytes.length :=
    UInt64.toNat_ofNat_of_lt' hbytes
  rcases blockEnd_cases address (UInt64.ofNat bytes.length) with
    ⟨hin, last, hend, -⟩ | ⟨hout, hend⟩
  · rw [hlength] at hin
    rw [write, hend, m.write_of_le hin]
  · rw [hlength] at hout
    rw [write, hend, m.write_of_lt hout, hlength]

theorem fetch_eq {data : Array UInt8} (hdata : data.size ≤ UInt64.size) (pointer : UInt64) :
    fetch data pointer = Word.fetch data pointer.toNat := by
  have hnext : (sum? pointer 1).bind (fun next => data[next.toNat]?) =
      data[pointer.toNat + 1]? := by
    rcases Nat.lt_or_ge (pointer.toNat + 1) UInt64.size with hlt | hge
    · obtain ⟨hsum, hvalue⟩ := sum?_of_lt (b := 1) hlt
      rw [hsum, Option.bind_some, hvalue]
      rfl
    · rw [sum?_of_le (b := 1) hge, Option.bind_none,
        Array.getElem?_eq_none (Nat.le_trans hdata hge)]
  rw [fetch, hnext]
  rfl

end Chip8VM.Strict
