import Mathlib
import Chip8VM.Zip.Archive

/-!
# The sizes that entries declare

What an entry holds does not depend on the size that it declares.  The size is read all
the same, to reserve room before the data: an entry that declares more than can ever be
reserved breaks off the call, whatever it holds, and every other size makes no difference.
-/

namespace Chip8VM

namespace Catalog

/-- The call comes back, with a program or with an error. -/
def Returns (answer : Except Failure Rom) : Prop :=
  (∃ rom, answer = .ok rom) ∨ ∃ cause, answer = .error (.load cause)

variable {ε : Type} {c : Catalog ε} {name : String}

/-- The program of a name as the entry tells it, without a look at the declared size. -/
def contents (c : Catalog ε) (name : String) : Except LoadError Rom :=
  match c.find name with
  | .error cause => .error (.archive cause)
  | .ok entry =>
      match c.read entry with
      | .error cause => .error (.read cause)
      | .ok bytes => .ok { name, bytes }

def declaring (c : Catalog ε) (size : ε → Nat) : Catalog ε := { c with size }

def Reservable (c : Catalog ε) (name : String) : Prop :=
  ∀ entry, c.find name = .ok entry → c.size entry ≤ 0x7FFFFFFFFFFFFFFF

/-! ## Contents -/

theorem contents_of_find {entry : ε} (h : c.find name = .ok entry) :
    c.contents name =
      match c.read entry with
      | .error cause => .error (.read cause)
      | .ok bytes => .ok { name, bytes } := by
  simp only [contents, h]

theorem contents_eq_ok_iff {rom : Rom} :
    c.contents name = .ok rom ↔
      rom.name = name ∧ ∃ entry, c.find name = .ok entry ∧ c.read entry = .ok rom.bytes := by
  cases hfind : c.find name with
  | error cause => simp [contents, hfind]
  | ok entry =>
      rw [contents_of_find hfind]
      cases hread : c.read entry with
      | error cause => simp [hread]
      | ok bytes =>
          obtain ⟨romName, romBytes⟩ := rom
          simp [hread, eq_comm]

/-! ## Extraction -/

theorem extract_of_reservable (h : c.Reservable name) :
    c.extract name = (c.contents name).mapError .load := by
  cases hfind : c.find name with
  | error cause =>
      simp only [extract, contents, hfind]
      rfl
  | ok entry =>
      have hroom : ¬ c.size entry > reserveLimit := Nat.not_lt.mpr (h entry hfind)
      rw [contents_of_find hfind]
      simp only [extract, hfind, hroom, if_false]
      cases c.read entry <;> rfl

theorem map_bytes_extract {entry : ε} (h : c.Reservable name) (hfind : c.find name = .ok entry) :
    (c.extract name).map Rom.bytes =
      (c.read entry).mapError fun cause => .load (.read cause) := by
  rw [extract_of_reservable h, contents_of_find hfind]
  cases c.read entry <;> rfl

theorem extract_of_unreservable {entry : ε} (hfind : c.find name = .ok entry)
    (hsize : reserveLimit < c.size entry) :
    c.extract name = .error (.unreservable (c.size entry)) := by
  simp only [extract, hfind, hsize, if_true]

theorem returns_iff : Returns (c.extract name) ↔ c.Reservable name := by
  constructor
  · intro hreturns entry hfind
    refine Nat.le_of_not_lt fun hsize => ?_
    rw [extract_of_unreservable hfind hsize] at hreturns
    simp [Returns] at hreturns
  · intro hreservable
    rw [extract_of_reservable hreservable]
    cases c.contents name with
    | ok rom => exact .inl ⟨rom, rfl⟩
    | error cause => exact .inr ⟨cause, rfl⟩

/-- A call comes back exactly if the size that the entry declares can be reserved, and then it
answers with the contents: the bytes that are read, under the name that was asked for, or what
went wrong with the entry or the reading.  Calls that come back answer the same whatever sizes
are declared, and alike when the same is read of their entries. -/
theorem declared_size_is_hint_iff {ε δ : Type} (c : Catalog ε) (d : Catalog δ) (name : String) :
    (Returns (c.extract name) ↔
      ∀ entry, c.find name = .ok entry → c.size entry ≤ 0x7FFFFFFFFFFFFFFF) ∧
    (Returns (c.extract name) → c.extract name = (c.contents name).mapError .load) ∧
    (∀ rom, c.contents name = .ok rom ↔
      rom.name = name ∧ ∃ entry, c.find name = .ok entry ∧ c.read entry = .ok rom.bytes) ∧
    (∀ size, Returns (c.extract name) → Returns ((c.declaring size).extract name) →
      (c.declaring size).extract name = c.extract name) ∧
    ∀ name' entry entry', c.find name = .ok entry → d.find name' = .ok entry' →
      c.read entry = d.read entry' → Returns (c.extract name) → Returns (d.extract name') →
      (c.extract name).map Rom.bytes = (d.extract name').map Rom.bytes := by
  have hanswer : ∀ size, Returns ((c.declaring size).extract name) →
      (c.declaring size).extract name = (c.contents name).mapError .load := fun size hreturns =>
    extract_of_reservable (returns_iff.mp hreturns)
  refine ⟨returns_iff, hanswer c.size, fun rom => contents_eq_ok_iff,
    fun size hreturns hreturns' => (hanswer size hreturns').trans (hanswer c.size hreturns).symm,
    ?_⟩
  intro name' entry entry' hfind hfind' hread hreturns hreturns'
  rw [map_bytes_extract (returns_iff.mp hreturns) hfind,
    map_bytes_extract (returns_iff.mp hreturns') hfind', hread]

end Catalog

namespace Zip.Archive

/-! ## An archive of one byte -/

def littleEndian : (count : Nat) → (n : Nat) → List UInt8
  | 0, _ => []
  | count + 1, n => UInt8.ofNat (n % 256) :: littleEndian count (n / 256)

def singleLocalHeader : List UInt8 :=
  [0x50, 0x4B, 0x03, 0x04, 20, 0, 0, 0, 0, 0, 0, 0, 0, 0, 0x8D, 0xEF, 0x02, 0xD2,
    1, 0, 0, 0, 1, 0, 0, 0, 1, 0, 0, 0, 0x61]

def singleDirectory : List UInt8 :=
  [0x50, 0x4B, 0x01, 0x02, 20, 0, 20, 0, 0, 0, 0, 0, 0, 0, 0, 0,
    0x8D, 0xEF, 0x02, 0xD2, 1, 0, 0, 0, 0xFF, 0xFF, 0xFF, 0xFF, 1, 0, 12, 0, 0, 0, 0, 0, 0, 0,
    0, 0, 0, 0, 0, 0, 0, 0, 0x61, 0x01, 0x00, 8, 0]

def singleEndRecord : List UInt8 :=
  [0x50, 0x4B, 0x05, 0x06, 0, 0, 0, 0, 1, 0, 1, 0, 59, 0, 0, 0, 32, 0, 0, 0, 0, 0]

/-- An entry `a` that holds a zero, stored as it is, and declares any size. -/
def singleData (declared : List UInt8) : Array UInt8 :=
  (singleLocalHeader ++ 0 :: singleDirectory ++ declared ++ singleEndRecord).toArray

def singleEntry (size : Nat) : Entry :=
  { name := "a", encrypted := false, method := Source.storedMethod, crc := 0xD202EF8D,
    compressedSize := 1, size, headerStart := 0 }

def singleSource (size : Nat) : Source :=
  { deflated := false, crc := 0xD202EF8D, size, aes := false, bytes := [0] }

def single (size : UInt64) : Archive :=
  ⟨singleData (littleEndian 8 size.toNat), [singleEntry size.toNat]⟩

section

variable (a b c d e f g h : UInt8)

set_option maxRecDepth 10000 in
theorem ofData_singleData :
    ofData (singleData [a, b, c, d, e, f, g, h]) =
      .ok ⟨singleData [a, b, c, d, e, f, g, h],
        [singleEntry (a.toNat + 256 * (b.toNat + 256 * (c.toNat + 256 * (d.toNat + 256 *
          (e.toNat + 256 * (f.toNat + 256 * (g.toNat + 256 * h.toNat)))))))]⟩ := by
  cbv

theorem find_singleData (size : Nat) :
    (Archive.mk (singleData [a, b, c, d, e, f, g, h]) [singleEntry size]).find "a" =
      .ok (singleSource size) := by
  cbv

end

theorem ofData_single (size : UInt64) :
    ofData (singleData (littleEndian 8 size.toNat)) = .ok (single size) := by
  refine (ofData_singleData _ _ _ _ _ _ _ _).trans
    (congrArg (fun n => Except.ok (Archive.mk _ [singleEntry n])) ?_)
  have hsize := size.toNat_lt
  simp only [UInt8.toNat_ofNat']
  omega

theorem find_single (size : UInt64) :
    (single size).catalog.find "a" = .ok (singleSource size.toNat) := by
  rw [catalog_find]
  exact find_singleData _ _ _ _ _ _ _ _ size.toNat

theorem extract_single (size : UInt64) :
    (single size).extract "a" = ((single size).catalog.extract "a").mapError .ofFailure := by
  have hfind := find_single size
  rw [catalog_find] at hfind
  rw [extract, hfind]
  exact if_neg Bool.false_ne_true

theorem read_single (size : Nat) : (singleSource size).read = .ok [0] := by
  cbv

theorem reservable_single_iff (size : UInt64) :
    (single size).catalog.Reservable "a" ↔ size.toNat ≤ 0x7FFFFFFFFFFFFFFF := by
  constructor
  · intro h
    exact h _ (find_single size)
  · intro h source hfind
    obtain rfl := Except.ok.inj ((find_single size).symm.trans hfind)
    exact h

theorem contents_single (size : UInt64) : (single size).catalog.contents "a" = .ok ⟨"a", [0]⟩ :=
  Catalog.contents_eq_ok_iff.mpr ⟨rfl, _, find_single size, read_single size.toNat⟩

/-- An entry of one byte that declares five: the byte is what comes out, as it is if the entry
declares one. -/
theorem byte_declared_as_five :
    let a := single 5
    let b := single 1
    ofData (singleData [5, 0, 0, 0, 0, 0, 0, 0]) = .ok a ∧
      ofData (singleData [1, 0, 0, 0, 0, 0, 0, 0]) = .ok b ∧
      a.catalog.find "a" = .ok (singleSource 5) ∧ (singleSource 5).read = .ok [0] ∧
      Catalog.Returns (a.catalog.extract "a") ∧ a.catalog.extract "a" = .ok ⟨"a", [0]⟩ ∧
      (a.catalog.extract "a").map Rom.bytes = (b.catalog.extract "a").map Rom.bytes := by
  intro a b
  obtain ⟨hreturns, hextract, -, -, hsame⟩ :=
    Catalog.declared_size_is_hint_iff a.catalog b.catalog "a"
  have hback : Catalog.Returns (a.catalog.extract "a") :=
    hreturns.mpr ((reservable_single_iff 5).mpr (by decide))
  have hback' : Catalog.Returns (b.catalog.extract "a") :=
    Catalog.returns_iff.mpr ((reservable_single_iff 1).mpr (by decide))
  refine ⟨ofData_single 5, ofData_single 1, find_single 5, read_single 5, hback, ?_,
    hsame "a" _ _ (find_single 5) (find_single 1) ?_ hback hback'⟩
  · rw [hextract hback, contents_single]
    rfl
  · exact (read_single 5).trans (read_single 1).symm

theorem byte_declared_as_huge_breaks_off :
    let a := single 1
    let b := single 0x8000000000000000
    ofData (singleData [1, 0, 0, 0, 0, 0, 0, 0]) = .ok a ∧
      ofData (singleData [0, 0, 0, 0, 0, 0, 0, 0x80]) = .ok b ∧
      a.catalog.find "a" = .ok (singleSource 1) ∧
      b.catalog.find "a" = .ok (singleSource 0x8000000000000000) ∧
      (singleSource 1).read = (singleSource 0x8000000000000000).read ∧
      a.extract "a" = .ok ⟨"a", [0]⟩ ∧ ¬ Catalog.Returns (b.catalog.extract "a") ∧
      b.extract "a" = .error (.unreservable 0x8000000000000000) := by
  intro a b
  have hfirst : a.catalog.extract "a" = .ok ⟨"a", [0]⟩ := by
    rw [Catalog.extract_of_reservable ((reservable_single_iff 1).mpr (by decide)),
      contents_single]
    rfl
  have hsecond : b.catalog.extract "a" = .error (.unreservable 0x8000000000000000) :=
    Catalog.extract_of_unreservable (find_single 0x8000000000000000) (by decide)
  refine ⟨ofData_single 1, ofData_single 0x8000000000000000, find_single 1,
    find_single 0x8000000000000000, (read_single _).trans (read_single _).symm, ?_, ?_, ?_⟩
  · rw [extract_single, hfirst]
    rfl
  · rw [hsecond]
    simp [Catalog.Returns]
  · rw [extract_single, hsecond]
    rfl

end Zip.Archive

end Chip8VM
