import Chip8VM.Text.CodePage437
import Chip8VM.Text.Utf8
import Chip8VM.Zip.Extent

/-!
The entries of a ZIP archive, as its directory describes them.
-/

namespace Chip8VM.Zip

structure Entry where
  name : String
  encrypted : Bool
  method : Nat
  crc : Nat
  compressedSize : Nat
  size : Nat
  headerStart : Nat
  aes : Bool := false
  deriving DecidableEq, Repr

namespace Entry

def mark : Nat := 0x02014b50

def fixedSize : Nat := 46

def zip64Field : Nat := 0x0001

def aesField : Nat := 0x9901

/-- The method of entries whose real method is in the field for AES encryption. -/
def aesMethod : Nat := 99

def widen? (fields : Array UInt8) (place value : Nat) : Option (Nat × Nat) :=
  if value = overflow32 then
    (number? fields place 8).map fun wide => (place + 8, wide)
  else
    some (place, value)

def widenAll (e : Entry) (fields : Array UInt8) (place : Nat) : Entry × Option Nat :=
  match widen? fields place e.size with
  | none => (e, none)
  | some (place, size) =>
      let e := { e with size }
      match widen? fields place e.compressedSize with
      | none => (e, none)
      | some (place, compressedSize) =>
          let e := { e with compressedSize }
          match widen? fields place e.headerStart with
          | none => (e, none)
          | some (place, headerStart) => ({ e with headerStart }, some place)

def readAes (e : Entry) (fields : Array UInt8) (place length : Nat) :
    Except ArchiveError (Option Entry) :=
  if length ≠ 7 then
    .error (.unsupported .aesFieldLength)
  else
    match number? fields place 2, number? fields (place + 2) 2, number? fields (place + 4) 1,
        number? fields (place + 5) 2 with
    | some version, some vendor, some strength, some method =>
        if vendor ≠ 0x4541 then .error (.invalid .aesVendor)
        else if version ≠ 1 ∧ version ≠ 2 then .error (.invalid .aesVendorVersion)
        else if strength < 1 ∨ 3 < strength then .error (.invalid .aesStrength)
        else .ok (some { e with aes := true, method })
    | _, _, _, _ => .ok none

/-- Takes over the extra fields from `place` on. Fields that are cut off end the list. -/
def readFields (e : Entry) (fields : Array UInt8) (place : Nat) : Except ArchiveError Entry :=
  if place < fields.size then
    match number? fields place 2, number? fields (place + 2) 2 with
    | some kind, some length =>
        if kind = zip64Field then
          match e.widenAll fields (place + 4) with
          | (e, none) => .ok e
          | (e, some after) => e.readFields fields (max after (place + 4 + length))
        else if kind = aesField then
          match e.readAes fields (place + 4) length with
          | .error cause => .error cause
          | .ok none => .ok e
          | .ok (some e) => e.readFields fields (place + 4 + 7 + length)
        else
          e.readFields fields (place + 4 + length)
    | _, _ => .ok e
  else
    .ok e
termination_by fields.size - place

def parse (data : Array UInt8) (archiveStart place : Nat) :
    Except ArchiveError (Entry × Nat) := do
  let found ← number data place 4
  if found ≠ mark then
    throw (.invalid .directoryHeader)
  let flags ← number data (place + 8) 2
  let method ← number data (place + 10) 2
  let crc ← number data (place + 16) 4
  let compressedSize ← number data (place + 20) 4
  let size ← number data (place + 24) 4
  let nameLength ← number data (place + 28) 2
  let fieldsLength ← number data (place + 30) 2
  let commentLength ← number data (place + 32) 2
  let headerStart ← number data (place + 42) 4
  let namePlace := place + fixedSize
  let name ← bytesAt data namePlace nameLength
  let fields ← bytesAt data (namePlace + nameLength) fieldsLength
  let _ ← bytesAt data (namePlace + nameLength + fieldsLength) commentLength
  let unicode := flags.testBit 11
  let chars :=
    if unicode then Utf8.decode name.toList else CodePage437.decode name.toList
  let e : Entry :=
    { name := String.ofList chars, encrypted := flags.testBit 0, method, crc,
      compressedSize, size, headerStart }
  let e ← e.readFields fields 0
  if e.method = aesMethod ∧ e.aes = false then
    throw (.invalid .aesFieldMissing)
  if e.headerStart + archiveStart ≥ Extent.placeLimit then
    throw (.invalid .headerPlace)
  return ({ e with headerStart := e.headerStart + archiveStart },
    namePlace + nameLength + fieldsLength + commentLength)

def parseAll (data : Array UInt8) (archiveStart place : Nat) (count : Nat)
    (found : List Entry) : Except ArchiveError (List Entry) :=
  match count with
  | 0 => .ok found.reverse
  | count + 1 =>
      match parse data archiveStart place with
      | .error cause => .error cause
      | .ok (e, after) => parseAll data archiveStart after count (e :: found)

end Entry

def directory (data : Array UInt8) : Except ArchiveError (List Entry) :=
  match Extent.find data with
  | .error cause => .error cause
  | .ok extent =>
      Entry.parseAll data extent.archiveStart extent.directoryStart extent.entries []

end Chip8VM.Zip
