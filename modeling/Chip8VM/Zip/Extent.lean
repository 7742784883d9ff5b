import Chip8VM.Zip.Number

/-!
Where the directory of a ZIP archive is.

An archive is read from its end: the end record tells where the directory starts
and how many entries it has. Large archives have a second end record, found with
the help of a locator in front of the first one. Bytes in front of the archive
are allowed, all places count from where the archive starts.
-/

namespace Chip8VM.Zip

def overflow16 : Nat := 0xFFFF

def overflow32 : Nat := 0xFFFFFFFF

/-! ## End records -/

def endRecordMark : Nat := 0x06054b50

def endRecordSize : Nat := 22

def endRecord64Mark : Nat := 0x06064b50

def locatorMark : Nat := 0x07064b50

def locatorSize : Nat := 20

structure EndRecord where
  place : Nat
  disk : Nat
  directoryDisk : Nat
  entriesHere : Nat
  entries : Nat
  directorySize : Nat
  directoryStart : Nat
  commentLength : Nat
  deriving DecidableEq, Repr

namespace EndRecord

def tooSmall (r : EndRecord) : Bool :=
  r.disk == overflow16 || r.directoryDisk == overflow16 || r.entriesHere == overflow16
    || r.entries == overflow16 || r.directorySize == overflow32
    || r.directoryStart == overflow32

def parse (data : Array UInt8) (place : Nat) : Except ArchiveError EndRecord := do
  let disk ← number data (place + 4) 2
  let directoryDisk ← number data (place + 6) 2
  let entriesHere ← number data (place + 8) 2
  let entries ← number data (place + 10) 2
  let directorySize ← number data (place + 12) 4
  let directoryStart ← number data (place + 16) 4
  let commentLength ← number data (place + 20) 2
  let _ ← bytesAt data (place + endRecordSize) commentLength
  return { place, disk, directoryDisk, entriesHere, entries, directorySize, directoryStart,
           commentLength }

def findBackwards (data : Array UInt8) (place : Nat) : (count : Nat) → Option Nat
  | 0 => none
  | count + 1 =>
      if number? data place 4 = some endRecordMark then some place
      else if place = 0 then none
      else findBackwards data (place - 1) count

/-- The last end record; its comment can be up to 65535 bytes long. -/
def find (data : Array UInt8) : Except ArchiveError EndRecord :=
  if data.size < endRecordSize then
    .error (.invalid .tooShort)
  else
    match findBackwards data (data.size - endRecordSize) (overflow16 + 1) with
    | none => .error (.invalid .endRecordMissing)
    | some place => parse data place

end EndRecord

structure Locator where
  disk : Nat
  start : Nat
  deriving DecidableEq, Repr

/-- The locator stands in front of an end record that ends with the data. -/
def Locator.find? (data : Array UInt8) (r : EndRecord) : Option Locator :=
  let fromEnd := locatorSize + endRecordSize + r.commentLength
  if data.size < fromEnd then
    none
  else
    let place := data.size - fromEnd
    if number? data place 4 = some locatorMark then
      match number? data (place + 4) 4, number? data (place + 8) 8 with
      | some disk, some start => some { disk, start }
      | _, _ => none
    else
      none

def findForwards (data : Array UInt8) (place : Nat) : (count : Nat) → Option Nat
  | 0 => none
  | count + 1 =>
      if number? data place 4 = some endRecord64Mark then some place
      else findForwards data (place + 1) count

structure Extent where
  archiveStart : Nat
  directoryStart : Nat
  entries : Nat
  deriving DecidableEq, Repr

namespace Extent

def placeLimit : Nat := UInt64.size

def ofEndRecord (r : EndRecord) : Except ArchiveError Extent :=
  if r.place < r.directorySize + r.directoryStart then
    .error (.invalid .directoryPlace)
  else
    let archiveStart := r.place - r.directorySize - r.directoryStart
    .ok {
      archiveStart
      directoryStart := r.directoryStart + archiveStart
      entries := r.entriesHere }

def ofLocator (data : Array UInt8) (r : EndRecord) (l : Locator) :
    Except ArchiveError Extent := do
  if !r.tooSmall && r.disk != l.disk then
    throw (.unsupported .severalDisks)
  if r.place < 60 then
    throw (.invalid .noRoomForEndRecord64)
  let last := r.place - 60
  match findForwards data l.start (last + 1 - l.start) with
  | none => throw (.invalid .endRecord64Missing)
  | some place =>
      let disk ← number data (place + 16) 4
      let directoryDisk ← number data (place + 20) 4
      let entries ← number data (place + 32) 8
      let start ← number data (place + 48) 8
      if disk != directoryDisk then
        throw (.unsupported .severalDisks)
      let archiveStart := place - l.start
      if start + archiveStart ≥ placeLimit then
        throw (.invalid .directoryPlace)
      return { archiveStart, directoryStart := start + archiveStart, entries }

def find (data : Array UInt8) : Except ArchiveError Extent := do
  let r ← EndRecord.find data
  if !r.tooSmall && r.disk != r.directoryDisk then
    throw (.unsupported .severalDisks)
  match Locator.find? data r with
  | none => ofEndRecord r
  | some l => ofLocator data r l

end Extent

end Chip8VM.Zip
