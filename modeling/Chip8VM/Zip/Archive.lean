import Chip8VM.Rom.Catalog
import Chip8VM.Zip.Crc32
import Chip8VM.Zip.Entry
import Chip8VM.Zip.Inflate

/-!
Programs out of ZIP archives, whose entries are stored as they are or deflated.

`Archive.find` tells whether an entry can be read at all, `Source.read` reads its
data. Together they are a catalog, but `Archive.extract` breaks off if the data need a
password.
-/

namespace Chip8VM.Zip

structure Archive where
  data : Array UInt8
  entries : List Entry
  deriving DecidableEq

structure Source where
  deflated : Bool
  crc : Nat
  size : Nat
  /-- Whether the data are said to be encrypted, although the entry is not marked so. -/
  aes : Bool
  bytes : List UInt8
  deriving DecidableEq, Repr

namespace Source

def storedMethod : Nat := 0

def deflatedMethod : Nat := 8

def read (s : Source) : Except ReadError (List UInt8) :=
  match if s.deflated then inflate s.bytes else .ok s.bytes with
  | .error cause => .error cause
  | .ok bytes =>
      if (Crc32.checksum bytes).toNat = s.crc then .ok bytes else .error .wrongChecksum

end Source

/-- Why no program came out of an archive. After all but the first of these nothing can go
on. -/
inductive ExtractError where
  | load (cause : LoadError)
  | passwordMissing
  | unreservable (size : Nat)
  deriving DecidableEq, Repr

def ExtractError.ofFailure : Catalog.Failure → ExtractError
  | .load cause => .load cause
  | .unreservable size => .unreservable size

namespace Archive

def ofData (data : Array UInt8) : Except LoadError Archive :=
  match directory data with
  | .error cause => .error (.archive cause)
  | .ok entries => .ok { data, entries }

def names (a : Archive) : List String :=
  (a.entries.map Entry.name).eraseDups.mergeSort fun s t => decide (s ≤ t)

/-- The entry of a name; of several, the last one. -/
def entry? (a : Archive) (name : String) : Option Entry :=
  a.entries.reverse.find? fun e => e.name == name

def localMark : Nat := 0x04034b50

def localSize : Nat := 30

def dataStart (a : Archive) (e : Entry) : Except ArchiveError Nat := do
  let found ← number a.data e.headerStart 4
  if found ≠ localMark then
    throw (.invalid .localHeader)
  let nameLength ← number a.data (e.headerStart + 26) 2
  let fieldsLength ← number a.data (e.headerStart + 28) 2
  return e.headerStart + localSize + nameLength + fieldsLength

def find (a : Archive) (name : String) : Except ArchiveError Source :=
  match a.entry? name with
  | none => .error .entryNotFound
  | some e =>
      if e.encrypted then
        .error (.unsupported .encryption)
      else
        match a.dataStart e with
        | .error cause => .error cause
        | .ok start =>
            if e.method ≠ Source.storedMethod ∧ e.method ≠ Source.deflatedMethod then
              .error (.unsupported .compression)
            else
              .ok {
                deflated := e.method = Source.deflatedMethod
                crc := e.crc
                size := e.size
                aes := e.aes
                bytes := (a.data.extract start (start + e.compressedSize)).toList }

def catalog (a : Archive) : Catalog Source where
  find := a.find
  size := Source.size
  read := Source.read

theorem catalog_find (a : Archive) : a.catalog.find = a.find := rfl

def extract (a : Archive) (name : String) : Except ExtractError Rom :=
  if (a.find name).toOption.any Source.aes then
    .error .passwordMissing
  else
    (a.catalog.extract name).mapError .ofFailure

end Archive

end Chip8VM.Zip
