import Chip8VM.Rom

/-!
Programs out of files.

The files are a tree. A path is walked name by name from the top of the tree: each
name must stand in a directory, `.` and empty names stay where they are, `..` goes
back. Paths that do not start with a slash are lengthened to start at the top.
-/

namespace Chip8VM

inductive Disk where
  | file (bytes : List UInt8)
  | directory (entries : List (String × Disk))

namespace Disk

abbrev Place := List String

def nameLimit : Nat := 255

def pathLimit : Nat := 4095

/-! ## Places -/

def get? (disk : Disk) : (names : List String) → Option Disk
  | [] => some disk
  | name :: names =>
      match disk with
      | .file _ => none
      | .directory entries =>
          match entries.lookup name with
          | none => none
          | some next => next.get? names

def find? (top : Disk) (place : Place) : Option Disk := top.get? place.reverse

def put (bytes : List UInt8) (disk : Disk) : (names : List String) → Disk
  | [] => .file bytes
  | name :: names =>
      match disk with
      | .file _ => disk
      | .directory entries =>
          let old := (entries.lookup name).getD (.directory [])
          .directory ((name, old.put bytes names)
            :: entries.filter fun entry => entry.1 != name)

/-! ## Paths -/

def staysHere (name : String) : Bool := name == "" || name == "."

def enter (top : Disk) (place : Place) (name : String) : Except ReadError Place :=
  match top.find? place with
  | none => .error .notFound
  | some (.file _) => .error .notDirectory
  | some (.directory entries) =>
      if staysHere name then .ok place
      else if name = ".." then .ok place.tail
      else if name.utf8ByteSize > nameLimit then .error .nameTooLong
      else if (entries.lookup name).isSome then .ok (name :: place)
      else .error .notFound

def fromTop (here : Place) (path : String) : String :=
  if path.startsWith "/" then path else "/" ++ "/".intercalate (here.reverse ++ [path])

/-- The names of a path that is no longer than a path can be and has no zero byte. -/
def namesOf (path : String) : Except ReadError (List String) :=
  if path.any (· == '\x00') then .error .zeroInPath
  else if path.utf8ByteSize > pathLimit then .error .nameTooLong
  else .ok (path.splitOn "/")

def walk (top : Disk) (names : List String) : Except ReadError Place :=
  names.foldlM top.enter []

/-! ## Reading and writing -/

def readRom (top : Disk) (here : Place) (path : String) : Except LoadError Rom :=
  match namesOf (fromTop here path) >>= top.walk with
  | .error cause => .error (.read cause)
  | .ok place =>
      match top.find? place with
      | some (.file bytes) => .ok { name := place.headD "", bytes }
      | _ => .error (.read .isDirectory)

def write (top : Disk) (here : Place) (path : String) (bytes : List UInt8) :
    Except ReadError Disk := do
  let names ← namesOf (fromTop here path)
  let place ← top.walk names.dropLast
  let name := names.getLastD ""
  match top.enter place name with
  | .error .notFound => return top.put bytes (name :: place).reverse
  | .error cause => throw cause
  | .ok found =>
      match top.find? found with
      | some (.file _) => return top.put bytes found.reverse
      | _ => throw .isDirectory

end Disk

end Chip8VM
