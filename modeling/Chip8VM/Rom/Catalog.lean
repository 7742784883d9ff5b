import Chip8VM.Rom

/-!
Programs out of a catalog, of which nothing is known but that an entry is found by its
name, declares a size, and can be read.

Room for the declared size is reserved before the entry is read.
-/

namespace Chip8VM

structure Catalog (ε : Type) where
  find : String → Except ArchiveError ε
  size : ε → Nat
  read : ε → Except ReadError (List UInt8)

namespace Catalog

inductive Failure where
  | load (cause : LoadError)
  /-- No room can be reserved for the declared size, and nothing can go on. -/
  | unreservable (size : Nat)
  deriving DecidableEq, Repr

def reserveLimit : Nat := UInt64.size / 2 - 1

def extract {ε : Type} (c : Catalog ε) (name : String) : Except Failure Rom :=
  match c.find name with
  | .error cause => .error (.load (.archive cause))
  | .ok entry =>
      if c.size entry > reserveLimit then
        .error (.unreservable (c.size entry))
      else
        match c.read entry with
        | .error cause => .error (.load (.read cause))
        | .ok bytes => .ok { name, bytes }

end Catalog

end Chip8VM
