/-!
Random bytes: an endless stream, and how many of its bytes have been drawn.
-/

namespace Chip8VM

structure RandomStream where
  byte : Nat → UInt8
  drawn : Nat := 0

namespace RandomStream

def draw (r : RandomStream) : UInt8 × RandomStream :=
  (r.byte r.drawn, { r with drawn := r.drawn + 1 })

def constant (byte : UInt8) : RandomStream := { byte := fun _ => byte }

/-- The low bytes of `initial`, `initial + increment`, `initial + 2 * increment`, …, where
the sums wrap around at 64 bits. -/
def stepping (initial increment : UInt64) : RandomStream :=
  { byte := fun k => (initial + UInt64.ofNat k * increment).toUInt8 }

end RandomStream

end Chip8VM
