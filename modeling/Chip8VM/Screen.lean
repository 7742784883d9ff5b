/-!
The screen: 64 by 32 pixels, each on or off.

Coordinates may be any numbers, they wrap around at the edges.
-/

namespace Chip8VM

abbrev screenWidth : Nat := 64

abbrev screenHeight : Nat := 32

structure Screen where
  rows : Vector (Vector Bool screenWidth) screenHeight
  deriving DecidableEq

namespace Screen

def blank : Screen := ⟨Vector.replicate screenHeight (Vector.replicate screenWidth false)⟩

def get (s : Screen) (x y : Nat) : Bool :=
  have hy : y % screenHeight < screenHeight := Nat.mod_lt y (by decide)
  have hx : x % screenWidth < screenWidth := Nat.mod_lt x (by decide)
  s.rows[y % screenHeight][x % screenWidth]

/-- Flips a pixel. The answer is whether it was on before, so whether it got erased. -/
def toggle (s : Screen) (x y : Nat) : Bool × Screen :=
  have hy : y % screenHeight < screenHeight := Nat.mod_lt y (by decide)
  have hx : x % screenWidth < screenWidth := Nat.mod_lt x (by decide)
  let row := s.rows[y % screenHeight]
  let was := row[x % screenWidth]
  (was, ⟨s.rows.set (y % screenHeight) (row.set (x % screenWidth) (!was))⟩)

def isBlank (s : Screen) : Bool :=
  s.rows.all fun row => row.all fun pixel => !pixel

def litCount (s : Screen) : Nat :=
  s.rows.toList.foldl (fun sum row => sum + row.toList.countP id) 0

/-! ## Pixels -/

theorem toggle_fst (s : Screen) (x y : Nat) : (s.toggle x y).1 = s.get x y := rfl

theorem get_toggle (s : Screen) (x y u v : Nat) :
    (s.toggle x y).2.get u v =
      if u % screenWidth = x % screenWidth ∧ v % screenHeight = y % screenHeight then !s.get x y
      else s.get u v := by
  simp only [toggle, get, Vector.getElem_set]
  by_cases hv : y % screenHeight = v % screenHeight <;>
    by_cases hu : x % screenWidth = u % screenWidth <;> simp [hv, hu, eq_comm]

theorem get_blank (x y : Nat) : blank.get x y = false := by
  simp [blank, get]

theorem ext_get {s t : Screen} (h : ∀ x y, s.get x y = t.get x y) : s = t := by
  obtain ⟨s⟩ := s
  obtain ⟨t⟩ := t
  congr 1
  ext y hy x hx
  have := h x y
  simpa [get, Nat.mod_eq_of_lt hx, Nat.mod_eq_of_lt hy] using this

theorem isBlank_iff (s : Screen) : s.isBlank = true ↔ ∀ x y, s.get x y = false := by
  simp only [isBlank, get, Vector.all_eq_true]
  constructor
  · intro h x y
    simpa using h (y % screenHeight) (Nat.mod_lt _ (by decide)) (x % screenWidth)
      (Nat.mod_lt _ (by decide))
  · intro h y hy x hx
    have := h x y
    simpa [Nat.mod_eq_of_lt hx, Nat.mod_eq_of_lt hy] using this

/-! ## Sprites -/

/-- Whether the pixel `column` of a sprite row is set; the leftmost pixel is the most
significant of the eight bits. -/
def spriteBit (byte : UInt8) (column : Nat) : Bool := byte.toNat.testBit (7 - column)

def drawBits (s : Screen) (x y : Nat) (byte : UInt8) : Nat → Bool × Screen
  | 0 => (false, s)
  | count + 1 =>
      let (erased, s) := s.drawBits x y byte count
      if spriteBit byte count then
        let (was, s) := s.toggle (x + count) y
        (erased || was, s)
      else
        (erased, s)

def drawRows (s : Screen) (x y : Nat) : List UInt8 → Bool × Screen
  | [] => (false, s)
  | byte :: rest =>
      let (erased, s) := s.drawBits x y byte 8
      let (more, s) := s.drawRows x (y + 1) rest
      (erased || more, s)

end Screen

end Chip8VM
