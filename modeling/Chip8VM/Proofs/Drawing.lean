import Chip8VM.Machine.Execute
import Chip8VM.Proofs.Access
import Chip8VM.Proofs.Sprites

/-!
# The drawing instruction

`DXYN` draws the `N` bytes from `I` on at the coordinates in `VX` and `VY`, as they
are before the flag is written.
-/

namespace Chip8VM.Machine

def sprite (m : Machine) (rows : Nat) : List UInt8 :=
  (m.memory.bytes.drop m.index.toNat).take rows

theorem length_sprite_le (m : Machine) (rows : Nat) : (m.sprite rows).length ≤ rows :=
  List.length_take_le rows _

theorem sprite_fits (m : Machine) (rows : Fin 16) : (m.sprite rows.val).length ≤ screenHeight :=
  Nat.le_trans (m.length_sprite_le rows.val)
    (Nat.le_of_lt (Nat.lt_trans rows.isLt (by decide)))

variable {m : Machine}

theorem getElem?_sprite {rows : Nat} (h : m.index.toNat + rows ≤ memorySize) (row : Nat) :
    (m.sprite rows)[row]? =
      if row < rows then some (m.memory.bytes.getD (m.index.toNat + row) 0) else none := by
  rw [sprite, List.getElem?_take, List.getElem?_drop, List.getD_eq_getElem?_getD]
  split
  case isTrue hrow =>
      have hcell : m.index.toNat + row < m.memory.bytes.length := by
        simp only [Memory.bytes, Vector.length_toList]
        exact Nat.lt_of_lt_of_le (Nat.add_lt_add_left hrow _) h
      rw [List.getElem?_eq_getElem hcell, Option.getD_some]
  case isFalse => rfl

theorem execute_draw {x y : Register} {rows : Fin 16}
    (h : m.index.toNat + rows.val ≤ memorySize) :
    let drawn :=
      m.screen.drawRows (m.v.get x).toNat (m.v.get y).toNat (m.sprite rows.val)
    m.execute (.draw x y rows) =
      (({ m with screen := drawn.2 }.setFlag drawn.1).move .next, .ok .drawn) := by
  intro drawn
  have hread : m.memory.read m.index.toNat rows.val = .ok (m.sprite rows.val) :=
    m.memory.read_of_le h
  have hperform : m.perform (.draw x y rows) =
      ({ m with screen := drawn.2 }.setFlag drawn.1, .ok { signal := .drawn }) := by
    simp only [perform, draw, hread]
    rfl
  exact execute_of_ok hperform

/-- A bit of the sprite at `I` is set; the leftmost column is the highest bit. -/
def SpriteSet (m : Machine) (rows row column : Nat) : Prop :=
  row < rows ∧ column < 8 ∧
    (m.memory.bytes.getD (m.index.toNat + row) 0).toNat.testBit (7 - column) = true

instance (m : Machine) (rows row column : Nat) : Decidable (m.SpriteSet rows row column) :=
  inferInstanceAs (Decidable (_ ∧ _ ∧ _))

theorem spriteSet_iff {rows : Nat} (h : m.index.toNat + rows ≤ memorySize) (row column : Nat) :
    m.SpriteSet rows row column ↔
      ∃ byte, (m.sprite rows)[row]? = some byte ∧ column < 8 ∧
        Screen.spriteBit byte column = true := by
  simp only [SpriteSet, getElem?_sprite h, Screen.spriteBit]
  by_cases hrow : row < rows <;> simp [hrow]

theorem covers_sprite {rows : Nat} (h : m.index.toNat + rows ≤ memorySize) (cx cy u v : Nat) :
    Screen.covers cx cy (m.sprite rows) u v = true ↔
      m.SpriteSet rows (((v : Int) - cy) % 32).toNat (((u : Int) - cx) % 64).toNat := by
  have hrow : ringDistance screenHeight cy v = (((v : Int) - cy) % 32).toNat :=
    ringDistance_eq_toNat_emod (by decide) cy v
  have hcolumn : ringDistance screenWidth cx u = (((u : Int) - cx) % 64).toNat :=
    ringDistance_eq_toNat_emod (by decide) cx u
  simp only [← hrow, ← hcolumn, spriteSet_iff h, Screen.covers, Screen.rowCovers,
    Option.any_eq_true, Bool.and_eq_true, decide_eq_true_eq]

theorem covers_sprite_iff_exists {rows : Fin 16} (h : m.index.toNat + rows.val ≤ memorySize)
    (cx cy u v : Nat) :
    Screen.covers cx cy (m.sprite rows.val) u v = true ↔
      ∃ row column, m.SpriteSet rows.val row column ∧
        u % screenWidth = (cx + column) % screenWidth ∧
        v % screenHeight = (cy + row) % screenHeight := by
  rw [Screen.covers_iff (m.sprite_fits rows)]
  simp only [spriteSet_iff h]
  constructor
  · rintro ⟨row, column, byte, hbyte, hcolumn, hbit, hplace⟩
    exact ⟨row, column, ⟨byte, hbyte, hcolumn, hbit⟩, hplace⟩
  · rintro ⟨row, column, ⟨byte, hbyte, hcolumn, hbit⟩, hplace⟩
    exact ⟨row, column, byte, hbyte, hcolumn, hbit, hplace⟩

theorem erased_iff {rows : Fin 16} (h : m.index.toNat + rows.val ≤ memorySize) (s : Screen)
    (cx cy : Nat) :
    (s.drawRows cx cy (m.sprite rows.val)).1 = true ↔
      ∃ row column, m.SpriteSet rows.val row column ∧
        s.get (cx + column) (cy + row) = true := by
  rw [s.drawRows_fst cx cy (m.sprite_fits rows)]
  simp only [spriteSet_iff h]
  constructor
  · rintro ⟨row, column, byte, hbyte, hcolumn, hbit, hlit⟩
    exact ⟨row, column, ⟨byte, hbyte, hcolumn, hbit⟩, hlit⟩
  · rintro ⟨row, column, ⟨byte, hbyte, hcolumn, hbit⟩, hlit⟩
    exact ⟨row, column, byte, hbyte, hcolumn, hbit, hlit⟩

/-- A drawing flips the pixels under its set bits, each of them once, and the flag tells
whether one of these was on. -/
theorem drawing_flips_exactly {m : Machine} {rows : Fin 16}
    (h : m.index.toNat + rows.val ≤ memorySize) (x y : Register) :
    let cx := (m.v.get x).toNat
    let cy := (m.v.get y).toNat
    let dx (px : Nat) := (((px : Int) - cx) % 64).toNat
    let dy (py : Nat) := (((py : Int) - cy) % 32).toNat
    let flipped (px py : Nat) := m.SpriteSet rows.val (dy py) (dx px)
    let places := Screen.flips cx cy (m.sprite rows.val)
    ∃ m', m.execute (.draw x y rows) = (m', .ok .drawn) ∧
      (∀ px < 64, ∀ py < 32,
        (flipped px py → m'.screen.get px py = !m.screen.get px py) ∧
        (¬ flipped px py → m'.screen.get px py = m.screen.get px py)) ∧
      ((∃ px < 64, ∃ py < 32, flipped px py ∧ m.screen.get px py = true) →
        m'.v.get flagRegister = 1) ∧
      ((∀ px < 64, ∀ py < 32, flipped px py → m.screen.get px py = false) →
        m'.v.get flagRegister = 0) ∧
      m.screen.drawRows cx cy (m.sprite rows.val) = m.screen.toggleAll places ∧
      m'.screen = (m.screen.toggleAll places).2 ∧
      (∀ px < 64, ∀ py < 32, (px, py) ∈ places.map Screen.wrap ↔ flipped px py) ∧
      (places.map Screen.wrap).Nodup := by
  intro cx cy dx dy flipped places
  have hcovers : ∀ px py,
      Screen.covers cx cy (m.sprite rows.val) px py = true ↔ flipped px py :=
    covers_sprite h cx cy
  have hlength := m.sprite_fits rows
  have hget := Screen.get_drawRows m.screen cx cy hlength
  have herased := m.screen.drawRows_fst_iff_covers cx cy hlength
  refine ⟨_, execute_draw h, fun px _ py _ => ⟨fun hflip => ?_, fun hkeep => ?_⟩,
    fun hlit => ?_, fun hdark => ?_, Screen.drawRows_eq_toggleAll _ _ _ _, ?_,
    fun px hpx py hpy => ?_, Screen.nodup_flips cx cy hlength⟩
  · refine (hget px py).trans ?_
    rw [(hcovers px py).mpr hflip, Bool.xor_true]
  · refine (hget px py).trans ?_
    rw [Bool.eq_false_iff.mpr (mt (hcovers px py).mp hkeep), Bool.xor_false]
  · obtain ⟨px, hpx, py, hpy, hflip, hon⟩ := hlit
    have hset := herased.mpr ⟨px, hpx, py, hpy, (hcovers px py).mpr hflip, hon⟩
    exact (get_setFlag_self _ _).trans (if_pos hset)
  · refine (get_setFlag_self _ _).trans (if_neg fun hset => ?_)
    obtain ⟨px, hpx, py, hpy, hcovered, hon⟩ := herased.mp hset
    rw [hdark px hpx py hpy ((hcovers px py).mp hcovered)] at hon
    cases hon
  · rw [← Screen.drawRows_eq_toggleAll]
    rfl
  · have hmem := @Screen.mem_wrap_flips cx cy _ hlength px py
    rw [Nat.mod_eq_of_lt hpx, Nat.mod_eq_of_lt hpy] at hmem
    exact hmem.trans (hcovers px py)

/-- `D0F5` draws a zero at `(62, 30)`; the row comes from the flag register. -/
theorem zero_drawn_around_corner :
    let m := ((fresh (.constant 0)).setRegister (Word.x 0xD0F5) 62).setRegister flagRegister 30
    m.index.toNat + (Word.n 0xD0F5).val ≤ memorySize ∧
      ∃ m', m.execute (.draw (Word.x 0xD0F5) flagRegister (Word.n 0xD0F5)) = (m', .ok .drawn) ∧
        m'.screen.get 1 30 = true ∧ m'.screen.get 62 2 = true ∧
        m'.screen.get 2 30 = false ∧ m'.v.get flagRegister = 0 := by
  intro m
  have hroom : m.index.toNat + (Word.n 0xD0F5).val ≤ memorySize := by decide
  obtain ⟨m', hexecute, hpixels, -, hdark, -⟩ :=
    drawing_flips_exactly hroom (Word.x 0xD0F5) flagRegister
  refine ⟨hroom, m', hexecute, ?_, ?_, ?_, hdark fun px _ py _ _ => Screen.get_blank px py⟩
  · exact (hpixels 1 (by decide) 30 (by decide)).1 (by decide +kernel)
  · exact (hpixels 62 (by decide) 2 (by decide)).1 (by decide +kernel)
  · exact (hpixels 2 (by decide) 30 (by decide)).2 (by decide +kernel)

end Chip8VM.Machine
