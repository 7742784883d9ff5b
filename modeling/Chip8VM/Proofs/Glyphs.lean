import Chip8VM.Proofs.Drawing
import Chip8VM.Proofs.Footprint
import Chip8VM.Proofs.Reload

/-!
# The font

Programs are loaded behind the font, and a store never wraps around the end of
memory, so the font stays intact until a store is aimed at it.  As long as it does, a
digit that is looked up and drawn on a blank screen shows its glyph and nothing else.
-/

namespace Chip8VM

/-- The screen shows the five bytes of a digit at `(x, y)`, around the edges, and nothing else;
the highest bit of a byte is its leftmost pixel. -/
def Screen.ShowsGlyph (s : Screen) (digit x y : Nat) : Prop :=
  ∀ u v, s.get u v = true ↔
    ∃ row < 5, ∃ column < 8,
      (Font.bytes.getD (5 * digit + row) 0).toNat.testBit (7 - column) = true ∧
        u % 64 = (x + column) % 64 ∧ v % 32 = (y + row) % 32

namespace Memory

def HoldsFont (m : Memory) : Prop := m.bytes.take 0x50 = Font.bytes

variable {m m' : Memory}

theorem HoldsFont.getD (h : m.HoldsFont) {k : Nat} (hk : k < 0x50) :
    m.bytes.getD k 0 = Font.bytes.getD k 0 := by
  rw [← h, List.getD_eq_getElem?_getD, List.getD_eq_getElem?_getD, List.getElem?_take_of_lt hk]

theorem getElem?_bytes (m : Memory) (a : Address) : m.bytes[a.val]? = some (m.cells.get a) := by
  rw [bytes, List.getElem?_eq_getElem (by simp)]
  rfl

theorem holdsFont_iff :
    m.HoldsFont ↔ ∀ a : Address, a.val < 0x50 → Font.bytes[a.val]? = some (m.cells.get a) := by
  constructor
  · intro h a ha
    rw [← h, List.getElem?_take_of_lt ha, getElem?_bytes]
  · intro h
    refine List.ext_getElem? fun k => ?_
    rcases Nat.lt_or_ge k 0x50 with hk | hk
    · have hcell := h ⟨k, Nat.lt_trans hk (by decide)⟩ hk
      rw [List.getElem?_take_of_lt hk, hcell]
      exact m.getElem?_bytes ⟨k, Nat.lt_trans hk (by decide)⟩
    · rw [List.getElem?_take_eq_none hk, List.getElem?_eq_none hk]

theorem HoldsFont.frame (h : m.HoldsFont)
    (hcells : ∀ a : Address, a.val < 0x50 → m'.cells.get a = m.cells.get a) : m'.HoldsFont := by
  rw [holdsFont_iff] at h ⊢
  intro a ha
  rw [hcells a ha, h a ha]

theorem holdsFont_initial : initial.HoldsFont := by
  rw [holdsFont_iff]
  intro a ha
  have hlookup : Font.bytes[a.val]? = some Font.bytes[a.val] := List.getElem?_eq_getElem ha
  simp only [initial, get_place, Font.start, Nat.zero_le, if_true, Nat.sub_zero, hlookup,
    Option.getD_some]

theorem HoldsFont.place (h : m.HoldsFont) {address : Nat} (haddress : 0x50 ≤ address)
    (bytes : List UInt8) : HoldsFont ⟨Memory.place m.cells address bytes⟩ :=
  h.frame fun _ ha => Machine.get_place_of_outside (.inl (Nat.lt_of_lt_of_le ha haddress))

end Memory

namespace Machine

/-! ## Steps and runs -/

/-- The next step stores digits or registers, and does so from an address in the font. -/
def StoresLow (m : Machine) : Prop :=
  m.index.toNat < 0x50 ∧ (∃ signal, m.step.2 = .ok signal) ∧
    ∃ word, m.memory.fetch m.pc.toNat = .ok word ∧
      (Word.Fits word 0xF 0x33 ∨ Word.Fits word 0xF 0x55)

theorem holdsFont_step {m : Machine} (h : m.memory.HoldsFont) (hstore : ¬ m.StoresLow) :
    m.step.1.memory.HoldsFont := by
  cases hfetch : m.memory.fetch m.pc.toNat with
  | error e =>
      rw [step_of_fetch_error hfetch]
      exact h
  | ok word =>
      rcases hstep : m.step with ⟨m', result⟩
      cases result with
      | error fault =>
          obtain ⟨rfl, -⟩ := step_eq_error_iff.mp hstep
          simp only [fetched, hfetch]
          exact h
      | ok signal =>
          rcases (within_of_step hfetch hstep).memory with hkept | ⟨length, hblock, -, hother⟩
          · exact hkept ▸ h
          · have hindex : 0x50 ≤ m.index.toNat := by
              refine Nat.le_of_not_lt fun hlow => hstore ⟨hlow, ⟨signal, by rw [hstep]⟩, ?_⟩
              exact ⟨word, hfetch, hblock.imp And.left And.left⟩
            exact h.frame fun a ha => hother a (.inl (Nat.lt_of_lt_of_le ha hindex))

theorem holdsFont_serve {m : Machine} {op : Operation} (h : m.memory.HoldsFont)
    (hstore : op = .step → ¬ m.StoresLow) : (m.serve op).1.memory.HoldsFont := by
  cases op with
  | step => exact holdsFont_step h (hstore rfl)
  | load program =>
      simp only [serve, load, Memory.load]
      cases Memory.checkProgram program with
      | error e => exact h
      | ok _ => exact h.place (by decide) program
  | loadRom rom =>
      rw [serve_loadRom_fst]
      split
      · exact Memory.holdsFont_initial.place (by decide) rom.bytes
      · exact h
  | reset => exact Memory.holdsFont_initial
  | pressKey key =>
      obtain ⟨keys, hserve⟩ := m.serve_pressKey key
      rw [hserve]
      exact h
  | setDelay | setSound | resetTimers | tick => exact h

/-! ## Drawing a digit -/

theorem draw_glyph {m : Machine} (h : m.memory.HoldsFont) (hblank : m.screen = .blank)
    {digit : Nat} (hdigit : digit ≤ 15) (hindex : m.index.toNat = 5 * digit)
    (a b : Register) {rows : Fin 16} (hrows : rows.val = 5) :
    ∃ screen : Screen,
      m.execute (.draw a b rows) = (({ m with screen }.setFlag false).move .next, .ok .drawn) ∧
        screen.ShowsGlyph digit (m.v.get a).toNat (m.v.get b).toNat := by
  have hroom : m.index.toNat + rows.val ≤ memorySize := by
    simp only [memorySize]
    omega
  have hlength := m.sprite_fits rows
  have herased : (Screen.blank.drawRows (m.v.get a).toNat (m.v.get b).toNat
      (m.sprite rows.val)).1 = false := by
    rw [← Bool.not_eq_true, Screen.drawRows_fst _ _ _ hlength]
    simp [Screen.get_blank]
  have hdrawn := execute_draw (x := a) (y := b) hroom
  simp only [hblank, herased] at hdrawn
  have hbit : ∀ row column, m.SpriteSet rows.val row column ↔ row < 5 ∧ column < 8 ∧
      (Font.bytes.getD (5 * digit + row) 0).toNat.testBit (7 - column) = true := by
    intro row column
    rw [SpriteSet, hrows, hindex]
    refine and_congr_right fun hrow => ?_
    rw [h.getD (by omega)]
  refine ⟨_, hdrawn, fun u v => ?_⟩
  rw [Screen.get_drawRows _ _ _ hlength, Screen.get_blank, Bool.false_xor,
    covers_sprite_iff_exists hroom]
  constructor
  · rintro ⟨row, column, hset, hplace⟩
    obtain ⟨hrow, hcolumn, hfont⟩ := (hbit row column).mp hset
    exact ⟨row, hrow, column, hcolumn, hfont, hplace⟩
  · rintro ⟨row, hrow, column, hcolumn, hfont, hplace⟩
    exact ⟨row, column, (hbit row column).mpr ⟨hrow, hcolumn, hfont⟩, hplace⟩

theorem glyph_shown {m : Machine} (h : m.memory.HoldsFont) (hblank : m.screen = .blank)
    {x : Register} (hdigit : (m.v.get x).toNat ≤ 15) (a b : Register) {rows : Fin 16}
    (hrows : rows.val = 5) (word word' : UInt16) :
    let aimed := { m with word }.execute (.misc .glyph x)
    let drawn := { aimed.1 with word := word' }.execute (.draw a b rows)
    aimed.2 = .ok .quiet ∧ drawn.2 = .ok .drawn ∧ drawn.1.v.get flagRegister = 0 ∧
      drawn.1.screen.ShowsGlyph (m.v.get x).toNat (m.v.get a).toNat (m.v.get b).toNat := by
  intro aimed drawn
  have hindex : aimed.1.index.toNat = 5 * (m.v.get x).toNat := by
    have hlookup : aimed.1.index = UInt16.ofNat (0 + 5 * (m.v.get x).toNat) := rfl
    rw [hlookup, Nat.zero_add, UInt16.toNat_ofNat_of_lt' (by simp only [UInt16.size]; omega)]
  obtain ⟨screen, hdrawn, hshows⟩ :=
    draw_glyph (m := { aimed.1 with word := word' }) h hblank hdigit hindex a b hrows
  have hflag : drawn.1.v.get flagRegister = 0 := by
    rw [show drawn = _ from hdrawn]
    exact get_setFlag_self { aimed.1 with word := word', screen } false
  have hscreen : drawn.1.screen = screen := by
    rw [show drawn = _ from hdrawn]
    rfl
  exact ⟨rfl, congrArg Prod.snd hdrawn, hflag, hscreen ▸ hshows⟩

/-- The font stays intact unless digits or registers are stored over it.  On a blank
screen a digit that is looked up and drawn then shows its glyph, erases nothing, and is
found in memory. -/
theorem font_stays_intact (random : RandomStream) {ops : List Operation}
    (hops : (fresh random).Avoids StoresLow ops) :
    let m := (fresh random).after ops
    m.memory.bytes.take 0x50 = Font.bytes ∧
      (m.screen = .blank →
        ∀ (x a b : Register) (rows : Fin 16), (m.v.get x).toNat ≤ 15 → rows.val = 5 →
          ∀ word word' : UInt16,
            let aimed := { m with word }.execute (.misc .glyph x)
            let drawn := { aimed.1 with word := word' }.execute (.draw a b rows)
            aimed.2 = .ok .quiet ∧ drawn.2 = .ok .drawn ∧ drawn.1.v.get flagRegister = 0 ∧
              drawn.1.screen.ShowsGlyph (m.v.get x).toNat (m.v.get a).toNat
                (m.v.get b).toNat) := by
  intro m
  have hfont : m.memory.HoldsFont :=
    hops.induction (Q := fun m => m.memory.HoldsFont)
      (fun _ _ hstore hm => holdsFont_serve hm hstore) Memory.holdsFont_initial
  exact ⟨hfont, fun hblank x a b rows hdigit hrows word word' =>
    glyph_shown hfont hblank hdigit a b hrows word word'⟩

/-- `A050` and `F033` store three digits right behind the font; then the zero is drawn.  It is
a ring, four pixels wide and five high. -/
theorem zero_shown_after_store_behind_font :
    let rom : Rom := ⟨"digits", [0xA0, 0x50, 0xF0, 0x33]⟩
    let ops : List Operation := [.loadRom rom, .step, .step]
    let m := (fresh (.constant 0)).after ops
    let pointed := m.execute (.misc .glyph flagRegister)
    let drawn := pointed.1.execute (.draw flagRegister flagRegister (Word.n 0x5))
    (fresh (.constant 0)).Avoids StoresLow ops ∧ m.screen = .blank ∧
      m.v = Vector.replicate 16 0 ∧ m.memory.bytes.take 0x50 = Font.bytes ∧
      drawn.2 = .ok .drawn ∧
      (∀ u < 4, ∀ v < 5,
        drawn.1.screen.get u v = true ↔ u = 0 ∨ u = 3 ∨ v = 0 ∨ v = 4) ∧
      drawn.1.screen.get 4 0 = false ∧ drawn.1.screen.get 0 5 = false := by
  intro rom ops m pointed drawn
  have hm : (fresh (.constant 0)).after ops = m := rfl
  clear_value m
  let loaded := started rom {} (.constant 0)
  let aimed : Machine := { loaded with word := 0xA050, index := 0x50, pc := 0x202 }
  have hload : ((fresh (.constant 0)).serve (.loadRom rom)).1 = loaded := by
    rw [serve_loadRom_fst, if_pos (by decide)]
    rfl
  have hfirst : loaded.memory.fetch loaded.pc.toNat = .ok 0xA050 :=
    @Memory.fetch_place _ [0xA0, 0x50, 0xF0, 0x33] programStart 0 0xA0 0x50 (by decide) rfl rfl
  have hsecond : aimed.memory.fetch aimed.pc.toNat = .ok 0xF033 :=
    @Memory.fetch_place _ [0xA0, 0x50, 0xF0, 0x33] programStart 2 0xF0 0x33 (by decide) rfl rfl
  have haim : loaded.step.1 = aimed := by
    rw [step_of_fetch hfirst rfl]
    rfl
  have hstore : aimed.step.1.screen = .blank ∧ aimed.step.1.v = Vector.replicate 16 0 := by
    rw [step_of_fetch hsecond rfl]
    exact ⟨rfl, rfl⟩
  have hops : (fresh (.constant 0)).Avoids StoresLow ops := by
    refine ⟨Operation.noConfusion, ?_⟩
    rw [hload]
    refine ⟨fun _ => ?_, ?_⟩
    · rintro ⟨-, -, word, hword, hfits⟩
      obtain rfl : word = 0xA050 := Except.ok.inj (hword.symm.trans hfirst)
      exact absurd hfits (by simp only [Word.Fits]; decide)
    · rw [serve_step, haim]
      exact ⟨fun _ hlow => absurd hlow.1 (by decide), trivial⟩
  obtain ⟨hblank, hv⟩ : m.screen = .blank ∧ m.v = Vector.replicate 16 0 := by
    rw [← hm, after_cons, hload, after_cons, serve_step, haim]
    simpa using hstore
  have hintact := font_stays_intact (.constant 0) hops
  rw [hm] at hintact
  obtain ⟨hfont, hshown⟩ := hintact
  have hzero : m.v.get flagRegister = 0 := by
    rw [hv]
    rfl
  have hglyph := hshown hblank flagRegister flagRegister flagRegister (Word.n 0x5)
    (by rw [hzero]; decide) rfl m.word pointed.1.word
  rw [hzero] at hglyph
  obtain ⟨-, hdrawn, -, hring⟩ := hglyph
  refine ⟨hops, hblank, hv, hfont, hdrawn, fun u hu v hv => (hring u v).trans ?_, ?_, ?_⟩
  · revert hv v hu u
    decide
  · exact Bool.eq_false_iff.mpr fun hlit => absurd ((hring 4 0).mp hlit) (by decide)
  · exact Bool.eq_false_iff.mpr fun hlit => absurd ((hring 0 5).mp hlit) (by decide)

end Machine

end Chip8VM
