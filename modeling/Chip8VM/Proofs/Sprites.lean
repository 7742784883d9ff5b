import Chip8VM.Screen

/-!
# Sprites

A sprite covers the pixels under its set bits, around the edges of the screen.  It has
at most as many rows and columns as the screen, so no pixel lies under two of its bits:
a drawing flips each covered pixel once, and a pixel is erased if it was on before.
-/

namespace Chip8VM

/-- How far a place lies behind the start on a ring. -/
def ringDistance (size start place : Nat) : Nat := (place + (size - start % size)) % size

theorem mod_of_lt_double {n size : Nat} (h : n < size + size) :
    n % size = if n < size then n else n - size := by
  split
  case isTrue hlt => exact Nat.mod_eq_of_lt hlt
  case isFalse hge =>
      rw [Nat.mod_eq_sub_mod (Nat.le_of_not_lt hge)]
      exact Nat.mod_eq_of_lt (by omega)

theorem ringDistance_eq_iff {size start place distance : Nat} (h : distance < size) :
    ringDistance size start place = distance ↔ place % size = (start + distance) % size := by
  have hsize : 0 < size := Nat.zero_lt_of_lt h
  have hstart := Nat.mod_lt start hsize
  have hplace := Nat.mod_lt place hsize
  rw [ringDistance, ← Nat.mod_add_mod, ← Nat.mod_add_mod start]
  rw [mod_of_lt_double (n := place % size + (size - start % size)) (by omega),
    mod_of_lt_double (n := start % size + distance) (by omega)]
  split <;> split <;> omega

theorem ringDistance_lt {size : Nat} (h : 0 < size) (start place : Nat) :
    ringDistance size start place < size := Nat.mod_lt _ h

theorem ring_add_inj {size start a b : Nat} (ha : a < size) (hb : b < size)
    (h : (start + a) % size = (start + b) % size) : a = b :=
  ((ringDistance_eq_iff ha).mpr rfl).symm.trans ((ringDistance_eq_iff hb).mpr h)

theorem ringDistance_of_mod_eq {size start place : Nat} (h : 0 < size)
    (hsame : place % size = start % size) : ringDistance size start place = 0 :=
  (ringDistance_eq_iff h).mpr hsame

theorem ringDistance_succ_of_mod_eq {size start place : Nat} (h : 0 < size)
    (hsame : place % size = start % size) :
    ringDistance size (start + 1) place = size - 1 := by
  have hround : start + 1 + (size - 1) = start + size := by omega
  rw [ringDistance_eq_iff (Nat.sub_one_lt_of_lt h), hround, Nat.add_mod_right, hsame]

theorem ringDistance_succ_of_mod_ne {size start place : Nat} (h : 0 < size)
    (hother : place % size ≠ start % size) :
    ringDistance size start place = ringDistance size (start + 1) place + 1 := by
  have hplace := (ringDistance_eq_iff (ringDistance_lt h (start + 1) place)).mp rfl
  have hlt : ringDistance size (start + 1) place + 1 < size := by
    refine Nat.lt_of_le_of_ne (ringDistance_lt h (start + 1) place) fun hround => hother ?_
    rw [hplace, Nat.add_assoc, Nat.add_comm 1, hround, Nat.add_mod_right]
  rw [ringDistance_eq_iff hlt, hplace, Nat.add_assoc, Nat.add_comm 1]

theorem ringDistance_eq_toNat_emod {size : Nat} (h : 0 < size) (start place : Nat) :
    ringDistance size start place = (((place : Int) - start) % size).toNat := by
  have hstart : start % size ≤ size := Nat.le_of_lt (Nat.mod_lt start h)
  have hcast : (ringDistance size start place : Int) = ((place : Int) - start) % size := by
    have hround : (place : Int) + (size - start % size) = place - start % size + size := by
      omega
    rw [ringDistance, Int.natCast_emod, Int.natCast_add, Int.natCast_sub hstart,
      Int.natCast_emod, hround, Int.add_emod_right, Int.sub_emod, Int.emod_emod,
      ← Int.sub_emod]
  rw [← hcast, Int.toNat_natCast]

namespace Screen

theorem get_toggle_xor (s : Screen) (x y u v : Nat) :
    (s.toggle x y).2.get u v =
      (s.get u v ^^
        decide (u % screenWidth = x % screenWidth ∧ v % screenHeight = y % screenHeight)) := by
  rw [get_toggle]
  split
  case isTrue hsame =>
      have hget : s.get x y = s.get u v := by simp only [get, hsame.1, hsame.2]
      simp [hget, hsame]
  case isFalse hother => simp [hother]

/-! ## Rows -/

def rowCovers (x : Nat) (byte : UInt8) (count u : Nat) : Bool :=
  ringDistance screenWidth x u < count && spriteBit byte (ringDistance screenWidth x u)

theorem rowCovers_succ {x u count : Nat} (byte : UInt8) (h : count < screenWidth) :
    rowCovers x byte (count + 1) u =
      (rowCovers x byte count u ^^
        (spriteBit byte count && decide (u % screenWidth = (x + count) % screenWidth))) := by
  simp only [rowCovers, ← ringDistance_eq_iff h]
  by_cases hlast : ringDistance screenWidth x u = count
  · simp [hlast]
  · have hless : ringDistance screenWidth x u < count + 1 ↔
        ringDistance screenWidth x u < count := by omega
    simp [hlast, hless]

theorem get_drawBits (s : Screen) (x y : Nat) (byte : UInt8) {count : Nat}
    (h : count ≤ screenWidth) (u v : Nat) :
    (s.drawBits x y byte count).2.get u v =
      (s.get u v ^^
        (decide (v % screenHeight = y % screenHeight) && rowCovers x byte count u)) := by
  induction count with
  | zero => simp [drawBits, rowCovers]
  | succ count ih =>
      have hrest := ih (Nat.le_of_succ_le h)
      rw [rowCovers_succ byte h]
      cases hbit : spriteBit byte count with
      | false => simp [drawBits, hbit, hrest]
      | true =>
          simp only [drawBits, hbit, if_true, get_toggle_xor, hrest, Bool.true_and,
            Bool.decide_and, Bool.and_xor_distrib_left, Bool.xor_assoc, Bool.and_comm]

theorem drawBits_fst (s : Screen) (x y : Nat) (byte : UInt8) {count : Nat}
    (h : count ≤ screenWidth) :
    (s.drawBits x y byte count).1 = true ↔
      ∃ column < count, spriteBit byte column = true ∧ s.get (x + column) y = true := by
  induction count with
  | zero => simp [drawBits]
  | succ count ih =>
      have hrest := ih (Nat.le_of_succ_le h)
      have hpixel : (s.drawBits x y byte count).2.get (x + count) y = s.get (x + count) y := by
        have hdistance : ringDistance screenWidth x (x + count) = count :=
          (ringDistance_eq_iff h).mpr rfl
        simp [get_drawBits s x y byte (Nat.le_of_succ_le h), rowCovers, hdistance]
      rw [Nat.exists_lt_succ_right, ← hrest]
      cases hbit : spriteBit byte count with
      | false => simp [drawBits, hbit]
      | true => simp [drawBits, hbit, toggle_fst, hpixel]

/-! ## Sprites -/

def covers (x y : Nat) (sprite : List UInt8) (u v : Nat) : Bool :=
  (sprite[ringDistance screenHeight y v]?).any fun byte => rowCovers x byte 8 u

theorem covers_cons {x y : Nat} (byte : UInt8) (rest : List UInt8) (u v : Nat)
    (h : rest.length < screenHeight) :
    covers x y (byte :: rest) u v =
      ((decide (v % screenHeight = y % screenHeight) && rowCovers x byte 8 u) ^^
        covers x (y + 1) rest u v) := by
  by_cases hfirst : v % screenHeight = y % screenHeight
  · have hzero : ringDistance screenHeight y v = 0 := ringDistance_of_mod_eq (by decide) hfirst
    have hlast : ringDistance screenHeight (y + 1) v = screenHeight - 1 :=
      ringDistance_succ_of_mod_eq (by decide) hfirst
    have hnone : rest[screenHeight - 1]? = none := List.getElem?_eq_none (Nat.le_pred_of_lt h)
    simp only [covers, hzero, hlast, hnone, hfirst]
    simp
  · have hnext : ringDistance screenHeight y v = ringDistance screenHeight (y + 1) v + 1 :=
      ringDistance_succ_of_mod_ne (by decide) hfirst
    simp [covers, hnext, hfirst]

theorem get_drawRows (s : Screen) (x y : Nat) {sprite : List UInt8}
    (h : sprite.length ≤ screenHeight) (u v : Nat) :
    (s.drawRows x y sprite).2.get u v = (s.get u v ^^ covers x y sprite u v) := by
  induction sprite generalizing s y with
  | nil => simp [drawRows, covers]
  | cons byte rest ih =>
      have hrest := ih (s.drawBits x y byte 8).2 (y + 1) (Nat.le_of_succ_le h)
      rw [covers_cons byte rest u v h, ← Bool.xor_assoc, ← get_drawBits s x y byte (by decide)]
      exact hrest

theorem drawRows_fst (s : Screen) (x y : Nat) {sprite : List UInt8}
    (h : sprite.length ≤ screenHeight) :
    (s.drawRows x y sprite).1 = true ↔
      ∃ row column byte, sprite[row]? = some byte ∧ column < 8 ∧
        spriteBit byte column = true ∧ s.get (x + column) (y + row) = true := by
  induction sprite generalizing s y with
  | nil => simp [drawRows]
  | cons byte rest ih =>
      have hfirst := s.drawBits_fst x y byte (show 8 ≤ screenWidth by decide)
      have hrest := ih (s.drawBits x y byte 8).2 (y + 1) (Nat.le_of_succ_le h)
      have hkept : ∀ row column, row < rest.length →
          (s.drawBits x y byte 8).2.get (x + column) (y + 1 + row) =
            s.get (x + column) (y + (row + 1)) := by
        intro row column hrow
        have hlength : rest.length < screenHeight := h
        have hsame : y + 1 + row = y + (row + 1) := by omega
        have hbelow : ¬ (y + (row + 1)) % screenHeight = y % screenHeight := fun hround =>
          absurd (ring_add_inj (b := 0) (by omega) (by decide) hround) (Nat.succ_ne_zero row)
        rw [hsame, get_drawBits s x y byte (by decide)]
        simp [hbelow]
      have hor : (s.drawRows x y (byte :: rest)).1 =
          ((s.drawBits x y byte 8).1 || ((s.drawBits x y byte 8).2.drawRows x (y + 1) rest).1) :=
        rfl
      rw [hor, Bool.or_eq_true, hfirst, hrest]
      refine Iff.trans (or_congr ?_ ?_) Nat.or_exists_add_one
      · simp
      · refine exists_congr fun row => exists_congr fun column => exists_congr fun other => ?_
        rw [List.getElem?_cons_succ]
        refine and_congr_right fun hother => ?_
        rw [hkept row column (List.getElem?_eq_some_iff.mp hother).1]

theorem covers_iff {x y : Nat} {sprite : List UInt8} (h : sprite.length ≤ screenHeight)
    (u v : Nat) :
    covers x y sprite u v = true ↔
      ∃ row column byte, sprite[row]? = some byte ∧ column < 8 ∧
        spriteBit byte column = true ∧ u % screenWidth = (x + column) % screenWidth ∧
        v % screenHeight = (y + row) % screenHeight := by
  constructor
  · intro hcovers
    obtain ⟨byte, hbyte, hrow⟩ := (Option.any_eq_true _ _).mp hcovers
    rw [rowCovers, Bool.and_eq_true, decide_eq_true_eq] at hrow
    exact ⟨_, _, byte, hbyte, hrow.1, hrow.2,
      (ringDistance_eq_iff (ringDistance_lt (by decide) x u)).mp rfl,
      (ringDistance_eq_iff (ringDistance_lt (by decide) y v)).mp rfl⟩
  · rintro ⟨row, column, byte, hbyte, hcolumn, hbit, hu, hv⟩
    have hlength := (List.getElem?_eq_some_iff.mp hbyte).1
    have hright : ringDistance screenWidth x u = column :=
      (ringDistance_eq_iff (Nat.lt_trans hcolumn (by decide))).mpr hu
    have hdown : ringDistance screenHeight y v = row :=
      (ringDistance_eq_iff (Nat.lt_of_lt_of_le hlength h)).mpr hv
    simp [covers, hdown, hbyte, rowCovers, hright, hcolumn, hbit]

theorem drawRows_fst_iff_covers (s : Screen) (x y : Nat) {sprite : List UInt8}
    (h : sprite.length ≤ screenHeight) :
    (s.drawRows x y sprite).1 = true ↔
      ∃ u < screenWidth, ∃ v < screenHeight, covers x y sprite u v = true ∧ s.get u v = true := by
  rw [drawRows_fst s x y h]
  constructor
  · rintro ⟨row, column, byte, hbyte, hcolumn, hbit, hlit⟩
    refine ⟨(x + column) % screenWidth, Nat.mod_lt _ (by decide), (y + row) % screenHeight,
      Nat.mod_lt _ (by decide), ?_, ?_⟩
    · exact (covers_iff h _ _).mpr ⟨row, column, byte, hbyte, hcolumn, hbit,
        Nat.mod_mod _ _, Nat.mod_mod _ _⟩
    · simpa only [get, Nat.mod_mod] using hlit
  · rintro ⟨u, -, v, -, hcovers, hlit⟩
    obtain ⟨row, column, byte, hbyte, hcolumn, hbit, hu, hv⟩ := (covers_iff h u v).mp hcovers
    refine ⟨row, column, byte, hbyte, hcolumn, hbit, ?_⟩
    simpa only [get, hu, hv] using hlit

/-! ## The places that a drawing flips -/

/-- Flips places one after the other.  The answer is whether one of them was on at its
turn. -/
def toggleAll (s : Screen) : List (Nat × Nat) → Bool × Screen
  | [] => (false, s)
  | place :: rest =>
      let (was, s) := s.toggle place.1 place.2
      let (more, s) := s.toggleAll rest
      (was || more, s)

def rowFlips (x y : Nat) (byte : UInt8) (count : Nat) : List (Nat × Nat) :=
  ((List.range count).filter (spriteBit byte)).map fun column => (x + column, y)

def flips (x y : Nat) : List UInt8 → List (Nat × Nat)
  | [] => []
  | byte :: rest => rowFlips x y byte 8 ++ flips x (y + 1) rest

def wrap (place : Nat × Nat) : Nat × Nat := (place.1 % screenWidth, place.2 % screenHeight)

theorem toggleAll_append (s : Screen) (places later : List (Nat × Nat)) :
    s.toggleAll (places ++ later) =
      ((s.toggleAll places).1 || ((s.toggleAll places).2.toggleAll later).1,
        ((s.toggleAll places).2.toggleAll later).2) := by
  induction places generalizing s with
  | nil => simp [toggleAll]
  | cons place rest ih => simp [toggleAll, ih, Bool.or_assoc]

theorem drawBits_eq_toggleAll (s : Screen) (x y : Nat) (byte : UInt8) (count : Nat) :
    s.drawBits x y byte count = s.toggleAll (rowFlips x y byte count) := by
  induction count with
  | zero => rfl
  | succ count ih =>
      have hlast : rowFlips x y byte (count + 1) = rowFlips x y byte count ++
          if spriteBit byte count then [(x + count, y)] else [] := by
        cases hbit : spriteBit byte count <;> simp [rowFlips, List.range_succ, hbit]
      rw [hlast, toggleAll_append, ← ih]
      cases hbit : spriteBit byte count <;> simp [drawBits, hbit, toggleAll]

theorem drawRows_eq_toggleAll (s : Screen) (x y : Nat) (sprite : List UInt8) :
    s.drawRows x y sprite = s.toggleAll (flips x y sprite) := by
  induction sprite generalizing s y with
  | nil => rfl
  | cons byte rest ih => simp [drawRows, flips, toggleAll_append, drawBits_eq_toggleAll, ih]

theorem mem_rowFlips {x y count : Nat} {byte : UInt8} {place : Nat × Nat} :
    place ∈ rowFlips x y byte count ↔
      ∃ column < count, spriteBit byte column = true ∧ place = (x + column, y) := by
  simp only [rowFlips, List.mem_map, List.mem_filter, List.mem_range, and_assoc,
    @eq_comm _ _ place]

theorem mem_flips {x y : Nat} {sprite : List UInt8} {place : Nat × Nat} :
    place ∈ flips x y sprite ↔
      ∃ row column byte, sprite[row]? = some byte ∧ column < 8 ∧
        spriteBit byte column = true ∧ place = (x + column, y + row) := by
  induction sprite generalizing y with
  | nil => simp [flips]
  | cons byte rest ih =>
      rw [flips, List.mem_append, mem_rowFlips, ih]
      refine Iff.trans (or_congr ?_ ?_) Nat.or_exists_add_one
      · simp
      · refine exists_congr fun row => ?_
        rw [List.getElem?_cons_succ, Nat.add_right_comm y 1 row, Nat.add_assoc]

theorem mem_wrap_flips {x y : Nat} {sprite : List UInt8} (h : sprite.length ≤ screenHeight)
    (u v : Nat) :
    (u % screenWidth, v % screenHeight) ∈ (flips x y sprite).map wrap ↔
      covers x y sprite u v = true := by
  rw [covers_iff h, List.mem_map]
  constructor
  · rintro ⟨place, hplace, hwrap⟩
    obtain ⟨row, column, byte, hbyte, hcolumn, hbit, rfl⟩ := mem_flips.mp hplace
    obtain ⟨hu, hv⟩ := Prod.mk.inj hwrap
    exact ⟨row, column, byte, hbyte, hcolumn, hbit, hu.symm, hv.symm⟩
  · rintro ⟨row, column, byte, hbyte, hcolumn, hbit, hu, hv⟩
    exact ⟨(x + column, y + row),
      mem_flips.mpr ⟨row, column, byte, hbyte, hcolumn, hbit, rfl⟩, Prod.ext hu.symm hv.symm⟩

theorem nodup_rowFlips (x y : Nat) (byte : UInt8) {count : Nat} (h : count ≤ screenWidth) :
    ((rowFlips x y byte count).map wrap).Nodup := by
  simp only [rowFlips, List.map_map]
  refine List.pairwise_map.mpr (List.Pairwise.filter _ ?_)
  refine List.pairwise_lt_range.imp_of_mem fun {column later} _ hmem hlt hsame => ?_
  have hlater : later < screenWidth := Nat.lt_of_lt_of_le (List.mem_range.mp hmem) h
  have hfirst : (x + column) % screenWidth = (x + later) % screenWidth :=
    congrArg Prod.fst hsame
  exact Nat.ne_of_lt hlt (ring_add_inj (Nat.lt_trans hlt hlater) hlater hfirst)

/-- A sprite is never wider or higher than the screen, so it does not reach itself around
the edges. -/
theorem nodup_flips (x y : Nat) {sprite : List UInt8} (h : sprite.length ≤ screenHeight) :
    ((flips x y sprite).map wrap).Nodup := by
  induction sprite generalizing y with
  | nil => exact List.nodup_nil
  | cons byte rest ih =>
      rw [List.length_cons] at h
      rw [flips, List.map_append]
      refine List.nodup_append.mpr
        ⟨nodup_rowFlips x y byte (by decide), ih (y + 1) (by omega), ?_⟩
      intro first hfirst later hlater hsame
      obtain ⟨place, hplace, rfl⟩ := List.mem_map.mp hfirst
      obtain ⟨other, hother, rfl⟩ := List.mem_map.mp hlater
      obtain ⟨column, -, -, rfl⟩ := mem_rowFlips.mp hplace
      obtain ⟨row, later, next, hnext, -, -, rfl⟩ := mem_flips.mp hother
      have hrow : row < rest.length := (List.getElem?_eq_some_iff.mp hnext).1
      have hrows : y % screenHeight = (y + (1 + row)) % screenHeight := by
        simpa only [wrap, Nat.add_assoc] using congrArg Prod.snd hsame
      exact absurd (ring_add_inj (a := 0) (by decide) (by omega) hrows) (by omega)

end Screen

end Chip8VM
