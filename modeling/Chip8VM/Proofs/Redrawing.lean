import Chip8VM.Proofs.Drawing
import Chip8VM.Proofs.Signals
import Chip8VM.Proofs.Spelling

/-!
# Drawing again

Drawings compose like exclusive or: in the end a pixel is flipped if an odd number of
sprites covers it.  So their order does not matter, and two that are alike can be left
out; programs erase a sprite by drawing it again.
-/

namespace Chip8VM

structure Sprite where
  x : UInt8
  y : UInt8
  rows : List UInt8
  length_le : rows.length ≤ 15

def Sprite.covers (p : Sprite) (u v : Nat) : Bool :=
  Screen.covers p.x.toNat p.y.toNat p.rows u v

namespace Screen

def stamp (s : Screen) (p : Sprite) : Screen := (s.drawRows p.x.toNat p.y.toNat p.rows).2

def stampAll (s : Screen) (ps : List Sprite) : Screen := ps.foldl stamp s

theorem get_stamp (s : Screen) (p : Sprite) (u v : Nat) :
    (s.stamp p).get u v = (s.get u v ^^ p.covers u v) :=
  s.get_drawRows p.x.toNat p.y.toNat (Nat.le_trans p.length_le (by decide)) u v

/-- A pixel is flipped if an odd number of the sprites covers it. -/
theorem get_stampAll (s : Screen) (ps : List Sprite) (u v : Nat) :
    (s.stampAll ps).get u v =
      (s.get u v ^^ decide ((ps.countP fun p => p.covers u v) % 2 = 1)) := by
  induction ps generalizing s with
  | nil => simp [stampAll]
  | cons p ps ih =>
      have hrest := ih (s.stamp p)
      rw [get_stamp, Bool.xor_assoc] at hrest
      rw [stampAll, List.foldl_cons, ← stampAll, hrest, List.countP_cons]
      cases p.covers u v with
      | false => simp
      | true =>
          rw [if_pos rfl, Bool.true_xor, ← decide_not]
          refine congrArg (s.get u v ^^ ·) (decide_eq_decide.mpr ?_)
          omega

theorem stampAll_perm (s : Screen) {ps ps' : List Sprite} (h : ps.Perm ps') :
    s.stampAll ps = s.stampAll ps' := by
  refine ext_get fun u v => ?_
  rw [get_stampAll, get_stampAll, h.countP_eq]

theorem stampAll_remove_pair (s : Screen) (before between later : List Sprite) (p : Sprite) :
    s.stampAll (before ++ p :: between ++ p :: later) =
      s.stampAll (before ++ between ++ later) := by
  refine ext_get fun u v => ?_
  simp only [get_stampAll, List.countP_append, List.countP_cons]
  refine congrArg (s.get u v ^^ ·) (decide_eq_decide.mpr ?_)
  omega

end Screen

/-- A machine at a `DXYN` that finds its sprite in memory. -/
structure Drawing where
  machine : Machine
  x : Register
  y : Register
  rows : Fin 16
  room : machine.index.toNat + rows.val ≤ memorySize

namespace Drawing

def sprite (d : Drawing) : Sprite where
  x := d.machine.v.get d.x
  y := d.machine.v.get d.y
  rows := d.machine.sprite d.rows.val
  length_le := Nat.le_trans (d.machine.length_sprite_le d.rows.val) (Nat.le_of_lt_succ d.rows.isLt)

def on (d : Drawing) (s : Screen) : Machine × Except Fault Signal :=
  { d.machine with screen := s }.execute (.draw d.x d.y d.rows)

def screenAfter (s : Screen) (ds : List Drawing) : Screen :=
  ds.foldl (fun s d => (d.on s).1.screen) s

theorem on_eq (d : Drawing) (s : Screen) :
    (d.on s).1.screen = s.stamp d.sprite ∧ (d.on s).2 = .ok .drawn := by
  have hexecute :=
    Machine.execute_draw (m := { d.machine with screen := s }) (x := d.x) (y := d.y) d.room
  rw [on, hexecute]
  exact ⟨rfl, rfl⟩

theorem screenAfter_eq (s : Screen) (ds : List Drawing) :
    screenAfter s ds = s.stampAll (ds.map sprite) := by
  simp only [screenAfter, Screen.stampAll, List.foldl_map, (on_eq _ _).1]

end Drawing

namespace Machine

variable {m : Machine}

/-! ## Drawings of a run -/

def nextDrawing? (m : Machine) : Option Drawing :=
  match m.memory.fetch m.pc.toNat with
  | .error _ => none
  | .ok word =>
      match Instruction.decode? word with
      | some (.draw x y rows) =>
          if room : m.index.toNat + rows.val ≤ memorySize then
            some ⟨{ m with word }, x, y, rows, room⟩
          else none
      | _ => none

def drawings (m : Machine) : List Operation → List Drawing
  | [] => []
  | op :: ops =>
      (if op = .step then m.nextDrawing?.toList else []) ++ (m.serve op).1.drawings ops

def NextClears (m : Machine) : Prop := m.memory.fetch m.pc.toNat = .ok 0x00E0

theorem step_of_nextDrawing? {d : Drawing} (h : m.nextDrawing? = some d) :
    m.step = d.on m.screen := by
  unfold nextDrawing? at h
  cases hfetch : m.memory.fetch m.pc.toNat with
  | error e => simp [hfetch] at h
  | ok word =>
      simp only [hfetch] at h
      split at h
      case h_1 x y rows hdecode =>
          split at h <;> cases h
          exact step_of_fetch hfetch hdecode
      case h_2 => cases h

theorem screen_of_other_step (h : m.nextDrawing? = none) (hclear : ¬ m.NextClears) :
    m.step.1.screen = m.screen := by
  rcases hstep : m.step with ⟨m', result⟩
  cases result with
  | error fault => exact screen_of_failing_step hstep
  | ok signal =>
      obtain ⟨⟨word, hfetch, hsignal⟩, hshows⟩ := signal_of_step hstep
      cases signal with
      | quiet | waiting => exact hshows
      | cleared =>
          have hword : word.toNat = 0x00E0 :=
            Instruction.spelledBy_of_decode? (Word.signal_eq_cleared hsignal.symm)
          obtain rfl : word = 0x00E0 := UInt16.toNat_inj.mp hword
          exact absurd hfetch hclear
      | drawn =>
          obtain ⟨x, y, rows, hdecode⟩ := Word.signal_eq_drawn hsignal.symm
          have hroom : m.index.toNat + rows.val ≤ memorySize :=
            blockFault?_eq_none_iff.mp (fault?_eq_none_of_step hfetch hdecode hstep)
          simp [nextDrawing?, hfetch, hdecode, hroom] at h

theorem screen_step (hclear : ¬ m.NextClears) :
    m.step.1.screen = Drawing.screenAfter m.screen m.nextDrawing?.toList := by
  cases hdrawing : m.nextDrawing? with
  | none => exact screen_of_other_step hdrawing hclear
  | some d =>
      rw [step_of_nextDrawing? hdrawing]
      rfl

theorem screen_after {ops : List Operation} (hops : ∀ op ∈ ops, op.isRunning)
    (hclear : m.Avoids NextClears ops) :
    (m.after ops).screen = Drawing.screenAfter m.screen (m.drawings ops) := by
  induction ops generalizing m with
  | nil => rfl
  | cons op ops ih =>
      have hlater := ih (fun later hmem => hops later (List.mem_cons_of_mem op hmem)) hclear.2
      rw [after_cons, hlater, drawings, Drawing.screenAfter, Drawing.screenAfter,
        List.foldl_append]
      refine congrArg (List.foldl _ · _) ?_
      rcases Operation.isRunning_cases (hops op List.mem_cons_self) with rfl | houtside
      · exact screen_step (hclear.1 rfl)
      · obtain ⟨timers, keys, hserve⟩ := m.serve_outside houtside
        have hother : op ≠ .step := by
          rintro rfl
          cases houtside
        rw [hserve, if_neg hother]
        rfl

/-! ## The same drawing twice -/

theorem exists_testBit_iff (byte : UInt8) :
    (∃ column < 8, byte.toNat.testBit (7 - column) = true) ↔ byte ≠ 0 := by
  constructor
  · rintro ⟨column, -, hbit⟩ rfl
    simp at hbit
  · intro hbyte
    have hne : byte.toNat ≠ 0 := fun hzero => hbyte (UInt8.toNat_inj.mp hzero)
    obtain ⟨i, hbit⟩ := Nat.exists_testBit_of_ne_zero hne
    have hi : i < 8 := by
      have hle := Nat.ge_two_pow_of_testBit hbit
      have hlt : 2 ^ i < 2 ^ 8 := Nat.lt_of_le_of_lt hle byte.toNat_lt
      exact (Nat.pow_lt_pow_iff_right (by decide)).mp hlt
    refine ⟨7 - i, by omega, ?_⟩
    rwa [Nat.sub_sub_self (Nat.le_of_lt_succ hi)]

section

variable {x y : Register} {rows : Fin 16} (h : m.index.toNat + rows.val ≤ memorySize)

include h

theorem covers_of_spriteSet (cx cy : Nat) {row column : Nat}
    (hset : m.SpriteSet rows.val row column) :
    Screen.covers cx cy (m.sprite rows.val) (cx + column) (cy + row) = true :=
  (covers_sprite_iff_exists h cx cy _ _).mpr ⟨row, column, hset, rfl, rfl⟩

theorem erased_again_iff (s : Screen) (cx cy : Nat) :
    ((s.drawRows cx cy (m.sprite rows.val)).2.drawRows cx cy (m.sprite rows.val)).1 = true ↔
      ∃ row column, m.SpriteSet rows.val row column ∧
        s.get (cx + column) (cy + row) = false := by
  rw [erased_iff h]
  refine exists_congr fun row => exists_congr fun column => and_congr_right fun hset => ?_
  rw [Screen.get_drawRows s cx cy (m.sprite_fits rows), covers_of_spriteSet h cx cy hset,
    Bool.xor_true, Bool.not_eq_true']

theorem execute_draw_twice (hx : x ≠ flagRegister) (hy : y ≠ flagRegister) (word : UInt16) :
    let cx := (m.v.get x).toNat
    let cy := (m.v.get y).toNat
    let first := m.screen.drawRows cx cy (m.sprite rows.val)
    let second := first.2.drawRows cx cy (m.sprite rows.val)
    let once := m.execute (.draw x y rows)
    let twice := { once.1 with word }.execute (.draw x y rows)
    once.2 = .ok .drawn ∧ once.1.v.get flagRegister = (if first.1 then 1 else 0) ∧
      twice.2 = .ok .drawn ∧ twice.1.v.get flagRegister = (if second.1 then 1 else 0) ∧
      twice.1.screen = second.2 := by
  intro cx cy first second once twice
  have honce : once = (({ m with screen := first.2 }.setFlag first.1).move .next, .ok .drawn) :=
    execute_draw h
  -- the flag is none of the coordinates, so the second drawing goes where the first one went
  let m' : Machine := { ({ m with screen := first.2 }.setFlag first.1).move .next with word }
  have hx' : m'.v.get x = m.v.get x := get_setFlag_of_ne { m with screen := first.2 } hx _
  have hy' : m'.v.get y = m.v.get y := get_setFlag_of_ne { m with screen := first.2 } hy _
  have hsecond : m'.screen.drawRows (m'.v.get x).toNat (m'.v.get y).toNat
      (m'.sprite rows.val) = second := by
    rw [hx', hy']
    rfl
  have htwice : twice =
      (({ m' with screen := second.2 }.setFlag second.1).move .next, .ok .drawn) := by
    have hagain : twice = m'.execute (.draw x y rows) := by
      simp only [twice, honce]
      rfl
    rw [hagain, ← hsecond]
    exact execute_draw (m := m') h
  refine ⟨?_, ?_, ?_, ?_, ?_⟩
  · rw [honce]
  · rw [honce]
    exact get_setFlag_self { m with screen := first.2 } first.1
  · rw [htwice]
  · rw [htwice]
    exact get_setFlag_self { m' with screen := second.2 } second.1
  · rw [htwice]
    rfl

end

theorem flag_eq_one_iff (erased : Bool) :
    (if erased then 1 else 0 : UInt8) = 1 ↔ erased = true := by
  cases erased <;> decide

theorem flag_cases (erased : Bool) :
    (if erased then 1 else 0 : UInt8) = 0 ∨ (if erased then 1 else 0 : UInt8) = 1 := by
  cases erased <;> decide

theorem screen_redrawn (m : Machine) {x y : Register} (rows : Fin 16) (hx : x ≠ flagRegister)
    (hy : y ≠ flagRegister) (word : UInt16) :
    ({ (m.execute (.draw x y rows)).1 with word }.execute (.draw x y rows)).1.screen =
      m.screen := by
  by_cases h : m.index.toNat + rows.val ≤ memorySize
  · obtain ⟨-, -, -, -, hscreen⟩ := execute_draw_twice h hx hy word
    refine hscreen.trans (Screen.ext_get fun u v => ?_)
    rw [Screen.get_drawRows _ _ _ (m.sprite_fits rows),
      Screen.get_drawRows _ _ _ (m.sprite_fits rows), Bool.xor_assoc, Bool.xor_self,
      Bool.xor_false]
  · have hfails : ∀ n : Machine, n.index = m.index →
        n.execute (.draw x y rows) = (n, .error (.memory ⟨n.index.toNat, rows.val⟩)) := by
      intro n hindex
      have hoverrun : memorySize < n.index.toNat + rows.val := hindex ▸ Nat.lt_of_not_le h
      exact execute_eq_error_iff.mpr ⟨rfl, blockFault?_eq_some_iff.mpr ⟨hoverrun, rfl⟩⟩
    rw [hfails m rfl]
    exact congrArg (·.1.screen) (hfails { m with word } rfl)

/-- The screen after drawings depends only on the sprites that were drawn an odd number of
times.  A drawing done twice leaves the screen as it was; the first one finds what was lit
under the sprite, the second one what was dark. -/
theorem drawings_compose_like_xor :
    (∀ (d : Drawing) (s : Screen), (d.on s).2 = .ok .drawn) ∧
    (∀ (s : Screen) (ds ds' : List Drawing),
      (ds.map Drawing.sprite).Perm (ds'.map Drawing.sprite) →
        Drawing.screenAfter s ds = Drawing.screenAfter s ds') ∧
    (∀ (s : Screen) (before between later : List Drawing) (d d' : Drawing),
      d.sprite = d'.sprite →
        Drawing.screenAfter s (before ++ d :: between ++ d' :: later) =
          Drawing.screenAfter s (before ++ between ++ later)) ∧
    (∀ (m : Machine) (ops : List Operation), (∀ op ∈ ops, op.isRunning) →
      m.Avoids NextClears ops →
        (m.after ops).screen = Drawing.screenAfter m.screen (m.drawings ops)) ∧
    (∀ (m : Machine) (x y : Register) (rows : Fin 16) (word : UInt16),
      x ≠ flagRegister → y ≠ flagRegister →
        let lit (row column : Nat) :=
          m.screen.get ((m.v.get x).toNat + column) ((m.v.get y).toNat + row)
        let once := m.execute (.draw x y rows)
        let twice := { once.1 with word }.execute (.draw x y rows)
        twice.1.screen = m.screen ∧
          (m.index.toNat + rows.val ≤ memorySize →
            once.2 = .ok .drawn ∧ twice.2 = .ok .drawn ∧
            (once.1.v.get flagRegister = 0 ∨ once.1.v.get flagRegister = 1) ∧
            (twice.1.v.get flagRegister = 0 ∨ twice.1.v.get flagRegister = 1) ∧
            (once.1.v.get flagRegister = 1 ↔
              ∃ row column, m.SpriteSet rows.val row column ∧ lit row column = true) ∧
            (twice.1.v.get flagRegister = 1 ↔
              ∃ row column, m.SpriteSet rows.val row column ∧ lit row column = false) ∧
            ((∀ row < rows.val, ∀ column < 8, lit row column = false) →
              (twice.1.v.get flagRegister = 1 ↔
                ∃ row < rows.val, m.memory.bytes.getD (m.index.toNat + row) 0 ≠ 0)))) := by
  refine ⟨fun d s => (d.on_eq s).2, fun s ds ds' hperm => ?_,
    fun s before between later d d' hsame => ?_, fun m ops hops hclear => screen_after hops hclear,
    fun m x y rows word hx hy => ?_⟩
  · rw [Drawing.screenAfter_eq, Drawing.screenAfter_eq, Screen.stampAll_perm s hperm]
  · simp only [Drawing.screenAfter_eq, List.map_append, List.map_cons, hsame]
    exact Screen.stampAll_remove_pair s _ _ _ d'.sprite
  · intro lit once twice
    refine ⟨screen_redrawn m rows hx hy word, fun h => ?_⟩
    obtain ⟨honce, hflag, htwice, hflag', -⟩ := execute_draw_twice h hx hy word
    have hdark : twice.1.v.get flagRegister = 1 ↔
        ∃ row column, m.SpriteSet rows.val row column ∧ lit row column = false := by
      rw [hflag', flag_eq_one_iff, erased_again_iff h]
    refine ⟨honce, htwice, ?_, ?_, ?_, hdark, fun hblank => hdark.trans ?_⟩
    · rw [hflag]
      exact flag_cases _
    · rw [hflag']
      exact flag_cases _
    · rw [hflag, flag_eq_one_iff, erased_iff h]
    · simp only [← exists_testBit_iff]
      constructor
      · rintro ⟨row, column, ⟨hrow, hcolumn, hbit⟩, -⟩
        exact ⟨row, hrow, column, hcolumn, hbit⟩
      · rintro ⟨row, hrow, column, hcolumn, hbit⟩
        exact ⟨row, column, ⟨hrow, hcolumn, hbit⟩, hblank row hrow column hcolumn⟩

theorem zero_erased_by_redrawing :
    let m := (fresh (.constant 0)).setRegister (Word.x 0xD005) 62
    let zero := Instruction.draw (Word.x 0xD005) (Word.y 0xD005) (Word.n 0xD005)
    let once := m.execute zero
    let twice := { once.1 with word := 0xD005 }.execute zero
    once.2 = .ok .drawn ∧ once.1.v.get flagRegister = 0 ∧
      twice.2 = .ok .drawn ∧ twice.1.v.get flagRegister = 1 ∧ twice.1.screen = .blank := by
  intro m zero once twice
  have hblank : m.screen = .blank := rfl
  have hroom : m.index.toNat + (Word.n 0xD005).val ≤ memorySize := by decide
  have hbyte : m.memory.bytes.getD (m.index.toNat + 0) 0 ≠ 0 := by decide +kernel
  clear_value m
  have hdark : ∀ u v, m.screen.get u v = false := fun u v => by rw [hblank, Screen.get_blank]
  obtain ⟨hscreen, hflags⟩ := drawings_compose_like_xor.2.2.2.2 m (Word.x 0xD005)
    (Word.y 0xD005) (Word.n 0xD005) 0xD005 (by decide) (by decide)
  obtain ⟨honce, htwice, hfirst, -, hlit, -, hagain⟩ := hflags hroom
  refine ⟨honce, hfirst.resolve_right fun hset => ?_, htwice, ?_, hscreen.trans hblank⟩
  · obtain ⟨row, column, -, hon⟩ := hlit.mp hset
    exact Bool.noConfusion ((hdark _ _).symm.trans hon)
  · exact (hagain fun row _ column _ => hdark _ _).mpr ⟨0, by decide, hbyte⟩

end Machine

end Chip8VM
