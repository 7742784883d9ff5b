import Chip8VM.Proofs.ControlFlow
import Chip8VM.Proofs.Failure
import Chip8VM.Proofs.Spelling

/-!
# What a word may change

Each word has a row in the instruction tables, and the row names the registers,
the cells and the other parts of the machine that the instruction writes.  A
successful step leaves everything else as it was.
-/

namespace Chip8VM

namespace Word

/-! ## The rows -/

/-- The row `F·LL`: the first digit and the last two, with any second one. -/
def Fits (w : UInt16) (first last : Nat) : Prop :=
  (family w).val = first ∧ (nn w).toNat = last

instance (w : UInt16) (first last : Nat) : Decidable (Fits w first last) :=
  inferInstanceAs (Decidable (_ ∧ _))

/-- The registers that a row names as written; `FX0A` writes only a key that is pressed. -/
def NamesRegister (keys : KeyLatch) (w : UInt16) (r : Register) : Prop :=
  match (family w).val with
  | 0x6 | 0x7 | 0xC => r = x w
  | 0x8 =>
      (r = x w ∧ (n w).val ∈ [0x0, 0x1, 0x2, 0x3, 0x4, 0x5, 0x6, 0x7, 0xE]) ∨
        (r = flagRegister ∧ (n w).val ∈ [0x4, 0x5, 0x6, 0x7, 0xE])
  | 0xD => r = flagRegister
  | 0xF =>
      match (nn w).toNat with
      | 0x07 => r = x w
      | 0x0A => r = x w ∧ keys.get ≠ none
      | 0x65 => r.val ≤ (x w).val
      | _ => False
  | _ => False

def NamesIndex (w : UInt16) : Prop :=
  (family w).val = 0xA ∨
    ∃ last ∈ [0x1E, 0x29, 0x55, 0x65], Fits w 0xF last

def NamesBlock (w : UInt16) (length : Nat) : Prop :=
  (Fits w 0xF 0x33 ∧ length = 3) ∨ (Fits w 0xF 0x55 ∧ length = (x w).val + 1)

def NamesScreen (w : UInt16) : Prop := w.toNat = 0x00E0 ∨ (family w).val = 0xD

end Word

namespace Machine

open Word

structure Within (w : UInt16) (m m' : Machine) : Prop where
  v : ∀ r, m'.v.get r = m.v.get r ∨ NamesRegister m.keys w r := by exact fun _ => .inl rfl
  index : m'.index = m.index ∨ NamesIndex w := by exact .inl rfl
  memory : m'.memory = m.memory ∨
    ∃ length, NamesBlock w length ∧ m.index.toNat + length ≤ memorySize ∧
      ∀ a : Address, a.val < m.index.toNat ∨ m.index.toNat + length ≤ a.val →
        m'.memory.cells.get a = m.memory.cells.get a := by exact .inl rfl
  screen : m'.screen = m.screen ∨ NamesScreen w := by exact .inl rfl
  stack : m'.stack = m.stack ∨
    ((family w).val = 0x2 ∧ m.stack.push (m.pc + 2) = .ok m'.stack) ∨
    (w.toNat = 0x00EE ∧ ∃ address, m.stack.pop = .ok (address, m'.stack)) := by exact .inl rfl
  delay : m'.timers.delay = m.timers.delay ∨ Fits w 0xF 0x15 := by exact .inl rfl
  sound : m'.timers.sound = m.timers.sound ∨ Fits w 0xF 0x18 := by exact .inl rfl
  random : m'.random = m.random ∨
    ((family w).val = 0xC ∧ m'.random = m.random.draw.2) := by exact .inl rfl
  keys : m'.keys = m.keys := by rfl
  name : m'.name = m.name := by rfl

/-! ## Parts of a machine -/

theorem get_setRegister_or (m : Machine) (x r : Register) (value : UInt8) :
    (m.setRegister x value).v.get r = m.v.get r ∨ r = x := by
  by_cases h : r = x
  · exact .inr h
  · exact .inl (m.get_setRegister_of_ne h value)

theorem get_place_of_outside {cells : Vector UInt8 memorySize} {address : Nat} {bytes : List UInt8}
    {a : Address} (h : a.val < address ∨ address + bytes.length ≤ a.val) :
    (Memory.place cells address bytes).get a = cells.get a := by
  rw [Memory.get_place]
  rcases h with hbelow | habove
  · rw [if_neg (Nat.not_le.mpr hbelow), Option.getD_none]
  · have hnone : bytes[a.val - address]? = none := by
      rw [List.getElem?_eq_none_iff]
      omega
    rw [hnone, ite_self, Option.getD_none]

/-! ## Instructions -/

theorem within_of_alu {m m' : Machine} {w : UInt16} {op : AluOp} {effect : Effect}
    (hfamily : (family w).val = 0x8) (hcode : (n w).val = op.code)
    (h : m.alu op (x w) (y w) = (m', .ok effect)) : Within w m m' := by
  have hresult : ∀ r, r = x w → NamesRegister m.keys w r := by
    rintro r rfl
    cases op <;> simp [NamesRegister, hfamily, hcode, AluOp.code]
  simp only [alu] at h
  cases hflag : op.flag? m.v[x w] m.v[y w] with
  | none =>
      rw [hflag] at h
      cases h
      exact { v := fun r => (get_setRegister_or m (x w) r _).imp_right (hresult r) }
  | some flag =>
      rw [hflag] at h
      cases h
      have hflagged : NamesRegister m.keys w flagRegister := by
        cases op <;> simp [AluOp.flag?] at hflag <;>
          simp [NamesRegister, hfamily, hcode, AluOp.code]
      refine { v := fun r => ?_ }
      rcases get_setRegister_or (m.setFlag flag) (x w) r _ with hother | hr
      · rcases get_setRegister_or m flagRegister r (if flag then 1 else 0) with hkept | rfl
        · exact .inl (hother.trans hkept)
        · exact .inr hflagged
      · exact .inr (hresult r hr)

theorem within_of_misc {m m' : Machine} {w : UInt16} {op : MiscOp} {effect : Effect}
    (hfamily : (family w).val = 0xF) (hcode : (nn w).toNat = op.code)
    (h : m.misc op (x w) = (m', .ok effect)) : Within w m m' := by
  have hfits : Fits w 0xF op.code := ⟨hfamily, hcode⟩
  have hregister : ∀ value r, (op = .getDelay ∨ op = .awaitKey ∧ m.keys.get ≠ none) →
      (m.setRegister (x w) value).v.get r = m.v.get r ∨ NamesRegister m.keys w r := by
    intro value r hop
    refine (get_setRegister_or m (x w) r value).imp_right ?_
    rcases hop with rfl | ⟨rfl, hkey⟩ <;> simp [NamesRegister, hfamily, hcode, MiscOp.code]
    exact fun hr => ⟨hr, hkey⟩
  have hindex : (op.code ∈ [0x1E, 0x29, 0x55, 0x65]) → NamesIndex w :=
    fun hmem => .inr ⟨op.code, hmem, hfits⟩
  cases op with
  | getDelay =>
      cases h
      exact { v := fun r => hregister m.timers.delay r (.inl rfl) }
  | awaitKey =>
      simp only [misc] at h
      split at h <;> cases h
      case h_1 key hkey =>
          exact { v := fun r => hregister key r (.inr ⟨rfl, by simp [hkey]⟩) }
      case h_2 => exact {}
  | setDelay => cases h; exact { delay := .inr hfits }
  | setSound => cases h; exact { sound := .inr hfits }
  | addToIndex | glyph => cases h; exact { index := .inr (hindex (by simp [MiscOp.code])) }
  | storeDigits =>
      simp only [misc, storeDigits] at h
      split at h <;> cases h
      case h_2 written hwrite =>
          obtain ⟨hbound, hcells⟩ := Memory.write_eq_ok hwrite
          refine { memory := .inr ⟨3, .inl ⟨hfits, rfl⟩, hbound, fun a ha => ?_⟩ }
          rw [hcells]
          exact get_place_of_outside ha
  | storeRegisters =>
      simp only [misc, storeRegisters] at h
      split at h <;> cases h
      case h_2 written hwrite =>
          obtain ⟨hbound, hcells⟩ := Memory.write_eq_ok hwrite
          have hlength := m.registersUpTo_length (x w)
          rw [hlength] at hbound
          refine { index := .inr (hindex (by simp [MiscOp.code])), memory := .inr ?_ }
          refine ⟨(x w).val + 1, .inr ⟨hfits, rfl⟩, hbound, fun a ha => ?_⟩
          rw [hcells]
          exact get_place_of_outside (by rwa [hlength])
  | loadRegisters =>
      simp only [misc, loadRegisters] at h
      split at h <;> cases h
      case h_2 bytes hread =>
          have hlength := (Memory.read_eq_ok hread).2
          refine { v := fun r => ?_, index := .inr (hindex (by simp [MiscOp.code])) }
          rcases Nat.lt_or_ge (x w).val r.val with habove | hle
          · have hnone : bytes[r.val]? = none := by
              rw [List.getElem?_eq_none_iff]
              omega
            have hget : (Vector.ofFn fun r : Register => bytes[r.val]?.getD m.v[r]).get r =
                bytes[r.val]?.getD m.v[r] := Vector.getElem_ofFn r.isLt
            rw [hnone] at hget
            exact .inl hget
          · right
            simpa [NamesRegister, hfamily, hcode, MiscOp.code] using hle

theorem within_of_perform {m m' : Machine} {w : UInt16} {i : Instruction} {effect : Effect}
    (hw : i.SpelledBy w) (h : m.perform i = (m', .ok effect)) : Within w m m' := by
  cases i with
  | system op =>
      cases op with
      | clear => cases h; exact { screen := .inr (.inl hw) }
      | ret =>
          simp only [perform, system] at h
          split at h <;> cases h
          case h_2 address stack hpop => exact { stack := .inr (.inr ⟨hw, address, hpop⟩) }
  | jump | skipIfEqual | skipIfNotEqual | skipIfSame | skipIfDifferent | jumpOffset =>
      cases h; exact {}
  | key op r => cases op <;> (cases h; exact {})
  | call target =>
      simp only [perform, call] at h
      split at h <;> cases h
      case h_2 stack hpush => exact { stack := .inr (.inl ⟨hw.1, hpush⟩) }
  | load r byte | add r byte =>
      obtain ⟨hfamily, rfl, -⟩ := hw
      cases h
      refine { v := fun r => (get_setRegister_or m (x w) r _).imp_right fun hr => ?_ }
      simpa [NamesRegister, hfamily] using hr
  | alu op r s =>
      obtain ⟨hfamily, rfl, rfl, hcode⟩ := hw
      exact within_of_alu hfamily hcode h
  | setIndex address => cases h; exact { index := .inr (.inl hw.1) }
  | random r mask =>
      obtain ⟨hfamily, rfl, -⟩ := hw
      cases h
      refine { v := fun r => ?_, random := .inr ⟨hfamily, rfl⟩ }
      refine (get_setRegister_or { m with random := m.random.draw.2 } (x w) r _).imp_right ?_
      intro hr
      simpa [NamesRegister, hfamily] using hr
  | draw r s rows =>
      obtain ⟨hfamily, rfl, rfl, -⟩ := hw
      simp only [perform, draw] at h
      split at h <;> cases h
      case h_2 sprite hread =>
          refine { v := fun r => ?_, screen := .inr (.inr hfamily) }
          refine (get_setRegister_or _ flagRegister r _).imp id fun hr => ?_
          simpa [NamesRegister, hfamily] using hr
  | misc op r =>
      obtain ⟨hfamily, rfl, hcode⟩ := hw
      exact within_of_misc hfamily hcode h

/-! ## Steps -/

theorem within_of_execute {m m' : Machine} {w : UInt16} {i : Instruction} {signal : Signal}
    (hw : i.SpelledBy w) (h : m.execute i = (m', .ok signal)) : Within w m m' := by
  obtain ⟨performed, effect, hperform, rfl, rfl⟩ := execute_eq_ok h
  exact { within_of_perform hw hperform with }

theorem within_of_step {m m' : Machine} {word : UInt16} {signal : Signal}
    (hfetch : m.memory.fetch m.pc.toNat = .ok word) (h : m.step = (m', .ok signal)) :
    Within word m m' := by
  cases hdecode : Instruction.decode? word with
  | none =>
      rw [step_of_undecodable hfetch hdecode] at h
      cases h
      exact {}
  | some i =>
      rw [step_of_fetch hfetch hdecode] at h
      exact { within_of_execute (Instruction.spelledBy_of_decode? hdecode) h with }

theorem decode?_of_fits {w : UInt16} {op : MiscOp} (h : Fits w 0xF op.code) :
    Instruction.decode? w = some (.misc op (x w)) :=
  Instruction.decode?_of_spelledBy ⟨h.1, rfl, h.2⟩

theorem room_of_step {m m' : Machine} {word : UInt16} {signal : Signal} {length : Nat}
    (hfetch : m.memory.fetch m.pc.toNat = .ok word) (h : m.step = (m', .ok signal))
    (hblock : NamesBlock word length) : m.index.toNat + length ≤ memorySize := by
  have hmisc : ∀ op : MiscOp, Fits word 0xF op.code →
      m.fault? (.misc op (x word)) = none := fun _ hfits =>
    fault?_eq_none_of_step hfetch (decode?_of_fits hfits) h
  rcases hblock with ⟨hfits, rfl⟩ | ⟨hfits, rfl⟩
  · exact blockFault?_eq_none_iff.mp (hmisc .storeDigits hfits)
  · exact blockFault?_eq_none_iff.mp (hmisc .storeRegisters hfits)

/-- A successful step writes what the row of its word names, remembers the word, and
moves the program counter.  A block that it writes lies in memory as a whole; a word
that has no row is passed over. -/
theorem step_changes_only_named {m m' : Machine} {word : UInt16} {signal : Signal}
    (hfetch : m.memory.fetch m.pc.toNat = .ok word) (hstep : m.step = (m', .ok signal)) :
    Within word m m' ∧ m'.word = word ∧
      (∀ length, NamesBlock word length → m.index.toNat + length ≤ memorySize) ∧
      (Instruction.decode? word = none → m' = { m with word, pc := m.pc + 2 }) := by
  refine ⟨within_of_step hfetch hstep, ?_, fun _ => room_of_step hfetch hstep, ?_⟩
  · have hword := step_word hfetch
    rwa [hstep] at hword
  · intro hdecode
    rw [step_of_undecodable hfetch hdecode] at hstep
    exact (Prod.mk.inj hstep).1.symm

theorem store_at_end_of_memory :
    let m : Machine :=
      { fresh (.constant 0) with
        memory := ⟨Memory.place Memory.initial.cells programStart [0xF1, 0x55]⟩
        index := 0xFFE }
    let m' : Machine :=
      { m with
        word := 0xF155, pc := 0x202, index := 0x1000
        memory := ⟨Memory.place m.memory.cells 0xFFE [0, 0]⟩ }
    m.memory.fetch m.pc.toNat = .ok 0xF155 ∧ m.step = (m', .ok .quiet) ∧
      Within 0xF155 m m' ∧ 0xFFE + 2 ≤ memorySize := by
  intro m m'
  have hfetch : m.memory.fetch m.pc.toNat = .ok 0xF155 :=
    @Memory.fetch_place Memory.initial.cells [0xF1, 0x55] programStart 0 0xF1 0x55
      (by decide) rfl rfl
  have hstep : m.step = (m', .ok .quiet) := by
    rw [step_of_fetch hfetch rfl]
    rfl
  obtain ⟨hwithin, -, hroom, -⟩ := step_changes_only_named hfetch hstep
  exact ⟨hfetch, hstep, hwithin, hroom 2 (.inr ⟨⟨rfl, rfl⟩, rfl⟩)⟩

end Machine

end Chip8VM
