import Chip8VM.Proofs.FailingWords
import Chip8VM.Proofs.Signals

/-!
# Where each word leads

A jump and a call lead to the address in the word, a return to the address saved last.
A word whose condition holds leads over the next one, `FX0A` without a key to itself,
and every other word to the next one, whether it is an instruction or not.
-/

namespace Chip8VM

def KeyLatch.Made (latch : KeyLatch) : Prop :=
  latch = {} ∨ ∃ (before : KeyLatch) (key : Option UInt8), before.set key = .ok latch

theorem KeyLatch.Made.get_le {latch : KeyLatch} (h : latch.Made) {key : UInt8}
    (hkey : latch.get = some key) : key.toNat ≤ 15 := by
  rcases h with rfl | ⟨before, latched, hset⟩
  · cases hkey
  · rw [get_of_set hset] at hkey
    exact Nat.le_of_lt_succ ((set_eq_ok_iff.mp hset).1 key hkey)

namespace Machine

open Word

/-! ## Words and their destinations -/

def Skips (m : Machine) (w : UInt16) : Prop :=
  ((family w).val = 0x3 ∧ m.v.get (x w) = nn w) ∨
    ((family w).val = 0x4 ∧ m.v.get (x w) ≠ nn w) ∨
    ((family w).val = 0x5 ∧ (n w).val = 0 ∧ m.v.get (x w) = m.v.get (y w)) ∨
    ((family w).val = 0x9 ∧ (n w).val = 0 ∧ m.v.get (x w) ≠ m.v.get (y w)) ∨
    (Fits w 0xE 0x9E ∧ m.keys.get = some (m.v.get (x w))) ∨
    (Fits w 0xE 0xA1 ∧ m.keys.get ≠ some (m.v.get (x w)))

instance (m : Machine) (w : UInt16) : Decidable (m.Skips w) :=
  inferInstanceAs (Decidable (_ ∨ _ ∨ _ ∨ _ ∨ _ ∨ _))

def Waits (m : Machine) (w : UInt16) : Prop := Fits w 0xF 0x0A ∧ m.keys.get = none

instance (m : Machine) (w : UInt16) : Decidable (m.Waits w) :=
  inferInstanceAs (Decidable (_ ∧ _))

theorem registers_pos : 0 < registerCount := by decide

/-- The address after a word that succeeds.  A return from nowhere leads nowhere. -/
def destination? (m : Machine) (w : UInt16) : Option Nat :=
  if (family w).val = 0x1 ∨ (family w).val = 0x2 then some (nnn w).val
  else if (family w).val = 0xB then
    some ((nnn w).val + (m.v.get ⟨0, registers_pos⟩).toNat)
  else if w.toNat = 0x00EE then m.stack.addresses.head?.map UInt16.toNat
  else if m.Waits w then some m.pc.toNat
  else if m.Skips w then some (m.pc.toNat + 4)
  else some (m.pc.toNat + 2)

variable {m m' : Machine} {w : UInt16} {i : Instruction}

theorem family_of_code {op : SystemOp} (h : w.toNat = op.code) : (family w).val = 0 := by
  simp only [family, h]
  cases op <;> rfl

theorem family_of_ret (h : w.toNat = 0x00EE) : (family w).val = 0 := @family_of_code _ .ret h

/-! ## Instructions -/

theorem toNat_apply_next {pc : UInt16} (hpc : pc.toNat + 1 < memorySize) :
    (Advance.next.apply pc).toNat = pc.toNat + 2 := Memory.toNat_next hpc

theorem toNat_apply_skipWhen {pc : UInt16} (hpc : pc.toNat + 1 < memorySize) (condition : Bool) :
    ((Advance.skipWhen condition).apply pc).toNat = pc.toNat + if condition then 4 else 2 := by
  cases condition with
  | false => exact toNat_apply_next hpc
  | true =>
      change (pc + 4).toNat = pc.toNat + 4
      refine Word.toNat_add_of_lt ?_
      simp only [memorySize, UInt16.reduceToNat] at hpc ⊢
      omega

theorem toNat_apply_stay (pc : UInt16) : (Advance.stay.apply pc).toNat = pc.toNat := by
  rw [show Advance.stay.apply pc = pc + 0 from rfl, UInt16.add_zero]

theorem destination?_of_skipping {condition : Bool}
    (hfamily : (family w).val ∈ [0x3, 0x4, 0x5, 0x9, 0xE])
    (hskips : m.Skips w ↔ condition = true) :
    m.destination? w = some (m.pc.toNat + if condition then 4 else 2) := by
  have hother : (family w).val ≠ 0x0 ∧ (family w).val ≠ 0x1 ∧ (family w).val ≠ 0x2 ∧
      (family w).val ≠ 0xB ∧ (family w).val ≠ 0xF := by
    simp only [List.mem_cons, List.not_mem_nil, or_false] at hfamily
    omega
  obtain ⟨hzero, hone, htwo, heleven, hfifteen⟩ := hother
  have hret : w.toNat ≠ 0x00EE := fun h => hzero (family_of_ret h)
  rw [destination?, if_neg (by simp [hone, htwo]), if_neg heleven, if_neg hret,
    if_neg fun hwaits => hfifteen hwaits.1.1]
  cases condition with
  | false => exact if_neg (by simp [hskips])
  | true => exact if_pos (by simp [hskips])

theorem destination?_of_ahead (hjump : (family w).val ∉ [0x1, 0x2, 0xB])
    (hret : w.toNat ≠ 0x00EE) (hwaits : ¬ m.Waits w) (hskips : ¬ m.Skips w) :
    m.destination? w = some (m.pc.toNat + 2) := by
  simp only [List.mem_cons, List.not_mem_nil, or_false, not_or] at hjump
  rw [destination?, if_neg (by simp [hjump]), if_neg hjump.2.2, if_neg hret,
    if_neg hwaits, if_neg hskips]

theorem destination?_of_plain (hfamily : (family w).val ∈ [0x6, 0x7, 0x8, 0xA, 0xC, 0xD]) :
    m.destination? w = some (m.pc.toNat + 2) := by
  simp only [List.mem_cons, List.not_mem_nil, or_false] at hfamily
  refine destination?_of_ahead ?_ ?_ ?_ ?_
  · simp only [List.mem_cons, List.not_mem_nil, or_false]
    omega
  · intro hret
    have hzero := family_of_ret hret
    omega
  · intro hwaits
    have hfifteen := hwaits.1.1
    omega
  · simp only [Skips, Fits]
    omega

theorem destination?_of_waits (h : m.Waits w) : m.destination? w = some m.pc.toNat := by
  have hfamily : (family w).val = 0xF := h.1.1
  have hret : w.toNat ≠ 0x00EE := fun hret => by
    rw [family_of_ret hret] at hfamily
    cases hfamily
  rw [destination?, if_neg (by simp [hfamily]), if_neg (by simp [hfamily]), if_neg hret,
    if_pos h]

theorem destination?_of_misc (hfamily : (family w).val = 0xF) (hwaits : ¬ m.Waits w) :
    m.destination? w = some (m.pc.toNat + 2) := by
  refine destination?_of_ahead (by simp [hfamily]) ?_ hwaits (by simp [Skips, Fits, hfamily])
  intro hret
  rw [family_of_ret hret] at hfamily
  cases hfamily

theorem destination?_of_undecodable (h : Instruction.decode? w = none) :
    m.destination? w = some (m.pc.toNat + 2) := by
  have hnot : ∀ i : Instruction, ¬ i.SpelledBy w := by
    intro i hi
    rw [Instruction.decode?_of_spelledBy hi] at h
    cases h
  refine destination?_of_ahead ?_ (hnot (.system .ret)) ?_ ?_
  · simp only [List.mem_cons, List.not_mem_nil, or_false]
    rintro (hone | htwo | heleven)
    · exact hnot (.jump (nnn w)) ⟨hone, rfl⟩
    · exact hnot (.call (nnn w)) ⟨htwo, rfl⟩
    · exact hnot (.jumpOffset (nnn w)) ⟨heleven, rfl⟩
  · intro hwaits
    exact hnot (.misc .awaitKey (x w)) ⟨hwaits.1.1, rfl, hwaits.1.2⟩
  · rintro (⟨h3, -⟩ | ⟨h4, -⟩ | ⟨h5, hzero, -⟩ | ⟨h9, hzero, -⟩ | ⟨hE, -⟩ | ⟨hE, -⟩)
    · exact hnot (.skipIfEqual (x w) (nn w)) ⟨h3, rfl, rfl⟩
    · exact hnot (.skipIfNotEqual (x w) (nn w)) ⟨h4, rfl, rfl⟩
    · exact hnot (.skipIfSame (x w) (y w)) ⟨h5, rfl, rfl, hzero⟩
    · exact hnot (.skipIfDifferent (x w) (y w)) ⟨h9, rfl, rfl, hzero⟩
    · exact hnot (.key .pressed (x w)) ⟨hE.1, rfl, hE.2⟩
    · exact hnot (.key .notPressed (x w)) ⟨hE.1, rfl, hE.2⟩

theorem toNat_address (target : Address) : (UInt16.ofNat target).toNat = target :=
  UInt16.toNat_ofNat_of_lt' (Nat.lt_trans target.isLt (by decide))

theorem destination?_of_perform {effect : Effect} (hpc : m.pc.toNat + 1 < memorySize)
    (hi : i.SpelledBy w) (h : m.perform i = (m', .ok effect)) :
    m.destination? w = some (effect.advance.apply m.pc).toNat := by
  cases i with
  | system op =>
      have hfamily := family_of_code hi
      have hcode : w.toNat = op.code := hi
      cases op with
      | clear =>
          cases h
          simp [destination?, Waits, Skips, Fits, hfamily, hcode, SystemOp.code,
            toNat_apply_next hpc]
      | ret =>
          simp only [perform, system] at h
          split at h <;> cases h
          case h_2 address stack hpop =>
            simp [destination?, hfamily, hcode, SystemOp.code,
              CallStack.addresses_of_pop hpop, Advance.apply]
  | jump target =>
      obtain ⟨hfamily, rfl⟩ := hi
      cases h
      simp only [destination?, hfamily, Advance.apply, toNat_address]
      rfl
  | call target =>
      obtain ⟨hfamily, rfl⟩ := hi
      simp only [perform, call] at h
      split at h <;> cases h
      simp only [destination?, hfamily, Advance.apply, toNat_address]
      rfl
  | jumpOffset target =>
      obtain ⟨hfamily, rfl⟩ := hi
      cases h
      have hbyte := (m.v.get ⟨0, by decide⟩).toNat_lt
      have hsum : (UInt16.ofNat ((nnn w).val + (m.v.get ⟨0, by decide⟩).toNat)).toNat =
          (nnn w).val + (m.v.get ⟨0, by decide⟩).toNat :=
        UInt16.toNat_ofNat_of_lt' (by simp only [UInt16.size]; omega)
      simp only [destination?, hfamily, Advance.apply, hsum]
      rfl
  | skipIfEqual r byte | skipIfNotEqual r byte =>
      obtain ⟨hfamily, rfl, rfl⟩ := hi
      cases h
      rw [toNat_apply_skipWhen hpc]
      refine destination?_of_skipping (by simp [hfamily]) ?_
      simp [Skips, Fits, hfamily]
      rfl
  | skipIfSame r s | skipIfDifferent r s =>
      obtain ⟨hfamily, rfl, rfl, hzero⟩ := hi
      cases h
      rw [toNat_apply_skipWhen hpc]
      refine destination?_of_skipping (by simp [hfamily]) ?_
      simp [Skips, Fits, hfamily, hzero]
      rfl
  | key op r =>
      obtain ⟨hfamily, rfl, hcode⟩ := hi
      cases op <;> cases h <;> rw [toNat_apply_skipWhen hpc] <;>
        refine destination?_of_skipping (by simp [hfamily]) ?_ <;>
        simp [Skips, Fits, hfamily, hcode, KeyOp.code, KeyLatch.isPressed] <;> rfl
  | load | add | random | setIndex =>
      cases h
      rw [toNat_apply_next hpc]
      exact destination?_of_plain (by simp [hi.1])
  | alu op r s =>
      simp only [perform, alu] at h
      split at h <;> cases h <;> rw [toNat_apply_next hpc] <;>
        exact destination?_of_plain (by simp [hi.1])
  | draw r s rows =>
      simp only [perform, draw] at h
      split at h <;> cases h
      rw [toNat_apply_next hpc]
      exact destination?_of_plain (by simp [hi.1])
  | misc op r =>
      obtain ⟨hfamily, rfl, hcode⟩ := hi
      have hwaits : m.Waits w ↔ op = .awaitKey ∧ m.keys.get = none := by
        simp only [Waits, Fits, hfamily, hcode]
        cases op <;> simp [MiscOp.code]
      obtain ⟨rfl, -, -⟩ := misc_eq_ok h
      split
      case isTrue hstay =>
          rw [destination?_of_waits (hwaits.mpr hstay), toNat_apply_stay]
      case isFalse hnext =>
          rw [destination?_of_misc hfamily (mt hwaits.mp hnext), toNat_apply_next hpc]

/-! ## Steps -/

theorem destination?_of_step {signal : Signal} (hword : m.NextWord w)
    (hstep : m.step = (m', .ok signal)) : m.destination? w = some m'.pc.toNat := by
  have hfetch := Memory.fetch_eq_ok_iff.mpr hword
  cases hdecode : Instruction.decode? w with
  | none =>
      rw [step_of_undecodable hfetch hdecode] at hstep
      cases hstep
      rw [destination?_of_undecodable hdecode]
      exact congrArg some (toNat_apply_next hword.1).symm
  | some i =>
      rw [step_of_fetch hfetch hdecode] at hstep
      obtain ⟨performed, effect, hperform, rfl, -⟩ := execute_eq_ok hstep
      have hpc : performed.pc = m.pc := by
        have hkept := (perform_keeps { m with word := w } i).2.2.1
        rwa [hperform] at hkept
      have hi := Instruction.spelledBy_of_decode? hdecode
      have hled := destination?_of_perform (m := { m with word := w }) hword.1 hi hperform
      rw [move, hpc]
      exact hled

theorem signal_eq_cleared_iff (keys : KeyLatch) :
    Word.signal keys w = .cleared ↔ w.toNat = 0x00E0 := by
  constructor
  · intro h
    exact Instruction.spelledBy_of_decode? (signal_eq_cleared h)
  · intro h
    have hi : (Instruction.system .clear).SpelledBy w := h
    rw [Word.signal, Instruction.decode?_of_spelledBy hi]
    rfl

theorem signal_eq_drawn_iff (keys : KeyLatch) :
    Word.signal keys w = .drawn ↔ (family w).val = 0xD := by
  constructor
  · intro h
    obtain ⟨r, s, rows, hdecode⟩ := signal_eq_drawn h
    exact (Instruction.spelledBy_of_decode? hdecode).1
  · intro h
    have hi : (Instruction.draw (x w) (y w) (n w)).SpelledBy w := ⟨h, rfl, rfl, rfl⟩
    rw [Word.signal, Instruction.decode?_of_spelledBy hi]
    rfl

theorem decode?_awaitKey (h : Fits w 0xF 0x0A) :
    Instruction.decode? w = some (.misc .awaitKey (x w)) := decode?_of_fits h

theorem signal_eq_waiting_iff : Word.signal m.keys w = .waiting ↔ m.Waits w := by
  constructor
  · intro h
    unfold Word.signal at h
    split at h
    case h_2 => cases h
    case h_1 i hdecode =>
        unfold Instruction.signal at h
        split at h
        · cases h
        · cases h
        · have hi := Instruction.spelledBy_of_decode? hdecode
          split at h
          case isTrue hkey => exact ⟨⟨hi.1, hi.2.2⟩, hkey⟩
          case isFalse => cases h
        · cases h
  · rintro ⟨hfits, hkey⟩
    rw [Word.signal, decode?_awaitKey hfits]
    exact if_pos hkey

/-! ## Pairs of opposite conditions -/

/-- One of two instructions goes over the next word, and the other one to it. -/
def SkipsOneOf (m : Machine) (i j : Instruction) : Prop :=
  let behind : Machine := { m with pc := m.pc + 4 }
  let next : Machine := { m with pc := m.pc + 2 }
  (m.execute i = (behind, .ok .quiet) ∧ m.execute j = (next, .ok .quiet)) ∨
    (m.execute i = (next, .ok .quiet) ∧ m.execute j = (behind, .ok .quiet))

theorem skipsOneOf_of_branch {i j : Instruction} {condition : Bool}
    (hi : m.perform i = m.branch (.skipWhen condition))
    (hj : m.perform j = m.branch (.skipWhen (!condition))) : m.SkipsOneOf i j := by
  rw [SkipsOneOf, execute_of_ok hi, execute_of_ok hj]
  cases condition with
  | false => exact .inr ⟨rfl, rfl⟩
  | true => exact .inl ⟨rfl, rfl⟩

theorem execute_pressed_of_no_key (hkeys : m.keys.Made) {r : Register}
    (hr : 15 < (m.v.get r).toNat) :
    m.execute (.key .pressed r) = ({ m with pc := m.pc + 2 }, .ok .quiet) := by
  have hpressed : m.keys.isPressed m.v[r] = false := by
    rw [KeyLatch.isPressed, beq_eq_false_iff_ne]
    intro hkey
    exact absurd (hkeys.get_le hkey) (Nat.not_le.mpr hr)
  have hperform : m.perform (.key .pressed r) = m.branch (.skipWhen false) := by
    simp only [perform, key, hpressed]
  exact execute_of_ok hperform

end Machine

end Chip8VM
