import Chip8VM.Proofs.Failure

/-!
# Signals and the screen

A successful instruction signals what it has done to the screen: it was cleared,
it was drawn on, or it is what it was.  A failing one leaves the screen alone.
-/

namespace Chip8VM

def Instruction.signal (keys : KeyLatch) : Instruction → Signal
  | .system .clear => .cleared
  | .draw _ _ _ => .drawn
  | .misc .awaitKey _ => if keys.get = none then .waiting else .quiet
  | _ => .quiet

def Word.signal (keys : KeyLatch) (word : UInt16) : Signal :=
  match Instruction.decode? word with
  | some i => i.signal keys
  | none => .quiet

/-- What a signal says about the screen before and after. -/
def Signal.Shows (before after : Screen) : Signal → Prop
  | .cleared => after = .blank
  | .drawn => True
  | .quiet | .waiting => after = before

theorem Word.signal_eq_cleared {keys : KeyLatch} {word : UInt16}
    (h : Word.signal keys word = .cleared) :
    Instruction.decode? word = some (.system .clear) := by
  unfold Word.signal at h
  split at h
  case h_2 => cases h
  case h_1 i hdecode =>
      rw [hdecode]
      unfold Instruction.signal at h
      split at h
      · rfl
      · cases h
      · split at h <;> cases h
      · cases h

theorem Word.signal_eq_drawn {keys : KeyLatch} {word : UInt16}
    (h : Word.signal keys word = .drawn) :
    ∃ x y rows, Instruction.decode? word = some (.draw x y rows) := by
  unfold Word.signal at h
  split at h
  case h_2 => cases h
  case h_1 i hdecode =>
      rw [hdecode]
      unfold Instruction.signal at h
      split at h
      · cases h
      · exact ⟨_, _, _, rfl⟩
      · split at h <;> cases h
      · cases h

namespace Machine

theorem signal_of_perform {m m' : Machine} {i : Instruction} {effect : Effect}
    (h : m.perform i = (m', .ok effect)) :
    effect.signal = i.signal m.keys ∧ effect.signal.Shows m.screen m'.screen := by
  cases i with
  | system op =>
      cases op with
      | clear => cases h; exact ⟨rfl, rfl⟩
      | ret =>
          simp only [perform, system] at h
          split at h <;> cases h
          exact ⟨rfl, rfl⟩
  | jump | skipIfEqual | skipIfNotEqual | skipIfSame | skipIfDifferent | load | add
  | setIndex | jumpOffset | random =>
      cases h; exact ⟨rfl, rfl⟩
  | call target =>
      simp only [perform, call] at h
      split at h <;> cases h
      exact ⟨rfl, rfl⟩
  | key op x => cases op <;> (cases h; exact ⟨rfl, rfl⟩)
  | alu op x y =>
      simp only [perform, alu] at h
      split at h <;> (cases h; exact ⟨rfl, rfl⟩)
  | draw x y rows =>
      simp only [perform, draw] at h
      split at h <;> cases h
      exact ⟨rfl, trivial⟩
  | misc op x =>
      obtain ⟨rfl, -, hscreen⟩ := misc_eq_ok h
      split
      case isTrue hwaits =>
          obtain ⟨rfl, hkey⟩ := hwaits
          exact ⟨(if_pos hkey).symm, hscreen⟩
      case isFalse hgoes =>
          have hquiet : (Instruction.misc op x).signal m.keys = .quiet := by
            cases op with
            | awaitKey => exact if_neg fun hkey => hgoes ⟨rfl, hkey⟩
            | getDelay | setDelay | setSound | addToIndex | glyph | storeDigits
            | storeRegisters | loadRegisters => rfl
          exact ⟨hquiet.symm, hscreen⟩

theorem signal_of_execute {m m' : Machine} {i : Instruction} {signal : Signal}
    (h : m.execute i = (m', .ok signal)) :
    signal = i.signal m.keys ∧ signal.Shows m.screen m'.screen := by
  obtain ⟨performed, effect, hperform, rfl, rfl⟩ := execute_eq_ok h
  obtain ⟨hsignal, hshows⟩ := signal_of_perform hperform
  exact ⟨hsignal, hshows⟩

theorem signal_of_step {m m' : Machine} {signal : Signal} (h : m.step = (m', .ok signal)) :
    (∃ word, m.memory.fetch m.pc.toNat = .ok word ∧ signal = Word.signal m.keys word) ∧
      signal.Shows m.screen m'.screen := by
  cases hfetch : m.memory.fetch m.pc.toNat with
  | error e =>
      rw [step_of_fetch_error hfetch] at h
      cases h
  | ok word =>
      cases hdecode : Instruction.decode? word with
      | none =>
          rw [step_of_undecodable hfetch hdecode] at h
          cases h
          exact ⟨⟨word, rfl, by simp [Word.signal, hdecode]⟩, rfl⟩
      | some i =>
          rw [step_of_fetch hfetch hdecode] at h
          obtain ⟨hsignal, hshows⟩ := signal_of_execute h
          exact ⟨⟨word, rfl, by simpa [Word.signal, hdecode] using hsignal⟩, hshows⟩

theorem screen_of_failing_step {m m' : Machine} {fault : Fault}
    (h : m.step = (m', .error fault)) : m'.screen = m.screen := by
  obtain ⟨rfl, -⟩ := step_eq_error_iff.mp h
  unfold fetched
  split <;> rfl

end Machine

end Chip8VM
