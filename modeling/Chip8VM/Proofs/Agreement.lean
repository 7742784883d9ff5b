import Chip8VM.Proofs.ControlFlow
import Chip8VM.Proofs.Run

/-!
# What execution reads

Machines that agree on the memory, the registers, the program counter, the call
stack, the delay timer, the keys and the random bytes to come go through every
run alike.  Nothing reads the name, the word fetched last or the sound timer,
and only a drawing reads the screen.
-/

namespace Chip8VM

namespace RandomStream

def rest (r : RandomStream) (k : Nat) : UInt8 := r.byte (r.drawn + k)

theorem draw_fst (r : RandomStream) : r.draw.1 = r.rest 0 := rfl

theorem rest_draw (r : RandomStream) : r.draw.2.rest = fun k => r.rest (k + 1) := by
  funext k
  simp only [rest, draw, Nat.add_assoc, Nat.add_comm 1 k]

end RandomStream

namespace Machine

/-- The machines are alike in what is read; `screens` and `sounds` tell whether their
screens and their sound timers are alike, too. -/
structure Agree (screens sounds : Prop) (m m' : Machine) : Prop where
  memory : m.memory = m'.memory := by rfl
  v : m.v = m'.v := by rfl
  index : m.index = m'.index := by rfl
  pc : m.pc = m'.pc := by rfl
  stack : m.stack = m'.stack := by rfl
  delay : m.timers.delay = m'.timers.delay := by rfl
  keys : m.keys = m'.keys := by rfl
  random : m.random.rest = m'.random.rest
  screen : screens → m.screen = m'.screen
  sound : sounds → m.timers.sound = m'.timers.sound

variable {screens sounds : Prop} {m m' : Machine}

theorem Agree.perform (h : Agree screens sounds m m') {i : Instruction}
    (hdrawn : ∀ effect, (m.perform i).2 = .ok effect → effect.signal = .drawn → screens) :
    (m.perform i).2 = (m'.perform i).2 ∧
      Agree screens sounds (m.perform i).1 (m'.perform i).1 := by
  obtain ⟨name, word, memory, v, index, pc, stack, screen, ⟨delay, sound⟩, keys, random⟩ := m
  obtain ⟨name', word', memory', v', index', pc', stack', screen', ⟨delay', sound'⟩, keys',
    random'⟩ := m'
  obtain ⟨hmemory, hv, hindex, hpc, hstack, hdelay, hkeys, hrandom, hscreen, hsound⟩ := h
  dsimp only at *
  subst hmemory hv hindex hpc hstack hdelay hkeys
  cases i with
  | system op =>
      cases op with
      | clear => exact ⟨rfl, { random := hrandom, screen := fun _ => rfl, sound := hsound }⟩
      | ret =>
          simp only [Machine.perform, Machine.system]
          split <;> exact ⟨rfl, { random := hrandom, screen := hscreen, sound := hsound }⟩
  | jump | skipIfEqual | skipIfNotEqual | skipIfSame | skipIfDifferent | load | add
  | setIndex | jumpOffset =>
      exact ⟨rfl, { random := hrandom, screen := hscreen, sound := hsound }⟩
  | call target =>
      simp only [Machine.perform, Machine.call]
      split <;> exact ⟨rfl, { random := hrandom, screen := hscreen, sound := hsound }⟩
  | alu op x y =>
      simp only [Machine.perform, Machine.alu]
      split <;> exact ⟨rfl, { random := hrandom, screen := hscreen, sound := hsound }⟩
  | random x mask =>
      refine ⟨rfl, { v := ?_, random := ?_, screen := hscreen, sound := hsound }⟩
      · have hbyte : random.draw.1 = random'.draw.1 := by
          rw [RandomStream.draw_fst, RandomStream.draw_fst, hrandom]
        simp only [Machine.perform, randomByte, setRegister, done, hbyte]
      · have hlater : random.draw.2.rest = random'.draw.2.rest := by
          rw [RandomStream.rest_draw, RandomStream.rest_draw, hrandom]
        exact hlater
  | draw x y rows =>
      simp only [Machine.perform, Machine.draw] at hdrawn ⊢
      split
      case h_1 =>
          exact ⟨rfl, { random := hrandom, screen := hscreen, sound := hsound }⟩
      case h_2 sprite hread =>
          simp only [hread] at hdrawn
          have hsame : screen = screen' := hscreen (hdrawn _ rfl rfl)
          subst hsame
          exact ⟨rfl, { random := hrandom, screen := fun _ => rfl, sound := hsound }⟩
  | key op x =>
      cases op <;> exact ⟨rfl, { random := hrandom, screen := hscreen, sound := hsound }⟩
  | misc op x =>
      cases op with
      | getDelay | setDelay | addToIndex | glyph =>
          exact ⟨rfl, { random := hrandom, screen := hscreen, sound := hsound }⟩
      | setSound =>
          exact ⟨rfl, { random := hrandom, screen := hscreen, sound := fun _ => rfl }⟩
      | awaitKey =>
          simp only [Machine.perform, Machine.misc]
          split <;> exact ⟨rfl, { random := hrandom, screen := hscreen, sound := hsound }⟩
      | storeDigits =>
          simp only [Machine.perform, Machine.misc, Machine.storeDigits]
          split <;> exact ⟨rfl, { random := hrandom, screen := hscreen, sound := hsound }⟩
      | storeRegisters =>
          simp only [Machine.perform, Machine.misc, Machine.storeRegisters, registersUpTo,
            indexPast]
          split <;> exact ⟨rfl, { random := hrandom, screen := hscreen, sound := hsound }⟩
      | loadRegisters =>
          simp only [Machine.perform, Machine.misc, Machine.loadRegisters, indexPast]
          split <;> exact ⟨rfl, { random := hrandom, screen := hscreen, sound := hsound }⟩

/-- What holds of two machines after an instruction holds after its advance as well, if a
common move of the program counters does not disturb it. -/
theorem execute_related {R : Machine → Machine → Prop}
    (hmove : ∀ n n' advance, R n n' → R (n.move advance) (n'.move advance))
    {i : Instruction} (hresult : (m.perform i).2 = (m'.perform i).2)
    (hperform : R (m.perform i).1 (m'.perform i).1) :
    (m.execute i).2 = (m'.execute i).2 ∧ R (m.execute i).1 (m'.execute i).1 := by
  cases hfound : (m.perform i).2 with
  | error fault =>
      rw [hfound] at hresult
      rw [execute_of_error (Prod.ext rfl hfound), execute_of_error (Prod.ext rfl hresult.symm)]
      exact ⟨rfl, hperform⟩
  | ok effect =>
      rw [hfound] at hresult
      rw [execute_of_ok (Prod.ext rfl hfound), execute_of_ok (Prod.ext rfl hresult.symm)]
      exact ⟨rfl, hmove _ _ effect.advance hperform⟩

theorem Agree.move {advance : Advance} (h : Agree screens sounds m m') :
    Agree screens sounds (m.move advance) (m'.move advance) :=
  { h with pc := congrArg advance.apply h.pc }

theorem Agree.execute (h : Agree screens sounds m m') {i : Instruction}
    (hdrawn : (m.execute i).2 = .ok .drawn → screens) :
    (m.execute i).2 = (m'.execute i).2 ∧
      Agree screens sounds (m.execute i).1 (m'.execute i).1 := by
  have hperform : ∀ effect, (m.perform i).2 = .ok effect → effect.signal = .drawn →
      screens := by
    intro effect heffect hsignal
    rw [execute_of_ok (Prod.ext rfl heffect), hsignal] at hdrawn
    exact hdrawn rfl
  obtain ⟨hresult, hagree⟩ := h.perform hperform
  exact execute_related (fun _ _ _ h => h.move) hresult hagree

theorem Agree.step (h : Agree screens sounds m m')
    (hdrawn : m.step.2 = .ok .drawn → screens) :
    m.step.2 = m'.step.2 ∧ Agree screens sounds m.step.1 m'.step.1 := by
  have hsame : m'.memory.fetch m'.pc.toNat = m.memory.fetch m.pc.toNat := by
    rw [h.memory, h.pc]
  cases hfetch : m.memory.fetch m.pc.toNat with
  | error e =>
      rw [hfetch] at hsame
      rw [step_of_fetch_error hfetch, step_of_fetch_error hsame]
      exact ⟨rfl, h⟩
  | ok word =>
      rw [hfetch] at hsame
      have hfetched : Agree screens sounds { m with word } { m' with word } := { h with }
      cases hdecode : Instruction.decode? word with
      | none =>
          rw [step_of_undecodable hfetch hdecode, step_of_undecodable hsame hdecode]
          exact ⟨rfl, { hfetched with pc := congrArg Advance.next.apply h.pc }⟩
      | some i =>
          rw [step_of_fetch hfetch hdecode] at hdrawn ⊢
          rw [step_of_fetch hsame hdecode]
          exact hfetched.execute hdrawn

/-! ## Operations -/

theorem Agree.serve_outside (h : Agree screens sounds m m') {op : Operation}
    (hop : op.isOutside) : Agree screens sounds (m.serve op).1 (m'.serve op).1 := by
  cases op with
  | step | load | loadRom | reset => simp [Operation.isOutside] at hop
  | pressKey key =>
      simp only [Machine.serve, Machine.pressKey, h.keys]
      cases m'.keys.set key with
      | error e => exact h
      | ok keys => exact { h with keys := rfl }
  | setDelay value => exact { h with delay := rfl }
  | setSound value => exact { h with sound := fun _ => rfl }
  | resetTimers => exact { h with delay := rfl, sound := fun _ => rfl }
  | tick =>
      exact { h with
        delay := congrArg Timers.countDown h.delay
        sound := fun hsounds => congrArg Timers.countDown (h.sound hsounds) }

theorem Agree.serve_outside_answer (h : Agree screens sounds m m') {op : Operation}
    (hop : op.isOutside) (hsounds : op = .tick → sounds) :
    (m.serve op).2 = (m'.serve op).2 := by
  cases op with
  | step | load | loadRom | reset => simp [Operation.isOutside] at hop
  | pressKey key =>
      simp only [Machine.serve, Machine.pressKey, h.keys]
      cases m'.keys.set key with
      | error e => rfl
      | ok keys => rfl
  | setDelay | setSound | resetTimers => rfl
  | tick =>
      simp only [Machine.serve, Machine.tick, Timers.tick, Timers.beeping, h.sound (hsounds rfl)]

end Machine

end Chip8VM
