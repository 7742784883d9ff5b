import Chip8VM.Proofs.Footprint
import Chip8VM.Proofs.Run

/-!
# Steps and the holders of timers and keys

What the holders write can be written before a step or after it, unless the word
of the step has to do with it: `FX07` reads the delay timer, `FX15` and `FX18`
write the timers, and `EX9E`, `EXA1` and `FX0A` read the key.  Runs that differ
only in such exchanges give the same answers and end in the same machine.
-/

namespace Chip8VM

/-- Whether the row of a word reads or writes what an operation writes. -/
def Word.Heeds (w : UInt16) : Operation → Prop
  | .tick | .resetTimers => Fits w 0xF 0x07 ∨ Fits w 0xF 0x15 ∨ Fits w 0xF 0x18
  | .setDelay _ => Fits w 0xF 0x07 ∨ Fits w 0xF 0x15
  | .setSound _ => Fits w 0xF 0x18
  | .pressKey _ => Fits w 0xE 0x9E ∨ Fits w 0xE 0xA1 ∨ Fits w 0xF 0x0A
  | .step | .load _ | .loadRom _ | .reset => True

namespace Operation

open Word

/-! ## What the holders write -/

def onTimers : Operation → Timers → Timers
  | .setDelay value, t => t.setDelay value
  | .setSound value, t => t.setSound value
  | .resetTimers, t => t.reset
  | .tick, t => t.tick.2
  | _, t => t

def onKeys : Operation → KeyLatch → KeyLatch
  | .pressKey key, keys => match keys.set key with
      | .error _ => keys
      | .ok pressed => pressed
  | _, keys => keys

section

variable {w : UInt16} {event : Operation} (hun : ¬ Heeds w event)

include hun

theorem delay_onTimers (hw : Fits w 0xF 0x07) (t : Timers) :
    (event.onTimers t).delay = t.delay := by
  cases event with
  | tick | resetTimers | setDelay => exact absurd (.inl hw) hun
  | step | load | loadRom | reset | pressKey | setSound => rfl

theorem onTimers_setDelay (hw : Fits w 0xF 0x15) (t : Timers) (value : UInt8) :
    event.onTimers (t.setDelay value) = (event.onTimers t).setDelay value := by
  cases event with
  | tick | resetTimers => exact absurd (.inr (.inl hw)) hun
  | setDelay => exact absurd (.inr hw) hun
  | step | load | loadRom | reset | pressKey | setSound => rfl

theorem onTimers_setSound (hw : Fits w 0xF 0x18) (t : Timers) (value : UInt8) :
    event.onTimers (t.setSound value) = (event.onTimers t).setSound value := by
  cases event with
  | tick | resetTimers => exact absurd (.inr (.inr hw)) hun
  | setSound => exact absurd hw hun
  | step | load | loadRom | reset | pressKey | setDelay => rfl

theorem onKeys_eq (hw : Fits w 0xE 0x9E ∨ Fits w 0xE 0xA1 ∨ Fits w 0xF 0x0A)
    (keys : KeyLatch) : event.onKeys keys = keys := by
  cases event with
  | pressKey => exact absurd hw hun
  | step | load | loadRom | reset | tick | resetTimers | setDelay | setSound => rfl

end

end Operation

namespace Machine

open Word

def touch (m : Machine) (event : Operation) : Machine :=
  { m with timers := event.onTimers m.timers, keys := event.onKeys m.keys }

theorem serve_eq_touch (m : Machine) {event : Operation} (h : event.isOutside) :
    (m.serve event).1 = m.touch event := by
  cases event with
  | step | load | loadRom | reset => simp [Operation.isOutside] at h
  | pressKey key =>
      simp only [serve, pressKey, touch, Operation.onKeys]
      cases m.keys.set key <;> rfl
  | setDelay | setSound | resetTimers | tick => rfl

/-! ## Instructions -/

variable {m : Machine} {w : UInt16} {event : Operation}

theorem perform_touch {i : Instruction} (hw : i.SpelledBy w) (hun : ¬ Heeds w event) :
    (m.touch event).perform i = ((m.perform i).1.touch event, (m.perform i).2) := by
  cases i with
  | system op =>
      cases op with
      | clear => rfl
      | ret =>
          simp only [perform, system, touch]
          cases m.stack.pop <;> rfl
  | jump | skipIfEqual | skipIfNotEqual | skipIfSame | skipIfDifferent | load | add
  | setIndex | jumpOffset | random => rfl
  | call target =>
      simp only [perform, call, touch]
      cases m.stack.push (m.pc + Advance.next.distance) <;> rfl
  | alu op r s =>
      simp only [perform, alu, touch]
      cases op.flag? m.v[r] m.v[s] <;> rfl
  | draw r s rows =>
      simp only [perform, draw, touch]
      cases m.memory.read m.index.toNat rows <;> rfl
  | key op r =>
      obtain ⟨hfamily, -, hcode⟩ := hw
      have hkeys : event.onKeys m.keys = m.keys := by
        refine Operation.onKeys_eq hun ?_ m.keys
        cases op with
        | pressed => exact .inl ⟨hfamily, hcode⟩
        | notPressed => exact .inr (.inl ⟨hfamily, hcode⟩)
      cases op <;> simp [perform, key, touch, hkeys, branch]
  | misc op r =>
      obtain ⟨hfamily, -, hcode⟩ := hw
      have hfits : Fits w 0xF op.code := ⟨hfamily, hcode⟩
      cases op with
      | getDelay =>
          have hdelay := Operation.delay_onTimers hun hfits m.timers
          simp [perform, misc, touch, setRegister, done, hdelay]
      | setDelay =>
          have hset := Operation.onTimers_setDelay hun hfits m.timers m.v[r]
          simp only [perform, misc, touch, Machine.setDelay, done, hset]
      | setSound =>
          have hset := Operation.onTimers_setSound hun hfits m.timers m.v[r]
          simp only [perform, misc, touch, Machine.setSound, done, hset]
      | awaitKey =>
          have hkeys := Operation.onKeys_eq hun (.inr (.inr hfits)) m.keys
          simp only [perform, misc, touch, hkeys]
          cases hkey : m.keys.get <;> simp [done, setRegister, hkeys]
      | addToIndex | glyph => rfl
      | storeDigits =>
          simp only [perform, misc, storeDigits, touch]
          cases m.memory.write m.index.toNat (decimalDigits m.v[r]) <;> rfl
      | storeRegisters =>
          simp only [perform, misc, storeRegisters, registersUpTo, touch]
          cases m.memory.write m.index.toNat (m.v.toList.take (r.val + 1)) <;> rfl
      | loadRegisters =>
          simp only [perform, misc, loadRegisters, touch]
          cases m.memory.read m.index.toNat (r.val + 1) <;> simp only [fail, done, indexPast]

theorem execute_touch {i : Instruction} (hw : i.SpelledBy w) (hun : ¬ Heeds w event) :
    (m.touch event).execute i = ((m.execute i).1.touch event, (m.execute i).2) := by
  have hperform := perform_touch (m := m) hw hun
  cases hresult : (m.perform i).2 with
  | error fault =>
      rw [hresult] at hperform
      rw [execute_of_error hperform, execute_of_error (Prod.ext rfl hresult)]
  | ok effect =>
      rw [hresult] at hperform
      rw [execute_of_ok hperform, execute_of_ok (Prod.ext rfl hresult)]
      rfl

/-! ## Steps -/

def StepHeeds (m : Machine) (op : Operation) : Prop :=
  ∃ word, m.memory.fetch m.pc.toNat = .ok word ∧ Heeds word op

theorem step_touch (hun : ¬ m.StepHeeds event) :
    (m.touch event).step = (m.step.1.touch event, m.step.2) := by
  have hsame : (m.touch event).memory.fetch (m.touch event).pc.toNat =
      m.memory.fetch m.pc.toNat := rfl
  cases hfetch : m.memory.fetch m.pc.toNat with
  | error e =>
      rw [hfetch] at hsame
      rw [step_of_fetch_error hfetch, step_of_fetch_error hsame]
  | ok word =>
      rw [hfetch] at hsame
      have hword : ¬ Heeds word event := fun h => hun ⟨word, hfetch, h⟩
      cases hdecode : Instruction.decode? word with
      | none =>
          rw [step_of_undecodable hfetch hdecode, step_of_undecodable hsame hdecode]
          rfl
      | some i =>
          rw [step_of_fetch hfetch hdecode, step_of_fetch hsame hdecode]
          exact execute_touch (m := { m with word }) (Instruction.spelledBy_of_decode? hdecode)
            hword

theorem sound_step (hun : ¬ m.StepHeeds .tick) :
    m.step.1.timers.sound = m.timers.sound := by
  cases hfetch : m.memory.fetch m.pc.toNat with
  | error e => rw [step_of_fetch_error hfetch]
  | ok word =>
      rcases hstep : m.step with ⟨m', result⟩
      cases result with
      | error fault =>
          obtain ⟨rfl, -⟩ := step_eq_error_iff.mp hstep
          simp only [fetched, hfetch]
      | ok signal =>
          rcases (within_of_step hfetch hstep).sound with hkept | hset
          · exact hkept
          · exact absurd ⟨word, hfetch, .inr (.inr hset)⟩ hun

theorem serve_step_answer (houtside : event.isOutside) (hun : ¬ m.StepHeeds event) :
    (m.step.1.serve event).2 = (m.serve event).2 := by
  cases event with
  | step | load | loadRom | reset => simp [Operation.isOutside] at houtside
  | pressKey key =>
      simp only [serve, pressKey, m.step_keeps.2]
      cases m.keys.set key <;> rfl
  | setDelay | setSound | resetTimers => rfl
  | tick => simp only [serve, Machine.tick, Timers.tick, Timers.beeping, sound_step hun]

theorem step_serve (houtside : event.isOutside) (hun : ¬ m.StepHeeds event) :
    (m.serve event).1.step = ((m.step.1.serve event).1, m.step.2) := by
  rw [m.serve_eq_touch houtside, m.step.1.serve_eq_touch houtside, step_touch hun]

/-! ## Interleavings -/

/-- The runs differ by events that were moved past steps that do not heed them.  The
condition speaks of the machine before both; the step fetches the same word after the
event. -/
inductive Rearranged : Machine → List Operation → List Operation → Prop
  | refl (m : Machine) (ops : List Operation) : Rearranged m ops ops
  | symm {m : Machine} {ops ops' : List Operation} (h : Rearranged m ops ops') :
      Rearranged m ops' ops
  | trans {m : Machine} {ops ops' ops'' : List Operation} (h : Rearranged m ops ops')
      (h' : Rearranged m ops' ops'') : Rearranged m ops ops''
  | cons {m : Machine} (op : Operation) {ops ops' : List Operation}
      (h : Rearranged (m.serve op).1 ops ops') : Rearranged m (op :: ops) (op :: ops')
  | move {m : Machine} {event : Operation} (houtside : event.isOutside)
      (hun : ¬ m.StepHeeds event) (ops : List Operation) :
      Rearranged m (event :: .step :: ops) (.step :: event :: ops)

end Machine

def Answer.result? : Answer → Option (Except Fault Signal)
  | .stepped result => some result
  | _ => none

@[simp] theorem Answer.result?_stepped (result : Except Fault Signal) :
    (Answer.stepped result).result? = some result := rfl

namespace Machine

structure SameRun (m : Machine) (ops ops' : List Operation) : Prop where
  after : m.after ops = m.after ops'
  results : (m.run ops).2.filterMap Answer.result? = (m.run ops').2.filterMap Answer.result?
  others : (m.run ops).2.filter (fun answer => answer.result?.isNone) =
    (m.run ops').2.filter (fun answer => answer.result?.isNone)

theorem result?_serve {m : Machine} {event : Operation} (houtside : event.isOutside) :
    (m.serve event).2.result? = none := by
  cases hresult : (m.serve event).2 with
  | stepped result => exact absurd hresult (serve_outside_answer m houtside result)
  | done | loaded | latched | ticked => rfl

theorem sameRun_move {m : Machine} {event : Operation} (houtside : event.isOutside)
    (hun : ¬ m.StepHeeds event) (ops : List Operation) :
    m.SameRun (event :: .step :: ops) (.step :: event :: ops) := by
  have hboth := step_serve houtside hun
  have hanswer := serve_step_answer houtside hun
  have hother : (m.serve event).2.result? = none := result?_serve houtside
  constructor
  · simp [hboth]
  · simp [run_cons, hboth, hanswer, hother]
  · simp [run_cons, hboth, hanswer, hother]

theorem SameRun.cons {m : Machine} {op : Operation} {ops ops' : List Operation}
    (h : (m.serve op).1.SameRun ops ops') : m.SameRun (op :: ops) (op :: ops') := by
  obtain ⟨hafter, hresults, hothers⟩ := h
  constructor
  · exact hafter
  · simp only [run_cons, List.filterMap_cons, hresults]
  · simp only [run_cons, List.filter_cons, hothers]

theorem Rearranged.sameRun {m : Machine} {ops ops' : List Operation}
    (h : m.Rearranged ops ops') : m.SameRun ops ops' := by
  induction h with
  | refl m ops => exact ⟨rfl, rfl, rfl⟩
  | symm _ ih => exact ⟨ih.after.symm, ih.results.symm, ih.others.symm⟩
  | trans _ _ ih ih' =>
      exact ⟨ih.after.trans ih'.after, ih.results.trans ih'.results,
        ih.others.trans ih'.others⟩
  | cons op _ ih => exact ih.cons
  | move houtside hun ops => exact sameRun_move houtside hun ops

/-- A tick, a write of a timer or a key commutes with a step that does not heed it, with
the same answers to both.  Runs that differ only in such exchanges are the same. -/
theorem events_commute_with_unrelated_steps :
    (∀ (m : Machine) (event : Operation), event.isOutside → ¬ m.StepHeeds event →
      ∃ (m' : Machine) (result : Except Fault Signal) (answer : Answer),
        m.run [event, .step] = (m', [answer, .stepped result]) ∧
        m.run [.step, event] = (m', [.stepped result, answer])) ∧
    (∀ (m : Machine) (ops ops' : List Operation), m.Rearranged ops ops' →
      m.after ops = m.after ops' ∧
        (m.run ops).2.filterMap Answer.result? = (m.run ops').2.filterMap Answer.result? ∧
        (m.run ops).2.filter (fun answer => answer.result?.isNone) =
          (m.run ops').2.filter (fun answer => answer.result?.isNone)) := by
  constructor
  · intro m event houtside hun
    have hboth := step_serve houtside hun
    have hanswer := serve_step_answer houtside hun
    exact ⟨(m.step.1.serve event).1, m.step.2, (m.serve event).2,
      by simp [run, hboth], by simp [run, hanswer]⟩
  · intro m ops ops' h
    exact ⟨h.sameRun.after, h.sameRun.results, h.sameRun.others⟩

/-- `F107` reads the delay timer: the tick stays before it, but the key may come later. -/
theorem key_pressed_before_or_after_timer_read :
    let m : Machine :=
      { fresh (.constant 0) with
        memory := ⟨Memory.place Memory.initial.cells programStart [0xF1, 0x07]⟩
        timers := ⟨9, 0⟩ }
    let ops : List Operation := [.tick, .pressKey (some 3), .step]
    let ops' : List Operation := [.tick, .step, .pressKey (some 3)]
    ¬ (m.serve .tick).1.StepHeeds (.pressKey (some 3)) ∧ m.Rearranged ops ops' ∧
      m.after ops = m.after ops' ∧
      ∃ m' result answer,
        (m.serve .tick).1.run [.pressKey (some 3), .step] = (m', [answer, .stepped result]) ∧
        (m.serve .tick).1.run [.step, .pressKey (some 3)] = (m', [.stepped result, answer]) := by
  intro m ops ops'
  have hfetch : m.memory.fetch m.pc.toNat = .ok 0xF107 :=
    @Memory.fetch_place Memory.initial.cells [0xF1, 0x07] programStart 0 0xF1 0x07
      (by decide) rfl rfl
  have hun : ¬ (m.serve .tick).1.StepHeeds (.pressKey (some 3)) := by
    rintro ⟨word, hword, hheeds⟩
    have hsame : word = 0xF107 := Except.ok.inj (hword.symm.trans hfetch)
    subst hsame
    revert hheeds
    simp only [Word.Heeds, Word.Fits]
    decide
  have hops : m.Rearranged ops ops' := .cons .tick (.move rfl hun [])
  exact ⟨hun, hops, (events_commute_with_unrelated_steps.2 m ops ops' hops).1,
    events_commute_with_unrelated_steps.1 (m.serve .tick).1 (.pressKey (some 3)) rfl hun⟩

end Machine

end Chip8VM
