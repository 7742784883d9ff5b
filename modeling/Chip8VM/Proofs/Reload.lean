import Chip8VM.Proofs.Agreement

/-!
# Reloading

A loaded program starts from a state that only the key latch and the random bytes
tie to what happened before.  A program that is too large is refused before
anything is written.
-/

namespace Chip8VM

namespace Machine

/-- Loading a program in place: between its two checks the machine is reset, so it would
stay reset and without a program if the second check failed. -/
def reload (m : Machine) (rom : Rom) : Machine × Except SizeError Unit :=
  match Memory.checkProgram rom.bytes with
  | .error e => (m, .error e)
  | .ok () =>
      match m.reset.load rom.bytes with
      | .error e => (m.reset, .error e)
      | .ok loaded => ({ loaded with name := rom.name }, .ok ())

def started (rom : Rom) (keys : KeyLatch) (random : RandomStream) : Machine :=
  { fresh random with
    name := rom.name
    memory := ⟨Memory.place Memory.initial.cells programStart rom.bytes⟩
    keys }

theorem reset_load_of_le (m : Machine) {program : List UInt8}
    (h : program.length ≤ programLimit) :
    m.reset.load program = .ok { m.reset with
      memory := ⟨Memory.place Memory.initial.cells programStart program⟩ } := by
  rw [load, Memory.load_of_le _ h]
  rfl

theorem reload_of_le (m : Machine) {rom : Rom} (h : rom.bytes.length ≤ programLimit) :
    m.reload rom = (started rom m.keys m.random, .ok ()) := by
  simp only [reload, Memory.checkProgram_of_le h, reset_load_of_le m h]
  rfl

theorem reload_of_lt (m : Machine) {rom : Rom} (h : programLimit < rom.bytes.length) :
    m.reload rom = (m, .error ⟨rom.bytes.length, programLimit⟩) := by
  simp [reload, Memory.checkProgram_of_lt h]

theorem serve_loadRom (m : Machine) (rom : Rom) :
    m.serve (.loadRom rom) = ((m.reload rom).1, .loaded (m.reload rom).2) := by
  rcases Nat.lt_or_ge programLimit rom.bytes.length with hlarge | hfits
  · simp [serve, loadRom, reload, Memory.checkProgram_of_lt hlarge]
  · simp [serve, loadRom, reload, Memory.checkProgram_of_le hfits, reset_load_of_le m hfits]

theorem serve_loadRom_fst (m : Machine) (rom : Rom) :
    (m.serve (.loadRom rom)).1 =
      if rom.bytes.length ≤ programLimit then started rom m.keys m.random else m := by
  rw [serve_loadRom]
  split
  case isTrue hfits => rw [m.reload_of_le hfits]
  case isFalse hlarge => rw [m.reload_of_lt (Nat.not_le.mp hlarge)]

/-! ## Machines that differ in their random streams -/

/-- All parts are the same, and so are the random bytes to come. -/
structure Twins (m m' : Machine) : Prop extends Agree True True m m' where
  name : m.name = m'.name
  word : m.word = m'.word

variable {m m' : Machine}

theorem Twins.eq (h : Twins m m') : m = { m' with random := m.random } := by
  obtain ⟨name, word, memory, v, index, pc, stack, screen, ⟨delay, sound⟩, keys, random⟩ := m
  obtain ⟨⟨hmemory, hv, hindex, hpc, hstack, hdelay, hkeys, -, hscreen, hsound⟩, hname, hword⟩ := h
  dsimp only at *
  simp [hmemory, hv, hindex, hpc, hstack, hdelay, hkeys, hscreen trivial, hsound trivial,
    hname, hword]

theorem Twins.step (h : Twins m m') : m.step.2 = m'.step.2 ∧ Twins m.step.1 m'.step.1 := by
  obtain ⟨hresult, hagree⟩ := h.toAgree.step fun _ => trivial
  have hname : m.step.1.name = m'.step.1.name := by
    rw [m.step_keeps.1, m'.step_keeps.1, h.name]
  have hsame : m'.memory.fetch m'.pc.toNat = m.memory.fetch m.pc.toNat := by
    rw [h.memory, h.pc]
  have hword : m.step.1.word = m'.step.1.word := by
    cases hfetch : m.memory.fetch m.pc.toNat with
    | error e =>
        rw [hfetch] at hsame
        rw [step_of_fetch_error hfetch, step_of_fetch_error hsame]
        exact h.word
    | ok word =>
        rw [hfetch] at hsame
        rw [step_word hfetch, step_word hsame]
  exact ⟨hresult, { hagree with name := hname, word := hword }⟩

theorem Twins.serve (h : Twins m m') {op : Operation} (hop : op.isRunning) :
    (m.serve op).2 = (m'.serve op).2 ∧ Twins (m.serve op).1 (m'.serve op).1 := by
  rcases Operation.isRunning_cases hop with rfl | houtside
  · obtain ⟨hresult, hstep⟩ := h.step
    rw [serve_step, serve_step, hresult]
    exact ⟨rfl, hstep⟩
  · have hagree := h.toAgree.serve_outside houtside
    have hanswer := h.toAgree.serve_outside_answer houtside fun _ => trivial
    obtain ⟨timers, keys, hserve⟩ := m.serve_outside houtside
    obtain ⟨timers', keys', hserve'⟩ := m'.serve_outside houtside
    have hname : (m.serve op).1.name = (m'.serve op).1.name := by rw [hserve, hserve', h.name]
    have hword : (m.serve op).1.word = (m'.serve op).1.word := by rw [hserve, hserve', h.word]
    exact ⟨hanswer, { hagree with name := hname, word := hword }⟩

theorem Twins.run (h : Twins m m') {ops : List Operation}
    (hops : ∀ op ∈ ops, op.isRunning) :
    (m.run ops).2 = (m'.run ops).2 ∧ Twins (m.after ops) (m'.after ops) := by
  induction ops generalizing m m' with
  | nil => exact ⟨rfl, h⟩
  | cons op ops ih =>
      obtain ⟨hanswer, hserved⟩ := h.serve (hops op List.mem_cons_self)
      obtain ⟨hanswers, hafter⟩ :=
        ih hserved fun later hmem => hops later (List.mem_cons_of_mem op hmem)
      rw [run_cons, run_cons, hanswer, hanswers]
      exact ⟨rfl, hafter⟩

/-- A program that fits starts as on a new machine and goes on as on a new machine; one
that is too large changes nothing. -/
theorem reload_leaves_no_trace (m : Machine) (random : RandomStream) (rom : Rom) :
    m.serve (.loadRom rom) = ((m.reload rom).1, .loaded (m.reload rom).2) ∧
    (rom.bytes.length ≤ 3584 →
      ∃ reloaded new : Machine,
        m.reload rom = (reloaded, .ok ()) ∧ (fresh random).reload rom = (new, .ok ()) ∧
        reloaded = { new with keys := m.keys, random := m.random } ∧
        ∀ (keys : KeyLatch) (stream other : RandomStream), stream.rest = other.rest →
          ∀ ops : List Operation, (∀ op ∈ ops, op.isRunning) →
            let first : Machine := { reloaded with keys, random := stream }
            let second : Machine := { new with keys, random := other }
            (first.run ops).2 = (second.run ops).2 ∧
            ∃ left : RandomStream, left.rest = (second.after ops).random.rest ∧
              first.after ops = { second.after ops with random := left }) ∧
    (3584 < rom.bytes.length → m.reload rom = (m, .error ⟨rom.bytes.length, 3584⟩)) := by
  refine ⟨m.serve_loadRom rom, ?_, m.reload_of_lt⟩
  intro hfits
  refine ⟨_, _, m.reload_of_le hfits, (fresh random).reload_of_le hfits, rfl, ?_⟩
  intro keys stream other hrest ops hops first second
  have htwins : Twins first second :=
    { random := hrest, screen := fun _ => rfl, sound := fun _ => rfl, name := rfl, word := rfl }
  obtain ⟨hanswers, hafter⟩ := htwins.run hops
  exact ⟨hanswers, _, hafter.random, hafter.eq⟩

theorem reload_after_other_program :
    let rom : Rom := ⟨"new", [0xC2, 0xFF]⟩
    let m := (fresh (.constant 7)).after [.loadRom ⟨"old", [0x60, 0x01]⟩, .step, .setSound 9]
    let ops : List Operation := [.step, .tick, .pressKey (some 3), .step]
    rom.bytes.length ≤ 3584 ∧ (∀ op ∈ ops, op.isRunning) ∧
      ∃ reloaded new : Machine,
        m.reload rom = (reloaded, .ok ()) ∧ (fresh (.constant 8)).reload rom = (new, .ok ()) ∧
        (Machine.run { reloaded with keys := {}, random := .constant 7 } ops).2 =
          (Machine.run { new with keys := {}, random := ⟨fun _ => 7, 1⟩ } ops).2 := by
  intro rom m ops
  have hfits : rom.bytes.length ≤ 3584 := by decide
  have hops : ∀ op ∈ ops, op.isRunning := by decide
  obtain ⟨reloaded, new, hm, hnew, -, hruns⟩ :=
    (reload_leaves_no_trace m (.constant 8) rom).2.1 hfits
  have hruns := hruns {} (.constant 7) ⟨fun _ => 7, 1⟩ rfl ops hops
  exact ⟨hfits, hops, reloaded, new, hm, hnew, hruns.1⟩

end Machine

end Chip8VM
