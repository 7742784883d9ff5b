import Chip8VM.Proofs.Signals
import Chip8VM.Proofs.Strikes

/-!
# The display of a console

A mirror that follows the events of a console shows the screen of its machine after
every move, as long as nobody else steps, loads or resets the machine.  Events for
the display come from strikes that clear the screen or draw on it, and from no
others.
-/

namespace Chip8VM.Console

def reflect (mirror : Screen) : Event → Screen
  | .clear => .blank
  | .display screen => screen
  | .sound _ => mirror

def replay (mirror : Screen) (events : List Event) : Screen := events.foldl reflect mirror

def Move.isUndisturbed : Move → Bool
  | .step | .tick => true
  | .serve op => op.isOutside

theorem replay_append (mirror : Screen) (events later : List Event) :
    replay mirror (events ++ later) = replay (replay mirror events) later :=
  List.foldl_append

theorem replay_sounds (mirror : Screen) (reports : List Bool) :
    replay mirror (reports.map .sound) = mirror := by
  induction reports with
  | nil => rfl
  | cons report rest ih => exact ih

/-! ## Single moves -/

theorem replay_eventsOf {machine : Machine} {signal : Signal} {before : Screen}
    (h : signal.Shows before machine.screen) :
    replay before (eventsOf machine signal) = machine.screen := by
  cases signal with
  | quiet => exact h.symm
  | cleared => exact h.symm
  | drawn => rfl
  | waiting => exact h.symm

theorem replay_step (c : Console) :
    replay c.machine.screen c.step.2 = c.step.1.machine.screen := by
  cases hfailed : c.failed with
  | true =>
      rw [step_of_failed hfailed]
      rfl
  | false =>
      rcases hstep : c.machine.step with ⟨machine, result⟩
      cases result with
      | error fault =>
          rw [step_of_error hfailed hstep]
          exact (Machine.screen_of_failing_step hstep).symm
      | ok signal =>
          rw [step_of_ok hfailed hstep]
          exact replay_eventsOf (Machine.signal_of_step hstep).2

theorem replay_take (c : Console) {move : Move} (h : move.isUndisturbed) :
    replay c.machine.screen (c.take move).2 = (c.take move).1.machine.screen := by
  cases move with
  | step => exact c.replay_step
  | tick => exact replay_sounds _ _
  | serve op =>
      obtain ⟨timers, keys, hserve⟩ := c.machine.serve_outside h
      simp only [take, hserve]
      rfl

theorem step_events (c : Console) :
    c.step.2 = [] ∨
      ∃ word, c.machine.memory.fetch c.machine.pc.toNat = .ok word ∧
        (Instruction.decode? word = some (.system .clear) ∧
            c.machine.step.2 = .ok .cleared ∧ c.step.2 = [.clear] ∨
          ∃ x y rows, Instruction.decode? word = some (.draw x y rows) ∧
            c.machine.step.2 = .ok .drawn ∧
            c.step.2 = [.display c.step.1.machine.screen]) := by
  cases hfailed : c.failed with
  | true =>
      rw [step_of_failed hfailed]
      exact .inl rfl
  | false =>
      rcases hstep : c.machine.step with ⟨machine, result⟩
      cases result with
      | error fault =>
          rw [step_of_error hfailed hstep]
          exact .inl rfl
      | ok signal =>
          rw [step_of_ok hfailed hstep]
          obtain ⟨⟨word, hfetch, hsignal⟩, -⟩ := Machine.signal_of_step hstep
          cases signal with
          | quiet => exact .inl rfl
          | waiting => exact .inl rfl
          | cleared =>
              have hdecode := Word.signal_eq_cleared hsignal.symm
              exact .inr ⟨word, hfetch, .inl ⟨hdecode, rfl, rfl⟩⟩
          | drawn =>
              obtain ⟨x, y, rows, hdecode⟩ := Word.signal_eq_drawn hsignal.symm
              exact .inr ⟨word, hfetch, .inr ⟨x, y, rows, hdecode, rfl, rfl⟩⟩

/-! ## Runs -/

theorem replay_events (c : Console) {moves : List Move}
    (hmoves : ∀ move ∈ moves, move.isUndisturbed) :
    replay c.machine.screen (c.events moves) = (c.after moves).machine.screen := by
  induction moves generalizing c with
  | nil => rfl
  | cons move moves ih =>
      rw [events_cons, replay_append, c.replay_take (hmoves move List.mem_cons_self)]
      exact ih _ fun later hmem => hmoves later (List.mem_cons_of_mem move hmem)

/-- From a blank screen on, a mirror that starts blank shows the screen after every
move, and the next strike of the step clock tells the display only of a clearing or a
drawing. -/
theorem mirror_never_stale (m : Machine) (hblank : m.screen = .blank) (moves : List Move)
    (hmoves : ∀ move ∈ moves, move.isUndisturbed) :
    let c := (start m).after moves
    replay .blank ((start m).events moves) = c.machine.screen ∧
      (c.step.2 = [] ∨
        ∃ word, c.machine.memory.fetch c.machine.pc.toNat = .ok word ∧
          (Instruction.decode? word = some (.system .clear) ∧
              c.machine.step.2 = .ok .cleared ∧ c.step.2 = [.clear] ∨
            ∃ x y rows, Instruction.decode? word = some (.draw x y rows) ∧
              c.machine.step.2 = .ok .drawn ∧
              c.step.2 = [.display c.step.1.machine.screen])) := by
  intro c
  refine ⟨?_, c.step_events⟩
  have hreplay := (start m).replay_events hmoves
  have hscreen : (start m).machine.screen = .blank := hblank
  rw [hscreen] at hreplay
  exact hreplay

theorem mirror_of_cleared_screen :
    let program : List UInt8 := [0x00, 0xE0]
    let m : Machine :=
      { Machine.fresh (.constant 0) with
        memory := ⟨Memory.place Memory.initial.cells programStart program⟩ }
    let moves : List Move := [.serve (.setSound 2), .step]
    m.screen = .blank ∧ (∀ move ∈ moves, move.isUndisturbed) ∧
      (start m).events moves = [.clear] ∧
      replay .blank ((start m).events moves) = ((start m).after moves).machine.screen := by
  intro program m moves
  have hundisturbed : ∀ move ∈ moves, move.isUndisturbed := by decide
  have hfetch : m.memory.fetch m.pc.toNat = .ok 0x00E0 :=
    @Memory.fetch_place _ program programStart 0 0x00 0xE0 (by decide) rfl rfl
  have hevents : (start m).events moves = [.clear] := by
    have hexecute := Machine.step_of_fetch
      (m := ((start m).take (.serve (.setSound 2))).1.machine) (i := .system .clear) hfetch rfl
    rw [events_cons, events_cons, take, step_of_ok rfl hexecute]
    rfl
  have hmirror := mirror_never_stale m rfl moves hundisturbed
  exact ⟨rfl, hundisturbed, hevents, hmirror.1⟩

end Chip8VM.Console
