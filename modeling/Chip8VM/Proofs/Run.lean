import Chip8VM.Machine.Execute

/-!
# Runs of a machine

A machine is stepped, loaded and reset by its owner, while the holders of its
timers and its key latch write these at any time.  A run is a list of such
operations in the order in which they take effect.  Every operation is
answered, also when it fails.
-/

namespace Chip8VM

inductive Operation where
  | step
  | load (program : List UInt8)
  | loadRom (rom : Rom)
  | reset
  | pressKey (key : Option UInt8)
  | setDelay (value : UInt8)
  | setSound (value : UInt8)
  | resetTimers
  | tick
  deriving DecidableEq, Repr

inductive Answer where
  | done
  | stepped (result : Except Fault Signal)
  | loaded (result : Except SizeError Unit)
  | latched (result : Except KeyError Unit)
  | ticked (running : Bool)

namespace Operation

def isOutside : Operation → Bool
  | .pressKey _ | .setDelay _ | .setSound _ | .resetTimers | .tick => true
  | .step | .load _ | .loadRom _ | .reset => false

def isRunning (op : Operation) : Bool := op == .step || op.isOutside

theorem isRunning_cases {op : Operation} (h : op.isRunning) :
    op = .step ∨ op.isOutside := by
  simpa [isRunning] using h

end Operation

namespace Machine

def serve (m : Machine) : Operation → Machine × Answer
  | .step =>
      let (m, result) := m.step
      (m, .stepped result)
  | .load program =>
      match m.load program with
      | .error e => (m, .loaded (.error e))
      | .ok loaded => (loaded, .loaded (.ok ()))
  | .loadRom rom =>
      match m.loadRom rom with
      | .error e => (m, .loaded (.error e))
      | .ok loaded => (loaded, .loaded (.ok ()))
  | .reset => (m.reset, .done)
  | .pressKey key =>
      match m.pressKey key with
      | .error e => (m, .latched (.error e))
      | .ok pressed => (pressed, .latched (.ok ()))
  | .setDelay value => (m.setDelay value, .done)
  | .setSound value => (m.setSound value, .done)
  | .resetTimers => ({ m with timers := m.timers.reset }, .done)
  | .tick =>
      let (running, m) := m.tick
      (m, .ticked running)

def run (m : Machine) : List Operation → Machine × List Answer
  | [] => (m, [])
  | op :: ops =>
      let (m, answer) := m.serve op
      let (m, answers) := m.run ops
      (m, answer :: answers)

def after (m : Machine) (ops : List Operation) : Machine := (m.run ops).1

@[simp] theorem serve_step (m : Machine) :
    m.serve .step = (m.step.1, .stepped m.step.2) := rfl

theorem run_cons (m : Machine) (op : Operation) (ops : List Operation) :
    m.run (op :: ops) =
      (((m.serve op).1.run ops).1, (m.serve op).2 :: ((m.serve op).1.run ops).2) := rfl

@[simp] theorem after_nil (m : Machine) : m.after [] = m := rfl

@[simp] theorem after_cons (m : Machine) (op : Operation) (ops : List Operation) :
    m.after (op :: ops) = (m.serve op).1.after ops := rfl

theorem after_append (m : Machine) (ops later : List Operation) :
    m.after (ops ++ later) = (m.after ops).after later := by
  induction ops generalizing m with
  | nil => rfl
  | cons op ops ih => exact ih (m.serve op).1

theorem after_induction {P : Machine → Prop} {A : Operation → Prop}
    (hserve : ∀ m op, A op → P m → P (m.serve op).1)
    {ops : List Operation} (hops : ∀ op ∈ ops, A op)
    {m : Machine} (hm : P m) : P (m.after ops) := by
  induction ops generalizing m with
  | nil => exact hm
  | cons op ops ih =>
      have hfirst : A op := hops op List.mem_cons_self
      exact ih (fun later hlater => hops later (List.mem_cons_of_mem op hlater))
        (hserve m op hfirst hm)

/-- No step of the run starts from a machine with `P`. -/
def Avoids (m : Machine) (P : Machine → Prop) : List Operation → Prop
  | [] => True
  | op :: ops => (op = .step → ¬ P m) ∧ (m.serve op).1.Avoids P ops

theorem Avoids.induction {P Q : Machine → Prop}
    (hserve : ∀ m op, (op = .step → ¬ P m) → Q m → Q (m.serve op).1)
    {m : Machine} {ops : List Operation} (h : m.Avoids P ops) (hm : Q m) : Q (m.after ops) := by
  induction ops generalizing m with
  | nil => exact hm
  | cons op ops ih => exact ih h.2 (hserve m op h.1 hm)

theorem serve_pressKey (m : Machine) (key : Option UInt8) :
    ∃ keys, (m.serve (.pressKey key)).1 = { m with keys } := by
  simp only [serve, pressKey]
  cases m.keys.set key with
  | error e => exact ⟨m.keys, rfl⟩
  | ok keys => exact ⟨keys, rfl⟩

theorem serve_outside (m : Machine) {op : Operation} (h : op.isOutside) :
    ∃ timers keys, (m.serve op).1 = { m with timers, keys } := by
  cases op with
  | step | load | loadRom | reset => simp [Operation.isOutside] at h
  | pressKey key =>
      obtain ⟨keys, hserve⟩ := m.serve_pressKey key
      exact ⟨m.timers, keys, hserve⟩
  | setDelay value => exact ⟨m.timers.setDelay value, m.keys, rfl⟩
  | setSound value => exact ⟨m.timers.setSound value, m.keys, rfl⟩
  | resetTimers => exact ⟨m.timers.reset, m.keys, rfl⟩
  | tick => exact ⟨m.timers.tick.2, m.keys, rfl⟩

theorem serve_outside_answer (m : Machine) {op : Operation} (h : op.isOutside)
    (result : Except Fault Signal) : (m.serve op).2 ≠ .stepped result := by
  cases op with
  | step | load | loadRom | reset => simp [Operation.isOutside] at h
  | pressKey key =>
      simp only [serve]
      cases m.pressKey key with
      | error e => exact Answer.noConfusion
      | ok pressed => exact Answer.noConfusion
  | setDelay | setSound | resetTimers | tick => exact Answer.noConfusion

end Machine

end Chip8VM
