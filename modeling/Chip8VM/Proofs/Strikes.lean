import Chip8VM.Console
import Chip8VM.Proofs.Run

/-!
# Runs of a console

The clocks of a console strike, others write its timers and its key latch, and its
owner may operate the machine itself: a run is a list of such moves in any order,
and brings the events that its moves bring.
-/

namespace Chip8VM.Console

inductive Move where
  | step
  | tick
  | serve (op : Operation)
  deriving DecidableEq, Repr

def start (machine : Machine) : Console := { machine }

def take (c : Console) : Move → Console × List Event
  | .step => c.step
  | .tick => c.tick
  | .serve op => ({ c with machine := (c.machine.serve op).1 }, [])

def run (c : Console) : List Move → Console × List Event
  | [] => (c, [])
  | move :: moves =>
      let (c, events) := c.take move
      let (c, later) := c.run moves
      (c, events ++ later)

def after (c : Console) (moves : List Move) : Console := (c.run moves).1

def events (c : Console) (moves : List Move) : List Event := (c.run moves).2

@[simp] theorem after_cons (c : Console) (move : Move) (moves : List Move) :
    c.after (move :: moves) = (c.take move).1.after moves := rfl

@[simp] theorem events_cons (c : Console) (move : Move) (moves : List Move) :
    c.events (move :: moves) = (c.take move).2 ++ (c.take move).1.events moves := rfl

theorem after_append (c : Console) (moves later : List Move) :
    c.after (moves ++ later) = (c.after moves).after later := by
  induction moves generalizing c with
  | nil => rfl
  | cons move moves ih => exact ih (c.take move).1

/-! ## Single moves -/

theorem step_of_failed {c : Console} (h : c.failed = true) : c.step = (c, []) := by
  simp [step, h]

theorem step_of_ok {c : Console} {machine : Machine} {signal : Signal}
    (h : c.failed = false) (hstep : c.machine.step = (machine, .ok signal)) :
    c.step = ({ c with machine }, eventsOf machine signal) := by
  simp [step, h, hstep]

theorem step_of_error {c : Console} {machine : Machine} {fault : Fault}
    (h : c.failed = false) (hstep : c.machine.step = (machine, .error fault)) :
    c.step = ({ c with machine, fault := some fault, failed := true }, []) := by
  simp [step, h, hstep]

theorem tick_machine (c : Console) : c.tick.1.machine = c.machine.tick.2 := rfl

theorem tick_fault (c : Console) : c.tick.1.fault = c.fault := rfl

/-! ## What the step clock remembers -/

theorem failed_step {c : Console} (h : c.failed = c.fault.isSome) :
    c.step.1.failed = c.step.1.fault.isSome := by
  cases hfailed : c.failed with
  | true => rwa [step_of_failed hfailed]
  | false =>
      rcases hstep : c.machine.step with ⟨machine, result⟩
      cases result with
      | ok signal => rwa [step_of_ok hfailed hstep]
      | error fault =>
          rw [step_of_error hfailed hstep]
          rfl

theorem failed_after {c : Console} (h : c.failed = c.fault.isSome) (moves : List Move) :
    (c.after moves).failed = (c.after moves).fault.isSome := by
  induction moves generalizing c with
  | nil => exact h
  | cons move moves ih =>
      rw [after_cons]
      cases move with
      | step => exact ih (failed_step h)
      | tick | serve => exact ih h

end Chip8VM.Console
