import Mathlib.Data.List.Induction
import Chip8VM.Proofs.Beeps

/-!
# Counting down

What a counter shows is told by its history alone: the last value that was written to
it, less the ticks since, down to zero.  A reset writes zeros to both counters, and the
history of new timers is as if zeros had been written.
-/

namespace Chip8VM.Timers

inductive Counter where
  | delay
  | sound
  deriving DecidableEq, Repr

def Counter.read (t : Timers) : Counter → UInt8
  | .delay => t.delay
  | .sound => t.sound

def Access.writes : Access → Counter → Option UInt8
  | .setDelay value, .delay => some value
  | .setSound value, .sound => some value
  | .reset, _ => some 0
  | _, _ => none

/-- What was written to a counter last; zero before that. -/
def lastWritten (counter : Counter) (history : List Access) : UInt8 :=
  (history.filterMap (·.writes counter)).getLastD 0

def ticksSince (counter : Counter) (history : List Access) : Nat :=
  (history.reverse.takeWhile fun access => (access.writes counter).isNone).count .tick

/-- The value of a counter, as its history tells. -/
def remaining (counter : Counter) (history : List Access) : Nat :=
  (lastWritten counter history).toNat - ticksSince counter history

variable {counter : Counter} {history : List Access} {access : Access}

theorem lastWritten_append_singleton :
    lastWritten counter (history ++ [access]) =
      (access.writes counter).getD (lastWritten counter history) := by
  cases hwrite : access.writes counter with
  | none => simp [lastWritten, hwrite]
  | some value => simp [lastWritten, hwrite]

theorem ticksSince_append_singleton :
    ticksSince counter (history ++ [access]) =
      if (access.writes counter).isSome then 0
      else ticksSince counter history + if access = .tick then 1 else 0 := by
  cases hwrite : access.writes counter with
  | none => simp [ticksSince, hwrite, List.count_cons]
  | some value => simp [ticksSince, hwrite]

theorem read_apply_of_writes {value : UInt8} (h : access.writes counter = some value)
    (t : Timers) : counter.read (access.apply t) = value := by
  cases access <;> cases counter <;> cases h <;> rfl

theorem read_apply_of_not_writes (h : access.writes counter = none) (htick : access ≠ .tick)
    (t : Timers) : counter.read (access.apply t) = counter.read t := by
  cases access with
  | tick => exact absurd rfl htick
  | setDelay | setSound | reset => cases counter <;> first | rfl | cases h

theorem toNat_read_tick (counter : Counter) (t : Timers) :
    (counter.read (Access.tick.apply t)).toNat = (counter.read t).toNat - 1 := by
  cases counter <;> exact toNat_countDown _

theorem toNat_read_history (counter : Counter) (history : List Access) :
    (counter.read (history.foldl Access.apply {})).toNat = remaining counter history := by
  induction history using List.reverseRecOn with
  | nil => cases counter <;> rfl
  | append_singleton history access ih =>
      rw [List.foldl_append, List.foldl_cons, List.foldl_nil, remaining,
        lastWritten_append_singleton, ticksSince_append_singleton]
      cases hwrite : access.writes counter with
      | some value => simp [read_apply_of_writes hwrite]
      | none =>
          by_cases htick : access = .tick
          · subst htick
            rw [toNat_read_tick, ih]
            simp [remaining, Nat.sub_sub]
          · rw [read_apply_of_not_writes hwrite htick, ih]
            simp [remaining, htick]

end Chip8VM.Timers
