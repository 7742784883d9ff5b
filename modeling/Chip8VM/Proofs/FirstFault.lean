import Chip8VM.Proofs.Strikes

/-!
# The machine of a console

Until a strike of the step clock meets a fault, a console does to its machine what
the same operations do to a machine of its own, each strike being a step.  From
then on the strikes do nothing, the fault stays, and everything else goes on.  What
the step clock remembers and the fault that everyone sees agree at every moment.
-/

namespace Chip8VM.Console

namespace Move

def operation : Move → Operation
  | .step => .step
  | .tick => .tick
  | .serve op => op

def later? : Move → Option Operation
  | .step => none
  | .tick => some .tick
  | .serve op => some op

theorem later?_eq_some {move : Move} (h : move ≠ .step) : move.later? = some move.operation := by
  cases move with
  | step => exact absurd rfl h
  | tick => rfl
  | serve op => rfl

end Move

theorem take_of_ne_step (c : Console) {move : Move} (h : move ≠ .step) :
    (c.take move).1.machine = (c.machine.serve move.operation).1 ∧
      (c.take move).1.fault = c.fault ∧ (c.take move).1.failed = c.failed := by
  cases move with
  | step => exact absurd rfl h
  | tick => exact ⟨c.tick_machine, c.tick_fault, rfl⟩
  | serve op => exact ⟨rfl, rfl, rfl⟩

theorem after_of_failed {c : Console} (h : c.failed = true) (moves : List Move) :
    (c.after moves).machine = c.machine.after (moves.filterMap Move.later?) ∧
      (c.after moves).fault = c.fault ∧ (c.after moves).failed = true := by
  induction moves generalizing c with
  | nil => exact ⟨rfl, rfl, h⟩
  | cons move moves ih =>
      by_cases hmove : move = .step
      · subst hmove
        have hstep : (c.take .step).1 = c := congrArg Prod.fst (step_of_failed h)
        rw [after_cons, hstep]
        exact ih h
      · obtain ⟨hmachine, hfault, hfailed⟩ := c.take_of_ne_step hmove
        obtain ⟨hafter, hstays, hremembered⟩ := ih (hfailed.trans h)
        rw [after_cons, List.filterMap_cons_some (Move.later?_eq_some hmove),
          Machine.after_cons, ← hmachine]
        exact ⟨hafter, hstays.trans hfault, hremembered⟩

/-- On a machine of its own, no strike of the step clock among the moves meets a fault. -/
def Faultless (m : Machine) (moves : List Move) : Prop :=
  ∀ before, before ++ [.step] <+: moves →
    ∃ signal, (m.after (before.map Move.operation)).step.2 = .ok signal

theorem faultless_nil (m : Machine) : Faultless m [] := by
  intro before hbefore
  simp at hbefore

theorem faultless_cons_iff (m : Machine) (move : Move) (moves : List Move) :
    Faultless m (move :: moves) ↔
      (move = .step → ∃ signal, m.step.2 = .ok signal) ∧
        Faultless (m.serve move.operation).1 moves := by
  constructor
  · intro h
    refine ⟨?_, fun before hbefore => ?_⟩
    · rintro rfl
      exact h [] (by simp)
    · exact h (move :: before) (List.cons_prefix_cons.mpr ⟨rfl, hbefore⟩)
  · rintro ⟨hfirst, hrest⟩ before hbefore
    cases before with
    | nil =>
        obtain ⟨rfl, -⟩ := List.cons_prefix_cons.mp hbefore
        exact hfirst rfl
    | cons move' before =>
        obtain ⟨rfl, hlater⟩ := List.cons_prefix_cons.mp hbefore
        exact hrest before hlater

theorem faultless_or_split (m : Machine) (moves : List Move) :
    Faultless m moves ∨
      ∃ before rest fault, moves = before ++ .step :: rest ∧ Faultless m before ∧
        (m.after (before.map Move.operation)).step.2 = .error fault := by
  induction moves generalizing m with
  | nil => exact .inl (faultless_nil m)
  | cons move moves ih =>
      by_cases hfails : move = .step ∧ ∃ fault, m.step.2 = .error fault
      · obtain ⟨rfl, fault, hfault⟩ := hfails
        exact .inr ⟨[], moves, fault, rfl, faultless_nil m, hfault⟩
      · have hfirst : move = .step → ∃ signal, m.step.2 = .ok signal := by
          intro hmove
          cases hresult : m.step.2 with
          | ok signal => exact ⟨signal, rfl⟩
          | error fault => exact absurd ⟨hmove, fault, hresult⟩ hfails
        rcases ih (m.serve move.operation).1 with
          hrest | ⟨before, rest, fault, rfl, hbefore, hfault⟩
        · exact .inl ((faultless_cons_iff m move moves).mpr ⟨hfirst, hrest⟩)
        · exact .inr ⟨move :: before, rest, fault, rfl,
            (faultless_cons_iff m move before).mpr ⟨hfirst, hbefore⟩, hfault⟩

theorem after_of_faultless {c : Console} (h : c.failed = false) {moves : List Move}
    (hmoves : Faultless c.machine moves) :
    (c.after moves).machine = c.machine.after (moves.map Move.operation) ∧
      (c.after moves).fault = c.fault ∧ (c.after moves).failed = false := by
  induction moves generalizing c with
  | nil => exact ⟨rfl, rfl, h⟩
  | cons move moves ih =>
      obtain ⟨hfirst, hrest⟩ := (faultless_cons_iff c.machine move moves).mp hmoves
      have htake : (c.take move).1.machine = (c.machine.serve move.operation).1 ∧
          (c.take move).1.fault = c.fault ∧ (c.take move).1.failed = c.failed := by
        by_cases hmove : move = .step
        · subst hmove
          obtain ⟨signal, hsignal⟩ := hfirst rfl
          have hstep : c.step = _ := step_of_ok h (Prod.ext rfl hsignal)
          simp [take, hstep, Move.operation]
        · exact c.take_of_ne_step hmove
      obtain ⟨hmachine, hfault, hfailed⟩ := htake
      rw [← hmachine] at hrest
      rw [after_cons, List.map_cons, Machine.after_cons, ← hmachine, ← hfault]
      exact ih (hfailed.trans h) hrest

/-- A console does to its machine what the same operations do to a machine of its own,
with a step for each strike of the step clock up to the first that meets a fault, and
nothing for the strikes after it.  It keeps the fault for ever, and the step clock
remembers a fault exactly if there is one. -/
theorem console_follows_machine (m : Machine) (moves : List Move) :
    let c := (start m).after moves
    (Faultless m moves ∧ c.machine = m.after (moves.map Move.operation) ∧ c.fault = none ∨
      ∃ before rest fault, moves = before ++ .step :: rest ∧ Faultless m before ∧
        (m.after (before.map Move.operation)).step.2 = .error fault ∧
        c.machine = m.after
          (before.map Move.operation ++ .step :: rest.filterMap Move.later?) ∧
        c.fault = some fault ∧ c.step = (c, [])) ∧
      c.tick.1.machine = c.machine.tick.2 ∧ c.tick.1.fault = c.fault ∧
      c.failed = c.fault.isSome := by
  intro c
  refine ⟨?_, c.tick_machine, c.tick_fault, failed_after rfl moves⟩
  rcases faultless_or_split m moves with hmoves | ⟨before, rest, fault, rfl, hbefore, hfault⟩
  · obtain ⟨hmachine, hfault, -⟩ := after_of_faultless (c := start m) rfl hmoves
    exact .inl ⟨hmoves, hmachine, hfault⟩
  · right
    obtain ⟨hmachine, -, hnone⟩ := after_of_faultless (c := start m) rfl hbefore
    have hmeets : ((start m).after before).machine.step.2 = .error fault := by
      rw [hmachine]
      exact hfault
    have hstep := step_of_error hnone (Prod.ext rfl hmeets)
    have hstruck : ((start m).after before).step.1.machine =
        (m.after (before.map Move.operation)).step.1 := by
      rw [hstep, hmachine]
      rfl
    have hfailed : c = (((start m).after before).step.1).after rest := after_append _ _ _
    obtain ⟨hafter, hstays, hremembered⟩ :=
      after_of_failed (c := ((start m).after before).step.1) (by rw [hstep]) rest
    rw [← hfailed] at hafter hstays hremembered
    refine ⟨before, rest, fault, rfl, hbefore, hfault, ?_, ?_, step_of_failed hremembered⟩
    · rw [hafter, hstruck, Machine.after_append]
      rfl
    · rw [hstays, hstep]

end Chip8VM.Console
