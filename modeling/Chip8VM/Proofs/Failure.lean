import Chip8VM.Proofs.Access
import Chip8VM.Proofs.Run

/-!
# Failing steps

A step fails only where it looks before it writes: at the fetch, at the ends of
the stack, and at a block of memory that starts at `I`.  `fault?` names these
places; a step that meets one of them leaves the machine alone, except that it
remembers the word it has fetched.
-/

namespace Chip8VM.Machine

def blockFault? (m : Machine) (length : Nat) : Option Fault :=
  if m.index.toNat + length ≤ memorySize then none
  else some (.memory ⟨m.index.toNat, length⟩)

theorem blockFault?_eq_none_iff {m : Machine} {length : Nat} :
    m.blockFault? length = none ↔ m.index.toNat + length ≤ memorySize := by
  simp [blockFault?]

theorem blockFault?_eq_some_iff {m : Machine} {length : Nat} {fault : Fault} :
    m.blockFault? length = some fault ↔
      memorySize < m.index.toNat + length ∧ fault = .memory ⟨m.index.toNat, length⟩ := by
  unfold blockFault?
  split
  case isTrue h => simp [Nat.not_lt.mpr h]
  case isFalse h => simp [Nat.lt_of_not_le h, eq_comm]

/-- Why an instruction cannot be carried out, if it cannot. -/
def fault? (m : Machine) : Instruction → Option Fault
  | .system .ret => if m.stack.depth = 0 then some (.stack .empty) else none
  | .call _ => if m.stack.depth = stackLimit then some (.stack .full) else none
  | .draw _ _ rows => m.blockFault? rows
  | .misc .storeDigits _ => m.blockFault? 3
  | .misc .storeRegisters x | .misc .loadRegisters x => m.blockFault? (x.val + 1)
  | _ => none

def stepFault? (m : Machine) : Option Fault :=
  match m.memory.fetch m.pc.toNat with
  | .error e => some (.word e)
  | .ok word =>
      match Instruction.decode? word with
      | none => none
      | some i => m.fault? i

def fetched (m : Machine) : Machine :=
  match m.memory.fetch m.pc.toNat with
  | .error _ => m
  | .ok word => { m with word }

/-! ## Carrying out an instruction -/

theorem decimalDigits_length (byte : UInt8) : (decimalDigits byte).length = 3 := rfl

theorem registersUpTo_length (m : Machine) (x : Register) :
    (m.registersUpTo x).length = x.val + 1 := Memory.length_front m.v x.isLt

theorem perform_fault (m : Machine) (i : Instruction) :
    match m.fault? i with
    | some fault => m.perform i = (m, .error fault)
    | none => ∃ effect, (m.perform i).2 = .ok effect := by
  cases i with
  | system op =>
      cases op with
      | clear => exact ⟨_, rfl⟩
      | ret =>
          cases hpop : m.stack.pop with
          | error e =>
              obtain ⟨rfl, hdepth⟩ := (CallStack.pop_eq_error_iff _ _).mp hpop
              simp [fault?, perform, system, hdepth, hpop, fail]
          | ok popped =>
              have hdepth : m.stack.depth ≠ 0 := by
                intro h
                rw [(CallStack.pop_eq_error_iff _ .empty).mpr ⟨rfl, h⟩] at hpop
                cases hpop
              simp [fault?, perform, system, hdepth, hpop, branch]
  | call target =>
      cases hpush : m.stack.push (m.pc + Advance.next.distance) with
      | error e =>
          obtain ⟨rfl, hdepth⟩ := (CallStack.push_eq_error_iff _ _ _).mp hpush
          simp [fault?, perform, call, hdepth, hpush, fail]
      | ok pushed =>
          have hdepth : m.stack.depth ≠ stackLimit := by
            intro h
            rw [(CallStack.push_eq_error_iff _ _ .full).mpr ⟨rfl, h⟩] at hpush
            cases hpush
          simp [fault?, perform, call, hdepth, hpush, branch]
  | draw x y rows =>
      by_cases h : m.index.toNat + rows ≤ memorySize <;>
        simp [fault?, blockFault?, perform, draw, Memory.read, memorySize, h, fail]
  | misc op x =>
      cases op with
      | storeDigits =>
          by_cases h : m.index.toNat + 3 ≤ memorySize <;>
            simp [fault?, blockFault?, perform, misc, storeDigits, Memory.write,
              decimalDigits_length, h, fail, done]
      | storeRegisters =>
          by_cases h : m.index.toNat + (x.val + 1) ≤ memorySize <;>
            simp [fault?, blockFault?, perform, misc, storeRegisters, Memory.write,
              registersUpTo_length, h, fail, done]
      | loadRegisters =>
          by_cases h : m.index.toNat + (x.val + 1) ≤ memorySize <;>
            simp [fault?, blockFault?, perform, misc, loadRegisters, Memory.read,
              memorySize, h, fail, done]
      | awaitKey =>
          simp only [fault?, perform, misc]
          cases m.keys.get with
          | none => exact ⟨_, rfl⟩
          | some key => exact ⟨_, rfl⟩
      | getDelay | setDelay | setSound | addToIndex | glyph => exact ⟨_, rfl⟩
  | alu op x y =>
      simp only [fault?, perform, alu]
      cases op.flag? m.v[x] m.v[y] with
      | none => exact ⟨_, rfl⟩
      | some flag => exact ⟨_, rfl⟩
  | key op x => cases op <;> exact ⟨_, rfl⟩
  | jump | skipIfEqual | skipIfNotEqual | skipIfSame | load | add | skipIfDifferent
  | setIndex | jumpOffset | random => exact ⟨_, rfl⟩

theorem perform_eq_error_iff {m m' : Machine} {i : Instruction} {fault : Fault} :
    m.perform i = (m', .error fault) ↔ m' = m ∧ m.fault? i = some fault := by
  have h := m.perform_fault i
  cases hfault : m.fault? i with
  | some found =>
      simp only [hfault] at h
      rw [h]
      simp [eq_comm]
  | none =>
      simp only [hfault] at h
      obtain ⟨effect, heffect⟩ := h
      constructor
      · intro herror
        rw [herror] at heffect
        cases heffect
      · rintro ⟨-, hnone⟩
        cases hnone

theorem execute_eq_error_iff {m m' : Machine} {i : Instruction} {fault : Fault} :
    m.execute i = (m', .error fault) ↔ m' = m ∧ m.fault? i = some fault := by
  rw [← perform_eq_error_iff]
  unfold execute
  rcases m.perform i with ⟨performed, result⟩
  cases result with
  | error found => simp
  | ok effect => simp

/-! ## Steps -/

theorem step_eq_error_iff {m m' : Machine} {fault : Fault} :
    m.step = (m', .error fault) ↔ m' = m.fetched ∧ m.stepFault? = some fault := by
  unfold step stepFault? fetched
  cases hfetch : m.memory.fetch m.pc.toNat with
  | error e => simp [eq_comm]
  | ok word =>
      cases hdecode : Instruction.decode? word with
      | none => simp [Instruction.decode, hdecode]
      | some i =>
          simp only [Instruction.decode, hdecode, execute_eq_error_iff]
          rfl

theorem fault?_eq_none_of_step {m m' : Machine} {word : UInt16} {i : Instruction}
    {signal : Signal} (hfetch : m.memory.fetch m.pc.toNat = .ok word)
    (hdecode : Instruction.decode? word = some i) (hstep : m.step = (m', .ok signal)) :
    m.fault? i = none := by
  have hfault : m.stepFault? = m.fault? i := by simp only [stepFault?, hfetch, hdecode]
  refine Option.eq_none_iff_forall_ne_some.mpr fun fault hsome => ?_
  rw [step_eq_error_iff.mpr ⟨rfl, hfault.trans hsome⟩] at hstep
  cases hstep

/-! ## Machines that are stuck -/

def Stuck (m : Machine) (fault : Fault) : Prop := m.step = (m, .error fault)

theorem stuck_iff {m : Machine} {fault : Fault} :
    m.Stuck fault ↔ m.fetched = m ∧ m.stepFault? = some fault := by
  rw [Stuck, step_eq_error_iff, eq_comm (a := m)]

/-- A second fetch reads the same word, and the fault does not depend on it. -/
theorem stuck_of_step_eq_error {m m' : Machine} {fault : Fault}
    (h : m.step = (m', .error fault)) : m'.Stuck fault := by
  obtain ⟨rfl, hfault⟩ := step_eq_error_iff.mp h
  rw [stuck_iff, ← hfault]
  unfold stepFault? fetched
  cases hfetch : m.memory.fetch m.pc.toNat with
  | error e => simp only [hfetch, and_self]
  | ok word => simp only [hfetch, true_and]; rfl

theorem Stuck.outside {m : Machine} {fault : Fault} (h : m.Stuck fault)
    (timers : Timers) (keys : KeyLatch) : { m with timers, keys }.Stuck fault := by
  obtain ⟨hfetched, hfault⟩ := stuck_iff.mp h
  rw [stuck_iff]
  constructor
  · have hsame : ({ m with timers, keys } : Machine).fetched =
        { m.fetched with timers, keys } := by
      unfold fetched
      cases m.memory.fetch m.pc.toNat with
      | error e => rfl
      | ok word => rfl
    rw [hsame, hfetched]
  · rw [← hfault]
    rfl

theorem Stuck.serve {m : Machine} {fault : Fault} {op : Operation}
    (h : m.Stuck fault) (hop : op.isRunning) : (m.serve op).1.Stuck fault := by
  rcases Operation.isRunning_cases hop with rfl | houtside
  · rw [serve_step, h]
    exact h
  · obtain ⟨timers, keys, hserve⟩ := m.serve_outside houtside
    rw [hserve]
    exact h.outside timers keys

theorem Stuck.after {m : Machine} {fault : Fault} (h : m.Stuck fault)
    {ops : List Operation} (hops : ∀ op ∈ ops, op.isRunning) :
    (m.after ops).Stuck fault :=
  after_induction (P := fun m => m.Stuck fault) (fun _ _ hop hm => hm.serve hop) hops h

theorem Stuck.answers {m : Machine} {fault : Fault} (h : m.Stuck fault)
    {ops : List Operation} (hops : ∀ op ∈ ops, op.isRunning)
    {result : Except Fault Signal} (hresult : .stepped result ∈ (m.run ops).2) :
    result = .error fault := by
  induction ops generalizing m with
  | nil => cases hresult
  | cons op ops ih =>
      have hop : op.isRunning := hops op List.mem_cons_self
      rw [run_cons] at hresult
      rcases List.mem_cons.mp hresult with hfirst | hlater
      · rcases Operation.isRunning_cases hop with rfl | houtside
        · rw [serve_step, h] at hfirst
          exact Answer.stepped.inj hfirst
        · exact absurd hfirst.symm (serve_outside_answer m houtside result)
      · exact ih (h.serve hop)
          (fun later hmem => hops later (List.mem_cons_of_mem op hmem)) hlater

theorem Stuck.after_eq_filter {m : Machine} {fault : Fault} (h : m.Stuck fault)
    {ops : List Operation} (hops : ∀ op ∈ ops, op.isRunning) :
    m.after ops = m.after (ops.filter Operation.isOutside) := by
  induction ops generalizing m with
  | nil => rfl
  | cons op ops ih =>
      have hop : op.isRunning := hops op List.mem_cons_self
      have hlater := ih (h.serve hop)
        (fun later hmem => hops later (List.mem_cons_of_mem op hmem))
      rcases Operation.isRunning_cases hop with rfl | houtside
      · rw [after_cons, hlater, serve_step, h]
        rfl
      · rw [after_cons, hlater, List.filter_cons_of_pos houtside, after_cons]

/-- A failing step writes the fetched word and nothing else.  From then on, whatever
the holders of the timers and the keys do, every step fails in the same way and
writes nothing. -/
theorem failing_step_is_final {m m' : Machine} {fault : Fault}
    (h : m.step = (m', .error fault)) :
    (m' = match m.memory.fetch m.pc.toNat with
      | .error _ => m
      | .ok word => { m with word }) ∧
    ∀ ops : List Operation, (∀ op ∈ ops, op.isRunning) →
      (m'.after ops).step = (m'.after ops, .error fault) ∧
      (∀ result, .stepped result ∈ (m'.run ops).2 → result = .error fault) ∧
      m'.after ops = m'.after (ops.filter Operation.isOutside) := by
  constructor
  · exact (step_eq_error_iff.mp h).1
  · intro ops hops
    have hstuck : m'.Stuck fault := stuck_of_step_eq_error h
    exact ⟨hstuck.after hops, fun _ hresult => hstuck.answers hops hresult,
      hstuck.after_eq_filter hops⟩

theorem failing_store_is_final :
    let m : Machine :=
      { fresh (.constant 0) with
        memory := ⟨Memory.place Memory.initial.cells programStart [0xF2, 0x55]⟩
        index := 0xFFE }
    let stuck : Machine := { m with word := 0xF255 }
    let ops : List Operation := [.tick, .step, .pressKey (some 3), .setSound 7, .step]
    m.step = (stuck, .error (.memory ⟨0xFFE, 3⟩)) ∧
      (stuck.after ops).step = (stuck.after ops, .error (.memory ⟨0xFFE, 3⟩)) := by
  intro m stuck ops
  have hfetch : m.memory.fetch m.pc.toNat = .ok 0xF255 :=
    @Memory.fetch_place Memory.initial.cells [0xF2, 0x55] programStart 0 0xF2 0x55
      (by decide) rfl rfl
  have hstep : m.step = (stuck, .error (.memory ⟨0xFFE, 3⟩)) := by
    rw [step_eq_error_iff, fetched, stepFault?, hfetch]
    exact ⟨rfl, rfl⟩
  exact ⟨hstep, ((failing_step_is_final hstep).2 ops (by decide)).1⟩

end Chip8VM.Machine
