import Chip8VM.Proofs.ControlFlow
import Chip8VM.Proofs.Failure

/-!
# Calls and returns

A call saves the address after it on top of the caller's stack.  Until the stack
gets as short as it was, both lie untouched below whatever the subroutine
pushes and pops, so the step that takes the saved address goes there.
-/

namespace Chip8VM

/-- The stack still holds what a call from `base` has left on it. -/
def CallStack.Holds (s : CallStack) (saved : UInt16) (base : CallStack) : Prop :=
  saved :: base.addresses <:+ s.addresses

theorem CallStack.Holds.depth_lt {s base : CallStack} {saved : UInt16}
    (h : s.Holds saved base) : base.depth < s.depth :=
  List.IsSuffix.length_le h

theorem Transfer.holds_or_returns {pc pc' saved : UInt16} {s s' base : CallStack}
    (h : Transfer pc s pc' s') (hs : s.Holds saved base) :
    s'.Holds saved base ∨ pc' = saved ∧ s' = base := by
  cases h with
  | ahead | jump => exact .inl hs
  | call target hpush =>
      left
      rw [CallStack.Holds, CallStack.addresses_of_push hpush]
      exact hs.trans (List.suffix_cons _ _)
  | ret hpop =>
      rw [CallStack.Holds, CallStack.addresses_of_pop hpop] at hs
      rcases List.suffix_cons_iff.mp hs with htop | hbelow
      · obtain ⟨rfl, hbase⟩ := List.cons.inj htop
        exact .inr ⟨rfl, CallStack.ext_addresses hbase.symm⟩
      · exact .inl hbelow

namespace Machine

theorem step_holds_or_returns {m : Machine} {saved : UInt16} {base : CallStack}
    (hm : m.stack.Holds saved base) :
    m.step.1.stack.Holds saved base ∨ m.step.1.pc = saved ∧ m.step.1.stack = base := by
  rcases hstep : m.step with ⟨m', result⟩
  cases result with
  | error fault =>
      obtain ⟨rfl, -⟩ := step_eq_error_iff.mp hstep
      left
      unfold fetched
      split <;> exact hm
  | ok signal => exact (transfer_of_step hstep).2.holds_or_returns hm

theorem serve_holds {m : Machine} {op : Operation} {saved : UInt16} {base : CallStack}
    (hm : m.stack.Holds saved base) (hop : op.isRunning)
    (habove : base.depth < (m.serve op).1.stack.depth) :
    (m.serve op).1.stack.Holds saved base := by
  rcases Operation.isRunning_cases hop with rfl | houtside
  · rcases step_holds_or_returns hm with hholds | ⟨-, hbase⟩
    · exact hholds
    · rw [serve_step, hbase] at habove
      exact absurd habove (Nat.lt_irrefl _)
  · obtain ⟨timers, keys, hserve⟩ := m.serve_outside houtside
    rw [hserve]
    exact hm

theorem after_holds {m : Machine} {ops : List Operation} {saved : UInt16}
    {base : CallStack} (hm : m.stack.Holds saved base) (hops : ∀ op ∈ ops, op.isRunning)
    (habove : ∀ n ≤ ops.length, base.depth < (m.after (ops.take n)).stack.depth) :
    (m.after ops).stack.Holds saved base := by
  -- the call on the stack is the invariant; its return would end at the depth of `base`
  induction ops generalizing m with
  | nil => exact hm
  | cons op ops ih =>
      have hfirst : (m.serve op).1.stack.Holds saved base := by
        have hdepth := habove 1 (Nat.succ_le_succ (Nat.zero_le _))
        exact serve_holds hm (hops op List.mem_cons_self) hdepth
      refine ih hfirst (fun later hmem => hops later (List.mem_cons_of_mem op hmem)) ?_
      exact fun n hn => habove (n + 1) (Nat.succ_le_succ hn)

/-! ## The call itself -/

theorem decode?_call {word : UInt16} (h : Word.family word = 2) :
    Instruction.decode? word = some (.call (Word.nnn word)) := by
  simp [Instruction.decode?, h]

theorem step_call_holds {m : Machine} {word : UInt16}
    (hfetch : m.memory.fetch m.pc.toNat = .ok word) (hcall : Word.family word = 2)
    (hroom : m.stack.depth < stackLimit) :
    m.step.1.stack.Holds (m.pc + 2) m.stack := by
  rw [step_of_fetch hfetch (decode?_call hcall)]
  cases hpush : m.stack.push (m.pc + 2) with
  | error e =>
      have hfull := ((CallStack.push_eq_error_iff _ _ _).mp hpush).2
      exact absurd hfull (Nat.ne_of_lt hroom)
  | ok pushed =>
      have hnext : m.pc + Advance.next.distance = m.pc + 2 := rfl
      have haddresses := CallStack.addresses_of_push hpush
      simp [execute, perform, call, hnext, hpush, branch, move, CallStack.Holds,
        haddresses]

/-- A subroutine that comes back to the caller's depth comes back to the caller. -/
theorem call_returns_to_caller {m : Machine} {word : UInt16} {ops : List Operation}
    (hfetch : m.memory.fetch m.pc.toNat = .ok word) (hcall : Word.family word = 2)
    (hroom : m.stack.depth < stackLimit) (hops : ∀ op ∈ ops, op.isRunning)
    (habove : ∀ n ≤ ops.length,
      m.stack.depth < (m.step.1.after (ops.take n)).stack.depth)
    (hback : (m.step.1.after ops).step.1.stack.depth = m.stack.depth) :
    (m.step.1.after ops).step.1.pc.toNat = m.pc.toNat + 2 ∧
      (m.step.1.after ops).step.1.stack = m.stack := by
  have hcalled := step_call_holds hfetch hcall hroom
  rcases step_holds_or_returns (after_holds hcalled hops habove) with hholds | ⟨hpc, hstack⟩
  · exact absurd hback (Nat.ne_of_gt hholds.depth_lt)
  · refine ⟨?_, hstack⟩
    rw [hpc]
    exact Memory.toNat_next (Memory.lt_of_fetch_eq_ok hfetch)

theorem nested_call_returns_to_caller :
    let program : List UInt8 := [0x22, 0x04, 0x12, 0x02, 0x22, 0x08, 0x00, 0xEE, 0x00, 0xEE]
    let m : Machine :=
      { fresh (.constant 0) with
        memory := ⟨Memory.place Memory.initial.cells programStart program⟩ }
    let inside : List Operation := [.step, .tick, .step]
    m.memory.fetch m.pc.toNat = .ok 0x2204 ∧ m.stack.depth = 0 ∧
      (m.step.1.after [.step]).stack.depth = 2 ∧
      (m.step.1.after inside).step.1.pc.toNat = 0x202 ∧
      (m.step.1.after inside).step.1.stack = {} := by
  intro program m inside
  have hcall : m.memory.fetch m.pc.toNat = .ok 0x2204 :=
    @Memory.fetch_place _ program programStart 0 0x22 0x04 (by decide) rfl rfl
  have hnested : m.memory.fetch 0x204 = .ok 0x2208 :=
    @Memory.fetch_place _ program programStart 4 0x22 0x08 (by decide) rfl rfl
  have hreturn : m.memory.fetch 0x206 = .ok 0x00EE :=
    @Memory.fetch_place _ program programStart 6 0x00 0xEE (by decide) rfl rfl
  have hinner : m.memory.fetch 0x208 = .ok 0x00EE :=
    @Memory.fetch_place _ program programStart 8 0x00 0xEE (by decide) rfl rfl
  let outer : Machine := { m with word := 0x2204, pc := 0x204, stack := ⟨[0x202], by decide⟩ }
  let inner : Machine :=
    { m with word := 0x2208, pc := 0x208, stack := ⟨[0x206, 0x202], by decide⟩ }
  let back : Machine := { m with word := 0x00EE, pc := 0x206, stack := ⟨[0x202], by decide⟩ }
  have houter : m.step.1 = outer := by
    rw [step_of_fetch hcall rfl]
    rfl
  have hdeep : outer.step.1 = inner := by
    rw [step_of_fetch (m := outer) hnested rfl]
    rfl
  have hback : inner.step.1 = back := by
    rw [step_of_fetch (m := inner) hinner rfl]
    rfl
  have hfirst : outer.after [.step] = inner := by
    rw [after_cons, serve_step, after_nil, hdeep]
  have hsecond : outer.after [.step, .tick] = inner := by
    rw [after_cons, serve_step, hdeep]
    rfl
  have hthird : outer.after inside = back := by
    refine (after_append outer [.step, .tick] [.step]).trans ?_
    rw [hsecond, after_cons, serve_step, after_nil, hback]
  have habove : ∀ n ≤ inside.length,
      m.stack.depth < (m.step.1.after (inside.take n)).stack.depth := by
    intro n hn
    rw [houter]
    match n with
    | 0 => decide
    | 1 => exact hfirst ▸ (by decide : 0 < inner.stack.depth)
    | 2 => exact hsecond ▸ (by decide : 0 < inner.stack.depth)
    | 3 => exact hthird ▸ (by decide : 0 < back.stack.depth)
  have hreturned : (m.step.1.after inside).step.1.stack.depth = m.stack.depth := by
    rw [houter, hthird, step_of_fetch (m := back) hreturn rfl]
    rfl
  have hdepth : (m.step.1.after [.step]).stack.depth = 2 := by
    rw [houter, hfirst]
    rfl
  exact ⟨hcall, rfl, hdepth,
    call_returns_to_caller hcall (by decide) (by decide) (by decide) habove hreturned⟩

end Machine

end Chip8VM
