import Chip8VM.Proofs.Agreement
import Chip8VM.Proofs.Independence
import Chip8VM.Proofs.Signals

/-!
# What cannot be seen from inside

The name, the word fetched last and the sound timer decide nothing: machines that
differ only there give the same answer to every step of a run.  The screen decides
nothing but the flag of a drawing.
-/

namespace Chip8VM.Machine

def NextDraws (m : Machine) : Prop :=
  ∃ word, m.memory.fetch m.pc.toNat = .ok word ∧ (Word.family word).val = 0xD

theorem nextDraws_of_step {m : Machine} (h : m.step.2 = .ok .drawn) : m.NextDraws := by
  obtain ⟨word, hfetch, hsignal⟩ := (signal_of_step (Prod.ext rfl h)).1
  obtain ⟨x, y, rows, hdecode⟩ := Word.signal_eq_drawn hsignal.symm
  exact ⟨word, hfetch, (Instruction.spelledBy_of_decode? hdecode).1⟩

theorem decode?_draw {word : UInt16} (h : (Word.family word).val = 0xD) :
    Instruction.decode? word = some (.draw (Word.x word) (Word.y word) (Word.n word)) :=
  Instruction.decode?_of_spelledBy ⟨h, rfl, rfl, rfl⟩

variable {screens sounds : Prop} {m m' : Machine}

/-! ## Drawings on different screens -/

def withFlagOf (m' m : Machine) : Machine :=
  m'.setRegister flagRegister (m.v.get flagRegister)

theorem v_withFlagOf {flag flag' : UInt8} (h : m.v = m'.v) :
    (m.setRegister flagRegister flag).v =
      ((m'.setRegister flagRegister flag').withFlagOf (m.setRegister flagRegister flag)).v := by
  have hflag : (m.setRegister flagRegister flag).v.get flagRegister = flag :=
    m.get_setRegister_self flagRegister flag
  simp only [withFlagOf, hflag]
  simp only [setRegister, Vector.set_set, h]

theorem Agree.withFlagOf (h : Agree screens sounds m m') :
    Agree screens sounds m (m'.withFlagOf m) := by
  have hv : m.v = m.v.set flagRegister (m.v.get flagRegister) :=
    (Vector.set_getElem_self flagRegister.isLt).symm
  refine { h with v := ?_ }
  simpa only [Machine.withFlagOf, setRegister, ← h.v] using hv

theorem Agree.perform_draw (h : Agree False sounds m m') (x y : Register) (rows : Fin 16) :
    (m.perform (.draw x y rows)).2 = (m'.perform (.draw x y rows)).2 ∧
      Agree False sounds (m.perform (.draw x y rows)).1
        ((m'.perform (.draw x y rows)).1.withFlagOf (m.perform (.draw x y rows)).1) := by
  have hread : m'.memory.read m'.index.toNat rows = m.memory.read m.index.toNat rows := by
    rw [h.memory, h.index]
  simp only [Machine.perform, Machine.draw, hread]
  cases m.memory.read m.index.toNat rows with
  | error e => exact ⟨rfl, h.withFlagOf⟩
  | ok sprite => exact ⟨rfl, { h with v := v_withFlagOf h.v, screen := False.elim }⟩

theorem Agree.step_draw (h : Agree False sounds m m') (hdraws : m.NextDraws) :
    m.step.2 = m'.step.2 ∧ Agree False sounds m.step.1 (m'.step.1.withFlagOf m.step.1) := by
  obtain ⟨word, hfetch, hfamily⟩ := hdraws
  have hsame : m'.memory.fetch m'.pc.toNat = .ok word := by
    rw [← hfetch, h.memory, h.pc]
  have hfetched : Agree False sounds { m with word } { m' with word } := { h with }
  obtain ⟨hresult, hagree⟩ :=
    hfetched.perform_draw (Word.x word) (Word.y word) (Word.n word)
  rw [step_of_fetch hfetch (decode?_draw hfamily), step_of_fetch hsame (decode?_draw hfamily)]
  exact execute_related (R := fun n n' => Agree False sounds n (n'.withFlagOf n))
    (fun _ _ _ h => h.move) hresult hagree

/-! ## Runs -/

theorem Agree.serve_running (h : Agree screens sounds m m') {op : Operation}
    (hop : op.isRunning) (hdraws : screens ∨ (op = .step → ¬ m.NextDraws)) :
    (m.serve op).2.result? = (m'.serve op).2.result? ∧
      Agree screens sounds (m.serve op).1 (m'.serve op).1 := by
  rcases Operation.isRunning_cases hop with rfl | houtside
  · have hscreens : m.step.2 = .ok .drawn → screens := fun hdrawn =>
      hdraws.resolve_right fun hnone => hnone rfl (nextDraws_of_step hdrawn)
    obtain ⟨hresult, hagree⟩ := h.step hscreens
    rw [serve_step, serve_step, hresult]
    exact ⟨rfl, hagree⟩
  · rw [result?_serve houtside, result?_serve houtside]
    exact ⟨rfl, h.serve_outside houtside⟩

theorem Agree.run (h : Agree screens sounds m m') {ops : List Operation}
    (hops : ∀ op ∈ ops, op.isRunning) (hdraws : screens ∨ m.Avoids NextDraws ops) :
    (m.run ops).2.filterMap Answer.result? = (m'.run ops).2.filterMap Answer.result? ∧
      Agree screens sounds (m.after ops) (m'.after ops) := by
  induction ops generalizing m m' with
  | nil => exact ⟨rfl, h⟩
  | cons op ops ih =>
      obtain ⟨hanswer, hserved⟩ :=
        h.serve_running (hops op List.mem_cons_self) (hdraws.imp_right And.left)
      obtain ⟨hanswers, hafter⟩ :=
        ih hserved (fun later hmem => hops later (List.mem_cons_of_mem op hmem))
          (hdraws.imp_right And.right)
      refine ⟨?_, hafter⟩
      rw [run_cons, run_cons, List.filterMap_cons, List.filterMap_cons, hanswer, hanswers]

/-- Machines that differ in what nothing reads go through every run alike.  With different
screens they do so up to the first drawing, and after it only the flag can differ. -/
theorem unread_state_does_not_leak (m m' : Machine) :
    (Agree True False m m' →
      ∀ ops : List Operation, (∀ op ∈ ops, op.isRunning) →
        (m.run ops).2.filterMap Answer.result? = (m'.run ops).2.filterMap Answer.result? ∧
          Agree True False (m.after ops) (m'.after ops)) ∧
    (Agree False False m m' →
      (∀ ops : List Operation, (∀ op ∈ ops, op.isRunning) → m.Avoids NextDraws ops →
        (m.run ops).2.filterMap Answer.result? = (m'.run ops).2.filterMap Answer.result? ∧
          Agree False False (m.after ops) (m'.after ops)) ∧
      (m.NextDraws →
        m.step.2 = m'.step.2 ∧
          Agree False False m.step.1 (m'.step.1.withFlagOf m.step.1))) := by
  refine ⟨fun h ops hops => h.run hops (.inl trivial), fun h => ⟨?_, h.step_draw⟩⟩
  exact fun ops hops hdrawless => h.run hops (.inr hdrawless)

/-- `6105` and then `D115`; the other machine beeps, and one of its pixels is lit. -/
theorem drawing_on_another_screen :
    let m : Machine :=
      { fresh (.constant 0) with
        memory := ⟨Memory.place Memory.initial.cells programStart [0x61, 0x05, 0xD1, 0x15]⟩ }
    let noisy : Machine := { m with name := "other", word := 0xFFFF, timers := ⟨0, 7⟩ }
    let lit : Machine := { noisy with screen := (m.screen.toggle 5 5).2 }
    let ops : List Operation := [.tick, .step, .setDelay 4]
    (∀ op ∈ ops, op.isRunning) ∧ m.Avoids NextDraws ops ∧ (m.after ops).NextDraws ∧
      Agree True False m noisy ∧ Agree False False m lit ∧
      (m.run ops).2.filterMap Answer.result? = (noisy.run ops).2.filterMap Answer.result? ∧
      (m.run ops).2.filterMap Answer.result? = (lit.run ops).2.filterMap Answer.result? ∧
      (m.after ops).step.2 = (lit.after ops).step.2 := by
  intro m noisy lit ops
  have hload : m.memory.fetch m.pc.toNat = .ok 0x6105 :=
    @Memory.fetch_place _ [0x61, 0x05, 0xD1, 0x15] programStart 0 0x61 0x05 (by decide) rfl rfl
  have hdraw : m.memory.fetch 0x202 = .ok 0xD115 :=
    @Memory.fetch_place _ [0x61, 0x05, 0xD1, 0x15] programStart 2 0xD1 0x15 (by decide) rfl rfl
  have hops : ∀ op ∈ ops, op.isRunning := by decide
  have hdrawless : m.Avoids NextDraws ops := by
    refine ⟨Operation.noConfusion, fun _ hnext => ?_, Operation.noConfusion, trivial⟩
    obtain ⟨word, hword, hfamily⟩ := hnext
    obtain rfl : word = 0x6105 := Except.ok.inj (hword.symm.trans hload)
    exact absurd hfamily (by decide)
  have hafter : m.after ops =
      { m with word := 0x6105, pc := 0x202, v := m.v.set 1 5, timers := ⟨4, 0⟩ } := by
    have hstep : (m.tick.2).step = _ := step_of_fetch (m := m.tick.2) hload rfl
    simp only [ops, after_cons, serve, hstep]
    rfl
  have hnext : (m.after ops).NextDraws := by
    rw [hafter]
    exact ⟨0xD115, hdraw, rfl⟩
  have hnoisy : Agree True False m noisy :=
    { random := rfl, screen := fun _ => rfl, sound := False.elim }
  have hlit : Agree False False m lit :=
    { random := rfl, screen := False.elim, sound := False.elim }
  obtain ⟨hresults, hagree⟩ :=
    ((unread_state_does_not_leak m lit).2 hlit).1 ops hops hdrawless
  exact ⟨hops, hdrawless, hnext, hnoisy, hlit,
    ((unread_state_does_not_leak m noisy).1 hnoisy ops hops).1, hresults,
    (((unread_state_does_not_leak (m.after ops) (lit.after ops)).2 hagree).2 hnext).1⟩

end Chip8VM.Machine
