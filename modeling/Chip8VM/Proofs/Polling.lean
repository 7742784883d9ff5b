import Chip8VM.Proofs.Destinations
import Chip8VM.Proofs.Independence

/-!
# Waiting for a key

`FX0A` is the one word that leads to itself.  Until a key is pressed, steps change nothing
but the word fetched last, and the first step after that goes on with the key.
-/

namespace Chip8VM

def Operation.isTiming : Operation → Bool
  | .setDelay _ | .setSound _ | .resetTimers | .tick => true
  | .step | .load _ | .loadRom _ | .reset | .pressKey _ => false

theorem Operation.isOutside_of_isTiming {op : Operation} (h : op.isTiming) :
    op.isOutside := by
  cases op with
  | setDelay | setSound | resetTimers | tick => rfl
  | step | load | loadRom | reset | pressKey => cases h

namespace Machine

open Word

variable {m : Machine} {w : UInt16}

theorem step_of_waits (hword : m.NextWord w) (hwaits : m.Waits w) :
    m.step = ({ m with word := w }, .ok .waiting) := by
  have hperform : perform { m with word := w } (.misc .awaitKey (x w)) =
      ({ m with word := w }, .ok { advance := .stay, signal := .waiting }) := by
    simp only [perform, misc, hwaits.2]
  have hstay : move { m with word := w } .stay = { m with word := w } := by
    have hpc : Advance.stay.apply m.pc = m.pc := UInt16.add_zero m.pc
    simp only [move, hpc]
  rw [step_of_fetch (Memory.fetch_eq_ok_iff.mpr hword) (decode?_awaitKey hwaits.1),
    execute_of_ok hperform, hstay]

theorem step_of_latched (hword : m.NextWord w) (hfits : Fits w 0xF 0x0A) {key : UInt8}
    (hkey : m.keys.get = some key) :
    m.step = ({ m.setRegister (x w) key with word := w, pc := m.pc + 2 }, .ok .quiet) := by
  have hperform : perform { m with word := w } (.misc .awaitKey (x w)) =
      ((setRegister { m with word := w } (x w) key), .ok {}) := by
    simp only [perform, misc, hkey]
    rfl
  rw [step_of_fetch (Memory.fetch_eq_ok_iff.mpr hword) (decode?_awaitKey hfits),
    execute_of_ok hperform]
  rfl

def timersAfter (t : Timers) (ops : List Operation) : Timers :=
  ops.foldl (fun t op => op.onTimers t) t

theorem serve_timing (m : Machine) {op : Operation} (h : op.isTiming) :
    (m.serve op).1 = { m with timers := op.onTimers m.timers } := by
  cases op with
  | setDelay | setSound | resetTimers | tick => rfl
  | step | load | loadRom | reset | pressKey => cases h

theorem after_timing (m : Machine) {ops : List Operation} (hops : ∀ op ∈ ops, op.isTiming) :
    m.after ops = { m with timers := timersAfter m.timers ops } := by
  induction ops generalizing m with
  | nil => rfl
  | cons op ops ih =>
      rw [after_cons, serve_timing m (hops op List.mem_cons_self),
        ih _ fun later hlater => hops later (List.mem_cons_of_mem op hlater)]
      rfl

theorem after_waiting (hword : m.NextWord w) (hwaits : m.Waits w) {ops : List Operation}
    (hops : ∀ op ∈ ops, op = .step ∨ op.isTiming) :
    m.after ops = { m with
        timers := timersAfter m.timers ops
        word := if .step ∈ ops then w else m.word } ∧
      ∀ result, .stepped result ∈ (m.run ops).2 → result = .ok .waiting := by
  induction ops generalizing m with
  | nil => exact ⟨rfl, fun _ hresult => absurd hresult List.not_mem_nil⟩
  | cons op ops ih =>
      have hlater : ∀ later ∈ ops, later = .step ∨ later.isTiming :=
        fun later hmem => hops later (List.mem_cons_of_mem op hmem)
      rw [after_cons, run_cons]
      rcases hops op List.mem_cons_self with rfl | htiming
      · have hstep := step_of_waits hword hwaits
        rw [serve_step, hstep]
        obtain ⟨hafter, hanswers⟩ := ih (m := { m with word := w }) hword hwaits hlater
        refine ⟨?_, fun result hresult => ?_⟩
        · refine hafter.trans ?_
          simp only [ite_self, List.mem_cons, true_or, if_true]
          rfl
        · rcases List.mem_cons.mp hresult with hfirst | hmem
          · exact Answer.stepped.inj hfirst
          · exact hanswers result hmem
      · have hkept : (m.serve op).1 = { m with timers := op.onTimers m.timers } :=
          serve_timing m htiming
        obtain ⟨hafter, hanswers⟩ := ih (m := (m.serve op).1)
          (by rw [hkept]; exact hword) (by rw [hkept]; exact hwaits) hlater
        refine ⟨?_, fun result hresult => ?_⟩
        · have hstep : Operation.step ≠ op := by rintro rfl; cases htiming
          refine hafter.trans ?_
          simp [hkept, timersAfter, hstep]
        · rcases List.mem_cons.mp hresult with hfirst | hmem
          · exact absurd hfirst.symm
              (serve_outside_answer m (Operation.isOutside_of_isTiming htiming) result)
          · exact hanswers result hmem

theorem step_after_waiting (hword : m.NextWord w) (hwaits : m.Waits w)
    {ops later : List Operation} (hops : ∀ op ∈ ops, op = .step ∨ op.isTiming)
    (hlater : ∀ op ∈ later, op.isTiming) {key : UInt8} (hkey : key.toNat < keyCount) :
    let waited := ops ++ .pressKey (some key) :: later
    (m.after waited).step =
      ({ m.setRegister (x w) key with
          word := w
          pc := m.pc + 2
          keys := ⟨key⟩
          timers := timersAfter m.timers waited }, .ok .quiet) := by
  intro waited
  have hset : ∀ keys : KeyLatch, keys.set (some key) = .ok ⟨key⟩ := fun keys =>
    KeyLatch.set_eq_ok_iff.mpr ⟨fun _ h => Option.some.inj h ▸ hkey, rfl⟩
  have hget : KeyLatch.get ⟨key⟩ = some key := KeyLatch.get_of_set (hset {})
  have hafter : m.after waited = { m with
      timers := timersAfter m.timers waited
      word := if .step ∈ ops then w else m.word
      keys := ⟨key⟩ } := by
    have htimers : timersAfter m.timers waited =
        timersAfter (timersAfter m.timers ops) later := List.foldl_append
    rw [after_append, (after_waiting hword hwaits hops).1, after_cons]
    simp only [serve, pressKey, hset]
    rw [after_timing _ hlater, htimers]
  rw [hafter]
  exact step_of_latched (m := { m with
    timers := timersAfter m.timers waited
    word := if .step ∈ ops then w else m.word
    keys := ⟨key⟩ }) hword hwaits.1 hget

/-- A successful step leads where its word says and signals what its word does.  Of two
opposite conditions one is met, and numbers that are no keys are not pressed.  A wait for a
key touches nothing but the word fetched last, until the key goes to its register. -/
theorem step_leads_where_word_says (m : Machine) :
    (∀ (word : UInt16) (m' : Machine) (signal : Signal),
      m.NextWord word → m.step = (m', .ok signal) →
        m.destination? word = some m'.pc.toNat ∧
        (signal = .cleared ↔ word.toNat = 0x00E0) ∧
        (signal = .drawn ↔ (family word).val = 0xD) ∧
        (signal = .waiting ↔ Fits word 0xF 0x0A ∧ m.keys.get = none)) ∧
    (∀ r byte, m.SkipsOneOf (.skipIfEqual r byte) (.skipIfNotEqual r byte)) ∧
    (∀ r s, m.SkipsOneOf (.skipIfSame r s) (.skipIfDifferent r s)) ∧
    (∀ r, m.SkipsOneOf (.key .pressed r) (.key .notPressed r)) ∧
    (m.keys.Made → ∀ r, 15 < (m.v.get r).toNat →
      m.execute (.key .pressed r) = ({ m with pc := m.pc + 2 }, .ok .quiet)) ∧
    (∀ (word : UInt16) (ops : List Operation), m.NextWord word → m.Waits word →
      (∀ op ∈ ops, op = .step ∨ op.isTiming) →
        m.after ops = { m with
          timers := timersAfter m.timers ops
          word := if .step ∈ ops then word else m.word } ∧
        (∀ result, .stepped result ∈ (m.run ops).2 → result = .ok .waiting) ∧
        ∀ (key : UInt8) (later : List Operation), key.toNat < keyCount →
          (∀ op ∈ later, op.isTiming) →
            let waited := ops ++ .pressKey (some key) :: later
            (m.after waited).step =
              ({ m.setRegister (x word) key with
                  word
                  pc := m.pc + 2
                  keys := ⟨key⟩
                  timers := timersAfter m.timers waited }, .ok .quiet)) := by
  refine ⟨?_, ?_, ?_, ?_, ?_, ?_⟩
  · intro word m' signal hword hstep
    obtain ⟨⟨fetched, hfetch, rfl⟩, -⟩ := signal_of_step hstep
    obtain rfl : fetched = word :=
      Except.ok.inj (hfetch.symm.trans (Memory.fetch_eq_ok_iff.mpr hword))
    exact ⟨destination?_of_step hword hstep, signal_eq_cleared_iff _, signal_eq_drawn_iff _,
      signal_eq_waiting_iff⟩
  · exact fun r byte => skipsOneOf_of_branch rfl rfl
  · exact fun r s => skipsOneOf_of_branch rfl rfl
  · exact fun r => skipsOneOf_of_branch rfl rfl
  · exact fun hkeys r => execute_pressed_of_no_key hkeys
  · intro word ops hword hwaits hops
    obtain ⟨hafter, hanswers⟩ := after_waiting hword hwaits hops
    exact ⟨hafter, hanswers, fun key later hkey hlater =>
      step_after_waiting hword hwaits hops hlater hkey⟩

/-- `F30A` is run twice, between ticks, before the key `7` is pressed; `VF` holds no key. -/
theorem key_awaited_then_stored :
    let loaded : Machine :=
      { fresh (.constant 0) with
        memory := ⟨Memory.place Memory.initial.cells programStart [0xF3, 0x0A]⟩
        timers := ⟨5, 9⟩ }
    let m := loaded.setRegister flagRegister 255
    let ops : List Operation := [.step, .tick, .step]
    m.NextWord 0xF30A ∧ m.Waits 0xF30A ∧ (∀ op ∈ ops, op = .step ∨ op.isTiming) ∧
      m.step = ({ m with word := 0xF30A }, .ok .waiting) ∧
      m.destination? 0xF30A = some m.step.1.pc.toNat ∧
      (m.after (ops ++ [.pressKey (some 7), .tick])).step =
        ({ m.setRegister (x 0xF30A) 7 with
            word := 0xF30A
            pc := m.pc + 2
            keys := ⟨7⟩
            timers := ⟨3, 7⟩ }, .ok .quiet) ∧
      m.keys.Made ∧ 15 < (m.v.get flagRegister).toNat ∧
      m.execute (.key .pressed flagRegister) = ({ m with pc := m.pc + 2 }, .ok .quiet) := by
  intro loaded m ops
  have hword : m.NextWord 0xF30A := Memory.fetch_eq_ok_iff.mp
    (@Memory.fetch_place Memory.initial.cells [0xF3, 0x0A] programStart 0 0xF3 0x0A
      (by decide) rfl rfl)
  have hwaits : m.Waits 0xF30A := ⟨⟨rfl, rfl⟩, rfl⟩
  have hops : ∀ op ∈ ops, op = .step ∨ op.isTiming := by decide
  have hstep := step_of_waits hword hwaits
  have hmade : m.keys.Made := .inl rfl
  have hno : 15 < (m.v.get flagRegister).toNat := by
    rw [get_setRegister_self]
    decide
  have htimers :
      timersAfter m.timers (ops ++ [.pressKey (some 7), .tick]) = ⟨3, 7⟩ := by decide
  obtain ⟨hleads, -, -, -, hpressed, hpolled⟩ := step_leads_where_word_says m
  have hdestination := (hleads 0xF30A _ _ hword hstep).1
  have hstored := (hpolled 0xF30A ops hword hwaits hops).2.2 7 [.tick] (by decide) (by decide)
  simp only [htimers] at hstored
  rw [hstep]
  exact ⟨hword, hwaits, hops, rfl, hdestination, hstored, hmade, hno,
    hpressed hmade flagRegister hno⟩

end Machine

end Chip8VM
