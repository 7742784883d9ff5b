import Chip8VM.Proofs.Countdown
import Chip8VM.Proofs.Families
import Chip8VM.Proofs.Footprint
import Chip8VM.Proofs.Reload

/-!
# Machines that share their timers

A machine reaches its timers through a handle, and whoever holds a handle of the same
family reaches them too.  Each event reaches the timers of one family at most, and does
there what one access does.  So the counters of a family are told by the accesses of its
holders, in the order in which they take effect.
-/

namespace Chip8VM

open Timers

/-! ## What a machine does to its timers -/

def Instruction.access? (v : Vector UInt8 registerCount) : Instruction → Option Access
  | .misc .setDelay x => some (.setDelay (v.get x))
  | .misc .setSound x => some (.setSound (v.get x))
  | _ => none

def Timers.Access.answer (t : Timers) : Access → Answer
  | .tick => .ticked t.tick.1
  | .setDelay _ | .setSound _ | .reset => .done

theorem Timers.tick_answer (t : Timers) :
    Access.tick.answer t = .ticked (decide ((Access.tick.apply t).sound ≠ 0)) := by
  have hrunning : t.tick.1 = decide (t.tick.2.sound ≠ 0) :=
    decide_eq_decide.mpr UInt8.pos_iff_ne_zero
  exact congrArg Answer.ticked hrunning

namespace Machine

def access? (m : Machine) : Operation → Option Access
  | .step =>
      match m.memory.fetch m.pc.toNat with
      | .ok word => (Instruction.decode? word).bind (Instruction.access? m.v)
      | .error _ => none
  | .loadRom rom => if rom.bytes.length ≤ programLimit then some .reset else none
  | .reset | .resetTimers => some .reset
  | .setDelay value => some (.setDelay value)
  | .setSound value => some (.setSound value)
  | .tick => some .tick
  | .load _ | .pressKey _ => none

theorem timers_perform (m : Machine) (i : Instruction) :
    (m.perform i).1.timers = (i.access? m.v).elim m.timers (Access.apply m.timers) := by
  cases i with
  | system op =>
      cases op with
      | clear => rfl
      | ret =>
          simp only [perform, system]
          cases m.stack.pop <;> rfl
  | call target =>
      simp only [perform, call]
      cases m.stack.push (m.pc + Advance.next.distance) <;> rfl
  | alu op x y =>
      simp only [perform, alu]
      cases op.flag? m.v[x] m.v[y] <;> rfl
  | draw x y rows =>
      simp only [perform, draw]
      cases m.memory.read m.index.toNat rows <;> rfl
  | key op x => cases op <;> rfl
  | misc op x =>
      cases op with
      | getDelay | setDelay | setSound | addToIndex | glyph => rfl
      | awaitKey =>
          simp only [perform, misc]
          cases m.keys.get <;> rfl
      | storeDigits =>
          simp only [perform, misc, storeDigits]
          cases m.memory.write m.index.toNat (decimalDigits m.v[x]) <;> rfl
      | storeRegisters =>
          simp only [perform, misc, storeRegisters]
          cases m.memory.write m.index.toNat (m.registersUpTo x) <;> rfl
      | loadRegisters =>
          simp only [perform, misc, loadRegisters]
          cases m.memory.read m.index.toNat (x.val + 1) with
          | error e => rfl
          | ok bytes => simp [done, Instruction.access?]
  | jump | skipIfEqual | skipIfNotEqual | skipIfSame | skipIfDifferent | load | add
  | setIndex | jumpOffset | random => rfl

theorem timers_step (m : Machine) :
    m.step.1.timers = (m.access? .step).elim m.timers (Access.apply m.timers) := by
  cases hfetch : m.memory.fetch m.pc.toNat with
  | error e =>
      simp only [access?, hfetch]
      rw [step_of_fetch_error hfetch]
      rfl
  | ok word =>
      simp only [access?, hfetch]
      cases hdecode : Instruction.decode? word with
      | none =>
          rw [step_of_undecodable hfetch hdecode]
          rfl
      | some i =>
          rw [step_of_fetch hfetch hdecode]
          have hperform := timers_perform { m with word } i
          rcases hresult : Machine.perform { m with word } i with ⟨m', fault | effect⟩
          · rw [execute_of_error hresult]
            rwa [hresult] at hperform
          · rw [execute_of_ok hresult]
            rwa [hresult] at hperform

theorem timers_serve (m : Machine) (op : Operation) :
    (m.serve op).1.timers = (m.access? op).elim m.timers (Access.apply m.timers) := by
  cases op with
  | step => exact m.timers_step
  | load program =>
      simp only [serve, load]
      cases m.memory.load program <;> rfl
  | loadRom rom =>
      rw [serve_loadRom_fst, access?]
      split <;> rfl
  | pressKey key =>
      obtain ⟨keys, hserve⟩ := m.serve_pressKey key
      rw [hserve]
      rfl
  | reset | setDelay | setSound | resetTimers | tick => rfl

theorem eq_tick_of_access? {m : Machine} {op : Operation} (h : m.access? op = some .tick) :
    op = .tick := by
  cases op with
  | tick => rfl
  | loadRom rom =>
      simp only [access?] at h
      split at h <;> cases h
  | step =>
      simp only [access?] at h
      split at h
      case h_2 => cases h
      case h_1 =>
          obtain ⟨i, -, haccess⟩ := Option.bind_eq_some_iff.mp h
          unfold Instruction.access? at haccess
          split at haccess <;> cases haccess
  | load | reset | pressKey | setDelay | setSound | resetTimers => cases h

theorem delay_read {m : Machine} {word : UInt16}
    (hfetch : m.memory.fetch m.pc.toNat = .ok word) (hfits : Word.Fits word 0xF 0x07) :
    m.step.1.v.get (Word.x word) = m.timers.delay := by
  have hdecode : Instruction.decode? word = some (.misc .getDelay (Word.x word)) :=
    decode?_of_fits hfits
  rw [step_of_fetch hfetch hdecode]
  exact get_setRegister_self _ (Word.x word) m.timers.delay

def withTimers (m : Machine) (timers : Timers) : Machine := { m with timers }

theorem access?_withTimers (m : Machine) (timers : Timers) (op : Operation) :
    (m.withTimers timers).access? op = m.access? op := by
  cases op <;> rfl

end Machine

/-! ## Machines and other holders of handles -/

/-- A machine and the handle through which it reaches its timers. -/
structure Cabinet where
  machine : Machine
  handle : Nat

structure Arcade where
  bank : Handles Timers := {}
  cabinets : List Cabinet := []

namespace Arcade

inductive Event where
  | deed (deed : Handles.Deed Access)
  /-- A machine is built at a handle; one with timers of its own gets a new handle. -/
  | build (handle : Nat) (random : RandomStream)
  | operate (number : Nat) (op : Operation)

def serve (a : Arcade) : Event → Arcade × Option Answer
  | .deed deed =>
      let answer := match deed with
        | .change handle access => (a.bank.read? handle).map access.answer
        | .create | .clone _ => none
      ({ a with bank := a.bank.perform {} Access.apply deed }, answer)
  | .build handle random =>
      if handle < a.bank.size then
        ({ a with cabinets := a.cabinets ++ [⟨.fresh random, handle⟩] }, none)
      else (a, none)
  | .operate number op =>
      match a.cabinets[number]? with
      | none => (a, none)
      | some cabinet =>
          match a.bank.read? cabinet.handle with
          | none => (a, none)
          | some timers =>
              let (machine, answer) := (cabinet.machine.withTimers timers).serve op
              (⟨a.bank.write cabinet.handle machine.timers,
                a.cabinets.set number ⟨machine, cabinet.handle⟩⟩, some answer)

def deed? (a : Arcade) : Event → Option (Handles.Deed Access)
  | .deed deed => some deed
  | .build _ _ => none
  | .operate number op =>
      (a.cabinets[number]?).bind fun cabinet =>
        (cabinet.machine.access? op).map (.change cabinet.handle)

def after (a : Arcade) (events : List Event) : Arcade :=
  events.foldl (fun a event => (a.serve event).1) a

def access? (a : Arcade) (family : Nat) (event : Event) : Option Access :=
  (a.deed? event).bind (Handles.Deed.act? a.bank.cellOf family)

def history (a : Arcade) : List Event → Nat → List Access
  | [], _ => []
  | event :: events, family =>
      (a.access? family event).toList ++ (a.serve event).1.history events family

section

variable {a : Arcade} {number : Nat} {cabinet : Cabinet} {timers : Timers}

theorem serve_operate (hcabinet : a.cabinets[number]? = some cabinet)
    (hread : a.bank.read? cabinet.handle = some timers) (op : Operation) :
    a.serve (.operate number op) =
      let served := (cabinet.machine.withTimers timers).serve op
      (⟨a.bank.write cabinet.handle served.1.timers,
        a.cabinets.set number ⟨served.1, cabinet.handle⟩⟩, some served.2) := by
  simp only [serve, hcabinet, hread]

theorem bank_operate (hcabinet : a.cabinets[number]? = some cabinet)
    (hread : a.bank.read? cabinet.handle = some timers) (op : Operation) :
    (a.serve (.operate number op)).1.bank = (cabinet.machine.access? op).elim a.bank fun access =>
      a.bank.perform {} Access.apply (.change cabinet.handle access) := by
  rw [serve_operate hcabinet hread]
  simp only [Machine.timers_serve, Machine.access?_withTimers]
  cases cabinet.machine.access? op with
  | none => exact Handles.write_read hread
  | some access => simp [Handles.perform, Handles.update, hread, Machine.withTimers]

end

theorem bank_serve (a : Arcade) (event : Event) :
    (a.serve event).1.bank =
      (a.deed? event).elim a.bank (a.bank.perform {} Access.apply) := by
  cases event with
  | deed deed => rfl
  | build handle random =>
      simp only [serve]
      split <;> rfl
  | operate number op =>
      cases hcabinet : a.cabinets[number]? with
      | none => simp [serve, deed?, hcabinet]
      | some cabinet =>
          cases hread : a.bank.read? cabinet.handle with
          | none =>
              cases haccess : cabinet.machine.access? op <;>
                simp [serve, deed?, hcabinet, hread, haccess, Handles.perform, Handles.update]
          | some timers =>
              rw [bank_operate hcabinet hread]
              cases haccess : cabinet.machine.access? op <;> simp [deed?, hcabinet, haccess]

theorem handle_lt_of_serve {a : Arcade} {event : Event} {cabinet : Cabinet}
    (h : ∀ cabinet ∈ a.cabinets, cabinet.handle < a.bank.size)
    (hcabinet : cabinet ∈ (a.serve event).1.cabinets) : cabinet.handle < a.bank.size := by
  cases event with
  | deed deed => exact h cabinet hcabinet
  | build handle random =>
      simp only [serve] at hcabinet
      split at hcabinet
      case isTrue hhandle =>
          rcases List.mem_append.mp hcabinet with hmem | hmem
          · exact h cabinet hmem
          · obtain rfl := List.mem_singleton.mp hmem
            exact hhandle
      case isFalse => exact h cabinet hcabinet
  | operate number op =>
      simp only [serve] at hcabinet
      split at hcabinet
      case h_1 => exact h cabinet hcabinet
      case h_2 operated hoperated =>
          split at hcabinet
          case h_1 => exact h cabinet hcabinet
          case h_2 =>
              rcases List.mem_or_eq_of_mem_set hcabinet with hmem | rfl
              · exact h cabinet hmem
              · exact h operated (List.mem_of_getElem? hoperated)

/-- The timers of each family are told by its history, and each machine has some. -/
structure Tracked (a : Arcade) (acts : Nat → List Access) : Prop where
  recorded : Handles.Recorded {} Access.apply a.bank acts
  handle_lt : ∀ cabinet ∈ a.cabinets, cabinet.handle < a.bank.size

section

variable {a : Arcade} {acts : Nat → List Access}

theorem tracked_empty : Tracked {} fun _ => [] where
  recorded := Handles.recorded_empty
  handle_lt _ hcabinet := absurd hcabinet (by simp)

theorem Tracked.makes (h : a.Tracked acts) (event : Event) :
    ∃ made, (a.serve event).1.bank.cellOf = a.bank.cellOf ++ made ∧
      (a.deed? event).elim (made = []) (Handles.Deed.Makes a.bank.cellOf made) := by
  rw [bank_serve]
  exact h.recorded.makes_elim (a.deed? event)

theorem Tracked.serve (h : a.Tracked acts) (event : Event) :
    (a.serve event).1.Tracked fun family => acts family ++ (a.access? family event).toList where
  recorded := by
    rw [bank_serve]
    exact h.recorded.perform_elim (a.deed? event)
  handle_lt cabinet hcabinet := by
    obtain ⟨made, hmade, -⟩ := h.makes event
    have hgrows : a.bank.size ≤ (a.serve event).1.bank.size := by
      simp [Handles.size, hmade]
    exact Nat.lt_of_lt_of_le (handle_lt_of_serve h.handle_lt hcabinet) hgrows

theorem Tracked.read_serve (h : a.Tracked acts) {handle family : Nat}
    (hfamily : a.bank.cellOf[handle]? = some family) (event : Event) :
    (a.serve event).1.bank.read? handle =
      let timers := (acts family).foldl Access.apply {}
      some ((a.access? family event).elim timers (Access.apply timers)) := by
  obtain ⟨made, hmade, -⟩ := h.makes event
  have hkept : (a.serve event).1.bank.cellOf[handle]? = some family := by
    rw [hmade, List.getElem?_append_left (List.getElem?_eq_some_iff.mp hfamily).1, hfamily]
  rw [(h.serve event).recorded.read hkept, List.foldl_append]
  cases a.access? family event <;> rfl

theorem Tracked.delay_read (h : a.Tracked acts) {number family : Nat} {cabinet : Cabinet}
    (hcabinet : a.cabinets[number]? = some cabinet)
    (hfamily : a.bank.cellOf[cabinet.handle]? = some family) {word : UInt16}
    (hfetch : cabinet.machine.memory.fetch cabinet.machine.pc.toNat = .ok word)
    (hfits : Word.Fits word 0xF 0x07) :
    ∃ next, (a.serve (.operate number .step)).1.cabinets[number]? = some next ∧
      (next.machine.v.get (Word.x word)).toNat = remaining .delay (acts family) := by
  have hnumber : number < a.cabinets.length := (List.getElem?_eq_some_iff.mp hcabinet).1
  rw [serve_operate hcabinet (h.recorded.read hfamily)]
  refine ⟨_, List.getElem?_set_self hnumber, ?_⟩
  have hdelay := Machine.delay_read
    (m := cabinet.machine.withTimers ((acts family).foldl Access.apply {})) hfetch hfits
  have hregister : ((acts family).foldl Access.apply {}).delay.toNat = _ :=
    toNat_read_history .delay (acts family)
  exact (congrArg UInt8.toNat hdelay).trans hregister

theorem Tracked.after (h : a.Tracked acts) (events : List Event) :
    (a.after events).Tracked fun family => acts family ++ a.history events family := by
  induction events generalizing a acts with
  | nil => simpa [Arcade.after, history] using h
  | cons event events ih =>
      simpa [Arcade.after, history, List.append_assoc] using ih (h.serve event)

end

theorem answer_of_tick {a : Arcade} {family : Nat} {event : Event} {timers : Timers}
    (hread : ∀ handle, a.bank.cellOf[handle]? = some family →
      a.bank.read? handle = some timers)
    (htick : a.access? family event = some .tick) :
    (a.serve event).2 = some (Access.tick.answer timers) := by
  obtain ⟨deed, hdeed, hact⟩ := Option.bind_eq_some_iff.mp htick
  obtain ⟨handle, rfl, hfamily⟩ := Handles.Deed.act?_eq_some_iff.mp hact
  cases event with
  | build => cases hdeed
  | deed deed =>
      obtain rfl := Option.some.inj hdeed
      simp only [serve, hread handle hfamily, Option.map_some]
  | operate number op =>
      obtain ⟨cabinet, hcabinet, hmap⟩ := Option.bind_eq_some_iff.mp hdeed
      obtain ⟨access, haccess, hchange⟩ := Option.map_eq_some_iff.mp hmap
      cases hchange
      obtain rfl := Machine.eq_tick_of_access? haccess
      rw [serve_operate hcabinet (hread _ hfamily)]
      rfl

/-- A family reads one pair everywhere, and each counter is what its history tells.  The
next event does to a family what its access does, and nothing else; one counter is
written without the other, a tick tells whether the sound goes on, and `FX07` reads
the counter. -/
theorem timers_count_exactly (events : List Event) :
    let a := Arcade.after {} events
    let past := Arcade.history {} events
    (∀ event, ∃ made, (a.serve event).1.bank.cellOf = a.bank.cellOf ++ made ∧
      (a.deed? event).elim (made = []) (Handles.Deed.Makes a.bank.cellOf made)) ∧
    (∀ family, family ∈ a.bank.cellOf → ∃ timers : Timers,
      (∀ handle, a.bank.cellOf[handle]? = some family → a.bank.read? handle = some timers) ∧
      (∀ counter : Counter, (counter.read timers).toNat = remaining counter (past family)) ∧
      ∀ event,
        let timers' := (a.access? family event).elim timers (Access.apply timers)
        (∀ handle, a.bank.cellOf[handle]? = some family →
          (a.serve event).1.bank.read? handle = some timers') ∧
        (a.access? family event = some .tick →
          (a.serve event).2 = some (.ticked (decide (timers'.sound ≠ 0)))) ∧
        ∀ access, a.access? family event = some access → access ≠ .tick →
          ∀ counter : Counter, access.writes counter = none →
            counter.read timers' = counter.read timers) ∧
    ∀ number cabinet, a.cabinets[number]? = some cabinet →
      ∃ family, a.bank.cellOf[cabinet.handle]? = some family ∧
        ∀ word, cabinet.machine.memory.fetch cabinet.machine.pc.toNat = .ok word →
          Word.Fits word 0xF 0x07 →
          ∃ next, (a.serve (.operate number .step)).1.cabinets[number]? = some next ∧
            (next.machine.v.get (Word.x word)).toNat = remaining .delay (past family) := by
  intro a past
  have htracked : a.Tracked past := by simpa using tracked_empty.after events
  have hread := fun handle family (hfamily : a.bank.cellOf[handle]? = some family) =>
    htracked.recorded.read hfamily
  refine ⟨htracked.makes, ?_, ?_⟩
  · intro family _
    refine ⟨_, fun handle => hread handle family, fun counter => toNat_read_history counter _,
      fun event => ⟨fun handle hhandle => htracked.read_serve hhandle event, ?_, ?_⟩⟩
    · intro htick
      rw [answer_of_tick (fun handle => hread handle family) htick, tick_answer, htick,
        Option.elim_some]
    · intro access haccess htick counter hwrites
      rw [haccess, Option.elim_some]
      exact read_apply_of_not_writes hwrites htick _
  · intro number cabinet hcabinet
    have hhandle := htracked.handle_lt cabinet (List.mem_of_getElem? hcabinet)
    have hfamily := List.getElem?_eq_getElem hhandle
    exact ⟨_, hfamily, fun word => htracked.delay_read hcabinet hfamily⟩

theorem delay_read_after_tick :
    let rom : Rom := ⟨"clock", [0xF2, 0x07]⟩
    let events : List Event :=
      [.deed .create, .deed (.clone 0), .build 0 (.constant 0), .operate 0 (.loadRom rom),
        .deed (.change 1 (.setDelay 3)), .deed (.change 0 .tick)]
    let a := Arcade.after {} events
    history {} events 0 = [.reset, .setDelay 3, .tick] ∧
      ∃ cabinet next, a.cabinets[0]? = some cabinet ∧
        cabinet.machine.memory.fetch cabinet.machine.pc.toNat = .ok 0xF207 ∧
        (a.serve (.operate 0 .step)).1.cabinets[0]? = some next ∧
        (next.machine.v.get (Word.x 0xF207)).toNat = 2 := by
  intro rom events a
  have ha : Arcade.after {} events = a := rfl
  clear_value a
  let cabinet : Cabinet := ⟨.started rom {} (.constant 0), 0⟩
  let built : Arcade := ⟨⟨[{}], [0, 0]⟩, [⟨.fresh (.constant 0), 0⟩]⟩
  have hload : (built.serve (.operate 0 (.loadRom rom))).1 = ⟨⟨[{}], [0, 0]⟩, [cabinet]⟩ := by
    rw [serve_operate rfl rfl]
    dsimp only
    rw [Machine.serve_loadRom_fst, if_pos (by decide)]
    rfl
  have hstate : a = ⟨⟨[{ delay := 2 }], [0, 0]⟩, [cabinet]⟩ := by
    have hafter : a = ((built.serve (.operate 0 (.loadRom rom))).1).after
        [.deed (.change 1 (.setDelay 3)), .deed (.change 0 .tick)] := ha.symm
    rw [hafter, hload]
    rfl
  have hhistory : history {} events 0 = [.reset, .setDelay 3, .tick] := by
    have hreset : history {} events 0 =
        .reset :: history (built.serve (.operate 0 (.loadRom rom))).1
          [.deed (.change 1 (.setDelay 3)), .deed (.change 0 .tick)] 0 := rfl
    rw [hreset, hload]
    rfl
  have hfetch : cabinet.machine.memory.fetch cabinet.machine.pc.toNat = .ok 0xF207 :=
    @Memory.fetch_place _ [0xF2, 0x07] programStart 0 0xF2 0x07 (by decide) rfl rfl
  have hclaim := (timers_count_exactly events).2.2 0 cabinet
  rw [ha] at hclaim
  have hcabinet : a.cabinets[0]? = some cabinet := by
    rw [hstate]
    rfl
  obtain ⟨family, hfamily, hreads⟩ := hclaim hcabinet
  obtain ⟨next, hnext, hregister⟩ := hreads 0xF207 hfetch ⟨rfl, rfl⟩
  obtain rfl : family = 0 := by
    rw [hstate] at hfamily
    exact (Option.some.inj hfamily).symm
  rw [hhistory] at hregister
  exact ⟨hhistory, cabinet, next, hcabinet, hfetch, hnext, hregister⟩

end Arcade

end Chip8VM
