import Chip8VM.Proofs.Beeps
import Chip8VM.Proofs.Families

/-!
# Ticks that nobody interrupts

The holders of handles write the timers between the ticks of a beeper, and never
inside one.  After each tick the beeper remembers whether the sound timer runs,
and this is what its reports have told.  A sound that is switched on once is
reported in the first tick, and its end in the tick that counts it down to zero.
-/

namespace Chip8VM

theorem Timers.beeping_eq_false_iff (t : Timers) : t.beeping = false ↔ t.sound = 0 := by
  simp only [beeping, decide_eq_false_iff_not, gt_iff_lt, UInt8.lt_iff_toNat_lt,
    ← UInt8.toNat_inj, UInt8.reduceToNat]
  omega

namespace Beeper

/-! ## A single tick -/

theorem notice_active (b : Beeper) (t : Timers) :
    (b.notice t).1.active = (b.active || t.beeping) := by
  cases hactive : b.active <;> cases hbeeping : t.beeping <;>
    simp [notice, hactive, hbeeping]

theorem tick_reports (b : Beeper) (t : Timers) :
    (b.tick t).2.2 =
      (if !b.active && t.beeping then [true] else []) ++
        (if (b.active || t.beeping) && !decide (1 < t.sound) then [false] else []) := by
  rw [← t.tick_fst]
  cases hactive : b.active <;> cases hbeeping : t.beeping <;>
    simp [tick, notice, count, hactive, hbeeping]

theorem tick_reports_of_running {b : Beeper} {t : Timers}
    (h : b.active = true → t.sound ≠ 0) :
    (b.tick t).2.2 =
      (if b.active = false ∧ t.sound ≠ 0 then [true] else []) ++
        (if t.sound = 1 then [false] else []) := by
  rw [tick_reports]
  by_cases hzero : t.sound = 0
  · have hactive : b.active = false := Bool.of_not_eq_true fun htrue => h htrue hzero
    have hbeeping : t.beeping = false := t.beeping_eq_false_iff.mpr hzero
    simp [hactive, hbeeping, hzero]
  · have hbeeping : t.beeping = true :=
      Bool.of_not_eq_false fun hfalse => hzero (t.beeping_eq_false_iff.mp hfalse)
    have hlast : ¬ 1 < t.sound ↔ t.sound = 1 := by
      simp only [UInt8.lt_iff_toNat_lt, ← UInt8.toNat_inj, UInt8.reduceToNat] at hzero ⊢
      omega
    simp [hbeeping, hzero, hlast]

theorem Tells.tick {reports : List Bool} {b : Beeper} (h : Tells reports b.active)
    (t : Timers) : Tells (reports ++ (b.tick t).2.2) (b.tick t).1.active := by
  have hquiet : (b.notice t).1.active = false → ¬ 1 < t.sound := by
    intro hactive hsound
    rw [notice_active, Bool.or_eq_false_iff, t.beeping_eq_false_iff] at hactive
    rw [hactive.2] at hsound
    exact absurd hsound (by decide)
  have hcounted := (h.notice t).count hquiet
  rw [List.append_assoc] at hcounted
  exact hcounted

theorem Alternates.count_true {last : Bool} {reports : List Bool}
    (h : Alternates last reports) :
    reports.count true + last.toNat =
      reports.count false + (reports.getLastD last).toNat := by
  induction reports generalizing last with
  | nil => rfl
  | cons report rest ih =>
      obtain ⟨hreport, hrest⟩ := h
      have hcount := ih hrest
      rw [List.getLastD_cons]
      obtain rfl : report = !last := Bool.eq_not.mpr hreport
      cases last <;> simp at hcount ⊢ <;> omega

theorem Tells.count_true {reports : List Bool} {active : Bool} (h : Tells reports active) :
    reports.count true = reports.count false + active.toNat := by
  have hcount := h.alternates.count_true
  rw [h.last] at hcount
  exact hcount

/-! ## Beepers at handles -/

structure Attached where
  bank : Handles Timers
  handle : Nat
  attached : (bank.read? handle).isSome
  beeper : Beeper := {}
  reports : List Bool := []

inductive Turn where
  | tick
  | other (deed : Handles.Deed Timers.Access)
  deriving DecidableEq, Repr

namespace Attached

def timers (s : Attached) : Timers := (s.bank.read? s.handle).get s.attached

theorem read?_handle (s : Attached) : s.bank.read? s.handle = some s.timers := by
  simp [timers]

theorem read?_own {bank : Handles Timers} {handle : Nat} {timers : Timers}
    (h : bank.read? handle = some timers) (next : Timers) :
    (bank.update handle fun _ => next).read? handle = some next := by
  simp [Handles.read?_update, h]

theorem attached_perform (s : Attached) (deed : Handles.Deed Timers.Access) :
    ((s.bank.perform {} Timers.Access.apply deed).read? s.handle).isSome := by
  rcases Handles.read?_perform s.read?_handle deed with h | ⟨act, h⟩ <;>
    exact Option.isSome_of_eq_some h

def serve (s : Attached) (deed : Handles.Deed Timers.Access) : Attached :=
  { s with
    bank := s.bank.perform {} Timers.Access.apply deed
    attached := s.attached_perform deed }

def tick (s : Attached) : Attached × List Bool :=
  let (beeper, timers, reports) := s.beeper.tick s.timers
  ({ s with
      bank := s.bank.update s.handle fun _ => timers
      attached := Option.isSome_of_eq_some (read?_own s.read?_handle timers)
      beeper
      reports := s.reports ++ reports }, reports)

def take (s : Attached) : Turn → Attached
  | .tick => s.tick.1
  | .other deed => s.serve deed

def run (s : Attached) (turns : List Turn) : Attached := turns.foldl take s

def ticks (s : Attached) : Nat → List (List Bool)
  | 0 => []
  | n + 1 => s.tick.2 :: s.tick.1.ticks n

/-- All beeps that were reported have ended. -/
def Silent (s : Attached) : Prop := s.reports.count true = s.reports.count false

theorem timers_tick (s : Attached) : s.tick.1.timers = s.timers.tick.2 := by
  have hread := read?_own s.read?_handle s.timers.tick.2
  exact Option.some.inj ((read?_handle s.tick.1).symm.trans hread)

theorem active_tick_iff (s : Attached) :
    s.tick.1.beeper.active = true ↔ s.tick.1.timers.sound ≠ 0 := by
  have hactive : s.tick.1.beeper.active = s.tick.1.timers.beeping := by
    rw [timers_tick]
    rfl
  rw [hactive, ne_eq, ← Timers.beeping_eq_false_iff, Bool.not_eq_false]

theorem timers_change {s : Attached} {other : Nat}
    (hother : s.bank.cellOf[other]? = s.bank.cellOf[s.handle]?) (access : Timers.Access) :
    (s.serve (.change other access)).timers = access.apply s.timers := by
  have hread : (s.bank.perform {} Timers.Access.apply (.change other access)).read? s.handle =
      some (access.apply s.timers) := by
    simp [Handles.perform, Handles.read?_update, hother, s.read?_handle]
  exact Option.some.inj ((read?_handle (s.serve (.change other access))).symm.trans hread)

theorem ticks_eq {s : Attached} (h : s.beeper.active = true → s.timers.sound ≠ 0) (n : Nat) :
    s.ticks n = (List.range n).map fun k =>
      (if k = 0 ∧ s.beeper.active = false ∧ s.timers.sound ≠ 0 then [true] else []) ++
        (if k + 1 = s.timers.sound.toNat then [false] else []) := by
  induction n generalizing s with
  | zero => rfl
  | succ n ih =>
      have hsound : s.tick.1.timers.sound.toNat = s.timers.sound.toNat - 1 := by
        rw [timers_tick]
        exact Timers.toNat_countDown _
      rw [ticks, ih s.active_tick_iff.mp, List.range_succ_eq_map, List.map_cons, List.map_map]
      congr 1
      · have hlast : s.timers.sound = 1 ↔ 0 + 1 = s.timers.sound.toNat := by
          rw [← UInt8.toNat_inj, eq_comm]
          rfl
        have hfirst : s.tick.2 = _ := tick_reports_of_running h
        simp [hfirst, hlast]
      · -- a beeper that is not active has no sound left to start
        refine List.map_congr_left fun k _ => ?_
        have hnone : ¬ (k = 0 ∧ s.tick.1.beeper.active = false ∧ s.tick.1.timers.sound ≠ 0) := by
          rintro ⟨-, hoff, hrunning⟩
          rw [s.active_tick_iff.mpr hrunning] at hoff
          cases hoff
        have hlater : k + 1 = s.tick.1.timers.sound.toNat ↔
            k + 1 + 1 = s.timers.sound.toNat := by omega
        rw [if_neg hnone]
        simp [hlater]

/-! ## Runs -/

def Truthful (s : Attached) : Prop := Tells s.reports s.beeper.active

theorem Truthful.tick {s : Attached} (h : s.Truthful) : s.tick.1.Truthful :=
  Tells.tick h s.timers

theorem Truthful.run {s : Attached} (h : s.Truthful) (turns : List Turn) :
    (s.run turns).Truthful := by
  induction turns generalizing s with
  | nil => exact h
  | cons turn turns ih =>
      cases turn with
      | tick => exact ih h.tick
      | other deed =>
          have hserved : (s.serve deed).Truthful := h
          exact ih hserved

theorem Truthful.silent_iff {s : Attached} (h : s.Truthful) :
    s.Silent ↔ s.beeper.active = false := by
  rw [Silent, h.count_true]
  cases s.beeper.active <;> simp

/-- Undisturbed ticks lose no beep, report none twice and cut none short, whatever the
holders of the handles do between them. -/
theorem beeps_reported_whole (bank : Handles Timers) (handle : Nat)
    (attached : (bank.read? handle).isSome) (turns : List Turn) :
    let s := run { bank, handle, attached } turns
    (s.tick.2 = [] ∨ s.tick.2 = [true] ∨ s.tick.2 = [false] ∨ s.tick.2 = [true, false]) ∧
      s.tick.1.reports = s.reports ++ s.tick.2 ∧
      s.tick.1.reports.count true =
        s.tick.1.reports.count false + (if s.tick.1.timers.sound ≠ 0 then 1 else 0) ∧
      (s.Silent → s.timers.sound ≠ 0 →
        s.tick.2 = true :: if s.timers.sound = 1 then [false] else []) ∧
      (s.Silent → ∀ (other : Nat) (value : UInt8) (n : Nat),
        s.bank.cellOf[other]? = s.bank.cellOf[s.handle]? → 1 ≤ value →
        (s.serve (.change other (.setSound value))).ticks n =
          (List.range n).map fun k =>
            (if k = 0 then [true] else []) ++
              (if k + 1 = value.toNat then [false] else [])) := by
  intro s
  have hstart : Truthful { bank, handle, attached } := { alternates := trivial, last := rfl }
  have hs : s.Truthful := hstart.run turns
  refine ⟨?_, rfl, ?_, ?_, ?_⟩
  · have hreports : s.tick.2 = _ := tick_reports s.beeper s.timers
    rw [hreports]
    split <;> split <;> simp
  · rw [hs.tick.count_true]
    cases hactive : s.tick.1.beeper.active with
    | true =>
        have hsound := s.active_tick_iff.mp hactive
        simp [hsound]
    | false =>
        have hsound : ¬ s.tick.1.timers.sound ≠ 0 := by simp [← active_tick_iff, hactive]
        simp [hsound]
  · intro hsilent hsound
    have hactive := hs.silent_iff.mp hsilent
    have hreports : s.tick.2 = _ := tick_reports_of_running fun _ => hsound
    rw [hreports, if_pos ⟨hactive, hsound⟩]
    rfl
  · intro hsilent other value n hother hvalue
    have hactive := hs.silent_iff.mp hsilent
    have hsound : (s.serve (.change other (.setSound value))).timers.sound = value := by
      rw [timers_change hother]
      rfl
    have hrunning : value ≠ 0 := by
      rintro rfl
      exact absurd hvalue (by decide)
    rw [ticks_eq (fun _ => by rw [hsound]; exact hrunning), hsound]
    refine List.map_congr_left fun k _ => ?_
    have hstart : (s.serve (.change other (.setSound value))).beeper.active = false := hactive
    simp [hstart, hrunning]

/-- The sound is set through a clone, after a tick without a sound. -/
theorem beep_of_three_ticks :
    let bank : Handles Timers := ⟨[{}], [0]⟩
    let s := run { bank, handle := 0, attached := rfl } [.tick, .other (.clone 0)]
    s.Silent ∧
      (s.serve (.change 1 (.setSound 3))).ticks 4 = [[true], [], [false], []] := by
  intro bank s
  have hsilent : s.Silent := rfl
  have hbeeps := beeps_reported_whole bank 0 rfl [.tick, .other (.clone 0)]
  exact ⟨hsilent, hbeeps.2.2.2.2 hsilent 1 3 4 rfl (by decide)⟩

end Attached

end Beeper

end Chip8VM
