import Chip8VM.Beeper

/-!
# Reports of a beeper that shares its timers

A tick of the beeper takes the timers twice, and others may take them in between.
A schedule is a list of moves: the beeper's next access, or an access by another
party.  The reports follow the sound in exactly those schedules that have no silent
start: no count that finds the sound timer above one after the same tick has
found it at zero.
-/

namespace Chip8VM

inductive Timers.Access where
  | setDelay (value : UInt8)
  | setSound (value : UInt8)
  | reset
  | tick
  deriving DecidableEq, Repr

def Timers.Access.apply (t : Timers) : Timers.Access → Timers
  | .setDelay value => t.setDelay value
  | .setSound value => t.setSound value
  | .reset => t.reset
  | .tick => t.tick.2

theorem Timers.tick_fst (t : Timers) : t.tick.1 = decide (1 < t.sound) := by
  have hdown : 0 < countDown t.sound ↔ 1 < t.sound := by
    rw [UInt8.lt_iff_toNat_lt, UInt8.lt_iff_toNat_lt, toNat_countDown]
    simp only [UInt8.reduceToNat]
    omega
  exact decide_eq_decide.mpr hdown

namespace Beeper

/-- No report repeats the one before it; `last` stands before the first. -/
def Alternates (last : Bool) : List Bool → Prop
  | [] => True
  | report :: rest => report ≠ last ∧ Alternates report rest

instance decideAlternates :
    (last : Bool) → (reports : List Bool) → Decidable (Alternates last reports)
  | _, [] => isTrue trivial
  | last, report :: rest =>
      have := decideAlternates report rest
      inferInstanceAs (Decidable (report ≠ last ∧ Alternates report rest))

theorem alternates_append_singleton (last report : Bool) (reports : List Bool) :
    Alternates last (reports ++ [report]) ↔
      Alternates last reports ∧ report ≠ reports.getLastD last := by
  induction reports generalizing last with
  | nil => simp [Alternates]
  | cons first rest ih =>
      rw [List.cons_append, Alternates, Alternates, ih, List.getLastD_cons, and_assoc]

structure Tells (reports : List Bool) (active : Bool) : Prop where
  alternates : Alternates false reports
  last : reports.getLastD false = active

theorem Tells.report {reports : List Bool} {active : Bool} (h : Tells reports active) :
    Tells (reports ++ [!active]) (!active) := by
  constructor
  · rw [alternates_append_singleton, h.last]
    exact ⟨h.alternates, by simp⟩
  · simp

theorem Tells.notice {reports : List Bool} {b : Beeper} (h : Tells reports b.active)
    (t : Timers) : Tells (reports ++ (b.notice t).2) (b.notice t).1.active := by
  unfold Beeper.notice
  split
  case isTrue hstart =>
      have hsilent : b.active = false := by
        rw [Bool.and_eq_true, Bool.not_eq_true'] at hstart
        exact hstart.1
      rw [hsilent] at h
      exact h.report
  case isFalse =>
      rw [List.append_nil]
      exact h

theorem Tells.count {reports : List Bool} {b : Beeper} (h : Tells reports b.active)
    {t : Timers} (hnotice : b.active = false → ¬ 1 < t.sound) :
    Tells (reports ++ (b.count t).2.2) (b.count t).1.active := by
  have hrunning : (b.count t).1.active = decide (1 < t.sound) := t.tick_fst
  have hreports : (b.count t).2.2 =
      if b.active && !decide (1 < t.sound) then [false] else [] := by
    rw [← t.tick_fst]
    rfl
  rw [hrunning, hreports]
  cases hactive : b.active with
  | false =>
      rw [hactive] at h
      simpa [hnotice hactive] using h
  | true =>
      rw [hactive] at h
      by_cases hsound : 1 < t.sound
      · simpa [hsound] using h
      · simpa [hsound] using h.report

/-! ## Schedules -/

structure Shared where
  timers : Timers
  beeper : Beeper := {}
  inside : Bool := false
  reports : List Bool := []
  deriving DecidableEq, Repr

inductive Move where
  | beeper
  | other (access : Timers.Access)
  deriving DecidableEq, Repr

namespace Shared

def advance (s : Shared) : Move → Shared
  | .other access => { s with timers := access.apply s.timers }
  | .beeper =>
      if s.inside then
        let (beeper, timers, stopped) := s.beeper.count s.timers
        ⟨timers, beeper, false, s.reports ++ stopped⟩
      else
        let (beeper, started) := s.beeper.notice s.timers
        ⟨s.timers, beeper, true, s.reports ++ started⟩

def run (s : Shared) (moves : List Move) : Shared := moves.foldl advance s

/-- The reports alternate from `true` on, and a sound that the last tick has left
running was reported last. -/
def Orderly (s : Shared) : Prop :=
  Alternates false s.reports ∧
    (s.inside = false → s.beeper.active = true → s.reports.getLast? = some true)

/-- The tick has found no sound, and counts one down that goes on. -/
def SilentStart (s : Shared) : Move → Prop
  | .beeper => s.inside = true ∧ s.beeper.active = false ∧ 1 < s.timers.sound
  | .other _ => False

def Truthful (s : Shared) : Prop := Tells s.reports s.beeper.active

theorem Truthful.orderly {s : Shared} (h : s.Truthful) : s.Orderly := by
  refine ⟨h.alternates, ?_⟩
  intro _ hactive
  have hlast := h.last
  rw [hactive, List.getLastD_eq_getLast?] at hlast
  cases hheard : s.reports.getLast? with
  | none => simp [hheard] at hlast
  | some report =>
      rw [hheard, Option.getD_some] at hlast
      rw [hlast]

theorem Truthful.advance {s : Shared} (h : s.Truthful) {move : Move}
    (hmove : ¬ s.SilentStart move) : (s.advance move).Truthful := by
  cases move with
  | other access => exact h
  | beeper =>
      cases hinside : s.inside with
      | false =>
          rw [Truthful, Shared.advance, hinside]
          exact Tells.notice h s.timers
      | true =>
          rw [Truthful, Shared.advance, hinside]
          exact Tells.count h fun hactive hsound => hmove ⟨hinside, hactive, hsound⟩

theorem Truthful.not_orderly {s : Shared} (h : s.Truthful) {move : Move}
    (hmove : s.SilentStart move) : ¬ (s.advance move).Orderly := by
  cases move with
  | other access => exact hmove.elim
  | beeper =>
      obtain ⟨hinside, hactive, hsound⟩ := hmove
      rintro ⟨-, hannounced⟩
      have hcount : s.beeper.count s.timers = (⟨true⟩, s.timers.tick.2, []) := by
        simp [Beeper.count, hactive, s.timers.tick_fst, hsound]
      have hnext : s.advance .beeper = ⟨s.timers.tick.2, ⟨true⟩, false, s.reports⟩ := by
        simp [Shared.advance, hinside, hcount]
      rw [hnext] at hannounced
      have hlast := h.last
      rw [hactive, List.getLastD_eq_getLast?, hannounced rfl rfl] at hlast
      cases hlast

theorem run_orderly_iff {s : Shared} (hs : s.Truthful) (moves : List Move) :
    (∀ before, before <+: moves → (s.run before).Orderly) ↔
      ∀ before move, before ++ [move] <+: moves → ¬ (s.run before).SilentStart move := by
  induction moves generalizing s with
  | nil =>
      constructor
      · intro _ before move hbefore
        simp at hbefore
      · intro _ before hbefore
        rw [List.prefix_nil.mp hbefore]
        exact hs.orderly
  | cons first rest ih =>
      -- a silent start breaks both sides; any other move leaves a truthful state
      by_cases hfirst : s.SilentStart first
      · constructor
        · intro horderly
          exact absurd (horderly [first] (by simp)) (hs.not_orderly hfirst)
        · intro hstart
          exact absurd hfirst (hstart [] first (by simp))
      · have hnext := ih (hs.advance hfirst)
        constructor
        · intro horderly before move hbefore
          cases before with
          | nil =>
              obtain ⟨rfl, -⟩ := List.cons_prefix_cons.mp hbefore
              exact hfirst
          | cons move' before =>
              obtain ⟨rfl, hrest⟩ := List.cons_prefix_cons.mp hbefore
              refine hnext.mp ?_ before move hrest
              intro before' hbefore'
              exact horderly (move' :: before') (List.cons_prefix_cons.mpr ⟨rfl, hbefore'⟩)
        · intro hstart before hbefore
          cases before with
          | nil => exact hs.orderly
          | cons move' before =>
              obtain ⟨rfl, hrest⟩ := List.cons_prefix_cons.mp hbefore
              refine hnext.mpr ?_ before hrest
              intro before' move hbefore'
              exact hstart (move' :: before') move
                (List.cons_prefix_cons.mpr ⟨rfl, hbefore'⟩)

theorem truthful_start (timers : Timers) : Truthful { timers } :=
  { alternates := trivial, last := rfl }

/-- The reports are orderly at every moment of exactly the schedules without a
silent start. -/
theorem reports_orderly_iff (timers : Timers) (moves : List Move) :
    (∀ before, before <+: moves → (run { timers } before).Orderly) ↔
      ∀ before move, before ++ [move] <+: moves →
        ¬ (run { timers } before).SilentStart move :=
  run_orderly_iff (truthful_start timers) moves

/-- The tick finds no sound, somebody sets the timer, the count leaves it running. -/
theorem end_reported_without_start :
    let moves : List Move :=
      [.beeper, .other (.setSound 2), .beeper, .beeper, .beeper]
    let started := run { timers := {} } (moves.take 3)
    let ended := run { timers := {} } moves
    (started.inside = false ∧ started.beeper.active = true ∧ started.reports = []) ∧
      (ended.reports = [false] ∧ ¬ Alternates false ended.reports) ∧
      ¬ ∀ (timers : Timers) (moves : List Move), (run { timers } moves).Orderly := by
  intro moves started ended
  refine ⟨by decide, by decide, ?_⟩
  intro horderly
  have hended : Alternates false ended.reports := (horderly {} moves).1
  revert hended
  decide

end Shared

end Beeper

end Chip8VM
