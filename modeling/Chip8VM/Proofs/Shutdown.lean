import Chip8VM.Proofs.Stages

/-!
# Shutdown of a clock

What the stages promise to the owner: which call was made last can be told from
the clock, no message is lost, and every call can return.
-/

namespace Chip8VM.Clock.State

variable {s s' : State} {move : Move}

/-! ## The call made last -/

theorem isAlive_eq_false_iff : s.isAlive = false ↔ ∀ t ∈ s.threads, t.phase = .ended := by
  simp [isAlive]

theorem Stage.ended_of_joined (hs : s.Stage) {call : Call} (howner : s.owner = .joined call) :
    ∀ t ∈ s.threads, t.phase = .ended := by
  cases hs with
  | silent hended => exact hended
  | running _ _ _ _ _ _ _ _ _ hrunning => simp [howner] at hrunning
  | stopping _ _ _ _ _ _ _ hstopping => simp [howner] at hstopping

def Recalls (s : State) (last : Option Call) : Prop :=
  match s.owner with
  | .idle => s.isAlive = true ↔ last = some .start
  | .entered call | .posted call _ | .released call | .joined call => last = some call
  | .gone => True

theorem Step.recalls {last : Option Call} (hs : s.Stage) (h : s.Step move s')
    (hlast : s.Recalls last) : s'.Recalls (move.call?.or last) := by
  cases h with
  | call call howner => simp [Recalls, Move.call?]
  | @post call howner =>
      have hcalled : last = some call := by simpa [Recalls, howner] using hlast
      obtain ⟨thread, hposted⟩ := s.owner_post call
      simp [Recalls, hposted, hcalled, Move.call?]
  | @hangUp call thread howner =>
      have hcalled : last = some call := by simpa [Recalls, howner] using hlast
      simp [Recalls, owner_hangUp, hcalled, Move.call?]
  | @join call _ howner hjoin =>
      have hcalled : last = some call := by simpa [Recalls, howner] using hlast
      simp [Recalls, owner_join hjoin, hcalled, Move.call?]
  | @finish call howner =>
      have hcalled : last = some call := by simpa [Recalls, howner] using hlast
      subst hcalled
      cases call with
      | start => simp [Recalls, State.finish, isAlive, Move.call?]
      | stop =>
          have hsilent : s.isAlive = false :=
            isAlive_eq_false_iff.mpr (hs.ended_of_joined howner)
          have hafter : (s.finish .stop).isAlive = false := hsilent
          simp [Recalls, State.finish, Move.call?] at hafter ⊢
          simp [hafter]
      | drop => simp [Recalls, State.finish]
  | @thread _ i u v hmove hu hstep =>
      rw [Move.call?_of_thread hmove, Option.none_or]
      unfold Recalls at hlast ⊢
      cases howner : s.owner with
      | idle =>
          cases hs with
          | silent hended => exact absurd (hended u (List.mem_of_getElem? hu)) hstep.not_ended
          | running older t hthreads hended halive hmessage hconnected =>
              obtain ⟨rfl, rfl, hset⟩ := moved_is_newest hthreads hended hu hstep
              have halive' := (hstep.running hmessage hconnected).1
              simpa [setThread, howner, isAlive, hthreads, halive, halive', hset] using hlast
          | stopping _ _ _ _ _ _ _ hstopping => simp [howner] at hstopping
      | entered | posted | released | joined | gone => simp_all [setThread]

theorem Step.lost (hs : s.Stage) (h : s.Step move s') (hlost : s.lost = false) :
    s'.lost = false := by
  cases h with
  | call | thread => exact hlost
  | @post call =>
      rcases s.post_cases call with hpost | ⟨i, t, hsender, ht, hpost⟩
      · simp [hpost, hlost]
      · obtain ⟨u, hu, -, hmessage⟩ := hs.sender_empty hsender
        cases ht.symm.trans hu
        simp [hpost, hlost, hmessage]
  | @hangUp call thread =>
      rcases s.hangUp_cases call thread with hgone | ⟨i, t, -, hgone⟩ <;>
        simpa [hgone, setThread] using hlost
  | join _ hjoin => simp [(join_eq_some hjoin).1, hlost]
  | @finish call => cases call <;> exact hlost

/-- What holds after every schedule; `last` is the call begun last. -/
structure Sound (s : State) (last : Option Call) : Prop where
  stage : s.Stage
  recalls : s.Recalls last
  lost : s.lost = false

theorem sound_new : Sound {} none where
  stage := .silent (by simp) rfl rfl (by simp)
  recalls := by simp [Recalls, isAlive]
  lost := rfl

theorem Sound.run? {last : Option Call} (hs : s.Sound last) {moves : List Move}
    (hrun : s.run? moves = some s') :
    s'.Sound ((moves.filterMap Move.call?).getLast?.or last) := by
  induction moves generalizing s last with
  | nil =>
      cases hrun
      exact hs
  | cons move moves ih =>
      obtain ⟨next, hmove, hrest⟩ := Option.bind_eq_some_iff.mp hrun
      have hstep := step_of_perform hmove
      have hnext : next.Sound (move.call?.or last) :=
        ⟨hs.stage.step hstep, hstep.recalls hs.stage hs.recalls, hstep.lost hs.stage hs.lost⟩
      have hlater := ih hnext hrest
      cases hcall : move.call? with
      | none => simpa [hcall] using hlater
      | some call =>
          rw [List.filterMap_cons_some hcall, List.getLast?_cons]
          simpa [hcall, Option.or_some] using hlater

/-! ## Returns -/

/-- Some schedule lets the owner's call return. -/
def CanReturn (s : State) : Prop :=
  ∃ moves s', s.run? moves = some s' ∧ (s'.owner = .idle ∨ s'.owner = .gone)

theorem CanReturn.of_perform (hmove : s.perform move = some s') (h : s'.CanReturn) :
    s.CanReturn := by
  obtain ⟨moves, last, hrun, hreturned⟩ := h
  exact ⟨move :: moves, last, by simp [run?, hmove, hrun], hreturned⟩

theorem canReturn_joined {call : Call} (howner : s.owner = .joined call) : s.CanReturn := by
  refine ⟨[.finish], s.finish call, by simp [run?, perform, howner], ?_⟩
  cases call <;> simp [State.finish]

theorem canReturn_of_join {call : Call} (howner : s.owner = .released call)
    (hjoin : s.join call = some s') : s.CanReturn := by
  have hmove : s.perform .join = some s' := by simp [perform, howner, hjoin]
  exact .of_perform hmove (canReturn_joined (owner_join hjoin))

section

variable {older : List Thread} {t : Thread} {call : Call}

theorem canReturn_ended (hthreads : s.threads = older ++ [t])
    (hhandle : s.handle = some older.length) (howner : s.owner = .released call)
    (hended : t.phase = .ended) : s.CanReturn := by
  have hjoin : s.join call = some { s with handle := none, owner := .joined call } := by
    simp [State.join, hhandle, hthreads, hended]
  exact canReturn_of_join howner hjoin

theorem canReturn_waiting (hthreads : s.threads = older ++ [t])
    (hhandle : s.handle = some older.length) (howner : s.owner = .released call)
    (hphase : t.phase = .waiting) (hmessage : t.message = true) : s.CanReturn := by
  have hmove : s.perform (.receive older.length) =
      some (s.setThread older.length { t with phase := .ended, message := false }) := by
    simp [perform, receive, hthreads, hphase, hmessage]
  exact .of_perform hmove (canReturn_ended (threads_setThread hthreads _) hhandle howner rfl)

theorem canReturn_calling (hthreads : s.threads = older ++ [t])
    (hhandle : s.handle = some older.length) (howner : s.owner = .released call)
    (hphase : t.phase = .calling) (hmessage : t.message = true) : s.CanReturn := by
  have hmove : s.perform (.rest older.length) =
      some (s.setThread older.length { t with phase := .waiting }) := by
    simp [perform, rest, hthreads, hphase]
  exact .of_perform hmove
    (canReturn_waiting (threads_setThread hthreads _) hhandle howner rfl hmessage)

theorem canReturn_expired (hthreads : s.threads = older ++ [t])
    (hhandle : s.handle = some older.length) (howner : s.owner = .released call)
    (hphase : t.phase = .expired) (hmessage : t.message = true) : s.CanReturn := by
  have hmove : s.perform (.enter older.length) =
      some (s.setThread older.length { t with phase := .calling, calls := t.calls + 1 }) := by
    simp [perform, enter, hthreads, hphase]
  exact .of_perform hmove
    (canReturn_calling (threads_setThread hthreads _) hhandle howner rfl hmessage)

end

theorem canReturn_released (hs : s.Stage) {call : Call} (howner : s.owner = .released call) :
    s.CanReturn := by
  cases hs with
  | silent _ _ hhandle =>
      have hjoin : s.join call = some { s with handle := none, owner := .joined call } := by
        simp [State.join, hhandle]
      exact canReturn_of_join howner hjoin
  | running _ _ _ _ _ _ _ _ _ hrunning => simp [howner] at hrunning
  | stopping older t hthreads _ htold _ hhandle =>
      cases hphase : t.phase with
      | ended => exact canReturn_ended hthreads hhandle howner hphase
      | waiting =>
          have hmessage : t.message = true := by simpa [Thread.Told, hphase] using htold
          exact canReturn_waiting hthreads hhandle howner hphase hmessage
      | expired =>
          have hmessage : t.message = true := by simpa [Thread.Told, hphase] using htold
          exact canReturn_expired hthreads hhandle howner hphase hmessage
      | calling =>
          have hmessage : t.message = true := by simpa [Thread.Told, hphase] using htold
          exact canReturn_calling hthreads hhandle howner hphase hmessage

theorem canReturn_posted (hs : s.Stage) {call : Call} {thread : Option Nat}
    (howner : s.owner = .posted call thread) : s.CanReturn := by
  have hmove : s.perform .hangUp = some (s.hangUp call thread) := by simp [perform, howner]
  have hnext := hs.step (.hangUp howner)
  exact .of_perform hmove (canReturn_released hnext (owner_hangUp s call thread))

theorem Stage.canReturn (hs : s.Stage) (hidle : s.owner ≠ .idle) (hgone : s.owner ≠ .gone) :
    s.CanReturn := by
  cases howner : s.owner with
  | idle => exact absurd howner hidle
  | gone => exact absurd howner hgone
  | entered call =>
      obtain ⟨thread, hposted⟩ := s.owner_post call
      have hmove : s.perform .post = some (s.post call) := by simp [perform, howner]
      exact .of_perform hmove (canReturn_posted (hs.step (.post howner)) hposted)
  | posted call thread => exact canReturn_posted hs howner
  | released call => exact canReturn_released hs howner
  | joined call => exact canReturn_joined howner

/-! ## The protocol -/

theorem expire_told {i : Nat} {t : Thread} (ht : s.threads[i]? = some t) (htold : t.Told) :
    s.perform (.expire i) = none := by
  rcases htold with hmessage | hended
  · simp [perform, expire, ht, hmessage]
  · simp [perform, expire, ht, hended]

theorem enter_of_ne {i : Nat} {t : Thread} (ht : s.threads[i]? = some t)
    (hphase : t.phase ≠ .expired) : s.perform (.enter i) = none := by
  simp [perform, enter, ht, hphase]

theorem post_delivers {call : Call} {i : Nat} {t : Thread} (howner : s.owner = .entered call)
    (hsender : s.sender = some i) (ht : s.threads[i]? = some t) :
    ∃ s', s.perform .post = some s' ∧ s'.threads[i]? = some { t with message := true } := by
  refine ⟨s.post call, by simp [perform, howner], ?_⟩
  simp only [State.post, hsender, ht]
  rw [getElem?_setThread ht, if_pos rfl]

/-- However the owner's calls and the threads interleave, there is at most one thread, a
call that returns leaves nothing behind in which an older callback could run, a message
is never refused or lost, and an idle owner finds the clock alive exactly after a start.
With a message in the channel no wait comes to its end; a callback is entered only if its
wait was over before the message came, and then once.  No schedule keeps a call from
returning. -/
theorem shutdown_keeps_promises {moves : List Move} {s : State} (hrun : run? {} moves = some s) :
    (∀ (i j : Nat) (t u : Thread), s.threads[i]? = some t → s.threads[j]? = some u →
      t.phase ≠ .ended → u.phase ≠ .ended → i = j) ∧
    (∀ returned, s.perform .finish = some returned →
      ∀ later s', returned.run? later = some s' →
        ∀ (i : Nat) (t : Thread), s.threads[i]? = some t → t.phase = .ended ∧
          ∃ u, s'.threads[i]? = some u ∧ u.phase = .ended ∧ u.calls = t.calls) ∧
    (∀ (i : Nat) (t : Thread), s.threads[i]? = some t → t.message = true →
      ∀ later s', s.run? later = some s' → s'.perform (.expire i) = none ∧
        ∃ u, s'.threads[i]? = some u ∧
          (t.phase ≠ .expired → s'.perform (.enter i) = none ∧ u.calls = t.calls) ∧
          (t.phase = .expired → u.phase = .expired ∧ u.calls = t.calls ∨
            s'.perform (.enter i) = none ∧ u.calls = t.calls + 1)) ∧
    (s.lost = false ∧
      ∀ call i, s.owner = .entered call → s.sender = some i →
        ∃ t posted, s.threads[i]? = some t ∧ t.phase ≠ .ended ∧ t.message = false ∧
          s.perform .post = some posted ∧ posted.threads[i]? = some { t with message := true } ∧
          ∀ later s', posted.run? later = some s' →
            ∃ u, s'.threads[i]? = some u ∧ (u.message = true ∨ u.phase = .ended)) ∧
    (s.owner = .idle →
      (s.isAlive = true ↔ (moves.filterMap Move.call?).getLast? = some .start)) ∧
    (s.owner ≠ .idle → s.owner ≠ .gone → s.CanReturn) := by
  obtain ⟨hstage, hrecalls, hlost⟩ := sound_new.run? hrun
  refine ⟨fun i j t u => hstage.one_alive, ?_, ?_, ⟨hlost, ?_⟩, ?_, hstage.canReturn⟩
  · intro returned hfinish later s' hlater i t ht
    have hstep := step_of_perform hfinish
    have hended : t.phase = .ended := by
      cases hstep with
      | finish howner => exact hstage.ended_of_joined howner t (List.mem_of_getElem? ht)
      | thread hmove => cases hmove
    obtain ⟨v, hv, hfirst⟩ := hstep.later ht
    obtain ⟨u, hu, hrest⟩ := run?_later hlater hv
    have htu := hfirst.trans hrest
    have hcalls := htu.calls (.inr hended) (by simp [hended])
    exact ⟨hended, u, hu, htu.ended hended, hcalls.2⟩
  · intro i t ht hmessage later s' hlater
    obtain ⟨u, hu, htu⟩ := run?_later hlater ht
    have htold : t.Told := .inl hmessage
    refine ⟨expire_told hu (htu.told htold), u, hu, fun hphase => ?_, fun hphase => ?_⟩
    · exact (htu.calls htold hphase).imp_left (enter_of_ne hu)
    · exact (htu.calls_of_expired htold hphase).imp_right fun hcalled =>
        hcalled.imp_left (enter_of_ne hu)
  · intro call i howner hsender
    obtain ⟨t, ht, halive, hmessage⟩ := hstage.sender_empty hsender
    obtain ⟨posted, hpost, hposted⟩ := post_delivers howner hsender ht
    refine ⟨t, posted, ht, halive, hmessage, hpost, hposted, ?_⟩
    intro later s' hlater
    obtain ⟨u, hu, htu⟩ := run?_later hlater hposted
    exact ⟨u, hu, htu.told (.inl rfl)⟩
  · intro hidle
    simpa [Recalls, hidle] using hrecalls

/-- The clock is started again when its wait is over: the callback is entered behind the
message, which waits in the channel until the callback is over. -/
theorem restart_behind_wait :
    let moves : List Move :=
      [.call .start, .post, .hangUp, .join, .finish, .expire 0, .call .start, .post]
    let rest : List Move :=
      [.enter 0, .rest 0, .hangUp, .receive 0, .join, .finish, .expire 1, .enter 1]
    ∃ s s', run? {} moves = some s ∧ s.threads[0]? = some ⟨.expired, true, true, 0⟩ ∧
      s.run? rest = some s' ∧ s'.perform (.expire 0) = none ∧ s'.perform (.enter 0) = none ∧
      s'.threads = [⟨.ended, false, false, 1⟩, ⟨.calling, false, true, 1⟩] := by
  intro moves rest
  have hrun : run? {} moves = some
      { threads := [⟨.expired, true, true, 0⟩], handle := some 0,
        owner := .posted .start (some 0) } := by decide
  have hpromises := (shutdown_keeps_promises hrun).2.2.1
  obtain ⟨hexpire, u, hu, -, hcalled⟩ := hpromises 0 _ (by rfl) rfl rest _ rfl
  obtain rfl : u = ⟨.ended, false, false, 1⟩ := (Option.some.inj hu).symm
  rcases hcalled rfl with ⟨hphase, -⟩ | ⟨henter, -⟩
  · cases hphase
  · exact ⟨_, _, hrun, by decide, by rfl, hexpire, henter, by decide⟩

/-- A message does not keep a callback out whose wait was over before. -/
theorem callback_entered_behind_message :
    let moves : List Move :=
      [.call .start, .post, .hangUp, .join, .finish, .expire 0, .call .stop, .post]
    ∃ s s', run? {} moves = some s ∧ s.threads[0]? = some ⟨.expired, true, true, 0⟩ ∧
      s.perform (.enter 0) = some s' ∧ s'.threads[0]? = some ⟨.calling, true, true, 1⟩ := by
  intro moves
  have hrun : run? {} moves = some
      { threads := [⟨.expired, true, true, 0⟩], handle := some 0,
        owner := .posted .stop (some 0) } := by decide
  exact ⟨_, _, hrun, by decide, rfl, by decide⟩

end Chip8VM.Clock.State
