import Chip8VM.Clock

/-!
# Stages of a clock

At every moment a clock is in one of three stages: no thread is left; one thread
runs and its channel is empty; or one thread has been told to end and the owner
waits for it.  Every schedule of the owner's and the threads' moves keeps to the
stages.  A thread that was told to end does not wait again; it calls once more if its
wait was over before.
-/

namespace Chip8VM.Clock

/-! ## Threads -/

namespace Thread

inductive Step (t : Thread) : Thread → Prop
  | expire (hphase : t.phase = .waiting) (hmessage : t.message = false)
      (hconnected : t.connected = true) : Step t { t with phase := .expired }
  | enter (hphase : t.phase = .expired) :
      Step t { t with phase := .calling, calls := t.calls + 1 }
  | rest (hphase : t.phase = .calling) : Step t { t with phase := .waiting }
  | receive (hphase : t.phase = .waiting) (hmessage : t.message = true) :
      Step t { t with phase := .ended, message := false }
  | disconnect (hphase : t.phase = .waiting) (hmessage : t.message = false)
      (hconnected : t.connected = false) :
      Step t { t with phase := .ended }

/-- The message is in the channel, or it has had its effect. -/
def Told (t : Thread) : Prop := t.message = true ∨ t.phase = .ended

/-- The calls that come before the next wait, without a look at the channel. -/
def owed (t : Thread) : Nat := if t.phase = .expired then 1 else 0

/-- What lies before a thread that was told to end, or has ended. -/
structure Later (t u : Thread) : Prop where
  ended : t.phase = .ended → u.phase = .ended
  told : t.Told → u.Told
  grows : t.calls ≤ u.calls
  owed : t.Told → u.calls + u.owed = t.calls + t.owed

variable {t u w : Thread}

theorem owed_of_ne (h : t.phase ≠ .expired) : t.owed = 0 := if_neg h

theorem owed_of_expired (h : t.phase = .expired) : t.owed = 1 := if_pos h

theorem Later.refl (t : Thread) : t.Later t := ⟨id, id, Nat.le_refl _, fun _ => rfl⟩

theorem Later.trans (h : t.Later u) (h' : u.Later w) : t.Later w where
  ended hended := h'.ended (h.ended hended)
  told htold := h'.told (h.told htold)
  grows := Nat.le_trans h.grows h'.grows
  owed htold := (h'.owed (h.told htold)).trans (h.owed htold)

theorem Later.calls (h : t.Later u) (htold : t.Told) (hphase : t.phase ≠ .expired) :
    u.phase ≠ .expired ∧ u.calls = t.calls := by
  have hsum := h.owed htold
  have hgrows := h.grows
  rw [owed_of_ne hphase] at hsum
  refine ⟨fun hexpired => ?_, by omega⟩
  rw [owed_of_expired hexpired] at hsum
  omega

theorem Later.calls_of_expired (h : t.Later u) (htold : t.Told) (hphase : t.phase = .expired) :
    u.phase = .expired ∧ u.calls = t.calls ∨ u.phase ≠ .expired ∧ u.calls = t.calls + 1 := by
  have hsum := h.owed htold
  rw [owed_of_expired hphase] at hsum
  by_cases hexpired : u.phase = .expired
  · rw [owed_of_expired hexpired] at hsum
    exact .inl ⟨hexpired, by omega⟩
  · rw [owed_of_ne hexpired] at hsum
    exact .inr ⟨hexpired, hsum⟩

theorem Step.not_ended (h : t.Step u) : t.phase ≠ .ended := by
  intro hended
  cases h <;> simp_all

theorem Step.later (h : t.Step u) : t.Later u := by
  have halive := h.not_ended
  cases h with
  | expire _ hmessage => constructor <;> simp [Told, hmessage, halive]
  | enter hphase => constructor <;> simp [Told, Thread.owed, hphase]
  | rest hphase => constructor <;> simp [Told, Thread.owed, hphase]
  | receive hphase => constructor <;> simp [Told, Thread.owed, hphase]
  | disconnect hphase => constructor <;> simp [Told, Thread.owed, hphase]

theorem Step.running (h : t.Step u) (hmessage : t.message = false)
    (hconnected : t.connected = true) :
    u.phase ≠ .ended ∧ u.message = false ∧ u.connected = true := by
  cases h with
  | expire | enter | rest => simp [hmessage, hconnected]
  | receive _ hposted => simp [hmessage] at hposted
  | disconnect _ _ hgone => simp [hconnected] at hgone

end Thread

/-! ## Moves -/

def Move.call? : Move → Option Call
  | .call begun => some begun
  | _ => none

def Move.thread? : Move → Option Nat
  | .expire i | .enter i | .rest i | .receive i | .disconnect i => some i
  | _ => none

theorem Move.call?_of_thread {move : Move} {i : Nat} (h : move.thread? = some i) :
    move.call? = none := by
  cases move with
  | call | post | hangUp | join | finish => cases h
  | expire | enter | rest | receive | disconnect => rfl

namespace State

variable {s s' : State} {move : Move}

/-! ## What the owner does -/

theorem post_cases (s : State) (call : Call) :
    s.post call = { s with sender := none, owner := .posted call none } ∨
      ∃ i t, s.sender = some i ∧ s.threads[i]? = some t ∧
        s.post call =
          { s.setThread i { t with message := true } with
            sender := none
            owner := .posted call (some i)
            lost := s.lost || t.message } := by
  unfold post
  split
  case h_1 hsender =>
      left
      rw [← hsender]
  case h_2 i hsender =>
      split
      case h_1 => exact .inl rfl
      case h_2 t ht => exact .inr ⟨i, t, hsender, ht, rfl⟩

theorem hangUp_cases (s : State) (call : Call) (thread : Option Nat) :
    s.hangUp call thread = { s with owner := .released call } ∨
      ∃ i t, s.threads[i]? = some t ∧
        s.hangUp call thread =
          { s.setThread i { t with connected := false } with owner := .released call } := by
  unfold hangUp
  split
  case h_1 => exact .inl rfl
  case h_2 i t hthread =>
      obtain ⟨j, -, hj⟩ := Option.bind_eq_some_iff.mp hthread
      obtain ⟨u, hu, hpair⟩ := Option.map_eq_some_iff.mp hj
      cases hpair
      exact .inr ⟨i, t, hu, rfl⟩

theorem join_eq_some {call : Call} (h : s.join call = some s') :
    s' = { s with handle := none, owner := .joined call } ∧
      ∀ i t, s.handle = some i → s.threads[i]? = some t → t.phase = .ended := by
  unfold join at h
  split at h
  case h_1 hnone =>
      cases h
      refine ⟨rfl, fun i t hhandle ht => ?_⟩
      simp [hhandle, ht] at hnone
  case h_2 u hsome =>
      split at h <;> cases h
      case isTrue hended =>
          refine ⟨rfl, fun i t hhandle ht => ?_⟩
          have hsame : t = u := by simpa [hhandle, ht] using hsome
          rwa [hsame]

theorem owner_post (s : State) (call : Call) :
    ∃ thread, (s.post call).owner = .posted call thread := by
  rcases s.post_cases call with hpost | ⟨i, t, -, -, hpost⟩ <;> simp [hpost]

theorem owner_hangUp (s : State) (call : Call) (thread : Option Nat) :
    (s.hangUp call thread).owner = .released call := by
  rcases s.hangUp_cases call thread with hgone | ⟨i, t, -, hgone⟩ <;> simp [hgone]

theorem owner_join {call : Call} (h : s.join call = some s') : s'.owner = .joined call := by
  simp [(join_eq_some h).1]

/-! ## Schedules -/

/-- A schedule, all of whose moves are possible. -/
def run? (s : State) : List Move → Option State
  | [] => some s
  | move :: moves => (s.perform move).bind fun s => s.run? moves

inductive Step (s : State) : Move → State → Prop
  | call (call : Call) (howner : s.owner = .idle) :
      Step s (.call call) { s with owner := .entered call }
  | post {call : Call} (howner : s.owner = .entered call) : Step s .post (s.post call)
  | hangUp {call : Call} {thread : Option Nat} (howner : s.owner = .posted call thread) :
      Step s .hangUp (s.hangUp call thread)
  | join {call : Call} {s' : State} (howner : s.owner = .released call)
      (hjoin : s.join call = some s') : Step s .join s'
  | finish {call : Call} (howner : s.owner = .joined call) : Step s .finish (s.finish call)
  | thread {move : Move} {i : Nat} {t u : Thread} (hmove : move.thread? = some i)
      (ht : s.threads[i]? = some t) (hstep : t.Step u) : Step s move (s.setThread i u)

theorem step_of_perform (h : s.perform move = some s') : s.Step move s' := by
  unfold perform at h
  split at h
  case h_1 call howner => cases h; exact .call call howner
  case h_2 howner => cases h; exact .post howner
  case h_3 howner => cases h; exact .hangUp howner
  case h_4 howner => exact .join howner h
  case h_5 howner => cases h; exact .finish howner
  case h_6 i _ =>
      obtain ⟨t, ht, hexpire⟩ := Option.bind_eq_some_iff.mp h
      unfold expire at hexpire
      split at hexpire <;> cases hexpire
      case isTrue hgate => exact .thread rfl ht (.expire hgate.1 hgate.2.1 hgate.2.2)
  case h_7 i _ =>
      obtain ⟨t, ht, henter⟩ := Option.bind_eq_some_iff.mp h
      unfold enter at henter
      split at henter <;> cases henter
      case isTrue hgate => exact .thread rfl ht (.enter hgate)
  case h_8 i _ =>
      obtain ⟨t, ht, hrest⟩ := Option.bind_eq_some_iff.mp h
      unfold rest at hrest
      split at hrest <;> cases hrest
      case isTrue hgate => exact .thread rfl ht (.rest hgate)
  case h_9 i _ =>
      obtain ⟨t, ht, hreceive⟩ := Option.bind_eq_some_iff.mp h
      unfold receive at hreceive
      split at hreceive <;> cases hreceive
      case isTrue hgate => exact .thread rfl ht (.receive hgate.1 hgate.2)
  case h_10 i _ =>
      obtain ⟨t, ht, hdisconnect⟩ := Option.bind_eq_some_iff.mp h
      unfold disconnect at hdisconnect
      split at hdisconnect <;> cases hdisconnect
      case isTrue hgate => exact .thread rfl ht (.disconnect hgate.1 hgate.2.1 hgate.2.2)
  case h_11 => cases h

/-! ## What threads go through -/

theorem getElem?_setThread {i j : Nat} {t u : Thread} (ht : s.threads[i]? = some t) :
    (s.setThread i u).threads[j]? = if i = j then some u else s.threads[j]? := by
  have hlt : i < s.threads.length := (List.getElem?_eq_some_iff.mp ht).1
  simp [setThread, List.getElem?_set, hlt]

theorem setThread_later {i j : Nat} {t u v : Thread} (hi : s.threads[i]? = some t)
    (hlater : t.Later u) (hj : s.threads[j]? = some v) :
    ∃ w, (s.setThread i u).threads[j]? = some w ∧ v.Later w := by
  rw [getElem?_setThread hi]
  by_cases hsame : i = j
  · subst hsame
    rw [hi] at hj
    cases hj
    exact ⟨u, by simp, hlater⟩
  · exact ⟨v, by simp [hsame, hj], .refl v⟩

theorem Step.later (h : s.Step move s') {i : Nat} {t : Thread} (ht : s.threads[i]? = some t) :
    ∃ u, s'.threads[i]? = some u ∧ t.Later u := by
  cases h with
  | call => exact ⟨t, ht, .refl t⟩
  | @post call =>
      rcases s.post_cases call with hpost | ⟨j, v, -, hv, hpost⟩
      · exact ⟨t, by simpa [hpost] using ht, .refl t⟩
      · rw [hpost]
        exact setThread_later hv ⟨id, fun _ => .inl rfl, Nat.le_refl _, fun _ => rfl⟩ ht
  | @hangUp call thread =>
      rcases s.hangUp_cases call thread with hgone | ⟨j, v, hv, hgone⟩
      · exact ⟨t, by simpa [hgone] using ht, .refl t⟩
      · rw [hgone]
        exact setThread_later hv ⟨id, id, Nat.le_refl _, fun _ => rfl⟩ ht
  | join _ hjoin => exact ⟨t, by simpa [(join_eq_some hjoin).1] using ht, .refl t⟩
  | @finish call =>
      cases call with
      | start =>
          have hlt : i < s.threads.length := (List.getElem?_eq_some_iff.mp ht).1
          exact ⟨t, by simp [State.finish, List.getElem?_append_left hlt, ht], .refl t⟩
      | stop | drop => exact ⟨t, ht, .refl t⟩
  | thread _ hmoved hstep => exact setThread_later hmoved hstep.later ht

theorem run?_later {moves : List Move} (h : s.run? moves = some s') {i : Nat} {t : Thread}
    (ht : s.threads[i]? = some t) : ∃ u, s'.threads[i]? = some u ∧ t.Later u := by
  induction moves generalizing s t with
  | nil =>
      cases h
      exact ⟨t, ht, .refl t⟩
  | cons move moves ih =>
      obtain ⟨next, hmove, hrest⟩ := Option.bind_eq_some_iff.mp h
      obtain ⟨u, hu, hfirst⟩ := (step_of_perform hmove).later ht
      obtain ⟨w, hw, hlater⟩ := ih hrest hu
      exact ⟨w, hw, hfirst.trans hlater⟩

/-! ## Stages -/

/-- Where the threads, the channel and the owner stand. -/
inductive Stage (s : State) : Prop
  | silent (hended : ∀ t ∈ s.threads, t.phase = .ended) (hsender : s.sender = none)
      (hhandle : s.handle = none) (howner : ∀ call i, s.owner ≠ .posted call (some i))
  | running (older : List Thread) (t : Thread) (hthreads : s.threads = older ++ [t])
      (hended : ∀ o ∈ older, o.phase = .ended) (halive : t.phase ≠ .ended)
      (hmessage : t.message = false) (hconnected : t.connected = true)
      (hsender : s.sender = some older.length) (hhandle : s.handle = some older.length)
      (howner : s.owner = .idle ∨ ∃ call, s.owner = .entered call)
  | stopping (older : List Thread) (t : Thread) (hthreads : s.threads = older ++ [t])
      (hended : ∀ o ∈ older, o.phase = .ended) (htold : t.Told)
      (hsender : s.sender = none) (hhandle : s.handle = some older.length)
      (howner : ∃ call, s.owner = .posted call (some older.length) ∨ s.owner = .released call)

theorem threads_setThread {older : List Thread} {t : Thread}
    (hthreads : s.threads = older ++ [t]) (u : Thread) :
    (s.setThread older.length u).threads = older ++ [u] := by
  simp [setThread, hthreads]

theorem moved_is_newest {older : List Thread} {t u v : Thread} {i : Nat}
    (hthreads : s.threads = older ++ [t]) (hended : ∀ o ∈ older, o.phase = .ended)
    (hi : s.threads[i]? = some u) (hstep : u.Step v) :
    u = t ∧ i = older.length ∧ (s.setThread i v).threads = older ++ [v] := by
  rw [hthreads] at hi
  rcases Nat.lt_trichotomy i older.length with hlt | rfl | hgt
  · rw [List.getElem?_append_left hlt] at hi
    exact absurd (hended u (List.mem_of_getElem? hi)) hstep.not_ended
  · simp at hi
    exact ⟨hi.symm, rfl, threads_setThread hthreads v⟩
  · have hbound : i < (older ++ [t]).length := (List.getElem?_eq_some_iff.mp hi).1
    simp at hbound
    omega

theorem Stage.step (hs : s.Stage) (h : s.Step move s') : s'.Stage := by
  -- a move of the owner is possible in one or two of the stages, the others contradict `howner`
  cases h with
  | call call howner =>
      cases hs with
      | silent hended hsender hhandle => exact .silent hended hsender hhandle (by simp)
      | running older t hthreads hended halive hmessage hconnected hsender hhandle =>
          exact .running older t hthreads hended halive hmessage hconnected hsender hhandle
            (.inr ⟨call, rfl⟩)
      | stopping _ _ _ _ _ _ _ hstopping => simp [howner] at hstopping
  | @post call howner =>
      cases hs with
      | silent hended hsender hhandle =>
          simp only [State.post, hsender]
          exact .silent hended rfl hhandle (by simp)
      | running older t hthreads hended halive hmessage hconnected hsender hhandle =>
          have ht : s.threads[older.length]? = some t := by simp [hthreads]
          simp only [State.post, hsender, ht]
          exact .stopping older { t with message := true } (by simp [setThread, hthreads])
            hended (.inl rfl) rfl hhandle ⟨call, .inl rfl⟩
      | stopping _ _ _ _ _ _ _ hstopping => simp [howner] at hstopping
  | @hangUp call thread howner =>
      cases hs with
      | silent hended hsender hhandle hposted =>
          cases thread with
          | none => exact .silent hended hsender hhandle (by simp [State.hangUp])
          | some i => exact absurd howner (hposted call i)
      | running _ _ _ _ _ _ _ _ _ hrunning => simp [howner] at hrunning
      | stopping older t hthreads hended htold hsender hhandle hstopping =>
          have hthread : thread = some older.length := by simpa [howner] using hstopping
          have ht : s.threads[older.length]? = some t := by simp [hthreads]
          simp only [State.hangUp, hthread, Option.bind_some, ht, Option.map_some]
          exact .stopping older { t with connected := false } (by simp [setThread, hthreads])
            hended htold hsender hhandle ⟨call, .inr rfl⟩
  | @join call _ howner hjoin =>
      cases hs with
      | silent hended hsender =>
          obtain ⟨rfl, -⟩ := join_eq_some hjoin
          exact .silent hended hsender rfl (by simp)
      | running _ _ _ _ _ _ _ _ _ hrunning => simp [howner] at hrunning
      | stopping older t hthreads hended htold hsender hhandle =>
          obtain ⟨rfl, hwaited⟩ := join_eq_some hjoin
          have hend : t.phase = .ended := hwaited older.length t hhandle (by simp [hthreads])
          refine .silent ?_ hsender rfl (by simp)
          intro o ho
          rw [hthreads] at ho
          rcases List.mem_append.mp ho with hold | hnew
          · exact hended o hold
          · rwa [List.mem_singleton.mp hnew]
  | @finish call howner =>
      cases hs with
      | silent hended hsender hhandle =>
          cases call with
          | start => exact .running s.threads {} rfl hended (by simp) rfl rfl rfl rfl (.inl rfl)
          | stop | drop => exact .silent hended hsender hhandle (by simp [State.finish])
      | running _ _ _ _ _ _ _ _ _ hrunning => simp [howner] at hrunning
      | stopping _ _ _ _ _ _ _ hstopping => simp [howner] at hstopping
  | @thread _ i u v _ hu hstep =>
      cases hs with
      | silent hended => exact absurd (hended u (List.mem_of_getElem? hu)) hstep.not_ended
      | running older t hthreads hended halive hmessage hconnected hsender hhandle howner =>
          obtain ⟨rfl, rfl, hset⟩ := moved_is_newest hthreads hended hu hstep
          obtain ⟨halive', hmessage', hconnected'⟩ := hstep.running hmessage hconnected
          exact .running older v hset hended halive' hmessage' hconnected' hsender hhandle howner
      | stopping older t hthreads hended htold hsender hhandle howner =>
          obtain ⟨rfl, rfl, hset⟩ := moved_is_newest hthreads hended hu hstep
          exact .stopping older v hset hended (hstep.later.told htold) hsender hhandle howner

theorem Stage.sender_empty (hs : s.Stage) {i : Nat} (hsender : s.sender = some i) :
    ∃ t, s.threads[i]? = some t ∧ t.phase ≠ .ended ∧ t.message = false := by
  cases hs with
  | silent _ hnone => simp [hnone] at hsender
  | running older t hthreads _ halive hmessage _ hrunning =>
      have hi : older.length = i := by simpa [hrunning] using hsender
      exact ⟨t, by simp [hthreads, ← hi], halive, hmessage⟩
  | stopping _ _ _ _ _ hnone => simp [hnone] at hsender

theorem Stage.one_alive (hs : s.Stage) {i j : Nat} {t u : Thread}
    (hi : s.threads[i]? = some t) (hj : s.threads[j]? = some u)
    (ht : t.phase ≠ .ended) (hu : u.phase ≠ .ended) : i = j := by
  have newest : ∀ older v, s.threads = older ++ [v] → (∀ o ∈ older, o.phase = .ended) →
      ∀ k w, s.threads[k]? = some w → w.phase ≠ .ended → k = older.length := by
    intro older v hthreads hended k w hk hw
    rw [hthreads] at hk
    have hbound : k < (older ++ [v]).length := (List.getElem?_eq_some_iff.mp hk).1
    rcases Nat.lt_or_ge k older.length with hlt | hge
    · rw [List.getElem?_append_left hlt] at hk
      exact absurd (hended w (List.mem_of_getElem? hk)) hw
    · simp at hbound
      omega
  cases hs with
  | silent hended => exact absurd (hended t (List.mem_of_getElem? hi)) ht
  | running older v hthreads hended | stopping older v hthreads hended =>
      rw [newest older v hthreads hended i t hi ht, newest older v hthreads hended j u hj hu]

end State

end Chip8VM.Clock
