/-!
A clock: a thread that calls a callback again and again, and the protocol that
ends it.

The owner can start, stop and drop a clock. A start replaces the thread that is
running. Owner and thread share a channel with room for one message: to end the
thread the owner posts the message, drops its end of the channel and waits until
the thread has ended. The thread waits for the message for one interval; if none
came it calls the callback and waits again. It does not look at the channel between
the end of the wait and the call.

The steps of owner and threads interleave in any order in which each of them is
possible (`perform`).
-/

namespace Chip8VM.Clock

inductive Phase where
  | waiting
  /-- The wait has found nothing, and the callback is not entered yet. -/
  | expired
  | calling
  | ended
  deriving DecidableEq, Repr

structure Thread where
  phase : Phase := .waiting
  message : Bool := false
  connected : Bool := true
  calls : Nat := 0
  deriving DecidableEq, Repr

inductive Call where
  | start
  | stop
  | drop
  deriving DecidableEq, Repr

inductive Owner where
  | idle
  | entered (call : Call)
  /-- The message was posted to a thread, if there is one. -/
  | posted (call : Call) (thread : Option Nat)
  /-- The owner's end of the channel is gone. -/
  | released (call : Call)
  | joined (call : Call)
  | gone
  deriving DecidableEq, Repr

structure State where
  threads : List Thread := []
  sender : Option Nat := none
  handle : Option Nat := none
  owner : Owner := .idle
  /-- Whether a message was posted to a full channel, and lost. -/
  lost : Bool := false
  deriving DecidableEq, Repr

inductive Move where
  | call (call : Call)
  | post
  | hangUp
  | join
  | finish
  | expire (thread : Nat)
  | enter (thread : Nat)
  | rest (thread : Nat)
  | receive (thread : Nat)
  | disconnect (thread : Nat)
  deriving DecidableEq, Repr

namespace State

def isAlive (s : State) : Bool := s.threads.any fun t => t.phase != .ended

def setThread (s : State) (i : Nat) (t : Thread) : State :=
  { s with threads := s.threads.set i t }

/-! ## The owner -/

/-- Posts the message to the thread at the other end of the channel. The owner's end is
gone from the clock, but it still exists. -/
def post (s : State) (call : Call) : State :=
  match s.sender with
  | none => { s with owner := .posted call none }
  | some i =>
      match s.threads[i]? with
      | none => { s with sender := none, owner := .posted call none }
      | some t =>
          { s.setThread i { t with message := true } with
            sender := none
            owner := .posted call (some i)
            lost := s.lost || t.message }

def hangUp (s : State) (call : Call) (thread : Option Nat) : State :=
  match thread.bind fun i => (s.threads[i]?).map fun t => (i, t) with
  | none => { s with owner := .released call }
  | some (i, t) =>
      { s.setThread i { t with connected := false } with owner := .released call }

def join (s : State) (call : Call) : Option State :=
  match s.handle.bind fun i => s.threads[i]? with
  | none => some { s with handle := none, owner := .joined call }
  | some t =>
      if t.phase = .ended then
        some { s with handle := none, owner := .joined call }
      else
        none

def finish (s : State) : Call → State
  | .start =>
      { s with
        threads := s.threads ++ [{}]
        sender := some s.threads.length
        handle := some s.threads.length
        owner := .idle }
  | .stop => { s with owner := .idle }
  | .drop => { s with owner := .gone }

/-! ## The threads -/

def expire (s : State) (i : Nat) (t : Thread) : Option State :=
  if t.phase = .waiting ∧ t.message = false ∧ t.connected = true then
    some (s.setThread i { t with phase := .expired })
  else
    none

def enter (s : State) (i : Nat) (t : Thread) : Option State :=
  if t.phase = .expired then
    some (s.setThread i { t with phase := .calling, calls := t.calls + 1 })
  else
    none

def rest (s : State) (i : Nat) (t : Thread) : Option State :=
  if t.phase = .calling then some (s.setThread i { t with phase := .waiting }) else none

def receive (s : State) (i : Nat) (t : Thread) : Option State :=
  if t.phase = .waiting ∧ t.message = true then
    some (s.setThread i { t with phase := .ended, message := false })
  else
    none

def disconnect (s : State) (i : Nat) (t : Thread) : Option State :=
  if t.phase = .waiting ∧ t.message = false ∧ t.connected = false then
    some (s.setThread i { t with phase := .ended })
  else
    none

/-! ## Moves -/

def perform (s : State) (move : Move) : Option State :=
  match move, s.owner with
  | .call call, .idle => some { s with owner := .entered call }
  | .post, .entered call => some (s.post call)
  | .hangUp, .posted call thread => some (s.hangUp call thread)
  | .join, .released call => s.join call
  | .finish, .joined call => some (s.finish call)
  | .expire i, _ => (s.threads[i]?).bind (s.expire i)
  | .enter i, _ => (s.threads[i]?).bind (s.enter i)
  | .rest i, _ => (s.threads[i]?).bind (s.rest i)
  | .receive i, _ => (s.threads[i]?).bind (s.receive i)
  | .disconnect i, _ => (s.threads[i]?).bind (s.disconnect i)
  | _, _ => none

/-- Makes the moves that are possible, and passes over the others. -/
def follow (s : State) (moves : List Move) : State :=
  moves.foldl (fun s move => (s.perform move).getD s) s

/-! ## A session

The owner's calls, each with a thread that ends as soon as it is told to, and with a
callback that runs a given number of times in between. -/

def serve (s : State) (call : Call) : State :=
  s.follow [.call call, .post, .hangUp, .receive (s.threads.length - 1), .join, .finish]

structure Report where
  reached : Bool
  alive : Bool
  /-- Whether the callbacks started earlier did not run in the meantime. -/
  olderIdle : Bool
  deriving DecidableEq, Repr

def startAndWait (s : State) (times : Nat) : State × Report :=
  let newest := s.threads.length
  let started := s.serve .start
  let strike : List Move := [.expire newest, .enter newest, .rest newest]
  let waited := (List.replicate times strike).foldl follow started
  (waited, {
    reached := (waited.threads[newest]?).any fun t => times ≤ t.calls
    alive := waited.isAlive
    olderIdle :=
      (waited.threads.take newest).map Thread.calls == s.threads.map Thread.calls })

end State

end Chip8VM.Clock
