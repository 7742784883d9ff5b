import Mathlib.Data.List.Induction
import Chip8VM.KeyLatch
import Chip8VM.Proofs.Families

/-!
# Key latches with several holders

A latch holds what was set last through any handle of its family, and handles of other
families do not see it.  A number that is no key is refused and leaves the old key in
place, so that the byte that stands for no key is never taken for one.
-/

namespace Chip8VM.KeyLatch

/-! ## One latch -/

def accepts (key : Option UInt8) : Bool := key.all fun k => k.toNat ≤ 15

theorem accepts_iff {key : Option UInt8} :
    accepts key = true ↔ ∀ k, key = some k → k.toNat ≤ 15 := by
  cases key <;> simp [accepts]

theorem accepts_eq_false_iff {key : Option UInt8} :
    accepts key = false ↔ ∃ k, key = some k ∧ 15 < k.toNat := by
  cases key <;> simp [accepts]

theorem set_eq (latch : KeyLatch) (key : Option UInt8) :
    latch.set key =
      if accepts key then .ok ⟨key.getD noKey⟩ else .error ⟨key.getD noKey⟩ := by
  cases key with
  | none => rfl
  | some k =>
      have hkey : k.toNat ≥ keyCount ↔ ¬ k.toNat ≤ 15 := by simp [keyCount, Nat.lt_iff_add_one_le]
      simp only [set, hkey, ite_not, accepts, Option.all_some, decide_eq_true_eq, Option.getD_some]

def attempt (latch : KeyLatch) (key : Option UInt8) : KeyLatch :=
  match latch.set key with
  | .ok latch => latch
  | .error _ => latch

theorem attempt_eq (latch : KeyLatch) (key : Option UInt8) :
    latch.attempt key = if accepts key then ⟨key.getD noKey⟩ else latch := by
  rw [attempt, set_eq]
  cases accepts key <;> rfl

/-- What was set last, not counting what was refused. -/
def lastSet (keys : List (Option UInt8)) : Option UInt8 := (keys.filter accepts).getLastD none

theorem lastSet_append_singleton (keys : List (Option UInt8)) (key : Option UInt8) :
    lastSet (keys ++ [key]) = if accepts key then key else lastSet keys := by
  cases haccepts : accepts key <;> simp [lastSet, haccepts]

theorem accepts_lastSet (keys : List (Option UInt8)) : accepts (lastSet keys) = true := by
  induction keys using List.reverseRecOn with
  | nil => rfl
  | append_singleton keys key ih =>
      rw [lastSet_append_singleton]
      split
      case isTrue haccepts => exact haccepts
      case isFalse => exact ih

theorem foldl_attempt (keys : List (Option UInt8)) :
    keys.foldl attempt {} = ⟨(lastSet keys).getD noKey⟩ := by
  induction keys using List.reverseRecOn with
  | nil => rfl
  | append_singleton keys key ih =>
      rw [List.foldl_append, List.foldl_cons, List.foldl_nil, attempt_eq, ih,
        lastSet_append_singleton]
      split <;> rfl

theorem get_of_accepts {key : Option UInt8} (h : accepts key = true) :
    get ⟨key.getD noKey⟩ = key := by
  have hset := set_eq {} key
  rw [if_pos h] at hset
  exact get_of_set hset

/-! ## Holders of handles -/

inductive Request where
  | create
  | clone (handle : Nat)
  | set (handle : Nat) (key : Option UInt8)
  | get (handle : Nat)
  | isPressed (handle : Nat) (key : UInt8)
  deriving DecidableEq, Repr

inductive Reply where
  | handle (number : Nat)
  | done
  | refused (cause : KeyError)
  | key (key : Option UInt8)
  | pressed (answer : Bool)
  deriving DecidableEq, Repr

def serve (h : Handles KeyLatch) : Request → Handles KeyLatch × Option Reply
  | .create =>
      let (number, h) := h.create {}
      (h, some (.handle number))
  | .clone handle =>
      match h.clone? handle with
      | some (number, h) => (h, some (.handle number))
      | none => (h, none)
  | .set handle key =>
      match h.read? handle with
      | none => (h, none)
      | some latch =>
          match latch.set key with
          | .ok latch => (h.write handle latch, some .done)
          | .error cause => (h, some (.refused cause))
  | .get handle => (h, (h.read? handle).map fun latch => .key latch.get)
  | .isPressed handle key => (h, (h.read? handle).map fun latch => .pressed (latch.isPressed key))

def after (h : Handles KeyLatch) (requests : List Request) : Handles KeyLatch :=
  requests.foldl (fun h r => (serve h r).1) h

def Request.deed? : Request → Option (Handles.Deed (Option UInt8))
  | .create => some .create
  | .clone handle => some (.clone handle)
  | .set handle key => some (.change handle key)
  | .get _ | .isPressed _ _ => none

def sets? (h : Handles KeyLatch) (family : Nat) (r : Request) : Option (Option UInt8) :=
  r.deed?.bind (Handles.Deed.act? h.cellOf family)

def history (h : Handles KeyLatch) : List Request → Nat → List (Option UInt8)
  | [], _ => []
  | r :: later, family => (sets? h family r).toList ++ history (serve h r).1 later family

theorem serve_fst (h : Handles KeyLatch) (r : Request) :
    (serve h r).1 = r.deed?.elim h (h.perform {} attempt) := by
  cases r with
  | create | get | isPressed => rfl
  | clone handle =>
      simp only [serve, Request.deed?, Option.elim_some, Handles.perform]
      cases h.clone? handle <;> rfl
  | set handle key =>
      simp only [serve, Request.deed?, Option.elim_some, Handles.perform, Handles.update]
      cases hread : h.read? handle with
      | none => rfl
      | some latch =>
          simp only [attempt]
          cases latch.set key with
          | ok latch' => rfl
          | error cause => exact (Handles.write_read hread).symm

abbrev Tracked (h : Handles KeyLatch) (sets : Nat → List (Option UInt8)) : Prop :=
  Handles.Recorded {} attempt h sets

section

variable {h : Handles KeyLatch} {sets : Nat → List (Option UInt8)}

theorem Tracked.serve (htracked : Tracked h sets) (r : Request) :
    Tracked (serve h r).1 fun family => sets family ++ (sets? h family r).toList := by
  rw [serve_fst]
  exact htracked.perform_elim r.deed?

theorem Tracked.after (htracked : Tracked h sets) (requests : List Request) :
    Tracked (after h requests) fun family => sets family ++ history h requests family := by
  induction requests generalizing h sets with
  | nil => simpa [KeyLatch.after, history] using htracked
  | cons r requests ih =>
      simpa [KeyLatch.after, history, List.append_assoc] using ih (htracked.serve r)

theorem Tracked.makes (htracked : Tracked h sets) (r : Request) :
    ∃ made, (KeyLatch.serve h r).1.cellOf = h.cellOf ++ made ∧
      r.deed?.elim (made = []) (Handles.Deed.Makes h.cellOf made) := by
  rw [serve_fst]
  exact htracked.makes_elim r.deed?

theorem Tracked.read (htracked : Tracked h sets) {handle family : Nat}
    (hfamily : h.cellOf[handle]? = some family) :
    h.read? handle = some ⟨(lastSet (sets family)).getD noKey⟩ := by
  rw [Handles.Recorded.read htracked hfamily, foldl_attempt]

theorem Tracked.serve_get (htracked : Tracked h sets) {handle family : Nat}
    (hfamily : h.cellOf[handle]? = some family) :
    KeyLatch.serve h (.get handle) = (h, some (.key (lastSet (sets family)))) := by
  simp only [KeyLatch.serve, htracked.read hfamily, Option.map_some,
    get_of_accepts (accepts_lastSet _)]

theorem Tracked.serve_isPressed (htracked : Tracked h sets) {handle family : Nat}
    (hfamily : h.cellOf[handle]? = some family) (key : UInt8) :
    KeyLatch.serve h (.isPressed handle key) =
      (h, some (.pressed (decide (lastSet (sets family) = some key)))) := by
  simp only [KeyLatch.serve, htracked.read hfamily, Option.map_some, isPressed,
    get_of_accepts (accepts_lastSet _), beq_eq_decide]

theorem Tracked.serve_set (htracked : Tracked h sets) {handle family : Nat}
    (hfamily : h.cellOf[handle]? = some family) (key : Option UInt8) :
    KeyLatch.serve h (.set handle key) =
      if accepts key then (h.write handle ⟨key.getD noKey⟩, some .done)
      else (h, some (.refused ⟨key.getD noKey⟩)) := by
  simp only [KeyLatch.serve, htracked.read hfamily, set_eq]
  cases accepts key <;> rfl

theorem Tracked.refused_iff (htracked : Tracked h sets) {handle family : Nat}
    (hfamily : h.cellOf[handle]? = some family) (key : Option UInt8) (cause : KeyError) :
    (KeyLatch.serve h (.set handle key)).2 = some (.refused cause) ↔
      ∃ k, key = some k ∧ 15 < k.toNat ∧ cause = ⟨k⟩ := by
  rw [htracked.serve_set hfamily]
  cases haccepts : accepts key with
  | true =>
      constructor
      · intro h
        cases h
      · rintro ⟨k, hkey, hlarge, -⟩
        rw [accepts_eq_false_iff.mpr ⟨k, hkey, hlarge⟩] at haccepts
        cases haccepts
  | false =>
      obtain ⟨k, rfl, hlarge⟩ := accepts_eq_false_iff.mp haccepts
      constructor
      · intro h
        cases h
        exact ⟨k, rfl, hlarge, rfl⟩
      · rintro ⟨_, hsame, -, rfl⟩
        cases hsame
        rfl

theorem Tracked.get_after_set (htracked : Tracked h sets) {handle family other family' : Nat}
    (hfamily : h.cellOf[handle]? = some family) (hother : h.cellOf[other]? = some family')
    {key : Option UInt8} (haccepts : accepts key = true) :
    (KeyLatch.serve (KeyLatch.serve h (.set handle key)).1 (.get other)).2 =
      some (.key (if family' = family then key else lastSet (sets family'))) := by
  have hkept : (KeyLatch.serve h (.set handle key)).1.cellOf[other]? = some family' := by
    rw [serve_fst]
    simpa [Request.deed?, Handles.perform] using hother
  rw [(htracked.serve (.set handle key)).serve_get hkept]
  by_cases hsame : family' = family
  · subst hsame
    have hsets : sets? h family' (.set handle key) = some key := by
      simp [sets?, Request.deed?, Handles.Deed.act?, hfamily]
    simp [hsets, lastSet_append_singleton, haccepts]
  · have hsets : sets? h family' (.set handle key) = none := by
      simp [sets?, Request.deed?, Handles.Deed.act?, hfamily, Ne.symm hsame]
    simp [hsets, hsame]

end

/-- After any requests the latch of a family holds what was set last through its handles.
The byte in it is a key or 255, which is never pressed.  A number above 15 is refused and
changes no handle; a key that is set shows at the handles of the family and at no others. -/
theorem latch_holds_last_set (requests : List Request) :
    let h := after {} requests
    let past := history {} requests
    (∀ r, ∃ made, (serve h r).1.cellOf = h.cellOf ++ made ∧
      r.deed?.elim (made = []) (Handles.Deed.Makes h.cellOf made)) ∧
    ∀ handle family, h.cellOf[handle]? = some family →
      let held := lastSet (past family)
      h.read? handle = some ⟨held.getD 255⟩ ∧
      (∀ k, held = some k → k.toNat ≤ 15) ∧
      serve h (.get handle) = (h, some (.key held)) ∧
      (∀ k, serve h (.isPressed handle k) = (h, some (.pressed (decide (held = some k))))) ∧
      (∀ k, 15 < k.toNat → serve h (.isPressed handle k) = (h, some (.pressed false))) ∧
      ∀ key,
        (∀ cause, (serve h (.set handle key)).2 = some (.refused cause) ↔
          ∃ k, key = some k ∧ 15 < k.toNat ∧ cause = ⟨k⟩) ∧
        (∀ k, key = some k → 15 < k.toNat → (serve h (.set handle key)).1 = h) ∧
        ((∀ k, key = some k → k.toNat ≤ 15) → (serve h (.set handle key)).2 = some .done ∧
          ∀ other family', h.cellOf[other]? = some family' →
            (serve (serve h (.set handle key)).1 (.get other)).2 =
              some (.key (if family' = family then key else lastSet (past family')))) := by
  intro h past
  have hempty : Tracked {} fun _ => [] := Handles.recorded_empty
  have htracked : Tracked h past := by simpa using hempty.after requests
  refine ⟨htracked.makes, fun handle family hfamily => ?_⟩
  intro held
  have hheld : accepts held = true := accepts_lastSet (past family)
  refine ⟨htracked.read hfamily, fun k hk => ?_, htracked.serve_get hfamily,
    htracked.serve_isPressed hfamily, fun k hk => ?_, fun key =>
      ⟨htracked.refused_iff hfamily key, fun k hkey hk => ?_, fun hkey => ?_⟩⟩
  · exact accepts_iff.mp hheld k hk
  · have hreleased : held ≠ some k := fun hpressed =>
      Nat.not_le.mpr hk (accepts_iff.mp hheld k hpressed)
    rw [htracked.serve_isPressed hfamily, decide_eq_false hreleased]
  · rw [htracked.serve_set hfamily, accepts_eq_false_iff.mpr ⟨k, hkey, hk⟩]
    rfl
  · have haccepts : accepts key = true := accepts_iff.mpr hkey
    refine ⟨?_, fun other family' hother => htracked.get_after_set hfamily hother haccepts⟩
    rw [htracked.serve_set hfamily, if_pos haccepts]

/-- A clone sets key 7; the first handle does not get 16 or 255 into the latch, and the handle
of another latch keeps its own key. -/
theorem key_kept_by_refused_set :
    let requests : List Request :=
      [.create, .clone 0, .create, .set 1 (some 7), .set 2 (some 15), .set 0 (some 16)]
    let h := after {} requests
    history {} requests 0 = [some 7, some 16] ∧ h.cellOf = [0, 0, 1] ∧
      serve h (.get 0) = (h, some (.key (some 7))) ∧
      serve h (.isPressed 1 255) = (h, some (.pressed false)) ∧
      (serve h (.set 0 (some 255))).1 = h ∧
      (serve (serve h (.set 1 none)).1 (.get 2)).2 = some (.key (some 15)) := by
  intro requests h
  have hhistory : history {} requests 0 = [some 7, some 16] := by decide
  have hcells : h.cellOf = [0, 0, 1] := by decide
  obtain ⟨-, hlatch⟩ := latch_holds_last_set requests
  obtain ⟨-, -, hget, -, -, hset⟩ := hlatch 0 0 (by decide)
  obtain ⟨-, -, -, -, hpressed, hclone⟩ := hlatch 1 0 (by decide)
  have hrefused := (hset (some 255)).2.1 255 rfl (by decide)
  have hother := ((hclone none).2.2 (by simp)).2 2 1 (by decide)
  exact ⟨hhistory, hcells, hget, hpressed 255 (by decide), hrefused, hother⟩

end Chip8VM.KeyLatch
