import Chip8VM.Handles

/-!
# Families of handles

Whatever is done through one handle is seen by the handles of its family and by
no others.  A new handle changes nothing for the handles that exist.  A family reads
what the acts of its holders, one after the other, have made of a new cell.
-/

namespace Chip8VM.Handles

variable {α ε : Type}

def update (h : Handles α) (handle : Nat) (f : α → α) : Handles α :=
  match h.read? handle with
  | some value => h.write handle (f value)
  | none => h

/-- What the holders of handles do; `ε` is what can be done to a cell. -/
inductive Deed (ε : Type) where
  | create
  | clone (handle : Nat)
  | change (handle : Nat) (act : ε)
  deriving DecidableEq, Repr

def perform (fresh : α) (apply : α → ε → α) (h : Handles α) : Deed ε → Handles α
  | .create => (h.create fresh).2
  | .clone handle =>
      match h.clone? handle with
      | some (_, cloned) => cloned
      | none => h
  | .change handle act => h.update handle fun value => apply value act

/-! ## What a handle reads -/

theorem read?_of_append {h : Handles α} {handle : Nat} {value : α}
    (hread : h.read? handle = some value) (cells : List α) (cellOf : List Nat) :
    (Handles.mk (h.cells ++ cells) (h.cellOf ++ cellOf)).read? handle = some value := by
  obtain ⟨cell, hcell, hvalue⟩ := Option.bind_eq_some_iff.mp hread
  have hhandle := (List.getElem?_eq_some_iff.mp hcell).1
  have hbound := (List.getElem?_eq_some_iff.mp hvalue).1
  rw [read?, List.getElem?_append_left hhandle, hcell, Option.bind_some,
    List.getElem?_append_left hbound, hvalue]

theorem write_read {h : Handles α} {handle : Nat} {value : α}
    (hread : h.read? handle = some value) : h.write handle value = h := by
  obtain ⟨cell, hcell, hvalue⟩ := Option.bind_eq_some_iff.mp hread
  have hkept : h.cells.set cell value = h.cells := by
    obtain ⟨hbound, rfl⟩ := List.getElem?_eq_some_iff.mp hvalue
    exact List.set_getElem_self hbound
  simp [write, hcell, hkept]

theorem read?_update (h : Handles α) (i j : Nat) (f : α → α) :
    (h.update i f).read? j =
      if h.cellOf[j]? = h.cellOf[i]? then (h.read? j).map f else h.read? j := by
  cases hread : h.read? i with
  | some value =>
      obtain ⟨cell, hcell, hvalue⟩ := Option.bind_eq_some_iff.mp hread
      have hupdate : h.update i f = h.write i (f value) := by simp [update, hread]
      rw [hupdate, read?_write h hcell hvalue, hcell]
      split
      case isTrue hj => simp [read?, hj, hvalue]
      case isFalse => rfl
  | none =>
      have hupdate : h.update i f = h := by simp [update, hread]
      rw [hupdate]
      split
      case isTrue hj =>
          have hsame : h.read? j = h.read? i := by simp [read?, hj]
          simp [hsame, hread]
      case isFalse => rfl

theorem read?_perform {fresh : α} {apply : α → ε → α} {h : Handles α} {handle : Nat}
    {value : α} (hread : h.read? handle = some value) (deed : Deed ε) :
    (h.perform fresh apply deed).read? handle = some value ∨
      ∃ act, (h.perform fresh apply deed).read? handle = some (apply value act) := by
  cases deed with
  | create => exact .inl (read?_of_append hread [fresh] [h.cells.length])
  | clone other =>
      left
      simp only [perform, clone?]
      cases h.cellOf[other]? with
      | none => exact hread
      | some cell => simpa using read?_of_append hread [] [cell]
  | change other act =>
      simp only [perform, read?_update, hread]
      split
      · exact .inr ⟨act, rfl⟩
      · exact .inl rfl

/-! ## Families -/

def Deed.Makes (families made : List Nat) : Deed ε → Prop
  | .create => ∃ family, family ∉ families ∧ made = [family]
  | .clone handle => made = families[handle]?.toList
  | .change _ _ => made = []

def Deed.act? (families : List Nat) (family : Nat) : Deed ε → Option ε
  | .change handle act => if families[handle]? = some family then some act else none
  | .create | .clone _ => none

theorem Deed.act?_eq_some_iff {families : List Nat} {family : Nat} {deed : Deed ε} {act : ε} :
    deed.act? families family = some act ↔
      ∃ handle, deed = .change handle act ∧ families[handle]? = some family := by
  cases deed with
  | create | clone => simp [act?]
  | change handle done =>
      simp only [act?, Option.ite_none_right_eq_some, Option.some.injEq, change.injEq]
      constructor
      · rintro ⟨hfamily, rfl⟩
        exact ⟨handle, ⟨rfl, rfl⟩, hfamily⟩
      · rintro ⟨_, ⟨rfl, rfl⟩, hfamily⟩
        exact ⟨hfamily, rfl⟩

@[simp] theorem cellOf_update (h : Handles α) (handle : Nat) (f : α → α) :
    (h.update handle f).cellOf = h.cellOf := by
  unfold update write
  split
  · split <;> rfl
  · rfl

section

variable (fresh : α) (apply : α → ε → α)

/-- A family reads what its acts have made of a new cell. -/
structure Recorded (h : Handles α) (acts : Nat → List ε) : Prop where
  read : ∀ {handle family : Nat}, h.cellOf[handle]? = some family →
    h.read? handle = some ((acts family).foldl apply fresh)
  unused : ∀ family, family ∉ h.cellOf → acts family = []

variable {fresh apply} {h : Handles α} {acts : Nat → List ε}

theorem recorded_empty : Recorded fresh apply {} fun _ => [] where
  read hfamily := absurd hfamily (by simp)
  unused _ _ := rfl

theorem Recorded.length_not_mem (hacts : Recorded fresh apply h acts) :
    h.cells.length ∉ h.cellOf := by
  intro hmem
  obtain ⟨handle, hhandle⟩ := List.getElem?_of_mem hmem
  have hread := hacts.read hhandle
  simp [read?, hhandle] at hread

theorem Recorded.makes (hacts : Recorded fresh apply h acts) (deed : Deed ε) :
    ∃ made, (h.perform fresh apply deed).cellOf = h.cellOf ++ made ∧
      deed.Makes h.cellOf made := by
  cases deed with
  | create => exact ⟨_, rfl, _, hacts.length_not_mem, rfl⟩
  | clone handle =>
      refine ⟨_, ?_, rfl⟩
      simp only [Handles.perform, clone?]
      cases h.cellOf[handle]? <;> simp
  | change handle act => exact ⟨[], by simp [Handles.perform], rfl⟩

theorem Recorded.join (hacts : Recorded fresh apply h acts) (cells : List α) {family : Nat}
    (hcell : (h.cells ++ cells)[family]? = some ((acts family).foldl apply fresh)) :
    Recorded fresh apply ⟨h.cells ++ cells, h.cellOf ++ [family]⟩ acts where
  read {handle other} hother := by
    rcases Nat.lt_or_ge handle h.cellOf.length with hold | hnew
    · rw [List.getElem?_append_left hold] at hother
      exact read?_of_append (hacts.read hother) cells [family]
    · rw [List.getElem?_append_right hnew, List.getElem?_singleton] at hother
      obtain ⟨hlast, hsame⟩ := Option.ite_none_right_eq_some.mp hother
      obtain rfl := Option.some.inj hsame
      simp [read?, List.getElem?_append_right hnew, hlast, hcell]
  unused other hother := hacts.unused other fun hmem => hother (List.mem_append_left _ hmem)

theorem Recorded.perform (hacts : Recorded fresh apply h acts) (deed : Deed ε) :
    Recorded fresh apply (h.perform fresh apply deed)
      fun family => acts family ++ (deed.act? h.cellOf family).toList := by
  cases deed with
  | create =>
      simp only [Deed.act?, Option.toList_none, List.append_nil]
      refine hacts.join [fresh] ?_
      simp [hacts.unused _ hacts.length_not_mem]
  | clone other =>
      simp only [Deed.act?, Option.toList_none, List.append_nil, Handles.perform, clone?]
      cases hfamily : h.cellOf[other]? with
      | none => exact hacts
      | some family =>
          have hread := hacts.read hfamily
          simp only [read?, hfamily, Option.bind_some] at hread
          simpa using hacts.join [] (by simpa using hread)
  | change other act =>
      constructor
      · intro handle family hfamily
        simp only [Handles.perform, cellOf_update] at hfamily
        simp only [Handles.perform, Deed.act?, read?_update, hfamily, hacts.read hfamily, eq_comm]
        split <;> simp
      · intro family hfamily
        simp only [Handles.perform, cellOf_update] at hfamily
        have hother : h.cellOf[other]? ≠ some family := fun hmem =>
          hfamily (List.mem_of_getElem? hmem)
        simp [Deed.act?, hother, hacts.unused family hfamily]

/-! A step of a system that does one deed at most. -/

theorem Recorded.makes_elim (hacts : Recorded fresh apply h acts) (deed? : Option (Deed ε)) :
    ∃ made, (deed?.elim h (h.perform fresh apply)).cellOf = h.cellOf ++ made ∧
      deed?.elim (made = []) (Deed.Makes h.cellOf made) := by
  cases deed? with
  | none => exact ⟨[], (List.append_nil _).symm, rfl⟩
  | some deed => exact hacts.makes deed

theorem Recorded.perform_elim (hacts : Recorded fresh apply h acts)
    (deed? : Option (Deed ε)) :
    Recorded fresh apply (deed?.elim h (h.perform fresh apply))
      fun family => acts family ++ (deed?.bind (Deed.act? h.cellOf family)).toList := by
  cases deed? with
  | none => simpa using hacts
  | some deed => exact hacts.perform deed

end

end Chip8VM.Handles
