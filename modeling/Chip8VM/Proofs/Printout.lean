import Chip8VM.Proofs.Bounds
import Chip8VM.Proofs.TableText

/-!
# What a printed machine tells

The text of a machine is read from its end.  Behind the program name every part
either has a fixed length or says by its last characters how long it is, so the
parts come off one by one, and what is left in front is the name, whatever it
contains.  The printed stack is filled up with zeros; as no run saves the return
address zero, the filling can be told from the addresses.
-/

namespace Chip8VM

namespace Dump

theorem byte_lt (byte : UInt8) : byte.toNat < 65536 := Nat.lt_trans byte.toNat_lt (by decide)

/-! ## Taking a part off the end -/

section

variable {heading : String} {before before' body body' : List Char}

theorem append_part (before body : List Char) :
    before ++ part heading body =
      before ++ '\t' :: (heading.toList ++ " :\n".toList) ++ body ++ ['\n'] := by
  simp [part]

theorem append_part_inj (hlength : body.length = body'.length)
    (h : before ++ part heading body = before' ++ part heading body') :
    before = before' ∧ body = body' := by
  simp only [append_part] at h
  obtain ⟨hbody, -⟩ := List.append_inj' h rfl
  obtain ⟨hbefore, hsame⟩ := List.append_inj' hbody hlength
  exact ⟨List.append_cancel_right hbefore, hsame⟩

theorem append_word_inj {n n' : Nat} (hn : n < 65536) (hn' : n' < 65536)
    (h : before ++ part heading (indent ++ Hex.word n) =
      before' ++ part heading (indent ++ Hex.word n')) :
    before = before' ∧ n = n' := by
  obtain ⟨hbefore, hbody⟩ := append_part_inj
    (by simp [Hex.length_word hn, Hex.length_word hn']) h
  exact ⟨hbefore, Hex.word_injective (List.append_cancel_left hbody)⟩

theorem append_numbers_inj {entries entries' : List Nat}
    (hlength : entries.length = entries'.length) (hrange : entries.length < 65536)
    (hentries : ∀ entry ∈ entries, entry < 65536)
    (hentries' : ∀ entry ∈ entries', entry < 65536)
    (h : before ++ part heading (numbers entries) = before' ++ part heading (numbers entries')) :
    before = before' ∧ entries = entries' := by
  obtain ⟨hsize, hinj⟩ := numbers_inj hlength hrange hentries hentries'
  obtain ⟨hbefore, hbody⟩ := append_part_inj hsize h
  exact ⟨hbefore, hinj hbody⟩

theorem append_memory_part_inj {m m' : Memory}
    (h : before ++ part heading (memory m.bytes) = before' ++ part heading (memory m'.bytes)) :
    before = before' ∧ m = m' := by
  have hlength : ∀ m : Memory, m.bytes.length = memorySize := fun m => m.cells.length_toList
  simp only [append_part] at h
  obtain ⟨hbefore, hbytes⟩ := append_memory_inj (by rw [hlength, hlength])
    (by rw [hlength]; decide) (by rw [hlength]; decide) h
  exact ⟨List.append_cancel_right hbefore, Memory.ext_bytes hbytes⟩

end

/-! ## The keyboard -/

theorem append_none_ne_append_word (before before' : List Char) (n : Nat) :
    before ++ "none".toList ≠ before' ++ Hex.word n := by
  intro h
  obtain ⟨front, hfront⟩ := Hex.word_eq_append n
  have hnone : "none".toList = ['n', 'o', 'n'] ++ ['e'] := by decide
  rw [hfront, hnone, ← List.append_assoc, ← List.append_assoc] at h
  have hdigit : ∀ d < 16, 'e' ≠ Hex.digit d := by decide
  exact hdigit (n % 16) (Nat.mod_lt n (by decide))
    (List.singleton_inj.mp (List.append_inj' h rfl).2)

theorem append_key_inj {heading : String} {before before' : List Char} {k k' : Option UInt8}
    (h : before ++ part heading (indent ++ key k) = before' ++ part heading (indent ++ key k')) :
    before = before' ∧ k = k' := by
  have hdiffer : ∀ {before before' : List Char} {pressed : UInt8},
      before ++ part heading (indent ++ key none) ≠
        before' ++ part heading (indent ++ key (some pressed)) := by
    intro before before' pressed h
    simp only [append_part, ← List.append_assoc] at h
    exact append_none_ne_append_word _ _ _ (List.append_inj' h rfl).1
  cases k with
  | none =>
      cases k' with
      | none => exact ⟨(append_part_inj rfl h).1, rfl⟩
      | some pressed' => exact absurd h hdiffer
  | some pressed =>
      cases k' with
      | none => exact absurd h.symm hdiffer
      | some pressed' =>
          obtain ⟨hbefore, hkey⟩ := append_word_inj (byte_lt pressed) (byte_lt pressed') h
          exact ⟨hbefore, congrArg some (UInt8.toNat.inj hkey)⟩

/-! ## The stack -/

theorem length_stackEntries (s : CallStack) : (stackEntries s).length = stackLimit := by
  have hlength := s.length_le
  simp only [stackEntries, List.length_append, List.length_map, List.length_reverse,
    List.length_replicate, stackLimit] at hlength ⊢
  omega

theorem stackEntries_lt (s : CallStack) : ∀ entry ∈ stackEntries s, entry < 65536 := by
  intro entry hentry
  rcases List.mem_append.mp hentry with haddress | hfilling
  · obtain ⟨address, -, rfl⟩ := List.mem_map.mp haddress
    exact address.toNat_lt
  · rw [List.eq_of_mem_replicate hfilling]
    decide

theorem filter_stackEntries {s : CallStack} (h : ∀ address ∈ s.addresses, IsReturnAddress address) :
    (stackEntries s).filter (· ≠ 0) = s.addresses.reverse.map UInt16.toNat := by
  have hsaved : ∀ entry ∈ s.addresses.reverse.map UInt16.toNat, entry ≠ 0 := by
    intro entry hentry
    obtain ⟨address, haddress, rfl⟩ := List.mem_map.mp hentry
    have := (h address (List.mem_reverse.mp haddress)).1
    omega
  rw [stackEntries, List.filter_append, List.filter_replicate]
  simpa using hsaved

theorem stack_eq_of_stackEntries_eq {s s' : CallStack}
    (h : ∀ address ∈ s.addresses, IsReturnAddress address)
    (h' : ∀ address ∈ s'.addresses, IsReturnAddress address)
    (hentries : stackEntries s = stackEntries s') : s = s' := by
  have hfiltered := filter_stackEntries h
  rw [hentries, filter_stackEntries h'] at hfiltered
  have hreversed := (List.map_inj_right fun _ _ => UInt16.toNat.inj).mp hfiltered
  exact (CallStack.ext_addresses (List.reverse_inj.mp hreversed)).symm

/-! ## Registers and timers -/

theorem toNat_lt_of_mem_registers (v : Vector UInt8 registerCount) :
    ∀ entry ∈ v.toList.map UInt8.toNat, entry < 65536 := by
  intro entry hentry
  obtain ⟨value, -, rfl⟩ := List.mem_map.mp hentry
  exact byte_lt value

theorem length_timers (t : Timers) : (timers t).length = 25 := by
  unfold timers
  rw [List.length_append, List.length_append, List.length_append,
    Hex.length_word (byte_lt t.delay), Hex.length_word (byte_lt t.sound)]
  simp

theorem append_timers_inj {heading : String} {before before' : List Char} {t t' : Timers}
    (h : before ++ part heading (indent ++ timers t) =
      before' ++ part heading (indent ++ timers t')) :
    before = before' ∧ t = t' := by
  obtain ⟨hbefore, hbody⟩ := append_part_inj
    (by rw [List.length_append, List.length_append, length_timers, length_timers]) h
  refine ⟨hbefore, ?_⟩
  obtain ⟨delay, sound⟩ := t
  obtain ⟨delay', sound'⟩ := t'
  obtain ⟨hdelay, hsound⟩ := List.append_inj' (List.append_cancel_left hbody)
    (by rw [Hex.length_word (byte_lt sound), Hex.length_word (byte_lt sound')])
  have hdelays := Hex.word_injective (List.append_cancel_left (List.append_cancel_right hdelay))
  rw [Timers.mk.injEq]
  exact ⟨UInt8.toNat.inj hdelays, UInt8.toNat.inj (Hex.word_injective hsound)⟩

end Dump

namespace Machine

/-! ## The whole text -/

/-- The machines are the same to whoever sees neither the screen nor the random bytes. -/
structure SameShown (m m' : Machine) : Prop where
  name : m.name = m'.name
  word : m.word = m'.word
  pc : m.pc = m'.pc
  index : m.index = m'.index
  memory : m.memory = m'.memory
  key : m.keys.get = m'.keys.get
  stack : m.stack = m'.stack
  v : m.v = m'.v
  timers : m.timers = m'.timers

theorem SameShown.of_text_eq {m m' : Machine}
    (hreturns : ∀ address ∈ m.stack.addresses, IsReturnAddress address)
    (hreturns' : ∀ address ∈ m'.stack.addresses, IsReturnAddress address)
    (h : Dump.text m = Dump.text m') : SameShown m m' := by
  have hv := Dump.toNat_lt_of_mem_registers
  obtain ⟨htext, htimers⟩ := Dump.append_timers_inj (List.append_cancel_right h)
  obtain ⟨htext, hregisters⟩ := Dump.append_numbers_inj (by simp) (by simp [registerCount])
    (hv m.v) (hv m'.v) htext
  obtain ⟨htext, hstack⟩ := Dump.append_numbers_inj (by simp [Dump.length_stackEntries])
    (by simp [Dump.length_stackEntries, stackLimit]) (Dump.stackEntries_lt m.stack)
    (Dump.stackEntries_lt m'.stack) htext
  obtain ⟨htext, hkey⟩ := Dump.append_key_inj htext
  obtain ⟨htext, hmemory⟩ := Dump.append_memory_part_inj htext
  obtain ⟨htext, hindex⟩ := Dump.append_word_inj m.index.toNat_lt m'.index.toNat_lt htext
  obtain ⟨htext, hpc⟩ := Dump.append_word_inj m.pc.toNat_lt m'.pc.toNat_lt htext
  obtain ⟨htext, hword⟩ := Dump.append_word_inj m.word.toNat_lt m'.word.toNat_lt htext
  have hname : m.name.toList = m'.name.toList := by
    simpa [Dump.part] using htext
  exact {
    name := String.toList_inj.mp hname
    word := UInt16.toNat.inj hword
    pc := UInt16.toNat.inj hpc
    index := UInt16.toNat.inj hindex
    memory := hmemory
    key := hkey
    stack := Dump.stack_eq_of_stackEntries_eq hreturns hreturns' hstack
    v := Vector.toList_inj.mp ((List.map_inj_right fun _ _ => UInt8.toNat.inj).mp hregisters)
    timers := htimers }

theorem SameShown.text_eq {m m' : Machine} (h : SameShown m m') : Dump.text m = Dump.text m' := by
  unfold Dump.text
  rw [h.name, h.word, h.pc, h.index, h.memory, h.key, h.stack, h.v, h.timers]

/-- Two machines, each after any run, are printed alike exactly when they agree in all that
the text names. -/
theorem dump_eq_iff (random random' : RandomStream) (ops ops' : List Operation) :
    let m := (fresh random).after ops
    let m' := (fresh random').after ops'
    m.dump = m'.dump ↔
      m.name = m'.name ∧ m.word = m'.word ∧ m.pc = m'.pc ∧ m.index = m'.index ∧
        m.memory.cells = m'.memory.cells ∧ m.keys.get = m'.keys.get ∧
        m.stack.addresses = m'.stack.addresses ∧ m.v = m'.v ∧
        m.timers.delay = m'.timers.delay ∧ m.timers.sound = m'.timers.sound := by
  intro m m'
  rw [dump, dump, String.ofList_inj]
  constructor
  · intro htext
    have h := SameShown.of_text_eq (bounded_after random ops).returns
      (bounded_after random' ops').returns htext
    exact ⟨h.name, h.word, h.pc, h.index, congrArg Memory.cells h.memory, h.key,
      congrArg CallStack.addresses h.stack, h.v, congrArg Timers.delay h.timers,
      congrArg Timers.sound h.timers⟩
  · rintro ⟨hname, hword, hpc, hindex, hcells, hkey, hstack, hv, hdelay, hsound⟩
    have hmemory : m.memory = m'.memory := Memory.ext_bytes (congrArg Vector.toList hcells)
    have htimers : m.timers = m'.timers := (Timers.mk.injEq _ _ _ _).mpr ⟨hdelay, hsound⟩
    exact SameShown.text_eq ⟨hname, hword, hpc, hindex, hmemory, hkey,
      CallStack.ext_addresses hstack, hv, htimers⟩

end Machine

end Chip8VM
