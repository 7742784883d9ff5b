import Chip8VM.Proofs.Failure

/-!
# Registers saved and restored

`FX55` writes `V0` to `VX` into the cells from `I` on and moves `I` past them, and `FX65`
reads them from there in the same way.  So registers that are saved block after block are
restored block after block, once `I` is back where the first block begins.
-/

namespace Chip8VM

/-! ## Blocks of registers -/

/-- The registers when `V0` to `VX` are about to be saved or restored. -/
structure Block where
  v : Vector UInt8 registerCount
  x : Register
  deriving DecidableEq, Repr

namespace Block

def size (b : Block) : Nat := b.x.val + 1

def saved (b : Block) : List UInt8 := b.v.toList.take b.size

def extent : List Block → Nat
  | [] => 0
  | b :: blocks => b.size + extent blocks

def restored (dump load : Block) : Vector UInt8 registerCount :=
  Vector.ofFn fun r : Register =>
    if r.val ≤ dump.x.val then dump.v.get r else load.v.get r

theorem length_saved (b : Block) : b.saved.length = b.size := Memory.length_front b.v b.x.isLt

theorem length_flatMap_saved (blocks : List Block) :
    (blocks.flatMap saved).length = extent blocks := by
  induction blocks with
  | nil => rfl
  | cons b blocks ih =>
      rw [List.flatMap_cons, List.length_append, length_saved, ih]
      rfl

theorem getElem?_saved (b : Block) (r : Register) :
    b.saved[r.val]? = if r.val ≤ b.x.val then some (b.v.get r) else none := by
  have hget : b.v.toList[r.val]? = some (b.v.get r) := by
    rw [Vector.getElem?_toList]
    exact Vector.getElem?_eq_getElem r.isLt
  simp only [saved, size, List.getElem?_take, Nat.lt_succ_iff, hget]

end Block

namespace Machine

variable {m : Machine}

/-! ## One block -/

theorem toNat_indexPast {x : Register} (h : m.index.toNat + (x.val + 1) ≤ memorySize) :
    (m.indexPast x).toNat = m.index.toNat + (x.val + 1) := by
  have hx : (UInt16.ofNat (x.val + 1)).toNat = x.val + 1 :=
    UInt16.toNat_ofNat_of_lt' (Nat.lt_of_le_of_lt x.isLt (by decide))
  rw [indexPast, Word.toNat_add_of_lt, hx]
  exact Nat.lt_of_le_of_lt (hx.symm ▸ h) (by decide)

theorem execute_storeRegisters {x : Register} (h : m.index.toNat + (x.val + 1) ≤ memorySize) :
    m.execute (.misc .storeRegisters x) =
      ({ m with
          memory := ⟨Memory.place m.memory.cells m.index.toNat (m.registersUpTo x)⟩
          index := m.indexPast x }.move .next, .ok .quiet) := by
  have hwrite := m.memory.write_of_le
    (Nat.le_trans (Nat.le_of_eq (congrArg _ (m.registersUpTo_length x))) h)
  have hperform : m.perform (.misc .storeRegisters x) = done { m with
      memory := ⟨Memory.place m.memory.cells m.index.toNat (m.registersUpTo x)⟩
      index := m.indexPast x } := by
    simp only [perform, misc, storeRegisters, hwrite]
  exact execute_of_ok hperform

theorem execute_storeRegisters_of_lt {x : Register}
    (h : memorySize < m.index.toNat + (x.val + 1)) :
    m.execute (.misc .storeRegisters x) =
      (m, .error (.memory ⟨m.index.toNat, x.val + 1⟩)) :=
  execute_eq_error_iff.mpr ⟨rfl, blockFault?_eq_some_iff.mpr ⟨h, rfl⟩⟩

theorem execute_loadRegisters {x : Register} {saved : List UInt8}
    (h : m.memory.read m.index.toNat (x.val + 1) = .ok saved) :
    m.execute (.misc .loadRegisters x) =
      ({ m with
          v := Vector.ofFn fun r : Register => saved[r.val]?.getD (m.v.get r)
          index := m.indexPast x }.move .next, .ok .quiet) := by
  have hperform : m.perform (.misc .loadRegisters x) = done { m with
      v := Vector.ofFn fun r : Register => saved[r.val]?.getD (m.v.get r)
      index := m.indexPast x } := by
    simp only [perform, misc, loadRegisters, h]
    rfl
  exact execute_of_ok hperform

def holding (m : Machine) (v : Vector UInt8 registerCount) : Machine := { m with v }

theorem saved_of_execute {b : Block} {done : Machine} {signal : Signal}
    (h : (m.holding b.v).execute (.misc .storeRegisters b.x) = (done, .ok signal)) :
    m.index.toNat + b.size ≤ memorySize ∧ done.v = b.v ∧
      done.memory = ⟨Memory.place m.memory.cells m.index.toNat b.saved⟩ ∧
      done.index.toNat = m.index.toNat + b.size := by
  have hroom : (m.holding b.v).index.toNat + b.size ≤ memorySize := by
    refine Nat.le_of_not_lt fun hlt => ?_
    rw [execute_storeRegisters_of_lt hlt] at h
    cases h
  rw [execute_storeRegisters hroom] at h
  obtain ⟨rfl, -⟩ := Prod.mk.inj h
  exact ⟨hroom, rfl, rfl, toNat_indexPast hroom⟩

theorem restored_of_read {dump load : Block} (hx : load.x = dump.x)
    (h : m.memory.read m.index.toNat dump.size = .ok dump.saved) :
    ∃ done, (m.holding load.v).execute (.misc .loadRegisters load.x) = (done, .ok .quiet) ∧
      done.v = dump.restored load ∧ done.memory = m.memory ∧
      done.index.toNat = m.index.toNat + dump.size := by
  have hroom := (Memory.read_eq_ok h).1
  have hend : ((m.holding load.v).indexPast dump.x).toNat = m.index.toNat + dump.size :=
    toNat_indexPast hroom
  have hload := execute_loadRegisters (m := m.holding load.v) h
  rw [hx]
  refine ⟨_, hload, ?registers, ?memory, hend⟩
  case registers =>
    refine congrArg Vector.ofFn (funext fun r => ?_)
    rw [Block.getElem?_saved]
    split
    case isTrue => rfl
    case isFalse => rfl
  case memory => simp only [move, holding]

/-! ## Block after block -/

/-- Carries out the operation once for every block, each time with the registers that the
block has.  Answers the registers after each of them too, or the first fault. -/
def transfer (op : MiscOp) (m : Machine) :
    List Block → Except Fault (Machine × List (Vector UInt8 registerCount))
  | [] => .ok (m, [])
  | b :: blocks =>
      match (m.holding b.v).execute (.misc op b.x) with
      | (_, .error fault) => .error fault
      | (done, .ok _) =>
          match transfer op done blocks with
          | .error fault => .error fault
          | .ok (last, after) => .ok (last, done.v :: after)

theorem transfer_cons {op : MiscOp} {b : Block} {blocks : List Block} {done last : Machine}
    {signal : Signal} {after : List (Vector UInt8 registerCount)}
    (hfirst : (m.holding b.v).execute (.misc op b.x) = (done, .ok signal))
    (hrest : done.transfer op blocks = .ok (last, after)) :
    m.transfer op (b :: blocks) = .ok (last, done.v :: after) := by
  simp only [transfer, hfirst, hrest]

theorem transfer_cons_eq_ok {op : MiscOp} {b : Block} {blocks : List Block} {last : Machine}
    {after : List (Vector UInt8 registerCount)}
    (h : m.transfer op (b :: blocks) = .ok (last, after)) :
    ∃ done signal later, (m.holding b.v).execute (.misc op b.x) = (done, .ok signal) ∧
      done.transfer op blocks = .ok (last, later) ∧ after = done.v :: later := by
  rw [transfer] at h
  split at h
  case h_1 => cases h
  case h_2 done signal hfirst =>
    split at h
    case h_1 => cases h
    case h_2 last' later hrest =>
      obtain ⟨rfl, rfl⟩ := Prod.mk.inj (Except.ok.inj h)
      exact ⟨done, signal, later, hfirst, hrest, rfl⟩

theorem extent_cons (start : Nat) (b : Block) (blocks : List Block) :
    start + Block.extent (b :: blocks) = start + b.size + Block.extent blocks := by
  rw [Nat.add_assoc]
  rfl

theorem saved_of_transfer {m' : Machine} {dumps : List Block}
    {after : List (Vector UInt8 registerCount)}
    (h : m.transfer .storeRegisters dumps = .ok (m', after)) :
    (dumps ≠ [] → m.index.toNat + Block.extent dumps ≤ memorySize) ∧ after = dumps.map Block.v ∧
      m'.memory = ⟨Memory.place m.memory.cells m.index.toNat (dumps.flatMap Block.saved)⟩ ∧
      m'.index.toNat = m.index.toNat + Block.extent dumps := by
  induction dumps generalizing m after with
  | nil =>
      obtain ⟨rfl, rfl⟩ := Prod.mk.inj (Except.ok.inj h)
      exact ⟨fun hne => absurd rfl hne, rfl, rfl, rfl⟩
  | cons b dumps ih =>
      obtain ⟨done, signal, later, hfirst, hrest, rfl⟩ := transfer_cons_eq_ok h
      obtain ⟨hroom, hv, hmemory, hindex⟩ := saved_of_execute hfirst
      obtain ⟨hrooms, rfl, hmemories, hend⟩ := ih hrest
      rw [hindex] at hrooms hend hmemories
      rw [extent_cons]
      refine ⟨fun _ => ?_, congrArg (· :: _) hv, ?_, hend⟩
      · cases dumps with
        | nil => exact hroom
        | cons next dumps => exact hrooms (List.cons_ne_nil _ _)
      · rw [hmemories, hmemory, List.flatMap_cons, Memory.place_append, Block.length_saved]

theorem bytes_of_transfer {m' : Machine} {dumps : List Block}
    {after : List (Vector UInt8 registerCount)}
    (h : m.transfer .storeRegisters dumps = .ok (m', after)) :
    let saved := dumps.flatMap Block.saved
    let behind := m.memory.bytes.drop (m.index.toNat + Block.extent dumps)
    m'.memory.bytes = m.memory.bytes.take m.index.toNat ++ saved ++ behind ∧
      m'.memory.bytes.drop m.index.toNat = saved ++ behind := by
  intro saved behind
  obtain ⟨hroom, -, hmemory, -⟩ := saved_of_transfer h
  rw [hmemory]
  cases dumps with
  | nil => exact ⟨by simp [saved, behind, Block.extent, Memory.place], rfl⟩
  | cons b dumps =>
      have hbound : m.index.toNat + saved.length ≤ memorySize := by
        rw [Block.length_flatMap_saved]
        exact hroom (List.cons_ne_nil _ _)
      have hbehind : behind = m.memory.cells.toList.drop (m.index.toNat + saved.length) := by
        rw [Block.length_flatMap_saved]
        rfl
      rw [hbehind]
      exact ⟨Memory.bytes_place _ hbound, Memory.drop_bytes_place _ hbound⟩

theorem restored_of_transfer {dumps loads : List Block} {behind : List UInt8}
    (hsame : loads.map Block.x = dumps.map Block.x)
    (hbytes : m.memory.bytes.drop m.index.toNat = dumps.flatMap Block.saved ++ behind) :
    ∃ m', m.transfer .loadRegisters loads =
        .ok (m', List.zipWith Block.restored dumps loads) ∧
      m'.memory = m.memory ∧ m'.index.toNat = m.index.toNat + Block.extent dumps := by
  induction dumps generalizing m loads with
  | nil =>
      obtain rfl := List.map_eq_nil_iff.mp hsame
      exact ⟨m, rfl, rfl, rfl⟩
  | cons dump dumps ih =>
      obtain ⟨load, loads, rfl, hx, hsame⟩ := List.map_eq_cons_iff.mp hsame
      rw [List.flatMap_cons, List.append_assoc] at hbytes
      have hread : m.memory.read m.index.toNat dump.size = .ok dump.saved := by
        have hlength := congrArg List.length hbytes
        simp only [Memory.bytes, List.length_drop, Vector.length_toList, List.length_append,
          Block.length_saved] at hlength
        have hsize : 0 < dump.size := Nat.succ_pos _
        have hroom : m.index.toNat + dump.size ≤ memorySize := by omega
        refine Memory.read_eq_ok_iff.mpr ⟨hroom, ?_⟩
        rw [hbytes]
        exact (List.take_left' dump.length_saved).symm
      obtain ⟨done, hfirst, hv, hmemory, hindex⟩ := restored_of_read hx hread
      have hlater : done.memory.bytes.drop done.index.toNat =
          dumps.flatMap Block.saved ++ behind := by
        rw [hmemory, hindex, ← List.drop_drop, hbytes]
        exact List.drop_left' dump.length_saved
      obtain ⟨last, hrest, hmemories, hend⟩ := ih hsame hlater
      refine ⟨last, ?_, hmemories.trans hmemory, ?_⟩
      · rw [transfer_cons hfirst hrest, hv]
        rfl
      · rw [hend, hindex, extent_cons]

theorem transfer_storeRegisters_iff {dumps : List Block} :
    (∃ m' after, m.transfer .storeRegisters dumps = .ok (m', after)) ↔
      dumps = [] ∨ m.index.toNat + Block.extent dumps ≤ memorySize := by
  constructor
  · rintro ⟨m', after, h⟩
    cases dumps with
    | nil => exact .inl rfl
    | cons b dumps => exact .inr ((saved_of_transfer h).1 (List.cons_ne_nil _ _))
  · rintro (rfl | h)
    · exact ⟨m, [], rfl⟩
    · induction dumps generalizing m with
      | nil => exact ⟨m, [], rfl⟩
      | cons b dumps ih =>
          rw [extent_cons] at h
          have hfirst := execute_storeRegisters (m := m.holding b.v)
            (Nat.le_trans (Nat.le_add_right _ _) h)
          rw [← (saved_of_execute hfirst).2.2.2] at h
          obtain ⟨last, after, hrest⟩ := ih h
          exact ⟨last, _, transfer_cons hfirst hrest⟩

/-! ## The digits of a byte -/

theorem execute_storeDigits {x : Register} (h : m.index.toNat + 3 ≤ memorySize) :
    m.execute (.misc .storeDigits x) =
      ({ m with
          memory := ⟨Memory.place m.memory.cells m.index.toNat (decimalDigits (m.v.get x))⟩
        }.move .next, .ok .quiet) := by
  have hwrite : m.memory.write m.index.toNat (decimalDigits (m.v.get x)) =
      .ok ⟨Memory.place m.memory.cells m.index.toNat (decimalDigits (m.v.get x))⟩ :=
    m.memory.write_of_le h
  have hperform : m.perform (.misc .storeDigits x) = done { m with
      memory := ⟨Memory.place m.memory.cells m.index.toNat (decimalDigits (m.v.get x))⟩ } := by
    change m.storeDigits x = _
    rw [storeDigits]
    exact hwrite ▸ rfl
  exact execute_of_ok hperform

def IsDecimal (value hundreds tens ones : UInt8) : Prop :=
  hundreds ≤ 9 ∧ tens ≤ 9 ∧ ones ≤ 9 ∧
    100 * hundreds.toNat + 10 * tens.toNat + ones.toNat = value.toNat

theorem isDecimal_digits (byte : UInt8) :
    IsDecimal byte (byte / 100) (byte / 10 % 10) (byte % 10) := by
  have hbyte := byte.toNat_lt
  simp only [IsDecimal, UInt8.le_iff_toNat_le, UInt8.toNat_div, UInt8.toNat_mod,
    UInt8.reduceToNat]
  omega

theorem digits_loaded {x : Register} (h : m.index.toNat + 3 ≤ memorySize) :
    ∃ stored loaded, m.execute (.misc .storeDigits x) = (stored, .ok .quiet) ∧
      stored.index = m.index ∧ stored.v = m.v ∧
      stored.execute (.misc .loadRegisters ⟨2, by decide⟩) = (loaded, .ok .quiet) ∧
      IsDecimal (m.v.get x) (loaded.v.get ⟨0, by decide⟩) (loaded.v.get ⟨1, by decide⟩)
        (loaded.v.get ⟨2, by decide⟩) := by
  let digits := decimalDigits (m.v.get x)
  have hread : (Memory.mk (Memory.place m.memory.cells m.index.toNat digits)).read
      m.index.toNat 3 = .ok digits := Memory.read_place m.memory.cells h
  have hload := execute_loadRegisters (x := ⟨2, by decide⟩)
    (m := { m with memory := ⟨Memory.place m.memory.cells m.index.toNat digits⟩ }.move .next)
    hread
  have hdigit : ∀ r : Register,
      (Vector.ofFn fun r : Register => digits[r.val]?.getD (m.v.get r)).get r =
        digits[r.val]?.getD (m.v.get r) := fun r => Vector.getElem_ofFn r.isLt
  refine ⟨_, _, execute_storeDigits h, rfl, rfl, hload, ?_⟩
  simp only [move, hdigit]
  exact isDecimal_digits (m.v.get x)

/-- Blocks of registers that are saved one after the other fill the cells from `I` on without a
gap, up to the last cell of memory, and no other cell is written.  From there they are restored
in the same order, whatever the registers hold in between.  A block that does not fit is not
saved at all.  The digits of a register are loaded after they were stored. -/
theorem registers_saved_and_restored (m : Machine) :
    (∀ dumps, (∃ m' after, m.transfer .storeRegisters dumps = .ok (m', after)) ↔
      dumps = [] ∨ m.index.toNat + Block.extent dumps ≤ 4096) ∧
    (∀ dumps m' after, m.transfer .storeRegisters dumps = .ok (m', after) →
      after = dumps.map Block.v ∧
      m'.memory.bytes = m.memory.bytes.take m.index.toNat ++ dumps.flatMap Block.saved ++
        m.memory.bytes.drop (m.index.toNat + Block.extent dumps) ∧
      m'.index.toNat = m.index.toNat + Block.extent dumps ∧
      ∀ loads, loads.map Block.x = dumps.map Block.x →
        ∃ m'', { m' with index := m.index }.transfer .loadRegisters loads =
            .ok (m'', List.zipWith Block.restored dumps loads) ∧
          m''.memory = m'.memory ∧ m''.index = m'.index) ∧
    (∀ x : Register, 4096 < m.index.toNat + (x.val + 1) →
      m.execute (.misc .storeRegisters x) =
        (m, .error (.memory ⟨m.index.toNat, x.val + 1⟩))) ∧
    (∀ x : Register, m.index.toNat + 3 ≤ 4096 →
      ∃ stored loaded, m.execute (.misc .storeDigits x) = (stored, .ok .quiet) ∧
        stored.index = m.index ∧ stored.v = m.v ∧
        stored.execute (.misc .loadRegisters ⟨2, by decide⟩) = (loaded, .ok .quiet) ∧
        IsDecimal (m.v.get x) (loaded.v.get ⟨0, by decide⟩) (loaded.v.get ⟨1, by decide⟩)
          (loaded.v.get ⟨2, by decide⟩)) := by
  refine ⟨fun dumps => transfer_storeRegisters_iff, ?_,
    fun x => execute_storeRegisters_of_lt, fun x => digits_loaded⟩
  intro dumps m' after h
  obtain ⟨-, rfl, -, hend⟩ := saved_of_transfer h
  obtain ⟨hbytes, hblocks⟩ := bytes_of_transfer h
  refine ⟨rfl, hbytes, hend, fun loads hsame => ?_⟩
  obtain ⟨last, hloads, hsaved, hindex⟩ :=
    restored_of_transfer (m := { m' with index := m.index }) hsame hblocks
  exact ⟨last, hloads, hsaved, UInt16.toNat_inj.mp (hindex.trans hend.symm)⟩

theorem two_blocks_restored :
    let m : Machine := { fresh (.constant 0) with index := 0xFFB }
    let x : Register := ⟨1, by decide⟩
    let y : Register := ⟨2, by decide⟩
    let dumps : List Block := [⟨Vector.replicate 16 7, x⟩, ⟨Vector.replicate 16 9, y⟩]
    let loads : List Block := [⟨Vector.replicate 16 0, x⟩, ⟨Vector.replicate 16 0, y⟩]
    let full : Machine := { m with index := 0x1000 }
    (∃ m' after, m.transfer .storeRegisters dumps = .ok (m', after) ∧
      m'.memory.bytes = m.memory.bytes.take 0xFFB ++ [7, 7, 9, 9, 9] ++
        m.memory.bytes.drop 0x1000 ∧
      loads.map Block.x = dumps.map Block.x ∧
      ∃ m'', { m' with index := m.index }.transfer .loadRegisters loads =
        .ok (m'', List.zipWith Block.restored dumps loads)) ∧
    0x1000 < full.index.toNat + (x.val + 1) ∧
    full.execute (.misc .storeRegisters x) = (full, .error (.memory ⟨0x1000, 2⟩)) ∧
    m.index.toNat + 3 ≤ 0x1000 ∧
    ∃ stored loaded, m.execute (.misc .storeDigits y) = (stored, .ok .quiet) ∧
      stored.execute (.misc .loadRegisters y) = (loaded, .ok .quiet) ∧
      IsDecimal (m.v.get y) (loaded.v.get ⟨0, by decide⟩) (loaded.v.get x)
        (loaded.v.get y) := by
  intro m x y dumps loads full
  obtain ⟨hfits, hsaved, -, hdigits⟩ := registers_saved_and_restored m
  obtain ⟨m', after, hdumps⟩ := (hfits dumps).mpr (.inr (by decide))
  obtain ⟨-, hbytes, -, hloads⟩ := hsaved dumps m' after hdumps
  have hsame : loads.map Block.x = dumps.map Block.x := rfl
  obtain ⟨m'', hrestored, -⟩ := hloads loads hsame
  have hlong : 0x1000 < full.index.toNat + (x.val + 1) := by decide
  have hroom : m.index.toNat + 3 ≤ 0x1000 := by decide
  obtain ⟨stored, loaded, hstore, -, -, hload, hdecimal⟩ := hdigits y hroom
  exact ⟨⟨m', after, hdumps, hbytes, hsame, m'', hrestored⟩, hlong,
    (registers_saved_and_restored full).2.2.1 x hlong, hroom, stored, loaded, hstore, hload,
    hdecimal⟩

end Machine

end Chip8VM
