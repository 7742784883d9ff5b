import Chip8VM.Proofs.Footprint
import Chip8VM.Proofs.Reload

/-!
# Random bytes

A generator is asked for one byte at a time, so a machine sees it as the stream of
the bytes it would deliver.  Each `CXNN` takes the next byte of the stream, and
nothing else takes one or puts one back, resets and loaded programs included.
-/

namespace Chip8VM

/-! ## Generators as streams -/

structure Generator (σ : Type) where
  next : σ → UInt8 × σ

namespace Generator

variable {σ : Type}

def skip (g : Generator σ) (s : σ) : Nat → σ
  | 0 => s
  | count + 1 => (g.next (g.skip s count)).2

def stream (g : Generator σ) (s : σ) : RandomStream :=
  { byte := fun k => (g.next (g.skip s k)).1 }

def counting (increment : UInt64) : Generator UInt64 where
  next s := (s.toUInt8, s + increment)

theorem toNat_skip_counting (initial increment : UInt64) (count : Nat) :
    ((counting increment).skip initial count).toNat =
      (initial.toNat + count * increment.toNat) % UInt64.size := by
  induction count with
  | zero =>
      rw [Nat.zero_mul, Nat.add_zero]
      exact (Nat.mod_eq_of_lt initial.toNat_lt).symm
  | succ count ih =>
      change ((counting increment).skip initial count + increment).toNat = _
      rw [UInt64.toNat_add, ih, Nat.succ_mul]
      simp only [UInt64.size]
      omega

theorem toNat_stream_counting (initial increment : UInt64) (k : Nat) :
    (((counting increment).stream initial).byte k).toNat =
      (initial.toNat + k * increment.toNat) % UInt64.size % 256 := by
  change ((counting increment).skip initial k).toUInt8.toNat = _
  rw [UInt64.toNat_toUInt8, toNat_skip_counting]

theorem stream_counting (initial increment : UInt64) :
    (counting increment).stream initial = .stepping initial increment := by
  have hbytes : ∀ k, ((counting increment).stream initial).byte k =
      (RandomStream.stepping initial increment).byte k := by
    intro k
    rw [← UInt8.toNat_inj, toNat_stream_counting]
    change _ = (initial + UInt64.ofNat k * increment).toUInt8.toNat
    rw [UInt64.toNat_toUInt8, UInt64.toNat_add, UInt64.toNat_mul, UInt64.toNat_ofNat',
      Nat.mod_mul_mod, Nat.add_mod_mod]
  exact congrArg (fun byte => RandomStream.mk byte 0) (funext hbytes)

end Generator

namespace Machine

/-! ## Steps -/

def nextRolls (m : Machine) : Bool :=
  match m.memory.fetch m.pc.toNat with
  | .ok word => (Word.family word).val == 0xC
  | .error _ => false

def rolls (m : Machine) : List Operation → Nat
  | [] => 0
  | op :: ops => (if op = .step ∧ m.nextRolls then 1 else 0) + (m.serve op).1.rolls ops

theorem nextRolls_iff {m : Machine} :
    m.nextRolls ↔
      ∃ word, m.memory.fetch m.pc.toNat = .ok word ∧ (Word.family word).val = 0xC := by
  unfold nextRolls
  cases m.memory.fetch m.pc.toNat with
  | error e => simp
  | ok word => simp

theorem step_roll {m : Machine} {word : UInt16}
    (hfetch : m.memory.fetch m.pc.toNat = .ok word) (hfamily : (Word.family word).val = 0xC) :
    m.step =
      ({ m.setRegister (Word.x word) (Word.nn word &&& m.random.draw.1) with
          word, pc := m.pc + 2, random := m.random.draw.2 }, .ok .quiet) := by
  have hdecode : Instruction.decode? word = some (.random (Word.x word) (Word.nn word)) := by
    simp [Instruction.decode?, hfamily]
  rw [step_of_fetch hfetch hdecode]
  rfl

theorem random_step {m : Machine} (h : ¬ m.nextRolls) : m.step.1.random = m.random := by
  cases hfetch : m.memory.fetch m.pc.toNat with
  | error e => rw [step_of_fetch_error hfetch]
  | ok word =>
      have hfamily : ¬ (Word.family word).val = 0xC := fun hroll =>
        h (nextRolls_iff.mpr ⟨word, hfetch, hroll⟩)
      rcases hstep : m.step with ⟨m', result⟩
      cases result with
      | error fault =>
          obtain ⟨rfl, -⟩ := step_eq_error_iff.mp hstep
          simp only [fetched, hfetch]
      | ok signal =>
          rcases (within_of_step hfetch hstep).random with hkept | ⟨hroll, -⟩
          · exact hkept
          · exact absurd hroll hfamily

/-! ## Runs -/

theorem random_serve {m : Machine} {op : Operation} (h : ¬ (op = .step ∧ m.nextRolls)) :
    (m.serve op).1.random = m.random := by
  cases op with
  | step => exact random_step fun hroll => h ⟨rfl, hroll⟩
  | load program =>
      simp only [serve, load]
      cases m.memory.load program <;> rfl
  | loadRom rom =>
      rw [serve_loadRom_fst]
      split <;> rfl
  | pressKey key =>
      obtain ⟨keys, hserve⟩ := m.serve_pressKey key
      rw [hserve]
  | reset | setDelay | setSound | resetTimers | tick => rfl

theorem random_after (m : Machine) (ops : List Operation) :
    (m.after ops).random = { m.random with drawn := m.random.drawn + m.rolls ops } := by
  induction ops generalizing m with
  | nil => rfl
  | cons op ops ih =>
      rw [after_cons, ih, rolls]
      by_cases hroll : op = .step ∧ m.nextRolls
      · obtain ⟨rfl, hnext⟩ := hroll
        obtain ⟨word, hfetch, hfamily⟩ := nextRolls_iff.mp hnext
        rw [serve_step, step_roll hfetch hfamily, if_pos ⟨rfl, hnext⟩]
        simp only [RandomStream.draw, Nat.add_assoc]
      · rw [random_serve hroll, if_neg hroll, Nat.zero_add]

/-- A run has drawn as many bytes as it has executed `CXNN`, and the next one gets the
next byte.  Whatever else comes next leaves the stream where it is. -/
theorem random_bytes_in_order {σ : Type} (g : Generator σ) (s : σ) (ops : List Operation) :
    let m := (fresh (g.stream s)).after ops
    let k := (fresh (g.stream s)).rolls ops
    m.random = ⟨(g.stream s).byte, k⟩ ∧
      (∀ word, m.memory.fetch m.pc.toNat = .ok word → (Word.family word).val = 0xC →
        m.step =
          ({ m.setRegister (Word.x word) (Word.nn word &&& (g.stream s).byte k) with
              word, pc := m.pc + 2, random := ⟨(g.stream s).byte, k + 1⟩ }, .ok .quiet)) ∧
      (∀ op, ¬ (op = .step ∧ m.nextRolls) → (m.serve op).1.random = m.random) ∧
      ∀ initial increment : UInt64,
        (Generator.counting increment).stream initial = .stepping initial increment ∧
          ∀ j, (((Generator.counting increment).stream initial).byte j).toNat =
            (initial.toNat + j * increment.toNat) % UInt64.size % 256 := by
  intro m k
  have hrandom : m.random = ⟨(g.stream s).byte, k⟩ := by
    have hafter := random_after (fresh (g.stream s)) ops
    rwa [show (fresh (g.stream s)).random.drawn = 0 from rfl, Nat.zero_add] at hafter
  refine ⟨hrandom, ?_, fun _ => random_serve, fun initial increment =>
    ⟨Generator.stream_counting initial increment,
      Generator.toNat_stream_counting initial increment⟩⟩
  intro word hfetch hfamily
  have hbyte : m.random.draw.1 = (g.stream s).byte k := by
    rw [hrandom]
    rfl
  have hlater : m.random.draw.2 = ⟨(g.stream s).byte, k + 1⟩ := by
    rw [hrandom]
    rfl
  rw [step_roll hfetch hfamily, hbyte, hlater]

theorem second_byte_after_reload :
    let stream := (Generator.counting 1).stream 0x5A
    let rom : Rom := ⟨"dice", [0xC0, 0xF0]⟩
    let ops : List Operation := [.loadRom rom, .step, .loadRom rom]
    let m := (fresh stream).after ops
    (fresh stream).rolls ops = 1 ∧ m.memory.fetch m.pc.toNat = .ok 0xC0F0 ∧
      m.step.1.v.toList = 0x50 :: List.replicate 15 0 := by
  intro stream rom ops m
  have hm : (fresh stream).after ops = m := rfl
  clear_value m
  have hloaded : ∀ n : Machine, (n.serve (.loadRom rom)).1 = started rom n.keys n.random := by
    intro n
    rw [serve_loadRom_fst, if_pos (by decide)]
  have hfetch : ∀ keys random,
      (started rom keys random).memory.fetch (started rom keys random).pc.toNat =
        .ok 0xC0F0 := fun _ _ =>
    @Memory.fetch_place _ [0xC0, 0xF0] programStart 0 0xC0 0xF0 (by decide) rfl rfl
  have hrolls : (fresh stream).rolls ops = 1 := by
    have hnext : (started rom {} stream).nextRolls := nextRolls_iff.mpr ⟨_, hfetch _ _, rfl⟩
    have hfirst : ((fresh stream).serve (.loadRom rom)).1 = started rom {} stream :=
      hloaded (fresh stream)
    simp [ops, rolls, hfirst, hnext]
  obtain ⟨keys, random, rfl⟩ : ∃ keys random, m = started rom keys random := by
    have hlast := (fresh stream).after_append [.loadRom rom, .step] [.loadRom rom]
    rw [after_cons, hloaded] at hlast
    exact ⟨_, _, hm.symm.trans hlast⟩
  have hclaim := random_bytes_in_order (Generator.counting 1) 0x5A ops
  have hstep := hclaim.2.1 0xC0F0
  rw [hm, hrolls] at hstep
  refine ⟨hrolls, hfetch keys random, ?_⟩
  rw [hstep (hfetch keys random) rfl]
  rfl

end Machine

end Chip8VM
