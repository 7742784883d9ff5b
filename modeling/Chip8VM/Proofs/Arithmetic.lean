import Chip8VM.Machine.Execute

/-!
# Sums, differences and shifts

The register operations in terms of whole numbers.  Both operands are read first, then
the flag is written and then the result, so a result that goes to `VF` takes the place of
the flag.
-/

namespace Chip8VM

namespace AluOp

/-- The result before it is cut down to a byte. -/
def wholeResult (op : AluOp) (a b : Nat) : Int :=
  match op with
  | .assign => (b : Int)
  | .or => ((a ||| b : Nat) : Int)
  | .and => ((a &&& b : Nat) : Int)
  | .xor => ((a ^^^ b : Nat) : Int)
  | .add => (a : Int) + b
  | .sub => (a : Int) - b
  | .shiftRight => ((b / 2 : Nat) : Int)
  | .subReverse => (b : Int) - a
  | .shiftLeft => 2 * (b : Int)

/-- What `VX` and `VF` hold after an operation on `a` and `b` whose result does not go to
`VF`.  The flag of a difference is one if nothing was borrowed. -/
def Leaves (op : AluOp) (a b flagBefore vx vf : Nat) : Prop :=
  match op with
  | .assign => vx = b ∧ vf = flagBefore
  | .or => vx = a ||| b ∧ vf = flagBefore
  | .and => vx = a &&& b ∧ vf = flagBefore
  | .xor => vx = a ^^^ b ∧ vf = flagBefore
  | .add => vx + 256 * vf = a + b ∧ (vf = 0 ∨ vf = 1)
  | .sub => (vx : Int) + b = a + 256 * (1 - vf) ∧ (vf = 0 ∨ vf = 1)
  | .shiftRight => 2 * vx + vf = b ∧ (vf = 0 ∨ vf = 1)
  | .subReverse => (vx : Int) + a = b + 256 * (1 - vf) ∧ (vf = 0 ∨ vf = 1)
  | .shiftLeft => vx + 256 * vf = 2 * b ∧ (vf = 0 ∨ vf = 1)

/-! ## Bytes as numbers -/

theorem toNat_sub (a b : UInt8) :
    ((a - b).toNat : Int) = ((a.toNat : Int) - b.toNat) % 256 := by
  have ha := a.toNat_lt
  have hb := b.toNat_lt
  rw [UInt8.toNat_sub]
  omega

theorem toNat_half (b : UInt8) : (b >>> 1).toNat = b.toNat / 2 := by
  rw [UInt8.toNat_shiftRight]
  exact Nat.shiftRight_eq_div_pow b.toNat 1

theorem toNat_double (b : UInt8) : (b <<< 1).toNat = 2 * b.toNat % 256 := by
  rw [UInt8.toNat_shiftLeft, Nat.mul_comm]
  exact congrArg (· % 256) (Nat.shiftLeft_eq b.toNat 1)

theorem toNat_result (op : AluOp) (a b : UInt8) :
    ((op.result a b).toNat : Int) = op.wholeResult a.toNat b.toNat % 256 := by
  have hb := b.toNat_lt
  cases op with
  | assign =>
      simp only [result, wholeResult]
      omega
  | or =>
      have hlt := (a ||| b).toNat_lt
      simp only [result, wholeResult, ← UInt8.toNat_or]
      omega
  | and =>
      have hlt := (a &&& b).toNat_lt
      simp only [result, wholeResult, ← UInt8.toNat_and]
      omega
  | xor =>
      have hlt := (a ^^^ b).toNat_lt
      simp only [result, wholeResult, ← UInt8.toNat_xor]
      omega
  | add =>
      simp only [result, wholeResult, UInt8.toNat_add]
      omega
  | sub => exact toNat_sub a b
  | shiftRight =>
      simp only [result, wholeResult, toNat_half]
      omega
  | subReverse => exact toNat_sub b a
  | shiftLeft =>
      simp only [result, wholeResult, toNat_double]
      omega

def flagAfter (op : AluOp) (a b flagBefore : UInt8) : UInt8 :=
  match op.flag? a b with
  | some flag => if flag then 1 else 0
  | none => flagBefore

theorem toNat_flag (flag : Bool) : (if flag then 1 else 0 : UInt8).toNat = flag.toNat := by
  cases flag <;> rfl

theorem sub_leaves (a b : UInt8) :
    ((a - b).toNat : Int) + b.toNat = a.toNat + 256 * (1 - ((decide (a ≥ b)).toNat : Int)) ∧
      ((decide (a ≥ b)).toNat = 0 ∨ (decide (a ≥ b)).toNat = 1) := by
  have ha := a.toNat_lt
  have hb := b.toNat_lt
  rw [toNat_sub]
  by_cases hle : b.toNat ≤ a.toNat
  · rw [decide_eq_true (show a ≥ b from hle), Bool.toNat_true]
    omega
  · rw [decide_eq_false (show ¬ a ≥ b from hle), Bool.toNat_false]
    omega

theorem leaves_result (op : AluOp) (a b flagBefore : UInt8) :
    op.Leaves a.toNat b.toNat flagBefore.toNat (op.result a b).toNat
      (op.flagAfter a b flagBefore).toNat := by
  have ha := a.toNat_lt
  have hb := b.toNat_lt
  cases op with
  | assign => exact ⟨rfl, rfl⟩
  | or => exact ⟨UInt8.toNat_or a b, rfl⟩
  | and => exact ⟨UInt8.toNat_and a b, rfl⟩
  | xor => exact ⟨UInt8.toNat_xor a b, rfl⟩
  | add =>
      simp only [Leaves, result, flagAfter, flag?, toNat_flag, UInt8.toNat_add]
      by_cases hcarry : a.toNat + b.toNat > 255
      · rw [decide_eq_true hcarry, Bool.toNat_true]
        omega
      · rw [decide_eq_false hcarry, Bool.toNat_false]
        omega
  | sub =>
      simp only [Leaves, result, flagAfter, flag?, toNat_flag]
      exact sub_leaves a b
  | shiftRight =>
      simp only [Leaves, result, flagAfter, flag?, toNat_flag, toNat_half, Nat.testBit_zero]
      by_cases hodd : b.toNat % 2 = 1
      · rw [decide_eq_true hodd, Bool.toNat_true]
        omega
      · rw [decide_eq_false hodd, Bool.toNat_false]
        omega
  | subReverse =>
      simp only [Leaves, result, flagAfter, flag?, toNat_flag]
      exact sub_leaves b a
  | shiftLeft =>
      simp only [Leaves, result, flagAfter, flag?, toNat_flag, toNat_double,
        Nat.testBit_eq_decide_div_mod_eq]
      by_cases hhigh : b.toNat / 2 ^ 7 % 2 = 1
      · rw [decide_eq_true hhigh, Bool.toNat_true]
        omega
      · rw [decide_eq_false hhigh, Bool.toNat_false]
        omega

end AluOp

namespace Machine

variable (m : Machine)

theorem execute_alu (op : AluOp) (x y : Register) :
    ∃ m', m.execute (.alu op x y) = (m', .ok .quiet) ∧
      m' = { m with v := m'.v, pc := m.pc + 2 } ∧
      m'.v.get x = op.result (m.v.get x) (m.v.get y) ∧
      (x ≠ flagRegister → m'.v.get flagRegister =
        op.flagAfter (m.v.get x) (m.v.get y) (m.v.get flagRegister)) ∧
      (∀ r, r ≠ x → r ≠ flagRegister → m'.v.get r = m.v.get r) := by
  cases hflag : op.flag? (m.v.get x) (m.v.get y) with
  | some flag =>
      have hperform : m.perform (.alu op x y) =
          ((m.setFlag flag).setRegister x (op.result (m.v.get x) (m.v.get y)), .ok {}) := by
        have hsome : op.flag? m.v[x] m.v[y] = some flag := hflag
        simp only [perform, alu, hsome]
        rfl
      refine ⟨_, execute_of_ok hperform, rfl, get_setRegister_self _ _ _, fun hx => ?_,
        fun r hr hr' => ?_⟩
      · rw [AluOp.flagAfter, hflag]
        exact (get_setRegister_of_ne _ hx.symm _).trans (get_setFlag_self _ _)
      · exact (get_setRegister_of_ne _ hr _).trans (get_setFlag_of_ne _ hr' _)
  | none =>
      have hperform : m.perform (.alu op x y) =
          (m.setRegister x (op.result (m.v.get x) (m.v.get y)), .ok {}) := by
        have hnone : op.flag? m.v[x] m.v[y] = none := hflag
        simp only [perform, alu, hnone]
        rfl
      refine ⟨_, execute_of_ok hperform, rfl, get_setRegister_self _ _ _, fun hx => ?_,
        fun r hr _ => get_setRegister_of_ne _ hr _⟩
      rw [AluOp.flagAfter, hflag]
      exact get_setRegister_of_ne _ hx.symm _

theorem execute_add (x : Register) (byte : UInt8) :
    ∃ m', m.execute (.add x byte) = (m', .ok .quiet) ∧
      m' = { m with v := m'.v, pc := m.pc + 2 } ∧
      m'.v.get x = m.v.get x + byte ∧ (∀ r, r ≠ x → m'.v.get r = m.v.get r) :=
  ⟨(m.setRegister x (m.v.get x + byte)).move .next, rfl, rfl, get_setRegister_self _ _ _,
    fun _ hr => get_setRegister_of_ne _ hr _⟩

/-- An operation leaves the sum, difference or shift of the operands as they were before
it in `VX` and `VF`, and touches no other register.  If `VX` is `VF`, then what is left
there is the result, cut down to a byte. -/
theorem registers_count_exactly (x : Register) :
    (∀ (op : AluOp) (y : Register),
      let a := (m.v.get x).toNat
      let b := (m.v.get y).toNat
      ∃ m', m.execute (.alu op x y) = (m', .ok .quiet) ∧
        m' = { m with v := m'.v, pc := m.pc + 2 } ∧
        (x ≠ flagRegister →
          op.Leaves a b (m.v.get flagRegister).toNat (m'.v.get x).toNat
            (m'.v.get flagRegister).toNat) ∧
        ((m'.v.get x).toNat : Int) = op.wholeResult a b % 256 ∧
        (∀ r, r ≠ x → r ≠ flagRegister → m'.v.get r = m.v.get r)) ∧
    (∀ byte : UInt8,
      ∃ m', m.execute (.add x byte) = (m', .ok .quiet) ∧
        m' = { m with v := m'.v, pc := m.pc + 2 } ∧
        (m'.v.get x).toNat = ((m.v.get x).toNat + byte.toNat) % 256 ∧
        (∀ r, r ≠ x → m'.v.get r = m.v.get r)) := by
  constructor
  · intro op y a b
    obtain ⟨m', hexecute, hparts, hresult, hflag, hother⟩ := m.execute_alu op x y
    refine ⟨m', hexecute, hparts, fun hx => ?_, ?_, hother⟩
    · rw [hresult, hflag hx]
      exact op.leaves_result _ _ _
    · rw [hresult]
      exact op.toNat_result _ _
  · intro byte
    obtain ⟨m', hexecute, hparts, hsum, hother⟩ := m.execute_add x byte
    refine ⟨m', hexecute, hparts, ?_, hother⟩
    rw [hsum]
    exact UInt8.toNat_add _ _

/-- `80F5` with `3` in `V0` and `5` in `VF` borrows, and the flag overwrites the `5`; `8FF4`
then doubles the flag itself. -/
theorem borrow_and_double_flag :
    let m := ((fresh (.constant 0)).setRegister (Word.x 0x80F5) 3).setRegister flagRegister 5
    Word.x 0x80F5 ≠ flagRegister ∧
      (∃ m', m.execute (.alu .sub (Word.x 0x80F5) flagRegister) = (m', .ok .quiet) ∧
        ((m'.v.get (Word.x 0x80F5)).toNat : Int) + 5 =
          3 + 256 * (1 - (m'.v.get flagRegister).toNat)) ∧
      (∃ m', m.execute (.alu .add flagRegister flagRegister) = (m', .ok .quiet) ∧
        ((m'.v.get flagRegister).toNat : Int) = 10) := by
  intro m
  have hx : Word.x 0x80F5 ≠ flagRegister := by decide
  obtain ⟨m', hexecute, -, hleaves, -⟩ :=
    (m.registers_count_exactly (Word.x 0x80F5)).1 .sub flagRegister
  obtain ⟨m'', hexecute', -, -, hdouble, -⟩ :=
    (m.registers_count_exactly flagRegister).1 .add flagRegister
  exact ⟨hx, ⟨m', hexecute, (hleaves hx).1⟩, ⟨m'', hexecute', hdouble⟩⟩

end Machine

end Chip8VM
