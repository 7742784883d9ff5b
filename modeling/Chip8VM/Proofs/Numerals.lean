import Chip8VM.Text.Hex

/-!
# Reading numerals back

A numeral spells one number only, however it is filled up, and the numerals of
words all have six characters.  No numeral contains a blank or a line break.
-/

namespace Chip8VM.Hex

def digitValue (c : Char) : Nat := if c.toNat < 58 then c.toNat - 48 else c.toNat - 55

def value (digits : List Char) : Nat :=
  digits.foldl (fun sum c => 16 * sum + digitValue c) 0

theorem digitValue_digit : ∀ d < 16, digitValue (digit d) = d := by decide

theorem value_append_singleton (digits : List Char) (c : Char) :
    value (digits ++ [c]) = 16 * value digits + digitValue c := by
  simp [value]

theorem value_digits (n : Nat) : value (digits n) = n := by
  induction n using digits.induct with
  | case1 n hsmall =>
      rw [digits, if_pos hsmall]
      simp [value, digitValue_digit n hsmall]
  | case2 n hlarge ih =>
      rw [digits, if_neg hlarge, value_append_singleton, ih, digitValue_digit _ (by omega)]
      omega

theorem value_zeros_append (k : Nat) (digits : List Char) :
    value (List.replicate k '0' ++ digits) = value digits := by
  induction k with
  | zero => rfl
  | succ k ih => simpa [List.replicate_succ, value, digitValue] using ih

theorem numeral_injective {width n m : Nat} (h : numeral width n = numeral width m) : n = m := by
  have hvalue : ∀ k, value ((numeral width k).drop 2) = k := by
    intro k
    simp only [numeral, List.drop_succ_cons, List.drop_zero]
    rw [value_zeros_append, value_digits]
  rw [← hvalue n, h, hvalue m]

theorem word_injective {n m : Nat} (h : word n = word m) : n = m := numeral_injective h

/-! ## Length and last digit -/

theorem length_digits_of_le {n : Nat} (h : 16 ≤ n) :
    (digits n).length = (digits (n / 16)).length + 1 := by
  rw [digits, if_neg (by omega), List.length_append, List.length_singleton]

theorem length_digits_of_lt {n : Nat} (h : n < 16) : (digits n).length = 1 := by
  rw [digits, if_pos h, List.length_singleton]

theorem length_digits_le (bound : Nat) {n length : Nat} (hlarge : n < 16 * bound)
    (h : n / 16 < bound → (digits (n / 16)).length ≤ length) :
    (digits n).length ≤ length + 1 := by
  rcases Nat.lt_or_ge n 16 with hsmall | hge
  · rw [length_digits_of_lt hsmall]
    omega
  · rw [length_digits_of_le hge]
    have := h (by omega)
    omega

theorem length_digits_word {n : Nat} (h : n < 65536) : (digits n).length ≤ 4 := by
  refine length_digits_le 4096 h fun h => ?_
  refine length_digits_le 256 h fun h => ?_
  refine length_digits_le 16 h fun h => ?_
  exact Nat.le_of_eq (length_digits_of_lt h)

theorem length_word {n : Nat} (h : n < 65536) : (word n).length = 6 := by
  have hdigits := length_digits_word h
  simp only [word, numeral, List.length_cons, List.length_append, List.length_replicate]
  omega

theorem digits_eq_append (n : Nat) : ∃ front, digits n = front ++ [digit (n % 16)] := by
  rw [digits]
  split
  case isTrue hsmall => exact ⟨[], by rw [Nat.mod_eq_of_lt hsmall, List.nil_append]⟩
  case isFalse => exact ⟨digits (n / 16), rfl⟩

theorem word_eq_append (n : Nat) : ∃ front, word n = front ++ [digit (n % 16)] := by
  obtain ⟨front, hfront⟩ := digits_eq_append n
  exact ⟨'0' :: 'x' :: (List.replicate (4 - (digits n).length) '0' ++ front),
    by simp [word, numeral, hfront]⟩

/-! ## Characters -/

theorem blank_lt_of_mem_digits {n : Nat} : ∀ c ∈ digits n, ' ' < c := by
  have hdigit : ∀ d < 16, ' ' < digit d := by decide
  induction n using digits.induct with
  | case1 n hsmall =>
      rw [digits, if_pos hsmall]
      exact List.forall_mem_singleton.mpr (hdigit n hsmall)
  | case2 n hlarge ih =>
      rw [digits, if_neg hlarge, List.forall_mem_append]
      exact ⟨ih, List.forall_mem_singleton.mpr (hdigit _ (Nat.mod_lt n (by decide)))⟩

theorem blank_lt_of_mem_word {n : Nat} : ∀ c ∈ word n, ' ' < c := by
  simp only [word, numeral, List.forall_mem_cons, List.forall_mem_append]
  refine ⟨by decide, by decide, fun c hc => ?_, blank_lt_of_mem_digits⟩
  rw [List.eq_of_mem_replicate hc]
  decide

theorem not_mem_word {c : Char} (h : ¬ ' ' < c) (n : Nat) : c ∉ word n :=
  fun hmem => h (blank_lt_of_mem_word c hmem)

end Chip8VM.Hex
