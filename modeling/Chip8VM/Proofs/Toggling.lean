import Mathlib.Data.List.Induction
import Chip8VM.Proofs.Sprites

/-!
# Pixels as parities

A pixel of a screen that began blank is on exactly if an odd number of toggles has
reached it since the last clear.  So the answers of the toggles, the test for a blank
screen and the comparison of screens are all told by these numbers.
-/

namespace Chip8VM.Screen

inductive Touch where
  | toggle (x y : Nat)
  | clear
  deriving DecidableEq, Repr

def touch (s : Screen) : Touch → Screen × Option Bool
  | .toggle x y =>
      let (was, s) := s.toggle x y
      (s, some was)
  | .clear => (blank, none)

def touched (s : Screen) (touches : List Touch) : Screen :=
  touches.foldl (fun s t => (s.touch t).1) s

def answers (s : Screen) : List Touch → List (Option Bool)
  | [] => []
  | t :: later => (s.touch t).2 :: (s.touch t).1.answers later

def Touch.reaches (u v : Nat) : Touch → Bool
  | .toggle x y => decide (u % 64 = x % 64 ∧ v % 32 = y % 32)
  | .clear => false

def flipCount (touches : List Touch) (u v : Nat) : Nat :=
  (touches.reverse.takeWhile (· ≠ .clear)).countP (Touch.reaches u v)

theorem touched_append_singleton (s : Screen) (touches : List Touch) (t : Touch) :
    s.touched (touches ++ [t]) = ((s.touched touches).touch t).1 := by
  simp [touched]

theorem flipCount_append_toggle (touches : List Touch) (x y u v : Nat) :
    flipCount (touches ++ [.toggle x y]) u v =
      flipCount touches u v + if Touch.reaches u v (.toggle x y) then 1 else 0 := by
  simp [flipCount, List.countP_cons]

theorem flipCount_append_clear (touches : List Touch) (u v : Nat) :
    flipCount (touches ++ [.clear]) u v = 0 := by
  simp [flipCount]

theorem get_touched (touches : List Touch) (u v : Nat) :
    (blank.touched touches).get u v = decide (flipCount touches u v % 2 = 1) := by
  induction touches using List.reverseRecOn with
  | nil => exact get_blank u v
  | append_singleton touches t ih =>
      rw [touched_append_singleton]
      cases t with
      | clear =>
          rw [flipCount_append_clear]
          exact get_blank u v
      | toggle x y =>
          have htoggle : ((blank.touched touches).touch (.toggle x y)).1.get u v =
              ((blank.touched touches).get u v ^^ Touch.reaches u v (.toggle x y)) :=
            get_toggle_xor _ x y u v
          rw [htoggle, ih, flipCount_append_toggle]
          cases Touch.reaches u v (.toggle x y) with
          | false => simp
          | true =>
              rw [if_pos rfl, Bool.xor_true, ← decide_not]
              exact decide_eq_decide.mpr (by omega)

theorem getElem?_answers (s : Screen) (before : List Touch) (t : Touch) (later : List Touch) :
    (s.answers (before ++ t :: later))[before.length]? = some ((s.touched before).touch t).2 := by
  induction before generalizing s with
  | nil => rfl
  | cons first before ih => simpa [answers, touched] using ih (s.touch first).1

/-- On a screen that began blank a pixel is on exactly if an odd number of toggles has
reached it since the last clear, each toggle is answered by the pixel as it stood, and the
screen is blank exactly if all these numbers are even.  Screens are equal exactly if all of
their pixels are. -/
theorem pixels_are_parities (touches : List Touch) :
    let s := blank.touched touches
    (∀ u v, s.get u v = true ↔ flipCount touches u v % 2 = 1) ∧
    (∀ x y later, (blank.answers (touches ++ .toggle x y :: later))[touches.length]? =
      some (some (s.get x y))) ∧
    (s.isBlank = true ↔ ∀ u v, flipCount touches u v % 2 = 0) ∧
    ∀ t t' : Screen, (t == t') = true ↔ ∀ u v, t.get u v = t'.get u v := by
  intro s
  refine ⟨fun u v => ?_, fun x y later => ?_, ?_, fun t t' => ?_⟩
  · rw [get_touched, decide_eq_true_iff]
  · exact getElem?_answers blank touches (.toggle x y) later
  · simp only [s, isBlank_iff, get_touched, decide_eq_false_iff_not, Nat.mod_two_ne_one]
  · rw [beq_iff_eq]
    constructor
    · rintro rfl u v
      rfl
    · exact ext_get

end Chip8VM.Screen
