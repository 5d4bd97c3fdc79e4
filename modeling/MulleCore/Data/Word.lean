import Mathlib.Algebra.Order.Ring.Nat

/-!
The arithmetic of `size_t` and `uintptr_t` with 64 bits.
-/

namespace MulleCore

variable {left right a b : Nat}

def wordAdd (left right : Nat) : Nat := (left + right) % 2 ^ 64

def wordSub (left right : Nat) : Nat :=
  if right ≤ left then left - right else 2 ^ 64 - (right - left)

def allocatorSizeMultiply (a b : Nat) : Option Nat :=
  if a ≠ 0 ∧ b > (2 ^ 64 - 1) / a then none else some (a * b)

theorem wordAdd_eq (fits : left + right < 2 ^ 64) : wordAdd left right = left + right :=
  Nat.mod_eq_of_lt fits

theorem wordSub_eq (ordered : right ≤ left) : wordSub left right = left - right :=
  if_pos ordered

theorem dvd_wordAdd {unit : Nat} (left right : Nat) (divides : unit ∣ 2 ^ 64) :
    unit ∣ wordAdd left right ↔ unit ∣ left + right :=
  Nat.dvd_mod_iff divides

theorem allocatorSizeMultiply_some (bound : a * b < 2 ^ 64) :
    allocatorSizeMultiply a b = some (a * b) := by
  rw [allocatorSizeMultiply, if_neg]
  rintro ⟨nonzero, above⟩
  have quotient : b ≤ (2 ^ 64 - 1) / a := by
    rw [Nat.le_div_iff_mul_le (Nat.pos_of_ne_zero nonzero), Nat.mul_comm]
    omega
  omega

theorem allocatorSizeMultiply_none (bound : 2 ^ 64 ≤ a * b) :
    allocatorSizeMultiply a b = none := by
  have nonzero : 0 < a := Nat.pos_of_mul_pos_right (Nat.lt_of_lt_of_le (by decide) bound)
  rw [allocatorSizeMultiply, if_pos]
  refine ⟨nonzero.ne', ?_⟩
  rw [gt_iff_lt, Nat.div_lt_iff_lt_mul nonzero, Nat.mul_comm]
  omega

end MulleCore
