import Mathlib.Algebra.Order.Field.Rat
import Mathlib.Algebra.Ring.Parity
import Mathlib.Tactic.Linarith
import Mathlib.Tactic.Ring
import Mathlib.Tactic.Push

/-!
Rounding to a multiple of a unit, to the even one in the middle between two.
-/

namespace Library

def RoundsHalfEven (unit value rounded : ℚ) : Prop :=
  ∃ count : ℤ, rounded = count * unit ∧ 2 * |value - rounded| ≤ unit ∧
    (2 * |value - rounded| = unit → Even count)

def roundHalfEven (n d : Nat) : Nat :=
  if 2 * (n % d) > d ∨ 2 * (n % d) = d ∧ n / d % 2 = 1 then n / d + 1 else n / d

section Rounds

variable {unit value rounded other : ℚ}

theorem RoundsHalfEven.exact (positive : 0 < unit) (count : ℤ) :
    RoundsHalfEven unit (count * unit) (count * unit) := by
  have same : |(count : ℚ) * unit - count * unit| = 0 := by simp
  refine ⟨count, rfl, by linarith, fun half => ?_⟩
  rw [same] at half
  linarith

theorem RoundsHalfEven.le (positive : 0 < unit) (rounds : RoundsHalfEven unit value rounded)
    (others : RoundsHalfEven unit value other) : other ≤ rounded := by
  obtain ⟨count, rfl, near, even⟩ := rounds
  obtain ⟨otherCount, rfl, otherNear, otherEven⟩ := others
  by_contra less
  rw [not_le] at less
  have counts : count + 1 ≤ otherCount := by
    have less : (count : ℚ) < otherCount := lt_of_mul_lt_mul_right less positive.le
    exact_mod_cast less
  have upper := le_abs_self (value - count * unit)
  have lower := neg_abs_le (value - otherCount * unit)
  have next : otherCount = count + 1 := by
    have step : ((otherCount : ℚ) - count) * unit ≤ 1 * unit := by linarith
    have close : (otherCount : ℚ) - count ≤ 1 := le_of_mul_le_mul_right step positive
    have close : otherCount - count ≤ 1 := by exact_mod_cast close
    omega
  subst next
  push_cast at lower otherNear otherEven
  have half : 2 * |value - count * unit| = unit := by linarith
  have otherHalf : 2 * |value - (count + 1) * unit| = unit := by linarith
  have parity := even half
  have otherParity := otherEven otherHalf
  rw [Int.even_add_one] at otherParity
  exact otherParity parity

theorem RoundsHalfEven.unique (positive : 0 < unit) (rounds : RoundsHalfEven unit value rounded)
    (others : RoundsHalfEven unit value other) : rounded = other :=
  le_antisymm (others.le positive rounds) (rounds.le positive others)

/-- `roundHalfEven` takes the nearest multiple, and of two as near the even one. -/
theorem roundHalfEven_rounds (n d : Nat) (unit : ℚ) (divisible : 0 < d) (positive : 0 < unit) :
    RoundsHalfEven (d * unit) (n * unit) (roundHalfEven n d * (d * unit)) := by
  have parts : (n : ℚ) = d * (n / d : Nat) + (n % d : Nat) := by
    exact_mod_cast (Nat.div_add_mod n d).symm
  have rest : n % d < d := Nat.mod_lt n divisible
  rw [roundHalfEven]
  split
  · rename_i up
    have above : (n : ℚ) * unit -
        (n / d + 1 : Nat) * (d * unit) = -(((d - n % d : Nat) : ℚ) * unit) := by
      rw [Nat.cast_sub rest.le, parts]
      push_cast
      ring
    have magnitude : |(n : ℚ) * unit - (n / d + 1 : Nat) * (d * unit)| =
        (d - n % d : Nat) * unit := by
      rw [above, abs_neg, abs_of_nonneg (by positivity)]
    refine ⟨(n / d + 1 : Nat), rfl, ?_, fun half => ?_⟩
    · have less : ((2 * (d - n % d) : Nat) : ℚ) ≤ d := by
        exact_mod_cast (by omega : 2 * (d - n % d) ≤ d)
      push_cast at less
      rw [magnitude, ← mul_assoc]
      exact mul_le_mul_of_nonneg_right less positive.le
    · rw [magnitude, ← mul_assoc] at half
      have equal := mul_right_cancel₀ positive.ne' half
      have equal : 2 * (d - n % d) = d := by exact_mod_cast equal
      have odd : n / d % 2 = 1 := by omega
      rw [Int.even_coe_nat, Nat.even_iff]
      omega
  · rename_i down
    have below : (n : ℚ) * unit - (n / d : Nat) * (d * unit) = (n % d : Nat) * unit := by
      rw [parts]
      ring
    have magnitude : |(n : ℚ) * unit - (n / d : Nat) * (d * unit)| = (n % d : Nat) * unit := by
      rw [below, abs_of_nonneg (by positivity)]
    refine ⟨(n / d : Nat), rfl, ?_, fun half => ?_⟩
    · have less : ((2 * (n % d) : Nat) : ℚ) ≤ d := by exact_mod_cast (by omega : 2 * (n % d) ≤ d)
      push_cast at less
      rw [magnitude, ← mul_assoc]
      exact mul_le_mul_of_nonneg_right less positive.le
    · rw [magnitude, ← mul_assoc] at half
      have equal := mul_right_cancel₀ positive.ne' half
      have equal : 2 * (n % d) = d := by exact_mod_cast equal
      have notOdd : ¬ n / d % 2 = 1 := by omega
      rw [Int.even_coe_nat, Nat.even_iff]
      omega

theorem roundHalfEven_one (n : Nat) : roundHalfEven n 1 = n := by
  rw [roundHalfEven, Nat.mod_one, if_neg (by omega), Nat.div_one]

end Rounds

end Library
