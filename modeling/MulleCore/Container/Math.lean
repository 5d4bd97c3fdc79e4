import Mathlib.Algebra.Ring.Nat
import Mathlib.Data.Nat.Bitwise
import Mathlib.Data.Nat.Size

/-!
`mulle-container-math.h`. Sizes are natural numbers here: a container that was
allocated is far smaller than what `size_t` can count. `pow2roundup64` is for sizes
that are asked for, which may be anything.
-/

namespace MulleCore

variable {v : Nat}

def pow2smear (v : Nat) : Nat :=
  let v := v ||| v >>> 1
  let v := v ||| v >>> 2
  let v := v ||| v >>> 4
  let v := v ||| v >>> 8
  let v := v ||| v >>> 16
  v ||| v >>> 32

def pow2roundup (v : Nat) : Nat :=
  if v = 0 then 1 else pow2smear (v - 1) + 1

def pow2smear64 (v : UInt64) : UInt64 :=
  let v := v ||| v >>> 1
  let v := v ||| v >>> 2
  let v := v ||| v >>> 4
  let v := v ||| v >>> 8
  let v := v ||| v >>> 16
  v ||| v >>> 32

def pow2roundup64 (v : UInt64) : UInt64 :=
  if pow2smear64 (v - 1) + 1 ≠ 0 then pow2smear64 (v - 1) + 1 else 1

theorem le_pow2smear (v : Nat) : v ≤ pow2smear v := by
  have step : ∀ value shift : Nat, value ≤ value ||| value >>> shift :=
    fun value shift => Nat.left_le_or
  unfold pow2smear
  exact (step v 1).trans ((step _ 2).trans ((step _ 4).trans
    ((step _ 8).trans ((step _ 16).trans (step _ 32)))))

theorem le_pow2roundup (v : Nat) : v ≤ pow2roundup v := by
  have smeared := le_pow2smear (v - 1)
  rw [pow2roundup]
  split <;> omega

theorem pow2roundup_pos (v : Nat) : 0 < pow2roundup v := by
  rw [pow2roundup]
  split <;> omega

def Smears (v width smeared : Nat) : Prop :=
  ∀ index, smeared.testBit index = true ↔ ∃ step, step < width ∧ v.testBit (index + step) = true

theorem Smears.double {width smeared : Nat} (smears : Smears v width smeared) :
    Smears v (width + width) (smeared ||| smeared >>> width) := by
  intro index
  rw [Nat.testBit_or, Nat.testBit_shiftRight, Bool.or_eq_true, smears index, smears (width + index)]
  constructor
  · rintro (⟨step, below, set⟩ | ⟨step, below, set⟩)
    · exact ⟨step, by omega, set⟩
    · refine ⟨width + step, by omega, ?_⟩
      rwa [← Nat.add_assoc, Nat.add_comm index width]
  · rintro ⟨step, below, set⟩
    by_cases near : step < width
    · exact Or.inl ⟨step, near, set⟩
    · refine Or.inr ⟨step - width, by omega, ?_⟩
      rwa [Nat.add_comm width index, Nat.add_assoc, Nat.add_sub_cancel' (by omega)]

theorem pow2smear_smears (v : Nat) : Smears v 64 (pow2smear v) := by
  have once : Smears v 1 v := by
    intro index
    constructor
    · exact fun set => ⟨0, by omega, set⟩
    · rintro ⟨step, below, set⟩
      rwa [Nat.lt_one_iff.mp below] at set
  exact once.double.double.double.double.double.double

theorem pow2smear_eq (bound : v < 2 ^ 64) : pow2smear v + 1 = 2 ^ v.size := by
  have smears := pow2smear_smears v
  have ones : pow2smear v = 2 ^ v.size - 1 := by
    refine Nat.eq_of_testBit_eq fun index => ?_
    rw [Nat.testBit_two_pow_sub_one, Bool.eq_iff_iff, smears index, decide_eq_true_iff, Nat.lt_size]
    constructor
    · rintro ⟨step, -, set⟩
      exact (Nat.pow_le_pow_right (by decide) (Nat.le_add_right index step)).trans
        (Nat.ge_two_pow_of_testBit set)
    · -- the highest set bit is the witness
      intro large
      have positive : v ≠ 0 := by
        have power : 0 < 2 ^ index := Nat.two_pow_pos index
        omega
      have reaches : index ≤ v.log2 := (Nat.le_log2 positive).mpr large
      have short : v.log2 < 64 := (Nat.log2_lt positive).mpr bound
      refine ⟨v.log2 - index, by omega, ?_⟩
      rw [Nat.add_sub_cancel' reaches]
      exact Nat.testBit_log2 positive
  have power : 0 < 2 ^ v.size := Nat.two_pow_pos v.size
  omega

theorem pow2roundup_lt_double (positive : 0 < v) (bound : v ≤ 2 ^ 64) :
    pow2roundup v < 2 * v := by
  rw [pow2roundup, if_neg (Nat.ne_of_gt positive), pow2smear_eq (by omega)]
  cases less : v - 1 with
  | zero =>
    rw [Nat.size_zero]
    omega
  | succ rest =>
    have sizePositive : 0 < (rest + 1).size := Nat.size_pos.mpr (Nat.succ_pos rest)
    have half : 2 ^ ((rest + 1).size - 1) ≤ rest + 1 := Nat.lt_size.mp (by omega)
    have doubled : 2 ^ (rest + 1).size = 2 * 2 ^ ((rest + 1).size - 1) := by
      rw [← Nat.pow_succ', Nat.succ_eq_add_one, Nat.sub_add_cancel sizePositive]
    omega

theorem pow2roundup_two_pow (bound : v ≤ 2 ^ 64) : ∃ power, pow2roundup v = 2 ^ power := by
  unfold pow2roundup
  split
  · exact ⟨0, rfl⟩
  · exact ⟨(v - 1).size, pow2smear_eq (by omega)⟩

theorem pow2roundup64_toNat {v : UInt64} (positive : 0 < v.toNat) (bound : v.toNat ≤ 2 ^ 63) :
    (pow2roundup64 v).toNat = pow2roundup v.toNat := by
  have less : (v - 1).toNat = v.toNat - 1 := by
    rw [UInt64.toNat_sub_of_le]
    · rfl
    · rw [UInt64.le_iff_toNat_le]
      exact positive
  have smeared := @pow2smear_eq (v.toNat - 1) (by omega)
  have short : (v.toNat - 1).size ≤ 63 := Nat.size_le.mpr (by omega)
  have small : 2 ^ (v.toNat - 1).size ≤ 2 ^ 63 := Nat.pow_le_pow_right (by decide) short
  have word : (pow2smear64 (v - 1)).toNat = pow2smear (v.toNat - 1) := by
    rw [← less]
    simp only [pow2smear64, pow2smear, UInt64.toNat_or, UInt64.toNat_shiftRight,
      UInt64.reduceToNat, Nat.reduceMod]
  have next : (pow2smear64 (v - 1) + 1).toNat = pow2smear (v.toNat - 1) + 1 := by
    rw [UInt64.toNat_add, word, UInt64.toNat_one, Nat.mod_eq_of_lt (by omega)]
  have nonzero : pow2smear64 (v - 1) + 1 ≠ 0 := by
    intro zero
    rw [zero, UInt64.toNat_zero] at next
    omega
  rw [pow2roundup64, if_pos nonzero, next, pow2roundup, if_neg (by omega)]

theorem pow2roundup64_quarter {capacity : UInt64} (large : capacity ≥ 4)
    (bound : capacity.toNat + capacity.toNat / 4 ≤ 2 ^ 63) :
    ∃ power, (pow2roundup64 (capacity + capacity >>> 2)).toNat = 2 ^ (power + 2) := by
  have atLeast : 4 ≤ capacity.toNat := UInt64.le_iff_toNat_le.mp large
  have shifted : (capacity >>> 2).toNat = capacity.toNat / 4 := by
    rw [UInt64.toNat_shiftRight, Nat.shiftRight_eq_div_pow]
    rfl
  have total : (capacity + capacity >>> 2).toNat = capacity.toNat + capacity.toNat / 4 := by
    rw [UInt64.toNat_add, shifted, Nat.mod_eq_of_lt (by omega)]
  rw [pow2roundup64_toNat (by omega) (by omega), total]
  obtain ⟨power, rounded⟩ := @pow2roundup_two_pow (capacity.toNat + capacity.toNat / 4) (by omega)
  have grows := le_pow2roundup (capacity.toNat + capacity.toNat / 4)
  rw [rounded] at grows ⊢
  obtain ⟨lower, rfl⟩ : ∃ lower, power = lower + 2 := by
    refine ⟨power - 2, ?_⟩
    by_contra low
    have small : power = 0 ∨ power = 1 := by omega
    rcases small with rfl | rfl
    · omega
    · omega
  exact ⟨lower, rfl⟩

structure StructType where
  sizeof : Nat
  alignof : Nat
  sized : 0 < sizeof
  aligned : 0 < alignof

theorem le_alignedSize (sizeofStruct : Nat) {alignofStruct : Nat} (aligned : 0 < alignofStruct) :
    sizeofStruct ≤ (sizeofStruct + alignofStruct - 1) / alignofStruct * alignofStruct := by
  have remains := Nat.mod_lt (sizeofStruct + alignofStruct - 1) aligned
  have parts := Nat.div_add_mod' (sizeofStruct + alignofStruct - 1) alignofStruct
  omega

end MulleCore
