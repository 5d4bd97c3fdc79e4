import Mathlib.Algebra.Order.Ring.Nat

/-!
`intptr_t` as an `Int64`, and its conversions.
-/

namespace MulleCore

/-- The value of an expression; where it overflows there is none. -/
def intptrOf (value : Int) : Option Int64 :=
  if Int64.minValue.toInt ≤ value ∧ value ≤ Int64.maxValue.toInt then
    some (Int64.ofInt value) else none

theorem toUInt64_toNat_int (delta : Int64) :
    (delta.toUInt64.toNat : Int) = if delta.toInt < 0 then delta.toInt + 2 ^ 64 else delta.toInt := by
  have bits : delta.toInt = delta.toBitVec.toInt := rfl
  have nat : delta.toUInt64.toNat = delta.toBitVec.toNat := rfl
  have bound := delta.toBitVec.isLt
  rw [bits, nat, BitVec.toInt_eq_toNat_cond]
  split <;> split <;> omega

theorem add_delta_toNat (word : UInt64) (delta : Int64) (lower : 0 ≤ (word.toNat : Int) + delta.toInt)
    (upper : (word.toNat : Int) + delta.toInt < 2 ^ 64) :
    ((word + delta.toUInt64).toNat : Int) = word.toNat + delta.toInt := by
  have converted := toUInt64_toNat_int delta
  have bound := word.toNat_lt
  have deltaBound := delta.toUInt64.toNat_lt
  rw [UInt64.toNat_add]
  split at converted <;> omega

theorem toInt64_toInt (word : UInt64) :
    word.toInt64.toInt = if word.toNat < 2 ^ 63 then (word.toNat : Int) else word.toNat - 2 ^ 64 := by
  have bits : word.toInt64.toInt = word.toBitVec.toInt := rfl
  have nat : word.toNat = word.toBitVec.toNat := rfl
  rw [bits, nat, BitVec.toInt_eq_toNat_cond]
  split <;> split <;> omega

theorem int64_bounds (delta : Int64) : -2 ^ 63 ≤ delta.toInt ∧ delta.toInt < 2 ^ 63 :=
  ⟨delta.le_toInt, delta.toInt_lt⟩

theorem int64_neg_iff (delta : Int64) : delta < 0 ↔ delta.toInt < 0 := by
  rw [Int64.lt_iff_toInt_lt]
  rfl

theorem neg_toUInt64_toNat (value : Int64) (negative : value.toInt < 0) :
    ((-value).toUInt64.toNat : Int) = -value.toInt := by
  have converted := toUInt64_toNat_int value
  have bound := value.toUInt64.toNat_lt
  have negated : (-value).toUInt64 = -value.toUInt64 := rfl
  have size : UInt64.size = 2 ^ 64 := rfl
  rw [if_pos negative] at converted
  rw [negated, UInt64.toNat_neg, size]
  have bounds := int64_bounds value
  omega

theorem intptrOf_some {value : Int} (lower : -2 ^ 63 ≤ value) (upper : value < 2 ^ 63) :
    ∃ word, intptrOf value = some word ∧ word.toInt = value := by
  have least : Int64.minValue.toInt = -2 ^ 63 := rfl
  have greatest : Int64.maxValue.toInt = 2 ^ 63 - 1 := rfl
  refine ⟨Int64.ofInt value, ?_, Int64.toInt_ofInt_of_le lower upper⟩
  rw [intptrOf, if_pos]
  constructor <;> omega

end MulleCore
