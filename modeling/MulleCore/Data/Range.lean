import Mathlib.Algebra.Ring.Nat
import Mathlib.Data.Set.Lattice
import MulleCore.Library.Intervals

/-!
`struct mulle_range` and the operations of `mulle-range.h` and `mulle-range.c`
that the range containers use. `uintptr_t` is 64 bits wide.
-/

namespace MulleCore

variable {range : Range} {location length : UInt64}

structure Range where
  location : UInt64
  length : UInt64
deriving DecidableEq

def notFound : UInt64 := 0x7fffffffffffffff

def rangeLocationMax : UInt64 := notFound - 1

def rangeZero : Range := ⟨0, 0⟩

def rangeMake (location length : UInt64) : Range := ⟨location, length⟩

def rangeEquals (range other : Range) : Bool :=
  range.location == other.location && range.length == other.length

def rangeIsValid (range : Range) : Bool :=
  if range.location > rangeLocationMax then false
  else if range.length = 0 then true
  else
    let stop := range.location + range.length
    decide (stop > range.location) && decide (stop ≤ rangeLocationMax + 1)

def rangeGetMax (range : Range) : UInt64 :=
  range.location + range.length

def rangeContainsLocation (range : Range) (location : UInt64) : Bool :=
  decide (location - range.location < range.length)

def rangeContains (big small : Range) : Bool :=
  if !rangeContainsLocation big small.location then false
  else if small.length = 0 then true
  else rangeContainsLocation big (rangeGetMax small - 1)

def rangeIntersection (range other : Range) : Range :=
  let end1 := rangeGetMax range
  let end2 := rangeGetMax other
  let least := if end1 < end2 then end1 else end2
  let location := if range.location > other.location then range.location else other.location
  if least < location then rangeZero
  else ⟨location, least - location⟩

def rangeMakeInvalid : Range := ⟨notFound, 0⟩

/-- A length of `-1` means all that follow the location. -/
def rangeValidateAgainstLength (range : Range) (length : UInt64) : Range :=
  let range :=
    if range.length = 0xffffffffffffffff then rangeMake range.location (length - range.location)
    else range
  let stop := range.location + range.length
  if stop > length ∨ stop < range.location then rangeMakeInvalid else range

/-! The locations of a range, as natural numbers. -/

def Range.start (range : Range) : Nat := range.location.toNat

def Range.stop (range : Range) : Nat := range.location.toNat + range.length.toNat

def Range.locations (range : Range) : Set Nat :=
  Set.Ico range.start range.stop

def Range.Proper (range : Range) : Prop :=
  0 < range.length.toNat ∧ range.stop ≤ notFound.toNat

instance (range : Range) : Decidable range.Proper := by
  unfold Range.Proper
  infer_instance

abbrev Range.Meets (range other : Range) : Prop :=
  Library.Meets Range.start Range.stop range other

instance (entry range : Range) : Decidable (entry.Meets range) := by
  unfold Range.Meets Library.Meets
  infer_instance

theorem notFound_toNat : notFound.toNat = 2 ^ 63 - 1 := rfl

theorem length_eq_zero_iff (range : Range) : range.length = 0 ↔ range.length.toNat = 0 := by
  rw [← UInt64.toNat_inj]
  rfl

theorem range_proper_iff (range : Range) :
    range.Proper ↔ range.length ≠ 0 ∧ rangeIsValid range = true := by
  have locationBound := range.location.toNat_lt
  have lengthBound := range.length.toNat_lt
  have locationMax : rangeLocationMax.toNat = 2 ^ 63 - 2 := rfl
  have stopMax : (rangeLocationMax + 1).toNat = 2 ^ 63 - 1 := rfl
  rw [Range.Proper, Range.stop, notFound_toNat, ne_eq, length_eq_zero_iff, rangeIsValid]
  split
  · rename_i above
    rw [gt_iff_lt, UInt64.lt_iff_toNat_lt] at above
    simp
    omega
  · rename_i within
    rw [gt_iff_lt, UInt64.lt_iff_toNat_lt] at within
    split
    · rename_i empty
      rw [length_eq_zero_iff] at empty
      simp
      omega
    · simp only [gt_iff_lt, UInt64.lt_iff_toNat_lt, UInt64.le_iff_toNat_le, stopMax,
        Bool.and_eq_true, decide_eq_true_eq]
      rw [UInt64.toNat_add]
      omega

theorem Range.Proper.getMax_toNat (proper : range.Proper) :
    (rangeGetMax range).toNat = range.stop := by
  have stopBound := proper.2
  rw [notFound_toNat, Range.stop] at stopBound
  rw [rangeGetMax, UInt64.toNat_add, Range.stop, Nat.mod_eq_of_lt (by omega)]

theorem Range.Proper.start_lt_stop (proper : range.Proper) :
    range.start < range.stop := by
  have nonempty := proper.1
  rw [Range.start, Range.stop]
  omega

theorem Range.stop_mk_sub {final : UInt64} (ordered : location.toNat ≤ final.toNat) :
    Range.stop ⟨location, final - location⟩ = final.toNat := by
  simp only [Range.stop]
  rw [UInt64.toNat_sub_of_le _ _ (UInt64.le_iff_toNat_le.mpr ordered)]
  omega

theorem Range.stop_mk_add {more : UInt64}
    (fits : location.toNat + (length.toNat + more.toNat) < 2 ^ 64) :
    Range.stop ⟨location, length + more⟩ = location.toNat + (length.toNat + more.toNat) := by
  simp only [Range.stop]
  rw [UInt64.toNat_add, Nat.mod_eq_of_lt (by omega)]

theorem Range.proper_of_ends (nonempty : range.start < range.stop)
    (within : range.stop ≤ notFound.toNat) : range.Proper := by
  refine ⟨?_, within⟩
  rw [Range.start, Range.stop] at nonempty
  omega

theorem toNat_least (left right : UInt64) :
    (if left < right then left else right).toNat = min left.toNat right.toNat := by
  split <;> rename_i order <;> rw [UInt64.lt_iff_toNat_lt] at order <;> omega

theorem toNat_greatest (left right : UInt64) :
    (if left > right then left else right).toNat = max left.toNat right.toNat := by
  split <;> rename_i order <;> rw [gt_iff_lt, UInt64.lt_iff_toNat_lt] at order <;> omega

theorem rangeIntersection_length_ne_zero {other : Range} (proper : range.Proper)
    (otherProper : other.Proper) :
    (rangeIntersection range other).length ≠ 0 ↔ range.Meets other := by
  have nonempty := proper.start_lt_stop
  have otherNonempty := otherProper.start_lt_stop
  have least := toNat_least (rangeGetMax range) (rangeGetMax other)
  have greatest := toNat_greatest range.location other.location
  rw [proper.getMax_toNat, otherProper.getMax_toNat] at least
  change _ = max range.start other.start at greatest
  rw [Range.Meets, Library.Meets, rangeIntersection, ne_eq, length_eq_zero_iff]
  generalize (if rangeGetMax range < rangeGetMax other then rangeGetMax range
    else rangeGetMax other) = leastStop at least ⊢
  generalize (if range.location > other.location then range.location
    else other.location) = greatestStart at greatest ⊢
  split
  · rename_i crossed
    rw [UInt64.lt_iff_toNat_lt] at crossed
    have zero : rangeZero.length.toNat = 0 := rfl
    omega
  · rename_i ordered
    rw [UInt64.lt_iff_toNat_lt] at ordered
    rw [UInt64.toNat_sub_of_le _ _ (UInt64.le_iff_toNat_le.mpr (by omega))]
    omega

theorem rangeValidateAgainstLength_stop (small : range.stop < 2 ^ 64 - 1) :
    rangeValidateAgainstLength range length = if range.stop ≤ length.toNat then
      range else rangeMakeInvalid := by
  rw [Range.stop] at small ⊢
  have added : (range.location + range.length).toNat = range.location.toNat + range.length.toNat := by
    rw [UInt64.toNat_add, Nat.mod_eq_of_lt (by omega)]
  have notAll : range.length ≠ 0xffffffffffffffff := by
    intro all
    have large : (0xffffffffffffffff : UInt64).toNat = 2 ^ 64 - 1 := rfl
    rw [all, large] at small
    omega
  rw [rangeValidateAgainstLength, if_neg notAll]
  simp only [gt_iff_lt, UInt64.lt_iff_toNat_lt, added]
  split <;> split <;> first | rfl | omega

theorem rangeValidateAgainstLength_empty (empty : range.length = 0) :
    (rangeValidateAgainstLength range length).length = 0 := by
  have notAll : range.length ≠ 0xffffffffffffffff := by
    rw [empty]
    decide
  rw [rangeValidateAgainstLength, if_neg notAll]
  split
  · rfl
  · exact empty

theorem rangeValidateAgainstLength_inside (range : Range) (length : UInt64)
    (nonempty : (rangeValidateAgainstLength range length).length ≠ 0) :
    (rangeValidateAgainstLength range length).stop ≤ length.toNat := by
  unfold rangeValidateAgainstLength at nonempty ⊢
  generalize (if range.length = 0xffffffffffffffff then
    rangeMake range.location (length - range.location) else range) = whole at nonempty ⊢
  dsimp only at nonempty ⊢
  split at nonempty
  · exact absurd rfl nonempty
  · rename_i within
    rw [if_neg within]
    rw [not_or, gt_iff_lt, UInt64.lt_iff_toNat_lt, UInt64.lt_iff_toNat_lt, UInt64.toNat_add] at within
    have locationBound := whole.location.toNat_lt
    have lengthBound := whole.length.toNat_lt
    rw [Range.stop]
    omega

theorem rangeContainsLocation_iff (proper : range.Proper) (location : UInt64) :
    rangeContainsLocation range location = true ↔
      range.start ≤ location.toNat ∧ location.toNat < range.stop := by
  have stopBound := proper.2
  have locationBound := location.toNat_lt
  rw [notFound_toNat, Range.stop] at stopBound
  rw [rangeContainsLocation, decide_eq_true_eq, UInt64.lt_iff_toNat_lt, UInt64.toNat_sub,
    Range.start, Range.stop]
  omega

/-- For proper ranges this is containment. -/
theorem rangeContains_iff {big small : Range} (bigProper : big.Proper)
    (smallProper : small.Proper) :
    rangeContains big small = true ↔ big.start ≤ small.start ∧ small.stop ≤ big.stop := by
  have smallMax := smallProper.getMax_toNat
  have nonempty := smallProper.start_lt_stop
  have lastLocation : (rangeGetMax small - 1).toNat = small.stop - 1 := by
    rw [UInt64.toNat_sub_of_le, smallMax]
    · rfl
    · rw [UInt64.le_iff_toNat_le, smallMax]
      change 1 ≤ _
      omega
  have notEmpty : small.length ≠ 0 := ((range_proper_iff small).mp smallProper).1
  rw [rangeContains, if_neg notEmpty]
  have first := rangeContainsLocation_iff bigProper small.location
  have final := rangeContainsLocation_iff bigProper (rangeGetMax small - 1)
  rw [lastLocation] at final
  change _ ↔ big.start ≤ small.start ∧ small.start < big.stop at first
  split
  · rename_i outside
    rw [Bool.not_eq_true', ← Bool.not_eq_true, first] at outside
    simp only [Bool.false_eq_true, false_iff]
    omega
  · rename_i inside
    rw [Bool.not_eq_true', Bool.not_eq_false, first] at inside
    rw [final]
    omega

end MulleCore
