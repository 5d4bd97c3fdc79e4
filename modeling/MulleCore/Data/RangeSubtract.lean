import Mathlib.Order.Interval.Set.Disjoint
import MulleCore.Data.RangeLocations

/-!
`mulle_range_subtract`, `mulle_range_intersection` and `mulle_range_intersects` for all valid
ranges, empty ones among them.
-/

namespace MulleCore

def rangeSubtract (a b : Range) : Range × Range :=
  if (rangeIntersection a b).length = 0 then (a, rangeZero)
  else
    let aEnd := rangeGetMax a
    let bEnd := rangeGetMax b
    if b.location ≤ a.location ∧ bEnd ≥ aEnd then (rangeZero, rangeZero)
    else if a.location < b.location ∧ aEnd > bEnd then
      (rangeMake a.location (b.location - a.location), rangeMake bEnd (aEnd - bEnd))
    else if aEnd > bEnd then (rangeZero, rangeMake bEnd (aEnd - bEnd))
    else (rangeMake a.location (b.location - a.location), rangeZero)

structure Range.Valid (range : Range) : Prop where
  starts : range.start < notFound.toNat
  stops : range.stop ≤ notFound.toNat

section Subtract

variable {a b range : Range}

theorem rangeIsValid_iff : rangeIsValid range = true ↔ range.Valid := by
  by_cases empty : range.length = 0
  · have stop : range.stop = range.start := by rw [Range.stop, empty]; rfl
    have most : rangeLocationMax.toNat = 2 ^ 63 - 2 := rfl
    rw [rangeIsValid, if_pos empty]
    constructor
    · intro valid
      split at valid
      · contradiction
      · rename_i within
        rw [gt_iff_lt, UInt64.lt_iff_toNat_lt, most] at within
        constructor
        · rw [Range.start, notFound_toNat]
          omega
        · rw [stop, Range.start, notFound_toNat]
          omega
    · intro valid
      have starts := valid.starts
      rw [Range.start, notFound_toNat] at starts
      rw [if_neg]
      rw [gt_iff_lt, UInt64.lt_iff_toNat_lt, most]
      omega
  · have nonempty := Nat.pos_of_ne_zero (mt (length_eq_zero_iff range).mpr empty)
    constructor
    · intro valid
      have proper := (range_proper_iff range).mpr ⟨empty, valid⟩
      exact ⟨Nat.lt_of_lt_of_le proper.start_lt_stop proper.2, proper.2⟩
    · intro valid
      exact ((range_proper_iff range).mp ⟨nonempty, valid.stops⟩).2

theorem Range.start_le_stop (range : Range) : range.start ≤ range.stop := Nat.le_add_right _ _

theorem Range.Valid.getMax_toNat (valid : range.Valid) : (rangeGetMax range).toNat = range.stop := by
  have stops := valid.stops
  rw [notFound_toNat, Range.stop] at stops
  rw [rangeGetMax, UInt64.toNat_add, Range.stop, Nat.mod_eq_of_lt (by omega)]

theorem rangeZero_valid : rangeZero.Valid := by constructor <;> decide

@[simp] theorem rangeZero_locations : rangeZero.locations = ∅ := Set.Ico_self 0

theorem rangeMake_between {first second : UInt64} (ordered : first.toNat < second.toNat)
    (within : second.toNat ≤ notFound.toNat) :
    (rangeMake first (second - first)).Valid ∧
      (rangeMake first (second - first)).locations = Set.Ico first.toNat second.toNat := by
  have stop := Range.stop_mk_sub (Nat.le_of_lt ordered)
  constructor
  · constructor
    · exact Nat.lt_of_lt_of_le ordered within
    · exact stop.symm ▸ within
  · rw [Range.locations, rangeMake, stop]
    rfl

section Pair

variable (aValid : a.Valid) (bValid : b.Valid)

include aValid bValid

theorem rangeIntersects_iff_ends :
    rangeIntersects a b = true ↔ max a.start b.start < min a.stop b.stop := by
  have least := toNat_least (rangeGetMax a) (rangeGetMax b)
  have greatest := toNat_greatest a.location b.location
  rw [aValid.getMax_toNat, bValid.getMax_toNat] at least
  rw [rangeIntersects, decide_eq_true_eq, gt_iff_lt, UInt64.lt_iff_toNat_lt, least, greatest]
  rfl

theorem rangeIntersection_ends :
    (rangeIntersection a b).Valid ∧
      (rangeIntersection a b).locations = Set.Ico (max a.start b.start) (min a.stop b.stop) ∧
      ((rangeIntersection a b).length = 0 ↔ min a.stop b.stop ≤ max a.start b.start) := by
  have aStarts := aValid.starts
  have bStarts := bValid.starts
  have aStops := aValid.stops
  have least := toNat_least (rangeGetMax a) (rangeGetMax b)
  have greatest := toNat_greatest a.location b.location
  rw [aValid.getMax_toNat, bValid.getMax_toNat] at least
  change _ = max a.start b.start at greatest
  rw [rangeIntersection]
  generalize (if rangeGetMax a < rangeGetMax b then rangeGetMax a else rangeGetMax b) =
    leastStop at least ⊢
  generalize (if a.location > b.location then a.location else b.location) =
    greatestStart at greatest ⊢
  rw [← least, ← greatest]
  split
  · rename_i crossed
    rw [UInt64.lt_iff_toNat_lt] at crossed
    refine ⟨rangeZero_valid, ?_, ?_⟩
    · rw [rangeZero_locations, Set.Ico_eq_empty (by omega)]
    · simp only [rangeZero, true_iff]
      omega
  · rename_i ordered
    rw [UInt64.lt_iff_toNat_lt] at ordered
    have stop := Range.stop_mk_sub (Nat.le_of_not_lt ordered)
    refine ⟨⟨?_, ?_⟩, ?_, ?_⟩
    · change greatestStart.toNat < _
      omega
    · rw [stop]
      omega
    · rw [Range.locations, stop]
      rfl
    · rw [length_eq_zero_iff, UInt64.toNat_sub_of_le _ _ (UInt64.le_iff_toNat_le.mpr (by omega))]
      omega

theorem rangeSubtract_ends (meets : max a.start b.start < min a.stop b.stop) :
    (rangeSubtract a b).1.Valid ∧ (rangeSubtract a b).2.Valid ∧
      (rangeSubtract a b).1.locations = Set.Ico a.start b.start ∧
      (rangeSubtract a b).2.locations = Set.Ico b.stop a.stop := by
  obtain ⟨_, _, separate⟩ := rangeIntersection_ends aValid bValid
  have aMax := aValid.getMax_toNat
  have bMax := bValid.getMax_toNat
  have aStops := aValid.stops
  have bStarts := bValid.starts
  have aStart : a.location.toNat = a.start := rfl
  have bStart : b.location.toNat = b.start := rfl
  rw [rangeSubtract, if_neg (mt separate.mp (by omega))]
  simp only [ge_iff_le, gt_iff_lt, UInt64.le_iff_toNat_le, UInt64.lt_iff_toNat_lt, aMax, bMax,
    aStart, bStart]
  by_cases front : a.start < b.start
  · obtain ⟨frontValid, frontLocations⟩ :=
      rangeMake_between (show a.location.toNat < b.location.toNat from front) (Nat.le_of_lt bStarts)
    rw [if_neg (by omega)]
    by_cases back : b.stop < a.stop
    · obtain ⟨backValid, backLocations⟩ :=
        rangeMake_between (show (rangeGetMax b).toNat < (rangeGetMax a).toNat by omega) (by omega)
      rw [if_pos ⟨front, back⟩]
      rw [aMax, bMax] at backLocations
      exact ⟨frontValid, backValid, frontLocations, backLocations⟩
    · rw [if_neg (by omega), if_neg back, Set.Ico_eq_empty (show ¬ b.stop < a.stop from back)]
      exact ⟨frontValid, rangeZero_valid, frontLocations, rangeZero_locations⟩
  · rw [Set.Ico_eq_empty front]
    by_cases back : b.stop < a.stop
    · obtain ⟨backValid, backLocations⟩ :=
        rangeMake_between (show (rangeGetMax b).toNat < (rangeGetMax a).toNat by omega) (by omega)
      rw [if_neg (by omega), if_neg (by omega), if_pos back]
      rw [aMax, bMax] at backLocations
      exact ⟨rangeZero_valid, backValid, rangeZero_locations, backLocations⟩
    · rw [if_pos (by omega), Set.Ico_eq_empty (show ¬ b.stop < a.stop from back)]
      exact ⟨rangeZero_valid, rangeZero_valid, rangeZero_locations, rangeZero_locations⟩

end Pair

/-- The two results are what of `a` lies before `b` and behind it. -/
theorem rangeSubtract_parts (a b : Range) (aValid : rangeIsValid a = true)
    (bValid : rangeIsValid b = true) :
    (rangeIsValid (rangeSubtract a b).1 = true ∧ rangeIsValid (rangeSubtract a b).2 = true) ∧
      Disjoint (rangeSubtract a b).1.locations (rangeSubtract a b).2.locations ∧
      (rangeSubtract a b).1.locations ∪ (rangeSubtract a b).2.locations = a.locations \ b.locations ∧
      (rangeIntersects a b = true →
        (rangeSubtract a b).1.locations = {location ∈ a.locations | location < b.start} ∧
        (rangeSubtract a b).2.locations = {location ∈ a.locations | b.stop ≤ location}) ∧
      rangeIsValid (rangeIntersection a b) = true ∧
      (rangeIntersection a b).locations = a.locations ∩ b.locations ∧
      (rangeIntersects a b = true ↔ (a.locations ∩ b.locations).Nonempty) := by
  rw [rangeIsValid_iff] at aValid bValid
  obtain ⟨common, commonLocations, separate⟩ := rangeIntersection_ends aValid bValid
  have intersects := rangeIntersects_iff_ends aValid bValid
  have bOrder := b.start_le_stop
  have both : a.locations ∩ b.locations = Set.Ico (max a.start b.start) (min a.stop b.stop) :=
    Set.Ico_inter_Ico
  simp only [rangeIsValid_iff, both, Set.nonempty_Ico]
  by_cases meets : max a.start b.start < min a.stop b.stop
  · obtain ⟨firstValid, secondValid, first, second⟩ := rangeSubtract_ends aValid bValid meets
    refine ⟨⟨firstValid, secondValid⟩, ?_, ?_, fun _ => ⟨?_, ?_⟩, common, commonLocations, intersects⟩
    · rw [first, second, Set.Ico_disjoint_Ico]
      omega
    · rw [first, second]
      ext location
      simp only [Range.locations, Set.mem_union, Set.mem_sdiff, Set.mem_Ico]
      omega
    · rw [first]
      ext location
      simp only [Range.locations, Set.mem_Ico, Set.mem_ofPred_eq]
      omega
    · rw [second]
      ext location
      simp only [Range.locations, Set.mem_Ico, Set.mem_ofPred_eq]
      omega
  · have whole : rangeSubtract a b = (a, rangeZero) := by
      rw [rangeSubtract, if_pos (separate.mpr (Nat.le_of_not_lt meets))]
    rw [whole]
    refine ⟨⟨aValid, rangeZero_valid⟩, ?_, ?_, fun crosses => absurd (intersects.mp crosses) meets,
      common, commonLocations, intersects⟩
    · rw [rangeZero_locations]
      exact disjoint_bot_right
    · rw [rangeZero_locations, Set.union_empty]
      have apart : Disjoint a.locations b.locations := by
        rw [Set.disjoint_iff_inter_eq_empty, both, Set.Ico_eq_empty meets]
      exact apart.sdiff_eq_left.symm

theorem rangeSubtract_parts_hole :
    (rangeSubtract ⟨10, 0x7ffffffffffffff5⟩ ⟨20, 5⟩).1.locations ∪
        (rangeSubtract ⟨10, 0x7ffffffffffffff5⟩ ⟨20, 5⟩).2.locations =
      Range.locations ⟨10, 0x7ffffffffffffff5⟩ \ Range.locations ⟨20, 5⟩ :=
  (rangeSubtract_parts ⟨10, 0x7ffffffffffffff5⟩ ⟨20, 5⟩ (by decide) (by decide)).2.2.1

end Subtract

end MulleCore
