import MulleCore.Container.StructarrayOk

/-!
The operations of a structarray on ranges of structs.
-/

namespace MulleCore

open Library

def structarrayRecords (width : Nat) (array : Structarray) : List (List UInt8) :=
  records array.sizeofStruct width (structarrayGetCount array) array.storage

section Steps

variable {stride width : Nat} {array : Structarray} {items : List (List UInt8)}
variable {count : Nat} {range : Range} {other : Structarray} {otherWidth : Nat}
  {others : List (List UInt8)}

theorem Structarray.Holds.shown (holds : array.Holds stride width items) :
    structarrayRecords width array = items := by
  rw [structarrayRecords, holds.sized, holds.getCount, holds.contents]

theorem copied_items (narrow : width ≤ stride) (positive : count ≠ 0)
    {bytes : List UInt8} (covers : (count - 1) * stride + width ≤ bytes.length)
    (several : count ≠ 1 → count * stride ≤ bytes.length) :
    ∃ copied, blockRead bytes 0 (if count = 1 then width else count * stride) = some copied ∧
      (count - 1) * stride + width ≤ copied.length ∧ copied.length ≤ count * stride ∧
      records stride width count copied = records stride width count bytes := by
  by_cases single : count = 1
  · subst single
    rw [Nat.sub_self, Nat.zero_mul, Nat.zero_add] at covers ⊢
    obtain ⟨read, length⟩ := copied_item covers
    refine ⟨slice bytes 0 width, read, by omega, by omega, ?_⟩
    rw [records_one length]
    refine (records_eq rfl ?_).symm
    intro index first
    obtain rfl : index = 0 := by
      rw [List.length_singleton] at first
      omega
    rw [Nat.zero_mul]
    rfl
  · rw [if_neg single]
    have enough := several single
    obtain ⟨read, length⟩ := copied_item enough
    have lastEnd : (count - 1) * stride + width ≤ count * stride :=
      record_end_le narrow (by omega)
    refine ⟨_, read, by omega, by omega, ?_⟩
    refine records_congr narrow ?_
    intro place within
    rw [slice, slice_getElem?, if_pos within, Nat.zero_add]

theorem structarrayInsertInRange_empty (array : Structarray)
    (empty : range.length = 0) (bytes : List UInt8) (fresh : Nat → UInt8) :
    structarrayInsertInRange array range bytes fresh = some array := by
  rw [structarrayInsertInRange, empty, if_neg (by decide), if_pos rfl]

theorem structarrayInsertInRange_holds (holds : array.Holds stride width items) {range : Range}
    (nonempty : range.length ≠ 0)
    (bound : (items.length + range.length.toNat) * stride < 2 ^ 63)
    (inside : range.start ≤ items.length) {bytes : List UInt8}
    (covers : (range.length.toNat - 1) * stride + width ≤ bytes.length)
    (several : range.length.toNat ≠ 1 → range.length.toNat * stride ≤ bytes.length)
    (fresh : Nat → UInt8) :
    ∃ next, structarrayInsertInRange array range bytes fresh = some next ∧
      next.Holds stride width (items.take range.start ++
        records stride width range.length.toNat bytes ++ items.drop range.start) := by
  have words := le_bytes holds.positive (items.length + range.length.toNat)
  have narrow := holds.narrow
  have positiveLength : range.length.toNat ≠ 0 :=
    fun zero => nonempty ((length_eq_zero_iff range).mpr zero)
  have notAll : range.length ≠ 0xffffffffffffffff := by
    intro all
    have huge : range.length.toNat = 2 ^ 64 - 1 := by
      rw [all]
      rfl
    omega
  have startBound : range.start = range.location.toNat := rfl
  obtain ⟨roomy, resized, roomyHolds, room⟩ := structarrayResizeForInsert_holds holds bound fresh
  obtain ⟨copied, read, copiedCovers, copiedGap, sameItems⟩ :=
    copied_items narrow positiveLength covers several
  obtain ⟨moved, pasted, didMove, didPaste, whole, opened⟩ :=
    @blockInsert_records _ stride width items.length roomy.storage range.start
      range.length.toNat copied narrow inside (by rwa [roomyHolds.whole]) copiedCovers copiedGap
  rw [roomyHolds.contents, sameItems] at opened
  rw [startBound] at didMove didPaste inside
  rw [structarrayInsertInRange, if_neg notAll, if_neg nonempty, holds.getCount,
    if_neg (Nat.not_lt_of_le inside)]
  simp only [Nat.mod_eq_of_lt (show items.length + range.length.toNat < 2 ^ 64 by omega), resized,
    roomyHolds.sized, roomyHolds.copied,
    Nat.mod_eq_of_lt (show range.location.toNat + range.length.toNat < 2 ^ 64 by omega), didMove,
    read, didPaste, Option.bind_eq_bind, Option.bind_some]
  have length : (items.take range.start ++ records stride width range.length.toNat bytes ++
      items.drop range.start).length = items.length + range.length.toNat := by
    rw [List.length_append, List.length_append, List.length_take, records_length, List.length_drop]
    omega
  refine ⟨_, rfl, ?_⟩
  have replaced := roomyHolds.replace pasted _ ((items.length + range.length.toNat) * stride)
    (whole.trans roomyHolds.whole) (by rw [length]) room (by rw [length]; exact bound)
    (by rw [length]; exact opened)
  rw [roomyHolds.sized, roomyHolds.copied] at replaced
  exact replaced

theorem rangeIntersection_count (proper : range.Proper) (bound : count < 2 ^ 63) {removed : Range}
    (intersection : rangeIntersection range (rangeMake 0 (UInt64.ofNat count)) = removed) :
    (removed.length = 0 ∧ count ≤ range.start) ∨
      (removed.length ≠ 0 ∧ removed.start = range.start ∧ removed.stop = min range.stop count ∧
        range.start < removed.stop) := by
  have counted : (UInt64.ofNat count).toNat = count :=
    UInt64.toNat_ofNat_of_lt' (Nat.lt_trans bound (by decide))
  have most : (rangeGetMax (rangeMake 0 (UInt64.ofNat count))).toNat = count := by
    rw [rangeGetMax, rangeMake, UInt64.zero_add, counted]
  have least := toNat_least (rangeGetMax range) (rangeGetMax (rangeMake 0 (UInt64.ofNat count)))
  rw [most, proper.getMax_toNat] at least
  have greatest : (if range.location > (rangeMake 0 (UInt64.ofNat count)).location then
      range.location else (rangeMake 0 (UInt64.ofNat count)).location) = range.location := by
    rw [rangeMake]
    split
    · rfl
    · rename_i notAbove
      rw [gt_iff_lt, UInt64.lt_iff_toNat_lt, Nat.not_lt] at notAbove
      exact (UInt64.toNat_inj.mp (Nat.le_zero.mp notAbove)).symm
  have ordered := proper.start_lt_stop
  rw [Range.start] at ordered ⊢
  rw [rangeIntersection, greatest] at intersection
  generalize (if rangeGetMax range < rangeGetMax (rangeMake 0 (UInt64.ofNat count)) then
    rangeGetMax range else rangeGetMax (rangeMake 0 (UInt64.ofNat count))) = leastStop
    at least intersection
  by_cases crossed : leastStop < range.location
  · rw [if_pos crossed] at intersection
    rw [UInt64.lt_iff_toNat_lt] at crossed
    left
    subst intersection
    exact ⟨rfl, by omega⟩
  · rw [if_neg crossed] at intersection
    rw [UInt64.lt_iff_toNat_lt, Nat.not_lt] at crossed
    have stops := Range.stop_mk_sub crossed
    have difference : (leastStop - range.location).toNat =
        leastStop.toNat - range.location.toNat :=
      UInt64.toNat_sub_of_le _ _ (UInt64.le_iff_toNat_le.mpr crossed)
    subst intersection
    by_cases empty : leastStop.toNat = range.location.toNat
    · left
      rw [length_eq_zero_iff]
      dsimp only
      omega
    · right
      rw [ne_eq, length_eq_zero_iff, stops]
      dsimp only [Range.start]
      omega

section

variable (holds : array.Holds stride width items)
include holds

theorem structarrayRemoveWithin_holds
    (ordered : range.start ≤ range.stop) (inside : range.stop ≤ items.length) :
    ∃ next, structarrayRemoveWithin array range = some next ∧
      next.Holds stride width (items.take range.start ++ items.drop range.stop) := by
  have small := holds.small
  have positive := holds.positive
  have words := le_bytes positive items.length
  have within := holds.within
  rw [holds.counted] at within
  have stop : range.start + range.length.toNat = range.stop := rfl
  have start : range.start = range.location.toNat := rfl
  have tail : (rangeGetMax range).toNat = range.stop := by
    rw [rangeGetMax, UInt64.toNat_add, Range.stop, Nat.mod_eq_of_lt]
    rw [Range.stop] at inside
    omega
  have kept : (items.take range.start ++ items.drop range.stop).length =
      items.length - range.length.toNat := by
    rw [List.length_append, List.length_take, List.length_drop]
    omega
  have moved : array.curr - range.length.toNat * stride =
      (items.length - range.length.toNat) * stride := by
    rw [holds.counted, Nat.sub_mul]
  have fewer : (items.length - range.length.toNat) * stride ≤ items.length * stride :=
    Nat.mul_le_mul_right stride (Nat.sub_le _ _)
  rw [structarrayRemoveWithin, tail, holds.getCount, holds.sized]
  by_cases atEnd : (items.length - range.stop) * stride = 0
  · rw [if_neg (not_not_intro atEnd), moved]
    have last : range.stop = items.length := by
      rcases Nat.mul_eq_zero.mp atEnd with zero | zero
      · omega
      · omega
    refine ⟨_, rfl, ?_⟩
    have dropped := holds.take (show items.length - range.length.toNat ≤ items.length by omega)
    have first : items.length - range.length.toNat = range.start := by omega
    rw [holds.sized] at dropped
    rw [last, List.drop_length, List.append_nil, ← first]
    exact dropped
  · have behind : range.stop < items.length := by
      by_contra beyond
      rw [Nat.sub_eq_zero_of_le (Nat.le_of_not_lt beyond), Nat.zero_mul] at atEnd
      exact atEnd rfl
    have sentinel : ∀ index, index < items.length → stride * index < array.sentinel := by
      intro index before
      rw [Nat.mul_comm]
      exact Nat.lt_of_lt_of_le (Nat.mul_lt_mul_of_pos_right before positive) within
    obtain ⟨storage, didMove, whole, closed⟩ :=
      @blockRemove_records _ stride width items.length array.storage range.start range.length.toNat
        holds.narrow (by omega) (by rw [holds.whole]; exact within)
    rw [stop] at didMove closed
    rw [holds.contents] at closed
    rw [if_pos atEnd, ← start]
    simp only [structarrayGet, holds.sized, if_pos (sentinel _ (Nat.lt_of_le_of_lt ordered behind)),
      if_pos (sentinel _ behind), Option.bind_eq_bind, Option.bind_some]
    rw [Nat.mul_comm stride, Nat.mul_comm stride, didMove]
    simp only [Option.bind_some, moved]
    refine ⟨_, rfl, ?_⟩
    have replaced := holds.replace storage (items.take range.start ++ items.drop range.stop)
      ((items.length - range.length.toNat) * stride) (whole.trans holds.whole) (by rw [kept])
      (by omega) (by rw [kept]; omega) (by rw [kept]; exact closed)
    rw [holds.sized] at replaced
    exact replaced

theorem structarrayRemoveInRange_holds (valid : range.length = 0 ∨ range.Proper) :
    ∃ next, structarrayRemoveInRange array range = some next ∧
      next.Holds stride width (items.take range.start ++ items.drop range.stop) := by
  have small := holds.small
  have words := le_bytes holds.positive items.length
  rw [structarrayRemoveInRange]
  by_cases empty : range.length = 0
  · rw [if_pos empty]
    have stops : range.stop = range.start := by
      rw [Range.stop, Range.start, (length_eq_zero_iff range).mp empty, Nat.add_zero]
    refine ⟨array, rfl, ?_⟩
    rw [stops, List.take_append_drop]
    exact holds
  · rw [if_neg empty]
    have proper := valid.resolve_left empty
    have ordered := proper.start_lt_stop
    have removed := rangeIntersection_count proper (show items.length < 2 ^ 63 by omega) rfl
    rw [← holds.getCount, ← structarrayRemovedRange, holds.getCount] at removed
    rcases removed with ⟨none, beyond⟩ | ⟨nonempty, starts, stops, inside⟩
    · rw [if_pos none]
      refine ⟨array, rfl, ?_⟩
      rw [List.take_of_length_le beyond, List.drop_eq_nil_of_le (by omega), List.append_nil]
      exact holds
    · rw [if_neg nonempty]
      obtain ⟨next, done, nextHolds⟩ := structarrayRemoveWithin_holds holds
        (Nat.le_of_lt (starts.symm ▸ inside)) (stops ▸ Nat.min_le_right _ _)
      refine ⟨next, done, ?_⟩
      have dropped : items.drop (min range.stop items.length) = items.drop range.stop := by
        rcases Nat.le_total range.stop items.length with before | past
        · rw [Nat.min_eq_left before]
        · rw [Nat.min_eq_right past, List.drop_length, List.drop_eq_nil_of_le past]
      rw [starts, stops, dropped] at nextHolds
      exact nextHolds

theorem structarrayAddWithin_holds (otherHolds : other.Holds stride otherWidth others)
    (nonempty : range.length ≠ 0) (inside : range.stop ≤ others.length)
    (bound : (items.length + range.length.toNat) * stride < 2 ^ 63) (fresh : Nat → UInt8) :
    ∃ next, structarrayAddWithin array other range fresh = some next ∧
      next.Holds stride width
        (items ++ slice (structarrayRecords width other) range.start range.length.toNat) := by
  have narrow := holds.narrow
  have positiveLength : range.length.toNat ≠ 0 :=
    fun zero => nonempty ((length_eq_zero_iff range).mpr zero)
  rw [Range.stop] at inside
  obtain ⟨roomy, advanced, roomyHolds, room⟩ := structarrayAdvance_holds holds bound fresh
  have available : range.location.toNat * stride + range.length.toNat * stride ≤
      other.storage.length := by
    have bytes : (range.location.toNat + range.length.toNat) * stride ≤ others.length * stride :=
      Nat.mul_le_mul_right stride inside
    have used := otherHolds.within
    rw [otherHolds.counted] at used
    rw [← Nat.add_mul, otherHolds.whole]
    exact Nat.le_trans bytes used
  have read : blockRead other.storage (range.location.toNat * stride)
      (range.length.toNat * stride) = some (slice other.storage (range.location.toNat * stride)
        (range.length.toNat * stride)) := if_pos available
  have copiedLength : (slice other.storage (range.location.toNat * stride)
      (range.length.toNat * stride)).length = range.length.toNat * stride := by
    rw [slice, List.length_take, List.length_drop]
    omega
  have lastEnd : (range.length.toNat - 1) * stride + width ≤ range.length.toNat * stride :=
    record_end_le narrow (by omega)
  obtain ⟨pasted, done, whole, joined⟩ :=
    @blockPaste_records _ stride width items.length roomy.storage range.length.toNat
      (slice other.storage (range.location.toNat * stride) (range.length.toNat * stride)) narrow
      (by rw [copiedLength, roomyHolds.whole, ← Nat.add_mul]; exact room)
      (by rw [copiedLength]; exact lastEnd)
  have shown : records stride width range.length.toNat
        (slice other.storage (range.location.toNat * stride) (range.length.toNat * stride)) =
      slice (structarrayRecords width other) range.start range.length.toNat := by
    rw [structarrayRecords, otherHolds.sized, otherHolds.getCount, Range.start]
    exact records_slice narrow inside
  have length : (items ++ slice (structarrayRecords width other) range.start
      range.length.toNat).length = items.length + range.length.toNat := by
    rw [List.length_append, ← shown, records_length]
  rw [shown, roomyHolds.contents] at joined
  rw [structarrayAddWithin,
    if_neg (not_not_intro (otherHolds.sized.trans holds.sized.symm))]
  simp only [advanced, roomyHolds.sized, read, done, Option.bind_eq_bind, Option.bind_some]
  refine ⟨_, rfl, ?_⟩
  have replaced := roomyHolds.replace pasted
    (items ++ slice (structarrayRecords width other) range.start range.length.toNat)
    ((items.length + range.length.toNat) * stride) (whole.trans roomyHolds.whole)
    (by rw [length]) room (by rw [length]; exact bound) (by rw [length]; exact joined)
  rw [roomyHolds.sized] at replaced
  exact replaced

theorem structarrayAddStructarray_holds (otherHolds : other.Holds stride otherWidth others)
    (bound : (items.length + (validatedRange (structarrayGetCount other) range).length.toNat) *
      stride < 2 ^ 63)
    (fresh : Nat → UInt8) :
    ∃ next, structarrayAddStructarray array other range fresh = some next ∧
      next.Holds stride width (items ++ slice (structarrayRecords width other)
        (validatedRange (structarrayGetCount other) range).start
        (validatedRange (structarrayGetCount other) range).length.toNat) := by
  have small := otherHolds.small
  have words := le_bytes otherHolds.positive others.length
  have counted : (UInt64.ofNat (structarrayGetCount other)).toNat = others.length := by
    rw [otherHolds.getCount]
    exact UInt64.toNat_ofNat_of_lt' (Nat.lt_of_le_of_lt words (Nat.lt_trans small (by decide)))
  rw [structarrayAddStructarray]
  by_cases empty : (validatedRange (structarrayGetCount other) range).length = 0
  · rw [if_pos empty, (length_eq_zero_iff _).mp empty, slice, List.take_zero, List.append_nil]
    exact ⟨array, rfl, holds⟩
  · rw [if_neg empty]
    have inside : (validatedRange (structarrayGetCount other) range).stop ≤ others.length := by
      rw [← counted]
      exact rangeValidateAgainstLength_inside range _ empty
    exact structarrayAddWithin_holds holds otherHolds empty inside bound fresh

end

end Steps

end MulleCore
