import Mathlib.Algebra.Order.Ring.Nat
import MulleCore.Library.Block

/-!
A block of memory as a list of records of `width` cells, which lie `stride` cells apart.
-/

namespace Library

section Records

variable {Cell : Type}

def slice (cells : List Cell) (offset count : Nat) : List Cell :=
  (cells.drop offset).take count

def records (stride width count : Nat) (cells : List Cell) : List (List Cell) :=
  table count fun index => slice cells (index * stride) width

variable {stride width count index : Nat} {cells : List Cell}

@[simp] theorem records_length : (records stride width count cells).length = count :=
  table_length _ _

theorem records_getElem? (bound : index < count) :
    (records stride width count cells)[index]? = some (slice cells (index * stride) width) := by
  rw [List.getElem?_eq_getElem (by simpa using bound)]
  exact congrArg some (table_getElem _ _)

theorem record_end_le (narrow : width ≤ stride) (bound : index < count) :
    index * stride + width ≤ count * stride :=
  calc index * stride + width
      ≤ index * stride + stride := Nat.add_le_add_left narrow _
    _ = (index + 1) * stride := (Nat.succ_mul index stride).symm
    _ ≤ count * stride := Nat.mul_le_mul_right stride bound

theorem blockRead_record (narrow : width ≤ stride) (bound : index < count)
    (roomy : count * stride ≤ cells.length) :
    blockRead cells (index * stride) width = (records stride width count cells)[index]? := by
  rw [records_getElem? bound]
  exact if_pos (Nat.le_trans (record_end_le narrow bound) roomy)

theorem slice_congr {others : List Cell} {offset other length : Nat}
    (same : ∀ place, place < length → cells[offset + place]? = others[other + place]?) :
    slice cells offset length = slice others other length := by
  apply List.ext_getElem?
  intro place
  rw [slice, slice, slice_getElem?, slice_getElem?]
  split
  · rename_i inside
    exact same place inside
  · rfl

theorem slice_all (length : Nat) (whole : cells.length = length) : slice cells 0 length = cells := by
  rw [slice, List.drop_zero, ← whole, List.take_length]

theorem records_eq {list : List (List Cell)} (whole : list.length = count)
    (each : ∀ index, index < count → list[index]? = some (slice cells (index * stride) width)) :
    records stride width count cells = list := by
  apply List.ext_getElem?
  intro index
  by_cases inside : index < count
  · rw [records_getElem? inside, each index inside]
  · rw [List.getElem?_eq_none (by simpa using inside), List.getElem?_eq_none (by omega)]

theorem records_take {kept : Nat} (within : kept ≤ count) :
    (records stride width count cells).take kept = records stride width kept cells := by
  refine (records_eq ?_ ?_).symm
  · rw [List.length_take, records_length]
    omega
  · intro index inside
    rw [List.getElem?_take_of_lt inside, records_getElem? (by omega)]

variable {before after items : List Cell} {location length : Nat}

theorem records_congr (narrow : width ≤ stride)
    (same : ∀ place, place < count * stride → before[place]? = after[place]?) :
    records stride width count before = records stride width count after := by
  refine records_eq records_length ?_
  intro index inside
  rw [records_getElem? inside, Option.some.injEq]
  apply slice_congr
  intro place within
  have bound := record_end_le narrow inside
  exact (same _ (by omega)).symm

theorem records_open (narrow : width ≤ stride) (inside : location ≤ count)
    (lower : ∀ place, place < location * stride → after[place]? = before[place]?)
    (middle : ∀ place, place < (length - 1) * stride + width →
      after[location * stride + place]? = items[place]?)
    (upper : ∀ place, place < (count - location) * stride →
      after[(location + length) * stride + place]? = before[location * stride + place]?) :
    records stride width (count + length) after =
      (records stride width count before).take location ++ records stride width length items ++
        (records stride width count before).drop location := by
  have frontLength : ((records stride width count before).take location).length = location := by
    rw [List.length_take, records_length]
    omega
  apply records_eq
  · rw [List.length_append, List.length_append, frontLength, records_length, List.length_drop,
      records_length]
    omega
  · intro index bound
    rw [List.append_assoc]
    by_cases below : index < location
    · rw [List.getElem?_append_left (by omega), List.getElem?_take_of_lt below,
        records_getElem? (by omega), Option.some.injEq]
      apply slice_congr
      intro place within
      have endBound := record_end_le narrow below
      exact (lower _ (by omega)).symm
    · obtain ⟨offset, rfl⟩ := Nat.exists_eq_add_of_le (Nat.le_of_not_lt below)
      rw [List.getElem?_append_right (by omega), frontLength, Nat.add_sub_cancel_left]
      by_cases new : offset < length
      · rw [List.getElem?_append_left (by rwa [records_length]), records_getElem? new,
          Option.some.injEq]
        apply slice_congr
        intro place within
        have behind : offset * stride ≤ (length - 1) * stride :=
          Nat.mul_le_mul_right stride (by omega)
        rw [Nat.add_mul, Nat.add_assoc]
        exact (middle _ (by omega)).symm
      · obtain ⟨rest, rfl⟩ := Nat.exists_eq_add_of_le (Nat.le_of_not_lt new)
        rw [List.getElem?_append_right (by rw [records_length]; omega), records_length,
          Nat.add_sub_cancel_left, List.getElem?_drop, records_getElem? (by omega),
          Option.some.injEq]
        apply slice_congr
        intro place within
        have endBound := record_end_le narrow (show rest < count - location by omega)
        rw [← Nat.add_assoc location, Nat.add_mul (location + length), Nat.add_mul location rest,
          Nat.add_assoc, Nat.add_assoc]
        exact (upper _ (by omega)).symm

theorem records_close (narrow : width ≤ stride) (inside : location + length ≤ count)
    (lower : ∀ place, place < location * stride → after[place]? = before[place]?)
    (upper : ∀ place, place < (count - (location + length)) * stride →
      after[location * stride + place]? = before[(location + length) * stride + place]?) :
    records stride width (count - length) after =
      (records stride width count before).take location ++
        (records stride width count before).drop (location + length) := by
  have frontLength : ((records stride width count before).take location).length = location := by
    rw [List.length_take, records_length]
    omega
  apply records_eq
  · rw [List.length_append, frontLength, List.length_drop, records_length]
    omega
  · intro index bound
    by_cases below : index < location
    · rw [List.getElem?_append_left (by omega), List.getElem?_take_of_lt below,
        records_getElem? (by omega), Option.some.injEq]
      apply slice_congr
      intro place within
      have endBound := record_end_le narrow below
      exact (lower _ (by omega)).symm
    · obtain ⟨rest, rfl⟩ := Nat.exists_eq_add_of_le (Nat.le_of_not_lt below)
      rw [List.getElem?_append_right (by omega), frontLength, Nat.add_sub_cancel_left,
        List.getElem?_drop, records_getElem? (by omega), Option.some.injEq]
      apply slice_congr
      intro place within
      have endBound := record_end_le narrow (show rest < count - (location + length) by omega)
      rw [Nat.add_mul (location + length), Nat.add_mul location rest, Nat.add_assoc, Nat.add_assoc]
      exact (upper _ (by omega)).symm

theorem records_one (whole : cells.length = width) : records stride width 1 cells = [cells] := by
  refine records_eq (List.length_singleton) ?_
  intro index bound
  obtain rfl : index = 0 := by omega
  rw [Nat.zero_mul, slice_all width whole]
  rfl

theorem records_slice (narrow : width ≤ stride) (inside : location + length ≤ count) :
    records stride width length (slice cells (location * stride) (length * stride)) =
      slice (records stride width count cells) location length := by
  apply records_eq
  · rw [slice, List.length_take, List.length_drop, records_length]
    omega
  · intro index bound
    have endBound := record_end_le narrow bound
    rw [slice, slice_getElem?, if_pos bound, records_getElem? (by omega), Option.some.injEq]
    apply slice_congr
    intro place within
    rw [slice, slice_getElem?, if_pos (by omega), Nat.add_mul, Nat.add_assoc]

theorem blockPaste_records {source : List Cell} (narrow : width ≤ stride)
    (room : count * stride + source.length ≤ cells.length)
    (covers : (length - 1) * stride + width ≤ source.length) :
    ∃ pasted, blockPaste cells (count * stride) source = some pasted ∧
      pasted.length = cells.length ∧
      records stride width (count + length) pasted =
        records stride width count cells ++ records stride width length source := by
  obtain ⟨pasted, done, whole, cellAt⟩ := blockPaste_some room
  refine ⟨pasted, done, whole, ?_⟩
  have opened : records stride width (count + length) pasted =
      (records stride width count cells).take count ++ records stride width length source ++
        (records stride width count cells).drop count := by
    apply records_open narrow (Nat.le_refl count)
    · intro place below
      rw [cellAt, if_neg (by omega)]
    · intro place inside
      rw [cellAt, if_pos (by omega), Nat.add_sub_cancel_left]
    · intro place inside
      rw [Nat.sub_self, Nat.zero_mul] at inside
      exact absurd inside (Nat.not_lt_zero place)
  rw [opened, List.take_of_length_le (Nat.le_of_eq records_length),
    List.drop_eq_nil_of_le (Nat.le_of_eq records_length), List.append_nil]

/-- Moving bytes up and pasting into the gap inserts records. -/
theorem blockInsert_records {source : List Cell} (narrow : width ≤ stride)
    (inside : location ≤ count) (room : (count + length) * stride ≤ cells.length)
    (covers : (length - 1) * stride + width ≤ source.length)
    (gap : source.length ≤ length * stride) :
    ∃ moved pasted, blockMove cells ((location + length) * stride) (location * stride)
        ((count - location) * stride) = some moved ∧
      blockPaste moved (location * stride) source = some pasted ∧
      pasted.length = cells.length ∧
      records stride width (count + length) pasted =
        (records stride width count cells).take location ++ records stride width length source ++
          (records stride width count cells).drop location := by
  obtain ⟨rest, rfl⟩ := Nat.exists_eq_add_of_le inside
  rw [Nat.add_sub_cancel_left]
  rw [Nat.add_mul, Nat.add_mul] at room
  have target : (location + length) * stride + rest * stride ≤ cells.length := by
    rw [Nat.add_mul]
    omega
  have origin : location * stride + rest * stride ≤ cells.length := by omega
  obtain ⟨moved, didMove, movedLength, movedAt⟩ := blockMove_some target origin
  have place : location * stride + source.length ≤ moved.length := by omega
  obtain ⟨pasted, didPaste, pastedLength, pastedAt⟩ := blockPaste_some place
  rw [Nat.add_mul] at movedAt
  refine ⟨moved, pasted, didMove, didPaste, pastedLength.trans movedLength, ?_⟩
  apply records_open narrow inside
  · intro place below
    rw [pastedAt, if_neg (by omega), movedAt, if_neg (by omega)]
  · intro place within
    rw [pastedAt, if_pos (by omega), Nat.add_sub_cancel_left]
  · intro place within
    rw [Nat.add_sub_cancel_left] at within
    rw [Nat.add_mul, pastedAt, if_neg (by omega), movedAt, if_pos (by omega)]
    congr 1
    omega

/-- Moving bytes down removes records. -/
theorem blockRemove_records (narrow : width ≤ stride) (inside : location + length ≤ count)
    (room : count * stride ≤ cells.length) :
    ∃ moved, blockMove cells (location * stride) ((location + length) * stride)
        ((count - (location + length)) * stride) = some moved ∧
      moved.length = cells.length ∧
      records stride width (count - length) moved =
        (records stride width count cells).take location ++
          (records stride width count cells).drop (location + length) := by
  obtain ⟨rest, rfl⟩ := Nat.exists_eq_add_of_le inside
  rw [Nat.add_sub_cancel_left]
  rw [Nat.add_mul] at room
  have shorter : location * stride ≤ (location + length) * stride :=
    Nat.mul_le_mul_right stride (Nat.le_add_right _ _)
  obtain ⟨moved, didMove, movedLength, movedAt⟩ := blockMove_some
    (show location * stride + rest * stride ≤ cells.length by omega) room
  refine ⟨moved, didMove, movedLength, ?_⟩
  apply records_close narrow inside
  · intro place below
    rw [movedAt, if_neg (by omega)]
  · intro place within
    rw [Nat.add_sub_cancel_left] at within
    rw [movedAt, if_pos (by omega), Nat.add_sub_cancel_left]

theorem blockPaste_record {source : List Cell} (narrow : width ≤ stride) (bound : index < count)
    (roomy : count * stride ≤ cells.length) (fitting : source.length = width) :
    ∃ pasted, blockPaste cells (index * stride) source = some pasted ∧
      pasted.length = cells.length ∧
      records stride width count pasted = (records stride width count cells).set index source := by
  have inside := record_end_le narrow bound
  obtain ⟨pasted, done, length, cellAt⟩ := blockPaste_some
    (show index * stride + source.length ≤ cells.length by omega)
  refine ⟨pasted, done, length, ?_⟩
  apply List.ext_getElem?
  intro other
  by_cases outside : count ≤ other
  · rw [List.getElem?_eq_none (by simpa using outside),
      List.getElem?_eq_none (by simpa using outside)]
  · rw [records_getElem? (Nat.lt_of_not_le outside), List.getElem?_set]
    by_cases same : index = other
    · subst same
      rw [if_pos rfl, if_pos (by simpa using bound), Option.some.injEq, ← slice_all width fitting]
      apply slice_congr
      intro place within
      rw [cellAt, if_pos (by omega)]
      congr 1
      omega
    · rw [if_neg same, records_getElem? (Nat.lt_of_not_le outside), Option.some.injEq]
      apply slice_congr
      intro place within
      rw [cellAt, if_neg]
      rcases Nat.lt_or_gt_of_ne same with above | below
      · have apart := record_end_le narrow above
        omega
      · have apart := record_end_le narrow below
        omega

end Records

end Library
