import MulleCore.Library.Simulation
import MulleCore.Container.StructarrayRanges

/-!
A structarray over its runs, next to a list of records, and what comes out of it then.
-/

namespace MulleCore

open Library

/-- `fresh` says what `malloc` and `realloc` find in new memory. -/
inductive ArrayOp where
  | add (item : List UInt8) (fresh : Nat → UInt8)
  | advance (count : UInt64) (fresh : Nat → UInt8)
  | set (index : Nat) (item : List UInt8)
  | insertInRange (range : Range) (items : List UInt8) (fresh : Nat → UInt8)
  | removeInRange (range : Range)
  | setCount (count : UInt64) (fresh : Nat → UInt8)
  | addStructarray (other : Structarray) (range : Range) (fresh : Nat → UInt8)
  | addItself (range : Range) (fresh : Nat → UInt8)
  | reset

def structarrayStep (array : Structarray) : ArrayOp → Option Structarray
  | .add item fresh => structarrayAdd array item fresh
  | .advance count fresh => do
      let (array, _) ← structarrayAdvance array count.toNat fresh
      some array
  | .set index item => structarraySet array index item
  | .insertInRange range items fresh => structarrayInsertInRange array range items fresh
  | .removeInRange range => structarrayRemoveInRange array range
  | .setCount count fresh => do
      let (array, _) ← structarraySetCount array count fresh
      some array
  | .addStructarray other range fresh => structarrayAddStructarray array other range fresh
  | .addItself range fresh => structarrayAddStructarray array array range fresh
  | .reset => some (structarrayReset array)

def ArrayOp.Does (stride width : Nat) (op : ArrayOp) (items next : List (List UInt8)) : Prop :=
  match op with
  | .add item _ => next = items ++ [slice item 0 width]
  | .advance count _ => ∃ added, added.length = count.toNat ∧ next = items ++ added
  | .set index item => next = items.set index (slice item 0 width)
  | .insertInRange range bytes _ =>
    next = items.take range.start ++ records stride width range.length.toNat bytes ++
      items.drop range.start
  | .removeInRange range => next = items.take range.start ++ items.drop range.stop
  | .setCount count _ =>
    if count.toNat ≤ items.length then next = items.take count.toNat
    else ∃ added, added.length = count.toNat - items.length ∧ next = items ++ added
  | .addStructarray other range _ =>
    next = items ++ slice (structarrayRecords width other)
      (validatedRange (structarrayGetCount other) range).start
      (validatedRange (structarrayGetCount other) range).length.toNat
  | .addItself range _ =>
    next = items ++ slice items (validatedRange items.length range).start
      (validatedRange items.length range).length.toNat
  | .reset => next = []

def Structarray.Ok (array : Structarray) : Prop :=
  ∃ items, array.Holds array.sizeofStruct array.copySizeofStruct items

def Structarray.HasSpaceFor (array : Structarray) (count : Nat) : Prop :=
  (structarrayGetCount array + count) * array.sizeofStruct < 2 ^ 63

/-- What a caller has to keep to, and that a heap array is not set to no structs. -/
def ArrayOp.Permitted (array : Structarray) (op : ArrayOp) : Prop :=
  match op with
  | .add item _ => array.HasSpaceFor 1 ∧ array.copySizeofStruct ≤ item.length
  | .advance count _ => array.HasSpaceFor count.toNat
  | .set index item =>
    index < structarrayGetSize array ∧ array.copySizeofStruct ≤ item.length
  | .insertInRange range items _ =>
    range.length = 0 ∨ array.HasSpaceFor range.length.toNat ∧
      range.start ≤ structarrayGetCount array ∧
      (range.length.toNat - 1) * array.sizeofStruct + array.copySizeofStruct ≤ items.length ∧
      (range.length.toNat ≠ 1 → range.length.toNat * array.sizeofStruct ≤ items.length)
  | .removeInRange range => range.length = 0 ∨ range.Proper
  | .setCount count _ =>
    count.toNat * array.sizeofStruct < 2 ^ 63 ∧
      (count.toNat = 0 → array.initialStorage = true)
  | .addStructarray other range _ =>
    other.Ok ∧ other.sizeofStruct = array.sizeofStruct ∧
      array.HasSpaceFor (validatedRange (structarrayGetCount other) range).length.toNat
  | .addItself range _ =>
    array.HasSpaceFor (validatedRange (structarrayGetCount array) range).length.toNat
  | .reset => True

def Structarray.Begins (array : Structarray) : Prop :=
  ∃ sizeofStruct alignofStruct count contents, 0 < alignofStruct ∧
    (structarrayInit sizeofStruct alignofStruct count contents = some array ∨
      structarrayInitWithStaticStorage sizeofStruct alignofStruct count contents = some array)

def Structarray.Extracts (array : Structarray) (fresh : Nat → UInt8) : Prop :=
  ∃ left data, structarrayExtractData array fresh = some (left, data) ∧
    structarrayGetCount left = 0 ∧ data.length ≤ data.bytes.length ∧
    structarrayGetCount array * array.sizeofStruct ≤ data.length ∧
    records array.sizeofStruct array.copySizeofStruct (structarrayGetCount array) data.bytes =
      structarrayRecords array.copySizeofStruct array

section Runs

variable {stride width : Nat} {array : Structarray} {items : List (List UInt8)}

theorem Structarray.holds_nil {array : Structarray} {count : Nat} (positive : 0 < array.sizeofStruct)
    (narrow : array.copySizeofStruct ≤ array.sizeofStruct)
    (whole : array.storage.length = array.sentinel)
    (multiple : array.sentinel = count * array.sizeofStruct) (empty : array.curr = 0) :
    array.Holds array.sizeofStruct array.copySizeofStruct [] := by
  constructor
  · rfl
  · rfl
  · exact positive
  · exact narrow
  · exact whole
  · exact structarrayGetSize_mul positive rfl multiple
  · rw [empty, List.length_nil, Nat.zero_mul]
  · rw [empty]
    exact Nat.zero_le _
  · rw [List.length_nil, Nat.zero_mul]
    decide
  · exact records_nil

theorem structarrayInit_holds {sizeofStruct alignofStruct capacity : Nat} {fresh : Nat → UInt8}
    (aligned : 0 < alignofStruct)
    (begins : structarrayInit sizeofStruct alignofStruct capacity fresh = some array) :
    array.Holds array.sizeofStruct array.copySizeofStruct [] := by
  have narrow := le_alignedSize sizeofStruct aligned
  rw [← structarrayAlignedSize] at narrow
  rw [structarrayInit] at begins
  generalize structarrayAlignedSize sizeofStruct alignofStruct = size at narrow begins
  dsimp only at begins
  by_cases noSize : size = 0
  · rw [if_pos noSize] at begins
    contradiction
  · rw [if_neg noSize] at begins
    have positive := Nat.pos_of_ne_zero noSize
    have start : Structarray.Holds size sizeofStruct
        { storage := [], curr := 0, sentinel := 0, initialStorage := false
          sizeofStruct := size, copySizeofStruct := sizeofStruct } [] :=
      @Structarray.holds_nil ⟨[], 0, 0, false, size, sizeofStruct⟩ 0 positive narrow rfl
        (Nat.zero_mul size).symm rfl
    by_cases empty : capacity ≠ 0
    · rw [if_pos empty, structarraySizeto, structarrayRealloc] at begins
      dsimp only at begins
      by_cases overflow : capacity ≠ 0 ∧ size > (2 ^ 64 - 1) / capacity
      · rw [allocatorSizeMultiply, if_pos overflow] at begins
        contradiction
      · rw [allocatorSizeMultiply, if_neg overflow] at begins
        obtain ⟨next, done, nextHolds, -⟩ := structarrayReallocAsLength_holds start rfl
          (Nat.zero_le _) (fun _ => Nat.mul_ne_zero empty noSize) fresh
        simp only [done, Option.bind_eq_bind, Option.bind_some, Option.some.injEq] at begins
        subst begins
        have sized := nextHolds.sized
        have copied := nextHolds.copied
        rw [sized, copied]
        exact nextHolds
    · rw [if_neg empty, Option.some.injEq] at begins
      subst begins
      exact start

theorem Structarray.Begins.holds (begins : array.Begins) :
    array.Holds array.sizeofStruct array.copySizeofStruct [] := by
  obtain ⟨sizeofStruct, alignofStruct, count, contents, aligned, onHeap | onStatic⟩ := begins
  · exact structarrayInit_holds aligned onHeap
  · have narrow := le_alignedSize sizeofStruct aligned
    rw [← structarrayAlignedSize] at narrow
    rw [structarrayInitWithStaticStorage] at onStatic
    generalize structarrayAlignedSize sizeofStruct alignofStruct = size at narrow onStatic
    by_cases noSize : size = 0
    · rw [if_pos noSize] at onStatic
      contradiction
    · rw [if_neg noSize, Option.some.injEq] at onStatic
      subst onStatic
      exact Structarray.holds_nil (Nat.pos_of_ne_zero noSize) narrow (table_length _ _) rfl rfl

theorem Structarray.Holds.extracts_iff
    (holds : array.Holds array.sizeofStruct array.copySizeofStruct items) (fresh : Nat → UInt8) :
    array.Extracts fresh ↔
      structarrayGetCount array * array.sizeofStruct ≤ structarrayGetSize array ∧
        (array.initialStorage = true → structarrayGetSize array ≠ 0) := by
  have roomy : structarrayGetSize array ≤ array.storage.length := by
    rw [holds.whole, holds.capacity]
    exact le_bytes holds.positive _
  rw [Structarray.Extracts, structarrayExtractData]
  cases fixed : array.initialStorage with
  | true =>
    by_cases noRoom : structarrayGetSize array = 0
    · simp [noRoom]
    · have read : blockRead array.storage 0 (structarrayGetSize array) =
          some (slice array.storage 0 (structarrayGetSize array)) := if_pos (by omega)
      have readLength : (slice array.storage 0 (structarrayGetSize array)).length =
          structarrayGetSize array := by
        rw [slice, List.drop_zero, List.length_take]
        omega
      have place : 0 + (slice array.storage 0 (structarrayGetSize array)).length ≤
          (table (structarrayGetSize array) fresh).length := by
        rw [readLength, table_length, Nat.zero_add]
      obtain ⟨bytes, pasted, length, byteAt⟩ := blockPaste_some place
      rw [table_length] at length
      simp only [if_true, if_neg noRoom, read, pasted, Option.bind_eq_bind, Option.bind_some]
      constructor
      · rintro ⟨left, data, extracted, -, -, covers, -⟩
        cases extracted
        exact ⟨covers, fun _ => noRoom⟩
      · rintro ⟨covers, -⟩
        refine ⟨_, _, rfl, rfl, Nat.le_of_eq length.symm, covers, ?_⟩
        refine records_congr holds.narrow ?_
        intro index inside
        rw [byteAt, if_pos (by omega), Nat.sub_zero, slice, slice_getElem?, if_pos (by omega),
          Nat.zero_add]
  | false =>
    rw [if_neg Bool.false_ne_true]
    constructor
    · rintro ⟨left, data, extracted, -, -, covers, -⟩
      cases extracted
      exact ⟨covers, fun onStatic => absurd onStatic Bool.false_ne_true⟩
    · rintro ⟨covers, -⟩
      exact ⟨_, _, rfl, rfl, roomy, covers, rfl⟩

theorem structarrayStep_follows (items : List (List UInt8)) (array : Structarray) (op : ArrayOp)
    (holds : array.Holds stride width items) (permitted : op.Permitted array) :
    ∃ next specNext, structarrayStep array op = some next ∧
      op.Does stride width items specNext ∧ next.Holds stride width specNext := by
  have sized := holds.sized
  have copied := holds.copied
  have counted := holds.getCount
  cases op with
  | add item fresh =>
    obtain ⟨space, enough⟩ := permitted
    rw [Structarray.HasSpaceFor, counted, sized] at space
    rw [copied] at enough
    obtain ⟨next, done, nextHolds⟩ := structarrayAdd_holds holds space enough fresh
    exact ⟨next, _, done, rfl, nextHolds⟩
  | advance count fresh =>
    have space : array.HasSpaceFor count.toNat := permitted
    rw [Structarray.HasSpaceFor, counted, sized] at space
    obtain ⟨roomy, advanced, roomyHolds, room⟩ := structarrayAdvance_holds holds space fresh
    obtain ⟨added, length, nextHolds⟩ := roomyHolds.extend space room
    refine ⟨_, items ++ added, ?_, ⟨added, length, rfl⟩, nextHolds⟩
    simp only [structarrayStep, advanced, Option.bind_eq_bind, Option.bind_some]
  | set index item =>
    obtain ⟨inside, enough⟩ := permitted
    rw [copied] at enough
    obtain ⟨next, done, nextHolds⟩ := structarraySet_holds holds inside enough
    exact ⟨next, _, done, rfl, nextHolds⟩
  | insertInRange range bytes fresh =>
    by_cases empty : range.length = 0
    · refine ⟨array, _, structarrayInsertInRange_empty array empty bytes fresh, rfl, ?_⟩
      rw [(length_eq_zero_iff range).mp empty, records_nil, List.append_nil,
        List.take_append_drop]
      exact holds
    · obtain ⟨space, inside, covers, several⟩ := Or.resolve_left permitted empty
      rw [Structarray.HasSpaceFor, counted, sized] at space
      rw [counted] at inside
      rw [sized, copied] at covers
      rw [sized] at several
      obtain ⟨next, done, nextHolds⟩ :=
        structarrayInsertInRange_holds holds empty space inside covers several fresh
      exact ⟨next, _, done, rfl, nextHolds⟩
  | removeInRange range =>
    obtain ⟨next, done, nextHolds⟩ := structarrayRemoveInRange_holds holds permitted
    exact ⟨next, _, done, rfl, nextHolds⟩
  | setCount count fresh =>
    obtain ⟨bound, shrinks⟩ := permitted
    rw [sized] at bound
    by_cases fewer : count.toNat ≤ items.length
    · obtain ⟨next, done, nextHolds⟩ := structarraySetCount_fewer holds fewer shrinks fresh
      refine ⟨next, _, ?_, ?_, nextHolds⟩
      · simp only [structarrayStep, done, Option.bind_eq_bind, Option.bind_some]
      · rw [ArrayOp.Does, if_pos fewer]
    · obtain ⟨next, added, done, length, nextHolds⟩ :=
        structarraySetCount_more holds (Nat.lt_of_not_le fewer) bound fresh
      refine ⟨next, items ++ added, ?_, ?_, nextHolds⟩
      · simp only [structarrayStep, done, Option.bind_eq_bind, Option.bind_some]
      · rw [ArrayOp.Does, if_neg fewer]
        exact ⟨added, length, rfl⟩
  | addStructarray other range fresh =>
    obtain ⟨⟨others, otherHolds⟩, same, space⟩ := permitted
    rw [Structarray.HasSpaceFor, counted, sized] at space
    rw [same, sized] at otherHolds
    obtain ⟨next, done, nextHolds⟩ :=
      structarrayAddStructarray_holds holds otherHolds space fresh
    exact ⟨next, _, done, rfl, nextHolds⟩
  | addItself range fresh =>
    have space : array.HasSpaceFor
      (validatedRange (structarrayGetCount array) range).length.toNat := permitted
    rw [Structarray.HasSpaceFor, counted, sized] at space
    obtain ⟨next, done, nextHolds⟩ := structarrayAddStructarray_holds holds holds
      (by rwa [counted]) fresh
    rw [holds.shown, counted] at nextHolds
    exact ⟨next, _, done, rfl, nextHolds⟩
  | reset => exact ⟨_, _, rfl, rfl, structarrayReset_holds holds⟩

/-- Every permitted run on a new structarray makes the list of records it should, and
extraction then gives all of them exactly if their bytes are not more than the structs
there is room for. -/
theorem structarrayRun_extracts_iff {start : Structarray} (begins : start.Begins)
    {ops : List ArrayOp} (permitted : PermittedFrom structarrayStep
      (fun array op => op.Permitted array) start ops) :
    ∃ final, ops.foldlM structarrayStep start = some final ∧
      Reaches (ArrayOp.Does start.sizeofStruct start.copySizeofStruct) [] ops
        (structarrayRecords final.copySizeofStruct final) ∧
      ∀ fresh, final.Extracts fresh ↔
        structarrayGetCount final * final.sizeofStruct ≤ structarrayGetSize final ∧
          (final.initialStorage = true → structarrayGetSize final ≠ 0) := by
  obtain ⟨final, items, finished, reached, holds⟩ :=
    foldlM_reaches structarrayStep_follows ops [] start begins.holds permitted
  refine ⟨final, finished, ?_, ?_⟩
  · rw [holds.copied, holds.shown]
    exact reached
  · intro fresh
    have sized := holds.sized
    have copied := holds.copied
    rw [← sized, ← copied] at holds
    exact holds.extracts_iff fresh

theorem structarrayRun_extracts_iff_added :
    ∃ final, [ArrayOp.add [1, 2, 3, 4] fun _ => 0, .setCount 1 fun _ => 0].foldlM structarrayStep
        ⟨[], 0, 0, false, 4, 4⟩ = some final ∧
      Reaches (ArrayOp.Does 4 4) [] [.add [1, 2, 3, 4] fun _ => 0, .setCount 1 fun _ => 0]
        (structarrayRecords final.copySizeofStruct final) := by
  obtain ⟨final, finished, reached, -⟩ := @structarrayRun_extracts_iff ⟨[], 0, 0, false, 4, 4⟩
    ⟨4, 4, 0, fun _ => 0, by decide, Or.inl rfl⟩
    [.add [1, 2, 3, 4] fun _ => 0, .setCount 1 fun _ => 0]
    ⟨⟨by rw [Structarray.HasSpaceFor]; decide, by decide⟩, fun next stepped =>
      ⟨⟨by cases stepped; decide, fun zero => absurd zero (by decide)⟩, fun _ _ => trivial⟩⟩
  exact ⟨final, finished, reached⟩

/-- Two structs of four bytes in static storage for four: four bytes come out. On the
heap the count cannot be set to 0. -/
theorem structarrayExtractData_truncates :
    (∃ start final, structarrayInitWithStaticStorage 4 4 4 (fun _ => 0) = some start ∧
      [ArrayOp.add [1, 2, 3, 4] fun _ => 0, .add [5, 6, 7, 8] fun _ => 0].foldlM structarrayStep
        start = some final ∧ ¬final.Extracts fun _ => 0) ∧
    ∃ start, structarrayInit 4 4 1 (fun _ => 0) = some start ∧
      structarraySetCount start 0 (fun _ => 0) = none := by
  constructor
  · refine ⟨_, _, rfl, rfl, ?_⟩
    rintro ⟨left, data, extracted, -, -, covers, -⟩
    cases extracted
    exact absurd covers (by decide)
  · exact ⟨_, rfl, rfl⟩

end Runs

end MulleCore
