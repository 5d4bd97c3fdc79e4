import MulleCore.Library.Records
import MulleCore.Data.Range
import MulleCore.Data.Word
import MulleCore.Container.Math

/-!
`mulle--structarray.c`. `_curr` and `_sentinel` are offsets into the storage here.
`_initial_storage` is either `NULL` or what `_storage` points to. A result of `none`
stands for an `abort`, a failed `assert` or an access outside a block. `malloc` and
`realloc` fail for a size of 0; what they find in fresh memory is a parameter.
-/

namespace MulleCore

open Library

variable {newSize count more : Nat}

structure Structarray where
  storage : List UInt8
  curr : Nat
  sentinel : Nat
  initialStorage : Bool
  sizeofStruct : Nat
  copySizeofStruct : Nat

structure StructData where
  bytes : List UInt8
  length : Nat

def structarrayGetCount (array : Structarray) : Nat :=
  let length := array.curr
  if length ≠ 0 then length / array.sizeofStruct else length

def structarrayGetSize (array : Structarray) : Nat :=
  let length := array.sentinel
  if length ≠ 0 then length / array.sizeofStruct else 0

def structarrayReallocAsLength (array : Structarray) (newSize : Nat) (fresh : Nat → UInt8) :
    Option Structarray :=
  let oldSize := array.curr
  if newSize < oldSize then none
  else if array.initialStorage then
    if newSize ≤ array.sentinel then some array
    else do
      let used ← blockRead array.storage 0 oldSize
      let storage ← blockPaste (table newSize fresh) 0 used
      some { array with
        storage := storage, initialStorage := false, curr := oldSize, sentinel := newSize }
  else if newSize = 0 then none
  else some { array with
    storage := blockResize array.storage newSize fresh, curr := oldSize, sentinel := newSize }

def structarrayRealloc (array : Structarray) (newSize : Nat) (fresh : Nat → UInt8) :
    Option Structarray := do
  let length ← allocatorSizeMultiply newSize array.sizeofStruct
  structarrayReallocAsLength array length fresh

def structarraySizeto (array : Structarray) (newSize : Nat) (fresh : Nat → UInt8) :
    Option Structarray :=
  structarrayRealloc array newSize fresh

def structarraySizeToFit (array : Structarray) (fresh : Nat → UInt8) : Option Structarray :=
  structarraySizeto array (structarrayGetCount array) fresh

def structarrayAlignedSize (sizeofStruct alignofStruct : Nat) : Nat :=
  (sizeofStruct + alignofStruct - 1) / alignofStruct * alignofStruct

def structarrayInit (sizeofStruct alignofStruct capacity : Nat) (fresh : Nat → UInt8) :
    Option Structarray :=
  let array : Structarray :=
    { storage := [], curr := 0, sentinel := 0, initialStorage := false
      sizeofStruct := structarrayAlignedSize sizeofStruct alignofStruct
      copySizeofStruct := sizeofStruct }
  if array.sizeofStruct = 0 then none
  else if capacity ≠ 0 then structarraySizeto array capacity fresh
  else some array

def structarrayInitWithStaticStorage (sizeofStruct alignofStruct count : Nat)
    (contents : Nat → UInt8) : Option Structarray :=
  let size := structarrayAlignedSize sizeofStruct alignofStruct
  if size = 0 then none
  else some
    { storage := table (count * size) contents, curr := 0, sentinel := count * size
      initialStorage := true, sizeofStruct := size, copySizeofStruct := sizeofStruct }

def structarrayDouble (array : Structarray) : Option Nat :=
  let oldSize := array.sentinel
  let newSize := (if oldSize ≠ 0 then oldSize else array.sizeofStruct) * 2 % 2 ^ 64
  if newSize < oldSize then none else some newSize

def structarrayGrow (array : Structarray) (fresh : Nat → UInt8) : Option Structarray := do
  let newSize ← structarrayDouble array
  structarrayReallocAsLength array newSize fresh

def structarrayGuarantee (array : Structarray) (length : Nat) (fresh : Nat → UInt8) :
    Option Structarray :=
  let size := structarrayGetSize array
  let available := size - structarrayGetCount array
  if available < length then do
    let newSize ← structarrayDouble array
    let neededSize ← allocatorSizeMultiply ((size + (length - available)) % 2 ^ 64)
      array.sizeofStruct
    structarrayReallocAsLength array (if neededSize > newSize then neededSize else newSize) fresh
  else some array

def structarrayAdvance (array : Structarray) (count : Nat) (fresh : Nat → UInt8) :
    Option (Structarray × Nat) := do
  let array ← structarrayGuarantee array count fresh
  some ({ array with curr := (array.curr + array.sizeofStruct * count) % 2 ^ 64 }, array.curr)

def asLong (count : Nat) : Int := if count < 2 ^ 63 then count else count - 2 ^ 64

def structarraySetCount (array : Structarray) (count : UInt64) (fresh : Nat → UInt8) :
    Option (Structarray × Nat) :=
  let diff := asLong count.toNat - asLong (structarrayGetCount array)
  if diff ≤ 0 then do
    let curr := ((array.curr + diff * array.sizeofStruct) % 2 ^ 64).toNat
    let array ← structarraySizeToFit { array with curr := curr } fresh
    some (array, 0)
  else do
    let (array, _) ← structarrayAdvance array diff.toNat fresh
    some (array, diff.toNat)

def structarrayReset (array : Structarray) : Structarray := { array with curr := 0 }

def structarrayGet (array : Structarray) (i : Nat) : Option Nat :=
  let address := array.sizeofStruct * i
  if address < array.sentinel then some address else none

def structarraySet (array : Structarray) (i : Nat) (item : List UInt8) : Option Structarray := do
  let address ← structarrayGet array i
  let copied ← blockRead item 0 array.copySizeofStruct
  let storage ← blockPaste array.storage address copied
  some { array with storage := storage }

def structarrayMakeRoom (array : Structarray) (fresh : Nat → UInt8) : Option Structarray :=
  if array.curr = array.sentinel then structarrayGrow array fresh else some array

def structarrayAdd (array : Structarray) (item : List UInt8) (fresh : Nat → UInt8) :
    Option Structarray := do
  let array ← structarrayMakeRoom array fresh
  let copied ← blockRead item 0 array.copySizeofStruct
  let storage ← blockPaste array.storage array.curr copied
  some { array with storage := storage, curr := array.curr + array.sizeofStruct }

def structarrayAddWithin (array other : Structarray) (range : Range) (fresh : Nat → UInt8) :
    Option Structarray :=
  if other.sizeofStruct ≠ array.sizeofStruct then none
  else do
    let (array, buf) ← structarrayAdvance array range.length.toNat fresh
    let copied ← blockRead other.storage (range.location.toNat * array.sizeofStruct)
      (range.length.toNat * array.sizeofStruct)
    let storage ← blockPaste array.storage buf copied
    some { array with storage := storage }

def validatedRange (count : Nat) (range : Range) : Range :=
  rangeValidateAgainstLength range (UInt64.ofNat count)

/-- `other` may be `array` itself: its used bytes are the same before and after the advance. -/
def structarrayAddStructarray (array other : Structarray) (range : Range) (fresh : Nat → UInt8) :
    Option Structarray :=
  if (validatedRange (structarrayGetCount other) range).length = 0 then some array
  else structarrayAddWithin array other (validatedRange (structarrayGetCount other) range) fresh

def structarrayResizeForInsert (array : Structarray) (newCount : Nat) (fresh : Nat → UInt8) :
    Option Structarray :=
  if newCount > structarrayGetSize array then
    structarrayRealloc array (pow2roundup64 (UInt64.ofNat newCount)).toNat fresh
  else some array

def structarrayInsertInRange (array : Structarray) (range : Range) (items : List UInt8)
    (fresh : Nat → UInt8) : Option Structarray :=
  let location := range.location.toNat
  let length := range.length.toNat
  let count := structarrayGetCount array
  if range.length = 0xffffffffffffffff then none
  else if range.length = 0 then some array
  else if count < location then none
  else do
    let newCount := (count + length) % 2 ^ 64
    let array ← structarrayResizeForInsert array newCount fresh
    let size := array.sizeofStruct
    let moved ← blockMove array.storage ((location + length) % 2 ^ 64 * size) (location * size)
      ((count - location) * size)
    -- a single struct may be smaller than its place
    let copied ← blockRead items 0
      (if length = 1 then array.copySizeofStruct else length * size)
    let storage ← blockPaste moved (location * size) copied
    some { array with storage := storage, curr := newCount * size }

def structarrayRemoveWithin (array : Structarray) (range : Range) : Option Structarray :=
  let tail := (rangeGetMax range).toNat
  let length := (structarrayGetCount array - tail) * array.sizeofStruct
  let curr := array.curr - range.length.toNat * array.sizeofStruct
  if length ≠ 0 then do
    let target ← structarrayGet array range.location.toNat
    let source ← structarrayGet array tail
    let storage ← blockMove array.storage target source length
    some { array with storage := storage, curr := curr }
  else some { array with curr := curr }

def structarrayRemovedRange (array : Structarray) (range : Range) : Range :=
  rangeIntersection range (rangeMake 0 (UInt64.ofNat (structarrayGetCount array)))

def structarrayRemoveInRange (array : Structarray) (range : Range) : Option Structarray :=
  if range.length = 0 then some array
  else if (structarrayRemovedRange array range).length = 0 then some array
  else structarrayRemoveWithin array (structarrayRemovedRange array range)

/-- The length is `_mulle__structarray_get_size`, which counts structs. -/
def structarrayExtractData (array : Structarray) (fresh : Nat → UInt8) :
    Option (Structarray × StructData) :=
  let length := structarrayGetSize array
  if array.initialStorage then
    if length = 0 then none
    else do
      let copied ← blockRead array.storage 0 length
      let bytes ← blockPaste (table length fresh) 0 copied
      some ({ array with curr := 0 }, ⟨bytes, length⟩)
  else some ({ array with storage := [], curr := 0, sentinel := 0 }, ⟨array.storage, length⟩)

/-!
A structarray as a list of its records. Growing it, from static to heap storage too,
keeps the list.
-/

structure Structarray.Holds (stride width : Nat) (array : Structarray)
    (items : List (List UInt8)) : Prop where
  sized : array.sizeofStruct = stride
  copied : array.copySizeofStruct = width
  positive : 0 < stride
  narrow : width ≤ stride
  whole : array.storage.length = array.sentinel
  capacity : array.sentinel = structarrayGetSize array * stride
  counted : array.curr = items.length * stride
  within : array.curr ≤ array.sentinel
  small : items.length * stride < 2 ^ 63
  contents : records stride width items.length array.storage = items

variable {stride width : Nat} {array : Structarray} {items : List (List UInt8)}

theorem le_bytes (positive : 0 < stride) (count : Nat) : count ≤ count * stride :=
  Nat.le_mul_of_pos_right count positive

theorem Structarray.Holds.getCount (holds : array.Holds stride width items) :
    structarrayGetCount array = items.length := by
  rw [structarrayGetCount, holds.counted, holds.sized]
  split
  · exact Nat.mul_div_cancel _ holds.positive
  · rename_i empty
    rw [ne_eq, not_not] at empty
    rcases Nat.mul_eq_zero.mp empty with zero | zero
    · rw [zero, Nat.zero_mul]
    · exact absurd zero (Nat.ne_of_gt holds.positive)

theorem structarrayGetSize_mul (positive : 0 < stride) (sized : array.sizeofStruct = stride)
    {capacity : Nat} (sentinel : array.sentinel = capacity * stride) :
    array.sentinel = structarrayGetSize array * stride := by
  rw [structarrayGetSize, sized, sentinel]
  split
  · rw [Nat.mul_div_cancel _ positive]
  · rename_i empty
    rw [ne_eq, not_not] at empty
    rw [empty, Nat.zero_mul]

section

variable (holds : array.Holds stride width items)
include holds

theorem Structarray.Holds.length_le :
    items.length ≤ structarrayGetSize array := by
  have within := holds.within
  rw [holds.counted, holds.capacity] at within
  exact Nat.le_of_mul_le_mul_right within holds.positive

theorem Structarray.Holds.moved {storage : List UInt8}
    (fits : array.curr ≤ newSize) (whole : storage.length = newSize)
    (multiple : newSize = count * stride)
    (same : ∀ place, place < array.curr → storage[place]? = array.storage[place]?)
    (initialStorage : Bool) :
    Structarray.Holds stride width { array with
      storage := storage, initialStorage := initialStorage, curr := array.curr
      sentinel := newSize } items := by
  constructor
  · exact holds.sized
  · exact holds.copied
  · exact holds.positive
  · exact holds.narrow
  · exact whole
  · exact structarrayGetSize_mul holds.positive holds.sized multiple
  · exact holds.counted
  · exact fits
  · exact holds.small
  · refine Eq.trans (records_congr holds.narrow ?_) holds.contents
    intro place inside
    exact same place (by rwa [holds.counted])

theorem structarrayReallocAsLength_holds
    (multiple : newSize = count * stride) (fits : array.curr ≤ newSize)
    (nonzero : array.initialStorage = false → newSize ≠ 0) (fresh : Nat → UInt8) :
    ∃ next, structarrayReallocAsLength array newSize fresh = some next ∧
      next.Holds stride width items ∧ newSize ≤ next.sentinel := by
  rw [structarrayReallocAsLength]
  rw [if_neg (Nat.not_lt_of_le fits)]
  cases fixed : array.initialStorage with
  | true =>
    rw [if_pos rfl]
    by_cases roomy : newSize ≤ array.sentinel
    · rw [if_pos roomy]
      exact ⟨array, rfl, holds, roomy⟩
    · rw [if_neg roomy]
      have within := holds.within
      have used : blockRead array.storage 0 array.curr =
          some (slice array.storage 0 array.curr) := by
        refine if_pos ?_
        rw [Nat.zero_add, holds.whole]
        exact within
      have usedLength : (slice array.storage 0 array.curr).length = array.curr := by
        rw [slice, List.drop_zero, List.length_take, holds.whole]
        omega
      have room : 0 + (slice array.storage 0 array.curr).length ≤
          (table newSize fresh).length := by
        rw [usedLength, table_length]
        omega
      obtain ⟨storage, pasted, length, cellAt⟩ := blockPaste_some room
      simp only [used, pasted, Option.bind_eq_bind, Option.bind_some]
      refine ⟨_, rfl, holds.moved fits (length.trans (table_length _ _)) multiple ?_ false,
        Nat.le_refl _⟩
      intro place inside
      rw [cellAt, if_pos (by omega), Nat.sub_zero, slice, slice_getElem?, if_pos inside,
        Nat.zero_add]
  | false =>
    rw [if_neg Bool.false_ne_true, if_neg (nonzero fixed)]
    have kept := holds.moved fits (blockResize_length array.storage newSize fresh) multiple
      (fun place inside => blockResize_getElem? array.storage fresh
        (Nat.lt_of_lt_of_le inside (Nat.le_trans holds.within (Nat.le_of_eq holds.whole.symm)))
        (Nat.lt_of_lt_of_le inside fits)) false
    exact ⟨_, rfl, kept, Nat.le_refl _⟩

theorem structarrayDouble_some (full : structarrayGetSize array < items.length + more)
    (bound : (items.length + more) * stride < 2 ^ 63) :
    ∃ count, structarrayDouble array = some (count * stride) ∧ array.sentinel ≤ count * stride ∧
      structarrayGetSize array < count := by
  have positive := holds.positive
  have capacity := holds.capacity
  have bytes : (structarrayGetSize array + 1) * stride ≤ (items.length + more) * stride :=
    Nat.mul_le_mul_right stride full
  rw [Nat.add_mul, Nat.one_mul] at bytes
  rw [structarrayDouble, holds.sized]
  by_cases empty : array.sentinel ≠ 0
  · have sizePositive : structarrayGetSize array ≠ 0 := by
      intro zero
      rw [zero, Nat.zero_mul] at capacity
      exact empty capacity
    refine ⟨structarrayGetSize array * 2, ?_, ?_, by omega⟩
    · rw [if_pos empty, Nat.mod_eq_of_lt (by omega), if_neg (by omega), capacity,
        Nat.mul_right_comm]
    · rw [Nat.mul_right_comm, ← capacity]
      omega
  · have sizeZero : structarrayGetSize array = 0 := by
      rw [structarrayGetSize]
      rw [if_neg empty]
    refine ⟨2, ?_, ?_, by omega⟩
    · rw [if_neg empty, Nat.mod_eq_of_lt (by omega), if_neg (by omega), Nat.mul_comm]
    · omega

theorem structarrayGrow_holds
    (full : array.curr = array.sentinel) (bound : (items.length + 1) * stride < 2 ^ 63)
    (fresh : Nat → UInt8) :
    ∃ next, structarrayGrow array fresh = some next ∧ next.Holds stride width items ∧
      (items.length + 1) * stride ≤ next.sentinel := by
  have same : items.length = structarrayGetSize array := by
    have bytes := holds.counted.symm.trans (full.trans holds.capacity)
    exact Nat.eq_of_mul_eq_mul_right holds.positive bytes
  obtain ⟨count, doubled, atLeast, more⟩ := structarrayDouble_some holds
    (Nat.lt_of_le_of_lt (Nat.le_of_eq same.symm) (Nat.lt_succ_self _)) bound
  have enough : (items.length + 1) * stride ≤ count * stride :=
    Nat.mul_le_mul_right stride (by omega)
  have positive := holds.positive
  have bytes := le_bytes positive (items.length + 1)
  obtain ⟨next, done, nextHolds, roomy⟩ := structarrayReallocAsLength_holds holds rfl
    (Nat.le_trans holds.within atLeast) (fun _ => by omega) fresh
  refine ⟨next, ?_, nextHolds, Nat.le_trans enough roomy⟩
  simp only [structarrayGrow, doubled, done, Option.bind_eq_bind, Option.bind_some]

theorem structarrayGuarantee_holds
    (bound : (items.length + more) * stride < 2 ^ 63) (fresh : Nat → UInt8) :
    ∃ next, structarrayGuarantee array more fresh = some next ∧ next.Holds stride width items ∧
      (items.length + more) * stride ≤ next.sentinel := by
  have positive := holds.positive
  have within := holds.length_le
  have words := le_bytes positive (items.length + more)
  rw [structarrayGuarantee, holds.getCount]
  by_cases lacking : structarrayGetSize array - items.length < more
  · rw [if_pos lacking]
    obtain ⟨count, doubled, atLeast, -⟩ := structarrayDouble_some holds
      (show structarrayGetSize array < items.length + more by omega) bound
    have needed : (structarrayGetSize array +
        (more - (structarrayGetSize array - items.length))) % 2 ^ 64 = items.length + more := by
      rw [Nat.mod_eq_of_lt (by omega)]
      omega
    have used : array.curr ≤ (items.length + more) * stride := by
      rw [holds.counted]
      exact Nat.mul_le_mul_right stride (Nat.le_add_right _ _)
    simp only [doubled, needed, holds.sized,
      allocatorSizeMultiply_some (Nat.lt_trans bound (by decide)), Option.bind_eq_bind,
      Option.bind_some]
    by_cases larger : (items.length + more) * stride > count * stride
    · rw [if_pos larger]
      obtain ⟨next, done, nextHolds, roomy⟩ :=
        structarrayReallocAsLength_holds holds rfl used (fun _ => by omega) fresh
      exact ⟨next, done, nextHolds, roomy⟩
    · rw [if_neg larger]
      obtain ⟨next, done, nextHolds, roomy⟩ := structarrayReallocAsLength_holds holds rfl
        (Nat.le_trans holds.within atLeast) (fun _ => by omega) fresh
      exact ⟨next, done, nextHolds, Nat.le_trans (Nat.le_of_not_lt larger) roomy⟩
  · rw [if_neg lacking]
    refine ⟨array, rfl, holds, ?_⟩
    rw [holds.capacity]
    exact Nat.mul_le_mul_right stride (by omega)

theorem structarrayResizeForInsert_holds
    (bound : (items.length + more) * stride < 2 ^ 63) (fresh : Nat → UInt8) :
    ∃ next, structarrayResizeForInsert array (items.length + more) fresh = some next ∧
      next.Holds stride width items ∧ (items.length + more) * stride ≤ next.sentinel := by
  have positive := holds.positive
  have words := le_bytes positive (items.length + more)
  have within := holds.length_le
  rw [structarrayResizeForInsert]
  by_cases lacking : items.length + more > structarrayGetSize array
  · rw [if_pos lacking]
    have exact64 : (UInt64.ofNat (items.length + more)).toNat = items.length + more :=
      UInt64.toNat_ofNat_of_lt' (Nat.lt_of_le_of_lt words (Nat.lt_trans bound (by decide)))
    have rounded : (pow2roundup64 (UInt64.ofNat (items.length + more))).toNat =
        pow2roundup (items.length + more) := by
      rw [pow2roundup64_toNat, exact64]
      · omega
      · omega
    have atLeast := le_pow2roundup (items.length + more)
    have less := pow2roundup_lt_double (show 0 < items.length + more by omega) (by omega)
    have bytes : pow2roundup (items.length + more) * stride ≤
        2 * (items.length + more) * stride := Nat.mul_le_mul_right stride (Nat.le_of_lt less)
    have enough : (items.length + more) * stride ≤ pow2roundup (items.length + more) * stride :=
      Nat.mul_le_mul_right stride atLeast
    rw [Nat.mul_assoc] at bytes
    have used : array.curr ≤ (items.length + more) * stride := by
      rw [holds.counted]
      exact Nat.mul_le_mul_right stride (Nat.le_add_right _ _)
    obtain ⟨next, done, nextHolds, roomy⟩ := structarrayReallocAsLength_holds holds rfl
      (Nat.le_trans used enough) (fun _ => by omega) fresh
    refine ⟨next, ?_, nextHolds, Nat.le_trans enough roomy⟩
    simp only [structarrayRealloc, rounded, holds.sized,
      allocatorSizeMultiply_some (show pow2roundup (items.length + more) * stride < 2 ^ 64 by omega),
      done, Option.bind_eq_bind, Option.bind_some]
  · rw [if_neg lacking]
    refine ⟨array, rfl, holds, ?_⟩
    rw [holds.capacity]
    exact Nat.mul_le_mul_right stride (Nat.le_of_not_lt lacking)

end

end MulleCore
