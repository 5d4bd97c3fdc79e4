import MulleCore.Container.Math
import MulleCore.Data.Hash
import MulleCore.Data.Range
import MulleCore.Data.Word
import MulleCore.Library.Block

/-!
`mulle--pointerarray.h` and `mulle--pointerarray.c`. The blocks of the memory are numbered, and
`_curr` and `_sentinel` are counted from `_storage`. A result of `none` stands for a failed
`assert`, an access outside of a block, a block of no bytes or of too many, and for a
`realloc` or `free` of what is not on the heap.
-/

namespace MulleCore

open Library

inductive BlockKind where
  | static
  | heap
  | freed
deriving DecidableEq

structure PointerBlock where
  kind : BlockKind
  cells : List Pointer
deriving DecidableEq

abbrev PointerMemory := List PointerBlock

/-- NULL is `none`. -/
structure Pointerarray where
  storage : Option Nat
  curr : Nat
  sentinel : Nat
  initialStorage : Option Nat
deriving DecidableEq

def pointersMalloc (memory : PointerMemory) (size : Nat) (fresh : Nat → Pointer) :
    Option (PointerMemory × Nat) := do
  let length ← allocatorSizeMultiply size 8
  if length = 0 then none
  else some (memory ++ [⟨.heap, table size fresh⟩], memory.length)

/-- `mulle_allocator_realloc` for `size` pointers. It finds another place for the block. -/
def pointersRealloc (memory : PointerMemory) (storage : Option Nat) (size : Nat)
    (fresh : Nat → Pointer) :
    Option (PointerMemory × Nat) := do
  let length ← allocatorSizeMultiply size 8
  if length = 0 then none
  else
    match storage with
    | none => some (memory ++ [⟨.heap, table size fresh⟩], memory.length)
    | some id => do
        let block ← memory[id]?
        if block.kind ≠ .heap then none
        else some (memory.set id ⟨.freed, []⟩ ++ [⟨.heap, blockResize block.cells size fresh⟩],
          memory.length)

def pointersFree (memory : PointerMemory) : Option Nat → Option PointerMemory
  | none => some memory
  | some id => do
      let block ← memory[id]?
      if block.kind ≠ .heap then none else some (memory.set id ⟨.freed, []⟩)

def pointerarrayCells (memory : PointerMemory) (array : Pointerarray) : Option (List Pointer) :=
  match array.storage with
  | none => some []
  | some id => do
      let block ← memory[id]?
      if block.kind = .freed then none else some block.cells

def pointerarrayStore (memory : PointerMemory) (array : Pointerarray) (cells : List Pointer) :
    Option PointerMemory :=
  match array.storage with
  | none => some memory
  | some id => do
      let block ← memory[id]?
      if block.kind = .freed then none else some (memory.set id ⟨block.kind, cells⟩)

def pointerarrayInitWithStaticPointers (memory : PointerMemory) (storage : List Pointer) :
    Option (PointerMemory × Pointerarray) :=
  if storage.length = 0 then none
  else some (memory ++ [⟨.static, storage⟩], ⟨some memory.length, 0, storage.length,
    some memory.length⟩)

def pointerarrayInit (memory : PointerMemory) (capacity : Nat) (fresh : Nat → Pointer) :
    Option (PointerMemory × Pointerarray) :=
  if capacity ≠ 0 then do
    let (memory, id) ← pointersMalloc memory capacity fresh
    some (memory, ⟨some id, 0, capacity, none⟩)
  else some (memory, ⟨none, 0, 0, none⟩)

def pointerarrayDone (memory : PointerMemory) (array : Pointerarray) : Option PointerMemory :=
  if array.storage ≠ array.initialStorage then pointersFree memory array.storage else some memory

def pointerarrayGetSize (array : Pointerarray) : Nat := array.sentinel

def pointerarrayGetCount (array : Pointerarray) : Nat := array.curr

def pointerarrayRoundedSize (newSize : UInt64) : Nat :=
  let newSize := (pow2roundup64 newSize).toNat
  if newSize < 4 then 4 else newSize

section Growth

variable (memory : PointerMemory) (array : Pointerarray) (fresh : Nat → Pointer)

def pointerarrayRealloc (newSize : UInt64) : Option (PointerMemory × Pointerarray) :=
  let used := pointerarrayGetCount array
  let newSize := pointerarrayRoundedSize newSize
  if array.storage = array.initialStorage then do
    let old ← pointerarrayCells memory array
    let (memory, id) ← pointersMalloc memory newSize fresh
    let copied ← blockRead old 0 used
    let cells ← blockPaste (table newSize fresh) 0 copied
    let array := { array with storage := some id, curr := used, sentinel := newSize }
    let memory ← pointerarrayStore memory array cells
    some (memory, array)
  else do
    let (memory, id) ← pointersRealloc memory array.storage newSize fresh
    some (memory, { array with storage := some id, curr := used, sentinel := newSize })

def pointerarrayGrow : Option (PointerMemory × Pointerarray) :=
  pointerarrayRealloc memory array fresh (UInt64.ofNat (pointerarrayGetSize array) * 2)

def pointerarrayGuarantee (length : Nat) : Option (PointerMemory × Pointerarray) :=
  let size := pointerarrayGetSize array
  let available := size - pointerarrayGetCount array
  if available < length then
    pointerarrayRealloc memory array fresh (UInt64.ofNat (size + (length - available)))
  else some (memory, array)

def pointerarrayAdvance (length : Nat) : Option (PointerMemory × Pointerarray × Nat) := do
  let (memory, array) ← pointerarrayGuarantee memory array fresh length
  some (memory, { array with curr := array.curr + length }, array.curr)

def pointerarrayFill (offset : Nat) (pointers : List Pointer) : Option PointerMemory := do
  let cells ← pointerarrayCells memory array
  let cells ← blockPaste cells offset pointers
  pointerarrayStore memory array cells

def pointerarrayMakeRoom : Option (PointerMemory × Pointerarray) :=
  if array.curr = array.sentinel then pointerarrayGrow memory array fresh else some (memory, array)

def pointerarrayAdd (pointer : Pointer) : Option (PointerMemory × Pointerarray) := do
  let (memory, array) ← pointerarrayMakeRoom memory array fresh
  let memory ← pointerarrayFill memory array array.curr [pointer]
  some (memory, { array with curr := array.curr + 1 })

end Growth

section Operations

variable (memory : PointerMemory) (array : Pointerarray)

def pointerarrayCompact (notakey : Pointer) : Option (PointerMemory × Pointerarray) := do
  let cells ← pointerarrayCells memory array
  let used ← blockRead cells 0 array.curr
  let kept := used.filter (· ≠ notakey)
  let cells ← blockPaste cells 0 kept
  let memory ← pointerarrayStore memory array cells
  some (memory, { array with curr := kept.length })

def pointerarrayFindInRange (q : Pointer) (range : Range) : Option UInt64 := do
  let range := rangeValidateAgainstLength range (UInt64.ofNat (pointerarrayGetCount array))
  let cells ← pointerarrayCells memory array
  let searched ← blockRead cells range.location.toNat range.length.toNat
  match searched.idxOf? q with
  | some index => some (range.location + UInt64.ofNat index)
  | none => some notFound

def pointerarrayFind (q : Pointer) : Option UInt64 :=
  pointerarrayFindInRange memory array q (rangeMake 0 0xffffffffffffffff)

def pointerarrayEnumerate (p : Pointer) : List Pointer → Pointer
  | [] => 0
  | q :: rest => if q = p then q else pointerarrayEnumerate p rest

def pointerarrayMember (p : Pointer) : Option Bool := do
  let cells ← pointerarrayCells memory array
  let used ← blockRead cells 0 array.curr
  some (pointerarrayEnumerate p used = p)

def pointerarrayRemoveInRange (range : Range) : Option (PointerMemory × Pointerarray) := do
  let count := pointerarrayGetCount array
  let range := rangeIntersection range (rangeMake 0 (UInt64.ofNat count))
  if range.length = 0 then some (memory, array)
  else do
    let location := range.location.toNat
    let tail := location + range.length.toNat
    let cells ← pointerarrayCells memory array
    let cells ← blockMove cells location tail (count - tail)
    let memory ← pointerarrayStore memory array cells
    some (memory, { array with curr := array.curr - range.length.toNat })

def pointerarrayGet (i : Nat) : Option Pointer := do
  let cells ← pointerarrayCells memory array
  if i < array.curr then cells[i]? else none

end Operations

def pointerarrayRemoveFrom (p : Pointer) : Nat → PointerMemory → Pointerarray →
    Option (PointerMemory × Pointerarray)
  | 0, memory, array => some (memory, array)
  | i + 1, memory, array => do
      let item ← pointerarrayGet memory array i
      if p = item then do
        let (memory, array) ← pointerarrayRemoveInRange memory array (rangeMake (UInt64.ofNat i) 1)
        pointerarrayRemoveFrom p i memory array
      else pointerarrayRemoveFrom p i memory array

section Changes

variable (memory : PointerMemory) (array : Pointerarray) (fresh : Nat → Pointer)

def pointerarrayRemove (p : Pointer) : Option (PointerMemory × Pointerarray) :=
  pointerarrayRemoveFrom p (pointerarrayGetCount array) memory array

/-- A length of `-1` counts the pointers in front of a NULL. -/
def pointersCount (length : UInt64) (pointers : List Pointer) : Option Nat :=
  if length = 0xffffffffffffffff then pointers.idxOf? 0 else some length.toNat

def pointerarrayInsertRoom (newCount : Nat) : Option (PointerMemory × Pointerarray) :=
  if newCount > pointerarrayGetSize array then
    pointerarrayRealloc memory array fresh (pow2roundup64 (UInt64.ofNat newCount))
  else some (memory, array)

def pointerarrayInsertInRange (range : Range) (pointers : List Pointer) :
    Option (PointerMemory × Pointerarray) := do
  let length ← pointersCount range.length pointers
  if length = 0 then some (memory, array)
  else
    let location := range.location.toNat
    let count := pointerarrayGetCount array
    if count < location then none
    else do
      let newCount := count + length
      let (memory, array) ← pointerarrayInsertRoom memory array fresh newCount
      let cells ← pointerarrayCells memory array
      let cells ← blockMove cells (location + length) location (count - location)
      let copied ← blockRead pointers 0 length
      let cells ← blockPaste cells location copied
      let memory ← pointerarrayStore memory array cells
      some (memory, { array with curr := newCount })

def pointerarrayExtractPointers : Option (PointerMemory × Pointerarray × List Pointer) := do
  let cells ← pointerarrayCells memory array
  let data ← blockRead cells 0 (pointerarrayGetCount array)
  if array.storage ≠ none ∧ array.storage = array.initialStorage then do
    let (memory, _) ← pointersMalloc memory data.length fun index => data.getD index 0
    some (memory, { array with curr := 0, storage := array.initialStorage }, data)
  else some (memory, ⟨none, 0, 0, none⟩, data)

def pointerarrayPop : Option (Pointerarray × Pointer) :=
  if array.curr > 0 then do
    let cells ← pointerarrayCells memory array
    let pointer ← cells[array.curr - 1]?
    some ({ array with curr := array.curr - 1 }, pointer)
  else some (array, 0)

def pointerarraySet (i : Nat) (p : Pointer) : Option PointerMemory := do
  let cells ← pointerarrayCells memory array
  if i < array.curr then do
    let cells ← blockWrite cells i p
    pointerarrayStore memory array cells
  else none

def pointerarraySetZeroing (i : Nat) (value : Pointer) : Option (PointerMemory × Pointerarray) :=
  let n := pointerarrayGetCount array
  if i < n then do
    let memory ← pointerarraySet memory array i value
    some (memory, array)
  else do
    let zeroes := i - n
    let (memory, array, space) ← pointerarrayAdvance memory array fresh (zeroes + 1)
    let memory ← pointerarrayFill memory array space (List.replicate zeroes 0)
    let memory ← pointerarrayFill memory array (space + zeroes) [value]
    some (memory, array)

def pointerarrayZeroTo (i : Nat) : Option (PointerMemory × Pointerarray) :=
  let n := pointerarrayGetCount array
  if i ≥ n then do
    let zeroes := i - n + 1
    let (memory, array, space) ← pointerarrayAdvance memory array fresh zeroes
    let memory ← pointerarrayFill memory array space (List.replicate zeroes 0)
    some (memory, array)
  else some (memory, array)

def pointerarrayGetZeroingAddress (i : Nat) : Option (PointerMemory × Pointerarray) := do
  let (memory, array) ← pointerarrayZeroTo memory array fresh i
  if i < array.curr then some (memory, array) else none

end Changes

structure PointerWorld where
  memory : PointerMemory
  arrays : List Pointerarray

def worldSet (world : PointerWorld) (memory : PointerMemory) (index : Nat) (array : Pointerarray) :
    PointerWorld :=
  ⟨memory, world.arrays.set index array⟩

def pointerarrayAddPointerarray (world : PointerWorld) (fresh : Nat → Pointer) (index other : Nat)
    (range : Range) :
    Option PointerWorld := do
  let array ← world.arrays[index]?
  let count ← world.arrays[other]?.map pointerarrayGetCount
  let range := rangeValidateAgainstLength range (UInt64.ofNat count)
  if range.length = 0 then some world
  else do
    let (memory, array, dst) ← pointerarrayAdvance world.memory array fresh range.length.toNat
    let world := worldSet world memory index array
    let source ← world.arrays[other]?
    let cells ← pointerarrayCells world.memory source
    let q ← blockRead cells range.location.toNat range.length.toNat
    let memory ← pointerarrayFill world.memory array dst q
    some (worldSet world memory index array)

def pointerarrayAbsorbArray (world : PointerWorld) (fresh : Nat → Pointer) (index victim : Nat) :
    Option PointerWorld :=
  if index = victim then none
  else do
    let array ← world.arrays[index]?
    let other ← world.arrays[victim]?
    if array.storage = none then
      let world := worldSet world world.memory index ⟨other.storage, other.curr, other.sentinel, none⟩
      some (worldSet world world.memory victim
        { other with storage := none, curr := 0, sentinel := 0 })
    else do
      let n := pointerarrayGetCount other
      let (memory, array, reserved) ← pointerarrayAdvance world.memory array fresh n
      let cells ← pointerarrayCells memory other
      let moved ← blockRead cells 0 n
      let memory ← pointerarrayFill memory array reserved moved
      let world := worldSet world memory index array
      some (worldSet world memory victim { other with curr := 0 })

end MulleCore
