import MulleCore.Data.Range
import MulleCore.Data.Word
import MulleCore.Library.Block

/-!
`mulle--buffer.h`, `mulle--buffer.c` and the flush of `mulle-flushablebuffer.c`. Positions
are counted from `_storage`, and the storage is given by its bytes up to `_sentinel`. A
result of `none` stands for a failed `assert` or an access outside of the storage. The
bytes and strings that are passed lie outside of the buffer's storage, a string ends with
the list at the latest.
-/

namespace MulleCore

open Library

inductive BufferType where
  | flexible
  | inflexible
  | flushable
  | sprintfInflexible
deriving DecidableEq

/-- What `_storage` is. It equals `_initial_storage` unless it is on the heap. -/
inductive BufferPlace where
  | null
  | initial
  | heap
deriving DecidableEq

/-- With the `_flushed` of a flushable buffer, and with what its flusher has taken. -/
structure MulleBuffer where
  place : BufferPlace
  storage : List UInt8
  curr : Nat
  size : Nat
  type : BufferType
  overflown : Bool
  flushed : Nat
  delivered : List UInt8
deriving DecidableEq

/-- `MULLE_BUFFER_MIN_GROW_SIZE`, and how many bytes the flusher takes of a block after what
it has taken so far. -/
structure BufferEnv where
  minGrow : Nat
  flusher : List UInt8 → List UInt8 → Nat

def bufferInit (capacity : Nat) : MulleBuffer :=
  ⟨.null, [], 0, capacity, .flexible, false, 0, []⟩

def bufferInitWithAllocatedBytes (storage : List UInt8) : MulleBuffer :=
  ⟨.heap, storage, 0, storage.length, .flexible, false, 0, []⟩

def bufferInitWithStaticBytes (storage : List UInt8) : MulleBuffer :=
  ⟨.initial, storage, 0, storage.length, .flexible, false, 0, []⟩

/-- For a `length` other than `INT_MAX`. -/
def bufferInitInflexibleWithStaticBytes (storage : List UInt8) : MulleBuffer :=
  ⟨.initial, storage, 0, storage.length, .inflexible, false, 0, []⟩

/-- For a `buf` other than NULL. -/
def bufferMakeInflexible (buffer : MulleBuffer) (buf : List UInt8) : MulleBuffer :=
  { buffer with
    place := .initial
    storage := buf
    curr := buf.length
    size := buf.length
    type := .inflexible
    overflown := false }

def flushablebufferMinCapacity : Nat := 8

def flushablebufferInitWithStaticBytes (storage : List UInt8) : Option MulleBuffer :=
  if flushablebufferMinCapacity ≤ storage.length then
    some ⟨.initial, storage, 0, storage.length, .flushable, false, 0, []⟩
  else none

def flushablebufferInitWithAllocatedBytes (storage : List UInt8) : Option MulleBuffer :=
  if flushablebufferMinCapacity ≤ storage.length then
    some ⟨.heap, storage, 0, 0, .flushable, false, 0, []⟩
  else none

def bufferIsInflexible (buffer : MulleBuffer) : Bool := buffer.type ≠ .flexible

def bufferIsFlushable (buffer : MulleBuffer) : Bool := buffer.type = .flushable

def bufferIsFull (buffer : MulleBuffer) : Bool :=
  buffer.overflown || buffer.place = .null || buffer.curr ≥ buffer.storage.length

def bufferIsEmpty (buffer : MulleBuffer) : Bool := buffer.curr = 0

def bufferIsVoid (buffer : MulleBuffer) : Bool := buffer.storage.length = 0

def bufferGetRemainingLength (buffer : MulleBuffer) : Nat :=
  if buffer.overflown then 0 else buffer.storage.length - buffer.curr

def bufferGetLength (buffer : MulleBuffer) : Nat :=
  if buffer.overflown then buffer.size else buffer.curr

def bufferGetLseek (buffer : MulleBuffer) : Nat :=
  if bufferIsFlushable buffer then buffer.flushed + bufferGetLength buffer else bufferGetLength buffer

def bufferGetLastByte (buffer : MulleBuffer) : Option Int :=
  if bufferGetLength buffer = 0 then some (-1)
  else buffer.storage[bufferGetLength buffer - 1]?.map fun byte => byte.toNat

def bufferSetOverflown (buffer : MulleBuffer) : Option MulleBuffer :=
  if buffer.overflown then none
  else some { buffer with
    size := bufferGetLength buffer
    curr := buffer.storage.length
    overflown := true }

section Storage

variable (env : BufferEnv) (fresh : Nat → UInt8)

def flushablebufferFlushed (buffer : MulleBuffer) (len written : Nat) : Option (MulleBuffer × Int) :=
  if len ≠ written then do
    let buffer ← bufferSetOverflown buffer
    some (buffer, -2)
  else some ({ buffer with flushed := buffer.flushed + len, curr := 0 }, 0)

def flushablebufferFlush (buffer : MulleBuffer) : Option (MulleBuffer × Int) :=
  if buffer.overflown then some (buffer, -2)
  else if buffer.curr = 0 then some (buffer, 0)
  else do
    let block ← blockRead buffer.storage 0 buffer.curr
    let written := env.flusher buffer.delivered block
    flushablebufferFlushed { buffer with delivered := buffer.delivered ++ block.take written }
      buffer.curr written

def bufferFlush (buffer : MulleBuffer) : Option (MulleBuffer × Int) :=
  if bufferIsFlushable buffer then flushablebufferFlush env buffer
  else do
    let buffer ← bufferSetOverflown buffer
    some (buffer, -1)

def bufferGetNewAllocationLength (buffer : MulleBuffer) (growth : Nat) : Nat :=
  let plus := if growth > env.minGrow then growth else env.minGrow
  if buffer.place = .null then
    if plus < buffer.size then buffer.size else plus
  else buffer.storage.length + if plus < buffer.storage.length then buffer.storage.length else plus

/-- The heap block is resized. Otherwise there is a new one, with a copy of what is used. -/
def bufferRealloc (buffer : MulleBuffer) (newSize : Nat) : Option (List UInt8) :=
  if buffer.place = .heap then some (blockResize buffer.storage newSize fresh)
  else do
    let used ← blockRead buffer.storage 0 buffer.curr
    blockPaste (blockResize [] newSize fresh) 0 used

def bufferGrowInflexible (buffer : MulleBuffer) (growth : Nat) : Option (MulleBuffer × Int) :=
  if growth = 0 then some (buffer, 0)
  else if bufferIsFlushable buffer then
    if buffer.storage.length < bufferGetRemainingLength buffer + growth then some (buffer, -1)
    else do
      let (buffer, failed) ← bufferFlush env buffer
      some (buffer, if failed ≠ 0 then -1 else 0)
  else do
    let buffer ← bufferSetOverflown buffer
    some (buffer, -1)

def bufferGrow (buffer : MulleBuffer) (growth : Nat) : Option (MulleBuffer × Int) :=
  if buffer.overflown then some (buffer, -1)
  else if bufferIsInflexible buffer then bufferGrowInflexible env buffer growth
  else do
    let newSize := bufferGetNewAllocationLength env buffer growth
    let storage ← bufferRealloc fresh buffer newSize
    if newSize < buffer.curr then none
    else some ({ buffer with place := .heap, storage := storage }, 0)

/-- What is missing behind `_curr` for `length` bytes. That has to fit a `ptrdiff_t`. -/
def bufferMissing (buffer : MulleBuffer) (length : Nat) : Int :=
  if buffer.place = .null then length else buffer.curr + length - buffer.storage.length

def bufferCurr (buffer : MulleBuffer) : Option Nat :=
  if buffer.place = .null then none else some buffer.curr

/-- The position of the space, or `none` for NULL. -/
def bufferGuarantee (buffer : MulleBuffer) (length : Nat) : Option (MulleBuffer × Option Nat) :=
  if buffer.overflown then some (buffer, none)
  else if bufferMissing buffer length > 0 then do
    let (buffer, failed) ← bufferGrow env fresh buffer (bufferMissing buffer length).toNat
    if failed ≠ 0 then some (buffer, none) else some (buffer, bufferCurr buffer)
  else some (buffer, bufferCurr buffer)

def bufferAdvance (buffer : MulleBuffer) (length : Nat) : Option (MulleBuffer × Option Nat) := do
  let (buffer, reserved) ← bufferGuarantee env fresh buffer length
  match reserved with
  | none => some (buffer, none)
  | some space => some ({ buffer with curr := buffer.curr + length }, some space)

def bufferFill (buffer : MulleBuffer) (space : Nat) (bytes : List UInt8) : Option MulleBuffer := do
  let storage ← blockPaste buffer.storage space bytes
  some { buffer with storage := storage }

def bufferSizeToFit (buffer : MulleBuffer) : MulleBuffer :=
  if bufferIsInflexible buffer then buffer
  else if buffer.place ≠ .heap then buffer
  else if bufferGetLength buffer = 0 then
    { buffer with place := .null, storage := [], curr := 0, size := 0 }
  else { buffer with
    storage := blockResize buffer.storage (bufferGetLength buffer) fresh
    curr := bufferGetLength buffer }

def bufferPut (buffer : MulleBuffer) (c : UInt8) : Option MulleBuffer :=
  if buffer.place = .null then none
  else do
    let storage ← blockWrite buffer.storage buffer.curr c
    some { buffer with storage := storage, curr := buffer.curr + 1 }

def bufferAddByte (buffer : MulleBuffer) (c : UInt8) : Option MulleBuffer :=
  if bufferIsFull buffer then do
    let (buffer, failed) ← bufferGrow env fresh buffer 1
    if failed ≠ 0 then some buffer else bufferPut buffer c
  else bufferPut buffer c

def bufferAddEach (buffer : MulleBuffer) (bytes : List UInt8) : Option MulleBuffer :=
  bytes.foldlM (bufferAddByte env fresh) buffer

def bufferAddBytes (buffer : MulleBuffer) (bytes : List UInt8) : Option MulleBuffer :=
  if bytes.length = 0 then some buffer
  else do
    let (buffer, space) ← bufferAdvance env fresh buffer bytes.length
    match space with
    | some space => bufferFill buffer space bytes
    | none => bufferAddEach env fresh buffer bytes

def bufferMemset (buffer : MulleBuffer) (c : UInt8) (length : Nat) : Option MulleBuffer := do
  let (buffer, s) ← bufferAdvance env fresh buffer length
  match s with
  | some s => bufferFill buffer s (List.replicate length c)
  | none => bufferAddEach env fresh buffer (List.replicate length c)

def bufferAddCharsUntilZero (buffer : MulleBuffer) : List UInt8 → Option MulleBuffer
  | [] => some buffer
  | c :: bytes =>
    if c = 0 then some buffer
    else do
      let buffer ← bufferAddByte env fresh buffer c
      bufferAddCharsUntilZero buffer bytes

end Storage

/-- `count` times `c = *bytes++; if( ! c) break; *s++ = c;`. The last component is what is
left of `bytes`, unless it came to the `break`. -/
def bufferCopyChars : Nat → List UInt8 → Nat → List UInt8 →
    Option (List UInt8 × Nat × Option (List UInt8))
  | 0, storage, s, bytes => some (storage, s, some bytes)
  | _ + 1, storage, s, [] => some (storage, s, none)
  | count + 1, storage, s, c :: bytes =>
    if c = 0 then some (storage, s, none)
    else do
      let storage ← blockWrite storage s c
      bufferCopyChars count storage (s + 1) bytes

section Strings

variable (env : BufferEnv) (fresh : Nat → UInt8)

/-- The rounds take eight characters each, so the length of the string is enough of them. -/
def bufferAddStringFrom : Nat → MulleBuffer → Nat → List UInt8 → Option MulleBuffer
  | 0, _, _, _ => none
  | fuel + 1, buffer, s, bytes =>
    if buffer.place = .null ∨ s + 8 > buffer.storage.length then
      bufferAddCharsUntilZero env fresh { buffer with curr := s } bytes
    else do
      let (storage, s, more) ← bufferCopyChars 8 buffer.storage s bytes
      match more with
      | none => some { buffer with storage := storage, curr := s }
      | some bytes => bufferAddStringFrom fuel { buffer with storage := storage } s bytes

def bufferAddString (buffer : MulleBuffer) (bytes : List UInt8) : Option MulleBuffer :=
  if buffer.overflown then some buffer
  else bufferAddStringFrom env fresh (bytes.length + 1) buffer buffer.curr bytes

/-- The string lies at `address`. The end of the loop over single characters is `&bytes[ remain]`,
and that address wraps around. -/
def bufferAddStringWithMaxlengthFrom :
    Nat → MulleBuffer → Nat → Nat → List UInt8 → Nat → Option MulleBuffer
  | 0, _, _, _, _, _ => none
  | fuel + 1, buffer, s, address, bytes, remain =>
    if remain < 8 ∨ buffer.place = .null ∨ s + 8 > buffer.storage.length then
      let sentinel := (address + remain) % 2 ^ 64
      bufferAddCharsUntilZero env fresh { buffer with curr := s } (bytes.take (sentinel - address))
    else do
      let (storage, s, more) ← bufferCopyChars 8 buffer.storage s bytes
      match more with
      | none => some { buffer with storage := storage, curr := s }
      | some bytes =>
        bufferAddStringWithMaxlengthFrom fuel { buffer with storage := storage } s (address + 8)
          bytes (remain - 8)

def bufferAddStringWithMaxlength (buffer : MulleBuffer) (address : UInt64) (bytes : List UInt8)
    (maxlength : UInt64) : Option (MulleBuffer × Nat) :=
  if buffer.overflown then some (buffer, 0)
  else if maxlength = 0 then some (buffer, 0)
  else do
    let prevLength := bufferGetLength buffer
    let buffer ← bufferAddStringWithMaxlengthFrom env fresh (bytes.length + 1) buffer buffer.curr
      address.toNat bytes maxlength.toNat
    some (buffer, wordSub (bufferGetLength buffer) prevLength)

end Strings

section Changes

variable (env : BufferEnv) (fresh : Nat → UInt8)

/-- Bit 0 of `options` keeps the storage when it shrinks, bit 1 leaves new bytes as they are. -/
def bufferSetLength (buffer : MulleBuffer) (length options : Nat) : Option (MulleBuffer × Int) :=
  let curLength := bufferGetLength buffer
  if length ≤ curLength then
    if buffer.overflown then some (buffer, -1)
    else if length = curLength then some (buffer, 0)
    else
      let buffer := { buffer with curr := buffer.curr - (curLength - length) }
      some (if options &&& 1 = 0 then bufferSizeToFit fresh buffer else buffer, 0)
  else do
    let (buffer, reserved) ← bufferAdvance env fresh buffer (length - curLength)
    match reserved with
    | none => some (buffer, -1)
    | some space =>
      if options &&& 2 = 0 then do
        let buffer ← bufferFill buffer space (List.replicate (length - curLength) 0)
        some (buffer, 0)
      else some (buffer, 0)

def bufferRemoveAll (buffer : MulleBuffer) : MulleBuffer :=
  if buffer.overflown then buffer else { buffer with curr := 0 }

def bufferRemoveLastByte (buffer : MulleBuffer) : MulleBuffer :=
  if buffer.overflown then buffer
  else if bufferIsEmpty buffer then buffer
  else { buffer with curr := buffer.curr - 1 }

def bufferPopByte (buffer : MulleBuffer) : Option (MulleBuffer × Int) :=
  if buffer.overflown then some (buffer, -1)
  else if bufferIsEmpty buffer then some (buffer, -1)
  else do
    let byte ← buffer.storage[buffer.curr - 1]?
    some ({ buffer with curr := buffer.curr - 1 }, byte.toNat)

/-- `memmove` takes the count as an unsigned number. -/
def bufferMoveDown (buffer : MulleBuffer) (start stop : Nat) : Option (List UInt8) :=
  if stop = buffer.curr then some buffer.storage
  else if stop < buffer.curr then blockMove buffer.storage start stop (buffer.curr - stop)
  else none

def bufferRemoveInRange (buffer : MulleBuffer) (range : Range) : Option MulleBuffer :=
  let range := rangeValidateAgainstLength range (UInt64.ofNat (bufferGetLength buffer))
  if range.length = 0 then some buffer
  else do
    let location := range.location.toNat
    let storage ← bufferMoveDown buffer location (location + range.length.toNat)
    some { buffer with storage := storage, curr := buffer.curr - range.length.toNat }

def bufferSeekByte (buffer : MulleBuffer) (byte : UInt8) : MulleBuffer × Int :=
  if buffer.overflown then (buffer, -1)
  else if buffer.place = .null ∨ buffer.curr ≥ buffer.storage.length then (buffer, -1)
  else
    match (buffer.storage.drop buffer.curr).idxOf? byte with
    | none => (buffer, -1)
    | some p => ({ buffer with curr := buffer.curr + p }, 0)

def bufferZeroPosition (buffer : MulleBuffer) : Nat :=
  if buffer.overflown then buffer.size else buffer.curr

def bufferZeroLastByte (buffer : MulleBuffer) : Option (MulleBuffer × Int) :=
  if bufferIsVoid buffer then some (buffer, 2)
  else
    let p := bufferZeroPosition buffer
    if p = buffer.storage.length then do
      let storage ← blockWrite buffer.storage (p - 1) 0
      some ({ buffer with storage := storage }, 1)
    else do
      let storage ← blockWrite buffer.storage p 0
      some ({ buffer with storage := storage }, 0)

def bufferMakeString (buffer : MulleBuffer) : Option (MulleBuffer × Int) := do
  let c ← bufferGetLastByte buffer
  if c = 0 then some (buffer, 0)
  else if bufferIsInflexible buffer ∧ bufferIsVoid buffer then none
  else if bufferIsInflexible buffer ∧ bufferIsFull buffer then bufferZeroLastByte buffer
  else do
    let buffer ← bufferAddByte env fresh buffer 0
    some (buffer, 0)

def bufferExtractData (buffer : MulleBuffer) : Option (MulleBuffer × List UInt8) := do
  let bytes ← blockRead buffer.storage 0 (bufferGetLength buffer)
  if bytes.length ≠ 0 ∧ buffer.place ≠ .heap then some ({ buffer with curr := 0 }, bytes)
  else some ({ buffer with place := .null, storage := [], curr := 0 }, bytes)

def bufferExtractString (buffer : MulleBuffer) : Option (MulleBuffer × List UInt8) := do
  let (buffer, _) ← bufferMakeString env fresh buffer
  bufferExtractData (bufferSizeToFit fresh buffer)

end Changes

end MulleCore
