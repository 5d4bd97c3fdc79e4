import Mathlib.Algebra.Ring.Nat
import Mathlib.Logic.Function.Basic

/-!
A `mulle__buffer` on bytes that somebody else owns, with its addresses. The memory is all of the
2^64 bytes, and a result of `none` stands for a failed `assert`.
-/

namespace MulleCore

def addressAdd (p n : Nat) : Nat := (p + n) % 2 ^ 64

structure AddressBuffer where
  storage : Nat
  curr : Nat
  sentinel : Nat
  size : Nat
  type : UInt32

def intMax : Nat := 2 ^ 31 - 1

def addressHalved (storage length : Nat) : Nat :=
  if length ≠ 0 ∧ addressAdd storage length < storage then addressHalved storage (length / 2)
    else length
termination_by length

/-- `_mulle__buffer_init_inflexible_with_static_bytes`. A `length` of `INT_MAX` stands for a size
that is not known. -/
def addressBufferInit (storage length : Nat) : AddressBuffer :=
  if length = intMax then
    let length := if storage = 0 then length else addressHalved storage length
    ⟨storage, storage, if storage = 0 then 0 else addressAdd storage length, length, 5⟩
  else ⟨storage, storage, if storage = 0 then 0 else addressAdd storage length, length, 1⟩

namespace AddressBuffer

variable (buffer : AddressBuffer)

def hasOverflown : Bool := buffer.type &&& 8 ≠ 0

def isInflexible : Bool := buffer.type &&& 1 ≠ 0

def isVoid : Bool := buffer.storage = buffer.sentinel

def isFull : Bool := buffer.hasOverflown || buffer.curr = 0 || buffer.curr ≥ buffer.sentinel

def getLength : Nat :=
  if buffer.hasOverflown then
    buffer.size else if buffer.curr = 0 then 0 else buffer.curr - buffer.storage

def setOverflown : AddressBuffer :=
  { buffer with
    size := buffer.getLength
    curr := buffer.sentinel
    type := buffer.type ||| 8 }

/-- The bytes at `bytes` are in the buffer's own storage. This overflows the buffer. -/
def selfReferencing (bytes : Nat) : Bool × AddressBuffer :=
  if buffer.hasOverflown then (true, buffer)
  else if buffer.storage = 0 then (false, buffer)
  else if bytes ≥ buffer.storage ∧ bytes < buffer.sentinel then (true, buffer.setOverflown)
  else (false, buffer)

def addByte (memory : Nat → UInt8) (c : UInt8) : (Nat → UInt8) × AddressBuffer :=
  if buffer.isFull then (memory, if buffer.hasOverflown then buffer else buffer.setOverflown)
  else (Function.update memory buffer.curr c, { buffer with curr := addressAdd buffer.curr 1 })

end AddressBuffer

def addressAddSlow : Nat → (Nat → UInt8) → AddressBuffer → Nat →
    Option ((Nat → UInt8) × AddressBuffer)
  | 0, _, _, _ => none
  | fuel + 1, memory, buffer, bytes =>
    if memory bytes = 0 then some (memory, buffer)
    else
      let (memory, buffer) := buffer.addByte memory (memory bytes)
      addressAddSlow fuel memory buffer (addressAdd bytes 1)

/-- Some bytes without a check. The result tells whether the zero was found. -/
def addressAddBlock : Nat → (Nat → UInt8) → Nat → Nat → (Nat → UInt8) × Nat × Nat × Bool
  | 0, memory, s, bytes => (memory, s, bytes, false)
  | count + 1, memory, s, bytes =>
    if memory bytes = 0 then (memory, s, addressAdd bytes 1, true)
    else addressAddBlock count (Function.update memory s (memory bytes)) (addressAdd s 1)
      (addressAdd bytes 1)

def addressAddFast : Nat → (Nat → UInt8) → AddressBuffer → Nat → Nat →
    Option ((Nat → UInt8) × AddressBuffer)
  | 0, _, _, _, _ => none
  | fuel + 1, memory, buffer, s, bytes =>
    if s = 0 ∨ addressAdd s 8 > buffer.sentinel then
      addressAddSlow fuel memory { buffer with curr := s } bytes
    else
      let (memory, s, bytes, found) := addressAddBlock 8 memory s bytes
      if found then some (memory, { buffer with curr := s })
        else addressAddFast fuel memory buffer s bytes

/-- `_mulle__buffer_add_string`. The `assert` behind the first check holds for a buffer whose size
is not known. -/
def addressAddStringWithin (fuel : Nat) (memory : Nat → UInt8) (buffer : AddressBuffer)
    (bytes : Nat) :
    Option ((Nat → UInt8) × AddressBuffer) :=
  let (referencing, buffer) := buffer.selfReferencing bytes
  if referencing then some (memory, buffer) else addressAddFast fuel memory buffer buffer.curr bytes

def addressAddString : (Nat → UInt8) → AddressBuffer → Nat → Option ((Nat → UInt8) × AddressBuffer) :=
  addressAddStringWithin (2 ^ 65)

def addressZeroLastByte (memory : Nat → UInt8) (buffer : AddressBuffer) : (Nat → UInt8) × Nat :=
  if buffer.isVoid then (memory, 2)
  else
    let p := if buffer.hasOverflown then addressAdd buffer.storage buffer.size else buffer.curr
    if p = buffer.sentinel then (Function.update memory (p - 1) 0, 1)
      else (Function.update memory p 0, 0)

def addressMakeString (memory : Nat → UInt8) (buffer : AddressBuffer) :
    Option ((Nat → UInt8) × Nat) :=
  if buffer.getLength ≠ 0 ∧ memory (addressAdd buffer.storage (buffer.getLength - 1)) = 0 then
    some (memory, 0)
  else if buffer.isInflexible ∧ buffer.isVoid then none
  else if buffer.isInflexible ∧ buffer.isFull then some (addressZeroLastByte memory buffer)
  else some ((buffer.addByte memory 0).1, 0)

/-- `_mulle_buffer_vsprintf` for the format `%s`, whose conversion adds the string as it is. For an
`s` other than NULL. -/
def addressVsprintfString (memory : Nat → UInt8) (buffer : AddressBuffer) (s : Nat) :
    Option ((Nat → UInt8) × AddressBuffer × Int) := do
  let before := buffer.getLength
  let (memory, buffer) ← addressAddString memory buffer s
  if buffer.hasOverflown then some (memory, buffer, -1)
    else some (memory, buffer, buffer.getLength - before)

def addressVsnprintfString (memory : Nat → UInt8) (buf size s : Nat) :
    Option ((Nat → UInt8) × Int) := do
  if buf = 0 ∨ size = 0 then some (memory, -1)
  else
    let (memory, buffer, rval) ← addressVsprintfString memory (addressBufferInit buf size) s
    let (memory, truncated) ← addressMakeString memory buffer
    some (memory, if truncated ≠ 0 then -1 else rval)

def addressSprintfString (memory : Nat → UInt8) (buf s : Nat) : Option ((Nat → UInt8) × Int) :=
  addressVsnprintfString memory buf intMax s

end MulleCore
