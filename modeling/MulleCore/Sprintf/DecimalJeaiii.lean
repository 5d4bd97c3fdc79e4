import MulleCore.Library.Digits

/-!
`mulle-sprintf-decimal-jeaiii.h` and the loop of `mulle-sprintf-integer.c` that it replaces. The
result of a function that writes to `p` is what it has written, `none` stands for an access outside
of a table.
-/

namespace MulleCore

open Library

def decimalPairs : List UInt8 :=
  ("0001020304050607080910111213141516171819" ++ "2021222324252627282930313233343536373839" ++
    "4041424344454647484950515253545556575859" ++ "6061626364656667686970717273747576777879" ++
    "8081828384858687888990919293949596979899").toList.map (fun c => UInt8.ofNat c.toNat) ++ [0]

def jeaiiiPair (value : UInt32) : Option (List UInt8) := do
  let first ← decimalPairs[(value * 2).toNat]?
  let second ← decimalPairs[(value * 2 + 1).toNat]?
  some [first, second]

def jeaiiiFirst (value : UInt32) : Option (List UInt8) :=
  if value < 10 then some [0x30 + value.toUInt8] else jeaiiiPair value

def uint32Max : UInt64 := 0xFFFFFFFF

def jeaiiiFixed8 (value : UInt32) : Option (List UInt8) := do
  let f0 : UInt64 := (((1 : UInt64) <<< 48) / 1000000 + 1) * value.toUInt64
  let f0 := (f0 >>> 16) + 1
  let first ← jeaiiiPair (f0 >>> 32).toUInt32
  let f2 := (f0 &&& uint32Max) * 100
  let second ← jeaiiiPair (f2 >>> 32).toUInt32
  let f4 := (f2 &&& uint32Max) * 100
  let third ← jeaiiiPair (f4 >>> 32).toUInt32
  let f6 := (f4 &&& uint32Max) * 100
  let fourth ← jeaiiiPair (f6 >>> 32).toUInt32
  some (first ++ second ++ third ++ fourth)

def jeaiiiU32 (value : UInt32) : Option (List UInt8) :=
  if value < 100 then
    if value < 10 then some [0x30 + value.toUInt8] else jeaiiiPair value
  else if value < 10000 then do
    let f0 : UInt32 := ((10 : UInt32) * ((1 : UInt32) <<< 24) / 1000 + 1) * value
    let first ← jeaiiiFirst (f0 >>> 24)
    let f2 := (f0 &&& (((1 : UInt32) <<< 24) - 1)) * 100
    let second ← jeaiiiPair (f2 >>> 24)
    some (first ++ second)
  else if value < 1000000 then do
    let f0 : UInt64 := ((10 : UInt64) * ((1 : UInt64) <<< 32) / 100000 + 1) * value.toUInt64
    let first ← jeaiiiFirst (f0 >>> 32).toUInt32
    let f2 := (f0 &&& uint32Max) * 100
    let second ← jeaiiiPair (f2 >>> 32).toUInt32
    let f4 := (f2 &&& uint32Max) * 100
    let third ← jeaiiiPair (f4 >>> 32).toUInt32
    some (first ++ second ++ third)
  else if value < 100000000 then do
    let f0 : UInt64 := (((10 : UInt64) * ((1 : UInt64) <<< 48) / 10000000 + 1) * value.toUInt64) >>>
      16
    let first ← jeaiiiFirst (f0 >>> 32).toUInt32
    let f2 := (f0 &&& uint32Max) * 100
    let second ← jeaiiiPair (f2 >>> 32).toUInt32
    let f4 := (f2 &&& uint32Max) * 100
    let third ← jeaiiiPair (f4 >>> 32).toUInt32
    let f6 := (f4 &&& uint32Max) * 100
    let fourth ← jeaiiiPair (f6 >>> 32).toUInt32
    some (first ++ second ++ third ++ fourth)
  else do
    let f0 : UInt64 := ((10 : UInt64) * ((1 : UInt64) <<< 57) / 1000000000 + 1) * value.toUInt64
    let first ← jeaiiiFirst (f0 >>> 57).toUInt32
    let f2 := (f0 &&& (((1 : UInt64) <<< 57) - 1)) * 100
    let second ← jeaiiiPair (f2 >>> 57).toUInt32
    let f4 := (f2 &&& (((1 : UInt64) <<< 57) - 1)) * 100
    let third ← jeaiiiPair (f4 >>> 57).toUInt32
    let f6 := (f4 &&& (((1 : UInt64) <<< 57) - 1)) * 100
    let fourth ← jeaiiiPair (f6 >>> 57).toUInt32
    let f8 := (f6 &&& (((1 : UInt64) <<< 57) - 1)) * 100
    let fifth ← jeaiiiPair (f8 >>> 57).toUInt32
    some (first ++ second ++ third ++ fourth ++ fifth)

def jeaiiiU64 (value : UInt64) : Option (List UInt8) :=
  if value ≤ uint32Max then jeaiiiU32 value.toUInt32
  else
    let low := (value % 100000000).toUInt32
    let high := value / 100000000
    if high > uint32Max then do
      let middle := (high % 100000000).toUInt32
      let first ← jeaiiiU32 (high / 100000000).toUInt32
      let second ← jeaiiiFixed8 middle
      let third ← jeaiiiFixed8 low
      some (first ++ second ++ third)
    else do
      let first ← jeaiiiU32 high.toUInt32
      let second ← jeaiiiFixed8 low
      some (first ++ second)

def jeaiiiConvertUnsignedInt (value : UInt32) : Option (List UInt8 × Nat) :=
  if value = 0 then some ([], 0)
  else do
    let text ← jeaiiiU32 value
    some (text, text.length)

def jeaiiiConvertUnsignedLongLong (value : UInt64) : Option (List UInt8 × Nat) :=
  if value = 0 then some ([], 0)
  else do
    let text ← jeaiiiU64 value
    some (text, text.length)

def convertDecimalFrom : Nat → Nat → List UInt8 → Option (List UInt8)
  | 0, value, s => if value = 0 then some s else none
  | capacity + 1, value, s =>
    if value = 0 then some s
    else convertDecimalFrom capacity (value / 10) (UInt8.ofNat (0x30 + value % 10) :: s)

def convertDecimalReference (value capacity : Nat) : Option (List UInt8 × Nat) := do
  let text ← convertDecimalFrom capacity value []
  some (text, text.length)

end MulleCore
