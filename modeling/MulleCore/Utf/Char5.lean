import Mathlib.Data.Int.Notation
import MulleCore.Utf.UtfCharacters

/-!
`mulle-char5.h` and `mulle-char5.c`. Up to 6 or 12 characters are packed in a word of 32 or 64 bits,
five bits each, the first one lowest. A text is given by its `len` units; a `len` of -1 is for a
text up to its zero.
-/

namespace MulleCore

def char5LookupTable : List Int :=
  [0, -1, -1, -1, -1, -1, -1, -1, -1, -1, -1, -1, -1, -1, -1, -1,
    -1, -1, -1, -1, -1, -1, -1, -1, -1, -1, -1, -1, -1, -1, -1, -1,
    -1, -1, -1, -1, -1, -1, -1, -1, -1, -1, -1, -1, -1, -1, 1, -1,
    -1, -1, -1, -1, -1, -1, -1, -1, -1, -1, -1, -1, -1, -1, -1, -1,
    -1, 2, -1, 3, 4, 5, -1, -1, -1, 6, -1, -1, -1, -1, 7, 8,
    9, -1, -1, 10, 11, -1, -1, -1, -1, -1, -1, -1, -1, -1, -1, 12,
    -1, 13, 14, 15, 16, 17, 18, 19, 20, 21, -1, -1, 22, 23, 24, 25,
    26, -1, 27, 28, 29, 30, -1, -1, -1, 31, -1, -1, -1, -1, -1, -1]

def char5LookupCharacter (c : Int) : Int :=
  if 0 ≤ c ∧ c < 128 then char5LookupTable.getD c.toNat (-1) else -1

def char5GetCharset : List UInt8 :=
  [0, 0x2E, 0x41, 0x43, 0x44, 0x45, 0x49, 0x4E, 0x4F, 0x50, 0x53, 0x54, 0x5F, 0x61, 0x62, 0x63,
    0x64, 0x65, 0x66, 0x67, 0x68, 0x69, 0x6C, 0x6D, 0x6E, 0x6F, 0x70, 0x72, 0x73, 0x74, 0x75, 0x79]

def char5DecodeCharacter (c : Nat) : Option UInt8 := char5GetCharset[c]?

def char5Maxlength32 : Nat := 6

def char5Maxlength64 : Nat := 12

def char5OfChar (c : UInt8) : Int := c.toInt8.toInt

def char5OfUtf16 (c : UInt16) : Int := c.toNat

def char5OfUtf32 (c : Int32) : Int := c.toInt

def char5AreCharacters : List UInt8 → Bool
  | [] => true
  | c :: src =>
    if char5LookupCharacter (char5OfChar c) = 0 ∨ char5LookupCharacter (char5OfChar c) = -1 then false
    else char5AreCharacters src

def char5IsChar5string (maxlength : Nat) (src : List UInt8) : Bool :=
  if src.length > maxlength then false else char5AreCharacters src

def char5IsChar5string32 : List UInt8 → Bool := char5IsChar5string char5Maxlength32

def char5IsChar5string64 : List UInt8 → Bool := char5IsChar5string char5Maxlength64

section Words

variable {w : Nat}

def char5EncodeFrom (w : Nat) {Unit : Type} (charOf : Unit → Int) : List Unit → Option (BitVec w)
  | [] => some 0
  | c :: src => do
      let value ← char5EncodeFrom w charOf src
      let char5 := char5LookupCharacter (charOf c)
      if charOf c = 0 ∨ ¬ (char5 > 0 ∧ char5 < 0x20) ∨ value <<< 5 >>> 5 ≠ value then none
      else some (value <<< 5 ||| BitVec.ofInt w char5)

def char5EncodeText (w maxlength : Nat) {Unit : Type} (charOf : Unit → Int) (src : List Unit) :
    Option (BitVec w) :=
  if src.length ≤ maxlength then char5EncodeFrom w charOf src else none

def char5Encode32 : List UInt8 → Option (BitVec 32) := char5EncodeText 32 char5Maxlength32 char5OfChar

def char5Encode64 : List UInt8 → Option (BitVec 64) := char5EncodeText 64 char5Maxlength64 char5OfChar

def char5Encode32Utf16 : List UInt16 → Option (BitVec 32) :=
  char5EncodeText 32 char5Maxlength32 char5OfUtf16

def char5Encode64Utf16 : List UInt16 → Option (BitVec 64) :=
  char5EncodeText 64 char5Maxlength64 char5OfUtf16

def char5Encode32Utf32 : List Int32 → Option (BitVec 32) :=
  char5EncodeText 32 char5Maxlength32 char5OfUtf32

def char5Encode64Utf32 : List Int32 → Option (BitVec 64) :=
  char5EncodeText 64 char5Maxlength64 char5OfUtf32

def char5Decode (value : BitVec w) : Nat → Option (List UInt8)
  | 0 => some []
  | len + 1 =>
    if value = 0 then some []
    else do
      let c ← char5DecodeCharacter (value &&& 0x1F).toNat
      let dst ← char5Decode (value >>> 5) len
      some (c :: dst)

def char5Decode32 (value : BitVec 32) (len : Nat) : Option (List UInt8) := char5Decode value len

def char5Decode64 (value : BitVec 64) (len : Nat) : Option (List UInt8) := char5Decode value len

def char5Group (value : BitVec w) : Nat → BitVec w
  | 0 => value &&& 0x1F
  | index + 1 => char5Group (value >>> 5) index

def char5Get (maxlength : Nat) (value : BitVec w) (index : Nat) : Option UInt8 :=
  if index < maxlength then char5DecodeCharacter (char5Group value index).toNat else none

def char5Get32 : BitVec 32 → Nat → Option UInt8 := char5Get 6

def char5Get64 : BitVec 64 → Nat → Option UInt8 := char5Get 12

def char5StrlenFrom (value : BitVec w) (len : Nat) : Nat → Option Nat
  | 0 => none
  | fuel + 1 => if value = 0 then some len else char5StrlenFrom (value >>> 5) (len + 1) fuel

def char5Strlen (value : BitVec w) : Option Nat := char5StrlenFrom value 0 (w + 1)

def char5Strlen32 (value : BitVec 32) : Option Nat := char5Strlen value

def char5Strlen64 (value : BitVec 64) : Option Nat := char5Strlen value

/-- One of the halving steps of the fast length: `count` groups are counted if a bit of the mask is
set. -/
def char5FstrlenStep (mask : BitVec w) (count : Nat) (state : BitVec w × Nat) : BitVec w × Nat :=
  if state.1 &&& mask ≠ 0 then (state.1 >>> (5 * count), state.2 + count) else state

def char5FstrlenRest (state : BitVec w × Nat) : Nat :=
  state.2 + if state.1 > 0x1F then 2 else if state.1 ≠ 0 then 1 else 0

def char5Fstrlen64 (value : BitVec 64) : Nat :=
  let mask := ~~~(0x3FFFFFFF : BitVec 64)
  let state := char5FstrlenStep mask 6 (value, 0)
  let mask := mask >>> 15
  let state := char5FstrlenStep mask 3 state
  let mask := mask >>> 10
  let state := char5FstrlenStep mask 2 state
  char5FstrlenRest state

def char5Fstrlen32 (value : BitVec 32) : Nat :=
  let mask := ~~~(0x7FFF : BitVec 32)
  let state := char5FstrlenStep mask 3 (value, 0)
  let mask := mask >>> 10
  let state := char5FstrlenStep mask 2 state
  char5FstrlenRest state

def char5Substring (value : BitVec w) (location length : Nat) : Option (BitVec w) := do
  let len ← char5Strlen value
  if location + length ≤ len then
    some (value >>> (location * 5) &&& ~~~((~~~(0 : BitVec w)) <<< (length * 5)))
  else none

def char5Substring32 (value : BitVec 32) (location length : Nat) : Option (BitVec 32) :=
  char5Substring value location length

def char5Substring64 (value : BitVec 64) (location length : Nat) : Option (BitVec 64) :=
  char5Substring value location length

end Words

end MulleCore
