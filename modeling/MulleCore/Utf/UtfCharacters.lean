import Mathlib.Algebra.Group.Int.Defs

/-!
`mulle-utf-type.h`, `mulle-utf-noncharacter.h` and `mulle-utf-noncharacter.c`. A
`mulle_utf32_t` is a signed integer of 32 bits. A text is given by the units that are
left of it. Sizes are not reduced modulo 2^64, as a text in memory is shorter than that.
A result of `none` stands for a failed `assert` or a read behind the text.
-/

namespace MulleCore

def utf32Max : Int := 0x10FFFF

structure UtfInformation where
  utf8len : Int
  utf16len : Int
  utf32len : Int
  start : Option Nat
  invalid : Option Nat
  hasBom : Bool
  isAscii : Bool
  isChar5 : Bool
  isUtf15 : Bool
  hasTerminatingZero : Bool
deriving DecidableEq

def utfInformationInit : UtfInformation where
  utf8len := 0
  utf16len := 0
  utf32len := 0
  start := some 0
  invalid := none
  hasBom := false
  isAscii := true
  isChar5 := true
  isUtf15 := true
  hasTerminatingZero := false

def utfInformationFail (src : Nat) : UtfInformation where
  utf8len := 0
  utf16len := 0
  utf32len := 0
  start := none
  invalid := some src
  hasBom := false
  isAscii := false
  isChar5 := false
  isUtf15 := false
  hasTerminatingZero := false

def char5Charset : List Nat :=
  [0, 0x2E, 0x41, 0x43, 0x44, 0x45, 0x49, 0x4E, 0x4F, 0x50, 0x53, 0x54, 0x5F, 0x61, 0x62, 0x63,
    0x64, 0x65, 0x66, 0x67, 0x68, 0x69, 0x6C, 0x6D, 0x6E, 0x6F, 0x70, 0x72, 0x73, 0x74, 0x75, 0x79]

def utfIsChar5character (c : Nat) : Bool := char5Charset.contains c

def utf16IsNoncharacter (c : Nat) : Bool :=
  if c ≥ 0xFDD0 ∧ c ≤ 0xFDEF then true
  else if c ≥ 0xFFFE then true
  else false

def utf32IsNoncharacter (c : Int) : Bool :=
  if c ≥ 0xFDD0 ∧ c ≤ 0xFFFF then utf16IsNoncharacter c.toNat
  else if c < 0x10000 ∨ c > 0x10FFFF then false
  else c.toNat &&& 0xFFFF == 0xFFFE || c.toNat &&& 0xFFFF == 0xFFFF

def utf32IsBomcharacter (c : Int) : Bool := c == 0xFEFF

def utf32IsSurrogatecharacter (c : Int) : Bool := c ≥ 0xD800 && c < 0xE000

def utf32IsHighsurrogatecharacter (c : Int) : Bool := c ≥ 0xD800 && c < 0xDC00

def utf32IsLowsurrogatecharacter (c : Int) : Bool := c ≥ 0xDC00 && c < 0xE000

def utf32IsInvalidcharacter (c : Int) : Bool :=
  if utf32IsSurrogatecharacter c then true else utf32IsNoncharacter c

def utf16DecodeSurrogatepair (hi lo : UInt16) : Option Nat :=
  if utf32IsHighsurrogatecharacter hi.toNat ∧ utf32IsLowsurrogatecharacter lo.toNat then
    some (0x10000 + (hi.toNat - 0xD800) <<< 10 + (lo.toNat - 0xDC00))
  else none

def utf32ConvertToUtf16AsSurrogatepair (x : Nat) : Option (List UInt16) :=
  if x ≥ 0x10000 ∧ x ≤ 0x10FFFF then
    let x := x - 0x10000
    some [UInt16.ofNat (0xD800 + x >>> 10), UInt16.ofNat (0xDC00 + (x &&& 0x3FF))]
  else none

end MulleCore
