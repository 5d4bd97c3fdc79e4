import MulleCore.Utf.UtfCharacters

/-!
`mulle-utf16.h` and `mulle-utf16.c`. Where a `len` of -1 is passed, the units are those
in front of the first zero.
-/

namespace MulleCore

def utf16IsAsciicharacter (c : UInt16) : Bool := c < 0x80

def utf16IsInvalidChar (c : UInt16) : Bool := c ≥ 0xFFFE || c ≥ 0xFDD0 && c ≤ 0xFDEF

def utf16IsValidSurrogatepair (hi lo : UInt16) : Bool :=
  if lo = 0xDFFE ∨ lo = 0xDFFF then
    ! (hi &&& 0xFF == 0x3F || hi &&& 0xFF == 0x7F || hi &&& 0xFF == 0xBF || hi &&& 0xFF == 0xFF)
  else true

def utf16ValidateFrom : Nat → List UInt16 → Nat → Option Nat
  | fuel + 1, c :: src, index =>
    if c = 0 then none
    else if utf16IsInvalidChar c then some index
    else if ! utf32IsSurrogatecharacter c.toNat then utf16ValidateFrom fuel src (index + 1)
    else if utf32IsLowsurrogatecharacter c.toNat then some index
    else
      match src with
      | [] => some index
      | d :: src =>
        if ! utf32IsLowsurrogatecharacter d.toNat then some (index + 1)
        else if ! utf16IsValidSurrogatepair c d then some index
        else
          match utf16DecodeSurrogatepair c d with
          | none => none
          | some x => if x > utf32Max then some index else utf16ValidateFrom fuel src (index + 2)
  | _, _, _ => none

def utf16Validate (src : List UInt16) : Option Nat := utf16ValidateFrom src.length src 0

def utf16InformationFrom : Nat → List UInt16 → Nat → UtfInformation →
    Except Nat (Nat × UtfInformation)
  | fuel + 1, c :: src, index, info =>
    if c = 0 then .ok (index, { info with hasTerminatingZero := true })
    else if utf16IsAsciicharacter c then
      utf16InformationFrom fuel src (index + 1)
        { info with isChar5 := info.isChar5 && utfIsChar5character c.toNat }
    else
      let info := { info with
        isAscii := false
        utf8len := info.utf8len + 1 + if c ≥ 0x0800 then 1 else 0
        isUtf15 := info.isUtf15 && ! decide (c ≥ 0x8000) }
      if c ≥ 0xD800 ∧ c < 0xE000 then
        if ! utf32IsHighsurrogatecharacter c.toNat then .error index
        else
          let info := { info with utf32len := info.utf32len - 1 }
          match src with
          | [] => .error (index + 1)
          | d :: src =>
            if ! utf32IsLowsurrogatecharacter d.toNat then .error (index + 1)
            else if utf16IsInvalidChar d then .error (index + 1)
            else utf16InformationFrom fuel src (index + 2) info
      else if utf16IsInvalidChar c then .error index
      else utf16InformationFrom fuel src (index + 1) info
  | _, _, index, info => .ok (index, info)

def utf16Information (src : List UInt16) : Int × UtfInformation :=
  match src with
  | [] => (0, utfInformationInit)
  | c :: _ =>
    let hasBom := utf32IsBomcharacter c.toNat
    let start : Nat := if hasBom then 1 else 0
    match utf16InformationFrom src.length (src.drop start) start
        { utfInformationInit with hasBom := hasBom, start := some start } with
    | .error index => (-1, utfInformationFail index)
    | .ok (index, info) =>
      (0, { info with
        utf8len := info.utf8len + (index - start)
        utf16len := info.utf16len + (index - start)
        utf32len := info.utf32len + (index - start)
        isChar5 := info.isChar5 && info.isAscii })

def utf16Utf8Bytes (x : Nat) : Option (List UInt8) :=
  if x < 0x80 then some [UInt8.ofNat x]
  else if x < 0x800 then some [UInt8.ofNat (0xC0 ||| x >>> 6), UInt8.ofNat (0x80 ||| x &&& 0x3F)]
  else if x < 0x10000 then
    if utf32IsLowsurrogatecharacter x then none
    else some [UInt8.ofNat (0xE0 ||| x >>> 12), UInt8.ofNat (0x80 ||| x >>> 6 &&& 0x3F),
      UInt8.ofNat (0x80 ||| x &&& 0x3F)]
  else if x ≤ 0x10FFFF then
    some [UInt8.ofNat (0xF0 ||| x >>> 18), UInt8.ofNat (0x80 ||| x >>> 12 &&& 0x3F),
      UInt8.ofNat (0x80 ||| x >>> 6 &&& 0x3F), UInt8.ofNat (0x80 ||| x &&& 0x3F)]
  else none

def utf16ConvertFrom {Unit : Type} (units : Nat → Option (List Unit)) :
    Nat → List UInt16 → Option (List Unit)
  | fuel + 1, c :: src =>
    if utf32IsHighsurrogatecharacter c.toNat then
      match src with
      | [] => some []
      | d :: src => do
          let x ← utf16DecodeSurrogatepair c d
          let first ← units x
          let rest ← utf16ConvertFrom units fuel src
          some (first ++ rest)
    else do
      let first ← units c.toNat
      let rest ← utf16ConvertFrom units fuel src
      some (first ++ rest)
  | _, _ => some []

def utf16ConvertToUtf32 (src : List UInt16) : Option (List Int32) :=
  utf16ConvertFrom (fun x => some [Int32.ofNat x]) src.length src

def utf16ConvertToUtf8 (src : List UInt16) : Option (List UInt8) :=
  utf16ConvertFrom utf16Utf8Bytes src.length src

def utf16Utf8lengthFrom : Nat → List UInt16 → Int → Int
  | fuel + 1, c :: src, size =>
    if c < 0x80 then utf16Utf8lengthFrom fuel src size
    else if c < 0x0800 then utf16Utf8lengthFrom fuel src (size + 1)
    else if ! utf32IsSurrogatecharacter c.toNat then utf16Utf8lengthFrom fuel src (size + 2)
    else
      match src with
      | [] => 2 ^ 64 - 1
      | _ :: src => utf16Utf8lengthFrom fuel src (size + (-1 + 3))
  | _, _, size => size

def utf16Utf8length (src : List UInt16) : Int := utf16Utf8lengthFrom src.length src src.length

def utf16Utf32lengthFrom : Nat → List UInt16 → Int → Option Int
  | fuel + 1, c :: src, len =>
    if ! utf32IsHighsurrogatecharacter c.toNat then utf16Utf32lengthFrom fuel src len
    else
      match src with
      | [] => some (2 ^ 64 - 1)
      | d :: src =>
        if utf32IsLowsurrogatecharacter d.toNat then utf16Utf32lengthFrom fuel src (len - 1) else none
  | _, _, len => some len

def utf16Utf32length (src : List UInt16) : Option Int :=
  utf16Utf32lengthFrom src.length src src.length

end MulleCore
