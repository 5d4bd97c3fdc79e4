import MulleCore.Utf.UtfCharacters

/-!
`mulle-utf32.h` and `mulle-utf32.c`. Where a `len` of -1 is passed, the units are those
in front of the first zero.
-/

namespace MulleCore

def utf32IsAsciicharacter (c : Int32) : Bool := c.toInt % 2 ^ 32 < 0x80

def utf32Validate.loop : List Int32 → Nat → Option Nat
  | [], _ => none
  | c :: src, index =>
    if c = 0 then none
    else if c.toInt < 0 ∨ c.toInt > utf32Max then some index
    else if utf32IsInvalidcharacter c.toInt then some index
    else if utf32IsSurrogatecharacter c.toInt then some index
    else utf32Validate.loop src (index + 1)

def utf32Validate (src : List Int32) : Option Nat := utf32Validate.loop src 0

def utf32InformationFrom : List Int32 → Nat → UtfInformation → Except Nat (Nat × UtfInformation)
  | [], index, info => .ok (index, info)
  | c :: src, index, info =>
    if utf32IsAsciicharacter c then
      if c = 0 then .ok (index, { info with hasTerminatingZero := true })
      else utf32InformationFrom src (index + 1)
        { info with isChar5 := info.isChar5 && utfIsChar5character c.toInt.toNat }
    else
      let info := { info with
        isAscii := false
        utf8len := info.utf8len + 1 + if c.toInt ≥ 0x0800 then 1 else 0 }
      if c.toInt < 0 ∨ c.toInt > utf32Max then .error index
      else if utf32IsInvalidcharacter c.toInt then .error index
      else utf32InformationFrom src (index + 1) { info with
        isUtf15 := info.isUtf15 && ! decide (c.toInt ≥ 0x8000)
        utf8len := if c.toInt ≥ 0x10000 then info.utf8len + 1 else info.utf8len
        utf16len := if c.toInt ≥ 0x10000 then info.utf16len + 1 else info.utf16len }

def utf32Information (src : List Int32) : Int × UtfInformation :=
  match src with
  | [] => (0, utfInformationInit)
  | c :: _ =>
    let hasBom := utf32IsBomcharacter c.toInt
    let start : Nat := if hasBom then 1 else 0
    match utf32InformationFrom (src.drop start) start
        { utfInformationInit with hasBom := hasBom, start := some start } with
    | .error index => (-1, utfInformationFail index)
    | .ok (index, info) =>
      (0, { info with
        utf8len := info.utf8len + (index - start)
        utf16len := info.utf16len + (index - start)
        utf32len := info.utf32len + (index - start)
        isChar5 := info.isChar5 && info.isAscii })

/-- `(unsigned char) x` also for a negative `x`. -/
def utf32Utf8Bytes (x : Int) : Option (List UInt8) :=
  if x < 0x800 then
    if x < 0x80 then some [UInt8.ofNat (x % 2 ^ 8).toNat]
    else some [UInt8.ofNat (0xC0 ||| x.toNat >>> 6), UInt8.ofNat (0x80 ||| x.toNat &&& 0x3F)]
  else if x < 0x10000 then
    if utf32IsSurrogatecharacter x then none
    else some [UInt8.ofNat (0xE0 ||| x.toNat >>> 12), UInt8.ofNat (0x80 ||| x.toNat >>> 6 &&& 0x3F),
      UInt8.ofNat (0x80 ||| x.toNat &&& 0x3F)]
  else if x ≤ 0x10FFFF then
    some [UInt8.ofNat (0xF0 ||| x.toNat >>> 18), UInt8.ofNat (0x80 ||| x.toNat >>> 12 &&& 0x3F),
      UInt8.ofNat (0x80 ||| x.toNat >>> 6 &&& 0x3F), UInt8.ofNat (0x80 ||| x.toNat &&& 0x3F)]
  else none

def utf32Utf16Units (x : Int) : Option (List UInt16) :=
  if x < 0x10000 then
    if utf32IsSurrogatecharacter x then none
    else some [UInt16.ofNat (x % 2 ^ 16).toNat]
  else utf32ConvertToUtf16AsSurrogatepair x.toNat

def utf32ConvertFrom {Unit : Type} (units : Int → Option (List Unit)) :
    List Int32 → Option (List Unit)
  | [] => some []
  | c :: src => do
      let first ← units c.toInt
      let rest ← utf32ConvertFrom units src
      some (first ++ rest)

def utf32ConvertToUtf8 (src : List Int32) : Option (List UInt8) := utf32ConvertFrom utf32Utf8Bytes src

def utf32ConvertToUtf16 (src : List Int32) : Option (List UInt16) :=
  utf32ConvertFrom utf32Utf16Units src

def utf32Utf8More (x : Nat) : Option Int :=
  if x > utf32Max then none
  else if x < 0x800 then
    if x < 0x80 then some 0 else some 1
  else if x < 0x10000 then
    if utf32IsSurrogatecharacter x then none else some 2
  else some 3

def utf32Utf16More (x : Nat) : Option Int :=
  if x > utf32Max then none
  else if x ≥ 0x10000 then some 1
  else some 0

def utf32LengthFrom (more : Nat → Option Int) : List Int32 → Int → Option Int
  | [], size => some size
  | c :: src, size => do
      let longer ← more (c.toInt % 2 ^ 32).toNat
      utf32LengthFrom more src (size + longer)

def utf32Utf8length (src : List Int32) : Option Int := utf32LengthFrom utf32Utf8More src src.length

def utf32Utf16length (src : List Int32) : Option Int := utf32LengthFrom utf32Utf16More src src.length

end MulleCore
