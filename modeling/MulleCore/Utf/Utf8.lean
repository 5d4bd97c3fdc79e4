import MulleCore.Utf.UtfCharacters

/-!
`mulle-utf8.h` and `mulle-utf8.c`. Where a `len` of -1 is passed, the units are those
in front of the first zero.
-/

namespace MulleCore

def utf8IsAsciicharacter (c : UInt8) : Bool := c < 0x80

def utf8IsInvalidstartcharacter (c : UInt8) : Bool := c ≥ 0x80 && c < 0xC2 || c ≥ 0xF5

def utf8IsValidcontinuationcharacter (c : UInt8) : Bool := c ≥ 0x80 && c < 0xC0

def utf8GetExtracharacterslength (c : UInt8) : Nat :=
  if c < 0xE0 then 1
  else if c < 0xF0 then 2
  else 3

def utf8HasLeadingBomcharacter : List UInt8 → Bool
  | c :: d :: e :: _ => c == 0xEF && d == 0xBB && e == 0xBF
  | _ => false

def utf8Bits2 (c d : UInt8) : Nat := (c.toNat &&& 0x1F) <<< 6 ||| d.toNat &&& 0x3F

def utf8Bits3 (c d e : UInt8) : Nat :=
  (c.toNat &&& 0x0F) <<< 12 ||| (d.toNat &&& 0x3F) <<< 6 ||| e.toNat &&& 0x3F

def utf8Bits4 (c d e f : UInt8) : Nat :=
  (c.toNat &&& 0x7) <<< 18 ||| (d.toNat &&& 0x3F) <<< 12 ||| (e.toNat &&& 0x3F) <<< 6 |||
    f.toNat &&& 0x3F

/-- -2 as a `mulle_utf32_t` for a missing continuation. -/
def utf8Extracharactersvalue (src : List UInt8) (extraLen : Nat) : Option Int :=
  match extraLen, src with
  | 0, c :: _ => some c.toNat
  | 1, c :: d :: _ =>
    if ! utf8IsValidcontinuationcharacter d then some (-2)
    else if utf8Bits2 c d ≥ 128 then some (utf8Bits2 c d)
    else none
  | 2, c :: d :: e :: _ =>
    if ! utf8IsValidcontinuationcharacter d then some (-2)
    else if ! utf8IsValidcontinuationcharacter e then some (-2)
    else if utf8Bits3 c d e ≥ 0x800 ∧ (utf8Bits3 c d e < 0xD800 ∨ utf8Bits3 c d e ≥ 0xE000) then
      some (utf8Bits3 c d e)
    else none
  | 3, c :: d :: e :: f :: _ =>
    if ! utf8IsValidcontinuationcharacter d then some (-2)
    else if ! utf8IsValidcontinuationcharacter e then some (-2)
    else if ! utf8IsValidcontinuationcharacter f then some (-2)
    else if utf8Bits4 c d e f ≥ 0x10000 ∧ utf8Bits4 c d e f ≤ 0x10FFFF then some (utf8Bits4 c d e f)
    else none
  | _, _ => none

def utf8AreValidExtracharacters (src : List UInt8) (len : Nat) : Option Nat :=
  match len, src with
  | 1, c :: d :: _ =>
    if ! utf8IsValidcontinuationcharacter d then none
    else if utf8Bits2 c d < 0x80 then none
    else if utf32IsInvalidcharacter (utf8Bits2 c d) then none
    else some (utf8Bits2 c d)
  | 2, c :: d :: e :: _ =>
    if ! utf8IsValidcontinuationcharacter d then none
    else if ! utf8IsValidcontinuationcharacter e then none
    else if utf8Bits3 c d e < 0x800 then none
    else if utf32IsInvalidcharacter (utf8Bits3 c d e) then none
    else some (utf8Bits3 c d e)
  | 3, c :: d :: e :: f :: _ =>
    if ! utf8IsValidcontinuationcharacter d then none
    else if ! utf8IsValidcontinuationcharacter e then none
    else if ! utf8IsValidcontinuationcharacter f then none
    else if utf8Bits4 c d e f < 0x10000 ∨ utf8Bits4 c d e f > 0x0010FFFF then none
    else if utf32IsInvalidcharacter (utf8Bits4 c d e f) then none
    else some (utf8Bits4 c d e f)
  | _, _ => none

def utf8ValidateFrom : Nat → List UInt8 → Nat → Option Nat
  | fuel + 1, c :: src, index =>
    if c = 0 then none
    else if utf8IsAsciicharacter c then utf8ValidateFrom fuel src (index + 1)
    else if utf8IsInvalidstartcharacter c then some index
    else
      let extraLen := utf8GetExtracharacterslength c
      if extraLen > src.length then some index
      else
        match utf8AreValidExtracharacters (c :: src) extraLen with
        | none => some index
        | some _ => utf8ValidateFrom fuel (src.drop extraLen) (index + (extraLen + 1))
  | _, _, _ => none

def utf8Validate (src : List UInt8) : Option Nat :=
  if utf8HasLeadingBomcharacter src then utf8ValidateFrom src.length (src.drop 3) 3
  else utf8ValidateFrom src.length src 0

def utf8InformationFrom : Nat → List UInt8 → Nat → Int → UtfInformation →
    Except Nat (Nat × Int × UtfInformation)
  | fuel + 1, c :: src, index, dstLen, info =>
    if utf8IsAsciicharacter c then
      if c = 0 then .ok (index, dstLen, { info with hasTerminatingZero := true })
      else utf8InformationFrom fuel src (index + 1) dstLen
        { info with isChar5 := info.isChar5 && utfIsChar5character c.toNat }
    else
      let info := { info with isAscii := false }
      if utf8IsInvalidstartcharacter c then .error index
      else
        let extraLen := utf8GetExtracharacterslength c
        let dstLen := dstLen - extraLen
        if extraLen > src.length then .error index
        else
          match utf8AreValidExtracharacters (c :: src) extraLen with
          | none => .error index
          | some x => utf8InformationFrom fuel (src.drop extraLen) (index + (extraLen + 1)) dstLen
              { info with
                isUtf15 := info.isUtf15 && ! decide (x ≥ 0x08000)
                utf16len := if x ≥ 0x10000 then info.utf16len + 1 else info.utf16len }
  | _, _, index, dstLen, info => .ok (index, dstLen, info)

def utf8Information (src : List UInt8) : Int × UtfInformation :=
  if src = [] then (0, utfInformationInit)
  else
    let hasBom := utf8HasLeadingBomcharacter src
    let start : Nat := if hasBom then 3 else 0
    let len : Int := src.length - start
    match utf8InformationFrom src.length (src.drop start) start len
        { utfInformationInit with hasBom := hasBom, start := some start } with
    | .error index => (-1, utfInformationFail index)
    | .ok (index, dstLen, info) =>
      let utf8len : Int := index - start
      let utf32len := dstLen - (len - utf8len)
      (0, { info with
        utf8len := utf8len
        utf32len := utf32len
        utf16len := info.utf16len + utf32len
        isChar5 := info.isChar5 && info.isAscii })

def utf8Utf16Units (x : Int) : Option (List UInt16) :=
  let x := (x % 2 ^ 32).toNat
  if x < 0x10000 then some [UInt16.ofNat x] else utf32ConvertToUtf16AsSurrogatepair x

def utf8ConvertFrom {Unit : Type} (units : Int → Option (List Unit)) :
    Nat → List UInt8 → Option (List Unit)
  | fuel + 1, c :: src =>
    if ! utf8IsAsciicharacter c && utf8IsInvalidstartcharacter c then none
    else if utf8IsAsciicharacter c then do
      let first ← units c.toNat
      let rest ← utf8ConvertFrom units fuel src
      some (first ++ rest)
    else
      let extraLen := utf8GetExtracharacterslength c
      if extraLen > src.length then some []
      else do
        let x ← utf8Extracharactersvalue (c :: src) extraLen
        let first ← units x
        let rest ← utf8ConvertFrom units fuel (src.drop extraLen)
        some (first ++ rest)
  | _, _ => some []

def utf8ConvertToUtf16 (src : List UInt8) : Option (List UInt16) :=
  utf8ConvertFrom utf8Utf16Units src.length src

def utf8ConvertToUtf32 (src : List UInt8) : Option (List Int32) :=
  utf8ConvertFrom (fun x => some [Int32.ofInt x]) src.length src

/-- Both lengths. `less` is by how much a sequence is shorter afterwards. -/
def utf8LengthFrom (less : Nat → Nat) : Nat → List UInt8 → Int → Option Int
  | fuel + 1, c :: src, dstLen =>
    if ! utf8IsAsciicharacter c && utf8IsInvalidstartcharacter c then none
    else if utf8IsAsciicharacter c then utf8LengthFrom less fuel src dstLen
    else
      let extraLen := utf8GetExtracharacterslength c
      if extraLen > src.length + 1 then some (2 ^ 64 - 1)
      else if (src.take extraLen).length = extraLen ∧
      (src.take extraLen).all utf8IsValidcontinuationcharacter then
        utf8LengthFrom less fuel (src.drop extraLen) (dstLen - less extraLen)
      else none
  | _, _, dstLen => some dstLen

def utf8Utf16length (src : List UInt8) : Option Int :=
  utf8LengthFrom (fun extraLen => if extraLen = 3 then 2 else extraLen) src.length src src.length

def utf8Utf32length (src : List UInt8) : Option Int :=
  utf8LengthFrom (fun extraLen => extraLen) src.length src src.length

end MulleCore
