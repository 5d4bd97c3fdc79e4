import MulleCore.Sprintf.Formatconversion
import MulleCore.Sprintf.DecimalJeaiii

/-!
The conversions `d`, `i`, `u`, `o`, `x` and `X` of `mulle-sprintf-integer.c`, where `long` has 64
bits. A result of `none` stands for a failed `assert` or an access outside of an area.
-/

namespace MulleCore

section Arguments

inductive SprintfArgumenttype where
  | int
  | char
  | short
  | long
  | longLong
  | intmax
  | int64
  | ptrdiff
  | signedSize
  | unsignedInt
  | unsignedChar
  | unsignedShort
  | unsignedLong
  | unsignedLongLong
  | uintmax
  | uint64
  | unsignedPtrdiff
  | size
deriving DecidableEq

def sprintfArgumentsize : SprintfArgumenttype → Nat
  | .int => 4
  | .char => 1
  | .short => 2
  | .unsignedInt => 4
  | .unsignedChar => 1
  | .unsignedShort => 2
  | _ => 8

def sprintfGetSignedIntArgumenttype : List UInt8 → Option SprintfArgumenttype
  | [0x68, 0x68] => some .char
  | [0x68] => some .short
  | [0x6C, 0x6C] => some .longLong
  | [0x6C] => some .long
  | [0x6A] => some .intmax
  | [0x71] => some .int64
  | [0x74] => some .ptrdiff
  | [0x7A] => some .signedSize
  | [] => some .int
  | _ => none

def sprintfGetUnsignedIntArgumenttype : List UInt8 → Option SprintfArgumenttype
  | [0x68, 0x68] => some .unsignedChar
  | [0x68] => some .unsignedShort
  | [0x6C, 0x6C] => some .unsignedLongLong
  | [0x6C] => some .unsignedLong
  | [0x6A] => some .uintmax
  | [0x71] => some .uint64
  | [0x74] => some .unsignedPtrdiff
  | [0x7A] => some .size
  | [] => some .unsignedInt
  | _ => none

def sprintfSignedValue (t : SprintfArgumenttype) (v : UInt64) : Int64 :=
  let s := sprintfArgumentsize t
  if s ≥ 8 then v.toInt64
  else if s = 4 then v.toUInt32.toInt32.toInt64
  else if s = 2 then v.toUInt16.toInt16.toInt64
  else v.toUInt8.toInt8.toInt64

def sprintfUnsignedValue (t : SprintfArgumenttype) (v : UInt64) : UInt64 :=
  match t with
  | .unsignedChar => v.toUInt8.toUInt64
  | .unsignedShort => v.toUInt16.toUInt64
  | .unsignedInt => v.toUInt32.toUInt64
  | .unsignedLong => v
  | .unsignedLongLong => v
  | .uintmax => v
  | .uint64 => v
  | .size => v
  | .unsignedPtrdiff => v
  | _ => v.toUInt32.toInt32.toInt64.toUInt64

end Arguments

section Converters

structure IntegerConverters where
  convertUnsignedInt : UInt32 → Nat → Option (List UInt8)
  convertLocaleUnsignedInt : UInt32 → Nat → Option (List UInt8)
  convertUnsignedLongLong : UInt64 → Nat → Option (List UInt8)
  convertLocaleUnsignedLongLong : UInt64 → Nat → Option (List UInt8)
  writesForward : Bool
  /-- From `value_is_zero`, `length` and `precision`, the result with the characters of `s`. -/
  setPrefix : Bool → Nat → Nat → Int × List UInt8

def setDecimalPrefix (_valueIsZero : Bool) (_length _precision : Nat) : Int × List UInt8 := (0, [])

def convertDecimalUnsignedInt (value : UInt32) (_capacity : Nat) : Option (List UInt8) :=
  (jeaiiiConvertUnsignedInt value).map Prod.fst

def convertDecimalUnsignedLongLong (value : UInt64) (_capacity : Nat) : Option (List UInt8) :=
  (jeaiiiConvertUnsignedLongLong value).map Prod.fst

def decimalConverters : IntegerConverters where
  convertUnsignedInt := convertDecimalUnsignedInt
  convertLocaleUnsignedInt := convertDecimalUnsignedInt
  convertUnsignedLongLong := convertDecimalUnsignedLongLong
  convertLocaleUnsignedLongLong := convertDecimalUnsignedLongLong
  writesForward := true
  setPrefix := setDecimalPrefix

/-- The loop of the octal and hexadecimal converters, from the end of the area on: the lowest
`shift` bits make a digit, the `mask` takes them. -/
def convertBitsFrom (mask shift : Nat) (digit : Nat → UInt8) :
    Nat → Nat → List UInt8 → Option (List UInt8)
  | 0, value, s => if value = 0 then some s else none
  | capacity + 1, value, s =>
    if value = 0 then some s
    else convertBitsFrom mask shift digit capacity (value >>> shift) (digit (value &&& mask) :: s)

def octalDigit (v : Nat) : UInt8 := UInt8.ofNat (0x30 + v)

def convertOctalUnsignedInt (value : UInt32) (capacity : Nat) : Option (List UInt8) :=
  convertBitsFrom 0x7 3 octalDigit capacity value.toNat []

def convertOctalUnsignedLongLong (value : UInt64) (capacity : Nat) : Option (List UInt8) :=
  convertBitsFrom 0x7 3 octalDigit capacity value.toNat []

def setOctalPrefix (_valueIsZero : Bool) (length precision : Nat) : Int × List UInt8 :=
  if length ≠ 0 ∧ precision ≤ length then (-1, []) else (0, [])

def octalConverters : IntegerConverters where
  convertUnsignedInt := convertOctalUnsignedInt
  convertLocaleUnsignedInt := convertOctalUnsignedInt
  convertUnsignedLongLong := convertOctalUnsignedLongLong
  convertLocaleUnsignedLongLong := convertOctalUnsignedLongLong
  writesForward := false
  setPrefix := setOctalPrefix

def hexDigit (ten : Nat) (v : Nat) : UInt8 :=
  if v ≥ 10 then UInt8.ofNat (ten - 10 + v) else UInt8.ofNat (0x30 + v)

def convertHexUnsignedInt (value : UInt32) (capacity : Nat) : Option (List UInt8) :=
  convertBitsFrom 0xF 4 (hexDigit 0x61) capacity value.toNat []

def convertHexUnsignedLongLong (value : UInt64) (capacity : Nat) : Option (List UInt8) :=
  convertBitsFrom 0xF 4 (hexDigit 0x61) capacity value.toNat []

def setHexPrefix (_valueIsZero : Bool) (length _precision : Nat) : Int × List UInt8 :=
  if length ≠ 0 then (2, [0x30, 0x78]) else (0, [])

def hexConverters : IntegerConverters where
  convertUnsignedInt := convertHexUnsignedInt
  convertLocaleUnsignedInt := convertHexUnsignedInt
  convertUnsignedLongLong := convertHexUnsignedLongLong
  convertLocaleUnsignedLongLong := convertHexUnsignedLongLong
  writesForward := false
  setPrefix := setHexPrefix

def convertHexUpperUnsignedInt (value : UInt32) (capacity : Nat) : Option (List UInt8) :=
  convertBitsFrom 0xF 4 (hexDigit 0x41) capacity value.toNat []

def convertHexUpperUnsignedLongLong (value : UInt64) (capacity : Nat) : Option (List UInt8) :=
  convertBitsFrom 0xF 4 (hexDigit 0x41) capacity value.toNat []

def hexUpperConverters : IntegerConverters where
  convertUnsignedInt := convertHexUpperUnsignedInt
  convertLocaleUnsignedInt := convertHexUpperUnsignedInt
  convertUnsignedLongLong := convertHexUpperUnsignedLongLong
  convertLocaleUnsignedLongLong := convertHexUpperUnsignedLongLong
  writesForward := false
  setPrefix := setHexPrefix

end Converters

section Conversions

variable (env : BufferEnv) (fresh : Nat → UInt8)

/-- The branch of `_mulle_sprintf_justified` for `left_justify`. Without a sign, `sign` is zero. -/
def sprintfJustifiedLeft (info : Formatconversioninfo) (p q : List UInt8) (precision : Nat)
    (sign widthChar : UInt8) (buffer : MulleBuffer) : Option MulleBuffer := do
  let used := bufferGetLength buffer
  let buffer ← bufferWhen (sign ≠ 0) (bufferAddByte env fresh · sign) buffer
  let buffer ← bufferWhen (q.length ≠ 0) (bufferAddBytes env fresh · q) buffer
  let buffer ← bufferWhen (precision > p.length)
    (bufferMemset env fresh · 0x30 (precision - p.length)) buffer
  let buffer ← bufferAddBytes env fresh buffer p
  let used := wordSub (bufferGetLength buffer) used
  bufferWhen (info.width > used) (bufferMemset env fresh · widthChar (info.width - used)) buffer

def sprintfJustifiedRight (info : Formatconversioninfo) (p q : List UInt8) (precision : Nat)
    (sign widthChar : UInt8) (buffer : MulleBuffer) : Option MulleBuffer := do
  let length := p.length + q.length
  let total := length + (if sign ≠ 0 then 1 else 0) + if precision > p.length then
    precision - p.length else 0
  let buffer ← bufferWhen (info.width > total && widthChar ≠ 0x30)
    (bufferMemset env fresh · widthChar (info.width - total)) buffer
  let buffer ← bufferWhen (sign ≠ 0) (bufferAddByte env fresh · sign) buffer
  let buffer ← bufferWhen (info.width > total && widthChar = 0x30)
    (bufferMemset env fresh · widthChar (info.width - total)) buffer
  let buffer ← bufferWhen (q.length ≠ 0) (bufferAddBytes env fresh · q) buffer
  let buffer ← bufferWhen (precision > length)
    (bufferMemset env fresh · 0x30 (precision - p.length)) buffer
  bufferAddBytes env fresh buffer p

def sprintfJustified (info : Formatconversioninfo) (p q : List UInt8) (precision : Nat) (sign : UInt8)
    (buffer : MulleBuffer) : Option MulleBuffer :=
  if q.length = 0 ∧ sign = 0 ∧ info.width = 0 ∧ precision ≤ p.length then
    bufferAddBytes env fresh buffer p
  else
    let widthChar := if info.zeroFound then 0x30 else 0x20
    if info.leftJustify then sprintfJustifiedLeft env fresh info p q precision sign widthChar buffer
    else sprintfJustifiedRight env fresh info p q precision sign widthChar buffer

def sprintfPrefixed (info : Formatconversioninfo) (length : Nat) (isZero : Bool)
    (setPrefix : Bool → Nat → Nat → Int × List UInt8) : Nat × List UInt8 :=
  let precision := if info.precisionFound then info.precision else 1
  if info.hashFound then
    let (qLength, tmp) := setPrefix isZero length precision
    if qLength < 0 then ((length - qLength).toNat, []) else (precision, tmp.take qLength.toNat)
  else (precision, [])

def sprintfJustifiedAndPrefixed (info : Formatconversioninfo) (p : List UInt8) (sign : UInt8)
    (isZero : Bool) (setPrefix : Bool → Nat → Nat → Int × List UInt8) (buffer : MulleBuffer) :
    Option MulleBuffer :=
  let (precision, q) := sprintfPrefixed info p.length isZero setPrefix
  sprintfJustified env fresh info p q precision sign buffer

def sprintfIntegerCapacity : Nat := 32

def bufferGetCapacity (buffer : MulleBuffer) : Nat :=
  if buffer.place = .null then buffer.size else buffer.storage.length

def sprintfIntegerSpace (buffer : MulleBuffer) : Option (MulleBuffer × Option Nat) :=
  if ¬ bufferIsInflexible buffer ∨
      wordSub (bufferGetCapacity buffer) (bufferGetLength buffer) ≥ sprintfIntegerCapacity then
    bufferGuarantee env fresh buffer sprintfIntegerCapacity
  else some (buffer, none)

def sprintfIntegerPure (converters : IntegerConverters) (s : Nat) (sign : UInt8) (vLL : UInt64) :
    Option (List UInt8) := do
  let front := if sign ≠ 0 then [sign] else []
  if vLL = 0 then some (front ++ [0x30])
  else
    let length := sprintfIntegerCapacity - front.length
    let digits ← if s = 4 then converters.convertUnsignedInt vLL.toUInt32 length
      else converters.convertUnsignedLongLong vLL length
    some (front ++ digits)

def sprintfIntegerDigits (info : Formatconversioninfo) (converters : IntegerConverters) (s : Nat)
    (vLL : UInt64) :
    Option (List UInt8) :=
  if info.quoteFound then
    if s = 4 then converters.convertLocaleUnsignedInt vLL.toUInt32 sprintfIntegerCapacity
    else converters.convertLocaleUnsignedLongLong vLL sprintfIntegerCapacity
  else if s = 4 then converters.convertUnsignedInt vLL.toUInt32 sprintfIntegerCapacity
  else converters.convertUnsignedLongLong vLL sprintfIntegerCapacity

def sprintfIntegerText (info : Formatconversioninfo) (converters : IntegerConverters) (s : Nat)
    (sign : UInt8) (vLL : UInt64) (buffer : MulleBuffer) : Option MulleBuffer := do
  let digits ← sprintfIntegerDigits info converters s vLL
  sprintfJustifiedAndPrefixed env fresh info digits sign (vLL = 0) converters.setPrefix buffer

def sprintfIntegerNumber (info : Formatconversioninfo) (converters : IntegerConverters) (s : Nat)
    (sign : UInt8) (vLL : UInt64) (buffer : MulleBuffer) : Option MulleBuffer :=
  if info.pure && converters.writesForward then do
    let (buffer, space) ← sprintfIntegerSpace env fresh buffer
    match space with
    | none => sprintfIntegerText env fresh info converters s sign vLL buffer
    | some space => do
        let text ← sprintfIntegerPure converters s sign vLL
        let buffer ← bufferFill buffer space text
        let (buffer, _) ← bufferAdvance env fresh buffer text.length
        some buffer
  else sprintfIntegerText env fresh info converters s sign vLL buffer

def sprintfIntegerSign (info : Formatconversioninfo) (isSigned : Bool) (t : SprintfArgumenttype)
    (v : UInt64) :
    UInt8 × UInt64 :=
  if isSigned then
    let vll := sprintfSignedValue t v
    if vll < 0 then (0x2D, 0 - vll.toUInt64)
    else (if info.plusFound then 0x2B else if info.spaceFound then 0x20 else 0, vll.toUInt64)
  else (0, sprintfUnsignedValue t v)

def integerConversion (info : Formatconversioninfo) (t : SprintfArgumenttype) (v : UInt64)
    (converters : IntegerConverters) (isSigned : Bool) (buffer : MulleBuffer) : Option MulleBuffer :=
  let (sign, vLL) := sprintfIntegerSign info isSigned t v
  if info.boolFound then
    -- `YES` or `NO`, the sign does not matter for it
    if vLL ≠ 0 then bufferAddBytes env fresh buffer [0x59, 0x45, 0x53]
    else bufferAddBytes env fresh buffer [0x4E, 0x4F]
  else sprintfIntegerNumber env fresh info converters (sprintfArgumentsize t) sign vLL buffer

def sprintfIntegerFunctions (conversion : UInt8) :
    Option ((List UInt8 → Option SprintfArgumenttype) × IntegerConverters × Bool) :=
  match conversion with
  | 0x69 => some (sprintfGetSignedIntArgumenttype, decimalConverters, true)
  | 0x64 => some (sprintfGetSignedIntArgumenttype, decimalConverters, true)
  | 0x75 => some (sprintfGetUnsignedIntArgumenttype, decimalConverters, false)
  | 0x6F => some (sprintfGetUnsignedIntArgumenttype, octalConverters, false)
  | 0x78 => some (sprintfGetUnsignedIntArgumenttype, hexConverters, false)
  | 0x58 => some (sprintfGetUnsignedIntArgumenttype, hexUpperConverters, false)
  | _ => none

def sprintfConvertInteger (info : Formatconversioninfo) (v : UInt64) (buffer : MulleBuffer) :
    Option MulleBuffer := do
  let (argumenttype, converters, isSigned) ← sprintfIntegerFunctions info.conversion
  let t ← argumenttype info.modifier
  integerConversion env fresh info t v converters isSigned buffer

end Conversions

end MulleCore
