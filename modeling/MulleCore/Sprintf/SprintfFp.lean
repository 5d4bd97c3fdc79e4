import MulleCore.Dtostr.Dtostr
import MulleCore.Sprintf.Formatconversion

/-!
The conversions `e`, `f`, `g` and `a` of `mulle-sprintf-fp.c` for a `double`, from what
`mulle_dtostr_decompose` has made of it or from its bits.
-/

namespace MulleCore

open Library

section Digits

def countDigitsFrom : Nat → Nat → Nat
  | 0, _ => 0
  | rounds + 1, n => if n > 0 then countDigitsFrom rounds (n / 10) + 1 else 0

def countDecimalDigits (n : Nat) : Nat := if n = 0 then 1 else countDigitsFrom 20 n

def roundSignificand (sig : Nat) (keepDigits : Int) (exponent : Int) : Nat × Int :=
  let currentDigits := countDecimalDigits sig
  if keepDigits ≥ currentDigits then (sig, exponent)
  else
    let divisor := 10 ^ (currentDigits - keepDigits - 1).toNat
    let nextDigit := sig / divisor % 10
    let remainder := sig % divisor
    let lastDigit := sig / divisor / 10 % 10
    let divisor := divisor * 10
    let sig := sig / divisor * divisor
    if nextDigit > 5 ∨ nextDigit = 5 ∧ (remainder ≠ 0 ∨ lastDigit % 2 = 1) then
      let sig := sig + divisor
      if countDecimalDigits sig > keepDigits then (sig / 10, exponent + 1) else (sig, exponent)
    else (sig, exponent)

def fpDigit (digit : Nat) : UInt8 := UInt8.ofNat (0x30 + digit)

/-- The loops that go on while `num_digits` are left: their digits, and what is left of the
significand, its divisor and the digits. -/
def fpDigits : Nat → Nat → Nat → Nat → List UInt8 × Nat × Nat × Nat
  | 0, significand, divisor, numDigits => ([], significand, divisor, numDigits)
  | limit + 1, significand, divisor, numDigits =>
    if numDigits > 0 then
      let (digits, rest) := fpDigits limit (significand % divisor) (divisor / 10) (numDigits - 1)
      (fpDigit (significand / divisor) :: digits, rest)
    else ([], significand, divisor, numDigits)

def fpFractionDigits : Nat → Nat → Nat → List UInt8
  | 0, _, _ => []
  | count + 1, significand, divisor =>
    let divisor := divisor / 10
    fpDigit (significand / divisor) :: fpFractionDigits count (significand % divisor) divisor

def fpZeros (i limit : Nat) : List UInt8 := List.replicate (limit - i) 0x30

end Digits

section Justify

variable (env : BufferEnv) (fresh : Nat → UInt8)

def fpInf : List UInt8 := [0x69, 0x6E, 0x66]

def fpNan : List UInt8 := [0x6E, 0x61, 0x6E]

def fpInsert (info : Formatconversioninfo) (bytes : List UInt8) : Nat × UInt8 :=
  let insert := if bytes.head? = some 0x2D ∨ bytes.head? = some 0x2B ∨ bytes.head? = some 0x20 then
    1 else 0
  let s := bytes.drop insert
  if s.take 3 = fpInf ∨ s.take 3 = fpNan then (0, 0x20)
  else if info.zeroFound then
    if (info.conversion = 0x61 ∨ info.conversion = 0x41) ∧ s[0]? = some 0x30 ∧
        (s[1]? = some 0x78 ∨ s[1]? = some 0x58) then (insert + 2, 0x30)
    else (insert, 0x30)
  else (0, 0x20)

def sprintfFpJustify (info : Formatconversioninfo) (before : Nat) (buffer : MulleBuffer) :
    Option MulleBuffer :=
  let used := wordSub (bufferGetLength buffer) before
  if info.width ≤ used then some buffer
  else
    let pad := info.width - used
    if info.leftJustify then bufferMemset env fresh buffer 0x20 pad
    else do
      let (insert, widthChar) := fpInsert info (buffer.storage.drop before)
      let (buffer, _) ← bufferSetLength env fresh buffer (bufferGetLength buffer + pad) 0
      let storage ← blockMove buffer.storage (before + insert + pad) (before + insert) (used - insert)
      let storage ← blockPaste storage (before + insert) (List.replicate pad widthChar)
      some { buffer with storage := storage }

def fpJustified (info : Formatconversioninfo) (statement : MulleBuffer → Option MulleBuffer)
    (buffer : MulleBuffer) :
    Option MulleBuffer := do
  let before := bufferGetLength buffer
  let buffer ← statement buffer
  sprintfFpJustify env fresh info before buffer

end Justify

section Texts

def fpSign (info : Formatconversioninfo) (sign : Bool) : List UInt8 :=
  if sign then [0x2D] else if info.plusFound then [0x2B] else if info.spaceFound then [0x20] else []

def fpPrecision (info : Formatconversioninfo) : Nat :=
  if info.precisionFound then info.precision else 6

def fpFraction (info : Formatconversioninfo) (precision : Nat) (digits : List UInt8) : List UInt8 :=
  if precision > 0 ∨ info.hashFound then 0x2E :: digits else []

def fpExponentLetter (info : Formatconversioninfo) : UInt8 :=
  if info.conversion = 0x45 ∨ info.conversion = 0x47 then 0x45 else 0x65

def fpZeroText (info : Formatconversioninfo) (sign : Bool) : List UInt8 :=
  fpSign info sign ++ 0x30 :: fpFraction info (fpPrecision info) (fpZeros 0 (fpPrecision info))

def fpEText (info : Formatconversioninfo) (decimal : DtostrDecimal) : List UInt8 :=
  let precision := fpPrecision info
  let (significand, exponent) := roundSignificand decimal.significand (precision + 1) decimal.exponent
  let numDigits := countDecimalDigits significand
  let exponent := exponent + (numDigits - 1)
  let divisor := 10 ^ (numDigits - 1)
  let count := min precision (numDigits - 1)
  let digits := fpFractionDigits count (significand % divisor) divisor
  let magnitude := exponent.natAbs
  fpSign info decimal.sign ++ fpDigit (significand / divisor) ::
    (if precision > 0 ∨ info.hashFound then [0x2E] else []) ++ digits ++ fpZeros count precision ++
    [fpExponentLetter info, if exponent ≥ 0 then 0x2B else 0x2D] ++
    (if magnitude ≥ 100 then [fpDigit (magnitude / 100)] else []) ++
    [fpDigit (magnitude / 10 % 10), fpDigit (magnitude % 10)]

def fpFRounded (info : Formatconversioninfo) (decimal : DtostrDecimal) : Nat × Int :=
  let intDigits := countDecimalDigits decimal.significand + decimal.exponent
  if intDigits > 0 then roundSignificand decimal.significand (intDigits + fpPrecision info)
    decimal.exponent
  else roundSignificand decimal.significand (fpPrecision info - decimal.exponent) decimal.exponent

def fpFText (info : Formatconversioninfo) (decimal : DtostrDecimal) : List UInt8 :=
  let precision := fpPrecision info
  let (significand, exponent) := fpFRounded info decimal
  let numDigits := countDecimalDigits significand
  let intDigits := numDigits + exponent
  let divisor := 10 ^ (numDigits - 1)
  fpSign info decimal.sign ++
    if intDigits ≤ 0 then
      let zeros := min (-intDigits).toNat precision
      let (digits, _) := fpDigits (precision - zeros) significand divisor numDigits
      0x30 :: fpFraction info precision (List.replicate zeros 0x30 ++ digits ++
        fpZeros (zeros + digits.length) precision)
    else
      let (digits, significand, divisor, numDigits) :=
        fpDigits intDigits.toNat significand divisor numDigits
      let (fraction, _) := fpDigits precision significand divisor numDigits
      digits ++ fpZeros digits.length intDigits.toNat ++
        fpFraction info precision (fraction ++ fpZeros fraction.length precision)

end Texts

section Conversions

variable (env : BufferEnv) (fresh : Nat → UInt8)

def sprintfFpEConversion (info : Formatconversioninfo) (decimal : DtostrDecimal) :
    MulleBuffer → Option MulleBuffer :=
  fpJustified env fresh info fun buffer =>
    match decimal.special with
    | .normal => bufferAddEach env fresh buffer (fpEText info decimal)
    | .zero => bufferAddEach env fresh buffer
        (fpZeroText info decimal.sign ++ [fpExponentLetter info, 0x2B, 0x30, 0x30])
    | special => do
        let buffer ← bufferAddEach env fresh buffer (fpSign info decimal.sign)
        bufferAddString env fresh buffer (if special = .inf then fpInf else fpNan)

def sprintfFpFConversion (info : Formatconversioninfo) (decimal : DtostrDecimal) :
    MulleBuffer → Option MulleBuffer :=
  fpJustified env fresh info fun buffer =>
    match decimal.special with
    | .normal => bufferAddEach env fresh buffer (fpFText info decimal)
    | .zero => bufferAddEach env fresh buffer (fpZeroText info decimal.sign)
    | special => bufferAddString env fresh buffer
        ((if decimal.sign then [0x2D] else []) ++ if special = .inf then fpInf else fpNan)

def fpSkipZeros (text : List UInt8) (lowest : Nat) : Nat → Nat
  | 0 => 0
  | p + 1 => if p + 1 > lowest ∧ text[p + 1]? = some 0x30 then fpSkipZeros text lowest p else p + 1

def fpTrimExponentForm (before : Nat) (buffer : MulleBuffer) : Option MulleBuffer := do
  let count := bufferGetLength buffer - before
  let text ← blockRead buffer.storage before count
  let p := text.findIdx fun c => c = 0x65 || c = 0x45
  let dot := fpSkipZeros text 0 (p - 1)
  let keep := if text[dot]? = some 0x2E then dot else dot + 1
  if keep < p then
    let storage ← blockMove buffer.storage (before + keep) (before + p) (count - p)
    let (buffer, _) ← bufferSetLength env fresh { buffer with storage := storage }
      (before + keep + (count - p)) 0
    some buffer
  else some buffer

def fpTrimFixedForm (before : Nat) (buffer : MulleBuffer) : Option MulleBuffer := do
  let count := bufferGetLength buffer - before
  let text ← blockRead buffer.storage before count
  let dot := text.findIdx (· = 0x2E)
  if dot < count then
    let p := fpSkipZeros text dot (count - 1)
    let keep := if p = dot then p else p + 1
    if keep < count then
      let (buffer, _) ← bufferSetLength env fresh buffer (before + keep) 0
      some buffer
    else some buffer
  else some buffer

def fpGInfo (info : Formatconversioninfo) (precision : Nat) : Formatconversioninfo :=
  { info with
    width := 0
    widthFound := false
    leftJustify := false
    zeroFound := false
    precision := precision
    precisionFound := true }

def fpGeneral (info : Formatconversioninfo) (decimal : DtostrDecimal) (buffer : MulleBuffer) :
    Option MulleBuffer :=
  let precision := if fpPrecision info = 0 then 1 else fpPrecision info
  let exponent := decimal.exponent + countDecimalDigits decimal.significand - 1
  let before := bufferGetLength buffer
  if exponent < -4 ∨ exponent ≥ precision then do
    let buffer ← sprintfFpEConversion env fresh (fpGInfo info (precision - 1)) decimal buffer
    if info.hashFound then some buffer else fpTrimExponentForm env fresh before buffer
  else do
    let buffer ← sprintfFpFConversion env fresh (fpGInfo info (precision - (exponent + 1)).toNat)
      decimal buffer
    if info.hashFound then some buffer else fpTrimFixedForm env fresh before buffer

def sprintfFpGConversion (info : Formatconversioninfo) (decimal : DtostrDecimal) :
    MulleBuffer → Option MulleBuffer :=
  fpJustified env fresh info fun buffer =>
    if decimal.special = .inf ∨ decimal.special = .nan then do
      let buffer ← bufferAddEach env fresh buffer (fpSign info decimal.sign)
      bufferAddString env fresh buffer (if decimal.special = .inf then fpInf else fpNan)
    else fpGeneral env fresh info decimal buffer

end Conversions

section Hexadecimal

def fpNibbles (mantissa : Nat) : List Nat :=
  (List.range 13).map fun i => mantissa >>> (48 - i * 4) &&& 0xF

/-- To nearest, ties to even, by the first dropped nibble. -/
def fpRoundUp (digits : List Nat) (leading precision : Nat) : Bool :=
  if precision < 13 then
    let nibble := digits.getD precision 0
    if nibble > 8 then true
    else if nibble = 8 then
      if (digits.drop (precision + 1)).any (· ≠ 0) then true
      else if precision = 0 then leading % 2 = 1
      else digits.getD (precision - 1) 0 % 2 = 1
    else false
  else false

/-- The last retained digit is incremented, and if that carries the one in front of it. The result
is still to be carried with `true`. -/
def fpIncrement : Nat → List Nat → List Nat × Bool
  | 0, digits => (digits, true)
  | i + 1, digits =>
    let digit := digits.getD i 0 + 1
    if digit < 16 then (digits.set i digit, false) else fpIncrement i (digits.set i 0)

def fpOutDigits (digits : List Nat) : Nat → Nat
  | 0 => 0
  | i + 1 => if digits.getD i 0 ≠ 0 then i + 1 else fpOutDigits digits i

def fpHexDigit (hexChar : UInt8) (nibble : Nat) : UInt8 :=
  if nibble < 10 then UInt8.ofNat (0x30 + nibble) else hexChar + UInt8.ofNat nibble - 10

def fpHexExponent (exponent : Int) : List UInt8 :=
  let magnitude := exponent.natAbs
  (if exponent ≥ 0 then 0x2B else 0x2D) ::
    (if magnitude ≥ 1000 then [fpDigit (magnitude / 1000)] else []) ++
    (if magnitude ≥ 100 then [fpDigit (magnitude / 100 % 10)] else []) ++
    (if magnitude ≥ 10 then [fpDigit (magnitude / 10 % 10)] else []) ++ [fpDigit (magnitude % 10)]

def fpHexNumber (info : Formatconversioninfo) (hexChar : UInt8) (leading mantissa : Nat)
    (exponent : Int) : List UInt8 :=
  let digits := fpNibbles mantissa
  let outDigits :=
    if info.precisionFound then if info.precision < 13 then
      info.precision else 13 else fpOutDigits digits 13
  let (digits, carry) :=
    if info.precisionFound && fpRoundUp digits leading info.precision then
      fpIncrement outDigits digits
    else (digits, false)
  let leading := if carry then leading + 1 else leading
  UInt8.ofNat (0x30 + leading) ::
    (if info.precisionFound then
      fpFraction info info.precision
        ((List.range info.precision).map fun i => fpHexDigit hexChar
          (if i < outDigits then digits.getD i 0 else 0))
    else fpFraction info outDigits ((List.range outDigits).map fun i => fpHexDigit hexChar
      (digits.getD i 0))) ++
    (if hexChar = 0x41 then 0x50 else 0x70) :: fpHexExponent (exponent - 1023)

def fpHexText (info : Formatconversioninfo) (bits : UInt64) : List UInt8 :=
  let mantissa := bits.toNat % 2 ^ 52
  let exponent : Nat := bits.toNat / 2 ^ 52 % 2 ^ 11
  let hexChar := if info.conversion = 0x41 then 0x41 else 0x61
  [0x30, if hexChar = 0x41 then 0x58 else 0x78] ++
    if exponent = 0 ∧ mantissa = 0 then
      0x30 :: (if info.precisionFound then fpFraction info info.precision (fpZeros 0 info.precision)
        else []) ++ [if hexChar = 0x41 then 0x50 else 0x70, 0x2B, 0x30]
    else if exponent = 0 then fpHexNumber info hexChar 0 mantissa 1
    else fpHexNumber info hexChar 1 (2 ^ 52 + mantissa) exponent

variable (env : BufferEnv) (fresh : Nat → UInt8)

def fpNegative (bits : UInt64) : Bool := bits >>> 63 ≠ 0

def sprintfFpAConversion (info : Formatconversioninfo) (bits : UInt64) :
    MulleBuffer → Option MulleBuffer :=
  fpJustified env fresh info fun buffer => do
    let mantissa := bits.toNat % 2 ^ 52
    let exponent := bits.toNat / 2 ^ 52 % 2 ^ 11
    let buffer ← bufferAddEach env fresh buffer (fpSign info (fpNegative bits))
    if exponent = 0x7FF then
      if mantissa ≠ 0 then bufferAddString env fresh buffer fpNan
      else bufferAddString env fresh buffer (if fpNegative bits then 0x2D :: fpInf else fpInf)
    else bufferAddEach env fresh buffer (fpHexText info bits)

end Hexadecimal

end MulleCore
