import Mathlib.Data.List.Basic
import Mathlib.Data.Int.Notation

/-!
`mulle-utf-rover.h`, `mulle-utf-rover.c` and `_mulle_utf_rover_longlong_decimal` of
`mulle-utf-scan.c`. A rover reads a text unit by unit and can be dialed back. A result of `none` is
a move out of the text. What `*p_value` is set to is given as an option.
-/

namespace MulleCore

section Rovers

inductive UtfEncoding where
  | utf8
  | utf16
  | utf32

def UtfEncoding.Unit : UtfEncoding → Type
  | .utf8 => UInt8
  | .utf16 => UInt16
  | .utf32 => Int32

def UtfEncoding.getCharacter : (encoding : UtfEncoding) → encoding.Unit → Int
  | .utf8, c => UInt8.toInt8 c |>.toInt
  | .utf16, c => (UInt16.toNat c : Int)
  | .utf32, c => Int32.toInt c

/-- `seen` is the text before `s`, its last unit first, and `rest` the text up to `sentinel`. -/
structure UtfRover (encoding : UtfEncoding) where
  seen : List encoding.Unit
  rest : List encoding.Unit

variable {encoding : UtfEncoding}

def utfRoverInit (s : List encoding.Unit) : UtfRover encoding := ⟨[], s⟩

def utfRoverHasCharacter (rover : UtfRover encoding) : Bool := !rover.rest.isEmpty

def utfRoverDialBack (rover : UtfRover encoding) : Option (UtfRover encoding) :=
  match rover.seen with
  | [] => none
  | c :: seen => some ⟨seen, c :: rover.rest⟩

end Rovers

section Scan

inductive ScanState where
  | initScan
  | hasSign
  | hasValue
  | isUnsigned
  | hasOverflown
deriving DecidableEq

def utfHasOverflown : Int32 := -2

def utfIsInvalid : Int32 := -1

def utfIsValid : Int32 := 0

def utfIsTooLargeForSigned : Int32 := 1

def utfHasTrailingGarbage : Int32 := 2

def llongMax : UInt64 := 0x7FFFFFFFFFFFFFFF

def llongMin : UInt64 := 0x8000000000000000

structure LonglongScan where
  state : ScanState
  sign : Int
  value : UInt64

def longlongDecimalSign (scan : LonglongScan) (c : Int) : LonglongScan × Bool :=
  if scan.state = .initScan then
    if c = 0x2D then ({ scan with state := .hasSign, sign := -1 }, true)
    else if c = 0x2B then ({ scan with state := .hasSign }, true)
    else (scan, false)
  else (scan, false)

def longlongDecimalStep (scan : LonglongScan) (c : Int) : LonglongScan × Bool :=
  if c ≥ 0x30 ∧ c ≤ 0x39 then
    if scan.state = .initScan ∨ scan.state = .hasSign ∨ scan.state = .hasValue then
      let value := scan.value * 10 + UInt64.ofNat (c - 0x30).toNat
      if value ≥ scan.value then ({ scan with state := .hasValue, value := value }, true)
      else longlongDecimalSign { scan with state := .hasOverflown, value := value } c
    else longlongDecimalSign scan c
  else longlongDecimalSign scan c

variable {encoding : UtfEncoding}

def longlongDecimalLoop (scan : LonglongScan) (seen : List encoding.Unit) :
    List encoding.Unit → Option (LonglongScan × UtfRover encoding)
  | [] => some (scan, ⟨seen, []⟩)
  | c :: rest =>
    match longlongDecimalStep scan (encoding.getCharacter c) with
    | (scan, true) => longlongDecimalLoop scan (c :: seen) rest
    | (scan, false) => do
        let rover ← utfRoverDialBack ⟨c :: seen, rest⟩
        some (scan, rover)

structure LonglongDecimal (encoding : UtfEncoding) where
  rval : Int32
  value : Option Int64
  rover : UtfRover encoding

def longlongDecimalTrailing (rval : Int32) (value : Int64) (rover : UtfRover encoding) :
    LonglongDecimal encoding :=
  ⟨if utfRoverHasCharacter rover then rval ||| utfHasTrailingGarbage else rval, some value, rover⟩

def longlongDecimalFinish (scan : LonglongScan) (rover : UtfRover encoding) :
    Option (LonglongDecimal encoding) :=
  match scan.state with
  | .initScan => some ⟨utfIsInvalid, none, rover⟩
  | .hasSign => do
      let rover ← utfRoverDialBack rover
      some ⟨utfIsInvalid, none, rover⟩
  | .hasOverflown => do
      let rover ← utfRoverDialBack rover
      some ⟨utfHasOverflown, none, rover⟩
  | .hasValue | .isUnsigned =>
    if scan.sign = 1 then
      let rval := if scan.value > llongMax then utfIsTooLargeForSigned else utfIsValid
      some (longlongDecimalTrailing rval scan.value.toInt64 rover)
    else if scan.value > llongMin then do
      let rover ← utfRoverDialBack rover
      some ⟨utfHasOverflown, none, rover⟩
    else
      -- the least number is its own negative
      some (longlongDecimalTrailing utfIsValid (-scan.value.toInt64) rover)

def utfRoverLonglongDecimal (rover : UtfRover encoding) : Option (LonglongDecimal encoding) := do
  let (scan, rover) ← longlongDecimalLoop ⟨.initScan, 1, 0⟩ rover.seen rover.rest
  longlongDecimalFinish scan rover

end Scan

end MulleCore
