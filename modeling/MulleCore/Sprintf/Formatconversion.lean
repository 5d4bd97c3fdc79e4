import MulleCore.Buffer.BufferAppends

/-!
The `mulle_sprintf_formatconversioninfo` of `mulle-sprintf-function.h`, as `parse_conversion_info`
and `convert_argument` of `mulle-sprintf.c` leave it for the conversion functions.
-/

namespace MulleCore

/-- Width and precision are never negative: the parser takes digits only, and `convert_argument`
takes the sign off an argument. -/
structure Formatconversioninfo where
  width : Nat
  precision : Nat
  modifier : List UInt8
  conversion : UInt8
  separator : UInt8
  argumentIndexFound : Bool
  zeroFound : Bool
  minusFound : Bool
  spaceFound : Bool
  hashFound : Bool
  plusFound : Bool
  quoteFound : Bool
  boolFound : Bool
  widthFound : Bool
  precisionFound : Bool
  leftJustify : Bool
  pure : Bool
deriving DecidableEq

def formatconversionIsPure (info : Formatconversioninfo) : Bool :=
  !info.argumentIndexFound && !info.zeroFound && !info.minusFound && !info.spaceFound &&
    !info.hashFound &&
    !info.plusFound && !info.quoteFound && !info.boolFound && !info.widthFound &&
      !info.precisionFound &&
    info.separator = 0 && info.modifier.isEmpty

def convertArgumentInfo (info : Formatconversioninfo) : Formatconversioninfo :=
  if info.minusFound then { info with leftJustify := true, zeroFound := false } else info

structure Formatspec where
  minus : Bool
  plus : Bool
  space : Bool
  zero : Bool
  hash : Bool
  width : Option Nat
  precision : Option Nat
deriving DecidableEq

namespace Formatspec

variable (spec : Formatspec) (modifier : List UInt8) (conversion : UInt8)

def found : Formatconversioninfo where
  width := spec.width.getD 0
  precision := spec.precision.getD 0
  modifier := modifier
  conversion := conversion
  separator := 0
  argumentIndexFound := false
  zeroFound := spec.zero
  minusFound := spec.minus
  spaceFound := spec.space
  hashFound := spec.hash
  plusFound := spec.plus
  quoteFound := false
  boolFound := false
  widthFound := spec.width.isSome
  precisionFound := spec.precision.isSome
  leftJustify := false
  pure := false

def parsed : Formatconversioninfo :=
  { spec.found modifier conversion with pure := formatconversionIsPure (spec.found modifier conversion) }

def info : Formatconversioninfo := convertArgumentInfo (spec.parsed modifier conversion)

def zeroes : Bool := spec.zero && !spec.minus

theorem info_eq : spec.info modifier conversion =
    { spec.parsed modifier conversion with zeroFound := spec.zeroes, leftJustify := spec.minus } := by
  cases minus : spec.minus <;> simp [info, convertArgumentInfo, parsed, found, zeroes, minus]

theorem info_pure : (spec.info modifier conversion).pure = true ↔
    spec.minus = false ∧ spec.plus = false ∧ spec.space = false ∧ spec.zero = false ∧
    spec.hash = false ∧
      spec.width = none ∧ spec.precision = none ∧ modifier = [] := by
  rw [info_eq]
  simp [parsed, found, formatconversionIsPure]
  tauto

end Formatspec

end MulleCore
