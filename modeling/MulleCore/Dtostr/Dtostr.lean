import Mathlib.Algebra.Order.Ring.Int
import Mathlib.Data.List.DropRight
import MulleCore.Library.Block
import MulleCore.Sprintf.DecimalText

/-!
The `mulle_dtostr_decimal` of `_mulle-dtostr.h`.
-/

namespace MulleCore

inductive DtostrSpecial where
  | normal
  | inf
  | nan
  | zero
  | invalid
deriving DecidableEq

structure DtostrDecimal where
  significand : Nat
  exponent : Int
  sign : Bool
  special : DtostrSpecial
  digits : Nat
  truncated : Bool
deriving DecidableEq

structure DtostrDelivers (decimal : DtostrDecimal) : Prop where
  normal : decimal.special = .normal
  positive : 1 ≤ decimal.significand
  most : decimal.significand ≤ 10 ^ 17
  least : -324 ≤ decimal.exponent
  greatest : decimal.exponent ≤ 292

/-!
How `mulle-dtostr.c` writes a decimal.
-/

open Library

def significandDigits (n : Nat) (s : List UInt8) : List UInt8 :=
  if n > 0 then significandDigits (n / 10) (decimalDigit (n % 10) :: s) else s

/-- Without the zeros at the end, but the first digit stays. -/
def writeSignificand (value : Nat) : List UInt8 :=
  if value = 0 then [0x30]
  else
    let digits := significandDigits value []
    digits.take 1 ++ (digits.drop 1).rdropWhile (· = 0x30)

def decimalDigitCount (value : Nat) : Nat :=
  if value ≥ 10 then decimalDigitCount (value / 10) + 1 else 1

def write2Digits (buffer : List UInt8) (position value : Nat) : Option (List UInt8) := do
  let first ← decimalPairs[value * 2]?
  let second ← decimalPairs[value * 2 + 1]?
  blockPaste buffer position [first, second]

def writeMulleExponent (buffer : List UInt8) (position : Nat) (actualExp : Int) :
    Option (List UInt8 × Nat) := do
  let buffer ← blockPaste buffer position [0x65]
  let buffer ← blockPaste buffer (position + 1) [if actualExp ≥ 0 then 0x2B else 0x2D]
  let absExp := actualExp.natAbs
  if absExp ≥ 100 then
    let buffer ← blockPaste buffer (position + 2) [decimalDigit (absExp / 100)]
    let buffer ← write2Digits buffer (position + 3) (absExp % 100)
    let buffer ← blockPaste buffer (position + 5) [0]
    some (buffer, position + 5)
  else
    let buffer ← write2Digits buffer (position + 2) absExp
    let buffer ← blockPaste buffer (position + 4) [0]
    some (buffer, position + 4)

def writeMulle (buffer : List UInt8) (decSig : Nat) (decExp : Int) : Option (List UInt8 × Nat) := do
  let sig := writeSignificand decSig
  let actualExp := decExp + decimalDigitCount decSig - 1
  if actualExp ≥ -4 ∧ actualExp ≤ 6 then
    if actualExp ≥ 0 then
      if actualExp < (sig.length : Int) - 1 then
        let intDigits := (actualExp + 1).toNat
        let buffer ← blockPaste buffer 0 (sig.take intDigits)
        let buffer ← blockPaste buffer intDigits [0x2E]
        let buffer ← blockPaste buffer (intDigits + 1) (sig.drop intDigits)
        let buffer ← blockPaste buffer (sig.length + 1) [0]
        some (buffer, sig.length + 1)
      else
        let buffer ← blockPaste buffer 0 sig
        let buffer ← blockPaste buffer sig.length
          (List.replicate (actualExp - sig.length + 1).toNat 0x30)
        let buffer ← blockPaste buffer (sig.length + actualExp - sig.length + 1).toNat [0]
        some (buffer, (sig.length + actualExp - sig.length + 1).toNat)
    else
      let buffer ← blockPaste buffer 0 [0x30, 0x2E]
      let zeros := (-actualExp - 1).toNat
      let buffer ← blockPaste buffer 2 (List.replicate zeros 0x30)
      let buffer ← blockPaste buffer (2 + zeros) sig
      let buffer ← blockPaste buffer (2 + zeros + sig.length) [0]
      some (buffer, 2 + zeros + sig.length)
  else
    let buffer ← blockPaste buffer 0 (sig.take 1)
    if sig.length > 1 then
      let buffer ← blockPaste buffer 1 [0x2E]
      let buffer ← blockPaste buffer 2 (sig.drop 1)
      writeMulleExponent buffer (sig.length + 1) actualExp
    else writeMulleExponent buffer 1 actualExp

end MulleCore
