import MulleCore.Library.ByteMemory
import MulleCore.Library.Spelling
import MulleCore.Utf.Utf8
import MulleCore.Utf.Utf16
import MulleCore.Utf.Utf32

/-!
Unicode texts and the way UTF-8, UTF-16 and UTF-32 spell them. The characters are the
scalar values, which are the code points without the surrogates.
-/

namespace MulleCore

open Library

def utf16EncodeChar (c : Char) : List UInt16 :=
  if c.toNat < 0x10000 then [UInt16.ofNat c.toNat]
  else [UInt16.ofNat (0xD800 + (c.toNat - 0x10000) / 0x400),
    UInt16.ofNat (0xDC00 + (c.toNat - 0x10000) % 0x400)]

def utf32EncodeChar (c : Char) : List Int32 := [Int32.ofNat c.toNat]

def IsNoncharacter (c : Char) : Prop :=
  0xFDD0 ≤ c.toNat ∧ c.toNat ≤ 0xFDEF ∨ 0xFFFE ≤ c.toNat % 0x10000

/-- What a text without zeros may consist of. -/
structure IsTextCharacter (c : Char) : Prop where
  nonzero : c.toNat ≠ 0
  character : ¬ IsNoncharacter c

section Scalars

theorem Char.scalar (c : Char) : c.toNat < 0xD800 ∨ 0xDFFF < c.toNat ∧ c.toNat < 0x110000 := c.valid

theorem exists_char {v : Nat} (valid : v < 0xD800 ∨ 0xDFFF < v ∧ v < 0x110000) : ∃ c :
    Char, c.toNat = v :=
  ⟨Char.ofNatAux v valid, rfl⟩

theorem Char.toNat_injective {c d : Char} (same : c.toNat = d.toNat) : c = d :=
  Char.ext (UInt32.toNat_inj.mp same)

theorem utf32IsSurrogatecharacter_eq (v : Nat) :
    utf32IsSurrogatecharacter v = true ↔ 0xD800 ≤ v ∧ v < 0xE000 := by
  simp only [utf32IsSurrogatecharacter, Bool.and_eq_true, decide_eq_true_eq, ge_iff_le]
  omega

theorem utf32IsNoncharacter_eq (v : Nat) :
    utf32IsNoncharacter v = true ↔ 0xFDD0 ≤ v ∧ v ≤ 0xFDEF ∨ 0xFFFE ≤ v % 0x10000 ∧ v < 0x110000 := by
  have low : v &&& 0xFFFF = v % 0x10000 := Nat.and_two_pow_sub_one_eq_mod v 16
  have bound := Nat.mod_lt v (show 0x10000 > 0 by decide)
  simp only [utf32IsNoncharacter, utf16IsNoncharacter, Int.toNat_natCast, low]
  split
  · split
    · simp only [true_iff]
      omega
    · split
      · simp only [true_iff]
        omega
      · simp only [Bool.false_eq_true, false_iff]
        omega
  · split
    · simp only [Bool.false_eq_true, false_iff]
      omega
    · simp only [Bool.or_eq_true, beq_iff_eq]
      omega

theorem utf32IsInvalidcharacter_char (c : Char) : utf32IsInvalidcharacter c.toNat = true ↔
    IsNoncharacter c := by
  have valid := Char.scalar c
  have surrogate := utf32IsSurrogatecharacter_eq c.toNat
  have noncharacter := utf32IsNoncharacter_eq c.toNat
  rw [utf32IsInvalidcharacter]
  split
  · rename_i isSurrogate
    rw [surrogate] at isSurrogate
    omega
  · rw [noncharacter, IsNoncharacter]
    omega

end Scalars

section Utf8Bytes

variable {v : Nat} {bytes other : List UInt8}

theorem utf8Bits2_eq (c d : UInt8) : utf8Bits2 c d = c.toNat % 32 * 64 + d.toNat % 64 := by
  have high : c.toNat &&& 0x1F = c.toNat % 32 := Nat.and_two_pow_sub_one_eq_mod _ 5
  have low : d.toNat &&& 0x3F = d.toNat % 64 := Nat.and_two_pow_sub_one_eq_mod _ 6
  rw [utf8Bits2, high, low, Nat.shiftLeft_eq, or_eq_add (k := 6) (by omega) (by omega)]

theorem utf8Bits3_eq (c d e : UInt8) :
    utf8Bits3 c d e = c.toNat % 16 * 4096 + d.toNat % 64 * 64 + e.toNat % 64 := by
  have high : c.toNat &&& 0x0F = c.toNat % 16 := Nat.and_two_pow_sub_one_eq_mod _ 4
  have middle : d.toNat &&& 0x3F = d.toNat % 64 := Nat.and_two_pow_sub_one_eq_mod _ 6
  have low : e.toNat &&& 0x3F = e.toNat % 64 := Nat.and_two_pow_sub_one_eq_mod _ 6
  have upper : c.toNat % 16 * 4096 ||| d.toNat % 64 * 64 = c.toNat % 16 * 4096 + d.toNat % 64 * 64 :=
    or_eq_add (k := 12) (by omega) (by omega)
  rw [utf8Bits3, high, middle, low, Nat.shiftLeft_eq, Nat.shiftLeft_eq]
  change c.toNat % 16 * 4096 ||| d.toNat % 64 * 64 ||| e.toNat % 64 = _
  rw [upper, or_eq_add (k := 6) (by omega) (by omega)]

theorem utf8Bits4_eq (c d e f : UInt8) :
    utf8Bits4 c d e f =
      c.toNat % 8 * 262144 + d.toNat % 64 * 4096 + e.toNat % 64 * 64 + f.toNat % 64 := by
  have first : c.toNat &&& 0x7 = c.toNat % 8 := Nat.and_two_pow_sub_one_eq_mod _ 3
  have second : d.toNat &&& 0x3F = d.toNat % 64 := Nat.and_two_pow_sub_one_eq_mod _ 6
  have third : e.toNat &&& 0x3F = e.toNat % 64 := Nat.and_two_pow_sub_one_eq_mod _ 6
  have fourth : f.toNat &&& 0x3F = f.toNat % 64 := Nat.and_two_pow_sub_one_eq_mod _ 6
  have upper : c.toNat % 8 * 262144 ||| d.toNat % 64 * 4096 = c.toNat % 8 * 262144 +
    d.toNat % 64 * 4096 :=
    or_eq_add (k := 18) (by omega) (by omega)
  have middle : c.toNat % 8 * 262144 + d.toNat % 64 * 4096 ||| e.toNat % 64 * 64 =
      c.toNat % 8 * 262144 + d.toNat % 64 * 4096 + e.toNat % 64 * 64 :=
    or_eq_add (k := 12) (by omega) (by omega)
  rw [utf8Bits4, first, second, third, fourth, Nat.shiftLeft_eq, Nat.shiftLeft_eq, Nat.shiftLeft_eq]
  change c.toNat % 8 * 262144 ||| d.toNat % 64 * 4096 ||| e.toNat % 64 * 64 ||| f.toNat % 64 = _
  rw [upper, middle, or_eq_add (k := 6) (by omega) (by omega)]

inductive Utf8Form (v : Nat) : List UInt8 → Prop where
  | one (a : UInt8) : v < 0x80 → a.toNat = v → Utf8Form v [a]
  | two (a b : UInt8) : 0x80 ≤ v → v < 0x800 → a.toNat = 0xC0 + v / 64 → b.toNat = 0x80 + v % 64 →
      Utf8Form v [a, b]
  | three (a b c : UInt8) : 0x800 ≤ v → v < 0x10000 → a.toNat = 0xE0 + v / 4096 →
      b.toNat = 0x80 + v / 64 % 64 → c.toNat = 0x80 + v % 64 → Utf8Form v [a, b, c]
  | four (a b c d : UInt8) : 0x10000 ≤ v → v < 0x110000 → a.toNat = 0xF0 + v / 262144 →
      b.toNat = 0x80 + v / 4096 % 64 → c.toNat = 0x80 + v / 64 % 64 → d.toNat = 0x80 + v % 64 →
      Utf8Form v [a, b, c, d]

theorem toNat_ofNat8 (small : v < 256) : (UInt8.ofNat v).toNat = v :=
  UInt8.toNat_ofNat_of_lt small

theorem utf8EncodeChar_form (c : Char) : Utf8Form c.toNat (String.utf8EncodeChar c) := by
  have valid := Char.scalar c
  have value : c.val.toNat = c.toNat := rfl
  simp only [String.utf8EncodeChar, value]
  split
  · exact .one _ (by omega) (toNat_ofNat8 (by omega))
  · split
    · refine .two _ _ (by omega) (by omega) ?_ ?_
      · rw [toNat_ofNat8 (by omega)]
        omega
      · rw [toNat_ofNat8 (by omega)]
        omega
    · split
      · refine .three _ _ _ (by omega) (by omega) ?_ ?_ ?_
        · rw [toNat_ofNat8 (by omega)]
          omega
        · rw [toNat_ofNat8 (by omega)]
          omega
        · rw [toNat_ofNat8 (by omega)]
          omega
      · refine .four _ _ _ _ (by omega) (by omega) ?_ ?_ ?_ ?_
        · rw [toNat_ofNat8 (by omega)]
          omega
        · rw [toNat_ofNat8 (by omega)]
          omega
        · rw [toNat_ofNat8 (by omega)]
          omega
        · rw [toNat_ofNat8 (by omega)]
          omega

theorem Utf8Form.unique (form : Utf8Form v bytes) (same : Utf8Form v other) :
    bytes = other := by
  cases form <;> cases same <;>
    simp only [List.cons.injEq, ← UInt8.toNat_inj, and_true, reduceCtorEq, and_false] <;> omega

theorem Utf8Form.eq_encode {c : Char} (form : Utf8Form c.toNat bytes) :
    String.utf8EncodeChar c = bytes :=
  (utf8EncodeChar_form c).unique form

theorem Utf8Form.append_unique {w : Nat} {rest later : List UInt8} (form : Utf8Form v bytes)
    (otherForm : Utf8Form w other) (same : bytes ++ rest = other ++ later) : v = w := by
  cases form <;> cases otherForm <;>
    simp only [List.cons_append, List.nil_append, List.cons.injEq,
      ← UInt8.toNat_inj] at same <;> omega

theorem utf8_prefixFree : PrefixFree String.utf8EncodeChar where
  ne_nil _ := String.utf8EncodeChar_ne_nil
  unique c d _ _ same :=
    Char.toNat_injective ((utf8EncodeChar_form c).append_unique (utf8EncodeChar_form d) same)

end Utf8Bytes

section Utf16Units

variable {v : Nat} {units other : List UInt16}

inductive Utf16Form (v : Nat) : List UInt16 → Prop where
  | one (a : UInt16) : v < 0x10000 → (v < 0xD800 ∨ 0xE000 ≤ v) → a.toNat = v → Utf16Form v [a]
  | two (a b : UInt16) : 0x10000 ≤ v → v < 0x110000 → a.toNat = 0xD800 + (v - 0x10000) / 0x400 →
      b.toNat = 0xDC00 + (v - 0x10000) % 0x400 → Utf16Form v [a, b]

theorem toNat_ofNat16 (small : v < 65536) : (UInt16.ofNat v).toNat = v :=
  UInt16.toNat_ofNat_of_lt small

theorem utf16EncodeChar_form (c : Char) : Utf16Form c.toNat (utf16EncodeChar c) := by
  have valid := Char.scalar c
  rw [utf16EncodeChar]
  split
  · exact .one _ (by omega) (by omega) (toNat_ofNat16 (by omega))
  · exact .two _ _ (by omega) (by omega) (toNat_ofNat16 (by omega)) (toNat_ofNat16 (by omega))

theorem Utf16Form.unique (form : Utf16Form v units) (same : Utf16Form v other) : units = other := by
  cases form <;> cases same <;>
    simp only [List.cons.injEq, ← UInt16.toNat_inj, and_true, reduceCtorEq, and_false] <;> omega

theorem Utf16Form.eq_encode {c : Char} (form : Utf16Form c.toNat units) :
    utf16EncodeChar c = units :=
  (utf16EncodeChar_form c).unique form

theorem Utf16Form.append_unique {w : Nat} {rest later : List UInt16} (form : Utf16Form v units)
    (otherForm : Utf16Form w other) (same : units ++ rest = other ++ later) : v = w := by
  cases form <;> cases otherForm <;>
    simp only [List.cons_append, List.nil_append, List.cons.injEq,
      ← UInt16.toNat_inj] at same <;> omega

theorem utf16_prefixFree : PrefixFree utf16EncodeChar where
  ne_nil c := by
    rw [utf16EncodeChar]
    split <;> simp
  unique c d _ _ same :=
    Char.toNat_injective ((utf16EncodeChar_form c).append_unique (utf16EncodeChar_form d) same)

theorem toInt_ofNat32 (small : v < 0x110000) : (Int32.ofNat v).toInt = v :=
  Int32.toInt_ofNat_of_lt (by omega)

theorem utf32_prefixFree : PrefixFree utf32EncodeChar where
  ne_nil _ := by simp [utf32EncodeChar]
  unique c d _ _ same := by
    have valid := Char.scalar c
    have otherValid := Char.scalar d
    have units := List.cons.inj same
    have values := congrArg Int32.toInt units.1
    rw [toInt_ofNat32 (by omega), toInt_ofNat32 (by omega)] at values
    exact Char.toNat_injective (by omega)

end Utf16Units

end MulleCore
