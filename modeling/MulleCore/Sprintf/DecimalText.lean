import MulleCore.Sprintf.DecimalJeaiii

/-!
The reciprocals of `mulle-sprintf-decimal-jeaiii.h` are exact enough for every number.
-/

namespace MulleCore

open Library

def decimalDigit (digit : Nat) : UInt8 := UInt8.ofNat (0x30 + digit)

def decimalText (n : Nat) : List UInt8 := (allDigits 10 n).map decimalDigit

def paddedText (count n : Nat) : List UInt8 := (fixedDigits 10 count n).map decimalDigit

section Texts

variable {n : Nat}

theorem decimalText_append (low : Nat) (longer : 10 ^ low ≤ n) :
    decimalText n = decimalText (n / 10 ^ low) ++ paddedText low n := by
  rw [decimalText, allDigits_append (by decide) low longer, List.map_append]
  rfl

theorem decimalText_digit (positive : 0 < n) (small : n < 10) : decimalText n = [decimalDigit n] := by
  rw [decimalText, allDigits_eq_fixedDigits (by decide) 0 (by simpa using small) positive]
  simp [fixedDigits, Nat.mod_eq_of_lt small]

theorem decimalText_pair (large : 10 ≤ n) (small : n < 100) : decimalText n = paddedText 2 n := by
  rw [decimalText, allDigits_eq_fixedDigits (by decide) 1 (by simpa using small)
    (by simpa using large)]
  rfl

theorem paddedText_add (high low n : Nat) :
    paddedText (high + low) n = paddedText high (n / 10 ^ low) ++ paddedText low n := by
  rw [paddedText, fixedDigits_add, List.map_append]
  rfl

theorem paddedText_congr {count m : Nat} (same : n % 10 ^ count = m % 10 ^ count) :
    paddedText count n = paddedText count m := by
  rw [paddedText, ← fixedDigits_mod, same, fixedDigits_mod]
  rfl

end Texts

section Pairs

variable {value : Nat} {fixed : UInt64}

theorem decimalPairs_get : ∀ v < 100, decimalPairs[v * 2]? = some (decimalDigit (v / 10)) ∧
    decimalPairs[v * 2 + 1]? = some (decimalDigit (v % 10)) := by
  decide +kernel

theorem jeaiiiPair_eq {value : UInt32} (small : value.toNat < 100) :
    jeaiiiPair value = some (paddedText 2 value.toNat) := by
  obtain ⟨first, second⟩ := decimalPairs_get value.toNat small
  have place : (value * 2).toNat = value.toNat * 2 := by
    rw [UInt32.toNat_mul]
    exact Nat.mod_eq_of_lt (by simp; omega)
  have behind : (value * 2 + 1).toNat = value.toNat * 2 + 1 := by
    rw [UInt32.toNat_add, place]
    exact Nat.mod_eq_of_lt (by simp; omega)
  have high : value.toNat / 10 % 10 = value.toNat / 10 := Nat.mod_eq_of_lt (by omega)
  simp [jeaiiiPair, place, behind, first, second, paddedText, fixedDigits, high]

theorem jeaiiiDigit_eq (value : UInt32) : 0x30 + value.toUInt8 = decimalDigit value.toNat := by
  apply UInt8.toNat_inj.mp
  rw [UInt8.toNat_add, UInt32.toNat_toUInt8, decimalDigit, UInt8.toNat_ofNat']
  simp

theorem jeaiiiFirst_eq {value : UInt32} (positive : 0 < value.toNat) (small : value.toNat < 100) :
    jeaiiiFirst value = some (decimalText value.toNat) := by
  rw [jeaiiiFirst]
  split
  · rename_i single
    rw [jeaiiiDigit_eq, decimalText_digit positive (UInt32.lt_iff_toNat_lt.mp single)]
  · rename_i pair
    rw [jeaiiiPair_eq small,
      decimalText_pair (Nat.not_lt.mp fun single => pair (UInt32.lt_iff_toNat_lt.mpr single)) small]

def jeaiiiPairs (bits mask : UInt64) : Nat → UInt64 → Option (List UInt8)
  | 0, _ => some []
  | count + 1, fixed => do
      let next := (fixed &&& mask) * 100
      let pair ← jeaiiiPair (next >>> bits).toUInt32
      let rest ← jeaiiiPairs bits mask count next
      some (pair ++ rest)

structure FractionBits (bits mask : UInt64) : Prop where
  wide : 32 ≤ bits.toNat
  narrow : bits.toNat ≤ 57
  masked : mask.toNat = 2 ^ bits.toNat - 1

variable {bits mask : UInt64}

section

variable (width : FractionBits bits mask)
include width

theorem FractionBits.shift (fixed : UInt64) :
    (fixed >>> bits).toUInt32.toNat = fixed.toNat / 2 ^ bits.toNat := by
  have narrow := width.narrow
  have bound := fixed.toNat_lt
  have quotient : fixed.toNat / 2 ^ bits.toNat < 2 ^ 32 := by
    apply Nat.div_lt_of_lt_mul
    calc fixed.toNat < 2 ^ 32 * 2 ^ 32 := bound
      _ ≤ 2 ^ bits.toNat * 2 ^ 32 :=
        Nat.mul_le_mul_right _ (Nat.pow_le_pow_right (by decide) width.wide)
  rw [UInt64.toNat_toUInt32, UInt64.toNat_shiftRight, Nat.mod_eq_of_lt (a := bits.toNat) (by omega),
    Nat.shiftRight_eq_div_pow, Nat.mod_eq_of_lt quotient]

theorem FractionBits.next (fixed : UInt64) :
    ((fixed &&& mask) * 100).toNat = fixed.toNat % 2 ^ bits.toNat * 100 := by
  have below : fixed.toNat % 2 ^ bits.toNat < 2 ^ 57 :=
    Nat.lt_of_lt_of_le (Nat.mod_lt _ (Nat.two_pow_pos _))
      (Nat.pow_le_pow_right (by decide) width.narrow)
  rw [UInt64.toNat_mul, UInt64.toNat_and, width.masked, Nat.and_two_pow_sub_one_eq_mod]
  exact Nat.mod_eq_of_lt (by simp; omega)

theorem jeaiiiPairs_eq (count : Nat)
    (scaled : Scaled (2 ^ bits.toNat) (100 ^ count) fixed.toNat value) :
    jeaiiiPairs bits mask count fixed = some (paddedText (count * 2) value) := by
  induction count generalizing fixed value with
  | zero => rfl
  | succ count ih =>
    have all : 0 < 100 * 100 ^ count := Nat.mul_pos (by decide) (Nat.pow_pos (by decide))
    rw [Nat.pow_succ'] at scaled
    have next := scaled.next all
    rw [← width.next] at next
    have pair := next.quotient (Nat.pow_pos (by decide))
    rw [← width.shift, ← Nat.pow_succ', Nat.pow_succ, Nat.mod_mul_right_div_self] at pair
    have small : (((fixed &&& mask) * 100) >>> bits).toUInt32.toNat < 100 := by
      rw [pair]
      exact Nat.mod_lt _ (by decide)
    have square : (100 : Nat) ^ count = 10 ^ (count * 2) := by rw [Nat.mul_comm, Nat.pow_mul]
    have high : paddedText 2 (value / 100 ^ count % 100) =
        paddedText 2 (value / 10 ^ (count * 2)) := by
      rw [← square]
      exact paddedText_congr (Nat.mod_mod _ _)
    have low : paddedText (count * 2) (value % (100 * 100 ^ count)) =
        paddedText (count * 2) value := by
      apply paddedText_congr
      rw [square, Nat.mod_mul_left_mod]
    simp only [jeaiiiPairs, jeaiiiPair_eq small, ih next, Option.bind_eq_bind, Option.bind_some, pair]
    rw [high, low, ← paddedText_add, Nat.succ_mul, Nat.add_comm 2]

theorem jeaiiiPairs_leading (count : Nat)
    (scaled : Scaled (2 ^ bits.toNat) (100 ^ count) fixed.toNat value) (longer : 100 ^ count ≤ value)
    (shorter : value < 100 ^ count * 100) :
    (do
      let first ← jeaiiiFirst (fixed >>> bits).toUInt32
      let rest ← jeaiiiPairs bits mask count fixed
      some (first ++ rest)) = some (decimalText value) := by
  have positive : 0 < 100 ^ count := Nat.pow_pos (by decide)
  have square : (100 : Nat) ^ count = 10 ^ (count * 2) := by rw [Nat.mul_comm, Nat.pow_mul]
  have first : (fixed >>> bits).toUInt32.toNat = value / 100 ^ count := by
    rw [width.shift, scaled.quotient positive]
  have nonzero : 0 < value / 100 ^ count := Nat.div_pos longer positive
  have small : value / 100 ^ count < 100 := Nat.div_lt_of_lt_mul shorter
  rw [← first] at nonzero small
  rw [jeaiiiFirst_eq nonzero small, jeaiiiPairs_eq width count scaled, first, square]
  rw [decimalText_append (n := value) (count * 2) (by rwa [← square])]
  rfl

theorem jeaiiiPairs_padded (count : Nat)
    (scaled : Scaled (2 ^ bits.toNat) (100 ^ count) fixed.toNat value)
    (shorter : value < 100 ^ count * 100) :
    (do
      let first ← jeaiiiPair (fixed >>> bits).toUInt32
      let rest ← jeaiiiPairs bits mask count fixed
      some (first ++ rest)) = some (paddedText (2 + count * 2) value) := by
  have square : (100 : Nat) ^ count = 10 ^ (count * 2) := by rw [Nat.mul_comm, Nat.pow_mul]
  have first : (fixed >>> bits).toUInt32.toNat = value / 100 ^ count := by
    rw [width.shift, scaled.quotient (Nat.pow_pos (by decide))]
  have small : value / 100 ^ count < 100 := Nat.div_lt_of_lt_mul shorter
  rw [← first] at small
  rw [jeaiiiPair_eq small, jeaiiiPairs_eq width count scaled, first, square, paddedText_add]
  rfl

end

end Pairs

section Values

variable {value : UInt32}

theorem uint32_bits : FractionBits 32 uint32Max := ⟨by decide, by decide, rfl⟩

theorem wide_bits : FractionBits 57 (((1 : UInt64) <<< 57) - 1) := ⟨by decide, by decide, rfl⟩

theorem jeaiiiU32_four (longer : 100 ≤ value.toNat) (shorter : value.toNat < 10000) :
    (do
      let f0 : UInt32 := ((10 : UInt32) * ((1 : UInt32) <<< 24) / 1000 + 1) * value
      let first ← jeaiiiFirst (f0 >>> 24)
      let f2 := (f0 &&& (((1 : UInt32) <<< 24) - 1)) * 100
      let second ← jeaiiiPair (f2 >>> 24)
      some (first ++ second)) = some (decimalText value.toNat) := by
  have fixed : (((10 : UInt32) * ((1 : UInt32) <<< 24) / 1000 + 1) * value).toNat =
      167773 * value.toNat := by
    rw [UInt32.toNat_mul]
    exact Nat.mod_eq_of_lt (by simp; omega)
  dsimp only
  generalize ((10 : UInt32) * ((1 : UInt32) <<< 24) / 1000 + 1) * value = f0 at fixed ⊢
  have scaled : Scaled (2 ^ 24) (100 * 1) f0.toNat value.toNat := by
    rw [fixed]
    constructor <;> omega
  have first : (f0 >>> 24).toNat = value.toNat / 100 := by
    rw [UInt32.toNat_shiftRight, Nat.shiftRight_eq_div_pow]
    exact scaled.quotient (by decide)
  have next : ((f0 &&& (((1 : UInt32) <<< 24) - 1)) * 100).toNat = f0.toNat % 2 ^ 24 * 100 := by
    have masked : (((1 : UInt32) <<< 24) - 1).toNat = 2 ^ 24 - 1 := rfl
    rw [UInt32.toNat_mul, UInt32.toNat_and, masked, Nat.and_two_pow_sub_one_eq_mod]
    exact Nat.mod_eq_of_lt (by simp; omega)
  have second : (((f0 &&& (((1 : UInt32) <<< 24) - 1)) * 100) >>> 24).toNat = value.toNat % 100 := by
    rw [UInt32.toNat_shiftRight, Nat.shiftRight_eq_div_pow, next]
    simpa using (scaled.next (by decide)).quotient (by decide)
  have low : paddedText 2 (value.toNat % 100) = paddedText 2 value.toNat :=
    paddedText_congr (Nat.mod_mod _ _)
  rw [jeaiiiFirst_eq (by omega) (by omega), jeaiiiPair_eq (by omega), first, second, low,
    decimalText_append (n := value.toNat) 2 longer]
  rfl

theorem jeaiiiU32_eq (positive : 0 < value.toNat) :
    jeaiiiU32 value = some (decimalText value.toNat) := by
  have bound := value.toNat_lt
  have wide : value.toUInt64.toNat = value.toNat := UInt32.toNat_toUInt64 value
  simp only [jeaiiiU32, UInt32.lt_iff_toNat_lt, UInt32.reduceToNat]
  split_ifs with two one four six eight
  · rw [jeaiiiDigit_eq, decimalText_digit positive one]
  · rw [jeaiiiPair_eq two, decimalText_pair (by omega) two]
  · exact jeaiiiU32_four (by omega) four
  · have fixed : (((10 : UInt64) * ((1 : UInt64) <<< 32) / 100000 + 1) * value.toUInt64).toNat =
        429497 * value.toNat := by
      rw [UInt64.toNat_mul, wide]
      exact Nat.mod_eq_of_lt (by simp; omega)
    generalize ((10 : UInt64) * ((1 : UInt64) <<< 32) / 100000 + 1) * value.toUInt64 = f0 at fixed ⊢
    have scaled : Scaled (2 ^ 32) (100 ^ 2) f0.toNat value.toNat := by
      rw [fixed]
      constructor <;> omega
    have run := jeaiiiPairs_leading uint32_bits 2 scaled (by omega) (by omega)
    simp only [jeaiiiPairs, Option.bind_eq_bind, Option.bind_some, Option.bind_assoc, List.append_nil,
      List.append_assoc] at run ⊢
    exact run
  · have fixed : ((((10 : UInt64) * ((1 : UInt64) <<< 48) / 10000000 + 1) * value.toUInt64) >>>
      16).toNat =
        281474977 * value.toNat / 2 ^ 16 := by
      have product : (((10 : UInt64) * ((1 : UInt64) <<< 48) / 10000000 + 1) * value.toUInt64).toNat =
          281474977 * value.toNat := by
        rw [UInt64.toNat_mul, wide]
        exact Nat.mod_eq_of_lt (by simp; omega)
      rw [UInt64.toNat_shiftRight, product, Nat.shiftRight_eq_div_pow]
      rfl
    generalize (((10 : UInt64) * ((1 : UInt64) <<< 48) / 10000000 + 1) * value.toUInt64) >>> 16 =
      f0 at fixed ⊢
    have scaled : Scaled (2 ^ 32) (100 ^ 3) f0.toNat value.toNat := by
      rw [fixed]
      constructor <;> omega
    have run := jeaiiiPairs_leading uint32_bits 3 scaled (by omega) (by omega)
    simp only [jeaiiiPairs, Option.bind_eq_bind, Option.bind_some, Option.bind_assoc, List.append_nil,
      List.append_assoc] at run ⊢
    exact run
  · have fixed : (((10 : UInt64) * ((1 : UInt64) <<< 57) / 1000000000 + 1) * value.toUInt64).toNat =
        1441151881 * value.toNat := by
      rw [UInt64.toNat_mul, wide]
      exact Nat.mod_eq_of_lt (by simp; omega)
    generalize ((10 : UInt64) * ((1 : UInt64) <<< 57) / 1000000000 + 1) * value.toUInt64 =
      f0 at fixed ⊢
    have scaled : Scaled (2 ^ 57) (100 ^ 4) f0.toNat value.toNat := by
      rw [fixed]
      constructor <;> omega
    have run := jeaiiiPairs_leading wide_bits 4 scaled (by omega) (by omega)
    simp only [jeaiiiPairs, Option.bind_eq_bind, Option.bind_some, Option.bind_assoc, List.append_nil,
      List.append_assoc] at run ⊢
    exact run

theorem jeaiiiFixed8_eq (small : value.toNat < 10 ^ 8) :
    jeaiiiFixed8 value = some (paddedText 8 value.toNat) := by
  have fixed : (((((1 : UInt64) <<< 48) / 1000000 + 1) * value.toUInt64) >>> 16 + 1).toNat =
      281474977 * value.toNat / 2 ^ 16 + 1 := by
    have product : ((((1 : UInt64) <<< 48) / 1000000 + 1) * value.toUInt64).toNat =
        281474977 * value.toNat := by
      rw [UInt64.toNat_mul, UInt32.toNat_toUInt64]
      exact Nat.mod_eq_of_lt (a := 281474977 * value.toNat) (by omega)
    rw [UInt64.toNat_add, UInt64.toNat_shiftRight, product, Nat.shiftRight_eq_div_pow]
    exact Nat.mod_eq_of_lt (a := 281474977 * value.toNat / 2 ^ 16 + 1) (by omega)
  simp only [jeaiiiFixed8]
  generalize ((((1 : UInt64) <<< 48) / 1000000 + 1) * value.toUInt64) >>> 16 + 1 = f0 at fixed ⊢
  have scaled : Scaled (2 ^ 32) (100 ^ 3) f0.toNat value.toNat := by
    rw [fixed]
    constructor <;> omega
  have run := jeaiiiPairs_padded uint32_bits 3 scaled (by omega)
  simp only [jeaiiiPairs, Option.bind_eq_bind, Option.bind_some, Option.bind_assoc, List.append_nil,
    List.append_assoc] at run ⊢
  exact run

theorem jeaiiiU64_eq {value : UInt64} (positive : 0 < value.toNat) :
    jeaiiiU64 value = some (decimalText value.toNat) := by
  have bound := value.toNat_lt
  have low : (value % 100000000).toUInt32.toNat = value.toNat % 10 ^ 8 := by
    rw [UInt64.toNat_toUInt32, UInt64.toNat_mod]
    exact Nat.mod_eq_of_lt (by simp; omega)
  have high : (value / 100000000).toNat = value.toNat / 10 ^ 8 := UInt64.toNat_div _ _
  have lowText : paddedText 8 (value.toNat % 10 ^ 8) = paddedText 8 value.toNat :=
    paddedText_congr (Nat.mod_mod _ _)
  have lowEq : jeaiiiFixed8 (value % 100000000).toUInt32 = some (paddedText 8 value.toNat) := by
    rw [jeaiiiFixed8_eq (by omega), low, lowText]
  have most : uint32Max.toNat = 2 ^ 32 - 1 := rfl
  simp only [jeaiiiU64, gt_iff_lt, UInt64.lt_iff_toNat_lt, UInt64.le_iff_toNat_le, most]
  split_ifs with small large
  · have same : value.toUInt32.toNat = value.toNat := by
      rw [UInt64.toNat_toUInt32]
      exact Nat.mod_eq_of_lt (by omega)
    rw [jeaiiiU32_eq (by omega), same]
  · have middle : (value / 100000000 % 100000000).toUInt32.toNat = value.toNat / 10 ^ 8 % 10 ^ 8 := by
      have inside : value.toNat / 10 ^ 8 % 10 ^ 8 < 2 ^ 32 := by omega
      rw [UInt64.toNat_toUInt32, UInt64.toNat_mod, high]
      exact Nat.mod_eq_of_lt inside
    have top : (value / 100000000 / 100000000).toUInt32.toNat = value.toNat / 10 ^ 8 / 10 ^ 8 := by
      have inside : value.toNat / 10 ^ 8 / 10 ^ 8 < 2 ^ 32 := by omega
      rw [UInt64.toNat_toUInt32, UInt64.toNat_div, high]
      exact Nat.mod_eq_of_lt inside
    rw [high] at large
    have middleText : paddedText 8 (value.toNat / 10 ^ 8 % 10 ^ 8) =
      paddedText 8 (value.toNat / 10 ^ 8) :=
      paddedText_congr (Nat.mod_mod _ _)
    have topPositive : 0 < (value / 100000000 / 100000000).toUInt32.toNat := by
      rw [top]
      omega
    have middleSmall : (value / 100000000 % 100000000).toUInt32.toNat < 10 ^ 8 := by
      rw [middle]
      omega
    rw [jeaiiiU32_eq topPositive, jeaiiiFixed8_eq middleSmall, lowEq, middle, top, middleText,
      decimalText_append (n := value.toNat) 8 (by omega), decimalText_append
        (n := value.toNat / 10 ^ 8) 8 (by omega)]
    rfl
  · rw [high] at large
    have same : (value / 100000000).toUInt32.toNat = value.toNat / 10 ^ 8 := by
      have inside : value.toNat / 10 ^ 8 < 2 ^ 32 := by omega
      rw [UInt64.toNat_toUInt32, high]
      exact Nat.mod_eq_of_lt inside
    rw [jeaiiiU32_eq (by omega), lowEq, same, decimalText_append (n := value.toNat) 8 (by omega)]
    rfl

theorem convertDecimalFrom_eq (capacity : Nat) {value : Nat} (enough : value < 10 ^ capacity)
    (s : List UInt8) :
    convertDecimalFrom capacity value s = some (decimalText value ++ s) := by
  induction capacity generalizing value s with
  | zero =>
    obtain rfl : value = 0 := by simpa using enough
    simp [convertDecimalFrom, decimalText]
  | succ capacity ih =>
    rw [convertDecimalFrom]
    split
    · rename_i zero
      simp [zero, decimalText]
    · rename_i nonzero
      have below : value / 10 < 10 ^ capacity := Nat.div_lt_of_lt_mul (by rwa [← Nat.pow_succ'])
      rw [ih below, decimalText, decimalText, allDigits_step (by decide) nonzero, List.map_append,
        List.append_assoc]
      rfl

theorem convertDecimalReference_eq {value capacity : Nat} (enough : value < 10 ^ capacity) :
    convertDecimalReference value capacity =
      some (decimalText value, (decimalText value).length) := by
  rw [convertDecimalReference, convertDecimalFrom_eq capacity enough, List.append_nil]
  rfl

theorem jeaiiiConvertUnsignedInt_eq (value : UInt32) :
    jeaiiiConvertUnsignedInt value =
      some (decimalText value.toNat, (decimalText value.toNat).length) := by
  rw [jeaiiiConvertUnsignedInt]
  split
  · rename_i zero
    rw [zero]
    rfl
  · rename_i nonzero
    have positive : 0 < value.toNat :=
      Nat.pos_of_ne_zero fun zero => nonzero (UInt32.toNat_inj.mp zero)
    rw [jeaiiiU32_eq positive]
    rfl

theorem jeaiiiConvertUnsignedLongLong_eq (value : UInt64) :
    jeaiiiConvertUnsignedLongLong value =
      some (decimalText value.toNat, (decimalText value.toNat).length) := by
  rw [jeaiiiConvertUnsignedLongLong]
  split
  · rename_i zero
    rw [zero]
    rfl
  · rename_i nonzero
    have positive : 0 < value.toNat :=
      Nat.pos_of_ne_zero fun zero => nonzero (UInt64.toNat_inj.mp zero)
    rw [jeaiiiU64_eq positive]
    rfl

/-- In the area of `integer_conversion`, which is `sizeof( long long) * 4` characters long. -/
theorem jeaiiiConvert_reference :
    (∀ value : UInt32, jeaiiiConvertUnsignedInt value = convertDecimalReference value.toNat 32 ∧
      jeaiiiConvertUnsignedInt value =
        some (decimalText value.toNat, (decimalText value.toNat).length)) ∧
    ∀ value : UInt64, jeaiiiConvertUnsignedLongLong value = convertDecimalReference value.toNat 32 ∧
      jeaiiiConvertUnsignedLongLong value =
        some (decimalText value.toNat, (decimalText value.toNat).length) := by
  constructor
  · intro value
    have bound := value.toNat_lt
    have converted := jeaiiiConvertUnsignedInt_eq value
    exact ⟨converted.trans (convertDecimalReference_eq (by omega)).symm, converted⟩
  · intro value
    have bound := value.toNat_lt
    have converted := jeaiiiConvertUnsignedLongLong_eq value
    exact ⟨converted.trans (convertDecimalReference_eq (by omega)).symm, converted⟩

end Values

end MulleCore
