import MulleCore.Utf.Utf8Rounds
import MulleCore.Utf.Utf16Rounds

/-!
The direct converters between UTF-8, UTF-16 and UTF-32.
-/

namespace MulleCore

open Library
open String (utf8EncodeChar)

section Units

theorem low_bits (x : Nat) : x &&& 0x3F = x % 64 := Nat.and_two_pow_sub_one_eq_mod x 6

theorem continuation_toNat (x : Nat) : (UInt8.ofNat (0x80 ||| x &&& 0x3F)).toNat = 0x80 + x % 64 := by
  have small := Nat.mod_lt x (show 0 < 64 by decide)
  rw [low_bits, or_eq_add (k := 6) (by decide) (by omega), toNat_ofNat8 (by omega)]

theorem lead_toNat {mark x k : Nat} (aligned : 2 ^ k ∣ mark) (small : x < 2 ^ k)
    (byte : mark + x < 256) :
    (UInt8.ofNat (mark ||| x)).toNat = mark + x := by
  rw [or_eq_add aligned small, toNat_ofNat8 byte]

theorem utf16Utf8Bytes_char (c : Char) : utf16Utf8Bytes c.toNat = some (utf8EncodeChar c) := by
  have scalar := Char.scalar c
  have high := Nat.shiftRight_eq_div_pow c.toNat
  rw [utf16Utf8Bytes]
  split
  · rw [(Utf8Form.one _ (by omega) (toNat_ofNat8 (by omega))).eq_encode]
  · split
    · rw [(Utf8Form.two _ _ (by omega) (by omega) ?_ (continuation_toNat _)).eq_encode]
      rw [high, lead_toNat (k := 6) (by decide) (by omega) (by omega)]
    · split
      · have noSurrogate : utf32IsLowsurrogatecharacter c.toNat = false := by
          rw [Bool.eq_false_iff, ne_eq, utf32IsLowsurrogatecharacter_eq]
          omega
        rw [noSurrogate, (Utf8Form.three _ _ _ (by omega) (by omega) ?_ ?_
          (continuation_toNat _)).eq_encode]
        · rfl
        · rw [high, lead_toNat (k := 5) (by decide) (by omega) (by omega)]
        · rw [continuation_toNat, high]
      · rw [if_pos (by omega),
          (Utf8Form.four _ _ _ _ (by omega) (by omega) ?_ ?_ ?_ (continuation_toNat _)).eq_encode]
        · rw [high, lead_toNat (k := 4) (by decide) (by omega) (by omega)]
        · rw [continuation_toNat, high]
        · rw [continuation_toNat, high]

theorem utf32Utf8Bytes_char (c : Char) : utf32Utf8Bytes c.toNat = some (utf8EncodeChar c) := by
  have scalar := Char.scalar c
  have noSurrogate : utf32IsSurrogatecharacter c.toNat = false := by
    rw [Bool.eq_false_iff, ne_eq, utf32IsSurrogatecharacter_eq]
    omega
  have noLow : utf32IsLowsurrogatecharacter c.toNat = false := by
    rw [Bool.eq_false_iff, ne_eq, utf32IsLowsurrogatecharacter_eq]
    omega
  rw [← utf16Utf8Bytes_char, utf32Utf8Bytes, utf16Utf8Bytes, noSurrogate, noLow]
  by_cases one : c.toNat < 0x80
  · have byte : ((c.toNat : Int) % 2 ^ 8).toNat = c.toNat := by omega
    rw [if_pos (by omega), if_pos (by omega), if_pos one, byte]
  · by_cases two : c.toNat < 0x800
    · rw [if_pos (by omega), if_neg (by omega), if_neg one, if_pos two]
      rfl
    · by_cases three : c.toNat < 0x10000
      · rw [if_neg (by omega), if_pos (by omega), if_neg one, if_neg two, if_pos three]
        rfl
      · rw [if_neg (by omega), if_neg (by omega), if_pos (by omega), if_neg one, if_neg two,
          if_neg three, if_pos (by omega)]
        rfl

theorem utf32ConvertToUtf16AsSurrogatepair_char {c : Char} (large : 0x10000 ≤ c.toNat) :
    utf32ConvertToUtf16AsSurrogatepair c.toNat = some (utf16EncodeChar c) := by
  have scalar := Char.scalar c
  have low : (c.toNat - 0x10000) &&& 0x3FF = (c.toNat - 0x10000) % 0x400 :=
    Nat.and_two_pow_sub_one_eq_mod _ 10
  rw [utf32ConvertToUtf16AsSurrogatepair, utf16EncodeChar, if_pos (by omega), if_neg (by omega)]
  simp only [low, Nat.shiftRight_eq_div_pow]

theorem utf32Utf16Units_char (c : Char) : utf32Utf16Units c.toNat = some (utf16EncodeChar c) := by
  have scalar := Char.scalar c
  have noSurrogate : utf32IsSurrogatecharacter c.toNat = false := by
    rw [Bool.eq_false_iff, ne_eq, utf32IsSurrogatecharacter_eq]
    omega
  rw [utf32Utf16Units, noSurrogate]
  by_cases small : c.toNat < 0x10000
  · have unit : ((c.toNat : Int) % 2 ^ 16).toNat = c.toNat := by omega
    rw [if_pos (by omega), unit, utf16EncodeChar, if_pos small]
    rfl
  · rw [if_neg (by omega), Int.toNat_natCast, utf32ConvertToUtf16AsSurrogatepair_char (by omega)]

theorem utf8Utf16Units_char (c : Char) : utf8Utf16Units c.toNat = some (utf16EncodeChar c) := by
  have scalar := Char.scalar c
  have unsigned : ((c.toNat : Int) % 2 ^ 32).toNat = c.toNat := by omega
  simp only [utf8Utf16Units, unsigned]
  split
  · rename_i small
    rw [utf16EncodeChar, if_pos small]
  · exact utf32ConvertToUtf16AsSurrogatepair_char (by omega)

theorem utf8Utf32Units_char (c : Char) :
    some [Int32.ofInt (c.toNat : Int)] = some (utf32EncodeChar c) := by
  rw [utf32EncodeChar, Int32.ofInt_eq_ofNat]

end Units

section Texts

variable {Unit : Type} {other : Char → List Unit}
variable {units : Int → Option (List Unit)}

theorem utf8ConvertFrom_writes (writes : ∀ c : Char, units c.toNat = some (other c)) :
    Writes utf8EncodeChar other (fun _ => True) (utf8ConvertFrom units) := by
  intro fuel c rest _
  have shape := utf8_shape c
  generalize utf8EncodeChar c = bytes at shape ⊢
  cases shape with
  | ascii b _ ascii value =>
    simp only [List.cons_append, List.nil_append, utf8ConvertFrom, ascii, value, writes]
    cases utf8ConvertFrom units fuel rest <;> rfl
  | sequence b more _ notAscii starts extra _ _ value =>
    have enough : ¬ more.length > (more ++ rest).length := by simp
    simp only [List.cons_append, utf8ConvertFrom, notAscii, starts, extra, if_neg enough,
      value, writes, List.drop_left, Bool.and_false, Bool.false_eq_true, if_false,
      Option.bind_eq_bind, Option.bind_some]
    cases utf8ConvertFrom units fuel rest <;> rfl

theorem utf16ConvertFrom_writes {units : Nat → Option (List Unit)}
    (writes : ∀ c : Char, units c.toNat = some (other c)) :
    Writes utf16EncodeChar other (fun _ => True) (utf16ConvertFrom units) := by
  intro fuel c rest _
  have shape := utf16_shape c
  generalize utf16EncodeChar c = units at shape ⊢
  cases shape with
  | one a _ value _ notHigh =>
    rw [value] at notHigh
    simp only [List.cons_append, List.nil_append, utf16ConvertFrom, notHigh, value, writes,
      Bool.false_eq_true, if_false]
    cases utf16ConvertFrom _ fuel rest <;> rfl
  | two a d _ high low decoded =>
    have isHigh := (utf32IsHighsurrogatecharacter_eq _).mpr high
    simp only [List.cons_append, List.nil_append, utf16ConvertFrom, isHigh, decoded, writes, if_true,
      Option.bind_eq_bind, Option.bind_some]
    cases utf16ConvertFrom _ fuel rest <;> rfl

theorem utf32ConvertFrom_text
    (writes : ∀ c : Char, units c.toNat = some (other c)) (text : List Char) :
    utf32ConvertFrom units (text.flatMap utf32EncodeChar) = some (text.flatMap other) := by
  induction text with
  | nil => rfl
  | cons c text ih =>
    rw [List.flatMap_cons, List.flatMap_cons]
    simp only [utf32EncodeChar, List.cons_append, List.nil_append, utf32ConvertFrom, utf32_value,
      writes]
    rw [ih]
    rfl

theorem utf8ConvertFrom_text
    (writes : ∀ c : Char, units c.toNat = some (other c)) (text : List Char) :
    utf8ConvertFrom units (text.flatMap utf8EncodeChar).length (text.flatMap utf8EncodeChar) =
      some (text.flatMap other) := by
  refine (utf8ConvertFrom_writes writes).text (fun fuel => ?_) text _ (fun _ _ => trivial)
    (utf8_prefixFree.length_le text)
  cases fuel <;> rfl

theorem utf16ConvertFrom_text {units : Nat → Option (List Unit)}
    (writes : ∀ c : Char, units c.toNat = some (other c)) (text : List Char) :
    utf16ConvertFrom units (text.flatMap utf16EncodeChar).length (text.flatMap utf16EncodeChar) =
      some (text.flatMap other) := by
  refine (utf16ConvertFrom_writes writes).text (fun fuel => ?_) text _ (fun _ _ => trivial)
    (utf16_prefixFree.length_le text)
  cases fuel <;> rfl

section

variable (text : List Char)
include text

theorem utf8ConvertToUtf16_text :
    utf8ConvertToUtf16 (text.flatMap utf8EncodeChar) = some (text.flatMap utf16EncodeChar) :=
  utf8ConvertFrom_text utf8Utf16Units_char text

theorem utf8ConvertToUtf32_text :
    utf8ConvertToUtf32 (text.flatMap utf8EncodeChar) = some (text.flatMap utf32EncodeChar) :=
  utf8ConvertFrom_text utf8Utf32Units_char text

theorem utf16ConvertToUtf8_text :
    utf16ConvertToUtf8 (text.flatMap utf16EncodeChar) = some (text.flatMap utf8EncodeChar) :=
  utf16ConvertFrom_text utf16Utf8Bytes_char text

theorem utf16ConvertToUtf32_text :
    utf16ConvertToUtf32 (text.flatMap utf16EncodeChar) = some (text.flatMap utf32EncodeChar) :=
  utf16ConvertFrom_text (fun _ => rfl) text

theorem utf32ConvertToUtf8_text :
    utf32ConvertToUtf8 (text.flatMap utf32EncodeChar) = some (text.flatMap utf8EncodeChar) :=
  utf32ConvertFrom_text utf32Utf8Bytes_char text

theorem utf32ConvertToUtf16_text :
    utf32ConvertToUtf16 (text.flatMap utf32EncodeChar) = some (text.flatMap utf16EncodeChar) :=
  utf32ConvertFrom_text utf32Utf16Units_char text

end

theorem utf8Validate_iff (src : List UInt8) (nonzero : ∀ b ∈ src, b ≠ 0) :
    utf8Validate src = none ↔ ∃ text, Spells utf8EncodeChar IsTextCharacter text src := by
  have whole : src.takeWhile (· ≠ 0) = src := by
    have all : (src ++ []).takeWhile (· ≠ 0) = src ++ [].takeWhile (· ≠ 0) :=
      List.takeWhile_append_of_pos fun b member => decide_eq_true (nonzero b member)
    simpa using all
  rcases utf8Validate_outcome src with ⟨accepted, spelled⟩ | ⟨offset, refused, offends⟩
  · rw [whole] at spelled
    exact iff_of_true accepted spelled
  · rw [whole] at offends
    refine iff_of_false (by simp [refused]) ?_
    rintro ⟨text, spells⟩
    exact utf8_prefixFree.not_spells offends text spells

end Texts

/-- `src` spells a text that the converters to the other two encodings, and from there to
each other and back, spell in every encoding. -/
structure ConvertsExactly {Unit First Second : Type} (encode : Char → List Unit)
    (encodeFirst : Char → List First) (encodeSecond : Char → List Second)
    (toFirst : List Unit → Option (List First)) (toSecond : List Unit → Option (List Second))
    (fromFirst : List First → Option (List Unit)) (fromSecond : List Second → Option (List Unit))
    (firstToSecond : List First → Option (List Second))
    (secondToFirst : List Second → Option (List First)) (src : List Unit) : Prop where
  standard : ∃ text : List Char, src = text.flatMap encode ∧
    toFirst src = some (text.flatMap encodeFirst) ∧
    toSecond src = some (text.flatMap encodeSecond)
  thereAndBack : (toFirst src).bind fromFirst = some src
  thereAndBack' : (toSecond src).bind fromSecond = some src
  viaFirst : (toFirst src).bind firstToSecond = toSecond src
  viaSecond : (toSecond src).bind secondToFirst = toFirst src

/-- The converters are inverse to each other and commute. -/
theorem utfConvert_exact :
    (∀ src : List UInt8, (∀ b ∈ src, b ≠ 0) → utf8Validate src = none →
      ConvertsExactly utf8EncodeChar utf16EncodeChar utf32EncodeChar utf8ConvertToUtf16
        utf8ConvertToUtf32
        utf16ConvertToUtf8 utf32ConvertToUtf8 utf16ConvertToUtf32 utf32ConvertToUtf16 src) ∧
    (∀ src : List UInt16, (∀ a ∈ src, a ≠ 0) → utf16Validate src = none →
      ConvertsExactly utf16EncodeChar utf8EncodeChar utf32EncodeChar utf16ConvertToUtf8
        utf16ConvertToUtf32
        utf8ConvertToUtf16 utf32ConvertToUtf16 utf8ConvertToUtf32 utf32ConvertToUtf8 src) ∧
    ∀ src : List Int32, (∀ a ∈ src, a ≠ 0) → utf32Validate src = none →
      ConvertsExactly utf32EncodeChar utf8EncodeChar utf16EncodeChar utf32ConvertToUtf8
        utf32ConvertToUtf16
        utf8ConvertToUtf32 utf16ConvertToUtf32 utf8ConvertToUtf16 utf16ConvertToUtf8 src := by
  refine ⟨fun src nonzero accepted => ?_, fun src nonzero accepted => ?_,
    fun src nonzero accepted => ?_⟩
  · obtain ⟨text, allGood, rfl⟩ := (utf8Validate_iff src nonzero).mp accepted
    have there := utf8ConvertToUtf16_text text
    have there' := utf8ConvertToUtf32_text text
    refine ⟨⟨text, rfl, there, there'⟩, ?_, ?_, ?_, ?_⟩
    · rw [there, Option.bind_some, utf16ConvertToUtf8_text text]
    · rw [there', Option.bind_some, utf32ConvertToUtf8_text]
    · rw [there, there', Option.bind_some, utf16ConvertToUtf32_text text]
    · rw [there, there', Option.bind_some, utf32ConvertToUtf16_text]
  · obtain ⟨text, allGood, rfl⟩ := (utf16Validate_iff src nonzero).mp accepted
    have there := utf16ConvertToUtf8_text text
    have there' := utf16ConvertToUtf32_text text
    refine ⟨⟨text, rfl, there, there'⟩, ?_, ?_, ?_, ?_⟩
    · rw [there, Option.bind_some, utf8ConvertToUtf16_text text]
    · rw [there', Option.bind_some, utf32ConvertToUtf16_text]
    · rw [there, there', Option.bind_some, utf8ConvertToUtf32_text text]
    · rw [there, there', Option.bind_some, utf32ConvertToUtf8_text]
  · obtain ⟨text, allGood, rfl⟩ := (utf32Validate_iff src nonzero).mp accepted
    have there := utf32ConvertToUtf8_text text
    have there' := utf32ConvertToUtf16_text text
    refine ⟨⟨text, rfl, there, there'⟩, ?_, ?_, ?_, ?_⟩
    · rw [there, Option.bind_some, utf8ConvertToUtf32_text text]
    · rw [there', Option.bind_some, utf16ConvertToUtf32_text text]
    · rw [there, there', Option.bind_some, utf8ConvertToUtf16_text text]
    · rw [there, there', Option.bind_some, utf16ConvertToUtf8_text text]

theorem utfConvert_exact_letter :
    ((utf8ConvertToUtf16 [0xC3, 0xA9]).bind utf16ConvertToUtf8 = some [0xC3, 0xA9] ∧
      (utf16ConvertToUtf8 [0xE9]).bind utf8ConvertToUtf16 = some [0xE9]) ∧
      (utf32ConvertToUtf8 [0xE9]).bind utf8ConvertToUtf32 = some [0xE9] :=
  ⟨⟨(utfConvert_exact.1 [0xC3, 0xA9] (by simp) (by decide)).thereAndBack,
    (utfConvert_exact.2.1 [0xE9] (by simp) (by decide)).thereAndBack⟩,
    (utfConvert_exact.2.2 [0xE9] (by simp) (by decide)).thereAndBack⟩

end MulleCore
