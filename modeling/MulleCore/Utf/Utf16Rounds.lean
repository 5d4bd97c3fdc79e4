import MulleCore.Utf.UtfTexts

/-!
What the loops over UTF-16 and UTF-32 find in one round, and their validate functions.
-/

namespace MulleCore

open Library

/-- What the information on UTF-16 lets pass. It does not look for noncharacters in a
surrogate pair. -/
structure IsLooseCharacter (c : Char) : Prop where
  nonzero : c.toNat ≠ 0
  character : c.toNat < 0x10000 → ¬ IsNoncharacter c

theorem IsTextCharacter.loose {c : Char} (good : IsTextCharacter c) : IsLooseCharacter c :=
  ⟨good.nonzero, fun _ => good.character⟩

theorem IsLooseCharacter.of_text {text : List Char} (allGood : ∀ c ∈ text, IsTextCharacter c) :
    ∀ c ∈ text, IsLooseCharacter c :=
  fun c member => (allGood c member).loose

section Utf16

variable {c : Char} {a d : UInt16} {src : List UInt16}

theorem utf16IsInvalidChar_eq (a : UInt16) :
    utf16IsInvalidChar a = true ↔ 0xFFFE ≤ a.toNat ∨ 0xFDD0 ≤ a.toNat ∧ a.toNat ≤ 0xFDEF := by
  simp [utf16IsInvalidChar, UInt16.le_iff_toNat_le]

theorem utf32IsHighsurrogatecharacter_eq (v : Nat) :
    utf32IsHighsurrogatecharacter v = true ↔ 0xD800 ≤ v ∧ v < 0xDC00 := by
  simp only [utf32IsHighsurrogatecharacter, Bool.and_eq_true, decide_eq_true_eq, ge_iff_le]
  omega

theorem utf32IsLowsurrogatecharacter_eq (v : Nat) :
    utf32IsLowsurrogatecharacter v = true ↔ 0xDC00 ≤ v ∧ v < 0xE000 := by
  simp only [utf32IsLowsurrogatecharacter, Bool.and_eq_true, decide_eq_true_eq, ge_iff_le]
  omega

theorem utf16_ne_zero (nonzero : a.toNat ≠ 0) : a ≠ 0 := by
  rintro rfl
  exact nonzero rfl

theorem utf16DecodeSurrogatepair_eq (high : 0xD800 ≤ a.toNat ∧ a.toNat < 0xDC00)
    (low : 0xDC00 ≤ d.toNat ∧ d.toNat < 0xE000) :
    utf16DecodeSurrogatepair a d =
      some (0x10000 + (a.toNat - 0xD800) * 0x400 + (d.toNat - 0xDC00)) := by
  rw [utf16DecodeSurrogatepair, if_pos ⟨(utf32IsHighsurrogatecharacter_eq _).mpr high,
    (utf32IsLowsurrogatecharacter_eq _).mpr low⟩, Nat.shiftLeft_eq]

theorem utf16IsValidSurrogatepair_eq (low : d.toNat < 0xE000) :
    utf16IsValidSurrogatepair a d = true ↔ ¬ (0xDFFE ≤ d.toNat ∧ a.toNat % 0x40 = 0x3F) := by
  have masked : (a &&& 0xFF).toNat = a.toNat % 0x100 := by
    rw [UInt16.toNat_and]
    exact Nat.and_two_pow_sub_one_eq_mod _ 8
  have ends : (d = 0xDFFE ∨ d = 0xDFFF) ↔ 0xDFFE ≤ d.toNat := by
    simp only [← UInt16.toNat_inj, UInt16.reduceToNat]
    omega
  have planes : (! (a &&& 0xFF == 0x3F || a &&& 0xFF == 0x7F || a &&& 0xFF == 0xBF || a &&& 0xFF ==
    0xFF)) = true ↔
      ¬ a.toNat % 0x40 = 0x3F := by
    simp only [Bool.not_eq_true', Bool.or_eq_false_iff, beq_eq_false_iff_ne, ne_eq,
      ← UInt16.toNat_inj, masked, UInt16.reduceToNat]
    omega
  rw [utf16IsValidSurrogatepair]
  split
  · rename_i last
    rw [planes]
    have above := ends.mp last
    omega
  · rename_i other
    rw [ends] at other
    simp [other]

inductive Utf16Round (c : Char) : List UInt16 → Prop where
  | one (a : UInt16) : a ≠ 0 → c.toNat < 0x10000 → a.toNat = c.toNat →
      utf32IsSurrogatecharacter a.toNat = false → utf32IsHighsurrogatecharacter a.toNat = false →
      utf16IsInvalidChar a = false → Utf16Round c [a]
  | two (a d : UInt16) : a ≠ 0 → 0x10000 ≤ c.toNat → 0xD800 ≤ a.toNat ∧ a.toNat < 0xDC00 →
      0xDC00 ≤ d.toNat ∧ d.toNat < 0xE000 → utf16DecodeSurrogatepair a d = some c.toNat →
      (utf16IsValidSurrogatepair a d = true ↔ ¬ IsNoncharacter c) → Utf16Round c [a, d]

inductive Utf16Shape (c : Char) : List UInt16 → Prop where
  | one (a : UInt16) : c.toNat < 0x10000 → a.toNat = c.toNat →
      utf32IsSurrogatecharacter a.toNat = false →
      utf32IsHighsurrogatecharacter a.toNat = false → Utf16Shape c [a]
  | two (a d : UInt16) : 0x10000 ≤ c.toNat → 0xD800 ≤ a.toNat ∧ a.toNat < 0xDC00 →
      0xDC00 ≤ d.toNat ∧ d.toNat < 0xE000 → utf16DecodeSurrogatepair a d = some c.toNat →
      Utf16Shape c [a, d]

theorem utf16_shape (c : Char) : Utf16Shape c (utf16EncodeChar c) := by
  have form := utf16EncodeChar_form c
  generalize utf16EncodeChar c = units at form
  cases form with
  | one a small scalars value =>
    refine .one a small value ?_ ?_
    · rw [Bool.eq_false_iff, ne_eq, utf32IsSurrogatecharacter_eq]
      omega
    · rw [Bool.eq_false_iff, ne_eq, utf32IsHighsurrogatecharacter_eq]
      omega
  | two a d lower upper first second =>
    refine .two a d lower (by omega) (by omega) ?_
    rw [utf16DecodeSurrogatepair_eq (by omega) (by omega), Option.some_inj]
    omega

theorem utf16_round (good : IsLooseCharacter c) : Utf16Round c (utf16EncodeChar c) := by
  have scalar := Char.scalar c
  have nonzero := good.nonzero
  have character := good.character
  have shape := utf16_shape c
  generalize utf16EncodeChar c = units at shape
  rw [IsNoncharacter] at character
  cases shape with
  | one a small value noSurrogate notHigh =>
    refine .one a (utf16_ne_zero (by omega)) small value noSurrogate notHigh ?_
    rw [Bool.eq_false_iff, ne_eq, utf16IsInvalidChar_eq]
    omega
  | two a d lower high low decoded =>
    refine .two a d (utf16_ne_zero (by omega)) lower high low decoded ?_
    rw [utf16DecodeSurrogatepair_eq high low, Option.some_inj] at decoded
    rw [utf16IsValidSurrogatepair_eq low.2, IsNoncharacter]
    omega

theorem utf16_begins_one (src : List UInt16) (nonzero : a ≠ 0)
    (noSurrogate : ¬ (0xD800 ≤ a.toNat ∧ a.toNat < 0xE000))
    (valid : ¬ (0xFFFE ≤ a.toNat ∨ 0xFDD0 ≤ a.toNat ∧ a.toNat ≤ 0xFDEF)) :
    ∃ c, IsTextCharacter c ∧ utf16EncodeChar c <+: a :: src := by
  have bound : a.toNat < 65536 := a.toNat_lt
  have proper : a.toNat ≠ 0 := fun zero => nonzero (UInt16.toNat_inj.mp zero)
  obtain ⟨c, value⟩ := exists_char (v := a.toNat) (by omega)
  refine ⟨c, ⟨by omega, ?_⟩, src, ?_⟩
  · rw [IsNoncharacter]
    omega
  · rw [(Utf16Form.one a (by omega) (by omega) value.symm).eq_encode]
    rfl

theorem utf16_begins_two (src : List UInt16) (high : 0xD800 ≤ a.toNat ∧ a.toNat < 0xDC00)
    (low : 0xDC00 ≤ d.toNat ∧ d.toNat < 0xE000) :
    ∃ c, IsLooseCharacter c ∧ utf16EncodeChar c <+: a :: d :: src ∧
      (utf16IsValidSurrogatepair a d = true → IsTextCharacter c) := by
  obtain ⟨c, value⟩ := exists_char (v := 0x10000 + (a.toNat - 0xD800) * 0x400 + (d.toNat - 0xDC00))
    (by omega)
  refine ⟨c, ⟨by omega, by omega⟩, ⟨src, ?_⟩, fun valid => ⟨by omega, ?_⟩⟩
  · rw [(Utf16Form.two a d (by omega) (by omega) (by omega) (by omega)).eq_encode]
    rfl
  · rw [utf16IsValidSurrogatepair_eq low.2] at valid
    rw [IsNoncharacter]
    omega

theorem utf16ValidateFrom_rounds : Rounds utf16EncodeChar IsTextCharacter utf16ValidateFrom
    fun index c => index + (utf16EncodeChar c).length := by
  intro fuel c rest index good
  have round := utf16_round good.loose
  have scalar := Char.scalar c
  beta_reduce
  generalize utf16EncodeChar c = units at round ⊢
  cases round with
  | one a nonzero _ _ noSurrogate _ valid =>
    simp only [List.cons_append, List.nil_append, utf16ValidateFrom, if_neg nonzero,
      valid, noSurrogate, Bool.false_eq_true, if_false, Bool.not_false, if_true,
      List.length_singleton]
  | two a d nonzero _ high low decoded pair =>
    have valid : utf16IsInvalidChar a = false := by
      rw [Bool.eq_false_iff, ne_eq, utf16IsInvalidChar_eq]
      omega
    have surrogate : utf32IsSurrogatecharacter a.toNat = true :=
      (utf32IsSurrogatecharacter_eq _).mpr (by omega)
    have notLow : utf32IsLowsurrogatecharacter a.toNat = false := by
      rw [Bool.eq_false_iff, ne_eq, utf32IsLowsurrogatecharacter_eq]
      omega
    have isLow := (utf32IsLowsurrogatecharacter_eq _).mpr low
    have small : ¬ (c.toNat : Int) > utf32Max := by
      rw [utf32Max]
      omega
    simp only [List.cons_append, List.nil_append, utf16ValidateFrom, if_neg nonzero, valid,
      surrogate, notLow, isLow, pair.mpr good.character, decoded, if_neg small, Bool.false_eq_true,
      if_false, Bool.not_true, List.length_cons, List.length_nil]

theorem utf16ValidateFrom_stuck {fuel index : Nat} (enough : src.length ≤ fuel)
    (stuck : Stuck utf16EncodeChar IsTextCharacter src) (nonzero : ∀ a ∈ src, a ≠ 0) :
    utf16ValidateFrom fuel src index ≠ none := by
  cases src with
  | nil => exact absurd rfl stuck.1
  | cons a src =>
    have proper := nonzero a List.mem_cons_self
    rw [List.length_cons] at enough
    obtain ⟨fuel, rfl⟩ : ∃ less, fuel = less + 1 := ⟨fuel - 1, by omega⟩
    simp only [utf16ValidateFrom, if_neg proper]
    by_cases invalid : utf16IsInvalidChar a = true
    · simp [invalid]
    by_cases surrogate : utf32IsSurrogatecharacter a.toNat = true
    · by_cases isLow : utf32IsLowsurrogatecharacter a.toNat = true
      · simp [invalid, surrogate, isLow]
      · have high : 0xD800 ≤ a.toNat ∧ a.toNat < 0xDC00 := by
          rw [utf32IsSurrogatecharacter_eq] at surrogate
          rw [utf32IsLowsurrogatecharacter_eq] at isLow
          omega
        cases src with
        | nil => simp [invalid, surrogate, isLow]
        | cons d src =>
          by_cases low : utf32IsLowsurrogatecharacter d.toNat = true
          · by_cases pair : utf16IsValidSurrogatepair a d = true
            · obtain ⟨c, _, begins, good⟩ :=
                utf16_begins_two src high ((utf32IsLowsurrogatecharacter_eq _).mp low)
              exact absurd begins (stuck.2 c (good pair))
            · simp [invalid, surrogate, isLow, low, pair]
          · simp [invalid, surrogate, isLow, low]
    · rw [utf32IsSurrogatecharacter_eq] at surrogate
      rw [utf16IsInvalidChar_eq] at invalid
      obtain ⟨c, good, begins⟩ := utf16_begins_one src proper surrogate invalid
      exact absurd begins (stuck.2 c good)

theorem utf16ValidateFrom_nil (fuel index : Nat) : utf16ValidateFrom fuel [] index = none := by
  cases fuel <;> rfl

theorem utf16Validate_iff (src : List UInt16) (nonzero : ∀ a ∈ src, a ≠ 0) :
    utf16Validate src = none ↔ ∃ text, Spells utf16EncodeChar IsTextCharacter text src := by
  have outcome := utf16ValidateFrom_rounds.outcome utf16_prefixFree 0 (fun _ => none)
    (· ≠ none) utf16ValidateFrom_nil (fun _ _ _ => utf16ValidateFrom_stuck) src.length src
      le_rfl nonzero 0
  rw [utf16Validate]
  rcases outcome with ⟨text, spells, accepted⟩ | ⟨refused, unspelled⟩
  · exact iff_of_true accepted ⟨text, spells⟩
  · exact iff_of_false refused unspelled

end Utf16

section Utf32

variable {c : Char} {a : Int32} {src : List Int32}

theorem utf32_value (c : Char) : (Int32.ofNat c.toNat).toInt = c.toNat := by
  have scalar := Char.scalar c
  exact toInt_ofNat32 (by omega)

theorem utf32_ne_zero (good : c.toNat ≠ 0) : Int32.ofNat c.toNat ≠ 0 := by
  intro zero
  have value := utf32_value c
  rw [zero] at value
  change (0 : Int) = c.toNat at value
  omega

theorem utf32_begins (nonnegative : ¬ (a.toInt < 0 ∨ a.toInt > utf32Max)) (proper : a ≠ 0)
    (valid : utf32IsInvalidcharacter a.toInt = false) :
    ∃ c, IsTextCharacter c ∧ Int32.ofNat c.toNat = a := by
  rw [utf32Max] at nonnegative
  have value : ((a.toInt.toNat : Nat) : Int) = a.toInt := Int.toNat_of_nonneg (by omega)
  have noSurrogate : ¬ (0xD800 ≤ a.toInt.toNat ∧ a.toInt.toNat < 0xE000) := by
    rw [← utf32IsSurrogatecharacter_eq, value]
    intro surrogate
    simp [utf32IsInvalidcharacter, surrogate] at valid
  obtain ⟨c, same⟩ := exists_char (v := a.toInt.toNat) (by omega)
  have toInt : (c.toNat : Int) = a.toInt := by omega
  have unit : Int32.ofNat c.toNat = a := by
    rw [← Int32.toInt_inj, utf32_value, toInt]
  refine ⟨c, ⟨fun zero => proper ?_, ?_⟩, unit⟩
  · rw [← unit, zero]
    rfl
  · rw [← utf32IsInvalidcharacter_char, toInt, valid]
    decide

theorem utf32_valid (good : IsTextCharacter c) : utf32IsInvalidcharacter c.toNat = false ∧
    utf32IsSurrogatecharacter c.toNat = false ∧
    ¬ ((c.toNat : Int) < 0 ∨ (c.toNat : Int) > utf32Max) := by
  have scalar := Char.scalar c
  refine ⟨?_, ?_, ?_⟩
  · rw [Bool.eq_false_iff, ne_eq, utf32IsInvalidcharacter_char]
    exact good.character
  · rw [Bool.eq_false_iff, ne_eq, utf32IsSurrogatecharacter_eq]
    omega
  · rw [utf32Max]
    omega

theorem utf32Validate_loop_iff (src : List Int32) (nonzero : ∀ a ∈ src, a ≠ 0) (index : Nat) :
    utf32Validate.loop src index = none ↔
    ∃ text, Spells utf32EncodeChar IsTextCharacter text src := by
  induction src generalizing index with
  | nil => exact iff_of_true rfl ⟨[], by simp, rfl⟩
  | cons a src ih =>
    have proper := nonzero a List.mem_cons_self
    have later := ih (fun b member => nonzero b (List.mem_cons_of_mem a member)) (index + 1)
    rw [utf32Validate.loop, if_neg proper]
    constructor
    · intro accepted
      split at accepted
      · cases accepted
      · rename_i range
        split at accepted
        · cases accepted
        · rename_i valid
          split at accepted
          · cases accepted
          · obtain ⟨text, allGood, spelled⟩ := later.mp accepted
            obtain ⟨c, good, unit⟩ := utf32_begins range proper (Bool.eq_false_iff.mpr valid)
            refine ⟨c :: text, ?_, ?_⟩
            · intro d member
              rcases List.mem_cons.mp member with rfl | member
              · exact good
              · exact allGood d member
            · rw [List.flatMap_cons, spelled, utf32EncodeChar, unit]
              rfl
    · rintro ⟨text, allGood, spelled⟩
      cases text with
      | nil => cases spelled
      | cons c text =>
        have good := allGood c List.mem_cons_self
        obtain ⟨valid, noSurrogate, range⟩ := utf32_valid good
        obtain ⟨unit, rest⟩ := List.cons.inj spelled
        subst unit
        rw [utf32_value, if_neg range, valid, noSurrogate]
        exact later.mpr ⟨text, fun d member => allGood d (List.mem_cons_of_mem c member), rest⟩

theorem utf32Validate_iff (src : List Int32) (nonzero : ∀ a ∈ src, a ≠ 0) :
    utf32Validate src = none ↔ ∃ text, Spells utf32EncodeChar IsTextCharacter text src :=
  utf32Validate_loop_iff src nonzero 0

end Utf32

end MulleCore
