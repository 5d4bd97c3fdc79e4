import MulleCore.Utf.Utf16Lengths

/-!
What the length functions, the information functions and the validate functions say about
one text.
-/

namespace MulleCore

open Library

section Boms

theorem bom_text : IsTextCharacter (Char.ofNat 0xFEFF) :=
  ⟨by decide, by unfold IsNoncharacter; decide⟩

theorem utf8_spells_start (src : List UInt8) :
    (∃ text, Spells String.utf8EncodeChar IsTextCharacter text (src.drop (utf8Start src))) ↔
      ∃ text, Spells String.utf8EncodeChar IsTextCharacter text src := by
  rw [utf8Start]
  split
  · rename_i leads
    rw [← utf8_prefixFree.spells_append bom_text (src.drop 3), ← utf8HasLeadingBomcharacter_eq leads]
  · rw [List.drop_zero]

theorem utf16_spells_start {good : Char → Prop} (bom : good (Char.ofNat 0xFEFF)) (src : List UInt16) :
    (∃ text, Spells utf16EncodeChar good text (src.drop (utf16Start src))) ↔
      ∃ text, Spells utf16EncodeChar good text src := by
  cases src with
  | nil => rfl
  | cons a src =>
    rw [utf16Start]
    split
    · rename_i leads
      have unit : a = 0xFEFF := by
        rw [utf32IsBomcharacter, beq_iff_eq] at leads
        exact UInt16.toNat_inj.mp (Int.ofNat_inj.mp leads)
      rw [List.drop_succ_cons, List.drop_zero, ← utf16_prefixFree.spells_append bom src, unit]
      rfl
    · rw [List.drop_zero]

theorem utf32_spells_start (src : List Int32) :
    (∃ text, Spells utf32EncodeChar IsTextCharacter text (src.drop (utf32Start src))) ↔
      ∃ text, Spells utf32EncodeChar IsTextCharacter text src := by
  cases src with
  | nil => rfl
  | cons a src =>
    rw [utf32Start]
    split
    · rename_i leads
      have unit : a = 0xFEFF := by
        simpa [utf32IsBomcharacter, ← Int32.toInt_inj] using leads
      rw [List.drop_succ_cons, List.drop_zero, ← utf32_prefixFree.spells_append bom_text src, unit]
      rfl
    · rw [List.drop_zero]

end Boms

section Lengths

def Counts {Unit : Type} (written : Option (List Unit)) (n : Int) : Prop :=
  ∃ units, written = some units ∧ n = units.length

structure LengthsExact {Unit First Second : Type} (toFirst : List Unit → Option (List First))
    (toSecond : List Unit → Option (List Second)) (firstLength secondLength : List Unit → Option Int)
    (information : List Unit → Int × UtfInformation)
    (ownLen firstLen secondLen : UtfInformation → Int) (start : Nat) (src : List Unit) : Prop where
  first : ∃ n, firstLength src = some n ∧ Counts (toFirst src) n
  second : ∃ n, secondLength src = some n ∧ Counts (toSecond src) n
  informs : ∃ info, information src = (0, info) ∧ info.start = some start ∧
    ownLen info = (src.drop start).length ∧
    Counts (toFirst (src.drop start)) (firstLen info) ∧
    Counts (toSecond (src.drop start)) (secondLen info)

theorem utf8Lengths_exact (src : List UInt8) (nonzero : ∀ b ∈ src, b ≠ 0)
    (accepted : utf8Validate src = none) :
    LengthsExact utf8ConvertToUtf16 utf8ConvertToUtf32 utf8Utf16length utf8Utf32length utf8Information
      UtfInformation.utf8len UtfInformation.utf16len UtfInformation.utf32len (utf8Start src) src := by
  have spelled := (utf8Validate_iff src nonzero).mp accepted
  have informs := (utf8Information_outcome src nonzero).resolve_right fun refused =>
    refused.2 ((utf8_spells_start src).mpr spelled)
  obtain ⟨behind, info, ⟨behindGood, behindSpelled⟩, result, counts⟩ := informs
  obtain ⟨text, allGood, same⟩ := spelled
  refine ⟨?_, ?_, info, result, counts.begins, ?_⟩
  · rw [← same]
    exact ⟨_, utf8Utf16length_text _, _, utf8ConvertToUtf16_text _, rfl⟩
  · rw [← same]
    exact ⟨_, utf8Utf32length_text _, _, utf8ConvertToUtf32_text _, rfl⟩
  · rw [← behindSpelled]
    exact ⟨counts.utf8, ⟨_, utf8ConvertToUtf16_text _, counts.utf16⟩,
      _, utf8ConvertToUtf32_text _, counts.utf32⟩

theorem utf16Lengths_exact (src : List UInt16) (nonzero : ∀ a ∈ src, a ≠ 0)
    (accepted : utf16Validate src = none) :
    LengthsExact utf16ConvertToUtf8 utf16ConvertToUtf32 (fun src => some (utf16Utf8length src))
      utf16Utf32length
      utf16Information UtfInformation.utf16len UtfInformation.utf8len UtfInformation.utf32len
        (utf16Start src)
      src := by
  obtain ⟨text, allGood, same⟩ := (utf16Validate_iff src nonzero).mp accepted
  have loose := IsLooseCharacter.of_text allGood
  have informs := (utf16Information_outcome src nonzero).resolve_right fun refused =>
    refused.2 ((utf16_spells_start bom_text.loose src).mpr ⟨text, loose, same⟩)
  obtain ⟨behind, info, ⟨behindGood, behindSpelled⟩, result, counts⟩ := informs
  refine ⟨?_, ?_, info, result, counts.begins, ?_⟩
  · rw [← same]
    exact ⟨_, congrArg some (utf16Utf8length_text loose), _, utf16ConvertToUtf8_text _, rfl⟩
  · rw [← same]
    exact ⟨_, utf16Utf32length_text loose, _, utf16ConvertToUtf32_text _, rfl⟩
  · rw [← behindSpelled]
    exact ⟨counts.utf16, ⟨_, utf16ConvertToUtf8_text _, counts.utf8⟩,
      _, utf16ConvertToUtf32_text _, counts.utf32⟩

theorem utf32Lengths_exact (src : List Int32) (nonzero : ∀ a ∈ src, a ≠ 0)
    (accepted : utf32Validate src = none) :
    LengthsExact utf32ConvertToUtf8 utf32ConvertToUtf16 utf32Utf8length utf32Utf16length
      utf32Information
      UtfInformation.utf32len UtfInformation.utf8len UtfInformation.utf16len
        (utf32Start src) src := by
  have spelled := (utf32Validate_iff src nonzero).mp accepted
  have informs := (utf32Information_outcome src nonzero).resolve_right fun refused =>
    refused.2 ((utf32_spells_start src).mpr spelled)
  obtain ⟨behind, info, ⟨behindGood, behindSpelled⟩, result, counts⟩ := informs
  obtain ⟨text, allGood, same⟩ := spelled
  refine ⟨?_, ?_, info, result, counts.begins, ?_⟩
  · rw [← same]
    exact ⟨_, utf32Utf8length_text allGood, _, utf32ConvertToUtf8_text text, rfl⟩
  · rw [← same]
    exact ⟨_, utf32Utf16length_text allGood, _, utf32ConvertToUtf16_text text, rfl⟩
  · rw [← behindSpelled]
    exact ⟨counts.utf32, ⟨_, utf32ConvertToUtf8_text behind, counts.utf8⟩,
      _, utf32ConvertToUtf16_text behind, counts.utf16⟩

/-- The lengths computed before a conversion are those of the converted text. -/
theorem utfLengths_exact :
    (∀ src : List UInt8, (∀ b ∈ src, b ≠ 0) → utf8Validate src = none →
      LengthsExact utf8ConvertToUtf16 utf8ConvertToUtf32 utf8Utf16length utf8Utf32length
        utf8Information
        UtfInformation.utf8len UtfInformation.utf16len UtfInformation.utf32len (utf8Start src) src) ∧
    (∀ src : List UInt16, (∀ a ∈ src, a ≠ 0) → utf16Validate src = none →
      LengthsExact utf16ConvertToUtf8 utf16ConvertToUtf32 (fun src => some (utf16Utf8length src))
        utf16Utf32length
        utf16Information UtfInformation.utf16len UtfInformation.utf8len UtfInformation.utf32len
          (utf16Start src)
        src) ∧
    ∀ src : List Int32, (∀ a ∈ src, a ≠ 0) → utf32Validate src = none →
      LengthsExact utf32ConvertToUtf8 utf32ConvertToUtf16 utf32Utf8length utf32Utf16length
        utf32Information
        UtfInformation.utf32len UtfInformation.utf8len UtfInformation.utf16len (utf32Start src) src :=
  ⟨utf8Lengths_exact, utf16Lengths_exact, utf32Lengths_exact⟩

theorem utfLengths_exact_letter :
    (∃ n, utf8Utf16length [0xEF, 0xBB, 0xBF, 0xC3, 0xA9] = some n ∧
        Counts (utf8ConvertToUtf16 [0xEF, 0xBB, 0xBF, 0xC3, 0xA9]) n) ∧
      (∃ n, utf16Utf32length [0xFEFF, 0xE9] = some n ∧ Counts (utf16ConvertToUtf32 [0xFEFF, 0xE9])
        n) ∧
      ∃ n, utf32Utf8length [0xFEFF, 0xE9] = some n ∧ Counts (utf32ConvertToUtf8 [0xFEFF, 0xE9]) n :=
  ⟨(utfLengths_exact.1 [0xEF, 0xBB, 0xBF, 0xC3, 0xA9] (by simp) (by decide)).first,
    (utfLengths_exact.2.1 [0xFEFF, 0xE9] (by simp) (by decide)).second,
    (utfLengths_exact.2.2 [0xFEFF, 0xE9] (by simp) (by decide)).first⟩

end Lengths

section Consistent

def ConvertsTo {Unit : Type} (written : Option (List Unit)) (validate : List Unit → Option Nat) :
    Prop :=
  ∃ units, written = some units ∧ validate units = none

structure Consistent {Unit First Second : Type} (information : List Unit → Int × UtfInformation)
    (validate : List Unit → Option Nat) (toFirst : List Unit → Option (List First))
    (validateFirst : List First → Option Nat) (toSecond : List Unit → Option (List Second))
    (validateSecond : List Second → Option Nat) (src : List Unit) : Prop where
  same : (information src).1 = 0 ↔ validate src = none
  first : (information src).1 = 0 → ConvertsTo (toFirst src) validateFirst
  second : (information src).1 = 0 → ConvertsTo (toSecond src) validateSecond

def Utf8Consistent : List UInt8 → Prop :=
  Consistent utf8Information utf8Validate utf8ConvertToUtf16 utf16Validate utf8ConvertToUtf32
    utf32Validate

def Utf16Consistent : List UInt16 → Prop :=
  Consistent utf16Information utf16Validate utf16ConvertToUtf8 utf8Validate utf16ConvertToUtf32
    utf32Validate

def Utf32Consistent : List Int32 → Prop :=
  Consistent utf32Information utf32Validate utf32ConvertToUtf8 utf8Validate utf32ConvertToUtf16
    utf16Validate

def EndsPlane (src : List UInt16) : Prop :=
  ∃ text, Spells utf16EncodeChar IsLooseCharacter text src ∧ ∃ c ∈ text, IsNoncharacter c

theorem utf8Information_iff (src : List UInt8) (nonzero : ∀ b ∈ src, b ≠ 0) :
    (utf8Information src).1 = 0 ↔ ∃ text, Spells String.utf8EncodeChar IsTextCharacter text src := by
  rw [← utf8_spells_start]
  rcases utf8Information_outcome src nonzero with
    ⟨text, info, spells, result, _⟩ | ⟨failed, unspelled⟩
  · exact iff_of_true (by rw [result]) ⟨text, spells⟩
  · exact iff_of_false (by rw [failed]; decide) unspelled

theorem utf16Information_iff (src : List UInt16) (nonzero : ∀ a ∈ src, a ≠ 0) :
    (utf16Information src).1 = 0 ↔ ∃ text, Spells utf16EncodeChar IsLooseCharacter text src := by
  rw [← utf16_spells_start bom_text.loose]
  rcases utf16Information_outcome src nonzero with
    ⟨text, info, spells, result, _⟩ | ⟨failed, unspelled⟩
  · exact iff_of_true (by rw [result]) ⟨text, spells⟩
  · exact iff_of_false (by rw [failed]; decide) unspelled

theorem utf32Information_iff (src : List Int32) (nonzero : ∀ a ∈ src, a ≠ 0) :
    (utf32Information src).1 = 0 ↔ ∃ text, Spells utf32EncodeChar IsTextCharacter text src := by
  rw [← utf32_spells_start]
  rcases utf32Information_outcome src nonzero with
    ⟨text, info, spells, result, _⟩ | ⟨failed, unspelled⟩
  · exact iff_of_true (by rw [result]) ⟨text, spells⟩
  · exact iff_of_false (by rw [failed]; decide) unspelled

variable {text : List Char}

section

variable (allGood : ∀ c ∈ text, IsTextCharacter c)
include allGood

theorem utf8Validate_text :
    utf8Validate (text.flatMap String.utf8EncodeChar) = none := by
  refine (utf8Validate_iff _ fun b member => ?_).mpr ⟨text, allGood, rfl⟩
  obtain ⟨c, inText, inBytes⟩ := List.mem_flatMap.mp member
  exact utf8_nonzero (allGood c inText) b inBytes

theorem utf16Validate_text :
    utf16Validate (text.flatMap utf16EncodeChar) = none := by
  refine (utf16Validate_iff _ fun a member => ?_).mpr ⟨text, allGood, rfl⟩
  obtain ⟨c, inText, inUnits⟩ := List.mem_flatMap.mp member
  have round := utf16_round (allGood c inText).loose
  generalize utf16EncodeChar c = units at round inUnits
  cases round with
  | one b nonzero =>
    rw [List.mem_singleton] at inUnits
    exact inUnits ▸ nonzero
  | two b d nonzero _ _ low =>
    rcases List.mem_pair.mp inUnits with rfl | rfl
    · exact nonzero
    · exact utf16_ne_zero (by omega)

theorem utf32Validate_text :
    utf32Validate (text.flatMap utf32EncodeChar) = none := by
  refine (utf32Validate_iff _ fun a member => ?_).mpr ⟨text, allGood, rfl⟩
  obtain ⟨c, inText, inUnits⟩ := List.mem_flatMap.mp member
  rw [utf32EncodeChar, List.mem_singleton] at inUnits
  exact inUnits ▸ utf32_ne_zero (allGood c inText).nonzero

end

theorem utf8_consistent (src : List UInt8) (nonzero : ∀ b ∈ src, b ≠ 0) : Utf8Consistent src := by
  have informed := utf8Information_iff src nonzero
  refine ⟨informed.trans (utf8Validate_iff src nonzero).symm, fun accepted => ?_, fun accepted => ?_⟩
  · obtain ⟨text, allGood, rfl⟩ := informed.mp accepted
    exact ⟨_, utf8ConvertToUtf16_text _, utf16Validate_text allGood⟩
  · obtain ⟨text, allGood, rfl⟩ := informed.mp accepted
    exact ⟨_, utf8ConvertToUtf32_text _, utf32Validate_text allGood⟩

theorem utf32_consistent (src : List Int32) (nonzero : ∀ a ∈ src, a ≠ 0) : Utf32Consistent src := by
  have informed := utf32Information_iff src nonzero
  refine ⟨informed.trans (utf32Validate_iff src nonzero).symm, fun accepted => ?_, fun accepted => ?_⟩
  · obtain ⟨text, allGood, rfl⟩ := informed.mp accepted
    exact ⟨_, utf32ConvertToUtf8_text text, utf8Validate_text allGood⟩
  · obtain ⟨text, allGood, rfl⟩ := informed.mp accepted
    exact ⟨_, utf32ConvertToUtf16_text text, utf16Validate_text allGood⟩

theorem utf16_consistent_iff (src : List UInt16) (nonzero : ∀ a ∈ src, a ≠ 0) :
    Utf16Consistent src ↔ ¬ EndsPlane src := by
  have informed := utf16Information_iff src nonzero
  have validated := utf16Validate_iff src nonzero
  constructor
  · rintro consistent ⟨text, ⟨loose, spelled⟩, c, inText, noncharacter⟩
    obtain ⟨other, allGood, same⟩ :=
      validated.mp (consistent.same.mp (informed.mpr ⟨text, loose, spelled⟩))
    have equal := utf16_prefixFree.injective other text (same.trans spelled.symm)
    exact (allGood c (equal ▸ inText)).character noncharacter
  · intro unended
    have strict : ∀ text, Spells utf16EncodeChar IsLooseCharacter text src →
      ∀ c ∈ text, IsTextCharacter c :=
      fun text spells c inText =>
        ⟨(spells.1 c inText).nonzero, fun noncharacter => unended ⟨text, spells, c, inText,
          noncharacter⟩⟩
    refine ⟨?_, fun accepted => ?_, fun accepted => ?_⟩
    · rw [informed, validated]
      constructor
      · rintro ⟨text, spells⟩
        exact ⟨text, strict text spells, spells.2⟩
      · rintro ⟨text, allGood, spelled⟩
        exact ⟨text, .of_text allGood, spelled⟩
    · obtain ⟨text, spells⟩ := informed.mp accepted
      have allGood := strict text spells
      rw [← spells.2]
      exact ⟨_, utf16ConvertToUtf8_text _, utf8Validate_text allGood⟩
    · obtain ⟨text, spells⟩ := informed.mp accepted
      have allGood := strict text spells
      rw [← spells.2]
      exact ⟨_, utf16ConvertToUtf32_text _, utf32Validate_text allGood⟩

/-- Only the information on UTF-16 accepts what validate does not. -/
theorem utfInformation_consistent_iff (bytes : List UInt8) (units : List UInt16)
    (characters : List Int32) (bytesNonzero : ∀ b ∈ bytes, b ≠ 0) (unitsNonzero : ∀ a ∈ units, a ≠ 0)
    (charactersNonzero : ∀ a ∈ characters, a ≠ 0) :
    Utf8Consistent bytes ∧ (Utf16Consistent units ↔ ¬ EndsPlane units) ∧ Utf32Consistent characters :=
  ⟨utf8_consistent bytes bytesNonzero, utf16_consistent_iff units unitsNonzero,
    utf32_consistent characters charactersNonzero⟩

theorem utfInformation_consistent_iff_letter :
    Utf8Consistent [0xC3, 0xA9] ∧ (Utf16Consistent [0xE9] ↔ ¬ EndsPlane [0xE9]) ∧
    Utf32Consistent [0xE9] :=
  utfInformation_consistent_iff [0xC3, 0xA9] [0xE9] [0xE9] (by simp) (by simp) (by simp)

/-- U+1FFFE. -/
theorem utfInformation_not_consistent :
    ¬ ((∀ src : List UInt8, (∀ b ∈ src, b ≠ 0) → Utf8Consistent src) ∧
      (∀ src : List UInt16, (∀ a ∈ src, a ≠ 0) → Utf16Consistent src) ∧
      ∀ src : List Int32, (∀ a ∈ src, a ≠ 0) → Utf32Consistent src) := by
  rintro ⟨_, consistent, _⟩
  have same := (consistent [0xD83F, 0xDFFE] (by simp)).same
  have accepted : (utf16Information [0xD83F, 0xDFFE]).1 = 0 := by decide
  have refused : utf16Validate [0xD83F, 0xDFFE] = some 0 := by decide
  rw [accepted, refused] at same
  exact absurd (same.mp rfl) (by decide)

end Consistent

end MulleCore
