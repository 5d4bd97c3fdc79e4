import MulleCore.Data.Range
import MulleCore.Utf.Utf8Lengths

/-!
`mulle_utf8data_range_of_utf32_range`: the bytes of a range of characters. A result of `none` is a
failed `assert`, which `ndebug` leaves out.
-/

namespace MulleCore

open Library
open String (utf8EncodeChar)

/-- The `characters` are given by their offset in the data, or are `NULL`. -/
structure Utf8data where
  characters : Option Nat
  length : Nat
deriving DecidableEq

def utf8dataEmpty : Utf8data := ⟨none, 0⟩

/-- The walk with the cursor `s`, the characters of the result, and the characters `i` that have
been counted. -/
def utf8dataRangeFrom (location stop : Nat) : List UInt8 → Nat → Nat → Nat → Utf8data
  | [], s, characters, i => if i = stop then ⟨some characters, s - characters⟩ else utf8dataEmpty
  | c :: rest, s, characters, i =>
    let characters := if i = location then s else characters
    if c &&& 0xC0 = 0x80 then utf8dataRangeFrom location stop rest (s + 1) characters i
    else if i = stop then ⟨some characters, s - characters⟩
    else utf8dataRangeFrom location stop rest (s + 1) characters (i + 1)

def utf8dataRangeOfUtf32Range (ndebug : Bool) (data : List UInt8) (range : Range) : Option Utf8data :=
  if ¬ ndebug ∧ ¬ rangeIsValid range then none
  else
    let range := rangeValidateAgainstLength range (UInt64.ofNat data.length)
    if range.length = 0 then some utf8dataEmpty
    else some (utf8dataRangeFrom range.location.toNat (range.location + range.length).toNat data 0 0
      0)

def utf8Offset (text : List Char) (k : Nat) : Nat := ((text.take k).flatMap utf8EncodeChar).length

section Walk

variable {location stop : Nat}

theorem utf8dataRangeFrom_continuations (more rest : List UInt8)
    (follows : more.all utf8IsValidcontinuationcharacter = true) (s characters i : Nat) :
    ∃ characters', (i ≠ location → characters' = characters) ∧
      utf8dataRangeFrom location stop (more ++ rest) s characters i =
        utf8dataRangeFrom location stop rest (s + more.length) characters' i := by
  induction more generalizing s characters with
  | nil => exact ⟨characters, fun _ => rfl, rfl⟩
  | cons d more ih =>
    simp only [List.all_cons, Bool.and_eq_true] at follows
    obtain ⟨characters', kept, walked⟩ :=
      ih follows.2 (s + 1) (if i = location then s else characters)
    have continues : d &&& 0xC0 = 0x80 := by
      rw [utf8_masked_continuation, ← utf8IsValidcontinuationcharacter_eq]
      exact follows.1
    refine ⟨characters', fun other => by rw [kept other, if_neg other], ?_⟩
    simp only [List.cons_append, utf8dataRangeFrom, if_pos continues, walked, List.length_cons]
    rw [Nat.add_right_comm, Nat.add_assoc]

theorem utf8dataRangeFrom_character (c : Char) (rest : List UInt8) (s characters i : Nat) :
    ∃ characters', (i + 1 ≠ location → characters' = if i = location then s else characters) ∧
      utf8dataRangeFrom location stop (utf8EncodeChar c ++ rest) s characters i =
        if i = stop then ⟨some (if i = location then s else characters), s - if i = location then s
          else characters⟩
        else utf8dataRangeFrom location stop rest (s + (utf8EncodeChar c).length) characters'
          (i + 1) := by
  have shape := utf8_shape c
  generalize utf8EncodeChar c = bytes at shape ⊢
  cases shape with
  | ascii b small ascii value =>
    have lead : ¬ b &&& 0xC0 = 0x80 := by
      rw [utf8_masked_continuation]
      omega
    refine ⟨_, fun _ => rfl, ?_⟩
    simp only [List.singleton_append, utf8dataRangeFrom, if_neg lead, List.length_singleton]
  | sequence b more _ notAscii starts _ _ follows _ =>
    have lead : ¬ b &&& 0xC0 = 0x80 := by
      rw [Bool.eq_false_iff, ne_eq, utf8IsInvalidstartcharacter_eq] at starts
      rw [utf8_masked_continuation]
      omega
    obtain ⟨characters', kept, walked⟩ := @utf8dataRangeFrom_continuations location stop more rest
      follows (s + 1) (if i = location then s else characters) (i + 1)
    refine ⟨characters', kept, ?_⟩
    simp only [List.cons_append, utf8dataRangeFrom, if_neg lead, walked, List.length_cons]
    rw [Nat.add_right_comm, Nat.add_assoc]

theorem utf8Offset_succ (c : Char) (text : List Char) (k : Nat) (positive : 0 < k) :
    utf8Offset (c :: text) k = (utf8EncodeChar c).length + utf8Offset text (k - 1) := by
  obtain ⟨k, rfl⟩ := Nat.exists_eq_add_of_lt positive
  simp only [utf8Offset, Nat.zero_add, List.take_succ_cons, List.flatMap_cons, List.length_append,
    Nat.add_sub_cancel]

theorem utf8dataRangeFrom_behind (text : List Char) (s characters i : Nat) (begun : location < i)
    (open' : i ≤ stop) :
    utf8dataRangeFrom location stop (text.flatMap utf8EncodeChar) s characters i =
      if stop ≤ i + text.length then ⟨some characters, s + utf8Offset text (stop - i) - characters⟩
        else utf8dataEmpty := by
  induction text generalizing s characters i with
  | nil =>
    simp only [List.flatMap_nil, utf8dataRangeFrom, List.length_nil, utf8Offset, List.take_nil]
    by_cases last : i = stop
    · rw [if_pos last, if_pos (by omega)]
      rfl
    · rw [if_neg last, if_neg (by omega)]
  | cons c text ih =>
    obtain ⟨characters', kept, walked⟩ := @utf8dataRangeFrom_character location stop c
      (text.flatMap utf8EncodeChar) s characters i
    rw [List.flatMap_cons, walked]
    have different : i ≠ location := by omega
    simp only [if_neg different] at kept ⊢
    by_cases last : i = stop
    · rw [if_pos last, if_pos (by omega), last, Nat.sub_self]
      rfl
    · rw [if_neg last, ih _ _ (i + 1) (by omega) (by omega), kept (by omega),
        utf8Offset_succ c text _ (by omega), List.length_cons, show i + 1 + text.length =
          i + (text.length + 1) by omega,
        show stop - (i + 1) = stop - i - 1 by omega, Nat.add_assoc]

theorem utf8dataRangeFrom_before (text : List Char) (s characters i : Nat) (before : i ≤ location)
    (nonempty : location < stop) :
    utf8dataRangeFrom location stop (text.flatMap utf8EncodeChar) s characters i =
      if stop ≤ i + text.length then
        ⟨some (s + utf8Offset text (location - i)),
          utf8Offset text (stop - i) - utf8Offset text (location - i)⟩
      else utf8dataEmpty := by
  induction text generalizing s characters i with
  | nil =>
    simp only [List.flatMap_nil, utf8dataRangeFrom, List.length_nil]
    rw [if_neg (by omega), if_neg (by omega)]
  | cons c text ih =>
    obtain ⟨characters', kept, walked⟩ := @utf8dataRangeFrom_character location stop c
      (text.flatMap utf8EncodeChar) s characters i
    rw [List.flatMap_cons, walked, if_neg (by omega), List.length_cons,
      show i + (text.length + 1) = i + 1 + text.length by
        omega, utf8Offset_succ c text (stop - i) (by omega),
      show stop - i - 1 = stop - (i + 1) by omega]
    by_cases first : i = location
    · have here := kept (by omega)
      rw [if_pos first] at here
      have none : utf8Offset (c :: text) (location - i) = 0 := by simp [first, utf8Offset]
      rw [utf8dataRangeFrom_behind text _ _ (i + 1) (by omega) (by omega), here, none]
      simp only [Nat.add_assoc, Nat.add_sub_cancel_left, Nat.add_zero, Nat.sub_zero]
    · rw [ih _ _ (i + 1) (by omega), utf8Offset_succ c text (location - i) (by omega),
        show location - i - 1 = location - (i + 1) by omega, Nat.add_sub_add_left, Nat.add_assoc s]

end Walk

section Ranges

structure SpansCharacters (text : List Char) (location count : Nat) (result : Utf8data) : Prop where
  characters : result.characters = some (utf8Offset text location)
  length : result.length = (((text.drop location).take count).flatMap utf8EncodeChar).length
  bytes : ((text.flatMap utf8EncodeChar).drop (utf8Offset text location)).take result.length =
    ((text.drop location).take count).flatMap utf8EncodeChar

def rangeIsOpen (range : Range) : Prop := range.length = 0xFFFFFFFFFFFFFFFF

structure Utf8RangeRight (text : List Char) (range : Range) (result : Utf8data) : Prop where
  inside : range.stop ≤ text.length → SpansCharacters text range.start range.length.toNat result
  open' : rangeIsOpen range → range.start < text.length →
  SpansCharacters text range.start (text.length - range.start) result
  other : ¬ range.stop ≤ text.length → ¬ (rangeIsOpen range ∧ range.start < text.length) →
    result = utf8dataEmpty

variable {text : List Char} {range : Range}

theorem utf8Offset_add (text : List Char) (location count : Nat) :
    utf8Offset text (location + count) =
    utf8Offset text location + (((text.drop location).take count).flatMap utf8EncodeChar).length := by
  rw [utf8Offset, utf8Offset, List.take_add, List.flatMap_append, List.length_append]

theorem spansCharacters_offsets (text : List Char) (location stop : Nat) (ordered : location ≤ stop) :
    SpansCharacters text location (stop - location)
      ⟨some (utf8Offset text location), utf8Offset text stop - utf8Offset text location⟩ := by
  have length : utf8Offset text stop - utf8Offset text location =
      (((text.drop location).take (stop - location)).flatMap utf8EncodeChar).length := by
    have sum := utf8Offset_add text location (stop - location)
    rw [Nat.add_sub_cancel' ordered] at sum
    omega
  refine ⟨rfl, length, ?_⟩
  have split : text.flatMap utf8EncodeChar = (text.take location).flatMap utf8EncodeChar ++
      (((text.drop location).take (stop - location)).flatMap utf8EncodeChar ++
        ((text.drop location).drop (stop - location)).flatMap utf8EncodeChar) := by
    rw [← List.flatMap_append, ← List.flatMap_append, List.take_append_drop, List.take_append_drop]
  rw [length, split, utf8Offset, List.drop_left, List.take_left]

theorem ascii_iff_length (text : List Char) :
    (text.flatMap utf8EncodeChar).length = text.length ↔ ∀ c ∈ text, c.toNat < 0x80 := by
  induction text with
  | nil => simp
  | cons c text ih =>
    have least := utf8_prefixFree.length_le text
    have first := utf8EncodeChar_length c
    rw [List.flatMap_cons, List.length_append, List.length_cons, List.forall_mem_cons, ← ih]
    constructor
    · intro same
      by_cases small : c.toNat < 0x80
      · rw [if_pos small] at first
        exact ⟨small, by omega⟩
      · rw [if_neg small] at first
        split at first
        · omega
        · split at first <;> omega
    · rintro ⟨small, same⟩
      rw [if_pos small] at first
      omega

theorem utf8dataRangeFrom_text (text : List Char) (location stop : Nat) (nonempty : location < stop) :
    utf8dataRangeFrom location stop (text.flatMap utf8EncodeChar) 0 0 0 =
      if stop ≤ text.length then
        ⟨some (utf8Offset text location), utf8Offset text stop - utf8Offset text location⟩
      else utf8dataEmpty := by
  simpa using utf8dataRangeFrom_before text 0 0 0 (Nat.zero_le location) nonempty

def utf8dataRangeValidated (data : List UInt8) (range : Range) : Utf8data :=
  if range.length = 0 then utf8dataEmpty
  else utf8dataRangeFrom range.location.toNat (range.location + range.length).toNat data 0 0 0

theorem utf8dataRangeOfUtf32Range_eq (ndebug : Bool) (data : List UInt8) (range : Range) :
    utf8dataRangeOfUtf32Range ndebug data range =
      if ndebug = false ∧ rangeIsValid range = false then none
      else some (utf8dataRangeValidated data
        (rangeValidateAgainstLength range (UInt64.ofNat data.length))) := by
  have refused : (¬ ndebug = true ∧ ¬ rangeIsValid range = true) ↔
      (ndebug = false ∧ rangeIsValid range = false) := by
    simp
  simp only [utf8dataRangeOfUtf32Range, utf8dataRangeValidated, refused]
  split
  · rfl
  · split <;> rfl

theorem utf8dataRangeValidated_invalid (data : List UInt8) :
    utf8dataRangeValidated data rangeMakeInvalid = utf8dataEmpty :=
  if_pos rfl

theorem validate_closed (range : Range) (length : UInt64) (closed : ¬ rangeIsOpen range) :
    rangeValidateAgainstLength range length = if range.stop ≤ length.toNat then
      range else rangeMakeInvalid := by
  have locationBound := range.location.toNat_lt
  have lengthBound := range.length.toNat_lt
  have bound := length.toNat_lt
  have sum := UInt64.toNat_add range.location range.length
  have notAll : range.length ≠ 0xFFFFFFFFFFFFFFFF := closed
  rw [rangeValidateAgainstLength, if_neg notAll, Range.stop]
  simp only [gt_iff_lt, UInt64.lt_iff_toNat_lt]
  split <;> split <;> first | rfl | omega

theorem validate_open (range : Range) (length : UInt64) (opened : rangeIsOpen range) :
    rangeValidateAgainstLength range length =
      if length.toNat < range.start then
        rangeMakeInvalid else ⟨range.location, length - range.location⟩ := by
  have sum : range.location + (length - range.location) = length := by
    rw [UInt64.add_comm, UInt64.sub_add_cancel]
  have all : range.length = 0xFFFFFFFFFFFFFFFF := opened
  rw [rangeValidateAgainstLength, if_pos all, Range.start]
  simp only [rangeMake, sum, gt_iff_lt, UInt64.lt_iff_toNat_lt, Nat.lt_irrefl, false_or]

theorem utf8dataRangeValidated_closed (fits : (text.flatMap utf8EncodeChar).length < 2 ^ 64)
    (nonempty : range.length ≠ 0) (closed : ¬ rangeIsOpen range) :
    utf8dataRangeValidated (text.flatMap utf8EncodeChar) (rangeValidateAgainstLength range
      (UInt64.ofNat (text.flatMap utf8EncodeChar).length)) =
      if range.stop ≤ text.length then
        ⟨some (utf8Offset text range.start), utf8Offset text range.stop - utf8Offset text range.start⟩
      else utf8dataEmpty := by
  have least := utf8_prefixFree.length_le text
  have sum := UInt64.toNat_add range.location range.length
  have positive := (length_eq_zero_iff range).not.mp nonempty
  rw [validate_closed range _ closed, UInt64.toNat_ofNat_of_lt' fits]
  by_cases within : range.stop ≤ (text.flatMap utf8EncodeChar).length
  · have stop : (range.location + range.length).toNat = range.stop := by
      rw [Range.stop] at within ⊢
      omega
    rw [if_pos within, utf8dataRangeValidated, if_neg nonempty, stop]
    exact utf8dataRangeFrom_text text range.start range.stop (by
      rw [Range.start, Range.stop]
      omega)
  · rw [if_neg within, if_neg (by omega), utf8dataRangeValidated_invalid]

theorem utf8dataRangeValidated_open (fits : (text.flatMap utf8EncodeChar).length < 2 ^ 64)
    (opened : rangeIsOpen range) :
    utf8dataRangeValidated (text.flatMap utf8EncodeChar) (rangeValidateAgainstLength range
      (UInt64.ofNat (text.flatMap utf8EncodeChar).length)) =
      if (text.flatMap utf8EncodeChar).length = text.length ∧ range.start < text.length then
        ⟨some (utf8Offset text range.start),
          utf8Offset text text.length - utf8Offset text range.start⟩
      else utf8dataEmpty := by
  have least := utf8_prefixFree.length_le text
  have size := UInt64.toNat_ofNat_of_lt' fits
  rw [validate_open range _ opened, size]
  generalize UInt64.ofNat (text.flatMap utf8EncodeChar).length = length at size ⊢
  by_cases beyond : (text.flatMap utf8EncodeChar).length < range.start
  · rw [if_pos beyond, if_neg (by omega), utf8dataRangeValidated_invalid]
  · have rest : (length - range.location).toNat = length.toNat - range.start :=
      UInt64.toNat_sub_of_le _ _ (UInt64.le_iff_toNat_le.mpr (by rw [Range.start] at beyond; omega))
    have stop : range.location + (length - range.location) = length := by
      rw [UInt64.add_comm, UInt64.sub_add_cancel]
    have zero : length - range.location = 0 ↔ length.toNat - range.start = 0 := by
      rw [← UInt64.toNat_inj, rest]
      rfl
    rw [if_neg beyond, utf8dataRangeValidated]
    simp only [zero, stop]
    by_cases atEnd : length.toNat - range.start = 0
    · rw [if_pos atEnd, if_neg (by omega)]
    · rw [if_neg atEnd, size]
      have walked := utf8dataRangeFrom_text text range.start (text.flatMap utf8EncodeChar).length
        (by omega)
      rw [Range.start] at walked ⊢
      rw [walked]
      by_cases ascii : (text.flatMap utf8EncodeChar).length = text.length
      · rw [if_pos (by omega), if_pos (by rw [Range.start] at atEnd; omega), ascii]
      · rw [if_neg (by omega), if_neg (by tauto)]

/-- The range is right, but for an open range of a text with longer characters, and unless the
`assert` refuses it. -/
theorem utf8dataRangeOfUtf32Range_right_iff (ndebug : Bool) (text : List Char) (range : Range)
    (nonempty : range.length ≠ 0) (fits : (text.flatMap utf8EncodeChar).length < 2 ^ 64) :
    (∃ result, utf8dataRangeOfUtf32Range ndebug (text.flatMap utf8EncodeChar) range = some result ∧
        Utf8RangeRight text range result) ↔
      (ndebug = false → rangeIsValid range = true) ∧
        (rangeIsOpen range → range.start < text.length → ∀ c ∈ text, c.toNat < 0x80) := by
  have least := utf8_prefixFree.length_le text
  rw [utf8dataRangeOfUtf32Range_eq]
  by_cases refused : ndebug = false ∧ rangeIsValid range = false
  · rw [if_pos refused]
    simp [refused.1, refused.2]
  · have passed : ndebug = false → rangeIsValid range = true := by
      intro debug
      simpa [debug] using refused
    rw [if_neg refused, and_iff_right passed]
    simp only [Option.some_inj, exists_eq_left', ← ascii_iff_length]
    by_cases opened : rangeIsOpen range
    · have large : range.stop = range.start + (2 ^ 64 - 1) := by
        rw [Range.stop, opened]
        rfl
      rw [utf8dataRangeValidated_open fits opened]
      constructor
      · intro right _ inside
        by_contra longer
        have spans := right.open' opened inside
        rw [if_neg (by omega)] at spans
        have none := spans.characters
        contradiction
      · intro ascii
        by_cases inside : range.start < text.length
        · have spans := spansCharacters_offsets text range.start text.length (by omega)
          rw [if_pos ⟨ascii opened inside, inside⟩]
          refine ⟨fun within => ?_, fun _ _ => spans, fun _ other => absurd ⟨opened, inside⟩ other⟩
          have counts : range.length.toNat = text.length - range.start := by
            rw [Range.stop] at large within
            rw [Range.start] at large ⊢
            omega
          rwa [counts]
        · rw [if_neg (by omega)]
          exact ⟨fun within => by omega, fun _ within => absurd within inside, fun _ _ => rfl⟩
    · rw [utf8dataRangeValidated_closed fits nonempty opened]
      refine ⟨fun _ isOpen => absurd isOpen opened, fun _ => ?_⟩
      refine ⟨fun within => ?_, fun isOpen => absurd isOpen opened, fun outside _ => if_neg outside⟩
      have spans := spansCharacters_offsets text range.start range.stop
        (by rw [Range.start, Range.stop]; omega)
      rw [if_pos within]
      have counts : range.stop - range.start = range.length.toNat := by
        rw [Range.stop, Range.start]
        omega
      rwa [counts] at spans

theorem utf8dataRangeOfUtf32Range_right_iff_letter : ∃ result,
    utf8dataRangeOfUtf32Range false (['a', 'é', 'b'].flatMap utf8EncodeChar) ⟨1, 1⟩ = some result ∧
      Utf8RangeRight ['a', 'é', 'b'] ⟨1, 1⟩ result :=
  (utf8dataRangeOfUtf32Range_right_iff false ['a', 'é', 'b'] ⟨1, 1⟩ (by decide) (by decide)).mpr
    ⟨fun _ => by decide, fun opened => absurd opened (by unfold rangeIsOpen; decide)⟩

/-- All of `é`, with the length left open. -/
theorem utf8dataRangeOfUtf32Range_open :
    (¬ ∃ result, utf8dataRangeOfUtf32Range false (['é'].flatMap utf8EncodeChar) ⟨0,
      0xFFFFFFFFFFFFFFFF⟩ = some result ∧
      Utf8RangeRight ['é'] ⟨0, 0xFFFFFFFFFFFFFFFF⟩ result) ∧
    ¬ ∃ result, utf8dataRangeOfUtf32Range true (['é'].flatMap utf8EncodeChar) ⟨0,
      0xFFFFFFFFFFFFFFFF⟩ = some result ∧
      Utf8RangeRight ['é'] ⟨0, 0xFFFFFFFFFFFFFFFF⟩ result := by
  constructor
  · rintro ⟨result, computed, _⟩
    have refused : utf8dataRangeOfUtf32Range false (['é'].flatMap utf8EncodeChar) ⟨0,
        0xFFFFFFFFFFFFFFFF⟩ = none := by
      decide
    rw [refused] at computed
    contradiction
  · rintro ⟨result, computed, right⟩
    have empty : utf8dataRangeOfUtf32Range true (['é'].flatMap utf8EncodeChar) ⟨0,
      0xFFFFFFFFFFFFFFFF⟩ =
        some utf8dataEmpty := by decide
    have spans := right.open' rfl (by decide)
    obtain rfl := Option.some.inj (empty.symm.trans computed)
    have none := spans.characters
    contradiction

end Ranges

end MulleCore
