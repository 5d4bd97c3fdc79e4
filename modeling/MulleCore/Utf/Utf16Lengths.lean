import MulleCore.Utf.Utf8Lengths

/-!
The lengths of converted UTF-16, as the length functions and the information function
count them.
-/

namespace MulleCore

open Library
open String (utf8EncodeChar)

section Utf16

variable {text : List Char} {a : UInt16}

def utf16InformationCount (acc : Nat × UtfInformation) (c : Char) : Nat × UtfInformation :=
  let (index, info) := acc
  if c.toNat < 0x80 then (index + 1,
    { info with isChar5 := info.isChar5 && utfIsChar5character c.toNat })
  else if c.toNat < 0x10000 then
    (index + 1, { info with
      isAscii := false
      utf8len := info.utf8len + 1 + if c.toNat ≥ 0x0800 then 1 else 0
      isUtf15 := info.isUtf15 && ! decide (c.toNat ≥ 0x8000) })
  else
    (index + 2, { info with
      isAscii := false
      utf8len := info.utf8len + 1 + 1
      isUtf15 := false
      utf32len := info.utf32len - 1 })

theorem utf16InformationFrom_rounds : Rounds utf16EncodeChar IsLooseCharacter
    (fun fuel src acc => utf16InformationFrom fuel src acc.1 acc.2) utf16InformationCount := by
  rintro fuel c rest ⟨index, info⟩ good
  have round := utf16_round good
  beta_reduce
  simp only [utf16InformationCount]
  generalize utf16EncodeChar c = units at round ⊢
  cases round with
  | one a nonzero small value noSurrogate _ valid =>
    rw [Bool.eq_false_iff, ne_eq, utf32IsSurrogatecharacter_eq] at noSurrogate
    have notBetween : ¬ (a ≥ 0xD800 ∧ a < 0xE000) := by
      simpa [UInt16.le_iff_toNat_le, UInt16.lt_iff_toNat_lt] using noSurrogate
    have above : ∀ bound : UInt16, a ≥ bound ↔ c.toNat ≥ bound.toNat := by
      intro bound
      rw [ge_iff_le, UInt16.le_iff_toNat_le, value]
    by_cases ascii : c.toNat < 0x80
    · have isAscii : utf16IsAsciicharacter a = true := by
        simpa [utf16IsAsciicharacter, UInt16.lt_iff_toNat_lt, value] using ascii
      simp only [List.cons_append, List.nil_append, utf16InformationFrom, if_neg nonzero,
        isAscii, if_true, if_pos ascii, value]
    · have notAscii : utf16IsAsciicharacter a = false := by
        simpa [utf16IsAsciicharacter, UInt16.lt_iff_toNat_lt, value] using ascii
      simp only [List.cons_append, List.nil_append, utf16InformationFrom, if_neg nonzero, notAscii,
        if_neg notBetween, valid, Bool.false_eq_true, if_false, if_neg ascii, if_pos small]
      simp only [above, UInt16.reduceToNat]
  | two a d nonzero large high low _ _ =>
    have notAscii : utf16IsAsciicharacter a = false := by
      simp only [utf16IsAsciicharacter, UInt16.lt_iff_toNat_lt, decide_eq_false_iff_not,
        UInt16.reduceToNat]
      omega
    have between : a ≥ 0xD800 ∧ a < 0xE000 := by
      simp only [ge_iff_le, UInt16.le_iff_toNat_le, UInt16.lt_iff_toNat_lt, UInt16.reduceToNat]
      omega
    have above : a ≥ 0x0800 ∧ a ≥ 0x8000 := by
      simp only [ge_iff_le, UInt16.le_iff_toNat_le, UInt16.reduceToNat]
      omega
    have valid : utf16IsInvalidChar d = false := by
      rw [Bool.eq_false_iff, ne_eq, utf16IsInvalidChar_eq]
      omega
    have isHigh := (utf32IsHighsurrogatecharacter_eq _).mpr high
    have isLow := (utf32IsLowsurrogatecharacter_eq _).mpr low
    have notAscii' : ¬ c.toNat < 0x80 := by omega
    have notSmall : ¬ c.toNat < 0x10000 := by omega
    simp [utf16InformationFrom, nonzero, notAscii, between, above, isHigh, isLow, valid,
      notAscii', notSmall]

theorem utf16InformationFrom_stuck (fuel : Nat) (src : List UInt16) (acc : Nat × UtfInformation)
    (enough : src.length ≤ fuel) (stuck : Stuck utf16EncodeChar IsLooseCharacter src)
    (nonzero : ∀ a ∈ src, a ≠ 0) :
    ∃ index, utf16InformationFrom fuel src acc.1 acc.2 = .error index := by
  cases src with
  | nil => exact absurd rfl stuck.1
  | cons a src =>
    have proper := nonzero a List.mem_cons_self
    rw [List.length_cons] at enough
    obtain ⟨fuel, rfl⟩ : ∃ less, fuel = less + 1 := ⟨fuel - 1, by omega⟩
    simp only [utf16InformationFrom, if_neg proper]
    by_cases single : ¬ (0xD800 ≤ a.toNat ∧ a.toNat < 0xE000) ∧
      ¬ (0xFFFE ≤ a.toNat ∨ 0xFDD0 ≤ a.toNat ∧ a.toNat ≤ 0xFDEF)
    · obtain ⟨c, good, begins⟩ := utf16_begins_one src proper single.1 single.2
      exact absurd begins (stuck.2 c good.loose)
    have notAscii : utf16IsAsciicharacter a = false := by
      simp only [utf16IsAsciicharacter, UInt16.lt_iff_toNat_lt, decide_eq_false_iff_not,
        UInt16.reduceToNat]
      omega
    simp only [notAscii, Bool.false_eq_true, if_false]
    split
    · by_cases high : utf32IsHighsurrogatecharacter a.toNat = true
      · cases src with
        | nil => simp [high]
        | cons d src =>
          by_cases low : utf32IsLowsurrogatecharacter d.toNat = true
          · obtain ⟨c, good, begins, _⟩ := utf16_begins_two src
              ((utf32IsHighsurrogatecharacter_eq _).mp high)
                ((utf32IsLowsurrogatecharacter_eq _).mp low)
            exact absurd begins (stuck.2 c good)
          · simp [high, low]
      · simp [high]
    · rename_i noSurrogate
      have invalid : utf16IsInvalidChar a = true := by
        rw [utf16IsInvalidChar_eq]
        simp only [ge_iff_le, UInt16.le_iff_toNat_le, UInt16.lt_iff_toNat_lt,
          UInt16.reduceToNat] at noSurrogate
        omega
      simp [invalid]

def utf16Utf8lengthCount (size : Int) (c : Char) : Int :=
  if c.toNat < 0x80 then size
  else if c.toNat < 0x0800 then size + 1
  else if c.toNat < 0x10000 then size + 2
  else size + (-1 + 3)

theorem utf16Utf8lengthFrom_rounds :
    Rounds utf16EncodeChar IsLooseCharacter utf16Utf8lengthFrom utf16Utf8lengthCount := by
  intro fuel c rest size good
  have round := utf16_round good
  rw [utf16Utf8lengthCount]
  generalize utf16EncodeChar c = units at round ⊢
  cases round with
  | one a _ small value noSurrogate _ _ =>
    have below : ∀ bound : UInt16, a < bound ↔ c.toNat < bound.toNat := by
      intro bound
      rw [UInt16.lt_iff_toNat_lt, value]
    simp only [List.cons_append, List.nil_append, utf16Utf8lengthFrom, noSurrogate, below,
      UInt16.reduceToNat, Bool.not_false, if_true, if_pos small]
    split
    · rfl
    · split <;> rfl
  | two a d _ large high _ _ _ =>
    have below : ¬ a < 0x80 ∧ ¬ a < 0x0800 := by
      simp only [UInt16.lt_iff_toNat_lt, UInt16.reduceToNat]
      omega
    have surrogate := (utf32IsSurrogatecharacter_eq a.toNat).mpr (by omega)
    rw [if_neg (by omega), if_neg (by omega), if_neg (by omega)]
    simp only [List.cons_append, List.nil_append, utf16Utf8lengthFrom, if_neg below.1,
      if_neg below.2, surrogate, Bool.not_true, Bool.false_eq_true, if_false]

def utf16Utf32lengthCount (len : Int) (c : Char) : Int := if c.toNat < 0x10000 then len else len - 1

theorem utf16Utf32lengthFrom_rounds :
    Rounds utf16EncodeChar IsLooseCharacter utf16Utf32lengthFrom utf16Utf32lengthCount := by
  intro fuel c rest len good
  have round := utf16_round good
  rw [utf16Utf32lengthCount]
  generalize utf16EncodeChar c = units at round ⊢
  cases round with
  | one a _ small _ _ notHigh _ =>
    simp only [List.cons_append, List.nil_append, utf16Utf32lengthFrom, notHigh, Bool.not_false,
      if_true, if_pos small]
  | two a d _ large high low _ _ =>
    have isHigh := (utf32IsHighsurrogatecharacter_eq _).mpr high
    have isLow := (utf32IsLowsurrogatecharacter_eq _).mpr low
    rw [if_neg (by omega)]
    simp only [List.cons_append, List.nil_append, utf16Utf32lengthFrom, isHigh, isLow, Bool.not_true,
      Bool.false_eq_true, if_false, if_true]

theorem utf16Utf8length_text (allGood : ∀ c ∈ text, IsLooseCharacter c) :
    utf16Utf8length (text.flatMap utf16EncodeChar) = (text.flatMap utf8EncodeChar).length := by
  refine utf16Utf8lengthFrom_rounds.length utf16_prefixFree id (fun fuel len => ?_)
    (fun acc c => ?_) allGood
  · cases fuel <;> rfl
  · rw [utf16Utf8lengthCount, utf8EncodeChar_length, utf16EncodeChar_length]
    grind

theorem utf16Utf32length_text (allGood : ∀ c ∈ text, IsLooseCharacter c) :
    utf16Utf32length (text.flatMap utf16EncodeChar) =
      some ((text.flatMap utf32EncodeChar).length : Int) := by
  refine utf16Utf32lengthFrom_rounds.length utf16_prefixFree some (fun fuel len => ?_)
    (fun acc c => ?_) allGood
  · cases fuel <;> rfl
  · rw [utf16Utf32lengthCount, utf32EncodeChar_length, utf16EncodeChar_length]
    grind

theorem utf16InformationCount_counts (text : List Char) (start : Nat) (info : UtfInformation)
    {after : Nat × UtfInformation}
    (counted : text.foldl utf16InformationCount (start, info) = after) :
    (after.1 : Int) = start + (text.flatMap utf16EncodeChar).length ∧
      after.2.utf8len + (text.flatMap utf16EncodeChar).length =
        info.utf8len + (text.flatMap utf8EncodeChar).length ∧
      after.2.utf32len + (text.flatMap utf16EncodeChar).length =
        info.utf32len + (text.flatMap utf32EncodeChar).length ∧
      after.2.start = info.start ∧ after.2.utf16len = info.utf16len := by
  subst counted
  have indexed := foldl_measure (fun acc => (acc.1 : Int)) utf16InformationCount
    (fun _ => ([] : List UInt8)) utf16EncodeChar text (start, info) ?_
  have bytes := foldl_measure (fun acc => acc.2.utf8len) utf16InformationCount utf16EncodeChar
    utf8EncodeChar text (start, info) ?_
  have characters := foldl_measure (fun acc => acc.2.utf32len) utf16InformationCount utf16EncodeChar
    utf32EncodeChar text (start, info) ?_
  · have empty : (text.flatMap fun _ => ([] : List UInt8)).length = 0 := by simp
    rw [empty] at indexed
    refine ⟨by simpa using indexed, bytes, characters, ?_, ?_⟩
    · refine foldl_keeps (fun acc => acc.2.start) (fun acc c => ?_) text (start, info)
      rw [utf16InformationCount]
      grind
    · refine foldl_keeps (fun acc => acc.2.utf16len) (fun acc c => ?_) text (start, info)
      rw [utf16InformationCount]
      grind
  · intro acc c _
    rw [utf16InformationCount, utf16EncodeChar_length, utf32EncodeChar_length]
    grind
  · intro acc c _
    rw [utf16InformationCount, utf8EncodeChar_length, utf16EncodeChar_length]
    grind
  · intro acc c _
    rw [utf16InformationCount, utf16EncodeChar_length]
    grind

def utf16Start : List UInt16 → Nat
  | [] => 0
  | c :: _ => if utf32IsBomcharacter c.toNat then 1 else 0

theorem utf16Information_outcome (src : List UInt16) (nonzero : ∀ a ∈ src, a ≠ 0) :
    (∃ text info, Spells utf16EncodeChar IsLooseCharacter text (src.drop (utf16Start src)) ∧
        utf16Information src = (0, info) ∧ InformationCounts text (utf16Start src) info) ∨
      (utf16Information src).1 = -1 ∧
        ¬ ∃ text, Spells utf16EncodeChar IsLooseCharacter text (src.drop (utf16Start src)) := by
  cases src with
  | nil => exact .inl ⟨[], utfInformationInit, ⟨by simp, rfl⟩, rfl, rfl, rfl, rfl, rfl⟩
  | cons c src =>
    have outcome := utf16InformationFrom_rounds.outcome utf16_prefixFree 0 (fun acc => .ok acc)
      (fun result => ∃ index, result = .error index) (fun fuel acc => by cases fuel <;> rfl)
      utf16InformationFrom_stuck (c :: src).length ((c :: src).drop (utf16Start (c :: src)))
      (by rw [List.length_drop]; omega) (fun b member => nonzero b (List.mem_of_mem_drop member))
      (utf16Start (c :: src), { utfInformationInit with
        hasBom := utf32IsBomcharacter c.toNat, start := some (utf16Start (c :: src)) })
    beta_reduce at outcome
    rcases outcome with ⟨text, spells, accepted⟩ | ⟨⟨index, refused⟩, unspelled⟩
    · left
      generalize counted : text.foldl utf16InformationCount _ = after at accepted
      obtain ⟨index, info⟩ := after
      obtain ⟨indexed, bytes, characters, begins, units⟩ :=
        utf16InformationCount_counts text _ _ counted
      dsimp only [utfInformationInit] at indexed bytes characters begins units
      have length := congrArg List.length spells.2
      refine ⟨text, { info with
        utf8len := info.utf8len + (index - utf16Start (c :: src))
        utf16len := info.utf16len + (index - utf16Start (c :: src))
        utf32len := info.utf32len + (index - utf16Start (c :: src))
        isChar5 := info.isChar5 && info.isAscii }, spells, ?_, begins, ?_, ?_, ?_⟩
      · rw [utf16Start] at accepted
        simp only [utf16Information, accepted]
        rfl
      · dsimp only
        omega
      · dsimp only
        omega
      · dsimp only
        omega
    · right
      refine ⟨?_, unspelled⟩
      rw [utf16Start] at refused
      simp only [utf16Information, refused]

end Utf16

/-!
The lengths of converted UTF-32, as the length functions and the information function
count them.
-/

section Utf32

variable {text : List Char}

def utf32InformationCount (acc : Nat × UtfInformation) (c : Char) : Nat × UtfInformation :=
  let (index, info) := acc
  if c.toNat < 0x80 then (index + 1,
    { info with isChar5 := info.isChar5 && utfIsChar5character c.toNat })
  else
    let utf8len := info.utf8len + 1 + if c.toNat ≥ 0x0800 then 1 else 0
    (index + 1, { info with
      isAscii := false
      isUtf15 := info.isUtf15 && ! decide (c.toNat ≥ 0x8000)
      utf8len := if c.toNat ≥ 0x10000 then utf8len + 1 else utf8len
      utf16len := if c.toNat ≥ 0x10000 then info.utf16len + 1 else info.utf16len })

theorem utf32IsAsciicharacter_eq (c : Int32) :
    utf32IsAsciicharacter c = true ↔ 0 ≤ c.toInt ∧ c.toInt < 0x80 := by
  have lower := c.le_toInt
  have upper := c.toInt_lt
  rw [utf32IsAsciicharacter, decide_eq_true_iff]
  omega

theorem utf32InformationFrom_rounds : Rounds utf32EncodeChar IsTextCharacter
    (fun _ src acc => utf32InformationFrom src acc.1 acc.2) utf32InformationCount := by
  rintro fuel c rest ⟨index, info⟩ good
  have proper := utf32_ne_zero good.nonzero
  obtain ⟨valid, _, range⟩ := utf32_valid good
  have value := utf32_value c
  have ascii := utf32IsAsciicharacter_eq (Int32.ofNat c.toNat)
  have atLeast : ∀ bound : Nat, (c.toNat : Int) ≥ bound ↔ c.toNat ≥ bound := fun bound => Int.ofNat_le
  rw [value] at ascii
  beta_reduce
  simp only [utf32EncodeChar, List.cons_append, List.nil_append, utf32InformationFrom,
    utf32InformationCount, value, if_neg proper, valid, if_neg range, Bool.false_eq_true, if_false,
    Int.toNat_natCast]
  by_cases small : c.toNat < 0x80
  · rw [if_pos small, if_pos (ascii.mpr (by omega))]
  · rw [if_neg small, if_neg (fun isAscii => small (by have := ascii.mp isAscii; omega))]
    simp only [show (0x0800 : Int) = (0x0800 : Nat) from rfl, show (0x8000 : Int) =
      (0x8000 : Nat) from rfl,
      show (0x10000 : Int) = (0x10000 : Nat) from rfl, atLeast]

theorem utf32InformationFrom_stuck (src : List Int32) (acc : Nat × UtfInformation)
    (stuck : Stuck utf32EncodeChar IsTextCharacter src) (nonzero : ∀ a ∈ src, a ≠ 0) :
    ∃ index, utf32InformationFrom src acc.1 acc.2 = .error index := by
  cases src with
  | nil => exact absurd rfl stuck.1
  | cons a src =>
    have proper := nonzero a List.mem_cons_self
    have refused : ¬ (a.toInt < 0 ∨ a.toInt > utf32Max) → utf32IsInvalidcharacter a.toInt = true := by
      intro range
      by_contra valid
      obtain ⟨c, good, unit⟩ := utf32_begins range proper (Bool.eq_false_iff.mpr valid)
      exact stuck.2 c good ⟨src, by rw [utf32EncodeChar, unit]; rfl⟩
    have notAscii : utf32IsAsciicharacter a = false := by
      rw [Bool.eq_false_iff, ne_eq, utf32IsAsciicharacter_eq]
      rintro ⟨lower, upper⟩
      have invalid := refused (by rw [utf32Max]; omega)
      rw [utf32IsInvalidcharacter, utf32IsSurrogatecharacter, utf32IsNoncharacter] at invalid
      grind
    refine ⟨acc.1, ?_⟩
    simp only [utf32InformationFrom, notAscii, Bool.false_eq_true, if_false]
    split
    · rfl
    · rename_i range
      rw [refused range]
      rfl

def utf32MoreCount (longer : Nat → Nat) (size : Int) (c : Char) : Int := size + longer c.toNat

theorem utf32LengthFrom_rounds {more : Nat → Option Int} (longer : Nat → Nat)
    (agrees : ∀ c : Char, more c.toNat = some (longer c.toNat : Int)) :
    Rounds utf32EncodeChar IsTextCharacter (fun _ src size => utf32LengthFrom more src size)
      (utf32MoreCount longer) := by
  intro fuel c rest size good
  have scalar := Char.scalar c
  have unsigned : ((c.toNat : Int) % 2 ^ 32).toNat = c.toNat := by omega
  simp only [utf32EncodeChar, List.cons_append, List.nil_append, utf32LengthFrom, utf32_value,
    unsigned, agrees, utf32MoreCount]
  rfl

def utf32Utf8Longer (v : Nat) : Nat :=
  if v < 0x80 then 0 else if v < 0x800 then 1 else if v < 0x10000 then 2 else 3

def utf32Utf16Longer (v : Nat) : Nat := if v < 0x10000 then 0 else 1

theorem utf32Utf8More_char (c : Char) :
    utf32Utf8More c.toNat = some (utf32Utf8Longer c.toNat : Int) := by
  have scalar := Char.scalar c
  have noSurrogate : utf32IsSurrogatecharacter c.toNat = false := by
    rw [Bool.eq_false_iff, ne_eq, utf32IsSurrogatecharacter_eq]
    omega
  rw [utf32Utf8More, utf32Utf8Longer, noSurrogate, utf32Max]
  grind

theorem utf32Utf16More_char (c : Char) :
    utf32Utf16More c.toNat = some (utf32Utf16Longer c.toNat : Int) := by
  have scalar := Char.scalar c
  rw [utf32Utf16More, utf32Utf16Longer, utf32Max]
  grind

theorem utf32Utf8length_text (allGood : ∀ c ∈ text, IsTextCharacter c) :
    utf32Utf8length (text.flatMap utf32EncodeChar) =
      some ((text.flatMap utf8EncodeChar).length : Int) := by
  refine (utf32LengthFrom_rounds utf32Utf8Longer utf32Utf8More_char).length utf32_prefixFree some
    (fun _ _ => rfl) (fun acc c => ?_) allGood
  rw [utf32MoreCount, utf32Utf8Longer, utf8EncodeChar_length, utf32EncodeChar_length]
  grind

theorem utf32Utf16length_text (allGood : ∀ c ∈ text, IsTextCharacter c) :
    utf32Utf16length (text.flatMap utf32EncodeChar) =
      some ((text.flatMap utf16EncodeChar).length : Int) := by
  refine (utf32LengthFrom_rounds utf32Utf16Longer utf32Utf16More_char).length utf32_prefixFree some
    (fun _ _ => rfl) (fun acc c => ?_) allGood
  rw [utf32MoreCount, utf32Utf16Longer, utf16EncodeChar_length, utf32EncodeChar_length]
  grind

theorem utf32InformationCount_counts (text : List Char) (start : Nat) (info : UtfInformation)
    {after : Nat × UtfInformation}
    (counted : text.foldl utf32InformationCount (start, info) = after) :
    (after.1 : Int) = start + (text.flatMap utf32EncodeChar).length ∧
      after.2.utf8len + (text.flatMap utf32EncodeChar).length =
        info.utf8len + (text.flatMap utf8EncodeChar).length ∧
      after.2.utf16len + (text.flatMap utf32EncodeChar).length =
        info.utf16len + (text.flatMap utf16EncodeChar).length ∧
      after.2.start = info.start ∧ after.2.utf32len = info.utf32len := by
  subst counted
  have indexed := foldl_measure (fun acc => (acc.1 : Int)) utf32InformationCount
    (fun _ => ([] : List UInt8)) utf32EncodeChar text (start, info) ?_
  have bytes := foldl_measure (fun acc => acc.2.utf8len) utf32InformationCount utf32EncodeChar
    utf8EncodeChar text (start, info) ?_
  have units := foldl_measure (fun acc => acc.2.utf16len) utf32InformationCount utf32EncodeChar
    utf16EncodeChar text (start, info) ?_
  · have empty : (text.flatMap fun _ => ([] : List UInt8)).length = 0 := by simp
    rw [empty] at indexed
    refine ⟨by simpa using indexed, bytes, units, ?_, ?_⟩
    · refine foldl_keeps (fun acc => acc.2.start) (fun acc c => ?_) text (start, info)
      rw [utf32InformationCount]
      grind
    · refine foldl_keeps (fun acc => acc.2.utf32len) (fun acc c => ?_) text (start, info)
      rw [utf32InformationCount]
      grind
  · intro acc c _
    rw [utf32InformationCount, utf16EncodeChar_length, utf32EncodeChar_length]
    grind
  · intro acc c _
    rw [utf32InformationCount, utf8EncodeChar_length, utf32EncodeChar_length]
    grind
  · intro acc c _
    rw [utf32InformationCount, utf32EncodeChar_length]
    grind

def utf32Start : List Int32 → Nat
  | [] => 0
  | c :: _ => if utf32IsBomcharacter c.toInt then 1 else 0

theorem utf32Information_outcome (src : List Int32) (nonzero : ∀ a ∈ src, a ≠ 0) :
    (∃ text info, Spells utf32EncodeChar IsTextCharacter text (src.drop (utf32Start src)) ∧
        utf32Information src = (0, info) ∧ InformationCounts text (utf32Start src) info) ∨
      (utf32Information src).1 = -1 ∧
        ¬ ∃ text, Spells utf32EncodeChar IsTextCharacter text (src.drop (utf32Start src)) := by
  cases src with
  | nil => exact .inl ⟨[], utfInformationInit, ⟨by simp, rfl⟩, rfl, rfl, rfl, rfl, rfl⟩
  | cons c src =>
    have outcome := utf32InformationFrom_rounds.outcome utf32_prefixFree 0 (fun acc => .ok acc)
      (fun result => ∃ index, result = .error index) (fun fuel acc => rfl)
      (fun _ src acc _ => utf32InformationFrom_stuck src acc)
        ((c :: src).drop (utf32Start (c :: src))).length _
      le_rfl (fun b member => nonzero b (List.mem_of_mem_drop member))
      (utf32Start (c :: src), { utfInformationInit with
        hasBom := utf32IsBomcharacter c.toInt, start := some (utf32Start (c :: src)) })
    beta_reduce at outcome
    rcases outcome with ⟨text, spells, accepted⟩ | ⟨⟨index, refused⟩, unspelled⟩
    · left
      generalize counted : text.foldl utf32InformationCount _ = after at accepted
      obtain ⟨index, info⟩ := after
      obtain ⟨indexed, bytes, units, begins, characters⟩ :=
        utf32InformationCount_counts text _ _ counted
      dsimp only [utfInformationInit] at indexed bytes characters begins units
      have length := congrArg List.length spells.2
      refine ⟨text, { info with
        utf8len := info.utf8len + (index - utf32Start (c :: src))
        utf16len := info.utf16len + (index - utf32Start (c :: src))
        utf32len := info.utf32len + (index - utf32Start (c :: src))
        isChar5 := info.isChar5 && info.isAscii }, spells, ?_, begins, ?_, ?_, ?_⟩
      · rw [utf32Start] at accepted
        simp only [utf32Information, accepted]
        rfl
      · dsimp only
        omega
      · dsimp only
        omega
      · dsimp only
        omega
    · right
      refine ⟨?_, unspelled⟩
      rw [utf32Start] at refused
      simp only [utf32Information, refused]

end Utf32

end MulleCore
