import MulleCore.Utf.UtfTexts

/-!
What the loops over UTF-8 find in one round, and `mulle_utf8_validate`.
-/

namespace MulleCore

open Library
open String (utf8EncodeChar)

section Rounds

variable {c : Char} {b : UInt8} {more rest src : List UInt8}
variable {bytes : List UInt8}

theorem utf8IsAsciicharacter_eq (b : UInt8) : utf8IsAsciicharacter b = true ↔ b.toNat < 0x80 := by
  simp [utf8IsAsciicharacter, UInt8.lt_iff_toNat_lt]

theorem utf8IsInvalidstartcharacter_eq (b : UInt8) :
    utf8IsInvalidstartcharacter b = true ↔ 0x80 ≤ b.toNat ∧ b.toNat < 0xC2 ∨ 0xF5 ≤ b.toNat := by
  simp [utf8IsInvalidstartcharacter, UInt8.lt_iff_toNat_lt, UInt8.le_iff_toNat_le]

theorem utf8IsValidcontinuationcharacter_eq (b : UInt8) :
    utf8IsValidcontinuationcharacter b = true ↔ 0x80 ≤ b.toNat ∧ b.toNat < 0xC0 := by
  simp [utf8IsValidcontinuationcharacter, UInt8.lt_iff_toNat_lt, UInt8.le_iff_toNat_le]

theorem utf8_masked_continuation (d : UInt8) : d &&& 0xC0 = 0x80 ↔ 0x80 ≤ d.toNat ∧
    d.toNat < 0xC0 := by
  have table : ∀ n < 256, UInt8.ofNat n &&& 0xC0 = 0x80 ↔ 0x80 ≤ n ∧ n < 0xC0 := by decide +kernel
  have row := table d.toNat d.toNat_lt
  rwa [UInt8.ofNat_toNat] at row

theorem utf8GetExtracharacterslength_eq (b : UInt8) :
    utf8GetExtracharacterslength b = if b.toNat < 0xE0 then 1 else if b.toNat < 0xF0 then
      2 else 3 := by
  simp [utf8GetExtracharacterslength, UInt8.lt_iff_toNat_lt]

inductive Utf8Round (c : Char) : List UInt8 → Prop where
  | ascii (b : UInt8) : b ≠ 0 → utf8IsAsciicharacter b = true → b.toNat = c.toNat → Utf8Round c [b]
  | sequence (b : UInt8) (more : List UInt8) : utf8IsAsciicharacter b = false →
      utf8IsInvalidstartcharacter b = false → utf8GetExtracharacterslength b = more.length →
      (more.length = 1 ∧ c.toNat < 0x800 ∨ more.length = 2 ∧ 0x800 ≤ c.toNat ∧ c.toNat < 0x10000 ∨
        more.length = 3 ∧ 0x10000 ≤ c.toNat) →
      more.all utf8IsValidcontinuationcharacter = true →
      (∀ rest, utf8AreValidExtracharacters (b :: (more ++ rest)) more.length = some c.toNat) →
      (∀ rest, utf8Extracharactersvalue (b :: (more ++ rest)) more.length = some (c.toNat : Int)) →
      Utf8Round c (b :: more)

theorem utf8_ne_zero (nonzero : b.toNat ≠ 0) : b ≠ 0 := by
  rintro rfl
  exact nonzero rfl

theorem utf8_starts (lower : 0xC2 ≤ b.toNat) (upper : b.toNat < 0xF5) :
    utf8IsAsciicharacter b = false ∧ utf8IsInvalidstartcharacter b = false := by
  constructor
  · rw [Bool.eq_false_iff, ne_eq, utf8IsAsciicharacter_eq]
    omega
  · rw [Bool.eq_false_iff, ne_eq, utf8IsInvalidstartcharacter_eq]
    omega

inductive Utf8Shape (c : Char) : List UInt8 → Prop where
  | ascii (b : UInt8) : c.toNat < 0x80 → utf8IsAsciicharacter b = true → b.toNat = c.toNat →
      Utf8Shape c [b]
  | sequence (b : UInt8) (more : List UInt8) : 0x80 ≤ c.toNat → utf8IsAsciicharacter b = false →
      utf8IsInvalidstartcharacter b = false → utf8GetExtracharacterslength b = more.length →
      (more.length = 1 ∧ c.toNat < 0x800 ∨ more.length = 2 ∧ 0x800 ≤ c.toNat ∧ c.toNat < 0x10000 ∨
        more.length = 3 ∧ 0x10000 ≤ c.toNat) →
      more.all utf8IsValidcontinuationcharacter = true →
      (∀ rest, utf8Extracharactersvalue (b :: (more ++ rest)) more.length = some (c.toNat : Int)) →
      Utf8Shape c (b :: more)

theorem Utf8Form.shape (form : Utf8Form c.toNat bytes) : Utf8Shape c bytes := by
  have scalar := Char.scalar c
  cases form with
  | one b small value =>
    exact .ascii b small ((utf8IsAsciicharacter_eq b).mpr (by omega)) value
  | two b d lower upper first second =>
    obtain ⟨notAscii, valid8⟩ := utf8_starts (b := b) (by omega) (by omega)
    have follows := (utf8IsValidcontinuationcharacter_eq d).mpr (by omega)
    have value : utf8Bits2 b d = c.toNat := by
      rw [utf8Bits2_eq]
      omega
    refine .sequence b [d] lower notAscii valid8 ?_ (.inl ⟨rfl, upper⟩) (by simp [follows]) ?_
    · rw [utf8GetExtracharacterslength_eq, if_pos (by omega)]
      rfl
    · intro rest
      simp only [List.length_singleton, List.cons_append, List.nil_append, utf8Extracharactersvalue,
        follows, value]
      simp [lower]
  | three b d e lower upper first second third =>
    obtain ⟨notAscii, valid8⟩ := utf8_starts (b := b) (by omega) (by omega)
    have follows := (utf8IsValidcontinuationcharacter_eq d).mpr (by omega)
    have follows' := (utf8IsValidcontinuationcharacter_eq e).mpr (by omega)
    have value : utf8Bits3 b d e = c.toNat := by
      rw [utf8Bits3_eq]
      omega
    refine .sequence b [d, e] (by omega) notAscii valid8 ?_ (.inr (.inl ⟨rfl, lower, upper⟩))
      (by simp [follows, follows']) ?_
    · rw [utf8GetExtracharacterslength_eq, if_neg (by omega), if_pos (by omega)]
      rfl
    · intro rest
      have noSurrogate : c.toNat ≥ 0x800 ∧ (c.toNat < 0xD800 ∨ c.toNat ≥ 0xE000) := by omega
      simp only [List.length_cons, List.length_nil, List.cons_append, List.nil_append,
        utf8Extracharactersvalue, follows, follows', value]
      simp [noSurrogate]
  | four b d e f lower upper first second third fourth =>
    obtain ⟨notAscii, valid8⟩ := utf8_starts (b := b) (by omega) (by omega)
    have follows := (utf8IsValidcontinuationcharacter_eq d).mpr (by omega)
    have follows' := (utf8IsValidcontinuationcharacter_eq e).mpr (by omega)
    have follows'' := (utf8IsValidcontinuationcharacter_eq f).mpr (by omega)
    have value : utf8Bits4 b d e f = c.toNat := by
      rw [utf8Bits4_eq]
      omega
    have inside : c.toNat ≥ 0x10000 ∧ c.toNat ≤ 0x10FFFF := by omega
    refine .sequence b [d, e, f] (by omega) notAscii valid8 ?_ (.inr (.inr ⟨rfl, lower⟩))
      (by simp [follows, follows', follows'']) ?_
    · rw [utf8GetExtracharacterslength_eq, if_neg (by omega), if_neg (by omega)]
      rfl
    · intro rest
      simp only [List.length_cons, List.length_nil, List.cons_append, List.nil_append,
        utf8Extracharactersvalue, follows, follows', follows'', value, if_pos inside]
      simp

theorem utf8_shape (c : Char) : Utf8Shape c (utf8EncodeChar c) := (utf8EncodeChar_form c).shape

theorem utf8AreValidExtracharacters_of_value {more : List UInt8} {src : List UInt8}
    (value : utf8Extracharactersvalue (b :: src) more.length = some (c.toNat : Int))
    (sizes : more.length = 1 ∨ more.length = 2 ∨ more.length = 3) (character : ¬ IsNoncharacter c) :
    utf8AreValidExtracharacters (b :: src) more.length = some c.toNat := by
  have valid : utf32IsInvalidcharacter c.toNat = false := by
    rw [Bool.eq_false_iff, ne_eq, utf32IsInvalidcharacter_char]
    exact character
  generalize more.length = len at value sizes ⊢
  revert value
  fun_cases utf8Extracharactersvalue (b :: src) len <;> grind [utf8AreValidExtracharacters]

theorem Utf8Form.round (form : Utf8Form c.toNat bytes) (good : IsTextCharacter c) :
    Utf8Round c bytes := by
  have shape := form.shape
  cases shape with
  | ascii b _ ascii value =>
    refine .ascii b (utf8_ne_zero ?_) ascii value
    rw [value]
    exact good.nonzero
  | sequence b more _ notAscii starts extra sizes follows value =>
    exact .sequence b more notAscii starts extra sizes follows
      (fun rest => utf8AreValidExtracharacters_of_value (value rest) (by omega) good.character) value

theorem utf8_round (good : IsTextCharacter c) : Utf8Round c (utf8EncodeChar c) :=
  (utf8EncodeChar_form c).round good

theorem utf8_begins (lower : 0x80 ≤ b.toNat) (starts : utf8IsInvalidstartcharacter b = false)
    {x : Nat} (accepted : utf8AreValidExtracharacters (b :: src) (utf8GetExtracharacterslength b) =
      some x) :
    ∃ c, IsTextCharacter c ∧ utf8EncodeChar c <+: b :: src := by
  have begin_ : ¬ (0x80 ≤ b.toNat ∧ b.toNat < 0xC2 ∨ 0xF5 ≤ b.toNat) := by
    rw [← utf8IsInvalidstartcharacter_eq, starts]
    decide
  have spelled : ∀ (bytes : List UInt8) (v : Nat), v ≠ 0 → utf32IsInvalidcharacter v = false →
      v < 0x110000 → Utf8Form v bytes → ∃ c, IsTextCharacter c ∧ utf8EncodeChar c = bytes := by
    intro bytes v nonzero valid small form
    have noSurrogate : ¬ (0xD800 ≤ v ∧ v < 0xE000) := by
      rw [← utf32IsSurrogatecharacter_eq]
      intro surrogate
      simp [utf32IsInvalidcharacter, surrogate] at valid
    obtain ⟨c, rfl⟩ := exists_char (v := v) (by omega)
    refine ⟨c, ⟨nonzero, ?_⟩, form.eq_encode⟩
    rw [← utf32IsInvalidcharacter_char, valid]
    decide
  rw [utf8GetExtracharacterslength_eq] at accepted
  split at accepted
  · cases src with
    | nil => simp [utf8AreValidExtracharacters] at accepted
    | cons d src =>
      simp only [utf8AreValidExtracharacters, utf8Bits2_eq] at accepted
      split at accepted
      · cases accepted
      · rename_i follows
        split at accepted
        · cases accepted
        · split at accepted
          · cases accepted
          · rename_i valid
            have range := (utf8IsValidcontinuationcharacter_eq d).mp (by simpa using follows)
            obtain ⟨c, good, spells⟩ := spelled [b, d] (b.toNat % 32 * 64 + d.toNat % 64) (by omega)
              (by simpa using valid) (by omega)
              (.two b d (by omega) (by omega) (by omega) (by omega))
            exact ⟨c, good, src, by rw [spells]; rfl⟩
  · split at accepted
    · rcases src with _ | ⟨d, _ | ⟨e, src⟩⟩
      · simp [utf8AreValidExtracharacters] at accepted
      · simp [utf8AreValidExtracharacters] at accepted
      · simp only [utf8AreValidExtracharacters, utf8Bits3_eq] at accepted
        split at accepted
        · cases accepted
        · rename_i follows
          split at accepted
          · cases accepted
          · rename_i follows'
            split at accepted
            · cases accepted
            · split at accepted
              · cases accepted
              · rename_i valid
                have range := (utf8IsValidcontinuationcharacter_eq d).mp (by simpa using follows)
                have range' := (utf8IsValidcontinuationcharacter_eq e).mp (by simpa using follows')
                obtain ⟨c, good, spells⟩ := spelled [b, d, e]
                  (b.toNat % 16 * 4096 + d.toNat % 64 * 64 + e.toNat % 64) (by omega)
                    (by simpa using valid) (by omega)
                  (.three b d e (by omega) (by omega) (by omega) (by omega) (by omega))
                exact ⟨c, good, src, by rw [spells]; rfl⟩
    · rcases src with _ | ⟨d, _ | ⟨e, _ | ⟨f, src⟩⟩⟩
      · simp [utf8AreValidExtracharacters] at accepted
      · simp [utf8AreValidExtracharacters] at accepted
      · simp [utf8AreValidExtracharacters] at accepted
      · simp only [utf8AreValidExtracharacters, utf8Bits4_eq] at accepted
        split at accepted
        · cases accepted
        · rename_i follows
          split at accepted
          · cases accepted
          · rename_i follows'
            split at accepted
            · cases accepted
            · rename_i follows''
              split at accepted
              · cases accepted
              · split at accepted
                · cases accepted
                · rename_i valid
                  have range := (utf8IsValidcontinuationcharacter_eq d).mp (by simpa using follows)
                  have range' := (utf8IsValidcontinuationcharacter_eq e).mp (by simpa using follows')
                  have range'' :=
                    (utf8IsValidcontinuationcharacter_eq f).mp (by simpa using follows'')
                  obtain ⟨c, good, spells⟩ := spelled [b, d, e, f]
                    (b.toNat % 8 * 262144 + d.toNat % 64 * 4096 + e.toNat % 64 * 64 + f.toNat % 64)
                      (by omega)
                    (by simpa using valid) (by omega) (.four b d e f (by omega) (by omega)
                      (by omega) (by omega) (by omega) (by omega))
                  exact ⟨c, good, src, by rw [spells]; rfl⟩

theorem utf8_stuck (stuck : Stuck utf8EncodeChar IsTextCharacter (b :: src)) (nonzero : b ≠ 0) :
    utf8IsAsciicharacter b = false ∧ (utf8IsInvalidstartcharacter b = false →
      utf8AreValidExtracharacters (b :: src) (utf8GetExtracharacterslength b) = none) := by
  have notAscii : ¬ b.toNat < 0x80 := by
    intro small
    obtain ⟨c, value⟩ := exists_char (v := b.toNat) (by omega)
    have proper : b.toNat ≠ 0 := fun zero => nonzero (UInt8.toNat_inj.mp zero)
    refine stuck.2 c ⟨by omega, ?_⟩ ⟨src, ?_⟩
    · rw [IsNoncharacter]
      omega
    · rw [(Utf8Form.one b (by omega) value.symm).eq_encode]
      rfl
  constructor
  · rw [Bool.eq_false_iff, ne_eq, utf8IsAsciicharacter_eq]
    exact notAscii
  · intro starts
    cases accepted : utf8AreValidExtracharacters (b :: src) (utf8GetExtracharacterslength b) with
    | none => rfl
    | some x =>
      obtain ⟨c, good, begins⟩ := utf8_begins (by omega) starts accepted
      exact absurd begins (stuck.2 c good)

end Rounds

section Validate

variable {src : List UInt8}
variable {fuel : Nat}

theorem utf8_nonzero {c : Char} (good : IsTextCharacter c) : ∀ b ∈ utf8EncodeChar c, b ≠ 0 := by
  have nonzero := good.nonzero
  have form := utf8EncodeChar_form c
  generalize utf8EncodeChar c = bytes at form
  intro b member
  apply utf8_ne_zero
  cases form <;> simp only [List.mem_cons, List.not_mem_nil, or_false] at member <;> grind

theorem utf8ValidateFrom_rounds : Rounds utf8EncodeChar IsTextCharacter utf8ValidateFrom
    fun index c => index + (utf8EncodeChar c).length := by
  intro fuel c rest index good
  have round := utf8_round good
  beta_reduce
  generalize utf8EncodeChar c = bytes at round ⊢
  cases round with
  | ascii b nonzero ascii _ =>
    simp only [List.cons_append, List.nil_append, utf8ValidateFrom, if_neg nonzero, ascii, if_true,
      List.length_singleton]
  | sequence b more notAscii starts extra _ _ accepted _ =>
    have nonzero : b ≠ 0 := by
      rintro rfl
      exact absurd notAscii (by decide)
    have enough : ¬ more.length > (more ++ rest).length := by simp
    simp only [List.cons_append, utf8ValidateFrom, if_neg nonzero, notAscii, starts, extra, accepted,
      if_neg enough, List.drop_left, List.length_cons, Bool.false_eq_true, if_false]

theorem utf8ValidateFrom_stuck {index : Nat} (enough : src.length ≤ fuel)
    (stuck : Stuck utf8EncodeChar IsTextCharacter src) (nonzero : ∀ later, src ≠ 0 :: later) :
    utf8ValidateFrom fuel src index = some index := by
  cases src with
  | nil => exact absurd rfl stuck.1
  | cons b src =>
    have proper : b ≠ 0 := fun zero => nonzero src (by rw [zero])
    obtain ⟨notAscii, refused⟩ := utf8_stuck stuck proper
    obtain ⟨fuel, rfl⟩ :=
      Nat.exists_eq_succ_of_ne_zero (Nat.ne_of_gt (Nat.lt_of_lt_of_le (Nat.succ_pos _) enough))
    simp only [utf8ValidateFrom, if_neg proper, notAscii, Bool.false_eq_true, if_false]
    split
    · rfl
    · rename_i starts
      split
      · rfl
      · simp only [refused (Bool.eq_false_iff.mpr starts)]

theorem utf8ValidateFrom_done (fuel index : Nat) (src : List UInt8)
    (ends : src = [] ∨ ∃ later, src = 0 :: later) : utf8ValidateFrom fuel src index = none := by
  rcases ends with rfl | ⟨later, rfl⟩
  · cases fuel <;> rfl
  · cases fuel with
    | zero => rfl
    | succ fuel => simp [utf8ValidateFrom]

theorem takeWhile_nonzero {text : List Char} (allGood : ∀ c ∈ text, IsTextCharacter c)
    (rest : List UInt8) :
    (text.flatMap utf8EncodeChar ++ rest).takeWhile (· ≠ 0) =
      text.flatMap utf8EncodeChar ++ rest.takeWhile (· ≠ 0) := by
  rw [List.takeWhile_append_of_pos]
  intro b member
  obtain ⟨c, inText, inBytes⟩ := List.mem_flatMap.mp member
  exact decide_eq_true (utf8_nonzero (allGood c inText) b inBytes)

theorem foldl_add_length (encode : Char → List UInt8) (text : List Char) (index : Nat) :
    text.foldl (fun index c => index + (encode c).length) index = index +
      (text.flatMap encode).length := by
  induction text generalizing index with
  | nil => simp
  | cons c text ih =>
    rw [List.foldl_cons, ih, List.flatMap_cons, List.length_append]
    omega

theorem stuck_takeWhile {src : List UInt8} (stuck : Stuck utf8EncodeChar IsTextCharacter src)
    (nonzero : ∀ later, src ≠ 0 :: later) :
    Stuck utf8EncodeChar IsTextCharacter (src.takeWhile (· ≠ 0)) := by
  refine ⟨?_, fun c good begins => stuck.2 c good (begins.trans (List.takeWhile_prefix _))⟩
  cases src with
  | nil => exact absurd rfl stuck.1
  | cons b src =>
    have proper : b ≠ 0 := fun zero => nonzero src (by rw [zero])
    simp [proper]

theorem utf8ValidateFrom_spec (src : List UInt8) (enough : src.length ≤ fuel) :
    (utf8ValidateFrom fuel src 0 = none ∧
        ∃ text, Spells utf8EncodeChar IsTextCharacter text (src.takeWhile (· ≠ 0))) ∨
      ∃ offset, utf8ValidateFrom fuel src 0 = some offset ∧
        Offends utf8EncodeChar IsTextCharacter (src.takeWhile (· ≠ 0)) offset := by
  obtain ⟨text, rest, allGood, rfl, ends⟩ := utf8_prefixFree.split IsTextCharacter 0 src
  have rounds := utf8_prefixFree.length_le text
  rw [List.length_append] at enough
  rw [utf8ValidateFrom_rounds.text text fuel 0 allGood (by omega), takeWhile_nonzero allGood,
    foldl_add_length, Nat.zero_add]
  by_cases zero : rest = [] ∨ ∃ later, rest = 0 :: later
  · left
    refine ⟨utf8ValidateFrom_done _ _ rest zero, text, allGood, ?_⟩
    rcases zero with rfl | ⟨later, rfl⟩ <;> simp
  · right
    obtain ⟨notEmpty, nonzero⟩ := not_or.mp zero
    have stuck := (ends.resolve_left notEmpty).resolve_left nonzero
    have proper : ∀ later, rest ≠ 0 :: later := fun later same => nonzero ⟨later, same⟩
    refine ⟨(text.flatMap utf8EncodeChar).length, ?_, text, _, allGood, rfl, rfl,
      stuck_takeWhile stuck proper⟩
    exact utf8ValidateFrom_stuck (by omega) stuck proper

theorem utf8HasLeadingBomcharacter_eq (leads : utf8HasLeadingBomcharacter src = true) :
    src = utf8EncodeChar (Char.ofNat 0xFEFF) ++ src.drop 3 := by
  match src, leads with
  | c :: d :: e :: rest, leads =>
    simp only [utf8HasLeadingBomcharacter, Bool.and_eq_true, beq_iff_eq] at leads
    obtain ⟨⟨rfl, rfl⟩, rfl⟩ := leads
    rfl

theorem utf8Validate_eq (src : List UInt8) :
    ∃ fuel, src.length ≤ fuel ∧ utf8Validate src = utf8ValidateFrom fuel src 0 := by
  rw [utf8Validate]
  split
  · rename_i leads
    refine ⟨src.length + 1, Nat.le_succ _, ?_⟩
    have split_ := utf8HasLeadingBomcharacter_eq leads
    have good : IsTextCharacter (Char.ofNat 0xFEFF) := ⟨by decide, by unfold IsNoncharacter; decide⟩
    have round := utf8ValidateFrom_rounds src.length _ (src.drop 3) 0 good
    rw [← split_] at round
    exact round.symm
  · exact ⟨src.length, le_rfl, rfl⟩

theorem utf8Validate_outcome (src : List UInt8) :
    (utf8Validate src = none ∧
        ∃ text, Spells utf8EncodeChar IsTextCharacter text (src.takeWhile (· ≠ 0))) ∨
      ∃ offset, utf8Validate src = some offset ∧
        Offends utf8EncodeChar IsTextCharacter (src.takeWhile (· ≠ 0)) offset := by
  obtain ⟨fuel, enough, same⟩ := utf8Validate_eq src
  rw [same]
  exact utf8ValidateFrom_spec src enough

/-- `mulle_utf8_validate` finds the first sequence before the first zero that does not spell a
character of a text. -/
theorem utf8Validate_spec (src : List UInt8) :
    (utf8Validate src = none ↔
        ∃ text, Spells utf8EncodeChar IsTextCharacter text (src.takeWhile (· ≠ 0))) ∧
      ∀ offset, utf8Validate src = some offset →
        Offends utf8EncodeChar IsTextCharacter (src.takeWhile (· ≠ 0)) offset := by
  rcases utf8Validate_outcome src with ⟨accepted, spelled⟩ | ⟨offset, refused, offends⟩
  · refine ⟨iff_of_true accepted spelled, fun offset refused => ?_⟩
    rw [accepted] at refused
    cases refused
  · refine ⟨iff_of_false (by simp [refused]) ?_, fun other same => ?_⟩
    · rintro ⟨text, spells⟩
      exact utf8_prefixFree.not_spells offends text spells
    · rw [refused] at same
      cases same
      exact offends

end Validate

end MulleCore
