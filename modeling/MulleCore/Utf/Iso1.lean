import MulleCore.Utf.Utf8Rounds

/-!
`_mulle_iso1_convert_to_utf8` and `_mulle_utf8_convert_to_iso1` of `mulle-utf8.c`.
-/

namespace MulleCore

open Library
open String (utf8EncodeChar)

def iso1ConvertToUtf8 : List UInt8 → List UInt8
  | [] => []
  | c :: iso1 =>
    if c < 0x80 then c :: iso1ConvertToUtf8 iso1
    else ((0xC0 : UInt8) ||| c >>> 6) :: ((0x80 : UInt8) ||| c &&& 0x3F) :: iso1ConvertToUtf8 iso1

def iso1Unknown (unknown : Int) (rest : Option (List UInt8)) : Option (List UInt8) :=
  if unknown < 0 then none
  else if unknown = 0 then rest
  else rest.map (UInt8.ofInt unknown :: ·)

def utf8ConvertToIso1From (unknown : Int) : Nat → List UInt8 → Option (List UInt8)
  | fuel + 1, c :: src =>
    if c < 0x80 then (utf8ConvertToIso1From unknown fuel src).map (c :: ·)
    else if c &&& 0xFC = 0xC0 then
      match src with
      | [] => iso1Unknown unknown (utf8ConvertToIso1From unknown fuel [])
      | d :: rest =>
        if d &&& 0xC0 = 0x80 then
          (utf8ConvertToIso1From unknown fuel rest).map (((c &&& 0x3) <<< 6 ||| d &&& 0x3F) :: ·)
        -- `d` is put back
        else iso1Unknown unknown (utf8ConvertToIso1From unknown fuel (d :: rest))
    else
      iso1Unknown unknown (utf8ConvertToIso1From unknown fuel
        (src.dropWhile fun d => d &&& 0xC0 == 0x80))
  | _, _ => some []

def utf8ConvertToIso1 (src : List UInt8) (unknown : Int) : Option (List UInt8) :=
  utf8ConvertToIso1From unknown src.length src

section Bytes

variable {c : Char} {b : UInt8}

theorem iso1_tables :
    (∀ n < 256, UInt8.ofNat n &&& 0xFC = 0xC0 ↔ 0xC0 ≤ n ∧ n < 0xC4) ∧
    ∀ n < 256, 0x80 ≤ n → ((0xC0 : UInt8) ||| UInt8.ofNat n >>> 6).toNat = 0xC0 + n / 64 ∧
      ((0x80 : UInt8) ||| UInt8.ofNat n &&& 0x3F).toNat = 0x80 + n % 64 ∧
      ((((0xC0 : UInt8) ||| UInt8.ofNat n >>> 6) &&& 0x3) <<< 6) |||
        (((0x80 : UInt8) ||| UInt8.ofNat n &&& 0x3F) &&& 0x3F) =
        UInt8.ofNat n := by
  decide +kernel

theorem iso1_lead (b : UInt8) : b &&& 0xFC = 0xC0 ↔ 0xC0 ≤ b.toNat ∧ b.toNat < 0xC4 := by
  have row := iso1_tables.1 b.toNat b.toNat_lt
  rwa [UInt8.ofNat_toNat] at row

theorem iso1_value (c : UInt8) (high : 0x80 ≤ c.toNat) :
    ((0xC0 : UInt8) ||| c >>> 6).toNat = 0xC0 + c.toNat / 64 ∧
    ((0x80 : UInt8) ||| c &&& 0x3F).toNat = 0x80 + c.toNat % 64 ∧
      ((((0xC0 : UInt8) ||| c >>> 6) &&& 0x3) <<< 6) |||
        (((0x80 : UInt8) ||| c &&& 0x3F) &&& 0x3F) = c := by
  have row := iso1_tables.2 c.toNat c.toNat_lt high
  rwa [UInt8.ofNat_toNat] at row

theorem utf8EncodeChar_ascii (small : c.toNat < 0x80) (value : b.toNat = c.toNat) :
    utf8EncodeChar c = [b] := (Utf8Form.one b small value).eq_encode

theorem utf8EncodeChar_iso1 (high : 0x80 ≤ c.toNat) (value : b.toNat = c.toNat) :
    utf8EncodeChar c = [(0xC0 : UInt8) ||| b >>> 6, (0x80 : UInt8) ||| b &&& 0x3F] := by
  have bytes := iso1_value b (by omega)
  have bound := b.toNat_lt
  exact (Utf8Form.two _ _ high (by omega) (by omega) (by omega)).eq_encode

theorem utf8_head_continues (text : List Char) :
    (text.flatMap utf8EncodeChar).dropWhile (fun d => d &&& 0xC0 == 0x80) =
      text.flatMap utf8EncodeChar := by
  cases text with
  | nil => rfl
  | cons c text =>
    have form := utf8EncodeChar_form c
    rw [List.flatMap_cons]
    generalize utf8EncodeChar c = bytes at form ⊢
    cases form <;>
      · apply List.dropWhile_cons_of_neg
        rw [beq_iff_eq, utf8_masked_continuation]
        omega

end Bytes

section Texts

variable {unknown : Int}

def iso1Bytes (unknown : Int) (c : Char) : List UInt8 :=
  if c.toNat ≤ 0xFF then [UInt8.ofNat c.toNat] else if unknown = 0 then [] else [UInt8.ofInt unknown]

theorem utf8ConvertToIso1From_char (unknown : Int) (fuel : Nat) (c : Char) (text : List Char) :
    utf8ConvertToIso1From unknown (fuel + 1) (utf8EncodeChar c ++ text.flatMap utf8EncodeChar) =
      if c.toNat ≤ 0xFF then
        (utf8ConvertToIso1From unknown fuel (text.flatMap utf8EncodeChar)).map
    (UInt8.ofNat c.toNat :: ·)
      else iso1Unknown unknown (utf8ConvertToIso1From unknown fuel
        (text.flatMap utf8EncodeChar)) := by
  rcases Nat.lt_or_ge c.toNat 0x80 with ascii | high
  · have value : (UInt8.ofNat c.toNat).toNat = c.toNat := toNat_ofNat8 (by omega)
    have small : UInt8.ofNat c.toNat < 0x80 := by
      rw [UInt8.lt_iff_toNat_lt, value]
      exact ascii
    rw [utf8EncodeChar_ascii ascii value, if_pos (by omega)]
    simp only [List.singleton_append, utf8ConvertToIso1From, if_pos small]
  · rcases Nat.lt_or_ge 0xFF c.toNat with unknowable | known
    · rw [if_neg (by omega)]
      have shape := utf8_shape c
      have form := utf8EncodeChar_form c
      generalize utf8EncodeChar c = bytes at shape form ⊢
      cases shape with
      | ascii b small ascii value => omega
      | sequence b more _ notAscii starts extra sizes follows _ =>
        have notSmall : ¬ b < 0x80 := by simpa [utf8IsAsciicharacter] using notAscii
        have notLead : ¬ b &&& 0xFC = 0xC0 := by
          rw [iso1_lead]
          cases form <;> omega
        have continues : ∀ d ∈ more, (d &&& 0xC0 == 0x80) = true := by
          intro d found
          rw [beq_iff_eq, utf8_masked_continuation, ← utf8IsValidcontinuationcharacter_eq]
          exact List.all_eq_true.mp follows d found
        simp only [List.cons_append, utf8ConvertToIso1From, if_neg notSmall, if_neg notLead,
          List.dropWhile_append_of_pos continues, utf8_head_continues]
    · rw [if_pos known]
      have value : (UInt8.ofNat c.toNat).toNat = c.toNat := toNat_ofNat8 (by omega)
      obtain ⟨lead, follow, back⟩ := iso1_value (UInt8.ofNat c.toNat) (by omega)
      rw [utf8EncodeChar_iso1 high value]
      generalize (0xC0 : UInt8) ||| UInt8.ofNat c.toNat >>> 6 = b at lead back ⊢
      generalize (0x80 : UInt8) ||| UInt8.ofNat c.toNat &&& 0x3F = d at follow back ⊢
      have notSmall : ¬ b < 0x80 := by
        rw [UInt8.lt_iff_toNat_lt]
        simp only [UInt8.reduceToNat]
        omega
      have isLead := (iso1_lead b).mpr (by omega)
      have continues := (utf8_masked_continuation d).mpr (by omega)
      simp only [List.cons_append, List.nil_append, utf8ConvertToIso1From, if_neg notSmall,
        if_pos isLead, if_pos continues, back]

theorem utf8ConvertToIso1From_text (unknown : Int) (text : List Char) (fuel : Nat)
    (enough : text.length ≤ fuel) (goesOn : 0 ≤ unknown ∨ ∀ c ∈ text, c.toNat ≤ 0xFF) :
    utf8ConvertToIso1From unknown fuel (text.flatMap utf8EncodeChar) =
      some (text.flatMap (iso1Bytes unknown)) := by
  induction text generalizing fuel with
  | nil => cases fuel <;> simp [utf8ConvertToIso1From]
  | cons c text ih =>
    obtain ⟨fuel, rfl⟩ := Nat.exists_eq_add_of_lt enough
    have later := ih (text.length + fuel) (by omega) (goesOn.imp id fun known d found => known d
      (by simp [found]))
    rw [List.flatMap_cons, utf8ConvertToIso1From_char, later]
    rcases Nat.lt_or_ge 0xFF c.toNat with unknowable | known
    · have continues : ¬ unknown < 0 := by
        rcases goesOn with nonneg | all
        · omega
        · have := all c (by simp)
          omega
      simp only [Nat.not_le.mpr unknowable, if_false, iso1Unknown, continues, List.flatMap_cons,
        iso1Bytes]
      split <;> simp
    · simp [known, List.flatMap_cons, iso1Bytes]

theorem utf8ConvertToIso1From_none (aborts : unknown < 0) (text : List Char) (fuel : Nat)
    (enough : text.length ≤ fuel) (unknowable : ∃ c ∈ text, 0xFF < c.toNat) :
    utf8ConvertToIso1From unknown fuel (text.flatMap utf8EncodeChar) = none := by
  induction text generalizing fuel with
  | nil => simp at unknowable
  | cons c text ih =>
    obtain ⟨fuel, rfl⟩ := Nat.exists_eq_add_of_lt enough
    rw [List.flatMap_cons, utf8ConvertToIso1From_char]
    split
    · rename_i known
      have later : ∃ d ∈ text, 0xFF < d.toNat := by simpa [Nat.not_lt.mpr known] using unknowable
      rw [ih (text.length + fuel) (by omega) later, Option.map_none]
    · rw [iso1Unknown, if_pos aborts]

theorem utf8ConvertToIso1_text {text : List Char}
    (goesOn : 0 ≤ unknown ∨ ∀ c ∈ text, c.toNat ≤ 0xFF) :
    utf8ConvertToIso1 (text.flatMap utf8EncodeChar) unknown =
      some (text.flatMap (iso1Bytes unknown)) :=
  utf8ConvertToIso1From_text unknown text _ (utf8_prefixFree.length_le text) goesOn

theorem utf8ConvertToIso1_none_iff (aborts : unknown < 0) (text : List Char) :
    utf8ConvertToIso1 (text.flatMap utf8EncodeChar) unknown = none ↔ ∃ c ∈ text, 0xFF < c.toNat := by
  constructor
  · intro abandoned
    apply Classical.byContradiction
    intro none
    have known : ∀ c ∈ text, c.toNat ≤ 0xFF :=
      fun c found => Nat.not_lt.mp fun large => none ⟨c, found, large⟩
    rw [utf8ConvertToIso1_text (.inr known)] at abandoned
    cases abandoned
  · exact utf8ConvertToIso1From_none aborts text _ (utf8_prefixFree.length_le text)

theorem iso1ConvertToUtf8_text (iso1 : List UInt8) :
    ∃ text : List Char, iso1ConvertToUtf8 iso1 = text.flatMap utf8EncodeChar ∧
      (∀ c ∈ text, c.toNat ≤ 0xFF) ∧
      ∀ unknown, text.flatMap (iso1Bytes unknown) = iso1 := by
  induction iso1 with
  | nil => exact ⟨[], rfl, by simp, by simp⟩
  | cons b iso1 ih =>
    obtain ⟨text, bytes, known, back⟩ := ih
    have bound := b.toNat_lt
    obtain ⟨c, value⟩ := exists_char (v := b.toNat) (by omega)
    have spelled : iso1ConvertToUtf8 (b :: iso1) = utf8EncodeChar c ++ iso1ConvertToUtf8 iso1 := by
      rw [iso1ConvertToUtf8]
      split
      · rename_i small
        rw [utf8EncodeChar_ascii (by simpa [value, UInt8.lt_iff_toNat_lt] using small) value.symm]
        rfl
      · rename_i large
        rw [utf8EncodeChar_iso1 (by simpa [value, UInt8.lt_iff_toNat_lt] using large) value.symm]
        rfl
    refine ⟨c :: text, by rw [spelled, bytes, List.flatMap_cons], ?_, fun unknown => ?_⟩
    · intro d found
      rcases List.mem_cons.mp found with rfl | found
      · omega
      · exact known d found
    · rw [List.flatMap_cons, back, iso1Bytes, if_pos (by omega), value, UInt8.ofNat_toNat,
        List.singleton_append]

theorem iso1ConvertToUtf8_length (iso1 : List UInt8) :
    (iso1ConvertToUtf8 iso1).length = iso1.length + iso1.countP (fun c => 0x80 ≤ c) := by
  induction iso1 with
  | nil => rfl
  | cons c iso1 ih =>
    rw [iso1ConvertToUtf8]
    split
    · rename_i small
      rw [List.countP_cons_of_neg (by simpa using small), List.length_cons, List.length_cons, ih]
      omega
    · rename_i large
      rw [List.countP_cons_of_pos (by simpa using large), List.length_cons, List.length_cons,
        List.length_cons, ih]
      omega

/-- Latin-1 is read back as it was, and other characters are replaced, dropped or refused. -/
theorem iso1_convert :
    (∀ iso1 unknown, utf8ConvertToIso1 (iso1ConvertToUtf8 iso1) unknown = some iso1 ∧
      (iso1ConvertToUtf8 iso1).length = iso1.length + iso1.countP (fun c => 0x80 ≤ c)) ∧
    ∀ text : List Char,
      (∀ unknown, 0 < unknown → utf8ConvertToIso1 (text.flatMap utf8EncodeChar) unknown =
        some (text.map fun c => if c.toNat ≤ 0xFF then UInt8.ofNat c.toNat
          else UInt8.ofInt unknown)) ∧
      utf8ConvertToIso1 (text.flatMap utf8EncodeChar) 0 =
        some ((text.filter fun c => c.toNat ≤ 0xFF).map fun c => UInt8.ofNat c.toNat) ∧
      ∀ unknown, unknown < 0 →
        (utf8ConvertToIso1 (text.flatMap utf8EncodeChar) unknown = none ↔ ∃ c ∈ text,
          0xFF < c.toNat) ∧
        ((∀ c ∈ text, c.toNat ≤ 0xFF) → utf8ConvertToIso1 (text.flatMap utf8EncodeChar) unknown =
          some (text.map fun c => UInt8.ofNat c.toNat)) := by
  refine ⟨fun iso1 unknown => ⟨?_, iso1ConvertToUtf8_length iso1⟩,
    fun text => ⟨fun unknown positive => ?_, ?_, fun unknown negative => ⟨?_, fun known => ?_⟩⟩⟩
  · obtain ⟨text, bytes, known, back⟩ := iso1ConvertToUtf8_text iso1
    rw [bytes, utf8ConvertToIso1_text (.inr known), back]
  · have nonzero : unknown ≠ 0 := by omega
    rw [utf8ConvertToIso1_text (.inl (by omega)), Option.some_inj]
    induction text with
    | nil => rfl
    | cons c text ih =>
      rw [List.flatMap_cons, List.map_cons, ih, iso1Bytes, if_neg nonzero]
      split <;> rfl
  · rw [utf8ConvertToIso1_text (.inl (Int.le_refl 0)), Option.some_inj]
    induction text with
    | nil => rfl
    | cons c text ih =>
      rw [List.flatMap_cons, ih, iso1Bytes, List.filter_cons]
      split <;> simp [*]
  · exact utf8ConvertToIso1_none_iff negative text
  · rw [utf8ConvertToIso1_text (.inr known), Option.some_inj]
    induction text with
    | nil => rfl
    | cons c text ih =>
      rw [List.flatMap_cons, List.map_cons, ih (fun d found => known d (by simp [found])), iso1Bytes,
        if_pos (known c (by simp)), List.singleton_append]

end Texts

end MulleCore
