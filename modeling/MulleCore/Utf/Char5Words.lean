import Mathlib.Data.List.Forall2
import MulleCore.Library.PackedWords
import MulleCore.Utf.Char5
import MulleCore.Utf.UtfTexts

/-!
The words of `mulle-char5.c` hold their text: what the encoders, the decoders, the lengths and the
substrings do with the groups of a word.
-/

namespace MulleCore

open Library

structure Char5Letter (c : UInt8) (code : Nat) : Prop where
  positive : 0 < code
  small : code < 2 ^ 5
  nonzero : c.toNat ≠ 0
  ascii : c.toNat < 128
  ofChar : char5OfChar c = c.toNat
  lookup : char5LookupCharacter c.toNat = code
  decode : char5DecodeCharacter code = some c

section Alphabet

variable {codes : List Nat}

theorem char5_tables :
    (∀ n < 256, ¬ (char5LookupCharacter (char5OfChar (UInt8.ofNat n)) = 0 ∨
      char5LookupCharacter (char5OfChar (UInt8.ofNat n)) = -1) →
      n ≠ 0 ∧ n < 128 ∧ char5OfChar (UInt8.ofNat n) = n ∧ 0 < char5LookupCharacter n ∧
      char5LookupCharacter n < 32 ∧
        char5DecodeCharacter (char5LookupCharacter n).toNat = some (UInt8.ofNat n)) ∧
    ∀ code : Nat, code < 32 → 0 < code → ∃ n < 128, n ≠ 0 ∧ char5OfChar (UInt8.ofNat n) = n ∧
      char5LookupCharacter n = code ∧ char5DecodeCharacter code = some (UInt8.ofNat n) := by
  decide +kernel

theorem char5LookupCharacter_letter (c : UInt8)
    (accepted : ¬ (char5LookupCharacter (char5OfChar c) = 0 ∨
    char5LookupCharacter (char5OfChar c) = -1)) : ∃ code, Char5Letter c code := by
  have row := char5_tables.1 c.toNat c.toNat_lt
  rw [UInt8.ofNat_toNat] at row
  obtain ⟨nonzero, ascii, ofChar, positive, small, decode⟩ := row accepted
  exact ⟨(char5LookupCharacter c.toNat).toNat, by omega, by omega, nonzero, ascii, ofChar, by omega,
    decode⟩

theorem char5DecodeCharacter_letter (code : Nat) (positive : 0 < code) (small : code < 2 ^ 5) :
    ∃ c, Char5Letter c code := by
  obtain ⟨n, ascii, nonzero, ofChar, lookup, decode⟩ := char5_tables.2 code small positive
  have same : (UInt8.ofNat n).toNat = n := by simp; omega
  exact ⟨UInt8.ofNat n, positive,
    small, by omega, by omega, by simpa [same] using ofChar, by simpa [same] using lookup, decode⟩

theorem char5AreCharacters_letters (src : List UInt8) (accepted : char5AreCharacters src = true) :
    ∃ codes, List.Forall₂ Char5Letter src codes := by
  induction src with
  | nil => exact ⟨[], .nil⟩
  | cons c src ih =>
    simp only [char5AreCharacters] at accepted
    split at accepted
    · contradiction
    · rename_i valid
      obtain ⟨code, letter⟩ := char5LookupCharacter_letter c valid
      obtain ⟨codes, letters⟩ := ih accepted
      exact ⟨code :: codes, .cons letter letters⟩

theorem packsGroups_letters {w : Nat} {value : BitVec w} (packs : PacksGroups 5 value codes) :
    ∃ src, List.Forall₂ Char5Letter src codes := by
  induction codes generalizing value with
  | nil => exact ⟨[], .nil⟩
  | cons code codes ih =>
    have group := packs.groups code (by simp)
    obtain ⟨c, letter⟩ := char5DecodeCharacter_letter code group.1 group.2
    obtain ⟨src, letters⟩ := ih packs.tail
    exact ⟨c :: src, .cons letter letters⟩

theorem letters_text {src : List UInt8} (letters : List.Forall₂ Char5Letter src codes) :
    ∃ text : List Char, text.flatMap String.utf8EncodeChar = src ∧
      text.flatMap utf16EncodeChar = src.map (fun c => UInt16.ofNat c.toNat) ∧
      text.flatMap utf32EncodeChar = src.map (fun c => Int32.ofNat c.toNat) := by
  have ascii : ∀ n < 128, String.utf8EncodeChar (Char.ofNat n) = [UInt8.ofNat n] ∧
      utf16EncodeChar (Char.ofNat n) = [UInt16.ofNat n] ∧
      utf32EncodeChar (Char.ofNat n) = [Int32.ofNat n] := by
    decide +kernel
  induction letters with
  | nil => exact ⟨[], rfl, rfl, rfl⟩
  | @cons c code src codes letter letters ih =>
    obtain ⟨text, bytes, words, longs⟩ := ih
    obtain ⟨byte, word, long⟩ := ascii c.toNat letter.ascii
    rw [UInt8.ofNat_toNat] at byte
    exact ⟨Char.ofNat c.toNat ::
      text, by simp [byte, bytes], by simp [word, words], by simp [long, longs]⟩

end Alphabet

section Encoders

variable {w : Nat}
variable {Unit : Type} {codes : List Nat}

theorem char5EncodeFrom_packs (charOf : Unit → Int) {units : List Unit}
    (coded : List.Forall₂ (fun unit code => charOf unit ≠ 0 ∧ char5LookupCharacter (charOf unit) =
      (code : Nat) ∧
      0 < code ∧ code < 2 ^ 5) units codes) (room : 5 * codes.length ≤ w) :
    ∃ word, char5EncodeFrom w charOf units = some word ∧ PacksGroups 5 word codes := by
  induction coded with
  | nil => exact ⟨0, rfl, .nil⟩
  | @cons unit code units codes first coded ih =>
    obtain ⟨nonzero, lookup, positive, small⟩ := first
    rw [List.length_cons] at room
    obtain ⟨word, encoded, packs⟩ := ih (by omega)
    have valid : ¬ (charOf unit = 0 ∨ ¬ ((code : Int) > 0 ∧ (code : Int) < 0x20) ∨
        word <<< 5 >>> 5 ≠ word) := by
      rintro (zero | outside | lost)
      · exact nonzero zero
      · omega
      · exact lost (packs.shiftLeft_back room)
    refine ⟨word <<< 5 ||| BitVec.ofNat w code, ?_, packs.cons room positive small⟩
    simp only [char5EncodeFrom, encoded, lookup, Option.bind_eq_bind, Option.bind_some,
      valid, if_false, BitVec.ofInt_natCast]

theorem char5EncodeText_packs (charOf : Unit → Int) (unitOf : UInt8 → Unit) (maxlength : Nat)
    {src : List UInt8} (letters : List.Forall₂ Char5Letter src codes)
    (same : ∀ c : UInt8, c.toNat < 128 → char5OfChar c = c.toNat → charOf (unitOf c) = c.toNat)
    (short : src.length ≤ maxlength) (room : 5 * maxlength ≤ w) :
    ∃ word, char5EncodeText w maxlength charOf (src.map unitOf) = some word ∧
      PacksGroups 5 word codes := by
  have coded : List.Forall₂ (fun unit code => charOf unit ≠ 0 ∧ char5LookupCharacter (charOf unit) =
    (code : Nat) ∧
      0 < code ∧ code < 2 ^ 5) (src.map unitOf) codes := by
    rw [List.forall₂_map_left_iff]
    apply letters.imp
    intro c code letter
    have unit := same c letter.ascii letter.ofChar
    have nonzero := letter.nonzero
    exact ⟨by omega, by rw [unit, letter.lookup], letter.positive, letter.small⟩
  rw [char5EncodeText, if_pos (by simpa using short)]
  exact char5EncodeFrom_packs charOf coded (by have := letters.length_eq; omega)

end Encoders

section Readers

variable {w : Nat} {value : BitVec w} {codes : List Nat}
variable {src : List UInt8}

theorem packsGroups_low (packs : PacksGroups 5 value codes) (wide : 5 ≤ w) (code : Nat)
    (rest : List Nat) (split : codes = code :: rest) : (value &&& 0x1F).toNat = code := by
  subst split
  exact packs.head wide

theorem char5Decode_packs (wide : 5 ≤ w) (letters : List.Forall₂ Char5Letter src codes)
    (packs : PacksGroups 5 value codes) (len : Nat) (room : src.length ≤ len) :
    char5Decode value len = some src := by
  induction letters generalizing value len with
  | nil =>
    have zero := packs.eq_zero_iff.mpr rfl
    cases len <;> simp [char5Decode, zero]
  | @cons c code src codes letter letters ih =>
    cases len with
    | zero => simp at room
    | succ len =>
      have low := packsGroups_low packs wide code codes rfl
      have later := ih packs.tail len (by simpa using room)
      simp only [char5Decode, if_neg packs.ne_zero, low, letter.decode, later, Option.bind_eq_bind,
        Option.bind_some]

theorem char5Group_eq (value : BitVec w) (index : Nat) :
    char5Group value index = value >>> (5 * index) &&& 0x1F := by
  induction index generalizing value with
  | zero => simp [char5Group]
  | succ index ih =>
    rw [char5Group, ih, ← BitVec.shiftRight_add, show 5 + 5 * index = 5 * (index + 1) by ring]

theorem char5Get_packs (wide : 5 ≤ w) {maxlength : Nat}
    (letters : List.Forall₂ Char5Letter src codes) (packs : PacksGroups 5 value codes)
    (short : src.length ≤ maxlength) (index : Nat) (inside : index < src.length) :
    char5Get maxlength value index = some src[index] := by
  have inCodes : index < codes.length := letters.length_eq ▸ inside
  have letter : Char5Letter src[index] codes[index] := List.Forall₂.get letters inside inCodes
  have low := packsGroups_low (packs.drop index) wide _ _ (List.drop_eq_getElem_cons inCodes)
  rw [char5Get, if_pos (by omega), char5Group_eq, Nat.mul_comm, low, letter.decode]

theorem char5StrlenFrom_packs (packs : PacksGroups 5 value codes) (len fuel : Nat)
    (enough : codes.length < fuel) :
    char5StrlenFrom value len fuel = some (len + codes.length) := by
  induction codes generalizing value len fuel with
  | nil =>
    obtain ⟨fuel, rfl⟩ := Nat.exists_eq_succ_of_ne_zero (by omega : fuel ≠ 0)
    simp [char5StrlenFrom, packs.eq_zero_iff.mpr rfl]
  | cons code codes ih =>
    obtain ⟨fuel, rfl⟩ := Nat.exists_eq_succ_of_ne_zero (by omega : fuel ≠ 0)
    have later := ih packs.tail (len + 1) fuel (by simpa using enough)
    rw [char5StrlenFrom, if_neg packs.ne_zero, later, List.length_cons]
    congr 1
    omega

theorem char5Strlen_packs (packs : PacksGroups 5 value codes) :
    char5Strlen value = some codes.length := by
  have short : codes.length ≤ w :=
    (packs.lt_iff w).mp (Nat.lt_of_lt_of_le value.isLt (Nat.pow_le_pow_right (by decide) (by omega)))
  simpa [char5Strlen] using char5StrlenFrom_packs packs 0 (w + 1) (by omega)

theorem char5FstrlenStep_packs {mask : BitVec w} (low count high len : Nat)
    (packs : PacksGroups 5 value codes) (short : codes.length ≤ high) (counted : count ≤ low + 1)
    (set : ∀ i, 5 * low ≤ i → i < 5 * high → mask.getLsbD i = true)
    (clear : ∀ i, i < 5 * low → mask.getLsbD i = false) :
    ∃ rest left len', char5FstrlenStep mask count (value, len) = (rest, len') ∧
      PacksGroups 5 rest left ∧
      len' + left.length = len + codes.length ∧ left.length ≤ max low (high - count) := by
  have masked := and_mask_ne_zero_iff value mask _ _ ((packs.lt_iff high).mpr short) set clear
  have below := packs.lt_iff low
  by_cases large : value &&& mask ≠ 0
  · refine ⟨value >>> (count * 5), codes.drop count, len + count, ?_, packs.drop count, ?_, ?_⟩
    · simp only [char5FstrlenStep, if_pos large, Nat.mul_comm]
    all_goals
      rw [masked] at large
      rw [List.length_drop]
      omega
  · refine ⟨value, codes, len, ?_, packs, rfl, ?_⟩
    · simp only [char5FstrlenStep, if_neg large]
    · rw [masked] at large
      omega

theorem char5FstrlenRest_packs (len : Nat) (wide : 5 ≤ w) (packs : PacksGroups 5 value codes)
    (short : codes.length ≤ 2) :
    char5FstrlenRest (value, len) = len + codes.length := by
  have one := packs.lt_iff 1
  have none := packs.eq_zero_iff
  have mask : (0x1F : BitVec w).toNat = 31 := by
    have := Nat.pow_le_pow_right (show 2 > 0 by decide) wide
    rw [BitVec.ofNat_eq_ofNat, BitVec.toNat_ofNat, Nat.mod_eq_of_lt (show 31 < 2 ^ w by omega)]
  simp only [char5FstrlenRest, gt_iff_lt, BitVec.lt_def, mask, ne_eq, none, ← List.length_eq_zero_iff]
  split
  · omega
  · split <;> omega

theorem char5Fstrlen64_packs {value : BitVec 64} (packs : PacksGroups 5 value codes)
    (short : codes.length ≤ 12) :
    char5Fstrlen64 value = codes.length := by
  have set6 : ∀ i < 60, 30 ≤ i → (~~~(0x3FFFFFFF : BitVec 64)).getLsbD i = true := by decide
  have set3 : ∀ i < 30, 15 ≤ i → (~~~(0x3FFFFFFF : BitVec 64) >>> 15).getLsbD i = true := by decide
  have set2 : ∀ i < 15, 5 ≤ i → (~~~(0x3FFFFFFF : BitVec 64) >>> 15 >>> 10).getLsbD i = true := by
    decide
  obtain ⟨value6, codes6, len6, step6, packs6, sum6, short6⟩ :=
    char5FstrlenStep_packs 6 6 12 0 packs short (by omega)
    (fun i above below => set6 i below above) (by decide)
  obtain ⟨value3, codes3, len3, step3, packs3, sum3, short3⟩ :=
    char5FstrlenStep_packs 3 3 6 len6 packs6 (by omega) (by omega)
    (fun i above below => set3 i below above) (by decide)
  obtain ⟨value2, codes2, len2, step2, packs2, sum2, short2⟩ :=
    char5FstrlenStep_packs 1 2 3 len3 packs3 (by omega) (by omega)
    (fun i above below => set2 i below above) (by decide)
  have last := char5FstrlenRest_packs len2 (by omega) packs2 (by omega)
  simp only [char5Fstrlen64, step6, step3, step2, last]
  omega

theorem char5Fstrlen32_packs {value : BitVec 32} (packs : PacksGroups 5 value codes)
    (short : codes.length ≤ 6) :
    char5Fstrlen32 value = codes.length := by
  have set3 : ∀ i < 30, 15 ≤ i → (~~~(0x7FFF : BitVec 32)).getLsbD i = true := by decide
  have set2 : ∀ i < 15, 5 ≤ i → (~~~(0x7FFF : BitVec 32) >>> 10).getLsbD i = true := by decide
  obtain ⟨value3, codes3, len3, step3, packs3, sum3, short3⟩ :=
    char5FstrlenStep_packs 3 3 6 0 packs short (by omega)
    (fun i above below => set3 i below above) (by decide)
  obtain ⟨value2, codes2, len2, step2, packs2, sum2, short2⟩ :=
    char5FstrlenStep_packs 1 2 3 len3 packs3 (by omega) (by omega)
    (fun i above below => set2 i below above) (by decide)
  have last := char5FstrlenRest_packs len2 (by omega) packs2 (by omega)
  simp only [char5Fstrlen32, step3, step2, last]
  omega

theorem char5Substring_packs (packs : PacksGroups 5 value codes) (location length : Nat)
    (inside : location + length ≤ codes.length) :
    ∃ part, char5Substring value location length = some part ∧
      PacksGroups 5 part ((codes.drop location).take length) := by
  refine ⟨_, ?_, (packs.drop location).take length⟩
  simp [char5Substring, char5Strlen_packs packs, inside]

end Readers

section Words

variable {w : Nat}
variable {maxlength : Nat} {src : List UInt8} {value : BitVec w} {codes : List Nat}

def IsChar5Word (maxlength : Nat) (value : BitVec w) : Prop :=
  value.toNat < 2 ^ (5 * maxlength) ∧
    ∀ i j, i < j → value >>> (5 * j) &&& 0x1F ≠ 0 → value >>> (5 * i) &&& 0x1F ≠ 0

theorem char5IsChar5string_letters (accepted : char5IsChar5string maxlength src = true) :
    src.length ≤ maxlength ∧ ∃ codes, List.Forall₂ Char5Letter src codes := by
  simp only [char5IsChar5string] at accepted
  split at accepted
  · contradiction
  · exact ⟨by omega, char5AreCharacters_letters src accepted⟩

theorem isChar5Word_packs (wide : 5 ≤ w) (word : IsChar5Word maxlength value) :
    ∃ codes, PacksGroups 5 value codes ∧ codes.length ≤ maxlength := by
  have group (i : Nat) : value >>> (5 * i) &&& 0x1F = 0 ↔ value.toNat / 2 ^ (5 * i) % 2 ^ 5 = 0 := by
    have low := toNat_lowMask (value >>> (5 * i)) wide
    rw [BitVec.toNat_ushiftRight, Nat.shiftRight_eq_div_pow] at low
    rw [← low]
    exact BitVec.toNat_inj.symm
  obtain ⟨codes, packs⟩ :=
    @exists_packsGroups w 5 value (by omega) (by simpa only [ne_eq, group] using word.2)
  exact ⟨codes, packs, (packs.lt_iff maxlength).mp word.1⟩

theorem char5Substring_encodes (room : 5 * maxlength ≤ w)
    (letters : List.Forall₂ Char5Letter src codes) (packs : PacksGroups 5 value codes)
    (short : src.length ≤ maxlength) (location length : Nat)
    (inside : location + length ≤ src.length) :
    ∃ part, char5Substring value location length = some part ∧
      char5EncodeText w maxlength char5OfChar ((src.drop location).take length) = some part := by
  have same := letters.length_eq
  obtain ⟨part, cut, packsPart⟩ := char5Substring_packs packs location length (by omega)
  have lettersPart := List.forall₂_take length (List.forall₂_drop location letters)
  obtain ⟨word, encoded, packsWord⟩ :=
    char5EncodeText_packs (w := w) char5OfChar id maxlength lettersPart
    (fun c ascii ofChar => ofChar) (by simp; omega) room
  rw [List.map_id] at encoded
  exact ⟨part, cut, packsWord.unique packsPart ▸ encoded⟩

structure Char5Spells (w maxlength : Nat) (src : List UInt8) (text : List Char) (word : BitVec w) :
    Prop where
  bytes : text.flatMap String.utf8EncodeChar = src
  encode : char5EncodeText w maxlength char5OfChar src = some word
  encodeUtf16 : char5EncodeText w maxlength char5OfUtf16 (text.flatMap utf16EncodeChar) = some word
  encodeUtf32 : char5EncodeText w maxlength char5OfUtf32 (text.flatMap utf32EncodeChar) = some word
  decode : ∀ len, src.length ≤ len → char5Decode word len = some src
  get : ∀ index (inside : index < src.length), char5Get maxlength word index = some src[index]
  substring : ∀ location length, location + length ≤ src.length →
    ∃ part, char5Substring word location length = some part ∧
      char5EncodeText w maxlength char5OfChar ((src.drop location).take length) = some part
  strlen : char5Strlen word = some src.length

theorem char5Spells_of_letters (maxlength : Nat) (wide : 5 ≤ w) (room : 5 * maxlength ≤ w)
    (letters : List.Forall₂ Char5Letter src codes) (short : src.length ≤ maxlength) :
    ∃ text word, Char5Spells w maxlength src text word ∧ PacksGroups 5 word codes := by
  obtain ⟨text, bytes, words, longs⟩ := letters_text letters
  obtain ⟨word, encode, packs⟩ := char5EncodeText_packs (w := w) char5OfChar id maxlength letters
    (fun c ascii ofChar => ofChar) short room
  obtain ⟨word16, encode16, packs16⟩ := char5EncodeText_packs (w := w) char5OfUtf16
    (fun c => UInt16.ofNat c.toNat) maxlength letters (by
      intro c ascii ofChar
      simp [char5OfUtf16]) short room
  obtain ⟨word32, encode32, packs32⟩ := char5EncodeText_packs (w := w) char5OfUtf32
    (fun c => Int32.ofNat c.toNat) maxlength letters (by
      intro c ascii ofChar
      rw [char5OfUtf32, Int32.toInt_ofNat_of_lt (by omega)]) short room
  obtain rfl := packs.unique packs16
  obtain rfl := packs.unique packs32
  rw [List.map_id] at encode
  refine ⟨text, word, ⟨bytes, encode, words ▸ encode16, longs ▸ encode32,
    char5Decode_packs wide letters packs, char5Get_packs wide letters packs short,
    char5Substring_encodes room letters packs short, ?_⟩, packs⟩
  rw [char5Strlen_packs packs, letters.length_eq]

theorem char5Decode_encode (wide : 5 ≤ w) (room : 5 * maxlength ≤ w)
    (word : IsChar5Word maxlength value) : ∃ src, src.length ≤ maxlength ∧
      (∀ len, src.length ≤ len → char5Decode value len = some src) ∧
      char5EncodeText w maxlength char5OfChar src = some value := by
  obtain ⟨codes, packs, short⟩ := isChar5Word_packs wide word
  obtain ⟨src, letters⟩ := packsGroups_letters packs
  have same := letters.length_eq
  obtain ⟨text, other, spells, packsOther⟩ :=
    char5Spells_of_letters maxlength wide room letters (by omega)
  refine ⟨src, by omega, char5Decode_packs wide letters packs, ?_⟩
  rw [spells.encode, packsOther.unique packs]

end Words

/-- Encoding and decoding undo each other, for words of both sizes. -/
theorem char5_round :
    (∀ src, char5IsChar5string32 src = true → ∃ (text : List Char) (word : BitVec 32),
      text.flatMap String.utf8EncodeChar = src ∧
      char5Encode32 src = some word ∧
      char5Encode32Utf16 (text.flatMap utf16EncodeChar) = some word ∧
      char5Encode32Utf32 (text.flatMap utf32EncodeChar) = some word ∧
      (∀ len, src.length ≤ len → char5Decode32 word len = some src) ∧
      (∀ index (inside : index < src.length), char5Get32 word index = some src[index]) ∧
      (∀ location length, location + length ≤ src.length → ∃ part,
        char5Substring32 word location length = some part ∧
        char5Encode32 ((src.drop location).take length) = some part) ∧
      char5Strlen32 word = some src.length ∧
      char5Fstrlen32 word = src.length) ∧
    (∀ src, char5IsChar5string64 src = true → ∃ (text : List Char) (word : BitVec 64),
      text.flatMap String.utf8EncodeChar = src ∧
      char5Encode64 src = some word ∧
      char5Encode64Utf16 (text.flatMap utf16EncodeChar) = some word ∧
      char5Encode64Utf32 (text.flatMap utf32EncodeChar) = some word ∧
      (∀ len, src.length ≤ len → char5Decode64 word len = some src) ∧
      (∀ index (inside : index < src.length), char5Get64 word index = some src[index]) ∧
      (∀ location length, location + length ≤ src.length → ∃ part,
        char5Substring64 word location length = some part ∧
        char5Encode64 ((src.drop location).take length) = some part) ∧
      char5Strlen64 word = some src.length ∧
      char5Fstrlen64 word = src.length) ∧
    (∀ value : BitVec 32, IsChar5Word char5Maxlength32 value → ∃ src, src.length ≤ char5Maxlength32 ∧
      (∀ len, src.length ≤ len → char5Decode32 value len = some src) ∧
      char5Encode32 src = some value) ∧
    (∀ value : BitVec 64, IsChar5Word char5Maxlength64 value → ∃ src, src.length ≤ char5Maxlength64 ∧
      (∀ len, src.length ≤ len → char5Decode64 value len = some src) ∧
      char5Encode64 src = some value) := by
  refine ⟨?_, ?_, ?_, ?_⟩
  · intro src accepted
    obtain ⟨short, codes, letters⟩ := char5IsChar5string_letters accepted
    obtain ⟨text, word, spells, packs⟩ :=
      char5Spells_of_letters (w := 32) 6 (by omega) (by omega) letters short
    have same := letters.length_eq
    refine ⟨text, word, spells.bytes, spells.encode, spells.encodeUtf16, spells.encodeUtf32,
      spells.decode, spells.get, spells.substring, spells.strlen, ?_⟩
    rw [char5Fstrlen32_packs packs (same ▸ short), same]
  · intro src accepted
    obtain ⟨short, codes, letters⟩ := char5IsChar5string_letters accepted
    obtain ⟨text, word, spells, packs⟩ :=
      char5Spells_of_letters (w := 64) 12 (by omega) (by omega) letters short
    have same := letters.length_eq
    refine ⟨text, word, spells.bytes, spells.encode, spells.encodeUtf16, spells.encodeUtf32,
      spells.decode, spells.get, spells.substring, spells.strlen, ?_⟩
    rw [char5Fstrlen64_packs packs (same ▸ short), same]
  · intro value word
    exact char5Decode_encode (by omega) (by decide) word
  · intro value word
    exact char5Decode_encode (by omega) (by decide) word

end MulleCore
