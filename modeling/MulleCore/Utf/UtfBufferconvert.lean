import MulleCore.Library.Chunks
import MulleCore.Utf.Utf8Lengths

/-!
The converters of `mulle-utf8.c`, `mulle-utf16.c` and `mulle-utf32.c` that pass their text to a
callback in chunks. What the callback makes of a buffer is a parameter. A result of `none` stands
for a failed `assert` or for a write behind the temporary array.
-/

namespace MulleCore

open Library

variable {Unit Buffer : Type}

def takenUnits {Source : Type} (units : Option (List Unit)) (rest : List Source) :
    Taken Source Unit :=
  match units with
  | none => .failed
  | some units => .took units rest

def utf8Take (units : Int → Option (List Unit)) : List UInt8 → Taken UInt8 Unit
  | [] => .stop
  | c :: src =>
    if ! utf8IsAsciicharacter c && utf8IsInvalidstartcharacter c then .failed
    else if utf8IsAsciicharacter c then takenUnits (units c.toNat) src
    else
      let extraLen := utf8GetExtracharacterslength c
      if extraLen > src.length then .stop
      else
        match utf8Extracharactersvalue (c :: src) extraLen with
        | none => .failed
        | some x => takenUnits (units x) (src.drop extraLen)

def utf16Take (units : Nat → Option (List Unit)) : List UInt16 → Taken UInt16 Unit
  | [] => .stop
  | c :: src =>
    if utf32IsHighsurrogatecharacter c.toNat then
      match src with
      | [] => .stop
      | d :: src =>
        match utf16DecodeSurrogatepair c d with
        | none => .failed
        | some x => takenUnits (units x) src
    else takenUnits (units c.toNat) src

def utf32Take (units : Int → Option (List Unit)) : List Int32 → Taken Int32 Unit
  | [] => .stop
  | c :: src => takenUnits (units c.toInt) src

def utf8BufferconvertToUtf16 (src : List UInt8) (buffer : Buffer)
    (addbytes : Buffer → List UInt16 → Buffer) :
    Option Buffer :=
  chunkedFrom (utf8Take utf8Utf16Units) 64 (fun s => s ≥ 64 - 2) (fun _ => false) addbytes
    src.length src [] buffer

def utf8BufferconvertToUtf32 (src : List UInt8) (buffer : Buffer)
    (addbytes : Buffer → List Int32 → Buffer) :
    Option Buffer :=
  chunkedFrom (utf8Take fun x => some [Int32.ofInt x]) 32 (fun _ => false) (fun s => s == 32)
    addbytes src.length src [] buffer

def utf16BufferconvertToUtf8 (src : List UInt16) (buffer : Buffer)
    (addbytes : Buffer → List UInt8 → Buffer) :
    Option Buffer :=
  chunkedFrom (utf16Take utf16Utf8Bytes) 128 (fun s => s ≥ 128 - 4) (fun _ => false) addbytes
    src.length src [] buffer

def utf16BufferconvertToUtf32 (src : List UInt16) (buffer : Buffer)
    (addbytes : Buffer → List Int32 → Buffer) :
    Option Buffer :=
  chunkedFrom (utf16Take fun x => some [Int32.ofNat x]) 32 (fun _ => false) (fun s => s == 32)
    addbytes src.length src [] buffer

def utf32BufferconvertToUtf8 (src : List Int32) (buffer : Buffer)
    (addbytes : Buffer → List UInt8 → Buffer) :
    Option Buffer :=
  chunkedFrom (utf32Take utf32Utf8Bytes) 128 (fun s => s ≥ 128 - 4) (fun _ => false) addbytes
    src.length src [] buffer

def utf32BufferconvertToUtf16 (src : List Int32) (buffer : Buffer)
    (addbytes : Buffer → List UInt16 → Buffer) :
    Option Buffer :=
  chunkedFrom (utf32Take fun x => if x ≤ utf32Max then utf32Utf16Units x else none) 64
    (fun s => s ≥ 64 - 2) (fun _ => false) addbytes src.length src [] buffer

section Rounds

variable {other : Char → List Unit}
variable {units : Int → Option (List Unit)}

theorem utf8Take_char (writes : ∀ c : Char, units c.toNat = some (other c)) (c : Char)
    (rest : List UInt8) :
    utf8Take units (String.utf8EncodeChar c ++ rest) = .took (other c) rest := by
  have shape := utf8_shape c
  generalize String.utf8EncodeChar c = bytes at shape ⊢
  cases shape with
  | ascii b _ ascii value => simp [utf8Take, ascii, value, writes, takenUnits]
  | sequence b more _ notAscii starts extra _ _ value =>
    simp [utf8Take, notAscii, starts, extra, value, writes, takenUnits]

theorem utf16Take_char
    {units : Nat → Option (List Unit)} (writes : ∀ c : Char, units c.toNat = some (other c))
    (c : Char) (rest : List UInt16) :
    utf16Take units (utf16EncodeChar c ++ rest) = .took (other c) rest := by
  have shape := utf16_shape c
  generalize utf16EncodeChar c = bytes at shape ⊢
  cases shape with
  | one a _ value _ notHigh =>
    rw [value] at notHigh
    simp [utf16Take, notHigh, value, writes, takenUnits]
  | two a d _ high low decoded =>
    have isHigh := (utf32IsHighsurrogatecharacter_eq _).mpr high
    simp [utf16Take, isHigh, decoded, writes, takenUnits]

theorem utf32Take_char (writes : ∀ c : Char, units c.toNat = some (other c)) (c : Char)
    (rest : List Int32) : utf32Take units (utf32EncodeChar c ++ rest) = .took (other c) rest := by
  simp only [utf32EncodeChar, List.cons_append, List.nil_append, utf32Take, utf32_value,
    writes, takenUnits]

theorem roomy_before (size most : Nat) (least : most ≤ size) :
    Roomy (fun s => s ≥ size - most) (fun _ => false) size size most where
  fits := Nat.le_refl size
  room n _ notDue := by
    simp only [ge_iff_le, decide_eq_false_iff_not] at notDue
    omega
  empty := least
  kept n inside _ := inside

theorem roomy_after (size : Nat) (positive : 0 < size) :
    Roomy (fun _ => false) (fun s => s == size) size (size - 1) 1 where
  fits := Nat.sub_le size 1
  room n inside _ := by omega
  empty := positive
  kept n inside notDue := by
    simp only [beq_eq_false_iff_ne, ne_eq] at notDue
    omega

theorem utf8_length_le (c : Char) : (String.utf8EncodeChar c).length ≤ 4 := by
  rw [utf8EncodeChar_length]
  grind

theorem utf16_length_le_two (c : Char) : (utf16EncodeChar c).length ≤ 2 := by
  rw [utf16EncodeChar_length]
  grind

theorem utf32Utf16Units_max (c : Char) :
    (if (c.toNat : Int) ≤ utf32Max then utf32Utf16Units c.toNat else none) = some
    (utf16EncodeChar c) := by
  have scalar := Char.scalar c
  rw [if_pos (by rw [utf32Max]; omega), utf32Utf16Units_char]

end Rounds

def BuffersExactly {Source : Type} (direct : List Source → Option (List Unit))
    (buffered : List Source → Buffer → (Buffer → List Unit → Buffer) → Option Buffer) (size : Nat)
    (src : List Source) : Prop :=
  ∀ buffer addbytes, ∃ written after, direct src = some written ∧
    buffered src buffer addbytes = some after ∧
    ∃ chunks : List (List Unit), after = chunks.foldl addbytes buffer ∧ chunks.flatten = written ∧
      ∀ chunk ∈ chunks, chunk.length ≤ size

theorem buffersExactly_text {Source : Type} {encode : Char → List Source} {other : Char → List Unit}
    {direct : List Source → Option (List Unit)} {take : List Source → Taken Source Unit}
    {before after : Nat → Bool} {size limit most : Nat} (free : PrefixFree encode)
    (roomy : Roomy before after size limit most)
    (takes : ∀ c rest, take (encode c ++ rest) = .took (other c) rest)
    (small : ∀ c, (other c).length ≤ most) (text : List Char)
    (converts : direct (text.flatMap encode) = some (text.flatMap other)) :
    BuffersExactly direct (fun src (buffer : Buffer) addbytes =>
      chunkedFrom take size before after addbytes src.length src [] buffer) size
        (text.flatMap encode) := by
  intro buffer addbytes
  obtain ⟨result, buffered, handed⟩ := chunkedFrom_text roomy free.ne_nil takes small text
    (text.flatMap encode).length (free.length_le text) [] (Nat.zero_le limit) buffer
  exact ⟨_, result, converts, buffered, handed.chunks⟩

/-- In chunks as at once, for all six pairs of encodings. -/
theorem utfBufferconvert_exact (Buffer : Type) (text : List Char) :
    (BuffersExactly utf8ConvertToUtf16 (@utf8BufferconvertToUtf16 Buffer) 64
      (text.flatMap String.utf8EncodeChar) ∧
      BuffersExactly utf8ConvertToUtf32 (@utf8BufferconvertToUtf32 Buffer) 32
        (text.flatMap String.utf8EncodeChar)) ∧
    (BuffersExactly utf16ConvertToUtf8 (@utf16BufferconvertToUtf8 Buffer) 128
      (text.flatMap utf16EncodeChar) ∧
      BuffersExactly utf16ConvertToUtf32 (@utf16BufferconvertToUtf32 Buffer) 32
        (text.flatMap utf16EncodeChar)) ∧
    BuffersExactly utf32ConvertToUtf8 (@utf32BufferconvertToUtf8 Buffer) 128
      (text.flatMap utf32EncodeChar) ∧
      BuffersExactly utf32ConvertToUtf16 (@utf32BufferconvertToUtf16 Buffer) 64
        (text.flatMap utf32EncodeChar) := by
  have one (c : Char) : (utf32EncodeChar c).length ≤ 1 := Nat.le_refl 1
  refine ⟨⟨?_, ?_⟩, ⟨?_, ?_⟩, ?_, ?_⟩
  · exact buffersExactly_text utf8_prefixFree (roomy_before 64 2 (by decide))
      (utf8Take_char utf8Utf16Units_char) utf16_length_le_two text (utf8ConvertToUtf16_text text)
  · exact buffersExactly_text utf8_prefixFree (roomy_after 32 (by decide))
      (utf8Take_char utf8Utf32Units_char) one text (utf8ConvertToUtf32_text text)
  · exact buffersExactly_text utf16_prefixFree (roomy_before 128 4 (by decide))
      (utf16Take_char utf16Utf8Bytes_char) utf8_length_le text (utf16ConvertToUtf8_text text)
  · exact buffersExactly_text utf16_prefixFree (roomy_after 32 (by decide))
      (utf16Take_char fun _ => rfl) one text (utf16ConvertToUtf32_text text)
  · exact buffersExactly_text utf32_prefixFree (roomy_before 128 4 (by decide))
      (utf32Take_char utf32Utf8Bytes_char) utf8_length_le text (utf32ConvertToUtf8_text text)
  · exact buffersExactly_text utf32_prefixFree (roomy_before 64 2 (by decide))
      (utf32Take_char utf32Utf16Units_max) utf16_length_le_two text (utf32ConvertToUtf16_text text)

end MulleCore
