import MulleCore.Utf.UtfBufferconvert
import MulleCore.Utf.UtfCursors

/-!
The functions of `mulle-utf-convenience.c` that convert the characters of a text, all of them or
word by word. What has been written to the destination is a list, which begins where the destination
begins.
-/

namespace MulleCore

open Library
open String (utf8EncodeChar)

structure MogrificationInfo where
  f1Conversion : Int → Int
  f2Conversion : Int → Int
  isWhite : Int → Bool

section Functions

variable {Source Unit : Type}

structure Mogrification (Unit : Type) where
  rval : Int
  length : Nat
  written : List Unit
deriving DecidableEq

structure MogrifyState (Unit : Type) where
  isStart : Bool
  conversions : Nat
  written : List Unit

def mogrifyStart : MogrifyState Unit := ⟨true, 0, []⟩

def characterStep (info : MogrificationInfo) (isStart : Bool) (c : Int) : Int × Bool :=
  (info.f1Conversion c, isStart)

def wordStep (info : MogrificationInfo) (isStart : Bool) (c : Int) : Int × Bool :=
  if info.isWhite c then (c, true)
  else if isStart then (info.f1Conversion c, false)
  else (info.f2Conversion c, false)

def mogrifyLoop (next : List Source → Option (Int × List Source)) (step : Bool → Int → Int × Bool)
    (put : Int → Option (List Unit)) (full : Nat → Bool) (length : Nat) :
    Nat → List Source → MogrifyState Unit → Option (Mogrification Unit)
  | _, [], state => some ⟨if state.conversions ≠ 0 then 1 else 0, state.written.length, state.written⟩
  | 0, _ :: _, _ => none
  | fuel + 1, p :: src, state =>
    if full state.written.length then some ⟨-1, length, state.written⟩
    else do
      let (c, src) ← next (p :: src)
      let stepped := step state.isStart c
      let units ← put stepped.1
      mogrifyLoop next step put full length fuel src
        ⟨stepped.2, if c ≠ stepped.1 then state.conversions + 1 else state.conversions,
          state.written ++ units⟩

def utf8Next (p : List UInt8) : Option (Int × List UInt8) :=
  (utf8NextUtf32character ⟨[], p⟩).map fun result => (result.1, result.2.rest)

def utf8MogrifyFull (length q : Nat) : Bool := (length : Int) - 4 ≤ q

def utf8Mogrify (step : Bool → Int → Int × Bool) (length : Nat) (src : List UInt8) :
    Option (Mogrification UInt8) :=
  mogrifyLoop utf8Next step utf32Utf8Bytes (utf8MogrifyFull length) length src.length src mogrifyStart

def utf16MogrifyNext : List UInt16 → Option (Int × List UInt16)
  | [] => none
  | c :: p =>
    if utf32IsHighsurrogatecharacter c.toNat then
      match p with
      | [] => none
      | d :: p => (utf16DecodeSurrogatepair c d).map fun c => ((c : Int), p)
    else some (c.toNat, p)

def utf32MogrifyNext : List Int32 → Option (Int × List Int32)
  | [] => none
  | c :: p => some (c.toInt, p)

def utf32Put (d : Int) : Option (List Int32) := some [Int32.ofInt d]

def utfMogrify32 (next : List Source → Option (Int × List Source)) (step : Bool → Int → Int × Bool)
    (length : Nat) (src : List Source) : Option (Mogrification Int32) :=
  if length < src.length then some ⟨-1, length, []⟩
  else mogrifyLoop next step utf32Put (fun _ => false) length src.length src mogrifyStart

def utf8CharacterMogrify (info : MogrificationInfo) := utf8Mogrify (characterStep info)

def utf16CharacterMogrify (info : MogrificationInfo) :=
  utfMogrify32 utf16MogrifyNext (characterStep info)

def utf32CharacterMogrify (info : MogrificationInfo) :=
  utfMogrify32 utf32MogrifyNext (characterStep info)

def utf8WordMogrify (info : MogrificationInfo) := utf8Mogrify (wordStep info)

def utf16WordMogrify (info : MogrificationInfo) := utfMogrify32 utf16MogrifyNext (wordStep info)

def utf32WordMogrify (info : MogrificationInfo) := utfMogrify32 utf32MogrifyNext (wordStep info)

end Functions

section Converted

def mogrified (convert : Option Char → Char → Char) : Option Char → List Char → List Char
  | _, [] => []
  | before, c :: text => convert before c :: mogrified convert (some c) text

def characterConversion (f1 : Char → Char) (_ : Option Char) (c : Char) : Char := f1 c

def wordConversion (f1 f2 : Char → Char) (white : Char → Bool) (before : Option Char) (c : Char) :
    Char :=
  if white c then c
  else if before.all white then f1 c
  else f2 c

theorem mogrified_length (convert : Option Char → Char → Char) (before : Option Char)
    (text : List Char) :
    (mogrified convert before text).length = text.length := by
  induction text generalizing before with
  | nil => rfl
  | cons c text ih => simp [mogrified, ih]

theorem mogrified_characters (f1 : Char → Char) (before : Option Char) (text : List Char) :
    mogrified (characterConversion f1) before text = text.map f1 := by
  induction text generalizing before with
  | nil => rfl
  | cons c text ih => simp [mogrified, characterConversion, ih]

structure Converts (info : MogrificationInfo) (f1 f2 : Char → Char) (white : Char → Bool) : Prop where
  f1 : ∀ c, IsTextCharacter c → info.f1Conversion c.toNat = (f1 c).toNat
  f2 : ∀ c, IsTextCharacter c → info.f2Conversion c.toNat = (f2 c).toNat
  white : ∀ c, IsTextCharacter c → info.isWhite c.toNat = white c

def StepConverts (step : Bool → Int → Int × Bool) (convert : Option Char → Char → Char)
    (starts : Option Char → Bool) : Prop :=
  ∀ before c, IsTextCharacter c →
    step (starts before) c.toNat = (((convert before c).toNat : Int), starts (some c))

variable {info : MogrificationInfo} {f1 f2 : Char → Char} {white : Char → Bool}

theorem characterStep_converts (converts : Converts info f1 f2 white) :
    StepConverts (characterStep info) (characterConversion f1) (fun _ => true) := by
  intro before c good
  rw [characterStep, converts.f1 c good, characterConversion]

theorem wordStep_converts (converts : Converts info f1 f2 white) :
    StepConverts (wordStep info) (wordConversion f1 f2 white) (fun before => before.all white) := by
  intro before c good
  simp only [wordStep, wordConversion, converts.white c good, converts.f1 c good,
    converts.f2 c good, Option.all_some]
  cases white c <;> cases before.all white <;> rfl

end Converted

section Loop

variable {Source Unit : Type} {next : List Source → Option (Int × List Source)}
  {step : Bool → Int → Int × Bool} {put : Int → Option (List Unit)} {encode : Char → List Source}
  {spell : Char → List Unit} {convert : Option Char → Char → Char} {starts : Option Char → Bool}
variable {full : Nat → Bool} {c : Char} {text : List Char}

structure TakesCharacters (next : List Source → Option (Int × List Source))
    (encode : Char → List Source) : Prop where
  nonempty : ∀ c, encode c ≠ []
  next : ∀ c rest, next (encode c ++ rest) = some ((c.toNat : Int), rest)

def RoomBefore (spell : Char → List Unit) (full : Nat → Bool) (written : Nat) (text : List Char) :
    Prop :=
  ∀ front c, front ++ [c] <+: text → full (written + (front.flatMap spell).length) = false

theorem RoomBefore.nil (spell : Char → List Unit) (full : Nat → Bool) (written : Nat) :
    RoomBefore spell full written [] := by
  intro front c before
  simp at before

theorem RoomBefore.cons {written : Nat} (room : full written = false)
    (rest : RoomBefore spell full (written + (spell c).length) text) :
    RoomBefore spell full written (c :: text) := by
  intro front d before
  cases front with
  | nil => simpa using room
  | cons e front =>
    obtain ⟨rfl, behind⟩ := List.cons_prefix_cons.mp before
    have later := rest front d behind
    rwa [List.flatMap_cons, List.length_append, ← Nat.add_assoc]

inductive MogrifyOutcome (spell : Char → List Unit) (full : Nat → Bool) (length : Nat)
    (conversions : Nat) (written : List Unit) (text conv : List Char) :
    Option (Mogrification Unit) → Prop where
  | exhausted (front : List Char) (c : Char) :
      front ++ [c] <+: conv → RoomBefore spell full written.length front →
      full (written.length + (front.flatMap spell).length) = true →
      MogrifyOutcome spell full length conversions written text conv
        (some ⟨-1, length, written ++ front.flatMap spell⟩)
  | converted : RoomBefore spell full written.length conv →
      MogrifyOutcome spell full length conversions written text conv
        (some ⟨if conversions = 0 ∧ conv = text then 0 else 1, (written ++ conv.flatMap spell).length,
          written ++ conv.flatMap spell⟩)

theorem MogrifyOutcome.cons {length conversions count : Nat} {written : List Unit} {d : Char}
    {conv : List Char} {result : Option (Mogrification Unit)} (room : full written.length = false)
    (counted : count = 0 ↔ conversions = 0 ∧ d = c)
    (rest : MogrifyOutcome spell full length count (written ++ spell d) text conv result) :
    MogrifyOutcome spell full length conversions written (c :: text) (d :: conv) result := by
  cases rest with
  | exhausted front e before roomy isFull =>
    rw [List.length_append] at roomy isFull
    have outcome : MogrifyOutcome spell full length conversions written (c :: text) (d :: conv)
        (some ⟨-1, length, written ++ (d :: front).flatMap spell⟩) :=
      .exhausted (d :: front) e (List.cons_prefix_cons.mpr ⟨rfl, before⟩) (roomy.cons room)
        (by rwa [List.flatMap_cons, List.length_append, ← Nat.add_assoc])
    rwa [List.flatMap_cons, ← List.append_assoc] at outcome
  | converted roomy =>
    rw [List.length_append] at roomy
    have outcome : MogrifyOutcome spell full length conversions written (c :: text) (d :: conv)
        (some ⟨if conversions = 0 ∧ d :: conv = c :: text then 0 else 1,
          (written ++ (d :: conv).flatMap spell).length, written ++ (d :: conv).flatMap spell⟩) :=
            .converted (roomy.cons room)
    have changed : (count = 0 ∧ conv = text) ↔ (conversions = 0 ∧ d :: conv = c :: text) := by
      rw [counted, List.cons.injEq, and_assoc]
    simp only [changed]
    rwa [List.flatMap_cons, ← List.append_assoc] at outcome

theorem mogrifyLoop_outcome (takes : TakesCharacters next encode)
    (steps : StepConverts step convert starts) (puts : ∀ c : Char, put c.toNat = some (spell c))
    (full : Nat → Bool) (length : Nat) (good : ∀ c ∈ text, IsTextCharacter c) {fuel : Nat}
    (enough : (text.flatMap encode).length ≤ fuel) (before : Option Char) (conversions : Nat)
    (written : List Unit) :
    MogrifyOutcome spell full length conversions written text (mogrified convert before text)
      (mogrifyLoop next step put full length fuel (text.flatMap encode) ⟨starts before, conversions,
        written⟩) := by
  induction text generalizing fuel before conversions written with
  | nil =>
    have outcome : MogrifyOutcome spell full length conversions written [] []
        (some ⟨if conversions = 0 ∧ ([] : List Char) = [] then 0 else 1,
          (written ++ [].flatMap spell).length, written ++ [].flatMap spell⟩) := .converted
            (RoomBefore.nil spell full written.length)
    by_cases unchanged : conversions = 0 <;> simpa [mogrifyLoop, mogrified, unchanged] using outcome
  | cons c text ih =>
    obtain ⟨lead, more, spelled⟩ := List.exists_cons_of_ne_nil (takes.nonempty c)
    have read := takes.next c (text.flatMap encode)
    rw [List.flatMap_cons, List.length_append] at enough
    rw [spelled, List.cons_append] at read
    rw [spelled, List.length_cons] at enough
    obtain ⟨fuel, rfl⟩ := Nat.exists_eq_add_of_lt (by omega : 0 < fuel)
    rw [List.flatMap_cons, spelled, List.cons_append, mogrified, mogrifyLoop]
    cases room : full written.length with
    | true =>
      have outcome : MogrifyOutcome spell full length conversions written (c :: text)
          (convert before c :: mogrified convert (some c) text)
            (some ⟨-1, length, written ++ [].flatMap spell⟩) :=
        .exhausted [] (convert before c) (by simp) (RoomBefore.nil spell full written.length)
          (by simpa using room)
      simpa using outcome
    | false =>
      have stepped := steps before c (good c (by simp))
      have rest := @ih (fun d member => good d (List.mem_cons_of_mem c member)) (0 + fuel)
        (by omega) (some c)
        (if (c.toNat : Int) ≠ ((convert before c).toNat : Int) then conversions + 1 else conversions)
        (written ++ spell (convert before c))
      simp only [Bool.false_eq_true, if_false, read, stepped, puts, Option.bind_eq_bind,
        Option.bind_some]
      refine MogrifyOutcome.cons room ?_ rest
      have same : (c.toNat : Int) = ((convert before c).toNat : Int) ↔ convert before c = c := by
        constructor
        · intro same
          exact Char.toNat_injective (by omega)
        · intro same
          rw [same]
      split
      next differ =>
        rw [ne_eq, same] at differ
        simp [differ]
      next equal =>
        rw [ne_eq, same, not_not] at equal
        simp [equal]

end Loop

section Readers

theorem TakesCharacters.length_le {Source : Type} {next : List Source → Option (Int × List Source)}
    {encode : Char → List Source} (takes : TakesCharacters next encode) (text : List Char) :
    text.length ≤ (text.flatMap encode).length := by
  induction text with
  | nil => exact Nat.zero_le _
  | cons c text ih =>
    have positive := List.length_pos_iff.mpr (takes.nonempty c)
    rw [List.flatMap_cons, List.length_append, List.length_cons]
    omega

theorem utf8Next_takes : TakesCharacters utf8Next utf8EncodeChar where
  nonempty := utf8_prefixFree.ne_nil
  next c rest := by
    have shape := utf8_shape c
    generalize utf8EncodeChar c = units at shape
    cases shape with
    | ascii b _ ascii value => simp [utf8Next, utf8NextUtf32character, ascii, value]
    | sequence b more _ notAscii starts extra _ _ value =>
      simp [utf8Next, utf8NextUtf32character, notAscii, starts, extra, value]

theorem utf16MogrifyNext_takes : TakesCharacters utf16MogrifyNext utf16EncodeChar where
  nonempty := utf16_prefixFree.ne_nil
  next c rest := by
    have shape := utf16_shape c
    generalize utf16EncodeChar c = units at shape
    cases shape with
    | one a _ value _ notHigh => simp [utf16MogrifyNext, value ▸ notHigh, value]
    | two a d _ high _ decoded =>
      have isHigh := (utf32IsHighsurrogatecharacter_eq a.toNat).mpr high
      simp [utf16MogrifyNext, isHigh, decoded]

theorem utf32MogrifyNext_takes : TakesCharacters utf32MogrifyNext utf32EncodeChar where
  nonempty := utf32_prefixFree.ne_nil
  next c rest := by
    have scalar := Char.scalar c
    simp [utf32MogrifyNext, utf32EncodeChar, toInt_ofNat32 (show c.toNat < 0x110000 by omega)]

theorem utf32Put_char (c : Char) : utf32Put c.toNat = some (utf32EncodeChar c) := rfl

end Readers

section Results

variable {Unit : Type}
variable {spell : Char → List Unit} {most : Nat} {text : List Char}

/-- What the functions are for. `worst` is as many units as the text can take as far as the function
knows: 4 bytes for each character of UTF-8, one 32-bit unit for each unit of the source. -/
structure MogrifiesText (spell : Char → List Unit) (conv text : List Char) (length worst : Nat)
    (result : Mogrification Unit) : Prop where
  converted : result.rval ≠ -1 → result.written = conv.flatMap spell ∧
    result.length = result.written.length ∧
    result.rval = if conv = text then 0 else 1
  inside : result.written.length ≤ length
  exhausted : result.rval = -1 → length < worst

def Mogrifies (spell : Char → List Unit) (conv text : List Char) (length worst : Nat)
    (result : Option (Mogrification Unit)) : Prop :=
  ∃ mogrification, result = some mogrification ∧
    MogrifiesText spell conv text length worst mogrification

theorem units_le (short : ∀ c, (spell c).length ≤ most) (text : List Char) :
    (text.flatMap spell).length ≤ most * text.length := by
  induction text with
  | nil => simp
  | cons c text ih =>
    have first := short c
    rw [List.flatMap_cons, List.length_append, List.length_cons, Nat.mul_succ]
    omega

theorem units_most (short : ∀ c, (spell c).length ≤ most) (text : List Char) :
    (text.flatMap spell).length = most * text.length ↔ ∀ c ∈ text, (spell c).length = most := by
  induction text with
  | nil => simp
  | cons c text ih =>
    have first := short c
    have rest := units_le short text
    rw [List.forall_mem_cons, ← ih, List.flatMap_cons, List.length_append, List.length_cons,
      Nat.mul_succ]
    omega

theorem RoomBefore.units_le {length : Nat}
    (room : RoomBefore utf8EncodeChar (utf8MogrifyFull length) 0 text) :
    (text.flatMap utf8EncodeChar).length ≤ length := by
  rcases List.eq_nil_or_concat text with rfl | ⟨front, c, rfl⟩
  · exact Nat.zero_le _
  · have last := room front c (by simp)
    have short := utf8_length_le c
    simp only [utf8MogrifyFull, decide_eq_false_iff_not] at last
    simp only [List.concat_eq_append, List.flatMap_append, List.flatMap_singleton, List.length_append]
    omega

variable {step : Bool → Int → Int × Bool} {convert : Option Char → Char → Char}
  {starts : Option Char → Bool}

theorem utf8Mogrify_iff (steps : StepConverts step convert starts) (start : starts none = true)
    (good : ∀ c ∈ text, IsTextCharacter c) (length : Nat) :
    Mogrifies utf8EncodeChar (mogrified convert none text) text length (4 * text.length)
        (utf8Mogrify step length (text.flatMap utf8EncodeChar)) ↔
      ¬ (text ≠ [] ∧ length = 4 * text.length ∧
        ∀ c ∈ (mogrified convert none text).dropLast, (utf8EncodeChar c).length = 4) := by
  have outcome := mogrifyLoop_outcome utf8Next_takes steps utf32Utf8Bytes_char
    (utf8MogrifyFull length) length good (Nat.le_refl _) none 0 []
  have sized := mogrified_length convert none text
  rw [start] at outcome
  rw [utf8Mogrify, mogrifyStart]
  generalize mogrified convert none text = conv at outcome sized ⊢
  generalize mogrifyLoop utf8Next step utf32Utf8Bytes (utf8MogrifyFull length) length
    (text.flatMap utf8EncodeChar).length (text.flatMap utf8EncodeChar) ⟨true, 0, []⟩ =
      result at outcome ⊢
  cases outcome with
  | exhausted front c before room isFull =>
    have inside := room.units_le
    have within := before.length_le
    have short := units_le utf8_length_le front
    simp only [utf8MogrifyFull, decide_eq_true_eq, List.length_nil, Nat.zero_add] at isFull
    rw [List.length_append, List.length_singleton] at within
    have exhausts : Mogrifies utf8EncodeChar conv text length (4 * text.length)
        (some ⟨-1, length, [] ++ front.flatMap utf8EncodeChar⟩) ↔ length < 4 * text.length := by
      constructor
      · rintro ⟨_, same, mogrifies⟩
        cases same
        exact mogrifies.exhausted rfl
      · intro small
        exact ⟨_, rfl, fun differ => absurd rfl differ, inside, fun _ => small⟩
    rw [exhausts]
    constructor
    · rintro small ⟨_, same, _⟩
      omega
    · intro other
      apply Nat.lt_of_not_le
      intro large
      have whole : front ++ [c] = conv := before.eq_of_length (by simp; omega)
      have most := (units_most utf8_length_le front).mp (by omega)
      refine other ⟨?_, by omega, ?_⟩
      · intro empty
        rw [empty, List.length_nil] at sized
        omega
      · rw [← whole, List.dropLast_concat]
        exact most
  | converted room =>
    have inside := room.units_le
    refine iff_of_true ⟨_, rfl, fun _ => ⟨rfl, rfl, by simp⟩, inside, fun exhausted => ?_⟩ ?_
    · dsimp only at exhausted
      split at exhausted <;> simp at exhausted
    · rintro ⟨nonempty, same, most⟩
      have positive := List.length_pos_iff.mpr nonempty
      have convPositive : conv ≠ [] := by
        rintro rfl
        rw [List.length_nil] at sized
        omega
      have last := room conv.dropLast (conv.getLast convPositive)
        ⟨[], by rw [List.append_nil, List.dropLast_append_getLast]⟩
      have units := (units_most utf8_length_le conv.dropLast).mpr most
      simp only [utf8MogrifyFull, decide_eq_false_iff_not, List.length_nil, Nat.zero_add, units,
        List.length_dropLast] at last
      omega

theorem utfMogrify32_mogrifies {Source : Type} {next : List Source → Option (Int × List Source)}
    {encode : Char → List Source} (takes : TakesCharacters next encode)
    (steps : StepConverts step convert starts) (start : starts none = true)
    (good : ∀ c ∈ text, IsTextCharacter c) (length : Nat) :
    Mogrifies utf32EncodeChar (mogrified convert none text) text length (text.flatMap encode).length
      (utfMogrify32 next step length (text.flatMap encode)) := by
  rw [utfMogrify32]
  split
  next small => exact ⟨_, rfl, fun differ => absurd rfl differ, Nat.zero_le _, fun _ => small⟩
  next large =>
    have outcome := mogrifyLoop_outcome takes steps utf32Put_char (fun _ => false) length good
      (Nat.le_refl _) none 0 []
    rw [start] at outcome
    rw [mogrifyStart]
    generalize mogrifyLoop next step utf32Put (fun _ => false) length (text.flatMap encode).length
      (text.flatMap encode) ⟨true, 0, []⟩ = result at outcome ⊢
    have sized := mogrified_length convert none text
    have longer := takes.length_le text
    cases outcome with
    | exhausted front c before room isFull => simp at isFull
    | converted room =>
      refine ⟨_, rfl, fun _ => ⟨rfl, rfl, by simp⟩, ?_, fun exhausted => ?_⟩
      · have units : ((mogrified convert none text).flatMap utf32EncodeChar).length =
            text.length := by
          simp [utf32EncodeChar, sized]
        simp only [List.nil_append]
        omega
      · dsimp only at exhausted
        split at exhausted <;> simp at exhausted

end Results

/-- The functions do what they are for, with one exception: the UTF-8 versions give up if the
destination has exactly 4 bytes for each character, and the conversion has used all of them up to
the last character. -/
theorem utfMogrify_iff (info : MogrificationInfo) (f1 f2 : Char → Char) (white : Char → Bool)
    (converts : Converts info f1 f2 white) (text : List Char) (good : ∀ c ∈ text, IsTextCharacter c)
    (length : Nat) :
    (Mogrifies utf8EncodeChar (text.map f1) text length (4 * text.length)
        (utf8CharacterMogrify info length (text.flatMap utf8EncodeChar)) ↔
      ¬ (text ≠ [] ∧ length = 4 * text.length ∧ ∀ c ∈ (text.map f1).dropLast,
        (utf8EncodeChar c).length = 4)) ∧
    (Mogrifies utf8EncodeChar (mogrified (wordConversion f1 f2 white) none text) text length
      (4 * text.length)
        (utf8WordMogrify info length (text.flatMap utf8EncodeChar)) ↔
      ¬ (text ≠ [] ∧ length = 4 * text.length ∧
        ∀ c ∈ (mogrified (wordConversion f1 f2 white) none text).dropLast,
        (utf8EncodeChar c).length = 4)) ∧
    Mogrifies utf32EncodeChar (text.map f1) text length (text.flatMap utf16EncodeChar).length
      (utf16CharacterMogrify info length (text.flatMap utf16EncodeChar)) ∧
    Mogrifies utf32EncodeChar (mogrified (wordConversion f1 f2 white) none text) text length
      (text.flatMap utf16EncodeChar).length
    (utf16WordMogrify info length (text.flatMap utf16EncodeChar)) ∧
    Mogrifies utf32EncodeChar (text.map f1) text length (text.flatMap utf32EncodeChar).length
      (utf32CharacterMogrify info length (text.flatMap utf32EncodeChar)) ∧
    Mogrifies utf32EncodeChar (mogrified (wordConversion f1 f2 white) none text) text length
      (text.flatMap utf32EncodeChar).length
    (utf32WordMogrify info length (text.flatMap utf32EncodeChar)) := by
  have characters := characterStep_converts converts
  have words := wordStep_converts converts
  rw [← mogrified_characters f1 none text]
  exact ⟨utf8Mogrify_iff characters rfl good length, utf8Mogrify_iff words rfl good length,
    utfMogrify32_mogrifies utf16MogrifyNext_takes characters rfl good length,
    utfMogrify32_mogrifies utf16MogrifyNext_takes words rfl good length,
    utfMogrify32_mogrifies utf32MogrifyNext_takes characters rfl good length,
    utfMogrify32_mogrifies utf32MogrifyNext_takes words rfl good length⟩

theorem utfMogrify_iff_upper :
    Mogrifies utf8EncodeChar ['A', 'b'] ['a', 'b'] 8 8
      (utf8WordMogrify ⟨fun c => (Char.ofNat c.toNat).toUpper.toNat, id, fun c => c == 32⟩ 8
        [97, 98]) := by
  have converts : Converts ⟨fun c => (Char.ofNat c.toNat).toUpper.toNat, id, fun c => c == 32⟩
    Char.toUpper id
      (fun c => c.toNat == 32) :=
    ⟨fun c _ => by simp, fun _ _ => rfl, fun c _ => by rw [Bool.eq_iff_iff]; simp; omega⟩
  have good : ∀ c ∈ ['a', 'b'], IsTextCharacter c := by
    simp only [List.forall_mem_cons, List.not_mem_nil, false_implies, implies_true, and_true]
    exact ⟨⟨by decide, by unfold IsNoncharacter; decide⟩,
      ⟨by decide, by unfold IsNoncharacter; decide⟩⟩
  have iff := (utfMogrify_iff _ _ _ _ converts ['a', 'b'] good 8).2.1
  exact iff.mpr fun most => absurd (most.2.2 'A' (by simp [mogrified, wordConversion])) (by decide)

/-- One character, and a destination with the 4 bytes that any character fits in. -/
theorem utf8CharacterMogrify_givesUp :
    utf8CharacterMogrify ⟨id, id, fun _ => false⟩ 4 [97] = some ⟨-1, 4, []⟩ := by decide

end MulleCore
