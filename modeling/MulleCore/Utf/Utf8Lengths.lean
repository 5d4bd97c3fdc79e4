import MulleCore.Utf.UtfConverters

/-!
The lengths of converted UTF-8, as the length functions and the information function
count them.
-/

namespace MulleCore

open Library
open String (utf8EncodeChar)

section Sizes

theorem utf8EncodeChar_length (c : Char) : (utf8EncodeChar c).length =
    if c.toNat < 0x80 then 1 else if c.toNat < 0x800 then 2 else if c.toNat < 0x10000 then
      3 else 4 := by
  have form := utf8EncodeChar_form c
  generalize utf8EncodeChar c = bytes at form
  cases form <;> simp only [List.length_cons, List.length_nil] <;> grind

theorem utf16EncodeChar_length (c : Char) : (utf16EncodeChar c).length = if c.toNat < 0x10000 then
    1 else 2 := by
  rw [utf16EncodeChar]
  split <;> rfl

theorem utf32EncodeChar_length (c : Char) : (utf32EncodeChar c).length = 1 := rfl

end Sizes

section Utf8

variable {src : List UInt8} {start : Nat} {first : UtfInformation} {index : Nat}

def utf8LengthCount (less : Nat → Nat) (dstLen : Int) (c : Char) : Int :=
  if c.toNat < 0x80 then dstLen else dstLen - less ((utf8EncodeChar c).length - 1)

def utf8InformationCount (acc : Nat × Int × UtfInformation) (c : Char) : Nat × Int × UtfInformation :=
  let (index, dstLen, info) := acc
  if c.toNat < 0x80 then
    (index + 1, dstLen, { info with isChar5 := info.isChar5 && utfIsChar5character c.toNat })
  else
    (index + (utf8EncodeChar c).length, dstLen - ((utf8EncodeChar c).length - 1 : Nat),
      { info with
        isAscii := false
        isUtf15 := info.isUtf15 && ! decide (c.toNat ≥ 0x08000)
        utf16len := if c.toNat ≥ 0x10000 then info.utf16len + 1 else info.utf16len })

theorem utf8LengthFrom_rounds (less : Nat → Nat) :
    Rounds utf8EncodeChar (fun _ => True) (utf8LengthFrom less) (utf8LengthCount less) := by
  intro fuel c rest dstLen _
  have shape := utf8_shape c
  rw [utf8LengthCount]
  generalize utf8EncodeChar c = bytes at shape ⊢
  cases shape with
  | ascii b small ascii value =>
    simp only [List.cons_append, List.nil_append, utf8LengthFrom, ascii, Bool.not_true,
      Bool.false_and, Bool.false_eq_true, if_false, if_true, if_pos small]
  | sequence b more large notAscii starts extra sizes follows _ =>
    have enough : ¬ more.length > (more ++ rest).length + 1 := by
      rw [List.length_append]
      omega
    simp only [List.cons_append, utf8LengthFrom, notAscii, starts, extra, if_neg enough,
      List.take_left, follows, List.drop_left, Bool.not_false, Bool.and_false, Bool.false_eq_true,
      if_false, and_self, if_true,
      if_neg (Nat.not_lt.mpr large), List.length_cons, Nat.add_sub_cancel]

theorem utf8InformationFrom_rounds : Rounds utf8EncodeChar IsTextCharacter
    (fun fuel src acc => utf8InformationFrom fuel src acc.1 acc.2.1 acc.2.2)
      utf8InformationCount := by
  rintro fuel c rest ⟨index, dstLen, info⟩ good
  have round := utf8_round good
  have length := utf8EncodeChar_length c
  beta_reduce
  simp only [utf8InformationCount]
  generalize utf8EncodeChar c = bytes at round length ⊢
  cases round with
  | ascii b nonzero ascii value =>
    rw [utf8IsAsciicharacter_eq, value] at ascii
    have isAscii := (utf8IsAsciicharacter_eq b).mpr (value ▸ ascii)
    simp only [List.cons_append, List.nil_append, utf8InformationFrom, isAscii, if_neg nonzero,
      if_true, if_pos ascii, value]
  | sequence b more notAscii starts extra sizes _ accepted _ =>
    have enough : ¬ more.length > (more ++ rest).length := by simp
    have large : ¬ c.toNat < 0x80 := by
      intro small
      rw [if_pos small, List.length_cons] at length
      omega
    simp only [List.cons_append, utf8InformationFrom, notAscii, starts, extra, if_neg enough,
      accepted, List.drop_left, Bool.false_eq_true, if_false, if_neg large, List.length_cons,
      Nat.add_sub_cancel]

variable {text : List Char}

theorem utf8Utf16length_text (text : List Char) :
    utf8Utf16length (text.flatMap utf8EncodeChar) =
      some ((text.flatMap utf16EncodeChar).length : Int) := by
  refine (utf8LengthFrom_rounds _).length utf8_prefixFree some (fun fuel len => ?_)
    (fun acc c => ?_) (fun _ _ => trivial)
  · cases fuel <;> rfl
  · rw [utf8LengthCount, utf8EncodeChar_length, utf16EncodeChar_length]
    grind

theorem utf8Utf32length_text (text : List Char) :
    utf8Utf32length (text.flatMap utf8EncodeChar) =
      some ((text.flatMap utf32EncodeChar).length : Int) := by
  refine (utf8LengthFrom_rounds _).length utf8_prefixFree some (fun fuel len => ?_)
    (fun acc c => ?_) (fun _ _ => trivial)
  · cases fuel <;> rfl
  · rw [utf8LengthCount, utf8EncodeChar_length, utf32EncodeChar_length]
    grind

structure InformationCounts (text : List Char) (start : Nat) (info : UtfInformation) : Prop where
  begins : info.start = some start
  utf8 : info.utf8len = (text.flatMap utf8EncodeChar).length
  utf16 : info.utf16len = (text.flatMap utf16EncodeChar).length
  utf32 : info.utf32len = (text.flatMap utf32EncodeChar).length

theorem utf8InformationFrom_stuck (fuel : Nat) (src : List UInt8) (acc : Nat × Int × UtfInformation)
    (enough : src.length ≤ fuel) (stuck : Stuck utf8EncodeChar IsTextCharacter src)
    (nonzero : ∀ b ∈ src, b ≠ 0) : ∃ index, utf8InformationFrom fuel src acc.1 acc.2.1 acc.2.2 =
      .error index := by
  cases src with
  | nil => exact absurd rfl stuck.1
  | cons b src =>
    obtain ⟨notAscii, refused⟩ := utf8_stuck stuck (nonzero b List.mem_cons_self)
    rw [List.length_cons] at enough
    obtain ⟨fuel, rfl⟩ : ∃ less, fuel = less + 1 := ⟨fuel - 1, by omega⟩
    refine ⟨acc.1, ?_⟩
    simp only [utf8InformationFrom, notAscii, Bool.false_eq_true, if_false]
    split
    · rfl
    · rename_i starts
      split
      · rfl
      · simp only [refused (Bool.eq_false_iff.mpr starts)]

theorem utf8InformationCount_counts (text : List Char) (start : Nat) (len : Int)
    (info : UtfInformation) {after : Nat × Int × UtfInformation}
    (counted : text.foldl utf8InformationCount (start, len, info) = after) :
    (after.1 : Int) = start + (text.flatMap utf8EncodeChar).length ∧
      after.2.1 + (text.flatMap utf8EncodeChar).length = len + (text.flatMap utf32EncodeChar).length ∧
      after.2.2.utf16len + (text.flatMap utf32EncodeChar).length =
        info.utf16len + (text.flatMap utf16EncodeChar).length ∧
      after.2.2.start = info.start := by
  subst counted
  have indexed := foldl_measure (fun acc => (acc.1 : Int)) utf8InformationCount
    (fun _ => ([] : List UInt8)) utf8EncodeChar text (start, len, info) ?_
  have left := foldl_measure (fun acc => acc.2.1) utf8InformationCount utf8EncodeChar utf32EncodeChar
    text (start, len, info) ?_
  have longer := foldl_measure (fun acc => acc.2.2.utf16len) utf8InformationCount utf32EncodeChar
    utf16EncodeChar text (start, len, info) ?_
  · have empty : (text.flatMap fun _ => ([] : List UInt8)).length = 0 := by simp
    rw [empty] at indexed
    refine ⟨by simpa using indexed, left, longer, ?_⟩
    refine foldl_keeps (fun acc => acc.2.2.start) (fun acc c => ?_) text (start, len, info)
    rw [utf8InformationCount]
    split <;> rfl
  · intro acc c _
    rw [utf8InformationCount, utf16EncodeChar_length, utf32EncodeChar_length]
    grind
  · intro acc c _
    rw [utf8InformationCount, utf8EncodeChar_length, utf32EncodeChar_length]
    grind
  · intro acc c _
    rw [utf8InformationCount, utf8EncodeChar_length]
    grind

def utf8Start (src : List UInt8) : Nat := if utf8HasLeadingBomcharacter src then 3 else 0

theorem utf8Start_le (src : List UInt8) : utf8Start src ≤ src.length := by
  rw [utf8Start]
  split
  · rename_i leads
    have length := congrArg List.length (utf8HasLeadingBomcharacter_eq leads)
    have bom : (utf8EncodeChar (Char.ofNat 0xFEFF)).length = 3 := by decide
    rw [List.length_append] at length
    omega
  · omega

theorem utf8Information_accepts (proper : src ≠ []) {info : UtfInformation}
    {dstLen : Int} (start_eq : utf8Start src = start)
    (first_eq : { utfInformationInit with hasBom := utf8HasLeadingBomcharacter src, start := some start } = first)
    (accepted : utf8InformationFrom src.length (src.drop start) start (src.length - start) first =
      .ok (index, dstLen, info)) :
    utf8Information src = (0, { info with
      utf8len := index - start
      utf32len := dstLen - (src.length - start - (index - start))
      utf16len := info.utf16len + (dstLen - (src.length - start - (index - start)))
      isChar5 := info.isChar5 && info.isAscii }) := by
  subst start_eq first_eq
  rw [utf8Start] at accepted
  simp only [utf8Information, if_neg proper, accepted]
  rfl

theorem utf8Information_refuses (proper : src ≠ []) (start_eq : utf8Start src = start)
    (first_eq : { utfInformationInit with hasBom := utf8HasLeadingBomcharacter src, start := some start } = first)
    (refused : utf8InformationFrom src.length (src.drop start) start (src.length - start) first =
      .error index) :
    utf8Information src = (-1, utfInformationFail index) := by
  subst start_eq first_eq
  rw [utf8Start] at refused
  simp only [utf8Information, if_neg proper, refused]

theorem utf8Information_outcome (src : List UInt8) (nonzero : ∀ b ∈ src, b ≠ 0) :
    (∃ text info, Spells utf8EncodeChar IsTextCharacter text (src.drop (utf8Start src)) ∧
        utf8Information src = (0, info) ∧ InformationCounts text (utf8Start src) info) ∨
      (utf8Information src).1 = -1 ∧
        ¬ ∃ text, Spells utf8EncodeChar IsTextCharacter text (src.drop (utf8Start src)) := by
  by_cases empty : src = []
  · subst empty
    exact .inl ⟨[], utfInformationInit, ⟨by simp, rfl⟩, rfl, rfl, rfl, rfl, rfl⟩
  have inside := utf8Start_le src
  generalize start_eq : utf8Start src = start at inside ⊢
  obtain ⟨first, first_eq⟩ : ∃ first : UtfInformation,
    { utfInformationInit with hasBom := utf8HasLeadingBomcharacter src, start := some start } =
      first := ⟨_, rfl⟩
  have begins : first.start = some start := by rw [← first_eq]
  have noUnits : first.utf16len = 0 := by
    rw [← first_eq]
    rfl
  have outcome := utf8InformationFrom_rounds.outcome utf8_prefixFree 0 (fun acc => .ok acc)
    (fun result => ∃ index, result = .error index) (fun fuel acc => by cases fuel <;> rfl)
    utf8InformationFrom_stuck src.length (src.drop start)
    (by rw [List.length_drop]; omega) (fun b member => nonzero b (List.mem_of_mem_drop member))
    (start, (src.length - start : Int), first)
  beta_reduce at outcome
  rcases outcome with ⟨text, spells, accepted⟩ | ⟨⟨index, refused⟩, unspelled⟩
  · left
    generalize counted : text.foldl utf8InformationCount _ = after at accepted
    obtain ⟨index, dstLen, info⟩ := after
    obtain ⟨indexed, left, longer, same⟩ := utf8InformationCount_counts text start _ first counted
    dsimp only at indexed left longer same
    have length := congrArg List.length spells.2
    rw [List.length_drop] at length
    refine ⟨text, _, spells, utf8Information_accepts empty start_eq first_eq accepted, ?_, ?_, ?_, ?_⟩
    · exact same.trans begins
    · dsimp only
      omega
    · dsimp only
      omega
    · dsimp only
      omega
  · right
    rw [utf8Information_refuses empty start_eq first_eq refused]
    exact ⟨rfl, unspelled⟩

end Utf8

/-!
The lengths of a UTF-8 text that is cut off. The cut is noticed if it is within a character, unless
only the last byte of the character is gone.
-/

variable {Unit : Type} {less : Nat → Nat} {text : List Char} {cut : Nat}

theorem utf8LengthFrom_part (c : Char) (fuel part : Nat) (dstLen : Int) (begun : 0 < part)
    (proper : part < (utf8EncodeChar c).length) :
    utf8LengthFrom less (fuel + 1) ((utf8EncodeChar c).take part) dstLen =
      if part + 1 = (utf8EncodeChar c).length then none else some (2 ^ 64 - 1) := by
  have shape := utf8_shape c
  obtain ⟨part, rfl⟩ := Nat.exists_eq_add_of_lt begun
  generalize utf8EncodeChar c = bytes at shape proper ⊢
  cases shape with
  | ascii b small ascii value => simp at proper
  | sequence b more large notAscii starts extra sizes follows _ =>
    rw [List.length_cons] at proper
    have left : (more.take part).length = part := List.length_take_of_le (by omega)
    simp only [Nat.zero_add, List.take_succ_cons, utf8LengthFrom, notAscii, starts, extra, left,
      List.length_cons, Bool.not_false, Bool.and_false, Bool.false_eq_true, if_false]
    by_cases last : part + 1 = more.length
    · have short : ¬ ((more.take part).take more.length).length = more.length := by
        rw [List.length_take, left]
        omega
      rw [if_neg (by omega), if_neg (by tauto), if_pos (by omega)]
    · rw [if_pos (by omega), if_neg (by omega)]

structure LengthOfCut (encode : Char → List Unit) (length : List UInt8 → Option Int)
    (text : List Char) (cut : Nat) : Prop where
  lost : length ((text.flatMap utf8EncodeChar).take cut) = some (2 ^ 64 - 1) ↔
    CutsInside utf8EncodeChar text cut
  kept : ∀ front, front <+: text → (front.flatMap utf8EncodeChar).length = cut →
    length ((text.flatMap utf8EncodeChar).take cut) = some ((front.flatMap encode).length : Int)

theorem utf8LengthFrom_cut (encode : Char → List Unit)
    (whole : ∀ text : List Char, utf8LengthFrom less (text.flatMap utf8EncodeChar).length
      (text.flatMap utf8EncodeChar) (text.flatMap utf8EncodeChar).length = some
    ((text.flatMap encode).length : Int)) (shorter : ∀ text :
    List Char, (text.flatMap encode).length ≤ (text.flatMap utf8EncodeChar).length)
    (inside : cut ≤ (text.flatMap utf8EncodeChar).length)
    (fits : (text.flatMap utf8EncodeChar).length < 2 ^ 64 - 1) :
    LengthOfCut encode (fun src => utf8LengthFrom less src.length src src.length) text cut ↔
      ¬ (CutsInside utf8EncodeChar text cut ∧ ¬ CutsInside utf8EncodeChar text (cut + 1)) := by
  rcases exists_cut text cut inside with ⟨front, before, same⟩ | ⟨front, c, part, before, begun,
    proper, same, taken⟩
  · have notInside : ¬ CutsInside utf8EncodeChar text cut := fun within => within front before same
    refine ⟨fun _ both => notInside both.1, fun _ => ⟨?_, ?_⟩⟩
    · rw [flatMap_take before same, whole]
      refine ⟨fun lost => ?_, fun within => absurd within notInside⟩
      have := shorter front
      have := Option.some.inj lost
      omega
    · intro other otherBefore otherSame
      rw [flatMap_take otherBefore otherSame, whole]
  · have within : CutsInside utf8EncodeChar text cut := same ▸ cutsInside_of_part before begun proper
    have counted : ∃ dstLen, utf8LengthFrom less ((text.flatMap utf8EncodeChar).take cut).length
        ((text.flatMap utf8EncodeChar).take cut) ((text.flatMap utf8EncodeChar).take cut).length =
        utf8LengthFrom less (cut - front.length) ((utf8EncodeChar c).take part) dstLen := by
      have short := utf8_prefixFree.length_le front
      rw [List.length_take_of_le inside, taken]
      exact ⟨_, (utf8LengthFrom_rounds less).text front cut cut (fun _ _ => trivial) (by omega)⟩
    obtain ⟨dstLen, counted⟩ := counted
    have short := utf8_prefixFree.length_le front
    rw [show cut - front.length = (cut - front.length - 1) + 1 by omega,
      utf8LengthFrom_part c _ part dstLen begun proper] at counted
    have next : ¬ CutsInside utf8EncodeChar text (cut + 1) ↔
        part + 1 = (utf8EncodeChar c).length := by
      constructor
      · intro behind
        by_contra more
        have later : CutsInside utf8EncodeChar text
          ((front.flatMap utf8EncodeChar).length + (part + 1)) :=
          cutsInside_of_part before (by omega) (by omega)
        rw [← Nat.add_assoc, same] at later
        exact behind later
      · intro last behind
        refine behind (front ++ [c]) before ?_
        rw [List.flatMap_append, List.length_append, List.flatMap_singleton]
        omega
    rw [next]
    constructor
    · rintro right ⟨_, last⟩
      have lost := right.lost.mpr within
      rw [counted, if_pos last] at lost
      contradiction
    · intro noticed
      refine ⟨⟨fun _ => within, fun _ => ?_⟩, fun other otherBefore otherSame => absurd otherSame
        (within other otherBefore)⟩
      rw [counted, if_neg (fun last => noticed ⟨within, last⟩)]

theorem utf16_length_le (text : List Char) :
    (text.flatMap utf16EncodeChar).length ≤ (text.flatMap utf8EncodeChar).length := by
  induction text with
  | nil => simp
  | cons c text ih =>
    have first : (utf16EncodeChar c).length ≤ (utf8EncodeChar c).length := by
      rw [utf16EncodeChar_length, utf8EncodeChar_length]
      grind
    simp only [List.flatMap_cons, List.length_append]
    omega

theorem utf32_length_le (text : List Char) :
    (text.flatMap utf32EncodeChar).length ≤ (text.flatMap utf8EncodeChar).length := by
  have short := utf8_prefixFree.length_le text
  simpa [utf32EncodeChar] using short

/-- The lengths are right unless the cut takes only the last byte of a character. A length of -1
stands for a text up to its zero. -/
theorem utf8Length_cut_iff (text : List Char) (cut : Nat)
    (inside : cut ≤ (text.flatMap utf8EncodeChar).length)
    (fits : (text.flatMap utf8EncodeChar).length < 2 ^ 64 - 1) :
    (LengthOfCut utf16EncodeChar utf8Utf16length text cut ↔
      ¬ (CutsInside utf8EncodeChar text cut ∧ ¬ CutsInside utf8EncodeChar text (cut + 1))) ∧
    (LengthOfCut utf32EncodeChar utf8Utf32length text cut ↔
      ¬ (CutsInside utf8EncodeChar text cut ∧ ¬ CutsInside utf8EncodeChar text (cut + 1))) :=
  ⟨utf8LengthFrom_cut utf16EncodeChar utf8Utf16length_text utf16_length_le inside fits,
    utf8LengthFrom_cut utf32EncodeChar utf8Utf32length_text utf32_length_le inside fits⟩

theorem utf8Length_cut_iff_euro : LengthOfCut utf16EncodeChar utf8Utf16length ['€'] 1 := by
  refine (utf8Length_cut_iff ['€'] 1 (by decide) (by decide)).1.mpr ?_
  rintro ⟨_, behind⟩
  exact behind (@cutsInside_of_part _ _ utf8EncodeChar ['€'] [] '€' 2 (by simp) (by decide)
    (by decide))

/-- `é` without its last byte. -/
theorem utf8Length_cut_letter :
    ¬ LengthOfCut utf16EncodeChar utf8Utf16length ['é'] 1 ∧
    ¬ LengthOfCut utf32EncodeChar utf8Utf32length ['é'] 1 := by
  have within : CutsInside utf8EncodeChar ['é'] 1 :=
    @cutsInside_of_part _ _ utf8EncodeChar ['é'] [] 'é' 1 (by simp) (by decide) (by decide)
  constructor
  · intro right
    exact absurd (right.lost.mpr within) (by decide)
  · intro right
    exact absurd (right.lost.mpr within) (by decide)

end MulleCore
