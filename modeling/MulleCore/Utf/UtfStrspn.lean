import MulleCore.Library.SortedSearch
import MulleCore.Utf.Utf16Rounds
import MulleCore.Utf.UtfStrings

/-!
`strspn` and `strcspn`. `flag` picks the sense: 1 to stop at the first character that is not in the
set, 0 to stop at the first one that is.
-/

namespace MulleCore

open Library

def compareMulleUtf32 (a b : Int32) : Int := (a - b).toInt

section Loops

variable {Unit : Type} (next : List Unit → Option (Int32 × List Unit))

def strspnLoop (stops : Int32 → Bool) : Nat → List Unit → Nat → Option Nat
  | 0, _, _ => none
  | fuel + 1, s1, place => do
      let (c, rest) ← next s1
      if c = 0 ∨ stops c then some place
      else strspnLoop stops fuel rest (place + (s1.length - rest.length))

def strspnCopy : Nat → List Unit → Nat → Option (List Int32)
  | 0, _, _ => none
  | fuel + 1, s2, room => do
      let (d, rest) ← next s2
      if d = 0 then some []
      else if room = 0 then none
      else
        let buf ← strspnCopy fuel rest (room - 1)
        some (d :: buf)

def strspnSearch (s1 s2 : List Unit) (room : Nat) (flag : Bool) : Option Nat := do
  let buf ← strspnCopy next s2.length s2 room
  let sorted := qsort compareMulleUtf32 buf
  strspnLoop next (fun c => !(bsearch compareMulleUtf32 c sorted).isSome == flag) s1.length s1 0

end Loops

section Strspn32

def utf32Next : List Int32 → Option (Int32 × List Int32)
  | [] => none
  | c :: s => some (c, s)

def utf32Strxspn (s1 s2 : List Int32) (flag : Bool) : Option Nat := do
  let s2Len ← utfStrlen utf32Unit s2
  if s2Len = 0 then some 0
  else if s2Len = 1 then
    let d ← s2.head?
    strspnLoop utf32Next (fun c => (c != d) == flag) s1.length s1 0
  else strspnSearch utf32Next s1 s2 s2Len flag

def utf32Strspn (s1 s2 : List Int32) : Option Nat := utf32Strxspn s1 s2 true

def utf32Strcspn (s1 s2 : List Int32) : Option Nat := utf32Strxspn s1 s2 false

end Strspn32

section Strspn16

def utf16PullSurrogatepair : List UInt16 → Option (Int32 × List UInt16)
  | [] => none
  | c :: s =>
    if c < 0xD800 ∨ c ≥ 0xDC00 then some (Int32.ofNat c.toNat, s)
    else
      match s with
      | [] => none
      | d :: rest =>
        if d < 0xDC00 ∨ d ≥ 0xE000 then some (Int32.ofNat c.toNat, s)
        else (utf16DecodeSurrogatepair c d).map fun x => (Int32.ofNat x, rest)

def strxspnSpace : Nat := 32

def strxspnRoom (s2Len : Nat) : Nat := if s2Len < 32 then strxspnSpace else 32 * 4 / 4

def utf16Strxspn (s1 : Option (List UInt16)) (s2 : List UInt16) (flag : Bool) : Option Nat :=
  match s1 with
  | none => some 0
  | some s1 => do
      let s2Len ← utfStrlen utf16Unit s2
      if s2Len = 0 then some 0
      else strspnSearch utf16PullSurrogatepair s1 s2 (strxspnRoom s2Len) flag

def utf16Strspn (s1 : Option (List UInt16)) (s2 : List UInt16) : Option Nat := utf16Strxspn s1 s2 true

def utf16Strcspn (s1 : Option (List UInt16)) (s2 : List UInt16) : Option Nat :=
  utf16Strxspn s1 s2 false

end Strspn16

section Compare

theorem compareMulleUtf32_eq {a b : Int32} (left : 0 ≤ a.toInt) (right : 0 ≤ b.toInt) :
    compareMulleUtf32 a b = a.toInt - b.toInt := by
  have most := a.toInt_lt
  have other := b.toInt_lt
  rw [compareMulleUtf32, Int32.toInt_sub]
  exact Int.bmod_eq_of_le (by omega) (by omega)

theorem compareMulleUtf32_ranks :
    ComparesRanks compareMulleUtf32 Int32.toInt (fun c => 0 ≤ c.toInt) where
  zero left right nonneg other := by
    rw [compareMulleUtf32_eq nonneg other]
    omega
  positive left right nonneg other := by
    rw [compareMulleUtf32_eq nonneg other]
    omega

end Compare

section Reads

variable {Unit Character : Type}
variable {text : List Character} {c : Character} {fuel : Nat}

theorem takeWhile_congr {p q : Character → Bool} (same : ∀ c ∈ text, p c = q c) :
    text.takeWhile p = text.takeWhile q := by
  induction text with
  | nil => rfl
  | cons c text ih =>
    rw [List.takeWhile_cons, List.takeWhile_cons, same c (by simp),
      ih (fun d member => same d (List.mem_cons_of_mem c member))]

structure ReadsCharacters (next : List Unit → Option (Int32 × List Unit))
    (encode : Character → List Unit) (value : Character → Int32) (good : Character → Prop)
    (zero : Unit) : Prop where
  nonempty : ∀ c, encode c ≠ []
  positive : ∀ c, good c → 0 < (value c).toInt
  injective : ∀ c d, good c → good d → (value c).toInt = (value d).toInt → c = d
  read : ∀ c, good c → ∀ rest, rest ≠ [] → next (encode c ++ rest) = some (value c, rest)
  ended : ∀ rest, next (zero :: rest) = some (0, rest)

variable {next : List Unit → Option (Int32 × List Unit)} {encode : Character → List Unit}
  {value : Character → Int32} {good : Character → Prop} {zero : Unit}

theorem ReadsCharacters.ne_zero (reads : ReadsCharacters next encode value good zero)
    (isGood : good c) :
    value c ≠ 0 := by
  intro isZero
  have positive := reads.positive c isGood
  rw [isZero] at positive
  exact absurd positive (by decide)

theorem ReadsCharacters.text_ne_nil (text : List Character) (behind : List Unit) :
    text.flatMap encode ++ zero :: behind ≠ [] := by simp

section

variable (reads : ReadsCharacters next encode value good zero)
include reads

theorem ReadsCharacters.enough {behind : List Unit}
    (enough : ((c :: text).flatMap encode ++ zero :: behind).length ≤ fuel + 1) :
    (text.flatMap encode ++ zero :: behind).length ≤ fuel := by
  have positive := List.length_pos_iff.mpr (reads.nonempty c)
  rw [List.flatMap_cons, List.append_assoc, List.length_append] at enough
  omega

theorem strspnLoop_text (stops : Int32 → Bool) (allGood : ∀ c ∈ text, good c) (behind : List Unit)
    (enough : (text.flatMap encode ++ zero :: behind).length ≤ fuel) (place : Nat) :
    strspnLoop next stops fuel (text.flatMap encode ++ zero :: behind) place =
      some (place + ((text.takeWhile fun c => !stops (value c)).flatMap encode).length) := by
  induction text generalizing fuel place with
  | nil =>
    cases fuel with
    | zero => simp at enough
    | succ fuel => simp [strspnLoop, reads.ended]
  | cons c text ih =>
    have isGood := allGood c (by simp)
    cases fuel with
    | zero => simp at enough
    | succ fuel =>
      have read := reads.read c isGood (text.flatMap encode ++ zero :: behind)
        (ReadsCharacters.text_ne_nil text behind)
      have rest := ih (fun d member => allGood d (List.mem_cons_of_mem c member))
        (reads.enough enough) (place + (encode c).length)
      rw [List.flatMap_cons, List.append_assoc, strspnLoop, read, List.takeWhile_cons]
      cases stopped : stops (value c) with
      | true => simp [stopped]
      | false => simp [stopped, reads.ne_zero isGood, rest, Nat.add_assoc]

theorem strspnCopy_text (allGood : ∀ c ∈ text, good c) (behind : List Unit)
    (enough : (text.flatMap encode ++ zero :: behind).length ≤ fuel) (room : Nat) :
    strspnCopy next fuel (text.flatMap encode ++ zero :: behind) room =
      if text.length ≤ room then some (text.map value) else none := by
  induction text generalizing fuel room with
  | nil =>
    cases fuel with
    | zero => simp at enough
    | succ fuel => simp [strspnCopy, reads.ended]
  | cons c text ih =>
    have isGood := allGood c (by simp)
    cases fuel with
    | zero => simp at enough
    | succ fuel =>
      have read := reads.read c isGood (text.flatMap encode ++ zero :: behind)
        (ReadsCharacters.text_ne_nil text behind)
      have rest := ih (fun d member => allGood d (List.mem_cons_of_mem c member))
        (reads.enough enough)
      rw [List.flatMap_cons, List.append_assoc, strspnCopy, read]
      cases room with
      | zero => simp [reads.ne_zero isGood]
      | succ room =>
        simp only [Option.bind_eq_bind, Option.bind_some, reads.ne_zero isGood, if_false,
          Nat.succ_ne_zero, Nat.add_sub_cancel, rest, List.length_cons, Nat.add_le_add_iff_right,
          List.map_cons]
        split <;> simp

theorem strspnSearch_text {set : List Character}
    (allGood : ∀ c ∈ text, good c) (setGood : ∀ c ∈ set, good c) {inSet : Character → Bool}
    (decides : ∀ c, inSet c = true ↔ c ∈ set) (behind past : List Unit) (room : Nat) (flag : Bool) :
    strspnSearch next (text.flatMap encode ++ zero :: behind) (set.flatMap encode ++ zero :: past)
      room flag =
      if set.length ≤ room then
        some ((text.takeWhile fun c => inSet c == flag).flatMap encode).length else none := by
  rw [strspnSearch, strspnCopy_text reads setGood past (Nat.le_refl _)]
  split
  · rw [Option.bind_eq_bind, Option.bind_some, strspnLoop_text reads _ allGood behind
      (Nat.le_refl _), Nat.zero_add]
    congr 3
    apply takeWhile_congr
    intro c member
    have isGood := allGood c member
    have found : (bsearch compareMulleUtf32 (value c)
        (qsort compareMulleUtf32 (set.map value))).isSome = inSet c := by
      rw [Bool.eq_iff_iff, decides, bsearch_qsort_isSome compareMulleUtf32_ranks
        (Int.le_of_lt (reads.positive c isGood))
          (by simpa using fun d member => Int.le_of_lt (reads.positive d (setGood d member)))]
      constructor
      · rintro ⟨item, inside, same⟩
        obtain ⟨d, member, rfl⟩ := List.mem_map.mp inside
        exact reads.injective d c (setGood d member) isGood same ▸ member
      · exact fun member => ⟨value c, List.mem_map_of_mem member, rfl⟩
    rw [found]
    cases inSet c <;> cases flag <;> rfl
  · rfl

end

end Reads

section Spans

variable {s : List UInt16} {t : List Int32} {text : List Char} {set : List Int32}

theorem utf32Next_reads : ReadsCharacters utf32Next (fun c => [c]) id (fun c => 0 < c.toInt) 0 where
  nonempty c := List.cons_ne_nil c []
  positive _ positive := positive
  injective _ _ _ _ same := Int32.toInt_inj.mp same
  read _ _ _ _ := rfl
  ended _ := rfl

theorem utf32Strxspn_text {s text : List Int32} (positive : ∀ c ∈ text, 0 < c.toInt)
    (setPositive : ∀ c ∈ set, 0 < c.toInt) (textEnds : Terminated utf32Unit s text)
    (setEnds : Terminated utf32Unit t set) {inSet : Int32 → Bool}
    (decides : ∀ c, inSet c = true ↔ c ∈ set) (flag : Bool) :
    utf32Strxspn s t flag = some (if set = [] then 0
      else (text.takeWhile fun c => inSet c == flag).length) := by
  obtain ⟨behind, rfl⟩ := textEnds.ends
  have singles : ∀ units : List Int32, units.flatMap (fun c => [c]) = units := by simp
  rw [utf32Strxspn, utfStrlen_terminated setEnds, Option.bind_eq_bind, Option.bind_some]
  match set with
  | [] => simp
  | [d] =>
    obtain ⟨more, rfl, _⟩ := setEnds.cons_cases
    have loop := strspnLoop_text utf32Next_reads (fun c => (c != d) == flag) positive behind
      (Nat.le_refl _) 0
    rw [singles, singles, Nat.zero_add] at loop
    have agree : text.takeWhile (fun c => !(id c != d) == flag) = text.takeWhile fun c => inSet c ==
        flag := by
      apply takeWhile_congr
      intro c _
      have same : inSet c = (c == d) := by
        rw [Bool.eq_iff_iff, decides, beq_iff_eq, List.mem_singleton]
      rw [same, id, bne]
      cases c == d <;> cases flag <;> rfl
    rw [if_neg (by simp), if_pos (List.length_singleton), if_neg (by simp), List.append_assoc,
      ← agree]
    exact loop
  | d :: e :: set =>
    obtain ⟨past, rfl⟩ := setEnds.ends
    have search := strspnSearch_text utf32Next_reads positive setPositive decides behind past
      (d :: e :: set).length flag
    rw [singles, singles, singles, if_pos (Nat.le_refl _)] at search
    rw [if_neg (by simp), if_neg (by simp), List.append_assoc, List.append_assoc, if_neg (by simp)]
    exact search

theorem utf16PullSurrogatepair_reads : ReadsCharacters utf16PullSurrogatepair utf16EncodeChar
    (fun c => Int32.ofNat c.toNat) (fun c => c ≠ '\x00') 0 where
  nonempty := utf16_prefixFree.ne_nil
  positive c nonzero := by
    have scalar := Char.scalar c
    rw [toInt_ofNat32 (by omega)]
    have differ : c.toNat ≠ 0 := fun same => nonzero (Char.toNat_injective same)
    omega
  injective c d _ _ same := by
    have scalar := Char.scalar c
    have other := Char.scalar d
    rw [toInt_ofNat32 (by omega), toInt_ofNat32 (by omega)] at same
    exact Char.toNat_injective (by omega)
  read c _ rest nonempty := by
    have shape := utf16_shape c
    have scalar := Char.scalar c
    generalize utf16EncodeChar c = units at shape
    cases shape with
    | one a small value _ notHigh =>
      have outside : a < 0xD800 ∨ a ≥ 0xDC00 := by
        simp only [UInt16.lt_iff_toNat_lt, ge_iff_le, UInt16.le_iff_toNat_le, UInt16.reduceToNat]
        omega
      simp [utf16PullSurrogatepair, outside, value]
    | two a d _ high low decoded =>
      have inside : ¬ (a < 0xD800 ∨ a ≥ 0xDC00) := by
        simp only [UInt16.lt_iff_toNat_lt, ge_iff_le, UInt16.le_iff_toNat_le, UInt16.reduceToNat]
        omega
      have isLow : ¬ (d < 0xDC00 ∨ d ≥ 0xE000) := by
        simp only [UInt16.lt_iff_toNat_lt, ge_iff_le, UInt16.le_iff_toNat_le, UInt16.reduceToNat]
        omega
      simp [utf16PullSurrogatepair, inside, isLow, decoded]
  ended _ := rfl

theorem utf16EncodeChar_zero : utf16EncodeChar '\x00' = [0] := by decide

theorem Terminated.no_zero
    (terminated : Terminated utf16Unit s (text.flatMap utf16EncodeChar)) :
    ∀ c ∈ text, c ≠ '\x00' := by
  rintro c member rfl
  refine terminated.nonzero 0 (List.mem_flatMap.mpr ⟨_, member, ?_⟩) rfl
  rw [utf16EncodeChar_zero]
  exact List.mem_singleton_self 0

theorem utf16Strxspn_text {t : List UInt16} {set : List Char}
    (textEnds : Terminated utf16Unit s (text.flatMap utf16EncodeChar))
    (setEnds : Terminated utf16Unit t (set.flatMap utf16EncodeChar)) {inSet : Char → Bool}
    (decides : ∀ c, inSet c = true ↔ c ∈ set) (flag : Bool) :
    utf16Strxspn (some s) t flag = if set = [] then some 0 else if set.length ≤ 32 then
      some ((text.takeWhile fun c => inSet c == flag).flatMap utf16EncodeChar).length else none := by
  rw [utf16Strxspn, utfStrlen_terminated setEnds, Option.bind_eq_bind, Option.bind_some]
  by_cases empty : set = []
  · subst empty
    rfl
  · have positive : (set.flatMap utf16EncodeChar).length ≠ 0 := by
      have longer := utf16_prefixFree.length_le set
      have nonempty := List.length_pos_iff.mpr empty
      omega
    have noZero := textEnds.no_zero
    have setNoZero := setEnds.no_zero
    obtain ⟨behind, rfl⟩ := textEnds.ends
    obtain ⟨past, rfl⟩ := setEnds.ends
    have room : strxspnRoom (set.flatMap utf16EncodeChar).length = 32 := by
      rw [strxspnRoom]
      split <;> rfl
    rw [if_neg positive, if_neg empty, room, List.append_assoc, List.append_assoc]
    exact strspnSearch_text utf16PullSurrogatepair_reads noZero setNoZero decides behind past 32 flag

theorem takeWhile_outside {Character : Type} {text : List Character} {inSet : Character → Bool}
    (decides : ∀ c, inSet c = true ↔ c ∈ []) (flag : Bool) :
    text.takeWhile (fun c => inSet c == flag) = if flag then [] else text := by
  have outside : ∀ c, inSet c = false := by
    intro c
    rw [Bool.eq_false_iff, ne_eq, decides]
    exact List.not_mem_nil
  induction text with
  | nil => cases flag <;> rfl
  | cons c text ih =>
    rw [List.takeWhile_cons, ih, outside]
    cases flag <;> rfl

theorem utf32Strspn_exact_iff {s text : List Int32} (positive : ∀ c ∈ text, 0 < c.toInt)
    (setPositive : ∀ c ∈ set, 0 < c.toInt) (textEnds : Terminated utf32Unit s text)
    (setEnds : Terminated utf32Unit t set) (inSet : Int32 → Bool)
    (decides : ∀ c, inSet c = true ↔ c ∈ set) :
    (utf32Strspn s t = some (text.takeWhile fun c => inSet c == true).length ∧
      utf32Strcspn s t = some (text.takeWhile fun c => inSet c == false).length) ↔ (set = [] →
      text = []) := by
  rw [utf32Strspn, utf32Strcspn, utf32Strxspn_text positive setPositive textEnds setEnds decides,
    utf32Strxspn_text positive setPositive textEnds setEnds decides]
  by_cases empty : set = []
  · subst empty
    rw [takeWhile_outside decides, takeWhile_outside decides]
    simp [eq_comm]
  · simp [empty]

theorem utf16Strspn_exact_iff {t : List UInt16} {set : List Char}
    (textEnds : Terminated utf16Unit s (text.flatMap utf16EncodeChar))
    (setEnds : Terminated utf16Unit t (set.flatMap utf16EncodeChar)) (inSet : Char → Bool)
    (decides : ∀ c, inSet c = true ↔ c ∈ set) :
    (utf16Strspn (some s) t = some ((text.takeWhile fun c => inSet c == true).flatMap
      utf16EncodeChar).length ∧
      utf16Strcspn (some s) t =
        some ((text.takeWhile fun c => inSet c == false).flatMap utf16EncodeChar).length) ↔
      (set = [] → text = []) ∧ set.length ≤ 32 := by
  rw [utf16Strspn, utf16Strcspn, utf16Strxspn_text textEnds setEnds decides,
    utf16Strxspn_text textEnds setEnds decides]
  by_cases empty : set = []
  · subst empty
    have zero : 0 = (text.flatMap utf16EncodeChar).length ↔ text = [] := by
      rw [eq_comm, List.length_eq_zero_iff, List.flatMap_eq_nil_iff]
      constructor
      · exact fun none => List.eq_nil_iff_forall_not_mem.mpr fun c member => utf16_prefixFree.ne_nil
          c (none c member)
      · rintro rfl
        exact fun _ member => absurd member List.not_mem_nil
    rw [takeWhile_outside decides, takeWhile_outside decides]
    simp only [if_true, Bool.false_eq_true, if_false, Option.some_inj, zero]
    simp
  · by_cases few : set.length ≤ 32 <;> simp [empty, few]

/-- `mulle_utf32_t` is for values up to 0x10FFFF and never negative. An empty set makes both return
0, and the 16-bit versions have room for 32 characters of the set. -/
theorem utfStrspn_exact_iff (s32 t32 text32 set32 : List Int32) (s16 t16 : List UInt16)
    (text16 set16 : List Char) :
    ((∀ c ∈ text32, 0 < c.toInt) → (∀ c ∈ set32, 0 < c.toInt) →
      Terminated utf32Unit s32 text32 → Terminated utf32Unit t32 set32 →
      ((utf32Strspn s32 t32 = some (text32.takeWhile fun c => set32.contains c).length ∧
        utf32Strcspn s32 t32 = some (text32.takeWhile fun c => !set32.contains c).length) ↔
          (set32 = [] → text32 = []))) ∧
    (Terminated utf16Unit s16 (text16.flatMap utf16EncodeChar) → Terminated utf16Unit t16
      (set16.flatMap utf16EncodeChar) →
      ((utf16Strspn (some s16) t16 =
          some ((text16.takeWhile fun c => set16.contains c).flatMap utf16EncodeChar).length ∧
        utf16Strcspn (some s16) t16 =
          some ((text16.takeWhile fun c => !set16.contains c).flatMap utf16EncodeChar).length) ↔
        (set16 = [] → text16 = []) ∧ set16.length ≤ 32)) := by
  constructor
  · intro positive setPositive textEnds setEnds
    have exact := utf32Strspn_exact_iff positive setPositive textEnds setEnds
      (fun c => set32.contains c) (by simp)
    simpa using exact
  · intro textEnds setEnds
    have exact := utf16Strspn_exact_iff textEnds setEnds (fun c => set16.contains c) (by simp)
    simpa using exact

theorem utfStrspn_exact_one :
    (utf32Strspn [97, 98, 0] [98, 0] = some 0 ∧ utf32Strcspn [97, 98, 0] [98, 0] = some 1) ∧
    (utf16Strspn (some [97, 98, 0]) [98, 0] = some 0 ∧ utf16Strcspn (some [97, 98, 0]) [98,
      0] = some 1) := by
  have exact := utfStrspn_exact_iff [97, 98, 0] [98, 0] [97, 98] [98] [97, 98, 0] [98, 0]
    ['a', 'b'] ['b']
  constructor
  · exact (exact.1 (by simp) (by simp) ⟨by simp [utf32Unit], [], rfl⟩ ⟨by simp [utf32Unit], [],
      rfl⟩).mpr (by simp)
  · exact (exact.2 ⟨by simp [utf16EncodeChar, utf16Unit], [], rfl⟩
      ⟨by simp [utf16EncodeChar, utf16Unit], [], rfl⟩).mpr (by simp)

/-- The prefix of "a" without characters of an empty set is not empty, and 33 characters do not fit.
-/
theorem utfStrspn_differs : utf32Strcspn [97, 0] [0] = some 0 ∧
    utf16Strcspn (some [97, 0]) [0] = some 0 ∧
    utf16Strspn (some [97, 0]) (List.replicate 33 98 ++ [0]) = none := by decide

end Spans

end MulleCore
