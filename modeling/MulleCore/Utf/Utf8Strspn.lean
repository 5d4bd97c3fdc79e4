import MulleCore.Utf.UtfConverters
import MulleCore.Utf.UtfStrspn

/-!
`mulle_utf8_strnchr`, `mulle_utf8_strspn` and `mulle_utf8_strcspn` of `mulle-utf8-string.c`, where
`char` is signed. The latter two look up each byte of the string for itself.
-/

namespace MulleCore

open Library
open String (utf8EncodeChar)

def utf8Unit : StringUnit UInt8 where
  int c := c.toInt8.toInt32
  int_injective _ _ same := by
    have bytes := congrArg Int32.toInt8 same
    rw [Int8.toInt8_toInt32, Int8.toInt8_toInt32] at bytes
    exact congrArg Int8.toUInt8 bytes
  zero := 0
  int_zero := rfl

def memchr (c : UInt8) : Nat → List UInt8 → Option (Option Nat)
  | 0, _ => some none
  | _ + 1, [] => none
  | len + 1, d :: s =>
    if d = c then some (some 0) else (memchr c len s).map fun place => place.map (· + 1)

def utf8StrnstrHere : List UInt8 → List UInt8 → Option Bool
  | _, [] => none
  | p, d :: q =>
    if d = 0 then some true
    else
      match p with
      | [] => none
      | c :: p => if c = d then utf8StrnstrHere p q else some false

def utf8StrnstrCandidate (candidate search : List UInt8) : Option Bool :=
  match candidate, search with
  | c :: p, d :: q => if c ≠ d then some false else utf8StrnstrHere p q
  | _, _ => none

def utf8StrnstrLoop (search : List UInt8) : Nat → List UInt8 → Option (Option Nat)
  | 0, _ => some none
  | left + 1, s => do
      let found ← utf8StrnstrCandidate s search
      if found then some (some 0)
      else (utf8StrnstrLoop search left s.tail).map fun place => place.map (· + 1)

def utf8Strnstr (s : List UInt8) (len : Nat) (search : List UInt8) : Option (Option Nat) := do
  let searchLen ← utfStrlen utf8Unit search
  if searchLen = 0 then some (some 0)
  else if searchLen > len then some none
  else utf8StrnstrLoop search (len - searchLen + 1) s

/-- The inline function writes what the converter writes. -/
def utf32AsUtf8 (x : Int32) : Option (List UInt8) := utf32Utf8Bytes x.toInt

/-- A length of `none` is `-1`. -/
def utf8Strnchr (s : Option (List UInt8)) (len : Option Nat) (c : Int32) : Option (Option Nat) :=
  match s with
  | none => some none
  | some s => do
      let len ← (match len with
        | some len => some len
        | none => (utfStrlen utf8Unit s).map (· + 1))
      let buf ← utf32AsUtf8 c
      if buf.length = 1 then memchr c.toInt8.toUInt8 len s else utf8Strnstr s len (buf ++ [0])

def utf8Strchr (s : Option (List UInt8)) (c : Int32) : Option (Option Nat) := utf8Strnchr s none c

def utf8StrxspnLoop (search : Option (List UInt8)) (flag : Bool) : List UInt8 → Option Nat
  | [] => none
  | c :: s =>
    if c = 0 then some 0
    else do
      let found ← utf8Strchr search (utf8Unit.int c)
      if found.isSome != flag then some 0 else (utf8StrxspnLoop search flag s).map (· + 1)

def utf8Strxspn (string search : Option (List UInt8)) (flag : Bool) : Option Nat :=
  match string with
  | none => some 0
  | some string => utf8StrxspnLoop search flag string

def utf8Strspn (s search : Option (List UInt8)) : Option Nat := utf8Strxspn s search true

def utf8Strcspn (s search : Option (List UInt8)) : Option Nat := utf8Strxspn s search false

section Bytes

variable {c : UInt8} {s p q text pattern : List UInt8}

theorem memchr_finds (c : UInt8) : ∀ (len : Nat) (s : List UInt8), len ≤ s.length →
    ∃ result, memchr c len s = some result ∧ FirstOccurrence [c] (s.take len) result := by
  intro len
  induction len with
  | zero => exact fun s _ => ⟨none, rfl, .tooShort (by simp)⟩
  | succ len ih =>
    intro s inside
    cases s with
    | nil => simp at inside
    | cons d s =>
      rw [memchr, List.take_succ_cons]
      split
      next same =>
        subst same
        exact ⟨some 0, rfl, .here (by simp)⟩
      next other =>
        obtain ⟨result, found, first⟩ := ih s (Nat.le_of_succ_le_succ inside)
        have absent : ¬[c] <+: d :: s.take len := by
          simpa using Ne.symm other
        exact ⟨_, by rw [found, Option.map_some], first.later d absent⟩

theorem firstOccurrence_isSome_iff {result : Option Nat} (first : FirstOccurrence [c] text result) :
    result.isSome = true ↔ c ∈ text := by
  cases result with
  | none =>
    refine ⟨(fun absurdity => nomatch absurdity), fun member => ?_⟩
    obtain ⟨place, inside, rfl⟩ := List.mem_iff_getElem.mp member
    refine absurd ?_ (first place)
    rw [List.drop_eq_getElem_cons inside]
    exact List.cons_prefix_cons.mpr ⟨rfl, List.nil_prefix⟩
  | some place =>
    refine ⟨fun _ => ?_, fun _ => rfl⟩
    exact List.mem_of_mem_drop (first.2.1.subset (List.mem_singleton_self c))

theorem utf8StrnstrHere_decides : ∀ (q p : List UInt8), (∀ d ∈ q, d ≠ 0) → q.length ≤ p.length →
    ∀ behind,
    utf8StrnstrHere p (q ++ 0 :: behind) = some (decide (q <+: p)) := by
  intro q
  induction q with
  | nil =>
    intro p _ _ behind
    cases p <;> simp [utf8StrnstrHere]
  | cons d q ih =>
    intro p nonzero fits behind
    cases p with
    | nil => simp at fits
    | cons c p =>
      have rest := ih p (fun e member => nonzero e (List.mem_cons_of_mem d member))
        (Nat.le_of_succ_le_succ fits) behind
      rw [List.cons_append, utf8StrnstrHere, if_neg (nonzero d List.mem_cons_self)]
      by_cases same : c = d
      · simp [same, rest, List.cons_prefix_cons]
      · simp [same, List.cons_prefix_cons, Ne.symm same]

theorem utf8StrnstrCandidate_decides (some : pattern ≠ []) (nonzero : ∀ d ∈ pattern, d ≠ 0)
    (fits : pattern.length ≤ s.length) (behind : List UInt8) :
    utf8StrnstrCandidate s (pattern ++ 0 :: behind) = .some (decide (pattern <+: s)) := by
  cases pattern with
  | nil => exact absurd rfl some
  | cons d q =>
    cases s with
    | nil => simp at fits
    | cons c p =>
      have rest := utf8StrnstrHere_decides q p
        (fun e member => nonzero e (List.mem_cons_of_mem d member))
        (Nat.le_of_succ_le_succ fits) behind
      rw [List.cons_append, utf8StrnstrCandidate]
      by_cases same : c = d
      · simp [same, rest, List.cons_prefix_cons]
      · simp [same, List.cons_prefix_cons, Ne.symm same]

theorem utf8StrnstrLoop_finds (some : pattern ≠ []) (nonzero : ∀ d ∈ pattern, d ≠ 0)
    (behind : List UInt8) :
    ∀ (left : Nat) (s : List UInt8), left + pattern.length - 1 ≤ s.length →
      ∃ result, utf8StrnstrLoop (pattern ++ 0 :: behind) left s = .some result ∧
        FirstOccurrence pattern (s.take (left + pattern.length - 1)) result := by
  have positive := List.length_pos_iff.mpr some
  intro left
  induction left with
  | zero =>
    intro s _
    refine ⟨none, rfl, .tooShort ?_⟩
    rw [List.length_take]
    omega
  | succ left ih =>
    intro s inside
    have fits : pattern.length ≤ s.length := by omega
    rw [utf8StrnstrLoop, utf8StrnstrCandidate_decides some nonzero fits, Option.bind_eq_bind,
      Option.bind_some]
    have begins : pattern <+: s ↔ pattern <+: s.take (left + 1 + pattern.length - 1) := by
      rw [List.prefix_take_iff]
      exact ⟨fun starts => ⟨starts, by omega⟩, fun starts => starts.1⟩
    by_cases starts : pattern <+: s
    · exact ⟨.some 0, by simp [starts], .here (begins.mp starts)⟩
    · cases s with
      | nil =>
        rw [List.length_nil] at fits
        omega
      | cons c s =>
        obtain ⟨result, found, first⟩ := ih s (by rw [List.length_cons] at inside; omega)
        have taken : (c :: s).take (left + 1 + pattern.length - 1) =
            c :: s.take (left + pattern.length - 1) := by
          rw [← List.take_succ_cons]
          congr 1
          omega
        refine ⟨result.map (· + 1), by simp [starts, found], ?_⟩
        rw [taken]
        exact first.later c (by rw [← taken, ← begins]; exact starts)

theorem utf8Unit_int_ne_zero (nonzero : c ≠ 0) : utf8Unit.int c ≠ 0 := by
  intro zero
  exact nonzero (utf8Unit.int_injective (zero.trans utf8Unit.int_zero.symm))

theorem terminated_of_nonzero (nonzero : ∀ d ∈ text, d ≠ 0) (behind : List UInt8) :
    Terminated utf8Unit (text ++ 0 :: behind) text :=
  ⟨fun d member => utf8Unit_int_ne_zero (nonzero d member), behind, by simp [utf8Unit]⟩

theorem Terminated.bytes_nonzero (terminated : Terminated utf8Unit s text) : ∀ d ∈ text, d ≠ 0 := by
  rintro d member rfl
  exact terminated.nonzero 0 member utf8Unit.int_zero

theorem Terminated.eq_bytes (terminated : Terminated utf8Unit s text) :
    ∃ behind, s = text ++ 0 :: behind := by
  obtain ⟨behind, rfl⟩ := terminated.ends
  exact ⟨behind, by simp [utf8Unit]⟩

theorem utf8Strnstr_finds {len : Nat} (some : pattern ≠ []) (nonzero : ∀ d ∈ pattern, d ≠ 0)
    (inside : len ≤ s.length) :
    ∃ result, utf8Strnstr s len (pattern ++ [0]) = .some result ∧
      FirstOccurrence pattern (s.take len) result := by
  have positive := List.length_pos_iff.mpr some
  rw [utf8Strnstr, utfStrlen_terminated (terminated_of_nonzero nonzero []), Option.bind_eq_bind,
    Option.bind_some, if_neg (by omega)]
  split
  next longer => exact ⟨none, rfl, .tooShort (by rw [List.length_take]; omega)⟩
  next fits =>
    have window : len - pattern.length + 1 + pattern.length - 1 = len := by omega
    have finds := utf8StrnstrLoop_finds some nonzero [] (len - pattern.length + 1) s (by omega)
    rw [window] at finds
    exact finds

theorem utf32AsUtf8_byte (c : UInt8) :
    utf32AsUtf8 (utf8Unit.int c) = some [c] ∧ (utf8Unit.int c).toInt8.toUInt8 = c := by
  have table : ∀ n < 256, utf32AsUtf8 (utf8Unit.int (UInt8.ofNat n)) = some [UInt8.ofNat n] ∧
      (utf8Unit.int (UInt8.ofNat n)).toInt8.toUInt8 = UInt8.ofNat n := by
    decide +kernel
  have row := table c.toNat c.toNat_lt
  rwa [UInt8.ofNat_toNat] at row

theorem utf8Strchr_byte (nonzero : c ≠ 0) (terminated : Terminated utf8Unit s text) :
    ∃ result, utf8Strchr (some s) (utf8Unit.int c) = some result ∧
      (result.isSome = true ↔ c ∈ text) := by
  obtain ⟨written, low⟩ := utf32AsUtf8_byte c
  obtain ⟨behind, same⟩ := terminated.eq_bytes
  have inside : text.length + 1 ≤ s.length := by
    rw [same, List.length_append, List.length_cons]
    omega
  obtain ⟨result, found, first⟩ := memchr_finds c (text.length + 1) s inside
  refine ⟨result, ?_, ?_⟩
  · simp [utf8Strchr, utf8Strnchr, utfStrlen_terminated terminated, written, low, found]
  · have taken : s.take (text.length + 1) = text ++ [0] := by
      rw [same, List.take_append]
      simp
    rw [firstOccurrence_isSome_iff first, taken]
    simp [nonzero]

theorem utf8Strxspn_bytes {t set : List UInt8} (textEnds : Terminated utf8Unit s text)
    (setEnds : Terminated utf8Unit t set) (flag : Bool) :
    utf8Strxspn (some s) (some t) flag =
      some (text.takeWhile fun c => set.contains c == flag).length := by
  rw [utf8Strxspn]
  induction text generalizing s with
  | nil =>
    obtain ⟨behind, rfl⟩ := textEnds.eq_bytes
    simp [utf8StrxspnLoop]
  | cons c text ih =>
    have nonzero := textEnds.bytes_nonzero c List.mem_cons_self
    obtain ⟨more, rfl, -, rest⟩ := textEnds.cons_cases
    obtain ⟨result, found, decides⟩ := utf8Strchr_byte nonzero setEnds
    have same : result.isSome = set.contains c := by
      rw [Bool.eq_iff_iff, decides, List.contains_iff_mem]
    rw [utf8StrxspnLoop, if_neg nonzero, found, Option.bind_eq_bind, Option.bind_some, same,
      List.takeWhile_cons, bne]
    cases set.contains c == flag with
    | true => simp [ih rest]
    | false => simp

end Bytes

section Characters

variable {text set : List Char} {c : Char}
variable {place len : Nat} {s : List UInt8} {Item : Type} {p : Item → Bool} {front : List Item}

def IsCharacterAt (text : List Char) (c : Char) (place : Nat) : Prop :=
  ∃ front, front ++ [c] <+: text ∧ (front.flatMap utf8EncodeChar).length = place

def FirstCharacter (text : List Char) (len : Nat) (c : Char) : Option Nat → Prop
  | some place => IsCharacterAt text c place ∧ place + (utf8EncodeChar c).length ≤ len ∧
      ∀ before < place, ¬IsCharacterAt text c before
  | none => ∀ place, IsCharacterAt text c place → len < place + (utf8EncodeChar c).length

theorem utf8_leads (c : Char) : ∃ lead more, utf8EncodeChar c = lead :: more ∧
    (lead.toNat < 0x80 ∨ 0xC0 ≤ lead.toNat) ∧ ∀ d ∈ more, 0x80 ≤ d.toNat ∧ d.toNat < 0xC0 := by
  have form := utf8EncodeChar_form c
  generalize utf8EncodeChar c = bytes at form
  cases form with
  | one a small value => exact ⟨a, [], rfl, .inl (by omega), by simp⟩
  | two a b => exact ⟨a, [b], rfl, .inr (by omega), by simp; omega⟩
  | three a b d => exact ⟨a, [b, d], rfl, .inr (by omega), by simp; omega⟩
  | four a b d e => exact ⟨a, [b, d, e], rfl, .inr (by omega), by simp; omega⟩

theorem utf8_prefix_at (begins : utf8EncodeChar c <+: (text.flatMap utf8EncodeChar).drop place) :
    IsCharacterAt text c place := by
  obtain ⟨lead, more, encoded, leads, -⟩ := utf8_leads c
  induction text generalizing place with
  | nil =>
    rw [encoded] at begins
    simp at begins
  | cons d text ih =>
    obtain ⟨first, others, spelled, -, continues⟩ := utf8_leads d
    rw [List.flatMap_cons] at begins
    by_cases inside : place < (utf8EncodeChar d).length
    · by_cases zero : place = 0
      · subst zero
        obtain ⟨rest, same⟩ := begins
        obtain rfl := utf8_prefixFree.unique c d _ _ same
        exact ⟨[], by simp, rfl⟩
      · exfalso
        rw [encoded, List.drop_append_of_le_length (Nat.le_of_lt inside),
          List.drop_eq_getElem_cons inside, List.cons_append, List.cons_prefix_cons] at begins
        have member : lead ∈ others := by
          rw [begins.1]
          obtain ⟨behind, rfl⟩ := Nat.exists_eq_succ_of_ne_zero zero
          simp only [spelled, List.getElem_cons_succ]
          exact List.getElem_mem _
        have bounds := continues lead member
        omega
    · rw [List.drop_append, List.drop_eq_nil_of_le (by omega), List.nil_append] at begins
      obtain ⟨front, starts, length⟩ := ih begins
      refine ⟨d :: front, List.cons_prefix_cons.mpr ⟨rfl, starts⟩, ?_⟩
      rw [List.flatMap_cons, List.length_append, length]
      omega

theorem IsCharacterAt.begins (here : IsCharacterAt text c place) :
    utf8EncodeChar c <+: (text.flatMap utf8EncodeChar).drop place := by
  obtain ⟨front, ⟨rest, rfl⟩, rfl⟩ := here
  rw [List.flatMap_append, List.flatMap_append, List.append_assoc, List.drop_left]
  simp

theorem firstCharacter_of_occurrence {result : Option Nat}
    (first : FirstOccurrence (utf8EncodeChar c) ((text.flatMap utf8EncodeChar).take len) result) :
    FirstCharacter text len c result := by
  have cut : ∀ place, utf8EncodeChar c <+: ((text.flatMap utf8EncodeChar).take len).drop place ↔
      IsCharacterAt text c place ∧ place + (utf8EncodeChar c).length ≤ len := by
    intro place
    have positive := List.length_pos_iff.mpr (utf8_prefixFree.ne_nil c)
    rw [List.drop_take, List.prefix_take_iff]
    constructor
    · rintro ⟨begins, fits⟩
      exact ⟨utf8_prefix_at begins, by omega⟩
    · rintro ⟨here, fits⟩
      exact ⟨here.begins, by omega⟩
  cases result with
  | none =>
    intro place here
    have absent := first place
    rw [cut] at absent
    by_contra fits
    exact absent ⟨here, by omega⟩
  | some place =>
    obtain ⟨-, begins, lowest⟩ := first
    obtain ⟨here, fits⟩ := (cut place).mp begins
    refine ⟨here, fits, fun before lower there => ?_⟩
    exact lowest before lower ((cut before).mpr ⟨there, by omega⟩)

theorem utf8_searched (c : Char) :
    utf8EncodeChar c = [(Int32.ofNat c.toNat).toInt8.toUInt8] ∨
      ((utf8EncodeChar c).length ≠ 1 ∧ ∀ d ∈ utf8EncodeChar c, d ≠ 0) := by
  have form := utf8EncodeChar_form c
  generalize utf8EncodeChar c = bytes at form
  have table : ∀ n < 128, (Int32.ofNat n).toInt8.toUInt8 = UInt8.ofNat n := fun n _ => by simp
  cases form with
  | one a small value =>
    left
    rw [table c.toNat small, ← value, UInt8.ofNat_toNat]
  | _ =>
    refine .inr ⟨by simp, ?_⟩
    simp only [List.forall_mem_cons, List.not_mem_nil, false_implies, implies_true, and_true, ne_eq,
      ← UInt8.toNat_inj, UInt8.toNat_zero]
    omega

theorem utf8Strnchr_first (terminated : Terminated utf8Unit s (text.flatMap utf8EncodeChar))
    (inside : len ≤ (text.flatMap utf8EncodeChar).length) (c : Char) :
    ∃ result, utf8Strnchr (some s) (some len) (Int32.ofNat c.toNat) = some result ∧
      FirstCharacter text len c result := by
  have scalar := Char.scalar c
  have written : utf32AsUtf8 (Int32.ofNat c.toNat) = some (utf8EncodeChar c) := by
    rw [utf32AsUtf8, toInt_ofNat32 (by omega), utf32Utf8Bytes_char]
  obtain ⟨behind, same⟩ := terminated.eq_bytes
  have covered : len ≤ s.length := by
    rw [same, List.length_append]
    omega
  have taken : s.take len = (text.flatMap utf8EncodeChar).take len := by
    rw [same, List.take_append_of_le_length inside]
  rcases utf8_searched c with byte | ⟨several, nonzero⟩
  · obtain ⟨result, found, first⟩ := memchr_finds (Int32.ofNat c.toNat).toInt8.toUInt8 len s covered
    rw [taken, ← byte] at first
    refine ⟨result, ?_, firstCharacter_of_occurrence first⟩
    rw [byte] at written
    simp only [utf8Strnchr, written, Option.bind_eq_bind, Option.bind_some, List.length_singleton,
      if_true]
    exact found
  · obtain ⟨result, found, first⟩ := utf8Strnstr_finds (utf8_prefixFree.ne_nil c) nonzero covered
    rw [taken] at first
    refine ⟨result, ?_, firstCharacter_of_occurrence first⟩
    simp only [utf8Strnchr, written, Option.bind_eq_bind, Option.bind_some, several, if_false]
    exact found

def spannedBytes (text set : List Char) (flag : Bool) : Nat :=
  ((text.takeWhile fun c => set.contains c == flag).flatMap utf8EncodeChar).length

theorem takeWhile_append_all (all : ∀ d ∈ front, p d = true)
    (rest : List Item) : (front ++ rest).takeWhile p = front ++ rest.takeWhile p := by
  induction front with
  | nil => rfl
  | cons d front ih =>
    rw [List.cons_append, List.takeWhile_cons, all d List.mem_cons_self, if_pos rfl,
      ih fun e member => all e (List.mem_cons_of_mem d member)]
    rfl

theorem takeWhile_append_stops {d : Item} (member : d ∈ front)
    (stops : p d = false) (rest : List Item) :
    ((front ++ rest).takeWhile p).length < front.length := by
  induction front with
  | nil => exact absurd member List.not_mem_nil
  | cons e front ih =>
    rw [List.cons_append, List.takeWhile_cons, List.length_cons]
    split
    next goes =>
      rcases List.mem_cons.mp member with rfl | later
      · exact nomatch goes.symm.trans stops
      · exact Nat.succ_lt_succ (ih later)
    next => exact Nat.succ_pos _

theorem strspn_bytes_iff (text set : List Char) :
    ((text.flatMap utf8EncodeChar).takeWhile fun b =>
      (set.flatMap utf8EncodeChar).contains b == true).length = spannedBytes text set true ↔
      ∀ c ∈ (text.dropWhile fun c => set.contains c).head?, ∀ b ∈ (utf8EncodeChar c).head?,
        b ∉ set.flatMap utf8EncodeChar := by
  induction text with
  | nil => simp [spannedBytes]
  | cons c text ih =>
    by_cases member : c ∈ set
    · have inside : ∀ b ∈ utf8EncodeChar c, ((set.flatMap utf8EncodeChar).contains b == true) =
          true := by
        intro b here
        simpa using ⟨c, member, here⟩
      rw [List.flatMap_cons, takeWhile_append_all inside, List.length_append, spannedBytes,
        List.takeWhile_cons, List.dropWhile_cons]
      simp only [List.contains_iff_mem.mpr member, beq_self_eq_true, if_true, List.flatMap_cons,
        List.length_append, Nat.add_left_cancel_iff]
      exact ih
    · have outside : set.contains c = false := by simpa using member
      obtain ⟨lead, more, encoded, -, -⟩ := utf8_leads c
      rw [List.flatMap_cons, spannedBytes, List.takeWhile_cons, List.dropWhile_cons, outside,
        encoded, List.cons_append, List.takeWhile_cons]
      by_cases shared : lead ∈ set.flatMap utf8EncodeChar
      · rw [List.contains_iff_mem.mpr shared]
        simpa [encoded] using shared
      · have apart : (set.flatMap utf8EncodeChar).contains lead = false := by simpa using shared
        rw [apart]
        simpa [encoded] using shared

theorem strcspn_bytes_iff (text set : List Char) :
    ((text.flatMap utf8EncodeChar).takeWhile fun b =>
      (set.flatMap utf8EncodeChar).contains b == false).length = spannedBytes text set false ↔
      ∀ c ∈ text.takeWhile fun c => !set.contains c, ∀ b ∈ utf8EncodeChar c,
        b ∉ set.flatMap utf8EncodeChar := by
  induction text with
  | nil => simp [spannedBytes]
  | cons c text ih =>
    by_cases member : c ∈ set
    · obtain ⟨lead, more, encoded, -, -⟩ := utf8_leads c
      have shared : lead ∈ set.flatMap utf8EncodeChar :=
        List.mem_flatMap.mpr ⟨c, member, by rw [encoded]; exact List.mem_cons_self⟩
      rw [List.flatMap_cons, spannedBytes, List.takeWhile_cons, encoded, List.cons_append,
        List.takeWhile_cons, List.takeWhile_cons]
      simp [shared, member]
    · have outside : set.contains c = false := by simpa using member
      rw [List.flatMap_cons, spannedBytes, List.takeWhile_cons, List.takeWhile_cons, outside]
      simp only [beq_self_eq_true, Bool.not_false, if_true, List.flatMap_cons, List.length_append,
        List.forall_mem_cons]
      by_cases apart : ∀ b ∈ utf8EncodeChar c, b ∉ set.flatMap utf8EncodeChar
      · have passed : ∀ b ∈ utf8EncodeChar c,
            ((set.flatMap utf8EncodeChar).contains b == false) = true := by
          intro b here
          simpa using apart b here
        rw [takeWhile_append_all passed, List.length_append, Nat.add_left_cancel_iff]
        exact ⟨fun same => ⟨apart, ih.mp same⟩, fun both => ih.mpr both.2⟩
      · have shared : ∃ b ∈ utf8EncodeChar c, b ∈ set.flatMap utf8EncodeChar := by
          by_contra none
          exact apart fun b here there => none ⟨b, here, there⟩
        obtain ⟨b, here, there⟩ := shared
        have stops : ((set.flatMap utf8EncodeChar).contains b == false) = false := by
          rw [List.contains_iff_mem.mpr there]
          rfl
        have short := @takeWhile_append_stops _ (fun b => (set.flatMap utf8EncodeChar).contains b ==
          false) _ b here stops (text.flatMap utf8EncodeChar)
        exact ⟨fun same => absurd same (by omega), fun both => absurd both.1 apart⟩

theorem utf32_value_positive (nonzero : c ≠ '\x00') : 0 < (Int32.ofNat c.toNat).toInt := by
  have scalar := Char.scalar c
  rw [toInt_ofNat32 (by omega)]
  have differ : c.toNat ≠ 0 := fun same => nonzero (Char.toNat_injective same)
  omega

theorem utf32_value_injective {d : Char} (same : Int32.ofNat c.toNat = Int32.ofNat d.toNat) :
    c = d := by
  have scalar := Char.scalar c
  have other := Char.scalar d
  have values := congrArg Int32.toInt same
  rw [toInt_ofNat32 (by omega), toInt_ofNat32 (by omega)] at values
  exact Char.toNat_injective (by omega)

theorem utf32_text (text : List Char) :
    text.flatMap utf32EncodeChar = text.map fun c => Int32.ofNat c.toNat := by
  induction text with
  | nil => rfl
  | cons c text ih =>
    rw [List.flatMap_cons, ih, utf32EncodeChar, List.map_cons, List.singleton_append]

theorem utf32_spanned (text set : List Char) (flag : Bool) :
    ((text.flatMap utf32EncodeChar).takeWhile fun x => (set.flatMap utf32EncodeChar).contains x ==
      flag).length =
      (text.takeWhile fun c => set.contains c == flag).length := by
  have same : ∀ c, (set.flatMap utf32EncodeChar).contains (Int32.ofNat c.toNat) = set.contains c := by
    intro c
    rw [Bool.eq_iff_iff, List.contains_iff_mem, List.contains_iff_mem, utf32_text, List.mem_map]
    constructor
    · rintro ⟨d, member, value⟩
      exact utf32_value_injective value ▸ member
    · exact fun member => ⟨c, member, rfl⟩
  rw [utf32_text text, List.takeWhile_map, List.length_map]
  simp only [Function.comp_def, same]

theorem utf32_terminated {text : List Char} (nonzero : ∀ c ∈ text, c ≠ '\x00') :
    (∀ x ∈ text.flatMap utf32EncodeChar, 0 < x.toInt) ∧
      Terminated utf32Unit (text.flatMap utf32EncodeChar ++ [0]) (text.flatMap utf32EncodeChar) := by
  have positive : ∀ x ∈ text.flatMap utf32EncodeChar, 0 < x.toInt := by
    rw [utf32_text]
    intro x member
    obtain ⟨c, inside, rfl⟩ := List.mem_map.mp member
    exact utf32_value_positive (nonzero c inside)
  refine ⟨positive, ?_, List.prefix_rfl⟩
  rintro x member (rfl : x = 0)
  exact absurd (positive 0 member) (by decide)

theorem utf32_spans {text set : List Char} (textNonzero : ∀ c ∈ text, c ≠ '\x00')
    (setNonzero : ∀ c ∈ set, c ≠ '\x00') :
    (utf32Strspn (text.flatMap utf32EncodeChar ++ [0]) (set.flatMap utf32EncodeChar ++ [0]) =
        some (text.takeWhile fun c => set.contains c == true).length ∧
      utf32Strcspn (text.flatMap utf32EncodeChar ++ [0]) (set.flatMap utf32EncodeChar ++ [0]) =
        some (text.takeWhile fun c => set.contains c == false).length) ↔ (set = [] → text = []) := by
  obtain ⟨positive, textEnds⟩ := utf32_terminated textNonzero
  obtain ⟨setPositive, setEnds⟩ := utf32_terminated setNonzero
  have exact := utf32Strspn_exact_iff positive setPositive textEnds setEnds
    (fun x => (set.flatMap utf32EncodeChar).contains x) (by simp)
  rw [utf32_spanned, utf32_spanned] at exact
  rw [exact, utf32_text, utf32_text, List.map_eq_nil_iff, List.map_eq_nil_iff]

theorem Terminated.no_zero_character {text : List Char}
    (terminated : Terminated utf8Unit s (text.flatMap utf8EncodeChar)) : ∀ c ∈ text, c ≠ '\x00' := by
  rintro c member rfl
  have zero : (0 : UInt8) ∈ utf8EncodeChar '\x00' := by decide
  exact terminated.bytes_nonzero 0 (List.mem_flatMap.mpr ⟨_, member, zero⟩) rfl

end Characters

/-- A span of bytes is one of characters, unless characters of several bytes share some. -/
theorem utf8Strspn_exact_iff (text set : List Char) (s t : List UInt8)
    (textEnds : Terminated utf8Unit s (text.flatMap utf8EncodeChar))
    (setEnds : Terminated utf8Unit t (set.flatMap utf8EncodeChar)) :
    (utf8Strspn (some s) (some t) = some (spannedBytes text set true) ∧
      utf8Strcspn (some s) (some t) = some (spannedBytes text set false) ∧
      utf32Strspn (text.flatMap utf32EncodeChar ++ [0]) (set.flatMap utf32EncodeChar ++ [0]) =
        some (text.takeWhile fun c => set.contains c == true).length ∧
      utf32Strcspn (text.flatMap utf32EncodeChar ++ [0]) (set.flatMap utf32EncodeChar ++ [0]) =
        some (text.takeWhile fun c => set.contains c == false).length ∧
      ∀ len ≤ (text.flatMap utf8EncodeChar).length, ∀ c : Char,
        ∃ result, utf8Strnchr (some s) (some len) (Int32.ofNat c.toNat) = some result ∧
          FirstCharacter text len c result) ↔
      (∀ c ∈ (text.dropWhile fun c => set.contains c).head?, ∀ b ∈ (utf8EncodeChar c).head?,
        b ∉ set.flatMap utf8EncodeChar) ∧
      (∀ c ∈ text.takeWhile fun c => !set.contains c, ∀ b ∈ utf8EncodeChar c,
        b ∉ set.flatMap utf8EncodeChar) ∧
      (set = [] → text = []) := by
  have spans := utf32_spans textEnds.no_zero_character setEnds.no_zero_character
  have first : ∀ len ≤ (text.flatMap utf8EncodeChar).length, ∀ c : Char, ∃ result,
      utf8Strnchr (some s) (some len) (Int32.ofNat c.toNat) = some result ∧
      FirstCharacter text len c result :=
    fun len inside c => utf8Strnchr_first textEnds inside c
  rw [utf8Strspn, utf8Strcspn, utf8Strxspn_bytes textEnds setEnds,
    utf8Strxspn_bytes textEnds setEnds, Option.some_inj, Option.some_inj, strspn_bytes_iff,
    strcspn_bytes_iff, ← spans]
  constructor
  · rintro ⟨inside, outside, spanned, rest, -⟩
    exact ⟨inside, outside, spanned, rest⟩
  · rintro ⟨inside, outside, spanned, rest⟩
    exact ⟨inside, outside, spanned, rest, first⟩

theorem utf8Strspn_exact_iff_letters :
    utf8Strspn (some [97, 98, 0xC3, 0xA9, 0]) (some [98, 97, 0]) = some 2 ∧
      ∃ result, utf8Strnchr (some [97, 98, 0xC3, 0xA9, 0]) (some 4) 0xE9 = some result ∧
        FirstCharacter ['a', 'b', 'é'] 4 'é' result := by
  have spelled : ['a', 'b', 'é'].flatMap utf8EncodeChar = [97, 98, 0xC3, 0xA9] := by decide
  have setSpelled : ['b', 'a'].flatMap utf8EncodeChar = [98, 97] := by decide
  have textEnds : Terminated utf8Unit [97, 98, 0xC3, 0xA9, 0]
      (['a', 'b', 'é'].flatMap utf8EncodeChar) := by
    rw [spelled]
    exact @terminated_of_nonzero [97, 98, 0xC3, 0xA9] (by simp) []
  have setEnds : Terminated utf8Unit [98, 97, 0] (['b', 'a'].flatMap utf8EncodeChar) := by
    rw [setSpelled]
    exact @terminated_of_nonzero [98, 97] (by simp) []
  have stopped : (['a', 'b', 'é'].dropWhile fun c => ['b', 'a'].contains c) = ['é'] := by decide
  have none : (['a', 'b', 'é'].takeWhile fun c => !(['b', 'a'].contains c)) = [] := by decide
  have encoded : utf8EncodeChar 'é' = [0xC3, 0xA9] := by decide
  have exact := (utf8Strspn_exact_iff ['a', 'b', 'é'] ['b', 'a'] _ _ textEnds setEnds).mpr (by
    rw [stopped, none, setSpelled]
    simp [encoded])
  exact ⟨exact.1, exact.2.2.2.2 4 (by decide) 'é'⟩

/-- `é` and `è` begin with the same byte. -/
theorem utf8Strspn_shared :
    utf8Strspn (some [0xC3, 0xA9, 0]) (some [0xC3, 0xA8, 0]) = some 1 ∧
      utf8Strspn (some [0xC3, 0xA9, 0]) (some [0xC3, 0xA8, 0]) ≠
        some (spannedBytes ['é'] ['è'] true) := by
  decide

end MulleCore
