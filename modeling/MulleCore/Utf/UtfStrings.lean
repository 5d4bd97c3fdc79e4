import Mathlib.Data.UInt
import MulleCore.Library.RollingHash

/-!
The "string" oriented routines of `mulle-utf32-string.c` and `mulle-utf16-string.c`, which view a
text as an array of units that ends with a zero unit. A pointer is the units from there on, and to
read behind the last of them is `none`.
-/

namespace MulleCore

open Library

structure StringUnit (Unit : Type) where
  int : Unit → Int32
  int_injective : Function.Injective int
  zero : Unit
  int_zero : int zero = 0

def utf32Unit : StringUnit Int32 where
  int := id
  int_injective := Function.injective_id
  zero := 0
  int_zero := rfl

def utf16Unit : StringUnit UInt16 where
  int c := c.toUInt32.toInt32
  int_injective _ _ same := UInt16.toUInt32_inj.mp (congrArg Int32.toUInt32 same)
  zero := 0
  int_zero := rfl

section Strings

variable {Unit : Type} (unit : StringUnit Unit)

def StringUnit.size (c : Unit) : UInt64 := (unit.int c).toInt64.toUInt64

def utfStrlen : List Unit → Option Nat
  | [] => none
  | c :: s => if unit.int c = 0 then some 0 else (utfStrlen s).map (· + 1)

def utfStrncmpFrom : Nat → List Unit → List Unit → Option Int32
  | 0, _, _ => some 0
  | len + 1, c :: s1, d :: s2 =>
    if unit.int c ≠ unit.int d then some (unit.int c - unit.int d)
    else if unit.int c = 0 then some 0
    else utfStrncmpFrom len s1 s2
  | _ + 1, _, _ => none

def utfStrncmp (s1 s2 : List Unit) (len : Nat) : Option Int32 :=
  if len = 2 ^ 64 - 1 then (utfStrlen unit s2).bind fun len => utfStrncmpFrom unit len s1 s2
  else utfStrncmpFrom unit len s1 s2

structure StrstrCount where
  n : Nat
  bm : UInt64
  hashPattern : UInt64
  hashText : UInt64

def strstrBase : UInt64 := 131

def StrstrCount.next (count : StrstrCount) (c d : Unit) : StrstrCount where
  n := count.n + 1
  bm := count.bm * strstrBase
  hashPattern := count.hashPattern * strstrBase + unit.size d
  hashText := count.hashText * strstrBase + unit.size c

def utfStrstrCount : List Unit → List Unit → StrstrCount →
    Option (StrstrCount × List Unit × List Unit)
  | c :: s, d :: pattern, count =>
    if unit.int c ≠ 0 ∧ unit.int d ≠ 0 then utfStrstrCount s pattern (count.next unit c d)
    else some (count, c :: s, d :: pattern)
  | _, _, _ => none

def utfStrstrHere (pattern : List Unit) (count : StrstrCount) (window : List Unit)
    (hashText : UInt64) : Option Bool :=
  if count.hashPattern = hashText then (utfStrncmp unit window pattern count.n).map (· == 0)
    else some false

/-- `rest` begins `count.n` units behind `window`, and `place` is where the window is. -/
def utfStrstrLoop (pattern : List Unit) (count : StrstrCount) :
    List Unit → List Unit → UInt64 → Nat → Option (Option Nat)
  | [], window, hashText, place => do
      let here ← utfStrstrHere unit pattern count window hashText
      if here then some (some place) else none
  | c :: rest, window, hashText, place => do
      let here ← utfStrstrHere unit pattern count window hashText
      if here then some (some place)
      else if unit.int c = 0 then some none
      else
        let first ← window.head?
        utfStrstrLoop pattern count rest window.tail
          (hashText * strstrBase - unit.size first * count.bm + unit.size c) (place + 1)

def utfStrstr (s pattern : List Unit) : Option (Option Nat) := do
  let first ← pattern.head?
  if unit.int first = 0 then some (some 0)
  else
    let (count, rest, more) ← utfStrstrCount unit s pattern ⟨0, 1, 0, 0⟩
    let c ← rest.head?
    let d ← more.head?
    if unit.int c = 0 ∧ unit.int d ≠ 0 then some none
    else utfStrstrLoop unit pattern count rest s count.hashText 0

end Strings

def utf32Strstr (s pattern : List Int32) : Option (Option Nat) := utfStrstr utf32Unit s pattern

def utf16Strstr (s pattern : Option (List UInt16)) : Option (Option Nat) :=
  match s, pattern with
  | some s, some pattern => utfStrstr utf16Unit s pattern
  | _, _ => some none

section Terminated

variable {Unit : Type} {unit : StringUnit Unit}
variable {s text window s1 s2 : List Unit}

structure Terminated (unit : StringUnit Unit) (s text : List Unit) : Prop where
  nonzero : ∀ c ∈ text, unit.int c ≠ 0
  ends : text ++ [unit.zero] <+: s

theorem Terminated.nil_cases (terminated : Terminated unit s []) :
    ∃ behind, s = unit.zero :: behind := by
  obtain ⟨behind, eq⟩ := terminated.ends
  exact ⟨behind, eq.symm⟩

theorem Terminated.cons_cases {c : Unit} (terminated : Terminated unit s (c :: text)) :
    ∃ more, s = c :: more ∧ unit.int c ≠ 0 ∧ Terminated unit more text := by
  obtain ⟨behind, rfl⟩ := terminated.ends
  refine ⟨_, rfl, terminated.nonzero c (by simp), ?_, ⟨behind, rfl⟩⟩
  exact fun d member => terminated.nonzero d (List.mem_cons_of_mem c member)

theorem utfStrlen_terminated (terminated : Terminated unit s text) :
    utfStrlen unit s = some text.length := by
  induction text generalizing s with
  | nil =>
    obtain ⟨behind, rfl⟩ := terminated.nil_cases
    simp [utfStrlen, unit.int_zero]
  | cons c text ih =>
    obtain ⟨more, rfl, nonzero, rest⟩ := terminated.cons_cases
    simp [utfStrlen, nonzero, ih rest]

theorem utfStrncmpFrom_window (same : window.length = text.length)
    (covered : window <+: s1) (terminated : Terminated unit s2 text) :
    ∃ difference, utfStrncmpFrom unit text.length s1 s2 = some difference ∧
      (difference = 0 ↔ window = text) := by
  induction text generalizing window s1 s2 with
  | nil => exact ⟨0, by simp [utfStrncmpFrom], by simpa using same⟩
  | cons d text ih =>
    obtain ⟨c, window, rfl⟩ := List.exists_cons_of_length_eq_add_one same
    obtain ⟨behind, rfl⟩ := covered
    obtain ⟨more, rfl, nonzero, rest⟩ := terminated.cons_cases
    by_cases equal : c = d
    · subst equal
      obtain ⟨difference, compared, zero⟩ :=
        ih (by simpa using same) (List.prefix_append window behind) rest
      exact ⟨difference, by simp [utfStrncmpFrom, nonzero, compared], by simpa using zero⟩
    · have differ : unit.int c ≠ unit.int d := fun same => equal (unit.int_injective same)
      refine ⟨unit.int c - unit.int d, by simp [utfStrncmpFrom, differ], ?_⟩
      simp [equal, Int32.sub_eq_iff_eq_add, differ]

theorem utfStrncmp_window (same : window.length = text.length)
    (covered : window <+: s1) (terminated : Terminated unit s2 text) :
    ∃ difference, utfStrncmp unit s1 s2 text.length = some difference ∧
      (difference = 0 ↔ window = text) := by
  obtain ⟨difference, compared, zero⟩ := utfStrncmpFrom_window same covered terminated
  refine ⟨difference, ?_, zero⟩
  simp [utfStrncmp, utfStrlen_terminated terminated, compared]

end Terminated

section Strstr

open scoped UInt64.CommRing

variable {Unit : Type} {unit : StringUnit Unit}
variable {count : StrstrCount} {window front s p later pattern : List Unit}

noncomputable def unitsHash (unit : StringUnit Unit) (window : List Unit) : UInt64 :=
  windowHash strstrBase (window.map unit.size)

theorem unitsHash_concat (window : List Unit) (c : Unit) :
    unitsHash unit (window ++ [c]) = unitsHash unit window * strstrBase + unit.size c := by
  simp [unitsHash, windowHash_concat]

theorem unitsHash_slide (first last : Unit) (window : List Unit) :
    unitsHash unit (window ++ [last]) = unitsHash unit (first :: window) * strstrBase
      - unit.size first * strstrBase ^ (window.length + 1) + unit.size last := by
  simp [unitsHash, windowHash_slide _ (unit.size first)]

structure CountsWindows (unit : StringUnit Unit) (count : StrstrCount) (window front : List Unit) :
    Prop where
  text : window.length = count.n
  pattern : front.length = count.n
  bm : count.bm = strstrBase ^ count.n
  hashText : count.hashText = unitsHash unit window
  hashPattern : count.hashPattern = unitsHash unit front

theorem CountsWindows.start : CountsWindows unit ⟨0, 1, 0, 0⟩ [] [] :=
  ⟨rfl, rfl, (pow_zero _).symm, rfl, rfl⟩

theorem CountsWindows.next (c d : Unit) (counts : CountsWindows unit count window front) :
    CountsWindows unit (count.next unit c d) (window ++ [c]) (front ++ [d]) where
  text := by simp [StrstrCount.next, counts.text]
  pattern := by simp [StrstrCount.next, counts.pattern]
  bm := by rw [StrstrCount.next, counts.bm, pow_succ]
  hashText := by rw [unitsHash_concat, StrstrCount.next, counts.hashText]
  hashPattern := by rw [unitsHash_concat, StrstrCount.next, counts.hashPattern]

structure StrstrCounted (unit : StringUnit Unit) (text pattern : List Unit) (count : StrstrCount)
    (rest more : List Unit) (window front later missing : List Unit) : Prop where
  counts : CountsWindows unit count window front
  text : window ++ later = text
  pattern : front ++ missing = pattern
  rest : Terminated unit rest later
  more : Terminated unit more missing
  ended : later = [] ∨ missing = []

theorem utfStrstrCount_counts {missing : List Unit}
    (textEnds : Terminated unit s later) (patternEnds : Terminated unit p missing)
    (counts : CountsWindows unit count window front) :
    ∃ count' rest more window' front' later' missing', utfStrstrCount unit s p count =
      some (count', rest, more) ∧
      StrstrCounted unit (window ++ later) (front ++ missing) count' rest more window' front' later'
        missing' := by
  induction later generalizing s p missing window front count with
  | nil =>
    obtain ⟨behind, rfl⟩ := textEnds.nil_cases
    obtain ⟨past, eq⟩ := patternEnds.ends
    cases p with
    | nil => simp at eq
    | cons d p =>
      refine ⟨_, _, _, window, front, [], missing, ?_, counts, rfl, rfl, textEnds, patternEnds,
        Or.inl rfl⟩
      simp [utfStrstrCount, unit.int_zero]
  | cons c later ih =>
    obtain ⟨s, rfl, textNonzero, textRest⟩ := textEnds.cons_cases
    cases missing with
    | nil =>
      obtain ⟨behind, rfl⟩ := patternEnds.nil_cases
      refine ⟨_, _, _, window, front, c :: later, [], ?_, counts, rfl, rfl, textEnds, patternEnds,
        Or.inr rfl⟩
      simp [utfStrstrCount, unit.int_zero]
    | cons d missing =>
      obtain ⟨p, rfl, patternNonzero, patternRest⟩ := patternEnds.cons_cases
      have rest := ih textRest patternRest (counts.next c d)
      rw [List.append_assoc, List.append_assoc] at rest
      simpa [utfStrstrCount, textNonzero, patternNonzero] using rest

theorem utfStrstrHere_window
    (patternEnds : Terminated unit p pattern) (sized : pattern.length = count.n)
    (hashed : count.hashPattern = unitsHash unit pattern) (same : window.length = pattern.length)
    (covered : window <+: s) :
    ∃ here, utfStrstrHere unit p count s (unitsHash unit window) = some here ∧
      (here = true ↔ window = pattern) := by
  obtain ⟨difference, compared, zero⟩ := utfStrncmp_window same covered patternEnds
  by_cases hashes : count.hashPattern = unitsHash unit window
  · refine ⟨difference == 0, ?_, by rw [beq_iff_eq, zero]⟩
    simp [utfStrstrHere, hashes, ← sized, compared]
  · refine ⟨false, by simp [utfStrstrHere, hashes], ?_⟩
    simp only [Bool.false_eq_true, false_iff]
    rintro rfl
    exact hashes hashed

theorem utfStrstrLoop_finds (patternEnds : Terminated unit p pattern)
    (nonempty : pattern ≠ []) (sized : pattern.length = count.n)
    (bm : count.bm = strstrBase ^ count.n) (hashed : count.hashPattern = unitsHash unit pattern)
    {rest : List Unit} (same : window.length = pattern.length)
    (restEnds : Terminated unit rest later) (covered : window ++ later <+: s) (place : Nat) :
    ∃ result : Option Nat, utfStrstrLoop unit p count rest s (unitsHash unit window) place =
      some (result.map (· + place)) ∧ FirstOccurrence pattern (window ++ later) result := by
  induction later generalizing window rest s place with
  | nil =>
    obtain ⟨behind, rfl⟩ := restEnds.nil_cases
    rw [List.append_nil] at covered ⊢
    obtain ⟨here, tested, found⟩ := utfStrstrHere_window patternEnds sized hashed same covered
    cases here with
    | true =>
      refine ⟨some 0, by simp [utfStrstrLoop, tested], FirstOccurrence.here ?_⟩
      rw [found.mp rfl]
    | false =>
      refine ⟨none, by simp [utfStrstrLoop, tested, unit.int_zero], ?_⟩
      obtain ⟨first, window, rfl⟩ :=
        List.exists_cons_of_ne_nil (fun empty : window = [] => nonempty (by
        rw [empty] at same
        exact List.length_eq_zero_iff.mp same.symm))
      refine FirstOccurrence.later first ?_ (FirstOccurrence.tooShort (by simp at same; omega))
      rw [← List.append_nil (first :: window), prefix_window_iff same, ← found]
      simp
  | cons c later ih =>
    obtain ⟨rest, rfl, nonzero, restEnds⟩ := restEnds.cons_cases
    obtain ⟨here, tested, found⟩ :=
      utfStrstrHere_window patternEnds sized hashed same
        ((List.prefix_append window (c :: later)).trans covered)
    cases here with
    | true =>
      refine ⟨some 0, by simp [utfStrstrLoop, tested], FirstOccurrence.here ?_⟩
      rw [found.mp rfl]
      exact List.prefix_append pattern _
    | false =>
      obtain ⟨first, window, rfl⟩ :=
        List.exists_cons_of_ne_nil (fun empty : window = [] => nonempty (by
        rw [empty] at same
        exact List.length_eq_zero_iff.mp same.symm))
      obtain ⟨behind, rfl⟩ := covered
      have slid : window ++ [c] ++ later <+: window ++ c :: later ++ behind := ⟨behind, by simp⟩
      obtain ⟨result, loops, first'⟩ := ih (by simpa using same) restEnds slid (place + 1)
      refine ⟨result.map (· + 1), ?_, ?_⟩
      · have moved : unitsHash unit (window ++ [c]) = unitsHash unit (first :: window) * strstrBase
            - unit.size first * count.bm + unit.size c := by
          rw [unitsHash_slide first, bm, ← sized, ← same, List.length_cons]
        rw [moved] at loops
        simp only [List.cons_append] at tested ⊢
        simp only [utfStrstrLoop, tested, Option.bind_eq_bind, Option.bind_some, Bool.false_eq_true,
          if_false, nonzero, List.head?_cons, List.tail_cons, loops]
        simp [Function.comp_def, Nat.add_assoc, Nat.add_comm place 1]
      · rw [List.append_assoc, List.singleton_append] at first'
        refine FirstOccurrence.later first ?_ first'
        change ¬ pattern <+: (first :: window) ++ c :: later
        rw [prefix_window_iff same, ← found]
        simp

theorem utfStrstr_finds {text : List Unit} (textEnds : Terminated unit s text)
    (patternEnds : Terminated unit p pattern) :
    ∃ result, utfStrstr unit s p = some result ∧ FirstOccurrence pattern text result := by
  cases pattern with
  | nil =>
    obtain ⟨behind, rfl⟩ := patternEnds.nil_cases
    exact ⟨some 0, by simp [utfStrstr, unit.int_zero], FirstOccurrence.here List.nil_prefix⟩
  | cons d pattern =>
    obtain ⟨more, rfl, nonzero, _⟩ := patternEnds.cons_cases
    obtain ⟨count, rest, more', window, front, later, missing, counted, stopped⟩ :=
      utfStrstrCount_counts textEnds patternEnds CountsWindows.start
    have windowed := stopped.text
    have fronted := stopped.pattern
    rw [List.nil_append] at windowed fronted
    cases missing with
    | cons e missing =>
      obtain rfl : later = [] := stopped.ended.resolve_right (List.cons_ne_nil e missing)
      obtain ⟨behind, rfl⟩ := stopped.rest.nil_cases
      obtain ⟨more', rfl, patternNonzero, _⟩ := stopped.more.cons_cases
      refine ⟨none, ?_, FirstOccurrence.tooShort ?_⟩
      · simp [utfStrstr, nonzero, counted, unit.int_zero, patternNonzero]
      · rw [← windowed, ← fronted, List.append_nil, List.length_append, stopped.counts.text,
          stopped.counts.pattern, List.length_cons]
        omega
    | nil =>
      obtain ⟨behind, rfl⟩ := stopped.more.nil_cases
      rw [List.append_nil] at fronted
      obtain ⟨result, loops, first⟩ := utfStrstrLoop_finds patternEnds (List.cons_ne_nil d pattern)
        (fronted ▸ stopped.counts.pattern) stopped.counts.bm (fronted ▸ stopped.counts.hashPattern)
        (by rw [stopped.counts.text, ← fronted, stopped.counts.pattern]) stopped.rest
        (windowed ▸ (List.prefix_append text [unit.zero]).trans textEnds.ends) 0
      refine ⟨result, ?_, windowed ▸ first⟩
      obtain ⟨c, head⟩ : ∃ c, rest.head? = some c := by
        obtain ⟨past, rfl⟩ := stopped.rest.ends
        cases later <;> simp
      rw [← stopped.counts.hashText] at loops
      simp [utfStrstr, nonzero, counted, unit.int_zero, head, loops]

end Strstr

/-- Both return the lowest place of the pattern. -/
theorem utfStrstr_firstOccurrence :
    (∀ s pattern text wanted, Terminated utf32Unit s text → Terminated utf32Unit pattern wanted →
      ∃ result, utf32Strstr s pattern = some result ∧ FirstOccurrence wanted text result) ∧
    (∀ s pattern text wanted, Terminated utf16Unit s text → Terminated utf16Unit pattern wanted →
      ∃ result, utf16Strstr (some s) (some pattern) = some result ∧
        FirstOccurrence wanted text result) :=
  ⟨fun _ _ _ _ textEnds patternEnds => utfStrstr_finds textEnds patternEnds,
    fun _ _ _ _ textEnds patternEnds => utfStrstr_finds textEnds patternEnds⟩

theorem utfStrstr_firstOccurrence_second :
    (∃ result, utf32Strstr [97, 98, 99, 0] [98, 99, 0] = some result ∧
      FirstOccurrence ([98, 99] : List Int32) [97, 98, 99] result) ∧
    (∃ result, utf16Strstr (some [97, 98, 0]) (some [99, 0]) = some result ∧
      FirstOccurrence ([99] : List UInt16) [97, 98] result) :=
  ⟨utfStrstr_firstOccurrence.1 [97, 98, 99, 0] [98, 99, 0] [97, 98, 99] [98, 99]
      ⟨by simp [utf32Unit], [], rfl⟩ ⟨by simp [utf32Unit], [], rfl⟩,
    utfStrstr_firstOccurrence.2 [97, 98, 0] [99, 0] [97, 98] [99]
      ⟨by simp [utf16Unit], [], rfl⟩ ⟨by simp [utf16Unit], [], rfl⟩⟩

end MulleCore
