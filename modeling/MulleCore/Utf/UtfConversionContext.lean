import MulleCore.Utf.Utf16Rounds
import MulleCore.Utf.Utf8Rounds

/-!
The conversion contexts of `mulle-utf-convenience.c`: the chunks of a converted text go to a buffer,
up to the last whole character that fits.
-/

namespace MulleCore

open Library

/-- Pointers are places in the memory that the buffer begins, `none` is `NULL`. The memory remembers
what was stored in it. -/
structure ConversionContext (Unit : Type) where
  buf : Nat
  sentinel : Option Nat
  memory : Nat → Option Unit

section Functions

variable {Unit : Type}

def conversionContextInit (n : Nat) : ConversionContext Unit where
  buf := 0
  sentinel := some n
  memory _ := none

def conversionContextStore (p : ConversionContext Unit) (bytes : List Unit) (len : Nat) :
    Option (ConversionContext Unit) :=
  if len ≤ bytes.length then
    some { p with
      memory := fun place => if p.buf ≤ place ∧ place < p.buf + len then bytes[place - p.buf]?
        else p.memory place }
  else none

def conversionContextWalk (step : Unit → Nat) (bytes : List Unit) (sEnd : Nat) :
    Nat → Nat → Option Nat
  | 0, _ => none
  | fuel + 1, t => do
      let c ← bytes[t]?
      let s := t + step c
      if s > sEnd then some t else conversionContextWalk step bytes sEnd fuel s

def conversionContextAddBytes (size : Nat) (step : Unit → Nat) (p : ConversionContext Unit)
    (bytes : List Unit) :
    Option (ConversionContext Unit) :=
  let len := bytes.length * size
  match p.sentinel with
  | none => some p
  | some sentinel =>
    if p.buf + len / size > sentinel then do
      let t ← conversionContextWalk step bytes (sentinel - p.buf) (bytes.length + 1) 0
      let len := t * size
      let p ← conversionContextStore { p with sentinel := none } bytes (len / size)
      some { p with buf := p.buf + len / size }
    else do
      let p ← conversionContextStore p bytes (len / size)
      some { p with buf := p.buf + len / size }

def utf8Step (c : UInt8) : Nat :=
  if ! utf8IsAsciicharacter c then 1 + utf8GetExtracharacterslength c else 1

def utf8ConversionContextAddBytes (p : ConversionContext UInt8) (bytes : List UInt8) :
    Option (ConversionContext UInt8) := conversionContextAddBytes 1 utf8Step p bytes

def utf16Step (c : UInt16) : Nat := if utf32IsSurrogatecharacter c.toNat then 2 else 1

def utf16ConversionContextAddBytes (p : ConversionContext UInt16) (bytes : List UInt16) :
    Option (ConversionContext UInt16) := conversionContextAddBytes 2 utf16Step p bytes

/-- The length is cut, but `end` remains that of the whole chunk. -/
def utf32ConversionContextAddBytes (p : ConversionContext Int32) (bytes : List Int32) :
    Option (ConversionContext Int32) :=
  let len := bytes.length * 4
  let last := p.buf + len / 4
  match p.sentinel with
  | none => some p
  | some sentinel =>
    if last > sentinel then do
      let len := (sentinel - p.buf) * 4
      let p ← conversionContextStore { p with sentinel := none } bytes (len / 4)
      some { p with buf := last }
    else do
      let p ← conversionContextStore p bytes (len / 4)
      some { p with buf := last }

end Functions

section Exact

variable {Unit : Type}

def StoresUnits (p : ConversionContext Unit) (units : List Unit) : Prop :=
  p.memory = fun place => units[place]?

def StoresExactly (p : ConversionContext Unit) (units : List Unit) : Prop :=
  StoresUnits p units ∧ p.buf = units.length

theorem conversionContextStore_exact {p : ConversionContext Unit} {units bytes : List Unit}
    {len : Nat} (exact : StoresExactly p units) (within : len ≤ bytes.length) :
    ∃ next, conversionContextStore p bytes len = some next ∧ next.buf = p.buf ∧
      next.sentinel = p.sentinel ∧
      StoresUnits next (units ++ bytes.take len) := by
  refine ⟨_, if_pos within, rfl, rfl, ?_⟩
  funext place
  dsimp only
  rw [exact.1, exact.2]
  dsimp only
  by_cases before : place < units.length
  · rw [if_neg (by omega), List.getElem?_append_left before]
  · rw [List.getElem?_append_right (by omega)]
    by_cases inside : place < units.length + len
    · rw [if_pos (by omega), List.getElem?_take_of_lt (by omega)]
    · have behind : (bytes.take len).length ≤ place - units.length := by
        rw [List.length_take]
        omega
      rw [if_neg (by omega), List.getElem?_eq_none (by omega), List.getElem?_eq_none behind]

end Exact

section Walk

variable {Unit Character : Type} {encode : Character → List Unit} {step : Unit → Nat}

def StepsCharacters (encode : Character → List Unit) (step : Unit → Nat) : Prop :=
  ∀ c, ∃ lead more, encode c = lead :: more ∧ step lead = (encode c).length

theorem conversionContextWalk_fitting (steps : StepsCharacters encode step) {text : List Character}
    {front : List Unit} {room fuel : Nat} (crosses : room < (text.flatMap encode).length)
    (enough : (text.flatMap encode).length < fuel) :
    conversionContextWalk step (front ++ text.flatMap encode) (front.length + room) fuel
      front.length =
      some (front.length + ((fitting encode room text).flatMap encode).length) := by
  induction text generalizing front room fuel with
  | nil => simp at crosses
  | cons c text ih =>
    obtain ⟨lead, more, spelled, sized⟩ := steps c
    have positive : 0 < (encode c).length := by simp [spelled]
    obtain ⟨fuel, rfl⟩ :=
      Nat.exists_eq_succ_of_ne_zero (Nat.ne_of_gt (Nat.lt_of_le_of_lt (Nat.zero_le _) enough))
    have read : (front ++ (c :: text).flatMap encode)[front.length]? = some lead := by
      simp [spelled]
    rw [List.flatMap_cons, List.length_append] at crosses enough
    rw [conversionContextWalk, read, Option.bind_eq_bind, Option.bind_some, sized, fitting]
    by_cases fits : (encode c).length ≤ room
    · have rest := @ih (front ++ encode c) (room - (encode c).length) fuel (by omega) (by omega)
      rw [List.length_append, List.append_assoc, Nat.add_assoc, Nat.add_sub_cancel' fits] at rest
      rw [if_neg (by omega), if_pos fits, List.flatMap_cons, List.flatMap_cons, rest,
        List.length_append, Nat.add_assoc]
    · rw [if_pos (by omega), if_neg fits]
      simp

theorem utf8Step_characters : StepsCharacters String.utf8EncodeChar utf8Step := by
  intro c
  have shape := utf8_shape c
  generalize String.utf8EncodeChar c = units at shape
  cases shape with
  | ascii b _ ascii _ => exact ⟨b, [], rfl, by simp [utf8Step, ascii]⟩
  | sequence b more _ notAscii _ extra _ _ _ =>
    exact ⟨b, more, rfl, by simp [utf8Step, notAscii, extra, Nat.add_comm]⟩

theorem utf16Step_characters : StepsCharacters utf16EncodeChar utf16Step := by
  intro c
  have shape := utf16_shape c
  generalize utf16EncodeChar c = units at shape
  cases shape with
  | one a _ _ noSurrogate _ => exact ⟨a, [], rfl, by simp [utf16Step, noSurrogate]⟩
  | two a d _ high low _ =>
    have surrogate := (utf32IsSurrogatecharacter_eq a.toNat).mpr (by omega)
    exact ⟨a, [d], rfl, by simp [utf16Step, surrogate]⟩

theorem fitting_take (room : Nat) (text : List Character) :
    (text.flatMap encode).take ((fitting encode room text).flatMap encode).length =
      (fitting encode room text).flatMap encode := by
  obtain ⟨later, split⟩ := (fitting_longest room text : LongestFitting encode room text _).begins
  generalize fitting encode room text = front at split ⊢
  rw [← split, List.flatMap_append, List.take_left]

end Walk

section Runs

variable {Unit Character : Type} {encode : Character → List Unit}
variable {n : Nat} {text : List Character} {p : ConversionContext Unit} {more : List Character}
  {size : Nat} {next : ConversionContext Unit} {bytes : List Unit} {sentinel : Nat}
  {step : Unit → Nat}

structure ContextHolds (encode : Character → List Unit) (n : Nat) (text : List Character)
    (p : ConversionContext Unit) : Prop where
  stores : StoresUnits p ((fitting encode n text).flatMap encode)
  sentinel : p.sentinel = if (text.flatMap encode).length ≤ n then some n else none
  buf : (text.flatMap encode).length ≤ n → p.buf = (text.flatMap encode).length

theorem ContextHolds.init (n : Nat) : ContextHolds encode n [] (conversionContextInit n) := by
  refine ⟨?_, by simp [conversionContextInit], by simp [conversionContextInit]⟩
  funext place
  simp [conversionContextInit, fitting]

section

variable (holds : ContextHolds encode n text p)
include holds

theorem ContextHolds.exact
    (fits : (text.flatMap encode).length ≤ n) : StoresExactly p (text.flatMap encode) := by
  have stores := holds.stores
  rw [fitting_all fits] at stores
  exact ⟨stores, holds.buf fits⟩

theorem ContextHolds.whole (fits : ((text ++ more).flatMap encode).length ≤ n) :
    ∃ next, conversionContextStore p (more.flatMap encode) (more.flatMap encode).length = some next ∧
      next.buf = (text.flatMap encode).length ∧
      ContextHolds encode n (text ++ more)
        { next with buf := next.buf + (more.flatMap encode).length } := by
  have lengths := fits
  rw [List.flatMap_append, List.length_append] at lengths
  obtain ⟨next, stored, bufSame, sentinelSame, units⟩ :=
    conversionContextStore_exact (holds.exact (by omega)) (Nat.le_refl (more.flatMap encode).length)
  have before := holds.buf (by omega)
  refine ⟨next, stored, bufSame.trans before, ?_, ?_, ?_⟩
  · rw [List.take_length] at units
    rw [fitting_all fits, List.flatMap_append]
    exact units
  · rw [if_pos fits]
    exact sentinelSame.trans (holds.sentinel.trans (if_pos (by omega)))
  · intro _
    rw [List.flatMap_append, List.length_append, ← before, ← bufSame]

theorem ContextHolds.cut (fits : (text.flatMap encode).length ≤ n)
    (crosses : n < ((text ++ more).flatMap encode).length) :
    ∃ next, conversionContextStore { p with sentinel := none } (more.flatMap encode)
        ((fitting encode (n - (text.flatMap encode).length) more).flatMap encode).length = some next ∧
      next.buf + ((fitting encode (n - (text.flatMap encode).length) more).flatMap encode).length =
        ((fitting encode n (text ++ more)).flatMap encode).length ∧
      ∀ buf, ContextHolds encode n (text ++ more) { next with buf := buf } := by
  have within : ((fitting encode (n - (text.flatMap encode).length) more).flatMap encode).length ≤
      (more.flatMap encode).length := by
    rw [← fitting_take (n - (text.flatMap encode).length) more, List.length_take]
    omega
  have both : fitting encode n (text ++ more) = text ++
      fitting encode (n - (text.flatMap encode).length) more := by
    rw [fitting_append, if_pos fits]
  have start : StoresExactly { p with sentinel := none } (text.flatMap encode) := holds.exact fits
  obtain ⟨next, stored, bufSame, sentinelSame, units⟩ := conversionContextStore_exact start within
  rw [fitting_take] at units
  refine ⟨next, stored, ?_, ?_⟩
  · rw [both, List.flatMap_append, List.length_append, bufSame, holds.buf fits]
  · intro buf
    refine ⟨?_, ?_, fun small => absurd small (by omega)⟩
    · rw [both, List.flatMap_append]
      exact units
    · rw [if_neg (by omega)]
      exact sentinelSame

theorem ContextHolds.closed (more : List Character) (crossed : n < (text.flatMap encode).length) :
    p.sentinel = none ∧ fitting encode n (text ++ more) = fitting encode n text ∧
    ContextHolds encode n (text ++ more) p := by
  have same : fitting encode n (text ++ more) = fitting encode n text := by
    rw [fitting_append, if_neg (by omega)]
  have closed : p.sentinel = none := holds.sentinel.trans (if_neg (by omega))
  have longer : n < ((text ++ more).flatMap encode).length := by
    rw [List.flatMap_append, List.length_append]
    omega
  refine ⟨closed, same, ?_, ?_, fun small => absurd small (by omega)⟩
  · rw [same]
    exact holds.stores
  · rw [if_neg (by omega), closed]

end

def ContextExact (encode : Character → List Unit) (n : Nat) (text : List Character)
    (p : ConversionContext Unit) : Prop :=
  ContextHolds encode n text p ∧ p.buf = ((fitting encode n text).flatMap encode).length

theorem conversionContextAddBytes_whole (positive : 0 < size) (step : Unit → Nat)
    (open_ : p.sentinel = some sentinel)
    (fits : p.buf + bytes.length ≤ sentinel)
    (stored : conversionContextStore p bytes bytes.length = some next) :
    conversionContextAddBytes size step p bytes =
      some { next with buf := next.buf + bytes.length } := by
  simp [conversionContextAddBytes, open_, Nat.mul_div_cancel _ positive, Nat.not_lt_of_le fits,
    stored]

theorem conversionContextAddBytes_cut (positive : 0 < size)
    {t : Nat} (open_ : p.sentinel = some sentinel)
    (crosses : sentinel < p.buf + bytes.length)
    (walk : conversionContextWalk step bytes (sentinel - p.buf) (bytes.length + 1) 0 = some t)
    (stored : conversionContextStore { p with sentinel := none } bytes t = some next) :
    conversionContextAddBytes size step p bytes = some { next with buf := next.buf + t } := by
  simp [conversionContextAddBytes, open_, Nat.mul_div_cancel _ positive, crosses, walk, stored]

theorem utf32ConversionContextAddBytes_whole {p next : ConversionContext Int32} {bytes : List Int32}
    (open_ : p.sentinel = some sentinel) (fits : p.buf + bytes.length ≤ sentinel)
    (stored : conversionContextStore p bytes bytes.length = some next) :
    utf32ConversionContextAddBytes p bytes = some { next with buf := p.buf + bytes.length } := by
  simp [utf32ConversionContextAddBytes, open_, Nat.not_lt_of_le fits, stored]

theorem utf32ConversionContextAddBytes_cut {p next : ConversionContext Int32} {bytes : List Int32}
    (open_ : p.sentinel = some sentinel) (crosses : sentinel < p.buf + bytes.length)
    (stored : conversionContextStore { p with sentinel := none } bytes (sentinel - p.buf) =
      some next) :
    utf32ConversionContextAddBytes p bytes = some { next with buf := p.buf + bytes.length } := by
  simp [utf32ConversionContextAddBytes, open_, crosses, stored]

/-- A chunk is stored as far as it fits behind the text before it. -/
theorem conversionContextAddBytes_exact (positive : 0 < size) (steps : StepsCharacters encode step)
    (exact : ContextExact encode n text p) (more : List Character) :
    ∃ next, conversionContextAddBytes size step p (more.flatMap encode) = some next ∧
      ContextExact encode n (text ++ more) next := by
  obtain ⟨holds, behind⟩ := exact
  have total : ((text ++ more).flatMap encode).length = (text.flatMap encode).length +
      (more.flatMap encode).length := by
    rw [List.flatMap_append, List.length_append]
  by_cases fits : (text.flatMap encode).length ≤ n
  · have open_ := holds.sentinel
    rw [if_pos fits] at open_
    have start := holds.buf fits
    by_cases whole : ((text ++ more).flatMap encode).length ≤ n
    · obtain ⟨next, stored, before, nextHolds⟩ := holds.whole whole
      refine ⟨_, conversionContextAddBytes_whole positive step open_ (by omega) stored, nextHolds, ?_⟩
      rw [fitting_all whole, total, ← before]
    · obtain ⟨next, stored, bufAt, nextHolds⟩ := holds.cut fits (Nat.lt_of_not_le whole)
      have walk := @conversionContextWalk_fitting _ _ encode step steps more [] (n - p.buf)
        ((more.flatMap encode).length + 1) (by omega) (by omega)
      simp only [List.nil_append, List.length_nil, Nat.zero_add] at walk
      rw [← start] at stored bufAt
      exact ⟨_, conversionContextAddBytes_cut positive open_ (by omega) walk stored, nextHolds _,
        bufAt⟩
  · obtain ⟨closed, same, after⟩ := holds.closed more (Nat.lt_of_not_le fits)
    exact ⟨p, by simp [conversionContextAddBytes, closed], after, by rw [same, behind]⟩

theorem utf32_units (text : List Char) : (text.flatMap utf32EncodeChar).length = text.length := by
  simp [utf32EncodeChar]

def Context32Holds (n : Nat) (text : List Char) (p : ConversionContext Int32) : Prop :=
  ContextHolds utf32EncodeChar n text p ∧ (n < text.length → n < p.buf)

theorem utf32ConversionContextAddBytes_holds {text : List Char} {p : ConversionContext Int32}
    (holds : ContextHolds utf32EncodeChar n text p) (far : n < text.length → n < p.buf)
    (more : List Char) :
    ∃ next, utf32ConversionContextAddBytes p (more.flatMap utf32EncodeChar) = some next ∧
      Context32Holds n (text ++ more) next := by
  have total := utf32_units (text ++ more)
  have added := utf32_units more
  simp only [Context32Holds, List.length_append] at total ⊢
  by_cases fits : text.length ≤ n
  · have start := holds.buf (by rwa [utf32_units])
    have open_ := holds.sentinel
    rw [utf32_units] at start
    rw [utf32_units, if_pos fits] at open_
    by_cases whole : text.length + more.length ≤ n
    · obtain ⟨next, stored, before, nextHolds⟩ := holds.whole (by rwa [total])
      rw [utf32_units, ← start] at before
      rw [before] at nextHolds
      exact ⟨_, utf32ConversionContextAddBytes_whole open_ (by omega) stored, nextHolds,
        fun large => absurd large (by omega)⟩
    · have crosses : n < ((text ++ more).flatMap utf32EncodeChar).length := by omega
      obtain ⟨next, stored, _, nextHolds⟩ := holds.cut (by rwa [utf32_units]) crosses
      rw [utf32_units, utf32_units, fitting_singles fun _ => rfl, List.length_take, ← start,
        Nat.min_eq_left (by omega)] at stored
      exact ⟨_, utf32ConversionContextAddBytes_cut open_ (by omega) stored, nextHolds _,
        fun _ => by dsimp only; omega⟩
  · obtain ⟨closed, _, after⟩ := holds.closed more (by rw [utf32_units]; omega)
    exact ⟨p, by simp [utf32ConversionContextAddBytes, closed], after,
      fun _ => far (Nat.lt_of_not_le fits)⟩

def conversionContextRun
    (addBytes : ConversionContext Unit → List Unit → Option (ConversionContext Unit))
    (p : ConversionContext Unit) (chunks : List (List Unit)) : Option (ConversionContext Unit) :=
  chunks.foldlM addBytes p

theorem conversionContextRun_keeps
    {addBytes : ConversionContext Unit → List Unit → Option (ConversionContext Unit)}
    {holds : List Character → ConversionContext Unit → Prop} (step : ∀ text p more, holds text p →
      ∃ next, addBytes p (more.flatMap encode) = some next ∧ holds (text ++ more) next)
    (start : holds text p) (chunks : List (List Character)) :
    ∃ last, conversionContextRun addBytes p (chunks.map fun chunk => chunk.flatMap encode) =
      some last ∧
      holds (text ++ chunks.flatten) last := by
  induction chunks generalizing text p with
  | nil => exact ⟨p, rfl, by simpa using start⟩
  | cons chunk chunks ih =>
    obtain ⟨next, added, nextHolds⟩ := step text p chunk start
    obtain ⟨last, ran, lastHolds⟩ := ih nextHolds
    refine ⟨last, ?_, by simpa using lastHolds⟩
    rw [conversionContextRun] at ran ⊢
    simp [added, ran]

def StoresFitting (encode : Character → List Unit) (n : Nat) (text : List Character)
    (p : ConversionContext Unit) : Prop :=
  ∃ front, LongestFitting encode n text front ∧ StoresExactly p (front.flatMap encode)

theorem conversionContextRun_fitting (positive : 0 < size)
    (steps : StepsCharacters encode step) (n : Nat) (chunks : List (List Character)) :
    ∃ p, conversionContextRun (conversionContextAddBytes size step) (conversionContextInit n)
      (chunks.map fun chunk => chunk.flatMap encode) = some p ∧
      StoresFitting encode n chunks.flatten p := by
  have start : ContextExact encode n [] (conversionContextInit n) := ⟨ContextHolds.init n, rfl⟩
  have added : ∀ text p more, ContextExact encode n text p →
      ∃ next, conversionContextAddBytes size step p (more.flatMap encode) = some next ∧
        ContextExact encode n (text ++ more) next :=
    fun _ _ more exact => conversionContextAddBytes_exact positive steps exact more
  obtain ⟨p, ran, holds, behind⟩ := conversionContextRun_keeps added start chunks
  exact ⟨p, ran, _, fitting_longest n _, holds.stores, behind⟩

end Runs

/-- All three store the longest prefix that fits and nothing else. The UTF-8 and the UTF-16 context
leave `buf` right behind it in every run, the UTF-32 context only as long as no chunk was cut. -/
theorem utfConversionContext_stores_iff (n : Nat) (chunks : List (List Char)) :
    (∃ p, conversionContextRun utf8ConversionContextAddBytes (conversionContextInit n)
      (chunks.map fun chunk => chunk.flatMap String.utf8EncodeChar) = some p ∧
      StoresFitting String.utf8EncodeChar n chunks.flatten p) ∧
    (∃ p, conversionContextRun utf16ConversionContextAddBytes (conversionContextInit n)
      (chunks.map fun chunk => chunk.flatMap utf16EncodeChar) = some p ∧
      StoresFitting utf16EncodeChar n chunks.flatten p) ∧
    ∃ p front, conversionContextRun utf32ConversionContextAddBytes (conversionContextInit n)
      (chunks.map fun chunk => chunk.flatMap utf32EncodeChar) = some p ∧
      LongestFitting utf32EncodeChar n chunks.flatten front ∧
      StoresUnits p (front.flatMap utf32EncodeChar) ∧
      (StoresFitting utf32EncodeChar n chunks.flatten p ↔
        (chunks.flatten.flatMap utf32EncodeChar).length ≤ n) := by
  refine ⟨conversionContextRun_fitting Nat.one_pos utf8Step_characters n chunks,
    conversionContextRun_fitting Nat.two_pos utf16Step_characters n chunks, ?_⟩
  have added : ∀ text p more, Context32Holds n text p →
      ∃ next, utf32ConversionContextAddBytes p (more.flatMap utf32EncodeChar) = some next ∧
        Context32Holds n (text ++ more) next :=
    fun _ _ more state => utf32ConversionContextAddBytes_holds state.1 state.2 more
  have start : Context32Holds n [] (conversionContextInit n) :=
    ⟨ContextHolds.init n, fun large => absurd large (Nat.not_lt_zero n)⟩
  obtain ⟨p, ran, holds, far⟩ := conversionContextRun_keeps added start chunks
  rw [List.nil_append] at holds far
  refine ⟨p, _, ran, fitting_longest n _, holds.stores, ?_⟩
  constructor
  · rintro ⟨front, longest, exact⟩
    have fits := longest.fits
    have behind := exact.2
    rw [utf32_units] at fits behind ⊢
    apply Nat.le_of_not_lt
    intro large
    have beyond := far large
    omega
  · intro fits
    refine ⟨_, fitting_longest n _, holds.stores, ?_⟩
    rw [fitting_all fits]
    exact holds.buf fits

/-- Of two characters only one fits, but `buf` is moved by two. -/
theorem utf32ConversionContextAddBytes_strays :
    (utf32ConversionContextAddBytes (conversionContextInit 1) [97, 98]).map
    (fun p => (p.buf, p.memory 0, p.memory 1)) =
      some (2, some 97, none) := by decide

end MulleCore
