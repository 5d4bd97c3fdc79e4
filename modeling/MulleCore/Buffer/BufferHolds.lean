import Mathlib.Data.List.TakeDrop
import MulleCore.Buffer.Buffer

/-!
The bytes that a buffer holds, and that the unrolled loops over strings add one byte after
the other.
-/

namespace MulleCore

open Library

structure BufferHolds (bytes : List UInt8) (buffer : MulleBuffer) : Prop where
  ordinary : buffer.overflown = false
  fits : buffer.curr ≤ buffer.storage.length
  null : buffer.place = .null → buffer.storage = []
  content : buffer.storage.take buffer.curr = bytes

section Holds

variable {bytes : List UInt8} {buffer : MulleBuffer}

section

variable (holds : BufferHolds bytes buffer)
include holds

theorem BufferHolds.curr_eq : buffer.curr = bytes.length := by
  have length := congrArg List.length holds.content
  rw [List.length_take, Nat.min_eq_left holds.fits] at length
  exact length

theorem BufferHolds.not_overflown : ¬ buffer.overflown = true := by
  rw [holds.ordinary]
  exact Bool.false_ne_true

theorem BufferHolds.length_eq : bufferGetLength buffer = bytes.length := by
  rw [bufferGetLength, holds.ordinary]
  exact holds.curr_eq

theorem BufferHolds.curr_null (null : buffer.place = .null) : buffer.curr = 0 := by
  have fits := holds.fits
  rw [holds.null null] at fits
  simpa using fits

theorem BufferHolds.ne_null (room : buffer.curr < buffer.storage.length) :
    buffer.place ≠ .null := by
  intro null
  rw [holds.null null] at room
  simp at room

theorem BufferHolds.isFull_eq :
    bufferIsFull buffer = true ↔ buffer.curr = buffer.storage.length := by
  have fits := holds.fits
  simp only [bufferIsFull, holds.ordinary, Bool.false_or, Bool.or_eq_true, decide_eq_true_eq]
  constructor
  · rintro (null | full)
    · rw [holds.curr_null null, holds.null null]
      rfl
    · omega
  · intro full
    exact .inr (by omega)

theorem BufferHolds.lastByte :
    bufferGetLastByte buffer = some (bytes.getLast?.elim (-1) fun byte => (byte.toNat : Int)) := by
  rw [bufferGetLastByte, holds.length_eq]
  split
  · rename_i empty
    rw [List.length_eq_zero_iff] at empty
    rw [empty]
    rfl
  · rename_i nonempty
    have curr := holds.curr_eq
    have inside : bytes.length - 1 < bytes.length := by omega
    have last : (buffer.storage.take buffer.curr)[bytes.length - 1]? =
      buffer.storage[bytes.length - 1]? :=
      List.getElem?_take_of_lt (by omega)
    rw [holds.content] at last
    rw [← last, List.getLast?_eq_getElem?, List.getElem?_eq_getElem inside]
    rfl

theorem BufferHolds.put (room : buffer.curr < buffer.storage.length) (c : UInt8) :
    bufferPut buffer c =
        some { buffer with storage := buffer.storage.set buffer.curr c, curr := buffer.curr + 1 } ∧
      BufferHolds (bytes ++ [c])
        { buffer with storage := buffer.storage.set buffer.curr c, curr := buffer.curr + 1 } := by
  obtain ⟨written, content⟩ := blockWrite_take room c
  refine ⟨?_, holds.ordinary, ?_, ?_, ?_⟩
  · rw [bufferPut, if_neg (holds.ne_null room), written]
    rfl
  · rw [List.length_set]
    exact room
  · exact fun null => absurd null (holds.ne_null room)
  · rw [content, holds.content]

theorem BufferHolds.fill {more : List UInt8}
    (room : buffer.curr + more.length ≤ buffer.storage.length) :
    ∃ storage, bufferFill { buffer with curr := buffer.curr + more.length } buffer.curr more =
        some { buffer with storage := storage, curr := buffer.curr + more.length } ∧
      storage.length = buffer.storage.length ∧
      BufferHolds (bytes ++ more)
        { buffer with storage := storage, curr := buffer.curr + more.length } := by
  obtain ⟨pasted, result, length, content⟩ := blockPaste_take _ _ _ room
  refine ⟨pasted, ?_, length, holds.ordinary, ?_, ?_, ?_⟩
  · rw [bufferFill, result]
    rfl
  · rw [length]
    exact room
  · intro null
    have empty := holds.null null
    rw [empty] at length
    exact List.length_eq_zero_iff.mp length
  · rw [content, holds.content]

end

end Holds

section Chars

variable (env : BufferEnv) (fresh : Nat → UInt8)
variable {buffer : MulleBuffer} {s address remain : Nat}

theorem bufferAddByte_room (room : bufferIsFull buffer = false) (c : UInt8) :
    bufferAddByte env fresh buffer c = bufferPut buffer c := by
  rw [bufferAddByte, room]
  rfl

theorem bufferAddByte_overflown (overflown : buffer.overflown = true) (c : UInt8) :
    bufferAddByte env fresh buffer c = some buffer := by
  have full : bufferIsFull buffer = true := by simp [bufferIsFull, overflown]
  rw [bufferAddByte, full, if_pos rfl, bufferGrow, overflown]
  rfl

theorem bufferAddEach_overflown (overflown : buffer.overflown = true) (bytes : List UInt8) :
    bufferAddEach env fresh buffer bytes = some buffer := by
  induction bytes with
  | nil => rfl
  | cons c bytes ih =>
    rw [bufferAddEach, List.foldlM_cons, bufferAddByte_overflown env fresh overflown]
    exact ih

theorem bufferAdvance_overflown (overflown : buffer.overflown = true) (length : Nat) :
    bufferAdvance env fresh buffer length = some (buffer, none) := by
  rw [bufferAdvance, bufferGuarantee, if_pos overflown]
  rfl

theorem bufferAddCharsUntilZero_eq (bytes : List UInt8) (buffer : MulleBuffer) :
    bufferAddCharsUntilZero env fresh buffer bytes =
      bufferAddEach env fresh buffer (bytes.takeWhile (· ≠ 0)) := by
  induction bytes generalizing buffer with
  | nil => rfl
  | cons c bytes ih =>
    rw [bufferAddCharsUntilZero]
    by_cases zero : c = 0
    · simp [zero, bufferAddEach]
    · have proper : decide (c ≠ 0) = true := decide_eq_true zero
      simp only [if_neg zero, ih, List.takeWhile_cons, proper, if_true, bufferAddEach,
        List.foldlM_cons]

theorem bufferCopyChars_position (count : Nat) {storage storage' bytes rest : List UInt8}
    {s' : Nat} (copied : bufferCopyChars count storage s bytes = some (storage', s', some rest)) :
    bytes.length = count + rest.length ∧ s' = s + count := by
  induction count generalizing storage s bytes with
  | zero =>
    cases copied
    simp
  | succ count ih =>
    cases bytes with
    | nil => cases copied
    | cons c bytes =>
      rw [bufferCopyChars] at copied
      split at copied
      · cases copied
      · obtain ⟨written, _, copied⟩ := Option.bind_eq_some_iff.mp copied
        obtain ⟨length, position⟩ := ih copied
        rw [List.length_cons, length, position]
        omega

theorem bufferCopyChars_round (ordinary : buffer.overflown = false)
    (notNull : buffer.place ≠ .null) (count : Nat) :
    ∀ (storage : List UInt8) (s : Nat) (bytes : List UInt8), s + count ≤ storage.length →
      ∃ storage' s' more, bufferCopyChars count storage s bytes = some (storage', s', more) ∧
        storage'.length = storage.length ∧
        (more = none → bufferAddCharsUntilZero env fresh
          { buffer with storage := storage, curr := s } bytes =
          some { buffer with storage := storage', curr := s' }) ∧
        ∀ rest, more = some rest →
          bufferAddCharsUntilZero env fresh { buffer with storage := storage, curr := s } bytes =
            bufferAddCharsUntilZero env fresh { buffer with storage := storage', curr := s' }
              rest := by
  induction count with
  | zero =>
    intro storage s bytes room
    refine ⟨storage, s, some bytes, rfl, rfl, (fun stopped => by cases stopped), ?_⟩
    rintro rest ⟨⟩
    rfl
  | succ count ih =>
    intro storage s bytes room
    cases bytes with
    | nil => exact ⟨storage, s, none, rfl, rfl, fun _ => rfl, fun rest stopped => by cases stopped⟩
    | cons c bytes =>
      by_cases zero : c = 0
      · refine ⟨storage, s, none, by simp [bufferCopyChars, zero], rfl, fun _ => ?_,
          fun rest stopped => by cases stopped⟩
        simp [bufferAddCharsUntilZero, zero]
      · have inside : s < storage.length := by omega
        obtain ⟨storage', s', more, copied, length, stops, goesOn⟩ :=
          ih (storage.set s c) (s + 1) bytes (by rw [List.length_set]; omega)
        have notFull : bufferIsFull { buffer with storage := storage, curr := s } = false := by
          simp [bufferIsFull, ordinary, notNull, inside]
        have first : bufferAddCharsUntilZero env fresh { buffer with storage := storage, curr := s }
          (c :: bytes) =
            bufferAddCharsUntilZero env fresh
              { buffer with storage := storage.set s c, curr := s + 1 } bytes := by
          rw [bufferAddCharsUntilZero, if_neg zero, bufferAddByte_room env fresh notFull, bufferPut,
            if_neg notNull, (blockWrite_take inside c).1]
          rfl
        refine ⟨storage', s', more, ?_, by rw [length, List.length_set],
          fun stopped => first.trans (stops stopped), fun rest stopped => first.trans
            (goesOn rest stopped)⟩
        rw [bufferCopyChars, if_neg zero, (blockWrite_take inside c).1]
        exact copied

theorem bufferAddStringFrom_eq (fuel : Nat) :
    ∀ (buffer : MulleBuffer) (s : Nat) (bytes : List UInt8), buffer.overflown = false →
      bytes.length < fuel →
      bufferAddStringFrom env fresh fuel buffer s bytes =
        bufferAddCharsUntilZero env fresh { buffer with curr := s } bytes := by
  induction fuel with
  | zero => exact fun buffer s bytes _ enough => absurd enough (Nat.not_lt_zero _)
  | succ fuel ih =>
    intro buffer s bytes ordinary enough
    rw [bufferAddStringFrom]
    split
    · rfl
    · rename_i unrolled
      obtain ⟨notNull, room⟩ := not_or.mp unrolled
      obtain ⟨storage, s', more, copied, _, stops, goesOn⟩ :=
        bufferCopyChars_round env fresh ordinary notNull 8 buffer.storage s bytes (by omega)
      rw [copied]
      cases more with
      | none => exact (stops rfl).symm
      | some rest =>
        have shorter := (bufferCopyChars_position 8 copied).1
        exact (ih { buffer with storage := storage } s' rest ordinary (by omega)).trans
          (goesOn rest rfl).symm

theorem bufferCopyChars_take (count : Nat) :
    ∀ (storage : List UInt8) (s : Nat) (bytes : List UInt8) (remain : Nat), count ≤ remain →
      bufferCopyChars count storage s (bytes.take remain) =
        (bufferCopyChars count storage s bytes).map fun (storage, s, more) =>
          (storage, s, more.map (List.take (remain - count))) := by
  induction count with
  | zero => exact fun storage s bytes remain _ => rfl
  | succ count ih =>
    intro storage s bytes remain enough
    obtain ⟨remain, rfl⟩ : ∃ less, remain = less + 1 := ⟨remain - 1, by omega⟩
    cases bytes with
    | nil => rfl
    | cons c bytes =>
      rw [List.take_succ_cons, bufferCopyChars, bufferCopyChars]
      by_cases zero : c = 0
      · simp [zero]
      · rw [if_neg zero, if_neg zero, Nat.add_sub_add_right]
        cases written : blockWrite storage s c with
        | none => rfl
        | some storage => exact ih storage (s + 1) bytes remain (by omega)

/-- How much of the string the loop looks at, which stops after its last full round where the
end of the string wraps around. -/
def stringReach (buffer : MulleBuffer) (s address remain : Nat) : Nat :=
  if address + remain < 2 ^ 64 then remain
  else if buffer.place = .null then 0
  else 8 * (min remain (buffer.storage.length - s) / 8)

theorem stringReach_last (small : remain < 2 ^ 64)
    (last : remain < 8 ∨ buffer.place = .null ∨ s + 8 > buffer.storage.length) :
    (address + remain) % 2 ^ 64 - address = stringReach buffer s address remain := by
  rw [stringReach]
  split
  · rename_i inside
    rw [Nat.mod_eq_of_lt inside, Nat.add_sub_cancel_left]
  · rename_i wraps
    have behind : (address + remain) % 2 ^ 64 - address = 0 := by omega
    rw [behind]
    split
    · rfl
    · rename_i notNull
      have few : min remain (buffer.storage.length - s) < 8 := by
        rcases last with few | null | full
        · omega
        · exact absurd null notNull
        · omega
      omega

theorem stringReach_round
    (large : 8 ≤ remain) (notNull : buffer.place ≠ .null) (room : s + 8 ≤ buffer.storage.length) :
    stringReach buffer s address remain =
      8 + stringReach buffer (s + 8) (address + 8) (remain - 8) := by
  have same : address + 8 + (remain - 8) = address + remain := by omega
  rw [stringReach, stringReach, if_neg notNull, if_neg notNull, same]
  split <;> omega

theorem bufferAddStringWithMaxlengthFrom_eq (fuel : Nat) :
    ∀ (buffer : MulleBuffer) (s address : Nat) (bytes : List UInt8) (remain : Nat),
      buffer.overflown = false → bytes.length < fuel → remain < 2 ^ 64 →
      bufferAddStringWithMaxlengthFrom env fresh fuel buffer s address bytes remain =
        bufferAddCharsUntilZero env fresh { buffer with curr := s }
          (bytes.take (stringReach buffer s address remain)) := by
  induction fuel with
  | zero => exact fun buffer s address bytes remain _ enough => absurd enough (Nat.not_lt_zero _)
  | succ fuel ih =>
    intro buffer s address bytes remain ordinary enough small
    rw [bufferAddStringWithMaxlengthFrom]
    split
    · rename_i last
      rw [← stringReach_last small last]
    · rename_i unrolled
      obtain ⟨large, notNull, room⟩ :
          ¬ remain < 8 ∧ buffer.place ≠ .null ∧ ¬ s + 8 > buffer.storage.length := by
        simpa only [not_or] using unrolled
      have reach : stringReach buffer s address remain = _ :=
        stringReach_round (by omega) notNull (by omega)
      obtain ⟨storage, s', more, copied, length, stops, goesOn⟩ :=
        bufferCopyChars_round env fresh ordinary notNull 8 buffer.storage s
          (bytes.take (stringReach buffer s address remain)) (by omega)
      have taken := bufferCopyChars_take 8 buffer.storage s bytes
        (stringReach buffer s address remain) (by omega)
      rw [copied] at taken
      cases whole : bufferCopyChars 8 buffer.storage s bytes with
      | none => simp [whole] at taken
      | some result =>
        obtain ⟨storageWhole, sWhole, moreWhole⟩ := result
        rw [whole, Option.map_some, Option.some_inj, Prod.mk.injEq, Prod.mk.injEq] at taken
        obtain ⟨rfl, rfl, rfl⟩ := taken
        cases moreWhole with
        | none => exact (stops rfl).symm
        | some rest =>
          obtain ⟨shorter, rfl⟩ := bufferCopyChars_position 8 whole
          have same := goesOn _ rfl
          have later := ih { buffer with storage := storage } (s + 8) (address + 8) rest
            (remain - 8) ordinary (by omega) (by omega)
          have rounds : stringReach { buffer with storage := storage } (s + 8) (address + 8)
              (remain - 8) = stringReach buffer s address remain - 8 := by
            rw [reach, Nat.add_sub_cancel_left, stringReach, stringReach, length]
          rw [rounds] at later
          exact later.trans same.symm

theorem bufferAddString_eq (buffer : MulleBuffer) (bytes : List UInt8) :
    bufferAddString env fresh buffer bytes =
      bufferAddEach env fresh buffer (bytes.takeWhile (· ≠ 0)) := by
  rw [bufferAddString]
  split
  · rename_i overflown
    exact (bufferAddEach_overflown env fresh overflown _).symm
  · rename_i ordinary
    rw [bufferAddStringFrom_eq env fresh _ _ _ _ (Bool.eq_false_iff.mpr ordinary)
      (Nat.lt_succ_self _), bufferAddCharsUntilZero_eq]

def limitedText (bytes : List UInt8) (maxlength : UInt64) : List UInt8 :=
  (bytes.take maxlength.toNat).takeWhile (· ≠ 0)

def reachedText (buffer : MulleBuffer) (address : UInt64) (bytes : List UInt8)
    (maxlength : UInt64) : List UInt8 :=
  (bytes.take (stringReach buffer buffer.curr address.toNat maxlength.toNat)).takeWhile (· ≠ 0)

theorem bufferAddStringWithMaxlength_eq (buffer : MulleBuffer) (address : UInt64)
    (bytes : List UInt8) (maxlength : UInt64) :
    bufferAddStringWithMaxlength env fresh buffer address bytes maxlength =
      (bufferAddEach env fresh buffer (reachedText buffer address bytes maxlength)).map fun next =>
        (next, wordSub (bufferGetLength next) (bufferGetLength buffer)) := by
  rw [bufferAddStringWithMaxlength]
  split
  · rename_i overflown
    rw [bufferAddEach_overflown env fresh overflown, Option.map_some, wordSub_eq le_rfl, Nat.sub_self]
  · rename_i ordinary
    split
    · rename_i nothing
      subst nothing
      simp [reachedText, stringReach, bufferAddEach, wordSub_eq]
    · rw [bufferAddStringWithMaxlengthFrom_eq env fresh _ _ _ _ _ _ (Bool.eq_false_iff.mpr ordinary)
        (Nat.lt_succ_self _) maxlength.toNat_lt, bufferAddCharsUntilZero_eq, reachedText]
      cases bufferAddEach env fresh buffer ((bytes.take (stringReach buffer buffer.curr address.toNat
        maxlength.toNat)).takeWhile (· ≠ 0)) <;> rfl

/-- The end of the string does not wrap around, or full rounds add all of it. -/
def StringReaches (buffer : MulleBuffer) (address : UInt64) (bytes : List UInt8)
    (maxlength : UInt64) : Prop :=
  buffer.overflown = true ∨ address.toNat + maxlength.toNat < 2 ^ 64 ∨
    (limitedText bytes maxlength).length ≤
      8 * (min maxlength.toNat (bufferGetRemainingLength buffer) / 8)

theorem reachedText_eq_iff {all : List UInt8} (holds : BufferHolds all buffer)
    (address : UInt64) (bytes : List UInt8) (maxlength : UInt64) :
    reachedText buffer address bytes maxlength = limitedText bytes maxlength ↔
      StringReaches buffer address bytes maxlength := by
  have room : bufferGetRemainingLength buffer = buffer.storage.length - buffer.curr :=
    if_neg holds.not_overflown
  have nothing : buffer.place = .null → buffer.storage.length = 0 :=
    fun null => List.length_eq_zero_iff.mpr (holds.null null)
  have limited : (limitedText bytes maxlength).length ≤ maxlength.toNat :=
    (List.takeWhile_sublist _).length_le.trans (List.length_take_le _ _)
  have reach : stringReach buffer buffer.curr address.toNat maxlength.toNat ≤ maxlength.toNat := by
    rw [stringReach]
    split
    · exact le_rfl
    · split <;> omega
  have cut : reachedText buffer address bytes maxlength = (limitedText bytes maxlength).take
      (stringReach buffer buffer.curr address.toNat maxlength.toNat) := by
    rw [reachedText, limitedText, ← List.take_takeWhile, ← List.take_takeWhile, List.take_take,
      Nat.min_eq_left reach]
  rw [cut, List.take_eq_self_iff, StringReaches, room, or_iff_right holds.not_overflown, stringReach]
  split
  · rename_i inside
    exact iff_of_true limited (.inl inside)
  · rename_i wraps
    rw [or_iff_right wraps]
    split
    · rename_i null
      rw [nothing null]
      simp
    · exact Iff.rfl

def LengthReaches (buffer : MulleBuffer) (length : Nat) : Prop :=
  buffer.overflown = true ∨ bufferMissing buffer length < 2 ^ 63

end Chars

/-!
What the writing operations need of a buffer, whatever it does when it is full.
-/

def BufferSpace (holds : List UInt8 → MulleBuffer → Prop) (all : List UInt8) (buffer : MulleBuffer)
    (space length : Nat) : Prop :=
  ∀ text : List UInt8, text.length ≤ length → ∃ next, bufferFill buffer space text = some next ∧
    next.curr = space + length ∧ holds (all ++ text) { next with curr := space + text.length }

/-- Single bytes are always taken, and so is a text of at most `limit` bytes at once. A buffer
that has overflown is lost. -/
structure BufferSink (env : BufferEnv) (limit : Nat) (holds : List UInt8 → MulleBuffer → Prop) :
    Prop where
  addByte : ∀ {all buffer} (fresh : Nat → UInt8) (c : UInt8), holds all buffer →
    ∃ next, bufferAddByte env fresh buffer c = some next ∧ holds (all ++ [c]) next
  advance : ∀ {all buffer} (fresh : Nat → UInt8) (length : Nat), holds all buffer →
    ∃ next reserved, bufferAdvance env fresh buffer length = some (next, reserved) ∧
      (reserved = none → holds all next ∧ (length = 0 ∨ limit < length ∨ next.overflown = true)) ∧
      ∀ space, reserved = some space → BufferSpace holds all next space length
  lost : ∀ {all buffer}, holds all buffer → buffer.overflown = true → ∀ other, holds other buffer

section Writes

variable {env : BufferEnv} {limit : Nat} {holds : List UInt8 → MulleBuffer → Prop}

theorem BufferSpace.fill {all : List UInt8} {buffer : MulleBuffer} {space : Nat} (text : List UInt8)
    (open_ : BufferSpace holds all buffer space text.length) :
    ∃ next, bufferFill buffer space text = some next ∧ holds (all ++ text) next := by
  obtain ⟨next, filled, curr, nextHolds⟩ := open_ text le_rfl
  refine ⟨next, filled, ?_⟩
  rwa [← curr] at nextHolds

theorem BufferSink.addEach (sink : BufferSink env limit holds) (fresh : Nat → UInt8)
    (more : List UInt8) :
    ∀ {all : List UInt8} {buffer : MulleBuffer}, holds all buffer →
      ∃ next, bufferAddEach env fresh buffer more = some next ∧ holds (all ++ more) next := by
  induction more with
  | nil => exact fun {all buffer} start => ⟨buffer, rfl, by rwa [List.append_nil]⟩
  | cons c more ih =>
    intro all buffer start
    obtain ⟨next, added, nextHolds⟩ := sink.addByte fresh c start
    obtain ⟨last, finished, lastHolds⟩ := ih nextHolds
    refine ⟨last, ?_, by rwa [List.append_assoc] at lastHolds⟩
    rw [bufferAddEach, List.foldlM_cons, added]
    exact finished

variable {all : List UInt8} {buffer : MulleBuffer}

section

variable (sink : BufferSink env limit holds)
include sink

theorem BufferSink.append (fresh : Nat → UInt8) (more : List UInt8) (start : holds all buffer) :
    ∃ between next, holds (all ++ more) next ∧
      ((∃ space, bufferAdvance env fresh buffer more.length = some (between, some space) ∧
        bufferFill between space more = some next) ∨
      (bufferAdvance env fresh buffer more.length = some (between, none) ∧
        bufferAddEach env fresh between more = some next)) := by
  obtain ⟨between, reserved, advanced, refused, opened⟩ := sink.advance fresh more.length start
  cases reserved with
  | none =>
    obtain ⟨next, added, nextHolds⟩ := sink.addEach fresh more (refused rfl).1
    exact ⟨between, next, nextHolds, .inr ⟨advanced, added⟩⟩
  | some space =>
    obtain ⟨next, filled, nextHolds⟩ := (opened space rfl).fill more
    exact ⟨between, next, nextHolds, .inl ⟨space, advanced, filled⟩⟩

theorem BufferSink.addBytes (fresh : Nat → UInt8) (more : List UInt8) (start : holds all buffer) :
    ∃ next, bufferAddBytes env fresh buffer more = some next ∧ holds (all ++ more) next := by
  rw [bufferAddBytes]
  split
  · rename_i empty
    rw [List.length_eq_zero_iff] at empty
    exact ⟨buffer, rfl, by rwa [empty, List.append_nil]⟩
  · obtain ⟨between, next, nextHolds, ⟨space, advanced, filled⟩ | ⟨advanced, added⟩⟩ :=
      sink.append fresh more start
    · exact ⟨next, by rw [advanced]; exact filled, nextHolds⟩
    · exact ⟨next, by rw [advanced]; exact added, nextHolds⟩

theorem BufferSink.memset (fresh : Nat → UInt8) (c : UInt8) (length : Nat)
    (start : holds all buffer) :
    ∃ next, bufferMemset env fresh buffer c length = some next ∧
      holds (all ++ List.replicate length c) next := by
  obtain ⟨between, next, nextHolds, written⟩ := sink.append fresh (List.replicate length c) start
  rw [List.length_replicate] at written
  obtain ⟨space, advanced, filled⟩ | ⟨advanced, added⟩ := written
  · exact ⟨next, by rw [bufferMemset, advanced]; exact filled, nextHolds⟩
  · exact ⟨next, by rw [bufferMemset, advanced]; exact added, nextHolds⟩

theorem BufferSink.addString (fresh : Nat → UInt8) (more : List UInt8) (start : holds all buffer) :
    ∃ next, bufferAddString env fresh buffer more = some next ∧
      holds (all ++ more.takeWhile (· ≠ 0)) next := by
  rw [bufferAddString_eq]
  exact sink.addEach fresh _ start

theorem BufferSink.addStringWithMaxlength (fresh : Nat → UInt8)
    (address : UInt64) (more : List UInt8) (maxlength : UInt64) (start : holds all buffer) :
    ∃ next, bufferAddStringWithMaxlength env fresh buffer address more maxlength =
        some (next, wordSub (bufferGetLength next) (bufferGetLength buffer)) ∧
      holds (all ++ reachedText buffer address more maxlength) next := by
  obtain ⟨next, added, nextHolds⟩ :=
    sink.addEach fresh (reachedText buffer address more maxlength) start
  exact ⟨next, by rw [bufferAddStringWithMaxlength_eq, added, Option.map_some], nextHolds⟩

end

end Writes

end MulleCore
