import MulleCore.Buffer.BufferHolds
import MulleCore.Library.Simulation

/-!
A flexible buffer is a list of bytes, whatever storage it begins with.
-/

namespace MulleCore

open Library

structure FlexibleHolds (bytes : List UInt8) (buffer : MulleBuffer) :
    Prop extends BufferHolds bytes buffer where
  flexible : buffer.type = .flexible

section Flexible

variable (env : BufferEnv) (fresh : Nat → UInt8) {bytes : List UInt8} {buffer : MulleBuffer}

theorem bufferGetNewAllocationLength_ge (holds : BufferHolds bytes buffer) (growth : Nat) :
    buffer.storage.length + growth ≤ bufferGetNewAllocationLength env buffer growth := by
  rw [bufferGetNewAllocationLength]
  split
  · rename_i null
    rw [holds.null null, List.length_nil]
    grind
  · grind

theorem bufferRealloc_take (holds : BufferHolds bytes buffer) (newSize : Nat)
    (larger : buffer.storage.length ≤ newSize) :
    ∃ storage, bufferRealloc fresh buffer newSize = some storage ∧ storage.length = newSize ∧
      storage.take buffer.curr = bytes := by
  have fits := holds.fits
  rw [bufferRealloc]
  split
  · refine ⟨_, rfl, blockResize_length _ _ _, ?_⟩
    rw [blockResize_take _ _ fits (by omega), holds.content]
  · have used : (buffer.storage.take buffer.curr).length = buffer.curr := by
      rw [List.length_take, Nat.min_eq_left fits]
    have room : 0 + (buffer.storage.take buffer.curr).length ≤
        (blockResize [] newSize fresh).length := by
      rw [used, blockResize_length]
      omega
    obtain ⟨storage, pasted, length, content⟩ := blockPaste_take _ _ _ room
    rw [blockRead_front fits]
    refine ⟨storage, pasted, ?_, ?_⟩
    · rw [length, blockResize_length]
    · rw [used, Nat.zero_add] at content
      rw [content, holds.content]
      rfl

theorem FlexibleHolds.grow (holds : FlexibleHolds bytes buffer) (growth : Nat) :
    ∃ storage, bufferGrow env fresh buffer growth =
      some ({ buffer with place := .heap, storage := storage }, 0) ∧
      buffer.storage.length + growth ≤ storage.length ∧
      FlexibleHolds bytes { buffer with place := .heap, storage := storage } := by
  have larger := bufferGetNewAllocationLength_ge env holds.toBufferHolds growth
  obtain ⟨storage, allocated, length, content⟩ := bufferRealloc_take fresh holds.toBufferHolds
    (bufferGetNewAllocationLength env buffer growth) (by omega)
  have fits := holds.fits
  refine ⟨storage, ?_, by omega, ⟨holds.ordinary, ?_, ?_, content⟩, holds.flexible⟩
  · rw [bufferGrow, holds.ordinary, bufferIsInflexible, holds.flexible]
    simp only [ne_eq, not_true_eq_false, decide_false, Bool.false_eq_true, if_false, allocated,
      Option.bind_eq_bind, Option.bind_some]
    rw [if_neg (by omega)]
  · dsimp only
    omega
  · exact fun null => by cases null

theorem FlexibleHolds.guarantee (holds : FlexibleHolds bytes buffer) (length : Nat) :
    ∃ next reserved, bufferGuarantee env fresh buffer length = some (next, reserved) ∧
      FlexibleHolds bytes next ∧
      next.curr + length ≤ next.storage.length ∧
      (reserved = some next.curr ∨ reserved = none ∧ length = 0) := by
  have fits := holds.fits
  have curr : ∀ next : MulleBuffer, next.place ≠ .null → bufferCurr next = some next.curr :=
    fun next notNull => if_neg notNull
  rw [bufferGuarantee, holds.ordinary]
  by_cases missing : bufferMissing buffer length > 0
  · obtain ⟨storage, grown, larger, nextHolds⟩ :=
      holds.grow env fresh (bufferMissing buffer length).toNat
    have enough : buffer.curr + length ≤ storage.length := by
      rw [bufferMissing] at missing larger
      split at missing
      · rename_i null
        rw [if_pos null, holds.null null] at larger
        have zero := holds.curr_null null
        simp only [List.length_nil, Int.toNat_natCast] at larger
        omega
      · rename_i notNull
        rw [if_neg notNull] at larger
        omega
    refine ⟨_, some buffer.curr, ?_, nextHolds, enough, .inl rfl⟩
    rw [if_neg Bool.false_ne_true, if_pos missing, grown]
    rfl
  · refine ⟨buffer, bufferCurr buffer, ?_, holds, ?_, ?_⟩
    · rw [if_neg Bool.false_ne_true, if_neg missing]
    · rw [bufferMissing] at missing
      split at missing
      · rename_i null
        have zero := holds.curr_null null
        omega
      · omega
    · by_cases null : buffer.place = .null
      · right
        rw [bufferMissing, if_pos null] at missing
        exact ⟨if_pos null, by omega⟩
      · exact .inl (curr buffer null)

theorem FlexibleHolds.advance (holds : FlexibleHolds bytes buffer) (length : Nat) :
    ∃ next reserved stale, bufferAdvance env fresh buffer length = some (next, reserved) ∧
      stale.length = length ∧
      FlexibleHolds (bytes ++ stale) next ∧
      (reserved = some bytes.length ∨ reserved = none ∧ length = 0) := by
  obtain ⟨next, reserved, guaranteed, nextHolds, room, space⟩ := holds.guarantee env fresh length
  have curr := nextHolds.curr_eq
  rw [bufferAdvance, guaranteed]
  rcases space with rfl | ⟨rfl, rfl⟩
  · refine ⟨{ next with curr := next.curr + length }, some next.curr,
      (next.storage.drop next.curr).take length, rfl, ?_,
      ⟨⟨nextHolds.ordinary, room, nextHolds.null, ?_⟩, nextHolds.flexible⟩, .inl (by rw [curr])⟩
    · rw [List.length_take, List.length_drop]
      omega
    · rw [List.take_add, nextHolds.content]
  · exact ⟨next, none, [], rfl, rfl, by rwa [List.append_nil], .inr ⟨rfl, rfl⟩⟩

theorem FlexibleHolds.fillSpace {stale : List UInt8} (holds : FlexibleHolds (bytes ++ stale) buffer)
    (more : List UInt8) (inside : more.length ≤ stale.length) :
    ∃ next, bufferFill buffer bytes.length more = some next ∧
      FlexibleHolds (bytes ++ more ++ stale.drop more.length) next := by
  have fits := holds.fits
  have curr := holds.curr_eq
  have parts : buffer.storage = bytes ++ stale ++ buffer.storage.drop buffer.curr := by
    rw [← holds.content, List.take_append_drop]
  have filled := blockPaste_append bytes stale (buffer.storage.drop buffer.curr) inside
  rw [← parts] at filled
  rw [bufferFill, filled]
  have sizes : (bytes ++ more ++ stale.drop more.length).length = buffer.curr := by
    rw [curr]
    simp only [List.length_append, List.length_drop]
    omega
  refine ⟨_, rfl, ⟨holds.ordinary, ?_, ?_, ?_⟩, holds.flexible⟩
  · dsimp only
    rw [List.length_append, sizes]
    omega
  · intro null
    have empty := holds.null null
    have zero := holds.curr_null null
    rw [zero, List.length_eq_zero_iff] at sizes
    dsimp only
    rw [sizes, empty, List.drop_nil, List.append_nil]
  · dsimp only
    rw [← sizes, List.take_left]

theorem FlexibleHolds.addByte (holds : FlexibleHolds bytes buffer) (c : UInt8) :
    ∃ next, bufferAddByte env fresh buffer c = some next ∧ FlexibleHolds (bytes ++ [c]) next := by
  have fits := holds.fits
  rw [bufferAddByte]
  split
  · rename_i full
    obtain ⟨storage, grown, larger, nextHolds⟩ := holds.grow env fresh 1
    obtain ⟨put, putHolds⟩ := nextHolds.put (by dsimp only; omega) c
    exact ⟨_, by rw [grown]; exact put, putHolds, holds.flexible⟩
  · rename_i room
    rw [holds.isFull_eq] at room
    obtain ⟨put, putHolds⟩ := holds.put (by omega) c
    exact ⟨_, put, putHolds, holds.flexible⟩

theorem FlexibleHolds.shorten (holds : FlexibleHolds bytes buffer) (count : Nat)
    (fewer : count ≤ bytes.length) :
    FlexibleHolds (bytes.take count) { buffer with curr := count } := by
  have fits := holds.fits
  have curr := holds.curr_eq
  refine ⟨⟨holds.ordinary, ?_, holds.null, ?_⟩, holds.flexible⟩
  · dsimp only
    omega
  · rw [← holds.content, List.take_take, Nat.min_eq_left (by omega)]

theorem flexibleSink (limit : Nat) : BufferSink env limit FlexibleHolds where
  addByte fresh c holds := holds.addByte env fresh c
  advance {all buffer} fresh length holds := by
    obtain ⟨next, reserved, stale, advanced, staleLength, nextHolds, space⟩ :=
      holds.advance env fresh length
    refine ⟨next, reserved, advanced, ?_, ?_⟩
    · rintro rfl
      have empty : length = 0 := space.elim (fun some_ => by cases some_) And.right
      rw [List.length_eq_zero_iff.mp (staleLength.trans empty), List.append_nil] at nextHolds
      exact ⟨nextHolds, .inl empty⟩
    · rintro position rfl
      obtain rfl : position = all.length :=
        space.elim (fun same => Option.some.inj same) fun none_ => by cases none_.1
      intro text inside
      obtain ⟨last, filled, lastHolds⟩ := nextHolds.fillSpace text (by omega)
      have curr := lastHolds.curr_eq
      have short := lastHolds.shorten (all ++ text).length (by simp only [List.length_append]; omega)
      rw [List.take_left, List.length_append] at short
      refine ⟨last, filled, ?_, short⟩
      rw [curr]
      simp only [List.length_append, List.length_drop]
      omega
  lost holds overflown := absurd overflown holds.not_overflown

section

variable (holds : FlexibleHolds bytes buffer)
include holds

theorem FlexibleHolds.sizeToFit :
    FlexibleHolds bytes (bufferSizeToFit fresh buffer) := by
  have fits := holds.fits
  have curr := holds.curr_eq
  have notInflexible : bufferIsInflexible buffer = false := by
    rw [bufferIsInflexible, holds.flexible]
    rfl
  rw [bufferSizeToFit, notInflexible, if_neg Bool.false_ne_true, holds.length_eq]
  split
  · exact holds
  · rename_i onHeap
    split
    · rename_i empty
      rw [List.length_eq_zero_iff] at empty
      subst empty
      exact ⟨⟨holds.ordinary, le_rfl, fun _ => rfl, rfl⟩, holds.flexible⟩
    · refine ⟨⟨holds.ordinary, ?_, ?_, ?_⟩, holds.flexible⟩
      · exact (blockResize_length _ _ _).ge
      · exact fun null => absurd (by rw [null]; decide) onHeap
      · dsimp only
        rw [blockResize_take _ _ (by omega) le_rfl, ← curr, holds.content]

theorem FlexibleHolds.setLength (length options : Nat) :
    ∃ next after, bufferSetLength env fresh buffer length options = some (next, 0) ∧
      FlexibleHolds after next ∧
      (length ≤ bytes.length → after = bytes.take length) ∧
      (bytes.length < length → ∃ stale, stale.length = length - bytes.length ∧
        after = bytes ++ stale ∧
        (options &&& 2 = 0 → stale = List.replicate (length - bytes.length) 0)) := by
  have curr := holds.curr_eq
  simp only [bufferSetLength, holds.length_eq]
  split
  · rename_i shrinks
    rw [if_neg holds.not_overflown]
    split
    · rename_i same
      exact ⟨buffer, bytes, rfl, holds, fun _ => by rw [same, List.take_length],
        fun grows => by omega⟩
    · have position : buffer.curr - (bytes.length - length) = length := by omega
      have shorter := holds.shorten length shrinks
      rw [position]
      refine ⟨_, bytes.take length, rfl, ?_, fun _ => rfl, fun grows => by omega⟩
      split
      · exact shorter.sizeToFit fresh
      · exact shorter
  · rename_i grows
    obtain ⟨between, reserved, stale, advanced, staleLength, betweenHolds, space⟩ :=
      holds.advance env fresh (length - bytes.length)
    have some_ : reserved = some bytes.length := space.resolve_right fun nothing => by omega
    subst some_
    rw [advanced]
    dsimp only [Option.bind_eq_bind, Option.bind_some]
    by_cases zeroes : options &&& 2 = 0
    · obtain ⟨last, filled, lastHolds⟩ :=
        betweenHolds.fillSpace (List.replicate (length - bytes.length) 0)
          (by rw [List.length_replicate]; omega)
      rw [if_pos zeroes, filled]
      rw [List.length_replicate, ← staleLength, List.drop_length, List.append_nil] at lastHolds
      refine ⟨last, _, rfl, lastHolds, fun shrinks => by omega,
        fun _ => ⟨_, ?_, rfl, fun _ => by rw [staleLength]⟩⟩
      rw [List.length_replicate, staleLength]
    · rw [if_neg zeroes]
      exact ⟨between, _, rfl, betweenHolds, fun shrinks => by omega,
        fun _ => ⟨stale, staleLength, rfl, fun zero => absurd zero zeroes⟩⟩

theorem FlexibleHolds.removeLastByte :
    FlexibleHolds bytes.dropLast (bufferRemoveLastByte buffer) := by
  have curr := holds.curr_eq
  rw [bufferRemoveLastByte, if_neg holds.not_overflown, bufferIsEmpty, List.dropLast_eq_take, curr]
  split
  · rename_i empty
    rw [decide_eq_true_eq, List.length_eq_zero_iff] at empty
    subst empty
    exact holds
  · exact holds.shorten _ (Nat.sub_le _ _)

theorem FlexibleHolds.popByte :
    bufferPopByte buffer = some (bufferRemoveLastByte buffer,
      bytes.getLast?.elim (-1) fun byte => (byte.toNat : Int)) := by
  have last := holds.lastByte
  have curr := holds.curr_eq
  rw [bufferGetLastByte, holds.length_eq] at last
  rw [bufferPopByte, bufferRemoveLastByte, if_neg holds.not_overflown, if_neg holds.not_overflown,
    bufferIsEmpty, curr]
  split
  · rename_i empty
    rw [decide_eq_true_eq] at empty
    rw [if_pos empty, Option.some_inj] at last
    rw [← last]
  · rename_i nonempty
    rw [decide_eq_true_eq] at nonempty
    rw [if_neg nonempty] at last
    obtain ⟨byte, found, value⟩ := Option.map_eq_some_iff.mp last
    rw [found, ← value]
    rfl

theorem FlexibleHolds.removeAll : FlexibleHolds [] (bufferRemoveAll buffer) := by
  rw [bufferRemoveAll, if_neg holds.not_overflown]
  exact holds.shorten 0 (Nat.zero_le _)

end

def bytesRemoveInRange (bytes : List UInt8) (range : Range) : List UInt8 :=
  let range := rangeValidateAgainstLength range (UInt64.ofNat bytes.length)
  bytes.take range.start ++ bytes.drop range.stop

theorem FlexibleHolds.removeInRange (holds : FlexibleHolds bytes buffer) (range : Range) :
    ∃ next, bufferRemoveInRange buffer range = some next ∧
      FlexibleHolds (bytesRemoveInRange bytes range) next := by
  have fits := holds.fits
  have curr := holds.curr_eq
  have inside := rangeValidateAgainstLength_inside range (UInt64.ofNat bytes.length)
  simp only [bufferRemoveInRange, bytesRemoveInRange, holds.length_eq]
  generalize rangeValidateAgainstLength range (UInt64.ofNat bytes.length) = range at inside ⊢
  by_cases empty : range.length = 0
  · rw [if_pos empty]
    refine ⟨buffer, rfl, ?_⟩
    rw [Range.start, Range.stop, empty]
    exact (List.take_append_drop _ bytes).symm ▸ holds
  · rw [if_neg empty]
    have small : range.stop ≤ bytes.length := (inside empty).trans (Nat.mod_le _ _)
    rw [Range.stop] at small
    rw [Range.stop, Range.start]
    generalize range.location.toNat = location at small ⊢
    generalize range.length.toNat = count at small ⊢
    rw [bufferMoveDown]
    by_cases last : location + count = buffer.curr
    · rw [if_pos last]
      refine ⟨_, rfl, ?_⟩
      rw [show buffer.curr - count = location from by omega, List.drop_eq_nil_of_le (by omega),
        List.append_nil]
      exact holds.shorten _ (by omega)
    · obtain ⟨moved, moves, movedLength, content⟩ := blockMove_take buffer.storage
        (buffer.curr - (location + count)) (Nat.le_add_right location count) (by omega)
      rw [if_neg last, if_pos (by omega), moves]
      refine ⟨_, rfl, ⟨⟨holds.ordinary, ?_, ?_, ?_⟩, holds.flexible⟩⟩
      · dsimp only
        omega
      · intro null
        rw [holds.null null] at movedLength
        exact List.length_eq_zero_iff.mp movedLength
      · dsimp only
        rw [show buffer.curr - count = location + (buffer.curr - (location + count)) from by omega,
          content,
          show location + count + (buffer.curr - (location + count)) = buffer.curr from by
            omega, holds.content]
        congr 1
        rw [← holds.content, List.take_take, Nat.min_eq_left (by omega)]

def bytesTerminated (bytes : List UInt8) : List UInt8 :=
  if bytes.getLast? = some 0 then bytes else bytes ++ [0]

theorem FlexibleHolds.makeString (holds : FlexibleHolds bytes buffer) :
    ∃ next, bufferMakeString env fresh buffer = some (next, 0) ∧
      FlexibleHolds (bytesTerminated bytes) next := by
  have notInflexible : bufferIsInflexible buffer = false := by
    rw [bufferIsInflexible, holds.flexible]
    rfl
  obtain ⟨next, added, nextHolds⟩ := holds.addByte env fresh 0
  rw [bufferMakeString, holds.lastByte, bytesTerminated]
  by_cases terminated : bytes.getLast? = some 0
  · rw [if_pos terminated, terminated]
    exact ⟨buffer, rfl, holds⟩
  · rw [if_neg terminated]
    have notZero : ¬ (bytes.getLast?.elim (-1) fun byte => (byte.toNat : Int)) = 0 := by
      cases last : bytes.getLast? with
      | none => decide
      | some byte =>
        intro zero
        refine terminated (last.trans (congrArg some (UInt8.toNat_inj.mp ?_)))
        exact Int.ofNat_inj.mp zero
    refine ⟨next, ?_, nextHolds⟩
    simp only [Option.bind_eq_bind, Option.bind_some, if_neg notZero, notInflexible,
      Bool.false_eq_true, false_and, if_false, added]

theorem FlexibleHolds.extractData (holds : FlexibleHolds bytes buffer) :
    ∃ next, bufferExtractData buffer = some (next, bytes) ∧ FlexibleHolds [] next := by
  have curr := holds.curr_eq
  rw [bufferExtractData, holds.length_eq, ← curr, blockRead_front holds.fits, holds.content]
  dsimp only [Option.bind_eq_bind, Option.bind_some]
  split
  · exact ⟨_, rfl, holds.shorten 0 (Nat.zero_le _)⟩
  · exact ⟨_, rfl, ⟨holds.ordinary, le_rfl, fun _ => rfl, rfl⟩, holds.flexible⟩

theorem FlexibleHolds.extractString (holds : FlexibleHolds bytes buffer) :
    ∃ next, bufferExtractString env fresh buffer = some (next, bytesTerminated bytes) ∧
      FlexibleHolds [] next := by
  obtain ⟨between, made, betweenHolds⟩ := holds.makeString env fresh
  obtain ⟨next, extracted, nextHolds⟩ := (betweenHolds.sizeToFit fresh).extractData
  exact ⟨next, by rw [bufferExtractString, made]; exact extracted, nextHolds⟩

def bufferWriteSpace (buffer : MulleBuffer) (space : Option Nat) (written : List UInt8) :
    Option MulleBuffer :=
  match space with
  | none => some buffer
  | some space => bufferFill buffer space written

theorem FlexibleHolds.advanceWritten (holds : FlexibleHolds bytes buffer) (written : List UInt8)
    (rest : Nat) :
    ∃ between space next stale, bufferAdvance env fresh buffer (written.length + rest) =
      some (between, space) ∧
      bufferWriteSpace between space written = some next ∧ stale.length = rest ∧
      FlexibleHolds (bytes ++ written ++ stale) next := by
  obtain ⟨between, reserved, stale, advanced, length, betweenHolds, space⟩ :=
    holds.advance env fresh (written.length + rest)
  rcases space with rfl | ⟨rfl, nothing⟩
  · obtain ⟨last, filled, lastHolds⟩ := betweenHolds.fillSpace written (by omega)
    refine ⟨between, _, last, stale.drop written.length, advanced, filled, ?_, lastHolds⟩
    rw [List.length_drop]
    omega
  · have noBytes : written = [] := List.length_eq_zero_iff.mp (by omega)
    have noStale : stale = [] := List.length_eq_zero_iff.mp (by omega)
    subst noBytes noStale
    refine ⟨between, none, between, [], advanced, rfl, ?_, by simpa using betweenHolds⟩
    rw [List.length_nil]
    omega

theorem FlexibleHolds.guaranteeWritten (holds : FlexibleHolds bytes buffer) (written : List UInt8)
    (rest : Nat) :
    ∃ between space next, bufferGuarantee env fresh buffer (written.length + rest) =
      some (between, space) ∧
      bufferWriteSpace between space written = some next ∧ FlexibleHolds bytes next := by
  obtain ⟨between, reserved, guaranteed, betweenHolds, room, space⟩ :=
    holds.guarantee env fresh (written.length + rest)
  rcases space with rfl | ⟨rfl, _⟩
  · have roomWritten : between.curr + written.length ≤ between.storage.length := by omega
    obtain ⟨pasted, result, length, content⟩ := blockPaste_take _ _ _ roomWritten
    refine ⟨between, _, { between with storage := pasted }, guaranteed, ?_,
      ⟨betweenHolds.ordinary, by dsimp only; omega, ?_, ?_⟩, betweenHolds.flexible⟩
    · rw [bufferWriteSpace, bufferFill, result]
      rfl
    · intro null
      rw [betweenHolds.null null] at length
      exact List.length_eq_zero_iff.mp length
    · have front := congrArg (List.take between.curr) content
      rw [List.take_take, Nat.min_eq_left (by omega), betweenHolds.content, betweenHolds.curr_eq,
        List.take_left] at front
      rw [← betweenHolds.curr_eq] at front
      exact front
  · exact ⟨between, none, between, guaranteed, rfl, betweenHolds⟩

end Flexible

/-- Of the space that `guarantee` and `advance` ask for, the caller fills the beginning. -/
inductive BufferOp where
  | addByte (c : UInt8)
  | addBytes (bytes : List UInt8)
  | addString (bytes : List UInt8)
  | addStringWithMaxlength (address : UInt64) (bytes : List UInt8) (maxlength : UInt64)
  | memset (c : UInt8) (length : Nat)
  | setLength (length options : Nat)
  | guarantee (written : List UInt8) (rest : Nat)
  | advance (written : List UInt8) (rest : Nat)
  | popByte
  | removeLastByte
  | removeInRange (range : Range)
  | removeAll
  | sizeToFit
  | makeString
  | extractData
  | extractString

inductive BufferAnswer where
  | none
  | value (result : Int)
  | data (bytes : List UInt8)
deriving DecidableEq

section Runs

variable (env : BufferEnv)

/-- An operation comes with what it finds in fresh memory. -/
def bufferStep (buffer : MulleBuffer) (op : BufferOp × (Nat → UInt8)) :
    Option (MulleBuffer × BufferAnswer) :=
  match op with
  | (.addByte c, fresh) => (bufferAddByte env fresh buffer c).map (·, .none)
  | (.addBytes bytes, fresh) => (bufferAddBytes env fresh buffer bytes).map (·, .none)
  | (.addString bytes, fresh) => (bufferAddString env fresh buffer bytes).map (·, .none)
  | (.addStringWithMaxlength address bytes maxlength, fresh) =>
    (bufferAddStringWithMaxlength env fresh buffer address bytes maxlength).map fun (next, added) =>
      (next, .value added)
  | (.memset c length, fresh) => (bufferMemset env fresh buffer c length).map (·, .none)
  | (.setLength length options, fresh) =>
    (bufferSetLength env fresh buffer length options).map fun (next, result) => (next, .value result)
  | (.guarantee written rest, fresh) => do
      let (between, space) ← bufferGuarantee env fresh buffer (written.length + rest)
      let next ← bufferWriteSpace between space written
      some (next, .none)
  | (.advance written rest, fresh) => do
      let (between, space) ← bufferAdvance env fresh buffer (written.length + rest)
      let next ← bufferWriteSpace between space written
      some (next, .none)
  | (.popByte, _) => (bufferPopByte buffer).map fun (next, byte) => (next, .value byte)
  | (.removeLastByte, _) => some (bufferRemoveLastByte buffer, .none)
  | (.removeInRange range, _) => (bufferRemoveInRange buffer range).map (·, .none)
  | (.removeAll, _) => some (bufferRemoveAll buffer, .none)
  | (.sizeToFit, fresh) => some (bufferSizeToFit fresh buffer, .none)
  | (.makeString, fresh) =>
    (bufferMakeString env fresh buffer).map fun (next, result) => (next, .value result)
  | (.extractData, _) => (bufferExtractData buffer).map fun (next, bytes) => (next, .data bytes)
  | (.extractString, fresh) =>
    (bufferExtractString env fresh buffer).map fun (next, bytes) => (next, .data bytes)

/-- The operation on a list of bytes. Bytes that nobody has written may be anything. -/
def bytesDo (op : BufferOp) (bytes : List UInt8) (answer : BufferAnswer) (after : List UInt8) :
    Prop :=
  match op with
  | .addByte c => after = bytes ++ [c] ∧ answer = .none
  | .addBytes more => after = bytes ++ more ∧ answer = .none
  | .addString more => after = bytes ++ more.takeWhile (· ≠ 0) ∧ answer = .none
  | .addStringWithMaxlength _ more maxlength =>
    after = bytes ++ limitedText more maxlength ∧ answer = .value (limitedText more maxlength).length
  | .memset c length => after = bytes ++ List.replicate length c ∧ answer = .none
  | .setLength length options => answer = .value 0 ∧
      (length ≤ bytes.length → after = bytes.take length) ∧
      (bytes.length < length → ∃ stale, stale.length = length - bytes.length ∧
        after = bytes ++ stale ∧
        (options &&& 2 = 0 → stale = List.replicate (length - bytes.length) 0))
  | .guarantee _ _ => after = bytes ∧ answer = .none
  | .advance written rest =>
    ∃ stale, stale.length = rest ∧ after = bytes ++ written ++ stale ∧ answer = .none
  | .popByte => after = bytes.dropLast ∧
      answer = .value (bytes.getLast?.elim (-1) fun byte => (byte.toNat : Int))
  | .removeLastByte => after = bytes.dropLast ∧ answer = .none
  | .removeInRange range => after = bytesRemoveInRange bytes range ∧ answer = .none
  | .removeAll => after = [] ∧ answer = .none
  | .sizeToFit => after = bytes ∧ answer = .none
  | .makeString => after = bytesTerminated bytes ∧ answer = .value 0
  | .extractData => after = [] ∧ answer = .data bytes
  | .extractString => after = [] ∧ answer = .data (bytesTerminated bytes)

def BufferOp.Reaches (buffer : MulleBuffer) : BufferOp → Prop
  | .addBytes bytes => LengthReaches buffer bytes.length
  | .addStringWithMaxlength address bytes maxlength => StringReaches buffer address bytes maxlength
  | .memset _ length => LengthReaches buffer length
  | .setLength length _ => LengthReaches buffer (length - bufferGetLength buffer)
  | .guarantee written rest => LengthReaches buffer (written.length + rest)
  | .advance written rest => LengthReaches buffer (written.length + rest)
  | _ => True

/-- Each operation does to the buffer what it does to the list of bytes. -/
theorem bufferStep_refines (bytes : List UInt8) (buffer : MulleBuffer) (op : BufferOp × (Nat → UInt8))
    (holds : FlexibleHolds bytes buffer) (reaches : op.1.Reaches buffer) :
    ∃ next answer after, bufferStep env buffer op = some (next, answer) ∧
      bytesDo op.1 bytes answer after ∧
      FlexibleHolds after next := by
  obtain ⟨op, fresh⟩ := op
  cases op with
  | addByte c =>
    obtain ⟨next, result, nextHolds⟩ := holds.addByte env fresh c
    exact ⟨next, .none, _, by simp [bufferStep, result], ⟨rfl, rfl⟩, nextHolds⟩
  | addBytes more =>
    obtain ⟨next, result, nextHolds⟩ := (flexibleSink env 0).addBytes fresh more holds
    exact ⟨next, .none, _, by simp [bufferStep, result], ⟨rfl, rfl⟩, nextHolds⟩
  | addString more =>
    obtain ⟨next, result, nextHolds⟩ := (flexibleSink env 0).addString fresh more holds
    exact ⟨next, .none, _, by simp [bufferStep, result], ⟨rfl, rfl⟩, nextHolds⟩
  | addStringWithMaxlength address more maxlength =>
    obtain ⟨next, added, nextHolds⟩ :=
      (flexibleSink env 0).addStringWithMaxlength fresh address more maxlength holds
    rw [(reachedText_eq_iff holds.toBufferHolds address more maxlength).mpr reaches] at nextHolds
    rw [nextHolds.length_eq, holds.length_eq, List.length_append, wordSub_eq (Nat.le_add_right _ _),
      Nat.add_sub_cancel_left] at added
    exact ⟨next, _, _, by rw [bufferStep, added]; rfl, ⟨rfl, rfl⟩, nextHolds⟩
  | memset c length =>
    obtain ⟨next, result, nextHolds⟩ := (flexibleSink env 0).memset fresh c length holds
    exact ⟨next, .none, _, by simp [bufferStep, result], ⟨rfl, rfl⟩, nextHolds⟩
  | setLength length options =>
    obtain ⟨next, after, result, nextHolds, shrinks, grows⟩ :=
      holds.setLength env fresh length options
    exact ⟨next, .value 0, after, by simp [bufferStep, result], ⟨rfl, shrinks, grows⟩, nextHolds⟩
  | guarantee written rest =>
    obtain ⟨between, space, next, guaranteed, filled, nextHolds⟩ :=
      holds.guaranteeWritten env fresh written rest
    exact ⟨next, .none, bytes, by simp [bufferStep, guaranteed, filled], ⟨rfl, rfl⟩, nextHolds⟩
  | advance written rest =>
    obtain ⟨between, space, next, stale, advanced, filled, length, nextHolds⟩ :=
      holds.advanceWritten env fresh written rest
    exact ⟨next, .none, _, by simp [bufferStep, advanced, filled], ⟨stale, length, rfl, rfl⟩,
      nextHolds⟩
  | popByte => exact ⟨_, _, _, by simp [bufferStep, holds.popByte], ⟨rfl, rfl⟩, holds.removeLastByte⟩
  | removeLastByte => exact ⟨_, .none, _, rfl, ⟨rfl, rfl⟩, holds.removeLastByte⟩
  | removeInRange range =>
    obtain ⟨next, result, nextHolds⟩ := holds.removeInRange range
    exact ⟨next, .none, _, by simp [bufferStep, result], ⟨rfl, rfl⟩, nextHolds⟩
  | removeAll => exact ⟨_, .none, _, rfl, ⟨rfl, rfl⟩, holds.removeAll⟩
  | sizeToFit => exact ⟨_, .none, _, rfl, ⟨rfl, rfl⟩, holds.sizeToFit fresh⟩
  | makeString =>
    obtain ⟨next, result, nextHolds⟩ := holds.makeString env fresh
    exact ⟨next, .value 0, _, by simp [bufferStep, result], ⟨rfl, rfl⟩, nextHolds⟩
  | extractData =>
    obtain ⟨next, result, nextHolds⟩ := holds.extractData
    exact ⟨next, _, _, by simp [bufferStep, result], ⟨rfl, rfl⟩, nextHolds⟩
  | extractString =>
    obtain ⟨next, result, nextHolds⟩ := holds.extractString env fresh
    exact ⟨next, _, _, by simp [bufferStep, result], ⟨rfl, rfl⟩, nextHolds⟩

inductive FlexibleStart where
  | capacity (capacity : Nat)
  | allocated (storage : List UInt8)
  | static (storage : List UInt8)

def flexibleStart : FlexibleStart → MulleBuffer
  | .capacity capacity => bufferInit capacity
  | .allocated storage => bufferInitWithAllocatedBytes storage
  | .static storage => bufferInitWithStaticBytes storage

theorem flexibleStart_holds (start : FlexibleStart) : FlexibleHolds [] (flexibleStart start) := by
  cases start with
  | capacity capacity => exact ⟨⟨rfl, le_rfl, fun _ => rfl, rfl⟩, rfl⟩
  | allocated storage => exact ⟨⟨rfl, Nat.zero_le _, (fun null => by cases null), rfl⟩, rfl⟩
  | static storage => exact ⟨⟨rfl, Nat.zero_le _, (fun null => by cases null), rfl⟩, rfl⟩

def BufferRunReaches (buffer : MulleBuffer) (ops : List (BufferOp × (Nat → UInt8))) : Prop :=
  PermittedFrom (fun buffer op => (bufferStep env buffer op).map Prod.fst)
    (fun buffer op => op.1.Reaches buffer) buffer ops

/-- A flexible buffer refines a list of bytes in every run, does not overflow, and hands out
exactly these bytes. -/
theorem bufferRun_refines (start : FlexibleStart) (ops : List (BufferOp × (Nat → UInt8)))
    (reaches : BufferRunReaches env (flexibleStart start) ops) :
    ∃ final answers bytes, run (bufferStep env) (flexibleStart start) ops = some (final, answers) ∧
      Library.Answers (fun op => bytesDo op.1) [] ops answers bytes ∧ final.overflown = false ∧
      bufferGetLength final = bytes.length ∧ final.storage.take bytes.length = bytes := by
  obtain ⟨final, answers, bytes, finished, answered, holds⟩ :=
    run_answersFrom (fun op : BufferOp × (Nat → UInt8) => bytesDo op.1) FlexibleHolds
      (bufferStep_refines env) ops [] (flexibleStart start) (flexibleStart_holds start) reaches
  refine ⟨final, answers, bytes, finished, answered, holds.ordinary, holds.length_eq, ?_⟩
  rw [← holds.curr_eq, holds.content]

end Runs

theorem bufferRun_refines_string :
    ∃ final answers bytes, run (bufferStep ⟨64, fun _ _ => 0⟩) (bufferInit 0)
        [(.addStringWithMaxlength 0x1000 [0x61, 0x62, 0] 8, fun _ => 0),
          (.memset 0x20 3, fun _ => 0)] =
          some (final, answers) ∧
      bufferGetLength final = bytes.length ∧ final.storage.take bytes.length = bytes := by
  obtain ⟨final, answers, bytes, finished, _, _, length, content⟩ :=
    bufferRun_refines ⟨64, fun _ _ => 0⟩ (.capacity 0)
      [(.addStringWithMaxlength 0x1000 [0x61, 0x62, 0] 8, fun _ => 0), (.memset 0x20 3, fun _ => 0)]
        (by
      refine ⟨.inr (.inl (by decide)), ?_⟩
      rintro next ⟨⟩
      exact ⟨.inr (by decide), fun _ _ => trivial⟩)
  exact ⟨final, answers, bytes, finished, length, content⟩

/-- A limit of `(size_t) -1` puts the end of the string before its beginning, so that nothing is
added to a buffer without a storage. -/
theorem bufferRun_not_refines :
    ¬ ∀ (env : BufferEnv) (start : FlexibleStart) (ops : List (BufferOp × (Nat → UInt8))),
      ∃ final answers bytes, run (bufferStep env) (flexibleStart start) ops = some (final, answers) ∧
        Library.Answers (fun op => bytesDo op.1) [] ops answers bytes ∧
        bufferGetLength final = bytes.length := by
  intro refines
  obtain ⟨final, answers, bytes, finished, answered, length⟩ :=
    refines ⟨64, fun _ _ => 0⟩ (.capacity 0)
    [(.addStringWithMaxlength 0x1000 [0x61, 0x62, 0x63, 0] 0xFFFFFFFFFFFFFFFF, fun _ => 0)]
  have reached : run (bufferStep ⟨64, fun _ _ => 0⟩) (flexibleStart (.capacity 0))
      [(.addStringWithMaxlength 0x1000 [0x61, 0x62, 0x63, 0] 0xFFFFFFFFFFFFFFFF, fun _ => 0)] =
      some (bufferInit 0, [.value 0]) := by rfl
  rw [reached] at finished
  cases finished
  cases answered with
  | step did rest =>
    have counted := did.2
    revert counted
    decide

end MulleCore
