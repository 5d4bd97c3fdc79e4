import MulleCore.Buffer.BufferRefines

/-!
An inflexible buffer keeps the beginning of what is appended, and its overflow is sticky.
-/

namespace MulleCore

open Library

/-- The bytes that an appending operation wants to add. The space of `advance` is filled. -/
def appendedBytes : BufferOp → Option (List UInt8)
  | .addByte c => some [c]
  | .addBytes bytes => some bytes
  | .addString bytes => some (bytes.takeWhile (· ≠ 0))
  | .addStringWithMaxlength _ bytes maxlength => some (limitedText bytes maxlength)
  | .memset c length => some (List.replicate length c)
  | .advance written 0 => some written
  | _ => none

structure InflexibleHolds (count : Nat) (all : List UInt8) (buffer : MulleBuffer) : Prop where
  inflexible : buffer.type = .inflexible
  initial : buffer.place = .initial
  sized : buffer.storage.length = count
  state : BufferHolds all buffer ∨
    buffer.overflown = true ∧ count < all.length ∧ buffer.size ≤ count ∧
      buffer.storage.take buffer.size = all.take buffer.size

section Inflexible

variable (env : BufferEnv) (fresh : Nat → UInt8) {count : Nat} {all : List UInt8}
  {buffer : MulleBuffer}

section

variable (holds : InflexibleHolds count all buffer)
include holds

theorem InflexibleHolds.append_overflown
    (overflown : buffer.overflown = true) (more : List UInt8) :
    InflexibleHolds count (all ++ more) buffer := by
  refine ⟨holds.inflexible, holds.initial, holds.sized, .inr ?_⟩
  rcases holds.state with ordinary | ⟨_, less, inside, content⟩
  · exact absurd overflown ordinary.not_overflown
  · refine ⟨overflown, ?_, inside, ?_⟩
    · rw [List.length_append]
      omega
    · rw [content, List.take_append_of_le_length (by omega)]

theorem InflexibleHolds.overflow (ordinary : BufferHolds all buffer)
    (more : List UInt8) {growth : Nat} (some_ : growth ≠ 0) (less : count < (all ++ more).length) :
    ∃ next, bufferGrow env fresh buffer growth = some (next, -1) ∧ next.overflown = true ∧
      InflexibleHolds count (all ++ more) next := by
  have fits := ordinary.fits
  have curr := ordinary.curr_eq
  refine ⟨{ buffer with size := bufferGetLength buffer, curr := buffer.storage.length, overflown := true }, ?_, rfl,
    holds.inflexible, holds.initial, holds.sized, .inr ⟨rfl, less, ?_, ?_⟩⟩
  · have inflexible : bufferIsInflexible buffer = true := by
      rw [bufferIsInflexible, holds.inflexible]
      rfl
    have notFlushable : bufferIsFlushable buffer = false := by
      rw [bufferIsFlushable, holds.inflexible]
      rfl
    rw [bufferGrow, if_neg ordinary.not_overflown, if_pos inflexible, bufferGrowInflexible,
      if_neg some_, notFlushable, bufferSetOverflown, if_neg ordinary.not_overflown]
    rfl
  · dsimp only
    rw [ordinary.length_eq, ← holds.sized]
    omega
  · dsimp only
    rw [ordinary.length_eq, ← curr, ordinary.content, curr, List.take_left]

theorem InflexibleHolds.addByte (c : UInt8) :
    ∃ next, bufferAddByte env fresh buffer c = some next ∧
      InflexibleHolds count (all ++ [c]) next := by
  rcases holds.state with ordinary | ⟨overflown, _⟩
  · have fits := ordinary.fits
    have curr := ordinary.curr_eq
    have sized := holds.sized
    rw [bufferAddByte]
    split
    · rename_i full
      rw [ordinary.isFull_eq] at full
      obtain ⟨next, grown, _, nextHolds⟩ := holds.overflow env fresh ordinary [c] Nat.one_ne_zero
        (by rw [List.length_append, List.length_singleton]; omega)
      exact ⟨next, by rw [grown]; rfl, nextHolds⟩
    · rename_i room
      rw [ordinary.isFull_eq] at room
      obtain ⟨put, putHolds⟩ := ordinary.put (by omega) c
      exact ⟨_, put, holds.inflexible, holds.initial, by rw [List.length_set, sized], .inl putHolds⟩
  · exact ⟨buffer, bufferAddByte_overflown env fresh overflown c,
      holds.append_overflown overflown [c]⟩

end

theorem InflexibleHolds.addEach (more : List UInt8) :
    ∀ {all : List UInt8} {buffer : MulleBuffer}, InflexibleHolds count all buffer →
      ∃ next, bufferAddEach env fresh buffer more = some next ∧
        InflexibleHolds count (all ++ more) next := by
  induction more with
  | nil => exact fun {all buffer} holds => ⟨buffer, rfl, by rwa [List.append_nil]⟩
  | cons c more ih =>
    intro all buffer holds
    obtain ⟨next, added, nextHolds⟩ := holds.addByte env fresh c
    obtain ⟨last, finished, lastHolds⟩ := ih nextHolds
    refine ⟨last, ?_, by rwa [List.append_assoc] at lastHolds⟩
    rw [bufferAddEach, List.foldlM_cons, added]
    exact finished

section

variable (holds : InflexibleHolds count all buffer)
include holds

theorem InflexibleHolds.advance (more : List UInt8) :
    ∃ between space, bufferAdvance env fresh buffer more.length = some (between, space) ∧
      match space with
      | none => between.overflown = true ∧ InflexibleHolds count (all ++ more) between
      | some space =>
        ∃ next, bufferFill between space more = some next ∧
          InflexibleHolds count (all ++ more) next := by
  have notNull : buffer.place ≠ .null := by
    rw [holds.initial]
    decide
  rcases holds.state with ordinary | ⟨overflown, _⟩
  · have fits := ordinary.fits
    have curr := ordinary.curr_eq
    have sized := holds.sized
    rw [bufferAdvance, bufferGuarantee, if_neg ordinary.not_overflown]
    by_cases missing : bufferMissing buffer more.length > 0
    · have less : count < (all ++ more).length := by
        rw [bufferMissing, if_neg notNull] at missing
        rw [List.length_append]
        omega
      have growth : (bufferMissing buffer more.length).toNat ≠ 0 := by omega
      obtain ⟨next, grown, overflown, nextHolds⟩ := holds.overflow env fresh ordinary more growth less
      refine ⟨next, none, ?_, overflown, nextHolds⟩
      rw [if_pos missing, grown]
      rfl
    · have room : buffer.curr + more.length ≤ buffer.storage.length := by
        rw [bufferMissing, if_neg notNull] at missing
        omega
      obtain ⟨storage, filled, length, nextHolds⟩ := ordinary.fill room
      refine ⟨{ buffer with curr := buffer.curr + more.length }, some buffer.curr, ?_, _, filled,
        holds.inflexible, holds.initial, by rw [length, sized], .inl nextHolds⟩
      rw [if_neg missing, bufferCurr, if_neg notNull]
      rfl
  · refine ⟨buffer, none, ?_, overflown, holds.append_overflown overflown more⟩
    rw [bufferAdvance, bufferGuarantee, if_pos overflown]
    rfl

theorem InflexibleHolds.append {op : BufferOp} {more : List UInt8}
    (appends : appendedBytes op = some more) (reaches : op.Reaches buffer) :
    ∃ next answer, bufferStep env buffer (op, fresh) = some (next, answer) ∧
      InflexibleHolds count (all ++ more) next := by
  cases op with
  | addByte c =>
    obtain rfl := Option.some.inj appends
    obtain ⟨next, result, nextHolds⟩ := holds.addByte env fresh c
    exact ⟨next, .none, by simp [bufferStep, result], nextHolds⟩
  | addBytes bytes =>
    obtain rfl := Option.some.inj appends
    by_cases empty : bytes.length = 0
    · refine ⟨buffer, .none, by simp [bufferStep, bufferAddBytes, empty], ?_⟩
      rwa [List.length_eq_zero_iff.mp empty, List.append_nil]
    · obtain ⟨between, space, advanced, rest⟩ := holds.advance env fresh bytes
      cases space with
      | none =>
        refine ⟨between, .none, ?_, rest.2⟩
        simp [bufferStep, bufferAddBytes, empty, advanced, bufferAddEach_overflown env fresh rest.1]
      | some space =>
        obtain ⟨next, filled, nextHolds⟩ := rest
        exact ⟨next, .none, by simp [bufferStep, bufferAddBytes, empty, advanced, filled], nextHolds⟩
  | addString bytes =>
    obtain rfl := Option.some.inj appends
    obtain ⟨next, result, nextHolds⟩ := holds.addEach env fresh (bytes.takeWhile (· ≠ 0))
    rw [← bufferAddString_eq] at result
    exact ⟨next, .none, by simp [bufferStep, result], nextHolds⟩
  | addStringWithMaxlength address bytes maxlength =>
    obtain rfl := Option.some.inj appends
    have added := bufferAddStringWithMaxlength_eq env fresh buffer address bytes maxlength
    rcases holds.state with ordinary | ⟨overflown, _⟩
    · obtain ⟨next, result, nextHolds⟩ := holds.addEach env fresh (limitedText bytes maxlength)
      rw [(reachedText_eq_iff ordinary address bytes maxlength).mpr reaches, result] at added
      exact ⟨next, _, by rw [bufferStep, added]; rfl, nextHolds⟩
    · rw [bufferAddEach_overflown env fresh overflown] at added
      exact ⟨buffer, _, by rw [bufferStep, added]; rfl, holds.append_overflown overflown _⟩
  | memset c length =>
    obtain rfl := Option.some.inj appends
    obtain ⟨between, space, advanced, rest⟩ := holds.advance env fresh (List.replicate length c)
    rw [List.length_replicate] at advanced
    cases space with
    | none =>
      refine ⟨between, .none, ?_, rest.2⟩
      simp [bufferStep, bufferMemset, advanced, bufferAddEach_overflown env fresh rest.1]
    | some space =>
      obtain ⟨next, filled, nextHolds⟩ := rest
      exact ⟨next, .none, by simp [bufferStep, bufferMemset, advanced, filled], nextHolds⟩
  | advance written rest =>
    cases rest with
    | succ rest => cases appends
    | zero =>
      obtain rfl := Option.some.inj appends
      obtain ⟨between, space, advanced, rest⟩ := holds.advance env fresh written
      cases space with
      | none => exact ⟨between, .none, by simp [bufferStep, advanced, bufferWriteSpace], rest.2⟩
      | some space =>
        obtain ⟨next, filled, nextHolds⟩ := rest
        exact ⟨next, .none, by simp [bufferStep, advanced, bufferWriteSpace, filled], nextHolds⟩
  | setLength | guarantee | popByte | removeLastByte | removeInRange | removeAll | sizeToFit
  | makeString | extractData | extractString => cases appends

theorem InflexibleHolds.kept :
    bufferGetLength buffer ≤ count ∧ bufferGetLength buffer ≤ all.length ∧
      buffer.storage.take (bufferGetLength buffer) = all.take (bufferGetLength buffer) := by
  have sized := holds.sized
  rcases holds.state with ordinary | ⟨overflown, less, inside, content⟩
  · have fits := ordinary.fits
    have curr := ordinary.curr_eq
    rw [ordinary.length_eq, List.take_length]
    refine ⟨by omega, le_rfl, ?_⟩
    rw [← curr, ordinary.content]
  · rw [bufferGetLength, if_pos overflown]
    exact ⟨inside, by omega, content⟩

theorem InflexibleHolds.overflown_iff :
    buffer.overflown = true ↔ count < all.length := by
  have sized := holds.sized
  rcases holds.state with ordinary | ⟨overflown, less, _⟩
  · have fits := ordinary.fits
    have curr := ordinary.curr_eq
    exact iff_of_false ordinary.not_overflown (by omega)
  · exact iff_of_true overflown less

end

def TerminatedIn (count : Nat) (all : List UInt8) (buffer : MulleBuffer) : Prop :=
  ∃ text : List UInt8, text <+: all ∧ text.length < count ∧ buffer.storage.length = count ∧
    buffer.storage.take (text.length + 1) = text ++ [0]

theorem terminatedIn_write {length : Nat} (sized : buffer.storage.length = count)
    (inside : length < count) (enough : length ≤ all.length)
    (content : buffer.storage.take length = all.take length) :
    blockWrite buffer.storage length 0 = some (buffer.storage.set length 0) ∧
      ∀ next : MulleBuffer, next.storage = buffer.storage.set length 0 →
        TerminatedIn count all next := by
  have bound : length < buffer.storage.length := by omega
  obtain ⟨written, taken⟩ := blockWrite_take bound 0
  refine ⟨written, fun next same => ⟨all.take length, List.take_prefix _ _, ?_, ?_, ?_⟩⟩
  · rw [List.length_take]
    omega
  · rw [same, List.length_set, sized]
  · rw [List.length_take, Nat.min_eq_left enough, same, taken, content]

theorem InflexibleHolds.makeString (holds : InflexibleHolds count all buffer) (room : 0 < count) :
    ∃ next result, bufferMakeString env fresh buffer = some (next, result) ∧
      TerminatedIn count all next := by
  have sized := holds.sized
  obtain ⟨inside, enough, content⟩ := holds.kept
  have inflexible : bufferIsInflexible buffer = true := by
    rw [bufferIsInflexible, holds.inflexible]
    rfl
  have notVoid : bufferIsVoid buffer = false := by
    rw [bufferIsVoid, sized]
    exact decide_eq_false room.ne'
  have notNull : buffer.place ≠ .null := by
    rw [holds.initial]
    decide
  have position : bufferZeroPosition buffer = bufferGetLength buffer := rfl
  obtain ⟨c, lastByte, zeroLast⟩ : ∃ c, bufferGetLastByte buffer = some c ∧
      (c = 0 → 0 < bufferGetLength buffer ∧ buffer.storage[bufferGetLength buffer - 1]? =
        some 0) := by
    rw [bufferGetLastByte]
    split
    · exact ⟨-1, rfl, fun zero => by cases zero⟩
    · rename_i nonempty
      have bound : bufferGetLength buffer - 1 < buffer.storage.length := by omega
      rw [List.getElem?_eq_getElem bound]
      refine ⟨_, rfl, fun zero => ⟨by omega,
        congrArg some (UInt8.toNat_inj.mp (Int.ofNat_inj.mp zero))⟩⟩
  rw [bufferMakeString, lastByte]
  simp only [Option.bind_eq_bind, Option.bind_some, inflexible, notVoid, Bool.false_eq_true,
    and_false, if_false, true_and]
  by_cases terminated : c = 0
  · obtain ⟨some_, last⟩ := zeroLast terminated
    rw [if_pos terminated]
    refine ⟨buffer, 0, rfl, all.take (bufferGetLength buffer - 1), List.take_prefix _ _,
      ?_, sized, ?_⟩
    · rw [List.length_take]
      omega
    · rw [List.length_take, Nat.min_eq_left (by omega), List.take_add_one, last]
      have front := congrArg (List.take (bufferGetLength buffer - 1)) content
      rw [List.take_take, List.take_take, Nat.min_eq_left (by omega)] at front
      rw [front]
      rfl
  · rw [if_neg terminated]
    split
    · rw [bufferZeroLastByte, notVoid, position]
      dsimp only
      rw [if_neg Bool.false_ne_true]
      split
      · rename_i atEnd
        have front := congrArg (List.take (count - 1)) content
        rw [List.take_take, List.take_take, Nat.min_eq_left (by omega)] at front
        obtain ⟨written, terminates⟩ := terminatedIn_write sized (by omega : count - 1 < count)
          (by omega) front
        rw [atEnd, sized, written]
        exact ⟨_, 1, rfl, terminates _ rfl⟩
      · obtain ⟨written, terminates⟩ := terminatedIn_write sized (by omega) enough content
        rw [written]
        exact ⟨_, 0, rfl, terminates _ rfl⟩
    · rename_i notFull
      have room := Bool.eq_false_iff.mpr notFull
      have ordinary : buffer.overflown = false := by
        rw [bufferIsFull] at room
        simpa using (Bool.or_eq_false_iff.mp (Bool.or_eq_false_iff.mp room).1).1
      have atCurr : bufferGetLength buffer = buffer.curr := by
        rw [bufferGetLength, ordinary]
        rfl
      have below : buffer.curr < count := by
        rw [bufferIsFull] at room
        have notBehind := of_decide_eq_false (Bool.or_eq_false_iff.mp room).2
        omega
      rw [atCurr] at enough content
      obtain ⟨written, terminates⟩ := terminatedIn_write sized below enough content
      rw [bufferAddByte_room env fresh room, bufferPut, if_neg notNull, written]
      exact ⟨_, 0, rfl, terminates _ rfl⟩

end Inflexible

section Runs

variable (env : BufferEnv)
variable {count : Nat} {buffer : MulleBuffer}

def appendedAll (ops : List (BufferOp × (Nat → UInt8))) : List UInt8 :=
  ops.flatMap fun op => (appendedBytes op.1).getD []

theorem InflexibleHolds.run (ops : List (BufferOp × (Nat → UInt8))) :
    ∀ {all : List UInt8} {buffer : MulleBuffer}, InflexibleHolds count all buffer →
      (∀ op ∈ ops, (appendedBytes op.1).isSome) → BufferRunReaches env buffer ops →
      ∃ final answers, Library.run (bufferStep env) buffer ops = some (final, answers) ∧
        InflexibleHolds count (all ++ appendedAll ops) final := by
  induction ops with
  | nil =>
    intro all buffer holds _ _
    exact ⟨buffer, [], rfl, by rwa [appendedAll, List.flatMap_nil, List.append_nil]⟩
  | cons op ops ih =>
    rintro all buffer holds appending ⟨reaches, reachesLater⟩
    obtain ⟨more, appends⟩ := Option.isSome_iff_exists.mp (appending op List.mem_cons_self)
    obtain ⟨next, answer, stepped, nextHolds⟩ := holds.append env op.2 appends reaches
    obtain ⟨final, answers, finished, finalHolds⟩ :=
      ih nextHolds (fun later member => appending later (List.mem_cons_of_mem op member))
        (reachesLater next (by simp [stepped]))
    refine ⟨final, answer :: answers, ?_, ?_⟩
    · simp only [Library.run, stepped, finished, Option.bind_eq_bind, Option.bind_some]
    · rw [appendedAll, List.flatMap_cons, appends]
      rwa [List.append_assoc] at finalHolds

inductive FurtherOp where
  | append (op : BufferOp) (appends : (appendedBytes op).isSome) (fresh : Nat → UInt8)
  | setLength (length options : Nat) (fresh : Nat → UInt8)
  | popByte
  | removeLastByte
  | removeInRange (range : Range)
  | removeAll
  | seekByte (byte : UInt8)

def furtherStep (buffer : MulleBuffer) : FurtherOp → Option MulleBuffer
  | .append op _ fresh => (bufferStep env buffer (op, fresh)).map Prod.fst
  | .setLength length options fresh => (bufferSetLength env fresh buffer length options).map Prod.fst
  | .popByte => (bufferPopByte buffer).map Prod.fst
  | .removeLastByte => some (bufferRemoveLastByte buffer)
  | .removeInRange range => bufferRemoveInRange buffer range
  | .removeAll => some (bufferRemoveAll buffer)
  | .seekByte byte => some (bufferSeekByte buffer byte).1

def RemovesNothing (buffer : MulleBuffer) : FurtherOp → Prop
  | .removeInRange range =>
    (rangeValidateAgainstLength range (UInt64.ofNat (bufferGetLength buffer))).length = 0
  | _ => True

instance (buffer : MulleBuffer) (op : FurtherOp) : Decidable (RemovesNothing buffer op) := by
  cases op <;> unfold RemovesNothing <;> infer_instance

theorem append_overflown (overflown : buffer.overflown = true) (fresh : Nat → UInt8)
    {op : BufferOp} (appends : (appendedBytes op).isSome) :
    (bufferStep env buffer (op, fresh)).map Prod.fst = some buffer := by
  have each := bufferAddEach_overflown env fresh overflown
  have space := bufferAdvance_overflown env fresh overflown
  cases op with
  | addByte c => simp [bufferStep, bufferAddByte_overflown env fresh overflown]
  | addBytes bytes =>
    by_cases empty : bytes = [] <;> simp [bufferStep, bufferAddBytes, empty, space, each]
  | addString bytes => simp [bufferStep, bufferAddString_eq, each]
  | addStringWithMaxlength => simp [bufferStep, bufferAddStringWithMaxlength_eq, each]
  | memset c length => simp [bufferStep, bufferMemset, space, each]
  | advance written rest => simp [bufferStep, space, bufferWriteSpace]
  | setLength | guarantee | popByte | removeLastByte | removeInRange | removeAll | sizeToFit
  | makeString | extractData | extractString => cases appends

theorem furtherStep_overflown (overflown : buffer.overflown = true) {op : FurtherOp}
    (nothing : RemovesNothing buffer op) : furtherStep env buffer op = some buffer := by
  cases op with
  | append op appends fresh => exact append_overflown env overflown fresh appends
  | setLength length options fresh =>
    simp only [furtherStep, bufferSetLength, if_pos overflown,
      bufferAdvance_overflown env fresh overflown]
    split <;> rfl
  | popByte => rw [furtherStep, bufferPopByte, if_pos overflown, Option.map_some]
  | removeLastByte => rw [furtherStep, bufferRemoveLastByte, if_pos overflown]
  | removeInRange range =>
    simp only [furtherStep, bufferRemoveInRange, if_pos (show _ = _ from nothing)]
  | removeAll => rw [furtherStep, bufferRemoveAll, if_pos overflown]
  | seekByte byte => rw [furtherStep, bufferSeekByte, if_pos overflown]

theorem furtherRun_overflown (overflown : buffer.overflown = true) (ops : List FurtherOp)
    (nothing : PermittedFrom (furtherStep env) RemovesNothing buffer ops) :
    ops.foldlM (furtherStep env) buffer = some buffer := by
  induction ops with
  | nil => rfl
  | cons op ops ih =>
    obtain ⟨first, later⟩ := nothing
    have same := furtherStep_overflown env overflown first
    rw [List.foldlM_cons, same]
    exact ih (later buffer same)

/-- The ways to begin with an inflexible buffer. It holds all of `buf`, if it was made
inflexible with that. -/
inductive InflexibleStart where
  | static (storage : List UInt8)
  | made (buffer : MulleBuffer) (buf : List UInt8)

def inflexibleStart : InflexibleStart → MulleBuffer
  | .static storage => bufferInitInflexibleWithStaticBytes storage
  | .made buffer buf => bufferMakeInflexible buffer buf

def InflexibleStart.capacity : InflexibleStart → Nat
  | .static storage => storage.length
  | .made _ buf => buf.length

def InflexibleStart.content : InflexibleStart → List UInt8
  | .static _ => []
  | .made _ buf => buf

theorem inflexibleStart_holds (start : InflexibleStart) :
    InflexibleHolds start.capacity start.content (inflexibleStart start) := by
  cases start with
  | static storage =>
    exact ⟨rfl, rfl, rfl, .inl ⟨rfl, Nat.zero_le _, (fun null => by cases null), rfl⟩⟩
  | made buffer buf =>
    exact ⟨rfl, rfl, rfl, .inl ⟨rfl, le_rfl, (fun null => by cases null), List.take_length⟩⟩

structure InflexibleKeeps (count : Nat) (all : List UInt8) (buffer : MulleBuffer) : Prop where
  sized : buffer.storage.length = count
  inside : bufferGetLength buffer ≤ count
  begins : buffer.storage.take (bufferGetLength buffer) <+: all
  overflows : buffer.overflown = true ↔ count < all.length
  terminates : 0 < count → ∀ fresh, ∃ next result,
    bufferMakeString env fresh buffer = some (next, result) ∧ TerminatedIn count all next

theorem InflexibleHolds.keeps {all : List UInt8}
    (holds : InflexibleHolds count all buffer) : InflexibleKeeps env count all buffer := by
  obtain ⟨inside, _, content⟩ := holds.kept
  refine ⟨holds.sized, inside, ?_, holds.overflown_iff,
    fun room fresh => holds.makeString env fresh room⟩
  rw [content]
  exact List.take_prefix _ _

/-- Nothing is written outside of an inflexible buffer. It keeps the beginning of what is
appended, and has overflown as soon as something did not fit. From then on nothing changes
what it holds, as long as no range is removed. -/
theorem inflexibleRun_sticky (start : InflexibleStart) (ops : List (BufferOp × (Nat → UInt8)))
    (appending : ∀ op ∈ ops, (appendedBytes op.1).isSome)
    (reaches : BufferRunReaches env (inflexibleStart start) ops) :
    ∃ final answers, Library.run (bufferStep env) (inflexibleStart start) ops =
      some (final, answers) ∧
      InflexibleKeeps env start.capacity (start.content ++ appendedAll ops) final ∧
      (final.overflown = true → ∀ later : List FurtherOp,
        PermittedFrom (furtherStep env) RemovesNothing final later →
        ∃ last, later.foldlM (furtherStep env) final = some last ∧
          bufferGetLength last = bufferGetLength final ∧
          last.storage.take (bufferGetLength last) = final.storage.take (bufferGetLength final) ∧
          InflexibleKeeps env start.capacity (start.content ++ appendedAll ops) last) := by
  obtain ⟨final, answers, finished, holds⟩ :=
    (inflexibleStart_holds start).run env ops appending reaches
  refine ⟨final, answers, finished, holds.keeps env, fun overflown later nothing => ?_⟩
  exact ⟨final, furtherRun_overflown env overflown later nothing, rfl, rfl, holds.keeps env⟩

end Runs

theorem inflexibleRun_sticky_pair :
    ∃ final answers last, Library.run (bufferStep ⟨64, fun _ _ => 0⟩)
      (inflexibleStart (.static [0, 0]))
        [(.addBytes [0x61, 0x62], fun _ => 0), (.addByte 0x63, fun _ => 0)] = some (final, answers) ∧
      [FurtherOp.popByte].foldlM (furtherStep ⟨64, fun _ _ => 0⟩) final = some last ∧
      bufferGetLength last = bufferGetLength final ∧
      InflexibleKeeps ⟨64, fun _ _ => 0⟩ 2 [0x61, 0x62, 0x63] last := by
  obtain ⟨final, answers, finished, keeps, later⟩ :=
    inflexibleRun_sticky ⟨64, fun _ _ => 0⟩ (.static [0, 0])
    [(.addBytes [0x61, 0x62], fun _ => 0), (.addByte 0x63, fun _ => 0)] (by simp [appendedBytes])
    ⟨.inr (by decide), fun _ _ => ⟨trivial, fun _ _ => trivial⟩⟩
  have overflown : final.overflown = true := keeps.overflows.mpr (by decide)
  obtain ⟨last, popped, length, _, lastKeeps⟩ :=
    later overflown [.popByte] ⟨trivial, fun _ _ => trivial⟩
  exact ⟨final, answers, last, finished, popped, length, lastKeeps⟩

/-- An overflown buffer that holds `ab` and removes its first byte holds `bb`. -/
theorem inflexibleRun_not_sticky :
    ¬ ∀ (env : BufferEnv) (start : InflexibleStart) (ops : List (BufferOp × (Nat → UInt8))),
      (∀ op ∈ ops, (appendedBytes op.1).isSome) →
      ∃ final answers, Library.run (bufferStep env) (inflexibleStart start) ops =
        some (final, answers) ∧
        (final.overflown = true → ∀ later : List FurtherOp,
          ∃ last, later.foldlM (furtherStep env) final = some last ∧
            bufferGetLength last = bufferGetLength final ∧
            last.storage.take (bufferGetLength last) =
              final.storage.take (bufferGetLength final)) := by
  intro sticky
  obtain ⟨final, answers, finished, later⟩ := sticky ⟨64, fun _ _ => 0⟩ (.static [0, 0])
    [(.addBytes [0x61, 0x62], fun _ => 0), (.addByte 0x63, fun _ => 0)] (by simp [appendedBytes])
  have reached : Library.run (bufferStep ⟨64, fun _ _ => 0⟩) (inflexibleStart (.static [0, 0]))
      [(.addBytes [0x61, 0x62], fun _ => 0), (.addByte 0x63, fun _ => 0)] =
      some (⟨.initial, [0x61, 0x62], 2, 2, .inflexible, true, 0, []⟩, [.none, .none]) := by rfl
  rw [reached] at finished
  cases finished
  obtain ⟨last, removed, _, kept⟩ := later rfl [.removeInRange ⟨0, 1⟩]
  have changed : [FurtherOp.removeInRange ⟨0, 1⟩].foldlM (furtherStep ⟨64, fun _ _ => 0⟩)
      ⟨.initial, [0x61, 0x62], 2, 2, .inflexible, true, 0, []⟩ =
      some ⟨.initial, [0x62, 0x62], 1, 2, .inflexible, true, 0, []⟩ := by rfl
  rw [changed] at removed
  cases removed
  revert kept
  decide

end MulleCore
