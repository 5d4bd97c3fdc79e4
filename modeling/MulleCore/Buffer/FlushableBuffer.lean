import MulleCore.Buffer.BufferRefines
import MulleCore.Buffer.Hexdump

/-!
What is written to a flushable buffer arrives at its flusher, or is still in the buffer.
-/

namespace MulleCore

open Library

variable {all : List UInt8} {buffer : MulleBuffer}

inductive BufferWrite where
  | addByte (c : UInt8)
  | addBytes (bytes : List UInt8)
  | addString (bytes : List UInt8)
  | addStringWithMaxlength (address : UInt64) (bytes : List UInt8) (maxlength : UInt64)
  | memset (c : UInt8) (length : Nat)
  | hexdump (bytes : List UInt8) (counter : UInt64) (options : Nat)

def BufferWrite.text : BufferWrite → List UInt8
  | .addByte c => [c]
  | .addBytes bytes => bytes
  | .addString bytes => bytes.takeWhile (· ≠ 0)
  | .addStringWithMaxlength _ bytes maxlength => limitedText bytes maxlength
  | .memset c length => List.replicate length c
  | .hexdump bytes counter options => hexdumpText options bytes counter

def BufferWrite.count : BufferWrite → Option Nat
  | .addStringWithMaxlength _ bytes maxlength => some (limitedText bytes maxlength).length
  | _ => none

def bufferWrite (env : BufferEnv) (buffer : MulleBuffer) (write : BufferWrite × (Nat → UInt8)) :
    Option (MulleBuffer × Option Nat) :=
  match write with
  | (.addByte c, fresh) => (bufferAddByte env fresh buffer c).map (·, none)
  | (.addBytes bytes, fresh) => (bufferAddBytes env fresh buffer bytes).map (·, none)
  | (.addString bytes, fresh) => (bufferAddString env fresh buffer bytes).map (·, none)
  | (.addStringWithMaxlength address bytes maxlength, fresh) =>
    (bufferAddStringWithMaxlength env fresh buffer address bytes maxlength).map fun (next, added) =>
      (next, some added)
  | (.memset c length, fresh) => (bufferMemset env fresh buffer c length).map (·, none)
  | (.hexdump bytes counter options, fresh) =>
    (bufferHexdump env fresh buffer bytes counter options).map (·, none)

def BufferWrite.Fits (limit : Nat) : BufferWrite → Prop
  | .hexdump bytes _ options => bytes = [] ∨ HexdumpFits limit options
  | _ => True

def BufferWrite.Reaches (buffer : MulleBuffer) : BufferWrite → Prop
  | .addBytes bytes => LengthReaches buffer bytes.length
  | .addStringWithMaxlength address bytes maxlength => StringReaches buffer address bytes maxlength
  | .memset _ length => LengthReaches buffer length
  | _ => True

def BufferWrite.reached (buffer : MulleBuffer) : BufferWrite → List UInt8
  | .addStringWithMaxlength address bytes maxlength => reachedText buffer address bytes maxlength
  | write => write.text

theorem BufferWrite.reached_eq (holds : BufferHolds all buffer)
    {write : BufferWrite} (reaches : write.Reaches buffer) : write.reached buffer = write.text := by
  cases write with
  | addStringWithMaxlength address bytes maxlength =>
    exact (reachedText_eq_iff holds address bytes maxlength).mpr reaches
  | addByte | addBytes | addString | memset | hexdump => rfl

def BufferWrite.Returned (write : BufferWrite) (before after : MulleBuffer) (answer : Option Nat) :
    Prop :=
  answer = write.count.map fun _ => wordSub (bufferGetLength after) (bufferGetLength before)

section Writes

variable {env : BufferEnv} {limit : Nat} {holds : List UInt8 → MulleBuffer → Prop} {all : List UInt8}
  {buffer : MulleBuffer}

theorem BufferSink.write (sink : BufferSink env limit holds) (write : BufferWrite × (Nat → UInt8))
    (fits : write.1.Fits limit) (start : holds all buffer) :
    ∃ next answer, bufferWrite env buffer write = some (next, answer) ∧
      holds (all ++ write.1.reached buffer) next ∧ write.1.Returned buffer next answer := by
  obtain ⟨write, fresh⟩ := write
  cases write with
  | addByte c =>
    obtain ⟨next, added, nextHolds⟩ := sink.addByte fresh c start
    exact ⟨next, none, by simp [bufferWrite, added], nextHolds, rfl⟩
  | addBytes bytes =>
    obtain ⟨next, added, nextHolds⟩ := sink.addBytes fresh bytes start
    exact ⟨next, none, by simp [bufferWrite, added], nextHolds, rfl⟩
  | addString bytes =>
    obtain ⟨next, added, nextHolds⟩ := sink.addString fresh bytes start
    exact ⟨next, none, by simp [bufferWrite, added], nextHolds, rfl⟩
  | addStringWithMaxlength address bytes maxlength =>
    obtain ⟨next, added, nextHolds⟩ := sink.addStringWithMaxlength fresh address bytes maxlength start
    exact ⟨next, some _, by simp only [bufferWrite, added, Option.map_some], nextHolds, rfl⟩
  | memset c length =>
    obtain ⟨next, added, nextHolds⟩ := sink.memset fresh c length start
    exact ⟨next, none, by simp [bufferWrite, added], nextHolds, rfl⟩
  | hexdump bytes counter options =>
    obtain ⟨next, added, nextHolds⟩ := sink.hexdump fresh fits counter start
    exact ⟨next, none, by simp [bufferWrite, added], nextHolds, rfl⟩

theorem bufferWrite_overflown (env : BufferEnv) (overflown : buffer.overflown = true)
    (write : BufferWrite × (Nat → UInt8)) :
    (bufferWrite env buffer write).map Prod.fst = some buffer := by
  obtain ⟨write, fresh⟩ := write
  have each := bufferAddEach_overflown env fresh overflown
  have space := bufferAdvance_overflown env fresh overflown
  cases write with
  | addByte c => simp [bufferWrite, bufferAddByte_overflown env fresh overflown]
  | addBytes bytes =>
    by_cases empty : bytes = [] <;> simp [bufferWrite, bufferAddBytes, empty, space, each]
  | addString bytes => simp [bufferWrite, bufferAddString_eq, each]
  | addStringWithMaxlength => simp [bufferWrite, bufferAddStringWithMaxlength_eq, each]
  | memset c length => simp [bufferWrite, bufferMemset, space, each]
  | hexdump bytes counter options => simp [bufferWrite, bufferHexdump_overflown env fresh overflown]

end Writes

def writtenText (writes : List (BufferWrite × (Nat → UInt8))) : List UInt8 :=
  writes.flatMap fun write => write.1.text

def WritesReach (env : BufferEnv) (buffer : MulleBuffer)
    (writes : List (BufferWrite × (Nat → UInt8))) : Prop :=
  PermittedFrom (fun buffer write => (bufferWrite env buffer write).map Prod.fst)
    (fun buffer write => write.1.Reaches buffer) buffer writes

theorem FlexibleHolds.writes (env : BufferEnv) (writes : List (BufferWrite × (Nat → UInt8))) :
    ∀ {bytes : List UInt8} {buffer : MulleBuffer}, FlexibleHolds bytes buffer →
      WritesReach env buffer writes →
      ∃ final, run (bufferWrite env) buffer writes =
        some (final, writes.map fun write => write.1.count) ∧
        FlexibleHolds (bytes ++ writtenText writes) final := by
  induction writes with
  | nil =>
    intro bytes buffer holds _
    exact ⟨buffer, rfl, by rwa [writtenText, List.flatMap_nil, List.append_nil]⟩
  | cons write writes ih =>
    rintro bytes buffer holds ⟨reaches, reachesLater⟩
    have fits : write.1.Fits 24 := by
      cases write.1 with
      | hexdump => exact .inr ⟨fun _ => by decide, fun _ => le_rfl⟩
      | addByte | addBytes | addString | addStringWithMaxlength | memset => trivial
    obtain ⟨next, answer, written, nextHolds, returned⟩ :=
      (flexibleSink env 24).write write fits holds
    rw [BufferWrite.reached_eq holds.toBufferHolds reaches] at nextHolds
    obtain ⟨final, finished, finalHolds⟩ := ih nextHolds (reachesLater next (by simp [written]))
    have counted : answer = write.1.count := by
      rw [returned, nextHolds.length_eq, holds.length_eq, List.length_append,
        wordSub_eq (Nat.le_add_right _ _), Nat.add_sub_cancel_left]
      cases write.1 <;> rfl
    refine ⟨final, ?_, ?_⟩
    · simp only [run, written, finished, counted, Option.bind_eq_bind, Option.bind_some,
        List.map_cons]
    · rwa [writtenText, List.flatMap_cons, ← List.append_assoc]

inductive FlushableOp where
  | write (more : BufferWrite)
  | flush

def FlushableOp.text : FlushableOp → List UInt8
  | .write more => more.text
  | .flush => []

def FlushableOp.count : FlushableOp → Option Nat
  | .write more => more.count
  | .flush => none

def flushableStep (env : BufferEnv) (buffer : MulleBuffer) (op : FlushableOp × (Nat → UInt8)) :
    Option (MulleBuffer × Option Nat) :=
  match op with
  | (.write more, fresh) => bufferWrite env buffer (more, fresh)
  | (.flush, _) => (bufferFlush env buffer).map fun (next, _) => (next, none)

def flushedText (ops : List (FlushableOp × (Nat → UInt8))) : List UInt8 :=
  ops.flatMap fun op => op.1.text

/-- No flush comes in between a string of which the added bytes are counted, a hexdump has the
space for its lines, and no length wraps around. -/
def FlushableFits (buffer : MulleBuffer) (op : FlushableOp × (Nat → UInt8)) : Prop :=
  buffer.overflown = true ∨
    match op.1 with
    | .write (.addStringWithMaxlength address bytes maxlength) =>
      (limitedText bytes maxlength).length ≤ buffer.storage.length - buffer.curr ∧
        StringReaches buffer address bytes maxlength
    | .write (.hexdump bytes _ options) => bytes = [] ∨ HexdumpFits buffer.storage.length options
    | .write more => more.Reaches buffer
    | .flush => True

theorem FlushableFits.reaches {more : BufferWrite} {fresh : Nat → UInt8}
    (fits : FlushableFits buffer (.write more, fresh)) (ordinary : ¬ buffer.overflown = true) :
    more.Reaches buffer := by
  have fits := fits.resolve_left ordinary
  cases more with
  | addStringWithMaxlength => exact fits.2
  | hexdump => trivial
  | addByte | addBytes | addString | memset => exact fits

def FlusherShort (env : BufferEnv) : Prop :=
  ∃ taken block, env.flusher taken block ≠ block.length

inductive DeliveredWhole (env : BufferEnv) : List UInt8 → Prop where
  | nothing : DeliveredWhole env []
  | flush {delivered block : List UInt8} (before : DeliveredWhole env delivered)
      (whole : env.flusher delivered block = block.length) : DeliveredWhole env (delivered ++ block)

structure FlushableHolds (env : BufferEnv) (count : Nat) (all : List UInt8) (buffer : MulleBuffer) :
    Prop where
  keeps : BufferHolds (buffer.storage.take buffer.curr) buffer
  flushable : buffer.type = .flushable
  notNull : buffer.place ≠ .null
  sized : buffer.storage.length = count
  content : buffer.delivered ++ buffer.storage.take buffer.curr = all
  flushed : buffer.flushed = buffer.delivered.length
  whole : DeliveredWhole env buffer.delivered

/-- It has overflown, which happens only where the flusher can come up short. -/
structure FlushableLost (env : BufferEnv) (buffer : MulleBuffer) : Prop where
  short : FlusherShort env
  overflown : buffer.overflown = true
  flushable : buffer.type = .flushable

def FlushableKeeps (env : BufferEnv) (count : Nat) (all : List UInt8) (buffer : MulleBuffer) : Prop :=
  FlushableHolds env count all buffer ∨ FlushableLost env buffer

section Flushable

variable (env : BufferEnv) {count : Nat} {all : List UInt8} {buffer : MulleBuffer}

theorem FlushableHolds.isFlushable {env : BufferEnv} (holds : FlushableHolds env count all buffer) :
    bufferIsFlushable buffer = true := by
  rw [bufferIsFlushable, holds.flushable]
  rfl

theorem FlushableHolds.isInflexible {env : BufferEnv}
    (holds : FlushableHolds env count all buffer) : bufferIsInflexible buffer = true := by
  rw [bufferIsInflexible, holds.flushable]
  rfl

theorem FlushableHolds.lseek {env : BufferEnv} (holds : FlushableHolds env count all buffer) :
    bufferGetLseek buffer = all.length := by
  rw [bufferGetLseek, holds.isFlushable, if_pos rfl, holds.keeps.length_eq, holds.flushed,
    ← List.length_append, holds.content]

theorem FlushableHolds.flushShort (holds : FlushableHolds env count all buffer)
    (content : buffer.curr ≠ 0)
    (short : env.flusher buffer.delivered (buffer.storage.take buffer.curr) ≠ buffer.curr) :
    ∃ next, bufferFlush env buffer = some (next, -2) ∧ FlushableLost env next := by
  have keeps := holds.keeps
  have length : (buffer.storage.take buffer.curr).length = buffer.curr := by
    rw [List.length_take, Nat.min_eq_left keeps.fits]
  rw [bufferFlush, holds.isFlushable, if_pos rfl, flushablebufferFlush, if_neg keeps.not_overflown,
    if_neg content, blockRead_front keeps.fits]
  simp only [Option.bind_eq_bind, Option.bind_some, flushablebufferFlushed]
  rw [if_pos short.symm, bufferSetOverflown, keeps.ordinary]
  exact ⟨_, rfl, ⟨_, _, fun full => short (full.trans length)⟩, rfl, holds.flushable⟩

theorem FlushableHolds.flush (holds : FlushableHolds env count all buffer) :
    ∃ next result, bufferFlush env buffer = some (next, result) ∧
      (result = 0 ∧ FlushableHolds env count all next ∧ next.curr = 0 ∨ result ≠ 0 ∧
        FlushableLost env next) := by
  have keeps := holds.keeps
  by_cases empty : buffer.curr = 0
  · refine ⟨buffer, 0, ?_, .inl ⟨rfl, holds, empty⟩⟩
    rw [bufferFlush, holds.isFlushable, if_pos rfl, flushablebufferFlush,
      if_neg keeps.not_overflown, if_pos empty]
  · by_cases full : env.flusher buffer.delivered (buffer.storage.take buffer.curr) = buffer.curr
    · rw [bufferFlush, holds.isFlushable, if_pos rfl, flushablebufferFlush,
        if_neg keeps.not_overflown, if_neg empty, blockRead_front keeps.fits]
      simp only [Option.bind_eq_bind, Option.bind_some, flushablebufferFlushed, full, ne_eq,
        not_true_eq_false, if_false]
      refine ⟨_, 0, rfl, .inl ⟨rfl, ⟨⟨keeps.ordinary, Nat.zero_le _, keeps.null, rfl⟩,
        holds.flushable, holds.notNull, holds.sized, ?_, ?_, ?_⟩, rfl⟩⟩
      · rw [List.take_zero, List.append_nil, List.take_take, Nat.min_self, holds.content]
      · simp [holds.flushed, keeps.fits]
      · rw [List.take_take, Nat.min_self]
        refine .flush holds.whole ?_
        rw [full, List.length_take, Nat.min_eq_left keeps.fits]
    · obtain ⟨next, flushed, lost⟩ := holds.flushShort env empty full
      exact ⟨next, -2, flushed, .inr ⟨by decide, lost⟩⟩

theorem FlushableHolds.put {env : BufferEnv} (holds : FlushableHolds env count all buffer)
    (room : buffer.curr < count) (c : UInt8) :
    ∃ next, bufferPut buffer c = some next ∧ FlushableHolds env count (all ++ [c]) next ∧
      next.curr = buffer.curr + 1 := by
  obtain ⟨put, putHolds⟩ := holds.keeps.put (by rw [holds.sized]; exact room) c
  have content := putHolds.content
  refine ⟨_, put, ⟨?_, holds.flushable, holds.notNull, ?_, ?_, holds.flushed, holds.whole⟩, rfl⟩
  · rwa [← content] at putHolds
  · rw [List.length_set, holds.sized]
  · dsimp only at content ⊢
    rw [content, ← List.append_assoc, holds.content]

theorem FlushableHolds.grow (holds : FlushableHolds env count all buffer) (fresh : Nat → UInt8)
    {growth : Nat} (positive : 0 < growth) :
    bufferGrow env fresh buffer growth = some (buffer, -1) ∧ count < count - buffer.curr + growth ∨
      ∃ next, bufferGrow env fresh buffer growth = some (next, 0) ∧
        FlushableHolds env count all next ∧ next.curr = 0 ∧
          count - buffer.curr + growth ≤ count ∨
        bufferGrow env fresh buffer growth = some (next, -1) ∧ FlushableLost env next := by
  have keeps := holds.keeps
  rw [bufferGrow, if_neg keeps.not_overflown, holds.isInflexible, if_pos rfl, bufferGrowInflexible,
    if_neg (by omega), holds.isFlushable, if_pos rfl, bufferGetRemainingLength,
    if_neg keeps.not_overflown, holds.sized]
  split
  · rename_i many
    exact .inl ⟨rfl, many⟩
  · rename_i few
    obtain ⟨next, result, flushed, ⟨rfl, nextHolds, empty⟩ | ⟨failed, lost⟩⟩ := holds.flush env
    · exact .inr ⟨next, .inl ⟨by simp [flushed], nextHolds, empty, by omega⟩⟩
    · exact .inr ⟨next, .inr ⟨by simp [flushed, failed], lost⟩⟩

theorem FlushableHolds.addByte (holds : FlushableHolds env count all buffer) (room : 0 < count)
    (fresh : Nat → UInt8) (c : UInt8) :
    ∃ next, bufferAddByte env fresh buffer c = some next ∧
      FlushableKeeps env count (all ++ [c]) next ∧
      (buffer.curr < count → FlushableHolds env count (all ++ [c]) next ∧
        next.curr = buffer.curr + 1) := by
  have keeps := holds.keeps
  have fits := keeps.fits
  rw [bufferAddByte]
  split
  · rename_i full
    rw [keeps.isFull_eq, holds.sized] at full
    obtain ⟨_, many⟩ | ⟨next, ⟨grown, nextHolds, empty, _⟩ | ⟨grown, lost⟩⟩ :=
      holds.grow env fresh Nat.one_pos
    · omega
    · obtain ⟨last, put, lastHolds, _⟩ := nextHolds.put (by omega) c
      exact ⟨last, by simp [grown, put], .inl lastHolds, fun inside => by omega⟩
    · exact ⟨next, by simp [grown], .inr lost, fun inside => by omega⟩
  · rename_i notFull
    rw [keeps.isFull_eq, holds.sized] at notFull
    rw [holds.sized] at fits
    obtain ⟨next, put, nextHolds, curr⟩ := holds.put (by omega) c
    exact ⟨next, put, .inl nextHolds, fun _ => ⟨nextHolds, curr⟩⟩

theorem FlushableHolds.addEach (fresh : Nat → UInt8) (more : List UInt8) :
    ∀ {all : List UInt8} {buffer : MulleBuffer}, FlushableHolds env count all buffer →
      buffer.curr + more.length ≤ count →
      ∃ next, bufferAddEach env fresh buffer more = some next ∧
        FlushableHolds env count (all ++ more) next ∧
        next.curr = buffer.curr + more.length := by
  induction more with
  | nil => exact fun {all buffer} holds _ => ⟨buffer, rfl, by rwa [List.append_nil], rfl⟩
  | cons c more ih =>
    intro all buffer holds room
    rw [List.length_cons] at room
    obtain ⟨next, added, _, inside⟩ := holds.addByte env (by omega) fresh c
    obtain ⟨nextHolds, curr⟩ := inside (by omega)
    obtain ⟨last, finished, lastHolds, lastCurr⟩ := ih nextHolds (by omega)
    refine ⟨last, ?_, by rwa [List.append_assoc] at lastHolds, by rw [List.length_cons]; omega⟩
    rw [bufferAddEach, List.foldlM_cons, added]
    exact finished

theorem FlushableHolds.space (holds : FlushableHolds env count all buffer) {length : Nat}
    (room : buffer.curr + length ≤ count) :
    BufferSpace (FlushableKeeps env count) all { buffer with curr := buffer.curr + length }
      buffer.curr length := by
  intro text inside
  have enough : buffer.curr + text.length ≤ buffer.storage.length := by
    rw [holds.sized]
    omega
  obtain ⟨storage, filled, sized, filledHolds⟩ := holds.keeps.fill enough
  have content := filledHolds.content
  refine ⟨{ buffer with storage := storage, curr := buffer.curr + length }, ?_, rfl,
    .inl ⟨?_, holds.flushable,
    holds.notNull, by rw [sized, holds.sized], ?_, holds.flushed, holds.whole⟩⟩
  · rw [bufferFill] at filled ⊢
    obtain ⟨pasted, paste, same⟩ := Option.bind_eq_some_iff.mp filled
    simp only [Option.some.injEq, MulleBuffer.mk.injEq] at same
    simp [paste, same.2.1]
  · rwa [← content] at filledHolds
  · dsimp only at content ⊢
    rw [content, ← List.append_assoc, holds.content]

theorem flushableSink (room : 0 < count) : BufferSink env count (FlushableKeeps env count) where
  addByte fresh c keeps := by
    obtain holds | lost := keeps
    · obtain ⟨next, added, nextKeeps, _⟩ := holds.addByte env room fresh c
      exact ⟨next, added, nextKeeps⟩
    · exact ⟨_, bufferAddByte_overflown env fresh lost.overflown c, .inr lost⟩
  advance {all buffer} fresh length keeps := by
    obtain holds | lost := keeps
    · have fits := holds.keeps.fits
      have sized := holds.sized
      have curr : ∀ next : MulleBuffer, next.place ≠ .null → bufferCurr next = some next.curr :=
        fun next notNull => if_neg notNull
      rw [bufferAdvance, bufferGuarantee, if_neg holds.keeps.not_overflown, bufferMissing,
        if_neg holds.notNull]
      split
      · rename_i missing
        obtain ⟨grown, many⟩ | ⟨next, ⟨grown, nextHolds, empty, few⟩ | ⟨grown, lost⟩⟩ :=
          holds.grow env fresh (Int.pos_iff_toNat_pos.mp missing)
        · refine ⟨buffer, none, by rw [grown]; rfl, fun _ => ⟨.inl holds, .inr (.inl (by omega))⟩, ?_⟩
          exact fun space nothing => by cases nothing
        · have room : next.curr + length ≤ count := by omega
          refine ⟨{ next with curr := next.curr + length }, some next.curr,
            by rw [grown]; simp [curr next nextHolds.notNull], fun nothing => (by cases nothing), ?_⟩
          rintro space ⟨⟩
          exact nextHolds.space env room
        · refine ⟨next, none, by rw [grown]; rfl, fun _ => ⟨.inr lost, .inr (.inr lost.overflown)⟩,
            ?_⟩
          exact fun space nothing => by cases nothing
      · rename_i enough
        rw [curr buffer holds.notNull]
        refine ⟨_, _, rfl, fun nothing => (by cases nothing), ?_⟩
        rintro space ⟨⟩
        exact holds.space env (by omega)
    · refine ⟨buffer, none, bufferAdvance_overflown env fresh lost.overflown length,
        fun _ => ⟨.inr lost, .inr (.inr lost.overflown)⟩, ?_⟩
      exact fun space nothing => by cases nothing
  lost := by
    rintro all buffer (holds | lost) overflown other
    · exact absurd overflown holds.keeps.not_overflown
    · exact .inr lost

theorem FlushableHolds.counted (holds : FlushableHolds env count all buffer)
    (write : BufferWrite × (Nat → UInt8)) (reaches : write.1.Reaches buffer)
    (room : ∀ address bytes maxlength, write.1 = .addStringWithMaxlength address bytes maxlength →
      write.1.text.length ≤ count - buffer.curr)
    {next : MulleBuffer} {answer : Option Nat}
    (written : bufferWrite env buffer write = some (next, answer))
    (returned : write.1.Returned buffer next answer) : answer = write.1.count := by
  obtain ⟨write, fresh⟩ := write
  cases write with
  | addStringWithMaxlength address bytes maxlength =>
    have fits := holds.keeps.fits
    have sized := holds.sized
    have enough : (limitedText bytes maxlength).length ≤ count - buffer.curr :=
      room address bytes maxlength rfl
    have same := (reachedText_eq_iff holds.keeps address bytes maxlength).mpr reaches
    obtain ⟨last, added, lastHolds, curr⟩ := FlushableHolds.addEach env fresh _ holds
      (show buffer.curr + (limitedText bytes maxlength).length ≤ count by omega)
    have length :
        bufferGetLength last = bufferGetLength buffer + (limitedText bytes maxlength).length := by
      rw [bufferGetLength, if_neg lastHolds.keeps.not_overflown, curr, bufferGetLength,
        if_neg holds.keeps.not_overflown]
    simp only [bufferWrite, bufferAddStringWithMaxlength_eq, same, added, Option.map_some,
      Option.some.injEq, Prod.mk.injEq] at written
    rw [← written.2, length, wordSub_eq (Nat.le_add_right _ _), Nat.add_sub_cancel_left]
    rfl
  | addByte | addBytes | addString | memset | hexdump => exact returned

/-- An operation adds its bytes to what the flusher gets in the end, or the buffer is lost. -/
theorem FlushableHolds.step (holds : FlushableHolds env count all buffer) (room : 0 < count)
    (op : FlushableOp × (Nat → UInt8)) (fits : FlushableFits buffer op) :
    ∃ next answer, flushableStep env buffer op = some (next, answer) ∧
      (FlushableHolds env count (all ++ op.1.text) next ∧ answer = op.1.count ∨
        FlushableLost env next) := by
  obtain ⟨op, fresh⟩ := op
  cases op with
  | write more =>
    have reaches := fits.reaches holds.keeps.not_overflown
    have fits := fits.resolve_left holds.keeps.not_overflown
    have pieces : more.Fits count := by
      cases more with
      | hexdump bytes counter options =>
        rw [← holds.sized]
        exact fits
      | addByte | addBytes | addString | addStringWithMaxlength | memset => trivial
    have same := BufferWrite.reached_eq holds.keeps reaches
    obtain ⟨next, answer, written, nextHolds | lost, returned⟩ :=
      (flushableSink env room).write (more, fresh) pieces (.inl holds)
    · rw [same] at nextHolds
      refine ⟨next, answer, written,
        .inl ⟨nextHolds, holds.counted env (more, fresh) reaches ?_ written returned⟩⟩
      rintro address bytes maxlength rfl
      rw [← holds.sized]
      exact fits.1
    · exact ⟨next, answer, written, .inr lost⟩
  | flush =>
    obtain ⟨next, result, flushed, ⟨_, nextHolds, _⟩ | ⟨_, lost⟩⟩ := holds.flush env
    · exact ⟨next, none, by simp [flushableStep, flushed],
        .inl ⟨by simpa [FlushableOp.text] using nextHolds, rfl⟩⟩
    · exact ⟨next, none, by simp [flushableStep, flushed], .inr lost⟩

theorem FlushableLost.step (lost : FlushableLost env buffer) (op : FlushableOp × (Nat → UInt8)) :
    ∃ answer, flushableStep env buffer op = some (buffer, answer) := by
  obtain ⟨op, fresh⟩ := op
  cases op with
  | write more =>
    obtain ⟨⟨next, answer⟩, written, same⟩ :=
      Option.map_eq_some_iff.mp (bufferWrite_overflown env lost.overflown (more, fresh))
    dsimp only at same
    subst same
    exact ⟨answer, written⟩
  | flush =>
    refine ⟨none, ?_⟩
    simp [flushableStep, bufferFlush, bufferIsFlushable, lost.flushable, flushablebufferFlush,
      lost.overflown]

theorem FlushableLost.run (lost : FlushableLost env buffer)
    (ops : List (FlushableOp × (Nat → UInt8))) :
    ∃ answers, Library.run (flushableStep env) buffer ops = some (buffer, answers) := by
  induction ops with
  | nil => exact ⟨[], rfl⟩
  | cons op ops ih =>
    obtain ⟨answer, stepped⟩ := lost.step env op
    obtain ⟨answers, finished⟩ := ih
    exact ⟨answer :: answers, by simp only [Library.run, stepped, finished, Option.bind_eq_bind, Option.bind_some]⟩

theorem FlushableHolds.run (room : 0 < count) (ops : List (FlushableOp × (Nat → UInt8))) :
    ∀ {all : List UInt8} {buffer : MulleBuffer}, FlushableHolds env count all buffer →
      PermittedFrom (fun buffer op => (flushableStep env buffer op).map Prod.fst) FlushableFits
        buffer ops →
      ∃ final answers, Library.run (flushableStep env) buffer ops = some (final, answers) ∧
        (FlushableHolds env count (all ++ flushedText ops) final ∧
          (answers = ops.map fun op => op.1.count) ∨
          FlushableLost env final) := by
  induction ops with
  | nil =>
    intro all buffer holds _
    exact ⟨buffer, [], rfl, .inl ⟨by rwa [flushedText, List.flatMap_nil, List.append_nil], rfl⟩⟩
  | cons op ops ih =>
    rintro all buffer holds ⟨fits, later⟩
    obtain ⟨next, answer, stepped, ⟨nextHolds, counted⟩ | lost⟩ := holds.step env room op fits
    · obtain ⟨final, answers, finished, result⟩ := ih nextHolds (later next (by simp [stepped]))
      refine ⟨final, answer :: answers, ?_, ?_⟩
      · simp only [Library.run, stepped, finished, Option.bind_eq_bind, Option.bind_some]
      · obtain ⟨finalHolds, rest⟩ | lost := result
        · rw [List.append_assoc] at finalHolds
          exact .inl ⟨finalHolds, by rw [List.map_cons, counted, rest]⟩
        · exact .inr lost
    · obtain ⟨answers, finished⟩ := lost.run env ops
      refine ⟨next, answer :: answers, ?_, .inr lost⟩
      simp only [Library.run, stepped, finished, Option.bind_eq_bind, Option.bind_some]

end Flushable

inductive FlushableStart where
  | static (storage : List UInt8) (enough : flushablebufferMinCapacity ≤ storage.length)
  | allocated (storage : List UInt8) (enough : flushablebufferMinCapacity ≤ storage.length)

def FlushableStart.capacity : FlushableStart → Nat
  | .static storage _ => storage.length
  | .allocated storage _ => storage.length

def flushableStart : FlushableStart → Option MulleBuffer
  | .static storage _ => flushablebufferInitWithStaticBytes storage
  | .allocated storage _ => flushablebufferInitWithAllocatedBytes storage

theorem flushableStart_holds (env : BufferEnv) (start : FlushableStart) :
    ∃ buffer, flushableStart start = some buffer ∧ FlushableHolds env start.capacity [] buffer ∧
      0 < start.capacity := by
  have positive : 0 < flushablebufferMinCapacity := by decide
  cases start with
  | static storage enough =>
    refine ⟨_, if_pos enough, ⟨⟨rfl, Nat.zero_le _, (fun null => by cases null), rfl⟩, rfl, by simp,
      rfl, rfl, rfl, .nothing⟩, ?_⟩
    exact positive.trans_le enough
  | allocated storage enough =>
    refine ⟨_, if_pos enough, ⟨⟨rfl, Nat.zero_le _, (fun null => by cases null), rfl⟩, rfl, by simp,
      rfl, rfl, rfl, .nothing⟩, ?_⟩
    exact positive.trans_le enough

structure FlushableDelivers (env : BufferEnv) (text : List UInt8) (buffer : MulleBuffer) : Prop where
  ordinary : buffer.overflown = false
  content : buffer.delivered ++ buffer.storage.take buffer.curr = text
  lseek : bufferGetLseek buffer = text.length
  whole : DeliveredWhole env buffer.delivered

theorem FlushableHolds.delivers {env : BufferEnv} {count : Nat}
    (holds : FlushableHolds env count all buffer) : FlushableDelivers env all buffer :=
  ⟨holds.keeps.ordinary, holds.content, holds.lseek, holds.whole⟩

def writesOf (ops : List (FlushableOp × (Nat → UInt8))) : List (BufferWrite × (Nat → UInt8)) :=
  ops.filterMap fun op =>
    match op.1 with
    | .write more => some (more, op.2)
    | .flush => none

theorem writtenText_writesOf (ops : List (FlushableOp × (Nat → UInt8))) :
    writtenText (writesOf ops) = flushedText ops := by
  induction ops with
  | nil => rfl
  | cons op ops ih =>
    obtain ⟨op, fresh⟩ := op
    rw [writtenText, writesOf] at ih
    cases op <;> simp [writtenText, writesOf, flushedText, FlushableOp.text, ih]

/-- All that is written comes to the flusher or is still in the buffer, as in a flexible buffer,
unless a flush has come up short. Then nothing is delivered any more. -/
theorem flushableRun_delivers (env : BufferEnv) (start : FlushableStart)
    (ops : List (FlushableOp × (Nat → UInt8))) (fits : ∀ first, flushableStart start = some first →
      PermittedFrom (fun buffer op => (flushableStep env buffer op).map Prod.fst) FlushableFits
        first ops) :
    ∃ first final answers, flushableStart start = some first ∧
      run (flushableStep env) first ops = some (final, answers) ∧
      (FlushableDelivers env (flushedText ops) final ∧ (answers = ops.map fun op => op.1.count) ∧
          (final.curr ≠ 0 → env.flusher final.delivered (final.storage.take final.curr) ≠ final.curr →
            ∃ next, bufferFlush env final = some (next, -2) ∧ FlushableLost env next) ∨
        FlushableLost env final) ∧
      (∀ lost, FlushableLost env lost → ∀ later, ∃ answers, run (flushableStep env) lost later =
        some (lost, answers)) ∧
      ∀ flexible : FlexibleStart, WritesReach env (flexibleStart flexible) (writesOf ops) →
        ∃ last answers, run (bufferWrite env) (flexibleStart flexible) (writesOf ops) =
          some (last, answers) ∧ FlexibleHolds (flushedText ops) last := by
  obtain ⟨first, starts, firstHolds, room⟩ := flushableStart_holds env start
  obtain ⟨final, answers, finished, result⟩ :=
    FlushableHolds.run env room ops firstHolds (fits first starts)
  refine ⟨first, final, answers, starts, finished, ?_, fun lost isLost later => isLost.run env later,
    fun flexible reaches => ?_⟩
  · obtain ⟨holds, counted⟩ | lost := result
    · exact .inl ⟨holds.delivers, counted, holds.flushShort env⟩
    · exact .inr lost
  · obtain ⟨last, written, holds⟩ :=
      FlexibleHolds.writes env (writesOf ops) (flexibleStart_holds flexible) reaches
    rw [writtenText_writesOf, List.nil_append] at holds
    exact ⟨last, _, written, holds⟩

theorem flushableRun_delivers_string :
    ∃ first final answers,
      flushableStart (.static (List.replicate 8 0) (by decide)) = some first ∧
      run (flushableStep ⟨64, fun _ block => block.length⟩) first
        [(.write (.addBytes [1, 2, 3, 4, 5, 6, 7, 8, 9]), fun _ => 0),
          (.write (.addStringWithMaxlength 0x1000 [0x61, 0x62, 0] 3), fun _ => 0)] =
            some (final, answers) ∧
      final.delivered ++ final.storage.take final.curr = [1, 2, 3, 4, 5, 6, 7, 8, 9, 0x61, 0x62] ∧
      answers = [none, some 2] := by
  obtain ⟨first, final, answers, starts, finished, ⟨delivers, counted, _⟩ | lost, _⟩ :=
    flushableRun_delivers ⟨64, fun _ block => block.length⟩ (.static (List.replicate 8 0) (by decide))
      [(.write (.addBytes [1, 2, 3, 4, 5, 6, 7, 8, 9]), fun _ => 0),
        (.write (.addStringWithMaxlength 0x1000 [0x61, 0x62, 0] 3), fun _ => 0)] (by
      rintro first ⟨⟩
      refine ⟨.inr (.inr (by decide)), ?_⟩
      rintro next ⟨⟩
      exact ⟨.inr ⟨(by decide : 2 ≤ 8 - 1), .inr (.inl (by decide))⟩, fun _ _ => trivial⟩)
  · exact ⟨first, final, answers, starts, finished, delivers.content, counted⟩
  · obtain ⟨taken, block, short⟩ := lost.short
    exact absurd rfl short

/-- Of a hexdump into eight bytes, the offset and the digits are missing. -/
theorem flushableRun_not_delivers :
    ¬ ∀ (env : BufferEnv) (start : FlushableStart) (ops : List (FlushableOp × (Nat → UInt8))),
      (∀ taken block, env.flusher taken block = block.length) →
      ∃ first final answers, flushableStart start = some first ∧
        run (flushableStep env) first ops = some (final, answers) ∧
        final.delivered ++ final.storage.take final.curr = flushedText ops := by
  intro delivers
  obtain ⟨first, final, answers, starts, finished, content⟩ :=
    delivers ⟨64, fun _ block => block.length⟩
    (.static (List.replicate 8 0) (by decide)) [(.write (.hexdump [0x61] 0 4), fun _ => 0)]
      fun _ _ => rfl
  cases starts
  cases finished
  revert content
  decide

end MulleCore
