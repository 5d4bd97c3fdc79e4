import MulleCore.Buffer.BufferOverflow
import MulleCore.Buffer.CString
import MulleCore.Buffer.FlushableBuffer

/-!
The writers of `mulle-buffer-stdio.c`, for a buffer other than NULL that is not read only. `glibc`
tells if `__GLIBC__` is defined, `errno` is left out.
-/

namespace MulleCore

open Library

section Writers

variable (env : BufferEnv) (fresh : Nat → UInt8) (glibc : Bool)

def bufferEOF : Int := -1

def bufferFputc (buffer : MulleBuffer) (c : UInt8) : Option (MulleBuffer × Int) := do
  let buffer ← bufferAddByte env fresh buffer c
  if glibc && bufferIsInflexible buffer then some (buffer, c.toNat)
  else some (buffer, if buffer.overflown then bufferEOF else c.toNat)

/-- The lengths are `size_t`, their difference becomes an `int`. -/
def bufferFputs (buffer : MulleBuffer) (s : List UInt8) : Option (MulleBuffer × Int) := do
  let before := bufferGetLength buffer
  let buffer ← bufferAddCString env fresh buffer s
  let added := Int.bmod (wordSub (bufferGetLength buffer) before) (2 ^ 32)
  if glibc && bufferIsInflexible buffer then some (buffer, added)
  else some (buffer, if buffer.overflown then bufferEOF else added)

/-- `mulle_allocator_size_multiply` fails, if the product is no `size_t`. -/
def bufferFwrite (buffer : MulleBuffer) (src : List UInt8) (size nmemb : Nat) :
    Option (MulleBuffer × Nat) :=
  if size = 0 then some (buffer, 0)
  else if 2 ^ 64 ≤ size * nmemb then none
  else do
    let (buffer, dst) ← bufferAdvance env fresh buffer (size * nmemb)
    match dst with
    | some dst => do
        let buffer ← bufferFill buffer dst (src.take (size * nmemb))
        some (buffer, nmemb)
    | none =>
      if glibc && bufferIsInflexible buffer then do
        let buffer ← bufferAddBytes env fresh buffer (src.take (bufferGetRemainingLength buffer))
        some (buffer, nmemb)
      else some (buffer, 0)

def bufferFputcEach (buffer : MulleBuffer) (text : List UInt8) : Option MulleBuffer :=
  text.foldlM (fun buffer c => (bufferFputc env fresh glibc buffer c).map Prod.fst) buffer

end Writers

section Streams

def bufferStream (buffer : MulleBuffer) : List UInt8 :=
  (if bufferIsFlushable buffer then buffer.delivered else []) ++
    buffer.storage.take (bufferGetLength buffer)

def fittingLength (buffer : MulleBuffer) (text : List UInt8) : Nat :=
  if buffer.type = .inflexible then min (bufferGetRemainingLength buffer) text.length else text.length

structure WritesFitting (buffer : MulleBuffer) (text : List UInt8) (after : MulleBuffer) : Prop where
  stream : bufferStream after = bufferStream buffer ++ text.take (fittingLength buffer text)
  overflown : after.overflown = true ↔ buffer.overflown = true ∨
    fittingLength buffer text < text.length

def WritableBuffer (env : BufferEnv) (buffer : MulleBuffer) : Prop :=
  (∃ all, FlexibleHolds all buffer) ∨ (∃ count all, InflexibleHolds count all buffer) ∨
    ∃ count all, 0 < count ∧ FlushableHolds env count all buffer ∧ ¬ FlusherShort env

end Streams

section Appends

variable (env : BufferEnv) (fresh : Nat → UInt8) (glibc : Bool)
variable {bytes : List UInt8}

theorem bufferAddEach_append (buffer : MulleBuffer) (first second : List UInt8) :
    bufferAddEach env fresh buffer (first ++ second) =
      (bufferAddEach env fresh buffer first).bind fun between => bufferAddEach env fresh
        between second :=
  List.foldlM_append ..

theorem bufferAddCChar_eq (buffer : MulleBuffer) (c : UInt8) :
    bufferAddCChar env fresh buffer c = bufferAddEach env fresh buffer (cCharText c) := by
  rw [bufferAddCChar, cCharText]
  cases cEscape c with
  | some escaped => simp [bufferAddEscapedChar, bufferAddEach]
  | none =>
    dsimp only
    split
    · simp [bufferAddEach]
    · simp [bufferAddOctal, bufferAddEach]

theorem bufferAddCChars_eq (nonzero : (0 : UInt8) ∉ bytes) (behind : List UInt8)
    (buffer : MulleBuffer) : bufferAddCChars env fresh buffer (bytes ++ 0 :: behind) =
      bufferAddEach env fresh buffer (bytes.flatMap cCharText) := by
  induction bytes generalizing buffer with
  | nil => simp [bufferAddCChars, bufferAddEach]
  | cons c bytes ih =>
    rw [List.mem_cons, not_or] at nonzero
    rw [List.cons_append, bufferAddCChars, if_neg (Ne.symm nonzero.1), bufferAddCChar_eq,
      List.flatMap_cons, bufferAddEach_append]
    exact congrArg _ (funext fun between => ih nonzero.2 between)

theorem bufferAddCString_eq (nonzero : (0 : UInt8) ∉ bytes) (behind : List UInt8)
    (buffer : MulleBuffer) : bufferAddCString env fresh buffer (bytes ++ 0 :: behind) =
      bufferAddEach env fresh buffer (cStringText bytes) := by
  rw [bufferAddCString]
  split
  next overflown => exact (bufferAddEach_overflown env fresh overflown _).symm
  next =>
    have whole : cStringText bytes = [0x22] ++ (bytes.flatMap cCharText ++ [0x22]) := rfl
    rw [whole, bufferAddEach_append, Option.bind_eq_bind]
    have quote : ∀ buffer, bufferAddEach env fresh buffer [0x22] =
        bufferAddByte env fresh buffer 0x22 := by
      intro buffer
      simp [bufferAddEach]
    rw [quote]
    refine congrArg _ (funext fun opened => ?_)
    rw [bufferAddEach_append, bufferAddCChars_eq env fresh nonzero behind]
    exact congrArg _ (funext fun filled => (quote filled).symm)

theorem cStringText_length (bytes : List UInt8) : bytes.length + 2 ≤ (cStringText bytes).length := by
  have each : bytes.length ≤ (bytes.flatMap cCharText).length := by
    induction bytes with
    | nil => simp
    | cons c bytes ih =>
      obtain ⟨first, rest, text⟩ := cCharText_cons c
      rw [List.flatMap_cons, List.length_append, List.length_cons, text, List.length_cons]
      omega
  simp only [cStringText, List.length_cons, List.length_append, List.length_nil]
  omega

theorem bufferFputcEach_eq (buffer : MulleBuffer) (text : List UInt8) :
    bufferFputcEach env fresh glibc buffer text = bufferAddEach env fresh buffer text := by
  have one : ∀ buffer c, (bufferFputc env fresh glibc buffer c).map Prod.fst =
      bufferAddByte env fresh buffer c := by
    intro buffer c
    rw [bufferFputc]
    cases bufferAddByte env fresh buffer c with
    | none => rfl
    | some next =>
      simp only [Option.bind_eq_bind, Option.bind_some]
      split
      · rfl
      · rfl
  rw [bufferFputcEach, bufferAddEach]
  simp only [one]

theorem bufferFputs_eq {text : List UInt8} (nonzero : (0 : UInt8) ∉ text) (behind : List UInt8)
    (buffer : MulleBuffer) :
    (bufferFputs env fresh glibc buffer (text ++ 0 :: behind)).map Prod.fst =
      bufferAddEach env fresh buffer (cStringText text) := by
  rw [bufferFputs, bufferAddCString_eq env fresh nonzero behind]
  cases bufferAddEach env fresh buffer (cStringText text) with
  | none => rfl
  | some next =>
    simp only [Option.bind_eq_bind, Option.bind_some]
    split
    · rfl
    · rfl

end Appends

section Inflexible

variable (env : BufferEnv) (fresh : Nat → UInt8) {count : Nat} {all : List UInt8}
  {buffer : MulleBuffer}

section

variable (holds : InflexibleHolds count all buffer)
include holds

theorem InflexibleHolds.stream :
    bufferStream buffer = buffer.storage.take (bufferGetLength buffer) := by
  have notFlushable : bufferIsFlushable buffer = false := by
    rw [bufferIsFlushable, holds.inflexible]
    rfl
  rw [bufferStream, notFlushable]
  rfl

theorem InflexibleHolds.remaining (ordinary : BufferHolds all buffer) :
    bufferGetRemainingLength buffer = count - all.length := by
  rw [bufferGetRemainingLength, if_neg ordinary.not_overflown, holds.sized, ordinary.curr_eq]

theorem InflexibleHolds.ordinary_stream (ordinary : BufferHolds all buffer) :
    bufferStream buffer = all := by
  rw [holds.stream, ordinary.length_eq, ← ordinary.curr_eq, ordinary.content]

theorem InflexibleHolds.grow_full (ordinary : BufferHolds all buffer)
    {growth : Nat} (positive : growth ≠ 0) :
    ∃ next, bufferGrow env fresh buffer growth = some (next, -1) ∧
      bufferStream next = bufferStream buffer ∧
      next.overflown = true ∧ next.type = buffer.type := by
  have inflexible : bufferIsInflexible buffer = true := by
    rw [bufferIsInflexible, holds.inflexible]
    rfl
  have notFlushable : bufferIsFlushable buffer = false := by
    rw [bufferIsFlushable, holds.inflexible]
    rfl
  rw [bufferGrow, if_neg ordinary.not_overflown, if_pos inflexible, bufferGrowInflexible,
    if_neg positive, notFlushable, bufferSetOverflown, if_neg ordinary.not_overflown]
  refine ⟨_, rfl, ?_, rfl, rfl⟩
  rw [bufferStream, bufferStream]
  simp only [bufferIsFlushable, bufferGetLength, if_true, ordinary.not_overflown]
  rfl

theorem InflexibleHolds.addByte_fitting (c : UInt8) :
    ∃ next, bufferAddByte env fresh buffer c = some next ∧ InflexibleHolds count (all ++ [c]) next ∧
      (bufferGetRemainingLength buffer = bufferGetRemainingLength next + 1 ∧
        buffer.overflown = false ∧
          next.overflown = false ∧ bufferStream next = bufferStream buffer ++ [c] ∨
        bufferGetRemainingLength buffer = 0 ∧ next.overflown = true ∧
        bufferStream next = bufferStream buffer) := by
  obtain ⟨next, added, nextHolds⟩ := holds.addByte env fresh c
  refine ⟨next, added, nextHolds, ?_⟩
  rcases holds.state with ordinary | ⟨overflown, _⟩
  · have remaining := holds.remaining ordinary
    have fits := ordinary.fits
    have curr := ordinary.curr_eq
    have sized := holds.sized
    rw [bufferAddByte] at added
    split at added
    next full =>
      rw [ordinary.isFull_eq] at full
      obtain ⟨last, grown, stream, overflown, -⟩ := holds.grow_full env fresh ordinary Nat.one_ne_zero
      obtain rfl : last = next := by simpa [grown] using added
      exact Or.inr ⟨by omega, overflown, stream⟩
    next room =>
      rw [ordinary.isFull_eq] at room
      obtain ⟨put, putHolds⟩ := ordinary.put (by omega) c
      obtain rfl := Option.some.inj (put.symm.trans added)
      have later := nextHolds.remaining putHolds
      rw [List.length_append, List.length_singleton] at later
      refine Or.inl ⟨by omega, ordinary.ordinary, putHolds.ordinary, ?_⟩
      rw [nextHolds.ordinary_stream putHolds, holds.ordinary_stream ordinary]
  · obtain rfl := Option.some.inj ((bufferAddByte_overflown env fresh overflown c).symm.trans added)
    exact Or.inr ⟨by rw [bufferGetRemainingLength, if_pos overflown], overflown, rfl⟩

end

theorem InflexibleHolds.addEach_fitting (text : List UInt8) :
    ∀ {all : List UInt8} {buffer : MulleBuffer}, InflexibleHolds count all buffer →
      ∃ next, bufferAddEach env fresh buffer text = some next ∧
        bufferStream next = bufferStream buffer ++ text.take (bufferGetRemainingLength buffer) ∧
        (next.overflown = true ↔ buffer.overflown = true ∨ bufferGetRemainingLength buffer <
          text.length) := by
  induction text with
  | nil => exact fun {all buffer} holds => ⟨buffer, rfl, by simp, by simp⟩
  | cons c text ih =>
    intro all buffer holds
    obtain ⟨between, added, betweenHolds, one⟩ := holds.addByte_fitting env fresh c
    obtain ⟨next, finished, stream, overflown⟩ := ih betweenHolds
    refine ⟨next, ?_, ?_, ?_⟩
    · rw [bufferAddEach, List.foldlM_cons, added]
      exact finished
    · rw [stream]
      rcases one with ⟨remaining, -, -, written⟩ | ⟨full, overflows, same⟩
      · rw [remaining, written, List.take_succ_cons, List.append_assoc, List.singleton_append]
      · have lost : bufferGetRemainingLength between = 0 := by
          rw [bufferGetRemainingLength, if_pos overflows]
        rw [full, lost, same, List.take_zero, List.take_zero]
    · rw [overflown, List.length_cons]
      rcases one with ⟨remaining, before, after, -⟩ | ⟨full, overflows, -⟩
      · rw [before, after, remaining]
        simp
      · rw [overflows, full]
        simp

theorem InflexibleHolds.fwrite (glibc : Bool) (holds : InflexibleHolds count all buffer)
    {text : List UInt8} (small : text.length < 2 ^ 64) :
    ∃ next n, bufferFwrite env fresh glibc buffer text 1 text.length = some (next, n) ∧
      bufferStream next = bufferStream buffer ++ (if text.length ≤
        bufferGetRemainingLength buffer then text else []) ∧
      (next.overflown = true ↔ buffer.overflown = true ∨ bufferGetRemainingLength buffer <
        text.length) := by
  have notNull : buffer.place ≠ .null := by
    rw [holds.initial]
    decide
  -- the remaining length is asked for behind the overflow
  have nothing : ∀ next : MulleBuffer, next.overflown = true →
    ∃ n, (if (glibc && bufferIsInflexible next) = true then do
      let buffer ← bufferAddBytes env fresh next (text.take (bufferGetRemainingLength next))
      some (buffer, text.length) else some (next, 0)) = some (next, n) := by
    intro next overflown
    split
    · exact ⟨text.length, by simp [bufferGetRemainingLength, overflown, bufferAddBytes]⟩
    · exact ⟨0, rfl⟩
  rw [bufferFwrite, if_neg Nat.one_ne_zero, Nat.one_mul, if_neg (Nat.not_le_of_lt small)]
  rcases holds.state with ordinary | ⟨overflown, _⟩
  · have remaining := holds.remaining ordinary
    have fits := ordinary.fits
    have curr := ordinary.curr_eq
    have sized := holds.sized
    rw [bufferAdvance, bufferGuarantee, if_neg ordinary.not_overflown]
    by_cases missing : bufferMissing buffer text.length > 0
    · have less : bufferGetRemainingLength buffer < text.length := by
        rw [bufferMissing, if_neg notNull] at missing
        omega
      obtain ⟨next, grown, stream, overflown, -⟩ :=
        holds.grow_full env fresh ordinary (by omega : (bufferMissing buffer text.length).toNat ≠ 0)
      obtain ⟨n, finished⟩ := nothing next overflown
      refine ⟨next, n, ?_, ?_, ?_⟩
      · rw [if_pos missing, grown]
        exact finished
      · rw [stream, if_neg (Nat.not_le_of_lt less), List.append_nil]
      · exact iff_of_true overflown (Or.inr less)
    · have room : buffer.curr + text.length ≤ buffer.storage.length := by
        rw [bufferMissing, if_neg notNull] at missing
        omega
      obtain ⟨storage, filled, length, nextHolds⟩ := ordinary.fill room
      have after : InflexibleHolds count (all ++ text)
        { buffer with storage := storage, curr := buffer.curr + text.length } :=
        ⟨holds.inflexible, holds.initial, by rw [length, sized], .inl nextHolds⟩
      refine ⟨{ buffer with storage := storage, curr := buffer.curr + text.length }, text.length,
        ?_, ?_, ?_⟩
      · rw [if_neg missing, bufferCurr, if_neg notNull]
        simp only [Option.bind_eq_bind, Option.bind_some, List.take_length, filled]
      · rw [after.ordinary_stream nextHolds, holds.ordinary_stream ordinary, if_pos (by omega)]
      · rw [nextHolds.ordinary]
        simp only [Bool.false_eq_true, false_or, false_iff]
        omega
  · obtain ⟨n, finished⟩ := nothing buffer overflown
    have none : bufferGetRemainingLength buffer = 0 := by
      rw [bufferGetRemainingLength, if_pos overflown]
    refine ⟨buffer, n, ?_, ?_, by simp [overflown]⟩
    · rw [bufferAdvance_overflown env fresh overflown]
      exact finished
    · rw [none]
      split
      next empty => rw [List.length_eq_zero_iff.mp (Nat.le_zero.mp empty), List.append_nil]
      next => rw [List.append_nil]

end Inflexible

section Unlimited

variable {env : BufferEnv} {limit : Nat} {holds : List UInt8 → MulleBuffer → Prop} {all : List UInt8}
  {buffer : MulleBuffer}
variable {text : List UInt8}

theorem BufferSink.fwrite (sink : BufferSink env limit holds) (fresh : Nat → UInt8) (glibc : Bool)
    (start : holds all buffer) (small : text.length < 2 ^ 64) :
    ∃ next n, bufferFwrite env fresh glibc buffer text 1 text.length = some (next, n) := by
  rw [bufferFwrite, if_neg Nat.one_ne_zero, Nat.one_mul, if_neg (Nat.not_le_of_lt small)]
  obtain ⟨next, reserved, advanced, refused, opened⟩ := sink.advance fresh text.length start
  rw [advanced]
  cases reserved with
  | none =>
    obtain ⟨last, added, -⟩ := sink.addBytes fresh (text.take (bufferGetRemainingLength next))
      (refused rfl).1
    simp only [Option.bind_eq_bind, Option.bind_some, added]
    split
    · exact ⟨last, text.length, rfl⟩
    · exact ⟨next, 0, rfl⟩
  | some space =>
    obtain ⟨last, filled, -⟩ := (opened space rfl).fill text
    simp only [Option.bind_eq_bind, Option.bind_some, List.take_length, filled]
    exact ⟨last, text.length, rfl⟩

structure TakesAll (all : List UInt8) (buffer : MulleBuffer) : Prop where
  stream : bufferStream buffer = all
  ordinary : buffer.overflown = false
  unlimited : buffer.type ≠ .inflexible

theorem BufferSink.writers (sink : BufferSink env limit holds)
    (takes : ∀ all buffer, holds all buffer → TakesAll all buffer) (fresh : Nat → UInt8)
    (glibc : Bool) (start : holds all buffer) (nonzero : (0 : UInt8) ∉ text) (behind : List UInt8)
    (small : text.length < 2 ^ 64) :
    ∃ puts wrote putc, (bufferFputs env fresh glibc buffer (text ++ 0 :: behind)).map Prod.fst =
      some puts ∧
      (bufferFwrite env fresh glibc buffer text 1 text.length).map Prod.fst = some wrote ∧
      bufferFputcEach env fresh glibc buffer text = some putc ∧ WritesFitting buffer text putc ∧
      ¬ WritesFitting buffer text puts := by
  obtain ⟨stream, ordinary, unlimited⟩ := takes _ _ start
  obtain ⟨puts, quoted, putsHolds⟩ := sink.addEach fresh (cStringText text) start
  obtain ⟨putc, added, putcHolds⟩ := sink.addEach fresh text start
  obtain ⟨wrote, n, written⟩ := sink.fwrite fresh glibc start small
  have fits : fittingLength buffer text = text.length := by rw [fittingLength, if_neg unlimited]
  refine ⟨puts, wrote, putc, ?_, ?_, ?_, ⟨?_, ?_⟩, ?_⟩
  · rw [bufferFputs_eq env fresh glibc nonzero, quoted]
  · rw [written]
    rfl
  · rw [bufferFputcEach_eq, added]
  · rw [fits, List.take_length, stream, (takes _ _ putcHolds).stream]
  · rw [fits, ordinary, (takes _ _ putcHolds).ordinary]
    simp
  · rintro ⟨same, -⟩
    rw [fits, List.take_length, stream, (takes _ _ putsHolds).stream] at same
    have longer := cStringText_length text
    rw [List.append_cancel_left same] at longer
    omega

theorem FlexibleHolds.takesAll (holds : FlexibleHolds all buffer) : TakesAll all buffer := by
  refine ⟨?_, holds.ordinary, ?_⟩
  · have notFlushable : bufferIsFlushable buffer = false := by
      rw [bufferIsFlushable, holds.flexible]
      rfl
    rw [bufferStream, notFlushable, holds.length_eq, ← holds.curr_eq, holds.content]
    rfl
  · rw [holds.flexible]
    decide

theorem FlushableHolds.takesAll {count : Nat} (holds : FlushableHolds env count all buffer) :
    TakesAll all buffer := by
  refine ⟨?_, holds.keeps.ordinary, ?_⟩
  · have length : bufferGetLength buffer = buffer.curr := by
      rw [bufferGetLength, if_neg holds.keeps.not_overflown]
    rw [bufferStream, holds.isFlushable, if_pos rfl, length, holds.content]
  · rw [holds.flushable]
    decide

end Unlimited

section Claim

variable (env : BufferEnv) (fresh : Nat → UInt8) (glibc : Bool) {buffer : MulleBuffer}

theorem InflexibleHolds.writers {count : Nat} {all text : List UInt8}
    (holds : InflexibleHolds count all buffer) (nonzero : (0 : UInt8) ∉ text) (behind : List UInt8)
    (small : text.length < 2 ^ 64) :
    ∃ puts wrote putc, (bufferFputs env fresh glibc buffer (text ++ 0 :: behind)).map Prod.fst =
      some puts ∧
      (bufferFwrite env fresh glibc buffer text 1 text.length).map Prod.fst = some wrote ∧
      bufferFputcEach env fresh glibc buffer text = some putc ∧ WritesFitting buffer text putc ∧
      (WritesFitting buffer text puts ∧ WritesFitting buffer text wrote ↔
        bufferGetRemainingLength buffer = 0 ∧ (text ≠ [] ∨ buffer.overflown = true)) := by
  obtain ⟨puts, quoted, putsStream, putsOverflown⟩ :=
    holds.addEach_fitting env fresh (cStringText text)
  obtain ⟨putc, added, putcStream, putcOverflown⟩ := holds.addEach_fitting env fresh text
  obtain ⟨wrote, n, written, wroteStream, wroteOverflown⟩ := holds.fwrite env fresh glibc small
  have longer := cStringText_length text
  have fitting : fittingLength buffer text = min (bufferGetRemainingLength buffer) text.length := by
    rw [fittingLength, if_pos holds.inflexible]
  have taken : text.take (fittingLength buffer text) =
      text.take (bufferGetRemainingLength buffer) := by
    rw [fitting, ← List.take_take, List.take_length]
  have less : fittingLength buffer text < text.length ↔
    bufferGetRemainingLength buffer < text.length := by omega
  have nonempty : text ≠ [] ↔ 0 < text.length := List.length_pos_iff.symm
  refine ⟨puts, wrote, putc, ?_, ?_, ?_, ⟨?_, ?_⟩, ?_⟩
  · rw [bufferFputs_eq env fresh glibc nonzero, quoted]
  · rw [written]
    rfl
  · rw [bufferFputcEach_eq, added]
  · rw [taken, putcStream]
  · rw [less, putcOverflown]
  constructor
  · rintro ⟨⟨putsSame, putsFlag⟩, ⟨wroteSame, -⟩⟩
    rw [taken, putsStream] at putsSame
    rw [taken, wroteStream] at wroteSame
    rw [less, putsOverflown] at putsFlag
    have quotes := congrArg List.length (List.append_cancel_left putsSame)
    have whole := congrArg List.length (List.append_cancel_left wroteSame)
    rw [List.length_take, List.length_take] at quotes
    rw [List.length_take] at whole
    by_cases overflown : buffer.overflown = true
    · exact ⟨by rw [bufferGetRemainingLength, if_pos overflown], Or.inr overflown⟩
    · rw [or_iff_right overflown, or_iff_right overflown] at putsFlag
      by_cases fits : text.length ≤ bufferGetRemainingLength buffer
      · omega
      · rw [if_neg fits, List.length_nil] at whole
        exact ⟨by omega, Or.inl (nonempty.mpr (by omega))⟩
  · rintro ⟨full, shown⟩
    have raised : buffer.overflown = true ∨ 0 < text.length := by
      rw [← nonempty]
      exact shown.symm
    refine ⟨⟨?_, ?_⟩, ⟨?_, ?_⟩⟩
    · rw [taken, putsStream, full, List.take_zero, List.take_zero]
    · rw [less, putsOverflown, full]
      exact iff_of_true (Or.inr (by omega)) raised
    · rw [taken, wroteStream, full, List.take_zero]
      split
      next empty => rw [List.length_eq_zero_iff.mp (Nat.le_zero.mp empty)]
      next => rfl
    · rw [less, wroteOverflown]

/-- Into a buffer with room `fputs` writes quotes, and `fwrite` writes nothing if the room is short.
-/
theorem bufferWriters_agree_iff (writable : WritableBuffer env buffer) {text : List UInt8}
    (nonzero : (0 : UInt8) ∉ text) (behind : List UInt8) (small : text.length < 2 ^ 64) :
    ∃ puts wrote putc, (bufferFputs env fresh glibc buffer (text ++ 0 :: behind)).map Prod.fst =
      some puts ∧
      (bufferFwrite env fresh glibc buffer text 1 text.length).map Prod.fst = some wrote ∧
      bufferFputcEach env fresh glibc buffer text = some putc ∧ WritesFitting buffer text putc ∧
      (WritesFitting buffer text puts ∧ WritesFitting buffer text wrote ↔
        buffer.type = .inflexible ∧ bufferGetRemainingLength buffer = 0 ∧
        (text ≠ [] ∨ buffer.overflown = true)) := by
  rcases writable with ⟨all, holds⟩ | ⟨count, all, holds⟩ | ⟨count, all, room, holds, whole⟩
  · obtain ⟨puts, wrote, putc, quoted, written, added, fits, differs⟩ :=
      (@flexibleSink env 0).writers (fun _ _ => FlexibleHolds.takesAll) fresh glibc holds
        nonzero behind small
    refine ⟨puts, wrote, putc, quoted, written, added, fits,
      iff_of_false (fun both => differs both.1) ?_⟩
    exact fun condition => holds.takesAll.unlimited condition.1
  · obtain ⟨puts, wrote, putc, quoted, written, added, fits, agree⟩ :=
      holds.writers env fresh glibc nonzero behind small
    exact ⟨puts, wrote, putc, quoted, written, added, fits,
      agree.trans (and_iff_right holds.inflexible).symm⟩
  · have takes : ∀ all buffer, FlushableKeeps env count all buffer → TakesAll all buffer := by
      rintro all buffer (holds | lost)
      · exact holds.takesAll
      · exact absurd lost.short whole
    obtain ⟨puts, wrote, putc, quoted, written, added, fits, differs⟩ :=
      (flushableSink env room).writers takes fresh glibc (Or.inl holds) nonzero behind small
    refine ⟨puts, wrote, putc, quoted, written, added, fits,
      iff_of_false (fun both => differs both.1) ?_⟩
    exact fun condition => holds.takesAll.unlimited condition.1

theorem bufferWriters_agree_iff_full :
    ∃ puts wrote putc, (bufferFputs ⟨16, fun _ _ => 0⟩ (fun _ => 0) true
        (bufferMakeInflexible (bufferInit 0) [0x61, 0x62]) ([0x63] ++ 0 :: [])).map Prod.fst =
          some puts ∧
      (bufferFwrite ⟨16, fun _ _ => 0⟩ (fun _ => 0) true (bufferMakeInflexible (bufferInit 0) [0x61,
        0x62]) [0x63] 1 1).map Prod.fst = some wrote ∧
      bufferFputcEach ⟨16, fun _ _ => 0⟩ (fun _ => 0) true (bufferMakeInflexible (bufferInit 0)
        [0x61, 0x62]) [0x63] =
        some putc ∧
      WritesFitting (bufferMakeInflexible (bufferInit 0) [0x61, 0x62]) [0x63] putc ∧
      (WritesFitting (bufferMakeInflexible (bufferInit 0) [0x61, 0x62]) [0x63] puts ∧
          WritesFitting (bufferMakeInflexible (bufferInit 0) [0x61, 0x62]) [0x63] wrote ↔
        (bufferMakeInflexible (bufferInit 0) [0x61, 0x62]).type = .inflexible ∧
          bufferGetRemainingLength (bufferMakeInflexible (bufferInit 0) [0x61, 0x62]) = 0 ∧
          ([(0x63 : UInt8)] ≠ [] ∨ (bufferMakeInflexible (bufferInit 0) [0x61, 0x62]).overflown =
            true)) :=
  bufferWriters_agree_iff ⟨16, fun _ _ => 0⟩ (fun _ => 0) true
    (Or.inr (Or.inl ⟨_, _, inflexibleStart_holds (.made (bufferInit 0) [0x61, 0x62])⟩)) (by simp) []
      (by simp)

/-- A flexible buffer gets `"a"` with the quotes, and of `abc` nothing is written where there is
room for two. -/
theorem bufferWriters_differ :
    (∃ puts, (bufferFputs ⟨16, fun _ _ => 0⟩ (fun _ => 0) true (bufferInit 0) [0x61, 0]).map
      Prod.fst = some puts ∧
      bufferStream puts = [0x22, 0x61, 0x22] ∧ ¬ WritesFitting (bufferInit 0) [0x61] puts) ∧
    ∃ wrote, (bufferFwrite ⟨16, fun _ _ => 0⟩ (fun _ => 0) true
      (bufferInitInflexibleWithStaticBytes [0, 0])
        [0x61, 0x62, 0x63] 1 3).map Prod.fst = some wrote ∧
      bufferStream wrote = [] ∧
      ¬ WritesFitting (bufferInitInflexibleWithStaticBytes [0, 0]) [0x61, 0x62, 0x63] wrote := by
  refine ⟨⟨_, rfl, by decide, ?_⟩, ⟨_, rfl, by decide, ?_⟩⟩
  · rintro ⟨same, -⟩
    exact absurd same (by decide)
  · rintro ⟨same, -⟩
    exact absurd same (by decide)

end Claim

end MulleCore
