import MulleCore.Data.Hash
import MulleCore.Library.Simulation
import MulleCore.Library.Ring

/-!
`mulle-pointerfifo.h`, with a step for each access to `n`, `read`, `write` or a slot, by one
producer and one consumer. The functions of `mulle--pointerfifo64.h` are the same with a `size` of
64.
-/

namespace MulleCore

open Library

/-- `n` is a word of 64 bits, `write` and `read` are of 32 bits. -/
structure Pointerfifo where
  n : Nat
  write : Nat
  read : Nat
  storage : Nat → Pointer

inductive PointerfifoThread where
  | producer
  | consumer
deriving DecidableEq

/-- The access that comes next, with the variables of the function. -/
inductive PointerfifoState where
  | idle
  | readCount
  | readIndex
  | readSlot (i : Nat)
  | readCursor (pointer : Pointer)
  | readAdvance (pointer : Pointer) (i : Nat)
  | readDecrement (pointer : Pointer)
  | writeCount (pointer : Pointer)
  | writeIndex (pointer : Pointer)
  | writeSlot (pointer : Pointer) (i : Nat)
  | writeCursor (pointer : Pointer)
  | writeAdvance (pointer : Pointer) (i : Nat)
  | writeIncrement (pointer : Pointer)
deriving DecidableEq

inductive PointerfifoMove where
  | read
  | write (pointer : Pointer)
  | proceed
deriving DecidableEq

inductive PointerfifoEvent where
  | read (pointer : Pointer)
  | wrote (pointer : Pointer) (code : Int)
deriving DecidableEq

section Steps

abbrev PointerfifoResult : Type := Pointerfifo × PointerfifoState × Option PointerfifoEvent

def pointerfifoGetCount (p : Pointerfifo) : Nat := p.n % 2 ^ 32

def nextIndex (size cursor : Nat) : Nat := (cursor + 1) % 2 ^ 32 % size

def pointerfifoProceed (size : Nat) (p : Pointerfifo) : PointerfifoState → PointerfifoResult
  | .idle => (p, .idle, none)
  | .readCount =>
    if pointerfifoGetCount p = 0 then (p, .idle, some (.read 0)) else (p, .readIndex, none)
  | .readIndex => (p, .readSlot p.read, none)
  | .readSlot i => (p, .readCursor (p.storage i), none)
  | .readCursor pointer => (p, .readAdvance pointer p.read, none)
  | .readAdvance pointer i => ({ p with read := nextIndex size i }, .readDecrement pointer, none)
  | .readDecrement pointer =>
    ({ p with n := (p.n + (2 ^ 64 - 1)) % 2 ^ 64 }, .idle, some (.read pointer))
  | .writeCount pointer =>
    if pointerfifoGetCount p = size then (p, .idle, some (.wrote pointer (-1)))
      else (p, .writeIndex pointer, none)
  | .writeIndex pointer => (p, .writeSlot pointer p.write, none)
  | .writeSlot pointer i =>
    ({ p with storage := Function.update p.storage i pointer }, .writeCursor pointer, none)
  | .writeCursor pointer => (p, .writeAdvance pointer p.write, none)
  | .writeAdvance pointer i => ({ p with write := nextIndex size i }, .writeIncrement pointer, none)
  | .writeIncrement pointer => ({ p with n := (p.n + 1) % 2 ^ 64 }, .idle, some (.wrote pointer 0))

/-- The producer calls `mulle_pointerfifo_write`, the consumer `mulle_pointerfifo_read`. -/
def pointerfifoStep (size : Nat) (thread : PointerfifoThread) (p : Pointerfifo)
    (here : PointerfifoState) :
    PointerfifoMove → Option PointerfifoResult
  | .read => some (p, if thread = .consumer ∧ here = .idle then .readCount else here, none)
  | .write pointer =>
    if thread = .producer ∧ here = .idle then
      if pointer = 0 then some (p, .idle, some (.wrote pointer (-2)))
        else some (p, .writeCount pointer, none)
    else some (p, here, none)
  | .proceed => some (pointerfifoProceed size p here)

abbrev PointerfifoConfig : Type := Config Pointerfifo PointerfifoThread PointerfifoState

def pointerfifoInit (storage : Nat → Pointer) : PointerfifoConfig :=
  ⟨⟨0, 0, 0, storage⟩, fun _ => .idle⟩

end Steps

section History

def PointerfifoEvent.written : PointerfifoEvent → Option Pointer
  | .wrote pointer code => if code = 0 then some pointer else none
  | .read _ => none

def PointerfifoEvent.received : PointerfifoEvent → Option Pointer
  | .read pointer => if pointer = 0 then none else some pointer
  | .wrote _ _ => none

def fifoWritten (events : List (Option PointerfifoEvent)) : List Pointer :=
  events.filterMap fun event => event.bind PointerfifoEvent.written

def fifoReceived (events : List (Option PointerfifoEvent)) : List Pointer :=
  events.filterMap fun event => event.bind PointerfifoEvent.received

def fifoUnread (events : List (Option PointerfifoEvent)) : List Pointer :=
  (fifoWritten events).drop (fifoReceived events).length

end History

section Invariant

variable {size : Nat} {received unread : List Pointer} {p : Pointerfifo} {here : PointerfifoState}

inductive FifoDoes (size : Nat) (received unread : List Pointer) :
    Option PointerfifoEvent → List Pointer → List Pointer → Prop where
  | works : FifoDoes size received unread none received unread
  | refuses {pointer : Pointer} :
      FifoDoes size received unread (some (.wrote pointer (-2))) received unread
  | isFull {pointer : Pointer} (full : unread.length = size) :
      FifoDoes size received unread (some (.wrote pointer (-1))) received unread
  | puts {pointer : Pointer} :
      FifoDoes size received unread (some (.wrote pointer 0)) received (unread ++ [pointer])
  | isEmpty (none : unread = []) : FifoDoes size received unread (some (.read 0)) received unread
  | takes {pointer : Pointer} {more : List Pointer} (nonnull : pointer ≠ 0)
      (first : unread = pointer :: more) :
      FifoDoes size received unread (some (.read pointer)) (received ++ [pointer]) more

structure FifoWords (size : Nat) (received unread : List Pointer) (p : Pointerfifo) : Prop where
  ring : InRing size received.length p.storage unread
  count : p.n = unread.length
  nonnull : ∀ pointer ∈ unread, pointer ≠ 0

def ConsumerAt (size : Nat) (received unread : List Pointer) (read : Nat) : PointerfifoState → Prop
  | .idle | .readCount => read = received.length % size
  | .readIndex => read = received.length % size ∧ unread ≠ []
  | .readSlot i => read = received.length % size ∧ unread ≠ [] ∧ i = received.length % size
  | .readCursor pointer => read = received.length % size ∧ unread.head? = some pointer
  | .readAdvance pointer i => i = received.length % size ∧ unread.head? = some pointer
  | .readDecrement pointer => read = (received.length + 1) % size ∧ unread.head? = some pointer
  | _ => False

def ProducerAt (size count waiting write : Nat) (storage : Nat → Pointer) : PointerfifoState → Prop
  | .idle => write = count % size
  | .writeCount pointer => pointer ≠ 0 ∧ write = count % size
  | .writeIndex pointer => pointer ≠ 0 ∧ write = count % size ∧ waiting < size
  | .writeSlot pointer i => pointer ≠ 0 ∧ write = count % size ∧ waiting < size ∧ i = count % size
  | .writeCursor pointer =>
    pointer ≠ 0 ∧ write = count % size ∧ waiting < size ∧ storage (count % size) = pointer
  | .writeAdvance pointer i =>
    pointer ≠ 0 ∧ i = count % size ∧ waiting < size ∧ storage (count % size) = pointer
  | .writeIncrement pointer =>
    pointer ≠ 0 ∧ write = (count + 1) % size ∧ waiting < size ∧ storage (count % size) = pointer
  | _ => False

theorem nextIndex_eq (two : 2 ≤ size) (small : size < 2 ^ 32) (count : Nat) :
    nextIndex size (count % size) = (count + 1) % size := by
  have inside : count % size < size := Nat.mod_lt _ (by omega)
  have narrow : (count % size + 1) % 2 ^ 32 = count % size + 1 := Nat.mod_eq_of_lt (by omega)
  rw [nextIndex, narrow, Nat.mod_add_mod]

theorem ConsumerAt.append (held : ConsumerAt size received unread p.read here) (pointer : Pointer) :
    ConsumerAt size received (unread ++ [pointer]) p.read here := by
  have nonempty : unread ≠ [] → unread ++ [pointer] ≠ [] := by simp
  have first : ∀ other, unread.head? = some other → (unread ++ [pointer]).head? = some other := by
    intro other found
    rw [List.head?_append, found]
    rfl
  cases here with
  | readIndex => exact ⟨held.1, nonempty held.2⟩
  | readSlot i => exact ⟨held.1, nonempty held.2.1, held.2.2⟩
  | readCursor => exact ⟨held.1, first _ held.2⟩
  | readAdvance => exact ⟨held.1, first _ held.2⟩
  | readDecrement => exact ⟨held.1, first _ held.2⟩
  | _ => exact held

theorem ProducerAt.fewer {count waiting fewer : Nat}
    (held : ProducerAt size count waiting p.write p.storage here) (less : fewer ≤ waiting) :
    ProducerAt size count fewer p.write p.storage here := by
  have room : waiting < size → fewer < size := Nat.lt_of_le_of_lt less
  cases here with
  | writeIndex => exact ⟨held.1, held.2.1, room held.2.2⟩
  | writeSlot => exact ⟨held.1, held.2.1, room held.2.2.1, held.2.2.2⟩
  | writeCursor => exact ⟨held.1, held.2.1, room held.2.2.1, held.2.2.2⟩
  | writeAdvance => exact ⟨held.1, held.2.1, room held.2.2.1, held.2.2.2⟩
  | writeIncrement => exact ⟨held.1, held.2.1, room held.2.2.1, held.2.2.2⟩
  | _ => exact held

structure ProducerKeeps (size : Nat) (received unread : List Pointer) (p : Pointerfifo)
    (result : PointerfifoResult) (after : List Pointer) : Prop where
  does : FifoDoes size received unread result.2.2 received after
  words : FifoWords size received after result.1
  inside : ProducerAt size (received.length + after.length) after.length result.1.write
    result.1.storage result.2.1
  read : result.1.read = p.read
  grows : after = unread ∨ ∃ pointer, after = unread ++ [pointer]

theorem producer_proceed (two : 2 ≤ size) (small : size < 2 ^ 32)
    (words : FifoWords size received unread p)
    (held : ProducerAt size (received.length + unread.length) unread.length p.write p.storage here) :
    ∃ after, ProducerKeeps size received unread p (pointerfifoProceed size p here) after := by
  cases here with
  | idle => exact ⟨unread, .works, words, held, rfl, Or.inl rfl⟩
  | writeCount pointer =>
    obtain ⟨nonnull, cursor⟩ := held
    have count : pointerfifoGetCount p = unread.length := by
      have fits := words.ring.fits
      rw [pointerfifoGetCount, words.count, Nat.mod_eq_of_lt (by omega)]
    refine ⟨unread, ?_⟩
    rw [pointerfifoProceed, count]
    split
    next full => exact ⟨.isFull full, words, cursor, rfl, Or.inl rfl⟩
    next room =>
      exact ⟨.works, words, ⟨nonnull, cursor, Nat.lt_of_le_of_ne words.ring.fits room⟩,
        rfl, Or.inl rfl⟩
  | writeIndex pointer =>
    obtain ⟨nonnull, cursor, room⟩ := held
    exact ⟨unread, .works, words, ⟨nonnull, cursor, room, cursor⟩, rfl, Or.inl rfl⟩
  | writeSlot pointer i =>
    obtain ⟨nonnull, cursor, room, rfl⟩ := held
    refine ⟨unread, .works, ⟨words.ring.write room pointer, words.count, words.nonnull⟩, ?_,
      rfl, Or.inl rfl⟩
    exact ⟨nonnull, cursor, room, Function.update_self ..⟩
  | writeCursor pointer =>
    obtain ⟨nonnull, cursor, room, stored⟩ := held
    exact ⟨unread, .works, words, ⟨nonnull, cursor, room, stored⟩, rfl, Or.inl rfl⟩
  | writeAdvance pointer i =>
    obtain ⟨nonnull, rfl, room, stored⟩ := held
    refine ⟨unread, .works, ⟨words.ring, words.count, words.nonnull⟩, ?_, rfl, Or.inl rfl⟩
    exact ⟨nonnull, nextIndex_eq two small _, room, stored⟩
  | writeIncrement pointer =>
    obtain ⟨nonnull, cursor, room, stored⟩ := held
    have sized : (unread ++ [pointer]).length = unread.length + 1 := List.length_append
    refine ⟨unread ++ [pointer], .puts, ⟨words.ring.push room stored, ?_, ?_⟩, ?_, rfl,
      Or.inr ⟨pointer, rfl⟩⟩
    · rw [pointerfifoProceed, words.count, sized, Nat.mod_eq_of_lt (by omega)]
    · exact List.forall_mem_append.mpr ⟨words.nonnull, by simpa using nonnull⟩
    · rw [sized]
      exact cursor
  | _ => exact absurd held id

structure ConsumerKeeps (size : Nat) (received unread : List Pointer) (p : Pointerfifo)
    (result : PointerfifoResult) (taken after : List Pointer) : Prop where
  does : FifoDoes size received unread result.2.2 taken after
  words : FifoWords size taken after result.1
  inside : ConsumerAt size taken after result.1.read result.2.1
  write : result.1.write = p.write ∧ result.1.storage = p.storage
  shrinks : taken.length + after.length = received.length + unread.length ∧
    after.length ≤ unread.length

theorem consumer_proceed (two : 2 ≤ size) (small : size < 2 ^ 32)
    (words : FifoWords size received unread p) (held : ConsumerAt size received unread p.read here) :
    ∃ taken after, ConsumerKeeps size received unread p (pointerfifoProceed size p here)
      taken after := by
  have fits := words.ring.fits
  cases here with
  | idle => exact ⟨received, unread, .works, words, held, ⟨rfl, rfl⟩, rfl, le_refl _⟩
  | readCount =>
    have count : pointerfifoGetCount p = unread.length := by
      rw [pointerfifoGetCount, words.count, Nat.mod_eq_of_lt (by omega)]
    refine ⟨received, unread, ?_⟩
    rw [pointerfifoProceed, count]
    split
    next none =>
      exact ⟨.isEmpty (List.eq_nil_of_length_eq_zero none), words, held, ⟨rfl, rfl⟩, rfl, le_refl _⟩
    next some =>
      exact ⟨.works, words, ⟨held, List.ne_nil_of_length_pos (Nat.pos_of_ne_zero some)⟩, ⟨rfl, rfl⟩,
        rfl, le_refl _⟩
  | readIndex =>
    exact ⟨received, unread, .works, words, ⟨held.1, held.2, held.1⟩, ⟨rfl, rfl⟩, rfl, le_refl _⟩
  | readSlot i =>
    obtain ⟨cursor, nonempty, rfl⟩ := held
    refine ⟨received, unread, .works, words, ⟨cursor, ?_⟩, ⟨rfl, rfl⟩, rfl, le_refl _⟩
    cases unread with
    | nil => exact absurd rfl nonempty
    | cons pointer more => rw [List.head?_cons, words.ring.first]
  | readCursor pointer =>
    exact ⟨received, unread, .works, words, ⟨held.1, held.2⟩, ⟨rfl, rfl⟩, rfl, le_refl _⟩
  | readAdvance pointer i =>
    obtain ⟨rfl, first⟩ := held
    refine ⟨received, unread, .works, ⟨words.ring, words.count, words.nonnull⟩, ?_, ⟨rfl, rfl⟩,
      rfl, le_refl _⟩
    exact ⟨nextIndex_eq two small _, first⟩
  | readDecrement pointer =>
    obtain ⟨cursor, first⟩ := held
    cases unread with
    | nil => exact nomatch first
    | cons other more =>
      obtain rfl : other = pointer := Option.some.inj first
      have nonnull := words.nonnull other List.mem_cons_self
      have sized : (received ++ [other]).length = received.length + 1 := List.length_append
      have fewer : (p.n + (2 ^ 64 - 1)) % 2 ^ 64 = more.length := by
        rw [List.length_cons] at fits
        rw [words.count, List.length_cons]
        omega
      rw [pointerfifoProceed, fewer]
      refine ⟨received ++ [other], more, .takes nonnull rfl, ⟨?_, rfl, ?_⟩, ?_, ⟨rfl, rfl⟩, ?_, ?_⟩
      · rw [sized]
        exact words.ring.pop
      · exact fun pointer member => words.nonnull pointer (List.mem_cons_of_mem other member)
      · rw [← sized] at cursor
        exact cursor
      · rw [sized, List.length_cons]
        omega
      · exact Nat.le_succ _
  | _ => exact absurd held id

end Invariant

section Runs

variable {size : Nat} {received unread : List Pointer} {config : PointerfifoConfig}
variable {events : List (Option PointerfifoEvent)}

structure PointerfifoHolds (size : Nat) (received unread : List Pointer)
    (config : PointerfifoConfig) : Prop where
  words : FifoWords size received unread config.shared
  producer : ProducerAt size (received.length + unread.length) unread.length config.shared.write
    config.shared.storage (config.locals .producer)
  consumer : ConsumerAt size received unread config.shared.read (config.locals .consumer)

theorem producer_step (two : 2 ≤ size) (small : size < 2 ^ 32)
    (holds : PointerfifoHolds size received unread config) (move : PointerfifoMove) : ∃ result after,
      pointerfifoStep size .producer config.shared (config.locals .producer) move = some result ∧
        ProducerKeeps size received unread config.shared result after := by
  obtain ⟨words, producer, -⟩ := holds
  cases move with
  | read => exact ⟨_, unread, rfl, .works, words, by simpa using producer, rfl, Or.inl rfl⟩
  | write pointer =>
    rw [pointerfifoStep]
    by_cases idle : config.locals .producer = .idle
    · rw [idle] at producer
      rw [if_pos ⟨rfl, idle⟩]
      by_cases null : pointer = 0
      · rw [if_pos null]
        exact ⟨_, unread, rfl, .refuses, words, producer, rfl, Or.inl rfl⟩
      · rw [if_neg null]
        exact ⟨_, unread, rfl, .works, words, ⟨null, producer⟩, rfl, Or.inl rfl⟩
    · rw [if_neg (fun both => idle both.2)]
      exact ⟨_, unread, rfl, .works, words, producer, rfl, Or.inl rfl⟩
  | proceed =>
    obtain ⟨after, keeps⟩ := producer_proceed two small words producer
    exact ⟨_, after, rfl, keeps⟩

theorem consumer_step (two : 2 ≤ size) (small : size < 2 ^ 32)
    (holds : PointerfifoHolds size received unread config) (move : PointerfifoMove) :
    ∃ result taken after,
      pointerfifoStep size .consumer config.shared (config.locals .consumer) move = some result ∧
        ConsumerKeeps size received unread config.shared result taken after := by
  obtain ⟨words, -, consumer⟩ := holds
  cases move with
  | read =>
    refine ⟨_, received, unread, rfl, .works, words, ?_, ⟨rfl, rfl⟩, rfl, le_refl _⟩
    split
    next both =>
      rw [both.2] at consumer
      exact consumer
    next => exact consumer
  | write pointer =>
    rw [pointerfifoStep, if_neg (fun both => nomatch both.1)]
    exact ⟨_, received, unread, rfl, .works, words, consumer, ⟨rfl, rfl⟩, rfl, le_refl _⟩
  | proceed =>
    obtain ⟨taken, after, keeps⟩ := consumer_proceed two small words consumer
    exact ⟨_, taken, after, rfl, keeps⟩

/-- Every access of either thread is right for a queue that is read and written in order. -/
theorem PointerfifoHolds.step (two : 2 ≤ size) (small : size < 2 ^ 32)
    (holds : PointerfifoHolds size received unread config)
    (move : PointerfifoThread × PointerfifoMove) :
    ∃ after event taken waiting, interleave (pointerfifoStep size) config move = some (after, event) ∧
      FifoDoes size received unread event taken waiting ∧ PointerfifoHolds size taken waiting after ∧
      match move.1 with
      | .producer => unread <+: waiting
      | .consumer => waiting.length ≤ unread.length := by
  obtain ⟨thread, move⟩ := move
  cases thread with
  | producer =>
    obtain ⟨⟨shared, here, event⟩, waiting, stepped, keeps⟩ := producer_step two small holds move
    refine ⟨_, event, received, waiting, interleave_some stepped, keeps.does, ⟨keeps.words, ?_, ?_⟩,
      ?_⟩
    · dsimp only
      rw [Function.update_self]
      exact keeps.inside
    · have unmoved : shared.read = config.shared.read := keeps.read
      have other : PointerfifoThread.consumer ≠ .producer := by decide
      dsimp only
      rw [Function.update_of_ne other, unmoved]
      rcases keeps.grows with rfl | ⟨pointer, rfl⟩
      · exact holds.consumer
      · exact holds.consumer.append pointer
    · rcases keeps.grows with rfl | ⟨pointer, rfl⟩
      · exact List.prefix_rfl
      · exact List.prefix_append _ _
  | consumer =>
    obtain ⟨⟨shared, here, event⟩, taken, waiting, stepped, keeps⟩ :=
      consumer_step two small holds move
    refine ⟨_, event, taken, waiting, interleave_some stepped, keeps.does, ⟨keeps.words, ?_, ?_⟩,
      keeps.shrinks.2⟩
    · obtain ⟨unmoved, same⟩ : shared.write = config.shared.write ∧
        shared.storage = config.shared.storage := keeps.write
      have other : PointerfifoThread.producer ≠ .consumer := by decide
      dsimp only
      rw [Function.update_of_ne other, keeps.shrinks.1, unmoved, same]
      exact holds.producer.fewer keeps.shrinks.2
    · dsimp only
      rw [Function.update_self]
      exact keeps.inside

theorem pointerfifoInit_holds (size : Nat) (storage : Nat → Pointer) :
    PointerfifoHolds size [] [] (pointerfifoInit storage) := by
  refine ⟨⟨inRing_nil _ _ _, rfl, by simp⟩, ?_, ?_⟩
  · simp [ProducerAt, pointerfifoInit]
  · simp [ConsumerAt, pointerfifoInit]

structure FifoHistory (events : List (Option PointerfifoEvent)) (received unread : List Pointer) :
    Prop where
  receives : fifoReceived events = received
  writes : fifoWritten events = received ++ unread

theorem FifoHistory.waiting (history : FifoHistory events received unread) :
    fifoUnread events = unread := by
  rw [fifoUnread, history.receives, history.writes, List.drop_left]

theorem FifoHistory.does (history : FifoHistory events received unread)
    {event : Option PointerfifoEvent} {taken waiting : List Pointer}
    (does : FifoDoes size received unread event taken waiting) :
    FifoHistory (events ++ [event]) taken waiting := by
  obtain ⟨gotten, written⟩ := history
  have receives : fifoReceived (events ++ [event]) = received ++ fifoReceived [event] := by
    rw [← gotten]
    exact List.filterMap_append ..
  have writes : fifoWritten (events ++ [event]) = received ++ unread ++ fifoWritten [event] := by
    rw [← written]
    exact List.filterMap_append ..
  constructor
  · rw [receives]
    cases does with
    | takes nonnull first => simp [fifoReceived, PointerfifoEvent.received, nonnull]
    | _ => simp [fifoReceived, PointerfifoEvent.received]
  · rw [writes]
    cases does with
    | takes nonnull first => simp [fifoWritten, PointerfifoEvent.written, first]
    | _ => simp [fifoWritten, PointerfifoEvent.written]

structure IsBoundedFifo (size : Nat) (events : List (Option PointerfifoEvent))
    (config : PointerfifoConfig) : Prop where
  inOrder : fifoWritten events = fifoReceived events ++ fifoUnread events
  bounded : (fifoUnread events).length ≤ size
  /-- An unread pointer is in its slot. -/
  stored : ∀ j pointer, (fifoUnread events)[j]? = some pointer →
    config.shared.storage (((fifoReceived events).length + j) % size) = pointer
  /-- The slot that is written to has no unread pointer. -/
  untouched : ∀ pointer i, config.locals .producer = .writeSlot pointer i →
    ∀ j < (fifoUnread events).length, i ≠ ((fifoReceived events).length + j) % size
  isFull : ∀ move after pointer,
    interleave (pointerfifoStep size) config move = some (after, some (.wrote pointer (-1))) →
    (fifoUnread events).length = size
  isEmpty : ∀ move after, interleave (pointerfifoStep size) config move =
    some (after, some (.read 0)) → fifoUnread events = []

theorem PointerfifoHolds.isBoundedFifo (two : 2 ≤ size) (small : size < 2 ^ 32)
    (holds : PointerfifoHolds size received unread config)
    (history : FifoHistory events received unread) : IsBoundedFifo size events config := by
  have does : ∀ move after event, interleave (pointerfifoStep size) config move =
    some (after, event) →
      ∃ taken waiting, FifoDoes size received unread event taken waiting := by
    intro move after event stepped
    obtain ⟨_, _, taken, waiting, moved, does, _⟩ := holds.step two small move
    obtain ⟨-, rfl⟩ := Prod.mk.inj (Option.some.inj (moved.symm.trans stepped))
    exact ⟨taken, waiting, does⟩
  constructor
  · rw [history.waiting, history.receives, history.writes]
  · rw [history.waiting]
    exact holds.words.ring.fits
  · rw [history.waiting, history.receives]
    exact holds.words.ring.stored
  · rw [history.waiting, history.receives]
    intro pointer i state j inside
    have producer := holds.producer
    rw [state] at producer
    obtain ⟨-, -, room, rfl⟩ := producer
    exact ringBehind_ne received.length room inside
  · intro move after pointer stepped
    obtain ⟨_, _, does⟩ := does move after _ stepped
    rw [history.waiting]
    cases does with
    | isFull full => exact full
  · intro move after stepped
    obtain ⟨_, _, does⟩ := does move after _ stepped
    rw [history.waiting]
    cases does with
    | isEmpty none => exact none
    | takes nonnull => exact absurd rfl nonnull

end Runs

end MulleCore
