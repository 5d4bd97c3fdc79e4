import MulleCore.Fifo.Pointerfifo
import MulleCore.Library.Calls

/-!
The calls of `mulle_pointerfifo`: what they return, and that they do return.
-/

namespace MulleCore

open Library

section Calls

variable {size : Nat} {thread : PointerfifoThread} {config : PointerfifoConfig}
  {called : PointerfifoMove}
variable {here : PointerfifoState}

def PointerfifoState.call : PointerfifoState → Option PointerfifoMove
  | .idle => none
  | .readCount | .readIndex | .readSlot _ | .readCursor _ | .readAdvance _ _ | .readDecrement _ =>
    some .read
  | .writeCount pointer | .writeIndex pointer | .writeSlot pointer _ | .writeCursor pointer
  | .writeAdvance pointer _ | .writeIncrement pointer => some (.write pointer)

/-- How many accesses may follow the next one. -/
def PointerfifoState.left : PointerfifoState → Nat
  | .readCount | .writeCount _ => 5
  | .readIndex | .writeIndex _ => 4
  | .readSlot _ | .writeSlot _ _ => 3
  | .readCursor _ | .writeCursor _ => 2
  | .readAdvance _ _ | .writeAdvance _ _ => 1
  | .idle | .readDecrement _ | .writeIncrement _ => 0

def PointerfifoEvent.Answers (called : PointerfifoMove) : PointerfifoEvent → Prop
  | .read _ => called = .read
  | .wrote pointer code => called = .write pointer ∧ (code = 0 ∨ code = -1)

theorem pointerfifoProceed_progress (size : Nat) (p : Pointerfifo)
    (inside : here.call = some called) :
    (∃ event, (pointerfifoProceed size p here).2 = (.idle, some event) ∧ event.Answers called) ∨
      (pointerfifoProceed size p here).2.2 = none ∧
      (pointerfifoProceed size p here).2.1.call = some called ∧
        (pointerfifoProceed size p here).2.1.left < here.left := by
  cases here with
  | idle => exact nomatch inside
  | readCount =>
    rw [pointerfifoProceed]
    split
    · exact .inl ⟨_, rfl, (Option.some.inj inside).symm⟩
    · exact .inr ⟨rfl, inside, Nat.lt_succ_self _⟩
  | writeCount pointer =>
    rw [pointerfifoProceed]
    split
    · exact .inl ⟨_, rfl, (Option.some.inj inside).symm, .inr rfl⟩
    · exact .inr ⟨rfl, inside, Nat.lt_succ_self _⟩
  | readDecrement pointer => exact .inl ⟨_, rfl, (Option.some.inj inside).symm⟩
  | writeIncrement pointer => exact .inl ⟨_, rfl, (Option.some.inj inside).symm, .inl rfl⟩
  | readIndex | readSlot | readCursor | readAdvance | writeIndex | writeSlot | writeCursor
  | writeAdvance => exact .inr ⟨rfl, inside, Nat.lt_succ_self _⟩

/-- A call that has begun does not take another one. -/
theorem pointerfifoStep_inside (p : Pointerfifo) (inside : here.call = some called)
    {move : PointerfifoMove} (other : move ≠ .proceed) :
    pointerfifoStep size thread p here move = some (p, here, none) := by
  have busy : here ≠ .idle := by
    rintro rfl
    exact nomatch inside
  cases move with
  | read => rw [pointerfifoStep, if_neg fun both => busy both.2]
  | write pointer => rw [pointerfifoStep, if_neg fun both => busy both.2]
  | proceed => exact absurd rfl other

theorem pointerfifo_served :
    CallsServed (pointerfifoStep size) .idle .proceed PointerfifoState.call
      (fun _ => PointerfifoEvent.Answers)
      fun thread move event => thread = .producer ∧ move = .write 0 ∧ event = .wrote 0 (-2) where
  resting := rfl
  inside {thread p here called} inside := by
    obtain ⟨report, returned, answers⟩ | ⟨silent, same, -⟩ :=
      pointerfifoProceed_progress size p inside
    · have result : pointerfifoStep size thread p here .proceed =
          some ((pointerfifoProceed size p here).1, .idle, some report) := by
        rw [pointerfifoStep, ← returned]
      rw [result]
      exact served_reports (.inl rfl) answers
    · have result : pointerfifoStep size thread p here .proceed =
          some ((pointerfifoProceed size p here).1, (pointerfifoProceed size p here).2.1, none) := by
        rw [pointerfifoStep, ← silent]
      rw [result]
      exact served_silent same
  outside {thread p here} outside := by
    cases here with
    | idle => rfl
    | _ => cases outside
  begins := by
    intro thread p here move after there event notProceed stepped
    cases move with
    | proceed => exact absurd rfl notProceed
    | read =>
      cases stepped
      split
      · rename_i both
        refine .inr ⟨both.2, .inr rfl, ?_⟩
        rintro _ ⟨⟩
      · exact .inl ⟨rfl, rfl⟩
    | write pointer =>
      rw [pointerfifoStep] at stepped
      split at stepped
      · rename_i both
        refine .inr ⟨both.2, ?_⟩
        split at stepped
        · rename_i null
          cases stepped
          refine ⟨.inl rfl, ?_⟩
          rintro _ ⟨⟩
          exact ⟨both.1, by rw [null], by rw [null]⟩
        · cases stepped
          refine ⟨.inr rfl, ?_⟩
          rintro _ ⟨⟩
      · cases stepped
        exact .inl ⟨rfl, rfl⟩

end Calls

section Progress

variable {size : Nat} {received unread : List Pointer} {config : PointerfifoConfig}
variable {thread : PointerfifoThread} {called : PointerfifoMove} {pointer : Pointer}

def InCall (size : Nat) (thread : PointerfifoThread) (called : PointerfifoMove)
    (waits : List Pointer → Prop) (bound : Nat) (config : PointerfifoConfig) : Prop :=
  (config.locals thread).call = some called ∧ (config.locals thread).left ≤ bound ∧
    ∃ received unread, PointerfifoHolds size received unread config ∧ waits unread

/-- What is true of the unread pointers whatever the other thread does, decides what the call
returns. -/
theorem inCall_phases (two : 2 ≤ size) (small : size < 2 ^ 32)
    {waits : List Pointer → Prop} {expected : PointerfifoEvent → Prop}
    (grows : thread = .consumer → ∀ unread waiting, unread <+: waiting → waits unread → waits waiting)
    (shrinks : thread = .producer → ∀ unread waiting : List Pointer, waiting.length ≤ unread.length →
      waits unread → waits waiting)
    (answers : ∀ received unread event taken waiting,
      FifoDoes size received unread (some event) taken waiting → event.Answers called → waits unread →
      expected event) :
    Phases (pointerfifoStep size) .proceed thread expected (InCall size thread called waits) where
  own {bound config next event} begins stepped := by
    obtain ⟨inside, near, received, unread, holds, waiting⟩ := begins
    obtain ⟨there, proceeded, after⟩ := interleave_eq_some stepped
    obtain ⟨_, _, taken, rest, moved, does, nextHolds, -⟩ := holds.step two small (thread, .proceed)
    obtain ⟨rfl, rfl⟩ := Prod.mk.inj (Option.some.inj (stepped.symm.trans moved))
    have same := Option.some.inj proceeded
    obtain ⟨report, returned, answered⟩ | ⟨silent, served, closer⟩ :=
      pointerfifoProceed_progress size config.shared inside
    · rw [same] at returned
      obtain ⟨-, rfl⟩ := Prod.mk.inj returned
      exact .inl ⟨report, rfl, answers _ _ _ _ _ does answered waiting⟩
    · rw [same] at silent served closer
      dsimp only at silent served closer
      subst silent
      refine .inr ⟨rfl, there.left, by omega, ?_⟩
      have reached : next.locals thread = there := by rw [after, Function.update_self]
      cases does
      exact ⟨by rw [reached]; exact served, by rw [reached], received, unread, nextHolds, waiting⟩
  inside begins notOwn := pointerfifoStep_inside _ begins.1 notOwn
  other {bound config mover move next event} begins different stepped unmoved := by
    obtain ⟨inside, near, received, unread, holds, waiting⟩ := begins
    obtain ⟨_, _, taken, rest, moved, does, nextHolds, changes⟩ := holds.step two small (mover, move)
    obtain ⟨rfl, rfl⟩ := Prod.mk.inj (Option.some.inj (stepped.symm.trans moved))
    refine ⟨by rw [unmoved]; exact inside, by rw [unmoved]; exact near, taken, rest, nextHolds, ?_⟩
    cases thread with
    | producer =>
      obtain rfl : mover = .consumer := by cases mover <;> first | rfl | exact absurd rfl different
      exact shrinks rfl unread rest changes waiting
    | consumer =>
      obtain rfl : mover = .producer := by cases mover <;> first | rfl | exact absurd rfl different
      exact grows rfl unread rest changes waiting

theorem PointerfifoHolds.returns (two : 2 ≤ size) (small : size < 2 ^ 32)
    (holds : PointerfifoHolds size received unread config)
    (inside : (config.locals thread).call = some called) :
    ReportsWithin (pointerfifoStep size) .proceed config thread 5
      (PointerfifoEvent.Answers called) := by
  have near : (config.locals thread).left ≤ 5 := by
    cases config.locals thread <;> exact Nat.le_of_ble_eq_true rfl
  exact (inCall_phases two small (fun _ _ _ _ _ => trivial) (fun _ _ _ _ _ => trivial)
    fun _ _ _ _ _ _ answered _ => answered).reports ⟨inside, near, received, unread, holds, trivial⟩

theorem PointerfifoHolds.writes (two : 2 ≤ size) (small : size < 2 ^ 32)
    (holds : PointerfifoHolds size received unread config)
    (checks : config.locals .producer = .writeCount pointer) (room : unread.length < size) :
    ReportsWithin (pointerfifoStep size) .proceed config .producer 5 (· = .wrote pointer 0) := by
  have phases : Phases (pointerfifoStep size) .proceed .producer (· = .wrote pointer 0)
      (InCall size .producer (.write pointer) fun unread => unread.length < size) := by
    refine inCall_phases two small nofun (fun _ _ _ fewer room => Nat.lt_of_le_of_lt fewer room) ?_
    intro received unread event taken waiting does answered room
    cases does with
    | refuses => exact absurd answered.2 (by decide)
    | isFull full => exact absurd full (Nat.ne_of_lt room)
    | puts =>
      obtain ⟨rfl, -⟩ := PointerfifoMove.write.inj answered.1
      rfl
    | isEmpty | takes => exact nomatch answered
  exact phases.reports
    ⟨by rw [checks]; rfl, by rw [checks]; exact Nat.le_refl 5, received, unread, holds, room⟩

theorem PointerfifoHolds.reads (two : 2 ≤ size) (small : size < 2 ^ 32)
    (holds : PointerfifoHolds size received unread config)
    (checks : config.locals .consumer = .readCount) (oldest : unread.head? = some pointer) :
    ReportsWithin (pointerfifoStep size) .proceed config .consumer 5 (· = .read pointer) := by
  have phases : Phases (pointerfifoStep size) .proceed .consumer (· = .read pointer)
      (InCall size .consumer .read fun unread => unread.head? = some pointer) := by
    refine inCall_phases two small ?_ nofun ?_
    · rintro _ unread _ ⟨more, rfl⟩ oldest
      rw [List.head?_append, oldest]
      rfl
    · intro received unread event taken waiting does answered oldest
      cases does with
      | isEmpty none => exact nomatch none ▸ oldest
      | takes nonnull first =>
        rw [first] at oldest
        rw [Option.some.inj oldest]
      | refuses | isFull | puts => exact nomatch answered.1
  exact phases.reports
    ⟨by rw [checks]; rfl, by rw [checks]; exact Nat.le_refl 5, received, unread, holds, oldest⟩

/-- A call begins with its check and returns after at most five more accesses. If the check finds
room or a pointer, it writes or reads. -/
structure FifoCalls (size : Nat) (events : List (Option PointerfifoEvent))
    (config : PointerfifoConfig) : Prop where
  writeBegins : ∀ pointer, pointer ≠ 0 → config.locals .producer = .idle →
    interleave (pointerfifoStep size) config (.producer, .write pointer) =
      some (⟨config.shared, Function.update config.locals .producer (.writeCount pointer)⟩, none)
  readBegins : config.locals .consumer = .idle →
    interleave (pointerfifoStep size) config (.consumer, .read) =
      some (⟨config.shared, Function.update config.locals .consumer .readCount⟩, none)
  returns : ∀ thread called, (config.locals thread).call = some called →
    ReportsWithin (pointerfifoStep size) .proceed config thread 5 (PointerfifoEvent.Answers called)
  writes : ∀ pointer, config.locals .producer = .writeCount pointer →
    (fifoUnread events).length < size →
    ReportsWithin (pointerfifoStep size) .proceed config .producer 5 (· = .wrote pointer 0)
  reads : ∀ pointer, config.locals .consumer = .readCount → (fifoUnread events).head? = some pointer →
    ReportsWithin (pointerfifoStep size) .proceed config .consumer 5 (· = .read pointer)

theorem PointerfifoHolds.calls (two : 2 ≤ size) (small : size < 2 ^ 32)
    (holds : PointerfifoHolds size received unread config) {events : List (Option PointerfifoEvent)}
    (history : FifoHistory events received unread) : FifoCalls size events config where
  writeBegins pointer nonnull idle := by
    refine interleave_some ?_
    rw [pointerfifoStep, if_pos ⟨rfl, idle⟩, if_neg nonnull]
  readBegins idle := by
    refine interleave_some ?_
    rw [pointerfifoStep, if_pos ⟨rfl, idle⟩]
  returns _ _ inside := holds.returns two small inside
  writes _ checks room := holds.writes two small checks (by rwa [history.waiting] at room)
  reads _ checks oldest := holds.reads two small checks (by rwa [history.waiting] at oldest)

/-- A bounded queue, whatever the order of the steps, and what a call returns is about its own
pointer. -/
theorem pointerfifo_isBoundedFifo (two : 2 ≤ size) (small : size < 2 ^ 32) (storage : Nat → Pointer)
    (moves : List (PointerfifoThread × PointerfifoMove)) :
    ∃ config events, run (interleave (pointerfifoStep size)) (pointerfifoInit storage) moves =
      some (config, events) ∧
      IsBoundedFifo size events config ∧ FifoCalls size events config ∧
      ∀ (n : Nat) (event : PointerfifoEvent), events[n]? = some (some event) →
        moves[n]? = some (.producer, .write 0) ∧ event = .wrote 0 (-2) ∨
        ∃ thread called, CallOf (pointerfifoStep size) (pointerfifoInit storage) .idle moves
          thread n called ∧
          moves[n]? = some (thread, .proceed) ∧ event.Answers called := by
  have keeps : ∀ past (config : PointerfifoConfig) move,
      (∃ received unread, FifoHistory past received unread ∧ PointerfifoHolds size received
        unread config) →
      ∃ next event, interleave (pointerfifoStep size) config move = some (next, event) ∧
        ∃ received unread, FifoHistory (past ++ [event]) received unread ∧
          PointerfifoHolds size received unread next := by
    rintro past config move ⟨received, unread, history, holds⟩
    obtain ⟨next, event, taken, waiting, stepped, does, nextHolds, -⟩ := holds.step two small move
    exact ⟨next, event, stepped, taken, waiting, history.does does, nextHolds⟩
  obtain ⟨config, events, ran, received, unread, history, holds⟩ :=
    run_keeps keeps moves [] (pointerfifoInit storage) ⟨[], [], ⟨rfl, rfl⟩,
      pointerfifoInit_holds size storage⟩
  refine ⟨config, events, ran, holds.isBoundedFifo two small history, holds.calls two small history,
    ?_⟩
  intro n event answered
  rcases pointerfifo_served.answered (fun _ => rfl) ran answered with
    ⟨_, _, moved, rfl, rfl, same⟩ | called
  · exact .inl ⟨moved, same⟩
  · exact .inr called

theorem pointerfifo_isBoundedFifo_two : ∃ config events,
    run (interleave (pointerfifoStep 2)) (pointerfifoInit fun _ => 0)
      [(.producer, .write 7), (.producer, .proceed), (.consumer, .read), (.consumer, .proceed)] =
        some (config, events) ∧
      IsBoundedFifo 2 events config ∧ FifoCalls 2 events config := by
  obtain ⟨config, events, ran, bounded, calls, -⟩ :=
    @pointerfifo_isBoundedFifo 2 (by decide) (by decide) (fun _ => 0)
    [(.producer, .write 7), (.producer, .proceed), (.consumer, .read), (.consumer, .proceed)]
  exact ⟨config, events, ran, bounded, calls⟩

end Progress

end MulleCore
