import Mathlib.Data.Finset.Card
import Mathlib.Order.Interval.Finset.Nat
import MulleCore.Library.Calls
import MulleCore.Library.RelyGuarantee
import MulleCore.Multififo.Pointermultififo

/-!
When `read_barrier` finds nothing, and when `write` finds the queue full.
-/

namespace MulleCore

open Library

section Verdicts

variable {Thread : Type} {size : Nat} {placed : List Pointer}
variable {config : MultififoConfig Thread} {i : Nat} {fifo next : Pointermultififo}
  {there here : MultififoState} {event : MultififoEvent}

def NoneWritten (size : Nat) (config : MultififoConfig Thread) : Prop :=
  (∀ i < size, config.shared.storage i = 0 ∨ config.shared.storage i = notYet) ∧
    ∀ thread a pointer, config.locals thread ≠ .readAdvance a pointer ∧
      config.locals thread ≠ .readUndo a pointer

def Full (size : Nat) (config : MultififoConfig Thread) : Prop :=
  ∀ i < size, config.shared.storage i ≠ 0 ∧ config.shared.storage i ≠ notYet ∨
    ∃ thread pointer, (config.locals thread).claim size = some i ∧
      (config.locals thread).occupant = some pointer

/-- The step does not decide on the slot of an outdated counter, and not on one whose counter has
just come back to zero. -/
def DecidesCurrent (size : Nat) (config : MultififoConfig Thread) (move : Thread × MultififoMove) :
    Prop :=
  move.2 = .proceed →
    match config.locals move.1 with
    | .readSlot a => config.shared.storage (slotIndex size a) = 0 → config.shared.read % 2 ^ 64 = a
    | .writeClaim a _ =>
      config.shared.storage (slotIndex size a) ≠ 0 →
        config.shared.storage (slotIndex size a) ≠ notYet →
        config.shared.write % 2 ^ 64 = a ∧
          ¬ (2 ^ 32 ≤ config.shared.write ∧ config.shared.write % 2 ^ 32 < 2 ^ 32 % size)
    | _ => True

theorem slotIndex_lap {k write : Nat} (small : size < 2 ^ 32) (before : k < write)
    (same : slotIndex size k = slotIndex size write)
    (safe : ¬ (2 ^ 32 ≤ write ∧ write % 2 ^ 32 < 2 ^ 32 % size)) : k + size ≤ write := by
  by_contra near
  have apart := @fifoPlace_ne size (k % 2 ^ 32) (write - k) (Nat.mod_lt _ (by decide)) (by omega)
    (by omega) (by omega)
  rw [Nat.mod_add_mod, Nat.add_sub_cancel' (Nat.le_of_lt before)] at apart
  refine apart ?_ same
  rintro ⟨wrapped, far⟩
  refine safe ⟨?_, wrapped⟩
  by_contra unwrapped
  rw [Nat.mod_eq_of_lt (by omega)] at wrapped
  omega

section

variable (holds : MultififoHolds size placed config)
include holds

theorem MultififoHolds.noneWritten
    (empty : config.shared.storage (slotIndex size config.shared.read) = 0) :
    NoneWritten size config := by
  have vacant := holds.stored _ (by rw [empty]; decide)
  rw [empty] at vacant
  have none : ∀ i pointer, ¬ Queued size placed config.shared i (some pointer) := by
    rintro i pointer ⟨k, begins, inside, _⟩
    exact vacant config.shared.read (Nat.le_refl _) (Nat.lt_of_le_of_lt begins inside) rfl
  constructor
  · intro i _
    by_cases marked : config.shared.storage i = notYet
    · exact Or.inr marked
    · have queued := holds.stored i marked
      by_cases null : config.shared.storage i = 0
      · exact Or.inl null
      · rw [content_proper null] at queued
        exact absurd queued (none i _)
  · intro thread a pointer
    have queued := fun i claims => (holds.claims thread i claims).2
    constructor
    · intro state
      rw [state] at queued
      exact none _ _ (queued _ rfl)
    · intro state
      rw [state] at queued
      exact none _ _ (queued _ rfl)

theorem MultififoHolds.injective :
    Set.InjOn (slotIndex size) (Finset.Ico config.shared.read config.shared.write) := by
  intro k first l second same
  rw [Finset.coe_Ico, Set.mem_Ico] at first second
  rcases Nat.lt_trichotomy k l with before | equal | after
  · exact absurd same (holds.apart k l first.1 before second.2)
  · exact equal
  · exact absurd same.symm (holds.apart l k second.1 after first.2)

theorem MultififoHolds.covers
    (positive : 0 < size) (lap : config.shared.read + size ≤ config.shared.write)
    (inside : i < size) :
    ∃ k, config.shared.read ≤ k ∧ k < config.shared.write ∧ slotIndex size k = i := by
  have slots : (Finset.Ico config.shared.read config.shared.write).image (slotIndex size) ⊆
      Finset.range size := by
    intro slot member
    obtain ⟨k, _, rfl⟩ := Finset.mem_image.mp member
    exact Finset.mem_range.mpr (Nat.mod_lt _ positive)
  have all := Finset.eq_of_subset_of_card_le slots (by
    rw [Finset.card_image_of_injOn holds.injective, Nat.card_Ico, Finset.card_range]
    omega)
  have member : i ∈ (Finset.Ico config.shared.read config.shared.write).image (slotIndex size) := by
    rw [all]
    exact Finset.mem_range.mpr inside
  obtain ⟨k, window, slot⟩ := Finset.mem_image.mp member
  exact ⟨k, (Finset.mem_Ico.mp window).1, (Finset.mem_Ico.mp window).2, slot⟩

theorem MultififoHolds.full (positive : 0 < size) (small : size < 2 ^ 32)
    (nonnull : config.shared.storage (slotIndex size config.shared.write) ≠ 0)
    (notMarked : config.shared.storage (slotIndex size config.shared.write) ≠ notYet)
    (safe : ¬ (2 ^ 32 ≤ config.shared.write ∧ config.shared.write % 2 ^ 32 < 2 ^ 32 % size)) :
    Full size config := by
  have queued := holds.stored _ notMarked
  rw [content_proper nonnull] at queued
  obtain ⟨k, begins, before, same, _⟩ := queued
  have lap := slotIndex_lap small before same safe
  intro i inside
  obtain ⟨l, lower, upper, slot⟩ := holds.covers positive (by omega) inside
  by_cases marked : config.shared.storage i = notYet
  · obtain ⟨thread, claims⟩ := holds.claimed i marked
    have here := (holds.claims thread i claims).2
    cases occupant : (config.locals thread).occupant with
    | none =>
      rw [occupant] at here
      exact absurd slot (here l lower upper)
    | some pointer => exact Or.inr ⟨thread, pointer, claims, occupant⟩
  · left
    refine ⟨?_, marked⟩
    intro null
    have here := holds.stored i marked
    rw [null] at here
    exact here l lower upper slot

end

theorem replaceNotYet_event {pointer : Pointer} {state : MultififoState}
    {event result : Option MultififoEvent}
    (steps : replaceNotYet fifo i pointer state event = some (next, there, result)) :
    result = event := by
  rw [replaceNotYet] at steps
  split at steps
  next => exact (Prod.mk.inj (Prod.mk.inj (Option.some.inj steps)).2).2.symm
  next => exact nomatch steps

inductive MultififoReports (size : Nat) (fifo : Pointermultififo) :
    MultififoState → MultififoEvent → Prop where
  | empty {a : Nat} (null : fifo.storage (slotIndex size a) = 0) :
      MultififoReports size fifo (.readSlot a) (.returned (.pointer 0))
  | takes {a : Nat} {pointer : Pointer} :
      MultififoReports size fifo (.readAdvance a pointer) (.took pointer)
  | reads {a : Nat} {pointer : Pointer} :
      MultififoReports size fifo (.readClear a pointer) (.returned (.pointer pointer))
  | busy {a : Nat} {pointer : Pointer} (nonnull : fifo.storage (slotIndex size a) ≠ 0)
      (notMarked : fifo.storage (slotIndex size a) ≠ notYet) :
      MultififoReports size fifo (.writeClaim a pointer) (.returned (.wrote (some .EBUSY)))
  | places {a : Nat} {pointer : Pointer} :
      MultififoReports size fifo (.writeAdvance a pointer) (.placed pointer)
  | writes {a : Nat} {pointer : Pointer} :
      MultififoReports size fifo (.writeStore a pointer) (.wrote pointer)

theorem multififoProceed_reports
    (steps : multififoProceed size fifo here = some (next, there, some event)) :
    MultififoReports size fifo here event := by
  cases here with
  | idle => simp [multififoProceed] at steps
  | readCounter => simp [multififoProceed] at steps
  | readSlot a =>
    rw [multififoProceed] at steps
    split at steps
    next null =>
      obtain rfl : .returned (.pointer 0) = event := by
        simpa using congrArg (fun result => result.2.2) (Option.some.inj steps)
      exact .empty null
    next =>
      split at steps
      next => simp at steps
      next => simp at steps
  | readClaim a pointer =>
    rw [multififoProceed] at steps
    split at steps
    next => simp at steps
    next => simp at steps
  | readAdvance a pointer =>
    rw [multififoProceed] at steps
    split at steps
    next =>
      obtain rfl : .took pointer = event := by
        simpa using congrArg (fun result => result.2.2) (Option.some.inj steps)
      exact .takes
    next => simp at steps
  | readUndo a pointer => cases replaceNotYet_event steps
  | readClear a pointer =>
    obtain rfl := Option.some.inj (replaceNotYet_event steps)
    exact .reads
  | writeCounter pointer => simp [multififoProceed] at steps
  | writeClaim a pointer =>
    rw [multififoProceed] at steps
    split at steps
    next => simp at steps
    next nonnull =>
      split at steps
      next => simp at steps
      next notMarked =>
        obtain rfl : .returned (.wrote (some .EBUSY)) = event := by
          simpa using congrArg (fun result => result.2.2) (Option.some.inj steps)
        exact .busy nonnull notMarked
  | writeAdvance a pointer =>
    rw [multififoProceed] at steps
    split at steps
    next =>
      obtain rfl : .placed pointer = event := by
        simpa using congrArg (fun result => result.2.2) (Option.some.inj steps)
      exact .places
    next => simp at steps
  | writeUndo a pointer => cases replaceNotYet_event steps
  | writeStore a pointer =>
    obtain rfl := Option.some.inj (replaceNotYet_event steps)
    exact .writes

theorem multififoStep_reports {move : MultififoMove}
    (steps : multififoStep size fifo here move = some (next, there, some event)) :
    event = .returned (.wrote (some .EINVAL)) ∨ move = .proceed ∧
    MultififoReports size fifo here event := by
  cases move with
  | read => simp [multififoStep] at steps
  | write pointer =>
    left
    rw [multififoStep] at steps
    split at steps
    next => simp at steps
    next =>
      split at steps
      next => simpa using (congrArg (fun result => result.2.2) (Option.some.inj steps)).symm
      next => simp at steps
  | proceed => exact Or.inr ⟨rfl, multififoProceed_reports steps⟩

end Verdicts

section Calls

variable {Thread : Type} [DecidableEq Thread] {size : Nat} {placed : List Pointer}

theorem multififoRun_holds (size : Nat) (moves : List (Thread × MultififoMove)) :
    ∃ final answers placed, run (interleave fun _ => multififoStep size) (multififoInit Thread)
      moves =
      some (final, answers) ∧ MultififoHolds size placed final := by
  obtain ⟨final, answers, runs, placed, holds⟩ := @run_keeps _ _ _
    (interleave fun _ : Thread => multififoStep size) (fun _ config => ∃ placed, MultififoHolds size
      placed config) (by
      rintro past config move ⟨placed, holds⟩
      obtain ⟨after, event, steps, afterHolds⟩ := holds.step move
      exact ⟨after, event, steps, _, afterHolds⟩) moves [] (multififoInit Thread)
        ⟨[], multififoInit_holds⟩
  exact ⟨final, answers, placed, runs, holds⟩

theorem multififo_answer (moves : List (Thread × MultififoMove)) {final : MultififoConfig Thread}
    {answers : List (Option MultififoEvent)}
    (runs : run (interleave fun _ => multififoStep size) (multififoInit Thread) moves =
      some (final, answers)) {n : Nat}
    {event : MultififoEvent} (answered : answers[n]? = some (some event)) :
    ∃ thread move config placed, moves[n]? = some (thread, move) ∧
      visited (fun _ => multififoStep size) (multififoInit Thread) moves n = some config ∧
      MultififoHolds size placed config ∧ (event = .returned (.wrote (some .EINVAL)) ∨
        move = .proceed ∧ MultififoReports size config.shared (config.locals thread) event) := by
  obtain ⟨⟨thread, move⟩, config, after, found, before, steps⟩ := run_answered runs answered
  obtain ⟨other, otherAnswers, placed, otherRuns, holds⟩ := multififoRun_holds size (moves.take n)
  obtain ⟨rfl, _⟩ := Prod.mk.inj (Option.some.inj (before.symm.trans otherRuns))
  obtain ⟨here, stepped, _⟩ := interleave_eq_some steps
  exact ⟨thread, move, config, placed, found, by rw [visited, before, Option.map_some], holds,
    multififoStep_reports stepped⟩

/-- NULL and EBUSY are right in every run that does not decide on an outdated counter. -/
theorem multififo_verdicts (enough : 2 ≤ size) (small : size < 2 ^ 32)
    (moves : List (Thread × MultififoMove)) (current : ∀ n move config, moves[n]? = some move →
      visited (fun _ => multififoStep size) (multififoInit Thread) moves n = some config →
      DecidesCurrent size config move) :
    ∃ final answers, run (interleave fun _ => multififoStep size) (multififoInit Thread) moves =
      some (final, answers) ∧
      ∀ n thread move, moves[n]? = some (thread, move) →
        (answers[n]? = some (some (.returned (.pointer 0))) →
          DuringCall (fun _ => multififoStep size) (multififoInit Thread) .idle moves thread n
            (NoneWritten size)) ∧
        (answers[n]? = some (some (.returned (.wrote (some .EBUSY)))) →
          DuringCall (fun _ => multififoStep size) (multififoInit Thread) .idle moves thread n
            (Full size)) := by
  obtain ⟨final, answers, _, runs, _⟩ := multififoRun_holds size moves
  refine ⟨final, answers, runs, ?_⟩
  intro n thread move found
  constructor
  · intro answered
    obtain ⟨other, otherMove, config, placed, otherFound, visits, holds, reports⟩ :=
      multififo_answer moves runs answered
    obtain ⟨rfl, rfl⟩ := Prod.mk.inj (Option.some.inj (found.symm.trans otherFound))
    have decides := current n (thread, move) config found visits
    rcases reports with impossible | ⟨rfl, reports⟩
    · simp at impossible
    · have proper := holds.proper thread
      have state := decides rfl
      generalize here : config.locals thread = there at reports proper state
      cases reports with
      | empty null =>
        have counter := state null
        rw [← counter, slotIndex_mod] at null
        exact duringCall_last visits (by simp [here]) (holds.noneWritten null)
      | reads => exact absurd rfl proper.1
  · intro answered
    obtain ⟨other, otherMove, config, placed, otherFound, visits, holds, reports⟩ :=
      multififo_answer moves runs answered
    obtain ⟨rfl, rfl⟩ := Prod.mk.inj (Option.some.inj (found.symm.trans otherFound))
    have decides := current n (thread, move) config found visits
    rcases reports with impossible | ⟨rfl, reports⟩
    · simp at impossible
    · have state := decides rfl
      generalize here : config.locals thread = there at reports state
      cases reports with
      | busy nonnull notMarked =>
        obtain ⟨counter, safe⟩ := state nonnull notMarked
        rw [← counter, slotIndex_mod] at nonnull notMarked
        exact duringCall_last visits (by simp [here])
          (holds.full (by omega) small nonnull notMarked safe)

def emptyRead : List (Unit × MultififoMove) := [((), .read), ((), .proceed), ((), .proceed)]

theorem multififo_verdicts_empty :
    ∃ final answers, run (interleave fun _ => multififoStep 2) (multififoInit Unit) emptyRead =
      some (final, answers) ∧
      ∀ n thread move, emptyRead[n]? = some (thread, move) →
        (answers[n]? = some (some (.returned (.pointer 0))) →
          DuringCall (fun _ => multififoStep 2) (multififoInit Unit) .idle emptyRead thread n
            (NoneWritten 2)) ∧
        (answers[n]? = some (some (.returned (.wrote (some .EBUSY)))) →
          DuringCall (fun _ => multififoStep 2) (multififoInit Unit) .idle emptyRead thread n
            (Full 2)) := by
  refine multififo_verdicts (by decide) (by decide) emptyRead ?_
  intro n move config found visits
  rcases n with _ | _ | _ | n
  · obtain rfl := Option.some.inj found
    intro proceeds
    exact nomatch proceeds
  · obtain rfl := Option.some.inj found
    obtain rfl := Option.some.inj visits
    exact fun _ => trivial
  · obtain rfl := Option.some.inj found
    obtain rfl := Option.some.inj visits
    exact fun _ _ => rfl
  · simp [emptyRead] at found

def alone (thread : Bool) (move : MultififoMove) (steps : Nat) : List (Bool × MultififoMove) :=
  (thread, move) :: List.replicate steps (thread, .proceed)

def overtakenRead : List (Bool × MultififoMove) :=
  alone true (.write 8) 4 ++ alone true (.write 16) 4 ++ alone false .read 1 ++
    alone true .read 5 ++ [(false, .proceed)]

def overtakenWrite : List (Bool × MultififoMove) :=
  alone false (.write 8) 1 ++ alone true (.write 16) 4 ++ [(false, .proceed)]

theorem multififo_verdicts_overtaken :
    (∃ final answers, run (interleave fun _ => multififoStep 2) (multififoInit Bool) overtakenRead =
      some (final, answers) ∧
      overtakenRead[18]? = some (false, .proceed) ∧
      answers[18]? = some (some (.returned (.pointer 0))) ∧
      ¬ DuringCall (fun _ => multififoStep 2) (multififoInit Bool) .idle overtakenRead false 18
        (NoneWritten 2)) ∧
    ∃ final answers, run (interleave fun _ => multififoStep 2) (multififoInit Bool) overtakenWrite =
      some (final, answers) ∧
      overtakenWrite[7]? = some (false, .proceed) ∧
      answers[7]? = some (some (.returned (.wrote (some .EBUSY)))) ∧
      ¬ DuringCall (fun _ => multififoStep 2) (multififoInit Bool) .idle overtakenWrite false 7
        (Full 2) := by
  constructor
  · obtain ⟨final, answers, _, runs, _⟩ := multififoRun_holds 2 overtakenRead
    have reported : (run (interleave fun _ => multififoStep 2) (multififoInit Bool) overtakenRead).map
        (fun result => result.2[18]?) = some (some (some (.returned (.pointer 0)))) := by decide
    rw [runs] at reported
    refine ⟨final, answers, runs, rfl, Option.some.inj reported, ?_⟩
    rintro ⟨m, config, inside, visits, none, stays⟩
    have later : 10 < m := by
      by_contra early
      obtain ⟨between, here, busy⟩ := stays 10 (by omega) (by decide)
      have idle : (visited (fun _ => multififoStep 2) (multififoInit Bool) overtakenRead 10).map
          (fun config => config.locals false) = some .idle := by decide
      rw [here] at idle
      exact busy (Option.some.inj idle)
    have second : (visited (fun _ => multififoStep 2) (multififoInit Bool) overtakenRead m).map
        (fun config => config.shared.storage 1) = some 16 := by
      have all : ∀ m ≤ 18, 10 < m →
        (visited (fun _ => multififoStep 2) (multififoInit Bool) overtakenRead m).map
          (fun config => config.shared.storage 1) = some 16 := by decide
      exact all m inside later
    rw [visits] at second
    have stored : config.shared.storage 1 = 16 := Option.some.inj second
    have slot := none.1 1 (by decide)
    rw [stored] at slot
    exact absurd slot (by decide)
  · obtain ⟨final, answers, _, runs, _⟩ := multififoRun_holds 2 overtakenWrite
    have reported : (run (interleave fun _ => multififoStep 2) (multififoInit Bool)
      overtakenWrite).map
        (fun result => result.2[7]?) = some (some (some (.returned (.wrote (some .EBUSY))))) := by
          decide
    rw [runs] at reported
    refine ⟨final, answers, runs, rfl, Option.some.inj reported, ?_⟩
    rintro ⟨m, config, inside, visits, full, _⟩
    -- nobody touches the second slot
    have second : (visited (fun _ => multififoStep 2) (multififoInit Bool) overtakenWrite m).map
        (fun config => (config.shared.storage 1, (config.locals false).claim 2 == some 1,
          (config.locals true).claim 2 == some 1)) = some (0, false, false) := by
      have all : ∀ m ≤ 7, (visited (fun _ => multififoStep 2) (multififoInit Bool) overtakenWrite
        m).map
          (fun config => (config.shared.storage 1, (config.locals false).claim 2 == some 1,
            (config.locals true).claim 2 == some 1)) = some (0, false, false) := by decide
      exact all m inside
    rw [visits] at second
    have untouched := Option.some.inj second
    simp only [Prod.mk.injEq, beq_eq_false_iff_ne] at untouched
    obtain ⟨empty, notFirst, notOther⟩ := untouched
    rcases full 1 (by decide) with ⟨nonnull, _⟩ | ⟨thread, _, claims, _⟩
    · exact nonnull empty
    · cases thread with
      | false => exact notFirst claims
      | true => exact notOther claims

end Calls

/-!
The readers get what the writers have placed, in that order and every pointer once.
-/

section Queue

variable {Thread : Type} {size : Nat} {moves : List (Thread × MultififoMove)}
  {events : List (Option MultififoEvent)}
variable {fifo : Pointermultififo} {here : MultififoState} {next : Pointermultififo}
  {there : MultififoState} {event : Option MultififoEvent} {config : MultififoConfig Thread}

def MultififoState.taking : MultififoState → Option Pointer
  | .readClear _ pointer => some pointer
  | _ => none

def MultififoState.placing : MultififoState → Option Pointer
  | .writeStore _ pointer => some pointer
  | _ => none

def takenBy (move : Thread × MultififoMove) : Option MultififoEvent → Option (Thread × Pointer)
  | some (.took pointer) => some (move.1, pointer)
  | _ => none

def readBy (move : Thread × MultififoMove) : Option MultififoEvent → Option (Thread × Pointer)
  | some (.returned (.pointer pointer)) => if pointer = 0 then none else some (move.1, pointer)
  | _ => none

def placedBy (move : Thread × MultififoMove) : Option MultififoEvent → Option (Thread × Pointer)
  | some (.placed pointer) => some (move.1, pointer)
  | _ => none

def wroteBy (move : Thread × MultififoMove) : Option MultififoEvent → Option (Thread × Pointer)
  | some (.wrote pointer) => some (move.1, pointer)
  | _ => none

def doneIn {Item : Type}
    (does : Thread × MultififoMove → Option MultififoEvent → Option (Thread × Item))
    (moves : List (Thread × MultififoMove)) (events : List (Option MultififoEvent)) :
    List (Thread × Item) :=
  (moves.zip events).filterMap fun (move, event) => does move event

theorem doneIn_concat {Item : Type}
    {does : Thread × MultififoMove → Option MultififoEvent → Option (Thread × Item)}
    (length : moves.length = events.length) (move : Thread × MultififoMove)
    (event : Option MultififoEvent) :
    doneIn does (moves ++ [move]) (events ++ [event]) = doneIn does moves events ++
      (does move event).toList := by
  rw [doneIn, List.zip_append length, List.filterMap_append]
  cases found : does move event <;> simp [doneIn, found]

def MultififoState.call : MultififoState → Option MultififoMove
  | .idle => none
  | .readCounter | .readSlot _ | .readClaim _ _ | .readAdvance _ _ | .readUndo _ _
  | .readClear _ _ => some .read
  | .writeCounter pointer | .writeClaim _ pointer | .writeAdvance _ pointer | .writeUndo _ pointer
  | .writeStore _ pointer => some (.write pointer)

def MultififoEvent.Answers (called : MultififoMove) : MultififoEvent → Prop
  | .returned (.pointer _) | .took _ => called = .read
  | .returned (.wrote _) => ∃ pointer, called = .write pointer
  | .placed pointer | .wrote pointer => called = .write pointer

theorem MultififoReports.answers {event : MultififoEvent}
    (reports : MultififoReports size fifo here event) : ∃ called, here.call = some called ∧
    event.Answers called := by
  cases reports with
  | empty | takes | reads => exact ⟨.read, rfl, rfl⟩
  | @busy a pointer => exact ⟨.write pointer, rfl, pointer, rfl⟩
  | @places a pointer | @writes a pointer => exact ⟨.write pointer, rfl, rfl⟩

theorem multififoProceed_call
    (steps : multififoProceed size fifo here = some (next, there, event)) :
    there.call = none ∨ there.call = here.call := by
  cases here with
  | readSlot a =>
    rw [multififoProceed] at steps
    split at steps
    · cases steps
      exact .inl rfl
    · split at steps <;> cases steps <;> exact .inr rfl
  | writeClaim a pointer =>
    rw [multififoProceed] at steps
    split at steps
    · cases steps
      exact .inr rfl
    · split at steps <;> cases steps
      · exact .inr rfl
      · exact .inl rfl
  | readClaim a pointer | readAdvance a pointer | writeAdvance a pointer =>
    rw [multififoProceed] at steps
    split at steps <;> cases steps <;> exact .inr rfl
  | readUndo a pointer | writeUndo a pointer =>
    rw [multififoProceed, replaceNotYet] at steps
    split at steps <;> cases steps
    exact .inr rfl
  | readClear a pointer | writeStore a pointer =>
    rw [multififoProceed, replaceNotYet] at steps
    split at steps <;> cases steps
    exact .inl rfl
  | idle | readCounter | writeCounter pointer =>
    cases steps
    exact .inr rfl

theorem multififo_served :
    CallsServed (fun _ : Thread => multififoStep size) .idle .proceed MultififoState.call
      (fun _ => MultififoEvent.Answers) fun _ _ event => event = .returned
    (.wrote (some .EINVAL)) where
  resting := rfl
  inside {thread fifo here called} inside := by
    refine ⟨fun {_ _ _} steps => inside ▸ multififoProceed_call steps, fun {_ _ _} steps => ?_⟩
    obtain ⟨current, same, answers⟩ := (multififoProceed_reports steps).answers
    obtain rfl := Option.some.inj (inside.symm.trans same)
    exact answers
  outside {thread fifo here} outside := by
    cases here with
    | idle => rfl
    | _ => exact nomatch outside
  begins := by
    intro thread fifo here move after there event notProceed steps
    cases move with
    | proceed => exact absurd rfl notProceed
    | read =>
      cases steps
      split
      next idle => exact .inr ⟨idle, .inr rfl, nofun⟩
      next => exact .inl ⟨rfl, rfl⟩
    | write pointer =>
      rw [multififoStep] at steps
      split at steps
      next =>
        cases steps
        exact .inl ⟨rfl, rfl⟩
      next idle =>
        refine .inr ⟨not_not.mp idle, ?_⟩
        split at steps <;> cases steps
        · exact ⟨.inl rfl, fun _ same => (Option.some.inj same).symm⟩
        · exact ⟨.inr rfl, nofun⟩

theorem multififoProceed_settles
    (steps : multififoProceed size fifo here = some (next, there, event)) (proper : here.Proper)
    (move : Thread × MultififoMove) :
    SettleStep move.1 here.taking (takenBy move event) (readBy move event) there.taking ∧
      SettleStep move.1 here.placing (placedBy move event) (wroteBy move event) there.placing := by
  cases here with
  | idle =>
    obtain ⟨_, rfl, rfl⟩ : fifo = next ∧ .idle = there ∧ none = event := by
      simpa [multififoProceed] using steps
    exact ⟨.keeps, .keeps⟩
  | readCounter =>
    obtain ⟨_, rfl, rfl⟩ : fifo = next ∧ .readSlot (fifo.read % 2 ^ 64) = there ∧ none = event := by
      simpa [multififoProceed] using steps
    exact ⟨.keeps, .keeps⟩
  | readSlot a =>
    rw [multififoProceed] at steps
    split at steps
    next =>
      cases steps
      exact ⟨.keeps, .keeps⟩
    next =>
      split at steps <;> cases steps <;> exact ⟨.keeps, .keeps⟩
  | readClaim a pointer =>
    rw [multififoProceed] at steps
    split at steps <;> cases steps <;> exact ⟨.keeps, .keeps⟩
  | readAdvance a pointer =>
    rw [multififoProceed] at steps
    split at steps
    next =>
      cases steps
      exact ⟨.begins, .keeps⟩
    next =>
      cases steps
      exact ⟨.keeps, .keeps⟩
  | readUndo a pointer =>
    rw [multififoProceed, replaceNotYet] at steps
    split at steps <;> cases steps
    exact ⟨.keeps, .keeps⟩
  | readClear a pointer =>
    rw [multififoProceed, replaceNotYet] at steps
    split at steps <;> cases steps
    have reads : readBy move (some (.returned (.pointer pointer))) = some (move.1, pointer) :=
      if_neg proper.1
    rw [reads]
    exact ⟨.finishes, .keeps⟩
  | writeCounter pointer =>
    cases steps
    exact ⟨.keeps, .keeps⟩
  | writeClaim a pointer =>
    rw [multififoProceed] at steps
    split at steps
    next =>
      cases steps
      exact ⟨.keeps, .keeps⟩
    next =>
      split at steps <;> cases steps <;> exact ⟨.keeps, .keeps⟩
  | writeAdvance a pointer =>
    rw [multififoProceed] at steps
    split at steps
    next =>
      cases steps
      exact ⟨.keeps, .begins⟩
    next =>
      cases steps
      exact ⟨.keeps, .keeps⟩
  | writeUndo a pointer =>
    rw [multififoProceed, replaceNotYet] at steps
    split at steps <;> cases steps
    exact ⟨.keeps, .keeps⟩
  | writeStore a pointer =>
    rw [multififoProceed, replaceNotYet] at steps
    split at steps <;> cases steps
    exact ⟨.keeps, .finishes⟩

theorem multififoStep_settles
    {move : Thread × MultififoMove}
    (steps : multififoStep size fifo here move.2 = some (next, there, event)) (proper : here.Proper) :
    SettleStep move.1 here.taking (takenBy move event) (readBy move event) there.taking ∧
      SettleStep move.1 here.placing (placedBy move event) (wroteBy move event) there.placing := by
  obtain ⟨thread, choice⟩ := move
  cases choice with
  | read =>
    rw [multififoStep] at steps
    cases steps
    split
    next idle =>
      subst idle
      exact ⟨.keeps, .keeps⟩
    next => exact ⟨.keeps, .keeps⟩
  | write pointer =>
    rw [multififoStep] at steps
    split at steps
    next =>
      cases steps
      exact ⟨.keeps, .keeps⟩
    next idle =>
      obtain rfl := not_not.mp idle
      split at steps <;> cases steps <;> exact ⟨.keeps, .keeps⟩
  | proceed => exact multififoProceed_settles steps proper _

structure MultififoHistory (size : Nat) (moves : List (Thread × MultififoMove))
    (events : List (Option MultififoEvent)) (config : MultififoConfig Thread) : Prop where
  length : moves.length = events.length
  holds : MultififoHolds size ((doneIn placedBy moves events).map Prod.snd) config
  inOrder : (doneIn takenBy moves events).map Prod.snd =
    ((doneIn placedBy moves events).map Prod.snd).take config.shared.read

variable [DecidableEq Thread]

def MultififoSettled (moves : List (Thread × MultififoMove)) (events : List (Option MultififoEvent))
    (config : MultififoConfig Thread) : Prop :=
  ∀ thread, Settled thread (doneIn takenBy moves events) (doneIn readBy moves events)
    (config.locals thread).taking ∧
    Settled thread (doneIn placedBy moves events) (doneIn wroteBy moves events)
      (config.locals thread).placing

/-- A step adds to the history, and what it reports is settled by what was there. -/
theorem MultififoHistory.step (history : MultififoHistory size moves events config)
    (settled : MultififoSettled moves events config) (move : Thread × MultififoMove) :
    ∃ after event, interleave (fun _ => multififoStep size) config move = some (after, event) ∧
      MultififoHistory size (moves ++ [move]) (events ++ [event]) after ∧
      MultififoSettled (moves ++ [move]) (events ++ [event]) after := by
  have length := history.length
  have holds := history.holds
  have marked : ∀ i, (config.locals move.1).claim size = some i → config.shared.storage i = notYet :=
    fun i claims => (holds.claims move.1 i claims).1
  obtain ⟨next, there, event, steps, proper, effect⟩ :=
    multififoStep_effect (holds.proper move.1) marked move.2
  have settles := multififoStep_settles steps (holds.proper move.1)
  have placed : (doneIn placedBy (moves ++ [move]) (events ++ [event])).map Prod.snd =
      MultififoEvent.place ((doneIn placedBy moves events).map Prod.snd) event := by
    rw [doneIn_concat length]
    rcases event with _ | (answer | pointer | pointer | pointer) <;>
      simp [placedBy, MultififoEvent.place]
  refine ⟨_, event, interleave_some steps, ⟨by simp [length], ?_, ?_⟩, fun thread => ?_⟩
  · rw [placed]
    exact holds.effect proper effect
  · have quiet : (∀ pointer, event ≠ some (.took pointer) ∧ event ≠ some (.placed pointer)) →
        takenBy move event = none := by
      intro silent
      rcases event with _ | (answer | pointer | pointer | pointer)
      · rfl
      · rfl
      · rfl
      · exact absurd rfl (silent pointer).1
      · rfl
    rw [placed, doneIn_concat length, List.map_append, history.inOrder]
    cases effect with
    | stays claim occupant silent =>
      rw [MultififoEvent.place_silent silent, quiet silent]
      simp
    | claims => simp [takenBy, MultififoEvent.place, Pointermultififo.setSlot]
    | releases held claim notMarker occupant silent =>
      rw [MultififoEvent.place_silent silent, quiet silent]
      simp [Pointermultififo.setSlot]
    | @takes _ pointer held claim occupied empty =>
      obtain ⟨first, _⟩ := holds.take proper held claim occupied empty
      simp only [MultififoEvent.place, takenBy]
      rw [List.take_add_one, first]
      rfl
    | places held claim empty occupied =>
      have order := holds.order
      rw [← holds.counted] at order
      simp [takenBy, MultififoEvent.place, List.take_append_of_le_length order]
  · rw [doneIn_concat length, doneIn_concat length, doneIn_concat length, doneIn_concat length]
    dsimp only
    by_cases same : thread = move.1
    · subst same
      rw [Function.update_self]
      exact ⟨(settled move.1).1.step settles.1, (settled move.1).2.step settles.2⟩
    · rw [Function.update_of_ne same]
      exact ⟨(settled thread).1.other (Ne.symm same) settles.1,
        (settled thread).2.other (Ne.symm same) settles.2⟩

omit [DecidableEq Thread] in
theorem MultififoHolds.bounded {placed : List Pointer} (holds : MultififoHolds size placed config)
    (positive : 0 < size) : config.shared.write ≤ config.shared.read + size := by
  by_contra more
  have slots : ∀ k ∈ Finset.Ico config.shared.read config.shared.write, slotIndex size k ∈
    Finset.range size :=
    fun k _ => Finset.mem_range.mpr (Nat.mod_lt _ positive)
  have few := Finset.card_le_card_of_injOn (slotIndex size) slots holds.injective
  rw [Nat.card_Ico, Finset.card_range] at few
  omega

/-- Every pointer that was placed is read once and in that order, or is still in the queue. What is
placed, and what `write` has returned from, is the pointer of its call. -/
theorem multififo_queues (enough : 2 ≤ size) (moves : List (Thread × MultififoMove)) :
    ∃ config events, run (interleave fun _ => multififoStep size) (multififoInit Thread) moves =
      some (config, events) ∧
      (doneIn takenBy moves events).map Prod.snd =
        ((doneIn placedBy moves events).map Prod.snd).take config.shared.read ∧
      (doneIn takenBy moves events).length = config.shared.read ∧
      (doneIn placedBy moves events).length = config.shared.write ∧
      config.shared.write ≤ config.shared.read + size ∧
      (∀ thread, Settled thread (doneIn takenBy moves events) (doneIn readBy moves events)
        (config.locals thread).taking ∧
        Settled thread (doneIn placedBy moves events) (doneIn wroteBy moves events)
          (config.locals thread).placing) ∧
      ∀ (n : Nat) (event : MultififoEvent), events[n]? = some (some event) →
        event = .returned (.wrote (some .EINVAL)) ∨
        ∃ thread called, CallOf (fun _ => multififoStep size) (multififoInit Thread) .idle moves
          thread n called ∧
          moves[n]? = some (thread, .proceed) ∧ event.Answers called := by
  have runs : ∃ config events, run (interleave fun _ => multififoStep size) (multififoInit Thread)
    moves = some (config, events) ∧
      MultififoHistory size moves events config ∧ MultififoSettled moves events config := by
    induction moves using List.reverseRecOn with
    | nil =>
      exact ⟨multififoInit Thread, [], rfl, ⟨rfl, multififoInit_holds, rfl⟩, fun _ => ⟨rfl, rfl⟩⟩
    | append_singleton moves move ih =>
      obtain ⟨config, events, ran, history, settled⟩ := ih
      obtain ⟨after, event, stepped, next, nextSettled⟩ := history.step settled move
      exact ⟨after, events ++ [event], run_concat ran stepped, next, nextSettled⟩
  obtain ⟨config, events, ran, history, settled⟩ := runs
  have counted := history.holds.counted
  have order := history.holds.order
  have taken := congrArg List.length history.inOrder
  rw [List.length_map] at counted
  rw [List.length_map, List.length_take, List.length_map] at taken
  refine ⟨config, events, ran, history.inOrder, by omega, counted, history.holds.bounded (by omega),
    settled, ?_⟩
  intro n event answered
  rcases multififo_served.answered (fun _ => rfl) ran answered with ⟨_, _, _, refused⟩ | called
  · exact .inl refused
  · exact .inr called

theorem multififo_queues_two : ∃ config events,
    run (interleave fun _ => multififoStep 2) (multififoInit Bool)
      [(true, .write 16), (true, .proceed), (true, .proceed), (true, .proceed), (true, .proceed),
        (false, .read)] =
        some (config, events) ∧ config.shared.write ≤ config.shared.read + 2 := by
  obtain ⟨config, events, ran, _, _, _, bounded, _⟩ := @multififo_queues Bool 2 _ (by decide)
    [(true, .write 16), (true, .proceed), (true, .proceed), (true, .proceed), (true, .proceed),
      (false, .read)]
  exact ⟨config, events, ran, bounded⟩

end Queue

end MulleCore
