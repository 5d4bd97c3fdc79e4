import MulleCore.Library.Calls
import MulleCore.Thread.OnceRecursive

/-!
The calls on a recursive mutex and on a once variable get on: what they wait for, and what they do
within their own next steps.
-/

namespace MulleCore

open Library

section Mutex

variable {Thread : Type} [DecidableEq Thread] {config : MutexConfig Thread} {thread curr : Thread}
  {p after : RecursiveMutex Thread} {there : MutexThread} {event : Option MutexEvent}
variable {place : MutexPlace} {move : MutexMove}

def MutexPlace.answer : MutexPlace → Option MutexEvent
  | .idle => none
  | .lockRead | .lockMutex | .lockAssert | .lockWrite | .lockIncrement => some .locked
  | .tryRead | .tryMutex | .tryWrite | .tryIncrement => some (.tried 0)
  | .unlockAssert | .unlockDecrement | .unlockClear | .unlockMutex => some .unlocked

def MutexPlace.left : MutexPlace → Nat
  | .lockRead => 4
  | .lockMutex | .tryRead | .unlockAssert => 3
  | .lockAssert | .tryMutex | .unlockDecrement => 2
  | .lockWrite | .tryWrite | .unlockClear => 1
  | .idle | .lockIncrement | .tryIncrement | .unlockMutex => 0

theorem MutexPlace.busy_of_answer {answer : MutexEvent} (answers : place.answer = some answer) :
    place ≠ .idle := by
  rintro rfl
  exact nomatch answers

theorem owner_progress {count : Nat} (isOwner : p.mutex = some curr)
    (held : OwnerAt p curr count place) {answer : MutexEvent} (answers : place.answer = some answer)
    (proceeded : recursiveMutexProceed curr p count place = some (after, there, event)) :
    event = some answer ∨
      event = none ∧ after.mutex = some curr ∧ there.place.answer = some answer ∧
      there.place.left < place.left := by
  cases place with
  | idle => exact nomatch answers
  | lockMutex | tryMutex => exact absurd held id
  | lockRead | tryRead | lockAssert | unlockAssert =>
    rw [recursiveMutexProceed, if_pos held.1] at proceeded
    cases proceeded
    exact .inr ⟨rfl, isOwner, answers, Nat.le_of_ble_eq_true rfl⟩
  | lockWrite | tryWrite | unlockClear =>
    cases proceeded
    exact .inr ⟨rfl, isOwner, answers, Nat.one_pos⟩
  | lockIncrement | tryIncrement | unlockMutex =>
    cases proceeded
    exact .inl answers
  | unlockDecrement =>
    rw [recursiveMutexProceed] at proceeded
    split at proceeded
    · cases proceeded
      exact .inl answers
    · cases proceeded
      exact .inr ⟨rfl, isOwner, answers, Nat.le_of_ble_eq_true rfl⟩

/-- A call that has begun does not take another one. -/
theorem recursiveMutexStep_inside {here : MutexThread} (busy : here.place ≠ .idle)
    (other : move ≠ .proceed) : recursiveMutexStep curr p here move = some (p, here, none) := by
  cases move with
  | lock | trylock => rw [recursiveMutexStep, if_neg busy]
  | unlock => rw [recursiveMutexStep, if_neg fun both => busy both.1]
  | proceed => exact absurd rfl other

theorem MutexHolds.elsewhere (holds : MutexHolds config) (owner : config.shared.mutex = some thread)
    {mover : Thread} (other : mover ≠ thread) {next : MutexConfig Thread}
    (stepped : interleave recursiveMutexStep config (mover, move) = some (next, event)) :
    next.shared.mutex = some thread := by
  obtain ⟨there, proceeded, -⟩ := interleave_eq_some stepped
  obtain ⟨_, _, _, found, effect⟩ := holds.does mover move
  obtain ⟨same, -⟩ := Prod.mk.inj (Option.some.inj (proceeded.symm.trans found))
  rw [same]
  cases effect with
  | owns mine => exact absurd (mine thread owner).symm other
  | releases mine => exact absurd (Option.some.inj (mine.symm.trans owner)) other
  | stays => exact owner

def OwnerCall (thread : Thread) (answer : MutexEvent) (bound : Nat) (config : MutexConfig Thread) :
    Prop :=
  MutexHolds config ∧ config.shared.mutex = some thread ∧
    (config.locals thread).place.answer = some answer ∧
    (config.locals thread).place.left ≤ bound

/-- The owner does not wait for anybody. -/
theorem ownerCall_phases (thread : Thread) (answer : MutexEvent) :
    Phases recursiveMutexStep .proceed thread (· = answer) (OwnerCall thread answer) where
  own {bound config next event} begins stepped := by
    obtain ⟨holds, owner, answers, near⟩ := begins
    obtain ⟨there, proceeded, after⟩ := interleave_eq_some stepped
    obtain ⟨_, _, moved, nextHolds⟩ := holds.step (thread, .proceed)
    obtain ⟨rfl, -⟩ := Prod.mk.inj (Option.some.inj (stepped.symm.trans moved))
    obtain returned | ⟨silent, still, same, closer⟩ :=
      owner_progress owner (holds.owner thread owner) answers proceeded
    · exact .inl ⟨answer, returned, rfl⟩
    · have reached : next.locals thread = there := by rw [after, Function.update_self]
      rw [← reached] at same closer
      exact .inr ⟨silent, _, Nat.lt_of_lt_of_le closer near, nextHolds, still, same, Nat.le_refl _⟩
  inside begins notOwn := recursiveMutexStep_inside (MutexPlace.busy_of_answer begins.2.2.1) notOwn
  other {bound config mover move next event} begins different stepped unmoved := by
    obtain ⟨holds, owner, answers, near⟩ := begins
    obtain ⟨_, _, moved, nextHolds⟩ := holds.step (mover, move)
    obtain ⟨rfl, -⟩ := Prod.mk.inj (Option.some.inj (stepped.symm.trans moved))
    exact ⟨nextHolds, holds.elsewhere owner different stepped, by rw [unmoved, answers],
      by rw [unmoved]; exact near⟩

def TryCall (thread : Thread) (bound : Nat) (config : MutexConfig Thread) : Prop :=
  (config.locals thread).place.answer = some (.tried 0) ∧ (config.locals thread).place.left ≤ bound

/-- `trylock` does not wait. -/
theorem tryCall_phases (thread : Thread) :
    Phases recursiveMutexStep .proceed thread (fun event => ∃ code, event = .tried code)
      (TryCall thread) where
  own {bound config next event} begins stepped := by
    obtain ⟨answers, near⟩ := begins
    obtain ⟨there, proceeded, after⟩ := interleave_eq_some stepped
    have reached : next.locals thread = there := by rw [after, Function.update_self]
    dsimp only [recursiveMutexStep] at proceeded
    generalize next.shared = shared at proceeded
    generalize (config.locals thread).place = place at answers near proceeded
    have closer : (∃ report, event = some report ∧ ∃ code, report = .tried code) ∨
        event = none ∧ there.place.answer = some (.tried 0) ∧ there.place.left < place.left := by
      cases place with
      | tryRead =>
        cases proceeded
        dsimp only
        split <;> exact .inr ⟨rfl, rfl, by decide⟩
      | tryMutex =>
        rw [recursiveMutexProceed] at proceeded
        split at proceeded
        · cases proceeded
          exact .inr ⟨rfl, rfl, Nat.lt_succ_self _⟩
        · cases proceeded
          exact .inl ⟨_, rfl, _, rfl⟩
      | tryWrite =>
        cases proceeded
        exact .inr ⟨rfl, rfl, Nat.lt_succ_self _⟩
      | tryIncrement =>
        cases proceeded
        exact .inl ⟨_, rfl, _, rfl⟩
      | _ => cases answers
    obtain returned | ⟨silent, same, less⟩ := closer
    · exact .inl returned
    · rw [← reached] at same less
      exact .inr ⟨silent, _, Nat.lt_of_lt_of_le less near, same, Nat.le_refl _⟩
  inside begins notOwn := recursiveMutexStep_inside (MutexPlace.busy_of_answer begins.1) notOwn
  other begins _ _ unmoved := ⟨by rw [unmoved, begins.1], by rw [unmoved]; exact begins.2⟩

/-- Calls get on. Only a `lock` waits, and only for another owner. -/
structure RecursiveMutexGrants (config : MutexConfig Thread) : Prop where
  begins : ∀ thread, (config.locals thread).place = .idle →
    recursiveMutexStep thread config.shared (config.locals thread) .lock =
        some (config.shared, ⟨.lockRead, (config.locals thread).held⟩, none) ∧
      recursiveMutexStep thread config.shared (config.locals thread) .trylock =
        some (config.shared, ⟨.tryRead, (config.locals thread).held⟩, none) ∧
      (0 < (config.locals thread).held →
        recursiveMutexStep thread config.shared (config.locals thread) .unlock =
        some (config.shared, ⟨.unlockAssert, (config.locals thread).held⟩, none))
  comes : ∀ thread, config.shared.mutex ≠ some thread → ∀ next event,
    interleave recursiveMutexStep config (thread, .proceed) = some (next, event) →
      ((config.locals thread).place = .lockRead → (next.locals thread).place = .lockMutex) ∧
      ((config.locals thread).place = .tryRead → (next.locals thread).place = .tryMutex)
  grants : ∀ thread answer, config.shared.mutex = none →
    ((config.locals thread).place = .lockMutex ∧ answer = .locked ∨
      (config.locals thread).place = .tryMutex ∧ answer = .tried 0) →
    ∃ next, interleave recursiveMutexStep config (thread, .proceed) = some (next, none) ∧
      next.shared.mutex = some thread ∧ ReportsWithin recursiveMutexStep .proceed next thread
        2 (· = answer)
  owner : ∀ thread answer, config.shared.mutex = some thread →
    (config.locals thread).place.answer = some answer →
    ReportsWithin recursiveMutexStep .proceed config thread 4 (· = answer)
  tries : ∀ thread, (config.locals thread).place.answer = some (.tried 0) →
    ReportsWithin recursiveMutexStep .proceed config thread 3 fun event => ∃ code, event = .tried code

theorem MutexHolds.grants (holds : MutexHolds config) : RecursiveMutexGrants config where
  begins thread idle := by
    refine ⟨?_, ?_, fun held => ?_⟩
    · rw [recursiveMutexStep, if_pos idle]
    · rw [recursiveMutexStep, if_pos idle]
    · rw [recursiveMutexStep, if_pos ⟨idle, held⟩]
  comes thread notOwner next event stepped := by
    obtain ⟨there, proceeded, after⟩ := interleave_eq_some stepped
    have reached : next.locals thread = there := by rw [after, Function.update_self]
    have foreign := holds.foreign notOwner
    dsimp only [recursiveMutexStep] at proceeded
    generalize next.shared = shared at proceeded
    rw [reached]
    constructor
    · intro place
      rw [place, recursiveMutexProceed, if_neg foreign] at proceeded
      cases proceeded
      rfl
    · intro place
      rw [place, recursiveMutexProceed, if_neg foreign] at proceeded
      cases proceeded
      rfl
  grants thread answer free waits := by
    obtain ⟨next, event, stepped, nextHolds⟩ := holds.step (thread, .proceed)
    obtain ⟨there, proceeded, after⟩ := interleave_eq_some stepped
    have reached : next.locals thread = there := by rw [after, Function.update_self]
    dsimp only [recursiveMutexStep] at proceeded
    have takes : event = none ∧ next.shared.mutex = some thread ∧ there.place.answer = some answer ∧
        there.place.left ≤ 2 := by
      rcases waits with ⟨place, rfl⟩ | ⟨place, rfl⟩
      · rw [place, recursiveMutexProceed, if_pos free] at proceeded
        obtain ⟨same, rest⟩ := Prod.mk.inj (Option.some.inj proceeded)
        obtain ⟨rfl, silent⟩ := Prod.mk.inj rest
        exact ⟨silent.symm, by rw [← same], rfl, Nat.le_of_ble_eq_true rfl⟩
      · rw [place, recursiveMutexProceed, if_pos free] at proceeded
        obtain ⟨same, rest⟩ := Prod.mk.inj (Option.some.inj proceeded)
        obtain ⟨rfl, silent⟩ := Prod.mk.inj rest
        exact ⟨silent.symm, by rw [← same], rfl, Nat.le_of_ble_eq_true rfl⟩
    obtain ⟨rfl, owner, answers, near⟩ := takes
    rw [← reached] at answers near
    exact ⟨next, stepped, owner, (ownerCall_phases thread answer).reports ⟨nextHolds, owner,
      answers, near⟩⟩
  owner thread answer owner answers := by
    have near : (config.locals thread).place.left ≤ 4 := by
      cases (config.locals thread).place <;> decide
    exact (ownerCall_phases thread answer).reports ⟨holds, owner, answers, near⟩
  tries thread answers := by
    have near : (config.locals thread).place.left ≤ 3 := by
      revert answers
      cases (config.locals thread).place <;> decide
    exact (tryCall_phases thread).reports ⟨answers, near⟩

end Mutex

section Once

variable {Thread : Type} [DecidableEq Thread] {config next : OnceConfig Thread} {thread curr : Thread}
  {past : List (Option OnceEvent)} {event : Option OnceEvent}
variable {move : OnceMove}

/-- A call that has begun takes another one only in the initialiser. -/
theorem onceCallRecursiveStep_inside {once : OnceRecursive Thread} {place : OncePlace}
    {callers : List OncePlace} (notInitialiser : place ≠ .initialiser) (other : move ≠ .proceed) :
    onceCallRecursiveStep curr once (place :: callers) move =
      some (once, place :: callers, none) := by
  cases move with
  | proceed => exact absurd rfl other
  | call =>
    cases place with
    | initialiser => exact absurd rfl notInitialiser
    | _ => rfl

/-- The thread has swapped the state to busy. -/
theorem once_initialises (thread : Thread) :
    Phases onceCallRecursiveStep .proceed thread (· = .initialises) fun _ config =>
      config.locals thread = [.writeId] where
  own {bound config next event} swapped stepped := by
    obtain ⟨there, proceeded, -⟩ := interleave_eq_some stepped
    dsimp only [onceCallRecursiveStep] at proceeded
    rw [swapped, onceCallRecursiveProceed] at proceeded
    exact .inl ⟨_, (Prod.mk.inj (Prod.mk.inj (Option.some.inj proceeded)).2).2.symm, rfl⟩
  inside swapped notOwn := by
    rw [swapped]
    exact onceCallRecursiveStep_inside (by decide) notOwn
  other swapped _ _ unmoved := unmoved.trans swapped

def OnceEnding (thread : Thread) (bound : Nat) (config : OnceConfig Thread) : Prop :=
  config.locals thread = [.clearId] ∧ 1 ≤ bound ∨ config.locals thread = [.swapDone]

theorem onceEnding_phases (thread : Thread) :
    Phases onceCallRecursiveStep .proceed thread (· = .returned) (OnceEnding thread) where
  own {bound config next event} ending stepped := by
    obtain ⟨there, proceeded, after⟩ := interleave_eq_some stepped
    dsimp only [onceCallRecursiveStep] at proceeded
    rcases ending with ⟨clears, near⟩ | swaps
    · have reached : next.locals thread = there := by rw [after, Function.update_self]
      rw [clears, onceCallRecursiveProceed] at proceeded
      obtain ⟨rfl, silent⟩ := Prod.mk.inj (Prod.mk.inj (Option.some.inj proceeded)).2
      exact .inr ⟨silent.symm, 0, near, .inr reached⟩
    · rw [swaps, onceCallRecursiveProceed] at proceeded
      exact .inl ⟨_, (Prod.mk.inj (Prod.mk.inj (Option.some.inj proceeded)).2).2.symm, rfl⟩
  inside ending notOwn := by
    rcases ending with ⟨calls, -⟩ | calls
    all_goals
      rw [calls]
      exact onceCallRecursiveStep_inside (by decide) notOwn
  other ending _ _ unmoved := by
    rw [OnceEnding, unmoved]
    exact ending

omit [DecidableEq Thread] in
theorem OnceHolds.done (holds : OnceHolds past config) (done : config.shared.state = .done) :
    config.shared.threadId = none ∧ ∀ thread, OnceOutside (config.locals thread) := by
  cases holds with
  | before state => exact nomatch state.symm.trans done
  | during _ state => exact nomatch state.symm.trans done
  | after _ noId outside => exact ⟨noId, outside⟩

def OnceLate (thread : Thread) (bound : Nat) (config : OnceConfig Thread) : Prop :=
  (∃ past, OnceHolds past config) ∧ config.shared.state = .done ∧
    (config.locals thread = [.readId] ∧ 1 ≤ bound ∨ config.locals thread = [.swap] ∨
      config.locals thread = [.wait])

theorem onceLate_step (holds : OnceHolds past config) (done : config.shared.state = .done)
    {mover : Thread} (stepped : interleave onceCallRecursiveStep config (mover, move) =
      some (next, event)) :
    next.shared = config.shared ∧ ∃ past, OnceHolds past next := by
  obtain ⟨noId, outside⟩ := holds.done done
  have foreign : config.shared.threadId ≠ some mover := by simp [noId]
  obtain ⟨there, proceeded, -⟩ := interleave_eq_some stepped
  obtain ⟨after, _, _, found, -, ⟨rfl, -⟩ | ⟨fresh, -⟩⟩ := outside_step (outside mover) foreign move
  · obtain ⟨_, _, moved, nextHolds⟩ := holds.step (mover, move)
    obtain ⟨rfl, -⟩ := Prod.mk.inj (Option.some.inj (stepped.symm.trans moved))
    exact ⟨(Prod.mk.inj (Option.some.inj (proceeded.symm.trans found))).1, _, nextHolds⟩
  · exact nomatch fresh.symm.trans done

theorem onceLate_phases (thread : Thread) :
    Phases onceCallRecursiveStep .proceed thread (· = .returned) (OnceLate thread) where
  own {bound config next event} late stepped := by
    obtain ⟨⟨past, holds⟩, done, place⟩ := late
    obtain ⟨noId, -⟩ := holds.done done
    obtain ⟨same, nextHolds⟩ := onceLate_step holds done stepped
    obtain ⟨there, proceeded, after⟩ := interleave_eq_some stepped
    have reached : next.locals thread = there := by rw [after, Function.update_self]
    dsimp only [onceCallRecursiveStep] at proceeded
    rcases place with ⟨reads, near⟩ | swaps | waits
    · have foreign : config.shared.threadId ≠ some thread := by simp [noId]
      rw [reads, onceCallRecursiveProceed, if_neg foreign] at proceeded
      obtain ⟨rfl, silent⟩ := Prod.mk.inj (Prod.mk.inj (Option.some.inj proceeded)).2
      exact .inr ⟨silent.symm, 0, near, nextHolds, by rw [same, done], .inr (.inl reached)⟩
    · rw [swaps, onceCallRecursiveProceed, done] at proceeded
      exact .inl ⟨_, (Prod.mk.inj (Prod.mk.inj (Option.some.inj proceeded)).2).2.symm, rfl⟩
    · rw [waits, onceCallRecursiveProceed, if_pos done] at proceeded
      exact .inl ⟨_, (Prod.mk.inj (Prod.mk.inj (Option.some.inj proceeded)).2).2.symm, rfl⟩
  inside late notOwn := by
    rcases late.2.2 with ⟨calls, -⟩ | calls | calls
    all_goals
      rw [calls]
      exact onceCallRecursiveStep_inside (by decide) notOwn
  other late _ stepped unmoved := by
    obtain ⟨⟨past, holds⟩, done, place⟩ := late
    obtain ⟨same, nextHolds⟩ := onceLate_step holds done stepped
    exact ⟨nextHolds, by rw [same, done], by rw [unmoved]; exact place⟩

/-- The first call that swaps the state starts the initialiser, calls on a variable that is done
return. -/
structure OnceRuns (past : List (Option OnceEvent)) (config : OnceConfig Thread) : Prop where
  begins : ∀ thread, config.locals thread = [] →
    onceCallRecursiveStep thread config.shared (config.locals thread) .call =
      some (config.shared, [.readId], none)
  comes : ∀ thread, config.locals thread = [.readId] →
    onceCallRecursiveStep thread config.shared (config.locals thread) .proceed =
      some (config.shared, [.swap], none)
  starts : ∀ thread, config.shared.state = .init → config.locals thread = [.swap] →
    ∃ next, interleave onceCallRecursiveStep config (thread, .proceed) = some (next, none) ∧
      next.shared.state = .busy ∧ ReportsWithin onceCallRecursiveStep .proceed next thread 0
        (· = .initialises)
  exactly : past.count (some .initialises) = 1 ∨ past.count (some .initialises) = 0 ∧
    (config.shared.state = .init ∨ ∃ thread, config.locals thread = [.writeId])
  ends : ∀ thread, config.locals thread = [.clearId] →
    ReportsWithin onceCallRecursiveStep .proceed config thread 1 (· = .returned)
  finishes : ∀ thread, config.locals thread = [.swapDone] → ∃ next,
    interleave onceCallRecursiveStep config (thread, .proceed) = some (next, some .returned) ∧
      next.shared.state = .done
  late : ∀ thread, config.shared.state = .done → config.locals thread ≠ [] →
    ReportsWithin onceCallRecursiveStep .proceed config thread 1 (· = .returned)

theorem OnceHolds.runs (holds : OnceHolds past config) : OnceRuns past config where
  begins thread idle := by rw [idle]; rfl
  comes thread reads := by
    have foreign : config.shared.threadId ≠ some thread := by
      cases holds with
      | before _ noId => simp [noId]
      | after _ noId => simp [noId]
      | during owner _ isOwner outside =>
        refine isOwner.foreign ?_
        rintro rfl
        rw [reads] at isOwner
        generalize config.shared.threadId = threadId at isOwner
        cases isOwner
    rw [reads, onceCallRecursiveStep, onceCallRecursiveProceed, if_neg foreign]
  starts thread init swaps := by
    have stepped : onceCallRecursiveStep thread config.shared (config.locals thread) .proceed =
        some ({ config.shared with state := .busy }, [.writeId], none) := by
      rw [swaps, onceCallRecursiveStep, onceCallRecursiveProceed, init]
    exact ⟨_, interleave_some stepped, rfl, (once_initialises thread).reports
      (Function.update_self ..)⟩
  exactly := by
    cases holds with
    | before state _ _ fresh => exact .inr ⟨fresh, .inl state⟩
    | after _ _ _ once => exact .inl once
    | during owner _ isOwner _ =>
      generalize config.shared.threadId = threadId at isOwner
      generalize calls : config.locals owner = places at isOwner
      cases isOwner with
      | writeId fresh => exact .inr ⟨fresh, .inr ⟨owner, calls⟩⟩
      | initialiser once | nested once | clearId once | swapDone once => exact .inl once
  ends thread clears := (onceEnding_phases thread).reports (.inl ⟨clears, Nat.le_refl 1⟩)
  finishes thread swaps := by
    have busy : config.shared.state = .busy := by
      cases holds with
      | before _ _ outside | after _ _ outside =>
        have past := swaps ▸ outside thread
        cases past
      | during _ state => exact state
    have stepped : onceCallRecursiveStep thread config.shared (config.locals thread) .proceed =
        some ({ config.shared with state := .done }, [], some .returned) := by
      rw [swaps, onceCallRecursiveStep, onceCallRecursiveProceed, if_pos busy]
    exact ⟨_, interleave_some stepped, rfl⟩
  late thread done busy := by
    refine (onceLate_phases thread).reports ⟨⟨past, holds⟩, done, ?_⟩
    have outside := (holds.done done).2 thread
    generalize config.locals thread = places at outside busy
    cases outside with
    | idle => exact absurd rfl busy
    | readId => exact .inl ⟨rfl, Nat.le_refl 1⟩
    | swap => exact .inr (.inl rfl)
    | wait => exact .inr (.inr rfl)

end Once

end MulleCore
