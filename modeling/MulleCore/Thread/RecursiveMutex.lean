import MulleCore.Library.Simulation

/-!
The `mulle_thread_recursive_mutex_t` of `mulle-thread.c`, with a step for each atomic operation and
for each operation on `_mutex`. A thread stands for its id, NULL is `none`. A result of `none`
stands for a failed `assert`.
-/

namespace MulleCore

open Library

/-- `mutex` is the thread that has locked `_mutex`. -/
structure RecursiveMutex (Thread : Type) where
  mutex : Option Thread
  threadId : Option Thread
  depth : Int

inductive MutexPlace where
  | idle
  | lockRead
  | lockMutex
  | lockAssert
  | lockWrite
  | lockIncrement
  | tryRead
  | tryMutex
  | tryWrite
  | tryIncrement
  | unlockAssert
  | unlockDecrement
  | unlockClear
  | unlockMutex
deriving DecidableEq

/-- `held` counts the locks of the thread that have returned, less its unlocks. -/
structure MutexThread where
  place : MutexPlace
  held : Nat

inductive MutexMove where
  | lock
  | trylock
  | unlock
  | proceed
deriving DecidableEq

inductive MutexEvent where
  | locked
  | tried (code : Int)
  | unlocked
deriving DecidableEq

section Steps

variable {Thread : Type} [DecidableEq Thread]

abbrev MutexResult (Thread : Type) : Type :=
  Option (RecursiveMutex Thread × MutexThread × Option MutexEvent)

def recursiveMutexProceed (curr : Thread) (p : RecursiveMutex Thread) (held : Nat) :
    MutexPlace → MutexResult Thread
  | .idle => some (p, ⟨.idle, held⟩, none)
  | .lockRead => some (p, ⟨if p.threadId = some curr then .lockIncrement else .lockMutex, held⟩, none)
  | .lockMutex =>
    if p.mutex = none then some ({ p with mutex := some curr }, ⟨.lockAssert, held⟩, none)
    else some (p, ⟨.lockMutex, held⟩, none)
  | .lockAssert => if p.threadId = none then some (p, ⟨.lockWrite, held⟩, none) else none
  | .lockWrite => some ({ p with threadId := some curr }, ⟨.lockIncrement, held⟩, none)
  | .lockIncrement => some ({ p with depth := p.depth + 1 }, ⟨.idle, held + 1⟩, some .locked)
  | .tryRead => some (p, ⟨if p.threadId = some curr then .tryIncrement else .tryMutex, held⟩, none)
  | .tryMutex =>
    if p.mutex = none then some ({ p with mutex := some curr }, ⟨.tryWrite, held⟩, none)
    else some (p, ⟨.idle, held⟩, some (.tried (-1)))
  | .tryWrite => some ({ p with threadId := some curr }, ⟨.tryIncrement, held⟩, none)
  | .tryIncrement => some ({ p with depth := p.depth + 1 }, ⟨.idle, held + 1⟩, some (.tried 0))
  | .unlockAssert => if p.threadId = some curr then some (p, ⟨.unlockDecrement, held⟩, none) else none
  | .unlockDecrement =>
    if p.depth > 1 then some ({ p with depth := p.depth - 1 }, ⟨.idle, held - 1⟩, some .unlocked)
    else some ({ p with depth := p.depth - 1 }, ⟨.unlockClear, held⟩, none)
  | .unlockClear => some ({ p with threadId := none }, ⟨.unlockMutex, held⟩, none)
  | .unlockMutex => some ({ p with mutex := none }, ⟨.idle, held - 1⟩, some .unlocked)

/-- A thread begins a call when it is idle, an unlock only when it is the owner. -/
def recursiveMutexStep (curr : Thread) (p : RecursiveMutex Thread) (here : MutexThread) :
    MutexMove → MutexResult Thread
  | .lock => some (p, if here.place = .idle then ⟨.lockRead, here.held⟩ else here, none)
  | .trylock => some (p, if here.place = .idle then ⟨.tryRead, here.held⟩ else here, none)
  | .unlock =>
    some (p, if here.place = .idle ∧ 0 < here.held then ⟨.unlockAssert, here.held⟩ else here, none)
  | .proceed => recursiveMutexProceed curr p here.held here.place

abbrev MutexConfig (Thread : Type) : Type := Config (RecursiveMutex Thread) Thread MutexThread

end Steps

section Invariant

variable {Thread : Type} [DecidableEq Thread] {curr : Thread} {p after : RecursiveMutex Thread}
  {count : Nat} {there : MutexThread} {config : MutexConfig Thread}
variable {place : MutexPlace} {thread : Thread}

def OwnerAt (p : RecursiveMutex Thread) (curr : Thread) (held : Nat) : MutexPlace → Prop
  | .idle | .lockRead | .tryRead | .unlockAssert | .unlockDecrement =>
    p.threadId = some curr ∧ p.depth = held ∧ 0 < held
  | .lockAssert | .lockWrite | .tryWrite => p.threadId = none ∧ p.depth = 0 ∧ held = 0
  | .lockIncrement | .tryIncrement => p.threadId = some curr ∧ p.depth = held
  | .unlockClear => p.threadId = some curr ∧ p.depth = 0 ∧ held = 1
  | .unlockMutex => p.threadId = none ∧ p.depth = 0 ∧ held = 1
  | .lockMutex | .tryMutex => False

def OutsideAt (held : Nat) : MutexPlace → Prop
  | .idle | .lockRead | .lockMutex | .tryRead | .tryMutex => held = 0
  | _ => False

structure MutexHolds (config : MutexConfig Thread) : Prop where
  free : config.shared.mutex = none → config.shared.threadId = none ∧ config.shared.depth = 0
  owner : ∀ thread, config.shared.mutex = some thread →
    OwnerAt config.shared thread (config.locals thread).held (config.locals thread).place
  outside : ∀ thread, config.shared.mutex ≠ some thread →
    OutsideAt (config.locals thread).held (config.locals thread).place

inductive MutexEffect (p : RecursiveMutex Thread) (curr : Thread) :
    RecursiveMutex Thread → MutexThread → Prop where
  | owns {after : RecursiveMutex Thread} {there : MutexThread}
      (mine : ∀ other, p.mutex = some other → other = curr)
      (isOwner : after.mutex = some curr) (place : OwnerAt after curr there.held there.place) :
      MutexEffect p curr after there
  | releases {after : RecursiveMutex Thread} {there : MutexThread} (mine : p.mutex = some curr)
      (free : after.mutex = none ∧ after.threadId = none ∧ after.depth = 0)
      (place : OutsideAt there.held there.place) :
      MutexEffect p curr after there
  | stays {there : MutexThread} (notMine : p.mutex ≠ some curr)
      (place : OutsideAt there.held there.place) :
      MutexEffect p curr p there

theorem MutexHolds.effect (holds : MutexHolds config)
    (effect : MutexEffect config.shared curr after there) :
    MutexHolds ⟨after, Function.update config.locals curr there⟩ := by
  have elsewhere : ∀ thread, thread ≠ curr →
    Function.update config.locals curr there thread = config.locals thread :=
    fun thread other => Function.update_of_ne other ..
  cases effect with
  | owns mine isOwner place =>
    refine ⟨?_, ?_, ?_⟩
    · intro none
      exact nomatch isOwner.symm.trans none
    · intro thread same
      obtain rfl : curr = thread := Option.some.inj (isOwner.symm.trans same)
      dsimp only
      rw [Function.update_self]
      exact place
    · intro thread different
      have other : thread ≠ curr := fun same => different (by rw [same]; exact isOwner)
      dsimp only
      rw [elsewhere thread other]
      exact holds.outside thread fun same => other (mine thread same)
  | releases mine free place =>
    refine ⟨fun _ => free.2, ?_, ?_⟩
    · intro thread same
      exact nomatch free.1.symm.trans same
    · intro thread _
      by_cases other : thread = curr
      · subst other
        dsimp only
        rw [Function.update_self]
        exact place
      · dsimp only
        rw [elsewhere thread other]
        exact holds.outside thread fun same => other (Option.some.inj (same.symm.trans mine))
  | stays notMine place =>
    refine ⟨holds.free, ?_, ?_⟩
    · intro thread same
      have other : thread ≠ curr := fun equal => notMine (by rw [← equal]; exact same)
      dsimp only
      rw [elsewhere thread other]
      exact holds.owner thread same
    · intro thread different
      by_cases other : thread = curr
      · subst other
        dsimp only
        rw [Function.update_self]
        exact place
      · dsimp only
        rw [elsewhere thread other]
        exact holds.outside thread different

theorem owner_proceed (isOwner : p.mutex = some curr) (held : OwnerAt p curr count place) :
    ∃ after there event, recursiveMutexProceed curr p count place = some (after, there, event) ∧
      MutexEffect p curr after there := by
  have mine : ∀ other, p.mutex = some other → other = curr :=
    fun other same => Option.some.inj (same.symm.trans isOwner)
  cases place with
  | idle => exact ⟨_, _, _, rfl, .owns mine isOwner held⟩
  | lockRead =>
    rw [recursiveMutexProceed, if_pos held.1]
    exact ⟨_, _, _, rfl, .owns mine isOwner ⟨held.1, held.2.1⟩⟩
  | lockMutex => exact absurd held id
  | lockAssert =>
    rw [recursiveMutexProceed, if_pos held.1]
    exact ⟨_, _, _, rfl, .owns mine isOwner held⟩
  | lockWrite =>
    obtain ⟨-, depth, none⟩ := held
    exact ⟨_, _, _, rfl, .owns mine isOwner ⟨rfl, by rw [depth, none]; rfl⟩⟩
  | lockIncrement =>
    obtain ⟨same, depth⟩ := held
    exact ⟨_, _, _, rfl, .owns mine isOwner ⟨same, by rw [depth]; rfl, Nat.succ_pos _⟩⟩
  | tryRead =>
    rw [recursiveMutexProceed, if_pos held.1]
    exact ⟨_, _, _, rfl, .owns mine isOwner ⟨held.1, held.2.1⟩⟩
  | tryMutex => exact absurd held id
  | tryWrite =>
    obtain ⟨-, depth, none⟩ := held
    exact ⟨_, _, _, rfl, .owns mine isOwner ⟨rfl, by rw [depth, none]; rfl⟩⟩
  | tryIncrement =>
    obtain ⟨same, depth⟩ := held
    exact ⟨_, _, _, rfl, .owns mine isOwner ⟨same, by rw [depth]; rfl, Nat.succ_pos _⟩⟩
  | unlockAssert =>
    rw [recursiveMutexProceed, if_pos held.1]
    exact ⟨_, _, _, rfl, .owns mine isOwner held⟩
  | unlockDecrement =>
    obtain ⟨same, depth, positive⟩ := held
    rw [recursiveMutexProceed]
    split
    next nested =>
      exact ⟨_, _, _, rfl, .owns mine isOwner ⟨same, by dsimp only; omega, by dsimp only; omega⟩⟩
    next last =>
      exact ⟨_, _, _, rfl, .owns mine isOwner ⟨same, by dsimp only; omega, by dsimp only; omega⟩⟩
  | unlockClear =>
    obtain ⟨-, depth, one⟩ := held
    exact ⟨_, _, _, rfl, .owns mine isOwner ⟨rfl, depth, one⟩⟩
  | unlockMutex =>
    obtain ⟨none, depth, rfl⟩ := held
    exact ⟨_, _, _, rfl, .releases isOwner ⟨rfl, none, depth⟩ rfl⟩

theorem outside_proceed (free : p.mutex = none → p.threadId = none ∧ p.depth = 0)
    (notOwner : p.mutex ≠ some curr) (foreign : p.threadId ≠ some curr)
    (held : OutsideAt count place) :
    ∃ after there event, recursiveMutexProceed curr p count place = some (after, there, event) ∧
      MutexEffect p curr after there := by
  cases place with
  | idle => exact ⟨_, _, _, rfl, .stays notOwner held⟩
  | lockRead =>
    rw [recursiveMutexProceed, if_neg foreign]
    exact ⟨_, _, _, rfl, .stays notOwner held⟩
  | lockMutex =>
    rw [recursiveMutexProceed]
    split
    next unlocked =>
      have mine : ∀ other, p.mutex = some other → other = curr :=
        fun other same => nomatch unlocked.symm.trans same
      obtain ⟨noId, depth⟩ := free unlocked
      exact ⟨_, _, _, rfl, .owns mine rfl ⟨noId, depth, held⟩⟩
    next => exact ⟨_, _, _, rfl, .stays notOwner held⟩
  | tryRead =>
    rw [recursiveMutexProceed, if_neg foreign]
    exact ⟨_, _, _, rfl, .stays notOwner held⟩
  | tryMutex =>
    rw [recursiveMutexProceed]
    split
    next unlocked =>
      have mine : ∀ other, p.mutex = some other → other = curr :=
        fun other same => nomatch unlocked.symm.trans same
      obtain ⟨noId, depth⟩ := free unlocked
      exact ⟨_, _, _, rfl, .owns mine rfl ⟨noId, depth, held⟩⟩
    next => exact ⟨_, _, _, rfl, .stays notOwner held⟩
  | _ => exact absurd held id

omit [DecidableEq Thread] in
theorem MutexHolds.foreign (holds : MutexHolds config)
    (notOwner : config.shared.mutex ≠ some thread) :
    config.shared.threadId ≠ some thread := by
  intro same
  cases locked : config.shared.mutex with
  | none => exact nomatch (holds.free locked).1.symm.trans same
  | some owner =>
    have other : owner ≠ thread := fun equal => notOwner (by rw [locked, equal])
    have place := holds.owner owner locked
    have own : config.shared.threadId = some owner ∨ config.shared.threadId = none := by
      revert place
      cases (config.locals owner).place <;> simp +contextual [OwnerAt]
    rcases own with own | none
    · exact other (Option.some.inj (own.symm.trans same))
    · exact nomatch none.symm.trans same

theorem MutexHolds.does (holds : MutexHolds config) (curr : Thread) (move : MutexMove) :
    ∃ after there event, recursiveMutexStep curr config.shared (config.locals curr) move =
      some (after, there, event) ∧ MutexEffect config.shared curr after there := by
  by_cases isOwner : config.shared.mutex = some curr
  · have held := holds.owner curr isOwner
    have mine : ∀ other, config.shared.mutex = some other → other = curr :=
      fun other same => Option.some.inj (same.symm.trans isOwner)
    cases move with
    | proceed => exact owner_proceed isOwner held
    | lock =>
      refine ⟨_, _, _, rfl, .owns mine isOwner ?_⟩
      split
      next idle =>
        rw [idle] at held
        exact held
      next => exact held
    | trylock =>
      refine ⟨_, _, _, rfl, .owns mine isOwner ?_⟩
      split
      next idle =>
        rw [idle] at held
        exact held
      next => exact held
    | unlock =>
      refine ⟨_, _, _, rfl, .owns mine isOwner ?_⟩
      split
      next idle =>
        rw [idle.1] at held
        exact held
      next => exact held
  · have held := holds.outside curr isOwner
    cases move with
    | proceed => exact outside_proceed holds.free isOwner (holds.foreign isOwner) held
    | lock =>
      refine ⟨_, _, _, rfl, .stays isOwner ?_⟩
      split
      next idle =>
        rw [idle] at held
        exact held
      next => exact held
    | trylock =>
      refine ⟨_, _, _, rfl, .stays isOwner ?_⟩
      split
      next idle =>
        rw [idle] at held
        exact held
      next => exact held
    | unlock =>
      refine ⟨_, _, _, rfl, .stays isOwner ?_⟩
      split
      next idle =>
        rw [idle.1] at held
        exact absurd held (Nat.ne_of_gt idle.2)
      next => exact held

theorem MutexHolds.step (holds : MutexHolds config) (move : Thread × MutexMove) :
    ∃ next event, interleave recursiveMutexStep config move = some (next, event) ∧
      MutexHolds next := by
  obtain ⟨after, there, event, stepped, effect⟩ := holds.does move.1 move.2
  exact ⟨_, event, interleave_some stepped, holds.effect effect⟩

structure RecursiveMutexSafe (config : MutexConfig Thread) : Prop where
  exclusive : ∀ first second, 0 < (config.locals first).held → 0 < (config.locals second).held →
    first = second
  keeps : ∀ thread, 0 < (config.locals thread).held → config.shared.mutex = some thread
  counts : ∀ thread, 0 < (config.locals thread).held → (config.locals thread).place = .idle →
    config.shared.depth = (config.locals thread).held
  released : ∀ thread, (config.locals thread).held = 0 → (config.locals thread).place = .idle →
    config.shared.mutex ≠ some thread
  /-- The owner does not wait for itself. -/
  again : ∀ thread next event, 0 < (config.locals thread).held →
    interleave recursiveMutexStep config (thread, .proceed) = some (next, event) →
      ((config.locals thread).place = .lockRead → (next.locals thread).place = .lockIncrement) ∧
      ((config.locals thread).place = .lockIncrement → event = some .locked) ∧
      ((config.locals thread).place = .tryRead → (next.locals thread).place = .tryIncrement) ∧
      ((config.locals thread).place = .tryIncrement → event = some (.tried 0))
  tried : ∀ thread next event, interleave recursiveMutexStep config (thread, .proceed) =
    some (next, event) →
    (event = some (.tried (-1)) ↔
      (config.locals thread).place = .tryMutex ∧ ∃ other, other ≠ thread ∧
      config.shared.mutex = some other)

omit [DecidableEq Thread] in
theorem MutexHolds.held_owner (holds : MutexHolds config) (held : 0 < (config.locals thread).held) :
    config.shared.mutex = some thread := by
  by_contra other
  have outside := holds.outside thread other
  revert outside
  cases (config.locals thread).place <;> simp [OutsideAt] <;> omega

theorem MutexHolds.safe (holds : MutexHolds config) : RecursiveMutexSafe config := by
  refine ⟨?_, fun thread => holds.held_owner, ?_, ?_, ?_, ?_⟩
  · intro first second firstHeld secondHeld
    exact Option.some.inj ((holds.held_owner firstHeld).symm.trans (holds.held_owner secondHeld))
  · intro thread held idle
    have owner := holds.owner thread (holds.held_owner held)
    rw [idle] at owner
    exact owner.2.1
  · intro thread none idle locked
    have owner := holds.owner thread locked
    rw [idle, none] at owner
    exact Nat.lt_irrefl 0 owner.2.2
  · intro thread next event held stepped
    obtain ⟨there, proceeded, after⟩ := interleave_eq_some stepped
    dsimp only [recursiveMutexStep] at proceeded after
    have owner := holds.owner thread (holds.held_owner held)
    have reached : next.locals thread = there := by rw [after, Function.update_self]
    rw [reached]
    refine ⟨?_, ?_, ?_, ?_⟩
    · intro place
      rw [place] at owner proceeded
      rw [recursiveMutexProceed, if_pos owner.1] at proceeded
      simp only [Option.some.injEq, Prod.mk.injEq] at proceeded
      rw [← proceeded.2.1]
    · intro place
      rw [place] at proceeded
      simp only [recursiveMutexProceed, Option.some.injEq, Prod.mk.injEq] at proceeded
      exact proceeded.2.2.symm
    · intro place
      rw [place] at owner proceeded
      rw [recursiveMutexProceed, if_pos owner.1] at proceeded
      simp only [Option.some.injEq, Prod.mk.injEq] at proceeded
      rw [← proceeded.2.1]
    · intro place
      rw [place] at proceeded
      simp only [recursiveMutexProceed, Option.some.injEq, Prod.mk.injEq] at proceeded
      exact proceeded.2.2.symm
  · intro thread next event stepped
    obtain ⟨there, proceeded, -⟩ := interleave_eq_some stepped
    dsimp only [recursiveMutexStep] at proceeded
    have owner := holds.owner thread
    generalize (config.locals thread).place = place at owner proceeded ⊢
    constructor
    · rintro rfl
      cases place with
      | tryMutex =>
        refine ⟨rfl, ?_⟩
        cases locked : config.shared.mutex with
        | none => simp [recursiveMutexProceed, locked] at proceeded
        | some other =>
          refine ⟨other, ?_, rfl⟩
          rintro rfl
          exact owner locked
      | _ =>
        simp only [recursiveMutexProceed] at proceeded
        (try split at proceeded) <;> simp at proceeded
    · rintro ⟨rfl, other, -, locked⟩
      have taken : config.shared.mutex ≠ none := by simp [locked]
      rw [recursiveMutexProceed, if_neg taken] at proceeded
      simp only [Option.some.injEq, Prod.mk.injEq] at proceeded
      exact proceeded.2.2.symm

end Invariant

end MulleCore
