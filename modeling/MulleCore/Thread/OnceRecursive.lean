import MulleCore.Thread.RecursiveMutex

/-!
`mulle_thread_once_call_recursive` of `mulle-thread.c`, with a step for each atomic operation, the
start and the end of the initialiser. The initialiser can call again, so a thread has a stack of
calls.
-/

namespace MulleCore

open Library

inductive OnceState where
  | init
  | busy
  | done
deriving DecidableEq

structure OnceRecursive (Thread : Type) where
  state : OnceState
  threadId : Option Thread

inductive OncePlace where
  | readId
  | swap
  | wait
  | writeId
  | initialiser
  | clearId
  | swapDone
deriving DecidableEq

inductive OnceMove where
  | call
  | proceed
deriving DecidableEq

inductive OnceEvent where
  | initialises
  | initialised
  | returned
deriving DecidableEq

section Steps

variable {Thread : Type} [DecidableEq Thread]

abbrev OnceResult (Thread : Type) : Type :=
  Option (OnceRecursive Thread × List OncePlace × Option OnceEvent)

def onceCallRecursiveProceed (thisThreadId : Thread) (once : OnceRecursive Thread) :
    List OncePlace → OnceResult Thread
  | [] => some (once, [], none)
  | .readId :: callers =>
    if once.threadId = some thisThreadId then some (once, callers, some .returned)
    else some (once, .swap :: callers, none)
  | .swap :: callers =>
    match once.state with
    | .init => some ({ once with state := .busy }, .writeId :: callers, none)
    | .busy => some (once, .wait :: callers, none)
    | .done => some (once, callers, some .returned)
  | .wait :: callers =>
    if once.state = .done then some (once, callers, some .returned)
      else some (once, .wait :: callers, none)
  | .writeId :: callers =>
    some ({ once with threadId := some thisThreadId }, .initialiser :: callers, some .initialises)
  | .initialiser :: callers => some (once, .clearId :: callers, some .initialised)
  | .clearId :: callers => some ({ once with threadId := none }, .swapDone :: callers, none)
  | .swapDone :: callers =>
    some ({ once with state := if once.state = .busy then .done else once.state }, callers,
      some .returned)

/-- A thread calls when it is in no call, or from its initialiser. -/
def onceCallRecursiveStep (thisThreadId : Thread) (once : OnceRecursive Thread)
    (calls : List OncePlace) :
    OnceMove → OnceResult Thread
  | .call =>
    match calls with
    | [] => some (once, [.readId], none)
    | .initialiser :: callers => some (once, .readId :: .initialiser :: callers, none)
    | inside => some (once, inside, none)
  | .proceed => onceCallRecursiveProceed thisThreadId once calls

abbrev OnceConfig (Thread : Type) : Type := Config (OnceRecursive Thread) Thread (List OncePlace)

end Steps

section Invariant

variable {Thread : Type} [DecidableEq Thread] {curr : Thread}
  {past : List (Option OnceEvent)} {config : OnceConfig Thread}
variable {event : Option OnceEvent} {owner : Thread} {threadId : Option Thread}
  {calls : List OncePlace} {after : OnceRecursive Thread}

inductive OnceOutside : List OncePlace → Prop where
  | idle : OnceOutside []
  | readId : OnceOutside [.readId]
  | swap : OnceOutside [.swap]
  | wait : OnceOutside [.wait]

inductive OnceOwner (past : List (Option OnceEvent)) (owner : Thread) :
    Option Thread → List OncePlace → Prop where
  | writeId (fresh : past.count (some .initialises) = 0) : OnceOwner past owner none [.writeId]
  | initialiser (once : past.count (some .initialises) = 1) :
      OnceOwner past owner (some owner) [.initialiser]
  | nested (once : past.count (some .initialises) = 1) :
      OnceOwner past owner (some owner) [.readId, .initialiser]
  | clearId (once : past.count (some .initialises) = 1) (ended : some .initialised ∈ past) :
      OnceOwner past owner (some owner) [.clearId]
  | swapDone (once : past.count (some .initialises) = 1) (ended : some .initialised ∈ past) :
      OnceOwner past owner none [.swapDone]

inductive OnceHolds (past : List (Option OnceEvent)) (config : OnceConfig Thread) : Prop where
  | before (state : config.shared.state = .init) (noId : config.shared.threadId = none)
      (outside : ∀ thread, OnceOutside (config.locals thread))
      (fresh : past.count (some .initialises) = 0)
  | during (owner : Thread) (state : config.shared.state = .busy)
      (isOwner : OnceOwner past owner config.shared.threadId (config.locals owner))
      (outside : ∀ thread, thread ≠ owner → OnceOutside (config.locals thread))
  | after (state : config.shared.state = .done) (noId : config.shared.threadId = none)
      (outside : ∀ thread, OnceOutside (config.locals thread))
      (once : past.count (some .initialises) = 1) (ended : some .initialised ∈ past)

theorem count_append_other (other : event ≠ some .initialises) :
    (past ++ [event]).count (some .initialises) = past.count (some .initialises) := by
  simp [other]

omit [DecidableEq Thread] in
theorem OnceOwner.append
    (isOwner : OnceOwner past owner threadId calls) (other : event ≠ some .initialises) :
    OnceOwner (past ++ [event]) owner threadId calls := by
  have same : (past ++ [event]).count (some .initialises) = past.count (some .initialises) :=
    count_append_other other
  cases isOwner with
  | writeId fresh => exact .writeId (same.trans fresh)
  | initialiser once => exact .initialiser (same.trans once)
  | nested once => exact .nested (same.trans once)
  | clearId once ended => exact .clearId (same.trans once) (List.mem_append_left _ ended)
  | swapDone once ended => exact .swapDone (same.trans once) (List.mem_append_left _ ended)

omit [DecidableEq Thread] in
theorem OnceOwner.foreign
    (isOwner : OnceOwner past owner threadId calls) (other : owner ≠ curr) :
    threadId ≠ some curr := by
  cases isOwner <;> simp [other]

omit [DecidableEq Thread] in
theorem OnceOwner.once
    (isOwner : OnceOwner past owner threadId calls) : past.count (some .initialises) ≤ 1 := by
  cases isOwner <;> omega

theorem outside_step {once : OnceRecursive Thread} (outside : OnceOutside calls)
    (foreign : once.threadId ≠ some curr) (move : OnceMove) :
    ∃ after there event, onceCallRecursiveStep curr once calls move = some (after, there, event) ∧
      event ≠ some .initialises ∧
        ((after = once ∧ OnceOutside there ∧ (event = some .returned → once.state = .done)) ∨
          (once.state = .init ∧ after = ⟨.busy, once.threadId⟩ ∧ there = [.writeId] ∧
            event = none)) := by
  cases move with
  | call => cases outside <;> exact ⟨_, _, _, rfl, nofun, .inl ⟨rfl, by constructor, nofun⟩⟩
  | proceed =>
    cases outside with
    | idle => exact ⟨_, _, _, rfl, nofun, .inl ⟨rfl, .idle, nofun⟩⟩
    | readId =>
      rw [onceCallRecursiveStep, onceCallRecursiveProceed, if_neg foreign]
      exact ⟨_, _, _, rfl, nofun, .inl ⟨rfl, .swap, nofun⟩⟩
    | swap =>
      rw [onceCallRecursiveStep, onceCallRecursiveProceed]
      split
      next fresh => exact ⟨_, _, _, rfl, nofun, .inr ⟨fresh, rfl, rfl, rfl⟩⟩
      next => exact ⟨_, _, _, rfl, nofun, .inl ⟨rfl, .wait, nofun⟩⟩
      next done => exact ⟨_, _, _, rfl, nofun, .inl ⟨rfl, .idle, fun _ => done⟩⟩
    | wait =>
      rw [onceCallRecursiveStep, onceCallRecursiveProceed]
      split
      next done => exact ⟨_, _, _, rfl, nofun, .inl ⟨rfl, .idle, fun _ => done⟩⟩
      next => exact ⟨_, _, _, rfl, nofun, .inl ⟨rfl, .wait, nofun⟩⟩

theorem owner_step {once : OnceRecursive Thread} (busy : once.state = .busy)
    (isOwner : OnceOwner past curr once.threadId calls) (move : OnceMove) :
    ∃ after there event, onceCallRecursiveStep curr once calls move = some (after, there, event) ∧
      ((after.state = .busy ∧ OnceOwner (past ++ [event]) curr after.threadId there) ∨
        (after.state = .done ∧ after.threadId = none ∧ there = [] ∧
          (past ++ [event]).count (some .initialises) = 1 ∧ some .initialised ∈ past ++
            [event])) := by
  obtain ⟨state, threadId⟩ := once
  dsimp only at busy isOwner
  subst busy
  have kept : OnceOwner (past ++ [none]) curr threadId calls := isOwner.append nofun
  cases move with
  | call =>
    cases isOwner with
    | initialiser once => exact ⟨_, _, _, rfl, .inl ⟨rfl, .nested (by simpa using once)⟩⟩
    | _ => exact ⟨_, _, _, rfl, .inl ⟨rfl, kept⟩⟩
  | proceed =>
    cases isOwner with
    | writeId fresh => exact ⟨_, _, _, rfl, .inl ⟨rfl, .initialiser (by simp [fresh])⟩⟩
    | initialiser once =>
      exact ⟨_, _, _, rfl, .inl ⟨rfl, .clearId (by simpa using once) (by simp)⟩⟩
    | nested once =>
      rw [onceCallRecursiveStep, onceCallRecursiveProceed, if_pos rfl]
      exact ⟨_, _, _, rfl, .inl ⟨rfl, .initialiser (by simpa using once)⟩⟩
    | clearId once ended =>
      exact ⟨_, _, _, rfl, .inl ⟨rfl, .swapDone (by simpa using once) (List.mem_append_left _ ended)⟩⟩
    | swapDone once ended =>
      exact ⟨_, _, _, rfl,
        .inr ⟨rfl, rfl, rfl, by simpa using once, List.mem_append_left _ ended⟩⟩

/-- No step of any thread can fail, and none breaks what holds of the variable. -/
theorem OnceHolds.step (holds : OnceHolds past config) (move : Thread × OnceMove) :
    ∃ next event, interleave onceCallRecursiveStep config move = some (next, event) ∧
      OnceHolds (past ++ [event]) next := by
  obtain ⟨curr, move⟩ := move
  have elsewhere : ∀ there thread, thread ≠ curr →
    Function.update config.locals curr there thread = config.locals thread :=
    fun there thread other => Function.update_of_ne other ..
  cases holds with
  | before state noId outside fresh =>
    have foreign : config.shared.threadId ≠ some curr := by simp [noId]
    obtain ⟨after, there, event, stepped, other, stays | swaps⟩ :=
      outside_step (outside curr) foreign move
    · obtain ⟨rfl, still, -⟩ := stays
      refine ⟨_, event, interleave_some stepped,
        .before state noId ?_ ((count_append_other other).trans fresh)⟩
      intro thread
      by_cases same : thread = curr
      · subst same
        simpa using still
      · simpa [elsewhere _ _ same] using outside thread
    · obtain ⟨-, rfl, rfl, rfl⟩ := swaps
      refine ⟨_, none, interleave_some stepped, .during curr rfl ?_ ?_⟩
      · simpa [noId] using OnceOwner.writeId (by simpa using fresh)
      · intro thread different
        simpa [elsewhere _ _ different] using outside thread
  | during owner state isOwner outside =>
    by_cases mine : curr = owner
    · subst mine
      obtain ⟨after, there, event, stepped, inside | leaves⟩ := owner_step state isOwner move
      · obtain ⟨busy, still⟩ := inside
        refine ⟨_, event, interleave_some stepped, .during curr busy (by simpa using still) ?_⟩
        intro thread different
        simpa [elsewhere _ _ different] using outside thread different
      · obtain ⟨done, noId, rfl, once, ended⟩ := leaves
        refine ⟨_, event, interleave_some stepped, .after done noId ?_ once ended⟩
        intro thread
        by_cases same : thread = curr
        · subst same
          simpa using OnceOutside.idle
        · simpa [elsewhere _ _ same] using outside thread same
    · have foreign := isOwner.foreign (Ne.symm mine)
      obtain ⟨after, there, event, stepped, other, stays | swaps⟩ :=
        outside_step (outside curr mine) foreign move
      · obtain ⟨rfl, still, -⟩ := stays
        refine ⟨_, event, interleave_some stepped, .during owner state ?_ ?_⟩
        · simpa [elsewhere _ _ (Ne.symm mine)] using isOwner.append other
        · intro thread different
          by_cases same : thread = curr
          · subst same
            simpa using still
          · simpa [elsewhere _ _ same] using outside thread different
      · exact nomatch state.symm.trans swaps.1
  | after state noId outside once ended =>
    have foreign : config.shared.threadId ≠ some curr := by simp [noId]
    obtain ⟨after, there, event, stepped, other, stays | swaps⟩ :=
      outside_step (outside curr) foreign move
    · obtain ⟨rfl, still, -⟩ := stays
      refine ⟨_, event, interleave_some stepped,
        .after state noId ?_ ((count_append_other other).trans once) (List.mem_append_left _ ended)⟩
      intro thread
      by_cases same : thread = curr
      · subst same
        simpa using still
      · simpa [elsewhere _ _ same] using outside thread
    · exact nomatch state.symm.trans swaps.1

omit [DecidableEq Thread] in
theorem OnceOutside.callers {place : OncePlace} {callers : List OncePlace}
    (outside : OnceOutside (place :: callers)) :
    callers = [] := by
  cases outside <;> rfl

structure OnceSafe (past : List (Option OnceEvent)) (config : OnceConfig Thread) : Prop where
  once : past.count (some .initialises) ≤ 1
  waits : ∀ thread next, interleave onceCallRecursiveStep config (thread, .proceed) =
    some (next, some .returned) →
    next.locals thread = [] → past.count (some .initialises) = 1 ∧ some .initialised ∈ past
  nested : ∀ thread place caller callers, config.locals thread = place :: caller :: callers →
    caller = .initialiser ∧
      ∃ next, interleave onceCallRecursiveStep config (thread, .proceed) =
        some (next, some .returned) ∧
        next.locals thread = caller :: callers

theorem outside_returns {once : OnceRecursive Thread} {there : List OncePlace}
    (outside : OnceOutside calls) (foreign : once.threadId ≠ some curr)
    (returned : onceCallRecursiveStep curr once calls .proceed =
      some (after, there, some .returned)) :
    once.state = .done := by
  obtain ⟨_, _, event, stepped, -, stays | swaps⟩ := outside_step outside foreign .proceed
  · have same : event = some .returned := by simp_all
    exact stays.2.2 same
  · have same : event = some .returned := by simp_all
    exact nomatch swaps.2.2.2.symm.trans same

theorem owner_returns {once : OnceRecursive Thread} (busy : once.state = .busy)
    (isOwner : OnceOwner past curr once.threadId calls)
    (returned : onceCallRecursiveStep curr once calls .proceed = some (after, [], some .returned)) :
    past.count (some .initialises) = 1 ∧ some .initialised ∈ past := by
  obtain ⟨last, there, event, stepped, inside | leaves⟩ := owner_step busy isOwner .proceed
  · have same : there = [] := by simp_all
    subst same
    have still := inside.2
    generalize last.threadId = threadId at still
    cases still
  · have same : event = some .returned := by simp_all
    subst same
    simpa using leaves.2.2.2

theorem OnceHolds.returns (holds : OnceHolds past config) {thread : Thread} {next : OnceConfig Thread}
    (returned : interleave onceCallRecursiveStep config (thread, .proceed) =
      some (next, some .returned))
    (outermost : next.locals thread = []) : past.count (some .initialises) = 1 ∧
    some .initialised ∈ past := by
  obtain ⟨there, proceeded, after⟩ := interleave_eq_some returned
  have left : there = [] := by simpa [after] using outermost
  subst left
  cases holds with
  | before state noId outside _ =>
    have done := outside_returns (outside thread) (by simp [noId]) proceeded
    exact nomatch state.symm.trans done
  | after _ _ _ once ended => exact ⟨once, ended⟩
  | during owner state isOwner outside =>
    by_cases mine : thread = owner
    · subst mine
      exact owner_returns state isOwner proceeded
    · have done := outside_returns (outside thread mine) (isOwner.foreign (Ne.symm mine)) proceeded
      exact nomatch state.symm.trans done

theorem OnceHolds.safe (holds : OnceHolds past config) : OnceSafe past config := by
  refine ⟨?_, fun thread next => holds.returns, ?_⟩
  · cases holds with
    | before _ _ _ fresh => omega
    | during owner _ isOwner _ => exact isOwner.once
    | after _ _ _ once _ => omega
  · intro thread place caller callers calls
    cases holds with
    | before _ _ outside _ => exact nomatch (calls ▸ outside thread).callers
    | after _ _ outside _ _ => exact nomatch (calls ▸ outside thread).callers
    | during owner state isOwner outside =>
      by_cases mine : thread = owner
      · subst mine
        rw [calls] at isOwner
        generalize own : config.shared.threadId = threadId at isOwner
        cases isOwner with
        | nested once =>
          have stepped : onceCallRecursiveStep thread config.shared (config.locals thread) .proceed =
              some (config.shared, [.initialiser], some .returned) := by
            simp [onceCallRecursiveStep, onceCallRecursiveProceed, calls, own]
          exact ⟨rfl, _, interleave_some stepped, by simp⟩
      · exact nomatch (calls ▸ outside thread mine).callers

end Invariant

end MulleCore
