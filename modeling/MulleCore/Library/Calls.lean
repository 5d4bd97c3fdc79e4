import Mathlib.Data.List.Basic
import MulleCore.Library.Simulation

/-!
The calls of threads that step on a shared state: with what a call began, and how many steps of its
own it still takes until it reports something.
-/

namespace Library

section Calls

variable {Shared Thread Local Choice Event : Type} [DecidableEq Thread]
  {step : Thread → Shared → Local → Choice → Option (Shared × Local × Option Event)}
  {start : Config Shared Thread Local} {idle : Local}
  {moves : List (Thread × Choice)} {thread : Thread}
variable {n : Nat} {config : Config Shared Thread Local} {choice : Choice} {here : Local}
  {called : Choice}

theorem visited_succ (visits : visited step start moves (n + 1) = some config) :
    (moves[n]? = none ∧ visited step start moves n = some config) ∨
      ∃ move before event, moves[n]? = some move ∧ visited step start moves n = some before ∧
        interleave step before move = some (config, event) := by
  rw [visited, List.take_add_one] at visits
  cases found : moves[n]? with
  | none =>
    rw [found, Option.toList_none, List.append_nil] at visits
    exact .inl ⟨rfl, visits⟩
  | some move =>
    rw [found, Option.toList_some, run_append] at visits
    obtain ⟨⟨last, answers⟩, ran, rfl⟩ := Option.map_eq_some_iff.mp visits
    obtain ⟨⟨before, first⟩, begun, rest⟩ := Option.bind_eq_some_iff.mp ran
    obtain ⟨⟨_, _⟩, ended, same⟩ := Option.map_eq_some_iff.mp rest
    obtain ⟨rfl, -⟩ := Prod.mk.inj same
    obtain ⟨⟨after, event⟩, stepped, finished⟩ := Option.bind_eq_some_iff.mp ended
    obtain ⟨rfl, -⟩ := Prod.mk.inj (Option.some.inj finished)
    exact .inr ⟨move, before, event, rfl, by rw [visited, begun, Option.map_some], stepped⟩

/-- The call in which the thread is after `n` moves began with the choice. -/
def CallOf (step : Thread → Shared → Local → Choice → Option (Shared × Local × Option Event))
    (start : Config Shared Thread Local) (idle : Local)
    (moves : List (Thread × Choice)) (thread : Thread) (n : Nat) (choice : Choice) : Prop :=
  ∃ m before, m < n ∧ moves[m]? = some (thread, choice) ∧ visited step start moves m = some before ∧
    before.locals thread = idle ∧
    ∀ k, m < k → k ≤ n →
      ∃ between, visited step start moves k = some between ∧ between.locals thread ≠ idle

theorem CallOf.next (call : CallOf step start idle moves thread n choice)
    (visits : visited step start moves (n + 1) = some config) (inside : config.locals thread ≠ idle) :
    CallOf step start idle moves thread (n + 1) choice := by
  obtain ⟨m, before, earlier, moved, visited, rests, during⟩ := call
  refine ⟨m, before, Nat.lt_succ_of_lt earlier, moved, visited, rests, fun k lower upper => ?_⟩
  rcases Nat.lt_or_eq_of_le upper with old | rfl
  · exact during k lower (Nat.le_of_lt_succ old)
  · exact ⟨config, visits, inside⟩

structure Served (begun : Local → Option Choice) (called : Choice) (about : Event → Prop)
    (result : Option (Shared × Local × Option Event)) : Prop where
  keeps : ∀ {after there event}, result = some (after, there, event) → begun there = none ∨
    begun there = some called
  reports : ∀ {after there event}, result = some (after, there, some event) → about event

section Served

variable {begun : Local → Option Choice} {called : Choice} {about : Event → Prop} {shared : Shared}
  {there : Local}

theorem served_none : Served begun called about (none : Option (Shared × Local × Option Event)) :=
  ⟨nofun, nofun⟩

theorem served_some {event : Option Event} (keeps : begun there = none ∨ begun there = some called)
    (reports : ∀ report, event = some report → about report) :
    Served begun called about (some (shared, there, event)) where
  keeps same := by
    obtain ⟨-, rfl, -⟩ : shared = _ ∧ there = _ ∧ event = _ := by simpa using same
    exact keeps
  reports same := by
    obtain ⟨-, -, rfl⟩ : shared = _ ∧ there = _ ∧ event = _ := by simpa using same
    exact reports _ rfl

theorem served_silent (keeps : begun there = some called) :
    Served begun called about (some (shared, there, none)) :=
  served_some (.inr keeps) nofun

theorem served_reports {report : Event} (keeps : begun there = none ∨ begun there = some called)
    (reported : about report) : Served begun called about (some (shared, there, some report)) :=
  served_some keeps fun _ same => Option.some.inj same ▸ reported

end Served

/-- A thread that is in no call begins one with a choice, or the choice is refused. -/
structure CallsServed
    (step : Thread → Shared → Local → Choice → Option (Shared × Local × Option Event))
    (idle : Local) (proceed : Choice) (begun : Local → Option Choice)
    (answers refused : Thread → Choice → Event → Prop) : Prop where
  resting : begun idle = none
  inside : ∀ {thread shared here called}, begun here = some called →
    Served begun called (answers thread called) (step thread shared here proceed)
  outside : ∀ {thread shared here}, begun here = none →
    step thread shared here proceed = some (shared, here, none)
  begins : ∀ {thread shared here choice after there event}, choice ≠ proceed →
    step thread shared here choice = some (after, there, event) → there = here ∧ event = none ∨
      here = idle ∧ (begun there = none ∨ begun there = some choice) ∧
        ∀ report, event = some report → refused thread choice report

variable {proceed : Choice} {begun : Local → Option Choice}
  {answers refused : Thread → Choice → Event → Prop}

omit [DecidableEq Thread] in
theorem CallsServed.keeps (calls : CallsServed step idle proceed begun answers refused)
    {shared after : Shared} {there : Local} {event : Option Event}
    (stepped : step thread shared here choice = some (after, there, event))
    (inside : begun there = some called) :
    begun here = some called ∨ here = idle ∧ choice = called := by
  by_cases works : choice = proceed
  · subst works
    cases before : begun here with
    | none =>
      rw [calls.outside before] at stepped
      cases stepped
      exact nomatch before.symm.trans inside
    | some current =>
      rcases (calls.inside before).keeps stepped with none | same
      · exact nomatch none.symm.trans inside
      · exact .inl (same.symm.trans inside)
  · obtain ⟨rfl, -⟩ | ⟨rests, none | same, -⟩ := calls.begins works stepped
    · exact .inl inside
    · exact nomatch none.symm.trans inside
    · exact .inr ⟨rests, Option.some.inj (same.symm.trans inside)⟩

omit [DecidableEq Thread] in
theorem CallsServed.busy (calls : CallsServed step idle proceed begun answers refused)
    (inside : begun here = some called) : here ≠ idle := by
  rintro rfl
  exact nomatch calls.resting.symm.trans inside

/-- A thread is in the call that it has begun. -/
theorem CallsServed.callOf (calls : CallsServed step idle proceed begun answers refused)
    (begins : start.locals thread = idle) (n : Nat) :
    ∀ {config : Config Shared Thread Local}, visited step start moves n = some config →
      begun (config.locals thread) = some called → CallOf step start idle moves thread n called := by
  induction n with
  | zero =>
    intro config visits inside
    obtain rfl := Option.some.inj visits
    exact absurd begins (calls.busy inside)
  | succ n ih =>
    intro config visits inside
    obtain ⟨_, before⟩ | ⟨⟨mover, move⟩, before, event, moved, visited, stepped⟩ :=
      visited_succ visits
    · exact (ih before inside).next visits (calls.busy inside)
    · obtain ⟨there, proceeded, after⟩ := interleave_eq_some stepped
      by_cases own : thread = mover
      · subst own
        have reached : config.locals thread = there := by rw [after, Function.update_self]
        obtain old | ⟨rests, rfl⟩ := calls.keeps proceeded (reached ▸ inside)
        · exact (ih visited old).next visits (calls.busy inside)
        · refine ⟨n, before, Nat.lt_succ_self n, moved, visited, rests, fun k lower upper => ?_⟩
          obtain rfl : k = n + 1 := by omega
          exact ⟨config, visits, calls.busy inside⟩
      · have unmoved : config.locals thread = before.locals thread := by
          rw [after, Function.update_of_ne own]
        exact (ih visited (unmoved ▸ inside)).next visits (calls.busy inside)

/-- What a thread reports is about the call that it is in, unless it was refused. -/
theorem CallsServed.answered (calls : CallsServed step idle proceed begun answers refused)
    (begins : ∀ thread, start.locals thread = idle) {final : Config Shared Thread Local}
    {events : List (Option Event)} (ran : run (interleave step) start moves = some (final, events))
    {event : Event} (reported : events[n]? = some (some event)) :
    (∃ thread choice, moves[n]? = some (thread, choice) ∧ refused thread choice event) ∨
      ∃ thread called, CallOf step start idle moves thread n called ∧
        moves[n]? = some (thread, proceed) ∧
        answers thread called event := by
  obtain ⟨⟨thread, choice⟩, config, next, moved, before, stepped⟩ := run_answered ran reported
  obtain ⟨there, proceeded, -⟩ := interleave_eq_some stepped
  have visits : visited step start moves n = some config := by rw [visited, before, Option.map_some]
  by_cases works : choice = proceed
  · subst works
    cases inside : begun (config.locals thread) with
    | none =>
      rw [calls.outside inside] at proceeded
      simp at proceeded
    | some called =>
      right
      exact ⟨thread, called, calls.callOf (begins thread) n visits inside, moved,
        (calls.inside inside).reports proceeded⟩
  · obtain ⟨-, silent⟩ | ⟨-, -, refuses⟩ := calls.begins works proceeded
    · exact nomatch silent
    · exact .inl ⟨thread, choice, moved, refuses event rfl⟩

def reportedBy (thread : Thread) (moves : List (Thread × Choice)) (answers : List (Option Event)) :
    List Event :=
  (moves.zip answers).filterMap fun (move, event) => if move.1 = thread then event else none

/-- The next that the thread reports is as expected, if it makes more than `bound` steps of its own,
whatever the other threads do in between. -/
def ReportsWithin [DecidableEq Choice]
    (step : Thread → Shared → Local → Choice → Option (Shared × Local × Option Event))
    (proceed : Choice) (config : Config Shared Thread Local) (thread : Thread) (bound : Nat)
    (expected : Event → Prop) : Prop :=
  ∀ moves final answers, run (interleave step) config moves = some (final, answers) →
    bound < moves.count (thread, proceed) →
    ∃ event, (reportedBy thread moves answers).head? = some event ∧ expected event

/-- A step of its own reports or comes closer to that, and the steps of other threads leave the
thread as close. In between it takes no other choice. -/
structure Phases (step : Thread → Shared → Local → Choice → Option (Shared × Local × Option Event))
    (proceed : Choice) (thread : Thread) (expected : Event → Prop)
    (phase : Nat → Config Shared Thread Local → Prop) : Prop where
  own {bound config next event} : phase bound config →
    interleave step config (thread, proceed) = some (next, event) →
      (∃ report, event = some report ∧ expected report) ∨ event = none ∧
      ∃ less < bound, phase less next
  inside {bound config choice} : phase bound config → choice ≠ proceed →
    step thread config.shared (config.locals thread) choice =
      some (config.shared, config.locals thread, none)
  other {bound config mover choice next event} : phase bound config → mover ≠ thread →
    interleave step config (mover, choice) = some (next, event) →
      next.locals thread = config.locals thread → phase bound next

theorem Phases.reports [DecidableEq Choice] {proceed : Choice} {expected : Event → Prop}
    {phase : Nat → Config Shared Thread Local → Prop}
    (phases : Phases step proceed thread expected phase) {bound : Nat}
    (begins : phase bound config) :
    ReportsWithin step proceed config thread bound expected := by
  intro moves
  induction moves generalizing bound config with
  | nil => exact fun _ _ _ enough => absurd enough (Nat.not_lt_zero _)
  | cons move moves ih =>
    intro final answers ran enough
    rw [run] at ran
    obtain ⟨⟨next, event⟩, stepped, ran⟩ := Option.bind_eq_some_iff.mp ran
    obtain ⟨⟨last, later⟩, finished, same⟩ := Option.bind_eq_some_iff.mp ran
    obtain ⟨rfl, rfl⟩ := Prod.mk.inj (Option.some.inj same)
    obtain ⟨mover, choice⟩ := move
    by_cases mine : mover = thread
    · subst mine
      by_cases works : choice = proceed
      · subst works
        rw [List.count_cons_self] at enough
        obtain ⟨report, rfl, good⟩ | ⟨rfl, less, closer, nearer⟩ := phases.own begins stepped
        · exact ⟨report, by simp [reportedBy], good⟩
        · obtain ⟨report, first, good⟩ := ih nearer last later finished (by omega)
          exact ⟨report, by simpa [reportedBy] using first, good⟩
      · have notOwn : (mover, choice) ≠ (mover, proceed) := fun same => works (Prod.mk.inj same).2
        rw [List.count_cons_of_ne notOwn] at enough
        have stays := interleave_some (phases.inside begins works)
        rw [Function.update_eq_self] at stays
        obtain ⟨rfl, rfl⟩ := Prod.mk.inj (Option.some.inj (stays.symm.trans stepped))
        obtain ⟨report, first, good⟩ := ih begins last later finished enough
        exact ⟨report, by simpa [reportedBy] using first, good⟩
    · have notOwn : (mover, choice) ≠ (thread, proceed) := fun same => mine (Prod.mk.inj same).1
      rw [List.count_cons_of_ne notOwn] at enough
      obtain ⟨there, -, after⟩ := interleave_eq_some stepped
      have unmoved : next.locals thread = config.locals thread := by
        rw [after, Function.update_of_ne (Ne.symm mine)]
      obtain ⟨report, first, good⟩ :=
        ih (phases.other begins mine stepped unmoved) last later finished enough
      exact ⟨report, by simpa [reportedBy, mine] using first, good⟩

end Calls

end Library
