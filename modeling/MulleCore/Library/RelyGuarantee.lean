import Mathlib.Data.List.Induction
import Mathlib.Order.Defs.Unbundled
import MulleCore.Library.Simulation

/-!
What a thread knows of the shared state while the other threads step, and what it knows of the
states that it has seen in its call.
-/

namespace Library

section Moments

variable {Shared Thread Local Choice Event : Type} [DecidableEq Thread]
  {step : Thread → Shared → Local → Choice → Option (Shared × Local × Option Event)}
  {start : Config Shared Thread Local} {idle : Local} {thread : Thread}
variable {n : Nat} {moves : List (Thread × Choice)} {config : Config Shared Thread Local}
  {holds : Shared → Prop}

theorem visited_append (first second : List (Thread × Choice)) (within : n ≤ first.length) :
    visited step start (first ++ second) n = visited step start first n := by
  simp only [visited, List.take_append_of_le_length within]

theorem visited_length (moves : List (Thread × Choice)) :
    visited step start moves moves.length = (run (interleave step) start moves).map Prod.fst := by
  simp only [visited, List.take_length]

/-- The predicate held at some step of the call that the thread is in after `n` moves. -/
def Moments (step : Thread → Shared → Local → Choice → Option (Shared × Local × Option Event))
    (start : Config Shared Thread Local) (idle : Local)
    (moves : List (Thread × Choice)) (thread : Thread) (n : Nat) (holds : Shared → Prop) : Prop :=
  DuringCall step start idle moves thread n fun config => holds config.shared

theorem moments_append (first second : List (Thread × Choice)) (within : n ≤ first.length) :
    Moments step start idle (first ++ second) thread n = Moments step start idle first thread n := by
  funext holds
  apply propext
  constructor
  · rintro ⟨m, config, before, visits, held, inside⟩
    rw [visited_append first second (Nat.le_trans before within)] at visits
    refine ⟨m, config, before, visits, held, fun k lower upper => ?_⟩
    rw [← visited_append first second (Nat.le_trans upper within)]
    exact inside k lower upper
  · rintro ⟨m, config, before, visits, held, inside⟩
    rw [← visited_append first second (Nat.le_trans before within)] at visits
    refine ⟨m, config, before, visits, held, fun k lower upper => ?_⟩
    rw [visited_append first second (Nat.le_trans upper within)]
    exact inside k lower upper

theorem moments_now
    (visits : visited step start moves n = some config) (inside : config.locals thread ≠ idle)
    (now : holds config.shared) : Moments step start idle moves thread n holds :=
  duringCall_last visits inside now

theorem Moments.next (moment : Moments step start idle moves thread n holds)
    (visits : visited step start moves (n + 1) = some config) (inside : config.locals thread ≠ idle) :
    Moments step start idle moves thread (n + 1) holds := by
  obtain ⟨m, past, before, visitedPast, held, during⟩ := moment
  refine ⟨m, past, Nat.le_succ_of_le before, visitedPast, held, fun k lower upper => ?_⟩
  rcases Nat.lt_or_eq_of_le upper with earlier | rfl
  · exact during k lower (Nat.le_of_lt_succ earlier)
  · exact ⟨config, visits, inside⟩

def HeldSince {Item : Type}
    (step : Thread → Shared → Local → Choice → Option (Shared × Local × Option Event))
    (start : Config Shared Thread Local) (inHand : Local → List Item)
    (moves : List (Thread × Choice)) (thread : Thread) (n : Nat) (item : Item)
    (holds : Shared → Prop) : Prop :=
  ∃ m past, m ≤ n ∧ visited step start moves m = some past ∧ holds past.shared ∧
    ∀ k, m ≤ k → k ≤ n → ∃ between, visited step start moves k = some between ∧
      item ∈ inHand (between.locals thread)

section HeldSince

variable {Item : Type} {inHand : Local → List Item}
  {moves : List (Thread × Choice)} {n : Nat} {item : Item} {config : Config Shared Thread Local}
  {holds : Shared → Prop}

theorem heldSince_now (visits : visited step start moves n = some config) (now : holds config.shared)
    (held : item ∈ inHand (config.locals thread)) :
    HeldSince step start inHand moves thread n item holds := by
  refine ⟨n, config, Nat.le_refl n, visits, now, fun k lower upper => ?_⟩
  obtain rfl := Nat.le_antisymm upper lower
  exact ⟨config, visits, held⟩

theorem HeldSince.next (since : HeldSince step start inHand moves thread moves.length item holds)
    (move : Thread × Choice)
    (visits : visited step start (moves ++ [move]) (moves.length + 1) = some config)
    (held : item ∈ inHand (config.locals thread)) :
    HeldSince step start inHand (moves ++ [move]) thread (moves.length + 1) item holds := by
  obtain ⟨m, past, before, visitedPast, held', during⟩ := since
  refine ⟨m, past, Nat.le_succ_of_le before, ?_, held', fun k lower upper => ?_⟩
  · rwa [visited_append moves [move] before]
  · rcases Nat.lt_or_eq_of_le upper with earlier | rfl
    · rw [visited_append moves [move] (Nat.le_of_lt_succ earlier)]
      exact during k lower (Nat.le_of_lt_succ earlier)
    · exact ⟨config, visits, held⟩

end HeldSince

def Recalls (before later : (Shared → Prop) → Prop) (shared : Shared) : Prop :=
  ∀ holds, before holds ∨ holds shared → later holds

end Moments

section Discipline

variable {Shared Thread Local Choice Event : Type} [DecidableEq Thread]
variable {State Op Answer : Type} {machine : State → Op → Option (State × Answer)} {ops : List Op}
  {op : Op} {state between final : State} {answers : List Answer} {answer : Answer}
  {config : Config Shared Thread Local} {events : List (Option Event)} {n : Nat}

/-- A step is an effect that keeps the state good. It keeps what the others know, and gives the
thread what it has to know next. What has happened so far is a list of events. -/
structure RelyGuarantee
    (step : Thread → Shared → Local → Choice → Option (Shared × Local × Option Event))
    (idle : Local) (good : List (Option Event) → Shared → Prop)
    (effect : Thread → List (Option Event) → Shared → Option Event → Shared → Prop)
    (knows : Thread → List (Option Event) → ((Shared → Prop) → Prop) → Shared → Local → Prop)
    (verdict : Thread → ((Shared → Prop) → Prop) → Shared → Event → Shared → Prop) : Prop where
  stable : ∀ {mover thread past shared event after} {before later : (Shared → Prop) → Prop} {here},
    mover ≠ thread →
    good past shared → effect mover past shared event after →
    (here ≠ idle → Recalls before later after) →
    knows thread past before shared here → knows thread (past ++ [event]) later after here
  guarantee : ∀ {thread past shared here} {moments : (Shared → Prop) → Prop} (choice : Choice),
    good past shared →
    knows thread past moments shared here →
    (here ≠ idle → ∀ holds : Shared → Prop, holds shared → moments holds) →
    ∃ after there event, step thread shared here choice = some (after, there, event) ∧
      good (past ++ [event]) after ∧ effect thread past shared event after ∧
      (∀ later : (Shared → Prop) → Prop, (there ≠ idle → Recalls moments later after) →
        knows thread (past ++ [event]) later after there) ∧
      ∀ happened, event = some happened → verdict thread moments shared happened after

variable {step : Thread → Shared → Local → Choice → Option (Shared × Local × Option Event)}
  {idle : Local} {good : List (Option Event) → Shared → Prop}
  {effect : Thread → List (Option Event) → Shared → Option Event → Shared → Prop}
  {knows : Thread → List (Option Event) → ((Shared → Prop) → Prop) → Shared → Local → Prop}
  {verdict : Thread → ((Shared → Prop) → Prop) → Shared → Event → Shared → Prop}
  {start : Config Shared Thread Local}

structure Disciplined
    (step : Thread → Shared → Local → Choice → Option (Shared × Local × Option Event))
    (idle : Local) (good : List (Option Event) → Shared → Prop)
    (knows : Thread → List (Option Event) → ((Shared → Prop) → Prop) → Shared → Local → Prop)
    (start : Config Shared Thread Local)
    (moves : List (Thread × Choice)) (config : Config Shared Thread Local)
    (events : List (Option Event)) : Prop where
  ran : run (interleave step) start moves = some (config, events)
  good : good events config.shared
  knows : ∀ thread, knows thread events (Moments step start idle moves thread moves.length)
    config.shared (config.locals thread)

theorem run_concat
    (ran : run machine state ops = some (between, answers))
    (stepped : machine between op = some (final, answer)) :
    run machine state (ops ++ [op]) = some (final, answers ++ [answer]) := by
  simp [run_append, ran, run, stepped]

theorem run_last (ran : run machine state ops = some (between, answers))
    (more : run machine state (ops ++ [op]) = some (final, answers ++ [answer])) :
    machine between op = some (final, answer) := by
  rw [run_append, ran, Option.bind_some] at more
  obtain ⟨⟨last, rest⟩, ranLast, same⟩ := Option.map_eq_some_iff.mp more
  simp only [Prod.mk.injEq, List.append_cancel_left_eq] at same
  obtain ⟨rfl, rfl⟩ := same
  obtain ⟨⟨next, first⟩, stepped, same⟩ := Option.bind_eq_some_iff.mp ranLast
  simp only [run, Option.bind_eq_bind, Option.bind_some, Option.some.injEq, Prod.mk.injEq,
    List.cons.injEq, and_true] at same
  obtain ⟨rfl, rfl⟩ := same
  exact stepped

theorem run_length (ran : run machine state ops = some (final, answers)) :
    answers.length = ops.length := by
  induction ops generalizing state answers with
  | nil =>
    obtain ⟨-, rfl⟩ := Prod.mk.inj (Option.some.inj ran)
    rfl
  | cons op ops ih =>
    rw [run] at ran
    obtain ⟨⟨between, answer⟩, _, ran⟩ := Option.bind_eq_some_iff.mp ran
    obtain ⟨⟨last, rest⟩, finished, same⟩ := Option.bind_eq_some_iff.mp ran
    obtain ⟨rfl, rfl⟩ := Prod.mk.inj (Option.some.inj same)
    simp [ih finished]

section

variable (discipline : RelyGuarantee step idle good effect knows verdict)
include discipline

theorem Disciplined.concat {moves : List (Thread × Choice)}
    (here : Disciplined step idle good knows start moves config events) (thread : Thread)
    (choice : Choice) :
    ∃ after event, Disciplined step idle good knows start (moves ++ [(thread, choice)]) after
      (events ++ [event]) ∧
      effect thread events config.shared event after.shared ∧
      ∀ happened, event = some happened →
        verdict thread (Moments step start idle moves thread moves.length) config.shared happened
          after.shared := by
  have visits : visited step start moves moves.length = some config := by
    rw [visited_length, here.ran]
    rfl
  obtain ⟨after, there, event, stepped, afterGood, did, thereKnows, judged⟩ :=
    discipline.guarantee choice here.good (here.knows thread) fun inside holds now => moments_now
      visits inside now
  have ran := run_concat here.ran (interleave_some stepped)
  refine ⟨_, event, ⟨ran, afterGood, ?_⟩, did, judged⟩
  have visitsNext : visited step start (moves ++ [(thread, choice)]) (moves.length + 1) =
      some ⟨after, Function.update config.locals thread there⟩ := by
    have length : (moves ++ [(thread, choice)]).length = moves.length + 1 := by simp
    rw [← length, visited_length, ran]
    rfl
  have recalls : ∀ other, Function.update config.locals thread there other ≠ idle →
      Recalls (Moments step start idle moves other moves.length)
        (Moments step start idle (moves ++ [(thread, choice)]) other (moves.length + 1)) after := by
    rintro other inside holds (moment | now)
    · rw [← moments_append moves [(thread, choice)] (Nat.le_refl _)] at moment
      exact moment.next visitsNext inside
    · exact moments_now visitsNext inside now
  intro other
  rw [List.length_append, List.length_singleton]
  dsimp only
  have recallsHere := recalls other
  by_cases same : other = thread
  · subst same
    rw [Function.update_self] at recallsHere ⊢
    exact thereKnows _ recallsHere
  · rw [Function.update_of_ne same] at recallsHere ⊢
    exact discipline.stable (Ne.symm same) here.good did recallsHere (here.knows other)

theorem RelyGuarantee.comesTo (startGood : good [] start.shared)
    (startKnows : ∀ thread moments, knows thread [] moments start.shared (start.locals thread))
    (moves : List (Thread × Choice)) :
    ∃ config events, Disciplined step idle good knows start moves config events := by
  induction moves using List.reverseRecOn with
  | nil => exact ⟨start, [], rfl, startGood, fun thread => startKnows thread _⟩
  | append_singleton moves move ih =>
    obtain ⟨config, events, here⟩ := ih
    obtain ⟨after, event, next, _⟩ := here.concat discipline move.1 move.2
    exact ⟨after, events ++ [event], next⟩

/-- What a thread reports is right at the step on which it is reported. -/
theorem RelyGuarantee.reported (startGood : good [] start.shared)
    (startKnows : ∀ thread moments, knows thread [] moments start.shared (start.locals thread))
    (moves : List (Thread × Choice))
    (ran : run (interleave step) start moves = some (config, events)) {thread : Thread}
    {choice : Choice} {happened : Event} (moved : moves[n]? = some (thread, choice))
    (reported : events[n]? = some (some happened)) :
    ∃ between after, visited step start moves n = some between ∧
      visited step start moves (n + 1) = some after ∧
      verdict thread (Moments step start idle moves thread n) between.shared happened
        after.shared := by
  obtain ⟨inside, move⟩ := List.getElem?_eq_some_iff.mp moved
  obtain ⟨between, past, here⟩ := discipline.comesTo startGood startKnows (moves.take n)
  obtain ⟨after, event, next, _, judged⟩ := here.concat discipline thread choice
  have taken : (moves.take n).length = n := List.length_take_of_le (Nat.le_of_lt inside)
  have front : moves.take n ++ [(thread, choice)] = moves.take (n + 1) := by
    rw [List.take_add_one, moved]
    rfl
  have whole : moves = moves.take (n + 1) ++ moves.drop (n + 1) := (List.take_append_drop _ _).symm
  have split : (run (interleave step) start (moves.take (n + 1))).bind (fun (between, before) =>
      (run (interleave step) between (moves.drop (n + 1))).map fun (final, rest) =>
        (final, before ++ rest)) =
      some (config, events) := by
    rw [← run_append, ← whole, ran]
  rw [← front, next.ran, Option.bind_some] at split
  obtain ⟨⟨final, rest⟩, _, same⟩ := Option.map_eq_some_iff.mp split
  have events_eq : (past ++ [event]) ++ rest = events := congrArg Prod.snd same
  have counted : past.length = n := (run_length here.ran).trans taken
  have eventHere : event = some happened := by
    rw [← events_eq, List.append_assoc, List.getElem?_append_right (Nat.le_of_eq counted), counted,
      Nat.sub_self] at reported
    simpa using reported
  refine ⟨between, after, ?_, ?_, ?_⟩
  · rw [visited, here.ran]
    rfl
  · rw [visited, ← front, next.ran]
    rfl
  · have moment := judged happened eventHere
    have same : Moments step start idle moves thread n =
        Moments step start idle (moves.take n) thread n := by
      rw [← moments_append (moves.take n) (moves.drop n) (Nat.le_of_eq taken.symm),
        List.take_append_drop]
    rw [taken] at moment
    rwa [same]

theorem RelyGuarantee.keeps (startGood : good [] start.shared)
    (startKnows : ∀ thread moments, knows thread [] moments start.shared (start.locals thread))
    (holds : List (Thread × Choice) → List (Option Event) → Config Shared Thread Local → Prop)
    (initially : holds [] [] start) (kept : ∀ {moves events config thread choice after event},
      Disciplined step idle good knows start moves config events →
      Disciplined step idle good knows start (moves ++ [(thread, choice)]) after (events ++ [event]) →
      interleave step config (thread, choice) = some (after, event) →
      effect thread events config.shared event after.shared →
      (∀ happened, event = some happened →
        verdict thread (Moments step start idle moves thread moves.length) config.shared happened
          after.shared) →
      holds moves events config → holds (moves ++ [(thread, choice)]) (events ++ [event]) after)
    (moves : List (Thread × Choice)) :
    ∃ config events, Disciplined step idle good knows start moves config events ∧
      holds moves events config := by
  induction moves using List.reverseRecOn with
  | nil => exact ⟨start, [], ⟨rfl, startGood, fun thread => startKnows thread _⟩, initially⟩
  | append_singleton moves move ih =>
    obtain ⟨config, events, here, held⟩ := ih
    obtain ⟨after, event, next, did, judged⟩ := here.concat discipline move.1 move.2
    exact ⟨after, events ++ [event], next, kept here next (run_last here.ran next.ran)
      did judged held⟩

/-- What no effect makes smaller never gets smaller in a run. -/
theorem RelyGuarantee.monotone (startGood : good [] start.shared)
    (startKnows : ∀ thread moments, knows thread [] moments start.shared (start.locals thread))
    (order : Shared → Shared → Prop) [Std.Refl order] [IsTrans Shared order]
    (increases : ∀ {thread past shared event after}, good past shared → effect thread past shared
      event after → order shared after)
    (moves : List (Thread × Choice)) {m : Nat} {earlier later : Config Shared Thread Local}
    (before : m ≤ n) (within : n ≤ moves.length) (first : visited step start moves m = some earlier)
    (second : visited step start moves n = some later) : order earlier.shared later.shared := by
  induction before generalizing later with
  | refl =>
    obtain rfl := Option.some.inj (first.symm.trans second)
    exact Std.Refl.refl _
  | @step n _ ih =>
    obtain ⟨between, past, here⟩ := discipline.comesTo startGood startKnows (moves.take n)
    have visits : visited step start moves n = some between := by
      rw [visited, here.ran]
      rfl
    have moved : moves[n]? = some moves[n] := List.getElem?_eq_getElem within
    obtain ⟨after, event, next, did, _⟩ := here.concat discipline moves[n].1 moves[n].2
    have front : moves.take n ++ [(moves[n].1, moves[n].2)] = moves.take (n + 1) := by
      rw [List.take_add_one, moved]
      rfl
    have visitsNext : visited step start moves (n + 1) = some after := by
      rw [visited, ← front, next.ran]
      rfl
    obtain rfl := Option.some.inj (visitsNext.symm.trans second)
    exact IsTrans.trans _ _ _ (ih (Nat.le_of_succ_le within) visits) (increases here.good did)

end

end Discipline

section Settled

variable {Thread Item : Type} [DecidableEq Thread]

def ofThread (thread : Thread) (done : List (Thread × Item)) : List Item :=
  (done.filter fun entry => entry.1 = thread).map Prod.snd

/-- What the thread has finished and what it is about is all that it has begun. -/
def Settled (thread : Thread) (begun finished : List (Thread × Item)) (pending : Option Item) :
    Prop :=
  ofThread thread begun = ofThread thread finished ++ pending.toList

inductive SettleStep (thread : Thread) :
    Option Item → Option (Thread × Item) → Option (Thread × Item) → Option Item → Prop where
  | begins {item : Item} : SettleStep thread none (some (thread, item)) none (some item)
  | finishes {item : Item} : SettleStep thread (some item) none (some (thread, item)) none
  | keeps {pending : Option Item} : SettleStep thread pending none none pending

variable {thread mover : Thread} {begun finished : List (Thread × Item)}
  {pending next after : Option Item} {begins finishes : Option (Thread × Item)}

theorem Settled.step (settled : Settled thread begun finished pending)
    (did : SettleStep thread pending begins finishes next) :
    Settled thread (begun ++ begins.toList) (finished ++ finishes.toList) next := by
  rw [Settled] at settled ⊢
  cases did with
  | begins =>
    simp only [Option.toList_none, List.append_nil] at settled ⊢
    rw [← settled]
    simp [ofThread]
  | finishes =>
    simp only [Option.toList_none, List.append_nil]
    rw [settled]
    simp [ofThread]
  | keeps => simpa using settled

theorem Settled.other (settled : Settled thread begun finished pending) (different : mover ≠ thread)
    (did : SettleStep mover next begins finishes after) :
    Settled thread (begun ++ begins.toList) (finished ++ finishes.toList) pending := by
  rw [Settled] at settled ⊢
  cases did <;> simpa [ofThread, different] using settled

end Settled

end Library
