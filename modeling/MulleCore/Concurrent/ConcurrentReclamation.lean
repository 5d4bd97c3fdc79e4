import MulleCore.Concurrent.ConcurrentPointerarrayRuns
import MulleCore.Concurrent.ConcurrentPointersetRuns

/-!
Which storages the threads of the `mulle-concurrent` containers have in hand, which ones are freed,
and how often a thread has to migrate.
-/

namespace MulleCore

open Library

section Reclamation

variable {Storage Thread Local Choice Event : Type} [DecidableEq Thread]
variable {there : Local}

def migrations (migrated : Event → Option Nat) (thread : Thread) (moves : List (Thread × Choice))
    (events : List (Option Event)) : List Nat :=
  (moves.zip events).filterMap fun (move, event) => if move.1 = thread then
    event.bind migrated else none

theorem migrations_concat {migrated : Event → Option Nat}
    {moves : List (Thread × Choice)} {events : List (Option Event)}
    (length : moves.length = events.length) (thread mover : Thread) (choice : Choice)
    (event : Option Event) :
    migrations migrated thread (moves ++ [(mover, choice)]) (events ++ [event]) =
      migrations migrated thread moves events ++ if mover = thread then
        (event.bind migrated).toList else [] := by
  rw [migrations, List.zip_append length, List.filterMap_append]
  by_cases same : mover = thread
  · cases found : event.bind migrated <;> simp [migrations, same, found]
  · simp [migrations, same]

/-- The storages in the hands of a thread were there before, or are linked after the step. The
thread lets go of everything when it returns from a migration. -/
def Picks (inHand : Local → List Nat) (migrated : Event → Option Nat) (hands : List Nat) :
    Option (ConcurrentStorages Storage × Local × Option Event) → Prop
  | none => True
  | some (after, there, event) =>
    (∀ p ∈ inHand there, p ∈ hands ∨ p = after.storage ∨ p = after.nextStorage) ∧
      ∀ p, event.bind migrated = some p → p ∈ hands ∧ inHand there = []

variable {inHand : Local → List Nat} {migrated : Event → Option Nat}

theorem picks_keep {hands : List Nat} {after : ConcurrentStorages Storage}
    (kept : ∀ p ∈ inHand there, p ∈ hands) :
    Picks inHand migrated hands (some (after, there, none)) :=
  ⟨fun p member => Or.inl (kept p member), nofun⟩

theorem picks_begin {after : ConcurrentStorages Storage} {src next : Nat}
    (begun : ∀ p ∈ inHand there, p ∈ [src, next]) (linked : next = after.nextStorage) :
    Picks inHand migrated [src] (some (after, there, none)) := by
  refine ⟨?_, nofun⟩
  intro p member
  rcases List.mem_cons.mp (begun p member) with rfl | member
  · exact Or.inl (List.mem_singleton_self p)
  · exact Or.inr (Or.inr ((List.mem_singleton.mp member).trans linked))

def StillLinked (shared : ConcurrentStorages Storage) (p : Nat) : Prop :=
  (p = shared.storage ∨ p = shared.nextStorage) ∧ p ∉ shared.freed

def Doubled (size : Storage → Nat) (shared : ConcurrentStorages Storage) : Prop :=
  ∀ g < shared.nextStorage, 2 * size (shared.storages g) ≤ size (shared.storages (g + 1))

variable {step : Thread → ConcurrentStorages Storage → Local → Choice →
    Option (ConcurrentStorages Storage × Local × Option Event)}
  {start config after : Config (ConcurrentStorages Storage) Thread Local} {size : Storage → Nat}
  {isConst : Storage → Bool} {moves : List (Thread × Choice)} {events : List (Option Event)}

structure Migrates (step : Thread → ConcurrentStorages Storage → Local → Choice →
      Option (ConcurrentStorages Storage × Local × Option Event))
    (start : Config (ConcurrentStorages Storage) Thread Local) (inHand : Local → List Nat)
    (migrated : Event → Option Nat) (moves : List (Thread × Choice)) (events : List (Option Event))
    (config : Config (ConcurrentStorages Storage) Thread Local) : Prop where
  held : ∀ thread, ∀ p ∈ inHand (config.locals thread),
    HeldSince step start inHand moves thread moves.length p fun shared => StillLinked shared p
  increasing : ∀ thread, (migrations migrated thread moves events).Pairwise (· < ·)
  passed : ∀ thread, ∀ p ∈ migrations migrated thread moves events, p < config.shared.storage
  behind : ∀ thread, ∀ p ∈ migrations migrated thread moves events, ∀ q ∈
    inHand (config.locals thread), p < q

theorem Migrates.concat (here : Migrates step start inHand migrated moves events config)
    (length : moves.length = events.length) {mover : Thread} {choice : Choice} {event : Option Event}
    (moved : interleave step config (mover, choice) = some (after, event))
    (visits : visited step start (moves ++ [(mover, choice)]) (moves.length + 1) = some after)
    (picks : Picks inHand migrated (inHand (config.locals mover))
      (step mover config.shared (config.locals mover) choice))
    (generations : ConcurrentStorages.Generations isConst size after.shared)
    (grown : config.shared.storage ≤ after.shared.storage)
    (judged : ∀ p, event.bind migrated = some p → p < after.shared.storage) :
    Migrates step start inHand migrated (moves ++ [(mover, choice)]) (events ++ [event]) after := by
  obtain ⟨there, stepped, locals⟩ := interleave_eq_some moved
  rw [stepped] at picks
  obtain ⟨picked, returned⟩ := picks
  have ordered := generations.ordered
  have linked : ∀ p, p = after.shared.storage ∨ p = after.shared.nextStorage →
      StillLinked after.shared p := by
    intro p linked
    refine ⟨linked, ?_⟩
    rcases linked with rfl | rfl
    · exact generations.safe.2.1
    · exact generations.safe.2.2
  have mover_inHand : inHand (after.locals mover) = inHand there := by
    rw [locals, Function.update_self]
  have other_inHand : ∀ thread, mover ≠ thread →
      inHand (after.locals thread) = inHand (config.locals thread) := by
    intro thread different
    rw [locals, Function.update_of_ne (Ne.symm different)]
  have kept : ∀ thread, mover ≠ thread →
    migrations migrated thread (moves ++ [(mover, choice)]) (events ++ [event]) =
      migrations migrated thread moves events := by
    intro thread different
    simp [migrations_concat length, different]
  have more : migrations migrated mover (moves ++ [(mover, choice)]) (events ++ [event]) =
      migrations migrated mover moves events ++ (event.bind migrated).toList := by
    simp [migrations_concat length]
  constructor
  case held =>
    intro thread p member
    rw [List.length_append, List.length_singleton]
    have before : p ∈ inHand (config.locals thread) ∨ p = after.shared.storage ∨
        p = after.shared.nextStorage := by
      by_cases same : mover = thread
      · subst same
        exact picked p (mover_inHand ▸ member)
      · exact Or.inl (other_inHand thread same ▸ member)
    rcases before with before | now
    · exact (here.held thread p before).next _ visits member
    · exact heldSince_now visits (linked p now) member
  case increasing =>
    intro thread
    by_cases same : mover = thread
    · subst same
      rw [more, List.pairwise_append]
      refine ⟨here.increasing mover, ?_, ?_⟩
      · cases event.bind migrated <;> simp
      · intro p member q last
        have left := returned q (Option.mem_toList.mp last)
        exact here.behind mover p member q left.1
    · rw [kept thread same]
      exact here.increasing thread
  case passed =>
    intro thread p member
    by_cases same : mover = thread
    · subst same
      rw [more] at member
      rcases List.mem_append.mp member with before | last
      · exact Nat.lt_of_lt_of_le (here.passed mover p before) grown
      · exact judged p (Option.mem_toList.mp last)
    · rw [kept thread same] at member
      exact Nat.lt_of_lt_of_le (here.passed thread p member) grown
  case behind =>
    intro thread p member q held
    by_cases same : mover = thread
    · subst same
      rw [mover_inHand] at held
      rw [more] at member
      rcases List.mem_append.mp member with before | last
      · have passed := here.passed mover p before
        rcases picked q held with old | rfl | rfl
        · exact here.behind mover p before q old
        · omega
        · omega
      · rw [(returned p (Option.mem_toList.mp last)).2] at held
        exact absurd held List.not_mem_nil
    · rw [kept thread same] at member
      rw [other_inHand thread same] at held
      exact here.behind thread p member q held

theorem Doubled.power {shared : ConcurrentStorages Storage} (doubled : Doubled size shared)
    {g h : Nat} (before : g ≤ h) (linked : h ≤ shared.nextStorage) :
    2 ^ (h - g) * size (shared.storages g) ≤ size (shared.storages h) := by
  induction before with
  | refl => simp
  | @step h before ih =>
    have grown := doubled h linked
    have below := ih (Nat.le_of_succ_le linked)
    rw [Nat.succ_sub before, Nat.pow_succ']
    calc
      2 * 2 ^ (h - g) * size (shared.storages g) = 2 * (2 ^ (h - g) * size (shared.storages g)) :=
        Nat.mul_assoc _ _ _
      _ ≤ 2 * size (shared.storages h) := Nat.mul_le_mul_left 2 below
      _ ≤ size (shared.storages (h + 1)) := grown

theorem increasing_length {numbers : List Nat} {n : Nat} (increasing : numbers.Pairwise (· < ·))
    (below : ∀ p ∈ numbers, p < n) :
    numbers.length ≤ n := by
  have nodup : numbers.Nodup := increasing.imp Nat.ne_of_lt
  have inside : numbers ⊆ List.range n := fun p member => List.mem_range.mpr (below p member)
  simpa using (List.subperm_of_subset nodup inside).length_le

/-- Each storage is at least twice as large as the one before. It is freed once, after another one
has taken its place, and a thread that still has it in hand has had it since it was linked. A thread
migrates at most once from each. -/
structure Reclaims (step : Thread → ConcurrentStorages Storage → Local → Choice →
      Option (ConcurrentStorages Storage × Local × Option Event))
    (start : Config (ConcurrentStorages Storage) Thread Local) (inHand : Local → List Nat)
    (migrated : Event → Option Nat) (isConst : Storage → Bool) (size : Storage → Nat)
    (moves : List (Thread × Choice)) (config : Config (ConcurrentStorages Storage) Thread Local)
    (events : List (Option Event)) : Prop where
  ran : run (interleave step) start moves = some (config, events)
  near : config.shared.nextStorage = config.shared.storage ∨
    config.shared.nextStorage = config.shared.storage + 1
  doubled : ∀ g h, g ≤ h → h ≤ config.shared.nextStorage →
    2 ^ (h - g) * size (config.shared.storages g) ≤ size (config.shared.storages h)
  freedOnce : config.shared.freed.Nodup
  freed : ∀ g, g ∈ config.shared.freed ↔ g < config.shared.storage ∧
    isConst (config.shared.storages g) = false
  held : ∀ thread, ∀ p ∈ inHand (config.locals thread),
    HeldSince step start inHand moves thread moves.length p fun shared => StillLinked shared p
  increasing : ∀ thread, (migrations migrated thread moves events).Pairwise (· < ·)
  few : ∀ thread, (migrations migrated thread moves events).length ≤ config.shared.storage

theorem reclaims {idle : Local} {good : List (Option Event) → ConcurrentStorages Storage → Prop}
    {effect : Thread → List (Option Event) → ConcurrentStorages Storage → Option Event →
      ConcurrentStorages Storage → Prop}
    {knows : Thread → List (Option Event) → ((ConcurrentStorages Storage → Prop) → Prop) →
      ConcurrentStorages Storage → Local → Prop}
    {verdict : Thread → ((ConcurrentStorages Storage → Prop) → Prop) → ConcurrentStorages Storage →
      Event →
      ConcurrentStorages Storage → Prop}
    (discipline : RelyGuarantee step idle good effect knows verdict)
    (startGood : good [] start.shared)
    (startKnows : ∀ thread moments, knows thread [] moments start.shared (start.locals thread))
    (empty : ∀ thread, inHand (start.locals thread) = []) (picks : ∀ thread shared here choice,
      Picks inHand migrated (inHand here) (step thread shared here choice))
    {rank : Storage → Nat}
    (generations : ∀ {past shared}, good past shared → ConcurrentStorages.Generations isConst rank
      shared) (grown : ∀ {thread past shared event after}, good past shared →
      effect thread past shared event after →
      shared.storage ≤ after.storage)
    (judged : ∀ {thread moments shared event after p}, verdict thread moments shared event after →
      migrated event = some p →
      p < after.storage)
    (startDoubled : Doubled size start.shared)
    (doubles : ∀ {thread past shared event after}, effect thread past shared event after →
      good (past ++ [event]) after →
      Doubled size shared → Doubled size after)
    (moves : List (Thread × Choice)) :
    ∃ config events, Reclaims step start inHand migrated isConst size moves config events := by
  have initially : Doubled size start.shared ∧ Migrates step start inHand migrated [] [] start := by
    refine ⟨startDoubled, ?_, ?_, ?_, ?_⟩
    · intro thread p member
      rw [empty] at member
      exact absurd member List.not_mem_nil
    · exact fun _ => List.Pairwise.nil
    · exact fun _ p member => absurd member List.not_mem_nil
    · exact fun _ p member => absurd member List.not_mem_nil
  have runs := discipline.keeps startGood startKnows
    (fun moves events config => Doubled size config.shared ∧ Migrates step start inHand migrated
      moves events config) initially
    (by
      rintro moves events config mover choice after event before next moved did verdicts
        ⟨doubled, migrates⟩
      refine ⟨doubles did next.good doubled, migrates.concat (run_length before.ran).symm moved ?_
        (picks mover config.shared (config.locals mover) choice) (generations next.good)
          (grown before.good did) ?_⟩
      · have visits := @visited_length _ _ _ _ _ _ step start (moves ++ [(mover, choice)])
        rwa [next.ran, List.length_append, List.length_singleton] at visits
      · intro p happened
        obtain ⟨reported, same, from'⟩ := Option.bind_eq_some_iff.mp happened
        exact judged (verdicts reported same) from')
    moves
  obtain ⟨config, events, here, doubled, migrates⟩ := runs
  have storages := generations here.good
  have ordered := storages.ordered
  have near := storages.near
  refine ⟨config, events, here.ran, ?_, ?_, storages.safe.1, fun g => storages.mem_freed,
    migrates.held, migrates.increasing, ?_⟩
  · omega
  · exact fun g h before linked => doubled.power before linked
  · exact fun thread => increasing_length (migrates.increasing thread) (migrates.passed thread)

end Reclamation

namespace ConcurrentPointerset

section Reclamation

def Migration.inHand (migration : Migration) : List Nat := [migration.src, migration.next]

def Caller.inHand : Caller → List Nat
  | .add _ => []
  | .copy migration _ => migration.inHand

def State.inHand : State → List Nat
  | .idle | .aborted | .begin _ => []
  | .addUsed p _ _ | .member p _ _ | .migrateStorage p _ | .migrateNext p _ | .migrateLink p _ => [p]
  | .probe p _ _ caller | .claim p _ _ caller | .increment p _ caller => p :: caller.inHand
  | .copyRead migration _ | .copyFreeze migration _ | .copyRetire migration _ _
  | .migrateSwap migration => migration.inHand

variable {Thread : Type} {thread : Thread} {set : ConcurrentPointerset} {here : State}
  {p i probes : Nat} {ptr value : Pointer} {caller : Caller} {migration : Migration}

def Event.migratedFrom : Event Thread → Option Nat
  | .migrated p => some p
  | _ => none

abbrev Picking (hands : List Nat) (result : Result Thread) : Prop :=
  Picks State.inHand Event.migratedFrom hands result

theorem copyNext_inHand : ∀ q ∈ (copyNext set migration i).inHand, q ∈ migration.inHand := by
  rw [copyNext]
  split <;> exact fun q member => member

theorem copyBegin_inHand {src next : Nat} {call : Call} :
    ∀ q ∈ (copyBegin set ⟨call, src, next⟩).inHand, q ∈ [src, next] := by
  rw [copyBegin]
  split <;> simp [State.inHand, Migration.inHand]

theorem copyValue_inHand : ∀ q ∈ (copyValue set migration i value).inHand, q ∈ migration.inHand := by
  rw [copyValue]
  split
  · exact fun q member => member
  split
  · exact copyNext_inHand
  · simp [State.inHand, Caller.inHand, Migration.inHand]

theorem inserted_picks : Picking (p :: caller.inHand) (inserted thread set ptr caller) := by
  cases caller <;> simp +contextual [inserted, Picks, State.inHand, Caller.inHand, Event.migratedFrom]

theorem alreadyPresent_picks :
    Picking (p :: caller.inHand) (alreadyPresent thread set ptr caller) := by
  cases caller <;> simp +contextual [alreadyPresent, Picks, State.inHand, Caller.inHand,
    Event.migratedFrom]

theorem busy_picks : Picking (p :: caller.inHand) (busy set p ptr caller : Result Thread) := by
  cases caller <;> simp +contextual [busy, Picks, State.inHand, Caller.inHand]

theorem probeOn_picks :
    Picking (p :: caller.inHand) (probeOn set p probes ptr caller : Result Thread) := by
  rw [probeOn]
  split
  · exact busy_picks
  · exact picks_keep fun q member => member

theorem proceed_picks : Picking here.inHand (proceed thread set here) := by
  cases here with
  | idle | aborted => exact picks_keep (by simp [State.inHand])
  | begin call => cases call <;> simp [proceed, Picks, State.inHand]
  | addUsed | member =>
    simp only [proceed]
    repeat' split
    all_goals simp +contextual [Picks, State.inHand, Caller.inHand, Event.migratedFrom]
  | probe =>
    simp only [proceed]
    repeat' split
    · trivial
    · trivial
    · exact alreadyPresent_picks
    · exact picks_keep fun q member => member
    · exact busy_picks
    · exact probeOn_picks
  | claim =>
    simp only [proceed]
    repeat' split
    · trivial
    · simp +contextual [Picks, State.inHand, Event.migratedFrom]
    · exact busy_picks
    · exact alreadyPresent_picks
    · exact probeOn_picks
  | increment => exact inserted_picks
  | migrateStorage =>
    simp only [proceed]
    split <;> simp [Picks, State.inHand, Event.migratedFrom]
  | migrateNext | migrateLink =>
    simp only [proceed]
    repeat' split
    all_goals first
      | exact picks_begin copyBegin_inHand rfl
      | simp [Picks, State.inHand]
  | copyRead | copyFreeze | copyRetire =>
    simp only [proceed]
    repeat' split
    all_goals first
      | trivial
      | exact picks_keep copyNext_inHand
      | exact picks_keep copyValue_inHand
  | migrateSwap =>
    simp only [proceed]
    split <;> simp [Picks, State.inHand, Migration.inHand, Event.migratedFrom]

theorem step_picks (move : Move) : Picking here.inHand (step thread set here move) := by
  cases move with
  | proceed => exact proceed_picks
  | add | member =>
    simp only [step]
    split
    · exact picks_keep fun q member => member
    · exact picks_keep (by simp [State.inHand])

end Reclamation

end ConcurrentPointerset

section Reclamation

def PointerarrayMigration.inHand (migration : PointerarrayMigration) : List Nat :=
  [migration.src, migration.next]

def PublishCaller.inHand : PublishCaller → List Nat
  | .added _ _ | .again _ => []
  | .put migration _ _ | .copied migration => migration.inHand

def PointerarrayState.inHand : PointerarrayState → List Nat
  | .idle | .aborted | .countStorage _ | .begin _ => []
  | .countRead p _ | .addCount p _ | .addClaim p _ _ | .getCount p _ _ | .getEntry p _ _
  | .migrateStorage p _ | .migrateNext p _ | .migrateLink p _ => [p]
  | .publishCount p caller | .publishEntry p _ caller | .publishAdvance p _ caller =>
    p :: caller.inHand
  | .copyRead migration dst _ | .copyFreeze migration dst _ | .copyPut migration dst _ _
  | .copyFollow migration dst _ _ | .copyRetire migration dst _ _ => dst :: migration.inHand
  | .migrateSwap migration => migration.inHand

variable {Thread : Type}

def PointerarrayEvent.migratedFrom : PointerarrayEvent Thread → Option Nat
  | .migrated p => some p
  | _ => none

namespace ConcurrentPointerarray

variable {thread : Thread} {array : ConcurrentPointerarray} {here : PointerarrayState}
  {p i dst n index : Nat} {value : Pointer} {caller : PublishCaller}
  {migration : PointerarrayMigration}

abbrev Picking (hands : List Nat) (result : Result Thread) : Prop :=
  Picks PointerarrayState.inHand PointerarrayEvent.migratedFrom hands result

theorem copyNext_inHand :
    ∀ q ∈ (copyNext array migration dst i).inHand, q ∈ dst :: migration.inHand := by
  rw [copyNext]
  split <;> exact fun q member => member

theorem copyValue_inHand : ∀ q ∈ (copyValue array migration dst i value).inHand, q ∈
    dst :: migration.inHand := by
  rw [copyValue]
  split
  · exact fun q member => member
  split
  · exact copyNext_inHand
  · exact fun q member => member

theorem copyBegin_inHand {src next : Nat} {call : PointerarrayCall} :
    ∀ q ∈ (copyBegin array ⟨call, src, next⟩).inHand, q ∈ [src, next] := by
  rw [copyBegin]
  split <;> simp [PointerarrayState.inHand, PointerarrayMigration.inHand]

theorem publishReturn_picks : Picking (p :: caller.inHand) (publishReturn thread array p caller) := by
  cases caller <;>
    simp +contextual [publishReturn, Picks, PointerarrayState.inHand, PublishCaller.inHand,
      PointerarrayEvent.migratedFrom]

theorem getReturn_picks {search : Option Pointer} :
    Picking [p] (getReturn array index value search : Result Thread) := by
  cases search with
  | none => simp [getReturn, Picks, PointerarrayState.inHand, PointerarrayEvent.migratedFrom]
  | some search =>
    simp only [getReturn]
    repeat' split
    all_goals simp [Picks, PointerarrayState.inHand, PointerarrayEvent.migratedFrom]

theorem countReturn_picks {search : Option (Pointer × Nat)} :
    Picking [p] (countReturn array n search : Result Thread) := by
  cases search with
  | none => simp [countReturn, Picks, PointerarrayState.inHand, PointerarrayEvent.migratedFrom]
  | some search =>
    simp only [countReturn]
    split <;> simp [Picks, PointerarrayState.inHand, PointerarrayEvent.migratedFrom]

theorem proceed_picks : Picking here.inHand (proceed thread array here) := by
  cases here with
  | idle | aborted => exact picks_keep (by simp [PointerarrayState.inHand])
  | countStorage => simp [proceed, Picks, PointerarrayState.inHand]
  | countRead => exact countReturn_picks
  | begin call => cases call <;> simp [proceed, Picks, PointerarrayState.inHand]
  | addCount | addClaim =>
    simp only [proceed]
    repeat' split
    all_goals simp +contextual [Picks, PointerarrayState.inHand, PublishCaller.inHand,
      PointerarrayEvent.migratedFrom]
  | getCount | getEntry =>
    simp only [proceed]
    repeat' split
    all_goals first
      | exact getReturn_picks
      | simp [Picks, PointerarrayState.inHand]
  | publishCount | publishEntry | publishAdvance =>
    simp only [proceed]
    repeat' split
    all_goals first
      | trivial
      | exact publishReturn_picks
      | exact picks_keep fun q member => member
  | migrateStorage =>
    simp only [proceed]
    split <;> simp [Picks, PointerarrayState.inHand, PointerarrayEvent.migratedFrom]
  | migrateNext | migrateLink =>
    simp only [proceed]
    repeat' split
    all_goals first
      | exact picks_begin copyBegin_inHand rfl
      | simp [Picks, PointerarrayState.inHand]
  | copyFollow =>
    simp only [proceed]
    split <;> simp +contextual [Picks, PointerarrayState.inHand]
  | copyRead | copyFreeze | copyPut | copyRetire =>
    simp only [proceed]
    repeat' split
    all_goals first
      | trivial
      | exact picks_keep copyNext_inHand
      | exact picks_keep copyValue_inHand
      | exact picks_keep fun q member => member
  | migrateSwap =>
    simp only [proceed]
    split <;> simp [Picks, PointerarrayState.inHand, PointerarrayMigration.inHand,
      PointerarrayEvent.migratedFrom]

theorem step_picks (move : PointerarrayMove) : Picking here.inHand (step thread array here move) := by
  cases move with
  | proceed => exact proceed_picks
  | add | find =>
    simp only [step]
    split
    · exact picks_keep fun q member => member
    · exact picks_keep (by simp [PointerarrayState.inHand])
  | get | getCount =>
    simp only [step]
    split
    · exact picks_keep (by simp [PointerarrayState.inHand])
    · exact picks_keep fun q member => member

end ConcurrentPointerarray

end Reclamation

section Reclaimed

variable {Thread : Type} [DecidableEq Thread]

theorem doubled_of_powers {Storage : Type} {isConst : Storage → Bool} {mask : Storage → Nat}
    {most : Nat} {shared : ConcurrentStorages Storage}
    (generations : ConcurrentStorages.Generations isConst mask shared)
    (powers : ∀ g ≤ shared.nextStorage, ∃ e ≤ most, mask (shared.storages g) + 1 = 2 ^ e) :
    Doubled (fun storage => mask storage + 1) shared := by
  intro g linked
  have grown := Nat.succ_lt_succ (generations.grown g linked)
  obtain ⟨d, _, smaller⟩ := powers g (Nat.le_of_lt linked)
  obtain ⟨e, _, larger⟩ := powers (g + 1) linked
  simp only [Nat.succ_eq_add_one, smaller, larger] at grown ⊢
  have exponents : d < e := (Nat.pow_lt_pow_iff_right (by decide)).mp grown
  calc
    2 * 2 ^ d = 2 ^ (d + 1) := Nat.pow_succ'.symm
    _ ≤ 2 ^ e := Nat.pow_le_pow_right (by decide) exponents

theorem PointerarrayEffect.doubled {values more : List Pointer} {array after : ConcurrentPointerarray}
    (did : PointerarrayEffect values array more after)
    (doubled : Doubled Pointerarraystorage.size array) :
    Doubled Pointerarraystorage.size after := by
  have modified : ∀ {p} {change : Pointerarraystorage → Pointerarraystorage},
    (∀ storage, (change storage).size = storage.size) →
      Doubled Pointerarraystorage.size (array.modify p change) := by
    intro p change same g linked
    have here : ∀ h, ((array.modify p change).storages h).size = (array.storages h).size :=
      fun h => ConcurrentStorages.modify_field Pointerarraystorage.size (same _)
    simp only [here]
    exact doubled g linked
  cases did with
  | stays => exact doubled
  | fills | puts | freezes | advances => exact modified fun _ => rfl
  | links current _ =>
    intro g linked
    rw [ConcurrentStorages.link_nextStorage] at linked
    rcases Nat.lt_or_eq_of_le (Nat.le_of_lt_succ linked) with before | rfl
    · rw [ConcurrentStorages.link_linked (Nat.le_of_lt before), ConcurrentStorages.link_linked before]
      exact doubled g before
    · rw [ConcurrentStorages.link_linked (Nat.le_refl _), ConcurrentStorages.link_alloced, current]
      simp only [ConcurrentPointerarray.allocStorage]
      split <;> omega
  | swaps => exact doubled

theorem pointerarray_reclaims (size : Nat) (moves : List (Thread × PointerarrayMove)) :
    ∃ config events, Reclaims ConcurrentPointerarray.step
      (ConcurrentPointerarray.initial Thread size) PointerarrayState.inHand
      PointerarrayEvent.migratedFrom ConcurrentPointerarray.isEmptyStorage Pointerarraystorage.size
        moves config events :=
  reclaims pointerarray_relyGuarantee (initial_holds size) (initial_knows size)
    (fun _ => rfl) (fun _ _ _ move => ConcurrentPointerarray.step_picks move)
      (fun holds => holds.generations)
    (fun holds did => (did.1.grows holds).storage)
    (by
      intro thread moments shared event after p verdict from'
      cases event <;> simp only [PointerarrayEvent.migratedFrom, reduceCtorEq,
        Option.some.injEq] at from'
      subst from'
      exact verdict.1)
    (fun g linked => absurd linked (Nat.not_lt_zero g)) (fun did _ => did.1.doubled) moves

theorem pointerset_reclaims {size : Nat} (power : size < 4 ∨ ∃ e ≤ 63, size = 2 ^ e)
    (moves : List (Thread × ConcurrentPointerset.Move)) :
    ∃ config events, Reclaims ConcurrentPointerset.step (ConcurrentPointerset.initial Thread size)
      ConcurrentPointerset.State.inHand
      ConcurrentPointerset.Event.migratedFrom ConcurrentPointerset.isConst
        (fun storage => storage.mask + 1) moves config events := by
  have doubled : ∀ {past : List (Option (ConcurrentPointerset.Event Thread))} {shared},
    ConcurrentPointerset.Good past shared →
      Doubled (fun storage => storage.mask + 1) shared := by
    intro past shared good
    exact doubled_of_powers good.generations good.powers
  have good : ConcurrentPointerset.Good [] (ConcurrentPointerset.initial Thread size).shared :=
    ConcurrentPointerset.initial_good power
  exact reclaims ConcurrentPointerset.relyGuarantee good (ConcurrentPointerset.initial_knows size)
    (fun _ => rfl) (fun _ _ _ move => ConcurrentPointerset.step_picks move)
      (fun holds => holds.generations)
    (fun holds did => (did.1.grows holds).storage)
    (by
      intro thread moments shared event after p verdict from'
      cases event <;> simp only [ConcurrentPointerset.Event.migratedFrom, reduceCtorEq,
        Option.some.injEq] at from'
      subst from'
      exact verdict.1)
    (doubled good) (fun _ good _ => doubled good) moves

/-- What is freed late enough for the threads that are still in a call is never accessed again. -/
theorem storages_reclaimed :
    (∀ size moves, ∃ config events, Reclaims ConcurrentPointerarray.step
      (ConcurrentPointerarray.initial Thread size)
      PointerarrayState.inHand PointerarrayEvent.migratedFrom ConcurrentPointerarray.isEmptyStorage
        Pointerarraystorage.size
      moves config events) ∧
    ∀ size, (size < 4 ∨ ∃ e ≤ 63, size = 2 ^ e) →
      ∀ moves, ∃ config events, Reclaims ConcurrentPointerset.step
      (ConcurrentPointerset.initial Thread size) ConcurrentPointerset.State.inHand
        ConcurrentPointerset.Event.migratedFrom
      ConcurrentPointerset.isConst (fun storage => storage.mask + 1) moves config events :=
  ⟨pointerarray_reclaims, fun _ power => pointerset_reclaims power⟩

theorem storages_reclaimed_empty :
    ∃ config events, Reclaims ConcurrentPointerset.step (ConcurrentPointerset.initial Bool 0)
      ConcurrentPointerset.State.inHand ConcurrentPointerset.Event.migratedFrom
        ConcurrentPointerset.isConst
      (fun storage => storage.mask + 1)
      [(true, .add .insert 16), (false, .add .register 16), (true, .proceed), (false, .proceed)]
        config events :=
  (@storages_reclaimed Bool _).2 0 (Or.inl (by decide)) _

end Reclaimed

end MulleCore
