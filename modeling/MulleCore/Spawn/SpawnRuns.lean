import MulleCore.Spawn.SpawnHandle

/-!
Runs of calls on a handle, up to its close: what is promised of them, and which of them keep the
promise.
-/

namespace MulleCore

structure SpawnWorld.Live (world : SpawnWorld) : Prop where
  opened : world.handle.opened = true
  unreaped : world.handle.platform.reaped = false
  aimed : world.handle.pid = world.child.pid
  reaps : world.child.reaps = 0
  strays : world.child.strays = []
  here : ∀ status, world.child.state ≠ .gone status

structure SpawnWorld.Done (world : SpawnWorld) (status : WaitStatus) : Prop where
  opened : world.handle.opened = false
  reaps : world.child.reaps = 1
  strays : world.child.strays = []
  gone : world.child.state = .gone status

def SpawnWorld.Ok (world : SpawnWorld) : Prop :=
  world.Live ∨ ∃ status, world.Done status

def SpawnCallRight (next : SpawnReturn) : SpawnCall → Prop
  | .wait _ _ p =>
    (next.ret = 1 ↔ next.world.child.fate ≠ none) ∧
      ∀ status, next.world.child.fate = some status →
        next.result = p.map fun _ => spawnFate status false
  | _ => True

def SpawnCloseRight (world : SpawnWorld) (p result : Option SpawnResult) : Prop :=
  (∀ status, world.child.fate = some status → result = p.map fun _ => spawnFate status false) ∧
    (world.child.fate = none → result = p.map fun _ => ⟨.terminated, 0, 0⟩)

def SpawnRunRight (race : Option WaitStatus) (p : Option SpawnResult) :
    SpawnWorld → List SpawnCall → Prop
  | world, [] =>
    ∃ next, mulleSpawnClose race p world = some next ∧ next.world.child.reaps = 1 ∧
      next.world.child.strays = [] ∧ SpawnCloseRight world p next.result
  | world, call :: calls =>
    ∀ next, spawnStep world call = some next →
      next.world.child.reaps ≤ 1 ∧ next.world.child.strays = [] ∧ SpawnCallRight next call ∧
        SpawnRunRight race p next.world calls

def SpawnCallFits (world : SpawnWorld) : SpawnCall → Prop
  | .wait _ _ _ => ∀ status, world.child.state ≠ .gone status
  | _ => True

/-- The child still runs, or there is nothing to be told that `p` does not say already. -/
def SpawnCloseFits (world : SpawnWorld) (p : Option SpawnResult) : Prop :=
  p = none ∨ world.child.state = .running ∨
    ∃ status, world.child.state = .gone status ∧ p = some (spawnFate status false)

def SpawnRunFits (p : Option SpawnResult) : SpawnWorld → List SpawnCall → Prop
  | world, [] => SpawnCloseFits world p
  | world, call :: calls =>
    ∀ next, spawnStep world call = some next → SpawnCallFits world call ∧
      SpawnRunFits p next.world calls

section Runs

variable {world : SpawnWorld} {p : Option SpawnResult}
variable {next : SpawnReturn}

theorem SpawnWorld.Ok.reaps (ok : world.Ok) : world.child.reaps ≤ 1 := by
  rcases ok with live | ⟨status, done⟩
  · simp [live.reaps]
  · simp [done.reaps]

theorem SpawnWorld.Ok.strays (ok : world.Ok) : world.child.strays = [] := by
  rcases ok with live | ⟨status, done⟩
  · exact live.strays
  · exact done.strays

theorem SpawnWorld.Live.meanwhile (live : world.Live) (ended : Option WaitStatus) :
    SpawnWorld.Live { world with child := world.child.meanwhile ended } := by
  cases ended with
  | none => exact live
  | some status =>
    cases state : world.child.state with
    | running =>
      simp only [SpawnChild.meanwhile, SpawnChild.ends, state]
      constructor <;> simp [live.opened, live.unreaped, live.aimed, live.reaps, live.strays]
    | zombie status => simpa only [SpawnChild.meanwhile, SpawnChild.ends, state] using live
    | gone status => exact absurd state (live.here status)

theorem SpawnWorld.Live.poll (live : world.Live) :
    (world.child.state = .running ∧ mulleSpawnPoll p world = none) ∨
      ∃ status next, world.child.state = .zombie status ∧ mulleSpawnPoll p world = some next ∧
        next.ret = 1 ∧
        next.result = (p.map fun _ => spawnFate status false) ∧ next.world.Done status := by
  rw [mulleSpawnPoll, waitpidNoHang, if_neg (fun away => away live.aimed)]
  cases state : world.child.state with
  | running => exact Or.inl ⟨rfl, rfl⟩
  | zombie status =>
    refine Or.inr ⟨status, _, rfl, rfl, rfl, rfl, ?_⟩
    constructor
    · rfl
    · simp [live.reaps]
    · exact live.strays
    · rfl
  | gone status => exact absurd state (live.here status)

theorem SpawnWorld.Live.waitLoop {hasDeadline : Bool} {naps : List (Option WaitStatus)}
    (live : world.Live) (waited : mulleSpawnWaitLoop hasDeadline p naps world = some next) :
    (next.ret = 0 ∧ next.world.Live ∧ next.world.child.state = .running) ∨
      ∃ status, next.ret = 1 ∧ next.result = (p.map fun _ => spawnFate status false) ∧
        next.world.Done status := by
  induction naps generalizing world with
  | nil =>
    rw [mulleSpawnWaitLoop] at waited
    rcases @SpawnWorld.Live.poll world p live with
      ⟨running, looked⟩ | ⟨status, done, _, looked, returned⟩
    · simp only [looked] at waited
      split at waited
      · obtain rfl := Option.some.inj waited
        exact Or.inl ⟨rfl, live, running⟩
      · contradiction
    · simp only [looked, Option.some.injEq] at waited
      subst waited
      exact Or.inr ⟨status, returned⟩
  | cons ended naps ih =>
    rw [mulleSpawnWaitLoop] at waited
    rcases @SpawnWorld.Live.poll world p live with ⟨_, looked⟩ | ⟨status, done, _, looked, returned⟩
    · simp only [looked] at waited
      exact ih (live.meanwhile ended) waited
    · simp only [looked, Option.some.injEq] at waited
      subst waited
      exact Or.inr ⟨status, returned⟩

theorem SpawnWorld.Done.fate {status : WaitStatus} (done : world.Done status) :
    world.child.fate = some status := by
  rw [SpawnChild.fate, done.gone]

theorem SpawnWorld.Ok.signal (ok : world.Ok) (number : Nat) :
    (mulleSpawnSignal number world).world.Ok := by
  rw [mulleSpawnSignal]
  rcases ok with live | ⟨status, done⟩
  · rw [if_neg (by simp [live.opened]), if_neg (by simp [live.unreaped])]
    left
    cases state : world.child.state with
    | gone status => exact absurd state (live.here status)
    | running | zombie status =>
      simp only [sysKill, state, live.aimed, if_true]
      constructor <;> simp [live.opened, live.unreaped, live.aimed, live.reaps, live.strays]
  · rw [if_pos (by simp [done.opened])]
    exact Or.inr ⟨status, done⟩

/-- A call leaves a proper world behind, and is right just where it fits. -/
theorem SpawnWorld.Ok.step {call : SpawnCall} (ok : world.Ok)
    (stepped : spawnStep world call = some next) :
    next.world.Ok ∧ (SpawnCallRight next call ↔ SpawnCallFits world call) := by
  cases call with
  | wait hasDeadline naps p =>
    rw [spawnStep, mulleSpawnWait] at stepped
    rcases ok with live | ⟨status, done⟩
    · rw [if_neg (by simp [live.opened]), if_neg (by simp [live.unreaped])] at stepped
      rcases live.waitLoop stepped with ⟨ret, nextLive, running⟩ | ⟨status, ret, result, done⟩
      · refine ⟨Or.inl nextLive, iff_of_true ?_ live.here⟩
        simp [SpawnCallRight, ret, SpawnChild.fate, running]
      · refine ⟨Or.inr ⟨status, done⟩, iff_of_true ?_ live.here⟩
        simp [SpawnCallRight, ret, result, done.fate]
    · rw [if_pos (by simp [done.opened]), Option.some.injEq] at stepped
      subst stepped
      refine ⟨Or.inr ⟨status, done⟩, iff_of_false ?_ (fun fits => fits status done.gone)⟩
      simp [SpawnCallRight, done.fate]
  | terminate | interrupt | suspend | resume =>
    obtain rfl := Option.some.inj stepped
    exact ⟨ok.signal _, Iff.rfl⟩
  | ends status =>
    obtain rfl := Option.some.inj stepped
    refine ⟨?_, Iff.rfl⟩
    rcases ok with live | ⟨fate, done⟩
    · exact Or.inl (live.meanwhile (some status))
    · right
      refine ⟨fate, ?_⟩
      simpa only [SpawnChild.ends, done.gone] using done
  | reuse =>
    obtain rfl := Option.some.inj stepped
    refine ⟨?_, Iff.rfl⟩
    rcases ok with live | ⟨fate, done⟩
    · exact Or.inl ⟨live.opened, live.unreaped, live.aimed, live.reaps, live.strays, live.here⟩
    · exact Or.inr ⟨fate, done.opened, done.reaps, done.strays, done.gone⟩

theorem SpawnWorld.Live.closeChild (live : world.Live) (race : Option WaitStatus) :
    ∃ next, mulleSpawnCloseChild race p world = some (next, p.map fun _ => ⟨.terminated, 0, 0⟩) ∧
      next.child.reaps = 1 ∧ next.child.strays = [] := by
  have meets := live.meanwhile race
  have recorded : ∀ status, mulleSpawnRecordFate status true p = p.map fun _ => ⟨.terminated, 0, 0⟩ :=
    fun _ => rfl
  rw [mulleSpawnCloseChild, if_pos (by simp [live.unreaped])]
  generalize world.child.meanwhile race = child at meets
  obtain ⟨_, _, aimed, reaps, strays, here⟩ := meets
  simp only at aimed reaps strays here
  cases state : child.state with
  | gone status => exact absurd state (here status)
  | running | zombie status =>
    simp [sysKill, waitpidBlocking, state, aimed, recorded, reaps, strays]

theorem SpawnWorld.Ok.close (ok : world.Ok) (race : Option WaitStatus) :
    ∃ next, mulleSpawnClose race p world = some next ∧ next.world.child.reaps = 1 ∧
      next.world.child.strays = [] ∧
      (SpawnCloseRight world p next.result ↔ SpawnCloseFits world p) := by
  rw [mulleSpawnClose]
  rcases ok with live | ⟨status, done⟩
  · obtain ⟨next, closed, reaps, strays⟩ := @SpawnWorld.Live.closeChild world p live race
    rw [if_pos live.opened, closed]
    refine ⟨_, rfl, reaps, strays, ?_⟩
    cases state : world.child.state with
    | gone status => exact absurd state (live.here status)
    | running => simp [SpawnCloseRight, SpawnCloseFits, SpawnChild.fate, state]
    | zombie status =>
      cases p with
      | none => simp [SpawnCloseRight, SpawnCloseFits, SpawnChild.fate, state]
      | some result =>
        cases status <;> simp [SpawnCloseRight, SpawnCloseFits, SpawnChild.fate, state, spawnFate]
  · rw [if_neg (by simp [done.opened])]
    refine ⟨_, rfl, done.reaps, done.strays, ?_⟩
    cases p with
    | none => simp [SpawnCloseRight, SpawnCloseFits]
    | some result => simp [SpawnCloseRight, SpawnCloseFits, done.fate, done.gone]

/-- A run keeps what is promised exactly where no wait comes after the child was waited for, and
where the close finds the child running or has nothing new to tell. -/
theorem spawnRun_right_iff {world : SpawnWorld} (live : world.Live) (race : Option WaitStatus)
    (p : Option SpawnResult) (calls : List SpawnCall) :
    SpawnRunRight race p world calls ↔ SpawnRunFits p world calls := by
  have ok : world.Ok := Or.inl live
  clear live
  induction calls generalizing world with
  | nil =>
    obtain ⟨next, closed, reaps, strays, right⟩ := @SpawnWorld.Ok.close world p ok race
    rw [SpawnRunRight, SpawnRunFits, ← right]
    constructor
    · rintro ⟨other, otherClosed, _, _, otherRight⟩
      rw [closed, Option.some.injEq] at otherClosed
      exact otherClosed ▸ otherRight
    · exact fun closeRight => ⟨next, closed, reaps, strays, closeRight⟩
  | cons call calls ih =>
    rw [SpawnRunRight, SpawnRunFits]
    constructor
    · intro right next stepped
      obtain ⟨nextOk, callIff⟩ := ok.step stepped
      obtain ⟨_, _, callRight, rest⟩ := right next stepped
      exact ⟨callIff.mp callRight, (ih nextOk).mp rest⟩
    · intro fits next stepped
      obtain ⟨nextOk, callIff⟩ := ok.step stepped
      obtain ⟨callFits, rest⟩ := fits next stepped
      exact ⟨nextOk.reaps, nextOk.strays, callIff.mpr callFits, (ih nextOk).mpr rest⟩

def spawnWorldOpened : SpawnWorld where
  child := ⟨4711, .running, 0, [], [], false⟩
  handle := ⟨-1, 3, -1, 4711, true, ⟨.exited 0, false⟩⟩
  closed := []

theorem spawnRun_right_iff_waited :
    SpawnRunRight none none spawnWorldOpened [.ends (.exited 7), .wait true [] none] := by
  refine (spawnRun_right_iff ⟨rfl, rfl, rfl, rfl, rfl, by simp [spawnWorldOpened]⟩ none none _).mpr ?_
  intro next ended
  obtain rfl := Option.some.inj ended
  refine ⟨trivial, fun next waited => ⟨?_, Or.inl rfl⟩⟩
  simp [SpawnCallFits, spawnWorldOpened, SpawnChild.ends]

/-- A second wait fails, and a close forgets how the child ended. -/
theorem spawnRun_wait_twice :
    ¬ SpawnRunRight none none spawnWorldOpened
        [.ends (.exited 7), .wait true [] none, .wait true [] none] ∧
      ¬ SpawnRunRight none (some ⟨.unknown, 0, 0⟩) spawnWorldOpened [.ends (.exited 7)] := by
  constructor
  · intro right
    obtain ⟨_, _, _, right⟩ := right _ rfl
    obtain ⟨_, _, _, right⟩ := right _ rfl
    obtain ⟨_, _, ⟨ended, _⟩, _⟩ := right _ rfl
    exact absurd (ended.mpr nofun) (by decide)
  · intro right
    obtain ⟨_, _, _, right⟩ := right _ rfl
    obtain ⟨next, closed, _, _, told, _⟩ := right
    obtain rfl := Option.some.inj closed
    exact absurd (told (.exited 7) rfl) (by decide)

end Runs

end MulleCore
