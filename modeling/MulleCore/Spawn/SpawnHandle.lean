import Mathlib.Data.Option.Basic

/-!
The handles of `mulle-spawn-posix.c`, with the child as the system knows it. What the system does by
itself between the calls is handed to the calls: how the child ends while a `wait` naps, or while a
`close` begins.
-/

namespace MulleCore

inductive WaitStatus where
  | exited (code : Nat)
  | signalled (number : Nat)
deriving DecidableEq

/-- A child that has ended stays a zombie until it is waited for; then its pid is free. -/
inductive ChildState where
  | running
  | zombie (status : WaitStatus)
  | gone (status : WaitStatus)
deriving DecidableEq

/-- `signals` went to the child. `strays` went to its pid when it was gone, or elsewhere. -/
structure SpawnChild where
  pid : Nat
  state : ChildState
  reaps : Nat
  signals : List Nat
  strays : List Nat
  reused : Bool
deriving DecidableEq

def SpawnChild.ends (child : SpawnChild) (status : WaitStatus) : SpawnChild :=
  match child.state with
  | .running => { child with state := .zombie status }
  | _ => child

def SpawnChild.meanwhile (child : SpawnChild) : Option WaitStatus → SpawnChild
  | some status => child.ends status
  | none => child

def SpawnChild.fate (child : SpawnChild) : Option WaitStatus :=
  match child.state with
  | .running => none
  | .zombie status | .gone status => some status

/-- `waitpid` with `WNOHANG`. The inner `none` is its 0, the outer one is `ECHILD`. -/
def waitpidNoHang (child : SpawnChild) (pid : Nat) : SpawnChild × Option (Option WaitStatus) :=
  if pid ≠ child.pid then (child, none)
  else
    match child.state with
    | .running => (child, some none)
    | .zombie status =>
      ({ child with state := .gone status, reaps := child.reaps + 1 }, some (some status))
    | .gone _ => (child, none)

def SIGKILL : Nat := 9
def SIGTERM : Nat := 15
def SIGINT : Nat := 2
def SIGSTOP : Nat := 19
def SIGCONT : Nat := 18

def sysKill (child : SpawnChild) (pid number : Nat) : SpawnChild × Bool :=
  match child.state with
  | .gone _ => ({ child with strays := number :: child.strays }, pid = child.pid ∧ child.reused)
  | _ =>
    if pid = child.pid then ({ child with signals := number :: child.signals }, true)
    else ({ child with strays := number :: child.strays }, false)

def waitpidBlocking (child : SpawnChild) (pid : Nat) : Option (SpawnChild × Option WaitStatus) :=
  if pid ≠ child.pid then some (child, none)
  else
    match child.state with
    | .running =>
      if SIGKILL ∈ child.signals then
        some ({ child with state := .gone (.signalled SIGKILL), reaps := child.reaps + 1 },
          some (.signalled SIGKILL))
      else none
    | .zombie status =>
      some ({ child with state := .gone status, reaps := child.reaps + 1 }, some status)
    | .gone _ => some (child, none)

inductive SpawnStatus where
  | unknown
  | failed
  | exited
  | signalled
  | terminated
deriving DecidableEq

structure SpawnResult where
  status : SpawnStatus
  exitCode : Nat
  signalNumber : Nat
deriving DecidableEq

structure SpawnPlatform where
  status : WaitStatus
  reaped : Bool
deriving DecidableEq

structure SpawnHandle where
  input : Int
  output : Int
  error : Int
  pid : Nat
  opened : Bool
  platform : SpawnPlatform
deriving DecidableEq

def spawnFate (status : WaitStatus) (killed : Bool) : SpawnResult :=
  if killed then ⟨.terminated, 0, 0⟩
  else
    match status with
    | .exited code => ⟨.exited, code, 0⟩
    | .signalled number => ⟨.signalled, 0, number⟩

def mulleSpawnRecordFate (status : WaitStatus) (killed : Bool) (p : Option SpawnResult) :
    Option SpawnResult :=
  p.map fun _ => spawnFate status killed

structure SpawnWorld where
  child : SpawnChild
  handle : SpawnHandle
  closed : List Int
deriving DecidableEq

structure SpawnReturn where
  world : SpawnWorld
  ret : Int
  result : Option SpawnResult
deriving DecidableEq

def mulleSpawnPoll (p : Option SpawnResult) (world : SpawnWorld) : Option SpawnReturn :=
  match waitpidNoHang world.child world.handle.pid with
  | (child, some (some status)) =>
    some
      { world := { world with
          child := child
          handle := { world.handle with platform := ⟨status, true⟩, opened := false, pid := 0 } }
        ret := 1
        result := mulleSpawnRecordFate status false p }
  | (_, some none) => none
  | (child, none) => some { world := { world with child := child }, ret := -1, result := p }

/-- The loop, with a nap after each look but the last one. Without a deadline it may not end. -/
def mulleSpawnWaitLoop (hasDeadline : Bool) (p : Option SpawnResult) :
    List (Option WaitStatus) → SpawnWorld → Option SpawnReturn
  | [], world =>
    match mulleSpawnPoll p world with
    | some done => some done
    | none => if hasDeadline then some { world := world, ret := 0, result := p } else none
  | ended :: naps, world =>
    match mulleSpawnPoll p world with
    | some done => some done
    | none =>
      mulleSpawnWaitLoop hasDeadline p naps { world with child := world.child.meanwhile ended }

def mulleSpawnWait (hasDeadline : Bool) (naps : List (Option WaitStatus)) (p : Option SpawnResult)
    (world : SpawnWorld) : Option SpawnReturn :=
  if ¬ world.handle.opened then some { world := world, ret := -1, result := p }
  else if world.handle.platform.reaped then
    some { world := world, ret := 1, result := mulleSpawnRecordFate world.handle.platform.status false p }
  else mulleSpawnWaitLoop hasDeadline p naps world

def mulleSpawnSignal (number : Nat) (world : SpawnWorld) : SpawnReturn :=
  if ¬ world.handle.opened then { world := world, ret := -1, result := none }
  else if world.handle.platform.reaped then { world := world, ret := 0, result := none }
  else
    let (child, delivered) := sysKill world.child world.handle.pid number
    { world := { world with child := child }, ret := if delivered then 0 else -1, result := none }

def mulleSpawnTerminate : SpawnWorld → SpawnReturn := mulleSpawnSignal SIGTERM

def mulleSpawnInterrupt : SpawnWorld → SpawnReturn := mulleSpawnSignal SIGINT

def mulleSpawnSuspend : SpawnWorld → SpawnReturn := mulleSpawnSignal SIGSTOP

def mulleSpawnResume : SpawnWorld → SpawnReturn := mulleSpawnSignal SIGCONT

/-- The part of `close` for a handle that was opened. The child may have ended by itself before the
kill. -/
def mulleSpawnCloseChild (race : Option WaitStatus) (p : Option SpawnResult) (world : SpawnWorld) :
    Option (SpawnWorld × Option SpawnResult) :=
  if ¬ world.handle.platform.reaped then do
    let child := world.child.meanwhile race
    let child := (sysKill child world.handle.pid SIGKILL).1
    let (child, waited) ← waitpidBlocking child world.handle.pid
    match waited with
    | some status =>
      some ({ world with child := child, handle := { world.handle with platform := ⟨status, true⟩ } },
        mulleSpawnRecordFate status true p)
    | none => some ({ world with child := child }, p)
  else some (world, mulleSpawnRecordFate world.handle.platform.status false p)

def spawnHandleReset : SpawnHandle where
  input := -1
  output := -1
  error := -1
  pid := 0
  opened := false
  platform := ⟨.exited 0, false⟩

def mulleSpawnClose (race : Option WaitStatus) (p : Option SpawnResult) (world : SpawnWorld) :
    Option SpawnReturn := do
  let (world, result) ← if world.handle.opened then mulleSpawnCloseChild race p world
    else some (world, p)
  let descriptors := [world.handle.input, world.handle.output, world.handle.error].filter (· ≥ 0)
  some
    { world := { world with closed := world.closed ++ descriptors, handle := spawnHandleReset }
      ret := 0
      result := result }

inductive SpawnCall where
  | wait (hasDeadline : Bool) (naps : List (Option WaitStatus)) (p : Option SpawnResult)
  | terminate
  | interrupt
  | suspend
  | resume
  | ends (status : WaitStatus)
  | reuse
deriving DecidableEq

def spawnStep (world : SpawnWorld) : SpawnCall → Option SpawnReturn
  | .wait hasDeadline naps p => mulleSpawnWait hasDeadline naps p world
  | .terminate => some (mulleSpawnTerminate world)
  | .interrupt => some (mulleSpawnInterrupt world)
  | .suspend => some (mulleSpawnSuspend world)
  | .resume => some (mulleSpawnResume world)
  | .ends status => some ⟨{ world with child := world.child.ends status }, 0, none⟩
  | .reuse => some ⟨{ world with child := { world.child with reused := true } }, 0, none⟩

end MulleCore
