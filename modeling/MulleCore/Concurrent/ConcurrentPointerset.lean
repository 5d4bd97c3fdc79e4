import Mathlib.Data.UInt
import MulleCore.Concurrent.ConcurrentStorages
import MulleCore.Library.Simulation

/-!
`mulle-concurrent-pointerset.c`, with a step for each atomic operation. A result of `none` stands
for a failed `assert` or an access outside of the entries.
-/

namespace MulleCore

open Library

/-- `nUsed` is `none` for the `(void *) -1` of the empty storage, which no counter reaches. -/
structure Pointersetstorage where
  nUsed : Option Nat
  mask : Nat
  entries : Nat → Pointer

abbrev ConcurrentPointerset : Type := ConcurrentStorages Pointersetstorage

namespace ConcurrentPointerset

inductive Adder where
  | register
  | insert
deriving DecidableEq

inductive Call where
  | add (adder : Adder) (ptr : Pointer)
  | member (ptr : Pointer)
deriving DecidableEq

structure Migration where
  call : Call
  src : Nat
  next : Nat
deriving DecidableEq

inductive Caller where
  | add (adder : Adder)
  | copy (migration : Migration) (i : Nat)
deriving DecidableEq

inductive State where
  | idle
  | aborted
  | begin (call : Call)
  | addUsed (p : Nat) (adder : Adder) (ptr : Pointer)
  | probe (p probes : Nat) (ptr : Pointer) (caller : Caller)
  | claim (p probes : Nat) (ptr : Pointer) (caller : Caller)
  | increment (p : Nat) (ptr : Pointer) (caller : Caller)
  | member (p probes : Nat) (ptr : Pointer)
  | migrateStorage (p : Nat) (call : Call)
  | migrateNext (p : Nat) (call : Call)
  | migrateLink (p : Nat) (call : Call)
  | copyRead (migration : Migration) (i : Nat)
  | copyFreeze (migration : Migration) (i : Nat)
  | copyRetire (migration : Migration) (i : Nat) (value : Pointer)
  | migrateSwap (migration : Migration)
deriving DecidableEq

inductive Move where
  | add (adder : Adder) (ptr : Pointer)
  | member (ptr : Pointer)
  | proceed

inductive Event (Thread : Type) where
  | claimed (adder : Option Thread) (p i : Nat) (ptr : Pointer)
  | added (thread : Thread) (ptr : Pointer) (isNew : Bool)
  | member (ptr : Pointer) (isThere : Bool)
  | migrated (p : Nat)
deriving DecidableEq

section Steps

variable {Thread : Type}

abbrev Result (Thread : Type) : Type := Option (ConcurrentPointerset × State × Option (Event Thread))

def tombstonePointer : Pointer := 0x7fffffffffffffff

def allocStorage (n : Nat) : Pointersetstorage :=
  { nUsed := some 0, mask := (if n < 4 then 4 else n) - 1, entries := fun _ => 0 }

def emptyStorage : Pointersetstorage := { nUsed := none, mask := 0, entries := fun _ => 0 }

def isConst (storage : Pointersetstorage) : Bool := storage.nUsed.isNone

def getMaxNUsed (storage : Pointersetstorage) : Nat := storage.mask + 1 - (storage.mask + 1) / 2

def slot (storage : Pointersetstorage) (ptr : Pointer) (probes : Nat) : Nat :=
  (ptr.toNat + probes) % 2 ^ 64 &&& storage.mask

def entry (set : ConcurrentPointerset) (p i : Nat) : Pointer := (set.storages p).entries i

def setEntry (set : ConcurrentPointerset) (p i : Nat) (value : Pointer) : ConcurrentPointerset :=
  set.modify p fun storage => { storage with entries := Function.update storage.entries i value }

def incrementUsed (set : ConcurrentPointerset) (p : Nat) : ConcurrentPointerset :=
  set.modify p fun storage => { storage with nUsed := storage.nUsed.map (· + 1) }

def copyNext (set : ConcurrentPointerset) (migration : Migration) (i : Nat) : State :=
  if i ≤ (set.storages migration.src).mask then .copyRead migration i else .migrateSwap migration

/-- The empty storage is not written. -/
def copyBegin (set : ConcurrentPointerset) (migration : Migration) : State :=
  if isConst (set.storages migration.src) then .migrateSwap migration else .copyRead migration 0

def copyValue (set : ConcurrentPointerset) (migration : Migration) (i : Nat) (value : Pointer) :
    State :=
  if value = 0 then .copyFreeze migration i
  else if value = redirectValue then copyNext set migration (i + 1)
  else .probe migration.next 0 value (.copy migration i)

def inserted (thread : Thread) (set : ConcurrentPointerset) (ptr : Pointer) : Caller → Result Thread
  | .add _ => some (set, .idle, some (.added thread ptr true))
  | .copy migration i => some (set, .copyRetire migration i ptr, none)

def alreadyPresent (thread : Thread) (set : ConcurrentPointerset) (ptr : Pointer) :
    Caller → Result Thread
  | .add _ => some (set, .idle, some (.added thread ptr false))
  | .copy migration i => some (set, .copyRetire migration i ptr, none)

def busy (set : ConcurrentPointerset) (p : Nat) (ptr : Pointer) : Caller → Result Thread
  | .add adder => some (set, .migrateStorage p (.add adder ptr), none)
  | .copy migration i => some (set, .copyRetire migration i ptr, none)

def probeOn (set : ConcurrentPointerset) (p probes : Nat) (ptr : Pointer) (caller : Caller) :
    Result Thread :=
  if (set.storages p).mask ≤ probes then busy set p ptr caller
  else some (set, .probe p (probes + 1) ptr caller, none)

def adderOf (thread : Thread) : Caller → Option Thread
  | .add _ => some thread
  | .copy _ _ => none

def proceed (thread : Thread) (set : ConcurrentPointerset) : State → Result Thread
  | .idle => some (set, .idle, none)
  | .aborted => some (set, .aborted, none)
  | .begin (.add adder ptr) => some (set, .addUsed set.storage adder ptr, none)
  | .begin (.member ptr) => some (set, .member set.storage 0 ptr, none)
  | .addUsed p adder ptr =>
    match (set.storages p).nUsed with
    | none => some (set, .migrateStorage p (.add adder ptr), none)
    | some n =>
      if getMaxNUsed (set.storages p) ≤ n then some (set, .migrateStorage p (.add adder ptr), none)
      else some (set, .probe p 0 ptr (.add adder), none)
  | .probe p probes ptr caller =>
    let i := slot (set.storages p) ptr probes
    if ptr = 0 ∨ ptr = redirectValue ∨ ptr = tombstonePointer then none
    else if (set.storages p).mask < i then none
    else if entry set p i = ptr then alreadyPresent thread set ptr caller
    else if entry set p i = 0 then some (set, .claim p probes ptr caller, none)
    else if entry set p i = redirectValue then busy set p ptr caller
    else probeOn set p probes ptr caller
  | .claim p probes ptr caller =>
    let i := slot (set.storages p) ptr probes
    if (set.storages p).mask < i then none
    else if entry set p i = 0 then
      some (setEntry set p i ptr, .increment p ptr caller,
        some (.claimed (adderOf thread caller) p i ptr))
    else if entry set p i = redirectValue then busy set p ptr caller
    else if entry set p i = ptr then alreadyPresent thread set ptr caller
    else probeOn set p probes ptr caller
  | .increment p ptr caller => inserted thread (incrementUsed set p) ptr caller
  | .member p probes ptr =>
    let i := slot (set.storages p) ptr probes
    if (set.storages p).mask < i then none
    else if entry set p i = 0 then some (set, .idle, some (.member ptr false))
    else if entry set p i = ptr then some (set, .idle, some (.member ptr true))
    else if entry set p i = redirectValue then some (set, .migrateStorage p (.member ptr), none)
    else if (set.storages p).mask ≤ probes then some (set, .idle, some (.member ptr false))
    else some (set, .member p (probes + 1) ptr, none)
  | .migrateStorage p call =>
    if set.storage = p then some (set, .migrateNext p call, none)
    else some (set, .begin call, some (.migrated p))
  | .migrateNext p call =>
    if set.nextStorage ≠ p then some (set, copyBegin set ⟨call, p, set.nextStorage⟩, none)
    else if (2 ^ 64 - 1) / 2 < (set.storages p).mask + 1 ∨
    (2 ^ 64 - 1 - 24) / 8 < ((set.storages p).mask + 1) * 2 - 1 then
      some (set, .aborted, none)
    else some (set, .migrateLink p call, none)
  | .migrateLink p call =>
    if set.nextStorage = p then
      let linked := set.link (allocStorage (((set.storages p).mask + 1) * 2))
      some (linked, copyBegin linked ⟨call, p, linked.nextStorage⟩, none)
    else some (set, copyBegin set ⟨call, p, set.nextStorage⟩, none)
  | .copyRead migration i =>
    if (set.storages migration.src).mask < i then none
    else some (set, copyValue set migration i (entry set migration.src i), none)
  | .copyFreeze migration i =>
    if (set.storages migration.src).mask < i then none
    else if entry set migration.src i = 0 then
      some (setEntry set migration.src i redirectValue, copyNext set migration (i + 1), none)
    else some (set, copyValue set migration i (entry set migration.src i), none)
  | .copyRetire migration i value =>
    if (set.storages migration.src).mask < i then none
    else if entry set migration.src i = value then
      some (setEntry set migration.src i redirectValue, copyNext set migration (i + 1), none)
    else some (set, copyValue set migration i (entry set migration.src i), none)
  | .migrateSwap migration =>
    if set.storage = migration.src then
      some (set.swap isConst migration.src migration.next, .begin migration.call,
        some (.migrated migration.src))
    else some (set, .begin migration.call, some (.migrated migration.src))

/-- A thread begins a call when it is idle. Pointers that may not be stored are turned away by
`insert` and `register`, and `member` turns away NULL. -/
def step (thread : Thread) (set : ConcurrentPointerset) (here : State) : Move → Result Thread
  | .proceed => proceed thread set here
  | .add adder ptr =>
    if here ≠ .idle ∨ ptr = 0 ∨ ptr = redirectValue ∨ ptr = tombstonePointer then
      some (set, here, none)
    else some (set, .begin (.add adder ptr), none)
  | .member ptr =>
    if here ≠ .idle ∨ ptr = 0 then some (set, here, none) else some (set, .begin (.member ptr), none)

def initial (Thread : Type) (size : Nat) : Config ConcurrentPointerset Thread State :=
  ⟨ConcurrentStorages.init (if size = 0 then emptyStorage else allocStorage size), fun _ => .idle⟩

end Steps

end ConcurrentPointerset

end MulleCore
