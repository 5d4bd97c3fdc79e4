import Mathlib.Algebra.Ring.Nat
import MulleCore.Concurrent.ConcurrentStorages
import MulleCore.Library.Simulation

/-!
`mulle-concurrent-pointerarray.c`, with a step for each atomic operation. A result of `none` stands
for a failed `assert` or an access outside of the entries.
-/

namespace MulleCore

open Library

/-- `n` and `size` are small enough for `unsigned int`. -/
structure Pointerarraystorage where
  n : Nat
  size : Nat
  entries : Nat → Pointer

abbrev ConcurrentPointerarray : Type := ConcurrentStorages Pointerarraystorage

/-- What a thread does again after a migration. A `get` may be one of the enumerator of `find`. -/
inductive PointerarrayCall where
  | add (value : Pointer)
  | get (index : Nat) (search : Option Pointer)
deriving DecidableEq

structure PointerarrayMigration where
  call : PointerarrayCall
  src : Nat
  next : Nat
deriving DecidableEq

inductive PublishCaller where
  | added (i : Nat) (value : Pointer)
  | again (value : Pointer)
  | put (migration : PointerarrayMigration) (i : Nat) (value : Pointer)
  | copied (migration : PointerarrayMigration)
deriving DecidableEq

inductive PointerarrayState where
  | idle
  | aborted
  | countStorage (search : Option (Pointer × Nat))
  | countRead (p : Nat) (search : Option (Pointer × Nat))
  | begin (call : PointerarrayCall)
  | addCount (p : Nat) (value : Pointer)
  | addClaim (p i : Nat) (value : Pointer)
  | getCount (p index : Nat) (search : Option Pointer)
  | getEntry (p index : Nat) (search : Option Pointer)
  | publishCount (p : Nat) (caller : PublishCaller)
  | publishEntry (p k : Nat) (caller : PublishCaller)
  | publishAdvance (p k : Nat) (caller : PublishCaller)
  | migrateStorage (p : Nat) (call : PointerarrayCall)
  | migrateNext (p : Nat) (call : PointerarrayCall)
  | migrateLink (p : Nat) (call : PointerarrayCall)
  | copyRead (migration : PointerarrayMigration) (dst i : Nat)
  | copyFreeze (migration : PointerarrayMigration) (dst i : Nat)
  | copyPut (migration : PointerarrayMigration) (dst i : Nat) (value : Pointer)
  | copyFollow (migration : PointerarrayMigration) (dst i : Nat) (value : Pointer)
  | copyRetire (migration : PointerarrayMigration) (dst i : Nat) (value : Pointer)
  | migrateSwap (migration : PointerarrayMigration)
deriving DecidableEq

inductive PointerarrayMove where
  | add (value : Pointer)
  | get (index : Nat)
  | getCount
  | find (search : Pointer)
  | proceed

inductive PointerarrayEvent (Thread : Type) where
  | filled (thread : Thread) (value : Pointer)
  | added (thread : Thread) (value : Pointer)
  | got (index : Nat) (value : Pointer)
  | counted (n : Nat)
  | found (search : Pointer) (isThere : Bool)
  | migrated (p : Nat)
deriving DecidableEq

namespace ConcurrentPointerarray

section Steps

variable {Thread : Type}

abbrev Result (Thread : Type) : Type :=
  Option (ConcurrentPointerarray × PointerarrayState × Option (PointerarrayEvent Thread))

def allocStorage (n : Nat) : Pointerarraystorage :=
  { n := 0, size := if n < 8 then 8 else n, entries := fun _ => 0 }

def emptyStorage : Pointerarraystorage := { n := 0, size := 0, entries := fun _ => 0 }

def isEmptyStorage (storage : Pointerarraystorage) : Bool := storage.size == 0

def entry (array : ConcurrentPointerarray) (p i : Nat) : Pointer := (array.storages p).entries i

def setEntry (array : ConcurrentPointerarray) (p i : Nat) (value : Pointer) :
    ConcurrentPointerarray :=
  array.modify p fun storage => { storage with entries := Function.update storage.entries i value }

def setCount (array : ConcurrentPointerarray) (p n : Nat) : ConcurrentPointerarray :=
  array.modify p fun storage => { storage with n := n }

def copyNext (array : ConcurrentPointerarray) (migration : PointerarrayMigration) (dst i : Nat) :
    PointerarrayState :=
  if i < (array.storages migration.src).size then .copyRead migration dst i
  else .publishCount dst (.copied migration)

/-- The `empty_storage` is not written. -/
def copyBegin (array : ConcurrentPointerarray) (migration : PointerarrayMigration) :
    PointerarrayState :=
  if (array.storages migration.src).size = 0 then .migrateSwap migration
  else .copyRead migration migration.next 0

def copyValue (array : ConcurrentPointerarray) (migration : PointerarrayMigration) (dst i : Nat)
    (value : Pointer) : PointerarrayState :=
  if value = 0 then .copyFreeze migration dst i
  else if value = redirectValue then copyNext array migration dst (i + 1)
  else .copyPut migration dst i value

def publishReturn (thread : Thread) (array : ConcurrentPointerarray) (p : Nat) :
    PublishCaller → Result Thread
  | .added _ value => some (array, .idle, some (.added thread value))
  | .again value => some (array, .addCount p value, none)
  | .put migration i value => some (array, .copyRetire migration p i value, none)
  | .copied migration => some (array, .migrateSwap migration, none)

def getReturn (array : ConcurrentPointerarray) (index : Nat) (value : Pointer) :
    Option Pointer → Result Thread
  | none => some (array, .idle, some (.got index value))
  | some search =>
    if value = 0 then none
    else if value = search then some (array, .idle, some (.found search true))
    else some (array, .countStorage (some (search, index + 1)), none)

def countReturn (array : ConcurrentPointerarray) (n : Nat) : Option (Pointer × Nat) → Result Thread
  | none => some (array, .idle, some (.counted n))
  | some (search, index) =>
    if n ≤ index then some (array, .idle, some (.found search false))
    else some (array, .begin (.get index (some search)), none)

def proceed (thread : Thread) (array : ConcurrentPointerarray) : PointerarrayState → Result Thread
  | .idle => some (array, .idle, none)
  | .aborted => some (array, .aborted, none)
  | .countStorage search => some (array, .countRead array.storage search, none)
  | .countRead p search => countReturn array (array.storages p).n search
  | .begin (.add value) => some (array, .addCount array.storage value, none)
  | .begin (.get index search) => some (array, .getCount array.storage index search, none)
  | .addCount p value =>
    if (array.storages p).size ≤ (array.storages p).n then
      some (array, .migrateStorage p (.add value), none)
    else some (array, .addClaim p (array.storages p).n value, none)
  | .addClaim p i value =>
    if (array.storages p).size ≤ i then none
    else if entry array p i = redirectValue then some (array, .migrateStorage p (.add value), none)
    else if entry array p i = 0 then
      some (setEntry array p i value, .publishCount p (.added i value), some (.filled thread value))
    else some (array, .publishCount p (.again value), none)
  | .getCount p index search =>
    if (array.storages p).n ≤ index then getReturn array index 0 search
    else some (array, .getEntry p index search, none)
  | .getEntry p index search =>
    if (array.storages p).size ≤ index then none
    else if entry array p index = redirectValue then
      some (array, .migrateStorage p (.get index search), none)
    else getReturn array index (entry array p index) search
  | .publishCount p caller =>
    if (array.storages p).size ≤ (array.storages p).n then publishReturn thread array p caller
    else some (array, .publishEntry p (array.storages p).n caller, none)
  | .publishEntry p k caller =>
    if (array.storages p).size ≤ k then none
    else if entry array p k = 0 ∨ entry array p k = redirectValue then
      publishReturn thread array p caller
    else some (array, .publishAdvance p k caller, none)
  | .publishAdvance p k caller =>
    if (array.storages p).n = k then some (setCount array p (k + 1), .publishCount p caller, none)
    else some (array, .publishCount p caller, none)
  | .migrateStorage p call =>
    if array.storage = p then some (array, .migrateNext p call, none)
    else some (array, .begin call, some (.migrated p))
  | .migrateNext p call =>
    if array.nextStorage ≠ p then some (array, copyBegin array ⟨call, p, array.nextStorage⟩, none)
    else if (2 ^ 32 - 1) / 2 < (array.storages p).size then some (array, .aborted, none)
    else some (array, .migrateLink p call, none)
  | .migrateLink p call =>
    if array.nextStorage = p then
      let linked := array.link (allocStorage ((array.storages p).size * 2))
      some (linked, copyBegin linked ⟨call, p, linked.nextStorage⟩, none)
    else some (array, copyBegin array ⟨call, p, array.nextStorage⟩, none)
  | .copyRead migration dst i =>
    if (array.storages migration.src).size ≤ i then none
    else some (array, copyValue array migration dst i (entry array migration.src i), none)
  | .copyFreeze migration dst i =>
    if (array.storages migration.src).size ≤ i then none
    else if entry array migration.src i = 0 then
      some (setEntry array migration.src i redirectValue, copyNext array migration dst (i + 1), none)
    else some (array, copyValue array migration dst i (entry array migration.src i), none)
  | .copyPut migration dst i value =>
    if (array.storages dst).size ≤ i then none
    else if entry array dst i = redirectValue then
      some (array, .copyFollow migration dst i value, none)
    else if entry array dst i = 0 then
      some (setEntry array dst i value, .publishCount dst (.put migration i value), none)
    else some (array, .publishCount dst (.put migration i value), none)
  | .copyFollow migration dst i value =>
    if array.nextStorage = dst then
      none else some (array, .copyPut migration array.nextStorage i value, none)
  | .copyRetire migration dst i value =>
    if (array.storages migration.src).size ≤ i then none
    else if entry array migration.src i = value then
      some (setEntry array migration.src i redirectValue, copyNext array migration dst (i + 1), none)
    else some (array, copyValue array migration dst i (entry array migration.src i), none)
  | .migrateSwap migration =>
    if array.storage = migration.src then
      some (array.swap isEmptyStorage migration.src migration.next, .begin migration.call,
        some (.migrated migration.src))
    else some (array, .begin migration.call, some (.migrated migration.src))

/-- A thread begins a call when it is idle. Values that may not be stored are turned away. -/
def step (thread : Thread) (array : ConcurrentPointerarray) (here : PointerarrayState) :
    PointerarrayMove → Result Thread
  | .proceed => proceed thread array here
  | .add value =>
    if here ≠ .idle ∨ value = 0 ∨ value = redirectValue then some (array, here, none)
    else some (array, .begin (.add value), none)
  | .get index => some (array, if here = .idle then .begin (.get index none) else here, none)
  | .getCount => some (array, if here = .idle then .countStorage none else here, none)
  | .find search =>
    if here ≠ .idle ∨ search = 0 ∨ search = redirectValue then some (array, here, none)
    else some (array, .countStorage (some (search, 0)), none)

def initial (Thread : Type) (size : Nat) : Config ConcurrentPointerarray Thread PointerarrayState :=
  ⟨ConcurrentStorages.init (if size = 0 then emptyStorage else allocStorage size), fun _ => .idle⟩

end Steps

end ConcurrentPointerarray

end MulleCore
