import MulleCore.Library.Probing
import MulleCore.Library.Bindings
import MulleCore.Data.Hash
import MulleCore.Container.Math

/-!
The open hash tables of `mulle--pointermap-generic.c` and
`mulle--pointerset-generic.c`. Both files have their own copy of this code, the map
with a value behind each key; here the two are one definition over the entry type.
A result of `none` stands for a failed `assert`, a loop that never ends or an
access outside the storage.
-/

namespace MulleCore

open Library

structure Keycallback where
  hash : Pointer → UInt64
  isEqual : Pointer → Pointer → Bool
  notakey : Pointer

structure Keycallback.Equates (callback : Keycallback) : Prop where
  refl : ∀ key, callback.isEqual key key = true
  symm : ∀ key other, callback.isEqual key other = true → callback.isEqual other key = true
  trans : ∀ key other third, callback.isEqual key other = true →
    callback.isEqual other third = true → callback.isEqual key third = true

structure Keycallback.Lawful (callback : Keycallback) :
    Prop extends Keycallback.Equates callback where
  hash_eq : ∀ key other, callback.isEqual key other = true → callback.hash key = callback.hash other

inductive WriteMode where
  | insert
  | overwrite
  | update
deriving DecidableEq

def hashForSize (hash : UInt64) (size : Nat) : Nat := hash.toNat &&& (size - 2)

def isFullSize (count size : Nat) : Bool := count ≥ size - size >>> 2

def isSparseSize (count size : Nat) : Bool := count < size / 2 - (size / 2) >>> 2

def maskStep (size index : Nat) : Nat := (index + 1) &&& (size - 1)

def wrapStep (size index : Nat) : Nat := if index + 1 < size then index + 1 else 0

/-- The branches of the delete loop: may the entry at `index` that is searched
for from `searchStart` on stay where it is, with a gap at `dstIndex`? -/
def staysPut (searchStart dstIndex index : Nat) : Bool :=
  if searchStart > index then
    if dstIndex > index then searchStart > dstIndex else false
  else if dstIndex > index then true
  else searchStart > dstIndex

def sizeForCapacity (capacity : UInt64) : Nat :=
  if capacity ≥ 4 then (pow2roundup64 (capacity + capacity >>> 2)).toNat else 4

def growSize (size : Nat) : Nat := if size * 2 = 0 then 4 else size * 2

def halveWhileSparse (count : Nat) : Nat → Nat → Option Nat
  | 0, _ => none
  | fuel + 1, size =>
    if isSparseSize count size then
      if size / 2 < 4 then some (size / 2) else halveWhileSparse count fuel (size / 2)
    else some size

section Tables

variable {Entry : Type} (keyOf : Entry → Pointer) (callback : Keycallback)

def tableVacant (entry : Entry) : Bool := keyOf entry == callback.notakey

def tableHome (size : Nat) (entry : Entry) : Nat := hashForSize (callback.hash (keyOf entry)) size

def visitToFind (key : Pointer) (entry : Entry) : Visit :=
  if keyOf entry = callback.notakey then .hole
  else if callback.isEqual key (keyOf entry) then .hit
  else .onward

def visitToGet (key : Pointer) (entry : Entry) : Visit :=
  if keyOf entry = callback.notakey then .hole
  else if key = keyOf entry then .hit
  else if callback.isEqual (keyOf entry) key then .hit
  else .onward

def visitToStore (entry : Entry) : Visit :=
  if keyOf entry = callback.notakey then .hole else .onward

def tableProbe (visit : Entry → Visit) (hash : UInt64) (slots : List Entry) : Option Landing :=
  probeFrom visit (maskStep slots.length) slots slots.length (hashForSize hash slots.length)

def tableFindIndex (slots : List Entry) (key : Pointer) : Option Landing :=
  tableProbe (visitToFind keyOf callback key) (callback.hash key) slots

def tableStore (slots : List Entry) (start : Nat) (entry : Entry) : Option (List Entry) :=
  match probeFrom (visitToStore keyOf callback) (wrapStep slots.length) slots slots.length start with
  | some (.hole index) => some (slots.set index entry)
  | _ => none

def tableCopyStorage (dst src : List Entry) : Option (List Entry) :=
  src.foldlM (fun dst entry =>
    if keyOf entry = callback.notakey then some dst
    else tableStore keyOf callback dst (tableHome keyOf callback dst.length entry) entry) dst

def tableGrow (allocate : Nat → List Entry) (slots : List Entry) : Option (List Entry) :=
  tableCopyStorage keyOf callback (allocate (growSize slots.length)) slots

def tableShrink (allocate : Nat → List Entry) (slots : List Entry) (count : Nat) :
    Option (List Entry) :=
  if isSparseSize count slots.length then
    match halveWhileSparse count slots.length (slots.length / 2) with
    | none => none
    | some size =>
      let newSize := if size < 4 then 4 else size
      if newSize ≥ slots.length then some slots
      else if count < newSize then tableCopyStorage keyOf callback (allocate newSize) slots
      else none
  else none

def tableRemoveAt (cleared : Entry) (slots : List Entry) (index : Nat) : Option (List Entry) :=
  shiftBack (tableVacant keyOf callback) (tableHome keyOf callback slots.length) staysPut
    (maskStep slots.length) cleared slots.length slots index index

end Tables

structure ProbeTable (Entry : Type) where
  storage : List Entry
  count : Nat
deriving DecidableEq

def ProbeTable.size {Entry : Type} (table : ProbeTable Entry) : Nat := table.storage.length

def ProbeTable.isFull {Entry : Type} (table : ProbeTable Entry) : Bool :=
  isFullSize table.count table.size

def ProbeTable.isSparse {Entry : Type} (table : ProbeTable Entry) : Bool :=
  isSparseSize table.count table.size

section Tables

variable {Entry : Type} (keyOf : Entry → Pointer) (callback : Keycallback)

def ProbeTable.findIndex (table : ProbeTable Entry) (key : Pointer) : Option Landing :=
  tableFindIndex keyOf callback table.storage key

def ProbeTable.grow (allocate : Nat → List Entry) (table : ProbeTable Entry) :
    Option (ProbeTable Entry) :=
  (tableGrow keyOf callback allocate table.storage).map fun storage =>
    { table with storage := storage }

def ProbeTable.makeRoom (allocate : Nat → List Entry) (table : ProbeTable Entry) :
    Option (ProbeTable Entry) :=
  if table.isFull then table.grow keyOf callback allocate else some table

def ProbeTable.storeNew (allocate : Nat → List Entry) (table : ProbeTable Entry) (hash : UInt64)
    (new : Entry) : Option (ProbeTable Entry) := do
  let table ← table.makeRoom keyOf callback allocate
  let storage ← tableStore keyOf callback table.storage (hashForSize hash table.size) new
  some { storage := storage, count := table.count + 1 }

def ProbeTable.remove (cleared : Entry) (table : ProbeTable Entry) (key : Pointer) :
    Option (ProbeTable Entry × Option Entry) :=
  if table.count = 0 then some (table, none)
  else
    match table.findIndex keyOf callback key with
    | none => none
    | some (.hole _) => some (table, none)
    | some (.found index) =>
      match table.storage[index]? with
      | none => none
      | some old =>
        (tableRemoveAt keyOf callback cleared table.storage index).map fun storage =>
          ({ storage := storage, count := table.count - 1 }, some old)

def ProbeTable.shrink (allocate : Nat → List Entry) (table : ProbeTable Entry) :
    Option (ProbeTable Entry) :=
  (tableShrink keyOf callback allocate table.storage table.count).map fun storage =>
    { table with storage := storage }

def ProbeTable.lookup (table : ProbeTable Entry) (key : Pointer) : Option (Option Entry) :=
  match tableProbe (visitToGet keyOf callback key) (callback.hash key) table.storage with
  | none => none
  | some (.hole _) => some none
  | some (.found index) =>
    match table.storage[index]? with
    | none => none
    | some entry => some (some entry)

def tableBag (slots : List Entry) : Multiset Entry := bag (tableVacant keyOf callback) slots

def answersKey (key : Pointer) (entry : Entry) : Bool := callback.isEqual key (keyOf entry)

/-- What every operation keeps: entries can be probed for, the size is one the
hash can be masked with, and a quarter of the slots stays vacant. -/
structure TableOk (slots : List Entry) : Prop where
  sound : Sound (tableVacant keyOf callback) (tableHome keyOf callback slots.length) slots
  sized : slots.length = 0 ∨ ∃ power, slots.length = 2 ^ (power + 2)
  room : (tableBag keyOf callback slots).card ≤ slots.length - slots.length / 4

def ProbeTable.bag (table : ProbeTable Entry) : Multiset Entry :=
  tableBag keyOf callback table.storage

structure ProbeTable.Ok (table : ProbeTable Entry) : Prop where
  slots : TableOk keyOf callback table.storage
  counted : (table.bag keyOf callback).card = table.count

structure ProbeTable.Fresh (table : ProbeTable Entry) : Prop where
  sized : table.size = 0 ∨ ∃ power, table.size = 2 ^ (power + 2)
  vacant : ∀ entry ∈ table.storage, keyOf entry = callback.notakey
  counted : table.count = 0

structure ProbeTable.Holds (table : ProbeTable Entry) (bindings : Pointer → Option Entry) : Prop
    extends ProbeTable.Ok keyOf callback table where
  represents : Represents (answersKey keyOf callback) (table.bag keyOf callback) bindings

end Tables

theorem hashForSize_lt (hash : UInt64) {size : Nat} (big : 2 ≤ size) :
    hashForSize hash size < size := by
  have within : hash.toNat &&& (size - 2) ≤ size - 2 := Nat.and_le_right
  unfold hashForSize
  omega

theorem maskStep_wraps {power : Nat} : Wraps (2 ^ power) (maskStep (2 ^ power)) := by
  intro index bound
  unfold maskStep ahead
  rw [Nat.and_two_pow_sub_one_eq_mod]
  split
  · exact Nat.mod_eq_of_lt ‹_›
  · have full : index + 1 = 2 ^ power := by omega
    rw [full, Nat.mod_self, Nat.sub_self]

theorem wrapStep_wraps (size : Nat) : Wraps size (wrapStep size) := by
  intro index bound
  unfold wrapStep ahead
  split
  · rfl
  · omega

theorem staysPut_iff {size searchStart dstIndex index : Nat} (startBound : searchStart < size)
    (dstBound : dstIndex < size) :
    staysPut searchStart dstIndex index = true ↔
      ringDistance size searchStart index < ringDistance size dstIndex index := by
  unfold staysPut ringDistance
  by_cases wrapped : searchStart > index
  · rw [if_pos wrapped, if_neg (not_le.mpr wrapped)]
    by_cases gapWrapped : dstIndex > index
    · rw [if_pos gapWrapped, if_neg (not_le.mpr gapWrapped), decide_eq_true_iff]
      omega
    · rw [if_neg gapWrapped, if_pos (not_lt.mp gapWrapped)]
      constructor
      · intro impossible
        contradiction
      · intro
        omega
  · rw [if_neg wrapped, if_pos (not_lt.mp wrapped)]
    by_cases gapWrapped : dstIndex > index
    · rw [if_pos gapWrapped, if_neg (not_le.mpr gapWrapped)]
      constructor
      · intro
        omega
      · intro
        rfl
    · rw [if_neg gapWrapped, if_pos (not_lt.mp gapWrapped), decide_eq_true_iff]
      omega

end MulleCore
