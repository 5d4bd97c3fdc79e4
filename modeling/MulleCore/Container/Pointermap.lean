import MulleCore.Library.Block
import MulleCore.Container.ProbeTableHolds

/-!
`mulle--pointermap-generic.c`, `mulle--pointermap-struct.c` and `mulle--map.c`. Slot
`i` of the storage is the key at `i` with the value at `i + _size`. What `retain`
returns (`keep`) and what `malloc` finds in the value half (`fresh`) are parameters;
the calls of `retain` and `release` are listed in the order they are made.
-/

namespace MulleCore

open Library

structure Pointerpair where
  key : Pointer
  value : Pointer
deriving DecidableEq

abbrev Pointermap := ProbeTable Pointerpair

inductive Ownership where
  | retainKey (key : Pointer)
  | retainValue (value : Pointer)
  | releaseKey (key : Pointer)
  | releaseValue (value : Pointer)

def retainPair (pair : Pointerpair) : List Ownership :=
  [.retainKey pair.key, .retainValue pair.value]

def releasePair (pair : Pointerpair) : List Ownership :=
  [.releaseKey pair.key, .releaseValue pair.value]

def pointermapAllocateStorageGeneric (notakey : Pointer) (fresh : Nat → Pointer) (size : Nat) :
    List Pointerpair :=
  table size fun index => ⟨notakey, if notakey = 0 then 0 else fresh index⟩

def mapInit (callback : Keycallback) (capacity : UInt64) (fresh : Nat → Pointer) : Pointermap :=
  if capacity = 0 then { storage := [], count := 0 }
  else
    { storage :=
        pointermapAllocateStorageGeneric callback.notakey fresh (sizeForCapacity capacity)
      count := 0 }

def pointerKeycallback : Keycallback where
  hash := pointerHash
  isEqual := fun key other => key == other
  notakey := notAPointer

def pointermapInit (capacity : UInt64) (fresh : Nat → Pointer) : Pointermap :=
  mapInit pointerKeycallback capacity fresh

def pointermapResetGeneric (map : Pointermap) (notakey : Pointer) : Pointermap :=
  { storage := map.storage.map fun slot => { slot with key := notakey }, count := 0 }

def pointermapWritePairGeneric (callback : Keycallback) (keep : Pointerpair → Pointerpair)
    (fresh : Nat → Pointer) (map : Pointermap) (pair : Pointerpair) (mode : WriteMode) :
    Option (Pointermap × Pointer × List Ownership) :=
  if pair.key = callback.notakey then none
  else
    let hash := callback.hash pair.key
    let new := keep pair
    let allocate := pointermapAllocateStorageGeneric callback.notakey fresh
    let storeNew := (map.storeNew Pointerpair.key callback allocate hash new).map fun next =>
      (next, 0, retainPair new)
    if map.count = 0 then storeNew
    else
      match map.findIndex Pointerpair.key callback pair.key with
      | none => none
      | some (.found index) =>
        match map.storage[index]? with
        | none => none
        | some old =>
          if mode = .insert then some (map, old.value, [])
          else if old.value = pair.value ∧ old.key = pair.key then some (map, 0, [])
          else some ({ map with storage := map.storage.set index new },
            if mode = .update then old.value else 0, retainPair new ++ releasePair old)
      | some (.hole index) =>
        if map.isFull then storeNew
        else some ({ storage := map.storage.set index new, count := map.count + 1 }, 0,
          retainPair new)

def pointermapGetHashed (callback : Keycallback) (map : Pointermap) (key : Pointer) :
    Option Pointer :=
  if map.count = 0 then some 0
  else
    match map.lookup Pointerpair.key callback key with
    | none => none
    | some none => some 0
    | some (some slot) => some slot.value

def pointermapPointerequalitysearch (map : Pointermap) (key : Pointer) : Pointer :=
  match map.storage.find? fun slot => slot.key == key with
  | none => 0
  | some slot => slot.value

def pointermapGetGeneric (callback : Keycallback) (map : Pointermap) (key : Pointer) :
    Option Pointer :=
  if key = callback.notakey then some 0
  else if map.size ≤ 32 ∧ pointermapPointerequalitysearch map key ≠ 0 then
    some (pointermapPointerequalitysearch map key)
  else pointermapGetHashed callback map key

/-- `_mulle__pointermap_get`: here the comparison with the key comes first. -/
def pointermapGet (map : Pointermap) (key : Pointer) : Option Pointer :=
  if map.count = 0 then some 0
  else
    let visit := fun slot : Pointerpair =>
      if key = slot.key then Visit.hit else if slot.key = notAPointer then .hole else .onward
    match tableProbe visit (pointerHash key) map.storage with
    | none => none
    | some (.hole _) => some 0
    | some (.found index) => map.storage[index]?.map Pointerpair.value

def pointermapRemoveGeneric (callback : Keycallback) (map : Pointermap) (key : Pointer) :
    Option (Pointermap × Nat × List Ownership) :=
  match map.remove Pointerpair.key callback ⟨callback.notakey, 0⟩ key with
  | none => none
  | some (next, none) => some (next, 0, [])
  | some (next, some old) => some (next, 1, releasePair old)

def pointermapShrinkGeneric (callback : Keycallback) (fresh : Nat → Pointer) (map : Pointermap) :
    Option Pointermap :=
  map.shrink Pointerpair.key callback (pointermapAllocateStorageGeneric callback.notakey fresh)

def pointermapInsertPairGeneric (callback : Keycallback) (keep : Pointerpair → Pointerpair)
    (fresh : Nat → Pointer) (map : Pointermap) (pair : Pointerpair) :
    Option (Pointermap × Nat × List Ownership) := do
  let (next, _, events) ← pointermapWritePairGeneric callback keep fresh map pair .insert
  some (next, if next.count ≠ map.count then 1 else 0, events)

def pointermapRegisterPairGeneric (callback : Keycallback) (keep : Pointerpair → Pointerpair)
    (fresh : Nat → Pointer) (map : Pointermap) (pair : Pointerpair) :
    Option (Pointermap × Pointer × List Ownership) := do
  let (next, _, events) ← pointermapWritePairGeneric callback keep fresh map pair .insert
  if next.count ≠ map.count then some (next, pair.value, events)
  else
    let value ← pointermapGetGeneric callback next pair.key
    some (next, value, events)

def nextPairs (notakey : Pointer) : Nat → List Pointerpair → Option (List Pointerpair)
  | 0, _ => some []
  | _ + 1, [] => none
  | left + 1, slot :: rest =>
    if slot.key = notakey then nextPairs notakey (left + 1) rest
    else (nextPairs notakey left rest).map (slot :: ·)

def pointermapPairs (callback : Keycallback) (map : Pointermap) : Option (List Pointerpair) :=
  nextPairs callback.notakey map.count map.storage

def setPairs (callback : Keycallback) (keep : Pointerpair → Pointerpair) (fresh : Nat → Pointer) :
    Pointermap → List Pointerpair → Option (Pointermap × List Ownership)
  | map, [] => some (map, [])
  | map, pair :: rest => do
      let (next, _, events) ← pointermapWritePairGeneric callback keep fresh map pair .overwrite
      let (final, later) ← setPairs callback keep fresh next rest
      some (final, events ++ later)

def pointermapCopyItemsGeneric (callback : Keycallback) (keep : Pointerpair → Pointerpair)
    (fresh : Nat → Pointer) (dst src : Pointermap) : Option (Pointermap × List Ownership) := do
  let pairs ← pointermapPairs callback src
  setPairs callback keep fresh dst pairs

structure Keyvaluecallback where
  keycallback : Keycallback
  keyReleases : Bool
  valueReleases : Bool

def mapReleaseAll (callback : Keyvaluecallback) (map : Pointermap) : Option (List Ownership) :=
  if callback.keyReleases || callback.valueReleases then do
    let pairs ← pointermapPairs callback.keycallback map
    some (pairs.flatMap releasePair)
  else some []

def mapDone (callback : Keyvaluecallback) (map : Pointermap) : Option (List Ownership) :=
  mapReleaseAll callback map

def mapReset (callback : Keyvaluecallback) (fresh : Nat → Pointer) (map : Pointermap) :
    Option (Pointermap × List Ownership) :=
  if map.count = 0 then some (map, [])
  else do
    let events ← mapDone callback map
    some (mapInit callback.keycallback 0 fresh, events)

/-!
What a write does to the bag of pairs of a pointermap, and what it answers.
-/

abbrev pointermapBag (callback : Keycallback) (map : Pointermap) : Multiset Pointerpair :=
  ProbeTable.bag Pointerpair.key callback map

abbrev Pointermap.Ok (callback : Keycallback) (map : Pointermap) : Prop :=
  ProbeTable.Ok Pointerpair.key callback map

abbrev Pointermap.Fresh (callback : Keycallback) (map : Pointermap) : Prop :=
  ProbeTable.Fresh Pointerpair.key callback map

abbrev Pointermap.Holds (callback : Keycallback) (map : Pointermap)
    (bindings : Pointer → Option Pointerpair) : Prop :=
  ProbeTable.Holds Pointerpair.key callback map bindings

def Keeps (callback : Keycallback) (keep : Pointerpair → Pointerpair) : Prop :=
  ∀ pair, pair.key ≠ callback.notakey → (keep pair).key ≠ callback.notakey ∧
    callback.isEqual pair.key (keep pair).key = true

theorem keeps_id {callback : Keycallback} (lawful : callback.Lawful) : Keeps callback id :=
  fun pair isKey => ⟨isKey, lawful.refl pair.key⟩

abbrev Answers (callback : Keycallback) (key : Pointer) (slot : Pointerpair) : Prop :=
  answersKey Pointerpair.key callback key slot = true

inductive WriteCase (callback : Keycallback) (map : Pointermap) (pair new : Pointerpair)
    (mode : WriteMode) (next : Pointermap) (result : Pointer) (events : List Ownership) : Prop where
  | added
      (absent : ∀ slot ∈ pointermapBag callback map, ¬Answers callback pair.key slot)
      (contents : pointermapBag callback next = pointermapBag callback map + {new})
      (counted : next.count = map.count + 1)
      (answer : result = 0)
      (calls : events = retainPair new)
  | left (old : Pointerpair)
      (member : old ∈ pointermapBag callback map)
      (answering : Answers callback pair.key old)
      (reason : mode = .insert ∧ result = old.value ∨ mode ≠ .insert ∧ old = pair ∧ result = 0)
      (same : next = map)
      (calls : events = [])
  | replaced (old : Pointerpair) (rest : Multiset Pointerpair)
      (writes : mode ≠ .insert)
      (different : old ≠ pair)
      (answering : Answers callback pair.key old)
      (before : rest + {old} = pointermapBag callback map)
      (contents : pointermapBag callback next = rest + {new})
      (counted : next.count = map.count)
      (answer : result = if mode = .update then old.value else 0)
      (calls : events = retainPair new ++ releasePair old)

theorem pointermapAllocates (callback : Keycallback) (fresh : Nat → Pointer) :
    Allocates Pointerpair.key callback
      (pointermapAllocateStorageGeneric callback.notakey fresh) := by
  intro size
  constructor
  · exact table_length size _
  · intro slot member
    obtain ⟨index, -, rfl⟩ := List.mem_map.mp member
    rfl

section Operations

variable {callback : Keycallback} {map : Pointermap}

theorem ProbeTable.Ok.write (ok : Pointermap.Ok callback map) (lawful : callback.Lawful)
    {keep : Pointerpair → Pointerpair} (keeps : Keeps callback keep) (fresh : Nat → Pointer)
    {pair : Pointerpair} (isKey : pair.key ≠ callback.notakey) (mode : WriteMode) :
    ∃ next result events,
      pointermapWritePairGeneric callback keep fresh map pair mode = some (next, result, events) ∧
      Pointermap.Ok callback next ∧
      WriteCase callback map pair (keep pair) mode next result events := by
  obtain ⟨occupied, alike⟩ := keeps pair isKey
  have hashed : callback.hash (keep pair).key = callback.hash pair.key :=
    (lawful.hash_eq _ _ alike).symm
  obtain ⟨stored, storeNew, storedOk, storedCount, storedBag⟩ :=
    ok.storeNew (pointermapAllocates callback fresh) occupied hashed
  have adds : (∀ slot ∈ pointermapBag callback map, ¬Answers callback pair.key slot) →
      WriteCase callback map pair (keep pair) mode stored 0 (retainPair (keep pair)) :=
    fun absent => .added absent storedBag storedCount rfl rfl
  rw [pointermapWritePairGeneric, if_neg isKey]
  simp only [storeNew, Option.map_some]
  by_cases empty : map.count = 0
  · rw [if_pos empty]
    exact ⟨stored, 0, _, rfl, storedOk, adds (ok.absent_of_count empty pair.key)⟩
  · rw [if_neg empty, ProbeTable.findIndex]
    rcases ok.slots.find lawful (ok.size_ne_zero empty) pair.key with
      ⟨index, old, landed, here, member, answering⟩ |
      ⟨index, vacancy, landed, here, isVacant, way, absent⟩
    · rw [landed]
      simp only [here]
      have oldOccupied := (mem_tableBag.mp member).2
      by_cases inserting : mode = .insert
      · rw [if_pos inserting]
        exact ⟨map, _, _, rfl, ok, .left old member answering (Or.inl ⟨inserting, rfl⟩) rfl rfl⟩
      · rw [if_neg inserting]
        by_cases identical : old.value = pair.value ∧ old.key = pair.key
        · rw [if_pos identical]
          have same : old = pair := by
            cases old
            cases pair
            simp_all
          exact ⟨map, _, _, rfl, ok,
            .left old member answering (Or.inr ⟨inserting, same, rfl⟩) rfl rfl⟩
        · rw [if_neg identical]
          obtain ⟨rest, nextOk, before, after⟩ := ok.replace here oldOccupied occupied
            (hashed.trans (lawful.hash_eq _ _ answering))
          refine ⟨_, _, _, rfl, nextOk, ?_⟩
          refine .replaced old rest inserting ?_ answering before after rfl rfl rfl
          rintro rfl
          exact identical ⟨rfl, rfl⟩
    · rw [landed]
      by_cases full : map.isFull = true
      · simp only [full, if_true]
        exact ⟨stored, 0, _, rfl, storedOk, adds absent⟩
      · simp only [full]
        obtain ⟨nextOk, contents⟩ := ok.fill here isVacant occupied full
          (by rw [hashed]; exact way)
        exact ⟨_, _, _, rfl, nextOk, .added absent contents rfl rfl rfl⟩

theorem ProbeTable.Ok.removePair (ok : Pointermap.Ok callback map) (lawful : callback.Lawful)
    (key : Pointer) :
    ∃ next removed, pointermapRemoveGeneric callback map key =
        some (next, if removed.isSome then 1 else 0, (removed.map releasePair).getD []) ∧
      Pointermap.Ok callback next ∧ RemoveCase Pointerpair.key callback map key next removed := by
  obtain ⟨next, removed, applied, nextOk, emptied⟩ :=
    ok.remove lawful (show (⟨callback.notakey, 0⟩ : Pointerpair).key = callback.notakey from rfl) key
  refine ⟨next, removed, ?_, nextOk, emptied⟩
  rw [pointermapRemoveGeneric, applied]
  cases removed with
  | none => rfl
  | some old => rfl

theorem pointermapBag_fresh (start : Pointermap.Fresh callback map) :
    pointermapBag callback map = 0 :=
  start.bag

theorem pointermapReset_fresh (ok : Pointermap.Ok callback map) :
    Pointermap.Fresh callback (pointermapResetGeneric map callback.notakey) where
  sized := by
    rw [ProbeTable.size, pointermapResetGeneric, List.length_map]
    exact ok.slots.sized
  vacant := by
    intro slot member
    obtain ⟨before, -, rfl⟩ := List.mem_map.mp member
    rfl
  counted := rfl

theorem mapInit_fresh (callback : Keycallback) {capacity : UInt64}
    (bound : capacity.toNat + capacity.toNat / 4 ≤ 2 ^ 63) (fresh : Nat → Pointer) :
    Pointermap.Fresh callback (mapInit callback capacity fresh) := by
  unfold mapInit
  split
  · exact ProbeTable.fresh_empty
  · exact (pointermapAllocates callback fresh).fresh bound

end Operations

end MulleCore
