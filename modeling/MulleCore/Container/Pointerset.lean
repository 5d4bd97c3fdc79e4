import MulleCore.Container.ProbeTableHolds

/-!
`mulle--pointerset-generic.c` and `mulle--pointerset-struct.c`. What `retain` returns
for an element (`keep`) is a parameter. The calls of `release` leave the set as it is
and are not recorded.
-/

namespace MulleCore

open Library

abbrev Pointerset := ProbeTable Pointer

def pointersetAllocateStorageGeneric (notakey : Pointer) (size : Nat) : List Pointer :=
  List.replicate size notakey

/-- The sentinel is `mulle_not_a_pointer` here, whatever the callbacks say later. -/
def pointersetInit (capacity : UInt64) : Pointerset :=
  if capacity = 0 then { storage := [], count := 0 }
  else
    { storage := pointersetAllocateStorageGeneric notAPointer (sizeForCapacity capacity)
      count := 0 }

def pointersetWriteGeneric (callback : Keycallback) (keep : Pointer → Pointer) (set : Pointerset)
    (p : Pointer) (mode : WriteMode) : Option (Pointerset × Pointer) :=
  let hash := callback.hash p
  let allocate := pointersetAllocateStorageGeneric callback.notakey
  let storeNew := (set.storeNew id callback allocate hash (keep p)).map fun next =>
    (next, callback.notakey)
  let storeAt := fun index : Nat =>
    if set.isFull then storeNew
    else if index < set.size then
      some ({ storage := set.storage.set index (keep p), count := set.count + 1 }, callback.notakey)
    else none
  if set.count = 0 then storeNew
  else
    match set.findIndex id callback p with
    | none => none
    | some (.hole index) => storeAt index
    | some (.found index) =>
      match set.storage[index]? with
      | none => none
      | some q =>
        match mode with
        | .overwrite =>
          if p = q then some (set, callback.notakey)
          else some ({ set with storage := set.storage.set index (keep p) }, q)
        | .insert => some (set, q)
        -- no case of the switch: what hole_index was initialised with is used
        | .update => storeAt 0xfeedface

def pointersetSetGeneric (callback : Keycallback) (keep : Pointer → Pointer) (set : Pointerset)
    (p : Pointer) : Option Pointerset := do
  let (next, _) ← pointersetWriteGeneric callback keep set p .overwrite
  some next

def pointersetInsertGeneric (callback : Keycallback) (keep : Pointer → Pointer) (set : Pointerset)
    (p : Pointer) : Option (Pointerset × Nat) := do
  let (next, old) ← pointersetWriteGeneric callback keep set p .insert
  some (next, if old = callback.notakey then 1 else 0)

def pointersetRegisterGeneric (callback : Keycallback) (keep : Pointer → Pointer)
    (set : Pointerset) (p : Pointer) : Option (Pointerset × Pointer) := do
  let (next, old) ← pointersetWriteGeneric callback keep set p .insert
  some (next, if old ≠ callback.notakey then old else p)

def pointersetPointerequalitysearchGeneric (set : Pointerset) (key notakey : Pointer) : Pointer :=
  match set.storage.find? fun slot => id slot == key with
  | none => notakey
  | some _ => key

def pointersetGetHashed (callback : Keycallback) (set : Pointerset) (key : Pointer) :
    Option Pointer :=
  match set.lookup id callback key with
  | none => none
  | some none => some callback.notakey
  | some (some found) => some found

def pointersetGetGeneric (callback : Keycallback) (set : Pointerset) (key : Pointer) :
    Option Pointer :=
  if set.count = 0 then some callback.notakey
  else
    let value := pointersetPointerequalitysearchGeneric set key callback.notakey
    if set.size ≤ 32 ∧ value ≠ callback.notakey then some value
    else pointersetGetHashed callback set key

def pointersetMemberGeneric (callback : Keycallback) (set : Pointerset) (p : Pointer) :
    Option Nat := do
  let found ← pointersetGetGeneric callback set p
  some (if found ≠ callback.notakey then 1 else 0)

def pointersetRemoveGeneric (callback : Keycallback) (set : Pointerset) (p : Pointer) :
    Option (Pointerset × Nat) := do
  let (next, removed) ← set.remove id callback callback.notakey p
  some (next, if removed.isSome then 1 else 0)

def pointersetShrinkGeneric (callback : Keycallback) (set : Pointerset) : Option Pointerset :=
  set.shrink id callback (pointersetAllocateStorageGeneric callback.notakey)

def pointersetShrinkIfNeeded (callback : Keycallback) (set : Pointerset) : Option Pointerset :=
  if set.isSparse then pointersetShrinkGeneric callback set else some set

/-!
A pointerset is a finite set of classes of equal elements, one element stored for
each class.
-/

abbrev Pointerset.Ok (callback : Keycallback) (set : Pointerset) : Prop :=
  ProbeTable.Ok id callback set

abbrev Pointerset.Holds (callback : Keycallback) (set : Pointerset)
    (bindings : Pointer → Option Pointer) : Prop :=
  ProbeTable.Holds id callback set bindings

def KeepsElement (callback : Keycallback) (keep : Pointer → Pointer) : Prop :=
  ∀ p, p ≠ callback.notakey → keep p ≠ callback.notakey ∧ callback.isEqual p (keep p) = true

theorem keepsElement_id {callback : Keycallback} (lawful : callback.Lawful) :
    KeepsElement callback id :=
  fun p isElement => ⟨isElement, lawful.refl p⟩

inductive PointersetOp where
  | insert (p : Pointer) (keep : Pointer → Pointer)
  | set (p : Pointer) (keep : Pointer → Pointer)
  | register (p : Pointer) (keep : Pointer → Pointer)
  | remove (p : Pointer)
  | shrinkIfNeeded

inductive PointersetAnswer where
  | flag (flag : Nat)
  | element (p : Pointer)
  | nothing
deriving DecidableEq

def PointersetOp.apply (callback : Keycallback) (set : Pointerset) :
    PointersetOp → Option (Pointerset × PointersetAnswer)
  | .insert p keep => do
      let (next, flag) ← pointersetInsertGeneric callback keep set p
      some (next, .flag flag)
  | .set p keep => do
      let next ← pointersetSetGeneric callback keep set p
      some (next, .nothing)
  | .register p keep => do
      let (next, element) ← pointersetRegisterGeneric callback keep set p
      some (next, .element element)
  | .remove p => do
      let (next, flag) ← pointersetRemoveGeneric callback set p
      some (next, .flag flag)
  | .shrinkIfNeeded => do
      let next ← pointersetShrinkIfNeeded callback set
      some (next, .nothing)

def pointersetRun (callback : Keycallback) (set : Pointerset) :
    List PointersetOp → Option (Pointerset × List PointersetAnswer)
  | [] => some (set, [])
  | op :: rest => do
      let (next, answer) ← op.apply callback set
      let (final, answers) ← pointersetRun callback next rest
      some (final, answer :: answers)

def PointersetOp.Permitted (callback : Keycallback) : PointersetOp → Prop
  | .insert p keep => p ≠ callback.notakey ∧ KeepsElement callback keep
  | .set p keep => p ≠ callback.notakey ∧ KeepsElement callback keep
  | .register p keep => p ≠ callback.notakey ∧ KeepsElement callback keep
  | .remove p => p ≠ callback.notakey
  | .shrinkIfNeeded => True

def PointersetOp.classes (callback : Keycallback) (classes : Pointer → Option Pointer) :
    PointersetOp → (Pointer → Option Pointer) × PointersetAnswer
  | .insert p keep =>
    match classes p with
    | none => (bindKey callback classes p (keep p), .flag 1)
    | some _ => (classes, .flag 0)
  | .set p keep =>
    match classes p with
    | none => (bindKey callback classes p (keep p), .nothing)
    | some old =>
      (if p = old then classes else bindKey callback classes p (keep p), .nothing)
  | .register p keep =>
    match classes p with
    | none => (bindKey callback classes p (keep p), .element p)
    | some old => (classes, .element old)
  | .remove p =>
    match classes p with
    | none => (classes, .flag 0)
    | some _ => (unbindKey callback classes p, .flag 1)
  | .shrinkIfNeeded => (classes, .nothing)

def classesRun (callback : Keycallback) (classes : Pointer → Option Pointer) :
    List PointersetOp → (Pointer → Option Pointer) × List PointersetAnswer
  | [] => (classes, [])
  | op :: rest =>
    let (next, answer) := op.classes callback classes
    let (final, answers) := classesRun callback next rest
    (final, answer :: answers)

theorem pointersetAllocates (callback : Keycallback) :
    Allocates id callback (pointersetAllocateStorageGeneric callback.notakey) := by
  intro size
  constructor
  · exact List.length_replicate
  · intro slot member
    exact List.eq_of_mem_replicate member

section Operations

variable {callback : Keycallback} {set : Pointerset} {classes : Pointer → Option Pointer}
variable {p : Pointer}

theorem ProbeTable.Holds.element_ne (holds : Pointerset.Holds callback set classes)
    {element : Pointer} (bound : classes p = some element) : element ≠ callback.notakey :=
  (mem_tableBag.mp ((holds.represents.binds p element).mp bound).1).2

theorem ProbeTable.Holds.writeElement (holds : Pointerset.Holds callback set classes)
    (lawful : callback.Lawful) {keep : Pointer → Pointer} (keeps : KeepsElement callback keep)
    (isElement : p ≠ callback.notakey) {mode : WriteMode} (inUse : mode ≠ .update) :
    ∃ next result, pointersetWriteGeneric callback keep set p mode = some (next, result) ∧
      ((classes p = none ∧ result = callback.notakey ∧
          Pointerset.Holds callback next (bindKey callback classes p (keep p))) ∨
        (∃ old, classes p = some old ∧ mode = .insert ∧ result = old ∧ next = set) ∨
        (∃ old, classes p = some old ∧ mode = .overwrite ∧ p = old ∧ result = callback.notakey ∧
          next = set) ∨
        ∃ old, classes p = some old ∧ mode = .overwrite ∧ p ≠ old ∧ result = old ∧
          Pointerset.Holds callback next (bindKey callback classes p (keep p))) := by
  obtain ⟨occupied, alike⟩ := keeps p isElement
  have hashed : callback.hash (keep p) = callback.hash p := (lawful.hash_eq _ _ alike).symm
  have represents := holds.represents
  obtain ⟨stored, storeNew, storedOk, -, storedBag⟩ :=
    holds.toOk.storeNew (pointersetAllocates callback) occupied hashed
  have storedHolds : (∀ entry ∈ set.bag id callback, answersKey id callback p entry ≠ true) →
      Pointerset.Holds callback stored (bindKey callback classes p (keep p)) :=
    fun absent => holds.added lawful alike absent storedOk storedBag
  rw [pointersetWriteGeneric]
  simp only [storeNew, Option.map_some]
  by_cases empty : set.count = 0
  · rw [if_pos empty]
    have absent := holds.toOk.absent_of_count empty p
    exact ⟨stored, _, rfl, Or.inl ⟨represents.eq_none absent, rfl, storedHolds absent⟩⟩
  · rw [if_neg empty, ProbeTable.findIndex]
    rcases holds.slots.find lawful (holds.toOk.size_ne_zero empty) p with
      ⟨index, old, landed, here, member, answering⟩ |
      ⟨index, vacancy, landed, here, isVacant, way, absent⟩
    · rw [landed]
      simp only [here]
      have bound := represents.eq_some member answering
      cases mode with
      | update => exact absurd rfl inUse
      | insert => exact ⟨set, old, rfl, Or.inr (Or.inl ⟨old, bound, rfl, rfl, rfl⟩)⟩
      | overwrite =>
        by_cases same : p = old
        · rw [if_pos same]
          exact ⟨set, _, rfl, Or.inr (Or.inr (Or.inl ⟨old, bound, rfl, same, rfl, rfl⟩))⟩
        · rw [if_neg same]
          obtain ⟨rest, nextOk, before, after⟩ := holds.toOk.replace here
            (mem_tableBag.mp member).2 occupied (hashed.trans (lawful.hash_eq _ _ answering))
          exact ⟨_, old, rfl, Or.inr (Or.inr (Or.inr ⟨old, bound, rfl, same, rfl,
            holds.replaced lawful alike answering nextOk before after⟩))⟩
    · rw [landed]
      have unbound := represents.eq_none absent
      by_cases full : set.isFull = true
      · simp only [full, if_true]
        exact ⟨stored, _, rfl, Or.inl ⟨unbound, rfl, storedHolds absent⟩⟩
      · simp only [full]
        have inside : index < set.size := (List.getElem?_eq_some_iff.mp here).1
        rw [if_neg Bool.false_ne_true, if_pos inside]
        obtain ⟨nextOk, contents⟩ := holds.toOk.fill here isVacant occupied full
          (by rw [id, hashed]; exact way)
        exact ⟨_, _, rfl, Or.inl ⟨unbound, rfl,
          holds.added lawful alike absent nextOk contents⟩⟩

/-- Each operation does to the set what it does to the classes of its elements. -/
theorem PointersetOp.apply_refines (lawful : callback.Lawful)
    (holds : Pointerset.Holds callback set classes) {op : PointersetOp}
    (permitted : op.Permitted callback) :
    ∃ next, op.apply callback set = some (next, (op.classes callback classes).2) ∧
      Pointerset.Holds callback next (op.classes callback classes).1 := by
  cases op with
  | insert p keep =>
    obtain ⟨next, result, applied, outcome⟩ :=
      holds.writeElement lawful permitted.2 permitted.1 (show WriteMode.insert ≠ .update by decide)
    refine ⟨next, ?_⟩
    simp only [PointersetOp.apply, pointersetInsertGeneric, applied, Option.bind_eq_bind,
      Option.bind_some, PointersetOp.classes]
    rcases outcome with ⟨bound, rfl, nextHolds⟩ | ⟨old, bound, -, rfl, rfl⟩ |
      ⟨_, -, impossible, -⟩ | ⟨_, -, impossible, -⟩
    · simp only [bound, if_true]
      exact ⟨trivial, nextHolds⟩
    · simp only [bound, if_neg (holds.element_ne bound)]
      exact ⟨trivial, holds⟩
    · contradiction
    · contradiction
  | set p keep =>
    obtain ⟨next, result, applied, outcome⟩ :=
      holds.writeElement lawful permitted.2 permitted.1
        (show WriteMode.overwrite ≠ .update by decide)
    refine ⟨next, ?_⟩
    simp only [PointersetOp.apply, pointersetSetGeneric, applied, Option.bind_eq_bind,
      Option.bind_some, PointersetOp.classes]
    rcases outcome with ⟨bound, -, nextHolds⟩ | ⟨_, -, impossible, -⟩ |
      ⟨old, bound, -, same, -, rfl⟩ | ⟨old, bound, -, different, -, nextHolds⟩
    · simp only [bound]
      exact ⟨trivial, nextHolds⟩
    · contradiction
    · simp only [bound, if_pos same]
      exact ⟨trivial, holds⟩
    · simp only [bound, if_neg different]
      exact ⟨trivial, nextHolds⟩
  | register p keep =>
    obtain ⟨next, result, applied, outcome⟩ :=
      holds.writeElement lawful permitted.2 permitted.1 (show WriteMode.insert ≠ .update by decide)
    refine ⟨next, ?_⟩
    simp only [PointersetOp.apply, pointersetRegisterGeneric, applied, Option.bind_eq_bind,
      Option.bind_some, PointersetOp.classes]
    rcases outcome with ⟨bound, rfl, nextHolds⟩ | ⟨old, bound, -, rfl, rfl⟩ |
      ⟨_, -, impossible, -⟩ | ⟨_, -, impossible, -⟩
    · simp only [bound, ne_eq, not_true, if_false]
      exact ⟨trivial, nextHolds⟩
    · simp only [bound, if_pos (holds.element_ne bound)]
      exact ⟨trivial, holds⟩
    · contradiction
    · contradiction
  | remove p =>
    obtain ⟨next, removed, applied, nextOk, emptied⟩ :=
      holds.toOk.remove lawful (show id callback.notakey = callback.notakey from rfl) p
    obtain ⟨bound, nextHolds⟩ := holds.removed lawful nextOk emptied
    refine ⟨next, ?_⟩
    simp only [PointersetOp.apply, pointersetRemoveGeneric, applied, Option.bind_eq_bind,
      Option.bind_some, PointersetOp.classes, bound]
    cases removed with
    | none => exact ⟨rfl, nextHolds⟩
    | some old => exact ⟨rfl, nextHolds⟩
  | shrinkIfNeeded =>
    rw [PointersetOp.apply, pointersetShrinkIfNeeded]
    by_cases sparse : set.isSparse = true
    · obtain ⟨next, shrunk, nextOk, -, contents⟩ :=
        holds.toOk.shrink (pointersetAllocates callback) sparse
      refine ⟨next, ?_, holds.same_bag nextOk contents⟩
      rw [if_pos sparse, pointersetShrinkGeneric, shrunk]
      rfl
    · refine ⟨set, ?_, holds⟩
      rw [if_neg sparse]
      rfl

theorem pointersetRun_follows {holds : Pointerset → (Pointer → Option Pointer) → Prop}
    (follows : ∀ (op : PointersetOp) (set : Pointerset) (classes : Pointer → Option Pointer),
      holds set classes →
      op.Permitted callback →
      ∃ next, op.apply callback set = some (next, (op.classes callback classes).2) ∧
        holds next (op.classes callback classes).1) : ∀ (ops : List PointersetOp)
    (set : Pointerset) (classes : Pointer → Option Pointer), holds set classes →
    (∀ op ∈ ops, op.Permitted callback) →
    ∃ final, pointersetRun callback set ops = some (final, (classesRun callback classes ops).2) ∧
      holds final (classesRun callback classes ops).1 := by
  intro ops
  induction ops with
  | nil => exact fun set classes start _ => ⟨set, rfl, start⟩
  | cons op rest ih =>
    intro set classes start permitted
    obtain ⟨next, applied, nextHolds⟩ :=
      follows op set classes start (permitted op List.mem_cons_self)
    obtain ⟨final, result, finalHolds⟩ := ih next _ nextHolds
      fun later member => permitted later (List.mem_cons_of_mem op member)
    refine ⟨final, ?_, finalHolds⟩
    simp only [pointersetRun, applied, result, Option.bind_eq_bind, Option.bind_some, classesRun]

theorem pointersetRun_holds (lawful : callback.Lawful) : ∀ (ops : List PointersetOp)
    (set : Pointerset) (classes : Pointer → Option Pointer), Pointerset.Holds callback set classes →
    (∀ op ∈ ops, op.Permitted callback) →
    ∃ final, pointersetRun callback set ops = some (final, (classesRun callback classes ops).2) ∧
      Pointerset.Holds callback final (classesRun callback classes ops).1 :=
  pointersetRun_follows fun _ _ _ holds permitted => PointersetOp.apply_refines lawful holds permitted

theorem ProbeTable.Holds.getElement (holds : Pointerset.Holds callback set classes)
    (lawful : callback.Lawful) (isElement : p ≠ callback.notakey) :
    pointersetGetGeneric callback set p = some ((classes p).getD callback.notakey) := by
  rw [pointersetGetGeneric]
  by_cases empty : set.count = 0
  · rw [if_pos empty, holds.eq_none_of_count empty]
    rfl
  · rw [if_neg empty]
    dsimp only
    split
    · rename_i scanned
      have found := scanned.2
      unfold pointersetPointerequalitysearchGeneric at found ⊢
      cases scan : set.storage.find? fun slot => id slot == p with
      | none =>
        rw [scan] at found
        exact absurd rfl found
      | some slot =>
        obtain ⟨same, bound⟩ := holds.find?_same lawful isElement scan
        rw [bound, Option.getD_some, ← same]
        rfl
    · rw [pointersetGetHashed, holds.lookup lawful empty]
      cases classes p with
      | none => rfl
      | some old => rfl

theorem ProbeTable.Holds.memberElement (holds : Pointerset.Holds callback set classes)
    (lawful : callback.Lawful) (isElement : p ≠ callback.notakey) :
    pointersetMemberGeneric callback set p = some (if (classes p).isSome then 1 else 0) := by
  rw [pointersetMemberGeneric, holds.getElement lawful isElement]
  cases bound : classes p with
  | none => simp
  | some old => simp [holds.element_ne bound]

theorem pointersetInit_fresh {capacity : UInt64}
    (bound : capacity.toNat + capacity.toNat / 4 ≤ 2 ^ 63)
    (sentinel : capacity = 0 ∨ callback.notakey = notAPointer) :
    ProbeTable.Fresh id callback (pointersetInit capacity) := by
  unfold pointersetInit
  split
  · exact ProbeTable.fresh_empty
  · rename_i positive
    have same := sentinel.resolve_left positive
    rw [← same]
    exact (pointersetAllocates callback).fresh bound

/-- From an initialised set every run ends and answers as the classes do. -/
theorem pointersetRun_refines (lawful : callback.Lawful) {capacity : UInt64}
    (bound : capacity.toNat + capacity.toNat / 4 ≤ 2 ^ 63)
    (sentinel : capacity = 0 ∨ callback.notakey = notAPointer) (ops : List PointersetOp)
    (permitted : ∀ op ∈ ops, op.Permitted callback) :
    ∃ final classes answers,
      pointersetRun callback (pointersetInit capacity) ops = some (final, answers) ∧
      classesRun callback (fun _ => none) ops = (classes, answers) ∧
      (∀ p, p ≠ callback.notakey →
        pointersetGetGeneric callback final p = some ((classes p).getD callback.notakey) ∧
        pointersetMemberGeneric callback final p = some (if (classes p).isSome then 1 else 0)) ∧
      (∃ elements : List Pointer, elements.length = final.count ∧
        (elements.Pairwise fun p other => callback.isEqual p other = false) ∧
        ∀ p element, classes p = some element ↔
          element ∈ elements ∧ callback.isEqual p element = true) ∧
      (final.size = 0 ∨
        (∃ power, final.size = 2 ^ (power + 2)) ∧ final.count < final.size ∧
          ∃ slot ∈ final.storage, slot = callback.notakey) := by
  obtain ⟨final, result, holds⟩ := pointersetRun_holds lawful ops (pointersetInit capacity)
    (fun _ => none) (pointersetInit_fresh bound sentinel).holds permitted
  refine ⟨final, _, _, result, rfl, ?_, holds.entries lawful, holds.toOk.sized⟩
  exact fun p isElement =>
    ⟨holds.getElement lawful isElement, holds.memberElement lawful isElement⟩

theorem pointersetRun_refines_crowded :
    ∃ final answers,
      pointersetRun crowdedKeycallback (pointersetInit 3)
        [.insert 1 id, .set 2 id, .insert 1 id, .remove 1] = some (final, answers) ∧
      pointersetMemberGeneric crowdedKeycallback final 2 = some 1 := by
  obtain ⟨final, classes, answers, result, spec, lookups, -⟩ :=
    @pointersetRun_refines crowdedKeycallback crowdedKeycallback_lawful 3 (by decide) (Or.inr rfl)
      [.insert 1 id, .set 2 id, .insert 1 id, .remove 1]
      (by
        intro op member
        rcases List.mem_cons.mp member with rfl | member
        · exact ⟨by decide, keepsElement_id crowdedKeycallback_lawful⟩
        rcases List.mem_cons.mp member with rfl | member
        · exact ⟨by decide, keepsElement_id crowdedKeycallback_lawful⟩
        rcases List.mem_cons.mp member with rfl | member
        · exact ⟨by decide, keepsElement_id crowdedKeycallback_lawful⟩
        rw [List.mem_singleton.mp member]
        exact (by decide : (1 : Pointer) ≠ notAPointer))
  cases spec
  exact ⟨final, _, result, (lookups 2 (by decide)).2⟩

def nullKeycallback : Keycallback where
  hash := pointerHash
  isEqual := fun key other => key == other
  notakey := 0

theorem nullKeycallback_lawful : nullKeycallback.Lawful :=
  lawful_of_beq fun _ _ => rfl

/-- With another sentinel the first insert into preallocated storage never ends, and
the sentinel itself is counted but not found. A capacity that wraps leaves two slots, which
two elements fill, so that the search for a third one never ends. -/
theorem pointersetInsert_sentinel :
    nullKeycallback.Lawful ∧ crowdedKeycallback.Lawful ∧
    pointersetInsertGeneric nullKeycallback id (pointersetInit 1) 16 = none ∧
    (pointersetInsertGeneric crowdedKeycallback id (pointersetInit 0) notAPointer).bind
        (fun inserted => (pointersetMemberGeneric crowdedKeycallback inserted.1 notAPointer).map
          fun found => (inserted.2, inserted.1.count, found)) =
      some (1, 1, 0) ∧
    ∃ full, pointersetRun crowdedKeycallback (pointersetInit 0xCCCCCCCCCCCCCCCF)
        [.insert 1 id, .insert 2 id] = some (full, [.flag 1, .flag 1]) ∧
      pointersetMemberGeneric crowdedKeycallback full 3 = none := by
  refine ⟨nullKeycallback_lawful, crowdedKeycallback_lawful, ?_, ?_, ?_⟩
  · rfl
  · rfl
  · exact ⟨⟨[1, 2], 2⟩, rfl, rfl⟩

end Operations

end MulleCore
