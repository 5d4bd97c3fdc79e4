import MulleCore.Container.Pointerset

/-!
`_mulle__pointerset_write_generic` in all its modes. In update mode the switch has no case for an
element that is there, and the write goes on as if it were not.
-/

namespace MulleCore

open Library

structure WriteStored (callback : Keycallback) (keep : Pointer → Pointer) (set : Pointerset)
    (p old : Pointer) (mode : WriteMode) (next : Pointerset) (result : Pointer) : Prop where
  counted : next.count = set.count
  classes : ∀ key, (∃ element ∈ next.bag id callback, callback.isEqual key element = true) ↔
    ∃ element ∈ set.bag id callback, callback.isEqual key element = true
  slot : ∃ index, set.storage[index]? = some old ∧
    next.storage = set.storage.set index (if mode = .insert then old else keep p)
  returned : result = old

structure WriteAdded (callback : Keycallback) (keep : Pointer → Pointer) (set : Pointerset)
    (p : Pointer) (next : Pointerset) (result : Pointer) : Prop where
  counted : next.count = set.count + 1
  added : next.bag id callback = set.bag id callback + {keep p}
  returned : result = callback.notakey

structure WriteOutcome (callback : Keycallback) (keep : Pointer → Pointer) (set : Pointerset)
    (p : Pointer) (mode : WriteMode) (next : Pointerset) (result : Pointer) : Prop where
  stored : ∀ old ∈ set.bag id callback, callback.isEqual p old = true →
    WriteStored callback keep set p old mode next result
  absent : (∀ element ∈ set.bag id callback, callback.isEqual p element = false) →
    WriteAdded callback keep set p next result

def WriteRight (callback : Keycallback) (keep : Pointer → Pointer) (set : Pointerset) (p : Pointer)
    (mode : WriteMode) : Prop :=
  ∃ next result, pointersetWriteGeneric callback keep set p mode = some (next, result) ∧
    WriteOutcome callback keep set p mode next result

/-- The element is new, or the switch has a case for the mode that gets to its end. -/
def WriteServed (callback : Keycallback) (set : Pointerset) (p : Pointer) (mode : WriteMode) : Prop :=
  ∀ old ∈ set.bag id callback, callback.isEqual p old = true → mode ≠ .update ∧
    (mode = .overwrite → p ≠ old)

section Write

variable {callback : Keycallback} {keep : Pointer → Pointer} {set : Pointerset}
  {classes : Pointer → Option Pointer} {p : Pointer} {mode : WriteMode}

theorem ProbeTable.storeNew_count {allocate : Nat → List Pointer} {hash : UInt64} {new : Pointer}
    {next : Pointerset} (stored : set.storeNew id callback allocate hash new = some next) :
    next.count = set.count + 1 := by
  have roomCount : ∀ wide, set.makeRoom id callback allocate = some wide →
      wide.count = set.count := by
    intro wide widened
    rw [ProbeTable.makeRoom] at widened
    split at widened
    · obtain ⟨storage, _, rfl⟩ := Option.map_eq_some_iff.mp widened
      rfl
    · rw [Option.some.inj widened]
  rw [ProbeTable.storeNew] at stored
  obtain ⟨wide, widened, rest⟩ := Option.bind_eq_some_iff.mp stored
  obtain ⟨storage, _, result⟩ := Option.bind_eq_some_iff.mp rest
  rw [← Option.some.inj result, ← roomCount wide widened]

theorem ProbeTable.Holds.writeAbsent (holds : Pointerset.Holds callback set classes)
    (lawful : callback.Lawful) (keeps : KeepsElement callback keep) (isElement : p ≠ callback.notakey)
    (absent : ∀ element ∈ set.bag id callback, callback.isEqual p element = false) :
    ∃ next, pointersetWriteGeneric callback keep set p mode = some (next, callback.notakey) ∧
      WriteAdded callback keep set p next callback.notakey := by
  obtain ⟨occupied, alike⟩ := keeps p isElement
  have hashed : callback.hash (keep p) = callback.hash p := (lawful.hash_eq _ _ alike).symm
  obtain ⟨stored, storeNew, _, storedCount, storedBag⟩ :=
    holds.toOk.storeNew (pointersetAllocates callback) occupied hashed
  rw [pointersetWriteGeneric]
  simp only [storeNew, Option.map_some]
  by_cases empty : set.count = 0
  · rw [if_pos empty]
    exact ⟨stored, rfl, storedCount, storedBag, rfl⟩
  · rw [if_neg empty, ProbeTable.findIndex]
    rcases holds.slots.find lawful (holds.toOk.size_ne_zero empty) p with
      ⟨index, old, _, _, member, answering⟩ | ⟨index, vacancy, landed, here, isVacant, way, _⟩
    · exact absurd answering (by simp [answersKey, absent old member])
    · rw [landed]
      by_cases full : set.isFull = true
      · simp only [full, if_true]
        exact ⟨stored, rfl, storedCount, storedBag, rfl⟩
      · have inside : index < set.size := (List.getElem?_eq_some_iff.mp here).1
        obtain ⟨_, contents⟩ := holds.toOk.fill here isVacant occupied full
          (by rw [id, hashed]; exact way)
        simp only [full]
        rw [if_neg Bool.false_ne_true, if_pos inside]
        exact ⟨_, rfl, rfl, contents, rfl⟩

theorem ProbeTable.Holds.writeStored (holds : Pointerset.Holds callback set classes)
    (lawful : callback.Lawful) (keeps : KeepsElement callback keep)
    (isElement : p ≠ callback.notakey) {old : Pointer} (member : old ∈ set.bag id callback)
    (equal : callback.isEqual p old = true) :
    (∃ next result, pointersetWriteGeneric callback keep set p mode = some (next, result) ∧
        WriteStored callback keep set p old mode next result) ↔
      mode ≠ .update ∧ (mode = .overwrite → p ≠ old) := by
  obtain ⟨occupied, alike⟩ := keeps p isElement
  have hashed : callback.hash (keep p) = callback.hash p := (lawful.hash_eq _ _ alike).symm
  have isOld : old ≠ callback.notakey := (mem_tableBag.mp member).2
  have nonempty : ¬ set.count = 0 := by
    intro empty
    exact absurd equal (holds.toOk.absent_of_count empty p old member)
  have landing : ∃ index, set.findIndex id callback p = some (.found index) ∧
      set.storage[index]? = some old := by
    rw [ProbeTable.findIndex]
    rcases holds.slots.find lawful (holds.toOk.size_ne_zero nonempty) p with
      ⟨index, other, landed, here, otherMember, answering⟩ | ⟨_, _, _, _, _, _, absent⟩
    · rw [← holds.represents.unique otherMember answering member equal]
      exact ⟨index, landed, here⟩
    · exact absurd equal (absent old member)
  obtain ⟨index, landed, here⟩ := landing
  rw [pointersetWriteGeneric]
  simp only [if_neg nonempty, landed, here]
  cases mode with
  | insert =>
    refine iff_of_true ⟨set, old, rfl, rfl, fun _ => Iff.rfl, ⟨index, here, ?_⟩, rfl⟩
      ⟨by decide, by simp⟩
    obtain ⟨bound, same⟩ := List.getElem?_eq_some_iff.mp here
    rw [if_pos rfl, ← same, List.set_getElem_self]
  | overwrite =>
    by_cases same : p = old
    · refine iff_of_false ?_ (fun served => served.2 rfl same)
      simp only [if_pos same, Option.some.injEq, Prod.mk.injEq]
      rintro ⟨next, result, ⟨_, rfl⟩, stored⟩
      exact isOld stored.returned.symm
    · refine iff_of_true ?_ ⟨by decide, fun _ => same⟩
      obtain ⟨rest, _, before, after⟩ := holds.toOk.replace here isOld occupied
        (hashed.trans (lawful.hash_eq _ _ equal))
      have keptEqual : ∀ key, callback.isEqual key (keep p) = callback.isEqual key old := fun key =>
        isEqual_congr lawful.toEquates (lawful.trans _ _ _ (lawful.symm _ _ alike) equal) key
      rw [if_neg same]
      refine ⟨_, old, rfl, rfl, fun key => ?_, ⟨index, here, by simp⟩, rfl⟩
      rw [after, ← before]
      simp only [Multiset.mem_add, Multiset.mem_singleton, or_and_right, exists_or, exists_eq_left,
        keptEqual]
  | update =>
    refine iff_of_false ?_ (fun served => served.1 rfl)
    rintro ⟨next, result, wrote, stored⟩
    have counted := stored.counted
    dsimp only at wrote
    split at wrote
    · obtain ⟨wide, storeNew, result⟩ := Option.map_eq_some_iff.mp wrote
      rw [← (Prod.mk.inj result).1, ProbeTable.storeNew_count storeNew] at counted
      omega
    · split at wrote
      · rw [← (Prod.mk.inj (Option.some.inj wrote)).1] at counted
        dsimp only at counted
        omega
      · contradiction

theorem ProbeTable.Holds.writeRight_iff (holds : Pointerset.Holds callback set classes)
    (lawful : callback.Lawful) (keeps : KeepsElement callback keep)
    (isElement : p ≠ callback.notakey) :
    WriteRight callback keep set p mode ↔ WriteServed callback set p mode := by
  by_cases present : ∃ old ∈ set.bag id callback, callback.isEqual p old = true
  · obtain ⟨old, member, equal⟩ := present
    have only : ∀ other ∈ set.bag id callback, callback.isEqual p other = true → other = old :=
      fun other otherMember otherEqual => holds.represents.unique otherMember otherEqual member equal
    have stored := @ProbeTable.Holds.writeStored callback keep set classes p mode holds lawful keeps
      isElement old member equal
    constructor
    · rintro ⟨next, result, wrote, outcome⟩ other otherMember otherEqual
      rw [only other otherMember otherEqual]
      exact stored.mp ⟨next, result, wrote, outcome.stored old member equal⟩
    · intro served
      obtain ⟨next, result, wrote, outcome⟩ := stored.mpr (served old member equal)
      refine ⟨next, result, wrote, ?_, fun absent => absurd equal (by simp [absent old member])⟩
      intro other otherMember otherEqual
      rw [only other otherMember otherEqual]
      exact outcome
  · have absent : ∀ element ∈ set.bag id callback, callback.isEqual p element = false := by
      intro element member
      by_contra equal
      exact present ⟨element, member, Bool.eq_true_of_not_eq_false equal⟩
    refine iff_of_true ?_ fun old member equal => absurd equal (by simp [absent old member])
    obtain ⟨next, wrote, outcome⟩ := holds.writeAbsent lawful keeps isElement absent
    exact ⟨next, _, wrote, fun old member equal => absurd equal (by simp [absent old member]),
      fun _ => outcome⟩

/-- In every state that a set comes to, a write does what its mode says exactly where it is served.
-/
theorem pointersetRun_writeRight_iff (lawful : callback.Lawful) {capacity : UInt64}
    (bound : capacity.toNat + capacity.toNat / 4 ≤ 2 ^ 63)
    (sentinel : capacity = 0 ∨ callback.notakey = notAPointer) (ops : List PointersetOp)
    (permitted : ∀ op ∈ ops, op.Permitted callback) :
    ∃ final answers, pointersetRun callback (pointersetInit capacity) ops = some (final, answers) ∧
      ∀ (p : Pointer) (keep : Pointer → Pointer) (mode : WriteMode), p ≠ callback.notakey →
        KeepsElement callback keep →
        (WriteRight callback keep final p mode ↔ WriteServed callback final p mode) := by
  obtain ⟨final, result, holds⟩ := pointersetRun_holds lawful ops (pointersetInit capacity)
    (fun _ => none) (pointersetInit_fresh bound sentinel).holds permitted
  refine ⟨final, _, result, ?_⟩
  intro p keep mode isElement keeps
  exact holds.writeRight_iff lawful keeps isElement

theorem pointersetRun_writeRight_iff_crowded :
    ∃ final answers, pointersetRun crowdedKeycallback (pointersetInit 0) [.insert 1 id] =
      some (final, answers) ∧
      (WriteRight crowdedKeycallback id final 2 .update ↔ WriteServed crowdedKeycallback final 2
        .update) := by
  obtain ⟨final, answers, result, right⟩ :=
    @pointersetRun_writeRight_iff crowdedKeycallback crowdedKeycallback_lawful 0 (by decide)
      (Or.inl rfl) [.insert 1 id] (by
        intro op member
        rw [List.mem_singleton.mp member]
        exact ⟨by decide, keepsElement_id crowdedKeycallback_lawful⟩)
  exact ⟨final, answers, result, right 2 id .update (by decide)
    (keepsElement_id crowdedKeycallback_lawful)⟩

/-- An update of the only element writes far behind the storage. -/
theorem pointersetWrite_update_wrong :
    crowdedKeycallback.Lawful ∧
      ¬ ∀ (ops : List PointersetOp) (final : Pointerset) (answers : List PointersetAnswer)
        (p : Pointer) (mode : WriteMode),
        pointersetRun crowdedKeycallback (pointersetInit 0) ops = some (final, answers) →
        p ≠ notAPointer →
          WriteRight crowdedKeycallback id final p mode := by
  refine ⟨crowdedKeycallback_lawful, fun right => ?_⟩
  obtain ⟨next, result, wrote, _⟩ :=
    right [.insert 1 id] ⟨[notAPointer, notAPointer, 1, notAPointer], 1⟩ [.flag 1] 1 .update
    rfl (by decide)
  have far : pointersetWriteGeneric crowdedKeycallback id ⟨[notAPointer, notAPointer, 1,
    notAPointer], 1⟩ 1 .update = none := rfl
  rw [far] at wrote
  contradiction

end Write

end MulleCore
