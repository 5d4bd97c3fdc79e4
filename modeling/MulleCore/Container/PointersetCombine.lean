import MulleCore.Container.PointersetUnion

/-!
When union and intersection are right. A union of two elements is made in a storage of two slots,
which is too small for anything to be added to it.
-/

namespace MulleCore

open Library

section TwoSlots

variable {callback : Keycallback} {keep : Pointer → Pointer} {p z other : Pointer}
variable {set : Pointerset} {classes : Pointer → Option Pointer}

theorem hashForSize_two (hash : UInt64) : hashForSize hash 2 = 0 := Nat.and_zero _

def twoSlots (callback : Keycallback) : Option Pointer → Pointerset
  | none => ⟨[callback.notakey, callback.notakey], 0⟩
  | some z => ⟨[z, callback.notakey], 1⟩

theorem write_vacantSlots (mode : WriteMode) :
    pointersetWriteGeneric callback keep (twoSlots callback none) p mode =
      some (twoSlots callback (some (keep p)), callback.notakey) := by
  simp [pointersetWriteGeneric, twoSlots, ProbeTable.storeNew, ProbeTable.makeRoom,
    ProbeTable.isFull, isFullSize, ProbeTable.size, tableStore, probeFrom, visitToStore,
    hashForSize_two]

theorem findIndex_oneSlot (occupied : z ≠ callback.notakey) :
    (twoSlots callback (some z)).findIndex id callback p =
      some (if callback.isEqual p z = true then .found 0 else .hole 1) := by
  by_cases equal : callback.isEqual p z = true
  · simp [twoSlots, ProbeTable.findIndex, tableFindIndex, tableProbe, probeFrom, visitToFind,
      hashForSize_two, occupied, equal]
  · simp [twoSlots, ProbeTable.findIndex, tableFindIndex, tableProbe, probeFrom, visitToFind,
      hashForSize_two, occupied, equal, maskStep]

theorem write_oneSlot_equal (occupied : z ≠ callback.notakey) (equal : callback.isEqual p z = true) :
    pointersetWriteGeneric callback keep (twoSlots callback (some z)) p .insert =
      some (twoSlots callback (some z), z) ∧
      pointersetWriteGeneric callback keep (twoSlots callback (some z)) p .overwrite =
        if p = z then some (twoSlots callback (some z), callback.notakey)
        else some (twoSlots callback (some (keep p)), z) := by
  have found := @findIndex_oneSlot callback p z occupied
  rw [if_pos equal] at found
  constructor
  · rw [pointersetWriteGeneric]
    simp only [found]
    rfl
  · rw [pointersetWriteGeneric]
    simp only [found]
    rfl

theorem write_oneSlot_unequal (occupied : z ≠ callback.notakey)
    (unequal : callback.isEqual p z = false) (mode : WriteMode) :
    pointersetWriteGeneric callback keep (twoSlots callback (some z)) p mode =
      some (⟨[z, keep p], 2⟩, callback.notakey) := by
  have hole := @findIndex_oneSlot callback p z occupied
  rw [if_neg (by simp [unequal])] at hole
  rw [pointersetWriteGeneric]
  simp only [hole]
  simp [twoSlots, ProbeTable.isFull, isFullSize, ProbeTable.size]

theorem remove_fullSlots (equates : callback.Equates) (occupied : z ≠ callback.notakey)
    (full : other ≠ callback.notakey) :
    pointersetRemoveGeneric callback ⟨[z, other], 2⟩ z = none := by
  have found : ProbeTable.findIndex id callback ⟨[z, other], 2⟩ z = some (.found 0) := by
    simp [ProbeTable.findIndex, tableFindIndex, tableProbe, probeFrom, visitToFind, hashForSize_two,
      occupied, equates.refl]
  have endless : tableRemoveAt id callback callback.notakey [z, other] 0 = none := by
    simp [tableRemoveAt, shiftBack, tableVacant, tableHome, hashForSize_two, maskStep, staysPut, full]
  rw [pointersetRemoveGeneric, ProbeTable.remove]
  simp [found, endless]

theorem pointersetRun_twoSlots_endless (lawful : callback.Lawful) (occupied : z ≠ callback.notakey)
    (isElement : other ≠ callback.notakey) (unequal : callback.isEqual other z = false) :
    pointersetRun callback (twoSlots callback (some z)) [.insert other id, .remove z] = none := by
  have inserted := @write_oneSlot_unequal callback id other z occupied unequal .insert
  have endless := remove_fullSlots lawful.toEquates occupied isElement
  simp only [pointersetRun, PointersetOp.apply, pointersetInsertGeneric, inserted, id, endless,
    Option.bind_eq_bind, Option.bind_some, Option.bind_none]

def SingleClass (callback : Keycallback) (set : Pointerset) (classes : Pointer → Option Pointer) :
    Prop :=
  ∃ element : Option Pointer, set = twoSlots callback element ∧
    (∀ z ∈ element, z ≠ callback.notakey) ∧
    ∀ p, p ≠ callback.notakey → classes p = element

theorem remove_vacantSlots : (twoSlots callback none).remove id callback callback.notakey p =
    some (twoSlots callback none, none) :=
  rfl

theorem remove_oneSlot (occupied : z ≠ callback.notakey) (equal : callback.isEqual p z = true) :
    (twoSlots callback (some z)).remove id callback callback.notakey p = some
    (twoSlots callback none, some z) := by
  have found := @findIndex_oneSlot callback p z occupied
  rw [if_pos equal, twoSlots] at found
  have removed : tableRemoveAt id callback callback.notakey [z, callback.notakey] 0 =
      some [callback.notakey, callback.notakey] := by
    simp [tableRemoveAt, shiftBack, tableVacant, maskStep]
  simp [ProbeTable.remove, twoSlots, found, removed]

theorem get_twoSlots {element : Option Pointer} (occupied : ∀ z ∈ element, z ≠ callback.notakey)
    (isElement : p ≠ callback.notakey) (equal : ∀ z ∈ element, callback.isEqual z p = true) :
    pointersetGetGeneric callback (twoSlots callback element) p =
      some (element.getD callback.notakey) := by
  cases element with
  | none => rfl
  | some z =>
    have taken := occupied z rfl
    have same := equal z rfl
    by_cases identical : z = p
    · subst identical
      simp [pointersetGetGeneric, twoSlots, pointersetPointerequalitysearchGeneric, ProbeTable.size,
        taken]
    · have apart : ¬ callback.notakey = p := fun vacant => isElement vacant.symm
      have other : ¬ p = z := fun back => identical back.symm
      simp [pointersetGetGeneric, twoSlots, pointersetPointerequalitysearchGeneric, ProbeTable.size,
        pointersetGetHashed, ProbeTable.lookup, tableProbe, probeFrom, visitToGet, hashForSize_two,
        identical, apart, taken, same, other]

theorem shrink_twoSlots (element : Option Pointer) :
    pointersetShrinkIfNeeded callback (twoSlots callback element) =
      some (twoSlots callback element) := by
  cases element with
  | none =>
    simp [pointersetShrinkIfNeeded, twoSlots, ProbeTable.isSparse, isSparseSize, ProbeTable.size,
      pointersetShrinkGeneric, ProbeTable.shrink, tableShrink, halveWhileSparse]
  | some z =>
    simp [pointersetShrinkIfNeeded, twoSlots, ProbeTable.isSparse, isSparseSize, ProbeTable.size]

theorem SingleClass.apply
    (all : ∀ p q, p ≠ callback.notakey → q ≠ callback.notakey → callback.isEqual p q = true)
    (op : PointersetOp) (holds : SingleClass callback set classes)
    (permitted : op.Permitted callback) :
    ∃ next, op.apply callback set = some (next, (op.classes callback classes).2) ∧
      SingleClass callback next (op.classes callback classes).1 := by
  obtain ⟨element, rfl, occupied, single⟩ := holds
  have bound : ∀ p new q, p ≠ callback.notakey → q ≠ callback.notakey →
      bindKey callback classes p new q = some new := by
    intro p new q isElement other
    rw [bindKey, all q p other isElement, if_pos rfl]
  cases op with
  | insert p keep =>
    obtain ⟨isElement, keeps⟩ := permitted
    cases element with
    | none =>
      refine ⟨twoSlots callback (some (keep p)), ?_, some (keep p), rfl, ?_, ?_⟩
      · simp [PointersetOp.apply, PointersetOp.classes, pointersetInsertGeneric, write_vacantSlots,
          single p isElement]
      · rintro z ⟨⟩
        exact (keeps p isElement).1
      · intro q other
        simp only [PointersetOp.classes, single p isElement]
        exact bound p _ q isElement other
    | some z =>
      have taken := occupied z rfl
      obtain ⟨wrote, _⟩ := @write_oneSlot_equal callback keep p z taken (all p z isElement taken)
      refine ⟨twoSlots callback (some z), ?_, some z, rfl, occupied, ?_⟩
      · simp [PointersetOp.apply, PointersetOp.classes, pointersetInsertGeneric, wrote,
          single p isElement, taken]
      · simp only [PointersetOp.classes, single p isElement]
        exact single
  | set p keep =>
    obtain ⟨isElement, keeps⟩ := permitted
    have kept : ∀ z ∈ some (keep p), z ≠ callback.notakey := by
      rintro z ⟨⟩
      exact (keeps p isElement).1
    cases element with
    | none =>
      refine ⟨twoSlots callback (some (keep p)), ?_, some (keep p), rfl, kept, ?_⟩
      · simp [PointersetOp.apply, PointersetOp.classes, pointersetSetGeneric, write_vacantSlots,
          single p isElement]
      · intro q other
        simp only [PointersetOp.classes, single p isElement]
        exact bound p _ q isElement other
    | some z =>
      have taken := occupied z rfl
      obtain ⟨_, wrote⟩ := @write_oneSlot_equal callback keep p z taken (all p z isElement taken)
      by_cases same : p = z
      · refine ⟨twoSlots callback (some z), ?_, some z, rfl, occupied, ?_⟩
        · rw [if_pos same] at wrote
          simp [PointersetOp.apply, PointersetOp.classes, pointersetSetGeneric, wrote,
            single p isElement]
        · simp only [PointersetOp.classes, single p isElement, if_pos same]
          exact single
      · refine ⟨twoSlots callback (some (keep p)), ?_, some (keep p), rfl, kept, ?_⟩
        · rw [if_neg same] at wrote
          simp [PointersetOp.apply, PointersetOp.classes, pointersetSetGeneric, wrote,
            single p isElement]
        · intro q other
          simp only [PointersetOp.classes, single p isElement, if_neg same]
          exact bound p _ q isElement other
  | register p keep =>
    obtain ⟨isElement, keeps⟩ := permitted
    cases element with
    | none =>
      refine ⟨twoSlots callback (some (keep p)), ?_, some (keep p), rfl, ?_, ?_⟩
      · simp [PointersetOp.apply, PointersetOp.classes, pointersetRegisterGeneric,
          write_vacantSlots, single p isElement]
      · rintro z ⟨⟩
        exact (keeps p isElement).1
      · intro q other
        simp only [PointersetOp.classes, single p isElement]
        exact bound p _ q isElement other
    | some z =>
      have taken := occupied z rfl
      obtain ⟨wrote, _⟩ := @write_oneSlot_equal callback keep p z taken (all p z isElement taken)
      refine ⟨twoSlots callback (some z), ?_, some z, rfl, occupied, ?_⟩
      · simp [PointersetOp.apply, PointersetOp.classes, pointersetRegisterGeneric, wrote,
          single p isElement, taken]
      · simp only [PointersetOp.classes, single p isElement]
        exact single
  | remove p =>
    refine ⟨twoSlots callback none, ?_, none, rfl, by simp, ?_⟩
    · cases element with
      | none =>
        simp [PointersetOp.apply, PointersetOp.classes, pointersetRemoveGeneric, remove_vacantSlots,
          single p permitted]
      | some z =>
        have taken := occupied z rfl
        simp [PointersetOp.apply, PointersetOp.classes, pointersetRemoveGeneric, single p permitted,
          remove_oneSlot taken (all p z permitted taken)]
    · intro q other
      cases element with
      | none =>
        simp only [PointersetOp.classes, single p permitted]
        exact single q other
      | some z => simp [PointersetOp.classes, single p permitted, unbindKey, all q p other permitted]
  | shrinkIfNeeded =>
    refine ⟨twoSlots callback element, ?_, element, rfl, occupied, single⟩
    simp [PointersetOp.apply, PointersetOp.classes, shrink_twoSlots]

theorem SingleClass.serves
    (all : ∀ p q, p ≠ callback.notakey → q ≠ callback.notakey → callback.isEqual p q = true)
    (holds : SingleClass callback set classes) : Serves callback set classes where
  sized := by
    obtain ⟨element, rfl, _⟩ := holds
    refine Or.inr ⟨⟨0, ?_⟩, callback.notakey, ?_, rfl⟩
    · cases element <;> rfl
    · cases element <;> simp [twoSlots]
  answers := by
    intro ops permitted
    obtain ⟨final, result, element, rfl, occupied, single⟩ := pointersetRun_follows
      (fun op _ _ holds permitted => SingleClass.apply all op holds permitted) ops set classes
        holds permitted
    refine ⟨_, result, fun p isElement => ?_⟩
    rw [single p isElement]
    exact get_twoSlots occupied isElement fun z there => all z p (occupied z there) isElement

end TwoSlots

/-- The union of NULLs, or of three elements or more; with two elements only if there is nothing
else that could be added. -/
def UnionFits (callback : Keycallback) (sets : Nat → Pointerset) (a b : Option Nat) : Prop :=
  (a = none ∧ b = none) ∨ 3 ≤ pointersetCountOf (a.map sets) + pointersetCountOf (b.map sets) ∨
    (pointersetCountOf (a.map sets) + pointersetCountOf (b.map sets) = 2 ∧
      ∀ p q, p ≠ callback.notakey → q ≠ callback.notakey → callback.isEqual p q = true)

/-- Neither is NULL only if `a` was ever allocated. -/
def IntersectFits (sets : Nat → Pointerset) (a b : Option Nat) : Prop :=
  ∀ i j, a = some i → b = some j → (sets i).size ≠ 0

section Combine

variable {callback : Keycallback} {keep : Pointer → Pointer} {sets : Nat → Pointerset}
  {classes : Nat → Pointer → Option Pointer} {a b : Option Nat} {dst : Nat}
variable {p : Pointer} {items : List Pointer} {wanted : Pointer → Prop} {tmp set : Pointerset}
  {i j : Nat}

theorem copyItemsIfAny_items (holds : ∀ i, Pointerset.Holds callback (sets i) (classes i))
    (set : Option Nat) :
    ∃ items : List Pointer, items.length = pointersetCountOf (set.map sets) ∧
      (∀ item, item ∈ items ↔ ∃ i, set = some i ∧ item ∈ (sets i).bag id callback) ∧
      ∀ tmp, pointersetCopyItemsIfAny callback keep tmp (set.map sets) =
        items.foldlM (pointersetSetGeneric callback keep) tmp := by
  cases set with
  | none => exact ⟨[], rfl, by simp, fun tmp => rfl⟩
  | some i =>
    obtain ⟨items, enumerated, length, contents⟩ := (holds i).toOk.enumerate
    refine ⟨items, length, fun item => by simp [contents], fun tmp => ?_⟩
    simp only [Option.map_some, pointersetCopyItemsIfAny, pointersetCopyItems, enumerated,
      Option.bind_eq_bind, Option.bind_some]

theorem pointersetUnionTmp_items (holds : ∀ i, Pointerset.Holds callback (sets i) (classes i))
    (some_ : ¬ (a = none ∧ b = none)) :
    ∃ items : List Pointer, items.length = pointersetCountOf (a.map sets) +
      pointersetCountOf (b.map sets) ∧
      (∀ item, item ∈ items ↔ IsStored callback sets a b item) ∧
      pointersetUnionTmp callback keep (a.map sets) (b.map sets) =
        (pointersetAllocateAsserted callback.notakey (pow2roundup items.length)).bind fun storage =>
          items.foldlM (pointersetSetGeneric callback keep) ⟨storage, 0⟩ := by
  obtain ⟨first, firstLength, firstContents, firstCopied⟩ :=
    @copyItemsIfAny_items callback keep sets classes holds a
  obtain ⟨second, secondLength, secondContents, secondCopied⟩ :=
    @copyItemsIfAny_items callback keep sets classes holds b
  have length : (first ++ second).length = pointersetCountOf (a.map sets) +
      pointersetCountOf (b.map sets) := by
    rw [List.length_append, firstLength, secondLength]
  refine ⟨first ++ second, length, fun item => ?_, ?_⟩
  · rw [List.mem_append, firstContents, secondContents, IsStored, ← exists_or]
    simp only [or_and_right]
  · have either : (a.map sets).isSome ∨ (b.map sets).isSome := by
      by_contra neither
      simp only [not_or, Bool.not_eq_true, Option.isSome_eq_false_iff, Option.isNone_iff_eq_none,
        Option.map_eq_none_iff] at neither
      exact some_ neither
    have positive : pow2roundup (pointersetCountOf (a.map sets) + pointersetCountOf (b.map sets)) ≠
      0 :=
      Nat.ne_of_gt (pow2roundup_pos _)
    rw [pointersetUnionTmp, if_pos either, length]
    dsimp only
    rw [if_pos positive]
    simp only [firstCopied, secondCopied, List.foldlM_append, Option.bind_eq_bind]

theorem isStored_ne (element : Pointer) (stored : IsStored callback sets a b element) :
    element ≠ callback.notakey := by
  obtain ⟨i, _, member⟩ := stored
  exact (mem_tableBag.mp member).2

theorem hasElement_or (contents : ∀ item, item ∈ items ↔ IsStored callback sets a b item) :
    HasElement callback sets a p ∨ HasElement callback sets b p ↔
    ∃ item ∈ items, callback.isEqual p item = true := by
  simp only [contents, IsStored, HasElement]
  constructor
  · rintro (⟨i, there, item, member, equal⟩ | ⟨i, there, item, member, equal⟩)
    · exact ⟨item, ⟨i, Or.inl there, member⟩, equal⟩
    · exact ⟨item, ⟨i, Or.inr there, member⟩, equal⟩
  · rintro ⟨item, ⟨i, there | there, member⟩, equal⟩
    · exact Or.inl ⟨i, there, item, member, equal⟩
    · exact Or.inr ⟨i, there, item, member, equal⟩

theorem Combines.of_tmp (after : Pointer → Option Pointer)
    (bound : ∀ p, p ≠ callback.notakey → ((after p).isSome ↔ wanted p))
    (origin : ∀ p element, after p = some element → ∃ item, IsStored callback sets a b item ∧
      element = keep item)
    (serves : Serves callback tmp after) :
    Combines callback keep sets dst a b wanted ((some tmp).map fun tmp => Function.update sets
      dst tmp) := by
  refine ⟨Function.update sets dst tmp, after, rfl, fun i other => Function.update_of_ne other _ _,
    bound, origin, ?_⟩
  rw [Function.update_self]
  exact serves

theorem Combines.serves
    (combines : Combines callback keep sets dst a b wanted
      ((some tmp).map fun tmp => Function.update sets dst tmp)) :
    ∃ after, Serves callback tmp after := by
  obtain ⟨result, after, same, _, _, _, serves⟩ := combines
  rw [← Option.some.inj same] at serves
  dsimp only at serves
  rw [Function.update_self] at serves
  exact ⟨after, serves⟩

theorem not_combines_none : ¬ Combines callback keep sets dst a b wanted none := by
  rintro ⟨_, _, impossible, _⟩
  contradiction

theorem Combines.none_empty (lawful : callback.Lawful) (empty : ∀ p, ¬ wanted p) :
    Combines callback keep sets dst a b wanted ((some ⟨[], 0⟩).map fun tmp => Function.update sets
      dst tmp) := by
  have fresh : ProbeTable.Fresh id callback ⟨[], 0⟩ := ProbeTable.fresh_empty
  exact Combines.of_tmp _ (fun p _ => by simp [empty]) (by simp) (fresh.holds.serves lawful)

theorem pow2roundup_three {count : Nat} (several : 3 ≤ count) (fits : count ≤ 2 ^ 64) :
    ∃ power, pow2roundup count = 2 ^ (power + 2) := by
  obtain ⟨power, rounded⟩ := pow2roundup_two_pow fits
  have grows := le_pow2roundup count
  rw [rounded] at grows
  have large : 2 ≤ power := by
    by_contra small
    have few : 2 ^ power ≤ 2 ^ 1 := Nat.pow_le_pow_right (by decide) (by omega)
    omega
  exact ⟨power - 2, by rw [rounded, Nat.sub_add_cancel large]⟩

theorem pointersetUnion_three (lawful : callback.Lawful) (keeps : KeepsElement callback keep)
    (holds : ∀ i, Pointerset.Holds callback (sets i) (classes i))
    (fits : pointersetCountOf (a.map sets) + pointersetCountOf (b.map sets) ≤ 2 ^ 64)
    (several : 3 ≤ pointersetCountOf (a.map sets) + pointersetCountOf (b.map sets)) :
    Combines callback keep sets dst a b (fun p => HasElement callback sets a p ∨
      HasElement callback sets b p)
      (pointersetUnionGeneric callback keep sets dst a b) := by
  have some_ : ¬ (a = none ∧ b = none) := by
    rintro ⟨rfl, rfl⟩
    simp [pointersetCountOf] at several
  obtain ⟨items, length, contents, filled⟩ :=
    @pointersetUnionTmp_items callback keep sets classes a b holds some_
  obtain ⟨power, rounded⟩ := pow2roundup_three several fits
  obtain ⟨storage, allocated, fresh⟩ := pointersetAllocateAsserted_some callback power
  obtain ⟨tmp, after, done, tmpHolds, bound, origin⟩ :=
    ProbeTable.Holds.setElements lawful keeps (fun _ => True) items
    ⟨storage, 0⟩ _ fresh.holds (fun item member => isStored_ne item ((contents item).mp member))
    (fun item _ tmp => ⟨fun _ => rfl, fun unwanted => absurd trivial unwanted⟩)
  rw [pointersetUnionGeneric, filled, length, rounded, allocated, Option.bind_some, done]
  refine Combines.of_tmp after (fun p _ => ?_) (fun p element there => ?_) (tmpHolds.serves lawful)
  · rw [bound, hasElement_or contents]
    simp
  · rcases origin p element there with impossible | ⟨item, member, same⟩
    · contradiction
    · exact ⟨item, (contents item).mp member, same⟩

theorem setTwo (lawful : callback.Lawful) (keeps : KeepsElement callback keep) {x y : Pointer}
    (xElement : x ≠ callback.notakey) :
    (callback.isEqual y x = false ∧
        [x, y].foldlM (pointersetSetGeneric callback keep) (twoSlots callback none) =
          some ⟨[keep x, keep y], 2⟩) ∨
      ∃ z, (z = keep x ∨ z = keep y) ∧ callback.isEqual y x = true ∧
        [x, y].foldlM (pointersetSetGeneric callback keep) (twoSlots callback none) = some
    (twoSlots callback (some z)) := by
  obtain ⟨xKept, xAlike⟩ := keeps x xElement
  have first : pointersetSetGeneric callback keep (twoSlots callback none) x =
      some (twoSlots callback (some (keep x))) := by
    simp [pointersetSetGeneric, write_vacantSlots]
  simp only [List.foldlM_cons, List.foldlM_nil, first, Option.bind_eq_bind, Option.bind_some]
  by_cases equal : callback.isEqual y (keep x) = true
  · right
    have same : callback.isEqual y x = true := lawful.trans _ _ _ equal (lawful.symm _ _ xAlike)
    obtain ⟨_, wrote⟩ := @write_oneSlot_equal callback keep y (keep x) xKept equal
    by_cases identical : y = keep x
    · rw [if_pos identical] at wrote
      exact ⟨keep x, Or.inl rfl, same, by simp [pointersetSetGeneric, wrote]⟩
    · rw [if_neg identical] at wrote
      exact ⟨keep y, Or.inr rfl, same, by simp [pointersetSetGeneric, wrote]⟩
  · left
    have wrote := @write_oneSlot_unequal callback keep y (keep x) xKept (by simpa using equal)
      .overwrite
    refine ⟨?_, by simp [pointersetSetGeneric, wrote]⟩
    by_contra same
    exact equal (lawful.trans _ _ _ (Bool.eq_true_of_not_eq_false same) xAlike)

theorem pointersetUnion_two (lawful : callback.Lawful) (keeps : KeepsElement callback keep)
    (holds : ∀ i, Pointerset.Holds callback (sets i) (classes i))
    (two : pointersetCountOf (a.map sets) + pointersetCountOf (b.map sets) = 2) :
    Combines callback keep sets dst a b (fun p => HasElement callback sets a p ∨
      HasElement callback sets b p)
        (pointersetUnionGeneric callback keep sets dst a b) ↔
      ∀ p q, p ≠ callback.notakey → q ≠ callback.notakey → callback.isEqual p q = true := by
  have some_ : ¬ (a = none ∧ b = none) := by
    rintro ⟨rfl, rfl⟩
    simp [pointersetCountOf] at two
  obtain ⟨items, length, contents, filled⟩ :=
    @pointersetUnionTmp_items callback keep sets classes a b holds some_
  rw [two] at length
  obtain ⟨x, y, rfl⟩ := List.length_eq_two.mp length
  have elements := fun item member => isStored_ne item ((contents item).mp member)
  have xElement := elements x (by simp)
  have yElement := elements y (by simp)
  have xKept := keeps x xElement
  have yKept := keeps y yElement
  have made : pointersetUnionTmp callback keep (a.map sets) (b.map sets) =
      [x, y].foldlM (pointersetSetGeneric callback keep) (twoSlots callback none) := by
    have rounded : pow2roundup 2 = 2 ^ 1 := by decide
    have allocated : pointersetAllocateAsserted callback.notakey (pow2roundup 2) =
      some [callback.notakey, callback.notakey] :=
      if_pos ⟨by decide, rounded ▸ isPow2_two_pow 1⟩
    rw [filled, length, allocated, Option.bind_some]
    rfl
  rw [pointersetUnionGeneric, made]
  rcases @setTwo callback keep lawful keeps x y xElement with
    ⟨unequal, full⟩ | ⟨z, origin, equal, single⟩
  · rw [full]
    constructor
    · intro combines
      obtain ⟨_, serves⟩ := combines.serves
      rcases serves.sized with empty | ⟨_, slot, member, vacant⟩
      · contradiction
      · rcases List.mem_cons.mp member with rfl | later
        · exact absurd vacant xKept.1
        · rw [List.mem_singleton.mp later] at vacant
          exact absurd vacant yKept.1
    · intro all
      exact absurd (all y x yElement xElement) (by simp [unequal])
  · have zKept : z ≠ callback.notakey ∧ callback.isEqual x z = true := by
      rcases origin with rfl | rfl
      · exact xKept
      · exact ⟨yKept.1, lawful.trans _ _ _ (lawful.symm _ _ equal) yKept.2⟩
    rw [single]
    constructor
    · intro combines
      obtain ⟨_, serves⟩ := combines.serves
      have allEqual : ∀ p, p ≠ callback.notakey → callback.isEqual p z = true := by
        intro p isElement
        by_contra unequal
        have endless := pointersetRun_twoSlots_endless lawful zKept.1 isElement
          (by simpa using unequal)
        obtain ⟨final, result, _⟩ := serves.answers [.insert p id, .remove z] (by
          intro op member
          rcases List.mem_cons.mp member with rfl | later
          · exact ⟨isElement, keepsElement_id lawful⟩
          · rw [List.mem_singleton.mp later]
            exact zKept.1)
        rw [endless] at result
        contradiction
      exact fun p q pElement qElement =>
        lawful.trans _ _ _ (allEqual p pElement) (lawful.symm _ _ (allEqual q qElement))
    · intro all
      refine Combines.of_tmp (fun p => if p = callback.notakey then none else some z) ?_ ?_
        (SingleClass.serves all ⟨some z, rfl, ?_, fun p isElement => if_neg isElement⟩)
      · intro p isElement
        rw [hasElement_or contents, if_neg isElement]
        exact iff_of_true rfl ⟨x, by simp, all p x isElement xElement⟩
      · intro p element there
        split at there
        · contradiction
        · rw [← Option.some.inj there]
          rcases origin with rfl | rfl
          · exact ⟨x, (contents x).mp (by simp), rfl⟩
          · exact ⟨y, (contents y).mp (by simp), rfl⟩
      · rintro other ⟨⟩
        exact zKept.1

theorem pointersetAllocateAsserted_one : pointersetAllocateAsserted callback.notakey 1 = none :=
  if_neg fun asserted => absurd asserted.1 (by decide)

theorem pointersetUnion_few (holds : ∀ i, Pointerset.Holds callback (sets i) (classes i))
    (some_ : ¬ (a = none ∧ b = none))
    (few : pointersetCountOf (a.map sets) + pointersetCountOf (b.map sets) ≤ 1) :
    pointersetUnionGeneric callback keep sets dst a b = none := by
  obtain ⟨items, length, _, filled⟩ :=
    @pointersetUnionTmp_items callback keep sets classes a b holds some_
  have one : pow2roundup items.length = 1 := by
    rw [length]
    rcases Nat.le_one_iff_eq_zero_or_eq_one.mp few with empty | single
    · rw [empty]
      decide
    · rw [single]
      decide
  rw [pointersetUnionGeneric, filled, one, pointersetAllocateAsserted_one]
  rfl

theorem pointersetUnion_iff (lawful : callback.Lawful) (keeps : KeepsElement callback keep)
    (holds : ∀ i, Pointerset.Holds callback (sets i) (classes i))
    (fits : pointersetCountOf (a.map sets) + pointersetCountOf (b.map sets) ≤ 2 ^ 64) :
    Combines callback keep sets dst a b (fun p => HasElement callback sets a p ∨
      HasElement callback sets b p)
        (pointersetUnionGeneric callback keep sets dst a b) ↔
      UnionFits callback sets a b := by
  by_cases nulls : a = none ∧ b = none
  · refine iff_of_true ?_ (Or.inl nulls)
    obtain ⟨rfl, rfl⟩ := nulls
    exact Combines.none_empty lawful fun p => by simp [HasElement]
  · rw [UnionFits, or_iff_right nulls]
    rcases Nat.lt_trichotomy (pointersetCountOf (a.map sets) + pointersetCountOf (b.map sets))
      2 with few | two | several
    · rw [pointersetUnion_few holds nulls (by omega)]
      exact iff_of_false not_combines_none fun served => by omega
    · rw [pointersetUnion_two lawful keeps holds two]
      exact ⟨fun all => Or.inr ⟨two, all⟩, fun served => (served.resolve_left (by omega)).2⟩
    · exact iff_of_true (pointersetUnion_three lawful keeps holds fits several) (Or.inl several)

theorem ProbeTable.Holds.intersectItem {elements : Pointer → Option Pointer}
    (holds : Pointerset.Holds callback set elements) (lawful : callback.Lawful) {item : Pointer}
    (isElement : item ≠ callback.notakey) :
    ((elements item).isSome →
        pointersetIntersectItem callback keep set tmp item =
          pointersetSetGeneric callback keep tmp item) ∧
      (¬ (elements item).isSome → pointersetIntersectItem callback keep set tmp item = some tmp) := by
  have got := holds.getElement lawful isElement
  rw [pointersetIntersectItem, got]
  cases there : elements item with
  | none => simp
  | some element => simp [holds.element_ne there]

theorem hasElement_and (lawful : callback.Lawful)
    (holds : ∀ i, Pointerset.Holds callback (sets i) (classes i))
    (contents : ∀ item, item ∈ items ↔ item ∈ (sets i).bag id callback) :
    (∃ item ∈ items, (classes j item).isSome ∧ callback.isEqual p item = true) ↔
      HasElement callback sets (some i) p ∧ HasElement callback sets (some j) p := by
  have bound : ∀ item, (classes j item).isSome ↔ ∃ element ∈ (sets j).bag id callback,
      callback.isEqual item element = true := by
    intro item
    rw [Option.isSome_iff_exists]
    exact exists_congr fun element => (holds j).represents.binds item element
  simp only [contents, bound, HasElement, Option.some.injEq, exists_eq_left']
  constructor
  · rintro ⟨item, member, ⟨element, elementMember, alike⟩, equal⟩
    exact ⟨⟨item, member, equal⟩, element, elementMember, lawful.trans _ _ _ equal alike⟩
  · rintro ⟨⟨item, member, equal⟩, element, elementMember, alike⟩
    exact ⟨item, member, ⟨element, elementMember, lawful.trans _ _ _ (lawful.symm _ _ equal) alike⟩,
      equal⟩

theorem pointersetIntersect_allocated (lawful : callback.Lawful) (keeps : KeepsElement callback keep)
    (holds : ∀ i, Pointerset.Holds callback (sets i) (classes i)) (sized : (sets i).size ≠ 0) :
    Combines callback keep sets dst (some i) (some j)
      (fun p => HasElement callback sets (some i) p ∧ HasElement callback sets (some j) p)
      (pointersetIntersectGeneric callback keep sets dst (some i) (some j)) := by
  obtain ⟨items, enumerated, _, contents⟩ := (holds i).toOk.enumerate
  obtain ⟨⟨power, size⟩, _⟩ := (holds i).toOk.sized.resolve_left sized
  obtain ⟨storage, allocated, fresh⟩ := pointersetAllocateAsserted_some callback power
  have isElement : ∀ item ∈ items, item ≠ callback.notakey := fun item member =>
    (mem_tableBag.mp ((contents item).mp member)).2
  obtain ⟨tmp, after, done, tmpHolds, bound, origin⟩ := ProbeTable.Holds.setElements lawful keeps
    (fun item => (classes j item).isSome) items ⟨storage, 0⟩ _ fresh.holds isElement
    (fun item member tmp => (holds j).intersectItem lawful (isElement item member))
  have made : pointersetIntersectTmp callback keep (some (sets i)) (some (sets j)) = some tmp := by
    simp only [pointersetIntersectTmp, size, allocated, enumerated, Option.bind_eq_bind,
      Option.bind_some]
    exact done
  rw [pointersetIntersectGeneric, Option.map_some, Option.map_some, made]
  refine Combines.of_tmp after (fun p _ => ?_) (fun p element there => ?_) (tmpHolds.serves lawful)
  · rw [bound, ← hasElement_and lawful holds contents]
    simp
  · rcases origin p element there with impossible | ⟨item, member, same⟩
    · contradiction
    · exact ⟨item, ⟨i, Or.inl rfl, (contents item).mp member⟩, same⟩

theorem pointersetIntersect_iff (lawful : callback.Lawful) (keeps : KeepsElement callback keep)
    (holds : ∀ i, Pointerset.Holds callback (sets i) (classes i)) :
    Combines callback keep sets dst a b (fun p => HasElement callback sets a p ∧
      HasElement callback sets b p)
        (pointersetIntersectGeneric callback keep sets dst a b) ↔
      IntersectFits sets a b := by
  cases a with
  | none =>
    exact iff_of_true (Combines.none_empty lawful fun p => by simp [HasElement])
      (by simp [IntersectFits])
  | some i =>
    cases b with
    | none =>
      exact iff_of_true (Combines.none_empty lawful fun p => by simp [HasElement])
        (by simp [IntersectFits])
    | some j =>
      by_cases sized : (sets i).size = 0
      · have aborted : pointersetIntersectGeneric callback keep sets dst (some i) (some j) =
            none := by
          simp [pointersetIntersectGeneric, pointersetIntersectTmp, sized, pointersetAllocateAsserted]
        rw [aborted]
        exact iff_of_false not_combines_none fun served => served i j rfl rfl sized
      · refine iff_of_true (pointersetIntersect_allocated lawful keeps holds sized) ?_
        rintro _ _ ⟨⟩ ⟨⟩
        exact sized

theorem ProbeTable.Ok.count_le (ok : Pointerset.Ok callback set) : set.count ≤ set.size := by
  rw [← ok.counted]
  exact ok.slots.room.trans (Nat.sub_le _ _)

/-- `dst` comes to be the union, or the intersection, exactly where these fit. -/
theorem pointersetCombines_iff (lawful : callback.Lawful) (keeps : KeepsElement callback keep)
    (holds : ∀ i, Pointerset.Holds callback (sets i) (classes i))
    (fits : ∀ i, 8 * (sets i).size ≤ 2 ^ 64) :
    (Combines callback keep sets dst a b (fun p => HasElement callback sets a p ∨
      HasElement callback sets b p)
        (pointersetUnionGeneric callback keep sets dst a b) ↔
      UnionFits callback sets a b) ∧
    (Combines callback keep sets dst a b (fun p => HasElement callback sets a p ∧
      HasElement callback sets b p)
        (pointersetIntersectGeneric callback keep sets dst a b) ↔
      IntersectFits sets a b) := by
  have countFits : ∀ set : Option Nat, 8 * pointersetCountOf (set.map sets) ≤ 2 ^ 64 := by
    intro set
    cases set with
    | none => exact Nat.zero_le _
    | some i => exact (Nat.mul_le_mul_left 8 (holds i).toOk.count_le).trans (fits i)
  have aFits := countFits a
  have bFits := countFits b
  exact ⟨pointersetUnion_iff lawful keeps holds (by omega),
    pointersetIntersect_iff lawful keeps holds⟩

def singletonSets : Nat → Pointerset
  | 0 => ⟨[notAPointer, notAPointer, 1, notAPointer], 1⟩
  | 1 => ⟨[notAPointer, notAPointer, 2, notAPointer], 1⟩
  | _ + 2 => ⟨[], 0⟩

theorem singletonSets_holds :
    ∀ i, ∃ elements, Pointerset.Holds crowdedKeycallback (singletonSets i) elements := by
  have single : ∀ p : Pointer, p ≠ notAPointer →
    ∀ final, pointersetRun crowdedKeycallback (pointersetInit 0) [.insert p id] =
      some final → ∃ elements, Pointerset.Holds crowdedKeycallback final.1 elements := by
    intro p isElement final result
    obtain ⟨set, made, holds⟩ := pointersetRun_holds crowdedKeycallback_lawful [.insert p id]
      (pointersetInit 0) (fun _ => none) (pointersetInit_fresh (by decide) (Or.inl rfl)).holds (by
        intro op member
        rw [List.mem_singleton.mp member]
        exact ⟨isElement, keepsElement_id crowdedKeycallback_lawful⟩)
    rw [result] at made
    rw [Option.some.inj made]
    exact ⟨_, holds⟩
  intro i
  rcases i with _ | _ | _
  · exact single 1 (by decide) (singletonSets 0, [.flag 1]) rfl
  · exact single 2 (by decide) (singletonSets 1, [.flag 1]) rfl
  · exact ⟨_, (@ProbeTable.fresh_empty _ id crowdedKeycallback).holds⟩

theorem pointersetCombines_iff_singletons :
    (Combines crowdedKeycallback id singletonSets 2 (some 0) (some 1)
        (fun p => HasElement crowdedKeycallback singletonSets (some 0) p ∨
          HasElement crowdedKeycallback singletonSets (some 1) p)
        (pointersetUnionGeneric crowdedKeycallback id singletonSets 2 (some 0) (some 1)) ↔
      UnionFits crowdedKeycallback singletonSets (some 0) (some 1)) ∧
    (Combines crowdedKeycallback id singletonSets 2 (some 0) (some 1)
        (fun p => HasElement crowdedKeycallback singletonSets (some 0) p ∧
          HasElement crowdedKeycallback singletonSets (some 1) p)
        (pointersetIntersectGeneric crowdedKeycallback id singletonSets 2 (some 0) (some 1)) ↔
      IntersectFits singletonSets (some 0) (some 1)) := by
  choose elements holds using singletonSets_holds
  refine pointersetCombines_iff crowdedKeycallback_lawful
    (keepsElement_id crowdedKeycallback_lawful) holds fun i => ?_
  rcases i with _ | _ | _
  · decide
  · decide
  · exact Nat.zero_le _

/-- The union of two sets of one element has no vacant slot. -/
theorem pointersetUnion_singletons_full :
    crowdedKeycallback.Lawful ∧ KeepsElement crowdedKeycallback id ∧
      ¬ ∀ (sets : Nat → Pointerset) (dst : Nat) (a b : Option Nat),
        (∀ i, ∃ elements, Pointerset.Holds crowdedKeycallback (sets i) elements) →
          Combines crowdedKeycallback id sets dst a b
            (fun p => HasElement crowdedKeycallback sets a p ∨ HasElement crowdedKeycallback sets b p)
            (pointersetUnionGeneric crowdedKeycallback id sets dst a b) := by
  have keeps := keepsElement_id crowdedKeycallback_lawful
  refine ⟨crowdedKeycallback_lawful, keeps, fun combines => ?_⟩
  choose elements holds using singletonSets_holds
  have wrong := combines singletonSets 2 (some 0) (some 1) singletonSets_holds
  rw [pointersetUnion_two crowdedKeycallback_lawful keeps holds rfl] at wrong
  exact absurd (wrong 1 2 (by decide) (by decide)) (by decide)

end Combine

end MulleCore
