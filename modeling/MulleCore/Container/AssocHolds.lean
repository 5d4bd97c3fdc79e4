import MulleCore.Container.Assoc
import MulleCore.Container.PointermapRefines

/-!
An assoc is a finite map from classes of equal keys to the pairs kept for them, and in
order when it says so.
-/

namespace MulleCore

open Library

def IsKey (callback : Keycallback) (key : Pointer) : Prop :=
  key ≠ notAPointer ∧ key ≠ callback.notakey

def KeepsKey (callback : Keycallback) (keep : Pointerpair → Pointerpair) : Prop :=
  ∀ pair, IsKey callback pair.key → IsKey callback (keep pair).key ∧
    callback.isEqual pair.key (keep pair).key = true

structure Coincides (callback : Keycallback) (compare : Pointerpair → Pointerpair → Int) : Prop where
  order : TotalCompare compare
  zero : ∀ one other, compare one other = 0 ↔ callback.isEqual one.key other.key = true

structure Assoc.Holds (callback : Keycallback) (compare : Pointerpair → Pointerpair → Int)
    (assoc : Assoc) (bindings : PairBindings) : Prop where
  keys : ∀ pair ∈ assoc.storage, IsKey callback pair.key
  represents : Represents (answersKey Pointerpair.key callback) (assoc.storage : Multiset Pointerpair)
    bindings
  fits : assoc.storage.length ≤ assoc.size
  few : assoc.storage.length < 2 ^ 31
  sorted : assoc.isSorted = true → assoc.storage.Pairwise fun one other => compare one other ≤ 0

section Operations

variable {callback : Keycallback} {compare : Pointerpair → Pointerpair → Int}
  {keep : Pointerpair → Pointerpair} {assoc : Assoc} {bindings : PairBindings}
variable {key : Pointer} {pair : Pointerpair} {storage : List Pointerpair} {index : Nat}
  {old : Pointerpair} {i : Nat}

theorem Coincides.equates (coincides : Coincides callback compare) : callback.Equates where
  refl := fun key => (coincides.zero ⟨key, 0⟩ ⟨key, 0⟩).mp (coincides.order.refl _)
  symm := by
    intro key other same
    have equal := (coincides.zero ⟨key, 0⟩ ⟨other, 0⟩).mpr same
    exact (coincides.zero ⟨other, 0⟩ ⟨key, 0⟩).mp (coincides.order.eq_comm equal)
  trans := by
    intro key other third same next
    have first := (coincides.zero ⟨key, 0⟩ ⟨other, 0⟩).mpr same
    have second := (coincides.zero ⟨other, 0⟩ ⟨third, 0⟩).mpr next
    refine (coincides.zero ⟨key, 0⟩ ⟨third, 0⟩).mp (Int.le_antisymm ?_ ?_)
    · exact coincides.order.trans _ _ _ (Int.le_of_eq first) (Int.le_of_eq second)
    · have back := coincides.order.trans _ _ _
        (Int.le_of_eq (coincides.order.eq_comm second))
        (Int.le_of_eq (coincides.order.eq_comm first))
      have flipped := coincides.order.flip ⟨key, 0⟩ ⟨third, 0⟩
      omega

theorem assocInit_holds (capacity : Nat) :
    (assocInit capacity).Holds callback compare fun _ => none where
  keys := fun _ member => absurd member List.not_mem_nil
  represents := Represents.zero
  fits := Nat.zero_le capacity
  few := Nat.two_pow_pos 31
  sorted := fun isSorted => absurd isSorted Bool.false_ne_true

theorem assocReset_holds (assoc : Assoc) :
    (assocReset assoc).Holds callback compare fun _ => none where
  keys := fun _ member => absurd member List.not_mem_nil
  represents := Represents.zero
  fits := Nat.zero_le assoc.size
  few := Nat.two_pow_pos 31
  sorted := fun _ => List.Pairwise.nil

section

variable (holds : assoc.Holds callback compare bindings)
include holds

theorem Assoc.Holds.unsorted :
    Assoc.Holds callback compare { assoc with isSorted := false } bindings where
  keys := holds.keys
  represents := holds.represents
  fits := holds.fits
  few := holds.few
  sorted := fun isSorted => absurd isSorted Bool.false_ne_true

theorem Assoc.Holds.bound_iff (key : Pointer) (pair : Pointerpair) :
    bindings key = some pair ↔ pair ∈ assoc.storage ∧ callback.isEqual key pair.key = true :=
  holds.represents.binds key pair

theorem Assoc.Holds.apart (equates : callback.Equates) :
    assoc.storage.Pairwise fun one other => callback.isEqual one.key other.key = false := by
  refine holds.represents.pairwise.imp fun {one _} apart => ?_
  exact Bool.eq_false_iff.mpr (apart one.key (equates.refl one.key))

end

/-! Scanning. -/

theorem pointerpairScan_whole (buf : List Pointerpair) (key : Pointer) {range : Range}
    (location : range.location = 0) (length : range.length.toNat = buf.length) :
    pointerpairScan callback buf key range =
      buf.findIdx? fun p => callback.isEqual p.key key := by
  rw [pointerpairScan, location, length, slice]
  simp only [UInt64.toNat_zero, List.drop_zero, List.take_length, Nat.zero_add, Option.map_id']

theorem Assoc.Holds.findIdx?_isSome (holds : assoc.Holds callback compare bindings)
    (equates : callback.Equates) (key : Pointer) :
    (assoc.storage.findIdx? fun p => callback.isEqual p.key key).isSome = (bindings key).isSome := by
  rw [List.findIdx?_isSome, Bool.eq_iff_iff, List.any_eq_true, Option.isSome_iff_exists]
  constructor
  · rintro ⟨pair, member, same⟩
    exact ⟨pair, (holds.bound_iff key pair).mpr ⟨member, equates.symm _ _ same⟩⟩
  · rintro ⟨pair, bound⟩
    obtain ⟨member, same⟩ := (holds.bound_iff key pair).mp bound
    exact ⟨pair, member, equates.symm _ _ same⟩

theorem Assoc.Holds.countWord (holds : assoc.Holds callback compare bindings) :
    (UInt64.ofNat assoc.storage.length).toNat = assoc.storage.length :=
  UInt64.toNat_ofNat_of_lt' (Nat.lt_trans holds.few (by decide))

theorem assocFindInRangeUnsorted_all {assoc : Assoc}
    (word : (UInt64.ofNat assoc.storage.length).toNat = assoc.storage.length)
    (isKey : key ≠ notAPointer) :
    assocFindInRangeUnsorted callback assoc key (rangeMake 0 0xffffffffffffffff) =
      some (assoc.storage.findIdx? fun p => callback.isEqual p.key key) := by
  have all : rangeValidateAgainstLength (rangeMake 0 0xffffffffffffffff)
      (UInt64.ofNat assoc.storage.length) = ⟨0, UInt64.ofNat assoc.storage.length⟩ := by
    rw [rangeValidateAgainstLength, rangeMake, if_pos rfl]
    simp [rangeMake]
  rw [assocFindInRangeUnsorted, if_neg isKey, all]
  by_cases empty : UInt64.ofNat assoc.storage.length = 0
  · have none : assoc.storage = [] := by
      rw [← UInt64.toNat_inj, word, UInt64.toNat_zero] at empty
      exact List.length_eq_zero_iff.mp empty
    rw [if_pos empty, none]
    rfl
  · rw [if_neg empty, pointerpairScan_whole _ _ rfl word]

theorem assocMember_eq (holds : assoc.Holds callback compare bindings)
    (equates : callback.Equates) (isKey : IsKey callback key) :
    assocMember callback assoc key = some (bindings key).isSome := by
  rw [assocMember, assocFindInRangeUnsorted_all holds.countWord isKey.1,
    ← holds.findIdx?_isSome equates key]
  rfl

/-! Adding. -/

theorem bindKey_pair (equates : callback.Equates) (same : callback.isEqual key pair.key = true) :
    bindKey callback bindings key pair =
      bindWrite (answersKey Pointerpair.key callback) bindings pair :=
  bindKey_eq equates same bindings

theorem unbindKey_pair (equates : callback.Equates) (same : callback.isEqual key pair.key = true) :
    unbindKey callback bindings key =
      bindDrop (answersKey Pointerpair.key callback) bindings pair :=
  unbindKey_eq equates same bindings

theorem pointerpairarrayAdd_some (pair : Pointerpair) (fits : assoc.storage.length ≤ assoc.size) :
    ∃ size, pointerpairarrayAdd assoc pair =
        some { assoc with storage := assoc.storage ++ [pair], size := size } ∧
      assoc.storage.length + 1 ≤ size := by
  have grown : assoc.size < pointerpairarrayGrow assoc.size := by
    have rounded := le_pow2roundup (assoc.size * 2)
    have positive := pow2roundup_pos (assoc.size * 2)
    rw [pointerpairarrayGrow, if_neg (by omega)]
    omega
  rw [pointerpairarrayAdd]
  by_cases full : assoc.storage.length = assoc.size
  · rw [if_pos full, if_pos (by omega)]
    exact ⟨_, rfl, by omega⟩
  · rw [if_neg full, if_pos (by omega)]
    exact ⟨_, rfl, by omega⟩

theorem assocAdd_holds (holds : assoc.Holds callback compare bindings)
    (equates : callback.Equates) (keeps : KeepsKey callback keep)
    (isKey : IsKey callback pair.key) (absent : bindings pair.key = none)
    (room : assoc.storage.length + 1 < 2 ^ 31) :
    ∃ next, assocAdd callback keep assoc pair = some next ∧
      next.Holds callback compare (bindKey callback bindings pair.key (keep pair)) ∧
      next.storage = assoc.storage ++ [keep pair] := by
  obtain ⟨keptKey, same⟩ := keeps pair isKey
  obtain ⟨size, added, enough⟩ := pointerpairarrayAdd_some (keep pair) holds.fits
  have length : (assoc.storage ++ [keep pair]).length = assoc.storage.length + 1 :=
    List.length_append
  refine ⟨⟨assoc.storage ++ [keep pair], size, false⟩, ?_, ?_, rfl⟩
  · rw [assocAdd, assocMember_eq holds equates isKey, absent, pointerpairRetain, if_neg isKey.2]
    simp only [added, Option.bind_eq_bind, Option.bind_some, Option.isSome_none, Bool.false_eq_true,
      if_false]
  · constructor
    · intro other member
      rcases List.mem_append.mp member with before | atEnd
      · exact holds.keys other before
      · rw [List.mem_singleton.mp atEnd]
        exact keptKey
    · rw [bindKey_pair equates same, ← Multiset.coe_add,
        Multiset.coe_singleton]
      refine holds.represents.add fun key answering entry member entryAnswers => ?_
      -- an entry with an equal key would be bound to the key added
      have bound : bindings pair.key = some entry := holds.represents.eq_some member
        (equates.trans _ _ _ same (equates.trans _ _ _ (equates.symm _ _ answering) entryAnswers))
      rw [absent] at bound
      contradiction
    · rw [length]
      exact enough
    · rw [length]
      exact room
    · exact fun isSorted => absurd isSorted Bool.false_ne_true

/-! Replacing. -/

theorem coe_middle (before after : List Pointerpair) (pair : Pointerpair) :
    ((before ++ pair :: after : List Pointerpair) : Multiset Pointerpair) =
      ((before ++ after : List Pointerpair) : Multiset Pointerpair) + {pair} := by
  rw [Multiset.coe_eq_coe.mpr List.perm_middle, ← Multiset.cons_coe, Multiset.add_comm,
    Multiset.singleton_add]

theorem split_at_index (oldAt : storage[index]? = some old) :
    storage = storage.take index ++ old :: storage.drop (index + 1) := by
  obtain ⟨bound, rfl⟩ := List.getElem?_eq_some_iff.mp oldAt
  rw [← List.drop_eq_getElem_cons bound, List.take_append_drop]

theorem assocReplace_holds (holds : assoc.Holds callback compare bindings)
    (equates : callback.Equates) (keeps : KeepsKey callback keep)
    (isKey : IsKey callback pair.key) (oldAt : assoc.storage[i]? = some old)
    (alone : ∀ other, bindings pair.key = some other → other = old) :
    ∃ next, assocReplace callback keep assoc i pair = some next ∧
      next.Holds callback compare
        (bindKey callback (unbindKey callback bindings old.key) pair.key (keep pair)) := by
  obtain ⟨keptKey, same⟩ := keeps pair isKey
  have bound := (List.getElem?_eq_some_iff.mp oldAt).1
  have parts : ((assoc.storage.take i ++ assoc.storage.drop (i + 1) : List Pointerpair) :
      Multiset Pointerpair) + {old} = (assoc.storage : Multiset Pointerpair) := by
    rw [← coe_middle, ← split_at_index oldAt]
  have dropped := holds.represents.drop parts
  have length : (assoc.storage.set i (keep pair)).length = assoc.storage.length := List.length_set
  refine ⟨⟨assoc.storage.set i (keep pair), assoc.size, false⟩, ?_, ?_⟩
  · rw [assocReplace, pointerpairRetain, if_neg isKey.2]
    simp only [Option.bind_eq_bind, Option.bind_some, if_pos bound]
  · constructor
    · intro other member
      rcases List.mem_or_eq_of_mem_set member with before | new
      · exact holds.keys other before
      · rw [new]
        exact keptKey
    · rw [bindKey_pair equates same, List.set_eq_take_append_cons_drop,
        if_pos bound, coe_middle,
        unbindKey_pair equates (equates.refl old.key)]
      refine dropped.add fun key answering entry member entryAnswers => ?_
      -- an entry with the new key is the old one, which answers to nothing any more
      have answersPair := equates.trans _ _ _ same
        (equates.trans _ _ _ (equates.symm _ _ answering) entryAnswers)
      have isOld : entry = old := alone entry (holds.represents.eq_some
        (by rw [← parts]; exact Multiset.mem_add.mpr (Or.inl member)) answersPair)
      have still := dropped.eq_some member entryAnswers
      rw [bindDrop, if_pos (isOld ▸ entryAnswers)] at still
      contradiction
    · rw [length]
      exact holds.fits
    · rw [length]
      exact holds.few
    · exact fun isSorted => absurd isSorted Bool.false_ne_true

theorem bindKey_unbindKey (equates : callback.Equates) {other : Pointer}
    (same : callback.isEqual key other = true) (entry : Pointerpair) :
    bindKey callback (unbindKey callback bindings other) key entry =
      bindKey callback bindings key entry := by
  funext third
  unfold bindKey unbindKey
  rw [isEqual_congr equates same]
  split <;> rfl

/-! Searching. -/

theorem Assoc.Holds.reordered (holds : assoc.Holds callback compare bindings)
    (perm : storage.Perm assoc.storage)
    (sorted : storage.Pairwise fun one other => compare one other ≤ 0) :
    Assoc.Holds callback compare { assoc with storage := storage, isSorted := true } bindings where
  keys := fun pair member => holds.keys pair (perm.mem_iff.mp member)
  represents := by
    rw [Multiset.coe_eq_coe.mpr perm]
    exact holds.represents
  fits := by
    rw [perm.length_eq]
    exact holds.fits
  few := by
    rw [perm.length_eq]
    exact holds.few
  sorted := fun _ => sorted

theorem Assoc.Holds.search (holds : assoc.Holds callback compare bindings)
    (coincides : Coincides callback compare) {search : Pointerpair}
    (searchable : assoc.Searchable compare search) :
    ∃ sorted : Assoc, assocQsortIfNeeded compare assoc = some sorted ∧
      sorted.Holds callback compare bindings ∧ sorted.isSorted = true ∧
      sorted.storage.length = assoc.storage.length ∧
      ((∃ index pair, pointerpairBsearch compare sorted.storage search = some (some index) ∧
          sorted.storage[index]? = some pair ∧ callback.isEqual search.key pair.key = true ∧
          bindings search.key = some pair) ∨
        (pointerpairBsearch compare sorted.storage search = some none ∧
          bindings search.key = none)) := by
  obtain ⟨storage, done, perm, ordered⟩ := assocQsortIfNeeded_some coincides.order holds.sorted
  have sortedHolds := holds.reordered perm ordered
  have below : pairsBelow compare storage search = pairsBelow compare assoc.storage search :=
    perm.countP_eq _
  refine ⟨_, done, sortedHolds, rfl, perm.length_eq, ?_⟩
  rcases pointerpairBsearch_exact coincides.order ordered (perm.length_eq ▸ searchable.1)
      (by rw [perm.length_eq, below]; exact searchable.2) with
    ⟨index, pair, found, pairAt, equal⟩ | ⟨missed, different⟩
  · have same := coincides.equates.symm _ _ ((coincides.zero pair search).mp equal)
    refine Or.inl ⟨index, pair, found, pairAt, same, ?_⟩
    exact (sortedHolds.bound_iff _ _).mpr ⟨List.mem_of_getElem? pairAt, same⟩
  · refine Or.inr ⟨missed, sortedHolds.represents.eq_none ?_⟩
    intro pair member same
    exact different pair member
      ((coincides.zero pair search).mpr (coincides.equates.symm _ _ same))

theorem assocGet_holds (holds : assoc.Holds callback compare bindings)
    (coincides : Coincides callback compare)
    (searchable : assoc.Searchable compare ⟨key, 0⟩) :
    ∃ sorted, assocGet compare assoc key = some (sorted, boundValue (bindings key)) ∧
      sorted.Holds callback compare bindings := by
  obtain ⟨sorted, done, sortedHolds, _, _, ⟨index, pair, found, pairAt, _, bound⟩ |
    ⟨missed, unbound⟩⟩ := holds.search coincides searchable
  · refine ⟨sorted, ?_, sortedHolds⟩
    rw [assocGet]
    simp only [done, found, assocValueAt, pairAt, bound, boundValue, Option.bind_eq_bind,
      Option.bind_some, Option.map_some]
  · refine ⟨sorted, ?_, sortedHolds⟩
    rw [assocGet]
    simp only [done, missed, assocValueAt, unbound, boundValue, Option.bind_eq_bind,
      Option.bind_some]

theorem assocSet_holds (holds : assoc.Holds callback compare bindings)
    (coincides : Coincides callback compare) (keeps : KeepsKey callback keep)
    (isKey : IsKey callback pair.key) (searchable : assoc.Searchable compare pair)
    (room : bindings pair.key = none → assoc.storage.length + 1 < 2 ^ 31) :
    ∃ next, assocSet callback compare keep assoc pair = some next ∧
      next.Holds callback compare (bindKey callback bindings pair.key (keep pair)) := by
  obtain ⟨sorted, done, sortedHolds, _, length, ⟨index, old, found, oldAt, same, bound⟩ |
    ⟨missed, unbound⟩⟩ := holds.search coincides searchable
  · obtain ⟨next, replaced, nextHolds⟩ := assocReplace_holds sortedHolds coincides.equates keeps
      isKey oldAt (fun other otherBound => Option.some.inj (otherBound.symm.trans bound))
    rw [bindKey_unbindKey coincides.equates same] at nextHolds
    refine ⟨next, ?_, nextHolds⟩
    rw [assocSet]
    simp only [done, found, replaced, Option.bind_eq_bind, Option.bind_some]
  · obtain ⟨next, added, nextHolds, _⟩ := assocAdd_holds sortedHolds coincides.equates keeps isKey
      unbound (by rw [length]; exact room unbound)
    refine ⟨next, ?_, nextHolds⟩
    rw [assocSet]
    simp only [done, missed, added, Option.bind_eq_bind, Option.bind_some]

def BoundAt (compare : Pointerpair → Pointerpair → Int) (bindings : PairBindings) (i : Nat)
    (old : Pointerpair) : Prop :=
  bindings old.key = some old ∧
    ∃ lower : List Pointerpair, lower.length = i ∧
      (lower.Pairwise fun one other => compare one other < 0) ∧
      ∀ pair, pair ∈ lower ↔ bindings pair.key = some pair ∧ compare pair old < 0

section

variable (holds : assoc.Holds callback compare bindings)
include holds

theorem Assoc.Holds.bound_self (equates : callback.Equates) (member : pair ∈ assoc.storage) :
    bindings pair.key = some pair :=
  (holds.bound_iff pair.key pair).mpr ⟨member, equates.refl pair.key⟩

theorem Assoc.Holds.strictly
    (coincides : Coincides callback compare) (isSorted : assoc.isSorted = true) :
    assoc.storage.Pairwise fun one other => compare one other < 0 := by
  refine ((holds.sorted isSorted).and (holds.apart coincides.equates)).imp ?_
  rintro one other ⟨ordered, apart⟩
  have different : compare one other ≠ 0 := by
    intro equal
    rw [coincides.zero, apart] at equal
    contradiction
  omega

theorem Assoc.Holds.boundAt
    (coincides : Coincides callback compare) (isSorted : assoc.isSorted = true)
    (oldAt : assoc.storage[i]? = some old) : BoundAt compare bindings i old := by
  have bound := (List.getElem?_eq_some_iff.mp oldAt).1
  have strict := holds.strictly coincides isSorted
  have sameOrder := coincides.order.flip old
  refine ⟨holds.bound_self coincides.equates (List.mem_of_getElem? oldAt), assoc.storage.take i,
    ?_, strict.sublist (List.take_sublist i _), ?_⟩
  · rw [List.length_take]
    omega
  · rw [split_at_index oldAt, List.pairwise_append, List.pairwise_cons] at strict
    obtain ⟨_, ⟨afterOld, _⟩, across⟩ := strict
    intro pair
    constructor
    · intro member
      exact ⟨holds.bound_self coincides.equates (List.mem_of_mem_take member),
        across pair member old List.mem_cons_self⟩
    · rintro ⟨pairBound, below⟩
      have member := ((holds.bound_iff _ _).mp pairBound).1
      rw [split_at_index oldAt] at member
      rcases List.mem_append.mp member with before | later
      · exact before
      · rcases List.mem_cons.mp later with isOld | after
        · rw [isOld, coincides.order.refl] at below
          exact absurd below (Int.lt_irrefl 0)
        · have above := afterOld pair after
          have flipped := sameOrder pair
          omega

theorem assocSetAtIndex_holds
    (coincides : Coincides callback compare) (keeps : KeepsKey callback keep)
    (isKey : IsKey callback pair.key) (unused : bindings pair.key = none)
    (inside : i < assoc.storage.length) :
    ∃ next old, assocSetAtIndex callback compare keep assoc i pair = some next ∧
      BoundAt compare bindings i old ∧
      next.Holds callback compare
        (bindKey callback (unbindKey callback bindings old.key) pair.key (keep pair)) := by
  obtain ⟨storage, done, perm, ordered⟩ := assocQsortIfNeeded_some coincides.order holds.sorted
  have sortedHolds := holds.reordered perm ordered
  obtain ⟨old, oldAt⟩ : ∃ old, storage[i]? = some old :=
    ⟨_, List.getElem?_eq_getElem (by rw [perm.length_eq]; exact inside)⟩
  obtain ⟨next, replaced, nextHolds⟩ := assocReplace_holds sortedHolds coincides.equates keeps isKey
    oldAt (by
      intro other bound
      rw [unused] at bound
      contradiction)
  refine ⟨next, old, ?_, sortedHolds.boundAt coincides rfl oldAt, nextHolds⟩
  rw [assocSetAtIndex]
  simp only [done, replaced, Option.bind_eq_bind, Option.bind_some]

/-! Removing. -/

theorem assocFirstEqual_self (equates : callback.Equates)
    (oldAt : assoc.storage[index]? = some old) (same : callback.isEqual key old.key = true) :
    assocFirstEqual callback assoc.storage key index = some index := by
  cases index with
  | zero => rfl
  | succ first =>
    obtain ⟨oldBound, rfl⟩ := List.getElem?_eq_some_iff.mp oldAt
    have apart := List.pairwise_iff_getElem.mp (holds.apart equates) first (first + 1) (by omega)
      oldBound (Nat.lt_succ_self first)
    have different : callback.isEqual assoc.storage[first].key key = false := by
      rw [isEqual_congr equates same]
      exact apart
    rw [assocFirstEqual, List.getElem?_eq_getElem (by omega)]
    simp only [Option.bind_eq_bind, Option.bind_some, different, Bool.false_eq_true, if_false]

theorem assocLastEqual_self (equates : callback.Equates)
    (oldAt : assoc.storage[index]? = some old) (same : callback.isEqual key old.key = true) :
    assocLastEqual callback assoc.storage key (assoc.storage.length - (index + 1)) (index + 1) =
      some (index + 1) := by
  cases left : assoc.storage.length - (index + 1) with
  | zero => rfl
  | succ left =>
    obtain ⟨oldBound, rfl⟩ := List.getElem?_eq_some_iff.mp oldAt
    have apart := List.pairwise_iff_getElem.mp (holds.apart equates) index (index + 1) oldBound
      (by omega) (Nat.lt_succ_self index)
    have different : callback.isEqual assoc.storage[index + 1].key key = false := by
      rw [isEqual_congr equates same, Bool.eq_false_iff]
      intro equal
      rw [equates.symm _ _ equal] at apart
      contradiction
    rw [assocLastEqual, List.getElem?_eq_getElem (by omega)]
    simp only [Option.bind_eq_bind, Option.bind_some, different, Bool.false_eq_true, if_false]

end

theorem rangeValidateAgainstLength_one {count : Nat} (inside : index < count)
    (few : count < 2 ^ 31) :
    rangeValidateAgainstLength (rangeMake (UInt64.ofNat index) 1) (UInt64.ofNat count) =
      rangeMake (UInt64.ofNat index) 1 := by
  have indexWord : (UInt64.ofNat index).toNat = index :=
    UInt64.toNat_ofNat_of_lt' (show _ < 2 ^ 64 by omega)
  have countWord : (UInt64.ofNat count).toNat = count :=
    UInt64.toNat_ofNat_of_lt' (show _ < 2 ^ 64 by omega)
  have stop : (UInt64.ofNat index + 1).toNat = index + 1 := by
    rw [UInt64.toNat_add, indexWord, UInt64.toNat_one, Nat.mod_eq_of_lt (by omega)]
  have notAll : ¬(1 : UInt64) = 0xffffffffffffffff := by decide
  rw [rangeValidateAgainstLength, rangeMake]
  simp only [if_neg notAll]
  rw [if_neg]
  rw [gt_iff_lt, UInt64.lt_iff_toNat_lt, UInt64.lt_iff_toNat_lt, stop, countWord, indexWord]
  omega

theorem assocRemoveEquals_holds (holds : assoc.Holds callback compare bindings)
    (equates : callback.Equates)
    (oldAt : assoc.storage[index]? = some old) (same : callback.isEqual key old.key = true) :
    ∃ next, assocRemoveEquals callback assoc key index = some next ∧
      next.Holds callback compare (unbindKey callback bindings key) := by
  have bound := (List.getElem?_eq_some_iff.mp oldAt).1
  have few := holds.few
  have fits := holds.fits
  have indexWord : (UInt64.ofNat index).toNat = index :=
    UInt64.toNat_ofNat_of_lt' (show _ < 2 ^ 64 by omega)
  have one : UInt64.ofNat (index + 1 - index) = 1 := by
    rw [Nat.add_sub_cancel_left]
    rfl
  have parts : ((assoc.storage.take index ++ assoc.storage.drop (index + 1) : List Pointerpair) :
      Multiset Pointerpair) + {old} = (assoc.storage : Multiset Pointerpair) := by
    rw [← coe_middle, ← split_at_index oldAt]
  have shorter : (assoc.storage.take index ++ assoc.storage.drop (index + 1)).Sublist
      assoc.storage := by
    have sub := (List.Sublist.refl (assoc.storage.take index)).append
      (List.sublist_cons_self old (assoc.storage.drop (index + 1)))
    rwa [← split_at_index oldAt] at sub
  have length := shorter.length_le
  refine ⟨{ assoc with
    storage := assoc.storage.take index ++ assoc.storage.drop (index + 1) }, ?_, ?_⟩
  · rw [assocRemoveEquals]
    simp only [assocFirstEqual_self holds equates oldAt same,
      assocLastEqual_self holds equates oldAt same, Option.bind_eq_bind, Option.bind_some, one]
    rw [assocRemoveInRange, rangeValidateAgainstLength_one bound few,
      pointerpairarrayRemoveInRange, rangeValidateAgainstLength_one bound few, rangeMake]
    simp only [indexWord, UInt64.toNat_one]
    exact if_pos bound
  · constructor
    · exact fun pair member => holds.keys pair (shorter.subset member)
    · rw [unbindKey_pair equates same]
      exact holds.represents.drop parts
    · exact Nat.le_trans length fits
    · exact Nat.lt_of_le_of_lt length few
    · exact fun isSorted => (holds.sorted isSorted).sublist shorter

theorem unbindKey_absent (bound : bindings key = none) (holds : assoc.Holds callback compare bindings)
    (equates : callback.Equates) : unbindKey callback bindings key = bindings := by
  funext other
  unfold unbindKey
  split
  · rename_i same
    symm
    refine holds.represents.eq_none fun pair member answering => ?_
    have isBound := (holds.bound_iff key pair).mpr
      ⟨member, equates.trans _ _ _ (equates.symm _ _ same) answering⟩
    rw [bound] at isBound
    contradiction
  · rfl

theorem assocRemove_holds (holds : assoc.Holds callback compare bindings)
    (coincides : Coincides callback compare)
    (searchable : assoc.Searchable compare ⟨key, 0⟩) :
    ∃ next, assocRemove callback compare assoc key = some next ∧
      next.Holds callback compare (unbindKey callback bindings key) := by
  obtain ⟨sorted, done, sortedHolds, _, _, ⟨index, old, found, oldAt, same, _⟩ |
    ⟨missed, unbound⟩⟩ := holds.search coincides searchable
  · obtain ⟨next, removed, nextHolds⟩ :=
      assocRemoveEquals_holds sortedHolds coincides.equates oldAt same
    refine ⟨next, ?_, nextHolds⟩
    rw [assocRemove]
    simp only [done, found, removed, Option.bind_eq_bind, Option.bind_some]
  · refine ⟨sorted, ?_, ?_⟩
    · rw [assocRemove]
      simp only [done, missed, Option.bind_eq_bind, Option.bind_some]
    · rw [unbindKey_absent unbound sortedHolds coincides.equates]
      exact sortedHolds

/-! Adding what another assoc has. -/

def bindAbsent (callback : Keycallback) (keep : Pointerpair → Pointerpair) (bindings : PairBindings)
    (q : Pointerpair) : PairBindings :=
  match bindings q.key with
  | some _ => bindings
  | none => bindKey callback bindings q.key (keep q)

def absentCount (callback : Keycallback) (held : Pointer → Bool) : List Pointerpair → Nat
  | [] => 0
  | q :: rest =>
    if held q.key then absentCount callback held rest
    else absentCount callback (fun key => callback.isEqual key q.key || held key) rest + 1

def Assoc.has (callback : Keycallback) (assoc : Assoc) (key : Pointer) : Bool :=
  assoc.storage.any fun p => callback.isEqual key p.key

theorem Assoc.Holds.has_eq (holds : assoc.Holds callback compare bindings) :
    assoc.has callback = fun key => (bindings key).isSome := by
  funext key
  rw [Assoc.has, Bool.eq_iff_iff, List.any_eq_true, Option.isSome_iff_exists]
  constructor
  · rintro ⟨pair, member, same⟩
    exact ⟨pair, (holds.bound_iff key pair).mpr ⟨member, same⟩⟩
  · rintro ⟨pair, bound⟩
    exact ⟨pair, (holds.bound_iff key pair).mp bound⟩

theorem bindKey_isSome (key : Pointer) (new : Pointerpair) :
    (fun other => (bindKey callback bindings key new other).isSome) =
      fun other => callback.isEqual other key || (bindings other).isSome := by
  funext other
  unfold bindKey
  cases callback.isEqual other key with
  | true => rfl
  | false => rfl

theorem assocAddAbsent_found (holds : assoc.Holds callback compare bindings)
    (equates : callback.Equates) {q : Pointerpair} (isKey : IsKey callback q.key) {all : Range}
    (location : all.location = 0) (length : all.length.toNat = assoc.storage.length) :
    assocAddAbsent callback keep (assoc, all) q =
      if (bindings q.key).isSome then some (assoc, all)
      else (assocAdd callback keep assoc q).map fun next =>
        (next, { all with length := all.length + 1 }) := by
  rw [assocAddAbsent, pointerpairFindInRangeCallback, if_neg isKey.1,
    pointerpairScan_whole _ _ location length]
  have found := holds.findIdx?_isSome equates q.key
  cases scanned : assoc.storage.findIdx? fun p => callback.isEqual p.key q.key with
  | none =>
    rw [scanned] at found
    rw [← found]
    cases assocAdd callback keep assoc q with
    | none => rfl
    | some next => rfl
  | some index =>
    rw [scanned] at found
    rw [← found]
    rfl

theorem assocAddAbsent_loop (equates : callback.Equates) (keeps : KeepsKey callback keep) :
    ∀ (pairs : List Pointerpair) {assoc : Assoc} {bindings : PairBindings} {all : Range},
      assoc.Holds callback compare bindings → (∀ q ∈ pairs, IsKey callback q.key) →
      all.location = 0 → all.length.toNat = assoc.storage.length →
      assoc.storage.length + absentCount callback (fun key => (bindings key).isSome) pairs < 2 ^ 31 →
      ∃ next range, pairs.foldlM (assocAddAbsent callback keep) (assoc, all) = some (next, range) ∧
        next.Holds callback compare (pairs.foldl (bindAbsent callback keep) bindings) := by
  intro pairs
  induction pairs with
  | nil => exact fun {assoc _ all} holds _ _ _ _ => ⟨assoc, all, rfl, holds⟩
  | cons q rest ih =>
    intro assoc bindings all holds areKeys location length room
    have isKey := areKeys q List.mem_cons_self
    have restKeys := fun other member => areKeys other (List.mem_cons_of_mem q member)
    rw [List.foldlM_cons, assocAddAbsent_found holds equates isKey location length,
      List.foldl_cons, bindAbsent]
    rw [absentCount] at room
    cases bound : bindings q.key with
    | some old =>
      rw [bound, Option.isSome_some, if_pos rfl] at room
      rw [Option.isSome_some, if_pos rfl]
      exact ih holds restKeys location length room
    | none =>
      rw [bound, Option.isSome_none, if_neg Bool.false_ne_true] at room
      obtain ⟨next, added, nextHolds, appended⟩ :=
        assocAdd_holds holds equates keeps isKey bound (by omega)
      have nextLength : next.storage.length = assoc.storage.length + 1 := by
        rw [appended, List.length_append, List.length_singleton]
      rw [Option.isSome_none, if_neg Bool.false_ne_true, added]
      have few := nextHolds.few
      refine ih nextHolds restKeys location ?_ ?_
      · simp only
        rw [UInt64.toNat_add, length, UInt64.toNat_one, Nat.mod_eq_of_lt (by omega), nextLength]
      · rw [bindKey_isSome, nextLength]
        omega

def rangedPairs (other : Assoc) (range : Range) : List Pointerpair :=
  slice other.storage
    (rangeValidateAgainstLength range (UInt64.ofNat other.storage.length)).location.toNat
    (rangeValidateAgainstLength range (UInt64.ofNat other.storage.length)).length.toNat

theorem rangedPairs_subset (other : Assoc) (range : Range) :
    ∀ pair ∈ rangedPairs other range, pair ∈ other.storage :=
  fun _ member => List.mem_of_mem_drop (List.mem_of_mem_take member)

theorem assocAddAssocRange_holds (holds : assoc.Holds callback compare bindings)
    (equates : callback.Equates) (keeps : KeepsKey callback keep) {other : Assoc} (range : Range)
    (areKeys : ∀ pair ∈ other.storage, IsKey callback pair.key)
    (room : assoc.storage.length +
      absentCount callback (assoc.has callback) (rangedPairs other range) < 2 ^ 31) :
    ∃ next, assocAddAssocRange callback keep assoc other range = some next ∧
      next.Holds callback compare
        ((rangedPairs other range).foldl (bindAbsent callback keep) bindings) := by
  rw [holds.has_eq] at room
  rw [assocAddAssocRange]
  by_cases empty :
      (rangeValidateAgainstLength range (UInt64.ofNat other.storage.length)).length = 0
  · have none : rangedPairs other range = [] := by
      rw [rangedPairs, empty, slice, UInt64.toNat_zero, List.take_zero]
    rw [if_pos empty, none]
    exact ⟨assoc, rfl, holds⟩
  · have whole : (rangeMake 0 (UInt64.ofNat assoc.storage.length)).length.toNat =
        assoc.storage.length := holds.countWord
    obtain ⟨next, all, looped, nextHolds⟩ := assocAddAbsent_loop equates keeps
      (rangedPairs other range) holds
      (fun pair member => areKeys pair (rangedPairs_subset other range pair member)) rfl whole room
    rw [rangedPairs] at looped
    rw [if_neg empty]
    refine ⟨_, ?_, nextHolds.unsorted⟩
    simp only [looped, Option.bind_eq_bind, Option.bind_some]

theorem absentCount_zero {held : Pointer → Bool} : ∀ {pairs : List Pointerpair},
    (∀ q ∈ pairs, held q.key = true) → absentCount callback held pairs = 0 := by
  intro pairs
  induction pairs with
  | nil => exact fun _ => rfl
  | cons q rest ih =>
    intro present
    rw [absentCount, if_pos (present q List.mem_cons_self)]
    exact ih fun other member => present other (List.mem_cons_of_mem q member)

theorem bindAbsent_present : ∀ {pairs : List Pointerpair},
    (∀ q ∈ pairs, (bindings q.key).isSome = true) →
    pairs.foldl (bindAbsent callback keep) bindings = bindings := by
  intro pairs
  induction pairs with
  | nil => exact fun _ => rfl
  | cons q rest ih =>
    intro present
    obtain ⟨old, bound⟩ := Option.isSome_iff_exists.mp (present q List.mem_cons_self)
    rw [List.foldl_cons, bindAbsent, bound]
    exact ih fun other member => present other (List.mem_cons_of_mem q member)

theorem assocAddItself_holds (holds : assoc.Holds callback compare bindings)
    (equates : callback.Equates) (keeps : KeepsKey callback keep) (range : Range) :
    ∃ next, assocAddAssocRange callback keep assoc assoc range = some next ∧
      next.Holds callback compare bindings := by
  have present : ∀ pair ∈ rangedPairs assoc range, (bindings pair.key).isSome = true := by
    intro pair member
    rw [holds.bound_self equates (rangedPairs_subset assoc range pair member)]
    rfl
  have room := holds.few
  obtain ⟨next, done, nextHolds⟩ := assocAddAssocRange_holds holds equates keeps range holds.keys
    (by
      rw [holds.has_eq, absentCount_zero present]
      exact room)
  rw [bindAbsent_present present] at nextHolds
  exact ⟨next, done, nextHolds⟩

end Operations

end MulleCore
