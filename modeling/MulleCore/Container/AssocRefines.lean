import MulleCore.Library.Simulation
import MulleCore.Container.AssocHolds

/-!
An assoc over its runs, next to a finite map.
-/

namespace MulleCore

open Library

inductive AssocOp where
  | add (pair : Pointerpair) (keep : Pointerpair → Pointerpair)
  | set (pair : Pointerpair) (keep : Pointerpair → Pointerpair)
  | remove (key : Pointer)
  | setAtIndex (i : Nat) (pair : Pointerpair) (keep : Pointerpair → Pointerpair)
  | addAssocRange (other : Assoc) (range : Range) (keep : Pointerpair → Pointerpair)
  | addItself (range : Range) (keep : Pointerpair → Pointerpair)
  | reset
  | get (key : Pointer)

def assocStep (callback : Keycallback) (compare : Pointerpair → Pointerpair → Int) (assoc : Assoc) :
    AssocOp → Option Assoc
  | .add pair keep => assocAdd callback keep assoc pair
  | .set pair keep => assocSet callback compare keep assoc pair
  | .remove key => assocRemove callback compare assoc key
  | .setAtIndex i pair keep => assocSetAtIndex callback compare keep assoc i pair
  | .addAssocRange other range keep => assocAddAssocRange callback keep assoc other range
  | .addItself range keep => assocAddAssocRange callback keep assoc assoc range
  | .reset => some (assocReset assoc)
  | .get key => do
      let (next, _) ← assocGet compare assoc key
      some next

def AssocOp.Does (callback : Keycallback) (compare : Pointerpair → Pointerpair → Int)
    (op : AssocOp) (bindings next : PairBindings) : Prop :=
  match op with
  | .add pair keep => next = bindKey callback bindings pair.key (keep pair)
  | .set pair keep => next = bindKey callback bindings pair.key (keep pair)
  | .remove key => next = unbindKey callback bindings key
  | .setAtIndex i pair keep => ∃ old, BoundAt compare bindings i old ∧
      next = bindKey callback (unbindKey callback bindings old.key) pair.key (keep pair)
  | .addAssocRange other range keep =>
    next = (rangedPairs other range).foldl (bindAbsent callback keep) bindings
  | .addItself _ _ => next = bindings
  | .reset => next = fun _ => none
  | .get _ => next = bindings

/-- What a caller has to keep to, with fewer than 2^31 entries, and that the binary
searches do not overflow. -/
def AssocOp.Permitted (callback : Keycallback) (compare : Pointerpair → Pointerpair → Int)
    (assoc : Assoc) (op : AssocOp) : Prop :=
  match op with
  | .add pair keep => IsKey callback pair.key ∧ KeepsKey callback keep ∧
      assoc.has callback pair.key = false ∧ assoc.storage.length + 1 < 2 ^ 31
  | .set pair keep => IsKey callback pair.key ∧ KeepsKey callback keep ∧
      assoc.Searchable compare pair ∧
      (assoc.has callback pair.key = false → assoc.storage.length + 1 < 2 ^ 31)
  | .remove key => assoc.Searchable compare ⟨key, 0⟩
  | .setAtIndex i pair keep => IsKey callback pair.key ∧ KeepsKey callback keep ∧
      assoc.has callback pair.key = false ∧ i < assoc.storage.length
  | .addAssocRange other range keep => KeepsKey callback keep ∧
      (∀ pair ∈ other.storage, IsKey callback pair.key) ∧
      assoc.storage.length +
        absentCount callback (assoc.has callback) (rangedPairs other range) < 2 ^ 31
  | .addItself _ keep => KeepsKey callback keep
  | .reset => True
  | .get key => assoc.Searchable compare ⟨key, 0⟩

def pointerpairComparePointerKey (a b : Pointerpair) : Int :=
  (if a.key > b.key then 1 else 0) - (if a.key < b.key then 1 else 0)

section Runs

variable {callback : Keycallback} {compare : Pointerpair → Pointerpair → Int}

theorem Assoc.Holds.absent {assoc : Assoc} {bindings : PairBindings}
    (holds : assoc.Holds callback compare bindings) {key : Pointer}
    (missing : assoc.has callback key = false) : bindings key = none := by
  rw [holds.has_eq] at missing
  exact Option.isNone_iff_eq_none.mp (Option.isSome_eq_false_iff.mp missing)

theorem assocStep_follows (coincides : Coincides callback compare) (bindings : PairBindings)
    (assoc : Assoc) (op : AssocOp) (holds : assoc.Holds callback compare bindings)
    (permitted : op.Permitted callback compare assoc) :
    ∃ next specNext, assocStep callback compare assoc op = some next ∧
      op.Does callback compare bindings specNext ∧ next.Holds callback compare specNext := by
  have equates := coincides.equates
  cases op with
  | add pair keep =>
    obtain ⟨isKey, keeps, missing, room⟩ := permitted
    obtain ⟨next, done, nextHolds, _⟩ :=
      assocAdd_holds holds equates keeps isKey (holds.absent missing) room
    exact ⟨next, _, done, rfl, nextHolds⟩
  | set pair keep =>
    obtain ⟨isKey, keeps, searchable, room⟩ := permitted
    obtain ⟨next, done, nextHolds⟩ := assocSet_holds holds coincides keeps isKey searchable (by
      intro unbound
      apply room
      simp only [holds.has_eq, unbound, Option.isSome_none])
    exact ⟨next, _, done, rfl, nextHolds⟩
  | remove key =>
    obtain ⟨next, done, nextHolds⟩ := assocRemove_holds holds coincides permitted
    exact ⟨next, _, done, rfl, nextHolds⟩
  | setAtIndex i pair keep =>
    obtain ⟨isKey, keeps, missing, inside⟩ := permitted
    obtain ⟨next, old, done, boundAt, nextHolds⟩ :=
      assocSetAtIndex_holds holds coincides keeps isKey (holds.absent missing) inside
    exact ⟨next, _, done, ⟨old, boundAt, rfl⟩, nextHolds⟩
  | addAssocRange other range keep =>
    obtain ⟨keeps, areKeys, room⟩ := permitted
    obtain ⟨next, done, nextHolds⟩ :=
      assocAddAssocRange_holds holds equates keeps range areKeys room
    exact ⟨next, _, done, rfl, nextHolds⟩
  | addItself range keep =>
    obtain ⟨next, done, nextHolds⟩ := assocAddItself_holds holds equates permitted range
    exact ⟨next, _, done, rfl, nextHolds⟩
  | reset => exact ⟨_, _, rfl, rfl, assocReset_holds assoc⟩
  | get key =>
    obtain ⟨next, done, nextHolds⟩ := assocGet_holds holds coincides permitted
    refine ⟨next, _, ?_, rfl, nextHolds⟩
    simp only [assocStep, done, Option.bind_eq_bind, Option.bind_some]

/-- A run whose binary searches do not overflow does what the finite map does. -/
theorem assocRun_refines_searchable (coincides : Coincides callback compare) {capacity : Nat}
    {ops : List AssocOp} (permitted : PermittedFrom (assocStep callback compare)
      (fun assoc op => op.Permitted callback compare assoc) (assocInit capacity) ops) :
    ∃ final bindings, ops.foldlM (assocStep callback compare) (assocInit capacity) = some final ∧
      Reaches (AssocOp.Does callback compare) (fun _ => none) ops bindings ∧
      (∀ key, final.Searchable compare ⟨key, 0⟩ →
        ∃ sorted, assocGet compare final key = some (sorted, boundValue (bindings key))) ∧
      (∀ key pair, bindings key = some pair ↔
        pair ∈ final.storage ∧ callback.isEqual key pair.key = true) ∧
      (final.storage.Pairwise fun one other => callback.isEqual one.key other.key = false) ∧
      (final.isSorted = true → final.storage.Pairwise fun one other => compare one other ≤ 0) := by
  obtain ⟨final, bindings, finished, reached, holds⟩ :=
    foldlM_reaches (assocStep_follows coincides) ops (fun _ => none) (assocInit capacity)
      (assocInit_holds capacity) permitted
  refine ⟨final, bindings, finished, reached, ?_, holds.bound_iff, holds.apart coincides.equates,
    holds.sorted⟩
  intro key searchable
  obtain ⟨sorted, got, _⟩ := assocGet_holds holds coincides searchable
  exact ⟨sorted, got⟩

theorem pointerpairComparePointerKey_sign (a b : Pointerpair) :
    (pointerpairComparePointerKey a b < 0 ↔ a.key.toNat < b.key.toNat) ∧
      (pointerpairComparePointerKey a b = 0 ↔ a.key.toNat = b.key.toNat) := by
  unfold pointerpairComparePointerKey
  simp only [gt_iff_lt, UInt64.lt_iff_toNat_lt]
  split_ifs <;> omega

theorem pointerKeycallback_coincides :
    Coincides pointerKeycallback pointerpairComparePointerKey where
  order := by
    constructor
    · intro left right
      have forth := pointerpairComparePointerKey_sign left right
      have back := pointerpairComparePointerKey_sign right left
      omega
    · intro left middle right first second
      have one := pointerpairComparePointerKey_sign left middle
      have two := pointerpairComparePointerKey_sign middle right
      have across := pointerpairComparePointerKey_sign left right
      omega
  zero := by
    intro one other
    rw [(pointerpairComparePointerKey_sign one other).2, pointerKeycallback, beq_iff_eq,
      UInt64.toNat_inj]

theorem keepsKey_id (equates : callback.Equates) : KeepsKey callback id :=
  fun pair isKey => ⟨isKey, equates.refl pair.key⟩

theorem assocRun_refines_searchable_set :
    ∃ final, [AssocOp.add ⟨7, 70⟩ id, .set ⟨7, 71⟩ id, .get 7].foldlM
        (assocStep pointerKeycallback pointerpairComparePointerKey) (assocInit 0) = some final ∧
      final.storage.Pairwise fun one other =>
        pointerKeycallback.isEqual one.key other.key = false := by
  have keeps := keepsKey_id pointerKeycallback_coincides.equates
  obtain ⟨final, _, finished, _, _, _, apart, _⟩ := @assocRun_refines_searchable _ _
    pointerKeycallback_coincides 0 [.add ⟨7, 70⟩ id, .set ⟨7, 71⟩ id, .get 7]
    ⟨⟨⟨by decide, by decide⟩, keeps, rfl, by decide⟩, fun added stepped => by
      cases stepped
      refine ⟨⟨⟨by decide, by decide⟩, keeps, Assoc.searchable_of_few (by decide),
        fun _ => by decide⟩, fun replaced stepped => ?_⟩
      cases stepped
      exact ⟨Assoc.searchable_of_few (by decide), fun _ _ => trivial⟩⟩
  exact ⟨final, finished, apart⟩

def risingPair (i : Nat) : Pointerpair := ⟨UInt64.ofNat (i + 1), 0⟩

theorem risingPair_key {i : Nat} (bound : i < 2 ^ 31) : (risingPair i).key.toNat = i + 1 :=
  UInt64.toNat_ofNat_of_lt' (show _ < 2 ^ 64 by omega)

theorem risingRun : ∀ count, count < 2 ^ 31 →
    ∃ final bindings, ((List.range count).map fun i => AssocOp.add (risingPair i) id).foldlM
        (assocStep pointerKeycallback pointerpairComparePointerKey) (assocInit 0) = some final ∧
      final.storage = (List.range count).map risingPair ∧
      final.Holds pointerKeycallback pointerpairComparePointerKey bindings := by
  intro count
  induction count with
  | zero => exact fun _ => ⟨assocInit 0, _, rfl, rfl, assocInit_holds 0⟩
  | succ count ih =>
    intro bound
    obtain ⟨final, bindings, finished, stored, holds⟩ := ih (by omega)
    have key := risingPair_key (show count < 2 ^ 31 by omega)
    have isKey : IsKey pointerKeycallback (risingPair count).key := by
      have proper : (risingPair count).key ≠ notAPointer := by
        intro same
        rw [same] at key
        have large : notAPointer.toNat = 2 ^ 63 := rfl
        omega
      exact ⟨proper, proper⟩
    have absent : bindings (risingPair count).key = none := by
      refine holds.represents.eq_none fun pair member answering => ?_
      rw [Multiset.mem_coe, stored] at member
      obtain ⟨i, inside, rfl⟩ := List.mem_map.mp member
      have before := List.mem_range.mp inside
      have other := risingPair_key (show i < 2 ^ 31 by omega)
      rw [answersKey, pointerKeycallback, beq_iff_eq] at answering
      rw [answering] at key
      omega
    have length : final.storage.length = count := by
      rw [stored, List.length_map, List.length_range]
    obtain ⟨next, added, nextHolds, appended⟩ := assocAdd_holds holds
      pointerKeycallback_coincides.equates (keepsKey_id pointerKeycallback_coincides.equates)
      isKey absent (by rw [length]; exact bound)
    refine ⟨next, _, ?_, ?_, nextHolds⟩
    · rw [List.range_succ, List.map_append, List.foldlM_append, finished, List.map_singleton,
        Option.bind_eq_bind, Option.bind_some, List.foldlM_cons, assocStep, added]
      rfl
    · rw [appended, stored, List.range_succ, List.map_append, List.map_singleton]
      rfl

/-- With 2^30 + 1 keys, 1 and up, the search for a key above all of them overflows. -/
theorem assocGet_overflows :
    ∃ final, ((List.range (2 ^ 30 + 1)).map fun i => AssocOp.add (risingPair i) id).foldlM
        (assocStep pointerKeycallback pointerpairComparePointerKey) (assocInit 0) = some final ∧
      final.storage.length = 2 ^ 30 + 1 ∧
      (∀ pair ∈ final.storage, pair.key ≠ 0x80000000) ∧
      assocGet pointerpairComparePointerKey final 0x80000000 = none := by
  obtain ⟨final, bindings, finished, stored, holds⟩ := risingRun (2 ^ 30 + 1) (by decide)
  have length : final.storage.length = 2 ^ 30 + 1 := by
    rw [stored, List.length_map, List.length_range]
  have below : ∀ pair ∈ final.storage, pair.key.toNat < 2 ^ 31 := by
    intro pair member
    rw [stored] at member
    obtain ⟨i, inside, rfl⟩ := List.mem_map.mp member
    have before := List.mem_range.mp inside
    rw [risingPair_key (by omega)]
    omega
  have searched : (0x80000000 : Pointer).toNat = 2 ^ 31 := rfl
  refine ⟨final, finished, length, ?_, ?_⟩
  · intro pair member same
    have bound := below pair member
    rw [same, searched] at bound
    exact absurd bound (Nat.lt_irrefl _)
  · obtain ⟨storage, done, perm, ordered⟩ :=
      assocQsortIfNeeded_some pointerKeycallback_coincides.order holds.sorted
    have place : pairsBelow pointerpairComparePointerKey storage ⟨0x80000000, 0⟩ = 2 ^ 30 + 1 := by
      rw [← length, ← perm.length_eq]
      refine List.countP_eq_length.mpr fun pair member => ?_
      rw [decide_eq_true_iff, (pointerpairComparePointerKey_sign _ _).1, searched]
      exact below pair (perm.mem_iff.mp member)
    have overflows : pointerpairBsearch pointerpairComparePointerKey storage ⟨0x80000000, 0⟩ =
        none := by
      refine pointerpairBsearch_overflows pointerKeycallback_coincides.order ordered ?_ ?_
      · rw [perm.length_eq, length]
        decide
      · rw [perm.length_eq, length, place]
        intro fit
        exact absurd (fit 31 (by decide)) (by decide)
    rw [assocGet]
    simp only [done, overflows, Option.bind_eq_bind, Option.bind_some, Option.bind_none]

end Runs

end MulleCore
