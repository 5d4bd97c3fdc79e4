import MulleCore.Container.StructarrayRefines
import MulleCore.Library.Pool
import MulleCore.Container.PointerarrayRuns

/-!
`mulle-indexedstorage.h`. The freed indexes are pushed on `_freed` as pointers, one higher
than they are.
-/

namespace MulleCore

open Library

def structarrayReserve (array : Structarray) (fresh : Nat → UInt8) : Option (Structarray × Nat) := do
  let array ← structarrayGuarantee array 1 fresh
  some ({ array with curr := (array.curr + array.sizeofStruct) % 2 ^ 64 }, array.curr)

structure MulleIndexedstorage where
  structs : Structarray
  memory : PointerMemory
  freed : Pointerarray

def indexedstorageInit (type : StructType) (capacity : UInt32) (memory : PointerMemory)
    (fresh : Nat → UInt8) (freshPointers : Nat → Pointer) : Option MulleIndexedstorage := do
  let structs ← structarrayInit type.sizeof type.alignof capacity.toNat fresh
  let (memory, freed) ← pointerarrayInit memory (capacity / 32).toNat freshPointers
  some ⟨structs, memory, freed⟩

section Indexedstorage

variable (alloc : MulleIndexedstorage)

def indexedstorageAlloc (fresh : Nat → UInt8) : Option (MulleIndexedstorage × UInt32) := do
  let (freed, index1) ← pointerarrayPop alloc.memory alloc.freed
  if index1 ≠ 0 then some ({ alloc with freed := freed }, (index1 - 1).toUInt32)
  else do
    let index := structarrayGetCount alloc.structs
    let (structs, _) ← structarrayReserve alloc.structs fresh
    some ({ alloc with structs := structs, freed := freed }, UInt32.ofNat index)

/-- The sum wraps in an `unsigned int` before it becomes a pointer. -/
def indexedstoragePointer (index : UInt32) : Pointer := (index + 1).toUInt64

def indexedstorageFree (index : UInt32) (freshPointers : Nat → Pointer) :
    Option MulleIndexedstorage :=
  let index1 := indexedstoragePointer index
  if index.toNat < structarrayGetCount alloc.structs then do
    let found ← pointerarrayFind alloc.memory alloc.freed index1
    if found = notFound then do
      let (memory, freed) ← pointerarrayAdd alloc.memory alloc.freed freshPointers index1
      some { alloc with memory := memory, freed := freed }
    else none
  else none

def indexedstorageGetCount : Nat :=
  wordSub (structarrayGetCount alloc.structs) (pointerarrayGetCount alloc.freed)

end Indexedstorage

theorem structarrayReserve_holds {array : Structarray} {stride width : Nat}
    {items : List (List UInt8)} (holds : array.Holds stride width items)
    (bound : (items.length + 1) * stride < 2 ^ 63) (fresh : Nat → UInt8) :
    ∃ next offset added, structarrayReserve array fresh = some (next, offset) ∧
      next.Holds stride width (items ++ [added]) := by
  obtain ⟨roomy, guaranteed, roomyHolds, room⟩ := structarrayGuarantee_holds holds bound fresh
  obtain ⟨added, single, grown⟩ := roomyHolds.extend bound room
  obtain ⟨item, rfl⟩ := List.length_eq_one_iff.mp single
  have moved : (items.length * stride + stride) % 2 ^ 64 = (items.length + 1) * stride := by
    rw [Nat.add_mul, Nat.one_mul] at bound ⊢
    exact Nat.mod_eq_of_lt (bound.trans (by decide))
  refine ⟨_, items.length * stride, item, ?_, grown⟩
  simp only [structarrayReserve, guaranteed, Option.bind_eq_bind, Option.bind_some,
    roomyHolds.counted, roomyHolds.sized, moved]

section Indexes

variable {index other : UInt32}

theorem indexedstoragePointer_toNat (index : UInt32) :
    (indexedstoragePointer index).toNat = (index.toNat + 1) % 2 ^ 32 := by
  rw [indexedstoragePointer, UInt32.toNat_toUInt64, UInt32.toNat_add]
  rfl

theorem indexedstoragePointer_inj : indexedstoragePointer index = indexedstoragePointer other ↔
    index = other := by
  have small := index.toNat_lt
  have otherSmall := other.toNat_lt
  rw [← UInt64.toNat_inj, ← UInt32.toNat_inj, indexedstoragePointer_toNat,
    indexedstoragePointer_toNat]
  omega

theorem indexedstoragePointer_index (proper : indexedstoragePointer index ≠ 0) :
    (indexedstoragePointer index - 1).toUInt32 = index := by
  have small := index.toNat_lt
  have pointer := indexedstoragePointer_toNat index
  have positive : (indexedstoragePointer index).toNat ≠ 0 :=
    fun zero => proper (UInt64.toNat_inj.mp zero)
  have one : (1 : UInt64).toNat = 1 := rfl
  have least : (1 : UInt64) ≤ indexedstoragePointer index := by
    rw [UInt64.le_iff_toNat_le, one]
    omega
  rw [← UInt32.toNat_inj, UInt64.toNat_toUInt32, UInt64.toNat_sub_of_le _ _ least, one]
  omega

end Indexes

/-!
An indexed storage next to the indexes that its client holds.
-/

structure IndexedstorageRun where
  alloc : MulleIndexedstorage
  live : List UInt32

inductive IndexedstorageOp where
  | alloc (fresh : Nat → UInt8)
  | free (index : UInt32) (freshPointers : Nat → Pointer)

section Statement

variable (run : IndexedstorageRun)

def indexedstorageStep : IndexedstorageOp → Option (IndexedstorageRun × Option UInt32)
  | .alloc fresh => (indexedstorageAlloc run.alloc fresh).map fun (alloc, index) =>
    (⟨alloc, index :: run.live⟩, some index)
  | .free index freshPointers => (indexedstorageFree run.alloc index freshPointers).map fun alloc =>
    (⟨alloc, run.live.erase index⟩, none)

def indexedstorageNext (op : IndexedstorageOp) : Option IndexedstorageRun :=
  (indexedstorageStep run op).map Prod.fst

def indexedstorageReuses (alloc : MulleIndexedstorage) : Prop :=
  pointerarrayGetCount alloc.freed ≠ 0 ∧
    pointerarrayGet alloc.memory alloc.freed (pointerarrayGetCount alloc.freed - 1) ≠ some 0

instance (alloc : MulleIndexedstorage) : Decidable (indexedstorageReuses alloc) :=
  inferInstanceAs (Decidable (_ ∧ _))

def indexedstoragePermits : IndexedstorageOp → Prop
  | .alloc _ => indexedstorageReuses run.alloc ∨
      (structarrayGetCount run.alloc.structs + 1) * run.alloc.structs.sizeofStruct < 2 ^ 63
  | .free index _ => index ∈ run.live

structure IndexedstorageOk (run : IndexedstorageRun) : Prop where
  distinct : run.live.Nodup
  within : ∀ index ∈ run.live, index.toNat < structarrayGetCount run.alloc.structs
  counted : indexedstorageGetCount run.alloc = run.live.length

def indexedstorageStays (next : IndexedstorageRun) : IndexedstorageOp → Prop
  | .alloc _ => run.live.length < structarrayGetCount run.alloc.structs →
      next.alloc.structs = run.alloc.structs
  | .free _ _ => True

def indexedstorageSafe (op : IndexedstorageOp) : Prop :=
  ∃ next answer, indexedstorageStep run op = some (next, answer) ∧ IndexedstorageOk next ∧
    indexedstorageStays run next op

/-- The index that was freed last is not the last one there is, and without freed indexes
there is another one to make. -/
def indexedstorageHasIndex : IndexedstorageOp → Prop
  | .alloc _ => indexedstorageReuses run.alloc ∨
      pointerarrayGetCount run.alloc.freed = 0 ∧ structarrayGetCount run.alloc.structs < 2 ^ 32
  | .free _ _ => True

instance : DecidablePred (indexedstoragePermits run)
  | .alloc _ => inferInstanceAs (Decidable (_ ∨ _))
  | .free index _ => inferInstanceAs (Decidable (index ∈ run.live))

instance : DecidablePred (indexedstorageHasIndex run)
  | .alloc _ => inferInstanceAs (Decidable (_ ∨ _ ∧ _))
  | .free _ _ => inferInstanceAs (Decidable True)

end Statement

section Indexes

def indexesUpTo (count : Nat) : List UInt32 := (List.range count).map UInt32.ofNat

variable {count : Nat}

@[simp]
theorem indexesUpTo_length : (indexesUpTo count).length = count := by
  rw [indexesUpTo, List.length_map, List.length_range]

theorem indexesUpTo_succ : indexesUpTo (count + 1) = indexesUpTo count ++ [UInt32.ofNat count] := by
  rw [indexesUpTo, List.range_succ, List.map_append]
  rfl

theorem mem_indexesUpTo (small : count ≤ 2 ^ 32) {index : UInt32} :
    index ∈ indexesUpTo count ↔ index.toNat < count := by
  rw [indexesUpTo, List.mem_map]
  constructor
  · rintro ⟨position, inside, rfl⟩
    rw [List.mem_range] at inside
    rwa [UInt32.toNat_ofNat_of_lt' (show position < 2 ^ 32 by omega)]
  · intro inside
    exact ⟨index.toNat, List.mem_range.mpr inside, UInt32.ofNat_toNat⟩

end Indexes

section Invariant

variable {index : UInt32} {fresh : Nat → UInt8} {op : IndexedstorageOp}

structure IndexedstorageHolds (stride width : Nat) (items : List (List UInt8)) (indexes : List UInt32)
    (run : IndexedstorageRun) : Prop where
  structs : run.alloc.structs.Holds stride width items
  freed : ArrayHolds run.alloc.memory run.alloc.freed (indexes.map indexedstoragePointer)
  small : items.length ≤ 2 ^ 32
  serves : Pool.Serves ⟨indexesUpTo items.length, indexes⟩ run.live

def IndexedstorageGood (run : IndexedstorageRun) : Prop :=
  ∃ stride width items indexes, IndexedstorageHolds stride width items indexes run

variable {stride width : Nat} {items : List (List UInt8)} {indexes : List UInt32}
  {run : IndexedstorageRun}

section

variable (holds : IndexedstorageHolds stride width items indexes run)
include holds

theorem IndexedstorageHolds.freed_count :
    pointerarrayGetCount run.alloc.freed = indexes.length := by
  rw [holds.freed.count_eq, List.length_map]

theorem IndexedstorageHolds.made_count :
    run.live.length + indexes.length = items.length := by
  simpa using holds.serves.counts

theorem IndexedstorageHolds.ok :
    IndexedstorageOk run where
  distinct := holds.serves.live_distinct
  within index member := by
    rw [holds.structs.getCount]
    exact (mem_indexesUpTo holds.small).mp (holds.serves.live_made member)
  counted := by
    have made := holds.made_count
    rw [indexedstorageGetCount, holds.structs.getCount, holds.freed_count, wordSub_eq (by omega)]
    omega

theorem IndexedstorageHolds.reuses_iff :
    indexedstorageReuses run.alloc ↔ (indexes.map indexedstoragePointer).getLast?.getD 0 ≠ 0 := by
  rw [indexedstorageReuses, holds.freed.count_eq]
  rcases List.eq_nil_or_concat' (indexes.map indexedstoragePointer) with empty | ⟨front, last, parts⟩
  · simp [empty]
  · have freed := holds.freed
    rw [parts] at freed ⊢
    have inside : front.length < (front ++ [last]).length := by simp
    have top := freed.get inside
    rw [List.length_append, List.length_singleton, Nat.add_sub_cancel, top]
    simp

theorem IndexedstorageHolds.alloc_grows
    (top : (indexes.map indexedstoragePointer).getLast?.getD 0 = 0)
    (bound : (items.length + 1) * stride < 2 ^ 63) (fresh : Nat → UInt8) :
    ∃ structs freed added, indexedstorageAlloc run.alloc fresh =
        some ({ run.alloc with structs := structs, freed := freed }, UInt32.ofNat items.length) ∧
      structs.Holds stride width (items ++ [added]) ∧
      ArrayHolds run.alloc.memory freed (indexes.map indexedstoragePointer).dropLast := by
  obtain ⟨freed, popped, popHolds, _⟩ := holds.freed.pop
  obtain ⟨structs, offset, added, reserved, grown⟩ :=
    structarrayReserve_holds holds.structs bound fresh
  refine ⟨structs, freed, added, ?_, grown, popHolds⟩
  simp only [indexedstorageAlloc, popped, top, reserved, holds.structs.getCount, Option.bind_eq_bind,
    Option.bind_some, ne_eq, not_true_eq_false, if_false]

end

theorem IndexedstorageHolds.alloc_reuses
    (holds : IndexedstorageHolds stride width items (indexes ++ [index]) run)
    (proper : indexedstoragePointer index ≠ 0) (fresh : Nat → UInt8) :
    ∃ freed, indexedstorageAlloc run.alloc fresh = some ({ run.alloc with freed := freed }, index) ∧
      IndexedstorageHolds stride width items indexes ⟨{ run.alloc with freed := freed },
        index :: run.live⟩ := by
  obtain ⟨freed, popped, popHolds, _⟩ := holds.freed.pop
  simp only [List.map_append, List.map_singleton, List.getLast?_concat, Option.getD_some,
    List.dropLast_concat] at popped popHolds
  refine ⟨freed, ?_, holds.structs, popHolds, holds.small, holds.serves.reuse⟩
  simp only [indexedstorageAlloc, popped, indexedstoragePointer_index proper, Option.bind_eq_bind,
    Option.bind_some, ne_eq, proper, not_false_eq_true, if_true]

theorem IndexedstorageHolds.alloc_makes (holds : IndexedstorageHolds stride width items [] run)
    (another : items.length < 2 ^ 32) (bound : (items.length + 1) * stride < 2 ^ 63)
    (fresh : Nat → UInt8) :
    ∃ next added, indexedstorageAlloc run.alloc fresh = some (next, UInt32.ofNat items.length) ∧
      IndexedstorageHolds stride width (items ++ [added]) []
        ⟨next, UInt32.ofNat items.length :: run.live⟩ := by
  obtain ⟨structs, freed, added, allocated, grown, popHolds⟩ := holds.alloc_grows rfl bound fresh
  have new : UInt32.ofNat items.length ∉ indexesUpTo items.length := by
    rw [mem_indexesUpTo holds.small, UInt32.toNat_ofNat_of_lt' another]
    exact Nat.lt_irrefl _
  refine ⟨_, added, allocated, grown, popHolds, ?_, ?_⟩
  · rw [List.length_append, List.length_singleton]
    exact another
  · rw [List.length_append, List.length_singleton, indexesUpTo_succ]
    exact holds.serves.make new

theorem IndexedstorageHolds.free (holds : IndexedstorageHolds stride width items indexes run)
    (member : index ∈ run.live) (freshPointers : Nat → Pointer) :
    ∃ next, indexedstorageFree run.alloc index freshPointers = some next ∧
      IndexedstorageHolds stride width items (indexes ++ [index]) ⟨next, run.live.erase index⟩ := by
  have unfreed : (indexes.map indexedstoragePointer).idxOf? (indexedstoragePointer index) = none := by
    rw [List.idxOf?_eq_none_iff]
    intro found
    obtain ⟨other, free, same⟩ := List.mem_map.mp found
    rw [indexedstoragePointer_inj] at same
    exact holds.serves.not_freed member (same ▸ free)
  have room : run.alloc.freed.curr = run.alloc.freed.sentinel →
      Allocatable (run.alloc.freed.sentinel * 2) := by
    intro full
    have curr := holds.freed.curr_eq
    have made := holds.made_count
    have small := holds.small
    rw [List.length_map] at curr
    rw [Allocatable]
    omega
  obtain ⟨memory, freed, added, grown, _⟩ :=
    holds.freed.add freshPointers (indexedstoragePointer index) room
  refine ⟨{ run.alloc with memory := memory, freed := freed }, ?_, holds.structs, ?_, holds.small,
    holds.serves.free member⟩
  · simp only [indexedstorageFree, if_pos (holds.ok.within index member), holds.freed.find, unfreed,
      Option.elim_none, Option.bind_eq_bind, Option.bind_some, if_true, added]
  · rw [List.map_append]
    exact grown

theorem IndexedstorageHolds.alloc_wraps (holds : IndexedstorageHolds stride width items [] run)
    (all : items.length = 2 ^ 32) : UInt32.ofNat items.length ∈ run.live := by
  apply holds.serves.all_live.mem_iff.mpr
  rw [mem_indexesUpTo holds.small, all]
  decide

/-- An allocation is safe just where there is an index left for it. -/
theorem IndexedstorageHolds.alloc_iff (holds : IndexedstorageHolds stride width items indexes run)
    (permitted : indexedstoragePermits run (.alloc fresh)) :
    indexedstorageSafe run (.alloc fresh) ↔ indexedstorageHasIndex run (.alloc fresh) := by
  have sizes : indexedstorageReuses run.alloc ∨ (items.length + 1) * stride < 2 ^ 63 := by
    rwa [← holds.structs.getCount, ← holds.structs.sized]
  have notFull : indexedstorageHasIndex run (.alloc fresh) ↔
      indexedstorageReuses run.alloc ∨ indexes.length = 0 ∧ items.length < 2 ^ 32 := by
    rw [← holds.freed_count, ← holds.structs.getCount]
    rfl
  rw [notFull, holds.reuses_iff]
  rw [holds.reuses_iff] at sizes
  rcases List.eq_nil_or_concat' indexes with rfl | ⟨rest, index, rfl⟩
  · -- nothing is free, so an index is made
    have bound := sizes.resolve_left (fun reuses => reuses rfl)
    constructor
    · rintro ⟨next, answer, stepped, ok, _⟩
      refine .inr ⟨rfl, ?_⟩
      by_contra full
      obtain ⟨structs, freed, added, allocated, _⟩ := holds.alloc_grows rfl bound fresh
      have wraps := holds.alloc_wraps (Nat.le_antisymm holds.small (Nat.not_lt.mp full))
      simp only [indexedstorageStep, allocated, Option.map_some, Option.some.injEq,
        Prod.mk.injEq] at stepped
      obtain ⟨rfl, _⟩ := stepped
      exact (List.nodup_cons.mp ok.distinct).1 wraps
    · rintro (reuses | ⟨_, another⟩)
      · exact absurd rfl reuses
      · obtain ⟨next, added, allocated, kept⟩ := holds.alloc_makes another bound fresh
        refine ⟨_, _, by rw [indexedstorageStep, allocated]; rfl, kept.ok, fun free => ?_⟩
        have made := holds.made_count
        rw [holds.structs.getCount] at free
        rw [List.length_nil] at made
        omega
  · have top : ((rest ++ [index]).map indexedstoragePointer).getLast?.getD 0 =
        indexedstoragePointer index := by
      simp
    rw [top] at sizes ⊢
    constructor
    · rintro ⟨next, answer, stepped, _, stays⟩
      left
      intro null
      obtain ⟨structs, freed, added, allocated, grown, _⟩ :=
        holds.alloc_grows (top.trans null) (sizes.resolve_left (fun proper => proper null)) fresh
      simp only [indexedstorageStep, allocated, Option.map_some, Option.some.injEq,
        Prod.mk.injEq] at stepped
      obtain ⟨rfl, _⟩ := stepped
      have made := holds.made_count
      have free : run.live.length < structarrayGetCount run.alloc.structs := by
        rw [holds.structs.getCount]
        simp at made
        omega
      have same := congrArg structarrayGetCount (stays free)
      simp only [grown.getCount, holds.structs.getCount, List.length_append,
        List.length_singleton] at same
      omega
    · rintro (proper | ⟨empty, _⟩)
      · obtain ⟨freed, allocated, kept⟩ := holds.alloc_reuses proper fresh
        exact ⟨_, _, by rw [indexedstorageStep, allocated]; rfl, kept.ok, fun _ => rfl⟩
      · simp at empty

theorem IndexedstorageGood.safe_iff (good : IndexedstorageGood run)
    (permitted : indexedstoragePermits run op) : indexedstorageSafe run op ↔
    indexedstorageHasIndex run op := by
  obtain ⟨stride, width, items, indexes, holds⟩ := good
  cases op with
  | alloc fresh => exact holds.alloc_iff permitted
  | free index freshPointers =>
    obtain ⟨next, freed, kept⟩ := holds.free permitted freshPointers
    exact iff_of_true ⟨_, none, by rw [indexedstorageStep, freed]; rfl, kept.ok, trivial⟩ trivial

theorem IndexedstorageGood.step (good : IndexedstorageGood run) {next : IndexedstorageRun}
    (permitted : indexedstoragePermits run op) (has : indexedstorageHasIndex run op)
    (stepped : indexedstorageNext run op = some next) : IndexedstorageGood next := by
  obtain ⟨stride, width, items, indexes, holds⟩ := good
  cases op with
  | alloc fresh =>
    rcases List.eq_nil_or_concat' indexes with rfl | ⟨rest, index, rfl⟩
    · have none : ¬ indexedstorageReuses run.alloc := by
        rw [holds.reuses_iff]
        exact fun reuses => reuses rfl
      have bound := permitted.resolve_left none
      have another := (has.resolve_left none).2
      rw [holds.structs.getCount] at another bound
      rw [holds.structs.sized] at bound
      obtain ⟨after, added, allocated, kept⟩ := holds.alloc_makes another bound fresh
      rw [indexedstorageNext, indexedstorageStep, allocated] at stepped
      cases stepped
      exact ⟨_, _, _, _, kept⟩
    · have proper : indexedstoragePointer index ≠ 0 := by
        rcases has with reuses | ⟨empty, _⟩
        · rw [holds.reuses_iff] at reuses
          simpa using reuses
        · rw [holds.freed_count] at empty
          simp at empty
      obtain ⟨freed, allocated, kept⟩ := holds.alloc_reuses proper fresh
      rw [indexedstorageNext, indexedstorageStep, allocated] at stepped
      cases stepped
      exact ⟨_, _, _, _, kept⟩
  | free index freshPointers =>
    obtain ⟨after, freed, kept⟩ := holds.free permitted freshPointers
    rw [indexedstorageNext, indexedstorageStep, freed] at stepped
    cases stepped
    exact ⟨_, _, _, _, kept⟩

theorem indexedstorageInit_good {type : StructType} {capacity : UInt32} {memory : PointerMemory}
    {freshPointers : Nat → Pointer} {alloc : MulleIndexedstorage}
    (begins : indexedstorageInit type capacity memory fresh freshPointers = some alloc) :
    IndexedstorageGood ⟨alloc, []⟩ := by
  have small : (capacity / 32).toNat < 2 ^ 61 := by
    have bound := (capacity / 32).toNat_lt
    omega
  obtain ⟨memory', freed, started, freedHolds, _⟩ :=
    arrayStart_holds memory (.heap _ small freshPointers)
  rw [arrayStart] at started
  cases structs : structarrayInit type.sizeof type.alignof capacity.toNat fresh with
  | none =>
    rw [indexedstorageInit, structs] at begins
    cases begins
  | some array =>
    rw [indexedstorageInit, structs, Option.bind_eq_bind, Option.bind_some, started] at begins
    cases begins
    exact ⟨_, _, [], [], structarrayInit_holds type.aligned structs, freedHolds, Nat.zero_le _,
      Pool.empty_serves⟩

theorem indexedstorageRun_safe_iff (good : IndexedstorageGood run) {ops : List IndexedstorageOp}
    (permitted : PermittedFrom indexedstorageNext indexedstoragePermits run ops) :
    PermittedFrom indexedstorageNext indexedstorageSafe run ops ↔
      PermittedFrom indexedstorageNext indexedstorageHasIndex run ops :=
  permittedFrom_congr (fun _ _ (good : IndexedstorageGood _) allowed => good.safe_iff allowed)
    (fun _ _ _ good allowed has stepped => good.step allowed has stepped) ops _ good permitted

end Invariant

section Wrapping

variable {run : IndexedstorageRun} {count : Nat}

def IndexedstorageFull (run : IndexedstorageRun) (count : Nat) : Prop :=
  ∃ width items, IndexedstorageHolds 1 width items [] run ∧ items.length = count

theorem IndexedstorageFull.getCount (full : IndexedstorageFull run count) :
    structarrayGetCount run.alloc.structs = count := by
  obtain ⟨width, items, holds, rfl⟩ := full
  exact holds.structs.getCount

theorem IndexedstorageFull.sized (full : IndexedstorageFull run count) :
    run.alloc.structs.sizeofStruct = 1 := by
  obtain ⟨width, items, holds, -⟩ := full
  exact holds.structs.sized

theorem IndexedstorageFull.unfreed (full : IndexedstorageFull run count) :
    ¬ indexedstorageReuses run.alloc := by
  obtain ⟨width, items, holds, -⟩ := full
  rw [holds.reuses_iff]
  exact fun reuses => reuses rfl

theorem IndexedstorageFull.step (full : IndexedstorageFull run count) (another : count < 2 ^ 32)
    (fresh : Nat → UInt8) :
    ∃ next, indexedstorageNext run (.alloc fresh) = some next ∧
      IndexedstorageFull next (count + 1) := by
  obtain ⟨width, items, holds, rfl⟩ := full
  obtain ⟨next, added, allocated, kept⟩ := holds.alloc_makes another (by omega) fresh
  refine ⟨_, by rw [indexedstorageNext, indexedstorageStep, allocated]; rfl, width,
    items ++ [added], kept, ?_⟩
  rw [List.length_append, List.length_singleton]

theorem indexedstorageAllocs_permitted (fresh : Nat → UInt8) :
    ∀ (n count : Nat) (run : IndexedstorageRun),
    IndexedstorageFull run count → count + n ≤ 2 ^ 32 + 1 →
      PermittedFrom indexedstorageNext indexedstoragePermits run
        (List.replicate n (.alloc fresh)) := by
  intro n
  induction n with
  | zero => exact fun _ _ _ _ => trivial
  | succ n ih =>
    intro count run full bound
    constructor
    · right
      rw [full.getCount, full.sized]
      omega
    · intro next stepped
      by_cases another : count < 2 ^ 32
      · obtain ⟨after, follows, grown⟩ := full.step another fresh
        rw [follows] at stepped
        cases stepped
        exact ih (count + 1) next grown (by omega)
      · obtain rfl : n = 0 := by omega
        trivial

theorem indexedstorageAllocs_bounded (fresh : Nat → UInt8) :
    ∀ (n count : Nat) (run : IndexedstorageRun), IndexedstorageFull run count → count ≤ 2 ^ 32 →
      PermittedFrom indexedstorageNext indexedstorageHasIndex run (List.replicate n (.alloc fresh)) →
        count + n ≤ 2 ^ 32 := by
  intro n
  induction n with
  | zero => exact fun _ _ _ small _ => small
  | succ n ih =>
    rintro count run full _ ⟨has, later⟩
    have another := (has.resolve_left full.unfreed).2
    rw [full.getCount] at another
    obtain ⟨next, stepped, grown⟩ := full.step another fresh
    have rest := ih (count + 1) next grown another (later next stepped)
    omega

end Wrapping

end MulleCore
