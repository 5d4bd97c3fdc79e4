import MulleCore.Storage.Indexedstorage
import MulleCore.Storage.Storage

/-!
A storage next to the elements that its client holds, and what both kinds of storage promise.
-/

namespace MulleCore

open Library

structure StorageRun where
  alloc : MulleStorage
  live : List StoragePointer

inductive StorageOp where
  | malloc (hint : Nat) (garbage : Nat → UInt8)
  | calloc (hint : Nat) (garbage : Nat → UInt8)
  | copy (q : List UInt8) (hint : Nat) (garbage : Nat → UInt8)
  | free (p : StoragePointer)

section Statement

variable (run : StorageRun)

def storageServed (result : Option (MulleStorage × StoragePointer)) :
    Option (StorageRun × Option StoragePointer) :=
  result.map fun (alloc, p) => (⟨alloc, p :: run.live⟩, some p)

def storageStep : StorageOp → Option (StorageRun × Option StoragePointer)
  | .malloc hint garbage => storageServed run (storageMalloc run.alloc hint garbage)
  | .calloc hint garbage => storageServed run (storageCalloc run.alloc hint garbage)
  | .copy q hint garbage => storageServed run (storageCopy run.alloc q hint garbage)
  | .free p => (storageFree run.alloc p).map fun alloc => (⟨alloc, run.live.erase p⟩, none)

def storageNext (op : StorageOp) : Option StorageRun := (storageStep run op).map Prod.fst

def storagePermits : StorageOp → Prop
  | .malloc _ _ => True
  | .calloc _ _ => True
  | .copy q _ _ => run.alloc.structs.sizeofStruct ≤ q.length
  | .free p => p ∈ run.live

instance : DecidablePred (storagePermits run)
  | .malloc _ _ => inferInstanceAs (Decidable True)
  | .calloc _ _ => inferInstanceAs (Decidable True)
  | .copy q _ _ => inferInstanceAs (Decidable (run.alloc.structs.sizeofStruct ≤ q.length))
  | .free p => inferInstanceAs (Decidable (p ∈ run.live))

structure StorageOk (run : StorageRun) : Prop where
  distinct : run.live.Nodup
  within : ∀ p ∈ run.live, structqueueHasPointer run.alloc.structs p = some true
  counted : storageGetCount run.alloc = run.live.length

def MulleStorage.Keeps (alloc next : MulleStorage) : Prop :=
  next.structs.queue.count = alloc.structs.queue.count ∧
    next.structs.queue.heap.cells.length = alloc.structs.queue.heap.cells.length

def storageStays (next : StorageRun) : StorageOp → Prop
  | .free _ => True
  | _ => run.live.length < run.alloc.structs.queue.count → run.alloc.Keeps next.alloc

def storageSafe (op : StorageOp) : Prop :=
  ∃ next answer, storageStep run op = some (next, answer) ∧ StorageOk next ∧ storageStays run next op

end Statement

section Invariant

structure StorageHolds (stride width size : Nat) (made : List StoragePointer) (alloc : MulleStorage)
    (live : List StoragePointer) : Prop where
  sized : alloc.structs.sizeofStruct = stride
  copied : alloc.structs.copySizeofStruct = width
  positive : 0 < stride
  narrow : width ≤ stride
  room : 0 < size
  places : alloc.structs.queue.Made stride size made
  serves : Pool.Serves ⟨made, alloc.freed⟩ live

def StorageGood (run : StorageRun) : Prop :=
  ∃ stride width size made, StorageHolds stride width size made run.alloc run.live

variable {stride width size : Nat} {made live : List StoragePointer} {alloc : MulleStorage}
  {p : StoragePointer}

section

variable (holds : StorageHolds stride width size made alloc live)
include holds

theorem StorageHolds.hasPointer (p : StoragePointer) :
    structqueueHasPointer alloc.structs p = some (decide (p ∈ made)) := by
  obtain ⟨rfl, rfl, positive, narrow, room, ⟨⟨chain, spares, linked, placed⟩, counted, sized⟩, -⟩ :=
    holds
  rw [structqueueHasPointer, counted]
  exact structqueueFindPointer_eq room narrow sized p ⟨chain, linked.forget, placed⟩

theorem StorageHolds.counts :
    live.length + alloc.freed.length = alloc.structs.queue.count := by
  rw [holds.places.counted]
  exact holds.serves.counts

theorem StorageHolds.ok : StorageOk ⟨alloc, live⟩ where
  distinct := holds.serves.live_distinct
  within p member := by
    rw [holds.hasPointer, decide_eq_true (holds.serves.live_made member)]
  counted := by
    have counts := holds.counts
    rw [storageGetCount, wordSub_eq (Nat.le.intro ((Nat.add_comm _ _).trans counts))]
    exact Nat.sub_eq_of_eq_add counts.symm

end

theorem structqueueReserve_made {structs : Structqueue} (sized : structs.sizeofStruct = stride)
    (positive : 0 < stride) (room : 0 < size) (queue : structs.queue.Made stride size made)
    (hint : Nat) (garbage : Nat → UInt8) :
    ∃ next p, structqueueReserve structs hint garbage = some ({ structs with queue := next }, p) ∧
      p ∉ made ∧
      next.Made stride size (made ++ [p]) := by
  have fits : (table (structs.queue.bucketSize * structs.sizeofStruct) garbage).length =
      size * stride := by
    rw [table_length, queue.sized, sized]
  obtain ⟨roomy, grown, roomyMade, inside⟩ := queueMakeRoom_made queue room fits hint
  obtain ⟨write, atWrite, new, advanced⟩ := roomyMade.advance positive inside
  refine ⟨_, _, ?_, new, advanced⟩
  simp only [structqueueReserve, grown, Option.bind_eq_bind, Option.bind_some]
  rw [if_pos (by rw [roomyMade.sized]; exact inside), atWrite, sized]
  rfl

theorem StorageHolds.malloc (holds : StorageHolds stride width size made alloc live) (hint : Nat)
    (garbage : Nat → UInt8) :
    ∃ next p more, storageMalloc alloc hint garbage = some (next, p) ∧
      StorageHolds stride width size more next (p :: live) ∧
      (live.length < alloc.structs.queue.count → alloc.Keeps next) := by
  have counts := holds.counts
  obtain ⟨sized, copied, positive, narrow, room, queue, serves⟩ := holds
  rcases List.eq_nil_or_concat' alloc.freed with none | ⟨rest, p, parts⟩
  · obtain ⟨next, p, reserved, new, grown⟩ :=
      structqueueReserve_made sized positive room queue hint garbage
    rw [none] at serves counts
    refine ⟨{ alloc with structs := { alloc.structs with queue := next } }, p, made ++ [p], ?_,
      ⟨sized, copied, positive, narrow, room, grown, ?_⟩, fun free => ?_⟩
    · simp only [storageMalloc, none, List.getLast?_nil, reserved, Option.bind_eq_bind,
        Option.bind_some]
    · simp only [none]
      exact serves.make new
    · rw [List.length_nil] at counts
      omega
  · rw [parts] at serves
    refine ⟨{ alloc with freed := rest }, p, made, ?_,
      ⟨sized, copied, positive, narrow, room, queue, serves.reuse⟩, fun _ => ⟨rfl, rfl⟩⟩
    simp only [storageMalloc, parts, List.getLast?_concat, List.dropLast_concat]

theorem StorageHolds.write (holds : StorageHolds stride width size made alloc live)
    (member : p ∈ live) {bytes : List UInt8} (fits : bytes.length ≤ stride) :
    ∃ next, storageWrite alloc p bytes = some next ∧ StorageHolds stride width size made next live ∧
      alloc.Keeps next := by
  obtain ⟨sized, copied, positive, narrow, room, queue, serves⟩ := holds
  obtain ⟨bucket, cells, here, pasted, written⟩ := queue.write (serves.live_made member) fits
  have wrote : storageWrite alloc p bytes = some { alloc with structs := { alloc.structs with
      queue := { alloc.structs.queue with
        heap := alloc.structs.queue.heap.write p.bucket { bucket with storage := cells } } } } := by
    simp only [storageWrite, here, pasted, Option.bind_eq_bind, Option.bind_some]
  exact ⟨_, wrote, ⟨sized, copied, positive, narrow, room, written, serves⟩, rfl, List.length_set⟩

theorem MulleStorage.Keeps.trans {between next : MulleStorage} (keeps : alloc.Keeps between)
    (further : between.Keeps next) : alloc.Keeps next :=
  ⟨further.1.trans keeps.1, further.2.trans keeps.2⟩

structure StorageServes (alloc : MulleStorage) (live : List StoragePointer) (next : MulleStorage)
    (p : StoragePointer) : Prop where
  good : StorageGood ⟨next, p :: live⟩
  ok : StorageOk ⟨next, p :: live⟩
  keeps : live.length < alloc.structs.queue.count → alloc.Keeps next

section

variable (holds : StorageHolds stride width size made alloc live)
include holds

theorem StorageHolds.serves_malloc (hint : Nat) (garbage : Nat → UInt8) :
    ∃ next p, storageMalloc alloc hint garbage = some (next, p) ∧
      StorageServes alloc live next p := by
  obtain ⟨next, p, more, served, kept, keeps⟩ := holds.malloc hint garbage
  exact ⟨next, p, served, ⟨_, _, _, _, kept⟩, kept.ok, keeps⟩

theorem StorageHolds.serves_calloc (hint : Nat) (garbage : Nat → UInt8) :
    ∃ next p, storageCalloc alloc hint garbage = some (next, p) ∧
      StorageServes alloc live next p := by
  obtain ⟨between, p, more, served, kept, keeps⟩ := holds.malloc hint garbage
  have fits : (List.replicate between.structs.sizeofStruct (0 : UInt8)).length ≤ stride := by
    rw [List.length_replicate, kept.sized]
  obtain ⟨next, written, nextHolds, further⟩ := kept.write List.mem_cons_self fits
  refine ⟨next, p, ?_, ⟨_, _, _, _, nextHolds⟩, nextHolds.ok, fun free => (keeps free).trans further⟩
  simp only [storageCalloc, served, written, Option.bind_eq_bind, Option.bind_some]

theorem StorageHolds.serves_copy {q : List UInt8}
    (enough : alloc.structs.sizeofStruct ≤ q.length) (hint : Nat) (garbage : Nat → UInt8) :
    ∃ next p, storageCopy alloc q hint garbage = some (next, p) ∧
      StorageServes alloc live next p := by
  obtain ⟨between, p, more, served, kept, keeps⟩ := holds.malloc hint garbage
  rw [holds.sized] at enough
  have copied : blockRead q 0 between.structs.sizeofStruct = some (q.take stride) := by
    rw [kept.sized]
    exact blockRead_front enough
  obtain ⟨next, written, nextHolds, further⟩ :=
    kept.write List.mem_cons_self (List.length_take_le stride q)
  refine ⟨next, p, ?_, ⟨_, _, _, _, nextHolds⟩, nextHolds.ok, fun free => (keeps free).trans further⟩
  simp only [storageCopy, served, copied, written, Option.bind_eq_bind, Option.bind_some]

theorem StorageHolds.free (member : p ∈ live) :
    ∃ next, storageFree alloc p = some next ∧ StorageHolds stride width size made next
      (live.erase p) := by
  have found : structqueueHasPointer alloc.structs p = some true := by
    rw [holds.hasPointer, decide_eq_true (holds.serves.live_made member)]
  refine ⟨{ alloc with freed := alloc.freed ++ [p] }, ?_, holds.sized, holds.copied, holds.positive,
    holds.narrow, holds.room, holds.places, holds.serves.free member⟩
  rw [storageFree, if_neg (holds.serves.not_freed member), found]
  rfl

end

theorem storageInit_good (heap : Arena (Bucket (List UInt8))) (type : StructType)
    (capacity : UInt32) :
    StorageGood ⟨storageInit heap type capacity, []⟩ := by
  have narrow := le_alignedSize type.sizeof type.aligned
  refine ⟨_, _, _, [], rfl, rfl, type.sized.trans_le narrow, narrow,
    queueBucketSize_pos capacity.toUInt16,
    ⟨⟨[], [], ⟨rfl, rfl, List.nodup_nil, fun _ member => absurd member List.not_mem_nil⟩, ?_⟩, rfl,
      rfl⟩,
    Pool.empty_serves⟩
  exact .empty rfl rfl rfl rfl rfl

theorem StorageGood.step {run : StorageRun} (good : StorageGood run) {op : StorageOp}
    (permitted : storagePermits run op) :
    ∃ next answer, storageStep run op = some (next, answer) ∧ StorageGood next ∧ StorageOk next ∧
      storageStays run next op := by
  obtain ⟨stride, width, size, made, holds⟩ := good
  cases op with
  | malloc hint garbage =>
    obtain ⟨next, p, served, serves⟩ := holds.serves_malloc hint garbage
    exact ⟨_, some p, by rw [storageStep, served]; rfl, serves.good, serves.ok, serves.keeps⟩
  | calloc hint garbage =>
    obtain ⟨next, p, served, serves⟩ := holds.serves_calloc hint garbage
    exact ⟨_, some p, by rw [storageStep, served]; rfl, serves.good, serves.ok, serves.keeps⟩
  | copy q hint garbage =>
    obtain ⟨next, p, served, serves⟩ := holds.serves_copy permitted hint garbage
    exact ⟨_, some p, by rw [storageStep, served]; rfl, serves.good, serves.ok, serves.keeps⟩
  | free p =>
    obtain ⟨next, freed, kept⟩ := holds.free permitted
    exact ⟨_, none, by rw [storageStep, freed]; rfl, ⟨_, _, _, _, kept⟩, kept.ok, trivial⟩

end Invariant

/-- A storage keeps its promises always, an indexed one as long as no index wraps. -/
theorem storageRuns_right_iff (type : StructType) (capacity : UInt32) :
    (∀ heap ops, PermittedFrom storageNext storagePermits ⟨storageInit heap type capacity, []⟩ ops →
      PermittedFrom storageNext storageSafe ⟨storageInit heap type capacity, []⟩ ops) ∧
    ∀ memory fresh freshPointers alloc,
    indexedstorageInit type capacity memory fresh freshPointers = some alloc →
      ∀ ops, PermittedFrom indexedstorageNext indexedstoragePermits ⟨alloc, []⟩ ops →
        (PermittedFrom indexedstorageNext indexedstorageSafe ⟨alloc, []⟩ ops ↔
          PermittedFrom indexedstorageNext indexedstorageHasIndex ⟨alloc, []⟩ ops) := by
  constructor
  · intro heap ops permitted
    refine permittedFrom_safe (fun run op (good : StorageGood run) allowed _ => ?_) ops _
      (storageInit_good heap type capacity) permitted permitted
    obtain ⟨next, answer, stepped, kept, ok, stays⟩ := good.step allowed
    refine ⟨⟨next, answer, stepped, ok, stays⟩, fun after follows => ?_⟩
    rw [storageNext, stepped] at follows
    cases follows
    exact kept
  · intro memory fresh freshPointers alloc begins ops permitted
    exact indexedstorageRun_safe_iff (indexedstorageInit_good begins) permitted

theorem storageRuns_right_iff_reused :
    PermittedFrom storageNext storageSafe ⟨storageInit ⟨[]⟩ ⟨6, 4, by decide, by decide⟩ 3, []⟩
      [.malloc 0 fun _ => 0, .calloc 1 fun _ => 7, .free ⟨0, 0⟩,
        .copy (List.replicate 8 1) 2 fun _ => 0] ∧
    PermittedFrom indexedstorageNext indexedstorageSafe
      ⟨⟨⟨[], 0, 0, false, 8, 6⟩, [], ⟨none, 0, 0, none⟩⟩, []⟩
      [.alloc fun _ => 0, .alloc fun _ => 7, .free 0 fun _ => 0, .alloc fun _ => 0] := by
  have right := storageRuns_right_iff ⟨6, 4, by decide, by decide⟩
  constructor
  · exact (right 3).1 ⟨[]⟩ _ (by decide)
  · exact ((right 0).2 [] (fun _ => 0) (fun _ => 0) _ rfl _ (by decide)).mpr (by decide)

/-- After 2^32 indexes the first one is given out again. -/
theorem indexedstorage_wraps : ¬ ∀ (type : StructType) (capacity : UInt32) (memory : PointerMemory)
    (fresh : Nat → UInt8) (freshPointers : Nat → Pointer) (alloc : MulleIndexedstorage),
    indexedstorageInit type capacity memory fresh freshPointers = some alloc →
      ∀ ops, PermittedFrom indexedstorageNext indexedstoragePermits ⟨alloc, []⟩ ops →
        PermittedFrom indexedstorageNext indexedstorageSafe ⟨alloc, []⟩ ops := by
  intro all
  let alloc : MulleIndexedstorage := ⟨⟨[], 0, 0, false, 1, 1⟩, [], ⟨none, 0, 0, none⟩⟩
  have begins : indexedstorageInit ⟨1, 1, by decide, by decide⟩ 0 [] (fun _ => 0) (fun _ => 0) =
    some alloc := rfl
  have full : IndexedstorageFull ⟨alloc, []⟩ 0 := by
    refine ⟨1, [], ⟨?_, arrayHolds_null [] (fun _ null => by cases null), Nat.zero_le _,
      Pool.empty_serves⟩, rfl⟩
    exact @structarrayInit_holds alloc.structs 1 1 0 (fun _ => 0) (by decide) rfl
  obtain ⟨ops, replicated⟩ :
    ∃ ops, ops = List.replicate (2 ^ 32 + 1) (IndexedstorageOp.alloc fun _ => 0) := ⟨_, rfl⟩
  have permitted := indexedstorageAllocs_permitted (fun _ => 0) (2 ^ 32 + 1) 0 _ full (by omega)
  rw [← replicated] at permitted
  have safe := all _ _ _ _ _ _ begins ops permitted
  have has := (indexedstorageRun_safe_iff (indexedstorageInit_good begins) permitted).mp safe
  rw [replicated] at has
  have bounded := indexedstorageAllocs_bounded (fun _ => 0) _ 0 _ full (by omega) has
  omega

end MulleCore
