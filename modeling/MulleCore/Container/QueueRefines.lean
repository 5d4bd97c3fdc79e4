import MulleCore.Library.Records
import MulleCore.Library.Simulation
import MulleCore.Container.Math
import MulleCore.Container.QueueOk

/-!
A queue over its runs, next to a list that is appended to and taken from the front.
-/

namespace MulleCore

open Library

/-- `hint` and `garbage` say where `malloc` finds memory and what is in it. -/
inductive QueueOp (Item Cell : Type) where
  | push (item : Item) (hint : Nat) (garbage : Nat → Cell)
  | pop
  | reset

def QueueOp.Pushes {Item Cell : Type} (accepts : Item → Prop) : QueueOp Item Cell → Prop
  | .push item _ _ => accepts item
  | .pop => True
  | .reset => True

def fifoStep {Item Cell : Type} (items : List Item) :
    QueueOp Item Cell → List Item × Option (Option Item)
  | .push item _ _ => (items ++ [item], none)
  | .pop => (items.tail, some items.head?)
  | .reset => ([], none)

def itemOfPointer (p : Pointer) : Option Pointer := if p = 0 then none else some p

def pointerqueueStep (queue : Pointerqueue) :
    QueueOp Pointer Pointer → Option (Pointerqueue × Option (Option Pointer))
  | .push p hint garbage => do
      let queue ← pointerqueuePush queue p hint garbage
      some (queue, none)
  | .pop => do
      let (queue, p) ← pointerqueuePop queue
      some (queue, some (itemOfPointer p))
  | .reset => do
      let queue ← queueReset queue
      some (queue, none)

def structqueueStep (structs : Structqueue) :
    QueueOp (List UInt8) UInt8 → Option (Structqueue × Option (Option (List UInt8)))
  | .push p hint garbage => do
      let structs ← structqueuePush structs p hint garbage
      some (structs, none)
  | .pop => do
      let (structs, item) ← structqueuePop structs
      some (structs, some item)
  | .reset => do
      let queue ← queueReset structs.queue
      some ({ structs with queue := queue }, none)

structure Queue.Shows {Store Item : Type} (storage : BucketStorage Store Item) (allowance : Nat)
    (queue : Queue Store) (items : List Item) : Prop where
  counted : queue.count = items.length
  enumerated : queueItems storage queue = some items
  spared : ∃ spares, Chain Bucket.next queue.heap queue.spares spares none ∧
    spares.length + queue.spareAllowance = allowance

section Queues

variable {Store Item : Type} {storage : BucketStorage Store Item} {size : Nat}
  {fits : Store → Prop} {accepts : Item → Prop} {view : Store → List Item} {items : List Item}
  {total : Nat} {queue : Queue Store}

theorem queueInit_holds (heap : Arena (Bucket Store)) (bucketSize spareAllowance : UInt16) :
    (queueInit heap bucketSize spareAllowance).Holds (queueBucketSize bucketSize) fits view
      spareAllowance.toNat [] := by
  constructor
  · exact ⟨[], [], ⟨rfl, rfl, List.nodup_nil, fun _ member => absurd member List.not_mem_nil⟩,
      .empty rfl rfl rfl rfl rfl, Nat.zero_add _⟩
  · rfl
  · rfl

theorem queueBucketSize_pos (bucketSize : UInt16) : 0 < queueBucketSize bucketSize := by
  rw [queueBucketSize]
  split <;> split <;> omega

theorem Queue.Holds.shows (laws : storage.Laws size fits accepts view)
    (holds : queue.Holds size fits view total items) : queue.Shows storage total items := by
  obtain ⟨chain, spares, linked, -, sum⟩ := holds.buckets
  exact ⟨holds.counted, holds.enumerates laws, spares, linked.spared, sum⟩

end Queues

section Pointers

variable {size total : Nat} {items : List Pointer}

theorem pointerStorage_laws (positive : 0 < size) :
    pointerStorage.Laws size (fun cells => cells.length = size) (fun p => p ≠ 0) id := by
  constructor
  · exact positive
  · exact fun cells whole => whole
  · exact fun cells index _ _ => rfl
  · intro cells index p whole _ inside
    refine ⟨cells.set index p, if_pos (by omega), ?_, rfl⟩
    rw [List.length_set]
    exact whole

def Queue.HoldsPointers (size total : Nat) (items : List Pointer) (queue : Pointerqueue) : Prop :=
  queue.Holds size (fun cells => cells.length = size) id total items ∧ ∀ p ∈ items, p ≠ 0

theorem itemOfPointer_head (nonzero : ∀ p ∈ items, p ≠ 0) :
    itemOfPointer (items.head?.getD 0) = items.head? := by
  cases items with
  | nil => rfl
  | cons p rest => exact if_neg (nonzero p List.mem_cons_self)

theorem pointerqueueStep_follows (positive : 0 < size) (items : List Pointer) (queue : Pointerqueue)
    (op : QueueOp Pointer Pointer) (holds : queue.HoldsPointers size total items)
    (pushes : op.Pushes fun p => p ≠ 0) :
    ∃ next, pointerqueueStep queue op = some (next, (fifoStep items op).2) ∧
      next.HoldsPointers size total (fifoStep items op).1 := by
  obtain ⟨holds, nonzero⟩ := holds
  have laws := pointerStorage_laws positive
  cases op with
  | push p hint garbage =>
    have notNull : p ≠ 0 := pushes
    have fitting : (table queue.bucketSize garbage).length = size := by
      rw [table_length, holds.sized]
    obtain ⟨next, pushed, nextHolds⟩ := queuePush_holds laws holds notNull fitting hint
    refine ⟨next, ?_, nextHolds, ?_⟩
    · simp only [pointerqueueStep, pointerqueuePush, if_pos notNull, pushed, Option.bind_eq_bind,
        Option.bind_some, fifoStep]
    · intro other member
      rcases List.mem_append.mp member with old | new
      · exact nonzero other old
      · rw [List.mem_singleton.mp new]
        exact notNull
  | pop =>
    obtain ⟨next, popped, nextHolds⟩ := queuePop_holds laws holds
    refine ⟨next, ?_, nextHolds, fun p member => nonzero p (List.mem_of_mem_tail member)⟩
    simp only [pointerqueueStep, pointerqueuePop, popped, Option.bind_eq_bind, Option.bind_some,
      itemOfPointer_head nonzero, fifoStep]
  | reset =>
    obtain ⟨next, done, nextHolds⟩ := queueReset_holds holds
    refine ⟨next, ?_, nextHolds, fun p member => absurd member List.not_mem_nil⟩
    simp only [pointerqueueStep, done, Option.bind_eq_bind, Option.bind_some, fifoStep]

theorem pointerqueueRun_shows (heap : Arena (Bucket (List Pointer)))
    (bucketSize spareAllowance : UInt16) {ops : List (QueueOp Pointer Pointer)}
    (pushes : ∀ op ∈ ops, op.Pushes fun p => p ≠ 0) :
    ∃ final, run pointerqueueStep (queueInit heap bucketSize spareAllowance) ops =
        some (final, (specRun fifoStep [] ops).2) ∧
      final.Shows pointerStorage spareAllowance.toNat (specRun fifoStep [] ops).1 := by
  have positive := queueBucketSize_pos bucketSize
  have start : (queueInit heap bucketSize spareAllowance).HoldsPointers
      (queueBucketSize bucketSize) spareAllowance.toNat [] :=
    ⟨queueInit_holds heap bucketSize spareAllowance, fun p member =>
      absurd member List.not_mem_nil⟩
  obtain ⟨final, finished, holds, -⟩ :=
    run_follows (pointerqueueStep_follows positive) ops [] _ start
      (permittedRun_of_forall pushes [])
  exact ⟨final, finished, holds.shows (pointerStorage_laws positive)⟩

end Pointers

section Structs

variable {size stride width total : Nat}

theorem structStorage_laws (positive : 0 < size) (narrow : width ≤ stride) :
    (structStorage stride width).Laws size (fun bytes => bytes.length = size * stride)
      (fun item => item.length = width) (records stride width size) := by
  constructor
  · exact positive
  · exact fun bytes _ => records_length
  · intro bytes index whole inside
    exact blockRead_record narrow inside (Nat.le_of_eq whole.symm)
  · intro bytes index item whole fitting inside
    obtain ⟨pasted, done, length, same⟩ :=
      blockPaste_record narrow inside (Nat.le_of_eq whole.symm) fitting
    refine ⟨pasted, ?_, length.trans whole, same⟩
    have copied : item.take width = item := List.take_of_length_le (Nat.le_of_eq fitting)
    simp only [structStorage, copied, done]

def Structqueue.Holds (stride width size total : Nat) (items : List (List UInt8))
    (structs : Structqueue) : Prop :=
  structs.sizeofStruct = stride ∧ structs.copySizeofStruct = width ∧
    structs.queue.Holds size (fun bytes => bytes.length = size * stride)
      (records stride width size) total items

theorem structqueueStep_follows (positive : 0 < size) (narrow : width ≤ stride)
    (items : List (List UInt8)) (structs : Structqueue) (op : QueueOp (List UInt8) UInt8)
    (holds : structs.Holds stride width size total items)
    (pushes : op.Pushes fun item => item.length = width) :
    ∃ next, structqueueStep structs op = some (next, (fifoStep items op).2) ∧
      next.Holds stride width size total (fifoStep items op).1 := by
  obtain ⟨rfl, rfl, holds⟩ := holds
  have laws := structStorage_laws positive narrow
  cases op with
  | push item hint garbage =>
    have fitting : (table (structs.queue.bucketSize * structs.sizeofStruct) garbage).length =
        size * structs.sizeofStruct := by
      rw [table_length, holds.sized]
    obtain ⟨next, pushed, nextHolds⟩ := queuePush_holds laws holds pushes fitting hint
    refine ⟨{ structs with queue := next }, ?_, rfl, rfl, nextHolds⟩
    simp only [structqueueStep, structqueuePush, Structqueue.storage, pushed,
      Option.bind_eq_bind, Option.bind_some, fifoStep]
  | pop =>
    obtain ⟨next, popped, nextHolds⟩ := queuePop_holds laws holds
    refine ⟨{ structs with queue := next }, ?_, rfl, rfl, nextHolds⟩
    simp only [structqueueStep, structqueuePop, Structqueue.storage, popped,
      Option.bind_eq_bind, Option.bind_some, fifoStep]
  | reset =>
    obtain ⟨next, done, nextHolds⟩ := queueReset_holds holds
    refine ⟨{ structs with queue := next }, ?_, rfl, rfl, nextHolds⟩
    simp only [structqueueStep, done, Option.bind_eq_bind, Option.bind_some, fifoStep]

theorem structqueueRun_shows (heap : Arena (Bucket (List UInt8))) {sizeofStruct alignofStruct : Nat}
    (aligned : 0 < alignofStruct) (bucketSize spareAllowance : UInt16)
    {ops : List (QueueOp (List UInt8) UInt8)}
    (pushes : ∀ op ∈ ops, op.Pushes fun item => item.length = sizeofStruct) :
    ∃ final, run structqueueStep
          (structqueueInit heap sizeofStruct alignofStruct bucketSize spareAllowance) ops =
        some (final, (specRun fifoStep [] ops).2) ∧
      final.queue.Shows final.storage spareAllowance.toNat (specRun fifoStep [] ops).1 := by
  have positive := queueBucketSize_pos bucketSize
  have narrow := le_alignedSize sizeofStruct aligned
  have start : (structqueueInit heap sizeofStruct alignofStruct bucketSize spareAllowance).Holds
      ((sizeofStruct + alignofStruct - 1) / alignofStruct * alignofStruct) sizeofStruct
      (queueBucketSize bucketSize) spareAllowance.toNat [] :=
    ⟨rfl, rfl, queueInit_holds heap bucketSize spareAllowance⟩
  obtain ⟨final, finished, sized, copied, holds⟩ :=
    run_follows (structqueueStep_follows positive narrow) ops [] _ start
      (permittedRun_of_forall pushes [])
  refine ⟨final, finished, ?_⟩
  rw [Structqueue.storage, sized, copied]
  exact holds.shows (structStorage_laws positive narrow)

end Structs

/-- Every run on a new queue ends, and pops and shows what a list does. -/
theorem queueRun_refines (bucketSize spareAllowance : UInt16) :
    (∀ heap (ops : List (QueueOp Pointer Pointer)), (∀ op ∈ ops, op.Pushes fun p => p ≠ 0) →
      ∃ final, run pointerqueueStep (queueInit heap bucketSize spareAllowance) ops =
          some (final, (specRun fifoStep [] ops).2) ∧
        final.Shows pointerStorage spareAllowance.toNat (specRun fifoStep [] ops).1) ∧
    ∀ heap sizeofStruct alignofStruct (ops : List (QueueOp (List UInt8) UInt8)),
      0 < alignofStruct → (∀ op ∈ ops, op.Pushes fun item => item.length = sizeofStruct) →
      ∃ final, run structqueueStep
            (structqueueInit heap sizeofStruct alignofStruct bucketSize spareAllowance) ops =
          some (final, (specRun fifoStep [] ops).2) ∧
        final.queue.Shows final.storage spareAllowance.toNat (specRun fifoStep [] ops).1 := by
  constructor
  · intro heap ops pushes
    exact pointerqueueRun_shows heap bucketSize spareAllowance pushes
  · intro heap sizeofStruct alignofStruct ops aligned pushes
    exact structqueueRun_shows heap aligned bucketSize spareAllowance pushes

theorem queueRun_refines_drained :
    (∃ final, run pointerqueueStep (queueInit ⟨[]⟩ 0 1)
        [.push 5 0 fun _ => 0, .pop, .pop] = some (final, [none, some (some 5), some none])) ∧
    ∃ final, run structqueueStep (structqueueInit ⟨[]⟩ 3 4 1 0)
        [.push [1, 2, 3] 0 fun _ => 0, .pop] = some (final, [none, some (some [1, 2, 3])]) := by
  constructor
  · obtain ⟨final, finished, -⟩ :=
      (queueRun_refines 0 1).1 ⟨[]⟩ [.push 5 0 fun _ => 0, .pop, .pop] (by
      intro op member
      rcases List.mem_cons.mp member with rfl | member
      · exact (by decide : (5 : Pointer) ≠ 0)
      rcases List.mem_cons.mp member with rfl | member
      · exact trivial
      rw [List.mem_singleton.mp member]
      exact trivial)
    exact ⟨final, finished⟩
  · obtain ⟨final, finished, -⟩ := (queueRun_refines 1 0).2 ⟨[]⟩ 3 4
      [.push [1, 2, 3] 0 fun _ => 0, .pop] (by decide) (by
      intro op member
      rcases List.mem_cons.mp member with rfl | member
      · exact (rfl : [(1 : UInt8), 2, 3].length = 3)
      rw [List.mem_singleton.mp member]
      exact trivial)
    exact ⟨final, finished⟩

end MulleCore
