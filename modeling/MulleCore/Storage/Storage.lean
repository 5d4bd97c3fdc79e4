import MulleCore.Container.QueueRefines
import MulleCore.Data.Word
import MulleCore.Library.Pool

/-!
`mulle-storage.h`, built without `DEBUG`. A pointer says which bucket it points into and
how far. `_freed` is the list of pointers in the pointerarray.
-/

namespace MulleCore

open Library

structure StoragePointer where
  bucket : Nat
  offset : Nat
deriving DecidableEq

def structqueueReserve (structs : Structqueue) (hint : Nat) (garbage : Nat → UInt8) :
    Option (Structqueue × StoragePointer) := do
  let queue ← queueMakeRoom structs.queue hint
    (table (structs.queue.bucketSize * structs.sizeofStruct) garbage)
  if queue.writeIndex < queue.bucketSize then do
    let write ← queue.write
    let offset := queue.writeIndex * structs.sizeofStruct
    some ({ structs with queue := { queue with count := queue.count + 1, writeIndex := queue.writeIndex + 1 } },
      ⟨write, offset⟩)
  else none

def structqueueFindPointer (structs : Structqueue) (p : StoragePointer) :
    Nat → QueueRover → Option Bool
  | 0, _ => none
  | fuel + 1, rover => do
      let (rover, item) ← queueEnumeratorNext structs.storage structs.queue 2 rover
      match item with
      | none => some false
      | some _ => do
          let curr ← rover.curr
          if ⟨curr, (rover.index - 1) * structs.sizeofStruct⟩ = p then some true
          else structqueueFindPointer structs p fuel rover

def structqueueHasPointer (structs : Structqueue) (p : StoragePointer) : Option Bool :=
  structqueueFindPointer structs p (structs.queue.count + 1) (queueEnumerate structs.queue)

structure MulleStorage where
  structs : Structqueue
  freed : List StoragePointer

def storageInit (heap : Arena (Bucket (List UInt8))) (type : StructType) (capacity : UInt32) :
    MulleStorage where
  structs := structqueueInit heap type.sizeof type.alignof capacity.toUInt16 (capacity / 16).toUInt16
  freed := []

section Storage

variable (alloc : MulleStorage)

def storageMalloc (hint : Nat) (garbage : Nat → UInt8) : Option (MulleStorage × StoragePointer) :=
  match alloc.freed.getLast? with
  | some p => some ({ alloc with freed := alloc.freed.dropLast }, p)
  | none => do
      let (structs, p) ← structqueueReserve alloc.structs hint garbage
      some ({ alloc with structs := structs }, p)

def storageWrite (p : StoragePointer) (bytes : List UInt8) : Option MulleStorage := do
  let bucket ← alloc.structs.queue.heap.read p.bucket
  let cells ← blockPaste bucket.storage p.offset bytes
  let heap := alloc.structs.queue.heap.write p.bucket { bucket with storage := cells }
  some { alloc with structs := { alloc.structs with queue := { alloc.structs.queue with heap := heap } } }

def storageCalloc (hint : Nat) (garbage : Nat → UInt8) : Option (MulleStorage × StoragePointer) := do
  let (alloc, p) ← storageMalloc alloc hint garbage
  let alloc ← storageWrite alloc p (List.replicate alloc.structs.sizeofStruct 0)
  some (alloc, p)

def storageCopy (q : List UInt8) (hint : Nat) (garbage : Nat → UInt8) :
    Option (MulleStorage × StoragePointer) := do
  let (alloc, p) ← storageMalloc alloc hint garbage
  let copied ← blockRead q 0 alloc.structs.sizeofStruct
  let alloc ← storageWrite alloc p copied
  some (alloc, p)

def storageFree (p : StoragePointer) : Option MulleStorage :=
  if p ∈ alloc.freed then none
  else do
    let found ← structqueueHasPointer alloc.structs p
    if found then some { alloc with freed := alloc.freed ++ [p] } else none

def storageGetCount : Nat := wordSub alloc.structs.queue.count alloc.freed.length

end Storage

section Places

variable {writeIndex readIndex : Nat} {buckets : List Nat}

def bucketPlaces (stride count bucket : Nat) : List StoragePointer :=
  (List.range count).map fun index => ⟨bucket, index * stride⟩

def chainPlaces (stride size : Nat) (buckets : List Nat) : List StoragePointer :=
  buckets.flatMap (bucketPlaces stride size)

inductive Places (stride size : Nat) (write : Option Nat) (writeIndex readIndex : Nat)
    (buckets : List Nat) (places : List StoragePointer) : Prop where
  | empty
      (noBucket : buckets = [])
      (noWrite : write = none)
      (atRead : readIndex = size)
      (atWrite : writeIndex = size)
      (noPlaces : places = [])
  | between (front : List Nat) (last : Nat)
      (parts : buckets = front ++ [last])
      (atWrite : write = some last)
      (readBound : readIndex ≤ size)
      (writeBound : writeIndex ≤ size)
      (ordered : readIndex ≤ (chainPlaces stride size front).length + writeIndex)
      (contents : places =
        (chainPlaces stride size front ++ bucketPlaces stride writeIndex last).drop readIndex)

variable {stride size count bucket : Nat} {places : List StoragePointer} {p : StoragePointer}

@[simp]
theorem bucketPlaces_length : (bucketPlaces stride count bucket).length = count := by
  simp [bucketPlaces]

theorem bucketPlaces_succ :
    bucketPlaces stride (count + 1) bucket = bucketPlaces stride count bucket ++
      [⟨bucket, count * stride⟩] := by
  rw [bucketPlaces, List.range_succ, List.map_append]
  rfl

theorem chainPlaces_cons (bucket : Nat) (rest : List Nat) :
    chainPlaces stride size (bucket :: rest) = bucketPlaces stride size bucket ++
      chainPlaces stride size rest :=
  List.flatMap_cons

theorem chainPlaces_concat (front : List Nat) (bucket : Nat) :
    chainPlaces stride size (front ++ [bucket]) = chainPlaces stride size front ++
      bucketPlaces stride size bucket := by
  rw [chainPlaces, List.flatMap_append, List.flatMap_singleton]
  rfl

theorem mem_bucketPlaces : p ∈ bucketPlaces stride count bucket ↔
    p.bucket = bucket ∧ ∃ index < count, p.offset = index * stride := by
  rw [bucketPlaces, List.mem_map]
  constructor
  · rintro ⟨index, inside, rfl⟩
    exact ⟨rfl, index, List.mem_range.mp inside, rfl⟩
  · rintro ⟨rfl, index, inside, offset⟩
    exact ⟨index, List.mem_range.mpr inside, by rw [← offset]⟩

theorem bucketPlaces_drop {index : Nat} (inside : index < count) :
    (bucketPlaces stride count bucket).drop index =
      ⟨bucket, index * stride⟩ :: (bucketPlaces stride count bucket).drop (index + 1) := by
  rw [List.drop_eq_getElem_cons (by simpa using inside)]
  simp [bucketPlaces]

theorem Places.bounded {write : Option Nat}
    (placed : Places stride size write writeIndex readIndex buckets places) :
    writeIndex ≤ size ∧ readIndex ≤ size := by
  cases placed with
  | empty _ _ atRead atWrite _ => exact ⟨atWrite.le, atRead.le⟩
  | between _ _ _ _ readBound writeBound _ _ => exact ⟨writeBound, readBound⟩

theorem Places.inside {write : Option Nat}
    (placed : Places stride size write writeIndex readIndex buckets places) (member : p ∈ places) :
    p.bucket ∈ buckets ∧ p.offset + stride ≤ size * stride := by
  have fits : ∀ {count bucket : Nat}, count ≤ size → p ∈ bucketPlaces stride count bucket →
      p.bucket = bucket ∧ p.offset + stride ≤ size * stride := by
    intro count bucket fewer inside
    obtain ⟨here, index, below, offset⟩ := mem_bucketPlaces.mp inside
    refine ⟨here, ?_⟩
    rw [offset, ← Nat.succ_mul]
    exact Nat.mul_le_mul_right stride (Nat.succ_le_of_lt (below.trans_le fewer))
  cases placed with
  | empty _ _ _ _ noPlaces => simp [noPlaces] at member
  | between front last parts _ _ writeBound _ contents =>
    subst parts contents
    rcases List.mem_append.mp (List.mem_of_mem_drop member) with earlier | here
    · obtain ⟨bucket, inFront, inBucket⟩ := List.mem_flatMap.mp earlier
      obtain ⟨rfl, ends⟩ := fits le_rfl inBucket
      exact ⟨List.mem_append_left _ inFront, ends⟩
    · obtain ⟨rfl, ends⟩ := fits writeBound here
      exact ⟨List.mem_append_right _ List.mem_cons_self, ends⟩

end Places

/-!
Which pointers a structqueue has given out that nothing was popped from.
-/

section Linked

variable {fits : List UInt8 → Prop} {heap : Arena (Bucket (List UInt8))} {read spare : Option Nat}
  {chain spares : List (BucketNode (List UInt8))} {bucket : Bucket (List UInt8)} {p : Nat}

theorem Linked.member_read (linked : Linked fits heap read spare chain spares)
    (member : p ∈ addresses chain) :
    ∃ bucket, heap.read p = some bucket ∧ fits bucket.storage := by
  obtain ⟨node, inside, rfl⟩ := List.mem_map.mp member
  exact ⟨node.2, linked.read_eq inside, linked.fits_chain inside⟩

theorem Linked.rewrite (linked : Linked fits heap read spare chain spares)
    (member : p ∈ addresses chain) (here : heap.read p = some bucket) {cells : List UInt8}
    (cellsFit : fits cells) :
    ∃ next, Linked fits (heap.write p { bucket with storage := cells }) read spare next spares ∧
      addresses next = addresses chain := by
  obtain ⟨node, inside, rfl⟩ := List.mem_map.mp member
  have apart := linked.not_spare member
  have stored := linked.read_eq inside
  rw [here, Option.some.injEq] at stored
  subst stored
  obtain ⟨front, back, rfl⟩ := List.append_of_mem inside
  have distinct := linked.chain_nodup
  rw [addresses, List.map_append, List.map_cons, List.nodup_append, List.nodup_cons] at distinct
  obtain ⟨-, ⟨notBack, -⟩, disjoint⟩ := distinct
  have notFront : node.1 ∉ front.map Prod.fst :=
    fun inFront => disjoint _ inFront _ List.mem_cons_self rfl
  obtain ⟨middle, first, begins, -, tail⟩ := Chain.append.mp linked.chained
  have same : addresses (front ++ (node.1, { node.2 with storage := cells }) :: back) =
      addresses (front ++ node :: back) := by
    simp [addresses]
  refine ⟨front ++ (node.1, { node.2 with storage := cells }) :: back,
    ⟨?_, linked.spared.write apart _, ?_, ?_⟩, same⟩
  · exact Chain.append.mpr ⟨middle, first.write notFront _, begins, Arena.read_write_self here _,
      tail.write notBack _⟩
  · rw [same]
    exact linked.distinct
  · intro other otherMember
    rw [List.append_assoc, List.mem_append, List.cons_append, List.mem_cons] at otherMember
    rcases otherMember with inFront | rfl | inRest
    · exact linked.fits_chain (List.mem_append_left _ inFront)
    · exact cellsFit
    · refine linked.fits other ?_
      rw [List.append_assoc, List.cons_append]
      exact List.mem_append_right front (List.mem_cons_of_mem node inRest)

end Linked

section Queues

variable {stride size : Nat} {queue : Queue (List UInt8)} {places : List StoragePointer}
variable {garbage : List UInt8}

structure Queue.Made (stride size : Nat)
    (queue : Queue (List UInt8)) (places : List StoragePointer) : Prop where
  buckets : ∃ chain spares,
    Linked (fun bytes => bytes.length = size * stride) queue.heap queue.read queue.spares
      chain spares ∧
      Places stride size queue.write queue.writeIndex queue.readIndex (addresses chain) places
  counted : queue.count = places.length
  sized : queue.bucketSize = size

section

variable (made : queue.Made stride size places)
include made

theorem queueGrow_made (room : 0 < size) (full : queue.writeIndex = size)
    (fits : garbage.length = size * stride) (hint : Nat) :
    ∃ next, queueGrow queue hint garbage = some next ∧ next.Made stride size places ∧
      next.writeIndex < size := by
  obtain ⟨⟨chain, spares, linked, placed⟩, counted, sized⟩ := made
  obtain ⟨heap, spare, allowance, p, cells, left, taken, relinked, -, here, cellsFit, away⟩ :=
    queueNewBucket_some linked fits hint
  rw [queueGrow]
  simp only [taken, Option.bind_eq_bind, Option.bind_some]
  cases placed with
  | empty noBucket noWrite atRead atWrite noPlaces =>
    obtain rfl : chain = [] := List.map_eq_nil_iff.mp noBucket
    have noRead := linked.nothing_read
    simp only [noWrite, queueLink, Option.bind_some, noRead, if_true]
    refine ⟨_, rfl, ⟨⟨[(p, { next := none, storage := cells })], left, ?_, ?_⟩, counted, sized⟩, room⟩
    · refine ⟨⟨rfl, here, rfl⟩, relinked.spared, List.nodup_cons.mpr ⟨away, relinked.distinct⟩, ?_⟩
      intro node member
      rcases List.mem_cons.mp member with rfl | inLeft
      · exact cellsFit
      · exact relinked.fits node inLeft
    · exact .between [] p rfl rfl (Nat.zero_le _) (Nat.zero_le _) (Nat.zero_le _) noPlaces
  | between front last parts atWrite readBound writeBound ordered contents =>
    obtain ⟨nodes, ends, rfl, rfl, single⟩ := List.map_eq_append_iff.mp parts
    obtain ⟨node, rfl, rfl⟩ := List.map_eq_singleton_iff.mp single
    have someRead : queue.read ≠ none := by
      intro noRead
      have begins := linked.chained
      rw [noRead] at begins
      cases nodes with
      | nil => exact absurd begins.1 (by simp)
      | cons first nodes => exact absurd begins.1 (by simp)
    obtain ⟨lastHere, lastFits, -, -⟩ := relinked.last_alone
    simp only [atWrite, queueLink, lastHere, Option.bind_eq_bind, Option.bind_some, if_neg someRead]
    have whole : chainPlaces stride size (nodes.map Prod.fst ++ [node.1]) ++ bucketPlaces stride 0 p =
        chainPlaces stride size (nodes.map Prod.fst) ++
          bucketPlaces stride queue.writeIndex node.1 := by
      rw [chainPlaces_concat, full]
      exact List.append_nil _
    refine ⟨_, rfl, ⟨⟨_, left, relinked.link here cellsFit away, ?_⟩, counted, sized⟩, room⟩
    refine .between (nodes.map Prod.fst ++ [node.1]) p (by simp [addresses]) rfl readBound
      (Nat.zero_le _) ?_ ?_
    · rw [chainPlaces_concat, List.length_append, bucketPlaces_length]
      exact ordered.trans (by omega)
    · rw [whole]
      exact contents

theorem queueMakeRoom_made (room : 0 < size) (fits : garbage.length = size * stride) (hint : Nat) :
    ∃ next, queueMakeRoom queue hint garbage = some next ∧ next.Made stride size places ∧
      next.writeIndex < size := by
  rw [queueMakeRoom, made.sized]
  by_cases full : queue.writeIndex ≥ size
  · rw [if_pos full]
    obtain ⟨chain, spares, -, placed⟩ := made.buckets
    exact queueGrow_made made room (Nat.le_antisymm placed.bounded.1 full) fits hint
  · rw [if_neg full]
    exact ⟨queue, rfl, made, Nat.lt_of_not_le full⟩

theorem Queue.Made.advance (positive : 0 < stride) (inside : queue.writeIndex < size) :
    ∃ write, queue.write = some write ∧ ⟨write, queue.writeIndex * stride⟩ ∉ places ∧
      Queue.Made stride size
        { queue with count := queue.count + 1, writeIndex := queue.writeIndex + 1 }
    (places ++ [⟨write, queue.writeIndex * stride⟩]) := by
  obtain ⟨⟨chain, spares, linked, placed⟩, counted, sized⟩ := made
  cases placed with
  | empty _ _ _ atWrite _ => omega
  | between front last parts atWrite readBound writeBound ordered contents =>
    have distinct := linked.chain_nodup
    rw [parts, List.nodup_append] at distinct
    refine ⟨last, atWrite, ?_, ⟨⟨chain, spares, linked, .between front last parts atWrite readBound
      (Nat.succ_le_of_lt inside) (ordered.trans (Nat.le_succ _)) ?_⟩, ?_, sized⟩⟩
    · rw [contents]
      intro member
      rcases List.mem_append.mp (List.mem_of_mem_drop member) with earlier | here
      · obtain ⟨other, inFront, inOther⟩ := List.mem_flatMap.mp earlier
        obtain rfl : last = other := (mem_bucketPlaces.mp inOther).1
        exact distinct.2.2 last inFront last List.mem_cons_self rfl
      · obtain ⟨-, index, below, same⟩ := mem_bucketPlaces.mp here
        have equal := Nat.eq_of_mul_eq_mul_right positive same
        omega
    · rw [contents, bucketPlaces_succ, ← List.append_assoc]
      exact (List.drop_append_of_le_length (by simpa using ordered)).symm
    · rw [List.length_append, List.length_singleton, counted]

theorem Queue.Made.write {p : StoragePointer} (member : p ∈ places)
    {bytes : List UInt8} (fits : bytes.length ≤ stride) :
    ∃ bucket cells, queue.heap.read p.bucket = some bucket ∧
      blockPaste bucket.storage p.offset bytes = some cells ∧
      Queue.Made stride size
        { queue with heap := queue.heap.write p.bucket { bucket with storage := cells } }
        places := by
  obtain ⟨⟨chain, spares, linked, placed⟩, counted, sized⟩ := made
  obtain ⟨inside, ends⟩ := placed.inside member
  obtain ⟨bucket, here, length⟩ := linked.member_read inside
  have room : p.offset + bytes.length ≤ bucket.storage.length := by omega
  obtain ⟨cells, pasted, same, -⟩ := blockPaste_some room
  obtain ⟨next, relinked, buckets⟩ := linked.rewrite inside here (same.trans length)
  refine ⟨bucket, cells, here, pasted, ⟨next, spares, relinked, ?_⟩, counted, sized⟩
  rw [buckets]
  exact placed

end

end Queues

section Enumeration

variable {stride width size : Nat} {queue : Queue (List UInt8)} {places : List StoragePointer}
  {rover : QueueRover}

def QueueRover.Points (stride size : Nat) (queue : Queue (List UInt8)) (rover : QueueRover)
    (places : List StoragePointer) : Prop :=
  ∃ chain, Linked (fun bytes => bytes.length = size * stride) queue.heap rover.curr none chain [] ∧
    Places stride size queue.write queue.writeIndex rover.index (addresses chain) places

def QueueRover.Comes (stride size : Nat) (queue : Queue (List UInt8)) (places : List StoragePointer)
    (result : Option (QueueRover × Option (List UInt8))) : Prop :=
  (places = [] ∧ ∃ rover, result = some (rover, none)) ∨
    ∃ p rest rover item, places = p :: rest ∧ result = some (rover, some item) ∧
      rover.curr = some p.bucket ∧
      p.offset = (rover.index - 1) * stride ∧ rover.Points stride size queue rest

theorem QueueRover.Points.yields {chain : List (BucketNode (List UInt8))} {bucket : Nat}
    {rest : List StoragePointer} (room : 0 < size) (narrow : width ≤ stride)
    (linked : Linked (fun bytes => bytes.length = size * stride) queue.heap rover.curr none chain [])
    (begins : rover.curr = some bucket) (member : bucket ∈ addresses chain)
    (inside : rover.index < size)
    (within : rover.index < if rover.curr ≠ queue.write then queue.bucketSize else queue.writeIndex)
    (after : Places stride size queue.write queue.writeIndex (rover.index + 1) (addresses chain)
      rest) (fuel : Nat) :
    QueueRover.Comes stride size queue (⟨bucket, rover.index * stride⟩ :: rest)
      (queueEnumeratorNext (structStorage stride width) queue (fuel + 1) rover) := by
  obtain ⟨node, here, fits⟩ := linked.member_read member
  have laws := structStorage_laws room narrow
  obtain ⟨item, loaded⟩ : ∃ item, (structStorage stride width).load node.storage rover.index =
      some item := by
    rw [laws.load _ _ fits inside,
      List.getElem?_eq_getElem (by rw [laws.length _ fits]; exact inside)]
    exact ⟨_, rfl⟩
  refine .inr ⟨_, rest, { rover with index := rover.index + 1 }, item, rfl, ?_, begins, rfl, chain,
    linked, after⟩
  rw [queueEnumeratorNext, if_pos within]
  simp only [begins, here, loaded, Option.bind_eq_bind, Option.bind_some]

theorem queueEnumeratorNext_comes_inside (room : 0 < size) (narrow : width ≤ stride)
    (sized : queue.bucketSize = size) (points : rover.Points stride size queue places)
    (inside : rover.index < size) (fuel : Nat) :
    QueueRover.Comes stride size queue places
      (queueEnumeratorNext (structStorage stride width) queue (fuel + 1) rover) := by
  obtain ⟨chain, linked, placed⟩ := points
  cases placed with
  | empty _ _ atRead _ _ => omega
  | between front last parts atWrite readBound writeBound ordered contents =>
    subst contents
    cases front with
    | nil =>
      obtain ⟨node, rfl, rfl⟩ := List.map_eq_singleton_iff.mp parts
      have begins : rover.curr = some node.1 := linked.chained.1
      simp only [chainPlaces, List.flatMap_nil, List.length_nil, Nat.zero_add,
        List.nil_append] at ordered ⊢
      rcases Nat.lt_or_eq_of_le ordered with before | met
      · rw [bucketPlaces_drop before]
        apply QueueRover.Points.yields room narrow linked begins List.mem_cons_self inside
        · rw [if_neg (not_not_intro (begins.trans atWrite.symm))]
          exact before
        · refine .between [] node.1 rfl atWrite (by omega) writeBound ?_ rfl
          simpa [chainPlaces] using Nat.succ_le_of_lt before
      · left
        refine ⟨List.drop_eq_nil_of_le (by simp [met]), rover, ?_⟩
        rw [queueEnumeratorNext, if_neg, if_pos (by omega)]
        rw [if_neg (not_not_intro (begins.trans atWrite.symm))]
        omega
    | cons first front =>
      obtain ⟨node, rest, rfl, rfl, others⟩ := List.map_eq_cons_iff.mp parts
      have begins : rover.curr = some node.1 := linked.chained.1
      have distinct := linked.chain_nodup
      rw [parts, List.cons_append, List.nodup_cons] at distinct
      have apart : rover.curr ≠ queue.write := by
        rw [begins, atWrite]
        intro same
        cases same
        exact distinct.1 (List.mem_append_right _ List.mem_cons_self)
      have behind : rover.index + 1 ≤ (bucketPlaces stride size node.1).length := by
        rw [bucketPlaces_length]
        exact inside
      rw [chainPlaces_cons, List.append_assoc, List.drop_append_of_le_length (by omega),
        bucketPlaces_drop inside, List.cons_append]
      apply QueueRover.Points.yields room narrow linked begins List.mem_cons_self inside
      · rw [if_pos apart, sized]
        exact inside
      · refine .between (node.1 :: front) last parts atWrite inside writeBound ?_ ?_
        · rw [chainPlaces_cons, List.length_append]
          omega
        · rw [chainPlaces_cons, List.append_assoc, List.drop_append_of_le_length behind]

theorem queueEnumeratorNext_comes (room : 0 < size) (narrow : width ≤ stride)
    (sized : queue.bucketSize = size) (points : rover.Points stride size queue places) :
    QueueRover.Comes stride size queue places (queueEnumeratorNext (structStorage stride width)
      queue 2 rover) := by
  have stands := points
  obtain ⟨chain, linked, placed⟩ := points
  obtain ⟨writeLimit, readLimit⟩ := placed.bounded
  rcases Nat.lt_or_eq_of_le readLimit with inside | atEnd
  · exact queueEnumeratorNext_comes_inside room narrow sized stands inside 1
  · have limited : ¬(rover.index < if rover.curr ≠ queue.write then queue.bucketSize
        else queue.writeIndex) := by
      split <;> omega
    rw [queueEnumeratorNext, if_neg limited, if_neg (by omega)]
    cases placed with
    | empty noBucket _ _ _ noPlaces =>
      obtain rfl : chain = [] := List.map_eq_nil_iff.mp noBucket
      have ends : rover.curr = none := linked.chained
      rw [ends]
      exact .inl ⟨noPlaces, rover, rfl⟩
    | between front last parts atWrite readBound writeBound ordered contents =>
      subst contents
      cases front with
      | nil =>
        obtain ⟨node, rfl, rfl⟩ := List.map_eq_singleton_iff.mp parts
        obtain ⟨begins, here, ends⟩ := linked.chained
        simp only [begins, here, Option.bind_eq_bind, Option.bind_some]
        rw [show node.2.next = none from ends]
        exact .inl ⟨List.drop_eq_nil_of_le (by simp [chainPlaces]; omega), _, rfl⟩
      | cons first front =>
        obtain ⟨node, rest, rfl, rfl, others⟩ := List.map_eq_cons_iff.mp parts
        obtain ⟨begins, here, -⟩ := linked.chained
        obtain ⟨tail, -⟩ := linked.tail
        obtain ⟨next, linkedOn⟩ : ∃ next, node.2.next = some next := by
          cases rest with
          | nil => simp at others
          | cons second rest => exact ⟨_, tail.chained.1⟩
        rw [linkedOn] at tail
        simp only [begins, here, linkedOn, Option.bind_eq_bind, Option.bind_some]
        rw [chainPlaces_cons, List.append_assoc, atEnd, List.drop_left' bucketPlaces_length]
        apply queueEnumeratorNext_comes_inside room narrow sized ⟨rest, tail, ?_⟩ room
        exact .between front last others atWrite (Nat.zero_le _) writeBound (Nat.zero_le _) rfl

theorem structqueueFindPointer_eq {structs : Structqueue} (room : 0 < size)
    (narrow : structs.copySizeofStruct ≤ structs.sizeofStruct)
    (sized : structs.queue.bucketSize = size) (p : StoragePointer) :
    ∀ {places : List StoragePointer} {rover : QueueRover},
      rover.Points structs.sizeofStruct size structs.queue places →
      structqueueFindPointer structs p (places.length + 1) rover = some (decide (p ∈ places)) := by
  intro places
  induction places with
  | nil =>
    intro rover points
    rcases queueEnumeratorNext_comes room narrow sized points with
      ⟨-, next, stopped⟩ | ⟨_, _, _, _, parts, _⟩
    · simp [structqueueFindPointer, Structqueue.storage, stopped]
    · contradiction
  | cons first others ih =>
    intro rover points
    rcases queueEnumeratorNext_comes room narrow sized points with
      ⟨none, -⟩ | ⟨q, rest, next, item, parts, came, curr, offset, after⟩
    · contradiction
    · cases parts
      rw [List.length_cons, structqueueFindPointer, Structqueue.storage, came]
      simp only [Option.bind_eq_bind, Option.bind_some, curr, ← offset]
      by_cases same : first = p
      · simp [same]
      · rw [if_neg same, ih after]
        simp [Ne.symm same]

end Enumeration

end MulleCore
