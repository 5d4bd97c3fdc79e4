import MulleCore.Library.Arena
import MulleCore.Library.Block
import MulleCore.Data.Hash

/-!
`mulle--pointerqueue.c` and `mulle--structqueue.c`. The two are the same code over
another bucket storage, which is a parameter here. A result of `none` stands for a
failed `assert` or the use of a bucket that is not allocated. Where `malloc` puts a
bucket (`hint`) and what is in it (`garbage`) are parameters.
-/

namespace MulleCore

open Library

structure BucketStorage (Store Item : Type) where
  load : Store → Nat → Option Item
  save : Store → Nat → Item → Option Store

structure Bucket (Store : Type) where
  next : Option Nat
  storage : Store

structure Queue (Store : Type) where
  heap : Arena (Bucket Store)
  spares : Option Nat
  read : Option Nat
  write : Option Nat
  count : Nat
  readIndex : Nat
  writeIndex : Nat
  bucketSize : Nat
  spareAllowance : Nat

def queueBucketSize (bucketSize : UInt16) : Nat :=
  let bucketSize := if bucketSize = 0 then 64 else bucketSize.toNat
  if bucketSize ≥ 4 then bucketSize else 4

section Buckets

variable {Store : Type}

def queueInit (heap : Arena (Bucket Store)) (bucketSize spareAllowance : UInt16) : Queue Store where
  heap := heap
  spares := none
  read := none
  write := none
  count := 0
  readIndex := queueBucketSize bucketSize
  writeIndex := queueBucketSize bucketSize
  bucketSize := queueBucketSize bucketSize
  spareAllowance := spareAllowance.toNat

def queueNewBucket (queue : Queue Store) (hint : Nat) (garbage : Store) :
    Option (Queue Store × Nat) :=
  match queue.spares with
  | some p => do
      let bucket ← queue.heap.read p
      some ({ queue with
        heap := queue.heap.write p { bucket with next := none }
        spares := bucket.next
        spareAllowance := queue.spareAllowance + 1 }, p)
  | none =>
    let (heap, p) := queue.heap.allocate hint { next := none, storage := garbage }
    some ({ queue with heap := heap }, p)

def queueFreeBucket (queue : Queue Store) (q : Nat) : Option (Queue Store) := do
  let bucket ← queue.heap.read q
  if queue.spareAllowance ≠ 0 then
    some { queue with
      heap := queue.heap.write q { bucket with next := queue.spares }
      spares := some q
      spareAllowance := queue.spareAllowance - 1 }
  else some { queue with heap := queue.heap.free q }

def queueLink (heap : Arena (Bucket Store)) (write : Option Nat) (p : Nat) :
    Option (Arena (Bucket Store)) :=
  match write with
  | none => some heap
  | some q => do
      let bucket ← heap.read q
      some (heap.write q { bucket with next := some p })

def queueGrow (queue : Queue Store) (hint : Nat) (garbage : Store) : Option (Queue Store) := do
  let (queue, p) ← queueNewBucket queue hint garbage
  let heap ← queueLink queue.heap queue.write p
  let queue := { queue with heap := heap, write := some p, writeIndex := 0 }
  some (if queue.read = none then { queue with read := queue.write, readIndex := 0 } else queue)

def queueShrink (queue : Queue Store) : Option (Queue Store) :=
  match queue.read with
  | none => some queue
  | some q => do
      let bucket ← queue.heap.read q
      match bucket.next with
      | none =>
        if queue.write = queue.read ∧ queue.writeIndex = queue.readIndex ∧ queue.count = 0 then
          queueFreeBucket { queue with
            read := none
            write := none
            readIndex := queue.bucketSize
            writeIndex := queue.bucketSize } q
        else none
      | some next => queueFreeBucket { queue with read := some next, readIndex := 0 } q

def queueResetSpares : Nat → Queue Store → Option (Queue Store)
  | 0, queue => some queue
  | allowance + 1, queue =>
    match queue.read with
    | none => some queue
    | some p => do
        let bucket ← queue.heap.read p
        queueResetSpares allowance { queue with
          heap := queue.heap.write p { bucket with next := queue.spares }
          read := bucket.next
          spares := some p
          spareAllowance := allowance }

def freeChainedBuckets : Nat → Arena (Bucket Store) → Option Nat → Option (Arena (Bucket Store))
  | 0, _, _ => none
  | _ + 1, heap, none => some heap
  | fuel + 1, heap, some p => do
      let bucket ← heap.read p
      freeChainedBuckets fuel (heap.free p) bucket.next

def queueReset (queue : Queue Store) : Option (Queue Store) := do
  let queue ← queueResetSpares queue.spareAllowance queue
  let heap ← freeChainedBuckets (queue.heap.cells.length + 1) queue.heap queue.read
  some { queue with
    heap := heap
    read := none
    write := none
    readIndex := queue.bucketSize
    writeIndex := queue.bucketSize
    count := 0 }

variable {Item : Type} (storage : BucketStorage Store Item)

def queueMakeRoom (queue : Queue Store) (hint : Nat) (garbage : Store) : Option (Queue Store) :=
  if queue.writeIndex ≥ queue.bucketSize then queueGrow queue hint garbage else some queue

def queuePush (queue : Queue Store) (item : Item) (hint : Nat) (garbage : Store) :
    Option (Queue Store) := do
  let queue ← queueMakeRoom queue hint garbage
  if queue.writeIndex < queue.bucketSize then do
    let p ← queue.write
    let bucket ← queue.heap.read p
    let cells ← storage.save bucket.storage queue.writeIndex item
    some { queue with
      heap := queue.heap.write p { bucket with storage := cells }
      count := queue.count + 1
      writeIndex := queue.writeIndex + 1 }
  else none

def queuePopNoshrink (queue : Queue Store) : Option (Queue Store × Option Item) :=
  if queue.read = queue.write ∧ queue.readIndex = queue.writeIndex then some (queue, none)
  else if queue.count ≠ 0 ∧ queue.readIndex < queue.bucketSize then do
    let p ← queue.read
    let bucket ← queue.heap.read p
    let item ← storage.load bucket.storage queue.readIndex
    some ({ queue with count := queue.count - 1, readIndex := queue.readIndex + 1 }, some item)
  else none

def queueShrinkIfRead (queue : Queue Store) : Option (Queue Store) :=
  if queue.readIndex ≥ queue.bucketSize then queueShrink queue else some queue

def queuePop (queue : Queue Store) : Option (Queue Store × Option Item) := do
  let queue ← queueShrinkIfRead queue
  queuePopNoshrink storage queue

structure QueueRover where
  curr : Option Nat
  index : Nat

def queueEnumerate (queue : Queue Store) : QueueRover := ⟨queue.read, queue.readIndex⟩

/-- `next` and `__next`, which call each other, at most `fuel` times. -/
def queueEnumeratorNext (queue : Queue Store) : Nat → QueueRover → Option (QueueRover × Option Item)
  | 0, _ => none
  | fuel + 1, rover =>
    let limit := if rover.curr ≠ queue.write then queue.bucketSize else queue.writeIndex
    if rover.index < limit then do
      let p ← rover.curr
      let bucket ← queue.heap.read p
      let item ← storage.load bucket.storage rover.index
      some ({ rover with index := rover.index + 1 }, some item)
    else if rover.index ≠ queue.bucketSize then some (rover, none)
    else
      match rover.curr with
      | none => some (rover, none)
      | some p => do
          let bucket ← queue.heap.read p
          match bucket.next with
          | none => some ({ rover with curr := none }, none)
          | some next => queueEnumeratorNext queue fuel ⟨some next, 0⟩

def queueEnumerateFrom (queue : Queue Store) : Nat → QueueRover → Option (List Item)
  | 0, _ => none
  | fuel + 1, rover => do
      let (rover, item) ← queueEnumeratorNext storage queue 2 rover
      match item with
      | none => some []
      | some item => do
          let rest ← queueEnumerateFrom queue fuel rover
          some (item :: rest)

def queueItems (queue : Queue Store) : Option (List Item) :=
  queueEnumerateFrom storage queue (queue.count + 1) (queueEnumerate queue)

end Buckets

def pointerStorage : BucketStorage (List Pointer) Pointer where
  load := fun cells index => cells[index]?
  save := fun cells index p => blockWrite cells index p

abbrev Pointerqueue := Queue (List Pointer)

def pointerqueuePush (queue : Pointerqueue) (p : Pointer) (hint : Nat) (garbage : Nat → Pointer) :
    Option Pointerqueue :=
  if p ≠ 0 then queuePush pointerStorage queue p hint (table queue.bucketSize garbage) else none

def pointerqueuePop (queue : Pointerqueue) : Option (Pointerqueue × Pointer) := do
  let (queue, p) ← queuePop pointerStorage queue
  some (queue, p.getD 0)

def structStorage (sizeofStruct copySizeofStruct : Nat) :
    BucketStorage (List UInt8) (List UInt8) where
  load := fun bytes index => blockRead bytes (index * sizeofStruct) copySizeofStruct
  save := fun bytes index item =>
    blockPaste bytes (index * sizeofStruct) (item.take copySizeofStruct)

structure Structqueue where
  queue : Queue (List UInt8)
  sizeofStruct : Nat
  copySizeofStruct : Nat

def structqueueInit (heap : Arena (Bucket (List UInt8))) (sizeofStruct alignofStruct : Nat)
    (bucketSize spareAllowance : UInt16) : Structqueue where
  queue := queueInit heap bucketSize spareAllowance
  sizeofStruct := (sizeofStruct + alignofStruct - 1) / alignofStruct * alignofStruct
  copySizeofStruct := sizeofStruct

def Structqueue.storage (structs : Structqueue) : BucketStorage (List UInt8) (List UInt8) :=
  structStorage structs.sizeofStruct structs.copySizeofStruct

def structqueuePush (structs : Structqueue) (p : List UInt8) (hint : Nat) (garbage : Nat → UInt8) :
    Option Structqueue := do
  let queue ← queuePush structs.storage structs.queue p hint
    (table (structs.queue.bucketSize * structs.sizeofStruct) garbage)
  some { structs with queue := queue }

def structqueuePop (structs : Structqueue) : Option (Structqueue × Option (List UInt8)) := do
  let (queue, item) ← queuePop structs.storage structs.queue
  some ({ structs with queue := queue }, item)

/-!
The buckets of a queue are one chain from the read to the write bucket, the spares
another. The items are what lies between the two cursors.
-/

structure BucketStorage.Laws {Store Item : Type} (storage : BucketStorage Store Item) (size : Nat)
    (fits : Store → Prop) (accepts : Item → Prop) (view : Store → List Item) : Prop where
  positive : 0 < size
  length : ∀ cells, fits cells → (view cells).length = size
  load : ∀ cells index, fits cells → index < size → storage.load cells index = (view cells)[index]?
  save : ∀ cells index item, fits cells → accepts item → index < size →
    ∃ next, storage.save cells index item = some next ∧ fits next ∧
      view next = (view cells).set index item

section Queues

variable {Store Item : Type}

abbrev BucketNode (Store : Type) := Nat × Bucket Store

def addresses (nodes : List (BucketNode Store)) : List Nat := nodes.map Prod.fst

def chainItems (view : Store → List Item) (nodes : List (BucketNode Store)) : List Item :=
  nodes.flatMap fun node => view node.2.storage

structure Linked (fits : Store → Prop) (heap : Arena (Bucket Store)) (read spare : Option Nat)
    (chain spares : List (BucketNode Store)) : Prop where
  chained : Chain Bucket.next heap read chain none
  spared : Chain Bucket.next heap spare spares none
  distinct : (addresses chain ++ addresses spares).Nodup
  fits : ∀ node ∈ chain ++ spares, fits node.2.storage

inductive Cursors (view : Store → List Item) (size : Nat) (write : Option Nat)
    (writeIndex readIndex : Nat) (chain : List (BucketNode Store)) (items : List Item) : Prop where
  | empty
      (noBucket : chain = [])
      (noWrite : write = none)
      (atRead : readIndex = size)
      (atWrite : writeIndex = size)
      (noItems : items = [])
  | between (front : List (BucketNode Store)) (last : BucketNode Store)
      (parts : chain = front ++ [last])
      (atWrite : write = some last.1)
      (readBound : readIndex ≤ size)
      (writeBound : writeIndex ≤ size)
      (ordered : readIndex ≤ (chainItems view front).length + writeIndex)
      (contents : items =
        (chainItems view front ++ (view last.2.storage).take writeIndex).drop readIndex)

structure Queue.Holds (size : Nat) (fits : Store → Prop) (view : Store → List Item) (total : Nat)
    (queue : Queue Store) (items : List Item) : Prop where
  buckets : ∃ chain spares, Linked fits queue.heap queue.read queue.spares chain spares ∧
    Cursors view size queue.write queue.writeIndex queue.readIndex chain items ∧
    spares.length + queue.spareAllowance = total
  counted : queue.count = items.length
  sized : queue.bucketSize = size

variable {storage : BucketStorage Store Item} {size : Nat} {fits : Store → Prop}
  {accepts : Item → Prop} {view : Store → List Item} {heap : Arena (Bucket Store)}
  {read spare write : Option Nat} {writeIndex readIndex : Nat}
  {chain spares : List (BucketNode Store)} {items : List Item} {total : Nat}

theorem chainItems_append (front back : List (BucketNode Store)) :
    chainItems view (front ++ back) = chainItems view front ++ chainItems view back :=
  List.flatMap_append

theorem chainItems_cons (node : BucketNode Store) (rest : List (BucketNode Store)) :
    chainItems view (node :: rest) = view node.2.storage ++ chainItems view rest :=
  List.flatMap_cons

section

variable (linked : Linked fits heap read spare chain spares)
include linked

theorem Linked.read_eq
    {node : BucketNode Store} (member : node ∈ chain) : heap.read node.1 = some node.2 :=
  linked.chained.read node member

theorem Linked.fits_chain {node : BucketNode Store} (member : node ∈ chain) : fits node.2.storage :=
  linked.fits node (List.mem_append_left spares member)

theorem Linked.chain_nodup :
    (addresses chain).Nodup :=
  (List.nodup_append.mp linked.distinct).1

theorem Linked.not_spare {address : Nat}
    (member : address ∈ addresses chain) : address ∉ addresses spares := by
  intro other
  exact (List.nodup_append.mp linked.distinct).2.2 address member address other rfl

end

theorem queueNewBucket_some {queue : Queue Store}
    (linked : Linked fits queue.heap queue.read queue.spares chain spares) {garbage : Store}
    (garbageFits : fits garbage) (hint : Nat) :
    ∃ heap spare allowance p cells left, queueNewBucket queue hint garbage =
        some ({ queue with heap := heap, spares := spare, spareAllowance := allowance }, p) ∧
      Linked fits heap queue.read spare chain left ∧
      left.length + allowance = spares.length + queue.spareAllowance ∧
      heap.read p = some { next := none, storage := cells } ∧ fits cells ∧
      p ∉ addresses chain ++ addresses left := by
  rw [queueNewBucket]
  cases first : queue.spares with
  | none =>
    have noSpares : spares = [] := by
      cases spares with
      | nil => rfl
      | cons node rest =>
        have begins := linked.spared.1
        rw [first] at begins
        contradiction
    subst noSpares
    obtain ⟨heap, p, allocated, unused, here, kept⟩ :=
      queue.heap.allocate_spec hint { next := none, storage := garbage }
    have chained : Chain Bucket.next heap queue.read chain none :=
      linked.chained.frame fun node member => by
        rw [kept _ _ (linked.read_eq member), linked.read_eq member]
    refine ⟨heap, none, queue.spareAllowance, p, garbage, [], ?_, ⟨chained, rfl,
      linked.distinct, linked.fits⟩, rfl, here, garbageFits, ?_⟩
    · simp only [allocated]
    · rw [addresses, addresses, List.map_nil, List.append_nil]
      exact linked.chained.not_mem unused
  | some p =>
    cases spares with
    | nil =>
      have ends := linked.spared
      rw [first] at ends
      contradiction
    | cons node rest =>
      obtain ⟨begins, here, tail⟩ := linked.spared
      rw [first, Option.some.injEq] at begins
      subst begins
      have distinct := linked.distinct
      rw [addresses, addresses, List.map_cons] at distinct
      have apart := List.nodup_cons.mp (List.perm_middle.nodup_iff.mp distinct)
      have away := apart.1
      rw [List.mem_append, not_or] at away
      refine ⟨_, node.2.next, queue.spareAllowance + 1, node.1, node.2.storage, rest, ?_,
        ⟨linked.chained.write away.1 _, tail.write away.2 _, apart.2, ?_⟩, ?_,
        Arena.read_write_self here _, ?_, apart.1⟩
      · simp only [here, Option.bind_eq_bind, Option.bind_some]
      · intro other member
        refine linked.fits other ?_
        rcases List.mem_append.mp member with inChain | inRest
        · exact List.mem_append_left _ inChain
        · exact List.mem_append_right _ (List.mem_cons_of_mem node inRest)
      · rw [List.length_cons]
        omega
      · exact linked.fits node (List.mem_append_right _ List.mem_cons_self)

theorem queueFreeBucket_some (queue : Queue Store)
    (linked : Linked fits queue.heap queue.read queue.spares chain spares) {q : Nat}
    {bucket : Bucket Store} (here : queue.heap.read q = some bucket)
    (bucketFits : fits bucket.storage) (away : q ∉ addresses chain ++ addresses spares) :
    ∃ heap spare allowance left, queueFreeBucket queue q =
        some { queue with heap := heap, spares := spare, spareAllowance := allowance } ∧
      Linked fits heap queue.read spare chain left ∧
      left.length + allowance = spares.length + queue.spareAllowance := by
  have apart := away
  rw [List.mem_append, not_or] at apart
  rw [queueFreeBucket]
  simp only [here, Option.bind_eq_bind, Option.bind_some]
  by_cases room : queue.spareAllowance ≠ 0
  · rw [if_pos room]
    refine ⟨_, _, _, (q, { bucket with next := queue.spares }) :: spares, rfl,
      ⟨linked.chained.write apart.1 _, ?_, ?_, ?_⟩, ?_⟩
    · exact ⟨rfl, Arena.read_write_self here _, linked.spared.write apart.2 _⟩
    · rw [addresses, addresses, List.map_cons]
      exact List.perm_middle.nodup_iff.mpr (List.nodup_cons.mpr ⟨away, linked.distinct⟩)
    · intro node member
      rcases List.mem_append.mp member with inChain | inSpares
      · exact linked.fits_chain inChain
      · rcases List.mem_cons.mp inSpares with rfl | inSpares
        · exact bucketFits
        · exact linked.fits node (List.mem_append_right _ inSpares)
    · rw [List.length_cons]
      omega
  · rw [if_neg room]
    exact ⟨_, queue.spares, queue.spareAllowance, spares, rfl,
      ⟨linked.chained.free apart.1, linked.spared.free apart.2, linked.distinct, linked.fits⟩, rfl⟩

theorem Linked.last_alone {front : List (BucketNode Store)} {last : BucketNode Store}
    (linked : Linked fits heap read spare (front ++ [last]) spares) :
    heap.read last.1 = some last.2 ∧ fits last.2.storage ∧
      last.1 ∉ front.map Prod.fst ∧ last.1 ∉ spares.map Prod.fst := by
  have member : last ∈ front ++ [last] := List.mem_append_right front List.mem_cons_self
  have nodup := linked.chain_nodup
  rw [addresses, List.map_append, List.map_singleton] at nodup
  refine ⟨linked.read_eq member, linked.fits_chain member, ?_,
    linked.not_spare (List.mem_map_of_mem member)⟩
  intro inFront
  exact (List.nodup_append.mp nodup).2.2 _ inFront _ List.mem_cons_self rfl

theorem Linked.link {front : List (BucketNode Store)} {last : BucketNode Store}
    (linked : Linked fits heap read spare (front ++ [last]) spares) {p : Nat} {cells : Store}
    (here : heap.read p = some { next := none, storage := cells }) (cellsFit : fits cells)
    (away : p ∉ addresses (front ++ [last]) ++ addresses spares) :
    Linked fits (heap.write last.1 { last.2 with next := some p }) read spare
      (front ++ [(last.1, { last.2 with next := some p })] ++
        [(p, { next := none, storage := cells })]) spares := by
  obtain ⟨lastHere, lastFits, frontAway, spareAway⟩ := linked.last_alone
  have different : last.1 ≠ p := by
    rintro rfl
    refine away (List.mem_append_left _ (List.mem_map_of_mem ?_))
    exact List.mem_append_right front List.mem_cons_self
  obtain ⟨middle, first, begins, -, -⟩ := Chain.append.mp linked.chained
  constructor
  · rw [List.append_assoc]
    refine Chain.append.mpr ⟨middle, first.write frontAway _, begins, ?_, rfl, ?_, rfl⟩
    · exact Arena.read_write_self lastHere _
    · rw [Arena.read_write_ne _ different]
      exact here
  · exact linked.spared.write spareAway _
  · have same : addresses (front ++ [(last.1, { last.2 with next := some p })] ++
        [(p, { next := none, storage := cells })]) = addresses (front ++ [last]) ++ [p] := by
      simp [addresses]
    rw [same, List.append_assoc]
    exact List.perm_middle.nodup_iff.mpr (List.nodup_cons.mpr ⟨away, linked.distinct⟩)
  · intro node member
    rcases List.mem_append.mp member with inChain | inSpares
    · rcases List.mem_append.mp inChain with inOld | isNew
      · rcases List.mem_append.mp inOld with inFront | isLast
        · exact linked.fits_chain (List.mem_append_left _ inFront)
        · rw [List.mem_singleton.mp isLast]
          exact lastFits
      · rw [List.mem_singleton.mp isNew]
        exact cellsFit
    · exact linked.fits node (List.mem_append_right _ inSpares)

theorem Linked.store {front : List (BucketNode Store)} {last : BucketNode Store}
    (linked : Linked fits heap read spare (front ++ [last]) spares) {cells : Store}
    (cellsFit : fits cells) :
    Linked fits (heap.write last.1 { last.2 with storage := cells }) read spare
      (front ++ [(last.1, { last.2 with storage := cells })]) spares := by
  obtain ⟨lastHere, -, frontAway, spareAway⟩ := linked.last_alone
  obtain ⟨middle, first, begins, -, ends⟩ := Chain.append.mp linked.chained
  constructor
  · exact Chain.append.mpr ⟨middle, first.write frontAway _, begins,
      Arena.read_write_self lastHere _, ends⟩
  · exact linked.spared.write spareAway _
  · have same : addresses (front ++ [(last.1, { last.2 with storage := cells })]) =
        addresses (front ++ [last]) := by
      simp [addresses]
    rw [same]
    exact linked.distinct
  · intro node member
    rcases List.mem_append.mp member with inChain | inSpares
    · rcases List.mem_append.mp inChain with inFront | isLast
      · exact linked.fits_chain (List.mem_append_left _ inFront)
      · rw [List.mem_singleton.mp isLast]
        exact cellsFit
    · exact linked.fits node (List.mem_append_right _ inSpares)

theorem Linked.tail {first : BucketNode Store} {rest : List (BucketNode Store)}
    (linked : Linked fits heap read spare (first :: rest) spares) :
    Linked fits heap first.2.next spare rest spares ∧
      first.1 ∉ addresses rest ++ addresses spares := by
  obtain ⟨-, -, tail⟩ := linked.chained
  have distinct := linked.distinct
  rw [addresses, List.map_cons, List.cons_append] at distinct
  have apart := List.nodup_cons.mp distinct
  exact ⟨⟨tail, linked.spared, apart.2, fun node member =>
    linked.fits node (List.mem_cons_of_mem first member)⟩, apart.1⟩

end Queues

end MulleCore
