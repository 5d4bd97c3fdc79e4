import MulleCore.Container.Queue

/-!
What each operation of a queue does to its buckets, its cursors and its items.
-/

namespace MulleCore

open Library

section Queues

variable {Store Item : Type} {storage : BucketStorage Store Item} {size : Nat}
  {fits : Store → Prop} {accepts : Item → Prop} {view : Store → List Item}
  {heap : Arena (Bucket Store)} {read spare write : Option Nat} {writeIndex readIndex : Nat}
  {chain spares : List (BucketNode Store)} {items : List Item} {total : Nat}
variable {queue : Queue Store} {rover : QueueRover}

theorem Cursors.bounded (cursors : Cursors view size write writeIndex readIndex chain items) :
    writeIndex ≤ size ∧ readIndex ≤ size := by
  cases cursors with
  | empty _ _ atRead atWrite _ => exact ⟨Nat.le_of_eq atWrite, Nat.le_of_eq atRead⟩
  | between _ _ _ _ readBound writeBound _ _ => exact ⟨writeBound, readBound⟩

theorem drop_eq_cons {list : List Item} {index : Nat} {item : Item}
    (here : list[index]? = some item) : list.drop index = item :: list.drop (index + 1) := by
  obtain ⟨bound, rfl⟩ := List.getElem?_eq_some_iff.mp here
  exact List.drop_eq_getElem_cons bound

theorem Cursors.peek (laws : storage.Laws size fits accepts view)
    (linked : Linked fits heap read spare chain spares)
    (cursors : Cursors view size write writeIndex readIndex chain items)
    (inside : readIndex < size) :
    (items = [] ∧ read = write ∧ readIndex = writeIndex) ∨
      ∃ node item rest, read = some node.1 ∧ node ∈ chain ∧
        (view node.2.storage)[readIndex]? = some item ∧ items = item :: rest ∧
        ¬(read = write ∧ readIndex = writeIndex) ∧
        readIndex < (if read ≠ write then size else writeIndex) ∧
        Cursors view size write writeIndex (readIndex + 1) chain rest := by
  cases cursors with
  | empty _ _ atRead _ _ => omega
  | between front last parts atWrite readBound writeBound ordered contents =>
    subst parts
    cases front with
    | nil =>
      obtain ⟨begins, -, -⟩ := linked.chained
      have same : read = write := begins.trans atWrite.symm
      rw [chainItems, List.flatMap_nil, List.nil_append] at contents
      rw [chainItems, List.flatMap_nil, List.length_nil, Nat.zero_add] at ordered
      have lastFits := linked.fits_chain List.mem_cons_self
      have length := laws.length _ lastFits
      rcases Nat.lt_or_eq_of_le ordered with before | met
      · right
        obtain ⟨item, here⟩ : ∃ item, (view last.2.storage)[readIndex]? = some item :=
          ⟨_, List.getElem?_eq_getElem (by omega)⟩
        have taken : ((view last.2.storage).take writeIndex)[readIndex]? = some item := by
          rw [List.getElem?_take_of_lt before]
          exact here
        refine ⟨last, item, _, begins, List.mem_cons_self, here,
          contents.trans (drop_eq_cons taken), ?_, ?_, ?_⟩
        · intro both
          omega
        · rw [if_neg (not_not_intro same)]
          exact before
        · refine .between [] last rfl atWrite (by omega) writeBound ?_ ?_
          · simp only [chainItems, List.flatMap_nil, List.length_nil]
            omega
          · rw [chainItems, List.flatMap_nil, List.nil_append]
      · left
        refine ⟨?_, same, met⟩
        rw [contents, met]
        exact List.drop_eq_nil_of_le (List.length_take_le _ _)
    | cons first front =>
      right
      obtain ⟨begins, -, -⟩ := linked.chained
      have firstFits := linked.fits_chain List.mem_cons_self
      have length := laws.length _ firstFits
      have different : read ≠ write := by
        rw [begins, atWrite]
        intro same
        have nodup := linked.chain_nodup
        rw [List.cons_append, addresses, List.map_cons] at nodup
        refine (List.nodup_cons.mp nodup).1 ?_
        rw [Option.some.inj same]
        exact List.mem_map_of_mem (List.mem_append_right front List.mem_cons_self)
      obtain ⟨item, here⟩ : ∃ item, (view first.2.storage)[readIndex]? = some item :=
        ⟨_, List.getElem?_eq_getElem (by omega)⟩
      have within : (chainItems view (first :: front) ++
          (view last.2.storage).take writeIndex)[readIndex]? = some item := by
        rw [chainItems_cons, List.append_assoc, List.getElem?_append_left (by omega)]
        exact here
      refine ⟨first, item, _, begins, List.mem_cons_self, here,
        contents.trans (drop_eq_cons within), ?_, ?_, ?_⟩
      · intro both
        exact different both.1
      · rw [if_pos different]
        exact inside
      · refine .between (first :: front) last rfl atWrite (by omega) writeBound ?_ rfl
        rw [chainItems_cons, List.length_append]
        omega

theorem Cursors.advance (laws : storage.Laws size fits accepts view)
    {first : BucketNode Store} {rest : List (BucketNode Store)}
    (linked : Linked fits heap read spare (first :: rest) spares)
    (cursors : Cursors view size write writeIndex size (first :: rest) items) :
    (rest = [] ∧ first.2.next = none ∧ read = write ∧ writeIndex = size ∧ items = []) ∨
      ∃ next, first.2.next = some next ∧ Cursors view size write writeIndex 0 rest items := by
  cases cursors with
  | empty noBucket _ _ _ _ => contradiction
  | between front last parts atWrite readBound writeBound ordered contents =>
    obtain ⟨begins, -, tail⟩ := linked.chained
    cases front with
    | nil =>
      left
      rw [List.nil_append, List.cons.injEq] at parts
      obtain ⟨rfl, rfl⟩ := parts
      rw [chainItems, List.flatMap_nil, List.length_nil, Nat.zero_add] at ordered
      refine ⟨rfl, tail, begins.trans atWrite.symm, Nat.le_antisymm writeBound ordered, ?_⟩
      rw [contents, chainItems, List.flatMap_nil, List.nil_append]
      refine List.drop_eq_nil_of_le (Nat.le_trans (List.length_take_le _ _) writeBound)
    | cons node front =>
      right
      rw [List.cons_append, List.cons.injEq] at parts
      obtain ⟨rfl, rfl⟩ := parts
      have length := laws.length _ (linked.fits_chain List.mem_cons_self)
      obtain ⟨next, linkedOn⟩ : ∃ next, first.2.next = some next := by
        cases front with
        | nil => exact ⟨_, tail.1⟩
        | cons second front => exact ⟨_, tail.1⟩
      refine ⟨next, linkedOn, .between front last rfl atWrite (Nat.zero_le _) writeBound
        (Nat.zero_le _) ?_⟩
      rw [contents, chainItems_cons, List.append_assoc, List.drop_left' length, List.drop_zero]

def QueueRover.At (size : Nat) (fits : Store → Prop) (view : Store → List Item)
    (queue : Queue Store) (rover : QueueRover) (items : List Item) : Prop :=
  ∃ chain, Linked fits queue.heap rover.curr none chain [] ∧
    Cursors view size queue.write queue.writeIndex rover.index chain items

def QueueRover.Yields (size : Nat) (fits : Store → Prop) (view : Store → List Item)
    (queue : Queue Store) (items : List Item) (result : Option (QueueRover × Option Item)) : Prop :=
  (items = [] ∧ ∃ rover, result = some (rover, none)) ∨
    ∃ item rest rover, items = item :: rest ∧ result = some (rover, some item) ∧
      rover.At size fits view queue rest

theorem Linked.forget (linked : Linked fits heap read spare chain spares) :
    Linked fits heap read none chain [] := by
  refine ⟨linked.chained, rfl, ?_, ?_⟩
  · rw [addresses, addresses, List.map_nil, List.append_nil]
    exact linked.chain_nodup
  · intro node member
    rw [List.append_nil] at member
    exact linked.fits_chain member

section

variable (laws : storage.Laws size fits accepts view)
include laws

theorem queueEnumeratorNext_inside (sized : queue.bucketSize = size)
    (stands : rover.At size fits view queue items) (inside : rover.index < size) (fuel : Nat) :
    QueueRover.Yields size fits view queue items
      (queueEnumeratorNext storage queue (fuel + 1) rover) := by
  obtain ⟨chain, linked, cursors⟩ := stands
  rw [queueEnumeratorNext, sized]
  rcases cursors.peek laws linked inside with ⟨noItems, same, met⟩ |
      ⟨node, item, rest, begins, member, here, parts, -, within, after⟩
  · left
    refine ⟨noItems, rover, ?_⟩
    rw [if_neg (not_not_intro same), if_neg (by omega), if_pos (by omega)]
  · right
    refine ⟨item, rest, { rover with index := rover.index + 1 }, parts, ?_, chain, linked, after⟩
    rw [if_pos within]
    simp only [begins, Option.bind_eq_bind, Option.bind_some, linked.read_eq member,
      laws.load _ _ (linked.fits_chain member) inside, here]

theorem queueEnumeratorNext_yields (sized : queue.bucketSize = size)
    (stands : rover.At size fits view queue items) :
    QueueRover.Yields size fits view queue items (queueEnumeratorNext storage queue 2 rover) := by
  have stands' := stands
  obtain ⟨chain, linked, cursors⟩ := stands'
  rcases Nat.lt_or_eq_of_le cursors.bounded.2 with inside | atEnd
  · exact queueEnumeratorNext_inside laws sized stands inside 1
  · have limited : ¬(rover.index <
        if rover.curr ≠ queue.write then queue.bucketSize else queue.writeIndex) := by
      have bound := cursors.bounded.1
      split <;> omega
    have same : ¬(rover.index ≠ queue.bucketSize) := by omega
    rw [queueEnumeratorNext, if_neg limited, if_neg same]
    cases chain with
    | nil =>
      left
      have ends : rover.curr = none := linked.chained
      refine ⟨?_, rover, ?_⟩
      · cases cursors with
        | empty _ _ _ _ noItems => exact noItems
        | between front last parts _ _ _ _ _ => simp at parts
      · rw [ends]
    | cons first rest =>
      have begins : rover.curr = some first.1 := linked.chained.1
      have here := linked.read_eq List.mem_cons_self
      rw [atEnd] at cursors
      simp only [begins, Option.bind_eq_bind, here, Option.bind_some]
      rcases cursors.advance laws linked with ⟨-, ends, -, -, noItems⟩ | ⟨next, linkedOn, after⟩
      · left
        rw [ends]
        exact ⟨noItems, _, rfl⟩
      · rw [linkedOn]
        have tail := linked.tail.1
        rw [linkedOn] at tail
        exact queueEnumeratorNext_inside laws sized ⟨rest, tail, after⟩ laws.positive 0

theorem queueEnumerateFrom_eq
    (sized : queue.bucketSize = size) : ∀ {rover : QueueRover} {items : List Item},
    rover.At size fits view queue items →
    queueEnumerateFrom storage queue (items.length + 1) rover = some items := by
  intro rover items
  induction items generalizing rover with
  | nil =>
    intro stands
    rw [List.length_nil, queueEnumerateFrom]
    rcases queueEnumeratorNext_yields laws sized stands with
      ⟨-, next, stopped⟩ | ⟨item, rest, next, parts, -, -⟩
    · simp only [stopped, Option.bind_eq_bind, Option.bind_some]
    · contradiction
  | cons first others ih =>
    intro stands
    rw [List.length_cons, queueEnumerateFrom]
    rcases queueEnumeratorNext_yields laws sized stands with
      ⟨noItems, -⟩ | ⟨item, rest, next, parts, yielded, after⟩
    · contradiction
    · obtain ⟨rfl, rfl⟩ := List.cons.inj parts
      simp only [yielded, ih after, Option.bind_eq_bind, Option.bind_some]

theorem Queue.Holds.enumerates
    (holds : queue.Holds size fits view total items) : queueItems storage queue = some items := by
  obtain ⟨chain, spares, linked, cursors, -⟩ := holds.buckets
  rw [queueItems, holds.counted]
  exact queueEnumerateFrom_eq laws holds.sized ⟨chain, linked.forget, cursors⟩

end

end Queues

end MulleCore
