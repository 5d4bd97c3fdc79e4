import MulleCore.Container.QueueCursors

/-!
Push, pop and reset run without a failed assertion and keep a queue in order.
-/

namespace MulleCore

open Library

section Queues

variable {Store Item : Type} {storage : BucketStorage Store Item} {size : Nat}
  {fits : Store → Prop} {accepts : Item → Prop} {view : Store → List Item}
  {chain spares : List (BucketNode Store)} {items : List Item} {total : Nat}
  {queue : Queue Store}
variable {spare : Option Nat} {garbage : Store}

theorem Linked.nothing_read {heap : Arena (Bucket Store)} {read : Option Nat}
    (linked : Linked fits heap read spare [] spares) : read = none :=
  linked.chained

theorem queueGrow_holds (laws : storage.Laws size fits accepts view)
    (holds : queue.Holds size fits view total items) (full : queue.writeIndex = size)
    (garbageFits : fits garbage) (hint : Nat) :
    ∃ next, queueGrow queue hint garbage = some next ∧
      next.Holds size fits view total items ∧ next.writeIndex < size := by
  obtain ⟨⟨chain, spares, linked, cursors, sum⟩, counted, sized⟩ := holds
  obtain ⟨heap, spare, allowance, p, cells, left, taken, relinked, kept, here, cellsFit, away⟩ :=
    queueNewBucket_some linked garbageFits hint
  rw [queueGrow]
  simp only [taken, Option.bind_eq_bind, Option.bind_some]
  cases cursors with
  | empty noBucket noWrite atRead atWrite noItems =>
    subst noBucket noItems
    have noRead := linked.nothing_read
    simp only [noWrite, queueLink, Option.bind_some, noRead, if_true]
    refine ⟨_, rfl, ⟨⟨[(p, { next := none, storage := cells })], left, ?_, ?_, kept.trans sum⟩,
      counted, sized⟩, laws.positive⟩
    · refine ⟨⟨rfl, here, rfl⟩, relinked.spared, ?_, ?_⟩
      · exact List.nodup_cons.mpr ⟨away, relinked.distinct⟩
      · intro node member
        rcases List.mem_cons.mp member with rfl | inLeft
        · exact cellsFit
        · exact relinked.fits node inLeft
    · exact .between [] _ rfl rfl (Nat.zero_le _) (Nat.zero_le _) (Nat.zero_le _) rfl
  | between front last parts atWrite readBound writeBound ordered contents =>
    subst parts
    have someRead : queue.read ≠ none := by
      intro noRead
      have begins := linked.chained
      rw [noRead] at begins
      cases front with
      | nil => exact absurd begins.1 (by simp)
      | cons first front => exact absurd begins.1 (by simp)
    obtain ⟨lastHere, lastFits, -, -⟩ := relinked.last_alone
    have length := laws.length _ lastFits
    simp only [atWrite, queueLink, lastHere, Option.bind_eq_bind, Option.bind_some,
      if_neg someRead]
    refine ⟨_, rfl, ⟨⟨_, left, relinked.link here cellsFit away, ?_, kept.trans sum⟩,
      counted, sized⟩, laws.positive⟩
    have whole : chainItems view (front ++ [(last.1, { last.2 with next := some p })]) =
        chainItems view front ++ (view last.2.storage).take queue.writeIndex := by
      rw [full, ← length, List.take_length, chainItems_append, chainItems, chainItems,
        List.flatMap_singleton]
    have behind : queue.readIndex ≤
        (chainItems view (front ++ [(last.1, { last.2 with next := some p })])).length + 0 := by
      rw [whole, List.length_append, List.length_take, length]
      omega
    refine .between (front ++ [(last.1, { last.2 with next := some p })]) _ rfl rfl readBound
      (Nat.zero_le _) behind ?_
    rw [whole, List.take_zero, List.append_nil]
    exact contents

theorem queueMakeRoom_holds (laws : storage.Laws size fits accepts view)
    (holds : queue.Holds size fits view total items)
    (garbageFits : fits garbage) (hint : Nat) :
    ∃ next, queueMakeRoom queue hint garbage = some next ∧
      next.Holds size fits view total items ∧ next.writeIndex < size := by
  have sized := holds.sized
  rw [queueMakeRoom, sized]
  by_cases full : queue.writeIndex ≥ size
  · rw [if_pos full]
    obtain ⟨chain, spares, -, cursors, -⟩ := holds.buckets
    exact queueGrow_holds laws holds (Nat.le_antisymm cursors.bounded.1 full) garbageFits hint
  · rw [if_neg full]
    exact ⟨queue, rfl, holds, Nat.lt_of_not_le full⟩

theorem take_succ_set {list : List Item} {index : Nat} (bound : index < list.length) (item : Item) :
    (list.set index item).take (index + 1) = list.take index ++ [item] := by
  rw [List.take_add_one, List.getElem?_set_self bound, List.take_set_of_le (Nat.le_refl index)]
  rfl

section

variable (laws : storage.Laws size fits accepts view)
include laws

/-- A push appends an item, whichever bucket it goes to. -/
theorem queuePush_holds
    (holds : queue.Holds size fits view total items) {item : Item} (accepted : accepts item)
    (garbageFits : fits garbage) (hint : Nat) :
    ∃ next, queuePush storage queue item hint garbage = some next ∧
      next.Holds size fits view total (items ++ [item]) := by
  obtain ⟨roomy, made, ⟨⟨chain, spares, linked, cursors, sum⟩, counted, sized⟩, room⟩ :=
    queueMakeRoom_holds laws holds garbageFits hint
  rw [queuePush]
  simp only [made, Option.bind_eq_bind, Option.bind_some]
  rw [if_pos (by omega)]
  cases cursors with
  | empty _ _ _ atWrite _ => omega
  | between front last parts atWrite readBound writeBound ordered contents =>
    subst parts
    obtain ⟨lastHere, lastFits, -, -⟩ := linked.last_alone
    obtain ⟨cells, saved, cellsFit, viewed⟩ := laws.save _ _ item lastFits accepted room
    have length := laws.length _ lastFits
    simp only [atWrite, Option.bind_some, lastHere, saved]
    have behind : roomy.readIndex ≤
        (chainItems view front ++ (view last.2.storage).take roomy.writeIndex).length := by
      rw [List.length_append, List.length_take, length]
      omega
    refine ⟨_, rfl, ⟨_, spares, linked.store cellsFit, ?_, sum⟩, ?_, sized⟩
    · refine .between front (last.1, { last.2 with storage := cells }) rfl rfl readBound room
        (Nat.le_succ_of_le ordered) ?_
      rw [viewed, take_succ_set (by omega), ← List.append_assoc,
        List.drop_append_of_le_length behind, contents]
    · rw [List.length_append, List.length_singleton, ← counted]

theorem queueShrinkIfRead_holds (holds : queue.Holds size fits view total items) :
    ∃ next, queueShrinkIfRead queue = some next ∧ next.Holds size fits view total items ∧
      (next.readIndex < size ∨
        items = [] ∧ next.read = next.write ∧ next.readIndex = next.writeIndex) := by
  have whole := holds
  obtain ⟨⟨chain, spares, linked, cursors, sum⟩, counted, sized⟩ := holds
  rw [queueShrinkIfRead, sized]
  by_cases inside : queue.readIndex < size
  · rw [if_neg (Nat.not_le_of_lt inside)]
    exact ⟨queue, rfl, whole, Or.inl inside⟩
  · rw [if_pos (Nat.le_of_not_lt inside), queueShrink]
    have atEnd : queue.readIndex = size := by
      have bound := cursors.bounded.2
      omega
    cases chain with
    | nil =>
      have noRead := linked.nothing_read
      rw [noRead]
      refine ⟨queue, rfl, whole, Or.inr ?_⟩
      cases cursors with
      | empty _ noWrite atRead atWrite noItems =>
        exact ⟨noItems, noRead.trans noWrite.symm, atRead.trans atWrite.symm⟩
      | between front last parts _ _ _ _ _ => simp at parts
    | cons first rest =>
      have begins : queue.read = some first.1 := linked.chained.1
      have here := linked.read_eq List.mem_cons_self
      have firstFits := linked.fits_chain List.mem_cons_self
      obtain ⟨tail, away⟩ := linked.tail
      rw [atEnd] at cursors
      simp only [begins, here, Option.bind_eq_bind, Option.bind_some]
      rcases cursors.advance laws linked with
        ⟨rfl, ends, same, atWrite, rfl⟩ | ⟨next, linkedOn, after⟩
      · have asserted : queue.write = some first.1 ∧ queue.writeIndex = queue.readIndex ∧
            queue.count = 0 :=
          ⟨same.symm.trans begins, atWrite.trans atEnd.symm, counted⟩
        rw [ends] at tail
        simp only [ends]
        rw [if_pos asserted]
        obtain ⟨heap, spare, allowance, left, freed, relinked, kept⟩ :=
          queueFreeBucket_some { queue with
            read := none, write := none, readIndex := queue.bucketSize
            writeIndex := queue.bucketSize } tail here firstFits away
        refine ⟨_, freed, ⟨⟨[], left, relinked, ?_, kept.trans sum⟩, counted, sized⟩,
          Or.inr ⟨trivial, rfl, rfl⟩⟩
        exact .empty rfl rfl sized sized rfl
      · rw [linkedOn] at tail
        simp only [linkedOn]
        obtain ⟨heap, spare, allowance, left, freed, relinked, kept⟩ :=
          queueFreeBucket_some { queue with read := some next, readIndex := 0 }
            tail here firstFits away
        exact ⟨_, freed, ⟨⟨rest, left, relinked, after, kept.trans sum⟩, counted, sized⟩,
          Or.inl laws.positive⟩

/-- A pop returns the first item and takes it off. -/
theorem queuePop_holds (holds : queue.Holds size fits view total items) :
    ∃ next, queuePop storage queue = some (next, items.head?) ∧
      next.Holds size fits view total items.tail := by
  obtain ⟨shrunk, done, kept, stands⟩ := queueShrinkIfRead_holds laws holds
  have whole := kept
  obtain ⟨⟨chain, spares, linked, cursors, sum⟩, counted, sized⟩ := kept
  have peeked : (items = [] ∧ shrunk.read = shrunk.write ∧
      shrunk.readIndex = shrunk.writeIndex) ∨ shrunk.readIndex < size := stands.symm
  rw [queuePop]
  simp only [done, Option.bind_eq_bind, Option.bind_some]
  rw [queuePopNoshrink]
  rcases stands with inside | ⟨rfl, same, met⟩
  · rcases cursors.peek laws linked inside with ⟨rfl, same, met⟩ |
        ⟨node, item, rest, begins, member, here, rfl, apart, -, after⟩
    · rw [if_pos ⟨same, met⟩]
      exact ⟨shrunk, rfl, whole⟩
    · have asserted : shrunk.count ≠ 0 ∧ shrunk.readIndex < shrunk.bucketSize := by
        rw [counted, sized, List.length_cons]
        exact ⟨Nat.succ_ne_zero _, inside⟩
      rw [if_neg apart, if_pos asserted]
      simp only [begins, Option.bind_eq_bind, Option.bind_some, linked.read_eq member,
        laws.load _ _ (linked.fits_chain member) inside, here]
      rw [begins] at linked
      refine ⟨_, rfl, ⟨chain, spares, linked, after, sum⟩, ?_, sized⟩
      rw [counted, List.length_cons]
      rfl
  · rw [if_pos ⟨same, met⟩]
    exact ⟨shrunk, rfl, whole⟩

end

theorem queueResetSpares_some : ∀ (allowance : Nat) (queue : Queue Store)
    {chain spares : List (BucketNode Store)},
    Linked fits queue.heap queue.read queue.spares chain spares →
    queue.spareAllowance = allowance →
    ∃ heap read spare rest moved left, queueResetSpares allowance queue =
        some { queue with heap := heap, read := read, spares := spare, spareAllowance := rest } ∧
      Linked fits heap read spare moved left ∧
      left.length + rest = spares.length + queue.spareAllowance := by
  intro allowance
  induction allowance with
  | zero =>
    intro queue chain spares linked _
    exact ⟨_, _, _, _, chain, spares, rfl, linked, rfl⟩
  | succ allowance ih =>
    intro queue chain spares linked allowed
    rw [queueResetSpares]
    cases chain with
    | nil =>
      rw [linked.nothing_read]
      refine ⟨queue.heap, queue.read, queue.spares, queue.spareAllowance, [], spares, rfl,
        linked, rfl⟩
    | cons first rest =>
      have begins : queue.read = some first.1 := linked.chained.1
      have here := linked.read_eq List.mem_cons_self
      obtain ⟨tail, away⟩ := linked.tail
      have apart := away
      rw [List.mem_append, not_or] at apart
      have firstFits := linked.fits_chain List.mem_cons_self
      simp only [begins, here, Option.bind_eq_bind, Option.bind_some]
      have moved : Linked fits (queue.heap.write first.1 { first.2 with next := queue.spares })
          first.2.next (some first.1) rest
          ((first.1, { first.2 with next := queue.spares }) :: spares) := by
        constructor
        · exact tail.chained.write apart.1 _
        · exact ⟨rfl, Arena.read_write_self here _, linked.spared.write apart.2 _⟩
        · exact List.perm_middle.nodup_iff.mpr (List.nodup_cons.mpr ⟨away, tail.distinct⟩)
        · intro node member
          rcases List.mem_append.mp member with inRest | inSpares
          · exact tail.fits_chain inRest
          · rcases List.mem_cons.mp inSpares with rfl | inOld
            · exact firstFits
            · exact tail.fits node (List.mem_append_right _ inOld)
      obtain ⟨heap, read, spare, last, chain, left, done, relinked, kept⟩ :=
        ih { queue with
          heap := queue.heap.write first.1 { first.2 with next := queue.spares }
          read := first.2.next, spares := some first.1, spareAllowance := allowance } moved rfl
      refine ⟨heap, read, spare, last, chain, left, done, relinked, ?_⟩
      calc left.length + last
          = (spares.length + 1) + allowance := kept
        _ = spares.length + queue.spareAllowance := by omega

theorem freeChainedBuckets_some : ∀ {chain : List (BucketNode Store)}
    {fuel : Nat} {heap : Arena (Bucket Store)} {read : Option Nat},
    Linked fits heap read spare chain spares → chain.length < fuel →
    ∃ next, freeChainedBuckets fuel heap read = some next ∧
      Linked fits next none spare [] spares := by
  intro chain
  induction chain with
  | nil =>
    intro fuel heap read linked enough
    obtain ⟨fuel, rfl⟩ := Nat.exists_eq_add_one_of_ne_zero (Nat.ne_of_gt enough)
    have noRead := linked.nothing_read
    subst noRead
    exact ⟨heap, rfl, linked⟩
  | cons first rest ih =>
    intro fuel heap read linked enough
    rw [List.length_cons] at enough
    obtain ⟨fuel, rfl⟩ := Nat.exists_eq_add_one_of_ne_zero (Nat.ne_of_gt (Nat.zero_lt_of_lt enough))
    have begins : read = some first.1 := linked.chained.1
    have here := linked.read_eq List.mem_cons_self
    obtain ⟨tail, away⟩ := linked.tail
    rw [List.mem_append, not_or] at away
    subst begins
    rw [freeChainedBuckets]
    simp only [here, Option.bind_eq_bind, Option.bind_some]
    exact ih ⟨tail.chained.free away.1, tail.spared.free away.2, tail.distinct, tail.fits⟩
      (Nat.lt_of_succ_lt_succ enough)

theorem queueReset_holds (holds : queue.Holds size fits view total items) :
    ∃ next, queueReset queue = some next ∧ next.Holds size fits view total [] := by
  obtain ⟨⟨chain, spares, linked, -, sum⟩, -, sized⟩ := holds
  obtain ⟨heap, read, spare, rest, moved, left, done, relinked, kept⟩ :=
    queueResetSpares_some queue.spareAllowance queue linked rfl
  have enough : moved.length < heap.cells.length + 1 :=
    Nat.lt_succ_of_le (relinked.chained.length_le relinked.chain_nodup)
  obtain ⟨next, freed, cleared⟩ := freeChainedBuckets_some relinked enough
  rw [queueReset]
  simp only [done, freed, Option.bind_eq_bind, Option.bind_some]
  exact ⟨_, rfl, ⟨[], left, cleared, .empty rfl rfl sized sized rfl, kept.trans sum⟩, rfl, sized⟩

end Queues

end MulleCore
