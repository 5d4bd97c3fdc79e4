import MulleCore.Container.ProbeTableOk

/-!
An open hash table with its count is a finite map from classes of equal keys to the
entries stored for them.
-/

namespace MulleCore

open Library

section Tables

variable {Entry : Type}
variable {allocate : Nat → List Entry} {new : Entry} {index : Nat} {old : Entry} {key : Pointer}
  {entry : Entry}

inductive RemoveCase (keyOf : Entry → Pointer) (callback : Keycallback) (table : ProbeTable Entry)
    (key : Pointer) (next : ProbeTable Entry) (removed : Option Entry) : Prop where
  | missed
      (absent : ∀ entry ∈ table.bag keyOf callback, answersKey keyOf callback key entry ≠ true)
      (same : next = table)
      (answer : removed = none)
  | dropped (old : Entry)
      (answering : answersKey keyOf callback key old = true)
      (before : next.bag keyOf callback + {old} = table.bag keyOf callback)
      (answer : removed = some old)

def bindKey (callback : Keycallback) (bindings : Pointer → Option Entry) (key : Pointer)
    (entry : Entry) : Pointer → Option Entry :=
  fun other => if callback.isEqual other key then some entry else bindings other

def unbindKey (callback : Keycallback) (bindings : Pointer → Option Entry) (key : Pointer) :
    Pointer → Option Entry :=
  fun other => if callback.isEqual other key then none else bindings other

variable {keyOf : Entry → Pointer} {callback : Keycallback} {table next : ProbeTable Entry}

section

variable (ok : table.Ok keyOf callback)
include ok

theorem ProbeTable.Ok.size_ne_zero (nonempty : table.count ≠ 0) :
    table.storage.length ≠ 0 := by
  obtain ⟨entry, member⟩ := Multiset.card_pos_iff_exists_mem.mp
    (Nat.pos_of_ne_zero (ok.counted ▸ nonempty))
  exact TableOk.ne_zero_of_mem member

theorem ProbeTable.Ok.bag_of_count (empty : table.count = 0) :
    table.bag keyOf callback = 0 :=
  Multiset.card_eq_zero.mp (by rw [ok.counted, empty])

theorem ProbeTable.Ok.absent_of_count (empty : table.count = 0) (key : Pointer) :
    ∀ entry ∈ table.bag keyOf callback, answersKey keyOf callback key entry ≠ true := by
  rw [ok.bag_of_count empty]
  exact fun entry member => absurd member (Multiset.notMem_zero entry)

theorem ProbeTable.Ok.sized :
    table.size = 0 ∨
      (∃ power, table.size = 2 ^ (power + 2)) ∧ table.count < table.size ∧
        ∃ entry ∈ table.storage, keyOf entry = callback.notakey := by
  by_cases nonempty : table.storage.length = 0
  · exact Or.inl nonempty
  · right
    refine ⟨ok.slots.sized.resolve_left nonempty, ?_, ?_⟩
    · rw [← ok.counted]
      exact ok.slots.card_lt nonempty
    · obtain ⟨entry, member, isVacant⟩ := ok.slots.spare nonempty
      exact ⟨entry, member, tableVacant_iff.mp isVacant⟩

end

theorem ProbeTable.isFull_iff :
    table.isFull = true ↔ table.storage.length - table.storage.length / 4 ≤ table.count :=
  isFullSize_iff

section

variable (ok : table.Ok keyOf callback)
include ok

theorem ProbeTable.Ok.makeRoom (allocates : Allocates keyOf callback allocate) :
    ∃ next, table.makeRoom keyOf callback allocate = some next ∧ next.Ok keyOf callback ∧
      next.count < next.storage.length - next.storage.length / 4 ∧ next.count = table.count ∧
      next.bag keyOf callback = table.bag keyOf callback := by
  rw [ProbeTable.makeRoom]
  by_cases full : table.isFull = true
  · rw [if_pos full]
    obtain ⟨storage, grown, length, slots, contents⟩ := ok.slots.grow allocates
    refine ⟨{ table with storage := storage }, ?_, ⟨slots, ?_⟩, ?_, rfl, contents⟩
    · rw [ProbeTable.grow, grown]
      rfl
    · exact (congrArg Multiset.card contents).trans ok.counted
    · have room := ok.slots.room
      have count := ok.counted
      rw [ProbeTable.bag] at count
      dsimp only
      rw [length]
      unfold growSize
      split <;> omega
  · rw [if_neg full]
    rw [ProbeTable.isFull_iff] at full
    exact ⟨table, rfl, ok, by omega, rfl, rfl⟩

theorem ProbeTable.Ok.storeNew (allocates : Allocates keyOf callback allocate) {hash : UInt64}
    (occupied : keyOf new ≠ callback.notakey) (hashed : callback.hash (keyOf new) = hash) :
    ∃ next, table.storeNew keyOf callback allocate hash new = some next ∧
      next.Ok keyOf callback ∧ next.count = table.count + 1 ∧
      next.bag keyOf callback = table.bag keyOf callback + {new} := by
  obtain ⟨wide, widened, wideOk, notFull, counted, contents⟩ := ok.makeRoom allocates
  have home : hashForSize (callback.hash (keyOf new)) wide.storage.length =
      hashForSize hash wide.storage.length := by rw [hashed]
  have count := wideOk.counted
  rw [ProbeTable.bag] at count
  obtain ⟨storage, stored, -, slots, added⟩ := wideOk.slots.store occupied home (by omega)
  have total : tableBag keyOf callback storage = table.bag keyOf callback + {new} := by
    rw [added, ← contents, ProbeTable.bag]
  refine ⟨{ storage := storage, count := table.count + 1 }, ?_, ⟨slots, ?_⟩, rfl, total⟩
  · rw [ProbeTable.storeNew, widened]
    simp only [Option.bind_eq_bind, Option.bind_some, ProbeTable.size, stored, counted]
  · rw [ProbeTable.bag, total, Multiset.card_add, Multiset.card_singleton, ok.counted]

theorem ProbeTable.Ok.fill {vacancy : Entry}
    (here : table.storage[index]? = some vacancy) (wasVacant : keyOf vacancy = callback.notakey)
    (occupied : keyOf new ≠ callback.notakey) (notFull : ¬table.isFull = true)
    (way : ∀ step, step < ringDistance table.storage.length
        (hashForSize (callback.hash (keyOf new)) table.storage.length) index →
      Occupied (tableVacant keyOf callback) table.storage (ahead table.storage.length
        (hashForSize (callback.hash (keyOf new)) table.storage.length) step)) :
    ProbeTable.Ok keyOf callback ⟨table.storage.set index new, table.count + 1⟩ ∧
      ProbeTable.bag keyOf callback ⟨table.storage.set index new, table.count + 1⟩ =
        table.bag keyOf callback + {new} := by
  have count := ok.counted
  rw [ProbeTable.isFull_iff] at notFull
  rw [ProbeTable.bag] at count
  obtain ⟨slots, contents⟩ := ok.slots.fill here wasVacant occupied (by omega) way
  refine ⟨⟨slots, ?_⟩, contents⟩
  rw [ProbeTable.bag, contents, Multiset.card_add, Multiset.card_singleton, count]

theorem ProbeTable.Ok.replace
    (here : table.storage[index]? = some old) (wasOccupied : keyOf old ≠ callback.notakey)
    (occupied : keyOf new ≠ callback.notakey)
    (sameHash : callback.hash (keyOf new) = callback.hash (keyOf old)) :
    ∃ rest, ProbeTable.Ok keyOf callback { table with storage := table.storage.set index new } ∧
      rest + {old} = table.bag keyOf callback ∧
      ProbeTable.bag keyOf callback { table with storage := table.storage.set index new } =
        rest + {new} := by
  obtain ⟨slots, contents⟩ := ok.slots.replace here wasOccupied occupied sameHash
  have member : old ∈ table.bag keyOf callback :=
    mem_tableBag.mpr ⟨List.mem_of_getElem? here, wasOccupied⟩
  obtain ⟨rest, parts⟩ := Multiset.exists_cons_of_mem member
  rw [← Multiset.singleton_add, add_comm] at parts
  have after : tableBag keyOf callback (table.storage.set index new) = rest + {new} := by
    rw [ProbeTable.bag] at parts
    rw [parts, add_right_comm] at contents
    exact add_right_cancel contents
  refine ⟨rest, ⟨slots, ?_⟩, parts.symm, after⟩
  have count := ok.counted
  rw [parts, Multiset.card_add, Multiset.card_singleton] at count
  rw [ProbeTable.bag, after, Multiset.card_add, Multiset.card_singleton]
  exact count

theorem ProbeTable.Ok.remove (lawful : callback.Lawful)
    {cleared : Entry} (clearedVacant : keyOf cleared = callback.notakey) (key : Pointer) :
    ∃ next removed, table.remove keyOf callback cleared key = some (next, removed) ∧
      next.Ok keyOf callback ∧ RemoveCase keyOf callback table key next removed := by
  rw [ProbeTable.remove]
  by_cases empty : table.count = 0
  · rw [if_pos empty]
    exact ⟨table, none, rfl, ok, .missed (ok.absent_of_count empty key) rfl rfl⟩
  · rw [if_neg empty, ProbeTable.findIndex]
    rcases ok.slots.find lawful (ok.size_ne_zero empty) key with
      ⟨index, old, landed, here, member, answering⟩ | ⟨index, vacancy, landed, -, -, -, absent⟩
    · rw [landed]
      simp only [here]
      have occupied := (mem_tableBag.mp member).2
      obtain ⟨storage, emptied, -, slots, contents⟩ :=
        ok.slots.removeAt here occupied clearedVacant
      rw [emptied]
      refine ⟨_, _, rfl, ⟨slots, ?_⟩, .dropped old answering contents rfl⟩
      have fewer := congrArg Multiset.card contents
      have count := ok.counted
      rw [ProbeTable.bag] at count ⊢
      rw [Multiset.card_add, Multiset.card_singleton, count] at fewer
      exact Nat.eq_sub_of_add_eq fewer
    · rw [landed]
      exact ⟨table, none, rfl, ok, .missed absent rfl rfl⟩

theorem ProbeTable.Ok.shrink
    (allocates : Allocates keyOf callback allocate) (sparse : table.isSparse = true) :
    ∃ next, table.shrink keyOf callback allocate = some next ∧ next.Ok keyOf callback ∧
      next.count = table.count ∧ next.bag keyOf callback = table.bag keyOf callback := by
  obtain ⟨storage, shrunk, slots, contents⟩ := ok.slots.shrink allocates ok.counted sparse
  refine ⟨{ table with storage := storage }, ?_, ⟨slots, ?_⟩, rfl, contents⟩
  · rw [ProbeTable.shrink, shrunk]
    rfl
  · exact (congrArg Multiset.card contents).trans ok.counted

end

theorem ProbeTable.Fresh.bag (start : table.Fresh keyOf callback) :
    table.bag keyOf callback = 0 :=
  tableBag_of_vacant start.vacant

theorem ProbeTable.Fresh.ok (start : table.Fresh keyOf callback) : table.Ok keyOf callback where
  slots := by
    refine TableOk.of_parts rfl ?_ start.sized ?_
    · exact Sound.of_vacant fun entry member => tableVacant_iff.mpr (start.vacant entry member)
    · rw [tableBag_of_vacant start.vacant, Multiset.card_zero]
      exact Nat.zero_le _
  counted := by rw [start.bag, start.counted, Multiset.card_zero]

theorem Allocates.fresh (allocates : Allocates keyOf callback allocate)
    {capacity : UInt64} (bound : capacity.toNat + capacity.toNat / 4 ≤ 2 ^ 63) :
    ProbeTable.Fresh keyOf callback ⟨allocate (sizeForCapacity capacity), 0⟩ := by
  refine ⟨Or.inr ?_, (allocates _).2, rfl⟩
  rw [ProbeTable.size, (allocates _).1, sizeForCapacity]
  split
  · rename_i large
    exact pow2roundup64_quarter large bound
  · exact ⟨0, rfl⟩

theorem ProbeTable.fresh_empty : ProbeTable.Fresh keyOf callback ⟨[], 0⟩ :=
  ⟨Or.inl rfl, fun _ member => absurd member List.not_mem_nil, rfl⟩

theorem lawful_of_beq {callback : Keycallback}
    (compares : ∀ key other, callback.isEqual key other = (key == other)) : callback.Lawful where
  refl := by
    intro key
    rw [compares, beq_self_eq_true]
  symm := by
    intro key other same
    rw [compares, beq_iff_eq] at same ⊢
    exact same.symm
  trans := by
    intro key other third same next
    rw [compares, beq_iff_eq] at same next ⊢
    exact same.trans next
  hash_eq := by
    intro key other same
    rw [compares, beq_iff_eq] at same
    rw [same]

/-! The finite map. -/

theorem isEqual_congr (equates : callback.Equates) {other : Pointer}
    (same : callback.isEqual key other = true) (third : Pointer) :
    callback.isEqual third key = callback.isEqual third other := by
  rw [Bool.eq_iff_iff]
  constructor
  · exact fun equal => equates.trans third key other equal same
  · exact fun equal => equates.trans third other key equal (equates.symm key other same)

theorem bindKey_eq (equates : callback.Equates)
    (same : answersKey keyOf callback key entry = true) (bindings : Pointer → Option Entry) :
    bindKey callback bindings key entry = bindWrite (answersKey keyOf callback) bindings entry := by
  funext other
  unfold bindKey bindWrite answersKey
  rw [isEqual_congr equates same]

theorem unbindKey_eq (equates : callback.Equates)
    (same : answersKey keyOf callback key entry = true) (bindings : Pointer → Option Entry) :
    unbindKey callback bindings key = bindDrop (answersKey keyOf callback) bindings entry := by
  funext other
  unfold unbindKey bindDrop answersKey
  rw [isEqual_congr equates same]

variable {bindings : Pointer → Option Entry}

theorem ProbeTable.Fresh.holds (start : table.Fresh keyOf callback) :
    table.Holds keyOf callback fun _ => none where
  toOk := start.ok
  represents := by
    rw [start.bag]
    exact Represents.zero

section

variable (holds : table.Holds keyOf callback bindings)
include holds

theorem ProbeTable.Holds.added (lawful : callback.Lawful)
    (alike : answersKey keyOf callback key new = true)
    (absent : ∀ entry ∈ table.bag keyOf callback, answersKey keyOf callback key entry ≠ true)
    (nextOk : next.Ok keyOf callback)
    (contents : next.bag keyOf callback = table.bag keyOf callback + {new}) :
    next.Holds keyOf callback (bindKey callback bindings key new) := by
  refine ⟨nextOk, ?_⟩
  rw [contents, bindKey_eq lawful.toEquates alike]
  refine holds.represents.add fun _ answering entry member entryAnswers => ?_
  -- an entry with an equal key would have answered to the key written
  refine absent entry member (lawful.trans _ _ _ alike (lawful.trans _ _ _ ?_ entryAnswers))
  exact lawful.symm _ _ answering

theorem ProbeTable.Holds.replaced (lawful : callback.Lawful) {rest : Multiset Entry}
    (alike : answersKey keyOf callback key new = true)
    (answering : answersKey keyOf callback key old = true) (nextOk : next.Ok keyOf callback)
    (before : rest + {old} = table.bag keyOf callback)
    (contents : next.bag keyOf callback = rest + {new}) :
    next.Holds keyOf callback (bindKey callback bindings key new) := by
  refine ⟨nextOk, ?_⟩
  rw [contents, bindKey_eq lawful.toEquates alike]
  refine holds.represents.replace before fun other => isEqual_congr lawful.toEquates ?_ other
  exact lawful.trans _ _ _ (lawful.symm _ _ alike) answering

theorem ProbeTable.Holds.removed (lawful : callback.Lawful) {removed : Option Entry}
    (nextOk : next.Ok keyOf callback)
    (emptied : RemoveCase keyOf callback table key next removed) :
    bindings key = removed ∧ next.Holds keyOf callback
      (if removed.isSome then unbindKey callback bindings key else bindings) := by
  have represents := holds.represents
  cases emptied with
  | missed absent same answer =>
    subst same answer
    exact ⟨represents.eq_none absent, holds⟩
  | dropped old answering before answer =>
    subst answer
    have member : old ∈ table.bag keyOf callback := by
      rw [← before]
      exact Multiset.mem_add.mpr (Or.inr (Multiset.mem_singleton_self old))
    refine ⟨represents.eq_some member answering, nextOk, ?_⟩
    rw [Option.isSome_some, if_pos rfl, unbindKey_eq lawful.toEquates answering]
    exact represents.drop before

theorem ProbeTable.Holds.same_bag (nextOk : next.Ok keyOf callback)
    (contents : next.bag keyOf callback = table.bag keyOf callback) :
    next.Holds keyOf callback bindings := by
  refine ⟨nextOk, ?_⟩
  rw [contents]
  exact holds.represents

theorem ProbeTable.Holds.lookup
    (lawful : callback.Lawful) (nonempty : table.count ≠ 0) (key : Pointer) :
    table.lookup keyOf callback key = some (bindings key) := by
  have represents := holds.represents
  rw [ProbeTable.lookup, visitToGet_eq lawful]
  have search : tableProbe (visitToFind keyOf callback key) (callback.hash key) table.storage =
      tableFindIndex keyOf callback table.storage key := rfl
  rw [search]
  rcases holds.slots.find lawful (holds.toOk.size_ne_zero nonempty) key with
    ⟨index, entry, landed, here, member, answering⟩ | ⟨index, vacancy, landed, -, -, -, absent⟩
  · rw [landed, represents.eq_some member answering]
    simp only [here]
  · rw [landed, represents.eq_none absent]

theorem ProbeTable.Holds.eq_none_of_count
    (empty : table.count = 0) (key : Pointer) : bindings key = none :=
  holds.represents.eq_none (holds.toOk.absent_of_count empty key)

theorem ProbeTable.Holds.find?_same (lawful : callback.Lawful) (isKey : key ≠ callback.notakey)
    (scanned : (table.storage.find? fun entry => keyOf entry == key) = some entry) :
    keyOf entry = key ∧ bindings key = some entry := by
  have same : keyOf entry = key := by
    simpa using List.find?_some scanned
  have member : entry ∈ table.bag keyOf callback :=
    mem_tableBag.mpr ⟨List.mem_of_find?_eq_some scanned, same ▸ isKey⟩
  have answering : answersKey keyOf callback key entry = true := by
    rw [answersKey, same]
    exact lawful.refl key
  exact ⟨same, holds.represents.eq_some member answering⟩

theorem ProbeTable.Holds.entries (lawful : callback.Lawful) :
    ∃ entries : List Entry, entries.length = table.count ∧
      (entries.Pairwise fun entry other =>
        callback.isEqual (keyOf entry) (keyOf other) = false) ∧
      ∀ key entry, bindings key = some entry ↔
        entry ∈ entries ∧ callback.isEqual key (keyOf entry) = true := by
  obtain ⟨entries, listed⟩ := Quotient.exists_rep (table.bag keyOf callback)
  have contents : (entries : Multiset Entry) = table.bag keyOf callback := listed
  have represents := holds.represents
  rw [← contents] at represents
  refine ⟨entries, ?_, ?_, represents.binds⟩
  · rw [← Multiset.coe_card, contents]
    exact holds.counted
  · refine represents.pairwise.imp fun {entry _} apart => ?_
    exact Bool.eq_false_iff.mpr (apart (keyOf entry) (lawful.refl (keyOf entry)))

end

end Tables

def crowdedKeycallback : Keycallback where
  hash := fun _ => 6
  isEqual := fun key other => key == other
  notakey := notAPointer

theorem crowdedKeycallback_lawful : crowdedKeycallback.Lawful :=
  lawful_of_beq fun _ _ => rfl

end MulleCore
