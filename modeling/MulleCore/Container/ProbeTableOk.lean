import MulleCore.Container.ProbeTable

/-!
What the operations on an open hash table do to the bag of its entries.
-/

namespace MulleCore

open Library

section Tables

variable {Entry : Type} {keyOf : Entry → Pointer} {callback : Keycallback}
variable {entry : Entry} {slots : List Entry} {size : Nat} {key : Pointer} {start count index : Nat}
  {old new : Entry}

theorem tableVacant_iff :
    tableVacant keyOf callback entry = true ↔ keyOf entry = callback.notakey := by
  rw [tableVacant, beq_iff_eq]

theorem tableVacant_eq_false :
    tableVacant keyOf callback entry = false ↔ keyOf entry ≠ callback.notakey := by
  rw [tableVacant, beq_eq_false_iff_ne]

theorem mem_tableBag :
    entry ∈ tableBag keyOf callback slots ↔ entry ∈ slots ∧ keyOf entry ≠ callback.notakey := by
  rw [tableBag, mem_bag, tableVacant_eq_false]

theorem tableBag_cons (first : Entry) (rest : List Entry) :
    tableBag keyOf callback (first :: rest) =
      (if keyOf first = callback.notakey then 0 else {first}) + tableBag keyOf callback rest := by
  simp only [tableBag, bag, List.map_cons, List.sum_cons, tableVacant_iff]

theorem tableBag_of_vacant (vacant : ∀ entry ∈ slots, keyOf entry = callback.notakey) :
    tableBag keyOf callback slots = 0 := by
  refine Multiset.eq_zero_of_forall_notMem fun entry member => ?_
  obtain ⟨inside, occupied⟩ := mem_tableBag.mp member
  exact occupied (vacant entry inside)

theorem TableOk.of_parts (length : slots.length = size)
    (sound : Sound (tableVacant keyOf callback) (tableHome keyOf callback size) slots)
    (sized : size = 0 ∨ ∃ power, size = 2 ^ (power + 2))
    (room : (tableBag keyOf callback slots).card ≤ size - size / 4) :
    TableOk keyOf callback slots := by
  subst length
  exact ⟨sound, sized, room⟩

section

variable (ok : TableOk keyOf callback slots)
include ok

theorem TableOk.four_le (nonempty : slots.length ≠ 0) : 4 ≤ slots.length := by
  rcases ok.sized with empty | ⟨power, sized⟩
  · exact absurd empty nonempty
  · have scaled : 2 ^ (power + 2) = 2 ^ power * 4 := by rw [Nat.pow_add]
    have positive : 0 < 2 ^ power := Nat.two_pow_pos power
    omega

theorem TableOk.wraps
    (nonempty : slots.length ≠ 0) : Wraps slots.length (maskStep slots.length) := by
  rcases ok.sized with empty | ⟨power, sized⟩
  · exact absurd empty nonempty
  · rw [sized]
    exact maskStep_wraps

theorem TableOk.card_lt
    (nonempty : slots.length ≠ 0) : (tableBag keyOf callback slots).card < slots.length := by
  have big := ok.four_le nonempty
  have room := ok.room
  omega

theorem TableOk.spare
    (nonempty : slots.length ≠ 0) : HasVacancy (tableVacant keyOf callback) slots :=
  hasVacancy_of_card_lt (ok.card_lt nonempty)

end

theorem TableOk.ne_zero_of_mem
    (member : entry ∈ tableBag keyOf callback slots) : slots.length ≠ 0 :=
  List.length_pos_iff.mpr (List.ne_nil_of_mem (mem_tableBag.mp member).1) |>.ne'

theorem TableOk.probe (ok : TableOk keyOf callback slots)
    (nonempty : slots.length ≠ 0) {visit : Entry → Visit} {hash : UInt64}
    (holes : ∀ entry, visit entry = .hole ↔ keyOf entry = callback.notakey)
    (hits : ∀ entry, visit entry = .hit → callback.hash (keyOf entry) = hash) :
    (∃ index entry, tableProbe visit hash slots = some (.found index) ∧
      slots[index]? = some entry ∧ keyOf entry ≠ callback.notakey ∧ visit entry = .hit) ∨
    (∃ index vacancy, tableProbe visit hash slots = some (.hole index) ∧
      slots[index]? = some vacancy ∧ keyOf vacancy = callback.notakey ∧
      (∀ step, step < ringDistance slots.length (hashForSize hash slots.length) index →
        Occupied (tableVacant keyOf callback) slots
          (ahead slots.length (hashForSize hash slots.length) step)) ∧
      ∀ other ∈ tableBag keyOf callback slots, visit other ≠ .hit) := by
  have big := ok.four_le nonempty
  have startBound : hashForSize hash slots.length < slots.length := hashForSize_lt hash (by omega)
  have found := ok.sound.search (ok.wraps nonempty) (fun entry => by rw [holes, tableVacant_iff])
    startBound (le_refl slots.length)
    (fun entry _ _ hit => by rw [tableHome, hits entry hit]) (ok.spare nonempty)
  rcases found with ⟨index, entry, landed, here, occupied, hit⟩ |
    ⟨index, vacancy, landed, here, isVacant, way, none⟩
  · exact Or.inl ⟨index, entry, landed, here, tableVacant_eq_false.mp occupied, hit⟩
  · refine Or.inr ⟨index, vacancy, landed, here, tableVacant_iff.mp isVacant, way, ?_⟩
    intro other member
    obtain ⟨inside, occupied⟩ := mem_tableBag.mp member
    exact none other inside (tableVacant_eq_false.mpr occupied)

theorem visitToFind_hole (entry : Entry) :
    visitToFind keyOf callback key entry = .hole ↔ keyOf entry = callback.notakey := by
  unfold visitToFind
  split
  · simp [*]
  · split <;> simp [*]

theorem visitToFind_hit (entry : Entry) :
    visitToFind keyOf callback key entry = .hit ↔
      keyOf entry ≠ callback.notakey ∧ answersKey keyOf callback key entry = true := by
  unfold visitToFind answersKey
  split
  · simp [*]
  · split <;> simp [*]

theorem visitToGet_eq (lawful : callback.Lawful) (key : Pointer) :
    visitToGet keyOf callback key = visitToFind keyOf callback key := by
  funext entry
  unfold visitToGet visitToFind
  split
  · rfl
  · by_cases same : key = keyOf entry
    · rw [if_pos same, ← same, lawful.refl key, if_pos rfl]
    · have swap : callback.isEqual (keyOf entry) key = callback.isEqual key (keyOf entry) :=
        Bool.eq_iff_iff.mpr ⟨lawful.symm _ _, lawful.symm _ _⟩
      rw [if_neg same, swap]

theorem TableOk.find (ok : TableOk keyOf callback slots)
    (lawful : callback.Lawful) (nonempty : slots.length ≠ 0) (key : Pointer) :
    (∃ index entry, tableFindIndex keyOf callback slots key = some (.found index) ∧
      slots[index]? = some entry ∧ entry ∈ tableBag keyOf callback slots ∧
      answersKey keyOf callback key entry = true) ∨
    (∃ index vacancy, tableFindIndex keyOf callback slots key = some (.hole index) ∧
      slots[index]? = some vacancy ∧ keyOf vacancy = callback.notakey ∧
      (∀ step, step < ringDistance slots.length
          (hashForSize (callback.hash key) slots.length) index →
        Occupied (tableVacant keyOf callback) slots
          (ahead slots.length (hashForSize (callback.hash key) slots.length) step)) ∧
      ∀ other ∈ tableBag keyOf callback slots, answersKey keyOf callback key other ≠ true) := by
  have hits : ∀ entry, visitToFind keyOf callback key entry = .hit →
      callback.hash (keyOf entry) = callback.hash key := by
    intro entry hit
    exact (lawful.hash_eq key (keyOf entry) ((visitToFind_hit entry).mp hit).2).symm
  rcases ok.probe nonempty visitToFind_hole hits with
    ⟨index, entry, landed, here, occupied, hit⟩ | ⟨index, vacancy, landed, here, isVacant, way, none⟩
  · exact Or.inl ⟨index, entry, landed, here,
      mem_tableBag.mpr ⟨List.mem_of_getElem? here, occupied⟩, ((visitToFind_hit entry).mp hit).2⟩
  · refine Or.inr ⟨index, vacancy, landed, here, isVacant, way, ?_⟩
    intro other member answering
    exact none other member ((visitToFind_hit other).mpr ⟨(mem_tableBag.mp member).2, answering⟩)

theorem tableStore_some
    (sound : Sound (tableVacant keyOf callback) (tableHome keyOf callback slots.length) slots)
    (startBound : start < slots.length)
    (home : tableHome keyOf callback slots.length entry = start)
    (occupied : keyOf entry ≠ callback.notakey)
    (spare : (tableBag keyOf callback slots).card < slots.length) :
    ∃ result, tableStore keyOf callback slots start entry = some result ∧
      result.length = slots.length ∧
      Sound (tableVacant keyOf callback) (tableHome keyOf callback slots.length) result ∧
      tableBag keyOf callback result = tableBag keyOf callback slots + {entry} := by
  have holes : ∀ other, visitToStore keyOf callback other = .hole ↔
      tableVacant keyOf callback other = true := by
    intro other
    rw [tableVacant_iff, visitToStore]
    split <;> simp [*]
  have never : ∀ other, visitToStore keyOf callback other ≠ .hit := by
    intro other
    unfold visitToStore
    split <;> exact Visit.noConfusion
  have found := sound.search (wrapStep_wraps slots.length) holes startBound (le_refl _)
    (fun other _ _ hit => absurd hit (never other)) (hasVacancy_of_card_lt spare)
  rcases found with ⟨index, other, -, -, -, hit⟩ | ⟨index, vacancy, landed, here, isVacant, way, -⟩
  · exact absurd hit (never other)
  · have entryOccupied := tableVacant_eq_false.mpr occupied
    refine ⟨slots.set index entry, ?_, by rw [List.length_set], ?_, ?_⟩
    · rw [tableStore, landed]
    · refine sound.fill here isVacant (home ▸ startBound) ?_
      rw [home]
      exact way
    · exact bag_fill here isVacant entryOccupied

theorem tableCopyStorage_some : ∀ (src dst : List Entry), 2 ≤ dst.length →
    Sound (tableVacant keyOf callback) (tableHome keyOf callback dst.length) dst →
    (tableBag keyOf callback dst).card + (tableBag keyOf callback src).card ≤ dst.length →
    ∃ result, tableCopyStorage keyOf callback dst src = some result ∧
      result.length = dst.length ∧
      Sound (tableVacant keyOf callback) (tableHome keyOf callback dst.length) result ∧
      tableBag keyOf callback result = tableBag keyOf callback dst + tableBag keyOf callback src := by
  intro src
  induction src with
  | nil =>
    intro dst _ sound _
    exact ⟨dst, rfl, rfl, sound, by simp [tableBag, bag]⟩
  | cons first rest ih =>
    intro dst big sound room
    rw [tableBag_cons] at room ⊢
    rw [tableCopyStorage, List.foldlM_cons]
    by_cases isVacant : keyOf first = callback.notakey
    · rw [if_pos isVacant] at room ⊢
      rw [if_pos isVacant, zero_add]
      rw [zero_add] at room
      exact ih dst big sound room
    · rw [if_neg isVacant] at room ⊢
      rw [if_neg isVacant]
      rw [Multiset.card_add, Multiset.card_singleton] at room
      obtain ⟨next, stored, length, nextSound, contents⟩ :=
        tableStore_some sound (hashForSize_lt _ big) rfl isVacant (by omega)
      have nextRoom : (tableBag keyOf callback next).card + (tableBag keyOf callback rest).card ≤
          next.length := by
        rw [contents, Multiset.card_add, Multiset.card_singleton, length]
        omega
      obtain ⟨result, copied, resultLength, resultSound, resultContents⟩ :=
        ih next (by rwa [length]) (by rwa [length]) nextRoom
      refine ⟨result, ?_, by rw [resultLength, length], by rwa [length] at resultSound, ?_⟩
      · rw [tableHome, stored]
        exact copied
      · rw [resultContents, contents, add_assoc]

def Allocates (keyOf : Entry → Pointer) (callback : Keycallback) (allocate : Nat → List Entry) :
    Prop :=
  ∀ size, (allocate size).length = size ∧ ∀ entry ∈ allocate size, keyOf entry = callback.notakey

theorem Allocates.copy {allocate : Nat → List Entry} (allocates : Allocates keyOf callback allocate)
    (slots : List Entry) {size : Nat} (big : 2 ≤ size)
    (room : (tableBag keyOf callback slots).card ≤ size) :
    ∃ result, tableCopyStorage keyOf callback (allocate size) slots = some result ∧
      result.length = size ∧
      Sound (tableVacant keyOf callback) (tableHome keyOf callback size) result ∧
      tableBag keyOf callback result = tableBag keyOf callback slots := by
  obtain ⟨length, vacant⟩ := allocates size
  have empty := tableBag_of_vacant vacant
  have sound : Sound (tableVacant keyOf callback) (tableHome keyOf callback size) (allocate size) :=
    Sound.of_vacant fun entry member => tableVacant_iff.mpr (vacant entry member)
  obtain ⟨result, copied, resultLength, resultSound, contents⟩ :=
    tableCopyStorage_some slots (allocate size) (by omega) (by rwa [length])
      (by rwa [empty, Multiset.card_zero, zero_add, length])
  rw [length] at resultLength resultSound
  exact ⟨result, copied, resultLength, resultSound, by rw [contents, empty, zero_add]⟩

theorem growSize_sized (sized : size = 0 ∨ ∃ power, size = 2 ^ (power + 2)) :
    ∃ power, growSize size = 2 ^ (power + 2) := by
  unfold growSize
  rcases sized with rfl | ⟨power, rfl⟩
  · exact ⟨0, rfl⟩
  · have positive : 0 < 2 ^ (power + 2) := Nat.two_pow_pos (power + 2)
    refine ⟨power + 1, ?_⟩
    rw [if_neg (by omega), ← Nat.pow_succ]

theorem TableOk.grow {slots : List Entry} (ok : TableOk keyOf callback slots)
    {allocate : Nat → List Entry} (allocates : Allocates keyOf callback allocate) :
    ∃ result, tableGrow keyOf callback allocate slots = some result ∧
      result.length = growSize slots.length ∧ TableOk keyOf callback result ∧
      tableBag keyOf callback result = tableBag keyOf callback slots := by
  obtain ⟨power, sized⟩ := growSize_sized ok.sized
  have room := ok.room
  have larger : 4 ≤ growSize slots.length ∧ slots.length ≤ growSize slots.length -
      growSize slots.length / 4 := by
    by_cases empty : slots.length = 0
    · rw [empty]
      decide
    · have big := ok.four_le empty
      unfold growSize
      rw [if_neg (by omega)]
      omega
  obtain ⟨result, copied, length, sound, contents⟩ :=
    @Allocates.copy _ _ _ _ allocates slots (growSize slots.length) (by omega) (by omega)
  refine ⟨result, copied, length, ?_, contents⟩
  exact TableOk.of_parts length sound (Or.inr ⟨power, sized⟩) (by rw [contents]; omega)

theorem isSparseSize_iff :
    isSparseSize count size = true ↔ count < size / 2 - size / 2 / 4 := by
  rw [isSparseSize, decide_eq_true_iff, Nat.shiftRight_eq_div_pow]

theorem isFullSize_iff :
    isFullSize count size = true ↔ size - size / 4 ≤ count := by
  rw [isFullSize, decide_eq_true_iff, Nat.shiftRight_eq_div_pow]

theorem halveWhileSparse_some : ∀ (fuel power : Nat), power < fuel →
    count < 2 ^ power - 2 ^ power / 4 →
    ∃ result smaller, halveWhileSparse count fuel (2 ^ power) = some result ∧
      result = 2 ^ smaller ∧ count < result - result / 4 := by
  intro fuel
  induction fuel with
  | zero => intro power enough; omega
  | succ fuel ih =>
    intro power enough room
    rw [halveWhileSparse]
    by_cases sparse : isSparseSize count (2 ^ power) = true
    · rw [if_pos sparse]
      rw [isSparseSize_iff] at sparse
      obtain ⟨lower, rfl⟩ : ∃ lower, power = lower + 1 := by
        cases power with
        | zero => simp at sparse
        | succ lower => exact ⟨lower, rfl⟩
      have half : 2 ^ (lower + 1) / 2 = 2 ^ lower := by
        rw [Nat.pow_succ, Nat.mul_div_cancel _ (by decide)]
      rw [half] at sparse ⊢
      split
      · exact ⟨2 ^ lower, lower, rfl, rfl, sparse⟩
      · exact ih lower (by omega) sparse
    · rw [if_neg sparse]
      exact ⟨2 ^ power, power, rfl, rfl, room⟩

section

variable (ok : TableOk keyOf callback slots)
include ok

theorem TableOk.shrink {allocate : Nat → List Entry} (allocates : Allocates keyOf callback allocate)
    (counted : (tableBag keyOf callback slots).card = count)
    (sparse : isSparseSize count slots.length = true) :
    ∃ result, tableShrink keyOf callback allocate slots count = some result ∧
      TableOk keyOf callback result ∧
      tableBag keyOf callback result = tableBag keyOf callback slots := by
  have fits := isSparseSize_iff.mp sparse
  obtain ⟨power, sized⟩ : ∃ power, slots.length = 2 ^ (power + 2) := by
    rcases ok.sized with empty | sized
    · rw [empty] at fits
      omega
    · exact sized
  have half : slots.length / 2 = 2 ^ (power + 1) := by
    rw [sized, Nat.pow_succ, Nat.mul_div_cancel _ (by decide)]
  have enough : power + 1 < slots.length := by
    have below : power + 2 < 2 ^ (power + 2) := Nat.lt_two_pow_self
    omega
  rw [half] at fits
  obtain ⟨size, smaller, halved, isPower, room⟩ := halveWhileSparse_some slots.length (power + 1)
    enough fits
  have newSized : ∃ lower, (if size < 4 then 4 else size) = 2 ^ (lower + 2) := by
    split
    · exact ⟨0, rfl⟩
    · obtain ⟨lower, rfl⟩ : ∃ lower, smaller = lower + 2 := by
        refine ⟨smaller - 2, ?_⟩
        by_contra low
        have small : smaller = 0 ∨ smaller = 1 := by omega
        rcases small with rfl | rfl
        · omega
        · omega
      exact ⟨lower, isPower⟩
  have newRoom : count < (if size < 4 then 4 else size) - (if size < 4 then 4 else size) / 4 := by
    split <;> omega
  rw [tableShrink, if_pos sparse, half, halved]
  dsimp only
  generalize (if size < 4 then 4 else size) = newSize at newSized newRoom
  split
  · exact ⟨slots, rfl, ok, rfl⟩
  · rw [if_pos (by omega)]
    obtain ⟨lower, newSized⟩ := newSized
    have big : 2 ≤ newSize := by
      have scaled : 2 ^ (lower + 2) = 2 ^ lower * 4 := by rw [Nat.pow_add]
      have positive : 0 < 2 ^ lower := Nat.two_pow_pos lower
      omega
    obtain ⟨result, copied, length, sound, contents⟩ :=
      allocates.copy slots big (by omega)
    refine ⟨result, copied, ?_, contents⟩
    exact TableOk.of_parts length sound (Or.inr ⟨lower, newSized⟩) (by rw [contents]; omega)

theorem TableOk.removeAt {cleared : Entry} (here : slots[index]? = some old)
    (occupied : keyOf old ≠ callback.notakey) (clearedVacant : keyOf cleared = callback.notakey) :
    ∃ result, tableRemoveAt keyOf callback cleared slots index = some result ∧
      result.length = slots.length ∧ TableOk keyOf callback result ∧
      tableBag keyOf callback result + {old} = tableBag keyOf callback slots := by
  have nonempty : slots.length ≠ 0 := by
    have bound := (List.getElem?_eq_some_iff.mp here).1
    omega
  obtain ⟨result, removed, sound, length, contents⟩ :=
    ok.sound.remove (ok.spare nonempty) (tableVacant_iff.mpr clearedVacant) (ok.wraps nonempty)
      (fun homeSlot gap index homeBound gapBound _ _ => staysPut_iff homeBound gapBound)
      here (tableVacant_eq_false.mpr occupied)
  refine ⟨result, removed, length, TableOk.of_parts length sound ok.sized ?_, contents⟩
  have fewer := congrArg Multiset.card contents
  have room := ok.room
  rw [Multiset.card_add, Multiset.card_singleton] at fewer
  unfold tableBag at room ⊢
  omega

theorem TableOk.replace (here : slots[index]? = some old)
    (wasOccupied : keyOf old ≠ callback.notakey) (occupied : keyOf new ≠ callback.notakey)
    (sameHash : callback.hash (keyOf new) = callback.hash (keyOf old)) :
    TableOk keyOf callback (slots.set index new) ∧
      tableBag keyOf callback (slots.set index new) + {old} =
        tableBag keyOf callback slots + {new} := by
  have contents : tableBag keyOf callback (slots.set index new) + {old} =
      tableBag keyOf callback slots + {new} :=
    bag_replace here (tableVacant_eq_false.mpr wasOccupied) (tableVacant_eq_false.mpr occupied)
  refine ⟨?_, contents⟩
  refine TableOk.of_parts (List.length_set ..) ?_ ok.sized ?_
  · exact ok.sound.replace here (tableVacant_eq_false.mpr wasOccupied)
      (tableVacant_eq_false.mpr occupied) (by rw [tableHome, sameHash, tableHome])
  · have same := congrArg Multiset.card contents
    have room := ok.room
    simp only [Multiset.card_add, Multiset.card_singleton] at same
    omega

theorem TableOk.fill {vacancy : Entry} (here : slots[index]? = some vacancy)
    (wasVacant : keyOf vacancy = callback.notakey) (occupied : keyOf new ≠ callback.notakey)
    (notFull : (tableBag keyOf callback slots).card < slots.length - slots.length / 4)
    (way : ∀ step, step < ringDistance slots.length
        (hashForSize (callback.hash (keyOf new)) slots.length) index →
      Occupied (tableVacant keyOf callback) slots
        (ahead slots.length (hashForSize (callback.hash (keyOf new)) slots.length) step)) :
    TableOk keyOf callback (slots.set index new) ∧
      tableBag keyOf callback (slots.set index new) = tableBag keyOf callback slots + {new} := by
  have contents : tableBag keyOf callback (slots.set index new) =
      tableBag keyOf callback slots + {new} :=
    bag_fill here (tableVacant_iff.mpr wasVacant) (tableVacant_eq_false.mpr occupied)
  refine ⟨?_, contents⟩
  refine TableOk.of_parts (List.length_set ..) ?_ ok.sized ?_
  · have big := ok.four_le (by omega)
    exact ok.sound.fill here (tableVacant_iff.mpr wasVacant) (hashForSize_lt _ (by omega)) way
  · rw [contents, Multiset.card_add, Multiset.card_singleton]
    omega

theorem TableOk.store (occupied : keyOf new ≠ callback.notakey)
    (home : hashForSize (callback.hash (keyOf new)) slots.length = start)
    (notFull : (tableBag keyOf callback slots).card < slots.length - slots.length / 4) :
    ∃ result, tableStore keyOf callback slots start new = some result ∧
      result.length = slots.length ∧ TableOk keyOf callback result ∧
      tableBag keyOf callback result = tableBag keyOf callback slots + {new} := by
  have big := ok.four_le (by omega)
  obtain ⟨result, stored, length, sound, contents⟩ := tableStore_some ok.sound
    (home ▸ hashForSize_lt _ (by omega)) home occupied (by omega)
  refine ⟨result, stored, length, TableOk.of_parts length sound ok.sized ?_, contents⟩
  rw [contents, Multiset.card_add, Multiset.card_singleton]
  omega

end

end Tables

end MulleCore
