import MulleCore.Container.Pointerarray

/-!
The pointers that an array holds, and what an operation on it leaves alone.
-/

namespace MulleCore

open Library

variable {size : UInt64}

/-- `pointers` are in front of `_curr`. The storage is on the heap, unless it is the one that the
array began with. -/
structure ArrayHolds (memory : PointerMemory) (array : Pointerarray) (pointers : List Pointer) :
    Prop where
  bounded : array.sentinel < 2 ^ 61
  fits : array.curr ≤ array.sentinel
  initial : ∀ id, array.initialStorage = some id → id < memory.length
  owned : ∀ id, array.storage = some id → ∃ cells,
    memory[id]? = some ⟨if array.storage = array.initialStorage then .static else .heap, cells⟩
  content : ∃ cells, pointerarrayCells memory array = some cells ∧ cells.length = array.sentinel ∧
    cells.take array.curr = pointers

structure ArrayMoves (memory memory' : PointerMemory) (before after : Option Nat) : Prop where
  grows : memory.length ≤ memory'.length
  elsewhere : ∀ id, id < memory.length → before ≠ some id → memory'[id]? = memory[id]?
  place : ∀ id, after = some id → before = some id ∨ memory.length ≤ id

theorem ArrayMoves.refl (memory : PointerMemory) (place : Option Nat) :
    ArrayMoves memory memory place place :=
  ⟨le_rfl, fun _ _ _ => rfl, fun _ same => .inl same⟩

theorem ArrayMoves.trans {first second third : PointerMemory} {before between after : Option Nat}
    (moves : ArrayMoves first second before between)
    (further : ArrayMoves second third between after) :
    ArrayMoves first third before after := by
  refine ⟨moves.grows.trans further.grows, ?_, ?_⟩
  · intro id inside other
    have still : between ≠ some id := by
      intro same
      obtain old | new := moves.place id same
      · exact other old
      · omega
    rw [further.elsewhere id (inside.trans_le moves.grows) still, moves.elsewhere id inside other]
  · intro id same
    obtain old | new := further.place id same
    · exact moves.place id old
    · exact .inr (moves.grows.trans new)

section Holds

variable {memory : PointerMemory} {array : Pointerarray} {pointers : List Pointer}

section

variable (holds : ArrayHolds memory array pointers)
include holds

theorem ArrayHolds.curr_eq : array.curr = pointers.length := by
  obtain ⟨cells, _, sized, front⟩ := holds.content
  rw [← front, List.length_take, sized, Nat.min_eq_left holds.fits]

theorem ArrayHolds.count_eq :
    pointerarrayGetCount array = pointers.length := holds.curr_eq

theorem ArrayHolds.cells :
    ∃ rest, pointerarrayCells memory array = some (pointers ++ rest) ∧
      pointers.length + rest.length = array.sentinel := by
  obtain ⟨cells, found, sized, front⟩ := holds.content
  refine ⟨cells.drop array.curr, ?_, ?_⟩
  · rw [← front, List.take_append_drop, found]
  · have fits := holds.fits
    rw [← holds.curr_eq, List.length_drop, sized]
    omega

theorem ArrayHolds.resize {count : Nat} (inside : count ≤ array.sentinel) :
    ∃ stale, ArrayHolds memory { array with curr := count } ((pointers ++ stale).take count) ∧
      pointers.length + stale.length = array.sentinel := by
  obtain ⟨stale, found, sized⟩ := holds.cells
  exact ⟨stale, ⟨holds.bounded, inside, holds.initial, holds.owned, _, found, by simpa using sized,
    rfl⟩, sized⟩

theorem ArrayHolds.extend {length : Nat} (inside : array.curr + length ≤ array.sentinel) :
    ∃ stale, stale.length = length ∧
      ArrayHolds memory { array with curr := array.curr + length } (pointers ++ stale) := by
  obtain ⟨stale, extended, sized⟩ := holds.resize inside
  have curr := holds.curr_eq
  refine ⟨stale.take length, by rw [List.length_take]; omega, ?_⟩
  rwa [curr, List.take_length_add_append, ← curr] at extended

theorem ArrayHolds.shorten (count : Nat) (fewer : count ≤ pointers.length) :
    ArrayHolds memory { array with curr := count } (pointers.take count) := by
  have curr := holds.curr_eq
  have fits := holds.fits
  obtain ⟨stale, shortened, _⟩ := holds.resize (show count ≤ array.sentinel by omega)
  rwa [List.take_append_of_le_length fewer] at shortened

theorem ArrayHolds.store {cells : List Pointer} {curr : Nat}
    (sized : cells.length = array.sentinel) (inside : curr ≤ array.sentinel) :
    ∃ memory', pointerarrayStore memory array cells = some memory' ∧
      ArrayHolds memory' { array with curr := curr } (cells.take curr) ∧
      ArrayMoves memory memory' array.storage array.storage := by
  obtain ⟨storage, before, sentinel, initial⟩ := array
  cases storage with
  | none =>
    obtain ⟨old, found, oldSized, _⟩ := holds.content
    cases found
    have empty : cells = [] := List.length_eq_zero_iff.mp (sized.trans oldSized.symm)
    subst empty
    exact ⟨memory, rfl, ⟨holds.bounded, inside, holds.initial, holds.owned, [], rfl, sized, rfl⟩,
      ArrayMoves.refl _ _⟩
  | some id =>
    obtain ⟨old, block⟩ := holds.owned id rfl
    have within : id < memory.length := (List.getElem?_eq_some_iff.mp block).1
    dsimp only at block
    have live : (if some id = initial then BlockKind.static else .heap) ≠ .freed := by
      split <;> decide
    refine ⟨memory.set id ⟨if some id = initial then .static else .heap, cells⟩, ?_, ?_, ?_⟩
    · simp only [pointerarrayStore, block, Option.bind_eq_bind, Option.bind_some]
      rw [if_neg live]
    · refine ⟨holds.bounded, inside, ?_, ?_, cells, ?_, sized, rfl⟩
      · intro other same
        rw [List.length_set]
        exact holds.initial other same
      · rintro other ⟨⟩
        exact ⟨cells, List.getElem?_set_self within⟩
      · simp only [pointerarrayCells, List.getElem?_set_self within, Option.bind_eq_bind,
          Option.bind_some]
        rw [if_neg live]
    · refine ⟨by rw [List.length_set], ?_, fun _ same => .inl same⟩
      intro other _ apart
      rw [List.getElem?_set_ne]
      exact fun same => apart (congrArg some same)

end

theorem ArrayHolds.fill {front old back : List Pointer}
    (holds : ArrayHolds memory array (front ++ old ++ back)) {more : List Pointer}
    (same : more.length = old.length) :
    ∃ memory', pointerarrayFill memory array front.length more = some memory' ∧
      ArrayHolds memory' array (front ++ more ++ back) ∧
      ArrayMoves memory memory' array.storage array.storage := by
  obtain ⟨rest, found, sized⟩ := holds.cells
  have curr := holds.curr_eq
  have pasted := blockPaste_append front old (back ++ rest) same.le
  rw [same, List.drop_length, List.append_nil] at pasted
  have lengths : (front ++ more ++ back).length = (front ++ old ++ back).length := by
    simp only [List.length_append, same]
  obtain ⟨memory', stored, nextHolds, moves⟩ :=
    holds.store (show (front ++ more ++ (back ++ rest)).length = array.sentinel by
      rw [← List.append_assoc, List.length_append, lengths]
      exact sized) holds.fits
  refine ⟨memory', ?_, ?_, moves⟩
  · rw [List.append_assoc] at found
    simp only [pointerarrayFill, found, Option.bind_eq_bind, Option.bind_some, pasted]
    exact stored
  · rwa [← List.append_assoc, List.take_left' (lengths.trans curr.symm)] at nextHolds

end Holds

def Allocatable (count : Nat) : Prop := count ≤ 2 ^ 60

instance (count : Nat) : Decidable (Allocatable count) := inferInstanceAs (Decidable (_ ≤ _))

theorem pow2roundup_allocatable {count : Nat} (allocatable : Allocatable count) :
    Allocatable (pow2roundup count) := by
  rw [Allocatable] at allocatable ⊢
  by_cases zero : count = 0
  · rw [zero, pow2roundup, if_pos rfl]
    decide
  · have double := pow2roundup_lt_double (Nat.pos_of_ne_zero zero) (by omega)
    obtain ⟨power, rounded⟩ := @pow2roundup_two_pow count (by omega)
    rw [rounded] at double ⊢
    have below : 2 ^ power < 2 ^ 61 := by omega
    exact Nat.pow_le_pow_right (by decide)
      (Nat.lt_succ_iff.mp ((Nat.pow_lt_pow_iff_right (by decide)).mp below))

theorem pow2roundup64_allocatable (allocatable : Allocatable size.toNat) :
    size.toNat ≤ (pow2roundup64 size).toNat ∧ Allocatable (pow2roundup64 size).toNat := by
  by_cases zero : size = 0
  · subst zero
    exact ⟨Nat.zero_le _, by decide⟩
  · have positive : 0 < size.toNat := Nat.pos_of_ne_zero fun same => zero (UInt64.toNat_inj.mp same)
    have small : size.toNat ≤ 2 ^ 63 := by
      rw [Allocatable] at allocatable
      omega
    rw [pow2roundup64_toNat positive small]
    exact ⟨le_pow2roundup _, pow2roundup_allocatable allocatable⟩

theorem pointerarrayRoundedSize_bounds (allocatable : Allocatable size.toNat) :
    size.toNat ≤ pointerarrayRoundedSize size ∧ 4 ≤ pointerarrayRoundedSize size ∧
      pointerarrayRoundedSize size < 2 ^ 61 := by
  obtain ⟨above, below⟩ := pow2roundup64_allocatable allocatable
  rw [Allocatable] at below
  simp only [pointerarrayRoundedSize]
  split <;> omega

section Allocation

variable (memory : PointerMemory) (fresh : Nat → Pointer)

theorem pointersMalloc_some {size : Nat} (positive : 0 < size) (small : size < 2 ^ 61) :
    pointersMalloc memory size fresh = some (memory ++ [⟨.heap, table size fresh⟩],
      memory.length) := by
  rw [pointersMalloc, allocatorSizeMultiply_some (by omega)]
  simp only [Option.bind_eq_bind, Option.bind_some]
  rw [if_neg (by omega)]

variable {memory} {array : Pointerarray} {pointers : List Pointer}

theorem ArrayHolds.replace (holds : ArrayHolds memory array pointers) {memory' : PointerMemory}
    (same : memory'.length = memory.length) {cells : List Pointer} (small : cells.length < 2 ^ 61)
    (begins : cells.take array.curr = pointers) (enough : array.curr ≤ cells.length)
    (elsewhere : ∀ id, array.storage ≠ some id → memory'[id]? = memory[id]?) :
    ArrayHolds (memory' ++ [⟨.heap, cells⟩])
      { array with storage := some memory.length, sentinel := cells.length }
        pointers ∧
      ArrayMoves memory (memory' ++ [⟨.heap, cells⟩]) array.storage (some memory.length) := by
  have last : (memory' ++ [⟨.heap, cells⟩])[memory.length]? = some ⟨.heap, cells⟩ := by
    rw [← same, List.getElem?_concat_length]
  refine ⟨⟨small, enough, ?_, ?_, cells, ?_, rfl, begins⟩, ?_, ?_, ?_⟩
  · intro id initial
    have inside := holds.initial id initial
    rw [List.length_append, same]
    omega
  · rintro id ⟨⟩
    have other : some memory.length ≠ array.initialStorage := by
      intro initial
      exact absurd (holds.initial _ initial.symm) (Nat.lt_irrefl _)
    exact ⟨cells, by rw [last, if_neg other]⟩
  · simp [pointerarrayCells, last]
  · rw [List.length_append, same]
    omega
  · intro id inside apart
    rw [List.getElem?_append_left (by omega), elsewhere id apart]
  · rintro id ⟨⟩
    exact .inr le_rfl

theorem ArrayHolds.realloc (holds : ArrayHolds memory array pointers) {newSize : UInt64}
    (allocatable : Allocatable newSize.toNat) (larger : array.curr ≤ newSize.toNat) :
    ∃ memory' array', pointerarrayRealloc memory array fresh newSize = some (memory', array') ∧
      ArrayHolds memory' array' pointers ∧ ArrayMoves memory memory' array.storage array'.storage ∧
      array'.curr = array.curr ∧ newSize.toNat ≤ array'.sentinel ∧ 4 ≤ array'.sentinel := by
  obtain ⟨above, positive, small⟩ := pointerarrayRoundedSize_bounds allocatable
  obtain ⟨old, found, sized, front⟩ := holds.content
  have fits := holds.fits
  obtain ⟨storage, curr, sentinel, initial⟩ := array
  dsimp only at larger sized front fits
  simp only [pointerarrayRealloc, pointerarrayGetCount]
  generalize pointerarrayRoundedSize newSize = size at above positive small ⊢
  split
  · have copied : (old.take curr).length = curr := by
      rw [List.length_take]
      omega
    obtain ⟨cells, pasted, pastedSize, begins⟩ :=
      blockPaste_take (table size fresh) (old.take curr) 0 (by rw [copied, table_length]; omega)
    rw [table_length] at pastedSize
    rw [Nat.zero_add, copied, List.take_zero, List.nil_append, front] at begins
    rw [front] at pasted
    rw [found, pointersMalloc_some memory fresh (by omega) small]
    simp only [Option.bind_eq_bind, Option.bind_some]
    rw [blockRead_front (by omega), front]
    simp only [Option.bind_some, pasted]
    obtain ⟨replaced, moves⟩ := holds.replace rfl (by rwa [pastedSize]) begins
      (show curr ≤ cells.length by omega) fun _ _ => rfl
    rw [pastedSize] at replaced
    refine ⟨_, _, ?_, replaced, moves, rfl, above, positive⟩
    simp [pointerarrayStore]
  · rename_i moved
    cases storage with
    | none =>
      cases found
      have empty : curr = 0 := by
        rw [List.length_nil] at sized
        omega
      have begins : (table size fresh).take curr = pointers := by
        rw [← front, empty]
        rfl
      obtain ⟨replaced, moves⟩ := holds.replace rfl (by rwa [table_length]) begins
        (show curr ≤ (table size fresh).length by rw [table_length]; omega) fun _ _ => rfl
      rw [table_length] at replaced
      refine ⟨_, _, ?_, replaced, moves, rfl, above, positive⟩
      rw [pointersRealloc, allocatorSizeMultiply_some (by omega)]
      simp only [Option.bind_eq_bind, Option.bind_some]
      rw [if_neg (by omega)]
      rfl
    | some id =>
      obtain ⟨cells, block⟩ := holds.owned id rfl
      rw [if_neg moved] at block
      have same : old = cells := by simpa [pointerarrayCells, block] using found.symm
      subst same
      have begins : (blockResize old size fresh).take curr = pointers := by
        rw [blockResize_take old fresh (by omega) (by omega), front]
      obtain ⟨replaced, moves⟩ := holds.replace (List.length_set (i := id) (a := ⟨.freed, []⟩))
        (by rwa [blockResize_length]) begins
        (show curr ≤ (blockResize old size fresh).length by rw [blockResize_length]; omega) (by
          intro other apart
          rw [List.getElem?_set_ne]
          exact fun same => apart (congrArg some same))
      rw [blockResize_length] at replaced
      refine ⟨_, _, ?_, replaced, moves, rfl, above, positive⟩
      rw [pointersRealloc, allocatorSizeMultiply_some (by omega)]
      simp only [Option.bind_eq_bind, Option.bind_some]
      rw [if_neg (by omega)]
      simp [block]

end Allocation

end MulleCore
