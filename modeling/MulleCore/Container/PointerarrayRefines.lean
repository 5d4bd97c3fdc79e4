import MulleCore.Container.PointerarrayHolds

/-!
A pointer array is a list of pointers. Operations on one array.
-/

namespace MulleCore

open Library

def ArrayRoom (array : Pointerarray) (length : Nat) : Prop :=
  array.sentinel < array.curr + length → Allocatable (array.curr + length)

instance (array : Pointerarray) (length : Nat) : Decidable (ArrayRoom array length) :=
  inferInstanceAs (Decidable (_ → _))

def pointersRemoveInRange (pointers : List Pointer) (range : Range) : List Pointer :=
  let range := rangeIntersection range (rangeMake 0 (UInt64.ofNat pointers.length))
  pointers.take range.start ++ pointers.drop range.stop

def pointersZeroed (pointers : List Pointer) (i : Nat) : List Pointer :=
  pointers ++ List.replicate (i - pointers.length) 0

theorem rangeIntersection_stop (range : Range) (count : UInt64)
    (nonempty : (rangeIntersection range (rangeMake 0 count)).length ≠ 0) :
    (rangeIntersection range (rangeMake 0 count)).stop ≤ count.toNat := by
  have most : rangeGetMax (rangeMake 0 count) = count := UInt64.zero_add count
  have least := toNat_least (rangeGetMax range) count
  rw [rangeIntersection, most] at nonempty ⊢
  generalize (if rangeGetMax range < count then rangeGetMax range else count) =
    stop at least nonempty ⊢
  generalize (if range.location > (rangeMake 0 count).location then range.location
    else (rangeMake 0 count).location) = start at nonempty ⊢
  by_cases crossed : stop < start
  · rw [if_pos crossed] at nonempty
    exact absurd rfl nonempty
  · rw [if_neg crossed, Range.stop]
    rw [UInt64.lt_iff_toNat_lt] at crossed
    rw [UInt64.toNat_sub_of_le _ _ (UInt64.le_iff_toNat_le.mpr (by omega))]
    dsimp only
    omega

theorem rangeIntersection_single {i count : Nat} (inside : i < count) (bound : count < 2 ^ 64) :
    rangeIntersection (rangeMake (UInt64.ofNat i) 1) (rangeMake 0 (UInt64.ofNat count)) =
      ⟨UInt64.ofNat i, 1⟩ := by
  have location : (UInt64.ofNat i).toNat = i := UInt64.toNat_ofNat_of_lt' (show i < 2 ^ 64 by omega)
  have most : (UInt64.ofNat count).toNat = count := UInt64.toNat_ofNat_of_lt' bound
  have one : (1 : UInt64).toNat = 1 := rfl
  have least := toNat_least (UInt64.ofNat i + 1) (UInt64.ofNat count)
  rw [UInt64.toNat_add, location, most, one, Nat.mod_eq_of_lt (by omega)] at least
  have greatest := toNat_greatest (UInt64.ofNat i) 0
  rw [location, UInt64.toNat_zero] at greatest
  rw [rangeIntersection, rangeMake, rangeMake, rangeGetMax, rangeGetMax, UInt64.zero_add]
  dsimp only
  generalize (if UInt64.ofNat i + 1 < UInt64.ofNat count then UInt64.ofNat i + 1
    else UInt64.ofNat count) = stop at least ⊢
  generalize (if UInt64.ofNat i > 0 then UInt64.ofNat i else 0) = start at greatest ⊢
  obtain rfl : start = UInt64.ofNat i := UInt64.toNat_inj.mp (by omega)
  rw [if_neg (by rw [UInt64.lt_iff_toNat_lt]; omega), Range.mk.injEq,
    ← UInt64.toNat_inj (a := stop - _), UInt64.toNat_sub_of_le _ _
      (UInt64.le_iff_toNat_le.mpr (by omega))]
  exact ⟨rfl, by omega⟩

theorem rangeValidateAgainstLength_all (count : UInt64) :
    rangeValidateAgainstLength (rangeMake 0 0xffffffffffffffff) count = rangeMake 0 count := by
  simp [rangeValidateAgainstLength, rangeMake]

section Operations

variable (fresh : Nat → Pointer) {memory : PointerMemory} {array : Pointerarray}
  {pointers : List Pointer}
variable {length : Nat}

section

variable (holds : ArrayHolds memory array pointers)
include holds

theorem ArrayHolds.guarantee (room : ArrayRoom array length) :
    ∃ memory' array', pointerarrayGuarantee memory array fresh length = some (memory', array') ∧
      ArrayHolds memory' array' pointers ∧ ArrayMoves memory memory' array.storage array'.storage ∧
      array'.curr + length ≤ array'.sentinel := by
  have fits := holds.fits
  have unfolded : pointerarrayGuarantee memory array fresh length =
      if array.sentinel - array.curr < length then
        pointerarrayRealloc memory array fresh
          (UInt64.ofNat (array.sentinel + (length - (array.sentinel - array.curr))))
      else some (memory, array) := rfl
  rw [unfolded]
  split
  · have allocatable := room (by omega)
    have total : array.sentinel + (length - (array.sentinel - array.curr)) = array.curr +
      length := by omega
    have toNat : (UInt64.ofNat (array.curr + length)).toNat = array.curr + length := by
      rw [Allocatable] at allocatable
      exact UInt64.toNat_ofNat_of_lt' (show array.curr + length < 2 ^ 64 by omega)
    rw [total]
    obtain ⟨memory', array', grown, nextHolds, moves, curr, enough, _⟩ :=
      holds.realloc fresh (by rwa [toNat]) (by rw [toNat]; omega)
    exact ⟨memory', array', grown, nextHolds, moves, by omega⟩
  · exact ⟨memory, array, rfl, holds, ArrayMoves.refl _ _, by omega⟩

theorem ArrayHolds.advance (room : ArrayRoom array length) :
    ∃ memory' array' stale, pointerarrayAdvance memory array fresh length = some (memory', array',
      pointers.length) ∧
      stale.length = length ∧ ArrayHolds memory' array' (pointers ++ stale) ∧
      ArrayMoves memory memory' array.storage array'.storage := by
  obtain ⟨memory', array', guaranteed, nextHolds, moves, enough⟩ := holds.guarantee fresh room
  obtain ⟨stale, length, extended⟩ := nextHolds.extend enough
  refine ⟨memory', _, stale, ?_, length, extended, moves⟩
  rw [pointerarrayAdvance, guaranteed, ← nextHolds.curr_eq]
  rfl

theorem ArrayHolds.advanceFill (written : List Pointer) (rest : Nat)
    (room : ArrayRoom array (written.length + rest)) :
    ∃ between array' memory' stale,
      pointerarrayAdvance memory array fresh (written.length + rest) = some (between, array',
        pointers.length) ∧
      pointerarrayFill between array' pointers.length written = some memory' ∧ stale.length = rest ∧
      ArrayHolds memory' array' (pointers ++ written ++ stale) ∧
      ArrayMoves memory memory' array.storage array'.storage := by
  obtain ⟨between, array', stale, advanced, length, nextHolds, moves⟩ := holds.advance fresh room
  have parts : pointers ++ stale = pointers ++ stale.take written.length ++
      stale.drop written.length := by
    rw [List.append_assoc, List.take_append_drop]
  rw [parts] at nextHolds
  obtain ⟨memory', filled, lastHolds, further⟩ :=
    nextHolds.fill (show written.length = (stale.take written.length).length by
    rw [List.length_take]
    omega)
  refine ⟨between, array', memory', _, advanced, filled, ?_, lastHolds, moves.trans further⟩
  rw [List.length_drop]
  omega

theorem ArrayHolds.makeRoom
    (room : array.curr = array.sentinel → Allocatable (array.sentinel * 2)) :
    ∃ memory' array', pointerarrayMakeRoom memory array fresh = some (memory', array') ∧
      ArrayHolds memory' array' pointers ∧ ArrayMoves memory memory' array.storage array'.storage ∧
      array'.curr + 1 ≤ array'.sentinel := by
  have fits := holds.fits
  rw [pointerarrayMakeRoom]
  split
  · rename_i full
    have allocatable := room full
    have toNat : (UInt64.ofNat array.sentinel * 2).toNat = array.sentinel * 2 := by
      rw [Allocatable] at allocatable
      rw [UInt64.toNat_mul, UInt64.toNat_ofNat_of_lt' (show array.sentinel < 2 ^ 64 by omega)]
      exact Nat.mod_eq_of_lt (show array.sentinel * 2 < 2 ^ 64 by omega)
    obtain ⟨memory', array', grown, nextHolds, moves, curr, enough, four⟩ :=
      holds.realloc fresh (by rwa [toNat]) (by rw [toNat]; omega)
    exact ⟨memory', array', grown, nextHolds, moves, by omega⟩
  · exact ⟨memory, array, rfl, holds, ArrayMoves.refl _ _, by omega⟩

theorem ArrayHolds.add (pointer : Pointer)
    (room : array.curr = array.sentinel → Allocatable (array.sentinel * 2)) :
    ∃ memory' array', pointerarrayAdd memory array fresh pointer = some (memory', array') ∧
      ArrayHolds memory' array' (pointers ++ [pointer]) ∧
      ArrayMoves memory memory' array.storage array'.storage := by
  obtain ⟨between, array', grown, betweenHolds, moves, enough⟩ := holds.makeRoom fresh room
  obtain ⟨stale, length, extended⟩ := betweenHolds.extend enough
  rw [← List.append_nil (pointers ++ stale)] at extended
  obtain ⟨memory', filled, nextHolds, further⟩ :=
    extended.fill (show [pointer].length = stale.length by rw [length]; rfl)
  rw [List.append_nil] at nextHolds
  refine ⟨memory', _, ?_, nextHolds, moves.trans further⟩
  rw [pointerarrayAdd, grown]
  rw [← betweenHolds.curr_eq] at filled
  exact congrArg (Option.bind · _) filled

theorem ArrayHolds.used :
    ∃ rest, pointerarrayCells memory array = some (pointers ++ rest) ∧
      blockRead (pointers ++ rest) 0 array.curr = some pointers ∧
      pointers.length + rest.length = array.sentinel := by
  obtain ⟨rest, found, sized⟩ := holds.cells
  refine ⟨rest, found, ?_, sized⟩
  rw [holds.curr_eq, blockRead_front (by rw [List.length_append]; omega), List.take_left]

theorem ArrayHolds.compact (notakey : Pointer) :
    ∃ memory' array', pointerarrayCompact memory array notakey = some (memory', array') ∧
      ArrayHolds memory' array' (pointers.filter (· ≠ notakey)) ∧
      ArrayMoves memory memory' array.storage array'.storage := by
  obtain ⟨rest, found, used, sized⟩ := holds.used
  have fewer : (pointers.filter (· ≠ notakey)).length ≤ pointers.length := List.length_filter_le _ _
  obtain ⟨cells, pasted, length, begins⟩ :=
    blockPaste_take (pointers ++ rest) (pointers.filter (· ≠ notakey)) 0
    (by rw [List.length_append]; omega)
  rw [Nat.zero_add, List.take_zero, List.nil_append] at begins
  obtain ⟨memory', stored, nextHolds, moves⟩ :=
    holds.store (length.trans (by rw [List.length_append, sized]))
    (show (pointers.filter (· ≠ notakey)).length ≤ array.sentinel by omega)
  rw [begins] at nextHolds
  refine ⟨memory', _, ?_, nextHolds, moves⟩
  simp only [pointerarrayCompact, found, used, pasted, stored, Option.bind_eq_bind, Option.bind_some]

theorem ArrayHolds.find (q : Pointer) :
    pointerarrayFind memory array q = some ((pointers.idxOf? q).elim notFound UInt64.ofNat) := by
  obtain ⟨rest, found, used, sized⟩ := holds.used
  have bounded := holds.bounded
  have count : (UInt64.ofNat pointers.length).toNat = pointers.length :=
    UInt64.toNat_ofNat_of_lt' (show pointers.length < 2 ^ 64 by omega)
  rw [holds.curr_eq] at used
  simp only [pointerarrayFind, pointerarrayFindInRange, holds.count_eq,
    rangeValidateAgainstLength_all]
  simp only [found, rangeMake, UInt64.toNat_zero, count, used, Option.bind_eq_bind, Option.bind_some]
  cases pointers.idxOf? q with
  | none => rfl
  | some index => simp

end

theorem pointerarrayEnumerate_iff (p : Pointer) (pointers : List Pointer) :
    pointerarrayEnumerate p pointers = p ↔ p ∈ pointers ∨ p = 0 := by
  induction pointers with
  | nil => simp [pointerarrayEnumerate, eq_comm]
  | cons q rest ih =>
    rw [pointerarrayEnumerate]
    split
    · rename_i same
      simp [same]
    · rename_i other
      simp [ih, Ne.symm other]

section

variable (holds : ArrayHolds memory array pointers)
include holds

theorem ArrayHolds.member (p : Pointer) :
    pointerarrayMember memory array p = some (decide (p ∈ pointers ∨ p = 0)) := by
  obtain ⟨rest, found, used, _⟩ := holds.used
  simp only [pointerarrayMember, found, used, Option.bind_eq_bind, Option.bind_some,
    pointerarrayEnumerate_iff]

theorem ArrayHolds.removeInRange (range : Range) :
    ∃ memory' array', pointerarrayRemoveInRange memory array range = some (memory', array') ∧
      ArrayHolds memory' array' (pointersRemoveInRange pointers range) ∧
      ArrayMoves memory memory' array.storage array'.storage := by
  obtain ⟨rest, found, sized⟩ := holds.cells
  have bounded := holds.bounded
  have inside := rangeIntersection_stop range (UInt64.ofNat pointers.length)
  rw [UInt64.toNat_ofNat_of_lt' (show pointers.length < 2 ^ 64 by omega)] at inside
  simp only [pointerarrayRemoveInRange, pointersRemoveInRange, holds.count_eq]
  generalize rangeIntersection range (rangeMake 0 (UInt64.ofNat pointers.length)) = range at inside ⊢
  by_cases empty : range.length = 0
  · rw [if_pos empty]
    refine ⟨memory, array, rfl, ?_, ArrayMoves.refl _ _⟩
    have same : range.stop = range.start := by
      rw [Range.stop, empty]
      rfl
    rwa [same, List.take_append_drop]
  · rw [if_neg empty]
    have small := inside empty
    rw [Range.stop] at small ⊢
    rw [Range.start]
    generalize range.location.toNat = location at small ⊢
    generalize range.length.toNat = count at small ⊢
    obtain ⟨cells, moved, length, begins⟩ :=
      blockMove_take (pointers ++ rest) (pointers.length - (location + count))
      (Nat.le_add_right location count) (by rw [List.length_append]; omega)
    obtain ⟨memory', stored, nextHolds, moves⟩ :=
      holds.store (length.trans (by rw [List.length_append, sized]))
      (show location + (pointers.length - (location + count)) ≤ array.sentinel by omega)
    have whole : location + count + (pointers.length - (location + count)) = pointers.length := by
      omega
    rw [begins, whole, List.take_left, List.take_append_of_le_length (by omega)] at nextHolds
    have curr : array.curr - count = location + (pointers.length - (location + count)) := by
      rw [holds.curr_eq]
      omega
    refine ⟨memory', _, ?_, nextHolds, moves⟩
    simp only [found, moved, stored, curr, Option.bind_eq_bind, Option.bind_some]

theorem ArrayHolds.get {i : Nat} (inside : i < pointers.length) :
    pointerarrayGet memory array i = some pointers[i] := by
  obtain ⟨rest, found, _⟩ := holds.cells
  have within : i < array.curr := by rwa [holds.curr_eq]
  simp only [pointerarrayGet, found, Option.bind_eq_bind, Option.bind_some, if_pos within]
  rw [List.getElem?_append_left inside, List.getElem?_eq_getElem inside]

end

theorem ArrayHolds.removeFrom (p : Pointer) (i : Nat) :
    ∀ {memory : PointerMemory} {array : Pointerarray} {front back : List Pointer},
      ArrayHolds memory array (front ++ back) → front.length = i →
      ∃ memory' array', pointerarrayRemoveFrom p i memory array = some (memory', array') ∧
        ArrayHolds memory' array' (front.filter (· ≠ p) ++ back) ∧
        ArrayMoves memory memory' array.storage array'.storage := by
  induction i with
  | zero =>
    intro memory array front back holds length
    rw [List.length_eq_zero_iff] at length
    subst length
    exact ⟨memory, array, rfl, holds, ArrayMoves.refl _ _⟩
  | succ i ih =>
    intro memory array front back holds length
    obtain ⟨front, item, rfl⟩ : ∃ before item, front = before ++ [item] := by
      refine ⟨front.dropLast, front.getLast (by rintro rfl; cases length), ?_⟩
      rw [List.dropLast_concat_getLast]
    have short : front.length = i := by simpa using length
    have inside : i < (front ++ [item] ++ back).length := by
      simp only [List.length_append, List.length_singleton]
      omega
    have found : (front ++ [item] ++ back)[i] = item := by simp [← short]
    rw [pointerarrayRemoveFrom, holds.get inside, found]
    simp only [Option.bind_eq_bind, Option.bind_some]
    by_cases same : p = item
    · subst same
      have bounded := holds.bounded
      have fits := holds.fits
      rw [holds.curr_eq] at fits
      have removed : pointersRemoveInRange (front ++ [p] ++ back) (rangeMake (UInt64.ofNat i) 1) =
          front ++ back := by
        have location : (UInt64.ofNat i).toNat = i :=
          UInt64.toNat_ofNat_of_lt' (show i < 2 ^ 64 by omega)
        have one : (1 : UInt64).toNat = 1 := rfl
        rw [pointersRemoveInRange, rangeIntersection_single inside (by omega), Range.start,
          Range.stop]
        dsimp only
        rw [location, one, List.append_assoc, List.take_left' short, ← List.append_assoc,
          List.drop_left' (by simpa using short)]
      obtain ⟨between, array', result, betweenHolds, moves⟩ :=
        holds.removeInRange (rangeMake (UInt64.ofNat i) 1)
      rw [removed] at betweenHolds
      obtain ⟨memory', last, finished, lastHolds, further⟩ := ih betweenHolds short
      refine ⟨memory', last, ?_, by simpa using lastHolds, moves.trans further⟩
      rw [if_pos rfl, result]
      exact finished
    · rw [List.append_assoc] at holds
      obtain ⟨memory', last, finished, lastHolds, moves⟩ := ih holds short
      refine ⟨memory', last, ?_, ?_, moves⟩
      · rw [if_neg same]
        exact finished
      · simpa [Ne.symm same] using lastHolds

section

variable (holds : ArrayHolds memory array pointers)
include holds

theorem ArrayHolds.remove (p : Pointer) :
    ∃ memory' array', pointerarrayRemove memory array p = some (memory', array') ∧
      ArrayHolds memory' array' (pointers.filter (· ≠ p)) ∧
      ArrayMoves memory memory' array.storage array'.storage := by
  rw [pointerarrayRemove, holds.count_eq]
  rw [← List.append_nil pointers] at holds
  obtain ⟨memory', array', removed, nextHolds, moves⟩ :=
    ArrayHolds.removeFrom p pointers.length holds rfl
  exact ⟨memory', array', removed, by rwa [List.append_nil] at nextHolds, moves⟩

theorem ArrayHolds.insertInRange {range : Range} {more : List Pointer}
    (counted : pointersCount range.length more = some length) (enough : length ≤ more.length)
    (inside : range.location.toNat ≤ pointers.length) (room : ArrayRoom array length) :
    ∃ memory' array', pointerarrayInsertInRange memory array fresh range more =
      some (memory', array') ∧
      ArrayHolds memory' array'
        (pointers.take range.location.toNat ++ more.take length ++
          pointers.drop range.location.toNat) ∧
      ArrayMoves memory memory' array.storage array'.storage := by
  rw [pointerarrayInsertInRange, counted]
  simp only [Option.bind_eq_bind, Option.bind_some, holds.count_eq]
  generalize range.location.toNat = location at inside ⊢
  by_cases empty : length = 0
  · subst empty
    rw [if_pos rfl]
    exact ⟨memory, array, rfl, by simpa using holds, ArrayMoves.refl _ _⟩
  · rw [if_neg empty, if_neg (Nat.not_lt.mpr inside)]
    have curr := holds.curr_eq
    have roomy : ∃ between array',
      pointerarrayInsertRoom memory array fresh (pointers.length + length) =
          some (between, array') ∧ ArrayHolds between array' pointers ∧
        ArrayMoves memory between array.storage array'.storage ∧
        pointers.length + length ≤ array'.sentinel := by
      rw [pointerarrayInsertRoom, pointerarrayGetSize]
      split
      · have allocatable := room (by omega)
        rw [curr] at allocatable
        have toNat : (UInt64.ofNat (pointers.length + length)).toNat = pointers.length + length := by
          rw [Allocatable] at allocatable
          exact UInt64.toNat_ofNat_of_lt' (show pointers.length + length < 2 ^ 64 by omega)
        obtain ⟨above, rounded⟩ :=
          @pow2roundup64_allocatable (UInt64.ofNat (pointers.length + length)) (by rwa [toNat])
        rw [toNat] at above
        obtain ⟨memory', array', grown, nextHolds, moves, _, large, _⟩ :=
          holds.realloc fresh rounded (by omega)
        exact ⟨memory', array', grown, nextHolds, moves, by omega⟩
      · exact ⟨memory, array, rfl, holds, ArrayMoves.refl _ _, by omega⟩
    obtain ⟨between, array', grown, betweenHolds, moves, large⟩ := roomy
    obtain ⟨rest, found, sized⟩ := betweenHolds.cells
    have copied : (more.take length).length = length := by
      rw [List.length_take]
      omega
    have frontLength : (pointers.take location).length = location := by
      rw [List.length_take]
      omega
    have backLength : (pointers.drop location).length = pointers.length - location := List.length_drop
    obtain ⟨moved, opened, shifted, pasted, openedLength, begins⟩ :=
      blockMove_paste (pointers.take location) (pointers.drop location) rest
        (show (more.take length).length ≤ rest.length by omega)
    rw [List.take_append_drop, frontLength, backLength, copied] at shifted
    rw [frontLength] at pasted
    rw [List.take_append_drop, List.length_append, sized] at openedLength
    have total : location + length + (pointers.length - location) = pointers.length + length := by
      omega
    rw [frontLength, copied, backLength, total] at begins
    obtain ⟨memory', stored, nextHolds, further⟩ := betweenHolds.store openedLength large
    rw [begins] at nextHolds
    refine ⟨memory', _, ?_, nextHolds, moves.trans further⟩
    rw [grown]
    simp only [Option.bind_some, found, shifted, blockRead_front enough, pasted, stored]

theorem ArrayHolds.pop :
    ∃ array', pointerarrayPop memory array = some (array', pointers.getLast?.getD 0) ∧
      ArrayHolds memory array' pointers.dropLast ∧ array'.storage = array.storage := by
  have curr := holds.curr_eq
  rw [pointerarrayPop]
  split
  · obtain ⟨rest, found, _⟩ := holds.cells
    have last : pointers.length - 1 < pointers.length := by omega
    have popped := holds.shorten (pointers.length - 1) (Nat.sub_le _ _)
    rw [← List.dropLast_eq_take, ← curr] at popped
    refine ⟨_, ?_, popped, rfl⟩
    simp only [found, curr, List.getElem?_append_left last, List.getElem?_eq_getElem last,
      Option.bind_eq_bind, Option.bind_some, List.getLast?_eq_getElem?, Option.getD_some]
  · have empty : pointers = [] := List.length_eq_zero_iff.mp (by omega)
    subst empty
    exact ⟨array, rfl, holds, rfl⟩

theorem ArrayHolds.setZeroing (i : Nat) (value : Pointer)
    (room : ArrayRoom array (i + 1 - array.curr)) :
    ∃ memory' array', pointerarraySetZeroing memory array fresh i value = some (memory', array') ∧
      ArrayHolds memory' array' ((pointersZeroed pointers (i + 1)).set i value) ∧
      ArrayMoves memory memory' array.storage array'.storage := by
  have curr := holds.curr_eq
  simp only [pointerarraySetZeroing, holds.count_eq, pointersZeroed]
  split
  · rename_i inside
    obtain ⟨rest, found, sized⟩ := holds.cells
    have within : i < (pointers ++ rest).length := by
      rw [List.length_append]
      omega
    obtain ⟨memory', stored, nextHolds, moves⟩ := holds.store
      (show ((pointers ++ rest).set i value).length =
        array.sentinel by rw [List.length_set, List.length_append, sized])
      holds.fits
    rw [curr, List.set_append_left _ _ inside, List.take_left' List.length_set, ← curr] at nextHolds
    refine ⟨memory', array, ?_, ?_, moves⟩
    · simp only [pointerarraySet, found, Option.bind_eq_bind, Option.bind_some, blockWrite,
        if_pos within]
      rw [if_pos (by omega), stored]
      rfl
    · rw [show i + 1 - pointers.length = 0 by omega]
      simpa using nextHolds
  · rename_i outside
    have spaces : i - pointers.length + 1 =
        (List.replicate (i - pointers.length) (0 : Pointer)).length + 1 := by
      rw [List.length_replicate]
    obtain ⟨between, array', middle, stale, advanced, zeroed, single, zeroedHolds, moves⟩ :=
      holds.advanceFill fresh (List.replicate (i - pointers.length) 0) 1 (by
        rw [← spaces]
        have same : i - pointers.length + 1 = i + 1 - array.curr := by omega
        rwa [same])
    rw [← List.append_nil (pointers ++ _ ++ stale)] at zeroedHolds
    obtain ⟨memory', filled, nextHolds, further⟩ :=
      zeroedHolds.fill (show [value].length = stale.length by rw [single]; rfl)
    rw [List.length_append, List.length_replicate] at filled
    rw [← spaces] at advanced
    refine ⟨memory', array', ?_, ?_, moves.trans further⟩
    · simp only [advanced, zeroed, filled, Option.bind_eq_bind, Option.bind_some]
    · have last : i + 1 - pointers.length = i - pointers.length + 1 := by omega
      rw [last, List.replicate_succ', ← List.append_assoc, List.set_append_right _ _ (by simp; omega)]
      have atEnd : i - (pointers.length + (i - pointers.length)) = 0 := by omega
      simpa [atEnd] using nextHolds

theorem ArrayHolds.getZeroingAddress (i : Nat) (room : ArrayRoom array (i + 1 - array.curr)) :
    ∃ memory' array', pointerarrayGetZeroingAddress memory array fresh i = some (memory', array') ∧
      ArrayHolds memory' array' (pointersZeroed pointers (i + 1)) ∧
      ArrayMoves memory memory' array.storage array'.storage := by
  have curr := holds.curr_eq
  simp only [pointerarrayGetZeroingAddress, pointerarrayZeroTo, holds.count_eq, pointersZeroed]
  split
  · rename_i outside
    have spaces : i - pointers.length + 1 =
        (List.replicate (i + 1 - pointers.length) (0 : Pointer)).length + 0 := by
      rw [List.length_replicate]
      omega
    obtain ⟨between, array', memory', stale, advanced, zeroed, nothing, nextHolds, moves⟩ :=
      holds.advanceFill fresh (List.replicate (i + 1 - pointers.length) 0) 0 (by
        rw [List.length_replicate, ← curr]
        exact room)
    rw [List.length_eq_zero_iff] at nothing
    rw [nothing, List.append_nil] at nextHolds
    rw [← spaces] at advanced
    refine ⟨memory', array', ?_, nextHolds, moves⟩
    have inside : i < array'.curr := by
      rw [nextHolds.curr_eq]
      simp only [List.length_append, List.length_replicate]
      omega
    have same : i - pointers.length + 1 = i + 1 - pointers.length := by omega
    rw [same] at advanced ⊢
    simp only [advanced, zeroed, if_pos inside, Option.bind_eq_bind, Option.bind_some]
  · rename_i inside
    refine ⟨memory, array, ?_, ?_, ArrayMoves.refl _ _⟩
    · simp only [Option.bind_eq_bind, Option.bind_some]
      rw [if_pos (by omega)]
    · rw [show i + 1 - pointers.length = 0 by omega]
      simpa using holds

theorem ArrayHolds.elsewhere {memory' : PointerMemory} {before after : Option Nat}
    (moves : ArrayMoves memory memory' before after)
    (apart : ∀ id, array.storage = some id → before ≠ some id) :
    ArrayHolds memory' array pointers := by
  have same : ∀ id, array.storage = some id → memory'[id]? = memory[id]? := by
    intro id stored
    obtain ⟨cells, block⟩ := holds.owned id stored
    exact moves.elsewhere id (List.getElem?_eq_some_iff.mp block).1 (apart id stored)
  refine ⟨holds.bounded, holds.fits, fun id initial => (holds.initial id initial).trans_le
    moves.grows, ?_, ?_⟩
  · intro id stored
    rw [same id stored]
    exact holds.owned id stored
  · obtain ⟨cells, found, rest⟩ := holds.content
    refine ⟨cells, ?_, rest⟩
    rw [← found, pointerarrayCells, pointerarrayCells]
    cases stored : array.storage with
    | none => rfl
    | some id => simp only [same id stored]

end

theorem arrayHolds_null (memory : PointerMemory) {initial : Option Nat}
    (within : ∀ id, initial = some id → id < memory.length) :
    ArrayHolds memory ⟨none, 0, 0, initial⟩ [] :=
  ⟨Nat.two_pow_pos 61, le_rfl, within, (fun id null => by cases null), [], rfl, rfl, rfl⟩

theorem ArrayHolds.extractPointers (holds : ArrayHolds memory array pointers)
    (something : array.storage ≠ none → array.storage = array.initialStorage → array.curr ≠ 0) :
    ∃ memory' array', pointerarrayExtractPointers memory array = some (memory', array', pointers) ∧
      ArrayHolds memory' array' [] ∧ ArrayMoves memory memory' array.storage array'.storage := by
  obtain ⟨rest, found, used, sized⟩ := holds.used
  simp only [pointerarrayExtractPointers, pointerarrayGetCount, found, used, Option.bind_eq_bind,
    Option.bind_some]
  split
  · rename_i static
    have positive := something static.1 static.2
    have bounded := holds.bounded
    have curr := holds.curr_eq
    have moves : ArrayMoves memory
      (memory ++ [⟨.heap, table pointers.length fun index => pointers.getD index 0⟩])
        array.storage array.initialStorage := by
      refine ⟨by rw [List.length_append]; omega,
        fun id inside _ => List.getElem?_append_left inside, ?_⟩
      exact fun id stored => .inl (static.2.trans stored)
    have shorter := holds.shorten 0 (Nat.zero_le _)
    rw [List.take_zero] at shorter
    refine ⟨_, { array with curr := 0, storage := array.initialStorage }, ?_, ?_, moves⟩
    · rw [pointersMalloc_some memory _ (by omega) (by omega)]
      rfl
    · have kept : ArrayHolds
        (memory ++ [⟨.heap, table pointers.length fun index => pointers.getD index 0⟩])
          { array with curr := 0 } [] := by
        have grown : ArrayMoves memory
          (memory ++ [⟨.heap, table pointers.length fun index => pointers.getD index 0⟩])
            none none :=
          ⟨moves.grows, fun id inside _ => List.getElem?_append_left inside,
            fun id null => by cases null⟩
        exact shorter.elsewhere grown fun id _ null => by cases null
      rwa [static.2] at kept
  · refine ⟨memory, _, rfl, arrayHolds_null memory fun id null => (by cases null), le_rfl,
      fun _ _ _ => rfl, ?_⟩
    exact fun id null => by cases null

end Operations

end MulleCore
