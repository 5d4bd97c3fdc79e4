import MulleCore.Container.PointerarrayRefines
import MulleCore.Library.Simulation
import MulleCore.Library.Splice

/-!
Runs of operations on several pointer arrays in one memory.
-/

namespace MulleCore

open Library

/-- Of the space that `advance` makes, the caller fills the beginning, and he may write to the
address that `getZeroingAddress` returns. After `done`, an array is begun again without a storage.
-/
inductive PointersOp where
  | add (pointer : Pointer)
  | advance (written : List Pointer) (rest : Nat)
  | insertInRange (range : Range) (more : List Pointer)
  | removeInRange (range : Range)
  | remove (p : Pointer)
  | compact (notakey : Pointer)
  | pop
  | setZeroing (i : Nat) (value : Pointer)
  | getZeroingAddress (i : Nat) (value : Option Pointer)
  | extractPointers
  | find (p : Pointer)
  | member (p : Pointer)
  | done

inductive ArrayAnswer where
  | none
  | pointer (pointer : Pointer)
  | index (index : UInt64)
  | bool (result : Bool)
  | data (pointers : List Pointer)
deriving DecidableEq

def pointerarrayAssign (memory : PointerMemory) (array : Pointerarray) (i : Nat) :
    Option Pointer → Option PointerMemory
  | none => some memory
  | some value => pointerarrayFill memory array i [value]

def arrayStep (memory : PointerMemory) (array : Pointerarray) (fresh : Nat → Pointer) :
    PointersOp → Option (PointerMemory × Pointerarray × ArrayAnswer)
  | .add pointer =>
    (pointerarrayAdd memory array fresh pointer).map fun (memory, array) => (memory, array, .none)
  | .advance written rest => do
      let (memory, array, reserved) ← pointerarrayAdvance memory array fresh (written.length + rest)
      let memory ← pointerarrayFill memory array reserved written
      some (memory, array, .none)
  | .insertInRange range more =>
    (pointerarrayInsertInRange memory array fresh range more).map fun (memory, array) =>
      (memory, array, .none)
  | .removeInRange range =>
    (pointerarrayRemoveInRange memory array range).map fun (memory, array) => (memory, array, .none)
  | .remove p => (pointerarrayRemove memory array p).map fun (memory, array) => (memory, array, .none)
  | .compact notakey =>
    (pointerarrayCompact memory array notakey).map fun (memory, array) => (memory, array, .none)
  | .pop =>
    (pointerarrayPop memory array).map fun (array, pointer) => (memory, array, .pointer pointer)
  | .setZeroing i value =>
    (pointerarraySetZeroing memory array fresh i value).map fun (memory, array) =>
      (memory, array, .none)
  | .getZeroingAddress i value => do
      let (memory, array) ← pointerarrayGetZeroingAddress memory array fresh i
      let memory ← pointerarrayAssign memory array i value
      some (memory, array, .none)
  | .extractPointers =>
    (pointerarrayExtractPointers memory array).map fun (memory, array, data) =>
      (memory, array, .data data)
  | .find p => (pointerarrayFind memory array p).map fun index => (memory, array, .index index)
  | .member p => (pointerarrayMember memory array p).map fun result => (memory, array, .bool result)
  | .done => (pointerarrayDone memory array).map fun memory => (memory, ⟨none, 0, 0, none⟩, .none)

def arrayDo (op : PointersOp) (pointers : List Pointer) (answer : ArrayAnswer)
    (after : List Pointer) : Prop :=
  match op with
  | .add pointer => after = pointers ++ [pointer] ∧ answer = .none
  | .advance written rest =>
    ∃ stale, stale.length = rest ∧ after = pointers ++ written ++ stale ∧ answer = .none
  | .insertInRange range more =>
    ∃ length, pointersCount range.length more = some length ∧ answer = .none ∧
      after = pointers.take range.location.toNat ++ more.take length ++
        pointers.drop range.location.toNat
  | .removeInRange range => after = pointersRemoveInRange pointers range ∧ answer = .none
  | .remove p => after = pointers.filter (· ≠ p) ∧ answer = .none
  | .compact notakey => after = pointers.filter (· ≠ notakey) ∧ answer = .none
  | .pop => after = pointers.dropLast ∧ answer = .pointer (pointers.getLast?.getD 0)
  | .setZeroing i value => after = (pointersZeroed pointers (i + 1)).set i value ∧ answer = .none
  | .getZeroingAddress i value =>
    after = value.elim (pointersZeroed pointers (i + 1)) (fun value => (pointersZeroed pointers
      (i + 1)).set i value) ∧
      answer = .none
  | .extractPointers => after = [] ∧ answer = .data pointers
  | .find p => after = pointers ∧ answer = .index ((pointers.idxOf? p).elim notFound UInt64.ofNat)
  | .member p => after = pointers ∧ answer = .bool (decide (p ∈ pointers))
  | .done => after = [] ∧ answer = .none

/-- The allocator can be asked for the room. Pointers are not extracted from a static storage
without any, and NULL is not searched where there is none. -/
def ArrayFits (memory : PointerMemory) (array : Pointerarray) : PointersOp → Prop
  | .add _ => array.curr = array.sentinel → Allocatable (array.sentinel * 2)
  | .advance written rest => ArrayRoom array (written.length + rest)
  | .insertInRange range more =>
    ∃ length, pointersCount range.length more = some length ∧ length ≤ more.length ∧
      range.location.toNat ≤ array.curr ∧ ArrayRoom array length
  | .setZeroing i _ => ArrayRoom array (i + 1 - array.curr)
  | .getZeroingAddress i _ => ArrayRoom array (i + 1 - array.curr)
  | .extractPointers => array.storage ≠ none → array.storage = array.initialStorage → array.curr ≠ 0
  | .member p =>
    p = 0 → ∃ cells, pointerarrayCells memory array = some cells ∧ 0 ∈ cells.take array.curr
  | _ => True

section Arrays

variable {memory : PointerMemory} {array : Pointerarray} {pointers : List Pointer}

section

variable (holds : ArrayHolds memory array pointers)
include holds

theorem ArrayHolds.assign {i : Nat} (inside : i < pointers.length) (value : Option Pointer) :
    ∃ memory', pointerarrayAssign memory array i value = some memory' ∧
      ArrayHolds memory' array (value.elim pointers fun value => pointers.set i value) ∧
      ArrayMoves memory memory' array.storage array.storage := by
  cases value with
  | none => exact ⟨memory, rfl, holds, ArrayMoves.refl _ _⟩
  | some value =>
    obtain ⟨before, after, parts, length⟩ := exists_splice inside
    generalize pointers[i] = old at parts
    subst parts
    rw [List.append_cons] at holds
    obtain ⟨memory', filled, nextHolds, moves⟩ :=
      holds.fill (show [value].length = [old].length from rfl)
    rw [length] at filled
    refine ⟨memory', filled, ?_, moves⟩
    rw [Option.elim_some, ← length, set_splice, List.append_cons]
    exact nextHolds

theorem ArrayHolds.done :
    ∃ memory', pointerarrayDone memory array = some memory' ∧
      ArrayHolds memory' ⟨none, 0, 0, none⟩ [] ∧
      ArrayMoves memory memory' array.storage none := by
  have nothing : ∀ memory', ArrayHolds memory' ⟨none, 0, 0, none⟩ [] :=
    fun memory' => arrayHolds_null memory' fun id null => by cases null
  have none_ : ∀ id, (none : Option Nat) = some id → array.storage = some id ∨ memory.length ≤ id :=
    fun id null => by cases null
  rw [pointerarrayDone]
  split
  · rename_i moved
    cases stored : array.storage with
    | none =>
      refine ⟨memory, rfl, nothing memory, le_rfl, fun _ _ _ => rfl, ?_⟩
      rwa [stored] at none_
    | some id =>
      obtain ⟨cells, block⟩ := holds.owned id stored
      rw [if_neg moved] at block
      refine ⟨memory.set id ⟨.freed, []⟩, by simp [pointersFree, block],
        nothing _, by rw [List.length_set], ?_, ?_⟩
      · intro other _ apart
        rw [List.getElem?_set_ne]
        exact fun same => apart (congrArg some same)
      · rwa [stored] at none_
  · exact ⟨memory, rfl, nothing memory, le_rfl, fun _ _ _ => rfl, none_⟩

/-- Each operation does to the array what it does to the list of pointers. -/
theorem arrayStep_refines (fresh : Nat → Pointer) (op : PointersOp)
    (fits : ArrayFits memory array op) :
    ∃ memory' array' answer after, arrayStep memory array fresh op = some (memory', array', answer) ∧
      arrayDo op pointers answer after ∧ ArrayHolds memory' array' after ∧
      ArrayMoves memory memory' array.storage array'.storage := by
  cases op with
  | add pointer =>
    obtain ⟨memory', array', result, nextHolds, moves⟩ := holds.add fresh pointer fits
    exact ⟨memory', array', .none, _, by simp [arrayStep, result], ⟨rfl, rfl⟩, nextHolds, moves⟩
  | advance written rest =>
    obtain ⟨between, array', memory', stale, advanced, filled, length, nextHolds, moves⟩ :=
      holds.advanceFill fresh written rest fits
    exact ⟨memory', array', .none, _, by simp [arrayStep, advanced, filled],
      ⟨stale, length, rfl, rfl⟩, nextHolds, moves⟩
  | insertInRange range more =>
    obtain ⟨length, counted, enough, inside, room⟩ := fits
    rw [holds.curr_eq] at inside
    obtain ⟨memory', array', result, nextHolds, moves⟩ :=
      holds.insertInRange fresh counted enough inside room
    exact ⟨memory', array', .none, _, by simp [arrayStep, result], ⟨length, counted, rfl, rfl⟩,
      nextHolds, moves⟩
  | removeInRange range =>
    obtain ⟨memory', array', result, nextHolds, moves⟩ := holds.removeInRange range
    exact ⟨memory', array', .none, _, by simp [arrayStep, result], ⟨rfl, rfl⟩, nextHolds, moves⟩
  | remove p =>
    obtain ⟨memory', array', result, nextHolds, moves⟩ := holds.remove p
    exact ⟨memory', array', .none, _, by simp [arrayStep, result], ⟨rfl, rfl⟩, nextHolds, moves⟩
  | compact notakey =>
    obtain ⟨memory', array', result, nextHolds, moves⟩ := holds.compact notakey
    exact ⟨memory', array', .none, _, by simp [arrayStep, result], ⟨rfl, rfl⟩, nextHolds, moves⟩
  | pop =>
    obtain ⟨array', result, nextHolds, storage⟩ := holds.pop
    refine ⟨memory, array', _, _, by simp only [arrayStep, result, Option.map_some], ⟨rfl, rfl⟩,
      nextHolds, ?_⟩
    rw [storage]
    exact ArrayMoves.refl _ _
  | setZeroing i value =>
    obtain ⟨memory', array', result, nextHolds, moves⟩ := holds.setZeroing fresh i value fits
    exact ⟨memory', array', .none, _, by simp [arrayStep, result], ⟨rfl, rfl⟩, nextHolds, moves⟩
  | getZeroingAddress i value =>
    obtain ⟨between, array', result, betweenHolds, moves⟩ := holds.getZeroingAddress fresh i fits
    have inside : i < (pointersZeroed pointers (i + 1)).length := by
      simp only [pointersZeroed, List.length_append, List.length_replicate]
      omega
    obtain ⟨memory', assigned, nextHolds, further⟩ := betweenHolds.assign inside value
    exact ⟨memory', array', .none, _, by simp [arrayStep, result, assigned], ⟨rfl, rfl⟩, nextHolds,
      moves.trans further⟩
  | extractPointers =>
    obtain ⟨memory', array', result, nextHolds, moves⟩ := holds.extractPointers fits
    exact ⟨memory', array', _, _, by simp only [arrayStep, result, Option.map_some], ⟨rfl, rfl⟩,
      nextHolds, moves⟩
  | find p =>
    exact ⟨memory, array, _, _, by simp only [arrayStep, holds.find, Option.map_some], ⟨rfl, rfl⟩,
      holds, ArrayMoves.refl _ _⟩
  | member p =>
    refine ⟨memory, array, .bool (decide (p ∈ pointers ∨ p = 0)), _, ?_, ⟨rfl, ?_⟩, holds,
      ArrayMoves.refl _ _⟩
    · rw [arrayStep, holds.member, Option.map_some]
    have null : p = 0 → p ∈ pointers := by
      rintro rfl
      obtain ⟨cells, found, member⟩ := fits rfl
      obtain ⟨others, same, _, front⟩ := holds.content
      rw [same] at found
      cases found
      rwa [front] at member
    rw [ArrayAnswer.bool.injEq, decide_eq_decide]
    exact ⟨fun either => either.elim id null, .inl⟩
  | done =>
    obtain ⟨memory', result, nextHolds, moves⟩ := holds.done
    exact ⟨memory', _, .none, _, by simp [arrayStep, result], ⟨rfl, rfl⟩, nextHolds, moves⟩

end

end Arrays

inductive PointerarrayOp where
  | array (index : Nat) (op : PointersOp)
  | addPointerarray (index other : Nat) (range : Range)
  | absorbArray (index victim : Nat)

def worldStep (world : PointerWorld) (op : PointerarrayOp × (Nat → Pointer)) :
    Option (PointerWorld × ArrayAnswer) :=
  match op with
  | (.array index op, fresh) => do
      let array ← world.arrays[index]?
      let (memory, array, answer) ← arrayStep world.memory array fresh op
      some (worldSet world memory index array, answer)
  | (.addPointerarray index other range, fresh) =>
    (pointerarrayAddPointerarray world fresh index other range).map (·, .none)
  | (.absorbArray index victim, fresh) =>
    (pointerarrayAbsorbArray world fresh index victim).map (·, .none)

def listsDo (op : PointerarrayOp × (Nat → Pointer)) (lists : List (List Pointer))
    (answer : ArrayAnswer) (after : List (List Pointer)) : Prop :=
  match op.1 with
  | .array index op =>
    ∃ pointers next, lists[index]? = some pointers ∧ arrayDo op pointers answer next ∧
      after = lists.set index next
  | .addPointerarray index other range => ∃ pointers source, lists[index]? = some pointers ∧
      lists[other]? = some source ∧ answer = .none ∧
      after = lists.set index (pointers ++
        (source.drop (rangeValidateAgainstLength range
          (UInt64.ofNat source.length)).location.toNat).take
          (rangeValidateAgainstLength range (UInt64.ofNat source.length)).length.toNat)
  | .absorbArray index victim =>
    ∃ pointers moved, lists[index]? = some pointers ∧ lists[victim]? = some moved ∧
      answer = .none ∧ after = (lists.set index (pointers ++ moved)).set victim []

/-- The arrays exist, and an array without a storage does not absorb the static storage of
another one. -/
def WorldFits (world : PointerWorld) (op : PointerarrayOp × (Nat → Pointer)) : Prop :=
  match op.1 with
  | .array index op => ∃ array, world.arrays[index]? = some array ∧ ArrayFits world.memory array op
  | .addPointerarray index other range => ∃ array source, world.arrays[index]? = some array ∧
      world.arrays[other]? = some source ∧
      ArrayRoom array (rangeValidateAgainstLength range (UInt64.ofNat source.curr)).length.toNat
  | .absorbArray index victim => index ≠ victim ∧ ∃ array other, world.arrays[index]? = some array ∧
      world.arrays[victim]? = some other ∧
      (array.storage = none → other.storage ≠ none → other.storage ≠ other.initialStorage) ∧
      (array.storage ≠ none → ArrayRoom array other.curr)

structure WorldHolds (lists : List (List Pointer)) (world : PointerWorld) : Prop where
  count : world.arrays.length = lists.length
  each : ∀ (index : Nat) array pointers, world.arrays[index]? = some array →
    lists[index]? = some pointers →
    ArrayHolds world.memory array pointers
  apart : ∀ (index other : Nat) array source id, world.arrays[index]? = some array →
    world.arrays[other]? = some source →
    array.storage = some id → source.storage = some id → index = other

section Worlds

variable {lists : List (List Pointer)} {world : PointerWorld}
variable {index : Nat} {array : Pointerarray} {other victim : Nat}

theorem WorldHolds.listed (holds : WorldHolds lists world)
    (found : world.arrays[index]? = some array) :
    ∃ pointers, lists[index]? = some pointers ∧ ArrayHolds world.memory array pointers := by
  have inside : index < lists.length := by
    rw [← holds.count]
    exact (List.getElem?_eq_some_iff.mp found).1
  exact ⟨lists[index], List.getElem?_eq_getElem inside,
    holds.each _ _ _ found (List.getElem?_eq_getElem inside)⟩

theorem WorldHolds.update (holds : WorldHolds lists world) {array' : Pointerarray}
    {memory' : PointerMemory} {next : List Pointer} (found : world.arrays[index]? = some array)
    (nextHolds : ArrayHolds memory' array' next)
    (moves : ArrayMoves world.memory memory' array.storage array'.storage) :
    WorldHolds (lists.set index next) (worldSet world memory' index array') := by
  have apart : ∀ other source id, other ≠ index → world.arrays[other]? = some source →
    source.storage = some id →
      array.storage ≠ some id :=
    fun other source id different here stored same =>
      different (holds.apart _ _ _ _ id here found stored same)
  have fresh : ∀ other source id, other ≠ index → world.arrays[other]? = some source →
    source.storage = some id →
      array'.storage ≠ some id := by
    intro other source id different here stored same
    obtain ⟨pointers, _, sourceHolds⟩ := holds.listed here
    obtain ⟨cells, block⟩ := sourceHolds.owned id stored
    have inside := (List.getElem?_eq_some_iff.mp block).1
    obtain old | new := moves.place id same
    · exact apart other source id different here stored old
    · omega
  refine ⟨?_, ?_, ?_⟩
  · simp only [worldSet, List.length_set, holds.count]
  · intro other source pointers here listed
    simp only [worldSet, List.getElem?_set] at here listed
    split at here
    · rename_i same
      subst same
      rw [if_pos rfl] at listed
      split at here
      · cases here
        split at listed
        · cases listed
          exact nextHolds
        · cases listed
      · cases here
    · rename_i different
      rw [if_neg different] at listed
      have sourceHolds := holds.each other source pointers here listed
      exact sourceHolds.elsewhere moves fun id stored => apart other source id
        (Ne.symm different) here stored
  · intro first second left right id here there stored also
    simp only [worldSet, List.getElem?_set] at here there
    split at here
    · rename_i same
      subst same
      split at there
      · assumption
      · rename_i different
        split at here
        · cases here
          exact absurd stored (fresh second right id (Ne.symm different) there also)
        · cases here
    · rename_i different
      split at there
      · rename_i same
        subst same
        split at there
        · cases there
          exact absurd also (fresh first left id (Ne.symm different) here stored)
        · cases there
      · exact holds.apart first second left right id here there stored also

theorem worldSet_found (found : world.arrays[index]? = some array)
    (memory : PointerMemory) (array' : Pointerarray) :
    (worldSet world memory index array').arrays[index]? = some array' :=
  List.getElem?_set_self (List.getElem?_eq_some_iff.mp found).1

theorem worldSet_other (different : index ≠ other) (memory : PointerMemory) (array' : Pointerarray) :
    (worldSet world memory index array').arrays[other]? = world.arrays[other]? :=
  List.getElem?_set_ne different

theorem WorldHolds.addPointerarray (holds : WorldHolds lists world) (fresh : Nat → Pointer)
    {range : Range} (fits : WorldFits world (.addPointerarray index other range, fresh)) :
    ∃ next after, pointerarrayAddPointerarray world fresh index other range = some next ∧
      listsDo (.addPointerarray index other range, fresh) lists .none after ∧
      WorldHolds after next := by
  obtain ⟨array, source, found, sourceFound, room⟩ := fits
  obtain ⟨pointers, listed, arrayHolds⟩ := holds.listed found
  obtain ⟨sources, sourceListed, sourceHolds⟩ := holds.listed sourceFound
  have inside := rangeValidateAgainstLength_inside range (UInt64.ofNat source.curr)
  have bounded := sourceHolds.bounded
  have fitsSource := sourceHolds.fits
  rw [UInt64.toNat_ofNat_of_lt' (show source.curr < 2 ^ 64 by omega)] at inside
  have same : source.curr = sources.length := sourceHolds.curr_eq
  rw [same] at room inside
  suffices added : ∃ next, pointerarrayAddPointerarray world fresh index other range = some next ∧
      WorldHolds (lists.set index (pointers ++
        (sources.drop (rangeValidateAgainstLength range
          (UInt64.ofNat sources.length)).location.toNat).take
          (rangeValidateAgainstLength range (UInt64.ofNat sources.length)).length.toNat)) next by
    obtain ⟨next, result, nextHolds⟩ := added
    exact ⟨next, _, result, ⟨pointers, sources, listed, sourceListed, rfl, rfl⟩, nextHolds⟩
  simp only [pointerarrayAddPointerarray, found, sourceFound, Option.map_some, pointerarrayGetCount,
    same, Option.bind_eq_bind, Option.bind_some]
  generalize rangeValidateAgainstLength range (UInt64.ofNat sources.length) = range at room inside ⊢
  by_cases empty : range.length = 0
  · rw [if_pos empty]
    have none_ : range.length.toNat = 0 := by rw [empty]; rfl
    refine ⟨world, rfl, ?_⟩
    obtain ⟨within, rfl⟩ := List.getElem?_eq_some_iff.mp listed
    rw [none_, List.take_zero, List.append_nil, List.set_getElem_self]
    exact holds
  · rw [if_neg empty]
    have within := inside empty
    rw [Range.stop] at within
    obtain ⟨between, array', stale, advanced, staleLength, extended, moves⟩ :=
      arrayHolds.advance fresh room
    have between_ := holds.update found extended moves
    have sourceNow : ∃ now tail, (worldSet world between index array').arrays[other]? = some now ∧
        pointerarrayCells between now = some (sources ++ tail) := by
      by_cases self : index = other
      · subst self
        obtain ⟨tail, cells, _⟩ := extended.cells
        rw [listed] at sourceListed
        cases sourceListed
        rw [List.append_assoc] at cells
        exact ⟨array', _, worldSet_found found _ _, cells⟩
      · have stays := (worldSet_other self between array').trans sourceFound
        have sourceBetween := between_.each other source sources stays
          ((List.getElem?_set_ne self).trans sourceListed)
        obtain ⟨tail, cells, _⟩ := sourceBetween.cells
        exact ⟨source, tail, stays, cells⟩
    obtain ⟨now, tail, nowFound, cells⟩ := sourceNow
    have read : blockRead (sources ++ tail) range.location.toNat range.length.toNat =
        some ((sources.drop range.location.toNat).take range.length.toNat) := by
      rw [blockRead, if_pos (by rw [List.length_append]; omega),
        List.drop_append_of_le_length (by omega), List.take_append_of_le_length
          (by rw [List.length_drop]; omega)]
    rw [← List.append_nil (pointers ++ stale)] at extended
    obtain ⟨memory', filled, nextHolds, further⟩ := extended.fill
      (show ((sources.drop range.location.toNat).take range.length.toNat).length = stale.length by
        rw [List.length_take, List.length_drop]
        omega)
    rw [List.append_nil] at nextHolds
    have once : worldSet (worldSet world between index array') memory' index array' =
        worldSet world memory' index array' := by
      simp only [worldSet, List.set_set]
    refine ⟨worldSet world memory' index array', ?_,
      holds.update found nextHolds (moves.trans further)⟩
    simp only [advanced, Option.bind_some, nowFound]
    have cells' : pointerarrayCells (worldSet world between index array').memory now =
      some (sources ++ tail) := cells
    rw [cells']
    simp only [Option.bind_some, read]
    have filled' : pointerarrayFill (worldSet world between index array').memory array'
      pointers.length
        ((sources.drop range.location.toNat).take range.length.toNat) = some memory' := filled
    rw [filled', Option.bind_some, once]

theorem WorldHolds.takeStorage (holds : WorldHolds lists world) {other : Pointerarray}
    {others : List Pointer} (found : world.arrays[index]? = some array)
    (otherFound : world.arrays[victim]? = some other) (otherListed : lists[victim]? = some others)
    (moved : other.storage ≠ none → other.storage ≠ other.initialStorage) :
    WorldHolds ((lists.set index others).set victim [])
      (worldSet (worldSet world world.memory index ⟨other.storage, other.curr, other.sentinel,
        none⟩) world.memory victim { other with storage := none, curr := 0, sentinel := 0 }) := by
  have otherHolds := holds.each victim other others otherFound otherListed
  have taken : ArrayHolds world.memory ⟨other.storage, other.curr, other.sentinel, none⟩ others := by
    refine ⟨otherHolds.bounded, otherHolds.fits, (fun id null => by cases null), ?_,
      otherHolds.content⟩
    intro id stored
    obtain ⟨cells, block⟩ := otherHolds.owned id stored
    dsimp only at stored ⊢
    have proper : other.storage ≠ none := by rw [stored]; exact Option.some_ne_none id
    rw [if_neg (moved proper)] at block
    exact ⟨cells, by rw [if_neg proper, block]⟩
  have left : ArrayHolds world.memory { other with storage := none, curr := 0, sentinel := 0 } [] :=
    arrayHolds_null world.memory otherHolds.initial
  obtain ⟨indexInside, _⟩ := List.getElem?_eq_some_iff.mp found
  obtain ⟨victimInside, _⟩ := List.getElem?_eq_some_iff.mp otherFound
  have count := holds.count
  have atVictim : ∀ next : List Pointerarray, next.length = world.arrays.length →
      (next.set victim { other with storage := none, curr := 0, sentinel := 0 })[victim]? =
        some { other with storage := none, curr := 0, sentinel := 0 } :=
    fun next length => List.getElem?_set_self (by rwa [length])
  refine ⟨?_, ?_, ?_⟩
  · simp only [worldSet, List.length_set, count]
  · intro place now list here listedNow
    simp only [worldSet] at here listedNow
    by_cases isVictim : victim = place
    · subst isVictim
      rw [atVictim _ List.length_set] at here
      rw [List.getElem?_set_self (by rw [List.length_set]; omega)] at listedNow
      cases here
      cases listedNow
      exact left
    · rw [List.getElem?_set_ne isVictim] at here listedNow
      by_cases isIndex : index = place
      · subst isIndex
        rw [List.getElem?_set_self indexInside] at here
        rw [List.getElem?_set_self (by omega)] at listedNow
        cases here
        cases listedNow
        exact taken
      · rw [List.getElem?_set_ne isIndex] at here listedNow
        exact holds.each place now list here listedNow
  · -- the storage of the array was the one of the victim
    have before : ∀ (place : Nat) now id,
        (worldSet (worldSet world world.memory index ⟨other.storage, other.curr, other.sentinel,
          none⟩) world.memory
          victim { other with storage := none, curr := 0, sentinel := 0 }).arrays[place]? = some now →
        now.storage = some id → place ≠ victim ∧
          ∃ old, world.arrays[if place = index then victim else place]? = some old ∧
            old.storage = some id := by
      intro place now id here stored
      simp only [worldSet] at here
      by_cases isVictim : victim = place
      · subst isVictim
        rw [atVictim _ List.length_set] at here
        cases here
        cases stored
      · refine ⟨Ne.symm isVictim, ?_⟩
        rw [List.getElem?_set_ne isVictim] at here
        by_cases isIndex : index = place
        · subst isIndex
          rw [List.getElem?_set_self indexInside] at here
          cases here
          exact ⟨other, by rw [if_pos rfl, otherFound], stored⟩
        · rw [List.getElem?_set_ne isIndex] at here
          exact ⟨now, by rw [if_neg (Ne.symm isIndex), here], stored⟩
    intro first second left right id here there stored also
    obtain ⟨firstOther, old, oldHere, oldStored⟩ := before first left id here stored
    obtain ⟨secondOther, source, sourceHere, sourceStored⟩ := before second right id there also
    have same := holds.apart _ _ _ _ id oldHere sourceHere oldStored sourceStored
    by_cases firstIndex : first = index
    · by_cases secondIndex : second = index
      · rw [firstIndex, secondIndex]
      · rw [if_pos firstIndex, if_neg secondIndex] at same
        exact absurd same.symm secondOther
    · by_cases secondIndex : second = index
      · rw [if_neg firstIndex, if_pos secondIndex] at same
        exact absurd same firstOther
      · rwa [if_neg firstIndex, if_neg secondIndex] at same

theorem WorldHolds.absorbArray (holds : WorldHolds lists world) (fresh : Nat → Pointer)
    (fits : WorldFits world (.absorbArray index victim, fresh)) :
    ∃ next after, pointerarrayAbsorbArray world fresh index victim = some next ∧
      listsDo (.absorbArray index victim, fresh) lists .none after ∧ WorldHolds after next := by
  obtain ⟨different, array, other, found, otherFound, moved, room⟩ := fits
  obtain ⟨pointers, listed, arrayHolds⟩ := holds.listed found
  obtain ⟨others, otherListed, otherHolds⟩ := holds.listed otherFound
  suffices absorbed : ∃ next, pointerarrayAbsorbArray world fresh index victim = some next ∧
      WorldHolds ((lists.set index (pointers ++ others)).set victim []) next by
    obtain ⟨next, result, nextHolds⟩ := absorbed
    exact ⟨next, _, result, ⟨pointers, others, listed, otherListed, rfl, rfl⟩, nextHolds⟩
  rw [pointerarrayAbsorbArray, if_neg different]
  simp only [found, otherFound, Option.bind_eq_bind, Option.bind_some]
  split
  · rename_i null
    have nothing : pointers = [] := by
      obtain ⟨cells, none_, _, front⟩ := arrayHolds.content
      rw [pointerarrayCells, null] at none_
      cases none_
      rw [← front, List.take_nil]
    subst nothing
    exact ⟨_, rfl, holds.takeStorage found otherFound otherListed (moved null)⟩
  · rename_i stored
    have curr := otherHolds.curr_eq
    obtain ⟨between, array', stale, advanced, staleLength, extended, moves⟩ :=
      arrayHolds.advance fresh (room stored)
    have otherBetween := (holds.update found extended moves).each victim other others
      ((worldSet_other different between array').trans otherFound)
        ((List.getElem?_set_ne different).trans otherListed)
    obtain ⟨tail, cells, used, _⟩ := otherBetween.used
    rw [← List.append_nil (pointers ++ stale)] at extended
    obtain ⟨memory', filled, nextHolds, further⟩ :=
      extended.fill (show others.length = stale.length by omega)
    rw [List.append_nil] at nextHolds
    have merged := holds.update found nextHolds (moves.trans further)
    have victimFound : (worldSet world memory' index array').arrays[victim]? = some other :=
      (worldSet_other different memory' array').trans otherFound
    have victimHolds := merged.each victim other others victimFound
      ((List.getElem?_set_ne different).trans otherListed)
    refine ⟨_, ?_, merged.update victimFound (victimHolds.shorten 0 (Nat.zero_le _))
      (ArrayMoves.refl memory' _)⟩
    have cells' : pointerarrayCells between other = some (others ++ tail) := cells
    simp only [pointerarrayGetCount, advanced, cells', used, filled, Option.bind_some]
    rfl

theorem worldStep_refines (op : PointerarrayOp × (Nat → Pointer)) (holds : WorldHolds lists world)
    (fits : WorldFits world op) :
    ∃ next answer after, worldStep world op = some (next, answer) ∧ listsDo op lists answer after ∧
      WorldHolds after next := by
  obtain ⟨op, fresh⟩ := op
  cases op with
  | array index op =>
    obtain ⟨array, found, fits⟩ := fits
    obtain ⟨pointers, listed, arrayHolds⟩ := holds.listed found
    obtain ⟨memory', array', answer, after, stepped, did, nextHolds, moves⟩ :=
      arrayStep_refines arrayHolds fresh op fits
    refine ⟨worldSet world memory' index array', answer, _, ?_, ⟨pointers, after, listed, did, rfl⟩,
      holds.update found nextHolds moves⟩
    simp only [worldStep, found, stepped, Option.bind_eq_bind, Option.bind_some]
  | addPointerarray index other range =>
    obtain ⟨next, after, result, did, nextHolds⟩ := holds.addPointerarray fresh fits
    exact ⟨next, .none, after, by simp [worldStep, result], did, nextHolds⟩
  | absorbArray index victim =>
    obtain ⟨next, after, result, did, nextHolds⟩ := holds.absorbArray fresh fits
    exact ⟨next, .none, after, by simp [worldStep, result], did, nextHolds⟩

end Worlds

inductive ArrayStart where
  | static (storage : List Pointer) (proper : storage ≠ []) (small : storage.length < 2 ^ 61)
  | heap (capacity : Nat) (small : capacity < 2 ^ 61) (fresh : Nat → Pointer)

def arrayStart (memory : PointerMemory) : ArrayStart → Option (PointerMemory × Pointerarray)
  | .static storage _ _ => pointerarrayInitWithStaticPointers memory storage
  | .heap capacity _ fresh => pointerarrayInit memory capacity fresh

def worldAdd (world : PointerWorld) (start : ArrayStart) : Option PointerWorld := do
  let (memory, array) ← arrayStart world.memory start
  some ⟨memory, world.arrays ++ [array]⟩

def worldStart (starts : List ArrayStart) : Option PointerWorld := starts.foldlM worldAdd ⟨[], []⟩

theorem arrayStart_holds (memory : PointerMemory) (start : ArrayStart) :
    ∃ memory' array, arrayStart memory start = some (memory', array) ∧ ArrayHolds memory' array [] ∧
      ArrayMoves memory memory' none array.storage := by
  have moves : ∀ block : PointerBlock, ArrayMoves memory (memory ++ [block]) none
      (some memory.length) := by
    intro block
    refine ⟨by rw [List.length_append]; omega, fun id inside _ => List.getElem?_append_left inside,
      ?_⟩
    rintro id ⟨⟩
    exact .inr le_rfl
  cases start with
  | static storage proper small =>
    refine ⟨_, _, if_neg fun empty => proper (List.length_eq_zero_iff.mp empty),
      ⟨small, Nat.zero_le _, ?_, ?_, ?_⟩, moves _⟩
    · rintro id ⟨⟩
      rw [List.length_append]
      exact Nat.lt_succ_self _
    · rintro id ⟨⟩
      exact ⟨storage, by simp⟩
    · exact ⟨storage, by simp [pointerarrayCells], rfl, rfl⟩
  | heap capacity small fresh =>
    rw [arrayStart, pointerarrayInit]
    split
    · rename_i positive
      rw [pointersMalloc_some memory fresh (Nat.pos_of_ne_zero positive) small]
      refine ⟨_, _, rfl, ⟨small, Nat.zero_le _, (fun id null => by cases null), ?_, ?_⟩, moves _⟩
      · rintro id ⟨⟩
        exact ⟨table capacity fresh, by simp⟩
      · exact ⟨table capacity fresh, by simp [pointerarrayCells], table_length _ _, rfl⟩
    · exact ⟨memory, _, rfl, arrayHolds_null memory fun id null => (by cases null),
        ArrayMoves.refl memory none⟩

theorem WorldHolds.start {lists : List (List Pointer)} {world : PointerWorld}
    (holds : WorldHolds lists world) (start : ArrayStart) :
    ∃ next, worldAdd world start = some next ∧ WorldHolds (lists ++ [[]]) next := by
  obtain ⟨memory', array, started, arrayHolds, moves⟩ := arrayStart_holds world.memory start
  refine ⟨⟨memory', world.arrays ++ [array]⟩, by rw [worldAdd, started]; rfl, ?_, ?_, ?_⟩
  · rw [List.length_append, List.length_append, holds.count]
    rfl
  · intro index now pointers here listed
    rw [List.getElem?_append] at here listed
    have count := holds.count
    split at here
    · rw [if_pos (by omega)] at listed
      exact (holds.each index now pointers here listed).elsewhere moves fun id _ null => by cases null
    · rw [if_neg (by omega), List.getElem?_singleton] at listed
      rw [List.getElem?_singleton] at here
      split at here
      · cases here
        split at listed
        · cases listed
          exact arrayHolds
        · cases listed
      · cases here
  · intro first second left right id here there stored also
    have last : ∀ (index : Nat) now, (world.arrays ++ [array])[index]? = some now →
      now.storage = some id →
        world.arrays[index]? = some now ∧ id < world.memory.length ∨
          index = world.arrays.length ∧ world.memory.length ≤ id := by
      intro index now here stored
      rw [List.getElem?_append] at here
      split at here
      · obtain ⟨pointers, _, nowHolds⟩ := holds.listed here
        obtain ⟨cells, block⟩ := nowHolds.owned id stored
        exact .inl ⟨here, (List.getElem?_eq_some_iff.mp block).1⟩
      · rw [List.getElem?_singleton] at here
        split at here
        · cases here
          exact .inr ⟨by omega, (moves.place id stored).resolve_left fun null => by cases null⟩
        · cases here
    obtain ⟨oldLeft, inside⟩ | ⟨newLeft, behind⟩ := last first left here stored
    · obtain ⟨oldRight, _⟩ | ⟨_, behind⟩ := last second right there also
      · exact holds.apart first second left right id oldLeft oldRight stored also
      · omega
    · obtain ⟨_, inside⟩ | ⟨newRight, _⟩ := last second right there also
      · omega
      · rw [newLeft, newRight]

theorem worldStart_holds (starts : List ArrayStart) :
    ∃ world, worldStart starts = some world ∧ WorldHolds (starts.map fun _ => []) world := by
  have fold : ∀ (starts : List ArrayStart) (lists : List (List Pointer)) (world : PointerWorld),
    WorldHolds lists world →
      ∃ next, starts.foldlM worldAdd world = some next ∧
        WorldHolds (lists ++ starts.map fun _ => []) next := by
    intro starts
    induction starts with
    | nil => exact fun lists world holds => ⟨world, rfl, by simpa using holds⟩
    | cons start starts ih =>
      intro lists world holds
      obtain ⟨between, added, betweenHolds⟩ := holds.start start
      obtain ⟨next, finished, nextHolds⟩ := ih _ between betweenHolds
      refine ⟨next, ?_, by simpa using nextHolds⟩
      rw [List.foldlM_cons, added]
      exact finished
  have empty : WorldHolds [] ⟨[], []⟩ :=
    ⟨rfl, (fun _ _ _ here => by cases here), fun _ _ _ _ _ here => by cases here⟩
  exact fold starts [] _ empty

/-- Every array is a list of pointers. What it gives back or resizes is a block on the heap that
it alone has, and no block of no bytes is asked for. -/
theorem pointerarrayRun_refines (starts : List ArrayStart)
    (ops : List (PointerarrayOp × (Nat → Pointer))) (fits : ∀ world, worldStart starts = some world →
      PermittedFrom (fun world op => (worldStep world op).map Prod.fst) WorldFits world ops) :
    ∃ world final answers lists, worldStart starts = some world ∧
      run worldStep world ops = some (final, answers) ∧
      Library.Answers listsDo (starts.map fun _ => []) ops answers lists ∧
      WorldHolds lists final := by
  obtain ⟨world, started, holds⟩ := worldStart_holds starts
  obtain ⟨final, answers, lists, finished, answered, finalHolds⟩ :=
    run_answersFrom listsDo WorldHolds (fun lists world op => worldStep_refines op) ops _ world
      holds (fits world started)
  exact ⟨world, final, answers, lists, started, finished, answered, finalHolds⟩

theorem pointerarrayRun_refines_absorbed :
    ∃ world final answers lists,
      worldStart [.static [7] (by decide) (by decide), .static [8] (by decide) (by decide)] =
        some world ∧
      run worldStep world [(.array 0 (.add 5), fun _ => 0), (.absorbArray 1 0, fun _ => 0)] =
        some (final, answers) ∧
      Library.Answers listsDo [[], []] [(.array 0 (.add 5), fun _ => 0),
        (.absorbArray 1 0, fun _ => 0)] answers lists ∧
      WorldHolds lists final := by
  refine pointerarrayRun_refines [.static [7] (by decide) (by decide),
    .static [8] (by decide) (by decide)]
    [(.array 0 (.add 5), fun _ => 0), (.absorbArray 1 0, fun _ => 0)] ?_
  rintro world ⟨⟩
  refine ⟨⟨_, rfl, fun full => by cases full⟩, ?_⟩
  rintro next ⟨⟩
  refine ⟨⟨by decide, _, _, rfl, rfl, (fun null => by cases null), fun _ many => ?_⟩,
    fun _ _ => trivial⟩
  exact absurd many (by decide)

/-- An empty array with a static storage is extracted. An array without a storage absorbs a static
one and is done. NULL is searched in an empty array. -/
theorem pointerarrayRun_not_refines :
    ((worldStart [.static [7] (by decide) (by decide)]).bind fun world =>
      run worldStep world [(.array 0 .extractPointers, fun _ => 0)]) = none ∧
    ((worldStart [.heap 0 (by decide) (fun _ => 0), .static [7] (by decide) (by decide)]).bind
      fun world =>
      run worldStep world [(.absorbArray 0 1, fun _ => 0), (.array 0 .done, fun _ => 0)]) = none ∧
    ((worldStart [.heap 0 (by decide) (fun _ => 0)]).bind fun world =>
      (run worldStep world [(.array 0 (.member 0), fun _ => 0)]).map Prod.snd) = some [.bool true] :=
  ⟨by rfl, by rfl, by rfl⟩

end MulleCore
