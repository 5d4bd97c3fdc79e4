import Mathlib.Data.List.Basic

/-!
The block of `mulle_calloca_do` and `mulle_calloca_do_realloc` of `mulle-alloca.h`, as a list of
elements. What fresh memory holds is handed to the calls that allocate.
-/

namespace MulleCore

structure Calloca (Element : Type) where
  storage : List Element
  heap : Option (List Element)
  count : Nat

section Operations

variable {Element : Type}

def oneForZero (count : Nat) : Nat := if count = 0 then 1 else count

def mulleCalloc (zero : Element) (count : Nat) : List Element := List.replicate count zero

def mulleAllocarray (fresh : Nat → Element) (count : Nat) : List Element :=
  (List.range count).map fresh

def mulleReallocarray (fresh : Nat → Element) (name : List Element) (count : Nat) : List Element :=
  name.take count ++ (List.range (count - name.length)).map fresh

def copyElements (target source : List Element) (count : Nat) : List Element :=
  source.take count ++ target.drop count

def zeroElements (zero : Element) (target : List Element) (start count : Nat) : List Element :=
  target.take start ++ List.replicate count zero ++ target.drop (start + count)

def callocaDo (zero : Element) (stackitems count : Nat) : Calloca Element where
  storage := List.replicate stackitems zero
  heap := if count ≤ stackitems then none else some (mulleCalloc zero count)
  count := count

def callocaDoRealloc (zero : Element) (fresh : Nat → Element) (block : Calloca Element)
    (count : Nat) :
    Calloca Element :=
  let oldcount := block.count
  let count := oneForZero count
  match block.heap with
  | none =>
    if count ≤ block.storage.length then { block with count := count }
    else
      let name := copyElements (mulleAllocarray fresh count) block.storage oldcount
      { block with
        heap := some (if count > oldcount then zeroElements zero name oldcount (count - oldcount)
          else name)
        count := count }
  | some name =>
    let name := mulleReallocarray fresh name count
    { block with
      heap := some (if count > oldcount then zeroElements zero name oldcount (count - oldcount)
        else name)
      count := count }

def Calloca.room (block : Calloca Element) : List Element :=
  match block.heap with
  | none => block.storage
  | some name => name

def Calloca.elements (block : Calloca Element) : List Element := block.room.take block.count

def callocaWrite (block : Calloca Element) (index : Nat) (element : Element) : Calloca Element :=
  match block.heap with
  | none => { block with storage := block.storage.set index element }
  | some name => { block with heap := some (name.set index element) }

inductive CallocaOp (Element : Type) where
  | realloc (count : Nat) (fresh : Nat → Element)
  | write (index : Nat) (element : Element)

/-- A write to no element is not done. -/
def callocaStep (zero : Element) (block : Calloca Element) : CallocaOp Element → Calloca Element
  | .realloc count fresh => callocaDoRealloc zero fresh block count
  | .write index element => if index < block.count then callocaWrite block index element else block

def zeroedResize (zero : Element) (list : List Element) (count : Nat) : List Element :=
  list.take count ++ List.replicate (count - list.length) zero

def zeroedStep (zero : Element) (list : List Element) : CallocaOp Element → List Element
  | .realloc count _ => zeroedResize zero list (oneForZero count)
  | .write index element => list.set index element

structure CallocaIs (block : Calloca Element) (list : List Element) : Prop where
  elements : block.elements = list
  count : block.count = list.length
  room : block.count ≤ block.room.length

def CallocaFollows (zero : Element) : Calloca Element → List Element → List (CallocaOp Element) → Prop
  | block, list, [] => CallocaIs block list
  | block, list, op :: ops =>
    CallocaIs block list ∧ CallocaFollows zero (callocaStep zero block op) (zeroedStep zero list op)
      ops

/-- On the stack, a resize must not bring back what was written before the block shrank. -/
def FindsZeroes (zero : Element) (block : Calloca Element) : CallocaOp Element → Prop
  | .realloc count _ => block.heap = none → oneForZero count ≤ block.storage.length →
      ∀ element ∈ (block.storage.take (oneForZero count)).drop block.count, element = zero
  | .write _ _ => True

def AllFindZeroes (zero : Element) : Calloca Element → List (CallocaOp Element) → Prop
  | _, [] => True
  | block, op :: ops => FindsZeroes zero block op ∧ AllFindZeroes zero (callocaStep zero block op) ops

end Operations

section Refinement

variable {Element : Type} {zero : Element} {block : Calloca Element} {list : List Element}
variable {name : List Element} {old : Nat} {target source : List Element} {count : Nat}

theorem zeroedResize_length (list : List Element) (count : Nat) :
    (zeroedResize zero list count).length = count := by
  simp only [zeroedResize, List.length_append, List.length_take, List.length_replicate]
  omega

theorem take_eq_zeroedResize {storage : List Element} {old count : Nat} (was : old ≤ storage.length)
    (fits : count ≤ storage.length) :
    storage.take count = zeroedResize zero (storage.take old) count ↔
      ∀ element ∈ (storage.take count).drop old, element = zero := by
  have length := List.length_take_of_le was
  rw [zeroedResize, length, List.take_take]
  by_cases shrinks : count ≤ old
  · rw [Nat.min_eq_left shrinks, Nat.sub_eq_zero_of_le shrinks, List.replicate_zero, List.append_nil,
      List.drop_eq_nil_of_le (by rw [List.length_take]; omega)]
    simp
  · have grows : old ≤ count := by omega
    have front : (storage.take count).take old = storage.take old := by
      rw [List.take_take, Nat.min_eq_left grows]
    have behind : ((storage.take count).drop old).length = count - old := by
      rw [List.length_drop, List.length_take, Nat.min_eq_left fits]
    have split : storage.take count = storage.take old ++ (storage.take count).drop old := by
      rw [← front, List.take_append_drop]
    rw [Nat.min_eq_right grows]
    conv_lhs => rw [split, List.append_cancel_left_eq, List.eq_replicate_iff]
    simp [behind]

theorem zeroed_room {room moved : List Element} {old count : Nat} (was : old ≤ room.length)
    (length : moved.length = count) (kept : moved.take old = (room.take old).take count) :
    (if count > old then zeroElements zero moved old (count - old) else moved) = zeroedResize zero
    (room.take old) count := by
  have known := List.length_take_of_le was
  rw [zeroedResize, known]
  split
  next grows =>
    have all : old + (count - old) = count := by omega
    rw [zeroElements, kept, all, List.drop_eq_nil_of_le (Nat.le_of_eq length), List.append_nil]
  next shrinks =>
    rw [← kept, List.take_of_length_le (by omega), Nat.sub_eq_zero_of_le (by omega),
      List.replicate_zero, List.append_nil]

theorem mulleReallocarray_take (fresh : Nat → Element) (was : old ≤ name.length)
    (count : Nat) : (mulleReallocarray fresh name count).take old = (name.take old).take count := by
  rw [mulleReallocarray, List.take_take]
  by_cases shrinks : count ≤ name.length
  · rw [Nat.sub_eq_zero_of_le shrinks, List.range_zero, List.map_nil, List.append_nil,
      List.take_take, Nat.min_comm]
  · have whole : name.take count = name := List.take_of_length_le (by omega)
    rw [whole, List.take_append_of_le_length was, Nat.min_eq_right (by omega)]

theorem copyElements_take (was : old ≤ source.length)
    (larger : old ≤ count) :
    (copyElements target source old).take old = (source.take old).take count := by
  have length := List.length_take_of_le was
  rw [copyElements, List.take_append_of_le_length (by omega), List.take_take, List.take_take,
    Nat.min_self, Nat.min_eq_right larger]

theorem mulleReallocarray_length (fresh : Nat → Element) (name : List Element) (count : Nat) :
    (mulleReallocarray fresh name count).length = count := by
  simp only [mulleReallocarray, List.length_append, List.length_take, List.length_map,
    List.length_range]
  omega

theorem copyElements_length (fits : count ≤ source.length)
    (room : count ≤ target.length) : (copyElements target source count).length = target.length := by
  simp only [copyElements, List.length_append, List.length_take, List.length_drop]
  omega

theorem callocaDo_is (zero : Element) (stackitems count : Nat) :
    CallocaIs (callocaDo zero stackitems count) (List.replicate count zero) := by
  by_cases fits : count ≤ stackitems
  · have onStack : callocaDo zero stackitems count = ⟨List.replicate stackitems zero,
        none, count⟩ := by
      rw [callocaDo, if_pos fits]
    rw [onStack]
    exact ⟨by simp [Calloca.elements, Calloca.room, fits], by simp, by simpa [Calloca.room] using fits⟩
  · have onHeap : callocaDo zero stackitems count =
        ⟨List.replicate stackitems zero, some (List.replicate count zero), count⟩ := by
      rw [callocaDo, if_neg fits]
      rfl
    rw [onHeap]
    exact ⟨by simp [Calloca.elements, Calloca.room], by simp, by simp [Calloca.room]⟩

theorem CallocaIs.moved {storage : List Element} (same : name = zeroedResize zero list count) :
    CallocaIs ⟨storage, some name, count⟩ (zeroedResize zero list count) := by
  subst same
  have length : (zeroedResize zero list count).length = count := zeroedResize_length list count
  exact ⟨List.take_of_length_le (Nat.le_of_eq length), length.symm, Nat.le_of_eq length.symm⟩

theorem CallocaIs.realloc (holds : CallocaIs block list) (count : Nat) (fresh : Nat → Element) :
    CallocaIs (callocaDoRealloc zero fresh block count) (zeroedResize zero list (oneForZero count)) ↔
      FindsZeroes zero block (.realloc count fresh) := by
  obtain ⟨storage, heap, old⟩ := block
  obtain ⟨elements, -, was⟩ := holds
  rw [callocaDoRealloc, FindsZeroes]
  generalize oneForZero count = count
  cases heap with
  | none =>
    dsimp only [Calloca.elements, Calloca.room] at elements was ⊢
    subst elements
    split
    next fits =>
      have taken := @take_eq_zeroedResize _ zero storage old count was fits
      constructor
      · intro resized _ _
        exact taken.mp resized.elements
      · intro zeroes
        exact ⟨taken.mpr (zeroes rfl fits), (zeroedResize_length _ count).symm, fits⟩
    next large =>
      have room : old ≤ (mulleAllocarray fresh count).length := by
        simp only [mulleAllocarray, List.length_map, List.length_range]
        omega
      have copied := @zeroed_room _ zero storage _ old count was
        ((copyElements_length was room).trans (by simp [mulleAllocarray]))
          (copyElements_take was (by omega))
      constructor
      · intro _ _ fits
        exact absurd fits large
      · intro _
        exact CallocaIs.moved copied
  | some name =>
    dsimp only [Calloca.elements, Calloca.room] at elements was ⊢
    subst elements
    have moved := @zeroed_room _ zero name _ old count was (mulleReallocarray_length fresh name count)
      (mulleReallocarray_take fresh was count)
    constructor
    · intro _ onStack
      exact nomatch onStack
    · intro _
      exact CallocaIs.moved moved

theorem CallocaIs.write (holds : CallocaIs block list) (index : Nat) (element : Element) :
    CallocaIs (callocaStep zero block (.write index element)) (list.set index element) := by
  obtain ⟨storage, heap, count⟩ := block
  obtain ⟨elements, length, was⟩ := holds
  rw [callocaStep]
  split
  next inside =>
    cases heap with
    | none =>
      dsimp only [Calloca.elements, Calloca.room] at elements was
      subst elements
      exact ⟨List.take_set
        .., by simpa [callocaWrite] using length, by simpa [callocaWrite, Calloca.room] using was⟩
    | some name =>
      dsimp only [Calloca.elements, Calloca.room] at elements was
      subst elements
      exact ⟨List.take_set
        .., by simpa [callocaWrite] using length, by simpa [callocaWrite, Calloca.room] using was⟩
  next outside =>
    rw [List.set_eq_of_length_le (by dsimp only at outside length; omega)]
    exact ⟨elements, length, was⟩

theorem CallocaIs.step (holds : CallocaIs block list) (op : CallocaOp Element) :
    CallocaIs (callocaStep zero block op) (zeroedStep zero list op) ↔ FindsZeroes zero block op := by
  cases op with
  | realloc count fresh => exact holds.realloc count fresh
  | write index element => exact ⟨fun _ => trivial, fun _ => holds.write index element⟩

theorem CallocaFollows.first :
    ∀ {ops : List (CallocaOp Element)} {block : Calloca Element} {list : List Element},
    CallocaFollows zero block list ops → CallocaIs block list := by
  intro ops
  cases ops with
  | nil => exact fun follows => follows
  | cons op ops => exact fun follows => follows.1

theorem callocaFollows_iff :
    ∀ (ops : List (CallocaOp Element)) (block : Calloca Element) (list : List Element),
    CallocaIs block list → (CallocaFollows zero block list ops ↔ AllFindZeroes zero block ops) := by
  intro ops
  induction ops with
  | nil => exact fun block list holds => ⟨fun _ => trivial, fun _ => holds⟩
  | cons op ops ih =>
    intro block list holds
    constructor
    · rintro ⟨-, follows⟩
      have next := follows.first
      exact ⟨(holds.step op).mp next, (ih _ _ next).mp follows⟩
    · rintro ⟨finds, rest⟩
      have next := (holds.step op).mpr finds
      exact ⟨holds, (ih _ _ next).mpr rest⟩

end Refinement

/-- Runs from the start of the block. -/
theorem callocaDo_follows_iff {Element : Type} (zero : Element) (stackitems count : Nat)
    (ops : List (CallocaOp Element)) :
    CallocaFollows zero (callocaDo zero stackitems count) (List.replicate count zero) ops ↔
      AllFindZeroes zero (callocaDo zero stackitems count) ops :=
  callocaFollows_iff ops _ _ (callocaDo_is zero stackitems count)

/-- Room for four on the stack: what was written to the second of two elements comes back. -/
theorem callocaDo_follows_regrown :
    ¬CallocaFollows 0 (callocaDo 0 4 2) (List.replicate 2 0)
      [.write 1 7, .realloc 1 fun _ => 0, .realloc 2 fun _ => 0] := by
  rintro ⟨-, -, -, last⟩
  exact absurd last.elements (by decide)

end MulleCore
