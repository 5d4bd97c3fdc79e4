import Mathlib.Data.List.Basic

/-!
A block of memory as a list of cells: moves inside it, writes, and reallocation.
An access outside the block has no result.
-/

namespace Library

section Block

variable {Cell : Type}
variable {cells : List Cell} {count index : Nat} {source : List Cell} {offset size : Nat}

def blockMove (cells : List Cell) (target source count : Nat) : Option (List Cell) :=
  if target + count ≤ cells.length ∧ source + count ≤ cells.length then
    some (cells.take target ++ (cells.drop source).take count ++ cells.drop (target + count))
  else none

def blockWrite (cells : List Cell) (index : Nat) (cell : Cell) : Option (List Cell) :=
  if index < cells.length then some (cells.set index cell) else none

def blockRead (cells : List Cell) (offset count : Nat) : Option (List Cell) :=
  if offset + count ≤ cells.length then some ((cells.drop offset).take count) else none

def blockPaste (cells : List Cell) (offset : Nat) (source : List Cell) : Option (List Cell) :=
  if offset + source.length ≤ cells.length then
    some (cells.take offset ++ source ++ cells.drop (offset + source.length))
  else none

/-- The cells that a larger block gains hold whatever was in memory there. -/
def blockResize (cells : List Cell) (size : Nat) (fresh : Nat → Cell) : List Cell :=
  cells.take size ++ (List.range (size - cells.length)).map fun offset =>
    fresh (cells.length + offset)

/-- Inside of the block a move reads all of its source before it writes. -/
theorem blockMove_some {target source : Nat}
    (targetBound : target + count ≤ cells.length) (sourceBound : source + count ≤ cells.length) :
    ∃ moved, blockMove cells target source count = some moved ∧ moved.length = cells.length ∧
      ∀ index : Nat, moved[index]? =
        if target ≤ index ∧ index < target + count then cells[source + (index - target)]?
        else cells[index]? := by
  refine ⟨_, if_pos ⟨targetBound, sourceBound⟩, ?_, ?_⟩
  · simp only [List.length_append, List.length_take, List.length_drop]
    omega
  · intro index
    have frontLength : (cells.take target).length = target := by
      simp only [List.length_take]
      omega
    have middleLength : ((cells.drop source).take count).length = count := by
      simp only [List.length_take, List.length_drop]
      omega
    by_cases before : index < target
    · rw [List.append_assoc, List.getElem?_append_left (by omega), List.getElem?_take_of_lt before,
        if_neg (by omega)]
    · by_cases inside : index < target + count
      · rw [List.append_assoc, List.getElem?_append_right (by omega), frontLength,
          List.getElem?_append_left (by omega), List.getElem?_take_of_lt (by omega),
          List.getElem?_drop, if_pos (by omega)]
      · rw [List.getElem?_append_right (by simp only [List.length_append]; omega),
          List.getElem?_drop, if_neg (by omega)]
        congr 1
        simp only [List.length_append]
        omega

theorem blockWrite_some (bound : index < cells.length) (cell : Cell) :
    ∃ written, blockWrite cells index cell = some written ∧ written.length = cells.length ∧
      ∀ other : Nat, written[other]? = if other = index then some cell else cells[other]? := by
  refine ⟨_, if_pos bound, by simp, ?_⟩
  intro other
  rw [List.getElem?_set]
  split <;> rename_i same
  · rw [if_pos same.symm]
  · rw [if_neg (Ne.symm same)]

theorem blockPaste_some (bound : offset + source.length ≤ cells.length) :
    ∃ pasted, blockPaste cells offset source = some pasted ∧ pasted.length = cells.length ∧
      ∀ index : Nat, pasted[index]? =
        if offset ≤ index ∧ index < offset + source.length then source[index - offset]?
        else cells[index]? := by
  refine ⟨_, if_pos bound, ?_, ?_⟩
  · simp only [List.length_append, List.length_take, List.length_drop]
    omega
  · intro index
    have frontLength : (cells.take offset).length = offset := by
      simp only [List.length_take]
      omega
    by_cases before : index < offset
    · rw [List.append_assoc, List.getElem?_append_left (by omega), List.getElem?_take_of_lt before,
        if_neg (by omega)]
    · by_cases inside : index < offset + source.length
      · rw [List.append_assoc, List.getElem?_append_right (by omega), frontLength,
          List.getElem?_append_left (by omega), if_pos (by omega)]
      · rw [List.getElem?_append_right (by simp only [List.length_append]; omega),
          List.getElem?_drop, if_neg (by omega)]
        congr 1
        simp only [List.length_append]
        omega

theorem slice_getElem? (cells : List Cell) (offset count index : Nat) :
    ((cells.drop offset).take count)[index]? =
      if index < count then cells[offset + index]? else none := by
  rw [List.getElem?_take]
  split
  · rw [List.getElem?_drop]
  · rfl

theorem blockRead_front (bound : count ≤ cells.length) :
    blockRead cells 0 count = some (cells.take count) := by
  rw [blockRead, if_pos (by omega), List.drop_zero]

theorem blockWrite_take (bound : offset < cells.length) (cell : Cell) :
    blockWrite cells offset cell = some (cells.set offset cell) ∧
      (cells.set offset cell).take (offset + 1) = cells.take offset ++ [cell] := by
  refine ⟨if_pos bound, ?_⟩
  rw [List.take_add_one, List.take_set_of_le (Nat.le_refl offset), List.getElem?_set_self bound]
  rfl

theorem blockPaste_append (front old rest : List Cell) (inside : source.length ≤ old.length) :
    blockPaste (front ++ old ++ rest) front.length source =
      some (front ++ source ++ old.drop source.length ++ rest) := by
  have bound : front.length + source.length ≤ (front ++ old ++ rest).length := by
    simp only [List.length_append]
    omega
  rw [blockPaste, if_pos bound, List.append_assoc front old rest, List.take_left,
    List.drop_length_add_append, List.drop_append_of_le_length inside, ← List.append_assoc]

theorem blockPaste_take (cells source : List Cell) (offset : Nat)
    (bound : offset + source.length ≤ cells.length) :
    ∃ pasted, blockPaste cells offset source = some pasted ∧ pasted.length = cells.length ∧
      pasted.take (offset + source.length) = cells.take offset ++ source := by
  refine ⟨_, if_pos bound, ?_, ?_⟩
  · simp only [List.length_append, List.length_take, List.length_drop]
    omega
  · have front : (cells.take offset ++ source).length = offset + source.length := by
      simp only [List.length_append, List.length_take]
      omega
    rw [← front, List.take_left]

theorem blockMove_take (cells : List Cell) {start stop : Nat} (count : Nat) (ordered : start ≤ stop)
    (bound : stop + count ≤ cells.length) :
    ∃ moved, blockMove cells start stop count = some moved ∧ moved.length = cells.length ∧
      moved.take (start + count) = cells.take start ++ (cells.take (stop + count)).drop stop := by
  refine ⟨_, if_pos ⟨by omega, bound⟩, ?_, ?_⟩
  · simp only [List.length_append, List.length_take, List.length_drop]
    omega
  · have front : (cells.take start ++ (cells.drop stop).take count).length = start + count := by
      simp only [List.length_append, List.length_take, List.length_drop]
      omega
    rw [← front, List.take_left, List.drop_take, Nat.add_sub_cancel_left]

/-- Opening a gap and filling it is an insertion. -/
theorem blockMove_paste (front back rest : List Cell) (room : source.length ≤ rest.length) :
    ∃ moved opened, blockMove (front ++ back ++ rest) (front.length + source.length) front.length
      back.length =
        some moved ∧
      blockPaste moved front.length source = some opened ∧
      opened.length = (front ++ back ++ rest).length ∧
      opened.take (front.length + source.length + back.length) = front ++ source ++ back := by
  have total : (front ++ back ++ rest).length = front.length + back.length + rest.length := by
    simp only [List.length_append]
  have middle : ((front ++ back ++ rest).drop front.length).take back.length = back := by
    rw [List.append_assoc, List.drop_left, List.take_left]
  obtain ⟨lower, lowerEq⟩ : ∃ lower, (front ++ back ++ rest).take (front.length + source.length) =
    lower := ⟨_, rfl⟩
  obtain ⟨upper, upperEq⟩ :
      ∃ upper, (front ++ back ++ rest).drop (front.length + source.length + back.length) = upper :=
        ⟨_, rfl⟩
  have lowerLength : lower.length = front.length + source.length := by
    rw [← lowerEq, List.length_take]
    omega
  have upperLength : upper.length = rest.length - source.length := by
    rw [← upperEq, List.length_drop]
    omega
  have lowerFront : lower.take front.length = front := by
    rw [← lowerEq, List.take_take, Nat.min_eq_left (by omega), List.append_assoc, List.take_left]
  have moved : blockMove (front ++ back ++ rest) (front.length + source.length) front.length
    back.length =
      some (lower ++ back ++ upper) := by
    rw [blockMove, if_pos ⟨by omega, by omega⟩, middle, lowerEq, upperEq]
  have opened : blockPaste (lower ++ back ++ upper) front.length source =
      some (front ++ source ++ (back ++ upper)) := by
    rw [blockPaste, if_pos (by simp only [List.length_append]; omega), List.append_assoc lower,
      List.take_append_of_le_length (by omega), lowerFront, List.drop_left' lowerLength]
  refine ⟨_, _, moved, opened, ?_, ?_⟩
  · simp only [List.length_append]
    omega
  · have length : (front ++ source ++ back).length = front.length + source.length + back.length := by
      simp only [List.length_append]
    rw [← List.append_assoc, ← length, List.take_left]

theorem blockResize_take (cells : List Cell) (fresh : Nat → Cell) (inside : count ≤ cells.length)
    (kept : count ≤ size) : (blockResize cells size fresh).take count = cells.take count := by
  rw [blockResize, List.take_append_of_le_length (by simp only [List.length_take]; omega),
    List.take_take, Nat.min_eq_left kept]

theorem blockResize_length (cells : List Cell) (size : Nat) (fresh : Nat → Cell) :
    (blockResize cells size fresh).length = size := by
  simp only [blockResize, List.length_append, List.length_take, List.length_map,
    List.length_range]
  omega

theorem blockResize_getElem? (cells : List Cell) (fresh : Nat → Cell)
    (bound : index < cells.length) (kept : index < size) :
    (blockResize cells size fresh)[index]? = cells[index]? := by
  rw [blockResize, List.getElem?_append_left (by simp only [List.length_take]; omega),
    List.getElem?_take_of_lt kept]

end Block

section Table

variable {Entry : Type}
variable {count index : Nat} {before after : Nat → Entry}

def table (count : Nat) (entryAt : Nat → Entry) : List Entry :=
  (List.range count).map entryAt

@[simp] theorem table_length (count : Nat) (entryAt : Nat → Entry) :
    (table count entryAt).length = count := by
  simp [table]

@[simp] theorem table_getElem (entryAt : Nat → Entry)
    (bound : index < (table count entryAt).length) :
    (table count entryAt)[index] = entryAt index := by
  simp [table]

theorem table_congr (same : ∀ index, index < count → after index = before index) :
    table count after = table count before := by
  apply List.ext_getElem (by simp)
  intro index bound _
  rw [table_getElem, table_getElem]
  exact same index (by simpa using bound)

/-- Shifting up and storing in the gap is `insertIdx`. -/
theorem table_insertIdx (entry : Entry)
    (inside : index ≤ count) (lower : ∀ other, other < index → after other = before other)
    (new : after index = entry)
    (upper : ∀ other, index ≤ other → other < count → after (other + 1) = before other) :
    table (count + 1) after = (table count before).insertIdx index entry := by
  apply List.ext_getElem
  · rw [List.length_insertIdx_of_le_length (by simpa using inside)]
    simp
  · intro other bound _
    rw [table_length] at bound
    rw [table_getElem, List.getElem_insertIdx]
    split
    · rename_i below
      rw [table_getElem]
      exact lower other below
    · split
      · rename_i same
        rw [same]
        exact new
      · rw [table_getElem]
        have shifted := upper (other - 1) (by omega) (by omega)
        rwa [Nat.sub_add_cancel (by omega)] at shifted

/-- Shifting down over an entry is `eraseIdx`. -/
theorem table_eraseIdx (inside : index < count + 1)
    (lower : ∀ other, other < index → after other = before other)
    (upper : ∀ other, index ≤ other → other < count → after other = before (other + 1)) :
    table count after = (table (count + 1) before).eraseIdx index := by
  apply List.ext_getElem
  · rw [List.length_eraseIdx_of_lt (by simpa using inside)]
    simp
  · intro other bound _
    rw [table_length] at bound
    rw [table_getElem, List.getElem_eraseIdx]
    split
    · rename_i below
      rw [table_getElem]
      exact lower other below
    · rw [table_getElem]
      exact upper other (by omega) bound

end Table

end Library
