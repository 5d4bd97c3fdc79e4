import MulleCore.Data.Qsort

/-!
`mulle_qsort_r` sorts: it ends, reads no item outside, and leaves the same items in order.
-/

namespace MulleCore

open Library

section Qsort

variable {Item : Type} {cmp : Item → Item → Int}
variable {items : List Item} {a b : Nat} {item : Item} {swapped : List Item}

theorem qsortCompare_some (aBound : a < items.length) (bBound : b < items.length) :
    ∃ one other, items[a]? = some one ∧ items[b]? = some other ∧
      qsortCompare cmp items a b = some (cmp one other) := by
  refine ⟨items[a], items[b], List.getElem?_eq_getElem aBound, List.getElem?_eq_getElem bBound, ?_⟩
  simp only [qsortCompare, List.getElem?_eq_getElem aBound, List.getElem?_eq_getElem bBound,
    Option.bind_eq_bind, Option.bind_some]

theorem qsortMed3_some {c : Nat} (aBound : a < items.length)
    (bBound : b < items.length) (cBound : c < items.length) :
    ∃ middle, qsortMed3 cmp items a b c = some middle ∧ middle < items.length := by
  obtain ⟨_, _, _, _, ab⟩ := @qsortCompare_some _ cmp items a b aBound bBound
  obtain ⟨_, _, _, _, bc⟩ := @qsortCompare_some _ cmp items b c bBound cBound
  obtain ⟨_, _, _, _, ac⟩ := @qsortCompare_some _ cmp items a c aBound cBound
  simp only [qsortMed3, ab, bc, ac, Option.bind_eq_bind, Option.bind_some]
  refine ⟨_, rfl, ?_⟩
  split_ifs <;> assumption

theorem qsortPivot_some {items : List Item} (nonempty : 0 < items.length) :
    ∃ pm, qsortPivot cmp items = some pm ∧ pm < items.length := by
  rw [qsortPivot]
  by_cases large : items.length > 40
  · obtain ⟨pl, low, lowBound⟩ := @qsortMed3_some _ cmp items 0 (items.length / 8)
      (2 * (items.length / 8)) (by omega) (by omega) (by omega)
    obtain ⟨pm, middle, middleBound⟩ := @qsortMed3_some _ cmp items
      (items.length / 2 - items.length / 8) (items.length / 2)
      (items.length / 2 + items.length / 8) (by omega) (by omega) (by omega)
    obtain ⟨pn, high, highBound⟩ := @qsortMed3_some _ cmp items
      (items.length - 1 - 2 * (items.length / 8)) (items.length - 1 - items.length / 8)
      (items.length - 1) (by omega) (by omega) (by omega)
    rw [if_pos large]
    simp only [low, middle, high, Option.bind_eq_bind, Option.bind_some]
    exact qsortMed3_some lowBound middleBound highBound
  · rw [if_neg large]
    by_cases medium : items.length > 7
    · rw [if_pos medium]
      exact qsortMed3_some (by omega) (by omega) (by omega)
    · rw [if_neg medium]
      exact ⟨_, rfl, by omega⟩

theorem qsortSink_some (order : TotalCompare cmp) {bound : Nat} : ∀ {pl : Nat} {items : List Item},
    pl < bound → bound ≤ items.length → OrderedBut cmp items bound pl →
    ∃ next, qsortSink cmp pl items = some next ∧ next.Perm items ∧
      OrderedBut cmp next bound bound := by
  intro pl
  induction pl with
  | zero =>
    intro items inside _ ordered
    refine ⟨items, rfl, List.Perm.refl items, ordered.close order ?_⟩
    intro one other positive
    exact absurd positive (Nat.lt_irrefl 0)
  | succ pl ih =>
    intro items inside within ordered
    obtain ⟨one, other, oneAt, otherAt, compared⟩ :=
      @qsortCompare_some _ cmp items pl (pl + 1) (by omega) (by omega)
    rw [qsortSink]
    simp only [compared, Option.bind_eq_bind, Option.bind_some]
    by_cases above : cmp one other > 0
    · obtain ⟨swapped, didSwap, perm, swappedAt⟩ :=
        @swapAt_some _ items (pl + 1) pl (by omega) (by omega)
      have sunk := ordered.sink inside oneAt otherAt
        (order.le_of_ge (Int.le_of_lt above)) swappedAt
      obtain ⟨next, done, nextPerm, nextOrdered⟩ :=
        ih (by omega) (by rw [perm.length_eq]; exact within) sunk
      rw [if_pos above]
      simp only [didSwap, Option.bind_some]
      exact ⟨next, done, nextPerm.trans perm, nextOrdered⟩
    · rw [if_neg above]
      refine ⟨items, rfl, List.Perm.refl items, ordered.close order ?_⟩
      intro left right _ leftAt rightAt
      rw [Nat.add_sub_cancel, oneAt, Option.some.injEq] at leftAt
      rw [otherAt, Option.some.injEq] at rightAt
      subst leftAt rightAt
      exact Int.le_of_not_gt above

theorem qsortInsertionFrom_some (order : TotalCompare cmp) : ∀ {remaining pm : Nat}
    {items : List Item}, pm + remaining = items.length → OrderedBut cmp items pm pm →
    ∃ next, qsortInsertionFrom cmp remaining pm items = some next ∧ next.Perm items ∧
      OrderedBut cmp next items.length items.length := by
  intro remaining
  induction remaining with
  | zero =>
    intro pm items whole ordered
    rw [Nat.add_zero] at whole
    subst whole
    exact ⟨items, rfl, List.Perm.refl items, ordered⟩
  | succ remaining ih =>
    intro pm items whole ordered
    have gapped : OrderedBut cmp items (pm + 1) pm := by
      intro first second one other before inside notGap
      exact ordered first second one other before (by omega) notGap
    obtain ⟨sunk, didSink, perm, sunkOrdered⟩ :=
      qsortSink_some order (Nat.lt_succ_self pm) (by omega) gapped
    obtain ⟨next, done, nextPerm, nextOrdered⟩ :=
      @ih (pm + 1) sunk (by rw [perm.length_eq]; omega) sunkOrdered
    rw [perm.length_eq] at nextOrdered
    refine ⟨next, ?_, nextPerm.trans perm, nextOrdered⟩
    simp only [qsortInsertionFrom, didSink, done, Option.bind_eq_bind, Option.bind_some]

theorem qsortInsertion_sorts (order : TotalCompare cmp) {items : List Item}
    (nonempty : 0 < items.length) :
    ∃ next, qsortInsertion cmp items = some next ∧ next.Perm items ∧
      next.Pairwise fun one other => cmp one other ≤ 0 := by
  have single : OrderedBut cmp items 1 1 := by
    intro first second one other before inside
    omega
  obtain ⟨next, done, perm, ordered⟩ :=
    @qsortInsertionFrom_some _ cmp order (items.length - 1) 1 items (by omega) single
  rw [← perm.length_eq] at ordered
  exact ⟨next, done, perm, ordered.pairwise⟩

structure QsortPartition.Bands (cmp : Item → Item → Int) (pivot : Item) (start : List Item)
    (state : QsortPartition Item) : Prop where
  perm : state.items.Perm start
  pivotAt : state.items[0]? = some pivot
  left : 1 ≤ state.pa ∧ state.pa ≤ state.pb
  middle : state.pb ≤ state.pc + 1
  right : state.pc ≤ state.pd ∧ state.pd < state.items.length
  equalLeft : ∀ index item, index < state.pa → state.items[index]? = some item →
    cmp item pivot = 0
  below : ∀ index item, state.pa ≤ index → index < state.pb → state.items[index]? = some item →
    cmp item pivot < 0
  above : ∀ index item, state.pc < index → index ≤ state.pd → state.items[index]? = some item →
    0 < cmp item pivot
  equalRight : ∀ index item, state.pd < index → state.items[index]? = some item →
    cmp item pivot = 0

variable {pivot : Item} {start : List Item} {state : QsortPartition Item}

section

variable (bands : state.Bands cmp pivot start)
include bands

theorem QsortPartition.Bands.equalUp
    (onward : state.pb ≤ state.pc) (itemAt : state.items[state.pb]? = some item)
    (equal : cmp item pivot = 0) (perm : swapped.Perm state.items)
    (swappedAt : ∀ index : Nat, swapped[index]? = state.items[
      if index = state.pa then state.pb else if index = state.pb then state.pa else index]?) :
    QsortPartition.Bands cmp pivot start { state with
      items := swapped, pa := state.pa + 1, pb := state.pb + 1, swapCnt := true } := by
  have left := bands.left
  have right := bands.right
  constructor
  · exact perm.trans bands.perm
  · rw [← bands.pivotAt, swappedAt, if_neg (by omega), if_neg (by omega)]
  · exact ⟨Nat.le_succ_of_le left.1, Nat.succ_le_succ left.2⟩
  · exact Nat.succ_le_succ onward
  · exact ⟨right.1, by rw [perm.length_eq]; exact right.2⟩
  · intro index other before otherAt
    rw [swappedAt] at otherAt
    rcases Nat.lt_or_eq_of_le (Nat.le_of_lt_succ before) with inside | atEnd
    · rw [if_neg (by omega), if_neg (by omega)] at otherAt
      exact bands.equalLeft index other inside otherAt
    · rw [if_pos atEnd, itemAt, Option.some.injEq] at otherAt
      rw [← otherAt]
      exact equal
  · intro index other from_pa before otherAt
    simp only at from_pa before
    rw [swappedAt, if_neg (show ¬index = state.pa by omega)] at otherAt
    by_cases atEnd : index = state.pb
    · rw [if_pos atEnd] at otherAt
      exact bands.below state.pa other (Nat.le_refl _) (by omega) otherAt
    · rw [if_neg atEnd] at otherAt
      exact bands.below index other (by omega) (by omega) otherAt
  · intro index other after before otherAt
    simp only at after before
    rw [swappedAt, if_neg (by omega), if_neg (by omega)] at otherAt
    exact bands.above index other after before otherAt
  · intro index other after otherAt
    simp only at after
    rw [swappedAt, if_neg (by omega), if_neg (by omega)] at otherAt
    exact bands.equalRight index other after otherAt

theorem QsortPartition.Bands.belowUp
    (onward : state.pb ≤ state.pc) (itemAt : state.items[state.pb]? = some item)
    (below : cmp item pivot < 0) :
    QsortPartition.Bands cmp pivot start { state with pb := state.pb + 1 } := by
  refine ⟨bands.perm, bands.pivotAt, ⟨bands.left.1, Nat.le_succ_of_le bands.left.2⟩,
    Nat.succ_le_succ onward, bands.right, bands.equalLeft, ?_, bands.above, bands.equalRight⟩
  intro index other from_pa before otherAt
  rcases Nat.lt_or_eq_of_le (Nat.le_of_lt_succ before) with inside | atEnd
  · exact bands.below index other from_pa inside otherAt
  · rw [atEnd, itemAt, Option.some.injEq] at otherAt
    rw [← otherAt]
    exact below

theorem QsortPartition.Bands.equalDown
    (onward : state.pb < state.pc) (itemAt : state.items[state.pc]? = some item)
    (equal : cmp item pivot = 0) (perm : swapped.Perm state.items)
    (swappedAt : ∀ index : Nat, swapped[index]? = state.items[
      if index = state.pc then state.pd else if index = state.pd then state.pc else index]?) :
    QsortPartition.Bands cmp pivot start { state with
      items := swapped, pc := state.pc - 1, pd := state.pd - 1, swapCnt := true } := by
  have left := bands.left
  have right := bands.right
  constructor
  · exact perm.trans bands.perm
  · rw [← bands.pivotAt, swappedAt, if_neg (by omega), if_neg (by omega)]
  · exact left
  · simp only
    omega
  · rw [perm.length_eq]
    exact ⟨Nat.sub_le_sub_right right.1 1, Nat.lt_of_le_of_lt (Nat.sub_le _ _) right.2⟩
  · intro index other before otherAt
    simp only at before
    rw [swappedAt, if_neg (by omega), if_neg (by omega)] at otherAt
    exact bands.equalLeft index other before otherAt
  · intro index other from_pa before otherAt
    simp only at from_pa before
    rw [swappedAt, if_neg (by omega), if_neg (by omega)] at otherAt
    exact bands.below index other from_pa before otherAt
  · intro index other after before otherAt
    simp only at after before
    rw [swappedAt, if_neg (show ¬index = state.pd by omega)] at otherAt
    by_cases atEnd : index = state.pc
    · rw [if_pos atEnd] at otherAt
      exact bands.above state.pd other (by omega) (Nat.le_refl _) otherAt
    · rw [if_neg atEnd] at otherAt
      exact bands.above index other (by omega) (by omega) otherAt
  · intro index other after otherAt
    simp only at after
    rw [swappedAt] at otherAt
    by_cases atEnd : index = state.pd
    · have moved : state.items[state.pc]? = some other := by
        by_cases same : index = state.pc
        · rw [if_pos same, ← atEnd, same] at otherAt
          exact otherAt
        · rw [if_neg same, if_pos atEnd] at otherAt
          exact otherAt
      rw [itemAt, Option.some.injEq] at moved
      rw [← moved]
      exact equal
    · rw [if_neg (by omega), if_neg atEnd] at otherAt
      exact bands.equalRight index other (by omega) otherAt

theorem QsortPartition.Bands.aboveDown
    (onward : state.pb ≤ state.pc) (itemAt : state.items[state.pc]? = some item)
    (above : 0 < cmp item pivot) :
    QsortPartition.Bands cmp pivot start { state with pc := state.pc - 1 } := by
  have left := bands.left
  refine ⟨bands.perm, bands.pivotAt, bands.left, ?_,
    ⟨Nat.le_trans (Nat.sub_le _ _) bands.right.1, bands.right.2⟩, bands.equalLeft, bands.below,
    ?_, bands.equalRight⟩
  · simp only
    omega
  · intro index other after before otherAt
    simp only at after
    rcases Nat.lt_or_eq_of_le (show state.pc ≤ index by omega) with inside | atEnd
    · exact bands.above index other inside before otherAt
    · rw [← atEnd, itemAt, Option.some.injEq] at otherAt
      rw [← otherAt]
      exact above

theorem QsortPartition.Bands.exchange (onward : state.pb < state.pc) {high low : Item}
    (highAt : state.items[state.pb]? = some high) (above : 0 < cmp high pivot)
    (lowAt : state.items[state.pc]? = some low) (below : cmp low pivot < 0)
    (perm : swapped.Perm state.items)
    (swappedAt : ∀ index : Nat, swapped[index]? = state.items[
      if index = state.pb then state.pc else if index = state.pc then state.pb else index]?) :
    QsortPartition.Bands cmp pivot start { state with
      items := swapped, pb := state.pb + 1, pc := state.pc - 1, swapCnt := true } := by
  have left := bands.left
  have right := bands.right
  constructor
  · exact perm.trans bands.perm
  · rw [← bands.pivotAt, swappedAt, if_neg (by omega), if_neg (by omega)]
  · exact ⟨left.1, Nat.le_succ_of_le left.2⟩
  · simp only
    omega
  · rw [perm.length_eq]
    exact ⟨Nat.le_trans (Nat.sub_le _ _) right.1, right.2⟩
  · intro index other before otherAt
    simp only at before
    rw [swappedAt, if_neg (by omega), if_neg (by omega)] at otherAt
    exact bands.equalLeft index other before otherAt
  · intro index other from_pa before otherAt
    simp only at from_pa before
    rw [swappedAt] at otherAt
    by_cases atEnd : index = state.pb
    · rw [if_pos atEnd, lowAt, Option.some.injEq] at otherAt
      rw [← otherAt]
      exact below
    · rw [if_neg atEnd, if_neg (by omega)] at otherAt
      exact bands.below index other from_pa (by omega) otherAt
  · intro index other after before otherAt
    simp only at after before
    rw [swappedAt, if_neg (by omega)] at otherAt
    by_cases atEnd : index = state.pc
    · rw [if_pos atEnd, highAt, Option.some.injEq] at otherAt
      rw [← otherAt]
      exact above
    · rw [if_neg atEnd] at otherAt
      exact bands.above index other (by omega) before otherAt
  · intro index other after otherAt
    simp only at after
    rw [swappedAt, if_neg (by omega), if_neg (by omega)] at otherAt
    exact bands.equalRight index other after otherAt

end

theorem QsortPartition.Bands.scanUp : ∀ {fuel : Nat} {state : QsortPartition Item},
    state.Bands cmp pivot start → state.pc + 1 - state.pb < fuel →
    ∃ next, qsortScanUp cmp fuel state = some next ∧ next.Bands cmp pivot start ∧
      next.pc + 1 - next.pb ≤ state.pc + 1 - state.pb ∧
      ∀ item, next.pb ≤ next.pc → next.items[next.pb]? = some item → 0 < cmp item pivot := by
  intro fuel
  induction fuel with
  | zero =>
    intro state _ enough
    omega
  | succ fuel ih =>
    intro state bands enough
    have left := bands.left
    have right := bands.right
    rw [qsortScanUp]
    by_cases onward : state.pb ≤ state.pc
    · rw [if_pos onward]
      obtain ⟨item, found, itemAt, pivotAt, compared⟩ :=
        @qsortCompare_some _ cmp state.items state.pb 0 (by omega) (by omega)
      rw [bands.pivotAt, Option.some.injEq] at pivotAt
      subst pivotAt
      simp only [compared, Option.bind_eq_bind, Option.bind_some]
      have less := Nat.sub_le_sub_left (Nat.le_succ state.pb) (state.pc + 1)
      by_cases low : cmp item pivot ≤ 0
      · rw [if_pos low]
        by_cases equal : cmp item pivot = 0
        · rw [if_pos equal]
          obtain ⟨swapped, didSwap, perm, swappedAt⟩ :=
            @swapAt_some _ state.items state.pa state.pb (by omega) (by omega)
          obtain ⟨next, done, nextBands, shorter, stopped⟩ :=
            ih (bands.equalUp onward itemAt equal perm swappedAt)
              (show state.pc + 1 - (state.pb + 1) < fuel by omega)
          simp only [didSwap, Option.bind_some]
          exact ⟨next, done, nextBands, Nat.le_trans shorter less, stopped⟩
        · rw [if_neg equal]
          obtain ⟨next, done, nextBands, shorter, stopped⟩ :=
            ih (bands.belowUp onward itemAt (by omega))
              (show state.pc + 1 - (state.pb + 1) < fuel by omega)
          exact ⟨next, done, nextBands, Nat.le_trans shorter less, stopped⟩
      · rw [if_neg low]
        refine ⟨state, rfl, bands, Nat.le_refl _, ?_⟩
        intro other _ otherAt
        rw [itemAt, Option.some.injEq] at otherAt
        rw [← otherAt]
        exact Int.not_le.mp low
    · rw [if_neg onward]
      exact ⟨state, rfl, bands, Nat.le_refl _, fun _ inside => absurd inside onward⟩

theorem QsortPartition.Bands.scanDown : ∀ {fuel : Nat} {state : QsortPartition Item},
    state.Bands cmp pivot start → state.pc + 1 - state.pb < fuel →
    (∀ item, state.pb ≤ state.pc → state.items[state.pb]? = some item → 0 < cmp item pivot) →
    ∃ next, qsortScanDown cmp fuel state = some next ∧ next.Bands cmp pivot start ∧
      next.pc + 1 - next.pb ≤ state.pc + 1 - state.pb ∧
      (∀ item, next.pb ≤ next.pc → next.items[next.pb]? = some item → 0 < cmp item pivot) ∧
      ∀ item, next.pb ≤ next.pc → next.items[next.pc]? = some item → cmp item pivot < 0 := by
  intro fuel
  induction fuel with
  | zero =>
    intro state _ enough
    omega
  | succ fuel ih =>
    intro state bands enough stopped
    have left := bands.left
    have right := bands.right
    rw [qsortScanDown]
    by_cases onward : state.pb ≤ state.pc
    · rw [if_pos onward]
      obtain ⟨item, found, itemAt, pivotAt, compared⟩ :=
        @qsortCompare_some _ cmp state.items state.pc 0 (by omega) (by omega)
      rw [bands.pivotAt, Option.some.injEq] at pivotAt
      subst pivotAt
      simp only [compared, Option.bind_eq_bind, Option.bind_some]
      have less : state.pc - 1 + 1 - state.pb ≤ state.pc + 1 - state.pb := by omega
      by_cases high : cmp item pivot ≥ 0
      · rw [if_pos high]
        by_cases equal : cmp item pivot = 0
        · have apart : state.pb < state.pc := by
            rcases Nat.lt_or_eq_of_le onward with before | atEnd
            · exact before
            · have above := stopped item onward (by rw [atEnd]; exact itemAt)
              omega
          rw [if_pos equal]
          obtain ⟨swapped, didSwap, perm, swappedAt⟩ :=
            @swapAt_some _ state.items state.pc state.pd (by omega) (by omega)
          obtain ⟨next, done, nextBands, shorter, nextStopped⟩ :=
            ih (bands.equalDown apart itemAt equal perm swappedAt)
              (show state.pc - 1 + 1 - state.pb < fuel by omega) (by
                intro other _ otherAt
                simp only at otherAt
                rw [swappedAt, if_neg (by omega), if_neg (by omega)] at otherAt
                exact stopped other onward otherAt)
          simp only [didSwap, Option.bind_some]
          exact ⟨next, done, nextBands, Nat.le_trans shorter less, nextStopped⟩
        · rw [if_neg equal]
          obtain ⟨next, done, nextBands, shorter, nextStopped⟩ :=
            ih (bands.aboveDown onward itemAt (by omega))
              (show state.pc - 1 + 1 - state.pb < fuel by omega)
              (fun other _ otherAt => stopped other onward otherAt)
          exact ⟨next, done, nextBands, Nat.le_trans shorter less, nextStopped⟩
      · rw [if_neg high]
        refine ⟨state, rfl, bands, Nat.le_refl _, stopped, ?_⟩
        intro other _ otherAt
        rw [itemAt, Option.some.injEq] at otherAt
        rw [← otherAt]
        exact Int.not_le.mp high
    · rw [if_neg onward]
      exact ⟨state, rfl, bands, Nat.le_refl _, stopped,
        fun _ inside => absurd inside onward⟩

theorem QsortPartition.Bands.partition : ∀ {fuel : Nat} {state : QsortPartition Item},
    state.Bands cmp pivot start → state.pc + 1 - state.pb < fuel →
    ∃ next, qsortPartition cmp fuel state = some next ∧ next.Bands cmp pivot start ∧
      next.pb = next.pc + 1 := by
  intro fuel
  induction fuel with
  | zero =>
    intro state _ enough
    omega
  | succ fuel ih =>
    intro state bands enough
    have stateRight := bands.right
    obtain ⟨up, didUp, upBands, upShorter, upStopped⟩ :=
      @QsortPartition.Bands.scanUp _ cmp pivot start (state.items.length + 1) state bands
        (by have := bands.left; omega)
    have upLeft := upBands.left
    have upRight := upBands.right
    obtain ⟨down, didDown, downBands, downShorter, highAtPb, lowAtPc⟩ :=
      @QsortPartition.Bands.scanDown _ cmp pivot start (up.items.length + 1) up upBands
        (by omega) upStopped
    have left := downBands.left
    have right := downBands.right
    have middle := downBands.middle
    simp only [qsortPartition, didUp, didDown, Option.bind_eq_bind, Option.bind_some]
    by_cases finished : down.pb > down.pc
    · rw [if_pos finished]
      exact ⟨down, rfl, downBands, by omega⟩
    · rw [if_neg finished]
      have onward : down.pb ≤ down.pc := Nat.le_of_not_gt finished
      obtain ⟨high, pbAt⟩ : ∃ high, down.items[down.pb]? = some high :=
        ⟨_, List.getElem?_eq_getElem (by omega)⟩
      obtain ⟨low, pcAt⟩ : ∃ low, down.items[down.pc]? = some low :=
        ⟨_, List.getElem?_eq_getElem (by omega)⟩
      have above := highAtPb high onward pbAt
      have below := lowAtPc low onward pcAt
      have apart : down.pb < down.pc := by
        rcases Nat.lt_or_eq_of_le onward with before | same
        · exact before
        · rw [same, pcAt, Option.some.injEq] at pbAt
          rw [pbAt] at below
          omega
      obtain ⟨swapped, didSwap, perm, swappedAt⟩ :=
        @swapAt_some _ down.items down.pb down.pc (by omega) (by omega)
      obtain ⟨next, done, nextBands, closed⟩ :=
        ih (downBands.exchange apart pbAt above pcAt below perm swappedAt)
          (show down.pc - 1 + 1 - (down.pb + 1) < fuel by omega)
      simp only [didSwap, Option.bind_some]
      exact ⟨next, done, nextBands, closed⟩

theorem QsortPartition.Bands.gather (bands : state.Bands cmp pivot start)
    (closed : state.pb = state.pc + 1) :
    ∃ gathered, qsortGather state = some gathered ∧ gathered.Perm state.items ∧
      ∀ index item, gathered[index]? = some item →
        (index < state.pb - state.pa → cmp item pivot < 0) ∧
        (state.pb - state.pa ≤ index →
          index < state.items.length - (state.pd - state.pc) → cmp item pivot = 0) ∧
        (state.items.length - (state.pd - state.pc) ≤ index → 0 < cmp item pivot) := by
  have left := bands.left
  have right := bands.right
  obtain ⟨toLeft, didLeft, leftPerm, leftRest, leftBelow, leftEqual⟩ :=
    @swapBlocks_bands _ (fun item => cmp item pivot = 0) (fun item => cmp item pivot < 0)
      state.items 0 state.pa state.pb (Nat.zero_le _) left.2 (by omega)
      (fun index item _ before => bands.equalLeft index item before)
      (fun index item from_pa before => bands.below index item from_pa before)
  have length := leftPerm.length_eq
  obtain ⟨gathered, didRight, rightPerm, rightRest, rightEqual, rightAbove⟩ :=
    @swapBlocks_bands _ (fun item => 0 < cmp item pivot) (fun item => cmp item pivot = 0)
      toLeft state.pb (state.pd + 1) state.items.length (by omega) (by omega) (by omega)
      (by
        intro index item after before itemAt
        rw [leftRest index (.inr after)] at itemAt
        exact bands.above index item (by omega) (by omega) itemAt)
      (by
        intro index item after _ itemAt
        rw [leftRest index (.inr (by omega))] at itemAt
        exact bands.equalRight index item (by omega) itemAt)
  have width : state.pd + 1 - state.pb = state.pd - state.pc := by omega
  refine ⟨gathered, ?_, rightPerm.trans leftPerm, ?_⟩
  · rw [Nat.sub_zero] at didLeft
    rw [width] at didRight
    simp only [qsortGather, didLeft, didRight, Option.bind_eq_bind, Option.bind_some]
  · intro index item itemAt
    have inside := (List.getElem?_eq_some_iff.mp itemAt).1
    rw [rightPerm.length_eq, length] at inside
    by_cases before : index < state.pb
    · rw [rightRest index (.inl before)] at itemAt
      refine ⟨fun low => leftBelow index item (Nat.zero_le _) (by omega) itemAt,
        fun from_left _ => leftEqual index item (by omega) before itemAt, fun high => ?_⟩
      omega
    · refine ⟨fun low => ?_, fun _ to_right => rightEqual index item (by omega) (by omega) itemAt,
        fun high => rightAbove index item (by omega) inside itemAt⟩
      omega

theorem qsortPart_sorts {sort : List Item → Option (List Item)} {items : List Item}
    (sorts : ∃ sorted, sort items = some sorted ∧ sorted.Perm items ∧
      sorted.Pairwise fun one other => cmp one other ≤ 0) :
    ∃ sorted, qsortPart sort items = some sorted ∧ sorted.Perm items ∧
      sorted.Pairwise fun one other => cmp one other ≤ 0 := by
  rw [qsortPart]
  by_cases several : items.length > 1
  · rw [if_pos several]
    exact sorts
  · rw [if_neg several]
    exact ⟨items, rfl, List.Perm.refl items, pairwise_of_few (by omega)⟩

theorem QsortPartition.Bands.parts (order : TotalCompare cmp)
    {sort : List Item → Option (List Item)} (bands : state.Bands cmp pivot start)
    (closed : state.pb = state.pc + 1)
    (sorts : ∀ part : List Item, part.length < state.items.length →
      ∃ sorted, sort part = some sorted ∧ sorted.Perm part ∧
        sorted.Pairwise fun one other => cmp one other ≤ 0) :
    ∃ sorted, qsortParts sort state = some sorted ∧ sorted.Perm start ∧
      sorted.Pairwise fun one other => cmp one other ≤ 0 := by
  have left := bands.left
  have right := bands.right
  obtain ⟨gathered, didGather, perm, banded⟩ := bands.gather closed
  have length := perm.length_eq
  obtain ⟨low, didLow, lowPerm, lowSorted⟩ := @qsortPart_sorts _ cmp sort
    (gathered.take (state.pb - state.pa)) (sorts _ (by rw [List.length_take]; omega))
  obtain ⟨high, didHigh, highPerm, highSorted⟩ := @qsortPart_sorts _ cmp sort
    (gathered.drop (gathered.length - (state.pd - state.pc)))
    (sorts _ (by rw [List.length_drop]; omega))
  have cut : gathered.take (state.pb - state.pa) ++ (gathered.drop (state.pb - state.pa)).take
      (gathered.length - (state.pd - state.pc) - (state.pb - state.pa)) ++
      gathered.drop (gathered.length - (state.pd - state.pc)) = gathered := by
    have rest : (gathered.drop (state.pb - state.pa)).drop
        (gathered.length - (state.pd - state.pc) - (state.pb - state.pa)) =
        gathered.drop (gathered.length - (state.pd - state.pc)) := by
      rw [List.drop_drop]
      congr 1
      omega
    rw [List.append_assoc, ← rest, List.take_append_drop, List.take_append_drop]
  refine ⟨low ++ (gathered.drop (state.pb - state.pa)).take
    (gathered.length - (state.pd - state.pc) - (state.pb - state.pa)) ++ high, ?_, ?_, ?_⟩
  · simp only [qsortParts, didGather, didLow, didHigh, Option.bind_eq_bind, Option.bind_some]
  · refine List.Perm.trans ((lowPerm.append_right _).append highPerm) ?_
    rw [cut]
    exact perm.trans bands.perm
  · apply @pairwise_bands _ cmp order pivot low _ high lowSorted highSorted
    · intro item member
      obtain ⟨index, itemAt⟩ := List.mem_iff_getElem?.mp (lowPerm.mem_iff.mp member)
      rw [List.getElem?_take] at itemAt
      split_ifs at itemAt with inside
      exact (banded index item itemAt).1 inside
    · intro item member
      obtain ⟨index, itemAt⟩ := List.mem_iff_getElem?.mp member
      rw [List.getElem?_take] at itemAt
      split_ifs at itemAt with inside
      rw [List.getElem?_drop] at itemAt
      exact (banded _ item itemAt).2.1 (Nat.le_add_right _ _) (by omega)
    · intro item member
      obtain ⟨index, itemAt⟩ := List.mem_iff_getElem?.mp (highPerm.mem_iff.mp member)
      rw [List.getElem?_drop] at itemAt
      exact (banded _ item itemAt).2.2 (by omega)

theorem QsortPartition.Bands.init (perm : items.Perm start)
    (large : 2 ≤ items.length) (pivotAt : items[0]? = some pivot) (order : TotalCompare cmp) :
    QsortPartition.Bands cmp pivot start { items := items, pa := 1, pb := 1
                                           pc := items.length - 1, pd := items.length - 1
                                           swapCnt := false } := by
  constructor
  · exact perm
  · exact pivotAt
  · exact ⟨Nat.le_refl 1, Nat.le_refl 1⟩
  · simp only
    omega
  · exact ⟨Nat.le_refl _, by simp only; omega⟩
  · intro index item before itemAt
    rw [Nat.lt_one_iff.mp before, pivotAt, Option.some.injEq] at itemAt
    rw [← itemAt]
    exact order.refl pivot
  · intro index item after before
    simp only at after before
    omega
  · intro index item after before
    simp only at after before
    omega
  · intro index item after itemAt
    have inside := (List.getElem?_eq_some_iff.mp itemAt).1
    simp only at after inside
    omega

theorem qsortInline_sorts (order : TotalCompare cmp) : ∀ {fuel : Nat} {items : List Item},
    items.length ≤ fuel →
    ∃ sorted, qsortInline cmp fuel items = some sorted ∧ sorted.Perm items ∧
      sorted.Pairwise fun one other => cmp one other ≤ 0 := by
  intro fuel
  induction fuel with
  | zero =>
    intro items enough
    have small : items.length < 2 := by omega
    rw [qsortInline, if_pos small]
    exact ⟨items, rfl, List.Perm.refl items, pairwise_of_few small⟩
  | succ fuel ih =>
    intro items enough
    rw [qsortInline]
    by_cases small : items.length < 2
    · rw [if_pos small]
      exact ⟨items, rfl, List.Perm.refl items, pairwise_of_few small⟩
    · rw [if_neg small]
      by_cases few : items.length < 7
      · rw [if_pos few]
        exact qsortInsertion_sorts order (by omega)
      · obtain ⟨pm, chosen, pmBound⟩ := @qsortPivot_some _ cmp items (by omega)
        obtain ⟨fronted, didFront, frontPerm, _⟩ :=
          @swapAt_some _ items 0 pm (by omega) pmBound
        have length := frontPerm.length_eq
        obtain ⟨pivot, pivotAt⟩ : ∃ pivot, fronted[0]? = some pivot :=
          ⟨_, List.getElem?_eq_getElem (by omega)⟩
        obtain ⟨state, didPart, bands, closed⟩ := @QsortPartition.Bands.partition _ cmp pivot items
          fronted.length _ (QsortPartition.Bands.init frontPerm (by omega) pivotAt order)
          (show fronted.length - 1 + 1 - 1 < fronted.length by omega)
        have partLength := bands.perm.length_eq
        rw [if_neg few]
        simp only [chosen, didFront, didPart, Option.bind_eq_bind, Option.bind_some]
        by_cases swapped : state.swapCnt = true
        · rw [if_pos swapped]
          refine bands.parts order closed ?_
          intro part shorter
          exact ih (by omega)
        · rw [if_neg swapped]
          obtain ⟨next, done, perm, sorted⟩ :=
            @qsortInsertion_sorts _ cmp order state.items (by omega)
          exact ⟨next, done, perm.trans bands.perm, sorted⟩

theorem mulleQsort_sorts (order : TotalCompare cmp) (items : List Item) :
    ∃ sorted, mulleQsort cmp items = some sorted ∧ sorted.Perm items ∧
      sorted.Pairwise fun one other => cmp one other ≤ 0 :=
  qsortInline_sorts order (Nat.le_refl _)

end Qsort

end MulleCore
