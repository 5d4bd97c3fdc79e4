import MulleCore.Data.QsortBytes

/-!
`mulle_qsort_r` in memory follows the sort of the list of items, function by function.
-/

namespace MulleCore

open Library

section Bytes

variable {es : Nat} {front back : List UInt8} {cmp : QsortItem es → QsortItem es → Int}
variable {items next : List (QsortItem es)} {Item : Type}

theorem qsortInsert_memory (sized : 1 ≤ es) : ∀ {fuel pl : Nat} {items next : List (QsortItem es)},
    pl < fuel → qsortSink cmp pl items = some next →
    qsortInsert cmp front.length fuel (qsortMemory front items back) (qsortPlace front es pl) =
      some (qsortMemory front next back) := by
  intro fuel
  induction fuel with
  | zero =>
    intro pl items next enough
    contradiction
  | succ fuel ih =>
    intro pl items next enough sunk
    rw [qsortInsert]
    cases pl with
    | zero =>
      obtain rfl := Option.some.inj sunk
      rw [qsortPlace_zero, if_neg (Nat.lt_irrefl _)]
    | succ pl =>
      have above : qsortPlace front es (pl + 1) > front.length := by
        rw [← @qsortPlace_zero es front]
        exact (qsortPlace_lt sized).mpr (Nat.succ_pos pl)
      obtain ⟨result, compared, sunk⟩ := Option.bind_eq_some_iff.mp sunk
      rw [if_pos above, qsortPlace_pred (Nat.le_add_left 1 pl), Nat.add_sub_cancel]
      simp only [qsortCmp_memory compared, Option.bind_eq_bind, Option.bind_some]
      by_cases wrong : result > 0
      · rw [if_pos wrong] at sunk ⊢
        obtain ⟨swapped, didSwap, sunk⟩ := Option.bind_eq_some_iff.mp sunk
        simp only [qsortSwapfunc_memory didSwap, Option.bind_some]
        exact ih (Nat.lt_of_succ_lt_succ enough) sunk
      · rw [if_neg wrong, Option.some.injEq] at sunk ⊢
        rw [sunk]

theorem qsortInsertAll_memory (sized : 1 ≤ es) {n : Nat} : ∀ {fuel remaining pm : Nat}
    {items next : List (QsortItem es)}, remaining < fuel → pm + remaining = n →
    qsortInsertionFrom cmp remaining pm items = some next →
    qsortInsertAll cmp front.length n fuel (qsortMemory front items back) (qsortPlace front es pm) =
      some (qsortMemory front next back) := by
  intro fuel
  induction fuel with
  | zero =>
    intro remaining pm items next enough
    contradiction
  | succ fuel ih =>
    intro remaining pm items next enough whole inserted
    have inside : qsortPlace front es pm < front.length + n * es ↔ pm < n :=
      @qsortPlace_lt es front sized pm n
    rw [qsortInsertAll]
    simp only [inside]
    cases remaining with
    | zero =>
      obtain rfl := Option.some.inj inserted
      rw [if_neg (by omega)]
    | succ remaining =>
      obtain ⟨sunk, didSink, inserted⟩ := Option.bind_eq_some_iff.mp inserted
      rw [if_pos (by omega), qsortPlace_succ]
      simp only [qsortInsert_memory sized (show pm < n + 1 by omega) didSink,
        Option.bind_eq_bind, Option.bind_some]
      exact ih (by omega) (by omega) inserted

theorem qsortInsertion_memory (sized : 1 ≤ es)
    (nonempty : 1 ≤ items.length) (inserted : qsortInsertion cmp items = some next) :
    qsortInsertAll cmp front.length items.length (items.length + 1) (qsortMemory front items back)
      (front.length + es) = some (qsortMemory front next back) := by
  have first : front.length + es = qsortPlace front es 1 := by simp [qsortPlace]
  rw [first]
  exact qsortInsertAll_memory sized (by omega) (by omega) inserted

theorem qsortChoosePivot_memory {pm : Nat} (chosen : qsortPivot cmp items = some pm) :
    qsortChoosePivot cmp (qsortMemory front items back) front.length items.length =
      some (qsortPlace front es pm) := by
  have place : ∀ index, front.length + index * es = qsortPlace front es index := fun _ => rfl
  have start : front.length = qsortPlace front es 0 := qsortPlace_zero.symm
  have twice : 2 * (items.length / 8 * es) = 2 * (items.length / 8) * es := (Nat.mul_assoc _ _ _).symm
  rw [qsortPivot] at chosen
  simp only [qsortChoosePivot, place, twice]
  by_cases large : items.length > 40
  · rw [if_pos large] at chosen ⊢
    obtain ⟨pl, low, chosen⟩ := Option.bind_eq_some_iff.mp chosen
    obtain ⟨middle, inMiddle, chosen⟩ := Option.bind_eq_some_iff.mp chosen
    obtain ⟨pn, high, chosen⟩ := Option.bind_eq_some_iff.mp chosen
    rw [qsortPlace_sub (by omega), qsortPlace_add, qsortPlace_sub (by omega),
      qsortPlace_sub (by omega), start]
    simp only [qsortCmpMed3_memory low, qsortCmpMed3_memory inMiddle, qsortCmpMed3_memory high,
      Option.bind_eq_bind, Option.bind_some]
    exact qsortCmpMed3_memory chosen
  · rw [if_neg large] at chosen ⊢
    by_cases medium : items.length > 7
    · rw [if_pos medium] at chosen ⊢
      rw [start]
      exact qsortCmpMed3_memory chosen
    · rw [if_neg medium, Option.some.injEq] at chosen ⊢
      rw [chosen]

def QsortPartition.cursors (front back : List UInt8) (state : QsortPartition (QsortItem es)) :
    QsortCursors where
  bytes := qsortMemory front state.items back
  pa := qsortPlace front es state.pa
  pb := qsortPlace front es state.pb
  pc := qsortPlace front es state.pc
  pd := qsortPlace front es state.pd
  swapCnt := state.swapCnt

/-- What keeps the cursors that move down from passing the first item. -/
structure QsortPartition.Fits (n : Nat) (state : QsortPartition (QsortItem es)) : Prop where
  length : state.items.length = n
  low : 1 ≤ state.pb
  high : state.pc ≤ state.pd

theorem swapAt_length {items next : List Item} {first second : Nat}
    (swapped : swapAt items first second = some next) : next.length = items.length := by
  obtain ⟨one, _, swapped⟩ := Option.bind_eq_some_iff.mp swapped
  obtain ⟨other, _, swapped⟩ := Option.bind_eq_some_iff.mp swapped
  obtain rfl := Option.some.inj swapped
  simp

theorem qsortMoveUp_memory (sized : 1 ≤ es) {n : Nat} : ∀ {fuel : Nat}
    {state next : QsortPartition (QsortItem es)}, state.Fits n →
    qsortScanUp cmp fuel state = some next →
    next.Fits n ∧
      qsortMoveUp cmp front.length fuel (state.cursors front back) =
        some (next.cursors front back) := by
  intro fuel
  induction fuel with
  | zero =>
    intro state next _ scanned
    contradiction
  | succ fuel ih =>
    intro state next fits scanned
    have start : front.length = qsortPlace front es 0 := qsortPlace_zero.symm
    rw [qsortScanUp] at scanned
    simp only [qsortMoveUp, QsortPartition.cursors, qsortPlace_le sized]
    by_cases onward : state.pb ≤ state.pc
    · rw [if_pos onward] at scanned ⊢
      obtain ⟨result, compared, scanned⟩ := Option.bind_eq_some_iff.mp scanned
      have read := @qsortCmp_memory es front back state.items cmp state.pb 0 result compared
      rw [← start] at read
      simp only [read, Option.bind_eq_bind, Option.bind_some]
      by_cases low : result ≤ 0
      · rw [if_pos low] at scanned ⊢
        by_cases equal : result = 0
        · rw [if_pos equal] at scanned ⊢
          obtain ⟨swapped, didSwap, scanned⟩ := Option.bind_eq_some_iff.mp scanned
          simp only [qsortSwapfunc_memory didSwap, Option.bind_some, qsortPlace_succ]
          refine ih ?_ scanned
          exact ⟨(swapAt_length didSwap).trans fits.length, Nat.succ_pos _, fits.high⟩
        · rw [if_neg equal] at scanned ⊢
          rw [qsortPlace_succ]
          refine ih ?_ scanned
          exact ⟨fits.length, Nat.succ_pos _, fits.high⟩
      · rw [if_neg low] at scanned ⊢
        obtain rfl := Option.some.inj scanned
        exact ⟨fits, rfl⟩
    · rw [if_neg onward] at scanned ⊢
      obtain rfl := Option.some.inj scanned
      exact ⟨fits, rfl⟩

theorem qsortMoveDown_memory (sized : 1 ≤ es) {n : Nat} : ∀ {fuel : Nat}
    {state next : QsortPartition (QsortItem es)}, state.Fits n →
    qsortScanDown cmp fuel state = some next →
    next.Fits n ∧
      qsortMoveDown cmp front.length fuel (state.cursors front back) =
        some (next.cursors front back) := by
  intro fuel
  induction fuel with
  | zero =>
    intro state next _ scanned
    contradiction
  | succ fuel ih =>
    intro state next fits scanned
    have start : front.length = qsortPlace front es 0 := qsortPlace_zero.symm
    rw [qsortScanDown] at scanned
    simp only [qsortMoveDown, QsortPartition.cursors, qsortPlace_le sized]
    by_cases onward : state.pb ≤ state.pc
    · have positive := Nat.le_trans fits.low onward
      rw [if_pos onward] at scanned ⊢
      obtain ⟨result, compared, scanned⟩ := Option.bind_eq_some_iff.mp scanned
      have read := @qsortCmp_memory es front back state.items cmp state.pc 0 result compared
      rw [← start] at read
      simp only [read, Option.bind_eq_bind, Option.bind_some]
      by_cases high : result ≥ 0
      · rw [if_pos high] at scanned ⊢
        by_cases equal : result = 0
        · rw [if_pos equal] at scanned ⊢
          obtain ⟨swapped, didSwap, scanned⟩ := Option.bind_eq_some_iff.mp scanned
          simp only [qsortSwapfunc_memory didSwap, Option.bind_some, qsortPlace_pred positive,
            qsortPlace_pred (Nat.le_trans positive fits.high)]
          refine ih ?_ scanned
          exact ⟨(swapAt_length didSwap).trans fits.length, fits.low,
            Nat.sub_le_sub_right fits.high 1⟩
        · rw [if_neg equal] at scanned ⊢
          rw [qsortPlace_pred positive]
          refine ih ?_ scanned
          exact ⟨fits.length, fits.low, Nat.le_trans (Nat.sub_le _ _) fits.high⟩
      · rw [if_neg high] at scanned ⊢
        obtain rfl := Option.some.inj scanned
        exact ⟨fits, rfl⟩
    · rw [if_neg onward] at scanned ⊢
      obtain rfl := Option.some.inj scanned
      exact ⟨fits, rfl⟩

theorem qsortDivide_memory (sized : 1 ≤ es) {n : Nat} : ∀ {fuel : Nat}
    {state next : QsortPartition (QsortItem es)}, state.Fits n →
    qsortPartition cmp fuel state = some next →
    qsortDivide cmp front.length n fuel (state.cursors front back) =
      some (next.cursors front back) := by
  intro fuel
  induction fuel with
  | zero =>
    intro state next _ parted
    contradiction
  | succ fuel ih =>
    intro state next fits parted
    obtain ⟨up, didUp, parted⟩ := Option.bind_eq_some_iff.mp parted
    obtain ⟨down, didDown, parted⟩ := Option.bind_eq_some_iff.mp parted
    rw [fits.length] at didUp
    obtain ⟨upFits, movedUp⟩ := @qsortMoveUp_memory es front back cmp sized n _ _ _ fits didUp
    rw [upFits.length] at didDown
    obtain ⟨downFits, movedDown⟩ :=
      @qsortMoveDown_memory es front back cmp sized n _ _ _ upFits didDown
    simp only [qsortDivide, movedUp, movedDown, Option.bind_eq_bind, Option.bind_some]
    have meets : (down.cursors front back).pb > (down.cursors front back).pc ↔ down.pb > down.pc :=
      qsortPlace_lt sized
    simp only [meets]
    by_cases finished : down.pb > down.pc
    · rw [if_pos finished, Option.some.injEq] at parted ⊢
      rw [parted]
    · rw [if_neg finished] at parted ⊢
      obtain ⟨swapped, didSwap, parted⟩ := Option.bind_eq_some_iff.mp parted
      have low := downFits.low
      simp only [QsortPartition.cursors, qsortSwapfunc_memory didSwap, Option.bind_some,
        qsortPlace_succ, qsortPlace_pred (show 1 ≤ down.pc by omega)]
      refine ih ?_ parted
      exact ⟨(swapAt_length didSwap).trans downFits.length, Nat.succ_pos _,
        Nat.le_trans (Nat.sub_le _ _) downFits.high⟩

theorem swapBlocks_length : ∀ {count : Nat} {items next : List Item}
    {first second : Nat}, swapBlocks count items first second = some next →
    next.length = items.length := by
  intro count
  induction count with
  | zero =>
    intro items next first second swapped
    obtain rfl := Option.some.inj swapped
    rfl
  | succ count ih =>
    intro items next first second swapped
    obtain ⟨middle, didSwap, swapped⟩ := Option.bind_eq_some_iff.mp swapped
    exact (ih swapped).trans (swapAt_length didSwap)

theorem qsortCollect_memory {state : QsortPartition (QsortItem es)} {next : List (QsortItem es)}
    (gathered : qsortGather state = some next) :
    next.length = state.items.length ∧
      qsortCollect es front.length state.items.length (state.cursors front back) =
        some (qsortMemory front next back) := by
  obtain ⟨toLeft, didLeft, didRight⟩ := Option.bind_eq_some_iff.mp gathered
  refine ⟨(swapBlocks_length didRight).trans (swapBlocks_length didLeft), ?_⟩
  have start : qsortPlace front es state.pa - front.length = state.pa * es := by
    simpa using @qsortPlace_diff es front state.pa 0
  have place : front.length + state.items.length * es = qsortPlace front es state.items.length := rfl
  have exchangeLeft := @qsortVecswap_memory es front back _ _ _ _ _ didLeft
  have exchangeRight := @qsortVecswap_memory es front back _ _ _ _ _ didRight
  rw [qsortPlace_zero] at exchangeLeft
  simp only [qsortCollect, QsortPartition.cursors, start, place, qsortPlace_succ, qsortPlace_diff,
    Nat.mul_min_mul_right]
  rw [qsortPlace_sub (by omega), qsortPlace_sub (by omega)]
  simp only [exchangeLeft, Option.bind_eq_bind, Option.bind_some]
  exact exchangeRight

def QsortFollows (sort : List (QsortItem es) → Option (List (QsortItem es)))
    (byteSort : List UInt8 → Nat → Nat → Option (List UInt8)) (part : List (QsortItem es)) : Prop :=
  ∀ sorted, sort part = some sorted → sorted.length = part.length ∧ ∀ front back,
    byteSort (qsortMemory front part back) front.length part.length =
      some (qsortMemory front sorted back)

variable {sort : List (QsortItem es) → Option (List (QsortItem es))}
  {byteSort : List UInt8 → Nat → Nat → Option (List UInt8)}

theorem qsortIfLonger_memory (sized : 1 ≤ es) {part sorted : List (QsortItem es)}
    (follows : QsortFollows sort byteSort part) (done : qsortPart sort part = some sorted) :
    sorted.length = part.length ∧ ∀ front back,
      qsortIfLonger es byteSort (qsortMemory front part back) front.length (part.length * es) =
        some (qsortMemory front sorted back) := by
  have longer : part.length * es > es ↔ part.length > 1 := Nat.lt_mul_iff_one_lt_left sized
  rw [qsortPart] at done
  simp only [qsortIfLonger, longer, Nat.mul_div_cancel _ sized]
  by_cases several : part.length > 1
  · simp only [if_pos several] at done ⊢
    exact follows sorted done
  · simp only [if_neg several] at done ⊢
    obtain rfl := Option.some.inj done
    exact ⟨rfl, fun _ _ => rfl⟩

theorem qsortPartitions_memory (sized : 1 ≤ es) {state : QsortPartition (QsortItem es)}
    (within : state.pb - state.pa + (state.pd - state.pc) < state.items.length)
    (follows : ∀ part : List (QsortItem es), part.length < state.items.length →
      QsortFollows sort byteSort part)
    (done : qsortParts sort state = some next) :
    qsortPartitions es front.length state.items.length byteSort (state.cursors front back) =
      some (qsortMemory front next back) := by
  obtain ⟨gathered, didGather, done⟩ := Option.bind_eq_some_iff.mp done
  obtain ⟨low, didLow, done⟩ := Option.bind_eq_some_iff.mp done
  obtain ⟨high, didHigh, done⟩ := Option.bind_eq_some_iff.mp done
  obtain ⟨length, collected⟩ := @qsortCollect_memory es front back _ _ didGather
  obtain ⟨d1, leftCount⟩ : ∃ d1, state.pb - state.pa = d1 := ⟨_, rfl⟩
  obtain ⟨d2, rightCount⟩ : ∃ d2, state.pd - state.pc = d2 := ⟨_, rfl⟩
  rw [leftCount] at didLow done within
  rw [rightCount] at didHigh done within
  obtain ⟨left, isLeft⟩ : ∃ left, gathered.take d1 = left := ⟨_, rfl⟩
  obtain ⟨middle, isMiddle⟩ : ∃ middle,
      (gathered.drop d1).take (gathered.length - d2 - d1) = middle := ⟨_, rfl⟩
  obtain ⟨right, isRight⟩ : ∃ right, gathered.drop (gathered.length - d2) = right := ⟨_, rfl⟩
  have leftLength : left.length = d1 := by
    rw [← isLeft, List.length_take]
    omega
  have middleLength : middle.length = state.items.length - d2 - d1 := by
    rw [← isMiddle, List.length_take, List.length_drop]
    omega
  have rightLength : right.length = d2 := by
    rw [← isRight, List.length_drop]
    omega
  have cut : gathered = left ++ middle ++ right := by
    have rest : (gathered.drop d1).drop (gathered.length - d2 - d1) = right := by
      rw [← isRight, List.drop_drop]
      congr 1
      omega
    rw [List.append_assoc, ← rest, ← isMiddle, List.take_append_drop, ← isLeft,
      List.take_append_drop]
  rw [isLeft] at didLow
  rw [isRight] at didHigh
  rw [isMiddle] at done
  obtain rfl := Option.some.inj done
  obtain ⟨lowLength, sortLow⟩ := qsortIfLonger_memory sized (follows left (by omega)) didLow
  obtain ⟨highLength, sortHigh⟩ := qsortIfLonger_memory sized (follows right (by omega)) didHigh
  rw [leftLength] at sortLow
  rw [rightLength] at sortHigh
  have sortLeft : ∀ others, qsortIfLonger es byteSort
    (qsortMemory front (left ++ middle ++ others) back)
      front.length (d1 * es) = some (qsortMemory front (low ++ middle ++ others) back) := by
    intro others
    rw [List.append_assoc, List.append_assoc, qsortMemory_append_back, qsortMemory_append_back]
    exact sortLow front _
  have sortRight : ∀ others : List (QsortItem es), others.length = d1 →
      qsortIfLonger es byteSort (qsortMemory front (others ++ middle ++ right) back)
        (qsortPlace front es (state.items.length - d2)) (d2 * es) =
          some (qsortMemory front (others ++ middle ++ high) back) := by
    intro others othersLength
    have begins : qsortPlace front es (state.items.length - d2) =
        (front ++ (others ++ middle).flatMap Subtype.val).length := by
      rw [qsortPlace_length, List.length_append]
      congr 1
      omega
    rw [begins, qsortMemory_append, qsortMemory_append]
    exact sortHigh _ back
  have place : front.length + state.items.length * es = qsortPlace front es state.items.length := rfl
  simp only [QsortPartition.cursors] at collected
  simp only [qsortPartitions, collected, QsortPartition.cursors, place, qsortPlace_diff, leftCount,
    rightCount, Option.bind_eq_bind, Option.bind_some]
  rw [qsortPlace_sub (by omega), cut]
  split
  · rw [sortLeft, Option.bind_some]
    exact sortRight low (lowLength.trans leftLength)
  · rw [sortRight left leftLength, Option.bind_some]
    exact sortLeft high

theorem qsortRInline_memory (order : TotalCompare cmp) (sized : 1 ≤ es) : ∀ {fuel : Nat}
    {items next : List (QsortItem es)} {front back : List UInt8}, items.length ≤ fuel →
    qsortInline cmp fuel items = some next →
    qsortRInline cmp fuel (qsortMemory front items back) front.length items.length =
      some (qsortMemory front next back) := by
  intro fuel
  induction fuel with
  | zero =>
    intro items next front back enough sorted
    have small : items.length < 2 := by omega
    rw [qsortInline, if_pos small, Option.some.injEq] at sorted
    rw [qsortRInline, if_pos small, sorted]
  | succ fuel ih =>
    intro items next front back enough sorted
    rw [qsortInline] at sorted
    rw [qsortRInline]
    by_cases small : items.length < 2
    · rw [if_pos small, Option.some.injEq] at sorted
      rw [if_pos small, sorted]
    · rw [if_neg small] at sorted ⊢
      by_cases few : items.length < 7
      · rw [if_pos few] at sorted ⊢
        exact qsortInsertion_memory sized (by omega) sorted
      · rw [if_neg few] at sorted ⊢
        obtain ⟨pm, chosen, sorted⟩ := Option.bind_eq_some_iff.mp sorted
        obtain ⟨fronted, didFront, sorted⟩ := Option.bind_eq_some_iff.mp sorted
        obtain ⟨state, parted, sorted⟩ := Option.bind_eq_some_iff.mp sorted
        have frontLength := swapAt_length didFront
        have swapped := @qsortSwapfunc_memory es front back _ _ _ _ didFront
        have divided := @qsortDivide_memory es front back cmp sized items.length _ _ _
          ⟨frontLength, Nat.le_refl 1, Nat.le_refl _⟩ parted
        have first : qsortPlace front es 1 = front.length + es := by simp [qsortPlace]
        have last : front.length + (items.length - 1) * es =
            qsortPlace front es (items.length - 1) := rfl
        rw [qsortPlace_zero] at swapped
        simp only [QsortPartition.cursors, first, frontLength] at divided
        simp only [qsortChoosePivot_memory chosen, swapped, last, divided, Option.bind_eq_bind,
          Option.bind_some]
        obtain ⟨pivot, pivotAt⟩ : ∃ pivot, fronted[0]? = some pivot :=
          ⟨_, List.getElem?_eq_getElem (by omega)⟩
        obtain ⟨found, didPart, bands, closed⟩ :=
          @QsortPartition.Bands.partition _ cmp pivot fronted fronted.length _
            (QsortPartition.Bands.init (List.Perm.refl _) (by omega) pivotAt order)
            (show fronted.length - 1 + 1 - 1 < fronted.length by omega)
        obtain rfl : found = state := Option.some.inj (didPart.symm.trans parted)
        have stateLength : found.items.length = items.length :=
          bands.perm.length_eq.trans frontLength
        have left := bands.left
        have right := bands.right
        by_cases marked : found.swapCnt = true
        · rw [if_pos marked] at sorted ⊢
          rw [← stateLength]
          refine qsortPartitions_memory sized (by omega) ?_ sorted
          intro part shorter partSorted done
          refine ⟨?_, fun front back => ih (by omega) done⟩
          obtain ⟨ordered, didSort, perm, _⟩ :=
            @qsortInline_sorts _ cmp order fuel part (by omega)
          obtain rfl : ordered = partSorted := Option.some.inj (didSort.symm.trans done)
          exact perm.length_eq
        · rw [if_neg marked] at sorted ⊢
          rw [← stateLength]
          exact qsortInsertion_memory sized (by omega) sorted

/-- `mulle_qsort_r` ends, leaves the items in order, and nothing around them is touched. -/
theorem mulleQsortR_sorts (order : TotalCompare cmp) (sized : 1 ≤ es) (front : List UInt8)
    (items : List (QsortItem es)) (back : List UInt8) :
    ∃ sorted, mulleQsortR cmp (qsortMemory front items back) (some front.length) items.length =
        some (qsortMemory front sorted back) ∧ sorted.Perm items ∧
      sorted.Pairwise fun one other => cmp one other ≤ 0 := by
  obtain ⟨sorted, done, perm, ordered⟩ := @qsortInline_sorts _ cmp order items.length items
    (Nat.le_refl _)
  refine ⟨sorted, ?_, perm, ordered⟩
  have followed := @qsortRInline_memory es cmp order sized items.length items sorted front back
    (Nat.le_refl _) done
  rw [mulleQsortR]
  by_cases several : items.length ≠ 0 ∧ es ≠ 0
  · rw [if_pos several]
    exact followed
  · have empty : items = [] := List.length_eq_zero_iff.mp (by omega)
    subst empty
    obtain rfl := perm.eq_nil
    rfl

theorem mulleQsortR_sorts_pairs :
    ∃ sorted : List (QsortItem 2),
      mulleQsortR (fun one other : QsortItem 2 =>
          ((one.val.headD 0).toNat : Int) - ((other.val.headD 0).toNat : Int))
        (qsortMemory [9] [⟨[3, 0], rfl⟩, ⟨[1, 7], rfl⟩, ⟨[2, 5], rfl⟩] [4]) (some 1) 3 =
          some (qsortMemory [9] sorted [4]) ∧
        sorted.Perm [⟨[3, 0], rfl⟩, ⟨[1, 7], rfl⟩, ⟨[2, 5], rfl⟩] ∧
        sorted.Pairwise fun one other =>
          ((one.val.headD 0).toNat : Int) - ((other.val.headD 0).toNat : Int) ≤ 0 := by
  refine mulleQsortR_sorts ⟨?_, ?_⟩ (by decide) [9]
    [⟨[3, 0], rfl⟩, ⟨[1, 7], rfl⟩, ⟨[2, 5], rfl⟩] [4]
  · intro left right
    omega
  · intro left middle right below above
    omega

end Bytes

end MulleCore
