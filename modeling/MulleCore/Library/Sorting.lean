import Mathlib.Algebra.Ring.Nat
import Mathlib.Tactic.SplitIfs

/-!
Exchanges in a list, and what it takes for a list to be sorted by a comparison that
answers with a number below, at or above 0.
-/

namespace Library

structure TotalCompare {Item : Type} (compare : Item → Item → Int) : Prop where
  flip : ∀ left right, compare left right < 0 ↔ 0 < compare right left
  trans : ∀ left middle right, compare left middle ≤ 0 → compare middle right ≤ 0 →
    compare left right ≤ 0

section Sorting

variable {Item : Type}
variable {items : List Item} {left right : Item} {bound gap : Nat}

def swapAt (items : List Item) (first second : Nat) : Option (List Item) := do
  let one ← items[first]?
  let other ← items[second]?
  some ((items.set first other).set second one)

def swapBlocks : Nat → List Item → Nat → Nat → Option (List Item)
  | 0, items, _, _ => some items
  | count + 1, items, first, second => do
      let items ← swapAt items first second
      swapBlocks count items (first + 1) (second + 1)

theorem swapAt_some {items : List Item} {first second : Nat} (firstBound : first < items.length)
    (secondBound : second < items.length) :
    ∃ next, swapAt items first second = some next ∧ next.Perm items ∧
      ∀ index : Nat, next[index]? =
        items[if index = first then second else if index = second then first else index]? := by
  refine ⟨(items.set first items[second]).set second items[first], ?_,
    List.set_set_perm firstBound secondBound, ?_⟩
  · simp only [swapAt, List.getElem?_eq_getElem firstBound, List.getElem?_eq_getElem secondBound,
      Option.bind_eq_bind, Option.bind_some]
  · intro index
    rw [List.getElem?_set, List.length_set, List.getElem?_set]
    by_cases isSecond : second = index
    · subst isSecond
      rw [if_pos rfl, if_pos secondBound]
      by_cases isFirst : second = first
      · subst isFirst
        rw [if_pos rfl, List.getElem?_eq_getElem firstBound]
      · rw [if_neg isFirst, if_pos rfl, List.getElem?_eq_getElem firstBound]
    · rw [if_neg isSecond]
      by_cases isFirst : first = index
      · subst isFirst
        rw [if_pos rfl, if_pos firstBound, if_pos rfl, List.getElem?_eq_getElem secondBound]
      · rw [if_neg isFirst, if_neg (Ne.symm isFirst), if_neg (Ne.symm isSecond)]

theorem swapBlocks_some : ∀ {count : Nat} {items : List Item} {first second : Nat},
    first + count ≤ second → second + count ≤ items.length →
    ∃ next, swapBlocks count items first second = some next ∧ next.Perm items ∧
      ∀ index : Nat, next[index]? = items[
        if first ≤ index ∧ index < first + count then second + (index - first)
        else if second ≤ index ∧ index < second + count then first + (index - second)
        else index]? := by
  intro count
  induction count with
  | zero =>
    intro items first second _ _
    refine ⟨items, rfl, List.Perm.refl items, ?_⟩
    intro index
    rw [if_neg (by omega), if_neg (by omega)]
  | succ count ih =>
    intro items first second apart bound
    obtain ⟨swapped, didSwap, perm, swappedAt⟩ :=
      @swapAt_some _ items first second (by omega) (by omega)
    obtain ⟨next, done, nextPerm, nextAt⟩ :=
      @ih swapped (first + 1) (second + 1) (by omega) (by rw [perm.length_eq]; omega)
    refine ⟨next, ?_, nextPerm.trans perm, ?_⟩
    · simp only [swapBlocks, didSwap, done, Option.bind_eq_bind, Option.bind_some]
    · intro index
      rw [nextAt, swappedAt]
      congr 1
      split_ifs <;> omega

theorem swapAt_comm (items : List Item) (first second : Nat) :
    swapAt items first second = swapAt items second first := by
  by_cases same : first = second
  · rw [same]
  · rw [swapAt, swapAt]
    cases firstAt : items[first]? with
    | none => cases items[second]? <;> rfl
    | some one =>
      cases secondAt : items[second]? with
      | none => rfl
      | some other => exact congrArg some (List.set_comm other one same)

theorem swapBlocks_comm (count : Nat) (items : List Item) (first second : Nat) :
    swapBlocks count items first second = swapBlocks count items second first := by
  induction count generalizing items first second with
  | zero => rfl
  | succ count ih =>
    rw [swapBlocks, swapBlocks, swapAt_comm]
    exact congrArg _ (funext fun next => ih next (first + 1) (second + 1))

theorem swapBlocks_add (count more : Nat) (items : List Item) (first second : Nat) :
    swapBlocks (count + more) items first second =
      (swapBlocks count items first second).bind fun next =>
        swapBlocks more next (first + count) (second + count) := by
  induction count generalizing items first second with
  | zero => simp [swapBlocks]
  | succ count ih =>
    rw [Nat.succ_add, swapBlocks, swapBlocks]
    simp only [Option.bind_eq_bind, Option.bind_assoc]
    apply congrArg
    funext next
    rw [ih, Nat.add_assoc, Nat.add_assoc, Nat.add_comm 1 count]

theorem swapAt_split (front middle back : List Item) (one other : Item) :
    swapAt (front ++ one :: middle ++ other :: back) front.length
        (front.length + 1 + middle.length) =
      some (front ++ other :: middle ++ one :: back) := by
  have before : (front ++ one :: middle).length = front.length + 1 + middle.length := by
    simp
    omega
  have after : (front ++ other :: middle).length = front.length + 1 + middle.length := by
    simp
    omega
  have oneAt : (front ++ one :: middle ++ other :: back)[front.length]? = some one := by simp
  have otherAt : (front ++ one :: middle ++ other :: back)[front.length + 1 + middle.length]? =
      some other := by
    rw [← before, List.getElem?_append_right (Nat.le_refl _), Nat.sub_self, List.getElem?_cons_zero]
  have set : (front ++ one :: middle ++ other :: back).set front.length other =
      front ++ other :: middle ++ other :: back := by simp
  simp only [swapAt, oneAt, otherAt, set, Option.bind_eq_bind, Option.bind_some]
  rw [← after, List.set_append_right _ _ (Nat.le_refl _), Nat.sub_self, List.set_cons_zero]

theorem swapBlocks_split : ∀ {one other : List Item} (front middle back : List Item),
    one.length = other.length →
    swapBlocks one.length (front ++ one ++ middle ++ other ++ back) front.length
        (front.length + one.length + middle.length) =
      some (front ++ other ++ middle ++ one ++ back) := by
  intro one
  induction one with
  | nil =>
    intro other front middle back same
    obtain rfl : other = [] := List.length_eq_zero_iff.mp same.symm
    rfl
  | cons first one ih =>
    intro other front middle back same
    cases other with
    | nil => contradiction
    | cons second other =>
      have step := swapAt_split front (one ++ middle) (other ++ back) first second
      have rest := ih (front ++ [second]) (middle ++ [first]) back (Nat.succ.inj same)
      have place : front.length + (first :: one).length + middle.length =
          front.length + 1 + (one ++ middle).length := by
        simp
        omega
      have next : (front ++ [second]).length + one.length + (middle ++ [first]).length =
          front.length + 1 + (one ++ middle).length + 1 := by
        simp
        omega
      rw [next] at rest
      rw [place, List.length_cons, swapBlocks]
      simp only [List.append_assoc, List.cons_append, List.nil_append, List.length_append,
        List.length_singleton] at step rest ⊢
      simp only [step, rest, Option.bind_eq_bind, Option.bind_some]

theorem swapBlocks_self {count : Nat} {first : Nat}
    (bound : first + count ≤ items.length) : swapBlocks count items first first = some items := by
  induction count generalizing first with
  | zero => rfl
  | succ count ih =>
    have inside : first < items.length := by omega
    have same : swapAt items first first = some items := by
      simp only [swapAt, List.getElem?_eq_getElem inside, Option.bind_eq_bind, Option.bind_some,
        List.set_getElem_self]
    simp only [swapBlocks, same, Option.bind_eq_bind, Option.bind_some]
    exact ih (by omega)

/-- Swapping as many items as the shorter band has exchanges the bands. -/
theorem swapBlocks_bands {Low High : Item → Prop} {items : List Item} {start mid stop : Nat}
    (first : start ≤ mid) (second : mid ≤ stop) (bound : stop ≤ items.length)
    (low : ∀ index item, start ≤ index → index < mid → items[index]? = some item → Low item)
    (high : ∀ index item, mid ≤ index → index < stop → items[index]? = some item → High item) :
    ∃ next, swapBlocks (min (mid - start) (stop - mid)) items start
        (stop - min (mid - start) (stop - mid)) = some next ∧ next.Perm items ∧
      (∀ index : Nat, index < start ∨ stop ≤ index → next[index]? = items[index]?) ∧
      (∀ index item, start ≤ index → index < start + (stop - mid) → next[index]? = some item →
        High item) ∧
      ∀ index item, start + (stop - mid) ≤ index → index < stop → next[index]? = some item →
        Low item := by
  obtain ⟨count, counted⟩ : ∃ count, count = min (mid - start) (stop - mid) := ⟨_, rfl⟩
  obtain ⟨next, done, perm, nextAt⟩ := @swapBlocks_some _ count items start (stop - count)
    (by omega) (by omega)
  rw [← counted]
  refine ⟨next, done, perm, ?_, ?_, ?_⟩
  · intro index outside
    rw [nextAt, if_neg (by omega), if_neg (by omega)]
  · intro index item from_start before itemAt
    rw [nextAt] at itemAt
    by_cases front : index < start + count
    · rw [if_pos ⟨from_start, front⟩] at itemAt
      exact high _ item (by omega) (by omega) itemAt
    · rw [if_neg (by omega), if_neg (by omega)] at itemAt
      exact high index item (by omega) (by omega) itemAt
  · intro index item after before itemAt
    rw [nextAt] at itemAt
    by_cases back : stop - count ≤ index
    · rw [if_neg (by omega), if_pos (by omega)] at itemAt
      exact low _ item (by omega) (by omega) itemAt
    · rw [if_neg (by omega), if_neg (by omega)] at itemAt
      exact low index item (by omega) (by omega) itemAt

variable {compare : Item → Item → Int}

theorem TotalCompare.refl (order : TotalCompare compare) (item : Item) : compare item item = 0 := by
  have flipped := order.flip item item
  omega

theorem TotalCompare.le_of_ge (order : TotalCompare compare)
    (notBelow : 0 ≤ compare left right) : compare right left ≤ 0 := by
  have flipped := order.flip left right
  omega

theorem TotalCompare.eq_comm (order : TotalCompare compare)
    (equal : compare left right = 0) : compare right left = 0 := by
  have flipped := order.flip left right
  have unflipped := order.flip right left
  omega

/-- The pairs of places below `bound` are in order, but for those that end at `gap`. -/
def OrderedBut (compare : Item → Item → Int) (items : List Item) (bound gap : Nat) : Prop :=
  ∀ first second one other, first < second → second < bound → second ≠ gap →
    items[first]? = some one → items[second]? = some other → compare one other ≤ 0

theorem OrderedBut.pairwise (ordered : OrderedBut compare items items.length
    items.length) : items.Pairwise fun one other => compare one other ≤ 0 := by
  rw [List.pairwise_iff_getElem]
  intro first second firstBound secondBound before
  exact ordered first second _ _ before secondBound (Nat.ne_of_lt secondBound)
    (List.getElem?_eq_getElem firstBound) (List.getElem?_eq_getElem secondBound)

theorem pairwise_of_few (few : items.length < 2) :
    items.Pairwise fun one other => compare one other ≤ 0 := by
  rw [List.pairwise_iff_getElem]
  intro first second firstBound secondBound before
  omega

theorem OrderedBut.close (order : TotalCompare compare)
    (ordered : OrderedBut compare items bound gap)
    (fits : ∀ one other, 0 < gap → items[gap - 1]? = some one → items[gap]? = some other →
      compare one other ≤ 0) : OrderedBut compare items bound bound := by
  intro first second one other before inside _ firstAt secondAt
  by_cases atGap : second = gap
  · subst atGap
    by_cases neighbour : first = second - 1
    · subst neighbour
      exact fits one other (by omega) firstAt secondAt
    · have length := (List.getElem?_eq_some_iff.mp secondAt).1
      obtain ⟨previous, previousAt⟩ : ∃ previous, items[second - 1]? = some previous :=
        ⟨_, List.getElem?_eq_getElem (by omega)⟩
      have lower := ordered first (second - 1) one previous (by omega) (by omega) (by omega)
        firstAt previousAt
      exact order.trans one previous other lower (fits previous other (by omega) previousAt secondAt)
  · exact ordered first second one other before inside atGap firstAt secondAt

theorem OrderedBut.sink {next : List Item}
    (ordered : OrderedBut compare items bound (gap + 1)) (inside : gap + 1 < bound)
    {one other : Item} (oneAt : items[gap]? = some one) (otherAt : items[gap + 1]? = some other)
    (below : compare other one ≤ 0)
    (nextAt : ∀ index : Nat, next[index]? = items[
      if index = gap + 1 then gap else if index = gap then gap + 1 else index]?) :
    OrderedBut compare next bound gap := by
  intro first second left right before secondBound notGap firstAt secondAt
  rw [nextAt] at firstAt secondAt
  by_cases secondUp : second = gap + 1
  · rw [if_pos secondUp, oneAt, Option.some.injEq] at secondAt
    subst secondAt
    by_cases firstLow : first = gap
    · rw [if_neg (by omega), if_pos firstLow, otherAt, Option.some.injEq] at firstAt
      subst firstAt
      exact below
    · rw [if_neg (by omega), if_neg firstLow] at firstAt
      exact ordered first gap left one (by omega) (by omega) (by omega) firstAt oneAt
  · rw [if_neg secondUp, if_neg notGap] at secondAt
    by_cases firstUp : first = gap + 1
    · rw [if_pos firstUp] at firstAt
      exact ordered gap second left right (by omega) secondBound secondUp firstAt secondAt
    · rw [if_neg firstUp] at firstAt
      by_cases firstLow : first = gap
      · rw [if_pos firstLow] at firstAt
        exact ordered (gap + 1) second left right (by omega) secondBound secondUp firstAt secondAt
      · rw [if_neg firstLow] at firstAt
        exact ordered first second left right before secondBound secondUp firstAt secondAt

theorem lt_countP_iff {below : Item → Bool} : ∀ {items : List Item},
    (items.Pairwise fun one other => below other = true → below one = true) →
    ∀ {index : Nat} {item : Item}, items[index]? = some item →
      (below item = true ↔ index < items.countP below) := by
  intro items
  induction items with
  | nil =>
    intro _ index item itemAt
    contradiction
  | cons head rest ih =>
    intro closed index item itemAt
    obtain ⟨headFirst, restClosed⟩ := List.pairwise_cons.mp closed
    by_cases headBelow : below head = true
    · rw [List.countP_cons_of_pos headBelow]
      cases index with
      | zero =>
        rw [List.getElem?_cons_zero, Option.some.injEq] at itemAt
        rw [← itemAt]
        exact ⟨fun _ => Nat.succ_pos _, fun _ => headBelow⟩
      | succ index =>
        rw [List.getElem?_cons_succ] at itemAt
        rw [Nat.succ_lt_succ_iff]
        exact ih restClosed itemAt
    · have none : rest.countP below = 0 :=
        List.countP_eq_zero.mpr fun other member otherBelow =>
          headBelow (headFirst other member otherBelow)
      rw [List.countP_cons_of_neg headBelow, none]
      refine ⟨fun itemBelow => ?_, fun before => absurd before (Nat.not_lt_zero index)⟩
      rcases List.mem_cons.mp (List.mem_of_getElem? itemAt) with atHead | member
      · exact absurd (atHead ▸ itemBelow) headBelow
      · exact absurd (headFirst item member itemBelow) headBelow

/-- Sorted parts on both sides of the pivot make a sorted list. -/
theorem pairwise_bands (order : TotalCompare compare) {pivot : Item} {left middle right : List Item}
    (leftSorted : left.Pairwise fun one other => compare one other ≤ 0)
    (rightSorted : right.Pairwise fun one other => compare one other ≤ 0)
    (leftBelow : ∀ item ∈ left, compare item pivot < 0)
    (middleEqual : ∀ item ∈ middle, compare item pivot = 0)
    (rightAbove : ∀ item ∈ right, 0 < compare item pivot) :
    (left ++ middle ++ right).Pairwise fun one other => compare one other ≤ 0 := by
  have across : ∀ one other, compare one pivot ≤ 0 → 0 ≤ compare other pivot →
      compare one other ≤ 0 := fun one other low high =>
    order.trans one pivot other low (order.le_of_ge high)
  rw [List.append_assoc]
  refine List.pairwise_append.mpr ⟨leftSorted, List.pairwise_append.mpr
    ⟨?_, rightSorted, ?_⟩, ?_⟩
  · refine List.pairwise_of_forall_mem_list ?_
    intro one oneMember other otherMember
    exact across one other (Int.le_of_eq (middleEqual one oneMember))
      (Int.le_of_eq (middleEqual other otherMember).symm)
  · intro one oneMember other otherMember
    exact across one other (Int.le_of_eq (middleEqual one oneMember))
      (Int.le_of_lt (rightAbove other otherMember))
  · intro one oneMember other otherMember
    refine across one other (Int.le_of_lt (leftBelow one oneMember)) ?_
    rcases List.mem_append.mp otherMember with inMiddle | inRight
    · exact Int.le_of_eq (middleEqual other inMiddle).symm
    · exact Int.le_of_lt (rightAbove other inRight)

end Sorting

end Library
