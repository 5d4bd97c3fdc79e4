import MulleCore.Library.Bisect

/-!
`qsort` and `bsearch` of the C library: with a comparison that follows the order of the ranks, a
search in sorted items finds a key if one of them has its rank.
-/

namespace Library

section SortedSearch

variable {Item : Type} (compare : Item → Item → Int)
variable {items : List Item} {key : Item}

def qsort (items : List Item) : List Item := items.mergeSort fun left right => compare left right ≤ 0

def bsearchProbe (key : Item) (items : List Item) (_last middle : Int) : Probe Item :=
  match items[middle.toNat]? with
  | none => .left
  | some item =>
    if compare key item = 0 then .hit item
    else if compare key item > 0 then .right
    else .left

def bsearch (key : Item) (items : List Item) : Option Item :=
  (bisectFrom midpoint (bsearchProbe compare key items) (items.length + 1) 0 (items.length - 1)).hit

structure ComparesRanks (rank : Item → Int) (good : Item → Prop) : Prop where
  zero : ∀ left right, good left → good right → (compare left right = 0 ↔ rank left = rank right)
  positive : ∀ left right, good left → good right → (0 < compare left right ↔ rank right < rank left)

variable {compare} {rank : Item → Int} {good : Item → Prop}

theorem ComparesRanks.le_iff (ranked : ComparesRanks compare rank good) {left right : Item}
    (goodLeft : good left) (goodRight : good right) :
    compare left right ≤ 0 ↔ rank left ≤ rank right := by
  have positive := ranked.positive left right goodLeft goodRight
  omega

theorem qsort_sorted (ranked : ComparesRanks compare rank good)
    (allGood : ∀ item ∈ items, good item) :
    ((qsort compare items).map rank).Pairwise (· ≤ ·) := by
  have ranks : (qsort compare items).map rank = (items.map rank).mergeSort fun left right => left ≤
      right := by
    apply List.map_mergeSort
    intro left leftIn right rightIn
    simp [ranked.le_iff (allGood left leftIn) (allGood right rightIn)]
  rw [ranks]
  have sorted := @List.pairwise_mergeSort Int (fun left right => decide (left ≤ right))
    (by simpa using fun a b c => Int.le_trans) (by simpa using Int.le_total) (items.map rank)
  simpa using sorted

structure RankWindow (rank : Item → Int) (items : List Item) (value first last : Int) : Prop where
  nonneg : 0 ≤ first
  inside : last < items.length
  adjacent : first ≤ last + 1
  left : ∀ index, (bound : index < items.length) → (index : Int) < first → rank items[index] < value
  right : ∀ index, (bound : index < items.length) → last < (index : Int) → value < rank items[index]

def RankOutcome (rank : Item → Int) (items : List Item) (key : Item) : Bisected Item → Prop
  | .found item => item ∈ items ∧ rank item = rank key
  | .missing _ => ∀ item ∈ items, rank item ≠ rank key
  | .overflow | .endless => False

theorem bsearch_outcome (ranked : ComparesRanks compare rank good)
    (goodKey : good key) (allGood : ∀ item ∈ items, good item)
    (sorted : (items.map rank).Pairwise (· ≤ ·)) :
    RankOutcome rank items key
      (bisectFrom midpoint (bsearchProbe compare key items) (items.length + 1) 0
        (items.length - 1)) := by
  have ordered : ∀ {first second : Nat} (bound : second < items.length), (before : first ≤ second) →
      rank items[first] ≤ rank items[second] := by
    intro first second bound before
    rcases Nat.lt_or_eq_of_le before with below | same
    · exact List.pairwise_iff_getElem.mp (List.pairwise_map.mp sorted) first second
        (by omega) bound below
    · simp [same]
  refine bisectFrom_rule (RankWindow rank items (rank key)) ?_ ?_ _ _ _ ?_ (by omega)
  · intro first last window nonempty
    obtain ⟨lower, upper⟩ := tdiv_two_between window.nonneg nonempty
    refine ⟨_, rfl, lower, upper, ?_⟩
    obtain ⟨middle, middleEq⟩ := Int.eq_ofNat_of_zero_le (Int.le_trans window.nonneg lower)
    rw [middleEq] at lower upper ⊢
    have inside := window.inside
    have bound : middle < items.length := by omega
    have goodItem := allGood items[middle] (List.getElem_mem bound)
    have zero := ranked.zero key items[middle] goodKey goodItem
    have positive := ranked.positive key items[middle] goodKey goodItem
    have read : items[(middle : Int).toNat]? = some items[middle] := by simp [bound]
    rw [bsearchProbe, read]
    dsimp only
    split
    next same => exact ⟨List.getElem_mem bound, (zero.mp same).symm⟩
    next differ =>
      split
      next above =>
        refine ⟨by omega, inside, by omega, ?_, window.right⟩
        intro index within before
        exact Int.lt_of_le_of_lt (ordered bound (by omega)) (positive.mp above)
      next below =>
        refine ⟨window.nonneg, by omega, by omega, window.left, ?_⟩
        intro index within behind
        have above := ordered within (by omega : middle ≤ index)
        omega
  · intro first last window crossed
    refine ⟨rfl, ?_⟩
    intro item member
    obtain ⟨index, bound, rfl⟩ := List.getElem_of_mem member
    by_cases before : (index : Int) < first
    · have below := window.left index bound before
      omega
    · have above := window.right index bound (by omega)
      omega
  · exact ⟨by omega, by omega, by omega, fun _ _ _ => by omega, fun _ _ _ => by omega⟩

/-- A search in the sorted items finds just the ranks that occur in them. -/
theorem bsearch_qsort_isSome (ranked : ComparesRanks compare rank good)
    (goodKey : good key) (allGood : ∀ item ∈ items, good item) :
    (bsearch compare key (qsort compare items)).isSome = true ↔
    ∃ item ∈ items, rank item = rank key := by
  have perm : (qsort compare items).Perm items := List.mergeSort_perm items _
  have outcome := bsearch_outcome ranked goodKey
    (fun item member => allGood item (perm.subset member)) (qsort_sorted ranked allGood)
  rw [bsearch]
  cases searched : bisectFrom midpoint (bsearchProbe compare key (qsort compare items))
      ((qsort compare items).length + 1) 0 ((qsort compare items).length - 1) with
  | found item =>
    rw [searched] at outcome
    simp only [Bisected.hit, Option.isSome_some, true_iff]
    exact ⟨item, perm.subset outcome.1, outcome.2⟩
  | missing last =>
    rw [searched] at outcome
    simp only [Bisected.hit, Option.isSome_none, Bool.false_eq_true, false_iff, not_exists, not_and]
    exact fun item member => outcome item (perm.symm.subset member)
  | overflow =>
    rw [searched] at outcome
    exact outcome.elim
  | endless =>
    rw [searched] at outcome
    exact outcome.elim

end SortedSearch

end Library
