import MulleCore.Container.AssocRefines

/-!
The two searches of `mulle-pointerpair.h`. `_mulle_pointerpair_bsearch_or_less` keeps the `closest`
index, but returns `middle`.
-/

namespace MulleCore

open Library

/-- `middle` is computed where a round starts, which is where the one before has it computed. -/
def pointerpairOrLessLoop (compare : Pointerpair → Pointerpair → Int) (buf : List Pointerpair)
    (search : Pointerpair) :
    Nat → Int → Int → Int → Option Int
  | 0, _, _, _ => none
  | fuel + 1, first, last, closest =>
    match midpointBelow (2 ^ 31) first last with
    | none => none
    | some middle =>
      if first ≤ last then
        match buf[middle.toNat]? with
        | none => none
        | some p =>
          if compare p search ≤ 0 then
            if compare p search = 0 then some middle
            else pointerpairOrLessLoop compare buf search fuel (middle + 1) last
              (if middle > closest then middle else closest)
          else pointerpairOrLessLoop compare buf search fuel first (middle - 1) closest
      else some middle

def pointerpairBsearchOrLess (compare : Pointerpair → Pointerpair → Int) (buf : List Pointerpair)
    (search : Pointerpair) : Option Int :=
  pointerpairOrLessLoop compare buf search (buf.length + 1) 0 (intOfSize (buf.length - 1)) (-1)

section Search

variable {compare : Pointerpair → Pointerpair → Int} {buf : List Pointerpair} {search : Pointerpair}

def orLessOf : Bisected (Option Nat) → Option Int
  | .found index => index.map Int.ofNat
  | .missing last => some ((last + 1 + last).tdiv 2)
  | .overflow | .endless => none

theorem pointerpairOrLessLoop_bisects (fuel : Nat) : ∀ (first last closest : Int), 0 ≤ first →
    first ≤ last + 1 →
    pointerpairOrLessLoop compare buf search fuel first last closest =
      orLessOf (bisectFrom (midpointBelow (2 ^ 31)) (pointerpairBsearchProbe compare buf search)
        fuel first last) := by
  induction fuel with
  | zero => intro first last closest _ _; rfl
  | succ fuel ih =>
    intro first last closest nonneg window
    rw [pointerpairOrLessLoop, bisectFrom]
    cases middleAt : midpointBelow (2 ^ 31) first last with
    | none => rfl
    | some middle =>
      have middleEq : (first + last).tdiv 2 = middle := by
        rw [midpointBelow] at middleAt
        split at middleAt
        · exact Option.some.inj middleAt
        · contradiction
      by_cases inside : first ≤ last
      · obtain ⟨lower, upper⟩ := tdiv_two_between nonneg inside
        rw [middleEq] at lower upper
        simp only [if_pos inside, pointerpairBsearchProbe]
        cases there : buf[middle.toNat]? with
        | none => rfl
        | some p =>
          by_cases low : compare p search ≤ 0
          · by_cases equal : compare p search = 0
            · simp only [if_pos low, if_pos equal, orLessOf, Option.map_some, Int.ofNat_eq_natCast]
              rw [Int.toNat_of_nonneg (by omega)]
            · simp only [if_pos low, if_neg equal]
              exact ih _ _ _ (by omega) (by omega)
          · simp only [if_neg low]
            exact ih _ _ _ nonneg (by omega)
      · obtain rfl : first = last + 1 := by omega
        simp only [if_neg inside, orLessOf, middleEq]

def BsearchFinds (compare : Pointerpair → Pointerpair → Int) (buf : List Pointerpair)
    (search : Pointerpair) :
    Option Nat → Prop
  | some index => ∃ pair, buf[index]? = some pair ∧ compare pair search = 0
  | none => ∀ pair ∈ buf, compare pair search ≠ 0

def OrLessFinds (compare : Pointerpair → Pointerpair → Int) (buf : List Pointerpair)
    (search : Pointerpair) (result : Int) : Prop :=
  (∃ (index : Nat) (pair : Pointerpair), result = index ∧ buf[index]? = some pair ∧
    compare pair search ≤ 0 ∧
      ∀ other ∈ buf, compare other search ≤ 0 → compare other pair ≤ 0) ∨
    (result = -1 ∧ ∀ pair ∈ buf, 0 < compare pair search)

theorem pointerpairBsearchOrLess_window (few : buf.length < 2 ^ 31) :
    pointerpairBsearchOrLess compare buf search =
      orLessOf (pointerpairBsearchWindow compare buf search) := by
  rw [pointerpairBsearchOrLess, pointerpairBsearchWindow, intOfSize_small (Nat.le_of_lt few)]
  exact pointerpairOrLessLoop_bisects _ _ _ _ (Int.le_refl 0) (by omega)

theorem pointerpairBsearchOrLess_finds (order : TotalCompare compare)
    (sorted : buf.Pairwise fun one other => compare one other ≤ 0) (few : buf.length < 2 ^ 31)
    (fit : MidpointsFit (2 ^ 31) buf.length (pairsBelow compare buf search))
    (reached : ∃ pair ∈ buf, compare pair search ≤ 0) :
    ∃ result, pointerpairBsearchOrLess compare buf search = some result ∧
      OrLessFinds compare buf search result := by
  have placed := pointerpairBsearchWindow_placed order sorted few fit
  rw [pointerpairBsearchOrLess_window few]
  cases window : pointerpairBsearchWindow compare buf search with
  | found result =>
    rw [window] at placed
    obtain ⟨index, pair, rfl, pairAt, equal⟩ := placed
    refine ⟨index, rfl, Or.inl ⟨index, pair, rfl, pairAt, Int.le_of_eq equal, ?_⟩⟩
    intro other _ low
    exact order.trans other search pair low (order.le_of_ge (Int.le_of_eq equal.symm))
  | missing last =>
    rw [window] at placed
    obtain ⟨rfl, unequal⟩ := placed
    obtain ⟨low, member, lowest⟩ := reached
    obtain ⟨index, lowAt⟩ := List.mem_iff_getElem?.mp member
    have lowPlace := (lt_pairsBelow_iff search order sorted lowAt).mp
      (by have := unequal low member; omega)
    have within := pairsBelow_le compare buf search
    have pairAt := List.getElem?_eq_getElem (show pairsBelow compare buf search - 1 <
      buf.length by omega)
    have below := (lt_pairsBelow_iff search order sorted pairAt).mpr (by omega)
    refine ⟨(pairsBelow compare buf search - 1 : Nat), ?_,
      Or.inl ⟨_, _, rfl, pairAt, Int.le_of_lt below, ?_⟩⟩
    · rw [orLessOf, Int.tdiv_eq_ediv_of_nonneg (by omega), Option.some.injEq]
      omega
    · intro other otherMember otherLow
      obtain ⟨place, otherAt⟩ := List.mem_iff_getElem?.mp otherMember
      have otherPlace := (lt_pairsBelow_iff search order sorted otherAt).mp
        (by have := unequal other otherMember; omega)
      obtain ⟨placeBound, rfl⟩ := List.getElem?_eq_some_iff.mp otherAt
      rcases Nat.lt_or_eq_of_le (show place ≤ pairsBelow compare buf search - 1 by omega) with
        before | same
      · exact List.pairwise_iff_getElem.mp sorted _ _ placeBound (by omega) before
      · subst same
        exact Int.le_of_eq (order.refl _)
  | overflow =>
    rw [window] at placed
    exact placed.elim
  | endless =>
    rw [window] at placed
    exact placed.elim

theorem pointerpairBsearchOrLess_above (order : TotalCompare compare)
    (sorted : buf.Pairwise fun one other => compare one other ≤ 0) (few : buf.length < 2 ^ 31)
    (fit : MidpointsFit (2 ^ 31) buf.length (pairsBelow compare buf search))
    (above : ∀ pair ∈ buf, 0 < compare pair search) :
    pointerpairBsearchOrLess compare buf search = some 0 := by
  have placed := pointerpairBsearchWindow_placed order sorted few fit
  have none : pairsBelow compare buf search = 0 := by
    rw [pairsBelow, List.countP_eq_zero]
    intro pair member
    rw [decide_eq_true_eq]
    exact Int.not_lt.mpr (Int.le_of_lt (above pair member))
  rw [pointerpairBsearchOrLess_window few]
  cases window : pointerpairBsearchWindow compare buf search with
  | found result =>
    rw [window] at placed
    obtain ⟨index, pair, rfl, pairAt, equal⟩ := placed
    have positive := above pair (List.mem_of_getElem? pairAt)
    omega
  | missing last =>
    rw [window] at placed
    obtain ⟨rfl, _⟩ := placed
    rw [none]
    rfl
  | overflow =>
    rw [window] at placed
    exact placed.elim
  | endless =>
    rw [window] at placed
    exact placed.elim

/-- Both searches are right exactly if no sum of two indices overflows on the way, and a pair is
not above the one looked for. -/
theorem pointerpairBsearches_iff (compare : Pointerpair → Pointerpair → Int)
    (order : TotalCompare compare) (buf : List Pointerpair) (search : Pointerpair)
    (few : buf.length < 2 ^ 31) (sorted : buf.Pairwise fun one other => compare one other ≤ 0) :
    ((∃ found, pointerpairBsearch compare buf search = some found ∧ BsearchFinds compare buf
      search found) ∧
      ∃ result, pointerpairBsearchOrLess compare buf search = some result ∧
        OrLessFinds compare buf search result) ↔
    MidpointsFit (2 ^ 31) buf.length (pairsBelow compare buf search) ∧
    ∃ pair ∈ buf, compare pair search ≤ 0 := by
  by_cases fit : MidpointsFit (2 ^ 31) buf.length (pairsBelow compare buf search)
  · constructor
    · rintro ⟨_, result, returned, finds⟩
      refine ⟨fit, ?_⟩
      by_contra none
      have above : ∀ pair ∈ buf, 0 < compare pair search := by
        intro pair member
        by_contra low
        exact none ⟨pair, member, Int.not_lt.mp low⟩
      rw [pointerpairBsearchOrLess_above order sorted few fit above, Option.some.injEq] at returned
      subst returned
      rcases finds with ⟨index, pair, _, pairAt, low, _⟩ | ⟨wrong, _⟩
      · exact absurd low (Int.not_le.mpr (above pair (List.mem_of_getElem? pairAt)))
      · contradiction
    · rintro ⟨_, reached⟩
      refine ⟨?_, pointerpairBsearchOrLess_finds order sorted few fit reached⟩
      rcases pointerpairBsearch_exact order sorted few fit with
        ⟨index, pair, found, pairAt, equal⟩ | ⟨found, unequal⟩
      · exact ⟨some index, found, pair, pairAt, equal⟩
      · exact ⟨none, found, unequal⟩
  · refine iff_of_false ?_ (fun holds => fit holds.1)
    rintro ⟨⟨found, returned, _⟩, _⟩
    rw [pointerpairBsearch_overflows order sorted few fit] at returned
    contradiction

theorem pointerpairBsearches_iff_three :
    ((∃ found, pointerpairBsearch pointerpairComparePointerKey [⟨1, 0⟩, ⟨4, 0⟩, ⟨4, 0⟩] ⟨3,
      0⟩ = some found ∧
        BsearchFinds pointerpairComparePointerKey [⟨1, 0⟩, ⟨4, 0⟩, ⟨4, 0⟩] ⟨3, 0⟩ found) ∧
      ∃ result, pointerpairBsearchOrLess pointerpairComparePointerKey [⟨1, 0⟩, ⟨4, 0⟩, ⟨4, 0⟩] ⟨3,
        0⟩ = some result ∧
        OrLessFinds pointerpairComparePointerKey [⟨1, 0⟩, ⟨4, 0⟩, ⟨4, 0⟩] ⟨3, 0⟩ result) ↔
    MidpointsFit (2 ^ 31) 3 (pairsBelow pointerpairComparePointerKey [⟨1, 0⟩, ⟨4, 0⟩,
      ⟨4, 0⟩] ⟨3, 0⟩) ∧
      ∃ pair ∈ [⟨1, 0⟩, ⟨4, 0⟩, ⟨4, 0⟩], pointerpairComparePointerKey pair ⟨3, 0⟩ ≤ 0 :=
  pointerpairBsearches_iff pointerpairComparePointerKey pointerKeycallback_coincides.order _ _
    (by decide) (by decide)

/-- The only key is above the one looked for, and the result is its index. -/
theorem pointerpairBsearchOrLess_wrong :
    ¬ ∀ (buf : List Pointerpair) (search : Pointerpair), buf.length < 2 ^ 31 →
      (buf.Pairwise fun one other => pointerpairComparePointerKey one other ≤ 0) →
        (∃ found, pointerpairBsearch pointerpairComparePointerKey buf search = some found ∧
          BsearchFinds pointerpairComparePointerKey buf search found) ∧
        ∃ result, pointerpairBsearchOrLess pointerpairComparePointerKey buf search = some result ∧
          OrLessFinds pointerpairComparePointerKey buf search result := by
  intro finds
  obtain ⟨_, result, returned, right⟩ := finds [⟨5, 0⟩] ⟨3, 0⟩ (by decide) (by decide)
  have zero : pointerpairBsearchOrLess pointerpairComparePointerKey [⟨5, 0⟩] ⟨3, 0⟩ = some 0 := by
    decide
  rw [zero, Option.some.injEq] at returned
  subst returned
  rcases right with ⟨index, pair, _, pairAt, low, _⟩ | ⟨wrong, _⟩
  · rw [List.mem_singleton.mp (List.mem_of_getElem? pairAt)] at low
    exact absurd low (by decide)
  · contradiction

end Search

end MulleCore
