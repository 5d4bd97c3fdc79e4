import Mathlib.Data.List.InsertIdx
import MulleCore.Container.RangesetRuns

/-!
An insertion does not put entries in order that are out of order.
-/

namespace MulleCore

open Library

section Absent

variable {range : Range} {before after rest : List Range} {prev next : Range}
variable {ranges : List Range}

theorem sortedDisjoint_of_extended {longer : Range} (start : longer.start = prev.start)
    (stop : prev.stop ≤ longer.stop) (sorted : SortedDisjoint (before ++ longer :: after)) :
    SortedDisjoint (before ++ prev :: after) :=
  Apart.narrow spacing_le.widens sorted (le_of_eq start) stop

theorem sortedDisjoint_of_joined {joined : Range} (start : joined.start = prev.start)
    (stop : next.stop = joined.stop) (hole : prev.stop ≤ next.start)
    (prevNonempty : prev.start ≤ prev.stop) (nextNonempty : next.start ≤ next.stop)
    (sorted : SortedDisjoint (before ++ joined :: after)) :
    SortedDisjoint (before ++ prev :: next :: after) := by
  obtain ⟨beforeSorted, restSorted, crossing⟩ := List.pairwise_append.mp sorted
  obtain ⟨joinedBelow, afterSorted⟩ := List.pairwise_cons.mp restSorted
  refine List.pairwise_append.mpr ⟨beforeSorted,
    List.pairwise_cons.mpr ⟨?_, List.pairwise_cons.mpr ⟨?_, afterSorted⟩⟩, ?_⟩
  · intro other member
    rcases List.mem_cons.mp member with rfl | inAfter
    · exact hole
    · have order := joinedBelow other inAfter
      omega
  · intro other member
    have order := joinedBelow other member
    omega
  · intro low lowMember high highMember
    have order := crossing low lowMember joined List.mem_cons_self
    rcases List.mem_cons.mp highMember with rfl | later
    · omega
    · rcases List.mem_cons.mp later with rfl | inAfter
      · omega
      · exact crossing low lowMember high (List.mem_cons_of_mem joined inAfter)

theorem coalesceNext_sorted {coalesced : List Range} {index : Nat} {hasPrev : Bool}
    (rangeProper : range.Proper) (proper : AllProper ranges) (positive : hasPrev = true → 0 < index)
    (result : rangesetCoalesceNext ranges index range hasPrev = some coalesced)
    (sorted : SortedDisjoint coalesced) :
    SortedDisjoint ranges := by
  rw [rangesetCoalesceNext] at result
  split at result
  · rename_i bound
    obtain ⟨before, after, splits, sized⟩ := exists_splice bound
    generalize ranges[index] = next at splits
    subst splits sized
    have nextProper := proper next (by simp)
    have nextNonempty := nextProper.start_lt_stop
    rw [rangeAt_splice] at result
    dsimp only at result
    split at result
    · rename_i touching
      have adjacent : range.stop = next.start := (rangeGetMax_eq_location rangeProper).mp touching
      split at result
      · rename_i joins
        obtain ⟨has, meeting⟩ := joins
        rcases List.eq_nil_or_concat' before with rfl | ⟨front, prev, rfl⟩
        · exact absurd (positive has) (Nat.lt_irrefl 0)
        · have previous :
            rangeAt (front ++ [prev] ++ next :: after) ((front ++ [prev]).length - 1) = prev := by
              simp [rangeAt]
          have place : (front ++ [prev]).length - 1 = front.length := by simp
          have behind : (front ++ [prev]).length = front.length + 1 := by simp
          rw [previous] at meeting result
          have prevProper := proper prev (by simp)
          have prevNonempty := prevProper.start_lt_stop
          have together : prev.stop = next.start := (rangeGetMax_eq_location prevProper).mp meeting
          rw [place, behind, List.append_assoc, List.singleton_append, set_splice,
            eraseIdx_splice_succ, Option.some.injEq] at result
          rw [List.append_assoc, List.singleton_append]
          subst result
          have whole : SortedDisjoint (front ++ prev.lengthen next :: after) := sorted
          have start : (prev.lengthen next).start = prev.start := rfl
          exact sortedDisjoint_of_joined start (Range.lengthen_stop nextProper together).symm
            (le_of_eq together) (Nat.le_of_lt prevNonempty) (Nat.le_of_lt nextNonempty) whole
      · rw [set_splice, Option.some.injEq] at result
        subst result
        have rangeNonempty := rangeProper.start_lt_stop
        have start : (next.extendFront range).start = range.start := Range.extendFront_start adjacent
        exact Apart.narrow spacing_le.widens sorted
          (by change (next.extendFront range).start ≤ _; omega)
          (le_of_eq (Range.extendFront_stop nextProper adjacent).symm)
    · cases result
  · cases result

theorem coalescePrev_sorted (index : Nat) (rangeProper : range.Proper) (proper : AllProper ranges) :
    AllProper (rangesetCoalescePrev ranges index range).1 ∧
      (SortedDisjoint (rangesetCoalescePrev ranges index range).1 → SortedDisjoint ranges) ∧
      ((rangesetCoalescePrev ranges index range).2 = true → 0 < index) := by
  rw [rangesetCoalescePrev]
  split
  · rename_i positive
    dsimp only
    split
    · rename_i touching
      by_cases bound : index - 1 < ranges.length
      · obtain ⟨before, after, splits, sized⟩ := exists_splice bound
        generalize ranges[index - 1] = prev at splits
        subst splits
        rw [← sized, rangeAt_splice] at touching ⊢
        have prevProper := proper prev (by simp)
        have adjacent : prev.stop = range.start := (rangeGetMax_eq_location prevProper).mp touching
        have stop := Range.lengthen_stop rangeProper adjacent
        have rangeNonempty := rangeProper.start_lt_stop
        rw [set_splice]
        refine ⟨?_, ?_, fun _ => Nat.pos_of_ne_zero positive⟩
        · intro other member
          rw [List.mem_append, List.mem_cons] at member
          rcases member with inBefore | rfl | inAfter
          · exact proper other (by simp [inBefore])
          · exact Range.lengthen_proper prevProper rangeProper adjacent
          · exact proper other (by simp [inAfter])
        · intro sorted
          have start : (prev.lengthen range).start = prev.start := rfl
          exact sortedDisjoint_of_extended start (by omega) sorted
      · rw [List.set_eq_of_length_le (Nat.not_lt.mp bound)]
        exact ⟨proper, id, fun _ => Nat.pos_of_ne_zero positive⟩
    · exact ⟨proper, id, fun has => absurd has Bool.false_ne_true⟩
  · exact ⟨proper, id, fun has => absurd has Bool.false_ne_true⟩

theorem rangesetInsertKnownAbsent_sorted {p r : Rangeset} (rangeProper : range.Proper)
    (proper : AllProper p.ranges) (result : rangesetInsertKnownAbsent p range = some r)
    (sorted : SortedDisjoint r.ranges) : SortedDisjoint p.ranges := by
  rw [rangesetInsertKnownAbsent, if_neg ((range_proper_iff range).mp rangeProper).1] at result
  generalize rangeHoleBsearch p.ranges range.location = index at result
  obtain ⟨extendedProper, extendedSorted, positive⟩ := coalescePrev_sorted index rangeProper proper
  dsimp only at result
  cases next : rangesetCoalesceNext (rangesetCoalescePrev p.ranges index range).1 index range
      (rangesetCoalescePrev p.ranges index range).2 with
  | some coalesced =>
    rw [next] at result
    obtain rfl := Option.some.inj result
    exact extendedSorted (coalesceNext_sorted rangeProper extendedProper positive next sorted)
  | none =>
    rw [next] at result
    dsimp only at result
    split at result
    · obtain rfl := Option.some.inj result
      exact extendedSorted sorted
    · obtain ⟨grown, movedEq, moved⟩ := rangesetMoveUp_some p index range
      rw [result] at movedEq
      obtain rfl := Option.some.inj movedEq
      rw [moved] at sorted
      exact List.Pairwise.sublist (List.sublist_insertIdx p.ranges index range) sorted

end Absent

section Overlapping

variable {range : Range} {low high : List Range}
variable {index : Nat}

theorem rangeAt_append (bound : index < low.length) :
    rangeAt (low ++ high) index = rangeAt low index := by
  rw [rangeAt, rangeAt, List.getD_append _ _ _ _ bound]

theorem widenFront_append (bound : index < low.length) :
    rangesetOverflowFront.rangesetWidenFront range (low ++ high) index =
      rangesetOverflowFront.rangesetWidenFront range low index ++ high := by
  rw [rangesetOverflowFront.rangesetWidenFront, rangesetOverflowFront.rangesetWidenFront,
    rangeAt_append bound]
  split
  · exact List.set_append_left _ _ bound
  · rfl

theorem widenFront_length (ranges : List Range) (index : Nat) :
    (rangesetOverflowFront.rangesetWidenFront range ranges index).length = ranges.length := by
  rw [rangesetOverflowFront.rangesetWidenFront]
  split
  · exact List.length_set
  · rfl

theorem overflowFront_append (high : List Range) :
    ∀ (prev : Nat) (low : List Range), prev < low.length →
    rangesetOverflowFront range prev (low ++ high) =
        ((rangesetOverflowFront range prev low).1 ++ high, (rangesetOverflowFront range prev low).2) ∧
      (rangesetOverflowFront range prev low).2 < (rangesetOverflowFront range prev low).1.length := by
  intro prev
  induction prev with
  | zero =>
    intro low bound
    rw [rangesetOverflowFront, rangesetOverflowFront, widenFront_append bound]
    exact ⟨rfl, by rw [widenFront_length]; exact bound⟩
  | succ prev ih =>
    intro low bound
    have earlier : prev < low.length := Nat.lt_of_succ_lt bound
    rw [rangesetOverflowFront, rangesetOverflowFront, rangeAt_append bound, rangeAt_append earlier]
    dsimp only
    split
    · rw [widenFront_append bound]
      exact ⟨rfl, by rw [widenFront_length]; exact bound⟩
    · rw [List.set_append_left _ _ earlier,
        List.eraseIdx_append_of_lt_length (by rw [List.length_set]; exact bound)]
      exact ih _ (by rw [List.length_eraseIdx_of_lt (by rw [List.length_set]; exact bound), List.length_set]; omega)

theorem overflowBack_append (rangeProper : range.Proper) (highProper : AllProper high)
    (misses : ∀ other ∈ high, ¬other.Meets range) (index : Nat) :
    ∀ (fuel : Nat) (low result : List Range), index < low.length →
      rangesetOverflowBack range index fuel low = some result →
      ∀ more, rangesetOverflowBack range index (fuel + more) (low ++ high) =
        some (result ++ high) := by
  intro fuel
  induction fuel with
  | zero =>
    intro low result _ ended
    rw [rangesetOverflowBack] at ended
    cases ended
  | succ fuel ih =>
    intro low result bound ended more
    rw [rangesetOverflowBack] at ended
    rw [Nat.succ_add_eq_add_succ, Nat.add_succ, rangesetOverflowBack, rangeAt_append bound]
    dsimp only at ended ⊢
    by_cases stops : index + 1 ≥ low.length ∨
      (rangeIntersection (rangeAt low (index + 1)) range).length = 0
    · have stopsToo : index + 1 ≥ (low ++ high).length ∨
          (rangeIntersection (rangeAt (low ++ high) (index + 1)) range).length = 0 := by
        by_cases inside : index + 1 < low.length
        · rw [rangeAt_append inside]
          exact Or.inr (stops.resolve_left (by omega))
        · have last : index + 1 = low.length := by omega
          cases high with
          | nil => exact Or.inl (by simp; omega)
          | cons next rest =>
            refine Or.inr (not_not.mp (mt ?_ (misses next List.mem_cons_self)))
            rw [last, rangeAt_splice]
            exact (rangeIntersection_length_ne_zero highProper.head rangeProper).mp
      rw [if_pos stops] at ended
      rw [if_pos stopsToo]
      split at ended
      · rename_i longer
        rw [if_pos longer, List.set_append_left _ _ bound]
        exact congrArg (fun list => some (list ++ high)) (Option.some.inj ended)
      · rename_i enough
        rw [if_neg enough]
        exact congrArg (fun list => some (list ++ high)) (Option.some.inj ended)
    · rw [not_or, ge_iff_le, Nat.not_le] at stops
      have goesOn : ¬ (index + 1 ≥ (low ++ high).length ∨
          (rangeIntersection (rangeAt (low ++ high) (index + 1)) range).length = 0) := by
        rw [rangeAt_append stops.1, not_or]
        exact ⟨by rw [List.length_append]; omega, stops.2⟩
      rw [if_neg (by rw [not_or, ge_iff_le, Nat.not_le]; exact stops)] at ended
      rw [if_neg goesOn, rangeAt_append stops.1, List.set_append_left _ _ bound,
        List.eraseIdx_append_of_lt_length (by rw [List.length_set]; exact stops.1)]
      exact ih _ result (by rw [List.length_eraseIdx_of_lt (by rw [List.length_set]; exact stops.1), List.length_set]; omega)
        ended more

theorem rangesetInsertOverlapping_append (rangeProper : range.Proper) (highProper : AllProper high)
    (misses : ∀ other ∈ high, ¬other.Meets range) {found : Nat} (bound : found < low.length)
    {result : List Range} (inserted : rangesetInsertOverlapping low range found = some result) :
    rangesetInsertOverlapping (low ++ high) range found = some (result ++ high) := by
  rw [rangesetInsertOverlapping, rangeAt_append bound] at *
  split at inserted
  · rename_i contains
    rw [if_pos contains]
    exact congrArg (fun list => some (list ++ high)) (Option.some.inj inserted)
  · rename_i reaches
    rw [if_neg reaches]
    obtain ⟨frontAppend, frontBound⟩ := @overflowFront_append range high found low bound
    have front : (if range.location < (rangeAt low found).location then
      rangesetOverflowFront range found (low ++ high)
        else (low ++ high, found)) =
        ((if range.location < (rangeAt low found).location then
          rangesetOverflowFront range found low else (low, found)).1 ++ high,
          (if range.location < (rangeAt low found).location then
            rangesetOverflowFront range found low else (low, found)).2) := by
      split
      · exact frontAppend
      · rfl
    have inside : (if range.location < (rangeAt low found).location then
      rangesetOverflowFront range found low
        else (low, found)).2 < (if range.location < (rangeAt low found).location then
          rangesetOverflowFront range found low
        else (low, found)).1.length := by
      split
      · exact frontBound
      · exact bound
    rw [front]
    generalize (if range.location < (rangeAt low found).location then
      rangesetOverflowFront range found low
      else (low, found)) = widened at inserted inside ⊢
    obtain ⟨ranges, curr⟩ := widened
    dsimp only at inserted inside ⊢
    rw [rangeAt_append inside]
    split at inserted
    · rename_i further
      have fuel : (ranges ++ high).length + 1 = ranges.length + 1 + high.length := by
        rw [List.length_append]
        omega
      rw [if_pos further, fuel]
      exact overflowBack_append rangeProper highProper misses curr _ ranges result inside
        inserted high.length
    · rename_i enough
      rw [if_neg enough]
      exact congrArg (fun list => some (list ++ high)) (Option.some.inj inserted)

end Overlapping

section Insert

variable {range : Range}
variable {buf : List Range}

def HitMeets (buf : List Range) (range : Range) : Bisected Nat → Prop
  | .found index => ∃ bound : index < buf.length, buf[index].Meets range
  | .missing _ | .overflow | .endless => True

theorem rangeIntersectsWindow_hitMeets (proper : AllProper buf) (searchProper : range.Proper) :
    HitMeets buf range (rangeIntersectsWindow buf range) := by
  refine bisectFrom_rule (WindowSound buf (fun _ => True) (fun _ => True)) ?_ ?_ _ _ _
    (WindowSound.whole buf _ _) (by omega)
  · intro first last window ordered
    obtain ⟨lower, upper⟩ := tdiv_two_between window.nonneg ordered
    refine ⟨_, rfl, lower, upper, ?_⟩
    obtain ⟨middle, middleEq⟩ := Int.eq_ofNat_of_zero_le (le_trans window.nonneg lower)
    rw [middleEq] at lower upper ⊢
    have nonneg := window.nonneg
    have inside := window.inside
    have bound : middle < buf.length := by omega
    rw [rangeIntersectsProbe, Int.toNat_natCast, rangeAt_eq bound]
    split
    · split
      · rename_i meets
        exact ⟨bound, (rangeIntersection_length_ne_zero (proper _ (List.getElem_mem bound))
          searchProper).mp meets⟩
      · exact ⟨by omega, inside, by omega, fun _ _ _ => trivial, fun _ _ _ => trivial⟩
    · exact ⟨nonneg, by omega, by omega, fun _ _ _ => trivial, fun _ _ _ => trivial⟩
  · exact fun first last window crossed => ⟨rfl, trivial⟩

theorem rangeIntersectsBsearch_meets (proper : AllProper buf) (searchProper : range.Proper)
    {index : Nat} (found : rangeIntersectsBsearch buf range = some index) : ∃ bound :
    index < buf.length, buf[index].Meets range := by
  have outcome := rangeIntersectsWindow_hitMeets proper searchProper
  rw [rangeIntersectsBsearch] at found
  split at found
  · cases found
  · split at found
    · cases found
    · cases window : rangeIntersectsWindow buf range with
      | found hit =>
        rw [window] at found outcome
        obtain rfl := Option.some.inj found
        exact outcome
      | missing last => simp [window, Bisected.hit] at found
      | overflow => simp [window, Bisected.hit] at found
      | endless => simp [window, Bisected.hit] at found

theorem rangesetInsertRange_unsorted {low high : List Range} {lower higher : Range} {p r : Rangeset}
    (rangeProper : range.Proper) (lowProper : AllProper low) (lowSorted : SortedDisjoint low)
    (highProper : AllProper high) (beyond : ∀ other ∈ high, range.stop ≤ other.start)
    (inLow : lower ∈ low) (inHigh : higher ∈ high) (crossed : higher.start < lower.stop)
    (ranges : p.ranges = low ++ high) (result : rangesetInsertRange p range = some r) :
    ¬ SortedDisjoint r.ranges := by
  intro sorted
  have proper : AllProper p.ranges := ranges ▸ allProper_append.mpr ⟨lowProper, highProper⟩
  obtain ⟨nonempty, valid⟩ := (range_proper_iff range).mp rangeProper
  rw [rangesetInsertRange, if_neg nonempty, if_neg (by simp [valid])] at result
  cases found : rangeIntersectsBsearch p.ranges range with
  | none =>
    rw [found] at result
    have before := rangesetInsertKnownAbsent_sorted rangeProper proper result sorted
    rw [ranges] at before
    have order := (List.pairwise_append.mp before).2.2 lower inLow higher inHigh
    omega
  | some index =>
    rw [found] at result
    obtain ⟨bound, meets⟩ := rangeIntersectsBsearch_meets proper rangeProper found
    have misses : ∀ other ∈ high, ¬other.Meets range := by
      rintro other member ⟨starts, _⟩
      have order := beyond other member
      omega
    simp only [ranges] at bound meets result
    have inside : index < low.length := by
      by_contra outside
      rw [List.getElem_append_right (Nat.not_lt.mp outside)] at meets
      exact misses _ (List.getElem_mem _) meets
    rw [List.getElem_append_left inside] at meets
    obtain ⟨below, above⟩ := roomAround_le { p with ranges := low } range
    obtain ⟨inserted, before, middle, after, hull, insertedEq, -, -, absorbs⟩ :=
      rangesetInsertOverlapping_absorbs spacing_le rangeProper lowProper lowSorted inside
        meets below above
    rw [rangesetInsertOverlapping_append rangeProper highProper misses inside insertedEq] at result
    obtain rfl := Option.some.inj result
    have lowerNonempty := (lowProper lower inLow).start_lt_stop
    have covered : lower.stop - 1 ∈ cover Range.start Range.stop inserted := by
      rw [absorbs.cover_eq]
      exact Or.inl ⟨lower, inLow, by omega, by omega⟩
    obtain ⟨holder, member, _, upper⟩ := covered
    have order := (List.pairwise_append.mp sorted).2.2 holder member higher inHigh
    omega

end Insert

end MulleCore
