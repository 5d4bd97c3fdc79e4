import MulleCore.Library.Bisect
import MulleCore.Data.Range

/-!
The binary searches of `mulle-range.c` over a sorted array of ranges. An array
of ranges is far too short for `first + last` to leave `intptr_t`.
-/

namespace MulleCore

open Library

variable {entry : Range} {rest buf : List Range} {range search : Range}

abbrev Disjointed (gap : Nat → Nat → Prop) (buf : List Range) : Prop :=
  Apart Range.start Range.stop gap buf

abbrev SortedDisjoint (buf : List Range) : Prop :=
  Ordered Range.start Range.stop buf

def AllProper (buf : List Range) : Prop :=
  ∀ entry ∈ buf, entry.Proper

instance (buf : List Range) : Decidable (AllProper buf) := by
  unfold AllProper
  infer_instance

theorem AllProper.head (proper : AllProper (entry :: rest)) :
    entry.Proper :=
  proper entry List.mem_cons_self

theorem AllProper.tail (proper : AllProper (entry :: rest)) :
    AllProper rest :=
  fun other member => proper other (List.mem_cons_of_mem entry member)

theorem allProper_append {left right : List Range} :
    AllProper (left ++ right) ↔ AllProper left ∧ AllProper right := by
  simp only [AllProper, List.mem_append]
  constructor
  · intro proper
    exact ⟨fun entry member => proper entry (Or.inl member),
      fun entry member => proper entry (Or.inr member)⟩
  · rintro ⟨leftProper, rightProper⟩ entry (member | member)
    · exact leftProper entry member
    · exact rightProper entry member

def rangeAt (buf : List Range) (index : Nat) : Range :=
  buf.getD index rangeZero

def rangeHoleProbe (buf : List Range) (searchLocation : UInt64) (last middle : Int) : Probe Nat :=
  if (rangeAt buf middle.toNat).location < searchLocation then
    if middle = last ∨ (rangeAt buf (middle + 1).toNat).location > searchLocation then
      .hit (middle + 1).toNat
    else .right
  else .left

def rangeHoleWindow (buf : List Range) (searchLocation : UInt64) : Bisected Nat :=
  bisectFrom midpoint (rangeHoleProbe buf searchLocation) (buf.length + 1) 0 (buf.length - 1)

def rangeHoleBsearch (buf : List Range) (searchLocation : UInt64) : Nat :=
  if buf.isEmpty then 0
  else
    match rangeHoleWindow buf searchLocation with
    | .found index => index
    | .missing last => (last + 1).toNat
    | .overflow | .endless => 0

def rangeIntersectsProbe (buf : List Range) (search : Range) (_last middle : Int) : Probe Nat :=
  if (rangeAt buf middle.toNat).location < rangeGetMax search then
    if (rangeIntersection (rangeAt buf middle.toNat) search).length ≠ 0 then .hit middle.toNat
    else .right
  else .left

def rangeIntersectsWindow (buf : List Range) (search : Range) : Bisected Nat :=
  bisectFrom midpoint (rangeIntersectsProbe buf search) (buf.length + 1) 0 (buf.length - 1)

def rangeIntersectsBsearch (buf : List Range) (search : Range) : Option Nat :=
  if rangeIsValid search = false then none
  else if buf.isEmpty ∨ search.length = 0 then none
  else (rangeIntersectsWindow buf search).hit

theorem rangeAt_eq {index : Nat} (bound : index < buf.length) :
    rangeAt buf index = buf[index] := by
  simp [rangeAt, bound]

structure WindowSound (buf : List Range) (below above : Range → Prop) (first last : Int) :
    Prop where
  nonneg : 0 ≤ first
  inside : last < buf.length
  adjacent : first ≤ last + 1
  left : ∀ index, (bound : index < buf.length) → (index : Int) < first → below buf[index]
  right : ∀ index, (bound : index < buf.length) → last < (index : Int) → above buf[index]

theorem WindowSound.whole (buf : List Range) (below above : Range → Prop) :
    WindowSound buf below above 0 (buf.length - 1) where
  nonneg := by omega
  inside := by omega
  adjacent := by omega
  left := by intro index _ negative; omega
  right := by intro index bound beyond; omega

def HoleAt (buf : List Range) (searchLocation : UInt64) (index : Nat) : Prop :=
  index ≤ buf.length ∧
    (∀ other, (bound : other < buf.length) → other < index →
      buf[other].start < searchLocation.toNat) ∧
    (∀ other, (bound : other < buf.length) → index ≤ other →
      searchLocation.toNat ≤ buf[other].start)

def HoleOutcome (buf : List Range) (searchLocation : UInt64) : Bisected Nat → Prop
  | .found index => HoleAt buf searchLocation index
  | .missing last => HoleAt buf searchLocation (last + 1).toNat
  | .overflow | .endless => False

theorem SortedDisjoint.start_lt (sorted : SortedDisjoint buf)
    (proper : AllProper buf) {first second : Nat} (below : first < second)
    (firstBound : first < buf.length) (bound : second < buf.length) :
    buf[first].start < buf[second].start :=
  lt_of_lt_of_le (proper _ (List.getElem_mem _)).start_lt_stop
    (sorted.getElem below firstBound bound)

theorem rangeHoleWindow_outcome (sorted : SortedDisjoint buf)
    (proper : AllProper buf) (searchLocation : UInt64) :
    HoleOutcome buf searchLocation (rangeHoleWindow buf searchLocation) := by
  refine bisectFrom_rule
    (WindowSound buf (fun entry => entry.start < searchLocation.toNat)
      (fun entry => searchLocation.toNat ≤ entry.start)) ?_ ?_ _ _ _ (WindowSound.whole buf _ _) (by
        omega)
  · intro first last window ordered
    obtain ⟨lower, upper⟩ := tdiv_two_between window.nonneg ordered
    refine ⟨_, rfl, lower, upper, ?_⟩
    obtain ⟨middle, middleEq⟩ := Int.eq_ofNat_of_zero_le (le_trans window.nonneg lower)
    rw [middleEq] at lower upper ⊢
    have nonneg := window.nonneg
    have inside := window.inside
    have bound : middle < buf.length := by omega
    rw [rangeHoleProbe, Int.toNat_natCast, rangeAt_eq bound]
    by_cases below : buf[middle].location < searchLocation
    · rw [if_pos below]
      rw [UInt64.lt_iff_toNat_lt] at below
      have leftOf : ∀ index, (indexBound : index < buf.length) → index ≤ middle →
          buf[index].start < searchLocation.toNat := by
        intro index indexBound within
        rcases Nat.lt_or_eq_of_le within with before | rfl
        · exact lt_trans (sorted.start_lt proper before indexBound bound) below
        · exact below
      split
      · rename_i final
        refine ⟨by omega, fun other otherBound before => leftOf other otherBound (by omega), ?_⟩
        intro other otherBound beyond
        rcases final with atEnd | above
        · exact window.right other otherBound (by omega)
        · have nextBound : middle + 1 < buf.length := by omega
          rw [show ((middle : Int) + 1).toNat = middle + 1 by omega, rangeAt_eq nextBound,
            gt_iff_lt, UInt64.lt_iff_toNat_lt] at above
          rcases Nat.lt_or_eq_of_le (show middle + 1 ≤ other by omega) with after | rfl
          · exact le_of_lt (lt_trans above (sorted.start_lt proper after nextBound otherBound))
          · exact le_of_lt above
      · exact ⟨by omega, inside, by omega,
          fun index indexBound before => leftOf index indexBound (by omega), window.right⟩
    · rw [if_neg below]
      rw [UInt64.lt_iff_toNat_lt] at below
      refine ⟨nonneg, by omega, by omega, window.left, ?_⟩
      intro index indexBound beyond
      rcases Nat.lt_or_eq_of_le (show middle ≤ index by omega) with after | rfl
      · exact le_trans (not_lt.mp below) (le_of_lt (sorted.start_lt proper after bound indexBound))
      · exact not_lt.mp below
  · intro first last window crossed
    have nonneg := window.nonneg
    have inside := window.inside
    have adjacent := window.adjacent
    refine ⟨rfl, by omega, ?_, ?_⟩
    · intro other otherBound before
      exact window.left other otherBound (by omega)
    · intro other otherBound beyond
      exact window.right other otherBound (by omega)

theorem rangeHoleBsearch_holeAt (sorted : SortedDisjoint buf)
    (proper : AllProper buf) (searchLocation : UInt64) :
    HoleAt buf searchLocation (rangeHoleBsearch buf searchLocation) := by
  have outcome := rangeHoleWindow_outcome sorted proper searchLocation
  rw [rangeHoleBsearch]
  split
  · rename_i empty
    rw [List.isEmpty_iff] at empty
    subst empty
    exact ⟨le_rfl, fun other bound => absurd bound (Nat.not_lt_zero other),
      fun other bound => absurd bound (Nat.not_lt_zero other)⟩
  · cases window : rangeHoleWindow buf searchLocation with
    | found index => simpa [window, HoleOutcome] using outcome
    | missing last => simpa [window, HoleOutcome] using outcome
    | overflow => simp [window, HoleOutcome] at outcome
    | endless => simp [window, HoleOutcome] at outcome

theorem stop_le_of_not_meets (starts : entry.start < range.stop)
    (misses : ¬entry.Meets range) : entry.stop ≤ range.start := by
  by_contra reaches
  exact misses ⟨starts, not_le.mp reaches⟩

theorem le_start_of_not_meets (reaches : range.start < entry.stop)
    (misses : ¬entry.Meets range) : range.stop ≤ entry.start := by
  by_contra starts
  exact misses ⟨not_le.mp starts, reaches⟩

theorem rangeHoleBsearch_splits (sorted : SortedDisjoint buf)
    (proper : AllProper buf) (rangeProper : range.Proper)
    (misses : ∀ other ∈ buf, ¬other.Meets range) :
    ∃ before after, buf = before ++ after ∧
      before.length = rangeHoleBsearch buf range.location ∧
      (∀ other ∈ before, other.stop ≤ range.start) ∧
      ∀ other ∈ after, range.stop ≤ other.start := by
  have rangeNonempty := rangeProper.start_lt_stop
  obtain ⟨within, lower, upper⟩ := rangeHoleBsearch_holeAt sorted proper range.location
  generalize rangeHoleBsearch buf range.location = index at within lower upper ⊢
  obtain ⟨before, after, rfl, rfl⟩ :
      ∃ before after, buf = before ++ after ∧ before.length = index :=
    ⟨buf.take index, buf.drop index, by simp, by simpa using within⟩
  refine ⟨before, after, rfl, rfl, ?_, ?_⟩
  · intro other member
    obtain ⟨place, placeBound, rfl⟩ := List.mem_iff_getElem.mp member
    have starts := lower place (by simp; omega) placeBound
    simp only [List.getElem_append_left placeBound] at starts
    change before[place].start < range.start at starts
    exact stop_le_of_not_meets (by omega) (misses _ (by simp))
  · intro other member
    have otherNonempty := (proper other (by simp [member])).start_lt_stop
    obtain ⟨place, placeBound, rfl⟩ := List.mem_iff_getElem.mp member
    have starts := upper (before.length + place) (by simp; omega) (by omega)
    simp only [List.getElem_append_right (Nat.le_add_right _ _),
      Nat.add_sub_cancel_left] at starts
    change range.start ≤ after[place].start at starts
    exact le_start_of_not_meets (by omega) (misses _ (by simp))

def IntersectsOutcome (buf : List Range) (search : Range) : Bisected Nat → Prop
  | .found index => ∃ bound : index < buf.length, buf[index].Meets search
  | .missing _ => ∀ entry ∈ buf, ¬entry.Meets search
  | .overflow | .endless => False

theorem rangeIntersectsWindow_outcome (sorted : SortedDisjoint buf)
    (proper : AllProper buf) (searchProper : search.Proper) :
    IntersectsOutcome buf search (rangeIntersectsWindow buf search) := by
  refine bisectFrom_rule
    (WindowSound buf (fun entry => ¬entry.Meets search) (fun entry => ¬entry.Meets search)) ?_ ?_ _
      _ _ (WindowSound.whole buf _ _) (by omega)
  · intro first last window ordered
    obtain ⟨lower, upper⟩ := tdiv_two_between window.nonneg ordered
    refine ⟨_, rfl, lower, upper, ?_⟩
    obtain ⟨middle, middleEq⟩ := Int.eq_ofNat_of_zero_le (le_trans window.nonneg lower)
    rw [middleEq] at lower upper ⊢
    have nonneg := window.nonneg
    have inside := window.inside
    have bound : middle < buf.length := by omega
    have middleProper : buf[middle].Proper := proper _ (List.getElem_mem _)
    have middleNonempty := middleProper.start_lt_stop
    rw [rangeIntersectsProbe, Int.toNat_natCast, rangeAt_eq bound]
    by_cases below : buf[middle].location < rangeGetMax search
    · rw [if_pos below]
      rw [UInt64.lt_iff_toNat_lt, searchProper.getMax_toNat] at below
      have meetsIff := rangeIntersection_length_ne_zero middleProper searchProper
      by_cases meets : buf[middle].Meets search
      · rw [if_pos (meetsIff.mpr meets)]
        exact ⟨bound, meets⟩
      · rw [if_neg (mt meetsIff.mp meets)]
        have ends : buf[middle].stop ≤ search.start := by
          by_contra overlap
          exact meets ⟨below, not_le.mp overlap⟩
        refine ⟨by omega, inside, by omega, ?_, window.right⟩
        rintro index indexBound before ⟨-, reaches⟩
        rcases Nat.lt_or_eq_of_le (show index ≤ middle by omega) with earlier | rfl
        · have apart := sorted.getElem earlier indexBound bound
          omega
        · omega
    · rw [if_neg below]
      rw [UInt64.lt_iff_toNat_lt, searchProper.getMax_toNat] at below
      refine ⟨nonneg, by omega, by omega, window.left, ?_⟩
      rintro index indexBound beyond ⟨starts, -⟩
      have middleStart : buf[middle].location.toNat = buf[middle].start := rfl
      rcases Nat.lt_or_eq_of_le (show middle ≤ index by omega) with after | rfl
      · have apart := sorted.start_lt proper after bound indexBound
        omega
      · omega
  · intro first last window crossed
    refine ⟨rfl, ?_⟩
    intro entry member
    obtain ⟨index, indexBound, rfl⟩ := List.mem_iff_getElem.mp member
    have adjacent := window.adjacent
    by_cases before : (index : Int) < first
    · exact window.left index indexBound before
    · exact window.right index indexBound (by omega)

theorem rangeIntersectsBsearch_outcome (sorted : SortedDisjoint buf)
    (proper : AllProper buf) (searchProper : search.Proper) :
    match rangeIntersectsBsearch buf search with
    | some index => ∃ bound : index < buf.length, buf[index].Meets search
    | none => ∀ entry ∈ buf, ¬entry.Meets search := by
  have outcome := rangeIntersectsWindow_outcome sorted proper searchProper
  obtain ⟨nonempty, valid⟩ := (range_proper_iff search).mp searchProper
  rw [rangeIntersectsBsearch, if_neg (by simp [valid])]
  split
  · rename_i index found
    split at found
    · exact absurd found (by simp)
    · cases window : rangeIntersectsWindow buf search <;>
        simp_all [IntersectsOutcome, Bisected.hit]
  · rename_i found
    split at found
    · rename_i empty
      rcases empty with isEmpty | lengthZero
      · rw [List.isEmpty_iff] at isEmpty
        simp [isEmpty]
      · exact absurd lengthZero nonempty
    · cases window : rangeIntersectsWindow buf search <;>
        simp_all [IntersectsOutcome, Bisected.hit]

end MulleCore
