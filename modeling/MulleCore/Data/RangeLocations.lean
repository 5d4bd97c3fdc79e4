import MulleCore.Data.RangeSearch

/-!
The functions of `mulle-range.h` that relate a range to a single location, and the binary search
for an entry that holds a whole range.
-/

namespace MulleCore

open Library

def rangeIntersects (range other : Range) : Bool :=
  let end1 := rangeGetMax range
  let end2 := rangeGetMax other
  let least := if end1 < end2 then end1 else end2
  let location := if range.location > other.location then range.location else other.location
  decide (least > location)

def rangeGetLastLocation (range : Range) : UInt64 :=
  if range.length = 0 then notFound else range.location + range.length - 1

def rangeLessThanOrEqualToLocation (range : Range) (location : UInt64) : Bool :=
  if range.length = 0 then false else decide (rangeGetLastLocation range ≤ location)

def rangeGreaterThanOrEqualToLocation (range : Range) (location : UInt64) : Bool :=
  if range.length = 0 then false else decide (range.location ≥ location)

def rangeDistanceToLocation (range : Range) (location : UInt64) : UInt64 :=
  if range.length = 0 then 0xffffffffffffffff
  else if location ≥ range.location then
    if location < rangeGetMax range then 0 else location - rangeGetLastLocation range
  else range.location - location

def rangeContainsProbe (buf : List Range) (search : Range) (_last middle : Int) : Probe Nat :=
  if (rangeAt buf middle.toNat).location ≤ search.location then
    if rangeContains (rangeAt buf middle.toNat) search then .hit middle.toNat else .right
  else .left

def rangeContainsWindow (buf : List Range) (search : Range) : Bisected Nat :=
  bisectFrom midpoint (rangeContainsProbe buf search) (buf.length + 1) 0 (buf.length - 1)

def rangeContainsBsearch (buf : List Range) (search : Range) : Option Nat :=
  if rangeIsValid search = false then none else (rangeContainsWindow buf search).hit

section Proper

variable {range : Range}
variable {location : UInt64}

section

variable (proper : range.Proper)
include proper

theorem Range.Proper.length_ne_zero : range.length ≠ 0 :=
  ((range_proper_iff range).mp proper).1

theorem Range.Proper.lastLocation_toNat :
    (rangeGetLastLocation range).toNat = range.stop - 1 := by
  have nonempty := proper.start_lt_stop
  have maximum := proper.getMax_toNat
  rw [rangeGetMax] at maximum
  rw [rangeGetLastLocation, if_neg proper.length_ne_zero, UInt64.toNat_sub_of_le, maximum]
  · rfl
  · rw [UInt64.le_iff_toNat_le, maximum]
    change 1 ≤ _
    omega

theorem rangeIntersects_iff {other : Range} (otherProper : other.Proper) :
    rangeIntersects range other = true ↔ range.Meets other := by
  have nonempty := proper.start_lt_stop
  have otherNonempty := otherProper.start_lt_stop
  have least := toNat_least (rangeGetMax range) (rangeGetMax other)
  have greatest := toNat_greatest range.location other.location
  rw [proper.getMax_toNat, otherProper.getMax_toNat] at least
  change _ = max range.start other.start at greatest
  rw [rangeIntersects, decide_eq_true_eq, gt_iff_lt, UInt64.lt_iff_toNat_lt, least,
    greatest, Range.Meets, Library.Meets]
  omega

theorem rangeLessThanOrEqualToLocation_iff (location : UInt64) :
    rangeLessThanOrEqualToLocation range location = true ↔ range.stop ≤ location.toNat + 1 := by
  rw [rangeLessThanOrEqualToLocation, if_neg proper.length_ne_zero, decide_eq_true_eq,
    UInt64.le_iff_toNat_le, proper.lastLocation_toNat]
  omega

theorem rangeGreaterThanOrEqualToLocation_iff (location : UInt64) :
    rangeGreaterThanOrEqualToLocation range location = true ↔ location.toNat ≤ range.start := by
  rw [rangeGreaterThanOrEqualToLocation, if_neg proper.length_ne_zero, decide_eq_true_eq, ge_iff_le,
    UInt64.le_iff_toNat_le]
  rfl

theorem rangeDistanceToLocation_below (below : range.stop ≤ location.toNat) :
    (rangeDistanceToLocation range location).toNat = location.toNat + 1 - range.stop := by
  have nonempty := proper.start_lt_stop
  have last := proper.lastLocation_toNat
  have starts : range.location ≤ location :=
    UInt64.le_iff_toNat_le.mpr (by rw [Range.start] at nonempty; omega)
  have beyond : ¬ location < rangeGetMax range := by
    rw [UInt64.lt_iff_toNat_lt, proper.getMax_toNat]
    omega
  rw [rangeDistanceToLocation, if_neg proper.length_ne_zero, if_pos starts, if_neg beyond,
    UInt64.toNat_sub_of_le, last]
  · omega
  · rw [UInt64.le_iff_toNat_le, last]
    omega

theorem rangeDistanceToLocation_above (above : location.toNat < range.start) :
    (rangeDistanceToLocation range location).toNat = range.start - location.toNat := by
  have starts : ¬ range.location ≤ location := by
    rw [UInt64.le_iff_toNat_le]
    exact Nat.not_le.mpr above
  have order : location ≤ range.location := UInt64.le_iff_toNat_le.mpr (Nat.le_of_lt above)
  rw [rangeDistanceToLocation, if_neg proper.length_ne_zero, if_neg starts,
    UInt64.toNat_sub_of_le _ _ order]
  rfl

end

end Proper

abbrev Range.Holds (entry range : Range) : Prop :=
  entry.start ≤ range.start ∧ range.stop ≤ entry.stop

def ContainsOutcome (buf : List Range) (search : Range) : Bisected Nat → Prop
  | .found index => ∃ bound : index < buf.length, buf[index].Holds search
  | .missing _ => ∀ entry ∈ buf, ¬entry.Holds search
  | .overflow | .endless => False

theorem rangeContainsWindow_finds {buf : List Range} (sorted : SortedDisjoint buf)
    (proper : AllProper buf) {search : Range} {good : Range → Prop}
    (decides : ∀ entry ∈ buf, rangeContains entry search = true ↔ good entry)
    (around : ∀ entry ∈ buf, good entry → entry.start ≤ search.start ∧ search.start < entry.stop) :
    match rangeContainsWindow buf search with
    | .found index => ∃ bound : index < buf.length, good buf[index]
    | .missing _ => ∀ entry ∈ buf, ¬good entry
    | .overflow | .endless => False := by
  refine @bisectFrom_rule Nat midpoint (rangeContainsProbe buf search)
    (WindowSound buf (fun entry => ¬good entry) (fun entry => ¬good entry))
    (fun
      | .found index => ∃ bound : index < buf.length, good buf[index]
      | .missing _ => ∀ entry ∈ buf, ¬good entry
      | .overflow | .endless => False) ?_ ?_ _ _ _ (WindowSound.whole buf _ _) (by omega)
  · intro first last window ordered
    obtain ⟨lower, upper⟩ := tdiv_two_between window.nonneg ordered
    refine ⟨_, rfl, lower, upper, ?_⟩
    obtain ⟨middle, middleEq⟩ := Int.eq_ofNat_of_zero_le (le_trans window.nonneg lower)
    rw [middleEq] at lower upper ⊢
    have nonneg := window.nonneg
    have inside := window.inside
    have bound : middle < buf.length := by omega
    have holds := decides buf[middle] (List.getElem_mem _)
    rw [rangeContainsProbe, Int.toNat_natCast, rangeAt_eq bound]
    by_cases below : buf[middle].location ≤ search.location
    · rw [if_pos below]
      rw [UInt64.le_iff_toNat_le] at below
      change buf[middle].start ≤ search.start at below
      by_cases within : rangeContains buf[middle] search = true
      · rw [if_pos within]
        exact ⟨bound, holds.mp within⟩
      · rw [if_neg within]
        rw [holds] at within
        refine ⟨by omega, inside, by omega, ?_, window.right⟩
        intro index indexBound before found
        have reaches := (around _ (List.getElem_mem _) found).2
        rcases Nat.lt_or_eq_of_le (show index ≤ middle by omega) with earlier | rfl
        · have apart := sorted.getElem earlier indexBound bound
          omega
        · exact within found
    · rw [if_neg below]
      rw [UInt64.le_iff_toNat_le] at below
      change ¬ buf[middle].start ≤ search.start at below
      refine ⟨nonneg, by omega, by omega, window.left, ?_⟩
      intro index indexBound beyond found
      have starts := (around _ (List.getElem_mem _) found).1
      rcases Nat.lt_or_eq_of_le (show middle ≤ index by omega) with after | rfl
      · have apart := sorted.start_lt proper after bound indexBound
        omega
      · exact below starts
  · intro first last window crossed
    refine ⟨rfl, ?_⟩
    intro entry member
    obtain ⟨index, indexBound, rfl⟩ := List.mem_iff_getElem.mp member
    have adjacent := window.adjacent
    by_cases before : (index : Int) < first
    · exact window.left index indexBound before
    · exact window.right index indexBound (by omega)

theorem rangeContainsWindow_outcome {buf : List Range} (sorted : SortedDisjoint buf)
    (proper : AllProper buf) {search : Range} (searchProper : search.Proper) :
    ContainsOutcome buf search (rangeContainsWindow buf search) := by
  have searchNonempty := searchProper.start_lt_stop
  have finds := @rangeContainsWindow_finds buf sorted proper search (fun entry => entry.Holds search)
    (fun entry member => rangeContains_iff (proper entry member) searchProper)
    (fun entry _ holds => ⟨holds.1, lt_of_lt_of_le searchNonempty holds.2⟩)
  cases outcome : rangeContainsWindow buf search <;> rw [outcome] at finds <;> exact finds

theorem rangeContainsBsearch_outcome {buf : List Range} (sorted : SortedDisjoint buf)
    (proper : AllProper buf) {search : Range} (searchProper : search.Proper) :
    match rangeContainsBsearch buf search with
    | some index => ∃ bound : index < buf.length, buf[index].Holds search
    | none => ∀ entry ∈ buf, ¬entry.Holds search := by
  have outcome := rangeContainsWindow_outcome sorted proper searchProper
  have valid := ((range_proper_iff search).mp searchProper).2
  rw [rangeContainsBsearch, if_neg (by simp [valid])]
  cases window : rangeContainsWindow buf search with
  | found index =>
    rw [window] at outcome
    exact outcome
  | missing last =>
    rw [window] at outcome
    exact outcome
  | overflow => simp [window, ContainsOutcome] at outcome
  | endless => simp [window, ContainsOutcome] at outcome

/-!
What the three binary searches of `mulle-range.c` find and what they read.
-/

/-- An empty range is held by the entry with its location. -/
def Range.Includes (entry search : Range) : Prop :=
  entry.start ≤ search.start ∧ search.start < entry.stop ∧ search.stop ≤ entry.stop

def rangeHoleReads (buf : List Range) (searchLocation : UInt64) (last middle : Int) : List Int :=
  if (rangeAt buf middle.toNat).location < searchLocation ∧ middle ≠ last then
    [middle, middle + 1] else [middle]

def ProbesInside {Result : Type} (buf : List Range) (probe : Int → Int → Probe Result)
    (reads : Int → Int → List Int) : Prop :=
  (bisectProbes midpoint probe (buf.length + 1) 0 (buf.length - 1)).length ≤ buf.length ∧
    ∀ last middle, (last, middle) ∈ bisectProbes midpoint probe (buf.length + 1) 0 (buf.length - 1) →
      ∀ index ∈ reads last middle, 0 ≤ index ∧ index < buf.length

section Searches

variable {buf : List Range}

theorem rangeContains_includes {big small : Range} (proper : big.Proper)
    (valid : rangeIsValid small = true) :
    rangeContains big small = true ↔ big.Includes small := by
  by_cases empty : small.length = 0
  · have same : small.stop = small.start := by simp [Range.stop, Range.start, empty]
    have held : rangeContains big small = rangeContainsLocation big small.location := by
      rw [rangeContains, if_pos empty]
      cases rangeContainsLocation big small.location <;> rfl
    rw [held, rangeContainsLocation_iff proper, Range.Includes, same]
    change big.start ≤ small.start ∧ small.start < big.stop ↔ _
    omega
  · have smallProper : small.Proper := (range_proper_iff small).mpr ⟨empty, valid⟩
    have nonempty := smallProper.start_lt_stop
    rw [rangeContains_iff proper smallProper, Range.Includes]
    omega

theorem rangeContainsBsearch_includes (sorted : SortedDisjoint buf) (proper : AllProper buf)
    {search : Range} (valid : rangeIsValid search = true) :
    match rangeContainsBsearch buf search with
    | some index => ∃ bound : index < buf.length, buf[index].Includes search
    | none => ∀ entry ∈ buf, ¬entry.Includes search := by
  have finds := @rangeContainsWindow_finds buf sorted proper search
    (fun entry => entry.Includes search)
    (fun entry member => rangeContains_includes (proper entry member) valid)
    (fun entry _ holds => ⟨holds.1, holds.2.1⟩)
  rw [rangeContainsBsearch, if_neg (by simp [valid])]
  cases outcome : rangeContainsWindow buf search with
  | found index =>
    rw [outcome] at finds
    exact finds
  | missing last =>
    rw [outcome] at finds
    exact finds
  | overflow => simp [outcome] at finds
  | endless => simp [outcome] at finds

theorem HoleAt.eq_countP {searchLocation : UInt64} {index : Nat}
    (hole : HoleAt buf searchLocation index) :
    index = buf.countP fun entry => decide (entry.location < searchLocation) := by
  obtain ⟨within, lower, upper⟩ := hole
  have before : (buf.take index).countP (fun entry => decide (entry.location < searchLocation)) =
      index := by
    rw [List.countP_eq_length.mpr, List.length_take, Nat.min_eq_left within]
    intro entry member
    obtain ⟨place, bound, rfl⟩ := List.mem_take_iff_getElem.mp member
    exact decide_eq_true (UInt64.lt_iff_toNat_lt.mpr (lower place (by omega) (by omega)))
  have after : (buf.drop index).countP (fun entry => decide (entry.location < searchLocation)) =
      0 := by
    rw [List.countP_eq_zero]
    intro entry member
    obtain ⟨place, bound, rfl⟩ := List.mem_drop_iff_getElem.mp member
    have starts := upper (index + place) (by omega) (by omega)
    simpa [UInt64.lt_iff_toNat_lt, Range.start] using starts
  conv_rhs => rw [← List.take_append_drop index buf]
  rw [List.countP_append, before, after]
  rfl

theorem probesInside {Result : Type} (probe : Int → Int → Probe Result) {reads : Int → Int → List Int}
    (inside : ∀ last middle : Int, 0 ≤ middle → middle ≤ last → last < buf.length →
      ∀ index ∈ reads last middle, 0 ≤ index ∧ index < buf.length) : ProbesInside buf
        probe reads := by
  obtain ⟨few, within⟩ := bisectProbes_inside probe (buf.length + 1) 0 (buf.length - 1) le_rfl
  refine ⟨by omega, fun last middle member => ?_⟩
  have bounds := within last middle member
  exact inside last middle (by omega) (by omega) (by omega)

theorem rangeHoleReads_inside (searchLocation : UInt64) (last middle : Int) (nonneg : 0 ≤ middle)
    (ordered : middle ≤ last) (inside : last < buf.length) :
    ∀ index ∈ rangeHoleReads buf searchLocation last middle, 0 ≤ index ∧ index < buf.length := by
  intro index member
  rw [rangeHoleReads] at member
  split at member
  next right =>
    obtain rfl | rfl : index = middle ∨ index = middle + 1 := by simpa using member
    · omega
    · have different := right.2
      omega
  next =>
    obtain rfl : index = middle := by simpa using member
    omega

theorem middle_inside (last middle : Int) (nonneg : 0 ≤ middle) (ordered : middle ≤ last)
    (inside : last < buf.length) :
    ∀ index ∈ [middle], 0 ≤ index ∧ index < buf.length := by
  intro index member
  obtain rfl : index = middle := by simpa using member
  omega

theorem meets_iff_locations {entry search : Range} (proper : entry.Proper)
    (searchProper : search.Proper) :
    entry.Meets search ↔ (entry.locations ∩ search.locations).Nonempty := by
  have nonempty := proper.start_lt_stop
  have searchNonempty := searchProper.start_lt_stop
  constructor
  · rintro ⟨starts, reaches⟩
    exact ⟨max entry.start search.start, ⟨by omega, by omega⟩, ⟨by omega, by omega⟩⟩
  · rintro ⟨location, ⟨starts, ends⟩, searchStarts, searchEnds⟩
    exact ⟨by omega, by omega⟩

/-- The searches stay inside of the array, and they find an entry unless there is none. -/
theorem rangeBsearches_find (buf : List Range) (sorted : SortedDisjoint buf)
    (proper : AllProper buf) :
    (∀ search, rangeIsValid search = true →
      ProbesInside buf (rangeContainsProbe buf search) (fun _ middle => [middle]) ∧
        match rangeContainsBsearch buf search with
        | some index => ∃ bound : index < buf.length, buf[index].Includes search
        | none => ∀ entry ∈ buf, ¬entry.Includes search) ∧
    (∀ search : Range, search.Proper →
      ProbesInside buf (rangeIntersectsProbe buf search) (fun _ middle => [middle]) ∧
        match rangeIntersectsBsearch buf search with
        | some index =>
          ∃ bound : index < buf.length, (buf[index].locations ∩ search.locations).Nonempty
        | none => ∀ entry ∈ buf, ¬(entry.locations ∩ search.locations).Nonempty) ∧
    (∀ searchLocation,
      ProbesInside buf (rangeHoleProbe buf searchLocation) (rangeHoleReads buf searchLocation) ∧
        rangeHoleBsearch buf searchLocation = buf.countP fun entry => decide (entry.location <
          searchLocation)) := by
  refine ⟨?_, ?_, ?_⟩
  · intro search valid
    exact ⟨probesInside _ middle_inside, rangeContainsBsearch_includes sorted proper valid⟩
  · intro search searchProper
    refine ⟨probesInside _ middle_inside, ?_⟩
    have outcome := rangeIntersectsBsearch_outcome sorted proper searchProper
    cases found : rangeIntersectsBsearch buf search with
    | some index =>
      rw [found] at outcome
      obtain ⟨bound, meets⟩ := outcome
      exact ⟨bound, (meets_iff_locations (proper _ (List.getElem_mem _)) searchProper).mp meets⟩
    | none =>
      rw [found] at outcome
      exact fun entry member meets => outcome entry member
        ((meets_iff_locations (proper entry member) searchProper).mpr meets)
  · intro searchLocation
    exact ⟨probesInside _ (rangeHoleReads_inside searchLocation),
      (rangeHoleBsearch_holeAt sorted proper searchLocation).eq_countP⟩

theorem rangeBsearches_find_adjacent :
    rangeHoleBsearch [⟨2, 3⟩, ⟨5, 1⟩] 5 = 1 ∧
      ProbesInside [⟨2, 3⟩, ⟨5, 1⟩] (rangeHoleProbe [⟨2, 3⟩, ⟨5, 1⟩] 5)
        (rangeHoleReads [⟨2, 3⟩, ⟨5, 1⟩] 5) := by
  have sorted : SortedDisjoint [⟨2, 3⟩, ⟨5, 1⟩] := by
    unfold SortedDisjoint Ordered Apart
    decide
  obtain ⟨inside, counted⟩ := (rangeBsearches_find _ sorted (by decide)).2.2 5
  exact ⟨counted, inside⟩

end Searches

end MulleCore
