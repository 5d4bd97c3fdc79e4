import MulleCore.Container.RangesetOverlap

/-!
The insertion of a range that meets no entry: it opens a place for the range,
unless the range continues one of its two neighbours or joins them.
-/

namespace MulleCore

open Library

variable {prev more next less range : Range} {before after : List Range}

theorem rangesetGrow_size (p : Rangeset) : p.size < (rangesetGrow p).size := by
  have rounded := le_pow2roundup (p.size * 2)
  have positive := pow2roundup_pos (p.size * 2)
  simp only [rangesetGrow]
  rw [if_neg (by omega)]
  omega

theorem rangesetReserve_some (additional : Nat) : ∀ (fuel : Nat) (p : Rangeset),
    p.ranges.length + additional - p.size < fuel →
      ∃ q, rangesetReserve additional fuel p = some q ∧ q.ranges = p.ranges ∧
        q.ranges.length + additional ≤ q.size := by
  intro fuel
  induction fuel with
  | zero => intro p enough; omega
  | succ fuel ih =>
    intro p enough
    rw [rangesetReserve]
    by_cases fits : p.ranges.length + additional ≤ p.size
    · exact ⟨p, if_pos fits, rfl, fits⟩
    · rw [if_neg fits]
      have larger := rangesetGrow_size p
      have same : (rangesetGrow p).ranges = p.ranges := rfl
      exact ih (rangesetGrow p) (by rw [same]; omega)

theorem rangesetMoveUp_some (p : Rangeset) (index : Nat) (range : Range) :
    ∃ q, rangesetMoveUp p index range = some q ∧ q.ranges = p.ranges.insertIdx index range := by
  obtain ⟨reserved, reservedEq, same, -⟩ :=
    rangesetReserve_some 1 (p.ranges.length + 2) p (by omega)
  refine ⟨{ reserved with ranges := reserved.ranges.insertIdx index range }, ?_, ?_⟩
  · rw [rangesetMoveUp, reservedEq]
  · rw [same]

def Range.lengthen (prev more : Range) : Range :=
  { prev with length := prev.length + more.length }

theorem Range.lengthen_stop (moreProper : more.Proper)
    (adjacent : prev.stop = more.start) : (prev.lengthen more).stop = more.stop := by
  have bound := moreProper.2
  rw [notFound_toNat, Range.stop] at bound
  rw [Range.stop, Range.start] at adjacent
  rw [Range.lengthen, Range.stop_mk_add (by omega), Range.stop]
  omega

theorem Range.lengthen_proper (prevProper : prev.Proper)
    (moreProper : more.Proper) (adjacent : prev.stop = more.start) :
    (prev.lengthen more).Proper := by
  have stop := Range.lengthen_stop moreProper adjacent
  have prevNonempty := prevProper.start_lt_stop
  have moreNonempty := moreProper.start_lt_stop
  have start : (prev.lengthen more).start = prev.start := rfl
  exact Range.proper_of_ends (by omega) (stop ▸ moreProper.2)

def Range.extendFront (next less : Range) : Range :=
  { location := next.location - less.length, length := next.length + less.length }

theorem Range.extendFront_start (adjacent : less.stop = next.start) :
    (next.extendFront less).start = less.start := by
  rw [Range.stop, Range.start] at adjacent
  rw [Range.extendFront, Range.start, Range.start, UInt64.toNat_sub_of_le]
  · omega
  · rw [UInt64.le_iff_toNat_le]
    omega

theorem Range.extendFront_stop (nextProper : next.Proper)
    (adjacent : less.stop = next.start) : (next.extendFront less).stop = next.stop := by
  have bound := nextProper.2
  rw [notFound_toNat, Range.stop] at bound
  have start := Range.extendFront_start adjacent
  rw [Range.stop, Range.start] at adjacent
  change (next.location - less.length).toNat = less.location.toNat at start
  rw [Range.extendFront, Range.stop_mk_add (by omega), start, Range.stop]
  omega

theorem rangeGetMax_eq_location (proper : range.Proper) :
    rangeGetMax range = next.location ↔ range.stop = next.start := by
  rw [← UInt64.toNat_inj, proper.getMax_toNat, Range.start]

theorem touching_or_below (proper : AllProper before)
    (sorted : SortedDisjoint before) (earlier : ∀ other ∈ before, other.stop ≤ range.start) :
    (∃ init prev, before = init ++ [prev] ∧ prev.stop = range.start) ∨
      ∀ other ∈ before, other.stop < range.start := by
  rcases List.eq_nil_or_concat before with rfl | ⟨init, prev, rfl⟩
  · exact Or.inr (by simp)
  · rw [List.concat_eq_append] at proper sorted earlier ⊢
    have prevEarlier := earlier prev (by simp)
    have prevNonempty := (proper prev (by simp)).start_lt_stop
    by_cases touching : prev.stop = range.start
    · exact Or.inl ⟨init, prev, rfl, touching⟩
    · refine Or.inr fun other member => ?_
      rcases List.mem_append.mp member with inInit | isPrev
      · have otherPrev : other.stop ≤ prev.start :=
          (List.pairwise_append.mp sorted).2.2 other inInit prev (by simp)
        omega
      · rw [List.mem_singleton.mp isPrev]
        omega

theorem touching_or_above (proper : AllProper after)
    (sorted : SortedDisjoint after) (later : ∀ other ∈ after, range.stop ≤ other.start) :
    (∃ next rest, after = next :: rest ∧ range.stop = next.start) ∨
      ∀ other ∈ after, range.stop < other.start := by
  cases after with
  | nil => exact Or.inr (by simp)
  | cons next rest =>
    have nextLater := later next List.mem_cons_self
    have nextNonempty := proper.head.start_lt_stop
    by_cases touching : range.stop = next.start
    · exact Or.inl ⟨next, rest, rfl, touching⟩
    · refine Or.inr fun other member => ?_
      rcases List.mem_cons.mp member with rfl | inRest
      · omega
      · have nextOther : next.stop ≤ other.start :=
          (List.pairwise_cons.mp sorted).1 other inRest
        omega

theorem rangesetCoalescePrev_touching (prevProper : prev.Proper)
    (adjacent : prev.stop = range.start) (init after : List Range) :
    rangesetCoalescePrev (init ++ prev :: after) (init.length + 1) range =
      (init ++ prev.lengthen range :: after, true) := by
  have touching := (rangeGetMax_eq_location prevProper).mpr adjacent
  simp [rangesetCoalescePrev, touching, Range.lengthen]

theorem rangesetCoalescePrev_below
    (proper : AllProper before) (below : ∀ other ∈ before, other.stop < range.start)
    (after : List Range) :
    rangesetCoalescePrev (before ++ after) before.length range = (before ++ after, false) := by
  rcases List.eq_nil_or_concat before with rfl | ⟨init, prev, rfl⟩
  · simp [rangesetCoalescePrev]
  · rw [List.concat_eq_append] at proper below ⊢
    have prevBelow := below prev (by simp)
    have apart : rangeGetMax prev ≠ range.location := by
      rw [ne_eq, rangeGetMax_eq_location (proper prev (by simp))]
      omega
    simp [rangesetCoalescePrev, apart]

theorem rangesetCoalesceNext_above
    (rangeProper : range.Proper) (above : ∀ other ∈ after, range.stop < other.start)
    (before : List Range) (hasPrev : Bool) :
    rangesetCoalesceNext (before ++ after) before.length range hasPrev = none := by
  cases after with
  | nil => simp [rangesetCoalesceNext]
  | cons next rest =>
    have nextAbove := above next List.mem_cons_self
    have apart : rangeGetMax range ≠ next.location := by
      rw [ne_eq, rangeGetMax_eq_location rangeProper]
      omega
    simp [rangesetCoalesceNext, apart]

theorem rangesetCoalesceNext_touching (rangeProper : range.Proper)
    (adjacent : range.stop = next.start) (before rest : List Range) :
    rangesetCoalesceNext (before ++ next :: rest) before.length range false =
      some (before ++ next.extendFront range :: rest) := by
  have touching := (rangeGetMax_eq_location rangeProper).mpr adjacent
  simp [rangesetCoalesceNext, touching, Range.extendFront]

theorem rangesetCoalesceNext_joining (prevProper : prev.Proper)
    (rangeProper : range.Proper) (prevAdjacent : prev.stop = range.stop)
    (adjacent : range.stop = next.start) (init rest : List Range) :
    rangesetCoalesceNext (init ++ prev :: next :: rest) (init.length + 1) range true =
      some (init ++ prev.lengthen next :: rest) := by
  have touching := (rangeGetMax_eq_location rangeProper).mpr adjacent
  have prevTouching := (rangeGetMax_eq_location prevProper).mpr (prevAdjacent.trans adjacent)
  simp [rangesetCoalesceNext, touching, prevTouching, Range.lengthen]

theorem rangesetInsertKnownAbsent_absorbs {gap : Nat → Nat → Prop} (spacing : Spacing gap)
    {p : Rangeset} (rangeProper : range.Proper) (proper : AllProper p.ranges)
    (apart : Disjointed gap p.ranges) (misses : ∀ other ∈ p.ranges, ¬other.Meets range) :
    ∃ q before middle after hull,
      rangesetInsertKnownAbsent p range = some q ∧ hull.Proper ∧
        Absorbs Range.start Range.stop gap p.ranges range q.ranges before middle after hull := by
  have sorted : SortedDisjoint p.ranges := apart.ordered spacing
  have rangeNonempty := rangeProper.start_lt_stop
  obtain ⟨before, after, split, beforeLength, earlier, later⟩ :=
    rangeHoleBsearch_splits sorted proper rangeProper misses
  rw [rangesetInsertKnownAbsent, if_neg ((range_proper_iff range).mp rangeProper).1,
    ← beforeLength]
  rw [split] at proper sorted apart ⊢
  have beforeProper := (allProper_append.mp proper).1
  have afterProper := (allProper_append.mp proper).2
  have beforeSorted : SortedDisjoint before := (List.pairwise_append.mp sorted).1
  have afterSorted : SortedDisjoint after := (List.pairwise_append.mp sorted).2.1
  have gapBelow : (∀ other ∈ before, other.stop < range.start) →
      ∀ other ∈ before, gap other.stop range.start :=
    fun below other member => spacing.ofLt _ _ (below other member)
  have gapAbove : (∀ other ∈ after, range.stop < other.start) →
      ∀ other ∈ after, gap range.stop other.start :=
    fun above other member => spacing.ofLt _ _ (above other member)
  rcases touching_or_below beforeProper beforeSorted earlier with
    ⟨init, prev, rfl, prevTouches⟩ | below
  · have prevProper := beforeProper prev (by simp)
    have prevNonempty := prevProper.start_lt_stop
    have prevStop := Range.lengthen_stop rangeProper prevTouches
    have prevStart : (prev.lengthen range).start = prev.start := rfl
    have joinedProper := Range.lengthen_proper prevProper rangeProper prevTouches
    have initGap : ∀ other ∈ init, gap other.stop range.start := by
      intro other member
      have otherPrev : other.stop ≤ prev.start :=
        (List.pairwise_append.mp beforeSorted).2.2 other member prev (by simp)
      exact spacing.ofLt _ _ (by omega)
    simp only [List.append_assoc, List.singleton_append, List.length_append,
      List.length_singleton]
    rw [rangesetCoalescePrev_touching prevProper prevTouches]
    rcases touching_or_above afterProper afterSorted later with
      ⟨next, rest, rfl, nextTouches⟩ | above
    · have nextProper := afterProper.head
      have nextNonempty := nextProper.start_lt_stop
      have joinedTouches : (prev.lengthen range).stop = next.start := prevStop.trans nextTouches
      have hullStop := Range.lengthen_stop nextProper joinedTouches
      have hullStart : ((prev.lengthen range).lengthen next).start = prev.start := rfl
      dsimp only
      rw [rangesetCoalesceNext_joining joinedProper rangeProper prevStop nextTouches]
      refine ⟨_, init, [prev, next], rest, _, rfl,
        Range.lengthen_proper joinedProper nextProper joinedTouches, by simp, rfl, ?_, ?_,
        initGap, ?_⟩
      · refine ⟨by omega, ?_, Or.inr ⟨prev, by simp, hullStart⟩, by omega, ?_,
          Or.inr ⟨next, by simp, hullStop⟩⟩
        · simp only [List.mem_cons, List.not_mem_nil, or_false]
          rintro other (rfl | rfl) <;> omega
        · simp only [List.mem_cons, List.not_mem_nil, or_false]
          rintro other (rfl | rfl) <;> omega
      · simp only [List.mem_cons, List.not_mem_nil, or_false, Touches]
        rintro other (rfl | rfl) <;> omega
      · intro other member
        have nextOther : next.stop ≤ other.start :=
          (List.pairwise_cons.mp afterSorted).1 other member
        exact spacing.ofLt _ _ (by omega)
    · have nextNone := rangesetCoalesceNext_above rangeProper above
        (init ++ [prev.lengthen range]) true
      simp only [List.append_assoc, List.singleton_append, List.length_append,
        List.length_singleton] at nextNone
      dsimp only
      rw [nextNone]
      refine ⟨_, init, [prev], after, _, rfl, joinedProper, by simp, rfl, ?_, ?_, initGap,
        gapAbove above⟩
      · refine ⟨by omega, ?_, Or.inr ⟨prev, by simp, prevStart⟩, by omega, ?_, Or.inl prevStop⟩
        · simp only [List.mem_singleton]
          rintro other rfl
          omega
        · simp only [List.mem_singleton]
          rintro other rfl
          omega
      · simp only [List.mem_singleton, Touches]
        rintro other rfl
        omega
  · dsimp only
    rw [rangesetCoalescePrev_below beforeProper below]
    rcases touching_or_above afterProper afterSorted later with
      ⟨next, rest, rfl, nextTouches⟩ | above
    · have nextProper := afterProper.head
      have nextNonempty := nextProper.start_lt_stop
      have hullStart := Range.extendFront_start nextTouches
      have hullStop := Range.extendFront_stop nextProper nextTouches
      dsimp only
      rw [rangesetCoalesceNext_touching rangeProper nextTouches]
      refine ⟨_, before, [next], rest, _, rfl,
        Range.proper_of_ends (by omega) (hullStop ▸ nextProper.2), by simp, rfl, ?_, ?_,
        gapBelow below, ?_⟩
      · refine ⟨by omega, ?_, Or.inl hullStart, by omega, ?_, Or.inr ⟨next, by simp, hullStop⟩⟩
        · simp only [List.mem_singleton]
          rintro other rfl
          omega
        · simp only [List.mem_singleton]
          rintro other rfl
          omega
      · simp only [List.mem_singleton, Touches]
        rintro other rfl
        omega
      · intro other member
        have nextOther : next.stop ≤ other.start :=
          (List.pairwise_cons.mp afterSorted).1 other member
        exact spacing.ofLt _ _ (by omega)
    · dsimp only
      rw [rangesetCoalesceNext_above rangeProper above]
      obtain ⟨q, moved, same⟩ := rangesetMoveUp_some p before.length range
      refine ⟨q, before, [], after, range, moved, rangeProper, by simp, ?_, ?_, by simp,
        gapBelow below, gapAbove above⟩
      · rw [same, split, insertIdx_splice]
      · exact ⟨le_rfl, by simp, Or.inl rfl, le_rfl, by simp, Or.inl rfl⟩

end MulleCore
