import Mathlib.Data.List.Induction
import Mathlib.Tactic.Set
import MulleCore.Library.Splice
import MulleCore.Container.Rangeset

/-!
The two loops of `__mulle__rangeset_insert` that swallow overlapped entries, and
the absorption of a range that meets an entry.
-/

namespace MulleCore

open Library

variable {entry range curr : Range} {before after : List Range} {front hull : Range}
  {kept swallowed swallowedBack keptBack : List Range} {gap : Nat → Nat → Prop}

@[simp] theorem rangeAt_splice (before after : List Range) (entry : Range) :
    rangeAt (before ++ entry :: after) before.length = entry := by
  simp [rangeAt]

@[simp] theorem rangeAt_splice_succ (before after : List Range) (entry next : Range) :
    rangeAt (before ++ entry :: next :: after) (before.length + 1) = next := by
  simp [rangeAt]

theorem meets_of_intersection (proper : entry.Proper)
    (rangeProper : range.Proper) (length : ¬(rangeIntersection entry range).length = 0) :
    entry.Meets range :=
  (rangeIntersection_length_ne_zero proper rangeProper).mp length

theorem not_meets_of_intersection (proper : entry.Proper)
    (rangeProper : range.Proper) (length : (rangeIntersection entry range).length = 0) :
    ¬entry.Meets range := fun meets =>
  (rangeIntersection_length_ne_zero proper rangeProper).mpr meets length

structure FrontGrown (range curr : Range) (before : List Range)
    (kept swallowed : List Range) (hull : Range) : Prop where
  split : before = kept ++ swallowed
  proper : hull.Proper
  stop : hull.stop = curr.stop
  meets : ∀ other ∈ swallowed, other.Meets range
  misses : ∀ other ∈ kept, other.stop ≤ range.start
  startRange : hull.start ≤ range.start
  startCurr : hull.start ≤ curr.start
  startSwallowed : ∀ other ∈ swallowed, hull.start ≤ other.start
  startTight : hull.start = range.start ∨ hull.start = curr.start ∨
    ∃ other ∈ swallowed, hull.start = other.start

theorem rangesetWidenFront_splice (range : Range) (currProper : curr.Proper)
    (before after : List Range) :
    ∃ hull : Range, hull.Proper ∧ hull.stop = curr.stop ∧
      hull.start = min range.start curr.start ∧
      rangesetOverflowFront.rangesetWidenFront range (before ++ curr :: after) before.length =
        before ++ hull :: after := by
  have currNonempty := currProper.start_lt_stop
  have currStop := currProper.2
  have bound := notFound_toNat
  simp only [rangesetOverflowFront.rangesetWidenFront, rangeAt_splice]
  by_cases front : range.location < curr.location
  · rw [if_pos front]
    rw [UInt64.lt_iff_toNat_lt] at front
    have room : (curr.location - range.location).toNat =
        curr.location.toNat - range.location.toNat :=
      UInt64.toNat_sub_of_le _ _ (UInt64.le_iff_toNat_le.mpr (le_of_lt front))
    have stop : Range.stop ⟨range.location, curr.length + (curr.location - range.location)⟩ =
        curr.stop := by
      have fits : range.location.toNat +
          (curr.length.toNat + (curr.location - range.location).toNat) < 2 ^ 64 := by
        rw [Range.stop] at currStop
        omega
      rw [Range.stop_mk_add fits, room, Range.stop]
      omega
    have start : Range.start ⟨range.location, curr.length + (curr.location - range.location)⟩ =
        range.start := rfl
    refine ⟨_, Range.proper_of_ends ?_ ?_, stop, ?_, by simp⟩
    · rw [stop, start]
      exact lt_trans front currNonempty
    · rw [stop]
      exact currStop
    · rw [start]
      exact (min_eq_left (le_of_lt front)).symm
  · rw [if_neg front]
    rw [UInt64.lt_iff_toNat_lt] at front
    exact ⟨curr, currProper, rfl, (min_eq_right (not_lt.mp front)).symm, rfl⟩

theorem rangesetOverflowFront_grown (rangeProper : range.Proper)
    (after : List Range) : ∀ (before : List Range) (curr : Range),
    AllProper before → curr.Proper → SortedDisjoint (before ++ [curr]) →
    curr.start < range.stop →
      ∃ kept swallowed hull, FrontGrown range curr before kept swallowed hull ∧
        rangesetOverflowFront range before.length (before ++ curr :: after) =
          (kept ++ hull :: after, kept.length) := by
  intro before
  induction before using List.reverseRecOn with
  | nil =>
    intro curr _ currProper _ _
    obtain ⟨hull, hullProper, stop, start, widened⟩ :=
      rangesetWidenFront_splice range currProper [] after
    refine ⟨[], [], hull, ?_, ?_⟩
    · exact ⟨rfl, hullProper, stop, by simp, by simp, by omega, by omega, by simp, by omega⟩
    · simp only [List.length_nil, List.nil_append] at widened ⊢
      rw [rangesetOverflowFront, widened]
  | append_singleton init prev ih =>
    intro curr proper currProper sorted reaches
    have prevProper : prev.Proper := proper prev (by simp)
    have prevNonempty := prevProper.start_lt_stop
    have currNonempty := currProper.start_lt_stop
    have prevCurr : prev.stop ≤ curr.start := by
      simp only [Apart, List.pairwise_append, List.append_assoc, List.cons_append] at sorted
      exact (List.pairwise_cons.mp sorted.2.1).1 curr (by simp)
    have initSorted : SortedDisjoint (init ++ [prev]) :=
      (List.pairwise_append.mp sorted).1
    rw [List.length_append, List.length_singleton, List.append_assoc, List.singleton_append,
      rangesetOverflowFront]
    simp only [rangeAt_splice, rangeAt_splice_succ]
    by_cases length : (rangeIntersection prev range).length = 0
    · rw [if_pos length]
      have prevMisses := stop_le_of_not_meets (by omega)
        (not_meets_of_intersection prevProper rangeProper length)
      obtain ⟨hull, hullProper, stop, start, widened⟩ :=
        rangesetWidenFront_splice range currProper (init ++ [prev]) after
      refine ⟨init ++ [prev], [], hull, ?_, ?_⟩
      · refine ⟨by simp, hullProper, stop, by simp, ?_, by omega, by omega, by simp, by omega⟩
        intro other member
        rcases List.mem_append.mp member with inInit | isPrev
        · have otherPrev : other.stop ≤ prev.start :=
            (List.pairwise_append.mp initSorted).2.2 other inInit prev (by simp)
          omega
        · rw [List.mem_singleton.mp isPrev]
          exact prevMisses
      · simp only [List.length_append, List.length_singleton, List.append_assoc,
          List.singleton_append] at widened ⊢
        rw [widened]
    · rw [if_neg length]
      have prevMeets := meets_of_intersection prevProper rangeProper length
      have prevStop := prevProper.2
      have currStop := currProper.2
      have bound := notFound_toNat
      set grown : Range := { prev with
        length := prev.length + (curr.location - rangeGetMax prev + curr.length) } with grownDef
      have gap : (curr.location - rangeGetMax prev).toNat = curr.start - prev.stop := by
        rw [UInt64.toNat_sub_of_le, prevProper.getMax_toNat]
        · rfl
        · rw [UInt64.le_iff_toNat_le, prevProper.getMax_toNat]
          exact prevCurr
      have grownStop : grown.stop = curr.stop := by
        rw [Range.stop] at prevStop currStop prevCurr gap
        rw [Range.start] at prevCurr gap
        have tail : (curr.location - rangeGetMax prev + curr.length).toNat =
            curr.location.toNat - (prev.location.toNat + prev.length.toNat) +
              curr.length.toNat := by
          rw [UInt64.toNat_add, gap, Nat.mod_eq_of_lt (by omega)]
        rw [grownDef, Range.stop_mk_add (by rw [tail]; omega), tail, Range.stop]
        omega
      have grownStart : grown.start = prev.start := rfl
      have grownProper : grown.Proper :=
        Range.proper_of_ends (by omega) (by omega)
      have grownSorted : SortedDisjoint (init ++ [grown]) := by
        simp only [Apart, List.pairwise_append] at initSorted ⊢
        refine ⟨initSorted.1, List.pairwise_singleton _ _, ?_⟩
        intro left leftMember right isGrown
        rw [List.mem_singleton.mp isGrown]
        exact initSorted.2.2 left leftMember prev (by simp)
      obtain ⟨kept, swallowed, hull, front, result⟩ :=
        ih grown (fun other member => proper other (by simp [member])) grownProper grownSorted
          prevMeets.1
      refine ⟨kept, swallowed ++ [prev], hull, ?_, ?_⟩
      · have hullStart := front.startCurr
        refine ⟨by rw [front.split, List.append_assoc], front.proper, front.stop.trans grownStop,
          ?_, front.misses, front.startRange, by omega, ?_, ?_⟩
        · intro other member
          rcases List.mem_append.mp member with inside | isPrev
          · exact front.meets other inside
          · rw [List.mem_singleton.mp isPrev]
            exact prevMeets
        · intro other member
          rcases List.mem_append.mp member with inside | isPrev
          · exact front.startSwallowed other inside
          · rw [List.mem_singleton.mp isPrev]
            exact hullStart
        · rcases front.startTight with atRange | atGrown | ⟨other, inside, same⟩
          · exact Or.inl atRange
          · exact Or.inr (Or.inr ⟨prev, by simp, atGrown⟩)
          · exact Or.inr (Or.inr ⟨other, by simp [inside], same⟩)
      · simpa using result

structure BackGrown (range curr : Range) (after : List Range)
    (swallowed kept : List Range) (hull : Range) : Prop where
  split : after = swallowed ++ kept
  proper : hull.Proper
  start : hull.start = curr.start
  meets : ∀ other ∈ swallowed, other.Meets range
  misses : ∀ other ∈ kept, range.stop ≤ other.start
  stopRange : range.stop ≤ hull.stop
  stopCurr : curr.stop ≤ hull.stop
  stopSwallowed : ∀ other ∈ swallowed, other.stop ≤ hull.stop
  stopTight : hull.stop = range.stop ∨ hull.stop = curr.stop ∨
    ∃ other ∈ swallowed, hull.stop = other.stop

theorem rangesetWidenBack_splice (rangeProper : range.Proper)
    (currProper : curr.Proper) (reaches : curr.start < range.stop) (before after : List Range) :
    ∃ hull : Range, hull.Proper ∧ hull.start = curr.start ∧
      hull.stop = max range.stop curr.stop ∧
      (if rangeGetMax range - curr.location > curr.length then
        some ((before ++ curr :: after).set before.length
          { curr with length := rangeGetMax range - curr.location })
      else some (before ++ curr :: after)) = some (before ++ hull :: after) := by
  have length : (rangeGetMax range - curr.location).toNat = range.stop - curr.start := by
    rw [UInt64.toNat_sub_of_le, rangeProper.getMax_toNat]
    · rfl
    · rw [UInt64.le_iff_toNat_le, rangeProper.getMax_toNat]
      exact le_of_lt reaches
  have currStop : curr.stop = curr.start + curr.length.toNat := rfl
  by_cases longer : rangeGetMax range - curr.location > curr.length
  · rw [if_pos longer]
    rw [gt_iff_lt, UInt64.lt_iff_toNat_lt, length] at longer
    have stop : Range.stop { curr with length := rangeGetMax range - curr.location } =
        range.stop := by
      rw [Range.stop_mk_sub, rangeProper.getMax_toNat]
      rw [rangeProper.getMax_toNat]
      exact le_of_lt reaches
    have start : Range.start { curr with length := rangeGetMax range - curr.location } =
        curr.start := rfl
    refine ⟨_, Range.proper_of_ends ?_ ?_, start, ?_, by simp⟩
    · rw [start, stop]
      exact reaches
    · rw [stop]
      exact rangeProper.2
    · rw [stop]
      omega
  · rw [if_neg longer]
    rw [gt_iff_lt, UInt64.lt_iff_toNat_lt, length] at longer
    exact ⟨curr, currProper, rfl, by omega, rfl⟩

theorem rangesetOverflowBack_grown (rangeProper : range.Proper)
    (before : List Range) : ∀ (after : List Range) (curr : Range) (fuel : Nat),
    AllProper after → curr.Proper → SortedDisjoint (curr :: after) →
    curr.start < range.stop → range.start < curr.stop → after.length < fuel →
      ∃ swallowed kept hull, BackGrown range curr after swallowed kept hull ∧
        rangesetOverflowBack range before.length fuel (before ++ curr :: after) =
          some (before ++ hull :: kept) := by
  intro after
  induction after with
  | nil =>
    intro curr fuel _ currProper _ starts _ enough
    obtain ⟨fuel, rfl⟩ : ∃ more, fuel = more + 1 := ⟨fuel - 1, by omega⟩
    obtain ⟨hull, hullProper, start, stop, widened⟩ :=
      rangesetWidenBack_splice rangeProper currProper starts before []
    refine ⟨[], [], hull, ?_, ?_⟩
    · exact ⟨rfl, hullProper, start, by simp, by simp, by omega, by omega, by simp, by omega⟩
    · rw [rangesetOverflowBack, if_pos (Or.inl (by simp)), rangeAt_splice]
      exact widened
  | cons next rest ih =>
    intro curr fuel proper currProper sorted starts reaches enough
    obtain ⟨fuel, rfl⟩ : ∃ more, fuel = more + 1 := ⟨fuel - 1, by omega⟩
    have nextProper := proper.head
    have nextNonempty := nextProper.start_lt_stop
    have currNext : curr.stop ≤ next.start :=
      (List.pairwise_cons.mp sorted).1 next List.mem_cons_self
    have nextSorted : SortedDisjoint (next :: rest) := (List.pairwise_cons.mp sorted).2
    rw [rangesetOverflowBack]
    simp only [rangeAt_splice, rangeAt_splice_succ]
    by_cases length : (rangeIntersection next range).length = 0
    · rw [if_pos (Or.inr length)]
      have nextMisses := le_start_of_not_meets (by omega)
        (not_meets_of_intersection nextProper rangeProper length)
      obtain ⟨hull, hullProper, start, stop, widened⟩ :=
        rangesetWidenBack_splice rangeProper currProper starts before (next :: rest)
      refine ⟨[], next :: rest, hull, ?_, widened⟩
      refine ⟨rfl, hullProper, start, by simp, ?_, by omega, by omega, by simp, by omega⟩
      intro other member
      rcases List.mem_cons.mp member with rfl | inRest
      · exact nextMisses
      · have nextOther : next.stop ≤ other.start :=
          (List.pairwise_cons.mp nextSorted).1 other inRest
        omega
    · have inBounds : ¬(before.length + 1 ≥ (before ++ curr :: next :: rest).length) := by
        simp only [List.length_append, List.length_cons]
        omega
      rw [if_neg (not_or.mpr ⟨inBounds, length⟩)]
      have nextMeets := meets_of_intersection nextProper rangeProper length
      set grown : Range := { curr with length := rangeGetMax next - curr.location } with grownDef
      have currNonempty := currProper.start_lt_stop
      have grownStop : grown.stop = next.stop := by
        have ordered : curr.location.toNat ≤ next.stop := by
          change curr.start ≤ next.stop
          omega
        rw [grownDef, Range.stop_mk_sub, nextProper.getMax_toNat]
        rw [nextProper.getMax_toNat]
        exact ordered
      have grownStart : grown.start = curr.start := rfl
      have grownProper : grown.Proper :=
        Range.proper_of_ends (by omega) (grownStop ▸ nextProper.2)
      have grownSorted : SortedDisjoint (grown :: rest) := by
        refine List.pairwise_cons.mpr ⟨?_, (List.pairwise_cons.mp nextSorted).2⟩
        intro other member
        rw [grownStop]
        exact (List.pairwise_cons.mp nextSorted).1 other member
      obtain ⟨swallowed, kept, hull, back, result⟩ :=
        ih grown fuel proper.tail grownProper grownSorted (by omega)
          (grownStop ▸ nextMeets.2) (by simpa using enough)
      refine ⟨next :: swallowed, kept, hull, ?_, by simpa using result⟩
      have hullStop := back.stopCurr
      refine ⟨by rw [back.split, List.cons_append], back.proper, back.start.trans grownStart,
        ?_, back.misses, back.stopRange, by omega, ?_, ?_⟩
      · intro other member
        rcases List.mem_cons.mp member with rfl | inside
        · exact nextMeets
        · exact back.meets other inside
      · intro other member
        rcases List.mem_cons.mp member with rfl | inside
        · omega
        · exact back.stopSwallowed other inside
      · rcases back.stopTight with atRange | atGrown | ⟨other, inside, same⟩
        · exact Or.inl atRange
        · exact Or.inr (Or.inr ⟨next, List.mem_cons_self, atGrown.trans grownStop⟩)
        · exact Or.inr (Or.inr ⟨other, List.mem_cons_of_mem next inside, same⟩)

theorem FrontGrown.refl (proper : curr.Proper)
    (earlier : ∀ other ∈ before, other.stop ≤ curr.start) (inside : curr.start ≤ range.start) :
    FrontGrown range curr before before [] curr :=
  ⟨by simp, proper, rfl, by simp, fun other member => (earlier other member).trans inside,
    inside, le_rfl, by simp, Or.inr (Or.inl rfl)⟩

theorem BackGrown.refl (proper : curr.Proper)
    (later : ∀ other ∈ after, curr.stop ≤ other.start) (inside : range.stop ≤ curr.stop) :
    BackGrown range curr after [] after curr :=
  ⟨rfl, proper, rfl, by simp, fun other member => inside.trans (later other member),
    inside, le_rfl, by simp, Or.inr (Or.inl rfl)⟩

theorem FrontGrown.middle_meets (grownFront : FrontGrown range entry before kept swallowed front)
    (grownBack : BackGrown range front after swallowedBack keptBack hull)
    (meets : entry.Meets range) :
    ∀ other ∈ swallowed ++ entry :: swallowedBack, other.Meets range := by
  intro other member
  rcases List.mem_append.mp member with inFront | inRest
  · exact grownFront.meets other inFront
  · rcases List.mem_cons.mp inRest with rfl | inBack
    · exact meets
    · exact grownBack.meets other inBack

theorem FrontGrown.absorbs (grownFront : FrontGrown range entry before kept swallowed front)
    (grownBack : BackGrown range front after swallowedBack keptBack hull)
    (sorted : SortedDisjoint (before ++ entry :: after)) (proper : entry.Proper)
    (meets : entry.Meets range)
    (below : ∀ other ∈ before, other.stop ≤ range.start → gap other.stop range.start)
    (above : ∀ other ∈ after, range.stop ≤ other.start → gap range.stop other.start) :
    Absorbs Range.start Range.stop gap (before ++ entry :: after) range
      (kept ++ hull :: keptBack) kept (swallowed ++ entry :: swallowedBack) keptBack hull := by
  have beforeEntry : ∀ other ∈ before, other.stop ≤ entry.start := fun other member =>
    (List.pairwise_append.mp sorted).2.2 other member entry List.mem_cons_self
  have entryAfter : ∀ other ∈ after, entry.stop ≤ other.start :=
    (List.pairwise_cons.mp (List.pairwise_append.mp sorted).2.1).1
  have nonempty := proper.start_lt_stop
  have hullStart := grownBack.start
  have hullStop := grownBack.stopCurr
  have frontStart := grownFront.startCurr
  have frontStop := grownFront.stop
  refine ⟨?_, rfl, ?_, ?_, ?_, ?_⟩
  · rw [grownFront.split, grownBack.split]
    simp
  · refine ⟨hullStart ▸ grownFront.startRange, ?_, ?_, grownBack.stopRange, ?_, ?_⟩
    · intro other member
      rcases List.mem_append.mp member with inFront | inRest
      · exact hullStart ▸ grownFront.startSwallowed other inFront
      · rcases List.mem_cons.mp inRest with rfl | inBack
        · exact hullStart ▸ frontStart
        · have later := entryAfter other (by rw [grownBack.split]; simp [inBack])
          omega
    · rw [hullStart]
      rcases grownFront.startTight with atRange | atEntry | ⟨other, member, same⟩
      · exact Or.inl atRange
      · exact Or.inr ⟨entry, by simp, atEntry⟩
      · exact Or.inr ⟨other, by simp [member], same⟩
    · intro other member
      rcases List.mem_append.mp member with inFront | inRest
      · have earlier := beforeEntry other (by rw [grownFront.split]; simp [inFront])
        omega
      · rcases List.mem_cons.mp inRest with rfl | inBack
        · omega
        · exact grownBack.stopSwallowed other inBack
    · rcases grownBack.stopTight with atRange | atFront | ⟨other, member, same⟩
      · exact Or.inl atRange
      · exact Or.inr ⟨entry, by simp, atFront.trans frontStop⟩
      · exact Or.inr ⟨other, by simp [member], same⟩
  · exact fun other member => (grownFront.middle_meets grownBack meets other member).touches
  · intro other member
    exact below other (by rw [grownFront.split]; simp [member]) (grownFront.misses other member)
  · intro other member
    exact above other (by rw [grownBack.split]; simp [member]) (grownBack.misses other member)

theorem rangesetInsertOverlapping_absorbs (spacing : Spacing gap)
    {ranges : List Range} (rangeProper : range.Proper) (proper : AllProper ranges)
    (apart : Disjointed gap ranges) {found : Nat} (bound : found < ranges.length)
    (meets : ranges[found].Meets range)
    (below : ∀ other ∈ ranges, other.stop ≤ range.start → gap other.stop range.start)
    (above : ∀ other ∈ ranges, range.stop ≤ other.start → gap range.stop other.start) :
    ∃ result before middle after hull,
      rangesetInsertOverlapping ranges range found = some result ∧ hull.Proper ∧
        (∀ other ∈ middle, other.Meets range) ∧
        Absorbs Range.start Range.stop gap ranges range result before middle after hull := by
  obtain ⟨before, after, split, beforeLength⟩ := exists_splice bound
  generalize ranges[found] = entry at split meets
  subst split
  subst beforeLength
  have sorted : SortedDisjoint (before ++ entry :: after) := apart.ordered spacing
  have beforeProper := (allProper_append.mp proper).1
  have entryProper := (allProper_append.mp proper).2.head
  have afterProper := (allProper_append.mp proper).2.tail
  have beforeEntry : ∀ other ∈ before, other.stop ≤ entry.start := fun other member =>
    (List.pairwise_append.mp sorted).2.2 other member entry List.mem_cons_self
  have entryAfter : ∀ other ∈ after, entry.stop ≤ other.start :=
    (List.pairwise_cons.mp (List.pairwise_append.mp sorted).2.1).1
  have belowBefore : ∀ other ∈ before, other.stop ≤ range.start → gap other.stop range.start :=
    fun other member => below other (by simp [member])
  have aboveAfter : ∀ other ∈ after, range.stop ≤ other.start → gap range.stop other.start :=
    fun other member => above other (by simp [member])
  rw [rangesetInsertOverlapping, rangeAt_splice]
  by_cases contained : rangeContains entry range = true
  · rw [if_pos contained]
    obtain ⟨insideStart, insideStop⟩ := (rangeContains_iff entryProper rangeProper).mp contained
    have grownFront := FrontGrown.refl entryProper beforeEntry insideStart
    have grownBack := BackGrown.refl entryProper entryAfter insideStop
    exact ⟨_, _, _, _, entry, rfl, entryProper, grownFront.middle_meets grownBack meets,
      grownFront.absorbs grownBack sorted entryProper meets belowBefore aboveAfter⟩
  · rw [if_neg contained]
    obtain ⟨kept, swallowed, front, grownFront, frontEq⟩ :
        ∃ kept swallowed front, FrontGrown range entry before kept swallowed front ∧
          (if range.location < entry.location then
            rangesetOverflowFront range before.length (before ++ entry :: after)
          else (before ++ entry :: after, before.length)) =
            (kept ++ front :: after, kept.length) := by
      by_cases overflows : range.location < entry.location
      · rw [if_pos overflows]
        refine rangesetOverflowFront_grown rangeProper after before entry beforeProper entryProper
          ?_ meets.1
        exact List.Pairwise.sublist (by simp) sorted
      · rw [if_neg overflows]
        rw [UInt64.lt_iff_toNat_lt] at overflows
        exact ⟨before, [], entry,
          FrontGrown.refl entryProper beforeEntry (not_lt.mp overflows), rfl⟩
    rw [frontEq]
    simp only [rangeAt_splice]
    have frontAfter : ∀ other ∈ after, front.stop ≤ other.start := by
      rw [grownFront.stop]
      exact entryAfter
    have frontSorted : SortedDisjoint (front :: after) :=
      List.pairwise_cons.mpr
        ⟨frontAfter, (List.pairwise_cons.mp (List.pairwise_append.mp sorted).2.1).2⟩
    by_cases overflows : rangeGetMax range > rangeGetMax front
    · rw [if_pos overflows]
      have frontStart := grownFront.startRange
      have nonempty := rangeProper.start_lt_stop
      obtain ⟨swallowedBack, keptBack, hull, grownBack, backEq⟩ :=
        rangesetOverflowBack_grown rangeProper kept after front
          ((kept ++ front :: after).length + 1) afterProper grownFront.proper frontSorted
          (by omega) (by rw [grownFront.stop]; exact meets.2) (by simp; omega)
      exact ⟨_, _, _, _, hull, backEq, grownBack.proper, grownFront.middle_meets grownBack meets,
        grownFront.absorbs grownBack sorted entryProper meets belowBefore aboveAfter⟩
    · rw [if_neg overflows]
      rw [gt_iff_lt, UInt64.lt_iff_toNat_lt, rangeProper.getMax_toNat,
        grownFront.proper.getMax_toNat] at overflows
      have grownBack := BackGrown.refl grownFront.proper frontAfter (not_lt.mp overflows)
      exact ⟨_, _, _, _, front, rfl, grownFront.proper, grownFront.middle_meets grownBack meets,
        grownFront.absorbs grownBack sorted entryProper meets belowBefore aboveAfter⟩

end MulleCore
