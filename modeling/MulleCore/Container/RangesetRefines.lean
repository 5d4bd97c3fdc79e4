import MulleCore.Container.RangesetAbsent

/-!
A rangeset is a set of locations. Inserting is union, removing is difference.
-/

namespace MulleCore

open Library

variable {gap : Nat → Nat → Prop} {before middle after : List Range} {entry hull : Range}
  {p q : Rangeset} {range narrower : Range}

def Rangeset.locations (p : Rangeset) : Set Nat :=
  cover Range.start Range.stop p.ranges

structure Rangeset.Ok (gap : Nat → Nat → Prop) (p : Rangeset) : Prop where
  proper : AllProper p.ranges
  apart : Disjointed gap p.ranges

def insertLocations (covered : Set Nat) (range : Range) : Set Nat :=
  if range.Proper then covered ∪ range.locations else covered

def removeLocations (covered : Set Nat) (range : Range) : Set Nat :=
  if range.Proper then covered \ range.locations else covered

def RangesetOp.locations (covered : Set Nat) : RangesetOp → Set Nat
  | .insert range => insertLocations covered range
  | .remove range => removeLocations covered range
  | .insertRanges ranges => ranges.foldl insertLocations covered
  | .removeRanges ranges => ranges.foldl removeLocations covered
  | .reset => ∅

theorem allProper_absorbs {entries result : List Range}
    (absorbs : Absorbs Range.start Range.stop gap entries entry result before middle after hull)
    (proper : AllProper entries) (hullProper : hull.Proper) : AllProper result := by
  rw [absorbs.source, allProper_append, allProper_append] at proper
  rw [absorbs.target, allProper_append]
  refine ⟨proper.1.1, fun other member => ?_⟩
  rcases List.mem_cons.mp member with rfl | inAfter
  · exact hullProper
  · exact proper.2 other inAfter

theorem Rangeset.Ok.absorbs (ok : p.Ok gap) (hullProper : hull.Proper)
    (absorbs : Absorbs Range.start Range.stop gap p.ranges range q.ranges before middle after hull) :
    q.Ok gap ∧ q.locations = p.locations ∪ range.locations :=
  ⟨⟨allProper_absorbs absorbs ok.proper hullProper, absorbs.apart ok.apart⟩, absorbs.cover_eq⟩

def RoomAround (gap : Nat → Nat → Prop) (p : Rangeset) (range : Range) : Prop :=
  (∀ other ∈ p.ranges, other.stop ≤ range.start → gap other.stop range.start) ∧
    ∀ other ∈ p.ranges, range.stop ≤ other.start → gap range.stop other.start

theorem rangesetInsertRange_ok (spacing : Spacing gap) (ok : p.Ok gap) (range : Range)
    (room : range.Proper → (∃ entry ∈ p.ranges, entry.Meets range) → RoomAround gap p range) :
    ∃ q, rangesetInsertRange p range = some q ∧ q.Ok gap ∧
      q.locations = insertLocations p.locations range := by
  rw [rangesetInsertRange, insertLocations]
  by_cases proper : range.Proper
  · obtain ⟨nonempty, valid⟩ := (range_proper_iff range).mp proper
    rw [if_neg nonempty, if_neg (by simp [valid]), if_pos proper]
    have search := rangeIntersectsBsearch_outcome (ok.apart.ordered spacing) ok.proper proper
    cases found : rangeIntersectsBsearch p.ranges range with
    | none =>
      rw [found] at search
      obtain ⟨q, _, _, _, hull, result, hullProper, absorbs⟩ :=
        rangesetInsertKnownAbsent_absorbs spacing proper ok.proper ok.apart search
      exact ⟨q, result, ok.absorbs hullProper absorbs⟩
    | some index =>
      rw [found] at search
      obtain ⟨bound, meets⟩ := search
      obtain ⟨below, above⟩ := room proper ⟨_, List.getElem_mem bound, meets⟩
      obtain ⟨ranges, _, _, _, hull, result, hullProper, -, absorbs⟩ :=
        rangesetInsertOverlapping_absorbs spacing proper ok.proper ok.apart bound meets
          below above
      refine ⟨{ p with ranges := ranges }, by simp [result], ok.absorbs hullProper absorbs⟩
  · rw [if_neg proper]
    rw [range_proper_iff, not_and_or, not_not, Bool.not_eq_true] at proper
    refine ⟨p, ?_, ok, rfl⟩
    rcases proper with empty | invalid
    · rw [if_pos empty]
    · rw [if_pos invalid]
      split <;> rfl

/-! Each round of the removal loop takes one entry out of the way of the range. -/

def meetingCount (range : Range) (ranges : List Range) : Nat :=
  ranges.countP fun entry => decide (entry.Meets range)

theorem meetingCount_splice (range entry : Range) (before after : List Range) :
    meetingCount range (before ++ entry :: after) =
      meetingCount range before + meetingCount range after +
        (if entry.Meets range then 1 else 0) := by
  simp only [meetingCount, List.countP_append, List.countP_cons, decide_eq_true_eq]
  omega

structure Cleared (gap : Nat → Nat → Prop) (range : Range) (p q : Rangeset) : Prop where
  ok : q.Ok gap
  outside : q.locations \ range.locations = p.locations \ range.locations
  fewer : meetingCount range q.ranges < meetingCount range p.ranges

theorem Rangeset.Ok.narrow (spacing : Spacing gap) (ok : p.Ok gap)
    (source : p.ranges = before ++ entry :: after)
    (target : q.ranges = before ++ narrower :: after) (proper : narrower.Proper)
    (startUp : entry.start ≤ narrower.start) (stopDown : narrower.stop ≤ entry.stop) :
    q.Ok gap := by
  obtain ⟨allProper, apart⟩ := ok
  rw [source] at allProper apart
  refine ⟨?_, target ▸ apart.narrow spacing.widens startUp stopDown⟩
  rw [target]
  rw [allProper_append] at allProper ⊢
  refine ⟨allProper.1, fun other member => ?_⟩
  rcases List.mem_cons.mp member with rfl | inAfter
  · exact proper
  · exact allProper.2.tail other inAfter

theorem Rangeset.Ok.clear_narrow (spacing : Spacing gap) (ok : p.Ok gap)
    (source : p.ranges = before ++ entry :: after)
    (target : q.ranges = before ++ narrower :: after) (proper : narrower.Proper)
    (startUp : entry.start ≤ narrower.start) (stopDown : narrower.stop ≤ entry.stop)
    (meets : entry.Meets range) (misses : ¬narrower.Meets range)
    (outside : narrower.locations \ range.locations = entry.locations \ range.locations) :
    Cleared gap range p q := by
  refine ⟨ok.narrow spacing source target proper startUp stopDown, ?_, ?_⟩
  · simp only [Rangeset.locations, source, target, cover_append, cover_cons,
      Set.union_sdiff_distrib]
    rw [show Set.Ico narrower.start narrower.stop \ range.locations =
      Set.Ico entry.start entry.stop \ range.locations from outside]
  · rw [source, target, meetingCount_splice, meetingCount_splice, if_pos meets, if_neg misses]
    omega

theorem Rangeset.Ok.clear_contained (ok : p.Ok gap)
    (source : p.ranges = before ++ entry :: after) (target : q.ranges = before ++ after)
    (meets : entry.Meets range) (startUp : range.start ≤ entry.start)
    (stopDown : entry.stop ≤ range.stop) : Cleared gap range p q := by
  obtain ⟨allProper, apart⟩ := ok
  rw [source] at allProper apart
  refine ⟨⟨?_, target ▸ apart.remove⟩, ?_, ?_⟩
  · rw [target]
    rw [allProper_append] at allProper ⊢
    exact ⟨allProper.1, allProper.2.tail⟩
  · have inside : Set.Ico entry.start entry.stop \ range.locations = ∅ :=
      Set.sdiff_eq_empty.mpr (Set.Ico_subset_Ico startUp stopDown)
    simp only [Rangeset.locations, source, target, cover_append, cover_cons,
      Set.union_sdiff_distrib, inside, Set.empty_union]
  · rw [source, target, meetingCount_splice, if_pos meets, meetingCount, meetingCount,
      meetingCount, List.countP_append]
    omega

theorem Rangeset.Ok.clear_split (spacing : Spacing gap) {front back : Range}
    (ok : p.Ok gap) (source : p.ranges = before ++ entry :: after) (rangeProper : range.Proper)
    (frontProper : front.Proper) (backProper : back.Proper) (frontStart : front.start = entry.start)
    (frontStop : front.stop = range.start) (backStart : back.start = range.stop)
    (backStop : back.stop = entry.stop) :
    ∃ q, rangesetInsertKnownAbsent { p with ranges := before ++ front :: after } back = some q ∧
      Cleared gap range p q := by
  obtain ⟨narrowed, narrowedEq⟩ :
      ∃ narrowed : Rangeset, narrowed = { p with ranges := before ++ front :: after } := ⟨_, rfl⟩
  have target : narrowed.ranges = before ++ front :: after := by rw [narrowedEq]
  rw [← narrowedEq]
  have frontNonempty := frontProper.start_lt_stop
  have backNonempty := backProper.start_lt_stop
  have rangeNonempty := rangeProper.start_lt_stop
  have sorted : SortedDisjoint (before ++ entry :: after) := source ▸ ok.apart.ordered spacing
  have beforeEntry : ∀ other ∈ before, other.stop ≤ entry.start := fun other member =>
    (List.pairwise_append.mp sorted).2.2 other member entry List.mem_cons_self
  have entryAfter : ∀ other ∈ after, entry.stop ≤ other.start :=
    (List.pairwise_cons.mp (List.pairwise_append.mp sorted).2.1).1
  have narrowedOk : narrowed.Ok gap :=
    ok.narrow spacing source target frontProper (by omega) (by omega)
  have ends : ∀ other ∈ narrowed.ranges, other.stop ≤ range.start ∨ back.stop ≤ other.start := by
    intro other member
    rw [target] at member
    rcases List.mem_append.mp member with inBefore | inRest
    · have earlier := beforeEntry other inBefore
      omega
    · rcases List.mem_cons.mp inRest with rfl | inAfter
      · omega
      · have later := entryAfter other inAfter
        omega
  have misses : ∀ other ∈ narrowed.ranges, ¬other.Meets back := by
    rintro other member ⟨starts, reaches⟩
    have outer := ends other member
    omega
  obtain ⟨q, kept, middle, rest, hull, result, hullProper, absorbs⟩ :=
    rangesetInsertKnownAbsent_absorbs spacing backProper narrowedOk.proper narrowedOk.apart misses
  obtain ⟨qOk, qLocations⟩ := narrowedOk.absorbs hullProper absorbs
  refine ⟨q, result, qOk, ?_, ?_⟩
  · rw [qLocations]
    ext location
    simp only [Rangeset.locations, source, target, cover_append, cover_cons, Range.locations,
      Set.mem_sdiff, Set.mem_union, Set.mem_Ico, frontStart, frontStop, backStart, backStop]
    have parts : ¬(range.start ≤ location ∧ location < range.stop) →
        ((entry.start ≤ location ∧ location < entry.stop) ↔
          (entry.start ≤ location ∧ location < range.start) ∨
            (range.stop ≤ location ∧ location < entry.stop)) := by
      omega
    refine and_congr_left fun outer => ?_
    rw [parts outer, or_assoc, or_assoc,
      @or_comm _ (range.stop ≤ location ∧ location < entry.stop), or_assoc]
  · have hullMisses : ¬hull.Meets range := by
      have hullStart : range.stop ≤ hull.start := by
        rcases absorbs.spans.startTight with atBack | ⟨other, member, same⟩
        · omega
        · have outer := ends other (by rw [absorbs.source]; simp [member])
          have touching := absorbs.touches other member
          have reaches := touching.2
          omega
      rintro ⟨starts, -⟩
      omega
    have frontMisses : ¬front.Meets range := by
      rintro ⟨-, reaches⟩
      omega
    have entryMeets : entry.Meets range := ⟨by omega, by omega⟩
    have fewerNarrowed : meetingCount range narrowed.ranges < meetingCount range p.ranges := by
      rw [source, target, meetingCount_splice, meetingCount_splice, if_pos entryMeets,
        if_neg frontMisses]
      omega
    have fewerResult : meetingCount range q.ranges ≤ meetingCount range narrowed.ranges := by
      rw [absorbs.source, absorbs.target, meetingCount_splice, if_neg hullMisses]
      simp only [meetingCount, List.countP_append]
      omega
    omega

theorem rangesetRemoveLoop_step (spacing : Spacing gap)
    (rangeProper : range.Proper) (ok : p.Ok gap) {index : Nat}
    (found : rangeIntersectsBsearch p.ranges range = some index) (fuel : Nat) :
    ∃ q, rangesetRemoveLoop range (fuel + 1) p = rangesetRemoveLoop range fuel q ∧
      Cleared gap range p q := by
  have search := rangeIntersectsBsearch_outcome (ok.apart.ordered spacing) ok.proper rangeProper
  rw [found] at search
  obtain ⟨bound, meets⟩ := search
  obtain ⟨before, after, source, beforeLength⟩ := exists_splice bound
  have entryProper := ok.proper _ (List.getElem_mem bound)
  generalize p.ranges[index] = entry at source meets entryProper
  subst beforeLength
  have entryNonempty := entryProper.start_lt_stop
  have rangeNonempty := rangeProper.start_lt_stop
  obtain ⟨starts, reaches⟩ := meets
  have startNat : ∀ other : Range, other.location.toNat = other.start := fun _ => rfl
  rw [rangesetRemoveLoop, found]
  simp only [source, rangeAt_splice, eraseIdx_splice, set_splice,
    rangeContains_iff rangeProper entryProper]
  by_cases contained : range.start ≤ entry.start ∧ entry.stop ≤ range.stop
  · rw [if_pos contained]
    exact ⟨_, rfl, ok.clear_contained source rfl ⟨starts, reaches⟩ contained.1 contained.2⟩
  · rw [if_neg contained]
    have front : range.start ≤ entry.start ∨
        Range.stop { entry with length := range.location - entry.location } = range.start := by
      by_cases later : entry.start ≤ range.start
      · exact Or.inr (Range.stop_mk_sub later)
      · omega
    have back : entry.stop ≤ range.stop ∨
        Range.stop ⟨rangeGetMax range, rangeGetMax entry - rangeGetMax range⟩ = entry.stop := by
      by_cases longer : range.stop ≤ entry.stop
      · rw [Range.stop_mk_sub, entryProper.getMax_toNat]
        · exact Or.inr rfl
        · rwa [entryProper.getMax_toNat, rangeProper.getMax_toNat]
      · omega
    have frontStart : Range.start { entry with length := range.location - entry.location } =
        entry.start := rfl
    have backStart : Range.start ⟨rangeGetMax range, rangeGetMax entry - rangeGetMax range⟩ =
        range.stop := rangeProper.getMax_toNat
    have frontProper : entry.start < range.start →
        Range.Proper { entry with length := range.location - entry.location } := fun inner =>
      Range.proper_of_ends (by omega) (by have within := rangeProper.2; omega)
    have backProper : range.stop < entry.stop →
        Range.Proper ⟨rangeGetMax range, rangeGetMax entry - rangeGetMax range⟩ := fun inner =>
      Range.proper_of_ends (by omega) (by have within := entryProper.2; omega)
    simp only [gt_iff_lt, UInt64.lt_iff_toNat_lt, rangeProper.getMax_toNat,
      entryProper.getMax_toNat, startNat, rangeMake]
    by_cases hole : entry.start < range.start ∧ range.stop < entry.stop
    · rw [if_pos hole]
      obtain ⟨q, result, cleared⟩ := ok.clear_split spacing source
        rangeProper (frontProper hole.1) (backProper hole.2) frontStart (by omega) backStart
        (by omega)
      exact ⟨q, by rw [result], cleared⟩
    · rw [if_neg hole]
      by_cases trailing : range.stop < entry.stop
      · rw [if_pos trailing]
        refine ⟨_, rfl, ok.clear_narrow spacing source rfl (backProper trailing) (by omega)
          (by omega) ⟨starts, reaches⟩ ?_ ?_⟩
        · rintro ⟨backStarts, -⟩
          omega
        · ext location
          simp only [Range.locations, Set.mem_sdiff, Set.mem_Ico]
          omega
      · rw [if_neg trailing]
        refine ⟨_, rfl, ok.clear_narrow spacing source rfl (frontProper (by omega)) (by omega)
          (by omega) ⟨starts, reaches⟩ ?_ ?_⟩
        · rintro ⟨-, frontReaches⟩
          omega
        · ext location
          simp only [Range.locations, Set.mem_sdiff, Set.mem_Ico]
          omega

theorem rangesetRemoveLoop_ok (spacing : Spacing gap)
    (rangeProper : range.Proper) : ∀ (fuel : Nat) (p : Rangeset), p.Ok gap →
    meetingCount range p.ranges < fuel →
      ∃ q, rangesetRemoveLoop range fuel p = some q ∧ q.Ok gap ∧
        q.locations = p.locations \ range.locations := by
  intro fuel
  induction fuel with
  | zero => intro p _ enough; omega
  | succ fuel ih =>
    intro p ok enough
    cases found : rangeIntersectsBsearch p.ranges range with
    | none =>
      have search := rangeIntersectsBsearch_outcome (ok.apart.ordered spacing) ok.proper
        rangeProper
      rw [found] at search
      refine ⟨p, by rw [rangesetRemoveLoop, found], ok, ?_⟩
      exact (cover_disjoint_of_not_meets search).sdiff_eq_left.symm
    | some index =>
      obtain ⟨q, stepped, cleared⟩ :=
        rangesetRemoveLoop_step spacing rangeProper ok found fuel
      obtain ⟨final, result, finalOk, locations⟩ :=
        ih q cleared.ok (by have fewer := cleared.fewer; omega)
      exact ⟨final, stepped.trans result, finalOk, locations.trans cleared.outside⟩

theorem rangesetRemoveRange_ok (spacing : Spacing gap) (ok : p.Ok gap) (range : Range) :
    ∃ q, rangesetRemoveRange p range = some q ∧ q.Ok gap ∧
      q.locations = removeLocations p.locations range := by
  rw [rangesetRemoveRange, removeLocations]
  by_cases proper : range.Proper
  · obtain ⟨nonempty, valid⟩ := (range_proper_iff range).mp proper
    rw [if_neg nonempty, if_neg (by simp [valid]), if_pos proper]
    refine rangesetRemoveLoop_ok spacing proper _ p ok ?_
    exact Nat.lt_succ_of_le List.countP_le_length
  · rw [if_neg proper]
    rw [range_proper_iff, not_and_or, not_not, Bool.not_eq_true] at proper
    refine ⟨p, ?_, ok, rfl⟩
    rcases proper with empty | invalid
    · rw [if_pos empty]
    · rw [if_pos invalid]
      split <;> rfl

/-! The public functions check the range once more. -/

theorem rangesetInsert_eq (p : Rangeset) (range : Range) :
    rangesetInsert p range = rangesetInsertRange p range := by
  rw [rangesetInsert]
  split
  · rename_i empty
    rw [rangesetInsertRange, if_pos empty]
  · rename_i nonempty
    split
    · rename_i invalid
      rw [rangesetInsertRange, if_neg nonempty, if_pos invalid]
    · rfl

theorem rangesetRemove_eq (p : Rangeset) (range : Range) :
    rangesetRemove p range = rangesetRemoveRange p range := by
  rw [rangesetRemove]
  split
  · rename_i empty
    rw [rangesetRemoveRange, if_pos empty]
  · rename_i nonempty
    split
    · rename_i invalid
      rw [rangesetRemoveRange, if_neg nonempty, if_pos invalid]
    · rfl

@[simp] theorem rangesetShrink_ranges (p : Rangeset) : (rangesetShrink p).ranges = p.ranges := by
  simp only [rangesetShrink]
  split
  · rfl
  · split <;> rfl

theorem Rangeset.Ok.of_ranges (ok : p.Ok gap) (same : q.ranges = p.ranges) : q.Ok gap :=
  ⟨same ▸ ok.proper, same ▸ ok.apart⟩

theorem Rangeset.locations_of_ranges (same : q.ranges = p.ranges) :
    q.locations = p.locations := by
  rw [Rangeset.locations, Rangeset.locations, same]

theorem Rangeset.Ok.empty (empty : p.ranges = []) :
    p.Ok gap :=
  ⟨by simp [AllProper, empty], by simp [Apart, empty]⟩

theorem rangesetRemoveAll_ok (spacing : Spacing gap) :
    ∀ (ranges : List Range) (p : Rangeset), p.Ok gap →
      ∃ q, ranges.foldlM rangesetRemoveRange p = some q ∧ q.Ok gap ∧
        q.locations = ranges.foldl removeLocations p.locations := by
  intro ranges
  induction ranges with
  | nil => intro p ok; exact ⟨p, rfl, ok, rfl⟩
  | cons range rest ih =>
    intro p ok
    obtain ⟨next, removed, nextOk, locations⟩ := rangesetRemoveRange_ok spacing ok range
    obtain ⟨q, result, qOk, final⟩ := ih next nextOk
    refine ⟨q, ?_, qOk, ?_⟩
    · rw [List.foldlM_cons, removed]
      exact result
    · rw [final, locations, List.foldl_cons]

end MulleCore
