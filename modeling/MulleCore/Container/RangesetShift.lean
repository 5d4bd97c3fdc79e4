import MulleCore.Container.RangesetSearch
import MulleCore.Data.Intptr

/-!
`_mulle__rangeset_shift`. A `delta` is an `Int64`, and wraps around where it is negated.
-/

namespace MulleCore

open Library

def shiftRange (delta : Int64) (range : Range) : Range :=
  { range with location := range.location + delta.toUInt64 }

def rangesetDeltashift (ranges : List Range) (curr : Nat) (delta : Int64) : List Range :=
  ranges.take curr ++ (ranges.drop curr).map (shiftRange delta)

def rangesetShiftRemove (p : Rangeset) (location : UInt64) (delta : Int64) :
    Option (Rangeset × Int64) :=
  if delta < 0 then
    let toRemove := (location + delta.toUInt64).toInt64
    if toRemove < 0 then
      (rangesetRemoveRange p (rangeMake location (-toRemove).toUInt64)).map fun p => (p, delta)
    else some (p, delta)
  else
    let delta := if delta.toUInt64 > rangeLocationMax + 1 then
      (rangeLocationMax + 1).toInt64 else delta
    (rangesetRemoveRange p (rangeMake (rangeLocationMax + 1 - delta.toUInt64) delta.toUInt64)).map
      fun p => (p, delta)

/-- Behind a removed range `prev` may touch the entry that follows. -/
def rangesetShiftCoalesce (ranges : List Range) (found : Nat) : List Range :=
  let prev := rangeAt ranges (found - 1)
  let curr := rangeAt ranges found
  if found ≠ 0 ∧ rangeGetMax prev = curr.location then
    (ranges.set (found - 1) { prev with length := prev.length + curr.length }).eraseIdx found
  else ranges

def rangesetShiftFound (p : Rangeset) (location : UInt64) (delta : Int64) (found : Nat) :
    Option Rangeset :=
  let entry := rangeAt p.ranges found
  if rangeContainsLocation entry location = true ∧ entry.location < location then
    let ranges := rangesetDeltashift p.ranges (found + 1) delta
    let front := { entry with length := location - entry.location }
    let newRange := rangeMake (location + delta.toUInt64) (rangeGetMax entry - location)
    rangesetInsert { p with ranges := ranges.set found front } newRange
  else
    let ranges := rangesetDeltashift p.ranges found delta
    some { p with ranges := if delta < 0 then rangesetShiftCoalesce ranges found else ranges }

def rangesetShift (p : Rangeset) (location : UInt64) (delta : Int64) : Option Rangeset :=
  if p.ranges.isEmpty ∨ delta = 0 then some p
  else do
    let (p, delta) ← rangesetShiftRemove p location delta
    match rangesetSearchNearestP p location with
    | none => some p
    | some found => rangesetShiftFound p location delta found

def shiftLocations (covered : Set Nat) (location : Nat) (delta : Int) : Set Nat :=
  {place | place ∈ covered ∧ place < location} ∪
    {place | place ≤ rangeLocationMax.toNat ∧ ∃ source ∈ covered, location ≤ source ∧
      (place : Int) = source + delta}

def ShiftRight (p : Rangeset) (location : UInt64) (delta : Int64) (result : Option Rangeset) : Prop :=
  ∃ q, result = some q ∧ AllProper q.ranges ∧ SortedDisjoint q.ranges ∧
    q.locations = shiftLocations p.locations location.toNat delta.toInt

section Entries

variable {delta : Int64} {range : Range}
variable {entries : List Range}

structure Range.Movable (range : Range) (delta : Int64) : Prop where
  proper : range.Proper
  lower : 0 ≤ (range.start : Int) + delta.toInt
  upper : (range.stop : Int) + delta.toInt ≤ notFound.toNat

theorem Range.Movable.start (movable : range.Movable delta) :
    ((shiftRange delta range).start : Int) = range.start + delta.toInt := by
  have upper := movable.upper
  have nonempty := movable.proper.start_lt_stop
  rw [notFound_toNat] at upper
  exact add_delta_toNat range.location delta movable.lower (by
    change (range.start : Int) + delta.toInt < 2 ^ 64
    omega)

theorem Range.Movable.stop (movable : range.Movable delta) :
    ((shiftRange delta range).stop : Int) = range.stop + delta.toInt := by
  have starts := movable.start
  have length : (shiftRange delta range).length.toNat = range.length.toNat := rfl
  rw [Range.start, Range.start] at starts
  rw [Range.stop, Range.stop]
  omega

theorem Range.Movable.shifted (movable : range.Movable delta) : (shiftRange delta range).Proper := by
  refine ⟨movable.proper.1, ?_⟩
  have ends := movable.stop
  have upper := movable.upper
  omega

theorem mem_cover_shift (movable : ∀ entry ∈ entries, entry.Movable delta) {place : Nat} :
    place ∈ cover Range.start Range.stop (entries.map (shiftRange delta)) ↔
      ∃ source ∈ cover Range.start Range.stop entries, (place : Int) = source + delta.toInt := by
  constructor
  · rintro ⟨_, member, lower, upper⟩
    obtain ⟨entry, inside, rfl⟩ := List.mem_map.mp member
    have starts := (movable entry inside).start
    have ends := (movable entry inside).stop
    exact ⟨(place - delta.toInt).toNat, ⟨entry, inside, by omega, by omega⟩, by omega⟩
  · rintro ⟨source, ⟨entry, inside, lower, upper⟩, moved⟩
    have starts := (movable entry inside).start
    have ends := (movable entry inside).stop
    exact ⟨shiftRange delta entry, List.mem_map_of_mem inside, by omega, by omega⟩

theorem sortedDisjoint_shift (sorted : SortedDisjoint entries)
    (movable : ∀ entry ∈ entries, entry.Movable delta) :
    SortedDisjoint (entries.map (shiftRange delta)) := by
  refine List.pairwise_map.mpr (List.Pairwise.imp_of_mem ?_ sorted)
  intro left right leftMember rightMember order
  have ends := (movable left leftMember).stop
  have starts := (movable right rightMember).start
  omega

theorem allProper_shift (movable : ∀ entry ∈ entries, entry.Movable delta) :
    AllProper (entries.map (shiftRange delta)) := by
  intro other member
  obtain ⟨entry, inside, rfl⟩ := List.mem_map.mp member
  exact (movable entry inside).shifted

theorem rangesetDeltashift_splice (before after : List Range) (delta : Int64) :
    rangesetDeltashift (before ++ after) before.length delta = before ++
      after.map (shiftRange delta) := by
  rw [rangesetDeltashift, List.take_left, List.drop_left]

theorem sortedDisjoint_append {before after : List Range} :
    SortedDisjoint (before ++ after) ↔ SortedDisjoint before ∧ SortedDisjoint after ∧
      ∀ low ∈ before, ∀ high ∈ after, low.stop ≤ high.start :=
  List.pairwise_append

theorem rangesetShiftCoalesce_ok {ranges : List Range} (found : Nat) (proper : AllProper ranges)
    (sorted : SortedDisjoint ranges) (bound : found < ranges.length) :
    AllProper (rangesetShiftCoalesce ranges found) ∧
    SortedDisjoint (rangesetShiftCoalesce ranges found) ∧
      cover Range.start Range.stop (rangesetShiftCoalesce ranges found) =
        cover Range.start Range.stop ranges := by
  rw [rangesetShiftCoalesce]
  split
  · rename_i touching
    obtain ⟨before, after, splits, sized⟩ := exists_splice bound
    generalize ranges[found] = curr at splits
    rcases List.eq_nil_or_concat' before with rfl | ⟨front, prev, rfl⟩
    · exact absurd sized.symm touching.1
    · subst splits sized
      have previous : rangeAt (front ++ [prev] ++ curr :: after) ((front ++ [prev]).length - 1) =
        prev := by simp [rangeAt]
      have place : (front ++ [prev]).length - 1 = front.length := by simp
      have behind : (front ++ [prev]).length = front.length + 1 := by simp
      rw [previous, rangeAt_splice] at touching ⊢
      rw [place, behind]
      rw [List.append_assoc, List.singleton_append] at proper sorted ⊢
      rw [set_splice, eraseIdx_splice_succ]
      have prevProper := proper prev (by simp)
      have currProper := proper curr (by simp)
      have prevNonempty := prevProper.start_lt_stop
      have currNonempty := currProper.start_lt_stop
      have adjacent : prev.stop = curr.start := (rangeGetMax_eq_location prevProper).mp touching.2
      have joinedStop := Range.lengthen_stop currProper adjacent
      have joinedProper := Range.lengthen_proper prevProper currProper adjacent
      have joinedStart : (prev.lengthen curr).start = prev.start := rfl
      change AllProper (front ++ prev.lengthen curr :: after) ∧
        SortedDisjoint (front ++ prev.lengthen curr :: after) ∧
        cover Range.start Range.stop (front ++ prev.lengthen curr :: after) = _
      generalize prev.lengthen curr = joined at joinedStop joinedProper joinedStart ⊢
      rw [sortedDisjoint_append] at sorted ⊢
      obtain ⟨frontSorted, restSorted, crossing⟩ := sorted
      obtain ⟨prevBelow, restSorted⟩ := List.pairwise_cons.mp restSorted
      obtain ⟨currBelow, afterSorted⟩ := List.pairwise_cons.mp restSorted
      refine ⟨?_, ⟨frontSorted, List.pairwise_cons.mpr ⟨?_, afterSorted⟩, ?_⟩, ?_⟩
      · intro entry member
        rw [List.mem_append, List.mem_cons] at member
        rcases member with inFront | rfl | inAfter
        · exact proper entry (by simp [inFront])
        · exact joinedProper
        · exact proper entry (by simp [inAfter])
      · intro entry member
        have order := currBelow entry member
        omega
      · intro low lowMember high highMember
        rcases List.mem_cons.mp highMember with rfl | inAfter
        · have order := crossing low lowMember prev List.mem_cons_self
          omega
        · exact crossing low lowMember high (by simp [inAfter])
      · have whole : Set.Ico joined.start joined.stop = Set.Ico prev.start prev.stop ∪
            Set.Ico curr.start curr.stop := by
          ext place
          simp only [Set.mem_Ico, Set.mem_union]
          omega
        rw [cover_append, cover_append, cover_cons, cover_cons, cover_cons, whole, Set.union_assoc]
  · exact ⟨proper, sorted, rfl⟩

end Entries

/-!
What a shift does to the entries, where the nearest entry is the right one to start from.
-/

def movedLocations (covered : Set Nat) (location : Nat) (delta : Int) : Set Nat :=
  {place | (place ∈ covered ∧ place < location) ∨ ∃ source ∈ covered, location ≤ source ∧
    (place : Int) = source + delta}

def AllMovable (covered : Set Nat) (location : Nat) (delta : Int) : Prop :=
  ∀ source ∈ covered, location ≤ source → 0 ≤ (source : Int) + delta ∧
    (source : Int) + delta < notFound.toNat

section Moves

variable {q : Rangeset} {location : UInt64} {delta : Int64} {before after : List Range}
  {entry : Range}
variable {place : Nat}

theorem movable_of_above (ok : q.Ok (· ≤ ·)) (all : AllMovable q.locations location.toNat delta.toInt)
    (member : entry ∈ q.ranges) (above : location.toNat ≤ entry.start) : entry.Movable delta := by
  have proper := ok.proper entry member
  have nonempty := proper.start_lt_stop
  have first := all entry.start ⟨entry, member, le_rfl, nonempty⟩ above
  have last := all (entry.stop - 1) ⟨entry, member, by omega, by omega⟩ (by omega)
  exact ⟨proper, first.1, by omega⟩

theorem mem_cover_of_above (above : ∀ other ∈ after, location.toNat ≤ other.start)
    (covered : place ∈ cover Range.start Range.stop after) : location.toNat ≤ place := by
  obtain ⟨other, member, lower, _⟩ := covered
  exact le_trans (above other member) lower

theorem mem_cover_of_below (below : ∀ other ∈ before, other.stop ≤ location.toNat)
    (covered : place ∈ cover Range.start Range.stop before) : place < location.toNat := by
  obtain ⟨other, member, _, upper⟩ := covered
  exact lt_of_lt_of_le upper (below other member)

theorem rangesetDeltashift_ok (ok : q.Ok (· ≤ ·)) (splits : q.ranges = before ++ after)
    (below : ∀ other ∈ before, other.stop ≤ location.toNat)
    (above : ∀ other ∈ after, location.toNat ≤ other.start)
    (movable : ∀ other ∈ after, other.Movable delta)
    (apart : ∀ low ∈ before, ∀ high ∈ after, (low.stop : Int) ≤ high.start + delta.toInt) :
    AllProper (before ++ after.map (shiftRange delta)) ∧
    SortedDisjoint (before ++ after.map (shiftRange delta)) ∧
      cover Range.start Range.stop (before ++ after.map (shiftRange delta)) =
        movedLocations q.locations location.toNat delta.toInt := by
  have proper := ok.proper
  have sorted : SortedDisjoint q.ranges := ok.apart
  rw [splits] at proper sorted
  obtain ⟨beforeSorted, afterSorted, _⟩ := sortedDisjoint_append.mp sorted
  refine ⟨allProper_append.mpr ⟨(allProper_append.mp proper).1, allProper_shift movable⟩,
    sortedDisjoint_append.mpr ⟨beforeSorted, sortedDisjoint_shift afterSorted movable, ?_⟩, ?_⟩
  · intro low lowMember high highMember
    obtain ⟨origin, inside, rfl⟩ := List.mem_map.mp highMember
    have starts := (movable origin inside).start
    have order := apart low lowMember origin inside
    omega
  · ext place
    rw [cover_append, Set.mem_union, mem_cover_shift movable, Rangeset.locations,
      splits, cover_append]
    constructor
    · rintro (covered | ⟨source, covered, moved⟩)
      · exact Or.inl ⟨Or.inl covered, mem_cover_of_below below covered⟩
      · exact Or.inr ⟨source, Or.inr covered, mem_cover_of_above above covered, moved⟩
    · rintro (⟨covered | covered, less⟩ | ⟨source, covered | covered, greater, moved⟩)
      · exact Or.inl covered
      · exact absurd less (Nat.not_lt.mpr (mem_cover_of_above above covered))
      · exact absurd greater (Nat.not_le.mpr (mem_cover_of_below below covered))
      · exact Or.inr ⟨source, covered, moved⟩

def frontRange (entry : Range) (location : UInt64) : Range :=
  { entry with length := location - entry.location }

theorem frontRange_ends (proper : entry.Proper) (starts : entry.start < location.toNat)
    (ends : location.toNat < entry.stop) :
    (frontRange entry location).start = entry.start ∧
    (frontRange entry location).stop = location.toNat ∧
      (frontRange entry location).Proper := by
  have stop : (frontRange entry location).stop = location.toNat :=
    Range.stop_mk_sub (Nat.le_of_lt starts)
  have start : (frontRange entry location).start = entry.start := rfl
  refine ⟨start, stop, Range.proper_of_ends (by omega) ?_⟩
  have bound := proper.2
  omega

def movedTail (entry : Range) (location : UInt64) (delta : Int64) : Range :=
  rangeMake (location + delta.toUInt64) (rangeGetMax entry - location)

theorem movedTail_ends (proper : entry.Proper) (ends : location.toNat < entry.stop)
    (lower : 0 ≤ (location.toNat : Int) + delta.toInt)
    (upper : (entry.stop : Int) + delta.toInt ≤ notFound.toNat) :
    ((movedTail entry location delta).start : Int) = location.toNat + delta.toInt ∧
      ((movedTail entry location delta).stop : Int) = entry.stop + delta.toInt ∧
      (movedTail entry location delta).Proper := by
  have maximum := proper.getMax_toNat
  have length : (rangeGetMax entry - location).toNat = entry.stop - location.toNat := by
    rw [UInt64.toNat_sub_of_le, maximum]
    rw [UInt64.le_iff_toNat_le, maximum]
    exact Nat.le_of_lt ends
  have start : ((movedTail entry location delta).start : Int) = location.toNat + delta.toInt := by
    rw [notFound_toNat] at upper
    exact add_delta_toNat location delta lower (by omega)
  have stop : ((movedTail entry location delta).stop : Int) = entry.stop + delta.toInt := by
    have sum : (movedTail entry location delta).stop =
        (movedTail entry location delta).start + (rangeGetMax entry - location).toNat := rfl
    omega
  exact ⟨start, stop, Range.proper_of_ends (by omega) (by omega)⟩

theorem rangesetDeltashift_set (before after : List Range) (entry other : Range) (delta : Int64) :
    (rangesetDeltashift (before ++ entry :: after) (before.length + 1) delta).set before.length
      other =
      before ++ other :: after.map (shiftRange delta) := by
  have length : before.length + 1 = (before ++ [entry]).length := by simp
  rw [List.append_cons, length, rangesetDeltashift_splice, List.append_assoc, List.singleton_append,
    set_splice]

theorem rangesetShiftSplit_ok (ok : q.Ok (· ≤ ·)) (splits : q.ranges = before ++ entry :: after)
    (starts : entry.start < location.toNat) (ends : location.toNat < entry.stop)
    (all : AllMovable q.locations location.toNat delta.toInt)
    (apart : ∀ high ∈ after, (location.toNat : Int) ≤ high.start + delta.toInt) :
    ∃ r, rangesetInsert { q with ranges := before ++ frontRange entry location :: after.map (shiftRange delta) }
        (movedTail entry location delta) = some r ∧ r.Ok (· ≤ ·) ∧
      r.locations = movedLocations q.locations location.toNat delta.toInt := by
  have proper := ok.proper
  have sorted : SortedDisjoint q.ranges := ok.apart
  have member : entry ∈ q.ranges := by simp [splits]
  have entryProper := proper entry member
  have first := all location.toNat ⟨entry, member, Nat.le_of_lt starts, ends⟩ le_rfl
  have last := all (entry.stop - 1) ⟨entry, member, by omega, by omega⟩ (by omega)
  obtain ⟨frontStart, frontStop, frontProper⟩ := frontRange_ends entryProper starts ends
  obtain ⟨tailStart, tailStop, tailProper⟩ := movedTail_ends entryProper ends first.1 (by omega)
  have movable : ∀ other ∈ after, other.Movable delta := fun other inAfter => by
    have order := (sortedDisjoint_splits (splits ▸ sorted)).2 other inAfter
    exact movable_of_above ok all (by simp [splits, inAfter]) (by omega)
  rw [splits] at proper sorted
  obtain ⟨beforeSorted, restSorted, crossing⟩ := sortedDisjoint_append.mp sorted
  have below : ∀ other ∈ before, other.stop ≤ entry.start := fun other inBefore =>
    crossing other inBefore entry List.mem_cons_self
  have above := (List.pairwise_cons.mp restSorted).1
  have moved : ∀ other ∈ after.map (shiftRange delta), location.toNat ≤ other.start := by
    intro other inMap
    obtain ⟨origin, inAfter, rfl⟩ := List.mem_map.mp inMap
    have order := apart origin inAfter
    have start := (movable origin inAfter).start
    omega
  -- with the upper part cut off, the entries stay sorted
  have cutOk : Rangeset.Ok (· ≤ ·)
      { q with ranges := before ++ frontRange entry location :: after.map (shiftRange delta) } := by
    constructor
    · intro other inside
      rw [List.mem_append, List.mem_cons] at inside
      rcases inside with inBefore | rfl | inMap
      · exact proper other (by simp [inBefore])
      · exact frontProper
      · exact allProper_shift movable other inMap
    · refine sortedDisjoint_append.mpr ⟨beforeSorted, List.pairwise_cons.mpr ⟨?_, ?_⟩, ?_⟩
      · intro other inMap
        have order := moved other inMap
        omega
      · exact sortedDisjoint_shift (List.Pairwise.of_cons restSorted) movable
      · intro low inBefore high inRest
        have order := below low inBefore
        rcases List.mem_cons.mp inRest with rfl | inMap
        · omega
        · have beyond := moved high inMap
          omega
  obtain ⟨r, inserted, rOk, covered⟩ :=
    rangesetInsertRange_ok spacing_le cutOk (movedTail entry location delta)
    (fun _ _ => roomAround_le _ _)
  refine ⟨r, (rangesetInsert_eq _ _).trans inserted, rOk, ?_⟩
  rw [covered, insertLocations, if_pos tailProper]
  ext place
  simp only [Rangeset.locations, splits, cover_append, cover_cons, Set.mem_union, Set.mem_Ico,
    Range.locations, mem_cover_shift movable, frontStart, frontStop]
  constructor
  · rintro ((covered | ⟨lower, upper⟩ | ⟨source, covered, moved⟩) | ⟨lower, upper⟩)
    · obtain ⟨other, inBefore, otherLower, otherUpper⟩ := covered
      have order := below other inBefore
      exact Or.inl ⟨Or.inl ⟨other, inBefore, otherLower, otherUpper⟩, by omega⟩
    · exact Or.inl ⟨Or.inr (Or.inl ⟨lower, by omega⟩), upper⟩
    · obtain ⟨other, inAfter, otherLower, otherUpper⟩ := covered
      have order := above other inAfter
      exact Or.inr ⟨source, Or.inr (Or.inr ⟨other, inAfter, otherLower, otherUpper⟩), by omega, moved⟩
    · exact Or.inr ⟨(place - delta.toInt).toNat,
        Or.inr (Or.inl ⟨by omega, by omega⟩), by omega, by omega⟩
  · rintro (⟨covered | ⟨lower, upper⟩ | ⟨other, inAfter, lower, upper⟩, less⟩ |
      ⟨source, ⟨other, inBefore, lower, upper⟩ | ⟨lower, upper⟩ | covered, greater, moved⟩)
    · exact Or.inl (Or.inl covered)
    · exact Or.inl (Or.inr (Or.inl ⟨lower, less⟩))
    · have order := above other inAfter
      omega
    · have order := below other inBefore
      omega
    · exact Or.inr ⟨by omega, by omega⟩
    · exact Or.inl (Or.inr (Or.inr ⟨source, covered, moved⟩))

end Moves

end MulleCore
