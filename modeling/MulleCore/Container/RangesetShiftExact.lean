import MulleCore.Container.RangesetShiftSafe
import MulleCore.Container.RangesetUnsorted

/-!
A shift does what it should exactly if it is safe.
-/

namespace MulleCore

open Library

/-- The shift starts at the right entry, nothing that is to stay leaves the bounds, and nothing
moves past what stays. The least `delta` lets all that is to move disappear, which only works out
for the upper end of the last entry. -/
def ShiftSafe (p : Rangeset) (location : Nat) (delta : Int) : Prop :=
  delta = 0 ∨ p.ranges = [] ∨
    if delta = -2 ^ 63 then
      ∃ entry ∈ p.ranges, entry.start < location ∧ location < entry.stop ∧
        ∀ other ∈ p.ranges, other.stop ≤ entry.stop
    else ¬ NearestBelow (keptLocations p.locations location delta) location ∧
      (0 < delta → ∀ low ∈ p.locations, low < location → (low : Int) + delta < notFound.toNat) ∧
      (delta < 0 → StaysBehind p.ranges (keptLocations p.locations location delta) location delta)

section Wrong

variable {q : Rangeset} {location : UInt64} {delta : Int64} {before after : List Range}
  {entry range : Range}
variable {r : Rangeset}

theorem shiftRange_start_below (negative : delta.toInt < 0)
    (below : (range.start : Int) + delta.toInt < 0) :
    2 ^ 63 ≤ (shiftRange delta range).start := by
  have converted := toUInt64_toNat_int delta
  have bounds := int64_bounds delta
  rw [if_pos negative] at converted
  change 2 ^ 63 ≤ (range.location + delta.toUInt64).toNat
  rw [Range.start] at below
  rw [UInt64.toNat_add]
  omega

theorem shiftRange_improper (negative : delta.toInt < 0)
    (below : (range.start : Int) + delta.toInt < 0) :
    ¬ (shiftRange delta range).Proper := by
  intro proper
  have start := shiftRange_start_below negative below
  have nonempty := proper.start_lt_stop
  have bound := proper.2
  rw [notFound_toNat] at bound
  omega

theorem shiftRange_start (delta : Int64) (proper : range.Proper)
    (lower : 0 ≤ (range.start : Int) + delta.toInt) :
    ((shiftRange delta range).start : Int) = range.start + delta.toInt := by
  have bounds := int64_bounds delta
  have bound := proper.2
  have nonempty := proper.start_lt_stop
  rw [notFound_toNat] at bound
  exact add_delta_toNat range.location delta lower (by rw [Range.start] at nonempty; omega)

theorem rangesetShiftCoalesce_cases (before after : List Range) (curr : Range) :
    rangesetShiftCoalesce (before ++ curr :: after) before.length = before ++ curr :: after ∨
      ∃ front prev, before = front ++ [prev] ∧ rangeGetMax prev = curr.location ∧
        rangesetShiftCoalesce (before ++ curr :: after) before.length = front ++
          prev.lengthen curr :: after := by
  rw [rangesetShiftCoalesce, rangeAt_splice]
  split
  · rename_i touching
    rcases List.eq_nil_or_concat' before with rfl | ⟨front, prev, rfl⟩
    · exact absurd rfl touching.1
    · have previous : rangeAt (front ++ [prev] ++ curr :: after) ((front ++ [prev]).length - 1) =
        prev := by simp [rangeAt]
      have place : (front ++ [prev]).length - 1 = front.length := by simp
      have behind : (front ++ [prev]).length = front.length + 1 := by simp
      rw [previous] at touching ⊢
      refine Or.inr ⟨front, prev, rfl, touching.2, ?_⟩
      rw [place, behind, List.append_assoc, List.singleton_append, set_splice, eraseIdx_splice_succ]
      rfl
  · exact Or.inl rfl

section

variable (ok : q.Ok (· ≤ ·))
include ok

theorem rangesetShiftFound_below (nonzero : delta.toInt ≠ 0)
    (splits : q.ranges = before ++ entry :: after) (ends : entry.stop ≤ location.toNat)
    {expected : Set Nat} (stays : ∀ place ∈ q.locations, place < location.toNat → place ∈ expected)
    (comes : ∀ place ∈ expected, delta.toInt < 0 → place ∈ q.locations ∨
      ∃ source, location.toNat ≤ source ∧ (place : Int) = source + delta.toInt)
    (result : rangesetShiftFound q location delta before.length = some r)
    (proper : AllProper r.ranges) (sorted : SortedDisjoint r.ranges) : r.locations ≠ expected := by
  intro covered
  have qSorted : SortedDisjoint q.ranges := ok.apart
  have entryProper := ok.proper entry (by simp [splits])
  have nonempty := entryProper.start_lt_stop
  obtain ⟨below, behind⟩ := sortedDisjoint_splits (splits ▸ qSorted)
  rw [rangesetShiftFound_tail ok splits (by omega), Option.some.injEq] at result
  -- an entry that covers a location before the moved one does not move
  have stayed : ∀ {place : Nat}, (place : Int) = entry.start + delta.toInt → delta.toInt < 0 →
    place ∈ expected →
      ∃ other ∈ before, place < other.stop := by
    intro place moved negative member
    rcases comes place member negative with here | ⟨source, above, same⟩
    · obtain ⟨other, inside, lower, upper⟩ := here
      rw [splits, List.mem_append, List.mem_cons] at inside
      rcases inside with inBefore | rfl | inAfter
      · exact ⟨other, inBefore, upper⟩
      · omega
      · have order := behind other inAfter
        omega
    · omega
  by_cases negative : delta.toInt < 0
  · rw [if_pos ((int64_neg_iff delta).mpr negative)] at result
    have lower : ¬ (entry.start : Int) + delta.toInt < 0 := by
      intro outside
      have start := shiftRange_start_below negative outside
      rcases rangesetShiftCoalesce_cases before (after.map (shiftRange delta))
        (shiftRange delta entry) with
        same | ⟨front, prev, rfl, touching, _⟩
      · rw [List.map_cons, same] at result
        subst result
        exact shiftRange_improper negative outside (proper _ (by simp))
      · have prevProper := ok.proper prev (by simp [splits])
        have adjacent := (rangeGetMax_eq_location prevProper).mp touching
        have bound := prevProper.2
        rw [notFound_toNat] at bound
        omega
    have start := shiftRange_start delta entryProper (by omega)
    rcases rangesetShiftCoalesce_cases before (after.map (shiftRange delta))
      (shiftRange delta entry) with
      same | ⟨front, prev, rfl, touching, joined⟩
    · rw [List.map_cons, same] at result
      subst result
      have movedProper := proper (shiftRange delta entry) (by simp)
      have member : (shiftRange delta entry).start ∈ expected := by
        rw [← covered]
        exact ⟨shiftRange delta entry, by simp, le_rfl, movedProper.start_lt_stop⟩
      obtain ⟨other, inBefore, upper⟩ := stayed start negative member
      have order := (sortedDisjoint_splits sorted).1 other inBefore
      omega
    · rw [List.map_cons, joined] at result
      subst result
      have prevProper := ok.proper prev (by simp [splits])
      have prevNonempty := prevProper.start_lt_stop
      have adjacent := (rangeGetMax_eq_location prevProper).mp touching
      have length : (shiftRange delta entry).length.toNat = entry.length.toNat := rfl
      have positive := entryProper.1
      have prevBound := prevProper.2
      have entryBound := entryProper.2
      rw [notFound_toNat, Range.stop] at prevBound entryBound
      have stop : (prev.lengthen (shiftRange delta entry)).stop = prev.stop + entry.length.toNat := by
        rw [Range.lengthen, Range.stop_mk_add (by omega), Range.stop, length]
        omega
      have member : prev.stop ∈ expected := by
        rw [← covered]
        refine ⟨prev.lengthen (shiftRange delta entry), by simp, ?_, by omega⟩
        change prev.start ≤ prev.stop
        omega
      obtain ⟨other, inBefore, upper⟩ := stayed (by omega) negative member
      rcases List.mem_append.mp inBefore with inFront | isPrev
      · rw [splits, List.append_assoc, List.singleton_append] at qSorted
        have order := (sortedDisjoint_splits qSorted).1 other inFront
        omega
      · rw [List.mem_singleton.mp isPrev] at upper
        omega
  · rw [if_neg (mt (int64_neg_iff delta).mp negative)] at result
    subst result
    have member : entry.start ∈ expected :=
      stays entry.start ⟨entry, by simp [splits], le_rfl, nonempty⟩ (by omega)
    rw [← covered] at member
    obtain ⟨other, inside, lower, upper⟩ := member
    rcases List.mem_append.mp inside with inBefore | inMap
    · have order := below other inBefore
      omega
    · obtain ⟨origin, inRest, rfl⟩ := List.mem_map.mp inMap
      have originProper :=
        ok.proper origin (by rw [splits]; exact List.mem_append_right before inRest)
      have start := shiftRange_start delta originProper (by omega)
      rcases List.mem_cons.mp inRest with rfl | inAfter
      · omega
      · have order := behind origin inAfter
        omega

theorem rangesetShiftFound_past (negative : delta.toInt < 0)
    (splits : q.ranges = before ++ entry :: after) (starts : location.toNat ≤ entry.start)
    (below : ∀ other ∈ before, other.stop ≤ location.toNat)
    (all : AllMovable q.locations location.toNat delta.toInt) {low high : Nat}
    (lowMember : low ∈ q.locations) (lowBelow : low < location.toNat)
    (highMember : high ∈ q.locations) (highAbove : location.toNat ≤ high)
    (past : (high : Int) + delta.toInt ≤ low)
    (result : rangesetShiftFound q location delta before.length = some r) :
    ¬ SortedDisjoint r.ranges := by
  intro sorted
  have qSorted : SortedDisjoint q.ranges := ok.apart
  obtain ⟨belowEntry, behind⟩ := sortedDisjoint_splits (splits ▸ qSorted)
  have nonempty := (ok.proper entry (by simp [splits])).start_lt_stop
  obtain ⟨lowEntry, lowIn, lowLower, lowUpper⟩ := lowMember
  obtain ⟨highEntry, highIn, highLower, highUpper⟩ := highMember
  have inBefore : lowEntry ∈ before := by
    rw [splits, List.mem_append, List.mem_cons] at lowIn
    rcases lowIn with inBefore | rfl | inAfter
    · exact inBefore
    · omega
    · have order := behind lowEntry inAfter
      omega
  have inRest : highEntry ∈ entry :: after := by
    rw [splits, List.mem_append] at highIn
    rcases highIn with inBefore | inRest
    · have order := below highEntry inBefore
      omega
    · exact inRest
  have first : entry.start ≤ highEntry.start := by
    rcases List.mem_cons.mp inRest with rfl | inAfter
    · exact le_rfl
    · have order := behind highEntry inAfter
      omega
  have movable : ∀ other ∈ entry :: after, location.toNat ≤ other.start → other.Movable delta :=
    fun other member above =>
    movable_of_above ok all (by rw [splits]; exact List.mem_append_right before member) above
  rw [rangesetShiftFound_tail ok splits (by omega), Option.some.injEq,
    if_pos ((int64_neg_iff delta).mpr negative)] at result
  rcases rangesetShiftCoalesce_cases before (after.map (shiftRange delta))
    (shiftRange delta entry) with
    same | ⟨front, prev, rfl, touching, _⟩
  · rw [List.map_cons, same] at result
    subst result
    have start := (movable highEntry inRest (by omega)).start
    have order := (List.pairwise_append.mp sorted).2.2 lowEntry inBefore (shiftRange delta highEntry)
      (by rw [← List.map_cons]; exact List.mem_map_of_mem inRest)
    omega
  · have prevProper := ok.proper prev (by simp [splits])
    have prevNonempty := prevProper.start_lt_stop
    have adjacent := (rangeGetMax_eq_location prevProper).mp touching
    have start := (movable entry List.mem_cons_self starts).start
    rcases List.mem_append.mp inBefore with inFront | isPrev
    · rw [splits, List.append_assoc, List.singleton_append] at qSorted
      have order := (sortedDisjoint_splits qSorted).1 lowEntry inFront
      omega
    · rw [List.mem_singleton.mp isPrev] at lowUpper
      omega

theorem rangesetShiftFound_splitPast (splits : q.ranges = before ++ entry :: after)
    (starts : entry.start < location.toNat) (ends : location.toNat < entry.stop)
    (all : AllMovable q.locations location.toNat delta.toInt) {higher : Range}
    (member : higher ∈ after) (past : (higher.start : Int) + delta.toInt < location.toNat)
    (result : rangesetShiftFound q location delta before.length = some r) :
    ¬ SortedDisjoint r.ranges := by
  have proper := ok.proper
  have sorted : SortedDisjoint q.ranges := ok.apart
  obtain ⟨below, behind⟩ := sortedDisjoint_splits (splits ▸ sorted)
  have entryMember : entry ∈ q.ranges := by simp [splits]
  have entryProper := proper entry entryMember
  have first := all location.toNat ⟨entry, entryMember, Nat.le_of_lt starts, ends⟩ le_rfl
  have last := all (entry.stop - 1) ⟨entry, entryMember, by omega, by omega⟩ (by omega)
  obtain ⟨frontStart, frontStop, frontProper⟩ := frontRange_ends entryProper starts ends
  obtain ⟨tailStart, tailStop, tailProper⟩ := movedTail_ends entryProper ends first.1 (by omega)
  have movable : ∀ other ∈ after, other.Movable delta := fun other inAfter => by
    have order := behind other inAfter
    exact movable_of_above ok all (by simp [splits, inAfter]) (by omega)
  rw [rangesetShiftFound_split ok splits starts ends, rangesetInsert_eq] at result
  rw [splits] at proper sorted
  have beyond : ∀ other ∈ after.map (shiftRange delta), (movedTail entry location delta).stop ≤
      other.start := by
    intro other inMap
    obtain ⟨origin, inAfter, rfl⟩ := List.mem_map.mp inMap
    have order := behind origin inAfter
    have start := (movable origin inAfter).start
    omega
  have lowProper : AllProper (before ++ [frontRange entry location]) := by
    refine allProper_append.mpr ⟨(allProper_append.mp proper).1, fun other isFront => ?_⟩
    rw [List.mem_singleton.mp isFront]
    exact frontProper
  have lowSorted : SortedDisjoint (before ++ [frontRange entry location]) := by
    refine sortedDisjoint_append.mpr ⟨(sortedDisjoint_append.mp sorted).1,
      List.pairwise_singleton _ _, ?_⟩
    intro low lowMember high isFront
    rw [List.mem_singleton.mp isFront, frontStart]
    exact below low lowMember
  have start := (movable higher member).start
  have lowerMember : frontRange entry location ∈ before ++ [frontRange entry location] := by simp
  exact rangesetInsertRange_unsorted tailProper lowProper lowSorted (allProper_shift movable)
    beyond lowerMember (List.mem_map_of_mem member) (by omega) (by simp) result

theorem rangesetShiftFound_leastTail (least : delta.toInt = -2 ^ 63)
    (splits : q.ranges = before ++ entry :: after)
    (apart : ¬ (entry.start < location.toNat ∧ location.toNat < entry.stop))
    (result : rangesetShiftFound q location delta before.length = some r) : ¬ AllProper r.ranges := by
  intro proper
  have entryProper := ok.proper entry (by simp [splits])
  have nonempty := entryProper.start_lt_stop
  have bound := entryProper.2
  rw [notFound_toNat] at bound
  have start : 2 ^ 63 ≤ (shiftRange delta entry).start := shiftRange_start_below (by omega) (by omega)
  rw [rangesetShiftFound_tail ok splits apart, Option.some.injEq,
    if_pos ((int64_neg_iff delta).mpr (by omega))] at result
  rcases rangesetShiftCoalesce_cases before (after.map (shiftRange delta))
    (shiftRange delta entry) with
    same | ⟨front, prev, rfl, touching, _⟩
  · rw [List.map_cons, same] at result
    subst result
    exact shiftRange_improper (by omega) (by omega) (proper (shiftRange delta entry) (by simp))
  · have prevProper := ok.proper prev (by simp [splits])
    have adjacent := (rangeGetMax_eq_location prevProper).mp touching
    have prevBound := prevProper.2
    rw [notFound_toNat] at prevBound
    omega

theorem rangesetShiftFound_leastSplit (least : delta.toInt = -2 ^ 63)
    (inside : location ≤ rangeLocationMax) (splits : q.ranges = before ++ entry :: after)
    (starts : entry.start < location.toNat) (ends : location.toNat < entry.stop) :
    rangesetShiftFound q location delta before.length =
      some { q with ranges := before ++ frontRange entry location :: after.map (shiftRange delta) } := by
  have bound : location.toNat ≤ rangeLocationMax.toNat := UInt64.le_iff_toNat_le.mp inside
  have converted := toUInt64_toNat_int delta
  rw [rangeLocationMax_toNat] at bound
  rw [if_pos (by omega)] at converted
  have invalid : rangeIsValid (movedTail entry location delta) = false := by
    have beyond : (movedTail entry location delta).location > rangeLocationMax := by
      rw [gt_iff_lt, UInt64.lt_iff_toNat_lt, rangeLocationMax_toNat]
      change _ < (location + delta.toUInt64).toNat
      rw [UInt64.toNat_add]
      omega
    rw [rangeIsValid, if_pos beyond]
  rw [rangesetShiftFound_split ok splits starts ends, rangesetInsert, if_pos invalid, ite_self]

end

end Wrong

section Exact

variable {p q : Rangeset} {location : UInt64} {delta : Int64}

theorem allMovable_kept (ok : p.Ok (· ≤ ·)) :
    AllMovable (keptLocations p.locations location.toNat delta.toInt)
    location.toNat delta.toInt := by
  rintro source ⟨covered, stays⟩ above
  have bound := mem_locations_lt ok covered
  rw [FallsOff, not_or] at stays
  omega

theorem movedLocations_kept (ok : p.Ok (· ≤ ·))
    (room : 0 < delta.toInt → ∀ low ∈ p.locations, low < location.toNat →
      (low : Int) + delta.toInt < notFound.toNat) :
    movedLocations (keptLocations p.locations location.toNat delta.toInt) location.toNat delta.toInt =
      shiftLocations p.locations location.toNat delta.toInt := by
  have maximum : rangeLocationMax.toNat + 1 = notFound.toNat := rfl
  ext place
  constructor
  · rintro (⟨⟨covered, _⟩, less⟩ | ⟨source, kept, above, moved⟩)
    · exact Or.inl ⟨covered, less⟩
    · have bounds := allMovable_kept ok source kept above
      exact Or.inr ⟨by omega, source, kept.1, above, moved⟩
  · rintro (⟨covered, less⟩ | ⟨within, source, covered, above, moved⟩)
    · refine Or.inl ⟨⟨covered, ?_⟩, less⟩
      rintro (⟨_, above, _⟩ | ⟨positive, beyond⟩)
      · omega
      · have stays := room positive place covered less
        omega
    · refine Or.inr ⟨source, ⟨covered, ?_⟩, above, moved⟩
      rintro (⟨_, _, below⟩ | ⟨_, beyond⟩)
      · omega
      · omega

theorem mem_shiftLocations_below {place : Nat} (covered : place ∈ p.locations)
    (less : place < location.toNat) :
    place ∈ shiftLocations p.locations location.toNat delta.toInt := Or.inl ⟨covered, less⟩

theorem NearestOutcome.of_nearestBelow (ok : q.Ok (· ≤ ·)) {found : Option Nat}
    (nearest : NearestOutcome q.ranges location.toNat found)
    (near : NearestBelow q.locations location.toNat) :
    ∃ before entry after, q.ranges = before ++ entry :: after ∧ entry.stop ≤ location.toNat ∧
      found = some before.length := by
  obtain ⟨low, ⟨lowEntry, lowMember, lowLower, lowUpper⟩, less, nearer⟩ := near
  cases nearest with
  | empty nothing =>
    rw [nothing] at lowMember
    exact absurd lowMember List.not_mem_nil
  | around splits starts ends =>
    rename_i before after entry
    have order := nearer location.toNat ⟨entry, by simp [splits], starts, ends⟩ le_rfl
    omega
  | behind splits starts below near =>
    rename_i before after entry
    have nonempty := (ok.proper entry (by simp [splits])).start_lt_stop
    have order := nearer entry.start ⟨entry, by simp [splits], le_rfl, nonempty⟩ (Nat.le_of_lt starts)
    rw [splits, List.mem_append, List.mem_cons] at lowMember
    rcases lowMember with inBefore | rfl | inAfter
    · have closest := near lowEntry inBefore
      omega
    · omega
    · have later := (sortedDisjoint_splits (splits ▸ ok.apart)).2 lowEntry inAfter
      omega
  | before splits ends above near => exact ⟨_, _, _, splits, ends, rfl⟩

theorem shiftFound_exact (ok : p.Ok (· ≤ ·)) (inside : location ≤ rangeLocationMax)
    (nonzero : delta.toInt ≠ 0)
    (qOk : q.Ok (· ≤ ·)) (kept : q.locations = keptLocations p.locations location.toNat delta.toInt)
    (same : 0 ≤ (location.toNat : Int) + delta.toInt → delta.toInt < 0 → q = p) :
    ShiftRight p location delta (match rangesetSearchNearestP q location with
      | none => some q
      | some found => rangesetShiftFound q location delta found) ↔
    (¬ NearestBelow q.locations location.toNat ∧
      (0 < delta.toInt → ∀ low ∈ p.locations, low < location.toNat → (low : Int) + delta.toInt <
        notFound.toNat) ∧
      (delta.toInt < 0 → StaysBehind p.ranges q.locations location.toNat delta.toInt)) := by
  have nearest := rangesetSearchNearestP_outcome qOk inside
  have all : AllMovable q.locations location.toNat delta.toInt := kept ▸ allMovable_kept ok
  have fromKept : ∀ place ∈ q.locations, place ∈ p.locations ∧
    ¬ FallsOff location.toNat delta.toInt place :=
    fun place covered => (kept ▸ covered :)
  generalize rangesetSearchNearestP q location = found at nearest ⊢
  -- the shift of what was kept, if it starts at the right entry
  have moves : ¬ NearestBelow q.locations location.toNat →
      (delta.toInt < 0 → StaysBehind p.ranges q.locations location.toNat delta.toInt) →
      ∃ r, (match found with
        | none => some q
        | some found => rangesetShiftFound q location delta found) = some r ∧ r.Ok (· ≤ ·) ∧
        r.locations = movedLocations q.locations location.toNat delta.toInt := by
    intro near stays
    cases found with
    | none =>
      cases nearest with
      | empty nothing =>
        have uncovered : q.locations = ∅ := by simp [Rangeset.locations, nothing]
        refine ⟨q, rfl, qOk, ?_⟩
        rw [uncovered]
        ext place
        simp [movedLocations]
    | some index =>
      refine rangesetShiftFound_right qOk nearest all near ?_
      intro negative low lowMember lowBelow high highMember highAbove entries
      refine stays negative low lowMember lowBelow high highMember highAbove fun room => ?_
      rw [← same room negative]
      exact entries
  constructor
  · rintro ⟨r, result, proper, sorted, covered⟩
    have near : ¬ NearestBelow q.locations location.toNat := by
      intro nearer
      obtain ⟨before, entry, after, splits, ends, rfl⟩ := nearest.of_nearestBelow qOk nearer
      refine rangesetShiftFound_below qOk nonzero splits ends ?_ ?_ result proper sorted covered
      · exact fun place member less => mem_shiftLocations_below (fromKept place member).1 less
      · rintro place (⟨member, less⟩ | ⟨_, source, _, above, moved⟩) negative
        · refine Or.inl (kept ▸ ⟨member, ?_⟩)
          rintro (⟨_, above, _⟩ | ⟨positive, _⟩) <;> omega
        · exact Or.inr ⟨source, above, moved⟩
    refine ⟨near, fun positive low member less => ?_, fun negative low lowMember lowBelow high
      highMember highAbove guarded => ?_⟩
    · by_contra beyond
      obtain ⟨moved, movedResult, _, movedCovered⟩ := moves near (fun negative => by omega)
      rw [result] at movedResult
      obtain rfl := Option.some.inj movedResult
      have expected : low ∈ movedLocations q.locations location.toNat delta.toInt := by
        rw [← movedCovered, covered]
        exact mem_shiftLocations_below member less
      rcases expected with ⟨inKept, _⟩ | ⟨source, _, above, same⟩
      · exact (fromKept low inKept).2 (Or.inr ⟨positive, by omega⟩)
      · omega
    · by_contra past
      cases nearest with
      | empty nothing => simp [Rangeset.locations, nothing] at lowMember
      | around splits starts ends =>
        rename_i before after entry
        obtain ⟨belowEntry, behind⟩ := sortedDisjoint_splits (splits ▸ qOk.apart)
        rcases Nat.lt_or_eq_of_le starts with before | atStart
        · have room := (all location.toNat ⟨entry, by simp [splits], starts, ends⟩ le_rfl).1
          have split := guarded room entry (by rw [← same room negative]; simp [splits]) before
          obtain ⟨higher, higherMember, lower, upper⟩ := highMember
          rw [splits, List.mem_append, List.mem_cons] at higherMember
          rcases higherMember with inBefore | rfl | inAfter
          · have order := belowEntry higher inBefore
            omega
          · omega
          · exact rangesetShiftFound_splitPast qOk splits before ends all inAfter
              (by omega) result sorted
        · refine rangesetShiftFound_past qOk negative splits (le_of_eq atStart.symm)
            (fun other member => ?_) all
            lowMember lowBelow highMember highAbove (by omega) result sorted
          have order := belowEntry other member
          omega
      | behind splits starts below _ =>
        exact rangesetShiftFound_past qOk negative splits (Nat.le_of_lt starts) below all lowMember
          lowBelow highMember highAbove (by omega) result sorted
      | before splits ends above nearer =>
        exact near (NearestOutcome.nearestBelow qOk splits ends nearer)
  · rintro ⟨near, room, stays⟩
    obtain ⟨r, result, rOk, covered⟩ := moves near stays
    refine ⟨r, result, rOk.proper, rOk.apart, ?_⟩
    rw [covered, kept, movedLocations_kept ok room]

theorem shiftFound_least (ok : p.Ok (· ≤ ·)) (inside : location ≤ rangeLocationMax)
    (nonempty : p.ranges ≠ []) (least : delta.toInt = -2 ^ 63) :
    ShiftRight p location delta (match rangesetSearchNearestP p location with
      | none => some p
      | some found => rangesetShiftFound p location delta found) ↔
    ∃ entry ∈ p.ranges, entry.start < location.toNat ∧ location.toNat < entry.stop ∧
      ∀ other ∈ p.ranges, other.stop ≤ entry.stop := by
  have nearest := rangesetSearchNearestP_outcome ok inside
  have sorted : SortedDisjoint p.ranges := ok.apart
  generalize rangesetSearchNearestP p location = found at nearest ⊢
  -- no entry is cut by the location: what is moved is not valid
  have whole : ∀ {before after : List Range} {entry : Range}, p.ranges = before ++ entry :: after →
      found = some before.length →
      (∀ other ∈ p.ranges, ¬ (other.start < location.toNat ∧ location.toNat < other.stop)) →
      (ShiftRight p location delta (match found with
        | none => some p
        | some found => rangesetShiftFound p location delta found) ↔
      ∃ entry ∈ p.ranges, entry.start < location.toNat ∧ location.toNat < entry.stop ∧
        ∀ other ∈ p.ranges, other.stop ≤ entry.stop) := by
    rintro before after entry splits rfl apart
    refine iff_of_false ?_ ?_
    · rintro ⟨r, result, proper, _⟩
      exact rangesetShiftFound_leastTail ok least splits (apart entry (by simp [splits])) result
        proper
    · rintro ⟨other, member, starts, ends, _⟩
      exact apart other member ⟨starts, ends⟩
  cases nearest with
  | empty nothing => exact absurd nothing nonempty
  | around splits starts ends =>
    rename_i before after entry
    obtain ⟨below, behind⟩ := sortedDisjoint_splits (splits ▸ sorted)
    have entryProper := ok.proper entry (by simp [splits])
    rcases Nat.lt_or_eq_of_le starts with cut | atStart
    · rw [ShiftRight]
      dsimp only
      rw [rangesetShiftFound_leastSplit ok least inside splits cut ends]
      obtain ⟨frontStart, frontStop, frontProper⟩ := frontRange_ends entryProper cut ends
      constructor
      · rintro ⟨r, result, proper, _, _⟩
        obtain rfl := Option.some.inj result
        refine ⟨entry, by simp [splits], cut, ends, fun other member => ?_⟩
        rw [splits, List.mem_append, List.mem_cons] at member
        rcases member with inBefore | rfl | inAfter
        · have order := below other inBefore
          omega
        · exact le_rfl
        · have bound := (ok.proper other (by simp [splits, inAfter])).2
          have otherNonempty := (ok.proper other (by simp [splits, inAfter])).start_lt_stop
          rw [notFound_toNat] at bound
          exact absurd (proper (shiftRange delta other) (by
            refine List.mem_append_right before (List.mem_cons_of_mem _ ?_)
            exact List.mem_map_of_mem inAfter)) (shiftRange_improper (by omega) (by omega))
      · rintro ⟨last, lastMember, lastStarts, lastEnds, highest⟩
        have none : after = [] := by
          cases after with
          | nil => rfl
          | cons next rest =>
            have nextNonempty := (ok.proper next (by simp [splits])).start_lt_stop
            have order := behind next List.mem_cons_self
            have top := highest next (by simp [splits])
            rw [splits, List.mem_append, List.mem_cons] at lastMember
            rcases lastMember with inBefore | rfl | inAfter
            · have earlier := below last inBefore
              omega
            · omega
            · have later := behind last inAfter
              omega
        subst none
        refine ⟨_, rfl, ?_, ?_, ?_⟩
        · intro other member
          simp only [List.map_nil, List.mem_append, List.mem_singleton] at member
          rcases member with inBefore | rfl
          · exact ok.proper other (by simp [splits, inBefore])
          · exact frontProper
        · rw [splits] at sorted
          refine sortedDisjoint_append.mpr ⟨(sortedDisjoint_append.mp sorted).1,
            List.pairwise_singleton _ _, ?_⟩
          intro low lowMember high isFront
          rw [List.map_nil, List.mem_singleton] at isFront
          rw [isFront, frontStart]
          exact below low lowMember
        · ext place
          simp only [Rangeset.locations, splits, List.map_nil, cover_append, cover_cons, cover_nil,
            Set.union_empty, shiftLocations, Set.mem_union, Set.mem_ofPred_eq, Set.mem_Ico,
            frontStart, frontStop]
          constructor
          · rintro (⟨other, inBefore, lower, upper⟩ | ⟨lower, upper⟩)
            · have order := below other inBefore
              exact Or.inl ⟨Or.inl ⟨other, inBefore, lower, upper⟩, by omega⟩
            · exact Or.inl ⟨Or.inr ⟨lower, by omega⟩, upper⟩
          · rintro (⟨covered | ⟨lower, upper⟩, less⟩ | ⟨_, source, covered, _, moved⟩)
            · exact Or.inl covered
            · exact Or.inr ⟨lower, less⟩
            · have bound : source < notFound.toNat := mem_locations_lt ok (by
                rw [Rangeset.locations, splits, cover_append, cover_cons, cover_nil, Set.union_empty]
                exact covered)
              rw [notFound_toNat] at bound
              omega
    · refine whole splits rfl fun other member => ?_
      rintro ⟨otherStarts, otherEnds⟩
      rw [splits, List.mem_append, List.mem_cons] at member
      rcases member with inBefore | rfl | inAfter
      · have order := below other inBefore
        omega
      · omega
      · have order := behind other inAfter
        omega
  | behind splits starts below near =>
    rename_i before after entry
    have entryNonempty := (ok.proper entry (by simp [splits])).start_lt_stop
    refine whole splits rfl fun other member => ?_
    rintro ⟨otherStarts, otherEnds⟩
    rw [splits, List.mem_append, List.mem_cons] at member
    rcases member with inBefore | rfl | inAfter
    · have order := below other inBefore
      omega
    · omega
    · have order := (sortedDisjoint_splits (splits ▸ sorted)).2 other inAfter
      omega
  | before splits ends above near =>
    rename_i before after entry
    have entryNonempty := (ok.proper entry (by simp [splits])).start_lt_stop
    refine whole splits rfl fun other member => ?_
    rintro ⟨otherStarts, otherEnds⟩
    rw [splits, List.mem_append, List.mem_cons] at member
    rcases member with inBefore | rfl | inAfter
    · have order := (sortedDisjoint_splits (splits ▸ sorted)).1 other inBefore
      omega
    · omega
    · have order := above other inAfter
      omega

/-- A shift does what it should if, and only if, it is safe. -/
theorem rangesetShift_iff (p : Rangeset) (proper : AllProper p.ranges)
    (disjoint : SortedDisjoint p.ranges) (location : UInt64) (inside : location ≤ rangeLocationMax)
    (delta : Int64) :
    ShiftRight p location delta (rangesetShift p location delta) ↔
    ShiftSafe p location.toNat delta.toInt := by
  have ok : p.Ok (· ≤ ·) := ⟨proper, disjoint⟩
  rw [ShiftSafe]
  by_cases zero : delta.toInt = 0
  · have still : delta = 0 := Int64.toInt_inj.mp zero
    have unmoved : rangesetShift p location delta = some p := if_pos (Or.inr still)
    refine iff_of_true ⟨p, unmoved, proper, disjoint, ?_⟩ (Or.inl zero)
    ext place
    rw [shiftLocations, zero]
    constructor
    · intro covered
      by_cases less : place < location.toNat
      · exact Or.inl ⟨covered, less⟩
      · have bound := mem_locations_lt ok covered
        have maximum : rangeLocationMax.toNat + 1 = notFound.toNat := rfl
        exact Or.inr ⟨by omega, place, covered, by omega, by omega⟩
    · rintro (⟨covered, _⟩ | ⟨_, source, covered, _, same⟩)
      · exact covered
      · have unmoved : place = source := by omega
        exact unmoved ▸ covered
  by_cases empty : p.ranges = []
  · have unmoved : rangesetShift p location delta = some p := if_pos (Or.inl (by simp [empty]))
    refine iff_of_true ⟨p, unmoved, proper, disjoint, ?_⟩ (Or.inr (Or.inl empty))
    ext place
    simp [shiftLocations, Rangeset.locations, empty]
  have moves : ¬ (p.ranges.isEmpty = true ∨ delta = 0) := by
    rintro (nothing | still)
    · exact empty (List.isEmpty_iff.mp nothing)
    · exact zero (still ▸ rfl)
  rw [or_iff_right zero, or_iff_right empty]
  by_cases negative : delta.toInt < 0
  · obtain ⟨q, removed, qOk, same, kept⟩ := rangesetShiftRemove_down ok inside negative
    have shifted : rangesetShift p location delta = (match rangesetSearchNearestP q location with
        | none => some q
        | some found => rangesetShiftFound q location delta found) := by
      rw [rangesetShift, if_neg moves, removed]
      rfl
    rw [shifted]
    by_cases least : delta.toInt = -2 ^ 63
    · obtain rfl := same (Or.inr least)
      rw [if_pos least]
      exact shiftFound_least ok inside empty least
    · rw [if_neg least, ← kept least]
      exact shiftFound_exact ok inside zero qOk (kept least) fun room _ => same (Or.inl room)
  · obtain ⟨q, removed, qOk, kept⟩ :=
      @rangesetShiftRemove_up p location delta ok (show 0 < delta.toInt by omega)
    have shifted : rangesetShift p location delta = (match rangesetSearchNearestP q location with
        | none => some q
        | some found => rangesetShiftFound q location delta found) := by
      rw [rangesetShift, if_neg moves, removed]
      rfl
    rw [shifted, if_neg (by omega), ← kept]
    exact shiftFound_exact ok inside zero qOk kept fun _ below => by omega

theorem rangesetShift_iff_hole :
    ShiftRight ⟨[⟨0, 5⟩, ⟨20, 10⟩], 2, false⟩ 15 2
      (rangesetShift ⟨[⟨0, 5⟩, ⟨20, 10⟩], 2, false⟩ 15 2) ↔
      ShiftSafe ⟨[⟨0, 5⟩, ⟨20, 10⟩], 2, false⟩ 15 2 :=
  rangesetShift_iff ⟨[⟨0, 5⟩, ⟨20, 10⟩], 2, false⟩ (by decide)
    (by simp [SortedDisjoint, Apart, Range.start, Range.stop]) 15 (by decide) 2

/-- The range below moves, as it is nearer. -/
theorem rangesetShift_wrong :
    ¬ ∀ p : Rangeset, AllProper p.ranges → SortedDisjoint p.ranges →
    ∀ location, location ≤ rangeLocationMax →
      ∀ delta, ShiftRight p location delta (rangesetShift p location delta) := by
  intro always
  obtain ⟨q, result, _, _, covered⟩ := always ⟨[⟨0, 5⟩, ⟨20, 10⟩], 2, false⟩ (by decide)
    (by simp [SortedDisjoint, Apart, Range.start, Range.stop]) 6 (by decide) 1
  have reached : rangesetShift ⟨[⟨0, 5⟩, ⟨20, 10⟩], 2, false⟩ 6 1 = some ⟨[⟨1, 5⟩, ⟨21, 10⟩], 2,
    false⟩ := by decide
  rw [reached, Option.some.injEq] at result
  subst result
  have stays : 0 ∈ shiftLocations (Rangeset.locations ⟨[⟨0, 5⟩, ⟨20, 10⟩], 2, false⟩) 6 1 :=
    Or.inl ⟨⟨⟨0, 5⟩, by simp, by simp [Range.start], by simp [Range.stop]⟩, by omega⟩
  have here : 0 ∈ Rangeset.locations ⟨[⟨1, 5⟩, ⟨21, 10⟩], 2, false⟩ := covered ▸ stays
  obtain ⟨entry, member, lower, _⟩ := here
  simp only [List.mem_cons, List.not_mem_nil, or_false] at member
  rcases member with rfl | rfl
  · exact absurd lower (by decide)
  · exact absurd lower (by decide)

end Exact

end MulleCore
