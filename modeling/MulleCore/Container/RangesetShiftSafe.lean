import MulleCore.Container.RangesetShift

/-!
When a shift does what it should. It takes away what would leave the bounds, then it starts from
the entry nearest to the location.
-/

namespace MulleCore

open Library

/-- Whether a location is taken away first: one that is to move below zero, or one that would
move above the last location, even if it is not to move. -/
def FallsOff (location : Nat) (delta : Int) (source : Nat) : Prop :=
  (delta < 0 ∧ location ≤ source ∧ (source : Int) + delta < 0) ∨
    (0 < delta ∧ (notFound.toNat : Int) ≤ source + delta)

def keptLocations (covered : Set Nat) (location : Nat) (delta : Int) : Set Nat :=
  {source | source ∈ covered ∧ ¬ FallsOff location delta source}

def NearestBelow (covered : Set Nat) (location : Nat) : Prop :=
  ∃ below ∈ covered, below < location ∧ ∀ above ∈ covered, location ≤ above →
    location - below < above - location

def StaysBehind (entries : List Range) (kept : Set Nat) (location : Nat) (delta : Int) : Prop :=
  ∀ low ∈ kept, low < location → ∀ high ∈ kept, location ≤ high →
    (0 ≤ (location : Int) + delta → ∀ entry ∈ entries, entry.start < location → entry.stop ≤ high) →
    (low : Int) < high + delta

section Remove

variable {p : Rangeset} {location : UInt64} {delta : Int64}

theorem toRemove_toInt (inside : location ≤ rangeLocationMax) (negative : delta.toInt < 0) :
    (location + delta.toUInt64).toInt64.toInt = location.toNat + delta.toInt := by
  have bound : location.toNat ≤ rangeLocationMax.toNat := UInt64.le_iff_toNat_le.mp inside
  have converted := toUInt64_toNat_int delta
  have bounds := int64_bounds delta
  rw [rangeLocationMax_toNat] at bound
  rw [if_pos negative] at converted
  rw [toInt64_toInt, UInt64.toNat_add]
  split <;> omega

theorem mem_locations_lt (ok : p.Ok (· ≤ ·)) {place : Nat} (covered : place ∈ p.locations) :
    place < notFound.toNat := by
  obtain ⟨entry, member, _, upper⟩ := covered
  exact lt_of_lt_of_le upper (ok.proper entry member).2

theorem rangesetShiftRemove_down (ok : p.Ok (· ≤ ·)) (inside : location ≤ rangeLocationMax)
    (negative : delta.toInt < 0) :
    ∃ q, rangesetShiftRemove p location delta = some (q, delta) ∧ q.Ok (· ≤ ·) ∧
      (0 ≤ (location.toNat : Int) + delta.toInt ∨ delta.toInt = -2 ^ 63 → q = p) ∧
      (delta.toInt ≠ -2 ^ 63 → q.locations = keptLocations p.locations location.toNat
        delta.toInt) := by
  have bound : location.toNat ≤ rangeLocationMax.toNat := UInt64.le_iff_toNat_le.mp inside
  have bounds := int64_bounds delta
  have toRemove := toRemove_toInt inside negative
  rw [rangeLocationMax_toNat] at bound
  rw [rangesetShiftRemove, if_pos ((int64_neg_iff delta).mpr negative)]
  dsimp only
  by_cases below : (location.toNat : Int) + delta.toInt < 0
  · have removes : (location + delta.toUInt64).toInt64 < 0 := by
      rw [int64_neg_iff, toRemove]
      exact below
    have length := neg_toUInt64_toNat (location + delta.toUInt64).toInt64
      (by rw [toRemove]; exact below)
    rw [toRemove] at length
    rw [if_pos removes]
    generalize (-(location + delta.toUInt64).toInt64).toUInt64 = removed at length ⊢
    have stop : ((rangeMake location removed).stop : Int) = -delta.toInt := by
      have sum : (rangeMake location removed).stop = location.toNat + removed.toNat := rfl
      omega
    have proper : (rangeMake location removed).Proper ↔ delta.toInt ≠ -2 ^ 63 := by
      rw [Range.Proper, notFound_toNat]
      have nonempty : (rangeMake location removed).length = removed := rfl
      rw [nonempty]
      omega
    obtain ⟨q, result, qOk, covered⟩ :=
      rangesetRemoveRange_ok spacing_le ok (rangeMake location removed)
    refine ⟨q, by rw [result]; rfl, qOk, ?_, fun ordinary => ?_⟩
    · rintro (small | least)
      · omega
      · have improper := mt proper.mp (not_not.mpr least)
        rw [range_proper_iff, not_and_or, not_not, Bool.not_eq_true] at improper
        rw [rangesetRemoveRange] at result
        rcases improper with empty | invalid
        · rw [if_pos empty] at result
          exact (Option.some.inj result).symm
        · rw [if_pos invalid, ite_self] at result
          exact (Option.some.inj result).symm
    · rw [covered, removeLocations, if_pos (proper.mpr ordinary)]
      ext place
      have start : (rangeMake location removed).start = location.toNat := rfl
      simp only [Set.mem_sdiff, Range.locations, Set.mem_Ico, keptLocations, FallsOff,
        Set.mem_ofPred_eq, start]
      refine and_congr_right fun _ => ?_
      omega
  · have keeps : ¬ (location + delta.toUInt64).toInt64 < 0 := by
      rw [int64_neg_iff, toRemove]
      exact below
    rw [if_neg keeps]
    refine ⟨p, rfl, ok, fun _ => rfl, fun _ => ?_⟩
    ext place
    simp only [keptLocations, FallsOff, Set.mem_ofPred_eq]
    constructor
    · exact fun covered => ⟨covered, by omega⟩
    · exact fun kept => kept.1

theorem rangesetShiftRemove_up (ok : p.Ok (· ≤ ·)) (positive : 0 < delta.toInt) :
    ∃ q, rangesetShiftRemove p location delta = some (q, delta) ∧ q.Ok (· ≤ ·) ∧
      q.locations = keptLocations p.locations location.toNat delta.toInt := by
  have bounds := int64_bounds delta
  have converted := toUInt64_toNat_int delta
  rw [if_neg (by omega)] at converted
  have maximum : (rangeLocationMax + 1).toNat = 2 ^ 63 - 1 := rfl
  have small : ¬ delta.toUInt64 > rangeLocationMax + 1 := by
    rw [gt_iff_lt, UInt64.lt_iff_toNat_lt, maximum]
    omega
  have start : (rangeMake (rangeLocationMax + 1 - delta.toUInt64) delta.toUInt64).start = 2 ^ 63 -
      1 - delta.toUInt64.toNat := by
    change (rangeLocationMax + 1 - delta.toUInt64).toNat = _
    rw [UInt64.toNat_sub_of_le _ _ (UInt64.le_iff_toNat_le.mpr (by rw [maximum]; omega)), maximum]
  have stop : (rangeMake (rangeLocationMax + 1 - delta.toUInt64) delta.toUInt64).stop =
      2 ^ 63 - 1 := by
    have sum : (rangeMake (rangeLocationMax + 1 - delta.toUInt64) delta.toUInt64).stop =
        (rangeMake (rangeLocationMax + 1 - delta.toUInt64) delta.toUInt64).start +
          delta.toUInt64.toNat := rfl
    omega
  have proper : (rangeMake (rangeLocationMax + 1 - delta.toUInt64) delta.toUInt64).Proper :=
    Range.proper_of_ends (by omega) (le_of_eq stop)
  obtain ⟨q, result, qOk, covered⟩ := rangesetRemoveRange_ok spacing_le ok
    (rangeMake (rangeLocationMax + 1 - delta.toUInt64) delta.toUInt64)
  rw [rangesetShiftRemove, if_neg (mt (int64_neg_iff delta).mp (by omega)), if_neg small]
  refine ⟨q, by dsimp only; rw [result]; rfl, qOk, ?_⟩
  rw [covered, removeLocations, if_pos proper]
  ext place
  simp only [Set.mem_sdiff, Range.locations, Set.mem_Ico, keptLocations, FallsOff,
    Set.mem_ofPred_eq, start, stop]
  refine and_congr_right fun here => ?_
  have below := mem_locations_lt ok here
  rw [notFound_toNat] at below ⊢
  omega

end Remove

section Found

variable {q : Rangeset} {location : UInt64} {delta : Int64} {before after : List Range}
  {entry : Range}

theorem rangesetShiftFound_split (ok : q.Ok (· ≤ ·)) (splits : q.ranges = before ++ entry :: after)
    (starts : entry.start < location.toNat) (ends : location.toNat < entry.stop) :
    rangesetShiftFound q location delta before.length =
      rangesetInsert { q with ranges := before ++ frontRange entry location :: after.map (shiftRange delta) }
        (movedTail entry location delta) := by
  have here : rangeAt q.ranges before.length = entry := by simp [splits]
  have proper := ok.proper entry (by simp [splits])
  have contains : rangeContainsLocation entry location = true ∧ entry.location < location :=
    ⟨(rangeContainsLocation_iff proper location).mpr ⟨Nat.le_of_lt starts, ends⟩,
      UInt64.lt_iff_toNat_lt.mpr starts⟩
  rw [rangesetShiftFound, here]
  dsimp only
  rw [if_pos contains, splits, rangesetDeltashift_set]
  rfl

theorem rangesetShiftFound_tail (ok : q.Ok (· ≤ ·)) (splits : q.ranges = before ++ entry :: after)
    (apart : ¬ (entry.start < location.toNat ∧ location.toNat < entry.stop)) :
    rangesetShiftFound q location delta before.length =
      some { q with ranges := if delta < 0 then
        rangesetShiftCoalesce (before ++ (entry :: after).map (shiftRange delta)) before.length
        else before ++ (entry :: after).map (shiftRange delta) } := by
  have here : rangeAt q.ranges before.length = entry := by simp [splits]
  have proper := ok.proper entry (by simp [splits])
  have outside : ¬ (rangeContainsLocation entry location = true ∧ entry.location < location) := by
    rintro ⟨contains, less⟩
    exact apart ⟨UInt64.lt_iff_toNat_lt.mp less,
      ((rangeContainsLocation_iff proper location).mp contains).2⟩
  rw [rangesetShiftFound, here]
  dsimp only
  rw [if_neg outside, splits, rangesetDeltashift_splice]

theorem NearestOutcome.nearestBelow (ok : q.Ok (· ≤ ·)) (splits : q.ranges = before ++ entry :: after)
    (ends : entry.stop ≤ location.toNat)
    (near : ∀ other ∈ after, location.toNat + 1 - entry.stop < other.start - location.toNat) :
    NearestBelow q.locations location.toNat := by
  have nonempty := (ok.proper entry (by simp [splits])).start_lt_stop
  refine ⟨entry.stop - 1, ⟨entry, by simp [splits], by omega, by omega⟩, by omega, ?_⟩
  rintro above ⟨other, member, lower, upper⟩ behind
  have order := sortedDisjoint_splits (splits ▸ ok.apart)
  rw [splits, List.mem_append, List.mem_cons] at member
  rcases member with inBefore | rfl | inAfter
  · have apart := order.1 other inBefore
    omega
  · omega
  · have nearer := near other inAfter
    omega

theorem rangesetShiftFound_right (ok : q.Ok (· ≤ ·)) {found : Nat}
    (nearest : NearestOutcome q.ranges location.toNat (some found))
    (all : AllMovable q.locations location.toNat delta.toInt)
    (near : ¬ NearestBelow q.locations location.toNat)
    (stays : delta.toInt < 0 → ∀ low ∈ q.locations, low < location.toNat → ∀ high ∈ q.locations,
      location.toNat ≤ high →
      (∀ entry ∈ q.ranges, entry.start < location.toNat → entry.stop ≤ high) →
      (low : Int) < high + delta.toInt) :
    ∃ r, rangesetShiftFound q location delta found = some r ∧ r.Ok (· ≤ ·) ∧
      r.locations = movedLocations q.locations location.toNat delta.toInt := by
  have sorted : SortedDisjoint q.ranges := ok.apart
  -- entries that start at or behind the location move, those before it end there
  have tail : ∀ {before after : List Range} {entry : Range}, q.ranges = before ++ entry :: after →
      location.toNat ≤ entry.start → (∀ other ∈ before, other.stop ≤ location.toNat) →
      ∃ r, rangesetShiftFound q location delta before.length = some r ∧ r.Ok (· ≤ ·) ∧
        r.locations = movedLocations q.locations location.toNat delta.toInt := by
    intro before after entry splits starts below
    have nonempty := (ok.proper entry (by simp [splits])).start_lt_stop
    have behind := (sortedDisjoint_splits (splits ▸ sorted)).2
    have above : ∀ other ∈ entry :: after, location.toNat ≤ other.start := by
      intro other member
      rcases List.mem_cons.mp member with rfl | inAfter
      · exact starts
      · have order := behind other inAfter
        omega
    have movable : ∀ other ∈ entry :: after, other.Movable delta := fun other member =>
      movable_of_above ok all (by rw [splits]; exact List.mem_append_right before member)
        (above other member)
    have apart : ∀ low ∈ before, ∀ high ∈ entry :: after, (low.stop : Int) ≤ high.start +
        delta.toInt := by
      intro low lowMember high highMember
      have lowEnds := below low lowMember
      have highStarts := above high highMember
      by_cases negative : delta.toInt < 0
      · have lowNonempty := (ok.proper low (by simp [splits, lowMember])).start_lt_stop
        have highNonempty := (movable high highMember).proper.start_lt_stop
        have order := stays negative (low.stop - 1)
          ⟨low, by simp [splits, lowMember], by omega, by omega⟩ (by omega)
          high.start ⟨high, by rw [splits]; exact List.mem_append_right before highMember, le_rfl,
            highNonempty⟩ highStarts (by
            intro other member otherStarts
            rw [splits, List.mem_append] at member
            rcases member with inBefore | inRest
            · have ends := below other inBefore
              omega
            · have order := above other inRest
              omega)
        omega
      · omega
    obtain ⟨movedProper, movedSorted, movedCover⟩ :=
      rangesetDeltashift_ok ok splits below above movable apart
    refine ⟨_, rangesetShiftFound_tail ok splits (by omega), ?_⟩
    split
    · obtain ⟨joinedProper, joinedSorted, joinedCover⟩ :=
        rangesetShiftCoalesce_ok before.length movedProper movedSorted (by simp)
      exact ⟨⟨joinedProper, joinedSorted⟩, joinedCover.trans movedCover⟩
    · exact ⟨⟨movedProper, movedSorted⟩, movedCover⟩
  cases nearest with
  | around splits starts ends =>
    rename_i before after entry
    obtain ⟨below, behind⟩ := sortedDisjoint_splits (splits ▸ sorted)
    rcases Nat.lt_or_eq_of_le starts with inside | atStart
    · rw [rangesetShiftFound_split ok splits inside ends]
      refine rangesetShiftSplit_ok ok splits inside ends all fun high member => ?_
      have order := behind high member
      by_cases negative : delta.toInt < 0
      · have highNonempty := (ok.proper high (by simp [splits, member])).start_lt_stop
        have stayed := stays negative (location.toNat - 1)
          ⟨entry, by simp [splits], by omega, by omega⟩ (by omega)
          high.start ⟨high, by simp [splits, member], le_rfl, highNonempty⟩ (by omega) (by
            intro other otherMember otherStarts
            rw [splits, List.mem_append, List.mem_cons] at otherMember
            rcases otherMember with inBefore | rfl | inAfter
            · have ends := below other inBefore
              omega
            · exact order
            · have later := behind other inAfter
              omega)
        omega
      · omega
    · refine tail splits (le_of_eq atStart.symm) fun other member => ?_
      have order := below other member
      omega
  | behind splits starts below near => exact tail splits (Nat.le_of_lt starts) below
  | before splits ends above near =>
    exact absurd (NearestOutcome.nearestBelow ok splits ends near) (by assumption)

end Found

end MulleCore
