import Mathlib.Data.Set.Card
import Mathlib.Order.Interval.Finset.Nat
import MulleCore.Container.RangesetSearch

/-!
The sum of the lengths inside of a range is the number of its covered locations, unless the
search for its first entry ends at one below.
-/

namespace MulleCore

open Library

section SumLengths

variable {p : Rangeset} {range : Range}
variable {entry : Range} {before after : List Range}

noncomputable def coveredCount (covered : Set Nat) (range : Range) : Nat :=
  (covered ∩ range.locations).ncard

/-- The range starts in a hole, and a covered location below it is nearer than the first one
that follows, which the range reaches. -/
def StartsNearerBelow (covered : Set Nat) (range : Range) : Prop :=
  ∃ below ∈ covered, ∃ above ∈ covered, below < range.start ∧ range.start ≤ above ∧
    above < range.stop ∧
    (∀ location ∈ covered, location < range.start ∨ above ≤ location) ∧
    range.start - below < above - range.start

theorem rangeIntersection_length (entryProper : entry.Proper) (proper : range.Proper)
    (meets : entry.Meets range) :
    (rangeIntersection entry range).length.toNat = min entry.stop range.stop -
      max entry.start range.start := by
  have least := toNat_least (rangeGetMax entry) (rangeGetMax range)
  have greatest := toNat_greatest entry.location range.location
  rw [entryProper.getMax_toNat, proper.getMax_toNat] at least
  change _ = max entry.start range.start at greatest
  obtain ⟨starts, reaches⟩ := meets
  have nonempty := entryProper.start_lt_stop
  have rangeNonempty := proper.start_lt_stop
  rw [rangeIntersection]
  generalize (if rangeGetMax entry < rangeGetMax range then rangeGetMax entry
    else rangeGetMax range) = leastStop at least ⊢
  generalize (if entry.location > range.location then entry.location else range.location) =
    greatestStart at greatest ⊢
  have ordered : ¬ leastStop < greatestStart := by
    rw [UInt64.lt_iff_toNat_lt]
    omega
  rw [if_neg ordered, UInt64.toNat_sub_of_le, least, greatest]
  rw [UInt64.le_iff_toNat_le]
  omega

theorem ncard_Ico (first last : Nat) : (Set.Ico first last).ncard = last - first := by
  rw [← Finset.coe_Ico, Set.ncard_coe_finset, Nat.card_Ico]

theorem finite_locations (covered : Set Nat) (range : Range) : (covered ∩ range.locations).Finite :=
  Set.Finite.subset (Set.finite_Ico range.start range.stop) Set.inter_subset_right

theorem coveredCount_cons {rest : List Range} (behind : ∀ other ∈ rest, entry.stop ≤ other.start) :
    coveredCount (cover Range.start Range.stop (entry :: rest)) range =
      (min entry.stop range.stop - max entry.start range.start) + coveredCount
    (cover Range.start Range.stop rest) range := by
  have apart : Disjoint (Set.Ico entry.start entry.stop ∩ range.locations)
      (cover Range.start Range.stop rest ∩ range.locations) := by
    rw [Set.disjoint_left]
    rintro location ⟨⟨_, upper⟩, _⟩ ⟨⟨other, member, lower, _⟩, _⟩
    have order := behind other member
    omega
  rw [coveredCount, cover_cons, Set.union_inter_distrib_right,
    Set.ncard_union_eq apart (finite_locations _ range) (finite_locations _ range), Range.locations,
    Set.Ico_inter_Ico, ncard_Ico, coveredCount, Range.locations]

theorem coveredCount_le (covered : Set Nat) (range : Range) :
    coveredCount covered range ≤ range.length.toNat := by
  have bound : coveredCount covered range ≤ range.locations.ncard :=
    Set.ncard_le_ncard Set.inter_subset_right (Set.finite_Ico range.start range.stop)
  have whole : range.locations.ncard = range.stop - range.start := ncard_Ico _ _
  rw [Range.start, Range.stop] at whole
  omega

theorem coveredCount_of_disjoint {covered : Set Nat}
    (misses : ∀ location ∈ covered, location ∉ range.locations) :
    coveredCount covered range = 0 := by
  rw [coveredCount, Set.ncard_eq_zero (finite_locations covered range),
    Set.eq_empty_iff_forall_notMem]
  exact fun location shared => misses location shared.1 shared.2

theorem rangesetSumFrom_toNat (proper : range.Proper) :
    ∀ {entries : List Range}, SortedDisjoint entries → AllProper entries →
      (∀ entry ∈ entries, range.start < entry.stop) →
      (rangesetSumFrom range entries).toNat = coveredCount
    (cover Range.start Range.stop entries) range := by
  intro entries
  induction entries with
  | nil => simp [rangesetSumFrom, coveredCount]
  | cons entry rest ih =>
    intro sorted allProper ends
    have entryProper := allProper.head
    have whole : SortedDisjoint ([] ++ entry :: rest) := sorted
    have behind := (sortedDisjoint_splits whole).2
    have meetsIff := rangeIntersection_length_ne_zero entryProper proper
    rw [rangesetSumFrom]
    by_cases meets : entry.Meets range
    · have counted : coveredCount _ range = _ := coveredCount_cons behind
      have length := rangeIntersection_length entryProper proper meets
      have rested := ih (List.Pairwise.of_cons sorted) allProper.tail
        fun other member => ends other (List.mem_cons_of_mem entry member)
      have bound := coveredCount_le (cover Range.start Range.stop (entry :: rest)) range
      have small := range.length.toNat_lt
      rw [if_neg (meetsIff.mpr meets), UInt64.toNat_add, length, rested, counted, Nat.mod_eq_of_lt]
      omega
    · rw [if_pos (not_not.mp (mt meetsIff.mp meets)), coveredCount_of_disjoint]
      · rfl
      · have later := le_start_of_not_meets (ends entry List.mem_cons_self) meets
        have entryNonempty := entryProper.start_lt_stop
        rintro location ⟨other, member, lower, _⟩ ⟨_, upper⟩
        rcases List.mem_cons.mp member with rfl | inRest
        · omega
        · have order := behind other inRest
          omega

theorem not_mem_locations_of_stop_le (ends : entry.stop ≤ range.start) {location : Nat}
    (inside : location < entry.stop) : location ∉ range.locations := by
  rintro ⟨lower, _⟩
  omega

theorem locations_splice (splits : p.ranges = before ++ entry :: after) :
    p.locations = cover Range.start Range.stop before ∪
      cover Range.start Range.stop (entry :: after) := by
  rw [Rangeset.locations, splits, cover_append]

theorem coveredCount_splice (splits : p.ranges = before ++ entry :: after)
    (ends : ∀ other ∈ before, other.stop ≤ range.start) :
    coveredCount p.locations range =
      coveredCount (cover Range.start Range.stop (entry :: after)) range := by
  have nothing : cover Range.start Range.stop before ∩ range.locations = ∅ := by
    rw [Set.eq_empty_iff_forall_notMem]
    rintro location ⟨⟨other, member, _, upper⟩, shared⟩
    exact not_mem_locations_of_stop_le (ends other member) upper shared
  rw [coveredCount, locations_splice splits, Set.union_inter_distrib_right, nothing,
    Set.empty_union, coveredCount]

theorem location_le_max (proper : range.Proper) : range.location ≤ rangeLocationMax := by
  have bound := proper.2
  have nonempty := proper.1
  rw [notFound_toNat, Range.stop] at bound
  rw [UInt64.le_iff_toNat_le, rangeLocationMax_toNat]
  omega

/-- The sum is right, unless the range starts in a hole whose lower end is nearer. -/
theorem rangesetSumLengthsRange_iff (p : Rangeset) (allProper : AllProper p.ranges)
    (disjoint : SortedDisjoint p.ranges) (range : Range) (valid : rangeIsValid range = true)
    (nonempty : range.length ≠ 0) :
    (rangesetSumLengthsRange p range).toNat = coveredCount p.locations range ↔
    ¬ StartsNearerBelow p.locations range := by
  have ok : p.Ok (· ≤ ·) := ⟨allProper, disjoint⟩
  have proper : range.Proper := (range_proper_iff range).mpr ⟨nonempty, valid⟩
  have nearest := rangesetSearchNearestP_outcome ok (location_le_max proper)
  change NearestOutcome p.ranges range.start _ at nearest
  rw [rangesetSumLengthsRange]
  generalize rangesetSearchNearestP p range.location = found at nearest ⊢
  -- from the found entry on, the loop counts right
  have counts : ∀ {before after : List Range} {entry : Range}, p.ranges = before ++ entry :: after →
      range.start < entry.stop → (∀ other ∈ before, other.stop ≤ range.start) →
      (rangesetSumFrom range (p.ranges.drop before.length)).toNat =
        coveredCount p.locations range := by
    intro before after entry splits reaches ends
    have entryProper := allProper entry (by simp [splits])
    have entryNonempty := entryProper.start_lt_stop
    rw [coveredCount_splice splits ends, splits, List.drop_left]
    rw [splits] at allProper disjoint
    refine rangesetSumFrom_toNat proper (List.pairwise_append.mp disjoint).2.1
      (allProper_append.mp allProper).2 ?_
    intro other member
    rcases List.mem_cons.mp member with rfl | later
    · exact reaches
    · have order := (sortedDisjoint_splits disjoint).2 other later
      have otherNonempty := (allProper other (by simp [later])).start_lt_stop
      omega
  cases nearest with
  | empty nothing =>
    have zero : coveredCount p.locations range = 0 :=
      coveredCount_of_disjoint (by simp [Rangeset.locations, nothing])
    rw [zero]
    simp [StartsNearerBelow, Rangeset.locations, nothing]
  | around splits starts ends =>
    rename_i before after entry
    have member : entry ∈ p.ranges := by simp [splits]
    have below : ∀ other ∈ before, other.stop ≤ range.start := fun other inBefore => by
      have order := (sortedDisjoint_splits (splits ▸ disjoint)).1 other inBefore
      omega
    refine iff_of_true (counts splits ends below) ?_
    rintro ⟨low, _, high, _, lower, upper, _, gap, nearer⟩
    rcases gap range.start ⟨entry, member, starts, ends⟩ with before | behind
    · omega
    · omega
  | behind splits starts below near =>
    rename_i before after entry
    have entryNonempty := (allProper entry (by simp [splits])).start_lt_stop
    refine iff_of_true (counts splits (by omega) below) ?_
    rintro ⟨low, ⟨lowEntry, lowMember, _, lowUpper⟩, high, _, lower, upper, _, gap, nearer⟩
    have highest : high ≤ entry.start := by
      rcases gap entry.start ⟨entry, by simp [splits], le_rfl, entryNonempty⟩ with before | behind
      · omega
      · exact behind
    rw [splits, List.mem_append, List.mem_cons] at lowMember
    rcases lowMember with earlier | rfl | later
    · have order := near lowEntry earlier
      omega
    · omega
    · have order := (sortedDisjoint_splits (splits ▸ disjoint)).2 lowEntry later
      have lowNonempty := (allProper lowEntry (by simp [splits, later])).start_lt_stop
      omega
  | before splits ends above near =>
    rename_i before after entry
    have entryProper := allProper entry (by simp [splits])
    have entryNonempty := entryProper.start_lt_stop
    have misses : ¬ entry.Meets range := by
      rintro ⟨_, reaches⟩
      omega
    have zero : rangesetSumFrom range (p.ranges.drop before.length) = 0 := by
      have meetsIff := rangeIntersection_length_ne_zero entryProper proper
      rw [splits, List.drop_left, rangesetSumFrom, if_pos (not_not.mp (mt meetsIff.mp misses))]
    dsimp only
    rw [zero]
    constructor
    · rintro counted ⟨low, _, high, covered, _, upper, within, _, _⟩
      have positive : 0 < coveredCount p.locations range := by
        rw [coveredCount, Set.ncard_pos (finite_locations p.locations range)]
        exact ⟨high, covered, upper, within⟩
      rw [← counted] at positive
      exact absurd positive (Nat.lt_irrefl 0)
    · intro apart
      refine (coveredCount_of_disjoint ?_).symm
      rintro location ⟨other, member, lower, upper⟩ ⟨rangeLower, rangeUpper⟩
      rw [splits, List.mem_append, List.mem_cons] at member
      rcases member with earlier | rfl | later
      · have order := (sortedDisjoint_splits (splits ▸ disjoint)).1 other earlier
        omega
      · omega
      · -- the first entry that follows begins after the range does
        cases after with
        | nil => exact absurd later List.not_mem_nil
        | cons next rest =>
          have nextStarts := above next List.mem_cons_self
          have nextNear := near next List.mem_cons_self
          have nextNonempty := (allProper next (by simp [splits])).start_lt_stop
          have first : ∀ entry ∈ next :: rest, next.start ≤ entry.start := by
            intro candidate inside
            rcases List.mem_cons.mp inside with rfl | inRest
            · exact le_rfl
            · have whole : SortedDisjoint (next :: rest) :=
                List.Pairwise.of_cons (List.pairwise_append.mp (splits ▸ disjoint)).2.1
              have order := (List.pairwise_cons.mp whole).1 candidate inRest
              omega
          have nextLeast := first other later
          refine apart ⟨entry.stop - 1, ⟨entry, by simp [splits], by omega, by omega⟩, next.start,
            ⟨next, by simp [splits], le_rfl, nextNonempty⟩, by
              omega, by omega, by omega, ?_, by omega⟩
          rintro place ⟨holder, holderMember, holderLower, holderUpper⟩
          rw [splits, List.mem_append, List.mem_cons] at holderMember
          rcases holderMember with inBefore | rfl | inAfter
          · have order := (sortedDisjoint_splits (splits ▸ disjoint)).1 holder inBefore
            omega
          · omega
          · have order := first holder inAfter
            omega

theorem rangesetSumLengthsRange_iff_hole :
    (rangesetSumLengthsRange ⟨[⟨0, 5⟩, ⟨10, 5⟩], 2, false⟩ ⟨8, 4⟩).toNat =
        coveredCount (Rangeset.locations ⟨[⟨0, 5⟩, ⟨10, 5⟩], 2, false⟩) ⟨8, 4⟩ ↔
      ¬ StartsNearerBelow (Rangeset.locations ⟨[⟨0, 5⟩, ⟨10, 5⟩], 2, false⟩) ⟨8, 4⟩ :=
  rangesetSumLengthsRange_iff ⟨[⟨0, 5⟩, ⟨10, 5⟩], 2, false⟩ (by decide)
    (by simp [SortedDisjoint, Apart, Range.start, Range.stop]) ⟨8, 4⟩ (by decide) (by decide)

theorem rangesetSumLengthsRange_wrong :
    ¬ ∀ (p : Rangeset), AllProper p.ranges → SortedDisjoint p.ranges →
      ∀ range, rangeIsValid range = true → range.length ≠ 0 →
        (rangesetSumLengthsRange p range).toNat = coveredCount p.locations range := by
  intro always
  have sum := always ⟨[⟨0, 5⟩, ⟨10, 5⟩], 2, false⟩ (by decide)
    (by simp [SortedDisjoint, Apart, Range.start, Range.stop]) ⟨6, 10⟩ (by decide) (by decide)
  have zero : rangesetSumLengthsRange ⟨[⟨0, 5⟩, ⟨10, 5⟩], 2, false⟩ ⟨6, 10⟩ = 0 := by decide
  have positive : 0 < coveredCount (Rangeset.locations ⟨[⟨0, 5⟩, ⟨10, 5⟩], 2, false⟩) ⟨6, 10⟩ := by
    rw [coveredCount, Set.ncard_pos (finite_locations _ _)]
    refine ⟨10, ⟨⟨10, 5⟩, by simp, ?_⟩, ?_⟩
    · simp [Range.start, Range.stop]
    · simp [Range.locations, Range.start, Range.stop]
  rw [zero] at sum
  exact absurd positive (sum ▸ Nat.lt_irrefl 0)

end SumLengths

end MulleCore
