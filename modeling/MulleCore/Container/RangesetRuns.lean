import MulleCore.Container.RangesetRefines

/-!
Runs of a rangeset. Overlapping entries are always joined, but an insertion that
overlaps one entry and merely touches another one leaves the two adjacent.
-/

namespace MulleCore

open Library

variable {p : Rangeset}

/-- The strategy that the header documents: no overlapping, no adjacent and no
empty ranges, always sorted. -/
structure Rangeset.Canonical (p : Rangeset) : Prop where
  valid : ∀ entry ∈ p.ranges, rangeIsValid entry = true ∧ entry.length ≠ 0
  sorted : p.ranges.Pairwise fun left right => left.location < right.location
  coalesced : ∀ index, (bound : index + 1 < p.ranges.length) →
    rangeGetMax p.ranges[index] < p.ranges[index + 1].location

def Borders (covered : Set Nat) (range : Range) : Prop :=
  (∃ location ∈ covered, location + 1 = range.start ∧ range.start ∉ covered) ∨
    (range.stop ∈ covered ∧ range.stop - 1 ∉ covered)

/-- An insertion is safe when it meets nothing, or when it borders on nothing. -/
def InsertSafe (covered : Set Nat) (range : Range) : Prop :=
  range.Proper → Disjoint covered range.locations ∨ ¬Borders covered range

def InsertAny (_covered : Set Nat) (_range : Range) : Prop := True

section Allowed

variable (safe : Set Nat → Range → Prop)

def InsertsAllowed : Set Nat → List Range → Prop
  | _, [] => True
  | covered, range :: rest => safe covered range ∧ InsertsAllowed (insertLocations covered range) rest

def RangesetOp.Allowed (covered : Set Nat) : RangesetOp → Prop
  | .insert range => safe covered range
  | .insertRanges ranges => InsertsAllowed safe covered ranges
  | .remove _ | .removeRanges _ | .reset => True

def RunAllowed : Set Nat → List RangesetOp → Prop
  | _, [] => True
  | covered, op :: rest => op.Allowed safe covered ∧ RunAllowed (op.locations covered) rest

end Allowed

section Runs

variable {gap : Nat → Nat → Prop} {safe : Set Nat → Range → Prop}

theorem rangesetInsertRanges_ok (spacing : Spacing gap)
    (room : ∀ (p : Rangeset) (range : Range), p.Ok gap → safe p.locations range → range.Proper →
      (∃ entry ∈ p.ranges, entry.Meets range) → RoomAround gap p range) :
    ∀ (ranges : List Range) (p : Rangeset), p.Ok gap → InsertsAllowed safe p.locations ranges →
      ∃ q, rangesetInsertRanges p ranges = some q ∧ q.Ok gap ∧
        q.locations = ranges.foldl insertLocations p.locations := by
  intro ranges
  induction ranges with
  | nil => intro p ok _; exact ⟨p, rfl, ok, rfl⟩
  | cons range rest ih =>
    intro p ok allowed
    obtain ⟨next, inserted, nextOk, locations⟩ :=
      rangesetInsertRange_ok spacing ok range (room p range ok allowed.1)
    obtain ⟨q, result, qOk, final⟩ := ih next nextOk (locations ▸ allowed.2)
    refine ⟨q, ?_, qOk, ?_⟩
    · rw [rangesetInsertRanges, List.foldlM_cons, inserted]
      exact result
    · rw [final, locations, List.foldl_cons]

theorem RangesetOp.apply_ok (spacing : Spacing gap)
    (room : ∀ (p : Rangeset) (range : Range), p.Ok gap → safe p.locations range → range.Proper →
      (∃ entry ∈ p.ranges, entry.Meets range) → RoomAround gap p range)
    (op : RangesetOp) {p : Rangeset} (ok : p.Ok gap) (allowed : op.Allowed safe p.locations) :
    ∃ q, op.apply p = some q ∧ q.Ok gap ∧ q.locations = op.locations p.locations := by
  cases op with
  | insert range =>
    rw [RangesetOp.apply, rangesetInsert_eq]
    exact rangesetInsertRange_ok spacing ok range (room p range ok allowed)
  | remove range =>
    rw [RangesetOp.apply, rangesetRemove_eq]
    exact rangesetRemoveRange_ok spacing ok range
  | insertRanges ranges =>
    exact rangesetInsertRanges_ok spacing room ranges p ok allowed
  | removeRanges ranges =>
    obtain ⟨q, result, qOk, locations⟩ := rangesetRemoveAll_ok spacing ranges p ok
    refine ⟨rangesetShrink q, ?_, qOk.of_ranges (rangesetShrink_ranges q), ?_⟩
    · rw [RangesetOp.apply, rangesetRemoveRanges, result]
    · rw [Rangeset.locations_of_ranges (rangesetShrink_ranges q)]
      exact locations
  | reset =>
    have emptied : (rangesetReset p).ranges = [] := rangesetShrink_ranges _
    refine ⟨rangesetReset p, rfl, Rangeset.Ok.empty emptied, ?_⟩
    simp [Rangeset.locations, RangesetOp.locations, emptied]

theorem rangesetRun_ok (spacing : Spacing gap)
    (room : ∀ (p : Rangeset) (range : Range), p.Ok gap → safe p.locations range → range.Proper →
      (∃ entry ∈ p.ranges, entry.Meets range) → RoomAround gap p range) :
    ∀ (ops : List RangesetOp) (p : Rangeset), p.Ok gap → RunAllowed safe p.locations ops →
      ∃ q, rangesetRun p ops = some q ∧ q.Ok gap ∧
        q.locations = ops.foldl RangesetOp.locations p.locations := by
  intro ops
  induction ops with
  | nil => intro p ok _; exact ⟨p, rfl, ok, rfl⟩
  | cons op rest ih =>
    intro p ok allowed
    obtain ⟨next, applied, nextOk, locations⟩ := op.apply_ok spacing room ok allowed.1
    obtain ⟨q, result, qOk, final⟩ := ih next nextOk (locations ▸ allowed.2)
    refine ⟨q, ?_, qOk, ?_⟩
    · rw [rangesetRun, List.foldlM_cons, applied]
      exact result
    · rw [final, locations, List.foldl_cons]

theorem RunAllowed.of_initial {visited ops : List RangesetOp} (inside : visited <+: ops) :
    ∀ covered, RunAllowed safe covered ops → RunAllowed safe covered visited := by
  induction visited generalizing ops with
  | nil => intro covered _; trivial
  | cons op rest ih =>
    obtain ⟨later, rfl⟩ := inside
    intro covered allowed
    exact ⟨allowed.1, ih ⟨later, rfl⟩ _ allowed.2⟩

theorem runAllowed_insertAny : ∀ (ops : List RangesetOp) (covered : Set Nat),
    RunAllowed InsertAny covered ops := by
  have inserts : ∀ (ranges : List Range) (covered : Set Nat),
      InsertsAllowed InsertAny covered ranges := by
    intro ranges
    induction ranges with
    | nil => intro covered; trivial
    | cons range rest ih => intro covered; exact ⟨trivial, ih _⟩
  intro ops
  induction ops with
  | nil => intro covered; trivial
  | cons op rest ih =>
    intro covered
    refine ⟨?_, ih _⟩
    cases op with
    | insertRanges ranges => exact inserts ranges covered
    | insert _ => trivial
    | remove _ => trivial
    | removeRanges _ => trivial
    | reset => trivial

end Runs

/-! Touching entries are allowed: every range finds its place. -/

theorem roomAround_le (p : Rangeset) (range : Range) : RoomAround (· ≤ ·) p range :=
  ⟨fun _ _ => id, fun _ _ => id⟩

/-- Every operation ends, keeps the entries sorted and disjoint, and does to the
set of locations what its name says; so does every sequence of operations. -/
theorem rangeset_refines_locations (p : Rangeset) (proper : AllProper p.ranges)
    (disjoint : SortedDisjoint p.ranges) :
    (∀ range, ∃ q, rangesetInsert p range = some q ∧ AllProper q.ranges ∧
      SortedDisjoint q.ranges ∧
      q.locations = if rangeIsValid range = true ∧ range.length ≠ 0
        then p.locations ∪ range.locations else p.locations) ∧
    (∀ range, ∃ q, rangesetRemove p range = some q ∧ AllProper q.ranges ∧
      SortedDisjoint q.ranges ∧
      q.locations = if rangeIsValid range = true ∧ range.length ≠ 0
        then p.locations \ range.locations else p.locations) ∧
    ∀ ops, ∃ q, rangesetRun p ops = some q ∧ AllProper q.ranges ∧ SortedDisjoint q.ranges ∧
      q.locations = ops.foldl RangesetOp.locations p.locations := by
  have room : ∀ (p : Rangeset) (range : Range), p.Ok (· ≤ ·) →
      InsertAny p.locations range → range.Proper → (∃ entry ∈ p.ranges, entry.Meets range) →
        RoomAround (· ≤ ·) p range :=
    fun p range _ _ _ _ => roomAround_le p range
  have checks : ∀ range : Range,
      (rangeIsValid range = true ∧ range.length ≠ 0) = range.Proper := by
    intro range
    rw [range_proper_iff, and_comm]
  have ok : p.Ok (· ≤ ·) := ⟨proper, disjoint⟩
  refine ⟨fun range => ?_, fun range => ?_, fun ops => ?_⟩
  · obtain ⟨q, result, qOk, locations⟩ :=
      (RangesetOp.insert range).apply_ok spacing_le room ok trivial
    refine ⟨q, result, qOk.proper, qOk.apart, ?_⟩
    simp only [checks]
    exact locations
  · obtain ⟨q, result, qOk, locations⟩ :=
      (RangesetOp.remove range).apply_ok spacing_le room ok trivial
    refine ⟨q, result, qOk.proper, qOk.apart, ?_⟩
    simp only [checks]
    exact locations
  · obtain ⟨q, result, qOk, locations⟩ :=
      rangesetRun_ok spacing_le room ops p ok (runAllowed_insertAny ops _)
    exact ⟨q, result, qOk.proper, qOk.apart, locations⟩

theorem rangeset_refines_locations_adjacent :
    ∃ q, rangesetRun ⟨[⟨0, 5⟩, ⟨5, 3⟩], 2, false⟩ [.insert ⟨2, 4⟩, .remove ⟨1, 9⟩] = some q ∧
      AllProper q.ranges ∧ SortedDisjoint q.ranges ∧
      q.locations = [RangesetOp.insert ⟨2, 4⟩, .remove ⟨1, 9⟩].foldl RangesetOp.locations
        (Rangeset.locations ⟨[⟨0, 5⟩, ⟨5, 3⟩], 2, false⟩) :=
  (rangeset_refines_locations ⟨[⟨0, 5⟩, ⟨5, 3⟩], 2, false⟩ (by decide)
    (by simp [SortedDisjoint, Apart, Range.start, Range.stop])).2.2 _

/-! Canonical rangesets. -/

theorem Rangeset.Ok.canonical (ok : p.Ok (· < ·)) : p.Canonical := by
  refine ⟨?_, ?_, ?_⟩
  · intro entry member
    exact ((range_proper_iff entry).mp (ok.proper entry member)).symm
  · refine List.Pairwise.imp_of_mem ?_ ok.apart
    intro left right leftMember _ apart
    have nonempty := (ok.proper left leftMember).start_lt_stop
    rw [UInt64.lt_iff_toNat_lt]
    exact lt_trans nonempty apart
  · intro index bound
    have apart := ok.apart.getElem (Nat.lt_succ_self index) (Nat.lt_of_succ_lt bound) bound
    rw [UInt64.lt_iff_toNat_lt, (ok.proper _ (List.getElem_mem _)).getMax_toNat]
    exact apart

theorem Rangeset.Ok.separate (ok : p.Ok (· < ·)) {left right : Range}
    (leftMember : left ∈ p.ranges) (rightMember : right ∈ p.ranges) :
    left = right ∨ left.stop < right.start ∨ right.stop < left.start := by
  obtain ⟨first, firstBound, rfl⟩ := List.mem_iff_getElem.mp leftMember
  obtain ⟨second, secondBound, rfl⟩ := List.mem_iff_getElem.mp rightMember
  rcases lt_trichotomy first second with before | rfl | after
  · exact Or.inr (Or.inl (ok.apart.getElem before firstBound secondBound))
  · exact Or.inl rfl
  · exact Or.inr (Or.inr (ok.apart.getElem after secondBound firstBound))

theorem Rangeset.Ok.borders_of_touching (ok : p.Ok (· < ·)) {entry range : Range}
    (member : entry ∈ p.ranges) (rangeProper : range.Proper)
    (touching : entry.stop = range.start ∨ range.stop = entry.start) :
    Borders p.locations range := by
  have nonempty := (ok.proper entry member).start_lt_stop
  have rangeNonempty := rangeProper.start_lt_stop
  rcases touching with before | behind
  · refine Or.inl ⟨entry.stop - 1, ⟨entry, member, by omega, by omega⟩, by omega, ?_⟩
    rintro ⟨other, otherMember, lower, upper⟩
    have otherNonempty := (ok.proper other otherMember).start_lt_stop
    rcases ok.separate member otherMember with rfl | apart | apart <;> omega
  · refine Or.inr ⟨⟨entry, member, by omega, by omega⟩, ?_⟩
    rintro ⟨other, otherMember, lower, upper⟩
    have otherNonempty := (ok.proper other otherMember).start_lt_stop
    rcases ok.separate member otherMember with rfl | apart | apart <;> omega

theorem Rangeset.Ok.roomAround_of_safe (p : Rangeset) (range : Range) (ok : p.Ok (· < ·))
    (safe : InsertSafe p.locations range) (rangeProper : range.Proper)
    (meeting : ∃ entry ∈ p.ranges, entry.Meets range) : RoomAround (· < ·) p range := by
  obtain ⟨entry, member, starts, reaches⟩ := meeting
  have nonempty := (ok.proper entry member).start_lt_stop
  have rangeNonempty := rangeProper.start_lt_stop
  have clear : ¬Borders p.locations range := by
    rcases safe rangeProper with disjoint | clear
    · have shared : max entry.start range.start ∈ p.locations :=
        ⟨entry, member, by omega, by omega⟩
      refine absurd ?_ (Set.disjoint_left.mp disjoint shared)
      rw [Range.locations, Set.mem_Ico]
      omega
    · exact clear
  constructor
  · intro other otherMember ordered
    refine lt_of_le_of_ne ordered fun touching => clear ?_
    exact ok.borders_of_touching otherMember rangeProper (Or.inl touching)
  · intro other otherMember ordered
    refine lt_of_le_of_ne ordered fun touching => clear ?_
    exact ok.borders_of_touching otherMember rangeProper (Or.inr touching)

/-- As long as no insertion meets one entry while it touches another one, every
state that a run visits is canonical. -/
theorem rangesetRun_canonical (p : Rangeset) (empty : p.ranges = []) (ops : List RangesetOp)
    (safe : RunAllowed InsertSafe ∅ ops) (visited : List RangesetOp) (inside : visited <+: ops) :
    ∃ q, rangesetRun p visited = some q ∧ q.Canonical := by
  have locations : p.locations = ∅ := by simp [Rangeset.locations, empty]
  obtain ⟨q, result, ok, -⟩ :=
    rangesetRun_ok spacing_lt Rangeset.Ok.roomAround_of_safe visited p (Rangeset.Ok.empty empty)
      (locations ▸ safe.of_initial inside)
  exact ⟨q, result, ok.canonical⟩

theorem rangesetRun_canonical_joining :
    ∃ q, rangesetRun (rangesetInit 0) [.insert ⟨0, 5⟩, .insert ⟨7, 2⟩, .insert ⟨2, 10⟩] = some q ∧
      q.Canonical := by
  refine rangesetRun_canonical (rangesetInit 0) rfl
    [.insert ⟨0, 5⟩, .insert ⟨7, 2⟩, .insert ⟨2, 10⟩] ⟨?_, ?_, ?_, trivial⟩ _ (List.prefix_refl _)
  · exact fun _ => Or.inl (Set.empty_disjoint _)
  · refine fun _ => Or.inl ?_
    rw [RangesetOp.locations, insertLocations, if_pos (by decide), Set.empty_union,
      Set.disjoint_left]
    simp only [Range.locations, Range.start, Range.stop, Set.mem_Ico, UInt64.toNat_ofNat]
    omega
  · refine fun _ => Or.inr ?_
    simp only [RangesetOp.locations, insertLocations, Range.locations]
    rw [if_pos (by decide), if_pos (by decide), Set.empty_union]
    simp only [Borders, Range.start, Range.stop, Set.mem_union, Set.mem_Ico, UInt64.toNat_ofNat]
    omega

theorem rangesetRun_not_canonical :
    ¬∀ (p : Rangeset) (ops : List RangesetOp), p.ranges = [] →
      ∃ q, rangesetRun p ops = some q ∧ q.Canonical := by
  intro always
  obtain ⟨q, result, canonical⟩ :=
    always (rangesetInit 0) [.insert ⟨0, 5⟩, .insert ⟨7, 2⟩, .insert ⟨5, 3⟩] rfl
  have reached : rangesetRun (rangesetInit 0)
      [.insert ⟨0, 5⟩, .insert ⟨7, 2⟩, .insert ⟨5, 3⟩] =
        some ⟨[⟨0, 5⟩, ⟨5, 4⟩], 2, false⟩ := by decide
  rw [reached, Option.some.injEq] at result
  subst result
  exact absurd (canonical.coalesced 0 (by decide)) (by decide)

end MulleCore
