import MulleCore.Container.RangesetRuns
import MulleCore.Data.RangeLocations

/-!
The queries of `mulle--rangeset.c`. A range that is searched for is the index of an entry.
-/

namespace MulleCore

open Library

def rangesetContains (p : Rangeset) (range : Range) : Bool :=
  if range.length = 0 then false
  else if p.ranges.isEmpty then false
  else (rangeContainsBsearch p.ranges range).isSome

def rangesetIntersects (p : Rangeset) (range : Range) : Bool :=
  if range.length = 0 then false
  else if p.ranges.isEmpty then false
  else (rangeIntersectsBsearch p.ranges range).isSome

def rangesetSearchNearestP (p : Rangeset) (location : UInt64) : Option Nat :=
  match rangeIntersectsBsearch p.ranges (rangeMake location 1) with
  | some curr => some curr
  | none =>
    if p.ranges.isEmpty then none
    else
      let index := rangeHoleBsearch p.ranges location
      let index := if index = p.ranges.length then index - 1 else index
      if index ≠ 0 ∧ rangeDistanceToLocation (rangeAt p.ranges index) location >
          rangeDistanceToLocation (rangeAt p.ranges (index - 1)) location then
        some (index - 1)
      else some index

inductive RangesetDirection where
  | none
  | lessThan
  | greaterThan
deriving DecidableEq

structure RangesetSearchoperation where
  equal : Bool
  direction : RangesetDirection

def rangesetSearchRange (p : Rangeset) (location : UInt64) (op : RangesetSearchoperation) : Range :=
  match rangesetSearchNearestP p location with
  | none => rangeMakeInvalid
  | some curr =>
    if op.equal = true ∧ rangeContainsLocation (rangeAt p.ranges curr) location = true then
      rangeAt p.ranges curr
    else
      match op.direction with
      | .lessThan =>
        if location = 0 then rangeMakeInvalid
        else if rangeGreaterThanOrEqualToLocation (rangeAt p.ranges curr) location = true then
          if curr = 0 then rangeMakeInvalid else rangeAt p.ranges (curr - 1)
        else rangeAt p.ranges curr
      | .greaterThan =>
        if location < rangeLocationMax then
          if rangeLessThanOrEqualToLocation (rangeAt p.ranges curr) location = true then
            if curr + 1 = p.ranges.length then rangeMakeInvalid else rangeAt p.ranges (curr + 1)
          else rangeAt p.ranges curr
        else rangeMakeInvalid
      | .none => rangeMakeInvalid

def rangesetSearchLocation (p : Rangeset) (location : UInt64) (op : RangesetSearchoperation) :
    UInt64 :=
  let range := rangesetSearchRange p location op
  if rangeIsValid range = false then notFound
  else if op.equal = true ∧ rangeContainsLocation range location = true then location
  else
    match op.direction with
    | .lessThan =>
      if location = 0 then notFound
      else if rangeContainsLocation range (location - 1) = true then location - 1
      else rangeGetLastLocation range
    | .greaterThan =>
      if location < rangeLocationMax then
        if rangeContainsLocation range (location + 1) = true then location + 1 else range.location
      else notFound
    | .none => notFound

def rangesetSumFrom (range : Range) : List Range → UInt64
  | [] => 0
  | curr :: rest =>
    let length := (rangeIntersection curr range).length
    if length = 0 then 0 else length + rangesetSumFrom range rest

def rangesetSumLengthsRange (p : Rangeset) (range : Range) : UInt64 :=
  match rangesetSearchNearestP p range.location with
  | none => 0
  | some curr => rangesetSumFrom range (p.ranges.drop curr)

section Nearest

variable {entry : Range} {location : UInt64}

inductive NearestOutcome (buf : List Range) (location : Nat) : Option Nat → Prop where
  | empty (nothing : buf = []) : NearestOutcome buf location none
  | around {before after : List Range} {entry : Range} (splits : buf = before ++ entry :: after)
      (starts : entry.start ≤ location) (ends : location < entry.stop) :
      NearestOutcome buf location (some before.length)
  | behind {before after : List Range} {entry : Range} (splits : buf = before ++ entry :: after)
      (starts : location < entry.start) (below : ∀ other ∈ before, other.stop ≤ location)
      (near : ∀ other ∈ before, entry.start - location ≤ location + 1 - other.stop) :
      NearestOutcome buf location (some before.length)
  | before {before after : List Range} {entry : Range} (splits : buf = before ++ entry :: after)
      (ends : entry.stop ≤ location) (above : ∀ other ∈ after, location < other.start)
      (near : ∀ other ∈ after, location + 1 - entry.stop < other.start - location) :
      NearestOutcome buf location (some before.length)

theorem sortedDisjoint_splits {before after : List Range}
    (sorted : SortedDisjoint (before ++ entry :: after)) :
    (∀ other ∈ before, other.stop ≤ entry.start) ∧ ∀ other ∈ after, entry.stop ≤ other.start := by
  refine ⟨fun other member => ?_, (List.pairwise_cons.mp (List.pairwise_append.mp sorted).2.1).1⟩
  exact (List.pairwise_append.mp sorted).2.2 other member entry List.mem_cons_self

theorem rangeLocationMax_toNat : rangeLocationMax.toNat = 2 ^ 63 - 2 := rfl

theorem one_location_proper (inside : location ≤ rangeLocationMax) :
    (rangeMake location 1).Proper := by
  have bound : location.toNat ≤ rangeLocationMax.toNat := UInt64.le_iff_toNat_le.mp inside
  rw [rangeLocationMax_toNat] at bound
  refine ⟨Nat.one_pos, ?_⟩
  change location.toNat + 1 ≤ 2 ^ 63 - 1
  omega

theorem rangeDistance_last (front : List Range) (previous last : Range)
    (proper : AllProper (front ++ [previous, last]))
    (sorted : SortedDisjoint (front ++ [previous, last])) (ends : last.stop ≤ location.toNat) :
    ¬ rangeDistanceToLocation last location > rangeDistanceToLocation previous location := by
  have lastProper := proper last (by simp)
  have nonempty := lastProper.start_lt_stop
  have order := (sortedDisjoint_splits sorted).2 last (by simp)
  rw [gt_iff_lt, UInt64.lt_iff_toNat_lt, rangeDistanceToLocation_below lastProper ends,
    rangeDistanceToLocation_below (proper previous (by simp)) (by omega)]
  omega

theorem meets_one_iff :
    entry.Meets (rangeMake location 1) ↔ entry.start ≤ location.toNat ∧
    location.toNat < entry.stop := by
  have one : (1 : UInt64).toNat = 1 := rfl
  simp only [Range.Meets, Library.Meets, Range.start, Range.stop, rangeMake, one]
  omega

theorem rangesetSearchNearestP_outcome {p : Rangeset} (ok : p.Ok (· ≤ ·))
    (inside : location ≤ rangeLocationMax) :
    NearestOutcome p.ranges location.toNat (rangesetSearchNearestP p location) := by
  have proper := ok.proper
  have sorted : SortedDisjoint p.ranges := ok.apart
  have oneProper := one_location_proper inside
  have search := rangeIntersectsBsearch_outcome sorted proper oneProper
  rw [rangesetSearchNearestP]
  cases found : rangeIntersectsBsearch p.ranges (rangeMake location 1) with
  | some curr =>
    rw [found] at search
    obtain ⟨bound, meets⟩ := search
    rw [meets_one_iff] at meets
    obtain ⟨before, after, splits, sized⟩ := exists_splice bound
    rw [← sized]
    exact .around splits meets.1 meets.2
  | none =>
    rw [found] at search
    obtain ⟨before, after, splits, sized, below, above⟩ :=
      rangeHoleBsearch_splits sorted proper oneProper search
    change before.length = rangeHoleBsearch p.ranges location at sized
    have ends : ∀ other ∈ before, other.stop ≤ location.toNat := below
    have starts : ∀ other ∈ after, location.toNat < other.start := fun other member => by
      have beyond := above other member
      have one : (rangeMake location 1).stop = location.toNat + 1 := rfl
      omega
    dsimp only
    rw [← sized]
    split
    · rename_i empty
      exact .empty (List.isEmpty_iff.mp empty)
    · rename_i nonempty
      rw [List.isEmpty_iff, splits] at nonempty
      rw [splits] at proper sorted ⊢
      cases after with
      | nil =>
        rcases List.eq_nil_or_concat' before with rfl | ⟨front, last, rfl⟩
        · exact absurd rfl nonempty
        · have lastEnds := ends last (by simp)
          have atEnd : (if (front ++ [last]).length = (front ++ [last] ++ []).length then
            (front ++ [last]).length - 1
              else (front ++ [last]).length) = front.length := by simp
          rw [atEnd, if_neg]
          · have outcome : NearestOutcome (front ++ last :: []) location.toNat (some front.length) :=
              .before rfl lastEnds (fun _ none => absurd none List.not_mem_nil)
                (fun _ none => absurd none List.not_mem_nil)
            simpa using outcome
          · rintro ⟨positive, farther⟩
            rcases List.eq_nil_or_concat' front with rfl | ⟨front, previous, rfl⟩
            · exact positive rfl
            · apply rangeDistance_last front previous last (by simpa using proper)
                (by simpa using sorted) lastEnds
              simpa [rangeAt] using farther
      | cons entry rest =>
        have entryProper := proper entry (by simp)
        have entryStarts := starts entry List.mem_cons_self
        have behind := (sortedDisjoint_splits sorted).2
        have inMiddle : (if before.length = (before ++ entry :: rest).length then before.length - 1
            else before.length) = before.length := if_neg (by simp)
        rw [inMiddle, rangeAt_splice]
        rcases List.eq_nil_or_concat' before with rfl | ⟨front, last, rfl⟩
        · exact .behind rfl entryStarts (by simp) (by simp)
        · have lastEnds := ends last (by simp)
          have lastProper := proper last (by simp)
          have previous :
              rangeAt (front ++ [last] ++ entry :: rest) ((front ++ [last]).length - 1) = last := by
            simp [rangeAt]
          have compared :
            rangeDistanceToLocation entry location > rangeDistanceToLocation last location ↔
              location.toNat + 1 - last.stop < entry.start - location.toNat := by
            rw [gt_iff_lt, UInt64.lt_iff_toNat_lt, rangeDistanceToLocation_below lastProper lastEnds,
              rangeDistanceToLocation_above entryProper entryStarts]
          simp only [previous, compared]
          split
          · rename_i nearer
            have length : (front ++ [last]).length - 1 = front.length := by simp
            rw [length, List.append_assoc]
            refine .before rfl lastEnds starts fun other member => ?_
            rcases List.mem_cons.mp member with rfl | later
            · exact nearer.2
            · have order := behind other later
              have nonempty := entryProper.start_lt_stop
              omega
          · rename_i farther
            have nearest : entry.start - location.toNat ≤ location.toNat + 1 - last.stop := by
              simpa using farther
            refine .behind rfl entryStarts ends fun other member => ?_
            rcases List.mem_append.mp member with earlier | same
            · have whole : SortedDisjoint (front ++ last :: entry :: rest) := by simpa using sorted
              have order := (sortedDisjoint_splits whole).1 other earlier
              have nonempty := lastProper.start_lt_stop
              omega
            · rw [List.mem_singleton.mp same]
              exact nearest

end Nearest

/-!
A rangeset contains a range that one of its entries holds. Where adjacent entries stay apart, a
covered range may be held by none.
-/

section Covered

variable {p : Rangeset} {range : Range}

theorem rangesetContains_iff (ok : p.Ok (· ≤ ·)) (proper : range.Proper) :
    rangesetContains p range = true ↔ ∃ entry ∈ p.ranges, entry.Holds range := by
  have search := rangeContainsBsearch_outcome ok.apart ok.proper proper
  rw [rangesetContains, if_neg proper.length_ne_zero]
  split
  · rename_i empty
    simp [List.isEmpty_iff.mp empty]
  · cases found : rangeContainsBsearch p.ranges range with
    | none =>
      rw [found] at search
      simp only [Option.isSome_none, Bool.false_eq_true, false_iff]
      rintro ⟨entry, member, holds⟩
      exact search entry member holds
    | some index =>
      rw [found] at search
      obtain ⟨bound, holds⟩ := search
      simp only [Option.isSome_some, true_iff]
      exact ⟨_, List.getElem_mem bound, holds⟩

theorem rangesetIntersects_iff (ok : p.Ok (· ≤ ·)) (proper : range.Proper) :
    rangesetIntersects p range = true ↔ ∃ entry ∈ p.ranges, entry.Meets range := by
  have search := rangeIntersectsBsearch_outcome ok.apart ok.proper proper
  rw [rangesetIntersects, if_neg proper.length_ne_zero]
  split
  · rename_i empty
    simp [List.isEmpty_iff.mp empty]
  · cases found : rangeIntersectsBsearch p.ranges range with
    | none =>
      rw [found] at search
      simp only [Option.isSome_none, Bool.false_eq_true, false_iff]
      rintro ⟨entry, member, meets⟩
      exact search entry member meets
    | some index =>
      rw [found] at search
      obtain ⟨bound, meets⟩ := search
      simp only [Option.isSome_some, true_iff]
      exact ⟨_, List.getElem_mem bound, meets⟩

def QueriesRight (p : Rangeset) (covered : Set Nat) (range : Range) : Prop :=
  (rangesetContains p range = true ↔ range.locations ⊆ covered) ∧
    (rangesetIntersects p range = true ↔ ∃ location ∈ covered, location ∈ range.locations)

def CoveredInPieces (p : Rangeset) (range : Range) : Prop :=
  range.locations ⊆ p.locations ∧ ∃ entry ∈ p.ranges, range.start < entry.stop ∧
    entry.stop < range.stop

theorem meets_iff_location (proper : range.Proper) {entry : Range} (entryProper : entry.Proper) :
    entry.Meets range ↔ ∃ location, (entry.start ≤ location ∧ location < entry.stop) ∧
    location ∈ range.locations := by
  have nonempty := proper.start_lt_stop
  have entryNonempty := entryProper.start_lt_stop
  simp only [Range.Meets, Library.Meets, Range.locations, Set.mem_Ico]
  constructor
  · exact fun meets => ⟨max entry.start range.start, by omega⟩
  · rintro ⟨location, inside⟩
    omega

theorem queriesRight_iff (ok : p.Ok (· ≤ ·)) (proper : range.Proper) :
    QueriesRight p p.locations range ↔ ¬ CoveredInPieces p range := by
  have nonempty := proper.start_lt_stop
  have intersects : rangesetIntersects p range = true ↔
      ∃ location ∈ p.locations, location ∈ range.locations := by
    rw [rangesetIntersects_iff ok proper]
    constructor
    · rintro ⟨entry, member, meets⟩
      obtain ⟨location, inside, shared⟩ :=
        (meets_iff_location proper (ok.proper entry member)).mp meets
      exact ⟨location, ⟨entry, member, inside⟩, shared⟩
    · rintro ⟨location, ⟨entry, member, inside⟩, shared⟩
      exact ⟨entry, member, (meets_iff_location proper (ok.proper entry member)).mpr ⟨location,
        inside, shared⟩⟩
  rw [QueriesRight, and_iff_left intersects, rangesetContains_iff ok proper, CoveredInPieces]
  constructor
  · rintro right ⟨covered, piece, pieceMember, lower, upper⟩
    obtain ⟨entry, member, starts, ends⟩ := right.mpr covered
    have pieceNonempty := (ok.proper piece pieceMember).start_lt_stop
    obtain ⟨before, after, splits⟩ := List.append_of_mem member
    have sorted : SortedDisjoint (before ++ entry :: after) := splits ▸ ok.apart
    obtain ⟨below, above⟩ := sortedDisjoint_splits sorted
    rw [splits, List.mem_append, List.mem_cons] at pieceMember
    rcases pieceMember with earlier | rfl | later
    · have order := below piece earlier
      omega
    · omega
    · have order := above piece later
      omega
  · intro whole
    constructor
    · rintro ⟨entry, member, starts, ends⟩ location ⟨lower, upper⟩
      exact ⟨entry, member, by omega, by omega⟩
    · intro covered
      obtain ⟨entry, member, starts, reaches⟩ :=
        covered (show range.start ∈ range.locations from ⟨le_rfl, nonempty⟩)
      refine ⟨entry, member, starts, ?_⟩
      by_contra short
      exact whole ⟨covered, entry, member, reaches, by omega⟩

/-- A covered range is found where no entry ends inside of it. So it always is, as long as no
insertion meets one entry while it touches another one. -/
theorem rangesetRun_queries (start : Rangeset) (empty : start.ranges = []) (ops : List RangesetOp) :
    ∃ p, rangesetRun start ops = some p ∧
      (∀ range : Range, rangeIsValid range = true → range.length ≠ 0 →
        (QueriesRight p (ops.foldl RangesetOp.locations ∅) range ↔ ¬ CoveredInPieces p range)) ∧
      (RunAllowed InsertSafe ∅ ops → ∀ range : Range, rangeIsValid range = true → range.length ≠ 0 →
        QueriesRight p (ops.foldl RangesetOp.locations ∅) range) := by
  have locations : start.locations = ∅ := by simp [Rangeset.locations, empty]
  obtain ⟨p, result, ok, covered⟩ :=
    rangesetRun_ok spacing_le (fun p range _ _ _ _ => roomAround_le p range) ops start
    (Rangeset.Ok.empty empty) (runAllowed_insertAny ops _)
  rw [locations] at covered
  rw [← covered]
  refine ⟨p, result, fun range valid nonempty => ?_, fun safe range valid nonempty => ?_⟩
  · exact queriesRight_iff ok ((range_proper_iff range).mpr ⟨nonempty, valid⟩)
  · obtain ⟨q, sameResult, apart, -⟩ :=
      rangesetRun_ok spacing_lt Rangeset.Ok.roomAround_of_safe ops start
      (Rangeset.Ok.empty empty) (locations ▸ safe)
    obtain rfl : p = q := Option.some.inj (result.symm.trans sameResult)
    refine (queriesRight_iff ok ((range_proper_iff range).mpr ⟨nonempty, valid⟩)).mpr ?_
    rintro ⟨whole, entry, member, lower, upper⟩
    obtain ⟨next, nextMember, starts, ends⟩ :=
      whole (show entry.stop ∈ range.locations from ⟨by omega, upper⟩)
    have entryNonempty := (ok.proper entry member).start_lt_stop
    rcases apart.separate member nextMember with rfl | apart | apart <;> omega

theorem rangesetRun_queries_pieces :
    ∃ p, rangesetRun (rangesetInit 0) [.insert ⟨0, 5⟩, .insert ⟨7, 2⟩, .insert ⟨5, 3⟩] = some p ∧
      (QueriesRight p ([RangesetOp.insert ⟨0, 5⟩, .insert ⟨7, 2⟩, .insert ⟨5, 3⟩].foldl
        RangesetOp.locations ∅) ⟨1, 3⟩ ↔
        ¬ CoveredInPieces p ⟨1, 3⟩) := by
  obtain ⟨p, result, right, -⟩ := rangesetRun_queries (rangesetInit 0) rfl [.insert ⟨0, 5⟩,
    .insert ⟨7, 2⟩, .insert ⟨5, 3⟩]
  exact ⟨p, result, right ⟨1, 3⟩ (by decide) (by decide)⟩

theorem rangesetRun_queries_wrong :
    ¬ ∀ (start : Rangeset) (ops : List RangesetOp), start.ranges = [] →
      ∃ p, rangesetRun start ops = some p ∧ ∀ range : Range, rangeIsValid range = true →
        range.length ≠ 0 →
        QueriesRight p (ops.foldl RangesetOp.locations ∅) range := by
  intro always
  obtain ⟨p, result, right⟩ := always (rangesetInit 0) [.insert ⟨0, 5⟩, .insert ⟨7, 2⟩,
    .insert ⟨5, 3⟩] rfl
  have reached : rangesetRun (rangesetInit 0) [.insert ⟨0, 5⟩, .insert ⟨7, 2⟩, .insert ⟨5, 3⟩] =
      some ⟨[⟨0, 5⟩, ⟨5, 4⟩], 2, false⟩ := by decide
  rw [reached, Option.some.injEq] at result
  subst result
  have answer := (right ⟨3, 4⟩ (by decide) (by decide)).1.mpr (by
    simp only [List.foldl_cons, List.foldl_nil, RangesetOp.locations, insertLocations]
    rw [if_pos (by decide), if_pos (by decide), if_pos (by decide)]
    rintro location ⟨lower, upper⟩
    simp only [Range.locations, Range.start, Range.stop, Set.mem_union, Set.mem_Ico,
      UInt64.toNat_ofNat] at lower upper ⊢
    omega)
  exact absurd answer (by decide)

end Covered

end MulleCore
