import MulleCore.Container.RangesetSearch

/-!
The search for a location finds the closest covered one.
-/

namespace MulleCore

open Library

section SearchLocation

variable {before after : List Range} {entry : Range} {curr : Nat} {op : RangesetSearchoperation}

def RangesetSearchoperation.Satisfies (op : RangesetSearchoperation) (location found : Nat) : Prop :=
  (op.equal = true ∧ found = location) ∨ (op.direction = .lessThan ∧ found < location) ∨
    (op.direction = .greaterThan ∧ location < found)

def IsClosest (covered : Set Nat) (location : Nat) (op : RangesetSearchoperation) (found : Nat) :
    Prop :=
  found ∈ covered ∧ op.Satisfies location found ∧ ∀ other ∈ covered, op.Satisfies location other →
    match op.direction with
    | .lessThan => other ≤ found
    | .greaterThan => found ≤ other
    | .none => other = found

variable {p : Rangeset} {location : UInt64}

inductive LessThanOutcome (buf : List Range) (location : Nat) : Range → Prop where
  | found {entry : Range} (member : entry ∈ buf) (starts : entry.start < location)
      (greatest : ∀ other ∈ buf, other.start < location → other.stop ≤ entry.stop) :
      LessThanOutcome buf location entry
  | none (nothing : ∀ other ∈ buf, location ≤ other.start) :
      LessThanOutcome buf location rangeMakeInvalid

inductive GreaterThanOutcome (buf : List Range) (location : Nat) : Range → Prop where
  | found {entry : Range} (member : entry ∈ buf) (ends : location + 1 < entry.stop)
      (least : ∀ other ∈ buf, location + 1 < other.stop → entry.start ≤ other.start) :
      GreaterThanOutcome buf location entry
  | none (nothing : ∀ other ∈ buf, other.stop ≤ location + 1) :
      GreaterThanOutcome buf location rangeMakeInvalid

theorem lessThan_splice {location : Nat}
    (sorted : SortedDisjoint (before ++ entry :: after))
    (proper : AllProper (before ++ entry :: after)) (starts : entry.start < location)
    (above : ∀ other ∈ after, location ≤ other.start) :
    LessThanOutcome (before ++ entry :: after) location entry := by
  refine .found (by simp) starts fun other member below => ?_
  have nonempty := (proper entry (by simp)).start_lt_stop
  rw [List.mem_append, List.mem_cons] at member
  rcases member with earlier | rfl | later
  · have order := (sortedDisjoint_splits sorted).1 other earlier
    omega
  · exact le_rfl
  · have order := above other later
    omega

theorem greaterThan_splice {location : Nat}
    (sorted : SortedDisjoint (before ++ entry :: after))
    (proper : AllProper (before ++ entry :: after)) (ends : location + 1 < entry.stop)
    (below : ∀ other ∈ before, other.stop ≤ location + 1) :
    GreaterThanOutcome (before ++ entry :: after) location entry := by
  refine .found (by simp) ends fun other member above => ?_
  have nonempty := (proper entry (by simp)).start_lt_stop
  rw [List.mem_append, List.mem_cons] at member
  rcases member with earlier | rfl | later
  · have order := below other earlier
    omega
  · exact le_rfl
  · have order := (sortedDisjoint_splits sorted).2 other later
    omega

theorem lessThan_outcome (ok : p.Ok (· ≤ ·))
    (nearest : NearestOutcome p.ranges location.toNat (some curr)) :
    LessThanOutcome p.ranges location.toNat
      (if rangeGreaterThanOrEqualToLocation (rangeAt p.ranges curr) location = true then
        if curr = 0 then rangeMakeInvalid else rangeAt p.ranges (curr - 1)
      else rangeAt p.ranges curr) := by
  have sorted : SortedDisjoint p.ranges := ok.apart
  have proper := ok.proper
  -- the entry below the one at or behind the location
  have oneDown : ∀ {before after : List Range} {entry : Range}, p.ranges = before ++ entry :: after →
      location.toNat ≤ entry.start → (∀ other ∈ before, other.stop ≤ location.toNat) →
      LessThanOutcome p.ranges location.toNat
        (if before.length = 0 then rangeMakeInvalid else rangeAt p.ranges (before.length - 1)) := by
    intro before after entry splits starts below
    have entryProper := proper entry (by simp [splits])
    have nonempty := entryProper.start_lt_stop
    rw [splits] at sorted proper ⊢
    have above := (sortedDisjoint_splits sorted).2
    rcases List.eq_nil_or_concat' before with rfl | ⟨front, last, rfl⟩
    · refine .none fun other member => ?_
      rcases List.mem_cons.mp member with rfl | later
      · exact starts
      · have order := above other later
        omega
    · have previous : rangeAt (front ++ [last] ++ entry :: after) ((front ++ [last]).length - 1) =
          last := by
        simp [rangeAt]
      have lastNonempty := (proper last (by simp)).start_lt_stop
      have ends := below last (by simp)
      rw [previous, if_neg (by simp)]
      rw [List.append_assoc] at sorted proper ⊢
      refine lessThan_splice sorted proper (by omega) fun other member => ?_
      rcases List.mem_cons.mp member with rfl | later
      · exact starts
      · have order := above other later
        omega
  cases nearest with
  | around splits starts ends =>
    rename_i before after entry
    have entryProper := proper entry (by simp [splits])
    have here : rangeAt p.ranges before.length = entry := by simp [splits]
    simp only [here, rangeGreaterThanOrEqualToLocation_iff entryProper]
    split
    · rename_i atStart
      refine oneDown splits atStart fun other member => ?_
      have order := (sortedDisjoint_splits (splits ▸ sorted)).1 other member
      omega
    · rename_i inside
      rw [splits] at sorted proper ⊢
      refine lessThan_splice sorted proper (by omega) fun other member => ?_
      have order := (sortedDisjoint_splits sorted).2 other member
      omega
  | behind splits starts below near =>
    rename_i before after entry
    have entryProper := proper entry (by simp [splits])
    have here : rangeAt p.ranges before.length = entry := by simp [splits]
    simp only [here, rangeGreaterThanOrEqualToLocation_iff entryProper]
    rw [if_pos (Nat.le_of_lt starts)]
    exact oneDown splits (Nat.le_of_lt starts) below
  | before splits ends above near =>
    rename_i before after entry
    have entryProper := proper entry (by simp [splits])
    have nonempty := entryProper.start_lt_stop
    have here : rangeAt p.ranges before.length = entry := by simp [splits]
    simp only [here, rangeGreaterThanOrEqualToLocation_iff entryProper]
    rw [if_neg (by omega)]
    rw [splits] at sorted proper ⊢
    exact lessThan_splice sorted proper (by omega) fun other member => Nat.le_of_lt
      (above other member)

theorem greaterThan_outcome (ok : p.Ok (· ≤ ·))
    (nearest : NearestOutcome p.ranges location.toNat (some curr)) :
    GreaterThanOutcome p.ranges location.toNat
      (if rangeLessThanOrEqualToLocation (rangeAt p.ranges curr) location = true then
        if curr + 1 = p.ranges.length then rangeMakeInvalid else rangeAt p.ranges (curr + 1)
      else rangeAt p.ranges curr) := by
  have sorted : SortedDisjoint p.ranges := ok.apart
  have proper := ok.proper
  -- the entry above the one at or before the location
  have oneUp : ∀ {before after : List Range} {entry : Range}, p.ranges = before ++ entry :: after →
      entry.stop ≤ location.toNat + 1 → (∀ other ∈ after, location.toNat < other.start) →
      GreaterThanOutcome p.ranges location.toNat
        (if before.length + 1 = p.ranges.length then rangeMakeInvalid
          else rangeAt p.ranges (before.length + 1)) := by
    intro before after entry splits ends above
    have entryProper := proper entry (by simp [splits])
    have nonempty := entryProper.start_lt_stop
    rw [splits] at sorted proper ⊢
    have below : ∀ other ∈ before, other.stop ≤ location.toNat + 1 := fun other member => by
      have order := (sortedDisjoint_splits sorted).1 other member
      omega
    cases after with
    | nil =>
      rw [if_pos (by simp)]
      refine .none fun other member => ?_
      rw [List.mem_append, List.mem_singleton] at member
      rcases member with earlier | rfl
      · exact below other earlier
      · exact ends
    | cons next rest =>
      have nextNonempty := (proper next (by simp)).start_lt_stop
      have starts := above next List.mem_cons_self
      rw [if_neg (by simp), rangeAt_splice_succ]
      rw [List.append_cons] at sorted proper ⊢
      refine greaterThan_splice sorted proper (by omega) fun other member => ?_
      rw [List.mem_append, List.mem_singleton] at member
      rcases member with earlier | rfl
      · exact below other earlier
      · exact ends
  cases nearest with
  | around splits starts ends =>
    rename_i before after entry
    have entryProper := proper entry (by simp [splits])
    have here : rangeAt p.ranges before.length = entry := by simp [splits]
    simp only [here, rangeLessThanOrEqualToLocation_iff entryProper]
    split
    · rename_i atEnd
      refine oneUp splits atEnd fun other member => ?_
      have order := (sortedDisjoint_splits (splits ▸ sorted)).2 other member
      omega
    · rename_i inside
      rw [splits] at sorted proper ⊢
      refine greaterThan_splice sorted proper (by omega) fun other member => ?_
      have order := (sortedDisjoint_splits sorted).1 other member
      omega
  | behind splits starts below near =>
    rename_i before after entry
    have entryProper := proper entry (by simp [splits])
    have nonempty := entryProper.start_lt_stop
    have here : rangeAt p.ranges before.length = entry := by simp [splits]
    simp only [here, rangeLessThanOrEqualToLocation_iff entryProper]
    rw [if_neg (by omega)]
    rw [splits] at sorted proper ⊢
    exact greaterThan_splice sorted proper (by omega) fun other member => Nat.le_succ_of_le
      (below other member)
  | before splits ends above near =>
    rename_i before after entry
    have entryProper := proper entry (by simp [splits])
    have here : rangeAt p.ranges before.length = entry := by simp [splits]
    simp only [here, rangeLessThanOrEqualToLocation_iff entryProper]
    rw [if_pos (by omega)]
    exact oneUp splits (by omega) above

theorem rangeMakeInvalid_invalid : rangeIsValid rangeMakeInvalid = false := by decide

/-- If any entry contains the location, the nearest one does. -/
theorem nearest_contains_iff (ok : p.Ok (· ≤ ·))
    (nearest : NearestOutcome p.ranges location.toNat (some curr)) :
    rangeContainsLocation (rangeAt p.ranges curr) location = true ↔ location.toNat ∈ p.locations := by
  have sorted : SortedDisjoint p.ranges := ok.apart
  cases nearest with
  | around splits starts ends =>
    rename_i before after entry
    have here : rangeAt p.ranges before.length = entry := by simp [splits]
    have member : entry ∈ p.ranges := by simp [splits]
    rw [here, rangeContainsLocation_iff (ok.proper entry member)]
    exact ⟨fun inside => ⟨entry, member, inside⟩, fun _ => ⟨starts, ends⟩⟩
  | behind splits starts below near =>
    rename_i before after entry
    have here : rangeAt p.ranges before.length = entry := by simp [splits]
    have entryProper := ok.proper entry (by simp [splits])
    rw [here, rangeContainsLocation_iff entryProper]
    constructor
    · intro inside
      omega
    · rintro ⟨other, member, inside⟩
      rw [splits, List.mem_append, List.mem_cons] at member
      rcases member with earlier | rfl | later
      · have order := below other earlier
        omega
      · exact inside
      · have order := (sortedDisjoint_splits (splits ▸ sorted)).2 other later
        have nonempty := entryProper.start_lt_stop
        omega
  | before splits ends above near =>
    rename_i before after entry
    have here : rangeAt p.ranges before.length = entry := by simp [splits]
    have entryProper := ok.proper entry (by simp [splits])
    rw [here, rangeContainsLocation_iff entryProper]
    constructor
    · intro inside
      omega
    · rintro ⟨other, member, inside⟩
      rw [splits, List.mem_append, List.mem_cons] at member
      rcases member with earlier | rfl | later
      · have order := (sortedDisjoint_splits (splits ▸ sorted)).1 other earlier
        have nonempty := entryProper.start_lt_stop
        omega
      · exact inside
      · have order := above other later
        omega

def DirectionOutcome (buf : List Range) (location : Nat) (direction : RangesetDirection)
    (range : Range) : Prop :=
  match direction with
  | .lessThan => LessThanOutcome buf location range
  | .greaterThan => GreaterThanOutcome buf location range
  | .none => range = rangeMakeInvalid

theorem rangesetSearchRange_outcome (ok : p.Ok (· ≤ ·)) (inside : location ≤ rangeLocationMax)
    (op : RangesetSearchoperation) :
    (op.equal = true ∧ rangesetSearchRange p location op ∈ p.ranges ∧
        rangeContainsLocation (rangesetSearchRange p location op) location = true) ∨
      (¬ (op.equal = true ∧ location.toNat ∈ p.locations) ∧
        DirectionOutcome p.ranges location.toNat op.direction
          (rangesetSearchRange p location op)) := by
  have nearest := rangesetSearchNearestP_outcome ok inside
  rw [rangesetSearchRange]
  cases found : rangesetSearchNearestP p location with
  | none =>
    rw [found] at nearest
    cases nearest with
    | empty nothing =>
      refine Or.inr ⟨?_, ?_⟩
      · simp [Rangeset.locations, nothing]
      · rw [nothing]
        unfold DirectionOutcome
        cases op.direction with
        | none => rfl
        | lessThan => exact .none fun other member => absurd member List.not_mem_nil
        | greaterThan => exact .none fun other member => absurd member List.not_mem_nil
  | some curr =>
    rw [found] at nearest
    have contains := nearest_contains_iff ok nearest
    dsimp only
    split
    · rename_i here
      refine Or.inl ⟨here.1, ?_, here.2⟩
      cases nearest with
      | around splits => simp [splits]
      | behind splits => simp [splits]
      | before splits => simp [splits]
    · rename_i elsewhere
      rw [contains] at elsewhere
      refine Or.inr ⟨elsewhere, ?_⟩
      unfold DirectionOutcome
      cases op.direction with
      | none => rfl
      | lessThan =>
        dsimp only
        split
        · rename_i zero
          refine .none fun other member => ?_
          rw [zero]
          exact Nat.zero_le _
        · exact lessThan_outcome ok nearest
      | greaterThan =>
        dsimp only
        split
        · exact greaterThan_outcome ok nearest
        · rename_i atMax
          rw [UInt64.lt_iff_toNat_lt, rangeLocationMax_toNat] at atMax
          refine .none fun other member => ?_
          have bound := (ok.proper other member).2
          rw [notFound_toNat] at bound
          omega

theorem lessThan_closest (ok : p.Ok (· ≤ ·)) (direction : op.direction = .lessThan)
    (elsewhere : ¬ (op.equal = true ∧ location.toNat ∈ p.locations)) (member : entry ∈ p.ranges)
    (starts : entry.start < location.toNat)
    (greatest : ∀ other ∈ p.ranges, other.start < location.toNat → other.stop ≤ entry.stop) :
    IsClosest p.locations location.toNat op
      (if rangeContainsLocation entry (location - 1) = true then location - 1
        else rangeGetLastLocation entry).toNat := by
  have proper := ok.proper entry member
  have nonempty := proper.start_lt_stop
  have positive : 1 ≤ location := UInt64.le_iff_toNat_le.mpr (by change 1 ≤ _; omega)
  have previous : (location - 1).toNat = location.toNat - 1 := UInt64.toNat_sub_of_le _ _ positive
  have below : ∀ other ∈ p.locations, op.Satisfies location.toNat other → other < location.toNat := by
    rintro other covered (⟨equal, same⟩ | ⟨_, less⟩ | ⟨greater, _⟩)
    · exact absurd ⟨equal, same ▸ covered⟩ elsewhere
    · exact less
    · rw [direction] at greater
      cases greater
  have here : ∀ found, entry.start ≤ found → found < entry.stop → found < location.toNat →
      (∀ other ∈ p.locations, op.Satisfies location.toNat other → other ≤ found) →
      IsClosest p.locations location.toNat op found := by
    intro found lower upper less closest
    refine ⟨⟨entry, member, lower, upper⟩, Or.inr (Or.inl ⟨direction, less⟩),
      fun other covered allowed => ?_⟩
    rw [direction]
    exact closest other covered allowed
  split
  · rename_i inside
    rw [rangeContainsLocation_iff proper, previous] at inside
    rw [previous]
    refine here _ inside.1 inside.2 (by omega) fun other covered allowed => ?_
    have less := below other covered allowed
    omega
  · rename_i outside
    rw [rangeContainsLocation_iff proper, previous] at outside
    rw [proper.lastLocation_toNat]
    refine here _ (by omega) (by omega) (by omega) fun other covered allowed => ?_
    have less := below other covered allowed
    obtain ⟨holder, holderMember, lower, upper⟩ := covered
    have order := greatest holder holderMember (by omega)
    omega

theorem greaterThan_closest (ok : p.Ok (· ≤ ·)) (direction : op.direction = .greaterThan)
    (elsewhere : ¬ (op.equal = true ∧ location.toNat ∈ p.locations)) (member : entry ∈ p.ranges)
    (ends : location.toNat + 1 < entry.stop)
    (least : ∀ other ∈ p.ranges, location.toNat + 1 < other.stop → entry.start ≤ other.start) :
    IsClosest p.locations location.toNat op
      (if rangeContainsLocation entry (location + 1) = true then location + 1
        else entry.location).toNat := by
  have proper := ok.proper entry member
  have nonempty := proper.start_lt_stop
  have bound := proper.2
  rw [notFound_toNat] at bound
  have next : (location + 1).toNat = location.toNat + 1 := by
    rw [UInt64.toNat_add, Nat.mod_eq_of_lt]
    · rfl
    · change _ + 1 < _
      omega
  have above : ∀ other ∈ p.locations, op.Satisfies location.toNat other → location.toNat < other := by
    rintro other covered (⟨equal, same⟩ | ⟨less, _⟩ | ⟨_, greater⟩)
    · exact absurd ⟨equal, same ▸ covered⟩ elsewhere
    · rw [direction] at less
      cases less
    · exact greater
  have here : ∀ found, entry.start ≤ found → found < entry.stop → location.toNat < found →
      (∀ other ∈ p.locations, op.Satisfies location.toNat other → found ≤ other) →
      IsClosest p.locations location.toNat op found := by
    intro found lower upper greater closest
    refine ⟨⟨entry, member, lower, upper⟩, Or.inr (Or.inr ⟨direction, greater⟩),
      fun other covered allowed => ?_⟩
    rw [direction]
    exact closest other covered allowed
  split
  · rename_i inside
    rw [rangeContainsLocation_iff proper, next] at inside
    rw [next]
    exact here _ inside.1 inside.2 (by omega) fun other covered allowed => above other covered allowed
  · rename_i outside
    rw [rangeContainsLocation_iff proper, next] at outside
    change IsClosest p.locations location.toNat op entry.start
    refine here _ le_rfl nonempty (by omega) fun other covered allowed => ?_
    have greater := above other covered allowed
    obtain ⟨holder, holderMember, lower, upper⟩ := covered
    have order := least holder holderMember (by omega)
    omega

/-- The search ends at the closest covered location that the operation allows, or nowhere if it
allows none. -/
theorem rangesetSearchLocation_closest (p : Rangeset) (proper : AllProper p.ranges)
    (disjoint : SortedDisjoint p.ranges) (location : UInt64) (inside : location ≤ rangeLocationMax)
    (op : RangesetSearchoperation) :
    (rangesetSearchLocation p location op = notFound ↔
      ∀ found ∈ p.locations, ¬ op.Satisfies location.toNat found) ∧
    (rangesetSearchLocation p location op ≠ notFound →
      IsClosest p.locations location.toNat op (rangesetSearchLocation p location op).toNat) := by
  have ok : p.Ok (· ≤ ·) := ⟨proper, disjoint⟩
  have result : IsClosest p.locations location.toNat op (rangesetSearchLocation p location op).toNat ∨
      (rangesetSearchLocation p location op = notFound ∧ ∀ found ∈ p.locations,
        ¬ op.Satisfies location.toNat found) := by
    have outcome := rangesetSearchRange_outcome ok inside op
    rw [rangesetSearchLocation]
    generalize rangesetSearchRange p location op = range at outcome ⊢
    rcases outcome with ⟨equal, member, contains⟩ | ⟨elsewhere, outcome⟩
    · have rangeProper := proper range member
      rw [if_neg (by simp [((range_proper_iff range).mp rangeProper).2]), if_pos ⟨equal, contains⟩]
      rw [rangeContainsLocation_iff rangeProper] at contains
      refine Or.inl ⟨⟨range, member, contains⟩, Or.inl ⟨equal, rfl⟩, fun other covered allowed => ?_⟩
      rw [RangesetSearchoperation.Satisfies] at allowed
      cases direction : op.direction with
      | none =>
        rw [direction] at allowed
        simp only [reduceCtorEq, false_and, or_false] at allowed
        exact allowed.2
      | lessThan =>
        rw [direction] at allowed
        simp only [reduceCtorEq, false_and, or_false, true_and] at allowed
        dsimp only
        omega
      | greaterThan =>
        rw [direction] at allowed
        simp only [reduceCtorEq, false_and, false_or, true_and] at allowed
        dsimp only
        omega
    · have notHere : range ∈ p.ranges →
          ¬ (op.equal = true ∧ rangeContainsLocation range location = true) := by
        rintro member ⟨equal, contains⟩
        rw [rangeContainsLocation_iff (proper range member)] at contains
        exact elsewhere ⟨equal, range, member, contains⟩
      have absent : ∀ {found}, found ∈ p.locations → op.Satisfies location.toNat found →
          op.direction = .lessThan ∧ found < location.toNat ∨ op.direction = .greaterThan ∧
          location.toNat < found := by
        rintro found covered (⟨equal, same⟩ | rest)
        · exact absurd ⟨equal, same ▸ covered⟩ elsewhere
        · exact rest
      unfold DirectionOutcome at outcome
      cases direction : op.direction with
      | none =>
        rw [direction] at outcome
        dsimp only at outcome
        rw [outcome, if_pos rangeMakeInvalid_invalid]
        refine Or.inr ⟨rfl, fun found covered allowed => ?_⟩
        rcases absent covered allowed with ⟨less, _⟩ | ⟨greater, _⟩
        · simp [direction] at less
        · simp [direction] at greater
      | lessThan =>
        rw [direction] at outcome
        cases outcome with
        | found member starts greatest =>
          have rangeProper := proper range member
          have nonzero : location ≠ 0 := by
            rintro rfl
            exact absurd starts (Nat.not_lt_zero _)
          rw [if_neg (by simp [((range_proper_iff range).mp rangeProper).2]), if_neg (notHere member)]
          dsimp only
          rw [if_neg nonzero]
          exact Or.inl (lessThan_closest ok direction elsewhere member starts greatest)
        | none nothing =>
          rw [if_pos rangeMakeInvalid_invalid]
          refine Or.inr ⟨rfl, fun found covered allowed => ?_⟩
          rcases absent covered allowed with ⟨_, less⟩ | ⟨greater, _⟩
          · obtain ⟨entry, member, lower, _⟩ := covered
            have order := nothing entry member
            omega
          · simp [direction] at greater
      | greaterThan =>
        rw [direction] at outcome
        cases outcome with
        | found member ends least =>
          have rangeProper := proper range member
          have bound := rangeProper.2
          rw [notFound_toNat] at bound
          have below : location < rangeLocationMax := by
            rw [UInt64.lt_iff_toNat_lt, rangeLocationMax_toNat]
            omega
          rw [if_neg (by simp [((range_proper_iff range).mp rangeProper).2]), if_neg (notHere member)]
          dsimp only
          rw [if_pos below]
          exact Or.inl (greaterThan_closest ok direction elsewhere member ends least)
        | none nothing =>
          rw [if_pos rangeMakeInvalid_invalid]
          refine Or.inr ⟨rfl, fun found covered allowed => ?_⟩
          rcases absent covered allowed with ⟨less, _⟩ | ⟨_, greater⟩
          · simp [direction] at less
          · obtain ⟨entry, member, _, upper⟩ := covered
            have order := nothing entry member
            omega
  rcases result with closest | ⟨missing, none⟩
  · have found : rangesetSearchLocation p location op ≠ notFound := by
      intro missing
      obtain ⟨⟨entry, member, _, upper⟩, _⟩ := closest
      have bound := (proper entry member).2
      rw [missing] at upper
      omega
    exact ⟨⟨fun missing => absurd missing found, fun none => absurd closest.2.1 (none _ closest.1)⟩,
      fun _ => closest⟩
  · exact ⟨⟨fun _ => none, fun _ => missing⟩, fun found => absurd missing found⟩

theorem rangesetSearchLocation_closest_adjacent :
    IsClosest (Rangeset.locations ⟨[⟨0, 5⟩, ⟨5, 4⟩], 2, false⟩) 5 ⟨false, .lessThan⟩ 4 :=
  (rangesetSearchLocation_closest ⟨[⟨0, 5⟩, ⟨5, 4⟩], 2, false⟩ (by decide)
    (by simp [SortedDisjoint, Apart, Range.start, Range.stop]) 5 (by decide) ⟨false, .lessThan⟩).2
      (by decide)

end SearchLocation

end MulleCore
