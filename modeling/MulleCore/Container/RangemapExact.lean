import MulleCore.Container.RangemapRanges

/-!
`_mulle__rangemap_get_exact`, which looks for the first location of the range only.
-/

namespace MulleCore

open Library

def rangemapGetExact (map : Rangemap) (range : Range) : UInt64 × Option RangemapStatus :=
  if map.length = 0 then (0, some .ENOENT)
  else
    match rangeIntersectsBsearch (rangemapRanges map) (rangeMake range.location 1) with
    | none => (0, some .ENOENT)
    | some curr =>
      if rangeEquals (rangemapRangeAt map curr) range = false then (0, some .EINVAL)
      else (rangemapValueAt map curr, none)

structure ExactAnswer (entries : List (Range × UInt64)) (range : Range)
    (answer : UInt64 × Option RangemapStatus) : Prop where
  stored : ∀ value, (range, value) ∈ entries → answer = (value, none)
  absent : (∀ entry ∈ entries, entry.1 ≠ range) → answer.1 = 0
  intersects : (∀ entry ∈ entries, entry.1 ≠ range) →
    (answer.2 = some .EINVAL ↔ ∃ entry ∈ entries, entry.1.Meets range)
  free : (∀ entry ∈ entries, entry.1 ≠ range) →
    (answer.2 = some .ENOENT ↔ ∀ entry ∈ entries, ¬ entry.1.Meets range)

section Exact

variable {map : Rangemap} {range : Range}

theorem rangeMake_one (proper : range.Proper) :
    (rangeMake range.location 1).Proper ∧ (rangeMake range.location 1).start = range.start ∧
      (rangeMake range.location 1).stop = range.start + 1 := by
  have nonempty := proper.start_lt_stop
  have within := proper.2
  refine ⟨⟨Nat.one_pos, ?_⟩, rfl, rfl⟩
  exact Nat.le_trans nonempty within

theorem rangeEquals_iff (entry range : Range) : rangeEquals entry range = true ↔ entry = range := by
  rw [rangeEquals, Bool.and_eq_true, beq_iff_eq, beq_iff_eq, Range.mk.injEq]

theorem rangemapGetExact_hit (ok : map.Ok) (proper : range.Proper) {entry : Range × UInt64}
    (member : entry ∈ rangemapEntries map) (starts : entry.1.start ≤ range.start)
    (reaches : range.start < entry.1.stop) :
    rangemapGetExact map range = if entry.1 = range then (entry.2, none) else (0, some .EINVAL) := by
  obtain ⟨oneProper, oneStart, oneStop⟩ := rangeMake_one proper
  obtain ⟨index, bound, rfl⟩ := List.mem_iff_getElem.mp member
  rw [rangemapEntries_length] at bound
  rw [rangemapEntries_getElem] at starts reaches ⊢
  dsimp only at starts reaches
  have count : (rangemapRanges map).length = map.length := by
    rw [rangemapRanges_eq, List.length_map, rangemapEntries_length]
  have order := ok.sorted
  have search := rangeIntersectsBsearch_outcome ok.sorted ok.proper oneProper
  rw [rangemapGetExact, if_neg (by omega)]
  cases found : rangeIntersectsBsearch (rangemapRanges map) (rangeMake range.location 1) with
  | none =>
    rw [found] at search
    refine absurd ?_ (search (rangemapRangeAt map index) ?_)
    · constructor
      · rw [oneStop]
        omega
      · rw [oneStart]
        exact reaches
    · rw [← rangemapRanges_getElem (by omega)]
      exact List.getElem_mem _
  | some curr =>
    rw [found] at search
    obtain ⟨currBound, currStarts, currReaches⟩ := search
    rw [rangemapRanges_getElem, oneStop] at currStarts
    rw [rangemapRanges_getElem, oneStart] at currReaches
    have same : curr = index := by
      rcases Nat.lt_trichotomy curr index with before | same | after
      · have apart := order.getElem before currBound (by omega)
        rw [rangemapRanges_getElem, rangemapRanges_getElem] at apart
        omega
      · exact same
      · have apart := order.getElem after (by omega) currBound
        rw [rangemapRanges_getElem, rangemapRanges_getElem] at apart
        omega
    subst same
    dsimp only
    by_cases equal : rangemapRangeAt map curr = range
    · rw [if_pos equal, if_neg]
      rw [Bool.not_eq_false, rangeEquals_iff]
      exact equal
    · rw [if_neg equal, if_pos]
      rw [← Bool.not_eq_true, rangeEquals_iff]
      exact equal

theorem rangemapGetExact_miss (ok : map.Ok) (proper : range.Proper)
    (misses : ∀ entry ∈ rangemapEntries map, ¬ (entry.1.start ≤ range.start ∧
      range.start < entry.1.stop)) :
    rangemapGetExact map range = (0, some .ENOENT) := by
  obtain ⟨oneProper, oneStart, oneStop⟩ := rangeMake_one proper
  have search := rangeIntersectsBsearch_outcome ok.sorted ok.proper oneProper
  rw [rangemapGetExact]
  split
  · rfl
  · cases found : rangeIntersectsBsearch (rangemapRanges map) (rangeMake range.location 1) with
    | none => rfl
    | some curr =>
      rw [found] at search
      obtain ⟨bound, starts, reaches⟩ := search
      have member : (rangemapRanges map)[curr] ∈ (rangemapEntries map).map Prod.fst := by
        rw [← rangemapRanges_eq]
        exact List.getElem_mem bound
      obtain ⟨entry, stored, same⟩ := List.mem_map.mp member
      rw [← same, oneStop] at starts
      rw [← same, oneStart] at reaches
      exact absurd ⟨Nat.le_of_lt_succ starts, reaches⟩ (misses entry stored)

/-- The answer is the documented one for a valid range exactly where a stored range holds its
first location, or none intersects it. -/
theorem rangemapGetExact_iff (capacity : Nat) (fresh : Nat → UInt64) (ops : List RangemapOp) :
    ∃ map statuses, rangemapRun (rangemapInit capacity fresh) ops = some (map, statuses) ∧
      ∀ range : Range, rangeIsValid range = true → range.length ≠ 0 →
        (ExactAnswer (rangemapEntries map) range (rangemapGetExact map range) ↔
          (∃ entry ∈ rangemapEntries map, entry.1.start ≤ range.start ∧ range.start < entry.1.stop) ∨
            ∀ entry ∈ rangemapEntries map, ¬ entry.1.Meets range) := by
  obtain ⟨map, statuses, result, ok, -⟩ :=
    rangemapRun_ok ops (rangemapInit capacity fresh) (rangemapInit_ok capacity fresh)
  refine ⟨map, statuses, result, ?_⟩
  intro range valid nonempty
  have proper : range.Proper := (range_proper_iff range).mpr ⟨nonempty, valid⟩
  have length := proper.start_lt_stop
  by_cases holds : ∃ entry ∈ rangemapEntries map, entry.1.start ≤ range.start ∧
    range.start < entry.1.stop
  · refine iff_of_true ?_ (Or.inl holds)
    obtain ⟨entry, member, starts, reaches⟩ := holds
    have answer := rangemapGetExact_hit ok proper member starts reaches
    have meets : entry.1.Meets range := ⟨Nat.lt_of_le_of_lt starts length, reaches⟩
    rw [answer]
    by_cases equal : entry.1 = range
    · rw [if_pos equal]
      have twice := fun absent : ∀ other ∈ rangemapEntries map, other.1 ≠
        range => absent entry member equal
      refine ⟨?_, fun absent => (twice absent).elim, fun absent => (twice absent).elim,
        fun absent => (twice absent).elim⟩
      intro value stored
      have again := rangemapGetExact_hit ok proper stored (Nat.le_refl _) length
      rw [answer, if_pos equal, if_pos rfl] at again
      exact again
    · rw [if_neg equal]
      refine ⟨?_, fun _ => rfl, ?_, ?_⟩
      · intro value stored
        have again := rangemapGetExact_hit ok proper stored (Nat.le_refl _) length
        rw [answer, if_neg equal, if_pos rfl] at again
        exact again
      · exact fun _ => iff_of_true rfl ⟨entry, member, meets⟩
      · exact fun _ => iff_of_false (by decide) fun free => free entry member meets
  · have answer := rangemapGetExact_miss ok proper fun entry member inside => holds ⟨entry,
      member, inside⟩
    have unstored : ∀ entry ∈ rangemapEntries map, entry.1 ≠ range := by
      rintro entry member rfl
      exact holds ⟨entry, member, Nat.le_refl _, length⟩
    rw [answer]
    constructor
    · intro documented
      exact Or.inr ((documented.free unstored).mp rfl)
    · rintro (held | free)
      · exact absurd held holds
      · refine ⟨?_, fun _ => rfl, ?_, fun _ => iff_of_true rfl free⟩
        · exact fun value stored => absurd rfl (unstored _ stored)
        · refine fun _ => iff_of_false (by decide) ?_
          rintro ⟨entry, member, meets⟩
          exact free entry member meets

theorem rangemapGetExact_iff_inside :
    ∃ map statuses, rangemapRun (rangemapInit 0 fun _ => 0) [.insert ⟨10, 5⟩ 7 (fun _ => 0)] =
      some (map, statuses) ∧
      ExactAnswer (rangemapEntries map) ⟨12, 9⟩ (rangemapGetExact map ⟨12, 9⟩) := by
  obtain ⟨map, statuses, result, exact⟩ :=
    rangemapGetExact_iff 0 (fun _ => 0) [.insert ⟨10, 5⟩ 7 (fun _ => 0)]
  have reached : (rangemapRun (rangemapInit 0 fun _ => 0) [.insert ⟨10, 5⟩ 7 (fun _ => 0)]).map
      (fun after => rangemapEntries after.1) = some [(⟨10, 5⟩, 7)] := by decide
  rw [result, Option.map_some, Option.some.injEq] at reached
  refine ⟨map, statuses, result, (exact ⟨12, 9⟩ (by decide) (by decide)).mpr (Or.inl ?_)⟩
  rw [reached]
  exact ⟨_, List.mem_singleton_self _, by decide⟩

/-- A range that starts in a hole is not found, though it intersects the one behind the hole. -/
theorem rangemapGetExact_hole :
    ¬ ∀ (ops : List RangemapOp) (map : Rangemap) (statuses : List RangemapStatus) (range : Range),
      rangemapRun (rangemapInit 0 fun _ => 0) ops = some (map, statuses) →
      rangeIsValid range = true → range.length ≠ 0 →
        ExactAnswer (rangemapEntries map) range (rangemapGetExact map range) := by
  intro documented
  obtain ⟨map, statuses, result, exact⟩ :=
    rangemapRun_ok [.insert ⟨10, 5⟩ 7 (fun _ => 0)] _ (rangemapInit_ok 0 fun _ => 0)
  have reached : (rangemapRun (rangemapInit 0 fun _ => 0) [.insert ⟨10, 5⟩ 7 (fun _ => 0)]).map
      (fun after => (rangemapEntries after.1, (rangemapGetExact after.1 ⟨5, 8⟩).2)) =
        some ([(⟨10, 5⟩, 7)], some .ENOENT) := by decide
  rw [result, Option.map_some, Option.some.injEq, Prod.mk.injEq] at reached
  have free := (documented _ map statuses ⟨5, 8⟩ result (by decide) (by decide)).free
  rw [reached.1, reached.2] at free
  exact absurd ((free (by decide)).mp rfl) (by decide)

end Exact

end MulleCore
