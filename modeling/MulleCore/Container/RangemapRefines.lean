import Mathlib.Data.Finset.Card
import MulleCore.Library.Splice
import MulleCore.Container.Rangemap

/-!
A rangemap is a finite set of pairs of a range and its value.
-/

namespace MulleCore

open Library

variable {map : Rangemap} {index : Nat} {range : Range}

def rangemapEntries (map : Rangemap) : List (Range × UInt64) :=
  table map.length fun index => (rangemapRangeAt map index, rangemapValueAt map index)

def rangemapPairs (map : Rangemap) : Finset (Range × UInt64) :=
  (rangemapEntries map).toFinset

def pairsInsert (pairs : Finset (Range × UInt64)) (range : Range) (value : UInt64) :
    Finset (Range × UInt64) × RangemapStatus :=
  if range.length = 0 ∨ rangeIsValid range = false then (pairs, .EINVAL)
  else if ∃ pair ∈ pairs, pair.1.Meets range then (pairs, .EADDRINUSE)
  else (insert (range, value) pairs, .success)

def pairsRemove (pairs : Finset (Range × UInt64)) (range : Range) :
    Finset (Range × UInt64) × RangemapStatus :=
  if range.length = 0 ∨ rangeIsValid range = false then (pairs, .EINVAL)
  else if ¬∃ pair ∈ pairs, pair.1.Meets range then (pairs, .ENOENT)
  else if ¬∃ pair ∈ pairs, pair.1 = range then (pairs, .EACCES)
  else (pairs.filter fun pair => pair.1 ≠ range, .success)

def RangemapOp.pairs (pairs : Finset (Range × UInt64)) :
    RangemapOp → Finset (Range × UInt64) × RangemapStatus
  | .insert range value _ => pairsInsert pairs range value
  | .remove range => pairsRemove pairs range
  | .reset => (∅, .success)

def pairsRun (pairs : Finset (Range × UInt64)) :
    List RangemapOp → Finset (Range × UInt64) × List RangemapStatus
  | [] => (pairs, [])
  | op :: rest =>
    let (next, status) := op.pairs pairs
    let (final, statuses) := pairsRun next rest
    (final, status :: statuses)

structure Rangemap.Fits (map : Rangemap) : Prop where
  block : map.storage.length = 3 * map.size
  room : map.length ≤ map.size

structure Rangemap.Ok (map : Rangemap) : Prop extends map.Fits where
  proper : AllProper (rangemapRanges map)
  sorted : SortedDisjoint (rangemapRanges map)

theorem rangemapRanges_eq (map : Rangemap) :
    rangemapRanges map = (rangemapEntries map).map Prod.fst := by
  simp [rangemapRanges, rangemapEntries, table]

@[simp] theorem rangemapEntries_length (map : Rangemap) :
    (rangemapEntries map).length = map.length := by
  simp [rangemapEntries]

theorem rangemapGrow_some (fits : map.Fits) (fresh : Nat → UInt64) :
    ∃ grown, rangemapGrow map fresh = some grown ∧ grown.Fits ∧ grown.length < grown.size ∧
      rangemapEntries grown = rangemapEntries map := by
  have block := fits.block
  have room := fits.room
  rw [rangemapGrow]
  generalize newSizeEq : (if map.size * 2 = 0 then 2 else map.size * 2) = newSize
  have larger : map.size < newSize := by
    rw [← newSizeEq]
    split <;> omega
  have double : 2 * map.size ≤ newSize := by
    rw [← newSizeEq]
    split <;> omega
  have resizedLength := blockResize_length map.storage (3 * newSize) fresh
  obtain ⟨moved, movedEq, movedLength, words⟩ := blockMove_some
    (show 2 * newSize + map.length ≤ (blockResize map.storage (3 * newSize) fresh).length by omega)
    (show 2 * map.size + map.length ≤ (blockResize map.storage (3 * newSize) fresh).length by omega)
  refine ⟨_, by rw [movedEq], ⟨?_, ?_⟩, ?_, ?_⟩
  · dsimp only
    rw [movedLength, resizedLength]
  · dsimp only
    omega
  · dsimp only
    omega
  · refine table_congr fun index bound => ?_
    change index < map.length at bound
    have kept : ∀ word, word < 3 * map.size →
        (blockResize map.storage (3 * newSize) fresh)[word]? = map.storage[word]? :=
      fun word inside => blockResize_getElem? map.storage fresh (by omega) (by omega)
    simp only [rangemapRangeAt, rangemapValueAt, rangemapWord]
    rw [words, words, words, if_neg (by omega), if_neg (by omega), if_pos (by omega),
      kept _ (by omega), kept _ (by omega), kept _ (by omega),
      show 2 * map.size + (2 * newSize + index - 2 * newSize) = 2 * map.size + index by omega]

theorem rangemapPut_some (fits : map.Fits) (spare : map.length < map.size)
    (inside : index ≤ map.length) (range : Range) (value : UInt64) :
    ∃ put, rangemapPut map index range value = some put ∧ put.Fits ∧
      rangemapEntries put = (rangemapEntries map).insertIdx index (range, value) := by
  have block := fits.block
  obtain ⟨ranges, rangesEq, rangesLength, rangesWords⟩ := blockMove_some
    (show 2 * (index + 1) + 2 * (map.length - index) ≤ map.storage.length by omega)
    (show 2 * index + 2 * (map.length - index) ≤ map.storage.length by omega)
  obtain ⟨values, valuesEq, valuesLength, valuesWords⟩ := blockMove_some
    (show 2 * map.size + (index + 1) + (map.length - index) ≤ ranges.length by omega)
    (show 2 * map.size + index + (map.length - index) ≤ ranges.length by omega)
  obtain ⟨first, firstEq, firstLength, firstWords⟩ :=
    blockWrite_some (show 2 * index < values.length by omega) range.location
  obtain ⟨second, secondEq, secondLength, secondWords⟩ :=
    blockWrite_some (show 2 * index + 1 < first.length by omega) range.length
  obtain ⟨third, thirdEq, thirdLength, thirdWords⟩ :=
    blockWrite_some (show 2 * map.size + index < second.length by omega) value
  refine ⟨{ map with storage := third, length := map.length + 1 }, ?_, ⟨?_, spare⟩, ?_⟩
  · simp only [rangemapPut, rangesEq, valuesEq, firstEq, secondEq, thirdEq, Option.bind_eq_bind,
      Option.bind_some]
  · dsimp only
    omega
  · refine table_insertIdx (range, value) inside ?_ ?_ ?_
    · intro other below
      simp only [rangemapRangeAt, rangemapValueAt, rangemapWord, thirdWords, secondWords,
        firstWords, valuesWords, rangesWords]
      simp (disch := omega) only [if_neg]
    · simp only [rangemapRangeAt, rangemapValueAt, rangemapWord, thirdWords, secondWords,
        firstWords]
      simp (disch := omega) only [if_neg, if_true, Option.getD_some]
    · intro other above bound
      simp only [rangemapRangeAt, rangemapValueAt, rangemapWord, thirdWords, secondWords,
        firstWords, valuesWords, rangesWords]
      simp (disch := omega) only [if_neg, if_pos]
      rw [show 2 * index + (2 * (other + 1) - 2 * (index + 1)) = 2 * other by omega,
        show 2 * index + (2 * (other + 1) + 1 - 2 * (index + 1)) = 2 * other + 1 by omega,
        show 2 * map.size + index + (2 * map.size + (other + 1) - (2 * map.size + (index + 1))) =
          2 * map.size + other by omega]

theorem rangemapTake_some (fits : map.Fits) (inside : index < map.length) :
    ∃ taken, rangemapTake map index = some taken ∧ taken.Fits ∧
      rangemapEntries taken = (rangemapEntries map).eraseIdx index := by
  have block := fits.block
  have room := fits.room
  obtain ⟨count, countEq⟩ : ∃ count, map.length = count + 1 := ⟨map.length - 1, by omega⟩
  by_cases last : map.length - 1 ≠ 0
  · obtain ⟨ranges, rangesEq, rangesLength, rangesWords⟩ := blockMove_some
      (show 2 * index + 2 * (map.length - 1 - index) ≤ map.storage.length by omega)
      (show 2 * (index + 1) + 2 * (map.length - 1 - index) ≤ map.storage.length by omega)
    obtain ⟨values, valuesEq, valuesLength, valuesWords⟩ := blockMove_some
      (show 2 * map.size + index + (map.length - 1 - index) ≤ ranges.length by omega)
      (show 2 * map.size + (index + 1) + (map.length - 1 - index) ≤ ranges.length by omega)
    refine ⟨{ map with storage := values, length := map.length - 1 }, ?_, ⟨?_, ?_⟩, ?_⟩
    · simp only [rangemapTake, if_pos last, rangesEq, valuesEq, Option.bind_eq_bind,
        Option.bind_some]
    · dsimp only
      omega
    · dsimp only
      omega
    · rw [rangemapEntries, rangemapEntries, countEq, Nat.add_sub_cancel]
      dsimp only
      rw [countEq] at inside
      refine table_eraseIdx inside ?_ ?_
      · intro other below
        simp only [rangemapRangeAt, rangemapValueAt, rangemapWord, valuesWords, rangesWords]
        simp (disch := omega) only [if_neg]
      · intro other above bound
        simp only [rangemapRangeAt, rangemapValueAt, rangemapWord, valuesWords, rangesWords]
        simp (disch := omega) only [if_neg, if_pos]
        rw [show 2 * (index + 1) + (2 * other - 2 * index) = 2 * (other + 1) by omega,
          show 2 * (index + 1) + (2 * other + 1 - 2 * index) = 2 * (other + 1) + 1 by omega,
          show 2 * map.size + (index + 1) + (2 * map.size + other - (2 * map.size + index)) =
            2 * map.size + (other + 1) by omega]
  · refine ⟨{ map with length := map.length - 1 }, ?_, ⟨block, by dsimp only; omega⟩, ?_⟩
    · simp only [rangemapTake, if_neg last]
    · rw [rangemapEntries, rangemapEntries, countEq, Nat.add_sub_cancel]
      dsimp only
      rw [countEq] at inside
      refine table_eraseIdx inside (fun other below => rfl) ?_
      intro other above bound
      omega

theorem rangemapPairs_meet (map : Rangemap) (range : Range) :
    (∃ pair ∈ rangemapPairs map, pair.1.Meets range) ↔
      ∃ entry ∈ rangemapRanges map, entry.Meets range := by
  simp [rangemapPairs, rangemapRanges_eq]

theorem checks_not_proper (range : Range) :
    range.length = 0 ∨ rangeIsValid range = false ↔ ¬range.Proper := by
  rw [range_proper_iff, not_and_or, not_not, Bool.not_eq_true]

theorem Rangemap.Ok.pairs_card (ok : map.Ok) :
    (rangemapPairs map).card = map.length := by
  have distinct : (rangemapRanges map).Nodup := by
    refine List.Pairwise.imp_of_mem ?_ ok.sorted
    intro left right leftMember _ apart same
    have nonempty := (ok.proper left leftMember).start_lt_stop
    rw [← same] at apart
    omega
  rw [rangemapRanges_eq] at distinct
  rw [rangemapPairs, List.toFinset_card_of_nodup (List.Nodup.of_map _ distinct),
    rangemapEntries_length]

theorem Rangemap.Ok.of_insertIdx {put : Rangemap} {value : UInt64}
    (ok : map.Ok) (fits : put.Fits) (rangeProper : range.Proper)
    (misses : ∀ other ∈ rangemapRanges map, ¬other.Meets range)
    (entries : rangemapEntries put = (rangemapEntries map).insertIdx
      (rangeHoleBsearch (rangemapRanges map) range.location) (range, value)) :
    put.Ok ∧ rangemapPairs put = insert (range, value) (rangemapPairs map) := by
  obtain ⟨before, after, split, place, earlier, later⟩ :=
    rangeHoleBsearch_splits ok.sorted ok.proper rangeProper misses
  have ranges : rangemapRanges put = before ++ range :: after := by
    rw [rangemapRanges_eq, entries, List.map_insertIdx, ← rangemapRanges_eq, ← place, split]
    exact insertIdx_splice before after range
  have proper := ok.proper
  have sorted := ok.sorted
  rw [split] at proper sorted
  refine ⟨⟨fits, ?_, ?_⟩, ?_⟩
  · rw [ranges]
    intro other member
    rcases List.mem_append.mp member with inBefore | inRest
    · exact proper other (List.mem_append_left after inBefore)
    · rcases List.mem_cons.mp inRest with rfl | inAfter
      · exact rangeProper
      · exact proper other (List.mem_append_right before inAfter)
  · rw [ranges]
    have whole : Ordered Range.start Range.stop (before ++ [] ++ after) := by
      rwa [List.append_nil]
    apply whole.replace_hull ⟨le_rfl, by simp, Or.inl rfl, le_rfl, by simp, Or.inl rfl⟩
    · exact earlier
    · exact later
  · have inside : rangeHoleBsearch (rangemapRanges map) range.location ≤
        (rangemapEntries map).length := by
      rw [← place, rangemapEntries_length, ← table_length map.length (rangemapRangeAt map)]
      change _ ≤ (rangemapRanges map).length
      rw [split, List.length_append]
      omega
    ext pair
    rw [rangemapPairs, rangemapPairs, entries, List.mem_toFinset, List.mem_insertIdx inside,
      Finset.mem_insert, List.mem_toFinset]

/-- An insertion does to the map what it does to the pairs, and a refused one does nothing. -/
theorem rangemapInsert_refines (ok : map.Ok) (range : Range) (value : UInt64)
    (fresh : Nat → UInt64) :
    ∃ next status, rangemapInsert map range value fresh = some (next, status) ∧ next.Ok ∧
      (rangemapPairs next, status) = pairsInsert (rangemapPairs map) range value ∧
      (status ≠ .success → next = map) := by
  rw [rangemapInsert, pairsInsert]
  by_cases rejected : range.length = 0 ∨ rangeIsValid range = false
  · rw [if_pos rejected, if_pos rejected]
    exact ⟨map, .EINVAL, rfl, ok, rfl, fun _ => rfl⟩
  · rw [if_neg rejected, if_neg rejected]
    have proper : range.Proper := by
      rwa [checks_not_proper, not_not] at rejected
    have search := rangeIntersectsBsearch_outcome ok.sorted ok.proper proper
    cases found : rangeIntersectsBsearch (rangemapRanges map) range with
    | some index =>
      rw [found] at search
      obtain ⟨bound, meets⟩ := search
      rw [if_pos ((rangemapPairs_meet map range).mpr ⟨_, List.getElem_mem bound, meets⟩)]
      exact ⟨map, .EADDRINUSE, rfl, ok, rfl, fun _ => rfl⟩
    | none =>
      rw [found] at search
      have free : ¬∃ pair ∈ rangemapPairs map, pair.1.Meets range := by
        rw [rangemapPairs_meet]
        rintro ⟨entry, member, meets⟩
        exact search entry member meets
      rw [if_neg free]
      obtain ⟨roomy, roomyEq, roomyFits, spare, sameEntries⟩ : ∃ roomy : Rangemap,
          rangemapMakeRoom map fresh = some roomy ∧ roomy.Fits ∧ roomy.length < roomy.size ∧
            rangemapEntries roomy = rangemapEntries map := by
        rw [rangemapMakeRoom]
        by_cases full : map.length ≥ map.size
        · rw [if_pos full]
          exact rangemapGrow_some ok.toFits fresh
        · rw [if_neg full]
          exact ⟨map, rfl, ok.toFits, by omega, rfl⟩
      have sameRanges : rangemapRanges roomy = rangemapRanges map := by
        rw [rangemapRanges_eq, rangemapRanges_eq, sameEntries]
      have sameLength : roomy.length = map.length := by
        rw [← rangemapEntries_length, sameEntries, rangemapEntries_length]
      obtain ⟨before, after, split, place, -, -⟩ :=
        rangeHoleBsearch_splits ok.sorted ok.proper proper search
      have within : rangeHoleBsearch (rangemapRanges map) range.location ≤ roomy.length := by
        rw [← place, sameLength, ← table_length map.length (rangemapRangeAt map)]
        change _ ≤ (rangemapRanges map).length
        rw [split, List.length_append]
        omega
      obtain ⟨put, putEq, putFits, putEntries⟩ :=
        rangemapPut_some roomyFits spare within range value
      rw [sameEntries] at putEntries
      obtain ⟨putOk, putPairs⟩ := ok.of_insertIdx putFits proper search putEntries
      refine ⟨put, .success, ?_, putOk, by rw [putPairs], fun failed => absurd rfl failed⟩
      simp only [roomyEq, sameRanges, putEq, Option.bind_eq_bind, Option.bind_some]

theorem eq_of_meets {buf : List Range} (sorted : SortedDisjoint buf) {entry : Range}
    (member : entry ∈ buf) (stored : range ∈ buf) (meets : entry.Meets range) : entry = range := by
  obtain ⟨first, firstBound, rfl⟩ := List.mem_iff_getElem.mp member
  obtain ⟨second, secondBound, rfl⟩ := List.mem_iff_getElem.mp stored
  obtain ⟨starts, reaches⟩ := meets
  rcases lt_trichotomy first second with before | rfl | after
  · have apart := sorted.getElem before firstBound secondBound
    omega
  · rfl
  · have apart := sorted.getElem after secondBound firstBound
    omega

theorem Rangemap.Ok.of_eraseIdx {taken : Rangemap} (ok : map.Ok)
    (fits : taken.Fits) (inside : index < map.length)
    (entries : rangemapEntries taken = (rangemapEntries map).eraseIdx index) :
    taken.Ok ∧ rangemapPairs taken =
      (rangemapPairs map).filter fun pair => pair.1 ≠ rangemapRangeAt map index := by
  have bound : index < (rangemapEntries map).length := by rwa [rangemapEntries_length]
  obtain ⟨before, after, split, place⟩ := exists_splice bound
  have entryRange : (rangemapEntries map)[index].1 = rangemapRangeAt map index := by
    simp [rangemapEntries]
  generalize (rangemapEntries map)[index] = entry at split entryRange
  have takenEntries : rangemapEntries taken = before ++ after := by
    rw [entries, split, ← place]
    exact eraseIdx_splice before after _
  have sorted := ok.sorted
  have proper := ok.proper
  rw [rangemapRanges_eq, split, List.map_append, List.map_cons, entryRange] at sorted proper
  have takenRanges : rangemapRanges taken = before.map Prod.fst ++ after.map Prod.fst := by
    rw [rangemapRanges_eq, takenEntries, List.map_append]
  refine ⟨⟨fits, ?_, ?_⟩, ?_⟩
  · rw [takenRanges]
    rw [allProper_append] at proper ⊢
    exact ⟨proper.1, proper.2.tail⟩
  · rw [takenRanges]
    exact sorted.remove
  · have nonempty := (allProper_append.mp proper).2.head.start_lt_stop
    have others : ∀ pair ∈ before ++ after, pair.1 ≠ rangemapRangeAt map index := by
      intro pair member same
      rcases List.mem_append.mp member with inBefore | inAfter
      · have apart : pair.1.stop ≤ (rangemapRangeAt map index).start :=
          (List.pairwise_append.mp sorted).2.2 pair.1 (List.mem_map_of_mem inBefore) _
            List.mem_cons_self
        rw [same] at apart
        omega
      · have apart : (rangemapRangeAt map index).stop ≤ pair.1.start :=
          (List.pairwise_cons.mp (List.pairwise_append.mp sorted).2.1).1 pair.1
            (List.mem_map_of_mem inAfter)
        rw [same] at apart
        omega
    ext pair
    rw [Finset.mem_filter, rangemapPairs, rangemapPairs, List.mem_toFinset, List.mem_toFinset,
      takenEntries]
    constructor
    · intro member
      refine ⟨?_, others pair member⟩
      rw [split]
      rcases List.mem_append.mp member with inBefore | inAfter
      · exact List.mem_append_left _ inBefore
      · exact List.mem_append_right _ (List.mem_cons_of_mem _ inAfter)
    · rintro ⟨member, other⟩
      rw [split] at member
      rcases List.mem_append.mp member with inBefore | inRest
      · exact List.mem_append_left _ inBefore
      · rcases List.mem_cons.mp inRest with same | inAfter
        · exact absurd (same ▸ entryRange) other
        · exact List.mem_append_right _ inAfter

theorem rangemapRemove_refines (ok : map.Ok) (range : Range) :
    ∃ next status, rangemapRemove map range = some (next, status) ∧ next.Ok ∧
      (rangemapPairs next, status) = pairsRemove (rangemapPairs map) range ∧
      (status ≠ .success → next = map) := by
  rw [rangemapRemove, pairsRemove]
  by_cases rejected : range.length = 0 ∨ rangeIsValid range = false
  · rw [if_pos rejected, if_pos rejected]
    exact ⟨map, .EINVAL, rfl, ok, rfl, fun _ => rfl⟩
  · rw [if_neg rejected, if_neg rejected]
    have proper : range.Proper := by
      rwa [checks_not_proper, not_not] at rejected
    have search := rangeIntersectsBsearch_outcome ok.sorted ok.proper proper
    cases found : rangeIntersectsBsearch (rangemapRanges map) range with
    | none =>
      rw [found] at search
      have free : ¬∃ pair ∈ rangemapPairs map, pair.1.Meets range := by
        rw [rangemapPairs_meet]
        rintro ⟨entry, member, meets⟩
        exact search entry member meets
      rw [if_pos free]
      exact ⟨map, .ENOENT, rfl, ok, rfl, fun _ => rfl⟩
    | some index =>
      rw [found] at search
      obtain ⟨bound, meets⟩ := search
      have inside : index < map.length := by
        simpa [rangemapRanges] using bound
      have entryRange : (rangemapRanges map)[index] = rangemapRangeAt map index := by
        simp [rangemapRanges]
      have meeting : ∃ pair ∈ rangemapPairs map, pair.1.Meets range :=
        (rangemapPairs_meet map range).mpr ⟨_, List.getElem_mem bound, meets⟩
      rw [if_neg (not_not.mpr meeting)]
      have equals : rangeEquals (rangemapRangeAt map index) range = true ↔
          rangemapRangeAt map index = range := by
        rw [rangeEquals, Bool.and_eq_true, beq_iff_eq, beq_iff_eq, Range.mk.injEq]
      have storedIff : (∃ pair ∈ rangemapPairs map, pair.1 = range) ↔
          rangemapRangeAt map index = range := by
        constructor
        · rintro ⟨pair, member, rfl⟩
          have stored : pair.1 ∈ rangemapRanges map := by
            rw [rangemapRanges_eq]
            exact List.mem_map_of_mem (List.mem_toFinset.mp member)
          rw [← entryRange]
          exact eq_of_meets ok.sorted (List.getElem_mem bound) stored meets
        · intro same
          refine ⟨(rangemapRangeAt map index, rangemapValueAt map index), ?_, same⟩
          rw [rangemapPairs, List.mem_toFinset, List.mem_iff_getElem]
          exact ⟨index, by rwa [rangemapEntries_length], by simp [rangemapEntries]⟩
      by_cases same : rangemapRangeAt map index = range
      · have accepted : ¬rangeEquals (rangemapRangeAt map index) range = false := by
          rw [Bool.not_eq_false]
          exact equals.mpr same
        dsimp only
        rw [if_neg accepted, if_neg (not_not.mpr (storedIff.mpr same))]
        obtain ⟨taken, takenEq, takenFits, takenEntries⟩ :=
          rangemapTake_some ok.toFits inside
        obtain ⟨takenOk, takenPairs⟩ := ok.of_eraseIdx takenFits inside takenEntries
        refine ⟨taken, .success, ?_, takenOk, ?_, fun failed => absurd rfl failed⟩
        · simp only [takenEq, Option.bind_eq_bind, Option.bind_some]
        · rw [takenPairs, same]
      · have denied : rangeEquals (rangemapRangeAt map index) range = false := by
          rw [← Bool.not_eq_true, equals]
          exact same
        dsimp only
        rw [if_pos denied, if_pos (mt storedIff.mp same)]
        exact ⟨map, .EACCES, rfl, ok, rfl, fun _ => rfl⟩

theorem RangemapOp.apply_refines (ok : map.Ok) (op : RangemapOp) :
    ∃ next status, op.apply map = some (next, status) ∧ next.Ok ∧
      (rangemapPairs next, status) = op.pairs (rangemapPairs map) ∧
      (status ≠ .success → next = map) := by
  cases op with
  | insert range value fresh => exact rangemapInsert_refines ok range value fresh
  | remove range => exact rangemapRemove_refines ok range
  | reset =>
    refine ⟨rangemapReset map, .success, rfl, ?_, rfl, fun failed => absurd rfl failed⟩
    exact ⟨⟨ok.block, Nat.zero_le _⟩, by simp [AllProper, rangemapRanges, rangemapReset, table],
      by simp [Apart, rangemapRanges, rangemapReset, table]⟩

theorem rangemapInit_ok (capacity : Nat) (fresh : Nat → UInt64) :
    (rangemapInit capacity fresh).Ok where
  block := blockResize_length [] (3 * capacity) fresh
  room := Nat.zero_le _
  proper := by simp [AllProper, rangemapRanges, rangemapInit, table]
  sorted := by simp [Apart, rangemapRanges, rangemapInit, table]

theorem rangemapRun_ok : ∀ (ops : List RangemapOp) (map : Rangemap), map.Ok →
    ∃ final statuses, rangemapRun map ops = some (final, statuses) ∧ final.Ok ∧
      (rangemapPairs final, statuses) = pairsRun (rangemapPairs map) ops := by
  intro ops
  induction ops with
  | nil => intro map ok; exact ⟨map, [], rfl, ok, rfl⟩
  | cons op rest ih =>
    intro map ok
    obtain ⟨next, status, applied, nextOk, pairs, -⟩ := op.apply_refines ok
    obtain ⟨final, statuses, result, finalOk, restPairs⟩ := ih next nextOk
    refine ⟨final, status :: statuses, ?_, finalOk, ?_⟩
    · simp only [rangemapRun, applied, result, Option.bind_eq_bind, Option.bind_some]
    · rw [pairsRun, ← pairs]
      dsimp only
      rw [← restPairs]

/-- From an initialised map of any capacity every run stays inside the block and
answers as the set of pairs does. A call that fails leaves the map as it was. -/
theorem rangemapRun_refines (capacity : Nat) (fresh : Nat → UInt64) (ops : List RangemapOp) :
    ∃ map statuses, rangemapRun (rangemapInit capacity fresh) ops = some (map, statuses) ∧
      (rangemapPairs map, statuses) = pairsRun ∅ ops ∧
      (rangemapPairs map).card = map.length ∧
      AllProper (rangemapRanges map) ∧ SortedDisjoint (rangemapRanges map) ∧
      ∀ op : RangemapOp, ∃ next status, op.apply map = some (next, status) ∧
        (status ≠ .success → next = map) := by
  obtain ⟨map, statuses, result, ok, pairs⟩ :=
    rangemapRun_ok ops (rangemapInit capacity fresh) (rangemapInit_ok capacity fresh)
  refine ⟨map, statuses, result, pairs, ok.pairs_card, ok.proper, ok.sorted, fun op => ?_⟩
  obtain ⟨next, status, applied, -, -, unchanged⟩ := op.apply_refines ok
  exact ⟨next, status, applied, unchanged⟩

end MulleCore
