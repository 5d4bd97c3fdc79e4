import MulleCore.Container.RangemapRefines
import MulleCore.Data.RangeLocations

/-!
`_mulle__rangemap_get_ranges_values`, with the arrays of the caller, either of which may be NULL.
-/

namespace MulleCore

open Library

structure RangemapOut where
  ranges : Option (List Range)
  values : Option (List UInt64)

def rangemapOutWrite {Cell : Type} (cells : Option (List Cell)) (index : Nat) (cell : Cell) :
    Option (Option (List Cell)) :=
  match cells with
  | none => some none
  | some cells => (blockWrite cells index cell).map some

def rangemapOutput (map : Rangemap) (i foundCount maxOut : Nat) (out : RangemapOut) :
    Option RangemapOut :=
  if foundCount < maxOut then do
    let ranges ← rangemapOutWrite out.ranges foundCount (rangemapRangeAt map i)
    let values ← rangemapOutWrite out.values foundCount (rangemapValueAt map i)
    some ⟨ranges, values⟩
  else some out

def rangemapScan (map : Rangemap) (range : Range) (maxOut : Nat) :
    Nat → Nat → Nat → RangemapOut → Option (Nat × RangemapOut)
  | 0, _, foundCount, out => some (foundCount, out)
  | remaining + 1, i, foundCount, out =>
    if rangeIntersects (rangemapRangeAt map i) range = true then do
      let out ← rangemapOutput map i foundCount maxOut out
      rangemapScan map range maxOut remaining (i + 1) (foundCount + 1) out
    else some (foundCount, out)

def rangemapFirstIndex (map : Rangemap) (range : Range) : Nat :=
  let index := rangeHoleBsearch (rangemapRanges map) range.location
  if index = map.length then index - 1
  else if index ≠ 0 ∧ rangeIntersects (rangemapRangeAt map (index - 1)) range = true then index - 1
  else index

def rangemapGetRangesValues (map : Rangemap) (range : Range) (maxOut : Nat) (out : RangemapOut) :
    Option (Nat × RangemapOut) :=
  if range.length = 0 ∨ rangeIsValid range = false then some (0, out)
  else if map.length = 0 then some (0, out)
  else
    let index := rangemapFirstIndex map range
    if rangeIntersects (rangemapRangeAt map index) range = true then
      rangemapScan map range maxOut (map.length - index) index 0 out
    else some (0, out)

section Filled

variable {Cell : Type}
variable {maxOut : Nat}

def filled (maxOut : Nat) (hits cells : List Cell) : List Cell :=
  hits.take maxOut ++ cells.drop (min hits.length maxOut)

theorem filled_write (hits cells : List Cell) (hit : Cell) (room : hits.length < maxOut)
    (bound : hits.length < cells.length) :
    blockWrite (filled maxOut hits cells) hits.length hit =
      some (filled maxOut (hits ++ [hit]) cells) := by
  have whole : hits.take maxOut = hits := List.take_of_length_le (Nat.le_of_lt room)
  have more : (hits ++ [hit]).take maxOut = hits ++ [hit] :=
    List.take_of_length_le (by simpa using Nat.succ_le_of_lt room)
  have next : min (hits ++ [hit]).length maxOut = hits.length + 1 := by
    rw [List.length_append, List.length_singleton]
    omega
  rw [filled, filled, whole, more, next, Nat.min_eq_left (Nat.le_of_lt room),
    List.drop_eq_getElem_cons bound, blockWrite, if_pos (by simp; omega), set_splice,
    List.append_assoc, List.singleton_append]

theorem filled_full (hits : List Cell) (hit : Cell) (full : ¬ hits.length < maxOut) :
    filled maxOut (hits ++ [hit]) = filled maxOut hits := by
  funext cells
  rw [filled, filled, List.take_append_of_le_length (Nat.not_lt.mp full), List.length_append,
    List.length_singleton, Nat.min_eq_right (by omega), Nat.min_eq_right (by omega)]

def OutFits (maxOut count : Nat) (cells : Option (List Cell)) : Prop :=
  ∀ there ∈ cells, min count maxOut ≤ there.length

theorem rangemapOutWrite_filled {count : Nat} (hits : List Cell) (hit : Cell)
    {cells : Option (List Cell)} (room : hits.length < maxOut) (more : hits.length < count)
    (fits : OutFits maxOut count cells) :
    rangemapOutWrite (cells.map (filled maxOut hits)) hits.length hit =
      some (cells.map (filled maxOut (hits ++ [hit]))) := by
  cases cells with
  | none => rfl
  | some there =>
    have bound := fits there rfl
    have written := filled_write hits there hit room (by omega)
    simp only [rangemapOutWrite, Option.map_some, written]

end Filled

def RangemapOut.filled (out : RangemapOut) (maxOut : Nat) (hits : List (Range × UInt64)) :
    RangemapOut :=
  ⟨out.ranges.map (MulleCore.filled maxOut (hits.map Prod.fst)),
    out.values.map (MulleCore.filled maxOut (hits.map Prod.snd))⟩

def meetsRange (range : Range) (entry : Range × UInt64) : Bool := decide (entry.1.Meets range)

section Scan

variable {map : Rangemap} {range : Range} {maxOut count : Nat} {out : RangemapOut}
variable {index : Nat}

theorem rangemapOutput_filled (i : Nat) (hits : List (Range × UInt64)) (more : hits.length < count)
    (rangesFit : OutFits maxOut count out.ranges) (valuesFit : OutFits maxOut count out.values) :
    rangemapOutput map i hits.length maxOut (out.filled maxOut hits) =
      some (out.filled maxOut (hits ++ [(rangemapRangeAt map i, rangemapValueAt map i)])) := by
  rw [rangemapOutput]
  split
  · rename_i room
    have ranges := rangemapOutWrite_filled (hits.map Prod.fst) (rangemapRangeAt map i)
      (by simpa using room) (by simpa using more) rangesFit
    have values := rangemapOutWrite_filled (hits.map Prod.snd) (rangemapValueAt map i)
      (by simpa using room) (by simpa using more) valuesFit
    rw [List.length_map] at ranges values
    simp only [RangemapOut.filled, ranges, values, Option.bind_eq_bind, Option.bind_some,
      List.map_append, List.map_cons, List.map_nil]
  · rename_i full
    simp only [RangemapOut.filled, List.map_append, List.map_cons, List.map_nil]
    rw [filled_full _ _ (by simpa using full), filled_full _ _ (by simpa using full)]

theorem entries_drop {i : Nat} (bound : i < map.length) :
    (rangemapEntries map).drop i = (rangemapRangeAt map i, rangemapValueAt map i) ::
      (rangemapEntries map).drop (i + 1) := by
  rw [List.drop_eq_getElem_cons (by simpa using bound)]
  simp [rangemapEntries]

theorem rangemapScan_filled (ok : map.Ok) (proper : range.Proper) :
    ∀ (remaining i : Nat) (hits : List (Range × UInt64)), i + remaining = map.length →
      (hits ++ ((rangemapEntries map).drop i).takeWhile (meetsRange range)).length = count →
      OutFits maxOut count out.ranges → OutFits maxOut count out.values →
      rangemapScan map range maxOut remaining i hits.length (out.filled maxOut hits) =
        some (count, out.filled maxOut
          (hits ++ ((rangemapEntries map).drop i).takeWhile (meetsRange range))) := by
  intro remaining
  induction remaining with
  | zero =>
    intro i hits atEnd counted _ _
    have done : (rangemapEntries map).drop i = [] := List.drop_eq_nil_of_le (by simp; omega)
    rw [done] at counted ⊢
    rw [← counted, rangemapScan]
    simp
  | succ remaining ih =>
    intro i hits inside counted rangesFit valuesFit
    have bound : i < map.length := by omega
    have entryProper : (rangemapRangeAt map i).Proper := ok.proper _ (by
      rw [rangemapRanges_eq, List.mem_map]
      exact ⟨_, List.mem_of_mem_drop (entries_drop bound ▸ List.mem_cons_self), rfl⟩)
    have meetsIff := rangeIntersects_iff entryProper proper
    rw [rangemapScan]
    rw [entries_drop bound] at counted ⊢
    by_cases meets : (rangemapRangeAt map i).Meets range
    · have taken : meetsRange range (rangemapRangeAt map i, rangemapValueAt map i) = true :=
        decide_eq_true meets
      rw [List.takeWhile_cons_of_pos taken, List.append_cons] at counted ⊢
      have more : hits.length < count := by
        rw [← counted, List.length_append, List.length_append, List.length_singleton]
        omega
      have output : rangemapOutput map i hits.length maxOut (out.filled maxOut hits) = _ :=
        rangemapOutput_filled i hits more rangesFit valuesFit
      have rest := ih (i + 1) (hits ++ [(rangemapRangeAt map i, rangemapValueAt map i)]) (by omega)
        counted rangesFit valuesFit
      rw [List.length_append, List.length_singleton] at rest
      rw [if_pos (meetsIff.mpr meets), output]
      exact rest
    · have stopped : ¬ meetsRange range (rangemapRangeAt map i, rangemapValueAt map i) = true := by
        simpa [meetsRange] using meets
      rw [List.takeWhile_cons_of_neg stopped, List.append_nil] at counted ⊢
      rw [if_neg (mt meetsIff.mp meets), counted]

theorem filter_eq_takeWhile (range : Range) :
    ∀ (entries : List (Range × UInt64)), SortedDisjoint (entries.map Prod.fst) →
      AllProper (entries.map Prod.fst) →
      (∀ entry ∈ entries, range.start < entry.1.stop) →
      entries.filter (meetsRange range) = entries.takeWhile (meetsRange range) := by
  intro entries
  induction entries with
  | nil => exact fun _ _ _ => rfl
  | cons entry rest ih =>
    intro sorted proper reaches
    obtain ⟨behind, restSorted⟩ := List.pairwise_cons.mp sorted
    have rested := ih restSorted proper.tail fun other member => reaches other
      (List.mem_cons_of_mem entry member)
    by_cases meets : entry.1.Meets range
    · have taken : meetsRange range entry = true := decide_eq_true meets
      rw [List.filter_cons_of_pos taken, List.takeWhile_cons_of_pos taken, rested]
    · have stopped : ¬ meetsRange range entry = true := by simpa [meetsRange] using meets
      rw [List.filter_cons_of_neg stopped, List.takeWhile_cons_of_neg stopped, List.filter_eq_nil_iff]
      intro other member
      have beyond := le_start_of_not_meets (reaches entry List.mem_cons_self) meets
      have order := behind other.1 (List.mem_map_of_mem member)
      have nonempty := proper.head.start_lt_stop
      rw [meetsRange, decide_eq_true_eq]
      rintro ⟨starts, _⟩
      omega

theorem rangemapEntries_getElem (bound : index < (rangemapEntries map).length) :
    (rangemapEntries map)[index] = (rangemapRangeAt map index, rangemapValueAt map index) := by
  simp [rangemapEntries]

theorem rangemapRanges_getElem (bound : index < (rangemapRanges map).length) :
    (rangemapRanges map)[index] = rangemapRangeAt map index := by
  simp [rangemapRanges]

structure ScanStart (map : Rangemap) (range : Range) (first : Nat) : Prop where
  inside : first < map.length
  passed : ∀ i, i < first → ¬ (rangemapRangeAt map i).Meets range
  reaches : (∀ i, first ≤ i → i < map.length → range.start < (rangemapRangeAt map i).stop) ∨
    first + 1 = map.length

theorem ScanStart.hits {first : Nat} (start : ScanStart map range first) (ok : map.Ok) :
    (rangemapEntries map).filter (meetsRange range) =
      ((rangemapEntries map).drop first).takeWhile (meetsRange range) := by
  have inside := start.inside
  have nothing : ((rangemapEntries map).take first).filter (meetsRange range) = [] := by
    rw [List.filter_eq_nil_iff]
    intro entry member
    obtain ⟨i, bound, rfl⟩ := List.mem_iff_getElem.mp member
    rw [List.length_take] at bound
    rw [List.getElem_take, rangemapEntries_getElem, meetsRange, decide_eq_true_eq]
    exact start.passed i (by omega)
  have rest : ((rangemapEntries map).drop first).filter (meetsRange range) =
      ((rangemapEntries map).drop first).takeWhile (meetsRange range) := by
    rcases start.reaches with reaches | last
    · have sorted := ok.sorted
      have proper := ok.proper
      rw [rangemapRanges_eq] at sorted proper
      refine filter_eq_takeWhile range _ ?_ ?_ ?_
      · rw [List.map_drop]
        exact sorted.drop
      · rw [List.map_drop]
        exact fun entry member => proper entry (List.mem_of_mem_drop member)
      · intro entry member
        obtain ⟨i, bound, rfl⟩ := List.mem_iff_getElem.mp member
        rw [List.length_drop, rangemapEntries_length] at bound
        rw [List.getElem_drop, rangemapEntries_getElem]
        exact reaches (first + i) (by omega) (by omega)
    · have single : (rangemapEntries map).drop (first + 1) = [] :=
        List.drop_eq_nil_of_le (by simp; omega)
      rw [entries_drop inside, single]
      by_cases meets : meetsRange range (rangemapRangeAt map first, rangemapValueAt map first) = true
      · simp [meets]
      · simp [meets]
  calc (rangemapEntries map).filter (meetsRange range)
      = ((rangemapEntries map).take first ++ (rangemapEntries map).drop first).filter
        (meetsRange range) := by
        rw [List.take_append_drop]
    _ = ((rangemapEntries map).drop first).takeWhile (meetsRange range) := by
        rw [List.filter_append, nothing, rest, List.nil_append]

theorem rangemapFirstIndex_start (ok : map.Ok) (proper : range.Proper) (nonempty : map.length ≠ 0) :
    ScanStart map range (rangemapFirstIndex map range) := by
  have rangeNonempty := proper.start_lt_stop
  have count : (rangemapRanges map).length = map.length := by rw [rangemapRanges_eq]; simp
  have entryProper : ∀ i, i < map.length → (rangemapRangeAt map i).Proper := by
    intro i bound
    rw [← rangemapRanges_getElem (by omega)]
    exact ok.proper _ (List.getElem_mem _)
  have order : ∀ i j, i < j → j < map.length →
      (rangemapRangeAt map i).stop ≤ (rangemapRangeAt map j).start := by
    intro i j before bound
    rw [← rangemapRanges_getElem (by omega), ← rangemapRanges_getElem (by omega)]
    exact ok.sorted.getElem before (by omega) (by omega)
  have length : ∀ i, i < map.length →
    (rangemapRangeAt map i).start < (rangemapRangeAt map i).stop := fun i bound =>
    (entryProper i bound).start_lt_stop
  have hole := rangeHoleBsearch_holeAt ok.sorted ok.proper range.location
  rw [rangemapFirstIndex]
  generalize rangeHoleBsearch (rangemapRanges map) range.location = index at hole ⊢
  obtain ⟨within, below, above⟩ := hole
  have lower : ∀ i, i < map.length → i < index → (rangemapRangeAt map i).start < range.start := by
    intro i bound before
    rw [← rangemapRanges_getElem (by omega)]
    exact below i (by omega) before
  have upper : ∀ i, i < map.length → index ≤ i → range.start ≤ (rangemapRangeAt map i).start := by
    intro i bound behind
    rw [← rangemapRanges_getElem (by omega)]
    exact above i (by omega) behind
  split
  · rename_i atEnd
    refine ⟨by omega, ?_, Or.inr (by omega)⟩
    rintro i before ⟨_, reaches⟩
    have apart := order i (map.length - 1) (by omega) (by omega)
    have last := lower (map.length - 1) (by omega) (by omega)
    omega
  · rename_i inMiddle
    have bound : index < map.length := by omega
    split
    · rename_i oneBack
      have meets := (rangeIntersects_iff (entryProper (index - 1) (by omega)) proper).mp oneBack.2
      refine ⟨by omega, ?_, Or.inl ?_⟩
      · rintro i before ⟨_, reaches⟩
        have apart := order i (index - 1) (by omega) (by omega)
        have last := lower (index - 1) (by omega) (by omega)
        omega
      · intro i behind inside
        rcases Nat.lt_or_eq_of_le behind with later | rfl
        · have starts := upper i inside (by omega)
          have positive := length i inside
          omega
        · exact meets.2
    · rename_i stays
      refine ⟨bound, ?_, Or.inl ?_⟩
      · intro i before meets
        have starts := lower i (by omega) before
        rcases Nat.lt_or_eq_of_le (show i ≤ index - 1 by omega) with earlier | rfl
        · have apart := order i (index - 1) earlier (by omega)
          have last := lower (index - 1) (by omega) (by omega)
          obtain ⟨_, reaches⟩ := meets
          omega
        · exact stays ⟨by omega,
            (rangeIntersects_iff (entryProper (index - 1) (by omega)) proper).mpr meets⟩
      · intro i behind inside
        have starts := upper i inside behind
        have positive := length i inside
        omega

/-- In every state that a map comes to, the ranges that meet the query are all counted, and the
first of them are written in their order and with their values. -/
theorem rangemapGetRangesValues_hits (capacity : Nat) (fresh : Nat → UInt64) (ops : List RangemapOp) :
    ∃ map statuses, rangemapRun (rangemapInit capacity fresh) ops = some (map, statuses) ∧
      SortedDisjoint ((rangemapEntries map).map Prod.fst) ∧
      ∀ (range : Range) (maxOut : Nat) (out : RangemapOut), rangeIsValid range = true →
        range.length ≠ 0 →
        OutFits maxOut ((rangemapEntries map).filter (meetsRange range)).length out.ranges →
        OutFits maxOut ((rangemapEntries map).filter (meetsRange range)).length out.values →
        rangemapGetRangesValues map range maxOut out =
          some (((rangemapEntries map).filter (meetsRange range)).length,
            out.filled maxOut ((rangemapEntries map).filter (meetsRange range))) := by
  obtain ⟨map, statuses, result, ok, -⟩ :=
    rangemapRun_ok ops (rangemapInit capacity fresh) (rangemapInit_ok capacity fresh)
  refine ⟨map, statuses, result, rangemapRanges_eq map ▸ ok.sorted, ?_⟩
  intro range maxOut out valid nonempty rangesFit valuesFit
  have proper : range.Proper := (range_proper_iff range).mpr ⟨nonempty, valid⟩
  have untouched : out.filled maxOut [] = out := by
    obtain ⟨ranges, values⟩ := out
    cases ranges <;> cases values <;> simp [RangemapOut.filled, filled]
  rw [rangemapGetRangesValues, if_neg (by simp [nonempty, valid])]
  split
  · rename_i empty
    have none : rangemapEntries map = [] := List.length_eq_zero_iff.mp (by simpa using empty)
    rw [none, List.filter_nil, untouched]
    rfl
  · rename_i stored
    have start := rangemapFirstIndex_start ok proper stored
    have hits := start.hits ok
    have inside := start.inside
    have scanned := @rangemapScan_filled map range maxOut _ out ok proper
      (map.length - rangemapFirstIndex map range) (rangemapFirstIndex map range) [] (by omega) rfl
    rw [List.nil_append, ← hits, untouched] at scanned
    dsimp only
    split
    · exact scanned rangesFit valuesFit
    · rename_i misses
      have entryProper : (rangemapRangeAt map (rangemapFirstIndex map range)).Proper :=
        ok.proper _ (by
        rw [rangemapRanges_eq, List.mem_map]
        exact ⟨_, List.mem_of_mem_drop (entries_drop inside ▸ List.mem_cons_self), rfl⟩)
      have stopped : ¬ meetsRange range (rangemapRangeAt map (rangemapFirstIndex map range),
          rangemapValueAt map (rangemapFirstIndex map range)) = true := by
        rw [meetsRange, decide_eq_true_eq]
        exact mt (rangeIntersects_iff entryProper proper).mpr misses
      rw [entries_drop inside, List.takeWhile_cons_of_neg stopped] at hits
      rw [hits, untouched]
      rfl

theorem rangemapGetRangesValues_hits_two :
    ∃ map statuses, rangemapRun (rangemapInit 0 fun _ => 0)
        [.insert ⟨0, 5⟩ 7 (fun _ => 0), .insert ⟨10, 5⟩ 8 (fun _ => 0),
          .insert ⟨20, 5⟩ 9 (fun _ => 0)] = some (map, statuses) ∧
      rangemapGetRangesValues map ⟨12, 9⟩ 1 ⟨some [⟨0, 0⟩], none⟩ =
        some (2, ⟨some [⟨10, 5⟩], none⟩) := by
  obtain ⟨map, statuses, result, _, gets⟩ := rangemapGetRangesValues_hits 0 (fun _ => 0)
    [.insert ⟨0, 5⟩ 7 (fun _ => 0), .insert ⟨10, 5⟩ 8 (fun _ => 0), .insert ⟨20, 5⟩ 9 (fun _ => 0)]
  refine ⟨map, statuses, result, ?_⟩
  have reached : (rangemapRun (rangemapInit 0 fun _ => 0)
      [.insert ⟨0, 5⟩ 7 (fun _ => 0), .insert ⟨10, 5⟩ 8 (fun _ => 0),
        .insert ⟨20, 5⟩ 9 (fun _ => 0)]).map
        (fun after => rangemapEntries after.1) = some [(⟨0, 5⟩, 7), (⟨10, 5⟩, 8),
          (⟨20, 5⟩, 9)] := by decide
  rw [result, Option.map_some, Option.some.injEq] at reached
  have found : (rangemapEntries map).filter (meetsRange ⟨12, 9⟩) = [(⟨10, 5⟩, 8), (⟨20, 5⟩, 9)] := by
    rw [reached]
    decide
  have got := gets ⟨12, 9⟩ 1 ⟨some [⟨0, 0⟩], none⟩ (by decide) (by decide)
  rw [found] at got
  exact got (by rintro _ ⟨⟩; decide) (by rintro _ ⟨⟩)

end Scan

end MulleCore
