import Mathlib.Data.Set.Function
import MulleCore.Container.AssocIntptr

/-!
A block of keys is moved down as it should be, but up only if it is one key that goes to the very
end.
-/

namespace MulleCore

open Library

/-- Where the keys from `b` on go to: these are permuted, the keys of the range stay together, and
the others stay in order. -/
structure MovesBlock (b n : Nat) (range : Range) (keyTo : Nat → Nat) : Prop where
  permutes : Set.BijOn keyTo (Set.Ico b (b + n)) (Set.Ico b (b + n))
  together : ∀ key, range.start ≤ key → key + 1 < range.stop → keyTo (key + 1) = keyTo key + 1
  others : ∀ key other, key ∈ Set.Ico b (b + n) → other ∈ Set.Ico b (b + n) → key ∉ range.locations →
    other ∉ range.locations → key < other → keyTo key < keyTo other

def MoveRight (b : Nat) (assoc : Assoc) (range : Range) (result : Option Assoc) : Prop :=
  ∃ (next : Assoc) (entries : List Pointerpair) (keyTo : Nat → Nat), result = some next ∧
    (entries = assoc.storage ∨
      entries.Perm assoc.storage ∧ entries.Pairwise fun one other => one.key.toNat <
        other.key.toNat) ∧
    (next.storage.map fun p => (p.key.toNat, p.value)) =
      (entries.map fun p => (keyTo p.key.toNat, p.value)) ∧
    MovesBlock b assoc.storage.length range keyTo

section Move

variable {callback : Keycallback} {compare : Pointerpair → Pointerpair → Int} {assoc : Assoc}
  {range : Range} {index : Int64} {b n : Nat}
variable {word : Int64} {value target : Nat} {offset : Int64} {key : Nat} {keyTo : Nat → Nat}
  {result : Option Assoc}

theorem MovesBlock.id (b n : Nat) (range : Range) : MovesBlock b n range fun key => key where
  permutes := Set.bijOn_id _
  together := fun _ _ _ => rfl
  others := fun _ _ _ _ _ _ below => below

def keyMovedDown (range : Range) (index key : Nat) : Nat :=
  if key < index ∨ range.stop ≤ key then key
  else if key < range.start then key + range.length.toNat
  else key - (range.start - index)

theorem keyMovedDown_movesBlock (within : b ≤ range.start ∧ range.stop ≤ b + n) {down : Nat}
    (lower : b ≤ down) (below : down < range.start) :
    MovesBlock b n range (keyMovedDown range down) := by
  have stop : range.stop = range.start + range.length.toNat := rfl
  refine ⟨⟨?_, ?_, ?_⟩, ?_, ?_⟩
  · intro key inside
    rw [Set.mem_Ico] at inside ⊢
    rw [keyMovedDown]
    split_ifs <;> omega
  · intro key inside other otherInside same
    rw [keyMovedDown, keyMovedDown] at same
    split_ifs at same <;> omega
  · intro key inside
    rw [Set.mem_Ico] at inside
    by_cases outside : key < down ∨ range.stop ≤ key
    · exact ⟨key, Set.mem_Ico.mpr inside, if_pos outside⟩
    · by_cases first : key < down + range.length.toNat
      · refine ⟨key + (range.start - down), Set.mem_Ico.mpr (by omega), ?_⟩
        rw [keyMovedDown, if_neg (by omega), if_neg (by omega)]
        omega
      · refine ⟨key - range.length.toNat, Set.mem_Ico.mpr (by omega), ?_⟩
        rw [keyMovedDown, if_neg (by omega), if_pos (by omega)]
        omega
  · intro key lower upper
    rw [keyMovedDown, keyMovedDown, if_neg (by omega), if_neg (by omega), if_neg (by omega),
      if_neg (by omega)]
    omega
  · intro key other _ _ keyOut otherOut order
    rw [Range.locations, Set.mem_Ico] at keyOut otherOut
    rw [keyMovedDown, keyMovedDown]
    split_ifs <;> omega

def keyMovedUp (range : Range) (index key : Nat) : Nat :=
  if key < range.start ∨ index + 1 < key then key
  else if range.stop ≤ key ∧ key ≤ index then key - range.length.toNat
  else key + (index - range.start)

theorem keyMovedUp_movesBlock (lower : b ≤ range.start) {up : Nat} (above : range.stop ≤ up)
    (single : range.length.toNat = 1) (last : up + 1 = b + n) :
    MovesBlock b n range (keyMovedUp range up) := by
  have stop : range.stop = range.start + range.length.toNat := rfl
  refine ⟨⟨?_, ?_, ?_⟩, ?_, ?_⟩
  · intro key inside
    rw [Set.mem_Ico] at inside ⊢
    rw [keyMovedUp]
    split_ifs <;> omega
  · intro key inside other otherInside same
    rw [Set.mem_Ico] at inside otherInside
    rw [keyMovedUp, keyMovedUp] at same
    split_ifs at same <;> omega
  · intro key inside
    rw [Set.mem_Ico] at inside
    by_cases outside : key < range.start
    · exact ⟨key, Set.mem_Ico.mpr inside, if_pos (Or.inl outside)⟩
    · by_cases end_ : key = up
      · refine ⟨range.start, Set.mem_Ico.mpr (by omega), ?_⟩
        rw [keyMovedUp, if_neg (by omega), if_neg (by omega)]
        omega
      · refine ⟨key + 1, Set.mem_Ico.mpr (by omega), ?_⟩
        rw [keyMovedUp, if_neg (by omega), if_pos (by omega)]
        omega
  · intro key lower upper
    omega
  · intro key other keyIn otherIn keyOut otherOut order
    rw [Set.mem_Ico] at keyIn otherIn
    rw [Range.locations, Set.mem_Ico] at keyOut otherOut
    rw [keyMovedUp, keyMovedUp]
    split_ifs <;> omega

theorem keyMovedUp_wrong (nonempty : 0 < range.length.toNat) (lower : b ≤ range.start) {up : Nat}
    (above : range.stop ≤ up) (upper : up < b + n)
    (wrong : ¬ (range.length.toNat = 1 ∧ up + 1 = b + n)) :
    ¬ Set.BijOn (keyMovedUp range up) (Set.Ico b (b + n)) (Set.Ico b (b + n)) := by
  have stop : range.stop = range.start + range.length.toNat := rfl
  intro bijective
  by_cases single : range.length.toNat = 1
  · -- the key behind the target goes to where another key is, or out of the keys
    have moved : keyMovedUp range up (up + 1) = up + 1 + (up - range.start) := by
      rw [keyMovedUp, if_neg (by omega), if_neg (by omega)]
    have inside := bijective.mapsTo (Set.mem_Ico.mpr (show b ≤ up + 1 ∧ up + 1 < b + n by omega))
    rw [moved, Set.mem_Ico] at inside
    have stays : keyMovedUp range up (up + 1 + (up - range.start)) = up + 1 + (up - range.start) := by
      rw [keyMovedUp, if_pos (by omega)]
    have same := bijective.injOn (Set.mem_Ico.mpr (show b ≤ up + 1 ∧ up + 1 < b + n by omega))
      (Set.mem_Ico.mpr inside) (moved.trans stays.symm)
    omega
  · -- nothing goes to the key before the target
    obtain ⟨key, inside, reached⟩ :=
      bijective.surjOn (Set.mem_Ico.mpr (show b ≤ up - 1 ∧ up - 1 < b + n by omega))
    rw [keyMovedUp] at reached
    split_ifs at reached <;> omega

theorem bijOn_iff_perm (keyTo : Nat → Nat) :
    Set.BijOn keyTo (Set.Ico b (b + n)) (Set.Ico b (b + n)) ↔
    ((List.range' b n).map keyTo).Perm (List.range' b n) := by
  have member : ∀ key, key ∈ List.range' b n ↔ key ∈ Set.Ico b (b + n) := fun key => by
    rw [List.mem_range'_1, Set.mem_Ico]
  constructor
  · intro bijective
    refine (List.perm_ext_iff_of_nodup (List.Nodup.map_on ?_ List.nodup_range')
      List.nodup_range').mpr fun key => ?_
    · intro key keyIn other otherIn same
      exact bijective.injOn ((member key).mp keyIn) ((member other).mp otherIn) same
    · rw [List.mem_map, member]
      constructor
      · rintro ⟨source, sourceIn, rfl⟩
        exact bijective.mapsTo ((member source).mp sourceIn)
      · intro inside
        obtain ⟨source, sourceIn, reached⟩ := bijective.surjOn inside
        exact ⟨source, (member source).mpr sourceIn, reached⟩
  · intro perm
    refine ⟨fun key inside => ?_, fun key keyIn other otherIn same => ?_, fun key inside => ?_⟩
    · exact (member _).mp (perm.mem_iff.mp (List.mem_map_of_mem ((member key).mpr inside)))
    · exact List.inj_on_of_nodup_map (perm.nodup_iff.mpr List.nodup_range') ((member key).mpr keyIn)
        ((member other).mpr otherIn) same
    · obtain ⟨source, sourceIn, reached⟩ :=
        List.mem_map.mp (perm.mem_iff.mpr ((member key).mpr inside))
      exact ⟨source, (member source).mp sourceIn, reached⟩

theorem toUInt64_of_toInt (same : word.toInt = value) : word.toUInt64 = UInt64.ofNat value := by
  have converted := toUInt64_toNat_int word
  have bounds := int64_bounds word
  have size : UInt64.size = 2 ^ 64 := rfl
  rw [← UInt64.toNat_inj, UInt64.toNat_ofNat_of_lt' (by omega)]
  rw [if_neg (by omega)] at converted
  omega

def Pointerpair.keyed (p : Pointerpair) (key : Nat) : Pointerpair :=
  { p with key := UInt64.ofNat key }

theorem assocMoveKeysFrom_keyTo (intptrs : ∀ key other, callback.isEqual key other = (key == other))
    (holds : assoc.NaturalKeys compare) (sorted : assoc.isSorted = true)
    (rising : assoc.storage.Pairwise fun one other => one.key.toNat < other.key.toNat)
    {first last : Pointer} {offsetOf : Pointer → Int64} (keyTo : Nat → Nat)
    (natural : first.toNat < 2 ^ 63)
    (stays : ∀ p ∈ assoc.storage, p.key.toNat < first.toNat ∨ last.toNat < p.key.toNat →
      keyTo p.key.toNat = p.key.toNat) (goes : ∀ p ∈ assoc.storage, first.toNat ≤ p.key.toNat →
      p.key.toNat ≤ last.toNat →
      (p.key.toNat : Int) + (offsetOf p.key).toInt = keyTo p.key.toNat ∧ keyTo p.key.toNat < 2 ^ 63)
    (there : ∃ p ∈ assoc.storage, p.key = first) :
    ∃ next, assocMoveKeysFrom callback compare assoc first (fun key => decide (key > last))
      offsetOf = some next ∧
      (next.storage.map fun p => (p.key.toNat, p.value)) = assoc.storage.map fun p =>
    (keyTo p.key.toNat, p.value) := by
  have size : UInt64.size = 2 ^ 64 := rfl
  have past : ∀ key : Pointer, decide (key > last) = false ↔ key.toNat ≤ last.toNat := by
    intro key
    rw [decide_eq_false_iff_not, gt_iff_lt, UInt64.lt_iff_toNat_lt, Nat.not_lt]
  have moved := @assocMoveKeysFrom_found callback compare assoc (fun key => decide (key > last))
    offsetOf
    (fun p => p.keyed (keyTo p.key.toNat)) first intptrs holds sorted
      (@rangeLocation_ne_notAPointer ⟨first, 0⟩ natural)
    rising
    (fun key other below past => by
      simp only [gt_iff_lt, UInt64.lt_iff_toNat_lt, decide_eq_true_iff] at past ⊢
      omega)
    (fun p member lower notPast => by
      obtain ⟨sum, small⟩ := goes p member lower ((past p.key).mp notPast)
      have value := toInt64_toInt p.key
      rw [if_pos (holds.natural p member)] at value
      obtain ⟨word, added, same⟩ := @intptrOf_some (keyTo p.key.toNat) (by omega) (by omega)
      refine ⟨word, by rw [value, sum, added], ?_⟩
      rw [toUInt64_of_toInt same, Pointerpair.keyed])
    there
  refine ⟨_, moved, ?_⟩
  rw [List.map_map]
  refine List.map_congr_left fun p member => ?_
  have bound := holds.natural p member
  simp only [Function.comp_apply, past]
  by_cases inside : first.toNat ≤ p.key.toNat ∧ p.key.toNat ≤ last.toNat
  · obtain ⟨_, small⟩ := goes p member inside.1 inside.2
    rw [if_pos inside, Pointerpair.keyed]
    simp only [UInt64.toNat_ofNat_of_lt' (show keyTo p.key.toNat < UInt64.size by omega)]
  · rw [if_neg inside, stays p member (by omega)]

theorem toUInt64_toNat_of_toInt (same : word.toInt = value) : word.toUInt64.toNat = value := by
  have converted := toUInt64_toNat_int word
  rw [if_neg (by omega)] at converted
  omega

theorem toInt64_toInt_small {word : UInt64} (small : word.toNat < 2 ^ 63) :
    word.toInt64.toInt = word.toNat := by
  rw [toInt64_toInt, if_pos small]

theorem assocMove_sorted (holds : assoc.NaturalKeys compare) (proper : range.Proper)
    (inside : range.stop ≤ assoc.storage.length) (same : index.toInt = target)
    (outside : target ∉ range.locations) (distance : offset.toInt = target - range.start)
    {storage : List Pointerpair}
    (done : assocQsortIfNeeded compare assoc =
      some { assoc with storage := storage, isSorted := true }) :
    assocMoveIntptrKeyRange callback compare assoc range index =
      (assocKeyMove range index offset).bind fun move =>
      assocMoveKeysFrom callback compare { assoc with storage := storage, isSorted := true }
        move.first (fun key => decide (key > move.last)) fun key =>
          if rangeContainsLocation move.away key then move.awayOffset else offset := by
  have greatest := proper.2
  rw [notFound_toNat] at greatest
  have startStop := proper.start_lt_stop
  have nonempty : range.length ≠ 0 := fun empty => absurd proper.1 (by simp [empty])
  have apart : ¬ rangeContainsLocation range index.toUInt64 = true := by
    rw [rangeContainsLocation_iff proper, toUInt64_toNat_of_toInt same]
    exact outside
  have location : range.location.toInt64.toInt = range.start :=
    toInt64_toInt_small (by rw [Range.start] at startStop; omega)
  have bounds := int64_bounds offset
  obtain ⟨word, difference, wordSame⟩ := @intptrOf_some (index.toInt - range.location.toInt64.toInt)
    (by omega) (by omega)
  have wordOffset : word = offset := Int64.toInt_inj.mp (by omega)
  rw [assocMoveIntptrKeyRange, rangeValidateAgainstLength_stop (by omega), holds.countWord,
    if_pos inside, if_neg nonempty, if_neg apart, done]
  simp only [Option.bind_eq_bind, Option.bind_some, difference, wordOffset]

def KeysGo (assoc : Assoc) (keyTo : Nat → Nat) (result : Option Assoc) : Prop :=
  ∃ (next : Assoc) (storage : List Pointerpair), result = some next ∧ storage.Perm assoc.storage ∧
    (storage.Pairwise fun one other => one.key.toNat < other.key.toNat) ∧
    (next.storage.map fun p => (p.key.toNat, p.value)) = storage.map fun p =>
      (keyTo p.key.toNat, p.value)

theorem keyMovedDown_offset (distance : offset.toInt = target - range.start)
    (length : range.length.toInt64.toInt = range.length.toNat) (lower : target ≤ key)
    (upper : key < range.stop) (below : target < range.start) (small : range.stop < 2 ^ 63) :
    (key : Int) + (if target ≤ key ∧ key < range.start then range.length.toInt64 else offset).toInt =
        keyMovedDown range target key ∧ keyMovedDown range target key < 2 ^ 63 := by
  have stop : range.stop = range.start + range.length.toNat := rfl
  rw [keyMovedDown, if_neg (show ¬ (key < target ∨ range.stop ≤ key) by omega)]
  by_cases before : key < range.start
  · rw [if_pos before, if_pos ⟨lower, before⟩]
    omega
  · rw [if_neg before, if_neg (fun both => before both.2)]
    omega

theorem keyMovedUp_offset (distance : offset.toInt = target - range.start)
    (length : (-range.length.toInt64).toInt = -range.length.toNat) (lower : range.start ≤ key)
    (upper : key ≤ target + 1) (above : range.stop ≤ target) (small : target < 2 ^ 61) :
    (key : Int) + (if range.stop ≤ key ∧ key < target + 1 then -range.length.toInt64
      else offset).toInt =
        keyMovedUp range target key ∧ keyMovedUp range target key < 2 ^ 63 := by
  have stop : range.stop = range.start + range.length.toNat := rfl
  rw [keyMovedUp, if_neg (show ¬ (key < range.start ∨ target + 1 < key) by omega)]
  simp only [Nat.lt_succ_iff]
  by_cases away : range.stop ≤ key ∧ key ≤ target
  · rw [if_pos away, if_pos away]
    omega
  · rw [if_neg away, if_neg away]
    omega

theorem assocMove_down (order : KeyOrder compare)
    (intptrs : ∀ key other, callback.isEqual key other = (key == other))
    (holds : assoc.NaturalKeys compare) (proper : range.Proper)
    (inside : range.stop ≤ assoc.storage.length) (same : index.toInt = target)
    (below : target < range.start) (there : ∃ p ∈ assoc.storage, p.key.toNat = target) :
    KeysGo assoc (keyMovedDown range target) (assocMoveIntptrKeyRange callback compare assoc
      range index) := by
  have greatest := proper.2
  rw [notFound_toNat] at greatest
  have startStop := proper.start_lt_stop
  have stop : range.stop = range.start + range.length.toNat := rfl
  have start : range.start = range.location.toNat := rfl
  have max := proper.getMax_toNat
  obtain ⟨storage, done, perm, rising⟩ := holds.sort order
  obtain ⟨offset, _, distance⟩ := @intptrOf_some ((target : Int) - range.start) (by omega) (by omega)
  have first := toUInt64_toNat_of_toInt same
  have last : (range.location + range.length - 1).toNat = range.stop - 1 := by
    rw [UInt64.toNat_sub_of_le _ _ (by
      rw [UInt64.le_iff_toNat_le]
      change 1 ≤ (rangeGetMax range).toNat
      omega)]
    change (rangeGetMax range).toNat - 1 = range.stop - 1
    omega
  have awayLength : (range.location - index.toUInt64).toNat = range.start - target := by
    rw [UInt64.toNat_sub_of_le _ _ (by rw [UInt64.le_iff_toNat_le]; omega), first, start]
  have awayProper : Range.Proper (rangeMake index.toUInt64 (range.location - index.toUInt64)) := by
    rw [Range.Proper, Range.stop, rangeMake, notFound_toNat]
    dsimp only
    omega
  have awayStart : Range.start (rangeMake index.toUInt64 (range.location - index.toUInt64)) =
    target := first
  have awayStop : Range.stop (rangeMake index.toUInt64 (range.location - index.toUInt64)) =
      range.start := by
    rw [Range.stop, rangeMake]
    dsimp only
    omega
  have length := @toInt64_toInt_small range.length (by omega)
  have negative : offset < 0 := (int64_neg_iff offset).mpr (by omega)
  obtain ⟨p, member, isFirst⟩ := there
  obtain ⟨next, moved, contents⟩ :=
    @assocMoveKeysFrom_keyTo callback compare { assoc with storage := storage, isSorted := true }
    intptrs (holds.of_perm order perm rising) rfl rising index.toUInt64
      (range.location + range.length - 1)
    (fun key => if rangeContainsLocation
      (rangeMake index.toUInt64 (range.location - index.toUInt64)) key then
      range.length.toInt64 else offset)
    (keyMovedDown range target) (by omega)
    (fun p _ outside => if_pos (by omega))
    (fun p _ lower upper => by
      simp only [rangeContainsLocation_iff awayProper, awayStart, awayStop]
      exact keyMovedDown_offset distance length (by omega) (by omega) below (by omega))
    ⟨p, perm.mem_iff.mpr member, UInt64.toNat_inj.mp (isFirst.trans first.symm)⟩
  refine ⟨next, storage, ?_, perm, rising, contents⟩
  rw [assocMove_sorted holds proper inside same (fun within => by
    rw [Range.locations, Set.mem_Ico] at within
    omega) distance done, assocKeyMove, if_pos negative]
  exact moved

theorem assocMove_up (order : KeyOrder compare)
    (intptrs : ∀ key other, callback.isEqual key other = (key == other))
    (holds : assoc.NaturalKeys compare) (proper : range.Proper)
    (inside : range.stop ≤ assoc.storage.length) {target : Nat} (same : index.toInt = target)
    (above : range.stop ≤ target) (small : target < 2 ^ 61)
    (there : ∃ p ∈ assoc.storage, p.key.toNat = range.start) :
    KeysGo assoc (keyMovedUp range target) (assocMoveIntptrKeyRange callback compare assoc
      range index) := by
  have startStop := proper.start_lt_stop
  have stop : range.stop = range.start + range.length.toNat := rfl
  have max := proper.getMax_toNat
  obtain ⟨storage, done, perm, rising⟩ := holds.sort order
  obtain ⟨offset, _, distance⟩ := @intptrOf_some ((target : Int) - range.start) (by omega) (by omega)
  obtain ⟨next, added, nextSame⟩ := @intptrOf_some (index.toInt + 1) (by omega) (by omega)
  have last := @toUInt64_toNat_of_toInt next (target + 1) (by omega)
  have awayLength : (next.toUInt64 - rangeGetMax range).toNat = target + 1 - range.stop := by
    rw [UInt64.toNat_sub_of_le _ _ (by rw [UInt64.le_iff_toNat_le]; omega), last, max]
  have awayProper : Range.Proper
      (rangeMake (rangeGetMax range) (next.toUInt64 - rangeGetMax range)) := by
    rw [Range.Proper, Range.stop, rangeMake, notFound_toNat]
    dsimp only
    omega
  have awayStart : Range.start (rangeMake (rangeGetMax range) (next.toUInt64 - rangeGetMax range)) =
    range.stop := max
  have awayStop : Range.stop (rangeMake (rangeGetMax range) (next.toUInt64 - rangeGetMax range)) =
      target + 1 := by
    rw [Range.stop, rangeMake]
    dsimp only
    omega
  have length := @toInt64_toInt_small range.length (by omega)
  have negated : (-range.length.toInt64).toInt = -range.length.toNat := by
    rw [Int64.toInt_neg, length]
    exact Int.bmod_eq_of_le (by omega) (by omega)
  have positive : ¬ offset < 0 := mt (int64_neg_iff offset).mp (by omega)
  obtain ⟨p, member, isFirst⟩ := there
  obtain ⟨final, moved, contents⟩ :=
    @assocMoveKeysFrom_keyTo callback compare { assoc with storage := storage, isSorted := true }
    intptrs (holds.of_perm order perm rising) rfl rising range.location next.toUInt64
    (fun key => if rangeContainsLocation
      (rangeMake (rangeGetMax range) (next.toUInt64 - rangeGetMax range)) key then
      -range.length.toInt64 else offset)
    (keyMovedUp range target) (by rw [Range.start] at startStop; omega)
    (fun p _ outside => if_pos (by rw [Range.start]; omega))
    (fun p _ lower upper => by
      simp only [rangeContainsLocation_iff awayProper, awayStart, awayStop]
      exact keyMovedUp_offset distance negated lower (Nat.le_trans upper (Nat.le_of_eq last)) above
        small)
    ⟨p, perm.mem_iff.mpr member, UInt64.toNat_inj.mp isFirst⟩
  refine ⟨final, storage, ?_, perm, rising, contents⟩
  rw [assocMove_sorted holds proper inside same (fun within => by
    rw [Range.locations, Set.mem_Ico] at within
    omega) distance done, assocKeyMove, if_neg positive, added]
  exact moved

theorem KeysGo.permutes (goes : KeysGo assoc keyTo result)
    (keys : (assoc.storage.map fun p => p.key.toNat).Perm (List.range' b assoc.storage.length))
    (right : MoveRight b assoc range result) :
    Set.BijOn keyTo (Set.Ico b (b + assoc.storage.length))
      (Set.Ico b (b + assoc.storage.length)) := by
  obtain ⟨next, storage, result, perm, _, contents⟩ := goes
  obtain ⟨final, entries, wanted, finalResult, origin, finalContents, block⟩ := right
  rw [result] at finalResult
  rw [← Option.some.inj finalResult, contents] at finalContents
  have entriesPerm : entries.Perm assoc.storage := by
    rcases origin with rfl | ⟨entriesPerm, _⟩
    · exact List.Perm.refl _
    · exact entriesPerm
  have through : ∀ (into : Nat → Nat) (pairs : List Pointerpair), pairs.Perm assoc.storage →
      ((pairs.map fun p => (into p.key.toNat, p.value)).map Prod.fst).Perm
        ((List.range' b assoc.storage.length).map into) := by
    intro into pairs pairsPerm
    rw [List.map_map]
    have mapped := ((pairsPerm.map fun p => p.key.toNat).trans keys).map into
    rw [List.map_map] at mapped
    exact mapped
  have images := (through keyTo storage perm).symm
  rw [finalContents] at images
  exact (bijOn_iff_perm keyTo).mpr
    (images.trans ((through wanted entries entriesPerm).trans
      ((bijOn_iff_perm wanted).mp block.permutes)))

theorem KeysGo.moveRight (goes : KeysGo assoc keyTo result)
    (block : MovesBlock b assoc.storage.length range keyTo) : MoveRight b assoc range result := by
  obtain ⟨next, storage, result, perm, rising, contents⟩ := goes
  exact ⟨next, storage, keyTo, result, Or.inr ⟨perm, rising⟩, contents, block⟩

/-- A block is moved as it should be exactly where there is nothing to do, or it moves down, or it
is one key that goes to the end. -/
theorem assocMove_iff (order : KeyOrder compare)
    (intptrs : ∀ key other, callback.isEqual key other = (key == other))
    (holds : assoc.NaturalKeys compare)
    (keys : (assoc.storage.map fun p => p.key.toNat).Perm (List.range' b assoc.storage.length))
    (within : ∀ key ∈ range.locations, b ≤ key ∧ key < b + assoc.storage.length)
    (indexWithin : (b : Int) ≤ index.toInt ∧ index.toInt < b + assoc.storage.length)
    (outside : index.toInt.toNat ∉ range.locations) :
    MoveRight b assoc range (assocMoveIntptrKeyRange callback compare assoc range index) ↔
      range.length = 0 ∨ assoc.storage.length < range.stop ∨ index.toInt < range.start ∨
        (range.length = 1 ∧ index.toInt + 1 = b + assoc.storage.length) := by
  have unchanged : MoveRight b assoc range (some assoc) :=
    ⟨assoc, assoc.storage, fun key => key, rfl, Or.inl rfl, rfl, MovesBlock.id b _ range⟩
  have isKey : ∀ key, b ≤ key → key < b + assoc.storage.length →
      ∃ p ∈ assoc.storage, p.key.toNat = key := by
    intro key lower upper
    exact List.mem_map.mp (keys.mem_iff.mpr (List.mem_range'_1.mpr ⟨lower, upper⟩))
  by_cases empty : range.length = 0
  · rw [assocMoveIntptrKeyRange, if_pos (rangeValidateAgainstLength_empty empty)]
    exact iff_of_true unchanged (Or.inl empty)
  have nonempty : 0 < range.length.toNat :=
    Nat.pos_of_ne_zero (mt (length_eq_zero_iff range).mpr empty)
  have stop : range.stop = range.start + range.length.toNat := rfl
  obtain ⟨lower, _⟩ := within range.start (Set.mem_Ico.mpr (by omega))
  obtain ⟨_, upper⟩ := within (range.stop - 1) (Set.mem_Ico.mpr (by omega))
  obtain ⟨p, member, isLast⟩ := isKey (range.stop - 1) (by omega) upper
  have natural := holds.natural p member
  have fits := holds.fits
  by_cases inside : range.stop ≤ assoc.storage.length
  · have proper : range.Proper := ⟨nonempty, by rw [notFound_toNat]; omega⟩
    obtain ⟨target, same⟩ := Int.eq_ofNat_of_zero_le (show 0 ≤ index.toInt by omega)
    rw [same, Int.toNat_natCast, Range.locations, Set.mem_Ico] at outside
    rw [same] at indexWithin ⊢
    by_cases below : target < range.start
    · refine iff_of_true ?_ (Or.inr (Or.inr (Or.inl (by omega))))
      have goes := assocMove_down order intptrs holds proper inside same below
        (isKey target (by omega) (by omega))
      exact goes.moveRight (keyMovedDown_movesBlock (by omega) (by omega) below)
    · have goes := assocMove_up order intptrs holds proper inside same (by omega) (by omega)
        (isKey range.start lower (by omega))
      have single : range.length = 1 ↔ range.length.toNat = 1 := by
        rw [← UInt64.toNat_inj]
        rfl
      rw [or_iff_right empty, or_iff_right (by omega), or_iff_right (by omega), single]
      constructor
      · intro right
        by_contra wrong
        exact keyMovedUp_wrong nonempty lower (show range.stop ≤ target by omega)
          (by omega) (by omega) (goes.permutes keys right)
      · rintro ⟨one, last⟩
        exact goes.moveRight (keyMovedUp_movesBlock lower (by omega) one (by omega))
  · rw [assocMoveIntptrKeyRange, rangeValidateAgainstLength_stop (by omega), holds.countWord,
      if_neg inside]
    exact iff_of_true unchanged (Or.inr (Or.inl (by omega)))

def fourAssoc : Assoc := ⟨[⟨0, 10⟩, ⟨1, 11⟩, ⟨2, 12⟩, ⟨3, 13⟩], 4, false⟩

theorem fourAssoc_naturalKeys : fourAssoc.NaturalKeys pointerpairCompareIntptrKey where
  natural := by simp [fourAssoc]
  distinct := by decide
  sorted := fun sorted => absurd sorted (by decide)
  fits := by decide

theorem fourAssoc_keys : (fourAssoc.storage.map fun p => p.key.toNat) = List.range' 0 4 := rfl

theorem assocMove_iff_four :
    MoveRight 0 fourAssoc ⟨2, 2⟩
      (assocMoveIntptrKeyRange pointerKeycallback pointerpairCompareIntptrKey fourAssoc ⟨2, 2⟩ 0) ↔
      (2 : UInt64) = 0 ∨ fourAssoc.storage.length < Range.stop ⟨2, 2⟩ ∨
      (0 : Int64).toInt < Range.start ⟨2, 2⟩ ∨
        ((2 : UInt64) = 1 ∧ (0 : Int64).toInt + 1 = (0 : Nat) + fourAssoc.storage.length) := by
  have start : Range.start ⟨2, 2⟩ = 2 := rfl
  have stop : Range.stop ⟨2, 2⟩ = 4 := rfl
  refine assocMove_iff pointerpairCompareIntptrKey_keyOrder (fun _ _ => rfl) fourAssoc_naturalKeys
    (List.Perm.of_eq fourAssoc_keys) ?_ (by decide) ?_
  · intro key inside
    rw [Range.locations, Set.mem_Ico, start, stop] at inside
    change 0 ≤ key ∧ key < 0 + 4
    omega
  · rw [Range.locations, Set.mem_Ico, start]
    exact fun inside => absurd inside.1 (by decide)

/-- A key that moves up, but not to the end, drives the key behind the target out. -/
theorem assocMove_four_wrong :
    KeyOrder pointerpairCompareIntptrKey ∧ fourAssoc.NaturalKeys pointerpairCompareIntptrKey ∧
      (fourAssoc.storage.map fun p => p.key.toNat) = List.range' 0 4 ∧
      ¬ MoveRight 0 fourAssoc ⟨0, 1⟩
        (assocMoveIntptrKeyRange pointerKeycallback pointerpairCompareIntptrKey fourAssoc
          ⟨0, 1⟩ 2) := by
  refine ⟨pointerpairCompareIntptrKey_keyOrder, fourAssoc_naturalKeys, fourAssoc_keys,
    fun right => ?_⟩
  have goes := @assocMove_up pointerKeycallback pointerpairCompareIntptrKey fourAssoc ⟨0, 1⟩ 2
    pointerpairCompareIntptrKey_keyOrder (fun _ _ => rfl) fourAssoc_naturalKeys (by decide)
      (by decide) 2 rfl (by decide) (by decide)
    ⟨⟨0, 10⟩, by decide, rfl⟩
  exact @keyMovedUp_wrong ⟨0, 1⟩ 0 4 (by decide) (by decide) 2 (by decide) (by decide) (by decide)
    (goes.permutes (List.Perm.of_eq fourAssoc_keys) right)

end Move

end MulleCore
