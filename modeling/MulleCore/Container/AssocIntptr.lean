import Mathlib.Algebra.BigOperators.Group.Multiset.Basic
import Mathlib.Tactic.Ring
import MulleCore.Data.Intptr
import MulleCore.Container.AssocRefines

/-!
`_mulle__assoc_remap_intptr_key_range` and `_mulle__assoc_move_intptr_key_range`, for callbacks
whose `is_equal` is the one that the code asserts.
-/

namespace MulleCore

open Library

def pointerpairCompareIntptrKey (a b : Pointerpair) : Int :=
  (if a.key.toInt64 > b.key.toInt64 then 1 else 0) - (if a.key.toInt64 < b.key.toInt64 then 1 else 0)

/-- The loop over the pairs from `p` on: up to the first that is past the end each key is moved. -/
def assocMoveKeys (past : Pointer → Bool) (offsetOf : Pointer → Int64) :
    List Pointerpair → Option (List Pointerpair)
  | [] => some []
  | p :: rest =>
    if past p.key then some (p :: rest)
    else do
      let value ← intptrOf (p.key.toInt64.toInt + (offsetOf p.key).toInt)
      let moved ← assocMoveKeys past offsetOf rest
      some ({ p with key := value.toUInt64 } :: moved)

section Assocs

variable (callback : Keycallback) (compare : Pointerpair → Pointerpair → Int)

def assocFind (assoc : Assoc) (key : Pointer) : Option (Assoc × Option Nat) := do
  let assoc ← assocQsortIfNeeded compare assoc
  let index ← assocFindInRangeUnsorted callback assoc key (rangeMake 0 0xffffffffffffffff)
  some (assoc, index)

def assocMoveKeysFrom (assoc : Assoc) (first : Pointer) (past : Pointer → Bool)
    (offsetOf : Pointer → Int64) :
    Option Assoc := do
  let (assoc, found) ← assocFind callback compare assoc first
  match found with
  | none => some assoc
  | some start =>
    let moved ← assocMoveKeys past offsetOf (assoc.storage.drop start)
    some { assoc with storage := assoc.storage.take start ++ moved, isSorted := false }

def assocRemapIntptrKeyRange (assoc : Assoc) (range : Range) (offset : Int64) : Option Assoc :=
  let range := rangeValidateAgainstLength range (UInt64.ofNat assoc.storage.length)
  if range.length = 0 then some assoc
  else do
    let assoc ← assocQsortIfNeeded compare assoc
    assocMoveKeysFrom callback compare assoc range.location
      (fun key => decide (key ≥ rangeGetMax range)) fun _ => offset

structure KeyMove where
  away : Range
  awayOffset : Int64
  first : Pointer
  last : Pointer

def assocKeyMove (range : Range) (index offset : Int64) : Option KeyMove :=
  if offset < 0 then
    some ⟨rangeMake index.toUInt64 (range.location - index.toUInt64), range.length.toInt64,
      index.toUInt64, range.location + range.length - 1⟩
  else do
    let next ← intptrOf (index.toInt + 1)
    some ⟨rangeMake (rangeGetMax range) (next.toUInt64 - rangeGetMax range), -range.length.toInt64,
      range.location, next.toUInt64⟩

def assocMoveIntptrKeyRange (assoc : Assoc) (range : Range) (index : Int64) : Option Assoc :=
  let range := rangeValidateAgainstLength range (UInt64.ofNat assoc.storage.length)
  if range.length = 0 then some assoc
  else if rangeContainsLocation range index.toUInt64 then some assoc
  else do
    let assoc ← assocQsortIfNeeded compare assoc
    let offset ← intptrOf (index.toInt - range.location.toInt64.toInt)
    let move ← assocKeyMove range index offset
    assocMoveKeysFrom callback compare assoc move.first (fun key => decide (key > move.last))
      fun key =>
      if rangeContainsLocation move.away key then move.awayOffset else offset

end Assocs

structure KeyOrder (compare : Pointerpair → Pointerpair → Int) : Prop where
  order : TotalCompare compare
  natural : ∀ a b : Pointerpair, a.key.toNat < 2 ^ 63 → b.key.toNat < 2 ^ 63 →
    (compare a b ≤ 0 ↔ a.key.toNat ≤ b.key.toNat)

structure Assoc.NaturalKeys (compare : Pointerpair → Pointerpair → Int) (assoc : Assoc) : Prop where
  natural : ∀ p ∈ assoc.storage, p.key.toNat < 2 ^ 63
  distinct : (assoc.storage.map Pointerpair.key).Nodup
  sorted : assoc.isSorted = true → assoc.storage.Pairwise fun one other => compare one other ≤ 0
  fits : 16 * assoc.storage.length ≤ 2 ^ 64

section Order

theorem pointerpairCompareIntptrKey_sign (a b : Pointerpair) :
    (pointerpairCompareIntptrKey a b < 0 ↔ a.key.toInt64.toInt < b.key.toInt64.toInt) ∧
      (pointerpairCompareIntptrKey a b = 0 ↔ a.key.toInt64.toInt = b.key.toInt64.toInt) := by
  unfold pointerpairCompareIntptrKey
  simp only [gt_iff_lt, Int64.lt_iff_toInt_lt]
  split_ifs <;> omega

theorem pointerpairCompareIntptrKey_keyOrder : KeyOrder pointerpairCompareIntptrKey where
  order := by
    constructor
    · intro left right
      have forth := pointerpairCompareIntptrKey_sign left right
      have back := pointerpairCompareIntptrKey_sign right left
      omega
    · intro left middle right first second
      have one := pointerpairCompareIntptrKey_sign left middle
      have two := pointerpairCompareIntptrKey_sign middle right
      have across := pointerpairCompareIntptrKey_sign left right
      omega
  natural := by
    intro a b aNatural bNatural
    have sign := pointerpairCompareIntptrKey_sign a b
    have aInt := toInt64_toInt a.key
    have bInt := toInt64_toInt b.key
    rw [if_pos aNatural] at aInt
    rw [if_pos bNatural] at bInt
    omega

end Order

section Loop

variable {past : Pointer → Bool} {offsetOf : Pointer → Int64} {moved : Pointerpair → Pointerpair}

theorem assocMoveKeys_split {storage : List Pointerpair}
    (closed : storage.Pairwise fun one other => past one.key = true → past other.key = true)
    (moves : ∀ p ∈ storage, past p.key = false → ∃ value,
      intptrOf (p.key.toInt64.toInt + (offsetOf p.key).toInt) = some value ∧
      moved p = { p with key := value.toUInt64 }) :
    assocMoveKeys past offsetOf storage = some (storage.map fun p => if past p.key then p
      else moved p) := by
  induction storage with
  | nil => rfl
  | cons p rest ih =>
    obtain ⟨firstClosed, restClosed⟩ := List.pairwise_cons.mp closed
    by_cases ended : past p.key = true
    · have all : (p :: rest).map (fun p => if past p.key then p else moved p) = p :: rest := by
        refine List.map_congr_left (g := id) (fun other member => ?_) |>.trans (List.map_id _)
        rcases List.mem_cons.mp member with rfl | later
        · exact if_pos ended
        · exact if_pos (firstClosed other later ended)
      rw [all, assocMoveKeys, if_pos ended]
    · obtain ⟨value, added, isMoved⟩ := moves p List.mem_cons_self (by simpa using ended)
      rw [assocMoveKeys, if_neg ended, added,
        ih restClosed fun other member => moves other (List.mem_cons_of_mem p member),
        List.map_cons, if_neg ended, isMoved]
      rfl

end Loop

section Sorted

variable {callback : Keycallback} {compare : Pointerpair → Pointerpair → Int} {assoc : Assoc}

theorem Assoc.NaturalKeys.countWord (holds : assoc.NaturalKeys compare) :
    (UInt64.ofNat assoc.storage.length).toNat = assoc.storage.length :=
  UInt64.toNat_ofNat_of_lt' (by
    have fits := holds.fits
    have size : UInt64.size = 2 ^ 64 := rfl
    omega)

theorem Assoc.NaturalKeys.sort (holds : assoc.NaturalKeys compare) (order : KeyOrder compare) :
    ∃ storage, assocQsortIfNeeded compare assoc =
      some { assoc with storage := storage, isSorted := true } ∧
      storage.Perm assoc.storage ∧ storage.Pairwise fun one other => one.key.toNat <
        other.key.toNat := by
  obtain ⟨storage, done, perm, sorted⟩ := assocQsortIfNeeded_some order.order holds.sorted
  have distinct : (storage.map Pointerpair.key).Nodup := (perm.map _).nodup_iff.mpr holds.distinct
  refine ⟨storage, done, perm, (sorted.and (List.pairwise_map.mp distinct)).imp_of_mem ?_⟩
  rintro one other oneMember otherMember ⟨below, apart⟩
  have natural := (order.natural one other (holds.natural one (perm.mem_iff.mp oneMember))
    (holds.natural other (perm.mem_iff.mp otherMember))).mp below
  have differ : one.key.toNat ≠ other.key.toNat := fun same => apart (UInt64.toNat_inj.mp same)
  omega

theorem Assoc.NaturalKeys.of_perm (holds : assoc.NaturalKeys compare) (order : KeyOrder compare)
    {storage : List Pointerpair} (perm : storage.Perm assoc.storage)
    (rising : storage.Pairwise fun one other => one.key.toNat < other.key.toNat) :
    Assoc.NaturalKeys compare { assoc with storage := storage, isSorted := true } where
  natural := fun p member => holds.natural p (perm.mem_iff.mp member)
  distinct := (perm.map _).nodup_iff.mpr holds.distinct
  sorted := fun _ => rising.imp_of_mem fun {one other} oneMember otherMember below =>
    (order.natural one other (holds.natural one (perm.mem_iff.mp oneMember))
      (holds.natural other (perm.mem_iff.mp otherMember))).mpr (Nat.le_of_lt below)
  fits := by
    have fits := holds.fits
    rw [← perm.length_eq] at fits
    exact fits

theorem assocFind_sorted (intptrs : ∀ key other, callback.isEqual key other = (key == other))
    (holds : assoc.NaturalKeys compare) (sorted : assoc.isSorted = true) {key : Pointer}
    (isKey : key ≠ notAPointer) :
    assocFind callback compare assoc key =
      some (assoc, assoc.storage.findIdx? fun p => p.key == key) := by
  rw [assocFind, assocQsortIfNeeded, if_pos sorted]
  simp only [Option.bind_eq_bind, Option.bind_some, assocFindInRangeUnsorted_all holds.countWord
    isKey, intptrs]

variable {past : Pointer → Bool} {offsetOf : Pointer → Int64} {moved : Pointerpair → Pointerpair}
  {first : Pointer}

theorem assocMoveKeysFrom_found (intptrs : ∀ key other, callback.isEqual key other = (key == other))
    (holds : assoc.NaturalKeys compare) (sorted : assoc.isSorted = true) (isKey : first ≠ notAPointer)
    (rising : assoc.storage.Pairwise fun one other => one.key.toNat < other.key.toNat)
    (upward : ∀ key other : Pointer, key.toNat ≤ other.toNat → past key = true → past other = true)
    (moves : ∀ p ∈ assoc.storage, first.toNat ≤ p.key.toNat → past p.key = false →
      ∃ value, intptrOf (p.key.toInt64.toInt + (offsetOf p.key).toInt) = some value ∧
        moved p = { p with key := value.toUInt64 })
    (there : ∃ p ∈ assoc.storage, p.key = first) :
    assocMoveKeysFrom callback compare assoc first past offsetOf =
      some { assoc with
        storage := assoc.storage.map fun p => if first.toNat ≤ p.key.toNat ∧ past p.key = false then
          moved p else p
        isSorted := false } := by
  obtain ⟨p, member, isFirst⟩ := there
  obtain ⟨start, found⟩ : ∃ start, (assoc.storage.findIdx? fun p => p.key == first) = some start := by
    rw [← Option.isSome_iff_exists, List.findIdx?_isSome, List.any_eq_true]
    exact ⟨p, member, beq_iff_eq.mpr isFirst⟩
  obtain ⟨inside, here, _⟩ := List.findIdx?_eq_some_iff_getElem.mp found
  rw [beq_iff_eq] at here
  have parts := List.take_append_drop start assoc.storage
  have next : assoc.storage.drop start = assoc.storage[start] :: assoc.storage.drop (start + 1) :=
    List.drop_eq_getElem_cons inside
  rw [← parts, next] at rising
  obtain ⟨_, dropRising, across⟩ := List.pairwise_append.mp rising
  obtain ⟨above, _⟩ := List.pairwise_cons.mp dropRising
  rw [← next] at dropRising
  have below : ∀ other ∈ assoc.storage.take start, other.key.toNat < first.toNat := by
    intro other early
    rw [← here]
    exact across other early _ List.mem_cons_self
  have atLeast : ∀ other ∈ assoc.storage.drop start, first.toNat ≤ other.key.toNat := by
    intro other late
    rw [next] at late
    rcases List.mem_cons.mp late with rfl | later
    · exact Nat.le_of_eq (congrArg UInt64.toNat here.symm)
    · rw [← here]
      exact Nat.le_of_lt (above other later)
  have looped := @assocMoveKeys_split past offsetOf moved (assoc.storage.drop start)
    (dropRising.imp fun order => upward _ _ (Nat.le_of_lt order))
    fun other late => moves other (List.mem_of_mem_drop late) (atLeast other late)
  have unmoved : assoc.storage.take start =
      (assoc.storage.take start).map fun p => if first.toNat ≤ p.key.toNat ∧ past p.key = false then
        moved p else p := by
    refine (List.map_id _).symm.trans (List.map_congr_left fun other early => (if_neg ?_).symm)
    have lower := below other early
    omega
  have shifted : ((assoc.storage.drop start).map fun p => if past p.key then p else moved p) =
      (assoc.storage.drop start).map fun p => if first.toNat ≤ p.key.toNat ∧ past p.key = false then
        moved p else p := by
    refine List.map_congr_left fun other late => ?_
    by_cases ended : past other.key = true
    · simp [ended]
    · simp [ended, atLeast other late]
  have whole : (assoc.storage.map fun p => if first.toNat ≤ p.key.toNat ∧ past p.key = false then
    moved p else p) =
      assoc.storage.take start ++ (assoc.storage.drop start).map fun p => if past p.key then
        p else moved p := by
    rw [shifted]
    conv_rhs => rw [unmoved]
    rw [← List.map_append, parts]
  rw [assocMoveKeysFrom, assocFind_sorted intptrs holds sorted isKey, found, whole]
  simp only [Option.bind_eq_bind, Option.bind_some, looped]

theorem assocMoveKeysFrom_missing (intptrs : ∀ key other, callback.isEqual key other = (key == other))
    (holds : assoc.NaturalKeys compare) (sorted : assoc.isSorted = true) (isKey : first ≠ notAPointer)
    (missing : ∀ p ∈ assoc.storage, p.key ≠ first) :
    assocMoveKeysFrom callback compare assoc first past offsetOf = some assoc := by
  have notFound : (assoc.storage.findIdx? fun p => p.key == first) = none :=
    List.findIdx?_eq_none_iff.mpr fun p member => beq_false_of_ne (missing p member)
  rw [assocMoveKeysFrom, assocFind_sorted intptrs holds sorted isKey, notFound]
  rfl

end Sorted

section Remap

variable {callback : Keycallback} {compare : Pointerpair → Pointerpair → Int} {assoc : Assoc}
  {range : Range} {offset : Int64}

def Pointerpair.entry (p : Pointerpair) : Int × Pointer := (p.key.toInt64.toInt, p.value)

def Assoc.entries (assoc : Assoc) : Multiset (Int × Pointer) :=
  (assoc.storage.map Pointerpair.entry : Multiset _)

def Range.has (range : Range) (key : Int) : Bool :=
  decide ((range.start : Int) ≤ key ∧ key < range.stop)

def offsetEntry (range : Range) (offset : Int) (entry : Int × Pointer) : Int × Pointer :=
  if range.has entry.1 then (entry.1 + offset, entry.2) else entry

def RemapRight (assoc : Assoc) (range : Range) (offset : Int64) (result : Option Assoc) : Prop :=
  ∃ next, result = some next ∧ next.entries = assoc.entries.map (offsetEntry range offset.toInt)

theorem Assoc.entries_perm {next : Assoc} (perm : next.storage.Perm assoc.storage) :
    next.entries = assoc.entries :=
  Multiset.coe_eq_coe.mpr (perm.map _)

theorem sum_offsetEntry (range : Range) (offset : Int) (entries : Multiset (Int × Pointer)) :
    ((entries.map (offsetEntry range offset)).map Prod.fst).sum =
      (entries.map Prod.fst).sum +
        (entries.countP fun entry => range.has entry.1 = true) * offset := by
  induction entries using Multiset.induction with
  | empty => simp
  | cons entry rest ih =>
    simp only [Multiset.map_cons, Multiset.sum_cons, Multiset.countP_cons, ih, offsetEntry]
    split
    · push_cast
      ring
    · push_cast
      ring

theorem entries_offset_iff (range : Range) (offset : Int) (entries : Multiset (Int × Pointer)) :
    entries = entries.map (offsetEntry range offset) ↔
      offset = 0 ∨ ∀ entry ∈ entries, range.has entry.1 = false := by
  constructor
  · intro same
    have sums := sum_offsetEntry range offset entries
    rw [← same] at sums
    have product : ((entries.countP fun entry => range.has entry.1 = true : Nat) : Int) * offset =
      0 := by omega
    rcases Int.mul_eq_zero.mp product with none | zero
    · refine Or.inr fun entry member => ?_
      have absent := Multiset.countP_eq_zero.mp (Int.natCast_eq_zero.mp none) entry member
      simpa using absent
    · exact Or.inl zero
  · rintro (rfl | outside)
    · refine (Multiset.map_id' entries).symm.trans (Multiset.map_congr rfl fun entry _ => ?_)
      rw [offsetEntry, Int.add_zero, ite_self]
    · refine (Multiset.map_id' entries).symm.trans (Multiset.map_congr rfl fun entry member => ?_)
      rw [offsetEntry, outside entry member, if_neg Bool.false_ne_true]

theorem Range.has_key {p : Pointerpair} (natural : p.key.toNat < 2 ^ 63) :
    range.has p.entry.1 = true ↔ range.start ≤ p.key.toNat ∧ p.key.toNat < range.stop := by
  have value := toInt64_toInt p.key
  rw [if_pos natural] at value
  rw [Range.has, Pointerpair.entry, value, decide_eq_true_iff]
  omega

theorem rangeLocation_ne_notAPointer (small : range.location.toNat < 2 ^ 63) :
    range.location ≠ notAPointer := by
  intro same
  have large : notAPointer.toNat = 2 ^ 63 := rfl
  rw [same, large] at small
  exact Nat.lt_irrefl _ small

theorem assocRemap_found (order : KeyOrder compare)
    (intptrs : ∀ key other, callback.isEqual key other = (key == other))
    (holds : assoc.NaturalKeys compare) (proper : range.Proper)
    (inside : range.stop ≤ assoc.storage.length)
    (noOverflow : ∀ p ∈ assoc.storage, range.start ≤ p.key.toNat → p.key.toNat < range.stop →
      -2 ^ 63 ≤ (p.key.toNat : Int) + offset.toInt ∧ (p.key.toNat : Int) + offset.toInt < 2 ^ 63)
    (there : ∃ p ∈ assoc.storage, p.key = range.location) :
    RemapRight assoc range offset (assocRemapIntptrKeyRange callback compare assoc range offset) := by
  have greatest := proper.2
  rw [notFound_toNat] at greatest
  have max := proper.getMax_toNat
  have startStop := proper.start_lt_stop
  obtain ⟨storage, done, perm, rising⟩ := holds.sort order
  have sortedHolds := holds.of_perm order perm rising
  have nonempty : range.length ≠ 0 := fun empty => absurd proper.1 (by simp [empty])
  obtain ⟨p, member, isFirst⟩ := there
  have value : ∀ p ∈ storage, p.key.toInt64.toInt = p.key.toNat := by
    intro p member
    rw [toInt64_toInt, if_pos (holds.natural p (perm.mem_iff.mp member))]
  have moved := @assocMoveKeysFrom_found callback compare
    { assoc with storage := storage, isSorted := true }
    (fun key => decide (key ≥ rangeGetMax range)) (fun _ => offset)
    (fun p => { p with key := (Int64.ofInt (p.key.toInt64.toInt + offset.toInt)).toUInt64 })
      range.location intptrs sortedHolds
    rfl (rangeLocation_ne_notAPointer (by rw [Range.start] at startStop; omega)) rising
    (fun key other below past => by
      simp only [ge_iff_le, UInt64.le_iff_toNat_le, decide_eq_true_iff] at past ⊢
      omega)
    (fun p member lower notPast => by
      simp only [ge_iff_le, UInt64.le_iff_toNat_le, decide_eq_false_iff_not, max] at notPast
      have bounds := noOverflow p (perm.mem_iff.mp member) lower (by omega)
      rw [← value p member] at bounds
      obtain ⟨word, added, same⟩ := intptrOf_some bounds.1 bounds.2
      refine ⟨word, added, ?_⟩
      rw [← same, Int64.ofInt_toInt])
    ⟨p, perm.mem_iff.mpr member, isFirst⟩
  refine ⟨_, Eq.trans ?_ moved, ?_⟩
  · rw [assocRemapIntptrKeyRange, rangeValidateAgainstLength_stop (by omega), holds.countWord,
      if_pos inside, if_neg nonempty, done]
    rfl
  · rw [← @Assoc.entries_perm assoc { assoc with storage := storage, isSorted := true } perm]
    simp only [Assoc.entries, Multiset.map_coe, List.map_map]
    refine congrArg _ (List.map_congr_left fun p member => ?_)
    have natural := holds.natural p (perm.mem_iff.mp member)
    have has := @Range.has_key range p natural
    have past : decide (p.key ≥ rangeGetMax range) = false ↔ p.key.toNat < range.stop := by
      rw [decide_eq_false_iff_not, ge_iff_le, UInt64.le_iff_toNat_le, max]
      omega
    simp only [Function.comp_apply, past, offsetEntry, has, Range.start]
    by_cases within : range.location.toNat ≤ p.key.toNat ∧ p.key.toNat < range.stop
    · have bounds := noOverflow p (perm.mem_iff.mp member) within.1 within.2
      rw [← value p member] at bounds
      rw [if_pos within, if_pos within, Pointerpair.entry, Pointerpair.entry, Int64.toInt64_toUInt64,
        Int64.toInt_ofInt_of_le bounds.1 bounds.2]
    · rw [if_neg within, if_neg within]

theorem assocRemap_unmoved (order : KeyOrder compare)
    (intptrs : ∀ key other, callback.isEqual key other = (key == other))
    (holds : assoc.NaturalKeys compare) (proper : range.Proper)
    (missed : ¬ (range.stop ≤ assoc.storage.length ∧ ∃ p ∈ assoc.storage, p.key = range.location)) :
    ∃ next, assocRemapIntptrKeyRange callback compare assoc range offset = some next ∧
      next.entries = assoc.entries := by
  have greatest := proper.2
  rw [notFound_toNat] at greatest
  have startStop := proper.start_lt_stop
  have nonempty : range.length ≠ 0 := fun empty => absurd proper.1 (by simp [empty])
  rw [assocRemapIntptrKeyRange, rangeValidateAgainstLength_stop (by omega), holds.countWord]
  by_cases inside : range.stop ≤ assoc.storage.length
  · obtain ⟨storage, done, perm, rising⟩ := holds.sort order
    refine ⟨_, ?_, @Assoc.entries_perm assoc { assoc with storage := storage, isSorted := true } perm⟩
    rw [if_pos inside, if_neg nonempty, done]
    refine assocMoveKeysFrom_missing intptrs (holds.of_perm order perm rising) rfl
      (rangeLocation_ne_notAPointer (by rw [Range.start] at startStop; omega)) fun p member same => ?_
    exact missed ⟨inside, p, perm.mem_iff.mp member, same⟩
  · rw [if_neg inside]
    exact ⟨assoc, rfl, rfl⟩

/-- The keys are remapped exactly where there is nothing to do or the range ends among the indexes
and begins with a key. -/
theorem assocRemap_iff (order : KeyOrder compare)
    (intptrs : ∀ key other, callback.isEqual key other = (key == other))
    (holds : assoc.NaturalKeys compare) (valid : rangeIsValid range = true)
    (noOverflow : ∀ p ∈ assoc.storage, range.start ≤ p.key.toNat → p.key.toNat < range.stop →
      -2 ^ 63 ≤ (p.key.toNat : Int) + offset.toInt ∧ (p.key.toNat : Int) + offset.toInt < 2 ^ 63) :
    RemapRight assoc range offset (assocRemapIntptrKeyRange callback compare assoc range offset) ↔
      offset = 0 ∨ (∀ p ∈ assoc.storage, p.key.toNat ∉ range.locations) ∨
        (range.stop ≤ assoc.storage.length ∧ ∃ p ∈ assoc.storage, p.key = range.location) := by
  have unmoved : (assoc.entries = assoc.entries.map (offsetEntry range offset.toInt)) ↔
      offset = 0 ∨ ∀ p ∈ assoc.storage, p.key.toNat ∉ range.locations := by
    have zero : offset.toInt = 0 ↔ offset = 0 := by
      rw [← Int64.toInt_inj]
      rfl
    rw [entries_offset_iff, zero]
    refine or_congr_right ⟨fun outside p member inside => ?_, fun outside entry member => ?_⟩
    · have absent := outside p.entry (Multiset.mem_coe.mpr (List.mem_map_of_mem member))
      rw [(Range.has_key (holds.natural p member)).mpr inside] at absent
      contradiction
    · obtain ⟨p, stored, rfl⟩ := List.mem_map.mp (Multiset.mem_coe.mp member)
      by_contra has
      exact outside p stored ((Range.has_key (holds.natural p stored)).mp (by simpa using has))
  rw [← or_assoc, ← unmoved]
  by_cases empty : range.length = 0
  · have nothing : assocRemapIntptrKeyRange callback compare assoc range offset = some assoc := by
      rw [assocRemapIntptrKeyRange, if_pos (rangeValidateAgainstLength_empty empty)]
    have same : assoc.entries = assoc.entries.map (offsetEntry range offset.toInt) := by
      refine unmoved.mpr (Or.inr fun p _ inside => ?_)
      have bounds := Set.mem_Ico.mp inside
      rw [length_eq_zero_iff] at empty
      rw [Range.start, Range.stop] at bounds
      omega
    exact iff_of_true ⟨assoc, nothing, same⟩ (Or.inl same)
  · have proper := (range_proper_iff range).mpr ⟨empty, valid⟩
    by_cases found : range.stop ≤ assoc.storage.length ∧ ∃ p ∈ assoc.storage, p.key = range.location
    · exact iff_of_true (assocRemap_found order intptrs holds proper found.1 noOverflow found.2)
        (Or.inr found)
    · obtain ⟨next, result, same⟩ :=
        @assocRemap_unmoved callback compare assoc range offset order intptrs holds proper found
      rw [or_iff_left found]
      constructor
      · rintro ⟨final, remapped, right⟩
        rw [result] at remapped
        rw [← Option.some.inj remapped, same] at right
        exact right
      · intro equal
        exact ⟨next, result, same.trans equal⟩

def gapAssoc : Assoc := ⟨[⟨0, 10⟩, ⟨2, 12⟩, ⟨3, 13⟩], 4, false⟩

theorem gapAssoc_naturalKeys : gapAssoc.NaturalKeys pointerpairCompareIntptrKey where
  natural := by simp [gapAssoc]
  distinct := by decide
  sorted := fun sorted => absurd sorted (by decide)
  fits := by decide

theorem assocRemap_iff_gap :
    RemapRight gapAssoc ⟨2, 1⟩ 5
        (assocRemapIntptrKeyRange pointerKeycallback pointerpairCompareIntptrKey gapAssoc ⟨2, 1⟩ 5) ↔
      (5 : Int64) = 0 ∨ (∀ p ∈ gapAssoc.storage, p.key.toNat ∉ Range.locations ⟨2, 1⟩) ∨
        (Range.stop ⟨2, 1⟩ ≤ gapAssoc.storage.length ∧ ∃ p ∈ gapAssoc.storage, p.key = 2) :=
  assocRemap_iff pointerpairCompareIntptrKey_keyOrder (fun _ _ => rfl) gapAssoc_naturalKeys
    (by decide) (by
    have five : (5 : Int64).toInt = 5 := rfl
    have stop : Range.stop ⟨2, 1⟩ = 3 := rfl
    intro p _ _ below
    rw [five]
    omega)

/-- The range begins in the gap, so key 2 is not moved. -/
theorem assocRemap_gap_wrong :
    KeyOrder pointerpairCompareIntptrKey ∧ gapAssoc.NaturalKeys pointerpairCompareIntptrKey ∧
      ¬ RemapRight gapAssoc ⟨1, 2⟩ 5
        (assocRemapIntptrKeyRange pointerKeycallback pointerpairCompareIntptrKey gapAssoc
          ⟨1, 2⟩ 5) := by
  refine ⟨pointerpairCompareIntptrKey_keyOrder, gapAssoc_naturalKeys, ?_⟩
  obtain ⟨next, result, same⟩ := @assocRemap_unmoved pointerKeycallback pointerpairCompareIntptrKey
    gapAssoc ⟨1, 2⟩ 5
    pointerpairCompareIntptrKey_keyOrder (fun _ _ => rfl) gapAssoc_naturalKeys (by decide) (by decide)
  rintro ⟨final, remapped, right⟩
  rw [result] at remapped
  rw [← Option.some.inj remapped, same] at right
  rcases (entries_offset_iff _ _ _).mp right with zero | outside
  · contradiction
  · exact absurd (outside (2, 12) (by decide)) (by decide)

end Remap

end MulleCore
