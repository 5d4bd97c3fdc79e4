import Mathlib.Algebra.Ring.Nat
import MulleCore.Data.Range
import MulleCore.Container.ProbeTable

/-!
The search of `mulle--array.c`. The pointers from `_storage` to `_curr` are a list.
-/

namespace MulleCore

structure MulleArray where
  storage : List Pointer
  fits : 8 * storage.length < 2 ^ 64

/-- A loop over `left` items from `p` on. An outer `none` stands for a read behind the storage, an
inner one for `mulle_not_found_e`. -/
def arrayScan (test : Pointer → Bool) (storage : List Pointer) : Nat → Nat → Option (Option Nat)
  | 0, _ => some none
  | left + 1, p => do
      let item ← storage[p]?
      if test item then some (some p) else arrayScan test storage left (p + 1)

def arrayFindInRange (callback : Keycallback) (array : MulleArray) (obj : Pointer) (range : Range) :
    Option (Option Nat) :=
  let range := rangeValidateAgainstLength range (UInt64.ofNat array.storage.length)
  let quick := if range.length < 32 then range.length else 32
  match arrayScan (fun item => item == obj) array.storage quick.toNat range.location.toNat with
  | none => none
  | some (some index) => some (some index)
  | some none =>
    arrayScan (callback.isEqual obj) array.storage range.length.toNat range.location.toNat

def FirstAt (test : Pointer → Bool) (storage : List Pointer) (start stop : Nat) : Option Nat → Prop
  | none =>
    ∀ index item, start ≤ index → index < stop → storage[index]? = some item → test item = false
  | some found =>
    start ≤ found ∧ found < stop ∧ (∃ item, storage[found]? = some item ∧ test item = true) ∧
      ∀ index item, start ≤ index → index < found → storage[index]? = some item → test item = false

/-- Where `obj` itself is among the first 32 of the range, no other item equal to it comes before
its first place. -/
def NotOvertaken (callback : Keycallback) (storage : List Pointer) (obj : Pointer) (range : Range) :
    Prop :=
  ∀ first, range.start ≤ first → first < range.start + min 32 range.length.toNat →
    storage[first]? = some obj →
    (∀ index, range.start ≤ index → index < first → storage[index]? ≠ some obj) →
    ∀ index item, range.start ≤ index → index < first → storage[index]? = some item →
      callback.isEqual obj item = false

section Find

variable {test : Pointer → Bool} {storage : List Pointer} {start stop : Nat}

theorem arrayScan_first (left start : Nat) (inside : start + left ≤ storage.length) :
    ∃ found, arrayScan test storage left start = some found ∧
      FirstAt test storage start (start + left) found := by
  induction left generalizing start with
  | zero =>
    refine ⟨none, rfl, ?_⟩
    intro index item from_start before
    omega
  | succ left ih =>
    have here := List.getElem?_eq_getElem (show start < storage.length by omega)
    obtain ⟨found, scanned, first⟩ := ih (start + 1) (by omega)
    rw [arrayScan, here]
    by_cases passes : test storage[start] = true
    · refine ⟨some start, if_pos passes, Nat.le_refl _, by omega, ⟨_, here, passes⟩, ?_⟩
      intro index item from_start before
      omega
    · refine ⟨found, (if_neg passes).trans scanned, ?_⟩
      have earlier : ∀ index item, start ≤ index → index < start + 1 → storage[index]? = some item →
          test item = false := by
        intro index item from_start before itemAt
        obtain rfl : index = start := by omega
        rw [here, Option.some.injEq] at itemAt
        rw [← itemAt]
        exact Bool.eq_false_of_not_eq_true passes
      cases found with
      | none =>
        intro index item from_start before itemAt
        rcases Nat.lt_or_ge index (start + 1) with now | later
        · exact earlier index item from_start now itemAt
        · exact first index item later (by omega) itemAt
      | some found =>
        obtain ⟨behind, before, passing, rest⟩ := first
        refine ⟨by omega, by omega, passing, ?_⟩
        intro index item from_start sooner itemAt
        rcases Nat.lt_or_ge index (start + 1) with now | later
        · exact earlier index item from_start now itemAt
        · exact rest index item later sooner itemAt

theorem rangeValidateAgainstLength_of_inside {range : Range} {length : Nat}
    (inside : range.stop ≤ length) (fits : length < 2 ^ 64 - 1) :
    rangeValidateAgainstLength range (UInt64.ofNat length) = range := by
  have size : UInt64.size = 2 ^ 64 := rfl
  have count : (UInt64.ofNat length).toNat = length := UInt64.toNat_ofNat_of_lt' (by omega)
  rw [Range.stop] at inside
  have notAll : range.length ≠ 0xffffffffffffffff := by
    intro all
    have most : range.length.toNat = 2 ^ 64 - 1 := by rw [all]; rfl
    omega
  have stop : (range.location + range.length).toNat = range.location.toNat + range.length.toNat := by
    rw [UInt64.toNat_add, Nat.mod_eq_of_lt (by omega)]
  rw [rangeValidateAgainstLength, if_neg notAll]
  refine if_neg ?_
  rw [not_or, gt_iff_lt, UInt64.lt_iff_toNat_lt, UInt64.lt_iff_toNat_lt, stop, count]
  omega

/-- The first item of the range that is equal to `obj` is found exactly if the first 32 pointers do
not lead past it. -/
theorem arrayFindInRange_iff (callback : Keycallback) (equates : callback.Equates)
    (array : MulleArray) (obj : Pointer) (range : Range)
    (inside : range.stop ≤ array.storage.length) :
    ∃ found, arrayFindInRange callback array obj range = some found ∧
      (FirstAt (callback.isEqual obj) array.storage range.start range.stop found ↔
        NotOvertaken callback array.storage obj range) := by
  have fits := array.fits
  have quick : (if range.length < 32 then range.length else 32).toNat =
      min 32 range.length.toNat := by
    have shorter : range.length < 32 ↔ range.length.toNat < 32 := UInt64.lt_iff_toNat_lt
    split
    · rename_i less
      have below := shorter.mp less
      omega
    · rename_i more
      have above := mt shorter.mpr more
      change 32 = _
      omega
  have whole : range.start + range.length.toNat ≤ array.storage.length := inside
  obtain ⟨identical, quickScanned, quickFirst⟩ :=
    @arrayScan_first (fun item => item == obj) array.storage
    (min 32 range.length.toNat) range.start (by omega)
  obtain ⟨equal, scanned, first⟩ :=
    @arrayScan_first (callback.isEqual obj) array.storage range.length.toNat range.start whole
  rw [arrayFindInRange, rangeValidateAgainstLength_of_inside inside (by omega)]
  change _ = some _ at quickScanned
  simp only [quick]
  rw [Range.start] at quickScanned scanned
  rw [quickScanned]
  cases identical with
  | none =>
    refine ⟨equal, scanned, iff_of_true first ?_⟩
    intro place from_start early placed
    exact absurd (quickFirst place obj from_start early placed) (by simp)
  | some place =>
    obtain ⟨from_start, early, ⟨item, placed, same⟩, sooner⟩ := quickFirst
    rw [beq_iff_eq] at same
    subst same
    refine ⟨some place, rfl, ?_⟩
    constructor
    · rintro ⟨_, _, _, none⟩ other otherFrom otherEarly otherPlaced leading
      have notBehind : other ≤ place := by
        by_contra behind
        exact leading place from_start (Nat.lt_of_not_le behind) placed
      intro index found indexFrom before
      exact none index found indexFrom (Nat.lt_of_lt_of_le before notBehind)
    · intro notOvertaken
      have leading : ∀ index, range.start ≤ index → index < place →
          array.storage[index]? ≠ some item := by
        intro index indexFrom before there
        exact absurd (sooner index item indexFrom before there) (by simp)
      have stops : place < range.stop := by
        change place < range.start + range.length.toNat
        omega
      exact ⟨from_start, stops, ⟨item, placed, equates.refl item⟩,
        notOvertaken place from_start early placed leading⟩

def pairedKeycallback : Keycallback where
  hash := fun key => key >>> 1
  isEqual := fun key other => key >>> 1 == other >>> 1
  notakey := notAPointer

theorem pairedKeycallback_equates : pairedKeycallback.Equates where
  refl := fun _ => beq_self_eq_true _
  symm := fun _ _ equal => beq_iff_eq.mpr (beq_iff_eq.mp equal).symm
  trans := fun _ _ _ one other => beq_iff_eq.mpr ((beq_iff_eq.mp one).trans (beq_iff_eq.mp other))

theorem arrayFindInRange_iff_equal :
    ∃ found, arrayFindInRange pairedKeycallback ⟨[8, 5, 4], by decide⟩ 4 ⟨0, 2⟩ = some found ∧
      (FirstAt (pairedKeycallback.isEqual 4) [8, 5, 4] 0 2 found ↔
        NotOvertaken pairedKeycallback [8, 5, 4] 4 ⟨0, 2⟩) :=
  arrayFindInRange_iff pairedKeycallback pairedKeycallback_equates ⟨[8, 5, 4], by decide⟩ 4
    ⟨0, 2⟩ (by decide)

/-- The pointer itself is found, though one that is equal comes before it. -/
theorem arrayFindInRange_overtaken :
    pairedKeycallback.Equates ∧
      ¬ ∀ (array : MulleArray) (obj : Pointer) (range : Range), range.stop ≤ array.storage.length →
        ∃ found, arrayFindInRange pairedKeycallback array obj range = some found ∧
          FirstAt (pairedKeycallback.isEqual obj) array.storage range.start range.stop found := by
  refine ⟨pairedKeycallback_equates, fun finds => ?_⟩
  obtain ⟨found, result, first⟩ := finds ⟨[8, 5, 4], by decide⟩ 4 ⟨0, 3⟩ (by decide)
  have later : arrayFindInRange pairedKeycallback ⟨[8, 5, 4], by decide⟩ 4 ⟨0, 3⟩ =
    some (some 2) := by decide
  rw [later, Option.some.injEq] at result
  rw [← result] at first
  exact absurd (first.2.2.2 1 5 (by decide) (by decide) rfl) (by decide)

end Find

end MulleCore
