import MulleCore.Library.Records
import MulleCore.Data.RangeSearch
import MulleCore.Container.Pointermap
import MulleCore.Data.QsortSorts

/-!
`mulle--assoc.c`, with what it uses of `mulle--pointerpairarray.c` and
`mulle-pointerpair.h`. The pairs from `_storage` to `_curr` are a list; `size` pairs
have room. A result of `none` stands for a failed `assert`, an `int` that overflows or
an access outside of the storage. Where `is_equal` compares the pointers themselves the
code does so too, with the same outcome.
-/

namespace MulleCore

open Library

structure Assoc where
  storage : List Pointerpair
  size : Nat
  isSorted : Bool
deriving DecidableEq

def assocInit (capacity : Nat) : Assoc := ⟨[], capacity, false⟩

def pointerpairarrayGrow (size : Nat) : Nat :=
  let newSize := pow2roundup (size * 2)
  if newSize = 0 then 4 else newSize

def pointerpairarrayAdd (assoc : Assoc) (pair : Pointerpair) : Option Assoc :=
  let size := if assoc.storage.length = assoc.size then pointerpairarrayGrow assoc.size
    else assoc.size
  if assoc.storage.length < size then
    some { assoc with storage := assoc.storage ++ [pair], size := size }
  else none

def pointerpairarrayRemoveInRange (assoc : Assoc) (range : Range) : Option Assoc :=
  let n := assoc.storage.length
  let range := rangeValidateAgainstLength range (UInt64.ofNat n)
  let i := range.location.toNat + range.length.toNat
  if i ≤ n then
    some { assoc with storage := assoc.storage.take range.location.toNat ++ assoc.storage.drop i }
  else none

def intOfSize (n : Int) : Int := Int.bmod n (2 ^ 32)

def pointerpairBsearchProbe (compare : Pointerpair → Pointerpair → Int) (buf : List Pointerpair)
    (search : Pointerpair) (_last middle : Int) : Probe (Option Nat) :=
  match buf[middle.toNat]? with
  | none => .hit none
  | some p =>
    if compare p search ≤ 0 then
      if compare p search = 0 then .hit (some middle.toNat) else .right
    else .left

def pointerpairBsearchWindow (compare : Pointerpair → Pointerpair → Int) (buf : List Pointerpair)
    (search : Pointerpair) : Bisected (Option Nat) :=
  bisectFrom (midpointBelow (2 ^ 31)) (pointerpairBsearchProbe compare buf search) (buf.length + 1)
    0 (intOfSize (buf.length - 1))

/-- The inner `none` is the `-1` for a key that is not there. -/
def pointerpairBsearch (compare : Pointerpair → Pointerpair → Int) (buf : List Pointerpair)
    (search : Pointerpair) : Option (Option Nat) :=
  match pointerpairBsearchWindow compare buf search with
  | .found index => index.map some
  | .missing _ => some none
  | .overflow | .endless => none

section Assocs

variable (callback : Keycallback) (compare : Pointerpair → Pointerpair → Int)
  (keep : Pointerpair → Pointerpair)

def pointerpairScan (buf : List Pointerpair) (key : Pointer) (range : Range) : Option Nat :=
  ((slice buf range.location.toNat range.length.toNat).findIdx? fun p =>
    callback.isEqual p.key key).map (range.location.toNat + ·)

def pointerpairFindInRangeCallback (buf : List Pointerpair) (search : Pointerpair) (range : Range) :
    Option Nat :=
  if search.key = notAPointer then none else pointerpairScan callback buf search.key range

def assocFindInRangeUnsorted (assoc : Assoc) (key : Pointer) (range : Range) :
    Option (Option Nat) :=
  if key = notAPointer then none
  else
    let range := rangeValidateAgainstLength range (UInt64.ofNat assoc.storage.length)
    if range.length = 0 then some none else some (pointerpairScan callback assoc.storage key range)

def assocMember (assoc : Assoc) (key : Pointer) : Option Bool := do
  let found ← assocFindInRangeUnsorted callback assoc key (rangeMake 0 0xffffffffffffffff)
  some found.isSome

def pointerpairRetain (pair : Pointerpair) : Option Pointerpair :=
  if pair.key = callback.notakey then none else some (keep pair)

def assocQsortIfNeeded (assoc : Assoc) : Option Assoc :=
  if assoc.isSorted then some assoc
  else do
    let storage ← mulleQsort compare assoc.storage
    some { assoc with storage := storage, isSorted := true }

def assocAdd (assoc : Assoc) (pair : Pointerpair) : Option Assoc := do
  let member ← assocMember callback assoc pair.key
  let retained ← pointerpairRetain callback keep pair
  if member then none else do
    let next ← pointerpairarrayAdd assoc retained
    some { next with isSorted := false }

def assocReplace (assoc : Assoc) (i : Nat) (pair : Pointerpair) : Option Assoc := do
  let retained ← pointerpairRetain callback keep pair
  if i < assoc.storage.length then
    some { assoc with storage := assoc.storage.set i retained, isSorted := false }
  else none

def assocSetAtIndex (assoc : Assoc) (i : Nat) (pair : Pointerpair) : Option Assoc := do
  let assoc ← assocQsortIfNeeded compare assoc
  assocReplace callback keep assoc i pair

def assocSet (assoc : Assoc) (pair : Pointerpair) : Option Assoc := do
  let assoc ← assocQsortIfNeeded compare assoc
  let index ← pointerpairBsearch compare assoc.storage pair
  match index with
  | none => assocAdd callback keep assoc pair
  | some i => assocReplace callback keep assoc i pair

def assocValueAt (assoc : Assoc) : Option Nat → Option Pointer
  | none => some 0
  | some index => assoc.storage[index]?.map Pointerpair.value

def assocGet (assoc : Assoc) (key : Pointer) : Option (Assoc × Pointer) := do
  let assoc ← assocQsortIfNeeded compare assoc
  let index ← pointerpairBsearch compare assoc.storage ⟨key, 0⟩
  let value ← assocValueAt assoc index
  some (assoc, value)

def assocFirstEqual (storage : List Pointerpair) (key : Pointer) : Nat → Option Nat
  | 0 => some 0
  | first + 1 => do
      let p ← storage[first]?
      if callback.isEqual p.key key then assocFirstEqual storage key first else some (first + 1)

def assocLastEqual (storage : List Pointerpair) (key : Pointer) : Nat → Nat → Option Nat
  | 0, last => some last
  | left + 1, last => do
      let p ← storage[last]?
      if callback.isEqual p.key key then assocLastEqual storage key left (last + 1) else some last

def assocRemoveInRange (assoc : Assoc) (range : Range) : Option Assoc :=
  pointerpairarrayRemoveInRange assoc
    (rangeValidateAgainstLength range (UInt64.ofNat assoc.storage.length))

def assocRemoveEquals (assoc : Assoc) (key : Pointer) (index : Nat) : Option Assoc := do
  let first ← assocFirstEqual callback assoc.storage key index
  let last ← assocLastEqual callback assoc.storage key (assoc.storage.length - (index + 1))
    (index + 1)
  assocRemoveInRange assoc (rangeMake (UInt64.ofNat first) (UInt64.ofNat (last - first)))

def assocRemove (assoc : Assoc) (key : Pointer) : Option Assoc := do
  let assoc ← assocQsortIfNeeded compare assoc
  let index ← pointerpairBsearch compare assoc.storage ⟨key, 0⟩
  match index with
  | none => some assoc
  | some index => assocRemoveEquals callback assoc key index

def assocAddAbsent (state : Assoc × Range) (q : Pointerpair) : Option (Assoc × Range) :=
  match pointerpairFindInRangeCallback callback state.1.storage q state.2 with
  | some _ => some state
  | none => do
      let assoc ← assocAdd callback keep state.1 q
      some (assoc, { state.2 with length := state.2.length + 1 })

/-- From itself nothing is added, so the loop reads what was there before it. -/
def assocAddAssocRange (assoc other : Assoc) (range : Range) : Option Assoc :=
  let range := rangeValidateAgainstLength range (UInt64.ofNat other.storage.length)
  if range.length = 0 then some assoc
  else do
    let (next, _) ← (slice other.storage range.location.toNat range.length.toNat).foldlM
      (assocAddAbsent callback keep) (assoc, rangeMake 0 (UInt64.ofNat assoc.storage.length))
    some { next with isSorted := false }

def assocReset (assoc : Assoc) : Assoc := { assoc with storage := [] }

end Assocs

/-!
The binary search of an assoc is exact in sorted pairs, unless a sum of two indices
overflows `int` on the way.
-/

section Search

variable {compare : Pointerpair → Pointerpair → Int} {buf : List Pointerpair} {search : Pointerpair}
variable {assoc : Assoc} {index : Nat} {pair : Pointerpair}

def pairsBelow (compare : Pointerpair → Pointerpair → Int) (buf : List Pointerpair)
    (search : Pointerpair) : Nat :=
  buf.countP fun pair => decide (compare pair search < 0)

/-- Fewer than 2^31 pairs, and no `first + last` beyond `INT_MAX` on the way. -/
def Assoc.Searchable (compare : Pointerpair → Pointerpair → Int) (assoc : Assoc)
    (search : Pointerpair) : Prop :=
  assoc.storage.length < 2 ^ 31 ∧
    MidpointsFit (2 ^ 31) assoc.storage.length (pairsBelow compare assoc.storage search)

theorem pairsBelow_le (compare : Pointerpair → Pointerpair → Int) (buf : List Pointerpair)
    (search : Pointerpair) : pairsBelow compare buf search ≤ buf.length :=
  List.countP_le_length

theorem Assoc.searchable_of_few (few : assoc.storage.length ≤ 2 ^ 30) :
    assoc.Searchable compare search := by
  constructor
  · omega
  · exact midpointsFit_of_few (by omega) (pairsBelow_le compare _ search)

theorem intOfSize_small {count : Nat} (few : count ≤ 2 ^ 31) :
    intOfSize ((count : Int) - 1) = count - 1 := by
  apply Int.bmod_eq_of_le
  · omega
  · omega

theorem lt_pairsBelow_iff (search : Pointerpair) (order : TotalCompare compare)
    (sorted : buf.Pairwise fun one other => compare one other ≤ 0)
    (pairAt : buf[index]? = some pair) :
    compare pair search < 0 ↔ index < pairsBelow compare buf search := by
  have closed : buf.Pairwise fun one other =>
      decide (compare other search < 0) = true → decide (compare one search < 0) = true := by
    refine sorted.imp ?_
    intro one other before otherBelow
    rw [decide_eq_true_iff] at otherBelow ⊢
    by_contra above
    have back := order.trans search one other (order.le_of_ge (Int.not_lt.mp above)) before
    have flipped := order.flip other search
    omega
  rw [pairsBelow, ← lt_countP_iff closed pairAt, decide_eq_true_iff]

theorem above_of_sorted (order : TotalCompare compare)
    (sorted : buf.Pairwise fun one other => compare one other ≤ 0) {later : Nat}
    {other : Pointerpair} (pairAt : buf[index]? = some pair) (above : 0 < compare pair search)
    (otherAt : buf[later]? = some other) (after : index ≤ later) : 0 < compare other search := by
  rcases Nat.lt_or_eq_of_le after with before | same
  · obtain ⟨pairBound, rfl⟩ := List.getElem?_eq_some_iff.mp pairAt
    obtain ⟨otherBound, rfl⟩ := List.getElem?_eq_some_iff.mp otherAt
    have ordered := List.pairwise_iff_getElem.mp sorted index later pairBound otherBound before
    by_contra below
    have back := order.trans _ _ search ordered (Int.not_lt.mp below)
    omega
  · subst same
    rw [pairAt, Option.some.injEq] at otherAt
    rw [← otherAt]
    exact above

def BsearchOutcome (compare : Pointerpair → Pointerpair → Int) (buf : List Pointerpair)
    (search : Pointerpair) : Bisected (Option Nat) → Prop
  | .found result => ∃ index pair, result = some index ∧ buf[index]? = some pair ∧
      compare pair search = 0
  | .missing _ => ∀ pair ∈ buf, compare pair search ≠ 0
  | .overflow | .endless => False

def BsearchPlaced (compare : Pointerpair → Pointerpair → Int) (buf : List Pointerpair)
    (search : Pointerpair) : Bisected (Option Nat) → Prop
  | .missing last => last = pairsBelow compare buf search - 1 ∧ ∀ pair ∈ buf, compare pair search ≠ 0
  | window => BsearchOutcome compare buf search window

theorem pointerpairBsearchWindow_placed (order : TotalCompare compare)
    (sorted : buf.Pairwise fun one other => compare one other ≤ 0) (few : buf.length < 2 ^ 31)
    (fit : MidpointsFit (2 ^ 31) buf.length (pairsBelow compare buf search)) :
    BsearchPlaced compare buf search (pointerpairBsearchWindow compare buf search) := by
  rw [pointerpairBsearchWindow, intOfSize_small (Nat.le_of_lt few)]
  refine bisectFrom_towards (fun middle => ∃ pair, buf[middle]? = some pair ∧
    0 < compare pair search) (pairsBelow_le compare buf search) fit ?_ ?_
  · intro last middle bound
    have pairAt := List.getElem?_eq_getElem bound
    generalize buf[middle] = pair at pairAt
    have place := lt_pairsBelow_iff search order sorted pairAt
    rw [pointerpairBsearchProbe, Int.toNat_natCast]
    simp only [pairAt]
    by_cases low : compare pair search ≤ 0
    · rw [if_pos low]
      by_cases equal : compare pair search = 0
      · rw [if_pos equal]
        exact ⟨middle, pair, rfl, pairAt, equal⟩
      · rw [if_neg equal]
        exact place.mp (by omega)
    · rw [if_neg low]
      refine ⟨Nat.le_of_not_lt fun before => low (Int.le_of_lt (place.mpr before)), pair, rfl, ?_⟩
      omega
  · refine fun edge => ⟨rfl, ?_⟩
    intro pair member equal
    obtain ⟨index, pairAt⟩ := List.mem_iff_getElem?.mp member
    have place := lt_pairsBelow_iff search order sorted pairAt
    have bound := (List.getElem?_eq_some_iff.mp pairAt).1
    rcases edge with whole | ⟨beyond, beyondAt, above⟩
    · omega
    · have after := above_of_sorted order sorted beyondAt above pairAt (by omega)
      omega

theorem pointerpairBsearchWindow_outcome (order : TotalCompare compare)
    (sorted : buf.Pairwise fun one other => compare one other ≤ 0) (few : buf.length < 2 ^ 31)
    (fit : MidpointsFit (2 ^ 31) buf.length (pairsBelow compare buf search)) :
    BsearchOutcome compare buf search (pointerpairBsearchWindow compare buf search) := by
  have placed := pointerpairBsearchWindow_placed order sorted few fit
  cases window : pointerpairBsearchWindow compare buf search with
  | missing last =>
    rw [window] at placed
    exact placed.2
  | found result | overflow | endless =>
    rw [window] at placed
    exact placed

theorem pointerpairBsearch_eq (compare : Pointerpair → Pointerpair → Int) (buf : List Pointerpair)
    (search : Pointerpair) :
    pointerpairBsearch compare buf search =
      match pointerpairBsearchWindow compare buf search with
      | .found index => index.map some
      | .missing _ => some none
      | .overflow | .endless => none := by
  delta pointerpairBsearch
  rfl

/-- If no sum of ends overflows, the search finds a pair unless there is none. -/
theorem pointerpairBsearch_exact (order : TotalCompare compare)
    (sorted : buf.Pairwise fun one other => compare one other ≤ 0) (few : buf.length < 2 ^ 31)
    (fit : MidpointsFit (2 ^ 31) buf.length (pairsBelow compare buf search)) :
    (∃ index pair, pointerpairBsearch compare buf search = some (some index) ∧
      buf[index]? = some pair ∧ compare pair search = 0) ∨
    (pointerpairBsearch compare buf search = some none ∧
      ∀ pair ∈ buf, compare pair search ≠ 0) := by
  have outcome := pointerpairBsearchWindow_outcome order sorted few fit
  rw [pointerpairBsearch_eq]
  cases window : pointerpairBsearchWindow compare buf search with
  | found result =>
    rw [window] at outcome
    obtain ⟨index, pair, rfl, pairAt, equal⟩ := outcome
    exact Or.inl ⟨index, pair, rfl, pairAt, equal⟩
  | missing last =>
    rw [window] at outcome
    exact Or.inr ⟨rfl, outcome⟩
  | overflow =>
    rw [window] at outcome
    exact outcome.elim
  | endless =>
    rw [window] at outcome
    exact outcome.elim

theorem pointerpairBsearch_overflows (order : TotalCompare compare)
    (sorted : buf.Pairwise fun one other => compare one other ≤ 0) (few : buf.length < 2 ^ 31)
    (unfit : ¬MidpointsFit (2 ^ 31) buf.length (pairsBelow compare buf search)) :
    pointerpairBsearch compare buf search = none := by
  obtain ⟨far, unfits⟩ := not_forall.mp unfit
  obtain ⟨reached, beyond⟩ := Classical.not_imp.mp unfits
  have within := pairsBelow_le compare buf search
  have goesRight : ∀ last (middle : Nat), middle < pairsBelow compare buf search →
      pointerpairBsearchProbe compare buf search last middle = .right := by
    intro last middle before
    have pairAt := List.getElem?_eq_getElem (show middle < buf.length by omega)
    have below := (lt_pairsBelow_iff search order sorted pairAt).mpr before
    rw [pointerpairBsearchProbe, Int.toNat_natCast]
    simp only [pairAt]
    rw [if_pos (Int.le_of_lt below), if_neg (Int.ne_of_lt below)]
  have positive : 0 < buf.length := by
    by_contra empty
    have zero : rightStart buf.length far = 0 := by omega
    omega
  have overflows := bisectFrom_overflows positive goesRight reached (Int.not_lt.mp beyond) 0
    (buf.length + 1) (Nat.zero_le far) (by rw [rightStart]; omega)
  rw [pointerpairBsearch_eq, pointerpairBsearchWindow, intOfSize_small (Nat.le_of_lt few)]
  rw [rightStart] at overflows
  rw [Int.natCast_zero] at overflows
  rw [overflows]

theorem assocQsortIfNeeded_some (order : TotalCompare compare)
    (sorted : assoc.isSorted = true → assoc.storage.Pairwise fun one other => compare one other ≤ 0) :
    ∃ storage, assocQsortIfNeeded compare assoc =
        some { assoc with storage := storage, isSorted := true } ∧
      storage.Perm assoc.storage ∧ storage.Pairwise fun one other => compare one other ≤ 0 := by
  rw [assocQsortIfNeeded]
  by_cases isSorted : assoc.isSorted = true
  · rw [if_pos isSorted]
    refine ⟨assoc.storage, ?_, List.Perm.refl _, sorted isSorted⟩
    rw [← isSorted]
  · rw [if_neg isSorted]
    obtain ⟨storage, done, perm, ordered⟩ := mulleQsort_sorts order assoc.storage
    refine ⟨storage, ?_, perm, ordered⟩
    simp only [done, Option.bind_eq_bind, Option.bind_some]

end Search

end MulleCore
