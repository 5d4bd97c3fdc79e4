import MulleCore.Concurrent.ConcurrentPointerarray

/-!
What holds of the storages in every interleaving. A value stays at its index through all
migrations.
-/

namespace MulleCore

open Library

variable {Item : Type} {items : List Item} {item : Item} {j : Nat}

namespace ConcurrentPointerarray

section Fields

variable {array : ConcurrentPointerarray} {p q i j n : Nat} {value : Pointer}
  {alloced : Pointerarraystorage}

/-- What the array stands for. A redirected entry is in the next storage. -/
def contents (array : ConcurrentPointerarray) : List Pointer :=
  (List.range (array.storages array.storage).n).map fun i =>
    if entry array array.storage i = redirectValue then entry array array.nextStorage i
    else entry array array.storage i

@[simp] theorem setEntry_storage : (setEntry array p i value).storage = array.storage := rfl

@[simp] theorem setEntry_nextStorage : (setEntry array p i value).nextStorage = array.nextStorage :=
  rfl

@[simp] theorem setEntry_n : ((setEntry array p i value).storages q).n = (array.storages q).n :=
  ConcurrentStorages.modify_field Pointerarraystorage.n rfl

@[simp] theorem setEntry_size :
    ((setEntry array p i value).storages q).size = (array.storages q).size :=
  ConcurrentStorages.modify_field Pointerarraystorage.size rfl

@[simp] theorem setEntry_same : entry (setEntry array p i value) p i = value := by
  simp [setEntry, entry]

theorem setEntry_other (other : ¬ (q = p ∧ j = i)) :
    entry (setEntry array p i value) q j = entry array q j := by
  by_cases same : q = p
  · have different : j ≠ i := fun here => other ⟨same, here⟩
    simp [setEntry, entry, same, different]
  · simp [setEntry, entry, ConcurrentStorages.modify_other same]

@[simp] theorem setCount_storage : (setCount array p n).storage = array.storage := rfl

@[simp] theorem setCount_nextStorage : (setCount array p n).nextStorage = array.nextStorage := rfl

@[simp] theorem setCount_same : ((setCount array p n).storages p).n = n := by simp [setCount]

theorem setCount_other (other : q ≠ p) :
    ((setCount array p n).storages q).n = (array.storages q).n := by
  simp [setCount, ConcurrentStorages.modify_other other]

@[simp] theorem setCount_size : ((setCount array p n).storages q).size = (array.storages q).size :=
  ConcurrentStorages.modify_field Pointerarraystorage.size rfl

@[simp] theorem setCount_entry : entry (setCount array p n) q j = entry array q j :=
  congrFun (ConcurrentStorages.modify_field Pointerarraystorage.entries rfl) j

theorem link_entry (linked : q ≤ array.nextStorage) :
    entry (array.link alloced) q j = entry array q j := by
  simp [entry, ConcurrentStorages.link_linked linked]

@[simp] theorem link_entry_alloced :
    entry (array.link alloced) (array.nextStorage + 1) j = alloced.entries j := by
  simp [entry]

theorem allocStorage_size (n : Nat) : n < (allocStorage (n * 2)).size := by
  simp only [allocStorage]
  split <;> omega

end Fields

end ConcurrentPointerarray

open ConcurrentPointerarray

theorem found_append (found : items[j]? = some item)
    (more : List Item) : (items ++ more)[j]? = some item := by
  rw [List.getElem?_append_left (List.getElem?_eq_some_iff.mp found).1, found]

theorem found_of_append {more : List Item}
    (found : (items ++ more)[j]? = some item) (other : item ∉ more) : items[j]? = some item := by
  by_cases inside : j < items.length
  · rwa [List.getElem?_append_left inside] at found
  · rw [List.getElem?_append_right (Nat.le_of_not_lt inside)] at found
    exact absurd (List.mem_of_getElem? found) other

def StorableValue (value : Pointer) : Prop := value ≠ 0 ∧ value ≠ redirectValue

/-- `values` is what was ever filled in. The last of it is perhaps not counted yet. -/
structure PointerarrayHolds (values : List Pointer) (array : ConcurrentPointerarray) : Prop where
  generations : ConcurrentStorages.Generations isEmptyStorage Pointerarraystorage.size array
  counted : ∀ g ≤ array.nextStorage, (array.storages g).n ≤ (array.storages g).size
  filled : ∀ g ≤ array.nextStorage, ∀ j < (array.storages g).n, entry array g j ≠ 0
  agrees : ∀ g ≤ array.nextStorage, ∀ j, entry array g j ≠ 0 → entry array g j ≠ redirectValue →
    values[j]? = some (entry array g j)
  lower : (array.storages array.storage).n ≤ values.length
  upper : values.length ≤ (array.storages array.storage).n + 1
  roomy : values.length ≤ (array.storages array.storage).size
  last : (array.storages array.storage).n < values.length →
    entry array array.storage (array.storages array.storage).n ≠ 0
  retired : ∀ g < array.storage, ∀ j < (array.storages g).size, entry array g j = redirectValue
  below : ∀ g < array.storage, (array.storages g).n = (array.storages g).size ∧
    (array.storages g).size ≤ (array.storages array.storage).n
  redirected : ∀ g ≤ array.nextStorage, ∀ j, entry array g j = redirectValue →
    g < array.nextStorage ∧ (array.storages g).n = (array.storages g).size ∧ entry array (g + 1) j ≠ 0
  migrating : array.storage < array.nextStorage →
    (array.storages array.storage).n = (array.storages array.storage).size
  ahead : array.storage < array.nextStorage → ∀ j, entry array array.nextStorage j ≠ 0 →
    j < (array.storages array.storage).size
  storable : ∀ value ∈ values, StorableValue value

inductive PointerarrayEffect (values : List Pointer) (array : ConcurrentPointerarray) :
    List Pointer → ConcurrentPointerarray → Prop where
  | stays : PointerarrayEffect values array values array
  | fills {value : Pointer}
      (inside : (array.storages array.storage).n < (array.storages array.storage).size)
      (vacant : entry array array.storage (array.storages array.storage).n = 0)
      (storable : StorableValue value) :
      PointerarrayEffect values array (values ++ [value])
        (setEntry array array.storage (array.storages array.storage).n value)
  | puts {i : Nat} {value : Pointer} (migrating : array.storage < array.nextStorage)
      (inside : i < (array.storages array.storage).size)
      (vacant : entry array array.nextStorage i = 0) (found : values[i]? = some value) :
      PointerarrayEffect values array values (setEntry array array.nextStorage i value)
  | freezes {i : Nat} (migrating : array.storage < array.nextStorage)
      (carried : entry array (array.storage + 1) i ≠ 0) :
      PointerarrayEffect values array values (setEntry array array.storage i redirectValue)
  | advances {p : Nat} (linked : p ≤ array.nextStorage)
      (inside : (array.storages p).n < (array.storages p).size)
      (filled : entry array p (array.storages p).n ≠ 0) :
      PointerarrayEffect values array values (setCount array p ((array.storages p).n + 1))
  | links (current : array.nextStorage = array.storage)
      (full : (array.storages array.storage).n = (array.storages array.storage).size) :
      PointerarrayEffect values array values
        (array.link (allocStorage ((array.storages array.storage).size * 2)))
  | swaps (migrating : array.nextStorage = array.storage + 1)
      (redirected : ∀ j < (array.storages array.storage).size, entry array array.storage j =
        redirectValue)
      (published : (array.storages array.storage).size ≤ (array.storages (array.storage + 1)).n) :
      PointerarrayEffect values array values (array.swap isEmptyStorage array.storage
        (array.storage + 1))

namespace PointerarrayHolds

variable {values grown : List Pointer} {array after : ConcurrentPointerarray} {g h j : Nat}
  {value : Pointer}

section

variable (holds : PointerarrayHolds values array)
include holds

theorem full (linked : g ≤ array.nextStorage)
    (redirect : entry array g j = redirectValue) : (array.storages g).n = (array.storages g).size :=
  (holds.redirected g linked j redirect).2.1

theorem storage_le (inside : j < (array.storages g).size)
    (open' : entry array g j ≠ redirectValue) : array.storage ≤ g := by
  by_contra before
  exact open' (holds.retired g (Nat.lt_of_not_le before) j inside)

theorem index_lt (inside : j < (array.storages array.storage).size)
    (filled : entry array array.storage j ≠ 0) : j < values.length := by
  by_cases redirect : entry array array.storage j = redirectValue
  · have full := holds.full holds.generations.ordered redirect
    have lower := holds.lower
    omega
  · exact (List.getElem?_eq_some_iff.mp
      (holds.agrees _ holds.generations.ordered j filled redirect)).1

end

theorem contents_length : (contents array).length = (array.storages array.storage).n := by
  simp [contents]

theorem contents_eq (holds : PointerarrayHolds values array) :
    contents array = values.take (array.storages array.storage).n := by
  apply List.ext_getElem?
  intro j
  by_cases within : j < (array.storages array.storage).n
  · rw [List.getElem?_take_of_lt within]
    have ordered := holds.generations.ordered
    have filled := holds.filled _ ordered j within
    by_cases redirect : entry array array.storage j = redirectValue
    · obtain ⟨before, _, carried⟩ := holds.redirected _ ordered j redirect
      have near := holds.generations.near
      have next : array.storage + 1 = array.nextStorage := by omega
      rw [next] at carried
      have fresh : entry array array.nextStorage j ≠ redirectValue := by
        intro again
        have := (holds.redirected _ (Nat.le_refl _) j again).1
        omega
      have agrees := holds.agrees _ (Nat.le_refl _) j carried fresh
      simp [contents, within, redirect, agrees]
    · have agrees := holds.agrees _ ordered j filled redirect
      simp [contents, within, redirect, agrees]
  · have outside : (array.storages array.storage).n ≤ j := Nat.le_of_not_lt within
    have taken : (values.take (array.storages array.storage).n).length ≤ j :=
      Nat.le_trans (List.length_take_le _ _) outside
    rw [List.getElem?_eq_none taken]
    simp [contents, outside]

theorem fills (holds : PointerarrayHolds values array)
    (inside : (array.storages array.storage).n < (array.storages array.storage).size)
    (vacant : entry array array.storage (array.storages array.storage).n = 0)
    (storable : StorableValue value) :
    PointerarrayHolds (values ++ [value])
      (setEntry array array.storage (array.storages array.storage).n value) := by
  have counted : values.length = (array.storages array.storage).n := by
    have lower := holds.lower
    by_contra different
    exact holds.last (by omega) vacant
  have current : array.nextStorage = array.storage := by
    have ordered := holds.generations.ordered
    by_contra different
    have full := holds.migrating (by omega)
    omega
  have keeps : ∀ g j, entry array g j ≠ 0 →
      entry (setEntry array array.storage (array.storages array.storage).n value) g j =
        entry array g j := by
    intro g j filled
    apply setEntry_other
    rintro ⟨rfl, rfl⟩
    exact filled vacant
  constructor
  case generations => exact holds.generations.modify rfl rfl
  case counted => simpa using holds.counted
  case filled =>
    intro g linked j within
    rw [setEntry_n] at within
    have filled := holds.filled g linked j within
    rwa [keeps g j filled]
  case agrees =>
    intro g linked j filled notRedirect
    by_cases here : g = array.storage ∧ j = (array.storages array.storage).n
    · obtain ⟨rfl, rfl⟩ := here
      simp [← counted]
    · rw [setEntry_other here] at filled notRedirect ⊢
      exact found_append (holds.agrees g linked j filled notRedirect) _
  case lower => simp [counted]
  case upper => simp [counted]
  case roomy =>
    simp only [List.length_append, List.length_singleton, counted, setEntry_storage, setEntry_size]
    exact inside
  case last => simpa using fun _ => storable.1
  case retired =>
    intro g before j within
    rw [setEntry_size] at within
    have redirect := holds.retired g before j within
    rw [keeps g j (by rw [redirect]; decide), redirect]
  case below => simpa using holds.below
  case redirected =>
    intro g linked j redirect
    by_cases here : g = array.storage ∧ j = (array.storages array.storage).n
    · obtain ⟨rfl, rfl⟩ := here
      rw [setEntry_same] at redirect
      exact absurd redirect storable.2
    · rw [setEntry_other here] at redirect
      obtain ⟨below, full, carried⟩ := holds.redirected g linked j redirect
      refine ⟨below, by simpa using full, ?_⟩
      rwa [keeps _ _ carried]
  case migrating => simp [current]
  case ahead => simp [current]
  case storable =>
    intro other member
    rcases List.mem_append.mp member with old | new
    · exact holds.storable other old
    · obtain rfl := List.mem_singleton.mp new
      exact storable

theorem puts (holds : PointerarrayHolds values array) (migrating : array.storage < array.nextStorage)
    (inside : j < (array.storages array.storage).size) (vacant : entry array array.nextStorage j = 0)
    (found : values[j]? = some value) :
    PointerarrayHolds values (setEntry array array.nextStorage j value) := by
  have storable := holds.storable value (List.mem_of_getElem? found)
  have keeps : ∀ g i, entry array g i ≠ 0 → entry (setEntry array array.nextStorage j value) g i =
      entry array g i := by
    intro g i filled
    apply setEntry_other
    rintro ⟨rfl, rfl⟩
    exact filled vacant
  constructor
  case generations => exact holds.generations.modify rfl rfl
  case counted => simpa using holds.counted
  case filled =>
    intro g linked i within
    rw [setEntry_n] at within
    have filled := holds.filled g linked i within
    rwa [keeps g i filled]
  case agrees =>
    intro g linked i filled notRedirect
    by_cases here : g = array.nextStorage ∧ i = j
    · obtain ⟨rfl, rfl⟩ := here
      simpa using found
    · rw [setEntry_other here] at filled notRedirect ⊢
      exact holds.agrees g linked i filled notRedirect
  case lower => simpa using holds.lower
  case upper => simpa using holds.upper
  case roomy => simpa using holds.roomy
  case last =>
    intro uncounted
    simp only [setEntry_n, setEntry_storage] at uncounted ⊢
    have filled := holds.last uncounted
    rwa [keeps _ _ filled]
  case retired =>
    intro g before i within
    rw [setEntry_size] at within
    have redirect := holds.retired g before i within
    rw [keeps g i (by rw [redirect]; decide), redirect]
  case below => simpa using holds.below
  case redirected =>
    intro g linked i redirect
    by_cases here : g = array.nextStorage ∧ i = j
    · obtain ⟨rfl, rfl⟩ := here
      rw [setEntry_same] at redirect
      exact absurd redirect storable.2
    · rw [setEntry_other here] at redirect
      obtain ⟨below, full, carried⟩ := holds.redirected g linked i redirect
      refine ⟨below, by simpa using full, ?_⟩
      rwa [keeps _ _ carried]
  case migrating => simpa using holds.migrating
  case ahead =>
    intro linked i filled
    simp only [setEntry_nextStorage, setEntry_storage, setEntry_size] at filled linked ⊢
    by_cases here : i = j
    · rwa [here]
    · rw [setEntry_other fun same => here same.2] at filled
      exact holds.ahead migrating i filled
  case storable => exact holds.storable

theorem freezes (holds : PointerarrayHolds values array)
    (migrating : array.storage < array.nextStorage)
    (carried : entry array (array.storage + 1) j ≠ 0) :
    PointerarrayHolds values (setEntry array array.storage j redirectValue) := by
  have nonzero : redirectValue ≠ 0 := by decide
  have filledStays : ∀ g i, entry array g i ≠ 0 →
      entry (setEntry array array.storage j redirectValue) g i ≠ 0 := by
    intro g i filled
    by_cases here : g = array.storage ∧ i = j
    · obtain ⟨rfl, rfl⟩ := here
      rwa [setEntry_same]
    · rwa [setEntry_other here]
  have nextStays : ∀ i, entry (setEntry array array.storage j redirectValue) array.nextStorage i =
      entry array array.nextStorage i :=
    fun i => setEntry_other fun same => absurd same.1 (Nat.ne_of_gt migrating)
  constructor
  case generations => exact holds.generations.modify rfl rfl
  case counted => simpa using holds.counted
  case filled =>
    intro g linked i within
    rw [setEntry_n] at within
    exact filledStays g i (holds.filled g linked i within)
  case agrees =>
    intro g linked i filled notRedirect
    by_cases here : g = array.storage ∧ i = j
    · obtain ⟨rfl, rfl⟩ := here
      exact absurd setEntry_same notRedirect
    · rw [setEntry_other here] at filled notRedirect ⊢
      exact holds.agrees g linked i filled notRedirect
  case lower => simpa using holds.lower
  case upper => simpa using holds.upper
  case roomy => simpa using holds.roomy
  case last =>
    intro uncounted
    simp only [setEntry_n, setEntry_storage] at uncounted ⊢
    exact filledStays _ _ (holds.last uncounted)
  case retired =>
    intro g before i within
    rw [setEntry_size] at within
    rw [setEntry_storage] at before
    rw [setEntry_other fun same => absurd same.1 (Nat.ne_of_lt before)]
    exact holds.retired g before i within
  case below => simpa using holds.below
  case redirected =>
    intro g linked i redirect
    by_cases here : g = array.storage ∧ i = j
    · obtain ⟨rfl, rfl⟩ := here
      exact ⟨migrating, by simpa using holds.migrating migrating, filledStays _ _ carried⟩
    · rw [setEntry_other here] at redirect
      obtain ⟨below, full, carried⟩ := holds.redirected g linked i redirect
      exact ⟨below, by simpa using full, filledStays _ _ carried⟩
  case migrating => simpa using holds.migrating
  case ahead =>
    intro linked i filled
    simp only [setEntry_nextStorage, nextStays, setEntry_storage, setEntry_size] at filled ⊢
    exact holds.ahead migrating i filled
  case storable => exact holds.storable

theorem advances (holds : PointerarrayHolds values array) (linked : g ≤ array.nextStorage)
    (inside : (array.storages g).n < (array.storages g).size)
    (filled : entry array g (array.storages g).n ≠ 0) :
    PointerarrayHolds values (setCount array g ((array.storages g).n + 1)) := by
  have notRetired : array.storage ≤ g := by
    by_contra before
    have full := (holds.below g (Nat.lt_of_not_le before)).1
    omega
  have counts : ∀ h, ((setCount array g ((array.storages g).n + 1)).storages h).n =
      if h = g then (array.storages g).n + 1 else (array.storages h).n := by
    intro h
    split
    next same => rw [same, setCount_same]
    next other => exact setCount_other other
  have grows : ∀ h, (array.storages h).n ≤
      ((setCount array g ((array.storages g).n + 1)).storages h).n := by
    intro h
    rw [counts]
    split
    next same => simp [same]
    next => exact Nat.le_refl _
  have before : ∀ h < array.storage, ((setCount array g ((array.storages g).n + 1)).storages h).n =
    (array.storages h).n :=
    fun h below => setCount_other (by omega)
  have whole : ∀ h, (array.storages h).n = (array.storages h).size →
      ((setCount array g ((array.storages g).n + 1)).storages h).n = (array.storages h).n := by
    intro h full
    apply setCount_other
    rintro rfl
    omega
  constructor
  case generations => exact holds.generations.modify rfl rfl
  case counted =>
    intro h linkedHere
    rw [counts, setCount_size]
    split
    next same => rwa [same]
    next => exact holds.counted h linkedHere
  case filled =>
    intro h linkedHere i within
    rw [setCount_entry]
    rw [counts] at within
    by_cases same : h = g
    · subst same
      rw [if_pos rfl] at within
      rcases Nat.lt_or_eq_of_le (Nat.le_of_lt_succ within) with earlier | rfl
      · exact holds.filled h linkedHere i earlier
      · exact filled
    · rw [if_neg same] at within
      exact holds.filled h linkedHere i within
  case agrees => simpa using holds.agrees
  case lower =>
    rw [setCount_storage, counts]
    split
    next same =>
      subst same
      exact holds.index_lt inside filled
    next => exact holds.lower
  case upper => exact Nat.le_trans holds.upper (Nat.succ_le_succ (grows _))
  case roomy => simpa using holds.roomy
  case last =>
    intro uncounted
    rw [setCount_storage, setCount_entry]
    rw [setCount_storage] at uncounted
    rw [counts] at uncounted ⊢
    split at uncounted
    next same =>
      have upper := holds.upper
      rw [same] at upper
      omega
    next other =>
      rw [if_neg other]
      exact holds.last uncounted
  case retired => simpa using holds.retired
  case below =>
    intro h below
    obtain ⟨full, within⟩ := holds.below h below
    rw [before h below, setCount_size]
    exact ⟨full, Nat.le_trans within (grows _)⟩
  case redirected =>
    intro h linkedHere i redirect
    simp only [setCount_entry, setCount_size, setCount_nextStorage] at redirect ⊢
    obtain ⟨below, full, carried⟩ := holds.redirected h linkedHere i redirect
    exact ⟨below, (whole h full).trans full, carried⟩
  case migrating =>
    intro migrating
    have full := holds.migrating migrating
    rw [setCount_storage, setCount_size]
    exact (whole _ full).trans full
  case ahead => simpa using holds.ahead
  case storable => exact holds.storable

section

variable (holds : PointerarrayHolds values array)
include holds

theorem links (current : array.nextStorage = array.storage)
    (full : (array.storages array.storage).n = (array.storages array.storage).size) :
    PointerarrayHolds values
      (array.link (allocStorage ((array.storages array.storage).size * 2))) := by
  have old : ∀ {alloced : Pointerarraystorage}, ∀ g ≤ array.nextStorage,
    (array.link alloced).storages g = array.storages g :=
    fun g linked => ConcurrentStorages.link_linked linked
  have here : ∀ {alloced : Pointerarraystorage}, (array.link alloced).storages array.storage =
    array.storages array.storage :=
    old _ (Nat.le_of_eq current.symm)
  have vacant : ∀ j, entry (array.link (allocStorage ((array.storages array.storage).size * 2)))
    (array.nextStorage + 1) j = 0 :=
    fun j => link_entry_alloced
  constructor
  case generations => exact holds.generations.link current (allocStorage_size _)
  case counted =>
    intro g linked
    rcases Nat.lt_or_eq_of_le linked with before | rfl
    · rw [old g (Nat.le_of_lt_succ before)]
      exact holds.counted g (Nat.le_of_lt_succ before)
    · rw [ConcurrentStorages.link_nextStorage, ConcurrentStorages.link_alloced]
      exact Nat.zero_le _
  case filled =>
    intro g linked j within
    rcases Nat.lt_or_eq_of_le linked with before | rfl
    · rw [old g (Nat.le_of_lt_succ before)] at within
      rw [link_entry (Nat.le_of_lt_succ before)]
      exact holds.filled g (Nat.le_of_lt_succ before) j within
    · rw [ConcurrentStorages.link_nextStorage, ConcurrentStorages.link_alloced] at within
      exact absurd within (Nat.not_lt_zero j)
  case agrees =>
    intro g linked j filled notRedirect
    rcases Nat.lt_or_eq_of_le linked with before | rfl
    · rw [link_entry (Nat.le_of_lt_succ before)] at filled notRedirect ⊢
      exact holds.agrees g (Nat.le_of_lt_succ before) j filled notRedirect
    · exact absurd (vacant j) filled
  case lower => simpa only [ConcurrentStorages.link_storage, here] using holds.lower
  case upper => simpa only [ConcurrentStorages.link_storage, here] using holds.upper
  case roomy => simpa only [ConcurrentStorages.link_storage, here] using holds.roomy
  case last =>
    rw [ConcurrentStorages.link_storage, here, link_entry (Nat.le_of_eq current.symm)]
    exact holds.last
  case retired =>
    intro g before j within
    have linked : g ≤ array.nextStorage :=
      Nat.le_trans (Nat.le_of_lt before) (Nat.le_of_eq current.symm)
    rw [old g linked] at within
    rw [link_entry linked]
    exact holds.retired g before j within
  case below =>
    intro g before
    rw [ConcurrentStorages.link_storage, here,
      old g (Nat.le_trans (Nat.le_of_lt before) (Nat.le_of_eq current.symm))]
    exact holds.below g before
  case redirected =>
    intro g linked j redirect
    rcases Nat.lt_or_eq_of_le linked with before | rfl
    · have linkedBefore := Nat.le_of_lt_succ before
      rw [link_entry linkedBefore] at redirect
      obtain ⟨below, full, carried⟩ := holds.redirected g linkedBefore j redirect
      rw [old g linkedBefore, link_entry below]
      exact ⟨Nat.lt_succ_of_lt below, full, carried⟩
    · exact absurd ((vacant j).symm.trans redirect) (by decide)
  case migrating =>
    intro _
    rw [ConcurrentStorages.link_storage, here]
    exact full
  case ahead => exact fun _ j filled => absurd (vacant j) filled
  case storable => exact holds.storable

theorem swaps (migrating : array.nextStorage = array.storage + 1)
    (redirected : ∀ j < (array.storages array.storage).size, entry array array.storage j =
      redirectValue)
    (published : (array.storages array.storage).size ≤ (array.storages (array.storage + 1)).n) :
    PointerarrayHolds values (array.swap isEmptyStorage array.storage (array.storage + 1)) := by
  have full := holds.migrating (by omega)
  have length : values.length = (array.storages array.storage).size := by
    have lower := holds.lower
    have roomy := holds.roomy
    omega
  have exactly : (array.storages (array.storage + 1)).n = (array.storages array.storage).size := by
    by_contra more
    have within : (array.storages array.storage).size < (array.storages (array.storage + 1)).n := by
      omega
    have filled := holds.filled _ (Nat.le_of_eq migrating.symm) _ within
    rw [← migrating] at filled
    exact absurd (holds.ahead (by omega) _ filled) (Nat.lt_irrefl _)
  have counted := holds.counted _ (Nat.le_of_eq migrating.symm)
  constructor
  case generations => exact holds.generations.swap migrating
  case counted => exact holds.counted
  case filled => exact holds.filled
  case agrees => exact holds.agrees
  case lower =>
    simp only [ConcurrentStorages.swap_storage, ConcurrentStorages.swap_storages]
    omega
  case upper =>
    simp only [ConcurrentStorages.swap_storage, ConcurrentStorages.swap_storages]
    omega
  case roomy =>
    simp only [ConcurrentStorages.swap_storage, ConcurrentStorages.swap_storages]
    omega
  case last =>
    simp only [ConcurrentStorages.swap_storage, ConcurrentStorages.swap_storages]
    intro uncounted
    omega
  case retired =>
    intro g before j within
    rcases Nat.lt_or_eq_of_le (Nat.le_of_lt_succ before) with earlier | rfl
    · exact holds.retired g earlier j within
    · exact redirected j within
  case below =>
    intro g before
    simp only [ConcurrentStorages.swap_storage, ConcurrentStorages.swap_storages] at before ⊢
    rcases Nat.lt_or_eq_of_le (Nat.le_of_lt_succ before) with earlier | rfl
    · have below := holds.below g earlier
      omega
    · omega
  case redirected => exact holds.redirected
  case migrating =>
    intro again
    simp only [ConcurrentStorages.swap_storage, ConcurrentStorages.swap_nextStorage] at again
    omega
  case ahead =>
    intro again
    simp only [ConcurrentStorages.swap_storage, ConcurrentStorages.swap_nextStorage] at again
    omega
  case storable => exact holds.storable

theorem effect (did : PointerarrayEffect values array grown after) :
    PointerarrayHolds grown after := by
  cases did with
  | stays => exact holds
  | fills inside vacant storable => exact holds.fills inside vacant storable
  | puts migrating inside vacant found => exact holds.puts migrating inside vacant found
  | freezes migrating carried => exact holds.freezes migrating carried
  | advances linked inside filled => exact holds.advances linked inside filled
  | links current full => exact holds.links current full
  | swaps migrating redirected published => exact holds.swaps migrating redirected published

end

end PointerarrayHolds

end MulleCore
