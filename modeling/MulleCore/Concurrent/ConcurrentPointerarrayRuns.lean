import MulleCore.Concurrent.ConcurrentPointerarrayCalls
import MulleCore.Concurrent.ConcurrentPointerarrayHolds
import MulleCore.Library.RelyGuarantee

/-!
A `mulle_concurrent_pointerarray` is a list that only grows at its end, whatever the threads do.
-/

namespace MulleCore

open Library ConcurrentPointerarray

structure PointerarrayGrows (values : List Pointer) (array : ConcurrentPointerarray)
    (grown : List Pointer) (after : ConcurrentPointerarray) : Prop where
  storage : array.storage ≤ after.storage
  nextStorage : array.nextStorage ≤ after.nextStorage
  size : ∀ g ≤ array.nextStorage, (after.storages g).size = (array.storages g).size
  count : ∀ g ≤ array.nextStorage, (array.storages g).n ≤ (after.storages g).n
  filled : ∀ g ≤ array.nextStorage, ∀ j, entry array g j ≠ 0 → entry after g j ≠ 0
  redirected : ∀ g ≤ array.nextStorage, ∀ j, entry array g j = redirectValue →
    entry after g j = redirectValue
  values : values <+: grown
  listed : contents array <+: contents after
  passed : after.storage = array.storage ∨
    (contents after).length = (array.storages array.storage).size

section Grows

variable {values grown : List Pointer} {array after : ConcurrentPointerarray}

theorem PointerarrayHolds.contents_grows (holds : PointerarrayHolds values array)
    (later : PointerarrayHolds grown after) (more : values <+: grown)
    (counted : (array.storages array.storage).n ≤ (after.storages after.storage).n) :
    contents array <+: contents after := by
  rw [holds.contents_eq, later.contents_eq, List.prefix_take_iff]
  constructor
  · exact (List.take_prefix _ _).trans more
  · exact Nat.le_trans (List.length_take_le _ _) counted

theorem PointerarrayEffect.grows (did : PointerarrayEffect values array grown after)
    (holds : PointerarrayHolds values array) :
    PointerarrayGrows values array grown after := by
  have later := holds.effect did
  have ordered := holds.generations.ordered
  cases did with
  | stays =>
    exact ⟨Nat.le_refl _, Nat.le_refl _, fun _ _ => rfl, fun _ _ => Nat.le_refl _,
      fun _ _ _ filled => filled, fun _ _ _ redirect => redirect, List.prefix_rfl, List.prefix_rfl,
      Or.inl rfl⟩
  | @fills value inside vacant storable =>
    have keeps : ∀ g j, entry array g j ≠ 0 →
      entry (setEntry array array.storage (array.storages array.storage).n value) g j =
        entry array g j := by
      intro g j filled
      apply setEntry_other
      rintro ⟨rfl, rfl⟩
      exact filled vacant
    refine ⟨Nat.le_refl _, Nat.le_refl _, by simp, by simp, ?_, ?_, List.prefix_append _ _,
      ?_, Or.inl rfl⟩
    · intro g _ j filled
      rwa [keeps g j filled]
    · intro g _ j redirect
      rwa [keeps g j (by rw [redirect]; decide)]
    · exact holds.contents_grows later (List.prefix_append _ _) (by simp)
  | @puts i value migrating inside vacant found =>
    have keeps : ∀ g j, entry array g j ≠ 0 → entry (setEntry array array.nextStorage i value) g j =
        entry array g j := by
      intro g j filled
      apply setEntry_other
      rintro ⟨rfl, rfl⟩
      exact filled vacant
    refine ⟨Nat.le_refl _, Nat.le_refl _, by simp, by simp, ?_, ?_, List.prefix_rfl, ?_, Or.inl rfl⟩
    · intro g _ j filled
      rwa [keeps g j filled]
    · intro g _ j redirect
      rwa [keeps g j (by rw [redirect]; decide)]
    · exact holds.contents_grows later List.prefix_rfl (by simp)
  | @freezes i migrating carried =>
    have nonzero : redirectValue ≠ 0 := by decide
    refine ⟨Nat.le_refl _, Nat.le_refl _, by simp, by simp, ?_, ?_, List.prefix_rfl, ?_, Or.inl rfl⟩
    · intro g _ j filled
      by_cases here : g = array.storage ∧ j = i
      · obtain ⟨rfl, rfl⟩ := here
        simpa using nonzero
      · rwa [setEntry_other here]
    · intro g _ j redirect
      by_cases here : g = array.storage ∧ j = i
      · obtain ⟨rfl, rfl⟩ := here
        simp
      · rwa [setEntry_other here]
    · exact holds.contents_grows later List.prefix_rfl (by simp)
  | @advances p linked inside filled =>
    have counts : ∀ g, (array.storages g).n ≤
        ((setCount array p ((array.storages p).n + 1)).storages g).n := by
      intro g
      by_cases same : g = p
      · simp [same]
      · exact Nat.le_of_eq (setCount_other same).symm
    refine ⟨Nat.le_refl _, Nat.le_refl _, by simp, fun g _ => counts g, by simp, by simp,
      List.prefix_rfl, ?_, Or.inl rfl⟩
    exact holds.contents_grows later List.prefix_rfl (counts _)
  | links current full =>
    refine ⟨Nat.le_refl _, Nat.le_succ _, ?_, ?_, ?_, ?_, List.prefix_rfl, ?_, Or.inl rfl⟩
    · intro g linked
      rw [ConcurrentStorages.link_linked linked]
    · intro g linked
      exact Nat.le_of_eq (congrArg Pointerarraystorage.n (ConcurrentStorages.link_linked linked).symm)
    · intro g linked j
      rw [link_entry linked]
      exact id
    · intro g linked j
      rw [link_entry linked]
      exact id
    · apply holds.contents_grows later List.prefix_rfl
      exact Nat.le_of_eq
        (congrArg Pointerarraystorage.n
          (ConcurrentStorages.link_linked (Nat.le_of_eq current.symm)).symm)
  | swaps migrating redirected published =>
    have full := holds.migrating (by omega)
    have counts : (array.storages array.storage).n ≤ (array.storages (array.storage + 1)).n := by
      omega
    refine ⟨Nat.le_succ _, Nat.le_refl _, fun _ _ => rfl, fun _ _ => Nat.le_refl _,
      fun _ _ _ filled => filled, fun _ _ _ redirect => redirect, List.prefix_rfl, ?_, ?_⟩
    · exact holds.contents_grows later List.prefix_rfl counts
    · right
      have lower := later.lower
      have roomy := holds.roomy
      simp only [ConcurrentStorages.swap_storage, ConcurrentStorages.swap_storages] at lower
      rw [PointerarrayHolds.contents_length, ConcurrentStorages.swap_storage,
        ConcurrentStorages.swap_storages]
      omega

end Grows

section Knows

def SeenContents (moments : (ConcurrentPointerarray → Prop) → Prop) (seen : List Pointer) : Prop :=
  moments fun past => contents past = seen

def Searched (array : ConcurrentPointerarray) (search : Pointer) (index : Nat) : Prop :=
  index ≤ (contents array).length ∧ ∀ j < index, (contents array)[j]? ≠ some search

def PointerarrayCall.Knows (array : ConcurrentPointerarray) : PointerarrayCall → Prop
  | .add value => StorableValue value
  | .get _ none => True
  | .get index (some search) => Searched array search index ∧ index < (contents array).length

def SearchKnows (array : ConcurrentPointerarray) : Option (Pointer × Nat) → Prop
  | none => True
  | some (search, index) => Searched array search index

def ReadStorage (moments : (ConcurrentPointerarray → Prop) → Prop) (array : ConcurrentPointerarray)
    (p : Nat) : Prop :=
  array.storage = p ∨ p < array.storage ∧ ∃ seen, SeenContents moments seen ∧
    seen.length = (array.storages p).size ∧ seen <+: contents array

structure PointerarrayMigration.Knows (array : ConcurrentPointerarray)
    (migration : PointerarrayMigration) : Prop where
  call : migration.call.Knows array
  src : migration.src ≤ array.storage
  full : (array.storages migration.src).n = (array.storages migration.src).size
  before : migration.src < migration.next
  linked : migration.next ≤ array.nextStorage

/-- The entries up to `i` are redirected, and `dst` is not older than the next storage. -/
structure CopyKnows (array : ConcurrentPointerarray) (migration : PointerarrayMigration)
    (dst i : Nat) : Prop where
  knows : migration.Knows array
  later : migration.next ≤ dst
  linked : dst ≤ array.nextStorage
  redirected : ∀ j < i, entry array migration.src j = redirectValue
  inside : i ≤ (array.storages migration.src).size

structure FullKnows (array : ConcurrentPointerarray) (p : Nat) (call : PointerarrayCall) : Prop where
  call : call.Knows array
  src : p ≤ array.storage
  full : (array.storages p).n = (array.storages p).size

def PublishCaller.Knows (values : List Pointer) (array : ConcurrentPointerarray) (p : Nat) :
    PublishCaller → Prop
  | .added i _ =>
    p ≤ array.storage ∧ i < (array.storages p).size ∧ i ≤ (array.storages p).n ∧ entry array p i ≠ 0
  | .again value => p ≤ array.storage ∧ StorableValue value
  | .put migration i value =>
    CopyKnows array migration p i ∧ i < (array.storages migration.src).size ∧
      values[i]? = some value ∧ entry array p i ≠ 0
  | .copied migration => CopyKnows array migration p (array.storages migration.src).size

/-- What a thread knows. It stays true whatever the other threads do. -/
def PointerarrayState.Knows (values : List Pointer) (moments : (ConcurrentPointerarray → Prop) → Prop)
    (array : ConcurrentPointerarray) : PointerarrayState → Prop
  | .idle | .aborted => True
  | .countStorage search => SearchKnows array search
  | .countRead p search => SearchKnows array search ∧ ReadStorage moments array p
  | .begin call => call.Knows array
  | .addCount p value => StorableValue value ∧ p ≤ array.storage
  | .addClaim p i value =>
    StorableValue value ∧ p ≤ array.storage ∧ i ≤ (array.storages p).n ∧ i < (array.storages p).size
  | .getCount p index search =>
    (PointerarrayCall.get index search).Knows array ∧ ReadStorage moments array p ∧
      (search ≠ none → index < (array.storages p).n)
  | .getEntry p index search => (PointerarrayCall.get index search).Knows array ∧ p ≤ array.storage ∧
      index < (array.storages p).n
  | .publishCount p caller => p ≤ array.nextStorage ∧ caller.Knows values array p
  | .publishEntry p k caller =>
    p ≤ array.nextStorage ∧ caller.Knows values array p ∧ k ≤ (array.storages p).n ∧
      k < (array.storages p).size
  | .publishAdvance p k caller =>
    p ≤ array.nextStorage ∧ caller.Knows values array p ∧ k < (array.storages p).size ∧
      entry array p k ≠ 0
  | .migrateStorage p call | .migrateNext p call | .migrateLink p call => FullKnows array p call
  | .copyRead migration dst i | .copyFreeze migration dst i => CopyKnows array migration dst i ∧
      i < (array.storages migration.src).size
  | .copyPut migration dst i value =>
    CopyKnows array migration dst i ∧ i < (array.storages migration.src).size ∧
      values[i]? = some value
  | .copyFollow migration dst i value =>
    CopyKnows array migration dst i ∧ i < (array.storages migration.src).size ∧
      values[i]? = some value ∧ entry array dst i = redirectValue
  | .copyRetire migration dst i value =>
    CopyKnows array migration dst i ∧ i < (array.storages migration.src).size ∧
      values[i]? = some value ∧ entry array dst i ≠ 0
  | .migrateSwap migration => migration.Knows array ∧
      (∀ j < (array.storages migration.src).size, entry array migration.src j = redirectValue) ∧
      (array.storages migration.src).size ≤ (array.storages (migration.src + 1)).n

variable {values grown : List Pointer} {array after : ConcurrentPointerarray}
  {before later : (ConcurrentPointerarray → Prop) → Prop}

namespace PointerarrayGrows

variable {p i : Nat}

section

variable (grows : PointerarrayGrows values array grown after)
include grows

theorem getElem?_eq {j : Nat} (inside : j < (contents array).length) :
    (contents after)[j]? = (contents array)[j]? := by
  obtain ⟨more, same⟩ := grows.listed
  rw [← same, List.getElem?_append_left inside]

theorem searched {search : Pointer} {index : Nat}
    (searched : Searched array search index) : Searched after search index := by
  obtain ⟨inside, absent⟩ := searched
  refine ⟨Nat.le_trans inside grows.listed.length_le, fun j within => ?_⟩
  rw [grows.getElem?_eq (Nat.lt_of_lt_of_le within inside)]
  exact absent j within

theorem call {call : PointerarrayCall} (knows : call.Knows array) :
    call.Knows after := by
  cases call with
  | add value => exact knows
  | get index search =>
    cases search with
    | none => trivial
    | some search => exact ⟨grows.searched knows.1, Nat.lt_of_lt_of_le knows.2 grows.listed.length_le⟩

end

theorem search (grows : PointerarrayGrows values array grown after) {search : Option (Pointer × Nat)}
    (knows : SearchKnows array search) : SearchKnows after search := by
  cases search with
  | none => trivial
  | some search => exact grows.searched knows

section

variable (grows : PointerarrayGrows values array grown after)
include grows

theorem readStorage (ordered : array.storage ≤ array.nextStorage)
    (recalls : Recalls before later after) (read : ReadStorage before array p) :
    ReadStorage later after p := by
  rcases read with rfl | ⟨passed, seen, moment, length, listed⟩
  · rcases grows.passed with same | length
    · exact Or.inl same
    · by_cases same : after.storage = array.storage
      · exact Or.inl same
      · have storage := grows.storage
        refine Or.inr ⟨by omega, contents after, recalls _ (Or.inr rfl), ?_, List.prefix_rfl⟩
        rw [length, grows.size _ ordered]
  · have storage := grows.storage
    refine Or.inr ⟨by omega, seen, recalls _ (Or.inl moment), ?_, listed.trans grows.listed⟩
    rw [length, grows.size _ (by omega)]

theorem full (counted : ∀ g ≤ after.nextStorage,
    (after.storages g).n ≤ (after.storages g).size) {g : Nat} (linked : g ≤ array.nextStorage)
    (full : (array.storages g).n = (array.storages g).size) :
    (after.storages g).n = (after.storages g).size := by
  have count := grows.count g linked
  have size := grows.size g linked
  have bound := counted g (Nat.le_trans linked grows.nextStorage)
  omega

theorem migration (counted : ∀ g ≤ after.nextStorage,
    (after.storages g).n ≤ (after.storages g).size) (ordered : array.storage ≤ array.nextStorage)
    {migration : PointerarrayMigration} (knows : migration.Knows array) : migration.Knows after where
  call := grows.call knows.call
  src := Nat.le_trans knows.src grows.storage
  full := grows.full counted (Nat.le_trans knows.src ordered) knows.full
  before := knows.before
  linked := Nat.le_trans knows.linked grows.nextStorage

end

theorem copy (grows : PointerarrayGrows values array grown after) (counted : ∀ g ≤ after.nextStorage,
    (after.storages g).n ≤ (after.storages g).size) (ordered : array.storage ≤ array.nextStorage)
    {migration : PointerarrayMigration} {dst : Nat} (knows : CopyKnows array migration dst i) :
    CopyKnows after migration dst i where
  knows := grows.migration counted ordered knows.knows
  later := knows.later
  linked := Nat.le_trans knows.linked grows.nextStorage
  redirected := fun j within => grows.redirected _ (Nat.le_trans knows.knows.src ordered) j
    (knows.redirected j within)
  inside := by
    rw [grows.size _ (Nat.le_trans knows.knows.src ordered)]
    exact knows.inside

section

variable (grows : PointerarrayGrows values array grown after)
include grows

theorem fullKnows (counted : ∀ g ≤ after.nextStorage,
    (after.storages g).n ≤ (after.storages g).size) (ordered : array.storage ≤ array.nextStorage)
    {call : PointerarrayCall} (knows : FullKnows array p call) : FullKnows after p call where
  call := grows.call knows.call
  src := Nat.le_trans knows.src grows.storage
  full := grows.full counted (Nat.le_trans knows.src ordered) knows.full

theorem found {value : Pointer} (found : values[i]? = some value) : grown[i]? = some value := by
  obtain ⟨more, same⟩ := grows.values
  rw [← same]
  exact found_append found more

theorem caller (counted : ∀ g ≤ after.nextStorage,
    (after.storages g).n ≤ (after.storages g).size) (ordered : array.storage ≤ array.nextStorage)
    (linked : p ≤ array.nextStorage) {caller : PublishCaller} (knows : caller.Knows values array p) :
    caller.Knows grown after p := by
  cases caller with
  | added i value =>
    obtain ⟨current, inside, counts, filled⟩ := knows
    refine ⟨Nat.le_trans current grows.storage, ?_, Nat.le_trans counts (grows.count p linked),
      grows.filled p linked i filled⟩
    rwa [grows.size p linked]
  | again value => exact ⟨Nat.le_trans knows.1 grows.storage, knows.2⟩
  | put migration i value =>
    obtain ⟨copy, inside, found, filled⟩ := knows
    refine ⟨grows.copy counted ordered copy, ?_, grows.found found, grows.filled p linked i filled⟩
    rwa [grows.size _ (Nat.le_trans copy.knows.src ordered)]
  | copied migration =>
    have copy : CopyKnows array migration p (array.storages migration.src).size := knows
    rw [PublishCaller.Knows, grows.size _ (Nat.le_trans copy.knows.src ordered)]
    exact grows.copy counted ordered copy

theorem state (holds : PointerarrayHolds values array)
    (next : PointerarrayHolds grown after) {here : PointerarrayState}
    (recalls : here ≠ .idle → Recalls before later after) (knows : here.Knows values before array) :
    here.Knows grown later after := by
  have ordered := holds.generations.ordered
  have counted := next.counted
  cases here with
  | idle => trivial
  | aborted => trivial
  | countStorage search => exact grows.search knows
  | countRead p search =>
    exact ⟨grows.search knows.1, grows.readStorage ordered (recalls nofun) knows.2⟩
  | begin call => exact grows.call knows
  | addCount p value => exact ⟨knows.1, Nat.le_trans knows.2 grows.storage⟩
  | addClaim p i value =>
    obtain ⟨storable, current, counts, inside⟩ := knows
    have linked := Nat.le_trans current ordered
    refine ⟨storable, Nat.le_trans current grows.storage,
      Nat.le_trans counts (grows.count p linked), ?_⟩
    rwa [grows.size p linked]
  | getCount p index search =>
    obtain ⟨call, read, inside⟩ := knows
    refine ⟨grows.call call, grows.readStorage ordered (recalls nofun) read, fun searching => ?_⟩
    have linked : p ≤ array.nextStorage := by
      rcases read with rfl | ⟨passed, _⟩ <;> omega
    exact Nat.lt_of_lt_of_le (inside searching) (grows.count p linked)
  | getEntry p index search =>
    obtain ⟨call, current, inside⟩ := knows
    exact ⟨grows.call call, Nat.le_trans current grows.storage,
      Nat.lt_of_lt_of_le inside (grows.count p (Nat.le_trans current ordered))⟩
  | publishCount p caller =>
    exact ⟨Nat.le_trans knows.1 grows.nextStorage, grows.caller counted ordered knows.1 knows.2⟩
  | publishEntry p k caller =>
    obtain ⟨linked, caller, counts, inside⟩ := knows
    refine ⟨Nat.le_trans linked grows.nextStorage, grows.caller counted ordered linked caller,
      Nat.le_trans counts (grows.count p linked), ?_⟩
    rwa [grows.size p linked]
  | publishAdvance p k caller =>
    obtain ⟨linked, caller, inside, filled⟩ := knows
    refine ⟨Nat.le_trans linked grows.nextStorage, grows.caller counted ordered linked caller, ?_,
      grows.filled p linked k filled⟩
    rwa [grows.size p linked]
  | migrateStorage p call => exact grows.fullKnows counted ordered knows
  | migrateNext p call => exact grows.fullKnows counted ordered knows
  | migrateLink p call => exact grows.fullKnows counted ordered knows
  | copyRead migration dst i =>
    refine ⟨grows.copy counted ordered knows.1, ?_⟩
    rw [grows.size _ (Nat.le_trans knows.1.knows.src ordered)]
    exact knows.2
  | copyFreeze migration dst i =>
    refine ⟨grows.copy counted ordered knows.1, ?_⟩
    rw [grows.size _ (Nat.le_trans knows.1.knows.src ordered)]
    exact knows.2
  | copyPut migration dst i value =>
    obtain ⟨copy, inside, found⟩ := knows
    refine ⟨grows.copy counted ordered copy, ?_, grows.found found⟩
    rwa [grows.size _ (Nat.le_trans copy.knows.src ordered)]
  | copyFollow migration dst i value =>
    obtain ⟨copy, inside, found, redirect⟩ := knows
    refine ⟨grows.copy counted ordered copy, ?_, grows.found found,
      grows.redirected _ copy.linked i redirect⟩
    rwa [grows.size _ (Nat.le_trans copy.knows.src ordered)]
  | copyRetire migration dst i value =>
    obtain ⟨copy, inside, found, filled⟩ := knows
    refine ⟨grows.copy counted ordered copy, ?_, grows.found found,
      grows.filled _ copy.linked i filled⟩
    rwa [grows.size _ (Nat.le_trans copy.knows.src ordered)]
  | migrateSwap migration =>
    obtain ⟨knows, redirected, published⟩ := knows
    have linked := Nat.le_trans knows.src ordered
    refine ⟨grows.migration counted ordered knows, ?_, ?_⟩
    · intro j within
      rw [grows.size _ linked] at within
      exact grows.redirected _ linked j (redirected j within)
    · rw [grows.size _ linked]
      exact Nat.le_trans published (grows.count _ (Nat.le_trans knows.before knows.linked))

end

end PointerarrayGrows

end Knows

section Steps

variable {Thread : Type} {values : List Pointer} {array after : ConcurrentPointerarray}
  {moments : (ConcurrentPointerarray → Prop) → Prop} {thread : Thread}
variable {here there : PointerarrayState} {dst i : Nat}

def PublishCaller.pending : PublishCaller → Option (Nat × Pointer)
  | .added i value => some (i, value)
  | _ => none

def PointerarrayState.pending : PointerarrayState → Option (Nat × Pointer)
  | .publishCount _ caller | .publishEntry _ _ caller | .publishAdvance _ _ caller => caller.pending
  | _ => none

def PointerarrayEvent.grow (values : List Pointer) : Option (PointerarrayEvent Thread) → List Pointer
  | some (.filled _ value) => values ++ [value]
  | _ => values

def PointerarrayVerdict (moments : (ConcurrentPointerarray → Prop) → Prop)
    (after : ConcurrentPointerarray) :
    PointerarrayEvent Thread → Prop
  | .filled _ _ | .added _ _ => True
  | .got index value => ∃ seen, SeenContents moments seen ∧ seen.getD index 0 = value
  | .counted n => ∃ seen, SeenContents moments seen ∧ seen.length = n
  | .found search isThere => ∃ seen, SeenContents moments seen ∧ (isThere = true ↔ search ∈ seen)
  | .migrated p => p < after.storage ∧ (after.storages p).size < (after.storages after.storage).size

inductive PendingStep (thread : Thread) (filled counted : Nat) : Option (Nat × Pointer) →
    Option (PointerarrayEvent Thread) → Option (Nat × Pointer) → Prop where
  | fills {value : Pointer} :
      PendingStep thread filled counted none (some (.filled thread value)) (some (filled, value))
  | adds {i : Nat} {value : Pointer} (within : i < counted) :
      PendingStep thread filled counted (some (i, value)) (some (.added thread value)) none
  | keeps {pending : Option (Nat × Pointer)} {event : Option (PointerarrayEvent Thread)}
      (other : ∀ mover value, event ≠ some (.filled mover value) ∧
        event ≠ some (.added mover value)) :
      PendingStep thread filled counted pending event pending

structure PointerarrayDoes (thread : Thread) (values : List Pointer)
    (moments : (ConcurrentPointerarray → Prop) → Prop) (array : ConcurrentPointerarray)
    (here : PointerarrayState) (after : ConcurrentPointerarray) (there : PointerarrayState)
    (event : Option (PointerarrayEvent Thread)) : Prop where
  effect : PointerarrayEffect values array (PointerarrayEvent.grow values event) after
  knows : ∀ later, (there ≠ .idle → Recalls moments later after) →
    there.Knows (PointerarrayEvent.grow values event) later after
  pending : PendingStep thread values.length (contents after).length here.pending event there.pending
  verdict : ∀ happened, event = some happened → PointerarrayVerdict moments after happened

def PointerarrayDoesSome (thread : Thread) (values : List Pointer)
    (moments : (ConcurrentPointerarray → Prop) → Prop) (array : ConcurrentPointerarray)
    (here : PointerarrayState) (result : Result Thread) : Prop :=
  ∃ after there event, result = some (after, there, event) ∧
    PointerarrayDoes thread values moments array here after there event

theorem doesSome_silent (effect : PointerarrayEffect values array values after)
    (knows : ∀ later, (there ≠ .idle → Recalls moments later after) → there.Knows values later after)
    (pending : there.pending = here.pending) :
    PointerarrayDoesSome thread values moments array here (some (after, there, none)) :=
  ⟨_, _, _, rfl, effect, knows, by rw [pending]; exact .keeps (by simp), nofun⟩

theorem doesSome_reads
    (knows : ∀ later, (there ≠ .idle → Recalls moments later array) → there.Knows values later array)
    (pending : there.pending = here.pending) :
    PointerarrayDoesSome thread values moments array here (some (array, there, none)) :=
  doesSome_silent .stays knows pending

theorem doesSome_reports {event : PointerarrayEvent Thread} (quiet : here.pending = none)
    (other : ∀ mover value, event ≠ .filled mover value ∧ event ≠ .added mover value)
    (verdict : PointerarrayVerdict moments array event) :
    PointerarrayDoesSome thread values moments array here (some (array, .idle, some event)) := by
  have same : PointerarrayEvent.grow values (some event) = values := by
    cases event with
    | filled mover value => exact absurd rfl (other mover value).1
    | _ => rfl
  refine ⟨_, _, _, rfl, ?_, fun _ _ => trivial, ?_, ?_⟩
  · rw [same]
    exact .stays
  · rw [quiet]
    exact .keeps (by simpa using other)
  · rintro happened ⟨⟩
    exact verdict

theorem copyNext_knows {migration : PointerarrayMigration} (copy : CopyKnows array migration dst i)
    (inside : i < (array.storages migration.src).size)
    (redirect : entry array migration.src i = redirectValue)
    (later : (ConcurrentPointerarray → Prop) → Prop) :
    (copyNext array migration dst (i + 1)).Knows values later array := by
  have redirected : ∀ j < i + 1, entry array migration.src j = redirectValue := by
    intro j within
    rcases Nat.lt_or_eq_of_le (Nat.le_of_lt_succ within) with before | rfl
    · exact copy.redirected j before
    · exact redirect
  rw [copyNext]
  split
  next more => exact ⟨⟨copy.knows, copy.later, copy.linked, redirected, inside⟩, more⟩
  next last =>
    have same : (array.storages migration.src).size = i + 1 := by omega
    refine ⟨copy.linked, copy.knows, copy.later, copy.linked, ?_, Nat.le_refl _⟩
    rwa [same]

theorem copyNext_setEntry {migration : PointerarrayMigration} {j : Nat} (p i : Nat)
    (value : Pointer) :
    copyNext (setEntry array p i value) migration dst j = copyNext array migration dst j := by
  simp [copyNext]

theorem copyBegin_knows {migration : PointerarrayMigration} (knows : migration.Knows array)
    (later : (ConcurrentPointerarray → Prop) → Prop) :
    (copyBegin array migration).Knows values later array := by
  rw [copyBegin]
  split
  next empty =>
    refine ⟨knows, ?_, ?_⟩
    · intro j within
      rw [empty] at within
      exact absurd within (Nat.not_lt_zero j)
    · rw [empty]
      exact Nat.zero_le _
  next some' =>
    have inside : 0 < (array.storages migration.src).size := Nat.pos_of_ne_zero some'
    exact ⟨⟨knows, Nat.le_refl _, knows.linked, fun j within => absurd within (Nat.not_lt_zero j),
      Nat.zero_le _⟩, inside⟩

@[simp] theorem copyNext_pending {migration : PointerarrayMigration} :
    (copyNext array migration dst i).pending = none := by
  rw [copyNext]
  split <;> rfl

@[simp] theorem copyValue_pending {migration : PointerarrayMigration} {value : Pointer} :
    (copyValue array migration dst i value).pending = none := by
  rw [copyValue]
  split
  next => rfl
  next =>
    split
    next => exact copyNext_pending
    next => rfl

@[simp] theorem copyBegin_pending {migration : PointerarrayMigration} :
    (copyBegin array migration).pending = none := by
  rw [copyBegin]
  split <;> rfl

namespace PointerarrayHolds

variable {p : Nat}

section

variable (holds : PointerarrayHolds values array)
include holds

theorem count_le (current : p ≤ array.storage) :
    (array.storages p).n ≤ (array.storages array.storage).n := by
  rcases Nat.lt_or_eq_of_le current with before | rfl
  · have below := holds.below p before
    omega
  · exact Nat.le_refl _

theorem seen (now : ∀ holds : ConcurrentPointerarray → Prop, holds array → moments holds)
    (read : ReadStorage moments array p) :
    ∃ seen, SeenContents moments seen ∧ seen.length = (array.storages p).n ∧
      seen <+: contents array := by
  rcases read with rfl | ⟨passed, seen, moment, length, listed⟩
  · exact ⟨contents array, now _ rfl, contents_length, List.prefix_rfl⟩
  · exact ⟨seen, moment, length.trans (holds.below p passed).1.symm, listed⟩

theorem getElem?_contents {i : Nat} (current : p ≤ array.storage)
    (inside : i < (array.storages p).n) (open' : entry array p i ≠ redirectValue) :
    (contents array)[i]? = some (entry array p i) := by
  have linked := Nat.le_trans current holds.generations.ordered
  rw [holds.contents_eq, List.getElem?_take_of_lt
    (Nat.lt_of_lt_of_le inside (holds.count_le current))]
  exact holds.agrees p linked i (holds.filled p linked i inside) open'

theorem published {k m : Nat} (linked : p ≤ array.nextStorage)
    (done : (array.storages p).size ≤ (array.storages p).n ∨ k ≤ (array.storages p).n ∧
      entry array p k = 0 ∨
      entry array p k = redirectValue)
    (inside : m ≤ (array.storages p).size) (filled : ∀ j < m, entry array p j ≠ 0) :
    m ≤ (array.storages p).n := by
  rcases done with whole | ⟨_, vacant⟩ | redirect
  · exact Nat.le_trans inside whole
  · by_contra more
    exact filled k (by omega) vacant
  · rw [holds.full linked redirect]
    exact inside

end

section Returns

variable (holds : PointerarrayHolds values array)
variable {here : PointerarrayState} {p index : Nat}

include holds

theorem copyValue_knows {migration : PointerarrayMigration} {dst i : Nat}
    (copy : CopyKnows array migration dst i) (inside : i < (array.storages migration.src).size)
    (later : (ConcurrentPointerarray → Prop) → Prop) :
    (copyValue array migration dst i (entry array migration.src i)).Knows values later array := by
  rw [copyValue]
  split
  next => exact ⟨copy, inside⟩
  next filled =>
    split
    next redirect => exact copyNext_knows copy inside redirect later
    next open' =>
      have linked := Nat.le_trans copy.knows.src holds.generations.ordered
      exact ⟨copy, inside, holds.agrees _ linked i filled open'⟩

theorem publishReturn_does {k : Nat} {caller : PublishCaller} (linked : p ≤ array.nextStorage)
    (knows : caller.Knows values array p) (pending : here.pending = caller.pending)
    (done : (array.storages p).size ≤ (array.storages p).n ∨ k ≤ (array.storages p).n ∧
      entry array p k = 0 ∨
      entry array p k = redirectValue) :
    PointerarrayDoesSome thread values moments array here (publishReturn thread array p caller) := by
  cases caller with
  | added i value =>
    obtain ⟨current, inside, counts, filled⟩ := knows
    have counted : i + 1 ≤ (array.storages p).n := by
      refine holds.published linked done inside fun j within => ?_
      rcases Nat.lt_or_eq_of_le (Nat.le_of_lt_succ within) with before | rfl
      · exact holds.filled p linked j (Nat.lt_of_lt_of_le before counts)
      · exact filled
    refine ⟨_, _, _, rfl, .stays, fun _ _ => trivial, ?_, ?_⟩
    · rw [pending]
      refine .adds ?_
      rw [contents_length]
      exact Nat.lt_of_lt_of_le counted (holds.count_le current)
    · rintro happened ⟨⟩
      trivial
  | again value => exact doesSome_reads (fun _ _ => ⟨knows.2, knows.1⟩) pending.symm
  | put migration i value => exact doesSome_reads (fun _ _ => knows) pending.symm
  | copied migration =>
    have copy : CopyKnows array migration p (array.storages migration.src).size := knows
    refine doesSome_reads (fun _ _ => ⟨copy.knows, copy.redirected, ?_⟩) pending.symm
    have before := copy.knows.before
    have later := copy.later
    have near := holds.generations.near
    have src := copy.knows.src
    have bound := holds.generations.size_le (g := migration.src) (h := p) (by omega) linked
    by_cases passed : migration.src < array.storage
    · by_cases next : migration.src + 1 < array.storage
      · rw [(holds.below _ next).1]
        exact holds.generations.size_le (Nat.le_succ _) (by omega)
      · have same : migration.src + 1 = array.storage := by omega
        rw [same]
        exact (holds.below _ passed).2
    · have same : p = migration.src + 1 := by omega
      subst same
      refine holds.published linked done bound fun j within => ?_
      exact (holds.redirected _ (by omega) j (copy.redirected j within)).2.2

section

variable (now : ∀ holds : ConcurrentPointerarray → Prop, holds array → moments holds)
include now

theorem getReturn_none {search : Option Pointer}
    (read : ReadStorage moments array p) (inside : search ≠ none → index < (array.storages p).n)
    (outside : (array.storages p).n ≤ index) :
    PointerarrayDoesSome thread values moments array (.getCount p index search)
      (getReturn array index 0 search) := by
  cases search with
  | none =>
    obtain ⟨seen, moment, length, _⟩ := holds.seen now read
    refine doesSome_reports rfl (by simp) ⟨seen, moment, ?_⟩
    simp [List.getElem?_eq_none (Nat.le_trans (Nat.le_of_eq length) outside)]
  | some search => exact absurd (inside nofun) (Nat.not_lt_of_le outside)

theorem getReturn_value {search : Option Pointer}
    (call : (PointerarrayCall.get index search).Knows array) (current : p ≤ array.storage)
    (inside : index < (array.storages p).n) (open' : entry array p index ≠ redirectValue) :
    PointerarrayDoesSome thread values moments array (.getEntry p index search)
      (getReturn array index (entry array p index) search) := by
  have found := holds.getElem?_contents current inside open'
  cases search with
  | none =>
    refine doesSome_reports rfl (by simp) ⟨contents array, now _ rfl, ?_⟩
    rw [List.getD_eq_getElem?_getD, found]
    rfl
  | some search =>
    have filled := holds.filled p (Nat.le_trans current holds.generations.ordered) index inside
    rw [getReturn, if_neg filled]
    split
    next same =>
      refine doesSome_reports rfl (by simp) ⟨contents array, now _ rfl, ?_⟩
      rw [← same]
      simpa using List.mem_of_getElem? found
    next other =>
      obtain ⟨⟨_, absent⟩, within⟩ := call
      refine doesSome_reads (fun _ _ => ⟨within, fun j before => ?_⟩) rfl
      rcases Nat.lt_or_eq_of_le (Nat.le_of_lt_succ before) with earlier | rfl
      · exact absent j earlier
      · rw [found]
        exact fun same => other (Option.some.inj same)

theorem countReturn_does {search : Option (Pointer × Nat)} (knows : SearchKnows array search)
    (read : ReadStorage moments array p) :
    PointerarrayDoesSome thread values moments array (.countRead p search)
      (countReturn array (array.storages p).n search) := by
  obtain ⟨seen, moment, length, listed⟩ := holds.seen now read
  cases search with
  | none => exact doesSome_reports rfl (by simp) ⟨seen, moment, length⟩
  | some search =>
    obtain ⟨search, index⟩ := search
    rw [countReturn]
    split
    next outside =>
      refine doesSome_reports rfl (by simp) ⟨seen, moment, ?_⟩
      simp only [Bool.false_eq_true, false_iff]
      intro member
      obtain ⟨j, within, same⟩ := List.mem_iff_getElem.mp member
      refine knows.2 j (by omega) ?_
      rw [List.getElem?_eq_getElem (Nat.lt_of_lt_of_le within listed.length_le),
        ← listed.getElem within, same]
    next inside =>
      have more := listed.length_le
      exact doesSome_reads (fun _ _ => ⟨knows, by omega⟩) rfl

end

theorem proceed_does (knows : here.Knows values moments array)
    (now : here ≠ .idle → ∀ holds : ConcurrentPointerarray → Prop, holds array → moments holds) :
    PointerarrayDoesSome thread values moments array here (proceed thread array here) := by
  have ordered := holds.generations.ordered
  have near := holds.generations.near
  cases here with
  | idle => exact doesSome_reads (fun _ _ => trivial) rfl
  | aborted => exact doesSome_reads (fun _ _ => trivial) rfl
  | countStorage search => exact doesSome_reads (fun _ _ => ⟨knows, Or.inl rfl⟩) rfl
  | countRead p search => exact holds.countReturn_does (now (by simp)) knows.1 knows.2
  | begin call =>
    cases call with
    | add value => exact doesSome_reads (fun _ _ => ⟨knows, Nat.le_refl _⟩) rfl
    | get index search =>
      refine doesSome_reads (fun _ _ => ⟨knows, Or.inl rfl, fun searching => ?_⟩) rfl
      cases search with
      | none => exact absurd rfl searching
      | some search =>
        have inside := knows.2
        rwa [contents_length] at inside
  | addCount p value =>
    obtain ⟨storable, current⟩ := knows
    have counted := holds.counted p (Nat.le_trans current ordered)
    rw [proceed]
    split
    next whole =>
      exact doesSome_reads (fun _ _ => ⟨storable, current, Nat.le_antisymm counted whole⟩) rfl
    next room =>
      exact doesSome_reads (fun _ _ => ⟨storable, current, Nat.le_refl _, Nat.lt_of_not_le room⟩) rfl
  | addClaim p i value =>
    obtain ⟨storable, current, counts, inside⟩ := knows
    have linked := Nat.le_trans current ordered
    rw [proceed, if_neg (Nat.not_le_of_lt inside)]
    split
    next redirect =>
      exact doesSome_reads (fun _ _ => ⟨storable, current, holds.full linked redirect⟩) rfl
    next open' =>
      split
      next vacant =>
        obtain rfl : p = array.storage := Nat.le_antisymm current (holds.storage_le inside open')
        obtain rfl : i = (array.storages array.storage).n := by
          by_contra other
          exact holds.filled _ linked i (by omega) vacant
        refine ⟨_, _, _, rfl, .fills inside vacant storable, fun _ _ => ?_, ?_, ?_⟩
        · refine ⟨linked, Nat.le_refl _, ?_, ?_, ?_⟩
          · simpa using inside
          · simp
          · simpa using storable.1
        · have length : values.length = (array.storages array.storage).n := by
            have lower := holds.lower
            by_contra other
            exact holds.last (by omega) vacant
          rw [← length]
          exact .fills
        · rintro happened ⟨⟩
          trivial
      next => exact doesSome_reads (fun _ _ => ⟨linked, current, storable⟩) rfl
  | getCount p index search =>
    obtain ⟨call, read, within⟩ := knows
    rw [proceed]
    split
    next outside => exact holds.getReturn_none (now (by simp)) read within outside
    next inside =>
      refine doesSome_reads (fun _ _ => ⟨call, ?_, Nat.lt_of_not_le inside⟩) rfl
      rcases read with rfl | ⟨passed, _⟩
      · exact Nat.le_refl _
      · exact Nat.le_of_lt passed
  | getEntry p index search =>
    obtain ⟨call, current, inside⟩ := knows
    have linked := Nat.le_trans current ordered
    rw [proceed, if_neg (Nat.not_le_of_lt (Nat.lt_of_lt_of_le inside (holds.counted p linked)))]
    split
    next redirect => exact doesSome_reads (fun _ _ => ⟨call, current, holds.full linked redirect⟩) rfl
    next open' => exact holds.getReturn_value (now (by simp)) call current inside open'
  | publishCount p caller =>
    obtain ⟨linked, knows⟩ := knows
    rw [proceed]
    split
    next whole => exact holds.publishReturn_does (k := 0) linked knows rfl (Or.inl whole)
    next room =>
      exact doesSome_reads (fun _ _ => ⟨linked, knows, Nat.le_refl _, Nat.lt_of_not_le room⟩) rfl
  | publishEntry p k caller =>
    obtain ⟨linked, knows, counts, inside⟩ := knows
    rw [proceed, if_neg (Nat.not_le_of_lt inside)]
    split
    next done =>
      refine holds.publishReturn_does (k := k) linked knows rfl (Or.inr ?_)
      rcases done with vacant | redirect
      · exact Or.inl ⟨counts, vacant⟩
      · exact Or.inr redirect
    next filled =>
      exact doesSome_reads
        (fun _ _ => ⟨linked, knows, inside, fun vacant => filled (Or.inl vacant)⟩) rfl
  | publishAdvance p k caller =>
    obtain ⟨linked, knows, inside, filled⟩ := knows
    rw [proceed]
    split
    next same =>
      subst same
      have effect : PointerarrayEffect values array values _ := .advances linked inside filled
      exact doesSome_silent effect
        (fun _ _ => ⟨linked, (effect.grows holds).caller (holds.effect effect).counted ordered
          linked knows⟩) rfl
    next => exact doesSome_reads (fun _ _ => ⟨linked, knows⟩) rfl
  | migrateStorage p call =>
    rw [proceed]
    split
    next => exact doesSome_reads (fun _ _ => knows) rfl
    next other =>
      have passed : p < array.storage := Nat.lt_of_le_of_ne knows.src (Ne.symm other)
      refine ⟨_, _, _, rfl, .stays, fun _ _ => knows.call, .keeps (by simp), ?_⟩
      rintro happened ⟨⟩
      exact ⟨passed, holds.generations.size_lt passed ordered⟩
  | migrateNext p call =>
    rw [proceed]
    split
    next other =>
      have before : p < array.nextStorage :=
        Nat.lt_of_le_of_ne (Nat.le_trans knows.src ordered) (Ne.symm other)
      exact doesSome_reads (fun later _ =>
        copyBegin_knows ⟨knows.call, knows.src, knows.full, before, Nat.le_refl _⟩ later)
          copyBegin_pending
    next =>
      split
      next => exact doesSome_reads (fun _ _ => trivial) rfl
      next => exact doesSome_reads (fun _ _ => knows) rfl
  | migrateLink p call =>
    rw [proceed]
    split
    next same =>
      have src := knows.src
      obtain rfl : p = array.storage := by omega
      have effect : PointerarrayEffect values array values _ := .links same knows.full
      have grows := effect.grows holds
      have linked : PointerarrayMigration.Knows
        (array.link (allocStorage ((array.storages array.storage).size * 2)))
          ⟨call, array.storage, array.nextStorage + 1⟩ :=
        ⟨grows.call knows.call, Nat.le_refl _, grows.full (holds.effect effect).counted
          ordered knows.full, Nat.lt_succ_of_le ordered, Nat.le_refl _⟩
      exact doesSome_silent effect (fun later _ => copyBegin_knows linked later) copyBegin_pending
    next other =>
      have before : p < array.nextStorage :=
        Nat.lt_of_le_of_ne (Nat.le_trans knows.src ordered) (Ne.symm other)
      exact doesSome_reads (fun later _ =>
        copyBegin_knows ⟨knows.call, knows.src, knows.full, before, Nat.le_refl _⟩ later)
          copyBegin_pending
  | copyRead migration dst i =>
    rw [proceed, if_neg (Nat.not_le_of_lt knows.2)]
    exact doesSome_reads (fun later _ => holds.copyValue_knows knows.1 knows.2 later)
      copyValue_pending
  | copyFreeze migration dst i =>
    obtain ⟨copy, inside⟩ := knows
    rw [proceed, if_neg (Nat.not_le_of_lt inside)]
    split
    next vacant =>
      -- a storage that is migrated is full
      have filled := holds.filled _ (Nat.le_trans copy.knows.src ordered) i
        (by rw [copy.knows.full]; exact inside)
      exact absurd vacant filled
    next =>
      exact doesSome_reads (fun later _ => holds.copyValue_knows copy inside later) copyValue_pending
  | copyPut migration dst i value =>
    obtain ⟨copy, inside, found⟩ := knows
    have src := copy.knows.src
    have before := copy.knows.before
    have later := copy.later
    have larger := holds.generations.size_le (g := migration.src) (h := dst) (by omega) copy.linked
    have insideDst := Nat.lt_of_lt_of_le inside larger
    rw [proceed, if_neg (Nat.not_le_of_lt insideDst)]
    split
    next redirect => exact doesSome_reads (fun _ _ => ⟨copy, inside, found, redirect⟩) rfl
    next open' =>
      split
      next vacant =>
        have current := holds.storage_le insideDst open'
        -- what was copied to the current storage is counted there
        have migrating : array.storage < dst := by
          by_contra passed
          have same : dst = array.storage := by omega
          subst same
          have below := (holds.below migration.src (by omega)).2
          exact holds.filled _ copy.linked i (by omega) vacant
        have linked := copy.linked
        obtain rfl : dst = array.nextStorage := by omega
        have whole := holds.generations.size_le src ordered
        have effect : PointerarrayEffect values array values _ :=
          .puts migrating (Nat.lt_of_lt_of_le inside whole) vacant found
        have grows := effect.grows holds
        refine doesSome_silent effect (fun _ _ => ⟨Nat.le_refl _, ?_, ?_, found, ?_⟩) rfl
        · exact grows.copy (holds.effect effect).counted ordered copy
        · simpa using inside
        · simpa using (holds.storable value (List.mem_of_getElem? found)).1
      next filled => exact doesSome_reads (fun _ _ => ⟨copy.linked, copy, inside, found, filled⟩) rfl
  | copyFollow migration dst i value =>
    obtain ⟨copy, inside, found, redirect⟩ := knows
    have passed := (holds.redirected _ copy.linked i redirect).1
    rw [proceed, if_neg (Nat.ne_of_gt passed)]
    refine doesSome_reads
      (fun _ _ => ⟨⟨copy.knows, ?_, Nat.le_refl _, copy.redirected, copy.inside⟩, inside, found⟩) rfl
    exact Nat.le_trans copy.later copy.linked
  | copyRetire migration dst i value =>
    obtain ⟨copy, inside, found, filled⟩ := knows
    have src := copy.knows.src
    have before := copy.knows.before
    have later := copy.later
    have linked := copy.linked
    have open' := (holds.storable value (List.mem_of_getElem? found)).2
    rw [proceed, if_neg (Nat.not_le_of_lt inside)]
    split
    next same =>
      obtain current : migration.src = array.storage := by
        refine Nat.le_antisymm src (holds.storage_le inside ?_)
        rw [same]
        exact open'
      have next : dst = array.storage + 1 := by omega
      rw [next] at filled
      have effect : PointerarrayEffect values array values
        (setEntry array array.storage i redirectValue) :=
        .freezes (by omega) filled
      rw [current]
      have grows := effect.grows holds
      have copyAfter := grows.copy (holds.effect effect).counted ordered copy
      refine doesSome_silent effect (fun later _ => ?_) copyNext_pending
      rw [← copyNext_setEntry array.storage i redirectValue]
      refine copyNext_knows copyAfter ?_ ?_ later
      · simpa using inside
      · rw [current]
        exact setEntry_same
    next =>
      exact doesSome_reads (fun later _ => holds.copyValue_knows copy inside later) copyValue_pending
  | migrateSwap migration =>
    obtain ⟨knows, redirected, published⟩ := knows
    have src := knows.src
    have before := knows.before
    have linked := knows.linked
    rw [proceed]
    split
    next same =>
      have next : migration.next = array.storage + 1 := by omega
      rw [← same] at redirected published
      have effect : PointerarrayEffect values array values (array.swap isEmptyStorage array.storage
        (array.storage + 1)) :=
        .swaps (by omega) redirected published
      have grows := effect.grows holds
      rw [← same, next]
      refine ⟨_, _, _, rfl, effect, fun _ _ => grows.call knows.call, .keeps (by simp), ?_⟩
      rintro happened ⟨⟩
      exact ⟨Nat.lt_succ_self _, holds.generations.grown _ (by omega)⟩
    next other =>
      have passed : migration.src < array.storage := Nat.lt_of_le_of_ne src (Ne.symm other)
      refine ⟨_, _, _, rfl, .stays, fun _ _ => knows.call, .keeps (by simp), ?_⟩
      rintro happened ⟨⟩
      exact ⟨passed, holds.generations.size_lt passed ordered⟩

end Returns

end PointerarrayHolds

theorem PointerarrayHolds.step_does (holds : PointerarrayHolds values array)
    (knows : here.Knows values moments array)
    (now : here ≠ .idle → ∀ holds : ConcurrentPointerarray → Prop, holds array → moments holds)
    (move : PointerarrayMove) :
    PointerarrayDoesSome thread values moments array here (step thread array here move) := by
  have stays : PointerarrayDoesSome thread values moments array here (some (array, here, none)) := by
    refine doesSome_reads (fun later recalls => ?_) rfl
    exact (PointerarrayEffect.grows .stays holds).state holds holds recalls knows
  have nothing : ∀ search, Searched array search 0 :=
    fun search => ⟨Nat.zero_le _, fun j within => absurd within (Nat.not_lt_zero j)⟩
  cases move with
  | proceed => exact holds.proceed_does knows now
  | add value =>
    rw [step]
    split
    next => exact stays
    next proper =>
      obtain ⟨idle, nonzero, open'⟩ : here = .idle ∧ value ≠ 0 ∧ value ≠ redirectValue := by
        simpa using proper
      subst idle
      exact doesSome_reads (fun _ _ => ⟨nonzero, open'⟩) rfl
  | get index =>
    rw [step]
    split
    next idle =>
      subst idle
      exact doesSome_reads (fun _ _ => trivial) rfl
    next => exact stays
  | getCount =>
    rw [step]
    split
    next idle =>
      subst idle
      exact doesSome_reads (fun _ _ => trivial) rfl
    next => exact stays
  | find search =>
    rw [step]
    split
    next => exact stays
    next proper =>
      obtain ⟨idle, _⟩ : here = .idle ∧ search ≠ 0 ∧ search ≠ redirectValue := by simpa using proper
      subst idle
      exact doesSome_reads (fun _ _ => nothing search) rfl

end Steps

section Runs

variable {Thread : Type}
variable {thread : Thread} {filled counted : Nat} {event : Option (PointerarrayEvent Thread)}
  {events : List (Option (PointerarrayEvent Thread))} {more : Nat}

def PointerarrayEvent.filledIn : Option (PointerarrayEvent Thread) → Option (Thread × Pointer)
  | some (.filled thread value) => some (thread, value)
  | _ => none

def PointerarrayEvent.addedIn : Option (PointerarrayEvent Thread) → Option (Thread × Pointer)
  | some (.added thread value) => some (thread, value)
  | _ => none

def filledIn (events : List (Option (PointerarrayEvent Thread))) : List (Thread × Pointer) :=
  events.filterMap PointerarrayEvent.filledIn

def addedIn (events : List (Option (PointerarrayEvent Thread))) : List (Thread × Pointer) :=
  events.filterMap PointerarrayEvent.addedIn

def filledValues (events : List (Option (PointerarrayEvent Thread))) : List Pointer :=
  (filledIn events).map Prod.snd

theorem filledValues_concat (events : List (Option (PointerarrayEvent Thread)))
    (event : Option (PointerarrayEvent Thread)) :
    filledValues (events ++ [event]) = PointerarrayEvent.grow (filledValues events) event := by
  rcases event with _ | event
  · simp [filledValues, filledIn, PointerarrayEvent.filledIn, PointerarrayEvent.grow]
  · cases event <;> simp [filledValues, filledIn, PointerarrayEvent.filledIn, PointerarrayEvent.grow]

theorem filledIn_concat (events : List (Option (PointerarrayEvent Thread)))
    (event : Option (PointerarrayEvent Thread)) :
    filledIn (events ++ [event]) = filledIn events ++ (PointerarrayEvent.filledIn event).toList := by
  cases found : PointerarrayEvent.filledIn event <;> simp [filledIn, found]

theorem addedIn_concat (events : List (Option (PointerarrayEvent Thread)))
    (event : Option (PointerarrayEvent Thread)) :
    addedIn (events ++ [event]) = addedIn events ++ (PointerarrayEvent.addedIn event).toList := by
  cases found : PointerarrayEvent.addedIn event <;> simp [addedIn, found]

theorem PendingStep.settles {pending next : Option (Nat × Pointer)}
    (did : PendingStep thread filled counted pending event next) :
    SettleStep thread (pending.map Prod.snd) (PointerarrayEvent.filledIn event)
      (PointerarrayEvent.addedIn event) (next.map Prod.snd) := by
  cases did with
  | fills => exact .begins
  | adds within => exact .finishes
  | keeps silent =>
    rcases event with _ | event
    · exact .keeps
    · cases event with
      | filled mover value => exact absurd rfl (silent mover value).1
      | added mover value => exact absurd rfl (silent mover value).2
      | _ => exact .keeps

variable [DecidableEq Thread]

structure OwnAdds (thread : Thread) (events : List (Option (PointerarrayEvent Thread)))
    (counted : Nat) (pending : Option (Nat × Pointer)) : Prop where
  here : ∀ i value, pending = some (i, value) → (filledIn events)[i]? = some (thread, value)
  listed : ∀ i value, (filledIn events)[i]? = some (thread, value) → i < counted ∨
    pending = some (i, value)
  settled : Settled thread (filledIn events) (addedIn events) (pending.map Prod.snd)

theorem OwnAdds.other {mover : Thread} {pending first second : Option (Nat × Pointer)}
    (own : OwnAdds thread events counted pending) (different : mover ≠ thread)
    (grows : counted ≤ more) (did : PendingStep mover filled more first event second) :
    OwnAdds thread (events ++ [event]) more pending := by
  constructor
  · intro i value same
    rw [filledIn_concat]
    exact found_append (own.here i value same) _
  · intro i value found
    rw [filledIn_concat] at found
    have old : (filledIn events)[i]? = some (thread, value) := by
      refine found_of_append found ?_
      cases did with
      | fills =>
        simpa [PointerarrayEvent.filledIn] using fun same : thread =
          mover => absurd same.symm different
      | adds within => simp [PointerarrayEvent.filledIn]
      | keeps silent =>
        rcases event with _ | event
        · simp [PointerarrayEvent.filledIn]
        · cases event with
          | filled other value => exact absurd rfl (silent other value).1
          | _ => simp [PointerarrayEvent.filledIn]
    rcases own.listed i value old with within | same
    · exact Or.inl (Nat.lt_of_lt_of_le within grows)
    · exact Or.inr same
  · rw [filledIn_concat, addedIn_concat]
    exact own.settled.other different did.settles

theorem OwnAdds.step
    {pending after : Option (Nat × Pointer)} (own : OwnAdds thread events counted pending)
    (grows : counted ≤ more)
    (did : PendingStep thread (filledIn events).length more pending event after) :
    OwnAdds thread (events ++ [event]) more after := by
  have settled := own.settled.step did.settles
  rw [← filledIn_concat, ← addedIn_concat] at settled
  refine ⟨?_, ?_, settled⟩
  · intro i value same
    rw [filledIn_concat]
    cases did with
    | fills =>
      obtain ⟨rfl, rfl⟩ := Prod.mk.inj (Option.some.inj same)
      simp [PointerarrayEvent.filledIn]
    | adds within => exact nomatch same
    | keeps silent => exact found_append (own.here i value same) _
  · intro i value found
    rw [filledIn_concat] at found
    cases did with
    | @fills filled =>
      by_cases inside : i < (filledIn events).length
      · rw [List.getElem?_append_left inside] at found
        exact Or.inl (Nat.lt_of_lt_of_le ((own.listed i value found).resolve_right nofun) grows)
      · obtain ⟨same, rfl⟩ : i = (filledIn events).length ∧ filled = value := by
          rw [List.getElem?_append_right (Nat.le_of_not_lt inside)] at found
          simp only [PointerarrayEvent.filledIn, Option.toList_some, List.getElem?_singleton] at found
          split at found
          next last => exact ⟨by omega, (Prod.mk.inj (Option.some.inj found)).2⟩
          next => exact nomatch found
        exact Or.inr (by rw [same])
    | adds within =>
      simp only [PointerarrayEvent.filledIn, Option.toList_none, List.append_nil] at found
      rcases own.listed i value found with before | same
      · exact Or.inl (Nat.lt_of_lt_of_le before grows)
      · obtain ⟨rfl, _⟩ := Prod.mk.inj (Option.some.inj same)
        exact Or.inl within
    | keeps silent =>
      have old : (filledIn events)[i]? = some (thread, value) := by
        rcases event with _ | event
        · simpa [PointerarrayEvent.filledIn] using found
        · cases event with
          | filled mover value => exact absurd rfl (silent mover value).1
          | _ => simpa [PointerarrayEvent.filledIn] using found
      rcases own.listed i value old with before | same
      · exact Or.inl (Nat.lt_of_lt_of_le before grows)
      · exact Or.inr same

def PointerarrayEffects (mover : Thread) (past : List (Option (PointerarrayEvent Thread)))
    (array : ConcurrentPointerarray) (event : Option (PointerarrayEvent Thread))
    (after : ConcurrentPointerarray) : Prop :=
  PointerarrayEffect (filledValues past) array (filledValues (past ++ [event])) after ∧
    ∃ pending next, PendingStep mover (filledIn past).length (contents after).length pending event
      next

def PointerarrayKnows (thread : Thread) (past : List (Option (PointerarrayEvent Thread)))
    (moments : (ConcurrentPointerarray → Prop) → Prop) (array : ConcurrentPointerarray)
    (here : PointerarrayState) : Prop :=
  here.Knows (filledValues past) moments array ∧
    OwnAdds thread past (contents array).length here.pending

theorem pointerarray_relyGuarantee :
    RelyGuarantee (@ConcurrentPointerarray.step Thread) .idle
      (fun past => PointerarrayHolds (filledValues past))
      PointerarrayEffects PointerarrayKnows (fun _ moments _ event after => PointerarrayVerdict
        moments after event) := by
  constructor
  · intro mover thread past array event after before later here different holds did recalls knows
    have grows := did.1.grows holds
    refine ⟨grows.state holds (holds.effect did.1) recalls knows.1, ?_⟩
    obtain ⟨_, _, pending⟩ := did.2
    exact knows.2.other different grows.listed.length_le pending
  · intro thread past array here moments move holds knows now
    have done : PointerarrayDoesSome thread _ moments array here (step thread array here move) :=
      holds.step_does knows.1 now move
    obtain ⟨after, there, event, stepped, does⟩ := done
    have grown := filledValues_concat past event
    have effect := does.effect
    have grows := effect.grows holds
    have pending := does.pending
    rw [filledValues, List.length_map] at pending
    refine ⟨after, there, event, stepped, ?_, ⟨?_, _, _, pending⟩, ?_, does.verdict⟩
    · rw [grown]
      exact holds.effect effect
    · rw [grown]
      exact effect
    · intro later recalls
      refine ⟨?_, ?_⟩
      · rw [grown]
        exact does.knows later recalls
      · exact knows.2.step grows.listed.length_le pending

omit [DecidableEq Thread] in
theorem initial_holds (size : Nat) : PointerarrayHolds [] (initial Thread size).shared where
  generations := ConcurrentStorages.init_generations _
  counted := by
    intro g _
    simp only [initial, ConcurrentStorages.init]
    split <;> exact Nat.zero_le _
  filled := by
    intro g _ j within
    simp only [initial, ConcurrentStorages.init] at within
    split at within <;> exact absurd within (Nat.not_lt_zero j)
  agrees := by
    intro g _ j filled
    simp only [initial, ConcurrentStorages.init, entry] at filled
    split at filled <;> exact absurd rfl filled
  lower := by
    simp only [initial, ConcurrentStorages.init]
    split <;> exact Nat.le_refl _
  upper := Nat.zero_le _
  roomy := Nat.zero_le _
  last := fun uncounted => absurd uncounted (Nat.not_lt_zero _)
  retired := fun g before => absurd before (Nat.not_lt_zero g)
  below := fun g before => absurd before (Nat.not_lt_zero g)
  redirected := by
    intro g _ j redirect
    simp only [initial, ConcurrentStorages.init, entry] at redirect
    split at redirect <;> exact absurd redirect (by decide : (0 : Pointer) ≠ redirectValue)
  migrating := fun again => absurd again (Nat.lt_irrefl _)
  ahead := fun again => absurd again (Nat.lt_irrefl _)
  storable := nofun

theorem initial_knows (size : Nat) (thread : Thread)
    (moments : (ConcurrentPointerarray → Prop) → Prop) :
    PointerarrayKnows thread [] moments (initial Thread size).shared
      ((initial Thread size).locals thread) :=
  ⟨trivial, by simp [initial, PointerarrayState.pending], by simp [filledIn], rfl⟩

/-- The list is what was filled in, in that order. Only the value of one `add` that has not returned
may be missing at its end, and every value is the one of its call. -/
theorem pointerarray_appends (size : Nat) (moves : List (Thread × PointerarrayMove)) :
    ∃ config events, run (interleave step) (initial Thread size) moves = some (config, events) ∧
      contents config.shared <+: filledValues events ∧
      (filledValues events).length ≤ (contents config.shared).length + 1 ∧
      (∀ i thread value, (filledIn events)[i]? = some (thread, value) →
        i < (contents config.shared).length ∨ (config.locals thread).pending = some (i, value)) ∧
      (∀ thread, Settled thread (filledIn events) (addedIn events)
        ((config.locals thread).pending.map Prod.snd)) ∧
      (∀ m n earlier later, m ≤ n → n ≤ moves.length → visited step (initial Thread size) moves m =
        some earlier →
        visited step (initial Thread size) moves n = some later →
        contents earlier.shared <+: contents later.shared) ∧
      (∀ n event, events[n]? = some (some event) → ∃ thread called,
        CallOf step (initial Thread size) .idle moves thread n called ∧
        moves[n]? = some (thread, .proceed) ∧
          event.Answers thread called) ∧
      ∀ n thread move event, moves[n]? = some (thread, move) → events[n]? = some (some event) →
        ∃ after, visited step (initial Thread size) moves (n + 1) = some after ∧
          PointerarrayVerdict (Moments step (initial Thread size) .idle moves thread n) after.shared
            event := by
  have holds : PointerarrayHolds (@filledValues Thread []) (initial Thread size).shared :=
    initial_holds size
  have knows := @initial_knows Thread _ size
  obtain ⟨config, events, here⟩ := pointerarray_relyGuarantee.comesTo holds knows moves
  refine ⟨config, events, here.ran, ?_, ?_, ?_, ?_, ?_, fun n event reported => ?_, ?_⟩
  · rw [here.good.contents_eq]
    exact List.take_prefix _ _
  · rw [PointerarrayHolds.contents_length]
    exact here.good.upper
  · exact fun i thread value found => (here.knows thread).2.listed i value found
  · exact fun thread => (here.knows thread).2.settled
  · intro m n earlier later before within first second
    have order : IsTrans ConcurrentPointerarray fun first second => contents first <+:
      contents second :=
      ⟨fun _ _ _ => List.IsPrefix.trans⟩
    have refl : Std.Refl fun first second : ConcurrentPointerarray => contents first <+:
      contents second :=
      ⟨fun _ => List.prefix_rfl⟩
    exact pointerarray_relyGuarantee.monotone holds knows
      (fun first second => contents first <+: contents second)
      (fun holds did => (did.1.grows holds).listed) moves before within first second
  · exact (calls_served.answered (fun _ => rfl) here.ran reported).resolve_left nofun
  · intro n thread move event moved reported
    obtain ⟨_, after, _, visits, verdict⟩ :=
      pointerarray_relyGuarantee.reported holds knows moves here.ran moved reported
    exact ⟨after, visits, verdict⟩

end Runs

end MulleCore
