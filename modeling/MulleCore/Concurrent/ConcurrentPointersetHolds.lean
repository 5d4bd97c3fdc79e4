import Mathlib.Data.Fintype.Card
import MulleCore.Concurrent.ConcurrentPointerset

/-!
What holds of the storages in every interleaving. A pointer that is in a storage is in the next one
before its entry is redirected, and never has two entries in one storage.
-/

namespace MulleCore

open Library

namespace ConcurrentPointerset

section Fields

variable {set : ConcurrentPointerset} {p q i j k l : Nat} {value ptr : Pointer}
  {alloced storage : Pointersetstorage}

/-- What the set stands for. A redirected entry is in the next storage. -/
def Members (set : ConcurrentPointerset) (ptr : Pointer) : Prop :=
  (∃ i ≤ (set.storages set.storage).mask, entry set set.storage i = ptr) ∨
    ∃ i ≤ (set.storages set.nextStorage).mask, entry set set.nextStorage i = ptr

@[simp] theorem setEntry_storage : (setEntry set p i value).storage = set.storage := rfl

@[simp] theorem setEntry_nextStorage : (setEntry set p i value).nextStorage = set.nextStorage := rfl

@[simp] theorem setEntry_mask : ((setEntry set p i value).storages q).mask = (set.storages q).mask :=
  ConcurrentStorages.modify_field Pointersetstorage.mask rfl

@[simp] theorem setEntry_isConst :
    isConst ((setEntry set p i value).storages q) = isConst (set.storages q) :=
  ConcurrentStorages.modify_field isConst rfl

@[simp] theorem setEntry_slot :
    slot ((setEntry set p i value).storages q) ptr k = slot (set.storages q) ptr k := by
  simp [slot]

@[simp] theorem setEntry_same : entry (setEntry set p i value) p i = value := by
  simp [setEntry, entry]

theorem setEntry_other (other : ¬ (q = p ∧ j = i)) :
    entry (setEntry set p i value) q j = entry set q j := by
  by_cases same : q = p
  · have different : j ≠ i := fun here => other ⟨same, here⟩
    simp [setEntry, entry, same, different]
  · simp [setEntry, entry, ConcurrentStorages.modify_other same]

@[simp] theorem incrementUsed_storage : (incrementUsed set p).storage = set.storage := rfl

@[simp] theorem incrementUsed_nextStorage : (incrementUsed set p).nextStorage = set.nextStorage := rfl

@[simp] theorem incrementUsed_mask :
    ((incrementUsed set p).storages q).mask = (set.storages q).mask :=
  ConcurrentStorages.modify_field Pointersetstorage.mask rfl

@[simp] theorem incrementUsed_isConst :
    isConst ((incrementUsed set p).storages q) = isConst (set.storages q) :=
  ConcurrentStorages.modify_field isConst (by simp [isConst])

@[simp] theorem incrementUsed_slot :
    slot ((incrementUsed set p).storages q) ptr k = slot (set.storages q) ptr k := by
  simp [slot]

@[simp] theorem incrementUsed_entry : entry (incrementUsed set p) q j = entry set q j :=
  congrFun (ConcurrentStorages.modify_field Pointersetstorage.entries rfl) j

theorem link_entry (linked : q ≤ set.nextStorage) : entry (set.link alloced) q j = entry set q j := by
  simp [entry, ConcurrentStorages.link_linked linked]

@[simp] theorem link_entry_alloced :
    entry (set.link alloced) (set.nextStorage + 1) j = alloced.entries j := by
  simp [entry]

theorem slot_le : slot storage ptr k ≤ storage.mask := Nat.and_le_right

theorem slot_injective (power : ∃ e ≤ 63, storage.mask + 1 = 2 ^ e) (first : k ≤ storage.mask)
    (second : l ≤ storage.mask) (same : slot storage ptr k = slot storage ptr l) : k = l := by
  obtain ⟨e, small, power⟩ := power
  have mask : storage.mask = 2 ^ e - 1 := by omega
  have divides : 2 ^ e ∣ 2 ^ 64 := Nat.pow_dvd_pow 2 (by omega)
  simp only [slot, mask, Nat.and_two_pow_sub_one_eq_mod, Nat.mod_mod_of_dvd _ divides] at same
  have cycle := Nat.ModEq.add_left_cancel' ptr.toNat same
  rwa [Nat.ModEq, Nat.mod_eq_of_lt (by omega), Nat.mod_eq_of_lt (by omega)] at cycle

theorem allocStorage_mask (n : Nat) (positive : 0 < n) : n - 1 < (allocStorage (n * 2)).mask := by
  simp only [allocStorage]
  split <;> omega

end Fields

def Storable (ptr : Pointer) : Prop := ptr ≠ 0 ∧ ptr ≠ redirectValue ∧ ptr ≠ tombstonePointer

/-- `claimed g i ptr` says that the entry `i` of the storage `g` was once filled with the pointer,
and `values` is what the clients have inserted. -/
structure Holds (claimed : Nat → Nat → Pointer → Prop) (values : List Pointer)
    (set : ConcurrentPointerset) : Prop where
  generations : ConcurrentStorages.Generations isConst Pointersetstorage.mask set
  powers : ∀ g ≤ set.nextStorage, ∃ e ≤ 63, (set.storages g).mask + 1 = 2 ^ e
  const : ∀ g ≤ set.nextStorage, isConst (set.storages g) = true → g = 0 ∧ ∀ i ptr, ¬ claimed g i ptr
  linked : ∀ g i ptr, claimed g i ptr → g ≤ set.nextStorage
  storable : ∀ g i ptr, claimed g i ptr → Storable ptr
  stored : ∀ g i ptr, claimed g i ptr → i ≤ (set.storages g).mask ∧
    (entry set g i = ptr ∨ entry set g i = redirectValue)
  agrees : ∀ g ≤ set.nextStorage, ∀ i, entry set g i ≠ 0 → entry set g i ≠ redirectValue →
    claimed g i (entry set g i)
  unique : ∀ g i ptr other, claimed g i ptr → claimed g i other → ptr = other
  single : ∀ g i j ptr, claimed g i ptr → claimed g j ptr → i = j
  path : ∀ g i ptr, claimed g i ptr → ∃ k ≤ (set.storages g).mask, slot (set.storages g) ptr k = i ∧
    ∀ l < k, entry set g (slot (set.storages g) ptr l) ≠ 0
  carried : ∀ g < set.nextStorage, ∀ i ptr, entry set g i = redirectValue → claimed g i ptr →
    ∃ j, claimed (g + 1) j ptr
  redirected : ∀ g ≤ set.nextStorage, ∀ i, entry set g i = redirectValue → g < set.nextStorage
  retired : ∀ g < set.storage, isConst (set.storages g) = false →
    ∀ i ≤ (set.storages g).mask, entry set g i = redirectValue
  ahead : set.storage < set.nextStorage → ∀ i ptr, claimed set.nextStorage i ptr →
    ∃ j, claimed set.storage j ptr
  listed : ∀ ptr, ptr ∈ values ↔ ∃ i, claimed set.storage i ptr
  nodup : values.Nodup

def Probed (claimed : Nat → Nat → Pointer → Prop) (set : ConcurrentPointerset) (p : Nat)
    (ptr : Pointer) (k : Nat) : Prop :=
  ∀ l < k, ∃ other, other ≠ ptr ∧ claimed p (slot (set.storages p) ptr l) other

def claim (claimed : Nat → Nat → Pointer → Prop) (p i : Nat) (ptr : Pointer) (g j : Nat)
    (other : Pointer) : Prop :=
  claimed g j other ∨ g = p ∧ j = i ∧ other = ptr

inductive Effect (claimed : Nat → Nat → Pointer → Prop) (values : List Pointer)
    (set : ConcurrentPointerset) :
    (Nat → Nat → Pointer → Prop) → List Pointer → ConcurrentPointerset → Prop where
  | stays : Effect claimed values set claimed values set
  | inserts {k : Nat} {ptr : Pointer} (within : k ≤ (set.storages set.storage).mask)
      (variable' : isConst (set.storages set.storage) = false) (storable : Storable ptr)
      (probed : Probed claimed set set.storage ptr k)
      (vacant : entry set set.storage (slot (set.storages set.storage) ptr k) = 0) :
      Effect claimed values set (claim claimed set.storage (slot (set.storages set.storage) ptr k)
        ptr) (values ++ [ptr])
        (setEntry set set.storage (slot (set.storages set.storage) ptr k) ptr)
  | copies {j k : Nat} {ptr : Pointer} (migrating : set.storage < set.nextStorage)
      (within : k ≤ (set.storages set.nextStorage).mask) (there : claimed set.storage j ptr)
      (probed : Probed claimed set set.nextStorage ptr k)
      (vacant : entry set set.nextStorage (slot (set.storages set.nextStorage) ptr k) = 0) :
      Effect claimed values set (claim claimed set.nextStorage
        (slot (set.storages set.nextStorage) ptr k) ptr) values
        (setEntry set set.nextStorage (slot (set.storages set.nextStorage) ptr k) ptr)
  | increments {p : Nat} : Effect claimed values set claimed values (incrementUsed set p)
  | freezes {i : Nat} (migrating : set.storage < set.nextStorage)
      (carried : ∀ ptr, claimed set.storage i ptr → ∃ j, claimed (set.storage + 1) j ptr) :
      Effect claimed values set claimed values (setEntry set set.storage i redirectValue)
  | links (current : set.nextStorage = set.storage)
      (small : (set.storages set.storage).mask + 1 ≤ 2 ^ 62) :
      Effect claimed values set claimed values
        (set.link (allocStorage (((set.storages set.storage).mask + 1) * 2)))
  | swaps (migrating : set.nextStorage = set.storage + 1)
      (redirected : isConst (set.storages set.storage) = false →
        ∀ i ≤ (set.storages set.storage).mask, entry set set.storage i = redirectValue) :
      Effect claimed values set claimed values (set.swap isConst set.storage (set.storage + 1))

namespace Holds

variable {claimed grown : Nat → Nat → Pointer → Prop} {values more : List Pointer}
  {set after : ConcurrentPointerset} {g h i j k : Nat} {ptr : Pointer}

section

variable (holds : Holds claimed values set)
include holds

theorem fresh (probed : Probed claimed set g ptr k)
    (vacant : entry set g (slot (set.storages g) ptr k) = 0) : ¬ claimed g j ptr := by
  intro there
  obtain ⟨way, _, same, passed⟩ := holds.path g j ptr there
  rcases Nat.lt_trichotomy way k with before | equal | later
  · obtain ⟨other, different, here⟩ := probed way before
    rw [same] at here
    exact different (holds.unique g j other ptr here there)
  · rw [equal] at same
    rw [same] at vacant
    rcases (holds.stored g j ptr there).2 with stays | redirect
    · exact (holds.storable g j ptr there).1 (stays.symm.trans vacant)
    · exact absurd (redirect.symm.trans vacant) (by decide)
  · exact passed k later vacant

theorem cycled (probed : Probed claimed set g ptr ((set.storages g).mask + 1)) :
    ¬ claimed g j ptr := by
  intro there
  obtain ⟨way, within, same, _⟩ := holds.path g j ptr there
  obtain ⟨other, different, here⟩ := probed way (Nat.lt_succ_of_le within)
  rw [same] at here
  exact different (holds.unique g j other ptr here there)

theorem storage_le (variable' : isConst (set.storages g) = false)
    (inside : i ≤ (set.storages g).mask) (open' : entry set g i ≠ redirectValue) :
    set.storage ≤ g := by
  by_contra before
  exact open' (holds.retired g (Nat.lt_of_not_le before) variable' i inside)

theorem claimed_current (le : g ≤ set.storage) (there : claimed g i ptr) :
    ∃ j, claimed set.storage j ptr := by
  have linked := holds.generations.ordered
  suffices ∀ n h, h + n = set.storage → (∃ j, claimed h j ptr) → ∃ j, claimed set.storage j ptr from
    this (set.storage - g) g (by omega) ⟨i, there⟩
  intro n
  induction n with
  | zero =>
    rintro h rfl found
    exact found
  | succ n ih =>
    rintro h same ⟨j, found⟩
    apply ih (h + 1) (by omega)
    have variable' : isConst (set.storages h) = false := by
      by_contra const
      exact (holds.const h (by omega) (by simpa using const)).2 j ptr found
    exact holds.carried h (by omega) j ptr
      (holds.retired h (by omega) variable' j (holds.stored h j ptr found).1) found

/-- The members are what the clients have inserted. -/
theorem members_iff (proper : ptr ≠ 0 ∧ ptr ≠ redirectValue) :
    Members set ptr ↔ ptr ∈ values := by
  have ordered := holds.generations.ordered
  rw [holds.listed]
  constructor
  · rintro (⟨i, _, rfl⟩ | ⟨i, _, rfl⟩)
    · exact ⟨i, holds.agrees _ ordered i proper.1 proper.2⟩
    · have there := holds.agrees _ (Nat.le_refl _) i proper.1 proper.2
      rcases Nat.lt_or_eq_of_le ordered with migrating | same
      · exact holds.ahead migrating i _ there
      · exact ⟨i, by rwa [same]⟩
  · rintro ⟨i, there⟩
    obtain ⟨inside, stays | redirect⟩ := holds.stored _ i ptr there
    · exact Or.inl ⟨i, inside, stays⟩
    · have before := holds.redirected _ ordered i redirect
      have near := holds.generations.near
      have next : set.storage + 1 = set.nextStorage := by omega
      obtain ⟨j, carried⟩ := holds.carried _ before i ptr redirect there
      rw [next] at carried
      obtain ⟨insideNext, stays | again⟩ := holds.stored _ j ptr carried
      · exact Or.inr ⟨j, insideNext, stays⟩
      · exact absurd (holds.redirected _ (Nat.le_refl _) j again) (Nat.lt_irrefl _)

theorem roomy (migrating : set.storage < set.nextStorage) :
    ¬ Probed claimed set set.nextStorage ptr ((set.storages set.nextStorage).mask + 1) := by
  intro probed
  have each : ∀ way : Fin ((set.storages set.nextStorage).mask + 1), ∃ place :
    Fin ((set.storages set.storage).mask + 1),
      ∃ other, claimed set.nextStorage (slot (set.storages set.nextStorage) ptr way) other ∧
        claimed set.storage place other := by
    intro way
    obtain ⟨other, _, there⟩ := probed way way.isLt
    obtain ⟨place, here⟩ := holds.ahead migrating _ other there
    exact ⟨⟨place, Nat.lt_succ_of_le (holds.stored _ place other here).1⟩, other, there, here⟩
  choose place other there here using each
  have injective : Function.Injective place := by
    intro first second same
    have sameOther : other first = other second := by
      apply holds.unique set.storage (place first)
      · exact here first
      · rw [same]
        exact here second
    have sameSlot := holds.single set.nextStorage _ _ (other first) (there first)
      (by rw [sameOther]; exact there second)
    apply Fin.ext
    exact slot_injective (holds.powers _ (Nat.le_refl _)) (Nat.le_of_lt_succ first.isLt)
      (Nat.le_of_lt_succ second.isLt) sameSlot
  have small := Fintype.card_le_of_injective place injective
  have larger := holds.generations.size_lt migrating (Nat.le_refl _)
  simp only [Fintype.card_fin] at small
  omega

theorem filled (there : claimed g i ptr) : entry set g i ≠ 0 := by
  rcases (holds.stored g i ptr there).2 with stays | redirect
  · rw [stays]
    exact (holds.storable g i ptr there).1
  · rw [redirect]
    decide

theorem claims (linked : g ≤ set.nextStorage) (current : set.storage ≤ g)
    (variable' : isConst (set.storages g) = false) (within : k ≤ (set.storages g).mask)
    (storable : Storable ptr) (probed : Probed claimed set g ptr k)
    (vacant : entry set g (slot (set.storages g) ptr k) = 0)
    (ahead : set.storage < set.nextStorage → ∀ i other, claim claimed g
      (slot (set.storages g) ptr k) ptr set.nextStorage i other →
      ∃ j, claim claimed g (slot (set.storages g) ptr k) ptr set.storage j other)
    (listed : ∀ other, other ∈ more ↔ ∃ i, claim claimed g (slot (set.storages g) ptr k) ptr
      set.storage i other)
    (nodup : more.Nodup) :
    Holds (claim claimed g (slot (set.storages g) ptr k) ptr) more
      (setEntry set g (slot (set.storages g) ptr k) ptr) := by
  have new : ∀ h j other, claimed h j other → ¬ (h = g ∧ j = slot (set.storages g) ptr k) := by
    rintro h j other there ⟨rfl, rfl⟩
    exact holds.filled there vacant
  have keeps : ∀ h j, entry set h j ≠ 0 →
      entry (setEntry set g (slot (set.storages g) ptr k) ptr) h j = entry set h j := by
    intro h j filled
    apply setEntry_other
    rintro ⟨rfl, rfl⟩
    exact filled vacant
  constructor
  case generations => exact holds.generations.modify rfl rfl
  case powers => simpa using holds.powers
  case const =>
    intro h linkedHere const
    rw [setEntry_isConst] at const
    obtain ⟨first, none⟩ := holds.const h linkedHere const
    refine ⟨first, ?_⟩
    rintro j other (old | ⟨rfl, _, _⟩)
    · exact none j other old
    · exact nomatch variable'.symm.trans const
  case linked =>
    rintro h j other (old | ⟨rfl, _, _⟩)
    · exact holds.linked h j other old
    · exact linked
  case storable =>
    rintro h j other (old | ⟨_, _, rfl⟩)
    · exact holds.storable h j other old
    · exact storable
  case stored =>
    rintro h j other (old | ⟨rfl, rfl, rfl⟩)
    · rw [setEntry_mask, setEntry_other (new h j other old)]
      exact holds.stored h j other old
    · rw [setEntry_mask, setEntry_same]
      exact ⟨slot_le, Or.inl rfl⟩
  case agrees =>
    intro h linkedHere j filled open'
    by_cases here : h = g ∧ j = slot (set.storages g) ptr k
    · obtain ⟨rfl, rfl⟩ := here
      rw [setEntry_same]
      exact Or.inr ⟨rfl, rfl, rfl⟩
    · rw [setEntry_other here] at filled open' ⊢
      exact Or.inl (holds.agrees h linkedHere j filled open')
  case unique =>
    rintro h j first second (old | ⟨rfl, rfl, rfl⟩) (oldToo | ⟨sameStorage, sameIndex, rfl⟩)
    · exact holds.unique h j first second old oldToo
    · exact absurd ⟨sameStorage, sameIndex⟩ (new h j first old)
    · exact absurd ⟨rfl, rfl⟩ (new _ _ second oldToo)
    · rfl
  case single =>
    rintro h i j other (old | ⟨sameStorage, rfl, sameOther⟩) (oldToo | ⟨storageToo, rfl, otherToo⟩)
    · exact holds.single h i j other old oldToo
    · subst storageToo otherToo
      exact absurd old (holds.fresh probed vacant)
    · subst sameStorage sameOther
      exact absurd oldToo (holds.fresh probed vacant)
    · rfl
  case path =>
    rintro h j other (old | ⟨rfl, rfl, rfl⟩)
    · obtain ⟨way, inside, same, passed⟩ := holds.path h j other old
      refine ⟨way, by simpa using inside, by simpa using same, fun l before => ?_⟩
      rw [setEntry_slot, keeps _ _ (passed l before)]
      exact passed l before
    · refine ⟨k, by simpa using within, by simp, fun l before => ?_⟩
      obtain ⟨between, _, there⟩ := probed l before
      rw [setEntry_slot, keeps _ _ (holds.filled there)]
      exact holds.filled there
  case carried =>
    intro h before j other redirect there
    by_cases here : h = g ∧ j = slot (set.storages g) ptr k
    · obtain ⟨rfl, rfl⟩ := here
      rw [setEntry_same] at redirect
      exact absurd redirect storable.2.1
    · rw [setEntry_other here] at redirect
      have old : claimed h j other := there.resolve_right fun same => here ⟨same.1, same.2.1⟩
      obtain ⟨i, carried⟩ := holds.carried h before j other redirect old
      exact ⟨i, Or.inl carried⟩
  case redirected =>
    intro h linkedHere j redirect
    by_cases here : h = g ∧ j = slot (set.storages g) ptr k
    · obtain ⟨rfl, rfl⟩ := here
      rw [setEntry_same] at redirect
      exact absurd redirect storable.2.1
    · rw [setEntry_other here] at redirect
      exact holds.redirected h linkedHere j redirect
  case retired =>
    intro h before variableHere j inside
    rw [setEntry_isConst] at variableHere
    rw [setEntry_mask] at inside
    rw [setEntry_storage] at before
    have other : ¬ (h = g ∧ j = slot (set.storages g) ptr k) := fun same => by omega
    rw [setEntry_other other]
    exact holds.retired h before variableHere j inside
  case ahead => exact ahead
  case listed => exact listed
  case nodup => exact nodup

end

theorem inserts (holds : Holds claimed values set) (within : k ≤ (set.storages set.storage).mask)
    (variable' : isConst (set.storages set.storage) = false) (storable : Storable ptr)
    (probed : Probed claimed set set.storage ptr k)
    (vacant : entry set set.storage (slot (set.storages set.storage) ptr k) = 0) :
    Holds (claim claimed set.storage (slot (set.storages set.storage) ptr k) ptr) (values ++ [ptr])
      (setEntry set set.storage (slot (set.storages set.storage) ptr k) ptr) := by
  have absent : ptr ∉ values := by
    intro member
    obtain ⟨j, there⟩ := (holds.listed ptr).mp member
    exact holds.fresh probed vacant there
  refine holds.claims holds.generations.ordered (Nat.le_refl _) variable' within storable probed
    vacant ?_ ?_ ?_
  · rintro migrating i other (old | ⟨same, _⟩)
    · obtain ⟨j, there⟩ := holds.ahead migrating i other old
      exact ⟨j, Or.inl there⟩
    · exact absurd same (Nat.ne_of_gt migrating)
  · intro other
    rw [List.mem_append, List.mem_singleton, holds.listed]
    constructor
    · rintro (⟨i, there⟩ | rfl)
      · exact ⟨i, Or.inl there⟩
      · exact ⟨_, Or.inr ⟨rfl, rfl, rfl⟩⟩
    · rintro ⟨i, there | ⟨_, _, same⟩⟩
      · exact Or.inl ⟨i, there⟩
      · exact Or.inr same
  · rw [List.nodup_append]
    refine ⟨holds.nodup, List.nodup_singleton ptr, ?_⟩
    rintro other member next new rfl
    rw [List.mem_singleton] at new
    exact absent (new ▸ member)

theorem copies (holds : Holds claimed values set) (migrating : set.storage < set.nextStorage)
    (within : k ≤ (set.storages set.nextStorage).mask) (there : claimed set.storage j ptr)
    (probed : Probed claimed set set.nextStorage ptr k)
    (vacant : entry set set.nextStorage (slot (set.storages set.nextStorage) ptr k) = 0) :
    Holds (claim claimed set.nextStorage (slot (set.storages set.nextStorage) ptr k) ptr) values
      (setEntry set set.nextStorage (slot (set.storages set.nextStorage) ptr k) ptr) := by
  have variable' : isConst (set.storages set.nextStorage) = false := by
    by_contra const
    have first := (holds.const _ (Nat.le_refl _) (by simpa using const)).1
    omega
  refine holds.claims (Nat.le_refl _) holds.generations.ordered variable' within
    (holds.storable _ j ptr there) probed vacant ?_ ?_ holds.nodup
  · rintro _ i other (old | ⟨_, _, rfl⟩)
    · obtain ⟨place, here⟩ := holds.ahead migrating i other old
      exact ⟨place, Or.inl here⟩
    · exact ⟨j, Or.inl there⟩
  · intro other
    rw [holds.listed]
    constructor
    · rintro ⟨i, here⟩
      exact ⟨i, Or.inl here⟩
    · rintro ⟨i, here | ⟨same, _⟩⟩
      · exact ⟨i, here⟩
      · exact absurd same (Nat.ne_of_lt migrating)

theorem increments (holds : Holds claimed values set) (p : Nat) :
    Holds claimed values (incrementUsed set p) where
  generations := holds.generations.modify rfl (by simp [isConst])
  powers := by simpa using holds.powers
  const := by simpa using holds.const
  linked := by simpa using holds.linked
  storable := holds.storable
  stored := by simpa using holds.stored
  agrees := by simpa using holds.agrees
  unique := holds.unique
  single := holds.single
  path := by simpa using holds.path
  carried := by simpa using holds.carried
  redirected := by simpa using holds.redirected
  retired := by simpa using holds.retired
  ahead := by simpa using holds.ahead
  listed := by simpa using holds.listed
  nodup := holds.nodup

theorem freezes (holds : Holds claimed values set) (migrating : set.storage < set.nextStorage)
    (carried : ∀ ptr, claimed set.storage i ptr → ∃ j, claimed (set.storage + 1) j ptr) :
    Holds claimed values (setEntry set set.storage i redirectValue) := by
  have nonzero : redirectValue ≠ 0 := by decide
  have filledStays : ∀ h j, entry set h j ≠ 0 →
      entry (setEntry set set.storage i redirectValue) h j ≠ 0 := by
    intro h j filled
    by_cases here : h = set.storage ∧ j = i
    · obtain ⟨rfl, rfl⟩ := here
      rwa [setEntry_same]
    · rwa [setEntry_other here]
  constructor
  case generations => exact holds.generations.modify rfl rfl
  case powers => simpa using holds.powers
  case const => simpa using holds.const
  case linked => exact holds.linked
  case storable => exact holds.storable
  case stored =>
    intro h j ptr there
    rw [setEntry_mask]
    obtain ⟨inside, here⟩ := holds.stored h j ptr there
    refine ⟨inside, ?_⟩
    by_cases same : h = set.storage ∧ j = i
    · obtain ⟨rfl, rfl⟩ := same
      exact Or.inr setEntry_same
    · rwa [setEntry_other same]
  case agrees =>
    intro h linked j filled open'
    by_cases here : h = set.storage ∧ j = i
    · obtain ⟨rfl, rfl⟩ := here
      exact absurd setEntry_same open'
    · rw [setEntry_other here] at filled open' ⊢
      exact holds.agrees h linked j filled open'
  case unique => exact holds.unique
  case single => exact holds.single
  case path =>
    intro h j ptr there
    obtain ⟨way, inside, same, passed⟩ := holds.path h j ptr there
    refine ⟨way, by simpa using inside, by simpa using same, fun l before => ?_⟩
    rw [setEntry_slot]
    exact filledStays _ _ (passed l before)
  case carried =>
    intro h before j ptr redirect there
    by_cases here : h = set.storage ∧ j = i
    · obtain ⟨rfl, rfl⟩ := here
      exact carried ptr there
    · rw [setEntry_other here] at redirect
      exact holds.carried h before j ptr redirect there
  case redirected =>
    intro h linked j redirect
    by_cases here : h = set.storage ∧ j = i
    · obtain ⟨rfl, rfl⟩ := here
      exact migrating
    · rw [setEntry_other here] at redirect
      exact holds.redirected h linked j redirect
  case retired =>
    intro h before variable' j inside
    rw [setEntry_isConst] at variable'
    rw [setEntry_mask] at inside
    rw [setEntry_storage] at before
    rw [setEntry_other fun same => absurd same.1 (Nat.ne_of_lt before)]
    exact holds.retired h before variable' j inside
  case ahead => exact holds.ahead
  case listed => exact holds.listed
  case nodup => exact holds.nodup

theorem links (holds : Holds claimed values set) (current : set.nextStorage = set.storage)
    (small : (set.storages set.storage).mask + 1 ≤ 2 ^ 62) :
    Holds claimed values (set.link (allocStorage (((set.storages set.storage).mask + 1) * 2))) := by
  have old : ∀ {alloced : Pointersetstorage}, ∀ g ≤ set.nextStorage, (set.link alloced).storages g =
    set.storages g :=
    fun g linked => ConcurrentStorages.link_linked linked
  have vacant : ∀ j, entry (set.link (allocStorage (((set.storages set.storage).mask + 1) * 2)))
    (set.nextStorage + 1) j = 0 :=
    fun j => link_entry_alloced
  constructor
  case generations => exact holds.generations.link current (allocStorage_mask _ (Nat.succ_pos _))
  case powers =>
    intro g linked
    rcases Nat.lt_or_eq_of_le linked with before | rfl
    · rw [old g (Nat.le_of_lt_succ before)]
      exact holds.powers g (Nat.le_of_lt_succ before)
    · rw [ConcurrentStorages.link_nextStorage, ConcurrentStorages.link_alloced, allocStorage]
      obtain ⟨e, within, power⟩ := holds.powers set.storage holds.generations.ordered
      rw [power] at small ⊢
      have bound : e ≤ 62 := (Nat.pow_le_pow_iff_right (by omega)).mp small
      have next : 2 ^ (e + 1) = 2 ^ e * 2 := Nat.pow_succ 2 e
      have positive : 0 < 2 ^ e := Nat.two_pow_pos e
      dsimp only
      split
      next => exact ⟨2, by omega, rfl⟩
      next => exact ⟨e + 1, by omega, by omega⟩
  case const =>
    intro g linked const
    rcases Nat.lt_or_eq_of_le linked with before | rfl
    · rw [old g (Nat.le_of_lt_succ before)] at const
      exact holds.const g (Nat.le_of_lt_succ before) const
    · rw [ConcurrentStorages.link_nextStorage, ConcurrentStorages.link_alloced] at const
      exact nomatch const
  case linked => exact fun g i ptr there => Nat.le_succ_of_le (holds.linked g i ptr there)
  case storable => exact holds.storable
  case stored =>
    intro g i ptr there
    have linked := holds.linked g i ptr there
    rw [old g linked, link_entry linked]
    exact holds.stored g i ptr there
  case agrees =>
    intro g linked j filled open'
    rcases Nat.lt_or_eq_of_le linked with before | rfl
    · rw [link_entry (Nat.le_of_lt_succ before)] at filled open' ⊢
      exact holds.agrees g (Nat.le_of_lt_succ before) j filled open'
    · exact absurd (vacant j) filled
  case unique => exact holds.unique
  case single => exact holds.single
  case path =>
    intro g i ptr there
    have linked := holds.linked g i ptr there
    obtain ⟨way, inside, same, passed⟩ := holds.path g i ptr there
    rw [old g linked]
    refine ⟨way, inside, same, fun l before => ?_⟩
    rw [link_entry linked]
    exact passed l before
  case carried =>
    intro g before j ptr redirect there
    have linked := holds.linked g j ptr there
    rw [link_entry linked] at redirect
    exact holds.carried g (holds.redirected g linked j redirect) j ptr redirect there
  case redirected =>
    intro g linked j redirect
    rcases Nat.lt_or_eq_of_le linked with before | rfl
    · rw [link_entry (Nat.le_of_lt_succ before)] at redirect
      exact Nat.lt_succ_of_lt (holds.redirected g (Nat.le_of_lt_succ before) j redirect)
    · exact absurd ((vacant j).symm.trans redirect) (by decide)
  case retired =>
    intro g before variable' j inside
    have linked : g ≤ set.nextStorage :=
      Nat.le_trans (Nat.le_of_lt before) (Nat.le_of_eq current.symm)
    rw [old g linked] at inside variable'
    rw [link_entry linked]
    exact holds.retired g before variable' j inside
  case ahead =>
    intro _ i ptr there
    have linked := holds.linked _ i ptr there
    exact absurd linked (Nat.not_succ_le_self _)
  case listed => exact holds.listed
  case nodup => exact holds.nodup

theorem swaps (holds : Holds claimed values set) (migrating : set.nextStorage = set.storage + 1)
    (redirected : isConst (set.storages set.storage) = false →
      ∀ i ≤ (set.storages set.storage).mask, entry set set.storage i = redirectValue) :
    Holds claimed values (set.swap isConst set.storage (set.storage + 1)) := by
  constructor
  case generations => exact holds.generations.swap migrating
  case powers => exact holds.powers
  case const => exact holds.const
  case linked => exact holds.linked
  case storable => exact holds.storable
  case stored => exact holds.stored
  case agrees => exact holds.agrees
  case unique => exact holds.unique
  case single => exact holds.single
  case path => exact holds.path
  case carried => exact holds.carried
  case redirected => exact holds.redirected
  case retired =>
    intro g before variable' j inside
    rcases Nat.lt_or_eq_of_le (Nat.le_of_lt_succ before) with earlier | rfl
    · exact holds.retired g earlier variable' j inside
    · exact redirected variable' j inside
  case ahead =>
    intro again
    simp only [ConcurrentStorages.swap_storage, ConcurrentStorages.swap_nextStorage] at again
    omega
  case listed =>
    intro ptr
    rw [holds.listed]
    constructor
    · rintro ⟨i, there⟩
      have variable' : isConst (set.storages set.storage) = false := by
        by_contra const
        exact (holds.const _ holds.generations.ordered (by simpa using const)).2 i ptr there
      exact holds.carried _ (by omega) i ptr (redirected variable' i (holds.stored _ i ptr there).1)
        there
    · rintro ⟨i, there⟩
      rw [ConcurrentStorages.swap_storage, ← migrating] at there
      exact holds.ahead (by omega) i ptr there
  case nodup => exact holds.nodup

theorem effect (holds : Holds claimed values set) (did : Effect claimed values set grown more after) :
    Holds grown more after := by
  cases did with
  | stays => exact holds
  | inserts within variable' storable probed vacant =>
    exact holds.inserts within variable' storable probed vacant
  | copies migrating within there probed vacant =>
    exact holds.copies migrating within there probed vacant
  | increments => exact holds.increments _
  | freezes migrating carried => exact holds.freezes migrating carried
  | links current small => exact holds.links current small
  | swaps migrating redirected => exact holds.swaps migrating redirected

end Holds

end ConcurrentPointerset

end MulleCore
