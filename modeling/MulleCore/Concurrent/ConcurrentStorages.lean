import Mathlib.Data.List.Nodup
import Mathlib.Logic.Function.Basic
import MulleCore.Data.Hash

/-!
The `storage` and the `next_storage` that the containers of `mulle-concurrent` have in common.
-/

namespace MulleCore

def redirectValue : Pointer := notAPointer

/-- A storage goes by the number of the storages that were linked before it. Its address is not
reused, and not known to other threads before it is linked. -/
structure ConcurrentStorages (Storage : Type) where
  storage : Nat
  nextStorage : Nat
  storages : Nat → Storage
  freed : List Nat

namespace ConcurrentStorages

variable {Storage : Type}

def init (storage : Storage) : ConcurrentStorages Storage := ⟨0, 0, fun _ => storage, []⟩

def modify (container : ConcurrentStorages Storage) (p : Nat) (change : Storage → Storage) :
    ConcurrentStorages Storage :=
  { container with storages := Function.update container.storages p (change (container.storages p)) }

def link (container : ConcurrentStorages Storage) (alloced : Storage) : ConcurrentStorages Storage :=
  { container with
    nextStorage := container.nextStorage + 1
    storages := Function.update container.storages (container.nextStorage + 1) alloced }

/-- The thread that swaps `p` for `q` frees `p`, unless that is the shared empty storage. -/
def swap (container : ConcurrentStorages Storage) (isConst : Storage → Bool) (p q : Nat) :
    ConcurrentStorages Storage :=
  { container with
    storage := q
    freed := if isConst (container.storages p) then container.freed else p :: container.freed }

section Fields

variable {container : ConcurrentStorages Storage} {p q : Nat} {change : Storage → Storage}
  {alloced : Storage} {isConst : Storage → Bool}

@[simp] theorem modify_storage : (container.modify p change).storage = container.storage := rfl

@[simp] theorem modify_nextStorage :
    (container.modify p change).nextStorage = container.nextStorage := rfl

@[simp] theorem modify_freed : (container.modify p change).freed = container.freed := rfl

@[simp] theorem modify_same :
    (container.modify p change).storages p = change (container.storages p) := by simp [modify]

theorem modify_other (other : q ≠ p) :
    (container.modify p change).storages q = container.storages q := by
  simp [modify, other]

theorem modify_field {Field : Type} (field : Storage → Field)
    (same : field (change (container.storages p)) = field (container.storages p)) :
    field ((container.modify p change).storages q) = field (container.storages q) := by
  by_cases here : q = p
  · rw [here, modify_same, same]
  · rw [modify_other here]

@[simp] theorem link_storage : (container.link alloced).storage = container.storage := rfl

@[simp] theorem link_nextStorage :
    (container.link alloced).nextStorage = container.nextStorage + 1 := rfl

@[simp] theorem link_freed : (container.link alloced).freed = container.freed := rfl

@[simp] theorem link_alloced : (container.link alloced).storages (container.nextStorage + 1) =
    alloced := by simp [link]

theorem link_linked (linked : q ≤ container.nextStorage) :
    (container.link alloced).storages q = container.storages q := by
  have other : q ≠ container.nextStorage + 1 := by omega
  simp [link, other]

@[simp] theorem swap_storage : (container.swap isConst p q).storage = q := rfl

@[simp] theorem swap_nextStorage :
    (container.swap isConst p q).nextStorage = container.nextStorage := rfl

@[simp] theorem swap_storages : (container.swap isConst p q).storages = container.storages := rfl

end Fields

/-- The next storage is the current one or its successor. What was freed is what was current before,
each once. -/
structure Generations (isConst : Storage → Bool) (size : Storage → Nat)
    (container : ConcurrentStorages Storage) : Prop where
  ordered : container.storage ≤ container.nextStorage
  near : container.nextStorage ≤ container.storage + 1
  grown : ∀ g < container.nextStorage, size (container.storages g) < size (container.storages (g + 1))
  freed : container.freed = ((List.range container.storage).filter fun g => !isConst
    (container.storages g)).reverse

variable {isConst : Storage → Bool} {size : Storage → Nat} {container : ConcurrentStorages Storage}
  {g h : Nat}

theorem init_generations (storage : Storage) : Generations isConst size (init storage) where
  ordered := Nat.le_refl 0
  near := Nat.zero_le 1
  grown := fun g below => absurd below (Nat.not_lt_zero g)
  freed := rfl

namespace Generations

section

variable (generations : Generations isConst size container)
include generations

theorem size_lt (before : g < h) (linked : h ≤ container.nextStorage) :
    size (container.storages g) < size (container.storages h) := by
  induction before with
  | refl => exact generations.grown g linked
  | step _ ih => exact Nat.lt_trans (ih (Nat.le_of_succ_le linked)) (generations.grown _ linked)

theorem size_le (le : g ≤ h) (linked : h ≤ container.nextStorage) :
    size (container.storages g) ≤ size (container.storages h) := by
  rcases Nat.lt_or_eq_of_le le with before | rfl
  · exact Nat.le_of_lt (generations.size_lt before linked)
  · exact Nat.le_refl _

theorem mem_freed :
    g ∈ container.freed ↔ g < container.storage ∧ isConst (container.storages g) = false := by
  simp [generations.freed]

theorem safe :
    container.freed.Nodup ∧ container.storage ∉ container.freed ∧
    container.nextStorage ∉ container.freed := by
  have ordered := generations.ordered
  refine ⟨?_, ?_, ?_⟩
  · rw [generations.freed, List.nodup_reverse]
    exact List.nodup_range.filter _
  · intro freed
    exact absurd (generations.mem_freed.mp freed).1 (Nat.lt_irrefl _)
  · intro freed
    have before := (generations.mem_freed.mp freed).1
    omega

theorem modify {p : Nat} {change : Storage → Storage}
    (sameSize : size (change (container.storages p)) = size (container.storages p))
    (sameConst : isConst (change (container.storages p)) = isConst (container.storages p)) :
    Generations isConst size (container.modify p change) where
  ordered := generations.ordered
  near := generations.near
  grown := by
    intro g below
    rw [modify_field size sameSize, modify_field size sameSize]
    exact generations.grown g below
  freed := by
    simp only [modify_freed, modify_storage, modify_field isConst sameConst]
    exact generations.freed

theorem link {alloced : Storage} (current : container.nextStorage = container.storage)
    (larger : size (container.storages container.storage) < size alloced) :
    Generations isConst size (container.link alloced) where
  ordered := Nat.le_succ_of_le generations.ordered
  near := by
    simp only [link_nextStorage, link_storage]
    omega
  grown := by
    intro g below
    rw [link_nextStorage, Nat.lt_succ_iff_lt_or_eq] at below
    rcases below with before | rfl
    · rw [link_linked (Nat.le_of_lt before), link_linked before]
      exact generations.grown g before
    · rw [link_linked (Nat.le_refl _), link_alloced, current]
      exact larger
  freed := by
    have ordered := generations.ordered
    rw [link_freed, link_storage, generations.freed]
    congr 1
    apply List.filter_congr
    intro g member
    rw [link_linked (by rw [List.mem_range] at member; omega)]

theorem swap (migrating : container.nextStorage = container.storage + 1) :
    Generations isConst size (container.swap isConst container.storage (container.storage + 1)) where
  ordered := Nat.le_of_eq migrating.symm
  near := by
    simp only [swap_nextStorage, swap_storage]
    omega
  grown := generations.grown
  freed := by
    simp only [ConcurrentStorages.swap, List.range_succ, List.filter_append, List.reverse_append,
      ← generations.freed]
    cases const : isConst (container.storages container.storage) <;> simp [const]

end

end Generations

end ConcurrentStorages

end MulleCore
