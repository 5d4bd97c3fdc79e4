import Mathlib.Data.Multiset.AddSub

/-!
What is held of things that are retained and released. Releasing what is not held
does not settle.
-/

namespace Library

inductive Transfer (Item : Type) where
  | retain (item : Item)
  | release (item : Item)

section Ledger

variable {Item : Type} [DecidableEq Item]

def settle (held : Multiset Item) : List (Transfer Item) → Option (Multiset Item)
  | [] => some held
  | .retain item :: rest => settle (held + {item}) rest
  | .release item :: rest => if item ∈ held then settle (held.erase item) rest else none

theorem settle_append (first second : List (Transfer Item)) (held : Multiset Item) :
    settle held (first ++ second) = (settle held first).bind fun between =>
      settle between second := by
  induction first generalizing held with
  | nil => rfl
  | cons transfer rest ih =>
    cases transfer with
    | retain item => exact ih (held + {item})
    | release item =>
      rw [List.cons_append, settle, settle]
      split
      · exact ih (held.erase item)
      · rfl

theorem settle_release (held : Multiset Item) (item : Item) :
    settle (held + {item}) [.release item] = some held := by
  have member : item ∈ held + {item} :=
    Multiset.mem_add.mpr (Or.inr (Multiset.mem_singleton_self item))
  rw [settle, if_pos member, settle, Multiset.add_comm, Multiset.singleton_add,
    Multiset.erase_cons_head]

end Ledger

end Library
