import Mathlib.Data.List.Induction

/-!
Sequences in which an item of a kind stands behind a front of some shape and in front of a rest of
another kind.
-/

namespace Library

section Patterns

variable {Item : Type}

def Behind (front : List Item → Prop) (mark rest : Item → Prop) (items : List Item) : Prop :=
  ∃ before item after, items = before ++ item :: after ∧ front before ∧ mark item ∧
    ∀ other ∈ after, rest other

variable {front : List Item → Prop} {mark rest : Item → Prop}

@[simp] theorem behind_nil : Behind front mark rest [] ↔ False := by
  rw [iff_false]
  rintro ⟨before, item, after, split, -⟩
  exact nomatch (List.append_eq_nil_iff.mp split.symm).2

theorem behind_concat (items : List Item) (last : Item) :
    Behind front mark rest (items ++ [last]) ↔ (front items ∧ mark last) ∨
    (Behind front mark rest items ∧ rest last) := by
  constructor
  · rintro ⟨before, item, after, split, begins, marked, others⟩
    induction after using List.reverseRecOn with
    | nil =>
      obtain ⟨rfl, same⟩ := List.append_inj' split rfl
      obtain rfl : last = item := by simpa using same
      exact Or.inl ⟨begins, marked⟩
    | append_singleton after other =>
      rw [← List.cons_append, ← List.append_assoc] at split
      obtain ⟨rfl, same⟩ := List.append_inj' split rfl
      obtain rfl : last = other := by simpa using same
      exact Or.inr ⟨⟨before, item, after, rfl, begins, marked, fun each member =>
        others each (List.mem_append_left _ member)⟩, others last (by simp)⟩
  · rintro (⟨begins, marked⟩ | ⟨⟨before, item, after, rfl, begins, marked, others⟩, ends⟩)
    · exact ⟨items, last, [], rfl, begins, marked, by simp⟩
    · refine ⟨before, item, after ++ [last], by simp, begins, marked, ?_⟩
      intro other member
      rcases List.mem_append.mp member with inside | final
      · exact others other inside
      · obtain rfl := List.mem_singleton.mp final
        exact ends

end Patterns

end Library
