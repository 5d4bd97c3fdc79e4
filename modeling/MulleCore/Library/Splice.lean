import Mathlib.Data.List.Basic

/-!
Array accesses at the place where a list is split.
-/

namespace Library

section Splice

variable {Entry : Type} (before after : List Entry) (entry next fallback : Entry)

@[simp] theorem set_splice (other : Entry) :
    (before ++ entry :: after).set before.length other = before ++ other :: after := by
  rw [List.set_append_right _ _ (Nat.le_refl _), Nat.sub_self, List.set_cons_zero]

@[simp] theorem eraseIdx_splice :
    (before ++ entry :: after).eraseIdx before.length = before ++ after := by
  simp [List.eraseIdx_append_of_length_le]

@[simp] theorem eraseIdx_splice_succ :
    (before ++ entry :: next :: after).eraseIdx (before.length + 1) =
      before ++ entry :: after := by
  simp [List.eraseIdx_append_of_length_le]

@[simp] theorem insertIdx_splice :
    (before ++ after).insertIdx before.length entry = before ++ entry :: after := by
  induction before with
  | nil => simp
  | cons first rest ih => simpa using ih

variable {before after entry next fallback}

theorem exists_splice {entries : List Entry} {index : Nat} (bound : index < entries.length) :
    ∃ before after, entries = before ++ entries[index] :: after ∧ before.length = index := by
  refine ⟨entries.take index, entries.drop (index + 1), ?_, ?_⟩
  · simp
  · simp only [List.length_take]
    omega

end Splice

end Library
