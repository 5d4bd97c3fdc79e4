import Mathlib.Algebra.Ring.Nat
import Mathlib.Data.Multiset.Count
import Mathlib.Data.Multiset.AddSub

/-!
A bag of entries of which at most one answers to each key is a finite map.
-/

namespace Library

section Bindings

variable {Key Entry : Type} (answers : Key → Entry → Bool)
variable {entries : Multiset Entry} {bindings : Key → Option Entry} {key : Key} {entry new : Entry}
  {rest : Multiset Entry} {old : Entry}

structure Represents (entries : Multiset Entry) (bindings : Key → Option Entry) : Prop where
  single : ∀ key, entries.countP (fun entry => answers key entry = true) ≤ 1
  binds : ∀ key entry, bindings key = some entry ↔ entry ∈ entries ∧ answers key entry = true

def bindWrite (bindings : Key → Option Entry) (new : Entry) : Key → Option Entry :=
  fun key => if answers key new then some new else bindings key

def bindDrop (bindings : Key → Option Entry) (old : Entry) : Key → Option Entry :=
  fun key => if answers key old then none else bindings key

variable {answers}

theorem Represents.zero : Represents answers 0 fun _ => none where
  single := fun key => by simp
  binds := fun key entry => by simp

section

variable (represents : Represents answers entries bindings)
include represents

theorem Represents.eq_none
    (absent : ∀ entry ∈ entries, answers key entry ≠ true) : bindings key = none := by
  cases bound : bindings key with
  | none => rfl
  | some entry =>
    obtain ⟨member, answering⟩ := (represents.binds key entry).mp bound
    exact absurd answering (absent entry member)

theorem Represents.eq_some (member : entry ∈ entries) (answering : answers key entry = true) :
    bindings key = some entry :=
  (represents.binds key entry).mpr ⟨member, answering⟩

theorem Represents.unique {other : Entry}
    (member : entry ∈ entries) (answering : answers key entry = true)
    (otherMember : other ∈ entries) (otherAnswering : answers key other = true) :
    entry = other := by
  have bound := represents.eq_some member answering
  rw [represents.eq_some otherMember otherAnswering, Option.some.injEq] at bound
  exact bound.symm

end

theorem countP_add_singleton (entries : Multiset Entry) (new : Entry) (key : Key) :
    (entries + {new}).countP (fun entry => answers key entry = true) =
      entries.countP (fun entry => answers key entry = true) +
        if answers key new = true then 1 else 0 := by
  rw [Multiset.countP_add, ← Multiset.cons_zero, Multiset.countP_cons, Multiset.countP_zero]
  omega

section

variable (represents : Represents answers entries bindings)
include represents

/-- Adding an entry for keys that have none is a write to the map. -/
theorem Represents.add
    (fresh : ∀ key, answers key new = true → ∀ entry ∈ entries, answers key entry ≠ true) :
    Represents answers (entries + {new}) (bindWrite answers bindings new) := by
  constructor
  · intro key
    rw [countP_add_singleton]
    by_cases answering : answers key new = true
    · have none := Multiset.countP_eq_zero.mpr (fresh key answering)
      rw [none, if_pos answering]
    · rw [if_neg answering]
      exact represents.single key
  · intro key entry
    rw [Multiset.mem_add, Multiset.mem_singleton, bindWrite]
    by_cases answering : answers key new = true
    · rw [if_pos answering, Option.some.injEq]
      constructor
      · rintro rfl
        exact ⟨Or.inr rfl, answering⟩
      · rintro ⟨member | rfl, entryAnswers⟩
        · exact absurd entryAnswers (fresh key answering entry member)
        · rfl
    · rw [if_neg answering, represents.binds]
      constructor
      · rintro ⟨member, entryAnswers⟩
        exact ⟨Or.inl member, entryAnswers⟩
      · rintro ⟨member | rfl, entryAnswers⟩
        · exact ⟨member, entryAnswers⟩
        · exact absurd entryAnswers answering

/-- Taking an entry out is a deletion from the map. -/
theorem Represents.drop (parts : rest + {old} = entries) :
    Represents answers rest (bindDrop answers bindings old) := by
  subst parts
  have counts := represents.single
  simp only [countP_add_singleton] at counts
  constructor
  · exact fun key => le_trans (Nat.le_add_right _ _) (counts key)
  · intro key entry
    rw [bindDrop]
    by_cases answering : answers key old = true
    · -- the old entry was the only one for this key
      have alone := counts key
      rw [if_pos answering] at alone
      have gone := Multiset.countP_eq_zero.mp (Nat.le_zero.mp (Nat.le_of_succ_le_succ alone))
      rw [if_pos answering]
      constructor
      · intro impossible
        exact absurd impossible.symm (Option.some_ne_none entry)
      · rintro ⟨member, entryAnswers⟩
        exact absurd entryAnswers (gone entry member)
    · rw [if_neg answering, represents.binds, Multiset.mem_add, Multiset.mem_singleton]
      constructor
      · rintro ⟨member | rfl, entryAnswers⟩
        · exact ⟨member, entryAnswers⟩
        · exact absurd entryAnswers answering
      · rintro ⟨member, entryAnswers⟩
        exact ⟨Or.inl member, entryAnswers⟩

/-- An entry may take the place of another one that answers to the same keys. -/
theorem Represents.replace
    (parts : rest + {old} = entries) (alike : ∀ key, answers key new = answers key old) :
    Represents answers (rest + {new}) (bindWrite answers bindings new) := by
  have dropped := represents.drop parts
  have added : Represents answers (rest + {new})
      (bindWrite answers (bindDrop answers bindings old) new) := by
    apply dropped.add
    intro key answering entry member entryAnswers
    have bound := dropped.eq_some member entryAnswers
    rw [bindDrop, if_pos (alike key ▸ answering)] at bound
    exact absurd bound.symm (Option.some_ne_none entry)
  have same : bindWrite answers (bindDrop answers bindings old) new =
      bindWrite answers bindings new := by
    funext key
    unfold bindWrite bindDrop
    rw [alike key]
    split <;> rfl
  rwa [same] at added

end

theorem Represents.pairwise {entries : List Entry}
    (represents : Represents answers (entries : Multiset Entry) bindings) :
    entries.Pairwise fun entry other => ∀ key, answers key entry = true →
    answers key other ≠ true := by
  have counts := represents.single
  clear represents
  induction entries with
  | nil => exact List.Pairwise.nil
  | cons first rest ih =>
    simp only [← Multiset.cons_coe, Multiset.countP_cons] at counts
    constructor
    · intro other member key answering otherAnswers
      have several : 0 < (rest : Multiset Entry).countP fun entry => answers key entry = true :=
        Multiset.countP_pos.mpr ⟨other, member, otherAnswers⟩
      have counted := counts key
      rw [if_pos answering] at counted
      omega
    · exact ih fun key => le_trans (Nat.le_add_right _ _) (counts key)

end Bindings

end Library
