import Mathlib.Data.List.Perm.Basic

/-!
Items that are made once and handed out again and again: what is not in use is free.
-/

namespace Library

structure Pool (Item : Type) where
  made : List Item
  freed : List Item

structure Pool.Serves {Item : Type} (pool : Pool Item) (live : List Item) : Prop where
  distinct : pool.made.Nodup
  shared : (live ++ pool.freed).Perm pool.made

section Pool

variable {Item : Type} {pool : Pool Item} {made freed live : List Item} {item : Item}

theorem Pool.empty_serves : Pool.Serves (⟨[], []⟩ : Pool Item) [] := ⟨List.nodup_nil, .refl _⟩

section

variable (serves : pool.Serves live)
include serves

theorem Pool.Serves.together : (live ++ pool.freed).Nodup :=
  serves.shared.nodup_iff.mpr serves.distinct

theorem Pool.Serves.live_distinct : live.Nodup :=
  (List.nodup_append.mp serves.together).1

theorem Pool.Serves.not_freed (member : item ∈ live) : item ∉ pool.freed := by
  intro free
  exact (List.nodup_append.mp serves.together).2.2 item member item free rfl

theorem Pool.Serves.live_made (member : item ∈ live) : item ∈ pool.made := by
  apply serves.shared.subset
  exact List.mem_append_left _ member

theorem Pool.Serves.counts :
    live.length + pool.freed.length = pool.made.length := by
  rw [← List.length_append]
  exact serves.shared.length_eq

end

theorem Pool.Serves.all_live (serves : Pool.Serves ⟨made, []⟩ live) : live.Perm made := by
  simpa using serves.shared

theorem Pool.Serves.reuse (serves : Pool.Serves ⟨made, freed ++ [item]⟩ live) :
    Pool.Serves ⟨made, freed⟩ (item :: live) where
  distinct := serves.distinct
  shared := by
    refine List.Perm.trans ?_ serves.shared
    rw [← List.append_assoc]
    exact (List.perm_append_singleton item (live ++ freed)).symm

theorem Pool.Serves.make (serves : Pool.Serves ⟨made, freed⟩ live) (fresh : item ∉ made) :
    Pool.Serves ⟨made ++ [item], freed⟩ (item :: live) where
  distinct := by
    rw [(List.perm_append_singleton item made).nodup_iff]
    exact List.nodup_cons.mpr ⟨fresh, serves.distinct⟩
  shared := (serves.shared.cons item).trans (List.perm_append_singleton item made).symm

theorem Pool.Serves.free [DecidableEq Item] (serves : Pool.Serves ⟨made, freed⟩ live)
    (member : item ∈ live) :
    Pool.Serves ⟨made, freed ++ [item]⟩ (live.erase item) where
  distinct := serves.distinct
  shared := by
    refine List.Perm.trans ?_ serves.shared
    rw [← List.append_assoc]
    refine (List.perm_append_singleton item (live.erase item ++ freed)).trans ?_
    exact (List.perm_cons_erase member).symm.append_right freed

end Pool

end Library
