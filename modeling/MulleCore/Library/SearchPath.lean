import MulleCore.Library.Rotations
import MulleCore.Library.Sorting

/-!
The way down an ordered tree to where an item belongs.
-/

namespace Library

section SearchPath

variable {Item Value : Type} {compare : Value → Value → Int} {key : Item → Value} {value : Value}
  {path : Path Item}

def sideOf (order : Int) : Side := if order < 0 then .left else .right

def Leads (compare : Value → Value → Int) (key : Item → Value) (value : Value) (path : Path Item) :
    Prop :=
  ∀ frame ∈ path, frame.side = sideOf (compare value (key frame.item))

theorem after_eq_nil (onRight : ∀ frame ∈ path, frame.side = .right) : after path = [] := by
  induction path with
  | nil => rfl
  | cons frame path ih =>
    obtain ⟨side, item, sibling⟩ := frame
    simp only [List.mem_cons, forall_eq_or_imp] at onRight
    obtain ⟨rfl, rest⟩ := onRight
    exact ih rest

/-- All that is before the focus is at most as large as some frame the value is not below. -/
theorem Leads.before_bound (leads : Leads compare key value path) (order : TotalCompare compare)
    (sorted : ((before path).map key).Pairwise fun left right => compare left right ≤ 0) :
    ∀ item ∈ before path, ∃ frame ∈ path,
      compare (key item) (key frame.item) ≤ 0 ∧ 0 ≤ compare value (key frame.item) := by
  induction path with
  | nil => simp [before]
  | cons frame path ih =>
    obtain ⟨side, here, sibling⟩ := frame
    simp only [Leads, List.mem_cons, forall_eq_or_imp] at leads
    obtain ⟨towards, rest⟩ := leads
    intro item inside
    cases side with
    | left =>
      obtain ⟨frame, above, bound⟩ := ih rest sorted item inside
      exact ⟨frame, List.mem_cons_of_mem _ above, bound⟩
    | right =>
      refine ⟨_, List.mem_cons_self, ?_, ?_⟩
      · simp only [before, List.map_append, List.map_cons, List.map_nil,
          List.pairwise_append] at sorted
        simp only [before, List.mem_append, List.mem_singleton] at inside
        rcases inside with earlier | rfl
        · refine sorted.2.2 (key item) ?_ (key here) (by simp)
          rw [← List.map_append]
          exact List.mem_map_of_mem (List.mem_append.mpr earlier)
        · exact Int.le_of_eq (order.refl _)
      · simp only [sideOf] at towards
        split_ifs at towards with isBelow
        exact Int.not_lt.mp isBelow

theorem Leads.after_bound (leads : Leads compare key value path) (order : TotalCompare compare)
    (sorted : ((after path).map key).Pairwise fun left right => compare left right ≤ 0) :
    ∀ item ∈ after path, ∃ frame ∈ path,
      compare (key frame.item) (key item) ≤ 0 ∧ compare value (key frame.item) < 0 := by
  induction path with
  | nil => simp [after]
  | cons frame path ih =>
    obtain ⟨side, here, sibling⟩ := frame
    simp only [Leads, List.mem_cons, forall_eq_or_imp] at leads
    obtain ⟨towards, rest⟩ := leads
    intro item inside
    cases side with
    | left =>
      refine ⟨_, List.mem_cons_self, ?_, ?_⟩
      · simp only [after, List.cons_append, List.map_cons, List.pairwise_cons] at sorted
        simp only [after, List.cons_append, List.mem_cons] at inside
        rcases inside with rfl | later
        · exact Int.le_of_eq (order.refl _)
        · exact sorted.1 (key item) (List.mem_map_of_mem later)
      · simp only [sideOf] at towards
        split_ifs at towards with isBelow
        exact isBelow
    | right =>
      obtain ⟨frame, above, bound⟩ := ih rest sorted item inside
      exact ⟨frame, List.mem_cons_of_mem _ above, bound⟩

variable (leads : Leads compare key value path) (order : TotalCompare compare)
  (sorted : ((before path ++ after path).map key).Pairwise fun left right => compare left right ≤ 0)
include leads order sorted

theorem Leads.before_le : ∀ item ∈ before path, 0 ≤ compare value (key item) := by
  intro item inside
  rw [List.map_append, List.pairwise_append] at sorted
  obtain ⟨frame, _, below, notBelow⟩ := leads.before_bound order sorted.1 item inside
  have whole := order.trans _ _ _ below (order.le_of_ge notBelow)
  have flipped := order.flip value (key item)
  omega

theorem Leads.after_lt : ∀ item ∈ after path, compare value (key item) < 0 := by
  intro item inside
  rw [List.map_append, List.pairwise_append] at sorted
  obtain ⟨frame, _, above, isBelow⟩ := leads.after_bound order sorted.2.1 item inside
  by_contra notBelow
  have whole := order.trans _ _ _ above (order.le_of_ge (Int.not_lt.mp notBelow))
  have flipped := order.flip value (key frame.item)
  omega

theorem Leads.ne (differs : ∀ frame ∈ path, compare value (key frame.item) ≠ 0) :
    ∀ item ∈ before path ++ after path, compare value (key item) ≠ 0 := by
  intro item inside
  rcases List.mem_append.mp inside with earlier | later
  · rw [List.map_append, List.pairwise_append] at sorted
    obtain ⟨frame, above, below, notBelow⟩ := leads.before_bound order sorted.1 item earlier
    intro equal
    have whole := order.trans _ _ _ (Int.le_of_eq equal) below
    exact differs frame above (by omega)
  · exact Int.ne_of_lt (leads.after_lt order sorted item later)

end SearchPath

end Library
