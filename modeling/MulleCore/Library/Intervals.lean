import Mathlib.Data.Set.Lattice
import Mathlib.Order.CompletePartialOrder
import Mathlib.Order.Interval.Set.Defs

/-!
Lists of half-open intervals over a linear order. An entry `r` stands for the
points from `start r` up to, but not including, `stop r`.
-/

namespace Library

section Intervals

variable {Entry Point : Type} [LinearOrder Point] (start stop : Entry → Point)
variable {gap : Point → Point → Prop} {entries : List Entry} {hull entry : Entry}
  {middle before after result : List Entry}

def cover (entries : List Entry) : Set Point :=
  {point | ∃ entry ∈ entries, start entry ≤ point ∧ point < stop entry}

/-- The stop of every entry stands in `gap` to the start of every later one. -/
def Apart (gap : Point → Point → Prop) (entries : List Entry) : Prop :=
  entries.Pairwise fun left right => gap (stop left) (start right)

abbrev Ordered (entries : List Entry) : Prop :=
  Apart start stop (· ≤ ·) entries

def Widens (gap : Point → Point → Prop) : Prop :=
  ∀ low low' high high', low' ≤ low → gap low high → high ≤ high' → gap low' high'

def Meets (left right : Entry) : Prop :=
  start left < stop right ∧ start right < stop left

def Touches (left right : Entry) : Prop :=
  start left ≤ stop right ∧ start right ≤ stop left

structure Hull (hull entry : Entry) (middle : List Entry) : Prop where
  startEntry : start hull ≤ start entry
  startMiddle : ∀ other ∈ middle, start hull ≤ start other
  startTight : start hull = start entry ∨ ∃ other ∈ middle, start hull = start other
  stopEntry : stop entry ≤ stop hull
  stopMiddle : ∀ other ∈ middle, stop other ≤ stop hull
  stopTight : stop hull = stop entry ∨ ∃ other ∈ middle, stop hull = stop other

structure Spacing (gap : Point → Point → Prop) : Prop where
  widens : Widens gap
  ofLt : ∀ low high, low < high → gap low high
  le : ∀ low high, gap low high → low ≤ high

/-- `result` is the list with `entry` put in, where the hull `hull` stands for
`entry` and all the entries it has absorbed. -/
structure Absorbs (gap : Point → Point → Prop) (entries : List Entry) (entry : Entry)
    (result : List Entry) (before middle after : List Entry) (hull : Entry) : Prop where
  source : entries = before ++ middle ++ after
  target : result = before ++ hull :: after
  spans : Hull start stop hull entry middle
  touches : ∀ other ∈ middle, Touches start stop other entry
  below : ∀ other ∈ before, gap (stop other) (start entry)
  above : ∀ other ∈ after, gap (stop entry) (start other)

theorem spacing_le : Spacing (fun low high : Point => low ≤ high) where
  widens := fun _ _ _ _ down between up => le_trans down (le_trans between up)
  ofLt := fun _ _ => le_of_lt
  le := fun _ _ => id

theorem spacing_lt : Spacing (fun low high : Point => low < high) where
  widens := fun _ _ _ _ down between up => lt_of_le_of_lt down (lt_of_lt_of_le between up)
  ofLt := fun _ _ => id
  le := fun _ _ => le_of_lt

variable {start stop}

@[simp] theorem cover_nil : cover start stop ([] : List Entry) = ∅ := by
  simp [cover]

@[simp] theorem cover_cons (entry : Entry) (rest : List Entry) :
    cover start stop (entry :: rest) =
      Set.Ico (start entry) (stop entry) ∪ cover start stop rest := by
  ext point
  simp [cover, Set.mem_Ico]

@[simp] theorem cover_append (left right : List Entry) :
    cover start stop (left ++ right) = cover start stop left ∪ cover start stop right := by
  induction left with
  | nil => simp
  | cons entry rest ih => simp [ih, Set.union_assoc]

omit [LinearOrder Point] in
theorem Apart.mono {weaker : Point → Point → Prop}
    (implied : ∀ low high, gap low high → weaker low high)
    (apart : Apart start stop gap entries) : Apart start stop weaker entries :=
  List.Pairwise.imp (fun between => implied _ _ between) apart

theorem Apart.ordered (spacing : Spacing gap) (apart : Apart start stop gap entries) :
    Ordered start stop entries :=
  apart.mono spacing.le

omit [LinearOrder Point] in
theorem Apart.getElem
    (apart : Apart start stop gap entries) {first second : Nat} (below : first < second)
    (firstBound : first < entries.length) (bound : second < entries.length) :
    gap (stop entries[first]) (start entries[second]) :=
  List.pairwise_iff_getElem.mp apart first second firstBound bound below

theorem Meets.touches {left right : Entry} (meets : Meets start stop left right) :
    Touches start stop left right :=
  ⟨le_of_lt meets.1, le_of_lt meets.2⟩

theorem cover_disjoint_of_not_meets {window : Entry}
    (misses : ∀ entry ∈ entries, ¬Meets start stop entry window) :
    Disjoint (cover start stop entries) (Set.Ico (start window) (stop window)) := by
  rw [Set.disjoint_left]
  rintro point ⟨entry, member, lower, upper⟩ ⟨windowLower, windowUpper⟩
  exact misses entry member ⟨lt_of_le_of_lt lower windowUpper, lt_of_le_of_lt windowLower upper⟩

/-- A hull covers what its entries cover, if they all touch the new one. -/
theorem Hull.cover_eq (spans : Hull start stop hull entry middle)
    (touches : ∀ other ∈ middle, Touches start stop other entry) :
    Set.Ico (start hull) (stop hull) =
      Set.Ico (start entry) (stop entry) ∪ cover start stop middle := by
  ext point
  simp only [Set.mem_Ico, Set.mem_union, cover, Set.mem_ofPred_eq]
  constructor
  · rintro ⟨lower, upper⟩
    by_cases beforeEntry : point < start entry
    · rcases spans.startTight with same | ⟨other, member, same⟩
      · exact absurd (lt_of_lt_of_le beforeEntry (le_of_eq same.symm)) (not_lt.mpr lower)
      · refine Or.inr ⟨other, member, same ▸ lower, ?_⟩
        exact lt_of_lt_of_le beforeEntry (touches other member).2
    · by_cases inEntry : point < stop entry
      · exact Or.inl ⟨not_lt.mp beforeEntry, inEntry⟩
      · rcases spans.stopTight with same | ⟨other, member, same⟩
        · exact absurd (same ▸ upper) inEntry
        · refine Or.inr ⟨other, member, ?_, same ▸ upper⟩
          exact le_trans (touches other member).1 (not_lt.mp inEntry)
  · rintro (⟨lower, upper⟩ | ⟨other, member, lower, upper⟩)
    · exact ⟨le_trans spans.startEntry lower, lt_of_lt_of_le upper spans.stopEntry⟩
    · exact ⟨le_trans (spans.startMiddle other member) lower,
        lt_of_lt_of_le upper (spans.stopMiddle other member)⟩

/-- Entries stay apart when some of them are replaced by their hull. -/
theorem Apart.replace_hull (apart : Apart start stop gap (before ++ middle ++ after))
    (spans : Hull start stop hull entry middle)
    (below : ∀ other ∈ before, gap (stop other) (start entry))
    (above : ∀ other ∈ after, gap (stop entry) (start other)) :
    Apart start stop gap (before ++ hull :: after) := by
  simp only [Apart, List.pairwise_append, List.pairwise_cons, List.mem_append,
    List.mem_cons] at apart ⊢
  obtain ⟨⟨beforeApart, -, beforeMiddle⟩, afterApart, crossing⟩ := apart
  refine ⟨beforeApart, ⟨?_, afterApart⟩, ?_⟩
  · intro other member
    rcases spans.stopTight with same | ⟨inner, innerMember, same⟩
    · exact same ▸ above other member
    · exact same ▸ crossing inner (Or.inr innerMember) other member
  · rintro left leftMember right (rfl | rightMember)
    · rcases spans.startTight with same | ⟨inner, innerMember, same⟩
      · exact same ▸ below left leftMember
      · exact same ▸ beforeMiddle left leftMember inner innerMember
    · exact crossing left (Or.inl leftMember) right rightMember

theorem Absorbs.apart
    (absorbs : Absorbs start stop gap entries entry result before middle after hull)
    (apart : Apart start stop gap entries) : Apart start stop gap result := by
  rw [absorbs.target]
  rw [absorbs.source] at apart
  exact apart.replace_hull absorbs.spans absorbs.below absorbs.above

theorem Absorbs.cover_eq
    (absorbs : Absorbs start stop gap entries entry result before middle after hull) :
    cover start stop result =
      cover start stop entries ∪ Set.Ico (start entry) (stop entry) := by
  rw [absorbs.target, absorbs.source, cover_append, cover_cons, cover_append, cover_append,
    absorbs.spans.cover_eq absorbs.touches]
  ext point
  simp only [Set.mem_union]
  tauto

theorem Apart.narrow (widens : Widens gap) {narrower : Entry}
    (apart : Apart start stop gap (before ++ entry :: after))
    (startUp : start entry ≤ start narrower) (stopDown : stop narrower ≤ stop entry) :
    Apart start stop gap (before ++ narrower :: after) := by
  simp only [Apart, List.pairwise_append, List.pairwise_cons, List.mem_cons] at apart ⊢
  obtain ⟨beforeApart, ⟨entryAfter, afterApart⟩, crossing⟩ := apart
  refine ⟨beforeApart, ⟨?_, afterApart⟩, ?_⟩
  · intro other member
    exact widens _ _ _ _ stopDown (entryAfter other member) le_rfl
  · rintro left leftMember right (rfl | rightMember)
    · exact widens _ _ _ _ le_rfl (crossing left leftMember entry (Or.inl rfl)) startUp
    · exact crossing left leftMember right (Or.inr rightMember)

omit [LinearOrder Point] in
theorem Apart.remove (apart : Apart start stop gap (before ++ entry :: after)) :
    Apart start stop gap (before ++ after) :=
  List.Pairwise.sublist (List.Sublist.append_left (List.sublist_cons_self entry after) before)
    apart

end Intervals

end Library
