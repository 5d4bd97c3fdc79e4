import MulleCore.Library.RedBlack

/-!
A tree in order, read towards one of its sides, and what lies beyond a node on that side.
-/

namespace Library

section Traversal

variable {Item : Type}
variable {side : Side} {item : Item}

def facing (side : Side) (items : List Item) : List Item :=
  match side with
  | .left => items.reverse
  | .right => items

def inorderTo (side : Side) (tree : BinaryTree Item) : List Item := facing side (inorder tree)

def beyond (side : Side) (path : Path Item) : List Item :=
  match side with
  | .left => (before path).reverse
  | .right => after path

theorem facing_map {Value : Type} (side : Side) (value : Item → Value) (items : List Item) :
    (facing side items).map value = facing side (items.map value) := by
  cases side with
  | left => simp [facing]
  | right => rfl

@[simp] theorem mem_facing {items : List Item} : item ∈ facing side items ↔ item ∈ items := by
  cases side <;> simp [facing]

theorem facing_nodup {items : List Item} (distinct : items.Nodup) : (facing side items).Nodup := by
  cases side with
  | left => exact List.nodup_reverse.mpr distinct
  | right => exact distinct

@[simp] theorem facing_length (side : Side) (items : List Item) :
    (facing side items).length = items.length := by
  cases side <;> simp [facing]

@[simp] theorem beyond_nil (side : Side) : beyond side ([] : Path Item) = [] := by
  cases side <;> rfl

@[simp] theorem beyond_cons_same (side : Side) (item : Item) (sibling : BinaryTree Item)
    (path : Path Item) :
    beyond side (⟨side, item, sibling⟩ :: path) = beyond side path := by
  cases side <;> rfl

@[simp] theorem beyond_cons_flip (side : Side) (item : Item) (sibling : BinaryTree Item)
    (path : Path Item) :
    beyond side (⟨side.flip, item, sibling⟩ :: path) = item ::
      (inorderTo side sibling ++ beyond side path) := by
  cases side <;> simp [beyond, Side.flip, before, after, inorderTo, facing]

@[simp] theorem inorderTo_nil (side : Side) : inorderTo side (.nil : BinaryTree Item) = [] := by
  cases side <;> rfl

@[simp] theorem inorderTo_join_flip (side : Side) (near : BinaryTree Item) (item : Item)
    (far : BinaryTree Item) :
    inorderTo side (join side.flip near item far) = inorderTo side near ++ item ::
      inorderTo side far := by
  cases side <;> simp [join, inorder, inorderTo, facing, Side.flip]

@[simp] theorem inorderTo_join (side : Side) (near : BinaryTree Item) (item : Item)
    (far : BinaryTree Item) :
    inorderTo side (join side near item far) = inorderTo side far ++ item :: inorderTo side near := by
  cases side <;> simp [join, inorder, inorderTo, facing]

theorem inorderTo_plug (side : Side) (tree : BinaryTree Item) (path : Path Item) :
    inorderTo side (plug tree path) = (beyond side.flip path).reverse ++ inorderTo side tree ++
      beyond side path := by
  cases side <;> simp [inorderTo, inorder_plug, facing, beyond, Side.flip]

theorem beyond_of_turned {path : Path Item} (turned : ∀ frame ∈ path, frame.side = side) :
    beyond side path = [] := by
  induction path with
  | nil => exact beyond_nil side
  | cons frame path ih =>
    obtain ⟨turn, item, sibling⟩ := frame
    simp only [List.mem_cons, forall_eq_or_imp] at turned
    obtain ⟨rfl, rest⟩ := turned
    rw [beyond_cons_same]
    exact ih rest

/-! Steps from one item of a list to the next. -/

def StepsThrough (step : Item → Option Item) (stop : Item) (items : List Item) : Prop :=
  ∀ earlier item later, items = earlier ++ item :: later → step item = some (later.head?.getD stop)

theorem StepsThrough.back {step back : Item → Option Item} {stop : Item} {items : List Item}
    (steps : StepsThrough step stop items)
    (backs : StepsThrough back stop items.reverse) {next : Item} (inside : item ∈ items)
    (stepped : step item = some next) (proper : next ≠ stop) :
    next ∈ items ∧ back next = some item := by
  obtain ⟨earlier, later, whole⟩ := List.append_of_mem inside
  rw [steps earlier item later whole, Option.some.injEq] at stepped
  cases later with
  | nil => exact absurd stepped.symm proper
  | cons other later =>
    obtain rfl : other = next := stepped
    refine ⟨by simp [whole], ?_⟩
    exact backs later.reverse other (item :: earlier.reverse) (by simp [whole])

variable [DecidableEq Item] (step : Item → Option Item) (stop : Item)

def visits : Nat → Item → Option (List Item)
  | 0, _ => none
  | fuel + 1, item =>
    if item = stop then some []
    else do
      let next ← step item
      let rest ← visits fuel next
      some (item :: rest)

variable {step stop} {items : List Item}

theorem StepsThrough.visits_from (steps : StepsThrough step stop items) (absent : stop ∉ items) :
    ∀ (fuel : Nat) (earlier later : List Item), items = earlier ++ later → later.length < fuel →
      visits step stop fuel (later.head?.getD stop) = some later := by
  intro fuel
  induction fuel with
  | zero => exact fun _ _ _ enough => absurd enough (Nat.not_lt_zero _)
  | succ fuel ih =>
    intro earlier later whole enough
    cases later with
    | nil => exact if_pos rfl
    | cons item later =>
      have proper : item ≠ stop := by
        rintro rfl
        exact absent (by simp [whole])
      have rest := ih (earlier ++ [item]) later (by simpa using whole) (by simpa using enough)
      rw [List.head?_cons, Option.getD_some, visits, if_neg proper, steps earlier item later whole]
      simp only [Option.bind_eq_bind, Option.bind_some, rest]

end Traversal

end Library
