import Mathlib.Data.Tree.Basic
import Mathlib.Data.Multiset.AddSub

/-!
Red-black trees, seen from one of their nodes: the subtree there and the path from it
up to the root. The two sides of a node are treated alike.
-/

namespace Library

inductive Side where
  | left
  | right
deriving DecidableEq

def Side.flip : Side → Side
  | .left => .right
  | .right => .left

@[simp] theorem Side.flip_flip (side : Side) : side.flip.flip = side := by
  cases side <;> rfl

theorem Side.flip_ne (side : Side) : side.flip ≠ side := by
  cases side <;> decide

theorem Side.eq_or_flip (side other : Side) : other = side ∨ other = side.flip := by
  cases side <;> cases other <;> decide

section Paths

variable {Item : Type}

def join (side : Side) (near : BinaryTree Item) (item : Item) (far : BinaryTree Item) :
    BinaryTree Item :=
  match side with
  | .left => .node item near far
  | .right => .node item far near

theorem join_flip (side : Side) (near far : BinaryTree Item) (item : Item) :
    join side.flip near item far = join side far item near := by
  cases side <;> rfl

theorem join_ne_nil (side : Side) (near far : BinaryTree Item) (item : Item) :
    join side near item far ≠ .nil := by
  cases side <;> simp [join]

theorem exists_join (side : Side) (item : Item) (left right : BinaryTree Item) :
    ∃ near far, BinaryTree.node item left right = join side near item far := by
  cases side with
  | left => exact ⟨left, right, rfl⟩
  | right => exact ⟨right, left, rfl⟩

def inorder : BinaryTree Item → List Item
  | .nil => []
  | .node item left right => inorder left ++ item :: inorder right

theorem mem_inorder_join {side : Side} {near far : BinaryTree Item} {item other : Item} :
    other ∈ inorder (join side near item far) ↔
      other = item ∨ other ∈ inorder near ∨ other ∈ inorder far := by
  cases side <;> simp [join, inorder] <;> tauto

/-- A node above the focus, with the child that the path does not come from. -/
structure Frame (Item : Type) where
  side : Side
  item : Item
  sibling : BinaryTree Item

abbrev Path (Item : Type) := List (Frame Item)

def plug : BinaryTree Item → Path Item → BinaryTree Item
  | tree, [] => tree
  | tree, frame :: path => plug (join frame.side tree frame.item frame.sibling) path

def before : Path Item → List Item
  | [] => []
  | ⟨.left, _, _⟩ :: path => before path
  | ⟨.right, item, sibling⟩ :: path => before path ++ inorder sibling ++ [item]

def after : Path Item → List Item
  | [] => []
  | ⟨.left, item, sibling⟩ :: path => item :: inorder sibling ++ after path
  | ⟨.right, _, _⟩ :: path => after path

theorem inorder_plug : ∀ (path : Path Item) (tree : BinaryTree Item),
    inorder (plug tree path) = before path ++ inorder tree ++ after path := by
  intro path
  induction path with
  | nil => simp [plug, before, after]
  | cons frame path ih =>
    intro tree
    obtain ⟨side, item, sibling⟩ := frame
    cases side with
    | left => simp [plug, ih, join, inorder, before, after]
    | right => simp [plug, ih, join, inorder, before, after]

theorem plug_append (path more : Path Item) (tree : BinaryTree Item) :
    plug tree (path ++ more) = plug (plug tree path) more := by
  induction path generalizing tree with
  | nil => rfl
  | cons frame path ih => exact ih _

theorem plug_ne_nil {tree : BinaryTree Item} (nonempty : tree ≠ .nil) (path : Path Item) :
    plug tree path ≠ .nil := by
  induction path generalizing tree with
  | nil => exact nonempty
  | cons frame path ih => exact ih (join_ne_nil _ _ _ _)

theorem before_append (path more : Path Item) :
    before (path ++ more) = before more ++ before path := by
  induction path with
  | nil => simp [before]
  | cons frame path ih =>
    obtain ⟨side, item, sibling⟩ := frame
    cases side <;> simp [before, ih]

theorem after_append (path more : Path Item) : after (path ++ more) = after path ++ after more := by
  induction path with
  | nil => simp [after]
  | cons frame path ih =>
    obtain ⟨side, item, sibling⟩ := frame
    cases side <;> simp [after, ih]

theorem before_eq_nil {path : Path Item} (onLeft : ∀ frame ∈ path, frame.side = .left) :
    before path = [] := by
  induction path with
  | nil => rfl
  | cons frame path ih =>
    obtain ⟨side, item, sibling⟩ := frame
    simp only [List.mem_cons, forall_eq_or_imp] at onLeft
    obtain ⟨rfl, rest⟩ := onLeft
    exact ih rest

end Paths

section Colours

variable {Item : Type}
variable {tree : BinaryTree (Item × Bool)} {other : Side} {a b : BinaryTree (Item × Bool)}

def rootRed : BinaryTree (Item × Bool) → Bool
  | .nil => false
  | .node (_, red) _ _ => red

/-- No red node has a red child, and all ways down have `height` black nodes. -/
def RbBalanced : BinaryTree (Item × Bool) → Nat → Prop
  | .nil, height => height = 0
  | .node (_, true) left right, height =>
    rootRed left = false ∧ rootRed right = false ∧ RbBalanced left height ∧ RbBalanced right height
  | .node (_, false) left right, height =>
    ∃ lower, height = lower + 1 ∧ RbBalanced left lower ∧ RbBalanced right lower

def RedBlack (tree : BinaryTree (Item × Bool)) : Prop :=
  rootRed tree = false ∧ ∃ height, RbBalanced tree height

def aboveRed : Path (Item × Bool) → Bool
  | [] => true
  | ⟨_, (_, red), _⟩ :: _ => red

def Fits : Path (Item × Bool) → Nat → Prop
  | [], _ => True
  | ⟨_, (_, true), sibling⟩ :: path, height =>
    rootRed sibling = false ∧ RbBalanced sibling height ∧ aboveRed path = false ∧ Fits path height
  | ⟨_, (_, false), sibling⟩ :: path, height => RbBalanced sibling height ∧ Fits path (height + 1)

variable {side : Side} {near far : BinaryTree (Item × Bool)} {item : Item} {height : Nat}

@[simp] theorem rootRed_join (red : Bool) : rootRed (join side near (item, red) far) = red := by
  cases side <;> rfl

theorem balanced_join_red : RbBalanced (join side near (item, true) far) height ↔
    rootRed near = false ∧ rootRed far = false ∧ RbBalanced near height ∧ RbBalanced far height := by
  cases side with
  | left => rfl
  | right =>
    simp only [join, RbBalanced]
    constructor
    · rintro ⟨farBlack, nearBlack, farBalanced, nearBalanced⟩
      exact ⟨nearBlack, farBlack, nearBalanced, farBalanced⟩
    · rintro ⟨nearBlack, farBlack, nearBalanced, farBalanced⟩
      exact ⟨farBlack, nearBlack, farBalanced, nearBalanced⟩

theorem balanced_join_black : RbBalanced (join side near (item, false) far) (height + 1) ↔
    RbBalanced near height ∧ RbBalanced far height := by
  cases side with
  | left => simp [join, RbBalanced]
  | right => simp [join, RbBalanced, and_comm]

theorem not_balanced_black_zero : ¬RbBalanced (join side near (item, false) far) 0 := by
  cases side <;> simp [join, RbBalanced]

def colours (tree : BinaryTree (Item × Bool)) : BinaryTree Bool := tree.map Prod.snd

@[simp] theorem colours_join (red : Bool) : colours (join side near (item, red) far) =
    join side (colours near) red (colours far) := by
  cases side <;> rfl

theorem rootRed_of_colours {next : BinaryTree (Item × Bool)} (same : colours next = colours tree) :
    rootRed next = rootRed tree := by
  cases tree <;> cases next <;> simp_all [colours, BinaryTree.map, rootRed]

/-- Balance depends on the colours alone. -/
theorem RbBalanced.of_colours : ∀ {tree next : BinaryTree (Item × Bool)} {height : Nat},
    RbBalanced tree height → colours next = colours tree → RbBalanced next height := by
  intro tree
  induction tree with
  | nil =>
    intro next height balanced same
    cases next with
    | nil => exact balanced
    | node item left right => simp [colours, BinaryTree.map] at same
  | node item left right leftIh rightIh =>
    intro next height balanced same
    cases next with
    | nil => simp [colours, BinaryTree.map] at same
    | node other otherLeft otherRight =>
      obtain ⟨name, red⟩ := item
      obtain ⟨otherName, otherRed⟩ := other
      simp only [colours, BinaryTree.map, BinaryTree.node.injEq] at same
      obtain ⟨sameRed, sameLeft, sameRight⟩ := same
      subst sameRed
      cases otherRed with
      | true =>
        obtain ⟨leftBlack, rightBlack, inLeft, inRight⟩ := balanced
        exact ⟨(rootRed_of_colours sameLeft).trans leftBlack,
          (rootRed_of_colours sameRight).trans rightBlack, leftIh inLeft sameLeft,
          rightIh inRight sameRight⟩
      | false =>
        obtain ⟨lower, rfl, inLeft, inRight⟩ := balanced
        exact ⟨lower, rfl, leftIh inLeft sameLeft, rightIh inRight sameRight⟩

theorem Fits.of_colours {red : Bool} {sibling other : BinaryTree (Item × Bool)}
    {path : Path (Item × Bool)} {name : Item}
    (fits : Fits (⟨side, (item, red), sibling⟩ :: path) height)
    (same : colours other = colours sibling) : Fits (⟨side, (name, red), other⟩ :: path) height := by
  cases red with
  | true => exact ⟨(rootRed_of_colours same).trans fits.1, fits.2.1.of_colours same, fits.2.2⟩
  | false => exact ⟨fits.1.of_colours same, fits.2⟩

theorem exists_join_of_balanced (side : Side) (balanced : RbBalanced tree (height + 1)) :
    ∃ near item red far, tree = join side near (item, red) far := by
  cases tree with
  | nil => simp [RbBalanced] at balanced
  | node item left right =>
    obtain ⟨near, far, same⟩ := exists_join side item left right
    exact ⟨near, item.1, item.2, far, same⟩

theorem exists_join_of_red (side : Side)
    (isRed : rootRed tree = true) : ∃ near item far, tree = join side near (item, true) far := by
  cases tree with
  | nil => simp [rootRed] at isRed
  | node item left right =>
    obtain ⟨near, far, same⟩ := exists_join side item left right
    obtain ⟨name, red⟩ := item
    simp only [rootRed] at isRed
    subst isRed
    exact ⟨near, name, far, same⟩

/-- A tree is red-black, if the one at the focus and the path to it fit together. -/
theorem redBlack_plug_iff : ∀ (path : Path (Item × Bool)) (tree : BinaryTree (Item × Bool)),
    RedBlack (plug tree path) ↔ ∃ height, RbBalanced tree height ∧ Fits path height ∧
      (rootRed tree = true → aboveRed path = false) := by
  intro path
  induction path with
  | nil =>
    intro tree
    simp [plug, RedBlack, Fits, aboveRed, and_comm]
  | cons frame path ih =>
    intro tree
    obtain ⟨side, ⟨item, red⟩, sibling⟩ := frame
    rw [plug, ih]
    cases red with
    | true =>
      simp only [balanced_join_red, rootRed_join, Fits, aboveRed]
      constructor
      · rintro ⟨height, ⟨black, siblingBlack, balanced, siblingBalanced⟩, fits, above⟩
        refine ⟨height, balanced, ⟨siblingBlack, siblingBalanced, above trivial, fits⟩, ?_⟩
        simp [black]
      · rintro ⟨height, balanced, ⟨siblingBlack, siblingBalanced, above, fits⟩, black⟩
        refine ⟨height, ⟨?_, siblingBlack, balanced, siblingBalanced⟩, fits, fun _ => above⟩
        simpa using black
    | false =>
      simp only [rootRed_join, Fits, aboveRed]
      constructor
      · rintro ⟨height, balanced, fits, _⟩
        cases height with
        | zero => exact absurd balanced not_balanced_black_zero
        | succ height =>
          obtain ⟨low, siblingLow⟩ := balanced_join_black.mp balanced
          exact ⟨height, low, ⟨siblingLow, fits⟩, fun _ => trivial⟩
      · rintro ⟨height, balanced, ⟨siblingBalanced, fits⟩, _⟩
        exact ⟨height + 1, balanced_join_black.mpr ⟨balanced, siblingBalanced⟩, fits, by simp⟩

theorem Fits.replace {more : Path (Item × Bool)} {sibling : BinaryTree (Item × Bool)} {red : Bool} :
    ∀ {path : Path (Item × Bool)} {height : Nat} (other : Item),
      Fits (path ++ ⟨side, (item, red), sibling⟩ :: more) height →
      Fits (path ++ ⟨side, (other, red), sibling⟩ :: more) height := by
  intro path
  induction path with
  | nil => exact fun other fits => fits.of_colours rfl
  | cons frame path ih =>
    intro height other fits
    obtain ⟨near, ⟨name, isRed⟩, far⟩ := frame
    cases isRed with
    | true =>
      obtain ⟨farBlack, farBalanced, above, rest⟩ := fits
      refine ⟨farBlack, farBalanced, ?_, ih other rest⟩
      cases path <;> exact above
    | false => exact ⟨fits.1, ih other fits.2⟩

/-! Insertion: a red focus, perhaps below a red node. -/

variable {path : Path (Item × Bool)} {x uncle sibling : BinaryTree (Item × Bool)} {p g w u : Item}
  {outer : Side} {red : Bool}

theorem Fits.grandparent (fits : Fits (⟨side, (p, true), sibling⟩ :: path) height) :
    ∃ outer g uncle rest, path = ⟨outer, (g, false), uncle⟩ :: rest := by
  obtain ⟨_, _, above, _⟩ := fits
  cases path with
  | nil => simp [aboveRed] at above
  | cons frame rest =>
    obtain ⟨outer, ⟨g, red⟩, uncle⟩ := frame
    simp only [aboveRed] at above
    subst above
    exact ⟨outer, g, uncle, rest, rfl⟩

theorem Fits.recolor
    (fits : Fits (⟨side, (p, true), sibling⟩ :: ⟨outer, (g, false), join other a (u, true) b⟩ :: path)
      height)
    (balanced : RbBalanced x height) :
    RbBalanced (join outer (join side x (p, false) sibling) (g, true) (join other a (u, false) b))
        (height + 1) ∧ Fits path (height + 1) := by
  obtain ⟨_, siblingBalanced, _, uncleBalanced, above⟩ := fits
  obtain ⟨_, _, aBalanced, bBalanced⟩ := balanced_join_red.mp uncleBalanced
  refine ⟨balanced_join_red.mpr ⟨rootRed_join false, rootRed_join false, ?_, ?_⟩, above⟩
  · exact balanced_join_black.mpr ⟨balanced, siblingBalanced⟩
  · exact balanced_join_black.mpr ⟨aBalanced, bBalanced⟩

theorem Fits.rotate
    (fits : Fits (⟨side, (p, true), sibling⟩ :: ⟨side, (g, false), uncle⟩ :: path) height)
    (balanced : RbBalanced x height) (uncleBlack : rootRed uncle = false) :
    RbBalanced (join side x (p, false) (join side sibling (g, true) uncle)) (height + 1) ∧
      Fits path (height + 1) := by
  obtain ⟨siblingBlack, siblingBalanced, _, uncleBalanced, above⟩ := fits
  refine ⟨balanced_join_black.mpr ⟨balanced, balanced_join_red.mpr ?_⟩, above⟩
  exact ⟨siblingBlack, uncleBlack, siblingBalanced, uncleBalanced⟩

theorem Fits.straighten {n : Item}
    (fits : Fits (⟨side.flip, (p, true), sibling⟩ :: ⟨side, (g, false), uncle⟩ :: path) height)
    (balanced : RbBalanced (join side a (n, true) b) height) :
    RbBalanced (join side sibling (p, true) a) height ∧
      Fits (⟨side, (n, true), b⟩ :: ⟨side, (g, false), uncle⟩ :: path) height := by
  obtain ⟨siblingBlack, siblingBalanced, above, rest⟩ := fits
  obtain ⟨aBlack, bBlack, aBalanced, bBalanced⟩ := balanced_join_red.mp balanced
  exact ⟨balanced_join_red.mpr ⟨siblingBlack, aBlack, siblingBalanced, aBalanced⟩, bBlack, bBalanced,
    above, rest⟩

/-! Removal: the focus is one black node short. -/

/-- With a black root the tree is balanced at `height + 1`, or is already black and
balanced at `height`. -/
def Short : BinaryTree (Item × Bool) → Nat → Prop
  | .nil, height => height = 0
  | .node (_, true) left right, height => RbBalanced left height ∧ RbBalanced right height
  | .node (item, false) left right, height => RbBalanced (.node (item, false) left right) height

theorem RbBalanced.short (balanced : RbBalanced tree height) :
    Short tree height := by
  cases tree with
  | nil => exact balanced
  | node item left right =>
    obtain ⟨name, red⟩ := item
    cases red with
    | true => exact balanced.2.2
    | false => exact balanced

theorem Short.balanced (short : Short tree height)
    (black : rootRed tree = false) : RbBalanced tree height := by
  cases tree with
  | nil => exact short
  | node item left right =>
    obtain ⟨name, red⟩ := item
    simp only [rootRed] at black
    subst black
    exact short

theorem short_join_red (balanced : RbBalanced near height) (farBalanced : RbBalanced far height) :
    Short (join side near (item, true) far) height := by
  cases side with
  | left => exact ⟨balanced, farBalanced⟩
  | right => exact ⟨farBalanced, balanced⟩

theorem Short.blacken (short : Short (join side near (item, true) far) height) :
    RbBalanced (join side near (item, false) far) (height + 1) := by
  cases side with
  | left => exact balanced_join_black.mpr short
  | right => exact balanced_join_black.mpr ⟨short.2, short.1⟩

theorem Fits.sibling_join (fits : Fits (⟨side, (p, red), sibling⟩ :: path) (height + 1)) :
    ∃ near w wRed far, sibling = join side near (w, wRed) far := by
  cases red with
  | true => exact exists_join_of_balanced side fits.2.1
  | false => exact exists_join_of_balanced side fits.1

theorem Fits.sibling_balanced (fits : Fits (⟨side, (p, red), sibling⟩ :: path) height) :
    RbBalanced sibling height := by
  cases red with
  | true => exact fits.2.1
  | false => exact fits.1

theorem Fits.redSibling
    (fits : Fits (⟨side, (p, red), join side near (w, true) far⟩ :: path) (height + 1)) :
    red = false ∧ rootRed near = false ∧
      Fits (⟨side, (p, true), near⟩ :: ⟨side, (w, false), far⟩ :: path) (height + 1) := by
  cases red with
  | true =>
    obtain ⟨black, _⟩ := fits
    simp at black
  | false =>
    obtain ⟨siblingBalanced, above⟩ := fits
    obtain ⟨nearBlack, _, nearBalanced, farBalanced⟩ := balanced_join_red.mp siblingBalanced
    exact ⟨rfl, nearBlack, nearBlack, nearBalanced, rfl, farBalanced, above⟩

theorem Fits.lower
    (fits : Fits (⟨side, (p, red), join side near (w, false) far⟩ :: path) (height + 1))
    (balanced : RbBalanced x height) (nearBlack : rootRed near = false)
    (farBlack : rootRed far = false) :
    ∃ next, Short (join side x (p, red) (join side near (w, true) far)) next ∧
      Fits path (next + 1) := by
  obtain ⟨nearBalanced, farBalanced⟩ := balanced_join_black.mp fits.sibling_balanced
  have lowered : RbBalanced (join side near (w, true) far) height :=
    balanced_join_red.mpr ⟨nearBlack, farBlack, nearBalanced, farBalanced⟩
  cases red with
  | true => exact ⟨height, short_join_red balanced lowered, fits.2.2.2⟩
  | false =>
    refine ⟨height + 1, RbBalanced.short ?_, fits.2⟩
    exact balanced_join_black.mpr ⟨balanced, lowered⟩

theorem Fits.nearRed
    (fits : Fits (⟨side, (p, red), join side (join side a (u, true) b) (w, false) far⟩ :: path)
      (height + 1))
    (farBlack : rootRed far = false) :
    Fits (⟨side, (p, red), join side a (u, false) (join side b (w, true) far)⟩ :: path)
      (height + 1) := by
  obtain ⟨nearBalanced, farBalanced⟩ := balanced_join_black.mp fits.sibling_balanced
  obtain ⟨_, bBlack, aBalanced, bBalanced⟩ := balanced_join_red.mp nearBalanced
  have sibling : RbBalanced (join side a (u, false) (join side b (w, true) far)) (height + 1) :=
    balanced_join_black.mpr
      ⟨aBalanced, balanced_join_red.mpr ⟨bBlack, farBlack, bBalanced, farBalanced⟩⟩
  cases red with
  | true =>
    obtain ⟨_, _, above, rest⟩ := fits
    exact ⟨rootRed_join false, sibling, above, rest⟩
  | false => exact ⟨sibling, fits.2⟩

theorem Fits.farRed
    (fits : Fits (⟨side, (p, red), join side near (w, false) (join other a (u, true) b)⟩ :: path)
      (height + 1))
    (balanced : RbBalanced x height) :
    RedBlack (plug (join side (join side x (p, false) near) (w, red) (join other a (u, false) b))
      path) := by
  obtain ⟨nearBalanced, farBalanced⟩ := balanced_join_black.mp fits.sibling_balanced
  obtain ⟨_, _, aBalanced, bBalanced⟩ := balanced_join_red.mp farBalanced
  have inner : RbBalanced (join side x (p, false) near) (height + 1) :=
    balanced_join_black.mpr ⟨balanced, nearBalanced⟩
  have outer : RbBalanced (join other a (u, false) b) (height + 1) :=
    balanced_join_black.mpr ⟨aBalanced, bBalanced⟩
  rw [redBlack_plug_iff]
  cases red with
  | true =>
    obtain ⟨_, _, above, rest⟩ := fits
    refine ⟨height + 1, balanced_join_red.mpr ?_, rest, fun _ => above⟩
    exact ⟨rootRed_join false, rootRed_join false, inner, outer⟩
  | false =>
    refine ⟨height + 2, balanced_join_black.mpr ⟨inner, outer⟩, fits.2, ?_⟩
    simp

end Colours

end Library
