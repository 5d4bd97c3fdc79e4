import Mathlib.Algebra.Order.Group.Multiset
import Mathlib.Data.Multiset.UnionInter
import MulleCore.Library.Rotations
import MulleCore.Rbtree.Rbtree

/-!
The tree that the links in memory represent, seen from the root or from a node inside.
-/

namespace MulleCore

open Library

structure RbItem (Payload : Type) where
  node : Nat
  payload : Payload
  dirty : Bool

abbrev RbShape (Payload : Type) := BinaryTree (RbItem Payload × Bool)

abbrev RbPath (Payload : Type) := Path (RbItem Payload × Bool)

section RbtreeLinked

variable {Payload : Type}
variable {shape : RbShape Payload}

def RbItem.touch (useDirty : Bool) (item : RbItem Payload) : RbItem Payload :=
  { item with dirty := item.dirty || useDirty }

abbrev touchItem (useDirty : Bool) : RbItem Payload × Bool → RbItem Payload × Bool :=
  Prod.map (RbItem.touch useDirty) id

@[simp] theorem touch_node (useDirty : Bool) (item : RbItem Payload) :
    (item.touch useDirty).node = item.node := rfl

@[simp] theorem touch_payload (useDirty : Bool) (item : RbItem Payload) :
    (item.touch useDirty).payload = item.payload := rfl

@[simp] theorem touch_dirty (useDirty : Bool) (item : RbItem Payload) :
    (item.touch useDirty).dirty = (item.dirty || useDirty) := rfl

@[simp] theorem touch_false (item : RbItem Payload) : item.touch false = item := by
  simp [RbItem.touch]

def rootNode : RbShape Payload → Nat
  | .nil => nilNode
  | .node (item, _) _ _ => item.node

def topNode : RbPath Payload → Nat
  | [] => nilNode
  | frame :: _ => frame.item.1.node

def names (shape : RbShape Payload) : Multiset Nat := (inorder shape).map fun item => item.1.node

def pathNames (path : RbPath Payload) : Multiset Nat :=
  (before path ++ after path).map fun item => item.1.node

@[simp] theorem rootNode_nil : rootNode (.nil : RbShape Payload) = nilNode := rfl

@[simp] theorem topNode_nil : topNode ([] : RbPath Payload) = nilNode := rfl

@[simp] theorem topNode_cons (frame : Frame (RbItem Payload × Bool)) (path : RbPath Payload) :
    topNode (frame :: path) = frame.item.1.node := rfl

@[simp] theorem rootNode_join (side : Side) (near far : RbShape Payload)
    (item : RbItem Payload × Bool) : rootNode (join side near item far) = item.1.node := by
  cases side <;> rfl

@[simp] theorem names_nil : names (.nil : RbShape Payload) = 0 := rfl

@[simp] theorem names_join (side : Side) (near far : RbShape Payload)
    (item : RbItem Payload × Bool) :
    names (join side near item far) = item.1.node ::ₘ (names near + names far) := by
  cases side with
  | left => simp [names, join, inorder, ← Multiset.coe_add, ← Multiset.cons_coe]
  | right =>
    simp [names, join, inorder, ← Multiset.coe_add, ← Multiset.cons_coe, add_comm]

@[simp] theorem pathNames_nil : pathNames ([] : RbPath Payload) = 0 := rfl

@[simp] theorem pathNames_cons (frame : Frame (RbItem Payload × Bool)) (path : RbPath Payload) :
    pathNames (frame :: path) =
      frame.item.1.node ::ₘ (names frame.sibling + pathNames path) := by
  obtain ⟨side, item, sibling⟩ := frame
  cases side with
  | left =>
    simp [names, pathNames, before, after, ← Multiset.coe_add, ← Multiset.cons_coe,
      add_left_comm]
  | right =>
    simp [names, pathNames, before, after, ← Multiset.coe_add, ← Multiset.cons_coe,
      add_left_comm, add_comm, add_assoc]

@[simp] theorem names_plug (path : RbPath Payload) (shape : RbShape Payload) :
    names (plug shape path) = names shape + pathNames path := by
  simp [names, pathNames, inorder_plug, ← Multiset.coe_add, add_left_comm]

@[simp] theorem topNode_touchPath (useDirty : Bool) (path : RbPath Payload) :
    topNode (touchPath (touchItem useDirty) path) = topNode path := by
  cases path <;> rfl

@[simp] theorem pathNames_touchPath (useDirty : Bool) (path : RbPath Payload) :
    pathNames (touchPath (touchItem useDirty) path) = pathNames path := by
  induction path with
  | nil => rfl
  | cons frame path ih => simp [ih]

theorem rootNode_mem (nonempty : shape ≠ .nil) :
    rootNode shape ∈ names shape := by
  cases shape with
  | nil => exact absurd rfl nonempty
  | node item left right => simp [names, inorder, rootNode]

theorem topNode_mem {path : RbPath Payload} (nonempty : path ≠ []) :
    topNode path ∈ pathNames path := by
  cases path with
  | nil => exact absurd rfl nonempty
  | cons frame path => simp

theorem names_eq_of_inorder {next : RbShape Payload}
    (same : (inorder (plain next)).map RbItem.node = (inorder (plain shape)).map RbItem.node) :
    names next = names shape := by
  simp only [inorder_plain, List.map_map] at same
  simp only [names]
  exact congrArg _ same

section Links

variable (tree : Rbtree Payload)
variable {item : RbItem Payload} {red : Bool} {above : Nat} {next : Rbtree Payload}
  {shape : RbShape Payload}

def HoldsItem (item : RbItem Payload) (red : Bool) : Prop :=
  tree.payload item.node = item.payload ∧ tree.dirty item.node = item.dirty ∧
    tree.red item.node = red

def RbLinked : Nat → RbShape Payload → Prop
  | _, .nil => True
  | above, .node (item, red) left right =>
    HoldsItem tree item red ∧ tree.parent item.node = above ∧
      tree.child .left item.node = rootNode left ∧ tree.child .right item.node = rootNode right ∧
      RbLinked item.node left ∧ RbLinked item.node right

def Hangs : RbPath Payload → Nat → Prop
  | [], focus => tree.root = focus
  | ⟨side, (item, red), sibling⟩ :: path, focus =>
    HoldsItem tree item red ∧ tree.parent item.node = topNode path ∧
      tree.child side item.node = focus ∧ tree.child side.flip item.node = rootNode sibling ∧
      RbLinked tree item.node sibling ∧ Hangs path item.node

variable {tree}

theorem rbLinked_join {side : Side} {near far : RbShape Payload}
    : RbLinked tree above (join side near (item, red) far) ↔
      HoldsItem tree item red ∧ tree.parent item.node = above ∧
        tree.child side item.node = rootNode near ∧ tree.child side.flip item.node = rootNode far ∧
        RbLinked tree item.node near ∧ RbLinked tree item.node far := by
  cases side with
  | left => rfl
  | right =>
    simp only [join, RbLinked, Side.flip]
    constructor
    · rintro ⟨holds, parent, left, right, inLeft, inRight⟩
      exact ⟨holds, parent, right, left, inRight, inLeft⟩
    · rintro ⟨holds, parent, right, left, inRight, inLeft⟩
      exact ⟨holds, parent, left, right, inLeft, inRight⟩

theorem rbLinked_plug : ∀ (path : RbPath Payload) (shape : RbShape Payload),
    (tree.root = rootNode (plug shape path) ∧ RbLinked tree nilNode (plug shape path)) ↔
      Hangs tree path (rootNode shape) ∧ RbLinked tree (topNode path) shape := by
  intro path
  induction path with
  | nil => exact fun _ => Iff.rfl
  | cons frame path ih =>
    intro shape
    obtain ⟨side, ⟨item, red⟩, sibling⟩ := frame
    rw [plug, ih, rbLinked_join, rootNode_join]
    simp only [Hangs, topNode_cons]
    constructor
    · rintro ⟨hangs, holds, parent, near, far, inNear, inFar⟩
      exact ⟨⟨holds, parent, near, far, inFar, hangs⟩, inNear⟩
    · rintro ⟨⟨holds, parent, near, far, inFar, hangs⟩, inNear⟩
      exact ⟨hangs, holds, parent, near, far, inNear, inFar⟩

/-! Writes elsewhere. -/

def SameAt (tree next : Rbtree Payload) (node : Nat) : Prop :=
  next.payload node = tree.payload node ∧ next.dirty node = tree.dirty node ∧
    next.red node = tree.red node ∧ ∀ side, next.child side node = tree.child side node

theorem SameAt.holds (same : SameAt tree next item.node) (holds : HoldsItem tree item red) :
    HoldsItem next item red := by
  obtain ⟨payload, dirty, color, _⟩ := same
  simpa [HoldsItem, payload, dirty, color] using holds

theorem RbLinked.rehang : ∀ {shape : RbShape Payload} {above below : Nat},
    RbLinked tree above shape → (names shape).Nodup → (∀ n ∈ names shape, SameAt tree next n) →
    (∀ n ∈ names shape, n ≠ rootNode shape → next.parent n = tree.parent n) →
    (shape ≠ .nil → next.parent (rootNode shape) = below) → RbLinked next below shape := by
  intro shape
  induction shape with
  | nil => exact fun _ _ _ _ _ => trivial
  | node item left right leftIh rightIh =>
    intro above below linked distinct same parents root
    obtain ⟨item, red⟩ := item
    have apart : names (.node (item, red) left right) =
        item.node ::ₘ (names left + names right) := names_join .left left right (item, red)
    rw [apart] at distinct same parents
    simp only [Multiset.nodup_cons, Multiset.nodup_add, Multiset.mem_add, not_or,
      Multiset.mem_cons] at distinct same parents
    obtain ⟨⟨notLeft, notRight⟩, leftDistinct, rightDistinct, _⟩ := distinct
    obtain ⟨holds, _, leftChild, rightChild, inLeft, inRight⟩ := linked
    obtain ⟨_, _, _, children⟩ := same item.node (.inl rfl)
    have kept : ∀ n, n ∈ names left ∨ n ∈ names right → next.parent n = tree.parent n := by
      intro n below
      refine parents n (.inr below) ?_
      rintro rfl
      exact below.elim notLeft notRight
    refine ⟨(same _ (.inl rfl)).holds holds, root (by simp), ?_, ?_, ?_, ?_⟩
    · rw [children, leftChild]
    · rw [children, rightChild]
    · refine leftIh inLeft leftDistinct (fun n inside => same n (.inr (.inl inside)))
        (fun n inside _ => kept n (.inl inside)) fun nonempty => ?_
      rw [kept _ (.inl (rootNode_mem nonempty))]
      cases left with
      | nil => exact absurd rfl nonempty
      | node item left right => exact inLeft.2.1
    · refine rightIh inRight rightDistinct (fun n inside => same n (.inr (.inr inside)))
        (fun n inside _ => kept n (.inr inside)) fun nonempty => ?_
      rw [kept _ (.inr (rootNode_mem nonempty))]
      cases right with
      | nil => exact absurd rfl nonempty
      | node item left right => exact inRight.2.1

theorem RbLinked.parent (linked : RbLinked tree above shape)
    (nonempty : shape ≠ .nil) : tree.parent (rootNode shape) = above := by
  cases shape with
  | nil => exact absurd rfl nonempty
  | node item left right => exact linked.2.1

theorem RbLinked.elsewhere
    (linked : RbLinked tree above shape) (distinct : (names shape).Nodup)
    (same : ∀ n ∈ names shape, SameAt tree next n ∧ next.parent n = tree.parent n) :
    RbLinked next above shape :=
  linked.rehang distinct (fun n inside => (same n inside).1) (fun n inside _ => (same n inside).2)
    fun nonempty => ((same _ (rootNode_mem nonempty)).2).trans (linked.parent nonempty)

theorem Hangs.elsewhere : ∀ {path : RbPath Payload} {focus : Nat},
    Hangs tree path focus → (pathNames path).Nodup → next.root = tree.root →
    (∀ n ∈ pathNames path, SameAt tree next n ∧ next.parent n = tree.parent n) →
    Hangs next path focus := by
  intro path
  induction path with
  | nil =>
    intro focus hangs _ root _
    exact root.trans hangs
  | cons frame path ih =>
    intro focus hangs distinct root same
    obtain ⟨side, ⟨item, red⟩, sibling⟩ := frame
    simp only [pathNames_cons, Multiset.nodup_cons, Multiset.nodup_add, Multiset.mem_cons,
      Multiset.mem_add] at distinct same
    obtain ⟨_, siblingDistinct, pathDistinct, _⟩ := distinct
    obtain ⟨holds, parent, near, far, inFar, above⟩ := hangs
    obtain ⟨here, parentSame⟩ := same item.node (.inl rfl)
    refine ⟨here.holds holds, parentSame.trans parent, ?_, ?_, ?_, ?_⟩
    · exact (here.2.2.2 side).trans near
    · exact (here.2.2.2 side.flip).trans far
    · exact inFar.elsewhere siblingDistinct fun n inside => same n (.inr (.inl inside))
    · exact ih above pathDistinct root fun n inside => same n (.inr (.inr inside))

end Links

end RbtreeLinked

/-!
A tree in memory and the shape it represents, and the writes that every operation is
made of: colors, the link from above, and the dirty bits up to the root.
-/

section RbtreeRepresents

variable {Payload : Type}
variable {n : Nat} {inside : Multiset Nat}

structure Proper (tree : Rbtree Payload) : Prop where
  distinct : tree.nodes.Nodup
  noNil : nilNode ∉ tree.nodes
  nilBlack : tree.red nilNode = false
  nilClean : tree.dirty nilNode = false
  nilUnmarked : tree.marked nilNode = false

structure Represents (tree : Rbtree Payload) (shape : RbShape Payload) : Prop
    extends Proper tree where
  root : tree.root = rootNode shape
  linked : RbLinked tree nilNode shape
  known : names shape ≤ (tree.nodes : Multiset Nat)

structure Confined (inside : Multiset Nat) (tree next : Rbtree Payload) : Prop where
  nodes : next.nodes = tree.nodes
  allowDuplicates : next.allowDuplicates = tree.allowDuplicates
  useDirty : next.useDirty = tree.useDirty
  useMarker : next.useMarker = tree.useMarker
  payload : next.payload = tree.payload
  nilUnmarked : next.marked nilNode = tree.marked nilNode
  outside : ∀ n, n ∉ inside → SameAt tree next n ∧ next.parent n = tree.parent n

structure Moves (tree next : Rbtree Payload) (before after : RbShape Payload) : Prop where
  represents : Represents next after
  rotated : Rotated (RbItem.touch tree.useDirty) (plain before) (plain after)
  confined : Confined (names before) tree next

variable {tree next last : Rbtree Payload} {shape changed final : RbShape Payload}
  {path : RbPath Payload}

section

variable (represents : Represents tree shape)
include represents

theorem Represents.nodup : (names shape).Nodup :=
  Multiset.nodup_of_le represents.known (Multiset.coe_nodup.mpr represents.distinct)

theorem Represents.ne_nil (inside : n ∈ names shape) :
    n ≠ nilNode := by
  rintro rfl
  exact represents.noNil (Multiset.mem_coe.mp (Multiset.mem_of_le represents.known inside))

theorem Represents.nil_notMem : nilNode ∉ names shape :=
  fun inside => represents.ne_nil inside rfl

theorem Represents.card_le :
    (names shape).card ≤ tree.nodes.length := by
  simpa using Multiset.card_le_card represents.known

theorem Represents.root_eq_nil_iff :
    tree.root = nilNode ↔ shape = .nil := by
  rw [represents.root]
  constructor
  · intro same
    by_contra nonempty
    exact represents.ne_nil (rootNode_mem nonempty) same
  · rintro rfl
    rfl

end

theorem length_le_card_pathNames (path : RbPath Payload) : path.length ≤ (pathNames path).card := by
  induction path with
  | nil => simp
  | cons frame path ih =>
    simp only [pathNames_cons, List.length_cons, Multiset.card_cons, Multiset.card_add]
    omega

section

variable (represents : Represents tree (plug shape path))
include represents

theorem Represents.length_lt :
    path.length < tree.steps := by
  have card := represents.card_le
  have length := length_le_card_pathNames path
  simp only [names_plug, Multiset.card_add] at card
  simp only [Rbtree.steps]
  omega

theorem Represents.hangs :
    Hangs tree path (rootNode shape) :=
  ((rbLinked_plug path shape).mp ⟨represents.root, represents.linked⟩).1

theorem Represents.focus :
    RbLinked tree (topNode path) shape :=
  ((rbLinked_plug path shape).mp ⟨represents.root, represents.linked⟩).2

end

theorem Confined.refl (inside : Multiset Nat) (tree : Rbtree Payload) : Confined inside tree tree :=
  ⟨rfl, rfl, rfl, rfl, rfl, rfl, fun _ _ => ⟨⟨rfl, rfl, rfl, fun _ => rfl⟩, rfl⟩⟩

theorem SameAt.trans (first : SameAt tree next n) (second : SameAt next last n) :
    SameAt tree last n :=
  ⟨second.1.trans first.1, second.2.1.trans first.2.1, second.2.2.1.trans first.2.2.1,
    fun side => (second.2.2.2 side).trans (first.2.2.2 side)⟩

theorem Confined.trans (first : Confined inside tree next)
    (second : Confined inside next last) : Confined inside tree last where
  nodes := second.nodes.trans first.nodes
  allowDuplicates := second.allowDuplicates.trans first.allowDuplicates
  useDirty := second.useDirty.trans first.useDirty
  useMarker := second.useMarker.trans first.useMarker
  payload := second.payload.trans first.payload
  nilUnmarked := second.nilUnmarked.trans first.nilUnmarked
  outside n outside :=
    ⟨(first.outside n outside).1.trans (second.outside n outside).1,
      ((second.outside n outside).2).trans (first.outside n outside).2⟩

theorem Confined.mono {wider : Multiset Nat} (confined : Confined inside tree next)
    (within : ∀ n ∈ inside, n ∈ wider) : Confined wider tree next :=
  { confined with outside := fun n outside => confined.outside n fun here => outside (within n here) }

theorem RbLinked.confined {above : Nat} (linked : RbLinked tree above shape)
    (distinct : (names shape).Nodup) (confined : Confined inside tree next)
    (apart : ∀ n ∈ names shape, n ∉ inside) : RbLinked next above shape :=
  linked.elsewhere distinct fun n here => confined.outside n (apart n here)

theorem Hangs.confined {focus : Nat} (hangs : Hangs tree path focus)
    (distinct : (pathNames path).Nodup) (confined : Confined inside tree next)
    (root : next.root = tree.root) (apart : ∀ n ∈ pathNames path, n ∉ inside) :
    Hangs next path focus :=
  hangs.elsewhere distinct root fun n here => confined.outside n (apart n here)

theorem Represents.relinked (represents : Represents tree shape) (changed : RbShape Payload)
    (path : RbPath Payload) (nodes : next.nodes = tree.nodes)
    (nilUnmarked : next.marked nilNode = tree.marked nilNode) (nilSame : SameAt tree next nilNode)
    (known : names (plug changed path) ≤ (tree.nodes : Multiset Nat))
    (hangs : Hangs next path (rootNode changed)) (focus : RbLinked next (topNode path) changed) :
    Represents next (plug changed path) := by
  obtain ⟨_, nilClean, nilBlack, _⟩ := nilSame
  obtain ⟨root, linked⟩ := (rbLinked_plug path changed).mpr ⟨hangs, focus⟩
  refine ⟨⟨?_, ?_, ?_, ?_, ?_⟩, root, linked, ?_⟩
  · rw [nodes]
    exact represents.distinct
  · rw [nodes]
    exact represents.noNil
  · exact nilBlack.trans represents.nilBlack
  · exact nilClean.trans represents.nilClean
  · exact nilUnmarked.trans represents.nilUnmarked
  · rw [nodes]
    exact known

theorem Represents.reshape (represents : Represents tree shape) (changed : RbShape Payload)
    (path : RbPath Payload) (confined : Confined (names shape) tree next)
    (same : names (plug changed path) = names shape)
    (hangs : Hangs next path (rootNode changed)) (focus : RbLinked next (topNode path) changed) :
    Represents next (plug changed path) :=
  represents.relinked changed path confined.nodes confined.nilUnmarked
    (confined.outside nilNode represents.nil_notMem).1 (same ▸ represents.known) hangs focus

theorem Moves.names_eq (moves : Moves tree next shape changed) : names changed = names shape :=
  names_eq_of_inorder (moves.rotated.inorder (touch_node tree.useDirty))

theorem Moves.refl (represents : Represents tree shape) : Moves tree tree shape shape :=
  ⟨represents, .refl _, .refl _ _⟩

theorem Moves.trans (first : Moves tree next shape changed) (second : Moves next last changed final) :
    Moves tree last shape final := by
  refine ⟨second.represents, ?_, ?_⟩
  · have rest := second.rotated
    rw [first.confined.useDirty] at rest
    exact first.rotated.trans rest
  · exact first.confined.trans (first.names_eq ▸ second.confined)

/-! Markers. -/

@[simp] theorem setNodeMarked_nil (n : Nat) :
    (rbtreeSetNodeMarked tree n).marked nilNode = tree.marked nilNode := by
  simp only [rbtreeSetNodeMarked]
  split_ifs with marks
  · exact Function.update_of_ne (Ne.symm marks.2) _ _
  · rfl

theorem Represents.setNodeMarked (represents : Represents tree shape) (n : Nat) :
    Moves tree (rbtreeSetNodeMarked tree n) shape shape := by
  have confined : Confined (names shape) tree (rbtreeSetNodeMarked tree n) :=
    ⟨rfl, rfl, rfl, rfl, rfl, setNodeMarked_nil n, fun _ _ => ⟨⟨rfl, rfl, rfl, fun _ => rfl⟩, rfl⟩⟩
  refine ⟨?_, .refl _, confined⟩
  have linked : RbLinked (rbtreeSetNodeMarked tree n) nilNode shape :=
    represents.linked.elsewhere represents.nodup fun _ _ => ⟨⟨rfl, rfl, rfl, fun _ => rfl⟩, rfl⟩
  exact represents.reshape shape [] confined rfl represents.root linked

/-! Colors. -/

theorem Represents.recolor {side : Side} {near far : RbShape Payload} {item : RbItem Payload}
    {old : Bool} (represents : Represents tree (plug (join side near (item, old) far) path))
    (red : Bool) :
    Moves tree (rbnodeSetColor tree item.node red) (plug (join side near (item, old) far) path)
      (plug (join side near (item, red) far) path) := by
  have same : ∀ n, n ≠ item.node → SameAt tree (rbnodeSetColor tree item.node red) n := by
    intro n other
    exact ⟨rfl, rfl, Function.update_of_ne other _ _, fun _ => rfl⟩
  have confined : Confined (names (plug (join side near (item, old) far) path)) tree
      (rbnodeSetColor tree item.node red) := by
    refine ⟨rfl, rfl, rfl, rfl, rfl, rfl, fun n outside => ⟨same n ?_, rfl⟩⟩
    rintro rfl
    simp at outside
  have distinct := represents.nodup
  simp only [names_plug, names_join, Multiset.nodup_add, Multiset.nodup_cons, Multiset.mem_add,
    not_or, Multiset.disjoint_left, Multiset.mem_cons] at distinct
  obtain ⟨⟨⟨notNear, notFar⟩, nearDistinct, farDistinct, _⟩, pathDistinct, apart⟩ := distinct
  obtain ⟨holds, parent, nearChild, farChild, inNear, inFar⟩ := rbLinked_join.mp represents.focus
  refine ⟨represents.reshape (join side near (item, red) far) path confined (by simp) ?_ ?_, ?_,
    confined⟩
  · rw [rootNode_join]
    have hangs := represents.hangs
    rw [rootNode_join] at hangs
    refine hangs.elsewhere pathDistinct rfl fun n inside => ⟨same n ?_, rfl⟩
    rintro rfl
    exact apart (.inl rfl) inside
  · refine rbLinked_join.mpr ⟨?_, parent, nearChild, farChild, ?_, ?_⟩
    · exact ⟨holds.1, holds.2.1, by simp [rbnodeSetColor]⟩
    · refine inNear.elsewhere nearDistinct fun n inside => ⟨same n ?_, rfl⟩
      rintro rfl
      exact notNear inside
    · refine inFar.elsewhere farDistinct fun n inside => ⟨same n ?_, rfl⟩
      rintro rfl
      exact notFar inside
  · simp only [plain_plug, plain_join]
    exact .refl _

theorem rbnodeSetColor_same {red : Bool} (same : tree.red n = red) :
    rbnodeSetColor tree n red = tree := by
  simp [rbnodeSetColor, ← same]

end RbtreeRepresents

end MulleCore
