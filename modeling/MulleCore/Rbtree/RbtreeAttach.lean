import MulleCore.Rbtree.RbtreeInsert

/-!
A loose node becomes a leaf, and the tree is balanced again.
-/

namespace MulleCore

open Library

section RbtreeAttach

variable {Payload : Type} {tree next : Rbtree Payload} {path rest : RbPath Payload}
  {shape : RbShape Payload} {n : Nat}
variable {side : Side} {item : RbItem Payload} {red : Bool} {direction : Int}

structure Loose (tree : Rbtree Payload) (n : Nat) : Prop where
  parent : tree.parent n = nilNode
  child : ∀ side, tree.child side n = nilNode
  red : tree.red n = true
  dirty : tree.dirty n = tree.useDirty

def looseItem (tree : Rbtree Payload) (n : Nat) : RbItem Payload :=
  ⟨n, tree.payload n, tree.dirty n⟩

def leaf (item : RbItem Payload) (red : Bool) : RbShape Payload := .node (item, red) .nil .nil

@[simp] theorem names_leaf (item : RbItem Payload) (red : Bool) :
    names (leaf item red) = {item.node} :=
  rfl

@[simp] theorem rootNode_leaf (item : RbItem Payload) (red : Bool) :
    rootNode (leaf item red) = item.node := rfl

theorem Represents.known_attach (represents : Represents tree (plug .nil path))
    (mem : n ∈ tree.nodes) (free : n ∉ names (plug .nil path)) (red : Bool) :
    names (plug (leaf (looseItem tree n) red) path) ≤ (tree.nodes : Multiset Nat) := by
  have distinct := represents.nodup
  simp only [names_plug, names_nil, zero_add] at distinct free
  rw [Multiset.le_iff_subset]
  · intro m inside
    simp only [names_plug, names_leaf, Multiset.mem_add, Multiset.mem_singleton] at inside
    rcases inside with rfl | inside
    · exact Multiset.mem_coe.mpr mem
    · refine Multiset.mem_of_le represents.known ?_
      simp [inside]
  · simp only [names_plug, names_leaf, Multiset.singleton_add, Multiset.nodup_cons]
    exact ⟨free, distinct⟩

theorem Represents.attachRoot (represents : Represents tree (plug .nil []))
    (mem : n ∈ tree.nodes) (loose : Loose tree n) :
    Represents (rbnodeSetColor { rbnodeSetParent tree n nilNode with root := n } n false)
        (plug (leaf (looseItem tree n) false) []) ∧
      Confined (names (plug (leaf (looseItem tree n) false) [])) tree
        (rbnodeSetColor { rbnodeSetParent tree n nilNode with root := n } n false) := by
  have proper : n ≠ nilNode := by
    rintro rfl
    exact represents.noNil mem
  refine ⟨⟨⟨represents.distinct, represents.noNil, ?_, represents.nilClean, represents.nilUnmarked⟩,
    rfl, ?_, represents.known_attach mem (by simp) false⟩, rfl, rfl, rfl, rfl, rfl, rfl, ?_⟩
  · exact (Function.update_of_ne proper.symm _ _).trans represents.nilBlack
  · exact ⟨⟨rfl, rfl, by simp [rbnodeSetColor, looseItem]⟩, by simp [rbnodeSetColor, looseItem],
      loose.child .left, loose.child .right, trivial, trivial⟩
  · intro m outside
    have other : m ≠ n := by simpa [plug, looseItem] using outside
    exact ⟨⟨rfl, rfl, Function.update_of_ne other _ _, fun _ => rfl⟩, Function.update_of_ne other _ _⟩

theorem Represents.attachLeaf {sibling : RbShape Payload}
    (represents : Represents tree (plug .nil (⟨side, (item, red), sibling⟩ :: rest)))
    (mem : n ∈ tree.nodes) (free : n ∉ names (plug .nil (⟨side, (item, red), sibling⟩ :: rest)))
    (loose : Loose tree n) :
    Represents (rbnodeSetChild (rbnodeSetParent tree n item.node) side item.node n)
        (plug (leaf (looseItem tree n) true) (⟨side, (item, red), sibling⟩ :: rest)) ∧
      Confined (names (plug (leaf (looseItem tree n) true) (⟨side, (item, red), sibling⟩ :: rest)))
        tree (rbnodeSetChild (rbnodeSetParent tree n item.node) side item.node n) := by
  have known := represents.known_attach mem free true
  have distinct := represents.nodup
  simp only [names_plug, names_nil, zero_add, pathNames_cons, Multiset.nodup_add, Multiset.nodup_cons,
    Multiset.mem_add, Multiset.mem_cons, not_or, Multiset.disjoint_left] at distinct free
  obtain ⟨⟨notSibling, notRest⟩, siblingDistinct, restDistinct, _⟩ := distinct
  obtain ⟨holds, parent, nearChild, farChild, inFar, above⟩ := represents.hangs
  have confined : Confined {n, item.node} tree
      (rbnodeSetChild (rbnodeSetParent tree n item.node) side item.node n) :=
    (setParent_confined _ (by simp)).trans (setChild_confined side n (by simp))
  have elsewhere : ∀ m, m ≠ n → m ≠ item.node → m ∉ ({n, item.node} : Multiset Nat) := by
    intro m
    simp_all
  have linked : Hangs (rbnodeSetChild (rbnodeSetParent tree n item.node) side item.node n)
      (⟨side, (item, red), sibling⟩ :: rest) n := by
    refine ⟨holds, ?_, by simp, ?_, ?_, ?_⟩
    · simp [Ne.symm free.1, parent]
    · simpa using farChild
    · refine inFar.confined siblingDistinct confined fun m inside => elsewhere m ?_ ?_
      · exact fun same => free.2.1 (same ▸ inside)
      · exact fun same => notSibling (same ▸ inside)
    · refine above.confined restDistinct confined rfl fun m inside => elsewhere m ?_ ?_
      · exact fun same => free.2.2 (same ▸ inside)
      · exact fun same => notRest (same ▸ inside)
  have nodeLinked : RbLinked (rbnodeSetChild (rbnodeSetParent tree n item.node) side item.node n)
      item.node (leaf (looseItem tree n) true) := by
    refine ⟨⟨rfl, rfl, loose.red⟩, by simp [looseItem], ?_, ?_, trivial, trivial⟩
    · exact (setChild_child_of_ne side .left n free.1).trans (loose.child .left)
    · exact (setChild_child_of_ne side .right n free.1).trans (loose.child .right)
  obtain ⟨root, whole⟩ := (rbLinked_plug (⟨side, (item, red), sibling⟩ :: rest)
    (leaf (looseItem tree n) true)).mpr ⟨linked, nodeLinked⟩
  refine ⟨⟨⟨represents.distinct, represents.noNil, represents.nilBlack, represents.nilClean,
    represents.nilUnmarked⟩, root, whole, known⟩, confined.mono ?_⟩
  simp [looseItem]

theorem exists_focus : ∀ {shape : RbShape Payload} {n : Nat}, n ∈ names shape →
    ∃ path item red left right, shape = plug (.node (item, red) left right) path ∧ item.node = n := by
  intro shape
  induction shape with
  | nil => simp
  | node item left right leftIh rightIh =>
    intro n inside
    rw [show names (.node item left right) = item.1.node ::ₘ (names left + names right) from
      names_join .left left right item] at inside
    simp only [Multiset.mem_cons, Multiset.mem_add] at inside
    rcases inside with here | below | below
    · exact ⟨[], item.1, item.2, left, right, rfl, here.symm⟩
    · obtain ⟨path, found, red, a, b, rfl, same⟩ := leftIh below
      refine ⟨path ++ [⟨.left, item, right⟩], found, red, a, b, ?_, same⟩
      rw [plug_append]
      rfl
    · obtain ⟨path, found, red, a, b, rfl, same⟩ := rightIh below
      refine ⟨path ++ [⟨.right, item, left⟩], found, red, a, b, ?_, same⟩
      rw [plug_append]
      rfl

structure Attached (tree : Rbtree Payload) (path : RbPath Payload) (n : Nat)
    (shape : RbShape Payload) : Prop where
  order : ∀ {Key : Type} (key : RbItem Payload → Key),
    (∀ item : RbItem Payload, key (item.touch tree.useDirty) = key item) →
    (inorder (plain shape)).map key = (before (plainPath path)).map key ++
      key (looseItem tree n) :: (after (plainPath path)).map key
  everywhere : ∀ P : RbItem Payload → BinaryTree (RbItem Payload) → BinaryTree (RbItem Payload) →
    Prop,
    tree.useDirty = true → (∀ (item : RbItem Payload) left right, P (item.touch true) left right) →
    Everywhere P (plain (plug .nil path)) → Everywhere P (plain shape)

theorem Represents.linkNode (represents : Represents tree (plug .nil path))
    (redBlack : RedBlack (plug .nil path)) (mem : n ∈ tree.nodes)
    (free : n ∉ names (plug .nil path)) (loose : Loose tree n)
    (towards : ∀ frame ∈ path.head?, frame.side = if direction < 0 then Side.left else .right) :
    ∃ first red moved shape,
      rbtreeLinkNode tree n (topNode path) direction = some moved ∧
      Confined (names (plug (leaf (looseItem tree n) red) path)) tree first ∧
      Moves first moved (plug (leaf (looseItem tree n) red) path) shape ∧ RedBlack shape := by
  cases path with
  | nil =>
    obtain ⟨first, confined⟩ := represents.attachRoot mem loose
    exact ⟨_, false, _, _, rfl, confined, .refl first, rfl, 1, 0, rfl, rfl, rfl⟩
  | cons frame rest =>
    obtain ⟨side, ⟨item, red⟩, sibling⟩ := frame
    have sideEq : (if direction < 0 then Side.left else .right) = side := (towards _ rfl).symm
    obtain ⟨first, confined⟩ := represents.attachLeaf mem free loose
    have proper := represents.top_proper
    have rootProper : tree.root ≠ nilNode := by
      rw [ne_eq, represents.root_eq_nil_iff]
      exact plug_ne_nil (join_ne_nil _ _ _ _) rest
    have empty : tree.child side item.node = nilNode := represents.top_child
    have color : tree.red item.node = red := represents.hangs.1.2.2
    have below : rbtreeAttachBelow (rbnodeSetParent tree n item.node) n item.node direction =
        if red = true then rbtreeRedRedFixup tree.steps
          (rbnodeSetChild (rbnodeSetParent tree n item.node) side item.node n) n
        else some (rbnodeSetChild (rbnodeSetParent tree n item.node) side item.node n) := by
      simp only [rbtreeAttachBelow, sideEq, setParent_child, empty]
      rw [if_neg (by simp [rootProper])]
      simp only [rbnodeSetChild, rbnodeSetParent, color]
      rfl
    simp only [rbtreeLinkNode, topNode_cons, if_neg proper, below]
    obtain ⟨height, empties, fits, _⟩ := (redBlack_plug_iff _ _).mp redBlack
    have balanced : RbBalanced (join .left .nil (looseItem tree n, true) .nil) height :=
      balanced_join_red.mpr ⟨rfl, rfl, empties, empties⟩
    cases red with
    | false =>
      refine ⟨_, true, _, _, rfl, confined, .refl first, ?_⟩
      exact (redBlack_plug_iff _ _).mpr ⟨height, balanced, fits, fun _ => rfl⟩
    | true =>
      obtain ⟨moved, shape, fixed, moves, fixedRedBlack⟩ :=
        Represents.redRedFixup tree.steps
          (show Represents _ (plug (join .left .nil (looseItem tree n, true) .nil) _) from first)
          balanced fits first.length_lt
      exact ⟨_, true, moved, shape, fixed, confined, moves, fixedRedBlack⟩

theorem order_of_rotated {moved : RbShape Payload} (rotated : Rotated (RbItem.touch tree.useDirty)
      (plain (plug (leaf (looseItem tree n) red) path)) (plain moved))
    {Key : Type} (key : RbItem Payload → Key)
    (kept : ∀ item : RbItem Payload, key (item.touch tree.useDirty) = key item) :
    (inorder (plain moved)).map key = (before (plainPath path)).map key ++
      key (looseItem tree n) :: (after (plainPath path)).map key := by
  rw [rotated.inorder kept, plain_plug, inorder_plug]
  simp [leaf, plain, BinaryTree.map, inorder]

theorem mem_names {shape : RbShape Payload} :
    n ∈ names shape ↔ ∃ item ∈ inorder (plain shape), item.node = n := by
  simp [names, inorder_plain]

theorem mem_pathNames : n ∈ pathNames path ↔
    ∃ item ∈ before (plainPath path) ++ after (plainPath path), item.node = n := by
  simp [pathNames, before_plainPath, after_plainPath]
  grind

theorem everywhere_of_rotated {near far : RbShape Payload} {leafRed : Bool} {way : RbPath Payload}
    {P : RbItem Payload → BinaryTree (RbItem Payload) → BinaryTree (RbItem Payload) → Prop}
    (rotated : Rotated (RbItem.touch true) (plain (plug (leaf (looseItem tree n) leafRed) path))
      (plain (plug (join side near (item, red) far) way)))
    (touched : ∀ (item : RbItem Payload) left right, P (item.touch true) left right)
    (dirty : tree.dirty n = true)
    (distinct : (names (plug (join side near (item, red) far) way)).Nodup) (isNode : item.node = n)
    (held : Everywhere P (plain (plug .nil path))) :
    Everywhere P (plain (plug (join side near (item.touch true, red) far)
      (touchPath (touchItem true) way))) := by
  rw [plain_plug] at held
  have isTouched : (looseItem tree n).touch true = looseItem tree n := by
    simp [RbItem.touch, looseItem, dirty]
  have leafHeld : P (looseItem tree n) .nil .nil := isTouched ▸ touched (looseItem tree n) .nil .nil
  have excused : Everywhere (Excused (fun other => other.node = n) P)
      (plain (plug (leaf (looseItem tree n) leafRed) path)) := by
    rw [plain_plug]
    refine held.excuse ⟨.inl leafHeld, trivial, trivial⟩ ⟨looseItem tree n, ?_, rfl⟩
    simp [leaf, plain, BinaryTree.map, inorder]
  have moved := rotated.everywhere (fun item left right => .inl (touched item left right)) excused
  simp only [names_plug, names_join, Multiset.nodup_add, Multiset.nodup_cons, Multiset.mem_add,
    Multiset.mem_cons, not_or, Multiset.disjoint_left, isNode] at distinct
  obtain ⟨⟨⟨notNear, notFar⟩, _⟩, _, apart⟩ := distinct
  simp only [plain_plug, plain_join, plainPath_touchPath] at moved ⊢
  obtain ⟨inNear, inFar⟩ := moved.of_plug.of_join
  refine moved.settle touched ?_ (.join (touched item) (inNear.unexcused ?_) (inFar.unexcused ?_))
  · exact fun other inside same => apart (.inl rfl) (mem_pathNames.mpr ⟨other, inside, same⟩)
  · exact fun other inside same => notNear (mem_names.mpr ⟨other, inside, same⟩)
  · exact fun other inside same => notFar (mem_names.mpr ⟨other, inside, same⟩)

theorem Represents.attachNode (represents : Represents tree (plug .nil path))
    (redBlack : RedBlack (plug .nil path)) (mem : n ∈ tree.nodes)
    (free : n ∉ names (plug .nil path)) (loose : Loose tree n)
    (towards : ∀ frame ∈ path.head?, frame.side = if direction < 0 then Side.left else .right) :
    ∃ next shape, rbtreeAttachNode tree n (topNode path) direction = some next ∧
      Represents next shape ∧ RedBlack shape ∧ Confined (n ::ₘ names (plug .nil path)) tree next ∧
      Attached tree path n shape := by
  obtain ⟨first, red, moved, shape, linked, confined, moves, fixed⟩ :=
    represents.linkNode redBlack mem free loose towards
  have proper : n ≠ nilNode := fun same => represents.noNil (same ▸ mem)
  have same : names (plug (leaf (looseItem tree n) red) path) = n ::ₘ names (plug .nil path) := by
    simp [looseItem]
  have inside : n ∈ names shape := by
    rw [moves.names_eq, same]
    simp
  have rootProper : moved.root ≠ nilNode := by
    rw [ne_eq, moves.represents.root_eq_nil_iff]
    rintro rfl
    simp at inside
  have whole := confined.trans moves.confined
  have uses := whole.useDirty
  have steps : rbtreeAttachNode tree n (topNode path) direction =
      if tree.useDirty then rbtreeMarkNodeAsDirty moved n else some moved := by
    simp only [rbtreeAttachNode]
    rw [if_neg (by simp [proper, loose.parent, loose.child, loose.red]), linked]
    simp [rootProper, uses]
  have rotated := moves.rotated
  rw [confined.useDirty] at rotated
  rw [same] at whole
  rw [steps]
  cases dirty : tree.useDirty with
  | false =>
    refine ⟨moved, shape, rfl, moves.represents, fixed, whole, ?_, ?_⟩
    · exact fun key kept => order_of_rotated rotated key kept
    · simp [dirty]
  | true =>
    rw [dirty] at uses rotated
    obtain ⟨way, item, itemRed, left, right, rfl, isNode⟩ := exists_focus inside
    have at_node : Represents moved (plug (join .left left (item, itemRed) right) way) :=
      moves.represents
    obtain ⟨next, marked, marks, markConfined⟩ := at_node.markNodeAsDirty uses
    rw [isNode] at marked
    refine ⟨next, _, marked, marks, fixed.touch _ rfl, ?_, ?_, ?_⟩
    · refine whole.trans (markConfined.mono fun m inside => ?_)
      rw [← same, ← moves.names_eq]
      exact inside
    · intro Key key kept
      rw [dirty] at kept
      rw [← order_of_rotated (dirty.symm ▸ rotated) key (dirty.symm ▸ kept)]
      have touches := inorder_plug_touch kept (plainPath way)
        (plain (join .left left (item, itemRed) right))
      rw [plain_join, touchRoot_join, ← plain_join .left left right (item, itemRed),
        ← plain_plug] at touches
      rw [plain_plug, plain_join, plainPath_touchPath]
      exact touches
    · intro P _ touched held
      refine everywhere_of_rotated rotated touched (loose.dirty.trans dirty) ?_ isNode held
      exact at_node.nodup

end RbtreeAttach

end MulleCore
