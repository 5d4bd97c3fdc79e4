import MulleCore.Rbtree.RbtreeRemove

/-!
`_mulle__rbtree_remove_node` as a whole.
-/

namespace MulleCore

open Library

section RbtreeRemoveNode

variable {Payload : Type} {tree next : Rbtree Payload} {path way : RbPath Payload}
  {shape x l : RbShape Payload} {side : Side} {item y : RbItem Payload} {red yRed : Bool} {n : Nat}
  {inside : Multiset Nat} {garbage : Rbnode Payload}

structure Unlinked (inside : Multiset Nat) (tree next : Rbtree Payload) (n : Nat) : Prop where
  nodes : next.nodes = tree.nodes.erase n
  allowDuplicates : next.allowDuplicates = tree.allowDuplicates
  useDirty : next.useDirty = tree.useDirty
  useMarker : next.useMarker = tree.useMarker
  payload : ∀ m, m ≠ n → next.payload m = tree.payload m
  outside : ∀ m, m ∉ inside → m ≠ nilNode → SameAt tree next m ∧ next.parent m = tree.parent m

theorem rbtreeFreeNode_sameAt (tree : Rbtree Payload) (garbage : Rbnode Payload) {m : Nat}
    (other : m ≠ n) :
    SameAt tree (rbtreeFreeNode tree n garbage) m ∧
      (rbtreeFreeNode tree n garbage).parent m = tree.parent m := by
  refine ⟨⟨?_, ?_, ?_, fun side => ?_⟩, ?_⟩
  · exact Function.update_of_ne other _ _
  · exact Function.update_of_ne other _ _
  · exact Function.update_of_ne other _ _
  · exact if_neg other
  · exact Function.update_of_ne other _ _

theorem Represents.freeNode (represents : Represents tree shape) (free : n ∉ names shape)
    (proper : n ≠ nilNode) : Represents (rbtreeFreeNode tree n garbage) shape := by
  obtain ⟨⟨_, clean, black, _⟩, _⟩ :=
    rbtreeFreeNode_sameAt tree garbage (Ne.symm proper)
  refine ⟨⟨represents.distinct.erase n, fun inside => ?_, ?_, ?_, ?_⟩, represents.root, ?_, ?_⟩
  · exact represents.noNil (List.mem_of_mem_erase inside)
  · exact black.trans represents.nilBlack
  · exact clean.trans represents.nilClean
  · exact (Function.update_of_ne (Ne.symm proper) _ _).trans represents.nilUnmarked
  · refine represents.linked.elsewhere represents.nodup fun m inside =>
      rbtreeFreeNode_sameAt tree garbage ?_
    rintro rfl
    exact free inside
  · have known := Multiset.erase_le_erase n represents.known
    rwa [Multiset.erase_of_notMem free, Multiset.coe_erase] at known

theorem Confined.unlinked (confined : Confined (nilNode ::ₘ n ::ₘ inside) tree next) :
    Unlinked (n ::ₘ inside) tree (rbtreeFreeNode next n garbage) n := by
  refine ⟨congrArg (·.erase n) confined.nodes, confined.allowDuplicates, confined.useDirty,
    confined.useMarker, fun m other => ?_, fun m outside notNil => ?_⟩
  · exact (rbtreeFreeNode_sameAt next garbage other).1.1.trans (congrFun confined.payload m)
  · have other : m ≠ n := fun same => outside (same ▸ Multiset.mem_cons_self n inside)
    obtain ⟨same, parent⟩ := confined.outside m (by simp_all)
    obtain ⟨freed, freedParent⟩ :=
      rbtreeFreeNode_sameAt next garbage other
    exact ⟨same.trans freed, freedParent.trans parent⟩

theorem Represents.mem_nodes (represents : Represents tree shape) (inside : n ∈ names shape) :
    n ∈ tree.nodes :=
  Multiset.mem_coe.mp (Multiset.mem_of_le represents.known inside)

theorem Represents.unlinkSelf
    (represents : Represents tree (plug (join side x (item, red) .nil) path))
    (garbage : Rbnode Payload) :
    ∃ next, rbtreeUnlink tree item.node item.node garbage = some (next, rootNode x) ∧
      Represents next (plug (touchRoot (touchItem tree.useDirty) x)
        (touchPath (touchItem tree.useDirty) path)) ∧
      next.parent (rootNode x) = topNode path ∧
      Unlinked (names (plug (join side x (item, red) .nil) path)) tree next item.node := by
  have proper : item.node ≠ nilNode := represents.ne_nil (by simp)
  have nodup := represents.nodup
  have apart : names (plug (join side x (item, red) .nil) path) =
      item.node ::ₘ names (plug x path) := by
    simp
  rw [apart, Multiset.nodup_cons] at nodup
  obtain ⟨free, _⟩ := nodup
  obtain ⟨cut, cutParent, cutConfined, _⟩ := represents.cutOut
  have itemParent : (rbtreeCutOut tree (rootNode x) item.node).parent item.node = topNode path := by
    refine (cutConfined.outside item.node ?_).2.trans ?_
    · simpa [proper] using free
    · simpa using represents.top (join_ne_nil _ _ _ _)
  obtain ⟨dirtied, marked, marks, markConfined⟩ := cut.removeDirty_self itemParent
  rw [cutConfined.useDirty] at marks
  have whole : Confined (nilNode ::ₘ names (plug x path)) tree dirtied :=
    cutConfined.trans (markConfined.mono fun m => Multiset.mem_cons_of_mem)
  refine ⟨rbtreeFreeNode dirtied item.node garbage, ?_, marks.freeNode (by simpa using free) proper,
    ?_, ?_⟩
  · have choice : (if tree.child .left item.node ≠ nilNode then tree.child .left item.node
        else tree.child .right item.node) = rootNode x := by
      obtain ⟨_, _, near, far, _, _⟩ := rbLinked_join.mp represents.focus
      cases side with
      | left =>
        rw [near, show tree.child .right item.node = nilNode from far]
        split_ifs with isNil
        · rfl
        · exact (not_not.mp isNil).symm
      | right => simp [near, show tree.child .left item.node = nilNode from far]
    simp only [rbtreeUnlink, choice, if_true, ne_eq, not_true_eq_false, decide_false,
      rbtreeTakeOverIf, Bool.false_eq_true, if_false, Option.bind_eq_bind, Option.bind_some, marked]
  · have rootFree : rootNode x ≠ item.node := by
      intro same
      cases x with
      | nil => exact proper same.symm
      | node other left right =>
        refine free (same ▸ ?_)
        simp [rootNode_mem]
    rw [(rbtreeFreeNode_sameAt dirtied garbage rootFree).2]
    cases x with
    | nil => exact (markConfined.outside nilNode cut.nil_notMem).2.trans cutParent
    | node other left right =>
      have top := marks.top (by simp [touchRoot])
      rwa [topNode_touchPath, rootNode_touchRoot] at top
  · rw [apart]
    refine Confined.unlinked (whole.mono fun m below => ?_)
    simp only [Multiset.mem_cons] at below ⊢
    exact below.imp id .inr

theorem rootNode_plug (x other : RbShape Payload) : ∀ {way : RbPath Payload}, way ≠ [] →
    rootNode (plug x way) = rootNode (plug other way) := by
  intro way
  induction way generalizing x other with
  | nil => exact fun absent => absurd rfl absent
  | cons frame way ih =>
    intro _
    cases way with
    | nil => simp [plug]
    | cons frame' way => exact ih _ _ (by simp)

def bystanders (l x : RbShape Payload) (way path : RbPath Payload) : Multiset Nat :=
  names l + names x + pathNames way + pathNames path

theorem names_around (l x : RbShape Payload) (way path : RbPath Payload) (item : RbItem Payload)
    (red : Bool) : names (plug (join .left l (item, red) (plug x way)) path) =
      item.node ::ₘ bystanders l x way path := by
  simp [bystanders, add_assoc]

theorem names_above (l x : RbShape Payload) (way path : RbPath Payload) (item y : RbItem Payload)
    (red yRed : Bool) :
    names (plug (join .left l (item, red) (plug (join .right x (y, yRed) .nil) way)) path) =
      item.node ::ₘ y.node ::ₘ bystanders l x way path := by
  simp [bystanders, add_assoc]

section

variable (represents : Represents tree
  (plug (join .left l (item, red) (plug (join .right x (y, yRed) .nil) way)) path))
include represents

theorem Represents.cutSuccessor
    :
    ∃ next, rbtreeCutOut (rbtreeSetNodeMarked tree y.node) (rootNode x) y.node = next ∧
      Represents next (plug (join .left l (item, red) (plug x way)) path) ∧
      Confined (nilNode ::ₘ item.node ::ₘ bystanders l x way path) tree next ∧
      next.parent (rootNode x) = topNode (way ++ ⟨.right, (item, red), l⟩ :: path) ∧
      next.child .right y.node = rootNode x ∧ looseItem next y.node = y := by
  have yProper : y.node ≠ nilNode := represents.ne_nil (by simp)
  have nodup := represents.nodup
  rw [names_above, Multiset.nodup_cons, Multiset.nodup_cons, Multiset.mem_cons, not_or] at nodup
  obtain ⟨⟨itemNotY, _⟩, yFree, _⟩ := nodup
  have atSuccessor : Represents tree
      (plug (join .right x (y, yRed) .nil) (way ++ ⟨.right, (item, red), l⟩ :: path)) := by
    rw [← plug_successor]
    exact represents
  obtain ⟨yHolds, _, yNear, _, _, _⟩ := rbLinked_join.mp atSuccessor.focus
  obtain ⟨cut, parent, confined, _⟩ :=
    (atSuccessor.setNodeMarked y.node).represents.cutOut
  rw [← plug_successor, names_around] at confined
  rw [← plug_successor] at cut
  have whole : Confined (nilNode ::ₘ item.node ::ₘ bystanders l x way path) tree
      (rbtreeCutOut (rbtreeSetNodeMarked tree y.node) (rootNode x) y.node) :=
    (setNodeMarked_confined _ _).trans confined
  have outside : y.node ∉ nilNode ::ₘ item.node ::ₘ bystanders l x way path := by
    simp [yProper, Ne.symm itemNotY, yFree]
  obtain ⟨yPayload, yDirty, _, yChild⟩ := (whole.outside y.node outside).1
  refine ⟨_, rfl, cut, whole, parent, (yChild .right).trans yNear, ?_⟩
  simp [looseItem, yPayload, yDirty, yHolds.1, yHolds.2.1]

theorem successor_places {cutTree : Rbtree Payload}
    (child : cutTree.child .right y.node = rootNode x) :
    (y.node ≠ tree.child .right item.node ∧ tree.child .right item.node = rootNode (plug x way)) ∨
      (y.node = tree.child .right item.node ∧
        cutTree.child .right y.node = rootNode (plug x way) ∧
        rootNode x = rootNode (plug x way)) := by
  obtain ⟨_, _, _, rightChild, _, _⟩ := rbLinked_join.mp represents.focus
  rw [show tree.child .right item.node = _ from rightChild, child]
  cases way with
  | nil => exact .inr ⟨by simp [plug], rfl, rfl⟩
  | cons frame way =>
    have same := rootNode_plug (join .right x (y, yRed) .nil) x (show frame :: way ≠ [] by simp)
    have nodup := represents.nodup
    rw [names_above, Multiset.nodup_cons, Multiset.nodup_cons] at nodup
    have free := nodup.2.1
    refine .inl ⟨?_, same⟩
    rw [same]
    intro here
    refine free (here ▸ ?_)
    have inside : rootNode (plug x (frame :: way)) ∈ names (plug x (frame :: way)) :=
      rootNode_mem (plug_ne_nil (join_ne_nil _ _ _ _) _)
    rw [names_plug, Multiset.mem_add] at inside
    simp only [bystanders, Multiset.mem_add]
    exact .inl (inside.elim (.inl ∘ .inr) .inr)

theorem Represents.takeSuccessor (nonempty : l ≠ .nil) :
    ∃ next, rbtreeTakeOverIf (rbtreeCutOut (rbtreeSetNodeMarked tree y.node) (rootNode x) y.node)
        true item.node (rootNode x) y.node (tree.child .left item.node)
        (tree.child .right item.node) = some next ∧
      Represents next (plug (join .left l (y, red) (plug x way)) path) ∧
      Confined (nilNode ::ₘ item.node ::ₘ y.node ::ₘ bystanders l x way path) tree next ∧
      next.parent item.node = topNode path ∧
      (x = .nil → next.parent nilNode = topNode (way ++ ⟨.right, (y, red), l⟩ :: path)) := by
  have yMem : y.node ∈ tree.nodes := represents.mem_nodes (by simp)
  have nodup := represents.nodup
  rw [names_above, Multiset.nodup_cons, Multiset.nodup_cons, Multiset.mem_cons, not_or] at nodup
  obtain ⟨⟨itemNotY, itemFree⟩, yFree, _⟩ := nodup
  obtain ⟨_, _, leftChild, _, _, _⟩ := rbLinked_join.mp represents.focus
  obtain ⟨cutTree, cutEq, cut, confined, parent, child, loose⟩ := represents.cutSuccessor
  rw [cutEq, leftChild]
  have free : y.node ∉ names (plug (join .left l (item, red) (plug x way)) path) := by
    rw [names_around, Multiset.mem_cons, not_or]
    exact ⟨Ne.symm itemNotY, yFree⟩
  obtain ⟨next, took, takes, takeConfined, _, itemParent, nilBelow, nilAbove⟩ :=
    cut.takeOver nonempty (confined.nodes.symm ▸ yMem) free (successor_places represents child)
  rw [loose] at takes
  rw [names_around] at takeConfined
  refine ⟨next, took, takes, ?_, itemParent, ?_⟩
  · refine (confined.mono fun m inside => ?_).trans (takeConfined.mono fun m inside => ?_)
    · simp only [Multiset.mem_cons] at inside ⊢
      exact inside.imp id (.imp id .inr)
    · rwa [Multiset.cons_swap item.node]
  · rintro rfl
    cases way with
    | nil => exact nilBelow rfl
    | cons frame way =>
      rw [nilAbove (plug_ne_nil (join_ne_nil _ _ _ _) _), ← rootNode_nil, parent]
      rfl

theorem Represents.unlinkSuccessor (nonempty : l ≠ .nil) (garbage : Rbnode Payload) :
    ∃ next, rbtreeUnlink tree item.node y.node garbage = some (next, rootNode x) ∧
      Represents next (plug (touchRoot (touchItem tree.useDirty) x)
        (touchPath (touchItem tree.useDirty) (way ++ ⟨.right, (y, red), l⟩ :: path))) ∧
      next.parent (rootNode x) = topNode (way ++ ⟨.right, (y, red), l⟩ :: path) ∧
      Unlinked (names (plug (join .left l (item, red) (plug (join .right x (y, yRed) .nil) way))
        path)) tree next item.node := by
  have proper : item.node ≠ nilNode := represents.ne_nil (by simp)
  have itemMem : item.node ∈ tree.nodes := represents.mem_nodes (by simp)
  have nodup := represents.nodup
  rw [names_above, Multiset.nodup_cons, Multiset.mem_cons, not_or] at nodup
  obtain ⟨⟨itemNotY, itemFree⟩, _⟩ := nodup
  obtain ⟨taken, took, takes, confined, itemParent, nilParent⟩ := represents.takeSuccessor nonempty
  rw [plug_successor] at represents
  obtain ⟨_, yParent, yNear, yFar, _, _⟩ := rbLinked_join.mp represents.focus
  have free : item.node ∉ names (plug (join .left l (y, red) (plug x way)) path) := by
    rw [names_around, Multiset.mem_cons, not_or]
    exact ⟨itemNotY, itemFree⟩
  have above : (way = [] ∧ tree.parent y.node = item.node) ∨
      (way ≠ [] ∧ tree.parent y.node = topNode way) := by
    rw [yParent]
    cases way <;> simp
  obtain ⟨dirtied, marked, marks, markConfined⟩ := takes.removeDirty_successor
    (confined.nodes.symm ▸ itemMem) free itemParent (Ne.symm itemNotY) above
  rw [confined.useDirty] at marks
  rw [names_around] at markConfined
  have whole : Confined (nilNode ::ₘ item.node ::ₘ y.node ::ₘ bystanders l x way path) tree dirtied :=
    confined.trans (markConfined.mono fun m => Multiset.mem_cons_of_mem)
  have freeMarked : item.node ∉ names (plug (touchRoot (touchItem tree.useDirty) x)
      (touchPath (touchItem tree.useDirty) (way ++ ⟨.right, (y, red), l⟩ :: path))) := by
    rw [plug_successor, names_plug] at free
    rwa [names_plug, names_touchRoot, pathNames_touchPath]
  refine ⟨rbtreeFreeNode dirtied item.node garbage, ?_, marks.freeNode freeMarked proper, ?_, ?_⟩
  · have choice : (if tree.child .left y.node ≠ nilNode then tree.child .left y.node
        else tree.child .right y.node) = rootNode x := by
      simp [yNear, show tree.child .left y.node = nilNode from yFar]
    simp only [rbtreeUnlink, choice, if_neg (Ne.symm itemNotY)]
    simp only [ne_eq, Ne.symm itemNotY, not_false_eq_true, decide_true, took, Option.bind_eq_bind,
      Option.bind_some, marked]
  · have rootFree : rootNode x ≠ item.node := by
      intro same
      cases x with
      | nil => exact proper same.symm
      | node other left right =>
        refine itemFree (same ▸ ?_)
        simp [bystanders, rootNode_mem]
    rw [(rbtreeFreeNode_sameAt dirtied garbage rootFree).2]
    cases x with
    | nil =>
      rw [rootNode_nil, (markConfined.outside nilNode ?_).2, nilParent rfl]
      rw [← names_around _ _ _ _ y red, Multiset.mem_cons, not_or]
      exact ⟨Ne.symm proper, takes.nil_notMem⟩
    | node other left right =>
      have top := marks.top (by simp [touchRoot])
      rwa [topNode_touchPath, rootNode_touchRoot] at top
  · rw [names_above]
    exact whole.unlinked

end

structure Removed (useDirty : Bool) (n : Nat) (shape next : BinaryTree (RbItem Payload)) : Prop where
  order : ∃ earlier item later, inorder shape = earlier ++ item :: later ∧ item.node = n ∧
    ∀ {Key : Type} (key : RbItem Payload → Key),
      (∀ item : RbItem Payload, key (item.touch useDirty) = key item) →
      (inorder next).map key = (earlier ++ later).map key
  everywhere : ∀ P : RbItem Payload → BinaryTree (RbItem Payload) → BinaryTree (RbItem Payload) →
    Prop,
    useDirty = true → (∀ (item : RbItem Payload) left right, P (item.touch true) left right) →
    Everywhere P shape → Everywhere P next

theorem removed_self (useDirty : Bool) (side : Side) (x : BinaryTree (RbItem Payload))
    (item : RbItem Payload) (path : Path (RbItem Payload)) :
    Removed useDirty item.node (plug (join side x item .nil) path)
      (plug (touchRoot (RbItem.touch useDirty) x) (touchPath (RbItem.touch useDirty) path)) := by
  refine ⟨?_, fun P uses touched held => ?_⟩
  · cases side with
    | left =>
      refine ⟨before path ++ inorder x, item, after path, ?_, rfl, fun key kept => ?_⟩
      · simp [inorder_plug, join, inorder]
      · rw [inorder_plug_touch kept, inorder_plug]
    | right =>
      refine ⟨before path, item, inorder x ++ after path, ?_, rfl, fun key kept => ?_⟩
      · simp [inorder_plug, join, inorder]
      · rw [inorder_plug_touch kept, inorder_plug]
        simp
  · subst uses
    exact held.replug touched (held.of_plug.of_join.1.touchRoot touched)

theorem removed_successor (useDirty : Bool) (l x : BinaryTree (RbItem Payload))
    (item y : RbItem Payload) (way path : Path (RbItem Payload))
    (onLeft : ∀ frame ∈ way, frame.side = .left) :
    Removed useDirty item.node (plug (join .left l item (plug (join .right x y .nil) way)) path)
      (plug (touchRoot (RbItem.touch useDirty) x)
        (touchPath (RbItem.touch useDirty) (way ++ ⟨.right, y, l⟩ :: path))) := by
  have first := before_eq_nil onLeft
  refine ⟨⟨before path ++ inorder l, item, y :: inorder x ++ after way ++ after path, ?_, rfl,
    fun key kept => ?_⟩, fun P uses touched held => ?_⟩
  · simp [inorder_plug, join, inorder, first]
  · rw [inorder_plug_touch kept, inorder_plug, before_append, after_append]
    simp [first, before, after]
  · subst uses
    obtain ⟨inL, inRight⟩ := held.of_plug.of_join
    have moved := inRight.replug touched (inRight.of_plug.of_join.1.touchRoot touched)
    rw [touchPath_append, plug_append, touchPath_cons, plug]
    exact held.replug touched (.join (touched y) moved inL)

structure Unlinks (tree next : Rbtree Payload) (n : Nat) (yRed : Bool) (shape x : RbShape Payload)
    (way : RbPath Payload) : Prop where
  represents : Represents next (plug x way)
  parent : next.parent (rootNode x) = topNode way
  unlinked : Unlinked (names shape) tree next n
  cutOut : CutOut yRed x way
  removed : Removed tree.useDirty n (plain shape) (plain (plug x way))

theorem Represents.unlinksSelf
    (represents : Represents tree (plug (join side x (item, red) .nil) path))
    (redBlack : RedBlack (plug (join side x (item, red) .nil) path)) (garbage : Rbnode Payload) :
    ∃ next x' way, rbtreeUnlink tree item.node item.node garbage = some (next, rootNode x') ∧
      Unlinks tree next item.node (tree.red item.node)
        (plug (join side x (item, red) .nil) path) x' way := by
  obtain ⟨next, unlinks, represents', parent, unlinked⟩ := represents.unlinkSelf garbage
  have isRed : tree.red item.node = red := (rbLinked_join.mp represents.focus).1.2.2
  refine ⟨next, touchRoot (touchItem tree.useDirty) x, touchPath (touchItem tree.useDirty) path, ?_,
    represents', ?_, unlinked, ?_, ?_⟩
  · rw [unlinks, rootNode_touchRoot]
  · rw [rootNode_touchRoot, parent, topNode_touchPath]
  · rw [isRed]
    exact (cutOut_of_redBlack redBlack).touch _
  · have removed := removed_self tree.useDirty side (plain x) item (plainPath path)
    simpa [plain_plug] using removed

theorem Represents.unlinksSuccessor (represents : Represents tree
      (plug (join .left l (item, red) (plug (join .right x (y, yRed) .nil) way)) path))
    (redBlack : RedBlack (plug (join .left l (item, red) (plug (join .right x (y, yRed) .nil) way))
      path))
    (nonempty : l ≠ .nil) (onLeft : ∀ frame ∈ way, frame.side = .left) (garbage : Rbnode Payload) :
    ∃ next x' way', rbtreeUnlink tree item.node y.node garbage = some (next, rootNode x') ∧
      Unlinks tree next item.node (tree.red y.node)
        (plug (join .left l (item, red) (plug (join .right x (y, yRed) .nil) way)) path) x' way' := by
  obtain ⟨next, unlinks, represents', parent, unlinked⟩ :=
    represents.unlinkSuccessor nonempty garbage
  have isRed : tree.red y.node = yRed := by
    rw [plug_successor] at represents
    exact (rbLinked_join.mp represents.focus).1.2.2
  refine ⟨next, touchRoot (touchItem tree.useDirty) x, touchPath (touchItem tree.useDirty)
    (way ++ ⟨.right, (y, red), l⟩ :: path), ?_, represents', ?_, unlinked, ?_, ?_⟩
  · rw [unlinks, rootNode_touchRoot]
  · rw [rootNode_touchRoot, parent, topNode_touchPath]
  · rw [isRed]
    rw [plug_successor] at redBlack
    exact ((cutOut_of_redBlack redBlack).replace y).touch _
  · have plainLeft : ∀ frame ∈ plainPath way, frame.side = .left := by
      simpa [plainPath] using onLeft
    have removed := removed_successor tree.useDirty (plain l) (plain x) item y (plainPath way)
      (plainPath path) plainLeft
    simpa [plain_plug] using removed

theorem Represents.unlinksBetween {r : RbShape Payload}
    (represents : Represents tree (plug (join .left l (item, red) r) path))
    (redBlack : RedBlack (plug (join .left l (item, red) r) path)) (leftNonempty : l ≠ .nil)
    (rightNonempty : r ≠ .nil) (garbage : Rbnode Payload) :
    ∃ y next x way, rbtreeSpliced tree item.node = some y ∧
      rbtreeUnlink tree item.node y garbage = some (next, rootNode x) ∧
      Unlinks tree next item.node (tree.red y) (plug (join .left l (item, red) r) path) x way := by
  have absent := represents.nil_notMem
  have enough := represents.card_le
  simp only [names_plug, names_join, Multiset.mem_add, Multiset.mem_cons, not_or, Multiset.card_add,
    Multiset.card_cons] at absent enough
  obtain ⟨_, _, leftChild, rightChild, _, inRight⟩ := rbLinked_join.mp represents.focus
  have leftProper : rootNode l ≠ nilNode :=
    fun isNil => absent.1.2.1 (isNil ▸ rootNode_mem leftNonempty)
  have rightProper : rootNode r ≠ nilNode :=
    fun isNil => absent.1.2.2 (isNil ▸ rootNode_mem rightNonempty)
  obtain ⟨way, y, yRed, x, rfl, onLeft, found⟩ := inRight.outermost .left tree.steps
    absent.1.2.2 rightNonempty (by simp only [Rbtree.steps]; omega)
  obtain ⟨next, x', way', steps, unlinks⟩ :=
    represents.unlinksSuccessor redBlack leftNonempty onLeft garbage
  refine ⟨y.node, next, x', way', ?_, steps, unlinks⟩
  have right : tree.child .right item.node = _ := rightChild
  simp only [rbtreeSpliced, rbtreeNextNode, leftChild, right]
  rw [if_neg (by simp [leftProper, rightProper]), if_pos rightProper, found]

theorem Represents.unlinkNode (represents : Represents tree shape) (redBlack : RedBlack shape)
    (inside : n ∈ names shape) (garbage : Rbnode Payload) :
    ∃ y next x way, rbtreeSpliced tree n = some y ∧
      rbtreeUnlink tree n y garbage = some (next, rootNode x) ∧
      Unlinks tree next n (tree.red y) shape x way := by
  obtain ⟨path, item, red, left, right, rfl, rfl⟩ := exists_focus inside
  obtain ⟨_, _, leftChild, rightChild, _, inRight⟩ := represents.focus
  cases right with
  | nil =>
    obtain ⟨next, x, way, steps, unlinks⟩ := Represents.unlinksSelf
      (show Represents tree (plug (join .left left (item, red) .nil) path) from represents) redBlack
      garbage
    refine ⟨item.node, next, x, way, ?_, steps, unlinks⟩
    simp [rbtreeSpliced, rightChild]
  | node other a b =>
    cases left with
    | nil =>
      obtain ⟨next, x, way, steps, unlinks⟩ := Represents.unlinksSelf
        (show Represents tree (plug (join .right _ (item, red) .nil) path) from represents) redBlack
        garbage
      refine ⟨item.node, next, x, way, ?_, steps, unlinks⟩
      simp [rbtreeSpliced, leftChild]
    | node before c d =>
      have between : Represents tree (plug (join .left (.node before c d) (item, red)
        (.node other a b)) path) := represents
      exact between.unlinksBetween redBlack (by simp) (by simp) garbage

end RbtreeRemoveNode

section RbtreeBalanceAgain

variable {Payload : Type} {tree next last : Rbtree Payload} {shape moved final : RbShape Payload}
  {n m : Nat} {garbage : Rbnode Payload}
variable {useDirty : Bool} {whole bare : BinaryTree (RbItem Payload)} {inside : Multiset Nat}

theorem Removed.rotated {last : BinaryTree (RbItem Payload)}
    (removed : Removed useDirty n whole bare) (rotated : Rotated (RbItem.touch useDirty) bare last) :
    Removed useDirty n whole last := by
  obtain ⟨earlier, item, later, same, isNode, order⟩ := removed.order
  refine ⟨⟨earlier, item, later, same, isNode, fun key kept => ?_⟩, fun P uses touched held => ?_⟩
  · rw [rotated.inorder kept]
    exact order key kept
  · subst uses
    exact rotated.everywhere touched (removed.everywhere P rfl touched held)

theorem Removed.dirtyOk
    (removed : Removed useDirty n whole bare) (dirtyOk : Everywhere (DirtyOk useDirty) whole) :
    Everywhere (DirtyOk useDirty) bare := by
  cases useDirty with
  | true => exact removed.everywhere _ rfl dirtyOk_touch dirtyOk
  | false =>
    obtain ⟨earlier, item, later, same, _, order⟩ := removed.order
    have kept := order RbItem.dirty fun item => by simp
    rw [dirtyOk_false_iff] at dirtyOk ⊢
    rw [kept]
    intro dirty inside
    refine dirtyOk dirty ?_
    simp only [same, List.map_append, List.map_cons, List.mem_append, List.mem_cons] at inside ⊢
    exact inside.imp id .inr

theorem Removed.names_eq (removed : Removed useDirty n (plain shape) (plain moved)) :
    names shape = n ::ₘ names moved := by
  obtain ⟨earlier, item, later, same, rfl, order⟩ := removed.order
  have bare : ∀ shape : RbShape Payload, names shape = (inorder (plain shape)).map RbItem.node := by
    intro shape
    simp [names, inorder_plain, Function.comp_def]
  rw [bare, bare, order RbItem.node (touch_node useDirty), same]
  simp

theorem Represents.assertDirty_root (represents : Represents tree shape)
    (below : RbShape Payload) (dirtyOk : Everywhere (DirtyOk useDirty) (plain shape))
    (within : names below ≤ names shape) : rbtreeAssertDirty tree (rootNode below) = some tree := by
  cases below with
  | nil => simp [rbtreeAssertDirty, represents.nilClean]
  | node other a b =>
    obtain ⟨path, item, red, left, right, rfl, isRoot⟩ :=
      exists_focus (Multiset.mem_of_le within (rootNode_mem (by simp)))
    rw [← isRoot]
    exact represents.assertDirty dirtyOk

theorem Represents.children_of_mem (represents : Represents tree shape) (inside : n ∈ names shape) :
    ∃ (left right : RbShape Payload) (rest : Multiset Nat), tree.child .left n = rootNode left ∧
      tree.child .right n = rootNode right ∧
      names shape = n ::ₘ (names left + names right + rest) := by
  obtain ⟨path, item, red, left, right, rfl, rfl⟩ := exists_focus inside
  obtain ⟨_, _, leftChild, rightChild, _⟩ := represents.focus
  refine ⟨left, right, pathNames path, leftChild, rightChild, ?_⟩
  have apart := names_join .left left right (item, red)
  simp only [join] at apart
  simp [apart]

theorem eq_nil_of_names_eq {path : RbPath Payload} (empty : names (plug shape path) = 0) :
    shape = .nil ∧ path = [] := by
  rw [names_plug] at empty
  obtain ⟨noNode, noFrame⟩ : names shape = 0 ∧ pathNames path = 0 := by
    simpa [← Multiset.card_eq_zero] using empty
  constructor
  · by_contra nonempty
    have inside := rootNode_mem nonempty
    simp [noNode] at inside
  · by_contra nonempty
    have inside := topNode_mem nonempty
    simp [noFrame] at inside

theorem Confined.unlinked_trans (confined : Confined inside tree next)
    (unlinked : Unlinked inside next last n) : Unlinked inside tree last n where
  nodes := unlinked.nodes.trans (congrArg (·.erase n) confined.nodes)
  allowDuplicates := unlinked.allowDuplicates.trans confined.allowDuplicates
  useDirty := unlinked.useDirty.trans confined.useDirty
  useMarker := unlinked.useMarker.trans confined.useMarker
  payload m other := (unlinked.payload m other).trans (congrFun confined.payload m)
  outside m outside proper :=
    ⟨(confined.outside m outside).1.trans (unlinked.outside m outside proper).1,
      (unlinked.outside m outside proper).2.trans (confined.outside m outside).2⟩

theorem Unlinked.confined_trans (unlinked : Unlinked inside tree next n)
    (confined : Confined inside next last) : Unlinked inside tree last n where
  nodes := confined.nodes.trans unlinked.nodes
  allowDuplicates := confined.allowDuplicates.trans unlinked.allowDuplicates
  useDirty := confined.useDirty.trans unlinked.useDirty
  useMarker := confined.useMarker.trans unlinked.useMarker
  payload m other := (congrFun confined.payload m).trans (unlinked.payload m other)
  outside m outside proper :=
    ⟨(unlinked.outside m outside proper).1.trans (confined.outside m outside).1,
      (confined.outside m outside).2.trans (unlinked.outside m outside proper).2⟩

theorem Unlinks.fixup {yRed : Bool} {x : RbShape Payload} {way : RbPath Payload}
    (unlinks : Unlinks tree next n yRed shape x way)
    (dirtyOk : Everywhere (DirtyOk next.useDirty) (plain (plug x way))) :
    ∃ last final, rbtreeFixupIf next (!yRed) (rootNode x) = some last ∧
      Moves next last (plug x way) final ∧ RedBlack final := by
  have cut := unlinks.cutOut
  cases yRed with
  | true =>
    exact ⟨next, plug x way, rfl, .refl unlinks.represents, cut.redBlack⟩
  | false =>
    have enough : roundsLeft x way ≤ next.steps := by
      have below := unlinks.represents.length_lt
      simp only [roundsLeft]
      split_ifs
      · simp [Rbtree.steps]
      · exact below
    exact ShortBelow.blackBlackFixup next.steps ⟨unlinks.represents, cut.fits, unlinks.parent⟩
      cut.balanced.short dirtyOk enough

theorem Represents.removeNode (represents : Represents tree shape) (redBlack : RedBlack shape)
    (dirtyOk : Everywhere (DirtyOk tree.useDirty) (plain shape)) (inside : n ∈ names shape)
    (garbage : Rbnode Payload) :
    ∃ next final, rbtreeRemoveNode tree n garbage = some next ∧ Represents next final ∧
      RedBlack final ∧ Unlinked (names shape) tree next n ∧
      Removed tree.useDirty n (plain shape) (plain final) ∧
      Everywhere (DirtyOk next.useDirty) (plain final) ∧
      (final = .nil → next.parent nilNode = nilNode) := by
  obtain ⟨left, right, rest, leftChild, rightChild, apart⟩ := represents.children_of_mem inside
  generalize markedEq : rbtreeSetNodeMarked (rbtreeSetNodeMarked (rbtreeSetNodeMarked tree n)
    (rootNode left)) (rootNode right) = marked
  have marks : Moves tree marked shape shape := by
    have first := represents.setNodeMarked n
    have second := first.trans (first.represents.setNodeMarked (rootNode left))
    rw [← markedEq]
    exact second.trans (second.represents.setNodeMarked (rootNode right))
  obtain ⟨y, unlinked, x, way, spliced, unlink, unlinks⟩ :=
    marks.represents.unlinkNode redBlack inside garbage
  have removed := unlinks.removed
  have uses := unlinks.unlinked.useDirty
  rw [marks.confined.useDirty] at removed uses
  have dirtyBelow : Everywhere (DirtyOk unlinked.useDirty) (plain (plug x way)) := by
    rw [uses]
    exact removed.dirtyOk dirtyOk
  obtain ⟨last, final, fixed, moves, balanced⟩ := unlinks.fixup dirtyBelow
  have rotated := moves.rotated
  rw [uses] at rotated
  have whole := removed.rotated rotated
  have dirtyLast : Everywhere (DirtyOk last.useDirty) (plain final) := by
    rw [moves.confined.useDirty, uses]
    exact whole.dirtyOk dirtyOk
  have finalNames := whole.names_eq
  have others : names left + names right + rest = names final :=
    (Multiset.cons_inj_right n).mp (apart.symm.trans finalNames)
  refine ⟨last, final, ?_, moves.represents, balanced, ?_, whole, dirtyLast, ?_⟩
  · have xChecked := moves.represents.assertDirty_root x dirtyLast
      (by rw [moves.names_eq, names_plug]; exact Multiset.le_add_right _ _)
    have leftChecked := moves.represents.assertDirty_root left dirtyLast
      (by rw [← others, add_assoc]; exact Multiset.le_add_right _ _)
    have rightChecked := moves.represents.assertDirty_root right dirtyLast
      (by rw [← others, add_right_comm]; exact Multiset.le_add_left _ _)
    simp only [rbtreeRemoveNode, if_neg (represents.ne_nil inside), leftChild, rightChild, markedEq,
      spliced, unlink, Option.bind_eq_bind, Option.bind_some, fixed, xChecked, leftChecked,
      rightChecked]
  · refine marks.confined.unlinked_trans (unlinks.unlinked.confined_trans (moves.confined.mono ?_))
    intro m below
    rw [← moves.names_eq] at below
    rw [finalNames]
    exact Multiset.mem_cons_of_mem below
  · rintro rfl
    obtain ⟨rfl, rfl⟩ := eq_nil_of_names_eq moves.names_eq.symm
    exact (moves.parent_nil unlinks.represents).trans unlinks.parent

end RbtreeBalanceAgain

end MulleCore
