import MulleCore.Rbtree.RbtreeSteps

/-!
The links, the colors and the parents of a red-black tree, as they are in memory.
-/

namespace MulleCore

open Library

section RbtreeRedBlack

variable {Payload : Type} {tree : Rbtree Payload} {shape left right : RbShape Payload}
  {path : RbPath Payload} {item : RbItem Payload} {red : Bool} {n : Nat}

inductive InTree (tree : Rbtree Payload) : Nat → Prop
  | root (proper : tree.root ≠ nilNode) : InTree tree tree.root
  | child {n : Nat} (above : InTree tree n) (side : Side) (proper : tree.child side n ≠ nilNode) :
      InTree tree (tree.child side n)

inductive BlackHeight (tree : Rbtree Payload) : Nat → Nat → Prop
  | nil : BlackHeight tree nilNode 0
  | node {n height : Nat} (proper : n ≠ nilNode) (left : BlackHeight tree (tree.child .left n) height)
      (right : BlackHeight tree (tree.child .right n) height) :
      BlackHeight tree n (if tree.red n then height else height + 1)

structure RbtreeIsRedBlack (tree : Rbtree Payload) : Prop where
  nilBlack : tree.red nilNode = false
  nilUnmarked : tree.marked nilNode = false ∧ tree.dirty nilNode = false
  rootBlack : tree.red tree.root = false
  redBlack : ∀ n, InTree tree n → tree.red n = true → ∀ side, tree.red (tree.child side n) = false
  height : ∃ height, BlackHeight tree tree.root height
  parent : ∀ n, InTree tree n → ∀ side, tree.child side n ≠ nilNode →
    tree.parent (tree.child side n) = n
  rootParent : tree.parent tree.root = nilNode

theorem Represents.of_mem (represents : Represents tree shape) (inside : n ∈ names shape)
    (side : Side) :
    ∃ near item red far path, shape = plug (join side near (item, red) far) path ∧ item.node = n := by
  obtain ⟨path, item, red, left, right, rfl, same⟩ := exists_focus inside
  obtain ⟨near, far, joined⟩ := exists_join side (item, red) left right
  exact ⟨near, item, red, far, path, by rw [joined], same⟩

theorem Represents.names_of_inTree (represents : Represents tree shape) (inTree : InTree tree n) :
    n ∈ names shape := by
  induction inTree with
  | root proper =>
    rw [represents.root]
    refine rootNode_mem fun empty => proper ?_
    rw [represents.root, empty, rootNode_nil]
  | child _ side proper ih =>
    obtain ⟨near, item, red, far, path, rfl, rfl⟩ := represents.of_mem ih side
    have child : tree.child side item.node = rootNode near :=
      (rbLinked_join.mp represents.focus).2.2.1
    rw [child] at proper ⊢
    have inside : rootNode near ∈ names near := by
      refine rootNode_mem ?_
      rintro rfl
      exact proper rfl
    simp [inside]

theorem RbLinked.blackHeight : ∀ {shape : RbShape Payload} {above height : Nat},
    RbLinked tree above shape → nilNode ∉ names shape → RbBalanced shape height →
    BlackHeight tree (rootNode shape) height := by
  intro shape
  induction shape with
  | nil =>
    rintro above height _ _ rfl
    exact .nil
  | node whole left right leftIh rightIh =>
    intro above height linked absent balanced
    obtain ⟨item, red⟩ := whole
    obtain ⟨⟨_, _, color⟩, _, leftChild, rightChild, inLeft, inRight⟩ := linked
    rw [show names (.node (item, red) left right) = item.node ::ₘ (names left + names right) from
      names_join .left left right (item, red)] at absent
    simp only [Multiset.mem_cons, Multiset.mem_add, not_or] at absent
    obtain ⟨proper, notLeft, notRight⟩ := absent
    have below : ∀ lower, RbBalanced left lower → RbBalanced right lower →
        BlackHeight tree item.node (if red then lower else lower + 1) := by
      intro lower leftBalanced rightBalanced
      rw [← color]
      refine .node (Ne.symm proper) ?_ ?_
      · exact leftChild ▸ leftIh inLeft notLeft leftBalanced
      · exact rightChild ▸ rightIh inRight notRight rightBalanced
    cases red with
    | true =>
      obtain ⟨_, _, leftBalanced, rightBalanced⟩ := balanced
      exact below height leftBalanced rightBalanced
    | false =>
      obtain ⟨lower, rfl, leftBalanced, rightBalanced⟩ := balanced
      exact below lower leftBalanced rightBalanced

theorem RbtreeGood.isRedBlack (good : RbtreeGood tree shape) : RbtreeIsRedBlack tree := by
  have represents := good.represents
  obtain ⟨rootBlack, height, balanced⟩ := good.redBlack
  refine ⟨represents.nilBlack, ⟨represents.nilUnmarked, represents.nilClean⟩, ?_, ?_, ⟨height, ?_⟩,
    ?_, ?_⟩
  · rw [represents.root]
    exact (show Represents tree (plug shape []) from represents).red_root.trans rootBlack
  · intro n inTree isRed side
    obtain ⟨near, item, red, far, path, rfl, rfl⟩ :=
      represents.of_mem (represents.names_of_inTree inTree) side
    obtain ⟨⟨_, _, color⟩, _, child, _⟩ := rbLinked_join.mp represents.focus
    have below : Represents tree (plug near (⟨side, (item, red), far⟩ :: path)) := represents
    rw [child, below.red_root]
    obtain ⟨_, inside, _⟩ := (redBlack_plug_iff _ _).mp good.redBlack
    obtain rfl : red = true := color.symm.trans isRed
    exact (balanced_join_red.mp inside).1
  · rw [represents.root]
    exact represents.linked.blackHeight represents.nil_notMem balanced
  · intro n inTree side proper
    obtain ⟨near, item, red, far, path, rfl, rfl⟩ :=
      represents.of_mem (represents.names_of_inTree inTree) side
    obtain ⟨_, _, child, _, inNear, _⟩ := rbLinked_join.mp represents.focus
    rw [child] at proper ⊢
    refine inNear.parent ?_
    rintro rfl
    exact proper rfl
  · rw [represents.root]
    cases shape with
    | nil => exact good.nilParent rfl
    | node whole left right => exact represents.linked.parent (by simp)

/-- Every run can be finished, so no assertion fails, and leaves a red-black tree. -/
theorem rbtreeRun_isRedBlack {memory : Rbtree Payload} {allowDuplicates useDirty useMarker : Bool}
    {ops : List (RbOp Payload)}
    (permitted : PermittedFrom rbtreeNext rbtreePermits
      (rbtreeInit memory allowDuplicates useDirty useMarker) ops) :
    ∃ tree, ops.foldlM rbtreeNext (rbtreeInit memory allowDuplicates useDirty useMarker) = some tree ∧
      RbtreeIsRedBlack tree := by
  obtain ⟨tree, shape, run, good, _⟩ := RbtreeGood.run (fun _ => True) (fun _ => True)
    (fun _ _ _ _ => trivial) ops (fun _ _ => trivial) (rbtreeInit_good _ _ _ _) trivial permitted
  exact ⟨tree, run, good.isRedBlack⟩

def garbageNode (value : Payload) : Rbnode Payload :=
  ⟨7, 7, 7, true, true, true, value⟩

theorem rbtreeRun_isRedBlack_rotated :
    ∃ tree, [.newNode 1 10, .insertNode (· - ·) 1, .newNode 2 30, .insertNode (· - ·) 2,
        .newNode 3 20, .insertNodeBefore 3 2, .removeNode 3 (garbageNode 0)].foldlM rbtreeNext
        (rbtreeInit (blankMemory (0 : Int)) false true true) = some tree ∧ RbtreeIsRedBlack tree :=
  rbtreeRun_isRedBlack (by decide)

end RbtreeRedBlack

end MulleCore
