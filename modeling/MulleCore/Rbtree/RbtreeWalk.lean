import MulleCore.Library.SearchPath
import MulleCore.Library.Simulation
import MulleCore.Rbtree.RbtreeRemoveNode

/-!
A tree with its loose nodes over any sequence of operations.
-/

namespace MulleCore

open Library

/-- `comp` gets the new value first. A node that is freed may leave anything in its memory. -/
inductive RbOp (Payload : Type) where
  | newNode (node : Nat) (value : Payload)
  | freeNode (node : Nat) (garbage : Rbnode Payload)
  | insertNode (comp : Payload → Payload → Int) (node : Nat)
  | insertNodeBefore (node successor : Nat)
  | insertNodeAfter (node predecessor : Nat)
  | removeNode (node : Nat) (garbage : Rbnode Payload)
  | walkDirty

inductive RbAnswer where
  | done
  | status (value : Nat)
  | calls (calls : List RbCall)

def blankMemory {Payload : Type} (value : Payload) : Rbtree Payload :=
  ⟨nilNode, fun _ => nilNode, fun _ _ => nilNode, fun _ => false, fun _ => false, fun _ => false,
    fun _ => value, [], false, false, false⟩

section RbtreeStep

variable {Payload : Type} (tree : Rbtree Payload)

def rbtreeStep : RbOp Payload → Option (Rbtree Payload × RbAnswer)
  | .newNode node value => some (rbtreeNewNode tree node value, .done)
  | .freeNode node garbage => some (rbtreeFreeNode tree node garbage, .done)
  | .insertNode comp node =>
    (rbtreeInsertNode tree comp node).map fun (tree, rval) => (tree, .status rval)
  | .insertNodeBefore node successor => (rbtreeInsertNodeBefore tree node successor).map (·, .done)
  | .insertNodeAfter node predecessor => (rbtreeInsertNodeAfter tree node predecessor).map (·, .done)
  | .removeNode node garbage => (rbtreeRemoveNode tree node garbage).map (·, .done)
  | .walkDirty => (rbtreeWalkDirty tree).map fun (tree, calls) => (tree, .calls calls)

def rbtreeNext (op : RbOp Payload) : Option (Rbtree Payload) := (rbtreeStep tree op).map Prod.fst

def rbtreeInorderFrom : Nat → Nat → List Nat
  | 0, _ => []
  | fuel + 1, node =>
    if node = nilNode then []
    else rbtreeInorderFrom fuel (tree.child .left node) ++
      node :: rbtreeInorderFrom fuel (tree.child .right node)

def rbtreeInorder : List Nat := rbtreeInorderFrom tree tree.steps tree.root

def rbtreeIsLoose (node : Nat) : Prop := node ∈ tree.nodes ∧ node ∉ rbtreeInorder tree

instance (node : Nat) : Decidable (rbtreeIsLoose tree node) :=
  inferInstanceAs (Decidable (_ ∧ _))

def rbtreePermits : RbOp Payload → Prop
  | .newNode node _ => node ≠ nilNode ∧ node ∉ tree.nodes
  | .freeNode node _ => rbtreeIsLoose tree node
  | .insertNode _ node => rbtreeIsLoose tree node
  | .insertNodeBefore node successor => rbtreeIsLoose tree node ∧ successor ∈ rbtreeInorder tree
  | .insertNodeAfter node predecessor => rbtreeIsLoose tree node ∧ predecessor ∈ rbtreeInorder tree
  | .removeNode node _ => node ∈ rbtreeInorder tree
  | .walkDirty => True

instance (op : RbOp Payload) : Decidable (rbtreePermits tree op) :=
  match op with
  | .newNode node _ => inferInstanceAs (Decidable (node ≠ nilNode ∧ node ∉ tree.nodes))
  | .freeNode node _ => inferInstanceAs (Decidable (rbtreeIsLoose tree node))
  | .insertNode _ node => inferInstanceAs (Decidable (rbtreeIsLoose tree node))
  | .insertNodeBefore node successor =>
    inferInstanceAs (Decidable (rbtreeIsLoose tree node ∧ successor ∈ rbtreeInorder tree))
  | .insertNodeAfter node predecessor =>
    inferInstanceAs (Decidable (rbtreeIsLoose tree node ∧ predecessor ∈ rbtreeInorder tree))
  | .removeNode node _ => inferInstanceAs (Decidable (node ∈ rbtreeInorder tree))
  | .walkDirty => inferInstanceAs (Decidable True)

end RbtreeStep

section RbtreeGood

variable {Payload : Type} {tree next : Rbtree Payload} {shape : RbShape Payload}
variable {n : Nat}

structure RbtreeGood (tree : Rbtree Payload) (shape : RbShape Payload) : Prop where
  represents : Represents tree shape
  redBlack : RedBlack shape
  dirtyOk : Everywhere (DirtyOk tree.useDirty) (plain shape)
  loose : ∀ n ∈ tree.nodes, n ∉ names shape → Loose tree n
  nilParent : shape = .nil → tree.parent nilNode = nilNode

theorem RbLinked.inorderFrom : ∀ (fuel : Nat) {shape : RbShape Payload} {above : Nat},
    RbLinked tree above shape → nilNode ∉ names shape → (names shape).card < fuel →
    rbtreeInorderFrom tree fuel (rootNode shape) = (inorder (plain shape)).map RbItem.node := by
  intro fuel
  induction fuel with
  | zero => exact fun _ _ enough => absurd enough (Nat.not_lt_zero _)
  | succ fuel ih =>
    intro shape above linked absent enough
    cases shape with
    | nil => simp [rbtreeInorderFrom, inorder]
    | node item left right =>
      rw [show BinaryTree.node item left right =
        join .left left item right from rfl] at absent enough ⊢
      obtain ⟨_, _, leftChild, rightChild, inLeft, inRight⟩ := linked
      simp only [names_join, Multiset.mem_cons, Multiset.mem_add, not_or, Multiset.card_cons,
        Multiset.card_add] at absent enough
      obtain ⟨proper, notLeft, notRight⟩ := absent
      simp only [rbtreeInorderFrom, rootNode_join, leftChild, rightChild]
      rw [if_neg (Ne.symm proper), ih inLeft notLeft (by omega), ih inRight notRight (by omega),
        plain_join]
      simp [join, inorder]

theorem Represents.inorder_eq (represents : Represents tree shape) :
    rbtreeInorder tree = (inorder (plain shape)).map RbItem.node := by
  rw [rbtreeInorder, represents.root]
  refine represents.linked.inorderFrom _ represents.nil_notMem ?_
  have card := represents.card_le
  simp only [Rbtree.steps]
  omega

theorem Represents.mem_inorder (represents : Represents tree shape) :
    n ∈ rbtreeInorder tree ↔ n ∈ names shape := by
  rw [represents.inorder_eq, mem_names, List.mem_map]

theorem rbtreeInit_good (memory : Rbtree Payload) (allowDuplicates useDirty useMarker : Bool) :
    RbtreeGood (rbtreeInit memory allowDuplicates useDirty useMarker) .nil := by
  refine ⟨⟨⟨List.nodup_nil, List.not_mem_nil, ?_, ?_, ?_⟩, rfl, trivial, Multiset.zero_le _⟩,
    ⟨rfl, 0, rfl⟩, trivial, ?_, fun _ => ?_⟩
  · simp [rbtreeInit, rbtreeWriteNode]
  · simp [rbtreeInit, rbtreeWriteNode]
  · simp [rbtreeInit, rbtreeWriteNode]
  · simp [rbtreeInit]
  · simp [rbtreeInit, rbtreeWriteNode]

theorem Loose.elsewhere (loose : Loose tree n) (same : SameAt tree next n)
    (parent : next.parent n = tree.parent n) (useDirty : next.useDirty = tree.useDirty) :
    Loose next n := by
  obtain ⟨_, dirty, color, child⟩ := same
  refine ⟨parent.trans loose.parent, fun side => (child side).trans (loose.child side),
    color.trans loose.red, ?_⟩
  rw [dirty, useDirty]
  exact loose.dirty

end RbtreeGood

/-!
`_mulle__rbtree_walk_dirty`: the dirty nodes are a tree of their own at the root.
-/

section RbtreeWalk

variable {Payload : Type} {tree next : Rbtree Payload} {shape : RbShape Payload}
variable {nodes : Multiset Nat} {useDirty : Bool} {above : Nat}

def bareNode : BinaryTree (RbItem Payload) → Nat
  | .nil => nilNode
  | .node item _ _ => item.node

@[simp] theorem bareNode_plain (shape : RbShape Payload) :
    bareNode (plain shape) = rootNode shape := by
  cases shape <;> rfl

def dirtyCalls : BinaryTree (RbItem Payload) → List RbCall
  | .nil => []
  | .node item left right =>
    if item.dirty then dirtyCalls left ++ dirtyCalls right ++
      [⟨item.node, bareNode left, bareNode right⟩]
    else []

def RbItem.clean (item : RbItem Payload) : RbItem Payload := { item with dirty := false }

def Rbtree.cleaned (tree : Rbtree Payload) (nodes : Multiset Nat) : Rbtree Payload :=
  { tree with dirty := fun m => tree.dirty m && !decide (m ∈ nodes) }

theorem cleaned_sameAt {m : Nat} (outside : m ∉ nodes) :
    SameAt tree (tree.cleaned nodes) m := by
  refine ⟨rfl, ?_, rfl, fun _ => rfl⟩
  simp [Rbtree.cleaned, outside]

theorem clean_of_root {bare : BinaryTree (RbItem Payload)}
    (dirtyOk : Everywhere (DirtyOk useDirty) bare) (clean : rootDirty bare = false) :
    ∀ item ∈ inorder bare, item.dirty = false := by
  induction bare with
  | nil => simp [inorder]
  | node item left right leftIh rightIh =>
    obtain ⟨⟨aboveLeft, aboveRight, _⟩, inLeft, inRight⟩ := dirtyOk
    have here : item.dirty = false := clean
    simp only [here, Bool.false_eq_true, imp_false, Bool.not_eq_true] at aboveLeft aboveRight
    intro other inside
    simp only [inorder, List.mem_append, List.mem_cons] at inside
    rcases inside with below | rfl | below
    · exact leftIh inLeft aboveLeft other below
    · exact here
    · exact rightIh inRight aboveRight other below

theorem RbLinked.fields_of_mem (linked : RbLinked tree above shape) :
    ∀ item ∈ inorder (plain shape),
      tree.payload item.node = item.payload ∧ tree.dirty item.node = item.dirty := by
  induction shape generalizing above with
  | nil => simp [inorder]
  | node whole left right leftIh rightIh =>
    obtain ⟨holds, _, _, _, inLeft, inRight⟩ := linked
    intro item inside
    rw [show BinaryTree.node whole left right = join .left left whole right from rfl,
      plain_join] at inside
    simp only [join, inorder, List.mem_append, List.mem_cons] at inside
    rcases inside with below | rfl | below
    · exact leftIh inLeft item below
    · exact ⟨holds.1, holds.2.1⟩
    · exact rightIh inRight item below

theorem cleaned_eq_self (linked : RbLinked tree above shape)
    (clean : ∀ item ∈ inorder (plain shape), item.dirty = false) :
    tree.cleaned (names shape) = tree := by
  have same : (fun m => tree.dirty m && !decide (m ∈ names shape)) = tree.dirty := by
    funext m
    by_cases inside : m ∈ names shape
    · obtain ⟨item, known, rfl⟩ := mem_names.mp inside
      simp [(linked.fields_of_mem item known).2, clean item known]
    · simp [inside]
  rw [Rbtree.cleaned, same]

@[simp] theorem cleaned_zero (tree : Rbtree Payload) : tree.cleaned 0 = tree := by
  simp [Rbtree.cleaned]

theorem cleaned_add (tree : Rbtree Payload) (first second : Multiset Nat) :
    (tree.cleaned first).cleaned second = tree.cleaned (first + second) := by
  simp [Rbtree.cleaned, Bool.and_assoc]

theorem cleaned_cons (tree : Rbtree Payload) (n : Nat) (nodes : Multiset Nat) :
    { tree.cleaned nodes with dirty := Function.update (tree.cleaned nodes).dirty n false } =
      tree.cleaned (n ::ₘ nodes) := by
  have same : Function.update (tree.cleaned nodes).dirty n false =
      fun m => tree.dirty m && !decide (m ∈ n ::ₘ nodes) := by
    funext m
    by_cases here : m = n
    · simp [here]
    · simp [here, Rbtree.cleaned]
  rw [same]
  rfl

theorem RbLinked.walkDirtyFrom : ∀ (fuel : Nat) {tree : Rbtree Payload}
    {shape : RbShape Payload} {above : Nat}, RbLinked tree above shape → nilNode ∉ names shape →
    (names shape).Nodup → tree.dirty nilNode = false → Everywhere (DirtyOk useDirty) (plain shape) →
    (names shape).card < fuel →
    rbtreeWalkDirtyFrom fuel tree (rootNode shape) =
      some (tree.cleaned (names shape), dirtyCalls (plain shape)) := by
  intro fuel
  induction fuel with
  | zero => exact fun _ _ _ _ _ enough => absurd enough (Nat.not_lt_zero _)
  | succ fuel ih =>
    intro tree shape above linked absent nodup nilClean dirtyOk enough
    have below : ∀ {tree : Rbtree Payload} {sub : RbShape Payload} {above : Nat},
        RbLinked tree above sub → nilNode ∉ names sub → (names sub).Nodup →
        tree.dirty nilNode = false → Everywhere (DirtyOk useDirty) (plain sub) →
        (names sub).card < fuel →
        (if rootNode sub ≠ nilNode then rbtreeWalkDirtyFrom fuel tree (rootNode sub)
          else some (tree, [])) = some (tree.cleaned (names sub), dirtyCalls (plain sub)) := by
      intro tree sub above linked absent nodup nilClean dirtyOk enough
      cases sub with
      | nil => simp [dirtyCalls]
      | node whole left right =>
        have proper : rootNode (.node whole left right) ≠ nilNode :=
          fun isNil => absent (isNil ▸ rootNode_mem (by simp))
        rw [if_pos proper, ih linked absent nodup nilClean dirtyOk enough]
    cases shape with
    | nil => simp [rbtreeWalkDirtyFrom, nilClean, dirtyCalls]
    | node whole left right =>
      obtain ⟨item, red⟩ := whole
      have whole := linked
      obtain ⟨holds, _, leftChild, rightChild, inLeft, inRight⟩ := linked
      have apart : names (.node (item, red) left right) =
          item.node ::ₘ (names left + names right) := names_join .left left right (item, red)
      have calls : dirtyCalls (plain (.node (item, red) left right)) = if item.dirty then
          dirtyCalls (plain left) ++ dirtyCalls (plain right) ++
            [⟨item.node, bareNode (plain left), bareNode (plain right)⟩] else [] := rfl
      have nodeDirty : tree.dirty item.node = item.dirty := holds.2.1
      cases isDirty : item.dirty with
      | false =>
        rw [cleaned_eq_self whole (clean_of_root dirtyOk isDirty)]
        simp [rbtreeWalkDirtyFrom, rootNode, nodeDirty, calls, isDirty]
      | true =>
        obtain ⟨_, leftOk, rightOk⟩ := dirtyOk
        rw [apart] at absent nodup enough
        simp only [Multiset.mem_cons, Multiset.mem_add, not_or, Multiset.nodup_cons,
          Multiset.nodup_add, Multiset.card_cons, Multiset.card_add] at absent nodup enough
        obtain ⟨proper, notLeft, notRight⟩ := absent
        obtain ⟨_, leftNodup, rightNodup, disjoint⟩ := nodup
        have walked : RbLinked (tree.cleaned (names left)) item.node right :=
          inRight.elsewhere rightNodup fun m inside =>
            ⟨cleaned_sameAt fun other => (Multiset.disjoint_left.mp disjoint) other inside, rfl⟩
        have first := below inLeft notLeft leftNodup nilClean leftOk (by omega)
        have second := below walked notRight rightNodup
          (by simp [Rbtree.cleaned, nilClean]) rightOk (by omega)
        have children : (tree.cleaned (names left)).child = tree.child := rfl
        rw [rbtreeWalkDirtyFrom, rootNode, if_neg (by simp [nodeDirty, isDirty]),
          if_neg (Ne.symm proper), leftChild, first, Option.bind_some, children, rightChild, second,
          Option.bind_some, calls, if_pos isDirty, apart, ← cleaned_cons, cleaned_add]
        simp [Rbtree.cleaned, leftChild, rightChild]

theorem RbLinked.isClean : ∀ (fuel : Nat) {shape : RbShape Payload} {above : Nat},
    RbLinked tree above shape → nilNode ∉ names shape → (∀ n ∈ names shape, tree.dirty n = false) →
    (names shape).card < fuel → rbtreeIsClean tree fuel (rootNode shape) = true := by
  intro fuel
  induction fuel with
  | zero => exact fun _ _ _ enough => absurd enough (Nat.not_lt_zero _)
  | succ fuel ih =>
    intro shape above linked absent clean enough
    cases shape with
    | nil => simp [rbtreeIsClean]
    | node whole left right =>
      obtain ⟨_, _, leftChild, rightChild, inLeft, inRight⟩ := linked
      have apart : names (.node whole left right) =
          whole.1.node ::ₘ (names left + names right) := names_join .left left right whole
      rw [apart] at absent clean enough
      simp only [Multiset.mem_cons, Multiset.mem_add, not_or, Multiset.card_cons,
        Multiset.card_add] at absent clean enough
      have leftClean := ih inLeft absent.2.1 (fun n below => clean n (.inr (.inl below))) (by omega)
      have rightClean := ih inRight absent.2.2 (fun n below => clean n (.inr (.inr below))) (by omega)
      rw [rbtreeIsClean, rootNode]
      simp [leftChild, rightChild, leftClean, rightClean, clean]

def cleanShape (shape : RbShape Payload) : RbShape Payload := shape.map (Prod.map RbItem.clean id)

@[simp] theorem rootNode_cleanShape (shape : RbShape Payload) :
    rootNode (cleanShape shape) = rootNode shape := by
  cases shape <;> rfl

theorem inorder_cleanShape (shape : RbShape Payload) :
    inorder (plain (cleanShape shape)) = (inorder (plain shape)).map RbItem.clean := by
  induction shape with
  | nil => rfl
  | node item left right leftIh rightIh =>
    simp only [plain, cleanShape, BinaryTree.map, inorder, List.map_append, List.map_cons] at *
    simp [leftIh, rightIh]

@[simp] theorem names_cleanShape (shape : RbShape Payload) :
    names (cleanShape shape) = names shape := by
  refine names_eq_of_inorder ?_
  rw [inorder_cleanShape, List.map_map]
  rfl

theorem colours_cleanShape (shape : RbShape Payload) :
    colours (cleanShape shape) = colours shape := by
  induction shape with
  | nil => rfl
  | node item left right leftIh rightIh =>
    simp only [colours, cleanShape, BinaryTree.map] at *
    simp [leftIh, rightIh]

theorem RbLinked.cleaned : ∀ {shape : RbShape Payload} {above : Nat},
    RbLinked tree above shape → (∀ n ∈ names shape, n ∈ nodes) →
    RbLinked (tree.cleaned nodes) above (cleanShape shape) := by
  intro shape
  induction shape with
  | nil => exact fun _ _ => trivial
  | node whole left right leftIh rightIh =>
    intro above linked within
    obtain ⟨⟨payload, _, color⟩, parent, leftChild, rightChild, inLeft, inRight⟩ := linked
    have apart : names (.node whole left right) =
        whole.1.node ::ₘ (names left + names right) := names_join .left left right whole
    simp only [apart, Multiset.mem_cons, Multiset.mem_add, forall_eq_or_imp] at within
    refine ⟨⟨payload, ?_, color⟩, parent, ?_, ?_,
      leftIh inLeft fun n below => within.2 n (.inl below), rightIh inRight fun n below => within.2
        n (.inr below)⟩
    · simp [Rbtree.cleaned, RbItem.clean, within.1]
    · exact leftChild.trans (rootNode_cleanShape left).symm
    · exact rightChild.trans (rootNode_cleanShape right).symm

theorem everywhere_cleanShape (shape : RbShape Payload) :
    Everywhere (DirtyOk useDirty) (plain (cleanShape shape)) := by
  induction shape with
  | nil => trivial
  | node item left right leftIh rightIh =>
    have clean : ∀ shape : RbShape Payload, rootDirty (plain (cleanShape shape)) = false := by
      intro shape
      cases shape <;> rfl
    refine ⟨⟨fun isDirty => ?_, fun isDirty => ?_, fun _ => rfl⟩, leftIh, rightIh⟩
    · exact absurd ((clean left).symm.trans isDirty) Bool.false_ne_true
    · exact absurd ((clean right).symm.trans isDirty) Bool.false_ne_true

theorem RbtreeGood.walkDirty (good : RbtreeGood tree shape) :
    rbtreeWalkDirty tree = some (tree.cleaned (names shape), dirtyCalls (plain shape)) ∧
      RbtreeGood (tree.cleaned (names shape)) (cleanShape shape) := by
  have represents := good.represents
  have enough : (names shape).card < tree.steps := Nat.lt_succ_of_le represents.card_le
  have absent := represents.nil_notMem
  have linked : RbLinked (tree.cleaned (names shape)) nilNode (cleanShape shape) :=
    represents.linked.cleaned fun _ => id
  constructor
  · have walked := represents.linked.walkDirtyFrom tree.steps absent represents.nodup
      represents.nilClean good.dirtyOk enough
    have clean : rbtreeIsClean (tree.cleaned (names shape)) tree.steps (rootNode (cleanShape shape)) =
        true := by
      refine linked.isClean tree.steps (by simpa using absent) (fun n inside => ?_)
        (by simpa using enough)
      rw [names_cleanShape] at inside
      simp [Rbtree.cleaned, inside]
    rw [rootNode_cleanShape] at clean
    simp only [rbtreeWalkDirty, represents.root, walked, Option.bind_eq_bind, Option.bind_some]
    exact if_pos (represents.root.symm ▸ clean)
  · refine ⟨⟨⟨represents.distinct, represents.noNil, represents.nilBlack, ?_, represents.nilUnmarked⟩,
      ?_, linked, ?_⟩, ?_, everywhere_cleanShape shape, ?_, ?_⟩
    · simp [Rbtree.cleaned, represents.nilClean]
    · rw [rootNode_cleanShape]
      exact represents.root
    · rw [names_cleanShape]
      exact represents.known
    · obtain ⟨black, height, balanced⟩ := good.redBlack
      exact ⟨(rootRed_of_colours (colours_cleanShape shape)).trans black, height,
        balanced.of_colours (colours_cleanShape shape)⟩
    · intro n known outside
      rw [names_cleanShape] at outside
      exact (good.loose n known outside).elsewhere (cleaned_sameAt outside) rfl rfl
    · intro empty
      cases shape with
      | nil => exact good.nilParent rfl
      | node item left right => simp [cleanShape, BinaryTree.map] at empty

end RbtreeWalk

end MulleCore
