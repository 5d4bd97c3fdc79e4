import MulleCore.Rbtree.RbtreeRedBlack

/-!
Dirty nodes: which nodes a walk calls for, and what an aggregate that is recomputed for
these nodes only comes to.
-/

namespace MulleCore

open Library

section DirtyNodes

variable {Payload : Type} {tree next : Rbtree Payload} {shape final : RbShape Payload} {n m : Nat}
variable {useDirty : Bool} {bare : BinaryTree (RbItem Payload)}

inductive Ancestor (tree : Rbtree Payload) : Nat → Nat → Prop
  | parent {n : Nat} (proper : tree.parent n ≠ nilNode) : Ancestor tree (tree.parent n) n
  | up {above n : Nat} (ancestor : Ancestor tree above n) (proper : tree.parent above ≠ nilNode) :
      Ancestor tree (tree.parent above) n

theorem Represents.inTree_of_mem (represents : Represents tree shape) :
    ∀ {path : RbPath Payload} {below : RbShape Payload}, shape = plug below path → below ≠ .nil →
      InTree tree (rootNode below) := by
  intro path
  induction path with
  | nil =>
    intro below same nonempty
    rw [same] at represents
    have root : tree.root = rootNode below := represents.root
    exact root ▸ .root (represents.root_eq_nil_iff.not.mpr nonempty)
  | cons frame path ih =>
    intro below same nonempty
    obtain ⟨side, ⟨item, red⟩, sibling⟩ := frame
    have above := ih same (join_ne_nil side below sibling (item, red))
    rw [same] at represents
    have child : tree.child side item.node = rootNode below := represents.top_child
    rw [rootNode_join] at above
    have proper : tree.child side item.node ≠ nilNode := by
      rw [child]
      exact represents.root_proper nonempty
    exact child ▸ above.child side proper

theorem Represents.inTree_iff (represents : Represents tree shape) :
    InTree tree n ↔ n ∈ names shape := by
  refine ⟨represents.names_of_inTree, fun inside => ?_⟩
  obtain ⟨path, item, red, left, right, same, rfl⟩ := exists_focus inside
  exact represents.inTree_of_mem same (by simp)

theorem RbtreeGood.dirty_parent (good : RbtreeGood tree shape) (inside : n ∈ names shape)
    (isDirty : tree.dirty n = true) (proper : tree.parent n ≠ nilNode) :
    tree.parent n ∈ names shape ∧ tree.dirty (tree.parent n) = true := by
  obtain ⟨path, item, red, left, right, rfl, rfl⟩ := exists_focus inside
  obtain ⟨⟨_, dirty, _⟩, parent, _⟩ := good.represents.focus
  have hangs := good.represents.hangs
  have above := path_dirty_of_dirtyOk good.dirtyOk (dirty.symm.trans isDirty)
  rw [parent] at proper ⊢
  cases path with
  | nil => exact absurd rfl proper
  | cons frame path =>
    obtain ⟨side, ⟨top, topRed⟩, sibling⟩ := frame
    obtain ⟨⟨_, topDirty, _⟩, _⟩ := hangs
    refine ⟨by simp, topDirty.trans (above _ List.mem_cons_self)⟩

theorem RbtreeGood.dirty_ancestor (good : RbtreeGood tree shape) (inside : n ∈ names shape)
    (isDirty : tree.dirty n = true) (ancestor : Ancestor tree m n) :
    m ∈ names shape ∧ tree.dirty m = true := by
  induction ancestor with
  | parent proper => exact good.dirty_parent inside isDirty proper
  | up _ proper ih => exact good.dirty_parent (ih inside isDirty).1 (ih inside isDirty).2 proper

/-- The calls of a walk: once for each dirty node, after its dirty children. -/
structure CallsDirty (tree : Rbtree Payload) (calls : List RbCall) : Prop where
  once : (calls.map RbCall.node).Nodup
  dirty : ∀ n, n ∈ calls.map RbCall.node ↔ InTree tree n ∧ tree.dirty n = true
  children : ∀ call ∈ calls, call.left = tree.child .left call.node ∧
    call.right = tree.child .right call.node
  below : ∀ earlier call later, calls = earlier ++ call :: later → ∀ side,
    tree.child side call.node ≠ nilNode → tree.dirty (tree.child side call.node) = true →
    tree.child side call.node ∈ earlier.map RbCall.node

theorem dirtyCalls_nodes (dirtyOk : Everywhere (DirtyOk useDirty) bare) :
    ((dirtyCalls bare).map RbCall.node).Perm
    (((inorder bare).filter RbItem.dirty).map RbItem.node) := by
  induction bare with
  | nil => exact .nil
  | node item left right leftIh rightIh =>
    have clean := clean_of_root dirtyOk
    obtain ⟨_, leftOk, rightOk⟩ := dirtyOk
    cases isDirty : item.dirty with
    | false =>
      rw [List.filter_eq_nil_iff.mpr]
      · simp [dirtyCalls, isDirty]
      · simpa using clean isDirty
    | true =>
      simp only [dirtyCalls, isDirty, if_true, inorder, List.filter_append, List.filter_cons,
        List.map_append, List.map_cons, List.map_nil, List.append_assoc]
      refine (leftIh leftOk).append ((List.perm_append_singleton _ _).trans ?_)
      exact (rightIh rightOk).cons _

theorem mem_dirtyCalls
    (dirtyOk : Everywhere (DirtyOk useDirty) bare) : n ∈ (dirtyCalls bare).map RbCall.node ↔
      ∃ item ∈ inorder bare, item.dirty = true ∧ item.node = n := by
  rw [(dirtyCalls_nodes dirtyOk).mem_iff]
  simp [and_assoc]

theorem RbLinked.dirtyCalls_children : ∀ {shape : RbShape Payload} {above : Nat},
    RbLinked tree above shape → ∀ call ∈ dirtyCalls (plain shape),
      call.left = tree.child .left call.node ∧ call.right = tree.child .right call.node := by
  intro shape
  induction shape with
  | nil => simp [dirtyCalls]
  | node whole left right leftIh rightIh =>
    intro above linked call inside
    obtain ⟨_, _, leftChild, rightChild, inLeft, inRight⟩ := linked
    have calls : dirtyCalls (plain (.node whole left right)) = if whole.1.dirty then
        dirtyCalls (plain left) ++ dirtyCalls (plain right) ++
          [⟨whole.1.node, bareNode (plain left), bareNode (plain right)⟩] else [] := rfl
    rw [calls] at inside
    split_ifs at inside
    · simp only [List.mem_append, List.mem_singleton] at inside
      rcases inside with (below | below) | rfl
      · exact leftIh inLeft call below
      · exact rightIh inRight call below
      · exact ⟨by simpa using leftChild.symm, by simpa using rightChild.symm⟩
    · simp at inside

theorem append_eq_append_cons {Item : Type} {first second earlier later : List Item} {item : Item}
    (same : first ++ second = earlier ++ item :: later) :
    (∃ rest, first = earlier ++ item :: rest) ∨
      ∃ front, earlier = first ++ front ∧ second = front ++ item :: later := by
  rcases List.append_eq_append_iff.mp same with ⟨front, isEarlier, isSecond⟩ | ⟨rest, isFirst, isItem⟩
  · exact .inr ⟨front, isEarlier, isSecond⟩
  · cases rest with
    | nil => exact .inr ⟨[], by simpa using isFirst.symm, by simpa using isItem.symm⟩
    | cons other rest =>
      obtain ⟨rfl, _⟩ := List.cons.inj isItem
      exact .inl ⟨rest, isFirst⟩

theorem RbLinked.root_called {above : Nat} (linked : RbLinked tree above shape)
    (dirtyOk : Everywhere (DirtyOk useDirty) (plain shape)) (proper : rootNode shape ≠ nilNode)
    (isDirty : tree.dirty (rootNode shape) = true) :
    rootNode shape ∈ (dirtyCalls (plain shape)).map RbCall.node := by
  cases shape with
  | nil => exact absurd rfl proper
  | node whole left right =>
    obtain ⟨⟨_, dirty, _⟩, _⟩ := linked
    refine (mem_dirtyCalls dirtyOk).mpr ⟨whole.1, ?_, dirty.symm.trans isDirty, rfl⟩
    rw [show plain (.node whole left right) = join .left (plain left) whole.1 (plain right) from rfl,
      mem_inorder_join]
    exact .inl rfl

theorem RbLinked.dirtyCalls_below : ∀ {shape : RbShape Payload} {above : Nat},
    RbLinked tree above shape → Everywhere (DirtyOk useDirty) (plain shape) →
    ∀ earlier call later, dirtyCalls (plain shape) = earlier ++ call :: later → ∀ side,
      tree.child side call.node ≠ nilNode → tree.dirty (tree.child side call.node) = true →
      tree.child side call.node ∈ earlier.map RbCall.node := by
  intro shape
  induction shape with
  | nil => simp [dirtyCalls]
  | node whole left right leftIh rightIh =>
    intro above linked dirtyOk earlier call later same side proper isDirty
    obtain ⟨_, _, leftChild, rightChild, inLeft, inRight⟩ := linked
    obtain ⟨_, leftOk, rightOk⟩ := dirtyOk
    have calls : dirtyCalls (plain (.node whole left right)) = if whole.1.dirty then
        dirtyCalls (plain left) ++ dirtyCalls (plain right) ++
          [⟨whole.1.node, bareNode (plain left), bareNode (plain right)⟩] else [] := rfl
    rw [calls] at same
    split_ifs at same
    · rcases append_eq_append_cons same with ⟨rest, children⟩ | ⟨front, rfl, top⟩
      · rcases append_eq_append_cons children with ⟨rest, inside⟩ | ⟨front, rfl, inside⟩
        · exact leftIh inLeft leftOk _ _ _ inside side proper isDirty
        · rw [List.map_append, List.mem_append]
          exact .inr (rightIh inRight rightOk _ _ _ inside side proper isDirty)
      · cases front with
        | cons other front => simp at top
        | nil =>
          obtain ⟨rfl, _⟩ := List.cons.inj top
          rw [List.append_nil, List.map_append, List.mem_append]
          cases side with
          | left =>
            simp only [leftChild] at proper isDirty ⊢
            exact .inl (inLeft.root_called leftOk proper isDirty)
          | right =>
            simp only [rightChild] at proper isDirty ⊢
            exact .inr (inRight.root_called rightOk proper isDirty)
    · simp at same

theorem RbtreeGood.callsDirty (good : RbtreeGood tree shape) :
    CallsDirty tree (dirtyCalls (plain shape)) := by
  have represents := good.represents
  have fields := represents.linked.fields_of_mem
  refine ⟨?_, fun n => ?_, represents.linked.dirtyCalls_children,
    represents.linked.dirtyCalls_below good.dirtyOk⟩
  · rw [(dirtyCalls_nodes good.dirtyOk).nodup_iff]
    have nodup := represents.nodup
    rw [names_eq_map, Multiset.coe_nodup] at nodup
    exact nodup.sublist (List.filter_sublist.map _)
  · rw [mem_dirtyCalls good.dirtyOk, represents.inTree_iff, mem_names]
    constructor
    · rintro ⟨item, inside, isDirty, rfl⟩
      exact ⟨⟨item, inside, rfl⟩, (fields item inside).2.trans isDirty⟩
    · rintro ⟨⟨item, inside, rfl⟩, isDirty⟩
      exact ⟨item, inside, (fields item inside).2.symm.trans isDirty, rfl⟩

theorem RbtreeGood.cleaned_clean (good : RbtreeGood tree shape)
    (inTree : InTree (tree.cleaned (names shape)) n) :
    (tree.cleaned (names shape)).dirty n = false := by
  have inside := good.walkDirty.2.represents.names_of_inTree inTree
  rw [names_cleanShape] at inside
  simp [Rbtree.cleaned, inside]

end DirtyNodes

section Aggregates

variable {Payload Aggregate : Type} {tree next : Rbtree Payload} {shape final : RbShape Payload}
  {n : Nat} (combine : Payload → Aggregate → Aggregate → Aggregate) (blank : Aggregate)
variable {payload : Nat → Payload} {calls : List RbCall}

def childAggregate (aggregates : Nat → Aggregate) (node : Nat) : Aggregate :=
  if node = nilNode then blank else aggregates node

def recompute (payload : Nat → Payload) (calls : List RbCall) (aggregates : Nat → Aggregate) :
    Nat → Aggregate :=
  calls.foldl (fun aggregates call => Function.update aggregates call.node
    (combine (payload call.node) (childAggregate blank aggregates call.left)
      (childAggregate blank aggregates call.right))) aggregates

def wholeAggregate (tree : Rbtree Payload) : Nat → Nat → Aggregate
  | 0, _ => blank
  | fuel + 1, node =>
    if node = nilNode then blank
    else combine (tree.payload node) (wholeAggregate tree fuel (tree.child .left node))
      (wholeAggregate tree fuel (tree.child .right node))

def aggregateNext (state : Rbtree Payload × (Nat → Aggregate)) (op : RbOp Payload) :
    Option (Rbtree Payload × (Nat → Aggregate)) := do
  let (next, answer) ← rbtreeStep state.1 op
  match answer with
  | .calls calls => some (next, recompute combine blank next.payload calls state.2)
  | _ => some (next, state.2)

def Combined (counts : RbItem Payload → Prop) (aggregates : Nat → Aggregate) (item : RbItem Payload)
    (left right : BinaryTree (RbItem Payload)) : Prop :=
  counts item → aggregates item.node =
    combine item.payload (childAggregate blank aggregates (bareNode left))
      (childAggregate blank aggregates (bareNode right))

variable {combine blank} {counts : RbItem Payload → Prop} {aggregates later : Nat → Aggregate}
  {bare : BinaryTree (RbItem Payload)}

theorem childAggregate_congr
    (same : ∀ item ∈ inorder bare, later item.node = aggregates item.node) :
    childAggregate blank later (bareNode bare) = childAggregate blank aggregates (bareNode bare) := by
  cases bare with
  | nil => rfl
  | node item left right =>
    simp only [childAggregate, bareNode]
    rw [same item (by simp [inorder])]

theorem Combined.congr {needed : RbItem Payload → Prop}
    (held : Everywhere (Combined combine blank counts aggregates) bare)
    (within : ∀ item ∈ inorder bare, needed item → counts item)
    (same : ∀ item ∈ inorder bare, later item.node = aggregates item.node) :
    Everywhere (Combined combine blank needed later) bare := by
  induction bare with
  | nil => trivial
  | node item left right leftIh rightIh =>
    simp only [inorder, List.mem_append, List.mem_cons] at within same
    obtain ⟨here, inLeft, inRight⟩ := held
    have leftSame : ∀ item ∈ inorder left, later item.node = aggregates item.node :=
      fun item inside => same item (.inl inside)
    have rightSame : ∀ item ∈ inorder right, later item.node = aggregates item.node :=
      fun item inside => same item (.inr (.inr inside))
    refine ⟨fun counted => ?_, leftIh inLeft (fun item inside => within item (.inl inside)) leftSame,
      rightIh inRight (fun item inside => within item (.inr (.inr inside))) rightSame⟩
    rw [same item (.inr (.inl rfl)), childAggregate_congr leftSame, childAggregate_congr rightSame]
    exact here (within item (.inr (.inl rfl)) counted)

theorem recompute_append (payload : Nat → Payload) (calls more : List RbCall)
    (aggregates : Nat → Aggregate) : recompute combine blank payload (calls ++ more) aggregates =
      recompute combine blank payload more (recompute combine blank payload calls aggregates) := by
  simp [recompute]

theorem recompute_outside (outside : n ∉ calls.map RbCall.node) :
    recompute combine blank payload calls aggregates n = aggregates n := by
  induction calls generalizing aggregates with
  | nil => rfl
  | cons call calls ih =>
    simp only [List.map_cons, List.mem_cons, not_or] at outside
    have first : recompute combine blank payload (call :: calls) aggregates =
        recompute combine blank payload calls (recompute combine blank payload [call] aggregates) :=
      rfl
    rw [first, ih outside.2]
    exact Function.update_of_ne outside.1 _ _

theorem dirtyCalls_subset (bare : BinaryTree (RbItem Payload)) :
    ∀ n ∈ (dirtyCalls bare).map RbCall.node, n ∈ (inorder bare).map RbItem.node := by
  induction bare with
  | nil => simp [dirtyCalls]
  | node item left right leftIh rightIh =>
    intro n inside
    simp only [dirtyCalls] at inside
    split_ifs at inside
    · simp only [List.map_append, List.map_cons, List.map_nil, List.mem_append,
        List.mem_singleton] at inside
      simp only [inorder, List.map_append, List.map_cons, List.mem_append, List.mem_cons]
      rcases inside with (below | below) | here
      · exact .inl (leftIh n below)
      · exact .inr (.inr (rightIh n below))
      · exact .inr (.inl here)
    · simp at inside

theorem recompute_combined {useDirty : Bool} :
    ∀ {bare : BinaryTree (RbItem Payload)} {aggregates : Nat → Aggregate},
      Everywhere (DirtyOk useDirty) bare → ((inorder bare).map RbItem.node).Nodup →
      (∀ item ∈ inorder bare, payload item.node = item.payload) →
      Everywhere (Combined combine blank (fun item => item.dirty = false) aggregates) bare →
      Everywhere (Combined combine blank (fun _ => True)
        (recompute combine blank payload (dirtyCalls bare) aggregates)) bare := by
  intro bare
  induction bare with
  | nil => exact fun _ _ _ _ => trivial
  | node item left right leftIh rightIh =>
    intro aggregates dirtyOk nodup known held
    cases isDirty : item.dirty with
    | false =>
      have clean := clean_of_root dirtyOk isDirty
      simp only [dirtyCalls, isDirty, Bool.false_eq_true, if_false]
      exact Combined.congr held (fun item inside _ => clean item inside) fun _ _ => rfl
    | true =>
      obtain ⟨_, leftOk, rightOk⟩ := dirtyOk
      obtain ⟨_, inLeft, inRight⟩ := held
      simp only [inorder, List.map_append, List.map_cons, List.nodup_append, List.nodup_cons,
        List.mem_cons] at nodup
      obtain ⟨leftNodup, ⟨notRight, rightNodup⟩, apart⟩ := nodup
      simp only [inorder, List.mem_append, List.mem_cons] at known
      have leftKnown := fun item inside => known item (.inl inside)
      have rightKnown := fun item inside => known item (.inr (.inr inside))
      generalize firstEq : recompute combine blank payload (dirtyCalls left) aggregates = first
      generalize secondEq : recompute combine blank payload (dirtyCalls right) first = second
      have leftDone := leftIh leftOk leftNodup leftKnown inLeft
      rw [firstEq] at leftDone
      have firstSame : ∀ item ∈ inorder right, first item.node = aggregates item.node := by
        intro other inside
        rw [← firstEq]
        refine recompute_outside fun called => ?_
        exact apart _ (dirtyCalls_subset left _ called) _ (.inr (List.mem_map_of_mem inside)) rfl
      have rightDone := rightIh rightOk rightNodup rightKnown
        (Combined.congr inRight (fun _ _ => id) firstSame)
      rw [secondEq] at rightDone
      have secondSame : ∀ item ∈ inorder left, second item.node = first item.node := by
        intro other inside
        rw [← secondEq]
        refine recompute_outside fun called => ?_
        exact apart _ (List.mem_map_of_mem inside) _ (.inr (dirtyCalls_subset right _ called)) rfl
      have calls : dirtyCalls (.node item left right) = dirtyCalls left ++ dirtyCalls right ++
          [⟨item.node, bareNode left, bareNode right⟩] := by
        simp [dirtyCalls, isDirty]
      rw [calls, recompute_append, recompute_append, firstEq, secondEq]
      generalize lastEq : recompute combine blank payload [⟨item.node, bareNode left, bareNode right⟩]
        second = last
      have lastSame : ∀ m, m ≠ item.node → last m = second m := by
        intro m other
        rw [← lastEq]
        exact recompute_outside (by simpa using other)
      have leftSame : ∀ item ∈ inorder left, last item.node = second item.node := by
        intro other inside
        exact lastSame _ (apart _ (List.mem_map_of_mem inside) _ (.inl rfl))
      have rightSame : ∀ item ∈ inorder right, last item.node = second item.node := by
        intro other inside
        refine lastSame _ fun same => notRight ?_
        rw [← same]
        exact List.mem_map_of_mem inside
      refine ⟨fun _ => ?_, ?_, Combined.congr rightDone (fun _ _ => id) rightSame⟩
      · rw [childAggregate_congr leftSame, childAggregate_congr rightSame, ← lastEq]
        simp [recompute, known]
      · refine Combined.congr leftDone (fun _ _ => id) fun other inside => ?_
        rw [leftSame other inside, secondSame other inside]

theorem Combined.clean (shape : RbShape Payload)
    (held : Everywhere (Combined combine blank (fun _ => True) aggregates) (plain shape)) :
    Everywhere (Combined combine blank counts aggregates) (plain (cleanShape shape)) := by
  induction shape with
  | nil => trivial
  | node item left right leftIh rightIh =>
    obtain ⟨here, inLeft, inRight⟩ := everywhere_plain_node.mp held
    refine everywhere_plain_node.mpr ⟨fun _ => ?_, leftIh inLeft, rightIh inRight⟩
    have whole := here trivial
    rw [bareNode_plain, bareNode_plain] at whole
    rw [← cleanShape, ← cleanShape, bareNode_plain, bareNode_plain, rootNode_cleanShape,
      rootNode_cleanShape]
    exact whole

theorem RbLinked.whole_eq : ∀ (fuel : Nat) {shape : RbShape Payload} {above : Nat},
    RbLinked tree above shape → nilNode ∉ names shape → (names shape).card < fuel →
    Everywhere (Combined combine blank (fun _ => True) aggregates) (plain shape) →
    wholeAggregate combine blank tree fuel (rootNode shape) =
      childAggregate blank aggregates (rootNode shape) := by
  intro fuel
  induction fuel with
  | zero => exact fun _ _ enough _ => absurd enough (Nat.not_lt_zero _)
  | succ fuel ih =>
    intro shape above linked absent enough held
    cases shape with
    | nil => simp [wholeAggregate, childAggregate]
    | node whole left right =>
      obtain ⟨⟨payload, _⟩, _, leftChild, rightChild, inLeft, inRight⟩ := linked
      obtain ⟨here, leftHeld, rightHeld⟩ := everywhere_plain_node.mp held
      have apart : names (.node whole left right) =
          whole.1.node ::ₘ (names left + names right) := names_join .left left right whole
      rw [apart] at absent enough
      simp only [Multiset.mem_cons, Multiset.mem_add, not_or, Multiset.card_cons,
        Multiset.card_add] at absent enough
      obtain ⟨proper, notLeft, notRight⟩ := absent
      have value := here trivial
      rw [bareNode_plain, bareNode_plain] at value
      have root : rootNode (.node whole left right) = whole.1.node := rfl
      have there : childAggregate blank aggregates whole.1.node = aggregates whole.1.node :=
        if_neg (Ne.symm proper)
      rw [root, there, wholeAggregate, if_neg (Ne.symm proper), leftChild, rightChild,
        ih inLeft notLeft (by omega) leftHeld, ih inRight notRight (by omega) rightHeld, payload]
      exact value.symm

theorem RbtreeGood.recomputed (good : RbtreeGood tree shape)
    (held : Everywhere (Combined combine blank (fun item => item.dirty = false) aggregates)
      (plain shape)) :
    Everywhere (Combined combine blank (fun _ => True)
      (recompute combine blank tree.payload (dirtyCalls (plain shape)) aggregates))
        (plain shape) := by
  have nodup := good.represents.nodup
  rw [names_eq_map, Multiset.coe_nodup] at nodup
  refine recompute_combined good.dirtyOk nodup (fun item inside => ?_) held
  exact (good.represents.linked.fields_of_mem item inside).1

theorem RbtreeGood.walked_whole (good : RbtreeGood tree shape)
    (held : Everywhere (Combined combine blank (fun item => item.dirty = false) aggregates)
      (plain shape))
    (walk : rbtreeWalkDirty tree = some (next, calls)) (inTree : InTree next n) :
    recompute combine blank tree.payload calls aggregates n =
      wholeAggregate combine blank next next.steps n := by
  obtain ⟨walked, nextGood⟩ := good.walkDirty
  cases walk.symm.trans walked
  have represents := nextGood.represents
  have whole : Everywhere (Combined combine blank (fun _ => True)
      (recompute combine blank tree.payload (dirtyCalls (plain shape)) aggregates))
      (plain (cleanShape shape)) := Combined.clean shape (good.recomputed held)
  have inside := represents.names_of_inTree inTree
  have enough := represents.card_le
  have absent := represents.nil_notMem
  have proper := represents.ne_nil inside
  obtain ⟨path, item, red, left, right, same, rfl⟩ := exists_focus inside
  rw [same] at represents whole enough absent
  simp only [names_plug, Multiset.mem_add, not_or, Multiset.card_add] at enough absent
  rw [plain_plug] at whole
  have value := represents.focus.whole_eq (tree.cleaned (names shape)).steps absent.1
    (by simp only [Rbtree.steps]; omega) whole.of_plug
  exact (value.trans (if_neg proper)).symm

theorem RbtreeGood.aggregated {op : RbOp Payload} {answer : RbAnswer} (good : RbtreeGood tree shape)
    (uses : tree.useDirty = true) (step : rbtreeStep tree op = some (next, answer))
    (effect : RbtreeEffect tree shape op answer next final)
    (held : Everywhere (Combined combine blank (fun item => item.dirty = false) aggregates)
      (plain shape)) :
    ∃ later, aggregateNext combine blank (tree, aggregates) op = some (next, later) ∧
      Everywhere (Combined combine blank (fun item => item.dirty = false) later) (plain final) := by
  have touched : ∀ (item : RbItem Payload) left right,
      Combined combine blank (fun item => item.dirty = false) aggregates (item.touch true)
        left right := by
    intro item left right clean
    simp at clean
  cases effect with
  | newNode n value => exact ⟨aggregates, by simp [aggregateNext, step], held⟩
  | freeNode n garbage => exact ⟨aggregates, by simp [aggregateNext, step], held⟩
  | duplicate unique equal => exact ⟨aggregates, by simp [aggregateNext, step], held⟩
  | insertNode same place payload attached =>
    subst same
    refine ⟨aggregates, by simp [aggregateNext, step], ?_⟩
    exact attached.everywhere _ uses touched held
  | insertNodeBefore same isOther place payload attached =>
    subst same
    refine ⟨aggregates, by simp [aggregateNext, step], ?_⟩
    exact attached.everywhere _ uses touched held
  | insertNodeAfter same isOther place payload attached =>
    subst same
    refine ⟨aggregates, by simp [aggregateNext, step], ?_⟩
    exact attached.everywhere _ uses touched held
  | removeNode garbage payload removed =>
    refine ⟨aggregates, by simp [aggregateNext, step], ?_⟩
    exact removed.everywhere _ uses touched held
  | walkDirty =>
    refine ⟨_, by simp [aggregateNext, step]; rfl, ?_⟩
    exact Combined.clean shape (good.recomputed held)

theorem RbtreeGood.aggregateRun : ∀ (ops : List (RbOp Payload)) {tree : Rbtree Payload}
    {shape : RbShape Payload} {aggregates : Nat → Aggregate}, RbtreeGood tree shape →
    tree.useDirty = true → PermittedFrom rbtreeNext rbtreePermits tree ops →
    Everywhere (Combined combine blank (fun item => item.dirty = false) aggregates) (plain shape) →
    ∃ last final later, ops.foldlM (aggregateNext combine blank) (tree, aggregates) =
      some (last, later) ∧
      ops.foldlM rbtreeNext tree = some last ∧ RbtreeGood last final ∧
      Everywhere (Combined combine blank (fun item => item.dirty = false) later) (plain final) := by
  intro ops
  induction ops with
  | nil => exact fun good _ _ held => ⟨_, _, _, rfl, rfl, good, held⟩
  | cons op ops ih =>
    rintro tree shape aggregates good uses ⟨permits, rest⟩ held
    obtain ⟨next, answer, final, step, nextGood, options, effect⟩ := good.step permits
    have stepped : rbtreeNext tree op = some next := by simp [rbtreeNext, step]
    have nextUses := options.useDirty.trans uses
    obtain ⟨middle, aggregated, nextHeld⟩ := good.aggregated uses step effect held
    obtain ⟨last, lastShape, later, whole, run, lastGood, lastHeld⟩ :=
      ih nextGood nextUses (rest next stepped) nextHeld
    refine ⟨last, lastShape, later, ?_, ?_, lastGood, lastHeld⟩
    · rw [List.foldlM_cons, aggregated]
      exact whole
    · rw [List.foldlM_cons, stepped]
      exact run

/-- At any time all above a dirty node are dirty; a walk then calls for exactly the dirty
nodes, and to recompute their aggregates is as good as to recompute all. -/
theorem rbtreeRun_walksDirty {memory : Rbtree Payload} {allowDuplicates useMarker : Bool}
    {ops : List (RbOp Payload)}
    (permitted : PermittedFrom rbtreeNext rbtreePermits
      (rbtreeInit memory allowDuplicates true useMarker) ops) :
    ∃ tree next calls,
      ops.foldlM rbtreeNext (rbtreeInit memory allowDuplicates true useMarker) = some tree ∧
      (∀ n m, InTree tree n → tree.dirty n = true → Ancestor tree m n → tree.dirty m = true) ∧
      rbtreeStep tree .walkDirty = some (next, .calls calls) ∧ CallsDirty tree calls ∧
      (∀ n, InTree next n ↔ InTree tree n) ∧ (∀ n, InTree next n → next.dirty n = false) ∧
      ∀ {Aggregate : Type} (combine : Payload → Aggregate → Aggregate → Aggregate) (blank : Aggregate)
        (aggregates : Nat → Aggregate), ∃ before,
        ops.foldlM (aggregateNext combine blank)
          (rbtreeInit memory allowDuplicates true useMarker, aggregates) = some (tree, before) ∧
        ∀ n, InTree next n → recompute combine blank tree.payload calls before n =
          wholeAggregate combine blank next next.steps n := by
  have start := rbtreeInit_good memory allowDuplicates true useMarker
  obtain ⟨tree, shape, run, good, options, _⟩ := RbtreeGood.run (fun _ => True) (fun _ => True)
    (fun _ _ _ _ => trivial) ops (fun _ _ => trivial) start trivial permitted
  obtain ⟨walk, nextGood⟩ := good.walkDirty
  refine ⟨tree, tree.cleaned (names shape), dirtyCalls (plain shape), run,
    fun n m inTree isDirty above => ?_, by
      simp [rbtreeStep, walk], good.callsDirty, fun n => ?_, fun n => good.cleaned_clean, ?_⟩
  · exact (good.dirty_ancestor (good.represents.names_of_inTree inTree) isDirty above).2
  · rw [nextGood.represents.inTree_iff, good.represents.inTree_iff, names_cleanShape]
  · intro Aggregate combine blank aggregates
    obtain ⟨same, sameShape, before, aggregated, sameRun, sameGood, held⟩ :=
      start.aggregateRun ops rfl permitted
        (show Everywhere (Combined combine blank _ aggregates) (plain .nil) from trivial)
    cases run.symm.trans sameRun
    exact ⟨before, aggregated, fun n => sameGood.walked_whole held walk⟩

theorem rbtreeRun_walksDirty_inserted :
    ∃ tree next calls, [.newNode 1 10, .insertNode (· - ·) 1, .walkDirty, .newNode 2 30,
        .insertNode (· - ·) 2, .newNode 3 20, .insertNode (· - ·) 3].foldlM rbtreeNext
        (rbtreeInit (blankMemory (0 : Int)) false true false) = some tree ∧
      rbtreeStep tree .walkDirty = some (next, .calls calls) ∧ CallsDirty tree calls := by
  obtain ⟨tree, next, calls, run, _, step, dirty, _⟩ :=
    @rbtreeRun_walksDirty Int (blankMemory 0) false
    false [.newNode 1 10, .insertNode (· - ·) 1, .walkDirty, .newNode 2 30, .insertNode (· - ·) 2,
      .newNode 3 20, .insertNode (· - ·) 3] (by decide)
  exact ⟨tree, next, calls, run, step, dirty⟩

end Aggregates

end MulleCore
