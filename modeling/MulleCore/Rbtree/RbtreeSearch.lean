import MulleCore.Library.Traversal
import MulleCore.Rbtree.RbtreeOrder

/-!
Searching a tree, and going from node to node in order. With `mulle_rbtree_option_use_extra` the
extra bytes of a node are its payload.
-/

namespace MulleCore

open Library

section Functions

variable {Payload : Type} (tree : Rbtree Payload)

def rbtreeClimb (side : Side) : Nat → Nat → Option Nat
  | 0, _ => none
  | fuel + 1, node =>
    if tree.parent node ≠ nilNode ∧ node = tree.child side (tree.parent node) then
      rbtreeClimb side fuel (tree.parent node)
    else some (tree.parent node)

def rbtreeNeighbour (side : Side) (node : Nat) : Option Nat :=
  if tree.child side node ≠ nilNode then
    rbtreeOutermost tree side.flip tree.steps (tree.child side node)
  else rbtreeClimb tree side tree.steps node

def rbtreePreviousNode (node : Nat) : Option Nat := rbtreeNeighbour tree .left node

def rbtreeFindLeftmostNode : Option Nat := rbtreeOutermost tree .left tree.steps tree.root

def rbtreeFindRightmostNode : Option Nat := rbtreeOutermost tree .right tree.steps tree.root

variable (comp : Payload → Payload → Int) (key : Payload)

def rbtreeFindNodeFrom : Nat → Nat → Option Nat
  | 0, _ => none
  | fuel + 1, p =>
    if p = nilNode then some p
    else
      let r := comp key (tree.payload p)
      if r = 0 then some p
      else rbtreeFindNodeFrom fuel (if r < 0 then tree.child .left p else tree.child .right p)

def rbtreeFindNode : Option Nat := rbtreeFindNodeFrom tree comp key tree.steps tree.root

def rbtreeFindNodeEqualOrGreaterFrom : Nat → Nat → Option Nat
  | 0, _ => none
  | fuel + 1, p =>
    if p = nilNode then some p
    else
      let r := comp key (tree.payload p)
      if r = 0 then some p
      else if r < 0 then
        if tree.child .left p = nilNode then some p
        else rbtreeFindNodeEqualOrGreaterFrom fuel (tree.child .left p)
      else if tree.child .right p = nilNode then rbtreeClimb tree .right tree.steps p
      else rbtreeFindNodeEqualOrGreaterFrom fuel (tree.child .right p)

def rbtreeFindNodeEqualOrGreater : Option Nat :=
  rbtreeFindNodeEqualOrGreaterFrom tree comp key tree.steps tree.root

end Functions

section RbtreeNeighbours

variable {Payload : Type} {tree : Rbtree Payload} {shape : RbShape Payload} {path : RbPath Payload}
variable {side : Side} {near far : RbShape Payload} {item : RbItem Payload} {red : Bool}

theorem rbtreeBubbleUp_eq (fuel node : Nat) :
    rbtreeBubbleUp tree fuel node = rbtreeClimb tree .right fuel node := by
  induction fuel generalizing node with
  | zero => rfl
  | succ fuel ih => simp only [rbtreeBubbleUp, rbtreeClimb, ih]

theorem rbtreeNextNode_eq (node : Nat) :
    rbtreeNextNode tree node = rbtreeNeighbour tree .right node := by
  simp only [rbtreeNextNode, rbtreeNeighbour, rbtreeBubbleUp_eq, Side.flip]

def firstNode (items : List (RbItem Payload × Bool)) : Nat :=
  (items.head?.map fun item => item.1.node).getD nilNode

@[simp] theorem firstNode_nil : firstNode ([] : List (RbItem Payload × Bool)) = nilNode := rfl

@[simp] theorem firstNode_cons (item : RbItem Payload × Bool) (items : List (RbItem Payload × Bool)) :
    firstNode (item :: items) = item.1.node := rfl

theorem Hangs.climb : ∀ {path : RbPath Payload} {focus fuel : Nat}, Hangs tree path focus →
    focus ≠ nilNode →
    tree.parent focus = topNode path → nilNode ∉ pathNames path → focus ∉ pathNames path →
    (pathNames path).Nodup →
    path.length < fuel → rbtreeClimb tree side fuel focus = some (firstNode (beyond side path)) := by
  intro path
  induction path with
  | nil =>
    intro focus fuel _ _ parent _ _ _ enough
    cases fuel with
    | zero => exact absurd enough (Nat.not_lt_zero _)
    | succ fuel => simp [rbtreeClimb, parent]
  | cons frame path ih =>
    intro focus fuel hangs proper parent absent apart distinct enough
    obtain ⟨turn, ⟨item, red⟩, sibling⟩ := frame
    simp only [pathNames_cons, Multiset.mem_cons, Multiset.mem_add, not_or, Multiset.nodup_cons,
      Multiset.nodup_add] at absent apart distinct
    obtain ⟨_, above, near, far, _, rest⟩ := hangs
    rw [topNode_cons] at parent
    cases fuel with
    | zero => exact absurd enough (Nat.not_lt_zero _)
    | succ fuel =>
      rw [rbtreeClimb, parent]
      rcases Side.eq_or_flip side turn with rfl | rfl
      · rw [if_pos ⟨Ne.symm absent.1, near.symm⟩, beyond_cons_same]
        exact ih rest (Ne.symm absent.1) above absent.2.2 distinct.1.2 distinct.2.2.1
          (by simpa using enough)
      · have other : focus ≠ tree.child side item.node := by
          rw [Side.flip_flip] at far
          rw [far]
          intro same
          by_cases empty : sibling = .nil
          · exact proper (by rw [same, empty, rootNode_nil])
          · exact apart.2.1 (same ▸ rootNode_mem empty)
        rw [if_neg fun both => other both.2, beyond_cons_flip, firstNode_cons]

theorem RbLinked.outermost_first {above fuel : Nat} (linked : RbLinked tree above shape)
    (absent : nilNode ∉ names shape) (nonempty : shape ≠ .nil) (enough : (names shape).card ≤ fuel) :
    rbtreeOutermost tree side.flip fuel (rootNode shape) =
      some (firstNode (inorderTo side shape)) := by
  obtain ⟨way, item, red, far, rfl, turned, found⟩ :=
    linked.outermost side.flip fuel absent nonempty enough
  rw [found, inorderTo_plug, beyond_of_turned turned]
  simp

theorem Represents.notMem_focus
    (represents : Represents tree (plug (join side near (item, red) far) path)) :
    nilNode ∉ names near ∧ nilNode ∉ pathNames path ∧ item.node ≠ nilNode ∧
    item.node ∉ pathNames path ∧
      (pathNames path).Nodup := by
  have absent := represents.nil_notMem
  have distinct := represents.nodup
  simp only [names_plug, names_join, Multiset.mem_add, Multiset.mem_cons, not_or, Multiset.nodup_add,
    Multiset.disjoint_left] at absent distinct
  exact ⟨absent.1.2.1, absent.2, Ne.symm absent.1.1, distinct.2.2 (.inl rfl), distinct.2.1⟩

theorem Represents.climb {turn : Side}
    (represents : Represents tree (plug (join turn near (item, red) far) path)) :
    rbtreeClimb tree side tree.steps item.node = some (firstNode (beyond side path)) := by
  obtain ⟨_, pathAbsent, proper, apart, distinct⟩ := represents.notMem_focus
  have hangs := represents.hangs
  have parent := (rbLinked_join.mp represents.focus).2.1
  rw [rootNode_join] at hangs
  exact hangs.climb proper parent pathAbsent apart distinct represents.length_lt

theorem Represents.neighbour
    (represents : Represents tree (plug (join side near (item, red) far) path)) :
    rbtreeNeighbour tree side item.node =
      some (firstNode (inorderTo side near ++ beyond side path)) := by
  obtain ⟨absent, _⟩ := represents.notMem_focus
  obtain ⟨_, _, nearChild, _, inNear, _⟩ := rbLinked_join.mp represents.focus
  rw [rbtreeNeighbour, nearChild]
  by_cases empty : near = .nil
  · subst empty
    rw [if_neg (fun other => other rfl), represents.climb]
    simp
  · have proper : rootNode near ≠ nilNode := fun isNil => absent (isNil ▸ rootNode_mem empty)
    have enough : (names near).card ≤ tree.steps := by
      have card := represents.card_le
      simp only [names_plug, names_join, Multiset.card_add, Multiset.card_cons] at card
      simp only [Rbtree.steps]
      omega
    rw [if_pos proper, inNear.outermost_first absent empty enough]
    obtain ⟨first, rest, whole⟩ := List.exists_cons_of_ne_nil (l := inorderTo side near) (by
      cases near with
      | nil => exact absurd rfl empty
      | node whole left right =>
        cases side <;> simp [inorderTo, facing, inorder])
    rw [whole, firstNode_cons, List.cons_append, firstNode_cons]

def nodesTo (side : Side) (shape : RbShape Payload) : List Nat :=
  (inorderTo side shape).map fun item => item.1.node

theorem mem_nodesTo {n : Nat} : n ∈ nodesTo side shape ↔ n ∈ names shape := by
  simp [nodesTo, inorderTo, names]

section

variable (represents : Represents tree shape)
include represents

theorem Represents.nodesTo_nodup (side : Side) : (nodesTo side shape).Nodup := by
  rw [nodesTo, inorderTo, facing_map]
  exact facing_nodup (Multiset.coe_nodup.mp represents.nodup)

theorem Represents.stepsThrough (side : Side) :
    StepsThrough (rbtreeNeighbour tree side) nilNode (nodesTo side shape) := by
  intro earlier node later whole
  have distinct := represents.nodesTo_nodup side
  have inside : node ∈ names shape := mem_nodesTo.mp (by rw [whole]; simp)
  obtain ⟨path, item, red, left, right, rfl, rfl⟩ := exists_focus inside
  obtain ⟨near, far, same⟩ := exists_join side (item, red) left right
  rw [same] at represents whole distinct
  have parts : nodesTo side (plug (join side near (item, red) far) path) =
      (((beyond side.flip path).reverse ++ inorderTo side far).map fun item => item.1.node) ++
        item.node :: (inorderTo side near ++ beyond side path).map fun item => item.1.node := by
    simp [nodesTo, inorderTo_plug]
  rw [parts] at whole distinct
  have alone := List.nodup_cons.mp (List.nodup_middle.mp distinct)
  obtain ⟨_, _, rest⟩ := (List.append_cons_inj_of_notMem
    (fun inside => alone.1 (List.mem_append_left _ inside))
    fun inside => alone.1 (List.mem_append_right _ inside)).mp whole
  rw [represents.neighbour, ← rest, List.head?_map, firstNode]

theorem Represents.nodesTo_right : nodesTo .right shape = rbtreeInorder tree := by
  rw [represents.inorder_eq, inorder_plain, List.map_map]
  rfl

theorem Represents.nodesTo_left :
    nodesTo .left shape = (rbtreeInorder tree).reverse := by
  rw [← represents.nodesTo_right, nodesTo, nodesTo, ← List.map_reverse]
  rfl

theorem Represents.visits (nonempty : shape ≠ .nil) (side : Side) :
    ∃ first, rbtreeOutermost tree side.flip tree.steps tree.root = some first ∧
      Library.visits (rbtreeNeighbour tree side) nilNode tree.steps first =
        some (nodesTo side shape) := by
  have card := represents.card_le
  have absent := represents.nil_notMem
  have outermost := @RbLinked.outermost_first _ tree shape side nilNode tree.steps represents.linked
    absent nonempty (card.trans (Nat.le_succ _))
  rw [← represents.root] at outermost
  refine ⟨_, outermost, ?_⟩
  have length : (nodesTo side shape).length = (names shape).card := by
    simp [nodesTo, inorderTo, names]
  have walked := (represents.stepsThrough side).visits_from (mt mem_nodesTo.mp absent) tree.steps []
    (nodesTo side shape) rfl (by simp only [Rbtree.steps]; omega)
  rw [nodesTo, List.head?_map] at walked
  exact walked

end

end RbtreeNeighbours

structure RbtreeWalks {Payload : Type} (tree : Rbtree Payload) : Prop where
  distinct : (rbtreeInorder tree).Nodup
  upward : rbtreeInorder tree ≠ [] → ∃ first, rbtreeFindLeftmostNode tree = some first ∧
    visits (rbtreeNextNode tree) nilNode tree.steps first = some (rbtreeInorder tree)
  downward : rbtreeInorder tree ≠ [] → ∃ last, rbtreeFindRightmostNode tree = some last ∧
    visits (rbtreePreviousNode tree) nilNode tree.steps last = some (rbtreeInorder tree).reverse
  next : ∀ node ∈ rbtreeInorder tree, ∃ next, rbtreeNextNode tree node = some next ∧
    (next ≠ nilNode → next ∈ rbtreeInorder tree ∧ rbtreePreviousNode tree next = some node)
  previous : ∀ node ∈ rbtreeInorder tree, ∃ previous, rbtreePreviousNode tree node = some previous ∧
    (previous ≠ nilNode → previous ∈ rbtreeInorder tree ∧ rbtreeNextNode tree previous = some node)

structure RbtreeSearches {Payload : Type} (tree : Rbtree Payload) (comp : Payload → Payload → Int)
    (key : Payload) : Prop where
  findNode : ∃ found, rbtreeFindNode tree comp key = some found ∧
    ((∃ entry ∈ rbtreeEntries tree, found = entry.1 ∧ comp key entry.2 = 0) ∨
      (found = nilNode ∧ ∀ entry ∈ rbtreeEntries tree, comp key entry.2 ≠ 0))
  findNodeEqualOrGreater : ∃ found, rbtreeFindNodeEqualOrGreater tree comp key = some found ∧
    ((∃ entry ∈ rbtreeEntries tree, found = entry.1 ∧ comp key entry.2 = 0) ∨
      ((∀ entry ∈ rbtreeEntries tree, comp key entry.2 ≠ 0) ∧ ∃ entry ∈ rbtreeEntries tree,
        found = entry.1 ∧
        comp key entry.2 < 0 ∧ ∀ other ∈ rbtreeEntries tree, comp key other.2 < 0 →
        comp entry.2 other.2 ≤ 0) ∨
      (found = nilNode ∧ ∀ entry ∈ rbtreeEntries tree, 0 < comp key entry.2))

section RbtreeSearching

variable {Payload : Type} {tree : Rbtree Payload} {shape : RbShape Payload}
  {comp : Payload → Payload → Int} {key : Payload}

theorem Represents.walks (represents : Represents tree shape) : RbtreeWalks tree := by
  have right := represents.nodesTo_right
  have left := represents.nodesTo_left
  have forth := represents.stepsThrough .right
  have back := represents.stepsThrough .left
  have sameNext : rbtreeNextNode tree = rbtreeNeighbour tree .right := funext rbtreeNextNode_eq
  have nonempty : rbtreeInorder tree ≠ [] → shape ≠ .nil := by
    rintro some rfl
    exact some (by rw [← right]; rfl)
  rw [right] at forth
  rw [left] at back
  constructor
  · rw [← right]
    exact represents.nodesTo_nodup .right
  · intro some
    have visited := represents.visits (nonempty some) .right
    rw [right, ← sameNext] at visited
    exact visited
  · intro some
    have visited := represents.visits (nonempty some) .left
    rw [left] at visited
    exact visited
  · intro node inside
    obtain ⟨earlier, later, whole⟩ := List.append_of_mem inside
    have stepped := forth earlier node later whole
    rw [sameNext]
    exact ⟨_, stepped, forth.back back inside stepped⟩
  · intro node inside
    have reversed : node ∈ (rbtreeInorder tree).reverse := List.mem_reverse.mpr inside
    obtain ⟨earlier, later, whole⟩ := List.append_of_mem reversed
    have stepped := back earlier node later whole
    rw [sameNext]
    refine ⟨_, stepped, fun proper => ?_⟩
    have forthTwice : StepsThrough (rbtreeNeighbour tree .right) nilNode
        (rbtreeInorder tree).reverse.reverse := by
      rw [List.reverse_reverse]
      exact forth
    have undone := back.back forthTwice reversed stepped proper
    exact ⟨List.mem_reverse.mp undone.1, undone.2⟩

theorem Represents.search : ∀ (fuel : Nat) {focus : RbShape Payload} {path : RbPath Payload},
    Represents tree (plug focus path) → focus ≠ .nil → (names focus).card < fuel →
    Leads comp RbItem.payload key (plainPath path) →
    (∀ frame ∈ plainPath path, comp key frame.item.payload ≠ 0) →
    (∃ item ∈ inorder (plain (plug focus path)), comp key item.payload = 0 ∧
      rbtreeFindNodeFrom tree comp key fuel (rootNode focus) = some item.node ∧
      rbtreeFindNodeEqualOrGreaterFrom tree comp key fuel (rootNode focus) = some item.node) ∨
    ∃ way : RbPath Payload, plug .nil way = plug focus path ∧
      Leads comp RbItem.payload key (plainPath way) ∧
      (∀ frame ∈ plainPath way, comp key frame.item.payload ≠ 0) ∧
      rbtreeFindNodeFrom tree comp key fuel (rootNode focus) = some nilNode ∧
      rbtreeFindNodeEqualOrGreaterFrom tree comp key fuel (rootNode focus) =
        some (firstNode (after way)) := by
  intro fuel
  induction fuel with
  | zero => exact fun _ _ enough => absurd enough (Nat.not_lt_zero _)
  | succ fuel ih =>
    intro focus path represents nonempty enough leads differs
    cases focus with
    | nil => exact absurd rfl nonempty
    | node whole left right =>
      generalize sideEq : sideOf (comp key whole.1.payload) = side
      obtain ⟨near, far, same⟩ := exists_join side whole left right
      obtain ⟨item, red⟩ := whole
      rw [same] at represents enough ⊢
      obtain ⟨absent, _, proper, _⟩ := represents.notMem_focus
      obtain ⟨holds, _, nearChild, _, inNear, _⟩ := rbLinked_join.mp represents.focus
      simp only [names_join, Multiset.card_cons, Multiset.card_add] at enough
      have payload : tree.payload item.node = item.payload := holds.1
      rw [rootNode_join, rbtreeFindNodeFrom, rbtreeFindNodeEqualOrGreaterFrom, if_neg proper,
        if_neg proper, payload]
      dsimp only
      by_cases equal : comp key item.payload = 0
      · refine Or.inl ⟨item, ?_, equal, if_pos equal, if_pos equal⟩
        rw [plain_plug, plain_join, inorder_plug, List.mem_append, List.mem_append, mem_inorder_join]
        exact Or.inl (Or.inr (Or.inl rfl))
      · have below : Leads comp RbItem.payload key
            (plainPath (⟨side, (item, red), far⟩ :: path)) := by
          simpa [Leads, ← sideEq] using leads
        have belowDiffers : ∀ frame ∈ plainPath (⟨side, (item, red), far⟩ :: path),
            comp key frame.item.payload ≠ 0 := by
          simpa [equal] using differs
        have next : (if comp key item.payload < 0 then tree.child .left item.node
          else tree.child .right item.node) =
            rootNode near := by
          rw [← nearChild, ← sideEq]
          simp only [sideOf]
          split_ifs <;> rfl
        rw [if_neg equal, if_neg equal, next]
        by_cases empty : near = .nil
        · subst empty
          rw [rootNode_nil] at nearChild
          have left : fuel ≠ 0 := by omega
          obtain ⟨fuel, rfl⟩ := Nat.exists_eq_succ_of_ne_zero left
          refine Or.inr ⟨⟨side, (item, red), far⟩ :: path, rfl, below, belowDiffers, if_pos rfl, ?_⟩
          by_cases less : comp key item.payload < 0
          · obtain rfl : Side.left = side := by rw [← sideEq, sideOf, if_pos less]
            rw [if_pos less, if_pos nearChild]
            rfl
          · obtain rfl : Side.right = side := by rw [← sideEq, sideOf, if_neg less]
            rw [if_neg less, if_pos nearChild]
            exact represents.climb
        · have further : rootNode near ≠ nilNode := fun isNil => absent (isNil ▸ rootNode_mem empty)
          have descends : (if comp key item.payload < 0 then
              if tree.child .left item.node = nilNode then some item.node
              else rbtreeFindNodeEqualOrGreaterFrom tree comp key fuel (tree.child .left item.node)
            else if tree.child .right item.node = nilNode then
              rbtreeClimb tree .right tree.steps item.node
            else rbtreeFindNodeEqualOrGreaterFrom tree comp key fuel (tree.child .right item.node)) =
              rbtreeFindNodeEqualOrGreaterFrom tree comp key fuel (rootNode near) := by
            by_cases less : comp key item.payload < 0
            · rw [if_pos less] at next
              rw [if_pos less, next, if_neg further]
            · rw [if_neg less] at next
              rw [if_neg less, next, if_neg further]
          rw [descends]
          exact @ih near (⟨side, (item, red), far⟩ :: path) represents empty (by omega)
            below belowDiffers

theorem Represents.searches (represents : Represents tree shape) (order : TotalCompare comp)
    (sorted : SortedBy comp (rbtreeEntries tree)) (key : Payload) : RbtreeSearches tree comp key := by
  have entries := represents.entries_eq
  by_cases empty : shape = .nil
  · subst empty
    have none : rbtreeEntries tree = [] := entries
    have root : tree.root = nilNode := represents.root
    constructor
    · exact ⟨nilNode, by rw [rbtreeFindNode, root]; rfl, Or.inr ⟨rfl, by simp [none]⟩⟩
    · exact ⟨nilNode, by rw [rbtreeFindNodeEqualOrGreater, root]; rfl,
        Or.inr (Or.inr ⟨rfl, by simp [none]⟩)⟩
  · have whole : Represents tree (plug shape []) := represents
    rcases @Represents.search Payload tree comp key tree.steps shape [] whole empty
      (Nat.lt_succ_of_le represents.card_le)
      (by simp [Leads, plainPath]) (by simp [plainPath]) with
        ⟨item, inside, equal, find, findGreater⟩ | ⟨way, same, leads, differs, find, findGreater⟩
    · rw [← represents.root] at find findGreater
      have entry : ∃ entry ∈ rbtreeEntries tree, item.node = entry.1 ∧ comp key entry.2 = 0 := by
        rw [entries]
        exact ⟨entryOf item, List.mem_map_of_mem inside, rfl, equal⟩
      exact ⟨⟨_, find, Or.inl entry⟩, ⟨_, findGreater, Or.inl entry⟩⟩
    · rw [← represents.root] at find findGreater
      obtain rfl : plug .nil way = shape := same
      rw [entries_plug_nil, ← List.map_append] at entries
      rw [entries, sortedBy_map] at sorted
      have less := leads.before_le order sorted
      have greater := leads.after_lt order sorted
      have apart := leads.ne order sorted differs
      have first : firstNode (after way) =
          ((after (plainPath way)).head?.map RbItem.node).getD nilNode := by
        rw [after_plainPath, List.head?_map, Option.map_map]
        rfl
      rw [first] at findGreater
      have noEqual : ∀ entry ∈ rbtreeEntries tree, comp key entry.2 ≠ 0 := by
        rw [entries, List.forall_mem_map]
        exact apart
      refine ⟨⟨_, find, Or.inr ⟨rfl, noEqual⟩⟩, _, findGreater, ?_⟩
      rw [List.map_append, List.pairwise_append] at sorted
      right
      cases beyond : after (plainPath way) with
      | nil =>
        right
        refine ⟨rfl, ?_⟩
        rw [entries, beyond, List.append_nil, List.forall_mem_map]
        intro item inside
        have bound := less item inside
        have differ := apart item (List.mem_append_left _ inside)
        change 0 < comp key item.payload
        omega
      | cons item rest =>
        left
        rw [beyond] at greater sorted
        obtain ⟨_, later, _⟩ := sorted
        refine ⟨noEqual, entryOf item, ?_, rfl, greater item List.mem_cons_self, ?_⟩
        · rw [entries, beyond]
          exact List.mem_map_of_mem (List.mem_append_right _ List.mem_cons_self)
        · rw [entries, beyond, List.forall_mem_map]
          intro other inside isGreater
          rcases List.mem_append.mp inside with earlier | inside
          · exact absurd isGreater (Int.not_lt.mpr (less other earlier))
          · rcases List.mem_cons.mp inside with rfl | further
            · exact Int.le_of_eq (order.refl _)
            · exact (List.pairwise_cons.mp later).1 _ (List.mem_map_of_mem further)

/-- In every tree that a run comes to, the steps walk all nodes in order; sorted by `comp`, as a run
of insertions by `comp` and removals keeps it, it is searched rightly for every key. -/
theorem rbtreeRun_searches (order : TotalCompare comp) {memory : Rbtree Payload}
    {allowDuplicates useDirty useMarker : Bool}
    {ops : List (RbOp Payload)} (permitted : PermittedFrom rbtreeNext rbtreePermits
      (rbtreeInit memory allowDuplicates useDirty useMarker) ops) :
    ∃ tree, ops.foldlM rbtreeNext (rbtreeInit memory allowDuplicates useDirty useMarker) =
      some tree ∧ RbtreeWalks tree ∧
      ((∀ op ∈ ops, op.Sorts comp) → SortedBy comp (rbtreeEntries tree)) ∧
      (SortedBy comp (rbtreeEntries tree) → ∀ key, RbtreeSearches tree comp key) := by
  have start := rbtreeInit_good memory allowDuplicates useDirty useMarker
  obtain ⟨tree, shape, run, good, _⟩ := RbtreeGood.run (fun _ => True) (fun _ => True)
    (fun _ _ _ _ => trivial) ops (fun _ _ => trivial) start trivial permitted
  refine ⟨tree, run, good.represents.walks, fun sorts => ?_,
    fun sorted => good.represents.searches order sorted⟩
  obtain ⟨same, sameShape, sameRun, sameGood, _, sorted⟩ := RbtreeGood.run
    (fun shape => SortedBy comp ((inorder (plain shape)).map entryOf)) (RbOp.Sorts comp)
    (fun sorts _ effect => effect.sorted order sorts) ops sorts start .nil permitted
  cases run.symm.trans sameRun
  rw [sameGood.represents.entries_eq]
  exact sorted

theorem rbtreeRun_searches_two :
    ∃ tree, [.newNode 1 10, .insertNode (· - ·) 1, .newNode 2 5, .insertNode (· - ·) 2].foldlM
      rbtreeNext
        (rbtreeInit (blankMemory (0 : Int)) false false false) = some tree ∧ RbtreeWalks tree ∧
      RbtreeSearches tree (· - ·) 7 := by
  obtain ⟨tree, run, walks, sorts, searches⟩ :=
    @rbtreeRun_searches Int (· - ·) ⟨by omega, by omega⟩ (blankMemory 0) false false
    false [.newNode 1 10, .insertNode (· - ·) 1, .newNode 2 5, .insertNode (· - ·) 2] (by decide)
  refine ⟨tree, run, walks, searches (sorts ?_) 7⟩
  simp [RbOp.Sorts]

end RbtreeSearching

end MulleCore
