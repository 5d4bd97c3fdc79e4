import MulleCore.Rbtree.RbtreeLinked

/-!
The rotations, with the dirty bits that they set on the way up to the root.
-/

namespace MulleCore

open Library

section RbtreeMarks

variable {Payload : Type} {tree next : Rbtree Payload} {shape near far : RbShape Payload}
  {path : RbPath Payload}
variable {bare : BinaryTree (RbItem Payload)} {useDirty : Bool}

def spine (path : RbPath Payload) : List Nat := path.map fun frame => frame.item.1.node

@[simp] theorem spine_nil : spine ([] : RbPath Payload) = [] := rfl

@[simp] theorem spine_cons (frame : Frame (RbItem Payload × Bool)) (path : RbPath Payload) :
    spine (frame :: path) = frame.item.1.node :: spine path := rfl

theorem mem_pathNames_of_mem_spine {n : Nat} (inside : n ∈ spine path) : n ∈ pathNames path := by
  induction path with
  | nil => simp at inside
  | cons frame path ih =>
    simp only [spine_cons, List.mem_cons] at inside
    simp only [pathNames_cons, Multiset.mem_cons, Multiset.mem_add]
    exact inside.imp id fun above => .inr (ih above)

theorem Hangs.markUp : ∀ {path : RbPath Payload} {focus fuel : Nat},
    Hangs tree path focus → nilNode ∉ pathNames path → path.length < fuel →
    ∀ dirty : Nat → Bool, rbtreeMarkUp tree.parent fuel (topNode path) dirty =
      some fun n => decide (n ∈ spine path) || dirty n := by
  intro path
  induction path with
  | nil =>
    intro focus fuel _ _ enough dirty
    cases fuel with
    | zero => simp at enough
    | succ fuel => simp [rbtreeMarkUp]
  | cons frame path ih =>
    intro focus fuel hangs absent enough dirty
    obtain ⟨side, ⟨item, red⟩, sibling⟩ := frame
    simp only [pathNames_cons, Multiset.mem_cons, Multiset.mem_add, not_or] at absent
    obtain ⟨_, parent, _, _, _, above⟩ := hangs
    cases fuel with
    | zero => simp at enough
    | succ fuel =>
      simp only [List.length_cons] at enough
      simp only [rbtreeMarkUp, topNode_cons, if_neg (Ne.symm absent.1), parent]
      rw [ih above absent.2.2 (by omega)]
      congr 1
      funext n
      by_cases here : n = item.node <;> simp [here]

theorem Hangs.touch {dirty : Nat → Bool} : ∀ {path : RbPath Payload} {focus : Nat},
    Hangs tree path focus → (pathNames path).Nodup → (∀ n ∈ spine path, dirty n = true) →
    (∀ n ∈ pathNames path, n ∉ spine path → dirty n = tree.dirty n) →
    Hangs { tree with dirty := dirty } (touchPath (touchItem true) path) focus := by
  intro path
  induction path with
  | nil => exact fun hangs _ _ _ => hangs
  | cons frame path ih =>
    intro focus hangs distinct touched same
    obtain ⟨side, ⟨item, red⟩, sibling⟩ := frame
    simp only [pathNames_cons, Multiset.nodup_cons, Multiset.nodup_add, Multiset.mem_add, not_or,
      Multiset.disjoint_left, spine_cons, List.mem_cons, Multiset.mem_cons] at distinct touched same
    obtain ⟨⟨notSibling, notPath⟩, siblingDistinct, pathDistinct, apart⟩ := distinct
    obtain ⟨⟨payload, _, color⟩, parent, nearChild, farChild, inFar, above⟩ := hangs
    refine ⟨⟨payload, ?_, color⟩, ?_, nearChild, farChild, ?_, ?_⟩
    · simpa using touched item.node (.inl rfl)
    · exact parent.trans (topNode_touchPath true path).symm
    · refine inFar.elsewhere siblingDistinct fun n inside => ⟨⟨rfl, ?_, rfl, fun _ => rfl⟩, rfl⟩
      refine same n (.inr (.inl inside)) ⟨?_, fun above => ?_⟩
      · rintro rfl
        exact notSibling inside
      · exact apart inside (mem_pathNames_of_mem_spine above)
    · refine ih above pathDistinct (fun n inside => touched n (.inr inside)) ?_
      intro n inside out
      refine same n (.inr (.inr inside)) ⟨?_, out⟩
      rintro rfl
      exact notPath inside

@[simp] theorem touchItem_false :
    (touchItem false : RbItem Payload × Bool → RbItem Payload × Bool) = id := by
  funext item
  exact Prod.ext (touch_false item.1) rfl

@[simp] theorem touchPath_id (path : RbPath Payload) : touchPath id path = path := by
  simp [touchPath]

theorem Represents.markNodeAsDirty {side : Side} {item : RbItem Payload} {red : Bool}
    (represents : Represents tree (plug (join side near (item, red) far) path))
    (uses : tree.useDirty = true) :
    ∃ next, rbtreeMarkNodeAsDirty tree item.node = some next ∧
      Represents next (plug (join side near (item.touch true, red) far)
        (touchPath (touchItem true) path)) ∧
      Confined (names (plug (join side near (item, red) far) path)) tree next := by
  let way : RbPath Payload := ⟨side, (item, red), far⟩ :: path
  have below : Represents tree (plug near way) := represents
  have distinct := below.nodup
  have absent := below.nil_notMem
  simp only [names_plug, Multiset.nodup_add, Multiset.disjoint_left, Multiset.mem_add, not_or]
    at distinct absent
  obtain ⟨nearDistinct, wayDistinct, apart⟩ := distinct
  have marked := below.hangs.markUp absent.2 below.length_lt tree.dirty
  have same : ∀ n, n ∉ spine way → (decide (n ∈ spine way) || tree.dirty n) = tree.dirty n := by
    intro n outside
    simp [outside]
  have confined : Confined (names (plug near way)) tree
      { tree with dirty := fun n => decide (n ∈ spine way) || tree.dirty n } := by
    refine ⟨rfl, rfl, rfl, rfl, rfl, rfl, fun n outside => ⟨⟨rfl, same n ?_, rfl, fun _ => rfl⟩, rfl⟩⟩
    intro inside
    simp [mem_pathNames_of_mem_spine inside] at outside
  refine ⟨_, ?_, ?_, confined⟩
  · simp only [rbtreeMarkNodeAsDirty, uses, if_true]
    rw [show rbtreeMarkUp tree.parent tree.steps item.node tree.dirty = _ from marked]
    rfl
  · have hangs : Hangs { tree with dirty := fun n => decide (n ∈ spine way) || tree.dirty n }
        (touchPath (touchItem true) way) (rootNode near) := by
      refine below.hangs.touch wayDistinct ?_ fun n _ outside => same n outside
      intro n inside
      simp [inside]
    refine below.reshape near (touchPath (touchItem true) way) confined (by simp) hangs ?_
    rw [topNode_touchPath]
    refine below.focus.elsewhere nearDistinct fun n inside =>
      ⟨⟨rfl, same n ?_, rfl, fun _ => rfl⟩, rfl⟩
    exact fun above => apart inside (mem_pathNames_of_mem_spine above)

theorem Hangs.dirtyUp : ∀ {path : RbPath Payload} {focus fuel : Nat}, Hangs tree path focus →
    focus ≠ nilNode → nilNode ∉ pathNames path → tree.parent focus = topNode path →
    (∀ frame ∈ path, frame.item.1.dirty = true) → path.length < fuel →
    rbtreeDirtyUp tree fuel focus = true := by
  intro path
  induction path with
  | nil =>
    intro focus fuel hangs proper _ _ _ enough
    cases fuel with
    | zero => simp at enough
    | succ fuel =>
      have root : tree.root = focus := hangs
      simp [rbtreeDirtyUp, proper, root]
  | cons frame path ih =>
    intro focus fuel hangs proper absent top dirty enough
    obtain ⟨side, ⟨item, red⟩, sibling⟩ := frame
    simp only [pathNames_cons, Multiset.mem_cons, Multiset.mem_add, not_or, List.mem_cons,
      forall_eq_or_imp] at absent dirty
    obtain ⟨⟨_, itemDirty, _⟩, parent, _, _, _, above⟩ := hangs
    cases fuel with
    | zero => simp at enough
    | succ fuel =>
      simp only [List.length_cons] at enough
      have rest := ih above (Ne.symm absent.1) absent.2.2 parent dirty.2
        (Nat.lt_of_succ_lt_succ enough)
      simp [rbtreeDirtyUp, proper, top, itemDirty, dirty.1, rest]

theorem Represents.assertDirty_of_path (represents : Represents tree (plug shape path))
    (dirty : tree.dirty (rootNode shape) = true → ∀ frame ∈ path, frame.item.1.dirty = true) :
    rbtreeAssertDirty tree (rootNode shape) = some tree := by
  have absent := represents.nil_notMem
  simp only [names_plug, Multiset.mem_add, not_or] at absent
  refine if_pos fun isDirty => ?_
  cases shape with
  | nil =>
    rw [rootNode_nil, represents.nilClean] at isDirty
    exact absurd isDirty (by decide)
  | node item left right =>
    have proper : rootNode (.node item left right) ≠ nilNode := by
      intro same
      have inside := rootNode_mem (show BinaryTree.node item left right ≠ .nil by simp)
      rw [same] at inside
      exact absent.1 inside
    exact represents.hangs.dirtyUp proper absent.2 (represents.focus.parent (by simp))
      (dirty isDirty) represents.length_lt

/-! Dirty bits that reach up to the root. -/

def rootDirty : BinaryTree (RbItem Payload) → Bool
  | .nil => false
  | .node item _ _ => item.dirty

def DirtyOk (useDirty : Bool) (item : RbItem Payload) (left right : BinaryTree (RbItem Payload)) :
    Prop :=
  (rootDirty left = true → item.dirty = true) ∧ (rootDirty right = true → item.dirty = true) ∧
    (useDirty = false → item.dirty = false)

theorem dirtyOk_touch (item : RbItem Payload) (left right : BinaryTree (RbItem Payload)) :
    DirtyOk true (item.touch true) left right := by
  simp [DirtyOk]

theorem dirtyOk_false_iff :
    Everywhere (DirtyOk false) bare ↔ ∀ dirty ∈ (inorder bare).map RbItem.dirty, dirty = false := by
  induction bare with
  | nil => simp [Everywhere, inorder]
  | node item left right leftIh rightIh =>
    simp only [Everywhere, leftIh, rightIh, inorder, List.map_append, List.map_cons,
      List.mem_append, List.mem_cons]
    constructor
    · rintro ⟨⟨_, _, clean⟩, inLeft, inRight⟩ dirty (below | rfl | below)
      · exact inLeft dirty below
      · exact clean rfl
      · exact inRight dirty below
    · intro clean
      refine ⟨⟨?_, ?_, fun _ => clean _ (.inr (.inl rfl))⟩,
        fun dirty below =>
          clean dirty (.inl below), fun dirty below => clean dirty (.inr (.inr below))⟩
      · cases left with
        | nil => simp [rootDirty]
        | node other _ _ => simp [rootDirty, clean other.dirty (.inl (by simp [inorder]))]
      · cases right with
        | nil => simp [rootDirty]
        | node other _ _ => simp [rootDirty, clean other.dirty (.inr (.inr (by simp [inorder])))]

theorem dirtyOk_of_rotated {moved : BinaryTree (RbItem Payload)}
    (rotated : Rotated (RbItem.touch useDirty) bare moved)
    (dirtyOk : Everywhere (DirtyOk useDirty) bare) : Everywhere (DirtyOk useDirty) moved := by
  cases useDirty with
  | true => exact rotated.everywhere dirtyOk_touch dirtyOk
  | false =>
    have same : (inorder moved).map RbItem.dirty = (inorder bare).map RbItem.dirty :=
      rotated.inorder fun item => by simp
    rw [dirtyOk_false_iff] at dirtyOk ⊢
    rwa [same]

theorem path_dirty_of_dirtyOk : ∀ {path : RbPath Payload} {shape : RbShape Payload},
    Everywhere (DirtyOk useDirty) (plain (plug shape path)) → rootDirty (plain shape) = true →
    ∀ frame ∈ path, frame.item.1.dirty = true := by
  intro path
  induction path with
  | nil => simp
  | cons frame path ih =>
    intro shape dirtyOk isDirty
    have here : Everywhere (DirtyOk useDirty)
        (plain (join frame.side shape frame.item frame.sibling)) := by
      have inside : Everywhere (DirtyOk useDirty)
        (plain (plug (join frame.side shape frame.item frame.sibling) path)) := dirtyOk
      rw [plain_plug] at inside
      exact inside.of_plug
    obtain ⟨side, ⟨item, red⟩, sibling⟩ := frame
    have dirty : item.dirty = true := by
      rw [plain_join] at here
      cases side with
      | left => exact here.1.1 isDirty
      | right => exact here.1.2.1 isDirty
    simp only [List.mem_cons, forall_eq_or_imp]
    refine ⟨dirty, @ih (join side shape (item, red) sibling) dirtyOk ?_⟩
    cases side <;> exact dirty

theorem Represents.assertDirty (represents : Represents tree (plug shape path))
    (dirtyOk : Everywhere (DirtyOk useDirty) (plain (plug shape path))) :
    rbtreeAssertDirty tree (rootNode shape) = some tree := by
  refine represents.assertDirty_of_path fun isDirty => path_dirty_of_dirtyOk dirtyOk ?_
  cases shape with
  | nil => simp [represents.nilClean] at isDirty
  | node item left right =>
    obtain ⟨holds, _⟩ := represents.focus
    exact holds.2.1.symm.trans isDirty

end RbtreeMarks

section RbtreeRotate

variable {Payload : Type} {tree next : Rbtree Payload} {path : RbPath Payload}
variable {n : Nat} {inside : Multiset Nat} {parent old : Nat}

/-! What the single writes change. -/

@[simp] theorem setNodeMarked_parent (n : Nat) : (rbtreeSetNodeMarked tree n).parent = tree.parent :=
  rfl

@[simp] theorem setNodeMarked_child (n : Nat) : (rbtreeSetNodeMarked tree n).child = tree.child :=
  rfl

@[simp] theorem setNodeMarked_root (n : Nat) : (rbtreeSetNodeMarked tree n).root = tree.root := rfl

@[simp] theorem setParent_parent (n parent : Nat) :
    (rbnodeSetParent tree n parent).parent = Function.update tree.parent n parent := rfl

@[simp] theorem setParent_child (n parent : Nat) :
    (rbnodeSetParent tree n parent).child = tree.child := rfl

@[simp] theorem setParent_root (n parent : Nat) :
    (rbnodeSetParent tree n parent).root = tree.root := rfl

@[simp] theorem setChild_parent (side : Side) (n child : Nat) :
    (rbnodeSetChild tree side n child).parent = tree.parent := rfl

@[simp] theorem setChild_root (side : Side) (n child : Nat) :
    (rbnodeSetChild tree side n child).root = tree.root := rfl

@[simp] theorem setChild_child_same (side : Side) (n child : Nat) :
    (rbnodeSetChild tree side n child).child side n = child := by
  simp [rbnodeSetChild]

@[simp] theorem setChild_child_flip (side : Side) (n child : Nat) :
    (rbnodeSetChild tree side n child).child side.flip n = tree.child side.flip n := by
  simp [rbnodeSetChild, Side.flip_ne]

theorem setChild_child_of_flip (side : Side) (n child : Nat) :
    (rbnodeSetChild tree side.flip n child).child side n = tree.child side n := by
  simp [rbnodeSetChild, Ne.symm side.flip_ne]

theorem setChild_child_of_ne (side other : Side) {m : Nat} (child : Nat) (apart : m ≠ n) :
    (rbnodeSetChild tree side n child).child other m = tree.child other m := by
  simp [rbnodeSetChild, apart]

@[simp] theorem setColor_parent (n : Nat) (red : Bool) :
    (rbnodeSetColor tree n red).parent = tree.parent := rfl

@[simp] theorem setColor_child (n : Nat) (red : Bool) :
    (rbnodeSetColor tree n red).child = tree.child := rfl

@[simp] theorem setColor_root (n : Nat) (red : Bool) :
    (rbnodeSetColor tree n red).root = tree.root := rfl

@[simp] theorem relink_parent (first : Side) (parent old new : Nat) :
    (rbtreeRelink tree first parent old new).parent = tree.parent := by
  simp only [rbtreeRelink]
  split_ifs <;> rfl

theorem relink_holds (first : Side) (parent old new : Nat) (item : RbItem Payload) (red : Bool) :
    HoldsItem (rbtreeRelink tree first parent old new) item red ↔ HoldsItem tree item red := by
  simp only [rbtreeRelink]
  split_ifs <;> exact Iff.rfl

theorem setNodeMarked_confined (inside : Multiset Nat) (n : Nat) :
    Confined inside tree (rbtreeSetNodeMarked tree n) :=
  ⟨rfl, rfl, rfl, rfl, rfl, setNodeMarked_nil n, fun _ _ => ⟨⟨rfl, rfl, rfl, fun _ => rfl⟩, rfl⟩⟩

theorem setParent_confined (parent : Nat) (known : n ∈ inside) :
    Confined inside tree (rbnodeSetParent tree n parent) := by
  refine ⟨rfl, rfl, rfl, rfl, rfl, rfl, fun m outside => ⟨⟨rfl, rfl, rfl, fun _ => rfl⟩, ?_⟩⟩
  refine Function.update_of_ne ?_ parent tree.parent
  rintro rfl
  exact outside known

theorem setChild_confined (side : Side) (child : Nat)
    (known : n ∈ inside) : Confined inside tree (rbnodeSetChild tree side n child) := by
  refine ⟨rfl, rfl, rfl, rfl, rfl, rfl, fun m outside => ⟨⟨rfl, rfl, rfl, fun other => ?_⟩, rfl⟩⟩
  refine setChild_child_of_ne side other child ?_
  rintro rfl
  exact outside known

theorem relink_confined (first : Side) (old new : Nat)
    (known : parent ≠ nilNode → parent ∈ inside) :
    Confined inside tree (rbtreeRelink tree first parent old new) := by
  simp only [rbtreeRelink]
  split_ifs with top here
  · exact ⟨rfl, rfl, rfl, rfl, rfl, rfl, fun _ _ => ⟨⟨rfl, rfl, rfl, fun _ => rfl⟩, rfl⟩⟩
  · exact setChild_confined first new (known top)
  · exact setChild_confined first.flip new (known top)

theorem Hangs.relink (hangs : Hangs tree path old) (first : Side) (new : Nat)
    (distinct : (pathNames path).Nodup) (absent : nilNode ∉ pathNames path)
    (proper : old ≠ nilNode) (apart : old ∉ pathNames path) :
    Hangs (rbtreeRelink tree first (topNode path) old new) path new := by
  cases path with
  | nil => simp [rbtreeRelink, Hangs]
  | cons frame path =>
    obtain ⟨side, ⟨item, red⟩, sibling⟩ := frame
    simp only [pathNames_cons, Multiset.nodup_cons, Multiset.nodup_add, Multiset.mem_cons,
      Multiset.mem_add, not_or, Multiset.disjoint_left] at distinct absent apart
    obtain ⟨⟨notSibling, notPath⟩, siblingDistinct, pathDistinct, _⟩ := distinct
    obtain ⟨holds, parent, nearChild, farChild, inFar, above⟩ := hangs
    have other : old ≠ tree.child side.flip item.node := by
      rw [farChild]
      rintro rfl
      refine apart.2.1 (rootNode_mem ?_)
      rintro rfl
      exact proper rfl
    have written : rbtreeRelink tree first item.node old new =
        rbnodeSetChild tree side item.node new := by
      simp only [rbtreeRelink, if_neg (Ne.symm absent.1)]
      rcases Side.eq_or_flip side first with same | same
      · subst same
        exact if_pos nearChild.symm
      · subst same
        rw [if_neg other, Side.flip_flip]
    have same : ∀ n, n ≠ item.node → SameAt tree (rbnodeSetChild tree side item.node new) n :=
      fun n other => ⟨rfl, rfl, rfl, fun _ => by simp [rbnodeSetChild, other]⟩
    rw [topNode_cons, written]
    refine ⟨holds, parent, by simp [rbnodeSetChild], ?_, ?_, ?_⟩
    · simpa [rbnodeSetChild, Side.flip_ne] using farChild
    · refine inFar.elsewhere siblingDistinct fun n inside => ⟨same n ?_, rfl⟩
      rintro rfl
      exact notSibling inside
    · refine above.elsewhere pathDistinct rfl fun n inside => ⟨same n ?_, rfl⟩
      rintro rfl
      exact notPath inside

variable {side : Side} {a b c : RbShape Payload} {p t : RbItem Payload} {pRed tRed : Bool}

theorem rbNodeReparent_eq {above below top : Nat} (parent : tree.parent above = top)
    (apart : above ≠ below) : rbNodeReparent tree above below =
      rbtreeSetNodeMarked (rbtreeRelink (rbtreeSetNodeMarked (rbnodeSetParent tree below top) below)
        .right top above below) top := by
  have kept : (rbtreeSetNodeMarked (rbnodeSetParent tree below top) below).parent above = top := by
    simp [apart, parent]
  simp only [rbNodeReparent, parent, kept, relink_parent]

theorem adopt_confined (side : Side) {child : Nat}
    (parentKnown : parent ∈ inside) (childKnown : child ≠ nilNode → child ∈ inside) :
    Confined inside tree (rbNodeAdopt tree side parent child) := by
  refine ⟨rfl, rfl, rfl, rfl, rfl, rfl, fun n outside => ⟨⟨rfl, rfl, rfl, fun other => ?_⟩, ?_⟩⟩
  · refine setChild_child_of_ne side other child ?_
    rintro rfl
    exact outside parentKnown
  · simp only [rbNodeAdopt, setChild_parent]
    split_ifs with proper
    · refine Function.update_of_ne ?_ parent tree.parent
      rintro rfl
      exact outside (childKnown proper)
    · rfl

theorem RbLinked.adopt {b : RbShape Payload} (linked : RbLinked tree old b) (side : Side)
    (distinct : (names b).Nodup) (absent : nilNode ∉ names b)
    (apart : parent ∉ names b) : RbLinked (rbNodeAdopt tree side parent (rootNode b)) parent b := by
  refine linked.rehang distinct ?_ ?_ fun nonempty => ?_
  · intro n inside
    refine ⟨rfl, rfl, rfl, fun other => setChild_child_of_ne side other _ ?_⟩
    rintro rfl
    exact apart inside
  · intro n inside other
    simp only [rbNodeAdopt, setChild_parent]
    split_ifs with proper
    · exact Function.update_of_ne other _ _
    · rfl
  · have proper : rootNode b ≠ nilNode := fun same => absent (same ▸ rootNode_mem nonempty)
    simp [rbNodeAdopt, proper]

theorem Represents.rotateLinks
    (represents : Represents tree (plug (join side a (p, pRed) (join side b (t, tRed) c)) path)) :
    Represents (rbtreeRotateLinks tree side p.node t.node)
        (plug (join side (join side a (p, pRed) b) (t, tRed) c) path) ∧
      Confined (names (plug (join side a (p, pRed) (join side b (t, tRed) c)) path)) tree
        (rbtreeRotateLinks tree side p.node t.node) := by
  have nodup := represents.nodup
  have absent := represents.nil_notMem
  simp only [names_plug, names_join, Multiset.nodup_add, Multiset.nodup_cons, Multiset.mem_add,
    not_or, Multiset.disjoint_left, Multiset.mem_cons] at nodup absent
  obtain ⟨⟨⟨pNotA, pNotT, pNotB, pNotC⟩, aDistinct, ⟨⟨tNotB, tNotC⟩, bDistinct, cDistinct, bNotC⟩,
    aApart⟩, pathDistinct, apart⟩ := nodup
  obtain ⟨⟨pProper, _, tProper, bProper, _⟩, pathProper⟩ := absent
  obtain ⟨pHolds, pParent, pNear, pFar, inA, inner⟩ := rbLinked_join.mp represents.focus
  obtain ⟨tHolds, tParent, tNear, tFar, inB, inC⟩ := rbLinked_join.mp inner
  have hangs := represents.hangs
  rw [rootNode_join] at pFar hangs
  have bRoot : rootNode b ≠ nilNode → rootNode b ∈ names b := by
    intro proper
    refine rootNode_mem ?_
    rintro rfl
    exact proper rfl
  -- the four stages, and which nodes each of them writes to
  generalize adoptedEq : rbtreeSetNodeMarked (rbNodeAdopt tree side.flip p.node (rootNode b))
    (rootNode b) = adopted
  have first : Confined (p.node ::ₘ names b) tree adopted := by
    rw [← adoptedEq]
    refine (adopt_confined side.flip ?_ ?_).trans (setNodeMarked_confined _ _)
    · simp
    · exact fun proper => Multiset.mem_cons_of_mem (bRoot proper)
  have adoptedB : RbLinked adopted p.node b := by
    rw [← adoptedEq]
    exact (inB.adopt side.flip bDistinct bProper pNotB).confined bDistinct
      (setNodeMarked_confined 0 _) (by simp)
  have adoptedParent : adopted.parent p.node = topNode path := by
    rw [← adoptedEq]
    simp only [rbNodeAdopt, setNodeMarked_parent, setChild_parent]
    split_ifs with proper
    · rw [Function.update_of_ne ?_, pParent]
      exact fun same => pNotB (same ▸ bRoot proper)
    · exact pParent
  have written : rbtreeRotateLinks tree side p.node t.node = rbtreeSetNodeMarked (rbnodeSetParent
      (rbnodeSetChild (rbNodeReparent adopted p.node t.node) side t.node p.node) p.node t.node)
      t.node := by
    simp only [rbtreeRotateLinks, tNear, adoptedEq]
  rw [written, rbNodeReparent_eq adoptedParent pNotT]
  generalize liftedEq : rbtreeSetNodeMarked (rbnodeSetParent adopted t.node (topNode path)) t.node =
    lifted
  have second : Confined {t.node} adopted lifted := by
    rw [← liftedEq]
    exact (setParent_confined _ (by simp)).trans (setNodeMarked_confined _ _)
  generalize linkedEq : rbtreeSetNodeMarked (rbtreeRelink lifted .right (topNode path) p.node t.node)
    (topNode path) = linked
  have third : Confined (pathNames path) lifted linked := by
    rw [← linkedEq]
    refine (relink_confined _ _ _ fun proper => ?_).trans (setNodeMarked_confined _ _)
    refine topNode_mem ?_
    rintro rfl
    exact proper rfl
  generalize nextEq : rbtreeSetNodeMarked (rbnodeSetParent (rbnodeSetChild linked side t.node p.node)
    p.node t.node) t.node = next
  have fourth : Confined {t.node, p.node} linked next := by
    rw [← nextEq]
    exact ((setChild_confined side _ (by simp)).trans (setParent_confined _ (by simp))).trans
      (setNodeMarked_confined _ _)
  have pFree : p.node ∉ pathNames path := apart (.inl rfl)
  have tFree : t.node ∉ pathNames path := apart (.inr (.inr (.inl rfl)))
  have confined : Confined (names (plug (join side a (p, pRed) (join side b (t, tRed) c)) path)) tree
      next := by
    refine ((first.mono ?_).trans (second.mono ?_)).trans ((third.mono ?_).trans (fourth.mono ?_))
    · intro n inside
      simp only [Multiset.mem_cons] at inside
      rcases inside with rfl | inside <;> simp_all
    · simp
    · intro n inside
      simp [inside]
    · simp
  refine ⟨represents.reshape (join side (join side a (p, pRed) b) (t, tRed) c) path confined ?_ ?_ ?_,
    confined⟩
  · simp [Multiset.cons_swap, add_assoc]
  · rw [rootNode_join]
    have atLifted : Hangs lifted path p.node := by
      refine (hangs.confined pathDistinct first (by rw [← adoptedEq]; rfl) fun n
        inside => ?_).confined pathDistinct second (by rw [← liftedEq]; rfl) fun n inside => ?_
      · simp only [Multiset.mem_cons, not_or]
        exact ⟨fun same => pFree (same ▸ inside), fun below => apart (by simp [below]) inside⟩
      · simp only [Multiset.mem_singleton]
        exact fun same => tFree (same ▸ inside)
    have atLinked : Hangs linked path t.node := by
      rw [← linkedEq]
      exact (atLifted.relink .right t.node pathDistinct pathProper (Ne.symm pProper) pFree).confined
        pathDistinct (setNodeMarked_confined 0 _) rfl (by simp)
    refine atLinked.confined pathDistinct fourth (by rw [← nextEq]; rfl) fun n inside => ?_
    simp only [Multiset.insert_eq_cons, Multiset.mem_cons, Multiset.mem_singleton, not_or]
    exact ⟨fun same => tFree (same ▸ inside), fun same => pFree (same ▸ inside)⟩
  · have holds : ∀ item red, HoldsItem tree item red → HoldsItem next item red := by
      intro item red held
      have lifts : HoldsItem lifted item red := by
        rw [← liftedEq, ← adoptedEq]
        exact held
      have links : HoldsItem linked item red := by
        rw [← linkedEq]
        exact (relink_holds _ _ _ _ item red).mpr lifts
      rw [← nextEq]
      exact links
    have elsewhere : ∀ {above : Nat} {shape : RbShape Payload}, RbLinked adopted above shape →
        (names shape).Nodup → t.node ∉ names shape → p.node ∉ names shape →
        (∀ n ∈ names shape, n ∉ pathNames path) → RbLinked next above shape := by
      intro above shape linked distinct tOut pOut pathOut
      refine ((linked.confined distinct second fun n inside => ?_).confined distinct third
        pathOut).confined distinct fourth fun n inside => ?_
      · simp only [Multiset.mem_singleton]
        exact fun same => tOut (same ▸ inside)
      · simp only [Multiset.insert_eq_cons, Multiset.mem_cons, Multiset.mem_singleton, not_or]
        exact ⟨fun same => tOut (same ▸ inside), fun same => pOut (same ▸ inside)⟩
    have pChild : ∀ other, next.child other p.node = adopted.child other p.node := by
      intro other
      rw [← nextEq, setNodeMarked_child, setParent_child, setChild_child_of_ne side other _ pNotT,
        (third.outside _ pFree).1.2.2.2, ← liftedEq, setNodeMarked_child, setParent_child]
    refine rbLinked_join.mpr ⟨holds t tRed tHolds, ?_, ?_, ?_, rbLinked_join.mpr ⟨holds p pRed pHolds,
      ?_, ?_, ?_, ?_, ?_⟩, ?_⟩
    · rw [← nextEq, ← linkedEq, ← liftedEq]
      simp [Ne.symm pNotT]
    · rw [← nextEq]
      simp
    · rw [← nextEq]
      simp only [setNodeMarked_child, setParent_child, setChild_child_flip]
      rw [(third.outside _ tFree).1.2.2.2, ← liftedEq, setNodeMarked_child, setParent_child,
        (first.outside _ ?_).1.2.2.2, tFar]
      simp [Ne.symm pNotT, tNotB]
    · rw [← nextEq]
      simp
    · rw [pChild, ← adoptedEq, setNodeMarked_child]
      exact (setChild_child_of_flip side p.node (rootNode b)).trans pNear
    · rw [pChild, ← adoptedEq, setNodeMarked_child]
      exact setChild_child_same side.flip p.node (rootNode b)
    · refine elsewhere (inA.confined aDistinct first fun n inside => ?_) aDistinct ?_ pNotA ?_
      · simp only [Multiset.mem_cons, not_or]
        exact ⟨fun same => pNotA (same ▸ inside), (aApart inside).2.1⟩
      · exact fun inside => (aApart inside).1 rfl
      · exact fun n inside => apart (.inr (.inl inside))
    · refine elsewhere adoptedB bDistinct tNotB pNotB ?_
      exact fun n inside => apart (.inr (.inr (.inr (.inl inside))))
    · refine elsewhere (inC.confined cDistinct first fun n inside => ?_) cDistinct tNotC pNotC ?_
      · simp only [Multiset.mem_cons, not_or]
        exact ⟨fun same => pNotC (same ▸ inside), fun below => bNotC below inside⟩
      · exact fun n inside => apart (.inr (.inr (.inr (.inr inside))))

theorem dirty_of_mem_touchPath {frame : Frame (RbItem Payload × Bool)}
    (inside : frame ∈ touchPath (touchItem true) path) : frame.item.1.dirty = true := by
  simp only [touchPath, List.mem_map] at inside
  obtain ⟨old, _, rfl⟩ := inside
  simp

theorem Represents.rotateDirty
    (represents : Represents tree (plug (join side (join side a (p, pRed) b) (t, tRed) c) path)) :
    ∃ next, rbtreeRotateDirty tree p.node t.node = some next ∧
      Represents next (plug (join side (join side a (p.touch tree.useDirty, pRed) b)
        (t.touch tree.useDirty, tRed) c) (touchPath (touchItem tree.useDirty) path)) ∧
      Confined (names (plug (join side (join side a (p, pRed) b) (t, tRed) c) path)) tree next := by
  cases uses : tree.useDirty with
  | false =>
    refine ⟨tree, by simp [rbtreeRotateDirty, uses], ?_, .refl _ _⟩
    simpa using represents
  | true =>
    have below : Represents tree
      (plug (join side a (p, pRed) b) (⟨side, (t, tRed), c⟩ :: path)) := represents
    obtain ⟨next, marked, marks, confined⟩ := below.markNodeAsDirty uses
    refine ⟨next, ?_, marks, confined⟩
    have pChecked := marks.assertDirty_of_path fun _ frame inside => dirty_of_mem_touchPath inside
    have above : Represents next (plug (join side (join side a (p.touch true, pRed) b)
      (t.touch true, tRed) c) (touchPath (touchItem true) path)) := marks
    have tChecked := above.assertDirty_of_path fun _ frame inside => dirty_of_mem_touchPath inside
    rw [rootNode_join] at pChecked tChecked
    simp only [rbtreeRotateDirty, uses, if_true, marked, Option.bind_eq_bind, Option.bind_some]
    simp only [touch_node] at pChecked tChecked
    rw [pChecked, Option.bind_some, tChecked]

theorem Represents.rotateNode
    (represents : Represents tree (plug (join side a (p, pRed) (join side b (t, tRed) c)) path)) :
    ∃ next, rbtreeRotateNode tree side p.node = some next ∧
      Moves tree next (plug (join side a (p, pRed) (join side b (t, tRed) c)) path)
        (plug (join side (join side a (p.touch tree.useDirty, pRed) b)
          (t.touch tree.useDirty, tRed) c) (touchPath (touchItem tree.useDirty) path)) := by
  have ready := (represents.setNodeMarked p.node).trans
    ((represents.setNodeMarked p.node).represents.setNodeMarked t.node)
  obtain ⟨linked, linksConfined⟩ := ready.represents.rotateLinks
  obtain ⟨next, dirtied, marks, dirtyConfined⟩ := linked.rotateDirty
  have same : names (plug (join side (join side a (p, pRed) b) (t, tRed) c) path) =
      names (plug (join side a (p, pRed) (join side b (t, tRed) c)) path) := by
    simp [Multiset.cons_swap, add_assoc]
  rw [same] at dirtyConfined
  have confined := ready.confined.trans (linksConfined.trans dirtyConfined)
  have uses := linksConfined.useDirty
  have stillUses : (rbtreeSetNodeMarked (rbtreeSetNodeMarked tree p.node) t.node).useDirty =
    tree.useDirty := rfl
  rw [uses, stillUses] at marks
  refine ⟨next, ?_, marks, ?_, confined⟩
  · have child := (rbLinked_join.mp represents.focus).2.2.2.1
    rw [rootNode_join] at child
    have proper : ¬(p.node = nilNode ∨ t.node = nilNode) := by
      have absent := represents.nil_notMem
      simp only [names_plug, names_join, Multiset.mem_add, Multiset.mem_cons, not_or] at absent
      exact not_or.mpr ⟨Ne.symm absent.1.1, Ne.symm absent.1.2.2.1⟩
    simp only [rbtreeRotateNode, setNodeMarked_child, child, if_neg proper]
    exact dirtied
  · have rotates := Rotated.rotate side (plain a) (plain b) (plain c) p t (plainPath path)
      (.refl (f := RbItem.touch tree.useDirty) _)
    simpa only [plain_plug, plain_join, plainPath_touchPath] using rotates

end RbtreeRotate

end MulleCore
