import MulleCore.Rbtree.RbtreeAttach
import MulleCore.Rbtree.RbtreeBlackBlack

/-!
How a node leaves the tree: a node with one child at most is cut out, and takes over the
place of the node that is removed, if that is another one.
-/

namespace MulleCore

open Library

section RbtreeUnlink

variable {Payload : Type} {tree next : Rbtree Payload} {path rest : RbPath Payload}
  {x l r : RbShape Payload} {side : Side} {item : RbItem Payload} {red : Bool} {n y : Nat}
variable {right below : Nat}

theorem rbtreeCutOut_eq {top : Nat} (parent : tree.parent y = top) (apart : y ≠ rootNode x) :
    rbtreeCutOut tree (rootNode x) y = rbtreeSetNodeMarked (rbtreeRelink (rbtreeSetNodeMarked
      (rbnodeSetParent (rbtreeSetNodeMarked tree (rootNode x)) (rootNode x) top) top)
      .left top y (rootNode x)) top := by
  have kept : (rbtreeSetNodeMarked (rbnodeSetParent (rbtreeSetNodeMarked tree (rootNode x))
      (rootNode x) top) top).parent y = top := by
    simp [apart, parent]
  have written : (rbnodeSetParent (rbtreeSetNodeMarked tree (rootNode x)) (rootNode x) top).parent
      (rootNode x) = top := by
    simp
  simp only [rbtreeCutOut, setNodeMarked_parent, parent] at kept written ⊢
  simp only [written, kept, relink_parent, setNodeMarked_parent]

theorem Represents.cutOut
    (represents : Represents tree (plug (join side x (item, red) .nil) path)) :
    Represents (rbtreeCutOut tree (rootNode x) item.node) (plug x path) ∧
      (rbtreeCutOut tree (rootNode x) item.node).parent (rootNode x) = topNode path ∧
      Confined (nilNode ::ₘ names (plug x path)) tree (rbtreeCutOut tree (rootNode x) item.node) ∧
      SameAt tree (rbtreeCutOut tree (rootNode x) item.node) nilNode := by
  have nodup := represents.nodup
  have absent := represents.nil_notMem
  simp only [names_plug, names_join, names_nil, add_zero, Multiset.nodup_add, Multiset.nodup_cons,
    Multiset.mem_add, not_or, Multiset.disjoint_left, Multiset.mem_cons] at nodup absent
  obtain ⟨⟨notX, xDistinct⟩, pathDistinct, apart⟩ := nodup
  obtain ⟨⟨proper, xProper⟩, pathProper⟩ := absent
  have hangs := represents.hangs
  obtain ⟨_, parent, _, _, inX, _⟩ := rbLinked_join.mp represents.focus
  rw [rootNode_join] at hangs
  have rootKnown : rootNode x ∈ nilNode ::ₘ names x := by
    cases x with
    | nil => simp
    | node item left right => exact Multiset.mem_cons_of_mem (rootNode_mem (by simp))
  have rootApart : item.node ≠ rootNode x := by
    intro same
    rw [← same, Multiset.mem_cons] at rootKnown
    exact rootKnown.elim (Ne.symm proper) notX
  rw [rbtreeCutOut_eq parent rootApart]
  generalize liftedEq : rbtreeSetNodeMarked (rbnodeSetParent (rbtreeSetNodeMarked tree (rootNode x))
    (rootNode x) (topNode path)) (topNode path) = lifted
  have first : Confined (nilNode ::ₘ names x) tree lifted := by
    rw [← liftedEq]
    exact (setNodeMarked_confined _ _).trans
      ((setParent_confined _ rootKnown).trans (setNodeMarked_confined _ _))
  have firstSame : ∀ m, SameAt tree lifted m := by
    intro m
    rw [← liftedEq]
    exact ⟨rfl, rfl, rfl, fun _ => rfl⟩
  generalize nextEq : rbtreeSetNodeMarked (rbtreeRelink lifted .left (topNode path) item.node
    (rootNode x)) (topNode path) = next
  have second : Confined (pathNames path) lifted next := by
    rw [← nextEq]
    refine (relink_confined _ _ _ fun proper => topNode_mem ?_).trans (setNodeMarked_confined _ _)
    rintro rfl
    exact proper rfl
  have parents : next.parent = Function.update tree.parent (rootNode x) (topNode path) := by
    rw [← nextEq, ← liftedEq]
    simp
  have nilSame : SameAt tree next nilNode :=
    (firstSame nilNode).trans (second.outside nilNode pathProper).1
  have confined : Confined (nilNode ::ₘ names (plug x path)) tree next := by
    refine (first.mono fun m inside => ?_).trans (second.mono fun m inside => ?_)
    · simp only [names_plug, Multiset.mem_cons, Multiset.mem_add] at inside ⊢
      exact inside.imp id .inl
    · simp [inside]
  refine ⟨represents.relinked x path confined.nodes confined.nilUnmarked nilSame ?_ ?_
    ?_, by simp [parents], confined, nilSame⟩
  · refine le_trans ?_ represents.known
    simp [Multiset.le_cons_self]
  · have atLifted : Hangs lifted path item.node := by
      refine hangs.confined pathDistinct first (by rw [← liftedEq]; rfl) fun m inside => ?_
      simp only [Multiset.mem_cons, not_or]
      exact ⟨fun same => pathProper (same ▸ inside), fun below => apart (.inr below) inside⟩
    rw [← nextEq]
    exact (atLifted.relink .left (rootNode x) pathDistinct pathProper (Ne.symm proper)
      (apart (.inl rfl))).confined pathDistinct (setNodeMarked_confined 0 _) rfl (by simp)
  · refine inX.rehang xDistinct (fun m inside => ?_) (fun m inside other => ?_) fun _ => by
      simp [parents]
    · exact (firstSame m).trans (second.outside m (apart (.inr inside))).1
    · simp [parents, other]

structure Dressed (tree next : Rbtree Payload) (n y left : Nat) (r : RbShape Payload) : Prop where
  same : ∀ m, m ≠ y → SameAt tree next m
  left : next.child .left y = left
  right : next.child .right y = rootNode r
  red : next.red y = tree.red n
  parent : next.parent y = tree.parent n
  parents : ∀ m, m ≠ y → m ≠ rootNode r → next.parent m = tree.parent m
  root : next.root = tree.root
  unmarked : next.marked nilNode = tree.marked nilNode
  rest : next.nodes = tree.nodes ∧ next.allowDuplicates = tree.allowDuplicates ∧
    next.useDirty = tree.useDirty ∧ next.useMarker = tree.useMarker ∧ next.payload = tree.payload ∧
    next.dirty = tree.dirty

theorem rbtreeDress_spec {left : Nat} (apart : y ≠ rootNode r)
    (places : (y ≠ right ∧ right = rootNode r) ∨
      (y = right ∧ tree.child .right y = rootNode r ∧ below = rootNode r)) :
    Dressed tree (rbtreeDress tree n below y left right) n y left r := by
  rcases places with ⟨far, rfl⟩ | ⟨rfl, child, rfl⟩
  · simp only [rbtreeDress, if_pos far]
    refine ⟨fun m away => ⟨rfl, rfl, ?_, fun side => ?_⟩, ?_, ?_, ?_, ?_, fun m away _ => ?_, rfl,
      rfl, rfl, rfl, rfl, rfl, rfl, rfl⟩
    · exact Function.update_of_ne away _ _
    · rw [setColor_child, setChild_child_of_ne _ _ _ away, setChild_child_of_ne _ _ _ away,
        setParent_child]
    · exact (setChild_child_flip .right y (rootNode r)).trans (setChild_child_same .left y left)
    · simp
    · simp [rbnodeSetColor, rbnodeSetChild, rbnodeSetParent]
    · simp
    · simp [away]
  · simp only [rbtreeDress, ne_eq, not_true_eq_false, if_false]
    refine ⟨fun m away => ⟨rfl, rfl, ?_, fun side => ?_⟩, ?_, ?_, ?_, ?_, fun m away far => ?_, rfl,
      setNodeMarked_nil y, rfl, rfl, rfl, rfl, rfl, rfl⟩
    · exact Function.update_of_ne away _ _
    · rw [setColor_child, setNodeMarked_child, setParent_child, setChild_child_of_ne _ _ _ away,
        setParent_child]
    · simp
    · simp only [setColor_child, setNodeMarked_child, setParent_child]
      exact (setChild_child_flip .left y left).trans child
    · simp [rbnodeSetColor, rbtreeSetNodeMarked, rbnodeSetChild, rbnodeSetParent]
    · simp [apart]
    · simp [away, far]

theorem Represents.takeOver
    (represents : Represents tree (plug (join .left l (item, red) r) path)) (nonempty : l ≠ .nil)
    (mem : y ∈ tree.nodes) (free : y ∉ names (plug (join .left l (item, red) r) path))
    (places : (y ≠ right ∧ right = rootNode r) ∨
      (y = right ∧ tree.child .right y = rootNode r ∧ below = rootNode r)) :
    ∃ next, rbtreeTakeOver tree item.node below y (rootNode l) right = some next ∧
      Represents next (plug (join .left l (looseItem tree y, red) r) path) ∧
      Confined (nilNode ::ₘ y ::ₘ names (plug (join .left l (item, red) r) path)) tree next ∧
      SameAt tree next nilNode ∧ next.parent item.node = topNode path ∧
      (r = .nil → next.parent nilNode = y) ∧
      (r ≠ .nil → next.parent nilNode = tree.parent nilNode) := by
  have nodup := represents.nodup
  have absent := represents.nil_notMem
  have proper : y ≠ nilNode := fun same => represents.noNil (same ▸ mem)
  have known := represents.known
  simp only [names_plug, names_join, Multiset.nodup_add, Multiset.nodup_cons, Multiset.mem_add,
    not_or, Multiset.disjoint_left, Multiset.mem_cons] at nodup absent free
  obtain ⟨⟨⟨notL, notR⟩, lDistinct, rDistinct, lNotR⟩, pathDistinct, apart⟩ := nodup
  obtain ⟨⟨itemProper, lProper, rProper⟩, pathProper⟩ := absent
  obtain ⟨⟨yNotItem, yNotL, yNotR⟩, yNotPath⟩ := free
  have hangs := represents.hangs
  obtain ⟨holds, parent, leftChild, rightChild, inL, inR⟩ := rbLinked_join.mp represents.focus
  rw [rootNode_join] at hangs
  have lRoot : rootNode l ∈ names l := rootNode_mem nonempty
  have rRoot : rootNode r = nilNode ∨ rootNode r ∈ names r := by
    cases r with
    | nil => exact .inl rfl
    | node item left right => exact .inr (rootNode_mem (by simp))
  have yNotRoot : y ≠ rootNode r := by
    rintro same
    rcases rRoot with isNil | inside
    · exact proper (same.trans isNil)
    · exact yNotR (same ▸ inside)
  have dressed : Dressed tree (rbtreeDress tree item.node below y (rootNode l) right) item.node y
    (rootNode l) r := rbtreeDress_spec yNotRoot places
  simp only [rbtreeTakeOver, if_neg proper]
  generalize rbtreeDress tree item.node below y (rootNode l) right = garbed at dressed
  have garbedParent : garbed.parent y = topNode path := dressed.parent.trans parent
  simp only [garbedParent, relink_parent]
  generalize linkedEq : rbtreeSetNodeMarked (rbtreeRelink garbed .left (topNode path) item.node y)
    (topNode path) = linked
  have relinks : Confined (pathNames path) garbed linked := by
    rw [← linkedEq]
    refine (relink_confined _ _ _ fun proper => topNode_mem ?_).trans (setNodeMarked_confined _ _)
    rintro rfl
    exact proper rfl
  have linkedRight : linked.child .right y = rootNode r :=
    ((relinks.outside y yNotPath).1.2.2.2 .right).trans dressed.right
  have linkedLeft : linked.child .left y = rootNode l :=
    ((relinks.outside y yNotPath).1.2.2.2 .left).trans dressed.left
  have linkedParent : linked.parent = garbed.parent := by
    rw [← linkedEq]
    simp
  simp only [linkedRight, linkedLeft, setParent_child, setNodeMarked_child]
  generalize nextEq : rbtreeSetNodeMarked
    (rbtreeSetNodeMarked (rbnodeSetParent (rbnodeSetParent linked
    (rootNode r) y) (rootNode l) y) (rootNode r)) (rootNode l) = next
  have parents : ∀ m, next.parent m = if m = rootNode l ∨ m = rootNode r then
      y else garbed.parent m := by
    intro m
    rw [← nextEq]
    simp only [setNodeMarked_parent, setParent_parent, linkedParent, Function.update_apply]
    split_ifs <;> simp_all
  have same : ∀ m, m ≠ y → m ∉ pathNames path → SameAt tree next m := by
    intro m notY notPath
    refine (dressed.same m notY).trans ((relinks.outside m notPath).1.trans ?_)
    rw [← nextEq]
    exact ⟨rfl, rfl, rfl, fun _ => rfl⟩
  have yLinks : SameAt garbed next y := by
    refine (relinks.outside y yNotPath).1.trans ?_
    rw [← nextEq]
    exact ⟨rfl, rfl, rfl, fun _ => rfl⟩
  have kept : ∀ m, m ≠ y → m ≠ rootNode l → m ≠ rootNode r → next.parent m = tree.parent m := by
    intro m notY notL notR
    rw [parents, if_neg (by simp [notL, notR]), dressed.parents m notY notR]
  have farR : ∀ m, m ≠ nilNode → m ∉ names r → m ≠ rootNode r := by
    rintro m away outside rfl
    exact rRoot.elim away outside
  obtain ⟨nodesSame, duplicatesSame, dirtySame, markerSame, payloadSame, dirtyBits⟩ := dressed.rest
  have nilSame : SameAt tree next nilNode := same nilNode (Ne.symm proper) pathProper
  have unmarked : next.marked nilNode = tree.marked nilNode := by
    rw [← nextEq, setNodeMarked_nil, setNodeMarked_nil]
    exact relinks.nilUnmarked.trans dressed.unmarked
  have nodes : next.nodes = tree.nodes := by
    rw [← nextEq]
    exact relinks.nodes.trans nodesSame
  have pathHangs : Hangs next path y := by
    have atGarbed : Hangs garbed path item.node := by
      refine hangs.elsewhere pathDistinct dressed.root fun m inside => ⟨dressed.same m ?_, ?_⟩
      · exact fun here => yNotPath (here ▸ inside)
      · refine dressed.parents m (fun here => yNotPath (here ▸ inside)) (farR m ?_ ?_)
        · exact fun here => pathProper (here ▸ inside)
        · exact fun below => apart (.inr (.inr below)) inside
    have atLinked : Hangs linked path y := by
      rw [← linkedEq]
      exact (atGarbed.relink .left y pathDistinct pathProper (Ne.symm itemProper)
        (apart (.inl rfl))).confined pathDistinct (setNodeMarked_confined 0 _) rfl (by simp)
    refine atLinked.elsewhere pathDistinct (by rw [← nextEq]; rfl) fun m inside => ⟨?_, ?_⟩
    · rw [← nextEq]
      exact ⟨rfl, rfl, rfl, fun _ => rfl⟩
    · rw [parents, linkedParent, if_neg]
      rintro (rfl | here)
      · exact apart (.inr (.inl lRoot)) inside
      · refine farR m (fun isNil => pathProper (isNil ▸ inside)) (fun below => ?_) here
        exact apart (.inr (.inr below)) inside
  refine ⟨next, rfl, represents.relinked _ path nodes unmarked nilSame ?_ ?_ ?_, ?_, nilSame, ?_,
    ?_, ?_⟩
  · rw [Multiset.le_iff_subset]
    · intro m inside
      simp only [names_plug, names_join, Multiset.mem_add, Multiset.mem_cons] at inside
      rcases inside with (rfl | inside) | inside
      · exact Multiset.mem_coe.mpr mem
      · refine Multiset.mem_of_le known ?_
        simp [inside]
      · refine Multiset.mem_of_le known ?_
        simp [inside]
    · simp only [names_plug, names_join, Multiset.nodup_add, Multiset.nodup_cons, Multiset.mem_add,
        not_or, Multiset.disjoint_left, Multiset.mem_cons, looseItem]
      refine ⟨⟨⟨yNotL, yNotR⟩, lDistinct, rDistinct, lNotR⟩, pathDistinct, ?_⟩
      rintro m (rfl | inside)
      · exact yNotPath
      · exact apart (.inr inside)
  · rw [rootNode_join]
    exact pathHangs
  · refine rbLinked_join.mpr ⟨⟨?_, ?_, ?_⟩, ?_, ?_, ?_, ?_, ?_⟩
    · exact yLinks.1.trans (congrFun payloadSame y)
    · exact yLinks.2.1.trans (congrFun dirtyBits y)
    · exact yLinks.2.2.1.trans (dressed.red.trans holds.2.2)
    · have yNotLRoot : y ≠ rootNode l := fun here => yNotL (here ▸ lRoot)
      exact (parents y).trans ((if_neg (by simp [yNotLRoot, yNotRoot])).trans garbedParent)
    · exact (yLinks.2.2.2 .left).trans dressed.left
    · exact (yLinks.2.2.2 .right).trans dressed.right
    · refine inL.rehang lDistinct (fun m inside => same m ?_ ?_)
        (fun m inside other => kept m ?_ other ?_) fun _ => by simp [parents, looseItem]
      · exact fun here => yNotL (here ▸ inside)
      · exact apart (.inr (.inl inside))
      · exact fun here => yNotL (here ▸ inside)
      · exact farR m (fun isNil => lProper (isNil ▸ inside)) (lNotR inside)
    · refine inR.rehang rDistinct (fun m inside => same m ?_ ?_)
        (fun m inside other => kept m ?_ ?_ other) fun _ => by simp [parents, looseItem]
      · exact fun here => yNotR (here ▸ inside)
      · exact apart (.inr (.inr inside))
      · exact fun here => yNotR (here ▸ inside)
      · exact fun here => lNotR lRoot (here ▸ inside)
  · refine ⟨nodes, ?_, ?_, ?_, ?_, unmarked, fun m outside => ?_⟩
    · rw [← nextEq]
      exact relinks.allowDuplicates.trans duplicatesSame
    · rw [← nextEq]
      exact relinks.useDirty.trans dirtySame
    · rw [← nextEq]
      exact relinks.useMarker.trans markerSame
    · rw [← nextEq]
      exact relinks.payload.trans payloadSame
    · simp only [names_plug, names_join, Multiset.mem_add, Multiset.mem_cons, not_or] at outside
      obtain ⟨notNil, notY, ⟨_, notL, notR⟩, notPath⟩ := outside
      exact ⟨same m notY notPath, kept m notY (fun here => notL (here ▸ lRoot)) (farR m notNil notR)⟩
  · refine (kept item.node (Ne.symm yNotItem) ?_ (farR _ (Ne.symm itemProper) notR)).trans parent
    exact fun here => notL (here ▸ lRoot)
  · rintro rfl
    simp [parents]
  · intro below
    refine kept nilNode (Ne.symm proper) (fun here => lProper (here ▸ lRoot)) fun here => ?_
    exact rProper (here ▸ rootNode_mem below)

end RbtreeUnlink

end MulleCore
