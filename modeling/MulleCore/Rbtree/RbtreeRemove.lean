import MulleCore.Rbtree.RbtreeUnlink

/-!
Removal of a node: the successor is found and cut out, the dirty bits are set, the node is
freed, and the tree is balanced again.
-/

namespace MulleCore

open Library

section RbtreeOutermost

variable {Payload : Type} {tree : Rbtree Payload}

theorem RbLinked.outermost (side : Side) : ∀ (fuel : Nat) {shape : RbShape Payload} {above : Nat},
    RbLinked tree above shape → nilNode ∉ names shape → shape ≠ .nil → (names shape).card ≤ fuel →
    ∃ way item red far, shape = plug (join side .nil (item, red) far) way ∧
      (∀ frame ∈ way, frame.side = side) ∧
      rbtreeOutermost tree side fuel (rootNode shape) = some item.node := by
  intro fuel
  induction fuel with
  | zero =>
    intro shape above _ _ nonempty enough
    have empty : names shape = 0 := Multiset.card_eq_zero.mp (Nat.le_zero.mp enough)
    have inside := rootNode_mem nonempty
    simp [empty] at inside
  | succ fuel ih =>
    intro shape above linked absent nonempty enough
    cases shape with
    | nil => exact absurd rfl nonempty
    | node whole left right =>
      obtain ⟨near, far, same⟩ := exists_join side whole left right
      obtain ⟨item, red⟩ := whole
      rw [same] at linked absent enough ⊢
      obtain ⟨_, _, nearChild, _, inNear, _⟩ := rbLinked_join.mp linked
      simp only [names_join, Multiset.mem_cons, Multiset.mem_add, not_or, Multiset.card_cons,
        Multiset.card_add] at absent enough
      cases near with
      | nil =>
        refine ⟨[], item, red, far, rfl, by simp, ?_⟩
        simp [rbtreeOutermost, nearChild]
      | node other a b =>
        have proper : rootNode (.node other a b) ≠ nilNode :=
          fun isNil => absent.2.1 (isNil ▸ rootNode_mem (by simp))
        obtain ⟨way, found, foundRed, beyond, isPlug, onSide, steps⟩ :=
          ih inNear absent.2.1 (by simp) (by omega)
        refine ⟨way ++ [⟨side, (item, red), far⟩], found, foundRed, beyond, ?_, ?_, ?_⟩
        · rw [plug_append, ← isPlug]
          rfl
        · intro frame inside
          simp only [List.mem_append, List.mem_singleton] at inside
          rcases inside with inside | rfl
          · exact onSide frame inside
          · rfl
        · rw [rbtreeOutermost, rootNode_join, nearChild, if_neg proper]
          exact steps

end RbtreeOutermost

section RbtreeRemoveDirty

variable {Payload : Type} {tree next : Rbtree Payload} {path rest : RbPath Payload}
  {shape : RbShape Payload} {n : Nat}
variable {x l : RbShape Payload}

@[simp] theorem touchItem_touchItem (useDirty : Bool) (item : RbItem Payload × Bool) :
    touchItem useDirty (touchItem useDirty item) = touchItem useDirty item := by
  exact Prod.ext (by simp [RbItem.touch]) rfl

@[simp] theorem touchPath_touchPath (useDirty : Bool) (path : RbPath Payload) :
    touchPath (touchItem useDirty) (touchPath (touchItem useDirty) path) =
      touchPath (touchItem useDirty) path := by
  simp [touchPath]

@[simp] theorem rootNode_touchRoot (useDirty : Bool) (shape : RbShape Payload) :
    rootNode (touchRoot (touchItem useDirty) shape) = rootNode shape := by
  cases shape <;> rfl

@[simp] theorem names_touchRoot (useDirty : Bool) (shape : RbShape Payload) :
    names (touchRoot (touchItem useDirty) shape) = names shape := by
  cases shape <;> simp [touchRoot, names, inorder]

theorem Represents.markTop (represents : Represents tree (plug shape path))
    (uses : tree.useDirty = true) :
    ∃ next, rbtreeMarkIf tree (topNode path ≠ nilNode) (topNode path) = some next ∧
      Represents next (plug shape (touchPath (touchItem true) path)) ∧
      Confined (names (plug shape path)) tree next := by
  cases path with
  | nil => exact ⟨tree, rfl, represents, .refl _ _⟩
  | cons frame path =>
    obtain ⟨side, ⟨item, red⟩, sibling⟩ := frame
    obtain ⟨next, marked, marks, confined⟩ := Represents.markNodeAsDirty
      (show Represents tree (plug (join side shape (item, red) sibling) path) from represents) uses
    refine ⟨next, ?_, marks, confined⟩
    simpa [rbtreeMarkIf, represents.top_proper] using marked

theorem Represents.markFocus (represents : Represents tree (plug shape path))
    (uses : tree.useDirty = true) (nonempty : shape ≠ .nil) :
    ∃ next, rbtreeMarkIf tree (rootNode shape ≠ nilNode) (rootNode shape) = some next ∧
      Represents next (plug (touchRoot (touchItem true) shape) (touchPath (touchItem true) path)) ∧
      Confined (names (plug shape path)) tree next := by
  cases shape with
  | nil => exact absurd rfl nonempty
  | node item left right =>
    obtain ⟨next, marked, marks, confined⟩ := Represents.markNodeAsDirty
      (show Represents tree (plug (join .left left (item.1, item.2) right) _) from represents) uses
    refine ⟨next, ?_, marks, confined⟩
    have proper : item.1.node ≠ nilNode := represents.root_proper (by simp)
    simpa [rbtreeMarkIf, rootNode, proper] using marked

theorem Hangs.dirty_of_mem_spine : ∀ {path : RbPath Payload} {focus : Nat},
    Hangs tree (touchPath (touchItem true) path) focus → ∀ m ∈ spine path, tree.dirty m = true := by
  intro path
  induction path with
  | nil => simp
  | cons frame path ih =>
    intro focus hangs
    obtain ⟨side, ⟨item, red⟩, sibling⟩ := frame
    obtain ⟨⟨_, dirty, _⟩, _, _, _, _, above⟩ := hangs
    simp only [spine_cons, List.mem_cons, forall_eq_or_imp]
    exact ⟨by simpa using dirty, ih above⟩

theorem Represents.markLoose
    (represents : Represents tree (plug shape (touchPath (touchItem true) path)))
    (uses : tree.useDirty = true) (mem : n ∈ tree.nodes) (free : n ∉ names (plug shape path))
    (parent : tree.parent n = topNode path) :
    ∃ next, rbtreeMarkNodeAsDirty tree n = some next ∧
      Represents next (plug shape (touchPath (touchItem true) path)) ∧
      Confined (n ::ₘ names (plug shape path)) tree next := by
  have proper : n ≠ nilNode := fun same => represents.noNil (same ▸ mem)
  have absent := represents.nil_notMem
  have distinct := represents.nodup
  have known := represents.known
  have hangs := represents.hangs
  have already := hangs.dirty_of_mem_spine
  have spineSame : spine (touchPath (touchItem true) path) = spine path := by
    simp [spine, touchPath]
  simp only [names_plug, pathNames_touchPath] at absent distinct known
  have enough : path.length < tree.nodes.length := by
    have more : n ::ₘ (names shape + pathNames path) ≤ (tree.nodes : Multiset Nat) := by
      rw [Multiset.le_iff_subset]
      · intro m inside
        rcases Multiset.mem_cons.mp inside with rfl | inside
        · exact Multiset.mem_coe.mpr mem
        · exact Multiset.mem_of_le known inside
      · exact Multiset.nodup_cons.mpr ⟨by simpa using free, distinct⟩
    have card := Multiset.card_le_card more
    have length := length_le_card_pathNames path
    simp only [Multiset.card_cons, Multiset.card_add, Multiset.coe_card] at card
    omega
  have marked := hangs.markUp
    (by simpa using fun inside => absent (Multiset.mem_add.mpr (.inr inside)))
    (by simpa using enough) (Function.update tree.dirty n true)
  rw [topNode_touchPath, spineSame] at marked
  have same : ∀ m, m ≠ n →
      (decide (m ∈ spine path) || Function.update tree.dirty n true m) = tree.dirty m := by
    intro m other
    rw [Function.update_of_ne other]
    by_cases inside : m ∈ spine path
    · simp [inside, already m inside]
    · simp [inside]
  refine ⟨{ tree with
    dirty := fun m => decide (m ∈ spine path) || Function.update tree.dirty n true m }, ?_, ?_, ?_⟩
  · simp only [rbtreeMarkNodeAsDirty, uses, if_true, Rbtree.steps, rbtreeMarkUp, if_neg proper,
      parent, marked, Option.bind_eq_bind, Option.bind_some]
  · refine represents.relinked shape _ rfl rfl ⟨rfl, same _ (Ne.symm proper), rfl, fun _ => rfl⟩
      represents.known ?_ ?_
    · refine hangs.elsewhere ?_ rfl fun m inside => ⟨⟨rfl, same m ?_, rfl, fun _ => rfl⟩, rfl⟩
      · simpa using (Multiset.nodup_add.mp distinct).2.1
      · rintro rfl
        simp only [pathNames_touchPath] at inside
        simp [inside] at free
    · refine represents.focus.elsewhere (Multiset.nodup_add.mp distinct).1 fun m inside =>
        ⟨⟨rfl, same m ?_, rfl, fun _ => rfl⟩, rfl⟩
      rintro rfl
      simp [inside] at free
  · refine ⟨rfl, rfl, rfl, rfl, rfl, rfl, fun m outside => ⟨⟨rfl, same m ?_, rfl, fun _ => rfl⟩, rfl⟩⟩
    rintro rfl
    simp at outside

@[simp] theorem touchRoot_id (shape : RbShape Payload) : touchRoot id shape = shape := by
  cases shape <;> rfl

theorem Represents.removeDirty_self (represents : Represents tree (plug shape path))
    (parent : tree.parent n = topNode path) :
    ∃ next, rbtreeRemoveDirty tree n (rootNode shape) n nilNode = some next ∧
      Represents next (plug (touchRoot (touchItem tree.useDirty) shape)
        (touchPath (touchItem tree.useDirty) path)) ∧
      Confined (names (plug shape path)) tree next := by
  cases uses : tree.useDirty with
  | false => exact ⟨tree, by simp [rbtreeRemoveDirty, uses], by simpa using represents, .refl _ _⟩
  | true =>
    obtain ⟨first, topMarked, above, firstConfined⟩ := represents.markTop uses
    have steps : rbtreeRemoveDirty tree n (rootNode shape) n nilNode =
        rbtreeMarkIf first (rootNode shape ≠ nilNode) (rootNode shape) := by
      simp only [rbtreeRemoveDirty, uses, if_true, parent, topMarked, Option.bind_eq_bind,
        Option.bind_some, ne_eq, not_true_eq_false, false_and, decide_false]
      simp [rbtreeMarkIf]
    rw [steps]
    cases shape with
    | nil => exact ⟨first, rfl, above, firstConfined⟩
    | node item left right =>
      obtain ⟨next, marked, marks, confined⟩ :=
        above.markFocus (firstConfined.useDirty.trans uses) (by simp)
      rw [touchPath_touchPath] at marks
      refine ⟨next, marked, marks, firstConfined.trans (confined.mono ?_)⟩
      simp

theorem plug_successor (way path : RbPath Payload)
    (item : RbItem Payload × Bool) : plug (join .left l item (plug x way)) path =
      plug x (way ++ ⟨.right, item, l⟩ :: path) := by
  rw [plug_append]
  rfl

theorem Represents.removeDirty_successor {item : RbItem Payload} {red : Bool}
    {way : RbPath Payload} {original : Nat}
    (represents : Represents tree (plug (join .left l (item, red) (plug x way)) path))
    (mem : n ∈ tree.nodes)
    (free : n ∉ names (plug (join .left l (item, red) (plug x way)) path))
    (parent : tree.parent n = topNode path) (other : item.node ≠ n)
    (above : (way = [] ∧ original = n) ∨ (way ≠ [] ∧ original = topNode way)) :
    ∃ next, rbtreeRemoveDirty tree n (rootNode x) item.node original = some next ∧
      Represents next (plug (touchRoot (touchItem tree.useDirty) x)
        (touchPath (touchItem tree.useDirty) (way ++ ⟨.right, (item, red), l⟩ :: path))) ∧
      Confined (n ::ₘ names (plug (join .left l (item, red) (plug x way)) path)) tree next := by
  cases uses : tree.useDirty with
  | false =>
    refine ⟨tree, by simp [rbtreeRemoveDirty, uses], ?_, .refl _ _⟩
    rw [plug_successor] at represents
    simpa using represents
  | true =>
    have proper : item.node ≠ nilNode := represents.ne_nil (by simp)
    have loose : n ≠ nilNode := fun same => represents.noNil (same ▸ mem)
    obtain ⟨first, topMarked, atTop, firstConfined⟩ := represents.markTop uses
    obtain ⟨second, successorMarked, atSuccessor, secondConfined⟩ :=
      atTop.markFocus (firstConfined.useDirty.trans uses) (join_ne_nil _ _ _ _)
    rw [touchRoot_join, touchPath_touchPath] at atSuccessor
    have same : names (plug (join .left l (item, red) (plug x way))
        (touchPath (touchItem true) path)) =
        names (plug (join .left l (item, red) (plug x way)) path) := by simp
    rw [same] at secondConfined
    have confined := firstConfined.trans secondConfined
    have usesSecond := confined.useDirty.trans uses
    have below : Represents second (plug x (way ++ touchPath (touchItem true)
        (⟨.right, (item, red), l⟩ :: path))) := by
      have moved := atSuccessor
      rw [plug_successor] at moved
      exact moved
    have steps : rbtreeRemoveDirty tree n (rootNode x) item.node original =
        (rbtreeMarkIf second (rootNode x = nilNode ∧ original ≠ nilNode) original).bind fun third =>
          rbtreeMarkIf third (rootNode x ≠ nilNode) (rootNode x) := by
      rw [rootNode_join] at successorMarked
      simp only [rbtreeRemoveDirty, uses, if_true, parent, topMarked, Option.bind_eq_bind,
        Option.bind_some]
      simp only [ne_eq, other, proper, not_false_eq_true, and_self, decide_true, true_and]
      simp only [ne_eq, proper, not_false_eq_true, decide_true] at successorMarked
      rw [successorMarked]
      rfl
    rw [steps]
    have whole : names (plug x
      (way ++ touchPath (touchItem true) (⟨.right, (item, red), l⟩ :: path))) =
        names (plug (join .left l (item, red) (plug x way)) path) := by
      rw [plug_successor]
      simp [plug_append, plug]
    cases x with
    | node focus left right =>
      obtain ⟨next, marked, marks, markConfined⟩ := below.markFocus usesSecond (by simp)
      rw [touchPath_append, touchPath_touchPath, ← touchPath_append] at marks
      rw [whole] at markConfined
      have nonempty : rootNode (.node focus left right) ≠ nilNode := below.root_proper (by simp)
      refine ⟨next, ?_, marks, (confined.trans markConfined).mono fun m => Multiset.mem_cons_of_mem⟩
      simpa [rbtreeMarkIf, nonempty] using marked
    | nil =>
      rcases above with ⟨rfl, rfl⟩ | ⟨nonempty, rfl⟩
      · obtain ⟨next, marked, marks, markConfined⟩ := atSuccessor.markLoose usesSecond
          (confined.nodes.symm ▸ mem) (by simpa using free)
          ((confined.outside _ free).2.trans parent)
        refine ⟨next, ?_, marks, (confined.mono fun m => Multiset.mem_cons_of_mem).trans ?_⟩
        · simpa [rbtreeMarkIf, loose] using marked
        · simpa using markConfined
      · obtain ⟨next, marked, marks, markConfined⟩ := below.markTop usesSecond
        rw [touchPath_append, touchPath_touchPath, ← touchPath_append] at marks
        rw [whole] at markConfined
        refine ⟨next, ?_, marks, (confined.trans markConfined).mono fun m =>
          Multiset.mem_cons_of_mem⟩
        cases way with
        | nil => exact absurd rfl nonempty
        | cons frame way =>
          have top : frame.item.1.node ≠ nilNode := below.ne_nil (by simp)
          simpa [rbtreeMarkIf, top] using marked

end RbtreeRemoveDirty

end MulleCore
