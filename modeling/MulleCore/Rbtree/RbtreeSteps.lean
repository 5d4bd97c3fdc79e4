import MulleCore.Rbtree.RbtreeWalk

/-!
What every operation does to a tree, as far as it can be seen in order.
-/

namespace MulleCore

open Library

section RbtreeAttachGood

variable {Payload : Type} {tree next : Rbtree Payload} {shape : RbShape Payload}
  {path : RbPath Payload} {n : Nat}

theorem writeNode_elsewhere (tree : Rbtree Payload) (fields : Rbnode Payload) {m : Nat}
    (other : m ≠ n) : SameAt tree (rbtreeWriteNode tree n fields) m ∧
      (rbtreeWriteNode tree n fields).parent m = tree.parent m := by
  refine ⟨⟨?_, ?_, ?_, fun side => if_neg other⟩, ?_⟩
  · exact Function.update_of_ne other _ _
  · exact Function.update_of_ne other _ _
  · exact Function.update_of_ne other _ _
  · exact Function.update_of_ne other _ _

theorem RbtreeGood.newNode (good : RbtreeGood tree shape) (proper : n ≠ nilNode)
    (unused : n ∉ tree.nodes) (value : Payload) : RbtreeGood (rbtreeNewNode tree n value) shape := by
  have represents := good.represents
  have free : n ∉ names shape := fun inside => unused (represents.mem_nodes inside)
  have elsewhere : ∀ m, m ≠ n → SameAt tree (rbtreeNewNode tree n value) m ∧
      (rbtreeNewNode tree n value).parent m = tree.parent m :=
    fun m other => writeNode_elsewhere { tree with nodes := n :: tree.nodes } _ other
  obtain ⟨⟨_, clean, black, _⟩, nilParent⟩ := elsewhere nilNode (Ne.symm proper)
  refine ⟨⟨⟨List.nodup_cons.mpr ⟨unused, represents.distinct⟩, ?_, ?_, ?_, ?_⟩, represents.root, ?_,
    ?_⟩, good.redBlack, good.dirtyOk, ?_, fun empty => nilParent.trans (good.nilParent empty)⟩
  · exact fun inside => (List.mem_cons.mp inside).elim (Ne.symm proper) represents.noNil
  · exact black.trans represents.nilBlack
  · exact clean.trans represents.nilClean
  · exact (Function.update_of_ne (Ne.symm proper) _ _).trans represents.nilUnmarked
  · refine represents.linked.elsewhere represents.nodup fun m inside => elsewhere m ?_
    rintro rfl
    exact free inside
  · exact represents.known.trans (Multiset.le_cons_self _ _)
  · intro m known outside
    rcases List.mem_cons.mp known with rfl | known
    · refine ⟨?_, fun side => ?_, ?_, ?_⟩
      · simp [rbtreeNewNode, rbtreeInitNode, rbtreeWriteNode]
      · cases side <;> simp [rbtreeNewNode, rbtreeInitNode, rbtreeWriteNode]
      · simp [rbtreeNewNode, rbtreeInitNode, rbtreeWriteNode]
      · simp [rbtreeNewNode, rbtreeInitNode, rbtreeWriteNode]
    · have other : m ≠ n := fun same => unused (same ▸ known)
      exact (good.loose m known outside).elsewhere (elsewhere m other).1 (elsewhere m other).2 rfl

theorem RbtreeGood.freeNode (good : RbtreeGood tree shape) (mem : n ∈ tree.nodes)
    (free : n ∉ names shape) (garbage : Rbnode Payload) :
    RbtreeGood (rbtreeFreeNode tree n garbage) shape := by
  have proper : n ≠ nilNode := fun same => good.represents.noNil (same ▸ mem)
  refine ⟨good.represents.freeNode free proper, good.redBlack, good.dirtyOk, ?_, fun empty => ?_⟩
  · intro m known outside
    have other : m ≠ n := by
      rintro rfl
      exact good.represents.distinct.not_mem_erase known
    obtain ⟨same, parent⟩ := rbtreeFreeNode_sameAt tree garbage other
    exact (good.loose m (List.mem_of_mem_erase known) outside).elsewhere same parent rfl
  · exact (rbtreeFreeNode_sameAt tree garbage (Ne.symm proper)).2.trans (good.nilParent empty)

theorem names_eq_map (shape : RbShape Payload) :
    names shape = (inorder (plain shape)).map RbItem.node := by
  simp [names, inorder_plain, Function.comp_def]

theorem Attached.names_eq (attached : Attached tree path n shape) :
    names shape = n ::ₘ names (plug .nil path) := by
  rw [names_eq_map, names_eq_map, attached.order RbItem.node (touch_node _), plain_plug, inorder_plug]
  simp [looseItem, inorder]

structure SameOptions (tree next : Rbtree Payload) : Prop where
  allowDuplicates : next.allowDuplicates = tree.allowDuplicates
  useDirty : next.useDirty = tree.useDirty

theorem RbtreeGood.attachNode (good : RbtreeGood tree (plug .nil path)) (mem : n ∈ tree.nodes)
    (free : n ∉ names (plug .nil path)) (direction : Int)
    (towards : ∀ frame ∈ path.head?, frame.side = if direction < 0 then Side.left else .right) :
    ∃ next shape, rbtreeAttachNode tree n (topNode path) direction = some next ∧
      RbtreeGood next shape ∧ next.payload = tree.payload ∧
      SameOptions tree next ∧ Attached tree path n shape := by
  have loose := good.loose n mem free
  obtain ⟨next, shape, attach, represents, redBlack, confined, attached⟩ :=
    good.represents.attachNode good.redBlack mem free loose towards
  refine ⟨next, shape, attach, ⟨represents, redBlack, ?_, ?_, ?_⟩, confined.payload,
    ⟨confined.allowDuplicates, confined.useDirty⟩, attached⟩
  · rw [confined.useDirty]
    have dirtyOk := good.dirtyOk
    cases uses : tree.useDirty with
    | true =>
      rw [uses] at dirtyOk
      exact attached.everywhere _ uses dirtyOk_touch dirtyOk
    | false =>
      rw [uses, dirtyOk_false_iff, plain_plug, inorder_plug] at dirtyOk
      rw [dirtyOk_false_iff, attached.order RbItem.dirty (by simp [uses])]
      have clean : (looseItem tree n).dirty = false := loose.dirty.trans uses
      simp only [inorder, plain_nil, List.append_nil, List.map_append, List.mem_append] at dirtyOk
      simp only [clean, List.mem_append, List.mem_cons]
      rintro dirty (inside | rfl | inside)
      · exact dirtyOk dirty (.inl inside)
      · rfl
      · exact dirtyOk dirty (.inr inside)
  · intro m known outside
    rw [attached.names_eq] at outside
    rw [confined.nodes] at known
    obtain ⟨same, parent⟩ := confined.outside m outside
    refine (good.loose m known ?_).elsewhere same parent confined.useDirty
    exact fun inside => outside (Multiset.mem_cons_of_mem inside)
  · rintro rfl
    have names := attached.names_eq
    simp [eq_comm] at names

theorem RbtreeGood.removeNode (good : RbtreeGood tree shape) (inside : n ∈ names shape)
    (garbage : Rbnode Payload) :
    ∃ next final, rbtreeRemoveNode tree n garbage = some next ∧ RbtreeGood next final ∧
      Unlinked (names shape) tree next n ∧ Removed tree.useDirty n (plain shape) (plain final) := by
  obtain ⟨next, final, remove, represents, redBlack, unlinked, removed, dirtyOk, nilParent⟩ :=
    good.represents.removeNode good.redBlack good.dirtyOk inside garbage
  refine ⟨next, final, remove, ⟨represents, redBlack, dirtyOk, ?_, nilParent⟩, unlinked, removed⟩
  intro m known outside
  rw [unlinked.nodes] at known
  have other : m ≠ n := by
    rintro rfl
    exact good.represents.distinct.not_mem_erase known
  have free : m ∉ names shape := by
    rw [removed.names_eq, Multiset.mem_cons, not_or]
    exact ⟨other, outside⟩
  have proper : m ≠ nilNode := by
    rintro rfl
    exact good.represents.noNil (List.mem_of_mem_erase known)
  obtain ⟨same, parent⟩ := unlinked.outside m free proper
  exact (good.loose m (List.mem_of_mem_erase known) free).elsewhere same parent unlinked.useDirty

end RbtreeAttachGood

section RbtreePlaces

variable {Payload : Type} {tree : Rbtree Payload} {shape : RbShape Payload} {path : RbPath Payload}
  {comp : Payload → Payload → Int} {value : Payload}

structure PlaceOf (tree : Rbtree Payload) (comp : Payload → Payload → Int) (value : Payload)
    (path : RbPath Payload) : Prop where
  leads : Leads comp RbItem.payload value (plainPath path)
  differs : tree.allowDuplicates = false →
    ∀ frame ∈ plainPath path, comp value frame.item.payload ≠ 0

theorem RbLinked.findPlace : ∀ (fuel : Nat) {focus : RbShape Payload} {path : RbPath Payload}
    {above : Nat}, RbLinked tree above focus → focus ≠ .nil → nilNode ∉ names focus →
    (names focus).card ≤ fuel → PlaceOf tree comp value path →
    (rbtreeFindPlace tree comp value fuel (rootNode focus) = some none ∧
      tree.allowDuplicates = false ∧
      ∃ item ∈ inorder (plain focus), comp value item.payload = 0) ∨
    ∃ frame way, plug .nil (frame :: way) = plug focus path ∧
      rbtreeFindPlace tree comp value fuel (rootNode focus) =
        some (some (frame.item.1.node, comp value frame.item.1.payload)) ∧
      PlaceOf tree comp value (frame :: way) := by
  intro fuel
  induction fuel with
  | zero =>
    intro focus path above _ nonempty _ enough _
    have empty : names focus = 0 := Multiset.card_eq_zero.mp (Nat.le_zero.mp enough)
    have inside := rootNode_mem nonempty
    simp [empty] at inside
  | succ fuel ih =>
    intro focus path above linked nonempty absent enough place
    cases focus with
    | nil => exact absurd rfl nonempty
    | node whole left right =>
      generalize sideEq : sideOf (comp value whole.1.payload) = side
      obtain ⟨near, far, same⟩ := exists_join side whole left right
      obtain ⟨item, red⟩ := whole
      rw [same] at linked absent enough ⊢
      obtain ⟨holds, _, nearChild, _, inNear, _⟩ := rbLinked_join.mp linked
      simp only [names_join, Multiset.mem_cons, Multiset.mem_add, not_or, Multiset.card_cons,
        Multiset.card_add] at absent enough
      have payload : tree.payload item.node = item.payload := holds.1
      rw [rootNode_join, rbtreeFindPlace, payload]
      by_cases duplicate : comp value item.payload = 0 ∧ tree.allowDuplicates = false
      · refine .inl ⟨if_pos duplicate, duplicate.2, item, ?_, duplicate.1⟩
        rw [plain_join, mem_inorder_join]
        exact .inl rfl
      · have below : PlaceOf tree comp value (⟨side, (item, red), far⟩ :: path) := by
          refine ⟨?_, fun unique => ?_⟩
          · simpa [Leads, ← sideEq] using place.leads
          · have differs := place.differs unique
            simp only [unique, and_true] at duplicate
            simpa [duplicate] using differs
        have next : (if comp value item.payload < 0 then tree.child .left item.node
            else tree.child .right item.node) = rootNode near := by
          rw [← nearChild, ← sideEq]
          simp only [sideOf]
          split_ifs <;> rfl
        simp only [if_neg duplicate, next]
        cases near with
        | nil => exact .inr ⟨_, path, rfl, if_pos rfl, below⟩
        | node other a b =>
          have proper : rootNode (.node other a b) ≠ nilNode :=
            fun isNil => absent.2.1 (isNil ▸ rootNode_mem (by simp))
          rw [if_neg proper]
          rcases ih inNear (by simp) absent.2.1 (by omega) below with
            ⟨found, unique, equal, inside, isEqual⟩ | placed
          · refine .inl ⟨found, unique, equal, ?_, isEqual⟩
            rw [plain_join, mem_inorder_join]
            exact .inr (.inl inside)
          · exact .inr placed

theorem RbtreeGood.insertNode {n : Nat} (good : RbtreeGood tree shape) (mem : n ∈ tree.nodes)
    (free : n ∉ names shape) (comp : Payload → Payload → Int) :
    (rbtreeInsertNode tree comp n = some (tree, eexist) ∧ tree.allowDuplicates = false ∧
      ∃ item ∈ inorder (plain shape), comp (tree.payload n) item.payload = 0) ∨
    ∃ next final path, rbtreeInsertNode tree comp n = some (next, 0) ∧ RbtreeGood next final ∧
      next.payload = tree.payload ∧ SameOptions tree next ∧
      shape = plug .nil path ∧ PlaceOf tree comp (tree.payload n) path ∧
      Attached tree path n final := by
  have represents := good.represents
  have proper : n ≠ nilNode := fun same => represents.noNil (same ▸ mem)
  by_cases empty : shape = .nil
  · subst empty
    have root : tree.root = nilNode := represents.root
    obtain ⟨next, final, attach, nextGood, payload, options, attached⟩ :=
      (show RbtreeGood tree (plug .nil []) from good).attachNode mem free 0 (by simp)
    refine .inr ⟨next, final, [], ?_, nextGood, payload, options, rfl,
      ⟨by simp [Leads, plainPath], ?_⟩, attached⟩
    · simp only [rbtreeInsertNode, if_neg proper, if_pos root, topNode_nil] at attach ⊢
      simp [attach]
    · simp [plainPath]
  · have rootProper : tree.root ≠ nilNode := fun isNil => empty (represents.root_eq_nil_iff.mp isNil)
    have enough : (names shape).card ≤ tree.steps := represents.card_le.trans (Nat.le_succ _)
    have start : PlaceOf tree comp (tree.payload n) ([] : RbPath Payload) :=
      ⟨by simp [Leads, plainPath], by simp [plainPath]⟩
    rcases represents.linked.findPlace tree.steps empty represents.nil_notMem enough start with
      ⟨found, unique, equal⟩ | ⟨frame, way, same, found, place⟩
    · refine .inl ⟨?_, unique, equal⟩
      rw [← represents.root] at found
      simp [rbtreeInsertNode, proper, rootProper, found]
    · rw [show plug shape [] = shape from rfl] at same
      subst same
      have towards : frame.side = sideOf (comp (tree.payload n) frame.item.1.payload) := by
        have leads := place.leads
        simp only [Leads, plainPath_cons, List.mem_cons, forall_eq_or_imp] at leads
        exact leads.1
      obtain ⟨next, final, attach, nextGood, payload, options, attached⟩ :=
        good.attachNode mem free (comp (tree.payload n) frame.item.1.payload)
          (by simpa [sideOf] using towards)
      refine .inr ⟨next, final, frame :: way, ?_, nextGood, payload, options, rfl, place, attached⟩
      rw [topNode_cons] at attach
      rw [← represents.root] at found
      simp [rbtreeInsertNode, proper, rootProper, found, attach]

def Beside (side : Side) (item : RbItem Payload) (path : Path (RbItem Payload)) : Prop :=
  match side with
  | .left => ∃ later, after path = item :: later
  | .right => ∃ earlier, before path = earlier ++ [item]

theorem beside_top (side : Side) (item : RbItem Payload) (far : BinaryTree (RbItem Payload))
    (path : Path (RbItem Payload)) : Beside side item (⟨side, item, far⟩ :: path) := by
  cases side with
  | left => exact ⟨_, rfl⟩
  | right => exact ⟨_, rfl⟩

theorem beside_below (side : Side) (item : RbItem Payload) (far : BinaryTree (RbItem Payload))
    {way : Path (RbItem Payload)} (path : Path (RbItem Payload))
    (turned : ∀ frame ∈ way, frame.side = side.flip) :
    Beside side item (way ++ ⟨side, item, far⟩ :: path) := by
  cases side with
  | left =>
    simp only [Beside, after_append, after_eq_nil turned]
    exact ⟨_, rfl⟩
  | right =>
    simp only [Beside, before_append, before_eq_nil turned]
    exact ⟨_, List.append_nil _⟩

theorem RbtreeGood.insertNodeBeside {n other : Nat} (good : RbtreeGood tree shape)
    (mem : n ∈ tree.nodes) (free : n ∉ names shape) (inside : other ∈ names shape) (side : Side) :
    ∃ next final path item, rbtreeInsertNodeBeside tree side n other = some next ∧
      RbtreeGood next final ∧ next.payload = tree.payload ∧
      SameOptions tree next ∧ shape = plug .nil path ∧
      Attached tree path n final ∧ item.node = other ∧ Beside side item (plainPath path) := by
  obtain ⟨out, outEq⟩ : ∃ out : Int, out = match side with | .left => -1 | .right => 1 := ⟨_, rfl⟩
  have outward : side = if out < 0 then Side.left else .right := by
    cases side <;> simp [outEq]
  have inward : side.flip = if -out < 0 then Side.left else .right := by
    cases side <;> simp [outEq, Side.flip]
  obtain ⟨path, item, red, left, right, rfl, rfl⟩ := exists_focus inside
  have represents := good.represents
  have proper : n ≠ nilNode := fun same => represents.noNil (same ▸ mem)
  have otherProper := represents.ne_nil inside
  have apart : n ≠ item.node := fun same => free (same ▸ inside)
  obtain ⟨near, far, same⟩ := exists_join side (item, red) left right
  rw [same] at good represents free ⊢
  obtain ⟨_, _, nearChild, _, inNear, _⟩ := rbLinked_join.mp represents.focus
  have absent := represents.nil_notMem
  have enough := represents.card_le
  simp only [names_plug, names_join, Multiset.mem_add, Multiset.mem_cons, not_or, Multiset.card_add,
    Multiset.card_cons] at absent enough
  cases near with
  | nil =>
    have there : RbtreeGood tree (plug .nil (⟨side, (item, red), far⟩ :: path)) := good
    obtain ⟨next, final, attach, nextGood, payload, options, attached⟩ := there.attachNode mem free
      out (by simpa using outward)
    refine ⟨next, final, _, item, ?_, nextGood, payload, options, rfl, attached, rfl, ?_⟩
    · have isNil : tree.child side item.node = nilNode := nearChild
      simp only [rbtreeInsertNodeBeside]
      rw [if_neg (by simp [proper, apart, otherProper]), if_pos isNil]
      rw [outEq] at attach
      exact attach
    · exact beside_top side item (plain far) (plainPath path)
  | node whole a b =>
    have nearProper : rootNode (.node whole a b) ≠ nilNode :=
      fun isNil => absent.1.2.1 (isNil ▸ rootNode_mem (by simp))
    obtain ⟨way, last, lastRed, beyond, isPlug, turned, found⟩ :=
      inNear.outermost side.flip tree.steps
      absent.1.2.1 (by simp) (by simp only [Rbtree.steps]; omega)
    rw [isPlug] at good free ⊢
    have whole : plug (join side (plug (join side.flip .nil (last, lastRed) beyond) way)
      (item, red) far)
        path = plug .nil (⟨side.flip, (last, lastRed), beyond⟩ :: (way ++ ⟨side, (item, red),
          far⟩ :: path)) := by
      simp [plug, plug_append]
    rw [whole] at good free ⊢
    obtain ⟨next, final, attach, nextGood, payload, options, attached⟩ := good.attachNode mem free
      (-out) (by simpa using inward)
    refine ⟨next, final, _, item, ?_, nextGood, payload, options, rfl, attached, rfl, ?_⟩
    · simp only [rbtreeInsertNodeBeside]
      rw [if_neg (by simp [proper, apart, otherProper]), nearChild, if_neg nearProper, found]
      rw [outEq] at attach
      exact attach
    · have below : Beside side item (plainPath ((⟨side.flip, (last, lastRed), beyond⟩ :: way) ++
          ⟨side, (item, red), far⟩ :: path)) := by
        rw [plainPath_append, plainPath_cons]
        refine beside_below side item (plain far) (plainPath path) ?_
        simpa [plainPath] using turned
      exact below

end RbtreePlaces

section RbtreeEffects

variable {Payload : Type} {tree next : Rbtree Payload} {shape final : RbShape Payload}
  {path : RbPath Payload} {item : RbItem Payload} {n other : Nat}

inductive RbtreeEffect (tree : Rbtree Payload) (shape : RbShape Payload) :
    RbOp Payload → RbAnswer → Rbtree Payload → RbShape Payload → Prop
  | newNode (n : Nat) (value : Payload) :
      RbtreeEffect tree shape (.newNode n value) .done (rbtreeNewNode tree n value) shape
  | freeNode (n : Nat) (garbage : Rbnode Payload) :
      RbtreeEffect tree shape (.freeNode n garbage) .done (rbtreeFreeNode tree n garbage) shape
  | duplicate {comp : Payload → Payload → Int} {n : Nat} (unique : tree.allowDuplicates = false)
      (equal : ∃ item ∈ inorder (plain shape), comp (tree.payload n) item.payload = 0) :
      RbtreeEffect tree shape (.insertNode comp n) (.status eexist) tree shape
  | insertNode {comp : Payload → Payload → Int} {n : Nat} {next : Rbtree Payload}
      {final : RbShape Payload} {path : RbPath Payload} (same : shape = plug .nil path)
      (place : PlaceOf tree comp (tree.payload n) path) (payload : next.payload = tree.payload)
      (attached : Attached tree path n final) :
      RbtreeEffect tree shape (.insertNode comp n) (.status 0) next final
  | insertNodeBefore {n other : Nat} {next : Rbtree Payload} {final : RbShape Payload}
      {path : RbPath Payload} {item : RbItem Payload} (same : shape = plug .nil path)
      (isOther : item.node = other) (place : Beside .left item (plainPath path))
      (payload : next.payload = tree.payload) (attached : Attached tree path n final) :
      RbtreeEffect tree shape (.insertNodeBefore n other) .done next final
  | insertNodeAfter {n other : Nat} {next : Rbtree Payload} {final : RbShape Payload}
      {path : RbPath Payload} {item : RbItem Payload} (same : shape = plug .nil path)
      (isOther : item.node = other) (place : Beside .right item (plainPath path))
      (payload : next.payload = tree.payload) (attached : Attached tree path n final) :
      RbtreeEffect tree shape (.insertNodeAfter n other) .done next final
  | removeNode {n : Nat} {next : Rbtree Payload} {final : RbShape Payload} (garbage : Rbnode Payload)
      (payload : ∀ m, m ≠ n → next.payload m = tree.payload m)
      (removed : Removed tree.useDirty n (plain shape) (plain final)) :
      RbtreeEffect tree shape (.removeNode n garbage) .done next final
  | walkDirty :
      RbtreeEffect tree shape .walkDirty (.calls (dirtyCalls (plain shape)))
        (tree.cleaned (names shape)) (cleanShape shape)

theorem RbtreeGood.isLoose (good : RbtreeGood tree shape) (loose : rbtreeIsLoose tree n) :
    n ∈ tree.nodes ∧ n ∉ names shape :=
  ⟨loose.1, fun inside => loose.2 (good.represents.mem_inorder.mpr inside)⟩

/-- A permitted operation ends, with a good tree and the effect that it should have. -/
theorem RbtreeGood.step {op : RbOp Payload} (good : RbtreeGood tree shape)
    (permits : rbtreePermits tree op) :
    ∃ next answer final, rbtreeStep tree op = some (next, answer) ∧ RbtreeGood next final ∧
      SameOptions tree next ∧ RbtreeEffect tree shape op answer next final := by
  cases op with
  | newNode n value =>
    exact ⟨_, _, shape, rfl, good.newNode permits.1 permits.2 value, ⟨rfl, rfl⟩, .newNode n value⟩
  | freeNode n garbage =>
    obtain ⟨mem, free⟩ := good.isLoose permits
    exact ⟨_, _, shape, rfl, good.freeNode mem free garbage, ⟨rfl, rfl⟩, .freeNode n garbage⟩
  | insertNode comp n =>
    obtain ⟨mem, free⟩ := good.isLoose permits
    rcases good.insertNode mem free comp with ⟨insert, unique, equal⟩ |
      ⟨next, final, path, insert, nextGood, payload, options, same, place, attached⟩
    · refine ⟨tree, .status eexist, shape, ?_, good, ⟨rfl, rfl⟩, .duplicate unique equal⟩
      simp [rbtreeStep, insert]
    · refine ⟨next, .status 0, final, ?_, nextGood, options, .insertNode same place payload attached⟩
      simp [rbtreeStep, insert]
  | insertNodeBefore n other =>
    obtain ⟨mem, free⟩ := good.isLoose permits.1
    obtain ⟨next, final, path, item, insert, nextGood, payload, options, same, attached,
      isOther, place⟩ :=
      good.insertNodeBeside mem free (good.represents.mem_inorder.mp permits.2) .left
    refine ⟨next, .done, final, ?_, nextGood, options,
      .insertNodeBefore same isOther place payload attached⟩
    simp [rbtreeStep, rbtreeInsertNodeBefore, insert]
  | insertNodeAfter n other =>
    obtain ⟨mem, free⟩ := good.isLoose permits.1
    obtain ⟨next, final, path, item, insert, nextGood, payload, options, same, attached,
      isOther, place⟩ :=
      good.insertNodeBeside mem free (good.represents.mem_inorder.mp permits.2) .right
    refine ⟨next, .done, final, ?_, nextGood, options,
      .insertNodeAfter same isOther place payload attached⟩
    simp [rbtreeStep, rbtreeInsertNodeAfter, insert]
  | removeNode n garbage =>
    obtain ⟨next, final, remove, nextGood, unlinked, removed⟩ :=
      good.removeNode (good.represents.mem_inorder.mp permits) garbage
    refine ⟨next, .done, final, ?_, nextGood, ⟨unlinked.allowDuplicates, unlinked.useDirty⟩,
      .removeNode garbage unlinked.payload removed⟩
    simp [rbtreeStep, remove]
  | walkDirty =>
    obtain ⟨walk, nextGood⟩ := good.walkDirty
    refine ⟨_, _, _, ?_, nextGood, ⟨rfl, rfl⟩, .walkDirty⟩
    simp [rbtreeStep, walk]

/-- What every operation keeps, a run of operations keeps. -/
theorem RbtreeGood.run (Holds : RbShape Payload → Prop) (Allowed : RbOp Payload → Prop)
    (keeps : ∀ {tree next : Rbtree Payload} {shape final : RbShape Payload} {op : RbOp Payload}
      {answer : RbAnswer}, Allowed op → RbtreeGood tree shape →
      RbtreeEffect tree shape op answer next final → Holds shape → Holds final) :
    ∀ (ops : List (RbOp Payload)) {tree : Rbtree Payload} {shape : RbShape Payload},
      (∀ op ∈ ops, Allowed op) → RbtreeGood tree shape → Holds shape →
      PermittedFrom rbtreeNext rbtreePermits tree ops →
      ∃ last final, ops.foldlM rbtreeNext tree = some last ∧ RbtreeGood last final ∧
        SameOptions tree last ∧ Holds final := by
  intro ops
  induction ops with
  | nil => exact fun _ good holds _ => ⟨_, _, rfl, good, ⟨rfl, rfl⟩, holds⟩
  | cons op ops ih =>
    rintro tree shape allowed good holds ⟨permits, rest⟩
    simp only [List.mem_cons, forall_eq_or_imp] at allowed
    obtain ⟨next, answer, final, step, nextGood, options, effect⟩ := good.step permits
    have stepped : rbtreeNext tree op = some next := by simp [rbtreeNext, step]
    obtain ⟨last, finalShape, run, lastGood, lastOptions, lastHolds⟩ :=
      ih allowed.2 nextGood (keeps allowed.1 good effect holds) (rest next stepped)
    refine ⟨last, finalShape, ?_, lastGood, ?_, lastHolds⟩
    · rw [List.foldlM_cons, stepped]
      exact run
    · exact ⟨lastOptions.allowDuplicates.trans options.allowDuplicates,
        lastOptions.useDirty.trans options.useDirty⟩

end RbtreeEffects

end MulleCore
