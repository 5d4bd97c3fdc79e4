import MulleCore.Rbtree.RbtreeSteps

/-!
The nodes of a tree in order, with their payloads, as a list that the operations change.
-/

namespace MulleCore

open Library

section RbtreeOrder

variable {Payload : Type} {tree next : Rbtree Payload} {shape final : RbShape Payload}
  {path : RbPath Payload} {comp : Payload → Payload → Int} {n : Nat}
variable {op : RbOp Payload} {answer : RbAnswer}

def rbtreeEntries (tree : Rbtree Payload) : List (Nat × Payload) :=
  (rbtreeInorder tree).map fun node => (node, tree.payload node)

def SortedBy (comp : Payload → Payload → Int) (entries : List (Nat × Payload)) : Prop :=
  (entries.map Prod.snd).Pairwise fun left right => comp left right ≤ 0

def RbOp.Sorts (comp : Payload → Payload → Int) : RbOp Payload → Prop
  | .insertNode other _ => other = comp
  | .insertNodeBefore _ _ => False
  | .insertNodeAfter _ _ => False
  | _ => True

structure InsertsSorted (comp : Payload → Payload → Int) (tree next : Rbtree Payload) (n : Nat)
    (answer : RbAnswer) : Prop where
  exists_iff : answer = .status eexist ↔ tree.allowDuplicates = false ∧
    ∃ entry ∈ rbtreeEntries tree, comp (tree.payload n) entry.2 = 0
  place : answer = .status 0 → rbtreeEntries next =
    (rbtreeEntries tree).filter (fun entry => 0 ≤ comp (tree.payload n) entry.2) ++
      (n, tree.payload n) :: (rbtreeEntries tree).filter fun entry =>
        comp (tree.payload n) entry.2 < 0

def RbtreeListStep (tree : Rbtree Payload) (op : RbOp Payload) (answer : RbAnswer)
    (next : Rbtree Payload) : Prop :=
  match op with
  | .newNode _ _ => rbtreeEntries next = rbtreeEntries tree
  | .freeNode _ _ => rbtreeEntries next = rbtreeEntries tree
  | .insertNode comp n =>
    ((answer = .status eexist ∧ next = tree) ∨ (answer = .status 0 ∧ ∃ earlier later,
      rbtreeEntries tree = earlier ++ later ∧
        rbtreeEntries next = earlier ++ (n, tree.payload n) :: later)) ∧
    (TotalCompare comp → SortedBy comp (rbtreeEntries tree) → InsertsSorted comp tree next n answer)
  | .insertNodeBefore n successor => ∃ earlier value later,
      rbtreeEntries tree = earlier ++ (successor, value) :: later ∧
        rbtreeEntries next = earlier ++ (n, tree.payload n) :: (successor, value) :: later
  | .insertNodeAfter n predecessor => ∃ earlier value later,
      rbtreeEntries tree = earlier ++ (predecessor, value) :: later ∧
        rbtreeEntries next = earlier ++ (predecessor, value) :: (n, tree.payload n) :: later
  | .removeNode n _ => ∃ earlier value later,
      rbtreeEntries tree = earlier ++ (n, value) :: later ∧ rbtreeEntries next = earlier ++ later
  | .walkDirty => rbtreeEntries next = rbtreeEntries tree

def entryOf (item : RbItem Payload) : Nat × Payload := (item.node, item.payload)

@[simp] theorem entryOf_touch (useDirty : Bool) (item : RbItem Payload) :
    entryOf (item.touch useDirty) = entryOf item := rfl

theorem Represents.entries_eq (represents : Represents tree shape) :
    rbtreeEntries tree = (inorder (plain shape)).map entryOf := by
  rw [rbtreeEntries, represents.inorder_eq, List.map_map]
  refine List.map_congr_left fun item inside => ?_
  simp [entryOf, represents.linked.fields_of_mem item inside]

theorem Attached.entries (attached : Attached tree path n final) :
    (inorder (plain final)).map entryOf = (before (plainPath path)).map entryOf ++
      (n, tree.payload n) :: (after (plainPath path)).map entryOf :=
  attached.order entryOf (entryOf_touch _)

theorem entries_plug_nil (path : RbPath Payload) : (inorder (plain (plug .nil path))).map entryOf =
    (before (plainPath path)).map entryOf ++ (after (plainPath path)).map entryOf := by
  rw [plain_plug, inorder_plug]
  simp [inorder]

theorem sortedBy_map {items : List (RbItem Payload)} : SortedBy comp (items.map entryOf) ↔
    (items.map RbItem.payload).Pairwise fun left right => comp left right ≤ 0 := by
  rw [SortedBy, List.map_map]
  rfl

theorem PlaceOf.filter {value : Payload} (place : PlaceOf tree comp value path)
    (order : TotalCompare comp)
    (sorted : SortedBy comp ((before (plainPath path) ++ after (plainPath path)).map entryOf)) :
    (((before (plainPath path) ++ after (plainPath path)).map entryOf).filter
        fun entry => 0 ≤ comp value entry.2) = (before (plainPath path)).map entryOf ∧
      (((before (plainPath path) ++ after (plainPath path)).map entryOf).filter
        fun entry => comp value entry.2 < 0) = (after (plainPath path)).map entryOf := by
  rw [sortedBy_map] at sorted
  have below := place.leads.before_le order sorted
  have above := place.leads.after_lt order sorted
  rw [List.map_append, List.filter_append, List.filter_append]
  constructor
  · rw [List.filter_eq_self.mpr, List.filter_eq_nil_iff.mpr, List.append_nil]
    · simp only [List.forall_mem_map, Bool.not_eq_true]
      exact fun item inside => decide_eq_false (Int.not_le.mpr (above item inside))
    · simp only [List.forall_mem_map]
      exact fun item inside => decide_eq_true (below item inside)
  · rw [List.filter_eq_nil_iff.mpr, List.filter_eq_self.mpr, List.nil_append]
    · simp only [List.forall_mem_map]
      exact fun item inside => decide_eq_true (above item inside)
    · simp only [List.forall_mem_map, Bool.not_eq_true]
      exact fun item inside => decide_eq_false (Int.not_lt.mpr (below item inside))

theorem RbtreeEffect.listStep (good : RbtreeGood tree shape)
    (nextGood : RbtreeGood next final) (effect : RbtreeEffect tree shape op answer next final) :
    RbtreeListStep tree op answer next := by
  have entries := good.represents.entries_eq
  have nextEntries := nextGood.represents.entries_eq
  cases effect with
  | newNode n value => exact nextEntries.trans entries.symm
  | freeNode n garbage => exact nextEntries.trans entries.symm
  | duplicate unique equal =>
    refine ⟨.inl ⟨rfl, rfl⟩, fun _ _ => ⟨iff_of_true rfl ⟨unique, ?_⟩, fun inserted => ?_⟩⟩
    · obtain ⟨item, inside, isEqual⟩ := equal
      rw [entries]
      exact ⟨entryOf item, List.mem_map_of_mem inside, isEqual⟩
    · cases inserted
  | insertNode same place payload attached =>
    subst same
    rw [attached.entries] at nextEntries
    rw [entries_plug_nil] at entries
    refine ⟨.inr ⟨rfl, _, _, entries, nextEntries⟩, fun order sorted => ?_⟩
    rw [← List.map_append] at entries
    rw [entries] at sorted
    refine ⟨iff_of_false (by simp [eexist]) ?_, fun _ => ?_⟩
    · rintro ⟨unique, entry, inside, isEqual⟩
      rw [entries, List.mem_map] at inside
      obtain ⟨item, inside, rfl⟩ := inside
      exact place.leads.ne order (sortedBy_map.mp sorted) (place.differs unique) item inside isEqual
    · obtain ⟨below, above⟩ := place.filter order sorted
      rw [nextEntries, entries, below, above]
  | insertNodeBefore same isOther place payload attached =>
    obtain ⟨later, rest⟩ := place
    subst same isOther
    rw [attached.entries, rest] at nextEntries
    rw [entries_plug_nil, rest] at entries
    exact ⟨_, _, later.map entryOf, entries, nextEntries⟩
  | insertNodeAfter same isOther place payload attached =>
    obtain ⟨earlier, rest⟩ := place
    subst same isOther
    rw [attached.entries, rest, List.map_append, List.append_assoc] at nextEntries
    rw [entries_plug_nil, rest, List.map_append, List.append_assoc] at entries
    exact ⟨earlier.map entryOf, _, _, entries, nextEntries⟩
  | removeNode garbage payload removed =>
    obtain ⟨earlier, item, later, same, rfl, order⟩ := removed.order
    rw [order entryOf (entryOf_touch _), List.map_append] at nextEntries
    rw [same, List.map_append, List.map_cons] at entries
    exact ⟨_, _, _, entries, nextEntries⟩
  | walkDirty =>
    rw [inorder_cleanShape, List.map_map] at nextEntries
    exact nextEntries.trans entries.symm

theorem RbtreeEffect.sorted (order : TotalCompare comp)
    (sorts : op.Sorts comp) (effect : RbtreeEffect tree shape op answer next final)
    (sorted : SortedBy comp ((inorder (plain shape)).map entryOf)) :
    SortedBy comp ((inorder (plain final)).map entryOf) := by
  cases effect with
  | newNode n value => exact sorted
  | freeNode n garbage => exact sorted
  | duplicate unique equal => exact sorted
  | insertNode same place payload attached =>
    subst same
    obtain rfl : _ = comp := sorts
    rw [entries_plug_nil, ← List.map_append, sortedBy_map] at sorted
    have below := place.leads.before_le order sorted
    have above := place.leads.after_lt order sorted
    rw [List.map_append, List.pairwise_append] at sorted
    obtain ⟨earlier, later, across⟩ := sorted
    rw [attached.entries, SortedBy, List.map_append, List.map_cons, List.map_map, List.map_map,
      List.pairwise_append, List.pairwise_cons]
    refine ⟨earlier, ⟨?_, later⟩, ?_⟩
    · simp only [List.forall_mem_map]
      exact fun item inside => Int.le_of_lt (above item inside)
    · simp only [List.forall_mem_map, List.mem_cons, forall_eq_or_imp]
      intro item inside
      refine ⟨order.le_of_ge (below item inside), fun other beyond => ?_⟩
      exact across _ (List.mem_map_of_mem inside) _ (List.mem_map_of_mem beyond)
  | insertNodeBefore same isOther place payload attached => exact absurd sorts id
  | insertNodeAfter same isOther place payload attached => exact absurd sorts id
  | removeNode garbage payload removed =>
    obtain ⟨earlier, item, later, same, _, kept⟩ := removed.order
    rw [same] at sorted
    rw [kept entryOf (entryOf_touch _)]
    refine List.Pairwise.sublist ?_ sorted
    exact ((List.sublist_cons_self item later).append_left earlier).map _ |>.map _
  | walkDirty =>
    rw [inorder_cleanShape, List.map_map]
    exact sorted

/-- Every step of every run changes the list of entries as it should, and a run of insertions
by `comp` and of removals keeps it sorted. -/
theorem rbtreeRun_refines_list {comp : Payload → Payload → Int} (order : TotalCompare comp)
    {memory : Rbtree Payload} {allowDuplicates useDirty useMarker : Bool} {ops : List (RbOp Payload)}
    {op : RbOp Payload} (permitted : PermittedFrom rbtreeNext rbtreePermits
      (rbtreeInit memory allowDuplicates useDirty useMarker) (ops ++ [op])) :
    rbtreeEntries (rbtreeInit memory allowDuplicates useDirty useMarker) = [] ∧
    ∃ tree next answer,
      ops.foldlM rbtreeNext (rbtreeInit memory allowDuplicates useDirty useMarker) = some tree ∧
      tree.allowDuplicates = allowDuplicates ∧ rbtreeStep tree op = some (next, answer) ∧
      RbtreeListStep tree op answer next ∧
      ((∀ op ∈ ops, op.Sorts comp) → SortedBy comp (rbtreeEntries tree)) := by
  have start := rbtreeInit_good memory allowDuplicates useDirty useMarker
  obtain ⟨allowed, last⟩ := permitted.of_append
  obtain ⟨tree, shape, run, good, options, _⟩ := RbtreeGood.run (fun _ => True) (fun _ => True)
    (fun _ _ _ _ => trivial) ops (fun _ _ => trivial) start trivial allowed
  obtain ⟨next, answer, final, step, nextGood, _, effect⟩ := good.step (last tree run).1
  refine ⟨start.represents.entries_eq, tree, next, answer, run, options.allowDuplicates, step,
    effect.listStep good nextGood, fun sorts => ?_⟩
  obtain ⟨same, sameShape, sameRun, sameGood, _, sorted⟩ := RbtreeGood.run
    (fun shape => SortedBy comp ((inorder (plain shape)).map entryOf)) (RbOp.Sorts comp)
    (fun sorts _ effect => effect.sorted order sorts) ops sorts start .nil allowed
  cases run.symm.trans sameRun
  rw [sameGood.represents.entries_eq]
  exact sorted

theorem rbtreeRun_refines_list_duplicate :
    ∃ tree next answer, [.newNode 1 10, .insertNode (· - ·) 1, .newNode 2 10].foldlM rbtreeNext
        (rbtreeInit (blankMemory (0 : Int)) false false false) = some tree ∧
      rbtreeStep tree (.insertNode (· - ·) 2) = some (next, answer) ∧
      RbtreeListStep tree (.insertNode (· - ·) 2) answer next := by
  obtain ⟨_, tree, next, answer, run, _, step, list, _⟩ := @rbtreeRun_refines_list Int (· - ·)
    ⟨by omega, by omega⟩ (blankMemory 0) false false false
    [.newNode 1 10, .insertNode (· - ·) 1, .newNode 2 10] (.insertNode (· - ·) 2) (by decide)
  exact ⟨tree, next, answer, run, step, list⟩

end RbtreeOrder

end MulleCore
