import Mathlib.Logic.Function.Basic
import MulleCore.Library.RedBlack

/-!
`mulle--rbtree.c`. A node is an address; there is one function for each field of the
nodes, and for each of the bits of `_color`. `nodes` are those of `_nodes` in use. The
left and the right variants of the source are one definition over the side. A result of
`none` stands for a failed `assert`, or a loop that does not end in the steps it is
given.
-/

namespace MulleCore

open Library

abbrev nilNode : Nat := 0

def eexist : Nat := 17

structure Rbnode (Payload : Type) where
  parent : Nat
  left : Nat
  right : Nat
  red : Bool
  dirty : Bool
  marked : Bool
  payload : Payload

structure Rbtree (Payload : Type) where
  root : Nat
  parent : Nat → Nat
  child : Side → Nat → Nat
  red : Nat → Bool
  dirty : Nat → Bool
  marked : Nat → Bool
  payload : Nat → Payload
  nodes : List Nat
  allowDuplicates : Bool
  useDirty : Bool
  useMarker : Bool

section Rbtree

variable {Payload : Type} (tree : Rbtree Payload)

def Rbtree.steps : Nat := tree.nodes.length + 1

def rbtreeWriteNode (node : Nat) (fields : Rbnode Payload) : Rbtree Payload :=
  { tree with
    parent := Function.update tree.parent node fields.parent
    child := fun side other =>
      if other = node then (match side with | .left => fields.left | .right => fields.right)
      else tree.child side other
    red := Function.update tree.red node fields.red
    dirty := Function.update tree.dirty node fields.dirty
    marked := Function.update tree.marked node fields.marked
    payload := Function.update tree.payload node fields.payload }

/-- `memory` is what is in the memory that nodes will be in. -/
def rbtreeInit (memory : Rbtree Payload) (allowDuplicates useDirty useMarker : Bool) :
    Rbtree Payload :=
  { rbtreeWriteNode memory nilNode ⟨nilNode, nilNode, nilNode, false, false, false,
      memory.payload nilNode⟩ with
    root := nilNode
    nodes := []
    allowDuplicates := allowDuplicates
    useDirty := useDirty
    useMarker := useMarker }

def rbtreeInitNode (node : Nat) (value : Payload) : Rbtree Payload :=
  rbtreeWriteNode tree node ⟨nilNode, nilNode, nilNode, true, tree.useDirty, false, value⟩

def rbtreeNewNode (node : Nat) (value : Payload) : Rbtree Payload :=
  rbtreeInitNode { tree with nodes := node :: tree.nodes } node value

def rbtreeFreeNode (node : Nat) (garbage : Rbnode Payload) : Rbtree Payload :=
  { rbtreeWriteNode tree node garbage with nodes := tree.nodes.erase node }

def rbtreeSetNodeMarked (node : Nat) : Rbtree Payload :=
  { tree with
    marked :=
      if tree.useMarker ∧ node ≠ nilNode then Function.update tree.marked node true
      else tree.marked }

def rbnodeSetParent (node parent : Nat) : Rbtree Payload :=
  { tree with parent := Function.update tree.parent node parent }

def rbnodeSetChild (side : Side) (node child : Nat) : Rbtree Payload :=
  { tree with
    child := fun other place =>
      if other = side ∧ place = node then child else tree.child other place }

def rbnodeSetColor (node : Nat) (red : Bool) : Rbtree Payload :=
  { tree with red := Function.update tree.red node red }

def rbtreeSetNodeRed (node : Nat) : Option (Rbtree Payload) :=
  if node = nilNode then none else some (rbnodeSetColor tree node true)

def rbNodeAdopt (side : Side) (p o : Nat) : Rbtree Payload :=
  rbnodeSetChild
    { tree with
      parent := if o ≠ nilNode then Function.update tree.parent o p else tree.parent }
    side p o

/-- The parent gets `new` for `old`; it looks for `old` on the side `first` first. -/
def rbtreeRelink (first : Side) (parent old new : Nat) : Rbtree Payload :=
  if parent = nilNode then { tree with root := new }
  else if old = tree.child first parent then rbnodeSetChild tree first parent new
  else rbnodeSetChild tree first.flip parent new

def rbNodeReparent (p t : Nat) : Rbtree Payload :=
  let tree := rbnodeSetParent tree t (tree.parent p)
  let tree := rbtreeSetNodeMarked tree t
  let tree := rbtreeRelink tree .right (tree.parent p) p t
  rbtreeSetNodeMarked tree (tree.parent p)

def rbtreeMarkUp (parent : Nat → Nat) : Nat → Nat → (Nat → Bool) → Option (Nat → Bool)
  | 0, _, _ => none
  | fuel + 1, node, dirty =>
    if node = nilNode then some dirty
    else rbtreeMarkUp parent fuel (parent node) (Function.update dirty node true)

def rbtreeMarkNodeAsDirty (node : Nat) : Option (Rbtree Payload) :=
  if tree.useDirty then do
    let dirty ← rbtreeMarkUp tree.parent tree.steps node tree.dirty
    some { tree with dirty := dirty }
  else none

def rbtreeDirtyUp : Nat → Nat → Bool
  | 0, _ => false
  | fuel + 1, node =>
    if node = nilNode then false
    else if tree.root = node then true
    else tree.dirty (tree.parent node) && rbtreeDirtyUp fuel (tree.parent node)

def rbtreeAssertDirty (node : Nat) : Option (Rbtree Payload) :=
  if tree.dirty node = true → rbtreeDirtyUp tree tree.steps node = true then some tree else none

def rbtreeRotateLinks (side : Side) (p t : Nat) : Rbtree Payload :=
  let near := tree.child side t
  let tree := rbNodeAdopt tree side.flip p near
  let tree := rbtreeSetNodeMarked tree near
  let tree := rbNodeReparent tree p t
  let tree := rbnodeSetParent (rbnodeSetChild tree side t p) p t
  rbtreeSetNodeMarked tree t

def rbtreeRotateDirty (p t : Nat) : Option (Rbtree Payload) :=
  if tree.useDirty then do
    let tree ← rbtreeMarkNodeAsDirty tree p
    let tree ← rbtreeAssertDirty tree p
    rbtreeAssertDirty tree t
  else some tree

def rbtreeRotateNode (side : Side) (p : Nat) : Option (Rbtree Payload) :=
  let tree := rbtreeSetNodeMarked tree p
  let t := tree.child side.flip p
  let tree := rbtreeSetNodeMarked tree t
  if p = nilNode ∨ t = nilNode then none
  else rbtreeRotateDirty (rbtreeRotateLinks tree side p t) p t

def rbtreeLeftRotateNode (p : Nat) : Option (Rbtree Payload) := rbtreeRotateNode tree .left p

def rbtreeRightRotateNode (p : Nat) : Option (Rbtree Payload) := rbtreeRotateNode tree .right p

/-! `_mulle__rbtree_black_black_fixup`. -/

/-- A red sibling: recolor and rotate the parent. -/
def rbtreeRedSibling (side : Side) (x w : Nat) : Option (Rbtree Payload × Nat) :=
  if tree.red w then do
    let tree := rbnodeSetColor (rbnodeSetColor tree w false) (tree.parent x) true
    let tree ← rbtreeRotateNode tree side (tree.parent x)
    some (tree, tree.child side.flip (tree.parent x))
  else some (tree, w)

/-- The far child of the sibling is black: rotate the sibling. -/
def rbtreeNearSibling (side : Side) (x w : Nat) : Option (Rbtree Payload × Nat) :=
  if tree.red (tree.child side.flip w) = false then do
    let tree := rbnodeSetColor (rbnodeSetColor tree (tree.child side w) false) w true
    let tree ← rbtreeRotateNode tree side.flip w
    some (tree, tree.child side.flip (tree.parent x))
  else some (tree, w)

/-- The far child of the sibling is red: fix and finish. -/
def rbtreeFarSibling (side : Side) (x w : Nat) : Option (Rbtree Payload × Nat × Nat) := do
  let parentColor := tree.red (tree.parent x)
  let tree := rbnodeSetColor (rbnodeSetColor tree w parentColor) (tree.parent x) false
  let tree := rbnodeSetColor tree (tree.child side.flip w) false
  let tree ← rbtreeRotateNode tree side (tree.parent x)
  some (tree, tree.root, w)

def rbtreeBlackBlackRound (side : Side) (x : Nat) : Option (Rbtree Payload × Nat × Nat) := do
  let (tree, w) ← rbtreeRedSibling tree side x (tree.child side.flip (tree.parent x))
  if tree.red (tree.child side w) = false ∧ tree.red (tree.child side.flip w) = false then
    some (rbnodeSetColor tree w true, tree.parent x, w)
  else do
    let (tree, w) ← rbtreeNearSibling tree side x w
    rbtreeFarSibling tree side x w

def rbtreeBlackBlackFixup : Nat → Rbtree Payload → Nat → Option (Rbtree Payload)
  | 0, _, _ => none
  | fuel + 1, tree, x =>
    if x ≠ tree.root ∧ tree.red x = false then do
      let side := if x = tree.child .left (tree.parent x) then Side.left else .right
      let (tree, x, w) ← rbtreeBlackBlackRound tree side x
      let tree ← rbtreeAssertDirty tree x
      let tree ← rbtreeAssertDirty tree w
      rbtreeBlackBlackFixup fuel tree x
    else
      let tree := rbnodeSetColor tree x false
      some (rbnodeSetColor tree tree.root false)

def rbtreeOutermost (side : Side) : Nat → Nat → Option Nat
  | 0, _ => none
  | fuel + 1, p =>
    if tree.child side p = nilNode then some p else rbtreeOutermost side fuel (tree.child side p)

def rbtreeBubbleUp : Nat → Nat → Option Nat
  | 0, _ => none
  | fuel + 1, node =>
    if tree.parent node ≠ nilNode ∧ node = tree.child .right (tree.parent node) then
      rbtreeBubbleUp fuel (tree.parent node)
    else some (tree.parent node)

def rbtreeNextNode (node : Nat) : Option Nat :=
  if tree.child .right node ≠ nilNode then
    rbtreeOutermost tree .left tree.steps (tree.child .right node)
  else rbtreeBubbleUp tree tree.steps node

/-! `_mulle__rbtree_remove_node`. -/

def rbtreeCutOut (x y : Nat) : Rbtree Payload :=
  let tree := rbtreeSetNodeMarked tree x
  let tree := rbnodeSetParent tree x (tree.parent y)
  let tree := rbtreeSetNodeMarked tree (tree.parent x)
  let tree := rbtreeRelink tree .left (tree.parent y) y x
  rbtreeSetNodeMarked tree (tree.parent y)

def rbtreeDress (node x y left right : Nat) : Rbtree Payload :=
  let tree := rbnodeSetParent tree y (tree.parent node)
  let tree := rbnodeSetChild tree .left y left
  let tree :=
    if y ≠ right then rbnodeSetChild tree .right y right
    else rbtreeSetNodeMarked (rbnodeSetParent tree x y) y
  rbnodeSetColor tree y (tree.red node)

def rbtreeTakeOver (node x y left right : Nat) : Option (Rbtree Payload) :=
  if y = nilNode then none
  else
    let tree := rbtreeDress tree node x y left right
    let tree := rbtreeRelink tree .left (tree.parent y) node y
    let tree := rbtreeSetNodeMarked tree (tree.parent y)
    let tree := rbnodeSetParent tree (tree.child .right y) y
    let tree := rbnodeSetParent tree (tree.child .left y) y
    let tree := rbtreeSetNodeMarked tree (tree.child .right y)
    some (rbtreeSetNodeMarked tree (tree.child .left y))

def rbtreeTakeOverIf (condition : Bool) (node x y left right : Nat) : Option (Rbtree Payload) :=
  if condition then rbtreeTakeOver tree node x y left right else some tree

def rbtreeMarkIf (condition : Bool) (node : Nat) : Option (Rbtree Payload) :=
  if condition then rbtreeMarkNodeAsDirty tree node else some tree

def rbtreeRemoveDirty (node x y originalParent : Nat) : Option (Rbtree Payload) :=
  if tree.useDirty then do
    let tree ← rbtreeMarkIf tree (tree.parent node ≠ nilNode) (tree.parent node)
    let tree ← rbtreeMarkIf tree (y ≠ node ∧ y ≠ nilNode) y
    let tree ← rbtreeMarkIf tree (y ≠ node ∧ x = nilNode ∧ originalParent ≠ nilNode) originalParent
    rbtreeMarkIf tree (x ≠ nilNode) x
  else some tree

def rbtreeSpliced (node : Nat) : Option Nat :=
  if tree.child .left node = nilNode ∨ tree.child .right node = nilNode then some node
  else rbtreeNextNode tree node

def rbtreeUnlink (node y : Nat) (garbage : Rbnode Payload) : Option (Rbtree Payload × Nat) := do
  let left := tree.child .left node
  let right := tree.child .right node
  let originalParent := if y = node then nilNode else tree.parent y
  let x := if tree.child .left y ≠ nilNode then tree.child .left y else tree.child .right y
  let tree := rbtreeCutOut (if y = node then tree else rbtreeSetNodeMarked tree y) x y
  let tree ← rbtreeTakeOverIf tree (y ≠ node) node x y left right
  let tree ← rbtreeRemoveDirty tree node x y originalParent
  some (rbtreeFreeNode tree node garbage, x)

def rbtreeFixupIf (fixup : Bool) (x : Nat) : Option (Rbtree Payload) :=
  if fixup then rbtreeBlackBlackFixup tree.steps tree x else some tree

def rbtreeRemoveNode (node : Nat) (garbage : Rbnode Payload) : Option (Rbtree Payload) :=
  if node = nilNode then none
  else do
    let left := tree.child .left node
    let right := tree.child .right node
    let tree := rbtreeSetNodeMarked (rbtreeSetNodeMarked (rbtreeSetNodeMarked tree node) left) right
    let y ← rbtreeSpliced tree node
    let fixup := !tree.red y
    let (tree, x) ← rbtreeUnlink tree node y garbage
    let tree ← rbtreeFixupIf tree fixup x
    let tree ← rbtreeAssertDirty tree x
    let tree ← rbtreeAssertDirty tree left
    rbtreeAssertDirty tree right

/-! `_mulle__rbtree_red_red_fixup`. -/

def rbtreeStraighten (side : Side) (x : Nat) : Option (Rbtree Payload × Nat) :=
  if x = tree.child side.flip (tree.parent x) then do
    let x := tree.parent x
    let tree ← rbtreeRotateNode tree side x
    some (tree, x)
  else some (tree, x)

def rbtreeLiftParent (side : Side) (x : Nat) : Option (Rbtree Payload × Nat) := do
  let tree ← rbtreeSetNodeRed (rbnodeSetColor tree (tree.parent x) false)
    (tree.parent (tree.parent x))
  let x := tree.parent (tree.parent x)
  let tree ← rbtreeRotateNode tree side.flip x
  some (tree, x)

def rbtreeRedRedRound (side : Side) (x : Nat) : Option (Rbtree Payload × Nat) := do
  let y := tree.child side.flip (tree.parent (tree.parent x))
  if tree.red y then do
    let tree ← rbtreeSetNodeRed (rbnodeSetColor tree (tree.parent x) false)
      (tree.parent (tree.parent x))
    some (rbnodeSetColor tree y false, tree.parent (tree.parent x))
  else do
    let (tree, x) ← rbtreeStraighten tree side x
    rbtreeLiftParent tree side x

def rbtreeRedRedFixup : Nat → Rbtree Payload → Nat → Option (Rbtree Payload)
  | 0, _, _ => none
  | fuel + 1, tree, x =>
    if x ≠ tree.root ∧ tree.red (tree.parent x) = true then do
      let side :=
        if tree.parent x = tree.child .left (tree.parent (tree.parent x)) then Side.left else .right
      let (tree, x) ← rbtreeRedRedRound tree side x
      rbtreeRedRedFixup fuel tree x
    else some (rbnodeSetColor tree tree.root false)

def rbtreeAttachBelow (node parent : Nat) (direction : Int) : Option (Rbtree Payload) :=
  let side := if direction < 0 then Side.left else .right
  if tree.root = nilNode ∨ tree.child side parent ≠ nilNode then none
  else
    let tree := rbnodeSetChild tree side parent node
    if tree.red parent then rbtreeRedRedFixup tree.steps tree node else some tree

def rbtreeLinkNode (node parent : Nat) (direction : Int) : Option (Rbtree Payload) :=
  let tree := rbnodeSetParent tree node parent
  if parent = nilNode then some (rbnodeSetColor { tree with root := node } node false)
  else rbtreeAttachBelow tree node parent direction

def rbtreeAttachNode (node parent : Nat) (direction : Int) : Option (Rbtree Payload) :=
  if node = nilNode ∨ tree.parent node ≠ nilNode ∨ tree.child .left node ≠ nilNode ∨
      tree.child .right node ≠ nilNode ∨ tree.red node = false then none
  else do
    let tree ← rbtreeLinkNode tree node parent direction
    if tree.root = nilNode then none
    else if tree.useDirty then rbtreeMarkNodeAsDirty tree node
    else some tree

/-- From `y` down to the node to attach to; the inner `none` is a duplicate. -/
def rbtreeFindPlace (comp : Payload → Payload → Int) (value : Payload) :
    Nat → Nat → Option (Option (Nat × Int))
  | 0, _ => none
  | fuel + 1, y =>
    let c := comp value (tree.payload y)
    if c = 0 ∧ tree.allowDuplicates = false then some none
    else
      let next := if c < 0 then tree.child .left y else tree.child .right y
      if next = nilNode then some (some (y, c)) else rbtreeFindPlace comp value fuel next

def rbtreeInsertNode (comp : Payload → Payload → Int) (node : Nat) : Option (Rbtree Payload × Nat) :=
  if node = nilNode then none
  else if tree.root = nilNode then do
    let tree ← rbtreeAttachNode tree node nilNode 0
    some (tree, 0)
  else do
    let place ← rbtreeFindPlace tree comp (tree.payload node) tree.steps tree.root
    match place with
    | none => some (tree, eexist)
    | some (x, c) => do
        let tree ← rbtreeAttachNode tree node x c
        some (tree, 0)

/-- `_mulle__rbtree_insert_node_before_node` for the left side of its last argument, and
`_mulle__rbtree_insert_node_after_node` for the right side. -/
def rbtreeInsertNodeBeside (side : Side) (node other : Nat) : Option (Rbtree Payload) :=
  let out : Int := match side with | .left => -1 | .right => 1
  if node = nilNode ∨ node = other ∨ other = nilNode then none
  else if tree.child side other = nilNode then rbtreeAttachNode tree node other out
  else do
    let x ← rbtreeOutermost tree side.flip tree.steps (tree.child side other)
    rbtreeAttachNode tree node x (-out)

def rbtreeInsertNodeBefore (node successor : Nat) : Option (Rbtree Payload) :=
  rbtreeInsertNodeBeside tree .left node successor

def rbtreeInsertNodeAfter (node predecessor : Nat) : Option (Rbtree Payload) :=
  rbtreeInsertNodeBeside tree .right node predecessor

/-! `_mulle__rbtree_walk_dirty`. -/

structure RbCall where
  node : Nat
  left : Nat
  right : Nat
deriving DecidableEq

def rbtreeWalkDirtyFrom : Nat → Rbtree Payload → Nat → Option (Rbtree Payload × List RbCall)
  | 0, _, _ => none
  | fuel + 1, tree, node =>
    if tree.dirty node = false then some (tree, [])
    else if node = nilNode then none
    else
      (if tree.child .left node ≠ nilNode then
        rbtreeWalkDirtyFrom fuel tree (tree.child .left node)
      else some (tree, [])).bind fun first =>
      (if first.1.child .right node ≠ nilNode then
        rbtreeWalkDirtyFrom fuel first.1 (first.1.child .right node)
      else some (first.1, [])).bind fun second =>
      let tree := second.1
      let call : RbCall := ⟨node, tree.child .left node, tree.child .right node⟩
      some ({ tree with dirty := Function.update tree.dirty node false },
        first.2 ++ second.2 ++ [call])

def rbtreeIsClean : Nat → Nat → Bool
  | 0, _ => false
  | fuel + 1, node =>
    if node = nilNode then true
    else rbtreeIsClean fuel (tree.child .left node) && rbtreeIsClean fuel (tree.child .right node) &&
      !tree.dirty node

def rbtreeWalkDirty : Option (Rbtree Payload × List RbCall) := do
  let (next, calls) ← rbtreeWalkDirtyFrom tree.steps tree tree.root
  if rbtreeIsClean next next.steps next.root then some (next, calls) else none

end Rbtree

end MulleCore
