import MulleCore.Rbtree.RbtreeRotate

/-!
A new red node below a red one: the fixup ends with a red-black tree, and it only
rotates and recolors.
-/

namespace MulleCore

open Library

section RbtreeRedRed

variable {Payload : Type} {tree next : Rbtree Payload} {path rest : RbPath Payload}
  {shape sibling uncle a b near far : RbShape Payload} {side inner outer other : Side}
  {item p g u : RbItem Payload} {red pRed gRed : Bool} {height : Nat}
variable {x : RbShape Payload}

theorem plug_sibling (shape sibling : RbShape Payload) (side : Side) (item : RbItem Payload × Bool)
    (path : RbPath Payload) :
    plug shape (⟨side, item, sibling⟩ :: path) = plug sibling (⟨side.flip, item, shape⟩ :: path) := by
  simp [plug, join_flip]

theorem exists_join_eq (side other : Side) (near far : RbShape Payload)
    (item : RbItem Payload × Bool) :
    ∃ a b, join side near item far = join other a item b := by
  cases side with
  | left => exact exists_join other item near far
  | right => exact exists_join other item far near

theorem Represents.red_root (represents : Represents tree (plug shape path)) :
    tree.red (rootNode shape) = rootRed shape := by
  cases shape with
  | nil => exact represents.nilBlack
  | node item left right => exact represents.focus.1.2.2

theorem Represents.top (represents : Represents tree (plug shape path)) (nonempty : shape ≠ .nil) :
    tree.parent (rootNode shape) = topNode path :=
  represents.focus.parent nonempty

section

variable (represents : Represents tree (plug shape (⟨side, (item, red), sibling⟩ :: path)))
include represents

theorem Represents.top_parent
    :
    tree.parent item.node = topNode path :=
  represents.hangs.2.1

theorem Represents.top_child
    :
    tree.child side item.node = rootNode shape :=
  represents.hangs.2.2.1

theorem Represents.top_sibling
    :
    tree.child side.flip item.node = rootNode sibling :=
  represents.hangs.2.2.2.1

theorem Represents.top_proper
    :
    item.node ≠ nilNode :=
  represents.ne_nil (by simp)

end

theorem Represents.root_proper (represents : Represents tree (plug shape path))
    (nonempty : shape ≠ .nil) : rootNode shape ≠ nilNode :=
  represents.ne_nil (by simp [rootNode_mem nonempty])

theorem Represents.root_ne_sibling
    (represents : Represents tree (plug shape (⟨side, (item, red), sibling⟩ :: path)))
    (nonempty : shape ≠ .nil) : rootNode shape ≠ rootNode sibling := by
  intro same
  have inside := rootNode_mem nonempty
  have proper := represents.root_proper nonempty
  have distinct := represents.nodup
  simp only [names_plug, pathNames_cons, Multiset.nodup_add, Multiset.disjoint_left,
    Multiset.mem_cons, Multiset.mem_add, not_or] at distinct
  refine (distinct.2.2 inside).2.1 (same ▸ rootNode_mem ?_)
  rintro rfl
  exact proper same

theorem Represents.side_eq
    (represents : Represents tree (plug shape (⟨side, (item, red), sibling⟩ :: path)))
    (apart : rootNode shape ≠ rootNode sibling) :
    (if rootNode shape = tree.child .left item.node then Side.left else .right) = side := by
  cases side with
  | left => exact if_pos represents.top_child.symm
  | right =>
    refine if_neg ?_
    rw [show tree.child .left item.node = rootNode sibling from represents.top_sibling]
    exact apart

theorem Represents.root_ne (represents : Represents tree (plug shape path)) (nonempty : shape ≠ .nil)
    (below : path ≠ []) : rootNode shape ≠ tree.root := by
  have inside := rootNode_mem nonempty
  have distinct := represents.nodup
  simp only [names_plug, Multiset.nodup_add, Multiset.disjoint_left] at distinct
  intro same
  refine distinct.2.2 inside ?_
  rw [same]
  have hangs := represents.hangs
  clear same inside distinct represents
  generalize rootNode shape = focus at hangs
  induction path generalizing focus with
  | nil => exact absurd rfl below
  | cons frame path ih =>
    obtain ⟨side, ⟨item, red⟩, sibling⟩ := frame
    simp only [pathNames_cons, Multiset.mem_cons, Multiset.mem_add]
    cases path with
    | nil => exact .inl hangs.2.2.2.2.2
    | cons frame path => exact .inr (.inr (ih (by simp) item.node hangs.2.2.2.2.2))

theorem Represents.recolorSibling (represents : Represents tree
      (plug shape (⟨side, (item, red), join other a (u, pRed) b⟩ :: path))) (color : Bool) :
    Moves tree (rbnodeSetColor tree u.node color)
      (plug shape (⟨side, (item, red), join other a (u, pRed) b⟩ :: path))
      (plug shape (⟨side, (item, red), join other a (u, color) b⟩ :: path)) := by
  rw [plug_sibling shape] at represents
  rw [plug_sibling shape, plug_sibling shape]
  exact represents.recolor color

theorem Represents.redRedRound_recolor (represents : Represents tree (plug x
      (⟨inner, (p, true), sibling⟩ :: ⟨outer, (g, false), join other a (u, true) b⟩ :: rest)))
    (nonempty : x ≠ .nil) :
    ∃ next, rbtreeRedRedRound tree outer (rootNode x) = some (next, g.node) ∧
      Moves tree next
        (plug x (⟨inner, (p, true), sibling⟩ :: ⟨outer, (g, false), join other a (u, true) b⟩ ::
          rest))
        (plug (join outer (join inner x (p, false) sibling) (g, true) (join other a (u, false) b))
          rest) := by
  have atParent : Represents tree (plug (join inner x (p, true) sibling)
    (⟨outer, (g, false), join other a (u, true) b⟩ :: rest)) := represents
  have parent := represents.top nonempty
  have grandparent := represents.top_parent
  have uncleChild := atParent.top_sibling
  have uncleRed : tree.red u.node = true := by
    rw [plug_sibling] at atParent
    simpa using atParent.red_root
  have first := atParent.recolor false
  have second := (show Represents _ (plug (join outer (join inner x (p, false) sibling) (g, false)
    (join other a (u, true) b)) rest) from first.represents).recolor true
  have third := (show Represents _ (plug (join inner x (p, false) sibling)
    (⟨outer, (g, true), join other a (u, true) b⟩ :: rest)) from
      second.represents).recolorSibling false
  refine ⟨_, ?_, first.trans (second.trans third)⟩
  simp only [topNode_cons] at parent grandparent
  simp only [rootNode_join] at uncleChild
  simp [rbtreeRedRedRound, parent, grandparent, uncleChild, uncleRed, rbtreeSetNodeRed,
    atParent.top_proper]

theorem Represents.liftParent (represents : Represents tree
      (plug x (⟨side, (p, true), sibling⟩ :: ⟨side, (g, false), uncle⟩ :: rest)))
    (nonempty : x ≠ .nil) :
    ∃ next, rbtreeLiftParent tree side (rootNode x) = some (next, g.node) ∧
      Moves tree next (plug x (⟨side, (p, true), sibling⟩ :: ⟨side, (g, false), uncle⟩ :: rest))
        (plug (join side x (p.touch tree.useDirty, false)
          (join side sibling (g.touch tree.useDirty, true) uncle))
          (touchPath (touchItem tree.useDirty) rest)) := by
  have atParent : Represents tree
    (plug (join side x (p, true) sibling) (⟨side, (g, false), uncle⟩ :: rest)) := represents
  have parent := represents.top nonempty
  have grandparent := represents.top_parent
  have first := atParent.recolor false
  have second := (show Represents _
    (plug (join side (join side x (p, false) sibling) (g, false) uncle)
    rest) from first.represents).recolor true
  have colored := first.trans second
  have ready := colored.represents
  rw [← join_flip side uncle, ← join_flip side sibling x (p, false)] at ready
  obtain ⟨next, rotated, moves⟩ := ready.rotateNode
  rw [join_flip, join_flip, join_flip, join_flip] at moves
  refine ⟨next, ?_, colored.trans moves⟩
  simp only [topNode_cons] at parent grandparent
  simp [rbtreeLiftParent, parent, grandparent, rbtreeSetNodeRed, atParent.top_proper, rotated]

theorem Represents.straighten (represents : Represents tree (plug (join side a (item, true) b)
      (⟨side.flip, (p, true), sibling⟩ :: ⟨side, (g, false), uncle⟩ :: rest))) :
    ∃ next, rbtreeStraighten tree side item.node = some (next, p.node) ∧
      Moves tree next
        (plug (join side a (item, true) b)
          (⟨side.flip, (p, true), sibling⟩ :: ⟨side, (g, false), uncle⟩ :: rest))
        (plug (join side sibling (p.touch tree.useDirty, true) a)
          (⟨side, (item.touch tree.useDirty, true), b⟩ ::
            touchPath (touchItem tree.useDirty) (⟨side, (g, false), uncle⟩ :: rest))) := by
  have parent := represents.top (join_ne_nil _ _ _ _)
  have child := represents.top_child
  rw [rootNode_join, topNode_cons] at parent
  rw [rootNode_join] at child
  have atParent : Represents tree (plug (join side sibling (p, true) (join side a (item, true) b))
      (⟨side, (g, false), uncle⟩ :: rest)) := by
    rw [← join_flip side (join side a (item, true) b)]
    exact represents
  obtain ⟨next, rotated, moves⟩ := atParent.rotateNode
  rw [← join_flip side (join side a (item, true) b)] at moves
  refine ⟨next, ?_, moves⟩
  simp [rbtreeStraighten, parent, child, rotated]

theorem redBlack_of_rotate (useDirty : Bool)
    (fits : Fits (⟨side, (p, true), sibling⟩ :: ⟨side, (g, false), uncle⟩ :: rest) height)
    (balanced : RbBalanced x height) (uncleBlack : rootRed uncle = false) :
    RedBlack (plug (join side x (p, false) (join side sibling (g, true) uncle))
      (touchPath (touchItem useDirty) rest)) := by
  obtain ⟨lifted, above⟩ := fits.rotate balanced uncleBlack
  refine (redBlack_plug_iff _ _).mpr ⟨height + 1, lifted, (fits_touchPath _ _ _).mpr above, ?_⟩
  simp

theorem Represents.redRedRound_rotate
    (represents : Represents tree (plug (join other near (item, true) far)
      (⟨inner, (p, true), sibling⟩ :: ⟨outer, (g, false), uncle⟩ :: rest)))
    (balanced : RbBalanced (join other near (item, true) far) height)
    (fits : Fits (⟨inner, (p, true), sibling⟩ :: ⟨outer, (g, false), uncle⟩ :: rest) height)
    (uncleBlack : rootRed uncle = false) :
    ∃ next x p' sib g' rest', rbtreeRedRedRound tree outer item.node = some (next, g'.node) ∧
      Moves tree next
        (plug (join other near (item, true) far)
          (⟨inner, (p, true), sibling⟩ :: ⟨outer, (g, false), uncle⟩ :: rest))
        (plug (join outer x (p', false) (join outer sib (g', true) uncle)) rest') ∧
      RedBlack (plug (join outer x (p', false) (join outer sib (g', true) uncle)) rest') := by
  have parent := represents.top (join_ne_nil _ _ _ _)
  have grandparent := represents.top_parent
  have atParent : Represents tree
    (plug (join inner (join other near (item, true) far) (p, true) sibling)
      (⟨outer, (g, false), uncle⟩ :: rest)) := represents
  have uncleChild := atParent.top_sibling
  rw [plug_sibling] at atParent
  have uncleColor := atParent.red_root
  rw [rootNode_join, topNode_cons] at parent
  rw [topNode_cons] at grandparent
  have round : rbtreeRedRedRound tree outer item.node =
      (rbtreeStraighten tree outer item.node).bind fun found => rbtreeLiftParent found.1
        outer found.2 := by
    simp [rbtreeRedRedRound, parent, grandparent, uncleChild, uncleColor, uncleBlack]
  rw [round]
  rcases Side.eq_or_flip outer inner with straight | bent
  · subst straight
    have apart := represents.root_ne_sibling (join_ne_nil _ _ _ _)
    rw [rootNode_join] at apart
    have outside : rbtreeStraighten tree inner item.node = some (tree, item.node) := by
      simp [rbtreeStraighten, parent, represents.top_sibling, apart]
    obtain ⟨next, lifted, moves⟩ := represents.liftParent (join_ne_nil _ _ _ _)
    rw [rootNode_join] at lifted
    refine ⟨next, _, _, _, _, _, ?_, moves, ?_⟩
    · rw [outside, Option.bind_some]
      exact lifted
    · exact redBlack_of_rotate tree.useDirty (p := p.touch tree.useDirty)
        (g := g.touch tree.useDirty) fits balanced uncleBlack
  · subst bent
    obtain ⟨a, b, turned⟩ := exists_join_eq other outer near far (item, true)
    rw [turned] at represents balanced ⊢
    have touched : Fits (⟨outer.flip, (p.touch tree.useDirty, true), sibling⟩ ::
      ⟨outer, (g, false), uncle⟩ :: rest) height := fits
    have balancedItem : RbBalanced (join outer a (item.touch tree.useDirty, true) b) height :=
      balanced.of_colours (by simp)
    obtain ⟨balancedParent, fitsItem⟩ := touched.straighten balancedItem
    obtain ⟨middle, straightened, first⟩ := represents.straighten
    obtain ⟨next, lifted, second⟩ := first.represents.liftParent (join_ne_nil _ _ _ _)
    rw [rootNode_join] at lifted
    refine ⟨next, _, _, _, _, _, ?_, first.trans second, ?_⟩
    · rw [straightened, Option.bind_some]
      exact lifted
    · refine redBlack_of_rotate middle.useDirty ?_ balancedParent uncleBlack
      exact (fits_touchPath _ _ _).mpr fitsItem

theorem Represents.red_tree_root (represents : Represents tree shape) (redBlack : RedBlack shape) :
    tree.red tree.root = false := by
  rw [represents.root, (show Represents tree (plug shape []) from represents).red_root]
  exact redBlack.1

theorem Represents.redRedFixup_done (represents : Represents tree (plug shape path))
    (redBlack : RedBlack (plug shape path)) (nonempty : shape ≠ .nil)
    (above : path = [] ∨ aboveRed path = false) (fuel : Nat) :
    rbtreeRedRedFixup (fuel + 1) tree (rootNode shape) = some tree := by
  have rootBlack := represents.red_tree_root redBlack
  have stops : ¬(rootNode shape ≠ tree.root ∧ tree.red (tree.parent (rootNode shape)) = true) := by
    rintro ⟨notRoot, parentRed⟩
    cases path with
    | nil => exact notRoot represents.root.symm
    | cons frame path =>
      obtain ⟨side, ⟨item, red⟩, sibling⟩ := frame
      have black : red = false := by simpa [aboveRed] using above
      rw [represents.top nonempty, topNode_cons, represents.hangs.1.2.2, black] at parentRed
      exact absurd parentRed (by decide)
  rw [rbtreeRedRedFixup, if_neg stops, rbnodeSetColor_same rootBlack]

theorem Represents.redRedFixup : ∀ (fuel : Nat) {tree : Rbtree Payload} {path : RbPath Payload}
    {side : Side} {near far : RbShape Payload} {item : RbItem Payload} {height : Nat},
    Represents tree (plug (join side near (item, true) far) path) →
    RbBalanced (join side near (item, true) far) height → Fits path height → path.length < fuel →
    ∃ next shape, rbtreeRedRedFixup fuel tree item.node = some next ∧
      Moves tree next (plug (join side near (item, true) far) path) shape ∧ RedBlack shape := by
  intro fuel
  induction fuel with
  | zero =>
    intro _ path _ _ _ _ _ _ _ _ enough
    simp at enough
  | succ fuel ih =>
    intro tree path side near far item height represents balanced fits enough
    cases path with
    | nil =>
      have isRoot : tree.root = item.node := by
        rw [represents.root]
        exact rootNode_join side near far (item, true)
      have moves := represents.recolor false
      refine ⟨_, _, ?_, moves, ?_⟩
      · simp [rbtreeRedRedFixup, isRoot]
      · obtain ⟨_, _, inNear, inFar⟩ := balanced_join_red.mp balanced
        exact ⟨rootRed_join false, height + 1, balanced_join_black.mpr ⟨inNear, inFar⟩⟩
    | cons frame path =>
      obtain ⟨inner, ⟨p, pRed⟩, sibling⟩ := frame
      have nonempty := join_ne_nil side near far (item, true)
      cases pRed with
      | false =>
        have redBlack : RedBlack (plug (join side near (item, true) far)
            (⟨inner, (p, false), sibling⟩ :: path)) :=
          (redBlack_plug_iff _ _).mpr ⟨height, balanced, fits, fun _ => rfl⟩
        refine ⟨tree, _, ?_, .refl represents, redBlack⟩
        have done := represents.redRedFixup_done redBlack nonempty (.inr rfl) fuel
        rwa [rootNode_join] at done
      | true =>
        obtain ⟨outer, g, uncle, rest, rfl⟩ := fits.grandparent
        simp only [List.length_cons] at enough
        have notRoot : item.node ≠ tree.root := by
          simpa using represents.root_ne nonempty (by simp)
        have parent : tree.parent item.node = p.node := by simpa using represents.top nonempty
        have grandparent : tree.parent p.node = g.node := represents.top_parent
        have sideEq : (if p.node = tree.child .left g.node then Side.left else .right) = outer := by
          have atParent : Represents tree
            (plug (join inner (join side near (item, true) far) (p, true) sibling)
              (⟨outer, (g, false), uncle⟩ :: rest)) := represents
          simpa using atParent.side_eq (atParent.root_ne_sibling (join_ne_nil _ _ _ _))
        have goes : item.node ≠ tree.root ∧ tree.red (tree.parent item.node) = true := by
          rw [parent]
          exact ⟨notRoot, represents.hangs.1.2.2⟩
        have steps : rbtreeRedRedFixup (fuel + 1) tree item.node =
            (rbtreeRedRedRound tree outer item.node).bind fun found =>
              rbtreeRedRedFixup fuel found.1 found.2 := by
          rw [rbtreeRedRedFixup, if_pos goes, parent, grandparent, sideEq]
          rfl
        rw [steps]
        cases uncleColor : rootRed uncle with
        | true =>
          obtain ⟨a, u, b, rfl⟩ := exists_join_of_red .left uncleColor
          obtain ⟨next, round, moves⟩ := represents.redRedRound_recolor nonempty
          rw [rootNode_join] at round
          obtain ⟨lifted, above⟩ := fits.recolor balanced
          obtain ⟨last, shape, rounds, rest, redBlack⟩ :=
            ih moves.represents lifted above (by omega)
          refine ⟨last, shape, ?_, moves.trans rest, redBlack⟩
          rw [show rbtreeRedRedRound tree outer item.node = _ from round, Option.bind_some]
          exact rounds
        | false =>
          obtain ⟨next, x, p', sib, g', rest', round, moves, redBlack⟩ :=
            represents.redRedRound_rotate balanced fits uncleColor
          refine ⟨next, _, ?_, moves, redBlack⟩
          have below := moves.represents
          rw [show plug (join outer x (p', false) (join outer sib (g', true) uncle)) rest' = _
            from plug_sibling x (join outer sib (g', true) uncle) outer (p', false) rest']
            at below redBlack
          cases fuel with
          | zero => omega
          | succ fuel =>
            have done := below.redRedFixup_done redBlack (join_ne_nil _ _ _ _) (.inr rfl) fuel
            rw [rootNode_join] at done
            rw [round, Option.bind_some]
            exact done

end RbtreeRedRed

end MulleCore
