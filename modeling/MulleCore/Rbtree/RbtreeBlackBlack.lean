import MulleCore.Rbtree.RbtreeInsert

/-!
A focus that is one black node short: the four cases of the loop, on either side.
-/

namespace MulleCore

open Library

section RbtreeBlackBlack

variable {Payload : Type} {tree next : Rbtree Payload} {path rest : RbPath Payload}
  {x sibling near far a b : RbShape Payload} {side other : Side} {p w u : RbItem Payload}
  {red pRed wRed : Bool} {height : Nat}

theorem plug_near (x near far : RbShape Payload) (side : Side) (p w : RbItem Payload × Bool)
    (path : RbPath Payload) : plug x (⟨side, p, join side near w far⟩ :: path) =
      plug near (⟨side, w, far⟩ :: ⟨side.flip, p, x⟩ :: path) := by
  simp [plug, join_flip]

theorem plug_far (x near far : RbShape Payload) (side : Side) (p w : RbItem Payload × Bool)
    (path : RbPath Payload) : plug x (⟨side, p, join side near w far⟩ :: path) =
      plug far (⟨side.flip, w, near⟩ :: ⟨side.flip, p, x⟩ :: path) := by
  simp [plug, join_flip]

theorem Represents.sibling_red
    (represents : Represents tree (plug x (⟨side, (p, pRed), sibling⟩ :: path))) :
    tree.red (rootNode sibling) = rootRed sibling := by
  rw [plug_sibling] at represents
  exact represents.red_root

theorem Represents.nephews
    (represents : Represents tree
      (plug x (⟨side, (p, pRed), join side near (w, wRed) far⟩ :: path))) :
    tree.child side w.node = rootNode near ∧ tree.child side.flip w.node = rootNode far ∧
      tree.red (rootNode near) = rootRed near ∧ tree.red (rootNode far) = rootRed far := by
  have atNear := represents
  have atFar := represents
  rw [plug_near] at atNear
  rw [plug_far] at atFar
  exact ⟨atNear.top_child, atFar.top_child, atNear.red_root, atFar.red_root⟩

structure ShortBelow (tree : Rbtree Payload) (x : RbShape Payload) (path : RbPath Payload)
    (height : Nat) : Prop where
  represents : Represents tree (plug x path)
  fits : Fits path (height + 1)
  parent : tree.parent (rootNode x) = topNode path

theorem Moves.parent_nil {shape moved : RbShape Payload} (moves : Moves tree next shape moved)
    (represents : Represents tree shape) : next.parent nilNode = tree.parent nilNode :=
  (moves.confined.outside nilNode represents.nil_notMem).2

theorem Moves.shortBelow {shape : RbShape Payload} {p : RbItem Payload}
    (moves : Moves tree next shape (plug x (⟨side, (p, pRed), sibling⟩ :: path)))
    (represents : Represents tree shape)
    (fits : Fits (⟨side, (p, pRed), sibling⟩ :: path) (height + 1))
    (parent : tree.parent (rootNode x) = p.node) :
    ShortBelow next x (⟨side, (p, pRed), sibling⟩ :: path) height := by
  refine ⟨moves.represents, fits, ?_⟩
  cases x with
  | nil =>
    rw [rootNode_nil, moves.parent_nil represents]
    exact parent
  | node item left right => exact moves.represents.top (by simp)

theorem ShortBelow.redSibling
    (short : ShortBelow tree x (⟨side, (p, pRed), sibling⟩ :: path) height) :
    ∃ next p' pRed' near w far rest,
      rbtreeRedSibling tree side (rootNode x) (rootNode sibling) = some (next, w.node) ∧
      Moves tree next (plug x (⟨side, (p, pRed), sibling⟩ :: path))
        (plug x (⟨side, (p', pRed'), join side near (w, false) far⟩ :: rest)) ∧
      ShortBelow next x (⟨side, (p', pRed'), join side near (w, false) far⟩ :: rest) height ∧
      (pRed' = true ∨ rest.length = path.length) := by
  obtain ⟨represents, fits, parent⟩ := short
  rw [topNode_cons] at parent
  have color := represents.sibling_red
  obtain ⟨near, w, wRed, far, rfl⟩ := fits.sibling_join
  rw [rootNode_join] at color ⊢
  rw [rootRed_join] at color
  cases wRed with
  | false =>
    refine ⟨tree, p, pRed, near, w, far, path, ?_, .refl represents, ⟨represents, fits, parent⟩,
      .inr rfl⟩
    simp [rbtreeRedSibling, color]
  | true =>
    obtain ⟨rfl, nearBlack, turned⟩ := fits.redSibling
    have first := represents.recolorSibling false
    have second := (show Represents _ (plug (join side x (p, false) (join side near (w, false) far))
      path) from first.represents).recolor true
    have colored := first.trans second
    obtain ⟨next, rotated, moves⟩ := colored.represents.rotateNode
    have whole : Moves tree next (plug x (⟨side, (p, false), join side near (w, true) far⟩ :: path))
        (plug x (⟨side, (p.touch tree.useDirty, true), near⟩ ::
          ⟨side, (w.touch tree.useDirty, false), far⟩ ::
          touchPath (touchItem tree.useDirty) path)) := colored.trans moves
    obtain ⟨inner, v, vRed, outer, rfl⟩ := turned.sibling_join
    rw [rootRed_join] at nearBlack
    subst nearBlack
    have turnedPath : Fits (⟨side, (p.touch tree.useDirty, true), join side inner (v, false) outer⟩ ::
        ⟨side, (w.touch tree.useDirty, false), far⟩ ::
        touchPath (touchItem tree.useDirty) path) (height + 1) := by
      obtain ⟨vBlack, vBalanced, above, farBalanced, pathFits⟩ := turned
      exact ⟨vBlack, vBalanced, above, farBalanced, (fits_touchPath _ _ _).mpr pathFits⟩
    have short := Moves.shortBelow whole represents turnedPath parent
    refine ⟨next, p.touch tree.useDirty, true, inner, v, outer, _, ?_, whole, short, .inl rfl⟩
    have child := short.represents.top_sibling
    have stays := short.parent
    rw [topNode_cons] at stays
    rw [rootNode_join] at child
    simp only [touch_node] at child stays
    simp [rbtreeRedSibling, color, parent, rotated, stays, child]

theorem ShortBelow.nearSibling
    (short : ShortBelow tree x (⟨side, (p, pRed), join side near (w, false) far⟩ :: path) height)
    (someRed : rootRed near = true ∨ rootRed far = true) :
    ∃ next p' near' w' a u b rest,
      rbtreeNearSibling tree side (rootNode x) w.node = some (next, w'.node) ∧
      Moves tree next (plug x (⟨side, (p, pRed), join side near (w, false) far⟩ :: path))
        (plug x (⟨side, (p', pRed), join side near' (w', false) (join side a (u, true) b)⟩ :: rest)) ∧
      ShortBelow next x
        (⟨side, (p', pRed), join side near' (w', false) (join side a (u, true) b)⟩ :: rest)
          height := by
  obtain ⟨represents, fits, parent⟩ := short
  rw [topNode_cons] at parent
  obtain ⟨nearChild, farChild, nearColor, farColor⟩ := represents.nephews
  cases farRed : rootRed far with
  | true =>
    obtain ⟨a, u, b, rfl⟩ := exists_join_of_red side farRed
    refine ⟨tree, p, near, w, a, u, b, path, ?_, .refl represents, ⟨represents, fits, parent⟩⟩
    have isRed : tree.red (tree.child side.flip w.node) = true := by rw [farChild, farColor, farRed]
    rw [rbtreeNearSibling, if_neg (by simp [isRed])]
  | false =>
    obtain ⟨a, u, b, rfl⟩ := exists_join_of_red side (someRed.resolve_right (by simp [farRed]))
    have turned := fits.nearRed farRed
    have atNear := represents
    rw [plug_near] at atNear
    have first := atNear.recolor false
    have second := (show Represents _ (plug (join side (join side a (u, false) b) (w, false) far)
      (⟨side.flip, (p, pRed), x⟩ :: path)) from first.represents).recolor true
    have colored := first.trans second
    have ready := colored.represents
    rw [← join_flip side far, ← join_flip side b] at ready
    obtain ⟨next, rotated, moves⟩ := ready.rotateNode
    simp only [join_flip] at moves
    have whole : Moves tree next
        (plug x (⟨side, (p, pRed), join side (join side a (u, true) b) (w, false) far⟩ :: path))
        (plug x (⟨side, (p.touch tree.useDirty, pRed), join side a (u.touch tree.useDirty, false)
          (join side b (w.touch tree.useDirty, true) far)⟩ ::
          touchPath (touchItem tree.useDirty) path)) := by
      rw [plug_near, plug_sibling x (join side a (u.touch tree.useDirty, false) _)]
      exact colored.trans moves
    have turnedPath : Fits (⟨side, (p.touch tree.useDirty, pRed),
        join side a (u.touch tree.useDirty, false) (join side b (w.touch tree.useDirty, true) far)⟩ ::
        touchPath (touchItem tree.useDirty) path) (height + 1) :=
      ((fits_touchPath (RbItem.touch tree.useDirty) _ _).mpr turned).of_colours (by simp)
    have short := Moves.shortBelow whole represents turnedPath parent
    refine ⟨next, _, _, u.touch tree.useDirty, _, _, _, _, ?_, whole, short⟩
    have child := short.represents.top_sibling
    have stays := short.parent
    rw [rootNode_join] at nearChild child
    rw [topNode_cons] at stays
    simp only [touch_node] at child stays
    have black : tree.red (tree.child side.flip w.node) = false := by rw [farChild, farColor, farRed]
    simp [rbtreeNearSibling, black, nearChild, rotated, stays, child]

theorem ShortBelow.farSibling
    (short : ShortBelow tree x
      (⟨side, (p, pRed), join side near (w, false) (join side a (u, true) b)⟩ :: path) height)
    (balanced : RbBalanced x height) :
    ∃ next w' left right rest,
      rbtreeFarSibling tree side (rootNode x) w.node = some (next, next.root, w'.node) ∧
      Moves tree next
        (plug x (⟨side, (p, pRed), join side near (w, false) (join side a (u, true) b)⟩ :: path))
        (plug (join side left (w', pRed) right) rest) ∧
      RedBlack (plug (join side left (w', pRed) right) rest) := by
  obtain ⟨represents, fits, parent⟩ := short
  rw [topNode_cons] at parent
  obtain ⟨_, farChild, _, _⟩ := represents.nephews
  rw [rootNode_join] at farChild
  have color : tree.red p.node = pRed := represents.hangs.1.2.2
  have first := represents.recolorSibling pRed
  have second := (show Represents _ (plug (join side x (p, pRed) (join side near (w, pRed)
    (join side a (u, true) b))) path) from first.represents).recolor false
  have atFar : Represents (rbnodeSetColor (rbnodeSetColor tree w.node pRed) p.node false)
      (plug x (⟨side, (p, false), join side near (w, pRed) (join side a (u, true) b)⟩ :: path)) :=
    second.represents
  rw [plug_far] at atFar
  have third := atFar.recolor false
  rw [← plug_far, ← plug_far] at third
  have colored := first.trans (second.trans third)
  obtain ⟨next, rotated, moves⟩ := (show Represents _ (plug (join side x (p, false)
    (join side near (w, pRed) (join side a (u, false) b))) path) from colored.represents).rotateNode
  refine ⟨next, w.touch tree.useDirty, _, _, _, ?_, colored.trans moves, ?_⟩
  · simp [rbtreeFarSibling, parent, color, farChild, rotated]
  · exact (fits.farRed balanced).touch _ (by simp)

theorem Represents.blackBlackFixup_done (represents : Represents tree (plug x path))
    (short : Short x height) (fits : Fits path (height + 1))
    (ends : path = [] ∨ rootRed x = true) (fuel : Nat) :
    ∃ next shape, rbtreeBlackBlackFixup (fuel + 1) tree (rootNode x) = some next ∧
      Moves tree next (plug x path) shape ∧ RedBlack shape := by
  have stops : ¬(rootNode x ≠ tree.root ∧ tree.red (rootNode x) = false) := by
    rintro ⟨notRoot, black⟩
    rcases ends with rfl | isRed
    · exact notRoot represents.root.symm
    · rw [represents.red_root, isRed] at black
      exact absurd black (by decide)
  rw [rbtreeBlackBlackFixup, if_neg stops]
  cases isRed : rootRed x with
  | false =>
    have top : path = [] := ends.resolve_right (by simp [isRed])
    subst top
    have redBlack : RedBlack x := ⟨isRed, height, short.balanced isRed⟩
    have rootBlack := represents.red_tree_root redBlack
    refine ⟨tree, x, ?_, .refl represents, redBlack⟩
    rw [rbnodeSetColor_same (represents.red_root.trans isRed)]
    exact congrArg some (rbnodeSetColor_same rootBlack)
  | true =>
    obtain ⟨near, item, far, rfl⟩ := exists_join_of_red .left isRed
    have moves := represents.recolor false
    have redBlack : RedBlack (plug (join .left near (item, false) far) path) :=
      (redBlack_plug_iff _ _).mpr ⟨height + 1, short.blacken, fits, by simp⟩
    refine ⟨_, _, rfl, ?_, redBlack⟩
    rw [rootNode_join, rbnodeSetColor_same (moves.represents.red_tree_root redBlack)]
    exact moves

theorem ShortBelow.lower
    (short : ShortBelow tree x (⟨side, (p, pRed), join side near (w, false) far⟩ :: path) height)
    (balanced : RbBalanced x height) (nearBlack : rootRed near = false)
    (farBlack : rootRed far = false) :
    ∃ low, Moves tree (rbnodeSetColor tree w.node true)
        (plug x (⟨side, (p, pRed), join side near (w, false) far⟩ :: path))
        (plug (join side x (p, pRed) (join side near (w, true) far)) path) ∧
      Short (join side x (p, pRed) (join side near (w, true) far)) low ∧
      ShortBelow (rbnodeSetColor tree w.node true)
        (join side x (p, pRed) (join side near (w, true) far)) path low := by
  obtain ⟨represents, fits, parent⟩ := short
  have moves := represents.recolorSibling true
  obtain ⟨low, shortParent, fitsParent⟩ := fits.lower balanced nearBlack farBlack
  refine ⟨low, moves, shortParent, moves.represents, fitsParent, ?_⟩
  rw [rootNode_join]
  exact represents.top_parent

def roundsLeft (x : RbShape Payload) (path : RbPath Payload) : Nat :=
  if rootRed x then 1 else path.length + 1

theorem ShortBelow.round (short : ShortBelow tree x (⟨side, (p, pRed), sibling⟩ :: path) height)
    (balanced : RbBalanced x height) :
    ∃ next x' path' w low, rbtreeBlackBlackRound tree side (rootNode x) =
      some (next, rootNode x', w) ∧
      Moves tree next (plug x (⟨side, (p, pRed), sibling⟩ :: path)) (plug x' path') ∧
      Short x' low ∧ ShortBelow next x' path' low ∧ roundsLeft x' path' ≤ path.length + 1 ∧
      ∃ below way, plug x' path' = plug below way ∧ rootNode below = w := by
  have parent := short.parent
  have child := short.represents.top_sibling
  obtain ⟨first, p', pRed', near, w, far, rest, siblingFound, moves, shortFirst, rounds⟩ :=
    short.redSibling
  obtain ⟨nearChild, farChild, nearColor, farColor⟩ := shortFirst.represents.nephews
  have parentFirst := shortFirst.parent
  rw [topNode_cons] at parent parentFirst
  have steps : rbtreeBlackBlackRound tree side (rootNode x) =
      if rootRed near = false ∧ rootRed far = false then
        some (rbnodeSetColor first w.node true, p'.node, w.node)
      else (rbtreeNearSibling first side (rootNode x) w.node).bind fun found =>
        rbtreeFarSibling found.1 side (rootNode x) found.2 := by
    rw [rbtreeBlackBlackRound, parent, child, siblingFound]
    simp only [Option.bind_eq_bind, Option.bind_some, nearChild, farChild, nearColor, farColor,
      parentFirst]
  rw [steps]
  by_cases bothBlack : rootRed near = false ∧ rootRed far = false
  · obtain ⟨low, lowers, shortParent, below⟩ := shortFirst.lower balanced bothBlack.1 bothBlack.2
    refine ⟨_, join side x (p', pRed') (join side near (w, true) far), rest, w.node, low, ?_,
      moves.trans lowers, shortParent, below, ?_, join side near (w, true) far,
      ⟨side.flip, (p', pRed'), x⟩ :: rest, ?_, ?_⟩
    · rw [if_pos bothBlack, rootNode_join]
    · simp only [roundsLeft, rootRed_join]
      rcases rounds with isRed | same
      · simp [isRed]
      · split_ifs <;> omega
    · simp [plug, join_flip]
    · rw [rootNode_join]
  · have someRed : rootRed near = true ∨ rootRed far = true := by
      cases nearRed : rootRed near <;> cases farRed : rootRed far <;> simp_all
    obtain ⟨second, p'', near', w', a, u, b, rest', nephewFound, turns, shortSecond⟩ :=
      shortFirst.nearSibling someRed
    obtain ⟨next, w'', left, right, rest'', fixed, rotates, redBlack⟩ :=
      shortSecond.farSibling balanced
    have whole := (moves.trans turns).trans rotates
    obtain ⟨low, wholeBalanced⟩ := redBlack.2
    refine ⟨next, plug (join side left (w'', pRed') right) rest'', [], w''.node, low, ?_, whole,
      wholeBalanced.short, ⟨whole.represents, trivial, ?_⟩, ?_, join side left (w'', pRed') right,
      rest'', rfl, ?_⟩
    · rw [if_neg bothBlack, nephewFound, Option.bind_some, fixed, whole.represents.root]
    · refine (show Represents next (plug _ []) from whole.represents).top ?_
      exact plug_ne_nil (join_ne_nil _ _ _ _) _
    · simp [roundsLeft, redBlack.1]
    · rw [rootNode_join]

theorem ShortBelow.root_ne_sibling
    (short : ShortBelow tree x (⟨side, (p, pRed), sibling⟩ :: path) height) :
    rootNode x ≠ rootNode sibling := by
  cases x with
  | nil =>
    have represents := short.represents
    obtain ⟨near, w, wRed, far, rfl⟩ := short.fits.sibling_join
    rw [plug_sibling] at represents
    exact Ne.symm (represents.root_proper (join_ne_nil _ _ _ _))
  | node item left right => exact short.represents.root_ne_sibling (by simp)

theorem Represents.root_ne_of_below
    (represents : Represents tree (plug x (⟨side, (p, pRed), sibling⟩ :: path))) :
    rootNode x ≠ tree.root := by
  cases x with
  | nil =>
    intro same
    have empty := represents.root_eq_nil_iff.mp same.symm
    exact plug_ne_nil (join_ne_nil _ _ _ _) path empty
  | node item left right => exact represents.root_ne (by simp) (by simp)

theorem ShortBelow.blackBlackFixup : ∀ (fuel : Nat) {tree : Rbtree Payload} {x : RbShape Payload}
    {path : RbPath Payload} {height : Nat}, ShortBelow tree x path height → Short x height →
    Everywhere (DirtyOk tree.useDirty) (plain (plug x path)) → roundsLeft x path ≤ fuel →
    ∃ next shape, rbtreeBlackBlackFixup fuel tree (rootNode x) = some next ∧
      Moves tree next (plug x path) shape ∧ RedBlack shape := by
  intro fuel
  induction fuel with
  | zero =>
    intro _ x path _ _ _ _ enough
    simp only [roundsLeft] at enough
    split_ifs at enough <;> omega
  | succ fuel ih =>
    intro tree x path height shortBelow short dirtyOk enough
    by_cases ends : path = [] ∨ rootRed x = true
    · exact shortBelow.represents.blackBlackFixup_done short shortBelow.fits ends fuel
    · simp only [not_or, Bool.not_eq_true] at ends
      obtain ⟨below, black⟩ := ends
      cases path with
      | nil => exact absurd rfl below
      | cons frame path =>
        obtain ⟨side, ⟨p, pRed⟩, sibling⟩ := frame
        have represents := shortBelow.represents
        have parent := shortBelow.parent
        rw [topNode_cons] at parent
        simp only [roundsLeft, black, Bool.false_eq_true, if_false, List.length_cons] at enough
        have sideEq := represents.side_eq shortBelow.root_ne_sibling
        have goes : rootNode x ≠ tree.root ∧ tree.red (rootNode x) = false :=
          ⟨represents.root_ne_of_below, represents.red_root.trans black⟩
        obtain ⟨next, x', path', w, low, round, moves, shortNext, belowNext, rounds, atSibling, way,
          same, isSibling⟩ := shortBelow.round (short.balanced black)
        have dirtyNext : Everywhere (DirtyOk next.useDirty) (plain (plug x' path')) := by
          rw [moves.confined.useDirty]
          exact dirtyOk_of_rotated moves.rotated dirtyOk
        have xChecked := belowNext.represents.assertDirty dirtyNext
        have wChecked : rbtreeAssertDirty next w = some next := by
          have represents := belowNext.represents
          rw [same] at represents dirtyNext
          rw [← isSibling]
          exact represents.assertDirty dirtyNext
        obtain ⟨last, shape, fixed, rest, redBlack⟩ :=
          ih belowNext shortNext dirtyNext (by omega)
        refine ⟨last, shape, ?_, moves.trans rest, redBlack⟩
        rw [rbtreeBlackBlackFixup, if_pos goes, parent, sideEq]
        simp only [Option.bind_eq_bind, round, Option.bind_some, xChecked, wChecked]
        exact fixed

end RbtreeBlackBlack

end MulleCore
