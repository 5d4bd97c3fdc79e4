import MulleCore.Library.RedBlack

/-!
Rotations that touch all nodes from the rotated ones up to the root: what they keep of
the order, and of a property that a touched node always has.
-/

namespace Library

section Touching

variable {Item : Type} (f : Item → Item)

def touchRoot : BinaryTree Item → BinaryTree Item
  | .nil => .nil
  | .node item left right => .node (f item) left right

def touchPath (path : Path Item) : Path Item :=
  path.map fun frame => { frame with item := f frame.item }

@[simp] theorem touchPath_nil : touchPath f [] = [] := rfl

@[simp] theorem touchPath_cons (frame : Frame Item) (path : Path Item) :
    touchPath f (frame :: path) = { frame with item := f frame.item } :: touchPath f path := rfl

@[simp] theorem touchPath_append (path more : Path Item) :
    touchPath f (path ++ more) = touchPath f path ++ touchPath f more := by
  simp [touchPath]

@[simp] theorem length_touchPath (path : Path Item) : (touchPath f path).length = path.length := by
  simp [touchPath]

@[simp] theorem touchRoot_join (side : Side) (near far : BinaryTree Item) (item : Item) :
    touchRoot f (join side near item far) = join side near (f item) far := by
  cases side <;> rfl

variable {f} {Key : Type} {key : Item → Key}

section

variable (kept : ∀ item, key (f item) = key item)
include kept

theorem before_touchPath (path : Path Item) :
    (before (touchPath f path)).map key = (before path).map key := by
  induction path with
  | nil => rfl
  | cons frame path ih =>
    obtain ⟨side, item, sibling⟩ := frame
    cases side with
    | left => simpa [before] using ih
    | right => simp [before, ih, kept]

theorem after_touchPath (path : Path Item) :
    (after (touchPath f path)).map key = (after path).map key := by
  induction path with
  | nil => rfl
  | cons frame path ih =>
    obtain ⟨side, item, sibling⟩ := frame
    cases side with
    | left => simp [after, ih, kept]
    | right => simpa [after] using ih

theorem inorder_touchRoot (tree : BinaryTree Item) :
    (inorder (touchRoot f tree)).map key = (inorder tree).map key := by
  cases tree with
  | nil => rfl
  | node item left right => simp [touchRoot, inorder, kept]

theorem inorder_plug_touch (path : Path Item)
    (tree : BinaryTree Item) : (inorder (plug (touchRoot f tree) (touchPath f path))).map key =
      (inorder (plug tree path)).map key := by
  simp only [inorder_plug, List.map_append, before_touchPath kept, after_touchPath kept,
    inorder_touchRoot kept]

end

end Touching

section Everywhere

variable {Item : Type}
variable {tree : BinaryTree Item} {side : Side} {near far : BinaryTree Item} {item : Item}

def Everywhere (P : Item → BinaryTree Item → BinaryTree Item → Prop) : BinaryTree Item → Prop
  | .nil => True
  | .node item left right => P item left right ∧ Everywhere P left ∧ Everywhere P right

variable {P Q : Item → BinaryTree Item → BinaryTree Item → Prop} {f : Item → Item}

theorem Everywhere.mono (weaker : ∀ item left right, P item left right → Q item left right)
    (held : Everywhere P tree) : Everywhere Q tree := by
  induction tree with
  | nil => trivial
  | node item left right leftIh rightIh =>
    obtain ⟨here, inLeft, inRight⟩ := held
    exact ⟨weaker item left right here, leftIh inLeft, rightIh inRight⟩

theorem Everywhere.of_join
    (held : Everywhere P (join side near item far)) : Everywhere P near ∧ Everywhere P far := by
  cases side with
  | left => exact held.2
  | right => exact ⟨held.2.2, held.2.1⟩

theorem Everywhere.join (here : ∀ left right, P item left right) (inNear : Everywhere P near)
    (inFar : Everywhere P far) : Everywhere P (join side near item far) := by
  cases side with
  | left => exact ⟨here near far, inNear, inFar⟩
  | right => exact ⟨here far near, inFar, inNear⟩

theorem Everywhere.of_plug : ∀ {path : Path Item} {tree : BinaryTree Item},
    Everywhere P (plug tree path) → Everywhere P tree := by
  intro path
  induction path with
  | nil => exact id
  | cons frame path ih => exact fun held => (ih held).of_join.1

theorem Everywhere.touchRoot (touched : ∀ item left right, P (f item) left right)
    (held : Everywhere P tree) : Everywhere P (touchRoot f tree) := by
  cases tree with
  | nil => trivial
  | node item left right => exact ⟨touched item left right, held.2⟩

theorem Everywhere.replug (touched : ∀ item left right, P (f item) left right) :
    ∀ {path : Path Item} {tree next : BinaryTree Item}, Everywhere P (plug tree path) →
      Everywhere P next → Everywhere P (plug next (touchPath f path)) := by
  intro path
  induction path with
  | nil => exact fun _ held => held
  | cons frame path ih =>
    intro tree next held inNext
    have below : Everywhere P (Library.join frame.side tree frame.item frame.sibling) :=
      Everywhere.of_plug held
    exact ih held (.join (touched frame.item) inNext below.of_join.2)

/-! A change that is not made good yet above the items that are marked. -/

variable {marked : Item → Prop}

def Excused (marked : Item → Prop) (P : Item → BinaryTree Item → BinaryTree Item → Prop) (item : Item)
    (left right : BinaryTree Item) : Prop :=
  P item left right ∨ (∃ other ∈ inorder left, marked other) ∨ ∃ other ∈ inorder right, marked other

theorem Everywhere.excuse : ∀ {path : Path Item} {tree next : BinaryTree Item},
    Everywhere P (plug tree path) → Everywhere (Excused marked P) next →
    (∃ item ∈ inorder next, marked item) → Everywhere (Excused marked P) (plug next path) := by
  intro path
  induction path with
  | nil => exact fun _ held _ => held
  | cons frame path ih =>
    intro tree next held inNext below
    obtain ⟨side, item, sibling⟩ := frame
    have above : Everywhere P (plug (Library.join side tree item sibling) path) := held
    have inSibling : Everywhere (Excused marked P) sibling :=
      above.of_plug.of_join.2.mono fun _ _ _ => .inl
    refine ih above ?_ ?_
    · cases side with
      | left => exact ⟨.inr (.inl below), inNext, inSibling⟩
      | right => exact ⟨.inr (.inr below), inSibling, inNext⟩
    · obtain ⟨other, inside, isMarked⟩ := below
      refine ⟨other, ?_, isMarked⟩
      cases side <;> simp [Library.join, inorder, inside]

theorem Everywhere.unexcused (held : Everywhere (Excused marked P) tree)
    (none : ∀ item ∈ inorder tree, ¬marked item) : Everywhere P tree := by
  induction tree with
  | nil => trivial
  | node item left right leftIh rightIh =>
    simp only [inorder, List.mem_append, List.mem_cons] at none
    obtain ⟨here, inLeft, inRight⟩ := held
    refine ⟨?_, leftIh inLeft fun other inside => none other (.inl inside),
      rightIh inRight fun other inside => none other (.inr (.inr inside))⟩
    rcases here with here | ⟨other, inside, isMarked⟩ | ⟨other, inside, isMarked⟩
    · exact here
    · exact absurd isMarked (none other (.inl inside))
    · exact absurd isMarked (none other (.inr (.inr inside)))

theorem Everywhere.settle (touched : ∀ item left right, P (f item) left right) :
    ∀ {path : Path Item} {tree next : BinaryTree Item},
      Everywhere (Excused marked P) (plug tree path) →
      (∀ item ∈ before path ++ after path, ¬marked item) → Everywhere P next →
      Everywhere P (plug next (touchPath f path)) := by
  intro path
  induction path with
  | nil => exact fun _ _ held => held
  | cons frame path ih =>
    intro tree next held none inNext
    obtain ⟨side, item, sibling⟩ := frame
    have above : Everywhere (Excused marked P) (plug (Library.join side tree item sibling) path) :=
      held
    have free : (∀ other ∈ inorder sibling, ¬marked other) ∧
        ∀ other ∈ before path ++ after path, ¬marked other := by
      cases side <;> simp only [before, after, List.mem_append, List.mem_cons] at none ⊢ <;> grind
    refine ih above free.2 ?_
    exact .join (touched item) inNext (above.of_plug.of_join.2.unexcused free.1)

end Everywhere

section Rotated

variable {Item : Type}

inductive Rotated (f : Item → Item) : BinaryTree Item → BinaryTree Item → Prop
  | refl (tree : BinaryTree Item) : Rotated f tree tree
  | rotate {tree : BinaryTree Item} (side : Side) (a b c : BinaryTree Item) (p t : Item)
      (path : Path Item) :
      Rotated f tree (plug (join side a p (join side b t c)) path) →
      Rotated f tree (plug (join side (join side a (f p) b) (f t) c) (touchPath f path))

variable {f : Item → Item} {tree next last : BinaryTree Item}

theorem Rotated.trans (first : Rotated f tree next) (second : Rotated f next last) :
    Rotated f tree last := by
  induction second with
  | refl => exact first
  | rotate side a b c p t path _ ih => exact .rotate side a b c p t path ih

theorem Rotated.inorder {Key : Type} {key : Item → Key} (kept : ∀ item, key (f item) = key item)
    (rotated : Rotated f tree next) : (inorder next).map key = (inorder tree).map key := by
  induction rotated with
  | refl => rfl
  | rotate side a b c p t path _ ih =>
    rw [← ih, inorder_plug, inorder_plug]
    simp only [List.map_append, before_touchPath kept, after_touchPath kept]
    cases side <;> simp [join, Library.inorder, kept]

theorem Rotated.everywhere {P : Item → BinaryTree Item → BinaryTree Item → Prop}
    (touched : ∀ item left right, P (f item) left right) (rotated : Rotated f tree next)
    (held : Everywhere P tree) : Everywhere P next := by
  induction rotated with
  | refl => exact held
  | rotate side a b c p t path _ ih =>
    obtain ⟨inA, inner⟩ := (Everywhere.of_plug ih).of_join
    obtain ⟨inB, inC⟩ := inner.of_join
    exact .replug touched ih (.join (touched t) (.join (touched p) inA inB) inC)

end Rotated

section Plain

variable {Item : Type}
variable {side : Side} {item : Item}

def plain (tree : BinaryTree (Item × Bool)) : BinaryTree Item := tree.map Prod.fst

def plainPath (path : Path (Item × Bool)) : Path Item :=
  path.map fun frame => ⟨frame.side, frame.item.1, plain frame.sibling⟩

variable (f : Item → Item)

theorem everywhere_plain_node {P : Item → BinaryTree Item → BinaryTree Item → Prop}
    {item : Item × Bool} {left right : BinaryTree (Item × Bool)} :
    Everywhere P (plain (.node item left right)) ↔
      P item.1 (plain left) (plain right) ∧ Everywhere P (plain left) ∧ Everywhere P (plain right) :=
  Iff.rfl

@[simp] theorem plainPath_cons (frame : Frame (Item × Bool)) (path : Path (Item × Bool)) :
    plainPath (frame :: path) = ⟨frame.side, frame.item.1, plain frame.sibling⟩ :: plainPath path :=
  rfl

@[simp] theorem plain_nil : plain (.nil : BinaryTree (Item × Bool)) = .nil := rfl

@[simp] theorem plain_join (side : Side) (near far : BinaryTree (Item × Bool)) (item : Item × Bool) :
    plain (join side near item far) = join side (plain near) item.1 (plain far) := by
  cases side <;> rfl

theorem plain_plug (path : Path (Item × Bool)) (tree : BinaryTree (Item × Bool)) :
    plain (plug tree path) = plug (plain tree) (plainPath path) := by
  induction path generalizing tree with
  | nil => rfl
  | cons frame path ih => simp [plug, ih, plainPath]

@[simp] theorem plainPath_touchPath (path : Path (Item × Bool)) :
    plainPath (touchPath (Prod.map f id) path) = touchPath f (plainPath path) := by
  simp [plainPath, touchPath]

@[simp] theorem plain_touchRoot (tree : BinaryTree (Item × Bool)) :
    plain (touchRoot (Prod.map f id) tree) = touchRoot f (plain tree) := by
  cases tree <;> rfl

@[simp] theorem colours_touchRoot (tree : BinaryTree (Item × Bool)) :
    colours (touchRoot (Prod.map f id) tree) = colours tree := by
  cases tree <;> rfl

@[simp] theorem plainPath_append (path more : Path (Item × Bool)) :
    plainPath (path ++ more) = plainPath path ++ plainPath more := by
  simp [plainPath]

theorem inorder_plain (tree : BinaryTree (Item × Bool)) :
    inorder (plain tree) = (inorder tree).map Prod.fst := by
  induction tree with
  | nil => rfl
  | node item left right leftIh rightIh =>
    simp only [plain, BinaryTree.map, inorder, List.map_append, List.map_cons] at *
    rw [leftIh, rightIh]

theorem before_plainPath (path : Path (Item × Bool)) :
    before (plainPath path) = (before path).map Prod.fst := by
  induction path with
  | nil => rfl
  | cons frame path ih =>
    obtain ⟨side, item, sibling⟩ := frame
    cases side with
    | left => exact ih
    | right => simp [ih, before, inorder_plain]

theorem after_plainPath (path : Path (Item × Bool)) :
    after (plainPath path) = (after path).map Prod.fst := by
  induction path with
  | nil => rfl
  | cons frame path ih =>
    obtain ⟨side, item, sibling⟩ := frame
    cases side with
    | left => simp [ih, after, inorder_plain]
    | right => exact ih

@[simp] theorem aboveRed_touchPath (path : Path (Item × Bool)) :
    aboveRed (touchPath (Prod.map f id) path) = aboveRed path := by
  cases path <;> rfl

@[simp] theorem fits_touchPath : ∀ (path : Path (Item × Bool)) (height : Nat),
    Fits (touchPath (Prod.map f id) path) height ↔ Fits path height := by
  intro path
  induction path with
  | nil => exact fun _ => Iff.rfl
  | cons frame path ih =>
    intro height
    obtain ⟨side, ⟨item, red⟩, sibling⟩ := frame
    cases red <;> simp [Fits, ih]

theorem RedBlack.touch {tree next : BinaryTree (Item × Bool)} {path : Path (Item × Bool)}
    (redBlack : RedBlack (plug tree path)) (same : colours next = colours tree) :
    RedBlack (plug next (touchPath (Prod.map f id) path)) := by
  obtain ⟨height, balanced, fits, above⟩ := (redBlack_plug_iff _ _).mp redBlack
  refine (redBlack_plug_iff _ _).mpr ⟨height, balanced.of_colours same,
    (fits_touchPath _ _ _).mpr fits, ?_⟩
  simpa [rootRed_of_colours same] using above

structure CutOut (red : Bool) (x : BinaryTree (Item × Bool)) (path : Path (Item × Bool)) : Prop where
  balanced : RbBalanced x 0
  black : red = true → rootRed x = false
  fits : Fits path (if red then 0 else 1)

variable {f} {red : Bool} {x : BinaryTree (Item × Bool)} {path : Path (Item × Bool)}

theorem cutOut_of_redBlack
    (redBlack : RedBlack (plug (join side x (item, red) .nil) path)) : CutOut red x path := by
  obtain ⟨height, balanced, fits, _⟩ := (redBlack_plug_iff _ _).mp redBlack
  cases red with
  | true =>
    obtain ⟨black, _, xBalanced, rfl⟩ := balanced_join_red.mp balanced
    exact ⟨xBalanced, fun _ => black, fits⟩
  | false =>
    cases height with
    | zero => exact absurd balanced not_balanced_black_zero
    | succ height =>
      obtain ⟨xBalanced, rfl⟩ := balanced_join_black.mp balanced
      exact ⟨xBalanced, by simp, fits⟩

theorem CutOut.touch (cut : CutOut red x path) (f : Item → Item) :
    CutOut red (touchRoot (Prod.map f id) x) (touchPath (Prod.map f id) path) where
  balanced := cut.balanced.of_colours (colours_touchRoot f x)
  black isRed := (rootRed_of_colours (colours_touchRoot f x)).trans (cut.black isRed)
  fits := (fits_touchPath f path _).mpr cut.fits

theorem CutOut.replace {isRed : Bool} {sibling : BinaryTree (Item × Bool)}
    {way : Path (Item × Bool)} (cut : CutOut red x (way ++ ⟨side, (item, isRed), sibling⟩ :: path))
    (other : Item) : CutOut red x (way ++ ⟨side, (other, isRed), sibling⟩ :: path) where
  balanced := cut.balanced
  black := cut.black
  fits := cut.fits.replace other

theorem CutOut.redBlack (cut : CutOut true x path) : RedBlack (plug x path) := by
  refine (redBlack_plug_iff _ _).mpr ⟨0, cut.balanced, cut.fits, fun isRed => ?_⟩
  simp [cut.black rfl] at isRed

end Plain

end Library
