import Mathlib.Data.Int.Bitwise
import MulleCore.Container.Pointerset

/-!
`_mulle__pointerset_union_generic` and `_mulle__pointerset_intersect_generic`. The sets that there
are have numbers, so `dst` can be `a` or `b`; NULL is `none`. The storage of the temporary set is
made without `sizeForCapacity`.
-/

namespace MulleCore

open Library

def isPow2 (x : Nat) : Bool := Int.land x (-(x : Int)) == x

def pointersetAllocateAsserted (notakey : Pointer) (size : Nat) : Option (List Pointer) :=
  if 2 ≤ size ∧ isPow2 size = true then some (pointersetAllocateStorageGeneric notakey size) else none

def pointersetEnumerate (notakey : Pointer) : Nat → List Pointer → Option (List Pointer)
  | 0, _ => some []
  | _ + 1, [] => none
  | left + 1, p :: rest =>
    if p = notakey then pointersetEnumerate notakey (left + 1) rest
    else (pointersetEnumerate notakey left rest).map (p :: ·)

section Combine

variable (callback : Keycallback) (keep : Pointer → Pointer)

def pointersetCopyItems (dst src : Pointerset) : Option Pointerset := do
  let items ← pointersetEnumerate callback.notakey src.count src.storage
  items.foldlM (pointersetSetGeneric callback keep) dst

def pointersetCopyItemsIfAny (dst : Pointerset) : Option Pointerset → Option Pointerset
  | none => some dst
  | some src => pointersetCopyItems callback keep dst src

def pointersetCountOf : Option Pointerset → Nat
  | none => 0
  | some set => set.count

def pointersetUnionTmp (a b : Option Pointerset) : Option Pointerset :=
  if a.isSome ∨ b.isSome then
    let size := pow2roundup (pointersetCountOf a + pointersetCountOf b)
    if size ≠ 0 then do
      let storage ← pointersetAllocateAsserted callback.notakey size
      let tmp ← pointersetCopyItemsIfAny callback keep ⟨storage, 0⟩ a
      pointersetCopyItemsIfAny callback keep tmp b
    else some ⟨[], 0⟩
  else some ⟨[], 0⟩

def pointersetIntersectItem (b tmp : Pointerset) (item : Pointer) : Option Pointerset := do
  let found ← pointersetGetGeneric callback b item
  if found ≠ callback.notakey then pointersetSetGeneric callback keep tmp item else some tmp

def pointersetIntersectTmp : Option Pointerset → Option Pointerset → Option Pointerset
  | some a, some b => do
      let storage ← pointersetAllocateAsserted callback.notakey a.size
      let items ← pointersetEnumerate callback.notakey a.count a.storage
      items.foldlM (pointersetIntersectItem callback keep b) ⟨storage, 0⟩
  | _, _ => some ⟨[], 0⟩

def pointersetUnionGeneric (sets : Nat → Pointerset) (dst : Nat) (a b : Option Nat) :
    Option (Nat → Pointerset) :=
  (pointersetUnionTmp callback keep (a.map sets) (b.map sets)).map fun tmp => Function.update sets
    dst tmp

def pointersetIntersectGeneric (sets : Nat → Pointerset) (dst : Nat) (a b : Option Nat) :
    Option (Nat → Pointerset) :=
  (pointersetIntersectTmp callback keep (a.map sets) (b.map sets)).map fun tmp =>
    Function.update sets dst tmp

end Combine

/-- The storage is one that can be probed, and whatever is done to the set later ends and answers as
the classes do. -/
structure Serves (callback : Keycallback) (set : Pointerset) (classes : Pointer → Option Pointer) :
    Prop where
  sized : set.size = 0 ∨
    (∃ power, set.size = 2 ^ (power + 1)) ∧ ∃ slot ∈ set.storage, slot = callback.notakey
  answers : ∀ ops : List PointersetOp, (∀ op ∈ ops, op.Permitted callback) →
    ∃ final, pointersetRun callback set ops = some (final, (classesRun callback classes ops).2) ∧
      ∀ p, p ≠ callback.notakey →
        pointersetGetGeneric callback final p =
          some (((classesRun callback classes ops).1 p).getD callback.notakey)

def HasElement (callback : Keycallback) (sets : Nat → Pointerset) (set : Option Nat) (p : Pointer) :
    Prop :=
  ∃ i, set = some i ∧ ∃ element ∈ (sets i).bag id callback, callback.isEqual p element = true

def IsStored (callback : Keycallback) (sets : Nat → Pointerset) (a b : Option Nat)
    (element : Pointer) : Prop :=
  ∃ i, (a = some i ∨ b = some i) ∧ element ∈ (sets i).bag id callback

def Combines (callback : Keycallback) (keep : Pointer → Pointer) (sets : Nat → Pointerset)
    (dst : Nat) (a b : Option Nat) (wanted : Pointer → Prop) (result : Option (Nat → Pointerset)) :
    Prop :=
  ∃ after classes, result = some after ∧ (∀ i, i ≠ dst → after i = sets i) ∧
    (∀ p, p ≠ callback.notakey → ((classes p).isSome ↔ wanted p)) ∧
    (∀ p element, classes p = some element → ∃ item, IsStored callback sets a b item ∧
      element = keep item) ∧
    Serves callback (after dst) classes

section Enumerate

variable {notakey : Pointer}

theorem pointersetEnumerate_cons {left : Nat} {p : Pointer} (rest : List Pointer)
    (isElement : p ≠ notakey) :
    pointersetEnumerate notakey (left + 1) (p :: rest) =
      (pointersetEnumerate notakey left rest).map (p :: ·) :=
  if_neg isElement

end Enumerate

section Holds

variable {callback : Keycallback} {keep : Pointer → Pointer} {set : Pointerset}
  {classes : Pointer → Option Pointer}

theorem pointersetEnumerate_some (callback : Keycallback) (storage : List Pointer) :
    ∃ items, pointersetEnumerate callback.notakey (tableBag id callback storage).card storage =
      some items ∧
      items.length = (tableBag id callback storage).card ∧ ∀ item, item ∈ items ↔
      item ∈ tableBag id callback storage := by
  induction storage with
  | nil => exact ⟨[], rfl, rfl, fun item => by simp [tableBag, bag]⟩
  | cons p rest ih =>
    obtain ⟨items, enumerated, length, contents⟩ := ih
    by_cases vacant : p = callback.notakey
    · have same : tableBag id callback (p :: rest) = tableBag id callback rest := by
        rw [tableBag_cons, if_pos (show id p = _ from vacant), zero_add]
      rw [same]
      refine ⟨items, ?_, length, contents⟩
      cases card : (tableBag id callback rest).card with
      | zero =>
        rw [card, pointersetEnumerate] at enumerated
        rw [pointersetEnumerate]
        exact enumerated
      | succ left =>
        rw [card] at enumerated
        rw [pointersetEnumerate, if_pos vacant]
        exact enumerated
    · have more : tableBag id callback (p :: rest) = {p} + tableBag id callback rest := by
        rw [tableBag_cons, if_neg (show ¬ id p = _ from vacant)]
      rw [more, Multiset.card_add, Multiset.card_singleton, Nat.add_comm]
      refine ⟨p :: items, ?_, by rw [List.length_cons, length], fun item => ?_⟩
      · rw [pointersetEnumerate_cons rest vacant, enumerated]
        rfl
      · rw [List.mem_cons, contents, Multiset.mem_add, Multiset.mem_singleton]

theorem ProbeTable.Ok.enumerate (ok : Pointerset.Ok callback set) :
    ∃ items, pointersetEnumerate callback.notakey set.count set.storage = some items ∧
      items.length = set.count ∧
      ∀ item, item ∈ items ↔ item ∈ set.bag id callback := by
  rw [← ok.counted]
  exact pointersetEnumerate_some callback set.storage

theorem ProbeTable.Holds.setElement (holds : Pointerset.Holds callback set classes)
    (lawful : callback.Lawful) (keeps : KeepsElement callback keep) {item : Pointer}
    (isElement : item ≠ callback.notakey) :
    ∃ next after, pointersetSetGeneric callback keep set item = some next ∧
      Pointerset.Holds callback next after ∧
      (∀ p, (after p).isSome ↔ (classes p).isSome ∨ callback.isEqual p item = true) ∧
      ∀ p element, after p = some element → classes p = some element ∨ element = keep item := by
  have bound : ∀ p, (bindKey callback classes item (keep item) p).isSome ↔
      (classes p).isSome ∨ callback.isEqual p item = true := by
    intro p
    rw [bindKey]
    split
    · rename_i equal
      simp [equal]
    · rename_i unequal
      simp [unequal]
  have origin : ∀ p element, bindKey callback classes item (keep item) p = some element →
      classes p = some element ∨ element = keep item := by
    intro p element there
    rw [bindKey] at there
    split at there
    · exact Or.inr (Option.some.inj there).symm
    · exact Or.inl there
  obtain ⟨next, result, wrote, outcome⟩ :=
    holds.writeElement lawful keeps isElement (show WriteMode.overwrite ≠ .update by decide)
  have set : pointersetSetGeneric callback keep set item = some next := by
    rw [pointersetSetGeneric, wrote]
    rfl
  rcases outcome with ⟨_, _, nextHolds⟩ | ⟨_, _, impossible, _⟩ | ⟨old, there, _, same,
    _, unchanged⟩ | ⟨_, _, _, _, _, nextHolds⟩
  · exact ⟨next, _, set, nextHolds, bound, origin⟩
  · contradiction
  · subst unchanged same
    refine ⟨next, classes, set, holds, fun p => ?_, fun p element bound => Or.inl bound⟩
    constructor
    · exact Or.inl
    · rintro (some | equal)
      · exact some
      · obtain ⟨member, _⟩ := (holds.represents.binds item item).mp there
        rw [holds.represents.eq_some member equal]
        rfl
  · exact ⟨next, _, set, nextHolds, bound, origin⟩

theorem ProbeTable.Holds.setElements (lawful : callback.Lawful) (keeps : KeepsElement callback keep)
    {step : Pointerset → Pointer → Option Pointerset} (chosen : Pointer → Prop)
    (items : List Pointer) :
    ∀ (set : Pointerset) (classes : Pointer → Option Pointer), Pointerset.Holds callback set classes →
      (∀ item ∈ items, item ≠ callback.notakey) →
      (∀ item ∈ items, ∀ tmp,
        (chosen item → step tmp item = pointersetSetGeneric callback keep tmp item) ∧
        (¬ chosen item → step tmp item = some tmp)) →
      ∃ next after, items.foldlM step set = some next ∧ Pointerset.Holds callback next after ∧
        (∀ p, (after p).isSome ↔ (classes p).isSome ∨ ∃ item ∈ items, chosen item ∧
          callback.isEqual p item = true) ∧
        ∀ p element, after p = some element → classes p = some element ∨
          ∃ item ∈ items, element = keep item := by
  induction items with
  | nil =>
    intro set classes holds _ _
    exact ⟨set, classes, rfl, holds, by simp, fun p element there => Or.inl there⟩
  | cons item rest ih =>
    intro set classes holds elements steps
    have later : ∀ other ∈ rest, other ≠ callback.notakey := fun other member =>
      elements other (List.mem_cons_of_mem item member)
    have laterSteps := fun other member => steps other (List.mem_cons_of_mem item member)
    by_cases wanted : chosen item
    · obtain ⟨next, after, stepped, nextHolds, bound, origin⟩ :=
        holds.setElement lawful keeps (elements item List.mem_cons_self)
      obtain ⟨final, last, finished, finalHolds, finalBound, finalOrigin⟩ :=
        ih next after nextHolds later laterSteps
      refine ⟨final, last, ?_, finalHolds, fun p => ?_, fun p element there => ?_⟩
      · rw [List.foldlM_cons, (steps item List.mem_cons_self set).1 wanted, stepped]
        exact finished
      · rw [finalBound, bound]
        simp only [List.mem_cons, exists_eq_or_imp, wanted, true_and, or_assoc]
      · simp only [List.mem_cons, exists_eq_or_imp]
        rcases finalOrigin p element there with before | late
        · exact (origin p element before).imp id Or.inl
        · exact Or.inr (Or.inr late)
    · obtain ⟨final, last, finished, finalHolds, finalBound, finalOrigin⟩ :=
        ih set classes holds later laterSteps
      refine ⟨final, last, ?_, finalHolds, fun p => ?_, fun p element there => ?_⟩
      · rw [List.foldlM_cons, (steps item List.mem_cons_self set).2 wanted]
        exact finished
      · rw [finalBound]
        simp only [List.mem_cons, exists_eq_or_imp, wanted, false_and, false_or]
      · simp only [List.mem_cons, exists_eq_or_imp]
        exact (finalOrigin p element there).imp id Or.inr

theorem ProbeTable.Holds.serves (holds : Pointerset.Holds callback set classes)
    (lawful : callback.Lawful) :
    Serves callback set classes where
  sized := by
    rcases holds.toOk.sized with empty | ⟨⟨power, size⟩, _, slot, member, vacant⟩
    · exact Or.inl empty
    · exact Or.inr ⟨⟨power + 1, size⟩, slot, member, vacant⟩
  answers := by
    intro ops permitted
    obtain ⟨final, result, finalHolds⟩ := pointersetRun_holds lawful ops set classes holds permitted
    exact ⟨final, result, fun p isElement => finalHolds.getElement lawful isElement⟩

end Holds

section Asserted

theorem isPow2_two_pow (power : Nat) : isPow2 (2 ^ power) = true := by
  obtain ⟨less, lessEq⟩ : ∃ less, 2 ^ power = less + 1 :=
    ⟨2 ^ power - 1, by have := Nat.two_pow_pos power; omega⟩
  have masked : Nat.ldiff (2 ^ power) (2 ^ power - 1) = 2 ^ power := by
    refine Nat.eq_of_testBit_eq fun index => ?_
    rw [Nat.testBit_ldiff, Nat.testBit_two_pow, Nat.testBit_two_pow_sub_one]
    by_cases same : power = index
    · simp [same]
    · simp [same]
  rw [isPow2, beq_iff_eq]
  rw [lessEq, Nat.add_sub_cancel] at masked
  rw [lessEq]
  exact congrArg Int.ofNat masked

theorem pointersetAllocateAsserted_some (callback : Keycallback) (power : Nat) :
    ∃ storage, pointersetAllocateAsserted callback.notakey (2 ^ (power + 2)) = some storage ∧
      ProbeTable.Fresh id callback ⟨storage, 0⟩ := by
  have large : 2 ≤ 2 ^ (power + 2) := by
    rw [Nat.pow_add]
    have := Nat.two_pow_pos power
    omega
  obtain ⟨length, vacant⟩ := pointersetAllocates callback (2 ^ (power + 2))
  exact ⟨_, if_pos ⟨large, isPow2_two_pow _⟩, Or.inr ⟨power, length⟩, vacant, rfl⟩

end Asserted

end MulleCore
