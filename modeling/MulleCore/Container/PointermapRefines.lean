import MulleCore.Container.Pointermap

/-!
A pointermap is a finite map from classes of equal keys to the pairs kept for them.
-/

namespace MulleCore

open Library

abbrev PairBindings := Pointer → Option Pointerpair

def boundValue : Option Pointerpair → Pointer
  | none => 0
  | some slot => slot.value

inductive PointermapOp where
  | write (pair : Pointerpair) (mode : WriteMode) (keep : Pointerpair → Pointerpair)
      (fresh : Nat → Pointer)
  | remove (key : Pointer)
  | shrinkWhenSparse (fresh : Nat → Pointer)
  | reset

inductive PointermapAnswer where
  | value (value : Pointer)
  | flag (flag : Nat)
  | nothing
deriving DecidableEq

def PointermapOp.apply (callback : Keycallback) (map : Pointermap) :
    PointermapOp → Option (Pointermap × PointermapAnswer)
  | .write pair mode keep fresh => do
      let (next, result, _) ← pointermapWritePairGeneric callback keep fresh map pair mode
      some (next, .value result)
  | .remove key => do
      let (next, result, _) ← pointermapRemoveGeneric callback map key
      some (next, .flag result)
  | .shrinkWhenSparse fresh =>
    if map.isSparse then do
      let next ← pointermapShrinkGeneric callback fresh map
      some (next, .nothing)
    else some (map, .nothing)
  | .reset => some (pointermapResetGeneric map callback.notakey, .nothing)

def pointermapRun (callback : Keycallback) (map : Pointermap) :
    List PointermapOp → Option (Pointermap × List PointermapAnswer)
  | [] => some (map, [])
  | op :: rest => do
      let (next, answer) ← op.apply callback map
      let (final, answers) ← pointermapRun callback next rest
      some (final, answer :: answers)

def PointermapOp.Permitted (callback : Keycallback) : PointermapOp → Prop
  | .write pair _ keep _ => pair.key ≠ callback.notakey ∧ Keeps callback keep
  | .remove key => key ≠ callback.notakey
  | .shrinkWhenSparse _ => True
  | .reset => True

def PointermapOp.bindings (callback : Keycallback) (bindings : PairBindings) :
    PointermapOp → PairBindings × PointermapAnswer
  | .write pair mode keep _ =>
    match bindings pair.key with
    | none => (bindKey callback bindings pair.key (keep pair), .value 0)
    | some old =>
      if mode = .insert then (bindings, .value old.value)
      else if old = pair then (bindings, .value 0)
      else (bindKey callback bindings pair.key (keep pair),
        .value (if mode = .update then old.value else 0))
  | .remove key =>
    match bindings key with
    | none => (bindings, .flag 0)
    | some _ => (unbindKey callback bindings key, .flag 1)
  | .shrinkWhenSparse _ => (bindings, .nothing)
  | .reset => (fun _ => none, .nothing)

def bindingsRun (callback : Keycallback) (bindings : PairBindings) :
    List PointermapOp → PairBindings × List PointermapAnswer
  | [] => (bindings, [])
  | op :: rest =>
    let (next, answer) := op.bindings callback bindings
    let (final, answers) := bindingsRun callback next rest
    (final, answer :: answers)

section Operations

variable {callback : Keycallback}
variable {map : Pointermap} {key : Pointer}

theorem ProbeTable.Holds.write {next : Pointermap} {bindings : PairBindings}
    {pair new : Pointerpair} {mode : WriteMode} {result : Pointer} {events : List Ownership}
    (holds : Pointermap.Holds callback map bindings) (lawful : callback.Lawful)
    (alike : callback.isEqual pair.key new.key = true) (nextOk : Pointermap.Ok callback next)
    (written : WriteCase callback map pair new mode next result events) :
    (bindings pair.key = none ∧ result = 0 ∧
      Pointermap.Holds callback next (bindKey callback bindings pair.key new)) ∨
    (∃ old, bindings pair.key = some old ∧ mode = .insert ∧ result = old.value ∧
      Pointermap.Holds callback next bindings) ∨
    (∃ old, bindings pair.key = some old ∧ mode ≠ .insert ∧ old = pair ∧ result = 0 ∧
      Pointermap.Holds callback next bindings) ∨
    (∃ old, bindings pair.key = some old ∧ mode ≠ .insert ∧ old ≠ pair ∧
      result = (if mode = .update then old.value else 0) ∧
      Pointermap.Holds callback next (bindKey callback bindings pair.key new)) := by
  have represents := holds.represents
  cases written with
  | added absent contents counted answer calls =>
    exact Or.inl ⟨represents.eq_none absent, answer,
      holds.added lawful alike absent nextOk contents⟩
  | left old member answering reason same calls =>
    subst same
    have bound := represents.eq_some member answering
    rcases reason with ⟨inserting, answer⟩ | ⟨writes, identical, answer⟩
    · exact Or.inr (Or.inl ⟨old, bound, inserting, answer, holds⟩)
    · exact Or.inr (Or.inr (Or.inl ⟨old, bound, writes, identical, answer, holds⟩))
  | replaced old rest writes different answering before contents counted answer calls =>
    have member : old ∈ pointermapBag callback map := by
      rw [← before]
      exact Multiset.mem_add.mpr (Or.inr (Multiset.mem_singleton_self old))
    exact Or.inr (Or.inr (Or.inr ⟨old, represents.eq_some member answering, writes, different,
      answer, holds.replaced lawful alike answering nextOk before contents⟩))

/-- Each operation does to the map what it does to its bindings. -/
theorem PointermapOp.apply_refines (lawful : callback.Lawful)
    {bindings : PairBindings} (holds : Pointermap.Holds callback map bindings) {op : PointermapOp}
    (permitted : op.Permitted callback) :
    ∃ next, op.apply callback map = some (next, (op.bindings callback bindings).2) ∧
      Pointermap.Holds callback next (op.bindings callback bindings).1 := by
  cases op with
  | write pair mode keep fresh =>
    obtain ⟨isKey, keeps⟩ := permitted
    obtain ⟨next, result, events, applied, nextOk, written⟩ :=
      holds.toOk.write lawful keeps fresh isKey mode
    refine ⟨next, ?_⟩
    simp only [PointermapOp.apply, applied, Option.bind_eq_bind, Option.bind_some,
      PointermapOp.bindings]
    rcases holds.write lawful (keeps pair isKey).2 nextOk written with
      ⟨bound, answer, nextHolds⟩ | ⟨old, bound, inserting, answer, nextHolds⟩ |
      ⟨old, bound, writes, identical, answer, nextHolds⟩ |
      ⟨old, bound, writes, different, answer, nextHolds⟩
    · simp only [bound]
      exact ⟨by rw [answer], nextHolds⟩
    · simp only [bound, if_pos inserting]
      exact ⟨by rw [answer], nextHolds⟩
    · simp only [bound, if_neg writes, if_pos identical]
      exact ⟨by rw [answer], nextHolds⟩
    · simp only [bound, if_neg writes, if_neg different]
      exact ⟨by rw [answer], nextHolds⟩
  | remove key =>
    obtain ⟨next, removed, applied, nextOk, emptied⟩ := holds.toOk.removePair lawful key
    obtain ⟨bound, nextHolds⟩ := holds.removed lawful nextOk emptied
    refine ⟨next, ?_⟩
    simp only [PointermapOp.apply, applied, Option.bind_eq_bind, Option.bind_some,
      PointermapOp.bindings, bound]
    cases removed with
    | none => exact ⟨rfl, nextHolds⟩
    | some old => exact ⟨rfl, nextHolds⟩
  | shrinkWhenSparse fresh =>
    rw [PointermapOp.apply]
    by_cases sparse : map.isSparse = true
    · obtain ⟨next, shrunk, nextOk, -, contents⟩ :=
        holds.toOk.shrink (pointermapAllocates callback fresh) sparse
      refine ⟨next, ?_, holds.same_bag nextOk contents⟩
      rw [if_pos sparse, pointermapShrinkGeneric, shrunk]
      rfl
    · refine ⟨map, ?_, holds⟩
      rw [if_neg sparse]
      rfl
  | reset => exact ⟨_, rfl, (pointermapReset_fresh holds.toOk).holds⟩

theorem pointermapRun_holds (lawful : callback.Lawful) : ∀ (ops : List PointermapOp)
    (map : Pointermap) (bindings : PairBindings), Pointermap.Holds callback map bindings →
    (∀ op ∈ ops, op.Permitted callback) →
    ∃ final, pointermapRun callback map ops = some (final, (bindingsRun callback bindings ops).2) ∧
      Pointermap.Holds callback final (bindingsRun callback bindings ops).1 := by
  intro ops
  induction ops with
  | nil => exact fun map bindings holds _ => ⟨map, rfl, holds⟩
  | cons op rest ih =>
    intro map bindings holds permitted
    obtain ⟨next, applied, nextHolds⟩ :=
      op.apply_refines lawful holds (permitted op List.mem_cons_self)
    obtain ⟨final, result, finalHolds⟩ := ih next _ nextHolds
      fun later member => permitted later (List.mem_cons_of_mem op member)
    refine ⟨final, ?_, finalHolds⟩
    simp only [pointermapRun, applied, result, Option.bind_eq_bind, Option.bind_some, bindingsRun]

theorem ProbeTable.Holds.getHashed {bindings : PairBindings}
    (holds : Pointermap.Holds callback map bindings) (lawful : callback.Lawful) (key : Pointer) :
    pointermapGetHashed callback map key = some (boundValue (bindings key)) := by
  rw [pointermapGetHashed]
  by_cases empty : map.count = 0
  · rw [if_pos empty, holds.eq_none_of_count empty]
    rfl
  · rw [if_neg empty, holds.lookup lawful empty]
    cases bindings key with
    | none => rfl
    | some slot => rfl

theorem ProbeTable.Holds.pointerequalitysearch {bindings : PairBindings}
    (holds : Pointermap.Holds callback map bindings) (lawful : callback.Lawful)
    (isKey : key ≠ callback.notakey) (found : pointermapPointerequalitysearch map key ≠ 0) :
    pointermapPointerequalitysearch map key = boundValue (bindings key) := by
  unfold pointermapPointerequalitysearch at found ⊢
  cases scanned : map.storage.find? fun slot => slot.key == key with
  | none =>
    rw [scanned] at found
    exact absurd rfl found
  | some slot =>
    rw [(holds.find?_same lawful isKey scanned).2]
    rfl

theorem ProbeTable.Holds.getGeneric {bindings : PairBindings}
    (holds : Pointermap.Holds callback map bindings) (lawful : callback.Lawful)
    (isKey : key ≠ callback.notakey) :
    pointermapGetGeneric callback map key = some (boundValue (bindings key)) := by
  rw [pointermapGetGeneric, if_neg isKey]
  split
  · rename_i scanned
    rw [holds.pointerequalitysearch lawful isKey scanned.2]
  · exact holds.getHashed lawful key

/-- Every run on an empty pointermap ends, and answers as the finite map does. -/
theorem pointermapRun_refines (lawful : callback.Lawful) {map : Pointermap}
    (start : Pointermap.Fresh callback map) (ops : List PointermapOp)
    (permitted : ∀ op ∈ ops, op.Permitted callback) :
    ∃ final bindings answers, pointermapRun callback map ops = some (final, answers) ∧
      bindingsRun callback (fun _ => none) ops = (bindings, answers) ∧
      (∀ key, key ≠ callback.notakey →
        pointermapGetGeneric callback final key = some (boundValue (bindings key)) ∧
        pointermapGetHashed callback final key = some (boundValue (bindings key))) ∧
      (∃ entries : List Pointerpair, entries.length = final.count ∧
        (entries.Pairwise fun slot other => callback.isEqual slot.key other.key = false) ∧
        ∀ key slot, bindings key = some slot ↔
          slot ∈ entries ∧ callback.isEqual key slot.key = true) ∧
      (final.size = 0 ∨
        (∃ power, final.size = 2 ^ (power + 2)) ∧ final.count < final.size ∧
          ∃ slot ∈ final.storage, slot.key = callback.notakey) := by
  obtain ⟨final, result, holds⟩ :=
    pointermapRun_holds lawful ops map (fun _ => none) start.holds permitted
  refine ⟨final, _, _, result, rfl, ?_, holds.entries lawful, holds.toOk.sized⟩
  exact fun key isKey => ⟨holds.getGeneric lawful isKey, holds.getHashed lawful key⟩

theorem pointermapRun_refines_crowded :
    ∃ final answers,
      pointermapRun crowdedKeycallback (mapInit crowdedKeycallback 3 fun _ => 0)
        [.write ⟨1, 10⟩ .overwrite id fun _ => 0, .write ⟨2, 20⟩ .insert id fun _ => 0,
          .remove 1] = some (final, answers) ∧
      pointermapGetGeneric crowdedKeycallback final 2 = some 20 := by
  obtain ⟨final, bindings, answers, result, spec, lookups, -⟩ :=
    pointermapRun_refines crowdedKeycallback_lawful
      (@mapInit_fresh crowdedKeycallback 3 (by decide) fun _ => 0)
      [.write ⟨1, 10⟩ .overwrite id fun _ => 0, .write ⟨2, 20⟩ .insert id fun _ => 0, .remove 1]
      (by
        intro op member
        rcases List.mem_cons.mp member with rfl | member
        · exact ⟨by decide, keeps_id crowdedKeycallback_lawful⟩
        rcases List.mem_cons.mp member with rfl | member
        · exact ⟨by decide, keeps_id crowdedKeycallback_lawful⟩
        rw [List.mem_singleton.mp member]
        exact (by decide : (1 : Pointer) ≠ notAPointer))
  cases spec
  exact ⟨final, _, result, (lookups 2 (by decide)).1⟩

end Operations

end MulleCore
