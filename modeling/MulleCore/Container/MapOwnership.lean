import MulleCore.Library.Ledger
import MulleCore.Container.PointermapRefines

/-!
A map with owning callbacks holds what it stores: what was retained and not yet
released is at any time what is in the slots.
-/

namespace MulleCore

open Library

def Ownership.keyTransfer : Ownership → Option (Transfer Pointer)
  | .retainKey key => some (.retain key)
  | .releaseKey key => some (.release key)
  | .retainValue _ => none
  | .releaseValue _ => none

def Ownership.valueTransfer : Ownership → Option (Transfer Pointer)
  | .retainKey _ => none
  | .releaseKey _ => none
  | .retainValue value => some (.retain value)
  | .releaseValue value => some (.release value)

/-- The calls turn what is held for one bag of pairs into what is held for another. -/
structure Balanced (before after : Multiset Pointerpair) (events : List Ownership) : Prop where
  keys : settle (before.map Pointerpair.key) (events.filterMap Ownership.keyTransfer) =
    some (after.map Pointerpair.key)
  values : settle (before.map Pointerpair.value) (events.filterMap Ownership.valueTransfer) =
    some (after.map Pointerpair.value)

theorem Balanced.nothing (bag : Multiset Pointerpair) : Balanced bag bag [] := ⟨rfl, rfl⟩

theorem Balanced.append {before between after : Multiset Pointerpair}
    {first second : List Ownership} (balanced : Balanced before between first)
    (next : Balanced between after second) : Balanced before after (first ++ second) := by
  constructor
  · rw [List.filterMap_append, settle_append, balanced.keys]
    exact next.keys
  · rw [List.filterMap_append, settle_append, balanced.values]
    exact next.values

theorem Balanced.retainPair (bag : Multiset Pointerpair) (new : Pointerpair) :
    Balanced bag (bag + {new}) (retainPair new) := by
  constructor
  · rw [Multiset.map_add, Multiset.map_singleton]
    rfl
  · rw [Multiset.map_add, Multiset.map_singleton]
    rfl

theorem Balanced.releasePair (bag : Multiset Pointerpair) (old : Pointerpair) :
    Balanced (bag + {old}) bag (releasePair old) := by
  constructor
  · rw [Multiset.map_add, Multiset.map_singleton]
    exact settle_release _ old.key
  · rw [Multiset.map_add, Multiset.map_singleton]
    exact settle_release _ old.value

theorem Balanced.releaseList (pairs : List Pointerpair) :
    Balanced (pairs : Multiset Pointerpair) 0 (pairs.flatMap MulleCore.releasePair) := by
  induction pairs with
  | nil => exact Balanced.nothing 0
  | cons first rest ih =>
    have parts : ((first :: rest : List Pointerpair) : Multiset Pointerpair) =
        (rest : Multiset Pointerpair) + {first} := by
      rw [← Multiset.cons_coe, ← Multiset.singleton_add, Multiset.add_comm]
    rw [parts, List.flatMap_cons]
    exact (Balanced.releasePair _ first).append ih

section Operations

variable {callback : Keycallback} {map next : Pointermap}

theorem WriteCase.balanced {pair new : Pointerpair} {mode : WriteMode} {result : Pointer}
    {events : List Ownership} (written : WriteCase callback map pair new mode next result events) :
    Balanced (pointermapBag callback map) (pointermapBag callback next) events := by
  cases written with
  | added absent contents counted answer calls =>
    rw [contents, calls]
    exact Balanced.retainPair _ new
  | left old member answering reason same calls =>
    rw [same, calls]
    exact Balanced.nothing _
  | replaced old rest writes different answering before contents counted answer calls =>
    rw [← before, contents, calls]
    have both : rest + {old} + {new} = rest + {new} + {old} := add_right_comm rest {old} {new}
    have retained := Balanced.retainPair (rest + {old}) new
    rw [both] at retained
    exact retained.append (Balanced.releasePair _ old)

theorem RemoveCase.balanced {key : Pointer} {removed : Option Pointerpair}
    (emptied : RemoveCase Pointerpair.key callback map key next removed) :
    Balanced (pointermapBag callback map) (pointermapBag callback next)
      ((removed.map releasePair).getD []) := by
  cases emptied with
  | missed absent same answer =>
    rw [same, answer]
    exact Balanced.nothing _
  | dropped old answering before answer =>
    have contents : pointermapBag callback next + {old} = pointermapBag callback map := before
    rw [← contents, answer]
    exact Balanced.releasePair _ old

theorem nextPairs_some : ∀ (slots : List Pointerpair) (left : Nat),
    (tableBag Pointerpair.key callback slots).card = left →
    ∃ pairs, nextPairs callback.notakey left slots = some pairs ∧
      (pairs : Multiset Pointerpair) = tableBag Pointerpair.key callback slots := by
  intro slots
  induction slots with
  | nil =>
    intro left counted
    rw [tableBag_of_vacant fun slot member => absurd member List.not_mem_nil] at counted ⊢
    rw [Multiset.card_zero] at counted
    subst counted
    exact ⟨[], rfl, rfl⟩
  | cons first rest ih =>
    intro left counted
    rw [tableBag_cons] at counted ⊢
    cases left with
    | zero =>
      refine ⟨[], rfl, ?_⟩
      rw [Multiset.card_eq_zero.mp counted]
      rfl
    | succ left =>
      rw [nextPairs]
      by_cases vacant : first.key = callback.notakey
      · rw [if_pos vacant, zero_add] at counted
        rw [if_pos vacant, if_pos vacant, zero_add]
        exact ih (left + 1) counted
      · rw [if_neg vacant, Multiset.card_add, Multiset.card_singleton] at counted
        rw [if_neg vacant, if_neg vacant]
        obtain ⟨pairs, listed, contents⟩ := ih left (by omega)
        refine ⟨first :: pairs, by rw [listed]; rfl, ?_⟩
        rw [← contents, ← Multiset.cons_coe, ← Multiset.singleton_add]

theorem ProbeTable.Ok.pairs (ok : Pointermap.Ok callback map) :
    ∃ pairs, pointermapPairs callback map = some pairs ∧
      (pairs : Multiset Pointerpair) = pointermapBag callback map :=
  nextPairs_some map.storage map.count ok.counted

end Operations

def Keyvaluecallback.Owning (callback : Keyvaluecallback) : Prop :=
  (callback.keyReleases || callback.valueReleases) = true

theorem ProbeTable.Ok.done {callback : Keyvaluecallback} {map : Pointermap}
    (ok : Pointermap.Ok callback.keycallback map) (owning : callback.Owning) :
    ∃ events, mapDone callback map = some events ∧
      Balanced (pointermapBag callback.keycallback map) 0 events := by
  obtain ⟨pairs, listed, contents⟩ := ok.pairs
  refine ⟨pairs.flatMap releasePair, ?_, ?_⟩
  · rw [Keyvaluecallback.Owning] at owning
    rw [mapDone, mapReleaseAll, if_pos owning, listed]
    rfl
  · rw [← contents]
    exact Balanced.releaseList pairs

def Pointermap.Valid (callback : Keycallback) (map : Pointermap) : Prop :=
  ∃ bindings, Pointermap.Holds callback map bindings

section Valid

variable {callback : Keycallback} {map : Pointermap}
variable {keep : Pointerpair → Pointerpair} {pair : Pointerpair}

theorem Pointermap.Fresh.valid (start : Pointermap.Fresh callback map) :
    Pointermap.Valid callback map :=
  ⟨fun _ => none, start.holds⟩

section

variable (valid : Pointermap.Valid callback map)
include valid

theorem Pointermap.Valid.ok :
    Pointermap.Ok callback map := by
  obtain ⟨bindings, holds⟩ := valid
  exact holds.toOk

theorem Pointermap.Valid.write (lawful : callback.Lawful)
    (keeps : Keeps callback keep) (fresh : Nat → Pointer)
    (isKey : pair.key ≠ callback.notakey) (mode : WriteMode) :
    ∃ next result events,
      pointermapWritePairGeneric callback keep fresh map pair mode = some (next, result, events) ∧
      Pointermap.Valid callback next ∧ WriteCase callback map pair (keep pair) mode next
        result events := by
  obtain ⟨bindings, holds⟩ := valid
  obtain ⟨next, result, events, applied, nextOk, written⟩ :=
    holds.toOk.write lawful keeps fresh isKey mode
  refine ⟨next, result, events, applied, ?_, written⟩
  rcases holds.write lawful (keeps pair isKey).2 nextOk written with
    ⟨-, -, nextHolds⟩ | ⟨_, -, -, -, nextHolds⟩ | ⟨_, -, -, -, -, nextHolds⟩ |
    ⟨_, -, -, -, -, nextHolds⟩
  · exact ⟨_, nextHolds⟩
  · exact ⟨_, nextHolds⟩
  · exact ⟨_, nextHolds⟩
  · exact ⟨_, nextHolds⟩

theorem Pointermap.Valid.remove (lawful : callback.Lawful) (key : Pointer) :
    ∃ next result events, pointermapRemoveGeneric callback map key = some (next, result, events) ∧
      Pointermap.Valid callback next ∧
      Balanced (pointermapBag callback map) (pointermapBag callback next) events := by
  obtain ⟨bindings, holds⟩ := valid
  obtain ⟨next, removed, applied, nextOk, emptied⟩ := holds.toOk.removePair lawful key
  exact ⟨next, _, _, applied, ⟨_, (holds.removed lawful nextOk emptied).2⟩, emptied.balanced⟩

theorem Pointermap.Valid.register (lawful : callback.Lawful)
    (keeps : Keeps callback keep) (fresh : Nat → Pointer)
    (isKey : pair.key ≠ callback.notakey) :
    ∃ next value result events,
      pointermapRegisterPairGeneric callback keep fresh map pair = some (next, value, events) ∧
      Pointermap.Valid callback next ∧ WriteCase callback map pair (keep pair) .insert next
        result events := by
  obtain ⟨next, result, events, applied, nextValid, written⟩ :=
    Pointermap.Valid.write valid lawful keeps fresh isKey .insert
  rw [pointermapRegisterPairGeneric, applied]
  simp only [Option.bind_eq_bind, Option.bind_some]
  by_cases grown : next.count ≠ map.count
  · rw [if_pos grown]
    exact ⟨next, _, result, events, rfl, nextValid, written⟩
  · rw [if_neg grown]
    obtain ⟨bindings, holds⟩ := nextValid
    rw [holds.getGeneric lawful isKey]
    exact ⟨next, _, result, events, rfl, ⟨bindings, holds⟩, written⟩

end

theorem Pointermap.Valid.setPairs (lawful : callback.Lawful)
    (keeps : Keeps callback keep) (fresh : Nat → Pointer) : ∀ (pairs : List Pointerpair)
    (map : Pointermap), Pointermap.Valid callback map →
    (∀ pair ∈ pairs, pair.key ≠ callback.notakey) →
    ∃ next events, setPairs callback keep fresh map pairs = some (next, events) ∧
      Pointermap.Valid callback next ∧
      Balanced (pointermapBag callback map) (pointermapBag callback next) events := by
  intro pairs
  induction pairs with
  | nil => exact fun map valid _ => ⟨map, [], rfl, valid, Balanced.nothing _⟩
  | cons pair rest ih =>
    intro map valid keys
    obtain ⟨next, result, events, applied, nextValid, written⟩ :=
      Pointermap.Valid.write valid lawful keeps fresh (keys pair List.mem_cons_self) .overwrite
    obtain ⟨final, later, copied, finalValid, balanced⟩ := ih next nextValid
      fun other member => keys other (List.mem_cons_of_mem pair member)
    refine ⟨final, events ++ later, ?_, finalValid, written.balanced.append balanced⟩
    rw [MulleCore.setPairs, applied]
    simp only [Option.bind_eq_bind, Option.bind_some, copied]

theorem Pointermap.Valid.copyItems (valid : Pointermap.Valid callback map) (lawful : callback.Lawful)
    (keeps : Keeps callback keep) (fresh : Nat → Pointer)
    {source : Pointermap} (sourceValid : Pointermap.Valid callback source) :
    ∃ next events, pointermapCopyItemsGeneric callback keep fresh map source = some (next, events) ∧
      Pointermap.Valid callback next ∧
      Balanced (pointermapBag callback map) (pointermapBag callback next) events := by
  obtain ⟨pairs, listed, contents⟩ := (Pointermap.Valid.ok sourceValid).pairs
  have keys : ∀ pair ∈ pairs, pair.key ≠ callback.notakey := by
    intro pair member
    have stored : pair ∈ pointermapBag callback source := by
      rw [← contents]
      exact member
    exact (mem_tableBag.mp stored).2
  rw [pointermapCopyItemsGeneric, listed]
  exact Pointermap.Valid.setPairs lawful keeps fresh pairs map valid keys

end Valid

inductive MapOp where
  | set (pair : Pointerpair) (keep : Pointerpair → Pointerpair) (fresh : Nat → Pointer)
  | insert (pair : Pointerpair) (keep : Pointerpair → Pointerpair) (fresh : Nat → Pointer)
  | register (pair : Pointerpair) (keep : Pointerpair → Pointerpair) (fresh : Nat → Pointer)
  | remove (key : Pointer)
  | copyItems (source : Pointermap) (keep : Pointerpair → Pointerpair) (fresh : Nat → Pointer)
  | shrinkIfNeeded (fresh : Nat → Pointer)
  | reset (fresh : Nat → Pointer)
  | doneInit (capacity : UInt64) (fresh : Nat → Pointer)

def MapOp.apply (callback : Keyvaluecallback) (map : Pointermap) :
    MapOp → Option (Pointermap × List Ownership)
  | .set pair keep fresh => do
      let (next, _, events) ←
        pointermapWritePairGeneric callback.keycallback keep fresh map pair .overwrite
      some (next, events)
  | .insert pair keep fresh => do
      let (next, _, events) ← pointermapInsertPairGeneric callback.keycallback keep fresh map pair
      some (next, events)
  | .register pair keep fresh => do
      let (next, _, events) ← pointermapRegisterPairGeneric callback.keycallback keep fresh map pair
      some (next, events)
  | .remove key => do
      let (next, _, events) ← pointermapRemoveGeneric callback.keycallback map key
      some (next, events)
  | .copyItems source keep fresh =>
    pointermapCopyItemsGeneric callback.keycallback keep fresh map source
  | .shrinkIfNeeded fresh =>
    if map.isSparse then do
      let next ← pointermapShrinkGeneric callback.keycallback fresh map
      some (next, [])
    else some (map, [])
  | .reset fresh => mapReset callback fresh map
  | .doneInit capacity fresh => do
      let events ← mapDone callback map
      some (mapInit callback.keycallback capacity fresh, events)

def mapRun (callback : Keyvaluecallback) (map : Pointermap) :
    List MapOp → Option (Pointermap × List Ownership)
  | [] => some (map, [])
  | op :: rest => do
      let (next, events) ← op.apply callback map
      let (final, later) ← mapRun callback next rest
      some (final, events ++ later)

def MapOp.Permitted (callback : Keycallback) : MapOp → Prop
  | .set pair keep _ => pair.key ≠ callback.notakey ∧ Keeps callback keep
  | .insert pair keep _ => pair.key ≠ callback.notakey ∧ Keeps callback keep
  | .register pair keep _ => pair.key ≠ callback.notakey ∧ Keeps callback keep
  | .remove key => key ≠ callback.notakey
  | .copyItems source keep _ => Pointermap.Valid callback source ∧ Keeps callback keep
  | .shrinkIfNeeded _ => True
  | .reset _ => True
  | .doneInit capacity _ => capacity.toNat + capacity.toNat / 4 ≤ 2 ^ 63

section Runs

variable {callback : Keyvaluecallback}
variable {map : Pointermap}

theorem Pointermap.Valid.reset (valid : Pointermap.Valid callback.keycallback map)
    (owning : callback.Owning) (fresh : Nat → Pointer) :
    ∃ next events, mapReset callback fresh map = some (next, events) ∧
      Pointermap.Valid callback.keycallback next ∧
      Balanced (pointermapBag callback.keycallback map) (pointermapBag callback.keycallback next)
        events := by
  rw [mapReset]
  by_cases empty : map.count = 0
  · rw [if_pos empty]
    exact ⟨map, [], rfl, valid, Balanced.nothing _⟩
  · rw [if_neg empty]
    obtain ⟨events, released, balanced⟩ := (Pointermap.Valid.ok valid).done owning
    have start := @mapInit_fresh callback.keycallback 0 (by decide) fresh
    refine ⟨_, events, by rw [released]; rfl, Pointermap.Fresh.valid start, ?_⟩
    rw [pointermapBag_fresh start]
    exact balanced

theorem MapOp.apply_balanced (lawful : callback.keycallback.Lawful) (owning : callback.Owning)
    (valid : Pointermap.Valid callback.keycallback map) {op : MapOp}
    (permitted : op.Permitted callback.keycallback) :
    ∃ next events, op.apply callback map = some (next, events) ∧
      Pointermap.Valid callback.keycallback next ∧
      Balanced (pointermapBag callback.keycallback map) (pointermapBag callback.keycallback next)
        events := by
  cases op with
  | set pair keep fresh =>
    obtain ⟨next, result, events, applied, nextValid, written⟩ :=
      Pointermap.Valid.write valid lawful permitted.2 fresh permitted.1 .overwrite
    exact ⟨next, events, by rw [MapOp.apply, applied]; rfl, nextValid, written.balanced⟩
  | insert pair keep fresh =>
    obtain ⟨next, result, events, applied, nextValid, written⟩ :=
      Pointermap.Valid.write valid lawful permitted.2 fresh permitted.1 .insert
    refine ⟨next, events, ?_, nextValid, written.balanced⟩
    rw [MapOp.apply, pointermapInsertPairGeneric, applied]
    rfl
  | register pair keep fresh =>
    obtain ⟨next, value, result, events, applied, nextValid, written⟩ :=
      Pointermap.Valid.register valid lawful permitted.2 fresh permitted.1
    exact ⟨next, events, by rw [MapOp.apply, applied]; rfl, nextValid, written.balanced⟩
  | remove key =>
    obtain ⟨next, result, events, applied, nextValid, balanced⟩ :=
      Pointermap.Valid.remove valid lawful key
    exact ⟨next, events, by rw [MapOp.apply, applied]; rfl, nextValid, balanced⟩
  | copyItems source keep fresh =>
    exact Pointermap.Valid.copyItems valid lawful permitted.2 fresh permitted.1
  | shrinkIfNeeded fresh =>
    rw [MapOp.apply]
    by_cases sparse : map.isSparse = true
    · obtain ⟨bindings, holds⟩ := valid
      obtain ⟨next, shrunk, nextOk, -, contents⟩ :=
        holds.toOk.shrink (pointermapAllocates _ fresh) sparse
      refine ⟨next, [], ?_, ⟨bindings, holds.same_bag nextOk contents⟩, ?_⟩
      · rw [if_pos sparse, pointermapShrinkGeneric, shrunk]
        rfl
      · have same : pointermapBag callback.keycallback next =
            pointermapBag callback.keycallback map := contents
        rw [same]
        exact Balanced.nothing _
    · exact ⟨map, [], if_neg sparse, valid, Balanced.nothing _⟩
  | reset fresh => exact Pointermap.Valid.reset valid owning fresh
  | doneInit capacity fresh =>
    obtain ⟨events, released, balanced⟩ := (Pointermap.Valid.ok valid).done owning
    have start := mapInit_fresh callback.keycallback permitted fresh
    refine ⟨_, events, by rw [MapOp.apply, released]; rfl, Pointermap.Fresh.valid start, ?_⟩
    rw [pointermapBag_fresh start]
    exact balanced

theorem mapRun_balanced (lawful : callback.keycallback.Lawful) (owning : callback.Owning) :
    ∀ (ops : List MapOp) (map : Pointermap), Pointermap.Valid callback.keycallback map →
    (∀ op ∈ ops, op.Permitted callback.keycallback) →
    ∃ final events, mapRun callback map ops = some (final, events) ∧
      Pointermap.Valid callback.keycallback final ∧
      Balanced (pointermapBag callback.keycallback map) (pointermapBag callback.keycallback final)
        events := by
  intro ops
  induction ops with
  | nil => exact fun map valid _ => ⟨map, [], rfl, valid, Balanced.nothing _⟩
  | cons op rest ih =>
    intro map valid permitted
    obtain ⟨next, events, applied, nextValid, balanced⟩ :=
      op.apply_balanced lawful owning valid (permitted op List.mem_cons_self)
    obtain ⟨final, later, result, finalValid, laterBalanced⟩ := ih next nextValid
      fun other member => permitted other (List.mem_cons_of_mem op member)
    refine ⟨final, events ++ later, ?_, finalValid, balanced.append laterBalanced⟩
    rw [mapRun, applied]
    simp only [Option.bind_eq_bind, Option.bind_some, result]

/-- After every run the keys and the values retained and not released are those
stored, and none are left once the map is done. Every write makes the calls its
case says, whether it has to grow the map or not. -/
theorem mapRun_holds_stored (lawful : callback.keycallback.Lawful) (owning : callback.Owning)
    {start : Pointermap} (isFresh : Pointermap.Fresh callback.keycallback start) (ops : List MapOp)
    (permitted : ∀ op ∈ ops, op.Permitted callback.keycallback) :
    ∃ final events, mapRun callback start ops = some (final, events) ∧
      settle 0 (events.filterMap Ownership.keyTransfer) =
        some ((pointermapBag callback.keycallback final).map Pointerpair.key) ∧
      settle 0 (events.filterMap Ownership.valueTransfer) =
        some ((pointermapBag callback.keycallback final).map Pointerpair.value) ∧
      (∃ last, mapDone callback final = some last ∧
        settle 0 ((events ++ last).filterMap Ownership.keyTransfer) = some 0 ∧
        settle 0 ((events ++ last).filterMap Ownership.valueTransfer) = some 0) ∧
      ∀ (pair : Pointerpair) (mode : WriteMode) (keep : Pointerpair → Pointerpair)
        (fresh : Nat → Pointer),
        pair.key ≠ callback.keycallback.notakey → Keeps callback.keycallback keep →
        ∃ next result calls,
          pointermapWritePairGeneric callback.keycallback keep fresh final pair mode =
            some (next, result, calls) ∧
          WriteCase callback.keycallback final pair (keep pair) mode next result calls := by
  obtain ⟨final, events, result, valid, balanced⟩ :=
    mapRun_balanced lawful owning ops start (Pointermap.Fresh.valid isFresh) permitted
  rw [pointermapBag_fresh isFresh] at balanced
  obtain ⟨last, released, lastBalanced⟩ := (Pointermap.Valid.ok valid).done owning
  have emptied := balanced.append lastBalanced
  refine ⟨final, events, result, balanced.keys, balanced.values,
    ⟨last, released, emptied.keys, emptied.values⟩, ?_⟩
  intro pair mode keep fresh isKey keeps
  obtain ⟨next, answer, calls, applied, -, written⟩ :=
    Pointermap.Valid.write valid lawful keeps fresh isKey mode
  exact ⟨next, answer, calls, applied, written⟩

theorem mapRun_holds_stored_replaced :
    ∃ final events,
      mapRun ⟨crowdedKeycallback, true, true⟩ (mapInit crowdedKeycallback 0 fun _ => 0)
        [.set ⟨1, 10⟩ id fun _ => 0, .set ⟨1, 11⟩ id fun _ => 0] = some (final, events) ∧
      settle 0 (events.filterMap Ownership.valueTransfer) =
        some ((pointermapBag crowdedKeycallback final).map Pointerpair.value) := by
  obtain ⟨final, events, result, -, values, -⟩ :=
    @mapRun_holds_stored ⟨crowdedKeycallback, true, true⟩ crowdedKeycallback_lawful rfl
      (mapInit crowdedKeycallback 0 fun _ => 0)
      (@mapInit_fresh crowdedKeycallback 0 (by decide) fun _ => 0)
      [.set ⟨1, 10⟩ id fun _ => 0, .set ⟨1, 11⟩ id fun _ => 0]
      (by
        intro op member
        rcases List.mem_cons.mp member with rfl | member
        · exact ⟨by decide, keeps_id crowdedKeycallback_lawful⟩
        rw [List.mem_singleton.mp member]
        exact ⟨by decide, keeps_id crowdedKeycallback_lawful⟩)
  exact ⟨final, events, result, values⟩

end Runs

end MulleCore
