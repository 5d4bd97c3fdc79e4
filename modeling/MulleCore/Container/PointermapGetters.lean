import MulleCore.Container.PointermapRefines

/-!
The three getters of a pointermap with the pointer callbacks. They agree on every
key that can be stored; the specialised one can go wrong on the sentinel, because it
compares with the key before it looks for a vacant slot.
-/

namespace MulleCore

open Library

theorem pointerKeycallback_lawful : pointerKeycallback.Lawful :=
  lawful_of_beq fun _ _ => rfl

/-- Going around from where the sentinel hashes to, the first vacant slot has the
value `value` in it. -/
def SentinelSlotHolds (map : Pointermap) (value : Pointer) : Prop :=
  ∃ steps slot, steps < map.size ∧
    map.storage[ahead map.size (hashForSize (pointerHash notAPointer) map.size) steps]? = some slot ∧
    slot.key = notAPointer ∧ slot.value = value ∧
    ∀ step, step < steps → ∃ other,
      map.storage[ahead map.size (hashForSize (pointerHash notAPointer) map.size) step]? =
        some other ∧ other.key ≠ notAPointer

def GettersAgree (map : Pointermap) (key : Pointer) : Prop :=
  pointermapGet map key = pointermapGetGeneric pointerKeycallback map key ∧
  pointermapGetHashed pointerKeycallback map key = pointermapGetGeneric pointerKeycallback map key ∧
  (key = notAPointer → pointermapGet map key = some 0)

section Getters

variable {map : Pointermap} {bindings : PairBindings}
variable {key : Pointer}

theorem pointermapGet_of_key (isKey : key ≠ notAPointer) :
    pointermapGet map key = pointermapGetHashed pointerKeycallback map key := by
  have visits : (fun slot : Pointerpair =>
      if key = slot.key then Visit.hit else if slot.key = notAPointer then .hole else .onward) =
        visitToGet Pointerpair.key pointerKeycallback key := by
    funext slot
    unfold visitToGet pointerKeycallback
    by_cases vacant : slot.key = notAPointer
    · have other : key ≠ slot.key := vacant ▸ isKey
      simp only [if_neg other, if_pos vacant]
    · by_cases same : key = slot.key
      · simp only [if_pos same, if_neg vacant]
      · have different : (slot.key == key) = false := beq_eq_false_iff_ne.mpr (Ne.symm same)
        simp only [if_neg same, if_neg vacant, different, Bool.false_eq_true, if_false]
  have hashed : pointerKeycallback.hash key = pointerHash key := rfl
  simp only [pointermapGet, pointermapGetHashed, ProbeTable.lookup, visits, hashed]
  cases tableProbe (visitToGet Pointerpair.key pointerKeycallback key) (pointerHash key)
      map.storage with
  | none => rfl
  | some landing =>
    cases landing with
    | hole index => rfl
    | found index =>
      dsimp only
      cases map.storage[index]? with
      | none => rfl
      | some slot => rfl

section

variable (ok : Pointermap.Ok pointerKeycallback map)
include ok

theorem SentinelSlotHolds.get (nonempty : map.count ≠ 0)
    {value : Pointer} (holds : SentinelSlotHolds map value) :
    pointermapGet map notAPointer = some value := by
  obtain ⟨steps, slot, within, here, isVacant, content, passed⟩ := holds
  rw [ProbeTable.size] at within here passed
  have sized := ok.size_ne_zero nonempty
  have big := ok.slots.four_le sized
  have startBound : hashForSize (pointerHash notAPointer) map.storage.length < map.storage.length :=
    hashForSize_lt _ (by omega)
  rw [pointermapGet, if_neg nonempty]
  dsimp only
  rw [tableProbe]
  rw [probeFrom_lands (ok.slots.wraps sized) steps _ _ startBound within within _ here]
  · rw [if_pos (by rw [isVacant]; rfl)]
    simp only [here, Option.map_some, content]
  · rw [if_pos isVacant.symm]
    exact Visit.noConfusion
  · intro step before
    obtain ⟨other, otherHere, occupied⟩ := passed step before
    refine ⟨other, otherHere, ?_⟩
    rw [if_neg (Ne.symm occupied), if_neg occupied]

theorem sentinelSlot_exists (nonempty : map.count ≠ 0) :
    ∃ value, SentinelSlotHolds map value := by
  have sized := ok.size_ne_zero nonempty
  have big := ok.slots.four_le sized
  have startBound : hashForSize (pointerHash notAPointer) map.storage.length < map.storage.length :=
    hashForSize_lt _ (by omega)
  let visit := fun slot : Pointerpair => if slot.key = notAPointer then Visit.hole else .onward
  have stops : ∃ slot ∈ map.storage, visit slot ≠ .onward := by
    obtain ⟨slot, member, isVacant⟩ := ok.slots.spare sized
    refine ⟨slot, member, ?_⟩
    have sentinel : slot.key = notAPointer := tableVacant_iff.mp isVacant
    simp only [visit, if_pos sentinel]
    exact Visit.noConfusion
  obtain ⟨steps, slot, within, here, stopping, passed⟩ := exists_first_stop startBound stops
  refine ⟨slot.value, steps, slot, within, here, ?_, rfl, ?_⟩
  · by_contra occupied
    exact stopping (if_neg occupied)
  · intro step before
    obtain ⟨other, otherHere, onward⟩ := passed step before
    refine ⟨other, otherHere, fun sentinel => ?_⟩
    simp only [visit, if_pos sentinel] at onward
    exact Visit.noConfusion onward

theorem SentinelSlotHolds.unique {first second : Pointer}
    (nonempty : map.count ≠ 0) (holds : SentinelSlotHolds map first)
    (other : SentinelSlotHolds map second) : first = second := by
  have same := holds.get ok nonempty
  rw [other.get ok nonempty, Option.some.injEq] at same
  exact same.symm

end

section

variable (holds : Pointermap.Holds pointerKeycallback map bindings)
include holds

theorem ProbeTable.Holds.gettersAgree_of_key
    (isKey : key ≠ notAPointer) : GettersAgree map key := by
  have hashed := holds.getHashed pointerKeycallback_lawful key
  have generic := holds.getGeneric pointerKeycallback_lawful isKey
  refine ⟨?_, ?_, fun sentinel => absurd sentinel isKey⟩
  · rw [pointermapGet_of_key isKey, hashed, generic]
  · rw [hashed, generic]

theorem ProbeTable.Holds.getHashed_sentinel :
    pointermapGetHashed pointerKeycallback map notAPointer = some 0 := by
  rw [holds.getHashed pointerKeycallback_lawful, holds.represents.eq_none]
  · rfl
  · intro slot member answering
    have same : notAPointer = slot.key := by
      simpa [answersKey, pointerKeycallback] using answering
    exact (mem_tableBag.mp member).2 same.symm

theorem ProbeTable.Holds.gettersAgree_sentinel_iff :
    GettersAgree map notAPointer ↔ map.count = 0 ∨ SentinelSlotHolds map 0 := by
  have generic : pointermapGetGeneric pointerKeycallback map notAPointer = some 0 := if_pos rfl
  unfold GettersAgree
  rw [generic, holds.getHashed_sentinel]
  by_cases empty : map.count = 0
  · have answer : pointermapGet map notAPointer = some 0 := if_pos empty
    rw [answer]
    exact ⟨fun _ => Or.inl empty, fun _ => ⟨rfl, rfl, fun _ => rfl⟩⟩
  · obtain ⟨value, slot⟩ := sentinelSlot_exists holds.toOk empty
    rw [slot.get holds.toOk empty]
    constructor
    · rintro ⟨absent, -, -⟩
      rw [Option.some.injEq] at absent
      exact Or.inr (absent ▸ slot)
    · rintro (zero | clear)
      · exact absurd zero empty
      · have value_eq := slot.unique holds.toOk empty clear
        rw [value_eq]
        exact ⟨rfl, rfl, fun _ => rfl⟩

end

/-- Whatever was done to the map before: the getters agree on a key exactly if it
is not the sentinel, or nothing is stored, or no value is left in the vacant slot
that the search for the sentinel comes to first. -/
theorem pointermapGetters_agree_iff {start final : Pointermap} {ops : List PointermapOp}
    {answers : List PointermapAnswer} (isFresh : Pointermap.Fresh pointerKeycallback start)
    (permitted : ∀ op ∈ ops, op.Permitted pointerKeycallback)
    (reached : pointermapRun pointerKeycallback start ops = some (final, answers)) (key : Pointer) :
    GettersAgree final key ↔
      key ≠ notAPointer ∨ final.count = 0 ∨ SentinelSlotHolds final 0 := by
  obtain ⟨reachedFinal, result, holds⟩ :=
    pointermapRun_holds pointerKeycallback_lawful ops start (fun _ => none) isFresh.holds permitted
  rw [reached, Option.some.injEq, Prod.mk.injEq] at result
  obtain ⟨rfl, -⟩ := result
  by_cases sentinel : key = notAPointer
  · subst sentinel
    rw [holds.gettersAgree_sentinel_iff]
    constructor
    · exact Or.inr
    · rintro (isKey | clear)
      · exact absurd rfl isKey
      · exact clear
  · exact ⟨fun _ => Or.inl sentinel, fun _ => holds.gettersAgree_of_key sentinel⟩

def staleMap : Pointermap where
  storage := [⟨1, 5⟩, ⟨notAPointer, 0⟩, ⟨notAPointer, 7⟩, ⟨notAPointer, 0⟩]
  count := 1

def staleOps : List PointermapOp :=
  [.write ⟨2, 7⟩ .overwrite id fun _ => 0, .reset, .write ⟨1, 5⟩ .overwrite id fun _ => 0]

theorem staleOps_permitted : ∀ op ∈ staleOps, op.Permitted pointerKeycallback := by
  intro op member
  rcases List.mem_cons.mp member with rfl | member
  · exact ⟨by decide, keeps_id pointerKeycallback_lawful⟩
  rcases List.mem_cons.mp member with rfl | member
  · trivial
  rw [List.mem_singleton.mp member]
  exact ⟨by decide, keeps_id pointerKeycallback_lawful⟩

theorem staleOps_run :
    pointermapRun pointerKeycallback (pointermapInit 0 fun _ => 0) staleOps =
      some (staleMap, [.value 0, .nothing, .value 0]) := by
  rfl

theorem pointermapGetters_agree_iff_stale :
    GettersAgree staleMap notAPointer ↔
      notAPointer ≠ notAPointer ∨ staleMap.count = 0 ∨ SentinelSlotHolds staleMap 0 :=
  pointermapGetters_agree_iff (@mapInit_fresh pointerKeycallback 0 (by decide) fun _ => 0)
    staleOps_permitted staleOps_run notAPointer

theorem pointermapGet_sentinel_stale :
    pointermapRun pointerKeycallback (pointermapInit 0 fun _ => 0) staleOps =
      some (staleMap, [.value 0, .nothing, .value 0]) ∧
    pointermapGet staleMap notAPointer = some 7 ∧
    pointermapGetGeneric pointerKeycallback staleMap notAPointer = some 0 ∧
    pointermapGetHashed pointerKeycallback staleMap notAPointer = some 0 ∧
    ¬GettersAgree staleMap notAPointer := by
  have wrong : pointermapGet staleMap notAPointer = some 7 := rfl
  refine ⟨staleOps_run, wrong, rfl, rfl, fun agree => ?_⟩
  have right := agree.2.2 rfl
  rw [wrong] at right
  exact absurd right (by decide)

end Getters

end MulleCore
