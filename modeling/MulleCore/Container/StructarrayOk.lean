import MulleCore.Container.Structarray

/-!
What each operation of a structarray does to its list of records.
-/

namespace MulleCore

open Library

variable {stride width : Nat} {array : Structarray} {items : List (List UInt8)}
variable {count more : Nat} {item : List UInt8}

theorem records_nil {cells : List UInt8} : records stride width 0 cells = [] :=
  List.length_eq_zero_iff.mp records_length

section

variable (holds : array.Holds stride width items)
include holds

theorem Structarray.Holds.replace (storage : List UInt8)
    (next : List (List UInt8)) (curr : Nat) (whole : storage.length = array.sentinel)
    (counted : curr = next.length * stride) (within : curr ≤ array.sentinel)
    (small : next.length * stride < 2 ^ 63)
    (contents : records stride width next.length storage = next) :
    Structarray.Holds stride width { array with storage := storage, curr := curr } next := by
  constructor
  · exact holds.sized
  · exact holds.copied
  · exact holds.positive
  · exact holds.narrow
  · exact whole
  · exact holds.capacity
  · exact counted
  · exact within
  · exact small
  · exact contents

theorem Structarray.Holds.take (fewer : count ≤ items.length) :
    Structarray.Holds stride width { array with curr := count * stride } (items.take count) := by
  have length : (items.take count).length = count := by
    rw [List.length_take]
    omega
  have bytes : count * stride ≤ items.length * stride := Nat.mul_le_mul_right stride fewer
  have within := holds.within
  have small := holds.small
  rw [holds.counted] at within
  refine holds.replace _ _ _ holds.whole (by rw [length]) (by omega) (by rw [length]; omega) ?_
  rw [length, ← records_take fewer, holds.contents]

theorem Structarray.Holds.extend (small : (items.length + more) * stride < 2 ^ 63)
    (room : (items.length + more) * stride ≤ array.sentinel) :
    ∃ added, added.length = more ∧
      Structarray.Holds stride width { array with curr := (items.length + more) * stride }
        (items ++ added) := by
  refine ⟨(records stride width (items.length + more) array.storage).drop items.length, ?_, ?_⟩
  · rw [List.length_drop, records_length]
    omega
  · have joined : items ++
          (records stride width (items.length + more) array.storage).drop items.length =
        records stride width (items.length + more) array.storage := by
      have front := @records_take _ stride width (items.length + more) array.storage
        items.length (Nat.le_add_right _ _)
      rw [holds.contents] at front
      rw [← List.take_append_drop items.length
        (records stride width (items.length + more) array.storage), front]
      rw [List.drop_left]
    rw [joined]
    refine holds.replace _ _ _ holds.whole ?_ room ?_ ?_
    · rw [records_length]
    · rw [records_length]
      exact small
    · rw [records_length]

theorem structarrayReset_holds :
    (structarrayReset array).Holds stride width [] := by
  have emptied := holds.take (Nat.zero_le items.length)
  rw [Nat.zero_mul, List.take_zero] at emptied
  exact emptied

theorem structarrayMakeRoom_holds
    (bound : (items.length + 1) * stride < 2 ^ 63) (fresh : Nat → UInt8) :
    ∃ next, structarrayMakeRoom array fresh = some next ∧ next.Holds stride width items ∧
      (items.length + 1) * stride ≤ next.sentinel := by
  rw [structarrayMakeRoom]
  by_cases full : array.curr = array.sentinel
  · rw [if_pos full]
    exact structarrayGrow_holds holds full bound fresh
  · rw [if_neg full]
    refine ⟨array, rfl, holds, ?_⟩
    have within := holds.within
    rw [holds.counted, holds.capacity] at within full
    rw [holds.capacity]
    refine Nat.mul_le_mul_right stride ?_
    exact Nat.lt_of_mul_lt_mul_right (Nat.lt_of_le_of_ne within full)

end

theorem copied_item (enough : width ≤ item.length) :
    blockRead item 0 width = some (slice item 0 width) ∧ (slice item 0 width).length = width := by
  constructor
  · exact if_pos (by omega)
  · rw [slice, List.drop_zero, List.length_take]
    omega

section

variable (holds : array.Holds stride width items)
include holds

theorem structarrayAdd_holds (bound : (items.length + 1) * stride < 2 ^ 63) {item : List UInt8}
    (enough : width ≤ item.length) (fresh : Nat → UInt8) :
    ∃ next, structarrayAdd array item fresh = some next ∧
      next.Holds stride width (items ++ [slice item 0 width]) := by
  obtain ⟨roomy, made, roomyHolds, room⟩ := structarrayMakeRoom_holds holds bound fresh
  obtain ⟨read, copiedLength⟩ := copied_item enough
  have narrow := holds.narrow
  rw [Nat.add_mul, Nat.one_mul] at room
  obtain ⟨pasted, done, whole, added⟩ :=
    @blockPaste_records _ stride width items.length roomy.storage 1 (slice item 0 width) narrow
      (by rw [copiedLength, roomyHolds.whole]; omega) (by omega)
  rw [records_one copiedLength, roomyHolds.contents] at added
  simp only [structarrayAdd, made, roomyHolds.copied, read, roomyHolds.counted, done,
    roomyHolds.sized, Option.bind_eq_bind, Option.bind_some]
  have length : (items ++ [slice item 0 width]).length = items.length + 1 := by
    rw [List.length_append, List.length_singleton]
  refine ⟨_, rfl, ?_⟩
  have replaced := roomyHolds.replace pasted (items ++ [slice item 0 width])
    (items.length * stride + stride) (whole.trans roomyHolds.whole)
    (by rw [length, Nat.add_mul, Nat.one_mul]) room (by rw [length]; exact bound)
    (by rw [length]; exact added)
  rw [roomyHolds.sized, roomyHolds.copied] at replaced
  exact replaced

theorem structarrayAdvance_holds
    (bound : (items.length + more) * stride < 2 ^ 63) (fresh : Nat → UInt8) :
    ∃ roomy : Structarray, structarrayAdvance array more fresh =
        some ({ roomy with curr := (items.length + more) * stride }, items.length * stride) ∧
      roomy.Holds stride width items ∧ (items.length + more) * stride ≤ roomy.sentinel := by
  obtain ⟨roomy, guaranteed, roomyHolds, room⟩ := structarrayGuarantee_holds holds bound fresh
  refine ⟨roomy, ?_, roomyHolds, room⟩
  have moved : (items.length * stride + stride * more) % 2 ^ 64 =
      (items.length + more) * stride := by
    rw [Nat.mul_comm stride, ← Nat.add_mul, Nat.mod_eq_of_lt (Nat.lt_trans bound (by decide))]
  simp only [structarrayAdvance, guaranteed, Option.bind_eq_bind, Option.bind_some,
    roomyHolds.counted, roomyHolds.sized, moved]

theorem structarraySizeToFit_holds
    (shrinks : items.length = 0 → array.initialStorage = true) (fresh : Nat → UInt8) :
    ∃ next, structarraySizeToFit array fresh = some next ∧ next.Holds stride width items := by
  have small := holds.small
  have positive := holds.positive
  have nonzero : array.initialStorage = false → items.length * stride ≠ 0 := by
    intro onHeap none
    rcases Nat.mul_eq_zero.mp none with empty | zero
    · rw [shrinks empty] at onHeap
      contradiction
    · omega
  obtain ⟨next, done, nextHolds, -⟩ := structarrayReallocAsLength_holds holds rfl
    (Nat.le_of_eq holds.counted) nonzero fresh
  refine ⟨next, ?_, nextHolds⟩
  simp only [structarraySizeToFit, structarraySizeto, structarrayRealloc, holds.getCount,
    holds.sized, allocatorSizeMultiply_some (Nat.lt_trans small (by decide)), done,
    Option.bind_eq_bind, Option.bind_some]

end

theorem asLong_eq (bound : count < 2 ^ 63) : asLong count = count :=
  if_pos bound

section

variable (holds : array.Holds stride width items)
include holds

theorem structarraySetCount_fewer {count : UInt64} (fewer : count.toNat ≤ items.length)
    (shrinks : count.toNat = 0 → array.initialStorage = true) (fresh : Nat → UInt8) :
    ∃ next, structarraySetCount array count fresh = some (next, 0) ∧
      next.Holds stride width (items.take count.toNat) := by
  have small := holds.small
  have words := le_bytes holds.positive items.length
  have bytes : count.toNat * stride ≤ items.length * stride := Nat.mul_le_mul_right stride fewer
  have length : (items.take count.toNat).length = count.toNat := by
    rw [List.length_take]
    omega
  have signed : asLong count.toNat - asLong (structarrayGetCount array) ≤ 0 := by
    rw [holds.getCount, asLong_eq (by omega), asLong_eq (by omega)]
    omega
  have moved : ((array.curr + (asLong count.toNat - asLong (structarrayGetCount array)) *
      array.sizeofStruct) % 2 ^ 64 : Int).toNat = count.toNat * stride := by
    have difference : (array.curr + (asLong count.toNat - asLong (structarrayGetCount array)) *
        array.sizeofStruct : Int) = (count.toNat * stride : Nat) := by
      rw [holds.getCount, asLong_eq (by omega), asLong_eq (by omega), holds.counted, holds.sized]
      rw [Int.sub_mul, Int.natCast_mul, Int.natCast_mul]
      omega
    rw [difference]
    omega
  obtain ⟨next, done, nextHolds⟩ :=
    structarraySizeToFit_holds (holds.take fewer) (by rw [length]; exact shrinks) fresh
  refine ⟨next, ?_, nextHolds⟩
  rw [structarraySetCount, if_pos signed, moved]
  simp only [done, Option.bind_eq_bind, Option.bind_some]

theorem structarraySetCount_more {count : UInt64}
    (more : items.length < count.toNat) (bound : count.toNat * stride < 2 ^ 63)
    (fresh : Nat → UInt8) :
    ∃ next added, structarraySetCount array count fresh =
        some (next, count.toNat - items.length) ∧
      added.length = count.toNat - items.length ∧ next.Holds stride width (items ++ added) := by
  have words := le_bytes holds.positive count.toNat
  have reached : items.length + (count.toNat - items.length) = count.toNat := by omega
  have difference : asLong count.toNat - asLong (structarrayGetCount array) =
      (count.toNat - items.length : Nat) := by
    rw [holds.getCount, asLong_eq (by omega), asLong_eq (by omega)]
    omega
  obtain ⟨roomy, advanced, roomyHolds, room⟩ :=
    structarrayAdvance_holds holds (show
      (items.length + (count.toNat - items.length)) * stride < 2 ^ 63 by rwa [reached]) fresh
  obtain ⟨added, length, nextHolds⟩ := roomyHolds.extend (by rwa [reached]) room
  refine ⟨_, added, ?_, length, nextHolds⟩
  rw [structarraySetCount, if_neg (by omega)]
  simp only [difference, Int.toNat_natCast, advanced, Option.bind_eq_bind, Option.bind_some]

theorem structarraySet_holds {index : Nat}
    (inside : index < structarrayGetSize array) (enough : width ≤ item.length) :
    ∃ next, structarraySet array index item = some next ∧
      next.Holds stride width (items.set index (slice item 0 width)) := by
  obtain ⟨read, copiedLength⟩ := copied_item enough
  have roomy : structarrayGetSize array * stride ≤ array.storage.length := by
    rw [holds.whole, ← holds.capacity]
  have address : stride * index < array.sentinel := by
    rw [holds.capacity, Nat.mul_comm]
    exact Nat.mul_lt_mul_of_pos_right inside holds.positive
  obtain ⟨pasted, done, whole, same⟩ :=
    blockPaste_record holds.narrow inside roomy copiedLength
  have kept : records stride width items.length pasted =
      items.set index (slice item 0 width) := by
    rw [← records_take holds.length_le, same, List.take_set, records_take holds.length_le,
      holds.contents]
  rw [Nat.mul_comm] at done
  simp only [structarraySet, structarrayGet, holds.sized, if_pos address, holds.copied, read, done,
    Option.bind_eq_bind, Option.bind_some]
  refine ⟨_, rfl, ?_⟩
  have replaced := holds.replace pasted (items.set index (slice item 0 width)) array.curr
    (whole.trans holds.whole) (by rw [List.length_set, holds.counted]) holds.within
    (by rw [List.length_set]; exact holds.small) (by rw [List.length_set]; exact kept)
  rw [holds.sized, holds.copied] at replaced
  exact replaced

end

end MulleCore
