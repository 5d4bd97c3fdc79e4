import Mathlib.Algebra.Ring.Nat
import Mathlib.Data.List.Rotate

/-!
The worlds of `mulle-aba-storage.c`, and how they use their timestamp storages again. A storage is
known by its address, and `usage` has its usage bits. There is no result where an assertion fails.
-/

namespace MulleCore

structure AbaWorld where
  timestamp : UInt64
  offset : UInt64
  size : Nat
  n : Nat
  /-- The `size` places of `_storage`, of which 0 is `NULL`. -/
  storage : List Nat

/-- Builds for debugging have fewer entries. -/
def timestampstorageNEntries (debug : Bool) : Nat := if debug then 2 else 64

section Functions

variable (debug : Bool) (usage : Nat → UInt64)

def abaWorldPopStorage (world : AbaWorld) : Option (Nat × AbaWorld) :=
  if world.n = 0 then none
  else do
    let n := world.n - 1
    let storage ← world.storage[0]?
    let moved := (world.storage.drop 1).take n ++ world.storage.drop n
    some (storage, { world with
      storage := moved.set n 0
      n := n
      offset := world.offset + UInt64.ofNat (timestampstorageNEntries debug) })

def abaWorldPushStorage (world : AbaWorld) (tsStorage : Nat) : Option AbaWorld :=
  if tsStorage = 0 ∨ world.size = world.n then none
  else some { world with storage := world.storage.set world.n tsStorage, n := world.n + 1 }

def abaWorldRotateStorage (world : AbaWorld) : Option AbaWorld := do
  let (storage, world) ← abaWorldPopStorage debug world
  abaWorldPushStorage world storage

/-- The index is cut to an `unsigned int` before it is compared. -/
def abaWorldGetTimestampstorageIndex (world : AbaWorld) (timestamp : UInt64) : Option Nat :=
  if timestamp < world.offset then none
  else
    let sIndex := (timestamp - world.offset).toNat / timestampstorageNEntries debug % 2 ^ 32
    if sIndex ≥ world.n then none else some sIndex

def abaWorldGetTimestampstorageAtIndex (world : AbaWorld) (tsIndex : Nat) : Option Nat :=
  if tsIndex < world.n then
    match world.storage[tsIndex]? with
    | some 0 => none
    | tsStorage => tsStorage
  else none

def abaWorldGetTimestampstorage (world : AbaWorld) (timestamp : UInt64) : Option Nat := do
  let tsIndex ← abaWorldGetTimestampstorageIndex debug world timestamp
  abaWorldGetTimestampstorageAtIndex world tsIndex

def abaWorldReuseLoop (counting : Bool) (tsIndex : Option Nat) :
    Nat → Nat → AbaWorld → Nat → Option (AbaWorld × Nat)
  | 0, _, world, reused => some (world, reused)
  | remaining + 1, i, world, reused =>
    if tsIndex = some i then some (world, reused)
    else do
      let tsStorage ← abaWorldGetTimestampstorageAtIndex world i
      if usage tsStorage ≠ 0 then abaWorldReuseLoop counting tsIndex remaining (i + 1) world reused
      else if counting then abaWorldReuseLoop counting tsIndex remaining (i + 1) world (reused + 1)
      else
        let world ← abaWorldRotateStorage debug world
        abaWorldReuseLoop counting tsIndex remaining (i + 1) world (reused + 1)

def abaWorldReuse (counting : Bool) (world : AbaWorld) : Option (AbaWorld × Nat) :=
  if world.timestamp = 0 then some (world, 0)
  else abaWorldReuseLoop debug usage counting (abaWorldGetTimestampstorageIndex debug world
    world.timestamp) world.n 0 world 0

def abaWorldReuseStorages (world : AbaWorld) : Option (AbaWorld × Nat) :=
  abaWorldReuse debug usage false world

def abaWorldCountAvailableReusableStorages (world : AbaWorld) : Option Nat :=
  (abaWorldReuse debug usage true world).map (·.2)

end Functions

def AbaWorld.front (world : AbaWorld) : List Nat := world.storage.take world.n

structure AbaWorldOk (world : AbaWorld) : Prop where
  places : world.storage.length = world.size
  few : world.n ≤ world.size
  nonnull : ∀ tsStorage ∈ world.front, tsStorage ≠ 0

section Rotate

variable {debug : Bool} {world : AbaWorld}
variable {i : Nat}

def AbaWorld.rotated (debug : Bool) (world : AbaWorld) (count : Nat) : AbaWorld :=
  { world with
    storage := world.front.rotate count ++ world.storage.drop world.n
    offset := world.offset + UInt64.ofNat (count * timestampstorageNEntries debug) }

theorem AbaWorldOk.front_length (ok : AbaWorldOk world) : world.front.length = world.n := by
  rw [AbaWorld.front, List.length_take, ok.places, Nat.min_eq_left ok.few]

theorem AbaWorldOk.rotated_zero : world.rotated debug 0 = world := by
  simp [AbaWorld.rotated, AbaWorld.front, List.take_append_drop]

section

variable (ok : AbaWorldOk world)
include ok

theorem AbaWorldOk.rotated_front (debug : Bool) (count : Nat) :
    (world.rotated debug count).front = world.front.rotate count := by
  have sized := ok.front_length
  rw [AbaWorld.front, AbaWorld.rotated]
  exact List.take_left' (by rw [List.length_rotate, sized])

theorem AbaWorldOk.rotated (debug : Bool) (count : Nat) :
    AbaWorldOk (world.rotated debug count) where
  places := by
    have sized := ok.front_length
    have few := ok.few
    simp only [AbaWorld.rotated, List.length_append, List.length_rotate, sized, List.length_drop,
      ok.places]
    omega
  few := ok.few
  nonnull := by
    intro tsStorage member
    rw [ok.rotated_front, List.mem_rotate] at member
    exact ok.nonnull tsStorage member

theorem AbaWorldOk.rotated_rotated (debug : Bool) (count more : Nat) :
    (world.rotated debug count).rotated debug more = world.rotated debug (count + more) := by
  have sized := ok.front_length
  have front := ok.rotated_front debug count
  have behind : (world.rotated debug count).storage.drop world.n = world.storage.drop world.n :=
    List.drop_left' (by rw [List.length_rotate, sized])
  have offset : world.offset + UInt64.ofNat (count * timestampstorageNEntries debug) +
      UInt64.ofNat (more * timestampstorageNEntries debug) =
      world.offset + UInt64.ofNat ((count + more) * timestampstorageNEntries debug) := by
    rw [Nat.add_mul, UInt64.ofNat_add, UInt64.add_assoc]
  rw [AbaWorld.rotated, front, List.rotate_rotate]
  simp only [AbaWorld.rotated] at behind ⊢
  rw [behind, offset]

theorem AbaWorldOk.rotate (debug : Bool) (positive : 0 < world.n) :
    abaWorldRotateStorage debug world = some (world.rotated debug 1) := by
  obtain ⟨timestamp, offset, size, n, storage⟩ := world
  obtain ⟨n, rfl⟩ : ∃ m, n = m + 1 := ⟨n - 1, by simpa using (Nat.sub_add_cancel positive).symm⟩
  have places := ok.places
  have few := ok.few
  dsimp only at places few
  cases storage with
  | nil =>
    rw [List.length_nil] at places
    omega
  | cons first storage =>
    rw [List.length_cons] at places
    have nonnull : first ≠ 0 := ok.nonnull first (by simp [AbaWorld.front])
    have moved : ((storage.take n ++ (first :: storage).drop n).set n 0).set n first =
        storage.take n ++ first :: storage.drop n := by
      have sized : (storage.take n).length = n := List.length_take_of_le (by omega)
      have inside : n < (first :: storage).length := by
        rw [List.length_cons]
        omega
      rw [List.set_set, List.drop_eq_getElem_cons inside, List.set_append_right _ _ (by omega),
        sized, Nat.sub_self, List.set_cons_zero, List.drop_succ_cons]
    have notFull : ¬ size = n := by omega
    simp only [abaWorldRotateStorage, abaWorldPopStorage, abaWorldPushStorage, Nat.succ_ne_zero,
      if_false, List.getElem?_cons_zero, Option.bind_eq_bind, Option.bind_some, Nat.add_sub_cancel,
      List.drop_succ_cons, List.drop_zero, nonnull, notFull, or_self, moved]
    simp [AbaWorld.rotated, AbaWorld.front]

theorem AbaWorldOk.rotate_rotated (debug : Bool) (positive : 0 < world.n) (count : Nat) :
    abaWorldRotateStorage debug (world.rotated debug count) =
      some (world.rotated debug (count + 1)) := by
  rw [(ok.rotated debug count).rotate debug positive, ok.rotated_rotated debug]

theorem AbaWorldOk.at_index (inside : i < world.n) :
    ∃ tsStorage, world.front[i]? = some tsStorage ∧
      abaWorldGetTimestampstorageAtIndex world i = some tsStorage := by
  have sized := ok.front_length
  have read : world.front[i]? = some world.front[i] := List.getElem?_eq_getElem (by omega)
  have nonnull := ok.nonnull world.front[i] (List.getElem_mem _)
  have same : world.storage[i]? = some world.front[i] := by
    rw [← read, AbaWorld.front, List.getElem?_take_of_lt inside]
  refine ⟨world.front[i], read, ?_⟩
  rw [abaWorldGetTimestampstorageAtIndex, if_pos inside, same]
  split
  next zero => exact absurd (Option.some.inj zero) nonnull
  next => rfl

theorem AbaWorldOk.rotated_at (debug : Bool) (count : Nat) (inside : i < world.n) :
    abaWorldGetTimestampstorageAtIndex (world.rotated debug count) i =
      world.front[(i + count) % world.n]? := by
  obtain ⟨tsStorage, read, found⟩ := (ok.rotated debug count).at_index (i := i) inside
  have sized := ok.front_length
  rw [found, ← read, ok.rotated_front, List.getElem?_rotate (by omega), sized]

end

end Rotate

section Reuse

variable {usage : Nat → UInt64} {debug : Bool} {world : AbaWorld}
variable {unused n i moved remaining : Nat} {timestamp : UInt64} {tsIndex count : Nat}

structure UnusedFront (usage : Nat → UInt64) (storages : List Nat) (unused : Nat) : Prop where
  inside : unused ≤ storages.length
  iff : ∀ i tsStorage, storages[i]? = some tsStorage → (usage tsStorage = 0 ↔ i < unused)

theorem exists_unusedFront {storages : List Nat}
    (ordered : ∀ i j front behind : Nat, i < j → storages[i]? = some front →
      storages[j]? = some behind →
      usage behind = 0 → usage front = 0) : ∃ unused, UnusedFront usage storages unused := by
  induction storages with
  | nil => exact ⟨0, Nat.le_refl 0, by simp⟩
  | cons first storages ih =>
    by_cases isUnused : usage first = 0
    · obtain ⟨unused, inside, iff⟩ := ih fun i j front behind before atFront atBehind =>
        ordered (i + 1) (j + 1) front behind (Nat.succ_lt_succ before) (by simpa using atFront)
          (by simpa using atBehind)
      refine ⟨unused + 1, Nat.succ_le_succ inside, ?_⟩
      intro i tsStorage read
      cases i with
      | zero =>
        obtain rfl : first = tsStorage := by simpa using read
        simp [isUnused]
      | succ i => rw [iff i tsStorage (by simpa using read), Nat.succ_lt_succ_iff]
    · refine ⟨0, Nat.zero_le _, ?_⟩
      intro i tsStorage read
      refine iff_of_false (fun unused => isUnused ?_) (Nat.not_lt_zero i)
      cases i with
      | zero =>
        obtain rfl : first = tsStorage := by simpa using read
        exact unused
      | succ i => exact ordered 0 (i + 1) first tsStorage (Nat.succ_pos i) rfl read unused

/-- As long as the loop has not met the storages that came to the back, it skips every other place.
Then each place of the rest is one of them. -/
structure ReuseHolds (unused n i moved : Nat) : Prop where
  steps : moved ≤ i
  most : moved ≤ unused
  skips : 2 * moved ≤ unused + 1 ∨ moved + n ≤ unused + 1 + i

theorem ReuseHolds.next (holds : ReuseHolds unused n i moved) :
    ReuseHolds unused n (i + 1) moved where
  steps := Nat.le_succ_of_le holds.steps
  most := holds.most
  skips := holds.skips.imp_right Nat.le_succ_of_le

theorem ReuseHolds.move (holds : ReuseHolds unused n i moved)
    (inside : i + 1 < n) (isUnused : (i + moved) % n < unused) :
    moved < unused ∧ ReuseHolds unused n (i + 1) (moved + 1) := by
  have steps := holds.steps
  by_cases whole : i + moved < n
  · rw [Nat.mod_eq_of_lt whole] at isUnused
    exact ⟨by omega, by omega, by omega, Or.inl (by omega)⟩
  · have late : moved + n ≤ unused + 1 + i := by
      rcases holds.skips with early | late
      · omega
      · exact late
    exact ⟨by omega, by omega, by omega, Or.inr (by omega)⟩

theorem abaWorldReuseLoop_rotates (debug : Bool) (ok : AbaWorldOk world)
    (front : UnusedFront usage world.front unused) (sized : i + remaining = world.n)
    (before : i < world.n) (holds : ReuseHolds unused world.n i moved) :
    ∃ total, abaWorldReuseLoop debug usage false (some (world.n - 1)) remaining i (world.rotated
      debug moved) moved =
      some (world.rotated debug total, total) ∧ moved ≤ total ∧ total ≤ unused ∧ total < world.n ∧
      (i + 1 < world.n → (i + moved) % world.n < unused → moved < total) := by
  induction remaining generalizing i moved with
  | zero => omega
  | succ remaining ih =>
    have steps := holds.steps
    rw [abaWorldReuseLoop]
    by_cases last : world.n - 1 = i
    · rw [if_pos (congrArg some last)]
      exact ⟨moved, rfl, Nat.le_refl _, holds.most, by omega, by omega⟩
    · have lengths := ok.front_length
      have bound : (i + moved) % world.n < world.front.length := by
        rw [lengths]
        exact Nat.mod_lt _ (by omega)
      have read : world.front[(i + moved) % world.n]? = some world.front[(i + moved) % world.n] :=
        List.getElem?_eq_getElem bound
      have found := ok.rotated_at debug moved before
      have unusedIff := front.iff _ _ read
      rw [read] at found
      rw [if_neg fun same => last (Option.some.inj same), found]
      dsimp only [Option.bind_eq_bind, Option.bind_some]
      by_cases isUsed : usage world.front[(i + moved) % world.n] ≠ 0
      · rw [if_pos isUsed]
        obtain ⟨total, ran, more, most, inside, _⟩ := ih (by omega) (by omega) holds.next
        exact ⟨total, ran, more, most, inside,
          fun _ isUnused => absurd (unusedIff.mpr isUnused) isUsed⟩
      · have isUnused := unusedIff.mp (not_not.mp isUsed)
        obtain ⟨_, moves⟩ := holds.move (by omega) isUnused
        obtain ⟨total, ran, more, most, inside, _⟩ := ih (by omega) (by omega) moves
        rw [if_neg isUsed, if_neg (by decide), ok.rotate_rotated debug (by omega)]
        exact ⟨total, ran, by omega, most, inside, fun _ _ => more⟩

theorem abaWorldReuseLoop_counts (debug : Bool) (ok : AbaWorldOk world)
    (front : UnusedFront usage world.front unused) {counted : Nat} (sized : i + remaining = world.n)
    (before : i < world.n) (exact : counted = min i unused) :
    abaWorldReuseLoop debug usage true (some (world.n - 1)) remaining i world counted =
      some (world, min (world.n - 1) unused) := by
  induction remaining generalizing i counted with
  | zero => omega
  | succ remaining ih =>
    rw [abaWorldReuseLoop]
    by_cases last : world.n - 1 = i
    · rw [if_pos (congrArg some last), last, exact]
    · obtain ⟨tsStorage, read, found⟩ := ok.at_index before
      have unusedIff := front.iff i tsStorage read
      rw [if_neg fun same => last (Option.some.inj same), found]
      dsimp only [Option.bind_eq_bind, Option.bind_some]
      by_cases isUsed : usage tsStorage ≠ 0
      · rw [if_pos isUsed]
        have behind : ¬ i < unused := fun isUnused => isUsed (unusedIff.mpr isUnused)
        exact ih (by omega) (by omega) (by omega)
      · have isUnused := unusedIff.mp (not_not.mp isUsed)
        rw [if_neg isUsed, if_pos rfl]
        exact ih (by omega) (by omega) (by omega)

/-- The quotient is cut to 32 bits before it is compared with `n`. -/
theorem abaWorldGetTimestampstorageIndex_iff :
    abaWorldGetTimestampstorageIndex debug world timestamp = some tsIndex ↔
    world.offset.toNat ≤ timestamp.toNat ∧
      (timestamp.toNat - world.offset.toNat) / timestampstorageNEntries debug % 2 ^ 32 = tsIndex ∧
      tsIndex < world.n := by
  rw [abaWorldGetTimestampstorageIndex]
  split
  next below =>
    rw [UInt64.lt_iff_toNat_lt] at below
    simp [Nat.not_le_of_lt below]
  next above =>
    rw [UInt64.not_lt] at above
    rw [UInt64.toNat_sub_of_le _ _ above]
    rw [UInt64.le_iff_toNat_le] at above
    dsimp only
    split
    next beyond =>
      simp only [reduceCtorEq, false_iff, not_and]
      rintro _ rfl
      omega
    next inside =>
      simp only [Option.some_inj, above, true_and]
      omega

theorem rotated_index
    (indexed : abaWorldGetTimestampstorageIndex debug world timestamp = some tsIndex)
    (remains : count ≤ tsIndex) :
    (world.rotated debug count).offset.toNat = world.offset.toNat +
      count * timestampstorageNEntries debug ∧
      abaWorldGetTimestampstorageIndex debug (world.rotated debug count) timestamp =
        some (tsIndex - count) := by
  have bound := timestamp.toNat_lt
  obtain ⟨above, index, inside⟩ := abaWorldGetTimestampstorageIndex_iff.mp indexed
  have quotient : tsIndex ≤ (timestamp.toNat - world.offset.toNat) / timestampstorageNEntries
      debug := by
    rw [← index]
    exact Nat.mod_le _ _
  have reaches : count * timestampstorageNEntries debug ≤ timestamp.toNat - world.offset.toNat :=
    Nat.le_trans (Nat.mul_le_mul_right _ (Nat.le_trans remains quotient)) (Nat.div_mul_le_self _ _)
  have offset : (world.rotated debug count).offset.toNat =
      world.offset.toNat + count * timestampstorageNEntries debug := by
    rw [AbaWorld.rotated, UInt64.toNat_add, UInt64.toNat_ofNat',
      Nat.mod_eq_of_lt (by omega : count * timestampstorageNEntries debug < 2 ^ 64),
      Nat.mod_eq_of_lt (by omega)]
  have left : (timestamp.toNat - (world.offset.toNat + count * timestampstorageNEntries debug)) /
      timestampstorageNEntries debug =
      (timestamp.toNat - world.offset.toNat) / timestampstorageNEntries debug - count := by
    rw [← Nat.sub_sub, Nat.mul_comm, Nat.sub_mul_div]
  have few : (world.rotated debug count).n = world.n := rfl
  refine ⟨offset, abaWorldGetTimestampstorageIndex_iff.mpr ⟨by omega, ?_, by omega⟩⟩
  rw [offset, left]
  omega

theorem AbaWorldOk.rotated_get (ok : AbaWorldOk world) {tsStorage : Nat}
    (indexed : abaWorldGetTimestampstorageIndex debug world timestamp = some tsIndex)
    (found : abaWorldGetTimestampstorageAtIndex world tsIndex = some tsStorage)
    (remains : count ≤ tsIndex) :
    abaWorldGetTimestampstorage debug (world.rotated debug count) timestamp = some tsStorage := by
  have inside := (abaWorldGetTimestampstorageIndex_iff.mp indexed).2.2
  obtain ⟨_, rotatedIndex⟩ := rotated_index indexed remains
  obtain ⟨other, read, same⟩ := ok.at_index inside
  rw [abaWorldGetTimestampstorage, rotatedIndex, Option.bind_eq_bind, Option.bind_some,
    ok.rotated_at debug count (by omega), Nat.sub_add_cancel remains, Nat.mod_eq_of_lt inside, read,
    ← same, found]

end Reuse

/-- Where the storages without usage bits are in front, and the current timestamp is in the last
storage, storages without usage bits move from the front to the back, and nothing else changes. -/
theorem abaWorldReuseStorages_moves (debug : Bool) (usage : Nat → UInt64) (world : AbaWorld)
    (ok : AbaWorldOk world)
    (current : abaWorldGetTimestampstorageIndex debug world world.timestamp = some (world.n - 1))
    (ordered : ∀ i j front behind : Nat, i < j → world.front[i]? = some front →
      world.front[j]? = some behind →
      usage behind = 0 → usage front = 0) :
    ∃ after moved available, abaWorldReuseStorages debug usage world = some (after, moved) ∧
      abaWorldCountAvailableReusableStorages debug usage world = some available ∧
      (0 < moved ↔ 0 < available) ∧
      moved ≤ world.n ∧ (∀ tsStorage ∈ world.front.take moved, usage tsStorage = 0) ∧
      after = { world with
        storage := world.front.drop moved ++ world.front.take moved ++ world.storage.drop world.n
        offset := after.offset } ∧
      after.offset.toNat = world.offset.toNat + moved * timestampstorageNEntries debug ∧
      ∀ timestamp tsStorage, abaWorldGetTimestampstorage debug world timestamp = some tsStorage →
        usage tsStorage ≠ 0 ∨ timestamp = world.timestamp →
        abaWorldGetTimestampstorage debug after timestamp = some tsStorage := by
  obtain ⟨unused, front⟩ := exists_unusedFront ordered
  have sized := ok.front_length
  have positive : 0 < world.n := by
    have last := (abaWorldGetTimestampstorageIndex_iff.mp current).2.2
    omega
  rw [abaWorldReuseStorages, abaWorldCountAvailableReusableStorages, abaWorldReuse, abaWorldReuse]
  by_cases none : world.timestamp = 0
  · rw [if_pos none, if_pos none]
    refine ⟨world, 0, 0, rfl, rfl, Iff.rfl, Nat.zero_le _, by simp, ?_, by simp,
      fun _ _ found _ => found⟩
    simp [AbaWorld.front, List.take_append_drop]
  · have start : ReuseHolds unused world.n 0 0 :=
      ⟨Nat.le_refl 0, Nat.zero_le _, Or.inl (Nat.zero_le _)⟩
    obtain ⟨moved, ran, _, most, inside, first⟩ :=
      abaWorldReuseLoop_rotates debug ok front (Nat.zero_add world.n) positive start
    rw [Nat.zero_add, Nat.zero_mod] at first
    rw [if_neg none, if_neg none, current,
      abaWorldReuseLoop_counts debug ok front (Nat.zero_add _) positive (Nat.zero_min unused).symm]
    rw [AbaWorldOk.rotated_zero] at ran
    refine ⟨_, moved, min (world.n - 1) unused, ran, rfl, ?_, Nat.le_of_lt inside, ?_, ?_, ?_, ?_⟩
    · omega
    · intro tsStorage member
      obtain ⟨i, bound, rfl⟩ := List.getElem_of_mem member
      rw [List.length_take] at bound
      rw [List.getElem_take]
      exact (front.iff i _ (List.getElem?_eq_getElem (by omega))).mpr (by omega)
    · rw [AbaWorld.rotated, List.rotate_eq_drop_append_take (by omega)]
    · exact (rotated_index current (by omega)).1
    · intro timestamp tsStorage found
      rw [abaWorldGetTimestampstorage] at found
      obtain ⟨tsIndex, indexed, atIndex⟩ := Option.bind_eq_some_iff.mp found
      have within := (abaWorldGetTimestampstorageIndex_iff.mp indexed).2.2
      rintro (used | rfl)
      · obtain ⟨other, read, same⟩ := ok.at_index within
        obtain rfl : other = tsStorage := Option.some.inj (same.symm.trans atIndex)
        have behind : ¬ tsIndex < unused := fun isUnused => used ((front.iff _ _ read).mpr isUnused)
        exact ok.rotated_get indexed atIndex (by omega)
      · obtain rfl : world.n - 1 = tsIndex := Option.some.inj (current.symm.trans indexed)
        exact ok.rotated_get indexed atIndex (by omega)

theorem abaWorldReuseStorages_moves_two :
    ∃ after, (∃ moved, abaWorldReuseStorages false (fun tsStorage => if tsStorage = 20 then 1 else 0)
        ⟨70, 0, 2, 2, [10, 20]⟩ = some (after, moved)) ∧
          abaWorldGetTimestampstorage false after 70 = some 20 := by
  have ordered : ∀ i j front behind : Nat, i < j →
    (AbaWorld.mk 70 0 2 2 [10, 20]).front[i]? = some front →
      (AbaWorld.mk 70 0 2 2 [10, 20]).front[j]? = some behind →
      (if behind = 20 then (1 : UInt64) else 0) = 0 →
      (if front = 20 then (1 : UInt64) else 0) = 0 := by
    intro i j front behind before atFront atBehind _
    obtain ⟨inside, _⟩ := List.getElem?_eq_some_iff.mp atBehind
    simp only [AbaWorld.front, List.take_succ_cons, List.take_zero, List.length_cons,
      List.length_nil] at inside
    obtain rfl : i = 0 := by omega
    obtain rfl : 10 = front := by simpa [AbaWorld.front] using atFront
    decide
  obtain ⟨after, moved, _, ran, _, _, _, _, _, _, kept⟩ := abaWorldReuseStorages_moves false
    (fun tsStorage => if tsStorage = 20 then 1 else 0) ⟨70, 0, 2, 2, [10, 20]⟩
    ⟨rfl, by decide, by simp [AbaWorld.front]⟩ (by decide) ordered
  exact ⟨after, ⟨moved, ran⟩, kept 70 20 (by decide) (Or.inr rfl)⟩

end MulleCore
