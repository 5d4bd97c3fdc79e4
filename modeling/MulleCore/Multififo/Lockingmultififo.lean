import Mathlib.Data.Int.ModEq
import MulleCore.Data.Hash
import MulleCore.Library.Block
import MulleCore.Library.Simulation

/-!
`mulle-lockingpointermultififo.c`. The lock makes a call one step. A result of `none` stands for a
failed `assert` or an access outside of the storage.
-/

namespace MulleCore

open Library

variable {p next : Lockingmultififo} {pointer : Pointer}

def notYet : Pointer := 0xffffffffffffffff

inductive Errno where
  | EINVAL
  | EBUSY
deriving DecidableEq

structure Lockingmultififo where
  n : UInt32
  write : UInt32
  read : UInt32
  size : UInt32
  storage : List Pointer

def lockingmultififoInit (size : UInt32) : Option Lockingmultififo :=
  if 2 ≤ size then some ⟨0, 0, 0, size, List.replicate size.toNat 0⟩ else none

def lockingmultififoReadBarrier (p : Lockingmultififo) : Option (Lockingmultififo × Pointer) :=
  if p.n = 0 then some (p, 0)
  else do
    let pointer ← p.storage[(p.read % p.size).toNat]?
    if pointer = 0 then none
    else some ({ p with n := p.n - 1, read := p.read + 1 }, pointer)

/-- With `errno` where the result is `-1`. -/
def lockingmultififoWrite (p : Lockingmultififo) (pointer : Pointer) :
    Option (Lockingmultififo × Option Errno) :=
  if pointer = 0 then none
  else if pointer = notYet then some (p, some .EINVAL)
  else if p.n = p.size then some (p, some .EBUSY)
  else do
    let storage ← blockWrite p.storage (p.write % p.size).toNat pointer
    some ({ p with storage := storage, n := p.n + 1, write := p.write + 1 }, none)

inductive FifoOp where
  | write (pointer : Pointer) (nonnull : pointer ≠ 0)
  | read

inductive FifoAnswer where
  | wrote (errno : Option Errno)
  | pointer (pointer : Pointer)
deriving DecidableEq

def lockingmultififoStep (p : Lockingmultififo) : FifoOp → Option (Lockingmultififo × FifoAnswer)
  | .write pointer _ =>
    (lockingmultififoWrite p pointer).map fun (next, errno) => (next, .wrote errno)
  | .read => (lockingmultififoReadBarrier p).map fun (next, pointer) => (next, .pointer pointer)

def boundedStep (size : Nat) (pointers : List Pointer) : FifoOp → List Pointer × FifoAnswer
  | .write pointer _ =>
    if pointers.length = size then (pointers, .wrote (some .EBUSY))
    else (pointers ++ [pointer], .wrote none)
  | .read => (pointers.tail, .pointer (pointers.headD 0))

/-- `NOTYET` is not written, and no pointer gets the place of another one that was written before
the counter came back to zero. -/
def WrapSafe (p : Lockingmultififo) : FifoOp → Prop
  | .write pointer _ => pointer ≠ notYet ∧
      ¬ (p.n < p.size ∧ p.write.toNat < 2 ^ 32 % p.size.toNat ∧ 2 ^ 32 % p.size.toNat ≤ p.n.toNat)
  | .read => True

instance (p : Lockingmultififo) (op : FifoOp) : Decidable (WrapSafe p op) := by
  cases op <;> unfold WrapSafe <;> infer_instance

def fifoPlace (p : Lockingmultififo) (k : Nat) : Nat := (p.read.toNat + k) % 2 ^ 32 % p.size.toNat

structure LockingHolds (size : Nat) (pointers : List Pointer) (p : Lockingmultififo) : Prop where
  sized : p.size.toNat = size
  enough : 2 ≤ size
  room : p.storage.length = size
  counted : p.n.toNat = pointers.length
  bounded : pointers.length ≤ size
  cursors : p.write.toNat = (p.read.toNat + pointers.length) % 2 ^ 32
  stored : ∀ k (inside : k < pointers.length), p.storage[fifoPlace p k]? = some pointers[k]
  nonnull : ∀ pointer ∈ pointers, pointer ≠ 0

theorem fifoPlace_ne {size position distance : Nat} (inside : position < 2 ^ 32)
    (positive : 0 < distance) (near : distance < size) (small : size ≤ 2 ^ 32)
    (safe : ¬ ((position + distance) % 2 ^ 32 < 2 ^ 32 % size ∧ 2 ^ 32 % size ≤ distance)) :
    position % size ≠ (position + distance) % 2 ^ 32 % size := by
  intro same
  by_cases before : position + distance < 2 ^ 32
  · rw [Nat.mod_eq_of_lt before] at same
    have divides : size ∣ position + distance - position :=
      (Nat.modEq_iff_dvd' (Nat.le_add_right _ _)).mp same
    rw [Nat.add_sub_cancel_left] at divides
    exact absurd (Nat.le_of_dvd positive divides) (by omega)
  · have wrapped : (position + distance) % 2 ^ 32 = position + distance - 2 ^ 32 := by omega
    rw [wrapped] at same safe
    have divides : size ∣ position - (position + distance - 2 ^ 32) :=
      (Nat.modEq_iff_dvd' (by omega)).mp same.symm
    have rest : position - (position + distance - 2 ^ 32) = 2 ^ 32 - distance := by omega
    rw [rest] at divides
    have remains : distance % size = 2 ^ 32 % size := (Nat.modEq_iff_dvd' (by omega)).mpr divides
    rw [Nat.mod_eq_of_lt near] at remains
    omega

section Steps

variable {size : Nat} {pointers : List Pointer} {p : Lockingmultififo}

theorem LockingHolds.write (holds : LockingHolds size pointers p) {pointer : Pointer}
    (nonnull : pointer ≠ 0) (safe : WrapSafe p (.write pointer nonnull)) :
    ∃ next, lockingmultififoWrite p pointer =
        some (next, if pointers.length = size then some .EBUSY else none) ∧
      LockingHolds size (boundedStep size pointers (.write pointer nonnull)).1 next := by
  have sized := holds.sized
  have enough := holds.enough
  have counted := holds.counted
  have cursors := holds.cursors
  have room := holds.room
  have sizeBound := p.size.toNat_lt
  obtain ⟨proper, apart⟩ := safe
  rw [lockingmultififoWrite, if_neg nonnull, if_neg proper, boundedStep]
  have full : p.n = p.size ↔ pointers.length = size := by
    rw [← UInt32.toNat_inj, counted, sized]
  by_cases busy : pointers.length = size
  · rw [if_pos (full.mpr busy), if_pos busy, if_pos busy]
    exact ⟨p, rfl, holds⟩
  · rw [if_neg (fun same => busy (full.mp same)), if_neg busy, if_neg busy]
    have below := holds.bounded
    have place : (p.write % p.size).toNat = fifoPlace p pointers.length := by
      rw [UInt32.toNat_mod, fifoPlace, cursors]
    have inside : fifoPlace p pointers.length < p.storage.length := by
      rw [room, ← sized]
      exact Nat.mod_lt _ (by omega)
    have countNext : (p.n + 1).toNat = pointers.length + 1 := by
      rw [UInt32.toNat_add, counted]
      exact Nat.mod_eq_of_lt (by change pointers.length + 1 < 2 ^ 32; omega)
    have writeNext : (p.write + 1).toNat = (p.read.toNat + (pointers.length + 1)) % 2 ^ 32 := by
      rw [UInt32.toNat_add, cursors, ← Nat.add_assoc]
      exact Nat.mod_add_mod _ _ _
    rw [place, blockWrite, if_pos inside]
    refine ⟨_, rfl, sized, enough, ?_, ?_, ?_, ?_, ?_, ?_⟩
    · rw [List.length_set, room]
    · rw [countNext, List.length_append, List.length_singleton]
    · rw [List.length_append, List.length_singleton]
      omega
    · rw [writeNext, List.length_append, List.length_singleton]
    · intro k within
      rw [List.length_append, List.length_singleton] at within
      change (p.storage.set (fifoPlace p pointers.length) pointer)[fifoPlace p k]? = _
      by_cases old : k < pointers.length
      · have differ : fifoPlace p k ≠ fifoPlace p pointers.length := by
          have distinct := @fifoPlace_ne size ((p.read.toNat + k) % 2 ^ 32) (pointers.length - k)
            (Nat.mod_lt _ (by decide)) (by omega) (by omega) (by omega)
          rw [Nat.mod_add_mod, Nat.add_assoc, Nat.add_sub_cancel' (by omega), ← cursors] at distinct
          rw [fifoPlace, fifoPlace, sized, ← cursors]
          apply distinct
          rw [UInt32.lt_iff_toNat_lt, sized, counted] at apart
          omega
        rw [List.getElem?_set_ne (Ne.symm differ), holds.stored k old, List.getElem_append_left old]
      · obtain rfl : k = pointers.length := by omega
        rw [List.getElem?_set_self inside, List.getElem_concat_length rfl]
    · intro other member
      rw [List.mem_append, List.mem_singleton] at member
      obtain before | rfl := member
      · exact holds.nonnull other before
      · exact nonnull

theorem LockingHolds.read (holds : LockingHolds size pointers p) :
    ∃ next, lockingmultififoReadBarrier p = some (next, pointers.headD 0) ∧
      LockingHolds size pointers.tail next := by
  have counted := holds.counted
  rw [lockingmultififoReadBarrier]
  cases pointers with
  | nil =>
    have empty : p.n = 0 := by rwa [← UInt32.toNat_inj]
    rw [if_pos empty]
    exact ⟨p, rfl, holds⟩
  | cons pointer rest =>
    have bounded := holds.bounded
    have sizeBound := p.size.toNat_lt
    have sized := holds.sized
    have cursors := holds.cursors
    rw [List.length_cons] at counted bounded cursors
    have nonempty : p.n ≠ 0 := by
      intro empty
      rw [empty] at counted
      exact absurd counted (Nat.zero_ne_add_one _)
    have first := holds.stored 0 (Nat.succ_pos _)
    have place : (p.read % p.size).toNat = fifoPlace p 0 := by
      rw [UInt32.toNat_mod, fifoPlace, Nat.add_zero, Nat.mod_eq_of_lt p.read.toNat_lt]
    have countNext : (p.n - 1).toNat = rest.length := by
      rw [UInt32.toNat_sub_of_le _ _
        (by rw [UInt32.le_iff_toNat_le, counted]; exact Nat.succ_pos _), counted]
      rfl
    have readNext : (p.read + 1).toNat = (p.read.toNat + 1) % 2 ^ 32 := UInt32.toNat_add _ _
    rw [if_neg nonempty, place, first]
    have proper : (pointer :: rest)[0] ≠ 0 := holds.nonnull pointer List.mem_cons_self
    simp only [Option.bind_eq_bind, Option.bind_some, if_neg proper]
    refine ⟨_, rfl, sized, holds.enough, holds.room, countNext, by rw [List.tail_cons]; omega, ?_,
      ?_, ?_⟩
    · rw [readNext, Nat.mod_add_mod, cursors, List.tail_cons, Nat.add_assoc, Nat.add_comm 1]
    · intro k inside
      have later := holds.stored (k + 1) (Nat.succ_lt_succ inside)
      have same : fifoPlace { p with n := p.n - 1, read := p.read + 1 } k = fifoPlace p (k + 1) := by
        rw [fifoPlace, fifoPlace, readNext, Nat.mod_add_mod, Nat.add_assoc, Nat.add_comm 1]
      rw [same]
      exact later
    · exact fun other member => holds.nonnull other (List.mem_of_mem_tail member)

theorem lockingmultififoStep_follows (op : FifoOp) (holds : LockingHolds size pointers p)
    (safe : WrapSafe p op) :
    ∃ next, lockingmultififoStep p op = some (next, (boundedStep size pointers op).2) ∧
      LockingHolds size (boundedStep size pointers op).1 next := by
  cases op with
  | write pointer nonnull =>
    obtain ⟨next, written, nextHolds⟩ := holds.write nonnull safe
    refine ⟨next, ?_, nextHolds⟩
    simp only [lockingmultififoStep, written, boundedStep, Option.map_some]
    by_cases busy : pointers.length = size
    · rw [if_pos busy, if_pos busy]
    · rw [if_neg busy, if_neg busy]
  | read =>
    obtain ⟨next, result, nextHolds⟩ := holds.read
    exact ⟨next, by rw [lockingmultififoStep, result]; rfl, nextHolds⟩

end Steps

theorem lockingmultififoInit_holds {size : UInt32} (enough : 2 ≤ size) :
    ∃ first, lockingmultififoInit size = some first ∧ LockingHolds size.toNat [] first := by
  have large : 2 ≤ size.toNat := UInt32.le_iff_toNat_le.mp enough
  refine ⟨_, if_pos enough, rfl, large, List.length_replicate, rfl, Nat.zero_le _, rfl, ?_, ?_⟩
  · exact fun k inside => absurd inside (Nat.not_lt_zero k)
  · exact fun pointer member => absurd member List.not_mem_nil

/-- The queue is a list of at most `size` pointers, in any run that is safe where the counter
comes back to zero. With a power of two as size only `NOTYET` is not safe. -/
theorem lockingmultififoRun_refines (size : UInt32) (enough : 2 ≤ size) (ops : List FifoOp)
    (safe : ∀ first, lockingmultififoInit size = some first →
      PermittedFrom (fun p op => (lockingmultififoStep p op).map Prod.fst) WrapSafe first ops) :
    ∃ first final, lockingmultififoInit size = some first ∧
      run lockingmultififoStep first ops = some (final, (specRun (boundedStep size.toNat) [] ops).2) ∧
      LockingHolds size.toNat (specRun (boundedStep size.toNat) [] ops).1 final := by
  obtain ⟨first, starts, holds⟩ := lockingmultififoInit_holds enough
  obtain ⟨final, finished, finalHolds⟩ :=
    run_followsFrom (fun pointers p op => lockingmultififoStep_follows op) ops [] first holds
      (safe first starts)
  exact ⟨first, final, starts, finished, finalHolds⟩

theorem lockingmultififoRun_refines_three :
    ∃ first final, lockingmultififoInit 3 = some first ∧
      run lockingmultififoStep first [.write 7 (by decide), .read, .read] =
        some (final, [.wrote none, .pointer 7, .pointer 0]) := by
  obtain ⟨first, final, starts, finished, _⟩ := lockingmultififoRun_refines 3 (by decide)
    [.write 7 (by decide), .read, .read] (by
      rintro first ⟨⟩
      exact ⟨by decide, fun next _ => ⟨trivial, fun _ _ => ⟨trivial, fun _ _ => trivial⟩⟩⟩)
  exact ⟨first, final, starts, finished⟩

def fifoRounds : Nat → List FifoOp
  | 0 => []
  | count + 1 => .write 7 (by decide) :: .read :: fifoRounds count

theorem specRun_fifoRounds (count : Nat) :
    (specRun (boundedStep 3) [] (fifoRounds count)).1 = [] := by
  induction count with
  | zero => rfl
  | succ count ih => exact ih

theorem lockingmultififoWrite_counters
    (wrote : lockingmultififoWrite p pointer = some (next, none)) :
    next.read = p.read ∧ next.write = p.write + 1 := by
  rw [lockingmultififoWrite] at wrote
  split at wrote
  · cases wrote
  · split at wrote
    · cases wrote
    · split at wrote
      · cases wrote
      · obtain ⟨storage, _, result⟩ := Option.bind_eq_some_iff.mp wrote
        cases result
        exact ⟨rfl, rfl⟩

theorem lockingmultififoReadBarrier_counters (some_ : pointer ≠ 0)
    (got : lockingmultififoReadBarrier p = some (next, pointer)) :
    next.read = p.read + 1 ∧ next.write = p.write := by
  rw [lockingmultififoReadBarrier] at got
  split at got
  · cases got
    exact absurd rfl some_
  · obtain ⟨found, _, result⟩ := Option.bind_eq_some_iff.mp got
    split at result
    · cases result
    · cases result
      exact ⟨rfl, rfl⟩

theorem lockingmultififo_fifoRounds (count : Nat) :
    ∀ p : Lockingmultififo, LockingHolds 3 [] p → p.write = p.read →
      ∃ final, run lockingmultififoStep p (fifoRounds count) =
          some (final, (specRun (boundedStep 3) [] (fifoRounds count)).2) ∧
        LockingHolds 3 [] final ∧ final.write = final.read ∧
        final.read = p.read + UInt32.ofNat count := by
  induction count with
  | zero => exact fun p holds same => ⟨p, rfl, holds, same, by simp⟩
  | succ count ih =>
    intro p holds same
    have safe : WrapSafe p (.write 7 (by decide)) := by
      rw [WrapSafe, holds.sized, holds.counted]
      exact ⟨by decide, fun unsafe_ => absurd unsafe_.2.2 (by decide)⟩
    obtain ⟨between, wrote, betweenHolds⟩ := holds.write (by decide) safe
    obtain ⟨next, got, nextHolds⟩ := betweenHolds.read
    obtain ⟨read, write⟩ := lockingmultififoWrite_counters wrote
    obtain ⟨readNext, writeNext⟩ := lockingmultififoReadBarrier_counters (by decide) got
    obtain ⟨final, finished, finalHolds, finalSame, finalRead⟩ :=
      ih next nextHolds (by rw [readNext, writeNext, read, write, same])
    refine ⟨final, ?_, finalHolds, finalSame, ?_⟩
    · simp only [fifoRounds, run, lockingmultififoStep, wrote, got, finished, Option.map_some,
        Option.bind_eq_bind, Option.bind_some]
      rfl
    · rw [finalRead, readNext, read, UInt32.ofNat_add, UInt32.add_assoc, UInt32.add_comm 1]
      rfl

/-- After 2^32 - 1 pointers that were read, two more get the same one of three places. -/
theorem lockingmultififoRun_not_refines :
    ¬ ∀ (size : UInt32) (first : Lockingmultififo) (ops : List FifoOp),
    lockingmultififoInit size = some first →
      ∃ final, run lockingmultififoStep first ops =
        some (final, (specRun (boundedStep size.toNat) [] ops).2) := by
  intro refines
  obtain ⟨count, counts⟩ : ∃ count, UInt32.ofNat count = 0xffffffff := ⟨0xffffffff, rfl⟩
  obtain ⟨first, starts, holds⟩ := lockingmultififoInit_holds (show (2 : UInt32) ≤ 3 by decide)
  obtain ⟨between, rounds, betweenHolds, same, counter⟩ :=
    lockingmultififo_fifoRounds count first holds (by cases starts; rfl)
  obtain ⟨final, finished⟩ := refines 3 first
    (fifoRounds count ++ [.write 1 (by decide), .write 2 (by decide), .read]) starts
  have read : between.read = 0xffffffff := by
    rw [counter, counts]
    cases starts
    rfl
  have last : ∃ other, run lockingmultififoStep between [.write 1 (by decide), .write 2 (by decide),
    .read] =
      some (other, [.wrote none, .wrote none, .pointer 2]) := by
    obtain ⟨sized, _, room, counted, _⟩ := betweenHolds
    obtain ⟨n, write, readNow, size, storage⟩ := between
    obtain rfl : n = 0 := UInt32.toNat_inj.mp counted
    obtain rfl : size = 3 := UInt32.toNat_inj.mp sized
    dsimp only at same read room
    subst same read
    obtain ⟨a, b, c, rfl⟩ := List.length_eq_three.mp room
    refine ⟨⟨1, 1, 0, 3, [2, b, c]⟩, ?_⟩
    have place : ((0xffffffff : UInt32) % 3).toNat = 0 := by decide
    have next : (0xffffffff : UInt32) + 1 = 0 := by decide
    have one : lockingmultififoWrite ⟨0, 0xffffffff, 0xffffffff, 3, [a, b, c]⟩ 1 =
        some (⟨1, 0, 0xffffffff, 3, [1, b, c]⟩, none) := by
      simp only [lockingmultififoWrite, place, next]
      rfl
    have two : lockingmultififoWrite ⟨1, 0, 0xffffffff, 3, [1, b, c]⟩ 2 =
        some (⟨2, 1, 0xffffffff, 3, [2, b, c]⟩, none) := rfl
    have got : lockingmultififoReadBarrier ⟨2, 1, 0xffffffff, 3, [2, b, c]⟩ =
        some (⟨1, 1, 0, 3, [2, b, c]⟩, 2) := by
      simp only [lockingmultififoReadBarrier, place, next]
      rfl
    simp only [run, lockingmultififoStep, one, two, got, Option.map_some, Option.bind_eq_bind,
      Option.bind_some]
  obtain ⟨other, wrong⟩ := last
  have three : (3 : UInt32).toNat = 3 := rfl
  rw [run_append, rounds, specRun_append, three, specRun_fifoRounds, Option.bind_some] at finished
  simp only [wrong, Option.map_some, Option.some.injEq, Prod.mk.injEq,
    List.append_cancel_left_eq] at finished
  exact absurd finished.2 (by decide)

end MulleCore
