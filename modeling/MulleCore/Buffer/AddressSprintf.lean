import Mathlib.Data.Nat.Log
import MulleCore.Buffer.AddressBuffer

/-!
When `mulle_sprintf` of a string writes it. The sentinel of the buffer is far behind the bytes that
are there, but the check for a string inside of the buffer takes it for real.
-/

namespace MulleCore

section Reach

variable {buf : Nat}

/-- How far the sentinel is behind `buf`: `INT_MAX`, or less in front of the end of the memory. -/
def sprintfReach (buf : Nat) : Nat := 2 ^ min 31 (Nat.log 2 (2 ^ 64 - buf)) - 1

theorem addressHalved_eq (inside : buf < 2 ^ 64) {j : Nat} (few : j ≤ 31) :
    addressHalved buf (2 ^ j - 1) = 2 ^ min j (Nat.log 2 (2 ^ 64 - buf)) - 1 := by
  induction j with
  | zero =>
    rw [addressHalved, if_neg (by simp)]
    simp
  | succ j ih =>
    have power : 0 < 2 ^ j := Nat.two_pow_pos j
    have double : 2 ^ (j + 1) = 2 * 2 ^ j := Nat.pow_succ'
    have limit : 2 ^ (j + 1) ≤ 2 ^ 31 := Nat.pow_le_pow_right (by decide) few
    by_cases fits : 2 ^ (j + 1) ≤ 2 ^ 64 - buf
    · have least : j + 1 ≤ Nat.log 2 (2 ^ 64 - buf) := Nat.le_log_of_pow_le (by decide) fits
      have sum : addressAdd buf (2 ^ (j + 1) - 1) = buf + (2 ^ (j + 1) - 1) :=
        Nat.mod_eq_of_lt (by omega)
      rw [addressHalved, sum, if_neg (by omega), Nat.min_eq_left least]
    · have most : Nat.log 2 (2 ^ 64 - buf) < j + 1 := Nat.log_lt_of_lt_pow (by omega) (by omega)
      have sum : addressAdd buf (2 ^ (j + 1) - 1) < buf := by
        rw [addressAdd]
        omega
      have half : (2 ^ (j + 1) - 1) / 2 = 2 ^ j - 1 := by omega
      have same : min (j + 1) (Nat.log 2 (2 ^ 64 - buf)) = min j (Nat.log 2 (2 ^ 64 - buf)) := by
        omega
      rw [addressHalved, if_pos ⟨by omega, sum⟩, half, ih (by omega), same]

theorem sprintfReach_bounds (inside : buf < 2 ^ 64) : buf + sprintfReach buf < 2 ^ 64 ∧
    sprintfReach buf ≤ intMax ∧
    (sprintfReach buf = intMax ∨ 2 ^ 64 ≤ buf + 2 * sprintfReach buf + 1) ∧
    (sprintfReach buf % 8 = 7 ∨ sprintfReach buf ≤ 3) := by
  obtain ⟨j, jEq⟩ : ∃ j, min 31 (Nat.log 2 (2 ^ 64 - buf)) = j := ⟨_, rfl⟩
  have power : 0 < 2 ^ j := Nat.two_pow_pos j
  have below : 2 ^ j ≤ 2 ^ 64 - buf :=
    (Nat.pow_le_pow_right (by decide) (by omega)).trans (Nat.pow_log_le_self 2 (by omega))
  have limit : 2 ^ j ≤ 2 ^ 31 := Nat.pow_le_pow_right (by decide) (by omega)
  rw [sprintfReach, jEq, intMax]
  refine ⟨by omega, by omega, ?_, ?_⟩
  · by_cases far : j = 31
    · left
      rw [far]
    · right
      have next : 2 ^ 64 - buf < 2 ^ (j + 1) := Nat.lt_pow_of_log_lt (by decide) (by omega)
      rw [Nat.pow_succ] at next
      omega
  · by_cases small : j < 3
    · right
      have most : 2 ^ j ≤ 2 ^ 2 := Nat.pow_le_pow_right (by decide) (by omega)
      omega
    · left
      obtain ⟨more, rfl⟩ := Nat.exists_eq_add_of_le (by omega : 3 ≤ j)
      have some : 0 < 2 ^ more := Nat.two_pow_pos more
      rw [Nat.pow_add]
      omega

theorem addressBufferInit_eq (positive : buf ≠ 0) (inside : buf < 2 ^ 64) :
    addressBufferInit buf intMax = ⟨buf, buf, buf + sprintfReach buf, sprintfReach buf, 5⟩ := by
  have reach : addressHalved buf intMax = sprintfReach buf := addressHalved_eq inside le_rfl
  have sum : addressAdd buf (sprintfReach buf) = buf + sprintfReach buf :=
    Nat.mod_eq_of_lt (sprintfReach_bounds inside).1
  simp only [addressBufferInit, if_true, if_neg positive, reach, sum]

end Reach

section Copies

variable {memory : Nat → UInt8} {buf s n : Nat}
variable {k fuel reach : Nat}

structure StringAt (memory : Nat → UInt8) (s n : Nat) : Prop where
  pointer : s ≠ 0
  nonzero : ∀ i < n, memory (s + i) ≠ 0
  ends : memory (s + n) = 0
  inside : s + n < 2 ^ 64

def addressCopied (memory : Nat → UInt8) (buf s n : Nat) : Nat → UInt8 :=
  fun a => if buf ≤ a ∧ a < buf + n then memory (s + (a - buf)) else memory a

structure SprintfApart (memory : Nat → UInt8) (buf s n : Nat) : Prop where
  text : StringAt memory s n
  apart : s + n < buf ∨ buf + n < s
  room : buf + n < 2 ^ 64

theorem addressCopied_zero (memory : Nat → UInt8) (buf s : Nat) :
    addressCopied memory buf s 0 = memory := by
  funext a
  rw [addressCopied, if_neg (by omega)]

theorem SprintfApart.source (apart : SprintfApart memory buf s n) (most : k ≤ n) {i : Nat}
    (inside : i ≤ n) :
    addressCopied memory buf s k (s + i) = memory (s + i) := by
  have outside := apart.apart
  rw [addressCopied, if_neg (by omega)]

theorem addressCopied_next (memory : Nat → UInt8) (buf s k : Nat) :
    Function.update (addressCopied memory buf s k) (buf + k) (memory (s + k)) =
      addressCopied memory buf s (k + 1) := by
  funext a
  rw [Function.update_apply, addressCopied, addressCopied]
  by_cases here : a = buf + k
  · rw [if_pos here, if_pos (by omega), here, Nat.add_sub_cancel_left]
  · rw [if_neg here]
    by_cases before : buf ≤ a ∧ a < buf + k
    · rw [if_pos before, if_pos (by omega)]
    · rw [if_neg before, if_neg (by omega)]

theorem addressAdd_one {p : Nat} (inside : p + 1 < 2 ^ 64) : addressAdd p 1 = p + 1 :=
  Nat.mod_eq_of_lt inside

theorem SprintfApart.block (apart : SprintfApart memory buf s n) (count : Nat) (most : k ≤ n) :
    addressAddBlock count (addressCopied memory buf s k) (buf + k) (s + k) =
      if n < k + count then (addressCopied memory buf s n, buf + n, addressAdd (s + n) 1, true)
      else (addressCopied memory buf s (k + count), buf + (k + count), s + (k + count), false) := by
  have room := apart.room
  have inside := apart.text.inside
  induction count generalizing k with
  | zero => rw [addressAddBlock, if_neg (by omega), Nat.add_zero]
  | succ count ih =>
    rw [addressAddBlock, apart.source most most]
    by_cases last : k = n
    · rw [last, if_pos apart.text.ends, if_pos (by omega)]
    · have more : k + 1 ≤ n := by omega
      rw [if_neg (apart.text.nonzero k (by omega)), addressCopied_next, addressAdd_one (by omega),
        addressAdd_one (by omega), Nat.add_assoc, Nat.add_assoc, ih more, Nat.add_right_comm,
        Nat.add_assoc]

theorem addressAddSlow_overflown {m : Nat → UInt8} {buffer : AddressBuffer} (text : StringAt m s n)
    (overflown : buffer.hasOverflown = true) (most : k ≤ n) (enough : n - k < fuel) :
    addressAddSlow fuel m buffer (s + k) = some (m, buffer) := by
  have inside := text.inside
  induction fuel generalizing k with
  | zero => omega
  | succ fuel ih =>
    rw [addressAddSlow]
    by_cases last : k = n
    · rw [last, if_pos text.ends]
    · have full : buffer.isFull = true := by simp [AddressBuffer.isFull, overflown]
      rw [if_neg (text.nonzero k (by omega)), AddressBuffer.addByte, if_pos full, if_pos overflown]
      dsimp only
      rw [addressAdd_one (by omega), Nat.add_assoc]
      exact ih (by omega) (by omega)

def sprintfBuffer (buf reach k : Nat) : AddressBuffer := ⟨buf, buf + k, buf + reach, reach, 5⟩

theorem sprintfBuffer_hasOverflown (buf reach k : Nat) :
    (sprintfBuffer buf reach k).hasOverflown = false := by
  have type : (sprintfBuffer buf reach k).type = 5 := rfl
  rw [AddressBuffer.hasOverflown, type]
  decide

theorem sprintfBuffer_setOverflown (buf reach k : Nat) :
    (sprintfBuffer buf reach k).setOverflown.hasOverflown = true := by
  have type : (sprintfBuffer buf reach k).setOverflown.type = 5 ||| 8 := rfl
  rw [AddressBuffer.hasOverflown, type]
  decide

theorem sprintfBuffer_isFull (positive : buf ≠ 0) :
    (sprintfBuffer buf reach k).isFull = decide (reach ≤ k) := by
  rw [AddressBuffer.isFull, sprintfBuffer_hasOverflown]
  simp [sprintfBuffer, positive]

structure SprintfAdds (memory : Nat → UInt8) (buf s n reach : Nat) (fits : Prop)
    (result : Option ((Nat → UInt8) × AddressBuffer)) : Prop where
  written : fits → result = some (addressCopied memory buf s n, sprintfBuffer buf reach n)
  lost : ¬ fits → ∃ next buffer, result = some (next, buffer) ∧ buffer.hasOverflown = true

theorem SprintfApart.slow (apart : SprintfApart memory buf s n) (positive : buf ≠ 0)
    (most : k ≤ n) (inside : k ≤ reach) (enough : n - k < fuel) :
    SprintfAdds memory buf s n reach (n ≤ reach)
      (addressAddSlow fuel (addressCopied memory buf s k) (sprintfBuffer buf reach k) (s + k)) := by
  have room := apart.room
  have behind := apart.text.inside
  induction fuel generalizing k with
  | zero => omega
  | succ fuel ih =>
    rw [addressAddSlow, apart.source most most]
    by_cases last : k = n
    · rw [last, if_pos apart.text.ends]
      exact ⟨fun _ => rfl, fun lost => absurd (last ▸ inside) lost⟩
    · rw [if_neg (apart.text.nonzero k (by omega)), AddressBuffer.addByte,
        sprintfBuffer_isFull positive]
      by_cases full : reach ≤ k
      · have text : StringAt (addressCopied memory buf s k) s n :=
          ⟨apart.text.pointer, fun i less => by
            rw [apart.source most less.le]
            exact apart.text.nonzero i less, by
              rw [apart.source most le_rfl]; exact apart.text.ends, behind⟩
        have set := sprintfBuffer_setOverflown buf reach k
        have rest := addressAddSlow_overflown text set (by omega : k + 1 ≤ n)
          (by omega : n - (k + 1) < fuel)
        simp only [full, decide_true, if_true, sprintfBuffer_hasOverflown, Bool.false_eq_true,
          if_false]
        rw [addressAdd_one (by omega), Nat.add_assoc, rest]
        exact ⟨fun fits => by omega, fun _ => ⟨_, _, rfl, set⟩⟩
      · simp only [full, decide_false, Bool.false_eq_true, if_false]
        have next := ih (by omega : k + 1 ≤ n) (by omega) (by omega)
        have moved : { sprintfBuffer buf reach k with curr := addressAdd (sprintfBuffer buf reach k).curr 1 } =
            sprintfBuffer buf reach (k + 1) := by
          have sum : addressAdd (buf + k) 1 = buf + (k + 1) := addressAdd_one (by omega)
          rw [sprintfBuffer, sprintfBuffer, ← sum]
        rw [moved, addressAdd_one (by omega), Nat.add_assoc]
        have curr : (sprintfBuffer buf reach k).curr = buf + k := rfl
        rw [curr, addressCopied_next]
        exact next

/-- The string fits. In the last seven bytes of the memory the check for eight more bytes wraps
around. -/
def SprintfFits (buf n : Nat) : Prop := n ≤ sprintfReach buf ∨ 2 ^ 64 - 7 ≤ buf

theorem SprintfApart.fast (apart : SprintfApart memory buf s n) (positive : buf ≠ 0) (most : k ≤ n)
    (inside : k ≤ sprintfReach buf) (aligned : k % 8 = 0) (enough : n - k + 1 < fuel) :
    SprintfAdds memory buf s n (sprintfReach buf) (SprintfFits buf n)
      (addressAddFast fuel (addressCopied memory buf s k) (sprintfBuffer buf (sprintfReach buf) 0)
        (buf + k) (s + k)) := by
  have room := apart.room
  obtain ⟨sentinel, -, far, whole⟩ := sprintfReach_bounds (by omega : buf < 2 ^ 64)
  have target : (sprintfBuffer buf (sprintfReach buf) 0).sentinel = buf + sprintfReach buf := rfl
  induction fuel generalizing k with
  | zero => omega
  | succ fuel ih =>
    rw [addressAddFast, target]
    by_cases tight : addressAdd (buf + k) 8 > buf + sprintfReach buf
    · have same : SprintfFits buf n ↔ n ≤ sprintfReach buf := by
        rw [SprintfFits, or_iff_left_iff_imp]
        intro last
        rw [addressAdd] at tight
        omega
      have slow := apart.slow positive most inside (by omega : n - k < fuel)
      rw [if_pos (.inr tight)]
      rw [← same] at slow
      exact slow
    · rw [if_neg (by omega), apart.block 8 most]
      rw [addressAdd] at tight
      by_cases last : n < k + 8
      · have fits : SprintfFits buf n := by
          rw [SprintfFits]
          rw [intMax] at far
          omega
        simp only [if_pos last, if_true]
        exact ⟨fun _ => rfl, fun lost => absurd fits lost⟩
      · simp only [if_neg last, Bool.false_eq_true, if_false]
        exact ih (by omega) (by omega) (by omega) (by omega)

end Copies

section Sprintf

variable {memory : Nat → UInt8} {buf s n : Nat}

def SprintfReferences (buf s : Nat) : Prop := buf ≤ s ∧ s < buf + sprintfReach buf

theorem sprintfBuffer_selfReferencing (positive : buf ≠ 0) (reach : Nat) :
    (sprintfBuffer buf reach 0).selfReferencing s =
      if buf ≤ s ∧ s < buf + reach then (true, (sprintfBuffer buf reach 0).setOverflown)
      else (false, sprintfBuffer buf reach 0) := by
  have storage : (sprintfBuffer buf reach 0).storage ≠ 0 := positive
  rw [AddressBuffer.selfReferencing, sprintfBuffer_hasOverflown, if_neg (by decide), if_neg storage]
  rfl

theorem SprintfApart.addStringWithin (apart : SprintfApart memory buf s n) (positive : buf ≠ 0)
    {fuel : Nat} (enough : n + 1 < fuel) :
    SprintfAdds memory buf s n (sprintfReach buf) (¬ SprintfReferences buf s ∧ SprintfFits buf n)
      (addressAddStringWithin fuel memory (addressBufferInit buf intMax) s) := by
  have room := apart.room
  have init : addressBufferInit buf intMax = sprintfBuffer buf (sprintfReach buf) 0 :=
    addressBufferInit_eq positive (by omega)
  rw [addressAddStringWithin, init, sprintfBuffer_selfReferencing positive]
  by_cases references : buf ≤ s ∧ s < buf + sprintfReach buf
  · have overflown := sprintfBuffer_setOverflown buf (sprintfReach buf) 0
    rw [if_pos references]
    exact ⟨fun fits => absurd references fits.1, fun _ => ⟨_, _, rfl, overflown⟩⟩
  · have fast := apart.fast positive (Nat.zero_le n) (Nat.zero_le _) rfl enough
    simp only [addressCopied_zero, Nat.add_zero] at fast
    rw [if_neg references]
    exact ⟨fun fits => fast.written fits.2, fun lost => fast.lost fun fits => lost ⟨references, fits⟩⟩

theorem SprintfApart.addString (apart : SprintfApart memory buf s n) (positive : buf ≠ 0) :
    SprintfAdds memory buf s n (sprintfReach buf) (¬ SprintfReferences buf s ∧ SprintfFits buf n)
      (addressAddString memory (addressBufferInit buf intMax) s) := by
  have inside := apart.text.inside
  rw [addressAddString]
  exact apart.addStringWithin positive (by omega)

theorem sprintfBuffer_getLength (positive : buf ≠ 0) (reach k : Nat) :
    (sprintfBuffer buf reach k).getLength = k := by
  have curr : (sprintfBuffer buf reach k).curr = buf + k := rfl
  have storage : (sprintfBuffer buf reach k).storage = buf := rfl
  rw [AddressBuffer.getLength, sprintfBuffer_hasOverflown, curr, storage, if_neg (by decide),
    if_neg (by omega), Nat.add_sub_cancel_left]

theorem SprintfApart.makeString (apart : SprintfApart memory buf s n) (positive : buf ≠ 0)
    (reach : Nat) :
    addressMakeString (addressCopied memory buf s n) (sprintfBuffer buf reach n) =
      if reach = 0 then none
      else if n = reach then some (Function.update (addressCopied memory buf s n) (buf + n - 1) 0, 1)
      else some (Function.update (addressCopied memory buf s n) (buf + n) 0, 0) := by
  have room := apart.room
  have curr : (sprintfBuffer buf reach n).curr = buf + n := rfl
  have storage : (sprintfBuffer buf reach n).storage = buf := rfl
  have sentinel : (sprintfBuffer buf reach n).sentinel = buf + reach := rfl
  have last : ¬ (n ≠ 0 ∧ addressCopied memory buf s n (addressAdd buf (n - 1)) = 0) := by
    rintro ⟨more, zero⟩
    have position : addressAdd buf (n - 1) = buf + (n - 1) := Nat.mod_eq_of_lt (by omega)
    rw [position, addressCopied, if_pos (by omega), Nat.add_sub_cancel_left] at zero
    exact apart.text.nonzero (n - 1) (by omega) zero
  have inflexible : (sprintfBuffer buf reach n).isInflexible = true := by
    have type : (sprintfBuffer buf reach n).type = 5 := rfl
    rw [AddressBuffer.isInflexible, type]
    decide
  have void : (sprintfBuffer buf reach n).isVoid = decide (reach = 0) := by
    rw [AddressBuffer.isVoid, storage, sentinel]
    exact decide_eq_decide.mpr (by omega)
  rw [addressMakeString, sprintfBuffer_getLength positive, storage, if_neg last, inflexible, void,
    sprintfBuffer_isFull positive]
  by_cases none : reach = 0
  · simp [none]
  · by_cases full : reach ≤ n
    · simp only [none, full, decide_true, decide_false, Bool.false_eq_true, and_false, if_false,
        and_self, if_true, addressZeroLastByte, void, sprintfBuffer_hasOverflown, curr, sentinel,
        Nat.add_left_cancel_iff]
      split <;> rfl
    · have other : n ≠ reach := by omega
      simp only [none, full, decide_false, Bool.false_eq_true, and_false, if_false, other,
        AddressBuffer.addByte, sprintfBuffer_isFull positive, curr]

theorem SprintfApart.sprintf (apart : SprintfApart memory buf s n) (positive : buf ≠ 0)
    (clear : ¬ SprintfReferences buf s ∧ SprintfFits buf n) :
    addressSprintfString memory buf s =
      if sprintfReach buf = 0 then none
      else if n = sprintfReach buf then
        some (Function.update (addressCopied memory buf s n) (buf + n - 1) 0, -1)
      else some (Function.update (addressCopied memory buf s n) (buf + n) 0, (n : Int)) := by
  have room := apart.room
  have added := (apart.addString positive).written clear
  have before : (addressBufferInit buf intMax).getLength = 0 := by
    rw [addressBufferInit_eq positive (by omega)]
    exact sprintfBuffer_getLength positive _ 0
  have known : ¬ (buf = 0 ∨ intMax = 0) := by simp [positive, intMax]
  rw [addressSprintfString, addressVsnprintfString, if_neg known, addressVsprintfString, added]
  simp only [Option.bind_eq_bind, Option.bind_some, sprintfBuffer_hasOverflown, Bool.false_eq_true,
    if_false, apart.makeString positive, before, sprintfBuffer_getLength positive]
  split
  · rfl
  · split
    · rfl
    · simp

def SprintfWrites (memory : Nat → UInt8) (buf s n : Nat) : Prop :=
  (∃ buffer, addressAddString memory (addressBufferInit buf intMax) s =
    some (addressCopied memory buf s n, buffer) ∧
    buffer.hasOverflown = false ∧ buffer.getLength = n) ∧
    addressSprintfString memory buf s = some (Function.update (addressCopied memory buf s n)
      (buf + n) 0, (n : Int))

/-- There is room, the string is not where the buffer seems to be, and it does not end at the
sentinel. -/
def SprintfClear (buf s n : Nat) : Prop :=
  buf ≠ 0 ∧ ¬ SprintfReferences buf s ∧ SprintfFits buf n ∧ n ≠ sprintfReach buf

theorem sprintfReach_pos {n : Nat} (room : buf + n < 2 ^ 64) (other : n ≠ sprintfReach buf) :
    sprintfReach buf ≠ 0 := by
  obtain ⟨-, -, far, -⟩ := sprintfReach_bounds (by omega : buf < 2 ^ 64)
  rw [intMax] at far
  omega

/-- The string is written if and only if the code does not take the sentinel for real. -/
theorem addressSprintfString_writes_iff (apart : SprintfApart memory buf s n) :
    SprintfWrites memory buf s n ↔ SprintfClear buf s n := by
  constructor
  · rintro ⟨⟨buffer, added, kept, -⟩, written⟩
    have positive : buf ≠ 0 := by
      rintro rfl
      rw [addressSprintfString, addressVsnprintfString, if_pos (.inl rfl)] at written
      have result := congrArg Prod.snd (Option.some.inj written)
      dsimp only at result
      omega
    have clear : ¬ SprintfReferences buf s ∧ SprintfFits buf n := by
      by_contra lost
      obtain ⟨next, other, result, overflown⟩ := (apart.addString positive).lost lost
      rw [added] at result
      obtain ⟨-, rfl⟩ := Prod.mk.inj (Option.some.inj result)
      rw [kept] at overflown
      cases overflown
    refine ⟨positive, clear.1, clear.2, ?_⟩
    intro same
    rw [apart.sprintf positive clear, if_pos same] at written
    split at written
    · cases written
    · have result := congrArg Prod.snd (Option.some.inj written)
      dsimp only at result
      omega
  · rintro ⟨positive, references, fits, other⟩
    have sprintf := apart.sprintf positive ⟨references, fits⟩
    rw [if_neg (sprintfReach_pos apart.room other), if_neg other] at sprintf
    exact ⟨⟨_, (apart.addString positive).written ⟨references, fits⟩,
      sprintfBuffer_hasOverflown _ _ _, sprintfBuffer_getLength positive _ _⟩, sprintf⟩

theorem stringAt_single {s : Nat} (pointer : s ≠ 0) (inside : s + 1 < 2 ^ 64) :
    StringAt (fun a => if a = s then 0x61 else 0) s 1 := by
  refine ⟨pointer, ?_, ?_, inside⟩
  · intro i less
    obtain rfl : i = 0 := by omega
    simp
  · simp

theorem addressSprintfString_writes_front :
    SprintfApart (fun a => if a = 0x1000 then 0x61 else 0) 0x2000 0x1000 1 ∧
      (SprintfWrites (fun a => if a = 0x1000 then 0x61 else 0) 0x2000 0x1000 1 ↔
        SprintfClear 0x2000 0x1000 1) :=
  have apart : SprintfApart (fun a => if a = 0x1000 then 0x61 else 0) 0x2000 0x1000 1 :=
    ⟨stringAt_single (by decide) (by decide), .inl (by decide), by decide⟩
  ⟨apart, addressSprintfString_writes_iff apart⟩

/-- A string a page behind the buffer is taken for a part of it. -/
theorem addressSprintfString_loses :
    ¬ ∀ memory buf s n, SprintfApart memory buf s n → SprintfWrites memory buf s n := by
  intro always
  have apart : SprintfApart (fun a => if a = 0x2000 then 0x61 else 0) 0x1000 0x2000 1 :=
    ⟨stringAt_single (by decide) (by decide), .inr (by decide), by decide⟩
  obtain ⟨-, most, far, -⟩ := sprintfReach_bounds (by decide : 0x1000 < 2 ^ 64)
  have references : SprintfReferences 0x1000 0x2000 := by
    rw [SprintfReferences]
    rw [intMax] at most far
    omega
  obtain ⟨⟨buffer, added, kept, -⟩, -⟩ := always _ _ _ _ apart
  obtain ⟨next, other, result, overflown⟩ :=
    (apart.addString (by decide)).lost fun clear => clear.1 references
  rw [added] at result
  obtain ⟨-, rfl⟩ := Prod.mk.inj (Option.some.inj result)
  rw [kept] at overflown
  cases overflown

end Sprintf

end MulleCore
