import Mathlib.Data.Nat.Digits.Lemmas

/-!
Words of `w` bits that hold small numbers in groups of `k` bits, the first one in the lowest group.
No number is zero, so that the word is at its end when it is zero.
-/

namespace Library

variable {w k : Nat}

structure PacksGroups (k : Nat) (value : BitVec w) (codes : List Nat) : Prop where
  groups : ∀ code ∈ codes, 0 < code ∧ code < 2 ^ k
  word : value.toNat = Nat.ofDigits (2 ^ k) codes

theorem toNat_lowBits (value : BitVec w) (m : Nat) :
    (value &&& ~~~((~~~(0 : BitVec w)) <<< m)).toNat = value.toNat % 2 ^ m := by
  apply Nat.eq_of_testBit_eq
  intro i
  rw [BitVec.testBit_toNat, Nat.testBit_mod_two_pow, BitVec.testBit_toNat]
  by_cases inside : i < w
  · simp [inside, Bool.and_comm]
  · simp [inside, BitVec.getLsbD_of_ge value i (by omega)]

theorem toNat_lowMask (value : BitVec w) (bound : k ≤ w) :
    (value &&& BitVec.ofNat w (2 ^ k - 1)).toNat = value.toNat % 2 ^ k := by
  have fits : (2 ^ k - 1) % 2 ^ w = 2 ^ k - 1 := by
    apply Nat.mod_eq_of_lt
    have := Nat.pow_le_pow_right (show 2 > 0 by decide) bound
    have := Nat.two_pow_pos k
    omega
  rw [BitVec.toNat_and, BitVec.toNat_ofNat, fits, Nat.and_two_pow_sub_one_eq_mod]

/-- A test against a mask of high bits is a comparison with a power of two. -/
theorem and_mask_ne_zero_iff (value mask : BitVec w) (low high : Nat) (bound : value.toNat < 2 ^ high)
    (set : ∀ i, low ≤ i → i < high → mask.getLsbD i = true)
    (clear : ∀ i, i < low → mask.getLsbD i = false) :
    value &&& mask ≠ 0 ↔ 2 ^ low ≤ value.toNat := by
  constructor
  · intro nonzero
    by_contra small
    apply nonzero
    apply BitVec.eq_of_getLsbD_eq
    intro i inside
    rcases Nat.lt_or_ge i low with below | above
    · simp [clear i below]
    · have high : value.toNat.testBit i = false :=
        Nat.testBit_lt_two_pow
          (Nat.lt_of_lt_of_le (by omega) (Nat.pow_le_pow_right (by decide) above))
      simp [BitVec.testBit_toNat] at high
      simp [high]
  · intro large zero
    obtain ⟨i, above, bit⟩ := Nat.exists_ge_and_testBit_of_ge_two_pow large
    have below : i < high := by
      by_contra outside
      have := Nat.pow_le_pow_right (show 2 > 0 by decide) (Nat.le_of_not_lt outside)
      rw [Nat.testBit_lt_two_pow (by omega)] at bit
      contradiction
    have both : (value &&& mask).getLsbD i = true := by
      rw [BitVec.testBit_toNat] at bit
      simp [bit, set i above below]
    simp [zero] at both

namespace PacksGroups

variable {value other : BitVec w} {code : Nat} {codes : List Nat}

theorem nil : PacksGroups k (0 : BitVec w) [] := ⟨by simp, by simp⟩

theorem unique (packs : PacksGroups k value codes) (packsOther : PacksGroups k other codes) :
    value = other :=
  BitVec.eq_of_toNat_eq (packs.word.trans packsOther.word.symm)

section

variable (packs : PacksGroups k value (code :: codes))
include packs

theorem rest : ∀ code ∈ codes, 0 < code ∧ code < 2 ^ k := by
  intro other found
  exact packs.groups other (by simp [found])

theorem low : value.toNat % 2 ^ k = code := by
  have small := (packs.groups code (by simp)).2
  rw [packs.word, Nat.ofDigits_cons, Nat.add_mul_mod_self_left, Nat.mod_eq_of_lt small]

theorem head (bound : k ≤ w) :
    (value &&& BitVec.ofNat w (2 ^ k - 1)).toNat = code := by
  rw [toNat_lowMask value bound, packs.low]

theorem tail : PacksGroups k (value >>> k) codes := by
  refine ⟨packs.rest, ?_⟩
  have small := (packs.groups code (by simp)).2
  rw [BitVec.toNat_ushiftRight, Nat.shiftRight_eq_div_pow, packs.word, Nat.ofDigits_cons,
    Nat.add_mul_div_left _ _ (Nat.two_pow_pos k), Nat.div_eq_of_lt small, Nat.zero_add]

theorem ne_zero : value ≠ 0 := by
  rintro rfl
  have positive := (packs.groups code (by simp)).1
  have low := packs.low
  simp at low
  omega

end

section

variable (packs : PacksGroups k value codes)
include packs

theorem eq_zero_iff : value = 0 ↔ codes = [] := by
  cases codes with
  | nil => simpa using packs.unique nil
  | cons code codes => simpa using packs.ne_zero

theorem drop (count : Nat) :
    PacksGroups k (value >>> (count * k)) (codes.drop count) := by
  induction codes generalizing value count with
  | nil =>
    have zero : value = 0 := packs.eq_zero_iff.mpr rfl
    simpa [zero] using nil
  | cons code codes ih =>
    cases count with
    | zero => simpa using packs
    | succ count =>
      have later := ih packs.tail count
      rw [← BitVec.shiftRight_add] at later
      rwa [List.drop_succ_cons, show (count + 1) * k = k + count * k by ring]

theorem lt : value.toNat < 2 ^ (k * codes.length) := by
  induction codes generalizing value with
  | nil => simp [packs.eq_zero_iff.mpr rfl]
  | cons code codes ih =>
    have later := ih packs.tail
    rw [BitVec.toNat_ushiftRight, Nat.shiftRight_eq_div_pow,
      Nat.div_lt_iff_lt_mul (Nat.two_pow_pos k), ← Nat.pow_add] at later
    rwa [List.length_cons, Nat.mul_succ]

theorem take (count : Nat) :
    PacksGroups k (value &&& ~~~((~~~(0 : BitVec w)) <<< (count * k))) (codes.take count) := by
  refine ⟨fun code found => packs.groups code (List.mem_of_mem_take found), ?_⟩
  rw [toNat_lowBits, packs.word, Nat.mul_comm, Nat.pow_mul]
  exact Nat.ofDigits_mod_pow_eq_ofDigits_take _ (Nat.two_pow_pos k) _ fun code found =>
    (packs.groups code found).2

theorem lt_iff (count : Nat) :
    value.toNat < 2 ^ (k * count) ↔ codes.length ≤ count := by
  constructor
  · intro small
    have shifted := packs.drop count
    have zero : value >>> (count * k) = 0 := by
      apply BitVec.eq_of_toNat_eq
      rw [BitVec.toNat_ushiftRight, Nat.shiftRight_eq_div_pow, Nat.mul_comm, Nat.div_eq_of_lt small]
      rfl
    simpa using shifted.eq_zero_iff.mp zero
  · intro short
    exact Nat.lt_of_lt_of_le packs.lt (Nat.pow_le_pow_right (by decide) (Nat.mul_le_mul_left k short))

theorem shiftLeft (room : k * (codes.length + 1) ≤ w) :
    (value <<< k).toNat = value.toNat * 2 ^ k := by
  have bound : value.toNat * 2 ^ k < 2 ^ w := by
    calc value.toNat * 2 ^ k < 2 ^ (k * codes.length) * 2 ^ k :=
          Nat.mul_lt_mul_of_pos_right packs.lt (Nat.two_pow_pos k)
      _ = 2 ^ (k * (codes.length + 1)) := by rw [← Nat.pow_add, Nat.mul_succ]
      _ ≤ 2 ^ w := Nat.pow_le_pow_right (by decide) room
  rw [BitVec.toNat_shiftLeft, Nat.shiftLeft_eq, Nat.mod_eq_of_lt bound]

theorem shiftLeft_back (room : k * (codes.length + 1) ≤ w) :
    value <<< k >>> k = value := by
  apply BitVec.eq_of_toNat_eq
  rw [BitVec.toNat_ushiftRight, packs.shiftLeft room, Nat.shiftRight_eq_div_pow,
    Nat.mul_div_cancel _ (Nat.two_pow_pos k)]

end

theorem cons (packs : PacksGroups k value codes)
    (room : k * (codes.length + 1) ≤ w) (positive : 0 < code) (small : code < 2 ^ k) :
    PacksGroups k (value <<< k ||| BitVec.ofNat w code) (code :: codes) := by
  constructor
  · intro other found
    rcases List.mem_cons.mp found with rfl | found
    · exact ⟨positive, small⟩
    · exact packs.groups other found
  · have narrow : 2 ^ k ≤ 2 ^ w :=
      Nat.pow_le_pow_right (by decide) (Nat.le_trans (Nat.le_mul_of_pos_right k (by omega)) room)
    rw [BitVec.toNat_or, BitVec.toNat_ofNat, Nat.mod_eq_of_lt (by omega), packs.shiftLeft room,
      ← Nat.shiftLeft_eq, ← Nat.shiftLeft_add_eq_or_of_lt small, Nat.ofDigits_cons, packs.word,
      Nat.shiftLeft_eq]
    ring

end PacksGroups

theorem exists_packsGroups {value : BitVec w} (positive : 0 < k)
    (full : ∀ i j, i < j → value.toNat / 2 ^ (k * j) % 2 ^ k ≠ 0 →
      value.toNat / 2 ^ (k * i) % 2 ^ k ≠ 0) :
    ∃ codes, PacksGroups k value codes := by
  have base : 1 < 2 ^ k := Nat.one_lt_two_pow (by omega)
  refine ⟨Nat.digits (2 ^ k) value.toNat, ?_, (Nat.ofDigits_digits _ _).symm⟩
  intro code found
  refine ⟨?_, Nat.digits_lt_base base found⟩
  obtain ⟨i, inside, rfl⟩ := List.mem_iff_getElem.mp found
  have digit (j : Nat) := Nat.getD_digits value.toNat j base
  have nonempty : Nat.digits (2 ^ k) value.toNat ≠ [] := List.ne_nil_of_length_pos (by omega)
  have highest : (Nat.digits (2 ^ k) value.toNat).getLast nonempty ≠ 0 :=
    Nat.getLast_digit_ne_zero _ (by rintro zero; simp [zero] at nonempty)
  rw [List.getLast_eq_getElem] at highest
  apply Nat.pos_of_ne_zero
  rcases Nat.lt_or_ge i ((Nat.digits (2 ^ k) value.toNat).length - 1) with below | last
  · have lower := full i _ below
    have top : (Nat.digits (2 ^ k) value.toNat).length - 1 <
      (Nat.digits (2 ^ k) value.toNat).length := by omega
    rw [Nat.pow_mul, Nat.pow_mul, ← digit, ← digit] at lower
    simp only [List.getD_eq_getElem?_getD, List.getElem?_eq_getElem inside,
      List.getElem?_eq_getElem top, Option.getD_some] at lower
    exact lower highest
  · have same : i = (Nat.digits (2 ^ k) value.toNat).length - 1 := by omega
    simpa only [same] using highest

end Library
