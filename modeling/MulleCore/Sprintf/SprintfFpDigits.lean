import MulleCore.Library.Rounding
import MulleCore.Sprintf.SprintfFp

/-!
The digits that the `e` and the `f` conversion write, and how the significand is rounded for them.
-/

namespace MulleCore

open Library

section Count

theorem countDigitsFrom_eq {rounds c n : Nat} (enough : c < rounds) (least : 10 ^ c ≤ n)
    (below : n < 10 ^ (c + 1)) :
    countDigitsFrom rounds n = c + 1 := by
  induction c generalizing rounds n with
  | zero =>
    obtain ⟨more, rfl⟩ := Nat.exists_eq_succ_of_ne_zero (by omega : rounds ≠ 0)
    have zero : n / 10 = 0 := Nat.div_eq_of_lt (by simpa using below)
    have none : countDigitsFrom more 0 = 0 := by cases more <;> rfl
    rw [Nat.pow_zero] at least
    rw [countDigitsFrom, if_pos (by omega), zero, none]
  | succ c ih =>
    obtain ⟨more, rfl⟩ := Nat.exists_eq_succ_of_ne_zero (by omega : rounds ≠ 0)
    have positive : 0 < 10 ^ (c + 1) := Nat.pow_pos (by decide)
    rw [Nat.pow_succ] at least below
    rw [countDigitsFrom, if_pos (by omega), ih (by omega) (by omega) (by omega)]

theorem countDecimalDigits_eq {c n : Nat} (enough : c < 20) (least : 10 ^ c ≤ n)
    (below : n < 10 ^ (c + 1)) :
    countDecimalDigits n = c + 1 := by
  have positive : 0 < 10 ^ c := Nat.pow_pos (by decide)
  rw [countDecimalDigits, if_neg (by omega), countDigitsFrom_eq enough least below]

structure HasDigits (n count : Nat) : Prop where
  positive : 0 < count
  least : 10 ^ (count - 1) ≤ n
  below : n < 10 ^ count

theorem HasDigits.count {n count : Nat} (has : HasDigits n count) (few : count ≤ 20) :
    countDecimalDigits n = count := by
  obtain ⟨c, rfl⟩ := Nat.exists_eq_succ_of_ne_zero has.positive.ne'
  exact countDecimalDigits_eq (by omega) has.least has.below

theorem hasDigits_countDecimalDigits {n : Nat} (positive : 0 < n) (small : n < 10 ^ 20) :
    HasDigits n (countDecimalDigits n) ∧ countDecimalDigits n ≤ 20 := by
  have least := Nat.pow_log_le_self 10 positive.ne'
  have below := Nat.lt_pow_succ_log_self (by decide : 1 < 10) n
  have few : Nat.log 10 n < 20 := Nat.log_lt_of_lt_pow positive.ne' small
  rw [countDecimalDigits_eq few least below]
  exact ⟨⟨Nat.succ_pos _, least, below⟩, few⟩

end Count

section Shown

def shownDigits (count : Nat) (digits : List Nat) : List Nat :=
  digits.take count ++ List.replicate (count - digits.length) 0

theorem shownDigits_add (first more : Nat) (digits : List Nat) :
    shownDigits (first + more) digits = shownDigits first digits ++
      shownDigits more (digits.drop first) := by
  rcases Nat.le_total first digits.length with long | short
  · have none : first - digits.length = 0 := Nat.sub_eq_zero_of_le long
    have rest : first + more - digits.length = more - (digits.length - first) := by omega
    rw [shownDigits, shownDigits, shownDigits, List.take_add, none, List.length_drop, rest]
    simp
  · have rest : first + more - digits.length = (first - digits.length) + more := by omega
    rw [shownDigits, shownDigits, shownDigits, List.take_of_length_le (by omega),
      List.take_of_length_le short, List.drop_of_length_le short, rest,
      ← List.replicate_append_replicate]
    simp

theorem shownDigits_eq (count length n : Nat) :
    shownDigits count (fixedDigits 10 length n) =
      fixedDigits 10 count (n * 10 ^ (count - length) / 10 ^ (length - count)) := by
  rw [shownDigits, fixedDigits_length]
  rcases Nat.le_total count length with fewer | more
  · obtain ⟨low, rfl⟩ := Nat.exists_eq_add_of_le fewer
    rw [fixedDigits_take]
    simp
  · obtain ⟨rest, rfl⟩ := Nat.exists_eq_add_of_le more
    rw [List.take_of_length_le (by simp), Nat.add_sub_cancel_left, Nat.sub_eq_zero_of_le more,
      Nat.pow_zero, Nat.div_one, fixedDigits_shift (by decide)]

theorem fpDigits_eq (limit : Nat) {length s divisor : Nat} (below : s < 10 ^ length)
    (divides : 0 < length → divisor = 10 ^ (length - 1)) :
    ∃ s' divisor', fpDigits limit s divisor length =
        (((fixedDigits 10 length s).take limit).map decimalDigit, s', divisor', length - limit) ∧
      s' < 10 ^ (length - limit) ∧ (0 < length - limit → divisor' = 10 ^ (length - limit - 1)) ∧
      fixedDigits 10 (length - limit) s' = (fixedDigits 10 length s).drop limit := by
  induction limit generalizing length s divisor with
  | zero => exact ⟨s, divisor, rfl, below, divides, rfl⟩
  | succ limit ih =>
    rw [fpDigits]
    split
    · rename_i some
      obtain ⟨less, rfl⟩ := Nat.exists_eq_succ_of_ne_zero some.ne'
      obtain rfl : divisor = 10 ^ less := divides some
      have digit : s / 10 ^ less % 10 = s / 10 ^ less :=
        Nat.mod_eq_of_lt (Nat.div_lt_of_lt_mul (by rwa [← Nat.pow_succ]))
      have lower : 0 < less → 10 ^ less / 10 = 10 ^ (less - 1) := by
        intro more
        obtain ⟨m, rfl⟩ := Nat.exists_eq_succ_of_ne_zero more.ne'
        rw [Nat.pow_succ, Nat.mul_div_cancel _ (by decide)]
        rfl
      obtain ⟨s', divisor', digits, small, next, rest⟩ :=
        ih (Nat.mod_lt s (Nat.pow_pos (by decide))) lower
      rw [fixedDigits_mod] at digits rest
      have length : less + 1 - (limit + 1) = less - limit := by omega
      refine ⟨s', divisor', ?_, by rwa [length], by rwa [length], ?_⟩
      · rw [Nat.succ_sub_one, digits, fixedDigits_cons, digit, length]
        rfl
      · rw [length, fixedDigits_cons]
        exact rest
    · rename_i none
      obtain rfl : length = 0 := by omega
      exact ⟨s, divisor, by simp [fixedDigits], by rwa [Nat.zero_sub], by simp, by simp [fixedDigits]⟩

theorem fpFractionDigits_eq (count : Nat) {length s : Nat} (fewer : count ≤ length)
    (below : s < 10 ^ length) :
    fpFractionDigits count s (10 ^ length) =
      ((fixedDigits 10 length s).take count).map decimalDigit := by
  induction count generalizing length s with
  | zero => rfl
  | succ count ih =>
    obtain ⟨less, rfl⟩ := Nat.exists_eq_succ_of_ne_zero (by omega : length ≠ 0)
    have divisor : 10 ^ (less + 1) / 10 = 10 ^ less := by
      rw [Nat.pow_succ, Nat.mul_div_cancel _ (by decide)]
    have digit : s / 10 ^ less % 10 = s / 10 ^ less :=
      Nat.mod_eq_of_lt (Nat.div_lt_of_lt_mul (by rwa [← Nat.pow_succ]))
    rw [fpFractionDigits, divisor, ih (by omega) (Nat.mod_lt _ (Nat.pow_pos (by decide))),
      fixedDigits_mod, fixedDigits_cons, digit]
    rfl

end Shown

section Texts

def naturalText (n : Nat) : List UInt8 := if n = 0 then [0x30] else decimalText n

def fixedText (point : Bool) (precision n : Nat) : List UInt8 :=
  naturalText (n / 10 ^ precision) ++ if precision > 0 ∨ point then
    0x2E :: paddedText precision n else []

theorem scaled_lt {n count : Nat} (below : n < 10 ^ count) (more : Nat) :
    n * 10 ^ (more - count) / 10 ^ (count - more) < 10 ^ more := by
  rcases Nat.le_total more count with fewer | longer
  · obtain ⟨low, rfl⟩ := Nat.exists_eq_add_of_le fewer
    rw [Nat.sub_eq_zero_of_le fewer, Nat.pow_zero, Nat.mul_one, Nat.add_sub_cancel_left]
    apply Nat.div_lt_of_lt_mul
    rwa [← Nat.pow_add, Nat.add_comm]
  · obtain ⟨rest, rfl⟩ := Nat.exists_eq_add_of_le longer
    rw [Nat.sub_eq_zero_of_le longer, Nat.pow_zero, Nat.div_one, Nat.add_sub_cancel_left, Nat.pow_add]
    exact Nat.mul_lt_mul_of_pos_right below (Nat.pow_pos (by decide))

theorem HasDigits.scaled {n count : Nat} (has : HasDigits n count) {more : Nat} (some : 0 < more) :
    HasDigits (n * 10 ^ (more - count) / 10 ^ (count - more)) more := by
  have least := has.least
  have positive := has.positive
  refine ⟨some, ?_, scaled_lt has.below more⟩
  rcases Nat.le_total more count with fewer | longer
  · obtain ⟨low, rfl⟩ := Nat.exists_eq_add_of_le fewer
    rw [Nat.sub_eq_zero_of_le fewer, Nat.pow_zero, Nat.mul_one, Nat.add_sub_cancel_left]
    apply (Nat.le_div_iff_mul_le (Nat.pow_pos (by decide))).mpr
    rwa [← Nat.pow_add, (by omega : more - 1 + low = more + low - 1)]
  · obtain ⟨rest, rfl⟩ := Nat.exists_eq_add_of_le longer
    rw [Nat.sub_eq_zero_of_le longer, Nat.pow_zero, Nat.div_one, Nat.add_sub_cancel_left,
      (by omega : count + rest - 1 = count - 1 + rest), Nat.pow_add]
    exact Nat.mul_le_mul_right _ least

theorem HasDigits.shift {n count : Nat} (has : HasDigits n count) (more : Nat) :
    HasDigits (n * 10 ^ more) (count + more) := by
  have positive := has.positive
  refine ⟨by omega, ?_, ?_⟩
  · rw [(by omega : count + more - 1 = count - 1 + more), Nat.pow_add]
    exact Nat.mul_le_mul_right _ has.least
  · rw [Nat.pow_add]
    exact Nat.mul_lt_mul_of_pos_right has.below (Nat.pow_pos (by decide))

theorem HasDigits.text {n count : Nat} (has : HasDigits n count) :
    paddedText count n = naturalText n := by
  obtain ⟨c, rfl⟩ := Nat.exists_eq_succ_of_ne_zero has.positive.ne'
  have positive : 0 < 10 ^ c := Nat.pow_pos (by decide)
  have least : 10 ^ c ≤ n := has.least
  rw [naturalText, if_neg (by omega), decimalText,
    allDigits_eq_fixedDigits (by decide) _ has.below least]
  rfl

theorem fixedText_eq (point : Bool) {n count : Nat} (has : HasDigits n count) {whole : Nat}
    (some : 0 < whole) (precision : Nat) :
    (shownDigits whole (fixedDigits 10 count n)).map decimalDigit ++
        (if precision > 0 ∨ point then
          0x2E :: (shownDigits precision ((fixedDigits 10 count n).drop whole)).map decimalDigit
            else []) =
      fixedText point precision
        (n * 10 ^ (whole + precision - count) / 10 ^ (count - (whole + precision))) := by
  have digits := shownDigits_add whole precision (fixedDigits 10 count n)
  have all := has.scaled (by omega : 0 < whole + precision)
  rw [shownDigits_eq, fixedDigits_add] at digits
  have front : HasDigits (n * 10 ^ (whole + precision - count) / 10 ^ (count -
    (whole + precision)) / 10 ^ precision)
      whole := by
    have scaled := all.scaled some
    rwa [Nat.sub_eq_zero_of_le (Nat.le_add_right whole precision), Nat.pow_zero, Nat.mul_one,
      Nat.add_sub_cancel_left] at scaled
  obtain ⟨same, rest⟩ := List.append_inj digits (by simp [shownDigits]; omega)
  rw [← same, ← rest, fixedText, ← front.text]
  rfl

end Texts

section Rounded

theorem roundsUp_iff (sig low : Nat) :
    (sig / 10 ^ low % 10 > 5 ∨
        sig / 10 ^ low % 10 = 5 ∧ (sig % 10 ^ low ≠ 0 ∨ sig / 10 ^ low / 10 % 10 % 2 = 1)) ↔
      2 * (sig % 10 ^ (low + 1)) > 10 ^ (low + 1) ∨
        2 * (sig % 10 ^ (low + 1)) = 10 ^ (low + 1) ∧ sig / 10 ^ (low + 1) % 2 = 1 := by
  have dropped : sig % 10 ^ (low + 1) = sig % 10 ^ low + 10 ^ low * (sig / 10 ^ low % 10) := by
    rw [Nat.pow_succ, Nat.mod_mul]
  have kept : sig / 10 ^ (low + 1) = sig / 10 ^ low / 10 := by
    rw [Nat.pow_succ, Nat.div_div_eq_div_mul]
  have rest : sig % 10 ^ low < 10 ^ low := Nat.mod_lt _ (Nat.pow_pos (by decide))
  rw [dropped, kept, Nat.pow_succ]
  generalize sig / 10 ^ low = quotient
  generalize quotient / 10 = above
  generalize quotient % 10 = digit
  rcases Nat.lt_trichotomy digit 5 with less | rfl | greater
  · have product : 10 ^ low * digit ≤ 10 ^ low * 4 := Nat.mul_le_mul_left _ (by omega)
    omega
  · omega
  · have product : 10 ^ low * 6 ≤ 10 ^ low * digit := Nat.mul_le_mul_left _ (by omega)
    omega

theorem roundSignificand_eq {sig count keep : Nat} (has : HasDigits sig count) (few : count < 20)
    (exponent : Int) (some : 0 < keep) (drops : keep < count) :
    roundSignificand sig keep exponent =
      if roundHalfEven sig (10 ^ (count - keep)) = sig / 10 ^ (count - keep) then
        (sig / 10 ^ (count - keep) * 10 ^ (count - keep), exponent)
      else (roundHalfEven sig (10 ^ (count - keep)) * 10 ^ (count - keep - 1), exponent + 1) := by
  obtain ⟨low, lowEq⟩ : ∃ low, count - keep = low + 1 := ⟨count - keep - 1, by omega⟩
  have power : ((count : Int) - keep - 1).toNat = low := by omega
  have notKept : ¬ (keep : Int) ≥ (count : Nat) := by omega
  have unit : 10 ^ low * 10 = 10 ^ (low + 1) := (Nat.pow_succ 10 low).symm
  have total : 10 ^ keep * 10 ^ (low + 1) = 10 ^ count := by
    rw [← Nat.pow_add]
    congr 1
    omega
  rw [roundSignificand, has.count few.le, if_neg notKept, power, lowEq]
  simp only [roundsUp_iff, unit, roundHalfEven, Nat.add_sub_cancel]
  by_cases up : 2 * (sig % 10 ^ (low + 1)) > 10 ^ (low + 1) ∨
      2 * (sig % 10 ^ (low + 1)) = 10 ^ (low + 1) ∧ sig / 10 ^ (low + 1) % 2 = 1
  · have next : sig / 10 ^ (low + 1) * 10 ^ (low + 1) + 10 ^ (low + 1) =
        (sig / 10 ^ (low + 1) + 1) * 10 ^ (low + 1) := by
      rw [Nat.succ_mul]
    have above : sig < (sig / 10 ^ (low + 1) + 1) * 10 ^ (low + 1) := by
      rw [Nat.mul_comm]
      exact Nat.lt_mul_div_succ sig (Nat.pow_pos (by decide))
    have most : (sig / 10 ^ (low + 1) + 1) * 10 ^ (low + 1) ≤ 10 ^ count := by
      rw [← total]
      apply Nat.mul_le_mul_right
      exact Nat.div_lt_of_lt_mul (by rw [Nat.mul_comm, total]; exact has.below)
    have small : 10 ^ count < 10 ^ 20 := Nat.pow_lt_pow_right (by decide) few
    obtain ⟨nextHas, -⟩ :=
      hasDigits_countDecimalDigits (n := (sig / 10 ^ (low + 1) + 1) * 10 ^ (low + 1))
      (by omega) (by omega)
    have more : count - 1 < countDecimalDigits ((sig / 10 ^ (low + 1) + 1) * 10 ^ (low + 1)) := by
      apply (Nat.pow_lt_pow_iff_right (by decide : 1 < 10)).mp
      exact has.least.trans_lt (above.trans nextHas.below)
    rw [if_pos up, if_pos up, next, if_pos (by omega), if_neg (by omega), Nat.pow_succ,
      ← Nat.mul_assoc, Nat.mul_div_cancel _ (by decide)]
  · rw [if_neg up, if_neg up, if_pos rfl]

theorem roundSignificand_cases {sig count keep : Nat} (has : HasDigits sig count) (few : count < 20)
    (exponent : Int) (some : 0 < keep) (drops : keep < count) :
    (roundSignificand sig keep exponent =
        (roundHalfEven sig (10 ^ (count - keep)) * 10 ^ (count - keep), exponent) ∧
      10 ^ (keep - 1) ≤ roundHalfEven sig (10 ^ (count - keep)) ∧
      roundHalfEven sig (10 ^ (count - keep)) < 10 ^ keep) ∨
    roundSignificand sig keep exponent =
        (roundHalfEven sig (10 ^ (count - keep)) * 10 ^ (count - keep - 1), exponent + 1) ∧
      10 ^ (keep - 1) < roundHalfEven sig (10 ^ (count - keep)) ∧
      roundHalfEven sig (10 ^ (count - keep)) ≤ 10 ^ keep := by
  have least : 10 ^ (keep - 1) ≤ sig / 10 ^ (count - keep) := by
    apply (Nat.le_div_iff_mul_le (Nat.pow_pos (by decide))).mpr
    rw [← Nat.pow_add, (by omega : keep - 1 + (count - keep) = count - 1)]
    exact has.least
  have below : sig / 10 ^ (count - keep) < 10 ^ keep := by
    apply Nat.div_lt_of_lt_mul
    rw [← Nat.pow_add, Nat.sub_add_cancel drops.le]
    exact has.below
  rw [roundSignificand_eq has few exponent some drops]
  by_cases down : roundHalfEven sig (10 ^ (count - keep)) = sig / 10 ^ (count - keep)
  · rw [if_pos down, down]
    exact .inl ⟨rfl, least, below⟩
  · have up : roundHalfEven sig (10 ^ (count - keep)) = sig / 10 ^ (count - keep) + 1 := by
      rw [roundHalfEven] at down ⊢
      split at down
      · rename_i more
        rw [if_pos more]
      · exact absurd rfl down
    rw [if_neg down]
    exact .inr ⟨rfl, by omega, by omega⟩

end Rounded

end MulleCore
