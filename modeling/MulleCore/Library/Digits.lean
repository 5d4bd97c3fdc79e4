import Mathlib.Data.Nat.Digits.Lemmas
import Mathlib.Tactic.Linarith
import Mathlib.Tactic.Ring

/-!
The digits of a number in some base, the highest one first.
-/

namespace Library

def fixedDigits (base : Nat) : Nat → Nat → List Nat
  | 0, _ => []
  | count + 1, n => fixedDigits base count (n / base) ++ [n % base]

def allDigits (base n : Nat) : List Nat := (Nat.digits base n).reverse

section Fixed

variable {base : Nat}

@[simp] theorem fixedDigits_length (count n : Nat) : (fixedDigits base count n).length = count := by
  induction count generalizing n with
  | zero => rfl
  | succ count ih => simp [fixedDigits, ih]

theorem fixedDigits_lt (positive : 0 < base) (count n : Nat) :
    ∀ digit ∈ fixedDigits base count n, digit < base := by
  induction count generalizing n with
  | zero => simp [fixedDigits]
  | succ count ih =>
    intro digit member
    rcases List.mem_append.mp member with higher | last
    · exact ih _ digit higher
    · rw [List.mem_singleton.mp last]
      exact Nat.mod_lt n positive

theorem fixedDigits_zero (count : Nat) : fixedDigits base count 0 = List.replicate count 0 := by
  induction count with
  | zero => rfl
  | succ count ih => simp [fixedDigits, ih, List.replicate_succ']

theorem fixedDigits_add (high low n : Nat) :
    fixedDigits base (high + low) n = fixedDigits base high (n / base ^ low) ++
      fixedDigits base low n := by
  induction low generalizing n with
  | zero => simp [fixedDigits]
  | succ low ih =>
    have divided : n / base / base ^ low = n / base ^ (low + 1) := by
      rw [Nat.div_div_eq_div_mul, Nat.pow_succ']
    rw [Nat.add_succ, fixedDigits, ih, divided, fixedDigits, List.append_assoc]

theorem fixedDigits_cons (count n : Nat) :
    fixedDigits base (count + 1) n = n / base ^ count % base :: fixedDigits base count n := by
  rw [Nat.add_comm, fixedDigits_add]
  rfl

theorem fixedDigits_mod (count n : Nat) :
    fixedDigits base count (n % base ^ count) = fixedDigits base count n := by
  induction count generalizing n with
  | zero => rfl
  | succ count ih =>
    rw [fixedDigits, fixedDigits, Nat.pow_succ', Nat.mod_mul_right_div_self, ih,
      Nat.mod_mul_right_mod]

theorem fixedDigits_shift (positive : 0 < base) (count more n : Nat) :
    fixedDigits base (count + more) (n * base ^ more) = fixedDigits base count n ++
      List.replicate more 0 := by
  rw [fixedDigits_add, Nat.mul_div_cancel _ (Nat.pow_pos positive), ← fixedDigits_mod more,
    Nat.mul_mod_left, fixedDigits_zero]

theorem fixedDigits_take (high low n : Nat) :
    (fixedDigits base (high + low) n).take high = fixedDigits base high (n / base ^ low) := by
  rw [fixedDigits_add]
  exact List.take_left' (by simp)

/-- Every digit is a quotient modulo the base. -/
theorem fixedDigits_getElem (count n : Nat) {index : Nat}
    (inside : index < (fixedDigits base count n).length) :
    (fixedDigits base count n)[index] = n / base ^ (count - 1 - index) % base := by
  induction count generalizing n with
  | zero => simp [fixedDigits] at inside
  | succ count ih =>
    rw [fixedDigits_length] at inside
    by_cases last : index = count
    · subst last
      simp [fixedDigits]
    · have power : base * base ^ (count - 1 - index) = base ^ (count + 1 - 1 - index) := by
        rw [← Nat.pow_succ']
        congr 1
        omega
      simp only [fixedDigits]
      rw [List.getElem_append_left (by rw [fixedDigits_length]; omega), ih, Nat.div_div_eq_div_mul,
        power]

theorem fixedDigits_zeros (positive : 0 < base) (count n : Nat) :
    (∀ digit ∈ fixedDigits base count n, digit = 0) ↔ n % base ^ count = 0 := by
  induction count generalizing n with
  | zero => simp [fixedDigits, Nat.mod_one]
  | succ count ih =>
    have parts : n % base ^ (count + 1) = n % base + base * (n / base % base ^ count) := by
      rw [Nat.pow_succ', Nat.mod_mul]
    simp only [fixedDigits, List.mem_append, List.mem_singleton]
    rw [parts]
    constructor
    · intro zeros
      rw [(ih _).mp fun digit member => zeros digit (.inl member), zeros _ (.inr rfl), Nat.mul_zero]
    · intro zero digit member
      have both := Nat.eq_zero_of_add_eq_zero zero
      rcases member with higher | rfl
      · refine (ih _).mpr ?_ digit higher
        exact (Nat.mul_eq_zero.mp both.2).resolve_left (by omega)
      · exact both.1

theorem fixedDigits_value (count n : Nat) :
    Nat.ofDigits base (fixedDigits base count n).reverse = n % base ^ count := by
  induction count generalizing n with
  | zero => simp [fixedDigits, Nat.mod_one]
  | succ count ih =>
    rw [fixedDigits, List.reverse_append, List.reverse_singleton, List.singleton_append,
      Nat.ofDigits_cons, ih, Nat.pow_succ', Nat.mod_mul]

end Fixed

section All

variable {base : Nat}
variable {n : Nat}

@[simp] theorem allDigits_zero : allDigits base 0 = [] := by simp [allDigits]

theorem allDigits_step (large : 1 < base) (nonzero : n ≠ 0) :
    allDigits base n = allDigits base (n / base) ++ [n % base] := by
  rw [allDigits, Nat.digits_def' large (Nat.pos_of_ne_zero nonzero), List.reverse_cons]
  rfl

theorem allDigits_lt (large : 1 < base) (n : Nat) : ∀ digit ∈ allDigits base n, digit < base := by
  intro digit member
  exact Nat.digits_lt_base large (List.mem_reverse.mp member)

theorem allDigits_eq_fixedDigits (large : 1 < base) (count : Nat) (enough : n < base ^ (count + 1))
    (needed : base ^ count ≤ n) : allDigits base n = fixedDigits base (count + 1) n := by
  induction count generalizing n with
  | zero =>
    have nonzero : n ≠ 0 := by
      rw [Nat.pow_zero] at needed
      omega
    have single : n / base = 0 := Nat.div_eq_of_lt (by simpa using enough)
    rw [allDigits_step large nonzero, single, allDigits_zero]
    rfl
  | succ count ih =>
    have positive : 0 < base ^ (count + 1) := Nat.pow_pos (by omega)
    have below : n / base < base ^ (count + 1) :=
      Nat.div_lt_of_lt_mul (by rwa [Nat.mul_comm, ← Nat.pow_succ])
    have above : base ^ count ≤ n / base :=
      (Nat.le_div_iff_mul_le (by omega)).mpr (by rwa [← Nat.pow_succ])
    rw [allDigits_step large (by omega), ih below above]
    rfl

theorem allDigits_append (large : 1 < base) (low : Nat) (longer : base ^ low ≤ n) :
    allDigits base n = allDigits base (n / base ^ low) ++ fixedDigits base low n := by
  induction low generalizing n with
  | zero => simp [fixedDigits]
  | succ low ih =>
    have positive : 0 < base ^ (low + 1) := Nat.pow_pos (by omega)
    have above : base ^ low ≤ n / base :=
      (Nat.le_div_iff_mul_le (by omega)).mpr (by rwa [← Nat.pow_succ])
    rw [allDigits_step large (by omega), ih above, Nat.div_div_eq_div_mul, ← Nat.pow_succ',
      fixedDigits, List.append_assoc]

end All

/-!
Digits of a quotient, taken from a fixed-point number that is not much too large.
-/

/-- `fixed / scale` is not below `value / divisor`, and below `(value + 1) / divisor`. -/
structure Scaled (scale divisor fixed value : Nat) : Prop where
  lower : scale * value ≤ fixed * divisor
  upper : fixed * divisor < scale * (value + 1)

section Scaled

variable {scale divisor base fixed value : Nat}

theorem Scaled.quotient (scaled : Scaled scale divisor fixed value) (positive : 0 < divisor) :
    fixed / scale = value / divisor := by
  apply Nat.div_eq_of_lt_le
  · apply Nat.le_of_mul_le_mul_right _ positive
    calc value / divisor * scale * divisor = scale * (value / divisor * divisor) := by ring
      _ ≤ scale * value := Nat.mul_le_mul_left _ (Nat.div_mul_le_self value divisor)
      _ ≤ fixed * divisor := scaled.lower
  · apply Nat.lt_of_mul_lt_mul_right (a := divisor)
    calc fixed * divisor < scale * (value + 1) := scaled.upper
      _ ≤ scale * ((value / divisor + 1) * divisor) :=
        Nat.mul_le_mul_left _ (by rw [Nat.mul_comm]; exact Nat.lt_mul_div_succ value positive)
      _ = (value / divisor + 1) * scale * divisor := by ring

theorem Scaled.next (scaled : Scaled scale (base * divisor) fixed value)
    (positive : 0 < base * divisor) :
    Scaled scale divisor (fixed % scale * base) (value % (base * divisor)) := by
  have same := scaled.quotient positive
  have lower := scaled.lower
  have upper := scaled.upper
  have fixedSplit := Nat.div_add_mod fixed scale
  have valueSplit := Nat.div_add_mod value (base * divisor)
  rw [same] at fixedSplit
  generalize value / (base * divisor) = quotient at fixedSplit valueSplit
  generalize fixed % scale = rest at fixedSplit ⊢
  generalize value % (base * divisor) = below at valueSplit ⊢
  subst fixedSplit valueSplit
  constructor
  · linarith only [lower]
  · linarith only [upper]

end Scaled

end Library
