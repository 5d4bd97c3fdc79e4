import MulleCore.Sprintf.SprintfFpDigits
import MulleCore.Sprintf.SprintfFpJustify

/-!
What the `f` and the `e` conversion write for a decimal.
-/

namespace MulleCore

open Library

section Fixed

variable (info : Formatconversioninfo)
variable {decimal : DtostrDecimal} {significand count : Nat} {exponent : Int}

theorem fpZeros_eq (count : Nat) (digits : List Nat) :
    (digits.take count).map decimalDigit ++ fpZeros
    ((digits.take count).map decimalDigit).length count =
      (shownDigits count digits).map decimalDigit := by
  have missing : count - (digits.take count).length = count - digits.length := by
    rw [List.length_take]
    omega
  rw [shownDigits, List.map_append, List.length_map, List.map_replicate, fpZeros, missing]
  rfl

section

variable (rounded : fpFRounded info decimal = (significand, exponent))
include rounded

theorem fpFText_below (has : HasDigits significand count) (few : count ≤ 20)
    (small : count + exponent ≤ 0) :
    fpFText info decimal = fpSign info decimal.sign ++ fixedText info.hashFound (fpPrecision info)
      (significand * 10 ^ (exponent + fpPrecision info).toNat / 10 ^
        (-(exponent + fpPrecision info)).toNat) := by
  obtain ⟨zeros, zerosEq⟩ := Int.eq_ofNat_of_zero_le (by omega : 0 ≤ -(count + exponent))
  have up : (exponent + fpPrecision info).toNat = fpPrecision info - (zeros + count) := by omega
  have down : (-(exponent + fpPrecision info)).toNat = zeros + count - fpPrecision info := by omega
  have padded : fixedDigits 10 (zeros + count) significand =
      List.replicate zeros 0 ++ fixedDigits 10 count significand := by
    rw [fixedDigits_add, Nat.div_eq_of_lt has.below, fixedDigits_zero]
  have shown := shownDigits_eq (fpPrecision info) (zeros + count) significand
  have whole : significand * 10 ^ (fpPrecision info - (zeros + count)) / 10 ^ (zeros + count -
    fpPrecision info) /
      10 ^ fpPrecision info = 0 := by
    apply Nat.div_eq_of_lt
    apply scaled_lt
    exact has.below.trans_le (Nat.pow_le_pow_right (by decide) (by omega))
  rw [fpFText, rounded, up, down, fixedText, whole, paddedText, ← shown, padded]
  dsimp only
  rw [has.count few, if_pos small, zerosEq, Int.toNat_natCast]
  obtain ⟨rest, divisor, digits, -⟩ :=
    fpDigits_eq (fpPrecision info - min zeros (fpPrecision info)) has.below
    (fun _ => rfl)
  obtain ⟨front, frontEq⟩ : ∃ front, min zeros (fpPrecision info) = front := ⟨_, rfl⟩
  rw [frontEq] at digits ⊢
  have split_ : shownDigits (fpPrecision info) (List.replicate zeros 0 ++
    fixedDigits 10 count significand) =
      List.replicate front 0 ++ shownDigits (fpPrecision info - front) (fixedDigits 10 count
        significand) := by
    have total : fpPrecision info = front + (fpPrecision info - front) := by omega
    conv_lhs => rw [total, shownDigits_add]
    rcases Nat.le_total zeros (fpPrecision info) with inside | beyond
    · obtain rfl : zeros = front := by omega
      have all : zeros - (List.replicate zeros 0 ++ fixedDigits 10 count significand).length =
        0 := by simp
      rw [shownDigits, all, List.take_left' (by simp), List.drop_left' (by simp)]
      simp
    · have none : fpPrecision info - front = 0 := by omega
      have all : front - (List.replicate zeros 0 ++ fixedDigits 10 count significand).length = 0 := by
        simp
        omega
      rw [none, shownDigits, all, List.take_append_of_le_length (by simp; omega), List.take_replicate,
        Nat.min_eq_left (by omega)]
      simp [shownDigits]
  have length : fpPrecision info - (front +
      (((fixedDigits 10 count significand).take (fpPrecision info - front)).map
        decimalDigit).length) =
      fpPrecision info - front -
      (((fixedDigits 10 count significand).take (fpPrecision info - front)).map
        decimalDigit).length := by
    omega
  rw [digits, split_]
  dsimp only
  rw [fpZeros, length, ← fpZeros, List.append_assoc, fpZeros_eq, fpFraction, List.map_append,
    List.map_replicate]
  rfl

theorem fpFText_above (has : HasDigits significand count) (few : count ≤ 20)
    (large : 0 < count + exponent) :
    fpFText info decimal = fpSign info decimal.sign ++ fixedText info.hashFound (fpPrecision info)
      (significand * 10 ^ (exponent + fpPrecision info).toNat / 10 ^
        (-(exponent + fpPrecision info)).toNat) := by
  obtain ⟨whole, wholeEq⟩ := Int.eq_ofNat_of_zero_le large.le
  have some : 0 < whole := by omega
  have up : (exponent + fpPrecision info).toNat = whole + fpPrecision info - count := by omega
  have down : (-(exponent + fpPrecision info)).toNat = count - (whole + fpPrecision info) := by omega
  rw [up, down, ← fixedText_eq info.hashFound has some]
  rw [fpFText, rounded]
  dsimp only
  rw [has.count few, wholeEq, if_neg (by omega)]
  obtain ⟨rest, divisor, front, below, divides, digits⟩ := fpDigits_eq whole has.below (fun _ => rfl)
  obtain ⟨rest', divisor', behind, -, -, -⟩ := fpDigits_eq (fpPrecision info) below divides
  rw [Int.toNat_natCast, front]
  dsimp only
  rw [behind, digits]
  dsimp only
  rw [fpZeros_eq, fpZeros_eq]
  rfl

theorem fpFText_eq (positive : 0 < significand) (small : significand < 10 ^ 20) :
    fpFText info decimal = fpSign info decimal.sign ++ fixedText info.hashFound (fpPrecision info)
      (significand * 10 ^ (exponent + fpPrecision info).toNat / 10 ^
        (-(exponent + fpPrecision info)).toNat) := by
  obtain ⟨has, few⟩ := hasDigits_countDecimalDigits positive small
  rcases le_or_gt (countDecimalDigits significand + exponent) 0 with below | above
  · exact fpFText_below info rounded has few below
  · exact fpFText_above info rounded has few above

end

def fpFNumber (decimal : DtostrDecimal) (precision : Nat) : Nat :=
  let n := decimal.significand * 10 ^ (decimal.exponent + precision).toNat
  let unit := 10 ^ (-(decimal.exponent + precision)).toNat
  if 0 < countDecimalDigits decimal.significand + decimal.exponent then
    roundHalfEven n unit else n / unit

theorem fpFText_number (positive : 1 ≤ decimal.significand) (most : decimal.significand ≤ 10 ^ 17) :
    fpFText info decimal = fpSign info decimal.sign ++
      fixedText info.hashFound (fpPrecision info) (fpFNumber decimal (fpPrecision info)) := by
  obtain ⟨has, few⟩ := hasDigits_countDecimalDigits positive (by omega)
  have fewer : countDecimalDigits decimal.significand < 20 := by
    have bound : 10 ^ (countDecimalDigits decimal.significand - 1) < 10 ^ 18 := by
      exact has.least.trans_lt (by omega)
    have exponents := (Nat.pow_lt_pow_iff_right (by decide : 1 < 10)).mp bound
    omega
  rw [fpFNumber]
  by_cases above : 0 < countDecimalDigits decimal.significand + decimal.exponent
  · rw [if_pos above]
    obtain ⟨keep, keepEq⟩ := Int.eq_ofNat_of_zero_le
      (by omega : 0 ≤ countDecimalDigits decimal.significand + decimal.exponent + fpPrecision info)
    have rounding : fpFRounded info decimal =
        roundSignificand decimal.significand keep decimal.exponent := by
      rw [fpFRounded, if_pos above, keepEq]
    rcases Nat.lt_or_ge keep (countDecimalDigits decimal.significand) with drops | keeps
    · have drop : (-(decimal.exponent + fpPrecision info)).toNat =
          countDecimalDigits decimal.significand - keep := by
        omega
      have none : (decimal.exponent + fpPrecision info).toNat = 0 := by omega
      rw [drop, none, Nat.pow_zero, Nat.mul_one]
      have least := Nat.pow_pos (n := keep - 1) (by decide : 0 < 10)
      obtain ⟨low, lowEq⟩ : ∃ low, countDecimalDigits decimal.significand - keep = low + 1 :=
        ⟨countDecimalDigits decimal.significand - keep - 1, by omega⟩
      have total : 10 ^ keep * 10 ^ (low + 1) ≤ 10 ^ 19 := by
        rw [← Nat.pow_add]
        exact Nat.pow_le_pow_right (by decide) (by omega)
      have unit : 10 ^ low ≤ 10 ^ (low + 1) := Nat.pow_le_pow_right (by decide) (by omega)
      have cases_ := roundSignificand_cases has fewer decimal.exponent (by omega) drops
      rw [lowEq] at drop cases_ ⊢
      rw [Nat.add_sub_cancel] at cases_
      rcases cases_ with ⟨down, some, below⟩ | ⟨up, some, below⟩
      · have most := Nat.mul_le_mul_right (10 ^ (low + 1)) below.le
        rw [fpFText_eq info (rounding.trans down) (Nat.mul_pos (by omega) (Nat.pow_pos (by decide)))
          (by omega), drop, none,
          Nat.pow_zero, Nat.mul_one, Nat.mul_div_cancel _ (Nat.pow_pos (by decide))]
      · have most := Nat.mul_le_mul below unit
        have drop : (-(decimal.exponent + 1 + fpPrecision info)).toNat = low := by omega
        have none : (decimal.exponent + 1 + fpPrecision info).toNat = 0 := by omega
        rw [fpFText_eq info (rounding.trans up) (Nat.mul_pos (by omega) (Nat.pow_pos (by decide)))
          (by omega), drop, none,
          Nat.pow_zero, Nat.mul_one, Nat.mul_div_cancel _ (Nat.pow_pos (by decide))]
    · have none : (-(decimal.exponent + fpPrecision info)).toNat = 0 := by omega
      rw [roundSignificand, if_pos (by omega)] at rounding
      rw [fpFText_eq info rounding positive (by omega), none, Nat.pow_zero, Nat.div_one,
        roundHalfEven_one]
  · rw [if_neg above]
    have rounding : fpFRounded info decimal = (decimal.significand, decimal.exponent) := by
      rw [fpFRounded, if_neg above, roundSignificand, if_pos (by omega)]
    exact fpFText_eq info rounding positive (by omega)

end Fixed

section Scientific

variable (info : Formatconversioninfo)
variable {n : Nat} {decimal : DtostrDecimal} {count : Nat}

def exponentDigits (n : Nat) : List UInt8 := if n < 100 then paddedText 2 n else decimalText n

def scientificText (letter : UInt8) (point : Bool) (precision n : Nat) (exponent : Int) :
    List UInt8 :=
  fixedText point precision n ++ letter :: (if exponent ≥ 0 then 0x2B else 0x2D) ::
    exponentDigits exponent.natAbs

theorem exponentDigits_eq (small : n < 1000) :
    (if n ≥ 100 then [fpDigit (n / 100)] else []) ++ [fpDigit (n / 10 % 10), fpDigit (n % 10)] =
      exponentDigits n := by
  have pair : paddedText 2 n = [fpDigit (n / 10 % 10), fpDigit (n % 10)] := rfl
  rw [exponentDigits]
  by_cases hundred : n ≥ 100
  · rw [if_pos hundred, if_neg (by omega), decimalText_append 2 (by omega),
      decimalText_digit (by omega) (by omega), pair]
    rfl
  · rw [if_neg hundred, if_pos (by omega), pair]
    rfl

theorem fpEText_eq {significand : Nat} {exponent : Int}
    (rounded : roundSignificand decimal.significand (fpPrecision info + 1) decimal.exponent =
      (significand, exponent))
    (has : HasDigits significand count) (few : count ≤ 20)
    (small : (exponent + (count - 1)).natAbs < 1000) :
    fpEText info decimal = fpSign info decimal.sign ++
      scientificText (fpExponentLetter info) info.hashFound (fpPrecision info)
      (significand * 10 ^ (1 + fpPrecision info - count) / 10 ^ (count - (1 + fpPrecision info)))
      (exponent + (count - 1)) := by
  obtain ⟨less, rfl⟩ := Nat.exists_eq_succ_of_ne_zero has.positive.ne'
  have below := has.below
  have digit : significand / 10 ^ less % 10 = significand / 10 ^ less :=
    Nat.mod_eq_of_lt (Nat.div_lt_of_lt_mul (by rwa [← Nat.pow_succ]))
  have first : shownDigits 1 (fixedDigits 10 (less + 1) significand) = [significand / 10 ^ less] := by
    rw [shownDigits, fixedDigits_cons, digit]
    simp
  have rest : (fixedDigits 10 (less + 1) significand).drop 1 =
      fixedDigits 10 less (significand % 10 ^ less) := by
    rw [fixedDigits_cons, fixedDigits_mod]
    rfl
  rw [scientificText, ← fixedText_eq info.hashFound has (by decide), first, rest, fpEText, rounded]
  dsimp only
  rw [has.count few, ← exponentDigits_eq small, Nat.succ_sub_one,
    fpFractionDigits_eq _ (Nat.min_le_right _ _) (Nat.mod_lt _ (Nat.pow_pos (by decide)))]
  have shown : (List.take (min (fpPrecision info) less)
    (fixedDigits 10 less (significand % 10 ^ less))).map decimalDigit ++
      fpZeros (min (fpPrecision info) less) (fpPrecision info) =
        (shownDigits (fpPrecision info) (fixedDigits 10 less (significand % 10 ^ less))).map
          decimalDigit := by
    have missing : fpPrecision info - min (fpPrecision info) less = fpPrecision info - less := by
      omega
    have taken : (fixedDigits 10 less (significand % 10 ^ less)).take (min (fpPrecision info) less) =
        (fixedDigits 10 less (significand % 10 ^ less)).take (fpPrecision info) := by
      rw [← List.take_take, List.take_of_length_le (i := less) (by simp)]
    rw [fpZeros, missing, taken, shownDigits, fixedDigits_length, List.map_append, List.map_replicate]
    rfl
  by_cases point : fpPrecision info > 0 ∨ info.hashFound = true
  · simp only [if_pos point, ← shown, List.append_assoc, List.cons_append, List.nil_append,
      List.map_cons, List.map_nil]
    rfl
  · have none : fpPrecision info = 0 := by omega
    have plain : info.hashFound = false := Bool.eq_false_iff.mpr fun hash => point (.inr hash)
    simp [none, plain, fpZeros]
    rfl

structure RoundsDigits (value : ℚ) (precision : Nat) (n : Nat) (exponent : Int) : Prop where
  digits : HasDigits n (precision + 1)
  rounds : ∃ first : Int, 10 ^ first ≤ value ∧ value < 10 ^ (first + 1) ∧
    RoundsHalfEven (10 ^ (first - precision)) value (n * 10 ^ (exponent - precision))

def dtostrValue (decimal : DtostrDecimal) : ℚ := decimal.significand * 10 ^ decimal.exponent

theorem natCast_pow_mul (count : Nat) (exponent : Int) :
    ((10 ^ count : Nat) : ℚ) * 10 ^ exponent = 10 ^ (count + exponent) := by
  rw [Nat.cast_pow, Nat.cast_ofNat, ← zpow_natCast, ← zpow_add₀ (by norm_num)]

theorem HasDigits.first (has : HasDigits n count) (exponent : Int) :
    (10 : ℚ) ^ (exponent + (count - 1)) ≤ n * 10 ^ exponent ∧ n * 10 ^ exponent < (10 : ℚ) ^
      (exponent + (count - 1) + 1) := by
  have positive : (0 : ℚ) < 10 ^ exponent := zpow_pos (by norm_num) _
  have some := has.positive
  have least : ((10 ^ (count - 1) : Nat) : ℚ) ≤ n := by exact_mod_cast has.least
  have below : (n : ℚ) < (10 ^ count : Nat) := by exact_mod_cast has.below
  have least := mul_le_mul_of_nonneg_right least positive.le
  have below := mul_lt_mul_of_pos_right below positive
  rw [natCast_pow_mul] at least below
  have lower : ((count - 1 : Nat) : Int) + exponent = exponent + (count - 1) := by omega
  have upper : (count : Int) + exponent = exponent + (count - 1) + 1 := by omega
  rw [lower] at least
  rw [upper] at below
  exact ⟨least, below⟩

theorem roundSignificand_rounds (positive : 1 ≤ decimal.significand)
    (most : decimal.significand ≤ 10 ^ 17) (precision : Nat) :
    ∃ significand exponent count, roundSignificand decimal.significand (precision + 1)
      decimal.exponent =
        (significand, exponent) ∧ HasDigits significand count ∧ count ≤ 20 ∧
      RoundsDigits (dtostrValue decimal) precision
        (significand * 10 ^ (1 + precision - count) / 10 ^ (count - (1 + precision)))
    (exponent + (count - 1)) ∧
      decimal.exponent ≤ exponent + (count - 1) ∧ exponent + (count - 1) ≤ decimal.exponent + 20 := by
  obtain ⟨has, few⟩ := hasDigits_countDecimalDigits positive (by omega)
  have fewer : countDecimalDigits decimal.significand < 20 := by
    have bound := has.least.trans_lt (by omega : decimal.significand < 10 ^ 18)
    have exponents := (Nat.pow_lt_pow_iff_right (by decide : 1 < 10)).mp bound
    omega
  have some := has.positive
  have first := has.first decimal.exponent
  generalize countEq : countDecimalDigits decimal.significand = count at *
  rcases Nat.lt_or_ge (precision + 1) count with drops | keeps
  · obtain ⟨low, rfl⟩ := Nat.exists_eq_add_of_lt drops
    have dropped : precision + 1 + low + 1 - (precision + 1) = low + 1 := by omega
    have rounds := roundHalfEven_rounds decimal.significand (10 ^ (low + 1)) (10 ^ decimal.exponent)
      (Nat.pow_pos (by decide)) (zpow_pos (by norm_num) _)
    have position : ((low + 1 : Nat) : Int) + decimal.exponent =
        decimal.exponent + ((precision + 1 + low + 1 : Nat) - 1) - precision := by
      omega
    rw [natCast_pow_mul, position] at rounds
    have cases_ := roundSignificand_cases has fewer decimal.exponent (by omega : 0 < precision + 1)
      drops
    rw [dropped, Nat.add_sub_cancel, Nat.add_sub_cancel] at cases_
    generalize roundHalfEven decimal.significand (10 ^ (low + 1)) = rounded at rounds cases_
    rcases cases_ with ⟨down, least, below⟩ | ⟨up, least, below⟩
    · have digits : HasDigits rounded (precision + 1) := ⟨Nat.succ_pos _, least, below⟩
      have number : rounded * 10 ^ (low + 1) * 10 ^ (1 + precision - (precision + 1 + (low + 1))) /
          10 ^ (precision + 1 + (low + 1) - (1 + precision)) = rounded := by
        rw [(by omega : 1 + precision - (precision + 1 + (low + 1)) = 0),
          (by omega : precision + 1 + (low + 1) - (1 + precision) = low + 1), Nat.pow_zero,
          Nat.mul_one, Nat.mul_div_cancel _ (Nat.pow_pos (by decide))]
      refine ⟨_, _, precision + 1 + (low + 1), down, digits.shift (low + 1), by omega,
        ?_, by omega, by omega⟩
      rw [number]
      exact ⟨digits, _, first.1, first.2, rounds⟩
    · rcases Nat.lt_or_ge rounded (10 ^ (precision + 1)) with below | full
      · have digits : HasDigits rounded (precision + 1) := ⟨Nat.succ_pos _, least.le, below⟩
        have number : rounded * 10 ^ low * 10 ^ (1 + precision - (precision + 1 + low)) /
            10 ^ (precision + 1 + low - (1 + precision)) = rounded := by
          rw [(by omega : 1 + precision - (precision + 1 + low) = 0),
            (by omega : precision + 1 + low - (1 + precision) = low), Nat.pow_zero, Nat.mul_one,
            Nat.mul_div_cancel _ (Nat.pow_pos (by decide))]
        have same : decimal.exponent + 1 + ((precision + 1 + low : Nat) - 1) =
            decimal.exponent + ((precision + 1 + low + 1 : Nat) - 1) := by
          omega
        refine ⟨_, _, precision + 1 + low, up, digits.shift low, by omega, ?_, by omega, by omega⟩
        rw [number, same]
        exact ⟨digits, _, first.1, first.2, rounds⟩
      -- all digits were nines, so that there is one more now
      · obtain rfl : rounded = 10 ^ (precision + 1) := by omega
        have digits : HasDigits (10 ^ (precision + 1)) (precision + 2) :=
          ⟨by omega, le_rfl, Nat.pow_lt_pow_right (by decide) (by omega)⟩
        have number : 10 ^ (precision + 1) * 10 ^ low * 10 ^ (1 + precision - (precision + 2 + low)) /
            10 ^ (precision + 2 + low - (1 + precision)) = 10 ^ precision := by
          rw [(by omega : 1 + precision - (precision + 2 + low) = 0),
            (by omega : precision + 2 + low - (1 + precision) = low + 1), Nat.pow_zero, Nat.mul_one,
            ← Nat.pow_add, (by omega : precision + 1 + low = precision + (low + 1)), Nat.pow_add,
            Nat.mul_div_cancel _ (Nat.pow_pos (by decide))]
        have same : ((10 ^ (precision + 1) : Nat) : ℚ) *
            10 ^ (decimal.exponent + ((precision + 1 + low + 1 : Nat) - 1) - precision) =
            (10 ^ precision : Nat) * 10 ^ (decimal.exponent + 1 +
              ((precision + 2 + low : Nat) - 1) - precision) := by
          rw [natCast_pow_mul, natCast_pow_mul]
          congr 1
          omega
        refine ⟨_, _, precision + 2 + low, up, digits.shift low, by omega, ?_, by omega, by omega⟩
        rw [number]
        rw [same] at rounds
        exact ⟨⟨Nat.succ_pos _, le_rfl, Nat.pow_lt_pow_right (by decide) (by omega)⟩, _, first.1,
          first.2, rounds⟩
  · refine ⟨decimal.significand, decimal.exponent, count, ?_, has, few, ?_, by omega, by omega⟩
    · rw [roundSignificand, countEq, if_pos (by omega)]
    · have none : count - (1 + precision) = 0 := by omega
      have digits := has.scaled (by omega : 0 < precision + 1)
      have same : ((decimal.significand * 10 ^ (1 + precision - count) : Nat) : ℚ) *
          10 ^ (decimal.exponent + (count - 1) - precision) = dtostrValue decimal := by
        rw [Nat.cast_mul, mul_assoc, natCast_pow_mul, dtostrValue]
        congr 2
        omega
      rw [Nat.add_comm precision 1, none, Nat.pow_zero, Nat.div_one] at digits
      rw [none, Nat.pow_zero, Nat.div_one]
      refine ⟨by rwa [Nat.add_comm precision 1], _, first.1, first.2, ?_⟩
      rw [← same]
      exact RoundsHalfEven.exact (zpow_pos (by norm_num) _)
        ((decimal.significand * 10 ^ (1 + precision - count) : Nat) : ℤ)

end Scientific

section Appended

variable (env : BufferEnv) (fresh : Nat → UInt8) (info : Formatconversioninfo)
variable {decimal : DtostrDecimal}

theorem naturalText_cons (n : Nat) : ∃ c more, naturalText n = c :: more ∧ 0x30 ≤ c ∧ c ≤ 0x39 := by
  have digits : ∀ digit < 10, 0x30 ≤ decimalDigit digit ∧ decimalDigit digit ≤ 0x39 := by decide
  rw [naturalText]
  split
  · exact ⟨0x30, [], rfl, by decide, by decide⟩
  · rename_i some
    cases all : allDigits 10 n with
    | nil =>
      rw [allDigits_step (by decide) some] at all
      simp at all
    | cons digit others =>
      have below := allDigits_lt (by decide : 1 < 10) n digit (by simp [all])
      exact ⟨_, _, by rw [decimalText, all]; rfl, digits digit below⟩

theorem fixedText_cons (point : Bool) (precision n : Nat) :
    ∃ c more, fixedText point precision n = c :: more ∧ 0x30 ≤ c ∧ c ≤ 0x39 := by
  obtain ⟨c, more, text, least, most⟩ := naturalText_cons (n / 10 ^ precision)
  exact ⟨c, _, by rw [fixedText, text]; rfl, least, most⟩

theorem fpStable_text {info : Formatconversioninfo}
    (decimal : ¬ (info.conversion = 0x61 ∨ info.conversion = 0x41)) (negative : Bool)
    {text : List UInt8} (begins : ∃ c more, text = c :: more ∧ 0x30 ≤ c ∧ c ≤ 0x39) :
    FpStable info (fpSign info negative ++ text) := by
  obtain ⟨c, more, rfl, least, most⟩ := begins
  exact fpStable_number info (fpSign_signed info negative) least most fun hex => absurd hex decimal

variable {info}

theorem appends_fpFConversion (notHex : ¬ (info.conversion = 0x61 ∨ info.conversion = 0x41))
    (delivers : DtostrDelivers decimal) :
    Appends (sprintfFpFConversion env fresh info decimal) (fpPadded info (fpSign info decimal.sign ++
      fixedText info.hashFound (fpPrecision info) (fpFNumber decimal (fpPrecision info)))) := by
  rw [← fpFText_number info delivers.positive delivers.most]
  apply appends_fpJustified
  · rw [delivers.normal]
    exact appends_addEach env fresh (fpFText info decimal)
  · rw [fpFText_number info delivers.positive delivers.most]
    exact fpStable_text notHex decimal.sign (fixedText_cons _ _ _)

theorem appends_fpEConversion (notHex : ¬ (info.conversion = 0x61 ∨ info.conversion = 0x41))
    (delivers : DtostrDelivers decimal) :
    ∃ n exponent, RoundsDigits (dtostrValue decimal) (fpPrecision info) n exponent ∧
      Appends (sprintfFpEConversion env fresh info decimal)
        (fpPadded info (fpSign info decimal.sign ++
        scientificText (fpExponentLetter info) info.hashFound (fpPrecision info) n exponent)) := by
  obtain ⟨significand, exponent, count, rounded, has, few, rounds, least, most⟩ :=
    roundSignificand_rounds delivers.positive delivers.most (fpPrecision info)
  have lower := delivers.least
  have upper := delivers.greatest
  have text := fpEText_eq info rounded has few (by omega)
  refine ⟨_, _, rounds, ?_⟩
  rw [← text]
  apply appends_fpJustified
  · rw [delivers.normal]
    exact appends_addEach env fresh (fpEText info decimal)
  · rw [text, scientificText]
    apply fpStable_text notHex decimal.sign
    obtain ⟨c, more, fixed, digit⟩ := fixedText_cons info.hashFound (fpPrecision info)
      (significand * 10 ^ (1 + fpPrecision info - count) / 10 ^ (count - (1 + fpPrecision info)))
    exact ⟨c, _, by rw [fixed]; rfl, digit⟩

end Appended

section Values

variable {m n precision : Nat}

theorem roundHalfEven_value (decimal : DtostrDecimal) (precision : Int) :
    RoundsHalfEven (10 ^ (-precision : Int)) (dtostrValue decimal)
      (roundHalfEven (decimal.significand * 10 ^ (decimal.exponent + precision).toNat)
        (10 ^ (-(decimal.exponent + precision)).toNat) * 10 ^ (-precision : Int)) := by
  have rounds := roundHalfEven_rounds
    (decimal.significand * 10 ^ (decimal.exponent + precision).toNat)
    (10 ^ (-(decimal.exponent + precision)).toNat)
    (10 ^ (-precision - (-(decimal.exponent + precision)).toNat : Int)) (Nat.pow_pos (by decide))
      (zpow_pos (by norm_num) _)
  rw [Nat.cast_mul, mul_assoc, natCast_pow_mul, natCast_pow_mul] at rounds
  have unit : ((-(decimal.exponent + precision)).toNat : Int) +
    (-precision - (-(decimal.exponent + precision)).toNat) =
      -precision := by
    omega
  have power : ((decimal.exponent + precision).toNat : Int) +
    (-precision - (-(decimal.exponent + precision)).toNat) =
      decimal.exponent := by
    omega
  rwa [unit, power] at rounds

theorem decimalDigits_injective {digits others : List Nat} (small : ∀ digit ∈ digits, digit < 10)
    (smaller : ∀ digit ∈ others, digit < 10)
    (same : digits.map decimalDigit = others.map decimalDigit) :
    digits = others := by
  have inverse : ∀ digit < 10, (decimalDigit digit).toNat - 0x30 = digit := by decide
  have restored : ∀ {digits : List Nat}, (∀ digit ∈ digits, digit < 10) →
      (digits.map decimalDigit).map (fun c => c.toNat - 0x30) = digits := by
    intro digits small
    rw [List.map_map]
    calc digits.map _ = digits.map id :=
      List.map_congr_left fun digit member => inverse digit (small digit member)
      _ = digits := List.map_id digits
  rw [← restored small, same, restored smaller]

theorem paddedText_injective {count : Nat} (same : paddedText count m = paddedText count n) :
    m % 10 ^ count = n % 10 ^ count := by
  have digits := decimalDigits_injective (fixedDigits_lt (by decide) count m)
    (fixedDigits_lt (by decide) count n) same
  rw [← fixedDigits_value, ← fixedDigits_value, digits]

theorem naturalText_injective (same : naturalText m = naturalText n) : m = n := by
  have digits : ∀ n, ∃ digits : List Nat, (∀ digit ∈ digits, digit < 10) ∧
    naturalText n = digits.map decimalDigit ∧
      Nat.ofDigits 10 digits.reverse = n := by
    intro n
    rw [naturalText]
    split
    · rename_i zero
      exact ⟨[0], by simp, rfl, by simp [zero]⟩
    · refine ⟨allDigits 10 n, allDigits_lt (by decide) n, rfl, ?_⟩
      rw [allDigits, List.reverse_reverse, Nat.ofDigits_digits]
  obtain ⟨first, small, firstText, firstValue⟩ := digits m
  obtain ⟨second, smaller, secondText, secondValue⟩ := digits n
  rw [firstText, secondText] at same
  rw [← firstValue, ← secondValue, decimalDigits_injective small smaller same]

theorem fixedText_injective {point : Bool}
    (same : fixedText point precision m = fixedText point precision n) : m = n := by
  rw [fixedText, fixedText] at same
  have lengths : ((if precision > 0 ∨ point then 0x2E :: paddedText precision m else []) : List
    UInt8).length =
      ((if precision > 0 ∨ point then 0x2E :: paddedText precision n else []) : List
        UInt8).length := by
    split_ifs <;> simp [paddedText]
  obtain ⟨whole, fraction⟩ := List.append_inj' same lengths
  have whole := naturalText_injective whole
  have rest : m % 10 ^ precision = n % 10 ^ precision := by
    split at fraction
    · exact paddedText_injective (List.cons_injective fraction)
    · have none : precision = 0 := by omega
      rw [none, Nat.pow_zero, Nat.mod_one, Nat.mod_one]
  rw [← Nat.div_add_mod m (10 ^ precision), whole, rest, Nat.div_add_mod]

theorem fpPadded_injective {info : Formatconversioninfo}
    (notHex : ¬ (info.conversion = 0x61 ∨ info.conversion = 0x41)) (negative : Bool)
    {text other : List UInt8} (begins : ∃ c more, text = c :: more ∧ 0x30 ≤ c ∧ c ≤ 0x39)
    (others : ∃ c more, other = c :: more ∧ 0x30 ≤ c ∧ c ≤ 0x39)
    (lengths : text.length = other.length)
    (same : fpPadded info (fpSign info negative ++ text) =
      fpPadded info (fpSign info negative ++ other)) :
    text = other := by
  have signed := fpSign_signed info negative
  obtain ⟨c, more, rfl, least, most⟩ := begins
  obtain ⟨d, rest, rfl, atLeast, atMost⟩ := others
  have totals : (fpSign info negative ++ c :: more).length =
      (fpSign info negative ++ d :: rest).length := by
    rw [List.length_append, List.length_append, lengths]
  have texts : fpSign info negative ++ c :: more = fpSign info negative ++ d :: rest := by
    simp only [fpPadded, fpInsert_number info signed least most,
      fpInsert_number info signed atLeast atMost, notHex, false_and, if_false, totals] at same
    split at same
    · exact List.append_cancel_right same
    · generalize (if info.zeroFound = true then ((fpSign info negative).length, (0x30 : UInt8))
        else (0, 0x20)) =
        insertion at same
      rw [List.append_assoc, List.append_assoc] at same
      obtain ⟨front, behind⟩ :=
        List.append_inj same (by rw [List.length_take, List.length_take, totals])
      rw [← List.take_append_drop insertion.1 (fpSign info negative ++ c :: more), front,
        List.append_cancel_left behind, List.take_append_drop]
  exact List.append_cancel_left texts

theorem fixedText_length (point : Bool) (most : n ≤ 10 ^ precision) :
    (fixedText point precision n).length = 1 + if precision > 0 ∨ point then
      precision + 1 else 0 := by
  have positive : 0 < 10 ^ precision := Nat.pow_pos (by decide)
  have whole : n / 10 ^ precision = 0 ∨ n / 10 ^ precision = 1 := by
    have less : n / 10 ^ precision < 2 := Nat.div_lt_of_lt_mul (by omega)
    generalize n / 10 ^ precision = quotient at less
    omega
  have single : (naturalText (n / 10 ^ precision)).length = 1 := by
    rcases whole with zero | one
    · rw [zero]
      rfl
    · rw [one]
      rfl
  rw [fixedText, List.length_append, single]
  split_ifs <;> simp [paddedText]

end Values

section Rounds

/-- The value is one at least, or the dropped digits do not round it up. -/
def FixedClear (decimal : DtostrDecimal) (precision : Nat) : Prop :=
  let n := decimal.significand * 10 ^ (decimal.exponent + precision).toNat
  let unit := 10 ^ (-(decimal.exponent + precision)).toNat
  0 < countDecimalDigits decimal.significand + decimal.exponent ∨ 2 * (n % unit) < unit ∨
    2 * (n % unit) = unit ∧ n / unit % 2 = 0

theorem fixedClear_iff (decimal : DtostrDecimal) (precision : Nat) : FixedClear decimal precision ↔
    fpFNumber decimal precision =
      roundHalfEven (decimal.significand * 10 ^ (decimal.exponent + precision).toNat)
      (10 ^ (-(decimal.exponent + precision)).toNat) := by
  rw [FixedClear, fpFNumber]
  generalize decimal.significand * 10 ^ (decimal.exponent + precision).toNat = n
  generalize 10 ^ (-(decimal.exponent + precision)).toNat = unit
  split
  · rename_i above
    simp [above]
  · rename_i below
    rw [roundHalfEven]
    split <;> omega

theorem roundsFixed_iff (decimal : DtostrDecimal) (precision n : Nat) :
    RoundsHalfEven (10 ^ (-precision : Int)) (dtostrValue decimal) (n * 10 ^ (-precision : Int)) ↔
      n = roundHalfEven (decimal.significand * 10 ^ (decimal.exponent + precision).toNat)
        (10 ^ (-(decimal.exponent + precision)).toNat) := by
  have positive : (0 : ℚ) < 10 ^ (-precision : Int) := zpow_pos (by norm_num) _
  have value := roundHalfEven_value decimal precision
  constructor
  · intro rounds
    have same := mul_right_cancel₀ positive.ne' (rounds.unique positive value)
    exact_mod_cast same
  · rintro rfl
    exact value

variable (env : BufferEnv) (fresh : Nat → UInt8) (spec : Formatspec) (upper : Bool)
  (decimal : DtostrDecimal)

def fpFInfo (spec : Formatspec) (upper : Bool) : Formatconversioninfo :=
  spec.info [] (if upper then 0x46 else 0x66)

def fpEInfo (spec : Formatspec) (upper : Bool) : Formatconversioninfo :=
  spec.info [] (if upper then 0x45 else 0x65)

def fpDecimals (spec : Formatspec) : Nat := spec.precision.getD 6

def FixedRounds : Prop :=
  ∃ n : Nat, RoundsHalfEven (10 ^ (-(fpDecimals spec : Int))) (dtostrValue decimal)
      (n * 10 ^ (-(fpDecimals spec : Int))) ∧
    Appends (sprintfFpFConversion env fresh (fpFInfo spec upper) decimal)
      (fpPadded (fpFInfo spec upper)
      (fpSign (fpFInfo spec upper) decimal.sign ++ fixedText spec.hash (fpDecimals spec) n))

def ScientificRounds : Prop :=
  ∃ n exponent, RoundsDigits (dtostrValue decimal) (fpDecimals spec) n exponent ∧
    Appends (sprintfFpEConversion env fresh (fpEInfo spec upper) decimal)
      (fpPadded (fpEInfo spec upper) (fpSign (fpEInfo spec upper) decimal.sign ++
        scientificText (if upper then 0x45 else 0x65) spec.hash (fpDecimals spec) n exponent))

variable {decimal}

theorem fpPrecision_eq (c : UInt8) : fpPrecision (spec.info [] c) = fpDecimals spec := by
  rw [Formatspec.info_eq, fpPrecision, fpDecimals]
  cases given : spec.precision <;> simp [Formatspec.parsed, Formatspec.found, given]

theorem scientificRounds (delivers : DtostrDelivers decimal) :
    ScientificRounds env fresh spec upper decimal := by
  have conversion : (fpEInfo spec upper).conversion = if upper then 0x45 else 0x65 := by
    rw [fpEInfo, Formatspec.info_eq]
    rfl
  have hash : (fpEInfo spec upper).hashFound = spec.hash := by
    rw [fpEInfo, Formatspec.info_eq]
    rfl
  have letter : fpExponentLetter (fpEInfo spec upper) = if upper then 0x45 else 0x65 := by
    rw [fpExponentLetter, conversion]
    cases upper <;> rfl
  have notHex : ¬ ((fpEInfo spec upper).conversion = 0x61 ∨ (fpEInfo spec upper).conversion =
      0x41) := by
    rw [conversion]
    cases upper <;> decide
  obtain ⟨n, exponent, rounds, appends⟩ := appends_fpEConversion env fresh notHex delivers
  have precision : fpPrecision (fpEInfo spec upper) = fpDecimals spec := fpPrecision_eq spec _
  rw [precision] at rounds appends
  rw [letter, hash] at appends
  exact ⟨n, exponent, rounds, appends⟩

/-- Fixed notation rounds as it should just in the clear cases. -/
theorem fixedRounds_iff (delivers : DtostrDelivers decimal) :
    FixedRounds env fresh spec upper decimal ↔ FixedClear decimal (fpDecimals spec) := by
  have conversion : (fpFInfo spec upper).conversion = if upper then 0x46 else 0x66 := by
    rw [fpFInfo, Formatspec.info_eq]
    rfl
  have hash : (fpFInfo spec upper).hashFound = spec.hash := by
    rw [fpFInfo, Formatspec.info_eq]
    rfl
  have notHex : ¬ ((fpFInfo spec upper).conversion = 0x61 ∨ (fpFInfo spec upper).conversion =
      0x41) := by
    rw [conversion]
    cases upper <;> decide
  have appends := appends_fpFConversion env fresh notHex delivers
  have precision : fpPrecision (fpFInfo spec upper) = fpDecimals spec := fpPrecision_eq spec _
  rw [hash, precision] at appends
  rw [fixedClear_iff]
  constructor
  · rintro ⟨n, rounds, described⟩
    rw [roundsFixed_iff] at rounds
    rw [← rounds]
    by_cases above : 0 < countDecimalDigits decimal.significand + decimal.exponent
    · rw [rounds, fpFNumber, if_pos above]
    · have few := (hasDigits_countDecimalDigits delivers.positive (by have := delivers.most; omega)).1
      have below : fpFNumber decimal (fpDecimals spec) < 10 ^ fpDecimals spec := by
        have small : decimal.significand < 10 ^ (-decimal.exponent).toNat :=
          few.below.trans_le (Nat.pow_le_pow_right (by decide) (by omega))
        have scaled := scaled_lt small (fpDecimals spec)
        rw [fpFNumber, if_neg above]
        rwa [(by omega : fpDecimals spec - (-decimal.exponent).toNat = (decimal.exponent + fpDecimals spec).toNat),
          (by omega : (-decimal.exponent).toNat - fpDecimals spec = (-(decimal.exponent + fpDecimals spec)).toNat)] at scaled
      have next : n ≤ fpFNumber decimal (fpDecimals spec) + 1 := by
        rw [rounds, fpFNumber, if_neg above, roundHalfEven]
        split <;> omega
      have lengths := (fixedText_length spec.hash below.le).trans
        (fixedText_length spec.hash (by omega : n ≤ _)).symm
      exact fixedText_injective (fpPadded_injective notHex decimal.sign (fixedText_cons _ _ _)
        (fixedText_cons _ _ _) lengths (appends.unique described))
  · intro clear
    exact ⟨_, (roundsFixed_iff decimal _ _).mpr clear, appends⟩

/-- Both conversions round unless a number below one would have to be rounded up. -/
theorem sprintfFpConversion_rounds_iff (delivers : DtostrDelivers decimal) :
    (FixedRounds env fresh spec upper decimal ∧ ScientificRounds env fresh spec upper decimal) ↔
      FixedClear decimal (fpDecimals spec) := by
  rw [← fixedRounds_iff env fresh spec upper delivers]
  exact and_iff_left (scientificRounds env fresh spec upper delivers)

theorem sprintfFpConversion_rounds_half :
    DtostrDelivers ⟨15, -1, false, .normal, 0, false⟩ ∧
      ((FixedRounds ⟨0, fun _ _ => 0⟩ (fun _ => 0) ⟨false, false, false, false, false,
        none, some 0⟩ false
          ⟨15, -1, false, .normal, 0, false⟩ ∧
        ScientificRounds ⟨0, fun _ _ => 0⟩ (fun _ => 0) ⟨false, false, false, false, false,
          none, some 0⟩ false
          ⟨15, -1, false, .normal, 0, false⟩) ↔ FixedClear ⟨15, -1, false, .normal, 0, false⟩ 0) :=
  have delivers : DtostrDelivers ⟨15, -1, false, .normal, 0, false⟩ :=
    ⟨rfl, by decide, by decide, by decide, by decide⟩
  ⟨delivers, sprintfFpConversion_rounds_iff _ _ ⟨false, false, false, false, false, none,
    some 0⟩ _ delivers⟩

/-- 0.0126 is not rounded to three decimal places. -/
theorem sprintfFpConversion_truncates :
    ¬ ∀ (env : BufferEnv) (fresh : Nat → UInt8) (spec : Formatspec) (upper : Bool)
      (decimal : DtostrDecimal), DtostrDelivers decimal →
        FixedRounds env fresh spec upper decimal ∧ ScientificRounds env fresh spec upper decimal := by
  intro always
  have delivers : DtostrDelivers ⟨126, -4, false, .normal, 0, false⟩ :=
    ⟨rfl, by decide, by decide, by decide, by decide⟩
  have rounds := (always ⟨0, fun _ _ => 0⟩ (fun _ => 0) ⟨false, false, false, false, false, none,
    some 3⟩ false _ delivers).1
  have clear := (fixedRounds_iff _ _ _ _ delivers).mp rounds
  rw [FixedClear] at clear
  exact absurd clear (by decide)

end Rounds

end MulleCore
