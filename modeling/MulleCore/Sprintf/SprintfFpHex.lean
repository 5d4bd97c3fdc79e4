import MulleCore.Sprintf.SprintfFpDigits
import MulleCore.Sprintf.SprintfFpJustify
import MulleCore.Sprintf.SprintfInteger

/-!
The text of the `a` conversion denotes the `double`.
-/

namespace MulleCore

open Library

section Double

def doubleFraction (bits : UInt64) : Nat := bits.toNat % 2 ^ 52

def doubleExponentBits (bits : UInt64) : Nat := bits.toNat / 2 ^ 52 % 2 ^ 11

def doubleSignificand (bits : UInt64) : Nat :=
  if doubleExponentBits bits = 0 then doubleFraction bits else 2 ^ 52 + doubleFraction bits

def doubleExponent (bits : UInt64) : Int := (max (doubleExponentBits bits) 1 : Nat) - 1023

def doubleMagnitude (bits : UInt64) : ℚ := doubleSignificand bits * 2 ^ (doubleExponent bits - 52)

def hexFloatText (upper point : Bool) (leading : Nat) (fraction : List Nat) (exponent : Int) :
    List UInt8 :=
  [0x30, if upper then 0x58 else 0x78, decimalDigit leading] ++
    (if fraction ≠ [] ∨ point then 0x2E :: fraction.map (hexDigit (if upper then 0x41 else 0x61))
      else []) ++
    (if upper then 0x50 else 0x70) :: (if exponent ≥ 0 then 0x2B else 0x2D) ::
      naturalText exponent.natAbs

def hexFloatValue (leading : Nat) (fraction : List Nat) (exponent : Int) : ℚ :=
  (leading * 16 ^ fraction.length + Nat.ofDigits 16 fraction.reverse : Nat) * 2 ^
    (exponent - 4 * fraction.length)

end Double

section Nibbles

variable {digits : List Nat} {count : Nat}

theorem fpNibbles_eq (mantissa : Nat) : fpNibbles mantissa = fixedDigits 16 13 mantissa := by
  apply List.ext_getElem
  · simp [fpNibbles]
  · intro index inside _
    have bound : index < 13 := by simpa [fpNibbles] using inside
    have power : (2 : Nat) ^ (48 - index * 4) = 16 ^ (13 - 1 - index) := by
      have exponent : 48 - index * 4 = 4 * (13 - 1 - index) := by omega
      rw [exponent, Nat.pow_mul]
    rw [fixedDigits_getElem, ← power]
    simp only [fpNibbles, List.getElem_map, List.getElem_range, Nat.shiftRight_eq_div_pow]
    exact Nat.and_two_pow_sub_one_eq_mod _ 4

theorem fpIncrement_eq (count n : Nat) (rest : List Nat) :
    fpIncrement count (fixedDigits 16 count n ++ rest) =
      (fixedDigits 16 count (n + 1) ++ rest, decide ((n + 1) % 16 ^ count = 0)) := by
  induction count generalizing n rest with
  | zero => simp [fpIncrement, fixedDigits, Nat.mod_one]
  | succ count ih =>
    have last : (fixedDigits 16 (count + 1) n ++ rest).getD count 0 = n % 16 := by
      simp [fixedDigits, List.getD_eq_getElem?_getD]
    have set : ∀ digit, (fixedDigits 16 (count + 1) n ++ rest).set count digit =
        fixedDigits 16 count (n / 16) ++ digit :: rest := by
      intro digit
      simp [fixedDigits]
    have parts : (n + 1) % 16 ^ (count + 1) = (n + 1) % 16 + 16 * ((n + 1) / 16 % 16 ^ count) := by
      rw [Nat.pow_succ', Nat.mod_mul]
    rw [fpIncrement, last, set, set]
    split
    · rename_i below
      have same : (n + 1) / 16 = n / 16 := by omega
      have next : (n + 1) % 16 = n % 16 + 1 := by omega
      have kept : ¬ (n + 1) % 16 ^ (count + 1) = 0 := by omega
      rw [decide_eq_false kept, fixedDigits, same, next]
      simp
    · rename_i full
      have more : (n + 1) / 16 = n / 16 + 1 := by omega
      have zero : (n + 1) % 16 = 0 := by omega
      rw [ih, parts, fixedDigits, more, zero]
      simp

theorem fpRoundUp_eq (leading fraction : Nat) {precision : Nat} (short : precision < 13) :
    fpRoundUp (fixedDigits 16 13 fraction) leading precision = true ↔
      2 * (fraction % 16 ^ (13 - precision)) > 16 ^ (13 - precision) ∨
        2 * (fraction % 16 ^ (13 - precision)) = 16 ^ (13 - precision) ∧
          (leading * 16 ^ precision + fraction / 16 ^ (13 - precision) % 16 ^ precision) % 2 = 1 := by
  obtain ⟨low, lowEq⟩ : ∃ low, 13 - precision = low + 1 := ⟨12 - precision, by omega⟩
  have parts : fixedDigits 16 13 fraction =
      fixedDigits 16 precision (fraction / 16 ^ (low + 1)) ++ fraction / 16 ^ low % 16 ::
        fixedDigits 16 low fraction := by
    have total : 13 = precision + (low + 1) := by omega
    rw [← fixedDigits_cons, ← fixedDigits_add, ← total]
  have nibble : (fixedDigits 16 13 fraction).getD precision 0 = fraction / 16 ^ low % 16 := by
    rw [parts]
    simp [List.getD_eq_getElem?_getD]
  have dropped : (fixedDigits 16 13 fraction).drop (precision + 1) = fixedDigits 16 low fraction := by
    rw [parts, List.append_cons]
    exact List.drop_left' (by simp)
  have zeros : ((fixedDigits 16 low fraction).any (· ≠ 0)) = true ↔ ¬ fraction % 16 ^ low = 0 := by
    rw [← fixedDigits_zeros (by decide)]
    simp
  have lastDigit : (precision = 0 →
    leading % 2 = (leading * 16 ^ precision + fraction / 16 ^ (low + 1) % 16 ^ precision) % 2) ∧
      (precision ≠ 0 → (fixedDigits 16 13 fraction).getD (precision - 1) 0 % 2 =
        (leading * 16 ^ precision + fraction / 16 ^ (low + 1) % 16 ^ precision) % 2) := by
    constructor
    · rintro rfl
      simp [Nat.mod_one]
    · intro some
      obtain ⟨kept, rfl⟩ := Nat.exists_eq_succ_of_ne_zero some
      have digit : (fixedDigits 16 13 fraction).getD kept 0 = fraction / 16 ^ (low + 1) % 16 := by
        rw [parts, fixedDigits]
        simp [List.getD_eq_getElem?_getD]
      rw [Nat.succ_sub_one, digit]
      generalize fraction / 16 ^ (low + 1) = upper
      rw [Nat.pow_succ', Nat.mod_mul]
      have even : leading * (16 * 16 ^ kept) = 2 * (8 * (leading * 16 ^ kept)) := by ring
      omega
  have dividend : fraction % 16 ^ (low + 1) = fraction % 16 ^ low +
      16 ^ low * (fraction / 16 ^ low % 16) := by
    rw [Nat.pow_succ, Nat.mod_mul]
  have rest : fraction % 16 ^ low < 16 ^ low := Nat.mod_lt _ (Nat.pow_pos (by decide))
  have unit : 16 ^ (low + 1) = 16 * 16 ^ low := Nat.pow_succ'
  rw [fpRoundUp, if_pos short, lowEq, nibble, dropped, dividend]
  generalize fraction / 16 ^ low % 16 = digit
  generalize (leading * 16 ^ precision + fraction / 16 ^ (low + 1) % 16 ^ precision) % 2 =
    parity at lastDigit ⊢
  rw [unit]
  dsimp only
  rcases Nat.lt_trichotomy digit 8 with less | rfl | greater
  · have product : 16 ^ low * digit ≤ 16 ^ low * 7 := Nat.mul_le_mul_left _ (by omega)
    rw [if_neg (by omega), if_neg (by omega)]
    simp only [Bool.false_eq_true, false_iff]
    omega
  · rw [if_neg (by omega), if_pos rfl]
    by_cases none : fraction % 16 ^ low = 0
    · rw [if_neg (mt zeros.mp (not_not.mpr none)), none]
      by_cases first : precision = 0
      · rw [if_pos first, decide_eq_true_eq, lastDigit.1 first]
        omega
      · rw [if_neg first, decide_eq_true_eq, lastDigit.2 first]
        omega
    · rw [if_pos (zeros.mpr none)]
      simp only [true_iff]
      omega
  · have product : 16 ^ low * 9 ≤ 16 ^ low * digit := Nat.mul_le_mul_left _ (by omega)
    rw [if_pos greater]
    simp only [true_iff]
    omega

theorem fpOutDigits_eq (fraction count : Nat) (inside : count ≤ 13)
    (zeros : fraction % 16 ^ (13 - count) = 0) :
    fpOutDigits (fixedDigits 16 13 fraction) count ≤ count ∧
      fraction % 16 ^ (13 - fpOutDigits (fixedDigits 16 13 fraction) count) = 0 := by
  induction count with
  | zero => exact ⟨le_rfl, zeros⟩
  | succ count ih =>
    rw [fpOutDigits]
    split
    · exact ⟨le_rfl, zeros⟩
    · rename_i zero
      have power : 13 - count = 13 - (count + 1) + 1 := by omega
      have digit : fraction / 16 ^ (13 - (count + 1)) % 16 = 0 := by
        have below : count < (fixedDigits 16 13 fraction).length := by
          rw [fixedDigits_length]
          omega
        have position : 13 - 1 - count = 13 - (count + 1) := by omega
        rw [not_not, List.getD_eq_getElem?_getD, List.getElem?_eq_getElem below, Option.getD_some,
          fixedDigits_getElem, position] at zero
        exact zero
      have more : fraction % 16 ^ (13 - count) = 0 := by
        rw [power, Nat.pow_succ, Nat.mod_mul, zeros, digit]
        rfl
      obtain ⟨less, rest⟩ := ih (by omega) more
      exact ⟨by omega, rest⟩

theorem map_range_padded (text : Nat → UInt8) {out : Nat} (inside : out ≤ digits.length)
    (fewer : out ≤ count) :
    (List.range count).map (fun i => text (if i < out then digits.getD i 0 else 0)) =
      (digits.take out ++ List.replicate (count - out) 0).map text := by
  apply List.ext_getElem
  · simp
    omega
  · intro index _ _
    simp only [List.getElem_map, List.getElem_range, List.getElem_append, List.length_take,
      List.getElem_take, List.getElem_replicate]
    by_cases digit : index < out
    · rw [if_pos digit, dif_pos (by omega), List.getD_eq_getElem?_getD,
        List.getElem?_eq_getElem (by omega), Option.getD_some]
    · rw [if_neg digit, dif_neg (by omega)]

theorem map_range_digits {text : Nat → UInt8} (inside : count ≤ digits.length) :
    (List.range count).map (fun i => text (digits.getD i 0)) = (digits.take count).map text := by
  have padded := map_range_padded text inside le_rfl
  rw [Nat.sub_self, List.replicate_zero, List.append_nil] at padded
  rw [← padded]
  apply List.map_congr_left
  intro index member
  rw [if_pos (List.mem_range.mp member)]

end Nibbles

section Numbers

variable (info : Formatconversioninfo) (hexChar : UInt8)

def fpHexDigits (leading : Nat) (digits : List Nat) (exponent : Int) : List UInt8 :=
  UInt8.ofNat (0x30 + leading) :: fpFraction info digits.length (digits.map (fpHexDigit hexChar)) ++
    (if hexChar = 0x41 then 0x50 else 0x70) :: fpHexExponent (exponent - 1023)

theorem fpHexNumber_exact (notFound : info.precisionFound = false) (leading mantissa : Nat)
    (exponent : Int) :
    ∃ out ≤ 13, mantissa % 16 ^ (13 - out) = 0 ∧ fpHexNumber info hexChar leading mantissa exponent =
      fpHexDigits info hexChar leading (fixedDigits 16 out (mantissa / 16 ^ (13 - out)))
        exponent := by
  obtain ⟨less, zeros⟩ := fpOutDigits_eq mantissa 13 le_rfl (Nat.mod_one _)
  generalize outEq : fpOutDigits (fixedDigits 16 13 mantissa) 13 = out at less zeros
  have front : (fixedDigits 16 13 mantissa).take out =
      fixedDigits 16 out (mantissa / 16 ^ (13 - out)) := by
    rw [← fixedDigits_take out (13 - out), Nat.add_sub_cancel' less]
  refine ⟨out, less, zeros, ?_⟩
  simp only [fpHexNumber, notFound, Bool.false_eq_true, if_false, Bool.false_and, fpNibbles_eq,
    outEq, fpHexDigits, fixedDigits_length]
  rw [map_range_digits (by simpa using less), front]

theorem fpHexNumber_long (found : info.precisionFound = true) (long : 13 ≤ info.precision)
    (leading mantissa : Nat) (exponent : Int) : fpHexNumber info hexChar leading mantissa exponent =
      fpHexDigits info hexChar leading
        (fixedDigits 16 info.precision (mantissa * 16 ^ (info.precision - 13))) exponent := by
  obtain ⟨more, precision⟩ := Nat.exists_eq_add_of_le long
  have notShort : ¬ 13 + more < 13 := by omega
  simp only [fpHexNumber, found, if_true, Bool.true_and, fpNibbles_eq, precision, notShort,
    if_false, fpRoundUp, Bool.false_eq_true, fpHexDigits, fixedDigits_length, Nat.add_sub_cancel_left]
  rw [map_range_padded _ (by simp) (by omega), fixedDigits_shift (by decide),
    List.take_of_length_le (by simp), Nat.add_sub_cancel_left]

theorem carry_eq (leading n : Nat) {power : Nat} (positive : 0 < power) :
    (if (n + 1) % power = 0 then leading + 1 else leading) * power + (n + 1) % power =
      leading * power + n % power + 1 := by
  have below := Nat.mod_lt n positive
  have next : (n + 1) % power = (n % power + 1) % power := (Nat.mod_add_mod n power 1).symm
  rw [next]
  rcases Nat.lt_or_ge (n % power + 1) power with less | more
  · rw [Nat.mod_eq_of_lt less, if_neg (by omega)]
    omega
  · obtain full : n % power + 1 = power := by omega
    rw [full, Nat.mod_self, if_pos rfl, Nat.succ_mul]
    omega

theorem hexAligned (leading mantissa : Nat) {count : Nat} (inside : count ≤ 13) :
    leading * 16 ^ 13 + mantissa % 16 ^ 13 = mantissa % 16 ^ (13 - count) +
      16 ^ (13 - count) * (leading * 16 ^ count + mantissa / 16 ^ (13 - count) % 16 ^ count) := by
  have power : 16 ^ 13 = 16 ^ (13 - count) * 16 ^ count := by
    rw [← Nat.pow_add, Nat.sub_add_cancel inside]
  rw [power, Nat.mod_mul]
  ring

theorem fpHexNumber_rounded (found : info.precisionFound = true) (short : info.precision < 13)
    (leading mantissa : Nat) (exponent : Int) :
    ∃ next n, next ≤ leading + 1 ∧ next * 16 ^ info.precision + n % 16 ^ info.precision =
        roundHalfEven (leading * 16 ^ 13 + mantissa % 16 ^ 13) (16 ^ (13 - info.precision)) ∧
      fpHexNumber info hexChar leading mantissa exponent =
        fpHexDigits info hexChar next (fixedDigits 16 info.precision n) exponent := by
  have total : info.precision + (13 - info.precision) = 13 := by omega
  have parts : fixedDigits 16 13 mantissa =
      fixedDigits 16 info.precision (mantissa / 16 ^ (13 - info.precision)) ++
        fixedDigits 16 (13 - info.precision) mantissa := by
    rw [← fixedDigits_add, total]
  have aligned := hexAligned leading mantissa short.le
  have positive : 0 < 16 ^ (13 - info.precision) := Nat.pow_pos (by decide)
  have dropped : (leading * 16 ^ 13 + mantissa % 16 ^ 13) % 16 ^ (13 - info.precision) =
      mantissa % 16 ^ (13 - info.precision) := by
    rw [aligned, Nat.add_mul_mod_self_left, Nat.mod_mod]
  have kept : (leading * 16 ^ 13 + mantissa % 16 ^ 13) / 16 ^ (13 - info.precision) =
      leading * 16 ^ info.precision + mantissa / 16 ^ (13 - info.precision) % 16 ^
        info.precision := by
    rw [aligned, Nat.add_mul_div_left _ _ positive, Nat.div_eq_of_lt (Nat.mod_lt _ positive),
      Nat.zero_add]
  have rounded : roundHalfEven (leading * 16 ^ 13 + mantissa % 16 ^ 13) (16 ^ (13 - info.precision)) =
      leading * 16 ^ info.precision + mantissa / 16 ^ (13 - info.precision) % 16 ^ info.precision +
        if fpRoundUp (fixedDigits 16 13 mantissa) leading info.precision = true then 1 else 0 := by
    simp only [roundHalfEven, dropped, kept, ← fpRoundUp_eq leading mantissa short]
    split <;> rfl
  have written : ∀ n rest, (List.range info.precision).map (fun i => fpHexDigit hexChar
      (if i < info.precision then (fixedDigits 16 info.precision n ++ rest).getD i 0 else 0)) =
      (fixedDigits 16 info.precision n).map (fpHexDigit hexChar) := by
    intro n rest
    rw [map_range_padded _ (by simp) le_rfl, Nat.sub_self, List.take_left' (by simp)]
    simp
  rw [rounded]
  simp only [fpHexNumber, found, if_true, Bool.true_and, fpNibbles_eq, short, fpHexDigits,
    fixedDigits_length]
  generalize mantissa / 16 ^ (13 - info.precision) = q at parts ⊢
  by_cases rounds : fpRoundUp (fixedDigits 16 13 mantissa) leading info.precision = true
  · have next := carry_eq leading q (Nat.pow_pos (n := info.precision) (by decide : 0 < 16))
    rw [if_pos rounds, if_pos rounds, parts, fpIncrement_eq]
    refine ⟨_, q + 1, ?_, next, ?_⟩
    · split_ifs <;> omega
    · simp only [decide_eq_true_eq, written]
  · rw [if_neg rounds, if_neg rounds]
    refine ⟨leading, q, by omega, rfl, ?_⟩
    simp only [parts, written, Bool.false_eq_true, if_false]

theorem hexFloatValue_eq (leading count n : Nat) (exponent : Int) :
    hexFloatValue leading (fixedDigits 16 count n) exponent =
      (leading * 16 ^ count + n % 16 ^ count : Nat) * 2 ^ (exponent - 4 * count) := by
  rw [hexFloatValue, fixedDigits_length, fixedDigits_value]

theorem hexUnit_eq (count : Nat) (exponent : Int) :
    ((16 ^ count : Nat) : ℚ) * 2 ^ exponent = 2 ^ (exponent + 4 * count) := by
  have base : (16 : ℚ) = 2 ^ 4 := by norm_num
  rw [Nat.cast_pow, Nat.cast_ofNat, base, ← pow_mul, ← zpow_natCast, ← zpow_add₀ two_ne_zero]
  congr 1
  push_cast
  ring

theorem fpHexNumber_denotes {leading : Nat} (first : leading ≤ 1) (mantissa : Nat) (exponent : Int) :
    ∃ next fraction, next ≤ 2 ∧ (∀ digit ∈ fraction, digit < 16) ∧
      fpHexNumber info hexChar leading mantissa exponent =
        fpHexDigits info hexChar next fraction exponent ∧
      (info.precisionFound = false → hexFloatValue next fraction (exponent - 1023) =
        (leading * 16 ^ 13 + mantissa % 16 ^ 13 : Nat) * 2 ^ (exponent - 1023 - 52)) ∧
      (info.precisionFound = true → fraction.length = info.precision ∧
        RoundsHalfEven (2 ^ (exponent - 1023 - 4 * info.precision))
          ((leading * 16 ^ 13 + mantissa % 16 ^ 13 : Nat) * 2 ^ (exponent - 1023 - 52))
          (hexFloatValue next fraction (exponent - 1023))) := by
  have digits := fun count n => fixedDigits_lt (by decide : 0 < 16) count n
  cases found : info.precisionFound
  · obtain ⟨out, inside, zeros, written⟩ :=
      fpHexNumber_exact info hexChar found leading mantissa exponent
    refine ⟨leading, _, by omega, digits _ _, written, fun _ => ?_, by simp⟩
    have position : exponent - 1023 - 52 + 4 * (13 - out : Nat) = exponent - 1023 - 4 * out := by
      omega
    rw [hexFloatValue_eq, hexAligned leading mantissa inside, zeros, Nat.zero_add, Nat.cast_mul,
      mul_right_comm, hexUnit_eq, position, mul_comm]
  · by_cases short : info.precision < 13
    · obtain ⟨next, n, more, rounded, written⟩ :=
        fpHexNumber_rounded info hexChar found short leading mantissa
        exponent
      refine ⟨next, _, by omega, digits _ _, written, by simp, fun _ => ⟨fixedDigits_length _ _, ?_⟩⟩
      rw [hexFloatValue_eq, rounded]
      have rounds := roundHalfEven_rounds (leading * 16 ^ 13 + mantissa % 16 ^ 13)
        (16 ^ (13 - info.precision))
        (2 ^ (exponent - 1023 - 52)) (Nat.pow_pos (by decide)) (zpow_pos two_pos _)
      have position : exponent - 1023 - 52 + 4 * (13 - info.precision : Nat) = exponent - 1023 -
          4 * info.precision := by
        omega
      rwa [hexUnit_eq, position] at rounds
    · rw [not_lt] at short
      refine ⟨leading, _, by omega, digits _ _, fpHexNumber_long info hexChar found short leading
        mantissa exponent, by simp, fun _ => ⟨fixedDigits_length _ _, ?_⟩⟩
      obtain ⟨more, precision⟩ := Nat.exists_eq_add_of_le short
      have scaled : leading * 16 ^ (13 + more) + mantissa * 16 ^ more % 16 ^ (13 + more) =
          (leading * 16 ^ 13 + mantissa % 16 ^ 13) * 16 ^ more := by
        rw [Nat.pow_add, Nat.mul_mod_mul_right]
        ring
      have position : exponent - 1023 - 4 * (13 + more : Nat) + 4 * more = exponent - 1023 - 52 := by
        push_cast
        ring
      rw [hexFloatValue_eq, precision, Nat.add_sub_cancel_left, scaled, ← position, ← hexUnit_eq,
        ← mul_assoc, ← Nat.cast_mul]
      exact RoundsHalfEven.exact (zpow_pos two_pos _)
        (((leading * 16 ^ 13 + mantissa % 16 ^ 13) * 16 ^ more : Nat) : ℤ)

end Numbers

section Texts

variable {exponent : Int}

theorem fpHexDigit_eq : ∀ digit < 16, fpHexDigit 0x41 digit = hexDigit 0x41 digit ∧
    fpHexDigit 0x61 digit = hexDigit 0x61 digit := by
  decide

theorem naturalText_eq {n : Nat} (small : n < 10000) :
    (if n ≥ 1000 then [fpDigit (n / 1000)] else []) ++
      (if n ≥ 100 then [fpDigit (n / 100 % 10)] else []) ++
        (if n ≥ 10 then [fpDigit (n / 10 % 10)] else []) ++ [fpDigit (n % 10)] = naturalText n := by
  have pair : ∀ n, paddedText 2 n = [fpDigit (n / 10 % 10), fpDigit (n % 10)] := fun _ => rfl
  have last : ∀ n, paddedText 1 n = [fpDigit (n % 10)] := fun _ => rfl
  have three : ∀ n, paddedText 3 n = [fpDigit (n / 10 / 10 % 10), fpDigit (n / 10 % 10),
    fpDigit (n % 10)] := fun _ => rfl
  have single : ∀ {n}, 0 < n → n < 10 → decimalText n = [fpDigit n] := decimalText_digit
  rw [naturalText]
  by_cases thousand : n ≥ 1000
  · rw [if_neg (by omega : ¬ n = 0), decimalText_append 3 (by omega), single (by omega) (by omega),
      three]
    have hundred : n ≥ 100 := by omega
    have ten : n ≥ 10 := by omega
    simp [thousand, hundred, ten, Nat.div_div_eq_div_mul]
  · by_cases hundred : n ≥ 100
    · rw [if_neg (by omega : ¬ n = 0), decimalText_append 2 (by omega),
        single (by omega) (by omega), pair]
      have ten : n ≥ 10 := by omega
      have digit : n / 100 % 10 = n / 100 := by omega
      simp [thousand, hundred, ten, digit]
    · by_cases ten : n ≥ 10
      · rw [if_neg (by omega : ¬ n = 0), decimalText_append 1 (by omega),
          single (by omega) (by omega), last]
        have digit : n / 10 % 10 = n / 10 := by omega
        simp [thousand, hundred, ten, digit]
      · by_cases zero : n = 0
        · subst zero
          rfl
        · rw [if_neg zero, single (by omega) (by omega)]
          have digit : n % 10 = n := by omega
          simp [thousand, hundred, ten, digit]

theorem fpHexExponent_eq (small : exponent.natAbs < 10000) :
    fpHexExponent exponent = (if exponent ≥ 0 then 0x2B else 0x2D) ::
      naturalText exponent.natAbs := by
  rw [← naturalText_eq small]
  rfl

theorem fpHexDigits_eq (info : Formatconversioninfo) (upper : Bool) {leading : Nat}
    {fraction : List Nat} (digits : ∀ digit ∈ fraction, digit < 16)
    (small : (exponent - 1023).natAbs < 10000) :
    [0x30, if upper then 0x58 else 0x78] ++ fpHexDigits info
    (if upper then 0x41 else 0x61) leading fraction exponent =
      hexFloatText upper info.hashFound leading fraction (exponent - 1023) := by
  have same : fraction.map (fpHexDigit (if upper then 0x41 else 0x61)) =
      fraction.map (hexDigit (if upper then 0x41 else 0x61)) := by
    apply List.map_congr_left
    intro digit member
    cases upper
    · exact (fpHexDigit_eq digit (digits digit member)).2
    · exact (fpHexDigit_eq digit (digits digit member)).1
  rw [fpHexDigits, hexFloatText, fpHexExponent_eq small, same, fpFraction]
  cases upper <;> simp [List.length_pos_iff, decimalDigit]

end Texts

section Denotes

variable (spec : Formatspec) (upper : Bool)
variable {bits : UInt64}

/-- Of the `double`: a sign at most, and then a name or the number. With a precision the value is
rounded to this many digits behind the point. -/
def DenotesDouble (bits : UInt64) (text : List UInt8) : Prop :=
  ∃ body, text = fpSign (spec.info [] (if upper then 0x41 else 0x61)) (fpNegative bits) ++ body ∧
    if doubleExponentBits bits = 0x7FF then body = if doubleFraction bits = 0 then fpInf else fpNan
    else ∃ point leading fraction exponent, leading < 10 ∧ (∀ digit ∈ fraction, digit < 16) ∧
      body = hexFloatText upper point leading fraction exponent ∧
      (spec.precision = none → hexFloatValue leading fraction exponent = doubleMagnitude bits) ∧
      ∀ precision, spec.precision = some precision → fraction.length = precision ∧
        RoundsHalfEven (2 ^ (doubleExponent bits - 4 * precision)) (doubleMagnitude bits)
          (hexFloatValue leading fraction exponent)

def negativeInfinity : UInt64 := 0xFFF0000000000000

variable {spec upper}

theorem floatInfo_fields (spec : Formatspec) (c : UInt8) : (spec.info [] c).conversion = c ∧
    (spec.info [] c).precisionFound = spec.precision.isSome ∧
    (spec.info [] c).precision = spec.precision.getD 0 := by
  rw [Formatspec.info_eq]
  exact ⟨rfl, rfl, rfl⟩

theorem fpHexNumber_described {leading mantissa : Nat} {exponent : Int} (first : leading ≤ 1)
    (significand : leading * 16 ^ 13 + mantissa % 16 ^ 13 = doubleSignificand bits)
    (power : exponent - 1023 = doubleExponent bits) :
    ∃ point leading' fraction exponent', leading' < 10 ∧ (∀ digit ∈ fraction, digit < 16) ∧
      [0x30, if upper then 0x58 else 0x78] ++ fpHexNumber
    (spec.info [] (if upper then 0x41 else 0x61))
        (if upper then 0x41 else 0x61) leading mantissa exponent =
          hexFloatText upper point leading' fraction exponent' ∧
      (spec.precision = none → hexFloatValue leading' fraction exponent' = doubleMagnitude bits) ∧
      ∀ precision, spec.precision = some precision → fraction.length = precision ∧
        RoundsHalfEven (2 ^ (doubleExponent bits - 4 * precision)) (doubleMagnitude bits)
          (hexFloatValue leading' fraction exponent') := by
  obtain ⟨-, found, precision⟩ := floatInfo_fields spec (if upper then 0x41 else 0x61)
  have small : (exponent - 1023).natAbs < 10000 := by
    have bound : doubleExponentBits bits < 2 ^ 11 := Nat.mod_lt _ (by decide)
    rw [power, doubleExponent]
    omega
  obtain ⟨next, fraction, fewer, digits, written, exact_, rounds⟩ := fpHexNumber_denotes
    (spec.info [] (if upper then 0x41 else 0x61)) (if upper then 0x41 else 0x61) first
      mantissa exponent
  rw [significand, power] at exact_ rounds
  rw [found] at exact_ rounds
  rw [precision] at rounds
  refine ⟨(spec.info [] (if upper then 0x41 else 0x61)).hashFound, next, fraction,
    exponent - 1023, by omega, digits, ?_, ?_, ?_⟩
  · rw [written]
    exact fpHexDigits_eq _ upper digits small
  · intro none
    rw [power]
    exact exact_ (by rw [none]; rfl)
  · intro given some
    rw [some] at rounds
    rw [power]
    exact rounds rfl

theorem fpHexText_denotes (finite : doubleExponentBits bits ≠ 0x7FF) :
    DenotesDouble spec upper bits
      (fpSign (spec.info [] (if upper then 0x41 else 0x61)) (fpNegative bits) ++
      fpHexText (spec.info [] (if upper then 0x41 else 0x61)) bits) := by
  obtain ⟨conversion, found, precision⟩ := floatInfo_fields spec (if upper then 0x41 else 0x61)
  have letter : (if (spec.info [] (if upper then 0x41 else 0x61)).conversion = 0x41 then 0x41
    else 0x61) =
      if upper then (0x41 : UInt8) else 0x61 := by
    rw [conversion]
    cases upper <;> rfl
  have case_ : (if (if upper then (0x41 : UInt8) else 0x61) = 0x41 then (0x58 : UInt8) else 0x78) =
      if upper then 0x58 else 0x78 := by
    cases upper <;> rfl
  have bound : doubleFraction bits < 2 ^ 52 := Nat.mod_lt _ (by decide)
  refine ⟨_, rfl, ?_⟩
  rw [if_neg finite, fpHexText]
  change ∃ _ _ _ _, _ ∧ _ ∧
    [0x30, _] ++ (if doubleExponentBits bits = 0 ∧ doubleFraction bits = 0 then _
    else if doubleExponentBits bits = 0 then fpHexNumber _ _ 0 (doubleFraction bits) 1
    else fpHexNumber _ _ 1 (2 ^ 52 + doubleFraction bits) (doubleExponentBits bits : Nat)) = _ ∧ _
  simp only [letter, case_]
  by_cases zero : doubleExponentBits bits = 0 ∧ doubleFraction bits = 0
  · simp only [if_pos zero]
    have magnitude : doubleMagnitude bits = 0 := by
      rw [doubleMagnitude, doubleSignificand, if_pos zero.1, zero.2, Nat.cast_zero, zero_mul]
    have value : ∀ count, hexFloatValue 0 (fixedDigits 16 count 0) 0 = 0 := by
      intro count
      rw [hexFloatValue_eq, Nat.zero_mul, Nat.zero_mod, Nat.cast_zero, zero_mul]
    rw [magnitude, found, precision]
    cases given : spec.precision with
    | none =>
      refine ⟨false, 0, fixedDigits 16 0 0, 0, by decide, by simp [fixedDigits], ?_,
        fun _ => value 0, by simp⟩
      cases upper <;> rfl
    | some count =>
      refine ⟨(spec.info [] (if upper then 0x41 else 0x61)).hashFound, 0, fixedDigits 16 count 0,
        0, by decide, fixedDigits_lt (by decide) count 0, ?_, by simp, ?_⟩
      · rw [fixedDigits_zero]
        cases upper <;> simp [hexFloatText, fpFraction, fpZeros, hexDigit, decimalDigit, naturalText,
          Nat.pos_iff_ne_zero]
      · rintro _ ⟨rfl⟩
        refine ⟨fixedDigits_length _ _, ?_⟩
        rw [value]
        simpa using RoundsHalfEven.exact (zpow_pos two_pos (doubleExponent bits - 4 * count)) 0
  · simp only [if_neg zero]
    by_cases subnormal : doubleExponentBits bits = 0
    · simp only [if_pos subnormal]
      apply fpHexNumber_described (by decide)
      · rw [doubleSignificand, if_pos subnormal]
        omega
      · rw [doubleExponent, subnormal]
        rfl
    · simp only [if_neg subnormal]
      apply fpHexNumber_described le_rfl
      · rw [doubleSignificand, if_neg subnormal]
        omega
      · rw [doubleExponent, Nat.max_eq_left (by omega)]

theorem negativeInfinity_iff (bits : UInt64) : bits = negativeInfinity ↔
    doubleExponentBits bits = 0x7FF ∧ doubleFraction bits = 0 ∧ fpNegative bits = true := by
  have bound := bits.toNat_lt
  have sign : (bits >>> 63).toNat = bits.toNat / 2 ^ 63 := by
    rw [UInt64.toNat_shiftRight, Nat.shiftRight_eq_div_pow]
    rfl
  have negative : fpNegative bits = true ↔ ¬ bits.toNat / 2 ^ 63 = 0 := by
    rw [fpNegative, decide_eq_true_iff, ← UInt64.toNat_inj.ne, sign]
    rfl
  rw [negative, ← UInt64.toNat_inj, negativeInfinity, doubleExponentBits, doubleFraction]
  constructor
  · intro same
    rw [same]
    decide
  · rintro ⟨exponent, fraction, some⟩
    have value : UInt64.toNat 0xFFF0000000000000 = 0xFFF0000000000000 := rfl
    omega

theorem appends_fpAConversion (env : BufferEnv) (fresh : Nat → UInt8) (info : Formatconversioninfo)
    (bits : UInt64) :
    Appends (sprintfFpAConversion env fresh info bits)
      (fpPadded info (fpSign info (fpNegative bits) ++
      if doubleExponentBits bits = 0x7FF then
        if doubleFraction bits ≠ 0 then fpNan else if fpNegative bits then 0x2D :: fpInf else fpInf
      else fpHexText info bits)) := by
  have signed := fpSign_signed info (fpNegative bits)
  apply appends_fpJustified
  · apply (appends_addEach env fresh (fpSign info (fpNegative bits))).andThen
    change Appends (fun buffer => if doubleExponentBits bits = 0x7FF then if doubleFraction bits ≠
      0 then _ else _ else _) _
    by_cases special : doubleExponentBits bits = 0x7FF
    · simp only [if_pos special]
      by_cases nan : doubleFraction bits ≠ 0
      · simp only [if_pos nan]
        exact appends_addString env fresh fpNan
      · simp only [if_neg nan]
        cases fpNegative bits
        · exact appends_addString env fresh fpInf
        · exact appends_addString env fresh (0x2D :: fpInf)
    · simp only [if_neg special]
      exact appends_addEach env fresh (fpHexText info bits)
  · split
    · split
      · exact fpStable_special info signed (.inr rfl)
      · split
        · rename_i negative
          rw [fpSign, if_pos negative]
          have insert : ∀ rest, fpInsert info ([0x2D] ++ 0x2D :: fpInf ++ rest) =
              if info.zeroFound then (1, 0x30) else (0, 0x20) := by
            intro rest
            simp [fpInsert, fpInf, fpNan]
          have plain := insert []
          rw [List.append_nil] at plain
          refine ⟨fun rest => by rw [insert, plain], ?_⟩
          rw [plain]
          split_ifs <;> simp [fpInf]
        · exact fpStable_special info signed (.inl rfl)
    · exact fpStable_number info signed (by decide) (by decide) fun _ => by simp

/-- The text of an `a` conversion denotes the `double`, unless it is the negative infinity. -/
theorem sprintfFpAConversion_denotes_iff (env : BufferEnv) (fresh : Nat → UInt8) (spec : Formatspec)
    (upper : Bool) (bits : UInt64) :
    (∃ text, DenotesDouble spec upper bits text ∧
      Appends (sprintfFpAConversion env fresh (spec.info [] (if upper then 0x41 else 0x61)) bits)
        (fpPadded (spec.info [] (if upper then 0x41 else 0x61)) text)) ↔ bits ≠ negativeInfinity := by
  have appends := appends_fpAConversion env fresh (spec.info [] (if upper then 0x41 else 0x61)) bits
  have infinity := negativeInfinity_iff bits
  constructor
  · rintro ⟨text, ⟨body, rfl, denotes⟩, described⟩ isInfinity
    obtain ⟨special, infinite, negative⟩ := infinity.mp isInfinity
    rw [if_pos special, if_pos infinite] at denotes
    have same := congrArg (List.count 0x2D) (appends.unique described)
    rw [fpPadded_count _ _ (by decide) (by decide), fpPadded_count _ _ (by decide) (by decide),
      denotes, if_pos special, if_neg (not_not.mpr infinite), if_pos negative, fpSign,
      if_pos negative] at same
    exact absurd same (by decide)
  · intro notInfinity
    rw [Ne, infinity] at notInfinity
    refine ⟨_, ?_, appends⟩
    by_cases special : doubleExponentBits bits = 0x7FF
    · refine ⟨_, rfl, ?_⟩
      rw [if_pos special, if_pos special]
      by_cases nan : doubleFraction bits = 0
      · have positive : ¬ fpNegative bits = true :=
          fun negative => notInfinity ⟨special, nan, negative⟩
        rw [if_neg (not_not.mpr nan), if_pos nan, if_neg positive]
      · rw [if_pos nan, if_neg nan]
    · rw [if_neg special]
      exact fpHexText_denotes special

/-- The negative infinity has two signs. -/
theorem sprintfFpAConversion_doubles :
    ¬ ∀ (env : BufferEnv) (fresh : Nat → UInt8) (spec : Formatspec) (upper : Bool) (bits : UInt64),
      ∃ text, DenotesDouble spec upper bits text ∧
        Appends (sprintfFpAConversion env fresh (spec.info [] (if upper then 0x41 else 0x61)) bits)
          (fpPadded (spec.info [] (if upper then 0x41 else 0x61)) text) := by
  intro always
  obtain ⟨text, ⟨body, rfl, denotes⟩, described⟩ := always ⟨0, fun _ _ => 0⟩ (fun _ => 0)
    ⟨false, false, false, false, false, none, none⟩ false 0xFFF0000000000000
  have appends := appends_fpAConversion ⟨0, fun _ _ => 0⟩ (fun _ => 0)
    (Formatspec.info ⟨false, false, false, false, false, none, none⟩ [] 0x61) 0xFFF0000000000000
  have same := congrArg (List.count 0x2D) (appends.unique described)
  rw [fpPadded_count _ _ (by decide) (by decide), fpPadded_count _ _ (by decide) (by decide)] at same
  rw [if_pos (by decide), if_pos (by decide)] at denotes
  rw [denotes] at same
  exact absurd same (by decide)

end Denotes

end MulleCore
