import MulleCore.Dtostr.Strtod
import MulleCore.Sprintf.SprintfFpDigits

/-!
What `mulle_strtod_parse` makes of digits, a point and an exponent.
-/

namespace MulleCore

open Library

section Digits

variable {digit : Nat} {state : ParseState} {v : Nat}

/-- The digits of `v` have been seen. Behind the nineteenth they are only counted. -/
structure ParseHolds (state : ParseState) (v : Nat) : Prop where
  significand : state.significand = v / 10 ^ state.dropped
  truncated : state.truncated = true ↔ v % 10 ^ state.dropped ≠ 0
  nonzero : state.nonzero = true ↔ v ≠ 0
  digits : v ≠ 0 → HasDigits state.significand state.digits
  none : v = 0 → state.digits = 0
  most : state.digits ≤ strtodMaxDigits
  full : state.dropped ≠ 0 → state.digits = strtodMaxDigits

theorem parseHolds_initial : ParseHolds ParseState.initial 0 := by
  refine ⟨rfl, ?_, ?_, ?_, ?_, ?_, ?_⟩ <;> simp [ParseState.initial]

theorem decimalDigit_value (small : digit < 10) : strtodIsDigit (decimalDigit digit) = true ∧
    (decimalDigit digit).toNat - 0x30 = digit ∧ (decimalDigit digit = 0x30 ↔ digit = 0) := by
  have digits : ∀ digit < 10, strtodIsDigit (decimalDigit digit) = true ∧
      (decimalDigit digit).toNat - 0x30 = digit ∧ (decimalDigit digit = 0x30 ↔ digit = 0) := by decide
  exact digits digit small

theorem ParseHolds.addDigit (holds : ParseHolds state v) (small : digit < 10) (fraction : Bool) :
    ParseHolds (addDigit state (decimalDigit digit) fraction) (v * 10 + digit) := by
  obtain ⟨-, value, zero⟩ := decimalDigit_value small
  obtain ⟨counted, countedHolds, same⟩ : ∃ counted, ParseHolds counted v ∧
      (if fraction then { state with fracCount := state.fracCount + 1 }
        else { state with intCount := state.intCount + 1 }) = counted := by
    refine ⟨_, ?_, rfl⟩
    cases fraction <;> exact ⟨holds.significand, holds.truncated, holds.nonzero, holds.digits,
      holds.none, holds.most, holds.full⟩
  rw [MulleCore.addDigit, same]
  have nonzero := countedHolds.nonzero
  have truncated := countedHolds.truncated
  have significand := countedHolds.significand
  have most := countedHolds.most
  have full := countedHolds.full
  simp only [value, zero]
  by_cases leading : digit = 0 ∧ ¬ counted.nonzero = true
  · rw [if_pos leading]
    obtain rfl : v = 0 := by
      by_contra other
      exact leading.2 (nonzero.mpr other)
    rw [leading.1]
    exact countedHolds
  · have positive : v * 10 + digit ≠ 0 := by
      intro none
      have zeros : v = 0 ∧ digit = 0 := by omega
      exact leading ⟨zeros.2, fun found => nonzero.mp found zeros.1⟩
    rw [if_neg leading]
    split
    · rename_i room
      have all : counted.dropped = 0 := by
        by_contra some
        have := full some
        omega
      rw [all, Nat.pow_zero, Nat.div_one] at significand
      rw [all, Nat.pow_zero, Nat.mod_one] at truncated
      refine ⟨?_, ?_, ?_, fun _ => ?_, fun none => absurd none positive, room,
        fun some => absurd all some⟩
      · simp [all, significand]
      · simpa [all, Nat.mod_one] using truncated
      · exact iff_of_true rfl positive
      · dsimp only
        rw [significand]
        by_cases first : v = 0
        · rw [countedHolds.none first, first]
          exact ⟨Nat.succ_pos _, by simp; omega, by simpa using small⟩
        · have has := countedHolds.digits first
          rw [significand] at has
          have one := has.shift 1
          have least := one.least
          have below := has.below
          rw [Nat.pow_one] at least
          refine ⟨Nat.succ_pos _, by omega, ?_⟩
          rw [Nat.pow_succ]
          omega
    · rename_i noRoom
      have filled : counted.digits = strtodMaxDigits := by omega
      have some : v ≠ 0 := by
        intro none
        rw [countedHolds.none none] at filled
        exact absurd filled (by decide)
      have quotient : (v * 10 + digit) / 10 ^ (counted.dropped + 1) = v / 10 ^ counted.dropped := by
        rw [Nat.pow_succ', ← Nat.div_div_eq_div_mul]
        congr 1
        omega
      have remainder : (v * 10 + digit) % 10 ^ (counted.dropped + 1) = digit +
          10 * (v % 10 ^ counted.dropped) := by
        rw [Nat.pow_succ', Nat.mod_mul]
        congr 1
        · omega
        · congr 2
          omega
      refine ⟨?_, ?_, ?_, fun _ => countedHolds.digits some, fun none => absurd none positive, most,
        fun _ => filled⟩
      · dsimp only
        rw [quotient, significand]
      · dsimp only
        rw [remainder]
        simp only [Bool.or_eq_true, truncated, decide_eq_true_eq, ne_eq, zero]
        omega
      · exact iff_of_true rfl positive

def addDigits (state : ParseState) (text : List UInt8) (fraction : Bool) : ParseState :=
  text.foldl (fun state c => addDigit state c fraction) state

theorem paddedText_snoc (count n : Nat) :
    paddedText (count + 1) n = paddedText count (n / 10) ++ [decimalDigit (n % 10)] := by
  rw [paddedText, fixedDigits, List.map_append]
  rfl

theorem addDigits_holds (holds : ParseHolds state v) (fraction : Bool) (count n : Nat) :
    ParseHolds (addDigits state (paddedText count n) fraction) (v * 10 ^ count + n % 10 ^ count) := by
  induction count generalizing n with
  | zero => simpa [Nat.mod_one, addDigits, paddedText, fixedDigits] using holds
  | succ count ih =>
    have step := (ih (n / 10)).addDigit (Nat.mod_lt n (by decide : 0 < 10)) fraction
    have value : (v * 10 ^ count + n / 10 % 10 ^ count) * 10 + n % 10 = v * 10 ^ (count + 1) +
        n % 10 ^ (count + 1) := by
      rw [Nat.pow_succ', Nat.mod_mul]
      ring
    rw [value] at step
    rw [paddedText_snoc, addDigits, List.foldl_append]
    exact step

theorem addDigit_counts (state : ParseState) (c : UInt8) (fraction : Bool) :
    (addDigit state c fraction).intCount = state.intCount + (if fraction then 0 else 1) ∧
      (addDigit state c fraction).fracCount = state.fracCount + if fraction then 1 else 0 := by
  cases fraction <;> simp only [addDigit] <;> split_ifs <;> simp_all

theorem addDigits_counts (state : ParseState) (text : List UInt8) (fraction : Bool) :
    (addDigits state text fraction).intCount = state.intCount +
      (if fraction then 0 else text.length) ∧
      (addDigits state text fraction).fracCount = state.fracCount + if fraction then
        text.length else 0 := by
  induction text generalizing state with
  | nil => simp [addDigits]
  | cons c text ih =>
    obtain ⟨int, frac⟩ := ih (addDigit state c fraction)
    obtain ⟨firstInt, firstFrac⟩ := addDigit_counts state c fraction
    have step : addDigits state (c :: text) fraction =
      addDigits (addDigit state c fraction) text fraction := rfl
    rw [step, int, frac, firstInt, firstFrac, List.length_cons]
    cases fraction
    · exact ⟨by simp; omega, rfl⟩
    · exact ⟨rfl, by simp; omega⟩

end Digits

section Parts

variable {grammar : StrtodSyntax}
variable {text rest : List UInt8} {state : ParseState} {tail : List UInt8} {exponent : Int}

def EndsDigits (rest : List UInt8) : Prop := rest[0]?.any strtodIsDigit = false

theorem paddedText_isDigit (count n : Nat) : ∀ c ∈ paddedText count n, strtodIsDigit c = true := by
  intro c member
  obtain ⟨digit, inside, rfl⟩ := List.mem_map.mp member
  exact (decimalDigit_value (fixedDigits_lt (by decide) count n digit inside)).1

theorem parseInteger_digits (single : grammar.grouping = 0) (state : ParseState)
    (digits : ∀ c ∈ text, strtodIsDigit c = true) (ends : EndsDigits rest) :
    parseInteger grammar state (text ++ rest) = (addDigits state text false, rest) := by
  have loop : ∀ memo run, parseIntegerFrom grammar state memo 0 run (text ++ rest) =
      (addDigits state text false, rest) := by
    intro memo run
    induction text generalizing state run with
    | nil =>
      cases rest with
      | nil => simp [parseIntegerFrom, parseIntegerEnd, addDigits]
      | cons c rest =>
        have other : strtodIsDigit c = false := ends
        simp [parseIntegerFrom, other, single, parseIntegerEnd, addDigits]
    | cons c text ih =>
      rw [List.cons_append, parseIntegerFrom, if_pos (digits c (by simp))]
      exact ih _ (fun c member => digits c (by simp [member])) _
  exact loop _ _

theorem parseFraction_digits (state : ParseState) (digits : ∀ c ∈ text, strtodIsDigit c = true)
    (ends : EndsDigits rest) :
    parseFraction state (text ++ rest) = (addDigits state text true, rest) := by
  induction text generalizing state with
  | nil =>
    cases rest with
    | nil => rfl
    | cons c rest =>
      have other : strtodIsDigit c = false := ends
      rw [List.nil_append, parseFraction, other]
      rfl
  | cons c text ih =>
    rw [List.cons_append, parseFraction, if_pos (digits c (by simp))]
    exact ih _ fun c member => digits c (by simp [member])

theorem parseExponentDigits_eq (ends : EndsDigits rest) (value count n : Nat)
    (few : value * 10 ^ count + n % 10 ^ count < 100000) :
    parseExponentDigits value (paddedText count n ++ rest) =
      (value * 10 ^ count + n % 10 ^ count, rest) := by
  induction count generalizing value with
  | zero =>
    rw [paddedText, fixedDigits, List.map_nil, List.nil_append, Nat.pow_zero, Nat.mod_one]
    cases rest with
    | nil => simp [parseExponentDigits]
    | cons c rest =>
      have other : strtodIsDigit c = false := ends
      simp [parseExponentDigits, other]
  | succ count ih =>
    have small : n / 10 ^ count % 10 < 10 := Nat.mod_lt _ (by decide)
    obtain ⟨isDigit, digit, -⟩ := decimalDigit_value small
    have parts : n % 10 ^ (count + 1) = n % 10 ^ count + 10 ^ count * (n / 10 ^ count % 10) := by
      rw [Nat.pow_succ, Nat.mod_mul]
    have next : (value * 10 + n / 10 ^ count % 10) * 10 ^ count + n % 10 ^ count =
        value * 10 ^ (count + 1) + n % 10 ^ (count + 1) := by
      rw [parts]
      ring
    have before : value ≤ strtodExponentLimit := by
      have power : 10 ≤ 10 ^ (count + 1) := Nat.le_self_pow (by omega) 10
      have product : value * 10 ≤ value * 10 ^ (count + 1) := Nat.mul_le_mul_left _ power
      rw [strtodExponentLimit]
      omega
    rw [paddedText, fixedDigits_cons, List.map_cons, List.cons_append, parseExponentDigits,
      if_pos isDigit, if_pos before, digit, ← next]
    exact ih _ (by rwa [next])

structure StrtodTail (grammar : StrtodSyntax) (tail : List UInt8) (exponent : Int) : Prop where
  parses : parseExponent grammar tail = (exponent, [])
  ends : EndsDigits tail
  noPoint : tail[0]? ≠ some grammar.decimalPoint

theorem strtodTail_nil (grammar : StrtodSyntax) : StrtodTail grammar [] 0 := by
  refine ⟨?_, rfl, ?_⟩ <;> simp [parseExponent]

def pointText (point : UInt8) (count n : Nat) : List UInt8 :=
  if count = 0 then [] else point :: paddedText count n

theorem ParseHolds.notDropped {v : Nat} (holds : ParseHolds state v) (positive : v ≠ 0)
    (fits : v < 10 ^ 19) : state.dropped = 0 := by
  by_contra some
  obtain ⟨less, dropped⟩ := Nat.exists_eq_succ_of_ne_zero some
  have has := holds.digits positive
  have least := has.least
  rw [holds.full some, holds.significand, dropped, Nat.pow_succ', ← Nat.div_div_eq_div_mul,
    strtodMaxDigits] at least
  have most : v / 10 / 10 ^ less ≤ v / 10 := Nat.div_le_self _ _
  omega

theorem parsePoint_eq (point : grammar.decimalPoint ≠ 0)
    (some : state.intCount ≠ 0) (none : state.fracCount = 0) (count n : Nat)
    (ends : StrtodTail grammar tail exponent) :
    parsePoint grammar state (pointText grammar.decimalPoint count n ++ tail) =
      (addDigits state (paddedText count n) true, tail) := by
  rw [pointText]
  split
  · rename_i zero
    rw [zero, List.nil_append, parsePoint, if_neg fun found => ends.noPoint found.2.1]
    rfl
  · rename_i more
    have counts := (addDigits_counts state (paddedText count n) true).2
    have digits := parseFraction_digits state (paddedText_isDigit count n) ends.ends
    have found : (addDigits state (paddedText count n) true).fracCount ≠ 0 := by
      rw [counts, none, if_pos rfl, paddedText, List.length_map, fixedDigits_length]
      omega
    simp [parsePoint, point, some, digits, found]

theorem strtodParseNumber_eq (single : grammar.grouping = 0) (point : grammar.decimalPoint ≠ 0)
    (notDigit : strtodIsDigit grammar.decimalPoint = false) (sign : Bool) (start : List UInt8)
    {whole : Nat} (some : 0 < whole) (n count fraction : Nat)
    (ends : StrtodTail grammar tail exponent)
    (positive : n % 10 ^ whole * 10 ^ count + fraction % 10 ^ count ≠ 0)
    (fits : n % 10 ^ whole * 10 ^ count + fraction % 10 ^ count < 10 ^ 19) :
    ∃ digits, strtodParseNumber grammar sign start
        (paddedText whole n ++ (pointText grammar.decimalPoint count fraction ++ tail)) =
      (⟨n % 10 ^ whole * 10 ^ count + fraction % 10 ^ count, strtodClamp (exponent - count), sign,
        .normal, digits, false⟩, []) := by
  have behind : EndsDigits (pointText grammar.decimalPoint count fraction ++ tail) := by
    rw [pointText]
    split
    · exact ends.ends
    · exact notDigit
  have integer := addDigits_holds parseHolds_initial false whole n
  have counts := addDigits_counts ParseState.initial (paddedText whole n) false
  rw [Nat.zero_mul, Nat.zero_add] at integer
  have digits := parseInteger_digits single ParseState.initial (paddedText_isDigit whole n) behind
  generalize addDigits ParseState.initial (paddedText whole n) false = state at integer counts digits
  have length : ∀ count n, (paddedText count n).length = count := by simp [paddedText]
  rw [length] at counts
  have intCount : state.intCount = whole := by simpa [ParseState.initial] using counts.1
  have fracCount : state.fracCount = 0 := by simpa [ParseState.initial] using counts.2
  have pointed := parsePoint_eq point (by omega) fracCount count fraction ends
  have holds := addDigits_holds integer true count fraction
  have moreCounts := addDigits_counts state (paddedText count fraction) true
  generalize addDigits state (paddedText count fraction) true = last at pointed holds moreCounts
  rw [length, intCount, fracCount] at moreCounts
  have lastInt : last.intCount = whole := by simpa using moreCounts.1
  have lastFrac : last.fracCount = count := by simpa using moreCounts.2
  have dropped := holds.notDropped positive fits
  have significand := holds.significand
  have truncated := holds.truncated
  rw [dropped, Nat.pow_zero, Nat.div_one] at significand
  rw [dropped, Nat.pow_zero, Nat.mod_one] at truncated
  have has := (holds.digits positive).positive
  have exact_ : last.truncated = false := by simpa using truncated
  have found : ¬ (last.intCount = 0 ∧ last.fracCount = 0) := by omega
  refine ⟨last.digits, ?_⟩
  rw [strtodParseNumber, digits]
  dsimp only
  rw [pointed]
  dsimp only
  rw [if_neg found, ends.parses]
  dsimp only
  rw [if_neg has.ne', significand, dropped, lastFrac, exact_, Int.natCast_zero, Int.add_zero]

end Parts

section Begins

variable {grammar : StrtodSyntax}
variable {c : UInt8}

theorem strtodIsDigit_cases (digit : strtodIsDigit c = true) :
    strtodIsSpace c = false ∧ c ≠ 0x2D ∧ c ≠ 0x2B ∧ strtodToLower c = c ∧ c ≠ 0x69 ∧ c ≠ 0x6E := by
  have digits : ∀ n < 256, strtodIsDigit (UInt8.ofNat n) = true →
    strtodIsSpace (UInt8.ofNat n) = false ∧
      UInt8.ofNat n ≠ 0x2D ∧ UInt8.ofNat n ≠ 0x2B ∧ strtodToLower (UInt8.ofNat n) = UInt8.ofNat n ∧
      UInt8.ofNat n ≠ 0x69 ∧ UInt8.ofNat n ≠ 0x6E := by
    decide +kernel
  have found := digits c.toNat c.toNat_lt
  rw [UInt8.ofNat_toNat] at found
  exact found digit

theorem strtodParse_digit (digit : strtodIsDigit c = true) (more : List UInt8) :
    strtodParse (some grammar) (c :: more) =
      strtodParseNumber grammar false (c :: more) (c :: more) := by
  obtain ⟨notSpace, notMinus, notPlus, lower, notI, notN⟩ := strtodIsDigit_cases digit
  have spaces : (c :: more).dropWhile strtodIsSpace = c :: more := by
    rw [List.dropWhile_cons_of_neg (by simp [notSpace])]
  have noWord : ∀ first word, c ≠ first →
      strtodMatchWord (c :: more) (first :: word) grammar.flags.caseSensitive = 0 := by
    intro first word other
    rw [strtodMatchWord]
    split
    · rfl
    · rw [if_neg]
      intro same
      cases sensitive : grammar.flags.caseSensitive <;> simp [sensitive, lower, other] at same
  have special : parseSpecial grammar (c :: more) = (.normal, c :: more) := by
    rw [parseSpecial, noWord _ _ notI, noWord _ _ notI, noWord _ _ notN]
    simp
  simp [strtodParse, spaces, notMinus, notPlus, special]

end Begins

end MulleCore
