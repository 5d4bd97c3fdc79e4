import Mathlib.Algebra.Order.Ring.Int
import Mathlib.Data.List.Induction
import MulleCore.Utf.UtfScan

/-!
What `_mulle_utf_rover_longlong_decimal` makes of a decimal number. The accumulator holds the value
of the digits modulo 2^64, and an overflow is noticed only if a digit makes it smaller.
-/

namespace MulleCore

def decimalValue (digits : List Nat) : Nat := digits.foldl (fun value digit => value * 10 + digit) 0

/-- Some digit makes the value modulo 2^64 smaller. -/
def DecimalDrops (digits : List Nat) : Prop :=
  ∃ k < digits.length, decimalValue (digits.take (k + 1)) % 2 ^ 64 <
    decimalValue (digits.take k) % 2 ^ 64

inductive DecimalSign where
  | none
  | plus
  | minus
deriving DecidableEq

def DecimalSign.characters : DecimalSign → List Int
  | .none => []
  | .plus => [0x2B]
  | .minus => [0x2D]

def IsDecimalDigit (c : Int) : Prop := 0x30 ≤ c ∧ c ≤ 0x39

def digitCharacter (digit : Nat) : Int := 0x30 + digit

theorem decimalValue_snoc (digits : List Nat) (digit : Nat) :
    decimalValue (digits ++ [digit]) = decimalValue digits * 10 + digit := by
  simp [decimalValue]

section Values

theorem decimalValue_take_le (digits : List Nat) (k : Nat) :
    decimalValue (digits.take k) ≤ decimalValue digits := by
  induction digits using List.reverseRecOn with
  | nil => simp
  | append_singleton digits digit ih =>
    rcases Nat.lt_or_ge digits.length k with longer | shorter
    · have whole : (digits ++ [digit]).take k = digits ++ [digit] :=
        List.take_of_length_le (by rw [List.length_append, List.length_singleton]; exact longer)
      exact Nat.le_of_eq (congrArg decimalValue whole)
    · rw [List.take_append_of_le_length shorter, decimalValue_snoc]
      omega

theorem decimalValue_take_succ (digits : List Nat) (k : Nat) (inside : k < digits.length) :
    decimalValue (digits.take (k + 1)) = decimalValue (digits.take k) * 10 + digits[k] := by
  rw [List.take_add_one, List.getElem?_eq_getElem inside]
  exact decimalValue_snoc _ _

theorem not_decimalDrops (digits : List Nat) (fits : decimalValue digits < 2 ^ 64) :
    ¬ DecimalDrops digits := by
  rintro ⟨k, inside, drop⟩
  have now := decimalValue_take_le digits k
  have next := decimalValue_take_le digits (k + 1)
  have step := decimalValue_take_succ digits k inside
  rw [Nat.mod_eq_of_lt (by omega), Nat.mod_eq_of_lt (by omega)] at drop
  omega

end Values

section Loop

variable {encoding : UtfEncoding}

theorem longlongDecimalStep_digit (scan : LonglongScan) (value digit : Nat) (small : digit < 10)
    (opened : scan.state = .initScan ∨ scan.state = .hasSign ∨ scan.state = .hasValue)
    (accumulated : scan.value.toNat = value % 2 ^ 64) :
    ∃ next : UInt64, next.toNat = (value * 10 + digit) % 2 ^ 64 ∧
      longlongDecimalStep scan (digitCharacter digit) =
        if (value * 10 + digit) % 2 ^ 64 < value % 2 ^ 64 then
          ({ scan with state := .hasOverflown, value := next }, false)
        else ({ scan with state := .hasValue, value := next }, true) := by
  have isDigit : digitCharacter digit ≥ 0x30 ∧ digitCharacter digit ≤ 0x39 := by
    simp only [digitCharacter]
    omega
  have number : (digitCharacter digit - 0x30).toNat = digit := by
    simp only [digitCharacter]
    omega
  have summed : (scan.value * 10 + UInt64.ofNat digit).toNat = (value * 10 + digit) % 2 ^ 64 := by
    rw [UInt64.toNat_add, UInt64.toNat_mul, accumulated,
      UInt64.toNat_ofNat_of_lt' (by simp [UInt64.size]; omega)]
    have ten : (10 : UInt64).toNat = 10 := rfl
    rw [ten]
    omega
  refine ⟨scan.value * 10 + UInt64.ofNat digit, summed, ?_⟩
  simp only [longlongDecimalStep, if_pos isDigit, if_pos opened, number, ge_iff_le,
    UInt64.le_iff_toNat_le, summed, accumulated]
  by_cases smaller : (value * 10 + digit) % 2 ^ 64 < value % 2 ^ 64
  · rw [if_neg (by omega), if_pos smaller]
    simp [longlongDecimalSign]
  · rw [if_pos (by omega), if_neg smaller]

theorem longlongDecimalStep_other (scan : LonglongScan) (c : Int) (other : ¬ IsDecimalDigit c)
    (valued : scan.state = .hasValue) : longlongDecimalStep scan c = (scan, false) := by
  have noDigit : ¬ (c ≥ 0x30 ∧ c ≤ 0x39) := other
  simp [longlongDecimalStep, noDigit, longlongDecimalSign, valued]

theorem longlongDecimalLoop_cons (scan : LonglongScan) (seen : List encoding.Unit) (c : encoding.Unit)
    (rest : List encoding.Unit) : longlongDecimalLoop scan seen (c :: rest) =
      if (longlongDecimalStep scan (encoding.getCharacter c)).2 then
        longlongDecimalLoop (longlongDecimalStep scan (encoding.getCharacter c)).1 (c :: seen) rest
      else some ((longlongDecimalStep scan (encoding.getCharacter c)).1, ⟨seen, c :: rest⟩) := by
  rw [longlongDecimalLoop]
  rcases longlongDecimalStep scan (encoding.getCharacter c) with ⟨next, continues⟩
  cases continues <;> rfl

theorem longlongDecimalLoop_end (scan : LonglongScan) (seen tail : List encoding.Unit)
    (ended : ∀ c ∈ tail.head?, ¬ IsDecimalDigit (encoding.getCharacter c))
    (valued : scan.state = .hasValue) :
    longlongDecimalLoop scan seen tail = some (scan, ⟨seen, tail⟩) := by
  cases tail with
  | nil => rfl
  | cons c tail =>
    have stops := longlongDecimalStep_other scan (encoding.getCharacter c) (ended c (by simp)) valued
    simp [longlongDecimalLoop_cons, stops]

theorem longlongDecimalLoop_keeps (front back : List Nat) (units seen tail : List encoding.Unit)
    (scan : LonglongScan) (small : ∀ digit ∈ back, digit < 10)
    (spelled : units.map encoding.getCharacter = back.map digitCharacter)
    (ended : ∀ c ∈ tail.head?, ¬ IsDecimalDigit (encoding.getCharacter c))
    (opened : scan.state = .initScan ∨ scan.state = .hasSign ∨ scan.state = .hasValue)
    (valued : back = [] → scan.state = .hasValue)
    (accumulated : scan.value.toNat = decimalValue front % 2 ^ 64)
    (rises : ∀ k, front.length ≤ k → k < (front ++ back).length →
      decimalValue ((front ++ back).take k) % 2 ^ 64 ≤
        decimalValue ((front ++ back).take (k + 1)) % 2 ^ 64) :
    ∃ value : UInt64, value.toNat = decimalValue (front ++ back) % 2 ^ 64 ∧
      longlongDecimalLoop scan seen (units ++ tail) =
        some (⟨.hasValue, scan.sign, value⟩, ⟨units.reverse ++ seen, tail⟩) := by
  induction back generalizing front units seen scan with
  | nil =>
    obtain rfl : units = [] := by simpa using spelled
    refine ⟨scan.value, by simpa using accumulated, ?_⟩
    rw [List.nil_append, longlongDecimalLoop_end scan seen tail ended (valued rfl), ← valued rfl]
    rfl
  | cons digit back ih =>
    cases units with
    | nil => simp at spelled
    | cons c units =>
      obtain ⟨character, spelled⟩ : encoding.getCharacter c = digitCharacter digit ∧
          units.map encoding.getCharacter = back.map digitCharacter := by simpa using spelled
      obtain ⟨next, stored, step⟩ := longlongDecimalStep_digit scan (decimalValue front) digit
        (small digit (by simp)) opened accumulated
      have rise := rises front.length (Nat.le_refl _) (by simp)
      rw [List.take_append_of_le_length (by omega), List.take_length, List.take_append,
        List.take_of_length_le (by omega),
        show front.length + 1 - front.length = 1 by
          omega, List.take_succ_cons, List.take_zero, decimalValue_snoc] at rise
      rw [if_neg (by omega)] at step
      obtain ⟨value, total, later⟩ :=
        ih (front ++ [digit]) units (c :: seen) { scan with state := .hasValue, value := next }
        (fun digit found => small digit (by simp [found])) spelled (Or.inr (Or.inr rfl))
          (fun _ => rfl)
        (by rw [stored, decimalValue_snoc]) (by
          intro k above below
          have rise := rises k (by simp at above; omega) (by simpa using below)
          simpa using rise)
      refine ⟨value, by simpa using total, ?_⟩
      rw [List.cons_append, longlongDecimalLoop_cons, character, step]
      simpa using later

theorem longlongDecimalLoop_drops (front back : List Nat) (units seen tail : List encoding.Unit)
    (scan : LonglongScan) (small : ∀ digit ∈ back, digit < 10)
    (spelled : units.map encoding.getCharacter = back.map digitCharacter)
    (opened : scan.state = .initScan ∨ scan.state = .hasSign ∨ scan.state = .hasValue)
    (accumulated : scan.value.toNat = decimalValue front % 2 ^ 64)
    (begun : front ≠ [] → seen ≠ []) (drops : ∃ k, front.length ≤ k ∧ k < (front ++ back).length ∧
      decimalValue ((front ++ back).take (k + 1)) % 2 ^ 64 <
        decimalValue ((front ++ back).take k) % 2 ^ 64) :
    ∃ last rover, longlongDecimalLoop scan seen (units ++ tail) = some (last, rover) ∧
      last.state = .hasOverflown ∧
      rover.seen ≠ [] ∧ tail.length < rover.rest.length := by
  induction back generalizing front units seen scan with
  | nil =>
    obtain ⟨k, above, below, _⟩ := drops
    simp at below
    omega
  | cons digit back ih =>
    cases units with
    | nil => simp at spelled
    | cons c units =>
      obtain ⟨character, spelled⟩ : encoding.getCharacter c = digitCharacter digit ∧
          units.map encoding.getCharacter = back.map digitCharacter := by simpa using spelled
      obtain ⟨next, stored, step⟩ := longlongDecimalStep_digit scan (decimalValue front) digit
        (small digit (by simp)) opened accumulated
      rw [List.cons_append, longlongDecimalLoop_cons, character, step]
      by_cases drop : (decimalValue front * 10 + digit) % 2 ^ 64 < decimalValue front % 2 ^ 64
      · have nonempty : front ≠ [] := by
          rintro rfl
          simp [decimalValue] at drop
        rw [if_pos drop]
        refine ⟨_, _, rfl, rfl, begun nonempty, ?_⟩
        simp only [List.length_cons, List.length_append]
        omega
      · rw [if_neg drop]
        apply ih (front ++ [digit]) units (c :: seen) _
          (fun digit found => small digit (by simp [found])) spelled
          (Or.inr (Or.inr rfl)) (by rw [stored, decimalValue_snoc]) (by simp)
        obtain ⟨k, above, below, smaller⟩ := drops
        refine ⟨k, ?_, by simpa using below, by simpa using smaller⟩
        rcases Nat.lt_or_ge front.length k with later | first
        · rw [List.length_append, List.length_singleton]
          exact later
        · obtain rfl : k = front.length := by omega
          rw [List.take_append, List.take_of_length_le (by omega),
            show front.length + 1 - front.length = 1 by
              omega, List.take_succ_cons, List.take_zero, decimalValue_snoc,
                List.take_append_of_le_length (by omega),
            List.take_length] at smaller
          contradiction

end Loop

section Numbers

variable {encoding : UtfEncoding}

def decimalDenotes (sign : DecimalSign) (digits : List Nat) : Int :=
  if sign = .minus then -(decimalValue digits : Int) else decimalValue digits

def decimalOutcome (sign : DecimalSign) (digits : List Nat) : Int32 :=
  if -2 ^ 63 ≤ decimalDenotes sign digits ∧ decimalDenotes sign digits < 2 ^ 63 then utfIsValid
  else if sign ≠ .minus ∧ decimalDenotes sign digits < 2 ^ 64 then utfIsTooLargeForSigned
  else utfHasOverflown

structure LonglongDecimalRight (sign : DecimalSign) (digits : List Nat) (tail : List encoding.Unit)
    (result : LonglongDecimal encoding) : Prop where
  rval : result.rval =
    if tail.isEmpty then decimalOutcome sign digits
      else decimalOutcome sign digits ||| utfHasTrailingGarbage
  value : decimalOutcome sign digits = utfIsValid → ∃ value, result.value = some value ∧
    value.toInt = decimalDenotes sign digits
  stops : decimalOutcome sign digits ≠ utfHasOverflown → tail ≠ [] → result.rover.rest = tail

def signValue (sign : DecimalSign) : Int := if sign = .minus then -1 else 1

theorem longlongDecimalLoop_sign (sign : DecimalSign) (units rest : List encoding.Unit)
    (spelled : units.map encoding.getCharacter = sign.characters) :
    ∃ state, (state = .initScan ∨ state = .hasSign ∨ state = .hasValue) ∧
      longlongDecimalLoop ⟨.initScan, 1, 0⟩ [] (units ++ rest) =
        longlongDecimalLoop ⟨state, signValue sign, 0⟩ units.reverse rest := by
  cases sign with
  | none =>
    obtain rfl : units = [] := by simpa [DecimalSign.characters] using spelled
    exact ⟨.initScan, by simp, rfl⟩
  | plus =>
    obtain ⟨c, rfl, character⟩ : ∃ c, units = [c] ∧ encoding.getCharacter c = 0x2B := by
      simpa [DecimalSign.characters, List.map_eq_singleton_iff] using spelled
    exact ⟨.hasSign, by simp, by simp [longlongDecimalLoop_cons, character, longlongDecimalStep, longlongDecimalSign, signValue]⟩
  | minus =>
    obtain ⟨c, rfl, character⟩ : ∃ c, units = [c] ∧ encoding.getCharacter c = 0x2D := by
      simpa [DecimalSign.characters, List.map_eq_singleton_iff] using spelled
    exact ⟨.hasSign, by simp, by simp [longlongDecimalLoop_cons, character, longlongDecimalStep, longlongDecimalSign, signValue]⟩

structure SpellsDecimal (sign : DecimalSign) (digits : List Nat) (front tail : List encoding.Unit) :
    Prop where
  small : ∀ digit ∈ digits, digit < 10
  nonempty : digits ≠ []
  spelled : front.map encoding.getCharacter = sign.characters ++ digits.map digitCharacter
  ended : ∀ c ∈ tail.head?, ¬ IsDecimalDigit (encoding.getCharacter c)

variable {sign : DecimalSign} {digits : List Nat} {front tail : List encoding.Unit}

theorem utfRoverLonglongDecimal_keeps (spells : SpellsDecimal sign digits front tail)
    (keeps : ¬ DecimalDrops digits) :
    ∃ value : UInt64, value.toNat = decimalValue digits % 2 ^ 64 ∧
      utfRoverLonglongDecimal (utfRoverInit (front ++ tail)) =
        longlongDecimalFinish ⟨.hasValue, signValue sign, value⟩ ⟨front.reverse, tail⟩ := by
  obtain ⟨signs, units, rfl, signed, spelled⟩ := List.map_eq_append_iff.mp spells.spelled
  obtain ⟨state, opened, begun⟩ := longlongDecimalLoop_sign sign signs (units ++ tail) signed
  obtain ⟨value, stored, looped⟩ := longlongDecimalLoop_keeps [] digits units signs.reverse tail
    ⟨state, signValue sign, 0⟩
    spells.small spelled spells.ended opened (fun empty => absurd empty spells.nonempty) rfl (by
      intro k above below
      by_contra smaller
      simp only [List.nil_append] at below smaller
      exact keeps ⟨k, below, by omega⟩)
  refine ⟨value, stored, ?_⟩
  simp only [utfRoverLonglongDecimal, utfRoverInit, List.append_assoc, begun, looped,
    Option.bind_eq_bind, Option.bind_some, List.reverse_append]

theorem utfRoverLonglongDecimal_drops (spells : SpellsDecimal sign digits front tail)
    (drops : DecimalDrops digits) :
    ∃ rover, utfRoverLonglongDecimal (utfRoverInit (front ++ tail)) = some ⟨utfHasOverflown,
      none, rover⟩ ∧
      tail.length < rover.rest.length := by
  obtain ⟨signs, units, rfl, signed, spelled⟩ := List.map_eq_append_iff.mp spells.spelled
  obtain ⟨state, opened, begun⟩ := longlongDecimalLoop_sign sign signs (units ++ tail) signed
  obtain ⟨k, below, smaller⟩ := drops
  obtain ⟨last, rover, looped, overflown, seen, left⟩ :=
    longlongDecimalLoop_drops [] digits units signs.reverse tail
    ⟨state, signValue sign, 0⟩ spells.small spelled opened rfl (by simp) ⟨k, by simp, below, smaller⟩
  obtain ⟨before, rest⟩ := rover
  cases before with
  | nil => contradiction
  | cons c before =>
    refine ⟨⟨before, c :: rest⟩, ?_, by simp at left ⊢; omega⟩
    simp only [utfRoverLonglongDecimal, utfRoverInit, List.append_assoc, begun, looped,
      Option.bind_eq_bind, Option.bind_some, longlongDecimalFinish, overflown, utfRoverDialBack]

theorem decimalOutcome_valid (sign : DecimalSign) (digits : List Nat)
    (fits : decimalValue digits < 2 ^ 63 ∨ sign = .minus ∧ decimalValue digits = 2 ^ 63) :
    decimalOutcome sign digits = utfIsValid := by
  apply if_pos
  simp only [decimalDenotes]
  split
  · omega
  · have small : decimalValue digits < 2 ^ 63 := fits.resolve_right (by tauto)
    omega

theorem decimalOutcome_tooLarge (digits : List Nat) (unsigned : sign ≠ .minus)
    (large : 2 ^ 63 ≤ decimalValue digits) (fits : decimalValue digits < 2 ^ 64) :
    decimalOutcome sign digits = utfIsTooLargeForSigned := by
  simp only [decimalOutcome, decimalDenotes, if_neg unsigned]
  rw [if_neg (by omega), if_pos ⟨unsigned, by omega⟩]

theorem decimalOutcome_overflown (sign : DecimalSign) (digits : List Nat)
    (large : 2 ^ 64 ≤ decimalValue digits ∨ sign = .minus ∧ 2 ^ 63 < decimalValue digits) :
    decimalOutcome sign digits = utfHasOverflown := by
  simp only [decimalOutcome, decimalDenotes]
  split
  · rename_i minus
    rw [if_neg (by omega), if_neg (by tauto)]
  · have large : 2 ^ 64 ≤ decimalValue digits := large.resolve_right (by tauto)
    rw [if_neg (by omega), if_neg (by omega)]

theorem toInt64_small (value : UInt64) (small : value.toNat < 2 ^ 63) :
    value.toInt64.toInt = value.toNat := by
  have signed : value.toInt64.toInt = _ := BitVec.toInt_eq_toNat_cond value.toBitVec
  rw [signed, if_pos (by simpa using (by omega : 2 * value.toNat < 2 ^ 64))]
  rw [UInt64.toNat_toBitVec]

theorem toInt64_neg (value : UInt64) (small : value.toNat ≤ 2 ^ 63) :
    (-value.toInt64).toInt = -(value.toNat : Int) := by
  have signed : value.toInt64.toInt = _ := BitVec.toInt_eq_toNat_cond value.toBitVec
  rw [Int64.toInt_neg, signed]
  simp only [UInt64.toNat_toBitVec]
  split
  · rw [Int.bmod_eq_of_le (by omega) (by omega)]
  · have least : value.toNat = 2 ^ 63 := by omega
    rw [least]
    decide

theorem longlongDecimalFinish_unsigned (unsigned : sign ≠ .minus) (value : UInt64)
    (rover : UtfRover encoding) :
    longlongDecimalFinish ⟨.hasValue, signValue sign, value⟩ rover =
      some (longlongDecimalTrailing (if value.toNat < 2 ^ 63 then utfIsValid
        else utfIsTooLargeForSigned) value.toInt64 rover) := by
  have compared : value > llongMax ↔ ¬ value.toNat < 2 ^ 63 := by
    have bound : llongMax.toNat = 2 ^ 63 - 1 := rfl
    rw [gt_iff_lt, UInt64.lt_iff_toNat_lt, bound]
    omega
  have positive : signValue sign = 1 := if_neg unsigned
  simp only [longlongDecimalFinish, positive, if_true, compared, ite_not]

theorem longlongDecimalFinish_minus (value : UInt64) (rover : UtfRover encoding) :
    longlongDecimalFinish ⟨.hasValue, signValue .minus, value⟩ rover =
      if 2 ^ 63 < value.toNat then
        (utfRoverDialBack rover).map (fun rover => ⟨utfHasOverflown, none, rover⟩)
      else some (longlongDecimalTrailing utfIsValid (-value.toInt64) rover) := by
  have compared : value > llongMin ↔ 2 ^ 63 < value.toNat := UInt64.lt_iff_toNat_lt
  have negative : ¬ (signValue .minus = 1) := by decide
  simp only [longlongDecimalFinish, negative, if_false, compared]
  cases utfRoverDialBack rover <;> rfl

theorem longlongDecimalRight_trailing (rval : Int32) (value : Int64) (seen : List encoding.Unit)
    (reported : decimalOutcome sign digits = rval)
    (stored : rval = utfIsValid → value.toInt = decimalDenotes sign digits) :
    LonglongDecimalRight sign digits tail (longlongDecimalTrailing rval value ⟨seen, tail⟩) := by
  refine ⟨?_, fun valid => ⟨value, rfl, stored (reported ▸ valid)⟩, fun _ _ => rfl⟩
  cases tail with
  | nil => simp [longlongDecimalTrailing, utfRoverHasCharacter, reported]
  | cons c tail => simp [longlongDecimalTrailing, utfRoverHasCharacter, reported]

theorem longlongDecimalRight_overflown (rover : UtfRover encoding)
    (reported : decimalOutcome sign digits = utfHasOverflown) :
    LonglongDecimalRight sign digits tail ⟨utfHasOverflown, none, rover⟩ := by
  refine ⟨?_, ?_, fun other => absurd reported other⟩
  · rw [reported]
    split <;> rfl
  · rw [reported]
    intro same
    exact absurd same (by decide)

theorem longlongDecimalTrailing_fits (rval : Int32) (value : Int64) (rover : UtfRover encoding)
    (fits : rval = utfIsValid ∨ rval = utfIsTooLargeForSigned) :
    (longlongDecimalTrailing rval value rover).rval ≠ utfHasOverflown := by
  rw [longlongDecimalTrailing]
  dsimp only
  rcases fits with rfl | rfl
  · split <;> decide
  · split <;> decide

theorem not_longlongDecimalRight_trailing (rval : Int32) (value : Int64) (seen : List encoding.Unit)
    (fits : rval = utfIsValid ∨ rval = utfIsTooLargeForSigned)
    (overflown : decimalOutcome sign digits = utfHasOverflown) :
    ¬ LonglongDecimalRight sign digits tail (longlongDecimalTrailing rval value ⟨seen, tail⟩) := by
  intro right
  have same := right.rval
  rw [overflown, show utfHasOverflown ||| utfHasTrailingGarbage = utfHasOverflown from rfl,
    ite_self] at same
  exact longlongDecimalTrailing_fits rval value _ fits same

theorem exists_dialBack (spells : SpellsDecimal sign digits front tail) :
    ∃ rover : UtfRover encoding, utfRoverDialBack ⟨front.reverse, tail⟩ = some rover ∧
      tail.length < rover.rest.length := by
  have nonempty : front.reverse ≠ [] := by
    intro empty
    obtain rfl : front = [] := by simpa using empty
    have none := congrArg List.length spells.spelled
    have some := List.length_pos_of_ne_nil spells.nonempty
    simp at none
    omega
  obtain ⟨c, seen, split⟩ := List.exists_cons_of_ne_nil nonempty
  exact ⟨⟨seen, c :: tail⟩, by simp [utfRoverDialBack, split], by simp⟩

/-- The scan of a number is right unless the number is too large and no digit makes the value
smaller. -/
theorem utfRoverLonglongDecimal_right_iff (encoding : UtfEncoding) (sign : DecimalSign)
    (digits : List Nat) (front tail : List encoding.Unit)
    (spells : SpellsDecimal sign digits front tail) :
    ((∃ result, utfRoverLonglongDecimal (utfRoverInit (front ++ tail)) = some result ∧
        LonglongDecimalRight sign digits tail result) ↔
      decimalValue digits < 2 ^ 64 ∨ DecimalDrops digits ∨ sign = .minus ∧
      2 ^ 63 < decimalValue digits % 2 ^ 64) ∧
    ∀ result, utfRoverLonglongDecimal (utfRoverInit (front ++ tail)) = some result →
      result.rval = utfHasOverflown → tail.length < result.rover.rest.length := by
  by_cases drops : DecimalDrops digits
  · obtain ⟨rover, scanned, left⟩ := utfRoverLonglongDecimal_drops spells drops
    have large : 2 ^ 64 ≤ decimalValue digits := by
      by_contra small
      exact not_decimalDrops digits (by omega) drops
    have reported := decimalOutcome_overflown sign digits (Or.inl large)
    refine ⟨⟨fun _ => Or.inr (Or.inl drops),
      fun _ => ⟨_, scanned, longlongDecimalRight_overflown rover reported⟩⟩, ?_⟩
    rintro result same overflown
    obtain rfl := Option.some.inj (scanned.symm.trans same)
    exact left
  · obtain ⟨value, stored, scanned⟩ := utfRoverLonglongDecimal_keeps spells drops
    simp only [scanned, drops, false_or]
    by_cases minus : sign = .minus
    · subst minus
      obtain ⟨rover, dialed, left⟩ := exists_dialBack spells
      rw [longlongDecimalFinish_minus]
      by_cases large : 2 ^ 63 < value.toNat
      · have reported : decimalOutcome .minus digits = utfHasOverflown := by
          apply decimalOutcome_overflown
          have := Nat.mod_le (decimalValue digits) (2 ^ 64)
          exact Or.inr ⟨rfl, by omega⟩
        rw [if_pos large, dialed]
        refine ⟨⟨fun _ => Or.inr ⟨rfl, by omega⟩,
          fun _ => ⟨_, rfl, longlongDecimalRight_overflown rover reported⟩⟩, ?_⟩
        rintro result same overflown
        obtain rfl := Option.some.inj same
        exact left
      · rw [if_neg large]
        refine ⟨⟨?_, ?_⟩, ?_⟩
        · rintro ⟨result, same, right⟩
          obtain rfl := Option.some.inj same
          by_contra lost
          exact not_longlongDecimalRight_trailing utfIsValid _ _ (Or.inl rfl)
            (decimalOutcome_overflown _ digits (Or.inl (by omega))) right
        · intro fits
          have small : decimalValue digits < 2 ^ 64 := fits.resolve_right (by omega)
          rw [Nat.mod_eq_of_lt small] at stored
          refine ⟨_, rfl, longlongDecimalRight_trailing utfIsValid _ _
            (decimalOutcome_valid _ digits ?_) ?_⟩
          · rcases Nat.lt_or_ge (decimalValue digits) (2 ^ 63) with below | above
            · exact Or.inl below
            · exact Or.inr ⟨rfl, by omega⟩
          · intro _
            rw [toInt64_neg value (by omega), stored]
            rfl
        · rintro result same overflown
          obtain rfl := Option.some.inj same
          exact absurd overflown (longlongDecimalTrailing_fits _ _ _ (Or.inl rfl))
    · rw [longlongDecimalFinish_unsigned minus]
      simp only [minus, false_and, or_false]
      refine ⟨⟨?_, ?_⟩, ?_⟩
      · rintro ⟨result, same, right⟩
        obtain rfl := Option.some.inj same
        by_contra lost
        refine not_longlongDecimalRight_trailing _ _ _ ?_
          (decimalOutcome_overflown _ digits (Or.inl (by omega))) right
        split <;> simp
      · intro small
        rw [Nat.mod_eq_of_lt small] at stored
        refine ⟨_, rfl, longlongDecimalRight_trailing _ _ _ ?_ ?_⟩
        · split
          · exact decimalOutcome_valid _ digits (Or.inl (by omega))
          · exact decimalOutcome_tooLarge digits minus (by omega) small
        · intro valid
          split at valid
          · rw [toInt64_small value (by omega), stored, decimalDenotes, if_neg minus]
          · exact absurd valid (by decide)
      · rintro result same overflown
        obtain rfl := Option.some.inj same
        exact absurd overflown (longlongDecimalTrailing_fits _ _ _ (by split <;> simp))

theorem utfRoverLonglongDecimal_right_iff_minus :
    ∃ result, utfRoverLonglongDecimal (@utfRoverInit .utf8
      ([0x2D, 0x31, 0x32] ++ [0x78] : List UInt8)) = some result ∧
      @LonglongDecimalRight .utf8 .minus [1, 2] ([0x78] : List UInt8) result :=
  (utfRoverLonglongDecimal_right_iff .utf8 .minus [1, 2] ([0x2D, 0x31, 0x32] : List UInt8)
    ([0x78] : List UInt8) ⟨by simp, by simp, rfl, by
      intro c found
      obtain rfl : (0x78 : UInt8) = c := Option.some.inj found
      simp [IsDecimalDigit, UtfEncoding.getCharacter]⟩).1.mpr (Or.inl (by decide))

/-- `30000000000000000000` is more than 2^64, but no digit makes the value smaller. -/
theorem utfRoverLonglongDecimal_thirty :
    @SpellsDecimal .utf8 .none (3 :: List.replicate 19 0)
      (0x33 :: List.replicate 19 0x30 : List UInt8) [] ∧
      ¬ ∃ result, utfRoverLonglongDecimal (@utfRoverInit .utf8
        ((0x33 :: List.replicate 19 0x30 : List UInt8) ++ [])) = some result ∧
        @LonglongDecimalRight .utf8 .none (3 :: List.replicate 19 0) ([] : List UInt8) result := by
  refine ⟨⟨by simp, by simp, rfl, by simp⟩, ?_⟩
  rintro ⟨result, scanned, right⟩
  have reported : some result.rval = some utfIsTooLargeForSigned := by
    rw [← Option.map_some, ← scanned]
    rfl
  have same := right.rval
  rw [Option.some.inj reported] at same
  exact absurd same (by decide)

end Numbers

end MulleCore
