import MulleCore.Dtostr.StrtodNumber
import MulleCore.Sprintf.SprintfFpGeneral

/-!
What `write_mulle` writes is read back by `mulle_strtod_parse`.
-/

namespace MulleCore

open Library

section Significand

variable {n : Nat}

theorem significandDigits_eq (n : Nat) (s : List UInt8) :
    significandDigits n s = decimalText n ++ s := by
  induction n using Nat.strong_induction_on generalizing s with
  | _ n ih =>
    rw [significandDigits]
    split
    · rename_i positive
      rw [ih (n / 10) (Nat.div_lt_self positive (by decide)), decimalText, decimalText,
        allDigits_step (by decide) positive.ne', List.map_append, List.append_assoc]
      rfl
    · rename_i none
      obtain rfl : n = 0 := by omega
      simp [decimalText]

theorem hasDigits_decimalDigitCount (positive : 0 < n) : HasDigits n (decimalDigitCount n) := by
  induction n using Nat.strong_induction_on with
  | _ n ih =>
    rw [decimalDigitCount]
    split
    · rename_i more
      have tenth := ih (n / 10) (Nat.div_lt_self positive (by decide)) (by omega)
      have least := tenth.least
      have below := tenth.below
      have some := tenth.positive
      have power : 10 ^ (decimalDigitCount (n / 10) + 1) = 10 ^ decimalDigitCount (n / 10) * 10 :=
        pow_succ 10 _
      have lower : 10 ^ decimalDigitCount (n / 10) = 10 ^ (decimalDigitCount (n / 10) - 1) * 10 := by
        rw [← Nat.pow_succ]
        congr 1
        omega
      refine ⟨Nat.succ_pos _, ?_, ?_⟩
      · rw [Nat.add_sub_cancel]
        omega
      · omega
    · rename_i single
      exact ⟨Nat.succ_pos 0, positive, by omega⟩

theorem writeSignificand_eq (positive : 0 < n) :
    ∃ m count zeros, n = m * 10 ^ zeros ∧ HasDigits m count ∧
      writeSignificand n = paddedText count m ∧
      decimalDigitCount n = count + zeros := by
  have has := hasDigits_decimalDigitCount positive
  have text : decimalText n = paddedText (decimalDigitCount n) n := by
    rw [has.text, naturalText, if_neg positive.ne']
  have more := has.positive
  obtain ⟨first, rest, cons⟩ : ∃ first rest, paddedText (decimalDigitCount n) n = first :: rest := by
    apply List.exists_cons_of_ne_nil
    rw [Ne, ← List.length_eq_zero_iff, paddedText, List.length_map, fixedDigits_length]
    omega
  obtain ⟨zeros, parts⟩ := rdropWhile_zeros rest
  have written : writeSignificand n = first :: rest.rdropWhile (· = 0x30) := by
    rw [writeSignificand, if_neg positive.ne', significandDigits_eq, List.append_nil, text, cons]
    rfl
  have lengths := congrArg List.length cons
  have restLength := congrArg List.length parts
  rw [paddedText, List.length_map, fixedDigits_length, List.length_cons] at lengths
  rw [List.length_append, List.length_replicate] at restLength
  obtain ⟨count, countEq⟩ : ∃ count, (rest.rdropWhile (· = (0x30 : UInt8))).length + 1 = count :=
    ⟨_, rfl⟩
  have total : decimalDigitCount n = count + zeros := by omega
  have front := cons
  rw [total, paddedText_add, parts, ← List.cons_append] at front
  obtain ⟨kept, stripped⟩ := List.append_inj front (by simp [paddedText, countEq])
  have multiple : n % 10 ^ zeros = 0 := by
    rw [← fixedDigits_zeros (by decide)]
    intro digit member
    have small := fixedDigits_lt (by decide) zeros n digit member
    have char : decimalDigit digit ∈ paddedText zeros n := List.mem_map_of_mem member
    rw [stripped] at char
    exact (decimalDigit_value small).2.2.mp (List.eq_of_mem_replicate char)
  have value : n = n / 10 ^ zeros * 10 ^ zeros :=
    (Nat.div_mul_cancel (Nat.dvd_of_mod_eq_zero multiple)).symm
  have scaled := has.scaled (by omega : 0 < count)
  rw [total, Nat.add_sub_cancel_left, Nat.sub_eq_zero_of_le (Nat.le_add_right count zeros),
    Nat.pow_zero, Nat.mul_one] at scaled
  exact ⟨n / 10 ^ zeros, count, zeros, value, scaled, by rw [written, kept], total⟩

end Significand

section Written

variable {buffer text : List UInt8} {count n : Nat}

def Wrote (buffer text : List UInt8) : Prop := buffer.take text.length = text

theorem Wrote.paste (wrote : Wrote buffer text) (source : List UInt8) (position : Nat)
    (behind : position = text.length) (room : text.length + source.length ≤ buffer.length) :
    ∃ next, blockPaste buffer position source = some next ∧ Wrote next (text ++ source) ∧
      next.length = buffer.length := by
  obtain ⟨next, pasted, length, content⟩ := blockPaste_take buffer source position (by rwa [behind])
  refine ⟨next, pasted, ?_, length⟩
  rw [Wrote, List.length_append, ← behind, content, behind, wrote]

theorem Wrote.digits (wrote : Wrote buffer text) {value : Nat} (small : value < 100)
    (position : Nat) (behind : position = text.length) (room : text.length + 2 ≤ buffer.length) :
    ∃ next, write2Digits buffer position value = some next ∧ Wrote next (text ++ paddedText 2 value) ∧
      next.length = buffer.length := by
  obtain ⟨first, second⟩ := decimalPairs_get value small
  have digits : paddedText 2 value = [decimalDigit (value / 10), decimalDigit (value % 10)] := by
    have tens : value / 10 % 10 = value / 10 := Nat.mod_eq_of_lt (by omega)
    simp [paddedText, fixedDigits, tens]
  obtain ⟨next, pasted, written, length⟩ := wrote.paste (paddedText 2 value) position behind (by
    rw [digits]
    exact room)
  refine ⟨next, ?_, written, length⟩
  rw [digits] at pasted
  rw [write2Digits, first, second]
  exact pasted

def mulleExponentText (exponent : Int) : List UInt8 :=
  0x65 :: (if exponent ≥ 0 then 0x2B else 0x2D) :: paddedText (if exponent.natAbs ≥ 100 then 3
    else 2) exponent.natAbs

def mulleText (count n : Nat) (exponent : Int) : List UInt8 :=
  if exponent ≥ -4 ∧ exponent ≤ 6 then
    if exponent ≥ 0 then
      if exponent < (count : Int) - 1 then
        paddedText (exponent + 1).toNat (n / 10 ^ (count - (exponent + 1).toNat)) ++
          pointText 0x2E (count - (exponent + 1).toNat) n
      else paddedText (exponent + 1).toNat (n * 10 ^ ((exponent + 1).toNat - count))
    else paddedText 1 0 ++ pointText 0x2E (count + (-exponent - 1).toNat) n
  else paddedText 1 (n / 10 ^ (count - 1)) ++
    (pointText 0x2E (count - 1) n ++ mulleExponentText exponent)

@[simp] theorem paddedText_length (count n : Nat) : (paddedText count n).length = count := by
  simp [paddedText]

theorem writeMulleExponent_eq (wrote : Wrote buffer text) {position : Nat}
    (behind : position = text.length) {exponent : Int} (small : exponent.natAbs < 1000)
    (room : text.length + 6 ≤ buffer.length) :
    ∃ next, writeMulleExponent buffer position exponent =
        some (next, (text ++ mulleExponentText exponent).length) ∧
      Wrote next (text ++ mulleExponentText exponent ++ [0]) := by
  obtain ⟨first, pasteFirst, wroteFirst, lengthFirst⟩ :=
    wrote.paste [0x65] position behind (by simp; omega)
  obtain ⟨second, pasteSecond, wroteSecond, lengthSecond⟩ :=
    wroteFirst.paste [if exponent ≥ 0 then 0x2B else 0x2D] (position + 1) (by simp [behind])
      (by simp; omega)
  rw [writeMulleExponent, mulleExponentText, pasteFirst, Option.bind_eq_bind, Option.bind_some,
    pasteSecond, Option.bind_some]
  by_cases long : exponent.natAbs ≥ 100
  · simp only [if_pos long]
    have rest : exponent.natAbs % 100 < 100 := Nat.mod_lt _ (by decide)
    obtain ⟨third, pasteThird, wroteThird, lengthThird⟩ :=
      wroteSecond.paste [decimalDigit (exponent.natAbs / 100)] (position + 2) (by simp [behind])
        (by simp; omega)
    obtain ⟨fourth, pasteFourth, wroteFourth, lengthFourth⟩ :=
      wroteThird.digits rest (position + 3) (by simp [behind]) (by simp; omega)
    obtain ⟨last, pasteLast, wroteLast, -⟩ :=
      wroteFourth.paste [0] (position + 5) (by simp [behind]) (by simp; omega)
    have digits : paddedText 3 exponent.natAbs =
        [decimalDigit (exponent.natAbs / 100)] ++ paddedText 2 (exponent.natAbs % 100) := by
      have first : exponent.natAbs / 100 % 10 = exponent.natAbs / 100 := Nat.mod_eq_of_lt (by omega)
      have low : paddedText 2 (exponent.natAbs % 100) = paddedText 2 exponent.natAbs :=
        paddedText_congr (Nat.mod_mod_of_dvd _ (by decide))
      rw [low, paddedText_add 1 2]
      simp [paddedText, fixedDigits, first]
    rw [pasteThird, Option.bind_some, pasteFourth, Option.bind_some, pasteLast, digits]
    refine ⟨last, ?_, ?_⟩
    · simp [behind]
    · simpa using wroteLast
  · simp only [if_neg long]
    obtain ⟨third, pasteThird, wroteThird, lengthThird⟩ :=
      wroteSecond.digits (by omega : exponent.natAbs < 100) (position + 2) (by simp [behind])
        (by simp; omega)
    obtain ⟨last, pasteLast, wroteLast, -⟩ := wroteThird.paste [0] (position + 4) (by simp [behind])
      (by simp; omega)
    rw [pasteThird, Option.bind_some, pasteLast]
    refine ⟨last, ?_, ?_⟩
    · simp [behind]
    · simpa using wroteLast

theorem paddedText_take {whole : Nat} (fewer : whole ≤ count) (n : Nat) :
    (paddedText count n).take whole = paddedText whole (n / 10 ^ (count - whole)) ∧
      (paddedText count n).drop whole = paddedText (count - whole) n := by
  have parts := paddedText_add whole (count - whole) n
  rw [Nat.add_sub_cancel' fewer] at parts
  rw [parts]
  exact ⟨List.take_left' (by simp), List.drop_left' (by simp)⟩

theorem paddedText_zeros (count zeros n : Nat) :
    paddedText count n ++ List.replicate zeros 0x30 =
      paddedText (count + zeros) (n * 10 ^ zeros) := by
  rw [paddedText, paddedText, fixedDigits_shift (by decide), List.map_append, List.map_replicate]
  rfl

theorem zeros_paddedText (below : n < 10 ^ count) (zeros : Nat) :
    List.replicate zeros 0x30 ++ paddedText count n = paddedText (zeros + count) n := by
  have front : paddedText zeros 0 = List.replicate zeros 0x30 := by
    rw [paddedText, fixedDigits_zero, List.map_replicate]
    rfl
  rw [paddedText_add, Nat.div_eq_of_lt below, front]

theorem wrote_nil (buffer : List UInt8) : Wrote buffer [] := rfl

theorem writeMulle_eq (room : 25 ≤ buffer.length) (positive : 0 < n) (most : n < 10 ^ 18)
    (exponent : Int) (small : (exponent + decimalDigitCount n - 1).natAbs < 1000) :
    ∃ m count zeros written, n = m * 10 ^ zeros ∧ HasDigits m count ∧
      decimalDigitCount n = count + zeros ∧
      writeMulle buffer n exponent =
        some (written, (mulleText count m (exponent + decimalDigitCount n - 1)).length) ∧
      Wrote written (mulleText count m (exponent + decimalDigitCount n - 1) ++ [0]) := by
  obtain ⟨m, count, zeros, value, has, sig, total⟩ := writeSignificand_eq positive
  have some := has.positive
  have few : count ≤ 18 := by
    have least := (hasDigits_decimalDigitCount positive).least
    have power := (Nat.pow_lt_pow_iff_right (by decide : 1 < 10)).mp (least.trans_lt most)
    omega
  refine ⟨m, count, zeros, ?_⟩
  rw [writeMulle, sig, mulleText, paddedText_length]
  generalize exponent + (decimalDigitCount n : Int) - 1 = x at small ⊢
  dsimp only
  by_cases fixed : x ≥ -4 ∧ x ≤ 6
  · rw [if_pos fixed, if_pos fixed]
    by_cases whole : x ≥ 0
    · rw [if_pos whole, if_pos whole]
      obtain ⟨front, frontEq⟩ : ∃ front, (x + 1).toNat = front := ⟨_, rfl⟩
      by_cases point : x < (count : Int) - 1
      · obtain ⟨taken, dropped⟩ := paddedText_take (by omega : front ≤ count) m
        rw [if_pos point, if_pos point, frontEq, taken, dropped, pointText, if_neg (by omega)]
        obtain ⟨first, pasteFirst, wroteFirst, lengthFirst⟩ :=
          (wrote_nil buffer).paste (paddedText front (m / 10 ^ (count - front))) 0
            rfl (by simp; omega)
        obtain ⟨second, pasteSecond, wroteSecond, lengthSecond⟩ :=
          wroteFirst.paste [0x2E] front (by simp) (by simp; omega)
        obtain ⟨third, pasteThird, wroteThird, lengthThird⟩ :=
          wroteSecond.paste (paddedText (count - front) m) (front + 1) (by simp) (by simp; omega)
        obtain ⟨last, pasteLast, wroteLast, -⟩ :=
          wroteThird.paste [0] (count + 1) (by simp; omega) (by simp; omega)
        refine ⟨last, value, has, total, ?_, by simpa using wroteLast⟩
        rw [pasteFirst, Option.bind_eq_bind, Option.bind_some, pasteSecond, Option.bind_some,
          pasteThird, Option.bind_some, pasteLast]
        simp
        omega
      · have behind : (count + x - count + 1).toNat = front := by omega
        have more : (x - count + 1).toNat = front - count := by omega
        have padded := paddedText_zeros count (front - count) m
        rw [Nat.add_sub_cancel' (by omega)] at padded
        rw [if_neg point, if_neg point, frontEq, behind, more, ← padded]
        obtain ⟨first, pasteFirst, wroteFirst, lengthFirst⟩ :=
          (wrote_nil buffer).paste (paddedText count m) 0 rfl (by simp; omega)
        obtain ⟨second, pasteSecond, wroteSecond, lengthSecond⟩ :=
          wroteFirst.paste (List.replicate (front - count) 0x30) count (by simp) (by simp; omega)
        obtain ⟨last, pasteLast, wroteLast, -⟩ :=
          wroteSecond.paste [0] front (by simp; omega) (by simp; omega)
        refine ⟨last, value, has, total, ?_, by simpa using wroteLast⟩
        rw [pasteFirst, Option.bind_eq_bind, Option.bind_some, pasteSecond, Option.bind_some,
          pasteLast]
        simp
        omega
    · obtain ⟨more, moreEq⟩ : ∃ more, (-x - 1).toNat = more := ⟨_, rfl⟩
      have padded := zeros_paddedText has.below more
      rw [Nat.add_comm more count] at padded
      rw [if_neg whole, if_neg whole, moreEq, pointText, if_neg (by omega), ← padded]
      obtain ⟨first, pasteFirst, wroteFirst, lengthFirst⟩ :=
        (wrote_nil buffer).paste [0x30, 0x2E] 0 rfl (by simp; omega)
      obtain ⟨second, pasteSecond, wroteSecond, lengthSecond⟩ :=
        wroteFirst.paste (List.replicate more 0x30) 2 (by simp) (by simp; omega)
      obtain ⟨third, pasteThird, wroteThird, lengthThird⟩ :=
        wroteSecond.paste (paddedText count m) (2 + more) (by simp; omega) (by simp; omega)
      obtain ⟨last, pasteLast, wroteLast, -⟩ :=
        wroteThird.paste [0] (2 + more + count) (by simp; omega) (by simp; omega)
      refine ⟨last, value, has, total,
        ?_, by simpa [paddedText, fixedDigits, decimalDigit] using wroteLast⟩
      rw [pasteFirst, Option.bind_eq_bind, Option.bind_some, pasteSecond, Option.bind_some,
        pasteThird, Option.bind_some, pasteLast]
      simp
      omega
  · obtain ⟨taken, dropped⟩ := paddedText_take some m
    rw [if_neg fixed, if_neg fixed, taken, dropped, pointText]
    obtain ⟨first, pasteFirst, wroteFirst, lengthFirst⟩ :=
      (wrote_nil buffer).paste (paddedText 1 (m / 10 ^ (count - 1))) 0 rfl (by simp; omega)
    rw [pasteFirst, Option.bind_eq_bind, Option.bind_some]
    by_cases several : count > 1
    · rw [if_pos several, if_neg (by omega)]
      obtain ⟨second, pasteSecond, wroteSecond, lengthSecond⟩ :=
        wroteFirst.paste [0x2E] 1 (by simp) (by simp; omega)
      obtain ⟨third, pasteThird, wroteThird, lengthThird⟩ :=
        wroteSecond.paste (paddedText (count - 1) m) 2 (by simp) (by simp; omega)
      obtain ⟨last, written, wroteLast⟩ :=
        writeMulleExponent_eq wroteThird (by simp; omega : count + 1 = _) small (by simp; omega)
      refine ⟨last, value, has, total, ?_, by simpa using wroteLast⟩
      rw [pasteSecond, Option.bind_some, pasteThird, Option.bind_some, written]
      simp
    · rw [if_neg several, if_pos (by omega)]
      obtain ⟨last, written, wroteLast⟩ :=
        writeMulleExponent_eq wroteFirst (by simp : 1 = _) small (by simp; omega)
      refine ⟨last, value, has, total, ?_, by simpa using wroteLast⟩
      rw [written]
      simp

end Written

section Read

variable {grammar : StrtodSyntax}
variable {exponent : Int}

structure ReadsMulle (grammar : StrtodSyntax) : Prop where
  single : grammar.grouping = 0
  point : grammar.decimalPoint = 0x2E
  letter : grammar.isExponentChar 0x65 = true
  plus : grammar.flags.exponentPlus = true
  minus : grammar.flags.exponentMinus = true

theorem readsMulle_dtostr : ReadsMulle strtodSyntaxMakeDtostr := by
  constructor <;> decide

theorem strtodTail_exponent (reads : ReadsMulle grammar) (small : exponent.natAbs < 1000) :
    StrtodTail grammar (mulleExponentText exponent) exponent := by
  obtain ⟨count, countEq⟩ : ∃ count, (if exponent.natAbs ≥ 100 then 3 else 2) = count + 1 := by
    split
    · exact ⟨2, rfl⟩
    · exact ⟨1, rfl⟩
  have below : exponent.natAbs < 10 ^ (count + 1) := by
    rw [← countEq]
    split <;> omega
  have digits := @parseExponentDigits_eq [] rfl 0 (count + 1) exponent.natAbs (by
    rw [Nat.mod_eq_of_lt below]
    omega)
  rw [Nat.zero_mul, Nat.zero_add, Nat.mod_eq_of_lt below, List.append_nil] at digits
  obtain ⟨c, more, text⟩ : ∃ c more, paddedText (count + 1) exponent.natAbs = c :: more := by
    apply List.exists_cons_of_ne_nil
    rw [Ne, ← List.length_eq_zero_iff, paddedText_length]
    omega
  have isDigit := paddedText_isDigit (count + 1) exponent.natAbs c (by simp [text])
  refine ⟨?_, rfl, ?_⟩
  · rw [text] at digits
    rw [mulleExponentText, countEq, text, parseExponent]
    by_cases positive : exponent ≥ 0
    · have value : (exponent.natAbs : Int) = exponent := Int.natAbs_of_nonneg positive
      simp [reads.letter, reads.plus, positive, isDigit, digits, value]
    · have value : -|exponent| = exponent := by rw [abs_of_neg (by omega), neg_neg]
      simp [reads.letter, reads.minus, positive, isDigit, digits, value]
  · rw [reads.point]
    simp [mulleExponentText]

structure StrtodReads (value : ℚ) (decimal : DtostrDecimal) : Prop where
  normal : decimal.special = .normal
  exact_ : decimal.truncated = false
  positive : decimal.sign = false
  same : dtostrValue decimal = value

theorem strtodParse_number (reads : ReadsMulle grammar) {whole : Nat} (wide : 0 < whole)
    (n count fraction : Nat) {tail : List UInt8} (ends : StrtodTail grammar tail exponent)
    {value : Nat} (same : n % 10 ^ whole * 10 ^ count + fraction % 10 ^ count = value)
    (positive : value ≠ 0) (fits : value < 10 ^ 19) (small : (exponent - count).natAbs ≤ 9999) :
    ∃ decimal, strtodParse (some grammar) (paddedText whole n ++
      (pointText 0x2E count fraction ++ tail)) = (decimal, []) ∧
      StrtodReads (value * 10 ^ (exponent - count)) decimal := by
  have point : grammar.decimalPoint ≠ 0 := by
    rw [reads.point]
    decide
  have notDigit : strtodIsDigit grammar.decimalPoint = false := by
    rw [reads.point]
    rfl
  obtain ⟨c, more, text⟩ : ∃ c more, paddedText whole n = c :: more := by
    apply List.exists_cons_of_ne_nil
    rw [Ne, ← List.length_eq_zero_iff, paddedText_length]
    omega
  have isDigit := paddedText_isDigit whole n c (by simp [text])
  have begins := @strtodParse_digit grammar c isDigit
    (more ++ (pointText 0x2E count fraction ++ tail))
  obtain ⟨digits, number⟩ := strtodParseNumber_eq reads.single point notDigit false
    (c :: (more ++ (pointText 0x2E count fraction ++ tail))) wide n count fraction ends
      (by rwa [same]) (by rwa [same])
  have inside : strtodClamp (exponent - count) = exponent - count := by
    rw [strtodClamp, strtodExponentLimit]
    split_ifs <;> omega
  rw [reads.point, text, List.cons_append, ← begins, same, inside] at number
  rw [text]
  exact ⟨_, number, rfl, rfl, rfl, rfl⟩

theorem strtodParse_mulleText (reads : ReadsMulle grammar) {count n : Nat} (has : HasDigits n count)
    (few : count ≤ 18) (small : exponent.natAbs < 1000) :
    ∃ decimal, strtodParse (some grammar) (mulleText count n exponent) = (decimal, []) ∧
      StrtodReads (n * 10 ^ (exponent - count + 1)) decimal := by
  have below := has.below
  have least : n ≠ 0 := by
    have power : 0 < 10 ^ (count - 1) := Nat.pow_pos (by decide)
    have least := has.least
    omega
  have wide := has.positive
  have fits : n < 10 ^ 18 := below.trans_le (Nat.pow_le_pow_right (by decide) few)
  -- the digits in front of the point and behind it are those of `n`
  have parts : ∀ whole ≤ count, n / 10 ^ (count - whole) % 10 ^ whole * 10 ^ (count - whole) +
      n % 10 ^ (count - whole) = n := by
    intro whole fewer
    have front : n / 10 ^ (count - whole) < 10 ^ whole := by
      apply Nat.div_lt_of_lt_mul
      rwa [← Nat.pow_add, Nat.sub_add_cancel fewer]
    rw [Nat.mod_eq_of_lt front, Nat.mul_comm, Nat.div_add_mod]
  rw [mulleText]
  split
  · split
    · obtain ⟨whole, wholeEq⟩ : ∃ whole, (exponent + 1).toNat = whole := ⟨_, rfl⟩
      rw [wholeEq]
      split
      · have read := strtodParse_number reads (by omega : 0 < whole) (n / 10 ^ (count - whole))
          (count - whole) n
          (strtodTail_nil grammar) (parts whole (by omega)) least (by omega) (by omega)
        have power : (0 : Int) - (count - whole : Nat) = exponent - count + 1 := by omega
        rwa [List.append_nil, power] at read
      · have product : n * 10 ^ (whole - count) < 10 ^ whole := by
          calc n * 10 ^ (whole - count) < 10 ^ count * 10 ^ (whole - count) :=
                Nat.mul_lt_mul_of_pos_right below (Nat.pow_pos (by decide))
            _ = 10 ^ whole := by rw [← Nat.pow_add, Nat.add_sub_cancel' (by omega)]
        have limit : 10 ^ whole ≤ 10 ^ 7 := Nat.pow_le_pow_right (by decide) (by omega)
        have same : n * 10 ^ (whole - count) % 10 ^ whole * 10 ^ 0 + 0 % 10 ^ 0 =
            n * 10 ^ (whole - count) := by
          rw [Nat.mod_eq_of_lt product]
          simp
        have positive : n * 10 ^ (whole - count) ≠ 0 :=
          Nat.mul_ne_zero least (Nat.pow_pos (by decide)).ne'
        have read := strtodParse_number reads (by omega : 0 < whole) (n * 10 ^ (whole - count)) 0 0
          (strtodTail_nil grammar) same positive (by omega) (by decide)
        have power : ((whole - count : Nat) : Int) + (0 - (0 : Nat)) = exponent - count + 1 := by
          omega
        rwa [pointText, if_pos rfl, List.append_nil, List.append_nil, Nat.cast_mul, mul_assoc,
          natCast_pow_mul, power] at read
    · obtain ⟨more, moreEq⟩ : ∃ more, (-exponent - 1).toNat = more := ⟨_, rfl⟩
      have small : n < 10 ^ (count + more) :=
        below.trans_le (Nat.pow_le_pow_right (by decide) (by omega))
      have read := strtodParse_number reads Nat.one_pos 0 (count + more) n (strtodTail_nil grammar)
        (by rw [Nat.mod_eq_of_lt small, Nat.zero_mod, Nat.zero_mul, Nat.zero_add]) least
          (by omega) (by omega)
      have power : (0 : Int) - (count + more : Nat) = exponent - count + 1 := by omega
      rw [moreEq]
      rwa [List.append_nil, power] at read
  · have read := strtodParse_number reads Nat.one_pos (n / 10 ^ (count - 1)) (count - 1) n
      (strtodTail_exponent reads small) (parts 1 wide) least (by omega) (by omega)
    have power : exponent - (count - 1 : Nat) = exponent - count + 1 := by omega
    rwa [power] at read

end Read

section Roundtrip

/-- What `write_mulle` writes to a buffer of the size that `mulle_dtostr` asks for is read back as
the same number. -/
theorem strtodParse_writeMulle {buffer : List UInt8} (room : 25 ≤ buffer.length) {significand : Nat}
    {exponent : Int} (least : 1 ≤ significand) (most : significand ≤ 10 ^ 17)
    (low : -999 ≤ exponent + Nat.log 10 significand)
    (high : exponent + Nat.log 10 significand ≤ 999) :
    ∃ written length decimal, writeMulle buffer significand exponent = some (written, length) ∧
      written[length]? = some 0 ∧
      strtodParse (some strtodSyntaxMakeDtostr) (written.take length) = (decimal, []) ∧
      dtostrValue decimal = significand * 10 ^ exponent ∧ decimal.truncated = false := by
  have digits := hasDigits_decimalDigitCount least
  have some := digits.positive
  have log : Nat.log 10 significand = decimalDigitCount significand - 1 :=
    Nat.log_eq_of_pow_le_of_lt_pow digits.least (by
      rw [Nat.sub_add_cancel some]
      exact digits.below)
  have small : (exponent + decimalDigitCount significand - 1).natAbs < 1000 := by omega
  obtain ⟨n, count, zeros, written, value, has, total, writes, wrote⟩ :=
    writeMulle_eq room least (by omega) exponent small
  have few : count ≤ 18 := by
    have power := (Nat.pow_lt_pow_iff_right (by decide : 1 < 10)).mp
      (digits.least.trans_lt (by omega : significand < 10 ^ 18))
    omega
  obtain ⟨decimal, read, reads⟩ := strtodParse_mulleText readsMulle_dtostr has few small
  generalize mulleText count n (exponent + decimalDigitCount significand - 1) =
    text at writes wrote read
  have front : written.take text.length = text := by
    have shorter := congrArg (List.take text.length) wrote
    rwa [List.take_take, List.length_append, Nat.min_eq_left (by omega), List.take_left] at shorter
  have behind : written[text.length]? = Option.some 0 := by
    have last := congrArg (fun text' => text'[text.length]?) wrote
    simpa [List.getElem?_take] using last
  refine ⟨written, text.length, decimal, writes, behind, by rw [front, read], ?_, reads.exact_⟩
  have power : (exponent + decimalDigitCount significand - 1 - count + 1 : Int) = zeros +
    exponent := by omega
  rw [reads.same, power, value, Nat.cast_mul, mul_assoc, natCast_pow_mul]

theorem strtodParse_writeMulle_smallest :
    ∃ written length decimal, writeMulle (List.replicate 25 0) 5 (-324) = some (written, length) ∧
      written[length]? = some 0 ∧
      strtodParse (some strtodSyntaxMakeDtostr) (written.take length) = (decimal, []) ∧
      dtostrValue decimal = (5 : Nat) * 10 ^ (-324 : Int) ∧ decimal.truncated = false :=
  have log : Nat.log 10 5 = 0 := Nat.log_of_lt (by decide)
  strtodParse_writeMulle (by simp) (by decide) (by decide) (by rw [log]; decide) (by rw [log]; decide)

end Roundtrip

end MulleCore
