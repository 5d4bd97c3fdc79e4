import Mathlib.Data.List.DropRight
import MulleCore.Sprintf.SprintfFpDecimal

/-!
What the `g` conversion writes for a decimal.
-/

namespace MulleCore

open Library

section Trimmed

def trimmedText (precision n : Nat) : List UInt8 :=
  let fraction := (paddedText precision n).rdropWhile (· = 0x30)
  naturalText (n / 10 ^ precision) ++ if fraction = [] then [] else 0x2E :: fraction

theorem fpSkipZeros_eq (front : List UInt8) {c : UInt8} (notZero : c ≠ 0x30) (zeros : Nat)
    (rest : List UInt8) {lowest : Nat} (low : lowest ≤ front.length) :
    fpSkipZeros (front ++ c :: (List.replicate zeros 0x30 ++ rest)) lowest (front.length + zeros) =
      front.length := by
  induction zeros generalizing rest with
  | zero =>
    cases length : front.length with
    | zero => rfl
    | succ less =>
      have last : (front ++ c :: (List.replicate 0 0x30 ++ rest))[less + 1]? = some c := by
        rw [← length]
        simp
      rw [Nat.add_zero, fpSkipZeros, last, if_neg]
      rintro ⟨-, same⟩
      exact notZero (Option.some.inj same)
  | succ zeros ih =>
    have last : (front ++ c :: (List.replicate (zeros + 1) 0x30 ++ rest))[front.length + zeros +
        1]? = some 0x30 := by
      have position : front.length + zeros + 1 - front.length = zeros + 1 := by omega
      rw [List.getElem?_append_right (by omega), position, List.getElem?_cons_succ,
        List.getElem?_append_left (by simp)]
      simp
    rw [← Nat.add_assoc, fpSkipZeros, last, if_pos ⟨by omega, rfl⟩, List.replicate_succ',
      List.append_assoc]
    exact ih _

theorem rdropWhile_zeros (text : List UInt8) :
    ∃ zeros, text = text.rdropWhile (· = 0x30) ++ List.replicate zeros 0x30 := by
  have parts := List.rdropWhile_append_rtakeWhile (p := (· = (0x30 : UInt8))) (l := text)
  refine ⟨(text.rtakeWhile (· = 0x30)).length, ?_⟩
  rw [← List.eq_replicate_of_mem (l := text.rtakeWhile (· = 0x30)) fun c member => by
    simpa using List.mem_rtakeWhile_imp member]
  exact parts.symm

def IsDigit (c : UInt8) : Prop := 0x30 ≤ c ∧ c ≤ 0x39

theorem IsDigit.notPoint {c : UInt8} (digit : IsDigit c) : c ≠ 0x2E := by
  rintro rfl
  exact absurd digit.1 (by decide)

theorem decimalDigit_isDigit {digit : Nat} (small : digit < 10) : IsDigit (decimalDigit digit) := by
  have digits : ∀ digit < 10, 0x30 ≤ decimalDigit digit ∧ decimalDigit digit ≤ 0x39 := by decide
  exact digits digit small

theorem paddedText_digits (count n : Nat) : ∀ c ∈ paddedText count n, IsDigit c := by
  intro c member
  obtain ⟨digit, inside, rfl⟩ := List.mem_map.mp member
  exact decimalDigit_isDigit (fixedDigits_lt (by decide) count n digit inside)

theorem naturalText_digits (n : Nat) : ∀ c ∈ naturalText n, IsDigit c := by
  rw [naturalText]
  split
  · simp [IsDigit]
  · intro c member
    obtain ⟨digit, inside, rfl⟩ := List.mem_map.mp member
    exact decimalDigit_isDigit (allDigits_lt (by decide) n digit inside)

theorem fixedText_stem {precision n : Nat} (single : precision = 0 → HasDigits n 1) :
    ∃ front c zeros, fixedText false precision n = front ++ c :: List.replicate zeros 0x30 ∧
      c ≠ 0x30 ∧
      (c = 0x2E ∧ 0x2E ∉ front ∧ trimmedText precision n = front ∨
        c ≠ 0x2E ∧ (0 < precision → 0x2E ∈ front) ∧ trimmedText precision n = front ++ [c]) := by
  rcases Nat.eq_zero_or_pos precision with rfl | some
  · have digit := single rfl
    have below : n < 10 := digit.below
    have least : 1 ≤ n := digit.least
    have text : fixedText false 0 n = [decimalDigit n] := by
      rw [fixedText, Nat.pow_zero, Nat.div_one, ← digit.text]
      have self : n % 10 = n := Nat.mod_eq_of_lt below
      simp [paddedText, fixedDigits, self]
    have trimmed : trimmedText 0 n = [decimalDigit n] := by
      rw [trimmedText, Nat.pow_zero, Nat.div_one, ← digit.text]
      have self : n % 10 = n := Nat.mod_eq_of_lt below
      simp [paddedText, fixedDigits, self]
    have notZero : ∀ n < 10, 1 ≤ n → decimalDigit n ≠ 0x30 := by decide
    exact ⟨[], decimalDigit n, 0, text, notZero n below least,
      .inr ⟨(decimalDigit_isDigit below).notPoint, by simp, trimmed⟩⟩
  · obtain ⟨zeros, parts⟩ := rdropWhile_zeros (paddedText precision n)
    have noPoint : 0x2E ∉ naturalText (n / 10 ^ precision) := fun member =>
      (naturalText_digits _ _ member).notPoint rfl
    have text : fixedText false precision n = naturalText (n / 10 ^ precision) ++
        0x2E :: ((paddedText precision n).rdropWhile (· = 0x30) ++ List.replicate zeros 0x30) := by
      rw [fixedText, if_pos (.inl some), ← parts]
    rw [text, trimmedText]
    have digits : ∀ c ∈ (paddedText precision n).rdropWhile (· = 0x30), IsDigit c := fun c member =>
      paddedText_digits precision n c ((List.rdropWhile_prefix _ _).subset member)
    have last := List.rdropWhile_last_not (p := (· = (0x30 : UInt8))) (l := paddedText precision n)
    generalize (paddedText precision n).rdropWhile (· = 0x30) = fraction at digits last ⊢
    rcases List.eq_nil_or_concat fraction with rfl | ⟨more, c, rfl⟩
    · exact ⟨naturalText (n / 10 ^ precision), 0x2E, zeros, rfl, by decide,
        .inl ⟨rfl, noPoint, by simp⟩⟩
    · refine ⟨naturalText (n / 10 ^ precision) ++ 0x2E :: more, c, zeros, by simp, ?_,
        .inr ⟨?_, by simp, by simp⟩⟩
      · simpa using last (by simp)
      · exact (digits c (by simp)).notPoint

end Trimmed

section Cut

variable (env : BufferEnv) (fresh : Nat → UInt8)
variable {all text : List UInt8} {buffer : MulleBuffer} {sign : List UInt8}

theorem findIdx_first {test : UInt8 → Bool} {front : List UInt8} {c : UInt8} (rest : List UInt8)
    (none : ∀ c ∈ front, test c = false) (found : test c = true) :
    (front ++ c :: rest).findIdx test = front.length := by
  induction front with
  | nil => simp [List.findIdx_cons, found]
  | cons first front ih =>
    rw [List.cons_append, List.findIdx_cons, none first (by simp),
      ih fun c member => none c (by simp [member])]
    rfl

section

variable (holds : FlexibleHolds (all ++ text) buffer)
include holds

theorem FlexibleHolds.read :
    bufferGetLength buffer - all.length = text.length ∧
      blockRead buffer.storage all.length text.length = some text := by
  have fits := holds.fits
  have curr := holds.curr_eq
  rw [List.length_append] at curr
  have parts : buffer.storage = all ++ text ++ buffer.storage.drop buffer.curr := by
    rw [← holds.content, List.take_append_drop]
  constructor
  · rw [holds.length_eq, List.length_append, Nat.add_sub_cancel_left]
  · rw [blockRead, if_pos (by omega), parts, List.append_assoc, List.drop_left, List.take_left]

theorem FlexibleHolds.cut (keep : Nat) {p : Nat} (ordered : keep < p) (inside : p ≤ text.length) :
    ∃ storage next, blockMove buffer.storage (all.length + keep) (all.length + p) (text.length -
      p) = some storage ∧
      bufferSetLength env fresh { buffer with storage := storage } (all.length + keep +
        (text.length - p)) 0 =
        some (next, 0) ∧
      FlexibleHolds (all ++ (text.take keep ++ text.drop p)) next := by
  have fits := holds.fits
  have curr := holds.curr_eq
  rw [List.length_append] at curr
  have later : all.length + keep ≤ all.length + p := by omega
  obtain ⟨storage, moves, length, content⟩ :=
    blockMove_take buffer.storage (text.length - p) later (by omega)
  have total : all.length + p + (text.length - p) = buffer.curr := by omega
  have front : buffer.storage.take (all.length + keep) = all ++ text.take keep := by
    have shorter : all.length + keep = min (all.length + keep) buffer.curr := by omega
    rw [shorter, ← List.take_take, holds.content, List.take_length_add_append]
  rw [total, holds.content, front, List.drop_length_add_append] at content
  have moved : FlexibleHolds (storage.take buffer.curr) { buffer with storage := storage } := by
    refine ⟨⟨holds.ordinary, by dsimp only; omega, fun null => ?_, rfl⟩, holds.flexible⟩
    rw [holds.null null] at length
    exact List.length_eq_zero_iff.mp length
  obtain ⟨next, after, result, nextHolds, shrinks, -⟩ :=
    moved.setLength env fresh (all.length + keep + (text.length - p)) 0
  have movedLength : (storage.take buffer.curr).length = buffer.curr := by
    rw [List.length_take]
    omega
  have after := shrinks (by omega)
  rw [List.take_take, Nat.min_eq_left (by omega), content] at after
  rw [after, List.append_assoc] at nextHolds
  exact ⟨storage, next, moves, result, nextHolds⟩

theorem FlexibleHolds.cutEnd (keep : Nat) (inside : keep ≤ text.length) :
    ∃ next, bufferSetLength env fresh buffer (all.length + keep) 0 = some (next, 0) ∧
      FlexibleHolds (all ++ text.take keep) next := by
  obtain ⟨next, after, result, nextHolds, shrinks, -⟩ :=
    holds.setLength env fresh (all.length + keep) 0
  have after := shrinks (by rw [List.length_append]; omega)
  rw [after, List.take_length_add_append] at nextHolds
  exact ⟨next, result, nextHolds⟩

end

theorem fixedText_chars (point : Bool) (precision n : Nat) :
    ∀ c ∈ fixedText point precision n, IsDigit c ∨ c = 0x2E := by
  intro c member
  rcases List.mem_append.mp member with whole | fraction
  · exact .inl (naturalText_digits _ c whole)
  · split at fraction
    · rcases List.mem_cons.mp fraction with point | digit
      · exact .inr point
      · exact .inl (paddedText_digits _ _ c digit)
    · cases fraction

theorem noLetter (signed : FpSigned sign) (point : Bool) (precision n : Nat) :
    ∀ c ∈ sign ++ fixedText point precision n, (decide (c = 0x65) || decide (c = 0x45)) = false := by
  intro c member
  rcases List.mem_append.mp member with front | digits
  · rcases signed with rfl | rfl | rfl | rfl <;> simp at front <;> simp [front]
  · rcases fixedText_chars point precision n c digits with digit | rfl
    · have notE : c ≠ 0x65 ∧ c ≠ 0x45 := by
        constructor <;> rintro rfl <;> exact absurd digit.2 (by decide)
      simp [notE]
    · rfl

theorem fpTrimExponentForm_eq {rest : List UInt8} {letter : UInt8} {precision n : Nat}
    (holds : FlexibleHolds (all ++ (sign ++ fixedText false precision n ++ letter :: rest)) buffer)
    (signed : FpSigned sign) (isLetter : letter = 0x65 ∨ letter = 0x45)
    (single : precision = 0 → HasDigits n 1) :
    ∃ next, fpTrimExponentForm env fresh all.length buffer = some next ∧
      FlexibleHolds (all ++ (sign ++ trimmedText precision n ++ letter :: rest)) next := by
  have found : (sign ++ fixedText false precision n ++ letter :: rest).findIdx (fun c => c =
    0x65 || c = 0x45) =
      (sign ++ fixedText false precision n).length :=
    findIdx_first rest (noLetter signed false precision n) (by rcases isLetter with rfl | rfl <;> rfl)
  obtain ⟨front, c, zeros, stem, notZero, trimmed⟩ := fixedText_stem single
  rw [stem] at holds found
  obtain ⟨count, read⟩ := holds.read
  have text : sign ++ (front ++ c :: List.replicate zeros 0x30) ++ letter :: rest =
      sign ++ front ++ c :: (List.replicate zeros 0x30 ++ letter :: rest) := by
    simp
  have position : (sign ++ (front ++ c :: List.replicate zeros 0x30)).length =
      (sign ++ front).length + zeros + 1 := by
    simp
    omega
  rw [text] at holds count read found
  rw [position] at found
  have skipped := fpSkipZeros_eq (sign ++ front) notZero zeros (letter :: rest) (Nat.zero_le _)
  have behind : (sign ++ front ++ c :: (List.replicate zeros 0x30 ++ letter :: rest)).drop
      ((sign ++ front).length + zeros + 1) = letter :: rest := by
    rw [Nat.add_assoc, List.drop_length_add_append, List.drop_succ_cons]
    exact List.drop_left' (by simp)
  have last : (sign ++ front ++ c :: (List.replicate zeros 0x30 ++ letter :: rest))[(sign ++
      front).length]? = some c := by
    simp
  have inside : (sign ++ front).length + zeros + 1 ≤
      (sign ++ front ++ c :: (List.replicate zeros 0x30 ++ letter :: rest)).length := by
    simp
    omega
  rw [fpTrimExponentForm, count, read]
  simp only [Option.bind_eq_bind, Option.bind_some, found, Nat.add_sub_cancel, skipped, last,
    Option.some.injEq]
  rcases trimmed with ⟨point, -, trimmed⟩ | ⟨notPoint, -, trimmed⟩
  · obtain ⟨storage, next, moves, cuts, nextHolds⟩ :=
      holds.cut env fresh (sign ++ front).length (by omega) inside
    rw [if_pos point, if_pos (by omega), moves, Option.bind_some, cuts]
    rw [behind, List.take_left, ← trimmed] at nextHolds
    exact ⟨next, rfl, nextHolds⟩
  · rw [if_neg notPoint]
    split
    · rename_i more
      obtain ⟨storage, next, moves, cuts, nextHolds⟩ := holds.cut env fresh _ more inside
      rw [moves, Option.bind_some, cuts]
      rw [behind, List.take_length_add_append, List.take_succ_cons, List.take_zero,
        List.append_assoc sign, ← trimmed] at nextHolds
      exact ⟨next, rfl, nextHolds⟩
    · obtain rfl : zeros = 0 := by omega
      refine ⟨buffer, rfl, ?_⟩
      rw [trimmed]
      simpa using holds

theorem fpTrimFixedForm_eq {all sign : List UInt8} {precision n : Nat} {buffer : MulleBuffer}
    (holds : FlexibleHolds (all ++ (sign ++ fixedText false precision n)) buffer)
    (signed : FpSigned sign) :
    ∃ next, fpTrimFixedForm env fresh all.length buffer = some next ∧
      FlexibleHolds (all ++ (sign ++ trimmedText precision n)) next := by
  have signPoint : 0x2E ∉ sign := by rcases signed with rfl | rfl | rfl | rfl <;> simp
  rcases Nat.eq_zero_or_pos precision with rfl | some
  · have fixed : fixedText false 0 n = naturalText n := by simp [fixedText]
    have trimmed : trimmedText 0 n = naturalText n := by simp [trimmedText, paddedText, fixedDigits]
    rw [fixed] at holds
    rw [trimmed]
    obtain ⟨count, read⟩ := holds.read
    have none : (sign ++ naturalText n).findIdx (· = 0x2E) = (sign ++ naturalText n).length := by
      rw [List.findIdx_eq_length]
      intro c member
      rw [decide_eq_false_iff_not]
      rintro rfl
      rcases List.mem_append.mp member with front | digit
      · exact signPoint front
      · exact (naturalText_digits n _ digit).notPoint rfl
    rw [fpTrimFixedForm, count, read]
    simp only [Option.bind_eq_bind, Option.bind_some, none, lt_irrefl, if_false]
    exact ⟨buffer, rfl, holds⟩
  · obtain ⟨front, c, zeros, stem, notZero, trimmed⟩ :=
      fixedText_stem (n := n) fun none : precision = 0 => by omega
    have text : sign ++ (front ++ c :: List.replicate zeros 0x30) = sign ++ front ++ c ::
        (List.replicate zeros 0x30 ++ []) := by
      simp
    rw [stem, text] at holds
    obtain ⟨count, read⟩ := holds.read
    have length : (sign ++ front ++ c :: (List.replicate zeros 0x30 ++ [])).length =
        (sign ++ front).length + zeros + 1 := by
      simp
      omega
    have skipped := fun lowest low => @fpSkipZeros_eq (sign ++ front) c notZero zeros [] lowest low
    rw [fpTrimFixedForm, count, read]
    simp only [Option.bind_eq_bind, Option.bind_some, length, Nat.add_sub_cancel]
    rcases trimmed with ⟨rfl, noPoint, trimmed⟩ | ⟨notPoint, point, trimmed⟩
    · have found : (sign ++ front ++ 0x2E :: (List.replicate zeros 0x30 ++ [])).findIdx (· = 0x2E) =
          (sign ++ front).length := by
        apply findIdx_first
        · intro c member
          rw [decide_eq_false_iff_not]
          rintro rfl
          exact (List.mem_append.mp member).elim signPoint noPoint
        · rfl
      obtain ⟨next, cuts, nextHolds⟩ := holds.cutEnd env fresh (sign ++ front).length (by omega)
      rw [found, if_pos (by omega), skipped _ le_rfl, if_pos rfl, if_pos (by omega), cuts]
      rw [List.take_left, ← trimmed] at nextHolds
      exact ⟨next, rfl, nextHolds⟩
    · obtain ⟨dot, dotEq⟩ :
        ∃ dot, (sign ++ front ++ c :: (List.replicate zeros 0x30 ++ [])).findIdx (· = 0x2E) = dot :=
        ⟨_, rfl⟩
      have earlier : dot < (sign ++ front).length := by
        have inside : ∃ c, c ∈ sign ++ front ∧ decide (c = 0x2E) = true :=
          ⟨0x2E, by simp [point some], rfl⟩
        have first := List.findIdx_lt_length_of_exists inside
        rw [← dotEq, List.findIdx_append, if_pos first]
        exact first
      rw [dotEq, if_pos (by omega), skipped _ earlier.le, if_neg earlier.ne']
      split
      · rename_i more
        obtain ⟨next, cuts, nextHolds⟩ :=
          holds.cutEnd env fresh ((sign ++ front).length + 1) (by omega)
        rw [cuts]
        rw [List.take_length_add_append, List.take_succ_cons, List.take_zero,
          List.append_assoc sign, ← trimmed] at nextHolds
        exact ⟨next, rfl, nextHolds⟩
      · obtain rfl : zeros = 0 := by omega
        refine ⟨buffer, rfl, ?_⟩
        rw [trimmed]
        simpa using holds

end Cut

section Appended

variable (env : BufferEnv) (fresh : Nat → UInt8) {info : Formatconversioninfo}
  {decimal : DtostrDecimal}

def trimmedScientific (letter : UInt8) (precision n : Nat) (exponent : Int) : List UInt8 :=
  trimmedText precision n ++ letter :: (if exponent ≥ 0 then 0x2B else 0x2D) ::
    exponentDigits exponent.natAbs

def fpSignificant (precision : Nat) : Nat := if precision = 0 then 1 else precision

def fpFirst (decimal : DtostrDecimal) : Int :=
  decimal.exponent + countDecimalDigits decimal.significand - 1

theorem fpGInfo_notHex (precision : Nat)
    (notHex : ¬ (info.conversion = 0x61 ∨ info.conversion = 0x41)) :
    ¬ ((fpGInfo info precision).conversion = 0x61 ∨ (fpGInfo info precision).conversion = 0x41) :=
  notHex

theorem appends_exponentForm (notHex : ¬ (info.conversion = 0x61 ∨ info.conversion = 0x41))
    (plain : info.hashFound = false) (delivers : DtostrDelivers decimal)
    (outside : fpFirst decimal < -4 ∨ fpFirst decimal ≥ fpSignificant (fpPrecision info)) :
    ∃ n exponent, RoundsDigits (dtostrValue decimal) (fpSignificant (fpPrecision info) - 1) n
      exponent ∧
      Appends (fpGeneral env fresh info decimal) (fpSign info decimal.sign ++
        trimmedScientific (fpExponentLetter info) (fpSignificant (fpPrecision info) - 1) n
          exponent) := by
  obtain ⟨n, exponent, rounds, appends⟩ : ∃ n exponent,
      RoundsDigits (dtostrValue decimal) (fpSignificant (fpPrecision info) - 1) n exponent ∧ _ :=
    appends_fpEConversion env fresh (fpGInfo_notHex (fpSignificant (fpPrecision info) - 1) notHex)
      delivers
  refine ⟨n, exponent, rounds, ?_⟩
  intro all buffer holds
  obtain ⟨between, done, betweenHolds⟩ := appends all buffer holds
  have hash : (fpGInfo info (fpSignificant (fpPrecision info) - 1)).hashFound = false := plain
  rw [fpPadded_none (Nat.zero_le _), scientificText, hash,
    ← List.append_assoc (fpSign _ _)] at betweenHolds
  obtain ⟨next, trimmed, nextHolds⟩ :=
    fpTrimExponentForm_eq env fresh betweenHolds (fpSign_signed info decimal.sign)
    (by rw [fpExponentLetter]; split <;> simp) (by
      intro none
      have digits := rounds.digits
      change HasDigits n (fpSignificant (fpPrecision info) - 1 + 1) at digits
      change fpSignificant (fpPrecision info) - 1 = 0 at none
      rwa [none] at digits)
  refine ⟨next, ?_, ?_⟩
  · rw [fpGeneral]
    change (if fpFirst decimal < -4 ∨ fpFirst decimal ≥ fpSignificant (fpPrecision info) then
      (sprintfFpEConversion env fresh (fpGInfo info (fpSignificant (fpPrecision info) - 1)) decimal
        buffer).bind fun buffer =>
        if info.hashFound then Option.some buffer else _ else _) = _
    rw [if_pos outside, done, Option.bind_some, plain, holds.length_eq]
    exact trimmed
  · rw [trimmedScientific, ← List.append_assoc (fpSign _ _)]
    exact nextHolds

theorem appends_fixedForm (notHex : ¬ (info.conversion = 0x61 ∨ info.conversion = 0x41))
    (plain : info.hashFound = false) (delivers : DtostrDelivers decimal)
    (inside : ¬ (fpFirst decimal < -4 ∨ fpFirst decimal ≥ fpSignificant (fpPrecision info)))
    {places : Nat} (placesEq : (fpSignificant (fpPrecision info) - (fpFirst decimal + 1)).toNat =
      places) :
    Appends (fpGeneral env fresh info decimal) (fpSign info decimal.sign ++
      trimmedText places (fpFNumber decimal places)) := by
  intro all buffer holds
  obtain ⟨between, done, betweenHolds⟩ :=
    appends_fpFConversion env fresh (fpGInfo_notHex places notHex) delivers all
    buffer holds
  have hash : (fpGInfo info places).hashFound = false := plain
  rw [fpPadded_none (Nat.zero_le _), hash] at betweenHolds
  obtain ⟨next, trimmed, nextHolds⟩ :=
    fpTrimFixedForm_eq env fresh betweenHolds (fpSign_signed info decimal.sign)
  refine ⟨next, ?_, nextHolds⟩
  rw [fpGeneral]
  change (if fpFirst decimal < -4 ∨ fpFirst decimal ≥ fpSignificant (fpPrecision info) then _ else
    (sprintfFpFConversion env fresh
      (fpGInfo info (fpSignificant (fpPrecision info) - (fpFirst decimal + 1)).toNat) decimal
      buffer).bind fun buffer => if info.hashFound then Option.some buffer else _) = _
  rw [if_neg inside, placesEq, done, Option.bind_some, plain, holds.length_eq]
  exact trimmed

end Appended

section Unique

variable {value : ℚ} {other : Int} {precision : Nat} {decimal : DtostrDecimal}

theorem first_unique {first : Int} (least : 10 ^ first ≤ value) (below : value < 10 ^ (first + 1))
    (atLeast : 10 ^ other ≤ value) (under : value < 10 ^ (other + 1)) : first = other := by
  have ten : (1 : ℚ) < 10 := by norm_num
  have left := (zpow_lt_zpow_iff_right₀ ten).mp (least.trans_lt under)
  have right := (zpow_lt_zpow_iff_right₀ ten).mp (atLeast.trans_lt below)
  omega

theorem RoundsDigits.unique {n m : Nat} {exponent : Int}
    (rounds : RoundsDigits value precision n exponent)
    (others : RoundsDigits value precision m other) :
    n = m ∧ exponent = other := by
  obtain ⟨digits, first, least, below, near⟩ := rounds
  obtain ⟨otherDigits, otherFirst, otherLeast, otherBelow, otherNear⟩ := others
  obtain rfl := first_unique least below otherLeast otherBelow
  have same := near.unique (zpow_pos (by norm_num) _) otherNear
  have bounds := digits.first (exponent - precision)
  have otherBounds := otherDigits.first (other - precision)
  rw [same] at bounds
  have exponents := first_unique bounds.1 bounds.2 otherBounds.1 otherBounds.2
  obtain rfl : exponent = other := by omega
  have numbers := mul_right_cancel₀ (zpow_pos (by norm_num : (0 : ℚ) < 10) _).ne' same
  exact ⟨by exact_mod_cast numbers, rfl⟩

def generalRounded (decimal : DtostrDecimal) (precision : Nat) : Nat :=
  let places := precision - 1 - fpFirst decimal
  roundHalfEven (decimal.significand * 10 ^ (decimal.exponent + places).toNat)
    (10 ^ (-(decimal.exponent + places)).toNat)

def generalKept (decimal : DtostrDecimal) (precision : Nat) : Nat :=
  let places := precision - 1 - fpFirst decimal
  decimal.significand * 10 ^ (decimal.exponent + places).toNat / 10 ^
    (-(decimal.exponent + places)).toNat

theorem generalKept_digits (delivers : DtostrDelivers decimal)
    (some : 0 < precision) : HasDigits (generalKept decimal precision) precision ∧
      (generalRounded decimal precision = generalKept decimal precision ∨
        generalRounded decimal precision = generalKept decimal precision + 1) := by
  have has := (hasDigits_countDecimalDigits delivers.positive (by have := delivers.most; omega)).1
  have scaled := has.scaled some
  constructor
  · rw [generalKept, fpFirst]
    rwa [(by omega : (decimal.exponent + ((precision : Int) - 1 -
        (decimal.exponent + countDecimalDigits decimal.significand - 1))).toNat =
          precision - countDecimalDigits decimal.significand),
      (by omega : (-(decimal.exponent + ((precision : Int) - 1 -
        (decimal.exponent + countDecimalDigits decimal.significand - 1)))).toNat =
          countDecimalDigits decimal.significand - precision)]
  · rw [generalRounded, generalKept, roundHalfEven]
    split
    · exact .inr rfl
    · exact .inl rfl

theorem generalRounded_rounds (delivers : DtostrDelivers decimal) (some : 0 < precision) :
    RoundsDigits (dtostrValue decimal) (precision - 1)
      (if generalRounded decimal precision = 10 ^ precision then 10 ^ (precision - 1)
        else generalRounded decimal precision)
      (if generalRounded decimal precision = 10 ^ precision then fpFirst decimal + 1
        else fpFirst decimal) := by
  obtain ⟨kept, rounded⟩ := generalKept_digits delivers some
  have has := (hasDigits_countDecimalDigits delivers.positive (by have := delivers.most; omega)).1
  have first := has.first decimal.exponent
  have value := roundHalfEven_value decimal (precision - 1 - fpFirst decimal)
  change RoundsHalfEven _ _ (generalRounded decimal precision * _) at value
  obtain ⟨less, rfl⟩ := Nat.exists_eq_succ_of_ne_zero some.ne'
  have least := kept.least
  have below := kept.below
  have unit : -(((less + 1 : Nat) : Int) - 1 - fpFirst decimal) = fpFirst decimal - less := by omega
  have position : decimal.exponent + ((countDecimalDigits decimal.significand : Int) - 1) =
      fpFirst decimal := by
    rw [fpFirst]
    omega
  rw [Nat.succ_eq_add_one, unit] at value
  rw [position] at first
  rw [Nat.succ_eq_add_one] at least below rounded
  rw [Nat.succ_eq_add_one, Nat.add_sub_cancel]
  by_cases carry : generalRounded decimal (less + 1) = 10 ^ (less + 1)
  · rw [if_pos carry, if_pos carry]
    refine ⟨⟨Nat.succ_pos _, le_rfl, Nat.pow_lt_pow_right (by decide) (by omega)⟩, _,
      first.1, first.2, ?_⟩
    have same : ((10 ^ (less + 1) : Nat) : ℚ) * 10 ^ (fpFirst decimal - less) =
        (10 ^ less : Nat) * 10 ^ (fpFirst decimal + 1 - less) := by
      rw [natCast_pow_mul, natCast_pow_mul]
      congr 1
      omega
    rwa [carry, same] at value
  · rw [if_neg carry, if_neg carry]
    rw [Nat.add_sub_cancel] at least
    exact ⟨⟨Nat.succ_pos _, by rw [Nat.add_sub_cancel]; omega, by omega⟩, _, first.1, first.2, value⟩

end Unique

section Compared

variable {info : Formatconversioninfo}

theorem trimmedText_shift (places n : Nat) :
    trimmedText (places + 1) (n * 10) = trimmedText places n := by
  have padded : paddedText (places + 1) (n * 10) = paddedText places n ++ [0x30] := by
    have digits := fixedDigits_shift (by decide : 0 < 10) places 1 n
    rw [Nat.pow_one] at digits
    rw [paddedText, digits, List.map_append]
    rfl
  have whole : n * 10 / 10 ^ (places + 1) = n / 10 ^ places := by
    rw [Nat.pow_succ, Nat.mul_div_mul_right _ _ (by decide)]
  rw [trimmedText, trimmedText, padded, whole, List.rdropWhile_concat_pos _ _ _ (by rfl)]

theorem trimmedText_cons (precision n : Nat) : ∃ c more, trimmedText precision n = c :: more ∧
    0x30 ≤ c ∧ c ≤ 0x39 := by
  obtain ⟨c, more, text, least, most⟩ := naturalText_cons (n / 10 ^ precision)
  exact ⟨c, _, by rw [trimmedText, text]; rfl, least, most⟩

theorem trimmedText_chars (precision n : Nat) : ∀ c ∈ trimmedText precision n, IsDigit c ∨
    c = 0x2E := by
  intro c member
  rw [trimmedText] at member
  rcases List.mem_append.mp member with whole | fraction
  · exact .inl (naturalText_digits _ c whole)
  · split at fraction
    · cases fraction
    · rcases List.mem_cons.mp fraction with point | digit
      · exact .inr point
      · exact .inl (paddedText_digits _ _ c ((List.rdropWhile_prefix _ _).subset digit))

def behindPoint (text : List UInt8) : List UInt8 := (text.dropWhile (· ≠ 0x2E)).filter (· ≠ 0x20)

theorem dropWhile_skip {front : List UInt8} (none : 0x2E ∉ front) (text : List UInt8) :
    (front ++ text).dropWhile (· ≠ 0x2E) = text.dropWhile (· ≠ 0x2E) := by
  apply List.dropWhile_append_of_pos
  intro c member
  have other : c ≠ 0x2E := by
    rintro rfl
    exact none member
  simpa using other

theorem behindPoint_padded (notHex : ¬ (info.conversion = 0x61 ∨ info.conversion = 0x41))
    (negative : Bool) {text : List UInt8}
    (begins : ∃ c more, text = c :: more ∧ 0x30 ≤ c ∧ c ≤ 0x39) :
    behindPoint (fpPadded info (fpSign info negative ++ text)) = behindPoint text := by
  have signed := fpSign_signed info negative
  have signPoint : 0x2E ∉ fpSign info negative := by
    rcases signed with same | same | same | same <;> simp [same]
  obtain ⟨c, more, rfl, least, most⟩ := begins
  have inside : (fpInsert info (fpSign info negative ++ c :: more)).1 ≤
    (fpSign info negative).length ∧
      (fpInsert info (fpSign info negative ++ c :: more)).2 ≠ 0x2E := by
    rw [fpInsert_number info signed least most]
    simp only [notHex, false_and, if_false]
    split <;> simp
  rw [behindPoint, behindPoint, fpPadded]
  split
  · have spaces : ∀ count, (List.replicate count (0x20 : UInt8)).filter (· ≠ 0x20) = [] := by simp
    rw [List.append_assoc, dropWhile_skip signPoint, List.dropWhile_append]
    split
    · rename_i none
      have skipped : ∀ count, (List.replicate count (0x20 : UInt8)).dropWhile (· ≠ 0x2E) = [] := by
        simp
      rw [List.isEmpty_iff.mp none, skipped]
    · rw [List.filter_append, spaces, List.append_nil]
  · generalize fpInsert info (fpSign info negative ++ c :: more) = insertion at inside
    obtain ⟨insert, char⟩ := insertion
    dsimp only at inside ⊢
    have front : 0x2E ∉ (fpSign info negative).take insert :=
      fun member => signPoint (List.mem_of_mem_take member)
    have back : 0x2E ∉ (fpSign info negative).drop insert :=
      fun member => signPoint (List.mem_of_mem_drop member)
    have padding : ∀ count, 0x2E ∉ List.replicate count char := fun count member =>
      inside.2 (List.eq_of_mem_replicate member).symm
    rw [List.take_append_of_le_length inside.1, List.drop_append_of_le_length inside.1,
      List.append_assoc, dropWhile_skip front, dropWhile_skip (padding _), dropWhile_skip back]

theorem trimmedText_next (notHex : ¬ (info.conversion = 0x61 ∨ info.conversion = 0x41))
    (negative : Bool) {places n : Nat} (positive : 0 < n) (below : n < 10 ^ places) :
    fpPadded info (fpSign info negative ++ trimmedText places n) ≠
      fpPadded info (fpSign info negative ++ trimmedText places (n + 1)) := by
  intro same
  have fraction : ∀ n, 0 < n → n < 10 ^ places →
      (paddedText places n).rdropWhile (· = 0x30) ≠ [] := by
    intro n positive below
    rw [Ne, List.rdropWhile_eq_nil_iff]
    intro zeros
    have notZero : ∀ digit < 10, decimalDigit digit = 0x30 → digit = 0 := by decide
    have digits : ∀ digit ∈ fixedDigits 10 places n, digit = 0 := by
      intro digit member
      apply notZero digit (fixedDigits_lt (by decide) places n digit member)
      simpa using zeros _ (List.mem_map_of_mem member)
    rw [fixedDigits_zeros (by decide), Nat.mod_eq_of_lt below] at digits
    omega
  have behind : ∀ n, 0 < n → n < 10 ^ places →
      behindPoint (trimmedText places n) = 0x2E :: (paddedText places n).rdropWhile (· = 0x30) := by
    intro n positive below
    have noPoint : 0x2E ∉ naturalText (n / 10 ^ places) :=
      fun member => (naturalText_digits _ _ member).notPoint rfl
    have digits : ((paddedText places n).rdropWhile (· = 0x30)).filter (· ≠ 0x20) =
        (paddedText places n).rdropWhile (· = 0x30) := by
      rw [List.filter_eq_self]
      intro c member
      have digit := paddedText_digits _ _ c ((List.rdropWhile_prefix _ _).subset member)
      have other : c ≠ 0x20 := by
        rintro rfl
        exact absurd digit.1 (by decide)
      simpa using other
    rw [behindPoint, trimmedText, if_neg (fraction n positive below), dropWhile_skip noPoint,
      List.dropWhile_cons_of_neg (by decide), List.filter_cons_of_pos (by decide), digits]
  have cut := congrArg behindPoint same
  rw [behindPoint_padded notHex negative (trimmedText_cons _ _), behindPoint_padded notHex negative
    (trimmedText_cons _ _), behind n positive below] at cut
  rcases Nat.lt_or_ge (n + 1) (10 ^ places) with less | full
  · rw [behind (n + 1) (by omega) less] at cut
    have fractions := List.cons_injective cut
    obtain ⟨zeros, parts⟩ := rdropWhile_zeros (paddedText places n)
    obtain ⟨others, otherParts⟩ := rdropWhile_zeros (paddedText places (n + 1))
    have lengths := congrArg List.length parts
    have otherLengths := congrArg List.length otherParts
    rw [fractions] at parts lengths
    simp only [List.length_append, List.length_replicate, paddedText, List.length_map,
      fixedDigits_length] at lengths
    simp only [List.length_append, List.length_replicate, paddedText, List.length_map,
      fixedDigits_length] at otherLengths
    obtain rfl : zeros = others := by omega
    have equal := paddedText_injective (parts.trans otherParts.symm)
    rw [Nat.mod_eq_of_lt below, Nat.mod_eq_of_lt less] at equal
    omega
  · have power : n + 1 = 10 ^ places := by omega
    have zeros : paddedText places (10 ^ places) = List.replicate places 0x30 := by
      rw [paddedText, ← fixedDigits_mod, Nat.mod_self, fixedDigits_zero, List.map_replicate]
      rfl
    have nothing : (paddedText places (10 ^ places)).rdropWhile (· = 0x30) = [] := by
      rw [zeros, List.rdropWhile_eq_nil_iff]
      intro c member
      simpa using List.eq_of_mem_replicate member
    have one : behindPoint (trimmedText places (n + 1)) = [] := by
      rw [power, trimmedText, nothing, if_pos rfl, Nat.div_self (Nat.pow_pos (by decide))]
      rfl
    rw [one] at cut
    cases cut

end Compared

section General

variable (env : BufferEnv) (fresh : Nat → UInt8) (spec : Formatspec) (upper : Bool)
  (decimal : DtostrDecimal)
variable {info : Formatconversioninfo} {text : List UInt8} {letter : UInt8} {precision places : Nat}

def fpPlainGInfo (spec : Formatspec) (upper : Bool) : Formatconversioninfo :=
  { spec with hash := false }.info [] (if upper then 0x47 else 0x67)

def fpDigitsWanted (spec : Formatspec) : Nat := fpSignificant (fpDecimals spec)

def generalText (letter : UInt8) (precision n : Nat) (exponent : Int) : List UInt8 :=
  if exponent < -4 ∨ exponent ≥ precision then trimmedScientific letter (precision - 1) n exponent
  else trimmedText (precision - 1 - exponent).toNat n

def GeneralRounds : Prop :=
  ∃ n exponent, RoundsDigits (dtostrValue decimal) (fpDigitsWanted spec - 1) n exponent ∧
    Appends (sprintfFpGConversion env fresh (fpPlainGInfo spec upper) decimal)
      (fpPadded (fpPlainGInfo spec upper) (fpSign (fpPlainGInfo spec upper) decimal.sign ++
        generalText (if upper then 0x45 else 0x65) (fpDigitsWanted spec) n exponent))

/-- Rounding does not take the value to the other form, and a number below one in fixed form is not
rounded up. -/
def GeneralClear (decimal : DtostrDecimal) (precision : Nat) : Prop :=
  (fpFirst decimal = -5 ∨ fpFirst decimal = precision - 1 → generalRounded decimal precision ≠
    10 ^ precision) ∧
    (-4 ≤ fpFirst decimal → fpFirst decimal < 0 → generalRounded decimal precision =
      generalKept decimal precision)

variable {decimal}

theorem fpPlainGInfo_fields : (fpPlainGInfo spec upper).hashFound = false ∧
    ¬ ((fpPlainGInfo spec upper).conversion = 0x61 ∨ (fpPlainGInfo spec upper).conversion = 0x41) ∧
    fpPrecision (fpPlainGInfo spec upper) = fpDecimals spec ∧
    fpExponentLetter (fpPlainGInfo spec upper) = if upper then 0x45 else 0x65 := by
  have conversion : (fpPlainGInfo spec upper).conversion = if upper then 0x47 else 0x67 := by
    rw [fpPlainGInfo, Formatspec.info_eq]
    rfl
  refine ⟨?_, ?_, fpPrecision_eq { spec with hash := false } _, ?_⟩
  · rw [fpPlainGInfo, Formatspec.info_eq]
    rfl
  · rw [conversion]
    cases upper <;> decide
  · rw [fpExponentLetter, conversion]
    cases upper <;> rfl

theorem appends_fpGConversion
    (notHex : ¬ (info.conversion = 0x61 ∨ info.conversion = 0x41)) (delivers : DtostrDelivers decimal)
    (begins : ∃ c more, text = c :: more ∧ 0x30 ≤ c ∧ c ≤ 0x39)
    (appends : Appends (fpGeneral env fresh info decimal) (fpSign info decimal.sign ++ text)) :
    Appends (sprintfFpGConversion env fresh info decimal)
      (fpPadded info (fpSign info decimal.sign ++ text)) := by
  apply appends_fpJustified
  · rw [delivers.normal]
    exact appends
  · exact fpStable_text notHex decimal.sign begins

theorem fpDigitsWanted_pos : 0 < fpDigitsWanted spec := by
  rw [fpDigitsWanted, fpSignificant]
  split <;> omega

theorem fpPadded_letter (info : Formatconversioninfo) (negative : Bool)
    (isLetter : letter = 0x65 ∨ letter = 0x45) (places m precision n : Nat) (exponent : Int) :
    fpPadded info (fpSign info negative ++ trimmedText places m) ≠
      fpPadded info (fpSign info negative ++ trimmedScientific letter precision n exponent) := by
  intro same
  have blank : letter ≠ 0x20 ∧ letter ≠ 0x30 ∧ letter ≠ 0x2E ∧ ¬ letter ≤ 0x39 := by
    rcases isLetter with rfl | rfl <;> decide
  have inside : letter ∈ fpPadded info (fpSign info negative ++ trimmedScientific letter precision n
      exponent) := by
    rw [fpPadded_mem info _ blank.1 blank.2.1, trimmedScientific]
    simp
  rw [← same, fpPadded_mem info _ blank.1 blank.2.1] at inside
  rcases List.mem_append.mp inside with sign | digits
  · rcases fpSign_signed info negative with none | one | one | one
    · simp [none] at sign
    all_goals rcases isLetter with rfl | rfl <;> simp [one] at sign
  · rcases trimmedText_chars _ _ _ digits with digit | point
    · exact blank.2.2.2 digit.2
    · exact blank.2.2.1 point

theorem fpFNumber_general (placesEq : (places : Int) = precision - 1 - fpFirst decimal) :
    fpFNumber decimal places =
      if 0 ≤ fpFirst decimal then generalRounded decimal precision
        else generalKept decimal precision := by
  have above : 0 < countDecimalDigits decimal.significand + decimal.exponent ↔
      0 ≤ fpFirst decimal := by
    rw [fpFirst]
    omega
  rw [fpFNumber, generalRounded, generalKept, ← placesEq]
  simp only [above]

theorem trimmedText_carried {n : Nat} {first : Int} (some : 0 < precision)
    (placesEq : (places : Int) = precision - 1 - first)
    (less : n = 10 ^ precision → first + 1 < precision) :
    trimmedText (precision - 1 - if n = 10 ^ precision then first + 1 else first).toNat
      (if n = 10 ^ precision then 10 ^ (precision - 1) else n) = trimmedText places n := by
  by_cases carry : n = 10 ^ precision
  · have fewer := less carry
    obtain ⟨fewerPlaces, rfl⟩ : ∃ fewerPlaces, places = fewerPlaces + 1 := ⟨places - 1, by omega⟩
    have shifted : n = 10 ^ (precision - 1) * 10 := by
      rw [carry, ← Nat.pow_succ]
      congr 1
      omega
    have position : ((precision : Int) - 1 - (first + 1)).toNat = fewerPlaces := by omega
    rw [if_pos carry, if_pos carry, position, ← trimmedText_shift, ← shifted]
  · rw [if_neg carry, if_neg carry, ← placesEq, Int.toNat_natCast]

def generalNumber (decimal : DtostrDecimal) (precision : Nat) : Nat :=
  if generalRounded decimal precision = 10 ^ precision then 10 ^ (precision - 1)
    else generalRounded decimal precision

def generalExponent (decimal : DtostrDecimal) (precision : Nat) : Int :=
  if generalRounded decimal precision = 10 ^ precision then fpFirst decimal + 1 else fpFirst decimal

theorem generalRounds_text (delivers : DtostrDelivers decimal)
    (appends : Appends (sprintfFpGConversion env fresh (fpPlainGInfo spec upper) decimal) text) :
    GeneralRounds env fresh spec upper decimal ↔
      text = fpPadded (fpPlainGInfo spec upper) (fpSign (fpPlainGInfo spec upper) decimal.sign ++
        generalText (if upper then 0x45 else 0x65) (fpDigitsWanted spec)
          (generalNumber decimal (fpDigitsWanted spec))
    (generalExponent decimal (fpDigitsWanted spec))) := by
  have rounded := generalRounded_rounds delivers (fpDigitsWanted_pos spec)
  constructor
  · rintro ⟨n, exponent, rounds, described⟩
    obtain ⟨rfl, rfl⟩ := rounds.unique rounded
    exact appends.unique described
  · rintro rfl
    exact ⟨_, _, rounded, appends⟩

theorem generalText_outside (info : Formatconversioninfo) (negative : Bool)
    (isLetter : letter = 0x65 ∨ letter = 0x45) (decimal : DtostrDecimal) (some : 0 < precision)
    (outside : fpFirst decimal < -4 ∨ fpFirst decimal ≥ precision) :
    fpPadded info (fpSign info negative ++ trimmedScientific letter (precision - 1) (generalNumber
      decimal precision)
        (generalExponent decimal precision)) =
      fpPadded info (fpSign info negative ++
        generalText letter precision (generalNumber decimal precision)
          (generalExponent decimal precision)) ↔
    GeneralClear decimal precision := by
  rw [generalText]
  by_cases last : fpFirst decimal = -5 ∧ generalRounded decimal precision = 10 ^ precision
  · have exponent : generalExponent decimal precision = -4 := by
      rw [generalExponent, if_pos last.2, last.1]
      rfl
    have fixed : ¬ ((-4 : Int) < -4 ∨ (-4 : Int) ≥ precision) := by omega
    rw [exponent, if_neg fixed]
    apply iff_of_false
    · exact (fpPadded_letter info negative isLetter _ _ _ _ _).symm
    · intro clear
      exact clear.1 (.inl last.1) last.2
  · have same : generalExponent decimal precision < -4 ∨
        generalExponent decimal precision ≥ precision := by
      rw [generalExponent]
      split
      · rename_i carry
        have other : fpFirst decimal ≠ -5 := fun first => last ⟨first, carry⟩
        omega
      · exact outside
    rw [if_pos same]
    apply iff_of_true rfl
    constructor
    · rintro (first | first) carry
      · exact last ⟨first, carry⟩
      · omega
    · omega

theorem generalText_inside (notHex : ¬ (info.conversion = 0x61 ∨ info.conversion = 0x41))
    (negative : Bool) (isLetter : letter = 0x65 ∨ letter = 0x45) (delivers : DtostrDelivers decimal)
    (some : 0 < precision) (inside : ¬ (fpFirst decimal < -4 ∨ fpFirst decimal ≥ precision))
    (placesEq : (places : Int) = precision - 1 - fpFirst decimal) :
    fpPadded info (fpSign info negative ++ trimmedText places
        (if 0 ≤ fpFirst decimal then generalRounded decimal precision
          else generalKept decimal precision)) =
      fpPadded info (fpSign info negative ++
        generalText letter precision (generalNumber decimal precision)
          (generalExponent decimal precision)) ↔
    GeneralClear decimal precision := by
  obtain ⟨kept, rounded⟩ := generalKept_digits delivers some
  rw [generalText]
  by_cases last : fpFirst decimal = precision - 1 ∧ generalRounded decimal precision = 10 ^ precision
  · have exponent : generalExponent decimal precision = precision := by
      rw [generalExponent, if_pos last.2, last.1]
      omega
    have scientific : (precision : Int) < -4 ∨ (precision : Int) ≥ precision := by omega
    rw [exponent, if_pos scientific]
    apply iff_of_false
    · exact fpPadded_letter info negative isLetter _ _ _ _ _
    · intro clear
      exact clear.1 (.inr last.1) last.2
  · have less : generalRounded decimal precision = 10 ^ precision →
        fpFirst decimal + 1 < precision := by
      intro carry
      have other : fpFirst decimal ≠ precision - 1 := fun first => last ⟨first, carry⟩
      omega
    have fixed : ¬ (generalExponent decimal precision < -4 ∨ generalExponent decimal precision ≥
        precision) := by
      rw [generalExponent]
      split
      · rename_i carry
        have := less carry
        omega
      · exact inside
    have carried := trimmedText_carried some placesEq less
    rw [← generalNumber, ← generalExponent] at carried
    rw [if_neg fixed, carried]
    by_cases whole : 0 ≤ fpFirst decimal
    · rw [if_pos whole]
      apply iff_of_true rfl
      constructor
      · rintro (first | first) carry
        · omega
        · exact last ⟨first, carry⟩
      · omega
    · rw [if_neg whole]
      rcases rounded with same | next
      · rw [same]
        apply iff_of_true rfl
        constructor
        · omega
        · exact fun _ _ => same
      · rw [next]
        have small : generalKept decimal precision < 10 ^ places :=
          kept.below.trans_le (Nat.pow_le_pow_right (by decide) (by omega))
        have positive : 0 < generalKept decimal precision :=
          (Nat.pow_pos (by decide)).trans_le kept.least
        apply iff_of_false
        · exact trimmedText_next notHex negative positive small
        · intro clear
          have equal := clear.2 (by omega) (by omega)
          omega

theorem generalRounds_outside (delivers : DtostrDelivers decimal)
    (outside : fpFirst decimal < -4 ∨ fpFirst decimal ≥ fpDigitsWanted spec) :
    GeneralRounds env fresh spec upper decimal ↔ GeneralClear decimal (fpDigitsWanted spec) := by
  obtain ⟨plain, notHex, precision, letter⟩ := fpPlainGInfo_fields spec upper
  have some := fpDigitsWanted_pos spec
  obtain ⟨n, exponent, rounds, appends⟩ := appends_exponentForm env fresh notHex plain delivers
    (by rw [precision]; exact outside)
  rw [precision] at rounds appends
  obtain ⟨rfl, rfl⟩ := rounds.unique (generalRounded_rounds delivers some)
  have conversion := appends_fpGConversion env fresh notHex delivers (by
    obtain ⟨c, more, text, digit⟩ := trimmedText_cons (fpSignificant (fpDecimals spec) - 1) _
    exact ⟨c, _, by rw [trimmedScientific, text]; rfl, digit⟩) appends
  rw [generalRounds_text env fresh spec upper delivers conversion, letter]
  exact generalText_outside _ _ (by cases upper <;> simp) decimal some outside

theorem generalRounds_inside (delivers : DtostrDelivers decimal)
    (inside : ¬ (fpFirst decimal < -4 ∨ fpFirst decimal ≥ fpDigitsWanted spec)) :
    GeneralRounds env fresh spec upper decimal ↔ GeneralClear decimal (fpDigitsWanted spec) := by
  obtain ⟨plain, notHex, precision, -⟩ := fpPlainGInfo_fields spec upper
  have some := fpDigitsWanted_pos spec
  obtain ⟨places, placesEq⟩ :=
    Int.eq_ofNat_of_zero_le (by omega : 0 ≤ (fpDigitsWanted spec : Int) - 1 - fpFirst decimal)
  have wanted : (fpSignificant (fpPrecision (fpPlainGInfo spec upper)) -
      (fpFirst decimal + 1) : Int).toNat = places := by
    rw [precision, ← fpDigitsWanted]
    omega
  have appends := appends_fixedForm env fresh notHex plain delivers
    (by rw [precision]; exact inside) wanted
  have conversion := appends_fpGConversion env fresh notHex delivers (trimmedText_cons _ _) appends
  rw [generalRounds_text env fresh spec upper delivers conversion, fpFNumber_general placesEq.symm]
  exact generalText_inside notHex _ (by cases upper <;> simp) delivers some inside placesEq.symm

/-- The conversion rounds unless the carry takes the value to the other form, or a number below one
has to be rounded up in fixed form. -/
theorem sprintfFpGConversion_rounds_iff (delivers : DtostrDelivers decimal) :
    GeneralRounds env fresh spec upper decimal ↔ GeneralClear decimal (fpDigitsWanted spec) := by
  by_cases outside : fpFirst decimal < -4 ∨ fpFirst decimal ≥ fpDigitsWanted spec
  · exact generalRounds_outside env fresh spec upper delivers outside
  · exact generalRounds_inside env fresh spec upper delivers outside

theorem sprintfFpGConversion_rounds_half :
    DtostrDelivers ⟨15, -1, false, .normal, 0, false⟩ ∧
      (GeneralRounds ⟨0, fun _ _ => 0⟩ (fun _ => 0) ⟨false, false, false, false, false,
        none, none⟩ false
        ⟨15, -1, false, .normal, 0, false⟩ ↔ GeneralClear ⟨15, -1, false, .normal, 0, false⟩ 6) :=
  have delivers : DtostrDelivers ⟨15, -1, false, .normal, 0, false⟩ :=
    ⟨rfl, by decide, by decide, by decide, by decide⟩
  ⟨delivers, sprintfFpGConversion_rounds_iff _ _ ⟨false, false, false, false, false, none,
    none⟩ _ delivers⟩

/-- 999999.95 is written with seven digits and not in exponent form. -/
theorem sprintfFpGConversion_carries :
    ¬ ∀ (env : BufferEnv) (fresh : Nat → UInt8) (spec : Formatspec) (upper : Bool)
      (decimal : DtostrDecimal),
      DtostrDelivers decimal → GeneralRounds env fresh spec upper decimal := by
  intro always
  have delivers : DtostrDelivers ⟨99999995, -2, false, .normal, 0, false⟩ :=
    ⟨rfl, by decide, by decide, by decide, by decide⟩
  have rounds := always ⟨0, fun _ _ => 0⟩ (fun _ => 0) ⟨false, false, false, false, false, none,
    none⟩ false _ delivers
  have clear := (generalRounds_inside _ _ _ _ delivers (by decide)).mp rounds
  exact clear.1 (.inr (by decide)) (by decide)

end General

end MulleCore
