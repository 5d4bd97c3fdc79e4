import MulleCore.Sprintf.SprintfIntegerText

/-!
The text that C describes for an integer conversion, and when `mulle_sprintf` writes it.
-/

namespace MulleCore

open Library

section Described

variable (conversion : IntegerConversion) (spec : Formatspec)

def integerSign (value : Int) : List UInt8 :=
  if value < 0 then [0x2D]
  else if conversion.isSigned then
    if spec.plus then [0x2B] else if spec.space then [0x20] else []
  else []

def integerPrefix (n : Nat) : List UInt8 :=
  if spec.hash ∧ conversion.isHex ∧ n ≠ 0 then [0x30, 0x78] else []

def integerNumber (n : Nat) : List UInt8 :=
  let digits := conversion.digits n
  let number := precisionZeros (spec.precision.getD 1) digits.length ++ digits
  if spec.hash ∧ conversion = .o ∧ number.head? ≠ some 0x30 then 0x30 :: number else number

def integerText (value : Int) : List UInt8 :=
  integerSign conversion spec value ++
    (integerPrefix conversion spec value.natAbs ++ integerNumber conversion spec value.natAbs)

def integerExpected (value : Int) : List UInt8 :=
  let text := integerText conversion spec value
  let missing := spec.width.getD 0 - text.length
  if spec.minus then text ++ List.replicate missing 0x20
  else if spec.zero ∧ spec.precision = none then
    integerSign conversion spec value ++ (integerPrefix conversion spec value.natAbs ++
      (List.replicate missing 0x30 ++ integerNumber conversion spec value.natAbs))
  else List.replicate missing 0x20 ++ text

/-- An octal zero of precision zero would still be one `0`. -/
def IntegerLost (n : Nat) : Prop := conversion = .o ∧ spec.hash ∧ n = 0 ∧ spec.precision = some 0

structure IntegerClear (value : Int) : Prop where
  octal : IntegerLost conversion spec value.natAbs → spec.minus = false ∧ spec.zero ∧
    spec.width = some 1
  hex : spec.minus = false → integerPrefix conversion spec value.natAbs ≠ [] →
    spec.precision.getD 1 ≤ (conversion.digits value.natAbs).length ∨
      (conversion.digits value.natAbs).length + 2 < spec.precision.getD 1
  zero : spec.minus = false → spec.zero →
    (integerText conversion spec value).length < spec.width.getD 0 →
    spec.precision = none ∧ integerPrefix conversion spec value.natAbs = []

end Described

section Written

variable (conversion : IntegerConversion) (spec : Formatspec)

def integerPrecision (n : Nat) : Nat :=
  let length := (conversion.digits n).length
  if spec.hash ∧ conversion = .o ∧ n ≠ 0 ∧ spec.precision.getD 1 ≤ length then
    length + 1 else spec.precision.getD 1

theorem sprintfPrefixed_eq (modifier : List UInt8) (character : UInt8) (n : Nat) (isZero : Bool) :
    sprintfPrefixed (spec.info modifier character) (conversion.digits n).length isZero
      conversion.converters.setPrefix =
      (integerPrecision conversion spec n, integerPrefix conversion spec n) := by
  have precision : (if spec.precision.isSome then spec.precision.getD 0 else 1) =
      spec.precision.getD 1 := by
    cases spec.precision <;> rfl
  have empty : (conversion.digits n).length = 0 ↔ n = 0 := by
    rw [List.length_eq_zero_iff, conversion.digits_eq_nil]
  rw [Formatspec.info_eq]
  dsimp only [sprintfPrefixed, Formatspec.parsed, Formatspec.found]
  rw [precision, integerPrecision, integerPrefix]
  cases hash : spec.hash
  · simp
  · cases conversion
    case o =>
        simp only [IntegerConversion.converters, octalConverters, setOctalPrefix, ne_eq, empty]
        by_cases raised : ¬ n = 0 ∧ spec.precision.getD 1 ≤ (IntegerConversion.digits .o n).length
        · simp [raised, IntegerConversion.isHex]
        · simp [raised, IntegerConversion.isHex]
    case x =>
        simp only [IntegerConversion.converters, hexConverters, setHexPrefix, ne_eq, empty]
        by_cases zero : n = 0 <;> simp [zero, IntegerConversion.isHex]
    case X =>
        simp only [IntegerConversion.converters, hexUpperConverters, setHexPrefix, ne_eq, empty]
        by_cases zero : n = 0 <;> simp [zero, IntegerConversion.isHex]
    all_goals simp [IntegerConversion.converters, decimalConverters, setDecimalPrefix,
      IntegerConversion.isHex]

theorem digits_head_octal (n : Nat) : (IntegerConversion.digits .o n).head? ≠ some 0x30 := by
  rw [IntegerConversion.digits, List.head?_map, allDigits, List.head?_reverse]
  intro zero
  obtain ⟨digit, last, zero⟩ := Option.map_eq_some_iff.mp zero
  have nonempty : Nat.digits 8 n ≠ [] := by
    rintro nothing
    rw [IntegerConversion.base, nothing] at last
    cases last
  have below : digit < 8 := Nat.digits_lt_base (by decide) (List.mem_of_getLast? last)
  have positive : digit ≠ 0 := by
    have nonzero := Nat.getLast_digit_ne_zero 8 (m := n) (by rintro rfl; simp at nonempty)
    rw [IntegerConversion.base, List.getLast?_eq_some_getLast nonempty] at last
    rwa [Option.some.inj last] at nonzero
  have all : ∀ digit < 8, digit ≠ 0 → octalDigit digit ≠ 0x30 := by decide
  exact all digit below positive zero

theorem integerNumber_eq {n : Nat} (kept : ¬ IntegerLost conversion spec n) :
    precisionZeros (integerPrecision conversion spec n) (conversion.digits n).length ++
      conversion.digits n =
      integerNumber conversion spec n := by
  rw [integerNumber, integerPrecision]
  by_cases octal : spec.hash ∧ conversion = .o
  · obtain ⟨hash, rfl⟩ := octal
    by_cases short : spec.precision.getD 1 ≤ (IntegerConversion.digits .o n).length
    · by_cases zero : n = 0
      · exfalso
        apply kept
        refine ⟨rfl, hash, zero, ?_⟩
        rw [(IntegerConversion.digits_eq_nil .o).mpr zero] at short
        cases given : spec.precision <;> rw [given] at short <;> simp_all
      · have first := digits_head_octal n
        simp [hash, zero, short, first, precisionZeros]
    · have zeros : (precisionZeros (spec.precision.getD 1) (IntegerConversion.digits .o n).length ++
          IntegerConversion.digits .o n).head? = some 0x30 := by
        obtain ⟨count, more⟩ := Nat.exists_eq_add_of_lt (Nat.not_le.mp short)
        have count : spec.precision.getD 1 - (IntegerConversion.digits .o n).length =
          count + 1 := by omega
        rw [precisionZeros, count]
        rfl
      simp [hash, short, zeros]
  · have other : ∀ {rest : Prop}, ¬ (spec.hash ∧ conversion = .o ∧ rest) :=
      fun holds => octal ⟨holds.1, holds.2.1⟩
    rw [if_neg other, if_neg other]

theorem sprintfIntegerSign_eq (modifier : IntegerModifier) (v : UInt64) :
    ∃ t, conversion.argumenttype modifier.characters = some t ∧
      sprintfArgumentsize t = modifier.bytes ∧
      ∃ sign vLL, sprintfIntegerSign (spec.info modifier.characters conversion.character)
        conversion.isSigned t v =
          (sign, vLL) ∧
        signText sign = integerSign conversion spec (integerValue conversion modifier v) ∧
        vLL.toNat = (integerValue conversion modifier v).natAbs := by
  cases signed : conversion.isSigned
  · have unsigned : ∃ t, conversion.argumenttype modifier.characters = some t ∧
      sprintfArgumentsize t = modifier.bytes ∧
        (sprintfUnsignedValue t v).toNat = v.toNat % 2 ^ (8 * modifier.bytes) := by
      have long : v.toNat = v.toNat % 2 ^ 64 := (Nat.mod_eq_of_lt v.toNat_lt).symm
      rw [IntegerConversion.argumenttype, signed]
      cases modifier
      case none => exact ⟨_, rfl, rfl, by simp [sprintfUnsignedValue, IntegerModifier.bytes]⟩
      case hh => exact ⟨_, rfl, rfl, by simp [sprintfUnsignedValue, IntegerModifier.bytes]⟩
      case h => exact ⟨_, rfl, rfl, by simp [sprintfUnsignedValue, IntegerModifier.bytes]⟩
      all_goals exact ⟨_, rfl, rfl, long⟩
    obtain ⟨t, type, size, value⟩ := unsigned
    refine ⟨t, type, size, 0, _, rfl, ?_, ?_⟩
    · have positive : ¬ ((v.toNat : Int) % 2 ^ (8 * modifier.bytes) < 0) := by
        rw [not_lt]
        exact Int.emod_nonneg _ (by positivity)
      simp [signText, integerSign, integerValue, signed, positive]
    · rw [value, integerValue, signed, if_neg (by simp)]
      exact (Int.natAbs_natCast _).symm
  · obtain ⟨t, type, size⟩ := integer_argumenttype conversion modifier
    have value : (sprintfSignedValue t v).toInt = integerValue conversion modifier v := by
      rw [sprintfSignedValue_toInt, size, integerValue, signed, if_pos rfl]
    have negative : sprintfSignedValue t v < 0 ↔ integerValue conversion modifier v < 0 := by
      rw [← value]
      exact Int64.lt_iff_toInt_lt
    obtain ⟨below, above⟩ := integer_natAbs (sprintfSignedValue t v)
    rw [value] at below above
    refine ⟨t, type, size, ?_⟩
    rw [sprintfIntegerSign, if_pos rfl, integerSign, signed]
    dsimp only
    split
    · rename_i less
      refine ⟨0x2D, _, rfl, ?_, below less⟩
      rw [if_pos (negative.mp less)]
      rfl
    · rename_i notLess
      refine ⟨_, _, rfl, ?_, above notLess⟩
      rw [if_neg (mt negative.mpr notLess), Formatspec.info_eq]
      dsimp only [Formatspec.parsed, Formatspec.found]
      by_cases plus : spec.plus = true <;> by_cases space : spec.space = true <;>
        simp [signText, plus, space]

theorem integerValue_int (modifier : IntegerModifier) (v : UInt64) (int : modifier.bytes = 4) :
    (integerValue conversion modifier v).natAbs < 2 ^ 32 := by
  rw [integerValue, int]
  split
  · have below := Int.bmod_lt (x := (v.toNat : Int)) (m := 2 ^ (8 * 4)) (by decide)
    have above := Int.le_bmod (x := (v.toNat : Int)) (m := 2 ^ (8 * 4)) (by decide)
    omega
  · omega

end Written

section Padded

variable (conversion : IntegerConversion) (spec : Formatspec)
variable {value : Int} {sign : UInt8} {rest : List UInt8} {count : Nat}

theorem integerText_lost (lost : IntegerLost conversion spec value.natAbs) :
    integerText conversion spec value = [0x30] ∧ integerPrefix conversion spec value.natAbs = [] ∧
      integerSign conversion spec value = [] ∧ integerPrecision conversion spec value.natAbs = 0 ∧
      conversion.digits value.natAbs = [] := by
  obtain ⟨rfl, hash, zero, precision⟩ := lost
  obtain rfl := Int.natAbs_eq_zero.mp zero
  have nothing : IntegerConversion.digits .o 0 = [] := rfl
  simp [integerText, integerPrefix, integerSign, integerNumber, integerPrecision,
    IntegerConversion.isSigned, IntegerConversion.isHex, hash, precision, nothing, precisionZeros]

def integerWritten (sign : UInt8) (value : Int) : List UInt8 :=
  let p := conversion.digits value.natAbs
  let q := integerPrefix conversion spec value.natAbs
  let precision := integerPrecision conversion spec value.natAbs
  if spec.minus then justifiedLeftText (spec.width.getD 0) p q precision sign
  else justifiedRightText (spec.width.getD 0) spec.zeroes p q precision sign

variable {conversion spec}

theorem integerWritten_minus (signs : signText sign = integerSign conversion spec value)
    (minus : spec.minus = true) :
    integerWritten conversion spec sign value = integerExpected conversion spec value ↔
      IntegerClear conversion spec value := by
  rw [integerWritten, integerExpected, minus, if_pos rfl, if_pos rfl, justifiedLeftText,
    justifiedBody, signs]
  constructor
  · intro same
    refine ⟨fun lost => ?_, by simp [minus], by simp [minus]⟩
    obtain ⟨text, noPrefix, noSign, noPrecision, noDigits⟩ := integerText_lost conversion spec lost
    rw [text, noPrefix, noSign, noPrecision, noDigits] at same
    simp only [precisionZeros, List.append_nil, List.nil_append, List.length_nil] at same
    have zero : (0x30 : UInt8) ∈ List.replicate (spec.width.getD 0) 0x20 := by
      simp at same; simp [same]
    exact absurd (List.eq_of_mem_replicate zero) (by decide)
  · intro clear
    have kept : ¬ IntegerLost conversion spec value.natAbs := by
      intro lost
      exact absurd minus (by simp [(clear.octal lost).1])
    rw [integerNumber_eq conversion spec kept]
    rfl

theorem padding_ne {front : List UInt8} (some : 0 < count) :
    front ++ (List.replicate count 0x30 ++ rest) ≠ List.replicate count 0x20 ++ (front ++ rest) := by
  intro same
  have counts := congrArg (List.count 0x30) same
  simp [List.count_append, List.count_replicate] at counts
  omega

theorem zeros_hex_ne (some : 0 < count) :
    List.replicate count 0x30 ++ ([0x30, 0x78] ++ rest) ≠ [0x30, 0x78] ++
      (List.replicate count 0x30 ++ rest) := by
  intro same
  obtain ⟨more, rfl⟩ := Nat.exists_eq_succ_of_ne_zero some.ne'
  cases more <;> simp [List.replicate_succ] at same

def integerZeros (conversion : IntegerConversion) (spec : Formatspec) (n : Nat) : List UInt8 :=
  if integerPrecision conversion spec n > (conversion.digits n).length +
    (integerPrefix conversion spec n).length then
    precisionZeros (integerPrecision conversion spec n) (conversion.digits n).length
  else []

theorem integerZeros_cases {n : Nat} (kept : ¬ IntegerLost conversion spec n) :
    integerZeros conversion spec n ++ conversion.digits n = integerNumber conversion spec n ∧
        (integerPrefix conversion spec n ≠ [] → spec.precision.getD 1 ≤ (conversion.digits n).length ∨
          (conversion.digits n).length + 2 < spec.precision.getD 1) ∨
      (integerZeros conversion spec n ++ conversion.digits n).length <
        (integerNumber conversion spec n).length ∧
        integerPrefix conversion spec n ≠ [] ∧ (conversion.digits n).length < spec.precision.getD 1 ∧
          spec.precision.getD 1 ≤ (conversion.digits n).length + 2 := by
  rw [← integerNumber_eq conversion spec kept, integerZeros]
  by_cases hex : spec.hash ∧ conversion.isHex ∧ n ≠ 0
  · have precision : integerPrecision conversion spec n = spec.precision.getD 1 := by
      rw [integerPrecision]
      apply if_neg
      rintro ⟨-, rfl, -⟩
      simp [IntegerConversion.isHex] at hex
    rw [precision, integerPrefix, if_pos hex]
    by_cases dropped : (conversion.digits n).length < spec.precision.getD 1 ∧
        spec.precision.getD 1 ≤ (conversion.digits n).length + 2
    · right
      refine ⟨?_, by simp, dropped⟩
      rw [if_neg (by simpa using dropped.2), precisionZeros]
      simp only [List.nil_append, List.length_append, List.length_replicate]
      omega
    · left
      refine ⟨?_, fun _ => by omega⟩
      by_cases short : spec.precision.getD 1 ≤ (conversion.digits n).length
      · rw [if_neg (by simp; omega), precisionZeros, Nat.sub_eq_zero_of_le short]
        rfl
      · rw [if_pos (by simp; omega)]
  · left
    rw [integerPrefix, if_neg hex]
    refine ⟨?_, fun nonempty => absurd rfl nonempty⟩
    split
    · rfl
    · rename_i short
      rw [precisionZeros, Nat.sub_eq_zero_of_le (by simpa using short)]
      rfl

theorem integerWritten_zero {sign q number text : List UInt8} (texts : text = sign ++ (q ++ number))
    (missing : Nat) (precision : Option Nat) (hex : q = [] ∨ q = [0x30, 0x78]) :
    sign ++ (List.replicate missing 0x30 ++ (q ++ number)) =
        (if precision = none then sign ++ (q ++ (List.replicate missing 0x30 ++ number))
        else List.replicate missing 0x20 ++ text) ↔
      (0 < missing → precision = none ∧ q = []) := by
  rcases Nat.eq_zero_or_pos missing with rfl | some
  · simp [texts]
  · cases precision with
    | none =>
      rcases hex with rfl | rfl
      · simp
      · simpa [some] using zeros_hex_ne some
    | some precision => simpa [some, texts] using padding_ne some

section

variable (signs : signText sign = integerSign conversion spec value)
include signs

theorem integerWritten_right
    (minus : spec.minus = false) (kept : ¬ IntegerLost conversion spec value.natAbs) :
    integerWritten conversion spec sign value = integerExpected conversion spec value ↔
      IntegerClear conversion spec value := by
  have body : justifiedBody (conversion.digits value.natAbs)
    (integerPrefix conversion spec value.natAbs)
      (integerPrecision conversion spec value.natAbs) sign = integerText conversion spec value := by
    rw [justifiedBody, signs, integerNumber_eq conversion spec kept]
    rfl
  have zeroes : spec.zeroes = spec.zero := by simp [Formatspec.zeroes, minus]
  have hex : integerPrefix conversion spec value.natAbs = [] ∨
      integerPrefix conversion spec value.natAbs = [0x30, 0x78] := by
    rw [integerPrefix]
    split <;> simp
  rw [integerWritten, integerExpected, minus, justifiedRightText, body, signs, zeroes]
  change (if spec.zero then [] else _) ++
    (_ ++ (_ ++ (_ ++ (integerZeros conversion spec value.natAbs ++ _)))) = _ ↔ _
  rcases integerZeros_cases kept with ⟨number, clear⟩ | ⟨shorter, hex, dropped⟩
  · rw [number]
    have clears : IntegerClear conversion spec value ↔ (spec.zero = true →
        (integerText conversion spec value).length < spec.width.getD 0 →
          spec.precision = none ∧ integerPrefix conversion spec value.natAbs = []) :=
      ⟨fun clear zero short => clear.zero minus zero short,
        fun padded => ⟨fun lost => absurd lost kept, fun _ => clear, fun _ => padded⟩⟩
    rw [clears]
    cases zero : spec.zero
    · simp [integerText]
    · have padded := integerWritten_zero (rfl : integerText conversion spec value = _)
        (spec.width.getD 0 - (integerText conversion spec value).length) spec.precision hex
      simpa [Nat.sub_pos_iff_lt] using padded
  · constructor
    · intro same
      have lengths := congrArg List.length same
      cases zero : spec.zero <;> cases precision : spec.precision <;>
        simp [zero, precision, integerText] at lengths shorter <;> omega
    · intro clear
      have := clear.hex minus hex
      omega

theorem integerWritten_lost
    (minus : spec.minus = false) (lost : IntegerLost conversion spec value.natAbs) :
    integerWritten conversion spec sign value = integerExpected conversion spec value ↔
      IntegerClear conversion spec value := by
  have precision := lost.2.2.2
  obtain ⟨text, noPrefix, noSign, noPrecision, noDigits⟩ := integerText_lost conversion spec lost
  have zeroes : spec.zeroes = spec.zero := by simp [Formatspec.zeroes, minus]
  rw [integerWritten, integerExpected, minus, justifiedRightText, justifiedBody, signs, text,
    noPrefix, noSign, noPrecision, noDigits, zeroes, precision]
  have written : spec.width = some 1 ↔ spec.width.getD 0 = 1 := by cases spec.width <;> simp
  constructor
  · intro same
    have only : spec.zero = true ∧ spec.width.getD 0 = 1 := by
      cases zero : spec.zero
      · have digit : (0x30 : UInt8) ∈ List.replicate (spec.width.getD 0) 0x20 := by
          simp [zero, precisionZeros] at same
          simp [same]
        exact absurd (List.eq_of_mem_replicate digit) (by decide)
      · simp [zero, precisionZeros] at same
        have given : spec.width.getD 0 ≠ 0 := by
          intro none
          simp [none] at same
        have blank : (0x20 : UInt8) ∉ List.replicate (spec.width.getD 0) 0x30 := fun member =>
          absurd (List.eq_of_mem_replicate member) (by decide)
        have single : spec.width.getD 0 - 1 = 0 := by
          by_contra more
          apply blank
          rw [same]
          simp [more]
        exact ⟨rfl, by omega⟩
    refine ⟨fun _ => ⟨minus, only.1, written.mpr only.2⟩, fun _ given => absurd noPrefix given, ?_⟩
    intro _ _ short
    rw [text, only.2] at short
    exact absurd short (by decide)
  · intro clear
    obtain ⟨-, zero, width⟩ := clear.octal lost
    simp [zero, width, precisionZeros]

theorem integerWritten_iff :
    integerWritten conversion spec sign value = integerExpected conversion spec value ↔
      IntegerClear conversion spec value := by
  cases minus : spec.minus
  · by_cases lost : IntegerLost conversion spec value.natAbs
    · exact integerWritten_lost signs minus lost
    · exact integerWritten_right signs minus lost
  · exact integerWritten_minus signs minus

end

end Padded

section Converted

variable (env : BufferEnv) (fresh : Nat → UInt8) (conversion : IntegerConversion) (spec : Formatspec)
variable {value : Int}

theorem toUInt32_toNat {value : UInt64} (small : value.toNat < 2 ^ 32) :
    value.toUInt32.toNat = value.toNat := by
  rw [UInt64.toNat_toUInt32]
  exact Nat.mod_eq_of_lt small

theorem sprintfIntegerDigits_eq (info : Formatconversioninfo) (s : Nat) (vLL : UInt64)
    (int : s = 4 → vLL.toNat < 2 ^ 32) :
    sprintfIntegerDigits info conversion.converters s vLL = some (conversion.digits vLL.toNat) := by
  have enough : 22 ≤ sprintfIntegerCapacity := by decide
  rw [sprintfIntegerDigits]
  by_cases four : s = 4
  · obtain ⟨plain, locale⟩ := conversion.convertUnsignedInt_eq vLL.toUInt32 enough
    rw [if_pos four, if_pos four, plain, locale, toUInt32_toNat (int four), ite_self]
  · obtain ⟨plain, locale⟩ := conversion.convertUnsignedLongLong_eq vLL enough
    rw [if_neg four, if_neg four, plain, locale, ite_self]

theorem appends_integerText (modifier : List UInt8) (s : Nat) (sign : UInt8) (vLL : UInt64)
    (int : s = 4 → vLL.toNat < 2 ^ 32) (natAbs : vLL.toNat = value.natAbs) :
    Appends (sprintfIntegerText env fresh (spec.info modifier conversion.character)
      conversion.converters s sign vLL) (integerWritten conversion spec sign value) := by
  have clean : (spec.info modifier conversion.character).leftJustify = true →
      (spec.info modifier conversion.character).zeroFound = false := by
    rw [Formatspec.info_eq]
    intro minus
    simp_all [Formatspec.zeroes]
  have justified := appends_justified env fresh (spec.info modifier conversion.character) clean
    (conversion.digits vLL.toNat) (integerPrefix conversion spec vLL.toNat)
      (integerPrecision conversion spec vLL.toNat) sign
  have fields : (spec.info modifier conversion.character).leftJustify = spec.minus ∧
      (spec.info modifier conversion.character).width = spec.width.getD 0 ∧
      (spec.info modifier conversion.character).zeroFound = spec.zeroes := by
    rw [Formatspec.info_eq]
    exact ⟨rfl, rfl, rfl⟩
  rw [fields.1, fields.2.1, fields.2.2] at justified
  intro all buffer holds
  rw [integerWritten, ← natAbs]
  obtain ⟨next, done, nextHolds⟩ := justified all buffer holds
  refine ⟨next, ?_, nextHolds⟩
  rw [sprintfIntegerText, sprintfIntegerDigits_eq _ _ _ _ int]
  simp only [Option.bind_eq_bind, Option.bind_some, sprintfJustifiedAndPrefixed, sprintfPrefixed_eq,
    done]

theorem sprintfIntegerPure_eq (s : Nat) (sign : UInt8) (vLL : UInt64)
    (int : s = 4 → vLL.toNat < 2 ^ 32) :
    sprintfIntegerPure conversion.converters s sign vLL =
      some (signText sign ++ (precisionZeros 1 (conversion.digits vLL.toNat).length ++
        conversion.digits vLL.toNat)) := by
  have short : (signText sign).length ≤ 1 := by
    rw [signText_length]
    split_ifs <;> omega
  rw [sprintfIntegerPure]
  dsimp only
  rw [signText_eq]
  by_cases zero : vLL = 0
  · subst zero
    have none : conversion.digits (0 : UInt64).toNat = [] := conversion.digits_eq_nil.mpr rfl
    rw [if_pos rfl, none]
    rfl
  · have nonzero : vLL.toNat ≠ 0 := fun none => zero (UInt64.toNat_inj.mp none)
    have more : 1 ≤ (conversion.digits vLL.toNat).length := by
      rw [Nat.one_le_iff_ne_zero, Ne, List.length_eq_zero_iff, conversion.digits_eq_nil]
      exact nonzero
    have enough : 22 ≤ sprintfIntegerCapacity - (signText sign).length := by
      rw [sprintfIntegerCapacity]
      omega
    rw [if_neg zero, precisionZeros, Nat.sub_eq_zero_of_le more]
    by_cases four : s = 4
    · rw [if_pos four, (conversion.convertUnsignedInt_eq vLL.toUInt32 enough).1,
        toUInt32_toNat (int four)]
      rfl
    · rw [if_neg four, (conversion.convertUnsignedLongLong_eq vLL enough).1]
      rfl

theorem digits_length (value : UInt64) : (conversion.digits value.toNat).length ≤ 22 := by
  have bound := value.toNat_lt
  have enough : value.toNat < conversion.base ^ 22 :=
    Nat.lt_of_lt_of_le bound (by cases conversion <;> decide)
  rw [IntegerConversion.digits, List.length_map, allDigits, List.length_reverse]
  exact (Nat.digits_length_le_iff (by cases conversion <;> decide) _).mpr enough

theorem appends_integerNumber (modifier : List UInt8) (s : Nat) (sign : UInt8) (vLL : UInt64)
    (int : s = 4 → vLL.toNat < 2 ^ 32) (natAbs : vLL.toNat = value.natAbs) :
    Appends (sprintfIntegerNumber env fresh (spec.info modifier conversion.character)
      conversion.converters s sign vLL) (integerWritten conversion spec sign value) := by
  intro all buffer holds
  rw [sprintfIntegerNumber]
  split
  · rename_i pure
    rw [Bool.and_eq_true] at pure
    obtain ⟨minus, plus, space, zero, hash, width, precision, -⟩ :=
      spec.info_pure modifier conversion.character |>.mp pure.1
    have fast := sprintfIntegerPure_eq conversion s sign vLL int
    have written : integerWritten conversion spec sign value = signText sign ++
        (precisionZeros 1 (conversion.digits vLL.toNat).length ++ conversion.digits vLL.toNat) := by
      rw [integerWritten, ← natAbs]
      simp only [integerPrecision, integerPrefix, Formatspec.zeroes, minus, hash, zero,
        width, precision]
      simp [justifiedRightText]
      intro some
      rw [precisionZeros, Nat.sub_eq_zero_of_le (List.length_pos_iff.mpr some)]
      rfl
    have short : (integerWritten conversion spec sign value).length ≤ sprintfIntegerCapacity := by
      have digits := digits_length conversion vLL
      rw [written, List.length_append, List.length_append, signText_length, precisionZeros,
        List.length_replicate, sprintfIntegerCapacity]
      split_ifs <;> omega
    obtain ⟨between, room, filled, next, reserved, guaranteed, fills, advanced, nextHolds⟩ :=
      holds.fillGuaranteed env fresh sprintfIntegerCapacity (by decide) _ short
    have flexible : ¬ bufferIsInflexible buffer := by simp [bufferIsInflexible, holds.flexible]
    refine ⟨next, ?_, nextHolds⟩
    rw [sprintfIntegerSpace, if_pos (Or.inl flexible), guaranteed]
    rw [written] at fills advanced
    simp only [Option.bind_eq_bind, Option.bind_some, fast, fills, advanced]
  · exact appends_integerText env fresh conversion spec modifier s sign vLL int natAbs
      all buffer holds

def sprintfConvertIntegerGenerally (info : Formatconversioninfo) (v : UInt64) (buffer : MulleBuffer) :
    Option MulleBuffer := do
  let (argumenttype, converters, isSigned) ← sprintfIntegerFunctions info.conversion
  let t ← argumenttype info.modifier
  let (sign, vLL) := sprintfIntegerSign info isSigned t v
  sprintfIntegerText env fresh info converters (sprintfArgumentsize t) sign vLL buffer

theorem appends_sprintfConvertInteger (modifier : IntegerModifier) (v : UInt64) :
    ∃ sign, signText sign = integerSign conversion spec (integerValue conversion modifier v) ∧
      Appends (sprintfConvertInteger env fresh (spec.info modifier.characters conversion.character) v)
        (integerWritten conversion spec sign (integerValue conversion modifier v)) ∧
      Appends (sprintfConvertIntegerGenerally env fresh
        (spec.info modifier.characters conversion.character) v) (integerWritten conversion spec sign
    (integerValue conversion modifier v)) := by
  obtain ⟨t, type, size, sign, vLL, signed, signs, natAbs⟩ :=
    sprintfIntegerSign_eq conversion spec modifier v
  have int : modifier.bytes = 4 → vLL.toNat < 2 ^ 32 := by
    rw [natAbs]
    exact integerValue_int conversion modifier v
  have fields : (spec.info modifier.characters conversion.character).conversion =
    conversion.character ∧
      (spec.info modifier.characters conversion.character).modifier = modifier.characters ∧
      (spec.info modifier.characters conversion.character).boolFound = false := by
    rw [Formatspec.info_eq]
    exact ⟨rfl, rfl, rfl⟩
  obtain ⟨character, characters, notBool⟩ := fields
  refine ⟨sign, signs, fun all buffer holds => ?_, fun all buffer holds => ?_⟩
  · rw [sprintfConvertInteger, character, characters, conversion.functions]
    simp only [Option.bind_eq_bind, Option.bind_some, type, integerConversion, signed, notBool, size]
    exact appends_integerNumber env fresh conversion spec modifier.characters _ sign vLL int natAbs
      all buffer holds
  · rw [sprintfConvertIntegerGenerally, character, characters, conversion.functions]
    simp only [Option.bind_eq_bind, Option.bind_some, type, signed, size]
    exact appends_integerText env fresh conversion spec modifier.characters _ sign vLL int natAbs
      all buffer holds

/-- An integer conversion appends what C describes exactly if it comes out, and the same without the
fast path. -/
theorem sprintfConvertInteger_described_iff (modifier : IntegerModifier) (v : UInt64) :
    (Appends (sprintfConvertInteger env fresh (spec.info modifier.characters conversion.character) v)
        (integerExpected conversion spec (integerValue conversion modifier v)) ↔
      IntegerClear conversion spec (integerValue conversion modifier v)) ∧
    ∀ text, Appends (sprintfConvertInteger env fresh
      (spec.info modifier.characters conversion.character) v) text ↔
      Appends (sprintfConvertIntegerGenerally env fresh
        (spec.info modifier.characters conversion.character) v) text := by
  obtain ⟨sign, signs, written, generally⟩ :=
    appends_sprintfConvertInteger env fresh conversion spec modifier v
  constructor
  · rw [← integerWritten_iff signs]
    constructor
    · intro described
      exact written.unique described
    · intro same
      exact written.congr same
  · intro text
    constructor
    · intro appends
      exact generally.congr (written.unique appends)
    · intro appends
      exact written.congr (generally.unique appends)

/-- `%#06x` of 255 puts the zeros in front of the prefix. -/
theorem sprintfConvertInteger_misplaces :
    ¬ ∀ (env : BufferEnv) (fresh : Nat → UInt8) (conversion : IntegerConversion) (spec : Formatspec)
      (modifier : IntegerModifier) (v : UInt64),
      Appends (sprintfConvertInteger env fresh (spec.info modifier.characters conversion.character) v)
        (integerExpected conversion spec (integerValue conversion modifier v)) := by
  intro always
  let spec : Formatspec := ⟨false, false, false, true, true, some 6, none⟩
  obtain ⟨sign, signs, written, -⟩ :=
    appends_sprintfConvertInteger ⟨0, fun _ _ => 0⟩ (fun _ => 0) .x spec .none 255
  have same := written.unique (always _ _ _ _ _ _)
  have clear := (integerWritten_iff signs).mp same
  have noPrefix := (clear.zero rfl rfl (by decide)).2
  exact absurd noPrefix (by decide)

end Converted

end MulleCore
