import MulleCore.Sprintf.DecimalText
import MulleCore.Sprintf.SprintfInteger

/-!
What the integer conversions append.
-/

namespace MulleCore

open Library

section Digits

theorem convertBitsFrom_eq {mask shift : Nat} (masks : mask = 2 ^ shift - 1) (positive : 0 < shift)
    (digit : Nat → UInt8) (capacity : Nat) {value : Nat} (enough : value < (2 ^ shift) ^ capacity)
    (s : List UInt8) :
    convertBitsFrom mask shift digit capacity value s =
      some ((allDigits (2 ^ shift) value).map digit ++ s) := by
  have large : 1 < 2 ^ shift := Nat.one_lt_two_pow (by omega)
  induction capacity generalizing value s with
  | zero =>
    obtain rfl : value = 0 := by simpa using enough
    simp [convertBitsFrom]
  | succ capacity ih =>
    rw [convertBitsFrom]
    split
    · rename_i zero
      simp [zero]
    · rename_i nonzero
      have below : value / 2 ^ shift < (2 ^ shift) ^ capacity :=
        Nat.div_lt_of_lt_mul (by rwa [← Nat.pow_succ'])
      rw [Nat.shiftRight_eq_div_pow, ih below, masks, Nat.and_two_pow_sub_one_eq_mod,
        allDigits_step large nonzero, List.map_append, List.append_assoc]
      rfl

inductive IntegerConversion where
  | d
  | i
  | u
  | o
  | x
  | X
deriving DecidableEq

namespace IntegerConversion

variable {capacity : Nat}

def character : IntegerConversion → UInt8
  | .d => 0x64
  | .i => 0x69
  | .u => 0x75
  | .o => 0x6F
  | .x => 0x78
  | .X => 0x58

def isSigned : IntegerConversion → Bool
  | .d => true
  | .i => true
  | _ => false

def isHex : IntegerConversion → Bool
  | .x => true
  | .X => true
  | _ => false

def base : IntegerConversion → Nat
  | .o => 8
  | .x => 16
  | .X => 16
  | _ => 10

def digit : IntegerConversion → Nat → UInt8
  | .o => octalDigit
  | .x => hexDigit 0x61
  | .X => hexDigit 0x41
  | _ => decimalDigit

def converters : IntegerConversion → IntegerConverters
  | .o => octalConverters
  | .x => hexConverters
  | .X => hexUpperConverters
  | _ => decimalConverters

def argumenttype (conversion : IntegerConversion) : List UInt8 → Option SprintfArgumenttype :=
  if conversion.isSigned then sprintfGetSignedIntArgumenttype else sprintfGetUnsignedIntArgumenttype

def digits (conversion : IntegerConversion) (n : Nat) : List UInt8 :=
  (allDigits conversion.base n).map conversion.digit

section

variable (conversion : IntegerConversion)
include conversion

theorem functions : sprintfIntegerFunctions conversion.character =
    some (conversion.argumenttype, conversion.converters, conversion.isSigned) := by
  cases conversion <;> rfl

theorem digits_eq_nil {n : Nat} : conversion.digits n = [] ↔ n = 0 := by
  have large : 1 < conversion.base := by cases conversion <;> decide
  rw [digits, List.map_eq_nil_iff]
  constructor
  · intro nothing
    by_contra nonzero
    rw [allDigits_step large nonzero] at nothing
    simp at nothing
  · rintro rfl
    exact allDigits_zero

theorem convertUnsignedInt_eq (value : UInt32) (enough : 22 ≤ capacity) :
    conversion.converters.convertUnsignedInt value capacity = some (conversion.digits value.toNat) ∧
      conversion.converters.convertLocaleUnsignedInt value capacity =
        some (conversion.digits value.toNat) := by
  have bound := value.toNat_lt
  have decimal : convertDecimalUnsignedInt value capacity = some (decimalText value.toNat) := by
    rw [convertDecimalUnsignedInt, jeaiiiConvertUnsignedInt_eq]
    rfl
  have octal : value.toNat < (2 ^ 3) ^ capacity :=
    Nat.lt_of_lt_of_le (by omega) (Nat.pow_le_pow_right (n := 2 ^ 3) (by decide) enough)
  have hex : value.toNat < (2 ^ 4) ^ capacity :=
    Nat.lt_of_lt_of_le (by omega) (Nat.pow_le_pow_right (n := 2 ^ 4) (by decide) enough)
  have bits := fun digit => convertBitsFrom_eq (rfl : 0xF = 2 ^ 4 - 1) (by decide) digit
    capacity hex []
  have octalBits := convertBitsFrom_eq (rfl : 0x7 = 2 ^ 3 - 1) (by decide) octalDigit capacity octal
    []
  simp only [List.append_nil] at bits octalBits
  cases conversion
  case o => exact ⟨octalBits, octalBits⟩
  case x => exact ⟨bits _, bits _⟩
  case X => exact ⟨bits _, bits _⟩
  all_goals exact ⟨decimal, decimal⟩

theorem convertUnsignedLongLong_eq (value : UInt64) (enough : 22 ≤ capacity) :
    conversion.converters.convertUnsignedLongLong value capacity =
      some (conversion.digits value.toNat) ∧
      conversion.converters.convertLocaleUnsignedLongLong value capacity =
        some (conversion.digits value.toNat) := by
  have bound := value.toNat_lt
  have decimal : convertDecimalUnsignedLongLong value capacity = some (decimalText value.toNat) := by
    rw [convertDecimalUnsignedLongLong, jeaiiiConvertUnsignedLongLong_eq]
    rfl
  have octal : value.toNat < (2 ^ 3) ^ capacity :=
    Nat.lt_of_lt_of_le (by omega) (Nat.pow_le_pow_right (n := 2 ^ 3) (by decide) enough)
  have hex : value.toNat < (2 ^ 4) ^ capacity :=
    Nat.lt_of_lt_of_le (by omega) (Nat.pow_le_pow_right (n := 2 ^ 4) (by decide) enough)
  have bits := fun digit => convertBitsFrom_eq (rfl : 0xF = 2 ^ 4 - 1) (by decide) digit
    capacity hex []
  have octalBits := convertBitsFrom_eq (rfl : 0x7 = 2 ^ 3 - 1) (by decide) octalDigit capacity octal
    []
  simp only [List.append_nil] at bits octalBits
  cases conversion
  case o => exact ⟨octalBits, octalBits⟩
  case x => exact ⟨bits _, bits _⟩
  case X => exact ⟨bits _, bits _⟩
  all_goals exact ⟨decimal, decimal⟩

end

end IntegerConversion

end Digits

section Justified

variable (env : BufferEnv) (fresh : Nat → UInt8)

def signText (sign : UInt8) : List UInt8 := if sign = 0 then [] else [sign]

def precisionZeros (precision length : Nat) : List UInt8 := List.replicate (precision - length) 0x30

def justifiedBody (p q : List UInt8) (precision : Nat) (sign : UInt8) : List UInt8 :=
  signText sign ++ (q ++ (precisionZeros precision p.length ++ p))

def justifiedLeftText (width : Nat) (p q : List UInt8) (precision : Nat) (sign : UInt8) :
    List UInt8 :=
  justifiedBody p q precision sign ++
    List.replicate (width - (justifiedBody p q precision sign).length) 0x20

def justifiedRightText (width : Nat) (zeroes : Bool) (p q : List UInt8) (precision : Nat)
    (sign : UInt8) : List UInt8 :=
  let missing := width - (justifiedBody p q precision sign).length
  (if zeroes then [] else List.replicate missing 0x20) ++ (signText sign ++
    ((if zeroes then List.replicate missing 0x30 else []) ++ (q ++
      ((if precision > p.length + q.length then precisionZeros precision p.length else []) ++ p))))

theorem signText_eq (sign : UInt8) : (if sign ≠ 0 then [sign] else []) = signText sign := by
  by_cases none : sign = 0 <;> simp [signText, none]

theorem signText_length (sign : UInt8) : (signText sign).length = if sign ≠ 0 then 1 else 0 := by
  by_cases none : sign = 0 <;> simp [signText, none]

theorem nonempty_eq (q : List UInt8) : (if q.length ≠ 0 then q else []) = q := by
  cases q <;> simp

theorem replicate_missing (width total : Nat) (c : UInt8) :
    (if total < width then List.replicate (width - total) c else []) = List.replicate
    (width - total) c := by
  by_cases more : total < width
  · rw [if_pos more]
  · simp [more, Nat.sub_eq_zero_of_le (Nat.not_lt.mp more)]

theorem appends_justifiedLeft (info : Formatconversioninfo) (p q : List UInt8) (precision : Nat)
    (sign : UInt8) :
    Appends (sprintfJustifiedLeft env fresh info p q precision sign 0x20)
      (justifiedLeftText info.width p q precision sign) := by
  have front : Appends _ (justifiedBody p q precision sign) :=
    (((appends_addByte env fresh sign).whenever (sign ≠ 0)).andThen
    (((appends_addBytes env fresh q).whenever (q.length ≠ 0)).andThen
    (((appends_memset env fresh 0x30 (precision - p.length)).whenever (precision > p.length)).andThen
      (appends_addBytes env fresh p)))).congr (by
        simp only [decide_eq_true_eq, signText_eq, nonempty_eq, gt_iff_lt, replicate_missing]
        rfl)
  intro all buffer holds
  obtain ⟨between, added, betweenHolds⟩ := front all buffer holds
  have used : wordSub (bufferGetLength between) (bufferGetLength buffer) =
      (justifiedBody p q precision sign).length := by
    rw [betweenHolds.length_eq, holds.length_eq, List.length_append, wordSub_eq (by omega),
      Nat.add_sub_cancel_left]
  obtain ⟨next, filled, nextHolds⟩ := ((appends_memset env fresh 0x20
    (info.width - (justifiedBody p q precision sign).length)).whenever
      (info.width > (justifiedBody p q precision sign).length)) _ between betweenHolds
  simp only [decide_eq_true_eq, gt_iff_lt, replicate_missing, List.append_assoc] at nextHolds
  refine ⟨next, ?_, ?_⟩
  · obtain ⟨signed, sign_, more⟩ := Option.bind_eq_some_iff.mp added
    obtain ⟨prefixed, prefix_, more⟩ := Option.bind_eq_some_iff.mp more
    obtain ⟨zeroed, zeros, digits⟩ := Option.bind_eq_some_iff.mp more
    simp only [sprintfJustifiedLeft, Option.bind_eq_bind, sign_, prefix_, zeros, digits,
      Option.bind_some, used]
    exact filled
  · exact nextHolds

theorem appends_justifiedRight (info : Formatconversioninfo) (p q : List UInt8) (precision : Nat)
    (sign : UInt8) :
    Appends (sprintfJustifiedRight env fresh info p q precision sign (if info.zeroFound then 0x30
      else 0x20)) (justifiedRightText info.width info.zeroFound p q precision sign) := by
  have total : p.length + q.length + (if sign ≠ 0 then 1 else 0) +
      (if precision > p.length then precision - p.length else 0) =
        (justifiedBody p q precision sign).length := by
    have zeros : (if precision > p.length then precision - p.length else 0) = precision -
        p.length := by
      split_ifs <;> omega
    simp only [justifiedBody, List.length_append, signText_length, precisionZeros,
      List.length_replicate, zeros]
    omega
  have chain := fun total widthChar =>
    ((appends_memset env fresh widthChar (info.width - total)).whenever
      (info.width > total && widthChar ≠ 0x30)).andThen
    (((appends_addByte env fresh sign).whenever (sign ≠ 0)).andThen
    (((appends_memset env fresh widthChar (info.width - total)).whenever
      (info.width > total && widthChar = 0x30)).andThen
    (((appends_addBytes env fresh q).whenever (q.length ≠ 0)).andThen
    (((appends_memset env fresh 0x30 (precision - p.length)).whenever
      (precision > p.length + q.length)).andThen (appends_addBytes env fresh p)))))
  intro all buffer holds
  obtain ⟨next, done, nextHolds⟩ := chain (justifiedBody p q precision sign).length
    (if info.zeroFound then 0x30 else 0x20) all buffer holds
  refine ⟨next, ?_, ?_⟩
  · simp only [sprintfJustifiedRight, total]
    exact done
  · simp only [decide_eq_true_eq, signText_eq, nonempty_eq] at nextHolds
    cases zeroes : info.zeroFound <;>
      simpa [justifiedRightText, zeroes, replicate_missing, precisionZeros] using nextHolds

theorem appends_justified (info : Formatconversioninfo)
    (clean : info.leftJustify = true → info.zeroFound = false) (p q : List UInt8) (precision : Nat)
    (sign : UInt8) :
    Appends (sprintfJustified env fresh info p q precision sign)
      (if info.leftJustify then justifiedLeftText info.width p q precision sign
      else justifiedRightText info.width info.zeroFound p q precision sign) := by
  intro all buffer holds
  rw [sprintfJustified]
  split
  · rename_i plain
    obtain ⟨noPrefix, noSign, noWidth, noPrecision⟩ := plain
    rw [List.length_eq_zero_iff] at noPrefix
    subst noPrefix noSign
    have left : justifiedLeftText 0 p [] precision 0 = p := by
      simp [justifiedLeftText, justifiedBody, signText, precisionZeros,
        Nat.sub_eq_zero_of_le noPrecision]
    have right : justifiedRightText 0 info.zeroFound p [] precision 0 = p := by
      simp [justifiedRightText, signText, Nat.not_lt.mpr noPrecision]
    rw [noWidth, left, right, ite_self]
    exact appends_addBytes env fresh p all buffer holds
  · dsimp only
    split
    · rename_i left
      rw [clean left]
      exact appends_justifiedLeft env fresh info p q precision sign all buffer holds
    · exact appends_justifiedRight env fresh info p q precision sign all buffer holds

end Justified

section Values

inductive IntegerModifier where
  | none
  | hh
  | h
  | l
  | ll
  | j
  | q
  | t
  | z
deriving DecidableEq

namespace IntegerModifier

def characters : IntegerModifier → List UInt8
  | .none => []
  | .hh => [0x68, 0x68]
  | .h => [0x68]
  | .l => [0x6C]
  | .ll => [0x6C, 0x6C]
  | .j => [0x6A]
  | .q => [0x71]
  | .t => [0x74]
  | .z => [0x7A]

def bytes : IntegerModifier → Nat
  | .none => 4
  | .hh => 1
  | .h => 2
  | _ => 8

end IntegerModifier

def integerValue (conversion : IntegerConversion) (modifier : IntegerModifier) (v : UInt64) : Int :=
  if conversion.isSigned then (v.toNat : Int).bmod (2 ^ (8 * modifier.bytes))
  else v.toNat % 2 ^ (8 * modifier.bytes)

theorem integer_argumenttype (conversion : IntegerConversion) (modifier : IntegerModifier) :
    ∃ t, conversion.argumenttype modifier.characters = some t ∧
      sprintfArgumentsize t = modifier.bytes := by
  cases conversion <;> cases modifier <;> exact ⟨_, rfl, rfl⟩

theorem sprintfSignedValue_toInt (t : SprintfArgumenttype) (v : UInt64) :
    (sprintfSignedValue t v).toInt = (v.toNat : Int).bmod (2 ^ (8 * sprintfArgumentsize t)) := by
  have long : v.toInt64.toInt = (v.toNat : Int).bmod (2 ^ 64) := BitVec.toInt_eq_toNat_bmod _
  have int : v.toUInt32.toInt32.toInt64.toInt = (v.toNat : Int).bmod (2 ^ 32) := by
    have value : v.toUInt32.toInt32.toInt = (v.toUInt32.toNat : Int).bmod (2 ^ 32) :=
      BitVec.toInt_eq_toNat_bmod _
    rw [Int32.toInt_toInt64, value, UInt64.toNat_toUInt32]
    rw [Int.natCast_emod]
    exact Int.emod_bmod _ _
  have short : v.toUInt16.toInt16.toInt64.toInt = (v.toNat : Int).bmod (2 ^ 16) := by
    have value : v.toUInt16.toInt16.toInt = (v.toUInt16.toNat : Int).bmod (2 ^ 16) :=
      BitVec.toInt_eq_toNat_bmod _
    rw [Int16.toInt_toInt64, value, UInt64.toNat_toUInt16]
    rw [Int.natCast_emod]
    exact Int.emod_bmod _ _
  have char : v.toUInt8.toInt8.toInt64.toInt = (v.toNat : Int).bmod (2 ^ 8) := by
    have value : v.toUInt8.toInt8.toInt = (v.toUInt8.toNat : Int).bmod (2 ^ 8) :=
      BitVec.toInt_eq_toNat_bmod _
    rw [Int8.toInt_toInt64, value, UInt64.toNat_toUInt8]
    rw [Int.natCast_emod]
    exact Int.emod_bmod _ _
  cases t
  case int => exact int
  case unsignedInt => exact int
  case short => exact short
  case unsignedShort => exact short
  case char => exact char
  case unsignedChar => exact char
  all_goals exact long

theorem integer_natAbs (vll : Int64) :
    (vll < 0 → (0 - vll.toUInt64).toNat = vll.toInt.natAbs) ∧
    (¬ vll < 0 → vll.toUInt64.toNat = vll.toInt.natAbs) := by
  have value : vll.toInt = (vll.toUInt64.toNat : Int).bmod (2 ^ 64) := BitVec.toInt_eq_toNat_bmod _
  have bound := vll.toUInt64.toNat_lt
  have negative : vll < 0 ↔ vll.toInt < 0 := Int64.lt_iff_toInt_lt
  rw [Int.bmod_def] at value
  constructor
  · intro isNegative
    have less := negative.mp isNegative
    have wrapped : (0 - vll.toUInt64).toNat = (2 ^ 64 - vll.toUInt64.toNat) % 2 ^ 64 := by
      rw [UInt64.toNat_sub]
      rfl
    rw [wrapped]
    omega
  · intro notNegative
    rw [negative] at notNegative
    omega

end Values

end MulleCore
