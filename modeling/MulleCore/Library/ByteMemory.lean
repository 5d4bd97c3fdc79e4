import Mathlib.Data.List.GetD
import Mathlib.Data.Nat.Bitwise

/-!
Byte-addressed memory, words of bytes, and addresses that are multiples of a unit.
-/

namespace Library

abbrev ByteMemory := Nat → UInt8

def readBytes (memory : ByteMemory) (address count : Nat) : List UInt8 :=
  (List.range count).map fun offset => memory (address + offset)

def writeBytes (memory : ByteMemory) (address : Nat) (bytes : List UInt8) : ByteMemory :=
  fun place => if address ≤ place then bytes.getD (place - address) (memory place) else memory place

def toBytes : Nat → Nat → List UInt8
  | 0, _ => []
  | width + 1, word => UInt8.ofNat word :: toBytes width (word / 256)

def ofBytes : List UInt8 → Nat
  | [] => 0
  | byte :: bytes => byte.toNat + 256 * ofBytes bytes

def Clear (left count right other : Nat) : Prop := left + count ≤ right ∨ right + other ≤ left

instance (left count right other : Nat) : Decidable (Clear left count right other) :=
  inferInstanceAs (Decidable (_ ∨ _))

section ByteMemory

variable {memory : ByteMemory} {address count place other : Nat} {bytes : List UInt8}

theorem Clear.symm (clear : Clear address count place other) : Clear place other address count :=
  Or.symm clear

@[simp]
theorem length_readBytes : (readBytes memory address count).length = count := by
  simp [readBytes]

@[simp]
theorem length_toBytes : ∀ width word, (toBytes width word).length = width := by
  intro width
  induction width with
  | zero => exact fun _ => rfl
  | succ width ih => simp [toBytes, ih]

theorem ofBytes_toBytes : ∀ width word, ofBytes (toBytes width word) = word % 256 ^ width := by
  intro width
  induction width with
  | zero => simp [toBytes, ofBytes, Nat.mod_one]
  | succ width ih =>
    intro word
    have low : (UInt8.ofNat word).toNat = word % 256 := UInt8.toNat_ofNat'
    rw [toBytes, ofBytes, ih, low, Nat.pow_succ', Nat.mod_mul]

theorem writeBytes_of_lt (before : place < address) :
    writeBytes memory address bytes place = memory place :=
  if_neg (Nat.not_le.mpr before)

theorem writeBytes_of_ge (behind : address + bytes.length ≤ place) :
    writeBytes memory address bytes place = memory place := by
  rw [writeBytes, if_pos (by omega), List.getD_eq_default _ _ (by omega)]

theorem writeBytes_add {offset : Nat} (inside : offset < bytes.length) :
    writeBytes memory address bytes (address + offset) = bytes[offset] := by
  rw [writeBytes, if_pos (Nat.le_add_right address offset), Nat.add_sub_cancel_left,
    List.getD_eq_getElem _ _ inside]

theorem readBytes_congr {next : ByteMemory}
    (same : ∀ offset < count, next (address + offset) = memory (address + offset)) :
    readBytes next address count = readBytes memory address count :=
  List.map_congr_left fun offset member => same offset (List.mem_range.mp member)

theorem readBytes_writeBytes_of_clear (clear : Clear place other address bytes.length) :
    readBytes (writeBytes memory address bytes) place other = readBytes memory place other := by
  apply readBytes_congr
  intro offset inside
  rcases clear with before | behind
  · exact writeBytes_of_lt (by omega)
  · exact writeBytes_of_ge (by omega)

theorem readBytes_writeBytes_front (fits : count ≤ bytes.length) :
    readBytes (writeBytes memory address bytes) address count = bytes.take count := by
  apply List.ext_getElem
  · simp [fits]
  · intro offset inside _
    rw [length_readBytes] at inside
    simp only [readBytes, List.getElem_map, List.getElem_range, List.getElem_take]
    exact writeBytes_add (by omega)

theorem take_readBytes (fits : count ≤ other) :
    (readBytes memory address other).take count = readBytes memory address count := by
  simp only [readBytes, ← List.map_take, List.take_range, Nat.min_eq_left fits]

theorem ofBytes_readBytes_writeBytes (memory : ByteMemory) (address width word : Nat) :
    ofBytes (readBytes (writeBytes memory address (toBytes width word)) address width) =
      word % 256 ^ width := by
  rw [readBytes_writeBytes_front (length_toBytes width word).ge,
    List.take_of_length_le (length_toBytes width word).le, ofBytes_toBytes]

end ByteMemory

def roundUp (unit value : Nat) : Nat := (value + (unit - 1)) / unit * unit

section RoundUp

variable {unit value other : Nat}

theorem dvd_roundUp (unit value : Nat) : unit ∣ roundUp unit value := Nat.dvd_mul_left unit _

theorem le_roundUp (value : Nat) (positive : 0 < unit) : value ≤ roundUp unit value := by
  have split := Nat.div_add_mod (value + (unit - 1)) unit
  have rest := Nat.mod_lt (value + (unit - 1)) positive
  rw [Nat.mul_comm] at split
  simp only [roundUp]
  omega

theorem roundUp_le (aligned : unit ∣ other) (below : value ≤ other) : roundUp unit value ≤ other := by
  rcases Nat.eq_zero_or_pos unit with zero | positive
  · simp [roundUp, zero]
  · obtain ⟨factor, rfl⟩ := aligned
    have bound : (value + (unit - 1)) / unit < factor + 1 := by
      rw [Nat.div_lt_iff_lt_mul positive, Nat.add_mul, Nat.mul_comm factor]
      omega
    rw [roundUp, Nat.mul_comm unit]
    exact Nat.mul_le_mul_right unit (Nat.le_of_lt_succ bound)

theorem roundUp_eq_sub_mod (value unit : Nat) :
    roundUp unit value = value + (unit - 1) - (value + (unit - 1)) % unit := by
  rw [roundUp, Nat.div_mul_self_eq_mod_sub_self]

theorem roundUp_lt (value : Nat) (positive : 0 < unit) : roundUp unit value < value + unit := by
  rw [roundUp_eq_sub_mod]
  omega

theorem roundUp_add (value : Nat) (aligned : unit ∣ other) :
    roundUp unit (other + value) = other + roundUp unit value := by
  rcases Nat.eq_zero_or_pos unit with zero | positive
  · obtain rfl : other = 0 := by simpa [zero] using aligned
    simp
  · obtain ⟨factor, rfl⟩ := aligned
    simp only [roundUp, Nat.add_assoc]
    rw [Nat.mul_add_div positive, Nat.add_mul, Nat.mul_comm factor]

theorem roundUp_gap (positive : 0 < unit) (rest : value % unit ≠ 0) :
    roundUp unit value + value % unit = value + unit := by
  have whole : unit ∣ value - value % unit := Nat.dvd_sub_mod value
  have smaller := Nat.mod_lt value positive
  have least := Nat.mod_le value unit
  have lower : value - value % unit + value % unit = value := by omega
  have upper : roundUp unit (value % unit) = unit := by
    apply Nat.le_antisymm (roundUp_le dvd_rfl smaller.le)
    apply Nat.le_of_dvd _ (dvd_roundUp unit _)
    have above := le_roundUp (value % unit) positive
    omega
  have shifted := roundUp_add (value % unit) whole
  rw [lower, upper] at shifted
  omega

theorem roundUp_of_dvd (positive : 0 < unit) (aligned : unit ∣ value) : roundUp unit value = value :=
  (roundUp_le aligned le_rfl).antisymm (le_roundUp value positive)

theorem or_eq_add {k high low : Nat} (divides : 2 ^ k ∣ high) (small : low < 2 ^ k) :
    high ||| low = high + low := by
  obtain ⟨factor, rfl⟩ := divides
  exact (Nat.two_pow_add_eq_or_of_lt small factor).symm

theorem and_not_low (width log value : Nat) (fits : value < 2 ^ width) (low : log ≤ width) :
    value &&& (2 ^ width - (2 ^ log - 1 + 1)) = value - value % 2 ^ log := by
  have shifted : value - value % 2 ^ log = 2 ^ log * (value / 2 ^ log) := by
    have split := Nat.div_add_mod value (2 ^ log)
    omega
  rw [shifted]
  apply Nat.eq_of_testBit_eq
  intro index
  have small : 2 ^ log - 1 < 2 ^ width := by
    have grows := Nat.pow_le_pow_right (show 0 < 2 by decide) low
    have positive := Nat.two_pow_pos log
    omega
  rw [Nat.testBit_and, Nat.testBit_two_pow_sub_succ small, Nat.testBit_two_pow_sub_one,
    Nat.testBit_two_pow_mul, Nat.testBit_div_two_pow]
  by_cases above : log ≤ index
  · by_cases inside : index < width
    · simp [above, inside]
    · rw [Nat.testBit_lt_two_pow
        (fits.trans_le (Nat.pow_le_pow_right (by decide) (Nat.not_lt.mp inside)))]
      simp [above, Nat.sub_add_cancel above,
        Nat.testBit_lt_two_pow
          (fits.trans_le (Nat.pow_le_pow_right (by decide) (Nat.not_lt.mp inside)))]
  · simp [above, Nat.lt_of_not_le above]

end RoundUp

end Library
