import MulleCore.Library.ByteMemory

/-!
`mulle_memset_uint32` of `mulle-memset.c`, for either byte order. Addresses do not wrap.
-/

namespace MulleCore

open Library

def nativeImage (bigEndian : Bool) (value : UInt32) : List UInt8 :=
  if bigEndian then (toBytes 4 value.toNat).reverse else toBytes 4 value.toNat

def memsetUint32Byte (bigEndian : Bool) (value : UInt32) (i : Nat) : UInt8 :=
  if bigEndian then (value >>> UInt32.ofNat ((3 - i) * 8)).toUInt8
    else (value >>> UInt32.ofNat (i * 8)).toUInt8

structure MemsetState where
  memory : ByteMemory
  d8 : Nat
  count : Nat

/-- The loop over the unaligned bytes, `room` counts from `i` up to the end of the word. -/
def memsetUint32Prefix (bigEndian : Bool) (value : UInt32) : Nat → MemsetState → MemsetState
  | 0, state => state
  | room + 1, state =>
    if state.count = 0 then state
    else
      memsetUint32Prefix bigEndian value room
        ⟨writeBytes state.memory state.d8 [memsetUint32Byte bigEndian value (3 - room)],
          state.d8 + 1, state.count - 1⟩

def memsetUint32Bulk (bigEndian : Bool) (value : UInt32) (state : MemsetState) : MemsetState :=
  if 4 ≤ state.count then
    memsetUint32Bulk bigEndian value
      ⟨writeBytes state.memory state.d8 (nativeImage bigEndian value), state.d8 + 4, state.count - 4⟩
  else state
termination_by state.count

def memsetUint32Trailing (bigEndian : Bool) (value : UInt32) (state : MemsetState) : ByteMemory :=
  (List.range state.count).foldl
    (fun memory i => writeBytes memory (state.d8 + i) [memsetUint32Byte bigEndian value i])
      state.memory

def memsetUint32 (bigEndian : Bool) (memory : ByteMemory) (dest : Nat) (value : UInt32)
    (count : Nat) :
    ByteMemory × Nat :=
  let offset := dest &&& 3
  let aligned := memsetUint32Prefix bigEndian value (4 - offset) ⟨memory, dest, count⟩
  (memsetUint32Trailing bigEndian value (memsetUint32Bulk bigEndian value aligned), dest)

section Filled

variable {bigEndian : Bool} {value : UInt32} {memory filled : ByteMemory} {dest place : Nat}
  {state : MemsetState}
variable {i stop : Nat}

@[simp]
theorem length_nativeImage : (nativeImage bigEndian value).length = 4 := by
  cases bigEndian <;> simp [nativeImage]

theorem shifted_byte (inside : i < 4) :
    (value >>> UInt32.ofNat (i * 8)).toUInt8 = UInt8.ofNat (value.toNat / 256 ^ i) := by
  have shift : (UInt32.ofNat (i * 8)).toNat = i * 8 :=
    UInt32.toNat_ofNat_of_lt' (by rw [UInt32.size]; omega)
  have below : i * 8 % 32 = 8 * i := by omega
  apply UInt8.toNat_inj.mp
  rw [UInt32.toNat_toUInt8, UInt32.toNat_shiftRight, shift, UInt8.toNat_ofNat',
    Nat.shiftRight_eq_div_pow, below, Nat.pow_mul]

theorem nativeImage_getElem? (inside : i < 4) :
    (nativeImage bigEndian value)[i]? = some (memsetUint32Byte bigEndian value i) := by
  have image : toBytes 4 value.toNat = [UInt8.ofNat (value.toNat / 256 ^ 0),
    UInt8.ofNat (value.toNat / 256 ^ 1),
      UInt8.ofNat (value.toNat / 256 ^ 2), UInt8.ofNat (value.toNat / 256 ^ 3)] := by
    simp [toBytes, Nat.div_div_eq_div_mul]
  obtain rfl | rfl | rfl | rfl : i = 0 ∨ i = 1 ∨ i = 2 ∨ i = 3 := by omega
  all_goals cases bigEndian <;>
    rw [nativeImage, image, memsetUint32Byte] <;>
      simp only [if_true, if_false, Bool.false_eq_true] <;>
      rw [shifted_byte (by decide)] <;> rfl

def Filled (bigEndian : Bool) (value : UInt32) (memory : ByteMemory) (dest place : Nat)
    (filled : ByteMemory) : Prop :=
  ∀ address, filled address =
    if dest ≤ address ∧ address < place then memsetUint32Byte bigEndian value (address % 4)
      else memory address

theorem Filled.byte (holds : Filled bigEndian value memory dest place filled) (behind : dest ≤ place)
    (same : place % 4 = i) :
    Filled bigEndian value memory dest (place + 1)
      (writeBytes filled place [memsetUint32Byte bigEndian value i]) := by
  subst same
  intro address
  rcases Nat.lt_trichotomy address place with before | rfl | after
  · rw [writeBytes_of_lt before, holds address]
    simp only [before, Nat.lt_succ_of_lt before, and_true]
  · rw [if_pos ⟨behind, Nat.lt_succ_self _⟩]
    simp [writeBytes]
  · rw [writeBytes_of_ge (Nat.succ_le_of_lt after), holds address, if_neg (by omega),
      if_neg (by omega)]

theorem Filled.word (holds : Filled bigEndian value memory dest place filled) (behind : dest ≤ place)
    (aligned : place % 4 = 0) :
    Filled bigEndian value memory dest (place + 4)
      (writeBytes filled place (nativeImage bigEndian value)) := by
  intro address
  by_cases before : address < place
  · rw [writeBytes_of_lt before, holds address]
    simp only [before, Nat.lt_add_right 4 before, and_true]
  · by_cases after : place + 4 ≤ address
    · rw [writeBytes_of_ge (by simpa using after), holds address, if_neg (by omega),
        if_neg (by omega)]
    · have inside : address - place < 4 := by omega
      have same : address % 4 = address - place := by omega
      rw [if_pos (by omega), same, writeBytes, if_pos (by omega), List.getD_eq_getElem?_getD,
        nativeImage_getElem? inside]
      rfl

structure MemsetHolds (bigEndian : Bool) (value : UInt32) (memory : ByteMemory) (dest stop : Nat)
    (state : MemsetState) : Prop where
  filled : Filled bigEndian value memory dest state.d8 state.memory
  behind : dest ≤ state.d8
  left : state.d8 + state.count = stop

theorem memsetUint32Prefix_holds : ∀ {room : Nat} {state : MemsetState}, room ≤ 4 →
    (state.d8 + room) % 4 = 0 → MemsetHolds bigEndian value memory dest stop state →
      let next := memsetUint32Prefix bigEndian value room state
      MemsetHolds bigEndian value memory dest stop next ∧ (next.count = 0 ∨ next.d8 % 4 = 0) := by
  intro room
  induction room with
  | zero => exact fun _ aligned holds => ⟨holds, .inr aligned⟩
  | succ room ih =>
    intro state few aligned holds
    rw [memsetUint32Prefix]
    split
    next none => exact ⟨holds, .inl none⟩
    next some =>
      apply ih (by omega)
      · dsimp only
        omega
      · have place : state.d8 % 4 = 3 - room := by omega
        have left := holds.left
        exact ⟨holds.filled.byte holds.behind place,
          Nat.le_succ_of_le holds.behind, by dsimp only; omega⟩

theorem memsetUint32Bulk_holds (holds : MemsetHolds bigEndian value memory dest stop state)
    (aligned : state.count = 0 ∨ state.d8 % 4 = 0) :
    let next := memsetUint32Bulk bigEndian value state
    MemsetHolds bigEndian value memory dest stop next ∧ next.count < 4 ∧
    (next.count = 0 ∨ next.d8 % 4 = 0) := by
  fun_induction memsetUint32Bulk bigEndian value state with
  | case1 state enough ih =>
    have left := holds.left
    have behind := holds.behind
    have word := holds.filled.word behind (by omega)
    exact ih ⟨word, by dsimp only; omega, by dsimp only; omega⟩ (.inr (by dsimp only; omega))
  | case2 state few => exact ⟨holds, by omega, aligned⟩

theorem memsetUint32Trailing_filled (holds : MemsetHolds bigEndian value memory dest stop state)
    (few : state.count < 4) (aligned : state.count = 0 ∨ state.d8 % 4 = 0) :
    Filled bigEndian value memory dest stop (memsetUint32Trailing bigEndian value state) := by
  have written : ∀ n ≤ state.count, Filled bigEndian value memory dest (state.d8 + n)
      ((List.range n).foldl
        (fun memory i => writeBytes memory (state.d8 + i) [memsetUint32Byte bigEndian value i])
          state.memory) := by
    intro n
    induction n with
    | zero => exact fun _ => holds.filled
    | succ n ih =>
      intro inside
      rw [List.range_succ, List.foldl_append, List.foldl_cons, List.foldl_nil]
      exact (ih (by omega)).byte (Nat.le_add_right_of_le holds.behind) (by omega)
  rw [← holds.left]
  exact written state.count le_rfl

end Filled

/-- Each byte of the range is the one of the value for its address, all others stay. -/
theorem memsetUint32_fills (bigEndian : Bool) (memory : ByteMemory) (dest : Nat) (value : UInt32)
    (count address : Nat) :
    if dest ≤ address ∧ address < dest + count then
      (nativeImage bigEndian value)[address % 4]? = some
    ((memsetUint32 bigEndian memory dest value count).1 address)
    else (memsetUint32 bigEndian memory dest value count).1 address = memory address := by
  have offset : dest &&& 3 = dest % 4 := Nat.and_two_pow_sub_one_eq_mod dest 2
  have start : MemsetHolds bigEndian value memory dest (dest + count) ⟨memory, dest, count⟩ :=
    ⟨fun place => (if_neg (by dsimp only; omega)).symm, le_rfl, rfl⟩
  have ends : (dest + (4 - dest % 4)) % 4 = 0 := by omega
  obtain ⟨unaligned, aligned⟩ := memsetUint32Prefix_holds (Nat.sub_le 4 (dest % 4)) ends start
  obtain ⟨words, few, rest⟩ := memsetUint32Bulk_holds unaligned aligned
  have filled := memsetUint32Trailing_filled words few rest address
  rw [memsetUint32, offset]
  dsimp only
  split
  next inside =>
    rw [filled, if_pos inside]
    exact nativeImage_getElem? (Nat.mod_lt _ (by decide))
  next outside => rw [filled, if_neg outside]

end MulleCore
