import MulleCore.Buffer.BufferHolds

/-!
`mulle_buffer_hexdump` of `mulle-buffer.c`. Of the options, bit 0 leaves out the offset, bit 1
the hexadecimal digits and bit 2 the characters.
-/

namespace MulleCore

open Library

/-- Only digits pass its `assert`. -/
def hex (c : Fin 16) : UInt8 :=
  if 0xa ≤ c.val then UInt8.ofNat (c.val + 0x61 - 0xa) else UInt8.ofNat (c.val + 0x30)

def hexdumpOffset (adr : UInt64) : List UInt8 :=
  [28, 24, 20, 16, 12, 8, 4, 0].map (fun shift => hex (Fin.ofNat 16 (adr.toNat >>> shift))) ++
    [0x20, 0x20]

/-- What is written to `s` in some rounds of a group, and what is left of `p` after them. There
is nothing left of it in a round where `i` has come to `n`. The last component is `none` for
the `return`. -/
def hexdumpCells (options : Nat) : Nat → List UInt8 → List UInt8 × Option (List UInt8)
  | 0, p => ([], some p)
  | rounds + 1, value :: p =>
    let (s, p) := hexdumpCells options rounds p
    (hex (Fin.ofNat 16 (value.toNat >>> 4)) :: hex (Fin.ofNat 16 value.toNat) :: 0x20 :: s, p)
  | rounds + 1, [] =>
    if options &&& 4 ≠ 0 then ([], none)
    else
      let (s, p) := hexdumpCells options rounds []
      (0x20 :: 0x20 :: 0x20 :: s, p)

def isprint (value : UInt8) : Bool := 0x20 ≤ value ∧ value ≤ 0x7e

def hexdumpChars : Nat → List UInt8 → List UInt8
  | 0, _ => []
  | rounds + 1, value :: p => (if isprint value then value else 0x2e) :: hexdumpChars rounds p
  | rounds + 1, [] => 0x20 :: hexdumpChars rounds []

section Hexdump

variable (env : BufferEnv) (fresh : Nat → UInt8)

def bufferHexdumpOffset (buffer : MulleBuffer) (counter : UInt64) (options : Nat) :
    Option MulleBuffer :=
  if options &&& 1 ≠ 0 then some buffer
  else do
    let (buffer, s) ← bufferAdvance env fresh buffer 10
    match s with
    | some s => bufferFill buffer s (hexdumpOffset counter)
    | none => some buffer

/-- A group of the hexadecimal digits, with the number of rounds that `i` has made and with what
is left of `p`, unless it came to the `return`. -/
def bufferHexdumpCells (buffer : MulleBuffer) (rounds : Nat) (p : List UInt8) (options : Nat) :
    Option (MulleBuffer × Nat × Option (List UInt8)) := do
  let (buffer, s) ← bufferAdvance env fresh buffer (3 * 8)
  match s with
  | none => some (buffer, 0, some p)
  | some s =>
    let cells := hexdumpCells options rounds p
    let buffer ← bufferFill buffer s cells.1
    match cells.2 with
    | none => some ({ buffer with curr := s + cells.1.length }, rounds, none)
    | some p => some (buffer, rounds, some p)

def bufferHexdumpHex (buffer : MulleBuffer) (bytes : List UInt8) (options : Nat) :
    Option MulleBuffer :=
  if options &&& 2 ≠ 0 then some buffer
  else do
    let (buffer, i, p) ← bufferHexdumpCells env fresh buffer 8 bytes options
    match p with
    | none => some buffer
    | some p => do
        let buffer ← bufferAddByte env fresh buffer 0x20
        let (buffer, _, _) ← bufferHexdumpCells env fresh buffer (16 - i) p options
        some buffer

def bufferHexdumpAscii (buffer : MulleBuffer) (bytes : List UInt8) (options : Nat) :
    Option MulleBuffer :=
  if options &&& 4 ≠ 0 then some buffer
  else do
    let buffer ← bufferAddByte env fresh buffer 0x20
    let buffer ← bufferAddByte env fresh buffer 0x7c
    let buffer ← bufferAddEach env fresh buffer (hexdumpChars 16 bytes)
    bufferAddByte env fresh buffer 0x7c

/-- `n` is the length of `bytes`. A `return` in between comes only where the characters are left
out. -/
def bufferHexdumpLine (buffer : MulleBuffer) (bytes : List UInt8) (counter : UInt64) (options : Nat) :
    Option MulleBuffer := do
  let buffer ← bufferHexdumpOffset env fresh buffer counter options
  let buffer ← bufferHexdumpHex env fresh buffer bytes options
  bufferHexdumpAscii env fresh buffer bytes options

def bufferHexdumpLines (options : Nat) : Nat → MulleBuffer → List UInt8 → UInt64 → Option MulleBuffer
  | 0, buffer, p, counter =>
    if p.length = 0 then some buffer
    else do
      let buffer ← bufferHexdumpLine env fresh buffer p counter options
      bufferAddByte env fresh buffer 0x0a
  | lines + 1, buffer, p, counter => do
      let buffer ← bufferHexdumpLine env fresh buffer (p.take 16) counter options
      let buffer ← bufferAddByte env fresh buffer 0x0a
      bufferHexdumpLines options lines buffer (p.drop 16) (counter + 16)

def bufferHexdump (buffer : MulleBuffer) (bytes : List UInt8) (counter : UInt64) (options : Nat) :
    Option MulleBuffer :=
  bufferHexdumpLines env fresh options (bytes.length / 16) buffer bytes counter

end Hexdump

def hexdumpOffsetText (options : Nat) (counter : UInt64) : List UInt8 :=
  if options &&& 1 ≠ 0 then [] else hexdumpOffset counter

def hexdumpHexText (options : Nat) (bytes : List UInt8) : List UInt8 :=
  if options &&& 2 ≠ 0 then []
  else (hexdumpCells options 8 bytes).1 ++
    (hexdumpCells options 8 bytes).2.elim [] fun p => 0x20 :: (hexdumpCells options 8 p).1

def hexdumpAsciiText (options : Nat) (bytes : List UInt8) : List UInt8 :=
  if options &&& 4 ≠ 0 then [] else 0x20 :: 0x7c :: hexdumpChars 16 bytes ++ [0x7c]

def hexdumpLineText (options : Nat) (bytes : List UInt8) (counter : UInt64) : List UInt8 :=
  hexdumpOffsetText options counter ++ hexdumpHexText options bytes ++ hexdumpAsciiText options bytes

def hexdumpLinesText (options : Nat) : Nat → List UInt8 → UInt64 → List UInt8
  | 0, p, counter => if p.length = 0 then [] else hexdumpLineText options p counter ++ [0x0a]
  | lines + 1, p, counter =>
    hexdumpLineText options (p.take 16) counter ++ [0x0a] ++
      hexdumpLinesText options lines (p.drop 16) (counter + 16)

def hexdumpText (options : Nat) (bytes : List UInt8) (counter : UInt64) : List UInt8 :=
  hexdumpLinesText options (bytes.length / 16) bytes counter

def HexdumpFits (limit options : Nat) : Prop :=
  (options &&& 1 = 0 → 10 ≤ limit) ∧ (options &&& 2 = 0 → 24 ≤ limit)

instance (limit options : Nat) : Decidable (HexdumpFits limit options) :=
  inferInstanceAs (Decidable (_ ∧ _))

theorem hexdumpCells_length (options rounds : Nat) :
    ∀ p, (hexdumpCells options rounds p).1.length ≤ 3 * rounds ∧
      ((hexdumpCells options rounds p).2 ≠ none → (hexdumpCells options rounds p).1.length =
        3 * rounds) := by
  induction rounds with
  | zero => exact fun p => ⟨Nat.zero_le _, fun _ => rfl⟩
  | succ rounds ih =>
    intro p
    cases p with
    | nil =>
      by_cases returns : options &&& 4 = 0
      · obtain ⟨short, full⟩ := ih []
        simp only [hexdumpCells, returns, ne_eq, not_true_eq_false, if_false, List.length_cons]
        exact ⟨by omega, fun goesOn => by rw [full goesOn]; omega⟩
      · simp [hexdumpCells, returns]
    | cons value p =>
      obtain ⟨short, full⟩ := ih p
      simp only [hexdumpCells, List.length_cons]
      exact ⟨by omega, fun goesOn => by rw [full goesOn]; omega⟩

section Overflown

variable (env : BufferEnv) (fresh : Nat → UInt8) {buffer : MulleBuffer}

theorem bufferHexdumpCells_overflown (overflown : buffer.overflown = true) (rounds : Nat)
    (p : List UInt8) (options : Nat) :
    bufferHexdumpCells env fresh buffer rounds p options = some (buffer, 0, some p) := by
  rw [bufferHexdumpCells, bufferAdvance_overflown env fresh overflown]
  rfl

theorem bufferHexdumpLine_overflown (overflown : buffer.overflown = true) (bytes : List UInt8)
    (counter : UInt64) (options : Nat) : bufferHexdumpLine env fresh buffer bytes counter options =
      some buffer := by
  have offset : bufferHexdumpOffset env fresh buffer counter options = some buffer := by
    simp [bufferHexdumpOffset, bufferAdvance_overflown env fresh overflown]
  have digits : bufferHexdumpHex env fresh buffer bytes options = some buffer := by
    simp [bufferHexdumpHex, bufferHexdumpCells_overflown env fresh overflown,
      bufferAddByte_overflown env fresh overflown]
  have chars : bufferHexdumpAscii env fresh buffer bytes options = some buffer := by
    simp [bufferHexdumpAscii, bufferAddEach_overflown env fresh overflown,
      bufferAddByte_overflown env fresh overflown]
  simp only [bufferHexdumpLine, offset, digits, chars, Option.bind_eq_bind, Option.bind_some]

theorem bufferHexdump_overflown (overflown : buffer.overflown = true) (bytes : List UInt8)
    (counter : UInt64) (options : Nat) :
    bufferHexdump env fresh buffer bytes counter options = some buffer := by
  have lines : ∀ (lines : Nat) (p : List UInt8) (counter : UInt64),
      bufferHexdumpLines env fresh options lines buffer p counter = some buffer := by
    intro lines
    induction lines with
    | zero =>
      intro p counter
      simp [bufferHexdumpLines, bufferHexdumpLine_overflown env fresh overflown,
        bufferAddByte_overflown env fresh overflown]
    | succ lines ih =>
      intro p counter
      simp [bufferHexdumpLines, bufferHexdumpLine_overflown env fresh overflown,
        bufferAddByte_overflown env fresh overflown, ih]
  exact lines _ _ _

end Overflown

section Writes

variable {env : BufferEnv} {limit : Nat} {holds : List UInt8 → MulleBuffer → Prop} {all : List UInt8}
  {buffer : MulleBuffer}
variable {options : Nat}

section

variable (sink : BufferSink env limit holds)
include sink

theorem BufferSink.reserve (fresh : Nat → UInt8) (length : Nat)
    (positive : 0 < length) (fits : length ≤ limit) (start : holds all buffer) :
    ∃ between, holds all between ∧ between.overflown = true ∧
        bufferAdvance env fresh buffer length = some (between, none) ∨
      ∃ space, bufferAdvance env fresh buffer length = some (between, some space) ∧
        BufferSpace holds all between space length := by
  obtain ⟨between, reserved, advanced, refused, opened⟩ := sink.advance fresh length start
  cases reserved with
  | none =>
    obtain ⟨same, nothing | many | overflown⟩ := refused rfl
    · omega
    · omega
    · exact ⟨between, .inl ⟨same, overflown, advanced⟩⟩
  | some space => exact ⟨between, .inr ⟨space, advanced, opened space rfl⟩⟩

theorem BufferSink.hexdumpOffset (fresh : Nat → UInt8)
    (fits : HexdumpFits limit options) (counter : UInt64) (start : holds all buffer) :
    ∃ next, bufferHexdumpOffset env fresh buffer counter options = some next ∧
      holds (all ++ hexdumpOffsetText options counter) next := by
  rw [bufferHexdumpOffset, hexdumpOffsetText]
  split
  · exact ⟨buffer, rfl, by rwa [List.append_nil]⟩
  · rename_i shown
    obtain ⟨between, ⟨same, overflown, advanced⟩ | ⟨space, advanced, opened⟩⟩ :=
      sink.reserve fresh 10 (by decide) (fits.1 (not_not.mp shown)) start
    · exact ⟨between, by rw [advanced]; rfl, sink.lost same overflown _⟩
    · obtain ⟨next, filled, nextHolds⟩ := BufferSpace.fill (MulleCore.hexdumpOffset counter) opened
      exact ⟨next, by rw [advanced]; exact filled, nextHolds⟩

theorem BufferSink.hexdumpCells (fresh : Nat → UInt8) (fits : 24 ≤ limit)
    (p : List UInt8) (options : Nat) (start : holds all buffer) :
    ∃ next, bufferHexdumpCells env fresh buffer 8 p options =
        some (next, 8, (MulleCore.hexdumpCells options 8 p).2) ∧
        holds (all ++ (MulleCore.hexdumpCells options 8 p).1) next ∨
      bufferHexdumpCells env fresh buffer 8 p options = some (next, 0, some p) ∧
        next.overflown = true ∧ holds all next := by
  obtain ⟨between, ⟨same, overflown, advanced⟩ | ⟨space, advanced, opened⟩⟩ :=
    sink.reserve fresh (3 * 8) (by decide) fits start
  · exact ⟨between, .inr ⟨by rw [bufferHexdumpCells, advanced]; rfl, overflown, same⟩⟩
  · obtain ⟨short, full⟩ := hexdumpCells_length options 8 p
    obtain ⟨next, filled, curr, nextHolds⟩ := opened _ short
    simp only [bufferHexdumpCells, advanced, filled, Option.bind_eq_bind, Option.bind_some]
    cases rest : (MulleCore.hexdumpCells options 8 p).2 with
    | none => exact ⟨_, .inl ⟨rfl, nextHolds⟩⟩
    | some more =>
      have length := full (by rw [rest]; exact Option.some_ne_none more)
      rw [length, ← curr] at nextHolds
      exact ⟨next, .inl ⟨rfl, nextHolds⟩⟩

theorem BufferSink.hexdumpHex (fresh : Nat → UInt8)
    (fits : HexdumpFits limit options) (bytes : List UInt8) (start : holds all buffer) :
    ∃ next, bufferHexdumpHex env fresh buffer bytes options = some next ∧
      holds (all ++ hexdumpHexText options bytes) next := by
  rw [bufferHexdumpHex, hexdumpHexText]
  split
  · exact ⟨buffer, rfl, by rwa [List.append_nil]⟩
  · rename_i shown
    have groups := fits.2 (not_not.mp shown)
    obtain ⟨next, ⟨first, nextHolds⟩ | ⟨first, overflown, same⟩⟩ :=
      sink.hexdumpCells fresh groups bytes options start
    · simp only [first, Option.bind_eq_bind, Option.bind_some]
      cases (MulleCore.hexdumpCells options 8 bytes).2 with
      | none => exact ⟨next, rfl, by simpa using nextHolds⟩
      | some p =>
        obtain ⟨middle, added, middleHolds⟩ := sink.addByte fresh 0x20 nextHolds
        obtain ⟨last, ⟨second, lastHolds⟩ | ⟨second, overflown, same⟩⟩ :=
          sink.hexdumpCells fresh groups p options middleHolds
        · exact ⟨last, by simp [added, second], by simpa using lastHolds⟩
        · exact ⟨last, by simp [added, second], sink.lost same overflown _⟩
    · refine ⟨next, ?_, sink.lost same overflown _⟩
      simp [first, bufferAddByte_overflown env fresh overflown,
        bufferHexdumpCells_overflown env fresh overflown]

theorem BufferSink.hexdumpAscii (fresh : Nat → UInt8) (options : Nat)
    (bytes : List UInt8) (start : holds all buffer) :
    ∃ next, bufferHexdumpAscii env fresh buffer bytes options = some next ∧
      holds (all ++ hexdumpAsciiText options bytes) next := by
  rw [bufferHexdumpAscii, hexdumpAsciiText]
  split
  · exact ⟨buffer, rfl, by rwa [List.append_nil]⟩
  · obtain ⟨space, first, spaceHolds⟩ := sink.addByte fresh 0x20 start
    obtain ⟨bar, second, barHolds⟩ := sink.addByte fresh 0x7c spaceHolds
    obtain ⟨chars, third, charsHolds⟩ := sink.addEach fresh (hexdumpChars 16 bytes) barHolds
    obtain ⟨next, fourth, nextHolds⟩ := sink.addByte fresh 0x7c charsHolds
    exact ⟨next, by simp [first, second, third, fourth], by simpa using nextHolds⟩

theorem BufferSink.hexdumpLine (fresh : Nat → UInt8)
    (fits : HexdumpFits limit options) (bytes : List UInt8) (counter : UInt64)
    (start : holds all buffer) :
    ∃ next, bufferHexdumpLine env fresh buffer bytes counter options = some next ∧
      holds (all ++ hexdumpLineText options bytes counter) next := by
  obtain ⟨first, offset, firstHolds⟩ := sink.hexdumpOffset fresh fits counter start
  obtain ⟨second, digits, secondHolds⟩ := sink.hexdumpHex fresh fits bytes firstHolds
  obtain ⟨next, chars, nextHolds⟩ := sink.hexdumpAscii fresh options bytes secondHolds
  refine ⟨next, by simp [bufferHexdumpLine, offset, digits, chars], ?_⟩
  rwa [hexdumpLineText, ← List.append_assoc, ← List.append_assoc]

theorem BufferSink.hexdump (fresh : Nat → UInt8)
    {bytes : List UInt8} (fits : bytes = [] ∨ HexdumpFits limit options) (counter : UInt64)
    (start : holds all buffer) :
    ∃ next, bufferHexdump env fresh buffer bytes counter options = some next ∧
      holds (all ++ hexdumpText options bytes counter) next := by
  have lines : HexdumpFits limit options → ∀ (lines : Nat) {all : List UInt8} {buffer : MulleBuffer}
      (p : List UInt8) (counter : UInt64), holds all buffer →
      ∃ next, bufferHexdumpLines env fresh options lines buffer p counter = some next ∧
        holds (all ++ hexdumpLinesText options lines p counter) next := by
    intro fits lines
    induction lines with
    | zero =>
      intro all buffer p counter start
      rw [bufferHexdumpLines, hexdumpLinesText]
      split
      · exact ⟨buffer, rfl, by rwa [List.append_nil]⟩
      · obtain ⟨line, written, lineHolds⟩ := sink.hexdumpLine fresh fits p counter start
        obtain ⟨next, added, nextHolds⟩ := sink.addByte fresh 0x0a lineHolds
        exact ⟨next, by simp [written, added], by rwa [← List.append_assoc]⟩
    | succ lines ih =>
      intro all buffer p counter start
      obtain ⟨line, written, lineHolds⟩ := sink.hexdumpLine fresh fits (p.take 16) counter start
      obtain ⟨next, added, nextHolds⟩ := sink.addByte fresh 0x0a lineHolds
      obtain ⟨last, finished, lastHolds⟩ := ih (p.drop 16) (counter + 16) nextHolds
      refine ⟨last, by simp [bufferHexdumpLines, written, added, finished], ?_⟩
      simpa [hexdumpLinesText] using lastHolds
  rcases fits with rfl | fits
  · exact ⟨buffer, rfl, by simpa [hexdumpText, hexdumpLinesText] using start⟩
  · exact lines fits _ bytes counter start

end

end Writes

end MulleCore
