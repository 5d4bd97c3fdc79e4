import MulleCore.Buffer.BufferRefines
import MulleCore.Buffer.Hexdump
import MulleCore.Library.CLiterals

/-!
`_mulle__buffer_add_c_char` and `_mulle__buffer_add_c_string`: a string becomes the text of a C
literal.
-/

namespace MulleCore

open Library

def tooct (v : UInt8) : UInt8 := 0x30 + v

def cEscape (c : UInt8) : Option UInt8 :=
  match c.toNat with
  | 0x0d => some 0x72
  | 0x0a => some 0x6e
  | 0x22 => some 0x22
  | 0x3f => some 0x3f
  | 0x5c => some 0x5c
  | 0x07 => some 0x61
  | 0x08 => some 0x62
  | 0x0c => some 0x66
  | 0x09 => some 0x74
  | 0x0b => some 0x76
  | _ => none

section Functions

variable (env : BufferEnv) (fresh : Nat → UInt8)

def bufferAddOctal (buffer : MulleBuffer) (c : UInt8) : Option MulleBuffer := do
  let buffer ← bufferAddByte env fresh buffer 0x5c
  let buffer ← bufferAddByte env fresh buffer (tooct ((c >>> 6) &&& 7))
  let buffer ← bufferAddByte env fresh buffer (tooct ((c >>> 3) &&& 7))
  bufferAddByte env fresh buffer (tooct (c &&& 7))

def bufferAddEscapedChar (buffer : MulleBuffer) (c : UInt8) : Option MulleBuffer := do
  let buffer ← bufferAddByte env fresh buffer 0x5c
  bufferAddByte env fresh buffer c

def bufferAddCChar (buffer : MulleBuffer) (c : UInt8) : Option MulleBuffer :=
  match cEscape c with
  | some escaped => bufferAddEscapedChar env fresh buffer escaped
  | none => if isprint c then bufferAddByte env fresh buffer c else bufferAddOctal env fresh buffer c

def bufferAddCChars (buffer : MulleBuffer) : List UInt8 → Option MulleBuffer
  | [] => some buffer
  | c :: bytes =>
    if c = 0 then some buffer
    else do
      let buffer ← bufferAddCChar env fresh buffer c
      bufferAddCChars buffer bytes

/-- A buffer that has overflown passes for self-referencing. -/
def bufferAddCString (buffer : MulleBuffer) (bytes : List UInt8) : Option MulleBuffer :=
  if buffer.overflown then some buffer
  else do
    let buffer ← bufferAddByte env fresh buffer 0x22
    let buffer ← bufferAddCChars env fresh buffer bytes
    bufferAddByte env fresh buffer 0x22

end Functions

def cCharText (c : UInt8) : List UInt8 :=
  match cEscape c with
  | some escaped => [0x5c, escaped]
  | none =>
    if isprint c then [c]
    else [0x5c, tooct ((c >>> 6) &&& 7), tooct ((c >>> 3) &&& 7), tooct (c &&& 7)]

def cStringText (bytes : List UInt8) : List UInt8 := 0x22 :: (bytes.flatMap cCharText ++ [0x22])

section Writing

variable {env : BufferEnv} {limit : Nat} {holds : List UInt8 → MulleBuffer → Prop} {all : List UInt8}
  {buffer : MulleBuffer}
variable {bytes : List UInt8}

theorem BufferSink.addCChar (sink : BufferSink env limit holds) (fresh : Nat → UInt8) (c : UInt8)
    (start : holds all buffer) :
    ∃ next, bufferAddCChar env fresh buffer c = some next ∧ holds (all ++ cCharText c) next := by
  rw [bufferAddCChar, cCharText]
  cases cEscape c with
  | some escaped =>
    obtain ⟨slashed, slash, slashHolds⟩ := sink.addByte fresh 0x5c start
    obtain ⟨next, added, nextHolds⟩ := sink.addByte fresh escaped slashHolds
    refine ⟨next, ?_, by simpa using nextHolds⟩
    simp only [bufferAddEscapedChar, slash, Option.bind_eq_bind, Option.bind_some, added]
  | none =>
    dsimp only
    split
    · exact sink.addByte fresh c start
    · obtain ⟨slashed, slash, slashHolds⟩ := sink.addByte fresh 0x5c start
      obtain ⟨first, addFirst, firstHolds⟩ := sink.addByte fresh (tooct ((c >>> 6) &&& 7)) slashHolds
      obtain ⟨second, addSecond, secondHolds⟩ :=
        sink.addByte fresh (tooct ((c >>> 3) &&& 7)) firstHolds
      obtain ⟨next, addThird, nextHolds⟩ := sink.addByte fresh (tooct (c &&& 7)) secondHolds
      refine ⟨next, ?_, by simpa using nextHolds⟩
      simp only [bufferAddOctal, slash, addFirst, addSecond, addThird, Option.bind_eq_bind,
        Option.bind_some]

theorem BufferSink.addCChars (sink : BufferSink env limit holds) (fresh : Nat → UInt8)
    (nonzero : (0 : UInt8) ∉ bytes) (behind : List UInt8) (start : holds all buffer) :
    ∃ next, bufferAddCChars env fresh buffer (bytes ++ 0 :: behind) = some next ∧
      holds (all ++ bytes.flatMap cCharText) next := by
  induction bytes generalizing all buffer with
  | nil => exact ⟨buffer, by simp [bufferAddCChars], by simpa using start⟩
  | cons c bytes ih =>
    rw [List.mem_cons, not_or] at nonzero
    obtain ⟨between, added, betweenHolds⟩ := sink.addCChar fresh c start
    obtain ⟨next, rest, nextHolds⟩ := ih nonzero.2 betweenHolds
    refine ⟨next, ?_, by simpa using nextHolds⟩
    rw [List.cons_append, bufferAddCChars, if_neg (Ne.symm nonzero.1), added]
    exact rest

theorem BufferSink.addCString (sink : BufferSink env limit holds) (fresh : Nat → UInt8)
    (nonzero : (0 : UInt8) ∉ bytes) (behind : List UInt8) (start : holds all buffer) :
    ∃ next, bufferAddCString env fresh buffer (bytes ++ 0 :: behind) = some next ∧
      holds (all ++ cStringText bytes) next := by
  rw [bufferAddCString]
  split
  · rename_i overflown
    exact ⟨buffer, rfl, sink.lost start overflown _⟩
  · obtain ⟨opened, quote, openedHolds⟩ := sink.addByte fresh 0x22 start
    obtain ⟨filled, added, filledHolds⟩ := sink.addCChars fresh nonzero behind openedHolds
    obtain ⟨next, closed, nextHolds⟩ := sink.addByte fresh 0x22 filledHolds
    refine ⟨next, ?_, by simpa [cStringText] using nextHolds⟩
    simp only [quote, added, closed, Option.bind_eq_bind, Option.bind_some]

end Writing

section Reading

theorem cCharText_tables :
    (∀ n < 256, (cCharText (UInt8.ofNat n)).all isprint = true) ∧
    ∀ n < 256, literalRun .plain (cCharText (UInt8.ofNat n)) = some ([UInt8.ofNat n], .plain) ∨
      literalRun .plain (cCharText (UInt8.ofNat n)) = some ([], .octal 0 n) := by
  decide +kernel

theorem cCharText_ready (c : UInt8) : ∃ emitted next pending,
    literalRun .plain (cCharText c) = some (emitted, next) ∧ next.Ready pending ∧
      emitted ++ pending = [c] := by
  have run := cCharText_tables.2 c.toNat c.toNat_lt
  rw [UInt8.ofNat_toNat] at run
  rcases run with plain | octal
  · exact ⟨[c], .plain, [], plain, rfl, rfl⟩
  · exact ⟨[], .octal 0 c.toNat, [c], octal, ⟨Nat.le_of_lt_succ c.toNat_lt, by simp⟩, rfl⟩

theorem cCharText_cons (c : UInt8) : ∃ first rest, cCharText c = first :: rest := by
  rw [cCharText]
  cases cEscape c with
  | some escaped => exact ⟨_, _, rfl⟩
  | none =>
    dsimp only
    split
    · exact ⟨_, _, rfl⟩
    · exact ⟨_, _, rfl⟩

theorem cChars_run (bytes : List UInt8) : ∀ {state : LiteralState} {pending : List UInt8},
    state.Ready pending → ∃ emitted next more,
      literalRun state (bytes.flatMap cCharText) = some (emitted, next) ∧ next.Ready more ∧
        emitted ++ more = pending ++ bytes := by
  induction bytes with
  | nil =>
    intro state pending ready
    exact ⟨[], state, pending, rfl, ready, by simp⟩
  | cons c bytes ih =>
    intro state pending ready
    obtain ⟨first, rest, text⟩ := cCharText_cons c
    obtain ⟨emitted, middle, carried, run, middleReady, one⟩ := cCharText_ready c
    obtain ⟨others, next, more, rests, nextReady, all⟩ := ih middleReady
    refine ⟨pending ++ emitted ++ others, next, more, ?_, nextReady, ?_⟩
    · rw [text] at run
      rw [List.flatMap_cons, literalRun_append, text, ready.run, run]
      simp only [Option.map_some, Option.bind_some, rests]
    · rw [List.append_assoc, all, List.append_assoc, ← List.append_assoc emitted, one]
      rfl

theorem readLiteral_cStringText (bytes : List UInt8) :
    readLiteral (cStringText bytes) = some bytes := by
  obtain ⟨emitted, next, more, run, ready, all⟩ := @cChars_run bytes .plain [] rfl
  have quote : literalRun .plain [0x22] = some ([], .closed) := by decide
  have opening : literalStep .start 0x22 = some ([], .plain) := by decide
  rw [readLiteral, cStringText, literalRun, opening, Option.bind_some, literalRun_append, run,
    Option.bind_some, ready.run, quote]
  simpa using all

theorem cStringText_isprint {bytes : List UInt8} : ∀ c ∈ cStringText bytes, isprint c = true := by
  intro c member
  rw [cStringText, List.mem_cons, List.mem_append, List.mem_singleton, List.mem_flatMap] at member
  rcases member with rfl | ⟨origin, _, member⟩ | rfl
  · rfl
  · have printed := cCharText_tables.1 origin.toNat origin.toNat_lt
    rw [UInt8.ofNat_toNat] at printed
    exact List.all_eq_true.mp printed c member
  · rfl

/-- The text is printable, and a C compiler reads the bytes from it. -/
theorem bufferAddCString_reads {contents : List UInt8} {buffer : MulleBuffer} (env : BufferEnv)
    (fresh : Nat → UInt8) (holds : FlexibleHolds contents buffer) {bytes : List UInt8}
    (nonzero : (0 : UInt8) ∉ bytes) (behind : List UInt8) :
    ∃ next, bufferAddCString env fresh buffer (bytes ++ 0 :: behind) = some next ∧
      FlexibleHolds (contents ++ cStringText bytes) next ∧
      (∀ c ∈ cStringText bytes, isprint c = true) ∧ readLiteral (cStringText bytes) = some bytes ∧
      ∀ others, cStringText others = cStringText bytes → others = bytes := by
  obtain ⟨next, added, nextHolds⟩ := (@flexibleSink env 0).addCString fresh nonzero behind holds
  refine ⟨next, added, nextHolds, cStringText_isprint, readLiteral_cStringText bytes, ?_⟩
  intro others same
  have read := readLiteral_cStringText others
  rw [same, readLiteral_cStringText, Option.some.injEq] at read
  exact read.symm

theorem bufferAddCString_reads_escapes :
    ∃ next, bufferAddCString ⟨16, fun _ _ => 0⟩ (fun _ => 0) (bufferInit 0) ([0x22, 0x01,
      0x31] ++ [0]) = some next ∧
      FlexibleHolds ([] ++ cStringText [0x22, 0x01, 0x31]) next ∧
      (∀ c ∈ cStringText [0x22, 0x01, 0x31], isprint c = true) ∧
      readLiteral (cStringText [0x22, 0x01, 0x31]) = some [0x22, 0x01, 0x31] ∧
      ∀ others, cStringText others = cStringText [0x22, 0x01, 0x31] → others = [0x22, 0x01, 0x31] :=
  @bufferAddCString_reads [] (bufferInit 0) ⟨16, fun _ _ => 0⟩ (fun _ => 0)
    (flexibleStart_holds (.capacity 0)) [0x22, 0x01, 0x31] (by simp) []

end Reading

end MulleCore
