import Mathlib.Data.List.Basic

/-!
Reading a C string literal, one character after the other.
-/

namespace Library

/-- Where the reader is. In an octal escape up to `left` more digits belong to it. -/
inductive LiteralState where
  | start
  | plain
  | escape
  | octal (left value : Nat)
  | closed
deriving DecidableEq

def simpleEscape (c : UInt8) : Option UInt8 :=
  match c.toNat with
  | 0x61 => some 0x07
  | 0x62 => some 0x08
  | 0x66 => some 0x0c
  | 0x6e => some 0x0a
  | 0x72 => some 0x0d
  | 0x74 => some 0x09
  | 0x76 => some 0x0b
  | 0x5c | 0x27 | 0x22 | 0x3f => some c
  | _ => none

def isOctalDigit (c : UInt8) : Bool := 0x30 ≤ c.toNat ∧ c.toNat ≤ 0x37

def literalPlain (c : UInt8) : Option (List UInt8 × LiteralState) :=
  if c.toNat = 0x22 then some ([], .closed)
  else if c.toNat = 0x5c then some ([], .escape)
  else if c.toNat = 0x0a then none
  else some ([c], .plain)

def literalStep : LiteralState → UInt8 → Option (List UInt8 × LiteralState)
  | .start, c => if c.toNat = 0x22 then some ([], .plain) else none
  | .plain, c => literalPlain c
  | .escape, c =>
    match simpleEscape c with
    | some value => some ([value], .plain)
    | none => if isOctalDigit c then some ([], .octal 2 (c.toNat - 0x30)) else none
  | .octal left value, c =>
    if left ≠ 0 ∧ isOctalDigit c then some ([], .octal (left - 1) (value * 8 + (c.toNat - 0x30)))
    else if value > 0xff then none
    else (literalPlain c).map fun next => (UInt8.ofNat value :: next.1, next.2)
  | .closed, _ => none

def literalRun : LiteralState → List UInt8 → Option (List UInt8 × LiteralState)
  | state, [] => some ([], state)
  | state, c :: text =>
    (literalStep state c).bind fun next =>
      (literalRun next.2 text).map fun last => (next.1 ++ last.1, last.2)

def readLiteral (text : List UInt8) : Option (List UInt8) :=
  match literalRun .start text with
  | some (bytes, .closed) => some bytes
  | _ => none

def LiteralState.Ready : LiteralState → List UInt8 → Prop
  | .plain, pending => pending = []
  | .octal 0 value, pending => value ≤ 0xff ∧ pending = [UInt8.ofNat value]
  | _, _ => False

section Reading

variable {state : LiteralState} {pending : List UInt8}

/-- A literal can be read piece by piece. -/
theorem literalRun_append (front back : List UInt8) : ∀ {state : LiteralState},
    literalRun state (front ++ back) =
      (literalRun state front).bind fun next =>
        (literalRun next.2 back).map fun last => (next.1 ++ last.1, last.2) := by
  induction front with
  | nil => simp [literalRun]
  | cons c front ih =>
    intro state
    rw [List.cons_append, literalRun, literalRun]
    cases literalStep state c with
    | none => rfl
    | some next =>
      simp only [Option.bind_some, ih, Option.bind_map]
      cases literalRun next.2 front with
      | none => rfl
      | some middle => simp [Function.comp_def, List.append_assoc]

theorem LiteralState.Ready.run (ready : state.Ready pending) (c : UInt8) (text : List UInt8) :
    literalRun state (c :: text) =
      (literalRun .plain (c :: text)).map fun last => (pending ++ last.1, last.2) := by
  cases state with
  | start | escape | closed => exact ready.elim
  | plain =>
    obtain rfl : pending = [] := ready
    simp
  | octal left value =>
    cases left with
    | succ left => exact ready.elim
    | zero =>
      obtain ⟨small, rfl⟩ := ready
      have stepped : literalStep (.octal 0 value) c =
          (literalPlain c).map fun next => (UInt8.ofNat value :: next.1, next.2) := by
        rw [literalStep, if_neg (by simp), if_neg (Nat.not_lt.mpr small)]
      rw [literalRun, literalRun, stepped, literalStep]
      cases literalPlain c with
      | none => rfl
      | some next => simp [Function.comp_def]

end Reading

end Library
