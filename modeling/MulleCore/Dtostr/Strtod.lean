import MulleCore.Dtostr.Dtostr

/-!
The lexer of `mulle-strtod.c`.
-/

namespace MulleCore

section Syntax

structure StrtodAllows where
  leadingWhitespace : Bool
  plus : Bool
  minus : Bool
  exponentPlus : Bool
  exponentMinus : Bool
  inf : Bool
  nan : Bool
  emptyInteger : Bool
  emptyFraction : Bool
  caseSensitive : Bool
deriving DecidableEq

/-- The characters for the exponent are those in front of the first zero, and a grouping of zero is
none. -/
structure StrtodSyntax where
  decimalPoint : UInt8
  grouping : UInt8
  groupSize : UInt8
  exponent : List UInt8
  flags : StrtodAllows
deriving DecidableEq

def strtodSyntaxMakeDtostr : StrtodSyntax where
  decimalPoint := 0x2E
  grouping := 0
  groupSize := 0
  exponent := [0x65]
  flags := {
    leadingWhitespace := false
    plus := false
    minus := true
    exponentPlus := true
    exponentMinus := true
    inf := true
    nan := true
    emptyInteger := false
    emptyFraction := false
    caseSensitive := false }

def strtodSyntaxMakeC : StrtodSyntax :=
  { strtodSyntaxMakeDtostr with
    flags := {
      strtodSyntaxMakeDtostr.flags with
      leadingWhitespace := true
      plus := true
      emptyInteger := true
      emptyFraction := true } }

def strtodIsDigit (c : UInt8) : Bool := c ≥ 0x30 && c ≤ 0x39

def strtodIsSpace (c : UInt8) : Bool := c = 0x20 || (c ≥ 0x09 && c ≤ 0x0D)

def strtodToLower (c : UInt8) : UInt8 := if c ≥ 0x41 ∧ c ≤ 0x5A then c + 0x20 else c

def strtodIsAlpha (c : UInt8) : Bool := strtodToLower c ≥ 0x61 && strtodToLower c ≤ 0x7A

def strtodMatchWord (text word : List UInt8) (caseSensitive : Bool) : Nat :=
  if text.length < word.length then 0
  else if (text.take word.length).map (if caseSensitive then id else strtodToLower) = word then
    word.length
  else 0

def StrtodSyntax.isExponentChar (grammar : StrtodSyntax) (c : UInt8) : Bool :=
  if grammar.flags.caseSensitive then grammar.exponent.any (· = c)
  else grammar.exponent.any fun d => strtodToLower d = strtodToLower c

end Syntax

section Parse

def strtodMaxDigits : Nat := 19

def strtodExponentLimit : Nat := 9999

structure ParseState where
  significand : Nat
  digits : Nat
  dropped : Nat
  fracCount : Nat
  intCount : Nat
  nonzero : Bool
  truncated : Bool
deriving DecidableEq

def ParseState.initial : ParseState := ⟨0, 0, 0, 0, 0, false, false⟩

def addDigit (state : ParseState) (c : UInt8) (fraction : Bool) : ParseState :=
  let state :=
    if fraction then { state with fracCount := state.fracCount + 1 }
    else { state with intCount := state.intCount + 1 }
  -- a leading zero carries no value
  if c = 0x30 ∧ ¬ state.nonzero then state
  else if state.digits < strtodMaxDigits then
    { state with
      nonzero := true
      significand := state.significand * 10 + (c.toNat - 0x30)
      digits := state.digits + 1 }
  else
    { state with
      nonzero := true
      dropped := state.dropped + 1
      truncated := state.truncated || c ≠ 0x30 }

def parseSpecial (grammar : StrtodSyntax) (text : List UInt8) : DtostrSpecial × List UInt8 :=
  let caseSensitive := grammar.flags.caseSensitive
  let infinity := strtodMatchWord text [0x69, 0x6E, 0x66, 0x69, 0x6E, 0x69, 0x74, 0x79] caseSensitive
  let inf := if infinity = 0 then strtodMatchWord text [0x69, 0x6E, 0x66] caseSensitive else infinity
  let nan := strtodMatchWord text [0x6E, 0x61, 0x6E] caseSensitive
  if grammar.flags.inf ∧ inf ≠ 0 then (.inf, text.drop inf)
  else if grammar.flags.nan ∧ nan ≠ 0 then
    let rest := text.drop nan
    if rest[0]? = some 0x28 then
      let behind := (rest.drop 1).dropWhile fun c => strtodIsDigit c || strtodIsAlpha c || c = 0x5F
      if behind[0]? = some 0x29 then (.nan, behind.drop 1) else (.nan, rest)
    else (.nan, rest)
  else (.normal, text)

/-- If the last group is short, the number ends at the last separator that was valid. -/
def parseIntegerEnd (grammar : StrtodSyntax) (memo now : ParseState × List UInt8) (groups run : Nat) :
    ParseState × List UInt8 :=
  if groups ≠ 0 ∧ grammar.groupSize ≠ 0 ∧ run ≠ grammar.groupSize.toNat then memo else now

def parseIntegerFrom (grammar : StrtodSyntax) (state : ParseState) (memo : ParseState × List UInt8)
    (groups run : Nat) :
    List UInt8 → ParseState × List UInt8
  | [] => parseIntegerEnd grammar memo (state, []) groups run
  | c :: rest =>
    if strtodIsDigit c then parseIntegerFrom grammar (addDigit state c false) memo groups
      (run + 1) rest
    else if grammar.grouping = 0 ∨ c ≠ grammar.grouping then
      parseIntegerEnd grammar memo (state, c :: rest) groups run
    else if run = 0 then parseIntegerEnd grammar memo (state, c :: rest) groups run
    else if ¬ (rest[0]?.any strtodIsDigit) then
      parseIntegerEnd grammar memo (state, c :: rest) groups run
    else if grammar.groupSize ≠ 0 ∧
        (if groups ≠ 0 then run ≠ grammar.groupSize.toNat else run > grammar.groupSize.toNat) then
      parseIntegerEnd grammar memo (state, c :: rest) groups run
    else parseIntegerFrom grammar state (state, c :: rest) (groups + 1) 0 rest

def parseInteger (grammar : StrtodSyntax) (state : ParseState) (text : List UInt8) :
    ParseState × List UInt8 :=
  parseIntegerFrom grammar state (state, text) 0 0 text

def parseFraction (state : ParseState) : List UInt8 → ParseState × List UInt8
  | [] => (state, [])
  | c :: rest =>
    if strtodIsDigit c then parseFraction (addDigit state c true) rest else (state, c :: rest)

/-- The digits of the exponent. The value is not increased any more when it is beyond the limit. -/
def parseExponentDigits (value : Nat) : List UInt8 → Nat × List UInt8
  | [] => (value, [])
  | c :: rest =>
    if strtodIsDigit c then
      parseExponentDigits (if value ≤ strtodExponentLimit then value * 10 + (c.toNat - 0x30)
        else value) rest
    else (value, c :: rest)

def parseExponent (grammar : StrtodSyntax) (text : List UInt8) : Int × List UInt8 :=
  if ¬ (text[0]?.any grammar.isExponentChar) then (0, text)
  else
    let behind := text.drop 1
    let plus := behind[0]? = some 0x2B ∧ grammar.flags.exponentPlus
    let minus := behind[0]? = some 0x2D ∧ grammar.flags.exponentMinus
    let digits := if plus ∨ minus then behind.drop 1 else behind
    if ¬ (digits[0]?.any strtodIsDigit) then (0, text)
    else
      let (value, rest) := parseExponentDigits 0 digits
      (if minus then -value else value, rest)

def parsePoint (grammar : StrtodSyntax) (state : ParseState) (text : List UInt8) :
    ParseState × List UInt8 :=
  if grammar.decimalPoint ≠ 0 ∧ text[0]? = some grammar.decimalPoint ∧
      (state.intCount ≠ 0 ∨ grammar.flags.emptyInteger) then
    let (state, rest) := parseFraction state (text.drop 1)
    if state.fracCount = 0 ∧ ¬ grammar.flags.emptyFraction then (state, text) else (state, rest)
  else (state, text)

def strtodClamp (exponent : Int) : Int :=
  if exponent > strtodExponentLimit then strtodExponentLimit
  else if exponent < -strtodExponentLimit then -strtodExponentLimit
  else exponent

def strtodParseNumber (grammar : StrtodSyntax) (sign : Bool) (start text : List UInt8) :
    DtostrDecimal × List UInt8 :=
  let (state, text) := parseInteger grammar ParseState.initial text
  let (state, text) := parsePoint grammar state text
  if state.intCount = 0 ∧ state.fracCount = 0 then (⟨0, 0, false, .invalid, 0, false⟩, start)
  else
    let (exponent, text) := parseExponent grammar text
    let exponent := strtodClamp (exponent + state.dropped - state.fracCount)
    if state.digits = 0 then (⟨0, 0, sign, .zero, 0, false⟩, text)
    else (⟨state.significand, exponent, sign, .normal, state.digits, state.truncated⟩, text)

/-- `mulle_strtod_parse`, with the characters up to `len`. What is behind the number is left over.
-/
def strtodParse (grammar : Option StrtodSyntax) (start : List UInt8) : DtostrDecimal × List UInt8 :=
  let grammar := grammar.getD strtodSyntaxMakeC
  let text := if grammar.flags.leadingWhitespace then start.dropWhile strtodIsSpace else start
  let minus := text[0]? = some 0x2D ∧ grammar.flags.minus
  let plus := text[0]? = some 0x2B ∧ grammar.flags.plus
  let text := if minus ∨ plus then text.drop 1 else text
  let (special, rest) := parseSpecial grammar text
  if special ≠ .normal then (⟨0, 0, decide minus, special, 0, false⟩, rest)
  else strtodParseNumber grammar (decide minus) start text

end Parse

end MulleCore
