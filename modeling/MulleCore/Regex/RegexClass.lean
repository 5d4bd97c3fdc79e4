import MulleCore.Utf.UtfStrspn

/-!
The `[...]` construct of `mulle-utf32regex.c`, compiled with `MULLE_UTF32REGEX_EXTENDED`. A
character is a code point, and a pointer into the pattern is the characters from there to the zero.
A failed compile is `none`.
-/

namespace MulleCore

open Library

section NamedClasses

structure UnicodePredicates where
  isAlphanumeric : Nat → Bool
  isAlphanumericplane : Nat → Bool
  isLetter : Nat → Bool
  isLetterplane : Nat → Bool
  isWhitespace : Nat → Bool
  isWhitespaceplane : Nat → Bool
  isControl : Nat → Bool
  isControlplane : Nat → Bool
  isDecimaldigit : Nat → Bool
  isDecimaldigitplane : Nat → Bool
  isIdentifierstart : Nat → Bool
  isIdentifierstartplane : Nat → Bool
  isIdentifiercontinuation : Nat → Bool
  isIdentifiercontinuationplane : Nat → Bool
  isLowercase : Nat → Bool
  isLowercaseplane : Nat → Bool
  isPunctuation : Nat → Bool
  isPunctuationplane : Nat → Bool
  isWhitespaceornewline : Nat → Bool
  isWhitespaceornewlineplane : Nat → Bool
  isUppercase : Nat → Bool
  isUppercaseplane : Nat → Bool

structure RegexNamedclass where
  name : List Nat
  member : Nat → Bool
  plane : Nat → Bool

variable (unicode : UnicodePredicates)

def regexIsWord (c : Nat) : Bool := unicode.isAlphanumeric c || c == 0x5f

def regexIsWordplane (plane : Nat) : Bool := plane == 0

def regexIsIdentifier (c : Nat) : Bool :=
  unicode.isIdentifierstart c || unicode.isIdentifiercontinuation c

def regexIsIdentifierplane (plane : Nat) : Bool :=
  unicode.isIdentifierstartplane plane || unicode.isIdentifiercontinuationplane plane

def regexIsXdigit (c : Nat) : Bool :=
  (0x30 ≤ c && c ≤ 0x39) || (0x61 ≤ c && c ≤ 0x66) || (0x41 ≤ c && c ≤ 0x46)

def regexIsXdigitplane (plane : Nat) : Bool := plane == 0

def codes (name : String) : List Nat := name.toList.map Char.toNat

def regexNamedclasses : List RegexNamedclass :=
  [⟨codes "alnum", unicode.isAlphanumeric, unicode.isAlphanumericplane⟩,
   ⟨codes "alpha", unicode.isLetter, unicode.isLetterplane⟩,
   ⟨codes "blank", unicode.isWhitespace, unicode.isWhitespaceplane⟩,
   ⟨codes "cntrl", unicode.isControl, unicode.isControlplane⟩,
   ⟨codes "digit", unicode.isDecimaldigit, unicode.isDecimaldigitplane⟩,
   ⟨codes "ident", regexIsIdentifier unicode, regexIsIdentifierplane unicode⟩,
   ⟨codes "identcont", unicode.isIdentifiercontinuation, unicode.isIdentifiercontinuationplane⟩,
   ⟨codes "identstart", unicode.isIdentifierstart, unicode.isIdentifierstartplane⟩,
   ⟨codes "lower", unicode.isLowercase, unicode.isLowercaseplane⟩,
   ⟨codes "punct", unicode.isPunctuation, unicode.isPunctuationplane⟩,
   ⟨codes "space", unicode.isWhitespaceornewline, unicode.isWhitespaceornewlineplane⟩,
   ⟨codes "upper", unicode.isUppercase, unicode.isUppercaseplane⟩,
   ⟨codes "word", regexIsWord unicode, regexIsWordplane⟩,
   ⟨codes "xdigit", regexIsXdigit, regexIsXdigitplane⟩]

def regexClassMember (i c : Nat) : Bool :=
  ((regexNamedclasses unicode)[i]?.map fun named => named.member c).getD false

def regexClassPlane (i plane : Nat) : Bool :=
  ((regexNamedclasses unicode)[i]?.map fun named => named.plane plane).getD false

end NamedClasses

section Members

def regexClassMaxParts : Nat := 8

def regexClassMaxLiterals : Nat := 256

def regexClassNameSize : Nat := 40

structure RegexClassstate where
  ascii : List Nat
  parts : List Nat
  literals : List Nat

inductive RegexClasssink where
  | node (code : List Nat)
  | state (cs : RegexClassstate)

def setAscii (ascii : List Nat) (c : Nat) : List Nat := ascii.modify (c / 32) (· ||| 2 ^ (c % 32))

def regexClassPut : RegexClasssink → Nat → Option RegexClasssink
  | .node code, c => some (.node (code ++ [c]))
  | .state cs, c =>
    if c < 256 then some (.state { cs with ascii := setAscii cs.ascii c })
    else if cs.literals.length ≥ regexClassMaxLiterals then none
    else some (.state { cs with literals := cs.literals ++ [c] })

def isAlnum (c : Nat) : Bool :=
  (0x30 ≤ c && c ≤ 0x39) || (0x41 ≤ c && c ≤ 0x5a) || (0x61 ≤ c && c ≤ 0x7a)

def regexEscape : Nat → Option Nat
  | 0x61 => some 0x07
  | 0x65 => some 0x1b
  | 0x66 => some 0x0c
  | 0x6e => some 0x0a
  | 0x72 => some 0x0d
  | 0x74 => some 0x09
  | 0x76 => some 0x0b
  | _ => none

def regexClassValue (c : Nat) (src : List Nat) : Option (Nat × List Nat) :=
  if c ≠ 0x5c then some (c, src)
  else
    match src with
    | [] => none
    | d :: src =>
      match regexEscape d with
      | some value => some (value, src)
      | none => if d < 128 ∧ isAlnum d then none else some (d, src)

/-- The loop that copies the name, whose characters become a `char`. -/
def regexClassName : Nat → List Nat → Option (List Nat × List Nat)
  | _, [] => some ([], [])
  | len, c :: src =>
    if c = 0x3a ∨ c = 0x5d then some ([], c :: src)
    else if len + 1 ≥ regexClassNameSize then none
    else (regexClassName (len + 1) src).map fun more => (c % 256 :: more.1, more.2)

def regexClassAddNamed (unicode : UnicodePredicates) (cs : RegexClassstate) (src : List Nat) :
    Option (RegexClassstate × List Nat) := do
  let (name, rest) ← regexClassName 0 src
  match rest with
  | 0x3a :: 0x5d :: src =>
    let i ← (regexNamedclasses unicode).findIdx? fun named => named.name == name.takeWhile (· != 0)
    if cs.parts.length ≥ regexClassMaxParts then none
    else some ({ cs with parts := cs.parts ++ [i] }, src)
  | _ => none

def regexClassPutRange (sink : RegexClasssink) (previous hi : Nat) : Option RegexClasssink :=
  (List.range' (previous + 1) (hi - previous)).foldlM regexClassPut sink

def RegexClasssink.names : RegexClasssink → Nat → List Nat → Option RegexClassstate
  | .node _, _, _ => none
  | .state cs, c, src => if c = 0x5b ∧ src.head? = some 0x3a then some cs else none

def regexClassMembersLoop (unicode : UnicodePredicates) :
    Nat → RegexClasssink → Option Nat → List Nat → Option (RegexClasssink × List Nat)
  | 0, _, _, _ => none
  | _ + 1, _, _, [] => none
  | fuel + 1, sink, previous, c :: src =>
    if c = 0x5d then some (sink, src)
    else
      match sink.names c src with
      | some cs => do
          let (cs, src) ← regexClassAddNamed unicode cs src.tail
          regexClassMembersLoop unicode fuel (.state cs) none src
      | none =>
        if c = 0x2d then
          if src.head? = none ∨ src.head? = some 0x5d then do
            let sink ← regexClassPut sink 0x2d
            regexClassMembersLoop unicode fuel sink (some 0x2d) src
          else do
            let previous ← previous
            let c ← src.head?
            let (hi, src) ← regexClassValue c src.tail
            if previous > hi then none
            else
              let sink ← regexClassPutRange sink previous hi
              regexClassMembersLoop unicode fuel sink (some hi) src
        else do
          let (value, src) ← regexClassValue c src
          let sink ← regexClassPut sink value
          regexClassMembersLoop unicode fuel sink (some value) src

def regexClassMembers (unicode : UnicodePredicates) (sink : RegexClasssink) :
    List Nat → Option (RegexClasssink × List Nat)
  | [] => none
  | c :: src =>
    if c = 0x5d ∨ c = 0x2d then do
      let sink ← regexClassPut sink c
      regexClassMembersLoop unicode (src.length + 1) sink (some c) src
    else regexClassMembersLoop unicode (src.length + 2) sink none (c :: src)

end Members

section Nodes

inductive RegexClassOpcode where
  | ANYOF
  | ANYBUT
  | ANYCLASS
deriving DecidableEq

structure RegexClassNode where
  opcode : RegexClassOpcode
  opnd : List Nat

def regexPlainClass (unicode : UnicodePredicates) (negated : Bool) (src : List Nat) :
    Option (RegexClassNode × List Nat) := do
  let (sink, src) ← regexClassMembers unicode (.node []) src
  match sink with
  | .node code => some (⟨if negated then .ANYBUT else .ANYOF, code ++ [0]⟩, src)
  | .state _ => none

def namedAscii (unicode : UnicodePredicates) (ascii parts : List Nat) : List Nat :=
  parts.foldl (fun ascii i =>
    (List.range 256).foldl (fun ascii j => if regexClassMember unicode i j then setAscii ascii j
      else ascii) ascii) ascii

def namedPlane (unicode : UnicodePredicates) (parts : List Nat) : Nat :=
  parts.foldl (fun plane i =>
    (List.range 0x11).foldl (fun plane j => if regexClassPlane unicode i j then plane ||| 2 ^ j
      else plane) plane) 0

def regexClassFlags (negated : Bool) (nparts : Nat) : Nat := negated.toNat ||| nparts <<< 8

def regexNamedClass (unicode : UnicodePredicates) (negated : Bool) (src : List Nat) :
    Option (RegexClassNode × List Nat) := do
  let (sink, src) ← regexClassMembers unicode (.state ⟨List.replicate 8 0, [], []⟩) src
  match sink with
  | .node _ => none
  | .state cs =>
    some (⟨.ANYCLASS, regexClassFlags negated cs.parts.length ::
      namedAscii unicode cs.ascii cs.parts ++
      (namedPlane unicode cs.parts :: cs.parts ++ cs.literals ++ [0])⟩, src)

def regexClassNames : List Nat → Bool
  | [] => false
  | [_] => false
  | c :: d :: src =>
    if c = 0x5d then false
    else if c = 0x5c then regexClassNames src
    else if c = 0x5b ∧ d = 0x3a then true
    else regexClassNames (d :: src)

def regexClassLookahead (src : List Nat) : Bool :=
  if src.head? = some 0x5e then regexClassNames src.tail else regexClassNames src

def regexClass (unicode : UnicodePredicates) (src : List Nat) : Option (RegexClassNode × List Nat) :=
  let negated := src.head? == some 0x5e
  let src := if negated then src.tail else src
  if regexClassLookahead src then regexNamedClass unicode negated src
    else regexPlainClass unicode negated src

end Nodes

section Match

def regexClassMatches (unicode : UnicodePredicates) (opnd : List Nat) (c : Nat) : Bool :=
  let nparts := opnd.getD 0 0 >>> 8 &&& 0xff
  if c < 256 then (opnd.getD (1 + c / 32) 0).testBit (c % 32)
  else if c ≥ 65536 ∧ !(opnd.getD 9 0).testBit (c / 65536) then false
  else ((opnd.drop 10).take nparts).any (fun i => regexClassMember unicode i c) ||
    ((opnd.drop (10 + nparts)).takeWhile (· != 0)).contains c

def utf32Strchr (s : List Nat) (c : Nat) : Bool := (s.takeWhile (· != 0)).contains c

/-- One step of `regex_match`: whether the node takes the character, which is not the zero. -/
def regexMatchNode (unicode : UnicodePredicates) (node : RegexClassNode) (c : Nat) : Bool :=
  match node.opcode with
  | .ANYOF => utf32Strchr node.opnd c
  | .ANYBUT => !utf32Strchr node.opnd c
  | .ANYCLASS =>
    let member := regexClassMatches unicode node.opnd c
    if node.opnd.getD 0 0 &&& 1 ≠ 0 then !member else member

def units32 (text : List Nat) : List Int32 := text.map Int32.ofNat

def regexRepeat (unicode : UnicodePredicates) (node : RegexClassNode) (text : List Nat) :
    Option Nat :=
  match node.opcode with
  | .ANYOF => utf32Strspn (units32 (text ++ [0])) (units32 node.opnd)
  | .ANYBUT => utf32Strcspn (units32 (text ++ [0])) (units32 node.opnd)
  | .ANYCLASS => some (text.takeWhile (regexMatchNode unicode node)).length

end Match

end MulleCore
