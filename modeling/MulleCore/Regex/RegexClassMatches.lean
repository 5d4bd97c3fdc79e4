import Mathlib.Data.List.TakeWhile
import MulleCore.Regex.RegexClass

/-!
What a bracket expression means, and which characters its node takes.
-/

namespace MulleCore

open Library

section Grammar

variable {src rest : List Nat}

inductive ClassItem where
  | literal (c : Nat)
  | range (lo hi : Nat)
  | named (i : Nat)

inductive ClassValue : List Nat → Nat → List Nat → Prop where
  | plain {c : Nat} {src : List Nat} (ordinary : c ≠ 0x5c) : ClassValue (c :: src) c src
  | control {d value : Nat} {src : List Nat} (escape : regexEscape d = some value) :
      ClassValue (0x5c :: d :: src) value src
  | quoted {d : Nat} {src : List Nat} (other : regexEscape d = none)
      (symbol : ¬ (d < 128 ∧ isAlnum d)) :
      ClassValue (0x5c :: d :: src) d src

/-- The members up to the `]`. A range begins with the member in front of the `-`. -/
inductive ClassText (names : List (List Nat)) : Option Nat → List Nat → List ClassItem →
    List Nat → Prop where
  | close {previous : Option Nat} {rest : List Nat} : ClassText names previous (0x5d :: rest) [] rest
  | named {previous : Option Nat} {name src rest : List Nat} {i : Nat} {items : List ClassItem}
      (known : names[i]? = some name) (text : ClassText names none src items rest) :
      ClassText names previous (0x5b :: 0x3a :: (name ++ 0x3a :: 0x5d :: src))
        (.named i :: items) rest
  | hyphen {previous : Option Nat} {src rest : List Nat} {items : List ClassItem}
      (text : ClassText names (some 0x2d) (0x5d :: src) items rest) :
      ClassText names previous (0x2d :: 0x5d :: src) (.literal 0x2d :: items) rest
  | range {lo hi : Nat} {src more rest : List Nat} {items : List ClassItem}
      (notLast : src.head? ≠ some 0x5d)
      (value : ClassValue src hi more) (order : lo ≤ hi)
      (text : ClassText names (some hi) more items rest) :
      ClassText names (some lo) (0x2d :: src) (.range lo hi :: items) rest
  | literal {previous : Option Nat} {c value : Nat} {src more rest : List Nat}
      {items : List ClassItem}
      (notLast : c ≠ 0x5d) (notHyphen : c ≠ 0x2d) (notName : ¬ (c = 0x5b ∧ src.head? = some 0x3a))
      (written : ClassValue (c :: src) value more)
      (text : ClassText names (some value) more items rest) :
      ClassText names previous (c :: src) (.literal value :: items) rest

inductive ClassMembers (names : List (List Nat)) : List Nat → List ClassItem → List Nat → Prop where
  | leading {c : Nat} {src rest : List Nat} {items : List ClassItem} (isLeading : c = 0x5d ∨ c = 0x2d)
      (text : ClassText names (some c) src items rest) :
      ClassMembers names (c :: src) (.literal c :: items) rest
  | others {c : Nat} {src rest : List Nat} {items : List ClassItem}
      (notLeading : ¬ (c = 0x5d ∨ c = 0x2d))
      (text : ClassText names none (c :: src) items rest) : ClassMembers names (c :: src) items rest

/-- What is behind the `[`, with the members and what follows the `]`. A `[:` begins a name wherever
it stands, so `[][:x]` is left out, which compiles to the characters `]`, `[`, `:` and `x`. -/
inductive BracketExpression (names : List (List Nat)) : List Nat → Bool → List ClassItem →
    List Nat → Prop where
  | negated {src rest : List Nat} {items : List ClassItem}
      (members : ClassMembers names src items rest) :
      BracketExpression names (0x5e :: src) true items rest
  | plain {src rest : List Nat} {items : List ClassItem} (notNegated : src.head? ≠ some 0x5e)
      (members : ClassMembers names src items rest) : BracketExpression names src false items rest

def LiteralMember (items : List ClassItem) (c : Nat) : Prop :=
  ClassItem.literal c ∈ items ∨ ∃ lo hi, ClassItem.range lo hi ∈ items ∧ lo ≤ c ∧ c ≤ hi

def ClassItem.part : ClassItem → Option Nat
  | .named i => some i
  | _ => none

def namedParts (items : List ClassItem) : List Nat := items.filterMap ClassItem.part

def IsMember (unicode : UnicodePredicates) (items : List ClassItem) (c : Nat) : Prop :=
  LiteralMember items c ∨ ∃ i ∈ namedParts items, regexClassMember unicode i c = true

theorem classValue_iff {c value : Nat} :
    ClassValue (c :: src) value rest ↔ regexClassValue c src = some (value, rest) := by
  constructor
  · intro written
    cases written with
    | plain ordinary => rw [regexClassValue.eq_def, if_pos ordinary]
    | control escape =>
      rw [regexClassValue.eq_def, if_neg (not_not.mpr rfl)]
      simp only [escape]
    | quoted other symbol =>
      rw [regexClassValue.eq_def, if_neg (not_not.mpr rfl)]
      simp only [other, if_neg symbol]
  · intro found
    rw [regexClassValue.eq_def] at found
    split at found
    next ordinary =>
      obtain ⟨rfl, rfl⟩ := Prod.mk.inj (Option.some.inj found)
      exact .plain ordinary
    next escaped =>
      obtain rfl := not_not.mp escaped
      split at found
      next => simp at found
      next d src =>
        split at found
        next value escape =>
          obtain ⟨rfl, rfl⟩ := Prod.mk.inj (Option.some.inj found)
          exact .control escape
        next other =>
          split at found
          next => simp at found
          next symbol =>
            obtain ⟨rfl, rfl⟩ := Prod.mk.inj (Option.some.inj found)
            exact .quoted other symbol

theorem ClassValue.shorter {value : Nat} (written : ClassValue src value rest) :
    rest.length < src.length := by
  cases written with
  | plain => simp
  | control =>
    simp only [List.length_cons]
    omega
  | quoted =>
    simp only [List.length_cons]
    omega

theorem ClassText.shorter {names : List (List Nat)} {previous : Option Nat} {items : List ClassItem}
    (text : ClassText names previous src items rest) : rest.length < src.length := by
  induction text with
  | close => simp
  | named _ _ ih =>
    simp only [List.length_cons, List.length_append]
    omega
  | hyphen _ ih => exact Nat.lt_succ_of_lt ih
  | range _ value _ _ ih =>
    have shorter := value.shorter
    rw [List.length_cons]
    omega
  | literal _ _ _ written _ ih =>
    have shorter := written.shorter
    omega

theorem literalMember_cons (item : ClassItem) (items : List ClassItem) (c : Nat) :
    LiteralMember (item :: items) c ↔ LiteralMember [item] c ∨ LiteralMember items c := by
  simp only [LiteralMember, List.mem_cons, List.not_mem_nil, or_false]
  constructor
  · rintro ((same | member) | ⟨lo, hi, same | member, inside⟩)
    · exact Or.inl (Or.inl same)
    · exact Or.inr (Or.inl member)
    · exact Or.inl (Or.inr ⟨lo, hi, same, inside⟩)
    · exact Or.inr (Or.inr ⟨lo, hi, member, inside⟩)
  · rintro ((same | ⟨lo, hi, same, inside⟩) | (member | ⟨lo, hi, member, inside⟩))
    · exact Or.inl (Or.inl same)
    · exact Or.inr ⟨lo, hi, Or.inl same, inside⟩
    · exact Or.inl (Or.inr member)
    · exact Or.inr ⟨lo, hi, Or.inr member, inside⟩

@[simp] theorem namedParts_nil : namedParts [] = [] := rfl

@[simp] theorem namedParts_literal (c : Nat) (items : List ClassItem) :
    namedParts (.literal c :: items) = namedParts items := rfl

@[simp] theorem namedParts_range (lo hi : Nat) (items : List ClassItem) :
    namedParts (.range lo hi :: items) = namedParts items := rfl

@[simp] theorem namedParts_named (i : Nat) (items : List ClassItem) :
    namedParts (.named i :: items) = i :: namedParts items := rfl

@[simp] theorem literalMember_nil (c : Nat) : LiteralMember [] c ↔ False := by simp [LiteralMember]

@[simp] theorem literalMember_literal (d c : Nat) : LiteralMember [.literal d] c ↔ c = d := by
  simp [LiteralMember]

@[simp] theorem literalMember_range (lo hi c : Nat) : LiteralMember [.range lo hi] c ↔
    lo ≤ c ∧ c ≤ hi := by
  simp [LiteralMember]

@[simp] theorem literalMember_named (i c : Nat) : LiteralMember [.named i] c ↔ False := by
  simp [LiteralMember]

end Grammar

section Sinks

variable {sink after : RegexClasssink}

def RegexClasssink.Holds : RegexClasssink → Nat → Prop
  | .node code, c => c ∈ code
  | .state cs, c =>
    if c < 256 then (cs.ascii.getD (c / 32) 0).testBit (c % 32) = true else c ∈ cs.literals

def RegexClasssink.parts : RegexClasssink → List Nat
  | .node _ => []
  | .state cs => cs.parts

def RegexClasssink.isState : RegexClasssink → Bool
  | .node _ => false
  | .state _ => true

def RegexClasssink.Proper : RegexClasssink → Prop
  | .node _ => True
  | .state cs =>
    cs.ascii.length = 8 ∧ cs.parts.length ≤ regexClassMaxParts ∧ ∀ c ∈ cs.literals, 256 ≤ c

structure RegexClasssink.Extends (sink after : RegexClasssink) (items : List ClassItem) : Prop where
  proper : after.Proper
  kind : after.isState = sink.isState
  holds : ∀ c, after.Holds c ↔ sink.Holds c ∨ LiteralMember items c
  parts : after.parts = sink.parts ++ namedParts items

theorem RegexClasssink.Extends.trans {between : RegexClasssink} {item : ClassItem}
    {items : List ClassItem} (first : sink.Extends between [item])
    (second : between.Extends after items) : sink.Extends after (item :: items) where
  proper := second.proper
  kind := second.kind.trans first.kind
  holds c := by rw [second.holds, first.holds, literalMember_cons item items, or_assoc]
  parts := by
    rw [second.parts, first.parts, List.append_assoc, namedParts, namedParts, namedParts,
      ← List.filterMap_append]
    rfl

theorem setAscii_testBit {ascii : List Nat} (sized : ascii.length = 8) {d : Nat} (small : d < 256)
    (c : Nat) :
    ((setAscii ascii d).getD (c / 32) 0).testBit (c % 32) = true ↔
      (ascii.getD (c / 32) 0).testBit (c % 32) = true ∨ c = d := by
  have same : c = d ↔ d / 32 = c / 32 ∧ d % 32 = c % 32 := by omega
  rw [same, setAscii, List.getD_eq_getElem?_getD, List.getD_eq_getElem?_getD, List.getElem?_modify]
  by_cases word : d / 32 = c / 32
  · have inside : c / 32 < ascii.length := by omega
    simp [word, List.getElem?_eq_getElem inside, Nat.testBit_two_pow]
  · simp [word]

theorem setAscii_length (ascii : List Nat) (c : Nat) : (setAscii ascii c).length = ascii.length :=
  List.length_modify ..

theorem regexClassPut_extends {c : Nat} (proper : sink.Proper)
    (puts : regexClassPut sink c = some after) : sink.Extends after [.literal c] := by
  cases sink with
  | node code =>
    obtain rfl := Option.some.inj puts
    exact ⟨trivial, rfl, fun d => by simp [RegexClasssink.Holds], by simp [RegexClasssink.parts]⟩
  | state cs =>
    obtain ⟨sized, fewParts, large⟩ := proper
    rw [regexClassPut] at puts
    split at puts
    next small =>
      obtain rfl := Option.some.inj puts
      refine ⟨⟨(setAscii_length _ _).trans sized, fewParts, large⟩, rfl,
        ?_, by simp [RegexClasssink.parts]⟩
      intro d
      rw [literalMember_literal, RegexClasssink.Holds, RegexClasssink.Holds]
      by_cases isAscii : d < 256
      · rw [if_pos isAscii, if_pos isAscii, setAscii_testBit sized small]
      · rw [if_neg isAscii, if_neg isAscii]
        exact (or_iff_left (by omega)).symm
    next notAscii =>
      split at puts
      next => simp at puts
      next =>
        obtain rfl := Option.some.inj puts
        refine ⟨⟨sized, fewParts, ?_⟩, rfl, ?_, by simp [RegexClasssink.parts]⟩
        · intro d member
          rw [List.mem_append, List.mem_singleton] at member
          rcases member with member | rfl
          · exact large d member
          · omega
        · intro d
          rw [literalMember_literal, RegexClasssink.Holds, RegexClasssink.Holds]
          by_cases isAscii : d < 256
          · rw [if_pos isAscii, if_pos isAscii]
            exact (or_iff_left (by omega)).symm
          · rw [if_neg isAscii, if_neg isAscii, List.mem_append, List.mem_singleton]

theorem regexClassPutRange_extends {lo hi : Nat} (proper : sink.Proper)
    (held : sink.Holds lo) (order : lo ≤ hi) (puts : regexClassPutRange sink lo hi = some after) :
    sink.Extends after [.range lo hi] := by
  have all : ∀ (members : List Nat) (sink : RegexClasssink), sink.Proper →
      members.foldlM regexClassPut sink = some after → after.Proper ∧ after.isState = sink.isState ∧
        (∀ c, after.Holds c ↔ sink.Holds c ∨ c ∈ members) ∧ after.parts = sink.parts := by
    intro members
    induction members with
    | nil =>
      intro sink proper puts
      obtain rfl := Option.some.inj puts
      exact ⟨proper, rfl, by simp, rfl⟩
    | cons d members ih =>
      intro sink proper puts
      rw [List.foldlM_cons] at puts
      obtain ⟨between, put, rest⟩ := Option.bind_eq_some_iff.mp puts
      have extended := regexClassPut_extends proper put
      obtain ⟨afterProper, kind, holds, parts⟩ := ih between extended.proper rest
      refine ⟨afterProper, kind.trans extended.kind, ?_, ?_⟩
      · intro c
        rw [holds, extended.holds, literalMember_literal, List.mem_cons, or_assoc]
      · rw [parts, extended.parts]
        simp
  obtain ⟨afterProper, kind, holds, parts⟩ := all _ sink proper puts
  refine ⟨afterProper, kind, ?_, by simp [parts]⟩
  intro c
  rw [holds, literalMember_range, List.mem_range'_1]
  constructor
  · rintro (member | inside)
    · exact Or.inl member
    · exact Or.inr (by omega)
  · rintro (member | inside)
    · exact Or.inl member
    · rcases Nat.lt_or_eq_of_le inside.1 with later | rfl
      · exact Or.inr (by omega)
      · exact Or.inl held

theorem addPart_extends {cs : RegexClassstate} (proper : RegexClasssink.Proper (.state cs))
    (room : cs.parts.length < regexClassMaxParts) (i : Nat) :
    RegexClasssink.Extends (.state cs) (.state { cs with parts := cs.parts ++ [i] }) [.named i] := by
  obtain ⟨sized, _, large⟩ := proper
  refine ⟨⟨sized, ?_, large⟩, rfl, ?_, rfl⟩
  · rw [List.length_append]
    exact room
  · simp [RegexClasssink.Holds]

end Sinks

section Names

variable {i : Nat} {name : List Nat}

def regexNames : List (List Nat) :=
  ["alnum", "alpha", "blank", "cntrl", "digit", "ident", "identcont", "identstart", "lower",
    "punct", "space", "upper", "word", "xdigit"].map codes

theorem regexNamedclasses_names (unicode : UnicodePredicates) :
    (regexNamedclasses unicode).map RegexNamedclass.name = regexNames := rfl

theorem regexNames_letters (known : regexNames[i]? = some name) :
    name.length < 11 ∧ ∀ c ∈ name, c ≠ 0x3a ∧ c ≠ 0x5d ∧ c ≠ 0 ∧ c < 256 := by
  have all : regexNames.all (fun name => name.length < 11 && name.all fun c => c != 0x3a && c !=
    0x5d && c != 0 && c < 256) =
      true := by decide
  have here := List.all_eq_true.mp all name (List.mem_of_getElem? known)
  simp only [Bool.and_eq_true, decide_eq_true_eq, List.all_eq_true, bne_iff_ne] at here
  exact ⟨here.1, fun c member => ⟨(here.2 c member).1.1.1, (here.2 c member).1.1.2,
    (here.2 c member).1.2, (here.2 c member).2⟩⟩

theorem regexNames_findIdx (known : regexNames[i]? = some name) :
    regexNames.findIdx? (fun other => other == name) = some i := by
  have inside := (List.getElem?_eq_some_iff.mp known).1
  have all : ∀ i < regexNames.length,
    regexNames.findIdx? (fun other => other == regexNames.getD i []) = some i := by decide
  have here := all i inside
  rwa [List.getD_eq_getElem?_getD, known, Option.getD_some] at here

theorem regexClassName_copies (letters : ∀ c ∈ name, c ≠ 0x3a ∧ c ≠ 0x5d ∧ c ≠ 0 ∧ c < 256)
    (behind : List Nat) {len : Nat} (short : len + name.length < regexClassNameSize) :
    regexClassName len (name ++ 0x3a :: behind) = some (name, 0x3a :: behind) := by
  induction name generalizing len with
  | nil => simp [regexClassName]
  | cons c name ih =>
    obtain ⟨notColon, notLast, _, small⟩ := letters c (by simp)
    rw [List.length_cons] at short
    have rest := ih (fun d member => letters d (List.mem_cons_of_mem c member))
      (by omega : len + 1 + name.length < _)
    rw [List.cons_append, regexClassName, if_neg (by simp [notColon, notLast]), if_neg (by omega),
      rest, Option.map_some, Nat.mod_eq_of_lt small]

theorem regexClassAddNamed_adds {unicode : UnicodePredicates} {cs after : RegexClassstate}
    {src rest : List Nat} (known : regexNames[i]? = some name)
    (adds : regexClassAddNamed unicode cs (name ++ 0x3a :: 0x5d :: src) = some (after, rest)) :
    rest = src ∧ cs.parts.length < regexClassMaxParts ∧
    after = { cs with parts := cs.parts ++ [i] } := by
  obtain ⟨short, letters⟩ := regexNames_letters known
  have copied := regexClassName_copies letters (0x5d :: src)
    (by rw [regexClassNameSize]; omega : 0 + name.length < _)
  have whole : name.takeWhile (fun c => c != 0) = name := by
    rw [List.takeWhile_eq_self_iff]
    intro c member
    exact bne_iff_ne.mpr (letters c member).2.2.1
  have found : (regexNamedclasses unicode).findIdx? (fun named => named.name == name) = some i := by
    have mapped := regexNames_findIdx known
    rw [← regexNamedclasses_names unicode, List.findIdx?_map] at mapped
    exact mapped
  rw [regexClassAddNamed, copied, Option.bind_eq_bind, Option.bind_some] at adds
  simp only [whole, found] at adds
  split at adds
  next => simp at adds
  next room =>
    obtain ⟨rfl, rfl⟩ := Prod.mk.inj (Option.some.inj adds)
    exact ⟨rfl, Nat.lt_of_not_le room, rfl⟩

end Names

section Loop

variable {unicode : UnicodePredicates}
variable {sink : RegexClasssink} {c : Nat} {src more : List Nat} {previous : Option Nat}
  {rest : List Nat} {items : List ClassItem} {fuel : Nat} {after : RegexClasssink}
  {left front code : List Nat}

theorem RegexClasssink.names_none
    (notName : sink.isState = true → ¬ (c = 0x5b ∧ src.head? = some 0x3a)) :
    sink.names c src = none := by
  cases sink with
  | node code => rfl
  | state cs => exact if_neg (notName rfl)

theorem regexClassMembersLoop_hyphen (fuel : Nat) (sink : RegexClasssink) (previous : Option Nat)
    (src : List Nat) :
    regexClassMembersLoop unicode (fuel + 1) sink previous (0x2d :: 0x5d :: src) =
      (regexClassPut sink 0x2d).bind fun sink => regexClassMembersLoop unicode fuel sink (some 0x2d)
    (0x5d :: src) := by
  rw [regexClassMembersLoop, if_neg (by decide), RegexClasssink.names_none (by simp)]
  dsimp only
  rw [if_pos rfl, List.head?_cons, if_pos (Or.inr rfl)]
  rfl

theorem regexClassMembersLoop_range (fuel : Nat) (sink : RegexClasssink) {lo hi : Nat}
    (notLast : src.head? ≠ some 0x5d) (value : ClassValue src hi more) (order : lo ≤ hi) :
    regexClassMembersLoop unicode (fuel + 1) sink (some lo) (0x2d :: src) =
      (regexClassPutRange sink lo hi).bind fun sink => regexClassMembersLoop unicode fuel sink
    (some hi) more := by
  obtain ⟨c, src, rfl⟩ :=
    List.exists_cons_of_length_pos (Nat.lt_of_le_of_lt (Nat.zero_le _) value.shorter)
  rw [regexClassMembersLoop, if_neg (by decide), RegexClasssink.names_none (by simp)]
  dsimp only
  rw [if_pos rfl, if_neg (by simpa using notLast)]
  simp only [List.head?_cons, List.tail_cons, Option.bind_eq_bind, Option.bind_some,
    classValue_iff.mp value, if_neg (Nat.not_lt.mpr order)]

theorem regexClassMembersLoop_literal (fuel : Nat) (sink : RegexClasssink) (previous : Option Nat)
    {value : Nat} (notLast : c ≠ 0x5d) (notHyphen : c ≠ 0x2d)
    (notName : ¬ (c = 0x5b ∧ src.head? = some 0x3a)) (written : ClassValue (c :: src) value more) :
    regexClassMembersLoop unicode (fuel + 1) sink previous (c :: src) =
      (regexClassPut sink value).bind fun sink => regexClassMembersLoop unicode fuel sink
    (some value) more := by
  rw [regexClassMembersLoop, if_neg notLast, RegexClasssink.names_none (fun _ => notName)]
  dsimp only
  rw [if_neg notHyphen, classValue_iff.mp written, Option.bind_eq_bind, Option.bind_some]
  rfl

theorem regexClassMembersLoop_adds (text : ClassText regexNames previous src items rest)
    (runs : regexClassMembersLoop unicode fuel sink previous src = some (after, left))
    (proper : sink.Proper) (held : ∀ lo, previous = some lo → sink.Holds lo)
    (mode : sink.isState = true ∨ namedParts items = []) :
    left = rest ∧ sink.Extends after items := by
  induction text generalizing fuel sink with
  | close =>
    cases fuel with
    | zero => simp [regexClassMembersLoop] at runs
    | succ fuel =>
      rw [regexClassMembersLoop, if_pos rfl] at runs
      obtain ⟨rfl, rfl⟩ := Prod.mk.inj (Option.some.inj runs)
      exact ⟨rfl, proper, rfl, by simp, by simp⟩
  | @named previous name src rest i items known text ih =>
    cases fuel with
    | zero => simp [regexClassMembersLoop] at runs
    | succ fuel =>
      cases sink with
      | node code => simp [RegexClasssink.isState] at mode
      | state cs =>
        rw [regexClassMembersLoop, if_neg (by decide), RegexClasssink.names,
          if_pos ⟨rfl, rfl⟩] at runs
        obtain ⟨⟨added, src⟩, adds, runs⟩ := Option.bind_eq_some_iff.mp runs
        obtain ⟨rfl, room, rfl⟩ := regexClassAddNamed_adds known adds
        have first := addPart_extends proper room i
        obtain ⟨ended, second⟩ := ih runs first.proper (by simp) (Or.inl rfl)
        exact ⟨ended, first.trans second⟩
  | hyphen text ih =>
    cases fuel with
    | zero => simp [regexClassMembersLoop] at runs
    | succ fuel =>
      rw [regexClassMembersLoop_hyphen] at runs
      obtain ⟨between, puts, runs⟩ := Option.bind_eq_some_iff.mp runs
      have first := regexClassPut_extends proper puts
      have holds : ∀ lo, some 0x2d = some lo → between.Holds lo := by
        rintro lo same
        obtain rfl := Option.some.inj same
        exact (first.holds _).mpr (Or.inr (by simp))
      obtain ⟨ended, second⟩ := ih runs first.proper holds (by rw [first.kind]; exact mode)
      exact ⟨ended, first.trans second⟩
  | @range first hi src more rest items notLast value order text ih =>
    cases fuel with
    | zero => simp [regexClassMembersLoop] at runs
    | succ fuel =>
      rw [regexClassMembersLoop_range fuel sink notLast value order] at runs
      obtain ⟨between, puts, runs⟩ := Option.bind_eq_some_iff.mp runs
      have added := regexClassPutRange_extends proper (held _ rfl) order puts
      have holds : ∀ lo, some hi = some lo → between.Holds lo := by
        rintro lo same
        obtain rfl := Option.some.inj same
        exact (added.holds _).mpr (Or.inr (by simpa using order))
      obtain ⟨ended, second⟩ := ih runs added.proper holds (by rw [added.kind]; exact mode)
      exact ⟨ended, added.trans second⟩
  | @literal previous c value src more rest items notLast notHyphen notName written text ih =>
    cases fuel with
    | zero => simp [regexClassMembersLoop] at runs
    | succ fuel =>
      rw [regexClassMembersLoop_literal fuel sink previous notLast notHyphen notName written] at runs
      obtain ⟨between, puts, runs⟩ := Option.bind_eq_some_iff.mp runs
      have first := regexClassPut_extends proper puts
      have holds : ∀ lo, some value = some lo → between.Holds lo := by
        rintro lo same
        obtain rfl := Option.some.inj same
        exact (first.holds _).mpr (Or.inr (by simp))
      obtain ⟨ended, second⟩ := ih runs first.proper holds (by rw [first.kind]; exact mode)
      exact ⟨ended, first.trans second⟩

/-- Up to a `]` that cannot be part of an escape or a range, because of the `:` in front of it. -/
structure UpToColon (front : List Nat) : Prop where
  inside : ∀ c ∈ front, c ≠ 0x5d
  colon : front = [] ∨ front.getLast? = some 0x3a

theorem UpToColon.tail (upTo : UpToColon (c :: front)) : UpToColon front := by
  constructor
  · exact fun d member => upTo.inside d (List.mem_cons_of_mem c member)
  · rcases upTo.colon with empty | last
    · simp at empty
    · rcases List.eq_nil_or_concat front with empty | ⟨before, d, rfl⟩
      · exact Or.inl empty
      · right
        rw [List.concat_eq_append, ← List.cons_append, List.getLast?_concat] at last
        rw [List.concat_eq_append, List.getLast?_concat, last]

theorem UpToColon.cons (upTo : UpToColon (c :: front)) (notColon : c ≠ 0x3a) :
    ∃ d more, front = d :: more := by
  cases front with
  | nil =>
    rcases upTo.colon with empty | last
    · simp at empty
    · exact absurd (by simpa using last) notColon
  | cons d more => exact ⟨d, more, rfl⟩

theorem UpToColon.value {value : Nat} {tail : List Nat} (upTo : UpToColon (c :: front))
    (found : regexClassValue c (front ++ 0x5d :: tail) = some (value, rest)) :
    ∃ more, rest = more ++ 0x5d :: tail ∧ UpToColon more := by
  have written := classValue_iff.mpr found
  generalize whole : c :: (front ++ 0x5d :: tail) = src at written
  cases written with
  | plain =>
    obtain ⟨_, rfl⟩ := List.cons.inj whole
    exact ⟨front, rfl, upTo.tail⟩
  | control =>
    obtain ⟨rfl, same⟩ := List.cons.inj whole
    obtain ⟨d, more, rfl⟩ := upTo.cons (by decide)
    obtain ⟨_, rfl⟩ := List.cons.inj same
    exact ⟨more, rfl, upTo.tail.tail⟩
  | quoted =>
    obtain ⟨rfl, same⟩ := List.cons.inj whole
    obtain ⟨d, more, rfl⟩ := upTo.cons (by decide)
    obtain ⟨_, rfl⟩ := List.cons.inj same
    exact ⟨more, rfl, upTo.tail.tail⟩

theorem regexClassPutRange_node (code : List Nat) (lo hi : Nat) :
    ∃ more, regexClassPutRange (.node code) lo hi = some (.node more) := by
  rw [regexClassPutRange]
  generalize List.range' (lo + 1) (hi - lo) = members
  induction members generalizing code with
  | nil => exact ⟨code, rfl⟩
  | cons d members ih => exact ih (code ++ [d])

theorem regexClassMembersLoop_ends {tail : List Nat} (upTo : UpToColon front)
    (runs : regexClassMembersLoop unicode fuel (.node code) previous (front ++ 0x5d :: tail) =
      some (after, left)) :
    left = tail := by
  induction fuel generalizing front previous code with
  | zero => simp [regexClassMembersLoop] at runs
  | succ fuel ih =>
    cases front with
    | nil =>
      rw [List.nil_append, regexClassMembersLoop, if_pos rfl] at runs
      exact (Prod.mk.inj (Option.some.inj runs)).2.symm
    | cons c front =>
      have notLast := upTo.inside c (by simp)
      rw [List.cons_append, regexClassMembersLoop, if_neg notLast] at runs
      dsimp only [RegexClasssink.names] at runs
      split at runs
      next hyphen =>
        obtain ⟨d, more, rfl⟩ := upTo.cons (by rw [hyphen]; decide)
        have notEnd : d ≠ 0x5d := upTo.inside d (by simp)
        rw [if_neg (by simp [notEnd])] at runs
        obtain ⟨lo, _, runs⟩ := Option.bind_eq_some_iff.mp runs
        simp only [List.cons_append, List.head?_cons, List.tail_cons, Option.bind_eq_bind,
          Option.bind_some] at runs
        obtain ⟨⟨hi, rest⟩, value, runs⟩ := Option.bind_eq_some_iff.mp runs
        obtain ⟨later, rfl, upToLater⟩ := upTo.tail.value value
        dsimp only at runs
        split at runs
        next => simp at runs
        next =>
          obtain ⟨added, puts⟩ := regexClassPutRange_node code lo hi
          rw [puts, Option.bind_some] at runs
          exact ih upToLater runs
      next =>
        obtain ⟨⟨value, rest⟩, found, runs⟩ := Option.bind_eq_some_iff.mp runs
        obtain ⟨later, rfl, upToLater⟩ := upTo.value found
        exact ih upToLater runs

theorem regexClassMembersLoop_early
    (text : ClassText regexNames previous src items rest) (named : namedParts items ≠ [])
    (runs : regexClassMembersLoop unicode fuel (.node code) previous src = some (after, left)) :
    rest.length < left.length := by
  induction text generalizing fuel code with
  | close => simp at named
  | @named previous name src rest i items known text ih =>
    obtain ⟨_, letters⟩ := regexNames_letters known
    have upTo : UpToColon (0x5b :: 0x3a :: (name ++ [0x3a])) := by
      constructor
      · intro c member
        simp only [List.mem_cons, List.mem_append, List.not_mem_nil, or_false] at member
        rcases member with rfl | rfl | member | rfl
        · decide
        · decide
        · exact (letters c member).2.1
        · decide
      · right
        rw [← List.cons_append, ← List.cons_append, List.getLast?_concat]
    have split : 0x5b :: 0x3a :: (name ++ 0x3a :: 0x5d :: src) =
      (0x5b :: 0x3a :: (name ++ [0x3a])) ++ 0x5d :: src := by simp
    rw [split] at runs
    rw [regexClassMembersLoop_ends upTo runs]
    exact text.shorter
  | hyphen text ih =>
    cases fuel with
    | zero => simp [regexClassMembersLoop] at runs
    | succ fuel =>
      rw [regexClassMembersLoop_hyphen] at runs
      exact ih named runs
  | @range first hi src more rest items notLast value order text ih =>
    cases fuel with
    | zero => simp [regexClassMembersLoop] at runs
    | succ fuel =>
      obtain ⟨added, puts⟩ := regexClassPutRange_node code first hi
      rw [regexClassMembersLoop_range fuel _ notLast value order, puts] at runs
      exact ih named runs
  | @literal previous c value src more rest items notLast notHyphen notName written text ih =>
    cases fuel with
    | zero => simp [regexClassMembersLoop] at runs
    | succ fuel =>
      rw [regexClassMembersLoop_literal fuel _ previous notLast notHyphen notName written] at runs
      exact ih named runs

theorem regexClassNames_value {value : Nat} (written : ClassValue src value more)
    (notLast : src.head? ≠ some 0x5d) (later : regexClassNames more = true) :
    regexClassNames src = true := by
  cases written with
  | plain ordinary =>
    cases more with
    | nil => simp [regexClassNames] at later
    | cons d more =>
      rw [regexClassNames, if_neg (by simpa using notLast), if_neg ordinary]
      split
      next => rfl
      next => exact later
  | control => exact later
  | quoted => exact later

theorem regexClassNames_text
    (text : ClassText regexNames previous src items rest) (named : namedParts items ≠ []) :
    regexClassNames src = true := by
  induction text with
  | close => simp at named
  | named => rfl
  | hyphen text ih =>
    cases text with
    | close => simp at named
    | literal notLast => exact absurd rfl notLast
  | @range first hi src more rest items notLast value order text ih =>
    have later := regexClassNames_value value notLast (ih named)
    cases src with
    | nil => simp [regexClassNames] at later
    | cons d src =>
      rw [regexClassNames, if_neg (by decide), if_neg (by decide), if_neg (by simp)]
      exact later
  | literal notLast notHyphen notName written text ih =>
    exact regexClassNames_value written (by simpa using notLast) (ih named)

section

variable (members : ClassMembers regexNames src items rest)
include members

theorem ClassMembers.adds (runs : regexClassMembers unicode sink src = some (after, left))
    (proper : sink.Proper) (mode : sink.isState = true ∨ namedParts items = []) :
    left = rest ∧ sink.Extends after items := by
  cases members with
  | leading isLeading text =>
    rw [regexClassMembers, if_pos isLeading] at runs
    obtain ⟨between, puts, runs⟩ := Option.bind_eq_some_iff.mp runs
    have first := regexClassPut_extends proper puts
    obtain ⟨ended, second⟩ := regexClassMembersLoop_adds text runs first.proper (by
      rintro lo same
      obtain rfl := Option.some.inj same
      exact (first.holds _).mpr (Or.inr (by simp))) (by rw [first.kind]; exact mode)
    exact ⟨ended, first.trans second⟩
  | others notLeading text =>
    rw [regexClassMembers, if_neg notLeading] at runs
    exact regexClassMembersLoop_adds text runs proper (by simp) mode

theorem ClassMembers.early (named : namedParts items ≠ [])
    (runs : regexClassMembers unicode (.node code) src = some (after, left)) :
    rest.length < left.length := by
  cases members with
  | leading isLeading text =>
    rw [regexClassMembers, if_pos isLeading] at runs
    exact regexClassMembersLoop_early text named runs
  | others notLeading text =>
    rw [regexClassMembers, if_neg notLeading] at runs
    exact regexClassMembersLoop_early text named runs

theorem ClassMembers.lookahead
    (named : namedParts items ≠ []) : regexClassLookahead src = true ↔ src.head? ≠ some 0x5d := by
  rw [regexClassLookahead]
  cases members with
  | @leading c src rest items isLeading text =>
    have notCaret : (c :: src).head? ≠ some 0x5e := by
      rcases isLeading with rfl | rfl
      · simp
      · simp
    rw [if_neg notCaret]
    rcases isLeading with rfl | rfl
    · refine iff_of_false ?_ (by simp)
      cases src with
      | nil => simp [regexClassNames]
      | cons d src => simp [regexClassNames]
    · refine iff_of_true ?_ (by simp)
      have later := regexClassNames_text text named
      cases src with
      | nil => simp [regexClassNames] at later
      | cons d src =>
        rw [regexClassNames, if_neg (by decide), if_neg (by decide), if_neg (by simp)]
        exact later
  | @others c src rest items notLeading text =>
    refine iff_of_true ?_ (by simpa using fun same => notLeading (Or.inl same))
    split
    next caret =>
      -- the second `^` of `[^^` is a member, which the look-ahead skips
      obtain rfl : c = 0x5e := by simpa using caret
      cases text with
      | literal _ _ _ written text =>
        cases written with
        | plain => exact regexClassNames_text text named
    next => exact regexClassNames_text text named

end

def IsCharacter (c : Nat) : Prop := 0 < c ∧ c < 0x110000

theorem ClassValue.isCharacter {value : Nat} (written : ClassValue src value rest)
    (valid : ∀ c ∈ src, IsCharacter c) : IsCharacter value ∧ ∀ c ∈ rest, IsCharacter c := by
  cases written with
  | plain => exact ⟨valid _ (by simp), fun c member => valid c (by simp [member])⟩
  | quoted => exact ⟨valid _ (by simp), fun c member => valid c (by simp [member])⟩
  | @control d value src escape =>
    refine ⟨?_, fun c member => valid c (by simp [member])⟩
    rw [regexEscape.eq_def] at escape
    split at escape
    case h_8 => simp at escape
    all_goals
      obtain rfl := Option.some.inj escape
      exact ⟨by decide, by decide⟩

theorem ClassText.isCharacter
    (text : ClassText regexNames previous src items rest) (valid : ∀ c ∈ src, IsCharacter c)
    (first : ∀ lo, previous = some lo → IsCharacter lo) (member : LiteralMember items c) :
    IsCharacter c := by
  induction text with
  | close => simp at member
  | named known text ih =>
    rw [literalMember_cons, literalMember_named, false_or] at member
    exact ih (fun d inside => valid d (by simp [inside])) (by simp) member
  | hyphen text ih =>
    rw [literalMember_cons, literalMember_literal] at member
    rcases member with rfl | member
    · exact valid _ (by simp)
    · refine ih (fun d inside => valid d (by simp [List.mem_cons.mp inside])) ?_ member
      rintro lo same
      obtain rfl := Option.some.inj same
      exact valid _ (by simp)
  | range notLast value order text ih =>
    obtain ⟨hiValid, moreValid⟩ :=
      value.isCharacter fun d inside => valid d (List.mem_cons_of_mem _ inside)
    rw [literalMember_cons, literalMember_range] at member
    rcases member with inside | member
    · exact ⟨Nat.lt_of_lt_of_le (first _ rfl).1 inside.1, Nat.lt_of_le_of_lt inside.2 hiValid.2⟩
    · refine ih moreValid ?_ member
      rintro lo same
      obtain rfl := Option.some.inj same
      exact hiValid
  | literal notLast notHyphen notName written text ih =>
    obtain ⟨valueValid, moreValid⟩ := written.isCharacter valid
    rw [literalMember_cons, literalMember_literal] at member
    rcases member with rfl | member
    · exact valueValid
    · refine ih moreValid ?_ member
      rintro lo same
      obtain rfl := Option.some.inj same
      exact valueValid

theorem ClassMembers.isCharacter
    (members : ClassMembers regexNames src items rest) (valid : ∀ c ∈ src, IsCharacter c)
    (member : LiteralMember items c) : IsCharacter c := by
  cases members with
  | leading isLeading text =>
    rw [literalMember_cons, literalMember_literal] at member
    rcases member with rfl | member
    · exact valid _ (by simp)
    · refine text.isCharacter (fun d inside => valid d (List.mem_cons_of_mem _ inside)) ?_ member
      rintro lo same
      obtain rfl := Option.some.inj same
      exact valid _ (by simp)
  | others notLeading text => exact text.isCharacter valid (by simp) member

theorem ClassMembers.nonempty
    (members : ClassMembers regexNames src items rest) (noNames : namedParts items = []) :
    ∃ c, LiteralMember items c := by
  cases members with
  | leading isLeading text => exact ⟨_, Or.inl List.mem_cons_self⟩
  | others notLeading text =>
    cases text with
    | close => exact absurd (Or.inl rfl) notLeading
    | named => simp at noNames
    | hyphen => exact ⟨_, Or.inl List.mem_cons_self⟩
    | literal => exact ⟨_, Or.inl List.mem_cons_self⟩

end Loop

section Spans

variable {unicode : UnicodePredicates}
variable {text : List Nat} {c : Nat}

theorem takeWhile_toZero (nonzero : ∀ c ∈ text, c ≠ 0) :
    (text ++ [0]).takeWhile (fun c => c != 0) = text := by
  rw [List.takeWhile_append_of_pos (fun c member => bne_iff_ne.mpr (nonzero c member))]
  simp

theorem units32_toInt (isCharacter : IsCharacter c) : (Int32.ofNat c).toInt = c :=
  toInt_ofNat32 isCharacter.2

section

variable (valid : ∀ c ∈ text, IsCharacter c)
include valid

theorem units32_terminated :
    Terminated utf32Unit (units32 (text ++ [0])) (units32 text) := by
  constructor
  · intro d member
    obtain ⟨c, inside, rfl⟩ := List.mem_map.mp member
    intro isZero
    have positive := (valid c inside).1
    have value := units32_toInt (valid c inside)
    have zero : Int32.ofNat c = 0 := isZero
    rw [zero] at value
    have isNone : (0 : Int32).toInt = 0 := by decide
    omega
  · exact ⟨[], by simp [units32, utf32Unit]⟩

theorem units32_mem (isCharacter : IsCharacter c) :
    Int32.ofNat c ∈ units32 text ↔ c ∈ text := by
  constructor
  · intro member
    obtain ⟨d, inside, same⟩ := List.mem_map.mp member
    have values := congrArg Int32.toInt same
    rw [units32_toInt (valid d inside), units32_toInt isCharacter] at values
    obtain rfl : d = c := by omega
    exact inside
  · exact List.mem_map_of_mem

theorem utf32Strxspn_units {set : List Nat} (setValid : ∀ c ∈ set, IsCharacter c)
    (nonempty : set ≠ []) (flag : Bool) :
    utf32Strxspn (units32 (text ++ [0])) (units32 (set ++ [0])) flag =
      some (text.takeWhile fun c => set.contains c == flag).length := by
  have positive : ∀ {text : List Nat}, (∀ c ∈ text, IsCharacter c) →
      ∀ c ∈ units32 text, 0 < c.toInt := by
    intro text valid d member
    obtain ⟨c, inside, rfl⟩ := List.mem_map.mp member
    rw [units32_toInt (valid c inside)]
    have large := (valid c inside).1
    omega
  have decides : ∀ c, (units32 set).contains c = true ↔ c ∈ units32 set :=
    fun c => List.contains_iff_mem
  have span := utf32Strxspn_text (positive valid) (positive setValid) (units32_terminated valid)
    (units32_terminated setValid) decides flag
  rw [if_neg (by simpa [units32] using nonempty)] at span
  have mapped : units32 text = text.map Int32.ofNat := rfl
  rw [span, mapped, List.takeWhile_map, List.length_map]
  congr 2
  apply takeWhile_congr
  intro c member
  have same : (units32 set).contains (Int32.ofNat c) = set.contains c := by
    rw [Bool.eq_iff_iff, List.contains_iff_mem, List.contains_iff_mem,
      units32_mem setValid (valid c member)]
  rw [Function.comp_apply, same]

end

theorem regexRepeat_plain {negated : Bool} {members : List Nat} (valid : ∀ c ∈ members, IsCharacter c)
    (nonempty : members ≠ []) (textValid : ∀ c ∈ text, IsCharacter c) :
    regexRepeat unicode ⟨if negated then .ANYBUT else .ANYOF, members ++ [0]⟩ text =
      some (text.takeWhile (regexMatchNode unicode ⟨if negated then .ANYBUT else .ANYOF,
        members ++ [0]⟩)).length := by
  have whole := takeWhile_toZero fun c member => Nat.ne_of_gt (valid c member).1
  cases negated with
  | false =>
    have span := utf32Strxspn_units textValid valid nonempty true
    refine span.trans ?_
    congr 2
    apply takeWhile_congr
    intro c _
    simp [regexMatchNode, utf32Strchr, whole]
  | true =>
    have span := utf32Strxspn_units textValid valid nonempty false
    refine span.trans ?_
    congr 2
    apply takeWhile_congr
    intro c _
    simp [regexMatchNode, utf32Strchr, whole]

end Spans

section Operand

variable {unicode : UnicodePredicates}

theorem namedAscii_part (i : Nat) {ascii members : List Nat} (sized : ascii.length = 8)
    (small : ∀ j ∈ members, j < 256) :
    (members.foldl (fun ascii j => if regexClassMember unicode i j then setAscii ascii j else ascii)
      ascii).length = 8 ∧
      ∀ c, ((members.foldl (fun ascii j => if regexClassMember unicode i j then setAscii ascii j
        else ascii) ascii).getD (c / 32) 0).testBit (c % 32) = true ↔
        (ascii.getD (c / 32) 0).testBit (c % 32) = true ∨ c ∈ members ∧
        regexClassMember unicode i c = true := by
  induction members generalizing ascii with
  | nil => simp [sized]
  | cons d members ih =>
    have rest := fun j member => small j (List.mem_cons_of_mem d member)
    rw [List.foldl_cons]
    by_cases isMember : regexClassMember unicode i d = true
    · rw [if_pos isMember]
      obtain ⟨length, bits⟩ := @ih (setAscii ascii d) (by rw [setAscii_length, sized]) rest
      refine ⟨length, ?_⟩
      intro c
      rw [bits, setAscii_testBit sized (small d (by simp)), List.mem_cons]
      constructor
      · rintro ((old | rfl) | later)
        · exact Or.inl old
        · exact Or.inr ⟨Or.inl rfl, isMember⟩
        · exact Or.inr ⟨Or.inr later.1, later.2⟩
      · rintro (old | ⟨rfl | later, member⟩)
        · exact Or.inl (Or.inl old)
        · exact Or.inl (Or.inr rfl)
        · exact Or.inr ⟨later, member⟩
    · rw [if_neg isMember]
      obtain ⟨length, bits⟩ := ih sized rest
      refine ⟨length, ?_⟩
      intro c
      rw [bits, List.mem_cons]
      constructor
      · rintro (old | later)
        · exact Or.inl old
        · exact Or.inr ⟨Or.inr later.1, later.2⟩
      · rintro (old | ⟨rfl | later, member⟩)
        · exact Or.inl old
        · exact absurd member isMember
        · exact Or.inr ⟨later, member⟩

theorem namedAscii_bits {ascii parts : List Nat} (sized : ascii.length = 8) :
    (namedAscii unicode ascii parts).length = 8 ∧ ∀ c < 256,
      (((namedAscii unicode ascii parts).getD (c / 32) 0).testBit (c % 32) = true ↔
        (ascii.getD (c / 32) 0).testBit (c % 32) = true ∨
        ∃ i ∈ parts, regexClassMember unicode i c = true) := by
  induction parts generalizing ascii with
  | nil => simp [namedAscii, sized]
  | cons i parts ih =>
    obtain ⟨length, bits⟩ := @namedAscii_part unicode i ascii (List.range 256) sized
      (fun j => List.mem_range.mp)
    obtain ⟨finalLength, finalBits⟩ := ih length
    refine ⟨finalLength, ?_⟩
    intro c small
    refine (finalBits c small).trans ?_
    rw [bits, List.mem_range]
    simp [small, or_assoc]

theorem namedPlane_bits (parts : List Nat) {plane : Nat} (inside : plane < 0x11) :
    (namedPlane unicode parts).testBit plane = true ↔
    ∃ i ∈ parts, regexClassPlane unicode i plane = true := by
  have part : ∀ (i word : Nat) (planes : List Nat),
      (planes.foldl (fun word j => if regexClassPlane unicode i j then word ||| 2 ^ j else word)
        word).testBit plane = true ↔
        word.testBit plane = true ∨ plane ∈ planes ∧ regexClassPlane unicode i plane = true := by
    intro i word planes
    induction planes generalizing word with
    | nil => simp
    | cons j planes ih =>
      rw [List.foldl_cons, ih]
      by_cases isPlane : regexClassPlane unicode i j = true
      · rw [if_pos isPlane, Nat.testBit_or, Nat.testBit_two_pow, Bool.or_eq_true, decide_eq_true_eq,
          List.mem_cons]
        constructor
        · rintro ((old | rfl) | later)
          · exact Or.inl old
          · exact Or.inr ⟨Or.inl rfl, isPlane⟩
          · exact Or.inr ⟨Or.inr later.1, later.2⟩
        · rintro (old | ⟨rfl | later, holds⟩)
          · exact Or.inl (Or.inl old)
          · exact Or.inl (Or.inr rfl)
          · exact Or.inr ⟨later, holds⟩
      · rw [if_neg isPlane, List.mem_cons]
        constructor
        · rintro (old | later)
          · exact Or.inl old
          · exact Or.inr ⟨Or.inr later.1, later.2⟩
        · rintro (old | ⟨rfl | later, holds⟩)
          · exact Or.inl old
          · exact absurd holds isPlane
          · exact Or.inr ⟨later, holds⟩
  have all : ∀ word, (parts.foldl (fun word i => (List.range 0x11).foldl
      (fun word j => if regexClassPlane unicode i j then word ||| 2 ^ j else word) word)
        word).testBit plane = true ↔
        word.testBit plane = true ∨ ∃ i ∈ parts, regexClassPlane unicode i plane = true := by
    induction parts with
    | nil => simp
    | cons i parts ih =>
      intro word
      rw [List.foldl_cons, ih, part, List.mem_range]
      simp [inside, or_assoc]
  rw [namedPlane, all]
  simp

theorem regexClassFlags_fields (negated : Bool) {nparts : Nat} (few : nparts ≤ regexClassMaxParts) :
    regexClassFlags negated nparts >>> 8 &&& 0xff = nparts ∧
    (regexClassFlags negated nparts &&& 1 ≠ 0 ↔ negated = true) := by
  have all : ∀ nparts ≤ 8, ∀ negated : Bool, regexClassFlags negated nparts >>> 8 &&& 0xff = nparts ∧
      (regexClassFlags negated nparts &&& 1 ≠ 0 ↔ negated = true) := by decide
  exact all nparts few negated

end Operand

section Matches

variable {unicode : UnicodePredicates}
variable {node : RegexClassNode} {negated : Bool} {items : List ClassItem} {c : Nat}
  {src rest left : List Nat}

/-- The node takes the character, alone or with a repetition, if it is a member or the expression is
negated. -/
def TakesMembers (unicode : UnicodePredicates) (node : RegexClassNode) (negated : Bool)
    (items : List ClassItem) (c : Nat) : Prop :=
  (regexMatchNode unicode node c = true ↔ (IsMember unicode items c ↔ negated = false)) ∧
    ∀ behind, (∀ d ∈ behind, IsCharacter d) →
      ∃ count, regexRepeat unicode node (c :: behind) = some count ∧
      (0 < count ↔ (IsMember unicode items c ↔ negated = false))

theorem takesMembers_iff (isCharacter : IsCharacter c)
    (repeats : ∀ text, (∀ d ∈ text, IsCharacter d) →
      regexRepeat unicode node text = some (text.takeWhile (regexMatchNode unicode node)).length) :
    TakesMembers unicode node negated items c ↔
      (regexMatchNode unicode node c = true ↔ (IsMember unicode items c ↔ negated = false)) := by
  constructor
  · exact fun takes => takes.1
  · intro matches_
    refine ⟨matches_, ?_⟩
    intro behind valid
    refine ⟨_, repeats (c :: behind) (List.forall_mem_cons.mpr ⟨isCharacter, valid⟩), ?_⟩
    rw [← matches_, List.takeWhile_cons]
    by_cases takes : regexMatchNode unicode node c = true
    · simp [takes]
    · simp [takes]

theorem regexPlainClass_takes
    (members : ClassMembers regexNames src items rest) (noNames : namedParts items = [])
    (valid : ∀ d ∈ src, IsCharacter d)
    (compiles : regexPlainClass unicode negated src = some (node, left))
    (isCharacter : IsCharacter c) : left = rest ∧ TakesMembers unicode node negated items c := by
  obtain ⟨⟨sink, after⟩, runs, same⟩ := Option.bind_eq_some_iff.mp compiles
  obtain ⟨rfl, extended⟩ := members.adds runs trivial (Or.inr noNames)
  cases sink with
  | state cs => simp at same
  | node code =>
    obtain ⟨rfl, rfl⟩ := Prod.mk.inj (Option.some.inj same)
    have holds : ∀ d, d ∈ code ↔ LiteralMember items d := by
      intro d
      have here := extended.holds d
      simpa [RegexClasssink.Holds] using here
    have codeValid : ∀ d ∈ code, IsCharacter d :=
      fun d member => members.isCharacter valid ((holds d).mp member)
    have nonempty : code ≠ [] := by
      obtain ⟨d, member⟩ := members.nonempty noNames
      exact List.ne_nil_of_mem ((holds d).mpr member)
    refine ⟨rfl, (takesMembers_iff isCharacter fun text textValid => regexRepeat_plain codeValid
      nonempty textValid).mpr ?_⟩
    have isMember : IsMember unicode items c ↔ c ∈ code := by
      rw [IsMember, noNames, holds]
      simp
    have whole := takeWhile_toZero fun d member => Nat.ne_of_gt (codeValid d member).1
    rw [isMember]
    cases negated with
    | false => simp [regexMatchNode, utf32Strchr, whole]
    | true => simp [regexMatchNode, utf32Strchr, whole]

theorem classOperand_layout {ascii : List Nat} (sized : ascii.length = 8) (flags plane : Nat)
    (parts literals : List Nat) :
    (flags :: ascii ++ (plane :: parts ++ literals ++ [0])).getD 0 0 = flags ∧
      (∀ word < 8, (flags :: ascii ++ (plane :: parts ++ literals ++ [0])).getD (1 + word) 0 =
        ascii.getD word 0) ∧
      (flags :: ascii ++ (plane :: parts ++ literals ++ [0])).getD 9 0 = plane ∧
      ((flags :: ascii ++ (plane :: parts ++ literals ++ [0])).drop 10).take parts.length = parts ∧
      (flags :: ascii ++ (plane :: parts ++ literals ++ [0])).drop (10 + parts.length) = literals ++
        [0] := by
  have behind : flags :: ascii ++ (plane :: parts ++ literals ++ [0]) =
      (flags :: ascii ++ [plane]) ++ (parts ++ (literals ++ [0])) := by simp
  have front : (flags :: ascii ++ [plane]).length = 10 := by simp [sized]
  refine ⟨rfl, ?_, ?_, ?_, ?_⟩
  · intro word small
    rw [Nat.add_comm, List.cons_append, List.getD_cons_succ, List.getD_eq_getElem?_getD,
      List.getElem?_append_left (by omega), List.getD_eq_getElem?_getD]
  · rw [List.getD_eq_getElem?_getD, List.getElem?_append_right (by simp [sized])]
    simp [sized]
  · rw [behind, List.drop_left' front, List.take_left' rfl]
  · rw [behind, ← List.append_assoc, List.drop_left']
    simp only [List.length_append, List.length_cons, List.length_nil] at front ⊢
    omega

/-- A compiled class takes just the characters that its items stand for. -/
theorem regexClassMatches_iff {cs : RegexClassstate} (proper : RegexClasssink.Proper (.state cs))
    (holds : ∀ c, RegexClasssink.Holds (.state cs) c ↔ LiteralMember items c)
    (parts : cs.parts = namedParts items) (unicode : UnicodePredicates) (negated : Bool)
    (isCharacter : IsCharacter c) :
    regexClassMatches unicode
      (regexClassFlags negated cs.parts.length :: namedAscii unicode cs.ascii cs.parts ++
        (namedPlane unicode cs.parts :: cs.parts ++ cs.literals ++ [0])) c = true ↔
      IsMember unicode items c ∧
      (65536 ≤ c → ∃ i ∈ namedParts items, regexClassPlane unicode i (c / 65536) = true) := by
  obtain ⟨sized, few, large⟩ := proper
  obtain ⟨length, bits⟩ := @namedAscii_bits unicode cs.ascii cs.parts sized
  have flags := (regexClassFlags_fields negated few).1
  have plane := @namedPlane_bits unicode cs.parts (c / 65536) (by have small := isCharacter.2; omega)
  have literals := takeWhile_toZero fun d member => Nat.ne_of_gt
    (Nat.lt_of_lt_of_le (by decide) (large d member))
  have here := holds c
  obtain ⟨first, words, ninth, named, others⟩ :=
    classOperand_layout length (regexClassFlags negated cs.parts.length)
    (namedPlane unicode cs.parts) cs.parts cs.literals
  rw [regexClassMatches, first, flags, ninth, named, others, literals, IsMember, ← parts, ← here]
  by_cases small : c < 256
  · rw [if_pos small, words _ (by omega), bits c small, RegexClasssink.Holds, if_pos small]
    exact (and_iff_left (by omega)).symm
  · rw [if_neg small, RegexClasssink.Holds, if_neg small, ← plane]
    split
    next hidden =>
      rw [Bool.not_eq_true'] at hidden
      refine iff_of_false (by simp) ?_
      rintro ⟨_, shown⟩
      exact Bool.false_ne_true (hidden.2.symm.trans (shown hidden.1))
    next shown =>
      have allowed : 65536 ≤ c → (namedPlane unicode cs.parts).testBit (c / 65536) = true := by
        intro high
        by_contra hidden
        exact shown ⟨high, by simpa using hidden⟩
      rw [Bool.or_eq_true, List.any_eq_true, List.contains_iff_mem, or_comm]
      exact (and_iff_left allowed).symm

theorem emptyState_holds (c : Nat) :
    ¬ RegexClasssink.Holds (.state ⟨List.replicate 8 0, [], []⟩) c := by
  rw [RegexClasssink.Holds]
  split
  next small =>
    have inside : c / 32 < 8 := by omega
    have absent : (List.replicate 8 0).getD (c / 32) 0 = 0 := by
      simp only [List.getD_eq_getElem?_getD, List.getElem?_replicate, if_pos inside, Option.getD_some]
    rw [absent, Nat.zero_testBit]
    exact Bool.false_ne_true
  next => exact List.not_mem_nil

theorem regexNamedClass_takes
    (members : ClassMembers regexNames src items rest)
    (compiles : regexNamedClass unicode negated src = some (node, left))
    (isCharacter : IsCharacter c) : left = rest ∧ (TakesMembers unicode node negated items c ↔
      (IsMember unicode items c → 65536 ≤ c → ∃ i ∈ namedParts items,
        regexClassPlane unicode i (c / 65536) = true)) := by
  obtain ⟨⟨sink, after⟩, runs, same⟩ := Option.bind_eq_some_iff.mp compiles
  have empty : RegexClasssink.Proper (.state ⟨List.replicate 8 0, [], []⟩) :=
    ⟨List.length_replicate, Nat.zero_le _, fun _ member => absurd member List.not_mem_nil⟩
  obtain ⟨rfl, extended⟩ := members.adds runs empty (Or.inl rfl)
  cases sink with
  | node code => simp at same
  | state cs =>
    obtain ⟨rfl, rfl⟩ := Prod.mk.inj (Option.some.inj same)
    refine ⟨rfl, ?_⟩
    have holds : ∀ d, RegexClasssink.Holds (.state cs) d ↔ LiteralMember items d := by
      intro d
      rw [extended.holds d, or_iff_right (emptyState_holds d)]
    have parts : cs.parts = namedParts items := by simpa [RegexClasssink.parts] using extended.parts
    have found := regexClassMatches_iff extended.proper holds parts unicode negated isCharacter
    have few : cs.parts.length ≤ regexClassMaxParts := extended.proper.2.1
    have isNegated := (regexClassFlags_fields negated few).2
    rw [takesMembers_iff isCharacter (fun _ _ => rfl), regexMatchNode]
    dsimp only
    rw [List.cons_append, List.getD_cons_zero, ← List.cons_append]
    cases negated with
    | false =>
      rw [if_neg (fun nonzero => Bool.false_ne_true (isNegated.mp nonzero)), found,
        iff_true_right rfl]
      exact and_iff_left_iff_imp
    | true =>
      have isOutside : (IsMember unicode items c ↔ true = false) ↔ ¬ IsMember unicode items c := by
        simp
      rw [if_pos (isNegated.mpr rfl), Bool.not_eq_true', ← Bool.not_eq_true, found,
        isOutside, not_iff_not]
      exact and_iff_left_iff_imp

def behindCaret (src : List Nat) : List Nat := if src.head? == some 0x5e then src.tail else src

theorem bracketExpression_members {names : List (List Nat)}
    (expression : BracketExpression names src negated items rest) :
    (src.head? == some 0x5e) = negated ∧ ClassMembers names (behindCaret src) items rest := by
  cases expression with
  | negated members => exact ⟨by simp, by simpa [behindCaret] using members⟩
  | plain notNegated members =>
    refine ⟨by simpa using notNegated, ?_⟩
    rw [behindCaret, if_neg (by simpa using notNegated)]
    exact members

/-- A `]` in front of a name ends the look-ahead, and the planes of the names hide the characters of
other planes. Expressions with a malformed `[:` behind a leading `]` are not in the grammar. -/
theorem regexClass_matches_iff {src rest left : List Nat} {negated : Bool} {items : List ClassItem}
    {node : RegexClassNode} (expression : BracketExpression regexNames src negated items rest)
    (valid : ∀ d ∈ src, IsCharacter d) (compiles : regexClass unicode src = some (node, left))
    {c : Nat} (isCharacter : IsCharacter c)
    (planes : ∀ i ∈ namedParts items, ∀ d, regexClassMember unicode i d = true →
      regexClassPlane unicode i (d / 65536) = true) :
    (left = rest ∧ TakesMembers unicode node negated items c) ↔
      ¬ ((behindCaret src).head? = some 0x5d ∧ namedParts items ≠ []) ∧
        ¬ (65536 ≤ c ∧ LiteralMember items c ∧ regexClassLookahead (behindCaret src) = true ∧
          ∀ i ∈ namedParts items, regexClassPlane unicode i (c / 65536) = false) := by
  obtain ⟨isNegated, members⟩ := bracketExpression_members expression
  have membersValid : ∀ d ∈ behindCaret src, IsCharacter d := by
    intro d member
    rw [behindCaret] at member
    split at member
    · exact valid d (List.mem_of_mem_tail member)
    · exact valid d member
  rw [regexClass, isNegated] at compiles
  have same : (if negated = true then src.tail else src) = behindCaret src := by
    rw [behindCaret, isNegated]
  simp only [same] at compiles
  by_cases lookahead : regexClassLookahead (behindCaret src) = true
  · rw [if_pos lookahead] at compiles
    have notLeading : ¬ ((behindCaret src).head? = some 0x5d ∧ namedParts items ≠ []) := by
      rintro ⟨leading, named⟩
      exact (members.lookahead named).mp lookahead leading
    obtain ⟨ended, takes⟩ := regexNamedClass_takes members compiles isCharacter
    rw [and_iff_right ended, and_iff_right notLeading, takes]
    constructor
    · rintro shown ⟨high, literal, -, hidden⟩
      obtain ⟨i, member, plane⟩ := shown (Or.inl literal) high
      exact Bool.false_ne_true ((hidden i member).symm.trans plane)
    · rintro notHidden isMember high
      rcases isMember with literal | ⟨i, member, satisfied⟩
      · by_contra! none
        exact notHidden ⟨high, literal, lookahead, fun i member => by simpa using none i member⟩
      · exact ⟨i, member, planes i member c satisfied⟩
  · rw [if_neg lookahead] at compiles
    have neverHidden : ¬ (65536 ≤ c ∧ LiteralMember items c ∧
      regexClassLookahead (behindCaret src) = true ∧
        ∀ i ∈ namedParts items, regexClassPlane unicode i (c / 65536) = false) :=
      fun hidden => lookahead hidden.2.2.1
    rw [and_iff_left neverHidden]
    by_cases named : namedParts items = []
    · refine iff_of_true (regexPlainClass_takes members named membersValid compiles isCharacter) ?_
      exact fun leading => leading.2 named
    · have leading : (behindCaret src).head? = some 0x5d := by
        by_contra other
        exact lookahead ((members.lookahead named).mpr other)
      refine iff_of_false ?_ (not_not.mpr ⟨leading, named⟩)
      rintro ⟨ended, -⟩
      obtain ⟨⟨sink, after⟩, runs, same⟩ := Option.bind_eq_some_iff.mp compiles
      have early := members.early named runs
      cases sink with
      | state cs => simp at same
      | node code =>
        obtain ⟨-, rfl⟩ := Prod.mk.inj (Option.some.inj same)
        rw [ended] at early
        exact Nat.lt_irrefl _ early

end Matches

section Characters

def asciiPredicates : UnicodePredicates where
  isAlphanumeric := isAlnum
  isAlphanumericplane plane := plane == 0
  isLetter c := isAlnum c && c > 0x39
  isLetterplane plane := plane == 0
  isWhitespace c := c == 0x20 || c == 0x09
  isWhitespaceplane plane := plane == 0
  isControl c := c < 0x20 || c == 0x7f
  isControlplane plane := plane == 0
  isDecimaldigit c := isAlnum c && c ≤ 0x39
  isDecimaldigitplane plane := plane == 0
  isIdentifierstart c := isAlnum c && c > 0x39 || c == 0x5f
  isIdentifierstartplane plane := plane == 0
  isIdentifiercontinuation c := isAlnum c || c == 0x5f
  isIdentifiercontinuationplane plane := plane == 0
  isLowercase c := 0x61 ≤ c && c ≤ 0x7a
  isLowercaseplane plane := plane == 0
  isPunctuation c := 0x20 < c && c < 0x7f && !isAlnum c
  isPunctuationplane plane := plane == 0
  isWhitespaceornewline c := c == 0x20 || 0x09 ≤ c && c ≤ 0x0d
  isWhitespaceornewlineplane plane := plane == 0
  isUppercase c := 0x41 ≤ c && c ≤ 0x5a
  isUppercaseplane plane := plane == 0

def classText (text : String) (character : Nat) : List Nat := codes text ++ [character, 0x5d]

theorem xdigit_planes (character : Nat) : ∀ i ∈ namedParts [.named 13, .literal character], ∀ c,
    regexClassMember asciiPredicates i c = true →
    regexClassPlane asciiPredicates i (c / 65536) = true := by
  intro i member c satisfied
  obtain rfl := List.mem_singleton.mp member
  have isXdigit : regexIsXdigit c = true := satisfied
  have small : c / 65536 = 0 := by
    simp only [regexIsXdigit, Bool.or_eq_true, Bool.and_eq_true, decide_eq_true_eq] at isXdigit
    omega
  rw [small]
  rfl

theorem xdigit_expression {character : Nat} (ordinary : character ≠ 0x5c) (notLast : character ≠ 0x5d)
    (notHyphen : character ≠ 0x2d) :
    BracketExpression regexNames (classText "[:xdigit:]" character) false
      [.named 13, .literal character] [] := by
  have known : regexNames[13]? = some (codes "xdigit") := rfl
  exact .plain (by simp [classText, codes]) (.others (by decide) (.named known
    (.literal notLast notHyphen (by simp) (.plain ordinary) .close)))

theorem regexClass_matches_iff_xdigit : ∃ node,
    regexClass asciiPredicates (classText "[:xdigit:]" 0x5f) = some (node, []) ∧
      TakesMembers asciiPredicates node false [.named 13, .literal 0x5f] 0x62 := by
  have valid : (classText "[:xdigit:]" 0x5f).all (fun d => 0 < d && d < 0x110000) = true := by decide
  have allValid : ∀ d ∈ classText "[:xdigit:]" 0x5f, IsCharacter d := by
    intro d member
    simpa [IsCharacter] using List.all_eq_true.mp valid d member
  refine ⟨_, rfl, ?_⟩
  refine ((regexClass_matches_iff (xdigit_expression (by decide) (by decide) (by decide)) allValid rfl
    ⟨by decide, by decide⟩ (xdigit_planes _)).mpr ⟨?_, ?_⟩).2
  · exact fun leading => absurd leading.1 (by decide)
  · exact fun hidden => absurd hidden.1 (by decide)

/-- A member of another plane is not found, and a name behind a leading `]` is cut off. -/
theorem regexClass_misses : (∃ node,
    regexClass asciiPredicates (classText "[:xdigit:]" 0x1f600) = some (node, []) ∧
      BracketExpression regexNames (classText "[:xdigit:]" 0x1f600) false [.named 13,
        .literal 0x1f600] [] ∧
      ¬ TakesMembers asciiPredicates node false [.named 13, .literal 0x1f600] 0x1f600) ∧
    ∃ node, regexClass asciiPredicates (codes "][:alpha:]]") = some (node, [0x5d]) ∧
      BracketExpression regexNames (codes "][:alpha:]]") false [.literal 0x5d, .named 1] [] := by
  have expression : BracketExpression regexNames (classText "[:xdigit:]" 0x1f600) false [.named 13,
    .literal 0x1f600] [] :=
    xdigit_expression (by decide) (by decide) (by decide)
  refine ⟨⟨_, rfl, expression, ?_⟩, ⟨_, rfl, ?_⟩⟩
  · intro takes
    have shown := (regexNamedClass_takes (bracketExpression_members expression).2
      rfl ⟨by decide, by decide⟩).2.mp takes
    obtain ⟨i, member, plane⟩ := shown (Or.inl (Or.inl (by simp))) (by decide)
    obtain rfl := List.mem_singleton.mp member
    exact absurd plane (by decide)
  · have known : regexNames[1]? = some (codes "alpha") := rfl
    exact .plain (by simp [codes]) (.leading (Or.inl rfl) (.named known .close))

end Characters

end MulleCore
