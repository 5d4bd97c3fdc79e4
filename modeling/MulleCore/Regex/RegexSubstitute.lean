import MulleCore.Utf.UtfStrings

/-!
`mulle-utf32regex-substitute.c`: what a replacement text becomes after a match, and how long that
is.
-/

namespace MulleCore

def eperm : Int := 1

def e2big : Int := 7

def efault : Int := 14

def utf32regexMagic : Int32 := 0x4818

def utf32regexNsubexp : Nat := 10

/-- `string` is what was searched, from its first unit to the zero behind it. The groups are places
in it. -/
structure Regexp where
  startp : Nat → Option Nat
  endp : Nat → Option Nat
  string : List Int32
  magic : Int32

section Replacement

inductive SubstitutionItem where
  | unit (c : Int32)
  | group (no : Nat)

inductive SubstitutionEnd where
  | stop
  | backslash
  | octal
deriving DecidableEq

/-- The three digits. There are none (`some none`) if another unit comes first. -/
def regexOctalDigits : Nat → List Int32 → Option (Option (List Nat × List Int32))
  | 0, src => some (some ([], src))
  | _ + 1, [] => none
  | i + 1, c :: src =>
    if c < 0x30 ∨ c > 0x37 then some none
    else do
      let more ← regexOctalDigits i src
      some (more.map fun more => ((c.toInt - 0x30).toNat :: more.1, more.2))

/-- `octal`, which reads the digits as a decimal number. -/
def regexOctal (src : List Int32) : Option (Option (Nat × List Int32)) := do
  let buf ← regexOctalDigits 3 src
  some (buf.bind fun buf =>
    let no := buf.1.foldl (fun no digit => no * 10 + digit) 0
    if no < 1 ∨ no ≥ utf32regexNsubexp then none else some (no, buf.2))

def substitutionStep : List Int32 → Option (SubstitutionEnd ⊕ SubstitutionItem × List Int32)
  | [] => none
  | c :: src =>
    if c = 0 then some (.inl .stop)
    else if c = 0x26 then some (.inr (.group 0, src))
    else if c = 0x5c then
      match src with
      | [] => none
      | d :: src =>
        if d = 0 then some (.inl .backslash)
        else if d = 0x30 then
          (regexOctal src).map fun octal =>
            match octal with
            | none => .inl .octal
            | some (no, src) => .inr (.group no, src)
        else if 0x31 ≤ d ∧ d ≤ 0x39 then some (.inr (.group (d.toInt - 0x30).toNat, src))
        else some (.inr (.unit d, src))
    else some (.inr (.unit c, src))

end Replacement

section Functions

structure Substitution where
  rval : Int
  written : List Int32
deriving DecidableEq

def utf32Strncpy : Nat → List Int32 → Option (List Int32)
  | 0, _ => some []
  | _ + 1, [] => none
  | len + 1, c :: src => if c = 0 then some [0] else (utf32Strncpy len src).map (c :: ·)

def substituteFinish (zero : Bool) (src written : List Int32) : Option Substitution := do
  let c ← src.head?
  if zero ∨ c ≠ 0 then some ⟨-e2big, written⟩ else some ⟨0, written⟩

/-- What has been written goes up to `dst`. A unit in front of `dst` that was not written is not
read. -/
def substituteLoop (prog : Regexp) (dstLen : Nat) (zero : Bool) : Nat → List Int32 → List Int32 →
    Option Substitution
  | 0, _, _ => none
  | fuel + 1, src, written =>
    if written.length < dstLen then do
      let step ← substitutionStep src
      match step with
      | .inl .stop => some ⟨0, if zero then written ++ [0] else written⟩
      | .inl .backslash => some ⟨-efault, written⟩
      | .inl .octal => some ⟨-eperm, written⟩
      | .inr (.unit c, src) => substituteLoop prog dstLen zero fuel src (written ++ [c])
      | .inr (.group no, src) =>
        match prog.startp no with
        | none => substituteLoop prog dstLen zero fuel src written
        | some start => do
            let last ← prog.endp no
            let len := (last - start) % 2 ^ 32
            if len = 0 then substituteLoop prog dstLen zero fuel src written
            else if written.length + len ≥ dstLen then substituteFinish zero src written
            else
              let copied ← utf32Strncpy len (prog.string.drop start)
              if copied.length < len then none
              else if copied.getLast? = some 0 then some ⟨-efault, written ++ copied⟩
              else substituteLoop prog dstLen zero fuel src (written ++ copied)
    else substituteFinish zero src written

def regexSubstitute (prog : Regexp) (src : List Int32) (dstLen : Nat) (zero : Bool) :
    Option Substitution :=
  if prog.magic ≠ utf32regexMagic then some ⟨-efault, []⟩
  else substituteLoop prog dstLen zero (src.length + 1) src []

def substitutionLengthLoop (prog : Regexp) : Nat → List Int32 → Nat → Option Nat
  | 0, _, _ => none
  | fuel + 1, src, dstLen => do
      let step ← substitutionStep src
      match step with
      | .inl .stop => some (if dstLen % 2 ^ 32 ≠ dstLen then 2 ^ 64 - 1 else dstLen)
      | .inl .backslash => some (2 ^ 32 - 1)
      | .inl .octal => some 0
      | .inr (.unit _, src) => substitutionLengthLoop prog fuel src ((dstLen + 1) % 2 ^ 64)
      | .inr (.group no, src) =>
        match prog.startp no with
        | none => substitutionLengthLoop prog fuel src dstLen
        | some start => do
            let last ← prog.endp no
            substitutionLengthLoop prog fuel src ((dstLen + (last - start)) % 2 ^ 64)

def regexSubstitutionLength (prog : Regexp) (src : List Int32) : Option Nat :=
  if prog.magic ≠ utf32regexMagic then none
  else substitutionLengthLoop prog (src.length + 1) src 0

end Functions

section Parse

variable {src text rest : List Int32} {result : SubstitutionEnd ⊕ SubstitutionItem × List Int32}

inductive Parses : List Int32 → List SubstitutionItem → SubstitutionEnd → Prop where
  | ends {src : List Int32} {last : SubstitutionEnd} : substitutionStep src = some (.inl last) →
      Parses src [] last
  | item {src rest : List Int32} {item : SubstitutionItem} {items : List SubstitutionItem}
      {last : SubstitutionEnd} :
      substitutionStep src = some (.inr (item, rest)) → Parses rest items last →
      Parses src (item :: items) last

theorem regexOctalDigits_terminated (i : Nat) (terminated : Terminated utf32Unit src text) :
    regexOctalDigits i src = some none ∨
    ∃ digits rest later, regexOctalDigits i src = some (some (digits, rest)) ∧
      Terminated utf32Unit rest later ∧ later.length ≤ text.length := by
  induction i generalizing src text with
  | zero => exact Or.inr ⟨[], src, text, rfl, terminated, Nat.le_refl _⟩
  | succ i ih =>
    cases text with
    | nil =>
      obtain ⟨behind, rfl⟩ := terminated.nil_cases
      left
      rw [regexOctalDigits, if_pos (Or.inl (by decide))]
    | cons c text =>
      obtain ⟨more, rfl, _, rest⟩ := terminated.cons_cases
      rw [regexOctalDigits]
      split
      next => exact Or.inl rfl
      next =>
        rcases ih rest with failed | ⟨digits, left, later, found, ends, shorter⟩
        · left
          rw [failed]
          rfl
        · right
          rw [found]
          exact ⟨_, left, later, rfl, ends, Nat.le_succ_of_le shorter⟩

section

variable (terminated : Terminated utf32Unit src text)
include terminated

theorem regexOctal_terminated :
    regexOctal src = some none ∨ ∃ no rest later, regexOctal src = some (some (no, rest)) ∧
      Terminated utf32Unit rest later ∧ later.length ≤ text.length := by
  rcases regexOctalDigits_terminated 3 terminated with
    failed | ⟨digits, rest, later, found, ends, shorter⟩
  · left
    rw [regexOctal, failed]
    rfl
  · rw [regexOctal, found]
    simp only [Option.bind_eq_bind, Option.bind_some]
    split
    next => exact Or.inl rfl
    next => exact Or.inr ⟨_, rest, later, rfl, ends, shorter⟩

theorem substitutionStep_terminated :
    (∃ last, substitutionStep src = some (.inl last)) ∨ ∃ item rest later,
      substitutionStep src = some (.inr (item, rest)) ∧ Terminated utf32Unit rest later ∧
      later.length < text.length := by
  cases text with
  | nil =>
    obtain ⟨behind, rfl⟩ := terminated.nil_cases
    exact Or.inl ⟨.stop, rfl⟩
  | cons c text =>
    obtain ⟨more, rfl, nonzero, rest⟩ := terminated.cons_cases
    have notEnd : c ≠ 0 := nonzero
    rw [substitutionStep.eq_def]
    dsimp only
    rw [if_neg notEnd]
    split
    next => exact Or.inr ⟨_, more, text, rfl, rest, Nat.lt_succ_self _⟩
    next =>
      split
      next =>
        cases text with
        | nil =>
          obtain ⟨behind, rfl⟩ := rest.nil_cases
          exact Or.inl ⟨.backslash, rfl⟩
        | cons d text =>
          obtain ⟨more, rfl, nonzero, rest⟩ := rest.cons_cases
          have notEnd : d ≠ 0 := nonzero
          dsimp only
          rw [if_neg notEnd]
          split
          next =>
            rcases regexOctal_terminated rest with failed | ⟨no, left, later, found, ends, shorter⟩
            · exact Or.inl ⟨.octal, by rw [failed]; rfl⟩
            · exact Or.inr ⟨_, left, later, by rw [found]; rfl, ends,
                Nat.lt_succ_of_le (Nat.le_succ_of_le shorter)⟩
          next =>
            split
            next => exact Or.inr ⟨_, more, text, rfl, rest, Nat.lt_succ_of_le (Nat.le_succ _)⟩
            next => exact Or.inr ⟨_, more, text, rfl, rest, Nat.lt_succ_of_le (Nat.le_succ _)⟩
      next => exact Or.inr ⟨_, more, text, rfl, rest, Nat.lt_succ_self _⟩

theorem Terminated.parses :
    ∃ items last, Parses src items last := by
  induction sized : text.length using Nat.strong_induction_on generalizing src text with
  | _ size ih =>
    rcases substitutionStep_terminated terminated with ⟨last, ends⟩ | ⟨item, rest, later, step,
      restEnds, shorter⟩
    · exact ⟨[], last, .ends ends⟩
    · obtain ⟨items, last, parses⟩ := ih later.length (by omega) restEnds rfl
      exact ⟨item :: items, last, .item step parses⟩

end

theorem regexOctalDigits_shorter {i : Nat} {digits : List Nat}
    (found : regexOctalDigits i src = some (some (digits, rest))) : rest.length ≤ src.length := by
  induction i generalizing src digits with
  | zero =>
    obtain ⟨_, rfl⟩ : [] = digits ∧ src = rest := by simpa [regexOctalDigits] using found
    exact Nat.le_refl _
  | succ i ih =>
    cases src with
    | nil => simp [regexOctalDigits] at found
    | cons c src =>
      rw [regexOctalDigits] at found
      split at found
      next => simp at found
      next =>
        obtain ⟨more, read, same⟩ := Option.bind_eq_some_iff.mp found
        obtain ⟨pair, rfl, eq⟩ := Option.map_eq_some_iff.mp (Option.some.inj same)
        obtain ⟨rfl, rfl⟩ := Prod.mk.inj eq
        exact Nat.le_succ_of_le (ih read)

theorem regexOctal_shorter {no : Nat} (found : regexOctal src = some (some (no, rest))) :
    rest.length ≤ src.length := by
  obtain ⟨buf, read, same⟩ := Option.bind_eq_some_iff.mp found
  obtain ⟨pair, rfl, eq⟩ := Option.bind_eq_some_iff.mp (Option.some.inj same)
  dsimp only at eq
  split at eq
  next => simp at eq
  next =>
    obtain ⟨_, rfl⟩ := Prod.mk.inj (Option.some.inj eq)
    exact regexOctalDigits_shorter read

theorem substitutionStep_cons {c : Int32} (step : substitutionStep (c :: src) = some result) :
    (c = 0 ↔ result = .inl .stop) ∧ ∀ item rest, result = .inr (item, rest) →
    rest.length ≤ src.length := by
  rw [substitutionStep.eq_def] at step
  dsimp only at step
  split at step
  next zero =>
    obtain rfl := Option.some.inj step
    simp [zero]
  next nonzero =>
    simp only [nonzero, false_iff]
    split at step
    next =>
      obtain rfl := Option.some.inj step
      simp
    next =>
      split at step
      next =>
        split at step
        next => simp at step
        next d src =>
          split at step
          next =>
            obtain rfl := Option.some.inj step
            simp
          next =>
            split at step
            next =>
              obtain ⟨octal, read, rfl⟩ := Option.map_eq_some_iff.mp step
              cases octal with
              | none => simp
              | some pair =>
                have shorter := regexOctal_shorter read
                refine ⟨by simp, ?_⟩
                intro item rest same
                obtain ⟨_, rfl⟩ := Prod.mk.inj (Sum.inr.inj same)
                rw [List.length_cons]
                omega
            next =>
              split at step
              next =>
                obtain rfl := Option.some.inj step
                simp
              next =>
                obtain rfl := Option.some.inj step
                simp
      next =>
        obtain rfl := Option.some.inj step
        simp

theorem substitutionStep_shorter {item : SubstitutionItem}
    (step : substitutionStep src = some (.inr (item, rest))) : rest.length < src.length := by
  cases src with
  | nil => simp [substitutionStep] at step
  | cons c src => exact Nat.lt_succ_of_le ((substitutionStep_cons step).2 item rest rfl)

theorem substitutionStep_head
    (step : substitutionStep src = some result) :
    ∃ c, src.head? = some c ∧ (c = 0 ↔ result = .inl .stop) := by
  cases src with
  | nil => simp [substitutionStep] at step
  | cons c src => exact ⟨c, rfl, (substitutionStep_cons step).1⟩

theorem Parses.head {items : List SubstitutionItem} {last : SubstitutionEnd}
    (parses : Parses src items last) :
    ∃ c, src.head? = some c ∧ (c = 0 ↔ items = [] ∧ last = .stop) := by
  cases parses with
  | ends step =>
    obtain ⟨c, head, zero⟩ := substitutionStep_head step
    exact ⟨c, head, by simpa using zero⟩
  | item step _ =>
    obtain ⟨c, head, zero⟩ := substitutionStep_head step
    exact ⟨c, head, by simpa using zero⟩

end Parse

section Expansion

variable {len : Nat}

structure Matched (prog : Regexp) (text : List Int32) : Prop where
  magic : prog.magic = utf32regexMagic
  string : Terminated utf32Unit prog.string text
  groups : ∀ no start, prog.startp no = some start → ∃ last, prog.endp no = some last ∧
    start ≤ last ∧ last ≤ text.length

def Regexp.groupLength (prog : Regexp) (no : Nat) : Nat :=
  match prog.startp no, prog.endp no with
  | some start, some last => last - start
  | _, _ => 0

def itemUnits (prog : Regexp) (cut : Nat → Nat) : SubstitutionItem → List Int32
  | .unit c => [c]
  | .group no => (prog.string.drop ((prog.startp no).getD 0)).take (cut (prog.groupLength no))

def expansion (prog : Regexp) (items : List SubstitutionItem) : List Int32 :=
  items.flatMap (itemUnits prog id)

def unsignedInt (len : Nat) : Nat := len % 2 ^ 32

def copiedExpansion (prog : Regexp) (items : List SubstitutionItem) : List Int32 :=
  items.flatMap (itemUnits prog unsignedInt)

variable {prog : Regexp} {text : List Int32}

theorem Matched.group_cases (isMatch : Matched prog text) (no : Nat) :
    prog.startp no = none ∧ prog.groupLength no = 0 ∨
      ∃ start last, prog.startp no = some start ∧ prog.endp no = some last ∧
        start + prog.groupLength no ≤ text.length ∧
        prog.groupLength no = last - start := by
  cases set : prog.startp no with
  | none => exact Or.inl ⟨rfl, by simp [Regexp.groupLength, set]⟩
  | some start =>
    obtain ⟨last, ends, order, inside⟩ := isMatch.groups no start set
    have length : prog.groupLength no = last - start := by simp [Regexp.groupLength, set, ends]
    exact Or.inr ⟨start, last, rfl, ends, by omega, length⟩

theorem Matched.units_length (isMatch : Matched prog text) {cut : Nat → Nat}
    (shorter : ∀ len, cut len ≤ len) (no : Nat) :
    (itemUnits prog cut (.group no)).length = cut (prog.groupLength no) := by
  obtain ⟨behind, split⟩ := isMatch.string.ends
  have longer : text.length ≤ prog.string.length := by
    rw [← split, List.length_append, List.length_append]
    omega
  have short := shorter (prog.groupLength no)
  rw [itemUnits, List.length_take, List.length_drop]
  rcases isMatch.group_cases no with ⟨_, empty⟩ | ⟨start, last, set, _, inside, _⟩
  · omega
  · rw [set, Option.getD_some]
    omega

theorem unsignedInt_le (len : Nat) : unsignedInt len ≤ len := Nat.mod_le _ _

theorem utf32Strncpy_text {front behind : List Int32} (nonzero : ∀ c ∈ front, c ≠ 0)
    (inside : len ≤ front.length) :
    utf32Strncpy len (front ++ behind) = some ((front ++ behind).take len) := by
  induction len generalizing front with
  | zero => rfl
  | succ len ih =>
    cases front with
    | nil => simp at inside
    | cons c front =>
      have rest := ih (fun d member => nonzero d (List.mem_cons_of_mem c member))
        (by simpa using inside)
      simp [utf32Strncpy, nonzero c (by simp), rest]

theorem Matched.copies (isMatch : Matched prog text) {start : Nat}
    (inside : start + len ≤ text.length) :
    utf32Strncpy len (prog.string.drop start) = some ((prog.string.drop start).take len) ∧
      ((prog.string.drop start).take len).getLast? ≠ some 0 := by
  obtain ⟨behind, split⟩ := isMatch.string.ends
  have apart : prog.string.drop start = text.drop start ++ (0 :: behind) := by
    rw [← split, List.append_assoc, List.drop_append_of_le_length (by omega)]
    rfl
  have nonzero : ∀ c ∈ text.drop start, c ≠ 0 :=
    fun c member => isMatch.string.nonzero c (List.mem_of_mem_drop member)
  have room : len ≤ (text.drop start).length := by
    rw [List.length_drop]
    omega
  rw [apart]
  refine ⟨utf32Strncpy_text nonzero room, ?_⟩
  rw [List.take_append_of_le_length room]
  intro last
  exact nonzero 0 (List.mem_of_mem_take (List.mem_of_getLast? last)) rfl

theorem copiedExpansion_append (items more : List SubstitutionItem) :
    copiedExpansion prog (items ++ more) = copiedExpansion prog items ++
      copiedExpansion prog more := List.flatMap_append

theorem Matched.copied_eq (isMatch : Matched prog text) {items : List SubstitutionItem}
    (short : (expansion prog items).length < 2 ^ 32) :
    copiedExpansion prog items = expansion prog items := by
  induction items with
  | nil => rfl
  | cons item items ih =>
    rw [expansion, List.flatMap_cons, List.length_append] at short
    rw [copiedExpansion, expansion, List.flatMap_cons, List.flatMap_cons]
    have rest := ih (by rw [expansion]; omega)
    rw [copiedExpansion, expansion] at rest
    rw [rest]
    cases item with
    | unit c => rfl
    | group no =>
      have length := isMatch.units_length (fun len => Nat.le_refl (id len)) no
      rw [itemUnits, itemUnits, unsignedInt, Nat.mod_eq_of_lt (by rw [id] at length; omega), id]

end Expansion

section Loop

variable {prog : Regexp} {text : List Int32} {dstLen : Nat} {zero : Bool}
variable {src rest written : List Int32} {item : SubstitutionItem}
  {before items : List SubstitutionItem} {last : SubstitutionEnd} {fuel : Nat}

def SubstitutionItem.isGroup : SubstitutionItem → Bool
  | .unit _ => false
  | .group _ => true

def Crosses (prog : Regexp) (dstLen : Nat) (written : List Int32) (item : SubstitutionItem) : Prop :=
  item.isGroup = true ∧ itemUnits prog unsignedInt item ≠ [] ∧
    dstLen ≤ written.length + (itemUnits prog unsignedInt item).length

theorem substituteLoop_crosses (isMatch : Matched prog text)
    (step : substitutionStep src = some (.inr (item, rest))) (room : written.length < dstLen)
    (crosses : Crosses prog dstLen written item) (fuel : Nat) :
    substituteLoop prog dstLen zero (fuel + 1) src written = substituteFinish zero rest written := by
  obtain ⟨isGroup, nonempty, beyond⟩ := crosses
  cases item with
  | unit c => simp [SubstitutionItem.isGroup] at isGroup
  | group no =>
    have length := isMatch.units_length unsignedInt_le no
    have positive := List.length_pos_iff.mpr nonempty
    rw [substituteLoop, if_pos room, step]
    rcases isMatch.group_cases no with ⟨_, empty⟩ | ⟨start, last, set, ends, inside, same⟩
    · rw [empty, unsignedInt, Nat.zero_mod] at length
      omega
    · rw [length, unsignedInt, same] at beyond positive
      simp only [Option.bind_eq_bind, Option.bind_some, set, ends]
      rw [if_neg (by omega), if_pos (by omega)]

theorem substituteLoop_copies (isMatch : Matched prog text)
    (step : substitutionStep src = some (.inr (item, rest))) (room : written.length < dstLen)
    (fits : ¬ Crosses prog dstLen written item) (fuel : Nat) :
    substituteLoop prog dstLen zero (fuel + 1) src written =
      substituteLoop prog dstLen zero fuel rest (written ++ itemUnits prog unsignedInt item) := by
  rw [substituteLoop, if_pos room, step]
  cases item with
  | unit c => rfl
  | group no =>
    have length := isMatch.units_length unsignedInt_le no
    rcases isMatch.group_cases no with ⟨unset, empty⟩ | ⟨start, last, set, ends, inside, same⟩
    · rw [empty, unsignedInt, Nat.zero_mod] at length
      simp [unset, List.length_eq_zero_iff.mp length]
    · simp only [Option.bind_eq_bind, Option.bind_some, set, ends]
      have short := unsignedInt_le (prog.groupLength no)
      have units : itemUnits prog unsignedInt (.group no) =
          (prog.string.drop start).take ((last - start) % 2 ^ 32) := by
        rw [itemUnits, set, Option.getD_some, same, unsignedInt]
      rw [units] at length ⊢
      rw [unsignedInt, same] at length short
      by_cases empty : (last - start) % 2 ^ 32 = 0
      · rw [if_pos empty, empty, List.take_zero, List.append_nil]
      · have within : ¬ written.length + (last - start) % 2 ^ 32 ≥ dstLen := by
          intro beyond
          refine fits ⟨rfl, ?_, ?_⟩
          · rw [units]
            intro none
            rw [none, List.length_nil] at length
            exact empty length.symm
          · rw [units, length]
            exact beyond
        have inText : start + (last - start) % 2 ^ 32 ≤ text.length := by omega
        obtain ⟨copied, noZero⟩ := isMatch.copies inText
        rw [if_neg empty, if_neg within, copied]
        simp only [Option.bind_some]
        rw [if_neg (by omega), if_neg noZero]

theorem substituteLoop_front (zero : Bool) (isMatch : Matched prog text)
    (parses : Parses src (before ++ items) last)
    (enough : src.length < fuel)
    (room : before ≠ [] → written.length + (copiedExpansion prog before).length < dstLen) :
    ∃ rest left, Parses rest items last ∧ rest.length < left ∧
      substituteLoop prog dstLen zero fuel src written =
      substituteLoop prog dstLen zero left rest (written ++ copiedExpansion prog before) := by
  induction before generalizing src written fuel with
  | nil => exact ⟨src, fuel, parses, enough, by simp [copiedExpansion]⟩
  | cons item before ih =>
    rw [List.cons_append] at parses
    cases parses with
    | item step parses =>
      have shorter := substitutionStep_shorter step
      have total := room (List.cons_ne_nil item before)
      rw [copiedExpansion, List.flatMap_cons, List.length_append, ← copiedExpansion] at total
      obtain ⟨fuel, rfl⟩ := Nat.exists_eq_add_of_lt (Nat.lt_of_le_of_lt (Nat.zero_le _) enough)
      have fits : ¬ Crosses prog dstLen written item := by
        rintro ⟨_, _, beyond⟩
        omega
      obtain ⟨rest, left, restParses, restEnough, loop⟩ :=
        @ih _ (written ++ itemUnits prog unsignedInt item) (0 + fuel) parses (by omega) (fun _ => by
          rw [List.length_append]
          omega)
      refine ⟨rest, left, restParses, restEnough, ?_⟩
      rw [substituteLoop_copies isMatch step (by omega) fits, loop, List.append_assoc,
        copiedExpansion, copiedExpansion, List.flatMap_cons]

theorem exists_crossing {start : Nat} (room : start < dstLen)
    (long : dstLen ≤ start + (copiedExpansion prog items).length) :
    ∃ before item after, items = before ++ item :: after ∧
      start + (copiedExpansion prog before).length < dstLen ∧
      dstLen ≤ start + (copiedExpansion prog before).length +
        (itemUnits prog unsignedInt item).length := by
  induction items generalizing start with
  | nil =>
    simp only [copiedExpansion, List.flatMap_nil, List.length_nil] at long
    omega
  | cons item items ih =>
    rw [copiedExpansion, List.flatMap_cons, List.length_append, ← copiedExpansion] at long
    by_cases reaches : dstLen ≤ start + (itemUnits prog unsignedInt item).length
    · exact ⟨[], item, items,
        rfl, by simpa [copiedExpansion] using room, by simpa [copiedExpansion] using reaches⟩
    · obtain ⟨before, crossing, after, split, front, beyond⟩ :=
        @ih (start + (itemUnits prog unsignedInt item).length) (by omega) (by omega)
      refine ⟨item :: before, crossing, after, by rw [split, List.cons_append], ?_, ?_⟩
      · rw [copiedExpansion, List.flatMap_cons, List.length_append, ← copiedExpansion]
        omega
      · rw [copiedExpansion, List.flatMap_cons, List.length_append, ← copiedExpansion]
        omega

theorem substituteFinish_outcome (zero : Bool) (written : List Int32)
    (parses : Parses src items last) :
    ∃ rval, substituteFinish zero src written = some ⟨rval, written⟩ ∧
      (rval = 0 ∧ zero = false ∧ items = [] ∧ last = .stop ∨ rval < 0 ∧
        ¬ (zero = false ∧ items = [] ∧ last = .stop)) := by
  obtain ⟨c, head, empty⟩ := parses.head
  rw [substituteFinish, head, Option.bind_eq_bind, Option.bind_some]
  by_cases finished : zero = false ∧ c = 0
  · refine ⟨0, ?_, Or.inl ⟨rfl, finished.1, empty.mp finished.2⟩⟩
    rw [if_neg (by simp [finished])]
  · refine ⟨-e2big, ?_, Or.inr ⟨by decide, fun same => finished ⟨same.1, empty.mpr same.2⟩⟩⟩
    rw [if_pos]
    cases zero with
    | true => exact Or.inl rfl
    | false => exact Or.inr fun isEnd => finished ⟨rfl, isEnd⟩

theorem regexSubstitute_fits (zero : Bool) (isMatch : Matched prog text)
    (parses : Parses src items last) (fits : (copiedExpansion prog items).length < dstLen) :
    ∃ rval, regexSubstitute prog src dstLen zero =
        some ⟨rval, if last = .stop ∧ zero then copiedExpansion prog items ++ [0]
          else copiedExpansion prog items⟩ ∧
      (rval = 0 ∧ last = .stop ∨ rval < 0 ∧ last ≠ .stop) := by
  rw [← List.append_nil items] at parses
  obtain ⟨rest, left, restParses, enough, loop⟩ := substituteLoop_front zero isMatch parses
    (Nat.lt_succ_self src.length) (fun _ => by rwa [List.length_nil, Nat.zero_add])
  obtain ⟨left, rfl⟩ := Nat.exists_eq_add_of_lt (Nat.lt_of_le_of_lt (Nat.zero_le _) enough)
  rw [regexSubstitute, if_neg (not_not.mpr isMatch.magic), loop, substituteLoop, List.nil_append,
    if_pos fits]
  cases restParses with
  | ends step =>
    rw [step, Option.bind_eq_bind, Option.bind_some]
    cases last with
    | stop => exact ⟨0, by simp, Or.inl ⟨rfl, rfl⟩⟩
    | backslash => exact ⟨-efault, by simp, Or.inr ⟨by decide, by decide⟩⟩
    | octal => exact ⟨-eperm, by simp, Or.inr ⟨by decide, by decide⟩⟩

structure TakenForFinished (prog : Regexp) (dstLen : Nat) (zero : Bool)
    (items : List SubstitutionItem) (last : SubstitutionEnd) : Prop where
  zero : zero = false
  last : last = .stop
  front : ∀ before item, items = before ++ [item] → (copiedExpansion prog before).length < dstLen

theorem takenForFinished_iff {after : List SubstitutionItem}
    (room : (copiedExpansion prog before).length < dstLen)
    (reaches : dstLen ≤ (copiedExpansion prog before).length +
      (itemUnits prog unsignedInt item).length) :
    TakenForFinished prog dstLen zero (before ++ item :: after) last ↔ zero = false ∧ after = [] ∧
    last = .stop := by
  constructor
  · rintro ⟨noZero, isStop, front⟩
    refine ⟨noZero, ?_, isStop⟩
    rcases List.eq_nil_or_concat after with empty | ⟨middle, final, split⟩
    · exact empty
    · have short := front (before ++ item :: middle) final (by simp [split])
      rw [copiedExpansion_append, List.length_append, copiedExpansion, copiedExpansion,
        List.flatMap_cons, List.length_append, ← copiedExpansion] at short
      omega
  · rintro ⟨noZero, rfl, isStop⟩
    refine ⟨noZero, isStop, ?_⟩
    intro front final split
    obtain ⟨rfl, _⟩ := List.append_inj' split rfl
    exact room

theorem substituteLoop_reaches (zero : Bool) (isMatch : Matched prog text)
    (step : substitutionStep src = some (.inr (item, rest)))
    (parses : Parses rest items last) (room : (copiedExpansion prog before).length < dstLen)
    (reaches : dstLen ≤ (copiedExpansion prog before).length +
      (itemUnits prog unsignedInt item).length)
    (enough : src.length < fuel) :
    ∃ rval written, substituteLoop prog dstLen zero fuel src (copiedExpansion prog before) =
      some ⟨rval, written⟩ ∧
      written.length ≤ dstLen ∧ written = copiedExpansion prog before ++
        (if item.isGroup then [] else itemUnits prog unsignedInt item) ∧
      (rval = 0 ∧ zero = false ∧ items = [] ∧ last = .stop ∨ rval < 0 ∧
        ¬ (zero = false ∧ items = [] ∧ last = .stop)) := by
  obtain ⟨fuel, rfl⟩ := Nat.exists_eq_add_of_lt (Nat.lt_of_le_of_lt (Nat.zero_le _) enough)
  have shorter := substitutionStep_shorter step
  have nonempty : itemUnits prog unsignedInt item ≠ [] := by
    intro empty
    rw [empty, List.length_nil] at reaches
    omega
  cases item with
  | group no =>
    obtain ⟨rval, finishes, outcome⟩ :=
      substituteFinish_outcome zero (copiedExpansion prog before) parses
    refine ⟨rval, copiedExpansion prog before, ?_, Nat.le_of_lt room, (List.append_nil _).symm,
      outcome⟩
    rw [substituteLoop_crosses isMatch step room ⟨rfl, nonempty, reaches⟩, finishes]
  | unit c =>
    have fits : ¬ Crosses prog dstLen (copiedExpansion prog before) (.unit c) := by
      rintro ⟨isGroup, _⟩
      simp [SubstitutionItem.isGroup] at isGroup
    have full : (copiedExpansion prog before ++ [c]).length = dstLen := by
      rw [itemUnits, List.length_singleton] at reaches
      rw [List.length_append, List.length_singleton]
      omega
    obtain ⟨rval, finishes, outcome⟩ :=
      substituteFinish_outcome zero (copiedExpansion prog before ++ [c]) parses
    refine ⟨rval, copiedExpansion prog before ++ [c], ?_, Nat.le_of_eq full, rfl, outcome⟩
    rw [substituteLoop_copies isMatch step room fits, itemUnits]
    obtain ⟨left, same⟩ := Nat.exists_eq_add_of_lt (show 0 < 0 + fuel by omega)
    rw [same, substituteLoop, if_neg (by omega), finishes]

theorem regexSubstitute_crosses (zero : Bool) (isMatch : Matched prog text)
    (parses : Parses src items last) (long : dstLen ≤ (copiedExpansion prog items).length) :
    ∃ rval written, regexSubstitute prog src dstLen zero = some ⟨rval, written⟩ ∧
      written.length ≤ dstLen ∧
      (rval = 0 ∧ TakenForFinished prog dstLen zero items last ∧
        (∀ before item, items = before ++ [item] →
          written = copiedExpansion prog before ++ if item.isGroup then
            [] else itemUnits prog unsignedInt item) ∨
      rval < 0 ∧ ¬ TakenForFinished prog dstLen zero items last) := by
  rw [regexSubstitute, if_neg (not_not.mpr isMatch.magic)]
  rcases Nat.eq_zero_or_pos dstLen with rfl | positive
  · obtain ⟨rval, finishes, outcome⟩ := substituteFinish_outcome zero [] parses
    refine ⟨rval, [], ?_, Nat.zero_le _, ?_⟩
    · rw [substituteLoop, if_neg (Nat.not_lt_zero _), finishes]
    · rcases outcome with ⟨isZero, noZero, rfl, isStop⟩ | ⟨negative, unfinished⟩
      · exact Or.inl ⟨isZero, ⟨noZero, isStop, by simp⟩, by simp⟩
      · refine Or.inr ⟨negative, ?_⟩
        rintro ⟨noZero, isStop, front⟩
        rcases List.eq_nil_or_concat items with empty | ⟨before, item, split⟩
        · exact unfinished ⟨noZero, empty, isStop⟩
        · exact absurd (front before item (by rw [split, List.concat_eq_append])) (Nat.not_lt_zero _)
  · obtain ⟨before, item, after, rfl, room, reaches⟩ :=
      exists_crossing positive (by rwa [Nat.zero_add])
    rw [Nat.zero_add] at room reaches
    obtain ⟨rest, left, restParses, enough, loop⟩ := substituteLoop_front zero isMatch parses
      (Nat.lt_succ_self src.length) (fun _ => by rwa [List.length_nil, Nat.zero_add])
    rw [loop, List.nil_append, takenForFinished_iff room reaches]
    cases restParses with
    | item step afterParses =>
      obtain ⟨rval, written, runs, within, units, outcome⟩ :=
        substituteLoop_reaches zero isMatch step afterParses room reaches enough
      refine ⟨rval, written, runs, within, ?_⟩
      rcases outcome with ⟨isZero, finished⟩ | unfinished
      · refine Or.inl ⟨isZero, finished, ?_⟩
        obtain ⟨_, rfl, _⟩ := finished
        intro front final split
        obtain ⟨rfl, same⟩ := List.append_inj' split rfl
        obtain rfl := List.singleton_inj.mp same
        exact units
      · exact Or.inr unfinished

end Loop

section Length

variable {prog : Regexp} {text : List Int32}
variable {src : List Int32} {items : List SubstitutionItem} {last : SubstitutionEnd}

/-- The returned value, where `size` is the length of the expansion modulo 2^64. -/
def reportedLength (last : SubstitutionEnd) (size : Nat) : Nat :=
  match last with
  | .stop => if size % 2 ^ 32 ≠ size then 2 ^ 64 - 1 else size
  | .backslash => 2 ^ 32 - 1
  | .octal => 0

theorem substitutionLengthLoop_expansion (isMatch : Matched prog text)
    (parses : Parses src items last) {fuel : Nat} (enough : src.length < fuel) {dstLen : Nat}
    (isSize : dstLen < 2 ^ 64) : substitutionLengthLoop prog fuel src dstLen =
      some (reportedLength last ((dstLen + (expansion prog items).length) % 2 ^ 64)) := by
  induction parses generalizing fuel dstLen with
  | ends step =>
    obtain ⟨fuel, rfl⟩ := Nat.exists_eq_add_of_lt (Nat.lt_of_le_of_lt (Nat.zero_le _) enough)
    rw [substitutionLengthLoop, step, Option.bind_eq_bind, Option.bind_some]
    rename_i last
    cases last with
    | stop =>
      have nothing : (dstLen + (expansion prog []).length) % 2 ^ 64 = dstLen :=
        Nat.mod_eq_of_lt isSize
      rw [nothing]
      rfl
    | backslash => rfl
    | octal => rfl
  | item step parses ih =>
    obtain ⟨fuel, rfl⟩ := Nat.exists_eq_add_of_lt (Nat.lt_of_le_of_lt (Nat.zero_le _) enough)
    have shorter := substitutionStep_shorter step
    rw [substitutionLengthLoop, step, Option.bind_eq_bind, Option.bind_some, expansion,
      List.flatMap_cons, List.length_append, ← expansion, ← Nat.add_assoc]
    rename_i item _ _
    have wrapped : ∀ size, size % 2 ^ 64 < 2 ^ 64 := fun size => Nat.mod_lt _ (Nat.two_pow_pos 64)
    cases item with
    | unit c =>
      dsimp only
      rw [ih (by omega) (wrapped _), Nat.mod_add_mod]
      rfl
    | group no =>
      rw [isMatch.units_length (fun len => Nat.le_refl (id len)) no, id]
      rcases isMatch.group_cases no with ⟨unset, empty⟩ | ⟨start, last, set, ends, _, same⟩
      · dsimp only
        rw [unset, empty, Nat.add_zero]
        exact ih (by omega) isSize
      · dsimp only
        rw [set, ends, same, ← Nat.mod_add_mod]
        exact ih (by omega) (wrapped _)

theorem regexSubstitutionLength_expansion (isMatch : Matched prog text)
    (parses : Parses src items last) :
    regexSubstitutionLength prog src =
      some (reportedLength last ((expansion prog items).length % 2 ^ 64)) := by
  rw [regexSubstitutionLength, if_neg (not_not.mpr isMatch.magic),
    substitutionLengthLoop_expansion isMatch parses (Nat.lt_succ_self _) (Nat.two_pow_pos 64),
    Nat.zero_add]

end Length

section LengthFollowed

variable {prog : Regexp} {text : List Int32} {dstLen : Nat} {zero : Bool}
variable {src : List Int32} {items : List SubstitutionItem} {length : Nat} {result : Substitution}
  {written : List Int32}

/-- The documented error is `(unsigned int) -1`, and the code also returns `-1`. -/
def ReportsError (length : Nat) : Prop := length = 2 ^ 32 - 1 ∨ length = 2 ^ 64 - 1

structure Follows (prog : Regexp) (items : List SubstitutionItem) (dstLen : Nat) (zero : Bool)
    (length : Nat) (result : Substitution) : Prop where
  inside : result.written.length ≤ dstLen
  error : ReportsError length → result.rval < 0
  room : ¬ ReportsError length → length + zero.toNat ≤ dstLen →
    result.rval = 0 ∧ length = (expansion prog items).length ∧
      result.written = expansion prog items ++ if zero then [0] else []
  small : ¬ ReportsError length → dstLen < length + zero.toNat → result.rval < 0

def SubstituteFollowsLength (prog : Regexp) (src : List Int32) (items : List SubstitutionItem)
    (dstLen : Nat) (zero : Bool) : Prop :=
  ∃ length result, regexSubstitutionLength prog src = some length ∧
    regexSubstitute prog src dstLen zero = some result ∧
    Follows prog items dstLen zero length result

/-- A malformed `\\0` is no error of the length. A last group must be copied, and it must be missed
if it is not. A length from 2^64 on wraps, and `dstLen` must be too short even for what is left. -/
def LengthFollowed (prog : Regexp) (items : List SubstitutionItem) (dstLen : Nat) (zero : Bool) :
    SubstitutionEnd → Prop
  | .backslash => True
  | .octal => zero = true ∧ dstLen = 0
  | .stop =>
    ((expansion prog items).length < 2 ^ 32 - 1 → zero = false → ∀ before no,
      items = before ++ [.group no] →
      (expansion prog items).length < dstLen ∨
        dstLen < (expansion prog items).length ∧ dstLen ≤ (expansion prog before).length) ∧
    (2 ^ 32 - 1 ≤ (expansion prog items).length →
      ((expansion prog items).length % 2 ^ 64 < 2 ^ 32 - 1 →
        dstLen < (expansion prog items).length % 2 ^ 64 + zero.toNat) ∧
      dstLen ≤ (copiedExpansion prog items).length ∧
      (zero = false → ∀ before item, items = before ++ [item] →
        dstLen ≤ (copiedExpansion prog before).length))

theorem regexSubstitute_fails (isMatch : Matched prog text)
    {last : SubstitutionEnd} (parses : Parses src items last) (notStop : last ≠ .stop) :
    ∃ rval written, regexSubstitute prog src dstLen zero = some ⟨rval, written⟩ ∧
      written.length ≤ dstLen ∧ rval < 0 := by
  by_cases fits : (copiedExpansion prog items).length < dstLen
  · obtain ⟨rval, runs, outcome⟩ := regexSubstitute_fits zero isMatch parses fits
    rw [if_neg (by simp [notStop])] at runs
    rcases outcome with ⟨_, isStop⟩ | ⟨negative, _⟩
    · exact absurd isStop notStop
    · exact ⟨rval, _, runs, Nat.le_of_lt fits, negative⟩
  · obtain ⟨rval, written, runs, inside, outcome⟩ :=
      regexSubstitute_crosses zero isMatch parses (Nat.le_of_not_lt fits)
    rcases outcome with ⟨_, taken, _⟩ | ⟨negative, _⟩
    · exact absurd taken.last notStop
    · exact ⟨rval, written, runs, inside, negative⟩

theorem substituteFollowsLength_iff_follows
    (lengthRuns : regexSubstitutionLength prog src = some length)
    (runs : regexSubstitute prog src dstLen zero = some result) :
    SubstituteFollowsLength prog src items dstLen zero ↔
    Follows prog items dstLen zero length result := by
  constructor
  · rintro ⟨otherLength, other, lengthSame, same, follows⟩
    obtain rfl := Option.some.inj (lengthRuns.symm.trans lengthSame)
    obtain rfl := Option.some.inj (runs.symm.trans same)
    exact follows
  · intro follows
    exact ⟨length, result, lengthRuns, runs, follows⟩

theorem follows_negative (inside : result.written.length ≤ dstLen) (negative : result.rval < 0) :
    Follows prog items dstLen zero length result ↔ ReportsError length ∨
    dstLen < length + zero.toNat := by
  constructor
  · intro follows
    by_contra none
    rw [not_or] at none
    have isZero := (follows.room none.1 (Nat.le_of_not_lt none.2)).1
    omega
  · intro either
    refine ⟨inside, fun _ => negative, ?_, fun _ _ => negative⟩
    intro noError room
    rcases either with error | small
    · exact absurd error noError
    · omega

theorem follows_zero (inside : written.length ≤ dstLen) :
    Follows prog items dstLen zero length ⟨0, written⟩ ↔ ¬ ReportsError length ∧
    length + zero.toNat ≤ dstLen ∧
      length = (expansion prog items).length ∧ written = expansion prog items ++ if zero then
        [0] else [] := by
  constructor
  · intro follows
    have noError : ¬ ReportsError length := fun error => Int.lt_irrefl 0 (follows.error error)
    have room : length + zero.toNat ≤ dstLen := by
      by_contra small
      exact Int.lt_irrefl 0 (follows.small noError (Nat.lt_of_not_le small))
    exact ⟨noError, room, (follows.room noError room).2⟩
  · rintro ⟨noError, room, length, written⟩
    exact ⟨inside, fun error => absurd error noError, fun _ _ => ⟨rfl, length, written⟩,
      fun _ small => by omega⟩

theorem follows_error (error : ReportsError length)
    (inside : result.written.length ≤ dstLen) : Follows prog items dstLen zero length result ↔
    result.rval < 0 := by
  constructor
  · intro follows
    exact follows.error error
  · intro negative
    exact (follows_negative inside negative).mpr (Or.inl error)

theorem expansion_concat (prog : Regexp) (before : List SubstitutionItem) (item : SubstitutionItem) :
    expansion prog (before ++ [item]) = expansion prog before ++ itemUnits prog id item := by
  simp [expansion]

theorem TakenForFinished.of_front {before : List SubstitutionItem} {item : SubstitutionItem}
    (noZero : zero = false) (room : (copiedExpansion prog before).length < dstLen) :
    TakenForFinished prog dstLen zero (before ++ [item]) .stop := by
  refine ⟨noZero, rfl, ?_⟩
  intro front final split
  obtain ⟨rfl, _⟩ := List.append_inj' split rfl
  exact room

theorem follows_stop_short (isMatch : Matched prog text)
    (parses : Parses src items .stop) (short : (expansion prog items).length < 2 ^ 32 - 1) :
    SubstituteFollowsLength prog src items dstLen zero ↔
    (zero = false → ∀ before no, items = before ++ [.group no] →
      (expansion prog items).length < dstLen ∨
        dstLen < (expansion prog items).length ∧ dstLen ≤ (expansion prog before).length) := by
  have copied := isMatch.copied_eq (by omega : (expansion prog items).length < 2 ^ 32)
  have copiedFront : ∀ before item, items = before ++ [item] →
      copiedExpansion prog before = expansion prog before := by
    rintro before item rfl
    rw [expansion_concat, List.length_append] at short
    exact isMatch.copied_eq (by omega)
  have lengthRuns := regexSubstitutionLength_expansion isMatch parses
  rw [Nat.mod_eq_of_lt (by omega), reportedLength,
    if_neg (by rw [Nat.mod_eq_of_lt (by omega)]; simp)] at lengthRuns
  have noError : ¬ ReportsError (expansion prog items).length := by
    rintro (same | same)
    · omega
    · omega
  by_cases fits : (expansion prog items).length < dstLen
  · obtain ⟨rval, runs, outcome⟩ := regexSubstitute_fits zero isMatch parses (by rwa [copied])
    have isZero : rval = 0 := by
      rcases outcome with ⟨isZero, _⟩ | ⟨_, notStop⟩
      · exact isZero
      · exact absurd rfl notStop
    subst isZero
    rw [substituteFollowsLength_iff_follows lengthRuns runs, copied]
    have room : (expansion prog items).length + zero.toNat ≤ dstLen :=
      Nat.le_trans (Nat.add_le_add_left zero.toNat_le _) fits
    refine iff_of_true ((follows_zero ?_).mpr ⟨noError, room, rfl, ?_⟩) (fun _ _ _ _ => Or.inl fits)
    · cases zero with
      | false => simpa using Nat.le_of_lt fits
      | true => simpa using Nat.succ_le_of_lt fits
    · cases zero with
      | false => simp
      | true => simp
  · have long : dstLen ≤ (copiedExpansion prog items).length := by
      rw [copied]
      exact Nat.le_of_not_lt fits
    obtain ⟨rval, written, runs, inside, outcome⟩ := regexSubstitute_crosses zero isMatch parses long
    rw [substituteFollowsLength_iff_follows lengthRuns runs]
    rcases outcome with ⟨rfl, taken, units⟩ | ⟨negative, notTaken⟩
    · obtain rfl := taken.zero
      rw [follows_zero inside]
      rcases List.eq_nil_or_concat items with rfl | ⟨before, item, split⟩
      · have empty : written = [] := by
          rw [expansion, List.flatMap_nil, List.length_nil] at fits
          exact List.length_eq_zero_iff.mp (by omega)
        refine iff_of_true ⟨noError, ?_, rfl, by simp [empty, expansion]⟩ (by simp)
        simp [expansion]
      · rw [List.concat_eq_append] at split
        have same := units before item split
        have front := taken.front before item split
        rw [copiedFront before item split] at same front
        subst split
        cases item with
        | unit c =>
          have all : written = expansion prog (before ++ [.unit c]) := by
            rw [same, expansion_concat]
            rfl
          refine iff_of_true ⟨noError, ?_, rfl, by simp [all]⟩ ?_
          · rw [← all]
            simpa using inside
          · intro _ other no split
            have unequal := (List.append_inj' split rfl).2
            simp at unequal
        | group no =>
          have all : written = expansion prog before := by
            rw [same]
            simp [SubstitutionItem.isGroup]
          refine iff_of_false ?_ ?_
          · rintro ⟨_, room, _, whole⟩
            have lengths := congrArg List.length whole
            rw [all] at lengths
            simp at lengths room
            omega
          · intro holds
            have claimed := holds rfl before no rfl
            omega
    · rw [follows_negative inside negative]
      cases zero with
      | true =>
        refine iff_of_true (Or.inr ?_) (by simp)
        rw [Bool.toNat_true]
        omega
      | false =>
        rcases List.eq_nil_or_concat items with rfl | ⟨before, item, split⟩
        · exact absurd ⟨rfl, rfl, by simp⟩ notTaken
        · rw [List.concat_eq_append] at split
          subst split
          have missed : dstLen ≤ (expansion prog before).length := by
            rw [← copiedFront before item rfl]
            by_contra room
            exact notTaken (TakenForFinished.of_front rfl (Nat.lt_of_not_le room))
          have total := congrArg List.length (expansion_concat prog before item)
          rw [List.length_append] at total
          rw [Bool.toNat_false, Nat.add_zero]
          constructor
          · rintro (error | small)
            · exact absurd error noError
            · rintro _ other no split
              obtain ⟨rfl, _⟩ := List.append_inj' split rfl
              exact Or.inr ⟨small, missed⟩
          · intro holds
            cases item with
            | unit c =>
              rw [itemUnits, List.length_singleton] at total
              exact Or.inr (by omega)
            | group no =>
              rcases holds rfl before no rfl with room | ⟨small, _⟩
              · exact absurd room fits
              · exact Or.inr small

theorem reportsError_or_wraps (size : Nat) :
    2 ^ 32 - 1 ≤ size % 2 ^ 64 ∧ ReportsError (reportedLength .stop (size % 2 ^ 64)) ∨
      size % 2 ^ 64 < 2 ^ 32 - 1 ∧ reportedLength .stop (size % 2 ^ 64) = size % 2 ^ 64 := by
  rw [reportedLength]
  rcases Nat.lt_or_ge (size % 2 ^ 64) (2 ^ 32 - 1) with short | far
  · exact .inr ⟨short, if_neg (by rw [Nat.mod_eq_of_lt (Nat.lt_of_lt_pred short)]; simp)⟩
  · refine .inl ⟨far, ?_⟩
    split
    next => exact .inr rfl
    next same => exact .inl (by omega)

/-- Success is never right for a length that does not fit. -/
theorem not_follows_zero_long (long : 2 ^ 32 - 1 ≤ (expansion prog items).length) :
    ¬ Follows prog items dstLen zero (reportedLength .stop ((expansion prog items).length % 2 ^ 64))
      ⟨0, written⟩ := by
  intro follows
  obtain ⟨noError, _, length, _⟩ := (follows_zero follows.inside).mp follows
  rcases reportsError_or_wraps _ with ⟨_, error⟩ | ⟨short, wrapped⟩
  · exact noError error
  · rw [wrapped] at length
    omega

theorem reportsError_or_small_iff (size : Nat) :
    (ReportsError (reportedLength .stop (size % 2 ^ 64)) ∨
        dstLen < reportedLength .stop (size % 2 ^ 64) + zero.toNat) ↔
      (size % 2 ^ 64 < 2 ^ 32 - 1 → dstLen < size % 2 ^ 64 + zero.toNat) := by
  rcases reportsError_or_wraps _ with ⟨far, error⟩ | ⟨short, wrapped⟩
  · exact iff_of_true (.inl error) fun short => absurd short (Nat.not_lt.mpr far)
  · have noError : ¬ ReportsError (size % 2 ^ 64) := by
      rintro (same | same)
      · omega
      · omega
    rw [wrapped, or_iff_right noError]
    exact ⟨fun small _ => small, fun small => small short⟩

theorem follows_stop_long (isMatch : Matched prog text)
    (parses : Parses src items .stop) (long : 2 ^ 32 - 1 ≤ (expansion prog items).length) :
    SubstituteFollowsLength prog src items dstLen zero ↔
      ((expansion prog items).length % 2 ^ 64 < 2 ^ 32 - 1 →
        dstLen < (expansion prog items).length % 2 ^ 64 + zero.toNat) ∧
      dstLen ≤ (copiedExpansion prog items).length ∧
      (zero = false → ∀ before item, items = before ++ [item] →
        dstLen ≤ (copiedExpansion prog before).length) := by
  have lengthRuns := regexSubstitutionLength_expansion isMatch parses
  by_cases fits : (copiedExpansion prog items).length < dstLen
  · obtain ⟨rval, runs, outcome⟩ := regexSubstitute_fits zero isMatch parses fits
    rw [substituteFollowsLength_iff_follows lengthRuns runs]
    rcases outcome with ⟨rfl, _⟩ | ⟨_, notStop⟩
    · exact iff_of_false (not_follows_zero_long long) (by omega)
    · exact absurd rfl notStop
  · obtain ⟨rval, written, runs, inside, outcome⟩ :=
      regexSubstitute_crosses zero isMatch parses (Nat.le_of_not_lt fits)
    rw [substituteFollowsLength_iff_follows lengthRuns runs]
    rcases outcome with ⟨rfl, taken, _⟩ | ⟨negative, notTaken⟩
    · refine iff_of_false (not_follows_zero_long long) ?_
      rintro ⟨_, _, missed⟩
      rcases List.eq_nil_or_concat items with rfl | ⟨before, item, split⟩
      · simp [expansion] at long
      · rw [List.concat_eq_append] at split
        have front := taken.front before item split
        have beyond := missed taken.zero before item split
        omega
    · rw [follows_negative inside negative, reportsError_or_small_iff]
      refine (and_iff_left ⟨Nat.le_of_not_lt fits, ?_⟩).symm
      rintro noZero before item rfl
      by_contra room
      exact notTaken (TakenForFinished.of_front noZero (Nat.lt_of_not_le room))

/-- The function follows the length exactly where `LengthFollowed` holds. -/
theorem regexSubstitute_followsLength_iff (isMatch : Matched prog text) {src replacement : List Int32}
    (terminated : Terminated utf32Unit src replacement) (dstLen : Nat) (zero : Bool) :
    ∃ items last, Parses src items last ∧
      (SubstituteFollowsLength prog src items dstLen zero ↔ LengthFollowed prog items dstLen
        zero last) := by
  obtain ⟨items, last, parses⟩ := terminated.parses
  refine ⟨items, last, parses, ?_⟩
  have lengthRuns := regexSubstitutionLength_expansion isMatch parses
  cases last with
  | stop =>
    rcases Nat.lt_or_ge (expansion prog items).length (2 ^ 32 - 1) with short | long
    · rw [follows_stop_short isMatch parses short, LengthFollowed]
      constructor
      · intro holds
        exact ⟨fun _ => holds, fun long => by omega⟩
      · intro holds
        exact holds.1 short
    · rw [follows_stop_long isMatch parses long, LengthFollowed]
      constructor
      · intro holds
        exact ⟨fun short => by omega, fun _ => holds⟩
      · intro holds
        exact holds.2 long
  | backslash =>
    obtain ⟨rval, written, runs, inside, negative⟩ := regexSubstitute_fails isMatch parses (by decide)
    have error : ReportsError
      (reportedLength .backslash ((expansion prog items).length % 2 ^ 64)) := Or.inl rfl
    rw [substituteFollowsLength_iff_follows lengthRuns runs, follows_error error inside]
    exact iff_of_true negative trivial
  | octal =>
    obtain ⟨rval, written, runs, inside, negative⟩ := regexSubstitute_fails isMatch parses (by decide)
    have noError : ¬ ReportsError 0 := by
      rintro (same | same)
      · omega
      · omega
    rw [substituteFollowsLength_iff_follows lengthRuns runs, follows_negative inside negative,
      LengthFollowed]
    simp only [reportedLength, noError, false_or, Nat.zero_add]
    cases zero with
    | false => simp
    | true => simp

def wholeMatch : Regexp where
  startp no := if no = 0 then some 0 else none
  endp no := if no = 0 then some 2 else none
  string := [0x61, 0x62, 0]
  magic := utf32regexMagic

theorem wholeMatch_matched : Matched wholeMatch [0x61, 0x62] := by
  constructor
  · rfl
  · exact ⟨by simp [utf32Unit], [], rfl⟩
  · intro no start set
    by_cases first : no = 0
    · subst first
      obtain rfl : 0 = start := by simpa [wholeMatch] using set
      exact ⟨2, rfl, by decide, by decide⟩
    · simp [wholeMatch, first] at set

theorem regexSubstitute_followsLength_iff_whole :
    ∃ items last, Parses [0x26, 0] items last ∧
      (SubstituteFollowsLength wholeMatch [0x26, 0] items 2 false ↔ LengthFollowed wholeMatch items
        2 false last) := by
  have terminated : Terminated utf32Unit [0x26, 0] [0x26] := ⟨by simp [utf32Unit], [], rfl⟩
  exact regexSubstitute_followsLength_iff wholeMatch_matched terminated 2 false

/-- Nothing of the two units of "&" is written where there is room for one, and that is no error. -/
theorem regexSubstitute_truncates :
    Matched wholeMatch [0x61, 0x62] ∧ Parses [0x26, 0] [.group 0] .stop ∧
      regexSubstitutionLength wholeMatch [0x26, 0] = some 2 ∧
      regexSubstitute wholeMatch [0x26, 0] 1 false = some ⟨0, []⟩ ∧
      ¬ SubstituteFollowsLength wholeMatch [0x26, 0] [.group 0] 1 false := by
  have lengthRuns : regexSubstitutionLength wholeMatch [0x26, 0] = some 2 := by decide
  have runs : regexSubstitute wholeMatch [0x26, 0] 1 false = some ⟨0, []⟩ := by decide
  refine ⟨wholeMatch_matched, .item rfl (.ends rfl), lengthRuns, runs, ?_⟩
  rw [substituteFollowsLength_iff_follows lengthRuns runs]
  intro follows
  have noError : ¬ ReportsError 2 := by
    rintro (same | same)
    · omega
    · omega
  exact Int.lt_irrefl 0 (follows.small noError (by decide))

end LengthFollowed

end MulleCore
