import Mathlib.Data.List.Basic

/-!
The command line that `mulle_spawn_command_init` of `mulle-spawn-windows.c` builds, and the rules of
the C runtime that splits it again in the child.
-/

namespace MulleCore

abbrev Wide : Type := UInt16

def wideBlank : Wide := 32
def wideTab : Wide := 9
def wideNewline : Wide := 10
def wideVerticalTab : Wide := 11
def wideQuote : Wide := 34
def wideBackslash : Wide := 92

def needsQuotes : List Wide := [wideBlank, wideTab, wideNewline, wideVerticalTab, wideQuote]

def spawnQuoted (arg : List Wide) : Bool := arg.isEmpty || arg.any fun c => needsQuotes.contains c

def spawnArgumentLoop (quoted : Bool) : Nat → List Wide → List Wide
  | backslashes, [] =>
    if quoted then List.replicate (backslashes * 2) wideBackslash ++ [wideQuote]
    else List.replicate backslashes wideBackslash
  | backslashes, c :: arg =>
    if c = wideBackslash then spawnArgumentLoop quoted (backslashes + 1) arg
    else if c = wideQuote then
      List.replicate (backslashes * 2 + 1) wideBackslash ++ c :: spawnArgumentLoop quoted 0 arg
    else List.replicate backslashes wideBackslash ++ c :: spawnArgumentLoop quoted 0 arg

def spawnWbufferAppendArgument (bytes arg : List Wide) : List Wide :=
  let quoted := spawnQuoted arg
  (if quoted then bytes ++ [wideQuote] else bytes) ++ spawnArgumentLoop quoted 0 arg

def spawnCommandInit : List (List Wide) → List Wide
  | [] => []
  | first :: rest =>
    rest.foldl (fun bytes arg => spawnWbufferAppendArgument (bytes ++ [wideBlank]) arg)
      (spawnWbufferAppendArgument [] first)

/-- The arguments behind the program name. `arg` is the one that is being read, less its last
`backslashes`. -/
def runtimeArguments (quoting : Bool) (backslashes : Nat) (arg : Option (List Wide)) :
    List Wide → List (List Wide)
  | [] =>
    match arg with
    | none => []
    | some arg => [arg ++ List.replicate backslashes wideBackslash]
  | c :: line =>
    if c = wideBackslash then runtimeArguments quoting (backslashes + 1) (some (arg.getD [])) line
    else if c = wideQuote then
      if backslashes % 2 = 0 then
        runtimeArguments (!quoting) 0
          (some (arg.getD [] ++ List.replicate (backslashes / 2) wideBackslash)) line
      else
        runtimeArguments quoting 0
          (some (arg.getD [] ++ List.replicate (backslashes / 2) wideBackslash ++ [c])) line
    else if (c = wideBlank ∨ c = wideTab) ∧ quoting = false then
      match arg with
      | none => runtimeArguments false 0 none line
      | some arg =>
        (arg ++ List.replicate backslashes wideBackslash) :: runtimeArguments false 0 none line
    else runtimeArguments quoting 0
      (some (arg.getD [] ++ List.replicate backslashes wideBackslash ++ [c])) line

/-- A program name is a path, in which quotes keep blanks together but backslashes escape nothing.
-/
def runtimeProgramName (quoting : Bool) (name : List Wide) : List Wide → List Wide × List Wide
  | [] => (name, [])
  | c :: line =>
    if c = wideQuote then runtimeProgramName (!quoting) name line
    else if (c = wideBlank ∨ c = wideTab) ∧ quoting = false then (name, line)
    else runtimeProgramName quoting (name ++ [c]) line

def runtimeParse (line : List Wide) : List (List Wide) :=
  (runtimeProgramName false [] line).1 :: runtimeArguments false 0 none (runtimeProgramName false
    [] line).2

section Arguments

variable {arg line : List Wide} {n : Nat} {c : Wide}

theorem runtimeArguments_backslashes (quoting : Bool) (arg : List Wide) (n : Nat) (line : List Wide) :
    ∀ more, runtimeArguments quoting n (some arg) (List.replicate more wideBackslash ++ line) =
      runtimeArguments quoting (n + more) (some arg) line := by
  intro more
  induction more generalizing n with
  | zero => rfl
  | succ more ih =>
    rw [List.replicate_succ, List.cons_append, runtimeArguments, if_pos rfl, Option.getD_some, ih,
      Nat.add_right_comm]
    rfl

theorem runtimeArguments_plain {quoting : Bool} (notBackslash : c ≠ wideBackslash)
    (notQuote : c ≠ wideQuote) (inside : quoting = true ∨ (c ≠ wideBlank ∧ c ≠ wideTab))
    (arg : Option (List Wide)) (n : Nat) (line : List Wide) :
    runtimeArguments quoting n arg (c :: line) =
      runtimeArguments quoting 0 (some (arg.getD [] ++ List.replicate n wideBackslash ++ [c]))
        line := by
  have stays : ¬((c = wideBlank ∨ c = wideTab) ∧ quoting = false) := by
    rintro ⟨blank, outside⟩
    rcases inside with quoted | ⟨notBlank, notTab⟩
    · exact nomatch quoted.symm.trans outside
    · exact blank.elim notBlank notTab
  rw [runtimeArguments.eq_def]
  simp only [notBackslash, notQuote, stays, if_false]

theorem runtimeArguments_begin (plain : c ∉ needsQuotes) (line : List Wide) :
    runtimeArguments false 0 none (c :: line) = runtimeArguments false 0 (some []) (c :: line) := by
  simp only [needsQuotes, List.mem_cons, List.not_mem_nil, or_false, not_or] at plain
  obtain ⟨notBlank, notTab, -, -, notQuote⟩ := plain
  rw [runtimeArguments.eq_def, runtimeArguments.eq_def]
  simp [notBlank, notTab, notQuote]

theorem runtimeArguments_quoted : ∀ (arg : List Wide) (n : Nat) (known line : List Wide),
    runtimeArguments true 0 (some known) (spawnArgumentLoop true n arg ++ line) =
      runtimeArguments false 0 (some (known ++ List.replicate n wideBackslash ++ arg)) line := by
  intro arg
  induction arg with
  | nil =>
    intro n known line
    rw [spawnArgumentLoop, if_pos rfl, List.append_assoc, runtimeArguments_backslashes,
      List.singleton_append]
    have other : wideQuote ≠ wideBackslash := by decide
    simp [runtimeArguments, other]
  | cons c arg ih =>
    intro n known line
    rw [spawnArgumentLoop]
    split
    next backslash =>
      rw [ih, backslash, List.replicate_succ', ← List.append_assoc,
        List.append_assoc _ [wideBackslash] arg]
      rfl
    next notBackslash =>
      split
      next quote =>
        rw [List.append_assoc, runtimeArguments_backslashes, List.cons_append, runtimeArguments,
          if_neg notBackslash, if_pos quote, if_neg (by omega), ih]
        have half : (n * 2 + 1) / 2 = n := by omega
        simp [half]
      next notQuote =>
        rw [List.append_assoc, runtimeArguments_backslashes, List.cons_append,
          runtimeArguments_plain notBackslash notQuote (.inl rfl), ih]
        simp

theorem spawnArgumentLoop_unquoted : ∀ (arg : List Wide) (n : Nat), wideQuote ∉ arg →
    spawnArgumentLoop false n arg = List.replicate n wideBackslash ++ arg := by
  intro arg
  induction arg with
  | nil =>
    intro n _
    simp [spawnArgumentLoop]
  | cons c arg ih =>
    intro n free
    obtain ⟨notQuote, rest⟩ : wideQuote ≠ c ∧ wideQuote ∉ arg := by simpa using free
    rw [spawnArgumentLoop]
    split
    next backslash =>
      rw [ih _ rest, backslash, List.replicate_succ', List.append_assoc]
      rfl
    next => rw [if_neg (Ne.symm notQuote), ih 0 rest, List.replicate_zero, List.nil_append]

section

variable (ends : ∀ c ∈ line.head?, c = wideBlank)
include ends

theorem runtimeArguments_end (known : List Wide) (n : Nat) :
    runtimeArguments false n (some known) line =
      (known ++ List.replicate n wideBackslash) :: runtimeArguments false 0 none (line.drop 1) := by
  cases line with
  | nil => rfl
  | cons c line =>
    obtain rfl : c = wideBlank := ends c rfl
    simp [runtimeArguments, wideBlank, wideQuote, wideBackslash]

theorem runtimeArguments_unquoted :
    ∀ (arg : List Wide) (n : Nat) (known : List Wide), (∀ c ∈ arg, c ∉ needsQuotes) →
      runtimeArguments false n (some known) (arg ++ line) =
        (known ++ List.replicate n wideBackslash ++ arg) :: runtimeArguments false 0 none
    (line.drop 1) := by
  intro arg
  induction arg with
  | nil =>
    intro n known _
    rw [List.nil_append, List.append_nil]
    exact runtimeArguments_end ends known n
  | cons c arg ih =>
    intro n known plain
    obtain ⟨here, rest⟩ := List.forall_mem_cons.mp plain
    simp only [needsQuotes, List.mem_cons, List.not_mem_nil, or_false, not_or] at here
    obtain ⟨notBlank, notTab, -, -, notQuote⟩ := here
    rw [List.cons_append]
    by_cases backslash : c = wideBackslash
    · rw [runtimeArguments, if_pos backslash, Option.getD_some, ih _ _ rest, backslash,
        List.replicate_succ']
      simp
    · rw [runtimeArguments_plain backslash notQuote (.inr ⟨notBlank, notTab⟩), ih _ _ rest]
      simp

theorem runtimeArguments_appendArgument (arg : List Wide) :
    runtimeArguments false 0 none (spawnWbufferAppendArgument [] arg ++ line) =
      arg :: runtimeArguments false 0 none (line.drop 1) := by
  rw [spawnWbufferAppendArgument]
  cases quoted : spawnQuoted arg with
  | true =>
    have opens : wideQuote ≠ wideBackslash := by decide
    rw [if_pos rfl, List.append_assoc, List.nil_append, List.singleton_append,
      runtimeArguments.eq_def]
    simp only [opens, if_false, if_true, Nat.zero_mod, Nat.zero_div, Option.getD_none, Bool.not_false]
    rw [runtimeArguments_quoted, runtimeArguments_end ends]
    simp
  | false =>
    have plain : arg ≠ [] ∧ ∀ c ∈ arg, c ∉ needsQuotes := by simpa [spawnQuoted] using quoted
    have free : wideQuote ∉ arg := fun member => plain.2 _ member (by decide)
    rw [if_neg Bool.false_ne_true, spawnArgumentLoop_unquoted arg 0 free]
    cases arg with
    | nil => exact absurd rfl plain.1
    | cons c arg =>
      have begins := runtimeArguments_begin (plain.2 c List.mem_cons_self) (arg ++ line)
      rw [List.replicate_zero, List.nil_append, List.nil_append, List.cons_append, begins]
      simpa using runtimeArguments_unquoted ends (c :: arg) 0 [] plain.2

end

/-! The program name. -/

theorem spawnArgumentLoop_quoted : ∀ (arg : List Wide) (n : Nat), wideQuote ∉ arg →
    ∃ doubled, spawnArgumentLoop true n arg =
        List.replicate n wideBackslash ++ arg ++ List.replicate doubled wideBackslash ++ [wideQuote] ∧
      (doubled = 0 ↔ (List.replicate n wideBackslash ++ arg).getLast? ≠ some wideBackslash) := by
  intro arg
  induction arg with
  | nil =>
    intro n _
    refine ⟨n, ?_, ?_⟩
    · rw [spawnArgumentLoop, if_pos rfl, List.append_nil, List.replicate_append_replicate,
        Nat.mul_two]
    · cases n with
      | zero => simp
      | succ n => simp [List.replicate_succ']
  | cons c arg ih =>
    intro n free
    obtain ⟨notQuote, rest⟩ : wideQuote ≠ c ∧ wideQuote ∉ arg := by simpa using free
    rw [spawnArgumentLoop]
    split
    next backslash =>
      obtain ⟨doubled, appended, none⟩ := ih (n + 1) rest
      have same : List.replicate (n + 1) wideBackslash ++ arg = List.replicate n wideBackslash ++
          c :: arg := by
        simp [backslash, List.replicate_succ']
      rw [same] at appended none
      exact ⟨doubled, appended, none⟩
    next notBackslash =>
      obtain ⟨doubled, appended, none⟩ := ih 0 rest
      refine ⟨doubled, ?_, ?_⟩
      · rw [if_neg (Ne.symm notQuote), appended]
        simp
      · rw [none]
        cases arg with
        | nil => simp [notBackslash]
        | cons d arg => simp

theorem runtimeProgramName_reads (quoting : Bool) : ∀ (text name line : List Wide), wideQuote ∉ text →
    (quoting = true ∨ ∀ c ∈ text, c ∉ needsQuotes) →
      runtimeProgramName quoting name (text ++ line) =
        runtimeProgramName quoting (name ++ text) line := by
  intro text
  induction text with
  | nil =>
    intro name line _ _
    simp
  | cons c text ih =>
    intro name line free inside
    obtain ⟨notQuote, rest⟩ : wideQuote ≠ c ∧ wideQuote ∉ text := by simpa using free
    have stays : ¬((c = wideBlank ∨ c = wideTab) ∧ quoting = false) := by
      rintro ⟨blank, outside⟩
      rcases inside with quoted | plain
      · exact nomatch quoted.symm.trans outside
      · exact plain c List.mem_cons_self (by rcases blank with rfl | rfl <;> decide)
    rw [List.cons_append, runtimeProgramName, if_neg (Ne.symm notQuote), if_neg stays,
      ih _ _ rest (inside.imp_right fun plain d member => plain d (List.mem_cons_of_mem c member))]
    simp

theorem runtimeProgramName_end (ends : ∀ c ∈ line.head?, c = wideBlank) (name : List Wide) :
    runtimeProgramName false name line = (name, line.drop 1) := by
  cases line with
  | nil => rfl
  | cons c line =>
    obtain rfl : c = wideBlank := ends c rfl
    simp [runtimeProgramName, wideBlank, wideQuote]

theorem runtimeProgramName_appendArgument (ends : ∀ c ∈ line.head?, c = wideBlank) {first : List Wide}
    (free : wideQuote ∉ first) :
    ∃ doubled, runtimeProgramName false [] (spawnWbufferAppendArgument [] first ++ line) =
        (first ++ List.replicate doubled wideBackslash, line.drop 1) ∧
      (doubled = 0 ↔ ¬(spawnQuoted first = true ∧ first.getLast? = some wideBackslash)) := by
  rw [spawnWbufferAppendArgument]
  cases quoted : spawnQuoted first with
  | true =>
    obtain ⟨doubled, appended, none⟩ := spawnArgumentLoop_quoted first 0 free
    refine ⟨doubled, ?_, by simpa using none⟩
    have text : wideQuote ∉ first ++ List.replicate doubled wideBackslash := by
      rw [List.mem_append, not_or, List.mem_replicate]
      exact ⟨free, fun same => absurd same.2 (by decide)⟩
    rw [if_pos rfl, appended, List.replicate_zero, List.nil_append, List.nil_append,
      List.append_assoc, List.singleton_append, runtimeProgramName, if_pos rfl, List.append_assoc,
      Bool.not_false,
      runtimeProgramName_reads true _ _ _ text (.inl rfl), List.singleton_append,
      runtimeProgramName, if_pos rfl, Bool.not_true, runtimeProgramName_end ends, List.nil_append]
  | false =>
    have plain : ∀ c ∈ first, c ∉ needsQuotes := (by simpa [spawnQuoted] using quoted : _ ∧ _).2
    refine ⟨0, ?_, by simp⟩
    rw [if_neg Bool.false_ne_true, spawnArgumentLoop_unquoted first 0 free, List.replicate_zero,
      List.nil_append, List.nil_append, runtimeProgramName_reads false _ _ _ free (.inr plain),
      runtimeProgramName_end ends]
    simp

/-! The line. -/

theorem spawnWbufferAppendArgument_eq (bytes arg : List Wide) :
    spawnWbufferAppendArgument bytes arg = bytes ++ spawnWbufferAppendArgument [] arg := by
  simp only [spawnWbufferAppendArgument]
  split <;> simp

theorem spawnCommandInit_cons (first : List Wide) (rest : List (List Wide)) :
    spawnCommandInit (first :: rest) = spawnWbufferAppendArgument [] first ++
      rest.flatMap fun arg => wideBlank :: spawnWbufferAppendArgument [] arg := by
  rw [spawnCommandInit]
  generalize spawnWbufferAppendArgument [] first = bytes
  induction rest generalizing bytes with
  | nil => simp
  | cons arg rest ih =>
    rw [List.foldl_cons, ih, spawnWbufferAppendArgument_eq, List.flatMap_cons]
    simp

theorem flatMap_ends (rest : List (List Wide)) :
    ∀ c ∈ (rest.flatMap fun arg => wideBlank :: spawnWbufferAppendArgument [] arg).head?, c =
      wideBlank := by
  cases rest with
  | nil => simp
  | cons arg rest =>
    intro c member
    simpa using member.symm

theorem runtimeArguments_rest : ∀ rest : List (List Wide),
    runtimeArguments false 0 none
      ((rest.flatMap fun arg => wideBlank :: spawnWbufferAppendArgument [] arg).drop 1) =
      rest := by
  intro rest
  induction rest with
  | nil => rfl
  | cons arg rest ih =>
    rw [List.flatMap_cons, List.cons_append, List.drop_one, List.tail_cons,
      runtimeArguments_appendArgument (flatMap_ends rest), ih]

end Arguments

/-- The arguments come back, unless backslashes end a program name in quotes. -/
theorem runtimeParse_spawnCommandInit_iff (first : List Wide)
    (rest : List (List Wide)) (free : wideQuote ∉ first) :
    runtimeParse (spawnCommandInit (first :: rest)) = first :: rest ↔
      ¬((∃ c ∈ first, c = wideBlank ∨ c = wideTab ∨ c = wideNewline ∨ c = wideVerticalTab) ∧
        first.getLast? = some wideBackslash) := by
  obtain ⟨doubled, read, none⟩ := runtimeProgramName_appendArgument (flatMap_ends rest) free
  have quoted : spawnQuoted first = true ∧ first.getLast? = some wideBackslash ↔
      (∃ c ∈ first, c = wideBlank ∨ c = wideTab ∨ c = wideNewline ∨ c = wideVerticalTab) ∧
        first.getLast? = some wideBackslash := by
    apply and_congr_left
    intro last
    cases first with
    | nil => exact absurd last (by simp)
    | cons c first =>
      simp only [spawnQuoted, needsQuotes, List.isEmpty_cons, Bool.false_or, List.any_eq_true,
        List.contains_iff_mem, List.mem_cons, List.not_mem_nil, or_false]
      apply exists_congr
      intro d
      apply and_congr_right
      intro member
      have other : d ≠ wideQuote := by
        rintro rfl
        exact free (List.mem_cons.mpr member)
      simp [other]
  rw [← quoted, ← none, runtimeParse, spawnCommandInit_cons, read, runtimeArguments_rest]
  simp

theorem runtimeParse_spawnCommandInit_iff_path :
    runtimeParse (spawnCommandInit [[97, 32, 98], [], [92, 34], [99, 92]]) = [[97, 32, 98], [],
      [92, 34], [99, 92]] :=
  (runtimeParse_spawnCommandInit_iff [97, 32, 98] [[], [92, 34], [99, 92]] (by decide)).mpr
    (by decide)

/-- `a \` as program name. -/
theorem runtimeParse_spawnCommandInit_doubled :
    runtimeParse (spawnCommandInit [[97, 32, 92]]) = [[97, 32, 92, 92]] ∧
      runtimeParse (spawnCommandInit [[97, 32, 92]]) ≠ [[97, 32, 92]] := by
  decide

end MulleCore
