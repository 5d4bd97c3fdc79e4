import Mathlib.Data.List.Forall2

/-!
`mulle_sscanf_compute_rewritten_length` and `mulle_sscanf_rewrite_format` of `mulle-sscanf.c`,
without what is only there for `_WIN32`. A format is given by its bytes in front of the zero.
-/

namespace MulleCore

section Scanners

def sscanfIsWidth (c : UInt8) : Bool := c = 0x2A || (0x30 ≤ c && c ≤ 0x39)

def sscanfIsModifier (c : UInt8) : Bool :=
  c = 0x68 || c = 0x4C || c = 0x6A || c = 0x7A || c = 0x74 || c = 0x71 || c = 0x6C

def sscanfIsFloat (c : UInt8) : Bool := c = 0x66 || c = 0x65 || c = 0x67

mutual

def sscanfExtra : List UInt8 → Int32
  | [] => 0
  | c :: src =>
    if c = 0x25 then
      match src with
      | [] => sscanfExtraInPercent false []
      | d :: rest => if d = 0x25 then sscanfExtra rest else sscanfExtraInPercent false (d :: rest)
    else sscanfExtra src

def sscanfExtraInPercent (hasModifier : Bool) : List UInt8 → Int32
  | [] => 0
  | c :: src =>
    if sscanfIsWidth c then sscanfExtraInPercent hasModifier src
    else if sscanfIsModifier c then sscanfExtraInPercent true src
    else (if !hasModifier && sscanfIsFloat c then 1 else 0) + sscanfExtra src

end

/-- A conversion has two characters, so the sum is above zero even where `extra` has overflowed. -/
def sscanfComputeRewrittenLength (format : List UInt8) : Int :=
  format.length + (sscanfExtra format).toInt + 1

def sscanfRewriteFrom (inPercent hasModifier : Bool) : List UInt8 → List UInt8
  | [] => []
  | c :: src =>
    if c = 0x25 then
      match src with
      | [] => [c]
      | d :: rest =>
        if d = 0x25 then c :: d :: sscanfRewriteFrom false false rest
        else c :: sscanfRewriteFrom true false (d :: rest)
    else if inPercent then
      if sscanfIsWidth c then c :: sscanfRewriteFrom inPercent hasModifier src
      else if sscanfIsModifier c then c :: sscanfRewriteFrom inPercent true src
      else if !hasModifier && sscanfIsFloat c then 0x6C :: c :: sscanfRewriteFrom false false src
      else c :: sscanfRewriteFrom false false src
    else c :: sscanfRewriteFrom inPercent hasModifier src

def sscanfRewriteFormat (format : List UInt8) : List UInt8 :=
  sscanfRewriteFrom false false format ++ [0]

end Scanners

section Readings

inductive SscanfReading where
  | text
  | percent
  | conversion (hasModifier : Bool)
  | setOpen
  | setFirst
  | set
deriving DecidableEq

def sscanfConversionNext (sets hasModifier : Bool) (c : UInt8) : SscanfReading :=
  if sscanfIsWidth c then .conversion hasModifier
  else if sscanfIsModifier c then .conversion true
  else if sets && c = 0x5B then .setOpen
  else .text

/-- Without `sets`, a `[` is a conversion letter like any other. -/
def SscanfReading.next (sets : Bool) : SscanfReading → UInt8 → SscanfReading
  | .text, c => if c = 0x25 then .percent else .text
  | .percent, c => if c = 0x25 then .text else sscanfConversionNext sets false c
  | .conversion hasModifier, c => sscanfConversionNext sets hasModifier c
  | .setOpen, c => if c = 0x5E then .setFirst else .set
  | .setFirst, _ => .set
  | .set, c => if c = 0x5D then .text else .set

def SscanfReading.isLetter : SscanfReading → UInt8 → Bool
  | .percent, c => sscanfIsFloat c
  | .conversion hasModifier, c => !hasModifier && sscanfIsFloat c
  | _, _ => false

def sscanfLetters (sets : Bool) : SscanfReading → List UInt8 → List Bool
  | _, [] => []
  | reading, c :: src => reading.isLetter c :: sscanfLetters sets (reading.next sets c) src

def sscanfBehindPercent (behind : List UInt8) : Bool :=
  ((behind.dropWhile sscanfIsWidth).takeWhile (· = 0x25)).length % 2 = 1

/-- The letters that such a run is in front of. What was read is given last character first. -/
def sscanfLooseLetters (behind : List UInt8) : List UInt8 → List Bool
  | [] => []
  | c :: src =>
    (sscanfBehindPercent behind && sscanfIsFloat c) :: sscanfLooseLetters (c :: behind) src

def sscanfInsert : List UInt8 → List Bool → List UInt8
  | c :: src, letter :: letters => (if letter then [0x6C, c] else [c]) ++ sscanfInsert src letters
  | src, _ => src

def sscanfRewritten (format : List UInt8) : List UInt8 :=
  sscanfInsert format (sscanfLetters true .text format) ++ [0]

/-- The percent signs tell the letters, and sets do not change how many an `int` counts. -/
structure SscanfClear (format : List UInt8) : Prop where
  loose : sscanfLooseLetters [] format = sscanfLetters true .text format
  counted : ((sscanfLetters false .text format).count true : Int).bmod Int32.size =
    (sscanfLetters true .text format).count true

end Readings

section Letters

variable {c : UInt8}

theorem sscanfIsFloat_elim (letter : sscanfIsFloat c = true) : c = 0x66 ∨ c = 0x65 ∨ c = 0x67 := by
  simpa [sscanfIsFloat, or_assoc] using letter

theorem sscanfIsFloat_other (other : sscanfIsWidth c = true ∨ sscanfIsModifier c = true) :
    sscanfIsFloat c = false := by
  apply Bool.eq_false_iff.mpr
  intro letter
  obtain rfl | rfl | rfl := sscanfIsFloat_elim letter <;> revert other <;> decide

@[simp] theorem sscanfIsFloat_percent : sscanfIsFloat 0x25 = false := rfl

theorem sscanfIsFloat_ne (letter : sscanfIsFloat c = true) : c ≠ 0x25 ∧ c ≠ 0x6C := by
  obtain rfl | rfl | rfl := sscanfIsFloat_elim letter <;> decide

end Letters

section Counting

theorem sscanfLetters_percent {sets : Bool} {d : UInt8} (noPercent : d ≠ 0x25) (src : List UInt8) :
    sscanfLetters sets .percent (d :: src) = sscanfLetters sets (.conversion false) (d :: src) := by
  simp [sscanfLetters, SscanfReading.isLetter, SscanfReading.next, noPercent]

theorem sscanfExtra_count (size : Nat) (src : List UInt8) (short : src.length ≤ size) :
    sscanfExtra src = .ofNat ((sscanfLetters false .text src).count true) ∧
      ∀ hasModifier, sscanfExtraInPercent hasModifier src =
        .ofNat ((sscanfLetters false (.conversion hasModifier) src).count true) := by
  induction size generalizing src with
  | zero =>
    obtain rfl : src = [] := List.length_eq_zero_iff.mp (Nat.le_zero.mp short)
    exact ⟨rfl, fun _ => rfl⟩
  | succ size ih =>
    cases src with
    | nil => exact ⟨rfl, fun _ => rfl⟩
    | cons c src =>
      rw [List.length_cons, Nat.add_le_add_iff_right] at short
      constructor
      · rw [sscanfExtra.eq_def, sscanfLetters]
        dsimp only
        split
        · rename_i percent
          cases src with
          | nil => simp [sscanfExtraInPercent, sscanfLetters, SscanfReading.isLetter]
          | cons d rest =>
            dsimp only
            split
            · rename_i escaped
              rw [List.length_cons] at short
              simp [sscanfLetters, SscanfReading.isLetter, SscanfReading.next, percent, escaped,
                (ih rest (by omega)).1]
            · rename_i conversion
              simp [SscanfReading.isLetter, SscanfReading.next, percent,
                sscanfLetters_percent conversion, (ih (d :: rest) short).2]
        · rename_i other
          simp [SscanfReading.isLetter, SscanfReading.next, other, (ih src short).1]
      · intro hasModifier
        rw [sscanfExtraInPercent, sscanfLetters, SscanfReading.next, sscanfConversionNext]
        split
        · rename_i width
          simp [SscanfReading.isLetter, sscanfIsFloat_other (.inl width), (ih src short).2]
        · split
          · rename_i modifier
            simp [SscanfReading.isLetter, sscanfIsFloat_other (.inr modifier), (ih src short).2]
          · rw [(ih src short).1, List.count_cons, Nat.add_comm]
            cases letter : !hasModifier && sscanfIsFloat c <;> simp [SscanfReading.isLetter, letter]

theorem sscanfComputeRewrittenLength_eq (format : List UInt8) :
    sscanfComputeRewrittenLength format =
      format.length + ((sscanfLetters false .text format).count true : Int).bmod Int32.size + 1 := by
  have extra : (sscanfExtra format).toInt =
      ((sscanfLetters false .text format).count true : Int).bmod Int32.size := by
    rw [(sscanfExtra_count _ format (Nat.le_refl _)).1]
    exact Int32.toInt_ofNat'
  rw [sscanfComputeRewrittenLength, extra]

end Counting

section Writing

theorem sscanfInsert_length (src : List UInt8) (letters : List Bool)
    (fits : letters.length = src.length) :
    (sscanfInsert src letters).length = src.length + letters.count true := by
  induction letters generalizing src with
  | nil =>
    obtain rfl : src = [] := List.length_eq_zero_iff.mp fits.symm
    rfl
  | cons letter letters ih =>
    cases src with
    | nil => cases fits
    | cons c src =>
      have rest := ih src (Nat.succ.inj fits)
      cases letter <;> simp [sscanfInsert, rest] <;> omega

def MarksFloats (src : List UInt8) (letters : List Bool) : Prop :=
  List.Forall₂ (fun c letter => letter = true → sscanfIsFloat c = true) src letters

theorem sscanfInsert_inj {src : List UInt8} {letters others : List Bool}
    (marked : MarksFloats src letters) (otherMarked : MarksFloats src others)
    (same : sscanfInsert src letters = sscanfInsert src others) :
    letters = others := by
  induction marked generalizing others with
  | nil =>
    cases otherMarked
    rfl
  | @cons c letter src letters first marked ih =>
    cases otherMarked with
    | @cons _ other _ others otherFirst otherMarked =>
      cases letter <;> cases other <;> simp [sscanfInsert] at same
      · rw [ih otherMarked same]
      · exact absurd same.1 (sscanfIsFloat_ne (otherFirst rfl)).2
      · exact absurd same.1.symm (sscanfIsFloat_ne (first rfl)).2
      · rw [ih otherMarked same]

theorem sscanfBehindPercent_cons {c : UInt8} (noPercent : c ≠ 0x25) (behind : List UInt8) :
    sscanfBehindPercent (c :: behind) = (sscanfIsWidth c && sscanfBehindPercent behind) := by
  cases width : sscanfIsWidth c <;> simp [sscanfBehindPercent, width, noPercent]

structure RewriteBehind (inPercent hasModifier : Bool) (behind src : List UInt8) : Prop where
  state : (inPercent && !hasModifier) = sscanfBehindPercent behind
  paired : (behind.takeWhile (· = 0x25)).length % 2 = 1 → src.head? ≠ some 0x25

theorem sscanfRewriteFrom_eq (size : Nat) (src : List UInt8) (short : src.length ≤ size)
    {inPercent hasModifier : Bool} {behind : List UInt8}
    (reads : RewriteBehind inPercent hasModifier behind src) :
    sscanfRewriteFrom inPercent hasModifier src =
      sscanfInsert src (sscanfLooseLetters behind src) := by
  induction size generalizing src inPercent hasModifier behind with
  | zero =>
    obtain rfl : src = [] := List.length_eq_zero_iff.mp (Nat.le_zero.mp short)
    rfl
  | succ size ih =>
    cases src with
    | nil => rfl
    | cons c src =>
      rw [List.length_cons, Nat.add_le_add_iff_right] at short
      rw [sscanfRewriteFrom.eq_def, sscanfLooseLetters]
      dsimp only
      split
      · rename_i percent
        subst percent
        cases src with
        | nil => simp [sscanfInsert]
        | cons d rest =>
          have even : ¬ (behind.takeWhile (· = 0x25)).length % 2 = 1 :=
            fun odd => reads.paired odd rfl
          dsimp only
          split
          · rename_i escaped
            subst escaped
            rw [List.length_cons] at short
            have next : RewriteBehind false false (0x25 :: 0x25 :: behind) rest := by
              constructor
              · simp [sscanfBehindPercent, sscanfIsWidth]
                omega
              · simp
                omega
            simp [sscanfInsert, sscanfLooseLetters, ih rest (by omega) next]
          · rename_i conversion
            have next : RewriteBehind true false (0x25 :: behind) (d :: rest) := by
              constructor
              · simp [sscanfBehindPercent, sscanfIsWidth]
                omega
              · simpa using fun _ => conversion
            simp [sscanfInsert, ih (d :: rest) short next]
      · rename_i other
        have unpaired : ((c :: behind).takeWhile (· = 0x25)).length % 2 = 1 →
            src.head? ≠ some 0x25 := by
          simp [other]
        have state := reads.state
        split
        · rename_i conversion
          subst conversion
          rw [Bool.true_and] at state
          split
          · rename_i width
            have next : RewriteBehind true hasModifier (c :: behind) src :=
              ⟨by simp [sscanfBehindPercent_cons other, width, state], unpaired⟩
            simp [sscanfInsert, sscanfIsFloat_other (.inl width), ih src short next]
          · rename_i noWidth
            rw [Bool.not_eq_true] at noWidth
            have ended : sscanfBehindPercent (c :: behind) = false := by
              rw [sscanfBehindPercent_cons other, noWidth, Bool.false_and]
            have text : RewriteBehind false false (c :: behind) src := ⟨ended.symm, unpaired⟩
            have next : RewriteBehind true true (c :: behind) src := ⟨ended.symm, unpaired⟩
            split
            · rename_i modifier
              simp [sscanfInsert, sscanfIsFloat_other (.inr modifier), ih src short next]
            · rw [← state]
              split
              · rename_i letter
                simp [sscanfInsert, letter, ih src short text]
              · rename_i letter
                simp [sscanfInsert, letter, ih src short text]
        · rename_i text
          rw [Bool.not_eq_true] at text
          subst text
          rw [Bool.false_and] at state
          have next : RewriteBehind false hasModifier (c :: behind) src :=
            ⟨by simp [sscanfBehindPercent_cons other, ← state], unpaired⟩
          simp [sscanfInsert, ← state, ih src short next]

theorem sscanfLetters_marks (sets : Bool) (reading : SscanfReading) (src : List UInt8) :
    MarksFloats src (sscanfLetters sets reading src) := by
  induction src generalizing reading with
  | nil => exact .nil
  | cons c src ih =>
    refine .cons (fun letter => ?_) (ih _)
    cases reading <;> simp [SscanfReading.isLetter] at letter
    · exact letter
    · exact letter.2

theorem sscanfLooseLetters_marks (behind src : List UInt8) :
    MarksFloats src (sscanfLooseLetters behind src) := by
  induction src generalizing behind with
  | nil => exact .nil
  | cons c src ih =>
    refine .cons (fun letter => ?_) (ih _)
    rw [Bool.and_eq_true] at letter
    exact letter.2

theorem sscanfRewriteFormat_eq (format : List UInt8) :
    sscanfRewriteFormat format = sscanfInsert format (sscanfLooseLetters [] format) ++ [0] := by
  have start : RewriteBehind false false [] format := ⟨rfl, fun odd => by cases odd⟩
  rw [sscanfRewriteFormat, sscanfRewriteFrom_eq _ format (Nat.le_refl _) start]

/-- The announced length is that of the rewritten format, which is the right one, exactly for clear
formats. -/
theorem sscanfRewriteFormat_right_iff (format : List UInt8) :
    ((sscanfRewriteFormat format).length = sscanfComputeRewrittenLength format ∧
      sscanfRewriteFormat format = sscanfRewritten format) ↔ SscanfClear format := by
  have looseMarks := sscanfLooseLetters_marks [] format
  have lengths := sscanfInsert_length format _ looseMarks.length_eq.symm
  rw [sscanfRewriteFormat_eq, sscanfComputeRewrittenLength_eq, sscanfRewritten, List.length_append,
    lengths, List.append_cancel_right_eq]
  constructor
  · rintro ⟨announced, rewritten⟩
    have loose := sscanfInsert_inj looseMarks (sscanfLetters_marks true .text format) rewritten
    refine ⟨loose, ?_⟩
    rw [loose, List.length_singleton] at announced
    omega
  · intro clear
    rw [clear.loose, clear.counted]
    exact ⟨rfl, rfl⟩

/-- `%*%f%f` needs a byte more than is announced. -/
theorem sscanfRewriteFormat_overflows :
    ¬ ((sscanfRewriteFormat [0x25, 0x2A, 0x25, 0x66, 0x25, 0x66]).length =
        sscanfComputeRewrittenLength [0x25, 0x2A, 0x25, 0x66, 0x25, 0x66] ∧
      sscanfRewriteFormat [0x25, 0x2A, 0x25, 0x66, 0x25, 0x66] =
        sscanfRewritten [0x25, 0x2A, 0x25, 0x66, 0x25, 0x66]) := by
  decide

end Writing

end MulleCore
