import Mathlib.Data.List.TakeWhile
import MulleCore.Buffer.BufferRefines
import MulleCore.Library.Patterns
import MulleCore.Slug.Slug

/-!
When the text that `mulle_buffer_add_slugified_utf8data` appends is a slug.
-/

namespace MulleCore

open Library
open String (utf8EncodeChar)

section Slugs

variable {first second text : List UInt8}

def IsSlugCharacter (b : UInt8) : Prop :=
  0x30 ≤ b.toNat ∧ b.toNat ≤ 0x39 ∨ 0x41 ≤ b.toNat ∧ b.toNat ≤ 0x5a ∨ 0x61 ≤ b.toNat ∧ b.toNat ≤ 0x7a

instance : DecidablePred IsSlugCharacter := fun _ => inferInstanceAs (Decidable (_ ∨ _ ∨ _))

inductive SlugText : List UInt8 → Prop where
  | last {b : UInt8} (character : IsSlugCharacter b) : SlugText [b]
  | character {b : UInt8} {text : List UInt8} (character : IsSlugCharacter b)
      (rest : SlugText text) : SlugText (b :: text)
  | hyphen {b : UInt8} {text : List UInt8} (character : IsSlugCharacter b) (rest : SlugText text) :
      SlugText (b :: 0x2d :: text)

structure IsSlug (text : List UInt8) : Prop where
  characters : ∀ b ∈ text, IsSlugCharacter b ∨ b = 0x2d
  begins : text.head? ≠ some 0x2d
  ends : text.getLast? ≠ some 0x2d
  single : ¬ [0x2d, 0x2d] <:+: text

theorem isSlug_nil : IsSlug [] := ⟨by simp, by simp, by simp, by simp⟩

theorem IsSlugCharacter.ne_hyphen {b : UInt8} (character : IsSlugCharacter b) : b ≠ 0x2d := by
  rintro rfl
  exact absurd character (by decide)

theorem SlugText.append (front : SlugText first) (back : SlugText second) :
    SlugText (first ++ second) := by
  induction front with
  | last character => exact .character character back
  | character character _ ih => exact .character character ih
  | hyphen character _ ih => exact .hyphen character ih

theorem SlugText.join (front : SlugText first) (back : SlugText second) :
    SlugText (first ++ 0x2d :: second) := by
  induction front with
  | last character => exact .hyphen character back
  | character character _ ih => exact .character character ih
  | hyphen character _ ih => exact .hyphen character ih

theorem SlugText.head (slug : SlugText text) : ∃ b rest, text = b :: rest ∧ IsSlugCharacter b := by
  cases slug with
  | last character => exact ⟨_, _, rfl, character⟩
  | character character => exact ⟨_, _, rfl, character⟩
  | hyphen character => exact ⟨_, _, rfl, character⟩

theorem SlugText.concat (slug : SlugText text) : ∃ rest b, text = rest ++ [b] ∧
    IsSlugCharacter b := by
  induction slug with
  | last character => exact ⟨[], _, rfl, character⟩
  | @character c _ _ _ ih =>
    obtain ⟨rest, b, rfl, character⟩ := ih
    exact ⟨c :: rest, b, rfl, character⟩
  | @hyphen c _ _ _ ih =>
    obtain ⟨rest, b, rfl, character⟩ := ih
    exact ⟨c :: 0x2d :: rest, b, rfl, character⟩

theorem SlugText.isSlug (slug : SlugText text) : IsSlug text := by
  refine ⟨?_, ?_, ?_, ?_⟩
  · induction slug with
    | last character => simpa using Or.inl character
    | character character _ ih => simpa using ⟨Or.inl character, ih⟩
    | hyphen character _ ih => simpa using ⟨Or.inl character, ih⟩
  · obtain ⟨b, rest, rfl, character⟩ := slug.head
    simpa using character.ne_hyphen
  · obtain ⟨rest, b, rfl, character⟩ := slug.concat
    simpa using character.ne_hyphen
  · induction slug with
    | last character => exact fun twice => absurd twice.length_le (by simp)
    | character character _ ih =>
      rw [List.infix_cons_iff, List.cons_prefix_cons]
      rintro (⟨same, -⟩ | inside)
      · exact character.ne_hyphen same.symm
      · exact ih inside
    | hyphen character rest ih =>
      obtain ⟨c, more, rfl, other⟩ := rest.head
      rw [List.infix_cons_iff, List.cons_prefix_cons, List.infix_cons_iff, List.cons_prefix_cons,
        List.cons_prefix_cons, List.cons_prefix_cons]
      rintro (⟨same, -⟩ | ⟨-, same, -⟩ | inside)
      · exact character.ne_hyphen same.symm
      · exact other.ne_hyphen same.symm
      · exact ih inside

end Slugs

section Tokens

inductive SlugToken where
  | word (text : List UInt8)
  | delimiter

def SlugToken.IsWord : SlugToken → Prop
  | .word text => text ≠ []
  | .delimiter => False

def SlugToken.IsEmpty : SlugToken → Prop
  | .word text => text = []
  | .delimiter => False

def SlugToken.IsDelimiter : SlugToken → Prop
  | .word _ => False
  | .delimiter => True

inductive SlugPrev where
  | none
  | delimiter
  | other
deriving DecidableEq

def slugWrite : List UInt8 × SlugPrev → SlugToken → List UInt8 × SlugPrev
  | (out, _), .word text => (out ++ text, .other)
  | (out, prev), .delimiter => if prev = .other then (out ++ [0x2d], .delimiter) else (out, prev)

def slugOut (tokens : List SlugToken) : List UInt8 × SlugPrev := tokens.foldl slugWrite ([], .none)

def NoWord (tokens : List SlugToken) : Prop := ∀ token ∈ tokens, ¬ token.IsWord

def Written : List SlugToken → Prop := Behind (fun _ => True) SlugToken.IsWord fun _ => True

def EmptyFirst : List SlugToken → Prop := Behind NoWord SlugToken.IsEmpty fun token => ¬ token.IsWord

def DelimiterLast : List SlugToken → Prop :=
  Behind Written SlugToken.IsDelimiter fun token => ¬ token.IsWord

def EmptyLast : List SlugToken → Prop :=
  Behind DelimiterLast SlugToken.IsEmpty fun token => ¬ token.IsWord

def DelimitersLast : List SlugToken → Prop :=
  Behind EmptyLast SlugToken.IsDelimiter fun token => ¬ token.IsWord

def BeginsDelimited : List SlugToken → Prop := Behind EmptyFirst SlugToken.IsDelimiter fun _ => True

def TwiceDelimited : List SlugToken → Prop := Behind DelimitersLast SlugToken.IsWord fun _ => True

/-- A delimiter behind an empty word is the first that is written, or two words have two delimiters
with an empty word in between. -/
def SlugTrips (tokens : List SlugToken) : Prop := BeginsDelimited tokens ∨ TwiceDelimited tokens

theorem written_iff (tokens : List SlugToken) : Written tokens ↔ ¬ NoWord tokens := by
  constructor
  · rintro ⟨before, item, after, rfl, -, isWord, -⟩ none
    exact none item (by simp) isWord
  · intro some
    simp only [NoWord, not_forall, not_not] at some
    obtain ⟨token, member, isWord⟩ := some
    obtain ⟨before, after, rfl⟩ := List.append_of_mem member
    exact ⟨before, token, after, rfl, trivial, isWord, fun _ _ => trivial⟩

end Tokens

section Flags

variable {flags : SlugFlags} {out kept : List UInt8}

structure SlugFlags where
  written : Bool
  emptyFirst : Bool
  delimiterLast : Bool
  emptyLast : Bool
  delimitersLast : Bool
  beginsDelimited : Bool
  twiceDelimited : Bool

def SlugFlags.next (flags : SlugFlags) : SlugToken → SlugFlags
  | .word [] => { flags with
      emptyFirst := flags.emptyFirst || !flags.written
      emptyLast := flags.emptyLast || flags.delimiterLast }
  | .word (_ :: _) => ⟨true, false, false, false, false, flags.beginsDelimited,
      flags.twiceDelimited || flags.delimitersLast⟩
  | .delimiter => { flags with
      delimiterLast := flags.delimiterLast || flags.written
      delimitersLast := flags.delimitersLast || flags.emptyLast
      beginsDelimited := flags.beginsDelimited || flags.emptyFirst }

def slugFlags (tokens : List SlugToken) : SlugFlags :=
  tokens.foldl SlugFlags.next ⟨false, false, false, false, false, false, false⟩

structure FlagsHold (tokens : List SlugToken) (flags : SlugFlags) : Prop where
  written : flags.written = true ↔ Written tokens
  emptyFirst : flags.emptyFirst = true ↔ EmptyFirst tokens
  delimiterLast : flags.delimiterLast = true ↔ DelimiterLast tokens
  emptyLast : flags.emptyLast = true ↔ EmptyLast tokens
  delimitersLast : flags.delimitersLast = true ↔ DelimitersLast tokens
  beginsDelimited : flags.beginsDelimited = true ↔ BeginsDelimited tokens
  twiceDelimited : flags.twiceDelimited = true ↔ TwiceDelimited tokens

theorem slugFlags_hold (tokens : List SlugToken) : FlagsHold tokens (slugFlags tokens) := by
  induction tokens using List.reverseRecOn with
  | nil =>
    constructor <;> simp [slugFlags, Written, EmptyFirst, DelimiterLast, EmptyLast, DelimitersLast,
      BeginsDelimited, TwiceDelimited]
  | append_singleton tokens token ih =>
    have next : slugFlags (tokens ++ [token]) = (slugFlags tokens).next token := List.foldl_concat ..
    rw [next]
    have noWord : NoWord tokens ↔ (slugFlags tokens).written = false := by
      rw [← Bool.not_eq_true, ih.written, written_iff, not_not]
    constructor
    · rw [Written, behind_concat, ← Written, ← ih.written]
      cases token with
      | word text => cases text <;> simp [SlugFlags.next, SlugToken.IsWord]
      | delimiter => simp [SlugFlags.next, SlugToken.IsWord]
    · rw [EmptyFirst, behind_concat, ← EmptyFirst, ← ih.emptyFirst, noWord]
      cases token with
      | word text =>
        cases text <;> simp [SlugFlags.next, SlugToken.IsWord, SlugToken.IsEmpty, or_comm]
      | delimiter => simp [SlugFlags.next, SlugToken.IsWord, SlugToken.IsEmpty]
    · rw [DelimiterLast, behind_concat, ← DelimiterLast, ← ih.delimiterLast, ← ih.written]
      cases token with
      | word text => cases text <;> simp [SlugFlags.next, SlugToken.IsWord, SlugToken.IsDelimiter]
      | delimiter => simp [SlugFlags.next, SlugToken.IsWord, SlugToken.IsDelimiter, or_comm]
    · rw [EmptyLast, behind_concat, ← EmptyLast, ← ih.emptyLast, ← ih.delimiterLast]
      cases token with
      | word text =>
        cases text <;> simp [SlugFlags.next, SlugToken.IsWord, SlugToken.IsEmpty, or_comm]
      | delimiter => simp [SlugFlags.next, SlugToken.IsWord, SlugToken.IsEmpty]
    · rw [DelimitersLast, behind_concat, ← DelimitersLast, ← ih.delimitersLast, ← ih.emptyLast]
      cases token with
      | word text => cases text <;> simp [SlugFlags.next, SlugToken.IsWord, SlugToken.IsDelimiter]
      | delimiter => simp [SlugFlags.next, SlugToken.IsWord, SlugToken.IsDelimiter, or_comm]
    · rw [BeginsDelimited, behind_concat, ← BeginsDelimited, ← ih.beginsDelimited, ← ih.emptyFirst]
      cases token with
      | word text => cases text <;> simp [SlugFlags.next, SlugToken.IsDelimiter]
      | delimiter => simp [SlugFlags.next, SlugToken.IsDelimiter, or_comm]
    · rw [TwiceDelimited, behind_concat, ← TwiceDelimited, ← ih.twiceDelimited, ← ih.delimitersLast]
      cases token with
      | word text => cases text <;> simp [SlugFlags.next, SlugToken.IsWord, or_comm]
      | delimiter => simp [SlugFlags.next, SlugToken.IsWord]

inductive Slugged : SlugFlags → List UInt8 × SlugPrev → Prop where
  | begins : Slugged ⟨false, false, false, false, false, false, false⟩ ([], .none)
  | skipped : Slugged ⟨false, true, false, false, false, false, false⟩ ([], .other)
  | wrote {core : List UInt8} (slug : SlugText core) :
      Slugged ⟨true, false, false, false, false, false, false⟩ (core, .other)
  | delimited {core : List UInt8} (slug : SlugText core) :
      Slugged ⟨true, false, true, false, false, false, false⟩ (core ++ [0x2d], .delimiter)
  | emptied {core : List UInt8} (slug : SlugText core) :
      Slugged ⟨true, false, true, true, false, false, false⟩ (core ++ [0x2d], .other)
  | doubled {core : List UInt8} (slug : SlugText core) (count : Nat) (prev : SlugPrev) :
      Slugged ⟨true, false, true, true, true, false, false⟩
        (core ++ List.replicate (count + 2) 0x2d, prev)
  | leading {flags : SlugFlags} (begins : flags.beginsDelimited = true) (out : List UInt8)
      (prev : SlugPrev) :
      Slugged flags (0x2d :: out, prev)
  | twice {flags : SlugFlags} (two : flags.twiceDelimited = true) {kept : List UInt8}
      (inside : [0x2d, 0x2d] <:+: kept)
      (ends : kept.getLast? ≠ some 0x2d) (count : Nat) (prev : SlugPrev) :
      Slugged flags (kept ++ List.replicate count 0x2d, prev)

def SlugToken.Proper : SlugToken → Prop
  | .word text => text = [] ∨ SlugText text
  | .delimiter => True

theorem SlugText.getLast {text : List UInt8} (slug : SlugText text) (front : List UInt8) :
    (front ++ text).getLast? ≠ some 0x2d := by
  obtain ⟨rest, b, rfl, character⟩ := slug.concat
  rw [← List.append_assoc, List.getLast?_concat]
  simpa using character.ne_hyphen

theorem Slugged.next {state : List UInt8 × SlugPrev} (slugged : Slugged flags state)
    {token : SlugToken} (proper : token.Proper) :
    Slugged (flags.next token) (slugWrite state token) := by
  cases token with
  | word text =>
    cases text with
    | nil =>
      cases slugged with
      | begins => exact .skipped
      | skipped => exact .skipped
      | wrote slug =>
        rw [slugWrite, List.append_nil]
        exact .wrote slug
      | delimited slug =>
        rw [slugWrite, List.append_nil]
        exact .emptied slug
      | emptied slug =>
        rw [slugWrite, List.append_nil]
        exact .emptied slug
      | doubled slug count =>
        rw [slugWrite, List.append_nil]
        exact .doubled slug count .other
      | @leading flags begins out =>
        have flagged : (flags.next (.word [])).beginsDelimited = true := begins
        rw [slugWrite, List.append_nil]
        exact .leading flagged out .other
      | @twice flags two kept inside ends count =>
        have flagged : (flags.next (.word [])).twiceDelimited = true := two
        rw [slugWrite, List.append_nil]
        exact .twice flagged inside ends count .other
    | cons b text =>
      have slug : SlugText (b :: text) := proper.resolve_left (List.cons_ne_nil b text)
      cases slugged with
      | begins => exact .wrote slug
      | skipped => exact .wrote slug
      | wrote front => exact .wrote (front.append slug)
      | delimited front =>
        rw [slugWrite, List.append_assoc]
        exact .wrote (front.join slug)
      | emptied front =>
        rw [slugWrite, List.append_assoc]
        exact .wrote (front.join slug)
      | @doubled core front count prev =>
        have inside : [0x2d, 0x2d] <:+: core ++ List.replicate (count + 2) 0x2d ++ b :: text :=
          ⟨core, List.replicate count 0x2d ++ b :: text, by simp [List.replicate_succ]⟩
        have flagged : (SlugFlags.next ⟨true, false, true, true, true, false, false⟩
          (.word (b :: text))).twiceDelimited =
            true := rfl
        have after := Slugged.twice flagged inside (slug.getLast _) 0 .other
        rw [List.replicate_zero, List.append_nil] at after
        exact after
      | @leading flags begins out =>
        have flagged : (flags.next (.word (b :: text))).beginsDelimited = true := begins
        exact .leading flagged _ .other
      | @twice flags two kept inside ends count prev =>
        have still : [0x2d, 0x2d] <:+: kept ++ List.replicate count 0x2d ++ b :: text := by
          rw [List.append_assoc]
          exact inside.trans (List.prefix_append _ _).isInfix
        have flagged : (flags.next (.word (b :: text))).twiceDelimited = true := by
          simp [SlugFlags.next, two]
        have after := Slugged.twice flagged still (slug.getLast _) 0 .other
        rw [List.replicate_zero, List.append_nil] at after
        exact after
  | delimiter =>
    cases slugged with
    | begins => exact .begins
    | skipped => exact .leading rfl [] .delimiter
    | wrote slug => exact .delimited slug
    | delimited slug => exact .delimited slug
    | @emptied core slug =>
      have two : core ++ [0x2d] ++ [0x2d] = core ++ List.replicate 2 0x2d := by simp
      rw [slugWrite, if_pos rfl, two]
      exact .doubled slug 0 .delimiter
    | @doubled core slug count prev =>
      rw [slugWrite]
      split
      · rw [List.append_assoc, ← List.replicate_succ']
        exact .doubled slug (count + 1) .delimiter
      · exact .doubled slug count prev
    | @leading flags begins out prev =>
      have flagged : (flags.next .delimiter).beginsDelimited = true := by
        simp [SlugFlags.next, begins]
      rw [slugWrite]
      split
      · exact .leading flagged _ .delimiter
      · exact .leading flagged out prev
    | @twice flags two kept inside ends count prev =>
      have flagged : (flags.next .delimiter).twiceDelimited = true := two
      rw [slugWrite]
      split
      · rw [List.append_assoc, ← List.replicate_succ']
        exact .twice flagged inside ends (count + 1) .delimiter
      · exact .twice flagged inside ends count prev

theorem slugOut_slugged {tokens : List SlugToken} (proper : ∀ token ∈ tokens, token.Proper) :
    Slugged (slugFlags tokens) (slugOut tokens) := by
  induction tokens using List.reverseRecOn with
  | nil => exact .begins
  | append_singleton tokens token ih =>
    have front := ih fun other member => proper other (List.mem_append_left _ member)
    have after := front.next (proper token (by simp))
    rw [slugFlags, slugOut, List.foldl_concat, List.foldl_concat]
    exact after

structure SlugTrimmed (out kept : List UInt8) : Prop where
  hyphens : ∃ count, out = kept ++ List.replicate count 0x2d
  nonempty : kept = [] → out = []
  ends : kept.getLast? ≠ some 0x2d ∨ kept = [0x2d]

theorem trailing_unique {first second : List UInt8} (firstEnds : first.getLast? ≠ some 0x2d)
    (secondEnds : second.getLast? ≠ some 0x2d) {m n : Nat}
    (same : first ++ List.replicate m 0x2d = second ++ List.replicate n 0x2d) : first = second := by
  induction m generalizing n with
  | zero =>
    cases n with
    | zero => simpa using same
    | succ n =>
      rw [List.replicate_succ', ← List.append_assoc, List.replicate_zero, List.append_nil] at same
      exact absurd (by rw [same, List.getLast?_concat]) firstEnds
  | succ m ih =>
    cases n with
    | zero =>
      rw [List.replicate_succ', ← List.append_assoc, List.replicate_zero, List.append_nil] at same
      exact absurd (by rw [← same, List.getLast?_concat]) secondEnds
    | succ n =>
      rw [List.replicate_succ', List.replicate_succ', ← List.append_assoc,
        ← List.append_assoc] at same
      exact ih (List.append_cancel_right same)

theorem SlugTrimmed.eq {core : List UInt8} (trimmed : SlugTrimmed out kept) {count : Nat}
    (nonempty : core ≠ []) (coreEnds : core.getLast? ≠ some 0x2d)
    (whole : out = core ++ List.replicate count 0x2d) : kept = core := by
  obtain ⟨n, split⟩ := trimmed.hyphens
  rcases trimmed.ends with ends | rfl
  · exact trailing_unique ends coreEnds (split.symm.trans whole)
  · have hyphens : [] ++ List.replicate (n + 1) 0x2d = core ++ List.replicate count 0x2d := by
      rw [← whole, split]
      rfl
    exact absurd (trailing_unique (by simp) coreEnds hyphens).symm nonempty

/-- The result is a slug, unless it begins with a delimiter or has two in a row. -/
theorem Slugged.isSlug_iff {prev : SlugPrev} (slugged : Slugged flags (out, prev))
    (trimmed : SlugTrimmed out kept) :
    (IsSlug kept ↔ ¬ (flags.beginsDelimited = true ∨ flags.twiceDelimited = true)) ∧
      (IsSlug kept → kept = [] ∨ SlugText kept) := by
  have nothing : out = [] → kept = [] := by
    rintro rfl
    obtain ⟨count, split⟩ := trimmed.hyphens
    exact (List.append_eq_nil_iff.mp split.symm).1
  have good : ∀ core count, SlugText core → out = core ++ List.replicate count 0x2d →
      SlugText kept := by
    intro core count slug whole
    obtain ⟨b, rest, rfl, -⟩ := slug.head
    rw [trimmed.eq (List.cons_ne_nil b rest) (slug.getLast []) whole]
    exact slug
  have fine : kept = [] ∨ SlugText kept → flags.beginsDelimited = false →
    flags.twiceDelimited = false →
      (IsSlug kept ↔ ¬ (flags.beginsDelimited = true ∨ flags.twiceDelimited = true)) ∧
        (IsSlug kept → kept = [] ∨ SlugText kept) := by
    intro shape notBegins notTwice
    have isSlug : IsSlug kept := by
      rcases shape with rfl | slug
      · exact isSlug_nil
      · exact slug.isSlug
    exact ⟨iff_of_true isSlug (by simp [notBegins, notTwice]), fun _ => shape⟩
  have broken : ¬ IsSlug kept → flags.beginsDelimited = true ∨ flags.twiceDelimited = true →
      (IsSlug kept ↔ ¬ (flags.beginsDelimited = true ∨ flags.twiceDelimited = true)) ∧
        (IsSlug kept → kept = [] ∨ SlugText kept) :=
    fun notSlug trips => ⟨iff_of_false notSlug (not_not.mpr trips),
      fun isSlug => absurd isSlug notSlug⟩
  cases slugged with
  | begins => exact fine (Or.inl (nothing rfl)) rfl rfl
  | skipped => exact fine (Or.inl (nothing rfl)) rfl rfl
  | wrote slug => exact fine (Or.inr (good _ 0 slug (by simp))) rfl rfl
  | delimited slug => exact fine (Or.inr (good _ 1 slug rfl)) rfl rfl
  | emptied slug => exact fine (Or.inr (good _ 1 slug rfl)) rfl rfl
  | doubled slug count => exact fine (Or.inr (good _ _ slug rfl)) rfl rfl
  | leading begins out =>
    refine broken ?_ (Or.inl begins)
    intro isSlug
    obtain ⟨n, split⟩ := trimmed.hyphens
    cases kept with
    | nil => exact List.cons_ne_nil _ _ (trimmed.nonempty rfl)
    | cons b kept =>
      rw [List.cons_append] at split
      have first : b = 0x2d := (List.cons.inj split).1.symm
      exact isSlug.begins (by rw [first, List.head?_cons])
  | @twice _ two core inside ends count =>
    refine broken ?_ (Or.inr two)
    intro isSlug
    have nonempty : core ≠ [] := by
      rintro rfl
      exact absurd inside.length_le (by simp)
    rw [trimmed.eq nonempty ends rfl] at isSlug
    exact isSlug.single inside

end Flags

section Characters

variable {c : Int}

theorem searchMapFrom_found (table : List MapEntry) (c : Int) (fuel : Nat) {first last : Int}
    (low : 0 ≤ first) (ordered : first ≤ last + 1) (high : last < table.length)
    (enough : last - first + 1 < fuel) :
    ∃ result, searchMapFrom table c fuel first last = some result ∧
      ∀ ascii, result = some ascii → ∃ entry ∈ table, entry.ascii = ascii := by
  induction fuel generalizing first last with
  | zero => omega
  | succ fuel ih =>
    rw [searchMapFrom]
    split
    next inside =>
      have place : ((first + last) / 2).toNat < table.length := by omega
      dsimp only
      rw [List.getElem?_eq_getElem place]
      dsimp only
      split
      · split
        · refine ⟨_, rfl, ?_⟩
          rintro ascii same
          exact ⟨_, List.getElem_mem place, Option.some.inj same⟩
        · exact ih (by omega) (by omega) high (by omega)
      · exact ih low (by omega) (by omega) (by omega)
    next => exact ⟨none, rfl, fun _ absent => nomatch absent⟩

theorem searchMap_found (table : List MapEntry) (c : Int) :
    ∃ result, searchMap table c = some result ∧ ∀ ascii, result = some ascii →
      ∃ entry ∈ table, entry.ascii = ascii :=
  searchMapFrom_found table c _ le_rfl (by omega) (by omega) (by omega)

theorem slugText_of_characters {text : List UInt8} (characters : ∀ b ∈ text, IsSlugCharacter b) :
    text = [] ∨ SlugText text := by
  induction text with
  | nil => exact Or.inl rfl
  | cons b text ih =>
    rw [List.forall_mem_cons] at characters
    rcases ih characters.2 with rfl | slug
    · exact Or.inr (.last characters.1)
    · exact Or.inr (.character characters.1 slug)

theorem slugWords_of_all {words : List (List UInt8)} (all : words.all (fun word => !word.isEmpty &&
    word.all fun b => decide (IsSlugCharacter b)) = true) : ∀ word ∈ words, SlugText word := by
  intro word member
  have one := List.all_eq_true.mp all word member
  rw [Bool.and_eq_true, List.all_eq_true] at one
  refine (slugText_of_characters fun b inside => by simpa using one.2 b inside).resolve_left ?_
  rintro rfl
  exact absurd one.1 (by decide)

theorem slugMap_words {entry : MapEntry} (member : entry ∈ slugMap) :
    entry.ascii = [] ∨ SlugText entry.ascii := by
  have all : slugMapEntries.all
    (fun named => (asciiBytes named.2).all (fun b => decide (IsSlugCharacter b)) ||
      named.2 == "new-shequel") = true := by decide +kernel
  obtain ⟨named, listed, rfl⟩ := List.mem_map.mp member
  have one := List.all_eq_true.mp all named listed
  rw [Bool.or_eq_true, List.all_eq_true, beq_iff_eq] at one
  rcases one with characters | shequel
  · exact slugText_of_characters fun b inside => by simpa using characters b inside
  · have whole : asciiBytes "new-shequel" = asciiBytes "new" ++ 0x2d :: asciiBytes "shequel" := by
      decide
    have words := @slugWords_of_all [asciiBytes "new", asciiBytes "shequel"] (by decide)
    dsimp only
    rw [shequel, whole]
    exact Or.inr ((words _ (by simp)).join (words _ (by simp)))

variable (tables : SlugTables)

def slugToken (c : Int) : Option SlugToken :=
  if c < 127 then
    if slugIsBlank c then some .delimiter
    else
      match slugName c with
      | some name => some (.word name)
      | none =>
        if ¬ isprint (UInt8.ofNat c.toNat) then none
        else if ispunct c then some .delimiter
        else some (.word [UInt8.ofNat c.toNat])
  else if tables.isNonbase c then none
  else ((slugAscii tables c).getD none).map SlugToken.word

def slugTokens (text : List Char) : List SlugToken :=
  ((text.map fun c => (c.toNat : Int)).takeWhile (· ≠ 0)).filterMap (slugToken tables)

def SlugTables.Proper (tables : SlugTables) : Prop :=
  ∀ entry ∈ tables.decomposeMap, ∀ b ∈ entry.ascii, IsSlugCharacter b

theorem slugAscii_found (c : Int) : ∃ result, slugAscii tables c = some result ∧
    (tables.Proper → ∀ ascii, result = some ascii → ascii = [] ∨ SlugText ascii) := by
  obtain ⟨hand, found, listed⟩ := searchMap_found slugMap c
  rw [slugAscii, found, Option.bind_eq_bind, Option.bind_some]
  cases hand with
  | some ascii =>
    refine ⟨some ascii, rfl, fun _ other same => ?_⟩
    obtain rfl := Option.some.inj same
    obtain ⟨entry, member, rfl⟩ := listed ascii rfl
    exact slugMap_words member
  | none =>
    obtain ⟨generated, searched, inside⟩ := searchMap_found tables.decomposeMap c
    refine ⟨generated, searched, fun proper ascii same => ?_⟩
    obtain ⟨entry, member, rfl⟩ := inside ascii same
    exact slugText_of_characters (proper entry member)

theorem slugName_words {name : List UInt8} (named : slugName c = some name) : SlugText name := by
  have words := @slugWords_of_all [asciiBytes "less", asciiBytes "greater", asciiBytes "dollar",
    asciiBytes "hash"] (by decide)
  refine words name ?_
  simp only [slugName] at named
  split_ifs at named <;> obtain rfl := Option.some.inj named <;> simp

theorem slugCharacter_tables :
    (∀ n < 127, slugIsBlank (n : Nat) = false → isprint (UInt8.ofNat n) = true →
      ispunct (n : Nat) = false →
      IsSlugCharacter (UInt8.ofNat n)) ∧
    ∀ n < 256, IsSlugCharacter (UInt8.ofNat n) → n < 127 ∧ slugIsBlank (n : Nat) = false ∧
      slugName (n : Nat) = none ∧
      isprint (UInt8.ofNat n) = true ∧ ispunct (n : Nat) = false := by
  decide +kernel

theorem slugToken_proper (positive : 0 ≤ c) {token : SlugToken} (proper : tables.Proper)
    (means : slugToken tables c = some token) : token.Proper := by
  rw [slugToken] at means
  split at means
  next small =>
    split at means
    next =>
      obtain rfl := Option.some.inj means
      trivial
    next notBlank =>
      cases named : slugName c with
      | some name =>
        simp only [named] at means
        obtain rfl := Option.some.inj means
        exact Or.inr (slugName_words named)
      | none =>
        simp only [named] at means
        split_ifs at means with hidden punctuation
        · obtain rfl := Option.some.inj means
          trivial
        · obtain rfl := Option.some.inj means
          refine Or.inr (.last ?_)
          have same : ((c.toNat : Nat) : Int) = c := Int.toNat_of_nonneg positive
          refine slugCharacter_tables.1 c.toNat (by omega) ?_ hidden ?_
          · rw [same]
            exact Bool.eq_false_iff.mpr notBlank
          · rw [same]
            exact Bool.eq_false_iff.mpr punctuation
  next =>
    split at means
    next => exact nomatch means
    next =>
      obtain ⟨result, found, words⟩ := slugAscii_found tables c
      rw [found, Option.getD_some] at means
      obtain ⟨ascii, rfl, rfl⟩ := Option.map_eq_some_iff.mp means
      exact words proper ascii rfl

end Characters

section Writing

variable (tables : SlugTables) (env : BufferEnv) (fresh : Nat → UInt8)
variable {bytes out : List UInt8} {buffer : MulleBuffer} {text : List UInt8}

def slugPrev (prev : Int) : SlugPrev :=
  if prev = 0 then .none else if prev = 0x2d then .delimiter else .other

theorem slugDelimiter_writes (holds : FlexibleHolds (bytes ++ out) buffer)
    (prev : Int) : ∃ next after, slugDelimiter env fresh 0x2d buffer prev = some (next, after) ∧
      FlexibleHolds (bytes ++ (slugWrite (out, slugPrev prev) .delimiter).1) next ∧
      slugPrev after = (slugWrite (out, slugPrev prev) .delimiter).2 := by
  have code : delimiterCode 0x2d = 0x2d := by decide
  rw [slugDelimiter, code, slugWrite]
  by_cases other : prev ≠ 0 ∧ prev ≠ 0x2d
  · have isOther : slugPrev prev = .other := by rw [slugPrev, if_neg other.1, if_neg other.2]
    obtain ⟨next, added, nextHolds⟩ := holds.addByte env fresh 0x2d
    rw [if_pos other, if_pos isOther, added]
    exact ⟨next, 0x2d, rfl, by rwa [List.append_assoc] at nextHolds, rfl⟩
  · have notOther : slugPrev prev ≠ .other := by
      rw [slugPrev]
      split_ifs with none hyphen
      · decide
      · decide
      · exact absurd ⟨none, hyphen⟩ other
    rw [if_neg other, if_neg notOther]
    exact ⟨buffer, prev, rfl, holds, rfl⟩

theorem SlugText.nonzero (slug : text = [] ∨ SlugText text) : text.takeWhile (· ≠ 0) = text := by
  rw [List.takeWhile_eq_self_iff]
  intro b member
  rcases slug with rfl | slug
  · exact absurd member List.not_mem_nil
  · rcases slug.isSlug.characters b member with character | rfl
    · rw [decide_eq_true_eq]
      rintro rfl
      exact absurd character (by decide)
    · decide

theorem bufferAddString_writes
    (holds : FlexibleHolds (bytes ++ out) buffer) (word : text = [] ∨ SlugText text) :
    ∃ next, bufferAddString env fresh buffer text = some next ∧
      FlexibleHolds (bytes ++ (out ++ text)) next := by
  obtain ⟨next, added, nextHolds⟩ := (@flexibleSink env 0).addString fresh text holds
  rw [SlugText.nonzero word, List.append_assoc] at nextHolds
  exact ⟨next, added, nextHolds⟩

theorem slugCharacter_writes (proper : tables.Proper)
    (holds : FlexibleHolds (bytes ++ out) buffer) (prev : Int) {c : Int} (positive : 0 < c) :
    ∃ next after, slugCharacter tables env fresh 0x2d buffer prev c = some (next, after) ∧
      FlexibleHolds (bytes ++ ((slugToken tables c).toList.foldl slugWrite (out, slugPrev prev)).1)
        next ∧
      slugPrev after = ((slugToken tables c).toList.foldl slugWrite (out, slugPrev prev)).2 := by
  have other : c ≠ 0x2d → slugPrev c = .other := by
    intro notHyphen
    rw [slugPrev, if_neg (by omega), if_neg notHyphen]
  rw [slugCharacter, slugToken]
  by_cases small : c < 127
  · rw [if_pos small, if_pos small]
    by_cases blank : slugIsBlank c = true
    · rw [if_pos blank, if_pos blank]
      exact slugDelimiter_writes env fresh holds prev
    · rw [if_neg blank, if_neg blank]
      have notHyphen : c ≠ 0x2d := by
        rintro rfl
        exact blank rfl
      cases named : slugName c with
      | some name =>
        obtain ⟨next, added, nextHolds⟩ :=
          bufferAddString_writes env fresh holds (Or.inr (slugName_words named))
        simp only [added, Option.bind_eq_bind, Option.bind_some]
        exact ⟨next, c, rfl, nextHolds, other notHyphen⟩
      | none =>
        dsimp only
        by_cases hidden : ¬ isprint (UInt8.ofNat c.toNat) = true
        · rw [if_pos hidden, if_pos hidden]
          exact ⟨buffer, prev, rfl, holds, rfl⟩
        · rw [if_neg hidden, if_neg hidden]
          by_cases punctuation : ispunct c = true
          · rw [if_pos punctuation, if_pos punctuation]
            exact slugDelimiter_writes env fresh holds prev
          · rw [if_neg punctuation, if_neg punctuation]
            obtain ⟨next, added, nextHolds⟩ := holds.addByte env fresh (UInt8.ofNat c.toNat)
            rw [List.append_assoc] at nextHolds
            simp only [added, Option.bind_eq_bind, Option.bind_some]
            exact ⟨next, c, rfl, nextHolds, other notHyphen⟩
  · rw [if_neg small, if_neg small]
    by_cases nonbase : tables.isNonbase c = true
    · rw [if_pos nonbase, if_pos nonbase]
      exact ⟨buffer, prev, rfl, holds, rfl⟩
    · rw [if_neg nonbase, if_neg nonbase]
      obtain ⟨result, found, words⟩ := slugAscii_found tables c
      rw [found, Option.getD_some, Option.bind_eq_bind, Option.bind_some]
      cases result with
      | none => exact ⟨buffer, prev, rfl, holds, rfl⟩
      | some ascii =>
        obtain ⟨next, added, nextHolds⟩ :=
          bufferAddString_writes env fresh holds (words proper ascii rfl)
        simp only [added, Option.bind_eq_bind, Option.bind_some]
        exact ⟨next, c, rfl, nextHolds, other (by omega)⟩

theorem slugFrom_writes (proper : tables.Proper) (text : List Char)
    (holds : FlexibleHolds (bytes ++ out) buffer) (prev : Int) (front : List Char) {fuel : Nat}
    (enough : text.length < fuel) :
    ∃ next, slugFrom tables env fresh 0x2d fuel buffer prev (.between utf8EncodeChar front text) =
      some next ∧
      FlexibleHolds (bytes ++ ((slugTokens tables text).foldl slugWrite (out, slugPrev prev)).1)
        next := by
  induction text generalizing out buffer prev front fuel with
  | nil =>
    cases fuel with
    | zero => exact absurd enough (Nat.not_lt_zero _)
    | succ fuel =>
      have ended : (Cursor.between utf8EncodeChar front []).rest = [] := rfl
      exact ⟨buffer, by rw [slugFrom, if_pos ended], holds⟩
  | cons c text ih =>
    cases fuel with
    | zero => exact absurd enough (Nat.not_lt_zero _)
    | succ fuel =>
      have more : (Cursor.between utf8EncodeChar front (c :: text)).rest ≠ [] := by
        intro none
        have size := congrArg List.length (List.append_eq_nil_iff.mp none).1
        rw [String.length_utf8EncodeChar, List.length_nil] at size
        exact absurd size (Nat.ne_of_gt c.utf8Size_pos)
      have tokens : slugTokens tables (c :: text) =
          if (c.toNat : Int) = 0 then
            [] else (slugToken tables c.toNat).toList ++ slugTokens tables text := by
        rw [slugTokens, List.map_cons, List.takeWhile_cons]
        by_cases zero : (c.toNat : Int) = 0
        · simp [zero]
        · rw [if_pos (decide_eq_true zero), if_neg zero, List.filterMap_cons]
          cases slugToken tables c.toNat with
          | none => rfl
          | some token => rfl
      rw [slugFrom, if_neg more, utf8_walks.next front c text, Option.bind_eq_bind,
        Option.bind_some, tokens]
      dsimp only
      split
      next => exact ⟨buffer, rfl, holds⟩
      next nonzero =>
        obtain ⟨between, after, written, betweenHolds, same⟩ :=
          slugCharacter_writes tables env fresh proper holds prev (by omega : (0 : Int) < c.toNat)
        obtain ⟨next, finished, nextHolds⟩ :=
          ih betweenHolds after (front ++ [c]) (Nat.lt_of_succ_lt_succ enough)
        refine ⟨next, ?_, ?_⟩
        · rw [written]
          exact finished
        · rw [List.foldl_append]
          generalize (slugToken tables c.toNat).toList.foldl slugWrite (out, slugPrev prev) =
            state at same nextHolds ⊢
          obtain ⟨writtenOut, writtenPrev⟩ := state
          obtain rfl : slugPrev after = writtenPrev := same
          exact nextHolds

theorem slugTrim_stop {prevlen length : Nat} (short : length ≤ prevlen + 1) (buffer : MulleBuffer) :
    slugTrim 0x2d prevlen length buffer = some buffer := by
  cases length with
  | zero => rfl
  | succ length => rw [slugTrim, if_neg (Nat.not_lt.mpr short)]

theorem slugTrim_trims (holds : FlexibleHolds (bytes ++ out) buffer) :
    ∃ next kept, slugTrim 0x2d bytes.length (bytes ++ out).length buffer = some next ∧
      FlexibleHolds (bytes ++ kept) next ∧ SlugTrimmed out kept := by
  induction out using List.reverseRecOn generalizing buffer with
  | nil =>
    rw [List.append_nil] at holds ⊢
    refine ⟨buffer, [], slugTrim_stop (Nat.le_succ _) buffer, by rwa [List.append_nil], ?_⟩
    exact ⟨⟨0, rfl⟩, fun _ => rfl, Or.inl (by simp)⟩
  | append_singleton out b ih =>
    have whole : out ++ [b] = out ++ [b] ++ List.replicate 0 0x2d := by
      rw [List.replicate_zero, List.append_nil]
    have length : (bytes ++ (out ++ [b])).length = (bytes ++ out).length + 1 := by
      rw [← List.append_assoc, List.length_append, List.length_singleton]
    have last : bufferGetLastByte buffer = some (b.toNat : Int) := by
      rw [holds.lastByte, ← List.append_assoc, List.getLast?_concat]
      rfl
    rw [length]
    by_cases one : out = []
    · subst one
      rw [List.append_nil]
      refine ⟨buffer, [b], slugTrim_stop le_rfl buffer, holds, ⟨0, whole⟩,
        (fun none => nomatch none), ?_⟩
      by_cases hyphen : b = 0x2d
      · exact Or.inr (by rw [hyphen])
      · exact Or.inl (by simpa using hyphen)
    · have longer : (bytes ++ out).length + 1 > bytes.length + 1 := by
        have positive := List.length_pos_iff.mpr one
        rw [List.length_append]
        omega
      rw [slugTrim, if_pos longer, last, Option.bind_eq_bind, Option.bind_some]
      by_cases hyphen : b = 0x2d
      · subst hyphen
        have removed := holds.removeLastByte
        rw [← List.append_assoc, List.dropLast_concat] at removed
        obtain ⟨next, kept, trimmed, nextHolds, ⟨count, split⟩, nonempty, ends⟩ := ih removed
        refine ⟨next, kept, ?_, nextHolds, ⟨count + 1, ?_⟩, fun none => absurd (nonempty none) one,
          ends⟩
        · have code : ((0x2d : UInt8).toNat : Int) = delimiterCode 0x2d := by decide
          rw [if_neg (not_not.mpr code)]
          exact trimmed
        · rw [List.replicate_succ', ← List.append_assoc, ← split]
      · have notHyphen : (b.toNat : Int) ≠ delimiterCode 0x2d := by
          intro same
          have value : (b.toNat : Int) = 0x2d := same
          exact hyphen (UInt8.toNat_inj.mp (Int.natCast_inj.mp value))
        rw [if_pos notHyphen]
        refine ⟨buffer, out ++ [b], rfl, holds, ⟨0, whole⟩, fun none => ?_, Or.inl ?_⟩
        · exact absurd (List.append_eq_nil_iff.mp none).2 (List.cons_ne_nil b [])
        · rw [List.getLast?_concat]
          simpa using hyphen

theorem text_length_le (text : List Char) : text.length ≤ (text.flatMap utf8EncodeChar).length := by
  induction text with
  | nil => simp
  | cons c text ih =>
    have positive := c.utf8Size_pos
    rw [List.flatMap_cons, List.length_append, String.length_utf8EncodeChar, List.length_cons]
    omega

theorem bufferAddSlugifiedUtf8data_writes (proper : tables.Proper) (text : List Char)
    (holds : FlexibleHolds bytes buffer) :
    ∃ next kept, bufferAddSlugifiedUtf8data tables env fresh 0x2d buffer (text.flatMap
      utf8EncodeChar) = some next ∧
      FlexibleHolds (bytes ++ kept) next ∧ SlugTrimmed (slugOut (slugTokens tables text)).1 kept := by
  rw [bufferAddSlugifiedUtf8data]
  have begins : FlexibleHolds (bytes ++ []) buffer := by rwa [List.append_nil]
  have size := text_length_le text
  split
  next none =>
    obtain rfl : text = [] := List.eq_nil_of_length_eq_zero (by omega)
    exact ⟨buffer, [], rfl, begins, ⟨0, rfl⟩, fun _ => rfl, Or.inl (by simp)⟩
  next =>
    obtain ⟨between, written, betweenHolds⟩ :=
      slugFrom_writes tables env fresh proper text begins 0 [] (Nat.lt_succ_of_le size)
    obtain ⟨next, kept, trimmed, nextHolds, ends⟩ := slugTrim_trims betweenHolds
    refine ⟨next, kept, ?_, nextHolds, ends⟩
    have front : Cursor.between utf8EncodeChar [] text = ⟨[], text.flatMap utf8EncodeChar⟩ := rfl
    rw [front] at written
    rw [written, Option.bind_eq_bind, Option.bind_some, holds.length_eq, betweenHolds.length_eq]
    exact trimmed

end Writing

section Again

variable (tables : SlugTables) (env : BufferEnv) (fresh : Nat → UInt8)
variable {b : UInt8} {text : List UInt8}

theorem slugToken_character (character : IsSlugCharacter b) :
    slugToken tables b.toNat = some (.word [b]) := by
  have facts := slugCharacter_tables.2 b.toNat b.toNat_lt
  rw [UInt8.ofNat_toNat] at facts
  obtain ⟨small, notBlank, notNamed, shown, notPunctuation⟩ := facts character
  have plain : (b.toNat : Int) < 127 := by omega
  rw [slugToken, if_pos plain, notBlank, if_neg Bool.false_ne_true, notNamed]
  dsimp only
  rw [Int.toNat_natCast, UInt8.ofNat_toNat, if_neg (not_not.mpr shown), notPunctuation,
    if_neg Bool.false_ne_true]

theorem slugToken_hyphen : slugToken tables 0x2d = some .delimiter := rfl

def asciiCharacters (text : List UInt8) : List Char := text.map fun b => Char.ofNat b.toNat

theorem utf8EncodeChar_of_ascii : ∀ n < 128, utf8EncodeChar (Char.ofNat n) = [UInt8.ofNat n] ∧
    (Char.ofNat n).toNat = n := by
  intro n small
  have value : (Char.ofNat n).toNat = n := by
    have valid : n.isValidChar := Or.inl (by omega)
    rw [Char.ofNat, dif_pos valid]
    rfl
  have form : Utf8Form (Char.ofNat n).toNat [UInt8.ofNat n] :=
    .one _ (by omega) (by rw [value, toNat_ofNat8 (by omega)])
  exact ⟨form.eq_encode, value⟩

theorem asciiCharacters_encode (ascii : ∀ b ∈ text, b.toNat < 128) :
    (asciiCharacters text).flatMap utf8EncodeChar = text := by
  induction text with
  | nil => rfl
  | cons b text ih =>
    rw [List.forall_mem_cons] at ascii
    have one := (utf8EncodeChar_of_ascii b.toNat ascii.1).1
    rw [UInt8.ofNat_toNat] at one
    rw [asciiCharacters, List.map_cons, List.flatMap_cons, one, ← asciiCharacters, ih ascii.2]
    rfl

theorem IsSlugCharacter.ascii (character : IsSlugCharacter b) : b.toNat < 128 := by
  rw [IsSlugCharacter] at character
  omega

theorem slugTokens_cons (ascii : b.toNat < 128) (nonzero : b.toNat ≠ 0) (text : List UInt8) :
    slugTokens tables (asciiCharacters (b :: text)) =
      (slugToken tables b.toNat).toList ++ slugTokens tables (asciiCharacters text) := by
  have value : ((Char.ofNat b.toNat).toNat : Int) = b.toNat := by
    rw [(utf8EncodeChar_of_ascii b.toNat ascii).2]
  have proper : decide ((b.toNat : Int) ≠ 0) = true := decide_eq_true (by omega)
  rw [slugTokens, asciiCharacters, List.map_cons, List.map_cons, value, List.takeWhile_cons,
    if_pos proper, List.filterMap_cons]
  cases slugToken tables b.toNat with
  | none => rfl
  | some token => rfl

theorem SlugText.writes (slug : SlugText text) (state : List UInt8 × SlugPrev) :
    (slugTokens tables (asciiCharacters text)).foldl slugWrite state = (state.1 ++ text, .other) := by
  have nonzero : ∀ {b : UInt8}, IsSlugCharacter b → b.toNat ≠ 0 := by
    rintro b character zero
    rw [IsSlugCharacter, zero] at character
    omega
  induction slug generalizing state with
  | @last b character =>
    rw [slugTokens_cons tables character.ascii (nonzero character),
      slugToken_character tables character]
    rfl
  | @character b text character rest ih =>
    rw [slugTokens_cons tables character.ascii (nonzero character),
      slugToken_character tables character, List.foldl_append, ih]
    simp [slugWrite]
  | @hyphen b text character rest ih =>
    rw [slugTokens_cons tables character.ascii (nonzero character),
      slugToken_character tables character, List.foldl_append, slugTokens_cons tables (by decide)
        (by decide), List.foldl_append, ih]
    have hyphen : slugToken tables (UInt8.toNat 0x2d) = some .delimiter := slugToken_hyphen tables
    rw [hyphen]
    simp [slugWrite]

theorem slug_again (proper : tables.Proper) {slug : List UInt8}
    (shape : slug = [] ∨ SlugText slug) {bytes : List UInt8} {buffer : MulleBuffer}
    (holds : FlexibleHolds bytes buffer) :
    ∃ next, bufferAddSlugifiedUtf8data tables env fresh 0x2d buffer slug = some next ∧
      FlexibleHolds (bytes ++ slug) next := by
  have ascii : ∀ b ∈ slug, b.toNat < 128 := by
    rcases shape with rfl | slug
    · simp
    · intro b member
      rcases slug.isSlug.characters b member with character | rfl
      · exact character.ascii
      · decide
  obtain ⟨next, kept, added, nextHolds, trimmed⟩ :=
    bufferAddSlugifiedUtf8data_writes tables env fresh proper (asciiCharacters slug) holds
  rw [asciiCharacters_encode ascii] at added
  have same : kept = slug := by
    rcases shape with rfl | slug
    · obtain ⟨count, split⟩ := trimmed.hyphens
      exact (List.append_eq_nil_iff.mp split.symm).1
    · rw [slugOut, slug.writes] at trimmed
      obtain ⟨b, rest, rfl, -⟩ := slug.head
      have whole : b :: rest = b :: rest ++ List.replicate 0 0x2d := by
        rw [List.replicate_zero, List.append_nil]
      exact trimmed.eq (List.cons_ne_nil b rest) (slug.getLast []) whole
  rw [same] at nextHolds
  exact ⟨next, added, nextHolds⟩

variable {tables}

/-- The appended text is a slug and a fixed point, unless an empty transliteration leads to a
delimiter too many. -/
theorem bufferAddSlugifiedUtf8data_slug_iff (proper : tables.Proper) {bytes : List UInt8}
    {buffer : MulleBuffer} (holds : FlexibleHolds bytes buffer) (text : List Char) :
    ∃ next slug, bufferAddSlugifiedUtf8data tables env fresh 0x2d buffer (text.flatMap
      utf8EncodeChar) = some next ∧
      FlexibleHolds (bytes ++ slug) next ∧
      (IsSlug slug ∧ (∀ others other, FlexibleHolds others other → ∃ again,
          bufferAddSlugifiedUtf8data tables env fresh 0x2d other slug = some again ∧
          FlexibleHolds (others ++ slug) again) ↔
        ¬ SlugTrips (slugTokens tables text)) := by
  obtain ⟨next, slug, added, nextHolds, trimmed⟩ :=
    bufferAddSlugifiedUtf8data_writes tables env fresh proper text holds
  have tokens : ∀ token ∈ slugTokens tables text, token.Proper := by
    intro token member
    obtain ⟨c, inside, means⟩ := List.mem_filterMap.mp member
    obtain ⟨character, -, rfl⟩ := List.mem_map.mp ((List.takeWhile_subset _) inside)
    exact slugToken_proper tables (Int.natCast_nonneg _) proper means
  obtain ⟨isSlug, shape⟩ := (slugOut_slugged tokens).isSlug_iff trimmed
  have flags := slugFlags_hold (slugTokens tables text)
  refine ⟨next, slug, added, nextHolds, ?_⟩
  rw [SlugTrips, ← flags.beginsDelimited, ← flags.twiceDelimited, ← isSlug]
  exact and_iff_left_of_imp fun good others other otherHolds => slug_again tables env fresh proper
    (shape good) otherHolds

theorem bufferAddSlugifiedUtf8data_slug_iff_ascii :
    ∃ next slug, bufferAddSlugifiedUtf8data ⟨[], fun _ => false⟩ ⟨16, fun _ _ => 0⟩ (fun _ => 0)
      0x2d (bufferInit 0)
        (['H', 'i', ' ', '!', 'y', 'o', 'u', '?'].flatMap utf8EncodeChar) = some next ∧
      FlexibleHolds ([] ++ slug) next ∧
      (IsSlug slug ∧ (∀ others other, FlexibleHolds others other → ∃ again,
          bufferAddSlugifiedUtf8data ⟨[], fun _ => false⟩ ⟨16, fun _ _ => 0⟩ (fun _ => 0) 0x2d other
            slug = some again ∧
            FlexibleHolds (others ++ slug) again) ↔
        ¬ SlugTrips (slugTokens ⟨[], fun _ => false⟩ ['H', 'i', ' ', '!', 'y', 'o', 'u', '?'])) :=
  bufferAddSlugifiedUtf8data_slug_iff ⟨16, fun _ _ => 0⟩ (fun _ => 0) (by simp [SlugTables.Proper])
    (flexibleStart_holds (.capacity 0)) _

/-- The bullet has an empty transliteration. -/
theorem bufferAddSlugifiedUtf8data_twice :
    ∃ next, bufferAddSlugifiedUtf8data ⟨[], fun _ => false⟩ ⟨16, fun _ _ => 0⟩ (fun _ => 0) 0x2d
      (bufferInit 0)
        (['a', '-', '•', '-', 'b'].flatMap utf8EncodeChar) = some next ∧
      next.storage.take next.curr = [0x61, 0x2d, 0x2d, 0x62] ∧ ¬ IsSlug [0x61, 0x2d, 0x2d, 0x62] := by
  have content : (bufferAddSlugifiedUtf8data ⟨[], fun _ => false⟩ ⟨16, fun _ _ => 0⟩ (fun _ => 0)
    0x2d (bufferInit 0)
      (['a', '-', '•', '-', 'b'].flatMap utf8EncodeChar)).map (fun next =>
        next.storage.take next.curr) =
        some [0x61, 0x2d, 0x2d, 0x62] := by decide +kernel
  obtain ⟨next, added, stored⟩ := Option.map_eq_some_iff.mp content
  exact ⟨next, added, stored, fun slug => slug.single ⟨[0x61], [0x62], rfl⟩⟩

end Again

end MulleCore
