import Mathlib.Data.List.Induction
import Mathlib.Tactic.Ring

/-!
First occurrences of a pattern in a text, and the hash of a window that slides over the text.
-/

namespace Library

section Occurrences

variable {Unit : Type} {pattern text : List Unit}

def FirstOccurrence (pattern text : List Unit) : Option Nat → Prop
  | some place =>
    place ≤ text.length ∧ pattern <+: text.drop place ∧
    ∀ before < place, ¬ pattern <+: text.drop before
  | none => ∀ place, ¬ pattern <+: text.drop place

theorem FirstOccurrence.here (begins : pattern <+: text) : FirstOccurrence pattern text (some 0) :=
  ⟨Nat.zero_le _, begins, fun _ before => absurd before (Nat.not_lt_zero _)⟩

theorem FirstOccurrence.later {result : Option Nat} (c : Unit) (absent : ¬ pattern <+: c :: text)
    (first : FirstOccurrence pattern text result) :
    FirstOccurrence pattern (c :: text) (result.map (· + 1)) := by
  cases result with
  | none =>
    intro place
    cases place with
    | zero => exact absent
    | succ place => exact first place
  | some place =>
    refine ⟨Nat.succ_le_succ first.1, first.2.1, ?_⟩
    intro before below
    cases before with
    | zero => exact absent
    | succ before => exact first.2.2 before (Nat.lt_of_succ_lt_succ below)

theorem FirstOccurrence.tooShort (short : text.length < pattern.length) :
    FirstOccurrence pattern text none := by
  intro place begins
  have within := begins.length_le
  rw [List.length_drop] at within
  omega

theorem prefix_window_iff {window rest : List Unit} (same : window.length = pattern.length) :
    pattern <+: window ++ rest ↔ window = pattern := by
  rw [List.prefix_iff_eq_take, ← same, List.take_left, eq_comm]

end Occurrences

section Hash

variable {Ring : Type} [CommRing Ring] (base : Ring)

def windowHash (window : List Ring) : Ring := window.foldl (fun hash unit => hash * base + unit) 0

theorem windowHash_concat (window : List Ring) (unit : Ring) :
    windowHash base (window ++ [unit]) = windowHash base window * base + unit := by
  simp [windowHash]

theorem windowHash_cons (unit : Ring) (window : List Ring) :
    windowHash base (unit :: window) = unit * base ^ window.length + windowHash base window := by
  induction window using List.reverseRecOn with
  | nil => simp [windowHash]
  | append_singleton window last ih =>
    rw [← List.cons_append, windowHash_concat, windowHash_concat, ih, List.length_append,
      List.length_singleton]
    ring

theorem windowHash_slide (first last : Ring) (window : List Ring) :
    windowHash base (window ++ [last]) =
      windowHash base (first :: window) * base - first * base ^ (window.length + 1) + last := by
  rw [windowHash_concat, windowHash_cons]
  ring

end Hash

end Library
