import Mathlib.Data.Nat.ModEq
import Mathlib.Logic.Function.Basic

/-!
A queue in a ring of places. The places are numbered on without end and used over again.
-/

namespace Library

section Ring

variable {Item : Type} {size front : Nat} {storage : Nat → Item} {items : List Item}
variable {item : Item}

theorem ringPlace_ne {first second : Nat} (before : first < second) (near : second < first + size) :
    first % size ≠ second % size := by
  intro same
  have divides : size ∣ second - first := (Nat.modEq_iff_dvd' (Nat.le_of_lt before)).mp same
  have far : size ≤ second - first := Nat.le_of_dvd (by omega) divides
  omega

/-- The items are in the places from `front` on. -/
structure InRing (size front : Nat) (storage : Nat → Item) (items : List Item) : Prop where
  fits : items.length ≤ size
  stored : ∀ j item, items[j]? = some item → storage ((front + j) % size) = item

theorem inRing_nil (size front : Nat) (storage : Nat → Item) : InRing size front storage [] := by
  constructor
  · simp
  · simp

theorem ringBehind_ne (front : Nat) {count j : Nat} (room : count < size) (inside : j < count) :
    (front + count) % size ≠ (front + j) % size :=
  (ringPlace_ne (by omega) (by omega)).symm

theorem InRing.write (ring : InRing size front storage items) (room : items.length < size)
    (item : Item) :
    InRing size front (Function.update storage ((front + items.length) % size) item) items := by
  refine ⟨ring.fits, ?_⟩
  intro j other found
  have inside : j < items.length := (List.getElem?_eq_some_iff.mp found).1
  rw [Function.update_of_ne (ringBehind_ne front room inside).symm]
  exact ring.stored j other found

theorem InRing.push (ring : InRing size front storage items) (room : items.length < size)
    (here : storage ((front + items.length) % size) = item) :
    InRing size front storage (items ++ [item]) := by
  constructor
  · rw [List.length_append, List.length_singleton]
    exact room
  · intro j other found
    rcases Nat.lt_trichotomy j items.length with inside | rfl | outside
    · rw [List.getElem?_append_left inside] at found
      exact ring.stored j other found
    · rw [List.getElem?_concat_length] at found
      rw [here]
      exact Option.some.inj found
    · rw [List.getElem?_eq_none (by simp; omega)] at found
      cases found

theorem InRing.pop (ring : InRing size front storage (item :: items)) :
    InRing size (front + 1) storage items := by
  refine ⟨Nat.le_of_succ_le ring.fits, ?_⟩
  intro j other found
  have place : front + 1 + j = front + (j + 1) := by omega
  rw [place]
  exact ring.stored (j + 1) other found

theorem InRing.first (ring : InRing size front storage (item :: items)) :
    storage (front % size) = item := ring.stored 0 item rfl

end Ring

end Library
