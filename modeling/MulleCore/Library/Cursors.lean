import Mathlib.Data.List.Induction

/-!
A cursor in a sequence of units, and functions that move it over one spelled character.
-/

namespace Library

/-- `seen` is what is in front of the cursor, the nearest unit first. -/
structure Cursor (Unit : Type) where
  seen : List Unit
  rest : List Unit
deriving DecidableEq

section Walks

variable {Unit Character Value : Type}

def Cursor.between (encode : Character → List Unit) (front rest : List Character) : Cursor Unit :=
  ⟨(front.flatMap encode).reverse, rest.flatMap encode⟩

structure Walks (encode : Character → List Unit) (value : Character → Value)
    (next previous : Cursor Unit → Option (Value × Cursor Unit)) : Prop where
  next : ∀ front c rest, next (.between encode front (c :: rest)) =
    some (value c, .between encode (front ++ [c]) rest)
  previous : ∀ front c rest,
    previous (.between encode (front ++ [c]) rest) = some (value c, .between encode front (c :: rest))

def walk (step : Cursor Unit → Option (Value × Cursor Unit)) :
    Nat → Cursor Unit → Option (List Value × Cursor Unit)
  | 0, cursor => some ([], cursor)
  | count + 1, cursor => do
      let (value, cursor) ← step cursor
      let (values, cursor) ← walk step count cursor
      some (value :: values, cursor)

variable {encode : Character → List Unit} {value : Character → Value}
  {next previous : Cursor Unit → Option (Value × Cursor Unit)}

theorem Walks.forward (walks : Walks encode value next previous) (text front rest : List Character) :
    walk next text.length (.between encode front (text ++ rest)) =
      some (text.map value, .between encode (front ++ text) rest) := by
  induction text generalizing front with
  | nil => simp [walk]
  | cons c text ih =>
    have later := ih (front ++ [c])
    rw [List.append_assoc] at later
    simp only [List.length_cons, walk, List.cons_append, walks.next, Option.bind_eq_bind,
      Option.bind_some, later, List.map_cons, List.nil_append]

theorem Walks.backward (walks : Walks encode value next previous) (text front rest : List Character) :
    walk previous text.length (.between encode (front ++ text) rest) =
      some ((text.map value).reverse, .between encode front (text ++ rest)) := by
  induction text using List.reverseRecOn generalizing rest with
  | nil => simp [walk]
  | append_singleton text c ih =>
    have last := walks.previous (front ++ text) c rest
    rw [List.append_assoc] at last
    simp only [List.length_append, List.length_singleton, walk, last, Option.bind_eq_bind,
      Option.bind_some, ih]
    simp

end Walks

end Library
