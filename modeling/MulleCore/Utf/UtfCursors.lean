import MulleCore.Library.Cursors
import MulleCore.Utf.Utf8Rounds
import MulleCore.Utf.Utf16Rounds

/-!
`_mulle_utf8_next_utf32character`, `_mulle_utf8_previous_utf32character` and the same for UTF-16.
`s_p` is a cursor in the text. A result of `none` stands for a failed `assert` or a read outside of
the text.
-/

namespace MulleCore

open Library

def utf8NextUtf32character (s : Cursor UInt8) : Option (Int × Cursor UInt8) :=
  match s.rest with
  | [] => none
  | c :: rest =>
    if utf8IsAsciicharacter c then some (c.toNat, ⟨c :: s.seen, rest⟩)
    else if utf8IsInvalidstartcharacter c then none
    else do
      let len := utf8GetExtracharacterslength c
      let value ← utf8Extracharactersvalue (c :: rest) len
      some (value, ⟨(rest.take len).reverse ++ c :: s.seen, rest.drop len⟩)

def utf8PreviousFrom (extraLen : Nat) : List UInt8 → List UInt8 → Option (Int × Cursor UInt8)
  | [], _ => none
  | c :: seen, rest =>
    if utf8IsAsciicharacter c ∨ ¬ utf8IsInvalidstartcharacter c then do
      let value ← utf8Extracharactersvalue (c :: rest) extraLen
      some (value, ⟨seen, c :: rest⟩)
    else utf8PreviousFrom (extraLen + 1) seen (c :: rest)

def utf8PreviousUtf32character (s : Cursor UInt8) : Option (Int × Cursor UInt8) :=
  utf8PreviousFrom 0 s.seen s.rest

def utf16NextUtf32character (s : Cursor UInt16) : Option (Int × Cursor UInt16) :=
  match s.rest with
  | [] => none
  | c :: rest =>
    if utf32IsSurrogatecharacter c.toNat then
      match rest with
      | [] => none
      | d :: rest => do
          let value ← utf16DecodeSurrogatepair c d
          some (value, ⟨d :: c :: s.seen, rest⟩)
    else some (c.toNat, ⟨c :: s.seen, rest⟩)

def utf16PreviousUtf32character (s : Cursor UInt16) : Option (Int × Cursor UInt16) :=
  match s.seen with
  | [] => none
  | c :: seen =>
    if utf32IsSurrogatecharacter c.toNat then
      match seen with
      | [] => none
      | d :: seen => do
          let value ← utf16DecodeSurrogatepair d c
          some (value, ⟨seen, d :: c :: s.rest⟩)
    else some (c.toNat, ⟨seen, c :: s.rest⟩)

section Steps

theorem utf8PreviousFrom_continuations (more : List UInt8)
    (follows : more.all utf8IsValidcontinuationcharacter = true) (extraLen : Nat)
    (seen rest : List UInt8) :
    utf8PreviousFrom extraLen (more.reverse ++ seen) rest =
      utf8PreviousFrom (extraLen + more.length) seen (more ++ rest) := by
  induction more using List.reverseRecOn generalizing extraLen rest with
  | nil => rfl
  | append_singleton more b ih =>
    simp only [List.all_append, List.all_cons, List.all_nil, Bool.and_true,
      Bool.and_eq_true] at follows
    obtain ⟨follows, last⟩ := follows
    rw [utf8IsValidcontinuationcharacter_eq] at last
    have inside : ¬ (utf8IsAsciicharacter b = true ∨ ¬ utf8IsInvalidstartcharacter b = true) := by
      rw [utf8IsAsciicharacter_eq, utf8IsInvalidstartcharacter_eq]
      omega
    rw [List.reverse_append, List.reverse_singleton, List.append_assoc, List.singleton_append,
      utf8PreviousFrom, if_neg inside, ih follows, List.length_append, List.length_singleton,
      List.append_assoc, List.singleton_append, Nat.add_right_comm, Nat.add_assoc]

theorem utf8_walks : Walks String.utf8EncodeChar (fun c => (c.toNat : Int)) utf8NextUtf32character
    utf8PreviousUtf32character where
  next front c rest := by
    have shape := utf8_shape c
    simp only [Cursor.between, List.flatMap_cons, List.flatMap_append, List.flatMap_nil,
      List.append_nil]
    generalize String.utf8EncodeChar c = bytes at shape ⊢
    cases shape with
    | ascii b _ ascii value => simp [utf8NextUtf32character, ascii, value]
    | sequence b more _ notAscii starts extra _ _ value =>
      simp [utf8NextUtf32character, notAscii, starts, extra, value]
  previous front c rest := by
    have shape := utf8_shape c
    simp only [Cursor.between, List.flatMap_cons, List.flatMap_append, List.flatMap_nil,
      List.append_nil, List.reverse_append, utf8PreviousUtf32character]
    generalize String.utf8EncodeChar c = bytes at shape ⊢
    cases shape with
    | ascii b _ ascii value => simp [utf8PreviousFrom, ascii, utf8Extracharactersvalue, value]
    | sequence b more _ notAscii starts extra _ follows value =>
      rw [List.reverse_cons, List.append_assoc, utf8PreviousFrom_continuations more follows]
      simp [utf8PreviousFrom, starts, value]

theorem utf16_walks : Walks utf16EncodeChar (fun c => (c.toNat : Int)) utf16NextUtf32character
    utf16PreviousUtf32character where
  next front c rest := by
    have shape := utf16_shape c
    simp only [Cursor.between, List.flatMap_cons, List.flatMap_append, List.flatMap_nil,
      List.append_nil]
    generalize utf16EncodeChar c = units at shape ⊢
    cases shape with
    | one a _ value noSurrogate _ =>
      rw [value] at noSurrogate
      simp [utf16NextUtf32character, noSurrogate, value]
    | two a d _ high low decoded =>
      have surrogate := (utf32IsSurrogatecharacter_eq a.toNat).mpr (by omega)
      simp [utf16NextUtf32character, surrogate, decoded]
  previous front c rest := by
    have shape := utf16_shape c
    simp only [Cursor.between, List.flatMap_cons, List.flatMap_append, List.flatMap_nil,
      List.append_nil, List.reverse_append]
    generalize utf16EncodeChar c = units at shape ⊢
    cases shape with
    | one a _ value noSurrogate _ =>
      rw [value] at noSurrogate
      simp [utf16PreviousUtf32character, noSurrogate, value]
    | two a d _ high low decoded =>
      have surrogate := (utf32IsSurrogatecharacter_eq d.toNat).mpr (by omega)
      simp [utf16PreviousUtf32character, surrogate, decoded]

end Steps

/-- Behind every character, `previous` undoes `next`, and a text is read backwards as it is read
forwards. -/
structure ReadsBackwards {Unit : Type} (encode : Char → List Unit)
    (next previous : Cursor Unit → Option (Int × Cursor Unit)) : Prop where
  undoes : ∀ (front : List Char) (c : Char) (rest : List Char), ∃ behind,
    next ⟨(front.flatMap encode).reverse, encode c ++ rest.flatMap encode⟩ =
      some ((c.toNat : Int), behind) ∧
      behind = ⟨((front ++ [c]).flatMap encode).reverse, rest.flatMap encode⟩ ∧
      previous behind = some ((c.toNat : Int), ⟨(front.flatMap encode).reverse,
        encode c ++ rest.flatMap encode⟩)
  reverses : ∀ text : List Char, ∃ values : List Int, values = text.map (fun c => (c.toNat : Int)) ∧
    walk next text.length ⟨[], text.flatMap encode⟩ = some (values, ⟨(text.flatMap encode).reverse,
      []⟩) ∧
      walk previous text.length ⟨(text.flatMap encode).reverse, []⟩ =
        some (values.reverse, ⟨[], text.flatMap encode⟩)

theorem walks_readsBackwards {Unit : Type} {encode : Char → List Unit}
    {next previous : Cursor Unit → Option (Int × Cursor Unit)}
    (walks : Walks encode (fun c => (c.toNat : Int)) next previous) :
    ReadsBackwards encode next previous where
  undoes front c rest := ⟨_, walks.next front c rest, rfl, walks.previous front c rest⟩
  reverses text := by
    have forward := walks.forward text [] []
    have backward := walks.backward text [] []
    simp only [List.append_nil, List.nil_append] at forward backward
    exact ⟨_, rfl, forward, backward⟩

/-- Going back from behind a character leads to where it begins. -/
theorem utfPrevious_undoes :
    ReadsBackwards String.utf8EncodeChar utf8NextUtf32character utf8PreviousUtf32character ∧
    ReadsBackwards utf16EncodeChar utf16NextUtf32character utf16PreviousUtf32character :=
  ⟨walks_readsBackwards utf8_walks, walks_readsBackwards utf16_walks⟩

end MulleCore
