import MulleCore.Library.Spelling

/-!
A conversion that collects what it writes in an array of a fixed size, and hands over the array
whenever it is full.
-/

namespace Library

variable {Source Unit Buffer : Type}

inductive Taken (Source Unit : Type) where
  | failed
  | stop
  | took (units : List Unit) (rest : List Source)

def flushIf (due : Nat → Bool) (addbytes : Buffer → List Unit → Buffer) (tmp : List Unit)
    (buffer : Buffer) :
    List Unit × Buffer :=
  if due tmp.length then ([], addbytes buffer tmp) else (tmp, buffer)

def flushRest (addbytes : Buffer → List Unit → Buffer) (tmp : List Unit) (buffer : Buffer) : Buffer :=
  if tmp.isEmpty then buffer else addbytes buffer tmp

/-- `before` and `after` tell when the array of `size` units is handed over. There is no result if
it is overfilled. -/
def chunkedFrom (take : List Source → Taken Source Unit) (size : Nat) (before after : Nat → Bool)
    (addbytes : Buffer → List Unit → Buffer) : Nat → List Source → List Unit → Buffer → Option Buffer
  | fuel + 1, c :: src, tmp, buffer =>
    let (tmp, buffer) := flushIf before addbytes tmp buffer
    match take (c :: src) with
    | .failed => none
    | .stop => some (flushRest addbytes tmp buffer)
    | .took units rest =>
      if tmp.length + units.length ≤ size then
        let (tmp, buffer) := flushIf after addbytes (tmp ++ units) buffer
        chunkedFrom take size before after addbytes fuel rest tmp buffer
      else none
  | _, _, tmp, buffer => some (flushRest addbytes tmp buffer)

structure Roomy (before after : Nat → Bool) (size limit most : Nat) : Prop where
  fits : limit ≤ size
  room : ∀ n, n ≤ limit → before n = false → n + most ≤ size
  empty : most ≤ size
  kept : ∀ n, n ≤ size → after n = false → n ≤ limit

structure HandsOver (addbytes : Buffer → List Unit → Buffer) (size : Nat) (text : List Unit)
    (buffer after : Buffer) : Prop where
  chunks : ∃ chunks : List (List Unit), after = chunks.foldl addbytes buffer ∧ chunks.flatten = text ∧
    ∀ chunk ∈ chunks, chunk.length ≤ size

section Chunked

variable {addbytes : Buffer → List Unit → Buffer} {size : Nat} {tmp text : List Unit}
  {buffer between after : Buffer}

theorem HandsOver.nothing : HandsOver addbytes size [] buffer buffer := ⟨[], rfl, rfl, by simp⟩

theorem HandsOver.chunk (fits : tmp.length ≤ size)
    (later : HandsOver addbytes size text (addbytes buffer tmp) after) :
    HandsOver addbytes size (tmp ++ text) buffer after := by
  obtain ⟨chunks, rfl, rfl, small⟩ := later.chunks
  refine ⟨tmp :: chunks, rfl, rfl, ?_⟩
  intro chunk found
  rcases List.mem_cons.mp found with rfl | found
  · exact fits
  · exact small chunk found

theorem flushRest_handsOver (fits : tmp.length ≤ size) :
    HandsOver addbytes size tmp buffer (flushRest addbytes tmp buffer) := by
  cases tmp with
  | nil => exact .nothing
  | cons unit tmp =>
    have handed : HandsOver addbytes size (unit :: tmp ++ []) buffer
      (addbytes buffer (unit :: tmp)) :=
      .chunk fits .nothing
    rwa [List.append_nil] at handed

theorem HandsOver.of_flushIf (due : Nat → Bool) (fits : tmp.length ≤ size)
    (later : HandsOver addbytes size ((flushIf due addbytes tmp buffer).1 ++ text)
      (flushIf due addbytes tmp buffer).2 after) :
    HandsOver addbytes size (tmp ++ text) buffer after := by
  unfold flushIf at later
  split at later
  · exact .chunk fits later
  · exact later

theorem flushIf_length (due : Nat → Bool) (limit : Nat)
    (kept : due tmp.length = false → tmp.length ≤ limit) :
    (flushIf due addbytes tmp buffer).1.length ≤ limit := by
  unfold flushIf
  split
  · simp
  · rename_i notDue
    exact kept (by simpa using notDue)

variable {Character : Type} {encode : Character → List Source} {other : Character → List Unit}

/-- All that a text becomes is handed over, in order and without overfilling the array. -/
theorem chunkedFrom_text {take : List Source → Taken Source Unit} {before after : Nat → Bool}
    {limit most : Nat} (roomy : Roomy before after size limit most) (proper : ∀ c, encode c ≠ [])
    (takes : ∀ c rest, take (encode c ++ rest) = .took (other c) rest)
    (small : ∀ c, (other c).length ≤ most) (text : List Character) (fuel : Nat)
    (enough : text.length ≤ fuel) (tmp : List Unit) (fits : tmp.length ≤ limit) (buffer : Buffer) :
    ∃ result, chunkedFrom take size before after addbytes fuel (text.flatMap encode) tmp buffer =
      some result ∧
      HandsOver addbytes size (tmp ++ text.flatMap other) buffer result := by
  have inside := roomy.fits
  induction text generalizing fuel tmp buffer with
  | nil =>
    refine ⟨flushRest addbytes tmp buffer, ?_, ?_⟩
    · cases fuel <;> rfl
    · rw [List.flatMap_nil, List.append_nil]
      exact flushRest_handsOver (by omega)
  | cons c text ih =>
    obtain ⟨fuel, rfl⟩ := Nat.exists_eq_add_of_lt enough
    have taken := takes c (text.flatMap encode)
    obtain ⟨a, more, spelled⟩ := List.exists_cons_of_ne_nil (proper c)
    rw [List.flatMap_cons, spelled, List.cons_append]
    rw [spelled, List.cons_append] at taken
    have begun : (flushIf before addbytes tmp buffer).1.length ≤ size - most :=
      flushIf_length before (size - most) fun notDue =>
        Nat.le_sub_of_add_le (roomy.room tmp.length fits notDue)
    have least := roomy.empty
    have wide := small c
    suffices ∃ result, chunkedFrom take size before after addbytes (text.length + fuel + 1)
        (a :: (more ++ text.flatMap encode)) tmp buffer = some result ∧
        HandsOver addbytes size ((flushIf before addbytes tmp buffer).1 ++ (c :: text).flatMap other)
          (flushIf before addbytes tmp buffer).2 result by
      obtain ⟨result, converted, handed⟩ := this
      exact ⟨result, converted, .of_flushIf before (by omega) handed⟩
    simp only [chunkedFrom, taken]
    generalize flushIf before addbytes tmp buffer = state at begun ⊢
    obtain ⟨tmp, buffer⟩ := state
    have room : tmp.length + (other c).length ≤ size := by
      dsimp only at begun
      omega
    have written : (flushIf after addbytes (tmp ++ other c) buffer).1.length ≤ limit :=
      flushIf_length after limit fun notDue =>
        roomy.kept (tmp ++ other c).length (by simpa using room) notDue
    obtain ⟨result, converted, handed⟩ := ih (text.length + fuel) (by omega) _ written _
    refine ⟨result, ?_, ?_⟩
    · rw [if_pos room]
      exact converted
    · rw [List.flatMap_cons, ← List.append_assoc]
      exact HandsOver.of_flushIf after (by simpa using room) handed

end Chunked

end Library
