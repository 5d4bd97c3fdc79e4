import MulleCore.Sprintf.SprintfFp

/-!
What is justified comes out padded.
-/

namespace MulleCore

open Library

section Padded

variable (env : BufferEnv) (fresh : Nat → UInt8)
variable {info : Formatconversioninfo} {text : List UInt8} {c : UInt8}

def fpPadded (info : Formatconversioninfo) (text : List UInt8) : List UInt8 :=
  let pad := info.width - text.length
  if info.leftJustify then text ++ List.replicate pad 0x20
  else
    let (insert, widthChar) := fpInsert info text
    text.take insert ++ List.replicate pad widthChar ++ text.drop insert

theorem fpPadded_none (enough : info.width ≤ text.length) :
    fpPadded info text = text := by
  have none : info.width - text.length = 0 := Nat.sub_eq_zero_of_le enough
  rw [fpPadded]
  simp [none]

theorem fpPadded_count (info : Formatconversioninfo) (text : List UInt8) (notSpace : c ≠ 0x20)
    (notZero : c ≠ 0x30) : (fpPadded info text).count c = text.count c := by
  have char : (fpInsert info text).2 = 0x20 ∨ (fpInsert info text).2 = 0x30 := by
    rw [fpInsert]
    split_ifs <;> simp
  have parts := congrArg (List.count c) (List.take_append_drop (fpInsert info text).1 text)
  rw [List.count_append] at parts
  rw [fpPadded]
  split
  · simp [List.count_replicate, notSpace.symm]
  · rcases char with blank | zero
    · simpa [List.count_append, List.count_replicate, blank, notSpace.symm] using parts
    · simpa [List.count_append, List.count_replicate, zero, notZero.symm] using parts

theorem fpPadded_mem (info : Formatconversioninfo) (text : List UInt8) (notSpace : c ≠ 0x20)
    (notZero : c ≠ 0x30) : c ∈ fpPadded info text ↔ c ∈ text := by
  rw [← List.count_pos_iff, fpPadded_count info text notSpace notZero, List.count_pos_iff]

structure FpStable (info : Formatconversioninfo) (text : List UInt8) : Prop where
  insert : ∀ rest, fpInsert info (text ++ rest) = fpInsert info text
  inside : (fpInsert info text).1 ≤ text.length

theorem sprintfFpJustify_eq {all : List UInt8} {buffer : MulleBuffer}
    (holds : FlexibleHolds (all ++ text) buffer) (stable : FpStable info text) :
    ∃ next, sprintfFpJustify env fresh info all.length buffer = some next ∧
      FlexibleHolds (all ++ fpPadded info text) next := by
  have used : wordSub (bufferGetLength buffer) all.length = text.length := by
    rw [holds.length_eq, List.length_append, wordSub_eq (by omega), Nat.add_sub_cancel_left]
  rw [sprintfFpJustify, used]
  dsimp only
  split
  · rename_i enough
    exact ⟨buffer, rfl, by rwa [fpPadded_none enough]⟩
  · rename_i more
    split
    · rename_i left
      obtain ⟨next, filled, nextHolds⟩ :=
        appends_memset env fresh 0x20 (info.width - text.length) _ buffer holds
      refine ⟨next, filled, ?_⟩
      rw [fpPadded, if_pos left, ← List.append_assoc]
      exact nextHolds
    · rename_i right
      have fits := holds.fits
      have parts : buffer.storage = all ++ text ++ buffer.storage.drop buffer.curr := by
        rw [← holds.content, List.take_append_drop]
      have peek : buffer.storage.drop all.length = text ++ buffer.storage.drop buffer.curr := by
        conv_lhs => rw [parts, List.append_assoc]
        exact List.drop_left
      rw [peek, stable.insert]
      obtain ⟨next, after, grown, nextHolds, -, grows⟩ :=
        holds.setLength env fresh (bufferGetLength buffer + (info.width - text.length)) 0
      rw [holds.length_eq] at grows
      obtain ⟨stale, staleLength, rfl, -⟩ := grows (by omega)
      rw [fpPadded, if_neg right]
      have inside := stable.inside
      generalize fpInsert info text = insertion at inside ⊢
      obtain ⟨insert, widthChar⟩ := insertion
      dsimp only at inside ⊢
      have nextParts : next.storage =
          all ++ text.take insert ++ text.drop insert ++ (stale ++ next.storage.drop next.curr) := by
        conv_lhs => rw [← List.take_append_drop next.curr next.storage, nextHolds.content]
        simp only [List.append_assoc, List.take_append_drop]
      have padding : (List.replicate (info.width - text.length) widthChar).length = info.width -
        text.length :=
        List.length_replicate
      have front : (all ++ text.take insert).length = all.length + insert := by
        rw [List.length_append, List.length_take, Nat.min_eq_left inside]
      have room : (List.replicate (info.width - text.length) widthChar).length ≤
          (stale ++ next.storage.drop next.curr).length := by
        rw [padding, List.length_append, staleLength, List.length_append]
        omega
      obtain ⟨moved, opened, moves, pastes, length, content⟩ :=
        blockMove_paste (all ++ text.take insert) (text.drop insert)
          (stale ++ next.storage.drop next.curr) room
      rw [front, padding, List.length_drop, ← nextParts] at moves
      rw [front, padding, List.length_drop] at content
      rw [front] at pastes
      rw [← nextParts] at length
      have curr := nextHolds.curr_eq
      simp only [List.length_append, staleLength] at curr
      have nextFits := nextHolds.fits
      refine ⟨{ next with storage := opened }, ?_,
        ⟨⟨nextHolds.ordinary, ?_, ?_, ?_⟩, nextHolds.flexible⟩⟩
      · rw [grown]
        simp only [Option.bind_eq_bind, Option.bind_some, moves, pastes]
      · dsimp only
        omega
      · intro null
        rw [nextHolds.null null] at length
        exact List.length_eq_zero_iff.mp length
      · have position : next.curr = all.length + insert + (info.width - text.length) +
            (text.length - insert) := by
          rw [curr]
          omega
        dsimp only
        rw [position, content]
        simp only [List.append_assoc]

theorem appends_fpJustified {statement : MulleBuffer → Option MulleBuffer}
    (appends : Appends statement text) (stable : FpStable info text) :
    Appends (fpJustified env fresh info statement) (fpPadded info text) := by
  intro all buffer holds
  obtain ⟨between, done, betweenHolds⟩ := appends all buffer holds
  obtain ⟨next, justified, nextHolds⟩ := sprintfFpJustify_eq env fresh betweenHolds stable
  refine ⟨next, ?_, nextHolds⟩
  simp only [fpJustified, holds.length_eq, done, Option.bind_eq_bind, Option.bind_some, justified]

end Padded

section Signed

variable (info : Formatconversioninfo) {sign : List UInt8}
variable {c : UInt8} {special : List UInt8}

def FpSigned (sign : List UInt8) : Prop := sign = [] ∨ sign = [0x2D] ∨ sign = [0x2B] ∨ sign = [0x20]

theorem fpSign_signed (negative : Bool) : FpSigned (fpSign info negative) := by
  rw [fpSign]
  split_ifs <;> simp [FpSigned]

theorem fpInsert_number (signed : FpSigned sign) (least : 0x30 ≤ c) (most : c ≤ 0x39)
    (more : List UInt8) :
    fpInsert info (sign ++ c :: more) =
      if info.zeroFound then
        if (info.conversion = 0x61 ∨ info.conversion = 0x41) ∧ c = 0x30 ∧
        (more[0]? = some 0x78 ∨ more[0]? = some 0x58)
        then (sign.length + 2, 0x30) else (sign.length, 0x30)
      else (0, 0x20) := by
  have digit : c ≠ 0x2D ∧ c ≠ 0x2B ∧ c ≠ 0x20 ∧ c ≠ 0x69 ∧ c ≠ 0x6E := by
    refine ⟨?_, ?_, ?_, ?_, ?_⟩ <;> rintro rfl <;> revert least most <;> decide
  rcases signed with rfl | rfl | rfl | rfl <;> simp [fpInsert, digit, fpInf, fpNan]

theorem fpStable_number (signed : FpSigned sign) (least : 0x30 ≤ c) (most : c ≤ 0x39)
    {more : List UInt8} (prefixed : info.conversion = 0x61 ∨ info.conversion = 0x41 → more ≠ []) :
    FpStable info (sign ++ c :: more) := by
  have second : info.conversion = 0x61 ∨ info.conversion = 0x41 →
      ∀ rest, (more ++ rest)[0]? = more[0]? := by
    intro hex rest
    obtain ⟨first, others, rfl⟩ := List.exists_cons_of_ne_nil (prefixed hex)
    rfl
  constructor
  · intro rest
    rw [List.append_assoc, List.cons_append, fpInsert_number info signed least most,
      fpInsert_number info signed least most]
    by_cases hex : info.conversion = 0x61 ∨ info.conversion = 0x41
    · rw [second hex]
    · simp [hex]
  · rw [fpInsert_number info signed least most]
    split_ifs with zero hex
    · obtain ⟨first, others, rfl⟩ := List.exists_cons_of_ne_nil (prefixed hex.1)
      simp
    · simp
    · simp

theorem fpInsert_special (signed : FpSigned sign) (specials : special = fpInf ∨ special = fpNan)
    (rest : List UInt8) : fpInsert info (sign ++ special ++ rest) = (0, 0x20) := by
  rcases signed with rfl | rfl | rfl | rfl <;> rcases specials with rfl | rfl <;>
    simp [fpInsert, fpInf, fpNan]

theorem fpStable_special (signed : FpSigned sign) (specials : special = fpInf ∨ special = fpNan) :
    FpStable info (sign ++ special) := by
  have plain := fpInsert_special info signed specials []
  rw [List.append_nil] at plain
  constructor
  · intro rest
    rw [fpInsert_special info signed specials, plain]
  · simp [plain]

end Signed

end MulleCore
