import Mathlib.Data.List.Basic
import Mathlib.Order.Basic

/-!
Texts that are spelled character by character with units, and loops over the units.
-/

namespace Library

section Spelling

variable {Unit Character : Type} (encode : Character → List Unit) (good : Character → Prop)
variable {Acc Result : Type} {loop : Nat → List Unit → Acc → Result} {count : Acc → Character → Acc}
  {Other : Type} {other : Character → List Other}

structure PrefixFree : Prop where
  ne_nil : ∀ c, encode c ≠ []
  unique : ∀ c d rest later, encode c ++ rest = encode d ++ later → c = d

def Spells (text : List Character) (src : List Unit) : Prop :=
  (∀ c ∈ text, good c) ∧ text.flatMap encode = src

def CutsInside (text : List Character) (cut : Nat) : Prop :=
  ∀ front, front <+: text → (front.flatMap encode).length ≠ cut

def Stuck (src : List Unit) : Prop := src ≠ [] ∧ ∀ c, good c → ¬ encode c <+: src

/-- `src` is spelled up to `offset`, where it gets stuck. -/
def Offends (src : List Unit) (offset : Nat) : Prop :=
  ∃ (text : List Character) (rest : List Unit), (∀ c ∈ text, good c) ∧
    src = text.flatMap encode ++ rest ∧
    (text.flatMap encode).length = offset ∧ Stuck encode good rest

variable {encode good}

theorem PrefixFree.length_le (free : PrefixFree encode) (text : List Character) :
    text.length ≤ (text.flatMap encode).length := by
  induction text with
  | nil => simp
  | cons c text ih =>
    have proper := List.length_pos_iff.mpr (free.ne_nil c)
    simp only [List.length_cons, List.flatMap_cons, List.length_append]
    omega

/-- No two texts are spelled alike. -/
theorem PrefixFree.injective (free : PrefixFree encode) :
    ∀ text other : List Character, text.flatMap encode = other.flatMap encode → text = other := by
  intro text
  induction text with
  | nil =>
    intro other same
    cases other with
    | nil => rfl
    | cons d other =>
      have empty := List.append_eq_nil_iff.mp same.symm
      exact absurd empty.1 (free.ne_nil d)
  | cons c text ih =>
    intro other same
    cases other with
    | nil =>
      have empty := List.append_eq_nil_iff.mp same
      exact absurd empty.1 (free.ne_nil c)
    | cons d other =>
      simp only [List.flatMap_cons] at same
      obtain rfl := free.unique c d _ _ same
      rw [ih other (List.append_cancel_left same)]

theorem PrefixFree.not_spells (free : PrefixFree encode) {src : List Unit} {offset : Nat}
    (offends : Offends encode good src offset) (text : List Character) :
    ¬ Spells encode good text src := by
  obtain ⟨before, rest, _, rfl, _, proper, stuck⟩ := offends
  rintro ⟨allGood, spelled⟩
  clear * - proper stuck allGood spelled free
  induction before generalizing text with
  | nil =>
    cases text with
    | nil => exact proper (by simpa using spelled.symm)
    | cons c text =>
      refine stuck c (allGood c List.mem_cons_self) ⟨text.flatMap encode, ?_⟩
      simpa using spelled
  | cons d before ih =>
    cases text with
    | nil =>
      exact absurd (List.append_eq_nil_iff.mp (List.append_eq_nil_iff.mp spelled.symm).1).1
        (free.ne_nil d)
    | cons c text =>
      simp only [List.flatMap_cons, List.append_assoc] at spelled
      obtain rfl := free.unique c d _ _ spelled
      exact ih text (fun e member => allGood e (List.mem_cons_of_mem c member))
        (List.append_cancel_left spelled)

theorem PrefixFree.split (free : PrefixFree encode) (good : Character → Prop) (zero : Unit)
    (src : List Unit) :
    ∃ (text : List Character) (rest : List Unit), (∀ c ∈ text, good c) ∧
      src = text.flatMap encode ++ rest ∧
      (rest = [] ∨ (∃ later, rest = zero :: later) ∨ Stuck encode good rest) := by
  by_cases stuck : Stuck encode good src
  · exact ⟨[], src, by simp, rfl, .inr (.inr stuck)⟩
  · by_cases empty : src = []
    · exact ⟨[], src, by simp, rfl, .inl empty⟩
    · have begins : ∃ c, good c ∧ encode c <+: src := by
        by_contra none
        exact stuck ⟨empty, fun c isGood begins => none ⟨c, isGood, begins⟩⟩
      obtain ⟨c, isGood, rest, rfl⟩ := begins
      have shorter : rest.length < (encode c ++ rest).length := by
        have proper := List.length_pos_iff.mpr (free.ne_nil c)
        rw [List.length_append]
        omega
      obtain ⟨text, left, allGood, rfl, ends⟩ := free.split good zero rest
      refine ⟨c :: text, left, ?_, by simp, ends⟩
      intro d member
      rcases List.mem_cons.mp member with rfl | member
      · exact isGood
      · exact allGood d member
  termination_by src.length

section Cuts

variable {text front : List Character} {cut : Nat}

theorem flatMap_length_le (encode : Character → List Unit) (prefixed : front <+: text) :
    (front.flatMap encode).length ≤ (text.flatMap encode).length := by
  obtain ⟨rest, rfl⟩ := prefixed
  rw [List.flatMap_append, List.length_append]
  omega

theorem flatMap_take (prefixed : front <+: text) (same : (front.flatMap encode).length = cut) :
    (text.flatMap encode).take cut = front.flatMap encode := by
  obtain ⟨rest, rfl⟩ := prefixed
  rw [List.flatMap_append, ← same, List.take_left]

/-- A cut is between two characters or inside of one. -/
theorem exists_cut (text : List Character) (cut : Nat) (inside : cut ≤ (text.flatMap encode).length) :
    (∃ front, front <+: text ∧ (front.flatMap encode).length = cut) ∨
      ∃ front c part, front ++ [c] <+: text ∧ 0 < part ∧ part < (encode c).length ∧
        (front.flatMap encode).length + part = cut ∧
        (text.flatMap encode).take cut = front.flatMap encode ++ (encode c).take part := by
  induction text generalizing cut with
  | nil => exact .inl ⟨[], List.prefix_refl _, (Nat.le_zero.mp inside).symm⟩
  | cons c text ih =>
    rw [List.flatMap_cons, List.length_append] at inside
    by_cases zero : cut = 0
    · exact .inl ⟨[], List.nil_prefix, zero.symm⟩
    · by_cases within : cut < (encode c).length
      · refine .inr ⟨[], c, cut, by simp, by omega, within, by simp, ?_⟩
        rw [List.flatMap_cons, List.take_append_of_le_length (by omega), List.flatMap_nil,
          List.nil_append]
      · rcases ih (cut - (encode c).length) (by omega) with ⟨front, before, same⟩ | ⟨front, d, part,
          before, some, proper, same, taken⟩
        · refine .inl ⟨c :: front, (List.prefix_cons_inj c).mpr before, ?_⟩
          rw [List.flatMap_cons, List.length_append]
          omega
        · refine .inr ⟨c :: front, d, part, (List.prefix_cons_inj c).mpr before, some, proper, ?_, ?_⟩
          · rw [List.flatMap_cons, List.length_append]
            omega
          · rw [List.flatMap_cons, List.take_append, List.take_of_length_le (by omega), taken,
              List.flatMap_cons, List.append_assoc]

theorem cutsInside_of_part {c : Character} {part : Nat}
    (prefixed : front ++ [c] <+: text) (some : 0 < part) (proper : part < (encode c).length) :
    CutsInside encode text ((front.flatMap encode).length + part) := by
  intro other before same
  rcases List.prefix_or_prefix_of_prefix before prefixed with shorter | longer
  · rcases List.prefix_concat_iff.mp shorter with rfl | shorter
    · simp at same
      omega
    · have := flatMap_length_le encode shorter
      omega
  · have := flatMap_length_le encode longer
    rw [List.flatMap_append, List.length_append, List.flatMap_singleton] at this
    omega

end Cuts

theorem PrefixFree.spells_append (free : PrefixFree encode) {c : Character} (isGood : good c)
    (src : List Unit) :
    (∃ text, Spells encode good text (encode c ++ src)) ↔ ∃ text, Spells encode good text src := by
  constructor
  · rintro ⟨text, allGood, spelled⟩
    cases text with
    | nil => exact absurd (List.append_eq_nil_iff.mp spelled.symm).1 (free.ne_nil c)
    | cons d text =>
      rw [List.flatMap_cons] at spelled
      obtain rfl := free.unique d c _ _ spelled
      exact ⟨text, fun e member => allGood e (List.mem_cons_of_mem d member),
        List.append_cancel_left spelled⟩
  · rintro ⟨text, allGood, rfl⟩
    refine ⟨c :: text, ?_, rfl⟩
    intro d member
    rcases List.mem_cons.mp member with rfl | member
    · exact isGood
    · exact allGood d member

def Rounds {Acc Result : Type} (encode : Character → List Unit) (good : Character → Prop)
    (loop : Nat → List Unit → Acc → Result) (count : Acc → Character → Acc) : Prop :=
  ∀ fuel c rest acc, good c → loop (fuel + 1) (encode c ++ rest) acc = loop fuel rest (count acc c)

/-- A loop that counts one character each round counts a text. -/
theorem Rounds.text (rounds : Rounds encode good loop count) {rest : List Unit} :
    ∀ (text : List Character) (fuel : Nat) (acc : Acc), (∀ c ∈ text, good c) → text.length ≤ fuel →
      loop fuel (text.flatMap encode ++ rest) acc =
        loop (fuel - text.length) rest (text.foldl count acc) := by
  intro text
  induction text with
  | nil => simp
  | cons c text ih =>
    intro fuel acc allGood enough
    obtain ⟨fuel, rfl⟩ := Nat.exists_eq_add_of_lt enough
    rw [List.flatMap_cons, List.append_assoc, show text.length + fuel + 1 =
      (text.length + fuel) + 1 from rfl,
      rounds _ c _ _ (allGood c List.mem_cons_self),
      ih _ _ (fun d member => allGood d (List.mem_cons_of_mem c member)) (Nat.le_add_right _ _)]
    simp only [List.foldl_cons, List.length_cons]
    congr 1
    omega

/-- The loop accepts just what spells a text. -/
theorem Rounds.outcome (rounds : Rounds encode good loop count) (free : PrefixFree encode)
    (zero : Unit) (accepts : Acc → Result) (refuses : Result → Prop)
    (done : ∀ fuel acc, loop fuel [] acc = accepts acc)
    (stops : ∀ fuel src acc, src.length ≤ fuel → Stuck encode good src → (∀ a ∈ src, a ≠ zero) →
      refuses (loop fuel src acc))
    (fuel : Nat) (src : List Unit) (enough : src.length ≤ fuel) (nonzero : ∀ a ∈ src, a ≠ zero)
    (acc : Acc) :
    (∃ text, Spells encode good text src ∧ loop fuel src acc = accepts (text.foldl count acc)) ∨
      refuses (loop fuel src acc) ∧ ¬ ∃ text, Spells encode good text src := by
  obtain ⟨text, rest, allGood, rfl, ends⟩ := free.split good zero src
  have short := free.length_le text
  rw [List.length_append] at enough
  rw [rounds.text text fuel acc allGood (by omega)]
  have restNonzero : ∀ a ∈ rest, a ≠ zero :=
    fun a member => nonzero a (List.mem_append_right _ member)
  rcases ends with rfl | ⟨later, rfl⟩ | stuck
  · left
    exact ⟨text, ⟨allGood, by simp⟩, done _ _⟩
  · exact absurd rfl (restNonzero zero List.mem_cons_self)
  · right
    refine ⟨stops _ _ _ (by omega) stuck restNonzero, ?_⟩
    rintro ⟨other, spells⟩
    exact free.not_spells ⟨text, rest, allGood, rfl, rfl, stuck⟩ other spells

theorem foldl_keeps {Part : Type} (part : Acc → Part)
    (keeps : ∀ acc c, part (count acc c) = part acc) (text : List Character) (acc : Acc) :
    part (text.foldl count acc) = part acc := by
  induction text generalizing acc with
  | nil => rfl
  | cons c text ih => rw [List.foldl_cons, ih, keeps]

theorem foldl_measure (measure : Acc → Int) (count : Acc → Character → Acc)
    (encode : Character → List Unit) (other : Character → List Other) :
    ∀ (text : List Character) (acc : Acc),
      (∀ acc, ∀ c ∈ text,
        measure (count acc c) + (encode c).length = measure acc + (other c).length) →
      measure (text.foldl count acc) + (text.flatMap encode).length =
        measure acc + (text.flatMap other).length := by
  intro text
  induction text with
  | nil => simp
  | cons c text ih =>
    intro acc corrects
    have first := corrects acc c List.mem_cons_self
    have later := ih (count acc c) fun acc d member => corrects acc d (List.mem_cons_of_mem c member)
    simp only [List.foldl_cons, List.flatMap_cons, List.length_append, Int.natCast_add]
    omega

theorem Rounds.length {loop : Nat → List Unit → Int → Result} {count : Int → Character → Int}
    (rounds : Rounds encode good loop count) (free : PrefixFree encode) (accepts : Int → Result)
    (done : ∀ fuel len, loop fuel [] len = accepts len)
    (corrects : ∀ acc c, count acc c + (encode c).length = acc + (other c).length)
    {text : List Character} (allGood : ∀ c ∈ text, good c) :
    loop (text.flatMap encode).length (text.flatMap encode) (text.flatMap encode).length =
      accepts (text.flatMap other).length := by
  have run : loop _ (text.flatMap encode ++ []) ((text.flatMap encode).length : Int) = _ :=
    rounds.text text (text.flatMap encode).length _ allGood (free.length_le text)
  have measured := foldl_measure id count encode other text (text.flatMap encode).length
    fun acc c _ => corrects acc c
  simp only [id] at measured
  rw [List.append_nil] at run
  rw [run, done]
  congr 1
  omega

def Writes {Other : Type} (encode : Character → List Unit) (other : Character → List Other)
    (good : Character → Prop) (loop : Nat → List Unit → Option (List Other)) : Prop :=
  ∀ fuel c rest, good c → loop (fuel + 1) (encode c ++ rest) = (loop fuel rest).map (other c ++ ·)

/-- A loop that writes each character in another encoding writes the text in it. -/
theorem Writes.text
    {loop : Nat → List Unit → Option (List Other)} (writes : Writes encode other good loop)
    (done : ∀ fuel, loop fuel [] = some []) :
    ∀ (text : List Character) (fuel : Nat), (∀ c ∈ text, good c) → text.length ≤ fuel →
      loop fuel (text.flatMap encode) = some (text.flatMap other) := by
  intro text
  induction text with
  | nil => exact fun fuel _ _ => done fuel
  | cons c text ih =>
    intro fuel allGood enough
    obtain ⟨fuel, rfl⟩ := Nat.exists_eq_add_of_lt enough
    have later := ih (text.length + fuel) (fun d member => allGood d (List.mem_cons_of_mem c member))
      (Nat.le_add_right _ _)
    rw [List.flatMap_cons, writes _ c _ (allGood c List.mem_cons_self), later, List.flatMap_cons,
      Option.map_some]

end Spelling

/-!
The longest prefix of whole characters whose units fit in a given room.
-/

section Fitting

variable {Unit Character : Type} (encode : Character → List Unit)
variable {room : Nat}

def fitting : Nat → List Character → List Character
  | _, [] => []
  | room, c :: text =>
    if (encode c).length ≤ room then c :: fitting (room - (encode c).length) text else []

structure LongestFitting (room : Nat) (text front : List Character) : Prop where
  begins : front <+: text
  fits : (front.flatMap encode).length ≤ room
  longest : ∀ other, other <+: text → (other.flatMap encode).length ≤ room → other <+: front

variable {encode}

theorem LongestFitting.cons {c : Character} {text front : List Character}
    (fits : (encode c).length ≤ room)
    (rest : LongestFitting encode (room - (encode c).length) text front) :
    LongestFitting encode room (c :: text) (c :: front) where
  begins := List.cons_prefix_cons.mpr ⟨rfl, rest.begins⟩
  fits := by
    have restFits := rest.fits
    rw [List.flatMap_cons, List.length_append]
    omega
  longest other before otherFits := by
    cases other with
    | nil => exact List.nil_prefix
    | cons d other =>
      obtain ⟨rfl, behind⟩ := List.cons_prefix_cons.mp before
      rw [List.flatMap_cons, List.length_append] at otherFits
      exact List.cons_prefix_cons.mpr ⟨rfl, rest.longest other behind (by omega)⟩

/-- `fitting` is the longest beginning of the text that fits. -/
theorem fitting_longest (room : Nat) (text : List Character) :
    LongestFitting encode room text (fitting encode room text) := by
  induction text generalizing room with
  | nil => exact ⟨List.prefix_rfl, Nat.zero_le _, fun _ before _ => before⟩
  | cons c text ih =>
    rw [fitting]
    split
    next fits => exact (ih _).cons fits
    next large =>
      refine ⟨List.nil_prefix, Nat.zero_le _, ?_⟩
      intro other before otherFits
      cases other with
      | nil => exact List.prefix_rfl
      | cons d other =>
        obtain ⟨rfl, _⟩ := List.cons_prefix_cons.mp before
        rw [List.flatMap_cons, List.length_append] at otherFits
        omega

theorem fitting_append (room : Nat) (text more : List Character) :
    fitting encode room (text ++ more) =
      if (text.flatMap encode).length ≤ room then
        text ++ fitting encode (room - (text.flatMap encode).length) more
      else fitting encode room text := by
  induction text generalizing room with
  | nil => simp
  | cons c text ih =>
    simp only [List.cons_append, fitting, ih, List.flatMap_cons, List.length_append]
    by_cases fits : (encode c).length ≤ room
    · by_cases whole : (text.flatMap encode).length ≤ room - (encode c).length
      · rw [if_pos fits, if_pos whole, if_pos (by omega), Nat.sub_sub]
      · rw [if_pos fits, if_neg whole, if_neg (by omega), if_pos fits]
    · rw [if_neg fits, if_neg (by omega), if_neg fits]

theorem fitting_all {text : List Character} (fits : (text.flatMap encode).length ≤ room) :
    fitting encode room text = text := by
  have split := @fitting_append Unit Character encode room text []
  rw [List.append_nil, if_pos fits] at split
  simpa [fitting] using split

theorem fitting_singles (single : ∀ c, (encode c).length = 1) (room : Nat) (text : List Character) :
    fitting encode room text = text.take room := by
  induction text generalizing room with
  | nil => simp [fitting]
  | cons c text ih =>
    cases room with
    | zero => simp [fitting, single]
    | succ room => simp [fitting, single, ih]

end Fitting

end Library
