import Mathlib.Algebra.Ring.Nat
import Mathlib.Data.Nat.Find
import Mathlib.Data.Multiset.Basic
import Mathlib.Algebra.BigOperators.Group.Multiset.Basic

/-!
Open addressing with linear probing. A table is a ring of slots, each entry has a
home slot, and from its home to the slot that holds it no slot is vacant.
-/

namespace Library

variable {size start step source target : Nat}

/-! Positions on a ring of `size` slots. -/

def ahead (size start step : Nat) : Nat :=
  if start + step < size then start + step else start + step - size

def ringDistance (size source target : Nat) : Nat :=
  if source ≤ target then target - source else target + size - source

theorem ahead_lt (startBound : start < size) (stepBound : step < size) :
    ahead size start step < size := by
  unfold ahead
  split <;> omega

theorem ringDistance_lt (sourceBound : source < size)
    (targetBound : target < size) : ringDistance size source target < size := by
  unfold ringDistance
  split <;> omega

theorem ahead_ringDistance (sourceBound : source < size)
    (targetBound : target < size) : ahead size source (ringDistance size source target) = target := by
  unfold ahead ringDistance
  split <;> split <;> omega

theorem ringDistance_ahead (startBound : start < size)
    (stepBound : step < size) : ringDistance size start (ahead size start step) = step := by
  unfold ahead ringDistance
  split <;> split <;> omega

theorem ahead_ahead {first second : Nat} (startBound : start < size)
    (bound : first + second < size) :
    ahead size (ahead size start first) second = ahead size start (first + second) := by
  unfold ahead
  split <;> split <;> split <;> omega

theorem ahead_zero (startBound : start < size) : ahead size start 0 = start := by
  unfold ahead
  rw [if_pos (by omega), Nat.add_zero]

@[simp] theorem ringDistance_self (size slot : Nat) : ringDistance size slot slot = 0 := by
  unfold ringDistance
  rw [if_pos (Nat.le_refl slot), Nat.sub_self]

theorem ringDistance_pos (sourceBound : source < size) (different : source ≠ target) :
    0 < ringDistance size source target := by
  unfold ringDistance
  split <;> omega

theorem ringDistance_split {home through : Nat} (homeBound : home < size)
    (throughBound : through < size)
    (onWay : ringDistance size through target ≤ ringDistance size home target) :
    ringDistance size home target =
      ringDistance size home through + ringDistance size through target := by
  revert onWay
  unfold ringDistance
  split <;> split <;> split <;> omega

theorem ringDistance_step (sourceBound : source < size)
    (targetBound : target < size) (different : source ≠ target) :
    ringDistance size (ahead size source 1) target + 1 = ringDistance size source target := by
  unfold ringDistance ahead
  split <;> split <;> split <;> omega

/-! Walking over the slots. -/

inductive Visit where
  | hit
  | hole
  | onward
deriving DecidableEq

inductive Landing where
  | found (index : Nat)
  | hole (index : Nat)

section Tables

variable {Entry : Type}
variable {visit : Entry → Visit} {next : Nat → Nat} {slots : List Entry} {entry : Entry}
  {start index gap : Nat} {old new cleared : Entry} {staysPut : Nat → Nat → Nat → Bool}

def probeFrom (visit : Entry → Visit) (next : Nat → Nat) (slots : List Entry) :
    Nat → Nat → Option Landing
  | 0, _ => none
  | fuel + 1, index =>
    match slots[index]? with
    | none => none
    | some entry =>
      match visit entry with
      | .hit => some (.found index)
      | .hole => some (.hole index)
      | .onward => probeFrom visit next slots fuel (next index)

/-- Deletion by shifting back. From the slot behind the gap on, each entry that
does not stay put moves into the gap and leaves a new one. -/
def shiftBack (vacant : Entry → Bool) (home : Entry → Nat) (staysPut : Nat → Nat → Nat → Bool)
    (next : Nat → Nat) (cleared : Entry) : Nat → List Entry → Nat → Nat → Option (List Entry)
  | 0, _, _, _ => none
  | fuel + 1, slots, gap, index =>
    let index := next index
    match slots[index]? with
    | none => none
    | some entry =>
      if vacant entry then some (slots.set gap cleared)
      else if staysPut (home entry) gap index then
        shiftBack vacant home staysPut next cleared fuel slots gap index
      else shiftBack vacant home staysPut next cleared fuel (slots.set gap entry) index index

def Wraps (size : Nat) (next : Nat → Nat) : Prop :=
  ∀ index, index < size → next index = ahead size index 1

theorem probeFrom_lands (wraps : Wraps slots.length next) : ∀ (steps fuel start : Nat),
    start < slots.length → steps < slots.length → steps < fuel →
    (∀ step, step < steps → ∃ other,
      slots[ahead slots.length start step]? = some other ∧ visit other = .onward) →
    slots[ahead slots.length start steps]? = some entry → visit entry ≠ .onward →
      probeFrom visit next slots fuel start =
        some (if visit entry = .hit then .found (ahead slots.length start steps)
          else .hole (ahead slots.length start steps)) := by
  intro steps
  induction steps with
  | zero =>
    intro fuel start startBound _ enough _ here stops
    obtain ⟨fuel, rfl⟩ : ∃ more, fuel = more + 1 := ⟨fuel - 1, by omega⟩
    rw [ahead_zero startBound] at here ⊢
    rw [probeFrom, here]
    cases visited : visit entry with
    | hit => simp [visited]
    | hole => simp [visited]
    | onward => exact absurd visited stops
  | succ steps ih =>
    intro fuel start startBound stepsBound enough onward here stops
    obtain ⟨fuel, rfl⟩ : ∃ more, fuel = more + 1 := ⟨fuel - 1, by omega⟩
    obtain ⟨first, firstHere, firstOnward⟩ := onward 0 (by omega)
    rw [ahead_zero startBound] at firstHere
    have shifted : ∀ step, 1 + step < slots.length →
        ahead slots.length (ahead slots.length start 1) step =
          ahead slots.length start (step + 1) := by
      intro step bound
      rw [ahead_ahead startBound bound, Nat.add_comm]
    have later := ih fuel (ahead slots.length start 1) (ahead_lt startBound (by omega))
      (by omega) (by omega)
      (fun step bound => by
        rw [shifted step (by omega)]
        exact onward (step + 1) (by omega))
      (by rw [shifted steps (by omega)]; exact here) stops
    rw [shifted steps (by omega)] at later
    rw [probeFrom, firstHere]
    simp only [firstOnward, wraps start startBound]
    exact later

theorem exists_first_stop (startBound : start < slots.length)
    (stops : ∃ entry ∈ slots, visit entry ≠ .onward) :
    ∃ steps entry, steps < slots.length ∧
      slots[ahead slots.length start steps]? = some entry ∧ visit entry ≠ .onward ∧
      ∀ step, step < steps → ∃ other,
        slots[ahead slots.length start step]? = some other ∧ visit other = .onward := by
  classical
  let Stops := fun step => ∃ entry, slots[ahead slots.length start step]? = some entry ∧
    visit entry ≠ .onward
  have reached : ∃ step, Stops step := by
    obtain ⟨entry, member, stopping⟩ := stops
    obtain ⟨index, bound, rfl⟩ := List.mem_iff_getElem.mp member
    refine ⟨ringDistance slots.length start index, slots[index], ?_, stopping⟩
    rw [ahead_ringDistance startBound bound]
    exact List.getElem?_eq_getElem bound
  have least := Nat.find_spec reached
  have inside : Nat.find reached < slots.length := by
    obtain ⟨entry, member, stopping⟩ := stops
    obtain ⟨index, bound, rfl⟩ := List.mem_iff_getElem.mp member
    refine lt_of_le_of_lt (Nat.find_min' reached ⟨slots[index], ?_, stopping⟩)
      (ringDistance_lt startBound bound)
    rw [ahead_ringDistance startBound bound]
    exact List.getElem?_eq_getElem bound
  obtain ⟨entry, here, stopping⟩ := least
  refine ⟨Nat.find reached, entry, inside, here, stopping, ?_⟩
  intro step before
  have notYet := Nat.find_min reached before
  have bound := ahead_lt startBound (lt_trans before inside)
  refine ⟨slots[ahead slots.length start step], List.getElem?_eq_getElem bound, ?_⟩
  by_contra stopping
  exact notYet ⟨_, List.getElem?_eq_getElem bound, stopping⟩

variable (vacant : Entry → Bool) (home : Entry → Nat)

def Occupied (slots : List Entry) (index : Nat) : Prop :=
  ∃ entry, slots[index]? = some entry ∧ vacant entry = false

def HasVacancy (slots : List Entry) : Prop :=
  ∃ entry ∈ slots, vacant entry = true

/-- Every entry is found from its home slot on, before any vacant slot. -/
structure Sound (slots : List Entry) : Prop where
  homeBound : ∀ (index : Nat) (entry : Entry), slots[index]? = some entry → vacant entry = false →
    home entry < slots.length
  reach : ∀ (index : Nat) (entry : Entry), slots[index]? = some entry → vacant entry = false →
    ∀ step, step < ringDistance slots.length (home entry) index →
      Occupied vacant slots (ahead slots.length (home entry) step)

def bag (slots : List Entry) : Multiset Entry :=
  (slots.map fun entry => if vacant entry then 0 else {entry}).sum

variable {vacant home}

theorem Occupied.bound (occupied : Occupied vacant slots index) : index < slots.length := by
  obtain ⟨entry, here, -⟩ := occupied
  exact (List.getElem?_eq_some_iff.mp here).1

theorem mem_bag :
    entry ∈ bag vacant slots ↔ entry ∈ slots ∧ vacant entry = false := by
  induction slots with
  | nil => simp [bag]
  | cons first rest ih =>
    simp only [bag, List.map_cons, List.sum_cons, Multiset.mem_add, List.mem_cons] at ih ⊢
    rw [ih]
    cases isVacant : vacant first with
    | false =>
      simp only [Bool.false_eq_true, if_false, Multiset.mem_singleton]
      constructor
      · rintro (rfl | inside)
        · exact ⟨Or.inl rfl, isVacant⟩
        · exact ⟨Or.inr inside.1, inside.2⟩
      · rintro ⟨rfl | inside, occupied⟩
        · exact Or.inl rfl
        · exact Or.inr ⟨inside, occupied⟩
    | true =>
      simp only [if_true, Multiset.notMem_zero, false_or]
      constructor
      · rintro ⟨inside, occupied⟩
        exact ⟨Or.inr inside, occupied⟩
      · rintro ⟨rfl | inside, occupied⟩
        · rw [isVacant] at occupied
          contradiction
        · exact ⟨inside, occupied⟩

theorem bag_set {slots : List Entry} {index : Nat} {old new : Entry}
    (here : slots[index]? = some old) :
    bag vacant (slots.set index new) + (if vacant old then 0 else {old}) =
      bag vacant slots + (if vacant new then 0 else {new}) := by
  induction slots generalizing index with
  | nil => simp at here
  | cons first rest ih =>
    cases index with
    | zero =>
      simp only [List.getElem?_cons_zero, Option.some.injEq] at here
      subst here
      simp only [bag, List.set_cons_zero, List.map_cons, List.sum_cons]
      ac_rfl
    | succ index =>
      simp only [List.getElem?_cons_succ] at here
      have tail := ih here
      simp only [bag, List.set_cons_succ, List.map_cons, List.sum_cons] at tail ⊢
      rw [add_assoc, tail, add_assoc]

theorem bag_fill {slots : List Entry} {index : Nat} {old new : Entry}
    (here : slots[index]? = some old) (wasVacant : vacant old = true)
    (occupied : vacant new = false) :
    bag vacant (slots.set index new) = bag vacant slots + {new} := by
  have change := @bag_set Entry vacant slots index old new here
  simpa [wasVacant, occupied] using change

theorem bag_replace {slots : List Entry} {index : Nat} {old new : Entry}
    (here : slots[index]? = some old) (wasOccupied : vacant old = false)
    (occupied : vacant new = false) :
    bag vacant (slots.set index new) + {old} = bag vacant slots + {new} := by
  have change := @bag_set Entry vacant slots index old new here
  simpa [wasOccupied, occupied] using change

theorem bag_clear {slots : List Entry} {index : Nat} {old cleared : Entry}
    (here : slots[index]? = some old) (wasOccupied : vacant old = false)
    (isVacant : vacant cleared = true) :
    bag vacant (slots.set index cleared) + {old} = bag vacant slots := by
  have change := @bag_set Entry vacant slots index old cleared here
  simpa [wasOccupied, isVacant] using change

theorem hasVacancy_of_card_lt
    (fewer : (bag vacant slots).card < slots.length) : HasVacancy vacant slots := by
  induction slots with
  | nil => simp at fewer
  | cons first rest ih =>
    cases isVacant : vacant first with
    | true => exact ⟨first, List.mem_cons_self, isVacant⟩
    | false =>
      have restFewer : (bag vacant rest).card < rest.length := by
        simp only [bag, List.map_cons, List.sum_cons, isVacant, Bool.false_eq_true, if_false,
          Multiset.card_add, Multiset.card_singleton, List.length_cons] at fewer ⊢
        omega
      obtain ⟨entry, member, entryVacant⟩ := ih restFewer
      exact ⟨entry, List.mem_cons_of_mem first member, entryVacant⟩

theorem Occupied.set_iff
    (wasOccupied : Occupied vacant slots gap) (occupied : vacant entry = false) :
    Occupied vacant (slots.set gap entry) index ↔ Occupied vacant slots index := by
  have bound := wasOccupied.bound
  by_cases same : gap = index
  · subst same
    constructor
    · exact fun _ => wasOccupied
    · exact fun _ => ⟨entry, by rw [List.getElem?_set_self bound], occupied⟩
  · unfold Occupied
    rw [List.getElem?_set_ne same]

theorem Occupied.set_of_ne (occupied : Occupied vacant slots index) (different : gap ≠ index) :
    Occupied vacant (slots.set gap entry) index := by
  unfold Occupied
  rw [List.getElem?_set_ne different]
  exact occupied

/-- A search finds a hit, or it ends at the first hole and there is no hit at all. -/
theorem Sound.search (sound : Sound vacant home slots) (wraps : Wraps slots.length next)
    (holes : ∀ entry, visit entry = .hole ↔ vacant entry = true) {fuel : Nat}
    (startBound : start < slots.length) (enough : slots.length ≤ fuel)
    (homes : ∀ entry ∈ slots, vacant entry = false → visit entry = .hit → home entry = start)
    (spare : HasVacancy vacant slots) :
    (∃ index entry, probeFrom visit next slots fuel start = some (.found index) ∧
      slots[index]? = some entry ∧ vacant entry = false ∧ visit entry = .hit) ∨
    (∃ index entry, probeFrom visit next slots fuel start = some (.hole index) ∧
      slots[index]? = some entry ∧ vacant entry = true ∧
      (∀ step, step < ringDistance slots.length start index →
        Occupied vacant slots (ahead slots.length start step)) ∧
      ∀ other ∈ slots, vacant other = false → visit other ≠ .hit) := by
  obtain ⟨vacancy, vacancyMember, isVacant⟩ := spare
  have vacancyStops : visit vacancy ≠ .onward := by
    rw [(holes vacancy).mpr isVacant]
    exact Visit.noConfusion
  obtain ⟨steps, entry, stepsBound, here, stopping, onward⟩ :=
    exists_first_stop startBound ⟨vacancy, vacancyMember, vacancyStops⟩
  have landed := probeFrom_lands wraps steps fuel start startBound stepsBound (by omega) onward
    here stopping
  cases visited : visit entry with
  | onward => exact absurd visited stopping
  | hit =>
    rw [visited, if_pos rfl] at landed
    refine Or.inl ⟨_, entry, landed, here, ?_, visited⟩
    by_contra entryVacant
    rw [Bool.not_eq_false, ← holes, visited] at entryVacant
    contradiction
  | hole =>
    rw [visited, if_neg Visit.noConfusion] at landed
    have entryVacant := (holes entry).mp visited
    have passed : ∀ step, step < steps →
        ∃ other, slots[ahead slots.length start step]? = some other ∧ vacant other = false ∧
          visit other ≠ .hit := by
      intro step before
      obtain ⟨other, otherHere, otherOnward⟩ := onward step before
      refine ⟨other, otherHere, ?_, by rw [otherOnward]; exact Visit.noConfusion⟩
      by_contra otherVacant
      rw [Bool.not_eq_false, ← holes, otherOnward] at otherVacant
      contradiction
    refine Or.inr ⟨_, entry, landed, here, entryVacant, ?_, ?_⟩
    · intro step before
      rw [ringDistance_ahead startBound stepsBound] at before
      obtain ⟨other, otherHere, otherOccupied, -⟩ := passed step before
      exact ⟨other, otherHere, otherOccupied⟩
    · -- a matching entry would have been met before the first vacant slot
      intro other member otherOccupied otherHit
      obtain ⟨place, placeBound, rfl⟩ := List.mem_iff_getElem.mp member
      have placeHere : slots[place]? = some slots[place] := List.getElem?_eq_getElem placeBound
      have sameHome := homes _ member otherOccupied otherHit
      have way := sound.reach place _ placeHere otherOccupied
      rw [sameHome] at way
      have placeAhead := ahead_ringDistance startBound placeBound
      rcases lt_trichotomy (ringDistance slots.length start place) steps with
        before | same | after
      · obtain ⟨met, metHere, -, metMisses⟩ := passed _ before
        rw [placeAhead, placeHere, Option.some.injEq] at metHere
        exact metMisses (metHere ▸ otherHit)
      · rw [← same, placeAhead, placeHere, Option.some.injEq] at here
        rw [← here, otherOccupied] at entryVacant
        contradiction
      · obtain ⟨met, metHere, metOccupied⟩ := way steps after
        rw [here, Option.some.injEq] at metHere
        rw [← metHere, entryVacant] at metOccupied
        contradiction

/-- A hole may be filled that is reached from the home slot of the new entry. -/
theorem Sound.fill (sound : Sound vacant home slots)
    (here : slots[index]? = some old) (wasVacant : vacant old = true)
    (homeBound : home new < slots.length)
    (way : ∀ step, step < ringDistance slots.length (home new) index →
      Occupied vacant slots (ahead slots.length (home new) step)) :
    Sound vacant home (slots.set index new) := by
  have bound : index < slots.length := (List.getElem?_eq_some_iff.mp here).1
  have widen : ∀ place, Occupied vacant slots place →
      Occupied vacant (slots.set index new) place := by
    rintro place ⟨entry, placeHere, placeOccupied⟩
    refine Occupied.set_of_ne ⟨entry, placeHere, placeOccupied⟩ ?_
    rintro rfl
    rw [here, Option.some.injEq] at placeHere
    rw [← placeHere, wasVacant] at placeOccupied
    contradiction
  constructor
  · intro place entry placeHere placeOccupied
    rw [List.length_set]
    by_cases same : index = place
    · subst same
      rw [List.getElem?_set_self bound, Option.some.injEq] at placeHere
      exact placeHere ▸ homeBound
    · rw [List.getElem?_set_ne same] at placeHere
      exact sound.homeBound place entry placeHere placeOccupied
  · intro place entry placeHere placeOccupied step before
    rw [List.length_set] at before ⊢
    by_cases same : index = place
    · subst same
      rw [List.getElem?_set_self bound, Option.some.injEq] at placeHere
      subst placeHere
      exact widen _ (way step before)
    · rw [List.getElem?_set_ne same] at placeHere
      exact widen _ (sound.reach place entry placeHere placeOccupied step before)

theorem Sound.replace (sound : Sound vacant home slots)
    (here : slots[index]? = some old) (wasOccupied : vacant old = false)
    (occupied : vacant new = false) (sameHome : home new = home old) :
    Sound vacant home (slots.set index new) := by
  have bound : index < slots.length := (List.getElem?_eq_some_iff.mp here).1
  have indexOccupied : Occupied vacant slots index := ⟨old, here, wasOccupied⟩
  constructor
  · intro place entry placeHere placeOccupied
    rw [List.length_set]
    by_cases same : index = place
    · subst same
      rw [List.getElem?_set_self bound, Option.some.injEq] at placeHere
      rw [← placeHere, sameHome]
      exact sound.homeBound index old here wasOccupied
    · rw [List.getElem?_set_ne same] at placeHere
      exact sound.homeBound place entry placeHere placeOccupied
  · intro place entry placeHere placeOccupied step before
    rw [List.length_set] at before ⊢
    rw [indexOccupied.set_iff occupied]
    by_cases same : index = place
    · subst same
      rw [List.getElem?_set_self bound, Option.some.injEq] at placeHere
      rw [← placeHere, sameHome] at before ⊢
      exact sound.reach index old here wasOccupied step before
    · rw [List.getElem?_set_ne same] at placeHere
      exact sound.reach place entry placeHere placeOccupied step before

theorem Sound.of_vacant (allVacant : ∀ entry ∈ slots, vacant entry = true) :
    Sound vacant home slots := by
  have never : ∀ (index : Nat) (entry : Entry), slots[index]? = some entry →
      vacant entry = false → False := by
    intro index entry here occupied
    rw [allVacant entry (List.mem_of_getElem? here)] at occupied
    contradiction
  exact ⟨fun index entry here occupied => (never index entry here occupied).elim,
    fun index entry here occupied => (never index entry here occupied).elim⟩

/-! Shifting back. The gap still looks occupied while entries move, so the slots
that are vacant are the same all along. -/

/-- The slots behind the gap up to `index` have been looked at: no entry there is
searched for across the gap. -/
structure Shifting (vacant : Entry → Bool) (home : Entry → Nat) (slots : List Entry)
    (gap index : Nat) : Prop where
  gapOccupied : Occupied vacant slots gap
  indexBound : index < slots.length
  homeBound : ∀ (place : Nat) (entry : Entry), place ≠ gap → slots[place]? = some entry →
    vacant entry = false → home entry < slots.length
  reach : ∀ (place : Nat) (entry : Entry), place ≠ gap → slots[place]? = some entry →
    vacant entry = false → ∀ step, step < ringDistance slots.length (home entry) place →
      Occupied vacant slots (ahead slots.length (home entry) step)
  between : ∀ step, step ≤ ringDistance slots.length gap index →
    Occupied vacant slots (ahead slots.length gap step)
  stays : ∀ (place : Nat) (entry : Entry), place ≠ gap → slots[place]? = some entry →
    ringDistance slots.length gap place ≤ ringDistance slots.length gap index →
    ringDistance slots.length (home entry) place < ringDistance slots.length gap place

theorem Sound.shifting (sound : Sound vacant home slots)
    (occupied : Occupied vacant slots gap) : Shifting vacant home slots gap gap where
  gapOccupied := occupied
  indexBound := occupied.bound
  homeBound := fun place entry _ => sound.homeBound place entry
  reach := fun place entry _ => sound.reach place entry
  between := by
    intro step within
    rw [ringDistance_self, Nat.le_zero] at within
    rw [within, ahead_zero occupied.bound]
    exact occupied
  stays := by
    intro place entry different here within
    have placeBound : place < slots.length := (List.getElem?_eq_some_iff.mp here).1
    have apart := ringDistance_pos occupied.bound (Ne.symm different)
    rw [ringDistance_self] at within
    omega

section

variable (shifting : Shifting vacant home slots gap index)
include shifting

theorem Shifting.lt_vacancy {place : Nat} (here : slots[place]? = some entry)
    (isVacant : vacant entry = true) :
    ringDistance slots.length gap index < ringDistance slots.length gap place := by
  have placeBound : place < slots.length := (List.getElem?_eq_some_iff.mp here).1
  by_contra within
  obtain ⟨met, metHere, metOccupied⟩ := shifting.between _ (not_lt.mp within)
  rw [ahead_ringDistance shifting.gapOccupied.bound placeBound, here, Option.some.injEq] at metHere
  rw [← metHere, isVacant] at metOccupied
  contradiction

theorem Shifting.ringDistance_next (spare : HasVacancy vacant slots) :
    ringDistance slots.length gap (ahead slots.length index 1) =
      ringDistance slots.length gap index + 1 := by
  obtain ⟨vacancy, member, isVacant⟩ := spare
  obtain ⟨place, placeBound, rfl⟩ := List.mem_iff_getElem.mp member
  have before := shifting.lt_vacancy (List.getElem?_eq_getElem placeBound) isVacant
  have placeWithin := ringDistance_lt shifting.gapOccupied.bound placeBound
  have here := ahead_ringDistance shifting.gapOccupied.bound shifting.indexBound
  have further := @ahead_ahead slots.length gap (ringDistance slots.length gap index) 1
    shifting.gapOccupied.bound (by omega)
  rw [here] at further
  rw [further]
  exact ringDistance_ahead shifting.gapOccupied.bound (by omega)

theorem Shifting.finish
    (here : slots[ahead slots.length index 1]? = some entry) (isVacant : vacant entry = true)
    (clearedVacant : vacant cleared = true) : Sound vacant home (slots.set gap cleared) := by
  have gapBound := shifting.gapOccupied.bound
  have nextBound : ahead slots.length index 1 < slots.length := (List.getElem?_eq_some_iff.mp here).1
  have spare : HasVacancy vacant slots := ⟨entry, List.mem_of_getElem? here, isVacant⟩
  have nextDistance := shifting.ringDistance_next spare
  have away : ∀ (place : Nat) (other : Entry), (slots.set gap cleared)[place]? = some other →
      vacant other = false → place ≠ gap ∧ slots[place]? = some other := by
    intro place other placeHere placeOccupied
    by_cases same : gap = place
    · subst same
      rw [List.getElem?_set_self gapBound, Option.some.injEq] at placeHere
      rw [← placeHere, clearedVacant] at placeOccupied
      contradiction
    · rw [List.getElem?_set_ne same] at placeHere
      exact ⟨Ne.symm same, placeHere⟩
  constructor
  · intro place other placeHere placeOccupied
    rw [List.length_set]
    obtain ⟨different, placeHere⟩ := away place other placeHere placeOccupied
    exact shifting.homeBound place other different placeHere placeOccupied
  · intro place other placeHere placeOccupied step before
    rw [List.length_set] at before ⊢
    obtain ⟨different, placeHere⟩ := away place other placeHere placeOccupied
    have placeBound : place < slots.length := (List.getElem?_eq_some_iff.mp placeHere).1
    have homeBound := shifting.homeBound place other different placeHere placeOccupied
    have homeDistance := ringDistance_lt homeBound placeBound
    have way := shifting.reach place other different placeHere placeOccupied
    refine (way step before).set_of_ne ?_
    -- a way across the gap would have to cross the vacant slot as well
    intro crossing
    have gapStep : ringDistance slots.length (home other) gap = step := by
      rw [crossing]
      exact ringDistance_ahead homeBound (by omega)
    have split : ringDistance slots.length (home other) place =
        step + ringDistance slots.length gap place := by
      have beyond : ahead slots.length (home other) step = gap := crossing.symm
      have rest := @ahead_ahead slots.length (home other) step
        (ringDistance slots.length (home other) place - step) homeBound (by omega)
      rw [Nat.add_sub_cancel' (le_of_lt before), beyond,
        ahead_ringDistance homeBound placeBound] at rest
      rw [← rest, ringDistance_ahead gapBound (by omega)]
      rw [rest]
      omega
    by_cases scanned : ringDistance slots.length gap place ≤ ringDistance slots.length gap index
    · have stays := shifting.stays place other different placeHere scanned
      omega
    · by_cases atNext : ringDistance slots.length gap place =
          ringDistance slots.length gap (ahead slots.length index 1)
      · have same : place = ahead slots.length index 1 := by
          rw [← ahead_ringDistance gapBound placeBound, atNext,
            ahead_ringDistance gapBound nextBound]
        rw [same, here, Option.some.injEq] at placeHere
        rw [← placeHere, isVacant] at placeOccupied
        contradiction
      · obtain ⟨met, metHere, metOccupied⟩ :=
          way (step + ringDistance slots.length gap (ahead slots.length index 1)) (by omega)
        rw [← ahead_ahead homeBound (by omega), ← crossing,
          ahead_ringDistance gapBound nextBound, here, Option.some.injEq] at metHere
        rw [← metHere, isVacant] at metOccupied
        contradiction

theorem Shifting.stay (spare : HasVacancy vacant slots)
    (here : slots[ahead slots.length index 1]? = some entry) (occupied : vacant entry = false)
    (stays : ringDistance slots.length (home entry) (ahead slots.length index 1) <
      ringDistance slots.length gap (ahead slots.length index 1)) :
    Shifting vacant home slots gap (ahead slots.length index 1) := by
  have gapBound := shifting.gapOccupied.bound
  have nextBound : ahead slots.length index 1 < slots.length := (List.getElem?_eq_some_iff.mp here).1
  have nextDistance := shifting.ringDistance_next spare
  refine ⟨shifting.gapOccupied, nextBound, shifting.homeBound, shifting.reach, ?_, ?_⟩
  · intro step within
    rcases Nat.lt_or_eq_of_le within with before | rfl
    · exact shifting.between step (by omega)
    · rw [ahead_ringDistance gapBound nextBound]
      exact ⟨entry, here, occupied⟩
  · intro place other different placeHere within
    have placeBound : place < slots.length := (List.getElem?_eq_some_iff.mp placeHere).1
    rcases Nat.lt_or_eq_of_le within with before | same
    · exact shifting.stays place other different placeHere (by omega)
    · have samePlace : place = ahead slots.length index 1 := by
        rw [← ahead_ringDistance gapBound placeBound, same, ahead_ringDistance gapBound nextBound]
      rw [samePlace, here, Option.some.injEq] at placeHere
      rw [samePlace, ← placeHere]
      exact stays

theorem Shifting.move (spare : HasVacancy vacant slots)
    (here : slots[ahead slots.length index 1]? = some entry) (occupied : vacant entry = false)
    (moves : ringDistance slots.length gap (ahead slots.length index 1) ≤
      ringDistance slots.length (home entry) (ahead slots.length index 1)) :
    Shifting vacant home (slots.set gap entry) (ahead slots.length index 1)
      (ahead slots.length index 1) := by
  have gapBound := shifting.gapOccupied.bound
  have nextBound : ahead slots.length index 1 < slots.length := (List.getElem?_eq_some_iff.mp here).1
  have nextDistance := shifting.ringDistance_next spare
  have nextOccupied : Occupied vacant slots (ahead slots.length index 1) := ⟨entry, here, occupied⟩
  have nextAway : ahead slots.length index 1 ≠ gap := by
    intro same
    rw [same, ringDistance_self] at nextDistance
    omega
  have entryHomeBound := shifting.homeBound _ entry nextAway here occupied
  have keeps : ∀ place, Occupied vacant (slots.set gap entry) place ↔ Occupied vacant slots place :=
    fun place => shifting.gapOccupied.set_iff occupied
  have origin : ∀ (place : Nat) (other : Entry), (slots.set gap entry)[place]? = some other →
      (place = gap ∧ other = entry) ∨ (place ≠ gap ∧ slots[place]? = some other) := by
    intro place other placeHere
    by_cases same : gap = place
    · subst same
      rw [List.getElem?_set_self gapBound, Option.some.injEq] at placeHere
      exact Or.inl ⟨rfl, placeHere.symm⟩
    · rw [List.getElem?_set_ne same] at placeHere
      exact Or.inr ⟨Ne.symm same, placeHere⟩
  refine ⟨(keeps _).mpr nextOccupied, by rwa [List.length_set], ?_, ?_, ?_, ?_⟩
  · intro place other different placeHere placeOccupied
    rw [List.length_set]
    rcases origin place other placeHere with ⟨-, rfl⟩ | ⟨away, placeHere⟩
    · exact entryHomeBound
    · exact shifting.homeBound place other away placeHere placeOccupied
  · intro place other different placeHere placeOccupied step before
    rw [List.length_set] at before ⊢
    rw [keeps]
    rcases origin place other placeHere with ⟨rfl, rfl⟩ | ⟨away, placeHere⟩
    · -- the way to the gap is the first part of the way to the old place
      have split := ringDistance_split entryHomeBound gapBound moves
      exact shifting.reach _ other nextAway here occupied step (by omega)
    · exact shifting.reach place other away placeHere placeOccupied step before
  · intro step within
    rw [List.length_set, ringDistance_self, Nat.le_zero] at within
    rw [List.length_set, within, ahead_zero nextBound, keeps]
    exact nextOccupied
  · intro place other different placeHere within
    have placeBound : place < (slots.set gap entry).length :=
      (List.getElem?_eq_some_iff.mp placeHere).1
    rw [List.length_set] at within placeBound ⊢
    have apart := ringDistance_pos nextBound (Ne.symm different)
    rw [ringDistance_self] at within
    omega

end

theorem bag_move (gapHere : slots[gap]? = some old) (wasOccupied : vacant old = false)
    (here : slots[index]? = some entry) (occupied : vacant entry = false)
    (different : gap ≠ index) (clearedVacant : vacant cleared = true) :
    bag vacant ((slots.set gap entry).set index cleared) = bag vacant (slots.set gap cleared) := by
  have movedHere : (slots.set gap entry)[index]? = some entry := by
    rw [List.getElem?_set_ne different]
    exact here
  have closed := bag_clear movedHere occupied clearedVacant
  have replaced := bag_replace gapHere wasOccupied occupied
  have opened := bag_clear gapHere wasOccupied clearedVacant
  rw [← closed, ← opened, add_right_comm] at replaced
  exact add_right_cancel (add_right_cancel replaced)

theorem Shifting.shiftBack_some (clearedVacant : vacant cleared = true) {size : Nat}
    (wraps : Wraps size next)
    (staysPut_iff : ∀ homeSlot gap index, homeSlot < size → gap < size → index < size →
      gap ≠ index → (staysPut homeSlot gap index = true ↔
        ringDistance size homeSlot index < ringDistance size gap index)) :
    ∀ (fuel : Nat) (slots : List Entry) (gap index place : Nat) (vacancy : Entry),
      slots.length = size → Shifting vacant home slots gap index →
      slots[place]? = some vacancy → vacant vacancy = true →
      ringDistance size index place < fuel →
        ∃ result, shiftBack vacant home staysPut next cleared fuel slots gap index = some result ∧
          Sound vacant home result ∧ result.length = size ∧
          bag vacant result = bag vacant (slots.set gap cleared) := by
  intro fuel
  induction fuel with
  | zero => intro slots gap index place vacancy _ _ _ _ enough; omega
  | succ fuel ih =>
    intro slots gap index place vacancy sized shifting placeHere placeVacant enough
    subst sized
    have placeBound : place < slots.length := (List.getElem?_eq_some_iff.mp placeHere).1
    have spare : HasVacancy vacant slots :=
      ⟨vacancy, List.mem_of_getElem? placeHere, placeVacant⟩
    have apart : ∀ other, Occupied vacant slots other → other ≠ place := by
      rintro other ⟨entry, here, occupied⟩ rfl
      rw [placeHere, Option.some.injEq] at here
      rw [← here, placeVacant] at occupied
      contradiction
    have indexOccupied : Occupied vacant slots index := by
      have last := shifting.between _ le_rfl
      rwa [ahead_ringDistance shifting.gapOccupied.bound shifting.indexBound] at last
    have closer := ringDistance_step shifting.indexBound placeBound (apart index indexOccupied)
    have nextBound : ahead slots.length index 1 < slots.length := by
      refine ahead_lt shifting.indexBound ?_
      have far := ringDistance_lt shifting.indexBound placeBound
      omega
    have here := List.getElem?_eq_getElem nextBound
    generalize slots[ahead slots.length index 1] = entry at here
    rw [shiftBack]
    simp only [wraps index shifting.indexBound, here]
    cases isVacant : vacant entry with
    | true =>
      exact ⟨_, rfl, shifting.finish here isVacant clearedVacant, by rw [List.length_set], rfl⟩
    | false =>
      have nextDistance := shifting.ringDistance_next spare
      have nextAway : gap ≠ ahead slots.length index 1 := by
        intro same
        rw [← same, ringDistance_self] at nextDistance
        omega
      have entryHome := shifting.homeBound _ entry (Ne.symm nextAway) here isVacant
      have decides := staysPut_iff (home entry) gap _ entryHome shifting.gapOccupied.bound
        nextBound nextAway
      simp only [Bool.false_eq_true, if_false]
      by_cases stays : staysPut (home entry) gap (ahead slots.length index 1) = true
      · rw [if_pos stays]
        exact ih slots gap _ place vacancy rfl
          (shifting.stay spare here isVacant (decides.mp stays)) placeHere placeVacant
          (by omega)
      · rw [if_neg stays]
        have gapApart := apart gap shifting.gapOccupied
        obtain ⟨result, resultEq, sound, sized, contents⟩ :=
          ih (slots.set gap entry) _ _ place vacancy (by rw [List.length_set])
            (shifting.move spare here isVacant (not_lt.mp (mt decides.mpr stays)))
            (by rw [List.getElem?_set_ne gapApart]; exact placeHere) placeVacant (by omega)
        refine ⟨result, resultEq, sound, sized, ?_⟩
        obtain ⟨old, gapHere, wasOccupied⟩ := shifting.gapOccupied
        rw [contents, bag_move gapHere wasOccupied here isVacant nextAway clearedVacant]

/-- Shifting back takes out one entry, and every other one is still found. -/
theorem Sound.remove (sound : Sound vacant home slots) (spare : HasVacancy vacant slots)
    (clearedVacant : vacant cleared = true) (wraps : Wraps slots.length next)
    (staysPut_iff : ∀ homeSlot gap index, homeSlot < slots.length → gap < slots.length →
      index < slots.length → gap ≠ index → (staysPut homeSlot gap index = true ↔
        ringDistance slots.length homeSlot index < ringDistance slots.length gap index))
    (here : slots[index]? = some old) (occupied : vacant old = false) :
    ∃ result,
      shiftBack vacant home staysPut next cleared slots.length slots index index = some result ∧
      Sound vacant home result ∧ result.length = slots.length ∧
      bag vacant result + {old} = bag vacant slots := by
  obtain ⟨vacancy, member, isVacant⟩ := spare
  obtain ⟨place, placeBound, rfl⟩ := List.mem_iff_getElem.mp member
  have indexBound : index < slots.length := (List.getElem?_eq_some_iff.mp here).1
  obtain ⟨result, resultEq, resultSound, sized, contents⟩ :=
    Shifting.shiftBack_some clearedVacant wraps staysPut_iff slots.length slots index index
      place _ rfl (sound.shifting ⟨old, here, occupied⟩) (List.getElem?_eq_getElem placeBound)
        isVacant
      (ringDistance_lt indexBound placeBound)
  exact ⟨result, resultEq, resultSound,
    sized, by rw [contents, bag_clear here occupied clearedVacant]⟩

end Tables

end Library
