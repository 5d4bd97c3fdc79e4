import Mathlib.Algebra.Ring.Nat

/-!
Halving search over an integer window. The probe looks at the middle of the
window and decides where the search goes on. The midpoint is a parameter because
machine integers can fail to represent the sum of the two ends.
-/

namespace Library

inductive Probe (Result : Type) where
  | hit (result : Result)
  | right
  | left

inductive Bisected (Result : Type) where
  | found (result : Result)
  | missing (last : Int)
  | overflow
  | endless

def Bisected.hit {Result : Type} : Bisected Result → Option Result
  | .found result => some result
  | .missing _ | .overflow | .endless => none

/-- `(first + last) / 2` as C divides, provided the sum stays below `limit`. -/
def midpointBelow (limit first last : Int) : Option Int :=
  if first + last < limit then some ((first + last).tdiv 2) else none

def midpoint (first last : Int) : Option Int :=
  some ((first + last).tdiv 2)

def bisectFrom {Result : Type} (middleOf : Int → Int → Option Int)
    (probe : Int → Int → Probe Result) : Nat → Int → Int → Bisected Result
  | 0, _, _ => .endless
  | fuel + 1, first, last =>
    match middleOf first last with
    | none => .overflow
    | some middle =>
      if first ≤ last then
        match probe last middle with
        | .hit result => .found result
        | .right => bisectFrom middleOf probe fuel (middle + 1) last
        | .left => bisectFrom middleOf probe fuel first (middle - 1)
      else .missing last

theorem tdiv_two_between {first last : Int} (nonneg : 0 ≤ first) (ordered : first ≤ last) :
    first ≤ (first + last).tdiv 2 ∧ (first + last).tdiv 2 ≤ last := by
  rw [Int.tdiv_eq_ediv_of_nonneg (by omega)]
  omega

def ProbeStep {Result : Type} (invariant : Int → Int → Prop) (accept : Bisected Result → Prop)
    (first last middle : Int) : Probe Result → Prop
  | .hit result => accept (.found result)
  | .right => invariant (middle + 1) last
  | .left => invariant first (middle - 1)

/-- What each probe keeps is kept up to the end of the search, and the search ends. -/
theorem bisectFrom_rule {Result : Type} {middleOf : Int → Int → Option Int}
    {probe : Int → Int → Probe Result} (invariant : Int → Int → Prop)
    {accept : Bisected Result → Prop}
    (step : ∀ first last, invariant first last → first ≤ last →
      ∃ middle, middleOf first last = some middle ∧ first ≤ middle ∧ middle ≤ last ∧
        ProbeStep invariant accept first last middle (probe last middle))
    (stop : ∀ first last, invariant first last → last < first →
      (middleOf first last).isSome ∧ accept (.missing last)) :
    ∀ fuel first last, invariant first last → (last - first + 1).toNat < fuel →
      accept (bisectFrom middleOf probe fuel first last) := by
  intro fuel
  induction fuel with
  | zero => intro first last _ enough; omega
  | succ fuel ih =>
    intro first last holds enough
    rw [bisectFrom]
    by_cases inside : first ≤ last
    · obtain ⟨middle, middleEq, lower, upper, probed⟩ := step first last holds inside
      simp only [middleEq, inside, if_true]
      cases outcome : probe last middle with
      | hit result => simpa [outcome, ProbeStep] using probed
      | right =>
        rw [outcome] at probed
        exact ih (middle + 1) last probed (by omega)
      | left =>
        rw [outcome] at probed
        exact ih first (middle - 1) probed (by omega)
    · obtain ⟨middle, middleEq⟩ := Option.isSome_iff_exists.mp (stop first last holds (by omega)).1
      simp only [middleEq, inside, if_false]
      exact (stop first last holds (by omega)).2

def bisectProbes {Result : Type} (middleOf : Int → Int → Option Int)
    (probe : Int → Int → Probe Result) :
    Nat → Int → Int → List (Int × Int)
  | 0, _, _ => []
  | fuel + 1, first, last =>
    match middleOf first last with
    | none => []
    | some middle =>
      if first ≤ last then
        (last, middle) ::
          match probe last middle with
          | .hit _ => []
          | .right => bisectProbes middleOf probe fuel (middle + 1) last
          | .left => bisectProbes middleOf probe fuel first (middle - 1)
      else []

theorem bisectProbes_inside {Result : Type} (probe : Int → Int → Probe Result) :
    ∀ fuel (first last : Int), 0 ≤ first →
      (bisectProbes midpoint probe fuel first last).length ≤ (last - first + 1).toNat ∧
        ∀ ends middle, (ends, middle) ∈ bisectProbes midpoint probe fuel first last →
          first ≤ middle ∧ middle ≤ ends ∧ ends ≤ last := by
  intro fuel
  induction fuel with
  | zero => simp [bisectProbes]
  | succ fuel ih =>
    intro first last nonneg
    by_cases inside : first ≤ last
    · obtain ⟨lower, upper⟩ := tdiv_two_between nonneg inside
      rw [bisectProbes, midpoint]
      simp only [inside, if_true]
      generalize (first + last).tdiv 2 = middle at lower upper ⊢
      have later : ∀ rest : List (Int × Int), rest.length ≤ (last - first).toNat →
          (∀ ends place, (ends, place) ∈ rest → first ≤ place ∧ place ≤ ends ∧ ends ≤ last) →
          ((last, middle) :: rest).length ≤ (last - first + 1).toNat ∧
            ∀ ends place, (ends, place) ∈ (last, middle) :: rest → first ≤ place ∧ place ≤ ends ∧
              ends ≤ last := by
        intro rest few within
        refine ⟨by rw [List.length_cons]; omega, ?_⟩
        intro ends place member
        rcases List.mem_cons.mp member with here | there
        · obtain ⟨rfl, rfl⟩ := Prod.mk.inj here
          omega
        · exact within ends place there
      cases probe last middle with
      | hit result => exact later [] (Nat.zero_le _) (by simp)
      | right =>
        obtain ⟨few, within⟩ := ih (middle + 1) last (by omega)
        refine later _ (Nat.le_trans few (by omega)) fun ends place member => ?_
        have bounds := within ends place member
        omega
      | left =>
        obtain ⟨few, within⟩ := ih first (middle - 1) nonneg
        refine later _ (Nat.le_trans few (by omega)) fun ends place member => ?_
        have bounds := within ends place member
        omega
    · simp [bisectProbes, midpoint, inside]

def rightStart (count : Nat) : Nat → Nat
  | 0 => 0
  | steps + 1 => (rightStart count steps + (count - 1)) / 2 + 1

def MidpointsFit (limit : Int) (count place : Nat) : Prop :=
  ∀ steps, rightStart count steps ≤ place → (rightStart count steps : Int) + (count - 1) < limit

theorem midpointsFit_of_few {limit : Int} {count place : Nat} (few : 2 * (count : Int) ≤ limit)
    (within : place ≤ count) : MidpointsFit limit count place := by
  intro steps reached
  omega

/-- The window of a search that goes right below `place` and left where `beyond` holds.
Once it went left, the sums stay below the limit. -/
structure TowardsPlace (limit : Int) (count place : Nat) (beyond : Nat → Prop) (first last : Int) :
    Prop where
  nonneg : 0 ≤ first
  inside : last < count
  left : first ≤ place
  right : place ≤ last + 1
  edge : last + 1 = count ∨ beyond (last + 1).toNat
  fits : (∃ steps, first = rightStart count steps ∧ last = count - 1) ∨ 2 * last + 1 < limit

theorem TowardsPlace.middle {limit : Int} {count place : Nat} {beyond : Nat → Prop}
    {first last : Int} (window : TowardsPlace limit count place beyond first last)
    (fit : MidpointsFit limit count place) :
    midpointBelow limit first last = some ((first + last).tdiv 2) ∧ first + last < limit := by
  have sum : first + last < limit := by
    have left := window.left
    have right := window.right
    rcases window.fits with ⟨steps, rightmost, atEnd⟩ | small
    · have reached := fit steps (by omega)
      omega
    · omega
  exact ⟨if_pos sum, sum⟩

/-- Probes that point to `place` lead there, unless the sum of two ends overflows. -/
theorem bisectFrom_towards {Result : Type} {limit : Int} {count place : Nat}
    {probe : Int → Int → Probe Result} {accept : Bisected Result → Prop} (beyond : Nat → Prop)
    (within : place ≤ count) (fit : MidpointsFit limit count place)
    (probes : ∀ last (middle : Nat), middle < count →
      match probe last middle with
      | .hit result => accept (.found result)
      | .right => middle < place
      | .left => place ≤ middle ∧ beyond middle)
    (misses : place = count ∨ beyond place → accept (.missing (place - 1))) :
    accept (bisectFrom (midpointBelow limit) probe (count + 1) 0 (count - 1)) := by
  have start : TowardsPlace limit count place beyond 0 (count - 1) :=
    ⟨Int.le_refl 0, by omega, by omega, by omega, Or.inl (by omega), Or.inl ⟨0, rfl, rfl⟩⟩
  refine bisectFrom_rule (TowardsPlace limit count place beyond) ?_ ?_ _ _ _ start (by omega)
  · intro first last window ordered
    obtain ⟨lower, upper⟩ := tdiv_two_between window.nonneg ordered
    obtain ⟨middleAt, sum⟩ := window.middle fit
    refine ⟨_, middleAt, lower, upper, ?_⟩
    have nonneg := window.nonneg
    have inside := window.inside
    have left := window.left
    have right := window.right
    have halves : (first + last).tdiv 2 = (first + last) / 2 :=
      Int.tdiv_eq_ediv_of_nonneg (by omega)
    obtain ⟨middle, middleEq⟩ := Int.eq_ofNat_of_zero_le (Int.le_trans nonneg lower)
    have probed := probes last middle (by omega)
    rw [middleEq] at lower upper halves ⊢
    cases outcome : probe last middle with
    | hit result =>
      rw [outcome] at probed
      exact probed
    | right =>
      rw [outcome] at probed
      refine ⟨by omega, inside, by omega, right, window.edge, ?_⟩
      rcases window.fits with ⟨steps, rightmost, atEnd⟩ | small
      · refine Or.inl ⟨steps + 1, ?_, atEnd⟩
        rw [rightStart]
        omega
      · exact Or.inr small
    | left =>
      rw [outcome] at probed
      refine ⟨nonneg, by omega, left, by omega, Or.inr ?_, Or.inr (by omega)⟩
      rw [Int.sub_add_cancel, Int.toNat_natCast]
      exact probed.2
  · intro first last window crossed
    obtain ⟨middleAt, _⟩ := window.middle fit
    have left := window.left
    have right := window.right
    have ended : last = place - 1 := by omega
    have edge := window.edge
    rw [ended, Int.sub_add_cancel, Int.toNat_natCast] at edge
    rw [middleAt, ended]
    exact ⟨rfl, misses (edge.imp (fun atEnd => by omega) id)⟩

theorem rightStart_le {count : Nat} (positive : 0 < count) :
    ∀ steps, rightStart count steps ≤ count := by
  intro steps
  induction steps with
  | zero => exact Nat.zero_le count
  | succ steps ih =>
    rw [rightStart]
    omega

theorem rightStart_mono {count : Nat} (positive : 0 < count) {steps later : Nat}
    (order : steps ≤ later) : rightStart count steps ≤ rightStart count later := by
  induction later with
  | zero => rw [Nat.le_zero.mp order]
  | succ later ih =>
    rcases Nat.lt_or_eq_of_le order with before | same
    · have bound := rightStart_le positive later
      refine Nat.le_trans (ih (Nat.le_of_lt_succ before)) ?_
      rw [rightStart]
      omega
    · rw [same]

/-- A search that goes right for too long adds up ends that overflow. -/
theorem bisectFrom_overflows {Result : Type} {limit : Int} {count place : Nat}
    {probe : Int → Int → Probe Result} (positive : 0 < count)
    (goesRight : ∀ last (middle : Nat), middle < place → probe last middle = .right)
    {far : Nat} (reached : rightStart count far ≤ place)
    (beyond : limit ≤ (rightStart count far : Int) + (count - 1)) :
    ∀ steps fuel, steps ≤ far → count - rightStart count steps < fuel →
      bisectFrom (midpointBelow limit) probe fuel (rightStart count steps) (count - 1) =
        .overflow := by
  have loop : ∀ left steps fuel, steps + left = far → count - rightStart count steps < fuel →
      bisectFrom (midpointBelow limit) probe fuel (rightStart count steps) (count - 1) =
        .overflow := by
    intro left
    induction left with
    | zero =>
      intro steps fuel here enough
      cases fuel with
      | zero => omega
      | succ fuel =>
        rw [Nat.add_zero] at here
        rw [bisectFrom, midpointBelow, here, if_neg (by omega)]
    | succ left ih =>
      intro steps fuel here enough
      cases fuel with
      | zero => omega
      | succ fuel =>
        have bound := rightStart_le positive steps
        have next : rightStart count (steps + 1) =
            (rightStart count steps + (count - 1)) / 2 + 1 := rfl
        have later := rightStart_mono positive (show steps + 1 ≤ far by omega)
        rw [bisectFrom, midpointBelow]
        by_cases fits : (rightStart count steps : Int) + (count - 1) < limit
        · have onward : (rightStart count steps : Int) ≤ count - 1 := by
            have farBound := rightStart_le positive far
            omega
          have middle : ((rightStart count steps : Int) + (count - 1)).tdiv 2 =
              ((rightStart count steps + (count - 1)) / 2 : Nat) := by
            rw [Int.tdiv_eq_ediv_of_nonneg (by omega)]
            omega
          rw [if_pos fits]
          simp only [middle, if_pos onward]
          rw [goesRight _ _ (by omega)]
          have rest := ih (steps + 1) fuel (by omega) (by omega)
          rw [next] at rest
          exact rest
        · rw [if_neg fits]
  intro steps fuel before enough
  exact loop (far - steps) steps fuel (by omega) enough

end Library
