import Mathlib.Logic.Function.Basic

/-!
Runs of a machine that can fail, next to runs of the specification it follows.
-/

namespace Library

section Simulation

variable {State Spec Op Answer : Type}
variable {ops : List Op} {state : State} {machine : State → Op → Option State} {op : Op}
  {good : State → Prop} {safe condition : State → Op → Prop}

def run (step : State → Op → Option (State × Answer)) : State → List Op → Option (State × List Answer)
  | state, [] => some (state, [])
  | state, op :: ops => do
      let (state, answer) ← step state op
      let (state, answers) ← run step state ops
      some (state, answer :: answers)

def specRun (step : Spec → Op → Spec × Answer) : Spec → List Op → Spec × List Answer
  | spec, [] => (spec, [])
  | spec, op :: ops =>
    let next := step spec op
    let rest := specRun step next.1 ops
    (rest.1, next.2 :: rest.2)

def PermittedRun (step : Spec → Op → Spec × Answer) (permitted : Spec → Op → Prop) :
    Spec → List Op → Prop
  | _, [] => True
  | spec, op :: ops => permitted spec op ∧ PermittedRun step permitted (step spec op).1 ops

variable {step : State → Op → Option (State × Answer)} {specStep : Spec → Op → Spec × Answer}
  {permitted : Spec → Op → Prop} {holds : Spec → State → Prop}

theorem permittedRun_of_forall {permittedOp : Op → Prop} (each : ∀ op ∈ ops, permittedOp op) :
    ∀ spec, PermittedRun specStep (fun _ => permittedOp) spec ops := by
  induction ops with
  | nil => exact fun _ => trivial
  | cons op rest ih =>
    intro spec
    constructor
    · exact each op List.mem_cons_self
    · exact ih (fun later member => each later (List.mem_cons_of_mem op member)) _

theorem run_follows (follows : ∀ spec state op, holds spec state → permitted spec op →
      ∃ next, step state op = some (next, (specStep spec op).2) ∧ holds (specStep spec op).1 next) :
    ∀ (ops : List Op) (spec : Spec) (state : State), holds spec state →
      PermittedRun specStep permitted spec ops →
      ∃ final, run step state ops = some (final, (specRun specStep spec ops).2) ∧
        holds (specRun specStep spec ops).1 final := by
  intro ops
  induction ops with
  | nil => exact fun spec state start _ => ⟨state, rfl, start⟩
  | cons op rest ih =>
    rintro spec state start ⟨allowed, later⟩
    obtain ⟨next, stepped, nextHolds⟩ := follows spec state op start allowed
    obtain ⟨final, finished, finalHolds⟩ := ih _ next nextHolds later
    refine ⟨final, ?_, finalHolds⟩
    simp only [run, stepped, finished, Option.bind_eq_bind, Option.bind_some, specRun]

theorem run_append (first second : List Op) (state : State) :
    run step state (first ++ second) = (run step state first).bind fun (between, before) =>
      (run step between second).map fun (final, after) => (final, before ++ after) := by
  induction first generalizing state with
  | nil => simp [run]
  | cons op first ih =>
    rw [List.cons_append, run, run]
    cases step state op with
    | none => rfl
    | some result =>
      simp only [Option.bind_eq_bind, Option.bind_some, ih]
      cases run step result.1 first with
      | none => rfl
      | some between =>
        simp only [Option.bind_some]
        cases run step between.1 second <;> rfl

theorem run_answered {final : State} {answers : List Answer}
    (ran : run step state ops = some (final, answers)) {n : Nat} {answer : Answer}
    (answered : answers[n]? = some answer) :
    ∃ op before next, ops[n]? = some op ∧
      run step state (ops.take n) = some (before, answers.take n) ∧
      step before op = some (next, answer) := by
  induction ops generalizing state answers n with
  | nil =>
    obtain ⟨rfl, rfl⟩ := Prod.mk.inj (Option.some.inj ran)
    simp at answered
  | cons op ops ih =>
    rw [run] at ran
    obtain ⟨⟨between, first⟩, stepped, ran⟩ := Option.bind_eq_some_iff.mp ran
    obtain ⟨⟨last, more⟩, finished, same⟩ := Option.bind_eq_some_iff.mp ran
    obtain ⟨rfl, rfl⟩ := Prod.mk.inj (Option.some.inj same)
    cases n with
    | zero =>
      obtain rfl : first = answer := by simpa using answered
      exact ⟨op, state, between, rfl, rfl, stepped⟩
    | succ n =>
      obtain ⟨later, before, next, found, ranBefore, steppedLater⟩ :=
        ih finished (by simpa using answered)
      refine ⟨later, before, next, found, ?_, steppedLater⟩
      simp only [List.take_succ_cons, run, stepped, Option.bind_eq_bind, Option.bind_some, ranBefore]

theorem specRun_append (first second : List Op) (spec : Spec) :
    specRun specStep spec (first ++ second) =
      ((specRun specStep (specRun specStep spec first).1 second).1,
        (specRun specStep spec first).2 ++
          (specRun specStep (specRun specStep spec first).1 second).2) := by
  induction first generalizing spec with
  | nil => rfl
  | cons op first ih => simp [specRun, ih]

inductive Reaches (does : Op → Spec → Spec → Prop) : Spec → List Op → Spec → Prop where
  | done (spec : Spec) : Reaches does spec [] spec
  | step {op : Op} {ops : List Op} {spec next final : Spec} (first : does op spec next)
      (rest : Reaches does next ops final) : Reaches does spec (op :: ops) final

inductive Answers (does : Op → Spec → Answer → Spec → Prop) : Spec → List Op → List Answer →
    Spec → Prop where
  | done (spec : Spec) : Answers does spec [] [] spec
  | step {op : Op} {ops : List Op} {answer : Answer} {answers : List Answer} {spec next final : Spec}
      (first : does op spec answer next) (rest : Answers does next ops answers final) :
      Answers does spec (op :: ops) (answer :: answers) final

def PermittedFrom (machine : State → Op → Option State) (permitted : State → Op → Prop) :
    State → List Op → Prop
  | _, [] => True
  | state, op :: ops => permitted state op ∧
      ∀ next, machine state op = some next → PermittedFrom machine permitted next ops

theorem permittedFrom_cons_some {permitted : State → Op → Prop}
    {next : State} (stepped : machine state op = some next) :
    PermittedFrom machine permitted state (op :: ops) ↔
      permitted state op ∧ PermittedFrom machine permitted next ops := by
  simp [PermittedFrom, stepped]

theorem permittedFrom_cons_none {permitted : State → Op → Prop} (stuck : machine state op = none) :
    PermittedFrom machine permitted state (op :: ops) ↔ permitted state op := by
  simp [PermittedFrom, stuck]

theorem PermittedFrom.of_append {permitted : State → Op → Prop}
    {more : List Op} : ∀ {ops : List Op} {state : State},
    PermittedFrom machine permitted state (ops ++ more) → PermittedFrom machine permitted state ops ∧
      ∀ last, ops.foldlM machine state = some last → PermittedFrom machine permitted last more := by
  intro ops
  induction ops with
  | nil =>
    intro state later
    refine ⟨trivial, fun last finished => ?_⟩
    cases finished
    exact later
  | cons op ops ih =>
    rintro state ⟨allowed, later⟩
    refine ⟨⟨allowed, fun next stepped => (ih (later next stepped)).1⟩, fun last finished => ?_⟩
    rw [List.foldlM_cons] at finished
    cases stepped : machine state op with
    | none => simp [stepped] at finished
    | some next =>
      rw [stepped] at finished
      exact (ih (later next stepped)).2 last finished

theorem PermittedFrom.mono {permitted weaker : State → Op → Prop}
    (implied : ∀ state op, permitted state op → weaker state op) :
    ∀ {ops : List Op} {state : State}, PermittedFrom machine permitted state ops →
      PermittedFrom machine weaker state ops := by
  intro ops
  induction ops with
  | nil => exact fun _ => trivial
  | cons op ops ih =>
    rintro state ⟨allowed, later⟩
    exact ⟨implied state op allowed, fun next stepped => ih (later next stepped)⟩

theorem run_followsFrom {permitted : State → Op → Prop}
    (follows : ∀ spec state op, holds spec state → permitted state op →
      ∃ next, step state op = some (next, (specStep spec op).2) ∧ holds (specStep spec op).1 next) :
    ∀ (ops : List Op) (spec : Spec) (state : State), holds spec state →
      PermittedFrom (fun state op => (step state op).map Prod.fst) permitted state ops →
      ∃ final, run step state ops = some (final, (specRun specStep spec ops).2) ∧
        holds (specRun specStep spec ops).1 final := by
  intro ops
  induction ops with
  | nil => exact fun spec state start _ => ⟨state, rfl, start⟩
  | cons op rest ih =>
    rintro spec state start ⟨allowed, later⟩
    obtain ⟨next, stepped, nextHolds⟩ := follows spec state op start allowed
    obtain ⟨final, finished, finalHolds⟩ := ih _ next nextHolds (later next (by simp [stepped]))
    refine ⟨final, ?_, finalHolds⟩
    simp only [run, stepped, finished, Option.bind_eq_bind, Option.bind_some, specRun]

theorem run_answersFrom {permitted : State → Op → Prop} (does : Op → Spec → Answer → Spec → Prop)
    (holds : Spec → State → Prop)
    (refines : ∀ spec state op, holds spec state → permitted state op →
      ∃ next answer after, step state op = some (next, answer) ∧ does op spec answer after ∧
        holds after next) :
    ∀ (ops : List Op) (spec : Spec) (state : State), holds spec state →
      PermittedFrom (fun state op => (step state op).map Prod.fst) permitted state ops →
      ∃ final answers last, run step state ops = some (final, answers) ∧
        Answers does spec ops answers last ∧
        holds last final := by
  intro ops
  induction ops with
  | nil => exact fun spec state start _ => ⟨state, [], spec, rfl, .done spec, start⟩
  | cons op ops ih =>
    rintro spec state start ⟨allowed, later⟩
    obtain ⟨next, answer, after, stepped, did, nextHolds⟩ := refines spec state op start allowed
    obtain ⟨final, answers, last, finished, answered, finalHolds⟩ :=
      ih after next nextHolds (later next (by simp [stepped]))
    refine ⟨final, answer :: answers, last, ?_, .step did answered, finalHolds⟩
    simp only [run, stepped, finished, Option.bind_eq_bind, Option.bind_some]

/-- Two conditions that agree in good states agree along runs. -/
theorem permittedFrom_congr {permitted : State → Op → Prop}
    (agree : ∀ state op, good state → permitted state op → (safe state op ↔ condition state op))
    (keeps : ∀ state op next, good state → permitted state op → condition state op →
      machine state op = some next → good next) :
    ∀ (ops : List Op) (state : State), good state → PermittedFrom machine permitted state ops →
      (PermittedFrom machine safe state ops ↔ PermittedFrom machine condition state ops) := by
  intro ops
  induction ops with
  | nil => exact fun _ _ _ => Iff.rfl
  | cons op ops ih =>
    rintro state start ⟨allowed, later⟩
    have here := agree state op start allowed
    constructor
    · rintro ⟨safe, rest⟩
      have holds := here.mp safe
      exact ⟨holds, fun next stepped => (ih next (keeps state op next start allowed holds stepped)
        (later next stepped)).mp (rest next stepped)⟩
    · rintro ⟨holds, rest⟩
      exact ⟨here.mpr holds,
        fun next stepped => (ih next (keeps state op next start allowed holds stepped)
        (later next stepped)).mpr (rest next stepped)⟩

theorem permittedFrom_safe {permitted : State → Op → Prop}
    (keeps : ∀ state op, good state → permitted state op → condition state op →
      safe state op ∧ ∀ next, machine state op = some next → good next) :
    ∀ (ops : List Op) (state : State), good state → PermittedFrom machine permitted state ops →
      PermittedFrom machine condition state ops → PermittedFrom machine safe state ops := by
  intro ops
  induction ops with
  | nil => exact fun _ _ _ _ => trivial
  | cons op ops ih =>
    rintro state start ⟨allowed, permittedLater⟩ ⟨met, metLater⟩
    obtain ⟨safe, stays⟩ := keeps state op start allowed met
    constructor
    · exact safe
    · intro next stepped
      exact ih next (stays next stepped) (permittedLater next stepped) (metLater next stepped)

instance decidablePermittedFrom (machine : State → Op → Option State) (permitted : State → Op → Prop)
    [∀ state op, Decidable (permitted state op)] :
    ∀ state ops, Decidable (PermittedFrom machine permitted state ops)
  | _, [] => inferInstanceAs (Decidable True)
  | state, op :: ops =>
    match stepped : machine state op with
    | none => decidable_of_iff _ (permittedFrom_cons_none stepped).symm
    | some next =>
      haveI := decidablePermittedFrom machine permitted next ops
      decidable_of_iff _ (permittedFrom_cons_some stepped).symm

/-- A run does one after the other what its steps do. -/
theorem foldlM_reaches {permitted : State → Op → Prop} {does : Op → Spec → Spec → Prop}
    (follows : ∀ spec state op, holds spec state → permitted state op →
      ∃ next specNext, machine state op = some next ∧ does op spec specNext ∧
        holds specNext next) :
    ∀ (ops : List Op) (spec : Spec) (state : State), holds spec state →
      PermittedFrom machine permitted state ops →
      ∃ final specFinal, ops.foldlM machine state = some final ∧
        Reaches does spec ops specFinal ∧ holds specFinal final := by
  intro ops
  induction ops with
  | nil => exact fun spec state start _ => ⟨state, spec, rfl, .done spec, start⟩
  | cons op rest ih =>
    rintro spec state start ⟨allowed, later⟩
    obtain ⟨next, specNext, stepped, did, nextHolds⟩ := follows spec state op start allowed
    obtain ⟨final, specFinal, finished, reached, finalHolds⟩ :=
      ih specNext next nextHolds (later next stepped)
    refine ⟨final, specFinal, ?_, .step did reached, finalHolds⟩
    rw [List.foldlM_cons, stepped]
    exact finished

end Simulation

/-!
Threads that step on a shared state, one at a time and in any order.
-/

structure Config (Shared Thread Local : Type) where
  shared : Shared
  locals : Thread → Local

section Interleaving

variable {Shared Thread Local Choice Event : Type} [DecidableEq Thread]
variable {step : Thread → Shared → Local → Choice → Option (Shared × Local × Option Event)}
  {config : Config Shared Thread Local} {thread : Thread} {event : Option Event}

/-- The step of one thread. There is none, if an assertion of the thread fails. -/
def interleave (step : Thread → Shared → Local → Choice → Option (Shared × Local × Option Event))
    (config : Config Shared Thread Local) (move : Thread × Choice) :
    Option (Config Shared Thread Local × Option Event) :=
  (step move.1 config.shared (config.locals move.1) move.2).map fun (shared, here, event) =>
    (⟨shared, Function.update config.locals move.1 here⟩, event)

theorem interleave_some {choice : Choice} {shared : Shared} {here : Local}
    (stepped : step thread config.shared (config.locals thread) choice = some (shared, here, event)) :
    interleave step config (thread, choice) =
      some (⟨shared, Function.update config.locals thread here⟩, event) := by
  simp [interleave, stepped]

theorem interleave_eq_some {after : Config Shared Thread Local} {move : Thread × Choice}
    (moved : interleave step config move = some (after, event)) :
    ∃ here, step move.1 config.shared (config.locals move.1) move.2 = some (after.shared,
      here, event) ∧
      after.locals = Function.update config.locals move.1 here := by
  obtain ⟨⟨shared, here, answer⟩, stepped, same⟩ := Option.map_eq_some_iff.mp moved
  obtain ⟨rfl, rfl⟩ := Prod.mk.inj same
  exact ⟨here, stepped, rfl⟩

def visited (step : Thread → Shared → Local → Choice → Option (Shared × Local × Option Event))
    (start : Config Shared Thread Local) (moves : List (Thread × Choice)) (n : Nat) :
    Option (Config Shared Thread Local) :=
  (run (interleave step) start (moves.take n)).map Prod.fst

def DuringCall (step : Thread → Shared → Local → Choice → Option (Shared × Local × Option Event))
    (start : Config Shared Thread Local) (idle : Local)
    (moves : List (Thread × Choice)) (thread : Thread) (n : Nat)
    (holds : Config Shared Thread Local → Prop) : Prop :=
  ∃ m config, m ≤ n ∧ visited step start moves m = some config ∧ holds config ∧
    ∀ k, m ≤ k → k ≤ n → ∃ between, visited step start moves k = some between ∧
      between.locals thread ≠ idle

theorem duringCall_last
    {start : Config Shared Thread Local} {idle : Local} {moves : List (Thread × Choice)} {n : Nat}
    {holds : Config Shared Thread Local → Prop} (visits : visited step start moves n = some config)
    (inside : config.locals thread ≠ idle) (here : holds config) :
    DuringCall step start idle moves thread n holds := by
  refine ⟨n, config, Nat.le_refl n, visits, here, ?_⟩
  intro k lower upper
  obtain rfl := Nat.le_antisymm upper lower
  exact ⟨config, visits, inside⟩

end Interleaving

section Histories

variable {State Op Answer : Type} {step : State → Op → Option (State × Answer)}

/-- What every step keeps, a run keeps. -/
theorem run_keeps {good : List Answer → State → Prop} (keeps : ∀ past state op, good past state →
      ∃ next answer, step state op = some (next, answer) ∧ good (past ++ [answer]) next) :
    ∀ (ops : List Op) (past : List Answer) (state : State), good past state →
      ∃ final answers, run step state ops = some (final, answers) ∧ good (past ++ answers) final := by
  intro ops
  induction ops with
  | nil => exact fun past state start => ⟨state, [], rfl, by simpa using start⟩
  | cons op ops ih =>
    intro past state start
    obtain ⟨next, answer, stepped, nextGood⟩ := keeps past state op start
    obtain ⟨final, answers, finished, finalGood⟩ := ih (past ++ [answer]) next nextGood
    refine ⟨final, answer :: answers, ?_, by simpa using finalGood⟩
    simp only [run, stepped, finished, Option.bind_eq_bind, Option.bind_some]

end Histories

end Library
