import Mathlib.Data.UInt
import MulleCore.Multififo.Lockingmultififo

/-!
`mulle-pointermultififo.c`, with a step for each atomic operation. A result of `none` stands for a
failed `assert`.
-/

namespace MulleCore

open Library

/-- How often `read` and `write` were advanced. The words in memory are these modulo 2^64. -/
structure Pointermultififo where
  read : Nat
  write : Nat
  storage : Nat → Pointer

inductive MultififoState where
  | idle
  | readCounter
  | readSlot (a : Nat)
  | readClaim (a : Nat) (pointer : Pointer)
  | readAdvance (a : Nat) (pointer : Pointer)
  | readUndo (a : Nat) (pointer : Pointer)
  | readClear (a : Nat) (pointer : Pointer)
  | writeCounter (pointer : Pointer)
  | writeClaim (a : Nat) (pointer : Pointer)
  | writeAdvance (a : Nat) (pointer : Pointer)
  | writeUndo (a : Nat) (pointer : Pointer)
  | writeStore (a : Nat) (pointer : Pointer)
deriving DecidableEq

inductive MultififoMove where
  | read
  | write (pointer : Pointer)
  | proceed

/-- What a function returns, which is `wrote` where `write` returns 0, and the steps on which a
counter advances. -/
inductive MultififoEvent where
  | returned (answer : FifoAnswer)
  | wrote (pointer : Pointer)
  | took (pointer : Pointer)
  | placed (pointer : Pointer)
deriving DecidableEq

section Steps

def slotIndex (size a : Nat) : Nat := a % 2 ^ 32 % size

def Pointermultififo.setSlot (fifo : Pointermultififo) (i : Nat) (pointer : Pointer) :
    Pointermultififo :=
  { fifo with storage := Function.update fifo.storage i pointer }

abbrev MultififoResult : Type := Option (Pointermultififo × MultififoState × Option MultififoEvent)

def replaceNotYet (fifo : Pointermultififo) (i : Nat) (pointer : Pointer) (state : MultififoState)
    (event : Option MultififoEvent) : MultififoResult :=
  if fifo.storage i = notYet then some (fifo.setSlot i pointer, state, event) else none

def multififoProceed (size : Nat) (fifo : Pointermultififo) : MultififoState → MultififoResult
  | .idle => some (fifo, .idle, none)
  | .readCounter => some (fifo, .readSlot (fifo.read % 2 ^ 64), none)
  | .readSlot a =>
    if fifo.storage (slotIndex size a) = 0 then some (fifo, .idle, some (.returned (.pointer 0)))
    else if fifo.storage (slotIndex size a) = notYet then some (fifo, .readCounter, none)
    else some (fifo, .readClaim a (fifo.storage (slotIndex size a)), none)
  | .readClaim a pointer =>
    if fifo.storage (slotIndex size a) = pointer then
      some (fifo.setSlot (slotIndex size a) notYet, .readAdvance a pointer, none)
    else some (fifo, .readCounter, none)
  | .readAdvance a pointer =>
    if fifo.read % 2 ^ 64 = a then
      some ({ fifo with read := fifo.read + 1 }, .readClear a pointer, some (.took pointer))
    else some (fifo, .readUndo a pointer, none)
  | .readUndo a pointer => replaceNotYet fifo (slotIndex size a) pointer .readCounter none
  | .readClear a pointer =>
    replaceNotYet fifo (slotIndex size a) 0 .idle (some (.returned (.pointer pointer)))
  | .writeCounter pointer => some (fifo, .writeClaim (fifo.write % 2 ^ 64) pointer, none)
  | .writeClaim a pointer =>
    if fifo.storage (slotIndex size a) = 0 then
      some (fifo.setSlot (slotIndex size a) notYet, .writeAdvance a pointer, none)
    else if fifo.storage (slotIndex size a) = notYet then some (fifo, .writeCounter pointer, none)
    else some (fifo, .idle, some (.returned (.wrote (some .EBUSY))))
  | .writeAdvance a pointer =>
    if fifo.write % 2 ^ 64 = a then
      some ({ fifo with write := fifo.write + 1 }, .writeStore a pointer, some (.placed pointer))
    else some (fifo, .writeUndo a pointer, none)
  | .writeUndo a pointer => replaceNotYet fifo (slotIndex size a) 0 (.writeCounter pointer) none
  | .writeStore a pointer =>
    replaceNotYet fifo (slotIndex size a) pointer .idle (some (.wrote pointer))

def multififoStep (size : Nat) (fifo : Pointermultififo) (here : MultififoState) :
    MultififoMove → MultififoResult
  | .read => some (fifo, if here = .idle then .readCounter else here, none)
  | .write pointer =>
    if here ≠ .idle then some (fifo, here, none)
    else if pointer = 0 ∨ pointer = notYet then
      some (fifo, .idle, some (.returned (.wrote (some .EINVAL))))
    else some (fifo, .writeCounter pointer, none)
  | .proceed => multififoProceed size fifo here

abbrev MultififoConfig (Thread : Type) : Type := Config Pointermultififo Thread MultififoState

def multififoInit (Thread : Type) : MultififoConfig Thread := ⟨⟨0, 0, fun _ => 0⟩, fun _ => .idle⟩

end Steps

section Claims

variable {size : Nat}
variable {fifo : Pointermultififo} {here : MultififoState}

/-- The slot in which the thread has put `NOTYET`. -/
def MultififoState.claim (size : Nat) : MultififoState → Option Nat
  | .readAdvance a _ | .readUndo a _ | .readClear a _ | .writeAdvance a _ | .writeUndo a _
  | .writeStore a _ =>
    some (slotIndex size a)
  | _ => none

def MultififoState.occupant : MultififoState → Option Pointer
  | .readAdvance _ pointer | .readUndo _ pointer | .writeStore _ pointer => some pointer
  | _ => none

def content (pointer : Pointer) : Option Pointer := if pointer = 0 then none else some pointer

def MultififoState.Proper : MultififoState → Prop
  | .idle | .readCounter | .readSlot _ => True
  | .readClaim _ pointer | .readAdvance _ pointer | .readUndo _ pointer | .readClear _ pointer
  | .writeCounter pointer | .writeClaim _ pointer | .writeAdvance _ pointer | .writeUndo _ pointer
  | .writeStore _ pointer => pointer ≠ 0 ∧ pointer ≠ notYet

inductive MultififoEffect (size : Nat) (fifo : Pointermultififo) (here : MultififoState) :
    Pointermultififo → MultififoState → Option MultififoEvent → Prop where
  | stays {there : MultififoState} {event : Option MultififoEvent}
      (claim : there.claim size = here.claim size)
      (occupant : there.occupant = here.occupant)
      (silent : ∀ pointer, event ≠ some (.took pointer) ∧ event ≠ some (.placed pointer)) :
      MultififoEffect size fifo here fifo there event
  | claims {there : MultififoState} {i : Nat} (free : here.claim size = none)
      (unclaimed : fifo.storage i ≠ notYet)
      (claim : there.claim size = some i) (occupant : there.occupant = content (fifo.storage i)) :
      MultififoEffect size fifo here (fifo.setSlot i notYet) there none
  | releases {there : MultififoState} {event : Option MultififoEvent} {i : Nat} {pointer : Pointer}
      (held : here.claim size = some i) (claim : there.claim size = none) (proper : pointer ≠ notYet)
      (occupant : content pointer = here.occupant)
      (silent : ∀ pointer, event ≠ some (.took pointer) ∧ event ≠ some (.placed pointer)) :
      MultififoEffect size fifo here (fifo.setSlot i pointer) there event
  | takes {there : MultififoState} {pointer : Pointer}
      (held : here.claim size = some (slotIndex size fifo.read))
      (claim : there.claim size = here.claim size) (occupied : here.occupant = some pointer)
      (empty : there.occupant = none) :
      MultififoEffect size fifo here { fifo with read := fifo.read + 1 } there (some (.took pointer))
  | places {there : MultififoState} {pointer : Pointer}
      (held : here.claim size = some (slotIndex size fifo.write))
      (claim : there.claim size = here.claim size) (empty : here.occupant = none)
      (occupied : there.occupant = some pointer) :
      MultififoEffect size fifo here { fifo with write := fifo.write + 1 } there
        (some (.placed pointer))

theorem slotIndex_mod (size a : Nat) : slotIndex size (a % 2 ^ 64) = slotIndex size a := by
  rw [slotIndex, slotIndex, Nat.mod_mod_of_dvd a (Nat.pow_dvd_pow 2 (by omega))]

theorem content_proper {pointer : Pointer} (nonnull : pointer ≠ 0) :
    content pointer = some pointer := if_neg nonnull

theorem replaceNotYet_effect {i : Nat} (here : MultififoState) (pointer : Pointer)
    (there : MultififoState) (event : Option MultififoEvent) (held : here.claim size = some i)
    (marked : fifo.storage i = notYet) (claim : there.claim size = none) (proper : pointer ≠ notYet)
    (occupant : content pointer = here.occupant)
    (silent : ∀ pointer, event ≠ some (.took pointer) ∧ event ≠ some (.placed pointer)) :
    ∃ next, replaceNotYet fifo i pointer there event = some (next, there, event) ∧
      MultififoEffect size fifo here next there event :=
  ⟨_, if_pos marked, .releases held claim proper occupant silent⟩

theorem multififoProceed_effect (proper : here.Proper)
    (marked : ∀ i, here.claim size = some i → fifo.storage i = notYet) :
    ∃ next there event, multififoProceed size fifo here = some (next, there, event) ∧ there.Proper ∧
      MultififoEffect size fifo here next there event := by
  cases here with
  | idle => exact ⟨_, _, _, rfl, trivial, .stays rfl rfl (by simp)⟩
  | readCounter => exact ⟨_, _, _, rfl, trivial, .stays rfl rfl (by simp)⟩
  | readSlot a =>
    rw [multififoProceed]
    split
    next => exact ⟨_, _, _, rfl, trivial, .stays rfl rfl (by simp)⟩
    next nonnull =>
      split
      next => exact ⟨_, _, _, rfl, trivial, .stays rfl rfl (by simp)⟩
      next notMarked => exact ⟨_, _, _, rfl, ⟨nonnull, notMarked⟩, .stays rfl rfl (by simp)⟩
  | readClaim a pointer =>
    rw [multififoProceed]
    split
    next same =>
      refine ⟨_, _, _, rfl, proper, .claims rfl ?_ rfl ?_⟩
      · rw [same]
        exact proper.2
      · rw [same, content_proper proper.1]
        rfl
    next => exact ⟨_, _, _, rfl, trivial, .stays rfl rfl (by simp)⟩
  | readAdvance a pointer =>
    rw [multififoProceed]
    split
    next same =>
      refine ⟨_, _, _, rfl, proper, .takes ?_ rfl rfl rfl⟩
      rw [← same, MultififoState.claim, slotIndex_mod]
    next => exact ⟨_, _, _, rfl, proper, .stays rfl rfl (by simp)⟩
  | readUndo a pointer =>
    obtain ⟨next, steps, effect⟩ :=
      replaceNotYet_effect (.readUndo a pointer) pointer .readCounter none rfl
      (marked _ rfl) rfl proper.2 (content_proper proper.1) (by simp)
    exact ⟨next, _, _, steps, trivial, effect⟩
  | readClear a pointer =>
    obtain ⟨next, steps, effect⟩ :=
      replaceNotYet_effect (.readClear a pointer) 0 .idle (some (.returned (.pointer pointer)))
      rfl (marked _ rfl) rfl (by decide) rfl (by simp)
    exact ⟨next, _, _, steps, trivial, effect⟩
  | writeCounter pointer => exact ⟨_, _, _, rfl, proper, .stays rfl rfl (by simp)⟩
  | writeClaim a pointer =>
    rw [multififoProceed]
    split
    next empty =>
      refine ⟨_, _, _, rfl, proper, .claims rfl ?_ rfl ?_⟩
      · rw [empty]
        decide
      · rw [empty]
        rfl
    next =>
      split
      next => exact ⟨_, _, _, rfl, proper, .stays rfl rfl (by simp)⟩
      next => exact ⟨_, _, _, rfl, trivial, .stays rfl rfl (by simp)⟩
  | writeAdvance a pointer =>
    rw [multififoProceed]
    split
    next same =>
      refine ⟨_, _, _, rfl, proper, .places ?_ rfl rfl rfl⟩
      rw [← same, MultififoState.claim, slotIndex_mod]
    next => exact ⟨_, _, _, rfl, proper, .stays rfl rfl (by simp)⟩
  | writeUndo a pointer =>
    obtain ⟨next, steps, effect⟩ :=
      replaceNotYet_effect (.writeUndo a pointer) 0 (.writeCounter pointer) none rfl
      (marked _ rfl) rfl (by decide) rfl (by simp)
    exact ⟨next, _, _, steps, proper, effect⟩
  | writeStore a pointer =>
    obtain ⟨next, steps, effect⟩ := replaceNotYet_effect (.writeStore a pointer) pointer .idle
      (some (.wrote pointer))
      rfl (marked _ rfl) rfl proper.2 (content_proper proper.1) (by simp)
    exact ⟨next, _, _, steps, trivial, effect⟩

theorem multififoStep_effect (proper : here.Proper)
    (marked : ∀ i, here.claim size = some i → fifo.storage i = notYet) (move : MultififoMove) :
    ∃ next there event, multififoStep size fifo here move = some (next, there, event) ∧ there.Proper ∧
      MultififoEffect size fifo here next there event := by
  cases move with
  | read =>
    rw [multififoStep]
    split
    next idle =>
      subst idle
      exact ⟨_, _, _, rfl, trivial, .stays rfl rfl (by simp)⟩
    next => exact ⟨_, _, _, rfl, proper, .stays rfl rfl (by simp)⟩
  | write pointer =>
    rw [multififoStep]
    split
    next => exact ⟨_, _, _, rfl, proper, .stays rfl rfl (by simp)⟩
    next idle =>
      obtain rfl := not_not.mp idle
      split
      next => exact ⟨_, _, _, rfl, trivial, .stays rfl rfl (by simp)⟩
      next proper => exact ⟨_, _, _, rfl, not_or.mp proper, .stays rfl rfl (by simp)⟩
  | proceed => exact multififoProceed_effect proper marked

end Claims

section Invariant

variable {Thread : Type} [DecidableEq Thread] {size : Nat}
variable {i : Nat} {pointer : Pointer} {fifo : Pointermultififo} {queued : Option Pointer}

/-- What the queue has in a slot. The queue is what was placed from `read` on. -/
def Queued (size : Nat) (placed : List Pointer) (fifo : Pointermultififo) (i : Nat) :
    Option Pointer → Prop
  | none => ∀ k, fifo.read ≤ k → k < fifo.write → slotIndex size k ≠ i
  | some pointer =>
    ∃ k, fifo.read ≤ k ∧ k < fifo.write ∧ slotIndex size k = i ∧ placed[k]? = some pointer

structure MultififoHolds (size : Nat) (placed : List Pointer) (config : MultififoConfig Thread) :
    Prop where
  order : config.shared.read ≤ config.shared.write
  counted : placed.length = config.shared.write
  apart : ∀ k l, config.shared.read ≤ k → k < l → l < config.shared.write →
    slotIndex size k ≠ slotIndex size l
  proper : ∀ thread, (config.locals thread).Proper
  claims : ∀ thread i, (config.locals thread).claim size = some i →
    config.shared.storage i = notYet ∧
    Queued size placed config.shared i (config.locals thread).occupant
  alone : ∀ thread other i, (config.locals thread).claim size = some i →
    (config.locals other).claim size = some i →
    thread = other
  stored : ∀ i, config.shared.storage i ≠ notYet →
    Queued size placed config.shared i (content (config.shared.storage i))
  claimed : ∀ i, config.shared.storage i = notYet →
    ∃ thread, (config.locals thread).claim size = some i

omit [DecidableEq Thread] in
theorem multififoInit_holds : MultififoHolds size [] (multififoInit Thread) := by
  constructor
  · exact Nat.le_refl 0
  · rfl
  · exact fun k l _ _ inside => absurd inside (Nat.not_lt_zero l)
  · exact fun _ => trivial
  · exact fun thread i claim => nomatch claim
  · exact fun thread other i claim => nomatch claim
  · exact fun i _ k _ inside => absurd inside (Nat.not_lt_zero k)
  · intro i marked
    have unequal : (0 : Pointer) ≠ notYet := by decide
    exact absurd marked unequal

def MultififoEvent.place (placed : List Pointer) : Option MultififoEvent → List Pointer
  | some (.placed pointer) => placed ++ [pointer]
  | _ => placed

theorem MultififoEvent.place_silent {event : Option MultififoEvent}
    (silent : ∀ pointer, event ≠ some (.took pointer) ∧ event ≠ some (.placed pointer))
    (placed : List Pointer) :
    MultififoEvent.place placed event = placed := by
  rcases event with _ | (answer | pointer | pointer | pointer)
  · rfl
  · rfl
  · rfl
  · rfl
  · exact absurd rfl (silent pointer).2

variable {placed : List Pointer} {config : MultififoConfig Thread} {thread : Thread}
  {next : Pointermultififo} {there : MultififoState} {event : Option MultififoEvent}

theorem update_keeps {Part : Type} (part : MultififoState → Part)
    (same : part there = part (config.locals thread)) (other : Thread) :
    part (Function.update config.locals thread there other) = part (config.locals other) := by
  by_cases here : other = thread
  · rw [here, Function.update_self, same]
  · rw [Function.update_of_ne here]

section

variable (holds : MultififoHolds size placed config)
include holds

theorem MultififoHolds.stays (proper : there.Proper)
    (claim : there.claim size = (config.locals thread).claim size)
    (occupant : there.occupant = (config.locals thread).occupant) :
    MultififoHolds size placed ⟨config.shared, Function.update config.locals thread there⟩ := by
  have claimSame : ∀ other, (Function.update config.locals thread there other).claim size =
      (config.locals other).claim size :=
    update_keeps (·.claim size) claim
  have occupantSame : ∀ other, (Function.update config.locals thread there other).occupant =
      (config.locals other).occupant :=
    update_keeps (·.occupant) occupant
  constructor
  · exact holds.order
  · exact holds.counted
  · exact holds.apart
  · exact (Function.forall_update_iff config.locals (fun _ here => here.Proper)).mpr
      ⟨proper, fun other _ => holds.proper other⟩
  · simp only [claimSame, occupantSame]
    exact holds.claims
  · simp only [claimSame]
    exact holds.alone
  · exact holds.stored
  · simp only [claimSame]
    exact holds.claimed

theorem MultififoHolds.claimSlot (proper : there.Proper)
    (free : (config.locals thread).claim size = none) (unclaimed : config.shared.storage i ≠ notYet)
    (claim : there.claim size = some i)
    (occupant : there.occupant = content (config.shared.storage i)) :
    MultififoHolds size placed ⟨config.shared.setSlot i notYet,
      Function.update config.locals thread there⟩ := by
  have notHere : ∀ other, (config.locals other).claim size ≠ some i :=
    fun other here => unclaimed (holds.claims other i here).1
  constructor
  · exact holds.order
  · exact holds.counted
  · exact holds.apart
  · exact (Function.forall_update_iff config.locals (fun _ here => here.Proper)).mpr
      ⟨proper, fun other _ => holds.proper other⟩
  · intro other j claims
    dsimp only at claims ⊢
    by_cases same : other = thread
    · subst same
      rw [Function.update_self] at claims
      obtain rfl := Option.some.inj (claim.symm.trans claims)
      rw [Function.update_self, occupant]
      exact ⟨Function.update_self _ _ _, holds.stored _ unclaimed⟩
    · rw [Function.update_of_ne same] at claims
      rw [Function.update_of_ne same]
      have elsewhere : j ≠ i := fun here => notHere other (here ▸ claims)
      exact ⟨(Function.update_of_ne elsewhere _ _).trans (holds.claims other j claims).1,
        (holds.claims other j claims).2⟩
  · intro first second j firstClaims secondClaims
    dsimp only at firstClaims secondClaims
    by_cases sameFirst : first = thread
    · by_cases sameSecond : second = thread
      · rw [sameFirst, sameSecond]
      · rw [sameFirst, Function.update_self, claim] at firstClaims
        obtain rfl := Option.some.inj firstClaims
        rw [Function.update_of_ne sameSecond] at secondClaims
        exact absurd secondClaims (notHere second)
    · rw [Function.update_of_ne sameFirst] at firstClaims
      by_cases sameSecond : second = thread
      · rw [sameSecond, Function.update_self, claim] at secondClaims
        obtain rfl := Option.some.inj secondClaims
        exact absurd firstClaims (notHere first)
      · rw [Function.update_of_ne sameSecond] at secondClaims
        exact holds.alone first second j firstClaims secondClaims
  · intro j notMarked
    by_cases same : j = i
    · subst same
      exact absurd (Function.update_self _ _ _) notMarked
    · have old : (config.shared.setSlot i notYet).storage j = config.shared.storage j :=
        Function.update_of_ne same _ _
      rw [old] at notMarked ⊢
      exact holds.stored j notMarked
  · intro j marked
    by_cases same : j = i
    · exact ⟨thread, by simp [same, claim]⟩
    · have old : (config.shared.setSlot i notYet).storage j = config.shared.storage j :=
        Function.update_of_ne same _ _
      rw [old] at marked
      obtain ⟨other, claims⟩ := holds.claimed j marked
      have different : other ≠ thread := by
        rintro rfl
        exact nomatch free.symm.trans claims
      exact ⟨other, by simpa [different] using claims⟩

theorem MultififoHolds.releaseSlot (proper : there.Proper)
    (held : (config.locals thread).claim size = some i) (claim : there.claim size = none)
    (notMarker : pointer ≠ notYet) (occupant : content pointer = (config.locals thread).occupant) :
    MultififoHolds size placed ⟨config.shared.setSlot i pointer,
      Function.update config.locals thread there⟩ := by
  have others : ∀ other j, (Function.update config.locals thread there other).claim size = some j →
      other ≠ thread ∧ (config.locals other).claim size = some j := by
    intro other j claims
    by_cases same : other = thread
    · rw [same, Function.update_self, claim] at claims
      exact nomatch claims
    · exact ⟨same, by rwa [Function.update_of_ne same] at claims⟩
  constructor
  · exact holds.order
  · exact holds.counted
  · exact holds.apart
  · exact (Function.forall_update_iff config.locals (fun _ here => here.Proper)).mpr
      ⟨proper, fun other _ => holds.proper other⟩
  · intro other j claims
    dsimp only at claims ⊢
    obtain ⟨different, claims⟩ := others other j claims
    have elsewhere : j ≠ i := by
      rintro rfl
      exact different (holds.alone other thread j claims held)
    rw [Function.update_of_ne different]
    exact ⟨(Function.update_of_ne elsewhere _ _).trans (holds.claims other j claims).1,
      (holds.claims other j claims).2⟩
  · intro first second j firstClaims secondClaims
    exact holds.alone first second j (others first j firstClaims).2 (others second j secondClaims).2
  · intro j notMarked
    by_cases same : j = i
    · subst same
      have new : (config.shared.setSlot j pointer).storage j = pointer := Function.update_self _ _ _
      rw [new, occupant]
      exact (holds.claims thread j held).2
    · have old : (config.shared.setSlot i pointer).storage j = config.shared.storage j :=
        Function.update_of_ne same _ _
      rw [old] at notMarked ⊢
      exact holds.stored j notMarked
  · intro j marked
    by_cases same : j = i
    · subst same
      have new : (config.shared.setSlot j pointer).storage j = pointer := Function.update_self _ _ _
      exact absurd (new.symm.trans marked) notMarker
    · have old : (config.shared.setSlot i pointer).storage j = config.shared.storage j :=
        Function.update_of_ne same _ _
      rw [old] at marked
      obtain ⟨other, claims⟩ := holds.claimed j marked
      have different : other ≠ thread := by
        rintro rfl
        exact same (Option.some.inj (claims.symm.trans held))
      exact ⟨other, by simpa [different] using claims⟩

end

theorem Queued.take (elsewhere : i ≠ slotIndex size fifo.read)
    (holds : Queued size placed fifo i queued) :
    Queued size placed { fifo with read := fifo.read + 1 } i queued := by
  cases queued with
  | none => exact fun k begins inside => holds k (Nat.le_of_succ_le begins) inside
  | some pointer =>
    obtain ⟨k, begins, inside, slot, value⟩ := holds
    have later : k ≠ fifo.read := by
      rintro rfl
      exact elsewhere slot.symm
    exact ⟨k, Nat.lt_of_le_of_ne begins (Ne.symm later), inside, slot, value⟩

theorem Queued.place (counted : placed.length = fifo.write)
    (pointer : Pointer) (elsewhere : i ≠ slotIndex size fifo.write)
    (holds : Queued size placed fifo i queued) :
    Queued size (placed ++ [pointer]) { fifo with write := fifo.write + 1 } i queued := by
  cases queued with
  | none =>
    intro k begins inside
    rcases Nat.lt_or_eq_of_le (Nat.le_of_lt_succ inside) with before | rfl
    · exact holds k begins before
    · exact Ne.symm elsewhere
  | some pointer =>
    obtain ⟨k, begins, inside, slot, value⟩ := holds
    refine ⟨k, begins, Nat.lt_succ_of_lt inside, slot, ?_⟩
    rw [List.getElem?_append_left (by omega), value]

section

variable (holds : MultififoHolds size placed config)
include holds

theorem MultififoHolds.take (proper : there.Proper)
    (held : (config.locals thread).claim size = some (slotIndex size config.shared.read))
    (claim : there.claim size = (config.locals thread).claim size)
    (occupied : (config.locals thread).occupant = some pointer) (empty : there.occupant = none) :
    placed[config.shared.read]? = some pointer ∧ MultififoHolds size placed
      ⟨{ config.shared with read := config.shared.read + 1 },
        Function.update config.locals thread there⟩ := by
  have claimSame : ∀ other, (Function.update config.locals thread there other).claim size =
      (config.locals other).claim size :=
    update_keeps (·.claim size) claim
  have queued := (holds.claims thread _ held).2
  rw [occupied] at queued
  obtain ⟨k, begins, inside, slot, value⟩ := queued
  obtain rfl : config.shared.read = k := by
    rcases Nat.lt_or_eq_of_le begins with before | same
    · exact absurd slot.symm (holds.apart _ k (Nat.le_refl _) before inside)
    · exact same
  refine ⟨value, ?_⟩
  constructor
  · exact inside
  · exact holds.counted
  · exact fun k l begins => holds.apart k l (Nat.le_of_succ_le begins)
  · exact (Function.forall_update_iff config.locals (fun _ here => here.Proper)).mpr
      ⟨proper, fun other _ => holds.proper other⟩
  · intro other j claims
    dsimp only at claims ⊢
    rw [claimSame] at claims
    refine ⟨(holds.claims other j claims).1, ?_⟩
    by_cases same : other = thread
    · subst same
      obtain rfl := Option.some.inj (held.symm.trans claims)
      rw [Function.update_self, empty]
      intro k later inside sameSlot
      exact holds.apart _ k (Nat.le_refl _) later inside sameSlot.symm
    · rw [Function.update_of_ne same]
      refine Queued.take ?_ (holds.claims other j claims).2
      rintro rfl
      exact same (holds.alone other thread _ claims held)
  · simp only [claimSame]
    exact holds.alone
  · intro j notMarked
    refine Queued.take ?_ (holds.stored j notMarked)
    rintro rfl
    exact notMarked (holds.claims thread _ held).1
  · simp only [claimSame]
    exact holds.claimed

theorem MultififoHolds.place (proper : there.Proper)
    (held : (config.locals thread).claim size = some (slotIndex size config.shared.write))
    (claim : there.claim size = (config.locals thread).claim size)
    (empty : (config.locals thread).occupant = none) (occupied : there.occupant = some pointer) :
    MultififoHolds size (placed ++ [pointer])
      ⟨{ config.shared with write := config.shared.write + 1 },
        Function.update config.locals thread there⟩ := by
  have claimSame : ∀ other, (Function.update config.locals thread there other).claim size =
      (config.locals other).claim size :=
    update_keeps (·.claim size) claim
  have free := (holds.claims thread _ held).2
  rw [empty] at free
  constructor
  · exact Nat.le_succ_of_le holds.order
  · rw [List.length_append, List.length_singleton, holds.counted]
  · intro k l begins before inside
    rcases Nat.lt_or_eq_of_le (Nat.le_of_lt_succ inside) with earlier | rfl
    · exact holds.apart k l begins before earlier
    · exact free k begins before
  · exact (Function.forall_update_iff config.locals (fun _ here => here.Proper)).mpr
      ⟨proper, fun other _ => holds.proper other⟩
  · intro other j claims
    dsimp only at claims ⊢
    rw [claimSame] at claims
    refine ⟨(holds.claims other j claims).1, ?_⟩
    by_cases same : other = thread
    · subst same
      obtain rfl := Option.some.inj (held.symm.trans claims)
      rw [Function.update_self, occupied]
      refine ⟨config.shared.write, holds.order, Nat.lt_succ_self _, rfl, ?_⟩
      rw [← holds.counted, List.getElem?_concat_length]
    · rw [Function.update_of_ne same]
      refine Queued.place holds.counted pointer ?_ (holds.claims other j claims).2
      rintro rfl
      exact same (holds.alone other thread _ claims held)
  · simp only [claimSame]
    exact holds.alone
  · intro j notMarked
    refine Queued.place holds.counted pointer ?_ (holds.stored j notMarked)
    rintro rfl
    exact notMarked (holds.claims thread _ held).1
  · simp only [claimSame]
    exact holds.claimed

theorem MultififoHolds.effect (proper : there.Proper)
    (effect : MultififoEffect size config.shared (config.locals thread) next there event) :
    MultififoHolds size (MultififoEvent.place placed event) ⟨next,
      Function.update config.locals thread there⟩ := by
  cases effect with
  | stays claim occupant silent =>
    rw [MultififoEvent.place_silent silent]
    exact holds.stays proper claim occupant
  | claims free unclaimed claim occupant => exact holds.claimSlot proper free unclaimed claim occupant
  | releases held claim notMarker occupant silent =>
    rw [MultififoEvent.place_silent silent]
    exact holds.releaseSlot proper held claim notMarker occupant
  | takes held claim occupied empty => exact (holds.take proper held claim occupied empty).2
  | places held claim empty occupied => exact holds.place proper held claim empty occupied

end

theorem MultififoHolds.step (holds : MultififoHolds size placed config)
    (move : Thread × MultififoMove) :
    ∃ after event, interleave (fun _ => multififoStep size) config move = some (after, event) ∧
      MultififoHolds size (MultififoEvent.place placed event) after := by
  have marked : ∀ i, (config.locals move.1).claim size = some i → config.shared.storage i = notYet :=
    fun i claims => (holds.claims move.1 i claims).1
  obtain ⟨next, there, event, steps, proper, effect⟩ :=
    multififoStep_effect (holds.proper move.1) marked move.2
  exact ⟨_, event, interleave_some steps, holds.effect proper effect⟩

end Invariant

end MulleCore
