import MulleCore.Concurrent.ConcurrentPointersetCalls
import MulleCore.Concurrent.ConcurrentPointersetHolds
import MulleCore.Library.RelyGuarantee

/-!
A `mulle_concurrent_pointerset` is a set that only grows, and every pointer is new to one caller,
whatever the threads do.
-/

namespace MulleCore

open Library

namespace ConcurrentPointerset

structure Grows (claimed : Nat → Nat → Pointer → Prop) (set : ConcurrentPointerset)
    (grown : Nat → Nat → Pointer → Prop) (after : ConcurrentPointerset) : Prop where
  storage : set.storage ≤ after.storage
  nextStorage : set.nextStorage ≤ after.nextStorage
  mask : ∀ g ≤ set.nextStorage, (after.storages g).mask = (set.storages g).mask
  const : ∀ g ≤ set.nextStorage, isConst (after.storages g) = isConst (set.storages g)
  redirected : ∀ g ≤ set.nextStorage, ∀ i, entry set g i = redirectValue →
    entry after g i = redirectValue
  kept : ∀ g i ptr, claimed g i ptr → grown g i ptr
  retired : ∀ g < set.storage, ∀ i ptr, grown g i ptr → claimed g i ptr
  passed : after.storage = set.storage ∨
    ∀ ptr, ptr ≠ 0 ∧ ptr ≠ redirectValue → (Members after ptr ↔ ∃ i, grown set.storage i ptr)

section Grows

variable {claimed grown : Nat → Nat → Pointer → Prop} {values more : List Pointer}
  {set after : ConcurrentPointerset}

theorem Effect.grows (did : Effect claimed values set grown more after)
    (holds : Holds claimed values set) :
    Grows claimed set grown after := by
  have ordered := holds.generations.ordered
  cases did with
  | stays =>
    exact ⟨Nat.le_refl _, Nat.le_refl _, fun _ _ => rfl, fun _ _ => rfl,
      fun _ _ _ redirect => redirect, fun _ _ _ there => there, fun _ _ _ _ there => there,
      Or.inl rfl⟩
  | @inserts k ptr within variable' storable probed vacant =>
    refine ⟨Nat.le_refl _, Nat.le_refl _, by simp, by simp, ?_, fun _ _ _ there => Or.inl there,
      ?_, Or.inl rfl⟩
    · intro g _ i redirect
      rwa [setEntry_other]
      rintro ⟨rfl, rfl⟩
      exact absurd (vacant.symm.trans redirect) (by decide)
    · rintro g before i ptr (there | ⟨rfl, _⟩)
      · exact there
      · exact absurd before (Nat.lt_irrefl _)
  | @copies j k ptr migrating within there probed vacant =>
    refine ⟨Nat.le_refl _, Nat.le_refl _, by simp, by simp, ?_, fun _ _ _ there => Or.inl there,
      ?_, Or.inl rfl⟩
    · intro g _ i redirect
      rwa [setEntry_other]
      rintro ⟨rfl, rfl⟩
      exact absurd (vacant.symm.trans redirect) (by decide)
    · rintro g before i ptr (there | ⟨rfl, _⟩)
      · exact there
      · exact absurd before (Nat.not_lt_of_lt migrating)
  | increments =>
    exact ⟨Nat.le_refl _, Nat.le_refl _, by simp, by simp, by simp, fun _ _ _ there => there,
      fun _ _ _ _ there => there, Or.inl rfl⟩
  | @freezes i migrating carried =>
    refine ⟨Nat.le_refl _, Nat.le_refl _, by simp, by simp, ?_, fun _ _ _ there => there,
      fun _ _ _ _ there => there, Or.inl rfl⟩
    intro g _ j redirect
    by_cases here : g = set.storage ∧ j = i
    · obtain ⟨rfl, rfl⟩ := here
      exact setEntry_same
    · rwa [setEntry_other here]
  | links current small =>
    refine ⟨Nat.le_refl _, Nat.le_succ _, ?_, ?_, ?_, fun _ _ _ there => there,
      fun _ _ _ _ there => there, Or.inl rfl⟩
    · intro g linked
      rw [ConcurrentStorages.link_linked linked]
    · intro g linked
      rw [ConcurrentStorages.link_linked linked]
    · intro g linked i redirect
      rwa [link_entry linked]
  | swaps migrating redirected =>
    have later := holds.swaps migrating redirected
    refine ⟨Nat.le_succ _, Nat.le_refl _, fun _ _ => rfl, fun _ _ => rfl,
      fun _ _ _ redirect => redirect, fun _ _ _ there => there, fun _ _ _ _ there => there,
      Or.inr fun ptr proper => ?_⟩
    rw [later.members_iff proper, holds.listed]

end Grows

section Knows

/-- What was read as the storage was the current one. What is not in it by now, was not in the set
at some step of the call. -/
def ReadStorage (claimed : Nat → Nat → Pointer → Prop)
    (moments : (ConcurrentPointerset → Prop) → Prop) (set : ConcurrentPointerset) (p : Nat)
    (ptr : Pointer) : Prop :=
  set.storage = p ∨ p < set.storage ∧
    ((∃ i, claimed p i ptr) ∨ moments fun past => ¬ Members past ptr)

def Call.Knows : Call → Prop
  | .add _ ptr => Storable ptr
  | .member ptr => ptr ≠ 0

structure Migration.Knows (set : ConcurrentPointerset) (migration : Migration) : Prop where
  call : migration.call.Knows
  src : migration.src ≤ set.storage
  before : migration.src < migration.next
  linked : migration.next ≤ set.nextStorage

structure CopyKnows (set : ConcurrentPointerset) (migration : Migration) (i : Nat) : Prop where
  knows : migration.Knows set
  variable' : isConst (set.storages migration.src) = false
  redirected : ∀ j < i, entry set migration.src j = redirectValue
  inside : i ≤ (set.storages migration.src).mask

def Carried (claimed : Nat → Nat → Pointer → Prop) (set : ConcurrentPointerset)
    (migration : Migration) (ptr : Pointer) : Prop :=
  (∃ j, claimed (migration.src + 1) j ptr) ∨ migration.src < set.storage

def Caller.Knows (claimed : Nat → Nat → Pointer → Prop) (set : ConcurrentPointerset) (p : Nat)
    (ptr : Pointer) : Caller → Prop
  | .add _ => p ≤ set.storage
  | .copy migration i => CopyKnows set migration i ∧ p = migration.next ∧ claimed migration.src i ptr

structure ProbeKnows (claimed : Nat → Nat → Pointer → Prop) (set : ConcurrentPointerset) (p k : Nat)
    (ptr : Pointer) (caller : Caller) : Prop where
  storable : Storable ptr
  linked : p ≤ set.nextStorage
  variable' : isConst (set.storages p) = false
  within : k ≤ (set.storages p).mask
  probed : Probed claimed set p ptr k
  caller : caller.Knows claimed set p ptr

/-- What a thread knows. It stays true whatever the other threads do. -/
def State.Knows (claimed : Nat → Nat → Pointer → Prop)
    (moments : (ConcurrentPointerset → Prop) → Prop) (set : ConcurrentPointerset) : State → Prop
  | .idle | .aborted => True
  | .begin call => call.Knows
  | .addUsed p _ ptr => Storable ptr ∧ p ≤ set.storage
  | .probe p k ptr caller | .claim p k ptr caller => ProbeKnows claimed set p k ptr caller
  | .increment p ptr caller =>
    caller.Knows claimed set p ptr ∧ p ≤ set.nextStorage ∧ ∃ i, claimed p i ptr
  | .member p k ptr =>
    ptr ≠ 0 ∧ p ≤ set.storage ∧ k ≤ (set.storages p).mask ∧ Probed claimed set p ptr k ∧
      (ptr ≠ redirectValue → ReadStorage claimed moments set p ptr)
  | .migrateStorage p call | .migrateNext p call => call.Knows ∧ p ≤ set.storage
  | .migrateLink p call => call.Knows ∧ p ≤ set.storage ∧ (set.storages p).mask + 1 ≤ 2 ^ 62
  | .copyRead migration i | .copyFreeze migration i => CopyKnows set migration i
  | .copyRetire migration i ptr =>
    CopyKnows set migration i ∧ claimed migration.src i ptr ∧ Carried claimed set migration ptr
  | .migrateSwap migration => migration.Knows set ∧ (isConst (set.storages migration.src) = false →
      ∀ j ≤ (set.storages migration.src).mask, entry set migration.src j = redirectValue)

variable {claimed grown : Nat → Nat → Pointer → Prop} {set after : ConcurrentPointerset}
  {before later : (ConcurrentPointerset → Prop) → Prop}

namespace Grows

variable {p k : Nat} {ptr : Pointer}

section

variable (grows : Grows claimed set grown after)
include grows

theorem probed (linked : p ≤ set.nextStorage)
    (probed : Probed claimed set p ptr k) : Probed grown after p ptr k := by
  intro l within
  obtain ⟨other, different, there⟩ := probed l within
  refine ⟨other, different, ?_⟩
  rw [slot, grows.mask p linked]
  exact grows.kept _ _ _ there

theorem readStorage (proper : ptr ≠ 0 ∧ ptr ≠ redirectValue)
    (recalls : Recalls before later after) (read : ReadStorage claimed before set p ptr) :
    ReadStorage grown later after p ptr := by
  have storage := grows.storage
  rcases read with rfl | ⟨passed, found⟩
  · by_cases same : after.storage = set.storage
    · exact Or.inl same
    · refine Or.inr ⟨by omega, ?_⟩
      by_cases there : ∃ i, grown set.storage i ptr
      · exact Or.inl there
      · refine Or.inr (recalls _ (Or.inr ?_))
        rw [grows.passed.resolve_left same ptr proper]
        exact there
  · refine Or.inr ⟨by omega, ?_⟩
    rcases found with ⟨i, there⟩ | moment
    · exact Or.inl ⟨i, grows.kept _ _ _ there⟩
    · exact Or.inr (recalls _ (Or.inl moment))

theorem migration {migration : Migration} (knows : migration.Knows set) :
    migration.Knows after where
  call := knows.call
  src := Nat.le_trans knows.src grows.storage
  before := knows.before
  linked := Nat.le_trans knows.linked grows.nextStorage

end

theorem copy (grows : Grows claimed set grown after) (ordered : set.storage ≤ set.nextStorage)
    {migration : Migration} {i : Nat} (knows : CopyKnows set migration i) :
    CopyKnows after migration i where
  knows := grows.migration knows.knows
  variable' := by
    rw [grows.const _ (Nat.le_trans knows.knows.src ordered)]
    exact knows.variable'
  redirected := fun j within => grows.redirected _ (Nat.le_trans knows.knows.src ordered) j
    (knows.redirected j within)
  inside := by
    rw [grows.mask _ (Nat.le_trans knows.knows.src ordered)]
    exact knows.inside

section

variable (grows : Grows claimed set grown after)
include grows

theorem caller (ordered : set.storage ≤ set.nextStorage)
    {caller : Caller} (knows : caller.Knows claimed set p ptr) : caller.Knows grown after p ptr := by
  cases caller with
  | add adder => exact Nat.le_trans knows grows.storage
  | copy migration i => exact ⟨grows.copy ordered knows.1, knows.2.1, grows.kept _ _ _ knows.2.2⟩

theorem probe (ordered : set.storage ≤ set.nextStorage)
    {caller : Caller} (knows : ProbeKnows claimed set p k ptr caller) :
    ProbeKnows grown after p k ptr caller where
  storable := knows.storable
  linked := Nat.le_trans knows.linked grows.nextStorage
  variable' := by
    rw [grows.const p knows.linked]
    exact knows.variable'
  within := by
    rw [grows.mask p knows.linked]
    exact knows.within
  probed := grows.probed knows.linked knows.probed
  caller := grows.caller ordered knows.caller

theorem carried {migration : Migration}
    (carried : Carried claimed set migration ptr) : Carried grown after migration ptr := by
  rcases carried with ⟨j, there⟩ | passed
  · exact Or.inl ⟨j, grows.kept _ _ _ there⟩
  · exact Or.inr (Nat.lt_of_lt_of_le passed grows.storage)

theorem state (ordered : set.storage ≤ set.nextStorage) {here : State}
    (recalls : here ≠ .idle → Recalls before later after) (knows : here.Knows claimed before set) :
    here.Knows grown later after := by
  cases here with
  | idle => trivial
  | aborted => trivial
  | begin call => exact knows
  | addUsed p adder ptr => exact ⟨knows.1, Nat.le_trans knows.2 grows.storage⟩
  | probe p k ptr caller => exact grows.probe ordered knows
  | claim p k ptr caller => exact grows.probe ordered knows
  | increment p ptr caller =>
    obtain ⟨caller, linked, i, there⟩ := knows
    exact ⟨grows.caller ordered caller, Nat.le_trans linked grows.nextStorage, i,
      grows.kept _ _ _ there⟩
  | member p k ptr =>
    obtain ⟨nonzero, current, within, probed, read⟩ := knows
    have linked := Nat.le_trans current ordered
    refine ⟨nonzero, Nat.le_trans current grows.storage, ?_, grows.probed linked probed,
      fun open' => ?_⟩
    · rwa [grows.mask p linked]
    · exact grows.readStorage ⟨nonzero, open'⟩ (recalls nofun) (read open')
  | migrateStorage p call => exact ⟨knows.1, Nat.le_trans knows.2 grows.storage⟩
  | migrateNext p call => exact ⟨knows.1, Nat.le_trans knows.2 grows.storage⟩
  | migrateLink p call =>
    obtain ⟨call, current, small⟩ := knows
    refine ⟨call, Nat.le_trans current grows.storage, ?_⟩
    rwa [grows.mask p (Nat.le_trans current ordered)]
  | copyRead migration i => exact grows.copy ordered knows
  | copyFreeze migration i => exact grows.copy ordered knows
  | copyRetire migration i ptr =>
    exact ⟨grows.copy ordered knows.1, grows.kept _ _ _ knows.2.1, grows.carried knows.2.2⟩
  | migrateSwap migration =>
    obtain ⟨knows, redirected⟩ := knows
    have linked := Nat.le_trans knows.src ordered
    refine ⟨grows.migration knows, fun variable' j inside => ?_⟩
    rw [grows.const _ linked] at variable'
    rw [grows.mask _ linked] at inside
    exact grows.redirected _ linked j (redirected variable' j inside)

end

end Grows

end Knows

section Steps

variable {Thread : Type} {claimed : Nat → Nat → Pointer → Prop} {values : List Pointer}
  {set after : ConcurrentPointerset} {moments : (ConcurrentPointerset → Prop) → Prop}
  {thread : Thread}
variable {here there : State} {p i : Nat}

def State.pending : State → Option Pointer
  | .increment _ ptr (.add _) => some ptr
  | _ => none

def Event.insertedIn : Option (Event Thread) → Option (Thread × Pointer)
  | some (.claimed (some thread) _ _ ptr) => some (thread, ptr)
  | _ => none

def Event.newIn : Option (Event Thread) → Option (Thread × Pointer)
  | some (.added thread ptr true) => some (thread, ptr)
  | _ => none

def Event.claim (claimed : Nat → Nat → Pointer → Prop) : Option (Event Thread) → Nat → Nat →
    Pointer → Prop
  | some (.claimed _ p i ptr) => ConcurrentPointerset.claim claimed p i ptr
  | _ => claimed

def Verdict (moments : (ConcurrentPointerset → Prop) → Prop) (after : ConcurrentPointerset) :
    Event Thread → Prop
  | .claimed _ _ _ _ | .added _ _ true => True
  | .added _ ptr false => moments fun past => Members past ptr
  | .member ptr isThere => ptr ≠ redirectValue → moments fun past => Members past ptr ↔ isThere = true
  | .migrated p => p < after.storage ∧ (after.storages p).mask < (after.storages after.storage).mask

structure Does (thread : Thread) (claimed : Nat → Nat → Pointer → Prop) (values : List Pointer)
    (moments : (ConcurrentPointerset → Prop) → Prop) (set : ConcurrentPointerset) (here : State)
    (after : ConcurrentPointerset) (there : State) (event : Option (Event Thread)) : Prop where
  effect : Effect claimed values set (Event.claim claimed event)
    (values ++ (Event.insertedIn event).toList.map Prod.snd) after
  knows : ∀ later, (there ≠ .idle → Recalls moments later after) →
    there.Knows (Event.claim claimed event) later after
  settles : SettleStep thread here.pending (Event.insertedIn event) (Event.newIn event) there.pending
  verdict : ∀ happened, event = some happened → Verdict moments after happened

def DoesSome (thread : Thread) (claimed : Nat → Nat → Pointer → Prop) (values : List Pointer)
    (moments : (ConcurrentPointerset → Prop) → Prop) (set : ConcurrentPointerset) (here : State)
    (result : Result Thread) : Prop :=
  ∃ after there event, result = some (after, there, event) ∧
    Does thread claimed values moments set here after there event

theorem doesSome_silent (effect : Effect claimed values set claimed values after)
    (knows : ∀ later, (there ≠ .idle → Recalls moments later after) → there.Knows claimed later after)
    (pending : there.pending = here.pending) :
    DoesSome thread claimed values moments set here (some (after, there, none)) := by
  refine ⟨_, _, _, rfl, ?_, knows, ?_, nofun⟩
  · simpa [Event.insertedIn, Event.claim] using effect
  · rw [pending]
    exact .keeps

theorem doesSome_reads
    (knows : ∀ later, (there ≠ .idle → Recalls moments later set) → there.Knows claimed later set)
    (pending : there.pending = here.pending) :
    DoesSome thread claimed values moments set here (some (set, there, none)) :=
  doesSome_silent .stays knows pending

theorem doesSome_reports {event : Event Thread} (quiet : here.pending = none)
    (inserted : Event.insertedIn (some event) = none) (new : Event.newIn (some event) = none)
    (same : Event.claim claimed (some event) = claimed) (verdict : Verdict moments set event) :
    DoesSome thread claimed values moments set here (some (set, .idle, some event)) := by
  refine ⟨_, _, _, rfl, ?_, fun _ _ => trivial, ?_, ?_⟩
  · rw [inserted, same]
    simpa using Effect.stays
  · rw [inserted, new, quiet]
    exact .keeps
  · rintro happened ⟨⟩
    exact verdict

theorem doesSome_migrated {call : Call} (effect : Effect claimed values set claimed values after)
    (knows : call.Knows) (quiet : here.pending = none) (passed : p < after.storage)
    (larger : (after.storages p).mask < (after.storages after.storage).mask) :
    DoesSome thread claimed values moments set here
      (some (after, .begin call, some (.migrated p))) := by
  refine ⟨_, _, _, rfl, ?_, fun _ _ => knows, ?_, ?_⟩
  · simpa [Event.insertedIn, Event.claim] using effect
  · rw [quiet]
    exact .keeps
  · rintro happened ⟨⟩
    exact ⟨passed, larger⟩

theorem copyNext_knows {migration : Migration} (copy : CopyKnows set migration i)
    (redirect : entry set migration.src i = redirectValue)
    (later : (ConcurrentPointerset → Prop) → Prop) :
    (copyNext set migration (i + 1)).Knows claimed later set := by
  have redirected : ∀ j < i + 1, entry set migration.src j = redirectValue := by
    intro j within
    rcases Nat.lt_or_eq_of_le (Nat.le_of_lt_succ within) with before | rfl
    · exact copy.redirected j before
    · exact redirect
  rw [copyNext]
  split
  next more => exact ⟨copy.knows, copy.variable', redirected, more⟩
  next last => exact ⟨copy.knows, fun _ j inside => redirected j (by omega)⟩

theorem copyNext_setEntry {migration : Migration} {j : Nat} (p i : Nat) (value : Pointer) :
    copyNext (setEntry set p i value) migration j = copyNext set migration j := by
  simp [copyNext]

@[simp] theorem copyNext_pending {migration : Migration} :
    (copyNext set migration i).pending = none := by
  rw [copyNext]
  split <;> rfl

@[simp] theorem copyValue_pending {migration : Migration} {value : Pointer} :
    (copyValue set migration i value).pending = none := by
  rw [copyValue]
  split
  next => rfl
  next =>
    split
    next => exact copyNext_pending
    next => rfl

theorem copyBegin_knows {migration : Migration} (knows : migration.Knows set)
    (later : (ConcurrentPointerset → Prop) → Prop) :
    (copyBegin set migration).Knows claimed later set := by
  rw [copyBegin]
  split
  next const => exact ⟨knows, fun variable' => absurd (const.symm.trans variable') (by decide)⟩
  next variable' =>
    exact ⟨knows, by simpa using variable', fun j within => absurd within (Nat.not_lt_zero j),
      Nat.zero_le _⟩

@[simp] theorem copyBegin_pending {migration : Migration} :
    (copyBegin set migration).pending = none := by
  rw [copyBegin]
  split <;> rfl

theorem busy_does {ptr : Pointer} {caller : Caller} (quiet : here.pending = none)
    (storable : Storable ptr) (knows : caller.Knows claimed set p ptr)
    (passed : ∀ migration i, caller = .copy migration i → migration.src < set.storage) :
    DoesSome thread claimed values moments set here (busy set p ptr caller) := by
  cases caller with
  | add adder => exact doesSome_reads (fun _ _ => ⟨storable, knows⟩) quiet.symm
  | copy migration i =>
    exact doesSome_reads (fun _ _ => ⟨knows.1, knows.2.2, Or.inr (passed migration i rfl)⟩) quiet.symm

namespace Holds

variable (holds : Holds claimed values set)
variable {i j : Nat} {ptr : Pointer} {here : State} {p k : Nat}

include holds

theorem copyValue_knows {migration : Migration} (copy : CopyKnows set migration i)
    (later : (ConcurrentPointerset → Prop) → Prop) :
    (copyValue set migration i (entry set migration.src i)).Knows claimed later set := by
  have linked := Nat.le_trans copy.knows.src holds.generations.ordered
  rw [copyValue]
  split
  next => exact copy
  next filled =>
    split
    next redirect => exact copyNext_knows copy redirect later
    next open' =>
      have there := holds.agrees _ linked i filled open'
      have before := copy.knows.before
      refine ⟨holds.storable _ i _ there, copy.knows.linked, ?_, Nat.zero_le _, ?_, copy, rfl, there⟩
      · by_contra const
        have first := (holds.const _ copy.knows.linked (by simpa using const)).1
        omega
      · exact fun l within => absurd within (Nat.not_lt_zero l)

theorem carried_of_claimed {migration : Migration} (knows : migration.Knows set)
    (there : claimed migration.next j ptr) : Carried claimed set migration ptr := by
  have near := holds.generations.near
  have before := knows.before
  have linked := knows.linked
  by_cases passed : migration.src < set.storage
  · exact Or.inr passed
  · have next : migration.next = migration.src + 1 := by omega
    exact Or.inl ⟨j, next ▸ there⟩

theorem alreadyPresent_does {caller : Caller} (quiet : here.pending = none)
    (now : ∀ holds : ConcurrentPointerset → Prop, holds set → moments holds) (storable : Storable ptr)
    (linked : p ≤ set.nextStorage) (knows : caller.Knows claimed set p ptr)
    (there : entry set p i = ptr) :
    DoesSome thread claimed values moments set here (alreadyPresent thread set ptr caller) := by
  have found : claimed p i ptr := by
    have agrees := holds.agrees p linked i
    rw [there] at agrees
    exact agrees storable.1 storable.2.1
  cases caller with
  | add adder =>
    refine doesSome_reports quiet rfl rfl rfl (now _ ?_)
    rw [holds.members_iff ⟨storable.1, storable.2.1⟩, holds.listed]
    exact holds.claimed_current knows found
  | copy migration j =>
    obtain ⟨copy, rfl, src⟩ := knows
    exact doesSome_reads (fun _ _ => ⟨copy, src, holds.carried_of_claimed copy.knows found⟩)
      quiet.symm

theorem passed_of_redirect {migration : Migration} (linked : p ≤ set.nextStorage)
    (knows : (Caller.copy migration j).Knows claimed set p ptr)
    (redirect : entry set p i = redirectValue) :
    migration.src < set.storage := by
  have next := holds.redirected p linked i redirect
  have near := holds.generations.near
  obtain ⟨copy, rfl, _⟩ := knows
  have before := copy.knows.before
  omega

theorem probed_next (linked : p ≤ set.nextStorage) (probed : Probed claimed set p ptr k)
    (other : entry set p (slot (set.storages p) ptr k) ≠ ptr)
    (filled : entry set p (slot (set.storages p) ptr k) ≠ 0)
    (open' : entry set p (slot (set.storages p) ptr k) ≠ redirectValue) :
    Probed claimed set p ptr (k + 1) := by
  intro l within
  rcases Nat.lt_or_eq_of_le (Nat.le_of_lt_succ within) with before | rfl
  · exact probed l before
  · exact ⟨_, other, holds.agrees p linked _ filled open'⟩

theorem probeOn_does {caller : Caller} (quiet : here.pending = none)
    (knows : ProbeKnows claimed set p k ptr caller) (probed : Probed claimed set p ptr (k + 1)) :
    DoesSome thread claimed values moments set here (probeOn set p k ptr caller) := by
  rw [probeOn]
  split
  next last =>
    refine busy_does quiet knows.storable knows.caller ?_
    rintro migration i rfl
    obtain ⟨copy, rfl, _⟩ := knows.caller
    have before := copy.knows.before
    have linked := copy.knows.linked
    have near := holds.generations.near
    by_contra current
    have same : migration.next = set.nextStorage := by omega
    have full : k = (set.storages migration.next).mask := Nat.le_antisymm knows.within last
    rw [full, same] at probed
    exact holds.roomy (by omega) probed
  next more =>
    exact doesSome_reads (fun _ _ =>
      ⟨knows.storable, knows.linked, knows.variable', Nat.lt_of_not_le more, probed, knows.caller⟩)
        quiet.symm

theorem claim_does {caller : Caller} (knows : ProbeKnows claimed set p k ptr caller)
    (vacant : entry set p (slot (set.storages p) ptr k) = 0) :
    DoesSome thread claimed values moments set (.claim p k ptr caller)
      (some (setEntry set p (slot (set.storages p) ptr k) ptr, .increment p ptr caller,
        some (.claimed (adderOf thread caller) p (slot (set.storages p) ptr k) ptr))) := by
  have ordered := holds.generations.ordered
  have near := holds.generations.near
  have current : set.storage ≤ p := holds.storage_le knows.variable' slot_le (by rw [vacant]; decide)
  have there : ConcurrentPointerset.claim claimed p (slot (set.storages p) ptr k) ptr p
    (slot (set.storages p) ptr k) ptr :=
    Or.inr ⟨rfl, rfl, rfl⟩
  cases caller with
  | add adder =>
    obtain rfl : p = set.storage := Nat.le_antisymm knows.caller current
    have effect : Effect claimed values set _ (values ++ [ptr]) _ :=
      .inserts knows.within knows.variable' knows.storable knows.probed vacant
    refine ⟨_, _, _, rfl, effect, fun _ _ => ⟨Nat.le_refl _, ordered, _, there⟩, .begins, ?_⟩
    rintro happened ⟨⟩
    trivial
  | copy migration i =>
    obtain ⟨copy, rfl, src⟩ := knows.caller
    have before := copy.knows.before
    have linked := copy.knows.linked
    obtain ⟨j, here⟩ := holds.claimed_current copy.knows.src src
    have migrating : set.storage < set.nextStorage := by
      by_contra same
      -- what is copied is in the current storage already
      have equal : migration.next = set.storage := by omega
      have vacantHere := vacant
      have probed := knows.probed
      rw [equal] at vacantHere probed
      exact holds.fresh probed vacantHere here
    have notCurrent : migration.next ≠ set.storage := by
      intro equal
      have vacantHere := vacant
      have probed := knows.probed
      rw [equal] at vacantHere probed
      exact holds.fresh probed vacantHere here
    have next : migration.next = set.nextStorage := by omega
    have effect : Effect claimed values set _ values _ :=
      .copies migrating (next ▸ knows.within) here (next ▸ knows.probed) (next ▸ vacant)
    rw [← next] at effect
    have grows := effect.grows holds
    refine ⟨_, _, _, rfl, ?_, fun _ _ => ⟨?_, linked, _, there⟩, .keeps, ?_⟩
    · simpa [Event.insertedIn, Event.claim, adderOf] using effect
    · have here : (Caller.copy migration i).Knows claimed set migration.next ptr := ⟨copy, rfl, src⟩
      exact grows.caller ordered here
    · rintro happened ⟨⟩
      trivial

theorem inserted_does {caller : Caller}
    (knows : (State.increment p ptr caller).Knows claimed moments set) :
    DoesSome thread claimed values moments set (.increment p ptr caller)
      (inserted thread (incrementUsed set p) ptr caller) := by
  obtain ⟨knows, linked, i, there⟩ := knows
  have effect : Effect claimed values set claimed values (incrementUsed set p) := .increments
  have grows := effect.grows holds
  cases caller with
  | add adder =>
    refine ⟨_, _, _, rfl, ?_, fun _ _ => trivial, .finishes, ?_⟩
    · simpa [Event.insertedIn, Event.claim] using effect
    · rintro happened ⟨⟩
      trivial
  | copy migration j =>
    obtain ⟨copy, rfl, src⟩ := knows
    have carried := holds.carried_of_claimed copy.knows there
    exact doesSome_silent effect
      (fun _ _ => ⟨grows.copy holds.generations.ordered copy, src, grows.carried carried⟩) rfl

theorem doesSome_freezes {migration : Migration}
    (copy : CopyKnows set migration i) (current : migration.src = set.storage)
    (effect : Effect claimed values set claimed values (setEntry set set.storage i redirectValue))
    (pending : (copyNext set migration (i + 1)).pending = here.pending) :
    DoesSome thread claimed values moments set here
      (some (setEntry set migration.src i redirectValue, copyNext set migration (i + 1), none)) := by
  rw [current]
  have copyAfter := (effect.grows holds).copy holds.generations.ordered copy
  refine doesSome_silent effect (fun later _ => ?_) pending
  rw [← copyNext_setEntry set.storage i redirectValue]
  exact copyNext_knows copyAfter (by rw [current]; exact setEntry_same) later

theorem proceed_does (knows : here.Knows claimed moments set)
    (now : here ≠ .idle → ∀ holds : ConcurrentPointerset → Prop, holds set → moments holds) :
    DoesSome thread claimed values moments set here (proceed thread set here) := by
  have ordered := holds.generations.ordered
  have near := holds.generations.near
  cases here with
  | idle => exact doesSome_reads (fun _ _ => trivial) rfl
  | aborted => exact doesSome_reads (fun _ _ => trivial) rfl
  | begin call =>
    cases call with
    | add adder ptr => exact doesSome_reads (fun _ _ => ⟨knows, Nat.le_refl _⟩) rfl
    | member ptr =>
      refine doesSome_reads (fun _ _ => ⟨knows, Nat.le_refl _, Nat.zero_le _, ?_,
        fun _ => Or.inl rfl⟩) rfl
      exact fun l within => absurd within (Nat.not_lt_zero l)
  | addUsed p adder ptr =>
    obtain ⟨storable, current⟩ := knows
    have linked := Nat.le_trans current ordered
    rw [proceed.eq_def]
    dsimp only
    split
    next => exact doesSome_reads (fun _ _ => ⟨storable, current⟩) rfl
    next n used =>
      have variable' : isConst (set.storages p) = false := by simp [isConst, used]
      split
      next => exact doesSome_reads (fun _ _ => ⟨storable, current⟩) rfl
      next =>
        exact doesSome_reads (fun _ _ => ⟨storable, linked, variable', Nat.zero_le _,
          fun l within => absurd within (Nat.not_lt_zero l), current⟩) rfl
  | probe p k ptr caller =>
    have proper : ¬ (ptr = 0 ∨ ptr = redirectValue ∨ ptr = tombstonePointer) := by
      simpa [Storable] using knows.storable
    rw [proceed.eq_def]
    dsimp only
    rw [if_neg proper, if_neg (Nat.not_lt_of_le slot_le)]
    split
    next same =>
      exact holds.alreadyPresent_does rfl (now (by simp)) knows.storable knows.linked knows.caller
        same
    next other =>
      split
      next => exact doesSome_reads (fun _ _ => knows) rfl
      next filled =>
        split
        next redirect =>
          refine busy_does rfl knows.storable knows.caller ?_
          rintro migration i rfl
          exact holds.passed_of_redirect knows.linked knows.caller redirect
        next open' =>
          exact holds.probeOn_does rfl knows (holds.probed_next knows.linked knows.probed
            other filled open')
  | claim p k ptr caller =>
    rw [proceed.eq_def]
    dsimp only
    rw [if_neg (Nat.not_lt_of_le slot_le)]
    split
    next vacant => exact holds.claim_does knows vacant
    next filled =>
      split
      next redirect =>
        refine busy_does rfl knows.storable knows.caller ?_
        rintro migration i rfl
        exact holds.passed_of_redirect knows.linked knows.caller redirect
      next open' =>
        split
        next same =>
          exact holds.alreadyPresent_does rfl (now (by simp)) knows.storable knows.linked
            knows.caller same
        next other =>
          exact holds.probeOn_does rfl knows (holds.probed_next knows.linked knows.probed
            other filled open')
  | increment p ptr caller => exact holds.inserted_does knows
  | member p k ptr =>
    obtain ⟨nonzero, current, within, probed, read⟩ := knows
    have linked := Nat.le_trans current ordered
    -- what is not in the storage, was not in the set when that was current, or is not now
    have absent : (∀ i, ¬ claimed p i ptr) →
        Verdict moments set (.member ptr false : Event Thread) := by
      intro nowhere open'
      rcases read open' with same | ⟨_, ⟨i, there⟩ | moment⟩
      · refine now (by simp) _ ?_
        rw [holds.members_iff ⟨nonzero, open'⟩, holds.listed, same]
        simpa using nowhere
      · exact absurd there (nowhere i)
      · simpa using moment
    rw [proceed.eq_def]
    dsimp only
    rw [if_neg (Nat.not_lt_of_le slot_le)]
    split
    next vacant => exact doesSome_reports rfl rfl rfl rfl (absent fun i => holds.fresh probed vacant)
    next filled =>
      split
      next same =>
        refine doesSome_reports rfl rfl rfl rfl fun open' => now (by simp) _ ?_
        have agrees := holds.agrees p linked _ filled
        rw [same] at agrees
        rw [holds.members_iff ⟨nonzero, open'⟩, holds.listed]
        simpa using holds.claimed_current current (agrees open')
      next other =>
        split
        next redirect => exact doesSome_reads (fun _ _ => ⟨nonzero, current⟩) rfl
        next open' =>
          have more := holds.probed_next linked probed other filled open'
          split
          next last =>
            have full : k = (set.storages p).mask := Nat.le_antisymm within last
            rw [full] at more
            exact doesSome_reports rfl rfl rfl rfl (absent fun i => holds.cycled more)
          next inside =>
            refine doesSome_reads (fun _ recalls => ⟨nonzero, current, Nat.lt_of_not_le inside,
              more, fun open' => ?_⟩) rfl
            exact (Effect.grows .stays holds).readStorage ⟨nonzero, open'⟩ (recalls (by simp))
              (read open')
  | migrateStorage p call =>
    rw [proceed]
    split
    next => exact doesSome_reads (fun _ _ => knows) rfl
    next other =>
      have passed : p < set.storage := Nat.lt_of_le_of_ne knows.2 (Ne.symm other)
      exact doesSome_migrated .stays knows.1 rfl passed (holds.generations.size_lt passed ordered)
  | migrateNext p call =>
    rw [proceed]
    split
    next other =>
      have before : p < set.nextStorage :=
        Nat.lt_of_le_of_ne (Nat.le_trans knows.2 ordered) (Ne.symm other)
      exact doesSome_reads (fun later _ => copyBegin_knows ⟨knows.1, knows.2, before, Nat.le_refl _⟩
        later) copyBegin_pending
    next =>
      split
      next => exact doesSome_reads (fun _ _ => trivial) rfl
      next small => exact doesSome_reads (fun _ _ => ⟨knows.1, knows.2, by omega⟩) rfl
  | migrateLink p call =>
    obtain ⟨call', current, small⟩ := knows
    rw [proceed]
    split
    next same =>
      obtain rfl : p = set.storage := by omega
      have effect : Effect claimed values set claimed values _ := .links same small
      have linked : Migration.Knows
        (set.link (allocStorage (((set.storages set.storage).mask + 1) * 2)))
          ⟨call, set.storage, set.nextStorage + 1⟩ :=
            ⟨call', Nat.le_refl _, Nat.lt_succ_of_le ordered, Nat.le_refl _⟩
      exact doesSome_silent effect (fun later _ => copyBegin_knows linked later) copyBegin_pending
    next other =>
      have before : p < set.nextStorage :=
        Nat.lt_of_le_of_ne (Nat.le_trans current ordered) (Ne.symm other)
      exact doesSome_reads (fun later _ => copyBegin_knows ⟨call', current, before, Nat.le_refl _⟩
        later) copyBegin_pending
  | copyRead migration i =>
    rw [proceed, if_neg (Nat.not_lt_of_le knows.inside)]
    exact doesSome_reads (fun later _ => holds.copyValue_knows knows later) copyValue_pending
  | copyFreeze migration i =>
    have copy : CopyKnows set migration i := knows
    have src := copy.knows.src
    have before := copy.knows.before
    have linked := copy.knows.linked
    rw [proceed, if_neg (Nat.not_lt_of_le copy.inside)]
    split
    next vacant =>
      have current : migration.src = set.storage := by
        refine Nat.le_antisymm src (holds.storage_le copy.variable' copy.inside ?_)
        rw [vacant]
        decide
      have effect : Effect claimed values set claimed values
          (setEntry set set.storage i redirectValue) := by
        refine .freezes (by omega) fun ptr there => ?_
        rw [← current] at there
        exact absurd vacant (holds.filled there)
      exact doesSome_freezes holds copy current effect copyNext_pending
    next => exact doesSome_reads (fun later _ => holds.copyValue_knows copy later) copyValue_pending
  | copyRetire migration i ptr =>
    obtain ⟨copy, src', carried⟩ := knows
    have src := copy.knows.src
    have before := copy.knows.before
    have linked := copy.knows.linked
    rw [proceed, if_neg (Nat.not_lt_of_le copy.inside)]
    split
    next same =>
      have current : migration.src = set.storage := by
        refine Nat.le_antisymm src (holds.storage_le copy.variable' copy.inside ?_)
        rw [same]
        exact (holds.storable _ i ptr src').2.1
      have effect : Effect claimed values set claimed values
          (setEntry set set.storage i redirectValue) := by
        refine .freezes (by omega) fun other there => ?_
        rw [← current] at there ⊢
        rw [holds.unique _ i other ptr there src']
        exact carried.resolve_right (by omega)
      exact doesSome_freezes holds copy current effect copyNext_pending
    next => exact doesSome_reads (fun later _ => holds.copyValue_knows copy later) copyValue_pending
  | migrateSwap migration =>
    obtain ⟨knows, redirected⟩ := knows
    have src := knows.src
    have before := knows.before
    have linked := knows.linked
    rw [proceed]
    split
    next same =>
      have next : migration.next = set.storage + 1 := by omega
      rw [← same] at redirected
      rw [← same, next]
      exact doesSome_migrated (.swaps (by omega) redirected) knows.call rfl (Nat.lt_succ_self _)
        (holds.generations.grown _ (by omega))
    next other =>
      have passed : migration.src < set.storage := Nat.lt_of_le_of_ne src (Ne.symm other)
      exact doesSome_migrated .stays knows.call rfl passed (holds.generations.size_lt passed ordered)

end Holds

theorem Holds.step_does (holds : Holds claimed values set) (knows : here.Knows claimed moments set)
    (now : here ≠ .idle → ∀ holds : ConcurrentPointerset → Prop, holds set → moments holds)
    (move : Move) :
    DoesSome thread claimed values moments set here (step thread set here move) := by
  have stays : DoesSome thread claimed values moments set here (some (set, here, none)) := by
    refine doesSome_reads (fun later recalls => ?_) rfl
    exact (Effect.grows .stays holds).state holds.generations.ordered recalls knows
  cases move with
  | proceed => exact holds.proceed_does knows now
  | add adder ptr =>
    rw [step]
    split
    next => exact stays
    next proper =>
      obtain ⟨idle, storable⟩ : here = .idle ∧ Storable ptr := by simpa [Storable] using proper
      subst idle
      exact doesSome_reads (fun _ _ => storable) rfl
  | member ptr =>
    rw [step]
    split
    next => exact stays
    next proper =>
      obtain ⟨idle, nonzero⟩ : here = .idle ∧ ptr ≠ 0 := by simpa using proper
      subst idle
      exact doesSome_reads (fun _ _ => nonzero) rfl

end Steps

section Runs

variable {Thread : Type}
variable {size : Nat}

def insertedIn (events : List (Option (Event Thread))) : List (Thread × Pointer) :=
  events.filterMap Event.insertedIn

def newIn (events : List (Option (Event Thread))) : List (Thread × Pointer) :=
  events.filterMap Event.newIn

def claimedIn (events : List (Option (Event Thread))) (p i : Nat) (ptr : Pointer) : Prop :=
  ∃ adder, some (.claimed adder p i ptr) ∈ events

theorem insertedIn_concat (events : List (Option (Event Thread))) (event : Option (Event Thread)) :
    insertedIn (events ++ [event]) = insertedIn events ++ (Event.insertedIn event).toList := by
  cases found : Event.insertedIn event <;> simp [insertedIn, found]

theorem newIn_concat (events : List (Option (Event Thread))) (event : Option (Event Thread)) :
    newIn (events ++ [event]) = newIn events ++ (Event.newIn event).toList := by
  cases found : Event.newIn event <;> simp [newIn, found]

theorem claimedIn_concat (events : List (Option (Event Thread))) (event : Option (Event Thread)) :
    claimedIn (events ++ [event]) = Event.claim (claimedIn events) event := by
  funext p i ptr
  apply propext
  rcases event with _ | event
  · simp [claimedIn, Event.claim]
  · cases event with
    | claimed adder q j other =>
      simp only [claimedIn, Event.claim, claim, List.mem_append, List.mem_singleton,
        Option.some.injEq, Event.claimed.injEq]
      constructor
      · rintro ⟨by', old | ⟨_, rfl, rfl, rfl⟩⟩
        · exact Or.inl ⟨by', old⟩
        · exact Or.inr ⟨rfl, rfl, rfl⟩
      · rintro (⟨by', old⟩ | ⟨rfl, rfl, rfl⟩)
        · exact ⟨by', Or.inl old⟩
        · exact ⟨adder, Or.inr ⟨rfl, rfl, rfl, rfl⟩⟩
    | _ => simp [claimedIn, Event.claim]

variable [DecidableEq Thread]

def Good (events : List (Option (Event Thread))) (set : ConcurrentPointerset) : Prop :=
  Holds (claimedIn events) ((insertedIn events).map Prod.snd) set

def Effects (mover : Thread) (events : List (Option (Event Thread))) (set : ConcurrentPointerset)
    (event : Option (Event Thread)) (after : ConcurrentPointerset) : Prop :=
  Effect (claimedIn events) ((insertedIn events).map Prod.snd) set (claimedIn (events ++ [event]))
      ((insertedIn (events ++ [event])).map Prod.snd) after ∧
    ∃ pending next, SettleStep mover pending (Event.insertedIn event) (Event.newIn event) next

def Knows (thread : Thread) (events : List (Option (Event Thread)))
    (moments : (ConcurrentPointerset → Prop) → Prop) (set : ConcurrentPointerset) (here : State) :
    Prop :=
  here.Knows (claimedIn events) moments set ∧
    Settled thread (insertedIn events) (newIn events) here.pending

theorem relyGuarantee :
    RelyGuarantee (@ConcurrentPointerset.step Thread) .idle Good Effects Knows
      (fun _ moments _ event after => Verdict moments after event) := by
  constructor
  · intro mover thread events set event after before later here different holds did recalls knows
    obtain ⟨effect, pending, next, settles⟩ := did
    refine ⟨(effect.grows holds).state holds.generations.ordered recalls knows.1, ?_⟩
    rw [insertedIn_concat, newIn_concat]
    exact knows.2.other different settles
  · intro thread events set here moments move holds knows now
    have done : DoesSome thread _ _ moments set here (step thread set here move) :=
      Holds.step_does holds knows.1 now move
    obtain ⟨after, there, event, stepped, does⟩ := done
    have effect := does.effect
    rw [← List.map_append, ← insertedIn_concat, ← claimedIn_concat] at effect
    refine ⟨after, there, event, stepped, Holds.effect holds effect, ⟨effect, _, _, does.settles⟩,
      ?_, does.verdict⟩
    intro later recalls
    refine ⟨?_, ?_⟩
    · rw [claimedIn_concat]
      exact does.knows later recalls
    · rw [insertedIn_concat, newIn_concat]
      exact knows.2.step does.settles

omit [DecidableEq Thread] in
theorem initial_holds (power : size < 4 ∨ ∃ e ≤ 63, size = 2 ^ e) :
    Holds (fun _ _ _ => False) [] (initial Thread size).shared where
  generations := ConcurrentStorages.init_generations _
  powers := by
    intro g _
    simp only [initial, ConcurrentStorages.init]
    split
    next => exact ⟨0, by omega, rfl⟩
    next nonzero =>
      simp only [allocStorage]
      split
      next => exact ⟨2, by omega, rfl⟩
      next large =>
        obtain ⟨e, within, rfl⟩ := power.resolve_left large
        have positive : 0 < 2 ^ e := Nat.two_pow_pos e
        exact ⟨e, within, by omega⟩
  const := fun g linked _ => ⟨Nat.le_zero.mp linked, fun _ _ => id⟩
  linked := nofun
  storable := nofun
  stored := nofun
  agrees := by
    intro g _ j filled
    simp only [initial, ConcurrentStorages.init, entry] at filled
    split at filled <;> exact absurd rfl filled
  unique := nofun
  single := nofun
  path := nofun
  carried := fun g before => absurd before (Nat.not_lt_zero g)
  redirected := by
    intro g _ j redirect
    simp only [initial, ConcurrentStorages.init, entry] at redirect
    split at redirect <;> exact absurd redirect (by decide : (0 : Pointer) ≠ redirectValue)
  retired := fun g before => absurd before (Nat.not_lt_zero g)
  ahead := fun again => absurd again (Nat.lt_irrefl _)
  listed := by simp
  nodup := List.nodup_nil

omit [DecidableEq Thread] in
theorem initial_good (power : size < 4 ∨ ∃ e ≤ 63, size = 2 ^ e) :
    @Good Thread [] (initial Thread size).shared := by
  have none : claimedIn ([] : List (Option (Event Thread))) = fun _ _ _ => False := by
    funext p i ptr
    simp [claimedIn]
  rw [Good, none]
  exact initial_holds power

theorem initial_knows (size : Nat) (thread : Thread)
    (moments : (ConcurrentPointerset → Prop) → Prop) :
    Knows thread [] moments (initial Thread size).shared ((initial Thread size).locals thread) :=
  ⟨trivial, rfl⟩

/-- The set has what was ever inserted, every pointer once. It was new to the one thread that has
claimed the entry, when that returns, and it is the pointer of its call. -/
theorem pointerset_inserts_once (size : Nat) (power : size < 4 ∨ ∃ e ≤ 63, size = 2 ^ e)
    (moves : List (Thread × Move)) :
    ∃ config events, run (interleave step) (initial Thread size) moves = some (config, events) ∧
      ((insertedIn events).map Prod.snd).Nodup ∧
      (∀ ptr, ptr ≠ 0 → ptr ≠ redirectValue →
        (Members config.shared ptr ↔ ptr ∈ (insertedIn events).map Prod.snd)) ∧
      (∀ i j, entry config.shared config.shared.storage i =
        entry config.shared config.shared.storage j →
        entry config.shared config.shared.storage i ≠ 0 →
        entry config.shared config.shared.storage i ≠ redirectValue → i = j) ∧
      (∀ thread, Settled thread (insertedIn events) (newIn events) (config.locals thread).pending) ∧
      (∀ n event, events[n]? = some (some event) → ∃ thread called,
        CallOf step (initial Thread size) .idle moves thread n called ∧
        moves[n]? = some (thread, .proceed) ∧
          event.Answers thread called) ∧
      ∀ n thread move event, moves[n]? = some (thread, move) → events[n]? = some (some event) →
        ∃ after, visited step (initial Thread size) moves (n + 1) = some after ∧
          Verdict (Moments step (initial Thread size) .idle moves thread n) after.shared event := by
  have good : Good [] (initial Thread size).shared := initial_good power
  have knows := @initial_knows Thread _ size
  obtain ⟨config, events, here⟩ := relyGuarantee.comesTo good knows moves
  have holds : Holds (claimedIn events) ((insertedIn events).map Prod.snd) config.shared := here.good
  refine ⟨config, events, here.ran, holds.nodup, ?_, ?_, fun thread => (here.knows thread).2,
    fun n event reported => ?_, ?_⟩
  · exact fun ptr nonzero open' => holds.members_iff ⟨nonzero, open'⟩
  · intro i j same filled open'
    have first := holds.agrees _ holds.generations.ordered i filled open'
    have second := holds.agrees _ holds.generations.ordered j (same ▸ filled) (same ▸ open')
    rw [← same] at second
    exact holds.single _ i j _ first second
  · exact (calls_served.answered (fun _ => rfl) here.ran reported).resolve_left nofun
  · intro n thread move event moved reported
    obtain ⟨_, after, _, visits, verdict⟩ :=
      relyGuarantee.reported good knows moves here.ran moved reported
    exact ⟨after, visits, verdict⟩

theorem pointerset_inserts_once_empty :
    ∃ config events, run (interleave step) (initial Bool 0)
        [(true, .add .insert 16), (false, .add .register 16), (true, .proceed), (false, .proceed)] =
          some (config, events) ∧
      ((insertedIn events).map Prod.snd).Nodup := by
  obtain ⟨config, events, ran, nodup, _⟩ := pointerset_inserts_once 0 (Or.inl (by decide))
    [(true, .add .insert 16), (false, .add .register 16), (true, .proceed), (false, .proceed)]
  exact ⟨config, events, ran, nodup⟩

end Runs

end ConcurrentPointerset

end MulleCore
