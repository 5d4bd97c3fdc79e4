import Mathlib.Data.UInt
import MulleCore.Data.Hash
import MulleCore.Library.Chains
import MulleCore.Library.Simulation

/-!
`mulle-concurrent-linkedlist.c`, with a step for each atomic read, each CAS and each round of the
loop that looks for the tail. A result of `none` stands for a failed `assert` or an access to
NULL.
-/

namespace MulleCore

open Library

/-- With the `_next` of all entries, and the callers that own the entries that are unlinked. -/
structure ConcurrentLinkedlist (Thread : Type) where
  head : Pointer
  next : Pointer → Pointer
  owner : Pointer → Option Thread

inductive RemoveAllCaller where
  | client
  | removeOne (entry prevChain : Pointer)

inductive LinkedlistState where
  | idle
  | addRead (entry : Pointer)
  | addCas (entry head : Pointer)
  | removeAllRead (caller : RemoveAllCaller)
  | removeAllCas (caller : RemoveAllCaller) (head : Pointer)
  | removeOneTail (entry prevChain chain tail : Pointer)
  | removeOneCas (entry chain : Pointer)

structure LinkedlistThread where
  state : LinkedlistState
  chains : List Pointer

/-- What a thread does next. An idle thread may also unlink the first entry of a chain that it was
given, or leave an entry to another thread. -/
inductive LinkedlistMove (Thread : Type) where
  | add (entry : Pointer)
  | removeOne
  | removeAll
  | unlink
  | give (entry : Pointer) (receiver : Thread)
  | proceed (spurious : Bool)

inductive LinkedlistEvent (Thread : Type) where
  | adds (thread : Thread) (entry : Pointer)
  | removedOne (thread : Thread) (entry : Pointer)
  | removedAll (thread : Thread) (chain : Pointer)
  | unlinked (thread : Thread) (entry : Pointer)
deriving DecidableEq

section Steps

variable {Thread : Type} [DecidableEq Thread]

abbrev LinkedlistResult (Thread : Type) : Type :=
  Option (ConcurrentLinkedlist Thread × LinkedlistThread × Option (LinkedlistEvent Thread))

def ConcurrentLinkedlist.setNext (list : ConcurrentLinkedlist Thread) (entry link : Pointer) :
    ConcurrentLinkedlist Thread :=
  { list with next := Function.update list.next entry link }

def ConcurrentLinkedlist.own (list : ConcurrentLinkedlist Thread) (entry : Pointer)
    (owner : Option Thread) :
    ConcurrentLinkedlist Thread :=
  { list with owner := Function.update list.owner entry owner }

def removeOneReturn (thread : Thread) (list : ConcurrentLinkedlist Thread) (chains : List Pointer)
    (entry : Pointer) :
    LinkedlistResult Thread :=
  some (if entry = 0 then list else list.own entry (some thread), ⟨.idle, chains⟩,
    some (.removedOne thread entry))

def removeOneCheck (thread : Thread) (list : ConcurrentLinkedlist Thread) (chains : List Pointer)
    (entry chain : Pointer) : LinkedlistResult Thread :=
  if chain = 0 then removeOneReturn thread list chains entry
  else some (list, ⟨.removeOneCas entry chain, chains⟩, none)

def removeOneChain (thread : Thread) (list : ConcurrentLinkedlist Thread) (chains : List Pointer)
    (entry prevChain chain : Pointer) : LinkedlistResult Thread :=
  if prevChain = 0 then removeOneCheck thread list chains entry chain
  else some (list, ⟨.removeOneTail entry prevChain chain chain, chains⟩, none)

def removeAllReturn (thread : Thread) (list : ConcurrentLinkedlist Thread) (chains : List Pointer)
    (chain : Pointer) : RemoveAllCaller → LinkedlistResult Thread
  | .client =>
    some (list, ⟨.idle, if chain = 0 then chains else chain :: chains⟩,
      some (.removedAll thread chain))
  | .removeOne entry prevChain =>
    if chain = 0 then removeOneCheck thread list chains entry prevChain
    else if entry = 0 then
      removeOneChain thread (list.setNext chain 0) chains chain prevChain (list.next chain)
    else removeOneChain thread list chains entry prevChain chain

def linkedlistProceed (thread : Thread) (list : ConcurrentLinkedlist Thread) (here : LinkedlistThread)
    (spurious : Bool) : LinkedlistResult Thread :=
  match here.state with
  | .idle => some (list, here, none)
  | .addRead entry =>
    if list.head = entry then none
    else some (list.setNext entry list.head, ⟨.addCas entry list.head, here.chains⟩, none)
  | .addCas entry head =>
    if list.head = head then some ({ list with head := entry }, ⟨.idle, here.chains⟩, none)
    else some (list, ⟨.addRead entry, here.chains⟩, none)
  | .removeAllRead caller =>
    if list.head = 0 then removeAllReturn thread list here.chains 0 caller
    else some (list, ⟨.removeAllCas caller list.head, here.chains⟩, none)
  | .removeAllCas caller head =>
    if list.head = head ∧ spurious = false then
      removeAllReturn thread { list with head := 0 } here.chains head caller
    else some (list, ⟨.removeAllRead caller, here.chains⟩, none)
  | .removeOneTail entry prevChain chain tail =>
    if tail = 0 then none
    else if list.next tail = 0 then
      some (list.setNext tail prevChain, ⟨.removeOneCas entry chain, here.chains⟩, none)
    else if list.next tail = prevChain then none
    else some (list, ⟨.removeOneTail entry prevChain chain (list.next tail), here.chains⟩, none)
  | .removeOneCas entry chain =>
    if list.head = 0 ∧ spurious = false then
      removeOneReturn thread { list with head := chain } here.chains entry
    else some (list, ⟨.removeAllRead (.removeOne entry chain), here.chains⟩, none)

def linkedlistBegin (thread : Thread) (list : ConcurrentLinkedlist Thread) (chains : List Pointer) :
    LinkedlistMove Thread → LinkedlistResult Thread
  | .add entry =>
    if list.owner entry ≠ some thread then some (list, ⟨.idle, chains⟩, none)
    else if entry = 0 ∨ list.next entry ≠ 0 then none
    else some (list.own entry none, ⟨.addRead entry, chains⟩, some (.adds thread entry))
  | .removeOne => some (list, ⟨.removeAllRead (.removeOne 0 0), chains⟩, none)
  | .removeAll => some (list, ⟨.removeAllRead .client, chains⟩, none)
  | .unlink =>
    match chains with
    | [] => some (list, ⟨.idle, []⟩, none)
    | entry :: rest =>
      some ((list.setNext entry 0).own entry (some thread),
        ⟨.idle, if list.next entry = 0 then rest else list.next entry :: rest⟩,
        some (.unlinked thread entry))
  | .give entry receiver =>
    if list.owner entry = some thread then
      some (list.own entry (some receiver), ⟨.idle, chains⟩, none)
    else some (list, ⟨.idle, chains⟩, none)
  | .proceed _ => some (list, ⟨.idle, chains⟩, none)

/-- A thread inside of a call can only go on with it. -/
def linkedlistStep (thread : Thread) (list : ConcurrentLinkedlist Thread) (here : LinkedlistThread) :
    LinkedlistMove Thread → LinkedlistResult Thread
  | .proceed spurious => linkedlistProceed thread list here spurious
  | move =>
    match here.state with
    | .idle => linkedlistBegin thread list here.chains move
    | _ => some (list, here, none)

def linkedlistInit (Thread : Type) (owner : Pointer → Option Thread) :
    Config (ConcurrentLinkedlist Thread) Thread LinkedlistThread :=
  ⟨⟨0, fun _ => 0, Function.update owner 0 none⟩, fun _ => ⟨.idle, []⟩⟩

end Steps

/-!
Every entry is at one place at any time, whatever the threads do.
-/

/-- Where an entry can be: in the list, in the hands of a thread that is inside of `add` or
`remove_one`, in a chain that `remove_all` returned, or unlinked and owned. -/
inductive LinkedlistPlace (Thread : Type) where
  | list
  | adding (thread : Thread)
  | taken (thread : Thread)
  | chain (thread : Thread)
  | prevChain (thread : Thread)
  | held (thread : Thread)
  | owned (thread : Thread)
deriving DecidableEq

def LinkedlistPlace.mover {Thread : Type} : LinkedlistPlace Thread → Option Thread
  | .list | .owned _ => none
  | .adding thread | .taken thread | .chain thread | .prevChain thread | .held thread => some thread

structure LinkedlistHands where
  adding : Pointer
  taken : Pointer
  chain : Pointer
  prevChain : Pointer
  chains : List Pointer

namespace LinkedlistState

def adding : LinkedlistState → Pointer
  | .addRead entry | .addCas entry _ => entry
  | _ => 0

def taken : LinkedlistState → Pointer
  | .removeAllRead (.removeOne entry _) | .removeAllCas (.removeOne entry _) _ => entry
  | .removeOneTail entry _ _ _ | .removeOneCas entry _ => entry
  | _ => 0

def chain : LinkedlistState → Pointer
  | .removeOneTail _ _ chain _ | .removeOneCas _ chain => chain
  | _ => 0

def prevChain : LinkedlistState → Pointer
  | .removeAllRead (.removeOne _ prevChain) | .removeAllCas (.removeOne _ prevChain) _ => prevChain
  | .removeOneTail _ prevChain _ _ => prevChain
  | _ => 0

def Proper (next : Pointer → Pointer) : LinkedlistState → Prop
  | .idle | .removeAllRead .client => True
  | .addRead entry => entry ≠ 0
  | .addCas entry head => entry ≠ 0 ∧ next entry = head
  | .removeAllRead (.removeOne entry prevChain) => entry = 0 ↔ prevChain = 0
  | .removeAllCas .client head => head ≠ 0
  | .removeAllCas (.removeOne entry prevChain) head => (entry = 0 ↔ prevChain = 0) ∧ head ≠ 0
  | .removeOneTail entry prevChain chain tail => entry ≠ 0 ∧ prevChain ≠ 0 ∧
      ∃ before after, LinkChain next chain (before ++ tail :: after)
  | .removeOneCas entry chain => entry ≠ 0 ∧ chain ≠ 0

end LinkedlistState

def LinkedlistThread.hands (here : LinkedlistThread) : LinkedlistHands :=
  ⟨here.state.adding, here.state.taken, here.state.chain, here.state.prevChain, here.chains⟩

section Holds

variable {Thread : Type} {entries : Pointer → Prop}
  {place moved : Pointer → Option (LinkedlistPlace Thread)} {list : ConcurrentLinkedlist Thread}
  {next changed : Pointer → Pointer} {thread other : Thread} {hands : LinkedlistHands}
  {spot target : LinkedlistPlace Thread} {which : Pointer → Prop}

def AloneAt (place : Pointer → Option (LinkedlistPlace Thread)) (spot : LinkedlistPlace Thread)
    (entry : Pointer) : Prop :=
  ∀ other, place other = some spot ↔ other = entry ∧ other ≠ 0

structure HandsHold (next : Pointer → Pointer) (place : Pointer → Option (LinkedlistPlace Thread))
    (thread : Thread) (hands : LinkedlistHands) : Prop where
  adding : AloneAt place (.adding thread) hands.adding
  taken : LinkedAt next place (.taken thread) hands.taken
  takenNext : hands.taken ≠ 0 → next hands.taken = 0
  chain : LinkedAt next place (.chain thread) hands.chain
  prevChain : LinkedAt next place (.prevChain thread) hands.prevChain
  held : AllLinkedAt next place (.held thread) hands.chains
  firsts : ∀ first ∈ hands.chains, first ≠ 0

/-- The `entries` are the ones that there are, each at its place. -/
structure ListHolds (entries : Pointer → Prop) (place : Pointer → Option (LinkedlistPlace Thread))
    (list : ConcurrentLinkedlist Thread) : Prop where
  listed : LinkedAt list.next place .list list.head
  owned : ∀ entry thread, place entry = some (.owned thread) ↔ list.owner entry = some thread
  unlinked : ∀ entry thread, place entry = some (.owned thread) → list.next entry = 0
  somewhere : ∀ entry, place entry ≠ none ↔ entries entry
  nonnull : place 0 = none

structure LinkedlistThreadHolds (next : Pointer → Pointer)
    (place : Pointer → Option (LinkedlistPlace Thread)) (thread : Thread)
    (here : LinkedlistThread) : Prop where
  hands : HandsHold next place thread here.hands
  proper : here.state.Proper next

structure LinkedlistHolds (entries : Pointer → Prop)
    (place : Pointer → Option (LinkedlistPlace Thread))
    (config : Config (ConcurrentLinkedlist Thread) Thread LinkedlistThread) : Prop where
  list : ListHolds entries place config.shared
  threads : ∀ thread, LinkedlistThreadHolds config.shared.next place thread (config.locals thread)

theorem AloneAt.elsewhere {entry : Pointer} {spots : LinkedlistPlace Thread}
    (alone : AloneAt place spots entry) (relocates : Relocates place moved spot target which)
    (notSpot : spots ≠ spot) (notTarget : spots ≠ target) :
    AloneAt moved spots entry := by
  intro other
  rw [relocates.elsewhere notSpot notTarget, alone]

def Mine (thread : Thread) (place : Option (LinkedlistPlace Thread)) : Prop :=
  ∀ spot ∈ place, ∀ other ∈ spot.mover, other = thread

def Touches (thread : Thread) (place : Pointer → Option (LinkedlistPlace Thread))
    (next : Pointer → Pointer) (moved : Pointer → Option (LinkedlistPlace Thread))
    (changed : Pointer → Pointer) : Prop :=
  ∀ entry, moved entry = place entry ∧ changed entry = next entry ∨ Mine thread (place entry) ∧
    Mine thread (moved entry)

theorem Touches.refl : Touches thread place next place next := fun _ => Or.inl ⟨rfl, rfl⟩

theorem Touches.trans {last : Pointer → Option (LinkedlistPlace Thread)} {final : Pointer → Pointer}
    (first : Touches thread place next moved changed)
    (second : Touches thread moved changed last final) :
    Touches thread place next last final := by
  intro entry
  rcases first entry with ⟨stays, same⟩ | ⟨before, between⟩
  · rcases second entry with ⟨staysToo, sameToo⟩ | ⟨between, after⟩
    · exact Or.inl ⟨staysToo.trans stays, sameToo.trans same⟩
    · exact Or.inr ⟨stays ▸ between, after⟩
  · rcases second entry with ⟨staysToo, _⟩ | ⟨_, after⟩
    · exact Or.inr ⟨before, staysToo ▸ between⟩
    · exact Or.inr ⟨before, after⟩

theorem touches_of_relocates (relocates : Relocates place moved spot target which)
    (fromHere : ∀ other ∈ spot.mover, other = thread)
    (toHere : ∀ other ∈ target.mover, other = thread)
    (changes : ∀ entry, changed entry = next entry ∨ Mine thread (place entry)) :
    Touches thread place next moved changed := by
  intro entry
  by_cases goes : which entry
  · obtain ⟨before, after⟩ := relocates.goes entry goes
    rw [before, after]
    refine Or.inr ⟨?_, ?_⟩
    · rintro _ ⟨⟩
      exact fromHere
    · rintro _ ⟨⟩
      exact toHere
  · rw [relocates.stays entry goes]
    rcases changes entry with same | mine
    · exact Or.inl ⟨rfl, same⟩
    · exact Or.inr ⟨mine, mine⟩

theorem LinkedlistThreadHolds.undisturbed {here : LinkedlistThread}
    (holds : LinkedlistThreadHolds next place other here)
    (touches : Touches thread place next moved changed) (different : other ≠ thread) :
    LinkedlistThreadHolds changed moved other here := by
  have stays : ∀ spot : LinkedlistPlace Thread, spot.mover = some other →
      ∀ entry, moved entry = some spot ↔ place entry = some spot := by
    intro spot owner entry
    rcases touches entry with ⟨same, _⟩ | ⟨before, after⟩
    · rw [same]
    · constructor
      · exact fun here => absurd (after spot here other owner) different
      · exact fun here => absurd (before spot here other owner) different
  have same : ∀ spot : LinkedlistPlace Thread, spot.mover = some other →
      ∀ entry, place entry = some spot → changed entry = next entry := by
    intro spot owner entry here
    rcases touches entry with ⟨_, same⟩ | ⟨before, _⟩
    · exact same
    · exact absurd (before spot here other owner) different
  have hands := holds.hands
  have proper := holds.proper
  refine ⟨⟨?_, ?_, ?_, ?_, ?_, ?_, hands.firsts⟩, ?_⟩
  · intro entry
    rw [stays _ rfl, hands.adding]
  · exact hands.taken.transfer (stays _ rfl) (same _ rfl)
  · intro nonzero
    rw [same (.taken other) rfl _ (hands.taken.at_first nonzero)]
    exact hands.takenNext nonzero
  · exact hands.chain.transfer (stays _ rfl) (same _ rfl)
  · exact hands.prevChain.transfer (stays _ rfl) (same _ rfl)
  · exact hands.held.transfer (stays _ rfl) (same _ rfl)
  · obtain ⟨state, chains⟩ := here
    cases state with
    | addCas entry head =>
      refine ⟨proper.1, ?_⟩
      rw [same (.adding other) rfl entry ((hands.adding entry).mpr ⟨rfl, proper.1⟩)]
      exact proper.2
    | removeOneTail entry prevChain first tail =>
      obtain ⟨nonzero, retained, before, after, linked⟩ := proper
      refine ⟨nonzero, retained, before, after, linked.frame fun cell member => ?_⟩
      exact same (.chain other) rfl cell (hands.chain.mem linked member)
    | removeAllRead caller => cases caller <;> exact proper
    | removeAllCas caller head => cases caller <;> exact proper
    | _ => exact proper

theorem ListHolds.inside (holds : ListHolds entries place list)
    (relocates : Relocates place moved spot target which) (fromHands : spot.mover = some thread)
    (toHands : target.mover = some thread)
    (changes : ∀ entry, changed entry = list.next entry ∨ ∃ hand : LinkedlistPlace Thread,
      place entry = some hand ∧ hand.mover = some thread) :
    ListHolds entries moved { list with next := changed } := by
  have outside : ∀ other : LinkedlistPlace Thread, other.mover = none → other ≠ spot ∧
      other ≠ target := by
    intro other free
    constructor
    · rintro rfl
      exact nomatch free.symm.trans fromHands
    · rintro rfl
      exact nomatch free.symm.trans toHands
  have same : ∀ other : LinkedlistPlace Thread, other.mover = none →
      ∀ entry, place entry = some other → changed entry = list.next entry := by
    intro other free entry here
    refine (changes entry).resolve_right ?_
    rintro ⟨hand, there, owner⟩
    obtain rfl := Option.some.inj (here.symm.trans there)
    exact nomatch free.symm.trans owner
  have stays : ∀ (other : LinkedlistPlace Thread) entry, other.mover = none →
    (moved entry = some other ↔ place entry = some other) :=
    fun other entry free => relocates.elsewhere (outside other free).1 (outside other free).2
  constructor
  · exact holds.listed.transfer (fun entry => stays _ entry rfl) (same _ rfl)
  · intro entry thread
    rw [stays _ entry rfl]
    exact holds.owned entry thread
  · intro entry thread here
    rw [stays _ entry rfl] at here
    dsimp only
    rw [same _ rfl entry here]
    exact holds.unlinked entry thread here
  · intro entry
    rw [ne_eq, relocates.nowhere]
    exact holds.somewhere entry
  · exact relocates.nowhere.mpr holds.nonnull

end Holds

section Moves

variable {Thread : Type} {entries : Pointer → Prop}
  {place : Pointer → Option (LinkedlistPlace Thread)} {list : ConcurrentLinkedlist Thread}
  {thread : Thread} {adding taken chain prevChain entry : Pointer} {chains : List Pointer}
variable {spot : LinkedlistPlace Thread} {moved : Pointer → Option (LinkedlistPlace Thread)}
  {target : LinkedlistPlace Thread}

def Carries (entries : Pointer → Prop) (place : Pointer → Option (LinkedlistPlace Thread))
    (next : Pointer → Pointer) (thread : Thread) (list : ConcurrentLinkedlist Thread)
    (hands : LinkedlistHands) : Prop :=
  ∃ moved, ListHolds entries moved list ∧ HandsHold list.next moved thread hands ∧
    Touches thread place next moved list.next

theorem mover_self (here : spot.mover = some thread) : ∀ other ∈ spot.mover, other = thread := by
  rintro other owner
  exact Option.some.inj (owner.symm.trans here)

theorem mover_none (free : spot.mover = none) : ∀ other ∈ spot.mover, other = thread := by
  rintro other owner
  exact nomatch owner.symm.trans free

theorem mine_of_mover (there : place entry = some spot) (here : spot.mover = some thread) :
    Mine thread (place entry) := by
  rw [there]
  rintro _ ⟨⟩
  exact mover_self here

theorem Carries.after {next changed : Pointer → Pointer} {hands : LinkedlistHands}
    (touches : Touches thread place next moved changed)
    (carries : Carries entries moved changed thread list hands) :
    Carries entries place next thread list hands := by
  obtain ⟨last, holds, handsHold, more⟩ := carries
  exact ⟨last, holds, handsHold, touches.trans more⟩

theorem setNext_other {link other : Pointer} (different : other ≠ entry) :
    (list.setNext entry link).next other = list.next other :=
  Function.update_of_ne different _ _

theorem ListHolds.owned_update (holds : ListHolds entries place list)
    (relocates : Relocates place moved spot target fun other => other = entry)
    {owner : Option Thread} (owns : ∀ thread, target = .owned thread ↔ owner = some thread)
    (other : Pointer) (thread : Thread) :
    moved other = some (.owned thread) ↔ (list.own entry owner).owner other = some thread := by
  by_cases same : other = entry
  · subst same
    rw [(relocates.goes other rfl).2, Option.some_inj, owns]
    simp [ConcurrentLinkedlist.own]
  · rw [relocates.stays other same, holds.owned]
    simp [ConcurrentLinkedlist.own, same]

theorem ListHolds.relisted (holds : ListHolds entries place list)
    {which : Pointer → Prop} (relocates : Relocates place moved spot target which)
    (notSpot : ∀ thread, LinkedlistPlace.owned thread ≠ spot)
    (notTarget : ∀ thread, LinkedlistPlace.owned thread ≠ target) {head : Pointer}
    (listed : LinkedAt list.next moved .list head) :
    ListHolds entries moved { list with head := head } where
  listed := listed
  owned := fun entry thread => by
    rw [relocates.elsewhere (notSpot thread) (notTarget thread), holds.owned]
  unlinked := fun entry thread there => by
    rw [relocates.elsewhere (notSpot thread) (notTarget thread)] at there
    exact holds.unlinked entry thread there
  somewhere := fun entry => by
    rw [ne_eq, relocates.nowhere]
    exact holds.somewhere entry
  nonnull := relocates.nowhere.mpr holds.nonnull

variable (holds : ListHolds entries place list)
include holds

theorem prevChain_to_chain
    (hold : HandsHold list.next place thread ⟨adding, taken, 0, prevChain, chains⟩) :
    Carries entries place list.next thread list ⟨adding, taken, prevChain, 0, chains⟩ := by
  obtain ⟨moved, relocates⟩ :=
    exists_relocates (.chain thread) fun cell (here : place cell = some (.prevChain thread)) => here
  refine ⟨moved, holds.inside relocates rfl rfl fun _ => Or.inl rfl,
    ⟨?_, ?_, hold.takenNext, ?_, ?_, ?_, hold.firsts⟩, ?_⟩
  · exact hold.adding.elsewhere relocates nofun nofun
  · exact hold.taken.elsewhere relocates nofun nofun fun _ _ => rfl
  · exact hold.prevChain.relocated hold.chain relocates fun _ _ => rfl
  · exact relocates.emptied nofun
  · exact hold.held.elsewhere relocates nofun nofun fun _ _ => rfl
  · exact touches_of_relocates relocates (mover_self rfl) (mover_self rfl) fun _ => Or.inl rfl

theorem chain_to_prevChain
    (hold : HandsHold list.next place thread ⟨adding, taken, chain, 0, chains⟩) :
    Carries entries place list.next thread list ⟨adding, taken, 0, chain, chains⟩ := by
  obtain ⟨moved, relocates⟩ :=
    exists_relocates (.prevChain thread) fun cell (here : place cell = some (.chain thread)) => here
  refine ⟨moved, holds.inside relocates rfl rfl fun _ => Or.inl rfl,
    ⟨?_, ?_, hold.takenNext, ?_, ?_, ?_, hold.firsts⟩, ?_⟩
  · exact hold.adding.elsewhere relocates nofun nofun
  · exact hold.taken.elsewhere relocates nofun nofun fun _ _ => rfl
  · exact relocates.emptied nofun
  · exact hold.chain.relocated hold.prevChain relocates fun _ _ => rfl
  · exact hold.held.elsewhere relocates nofun nofun fun _ _ => rfl
  · exact touches_of_relocates relocates (mover_self rfl) (mover_self rfl) fun _ => Or.inl rfl

theorem list_to_chain
    (hold : HandsHold list.next place thread ⟨adding, taken, 0, prevChain, chains⟩) :
    Carries entries place list.next thread { list with head := 0 } ⟨adding, taken, list.head,
      prevChain, chains⟩ := by
  obtain ⟨moved, relocates⟩ :=
    exists_relocates (.chain thread) fun cell (here : place cell = some .list) => here
  refine ⟨moved, holds.relisted relocates nofun nofun (relocates.emptied nofun),
    ⟨?_, ?_, hold.takenNext, ?_, ?_, ?_, hold.firsts⟩, ?_⟩
  · exact hold.adding.elsewhere relocates nofun nofun
  · exact hold.taken.elsewhere relocates nofun nofun fun _ _ => rfl
  · exact holds.listed.relocated hold.chain relocates fun _ _ => rfl
  · exact hold.prevChain.elsewhere relocates nofun nofun fun _ _ => rfl
  · exact hold.held.elsewhere relocates nofun nofun fun _ _ => rfl
  · exact touches_of_relocates relocates (mover_none rfl) (mover_self rfl) fun _ => Or.inl rfl

theorem list_to_held (nonempty : list.head ≠ 0)
    (hold : HandsHold list.next place thread ⟨adding, taken, chain, prevChain, chains⟩) :
    Carries entries place list.next thread { list with head := 0 } ⟨adding, taken, chain, prevChain,
      list.head :: chains⟩ := by
  obtain ⟨moved, relocates⟩ :=
    exists_relocates (.held thread) fun cell (here : place cell = some .list) => here
  refine ⟨moved, holds.relisted relocates nofun nofun (relocates.emptied nofun),
    ⟨?_, ?_, hold.takenNext, ?_, ?_, ?_, ?_⟩, ?_⟩
  · exact hold.adding.elsewhere relocates nofun nofun
  · exact hold.taken.elsewhere relocates nofun nofun fun _ _ => rfl
  · exact hold.chain.elsewhere relocates nofun nofun fun _ _ => rfl
  · exact hold.prevChain.elsewhere relocates nofun nofun fun _ _ => rfl
  · exact hold.held.detached holds.listed nofun relocates
  · exact List.forall_mem_cons.mpr ⟨nonempty, hold.firsts⟩
  · exact touches_of_relocates relocates (mover_none rfl) (mover_self rfl) fun _ => Or.inl rfl

theorem chain_to_list (empty : list.head = 0)
    (hold : HandsHold list.next place thread ⟨adding, taken, chain, prevChain, chains⟩) :
    Carries entries place list.next thread { list with head := chain } ⟨adding, taken, 0,
      prevChain, chains⟩ := by
  obtain ⟨moved, relocates⟩ :=
    exists_relocates .list fun cell (here : place cell = some (.chain thread)) => here
  have listed := holds.listed
  rw [empty] at listed
  refine ⟨moved, holds.relisted relocates nofun nofun
    (hold.chain.relocated listed relocates fun _ _ => rfl),
    ⟨?_, ?_, hold.takenNext, ?_, ?_, ?_, hold.firsts⟩, ?_⟩
  · exact hold.adding.elsewhere relocates nofun nofun
  · exact hold.taken.elsewhere relocates nofun nofun fun _ _ => rfl
  · exact relocates.emptied nofun
  · exact hold.prevChain.elsewhere relocates nofun nofun fun _ _ => rfl
  · exact hold.held.elsewhere relocates nofun nofun fun _ _ => rfl
  · exact touches_of_relocates relocates (mover_self rfl) (mover_none rfl) fun _ => Or.inl rfl

theorem chain_to_taken (nonempty : chain ≠ 0)
    (hold : HandsHold list.next place thread ⟨adding, 0, chain, prevChain, chains⟩) :
    Carries entries place list.next thread (list.setNext chain 0) ⟨adding, chain, list.next chain,
      prevChain, chains⟩ := by
  have first : place chain = some (.chain thread) := hold.chain.at_first nonempty
  obtain ⟨moved, relocates⟩ := exists_relocates (.taken thread)
    fun cell (here : cell = chain) => show place cell = some (.chain thread) from here ▸ first
  have same : ∀ (spot : LinkedlistPlace Thread), spot ≠ .chain thread →
    ∀ cell, place cell = some spot →
      (list.setNext chain 0).next cell = list.next cell := by
    rintro spot different cell here
    refine setNext_other ?_
    rintro rfl
    exact different (Option.some.inj (here.symm.trans first))
  refine ⟨moved, holds.inside relocates rfl rfl ?_, ⟨?_, ?_, ?_, ?_, ?_, ?_, hold.firsts⟩, ?_⟩
  · intro cell
    by_cases here : cell = chain
    · exact Or.inr ⟨_, here ▸ first, rfl⟩
    · exact Or.inl (setNext_other here)
  · exact hold.adding.elsewhere relocates nofun nofun
  · refine ⟨[chain], ⟨rfl, nonempty, Function.update_self _ _ _⟩, List.nodup_singleton chain,
      fun cell => ?_⟩
    rw [relocates.arrived, List.mem_singleton]
    exact ⟨Or.inr, fun here => here.resolve_left (linkedAt_zero.mp hold.taken cell)⟩
  · exact fun _ => Function.update_self _ _ _
  · exact hold.chain.pop nonempty (fun cell => relocates.source nofun) fun cell _ other =>
      setNext_other other
  · exact hold.prevChain.elsewhere relocates nofun nofun (same _ nofun)
  · exact hold.held.elsewhere relocates nofun nofun (same _ nofun)
  · refine touches_of_relocates relocates (mover_self rfl) (mover_self rfl) fun cell => ?_
    by_cases here : cell = chain
    · exact Or.inr (mine_of_mover (here ▸ first) rfl)
    · exact Or.inl (setNext_other here)

theorem chains_joined {cells : List Pointer} {tail : Pointer}
    (linked : LinkChain list.next chain (cells ++ [tail]))
    (hold : HandsHold list.next place thread ⟨adding, taken, chain, prevChain, chains⟩) :
    Carries entries place list.next thread (list.setNext tail prevChain) ⟨adding, taken, chain,
      0, chains⟩ := by
  have last : place tail = some (.chain thread) := hold.chain.mem linked (by simp)
  obtain ⟨moved, relocates⟩ :=
    exists_relocates (.chain thread) fun cell (here : place cell = some (.prevChain thread)) => here
  have same : ∀ (spot : LinkedlistPlace Thread), spot ≠ .chain thread →
    ∀ cell, place cell = some spot →
      (list.setNext tail prevChain).next cell = list.next cell := by
    rintro spot different cell here
    refine setNext_other ?_
    rintro rfl
    exact different (Option.some.inj (here.symm.trans last))
  refine ⟨moved, holds.inside relocates rfl rfl ?_, ⟨?_, ?_, ?_, ?_, ?_, ?_, hold.firsts⟩, ?_⟩
  · intro cell
    by_cases here : cell = tail
    · exact Or.inr ⟨_, here ▸ last, rfl⟩
    · exact Or.inl (setNext_other here)
  · exact hold.adding.elsewhere relocates nofun nofun
  · exact hold.taken.elsewhere relocates nofun nofun (same _ nofun)
  · intro nonzero
    rw [same (.taken thread) nofun _ (hold.taken.at_first nonzero)]
    exact hold.takenNext nonzero
  · exact hold.chain.joined linked hold.prevChain nofun relocates (Function.update_self _ _ _)
      fun cell => setNext_other
  · exact relocates.emptied nofun
  · exact hold.held.elsewhere relocates nofun nofun (same _ nofun)
  · refine touches_of_relocates relocates (mover_self rfl) (mover_self rfl) fun cell => ?_
    by_cases here : cell = tail
    · exact Or.inr (mine_of_mover (here ▸ last) rfl)
    · exact Or.inl (setNext_other here)

theorem taken_to_owned (nonzero : taken ≠ 0)
    (hold : HandsHold list.next place thread ⟨adding, taken, chain, prevChain, chains⟩) :
    list.owner taken = none ∧
      Carries entries place list.next thread (list.own taken (some thread)) ⟨adding, 0, chain,
        prevChain, chains⟩ := by
  have here : place taken = some (.taken thread) := hold.taken.at_first nonzero
  obtain ⟨moved, relocates⟩ := exists_relocates (.owned thread)
    fun cell (same : cell = taken) => show place cell = some (.taken thread) from same ▸ here
  refine ⟨?_, moved, ⟨?_, ?_, ?_, ?_, relocates.nowhere.mpr holds.nonnull⟩,
    ⟨?_, ?_, ?_, ?_, ?_, ?_, hold.firsts⟩, ?_⟩
  · rw [Option.eq_none_iff_forall_ne_some]
    intro owner owned
    exact nomatch here.symm.trans ((holds.owned taken owner).mpr owned)
  · exact holds.listed.elsewhere relocates nofun nofun fun _ _ => rfl
  · exact holds.owned_update relocates fun owner => by simp
  · intro cell owner owned
    by_cases same : cell = taken
    · rw [same]
      exact hold.takenNext nonzero
    · rw [relocates.stays cell same] at owned
      exact holds.unlinked cell owner owned
  · intro cell
    rw [ne_eq, relocates.nowhere]
    exact holds.somewhere cell
  · exact hold.adding.elsewhere relocates nofun nofun
  · rw [linkedAt_zero]
    intro cell there
    rw [relocates.source nofun, hold.taken.single nonzero (hold.takenNext nonzero)] at there
    exact there.2 there.1
  · exact fun zero => absurd rfl zero
  · exact hold.chain.elsewhere relocates nofun nofun fun _ _ => rfl
  · exact hold.prevChain.elsewhere relocates nofun nofun fun _ _ => rfl
  · exact hold.held.elsewhere relocates nofun nofun fun _ _ => rfl
  · exact touches_of_relocates relocates (mover_self rfl) (mover_none rfl) fun _ => Or.inl rfl

theorem owned_to_adding (owned : list.owner entry = some thread)
    (hold : HandsHold list.next place thread ⟨0, taken, chain, prevChain, chains⟩) :
    entry ≠ 0 ∧ list.next entry = 0 ∧
      Carries entries place list.next thread (list.own entry none) ⟨entry, taken, chain,
        prevChain, chains⟩ := by
  have here : place entry = some (.owned thread) := (holds.owned entry thread).mpr owned
  have nonzero : entry ≠ 0 := by
    rintro rfl
    exact nomatch holds.nonnull.symm.trans here
  obtain ⟨moved, relocates⟩ := exists_relocates (.adding thread)
    fun cell (same : cell = entry) => show place cell = some (.owned thread) from same ▸ here
  refine ⟨nonzero, holds.unlinked entry thread here, moved,
    ⟨?_, ?_, ?_, ?_, relocates.nowhere.mpr holds.nonnull⟩, ⟨?_, ?_, hold.takenNext, ?_, ?_, ?_,
      hold.firsts⟩, ?_⟩
  · exact holds.listed.elsewhere relocates nofun nofun fun _ _ => rfl
  · exact holds.owned_update relocates fun owner => by simp
  · intro cell owner there
    by_cases same : cell = entry
    · rw [(relocates.goes cell same).2] at there
      exact nomatch there
    · rw [relocates.stays cell same] at there
      exact holds.unlinked cell owner there
  · intro cell
    rw [ne_eq, relocates.nowhere]
    exact holds.somewhere cell
  · intro cell
    have none : place cell ≠ some (.adding thread) := fun there => by
      obtain ⟨rfl, zero⟩ := (hold.adding cell).mp there
      exact zero rfl
    rw [relocates.arrived]
    constructor
    · intro there
      obtain rfl := there.resolve_left none
      exact ⟨rfl, nonzero⟩
    · exact fun there => Or.inr there.1
  · exact hold.taken.elsewhere relocates nofun nofun fun _ _ => rfl
  · exact hold.chain.elsewhere relocates nofun nofun fun _ _ => rfl
  · exact hold.prevChain.elsewhere relocates nofun nofun fun _ _ => rfl
  · exact hold.held.elsewhere relocates nofun nofun fun _ _ => rfl
  · exact touches_of_relocates relocates (mover_none rfl) (mover_self rfl) fun _ => Or.inl rfl

theorem adding_linked (link : Pointer) (nonzero : entry ≠ 0)
    (hold : HandsHold list.next place thread ⟨entry, taken, chain, prevChain, chains⟩) :
    Carries entries place list.next thread (list.setNext entry link) ⟨entry, taken, chain,
      prevChain, chains⟩ := by
  have here : place entry = some (.adding thread) := (hold.adding entry).mpr ⟨rfl, nonzero⟩
  have same : ∀ (spot : LinkedlistPlace Thread), spot ≠ .adding thread →
    ∀ cell, place cell = some spot →
      (list.setNext entry link).next cell = list.next cell := by
    rintro spot different cell there
    refine setNext_other ?_
    rintro rfl
    exact different (Option.some.inj (there.symm.trans here))
  have relocates : Relocates place place (.adding thread) (.adding thread) fun cell => cell = entry :=
    ⟨fun cell is => ⟨is ▸ here, is ▸ here⟩, fun _ _ => rfl⟩
  refine ⟨place, holds.inside relocates rfl rfl ?_, ⟨hold.adding, ?_, ?_, ?_, ?_, ?_, hold.firsts⟩,
    ?_⟩
  · intro cell
    by_cases is : cell = entry
    · exact Or.inr ⟨_, is ▸ here, rfl⟩
    · exact Or.inl (setNext_other is)
  · exact hold.taken.transfer (fun _ => Iff.rfl) (same _ nofun)
  · intro some
    rw [same (.taken thread) nofun _ (hold.taken.at_first some)]
    exact hold.takenNext some
  · exact hold.chain.transfer (fun _ => Iff.rfl) (same _ nofun)
  · exact hold.prevChain.transfer (fun _ => Iff.rfl) (same _ nofun)
  · exact hold.held.transfer (fun _ => Iff.rfl) (same _ nofun)
  · refine touches_of_relocates relocates (mover_self rfl) (mover_self rfl) fun cell => ?_
    by_cases is : cell = entry
    · exact Or.inr (mine_of_mover (is ▸ here) rfl)
    · exact Or.inl (setNext_other is)

theorem adding_to_list (nonzero : entry ≠ 0) (link : list.next entry = list.head)
    (hold : HandsHold list.next place thread ⟨entry, taken, chain, prevChain, chains⟩) :
    Carries entries place list.next thread { list with head := entry } ⟨0, taken, chain,
      prevChain, chains⟩ := by
  have here : place entry = some (.adding thread) := (hold.adding entry).mpr ⟨rfl, nonzero⟩
  obtain ⟨moved, relocates⟩ := exists_relocates .list
    fun cell (same : cell = entry) => show place cell = some (.adding thread) from same ▸ here
  refine ⟨moved, holds.relisted relocates nofun nofun ?_, ⟨?_, ?_, hold.takenNext, ?_, ?_, ?_,
    hold.firsts⟩, ?_⟩
  · refine holds.listed.push nonzero ?_ (fun cell => ?_) link fun _ _ => rfl
    · rw [here]
      exact nofun
    · rw [relocates.arrived, or_comm]
  · intro cell
    rw [relocates.source nofun, hold.adding]
    constructor
    · exact fun there => absurd there.1.1 there.2
    · exact fun there => absurd there.1 there.2
  · exact hold.taken.elsewhere relocates nofun nofun fun _ _ => rfl
  · exact hold.chain.elsewhere relocates nofun nofun fun _ _ => rfl
  · exact hold.prevChain.elsewhere relocates nofun nofun fun _ _ => rfl
  · exact hold.held.elsewhere relocates nofun nofun fun _ _ => rfl
  · exact touches_of_relocates relocates (mover_self rfl) (mover_none rfl) fun _ => Or.inl rfl

theorem held_to_owned
    (hold : HandsHold list.next place thread ⟨adding, taken, chain, prevChain, entry :: chains⟩) :
    list.owner entry = none ∧
    Carries entries place list.next thread ((list.setNext entry 0).own entry (some thread))
      ⟨adding, taken, chain, prevChain, if list.next entry = 0 then chains
        else list.next entry :: chains⟩ := by
  have nonzero : entry ≠ 0 := hold.firsts entry List.mem_cons_self
  have here : place entry = some (.held thread) := hold.held.at_first nonzero
  obtain ⟨moved, relocates⟩ := exists_relocates (.owned thread)
    fun cell (same : cell = entry) => show place cell = some (.held thread) from same ▸ here
  have same : ∀ (spot : LinkedlistPlace Thread), spot ≠ .held thread →
    ∀ cell, place cell = some spot →
      (list.setNext entry 0).next cell = list.next cell := by
    rintro spot different cell there
    refine setNext_other ?_
    rintro rfl
    exact different (Option.some.inj (there.symm.trans here))
  refine ⟨?_, moved, ⟨?_, ?_, ?_, ?_, relocates.nowhere.mpr holds.nonnull⟩,
    ⟨?_, ?_, ?_, ?_, ?_, ?_, ?_⟩, ?_⟩
  · rw [Option.eq_none_iff_forall_ne_some]
    intro owner owned
    exact nomatch here.symm.trans ((holds.owned entry owner).mpr owned)
  · exact holds.listed.elsewhere relocates nofun nofun (same _ nofun)
  · exact holds.owned_update relocates fun owner => by simp
  · intro cell owner owned
    by_cases is : cell = entry
    · rw [is]
      exact Function.update_self _ _ _
    · rw [relocates.stays cell is] at owned
      rw [ConcurrentLinkedlist.own, setNext_other is]
      exact holds.unlinked cell owner owned
  · intro cell
    rw [ne_eq, relocates.nowhere]
    exact holds.somewhere cell
  · exact hold.adding.elsewhere relocates nofun nofun
  · exact hold.taken.elsewhere relocates nofun nofun (same _ nofun)
  · intro some
    rw [ConcurrentLinkedlist.own, same (.taken thread) nofun _ (hold.taken.at_first some)]
    exact hold.takenNext some
  · exact hold.chain.elsewhere relocates nofun nofun (same _ nofun)
  · exact hold.prevChain.elsewhere relocates nofun nofun (same _ nofun)
  · have rest : AllLinkedAt (list.setNext entry 0).next moved (.held thread)
      (list.next entry :: chains) :=
      hold.held.unlinked nonzero relocates nofun fun cell => setNext_other
    dsimp only
    split
    next last =>
      rw [last] at rest
      exact rest.of_zero
    next => exact rest
  · have rest : ∀ first ∈ chains, first ≠ 0 :=
      fun first member => hold.firsts first (List.mem_cons_of_mem entry member)
    dsimp only
    split
    next => exact rest
    next more => exact List.forall_mem_cons.mpr ⟨more, rest⟩
  · refine touches_of_relocates relocates (mover_self rfl) (mover_none rfl) fun cell => ?_
    by_cases is : cell = entry
    · exact Or.inr (mine_of_mover (is ▸ here) rfl)
    · exact Or.inl (setNext_other is)

theorem owned_to_other (receiver : Thread) (owned : list.owner entry = some thread)
    (hold : HandsHold list.next place thread ⟨adding, taken, chain, prevChain, chains⟩) :
    Carries entries place list.next thread (list.own entry (some receiver)) ⟨adding, taken, chain,
      prevChain, chains⟩ := by
  have here : place entry = some (.owned thread) := (holds.owned entry thread).mpr owned
  obtain ⟨moved, relocates⟩ := exists_relocates (.owned receiver)
    fun cell (same : cell = entry) => show place cell = some (.owned thread) from same ▸ here
  refine ⟨moved, ⟨?_, ?_, ?_, ?_, relocates.nowhere.mpr holds.nonnull⟩,
    ⟨?_, ?_, hold.takenNext, ?_, ?_, ?_, hold.firsts⟩, ?_⟩
  · exact holds.listed.elsewhere relocates nofun nofun fun _ _ => rfl
  · exact holds.owned_update relocates fun owner => by simp
  · intro cell owner there
    by_cases same : cell = entry
    · rw [same]
      exact holds.unlinked entry thread here
    · rw [relocates.stays cell same] at there
      exact holds.unlinked cell owner there
  · intro cell
    rw [ne_eq, relocates.nowhere]
    exact holds.somewhere cell
  · exact hold.adding.elsewhere relocates nofun nofun
  · exact hold.taken.elsewhere relocates nofun nofun fun _ _ => rfl
  · exact hold.chain.elsewhere relocates nofun nofun fun _ _ => rfl
  · exact hold.prevChain.elsewhere relocates nofun nofun fun _ _ => rfl
  · exact hold.held.elsewhere relocates nofun nofun fun _ _ => rfl
  · exact touches_of_relocates relocates (mover_none rfl) (mover_none rfl) fun _ => Or.inl rfl

end Moves

section Steps

variable {Thread : Type} {entries : Pointer → Prop}
  {place : Pointer → Option (LinkedlistPlace Thread)} {list : ConcurrentLinkedlist Thread}
  {thread : Thread} {next : Pointer → Pointer} {owner : Pointer → Option Thread}
  {head entry chain prevChain : Pointer} {chains : List Pointer}
variable {caller : RemoveAllCaller} {here : LinkedlistThread}

def Accounts (owner after : Pointer → Option Thread) : Option (LinkedlistEvent Thread) → Prop
  | some (.adds thread entry) => owner entry = some thread ∧ after = Function.update owner entry none
  | some (.removedOne thread entry) =>
    if entry = 0 then after = owner
      else owner entry = none ∧ after = Function.update owner entry (some thread)
  | some (.unlinked thread entry) =>
    owner entry = none ∧ after = Function.update owner entry (some thread)
  | some (.removedAll _ _) | none => ∀ entry, after entry = none ↔ owner entry = none

def LinkedlistVerdict (head : Pointer) : LinkedlistEvent Thread → Prop
  | .removedOne _ entry => entry = 0 → head = 0
  | .removedAll _ chain => head = chain
  | _ => True

def Comes (entries : Pointer → Prop) (place : Pointer → Option (LinkedlistPlace Thread))
    (next : Pointer → Pointer) (owner : Pointer → Option Thread) (head : Pointer) (thread : Thread)
    (result : LinkedlistResult Thread) : Prop :=
  ∃ after there event, result = some (after, there, event) ∧
    Carries entries place next thread after there.hands ∧ there.state.Proper after.next ∧
    Accounts owner after.owner event ∧
    ∀ happened, event = some happened → LinkedlistVerdict head happened

theorem comes_silent {state : LinkedlistState} {hands : LinkedlistHands}
    (carries : Carries entries place next thread list hands)
    (same : hands = LinkedlistThread.hands ⟨state, chains⟩) (proper : state.Proper list.next)
    (owned : ∀ entry, list.owner entry = none ↔ owner entry = none) :
    Comes entries place next owner head thread (some (list, ⟨state, chains⟩, none)) :=
  ⟨_, _, _, rfl, same ▸ carries, proper, owned, nofun⟩

theorem Carries.refl (holds : ListHolds entries place list) {hands : LinkedlistHands}
    (hold : HandsHold list.next place thread hands) :
    Carries entries place list.next thread list hands :=
  ⟨place, holds, hold, .refl⟩

theorem Carries.and_then {hands later : LinkedlistHands} {after : ConcurrentLinkedlist Thread}
    (carries : Carries entries place next thread list hands)
    (moves : ∀ {place}, ListHolds entries place list → HandsHold list.next place thread hands →
      Carries entries place list.next thread after later) : Carries entries place next thread
        after later := by
  obtain ⟨moved, holds, hold, touches⟩ := carries
  exact (moves holds hold).after touches

theorem removeOneReturn_comes
    (carries : Carries entries place next thread list ⟨0, entry, 0, 0, chains⟩)
    (owned : list.owner = owner) (empty : entry = 0 → head = 0) :
    Comes entries place next owner head thread (removeOneReturn thread list chains entry) := by
  have verdict : ∀ happened, some (.removedOne thread entry) = some happened →
      LinkedlistVerdict head happened := by
    rintro happened ⟨⟩
    exact empty
  rw [removeOneReturn]
  by_cases zero : entry = 0
  · subst zero
    exact ⟨_, _, _, rfl, carries, trivial, by simp [Accounts, owned], verdict⟩
  · obtain ⟨moved, holds, hold, touches⟩ := carries
    obtain ⟨unowned, returned⟩ := taken_to_owned holds zero hold
    rw [if_neg zero]
    refine ⟨_, _, _, rfl, returned.after touches, trivial, ?_, verdict⟩
    rw [Accounts, if_neg zero, ← owned]
    exact ⟨unowned, rfl⟩

theorem removeOneCheck_comes
    (carries : Carries entries place next thread list ⟨0, entry, chain, 0, chains⟩)
    (owned : list.owner = owner) (empty : entry = 0 → head = 0) (some : chain ≠ 0 → entry ≠ 0) :
    Comes entries place next owner head thread (removeOneCheck thread list chains entry chain) := by
  rw [removeOneCheck]
  split
  next zero =>
    subst zero
    exact removeOneReturn_comes carries owned empty
  next nonzero => exact comes_silent carries rfl ⟨some nonzero, nonzero⟩ (by simp [owned])

theorem removeOneChain_comes
    (carries : Carries entries place next thread list ⟨0, entry, chain, prevChain, chains⟩)
    (owned : list.owner = owner) (nonzero : entry ≠ 0) (found : prevChain ≠ 0 → chain ≠ 0) :
    Comes entries place next owner head thread
      (removeOneChain thread list chains entry prevChain chain) := by
  rw [removeOneChain]
  split
  next zero =>
    subst zero
    exact removeOneCheck_comes carries owned (fun zero => absurd zero nonzero) fun _ => nonzero
  next retained =>
    obtain ⟨moved, holds, hold, touches⟩ := carries
    have chained := hold.chain
    obtain ⟨cells, linked, _⟩ := chained
    obtain ⟨rest, rfl, _⟩ := linked.eq_cons (found retained)
    exact comes_silent ⟨moved, holds, hold, touches⟩ rfl ⟨nonzero, retained, [], rest, linked⟩
      (by simp [owned])

theorem removeAllReturn_detached (holds : ListHolds entries place list)
    (hold : HandsHold list.next place thread here.hands) (proper : here.state.Proper list.next)
    (state : here.state = .removeAllCas caller list.head) :
    Comes entries place list.next list.owner list.head thread
      (removeAllReturn thread { list with head := 0 } here.chains list.head caller) := by
  obtain ⟨_, chains⟩ := here
  subst state
  cases caller with
  | client =>
    have nonempty : list.head ≠ 0 := proper
    rw [removeAllReturn, if_neg nonempty]
    refine ⟨_, _, _, rfl, list_to_held holds nonempty hold, trivial, fun _ => Iff.rfl, ?_⟩
    rintro happened ⟨⟩
    rfl
  | removeOne entry prevChain =>
    obtain ⟨both, nonempty⟩ : (entry = 0 ↔ prevChain = 0) ∧ list.head ≠ 0 := proper
    have carries : Carries entries place list.next thread { list with head := 0 } ⟨0, entry,
      list.head, prevChain, chains⟩ :=
      list_to_chain holds hold
    rw [removeAllReturn, if_neg nonempty]
    split
    next zero =>
      subst zero
      obtain rfl := both.mp rfl
      have lopped := carries.and_then fun holds hold => chain_to_taken holds nonempty hold
      exact removeOneChain_comes lopped rfl nonempty fun retained => absurd rfl retained
    next nonzero => exact removeOneChain_comes carries rfl nonzero fun _ => nonempty

theorem removeAllReturn_empty (holds : ListHolds entries place list)
    (hold : HandsHold list.next place thread here.hands) (proper : here.state.Proper list.next)
    (state : here.state = .removeAllRead caller) (empty : list.head = 0) :
    Comes entries place list.next list.owner list.head thread
      (removeAllReturn thread list here.chains 0 caller) := by
  obtain ⟨_, chains⟩ := here
  subst state
  cases caller with
  | client =>
    refine ⟨_, _, _, rfl, .refl holds hold, trivial, fun _ => Iff.rfl, ?_⟩
    rintro happened ⟨⟩
    exact empty
  | removeOne entry prevChain =>
    have both : entry = 0 ↔ prevChain = 0 := proper
    rw [removeAllReturn, if_pos rfl]
    exact removeOneCheck_comes (prevChain_to_chain holds hold) rfl (fun _ => empty) fun retained
      zero => retained (both.mp zero)

theorem linkedlistProceed_comes (holds : ListHolds entries place list)
    (thread' : LinkedlistThreadHolds list.next place thread here) (spurious : Bool) :
    Comes entries place list.next list.owner list.head thread
      (linkedlistProceed thread list here spurious) := by
  obtain ⟨hold, proper⟩ := thread'
  have still : ∀ entry, list.owner entry = none ↔ list.owner entry = none := fun _ => Iff.rfl
  obtain ⟨state, chains⟩ := here
  cases state with
  | idle => exact comes_silent (.refl holds hold) rfl trivial still
  | addRead entry =>
    have nonzero : entry ≠ 0 := proper
    have other : list.head ≠ entry := by
      rintro rfl
      have listed := holds.listed.at_first nonzero
      exact nomatch listed.symm.trans ((hold.adding _).mpr ⟨rfl, nonzero⟩)
    simp only [linkedlistProceed, if_neg other]
    exact comes_silent (adding_linked holds list.head nonzero hold) rfl ⟨nonzero,
      Function.update_self _ _ _⟩ still
  | addCas entry read =>
    obtain ⟨nonzero, link⟩ : entry ≠ 0 ∧ list.next entry = read := proper
    simp only [linkedlistProceed]
    split
    next same =>
      exact comes_silent (adding_to_list holds nonzero (link.trans same.symm) hold) rfl trivial still
    next => exact comes_silent (.refl holds hold) rfl nonzero still
  | removeAllRead caller =>
    simp only [linkedlistProceed]
    split
    next empty => exact removeAllReturn_empty holds hold proper rfl empty
    next nonempty =>
      cases caller with
      | client => exact comes_silent (.refl holds hold) rfl nonempty still
      | removeOne entry prevChain =>
        exact comes_silent (.refl holds hold) rfl ⟨proper, nonempty⟩ still
  | removeAllCas caller read =>
    simp only [linkedlistProceed]
    split
    next same =>
      obtain ⟨rfl, _⟩ := same
      exact removeAllReturn_detached holds hold proper rfl
    next =>
      cases caller with
      | client => exact comes_silent (.refl holds hold) rfl trivial still
      | removeOne entry prevChain => exact comes_silent (.refl holds hold) rfl proper.1 still
  | removeOneTail entry prevChain chain tail =>
    obtain ⟨nonzero, retained, before, rest, linked⟩ : entry ≠ 0 ∧ prevChain ≠ 0 ∧
      ∃ before after, LinkChain list.next chain (before ++ tail :: after) := proper
    have tailNonzero : tail ≠ 0 := linked.ne_zero (by simp)
    simp only [linkedlistProceed, if_neg tailNonzero]
    split
    next last =>
      have more := linked.next_mem
      rw [last] at more
      obtain rfl := more.eq_nil
      refine comes_silent (chains_joined holds linked hold) rfl ⟨nonzero, ?_⟩ still
      rintro rfl
      have none := linked.eq_nil
      simp at none
    next more =>
      have other : list.next tail ≠ prevChain := by
        intro same
        obtain ⟨rest, rfl, _⟩ := linked.next_mem.eq_cons more
        have inChain : place (list.next tail) = some (.chain thread) :=
          hold.chain.mem linked (by simp)
        rw [same] at inChain
        exact nomatch inChain.symm.trans (hold.prevChain.at_first retained)
      obtain ⟨rest, rfl, _⟩ := linked.next_mem.eq_cons more
      rw [if_neg other]
      refine comes_silent (.refl holds hold) rfl ⟨nonzero, retained, before ++ [tail], rest, ?_⟩ still
      simpa using linked
  | removeOneCas entry chain =>
    obtain ⟨nonzero, retained⟩ : entry ≠ 0 ∧ chain ≠ 0 := proper
    simp only [linkedlistProceed]
    split
    next empty =>
      exact removeOneReturn_comes (chain_to_list holds empty.1 hold) rfl fun zero =>
        absurd zero nonzero
    next =>
      refine comes_silent (chain_to_prevChain holds hold) rfl ?_ still
      exact ⟨fun zero => absurd zero nonzero, fun zero => absurd zero retained⟩

variable [DecidableEq Thread]

theorem linkedlistBegin_comes (holds : ListHolds entries place list)
    (hold : HandsHold list.next place thread ⟨0, 0, 0, 0, chains⟩) (move : LinkedlistMove Thread) :
    Comes entries place list.next list.owner list.head thread
      (linkedlistBegin thread list chains move) := by
  have still : ∀ entry, list.owner entry = none ↔ list.owner entry = none := fun _ => Iff.rfl
  cases move with
  | add entry =>
    rw [linkedlistBegin]
    split
    next => exact comes_silent (.refl holds hold) rfl trivial still
    next owned =>
      have owned := not_not.mp owned
      obtain ⟨nonzero, unlinked, carries⟩ := owned_to_adding holds owned hold
      rw [if_neg (by simp [nonzero, unlinked])]
      refine ⟨_, _, _, rfl, carries, nonzero, ⟨owned, rfl⟩, ?_⟩
      rintro happened ⟨⟩
      trivial
  | removeOne => exact comes_silent (.refl holds hold) rfl Iff.rfl still
  | removeAll => exact comes_silent (.refl holds hold) rfl trivial still
  | unlink =>
    cases chains with
    | nil => exact comes_silent (.refl holds hold) rfl trivial still
    | cons entry rest =>
      obtain ⟨unowned, carries⟩ := held_to_owned holds hold
      refine ⟨_, _, _, rfl, carries, trivial, ⟨unowned, rfl⟩, ?_⟩
      rintro happened ⟨⟩
      trivial
  | give entry receiver =>
    rw [linkedlistBegin]
    split
    next owned =>
      refine comes_silent (owned_to_other holds receiver owned hold) rfl trivial fun other => ?_
      by_cases same : other = entry
      · subst same
        simp [ConcurrentLinkedlist.own, owned]
      · simp [ConcurrentLinkedlist.own, same]
    next => exact comes_silent (.refl holds hold) rfl trivial still
  | proceed spurious => exact comes_silent (.refl holds hold) rfl trivial still

theorem linkedlistStep_comes (holds : ListHolds entries place list)
    (thread' : LinkedlistThreadHolds list.next place thread here) (move : LinkedlistMove Thread) :
    Comes entries place list.next list.owner list.head thread
      (linkedlistStep thread list here move) := by
  have stays : Comes entries place list.next list.owner list.head thread (some (list, here, none)) :=
    comes_silent (.refl holds thread'.hands) rfl thread'.proper fun _ => Iff.rfl
  obtain ⟨state, chains⟩ := here
  cases state with
  | idle =>
    cases move with
    | proceed spurious => exact linkedlistProceed_comes holds thread' spurious
    | add entry => exact linkedlistBegin_comes holds thread'.hands (.add entry)
    | removeOne => exact linkedlistBegin_comes holds thread'.hands .removeOne
    | removeAll => exact linkedlistBegin_comes holds thread'.hands .removeAll
    | unlink => exact linkedlistBegin_comes holds thread'.hands .unlink
    | give entry receiver => exact linkedlistBegin_comes holds thread'.hands (.give entry receiver)
  | _ =>
    cases move with
    | proceed spurious => exact linkedlistProceed_comes holds thread' spurious
    | _ => exact stays

end Steps

section Runs

variable {Thread : Type} {entries : Pointer → Prop}
variable {events : List (Option (LinkedlistEvent Thread))}

def LinkedlistEvent.added : Option (LinkedlistEvent Thread) → Option Pointer
  | some (.adds _ entry) => some entry
  | _ => none

def LinkedlistEvent.returned : Option (LinkedlistEvent Thread) → Option Pointer
  | some (.removedOne _ entry) => if entry = 0 then none else some entry
  | some (.unlinked _ entry) => some entry
  | _ => none

def addedEntries (events : List (Option (LinkedlistEvent Thread))) : List Pointer :=
  events.filterMap LinkedlistEvent.added

def returnedEntries (events : List (Option (LinkedlistEvent Thread))) : List Pointer :=
  events.filterMap LinkedlistEvent.returned

/-- An entry comes back once for each time that it was added. -/
def Balances (owner : Pointer → Option Thread) (events : List (Option (LinkedlistEvent Thread)))
    (entry : Pointer) : Prop :=
  (addedEntries events).count entry = (returnedEntries events).count entry + if owner entry =
    none then 1 else 0

theorem count_toList (entries : List Pointer) (found : Option Pointer) (entry : Pointer) :
    (entries ++ found.toList).count entry = entries.count entry + if found = some entry then
      1 else 0 := by
  rcases found with _ | other
  · simp
  · by_cases same : other = entry <;> simp [same]

theorem Accounts.balances {owner after : Pointer → Option Thread}
    {event : Option (LinkedlistEvent Thread)} (accounts : Accounts owner after event)
    {entry : Pointer} (balances : Balances owner events entry) :
    Balances after (events ++ [event]) entry := by
  have added : addedEntries (events ++ [event]) = addedEntries events ++
      (LinkedlistEvent.added event).toList := by
    cases found : LinkedlistEvent.added event <;> simp [addedEntries, found]
  have returned : returnedEntries (events ++ [event]) = returnedEntries events ++
      (LinkedlistEvent.returned event).toList := by
    cases found : LinkedlistEvent.returned event <;> simp [returnedEntries, found]
  rw [Balances] at balances ⊢
  rw [added, returned, count_toList, count_toList, balances]
  -- an event that hands an entry out or back is about the one whose owner changes
  have handed : ∀ other thread, owner other = none →
    after = Function.update owner other (some thread) →
      (if owner entry = none then 1 else 0) = (if other = entry then 1 else 0) + if after entry =
        none then 1 else 0 := by
    rintro other thread unowned rfl
    by_cases same : other = entry
    · subst same
      simp [unowned]
    · simp [same, Function.update_of_ne (Ne.symm same)]
  rcases event with _ | (⟨thread, other⟩ | ⟨thread, other⟩ | ⟨thread, chain⟩ | ⟨thread, other⟩)
  · simp [LinkedlistEvent.added, LinkedlistEvent.returned, show after entry = none ↔
      owner entry = none from accounts entry]
  · obtain ⟨owned, rfl⟩ := accounts
    by_cases same : other = entry
    · subst same
      simp [LinkedlistEvent.added, LinkedlistEvent.returned, owned]
    · simp [LinkedlistEvent.added, LinkedlistEvent.returned, same,
        Function.update_of_ne (Ne.symm same)]
  · rw [Accounts] at accounts
    split at accounts
    next zero =>
      subst accounts
      simp [LinkedlistEvent.added, LinkedlistEvent.returned, zero]
    next nonzero =>
      have moved := handed other thread accounts.1 accounts.2
      simp only [LinkedlistEvent.added, LinkedlistEvent.returned, if_neg nonzero, Option.some.injEq,
        reduceCtorEq, if_false]
      omega
  · simp [LinkedlistEvent.added, LinkedlistEvent.returned, show after entry = none ↔
      owner entry = none from accounts entry]
  · have moved := handed other thread accounts.1 accounts.2
    simp only [LinkedlistEvent.added, LinkedlistEvent.returned, Option.some.injEq, reduceCtorEq,
      if_false]
    omega

structure LinkedlistGood (entries : Pointer → Prop) (events : List (Option (LinkedlistEvent Thread)))
    (config : Config (ConcurrentLinkedlist Thread) Thread LinkedlistThread) : Prop where
  places : ∃ place, LinkedlistHolds entries place config
  balances : ∀ entry, entries entry → Balances config.shared.owner events entry

theorem linkedlistInit_good (owner : Pointer → Option Thread) :
    LinkedlistGood (fun entry => owner entry ≠ none ∧ entry ≠ 0) []
      (linkedlistInit Thread owner) := by
  have nowhere : ∀ spot : LinkedlistPlace Thread, (∀ thread, spot ≠ .owned thread) → ∀ entry,
      (if entry = 0 then none else (owner entry).map LinkedlistPlace.owned) ≠ some spot := by
    intro spot notOwned entry here
    split at here
    next => exact nomatch here
    next =>
      obtain ⟨thread, _, rfl⟩ := Option.map_eq_some_iff.mp here
      exact notOwned thread rfl
  refine ⟨⟨fun entry => if entry = 0 then none else (owner entry).map .owned, ⟨?_, ?_, ?_, ?_, rfl⟩,
    fun thread => ⟨⟨?_, ?_, ?_, ?_, ?_, ?_, ?_⟩, trivial⟩⟩, ?_⟩
  · exact linkedAt_zero.mpr (nowhere _ nofun)
  · intro entry thread
    by_cases zero : entry = 0 <;> simp [linkedlistInit, zero]
  · exact fun _ _ _ => rfl
  · intro entry
    by_cases zero : entry = 0 <;> simp [zero]
  · intro entry
    exact ⟨fun here => absurd here (nowhere (.adding thread) nofun entry),
      fun here => absurd here.1 here.2⟩
  · exact linkedAt_zero.mpr (nowhere _ nofun)
  · exact fun nonzero => absurd rfl nonzero
  · exact linkedAt_zero.mpr (nowhere _ nofun)
  · exact linkedAt_zero.mpr (nowhere _ nofun)
  · refine ⟨[], rfl, List.nodup_nil, fun entry => ?_⟩
    exact ⟨nofun, fun here => absurd here (nowhere (.held thread) nofun entry)⟩
  · exact nofun
  · rintro entry ⟨owned, nonzero⟩
    simp [Balances, addedEntries, returnedEntries, linkedlistInit, owned,
      Function.update_of_ne nonzero]

variable [DecidableEq Thread]

theorem LinkedlistGood.step
    {config : Config (ConcurrentLinkedlist Thread) Thread LinkedlistThread}
    (good : LinkedlistGood entries events config) (move : Thread × LinkedlistMove Thread) :
    ∃ after event, interleave linkedlistStep config move = some (after, event) ∧
      LinkedlistGood entries (events ++ [event]) after ∧
      ∀ happened, event = some happened → LinkedlistVerdict config.shared.head happened := by
  obtain ⟨place, holds⟩ := good.places
  obtain ⟨after, there, event, stepped, ⟨moved, list, hands, touches⟩, proper, accounts, verdict⟩ :=
    linkedlistStep_comes holds.list (holds.threads move.1) move.2
  refine ⟨_, event, interleave_some stepped, ⟨⟨moved, list, fun other => ?_⟩, ?_⟩, verdict⟩
  · dsimp only
    by_cases same : other = move.1
    · subst same
      rw [Function.update_self]
      exact ⟨hands, proper⟩
    · rw [Function.update_of_ne same]
      exact (holds.threads other).undisturbed touches same
  · exact fun entry member => accounts.balances (good.balances entry member)

/-- No entry is lost, or returned twice for one `add`, whatever the threads do. -/
theorem linkedlist_returns_once (owner : Pointer → Option Thread)
    (moves : List (Thread × LinkedlistMove Thread)) :
    ∃ config events, run (interleave linkedlistStep) (linkedlistInit Thread owner) moves =
      some (config, events) ∧
      (∃ place, LinkedlistHolds (fun entry => owner entry ≠ none ∧ entry ≠ 0) place config) ∧
      (∀ entry, owner entry ≠ none ∧ entry ≠ 0 → Balances config.shared.owner events entry) ∧
      ∀ n event, events[n]? = some (some event) →
        ∃ between, visited linkedlistStep (linkedlistInit Thread owner) moves n = some between ∧
          LinkedlistVerdict between.shared.head event := by
  have keeps : ∀ events config (move : Thread × LinkedlistMove Thread),
      LinkedlistGood (fun entry => owner entry ≠ none ∧ entry ≠ 0) events config →
      ∃ after event, interleave linkedlistStep config move = some (after, event) ∧
        LinkedlistGood (fun entry => owner entry ≠ none ∧ entry ≠ 0) (events ++ [event]) after := by
    intro events config move good
    obtain ⟨after, event, stepped, next, _⟩ := good.step move
    exact ⟨after, event, stepped, next⟩
  obtain ⟨config, events, ran, good⟩ :=
    @run_keeps _ _ _ _ (LinkedlistGood fun entry => owner entry ≠ none ∧ entry ≠ 0) keeps moves [] _
      (linkedlistInit_good owner)
  rw [List.nil_append] at good
  refine ⟨config, events, ran, good.places, good.balances, ?_⟩
  intro n event reported
  obtain ⟨move, between, after, moved, before, stepped⟩ := run_answered ran reported
  obtain ⟨again, past, ranAgain, here⟩ :=
    @run_keeps _ _ _ _ (LinkedlistGood fun entry => owner entry ≠ none ∧ entry ≠ 0) keeps
      (moves.take n) [] _ (linkedlistInit_good owner)
  obtain ⟨rfl, _⟩ := Prod.mk.inj (Option.some.inj (before.symm.trans ranAgain))
  obtain ⟨final, event', steppedToo, _, verdict⟩ := here.step move
  obtain ⟨_, rfl⟩ := Prod.mk.inj (Option.some.inj (stepped.symm.trans steppedToo))
  exact ⟨between, by rw [visited, before, Option.map_some], verdict event rfl⟩

end Runs

end MulleCore
