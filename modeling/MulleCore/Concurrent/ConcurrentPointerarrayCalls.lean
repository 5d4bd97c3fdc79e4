import MulleCore.Concurrent.ConcurrentPointerarray
import MulleCore.Library.Calls

/-!
What a call of a `mulle_concurrent_pointerarray` reports is about the value or the index with which
it began.
-/

namespace MulleCore

open Library ConcurrentPointerarray

def PointerarrayCall.move : PointerarrayCall → PointerarrayMove
  | .add value => .add value
  | .get index none => .get index
  | .get _ (some search) => .find search

def PublishCaller.move : PublishCaller → PointerarrayMove
  | .added _ value | .again value => .add value
  | .put migration _ _ | .copied migration => migration.call.move

def countMove : Option (Pointer × Nat) → PointerarrayMove
  | none => .getCount
  | some (search, _) => .find search

def PointerarrayState.move : PointerarrayState → Option PointerarrayMove
  | .idle | .aborted => none
  | .countStorage search | .countRead _ search => some (countMove search)
  | .begin call | .migrateStorage _ call | .migrateNext _ call | .migrateLink _ call => some call.move
  | .addCount _ value | .addClaim _ _ value => some (.add value)
  | .getCount _ index search | .getEntry _ index search =>
    some (PointerarrayCall.get index search).move
  | .publishCount _ caller | .publishEntry _ _ caller | .publishAdvance _ _ caller => some caller.move
  | .copyRead migration _ _ | .copyFreeze migration _ _ | .copyPut migration _ _ _
  | .copyFollow migration _ _ _
  | .copyRetire migration _ _ _ | .migrateSwap migration => some migration.call.move

section Calls

variable {Thread : Type} {thread : Thread} {array after : ConcurrentPointerarray}
  {here there : PointerarrayState} {event : Option (PointerarrayEvent Thread)}

def PointerarrayEvent.Answers (thread : Thread) (called : PointerarrayMove) :
    PointerarrayEvent Thread → Prop
  | .filled mover value | .added mover value => mover = thread ∧ called = .add value
  | .got index _ => called = .get index
  | .counted _ => called = .getCount
  | .found search _ => called = .find search
  | .migrated _ => True

def PointerarrayServed (thread : Thread) (called : PointerarrayMove) (result : Result Thread) :
    Prop :=
  Served PointerarrayState.move called (PointerarrayEvent.Answers thread called) result

namespace ConcurrentPointerarray

theorem publishReturn_serves (p : Nat) (caller : PublishCaller) :
    PointerarrayServed thread caller.move (publishReturn thread array p caller) := by
  cases caller with
  | added i value =>
    exact served_reports (.inl rfl) ⟨rfl, rfl⟩
  | again | put | copied => exact served_silent rfl

theorem getReturn_serves (index : Nat) (value : Pointer) (search : Option Pointer) :
    PointerarrayServed thread (PointerarrayCall.get index search).move
      (getReturn array index value search) := by
  cases search with
  | none =>
    exact served_reports (.inl rfl) rfl
  | some search =>
    rw [getReturn]
    split
    · exact served_none
    · split
      · exact served_reports (.inl rfl) rfl
      · exact served_silent rfl

theorem countReturn_serves (n : Nat) (search : Option (Pointer × Nat)) :
    PointerarrayServed thread (countMove search) (countReturn array n search) := by
  cases search with
  | none =>
    exact served_reports (.inl rfl) rfl
  | some search =>
    rw [countReturn]
    split
    · exact served_reports (.inl rfl) rfl
    · exact served_silent rfl

theorem copyNext_move (migration : PointerarrayMigration) (dst i : Nat) :
    (copyNext array migration dst i).move = some migration.call.move := by
  rw [copyNext]
  split <;> rfl

theorem copyBegin_move (migration : PointerarrayMigration) :
    (copyBegin array migration).move = some migration.call.move := by
  rw [copyBegin]
  split <;> rfl

theorem copyValue_move (migration : PointerarrayMigration) (dst i : Nat) (value : Pointer) :
    (copyValue array migration dst i value).move = some migration.call.move := by
  rw [copyValue]
  split
  · rfl
  · split
    · exact copyNext_move migration dst _
    · rfl

theorem proceed_serves {called : PointerarrayMove} (inside : here.move = some called) :
    PointerarrayServed thread called (proceed thread array here) := by
  cases here with
  | idle | aborted => exact nomatch inside
  | countRead p search =>
    obtain rfl := Option.some.inj inside
    exact countReturn_serves _ search
  | begin call =>
    cases call with
    | add value => exact served_silent inside
    | get index search => exact served_silent inside
  | addCount p value =>
    rw [proceed]
    split <;> exact served_silent inside
  | addClaim p i value =>
    obtain rfl := Option.some.inj inside
    rw [proceed]
    split
    · exact served_none
    · split
      · exact served_silent rfl
      · split
        · exact served_reports (.inr rfl) ⟨rfl, rfl⟩
        · exact served_silent rfl
  | getCount p index search =>
    obtain rfl := Option.some.inj inside
    rw [proceed]
    split
    · exact getReturn_serves index 0 search
    · exact served_silent rfl
  | getEntry p index search =>
    obtain rfl := Option.some.inj inside
    rw [proceed]
    split
    · exact served_none
    · split
      · exact served_silent rfl
      · exact getReturn_serves index _ search
  | publishCount p caller =>
    obtain rfl := Option.some.inj inside
    rw [proceed]
    split
    · exact publishReturn_serves p caller
    · exact served_silent rfl
  | publishEntry p k caller =>
    obtain rfl := Option.some.inj inside
    rw [proceed]
    split
    · exact served_none
    · split
      · exact publishReturn_serves p caller
      · exact served_silent rfl
  | publishAdvance p k caller =>
    rw [proceed]
    split <;> exact served_silent inside
  | migrateStorage p call =>
    rw [proceed]
    split
    · exact served_silent inside
    · exact served_reports (.inr inside) trivial
  | migrateNext p call =>
    rw [proceed]
    split
    · exact served_silent ((copyBegin_move _).trans inside)
    · split
      · exact served_some (.inl rfl) nofun
      · exact served_silent inside
  | migrateLink p call =>
    rw [proceed]
    split <;> exact served_silent ((copyBegin_move _).trans inside)
  | copyRead migration dst i =>
    rw [proceed]
    split
    · exact served_none
    · exact served_silent ((copyValue_move migration dst i _).trans inside)
  | copyFreeze migration dst i =>
    rw [proceed]
    split
    · exact served_none
    · split
      · exact served_silent ((copyNext_move migration dst _).trans inside)
      · exact served_silent ((copyValue_move migration dst i _).trans inside)
  | copyPut migration dst i value =>
    rw [proceed]
    split
    · exact served_none
    · split
      · exact served_silent inside
      · split <;> exact served_silent inside
  | copyFollow migration dst i value =>
    rw [proceed]
    split
    · exact served_none
    · exact served_silent inside
  | copyRetire migration dst i value =>
    rw [proceed]
    split
    · exact served_none
    · split
      · exact served_silent ((copyNext_move migration dst _).trans inside)
      · exact served_silent ((copyValue_move migration dst i _).trans inside)
  | migrateSwap migration =>
    rw [proceed]
    split <;> exact served_reports (.inr inside) trivial
  | countStorage search => exact served_silent inside

theorem proceed_outside (outside : here.move = none) :
    proceed thread array here = some (array, here, none) := by
  cases here with
  | idle | aborted => rfl
  | _ => exact nomatch outside

theorem calls_served :
    CallsServed (@step Thread) .idle .proceed PointerarrayState.move PointerarrayEvent.Answers fun _
      _ _ => False where
  resting := rfl
  inside := proceed_serves
  outside := proceed_outside
  begins := by
    intro thread array here move after there event notProceed stepped
    cases move with
    | proceed => exact absurd rfl notProceed
    | add value | find value =>
      rw [step] at stepped
      split at stepped
      · cases stepped
        exact .inl ⟨rfl, rfl⟩
      · rename_i proper
        cases stepped
        exact .inr ⟨not_not.mp (not_or.mp proper).1, .inr rfl, nofun⟩
    | get index | getCount =>
      cases stepped
      split
      · rename_i idle
        exact .inr ⟨idle, .inr rfl, nofun⟩
      · exact .inl ⟨rfl, rfl⟩

end ConcurrentPointerarray

end Calls

end MulleCore
