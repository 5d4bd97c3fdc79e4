import MulleCore.Concurrent.ConcurrentPointerset
import MulleCore.Library.Calls

/-!
What a call of a `mulle_concurrent_pointerset` reports is about the pointer with which it began.
-/

namespace MulleCore

open Library

namespace ConcurrentPointerset

def Call.move : Call → Move
  | .add adder ptr => .add adder ptr
  | .member ptr => .member ptr

def Caller.move (ptr : Pointer) : Caller → Move
  | .add adder => .add adder ptr
  | .copy migration _ => migration.call.move

def State.move : State → Option Move
  | .idle | .aborted => none
  | .begin call | .migrateStorage _ call | .migrateNext _ call | .migrateLink _ call => some call.move
  | .addUsed _ adder ptr => some (.add adder ptr)
  | .probe _ _ ptr caller | .claim _ _ ptr caller | .increment _ ptr caller => some (caller.move ptr)
  | .member _ _ ptr => some (.member ptr)
  | .copyRead migration _ | .copyFreeze migration _ | .copyRetire migration _ _
  | .migrateSwap migration =>
    some migration.call.move

section Calls

variable {Thread : Type} {thread : Thread} {set after : ConcurrentPointerset} {here there : State}
  {event : Option (Event Thread)} {called : Move}

/-- The thread reports this of a call. What is copied need not be the pointer of its call. -/
def Event.Answers (thread : Thread) (called : Move) : Event Thread → Prop
  | .claimed (some mover) _ _ ptr => mover = thread ∧ ∃ adder, called = .add adder ptr
  | .claimed none _ _ _ => True
  | .added mover ptr _ => mover = thread ∧ ∃ adder, called = .add adder ptr
  | .member ptr _ => called = .member ptr
  | .migrated _ => True

def CallServed (thread : Thread) (called : Move) (result : Result Thread) : Prop :=
  Served State.move called (Event.Answers thread called) result

theorem copyNext_move (migration : Migration) (i : Nat) :
    (copyNext set migration i).move = some migration.call.move := by
  rw [copyNext]
  split <;> rfl

theorem copyBegin_move (migration : Migration) :
    (copyBegin set migration).move = some migration.call.move := by
  rw [copyBegin]
  split <;> rfl

theorem copyValue_move (migration : Migration) (i : Nat) (value : Pointer) :
    (copyValue set migration i value).move = some migration.call.move := by
  rw [copyValue]
  split
  · rfl
  · split
    · exact copyNext_move migration _
    · rfl

theorem inserted_served (ptr : Pointer) (caller : Caller) :
    CallServed thread (caller.move ptr) (inserted thread set ptr caller) := by
  cases caller with
  | add adder => exact served_reports (.inl rfl) ⟨rfl, adder, rfl⟩
  | copy migration i => exact served_silent rfl

theorem alreadyPresent_served (ptr : Pointer) (caller : Caller) :
    CallServed thread (caller.move ptr) (alreadyPresent thread set ptr caller) := by
  cases caller with
  | add adder => exact served_reports (.inl rfl) ⟨rfl, adder, rfl⟩
  | copy migration i => exact served_silent rfl

theorem busy_served (p : Nat) (ptr : Pointer) (caller : Caller) :
    CallServed thread (caller.move ptr) (busy set p ptr caller) := by
  cases caller <;> exact served_silent rfl

theorem probeOn_served (p probes : Nat) (ptr : Pointer) (caller : Caller) :
    CallServed thread (caller.move ptr) (probeOn set p probes ptr caller) := by
  rw [probeOn]
  split
  · exact busy_served p ptr caller
  · exact served_silent rfl

theorem proceed_served (inside : here.move = some called) :
    CallServed thread called (proceed thread set here) := by
  cases here with
  | idle | aborted => exact nomatch inside
  | begin call => cases call <;> exact served_silent inside
  | addUsed p adder ptr =>
    rw [proceed]
    split
    · exact served_silent inside
    · split <;> exact served_silent inside
  | probe p probes ptr caller =>
    obtain rfl := Option.some.inj inside
    rw [proceed]
    split
    · exact served_none
    · split
      · exact served_none
      · split
        · exact alreadyPresent_served ptr caller
        · split
          · exact served_silent rfl
          · split
            · exact busy_served p ptr caller
            · exact probeOn_served p probes ptr caller
  | claim p probes ptr caller =>
    obtain rfl := Option.some.inj inside
    rw [proceed]
    split
    · exact served_none
    · split
      · refine served_reports (.inr rfl) ?_
        cases caller with
        | add adder => exact ⟨rfl, adder, rfl⟩
        | copy => trivial
      · split
        · exact busy_served p ptr caller
        · split
          · exact alreadyPresent_served ptr caller
          · exact probeOn_served p probes ptr caller
  | increment p ptr caller =>
    obtain rfl := Option.some.inj inside
    exact inserted_served ptr caller
  | member p probes ptr =>
    obtain rfl := Option.some.inj inside
    rw [proceed]
    split
    · exact served_none
    · split
      · exact served_reports (.inl rfl) rfl
      · split
        · exact served_reports (.inl rfl) rfl
        · split
          · exact served_silent rfl
          · split
            · exact served_reports (.inl rfl) rfl
            · exact served_silent rfl
  | migrateStorage p call =>
    rw [proceed]
    split
    · exact served_silent inside
    · exact served_reports (.inr inside) trivial
  | migrateNext p call =>
    rw [proceed]
    split
    · exact served_silent ((copyBegin_move _).trans inside)
    · split
      · exact served_some (.inl rfl) nofun
      · exact served_silent inside
  | migrateLink p call =>
    rw [proceed]
    split <;> exact served_silent ((copyBegin_move _).trans inside)
  | copyRead migration i =>
    rw [proceed]
    split
    · exact served_none
    · exact served_silent ((copyValue_move migration i _).trans inside)
  | copyFreeze migration i =>
    rw [proceed]
    split
    · exact served_none
    · split
      · exact served_silent ((copyNext_move migration _).trans inside)
      · exact served_silent ((copyValue_move migration i _).trans inside)
  | copyRetire migration i value =>
    rw [proceed]
    split
    · exact served_none
    · split
      · exact served_silent ((copyNext_move migration _).trans inside)
      · exact served_silent ((copyValue_move migration i _).trans inside)
  | migrateSwap migration =>
    rw [proceed]
    split <;> exact served_reports (.inr inside) trivial

theorem proceed_outside (outside : here.move = none) :
    proceed thread set here = some (set, here, none) := by
  cases here with
  | idle | aborted => rfl
  | _ => exact nomatch outside

theorem calls_served :
    CallsServed (@step Thread) .idle .proceed State.move Event.Answers fun _ _ _ => False where
  resting := rfl
  inside := proceed_served
  outside := proceed_outside
  begins := by
    intro thread set here move after there event notProceed stepped
    cases move with
    | proceed => exact absurd rfl notProceed
    | add | member =>
      rw [step] at stepped
      split at stepped
      · cases stepped
        exact .inl ⟨rfl, rfl⟩
      · rename_i proper
        cases stepped
        exact .inr ⟨not_not.mp (not_or.mp proper).1, .inr rfl, nofun⟩

end Calls

end ConcurrentPointerset

end MulleCore
