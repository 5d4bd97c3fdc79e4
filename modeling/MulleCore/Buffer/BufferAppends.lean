import MulleCore.Buffer.BufferRefines

/-!
Statements that append a text to a flexible buffer, one after the other.
-/

namespace MulleCore

open Library

def bufferWhen (condition : Bool) (statement : MulleBuffer → Option MulleBuffer)
    (buffer : MulleBuffer) :
    Option MulleBuffer :=
  if condition then statement buffer else some buffer

def Appends (statement : MulleBuffer → Option MulleBuffer) (text : List UInt8) : Prop :=
  ∀ all buffer, FlexibleHolds all buffer →
    ∃ next, statement buffer = some next ∧ FlexibleHolds (all ++ text) next

section Appends

variable (env : BufferEnv) (fresh : Nat → UInt8)
  {first second : MulleBuffer → Option MulleBuffer} {text more : List UInt8}

theorem Appends.andThen (left : Appends first text) (right : Appends second more) :
    Appends (first >=> second) (text ++ more) := by
  intro all buffer holds
  obtain ⟨between, done, betweenHolds⟩ := left all buffer holds
  obtain ⟨next, finished, nextHolds⟩ := right _ between betweenHolds
  refine ⟨next, ?_, by rwa [List.append_assoc] at nextHolds⟩
  simp only [Bind.kleisliRight, done, Option.bind_eq_bind, Option.bind_some, finished]

theorem Appends.congr (appends : Appends first text) (same : text = more) : Appends first more :=
  same ▸ appends

theorem Appends.nothing : Appends some [] :=
  fun all buffer holds => ⟨buffer, rfl, by rwa [List.append_nil]⟩

theorem Appends.whenever (condition : Bool) (appends : Appends first text) :
    Appends (bufferWhen condition first) (if condition then text else []) := by
  cases condition
  · exact Appends.nothing
  · exact appends

theorem appends_addByte (c : UInt8) : Appends (bufferAddByte env fresh · c) [c] :=
  fun _ _ holds => holds.addByte env fresh c

theorem appends_addEach (bytes : List UInt8) : Appends (bufferAddEach env fresh · bytes) bytes :=
  fun _ _ holds => (flexibleSink env 0).addEach fresh bytes holds

theorem appends_addBytes (bytes : List UInt8) : Appends (bufferAddBytes env fresh · bytes) bytes :=
  fun _ _ holds => (flexibleSink env 0).addBytes fresh bytes holds

theorem appends_memset (c : UInt8) (length : Nat) :
    Appends (bufferMemset env fresh · c length) (List.replicate length c) :=
  fun _ _ holds => (flexibleSink env 0).memset fresh c length holds

theorem appends_addString (bytes : List UInt8) :
    Appends (bufferAddString env fresh · bytes) (bytes.takeWhile (· ≠ 0)) :=
  fun _ _ holds => (flexibleSink env 0).addString fresh bytes holds

theorem FlexibleHolds.fillGuaranteed {all : List UInt8} {buffer : MulleBuffer}
    (holds : FlexibleHolds all buffer) (capacity : Nat) (positive : 0 < capacity)
    (text : List UInt8) (fits : text.length ≤ capacity) :
    ∃ between space filled next reserved, bufferGuarantee env fresh buffer capacity =
      some (between, some space) ∧
      bufferFill between space text = some filled ∧
      bufferAdvance env fresh filled text.length = some (next, reserved) ∧
      FlexibleHolds (all ++ text) next := by
  obtain ⟨between, reserved, guaranteed, betweenHolds, room, space⟩ :=
    holds.guarantee env fresh capacity
  obtain rfl : reserved = some between.curr := space.resolve_right fun nothing => by omega
  have notNull : between.place ≠ .null := betweenHolds.ne_null (by omega)
  obtain ⟨storage, pasted, length, content⟩ :=
    blockPaste_take between.storage text between.curr (by omega)
  have notMissing : ¬ bufferMissing { between with storage := storage } text.length > 0 := by
    rw [bufferMissing, if_neg notNull, length]
    dsimp only
    omega
  refine ⟨between, between.curr, { between with storage := storage },
    { between with storage := storage, curr := between.curr + text.length }, some between.curr,
    guaranteed, ?_, ?_, ?_⟩
  · rw [bufferFill, pasted]
    rfl
  · rw [bufferAdvance, bufferGuarantee, if_neg betweenHolds.not_overflown, if_neg notMissing,
      bufferCurr, if_neg notNull]
    rfl
  · refine ⟨⟨betweenHolds.ordinary, ?_, fun null => absurd null notNull, ?_⟩, betweenHolds.flexible⟩
    · dsimp only
      omega
    · dsimp only
      rw [content, betweenHolds.content]

theorem Appends.unique (appends : Appends first text) (other : Appends first more) : text = more := by
  have empty : FlexibleHolds [] (bufferInit 0) := ⟨⟨rfl, le_rfl, fun _ => rfl, rfl⟩, rfl⟩
  obtain ⟨next, done, nextHolds⟩ := appends [] _ empty
  obtain ⟨same, again, sameHolds⟩ := other [] _ empty
  obtain rfl := Option.some.inj (done.symm.trans again)
  have contents := nextHolds.content.symm.trans sameHolds.content
  simpa using contents

end Appends

end MulleCore
