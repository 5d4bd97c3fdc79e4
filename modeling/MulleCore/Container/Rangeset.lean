import MulleCore.Container.Math
import MulleCore.Data.RangeSearch

/-!
`mulle--rangeset.c`. The entries of the array are a list, so that `memmove` by
one entry is the removal or insertion of an element. A result of `none` stands
for a loop that runs on forever. `rangesetInsertRange` and `rangesetRemoveRange`
are the functions with two leading underscores.
-/

namespace MulleCore

structure Rangeset where
  ranges : List Range
  size : Nat
  isStatic : Bool  -- `_ranges` still is `_initial_storage`
deriving DecidableEq

def rangesetMinSize : Nat := 2

def rangesetInit (capacity : Nat) : Rangeset := ⟨[], capacity, false⟩

def rangesetGrow (p : Rangeset) : Rangeset :=
  let newSize := pow2roundup (p.size * 2)
  let newSize := if newSize = 0 then rangesetMinSize else newSize
  { p with size := newSize, isStatic := false }

def rangesetReserve (additional : Nat) : Nat → Rangeset → Option Rangeset
  | 0, _ => none
  | fuel + 1, p =>
    if p.ranges.length + additional ≤ p.size then some p
    else rangesetReserve additional fuel (rangesetGrow p)

def rangesetShrinkSize (length : Nat) : Nat → Nat → Nat
  | 0, newSize => newSize
  | fuel + 1, newSize =>
    let size := newSize / 2
    if size > rangesetMinSize ∧ size ≥ length then rangesetShrinkSize length fuel size
    else newSize

def rangesetShrink (p : Rangeset) : Rangeset :=
  let newSize := rangesetShrinkSize p.ranges.length p.size p.size
  if newSize ≥ p.size then p
  else if p.isStatic then p
  else { p with size := newSize }

def rangesetReset (p : Rangeset) : Rangeset :=
  rangesetShrink { p with ranges := [] }

def rangesetMoveUp (p : Rangeset) (index : Nat) (range : Range) : Option Rangeset :=
  match rangesetReserve 1 (p.ranges.length + 2) p with
  | none => none
  | some p => some { p with ranges := p.ranges.insertIdx index range }

def rangesetCoalescePrev (ranges : List Range) (index : Nat) (range : Range) :
    List Range × Bool :=
  if index ≠ 0 then
    let prev := rangeAt ranges (index - 1)
    if rangeGetMax prev = range.location then
      (ranges.set (index - 1) { prev with length := prev.length + range.length }, true)
    else (ranges, false)
  else (ranges, false)

def rangesetCoalesceNext (ranges : List Range) (index : Nat) (range : Range) (hasPrev : Bool) :
    Option (List Range) :=
  if index < ranges.length then
    let next := rangeAt ranges index
    if rangeGetMax range = next.location then
      let prev := rangeAt ranges (index - 1)
      if hasPrev ∧ rangeGetMax prev = next.location then
        some ((ranges.set (index - 1) { prev with length := prev.length + next.length }).eraseIdx
          index)
      else
        some (ranges.set index
          { location := next.location - range.length, length := next.length + range.length })
    else none
  else none

def rangesetInsertKnownAbsent (p : Rangeset) (range : Range) : Option Rangeset :=
  if range.length = 0 then some p
  else
    let index := rangeHoleBsearch p.ranges range.location
    let (ranges, hasPrev) := rangesetCoalescePrev p.ranges index range
    match rangesetCoalesceNext ranges index range hasPrev with
    | some coalesced => some { p with ranges := coalesced }
    | none =>
      if hasPrev then some { p with ranges := ranges }
      else rangesetMoveUp p index range

/-- `loop_2`: entries before the current one that the range reaches swallow it.
The last one that does is widened to the start of the range. -/
def rangesetOverflowFront (range : Range) : Nat → List Range → List Range × Nat
  | 0, ranges => (rangesetWidenFront ranges 0, 0)
  | prev + 1, ranges =>
    let previous := rangeAt ranges prev
    if (rangeIntersection previous range).length = 0 then
      (rangesetWidenFront ranges (prev + 1), prev + 1)
    else
      let curr := rangeAt ranges (prev + 1)
      let grown := { previous with
        length := previous.length + (curr.location - rangeGetMax previous + curr.length) }
      rangesetOverflowFront range prev ((ranges.set prev grown).eraseIdx (prev + 1))
where
  rangesetWidenFront (ranges : List Range) (index : Nat) : List Range :=
    let curr := rangeAt ranges index
    if range.location < curr.location then
      ranges.set index
        { location := range.location, length := curr.length + (curr.location - range.location) }
    else ranges

/-- `loop_3`: the current entry swallows the entries behind it that the range
reaches, then it is widened to the end of the range. -/
def rangesetOverflowBack (range : Range) (index : Nat) : Nat → List Range → Option (List Range)
  | 0, _ => none
  | fuel + 1, ranges =>
    let curr := rangeAt ranges index
    let next := rangeAt ranges (index + 1)
    if index + 1 ≥ ranges.length ∨ (rangeIntersection next range).length = 0 then
      let length := rangeGetMax range - curr.location
      if length > curr.length then some (ranges.set index { curr with length := length })
      else some ranges
    else
      let grown := { curr with length := rangeGetMax next - curr.location }
      rangesetOverflowBack range index fuel ((ranges.set index grown).eraseIdx (index + 1))

def rangesetInsertOverlapping (ranges : List Range) (range : Range) (found : Nat) :
    Option (List Range) :=
  if rangeContains (rangeAt ranges found) range then some ranges
  else
    let (ranges, found) :=
      if range.location < (rangeAt ranges found).location then
        rangesetOverflowFront range found ranges
      else (ranges, found)
    if rangeGetMax range > rangeGetMax (rangeAt ranges found) then
      rangesetOverflowBack range found (ranges.length + 1) ranges
    else some ranges

def rangesetInsertRange (p : Rangeset) (range : Range) : Option Rangeset :=
  if range.length = 0 then some p
  else if rangeIsValid range = false then some p
  else
    match rangeIntersectsBsearch p.ranges range with
    | none => rangesetInsertKnownAbsent p range
    | some found =>
      match rangesetInsertOverlapping p.ranges range found with
      | none => none
      | some ranges => some { p with ranges := ranges }

def rangesetRemoveLoop (range : Range) : Nat → Rangeset → Option Rangeset
  | 0, _ => none
  | fuel + 1, p =>
    match rangeIntersectsBsearch p.ranges range with
    | none => some p
    | some index =>
      let found := rangeAt p.ranges index
      if rangeContains range found then
        rangesetRemoveLoop range fuel { p with ranges := p.ranges.eraseIdx index }
      else
        let foundEnd := rangeGetMax found
        let rangeEnd := rangeGetMax range
        if range.location > found.location ∧ rangeEnd < foundEnd then
          let front := { found with length := range.location - found.location }
          let newRange := rangeMake rangeEnd (foundEnd - rangeEnd)
          match rangesetInsertKnownAbsent { p with ranges := p.ranges.set index front }
              newRange with
          | none => none
          | some p => rangesetRemoveLoop range fuel p
        else if rangeEnd < foundEnd then
          let back := { location := rangeEnd, length := foundEnd - rangeEnd }
          rangesetRemoveLoop range fuel { p with ranges := p.ranges.set index back }
        else
          let front := { found with length := range.location - found.location }
          rangesetRemoveLoop range fuel { p with ranges := p.ranges.set index front }

def rangesetRemoveRange (p : Rangeset) (range : Range) : Option Rangeset :=
  if range.length = 0 then some p
  else if rangeIsValid range = false then some p
  else rangesetRemoveLoop range (p.ranges.length + 1) p

def rangesetInsert (p : Rangeset) (range : Range) : Option Rangeset :=
  if range.length = 0 then some p
  else if rangeIsValid range = false then some p
  else rangesetInsertRange p range

def rangesetRemove (p : Rangeset) (range : Range) : Option Rangeset :=
  if range.length = 0 then some p
  else if rangeIsValid range = false then some p
  else rangesetRemoveRange p range

def rangesetInsertRanges (p : Rangeset) (ranges : List Range) : Option Rangeset :=
  ranges.foldlM rangesetInsertRange p

def rangesetRemoveRanges (p : Rangeset) (ranges : List Range) : Option Rangeset :=
  match ranges.foldlM rangesetRemoveRange p with
  | none => none
  | some p => some (rangesetShrink p)

inductive RangesetOp where
  | insert (range : Range)
  | remove (range : Range)
  | insertRanges (ranges : List Range)
  | removeRanges (ranges : List Range)
  | reset

def RangesetOp.apply (p : Rangeset) : RangesetOp → Option Rangeset
  | .insert range => rangesetInsert p range
  | .remove range => rangesetRemove p range
  | .insertRanges ranges => rangesetInsertRanges p ranges
  | .removeRanges ranges => rangesetRemoveRanges p ranges
  | .reset => some (rangesetReset p)

def rangesetRun (p : Rangeset) (ops : List RangesetOp) : Option Rangeset :=
  ops.foldlM RangesetOp.apply p

end MulleCore
