import MulleCore.Library.Block
import MulleCore.Data.RangeSearch

/-!
`mulle--rangemap.c`. One block of 8 byte words holds `_size` ranges, two words
each, and behind them `_size` values. A result of `none` stands for an access
outside the block. The `assert` that a value is not NULL is not part of the model,
which takes every value; what `realloc` finds in fresh memory is a parameter.
-/

namespace MulleCore

open Library

structure Rangemap where
  storage : List UInt64
  length : Nat
  size : Nat

inductive RangemapStatus where
  | success
  | EINVAL
  | EADDRINUSE
  | ENOENT
  | EACCES
deriving DecidableEq

def rangemapInit (capacity : Nat) (fresh : Nat → UInt64) : Rangemap :=
  { storage := blockResize [] (3 * capacity) fresh, length := 0, size := capacity }

def rangemapWord (map : Rangemap) (index : Nat) : UInt64 :=
  map.storage[index]?.getD 0

def rangemapRangeAt (map : Rangemap) (index : Nat) : Range :=
  ⟨rangemapWord map (2 * index), rangemapWord map (2 * index + 1)⟩

def rangemapValueAt (map : Rangemap) (index : Nat) : UInt64 :=
  rangemapWord map (2 * map.size + index)

def rangemapRanges (map : Rangemap) : List Range :=
  table map.length (rangemapRangeAt map)

def rangemapGrow (map : Rangemap) (fresh : Nat → UInt64) : Option Rangemap :=
  let oldSize := map.size
  let newSize := if oldSize * 2 = 0 then 2 else oldSize * 2
  let storage := blockResize map.storage (3 * newSize) fresh
  -- the old values go to their new place behind the larger ranges
  match blockMove storage (2 * newSize) (2 * oldSize) map.length with
  | none => none
  | some storage => some { map with storage := storage, size := newSize }

def rangemapMakeRoom (map : Rangemap) (fresh : Nat → UInt64) : Option Rangemap :=
  if map.length ≥ map.size then rangemapGrow map fresh else some map

def rangemapPut (map : Rangemap) (index : Nat) (range : Range) (value : UInt64) :
    Option Rangemap := do
  let values := 2 * map.size
  let storage ← blockMove map.storage (2 * (index + 1)) (2 * index) (2 * (map.length - index))
  let storage ← blockMove storage (values + (index + 1)) (values + index) (map.length - index)
  let storage ← blockWrite storage (2 * index) range.location
  let storage ← blockWrite storage (2 * index + 1) range.length
  let storage ← blockWrite storage (values + index) value
  some { map with storage := storage, length := map.length + 1 }

def rangemapInsert (map : Rangemap) (range : Range) (value : UInt64) (fresh : Nat → UInt64) :
    Option (Rangemap × RangemapStatus) :=
  if range.length = 0 ∨ rangeIsValid range = false then some (map, .EINVAL)
  else
    match rangeIntersectsBsearch (rangemapRanges map) range with
    | some _ => some (map, .EADDRINUSE)
    | none => do
        let map ← rangemapMakeRoom map fresh
        let index := rangeHoleBsearch (rangemapRanges map) range.location
        let map ← rangemapPut map index range value
        some (map, .success)

def rangemapTake (map : Rangemap) (index : Nat) : Option Rangemap := do
  let values := 2 * map.size
  let n := map.length - 1
  if n ≠ 0 then
    let storage ← blockMove map.storage (2 * index) (2 * (index + 1)) (2 * (n - index))
    let storage ← blockMove storage (values + index) (values + (index + 1)) (n - index)
    some { map with storage := storage, length := n }
  else some { map with length := n }

def rangemapRemove (map : Rangemap) (range : Range) : Option (Rangemap × RangemapStatus) :=
  if range.length = 0 ∨ rangeIsValid range = false then some (map, .EINVAL)
  else
    match rangeIntersectsBsearch (rangemapRanges map) range with
    | none => some (map, .ENOENT)
    | some found =>
      if rangeEquals (rangemapRangeAt map found) range = false then some (map, .EACCES)
      else do
        let map ← rangemapTake map found
        some (map, .success)

def rangemapReset (map : Rangemap) : Rangemap :=
  { map with length := 0 }

inductive RangemapOp where
  | insert (range : Range) (value : UInt64) (fresh : Nat → UInt64)
  | remove (range : Range)
  | reset

def RangemapOp.apply (map : Rangemap) : RangemapOp → Option (Rangemap × RangemapStatus)
  | .insert range value fresh => rangemapInsert map range value fresh
  | .remove range => rangemapRemove map range
  | .reset => some (rangemapReset map, .success)

def rangemapRun (map : Rangemap) : List RangemapOp → Option (Rangemap × List RangemapStatus)
  | [] => some (map, [])
  | op :: rest => do
      let (next, status) ← op.apply map
      let (final, statuses) ← rangemapRun next rest
      some (final, status :: statuses)

end MulleCore
