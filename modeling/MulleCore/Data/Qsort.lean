import MulleCore.Library.Sorting

/-!
`mulle-qsort.h`. `_mulle_qsort_r_inline` sorts the `n` items from `a` on and touches
nothing else, so it is a function on the list of these items; pointers are places in
it. A result of `none` stands for an access outside of the items, or a loop that does
not end in the steps it is given.
-/

namespace MulleCore

open Library

section Qsort

variable {Item : Type} (cmp : Item → Item → Int)

def qsortCompare (items : List Item) (a b : Nat) : Option Int := do
  let one ← items[a]?
  let other ← items[b]?
  some (cmp one other)

def qsortMed3 (items : List Item) (a b c : Nat) : Option Nat := do
  let ab ← qsortCompare cmp items a b
  let bc ← qsortCompare cmp items b c
  let ac ← qsortCompare cmp items a c
  some (if ab < 0 then (if bc < 0 then b else if ac < 0 then c else a)
    else if bc > 0 then b else if ac < 0 then a else c)

def qsortSink : Nat → List Item → Option (List Item)
  | 0, items => some items
  | pl + 1, items => do
      let result ← qsortCompare cmp items pl (pl + 1)
      if result > 0 then do
        let items ← swapAt items (pl + 1) pl
        qsortSink pl items
      else some items

def qsortInsertionFrom : Nat → Nat → List Item → Option (List Item)
  | 0, _, items => some items
  | remaining + 1, pm, items => do
      let items ← qsortSink cmp pm items
      qsortInsertionFrom remaining (pm + 1) items

def qsortInsertion (items : List Item) : Option (List Item) :=
  qsortInsertionFrom cmp (items.length - 1) 1 items

def qsortPivot (items : List Item) : Option Nat :=
  let n := items.length
  let pm := n / 2
  if n > 40 then do
    let d := n / 8
    let pl ← qsortMed3 cmp items 0 d (2 * d)
    let middle ← qsortMed3 cmp items (pm - d) pm (pm + d)
    let pn ← qsortMed3 cmp items (n - 1 - 2 * d) (n - 1 - d) (n - 1)
    qsortMed3 cmp items pl middle pn
  else if n > 7 then qsortMed3 cmp items 0 pm (n - 1)
  else some pm

structure QsortPartition (Item : Type) where
  items : List Item
  pa : Nat
  pb : Nat
  pc : Nat
  pd : Nat
  swapCnt : Bool

def qsortScanUp : Nat → QsortPartition Item → Option (QsortPartition Item)
  | 0, _ => none
  | fuel + 1, state =>
    if state.pb ≤ state.pc then do
      let result ← qsortCompare cmp state.items state.pb 0
      if result ≤ 0 then
        if result = 0 then do
          let items ← swapAt state.items state.pa state.pb
          qsortScanUp fuel { state with
            items := items, pa := state.pa + 1, pb := state.pb + 1, swapCnt := true }
        else qsortScanUp fuel { state with pb := state.pb + 1 }
      else some state
    else some state

def qsortScanDown : Nat → QsortPartition Item → Option (QsortPartition Item)
  | 0, _ => none
  | fuel + 1, state =>
    if state.pb ≤ state.pc then do
      let result ← qsortCompare cmp state.items state.pc 0
      if result ≥ 0 then
        if result = 0 then do
          let items ← swapAt state.items state.pc state.pd
          qsortScanDown fuel { state with
            items := items, pc := state.pc - 1, pd := state.pd - 1, swapCnt := true }
        else qsortScanDown fuel { state with pc := state.pc - 1 }
      else some state
    else some state

def qsortPartition : Nat → QsortPartition Item → Option (QsortPartition Item)
  | 0, _ => none
  | fuel + 1, state => do
      let state ← qsortScanUp cmp (state.items.length + 1) state
      let state ← qsortScanDown cmp (state.items.length + 1) state
      if state.pb > state.pc then some state
      else do
        let items ← swapAt state.items state.pb state.pc
        qsortPartition fuel { state with
          items := items, pb := state.pb + 1, pc := state.pc - 1, swapCnt := true }

def qsortGather (state : QsortPartition Item) : Option (List Item) := do
  let n := state.items.length
  let left := min state.pa (state.pb - state.pa)
  let items ← swapBlocks left state.items 0 (state.pb - left)
  let right := min (state.pd - state.pc) (n - (state.pd + 1))
  swapBlocks right items state.pb (n - right)

def qsortPart (sort : List Item → Option (List Item)) (items : List Item) : Option (List Item) :=
  if items.length > 1 then sort items else some items

/-- Which part is sorted first makes no difference to the other. -/
def qsortParts (sort : List Item → Option (List Item)) (state : QsortPartition Item) :
    Option (List Item) := do
  let items ← qsortGather state
  let d1 := state.pb - state.pa
  let d2 := state.pd - state.pc
  let left ← qsortPart sort (items.take d1)
  let right ← qsortPart sort (items.drop (items.length - d2))
  some (left ++ (items.drop d1).take (items.length - d2 - d1) ++ right)

def qsortInline : Nat → List Item → Option (List Item)
  | 0, items => if items.length < 2 then some items else none
  | fuel + 1, items =>
    if items.length < 2 then some items
    else if items.length < 7 then qsortInsertion cmp items
    else do
      let pm ← qsortPivot cmp items
      let items ← swapAt items 0 pm
      let state ← qsortPartition cmp items.length
        { items := items, pa := 1, pb := 1, pc := items.length - 1, pd := items.length - 1
          swapCnt := false }
      if state.swapCnt then qsortParts (qsortInline fuel) state
      else qsortInsertion cmp state.items

def mulleQsort (items : List Item) : Option (List Item) :=
  qsortInline cmp items.length items

end Qsort

end MulleCore
