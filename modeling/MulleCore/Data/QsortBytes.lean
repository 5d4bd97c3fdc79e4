import MulleCore.Library.Records
import MulleCore.Data.QsortSorts

/-!
`mulle_qsort_r` on the bytes in memory. Pointers are places in memory, and an item is the `es` bytes
at its place.
-/

namespace MulleCore

open Library

abbrev QsortItem (es : Nat) := { item : List UInt8 // item.length = es }

def qsortSwapfunc (bytes : List UInt8) (a b es : Nat) : Option (List UInt8) := swapBlocks es bytes a b

def qsortVecswap (bytes : List UInt8) (a b es : Nat) : Option (List UInt8) :=
  if es > 0 then qsortSwapfunc bytes a b es else some bytes

structure QsortCursors where
  bytes : List UInt8
  pa : Nat
  pb : Nat
  pc : Nat
  pd : Nat
  swapCnt : Bool

section Functions

variable {es : Nat} (cmp : QsortItem es → QsortItem es → Int)

def qsortItemAt (es : Nat) (bytes : List UInt8) (p : Nat) : Option (QsortItem es) :=
  if inside : (slice bytes p es).length = es then some ⟨slice bytes p es, inside⟩ else none

def qsortCmp (bytes : List UInt8) (a b : Nat) : Option Int := do
  let one ← qsortItemAt es bytes a
  let other ← qsortItemAt es bytes b
  some (cmp one other)

def qsortCmpMed3 (bytes : List UInt8) (a b c : Nat) : Option Nat := do
  let ab ← qsortCmp cmp bytes a b
  let bc ← qsortCmp cmp bytes b c
  let ac ← qsortCmp cmp bytes a c
  some (if ab < 0 then (if bc < 0 then b else if ac < 0 then c else a)
    else if bc > 0 then b else if ac < 0 then a else c)

def qsortInsert (a : Nat) : Nat → List UInt8 → Nat → Option (List UInt8)
  | 0, _, _ => none
  | fuel + 1, bytes, pl =>
    if pl > a then do
      let result ← qsortCmp cmp bytes (pl - es) pl
      if result > 0 then do
        let bytes ← qsortSwapfunc bytes pl (pl - es) es
        qsortInsert a fuel bytes (pl - es)
      else some bytes
    else some bytes

def qsortInsertAll (a n : Nat) : Nat → List UInt8 → Nat → Option (List UInt8)
  | 0, _, _ => none
  | fuel + 1, bytes, pm =>
    if pm < a + n * es then do
      let bytes ← qsortInsert cmp a (n + 1) bytes pm
      qsortInsertAll a n fuel bytes (pm + es)
    else some bytes

def qsortChoosePivot (bytes : List UInt8) (a n : Nat) : Option Nat :=
  let pm := a + n / 2 * es
  let pn := a + (n - 1) * es
  if n > 40 then do
    let d := n / 8 * es
    let pl ← qsortCmpMed3 cmp bytes a (a + d) (a + 2 * d)
    let pm ← qsortCmpMed3 cmp bytes (pm - d) pm (pm + d)
    let pn ← qsortCmpMed3 cmp bytes (pn - 2 * d) (pn - d) pn
    qsortCmpMed3 cmp bytes pl pm pn
  else if n > 7 then qsortCmpMed3 cmp bytes a pm pn
  else some pm

def qsortMoveUp (a : Nat) : Nat → QsortCursors → Option QsortCursors
  | 0, _ => none
  | fuel + 1, state =>
    if state.pb ≤ state.pc then do
      let result ← qsortCmp cmp state.bytes state.pb a
      if result ≤ 0 then
        if result = 0 then do
          let bytes ← qsortSwapfunc state.bytes state.pa state.pb es
          qsortMoveUp a fuel { state with
            bytes := bytes, pa := state.pa + es, pb := state.pb + es, swapCnt := true }
        else qsortMoveUp a fuel { state with pb := state.pb + es }
      else some state
    else some state

def qsortMoveDown (a : Nat) : Nat → QsortCursors → Option QsortCursors
  | 0, _ => none
  | fuel + 1, state =>
    if state.pb ≤ state.pc then do
      let result ← qsortCmp cmp state.bytes state.pc a
      if result ≥ 0 then
        if result = 0 then do
          let bytes ← qsortSwapfunc state.bytes state.pc state.pd es
          qsortMoveDown a fuel { state with
            bytes := bytes, pc := state.pc - es, pd := state.pd - es, swapCnt := true }
        else qsortMoveDown a fuel { state with pc := state.pc - es }
      else some state
    else some state

def qsortDivide (a n : Nat) : Nat → QsortCursors → Option QsortCursors
  | 0, _ => none
  | fuel + 1, state => do
      let state ← qsortMoveUp cmp a (n + 1) state
      let state ← qsortMoveDown cmp a (n + 1) state
      if state.pb > state.pc then some state
      else do
        let bytes ← qsortSwapfunc state.bytes state.pb state.pc es
        qsortDivide a n fuel { state with
          bytes := bytes, pb := state.pb + es, pc := state.pc - es, swapCnt := true }

def qsortCollect (es a n : Nat) (state : QsortCursors) : Option (List UInt8) := do
  let pn := a + n * es
  let d1 := min (state.pa - a) (state.pb - state.pa)
  let bytes ← qsortVecswap state.bytes a (state.pb - d1) d1
  let d1 := min (state.pd - state.pc) (pn - (state.pd + es))
  qsortVecswap bytes state.pb (pn - d1) d1

def qsortIfLonger (es : Nat) (sort : List UInt8 → Nat → Nat → Option (List UInt8))
    (bytes : List UInt8) (a d : Nat) :
    Option (List UInt8) :=
  if d > es then sort bytes a (d / es) else some bytes

/-- The smaller partition first, then the other one in the loop. -/
def qsortPartitions (es a n : Nat) (sort : List UInt8 → Nat → Nat → Option (List UInt8))
    (state : QsortCursors) :
    Option (List UInt8) := do
  let pn := a + n * es
  let bytes ← qsortCollect es a n state
  let d1 := state.pb - state.pa
  let d2 := state.pd - state.pc
  if d1 ≤ d2 then do
    let bytes ← qsortIfLonger es sort bytes a d1
    qsortIfLonger es sort bytes (pn - d2) d2
  else do
    let bytes ← qsortIfLonger es sort bytes (pn - d2) d2
    qsortIfLonger es sort bytes a d1

def qsortRInline : Nat → List UInt8 → Nat → Nat → Option (List UInt8)
  | 0, bytes, _, n => if n < 2 then some bytes else none
  | fuel + 1, bytes, a, n =>
    if n < 2 then some bytes
    else if n < 7 then qsortInsertAll cmp a n (n + 1) bytes (a + es)
    else do
      let pm ← qsortChoosePivot cmp bytes a n
      let bytes ← qsortSwapfunc bytes a pm es
      let state ← qsortDivide cmp a n n
        { bytes := bytes, pa := a + es, pb := a + es, pc := a + (n - 1) * es, pd := a + (n - 1) * es, swapCnt := false }
      if state.swapCnt then qsortPartitions es a n (qsortRInline fuel) state
      else qsortInsertAll cmp a n (n + 1) state.bytes (a + es)

/-- `a` is `none` for `NULL`. -/
def mulleQsortR (bytes : List UInt8) (a : Option Nat) (n : Nat) : Option (List UInt8) :=
  match a with
  | none => some bytes
  | some a => if n ≠ 0 ∧ es ≠ 0 then qsortRInline cmp n bytes a n else some bytes

end Functions

/-!
The sort on bytes does in memory what the sort on items does in the list of them.
-/

section Memory

variable {es : Nat}

def qsortMemory (front : List UInt8) (items : List (QsortItem es)) (back : List UInt8) : List UInt8 :=
  front ++ items.flatMap Subtype.val ++ back

def qsortPlace (front : List UInt8) (es index : Nat) : Nat := front.length + index * es

variable {front back : List UInt8} {items : List (QsortItem es)}

@[simp] theorem qsortPlace_zero : qsortPlace front es 0 = front.length := by simp [qsortPlace]

theorem qsortPlace_add (index more : Nat) :
    qsortPlace front es index + more * es = qsortPlace front es (index + more) := by
  simp [qsortPlace, Nat.add_mul, Nat.add_assoc]

theorem qsortPlace_succ (index : Nat) :
    qsortPlace front es index + es = qsortPlace front es (index + 1) := by
  simpa using @qsortPlace_add es front index 1

theorem qsortPlace_sub {index less : Nat} (enough : less ≤ index) :
    qsortPlace front es index - less * es = qsortPlace front es (index - less) := by
  obtain ⟨rest, rfl⟩ := Nat.exists_eq_add_of_le' enough
  rw [← qsortPlace_add, Nat.add_sub_cancel, Nat.add_sub_cancel]

theorem qsortPlace_pred {index : Nat} (positive : 1 ≤ index) :
    qsortPlace front es index - es = qsortPlace front es (index - 1) := by
  simpa using @qsortPlace_sub es front index 1 positive

theorem qsortPlace_diff (index other : Nat) :
    qsortPlace front es index - qsortPlace front es other = (index - other) * es := by
  rw [qsortPlace, qsortPlace, Nat.add_sub_add_left, Nat.sub_mul]

theorem qsortPlace_le (sized : 1 ≤ es) {index other : Nat} :
    qsortPlace front es index ≤ qsortPlace front es other ↔ index ≤ other := by
  rw [qsortPlace, qsortPlace, Nat.add_le_add_iff_left]
  exact Nat.mul_le_mul_right_iff sized

theorem qsortPlace_lt (sized : 1 ≤ es) {index other : Nat} :
    qsortPlace front es index < qsortPlace front es other ↔ index < other := by
  rw [qsortPlace, qsortPlace, Nat.add_lt_add_iff_left]
  exact Nat.mul_lt_mul_right sized

theorem qsortItems_length (items : List (QsortItem es)) :
    (items.flatMap Subtype.val).length = items.length * es := by
  induction items with
  | nil => simp
  | cons item items ih =>
    rw [List.flatMap_cons, List.length_append, item.property, ih, List.length_cons, Nat.succ_mul,
      Nat.add_comm]

theorem qsortMemory_append (first rest : List (QsortItem es)) :
    qsortMemory front (first ++ rest) back =
      qsortMemory (front ++ first.flatMap Subtype.val) rest back := by
  simp [qsortMemory]

theorem qsortMemory_append_back (first rest : List (QsortItem es)) :
    qsortMemory front (first ++ rest) back =
      qsortMemory front first (rest.flatMap Subtype.val ++ back) := by
  simp [qsortMemory]

theorem qsortPlace_length (first : List (QsortItem es)) :
    (front ++ first.flatMap Subtype.val).length = qsortPlace front es first.length := by
  rw [List.length_append, qsortItems_length, qsortPlace]

theorem qsortItemAt_memory {index : Nat} {item : QsortItem es} (itemAt : items[index]? = some item) :
    qsortItemAt es (qsortMemory front items back) (qsortPlace front es index) = some item := by
  obtain ⟨bound, rfl⟩ := List.getElem?_eq_some_iff.mp itemAt
  have cut : items = items.take index ++ items[index] :: items.drop (index + 1) := by
    rw [← List.drop_eq_getElem_cons, List.take_append_drop]
  have place : (front ++ (items.take index).flatMap Subtype.val).length =
      qsortPlace front es index := by
    rw [qsortPlace_length, List.length_take_of_le (Nat.le_of_lt bound)]
  have read : slice (qsortMemory front items back) (qsortPlace front es index) es =
      items[index].val := by
    rw [← place, congrArg (qsortMemory front · back) cut, qsortMemory_append, qsortMemory, slice,
      List.append_assoc, List.drop_left, List.flatMap_cons, List.append_assoc,
      List.take_left' items[index].property]
  simp only [qsortItemAt, read]
  exact dif_pos items[index].property

variable {cmp : QsortItem es → QsortItem es → Int}

theorem qsortCmp_memory {a b : Nat} {result : Int}
    (compared : qsortCompare cmp items a b = some result) :
    qsortCmp cmp (qsortMemory front items back) (qsortPlace front es a) (qsortPlace front es b) =
      some result := by
  obtain ⟨one, oneAt, compared⟩ := Option.bind_eq_some_iff.mp compared
  obtain ⟨other, otherAt, compared⟩ := Option.bind_eq_some_iff.mp compared
  simp only [qsortCmp, qsortItemAt_memory oneAt, qsortItemAt_memory otherAt, Option.bind_eq_bind,
    Option.bind_some]
  exact compared

theorem qsortSwapfunc_apart {next : List (QsortItem es)} {low high : Nat} (apart : low < high)
    (swapped : swapAt items low high = some next) :
    qsortSwapfunc (qsortMemory front items back) (qsortPlace front es low)
      (qsortPlace front es high) es = some (qsortMemory front next back) := by
  obtain ⟨one, oneAt, rest⟩ := Option.bind_eq_some_iff.mp swapped
  obtain ⟨other, otherAt, _⟩ := Option.bind_eq_some_iff.mp rest
  obtain ⟨lowBound, oneIs⟩ := List.getElem?_eq_some_iff.mp oneAt
  obtain ⟨highBound, otherIs⟩ := List.getElem?_eq_some_iff.mp otherAt
  obtain ⟨first, middle, last, rfl, firstLength, middleLength⟩ :
      ∃ first middle last, items = first ++ one :: middle ++ other :: last ∧ first.length = low ∧
        first.length + 1 + middle.length = high := by
    refine ⟨items.take low, (items.take high).drop (low + 1), items.drop (high + 1), ?_, ?_, ?_⟩
    · have bound : low < (items.take high).length := by
        rw [List.length_take]
        omega
      have start : items.take low ++ one :: (items.take high).drop (low + 1) = items.take high := by
        rw [← oneIs, ← @List.getElem_take _ items high low bound, ← List.drop_eq_getElem_cons bound,
          ← Nat.min_eq_left (Nat.le_of_lt apart), ← List.take_take,
          Nat.min_eq_left (Nat.le_of_lt apart), List.take_append_drop]
      rw [start, ← otherIs, ← List.drop_eq_getElem_cons, List.take_append_drop]
    · rw [List.length_take]
      omega
    · rw [List.length_take, List.length_drop, List.length_take]
      omega
  subst firstLength middleLength
  rw [swapAt_split, Option.some.injEq] at swapped
  subst swapped
  have exchanged := swapBlocks_split (front ++ first.flatMap Subtype.val)
    (middle.flatMap Subtype.val) (last.flatMap Subtype.val ++ back)
    (one.property.trans other.property.symm)
  have far : (front ++ first.flatMap Subtype.val).length + one.val.length +
      (middle.flatMap Subtype.val).length =
        qsortPlace front es (first.length + 1 + middle.length) := by
    rw [qsortPlace_length, one.property, qsortPlace_succ, qsortItems_length, qsortPlace_add]
  rw [far, qsortPlace_length, one.property] at exchanged
  simpa [qsortSwapfunc, qsortMemory] using exchanged

theorem qsortSwapfunc_memory {next : List (QsortItem es)} {a b : Nat}
    (swapped : swapAt items a b = some next) :
    qsortSwapfunc (qsortMemory front items back) (qsortPlace front es a) (qsortPlace front es b) es =
      some (qsortMemory front next back) := by
  rcases Nat.lt_trichotomy a b with below | same | above
  · exact qsortSwapfunc_apart below swapped
  · subst same
    obtain ⟨one, oneAt, rest⟩ := Option.bind_eq_some_iff.mp swapped
    obtain ⟨bound, rfl⟩ := List.getElem?_eq_some_iff.mp oneAt
    simp only [oneAt, Option.bind_eq_bind, Option.bind_some, List.set_getElem_self,
      Option.some.injEq] at rest
    subst rest
    apply swapBlocks_self
    have fits := Nat.mul_le_mul_right es bound
    rw [Nat.succ_mul] at fits
    rw [qsortMemory, qsortPlace, List.length_append, List.length_append, qsortItems_length]
    omega
  · rw [swapAt_comm] at swapped
    rw [qsortSwapfunc, swapBlocks_comm]
    exact qsortSwapfunc_apart above swapped

theorem swapBlocks_memory : ∀ {count : Nat} {items next : List (QsortItem es)} {a b : Nat},
    swapBlocks count items a b = some next →
    swapBlocks (count * es) (qsortMemory front items back) (qsortPlace front es a)
      (qsortPlace front es b) = some (qsortMemory front next back) := by
  intro count
  induction count with
  | zero =>
    intro items next a b swapped
    obtain rfl := Option.some.inj swapped
    rw [Nat.zero_mul]
    rfl
  | succ count ih =>
    intro items next a b swapped
    obtain ⟨middle, didSwap, rest⟩ := Option.bind_eq_some_iff.mp swapped
    have first := @qsortSwapfunc_memory es front back items middle a b didSwap
    rw [Nat.succ_mul, Nat.add_comm, swapBlocks_add]
    rw [qsortSwapfunc] at first
    rw [first, Option.bind_some, qsortPlace_succ, qsortPlace_succ]
    exact ih rest

theorem qsortVecswap_memory {count : Nat} {next : List (QsortItem es)} {a b : Nat}
    (swapped : swapBlocks count items a b = some next) :
    qsortVecswap (qsortMemory front items back) (qsortPlace front es a) (qsortPlace front es b)
      (count * es) = some (qsortMemory front next back) := by
  have exchanged := @swapBlocks_memory es front back count items next a b swapped
  rw [qsortVecswap]
  split
  · exact exchanged
  · rename_i empty
    rw [Nat.eq_zero_of_not_pos empty, swapBlocks] at exchanged
    exact exchanged

theorem qsortCmpMed3_memory {a b c middle : Nat} (found : qsortMed3 cmp items a b c = some middle) :
    qsortCmpMed3 cmp (qsortMemory front items back) (qsortPlace front es a) (qsortPlace front es b)
      (qsortPlace front es c) = some (qsortPlace front es middle) := by
  obtain ⟨ab, abCompared, found⟩ := Option.bind_eq_some_iff.mp found
  obtain ⟨bc, bcCompared, found⟩ := Option.bind_eq_some_iff.mp found
  obtain ⟨ac, acCompared, found⟩ := Option.bind_eq_some_iff.mp found
  obtain rfl := Option.some.inj found
  simp only [qsortCmpMed3, qsortCmp_memory abCompared, qsortCmp_memory bcCompared,
    qsortCmp_memory acCompared, Option.bind_eq_bind, Option.bind_some, Option.some.injEq]
  split_ifs <;> rfl

end Memory

end MulleCore
