import MulleCore.Library.ByteMemory
import MulleCore.Data.Word
import MulleCore.Library.Simulation

/-!
`mulle-arena.h`, built without `DEBUG`. Addresses and sizes are words of 64 bits. A
result of `none` stands for a failed `assert` or a call to `_mulle_allocator_abort`.
Where the default allocator puts a new page (`page`) is a parameter.
-/

namespace MulleCore

open Library

structure ArenaMaxAlign where
  log : Nat
  holdsSize : 3 ≤ log
  isUnsigned : log < 32

def ArenaMaxAlign.bytes (align : ArenaMaxAlign) : Nat := 2 ^ align.log

structure ArenaPage where
  address : Nat
  size : Nat
deriving DecidableEq

structure MulleArena where
  pages : List ArenaPage
  current : Nat
  sentinel : Nat
  last : Nat
  pageSize : Nat
  pageIndex : Nat
  memory : ByteMemory

def arenaAlignPointer (p alignment : Nat) : Nat :=
  let mask := alignment - 1
  wordAdd p mask &&& (2 ^ 64 - (mask + 1))

def arenaKeepsPage (arena : MulleArena) (minSize : Nat) : Prop :=
  minSize ≤ arena.pageSize ∧ arena.pageIndex + 1 < arena.pages.length

instance (arena : MulleArena) (minSize : Nat) : Decidable (arenaKeepsPage arena minSize) :=
  inferInstanceAs (Decidable (_ ∧ _))

def arenaPageBytes (arena : MulleArena) (minSize : Nat) : Nat :=
  if minSize > arena.pageSize then minSize else arena.pageSize

def arenaNewPage (arena : MulleArena) (minSize page : Nat) : MulleArena :=
  if kept : arenaKeepsPage arena minSize then
    let page := (arena.pages.get ⟨arena.pageIndex + 1, kept.2⟩).address
    { arena with
      pageIndex := arena.pageIndex + 1
      current := page
      sentinel := wordAdd page arena.pageSize }
  else
    let actualSize := arenaPageBytes arena minSize
    let pages := arena.pages ++ [⟨page, actualSize⟩]
    { arena with
      pages := pages
      pageIndex := pages.length - 1
      current := page
      sentinel := wordAdd page actualSize
      memory := writeBytes arena.memory page (List.replicate actualSize 0) }

def arenaInit (memory : ByteMemory) (pageSize : Nat) : MulleArena where
  pages := []
  current := 0
  sentinel := 0
  last := 0
  pageSize := if pageSize = 0 then 4096 else pageSize
  pageIndex := 0
  memory := memory

def arenaZeroPages (memory : ByteMemory) (pageSize : Nat) : List ArenaPage → ByteMemory
  | [] => memory
  | page :: pages =>
    arenaZeroPages (writeBytes memory page.address (List.replicate pageSize 0)) pageSize pages

def arenaResetKeepPages (arena : MulleArena) (keepCount : Nat) : MulleArena :=
  if arena.pages = [] then arena
  else
    let kept := arena.pages.take keepCount
    let arena := { arena with
      pages := kept
      memory := arenaZeroPages arena.memory arena.pageSize kept
      last := 0
      pageIndex := 0 }
    match kept with
    | [] => { arena with current := 0, sentinel := 0 }
    | page :: _ => { arena with
        current := page.address
        sentinel := wordAdd page.address arena.pageSize }

def arenaBump (arena : MulleArena) (size alignment : Nat) : MulleArena × Nat :=
  let aligned := arenaAlignPointer arena.current alignment
  ({ arena with current := wordAdd aligned size, last := aligned }, aligned)

def arenaAlloc (arena : MulleArena) (size alignment page : Nat) : Option (MulleArena × Nat) :=
  if size > 0 ∧ alignment > 0 ∧ alignment &&& (alignment - 1) = 0 then
    if wordAdd (arenaAlignPointer arena.current alignment) size > arena.sentinel then
      some (arenaBump (arenaNewPage arena (wordSub (wordAdd size alignment) 1) page) size alignment)
    else some (arenaBump arena size alignment)
  else none

def arenaCopy (arena : MulleArena) (p block count : Nat) : MulleArena :=
  { arena with memory := writeBytes arena.memory p (readBytes arena.memory block count) }

def arenaRealloc (arena : MulleArena) (block oldSize newSize alignment page : Nat) :
    Option (MulleArena × Nat) :=
  if block = 0 then arenaAlloc arena newSize alignment page
  else if block = arena.last ∧ wordAdd arena.last newSize ≤ arena.sentinel then
    some ({ arena with current := wordAdd arena.last newSize }, block)
  else do
    let (arena, p) ← arenaAlloc arena newSize alignment page
    some (arenaCopy arena p block (min oldSize newSize), p)

section Vtable

variable (align : ArenaMaxAlign) (arena : MulleArena)

def arenaNeedsPage (size : Nat) : Prop :=
  wordAdd (wordAdd arena.current 8) size > arena.sentinel ∨ arena.sentinel = 0

instance (size : Nat) : Decidable (arenaNeedsPage arena size) :=
  inferInstanceAs (Decidable (_ ∨ _))

def arenaHeaderPage (size : Nat) : Nat := wordAdd (wordAdd 8 size) (align.bytes - 8)

def arenaTurnPage (size page : Nat) : MulleArena :=
  let arena := arenaNewPage arena (arenaHeaderPage align size) page
  { arena with current := wordAdd arena.current (align.bytes - 8) }

def arenaWriteHeader (user size : Nat) : MulleArena :=
  { arena with
    memory := writeBytes arena.memory (wordSub user 8) (toBytes 8 size)
    current := wordSub (arenaAlignPointer (wordAdd user size) align.bytes) 8 }

def arenaPlace (size : Nat) : MulleArena × Nat :=
  let user := wordAdd arena.current 8
  ({ arenaWriteHeader align arena user size with last := wordSub user 8 }, user)

def arenaAllocWithSizeHeader (size page : Nat) : MulleArena × Nat :=
  if arenaNeedsPage arena size then arenaPlace align (arenaTurnPage align arena size page) size
  else arenaPlace align arena size

def arenaReadHeader (block : Nat) : Nat := ofBytes (readBytes arena.memory (wordSub block 8) 8)

def arenaExtends (block total : Nat) : Prop :=
  wordSub block 8 = arena.last ∧ wordAdd block total ≤ arena.sentinel

instance (block total : Nat) : Decidable (arenaExtends arena block total) :=
  inferInstanceAs (Decidable (_ ∧ _))

def arenaReallocarrayV (block n size page : Nat) : Option (MulleArena × Nat) :=
  if n = 0 ∨ size = 0 then none
  else do
    let total ← allocatorSizeMultiply n size
    if block = 0 then some (arenaAllocWithSizeHeader align arena total page)
    else if arenaExtends arena block total then some (arenaWriteHeader align arena block total, block)
    else
      let (next, p) := arenaAllocWithSizeHeader align arena total page
      some (arenaCopy next p block (min (arenaReadHeader arena block) total), p)

def arenaCallocV (n size page : Nat) : Option (MulleArena × Nat) :=
  if n = 0 ∨ size = 0 then none
  else do
    let total ← allocatorSizeMultiply n size
    let (arena, p) := arenaAllocWithSizeHeader align arena total page
    some ({ arena with memory := writeBytes arena.memory p (List.replicate total 0) }, p)

def arenaFreeV (block : Nat) : MulleArena :=
  if block = 0 then arena
  else if wordSub block 8 = arena.last then { arena with current := wordSub block 8, last := 0 }
  else arena

end Vtable

section Words

section

variable (align : ArenaMaxAlign)
include align

theorem ArenaMaxAlign.pos : 0 < align.bytes := Nat.two_pow_pos align.log

theorem ArenaMaxAlign.eight_dvd : 8 ∣ align.bytes :=
  Nat.pow_dvd_pow 2 align.holdsSize

theorem ArenaMaxAlign.eight_le : 8 ≤ align.bytes :=
  Nat.le_of_dvd align.pos align.eight_dvd

theorem ArenaMaxAlign.dvd_words : align.bytes ∣ 2 ^ 64 :=
  Nat.pow_dvd_pow 2 (by have small := align.isUnsigned; omega)

theorem ArenaMaxAlign.le_words : align.bytes < 2 ^ 32 :=
  Nat.pow_lt_pow_right (by decide) align.isUnsigned

end

theorem arenaAlignPointer_two_pow (p : Nat) {log : Nat} (small : log < 64) :
    arenaAlignPointer p (2 ^ log) = roundUp (2 ^ log) p % 2 ^ 64 := by
  have positive := Nat.two_pow_pos log
  have words : 2 ^ log < 2 ^ 64 := Nat.pow_lt_pow_right (by decide) small
  have divides : 2 ^ log ∣ 2 ^ 64 := Nat.pow_dvd_pow 2 small.le
  have cleared := and_not_low 64 log (wordAdd p (2 ^ log - 1)) (Nat.mod_lt _ (by decide)) small.le
  have whole : wordAdd p (2 ^ log - 1) % 2 ^ log = (p + (2 ^ log - 1)) % 2 ^ log :=
    Nat.mod_mod_of_dvd _ divides
  have rest := Nat.mod_lt (p + (2 ^ log - 1)) positive
  have least := Nat.mod_le (wordAdd p (2 ^ log - 1)) (2 ^ log)
  have below := Nat.mod_le (p + (2 ^ log - 1)) (2 ^ log)
  rw [arenaAlignPointer, roundUp_eq_sub_mod]
  change _ &&& (2 ^ 64 - (2 ^ log - 1 + 1)) = _
  rw [cleared, whole]
  rw [whole] at least
  simp only [wordAdd] at least ⊢
  omega

theorem arenaAlignPointer_eq (align : ArenaMaxAlign) (p : Nat) :
    arenaAlignPointer p align.bytes = roundUp align.bytes p % 2 ^ 64 :=
  arenaAlignPointer_two_pow p (by have small := align.isUnsigned; omega)

theorem wordSub_arenaAlignPointer (align : ArenaMaxAlign) {p : Nat} (positive : 0 < p)
    (fits : p < 2 ^ 64) :
    wordSub (arenaAlignPointer p align.bytes) 8 + 8 = roundUp align.bytes p := by
  have above := le_roundUp p align.pos
  have below : roundUp align.bytes p ≤ 2 ^ 64 := roundUp_le align.dvd_words fits.le
  have unit : align.bytes ≤ roundUp align.bytes p :=
    Nat.le_of_dvd (positive.trans_le above) (dvd_roundUp align.bytes p)
  have eight := align.eight_le
  rw [arenaAlignPointer_eq align p, wordSub]
  split <;> omega

end Words

/-!
An arena next to the blocks that its clients hold.
-/

structure ArenaBlock where
  address : Nat
  size : Nat
deriving DecidableEq

def ArenaBlock.stop (block : ArenaBlock) : Nat := block.address + block.size

def ArenaBlock.Within (block : ArenaBlock) (page : ArenaPage) : Prop :=
  page.address + 8 ≤ block.address ∧ block.stop ≤ page.address + page.size

def ArenaPage.Avoids (page other : ArenaPage) : Prop :=
  Clear page.address page.size other.address other.size

def ArenaBlock.Avoids (block other : ArenaBlock) : Prop :=
  Clear (block.address - 8) (block.size + 8) (other.address - 8) (other.size + 8)

def ArenaBlock.contents (block : ArenaBlock) (memory : ByteMemory) : List UInt8 :=
  readBytes memory (block.address - 8) (block.size + 8)

instance (block : ArenaBlock) (page : ArenaPage) : Decidable (block.Within page) :=
  inferInstanceAs (Decidable (_ ∧ _))

instance : Std.Symm ArenaPage.Avoids := ⟨fun _ _ => Clear.symm⟩

instance : Std.Symm ArenaBlock.Avoids := ⟨fun _ _ => Clear.symm⟩

instance (block other : ArenaBlock) : Decidable (block.Avoids other) :=
  inferInstanceAs (Decidable (Clear _ _ _ _))

structure ArenaRun where
  arena : MulleArena
  blocks : List ArenaBlock

def ArenaRun.forget (run : ArenaRun) (block : Nat) : List ArenaBlock :=
  run.blocks.filter fun other => other.address ≠ block

def ArenaRun.holds (run : ArenaRun) (block : Nat) : Prop := ∃ held ∈ run.blocks, held.address = block

instance (run : ArenaRun) (block : Nat) : Decidable (run.holds block) :=
  inferInstanceAs (Decidable (∃ held ∈ run.blocks, held.address = block))

def arenaStart (memory : ByteMemory) (pageSize : UInt64) : ArenaRun :=
  ⟨arenaInit memory pageSize.toNat, []⟩

inductive ArenaVtableOp where
  | calloc (n size : UInt64) (page : Nat)
  | reallocarray (block : Nat) (n size : UInt64) (page : Nat)
  | free (block : Nat)
  | store (address : Nat) (byte : UInt8)

inductive ArenaOp where
  | vtable (op : ArenaVtableOp)
  | alloc (size : UInt64) (alignment : UInt32) (page : Nat)
  | realloc (block : Nat) (oldSize newSize : UInt64) (alignment : UInt32) (page : Nat)
  | resetKeepPages (keepCount : UInt64)

section ArenaRuns

variable (align : ArenaMaxAlign) (run : ArenaRun)

def arenaVtableStep : ArenaVtableOp → Option (ArenaRun × Nat)
  | .calloc n size page =>
    (arenaCallocV align run.arena n.toNat size.toNat page).map fun (arena, p) =>
      (⟨arena, ⟨p, n.toNat * size.toNat⟩ :: run.blocks⟩, p)
  | .reallocarray block n size page =>
    (arenaReallocarrayV align run.arena block n.toNat size.toNat page).map fun (arena, p) =>
      (⟨arena, ⟨p, n.toNat * size.toNat⟩ :: run.forget block⟩, p)
  | .free block => some (⟨arenaFreeV run.arena block, run.forget block⟩, 0)
  | .store address byte =>
    some ({ run with
      arena := { run.arena with memory := writeBytes run.arena.memory address [byte] } }, 0)

def arenaStep : ArenaOp → Option (ArenaRun × Nat)
  | .vtable op => arenaVtableStep align run op
  | .alloc size alignment page =>
    (arenaAlloc run.arena size.toNat alignment.toNat page).map fun (arena, p) =>
      ({ run with arena := arena }, p)
  | .realloc block oldSize newSize alignment page =>
    (arenaRealloc run.arena block oldSize.toNat newSize.toNat alignment.toNat page).map
      fun (arena, p) =>
      ({ run with arena := arena }, p)
  | .resetKeepPages keepCount => some (⟨arenaResetKeepPages run.arena keepCount.toNat, []⟩, 0)

/-- What the default allocator promises of a page that the arena asks it for. -/
def arenaPageOk (arena : MulleArena) (size page : Nat) : Prop :=
  arenaNeedsPage arena size → ¬ arenaKeepsPage arena (arenaHeaderPage align size) →
    let bytes := arenaPageBytes arena (arenaHeaderPage align size)
    0 < page ∧ align.bytes ∣ page ∧ page + bytes < 2 ^ 64 ∧
      ∀ other ∈ arena.pages, Clear other.address other.size page bytes

instance (arena : MulleArena) (size page : Nat) : Decidable (arenaPageOk align arena size page) :=
  inferInstanceAs (Decidable (_ → _ → _ ∧ _ ∧ _ ∧ ∀ other ∈ arena.pages, _))

def arenaSizesOk (n size : UInt64) : Prop :=
  0 < n.toNat ∧ 0 < size.toNat ∧ n.toNat * size.toNat < 2 ^ 64

instance (n size : UInt64) : Decidable (arenaSizesOk n size) :=
  inferInstanceAs (Decidable (_ ∧ _ ∧ _))

def arenaStays (arena : MulleArena) (block total : Nat) : Prop :=
  block ≠ 0 ∧ arenaExtends arena block total

instance (arena : MulleArena) (block total : Nat) : Decidable (arenaStays arena block total) :=
  inferInstanceAs (Decidable (_ ∧ _))

end ArenaRuns

end MulleCore
