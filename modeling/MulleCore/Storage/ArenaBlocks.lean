import Mathlib.Data.List.Pairwise
import MulleCore.Storage.Arena

/-!
When the blocks of the vtable keep out of each other.
-/

namespace MulleCore

open Library

section Statement

variable (align : ArenaMaxAlign) (run : ArenaRun)

def arenaVtableNext (op : ArenaVtableOp) : Option ArenaRun :=
  (arenaVtableStep align run op).map Prod.fst

def arenaVtablePermits : ArenaVtableOp → Prop
  | .calloc n size page =>
    arenaSizesOk n size ∧ arenaPageOk align run.arena (n.toNat * size.toNat) page
  | .reallocarray block n size page => arenaSizesOk n size ∧ (block = 0 ∨ run.holds block) ∧
      (¬ arenaStays run.arena block (n.toNat * size.toNat) →
        arenaPageOk align run.arena (n.toNat * size.toNat) page)
  | .free block => block = 0 ∨ run.holds block
  | .store address _ => ∃ block ∈ run.blocks, block.address ≤ address ∧ address < block.stop

instance : DecidablePred (arenaVtablePermits align run)
  | .calloc _ _ _ => inferInstanceAs (Decidable (_ ∧ _))
  | .reallocarray _ _ _ _ => inferInstanceAs (Decidable (_ ∧ _ ∧ (_ → _)))
  | .free _ => inferInstanceAs (Decidable (_ ∨ _))
  | .store address _ =>
    inferInstanceAs (Decidable (∃ block ∈ run.blocks, block.address ≤ address ∧ address < block.stop))

structure ArenaLaidOut (run : ArenaRun) : Prop where
  within : ∀ block ∈ run.blocks, ∃ page ∈ run.arena.pages, block.Within page
  clear : run.blocks.Pairwise ArenaBlock.Avoids

def ArenaKeeps (next : ArenaRun) (p : Nat) : ArenaVtableOp → Prop
  | .calloc _ _ _ =>
    ∀ block ∈ run.blocks, block.contents next.arena.memory = block.contents run.arena.memory
  | .reallocarray resized n size _ =>
    (∀ block ∈ run.blocks, block.address ≠ resized →
      block.contents next.arena.memory = block.contents run.arena.memory) ∧
    ∀ block ∈ run.blocks, block.address = resized →
      readBytes next.arena.memory p (min block.size (n.toNat * size.toNat)) =
        readBytes run.arena.memory resized (min block.size (n.toNat * size.toNat))
  | .free freed => ∀ block ∈ run.blocks, block.address ≠ freed →
      block.contents next.arena.memory = block.contents run.arena.memory
  | .store _ _ => True

def ArenaSafe (op : ArenaVtableOp) : Prop :=
  ∃ next p, arenaVtableStep align run op = some (next, p) ∧ ArenaLaidOut next ∧
    ArenaKeeps run next p op

/-- No address wraps, and behind the last block there is room for a header before
the next aligned address. -/
def arenaHasRoom (size : Nat) : Prop :=
  if arenaNeedsPage run.arena size then size + align.bytes < 2 ^ 64
  else run.arena.current + 8 + size < 2 ^ 64 ∧
    ∀ block ∈ run.blocks, block.address = run.arena.last + 8 →
      0 < block.size % align.bytes ∧ block.size % align.bytes ≤ align.bytes - 8

def arenaVtableHasRoom : ArenaVtableOp → Prop
  | .calloc n size _ => arenaHasRoom align run (n.toNat * size.toNat)
  | .reallocarray block n size _ =>
    if arenaStays run.arena block (n.toNat * size.toNat) then block + n.toNat * size.toNat < 2 ^ 64
    else arenaHasRoom align run (n.toNat * size.toNat)
  | .free _ => True
  | .store _ _ => True

instance (size : Nat) : Decidable (arenaHasRoom align run size) :=
  inferInstanceAs (Decidable (if arenaNeedsPage run.arena size then size + align.bytes < 2 ^ 64
    else run.arena.current + 8 + size < 2 ^ 64 ∧
      ∀ block ∈ run.blocks, block.address = run.arena.last + 8 →
        0 < block.size % align.bytes ∧ block.size % align.bytes ≤ align.bytes - 8))

instance : DecidablePred (arenaVtableHasRoom align run)
  | .calloc _ _ _ => inferInstanceAs (Decidable (arenaHasRoom align run _))
  | .reallocarray block n size _ =>
    inferInstanceAs (Decidable (if arenaStays run.arena block (n.toNat * size.toNat) then
      block + n.toNat * size.toNat < 2 ^ 64 else arenaHasRoom align run (n.toNat * size.toNat)))
  | .free _ => inferInstanceAs (Decidable True)
  | .store _ _ => inferInstanceAs (Decidable True)

end Statement

section Invariant

variable {address : Nat} {bytes : List UInt8}

structure ArenaLaid (align : ArenaMaxAlign) (run : ArenaRun) : Prop where
  pagesOk : ∀ page ∈ run.arena.pages,
    0 < page.address ∧ align.bytes ∣ page.address ∧ page.address + page.size < 2 ^ 64
  pagesClear : run.arena.pages.Pairwise ArenaPage.Avoids
  newest : run.arena.pages.length ≤ run.arena.pageIndex + 1
  sized : ∀ block ∈ run.blocks, 0 < block.size
  aligned : ∀ block ∈ run.blocks, align.bytes ∣ block.address
  headed : ∀ block ∈ run.blocks, arenaReadHeader run.arena block.address = block.size
  laidOut : ArenaLaidOut run

structure ArenaBump (align : ArenaMaxAlign) (arena : MulleArena) (page : ArenaPage) : Prop where
  member : page ∈ arena.pages
  sentinel : arena.sentinel = page.address + page.size
  aligned : align.bytes ∣ arena.current + 8
  above : page.address + align.bytes ≤ arena.current + 8
  below : arena.current + 8 ≤ 2 ^ 64

structure ArenaTop (align : ArenaMaxAlign) (run : ArenaRun) (page : ArenaPage) : Prop where
  bump : ArenaBump align run.arena page
  others : ∀ block ∈ run.blocks, block.Within page → block.address ≠ run.arena.last + 8 →
    block.stop ≤ run.arena.current
  last : ∀ block ∈ run.blocks, block.address = run.arena.last + 8 →
    block.Within page ∧ roundUp align.bytes block.stop = run.arena.current + 8

structure ArenaGood (align : ArenaMaxAlign) (run : ArenaRun) : Prop where
  laid : ArenaLaid align run
  top : run.arena.pages = [] ∧ run.arena.sentinel = 0 ∨ ∃ page, ArenaTop align run page

variable {align : ArenaMaxAlign} {run : ArenaRun} {page other : ArenaPage} {block held : ArenaBlock}
  {blocks : List ArenaBlock} {memory next : ByteMemory}

section

variable (laid : ArenaLaid align run)
include laid

theorem ArenaLaid.clear_of_ne (member : block ∈ run.blocks)
    (heldMember : held ∈ run.blocks) (different : block.address ≠ held.address) : block.Avoids held :=
  laid.laidOut.clear.forall member heldMember
    (fun same => different (congrArg ArenaBlock.address same))

theorem ArenaLaid.eight_lt (member : block ∈ run.blocks) :
    8 < block.address := by
  obtain ⟨page, pageMember, lower, _⟩ := laid.laidOut.within block member
  have proper := (laid.pagesOk page pageMember).1
  omega

theorem ArenaLaid.stop_lt (member : block ∈ run.blocks) :
    block.stop < 2 ^ 64 := by
  obtain ⟨page, pageMember, _, upper⟩ := laid.laidOut.within block member
  exact upper.trans_lt (laid.pagesOk page pageMember).2.2

theorem ArenaLaid.wordSub (member : block ∈ run.blocks) :
    wordSub block.address 8 = block.address - 8 := by
  exact wordSub_eq (laid.eight_lt member).le

end

theorem ArenaBlock.contents_header (same : block.contents next = block.contents memory) :
    readBytes next (block.address - 8) 8 = readBytes memory (block.address - 8) 8 := by
  have prefixes := congrArg (List.take 8) same
  rw [ArenaBlock.contents, ArenaBlock.contents, take_readBytes (by omega),
    take_readBytes (by omega)] at prefixes
  exact prefixes

theorem ArenaBlock.contents_writeBytes
    (clear : Clear (block.address - 8) (block.size + 8) address bytes.length) :
    block.contents (writeBytes memory address bytes) = block.contents memory :=
  readBytes_writeBytes_of_clear clear

theorem ArenaLaid.withMemory (laid : ArenaLaid align run) (same : ∀ block ∈ run.blocks,
      readBytes next (block.address - 8) 8 = readBytes run.arena.memory (block.address - 8) 8) :
    ArenaLaid align { run with arena := { run.arena with memory := next } } where
  pagesOk := laid.pagesOk
  pagesClear := laid.pagesClear
  newest := laid.newest
  sized := laid.sized
  aligned := laid.aligned
  headed block member := by
    have header := laid.headed block member
    simp only [arenaReadHeader, laid.wordSub member] at header ⊢
    rw [same block member, header]
  laidOut := ⟨laid.laidOut.within, laid.laidOut.clear⟩

theorem ArenaGood.withMemory (good : ArenaGood align run) (same : ∀ block ∈ run.blocks,
      readBytes next (block.address - 8) 8 = readBytes run.arena.memory (block.address - 8) 8) :
    ArenaGood align { run with arena := { run.arena with memory := next } } := by
  refine ⟨good.laid.withMemory same, ?_⟩
  rcases good.top with empty | ⟨page, bump, others, last⟩
  · exact .inl empty
  · exact .inr ⟨page, ⟨bump.member, bump.sentinel, bump.aligned, bump.above, bump.below⟩, others,
      last⟩

theorem ArenaGood.sublist (good : ArenaGood align run) (fewer : blocks.Sublist run.blocks) :
    ArenaGood align { run with blocks := blocks } := by
  obtain ⟨laid, top⟩ := good
  refine ⟨⟨laid.pagesOk, laid.pagesClear, laid.newest, ?_, ?_, ?_, ?_, ?_⟩, ?_⟩
  · exact fun block member => laid.sized block (fewer.subset member)
  · exact fun block member => laid.aligned block (fewer.subset member)
  · exact fun block member => laid.headed block (fewer.subset member)
  · exact fun block member => laid.laidOut.within block (fewer.subset member)
  · exact laid.laidOut.clear.sublist fewer
  · rcases top with empty | ⟨page, bump, others, last⟩
    · exact .inl empty
    · exact .inr ⟨page, bump, fun block member => others block (fewer.subset member),
        fun block member => last block (fewer.subset member)⟩

theorem ArenaLaid.write_clear (laid : ArenaLaid align run) (heldMember : held ∈ run.blocks)
    (lower : held.address ≤ address)
    (upper : address + bytes.length ≤ held.stop) (member : block ∈ run.blocks)
    (different : block.address ≠ held.address) :
    block.contents (writeBytes run.arena.memory address bytes) = block.contents run.arena.memory := by
  apply ArenaBlock.contents_writeBytes
  have clear := laid.clear_of_ne member heldMember different
  have proper := laid.eight_lt member
  have heldProper := laid.eight_lt heldMember
  simp only [ArenaBlock.stop] at upper
  rcases clear with before | behind
  · left
    omega
  · right
    omega

theorem ArenaGood.write (good : ArenaGood align run) (heldMember : held ∈ run.blocks)
    (lower : held.address ≤ address)
    (upper : address + bytes.length ≤ held.stop) :
    ArenaGood align { run with arena :=
      { run.arena with memory := writeBytes run.arena.memory address bytes } } := by
  apply good.withMemory
  intro block member
  by_cases same : block.address = held.address
  · apply readBytes_writeBytes_of_clear
    have proper := good.laid.eight_lt member
    left
    omega
  · exact ArenaBlock.contents_header (good.laid.write_clear heldMember lower upper member same)

end Invariant

section Placing

variable {align : ArenaMaxAlign} {run : ArenaRun} {arena : MulleArena} {page : ArenaPage}
  {block : ArenaBlock} {size : Nat}

theorem arenaPlace_eq (fits : arena.current + 8 + size < 2 ^ 64) :
    arenaPlace align arena size =
      ({ arena with
          memory := writeBytes arena.memory arena.current (toBytes 8 size)
          current := wordSub (arenaAlignPointer (arena.current + 8 + size) align.bytes) 8
          last := arena.current }, arena.current + 8) := by
  have user : wordAdd arena.current 8 = arena.current + 8 := wordAdd_eq (by omega)
  have raw : wordSub (arena.current + 8) 8 = arena.current := wordSub_eq (by omega)
  simp only [arenaPlace, arenaWriteHeader, user, raw, wordAdd_eq fits]

@[simp]
theorem arenaPlace_pages : (arenaPlace align arena size).1.pages = arena.pages := rfl

@[simp]
theorem arenaPlace_pageIndex : (arenaPlace align arena size).1.pageIndex = arena.pageIndex := rfl

@[simp]
theorem arenaPlace_sentinel : (arenaPlace align arena size).1.sentinel = arena.sentinel := rfl

theorem arenaPlace_last (align : ArenaMaxAlign) (fits : arena.current + 8 + size < 2 ^ 64) :
    (arenaPlace align arena size).1.last = arena.current := by
  rw [arenaPlace_eq fits]

theorem arenaPlace_current (align : ArenaMaxAlign) (fits : arena.current + 8 + size < 2 ^ 64) :
    (arenaPlace align arena size).1.current + 8 = roundUp align.bytes (arena.current + 8 + size) := by
  rw [arenaPlace_eq fits]
  exact wordSub_arenaAlignPointer align (by omega) fits

theorem ArenaLaid.avoids_new (laid : ArenaLaid align run) (bump : ArenaBump align run.arena page)
    (room : run.arena.current + 8 + size ≤ page.address + page.size)
    (cleared : ∀ block ∈ run.blocks, block.Within page → block.stop ≤ run.arena.current)
    (member : block ∈ run.blocks) : (ArenaBlock.mk (run.arena.current + 8) size).Avoids block := by
  have lower := laid.eight_lt member
  obtain ⟨home, homeMember, within⟩ := laid.laidOut.within block member
  by_cases same : home = page
  · subst same
    have below := cleared block member within
    simp only [ArenaBlock.stop] at below
    right
    change block.address - 8 + (block.size + 8) ≤ run.arena.current + 8 - 8
    omega
  · have clear := laid.pagesClear.forall bump.member homeMember (Ne.symm same)
    have above := bump.above
    have eight := align.eight_le
    obtain ⟨low, high⟩ := within
    simp only [ArenaBlock.stop] at high
    rcases clear with before | behind
    · left
      change run.arena.current + 8 - 8 + (size + 8) ≤ block.address - 8
      omega
    · right
      change block.address - 8 + (block.size + 8) ≤ run.arena.current + 8 - 8
      omega

theorem ArenaLaid.place_contents (laid : ArenaLaid align run) (bump : ArenaBump align run.arena page)
    (fits : run.arena.current + 8 + size < 2 ^ 64)
    (room : run.arena.current + 8 + size ≤ page.address + page.size)
    (cleared : ∀ block ∈ run.blocks, block.Within page → block.stop ≤ run.arena.current)
    (member : block ∈ run.blocks) :
    block.contents (arenaPlace align run.arena size).1.memory = block.contents run.arena.memory := by
  rw [arenaPlace_eq fits]
  apply ArenaBlock.contents_writeBytes
  rw [length_toBytes]
  rcases laid.avoids_new bump room cleared member with before | behind
  · right
    simp only at before
    omega
  · left
    simp only at behind
    omega

theorem arenaPlace_header (fits : arena.current + 8 + size < 2 ^ 64) :
    arenaReadHeader (arenaPlace align arena size).1 (arena.current + 8) = size := by
  have raw : wordSub (arena.current + 8) 8 = arena.current := wordSub_eq (by omega)
  rw [arenaPlace_eq fits, arenaReadHeader, raw, ofBytes_readBytes_writeBytes]
  exact Nat.mod_eq_of_lt (by omega)

theorem ArenaLaid.place_laid (laid : ArenaLaid align run) (bump : ArenaBump align run.arena page)
    (positive : 0 < size) (room : run.arena.current + 8 + size ≤ page.address + page.size)
    (cleared : ∀ block ∈ run.blocks, block.Within page → block.stop ≤ run.arena.current) :
    ArenaLaid align
      ⟨(arenaPlace align run.arena size).1, ⟨run.arena.current + 8, size⟩ :: run.blocks⟩ := by
  have fits : run.arena.current + 8 + size < 2 ^ 64 :=
    room.trans_lt (laid.pagesOk page bump.member).2.2
  have eight := align.eight_le
  have above := bump.above
  have stored := laid.withMemory (fun block member =>
    ArenaBlock.contents_header (laid.place_contents bump fits room cleared member))
  refine ⟨?_, ?_, ?_, ?_, ?_, ?_, ?_, ?_⟩
  · simpa only [arenaPlace_pages] using laid.pagesOk
  · simpa only [arenaPlace_pages] using laid.pagesClear
  · simpa only [arenaPlace_pages, arenaPlace_pageIndex] using laid.newest
  · simpa [positive] using laid.sized
  · simpa [bump.aligned] using laid.aligned
  · intro block member
    rcases List.mem_cons.mp member with rfl | member
    · exact arenaPlace_header fits
    · simpa only [arenaReadHeader] using stored.headed block member
  · intro block member
    simp only [arenaPlace_pages]
    rcases List.mem_cons.mp member with rfl | member
    · exact ⟨page, bump.member, by simp only; omega, room⟩
    · exact laid.laidOut.within block member
  · exact List.pairwise_cons.mpr
      ⟨fun block member => laid.avoids_new bump room cleared member, laid.laidOut.clear⟩

theorem ArenaLaid.place_top (laid : ArenaLaid align run) (bump : ArenaBump align run.arena page)
    (room : run.arena.current + 8 + size ≤ page.address + page.size)
    (cleared : ∀ block ∈ run.blocks, block.Within page → block.stop ≤ run.arena.current) :
    ArenaTop align
      ⟨(arenaPlace align run.arena size).1, ⟨run.arena.current + 8, size⟩ :: run.blocks⟩ page := by
  have fits : run.arena.current + 8 + size < 2 ^ 64 :=
    room.trans_lt (laid.pagesOk page bump.member).2.2
  have eight := align.eight_le
  have above := bump.above
  have placed := arenaPlace_current align fits
  have rounded := le_roundUp (run.arena.current + 8 + size) align.pos
  have last := arenaPlace_last align fits
  refine ⟨⟨?_, ?_, ?_, ?_, ?_⟩, ?_, ?_⟩
  · simpa only [arenaPlace_pages] using bump.member
  · simpa only [arenaPlace_sentinel] using bump.sentinel
  · rw [placed]
    exact dvd_roundUp align.bytes _
  · rw [placed]
    omega
  · rw [placed]
    exact roundUp_le align.dvd_words fits.le
  · intro block member inside different
    rcases List.mem_cons.mp member with rfl | member
    · exact absurd (congrArg (· + 8) last.symm) different
    · have before := cleared block member inside
      simp only at placed ⊢
      omega
  · intro block member same
    rcases List.mem_cons.mp member with rfl | member
    · exact ⟨⟨by simp only; omega, room⟩, placed.symm⟩
    · have avoids := laid.avoids_new bump room cleared member
      have sized := laid.sized block member
      simp only [last] at same
      simp only [ArenaBlock.Avoids, Clear] at avoids
      omega

theorem ArenaLaid.place_good (laid : ArenaLaid align run) (bump : ArenaBump align run.arena page)
    (positive : 0 < size) (room : run.arena.current + 8 + size ≤ page.address + page.size)
    (cleared : ∀ block ∈ run.blocks, block.Within page → block.stop ≤ run.arena.current) :
    ArenaGood align
      ⟨(arenaPlace align run.arena size).1, ⟨run.arena.current + 8, size⟩ :: run.blocks⟩ :=
  ⟨laid.place_laid bump positive room cleared, .inr ⟨page, laid.place_top bump room cleared⟩⟩

end Placing

section Turning

variable {align : ArenaMaxAlign} {run : ArenaRun} {arena : MulleArena} {block : ArenaBlock}
  {size page : Nat}

theorem ArenaLaid.not_keepsPage (laid : ArenaLaid align run) (minSize : Nat) :
    ¬ arenaKeepsPage run.arena minSize := by
  rintro ⟨_, further⟩
  have newest := laid.newest
  omega

theorem arenaTurnPage_eq (fresh : ¬ arenaKeepsPage arena (arenaHeaderPage align size)) :
    arenaTurnPage align arena size page =
      { arena with
        pages := arena.pages ++ [⟨page, arenaPageBytes arena (arenaHeaderPage align size)⟩]
        pageIndex := arena.pages.length
        current := wordAdd page (align.bytes - 8)
        sentinel := wordAdd page (arenaPageBytes arena (arenaHeaderPage align size))
        memory := writeBytes arena.memory page
          (List.replicate (arenaPageBytes arena (arenaHeaderPage align size)) 0) } := by
  simp [arenaTurnPage, arenaNewPage, fresh]

theorem arenaHeaderPage_eq (small : size + align.bytes < 2 ^ 64) :
    arenaHeaderPage align size = size + align.bytes := by
  have eight := align.eight_le
  have total : wordAdd 8 size = 8 + size := wordAdd_eq (by omega)
  rw [arenaHeaderPage, total, wordAdd_eq (by omega)]
  omega

theorem le_arenaPageBytes (arena : MulleArena) (minSize : Nat) :
    minSize ≤ arenaPageBytes arena minSize := by
  rw [arenaPageBytes]
  split <;> omega

section

variable (laid : ArenaLaid align run)
include laid

theorem ArenaLaid.not_within_new {bytes : Nat}
    (clear : ∀ other ∈ run.arena.pages, Clear other.address other.size page bytes)
    (member : block ∈ run.blocks) : Clear (block.address - 8) (block.size + 8) page bytes := by
  obtain ⟨home, homeMember, lower, upper⟩ := laid.laidOut.within block member
  simp only [ArenaBlock.stop] at upper
  rcases clear home homeMember with before | behind
  · left
    omega
  · right
    omega

theorem ArenaLaid.turn_contents (clear : ∀ other ∈ run.arena.pages,
      Clear other.address other.size page (arenaPageBytes run.arena (arenaHeaderPage align size)))
    (member : block ∈ run.blocks) :
    block.contents (arenaTurnPage align run.arena size page).memory =
      block.contents run.arena.memory := by
  rw [arenaTurnPage_eq (laid.not_keepsPage _)]
  apply ArenaBlock.contents_writeBytes
  rw [List.length_replicate]
  exact laid.not_within_new clear member

theorem ArenaLaid.turn_laid (needs : arenaNeedsPage run.arena size)
    (pageOk : arenaPageOk align run.arena size page) :
    ArenaLaid align ⟨arenaTurnPage align run.arena size page, run.blocks⟩ := by
  obtain ⟨proper, aligned, fits, clear⟩ := pageOk needs (laid.not_keepsPage _)
  have stored := laid.withMemory (fun block member =>
    ArenaBlock.contents_header (laid.turn_contents clear member))
  rw [arenaTurnPage_eq (laid.not_keepsPage _)] at stored ⊢
  refine ⟨?_, ?_, ?_, laid.sized, laid.aligned, stored.headed, ?_, laid.laidOut.clear⟩
  · intro other member
    rcases List.mem_append.mp member with member | member
    · exact laid.pagesOk other member
    · rw [List.mem_singleton] at member
      subst member
      exact ⟨proper, aligned, fits⟩
  · refine List.pairwise_append.mpr ⟨laid.pagesClear, List.pairwise_singleton _ _, ?_⟩
    intro other member new newMember
    rw [List.mem_singleton] at newMember
    subst newMember
    exact clear other member
  · simp
  · intro block member
    obtain ⟨home, homeMember, within⟩ := laid.laidOut.within block member
    exact ⟨home, List.mem_append_left _ homeMember, within⟩

theorem arenaTurnPage_bump (small : size + align.bytes < 2 ^ 64) (aligned : align.bytes ∣ page)
    (fits : page + arenaPageBytes run.arena (arenaHeaderPage align size) < 2 ^ 64) :
    ArenaBump align (arenaTurnPage align run.arena size page)
        ⟨page, arenaPageBytes run.arena (arenaHeaderPage align size)⟩ ∧
      (arenaTurnPage align run.arena size page).current + 8 = page + align.bytes := by
  have eight := align.eight_le
  have enough := le_arenaPageBytes run.arena (arenaHeaderPage align size)
  rw [arenaHeaderPage_eq small] at enough
  rw [arenaTurnPage_eq (laid.not_keepsPage _), wordAdd_eq fits]
  rw [arenaHeaderPage_eq small] at fits ⊢
  have current : wordAdd page (align.bytes - 8) + 8 = page + align.bytes := by
    rw [wordAdd_eq (by omega)]
    omega
  refine ⟨⟨List.mem_append_right _ (List.mem_singleton.mpr rfl), rfl, ?_, ?_, ?_⟩, current⟩
  · simpa only [current] using (Nat.dvd_add_iff_left dvd_rfl).mp aligned
  · simp only [current, le_refl]
  · simp only [current]
    omega

end

end Turning

section Allocating

variable {align : ArenaMaxAlign} {run : ArenaRun} {block : ArenaBlock} {size page : Nat}
variable {current : Nat}

structure ArenaAllocated (align : ArenaMaxAlign) (run : ArenaRun) (size : Nat) (next : MulleArena)
    (p : Nat) : Prop where
  good : ArenaGood align ⟨next, ⟨p, size⟩ :: run.blocks⟩
  contents : ∀ block ∈ run.blocks, block.contents next.memory = block.contents run.arena.memory

theorem ArenaLaid.placed (laid : ArenaLaid align run) {home : ArenaPage}
    (bump : ArenaBump align run.arena home) (positive : 0 < size)
    (room : run.arena.current + 8 + size ≤ home.address + home.size)
    (cleared : ∀ block ∈ run.blocks, block.Within home → block.stop ≤ run.arena.current) :
    ArenaAllocated align run size (arenaPlace align run.arena size).1
      (arenaPlace align run.arena size).2 := by
  have fits := room.trans_lt (laid.pagesOk home bump.member).2.2
  have user : (arenaPlace align run.arena size).2 = run.arena.current + 8 := by
    rw [arenaPlace_eq fits]
  rw [user]
  exact ⟨laid.place_good bump positive room cleared,
    fun block member => laid.place_contents bump fits room cleared member⟩

theorem stop_le_of_rest (aligned : align.bytes ∣ block.address)
    (top : roundUp align.bytes block.stop = current + 8) (rest : 0 < block.size % align.bytes)
    (small : block.size % align.bytes ≤ align.bytes - 8) : block.stop ≤ current := by
  have eight := align.eight_le
  have gap := roundUp_gap align.pos (Nat.pos_iff_ne_zero.mp rest)
  rw [ArenaBlock.stop, roundUp_add block.size aligned] at top
  simp only [ArenaBlock.stop]
  omega

theorem stop_gt_of_no_rest (aligned : align.bytes ∣ block.address)
    (top : roundUp align.bytes block.stop = current + 8)
    (full : ¬ (0 < block.size % align.bytes ∧ block.size % align.bytes ≤ align.bytes - 8)) :
    current < block.stop := by
  have eight := align.eight_le
  rw [ArenaBlock.stop, roundUp_add block.size aligned] at top
  simp only [ArenaBlock.stop]
  rcases Nat.eq_zero_or_pos (block.size % align.bytes) with whole | rest
  · rw [roundUp_of_dvd align.pos (Nat.dvd_of_mod_eq_zero whole)] at top
    omega
  · have gap := roundUp_gap align.pos (Nat.pos_iff_ne_zero.mp rest)
    omega

theorem not_needsPage (served : ¬ arenaNeedsPage run.arena size)
    (fits : run.arena.current + 8 + size < 2 ^ 64) :
    run.arena.current + 8 + size ≤ run.arena.sentinel ∧ run.arena.sentinel ≠ 0 := by
  rw [arenaNeedsPage, not_or, wordAdd_eq (by omega : run.arena.current + 8 < 2 ^ 64),
    wordAdd_eq fits] at served
  exact ⟨Nat.not_lt.mp served.1, served.2⟩

theorem ArenaGood.allocated (good : ArenaGood align run) (positive : 0 < size)
    (pageOk : arenaPageOk align run.arena size page) (room : arenaHasRoom align run size) :
    ArenaAllocated align run size (arenaAllocWithSizeHeader align run.arena size page).1
      (arenaAllocWithSizeHeader align run.arena size page).2 := by
  obtain ⟨laid, top⟩ := good
  rw [arenaHasRoom] at room
  by_cases needs : arenaNeedsPage run.arena size
  · rw [if_pos needs] at room
    obtain ⟨_, aligned, fits, clear⟩ := pageOk needs (laid.not_keepsPage _)
    have turned := laid.turn_laid needs pageOk
    obtain ⟨bump, current⟩ := arenaTurnPage_bump laid room aligned fits
    have enough := le_arenaPageBytes run.arena (arenaHeaderPage align size)
    rw [arenaHeaderPage_eq room] at enough
    have sized : page + align.bytes + size ≤
        page + arenaPageBytes run.arena (arenaHeaderPage align size) := by
      rw [arenaHeaderPage_eq room]
      omega
    have placed := turned.placed bump positive (by simpa only [current] using sized) (by
      intro block member ⟨lower, upper⟩
      have avoids := laid.not_within_new clear member
      have proper := laid.eight_lt member
      have blockSized := laid.sized block member
      simp only [ArenaBlock.stop, Clear] at lower upper avoids
      omega)
    rw [arenaAllocWithSizeHeader, if_pos needs]
    exact ⟨placed.good, fun block member =>
      (placed.contents block member).trans (laid.turn_contents clear member)⟩
  · rw [if_neg needs] at room
    obtain ⟨fits, rest⟩ := room
    obtain ⟨served, used⟩ := not_needsPage needs fits
    rcases top with ⟨_, unused⟩ | ⟨home, bump, others, last⟩
    · exact absurd unused used
    · rw [arenaAllocWithSizeHeader, if_neg needs]
      apply laid.placed bump positive
      · rw [← bump.sentinel]
        exact served
      · intro block member within
        by_cases isLast : block.address = run.arena.last + 8
        · obtain ⟨positiveRest, smallRest⟩ := rest block member isLast
          exact stop_le_of_rest (laid.aligned block member) (last block member isLast).2
            positiveRest smallRest
        · exact others block member within isLast

theorem ArenaGood.not_laidOut (good : ArenaGood align run) (positive : 0 < size)
    (pageOk : arenaPageOk align run.arena size page) (noRoom : ¬ arenaHasRoom align run size)
    {next : MulleArena} {blocks : List ArenaBlock}
    (pages : next.pages = (arenaAllocWithSizeHeader align run.arena size page).1.pages)
    (rest : ∀ block ∈ run.blocks, block.address = run.arena.last + 8 →
      run.arena.current + 8 + size ≤ run.arena.sentinel → block ∈ blocks) :
    ¬ ArenaLaidOut ⟨next, ⟨(arenaAllocWithSizeHeader align run.arena size page).2,
      size⟩ :: blocks⟩ := by
  rintro ⟨within, clear⟩
  obtain ⟨laid, top⟩ := good
  obtain ⟨home, homeMember, lower, upper⟩ := within _ List.mem_cons_self
  simp only [pages, ArenaBlock.stop] at homeMember lower upper
  rw [arenaHasRoom] at noRoom
  by_cases needs : arenaNeedsPage run.arena size
  · rw [if_pos needs] at noRoom
    have turned := laid.turn_laid needs pageOk
    obtain ⟨proper, aligned, fits, _⟩ := pageOk needs (laid.not_keepsPage _)
    have unit : align.bytes ≤ 2 ^ 64 - page :=
      Nat.le_of_dvd (by omega) (Nat.dvd_sub align.dvd_words aligned)
    have homeOk := turned.pagesOk home
    simp only [arenaAllocWithSizeHeader, if_pos needs, arenaPlace_pages] at homeMember lower upper
    obtain ⟨homeProper, _, homeFits⟩ := homeOk homeMember
    have eight := align.eight_le
    have small := align.le_words
    rw [arenaTurnPage_eq (laid.not_keepsPage _)] at lower upper
    simp only [arenaPlace, wordAdd] at lower upper
    omega
  · rw [if_neg needs] at noRoom
    simp only [arenaAllocWithSizeHeader, if_neg needs,
      arenaPlace_pages] at homeMember lower upper clear
    obtain ⟨homeProper, _, homeFits⟩ := laid.pagesOk home homeMember
    rcases top with ⟨_, unused⟩ | ⟨used, bump, others, last⟩
    · exact needs (.inr unused)
    · have below := bump.below
      by_cases fits : run.arena.current + 8 + size < 2 ^ 64
      · have served := not_needsPage needs fits
        push Not at noRoom
        obtain ⟨block, member, isLast, full⟩ := noRoom fits
        have later := stop_gt_of_no_rest (laid.aligned block member) (last block member isLast).2
          (by omega)
        have avoids := (List.pairwise_cons.mp clear).1 block (rest block member isLast served.1)
        have blockProper := laid.eight_lt member
        have rounded := le_roundUp block.stop align.pos
        have top := (last block member isLast).2
        have blockSized := laid.sized block member
        have user : (arenaPlace align run.arena size).2 = run.arena.current + 8 := by
          rw [arenaPlace_eq fits]
        simp only [user, ArenaBlock.Avoids, Clear] at avoids
        simp only [ArenaBlock.stop] at later rounded top
        omega
      · simp only [arenaPlace, wordAdd] at lower upper
        omega

end Allocating

end MulleCore
