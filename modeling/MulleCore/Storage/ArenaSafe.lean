import MulleCore.Storage.ArenaBlocks

/-!
Runs of the vtable of an arena.
-/

namespace MulleCore

open Library

section Allocated

variable {align : ArenaMaxAlign} {run : ArenaRun} {block : ArenaBlock} {next : MulleArena}
  {size p : Nat}

theorem ArenaAllocated.fresh (allocated : ArenaAllocated align run size next p)
    (member : block ∈ run.blocks) :
    block.address ≠ p := by
  rintro rfl
  have avoids := (List.pairwise_cons.mp allocated.good.laid.laidOut.clear).1 block member
  simp only [ArenaBlock.Avoids, Clear] at avoids
  omega

theorem ArenaAllocated.fill (allocated : ArenaAllocated align run size next p) {bytes : List UInt8}
    (fits : bytes.length ≤ size) :
    ArenaAllocated align run size { next with memory := writeBytes next.memory p bytes } p := by
  have upper : p + bytes.length ≤ (ArenaBlock.mk p size).stop := Nat.add_le_add_left fits p
  refine ⟨allocated.good.write List.mem_cons_self le_rfl upper, fun block member => ?_⟩
  have kept := allocated.good.laid.write_clear List.mem_cons_self le_rfl upper
    (List.mem_cons_of_mem _ member) (allocated.fresh member)
  exact kept.trans (allocated.contents block member)

theorem ArenaBlock.contents_bytes {memory other : ByteMemory} {count : Nat}
    (proper : 8 < block.address) (fits : count ≤ block.size)
    (same : block.contents memory = block.contents other) :
    readBytes memory block.address count = readBytes other block.address count := by
  have apply_add : ∀ memory : ByteMemory,
      readBytes memory block.address count = ((block.contents memory).drop 8).take count := by
    intro memory
    apply List.ext_getElem
    · simp [ArenaBlock.contents, fits]
    · intro offset inside _
      have shift : block.address - 8 + (8 + offset) = block.address + offset := by omega
      simp [readBytes, ArenaBlock.contents, shift]
  rw [apply_add, apply_add, same]

theorem ArenaAllocated.forget (allocated : ArenaAllocated align run size next p) (block : Nat) :
    ArenaGood align ⟨next, ⟨p, size⟩ :: run.forget block⟩ :=
  allocated.good.sublist (List.filter_sublist.cons_cons _)

end Allocated

section Operations

variable {align : ArenaMaxAlign} {run : ArenaRun} {block held : ArenaBlock} {home : ArenaPage}
  {total : Nat}

theorem ArenaGood.last_top (good : ArenaGood align run) (member : held ∈ run.blocks)
    (isLast : held.address = run.arena.last + 8) :
    ∃ home, ArenaTop align run home ∧ held.Within home ∧
      roundUp align.bytes held.stop = run.arena.current + 8 := by
  rcases good.top with ⟨empty, _⟩ | ⟨home, top⟩
  · obtain ⟨page, pageMember, _⟩ := good.laid.laidOut.within held member
    rw [empty] at pageMember
    exact absurd pageMember List.not_mem_nil
  · exact ⟨home, top, top.last held member isLast⟩

theorem ArenaTop.below_last (top : ArenaTop align run home) (laid : ArenaLaid align run)
    (heldMember : held ∈ run.blocks) (isLast : held.address = run.arena.last + 8)
    (member : block ∈ run.blocks) (different : block.address ≠ held.address)
    (within : block.Within home) :
    block.stop + 8 ≤ held.address := by
  have rounded := (top.last held heldMember isLast).2
  have below := top.others block member within (by rwa [← isLast])
  have proper := laid.eight_lt member
  have heldProper := laid.eight_lt heldMember
  have sized := laid.sized block member
  simp only [ArenaBlock.stop] at below rounded ⊢
  rcases laid.clear_of_ne member heldMember different with before | behind
  · omega
  · have above : roundUp align.bytes (held.address + held.size) ≤ block.address :=
      roundUp_le (laid.aligned block member) (by omega)
    omega

theorem ArenaTop.avoids_resized (top : ArenaTop align run home) (laid : ArenaLaid align run)
    (heldMember : held ∈ run.blocks) (isLast : held.address = run.arena.last + 8)
    (room : held.address + total ≤ home.address + home.size)
    (member : block ∈ run.blocks) (different : block.address ≠ held.address) :
    (ArenaBlock.mk held.address total).Avoids block := by
  obtain ⟨page, pageMember, lower, upper⟩ := laid.laidOut.within block member
  have heldLower := (top.last held heldMember isLast).1.1
  by_cases same : page = home
  · subst same
    have below := top.below_last laid heldMember isLast member different ⟨lower, upper⟩
    right
    simp only [ArenaBlock.stop] at below
    change block.address - 8 + (block.size + 8) ≤ held.address - 8
    omega
  · simp only [ArenaBlock.stop] at upper
    rcases laid.pagesClear.forall pageMember top.bump.member same with before | behind
    · right
      change block.address - 8 + (block.size + 8) ≤ held.address - 8
      omega
    · left
      change held.address - 8 + (total + 8) ≤ block.address - 8
      omega

theorem arenaWriteHeader_eq (arena : MulleArena) {user size : Nat} (proper : 8 < user)
    (fits : user + size < 2 ^ 64) :
    arenaWriteHeader align arena user size =
      { arena with
        memory := writeBytes arena.memory (user - 8) (toBytes 8 size)
        current := roundUp align.bytes (user + size) - 8 } := by
  have current := wordSub_arenaAlignPointer align (p := user + size) (by omega) fits
  rw [arenaWriteHeader, wordSub_eq proper.le, wordAdd_eq fits, ← current, Nat.add_sub_cancel]

theorem ArenaLaid.resize_contents (laid : ArenaLaid align run) (total : Nat)
    (heldMember : held ∈ run.blocks) (member : block ∈ run.blocks)
    (different : block.address ≠ held.address) :
    block.contents (writeBytes run.arena.memory (held.address - 8) (toBytes 8 total)) =
      block.contents run.arena.memory := by
  apply ArenaBlock.contents_writeBytes
  rw [length_toBytes]
  rcases laid.clear_of_ne member heldMember different with before | behind
  · exact .inl before
  · right
    omega

theorem ArenaGood.resize (good : ArenaGood align run) (heldMember : held ∈ run.blocks)
    (isLast : held.address = run.arena.last + 8) (positive : 0 < total)
    (room : held.address + total ≤ run.arena.sentinel) :
    ArenaGood align ⟨arenaWriteHeader align run.arena held.address total,
      ⟨held.address, total⟩ :: run.forget held.address⟩ := by
  have laid := good.laid
  obtain ⟨home, top, within, rounded⟩ := good.last_top heldMember isLast
  have proper := laid.eight_lt heldMember
  have homeEnd := (laid.pagesOk home top.bump.member).2.2
  rw [top.bump.sentinel] at room
  have fits : held.address + total < 2 ^ 64 := room.trans_lt homeEnd
  have above := top.bump.above
  have eight := align.eight_le
  have unit := le_roundUp (held.address + total) align.pos
  have current : roundUp align.bytes (held.address + total) - 8 + 8 =
      roundUp align.bytes (held.address + total) := by
    omega
  have aligned := laid.aligned held heldMember
  have lower : home.address + align.bytes ≤ held.address := by
    have homeAligned := (laid.pagesOk home top.bump.member).2.1
    have gap : align.bytes ≤ held.address - home.address :=
      Nat.le_of_dvd (by have inside := within.1; omega) (Nat.dvd_sub aligned homeAligned)
    have inside := within.1
    omega
  have kept : ∀ block ∈ run.forget held.address, block ∈ run.blocks ∧ block.address ≠ held.address :=
    fun block member => by simpa [ArenaRun.forget] using member
  rw [arenaWriteHeader_eq run.arena proper fits]
  refine ⟨⟨laid.pagesOk, laid.pagesClear, laid.newest, ?_, ?_, ?_, ?_, ?_⟩,
    .inr ⟨home, ⟨top.bump.member, top.bump.sentinel, ?_, ?_, ?_⟩, ?_, ?_⟩⟩
  · intro block member
    rcases List.mem_cons.mp member with rfl | member
    · exact positive
    · exact laid.sized block (kept block member).1
  · intro block member
    rcases List.mem_cons.mp member with rfl | member
    · exact aligned
    · exact laid.aligned block (kept block member).1
  · intro block member
    rcases List.mem_cons.mp member with rfl | member
    · rw [arenaReadHeader, wordSub_eq proper.le, ofBytes_readBytes_writeBytes]
      exact Nat.mod_eq_of_lt (by omega)
    · obtain ⟨old, different⟩ := kept block member
      have same := ArenaBlock.contents_header (laid.resize_contents total heldMember old different)
      rw [arenaReadHeader, wordSub_eq (laid.eight_lt old).le, same, ← laid.headed block old,
        arenaReadHeader, wordSub_eq (laid.eight_lt old).le]
  · intro block member
    rcases List.mem_cons.mp member with rfl | member
    · exact ⟨home, top.bump.member, within.1, room⟩
    · exact laid.laidOut.within block (kept block member).1
  · refine List.pairwise_cons.mpr ⟨fun block member => ?_,
      laid.laidOut.clear.sublist List.filter_sublist⟩
    obtain ⟨old, different⟩ := kept block member
    exact top.avoids_resized laid heldMember isLast room old different
  · rw [current]
    exact dvd_roundUp align.bytes _
  · rw [current]
    omega
  · rw [current]
    exact roundUp_le align.dvd_words fits.le
  · intro block member inside different
    rcases List.mem_cons.mp member with rfl | member
    · exact absurd isLast different
    · obtain ⟨old, elsewhere⟩ := kept block member
      have below := top.below_last laid heldMember isLast old elsewhere inside
      simp only at current ⊢
      omega
  · intro block member same
    rcases List.mem_cons.mp member with rfl | member
    · exact ⟨⟨within.1, room⟩, current.symm⟩
    · exact absurd (same.trans isLast.symm) (kept block member).2

theorem ArenaGood.freeLast (good : ArenaGood align run) (heldMember : held ∈ run.blocks)
    (isLast : held.address = run.arena.last + 8) :
    ArenaGood align ⟨{ run.arena with current := held.address - 8, last := 0 },
      run.forget held.address⟩ := by
  have laid := good.laid
  obtain ⟨home, top, within, rounded⟩ := good.last_top heldMember isLast
  have proper := laid.eight_lt heldMember
  have upper := laid.stop_lt heldMember
  have aligned := laid.aligned held heldMember
  have homeAligned := (laid.pagesOk home top.bump.member).2.1
  have inside := within.1
  have gap : align.bytes ≤ held.address - home.address :=
    Nat.le_of_dvd (by omega) (Nat.dvd_sub aligned homeAligned)
  have current : held.address - 8 + 8 = held.address := by omega
  have kept : ∀ block ∈ run.forget held.address, block ∈ run.blocks ∧ block.address ≠ held.address :=
    fun block member => by simpa [ArenaRun.forget] using member
  have fewer : ArenaGood align { run with blocks := run.forget held.address } :=
    good.sublist List.filter_sublist
  simp only [ArenaBlock.stop] at upper
  refine ⟨⟨laid.pagesOk, laid.pagesClear, laid.newest, fewer.laid.sized, fewer.laid.aligned,
    fewer.laid.headed, fewer.laid.laidOut.within, fewer.laid.laidOut.clear⟩,
    .inr ⟨home, ⟨top.bump.member, top.bump.sentinel, ?_, ?_, ?_⟩, ?_, ?_⟩⟩
  · simpa only [current] using aligned
  · simp only [current]
    omega
  · simp only [current]
    omega
  · intro block member within different
    obtain ⟨old, elsewhere⟩ := kept block member
    have below := top.below_last laid heldMember isLast old elsewhere within
    simp only
    omega
  · intro block member same
    have blockProper := laid.eight_lt (kept block member).1
    simp only at same
    omega

end Operations

section Steps

variable {align : ArenaMaxAlign} {run next : ArenaRun} {p : Nat}
variable {n size : UInt64} {page block : Nat} {op : ArenaVtableOp}

def arenaCleared (align : ArenaMaxAlign) (arena : MulleArena) (total page : Nat) : MulleArena :=
  let (arena, p) := arenaAllocWithSizeHeader align arena total page
  { arena with memory := writeBytes arena.memory p (List.replicate total 0) }

def arenaResized (align : ArenaMaxAlign) (arena : MulleArena) (block total page : Nat) :
    MulleArena × Nat :=
  if arenaStays arena block total then (arenaWriteHeader align arena block total, block)
  else
    let (next, p) := arenaAllocWithSizeHeader align arena total page
    if block = 0 then (next, p)
      else (arenaCopy next p block (min (arenaReadHeader arena block) total), p)

theorem arenaVtableStep_calloc (align : ArenaMaxAlign) (run : ArenaRun) (page : Nat)
    (ok : arenaSizesOk n size) :
    arenaVtableStep align run (.calloc n size page) =
      some (⟨arenaCleared align run.arena (n.toNat * size.toNat) page,
        ⟨(arenaAllocWithSizeHeader align run.arena (n.toNat * size.toNat) page).2,
          n.toNat * size.toNat⟩ ::
          run.blocks⟩, (arenaAllocWithSizeHeader align run.arena (n.toNat * size.toNat) page).2) := by
  obtain ⟨nonzero, sized, fits⟩ := ok
  have proper : ¬ (n.toNat = 0 ∨ size.toNat = 0) := by omega
  rw [arenaVtableStep, arenaCallocV, if_neg proper, allocatorSizeMultiply_some fits]
  rfl

theorem arenaVtableStep_reallocarray (align : ArenaMaxAlign) (run : ArenaRun)
    (block page : Nat) (ok : arenaSizesOk n size) :
    arenaVtableStep align run (.reallocarray block n size page) =
      some (⟨(arenaResized align run.arena block (n.toNat * size.toNat) page).1,
        ⟨(arenaResized align run.arena block (n.toNat * size.toNat) page).2, n.toNat * size.toNat⟩ ::
          run.forget block⟩, (arenaResized align run.arena block (n.toNat * size.toNat) page).2) := by
  obtain ⟨nonzero, sized, fits⟩ := ok
  have proper : ¬ (n.toNat = 0 ∨ size.toNat = 0) := by omega
  rw [arenaVtableStep, arenaReallocarrayV, if_neg proper, allocatorSizeMultiply_some fits,
    Option.bind_eq_bind, Option.bind_some, arenaResized]
  by_cases fresh : block = 0
  · simp [fresh, arenaStays]
  · by_cases there : arenaExtends run.arena block (n.toNat * size.toNat)
    · simp [fresh, there, arenaStays]
    · simp [fresh, there, arenaStays]

section

variable (good : ArenaGood align run)
include good

theorem ArenaGood.calloc_safe (permitted : arenaVtablePermits align run (.calloc n size page))
    (room : arenaVtableHasRoom align run (.calloc n size page)) :
    ∃ next p, arenaVtableStep align run (.calloc n size page) = some (next, p) ∧
      ArenaGood align next ∧
      ArenaKeeps run next p (.calloc n size page) := by
  obtain ⟨ok, pageOk⟩ := permitted
  have allocated := (good.allocated (Nat.mul_pos ok.1 ok.2.1) pageOk room).fill
    (List.length_replicate (n := n.toNat * size.toNat) (a := (0 : UInt8))).le
  exact ⟨_, _, arenaVtableStep_calloc align run page ok, allocated.good, allocated.contents⟩

theorem ArenaGood.stays_safe
    (permitted : arenaVtablePermits align run (.reallocarray block n size page))
    (stays : arenaStays run.arena block (n.toNat * size.toNat))
    (room : block + n.toNat * size.toNat < 2 ^ 64) :
    ∃ next p, arenaVtableStep align run (.reallocarray block n size page) = some (next, p) ∧
      ArenaGood align next ∧ ArenaKeeps run next p (.reallocarray block n size page) := by
  obtain ⟨ok, holds, _⟩ := permitted
  obtain ⟨held, member, rfl⟩ := holds.resolve_left stays.1
  obtain ⟨isLast, enough⟩ := stays.2
  have proper := good.laid.eight_lt member
  rw [wordAdd_eq room] at enough
  rw [wordSub_eq proper.le] at isLast
  have grown := good.resize member (by omega) (Nat.mul_pos ok.1 ok.2.1) enough
  have step := arenaVtableStep_reallocarray align run held.address page ok
  rw [arenaResized, if_pos stays] at step
  refine ⟨_, _, step, grown, ?_, ?_⟩
  · intro block blockMember different
    simp only [arenaWriteHeader_eq run.arena proper room]
    exact good.laid.resize_contents _ member blockMember different
  · intro block _ _
    simp only [arenaWriteHeader_eq run.arena proper room]
    apply readBytes_writeBytes_of_clear
    right
    rw [length_toBytes]
    omega

theorem ArenaGood.moves_safe
    (permitted : arenaVtablePermits align run (.reallocarray block n size page))
    (moves : ¬ arenaStays run.arena block (n.toNat * size.toNat))
    (room : arenaHasRoom align run (n.toNat * size.toNat)) :
    ∃ next p, arenaVtableStep align run (.reallocarray block n size page) = some (next, p) ∧
      ArenaGood align next ∧ ArenaKeeps run next p (.reallocarray block n size page) := by
  obtain ⟨ok, holds, pageOk⟩ := permitted
  have allocated := good.allocated (Nat.mul_pos ok.1 ok.2.1) (pageOk moves) room
  have step := arenaVtableStep_reallocarray align run block page ok
  rw [arenaResized, if_neg moves] at step
  rcases holds with rfl | ⟨held, member, rfl⟩
  · simp only [if_pos] at step
    refine ⟨_, _, step, allocated.forget 0, fun block blockMember _ => allocated.contents block
      blockMember, ?_⟩
    intro block blockMember same
    have proper := good.laid.eight_lt blockMember
    omega
  · have proper := good.laid.eight_lt member
    have nonzero : held.address ≠ 0 := by omega
    simp only [if_neg nonzero, good.laid.headed held member] at step
    have fits : (readBytes (arenaAllocWithSizeHeader align run.arena (n.toNat * size.toNat)
      page).1.memory
        held.address (min held.size (n.toNat * size.toNat))).length ≤ n.toNat * size.toNat := by simp
    have filled := allocated.fill fits
    refine ⟨_, _, step, filled.forget held.address,
      fun block blockMember _ => filled.contents block blockMember, ?_⟩
    intro block blockMember same
    obtain rfl : block = held := by
      by_contra different
      have avoids := good.laid.laidOut.clear.forall blockMember member different
      simp only [ArenaBlock.Avoids, Clear] at avoids
      omega
    have copied := ArenaBlock.contents_bytes proper
      (Nat.min_le_left block.size (n.toNat * size.toNat)) (allocated.contents block member)
    simp only [arenaCopy]
    rw [readBytes_writeBytes_front (by simp), List.take_of_length_le (by simp), copied]

theorem ArenaGood.free_safe (permitted : arenaVtablePermits align run (.free block)) :
    ∃ next p, arenaVtableStep align run (.free block) = some (next, p) ∧ ArenaGood align next ∧
      ArenaKeeps run next p (.free block) := by
  refine ⟨_, _, rfl, ?_, ?_⟩
  · have fewer : ArenaGood align { run with blocks := run.forget block } :=
      good.sublist List.filter_sublist
    rcases permitted with rfl | ⟨held, member, rfl⟩
    · simpa only [arenaFreeV, if_pos] using fewer
    · have proper := good.laid.eight_lt member
      simp only [arenaFreeV, if_neg (show held.address ≠ 0 by omega), wordSub_eq proper.le]
      split
      · rename_i isLast
        exact good.freeLast member (by omega)
      · exact fewer
  · intro held _ _
    have memory : (arenaFreeV run.arena block).memory = run.arena.memory := by
      simp only [arenaFreeV]
      split
      · rfl
      · split <;> rfl
    simp only [memory]

theorem ArenaGood.store_good {address : Nat} {byte : UInt8}
    (permitted : arenaVtablePermits align run (.store address byte)) :
    ArenaGood align { run with
      arena := { run.arena with memory := writeBytes run.arena.memory address [byte] } } := by
  obtain ⟨held, member, lower, upper⟩ := permitted
  exact good.write member lower (Nat.succ_le_of_lt upper)

end

theorem ArenaGood.step (good : ArenaGood align run)
    (permitted : arenaVtablePermits align run op) (room : arenaVtableHasRoom align run op) :
    ∃ next p, arenaVtableStep align run op = some (next, p) ∧ ArenaGood align next ∧
      ArenaKeeps run next p op := by
  cases op with
  | calloc n size page => exact good.calloc_safe permitted room
  | reallocarray block n size page =>
    rw [arenaVtableHasRoom] at room
    split at room
    · rename_i stays
      exact good.stays_safe permitted stays room
    · rename_i moves
      exact good.moves_safe permitted moves room
  | free block => exact good.free_safe permitted
  | store address byte => exact ⟨_, _, rfl, good.store_good permitted, trivial⟩

theorem ArenaGood.calloc_hasRoom (good : ArenaGood align run)
    (permitted : arenaVtablePermits align run (.calloc n size page))
    (safe : ArenaSafe align run (.calloc n size page)) :
    arenaVtableHasRoom align run (.calloc n size page) := by
  obtain ⟨ok, pageOk⟩ := permitted
  obtain ⟨next, p, stepped, laidOut, _⟩ := safe
  rw [arenaVtableStep_calloc align run page ok, Option.some.injEq, Prod.mk.injEq] at stepped
  obtain ⟨rfl, rfl⟩ := stepped
  by_contra noRoom
  have pages : (arenaCleared align run.arena (n.toNat * size.toNat) page).pages =
      (arenaAllocWithSizeHeader align run.arena (n.toNat * size.toNat) page).1.pages := rfl
  exact good.not_laidOut (Nat.mul_pos ok.1 ok.2.1) pageOk noRoom pages (fun _ member _ _ => member)
    laidOut

theorem ArenaGood.reallocarray_hasRoom (good : ArenaGood align run)
    (permitted : arenaVtablePermits align run (.reallocarray block n size page))
    (safe : ArenaSafe align run (.reallocarray block n size page)) :
    arenaVtableHasRoom align run (.reallocarray block n size page) := by
  obtain ⟨ok, holds, pageOk⟩ := permitted
  obtain ⟨next, p, stepped, laidOut, _⟩ := safe
  rw [arenaVtableStep_reallocarray align run block page ok, Option.some.injEq,
    Prod.mk.injEq] at stepped
  obtain ⟨rfl, -⟩ := stepped
  rw [arenaVtableHasRoom]
  by_cases stays : arenaStays run.arena block (n.toNat * size.toNat)
  · rw [if_pos stays]
    simp only [arenaResized, if_pos stays] at laidOut
    obtain ⟨home, homeMember, _, upper⟩ := laidOut.within _ List.mem_cons_self
    exact upper.trans_lt (good.laid.pagesOk home homeMember).2.2
  · rw [if_neg stays]
    simp only [arenaResized, if_neg stays] at laidOut
    by_contra noRoom
    have others : ∀ held ∈ run.blocks, held.address = run.arena.last + 8 →
        run.arena.current + 8 + n.toNat * size.toNat ≤ run.arena.sentinel →
        held ∈ run.forget block := by
      intro held member isLast served
      simp only [ArenaRun.forget, List.mem_filter, member, true_and, decide_eq_true_eq]
      rintro rfl
      obtain ⟨home, top, _, rounded⟩ := good.last_top member isLast
      have proper := good.laid.eight_lt member
      have above := le_roundUp held.stop align.pos
      have homeEnd := (good.laid.pagesOk home top.bump.member).2.2
      have sentinel := top.bump.sentinel
      simp only [ArenaBlock.stop] at above rounded
      refine stays ⟨by omega, ?_, ?_⟩
      · rw [wordSub_eq proper.le]
        omega
      · rw [wordAdd_eq (by omega)]
        omega
    by_cases fresh : block = 0
    · simp only [if_pos fresh] at laidOut
      exact good.not_laidOut (Nat.mul_pos ok.1 ok.2.1) (pageOk stays) noRoom rfl others laidOut
    · simp only [if_neg fresh] at laidOut
      have pages : (arenaCopy (arenaAllocWithSizeHeader align run.arena (n.toNat * size.toNat) page).1
          (arenaAllocWithSizeHeader align run.arena (n.toNat * size.toNat) page).2 block
          (min (arenaReadHeader run.arena block) (n.toNat * size.toNat))).pages =
          (arenaAllocWithSizeHeader align run.arena (n.toNat * size.toNat) page).1.pages := rfl
      exact good.not_laidOut (Nat.mul_pos ok.1 ok.2.1) (pageOk stays) noRoom pages others laidOut

theorem ArenaGood.safe_iff (good : ArenaGood align run)
    (permitted : arenaVtablePermits align run op) :
    ArenaSafe align run op ↔ arenaVtableHasRoom align run op := by
  constructor
  · intro safe
    cases op with
    | calloc n size page => exact good.calloc_hasRoom permitted safe
    | reallocarray block n size page => exact good.reallocarray_hasRoom permitted safe
    | free block => trivial
    | store address byte => trivial
  · intro room
    obtain ⟨next, p, stepped, nextGood, keeps⟩ := good.step permitted room
    exact ⟨next, p, stepped, nextGood.laid.laidOut, keeps⟩

theorem arenaStart_good (memory : ByteMemory) (pageSize : UInt64) :
    ArenaGood align (arenaStart memory pageSize) := by
  refine ⟨⟨?_, List.Pairwise.nil, ?_, ?_, ?_, ?_, ?_, List.Pairwise.nil⟩, .inl ⟨rfl, rfl⟩⟩
  all_goals simp [arenaStart, arenaInit]

/-- The blocks of the vtable stay apart as long as every block that another one is placed
behind leaves room for a header. -/
theorem arenaRun_safe_iff (align : ArenaMaxAlign) (memory : ByteMemory) (pageSize : UInt64)
    (ops : List ArenaVtableOp)
    (permitted : PermittedFrom (arenaVtableNext align) (arenaVtablePermits align)
      (arenaStart memory pageSize) ops) :
    PermittedFrom (arenaVtableNext align) (ArenaSafe align) (arenaStart memory pageSize) ops ↔
      PermittedFrom (arenaVtableNext align) (arenaVtableHasRoom align) (arenaStart memory pageSize)
        ops := by
  refine permittedFrom_congr (fun run op (good : ArenaGood align run) allowed => good.safe_iff
    allowed) ?_ ops _ (arenaStart_good memory pageSize) permitted
  intro run op next good allowed room stepped
  obtain ⟨after, p, did, afterGood, _⟩ := good.step allowed room
  rw [arenaVtableNext, did, Option.map_some, Option.some.injEq] at stepped
  exact stepped ▸ afterGood

def sysvAlign : ArenaMaxAlign := ⟨4, by decide, by decide⟩

theorem arenaRun_safe_iff_resized :
    PermittedFrom (arenaVtableNext sysvAlign) (ArenaSafe sysvAlign) (arenaStart (fun _ => 0) 64)
      [.calloc 1 8 4096, .calloc 1 4 0, .free 4128, .reallocarray 4112 1 30 0, .store 4130 7,
        .reallocarray 4128 1 40 8192] := by
  apply (arenaRun_safe_iff sysvAlign (fun _ => 0) 64 _ ?_).mpr
  · decide
  · decide

instance (run : ArenaRun) : Decidable (ArenaLaidOut run) :=
  decidable_of_iff ((∀ block ∈ run.blocks, ∃ page ∈ run.arena.pages, block.Within page) ∧
    run.blocks.Pairwise ArenaBlock.Avoids)
    ⟨fun laidOut => ⟨laidOut.1, laidOut.2⟩, fun laidOut => ⟨laidOut.within, laidOut.clear⟩⟩

/-- The header of the second block is in the last bytes of the first one. -/
theorem arenaRun_not_safe : ¬ ∀ (align : ArenaMaxAlign) (memory : ByteMemory) (pageSize : UInt64)
    (ops : List ArenaVtableOp),
    PermittedFrom (arenaVtableNext align) (arenaVtablePermits align) (arenaStart memory pageSize)
      ops →
      PermittedFrom (arenaVtableNext align) (ArenaSafe align) (arenaStart memory pageSize) ops := by
  intro all
  have safe := all sysvAlign (fun _ => 0) 64 [.calloc 1 16 4096, .calloc 1 16 0] (by decide)
  have laidOut : PermittedFrom (arenaVtableNext sysvAlign)
      (fun run op => ∀ next ∈ arenaVtableNext sysvAlign run op, ArenaLaidOut next)
      (arenaStart (fun _ => 0) 64) [.calloc 1 16 4096, .calloc 1 16 0] := by
    refine safe.mono fun run op safe next stepped => ?_
    obtain ⟨after, p, did, laidOut, _⟩ := safe
    rw [arenaVtableNext, did] at stepped
    cases stepped
    exact laidOut
  revert laidOut
  decide

end Steps

end MulleCore
