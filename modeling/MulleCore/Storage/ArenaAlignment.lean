import MulleCore.Storage.ArenaSafe

/-!
When the pointers that the vtable returns are aligned.
-/

namespace MulleCore

open Library

/-- `ready` says whether the last thing that moved the bump pointer left it one header
before an aligned address. -/
structure ArenaWatch where
  run : ArenaRun
  ready : Bool

section Statement

variable (align : ArenaMaxAlign) (watch : ArenaWatch)

def arenaBumpReady (size : Nat) (result : Option (MulleArena × Nat)) : Bool :=
  match result with
  | some (_, p) => decide (align.bytes ∣ p + size + 8)
  | none => watch.ready

def arenaReadyAfter : ArenaOp → Bool
  | .vtable (.calloc _ _ _) => true
  | .vtable (.reallocarray _ _ _ _) => true
  | .vtable (.free block) =>
    watch.ready || decide (block ≠ 0 ∧ wordSub block 8 = watch.run.arena.last)
  | .vtable (.store _ _) => watch.ready
  | .alloc size alignment page =>
    arenaBumpReady align watch size.toNat (arenaAlloc watch.run.arena size.toNat alignment.toNat page)
  | .realloc block oldSize newSize alignment page =>
    arenaBumpReady align watch newSize.toNat
      (arenaRealloc watch.run.arena block oldSize.toNat newSize.toNat alignment.toNat page)
  | .resetKeepPages keepCount =>
    if watch.run.arena.pages = [] then watch.ready
    else decide (keepCount = 0 ∨ align.bytes = 8)

def arenaWatchNext (op : ArenaOp) : Option ArenaWatch :=
  (arenaStep align watch.run op).map fun (run, _) => ⟨run, arenaReadyAfter align watch op⟩

def arenaPageAligned (needs : Prop) (minSize page : Nat) : Prop :=
  needs → ¬ arenaKeepsPage watch.run.arena minSize → align.bytes ∣ page

def arenaAllocAligned (size alignment page : Nat) : Prop :=
  arenaPageAligned align watch
    (wordAdd (arenaAlignPointer watch.run.arena.current alignment) size > watch.run.arena.sentinel)
    (wordSub (wordAdd size alignment) 1) page

def arenaPermits : ArenaOp → Prop
  | .vtable (.calloc n size page) =>
    arenaPageAligned align watch (arenaNeedsPage watch.run.arena (n.toNat * size.toNat))
      (arenaHeaderPage align (n.toNat * size.toNat)) page
  | .vtable (.reallocarray block n size page) => (block = 0 ∨ watch.run.holds block) ∧
      arenaPageAligned align watch (arenaNeedsPage watch.run.arena (n.toNat * size.toNat))
        (arenaHeaderPage align (n.toNat * size.toNat)) page
  | .vtable (.free block) => block = 0 ∨ watch.run.holds block
  | .vtable (.store _ _) => True
  | .alloc size alignment page => arenaAllocAligned align watch size.toNat alignment.toNat page
  | .realloc _ _ newSize alignment page =>
    arenaAllocAligned align watch newSize.toNat alignment.toNat page
  | .resetKeepPages _ => True

def arenaReturnsAligned : ArenaOp → Prop
  | .vtable (.calloc n size page) => ∀ next p,
      arenaStep align watch.run (.vtable (.calloc n size page)) = some (next, p) → align.bytes ∣ p
  | .vtable (.reallocarray block n size page) => ∀ next p,
      arenaStep align watch.run (.vtable (.reallocarray block n size page)) = some (next, p) →
      align.bytes ∣ p
  | _ => True

def arenaServesReady (size : Nat) : Prop := ¬ arenaNeedsPage watch.run.arena size → watch.ready = true

def arenaIsReady : ArenaOp → Prop
  | .vtable (.calloc n size _) => arenaSizesOk n size → arenaServesReady watch (n.toNat * size.toNat)
  | .vtable (.reallocarray block n size _) => arenaSizesOk n size →
      ¬ arenaStays watch.run.arena block (n.toNat * size.toNat) →
      arenaServesReady watch (n.toNat * size.toNat)
  | _ => True

instance (needs : Prop) [Decidable needs] (minSize page : Nat) :
    Decidable (arenaPageAligned align watch needs minSize page) :=
  inferInstanceAs (Decidable (needs → ¬ arenaKeepsPage watch.run.arena minSize → align.bytes ∣ page))

instance (size alignment page : Nat) :
    Decidable (arenaAllocAligned align watch size alignment page) :=
  inferInstanceAs (Decidable (arenaPageAligned align watch (_ > _) _ page))

instance : DecidablePred (arenaPermits align watch)
  | .vtable (.calloc _ _ page) => inferInstanceAs (Decidable (arenaPageAligned align watch _ _ page))
  | .vtable (.reallocarray block _ _ page) =>
    inferInstanceAs (Decidable ((block = 0 ∨ watch.run.holds block) ∧
      arenaPageAligned align watch _ _ page))
  | .vtable (.free block) => inferInstanceAs (Decidable (block = 0 ∨ watch.run.holds block))
  | .vtable (.store _ _) => inferInstanceAs (Decidable True)
  | .alloc size alignment page =>
    inferInstanceAs (Decidable (arenaAllocAligned align watch size.toNat alignment.toNat page))
  | .realloc _ _ newSize alignment page =>
    inferInstanceAs (Decidable (arenaAllocAligned align watch newSize.toNat alignment.toNat page))
  | .resetKeepPages _ => inferInstanceAs (Decidable True)

instance (size : Nat) : Decidable (arenaServesReady watch size) :=
  inferInstanceAs (Decidable (¬ arenaNeedsPage watch.run.arena size → watch.ready = true))

instance : DecidablePred (arenaIsReady watch)
  | .vtable (.calloc n size _) =>
    inferInstanceAs (Decidable (arenaSizesOk n size → arenaServesReady watch (n.toNat * size.toNat)))
  | .vtable (.reallocarray block n size _) => inferInstanceAs (Decidable (arenaSizesOk n size →
      ¬ arenaStays watch.run.arena block (n.toNat * size.toNat) →
        arenaServesReady watch (n.toNat * size.toNat)))
  | .vtable (.free _) => inferInstanceAs (Decidable True)
  | .vtable (.store _ _) => inferInstanceAs (Decidable True)
  | .alloc _ _ _ => inferInstanceAs (Decidable True)
  | .realloc _ _ _ _ _ => inferInstanceAs (Decidable True)
  | .resetKeepPages _ => inferInstanceAs (Decidable True)

end Statement

section Alignment

variable {page size : Nat} {run : ArenaRun} {next : MulleArena} {n : UInt64} {p block : Nat}
  {op : ArenaOp} {alignment : Nat}

structure ArenaAligned (align : ArenaMaxAlign) (watch : ArenaWatch) : Prop where
  pages : ∀ page ∈ watch.run.arena.pages, align.bytes ∣ page.address
  blocks : ∀ block ∈ watch.run.blocks, align.bytes ∣ block.address
  ready : watch.run.arena.sentinel ≠ 0 →
    (watch.ready = true ↔ align.bytes ∣ watch.run.arena.current + 8)

variable {align : ArenaMaxAlign} {watch : ArenaWatch} {arena : MulleArena}

theorem dvd_wordAdd_add (align : ArenaMaxAlign) (left right more : Nat) :
    align.bytes ∣ wordAdd left right + more ↔ align.bytes ∣ left + right + more := by
  have shifted := dvd_wordAdd (wordAdd left right) more align.dvd_words
  have whole := dvd_wordAdd (left + right) more align.dvd_words
  rw [← shifted, ← whole]
  simp only [wordAdd, Nat.mod_add_mod]

theorem arenaNewPage_aligned {minSize : Nat} (pages : ∀ old ∈ arena.pages, align.bytes ∣ old.address)
    (fresh : ¬ arenaKeepsPage arena minSize → align.bytes ∣ page) :
    (∀ old ∈ (arenaNewPage arena minSize page).pages, align.bytes ∣ old.address) ∧
      align.bytes ∣ (arenaNewPage arena minSize page).current := by
  by_cases kept : arenaKeepsPage arena minSize
  · simp only [arenaNewPage, dif_pos kept]
    exact ⟨pages, pages _ (List.get_mem _ _)⟩
  · simp only [arenaNewPage, dif_neg kept]
    refine ⟨fun old member => ?_, fresh kept⟩
    rcases List.mem_append.mp member with member | member
    · exact pages old member
    · rw [List.mem_singleton] at member
      exact member ▸ fresh kept

theorem arenaWriteHeader_aligned (align : ArenaMaxAlign) (arena : MulleArena) (user size : Nat) :
    align.bytes ∣ (arenaWriteHeader align arena user size).current + 8 := by
  have whole : align.bytes ∣ arenaAlignPointer (wordAdd user size) align.bytes := by
    rw [arenaAlignPointer_eq align]
    exact (Nat.dvd_mod_iff align.dvd_words).mpr (dvd_roundUp align.bytes _)
  have words := align.dvd_words
  have eight := align.eight_le
  simp only [arenaWriteHeader, wordSub]
  split
  · rename_i enough
    rwa [Nat.sub_add_cancel enough]
  · rename_i small
    have zero : arenaAlignPointer (wordAdd user size) align.bytes = 0 :=
      Nat.eq_zero_of_dvd_of_lt whole (by omega)
    simpa [zero] using words

structure ArenaServed (align : ArenaMaxAlign) (arena : MulleArena) (p : Nat) : Prop where
  pages : ∀ page ∈ arena.pages, align.bytes ∣ page.address
  bump : align.bytes ∣ arena.current + 8
  pointer : align.bytes ∣ p

theorem arenaPlace_served (pages : ∀ page ∈ arena.pages, align.bytes ∣ page.address)
    (bump : align.bytes ∣ arena.current + 8) :
    ArenaServed align (arenaPlace align arena size).1 (arenaPlace align arena size).2 :=
  ⟨pages, arenaWriteHeader_aligned align arena _ size, (dvd_wordAdd _ _ align.dvd_words).mpr bump⟩

theorem arenaTurnPage_aligned (pages : ∀ old ∈ arena.pages, align.bytes ∣ old.address)
    (fresh : ¬ arenaKeepsPage arena (arenaHeaderPage align size) → align.bytes ∣ page) :
    (∀ old ∈ (arenaTurnPage align arena size page).pages, align.bytes ∣ old.address) ∧
      align.bytes ∣ (arenaTurnPage align arena size page).current + 8 := by
  obtain ⟨turned, current⟩ := arenaNewPage_aligned pages fresh
  have eight := align.eight_le
  refine ⟨turned, ?_⟩
  simp only [arenaTurnPage]
  rw [dvd_wordAdd_add, Nat.add_assoc, Nat.sub_add_cancel eight]
  exact (Nat.dvd_add_iff_left dvd_rfl).mp current

theorem ArenaAligned.served (aligned : ArenaAligned align watch)
    (pageOk : arenaPageAligned align watch (arenaNeedsPage watch.run.arena size)
      (arenaHeaderPage align size) page)
    (ready : arenaServesReady watch size) :
    ArenaServed align (arenaAllocWithSizeHeader align watch.run.arena size page).1
      (arenaAllocWithSizeHeader align watch.run.arena size page).2 := by
  rw [arenaAllocWithSizeHeader]
  by_cases needs : arenaNeedsPage watch.run.arena size
  · obtain ⟨pages, bump⟩ := arenaTurnPage_aligned aligned.pages (pageOk needs)
    rw [if_pos needs]
    exact arenaPlace_served pages bump
  · rw [if_neg needs]
    apply arenaPlace_served aligned.pages
    have used : watch.run.arena.sentinel ≠ 0 := fun unused => needs (.inr unused)
    exact (aligned.ready used).mp (ready needs)

theorem ArenaAligned.servesReady (aligned : ArenaAligned align watch) (page : Nat)
    (pointer : align.bytes ∣ (arenaAllocWithSizeHeader align watch.run.arena size page).2) :
    arenaServesReady watch size := by
  intro served
  have used : watch.run.arena.sentinel ≠ 0 := fun unused => served (.inr unused)
  rw [arenaAllocWithSizeHeader, if_neg served] at pointer
  exact (aligned.ready used).mpr ((dvd_wordAdd _ _ align.dvd_words).mp pointer)

theorem arenaVtableStep_calloc_ok {next : ArenaRun} {size : UInt64}
    (stepped : arenaVtableStep align run (.calloc n size page) = some (next, p)) :
    arenaSizesOk n size := by
  by_contra bad
  have stuck : arenaCallocV align run.arena n.toNat size.toNat page = none := by
    rw [arenaCallocV]
    by_cases zero : n.toNat = 0 ∨ size.toNat = 0
    · exact if_pos zero
    · rw [if_neg zero, allocatorSizeMultiply_none]
      · rfl
      · simp only [arenaSizesOk] at bad
        omega
  rw [arenaVtableStep, stuck] at stepped
  cases stepped

theorem arenaVtableStep_reallocarray_ok {next : ArenaRun} {size : UInt64}
    (stepped : arenaVtableStep align run (.reallocarray block n size page) = some (next, p)) :
    arenaSizesOk n size := by
  by_contra bad
  have stuck : arenaReallocarrayV align run.arena block n.toNat size.toNat page = none := by
    rw [arenaReallocarrayV]
    by_cases zero : n.toNat = 0 ∨ size.toNat = 0
    · exact if_pos zero
    · rw [if_neg zero, allocatorSizeMultiply_none]
      · rfl
      · simp only [arenaSizesOk] at bad
        omega
  rw [arenaVtableStep, stuck] at stepped
  cases stepped

theorem ArenaAligned.resized (aligned : ArenaAligned align watch) {total : Nat}
    (holds : block = 0 ∨ watch.run.holds block)
    (pageOk : arenaPageAligned align watch (arenaNeedsPage watch.run.arena total)
      (arenaHeaderPage align total) page)
    (ready : ¬ arenaStays watch.run.arena block total → arenaServesReady watch total) :
    ArenaServed align (arenaResized align watch.run.arena block total page).1
      (arenaResized align watch.run.arena block total page).2 := by
  rw [arenaResized]
  by_cases stays : arenaStays watch.run.arena block total
  · obtain ⟨held, member, rfl⟩ := holds.resolve_left stays.1
    rw [if_pos stays]
    exact ⟨aligned.pages, arenaWriteHeader_aligned align watch.run.arena _ total,
      aligned.blocks held member⟩
  · have served := aligned.served pageOk (ready stays)
    rw [if_neg stays]
    by_cases fresh : block = 0
    · simpa only [if_pos fresh] using served
    · simp only [if_neg fresh]
      exact ⟨served.pages, served.bump, served.pointer⟩

/-- The address that is returned is aligned just where the bump pointer was ready. -/
theorem ArenaAligned.returns_iff (aligned : ArenaAligned align watch)
    (permitted : arenaPermits align watch op) :
    arenaReturnsAligned align watch op ↔ arenaIsReady watch op := by
  cases op with
  | vtable op =>
    cases op with
    | calloc n size page =>
      constructor
      · intro returns ok
        exact aligned.servesReady page (returns _ _ (arenaVtableStep_calloc align watch.run page ok))
      · intro ready next p stepped
        have ok := arenaVtableStep_calloc_ok stepped
        have served := aligned.served permitted (ready ok)
        rw [arenaStep, arenaVtableStep_calloc align watch.run page ok] at stepped
        cases stepped
        exact served.pointer
    | reallocarray block n size page =>
      constructor
      · intro returns ok moves
        have pointer := returns _ _ (arenaVtableStep_reallocarray align watch.run block page ok)
        apply aligned.servesReady page
        rw [arenaResized, if_neg moves] at pointer
        by_cases fresh : block = 0
        · simpa only [if_pos fresh] using pointer
        · simpa only [if_neg fresh] using pointer
      · intro ready next p stepped
        have ok := arenaVtableStep_reallocarray_ok stepped
        have served := aligned.resized permitted.1 permitted.2 (ready ok)
        rw [arenaStep, arenaVtableStep_reallocarray align watch.run block page ok] at stepped
        cases stepped
        exact served.pointer
    | free block => exact Iff.rfl
    | store address byte => exact Iff.rfl
  | alloc size alignment page => exact Iff.rfl
  | realloc block oldSize newSize alignment page => exact Iff.rfl
  | resetKeepPages keepCount => exact Iff.rfl

theorem ArenaServed.aligned {blocks : List ArenaBlock} (served : ArenaServed align arena p)
    (older : ∀ block ∈ blocks, align.bytes ∣ block.address) :
    ArenaAligned align ⟨⟨arena, ⟨p, size⟩ :: blocks⟩, true⟩ where
  pages := served.pages
  blocks block member := by
    rcases List.mem_cons.mp member with rfl | member
    · exact served.pointer
    · exact older block member
  ready _ := iff_of_true rfl served.bump

theorem ArenaAligned.forget (aligned : ArenaAligned align watch) (block : Nat) :
    ∀ held ∈ watch.run.forget block, align.bytes ∣ held.address :=
  fun held member => aligned.blocks held (List.mem_filter.mp member).1

theorem arenaAlloc_aligned (pages : ∀ old ∈ arena.pages, align.bytes ∣ old.address)
    (fresh : wordAdd (arenaAlignPointer arena.current alignment) size > arena.sentinel →
      ¬ arenaKeepsPage arena (wordSub (wordAdd size alignment) 1) → align.bytes ∣ page)
    (allocated : arenaAlloc arena size alignment page = some (next, p)) :
    (∀ old ∈ next.pages, align.bytes ∣ old.address) ∧ next.current = wordAdd p size := by
  rw [arenaAlloc] at allocated
  split at allocated
  · split at allocated
    · rename_i full
      obtain ⟨turned, _⟩ := arenaNewPage_aligned pages (fresh full)
      cases allocated
      exact ⟨turned, rfl⟩
    · cases allocated
      exact ⟨pages, rfl⟩
  · cases allocated

theorem arenaRealloc_aligned {oldSize newSize : Nat}
    (pages : ∀ old ∈ arena.pages, align.bytes ∣ old.address)
    (fresh : wordAdd (arenaAlignPointer arena.current alignment) newSize > arena.sentinel →
      ¬ arenaKeepsPage arena (wordSub (wordAdd newSize alignment) 1) → align.bytes ∣ page)
    (allocated : arenaRealloc arena block oldSize newSize alignment page = some (next, p)) :
    (∀ old ∈ next.pages, align.bytes ∣ old.address) ∧ next.current = wordAdd p newSize := by
  rw [arenaRealloc] at allocated
  split at allocated
  · exact arenaAlloc_aligned pages fresh allocated
  · split at allocated
    · rename_i inPlace
      cases allocated
      exact ⟨pages, by rw [inPlace.1]⟩
    · cases moved : arenaAlloc arena newSize alignment page with
      | none => simp [moved] at allocated
      | some result =>
        rw [moved] at allocated
        obtain ⟨there, current⟩ := arenaAlloc_aligned pages fresh moved
        cases allocated
        exact ⟨there, current⟩

theorem ArenaAligned.bumped (aligned : ArenaAligned align watch)
    (moved : (∀ old ∈ next.pages, align.bytes ∣ old.address) ∧ next.current = wordAdd p size) :
    ArenaAligned align ⟨{ watch.run with arena := next }, decide (align.bytes ∣ p + size + 8)⟩ where
  pages := moved.1
  blocks := aligned.blocks
  ready _ := by
    rw [decide_eq_true_eq]
    simp only [moved.2]
    exact (dvd_wordAdd_add align p size 8).symm

theorem ArenaAligned.freed (aligned : ArenaAligned align watch)
    (permitted : block = 0 ∨ watch.run.holds block) :
    ArenaAligned align ⟨⟨arenaFreeV watch.run.arena block, watch.run.forget block⟩,
      arenaReadyAfter align watch (.vtable (.free block))⟩ := by
  by_cases isLast : block ≠ 0 ∧ wordSub block 8 = watch.run.arena.last
  · obtain ⟨held, member, rfl⟩ := permitted.resolve_left isLast.1
    have divides := aligned.blocks held member
    have proper : 8 ≤ held.address :=
      align.eight_le.trans (Nat.le_of_dvd (Nat.pos_of_ne_zero isLast.1) divides)
    simp only [arenaFreeV, if_neg isLast.1, if_pos isLast.2]
    refine ⟨aligned.pages, aligned.forget held.address, fun _ => iff_of_true ?_ ?_⟩
    · simp only [arenaReadyAfter, isLast.1, isLast.2, ne_eq, not_false_eq_true, and_self,
        decide_true, Bool.or_true]
    · simp only [wordSub_eq proper, Nat.sub_add_cancel proper]
      exact divides
  · have same : arenaFreeV watch.run.arena block = watch.run.arena := by
      rw [arenaFreeV]
      split
      · rfl
      · rename_i proper
        exact if_neg fun last => isLast ⟨proper, last⟩
    rw [same]
    simpa only [arenaReadyAfter, isLast, decide_false, Bool.or_false] using
      (⟨aligned.pages, aligned.forget block, aligned.ready⟩ :
        ArenaAligned align ⟨⟨watch.run.arena, watch.run.forget block⟩, watch.ready⟩)

theorem ArenaAligned.reset (aligned : ArenaAligned align watch) (keepCount : UInt64) :
    ArenaAligned align ⟨⟨arenaResetKeepPages watch.run.arena keepCount.toNat, []⟩,
      arenaReadyAfter align watch (.resetKeepPages keepCount)⟩ := by
  by_cases empty : watch.run.arena.pages = []
  · simp only [arenaResetKeepPages, if_pos empty, arenaReadyAfter]
    exact ⟨aligned.pages, fun _ member => absurd member List.not_mem_nil, aligned.ready⟩
  · simp only [arenaResetKeepPages, if_neg empty, arenaReadyAfter]
    cases kept : watch.run.arena.pages.take keepCount.toNat with
    | nil => exact ⟨fun _ member => absurd member List.not_mem_nil,
        fun _ member => absurd member List.not_mem_nil, fun used => absurd rfl used⟩
    | cons page pages =>
      have keeps : keepCount ≠ 0 := by
        rintro rfl
        simp at kept
      have all : ∀ old ∈ page :: pages, align.bytes ∣ old.address := by
        intro old member
        rw [← kept] at member
        exact aligned.pages old (List.mem_of_mem_take member)
      have eight := align.eight_le
      refine ⟨all, fun _ member => absurd member List.not_mem_nil, fun _ => ?_⟩
      simp only [keeps, false_or, decide_eq_true_eq]
      rw [Nat.dvd_add_right (all page List.mem_cons_self)]
      constructor
      · intro same
        exact same ▸ dvd_rfl
      · intro divides
        exact (Nat.le_of_dvd (by decide) divides).antisymm eight

theorem ArenaAligned.step (aligned : ArenaAligned align watch) {next : ArenaWatch}
    (permitted : arenaPermits align watch op) (ready : arenaIsReady watch op)
    (stepped : arenaWatchNext align watch op = some next) : ArenaAligned align next := by
  rw [arenaWatchNext, Option.map_eq_some_iff] at stepped
  obtain ⟨⟨run, p⟩, did, rfl⟩ := stepped
  cases op with
  | vtable op =>
    cases op with
    | calloc n size page =>
      have ok := arenaVtableStep_calloc_ok did
      have served := aligned.served permitted (ready ok)
      rw [arenaStep, arenaVtableStep_calloc align watch.run page ok] at did
      cases did
      exact ArenaServed.aligned ⟨served.pages, served.bump, served.pointer⟩ aligned.blocks
    | reallocarray block n size page =>
      have ok := arenaVtableStep_reallocarray_ok did
      have served := aligned.resized permitted.1 permitted.2 (ready ok)
      rw [arenaStep, arenaVtableStep_reallocarray align watch.run block page ok] at did
      cases did
      exact served.aligned (aligned.forget block)
    | free block =>
      cases did
      exact aligned.freed permitted
    | store address byte =>
      cases did
      exact ⟨aligned.pages, aligned.blocks, aligned.ready⟩
  | alloc size alignment page =>
    rw [arenaStep, Option.map_eq_some_iff] at did
    obtain ⟨⟨arena, p⟩, allocated, same⟩ := did
    cases same
    have moved := aligned.bumped (arenaAlloc_aligned aligned.pages permitted allocated)
    simpa only [arenaReadyAfter, arenaBumpReady, allocated] using moved
  | realloc block oldSize newSize alignment page =>
    rw [arenaStep, Option.map_eq_some_iff] at did
    obtain ⟨⟨arena, p⟩, allocated, same⟩ := did
    cases same
    have moved := aligned.bumped (arenaRealloc_aligned aligned.pages permitted allocated)
    simpa only [arenaReadyAfter, arenaBumpReady, allocated] using moved
  | resetKeepPages keepCount =>
    cases did
    exact aligned.reset keepCount

theorem arenaStart_aligned (align : ArenaMaxAlign) (memory : ByteMemory) (pageSize : UInt64) :
    ArenaAligned align ⟨arenaStart memory pageSize, true⟩ :=
  ⟨fun _ member => absurd member List.not_mem_nil, fun _ member => absurd member List.not_mem_nil,
    fun used => absurd rfl used⟩

/-- The vtable returns aligned pointers as long as no block is placed where a reset or a
direct allocation has left the bump pointer elsewhere. -/
theorem arenaRun_aligned_iff (align : ArenaMaxAlign) (memory : ByteMemory) (pageSize : UInt64)
    (ops : List ArenaOp)
    (permitted : PermittedFrom (arenaWatchNext align) (arenaPermits align)
      ⟨arenaStart memory pageSize, true⟩ ops) :
    PermittedFrom (arenaWatchNext align) (arenaReturnsAligned align) ⟨arenaStart memory pageSize,
      true⟩ ops ↔
      PermittedFrom (arenaWatchNext align) arenaIsReady ⟨arenaStart memory pageSize, true⟩ ops :=
  permittedFrom_congr (fun _ _ (aligned : ArenaAligned align _) allowed => aligned.returns_iff
    allowed) (fun _ _ _ aligned allowed ready stepped => aligned.step allowed ready stepped) ops _
    (arenaStart_aligned align memory pageSize) permitted

theorem arenaRun_aligned_iff_mixed :
    PermittedFrom (arenaWatchNext sysvAlign) (arenaReturnsAligned sysvAlign)
      ⟨arenaStart (fun _ => 0) 128, true⟩
      [.vtable (.calloc 1 8 4096), .alloc 16 8 0, .vtable (.reallocarray 4112 2 8 0),
        .alloc 200 4 8192, .vtable (.free 4144), .resetKeepPages 1,
        .vtable (.calloc 1 200 12288)] := by
  apply (arenaRun_aligned_iff sysvAlign (fun _ => 0) 128 _ ?_).mpr
  · decide
  · decide

/-- The block after the reset begins 8 bytes into the page. -/
theorem arenaRun_not_aligned : ¬ ∀ (align : ArenaMaxAlign) (memory : ByteMemory) (pageSize : UInt64)
    (ops : List ArenaOp),
    PermittedFrom (arenaWatchNext align) (arenaPermits align) ⟨arenaStart memory pageSize, true⟩ ops →
      PermittedFrom (arenaWatchNext align) (arenaReturnsAligned align) ⟨arenaStart memory pageSize,
        true⟩ ops := by
  intro all
  have returns := all sysvAlign (fun _ => 0) 64
    [.vtable (.calloc 1 8 4096), .resetKeepPages 1, .vtable (.calloc 1 8 0)] (by decide)
  have ready := (permittedFrom_congr
    (fun _ _ (aligned : ArenaAligned sysvAlign _) allowed => aligned.returns_iff allowed)
    (fun _ _ _ aligned allowed ready stepped => aligned.step allowed ready stepped) _ _
    (arenaStart_aligned sysvAlign (fun _ => 0) 64) (by decide)).mp returns
  revert ready
  decide

end Alignment

end MulleCore
