import Mathlib.Data.List.Pairwise
import MulleCore.Storage.ArenaDirect

/-!
When the blocks of an arena without its vtable keep out of each other.
-/

namespace MulleCore

open Library

section Invariant

variable {fewer : List ArenaPiece}

def ArenaPiece.Inside (piece : ArenaPiece) (page : ArenaPage) : Prop :=
  piece.Within page ∧ piece.address < page.address + page.size

structure ArenaHeld (run : ArenaDirectRun) : Prop where
  pagesOk : ∀ page ∈ run.arena.pages,
    0 < page.address ∧ page.address + page.size < 2 ^ 64 ∧ run.arena.pageSize ≤ page.size
  pagesClear : run.arena.pages.Pairwise ArenaPage.Avoids
  homes : ∀ piece ∈ run.pieces, ∃ home ∈ run.arena.pages.take (run.arena.pageIndex + 1),
    piece.Inside home
  clear : run.pieces.Pairwise ArenaPiece.Avoids
  aligned : ∀ piece ∈ run.pieces, piece.alignment ∣ piece.address

structure ArenaFront (run : ArenaDirectRun) (page : ArenaPage) : Prop where
  here : run.arena.pages[run.arena.pageIndex]? = some page
  above : page.address ≤ run.arena.current
  sentinel : run.arena.sentinel ≤ page.address + page.size
  behind : ∀ piece ∈ run.pieces, piece.Inside page → piece.stop ≤ run.arena.current

structure ArenaNewest (run : ArenaDirectRun) (page : ArenaPage) : Prop where
  front : ArenaFront run page
  last : run.arena.last ≠ 0 →
    page.address ≤ run.arena.last ∧ run.arena.last < page.address + page.size
  others : run.arena.last ≠ 0 → ∀ piece ∈ run.pieces, piece.Inside page →
    piece.address = run.arena.last ∨ piece.stop ≤ run.arena.last

structure ArenaDirectGood (run : ArenaDirectRun) : Prop where
  held : ArenaHeld run
  newest : run.arena.pages = [] ∧ run.arena.sentinel = 0 ∧ run.arena.last = 0 ∨
    ∃ page, ArenaNewest run page

variable {run : ArenaDirectRun} {piece : ArenaPiece} {page home : ArenaPage} {p size alignment : Nat}

theorem ArenaHeld.inside (held : ArenaHeld run) (member : piece ∈ run.pieces) :
    ∃ home ∈ run.arena.pages, piece.Inside home := by
  obtain ⟨home, used, inside⟩ := held.homes piece member
  exact ⟨home, List.mem_of_mem_take used, inside⟩

theorem ArenaHeld.piecesOk (held : ArenaHeld run) : ArenaPiecesOk run where
  clear := held.clear
  within piece member := by
    obtain ⟨home, homeMember, inside⟩ := held.inside member
    exact ⟨home, homeMember, inside.1⟩
  aligned := held.aligned

theorem ArenaFront.member (front : ArenaFront run page) : page ∈ run.arena.pages :=
  List.mem_of_getElem? front.here

theorem ArenaFront.used (front : ArenaFront run page) :
    page ∈ run.arena.pages.take (run.arena.pageIndex + 1) := by
  apply List.mem_of_getElem? (i := run.arena.pageIndex)
  rw [List.getElem?_take_of_succ]
  exact front.here

theorem ArenaHeld.avoids_elsewhere (held : ArenaHeld run) (pageMember : page ∈ run.arena.pages)
    (homeMember : home ∈ run.arena.pages) (different : home ≠ page) (inside : piece.Inside home)
    (lower : page.address ≤ p) (upper : p + size ≤ page.address + page.size) :
    (ArenaPiece.mk p size alignment).Avoids piece := by
  obtain ⟨⟨low, high⟩, _⟩ := inside
  simp only [ArenaPiece.stop] at high
  rcases held.pagesClear.forall homeMember pageMember different with before | behind
  · right
    change piece.address + piece.size ≤ p
    omega
  · left
    change p + size ≤ piece.address
    omega

theorem ArenaHeld.avoids_new (held : ArenaHeld run) (front : ArenaFront run page)
    (above : run.arena.current ≤ p) (room : p + size ≤ page.address + page.size)
    (member : piece ∈ run.pieces) : (ArenaPiece.mk p size alignment).Avoids piece := by
  obtain ⟨home, homeMember, inside⟩ := held.inside member
  by_cases same : home = page
  · right
    exact (front.behind piece member (same ▸ inside)).trans above
  · exact held.avoids_elsewhere front.member homeMember same inside (front.above.trans above) room

theorem ArenaHeld.cons (held : ArenaHeld run) (front : ArenaFront run page)
    (inside : piece.Inside page) (clear : ∀ other ∈ run.pieces, piece.Avoids other)
    (aligned : piece.alignment ∣ piece.address) :
    ArenaHeld { run with pieces := piece :: run.pieces } where
  pagesOk := held.pagesOk
  pagesClear := held.pagesClear
  homes other member := by
    rcases List.mem_cons.mp member with rfl | member
    · exact ⟨page, front.used, inside⟩
    · exact held.homes other member
  clear := List.pairwise_cons.mpr ⟨clear, held.clear⟩
  aligned other member := by
    rcases List.mem_cons.mp member with rfl | member
    · exact aligned
    · exact held.aligned other member

theorem ArenaHeld.sublist (held : ArenaHeld run) (sub : fewer.Sublist run.pieces) :
    ArenaHeld { run with pieces := fewer } where
  pagesOk := held.pagesOk
  pagesClear := held.pagesClear
  homes piece member := held.homes piece (sub.subset member)
  clear := held.clear.sublist sub
  aligned piece member := held.aligned piece (sub.subset member)

theorem ArenaHeld.bump (held : ArenaHeld run) (current last : Nat) :
    ArenaHeld { run with arena := { run.arena with current := current, last := last } } :=
  ⟨held.pagesOk, held.pagesClear, held.homes, held.clear, held.aligned⟩

theorem ArenaDirectGood.sublist (good : ArenaDirectGood run)
    (sub : fewer.Sublist run.pieces) : ArenaDirectGood { run with pieces := fewer } := by
  refine ⟨good.held.sublist sub, ?_⟩
  rcases good.newest with empty | ⟨page, front, last, others⟩
  · exact .inl empty
  · refine .inr ⟨page, ⟨front.here, front.above, front.sentinel, ?_⟩, last, ?_⟩
    · exact fun piece member => front.behind piece (sub.subset member)
    · exact fun used piece member => others used piece (sub.subset member)

theorem ArenaDirectGood.withMemory (good : ArenaDirectGood run) (memory : ByteMemory) :
    ArenaDirectGood { run with arena := { run.arena with memory := memory } } := by
  obtain ⟨held, newest⟩ := good
  refine ⟨⟨held.pagesOk, held.pagesClear, held.homes, held.clear, held.aligned⟩, ?_⟩
  rcases newest with empty | ⟨page, front, last, others⟩
  · exact .inl empty
  · exact .inr ⟨page, ⟨front.here, front.above, front.sentinel, front.behind⟩, last, others⟩

theorem ArenaHeld.place (held : ArenaHeld run) (front : ArenaFront run page)
    (above : run.arena.current ≤ p) (positive : 0 < size) (room : p + size ≤ run.arena.sentinel)
    (aligned : alignment ∣ p) :
    ArenaDirectGood ⟨{ run.arena with current := p + size, last := p },
      ⟨p, size, alignment⟩ :: run.pieces⟩ := by
  have upper := room.trans front.sentinel
  have lower := front.above.trans above
  have inside : (ArenaPiece.mk p size alignment).Inside page := by
    refine ⟨⟨lower, upper⟩, ?_⟩
    change p < page.address + page.size
    omega
  have grown := (held.cons front inside (fun _ => held.avoids_new front above upper) aligned).bump
    (p + size) p
  refine ⟨grown, .inr ⟨page, ⟨front.here, ?_, front.sentinel, ?_⟩, ?_, ?_⟩⟩
  · exact lower.trans (Nat.le_add_right p size)
  · intro piece member inPage
    rcases List.mem_cons.mp member with rfl | member
    · exact le_rfl
    · exact (front.behind piece member inPage).trans (above.trans (Nat.le_add_right p size))
  · exact fun _ => ⟨lower, inside.2⟩
  · intro _ piece member inPage
    rcases List.mem_cons.mp member with rfl | member
    · exact .inl rfl
    · exact .inr ((front.behind piece member inPage).trans above)

end Invariant

section Allocation

variable {run : ArenaDirectRun} {piece : ArenaPiece} {page minSize size alignment : Nat}

structure ArenaTurned (run : ArenaDirectRun) (next : MulleArena) (minSize : Nat)
    (home : ArenaPage) : Prop where
  held : ArenaHeld ⟨next, run.pieces⟩
  front : ArenaFront ⟨next, run.pieces⟩ home
  begins : next.current = home.address
  room : home.address + minSize ≤ next.sentinel
  contents : ∀ piece ∈ run.pieces,
    readBytes next.memory piece.address piece.size =
      readBytes run.arena.memory piece.address piece.size

theorem ArenaHeld.turn_kept (held : ArenaHeld run) (kept : arenaKeepsPage run.arena minSize) :
    ∃ home, ArenaTurned run (arenaNewPage run.arena minSize page) minSize home := by
  obtain ⟨small, bound⟩ := kept
  let home := run.arena.pages.get ⟨run.arena.pageIndex + 1, bound⟩
  have member : home ∈ run.arena.pages := List.get_mem _ _
  have here : run.arena.pages[run.arena.pageIndex + 1]? = some home := List.getElem?_eq_getElem bound
  obtain ⟨positive, upper, sized⟩ := held.pagesOk home member
  have sentinel : wordAdd home.address run.arena.pageSize = home.address + run.arena.pageSize :=
    wordAdd_eq (by omega)
  refine ⟨home, ?_⟩
  simp only [arenaNewPage, dif_pos (show arenaKeepsPage run.arena minSize from ⟨small, bound⟩)]
  refine ⟨⟨held.pagesOk, held.pagesClear, ?_, held.clear, held.aligned⟩, ⟨here, le_rfl, ?_, ?_⟩,
    rfl, ?_, fun _ _ => rfl⟩
  · intro piece member
    obtain ⟨old, used, inside⟩ := held.homes piece member
    exact ⟨old, List.take_subset_take_left _ (Nat.le_succ _) used, inside⟩
  · change wordAdd home.address run.arena.pageSize ≤ _
    omega
  · -- a kept page is not among the used ones, so no block is in it
    intro piece pieceMember inside
    obtain ⟨old, used, ⟨low, high⟩, before⟩ := held.homes piece pieceMember
    have split := held.pagesClear
    rw [← List.take_append_drop (run.arena.pageIndex + 1) run.arena.pages,
      List.pairwise_append] at split
    have later : home ∈ run.arena.pages.drop (run.arena.pageIndex + 1) := by
      apply List.mem_of_getElem? (i := 0)
      rw [List.getElem?_drop]
      exact here
    have apart := split.2.2 old used home later
    obtain ⟨⟨first, _⟩, last⟩ := inside
    simp only [ArenaPage.Avoids, Clear] at apart
    omega
  · change home.address + minSize ≤ wordAdd home.address run.arena.pageSize
    omega

theorem ArenaHeld.turn_fresh (held : ArenaHeld run) (fresh : ¬ arenaKeepsPage run.arena minSize)
    (gets : arenaGetsPage run.arena minSize page) :
    ∃ home, ArenaTurned run (arenaNewPage run.arena minSize page) minSize home := by
  obtain ⟨positive, upper, apart⟩ := gets fresh
  have enough : minSize ≤ arenaPageBytes run.arena minSize ∧
      run.arena.pageSize ≤ arenaPageBytes run.arena minSize := by
    rw [arenaPageBytes]
    split <;> omega
  have sentinel : wordAdd page (arenaPageBytes run.arena minSize) =
    page + arenaPageBytes run.arena minSize :=
    wordAdd_eq upper
  have elsewhere : ∀ piece ∈ run.pieces, Clear piece.address piece.size page
    (arenaPageBytes run.arena minSize) ∧
      ¬ piece.Inside ⟨page, arenaPageBytes run.arena minSize⟩ := by
    intro piece member
    obtain ⟨old, oldMember, ⟨low, high⟩, before⟩ := held.inside member
    have clear := apart old oldMember
    simp only [ArenaPiece.stop] at high
    simp only [ArenaPiece.Inside, ArenaPiece.Within, Clear] at clear ⊢
    omega
  refine ⟨⟨page, arenaPageBytes run.arena minSize⟩, ?_⟩
  simp only [arenaNewPage, dif_neg fresh]
  refine ⟨⟨?_, ?_, ?_, held.clear, held.aligned⟩, ⟨?_, le_rfl, sentinel.le, ?_⟩, rfl, ?_, ?_⟩
  · intro old member
    rcases List.mem_append.mp member with member | member
    · exact held.pagesOk old member
    · obtain rfl := List.mem_singleton.mp member
      exact ⟨positive, upper, enough.2⟩
  · rw [List.pairwise_append]
    refine ⟨held.pagesClear, List.pairwise_singleton _ _, fun old member new newMember => ?_⟩
    obtain rfl := List.mem_singleton.mp newMember
    exact apart old member
  · intro piece member
    obtain ⟨old, oldMember, inside⟩ := held.inside member
    refine ⟨old, ?_, inside⟩
    rw [List.take_of_length_le (by simp)]
    exact List.mem_append_left _ oldMember
  · simp
  · exact fun piece member inside => absurd inside (elsewhere piece member).2
  · change page + minSize ≤ wordAdd page _
    omega
  · intro piece member
    apply readBytes_writeBytes_of_clear
    rw [List.length_replicate]
    exact (elsewhere piece member).1

theorem ArenaHeld.turn (held : ArenaHeld run) (gets : arenaGetsPage run.arena minSize page) :
    ∃ home, ArenaTurned run (arenaNewPage run.arena minSize page) minSize home := by
  by_cases kept : arenaKeepsPage run.arena minSize
  · exact held.turn_kept kept
  · exact held.turn_fresh kept gets

structure ArenaGave (run : ArenaDirectRun) (size alignment : Nat) (next : MulleArena) (p : Nat) :
    Prop where
  good : ArenaDirectGood ⟨next, ⟨p, size, alignment⟩ :: run.pieces⟩
  contents : ∀ piece ∈ run.pieces,
    readBytes next.memory piece.address piece.size =
      readBytes run.arena.memory piece.address piece.size

theorem ArenaHeld.bump_place {arena : MulleArena} {home : ArenaPage} {log : Nat}
    (held : ArenaHeld ⟨arena, run.pieces⟩) (front : ArenaFront ⟨arena, run.pieces⟩ home)
    (small : log < 64) (positive : 0 < size)
    (room : roundUp (2 ^ log) arena.current + size ≤ arena.sentinel) :
    ArenaDirectGood ⟨(arenaBump arena size (2 ^ log)).1,
      ⟨(arenaBump arena size (2 ^ log)).2, size, 2 ^ log⟩ :: run.pieces⟩ := by
  have upper := (held.pagesOk home front.member).2.1
  have last := front.sentinel
  simp only at last
  have aligned : arenaAlignPointer arena.current (2 ^ log) = roundUp (2 ^ log) arena.current := by
    rw [arenaAlignPointer_two_pow _ small]
    exact Nat.mod_eq_of_lt (by omega)
  have stop : wordAdd (roundUp (2 ^ log) arena.current) size = roundUp (2 ^ log) arena.current +
    size :=
    wordAdd_eq (by omega)
  simp only [arenaBump, aligned, stop]
  exact held.place front (le_roundUp _ (Nat.two_pow_pos log)) positive room (dvd_roundUp _ _)

def arenaServed (arena : MulleArena) (size alignment page : Nat) : MulleArena :=
  if arenaOverflows arena size alignment then
    arenaNewPage arena (wordSub (wordAdd size alignment) 1) page
  else arena

theorem arenaAlloc_eq (arena : MulleArena) (page : Nat)
    (valid : size > 0 ∧ alignment > 0 ∧ alignment &&& (alignment - 1) = 0) :
    arenaAlloc arena size alignment page =
      some (arenaBump (arenaServed arena size alignment page) size alignment) := by
  rw [arenaAlloc, if_pos valid, arenaServed]
  by_cases full : arenaOverflows arena size alignment
  · rw [if_pos full]
    exact if_pos full
  · rw [if_neg full]
    exact if_neg full

theorem ArenaDirectGood.alloc (good : ArenaDirectGood run) (small : alignment < 2 ^ 32)
    (permitted : arenaMayAlloc run.arena size alignment page)
    (fits : arenaFits run.arena size alignment) :
    ∃ next p, arenaAlloc run.arena size alignment page = some (next, p) ∧
      ArenaGave run size alignment next p := by
  obtain ⟨valid, gets⟩ := permitted
  obtain ⟨log, rfl⟩ : ∃ log, alignment = 2 ^ log :=
    Nat.ne_zero_and_sub_one_eq_zero_iff_isPowerOfTwo.mp ⟨valid.2.1.ne', valid.2.2⟩
  have bound : log < 64 := by
    have narrow := (Nat.pow_lt_pow_iff_right (by decide)).mp small
    omega
  refine ⟨_, _, arenaAlloc_eq run.arena page valid, ?_⟩
  by_cases full : arenaOverflows run.arena size (2 ^ log)
  · rw [arenaFits, if_pos full] at fits
    rw [arenaServed, if_pos full]
    have minSize : wordSub (wordAdd size (2 ^ log)) 1 = size + 2 ^ log - 1 := by
      have unit := Nat.two_pow_pos log
      rw [wordSub, wordAdd]
      split <;> omega
    obtain ⟨home, turned⟩ := good.held.turn (gets full)
    have room := turned.room
    have rounded := roundUp_lt home.address (Nat.two_pow_pos log)
    refine ⟨turned.held.bump_place turned.front bound valid.1 ?_, turned.contents⟩
    rw [turned.begins]
    omega
  · rw [arenaFits, if_neg full] at fits
    rw [arenaServed, if_neg full]
    have room : roundUp (2 ^ log) run.arena.current + size ≤ run.arena.sentinel := by
      rw [arenaOverflows, arenaAlignPointer_two_pow _ bound, Nat.mod_eq_of_lt (by omega),
        wordAdd_eq fits] at full
      omega
    rcases good.newest with ⟨_, closed, _⟩ | ⟨home, newest⟩
    · omega
    · exact ⟨good.held.bump_place newest.front bound valid.1 room, fun _ _ => rfl⟩

end Allocation

section Steps

variable {run : ArenaDirectRun} {page block oldSize newSize size alignment : Nat}

theorem ArenaDirectGood.resize (good : ArenaDirectGood run) (used : run.arena.last ≠ 0)
    (member : ⟨run.arena.last, oldSize, alignment⟩ ∈ run.pieces)
    (room : run.arena.last + newSize ≤ run.arena.sentinel)
    (alone : ∀ other ∈ run.pieces.erase ⟨run.arena.last, oldSize, alignment⟩,
      other.address = run.arena.last → other.size = 0) :
    ArenaDirectGood ⟨{ run.arena with current := run.arena.last + newSize },
      ⟨run.arena.last, newSize, alignment⟩ :: run.pieces.erase ⟨run.arena.last, oldSize,
        alignment⟩⟩ := by
  have fewer := good.held.sublist (List.erase_sublist (a := ⟨run.arena.last, oldSize, alignment⟩)
    (l := run.pieces))
  rcases good.newest with ⟨_, _, unused⟩ | ⟨page, newest⟩
  · exact absurd unused used
  obtain ⟨lower, upper⟩ := newest.last used
  have reach := room.trans newest.front.sentinel
  have ends : ∀ other ∈ run.pieces.erase ⟨run.arena.last, oldSize, alignment⟩, other.Inside page →
      other.stop ≤ run.arena.last := by
    intro other otherMember inside
    rcases newest.others used other (List.mem_of_mem_erase otherMember) inside with same | before
    · rw [ArenaPiece.stop, alone other otherMember same]
      exact same.le
    · exact before
  have clear : ∀ other ∈ run.pieces.erase ⟨run.arena.last, oldSize, alignment⟩,
      (ArenaPiece.mk run.arena.last newSize alignment).Avoids other := by
    intro other otherMember
    obtain ⟨home, homeMember, inside⟩ := fewer.inside otherMember
    by_cases same : home = page
    · exact .inr (ends other otherMember (same ▸ inside))
    · exact fewer.avoids_elsewhere newest.front.member homeMember same inside lower reach
  have front : ArenaFront ⟨run.arena, run.pieces.erase ⟨run.arena.last, oldSize, alignment⟩⟩ page :=
    ⟨newest.front.here, newest.front.above, newest.front.sentinel,
      fun other otherMember => newest.front.behind other (List.mem_of_mem_erase otherMember)⟩
  have aligned : alignment ∣ run.arena.last := good.held.aligned _ member
  have inside : (ArenaPiece.mk run.arena.last newSize alignment).Inside page :=
    ⟨⟨lower, reach⟩, upper⟩
  have grown := fewer.cons front inside clear aligned
  refine ⟨grown.bump (run.arena.last + newSize) run.arena.last,
    .inr ⟨page, ⟨front.here, lower.trans (Nat.le_add_right _ _), front.sentinel, ?_⟩,
      fun _ => ⟨lower, upper⟩, ?_⟩⟩
  · intro other otherMember inside
    rcases List.mem_cons.mp otherMember with rfl | otherMember
    · exact le_rfl
    · exact (ends other otherMember inside).trans (Nat.le_add_right _ _)
  · intro _ other otherMember inside
    rcases List.mem_cons.mp otherMember with rfl | otherMember
    · exact .inl rfl
    · exact .inr (ends other otherMember inside)

theorem ArenaDirectGood.reset (good : ArenaDirectGood run) (keepCount : Nat) :
    ArenaDirectGood ⟨arenaResetKeepPages run.arena keepCount, []⟩ := by
  by_cases empty : run.arena.pages = []
  · rw [arenaResetKeepPages, if_pos empty]
    exact good.sublist (List.nil_sublist _)
  have pagesOk : ∀ page ∈ run.arena.pages.take keepCount,
      0 < page.address ∧ page.address + page.size < 2 ^ 64 ∧ run.arena.pageSize ≤ page.size :=
    fun page member => good.held.pagesOk page (List.mem_of_mem_take member)
  have pagesClear := good.held.pagesClear.sublist (List.take_sublist keepCount run.arena.pages)
  have unheld : ∀ {claim : ArenaPiece → Prop}, ∀ piece ∈ ([] : List ArenaPiece), claim piece :=
    fun _ member => absurd member List.not_mem_nil
  simp only [arenaResetKeepPages, if_neg empty]
  cases kept : run.arena.pages.take keepCount with
  | nil =>
    rw [kept] at pagesOk pagesClear
    exact ⟨⟨pagesOk, pagesClear, unheld, List.Pairwise.nil, unheld⟩, .inl ⟨rfl, rfl, rfl⟩⟩
  | cons page pages =>
    rw [kept] at pagesOk pagesClear
    obtain ⟨_, upper, sized⟩ := pagesOk page List.mem_cons_self
    have sentinel : wordAdd page.address run.arena.pageSize = page.address + run.arena.pageSize :=
      wordAdd_eq (by omega)
    refine ⟨⟨pagesOk, pagesClear, unheld, List.Pairwise.nil, unheld⟩,
      .inr ⟨page, ⟨rfl, le_rfl, ?_, unheld⟩, fun used => absurd rfl used,
        fun used => absurd rfl used⟩⟩
    simp only [sentinel]
    omega

theorem ArenaDirectGood.realloc (good : ArenaDirectGood run) (small : alignment < 2 ^ 32)
    (holds : block = 0 ∨ ⟨block, oldSize, alignment⟩ ∈ run.pieces)
    (permitted : ¬ arenaResizes run.arena block newSize → arenaMayAlloc run.arena newSize
      alignment page)
    (fits : if arenaResizes run.arena block newSize then
        block + newSize < 2 ^ 64 ∧
          ∀ other ∈ run.pieces.erase ⟨block, oldSize, alignment⟩, other.address = block →
            other.size = 0
      else arenaFits run.arena newSize alignment) :
    ∃ next p, arenaRealloc run.arena block oldSize newSize alignment page = some (next, p) ∧
      ArenaDirectGood ⟨next, ⟨p, newSize, alignment⟩ :: run.pieces.erase ⟨block,
        oldSize, alignment⟩⟩ ∧
      (block ≠ 0 → readBytes next.memory p (min oldSize newSize) =
        readBytes run.arena.memory block (min oldSize newSize)) := by
  by_cases inPlace : arenaResizes run.arena block newSize
  · rw [if_pos inPlace] at fits
    obtain ⟨proper, rfl, enough⟩ := inPlace
    have end_eq := wordAdd_eq fits.1
    have grown := good.resize proper (holds.resolve_left proper) (end_eq ▸ enough) fits.2
    refine ⟨_, _, ?_, grown, fun _ => rfl⟩
    rw [arenaRealloc, if_neg proper, if_pos ⟨rfl, enough⟩, end_eq]
  · rw [if_neg inPlace] at fits
    obtain ⟨next, p, served, gave⟩ := good.alloc small (permitted inPlace) fits
    have kept := gave.good.sublist (List.Sublist.cons_cons ⟨p, newSize, alignment⟩
      (List.erase_sublist (a := ⟨block, oldSize, alignment⟩) (l := run.pieces)))
    by_cases null : block = 0
    · refine ⟨next, p, ?_, kept, fun proper => absurd null proper⟩
      rw [arenaRealloc, if_pos null, served]
    · have moves : ¬ (block = run.arena.last ∧ wordAdd run.arena.last newSize ≤ run.arena.sentinel) :=
        fun there => inPlace ⟨null, there⟩
      refine ⟨arenaCopy next p block (min oldSize newSize), p, ?_, kept.withMemory _, fun _ => ?_⟩
      · rw [arenaRealloc, if_neg null, if_neg moves, served]
        rfl
      · have source := congrArg (List.take (min oldSize newSize))
          (gave.contents _ (holds.resolve_left null))
        rw [take_readBytes (Nat.min_le_left _ _), take_readBytes (Nat.min_le_left _ _)] at source
        rw [arenaCopy, readBytes_writeBytes_front length_readBytes.ge,
          List.take_of_length_le length_readBytes.le, source]

theorem ArenaDirectGood.step (good : ArenaDirectGood run) {op : ArenaDirectOp}
    (permitted : arenaDirectPermits run op) (fits : arenaDirectFits run op) :
    ∃ next p, arenaDirectStep run op = some (next, p) ∧ ArenaDirectGood next ∧
      arenaDirectPreserves run next p op := by
  cases op with
  | alloc size alignment page =>
    obtain ⟨next, p, served, gave⟩ := good.alloc alignment.toNat_lt permitted fits
    exact ⟨_, p, by rw [arenaDirectStep, served]; rfl, gave.good, trivial⟩
  | calloc size alignment page =>
    obtain ⟨next, p, served, gave⟩ := good.alloc alignment.toNat_lt permitted fits
    exact ⟨_, p, by rw [arenaDirectStep, arenaCalloc, served]; rfl, gave.good.withMemory _, trivial⟩
  | memdup src size page =>
    obtain ⟨next, p, served, gave⟩ := good.alloc (by decide) permitted fits
    exact ⟨_, p, by rw [arenaDirectStep, arenaMemdup, served]; rfl, gave.good.withMemory _, trivial⟩
  | realloc block oldSize newSize alignment page =>
    obtain ⟨next, p, served, kept, same⟩ :=
      good.realloc alignment.toNat_lt permitted.1 permitted.2 fits
    exact ⟨_, p, by rw [arenaDirectStep, served]; rfl, kept, same⟩
  | resetKeepPages keepCount => exact ⟨_, 0, rfl, good.reset keepCount.toNat, trivial⟩
  | store address byte => exact ⟨_, 0, rfl, good.withMemory _, trivial⟩

theorem arenaDirectStart_good (memory : ByteMemory) (pageSize : UInt64) :
    ArenaDirectGood (arenaDirectStart memory pageSize) where
  held :=
    ⟨fun _ member => absurd member List.not_mem_nil, List.Pairwise.nil,
      fun _ member => absurd member List.not_mem_nil, List.Pairwise.nil,
      fun _ member => absurd member List.not_mem_nil⟩
  newest := .inl ⟨rfl, rfl, rfl⟩

/-- Blocks keep out of each other as long as no size wraps and nobody resizes a block in
place whose address somebody else was given. -/
theorem arenaDirectRun_safe (memory : ByteMemory) (pageSize : UInt64) (ops : List ArenaDirectOp)
    (permitted : PermittedFrom arenaDirectNext arenaDirectPermits (arenaDirectStart memory pageSize)
      ops)
    (fits : PermittedFrom arenaDirectNext arenaDirectFits (arenaDirectStart memory pageSize) ops) :
    PermittedFrom arenaDirectNext arenaDirectSafe (arenaDirectStart memory pageSize) ops := by
  refine permittedFrom_safe (fun run op (good : ArenaDirectGood run) allowed met => ?_) ops _
    (arenaDirectStart_good memory pageSize) permitted fits
  obtain ⟨next, p, stepped, kept, same⟩ := good.step allowed met
  refine ⟨⟨next, p, stepped, kept.held.piecesOk, same⟩, fun after follows => ?_⟩
  rw [arenaDirectNext, stepped] at follows
  cases follows
  exact kept

theorem arenaDirectRun_safe_mixed :
    PermittedFrom arenaDirectNext arenaDirectSafe (arenaDirectStart (fun _ => 0) 64)
      [.alloc 24 8 4096, .memdup 4096 7 0, .realloc 4096 24 32 8 8192, .calloc 100 16 16384,
        .realloc 16384 100 90 16 0, .resetKeepPages 2, .alloc 60 4 0, .realloc 0 0 64 1 0] := by
  apply arenaDirectRun_safe
  · decide
  · decide

/-- The second block begins where the first one was shrunk to nothing, and then the first
one grows over it. -/
theorem arenaDirectRun_overlap :
    ¬ ∀ (memory : ByteMemory) (pageSize : UInt64) (ops : List ArenaDirectOp),
    PermittedFrom arenaDirectNext arenaDirectPermits (arenaDirectStart memory pageSize) ops →
      PermittedFrom arenaDirectNext arenaDirectSafe (arenaDirectStart memory pageSize) ops := by
  intro all
  have safe := all (fun _ => 0) 64
    [.alloc 8 8 4096, .realloc 4096 8 0 8 0, .alloc 8 8 0, .realloc 4096 0 16 8 0] (by decide)
  obtain ⟨_, first⟩ := safe
  obtain ⟨_, second⟩ := first _ rfl
  obtain ⟨_, third⟩ := second _ rfl
  obtain ⟨⟨next, p, stepped, ok, _⟩, _⟩ := third _ rfl
  cases stepped
  have clear := (List.pairwise_cons.mp ok.clear).1 _ List.mem_cons_self
  revert clear
  decide

end Steps

end MulleCore
