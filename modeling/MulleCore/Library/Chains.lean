import Mathlib.Data.List.Basic
import Mathlib.Data.List.Nodup
import Mathlib.Logic.Function.Basic

/-!
Chains of cells that are linked by a `next` field, and the places that share the cells between
them.
-/

namespace Library

section Chains

variable {Cell : Type} [Zero Cell]

def LinkChain (next : Cell → Cell) : Cell → List Cell → Prop
  | first, [] => first = 0
  | first, cell :: cells => first = cell ∧ cell ≠ 0 ∧ LinkChain next (next cell) cells

variable {next changed : Cell → Cell} {first second cell : Cell} {cells more : List Cell}

theorem LinkChain.ne_zero (chain : LinkChain next first cells) (member : cell ∈ cells) :
    cell ≠ 0 := by
  induction cells generalizing first with
  | nil => exact absurd member List.not_mem_nil
  | cons head tail ih =>
    obtain ⟨rfl, nonzero, rest⟩ := chain
    rcases List.mem_cons.mp member with rfl | later
    · exact nonzero
    · exact ih rest later

theorem LinkChain.eq_nil (chain : LinkChain next 0 cells) : cells = [] := by
  cases cells with
  | nil => rfl
  | cons head tail => exact absurd chain.1.symm chain.2.1

theorem LinkChain.eq_cons (chain : LinkChain next first cells) (nonzero : first ≠ 0) :
    ∃ rest, cells = first :: rest ∧ LinkChain next (next first) rest := by
  cases cells with
  | nil => exact absurd chain nonzero
  | cons head tail =>
    obtain ⟨rfl, _, rest⟩ := chain
    exact ⟨tail, rfl, rest⟩

theorem LinkChain.frame (chain : LinkChain next first cells)
    (same : ∀ cell ∈ cells, changed cell = next cell) :
    LinkChain changed first cells := by
  induction cells generalizing first with
  | nil => exact chain
  | cons head tail ih =>
    obtain ⟨rfl, nonzero, rest⟩ := chain
    refine ⟨rfl, nonzero, ?_⟩
    rw [same first List.mem_cons_self]
    exact ih rest fun later member => same later (List.mem_cons_of_mem _ member)

theorem LinkChain.append (chain : LinkChain next first (cells ++ [cell]))
    (follows : LinkChain changed second more) (same : ∀ other ∈ cells, changed other = next other)
    (linked : changed cell = second) :
    LinkChain changed first (cells ++ cell :: more) := by
  induction cells generalizing first with
  | nil =>
    obtain ⟨rfl, nonzero, _⟩ := chain
    exact ⟨rfl, nonzero, linked ▸ follows⟩
  | cons head tail ih =>
    obtain ⟨rfl, nonzero, rest⟩ := chain
    refine ⟨rfl, nonzero, ?_⟩
    rw [same first List.mem_cons_self]
    exact ih rest fun later member => same later (List.mem_cons_of_mem _ member)

theorem LinkChain.next_mem {before : List Cell}
    (chain : LinkChain next first (before ++ cell :: cells)) :
    LinkChain next (next cell) cells := by
  induction before generalizing first with
  | nil => exact chain.2.2
  | cons head tail ih => exact ih chain.2.2

def Chains (next : Cell → Cell) : List Cell → List Cell → Prop
  | [], cells => cells = []
  | first :: firsts, cells =>
    ∃ front back, cells = front ++ back ∧ LinkChain next first front ∧ Chains next firsts back

theorem Chains.frame {firsts : List Cell} (chains : Chains next firsts cells)
    (same : ∀ cell ∈ cells, changed cell = next cell) : Chains changed firsts cells := by
  induction firsts generalizing cells with
  | nil => exact chains
  | cons first firsts ih =>
    obtain ⟨front, back, rfl, chain, rest⟩ := chains
    refine ⟨front, back, rfl, chain.frame ?_, ih rest ?_⟩
    · exact fun cell member => same cell (List.mem_append_left back member)
    · exact fun cell member => same cell (List.mem_append_right front member)

theorem LinkChain.unique {others : List Cell} (chain : LinkChain next first cells)
    (other : LinkChain next first others) :
    cells = others := by
  induction cells generalizing first others with
  | nil =>
    obtain rfl : first = 0 := chain
    exact other.eq_nil.symm
  | cons head tail ih =>
    obtain ⟨rfl, nonzero, rest⟩ := chain
    obtain ⟨others, rfl, more⟩ := other.eq_cons nonzero
    rw [ih rest more]

end Chains

section Places

variable {Cell Place : Type} [Zero Cell]

def LinkedAt (next : Cell → Cell) (place : Cell → Option Place) (spot : Place) (first : Cell) :
    Prop :=
  ∃ cells, LinkChain next first cells ∧ cells.Nodup ∧ ∀ cell, cell ∈ cells ↔ place cell = some spot

variable {next changed : Cell → Cell} {place moved : Cell → Option Place} {spot target : Place}
  {first cell : Cell}

theorem LinkedAt.mem {cells : List Cell} (linked : LinkedAt next place spot first)
    (chain : LinkChain next first cells) (member : cell ∈ cells) : place cell = some spot := by
  obtain ⟨others, other, _, members⟩ := linked
  exact (members cell).mp (other.unique chain ▸ member)

theorem linkedAt_zero : LinkedAt next place spot 0 ↔ ∀ cell, place cell ≠ some spot := by
  constructor
  · rintro ⟨cells, chain, _, members⟩ cell here
    obtain rfl := chain.eq_nil
    exact absurd ((members cell).mpr here) List.not_mem_nil
  · intro none
    refine ⟨[], rfl, List.nodup_nil, fun cell => ?_⟩
    simpa using none cell

section

variable (linked : LinkedAt next place spot first)
include linked

theorem LinkedAt.at_first (nonzero : first ≠ 0) :
    place first = some spot := by
  obtain ⟨cells, chain, _, members⟩ := linked
  obtain ⟨rest, rfl, _⟩ := chain.eq_cons nonzero
  exact (members first).mp List.mem_cons_self

theorem LinkedAt.transfer (arrived : ∀ cell, moved cell = some target ↔ place cell = some spot)
    (same : ∀ cell, place cell = some spot → changed cell = next cell) :
    LinkedAt changed moved target first := by
  obtain ⟨cells, chain, nodup, members⟩ := linked
  refine ⟨cells, chain.frame fun cell member => same cell ((members cell).mp member), nodup,
    fun cell => ?_⟩
  rw [members, arrived]

theorem LinkedAt.pop (nonzero : first ≠ 0)
    (left : ∀ cell, moved cell = some target ↔ place cell = some spot ∧ cell ≠ first)
    (same : ∀ cell, place cell = some spot → cell ≠ first → changed cell = next cell) :
    LinkedAt changed moved target (next first) := by
  obtain ⟨cells, chain, nodup, members⟩ := linked
  obtain ⟨rest, rfl, follows⟩ := chain.eq_cons nonzero
  obtain ⟨absent, nodup⟩ := List.nodup_cons.mp nodup
  have stays : ∀ cell ∈ rest, place cell = some spot ∧ cell ≠ first := fun cell member =>
    ⟨(members cell).mp (List.mem_cons_of_mem _ member), fun same => absent (same ▸ member)⟩
  refine ⟨rest, follows.frame fun cell member => same cell (stays cell member).1
    (stays cell member).2, nodup, fun cell => ?_⟩
  rw [left, ← members]
  simp only [List.mem_cons]
  grind

theorem LinkedAt.push (nonzero : cell ≠ 0) (absent : place cell ≠ some spot)
    (arrived : ∀ other, moved other = some spot ↔ other = cell ∨ place other = some spot)
    (link : changed cell = first)
    (same : ∀ other, place other = some spot → changed other = next other) :
    LinkedAt changed moved spot cell := by
  obtain ⟨cells, chain, nodup, members⟩ := linked
  refine ⟨cell :: cells, ⟨rfl, nonzero, ?_⟩, ?_, fun other => ?_⟩
  · rw [link]
    exact chain.frame fun other member => same other ((members other).mp member)
  · exact List.nodup_cons.mpr ⟨fun member => absent ((members cell).mp member), nodup⟩
  · rw [arrived, List.mem_cons, members]

theorem LinkedAt.single (nonzero : first ≠ 0) (last : next first = 0) :
    place cell = some spot ↔ cell = first := by
  obtain ⟨cells, chain, _, members⟩ := linked
  obtain ⟨rest, rfl, follows⟩ := chain.eq_cons nonzero
  rw [last] at follows
  obtain rfl := follows.eq_nil
  rw [← members, List.mem_singleton]

end

def AllLinkedAt (next : Cell → Cell) (place : Cell → Option Place) (spot : Place)
    (firsts : List Cell) : Prop :=
  ∃ cells, Chains next firsts cells ∧ cells.Nodup ∧ ∀ cell, cell ∈ cells ↔ place cell = some spot

theorem AllLinkedAt.transfer {firsts : List Cell} (linked : AllLinkedAt next place spot firsts)
    (arrived : ∀ cell, moved cell = some target ↔ place cell = some spot)
    (same : ∀ cell, place cell = some spot → changed cell = next cell) :
    AllLinkedAt changed moved target firsts := by
  obtain ⟨cells, chains, nodup, members⟩ := linked
  refine ⟨cells, chains.frame fun cell member => same cell ((members cell).mp member), nodup,
    fun cell => ?_⟩
  rw [members, arrived]

end Places

section Relocations

variable {Cell Place : Type}
variable {firsts : List Cell}

structure Relocates (place moved : Cell → Option Place) (spot target : Place)
    (which : Cell → Prop) : Prop where
  goes : ∀ cell, which cell → place cell = some spot ∧ moved cell = some target
  stays : ∀ cell, ¬ which cell → moved cell = place cell

variable {place moved : Cell → Option Place} {spot target other : Place} {which : Cell → Prop}
  {cell : Cell}

open Classical in
theorem exists_relocates (target : Place) (here : ∀ cell, which cell → place cell = some spot) :
    ∃ moved, Relocates place moved spot target which :=
  ⟨fun cell => if which cell then some target else place cell,
    fun cell goes => ⟨here cell goes, if_pos goes⟩, fun _ stays => if_neg stays⟩

namespace Relocates

variable (relocates : Relocates place moved spot target which)
include relocates

theorem elsewhere (notSpot : other ≠ spot) (notTarget : other ≠ target) : moved cell = some other ↔
    place cell = some other := by
  by_cases goes : which cell
  · obtain ⟨before, after⟩ := relocates.goes cell goes
    rw [before, after, Option.some_inj, Option.some_inj]
    exact ⟨fun same => absurd same.symm notTarget, fun same => absurd same.symm notSpot⟩
  · rw [relocates.stays cell goes]

theorem source (different : spot ≠ target) : moved cell = some spot ↔ place cell = some spot ∧
    ¬ which cell := by
  by_cases goes : which cell
  · obtain ⟨_, after⟩ := relocates.goes cell goes
    rw [after, Option.some_inj]
    exact ⟨fun same => absurd same.symm different, fun stays => absurd goes stays.2⟩
  · rw [relocates.stays cell goes]
    exact ⟨fun here => ⟨here, goes⟩, fun here => here.1⟩

theorem arrived : moved cell = some target ↔ place cell = some target ∨ which cell := by
  by_cases goes : which cell
  · exact ⟨fun _ => Or.inr goes, fun _ => (relocates.goes cell goes).2⟩
  · rw [relocates.stays cell goes]
    exact ⟨Or.inl, fun here => here.resolve_right goes⟩

theorem nowhere : moved cell = none ↔ place cell = none := by
  by_cases goes : which cell
  · obtain ⟨before, after⟩ := relocates.goes cell goes
    simp [before, after]
  · rw [relocates.stays cell goes]

end Relocates

variable [Zero Cell] {next changed : Cell → Cell} {first second : Cell}

theorem LinkedAt.elsewhere (linked : LinkedAt next place other first)
    (relocates : Relocates place moved spot target which) (notSpot : other ≠ spot)
    (notTarget : other ≠ target) (same : ∀ cell, place cell = some other → changed cell = next cell) :
    LinkedAt changed moved other first :=
  linked.transfer (fun _ => relocates.elsewhere notSpot notTarget) same

theorem AllLinkedAt.elsewhere (linked : AllLinkedAt next place other firsts)
    (relocates : Relocates place moved spot target which) (notSpot : other ≠ spot)
    (notTarget : other ≠ target)
    (same : ∀ cell, place cell = some other → changed cell = next cell) :
    AllLinkedAt changed moved other firsts :=
  linked.transfer (fun _ => relocates.elsewhere notSpot notTarget) same

theorem LinkedAt.relocated (linked : LinkedAt next place spot first)
    (empty : LinkedAt next place target 0)
    (relocates : Relocates place moved spot target fun cell => place cell = some spot)
    (same : ∀ cell, place cell = some spot → changed cell = next cell) :
    LinkedAt changed moved target first := by
  refine linked.transfer (fun cell => ?_) same
  rw [relocates.arrived]
  exact ⟨fun here => here.resolve_left (linkedAt_zero.mp empty cell), Or.inr⟩

theorem Relocates.emptied
    (relocates : Relocates place moved spot target fun cell => place cell = some spot)
    (different : spot ≠ target) :
    LinkedAt changed moved spot 0 := by
  rw [linkedAt_zero]
  intro cell here
  rw [relocates.source different] at here
  exact here.2 here.1

theorem LinkedAt.joined {tail : Cell} {cells : List Cell} (front : LinkedAt next place target first)
    (chain : LinkChain next first (cells ++ [tail])) (back : LinkedAt next place spot second)
    (different : spot ≠ target)
    (relocates : Relocates place moved spot target fun cell => place cell = some spot)
    (link : changed tail = second) (same : ∀ cell, cell ≠ tail → changed cell = next cell) :
    LinkedAt changed moved target first := by
  obtain ⟨others, other, nodup, members⟩ := front
  obtain rfl := other.unique chain
  obtain ⟨more, follows, nodupBack, membersBack⟩ := back
  have apart : ∀ cell ∈ cells ++ [tail], cell ∉ more := by
    intro cell here there
    rw [members] at here
    rw [membersBack, here] at there
    exact different (Option.some.inj there).symm
  have notTail : ∀ cell ∈ cells, cell ≠ tail := by
    rintro cell member rfl
    exact (List.nodup_append.mp nodup).2.2 cell member cell List.mem_cons_self rfl
  refine ⟨cells ++ tail :: more, ?_, ?_, fun cell => ?_⟩
  · refine chain.append (follows.frame fun cell member => same cell ?_)
      (fun cell member => same cell (notTail cell member)) link
    rintro rfl
    exact apart cell (by simp) member
  · have split : cells ++ tail :: more = (cells ++ [tail]) ++ more := by simp
    rw [split]
    exact List.nodup_append.mpr ⟨nodup, nodupBack, fun cell here other there equal => apart cell
      here (equal ▸ there)⟩
  · rw [relocates.arrived, ← members, ← membersBack]
    simp [or_assoc]

theorem AllLinkedAt.unlinked (linked : AllLinkedAt next place spot (first :: firsts))
    (nonzero : first ≠ 0) (relocates : Relocates place moved spot target fun cell => cell = first)
    (different : spot ≠ target) (same : ∀ cell, cell ≠ first → changed cell = next cell) :
    AllLinkedAt changed moved spot (next first :: firsts) := by
  obtain ⟨cells, ⟨front, back, rfl, chain, rest⟩, nodup, members⟩ := linked
  obtain ⟨front, rfl, follows⟩ := chain.eq_cons nonzero
  obtain ⟨absent, nodup⟩ := List.nodup_cons.mp nodup
  have others : ∀ cell ∈ front ++ back, cell ≠ first := by
    rintro cell member rfl
    exact absent member
  refine ⟨front ++ back, ⟨front, back, rfl, ?_, ?_⟩, nodup, fun cell => ?_⟩
  · exact follows.frame fun cell member => same cell (others cell (List.mem_append_left back member))
  · exact rest.frame fun cell member => same cell (others cell (List.mem_append_right front member))
  · rw [relocates.source different, ← members]
    constructor
    · exact fun member => ⟨List.mem_cons_of_mem first member, others cell member⟩
    · rintro ⟨member, other⟩
      exact (List.mem_cons.mp member).resolve_left other

theorem AllLinkedAt.of_zero (linked : AllLinkedAt next place spot (0 :: firsts)) :
    AllLinkedAt next place spot firsts := by
  obtain ⟨cells, ⟨front, back, rfl, chain, rest⟩, nodup, members⟩ := linked
  obtain rfl := chain.eq_nil
  exact ⟨back, rest, nodup, members⟩

theorem AllLinkedAt.at_first (linked : AllLinkedAt next place spot (first :: firsts))
    (nonzero : first ≠ 0) :
    place first = some spot := by
  obtain ⟨cells, ⟨front, back, rfl, chain, rest⟩, _, members⟩ := linked
  obtain ⟨front, rfl, _⟩ := chain.eq_cons nonzero
  exact (members first).mp (by simp)

theorem AllLinkedAt.detached (linked : AllLinkedAt next place target firsts)
    (chain : LinkedAt next place spot first) (different : spot ≠ target)
    (relocates : Relocates place moved spot target fun cell => place cell = some spot) :
    AllLinkedAt next moved target (first :: firsts) := by
  obtain ⟨front, here, nodupFront, membersFront⟩ := chain
  obtain ⟨back, chains, nodup, members⟩ := linked
  refine ⟨front ++ back, ⟨front, back, rfl, here, chains⟩, List.nodup_append.mpr ⟨nodupFront, nodup,
    ?_⟩, fun cell => ?_⟩
  · rintro cell first other second rfl
    rw [membersFront] at first
    rw [members, first] at second
    exact different (Option.some.inj second)
  · rw [relocates.arrived, List.mem_append, membersFront, members, or_comm]

end Relocations

end Library
