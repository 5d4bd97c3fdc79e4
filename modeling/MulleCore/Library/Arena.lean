import Mathlib.Algebra.Ring.Nat
import Mathlib.Data.List.Perm.Subperm
import Mathlib.Data.List.Nodup

/-!
Memory as cells at addresses, and the chains that cells form by a link to the next
one. An address is given out again once its cell is freed.
-/

namespace Library

structure Arena (Cell : Type) where
  cells : List (Option Cell)

section Arena

variable {Cell : Type}
variable {address other : Nat} {nodes : List (Nat × Cell)} {start stop : Option Nat}

def Arena.read (arena : Arena Cell) (address : Nat) : Option Cell :=
  match arena.cells[address]? with
  | some (some cell) => some cell
  | _ => none

def Arena.write (arena : Arena Cell) (address : Nat) (cell : Cell) : Arena Cell :=
  ⟨arena.cells.set address (some cell)⟩

def Arena.free (arena : Arena Cell) (address : Nat) : Arena Cell :=
  ⟨arena.cells.set address none⟩

/-- Takes the address `hint` if it is free, and a new one if not. -/
def Arena.allocate (arena : Arena Cell) (hint : Nat) (cell : Cell) : Arena Cell × Nat :=
  match arena.cells[hint]? with
  | some none => (⟨arena.cells.set hint (some cell)⟩, hint)
  | _ => (⟨arena.cells ++ [some cell]⟩, arena.cells.length)

theorem Arena.read_lt {arena : Arena Cell} {cell : Cell}
    (here : arena.read address = some cell) : address < arena.cells.length := by
  by_contra outside
  rw [Arena.read, List.getElem?_eq_none (not_lt.mp outside)] at here
  contradiction

theorem Arena.read_write_self {arena : Arena Cell} {old : Cell}
    (here : arena.read address = some old) (cell : Cell) :
    (arena.write address cell).read address = some cell := by
  have bound := Arena.read_lt here
  rw [Arena.read, Arena.write, List.getElem?_set_self bound]

theorem Arena.read_write_ne (arena : Arena Cell) (different : address ≠ other)
    (cell : Cell) : (arena.write address cell).read other = arena.read other := by
  rw [Arena.read, Arena.write, List.getElem?_set_ne different, Arena.read]

theorem Arena.read_free_ne (arena : Arena Cell)
    (different : address ≠ other) : (arena.free address).read other = arena.read other := by
  rw [Arena.read, Arena.free, List.getElem?_set_ne different, Arena.read]

/-- The address was free, and all other cells stay as they are. -/
theorem Arena.allocate_spec (arena : Arena Cell) (hint : Nat) (cell : Cell) :
    ∃ next address, arena.allocate hint cell = (next, address) ∧
      arena.read address = none ∧ next.read address = some cell ∧
      ∀ other old, arena.read other = some old → next.read other = some old := by
  rw [Arena.allocate]
  split
  · rename_i vacant
    have bound : hint < arena.cells.length := (List.getElem?_eq_some_iff.mp vacant).1
    have empty : arena.read hint = none := by
      rw [Arena.read, vacant]
    refine ⟨_, hint, rfl, empty, ?_, ?_⟩
    · rw [Arena.read, List.getElem?_set_self bound]
    · intro other old here
      have different : hint ≠ other := by
        rintro rfl
        rw [empty] at here
        contradiction
      rw [Arena.read, List.getElem?_set_ne different]
      exact here
  · refine ⟨_, arena.cells.length, rfl, ?_, ?_, ?_⟩
    · rw [Arena.read, List.getElem?_eq_none (le_refl _)]
    · rw [Arena.read, List.getElem?_append_right (le_refl _), Nat.sub_self]
      rfl
    · intro other old here
      rw [Arena.read, List.getElem?_append_left (Arena.read_lt here)]
      exact here

variable (link : Cell → Option Nat)

def Chain (arena : Arena Cell) : Option Nat → List (Nat × Cell) → Option Nat → Prop
  | start, [], stop => start = stop
  | start, (address, cell) :: rest, stop =>
    start = some address ∧ arena.read address = some cell ∧ Chain arena (link cell) rest stop

variable {link} {arena next : Arena Cell}

/-- A chain is not disturbed by what happens outside of its nodes. -/
theorem Chain.frame : ∀ {nodes : List (Nat × Cell)} {start stop : Option Nat},
    Chain link arena start nodes stop →
    (∀ node ∈ nodes, next.read node.1 = arena.read node.1) → Chain link next start nodes stop := by
  intro nodes
  induction nodes with
  | nil => exact fun chain _ => chain
  | cons node rest ih =>
    rintro start stop ⟨begins, here, tail⟩ same
    refine ⟨begins, ?_, ih tail fun other member => same other (List.mem_cons_of_mem node member)⟩
    rw [same node List.mem_cons_self]
    exact here

theorem Chain.append : ∀ {front back : List (Nat × Cell)} {start stop : Option Nat},
    Chain link arena start (front ++ back) stop ↔
      ∃ middle, Chain link arena start front middle ∧ Chain link arena middle back stop := by
  intro front
  induction front with
  | nil =>
    intro back start stop
    constructor
    · exact fun chain => ⟨start, rfl, chain⟩
    · rintro ⟨middle, rfl, chain⟩
      exact chain
  | cons node rest ih =>
    intro back start stop
    constructor
    · rintro ⟨begins, here, tail⟩
      obtain ⟨middle, first, second⟩ := ih.mp tail
      exact ⟨middle, ⟨begins, here, first⟩, second⟩
    · rintro ⟨middle, ⟨begins, here, first⟩, second⟩
      exact ⟨begins, here, ih.mpr ⟨middle, first, second⟩⟩

theorem Chain.read : ∀ {nodes : List (Nat × Cell)} {start stop : Option Nat},
    Chain link arena start nodes stop →
    ∀ node ∈ nodes, arena.read node.1 = some node.2 := by
  intro nodes
  induction nodes with
  | nil => exact fun _ node member => absurd member List.not_mem_nil
  | cons first rest ih =>
    rintro start stop ⟨-, here, tail⟩ node member
    rcases List.mem_cons.mp member with rfl | later
    · exact here
    · exact ih tail node later

section

variable (chain : Chain link arena start nodes stop)
include chain

theorem Chain.not_mem (unused : arena.read address = none) : address ∉ nodes.map Prod.fst := by
  intro member
  obtain ⟨node, inside, rfl⟩ := List.mem_map.mp member
  rw [chain.read node inside] at unused
  contradiction

theorem Chain.write (away : address ∉ nodes.map Prod.fst) (cell : Cell) :
    Chain link (arena.write address cell) start nodes stop := by
  refine chain.frame fun node member => arena.read_write_ne ?_ cell
  rintro rfl
  exact away (List.mem_map_of_mem member)

theorem Chain.free
    (away : address ∉ nodes.map Prod.fst) : Chain link (arena.free address) start nodes stop := by
  refine chain.frame fun node member => arena.read_free_ne ?_
  rintro rfl
  exact away (List.mem_map_of_mem member)

theorem Chain.length_le (distinct : (nodes.map Prod.fst).Nodup) :
    nodes.length ≤ arena.cells.length := by
  have within : nodes.map Prod.fst ⊆ List.range arena.cells.length := by
    intro address member
    obtain ⟨node, inside, rfl⟩ := List.mem_map.mp member
    exact List.mem_range.mpr (Arena.read_lt (chain.read node inside))
  have shorter := (distinct.subperm within).length_le
  rwa [List.length_map, List.length_range] at shorter

end

end Arena

end Library
