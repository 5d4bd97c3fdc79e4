import MulleCore.Storage.Arena

/-!
An arena without its vtable. There are no headers, so a client that resizes a block says
how large it was.
-/

namespace MulleCore

open Library

def arenaCalloc (arena : MulleArena) (size alignment page : Nat) : Option (MulleArena × Nat) := do
  let (arena, p) ← arenaAlloc arena size alignment page
  some ({ arena with memory := writeBytes arena.memory p (List.replicate size 0) }, p)

def arenaMemdup (arena : MulleArena) (src size page : Nat) : Option (MulleArena × Nat) := do
  let (arena, p) ← arenaAlloc arena size 1 page
  some (arenaCopy arena p src size, p)

structure ArenaPiece where
  address : Nat
  size : Nat
  alignment : Nat
deriving DecidableEq

def ArenaPiece.stop (piece : ArenaPiece) : Nat := piece.address + piece.size

def ArenaPiece.Within (piece : ArenaPiece) (page : ArenaPage) : Prop :=
  page.address ≤ piece.address ∧ piece.stop ≤ page.address + page.size

def ArenaPiece.Avoids (piece other : ArenaPiece) : Prop :=
  Clear piece.address piece.size other.address other.size

instance (piece : ArenaPiece) (page : ArenaPage) : Decidable (piece.Within page) :=
  inferInstanceAs (Decidable (_ ∧ _))

instance (piece other : ArenaPiece) : Decidable (piece.Avoids other) :=
  inferInstanceAs (Decidable (Clear _ _ _ _))

structure ArenaDirectRun where
  arena : MulleArena
  pieces : List ArenaPiece

def arenaDirectStart (memory : ByteMemory) (pageSize : UInt64) : ArenaDirectRun :=
  ⟨arenaInit memory pageSize.toNat, []⟩

inductive ArenaDirectOp where
  | alloc (size : UInt64) (alignment : UInt32) (page : Nat)
  | calloc (size : UInt64) (alignment : UInt32) (page : Nat)
  | memdup (src : Nat) (size : UInt64) (page : Nat)
  | realloc (block : Nat) (oldSize newSize : UInt64) (alignment : UInt32) (page : Nat)
  | resetKeepPages (keepCount : UInt64)
  | store (address : Nat) (byte : UInt8)

section ArenaDirect

variable (run : ArenaDirectRun)

def arenaDirectStep : ArenaDirectOp → Option (ArenaDirectRun × Nat)
  | .alloc size alignment page =>
    (arenaAlloc run.arena size.toNat alignment.toNat page).map fun (arena, p) =>
      (⟨arena, ⟨p, size.toNat, alignment.toNat⟩ :: run.pieces⟩, p)
  | .calloc size alignment page =>
    (arenaCalloc run.arena size.toNat alignment.toNat page).map fun (arena, p) =>
      (⟨arena, ⟨p, size.toNat, alignment.toNat⟩ :: run.pieces⟩, p)
  | .memdup src size page =>
    (arenaMemdup run.arena src size.toNat page).map fun (arena, p) =>
      (⟨arena, ⟨p, size.toNat, 1⟩ :: run.pieces⟩, p)
  | .realloc block oldSize newSize alignment page =>
    (arenaRealloc run.arena block oldSize.toNat newSize.toNat alignment.toNat page).map
      fun (arena, p) =>
      (⟨arena, ⟨p, newSize.toNat, alignment.toNat⟩ ::
        run.pieces.erase ⟨block, oldSize.toNat, alignment.toNat⟩⟩, p)
  | .resetKeepPages keepCount => some (⟨arenaResetKeepPages run.arena keepCount.toNat, []⟩, 0)
  | .store address byte => some ({ run with
      arena := { run.arena with memory := writeBytes run.arena.memory address [byte] } }, 0)

def arenaDirectNext (op : ArenaDirectOp) : Option ArenaDirectRun :=
  (arenaDirectStep run op).map Prod.fst

def arenaOverflows (arena : MulleArena) (size alignment : Nat) : Prop :=
  wordAdd (arenaAlignPointer arena.current alignment) size > arena.sentinel

instance (arena : MulleArena) (size alignment : Nat) :
    Decidable (arenaOverflows arena size alignment) :=
  inferInstanceAs (Decidable (_ > _))

def arenaGetsPage (arena : MulleArena) (minSize page : Nat) : Prop :=
  ¬ arenaKeepsPage arena minSize →
    0 < page ∧ page + arenaPageBytes arena minSize < 2 ^ 64 ∧
      ∀ other ∈ arena.pages, Clear other.address other.size page (arenaPageBytes arena minSize)

instance (arena : MulleArena) (minSize page : Nat) : Decidable (arenaGetsPage arena minSize page) :=
  inferInstanceAs (Decidable (_ → _ ∧ _ ∧ ∀ other ∈ arena.pages, _))

def arenaMayAlloc (arena : MulleArena) (size alignment page : Nat) : Prop :=
  (size > 0 ∧ alignment > 0 ∧ alignment &&& (alignment - 1) = 0) ∧
    (arenaOverflows arena size alignment →
      arenaGetsPage arena (wordSub (wordAdd size alignment) 1) page)

instance (arena : MulleArena) (size alignment page : Nat) :
    Decidable (arenaMayAlloc arena size alignment page) :=
  inferInstanceAs (Decidable (_ ∧ (_ → _)))

def arenaResizes (arena : MulleArena) (block newSize : Nat) : Prop :=
  block ≠ 0 ∧ block = arena.last ∧ wordAdd arena.last newSize ≤ arena.sentinel

instance (arena : MulleArena) (block newSize : Nat) : Decidable (arenaResizes arena block newSize) :=
  inferInstanceAs (Decidable (_ ∧ _ ∧ _))

def arenaDirectPermits : ArenaDirectOp → Prop
  | .alloc size alignment page => arenaMayAlloc run.arena size.toNat alignment.toNat page
  | .calloc size alignment page => arenaMayAlloc run.arena size.toNat alignment.toNat page
  | .memdup _ size page => arenaMayAlloc run.arena size.toNat 1 page
  | .realloc block oldSize newSize alignment page =>
    (block = 0 ∨ ⟨block, oldSize.toNat, alignment.toNat⟩ ∈ run.pieces) ∧
      (¬ arenaResizes run.arena block newSize.toNat →
        arenaMayAlloc run.arena newSize.toNat alignment.toNat page)
  | .resetKeepPages _ => True
  | .store _ _ => True

structure ArenaPiecesOk (run : ArenaDirectRun) : Prop where
  clear : run.pieces.Pairwise ArenaPiece.Avoids
  within : ∀ piece ∈ run.pieces, ∃ page ∈ run.arena.pages, piece.Within page
  aligned : ∀ piece ∈ run.pieces, piece.alignment ∣ piece.address

def arenaDirectPreserves (next : ArenaDirectRun) (p : Nat) : ArenaDirectOp → Prop
  | .realloc block oldSize newSize _ _ => block ≠ 0 →
      readBytes next.arena.memory p (min oldSize.toNat newSize.toNat) =
        readBytes run.arena.memory block (min oldSize.toNat newSize.toNat)
  | _ => True

def arenaDirectSafe (op : ArenaDirectOp) : Prop :=
  ∃ next p, arenaDirectStep run op = some (next, p) ∧ ArenaPiecesOk next ∧
    arenaDirectPreserves run next p op

def arenaFits (arena : MulleArena) (size alignment : Nat) : Prop :=
  if arenaOverflows arena size alignment then size + alignment ≤ 2 ^ 64
  else roundUp alignment arena.current + size < 2 ^ 64

instance (arena : MulleArena) (size alignment : Nat) : Decidable (arenaFits arena size alignment) :=
  inferInstanceAs (Decidable (if arenaOverflows arena size alignment then size + alignment ≤ 2 ^ 64
    else roundUp alignment arena.current + size < 2 ^ 64))

/-- A block that is resized in place also has its address for itself, which a block that
has been shrunk to nothing need not have. -/
def arenaDirectFits : ArenaDirectOp → Prop
  | .alloc size alignment _ => arenaFits run.arena size.toNat alignment.toNat
  | .calloc size alignment _ => arenaFits run.arena size.toNat alignment.toNat
  | .memdup _ size _ => arenaFits run.arena size.toNat 1
  | .realloc block oldSize newSize alignment _ =>
    if arenaResizes run.arena block newSize.toNat then
      block + newSize.toNat < 2 ^ 64 ∧
        ∀ other ∈ run.pieces.erase ⟨block, oldSize.toNat, alignment.toNat⟩,
          other.address = block → other.size = 0
    else arenaFits run.arena newSize.toNat alignment.toNat
  | .resetKeepPages _ => True
  | .store _ _ => True

instance : DecidablePred (arenaDirectPermits run)
  | .alloc size alignment page =>
    inferInstanceAs (Decidable (arenaMayAlloc run.arena size.toNat alignment.toNat page))
  | .calloc size alignment page =>
    inferInstanceAs (Decidable (arenaMayAlloc run.arena size.toNat alignment.toNat page))
  | .memdup _ size page => inferInstanceAs (Decidable (arenaMayAlloc run.arena size.toNat 1 page))
  | .realloc _ _ _ _ _ => inferInstanceAs (Decidable ((_ ∨ _ ∈ run.pieces) ∧ (_ → _)))
  | .resetKeepPages _ => inferInstanceAs (Decidable True)
  | .store _ _ => inferInstanceAs (Decidable True)

instance : DecidablePred (arenaDirectFits run)
  | .alloc size alignment _ =>
    inferInstanceAs (Decidable (arenaFits run.arena size.toNat alignment.toNat))
  | .calloc size alignment _ =>
    inferInstanceAs (Decidable (arenaFits run.arena size.toNat alignment.toNat))
  | .memdup _ size _ => inferInstanceAs (Decidable (arenaFits run.arena size.toNat 1))
  | .realloc block oldSize newSize alignment _ =>
    inferInstanceAs (Decidable (if arenaResizes run.arena block newSize.toNat then
      block + newSize.toNat < 2 ^ 64 ∧
        ∀ other ∈ run.pieces.erase ⟨block, oldSize.toNat, alignment.toNat⟩,
          other.address = block → other.size = 0
      else arenaFits run.arena newSize.toNat alignment.toNat))
  | .resetKeepPages _ => inferInstanceAs (Decidable True)
  | .store _ _ => inferInstanceAs (Decidable True)

end ArenaDirect

end MulleCore
