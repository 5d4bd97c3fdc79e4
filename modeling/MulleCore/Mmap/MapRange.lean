import Mathlib.Algebra.Ring.Nat
import Mathlib.Order.Basic

/-!
`_mulle_mmap_map_range` and `_mulle_mmap_unmap`, with the system as a parameter. Sizes, offsets and
addresses have 64 bits, as `int64_t` has them too.
-/

namespace MulleCore

structure MmapRequest where
  length : UInt64
  writable : Bool
  handle : Int32
  offset : UInt64
deriving DecidableEq

/-- What the system calls answer. A file size of `none` is `-1`, as is a mapping of `none`. -/
structure MmapSystem where
  pageSize : UInt64
  fileSize : Int32 → Option UInt64
  mmap : MmapRequest → Option UInt64
  munmap : UInt64 → UInt64 → Int32
  close : Int32 → Int32

inductive MmapCall where
  | mmap (request : MmapRequest)
  | munmap (start length : UInt64)
  | close (handle : Int32)
deriving DecidableEq

structure MulleMmap where
  data : UInt64
  length : UInt64
  mappedLength : UInt64
  isHandleInternal : Bool
  writable : Bool
  fileHandle : Int32
deriving DecidableEq

def mmapInvalidHandle : Int32 := -1

def mmapInit (writable : Bool) : MulleMmap := ⟨0, 0, 0, false, writable, mmapInvalidHandle⟩

def mmapIsOpen (p : MulleMmap) : Bool := p.fileHandle != mmapInvalidHandle

def mmapGetMappingOffset (p : MulleMmap) : UInt64 := p.mappedLength - p.length

def mmapGetMappingStart (p : MulleMmap) : UInt64 :=
  if p.data ≠ 0 then p.data - mmapGetMappingOffset p else p.data

def mmapPagealignOffset (system : MmapSystem) (offset : UInt64) : UInt64 :=
  offset / system.pageSize * system.pageSize

structure MmapResult where
  data : UInt64
  length : UInt64
  mappedLength : UInt64
deriving DecidableEq

def mmapMemoryMap (system : MmapSystem) (handle : Int32) (offset length : UInt64) (writable : Bool) :
    Option MmapResult × List MmapCall :=
  let alignedOffset := mmapPagealignOffset system offset
  let lengthToMap := offset - alignedOffset + length
  if lengthToMap = 0 then (some ⟨0, 0, 0⟩, [])
  else
    let request := ⟨lengthToMap, writable, handle, alignedOffset⟩
    ((system.mmap request).map fun mappingStart => ⟨mappingStart + offset - alignedOffset,
      length, lengthToMap⟩, [.mmap request])

def mmapUnmap (system : MmapSystem) (p : MulleMmap) : MulleMmap × Int32 × List MmapCall :=
  if mmapIsOpen p = false then (p, 0, [])
  else
    let start := mmapGetMappingStart p
    let rval := if p.data ≠ 0 then system.munmap start p.mappedLength else 0
    let unmapped := if p.data ≠ 0 then [.munmap start p.mappedLength] else []
    let closed := if p.isHandleInternal then [.close p.fileHandle] else []
    (mmapInit p.writable, if p.isHandleInternal ∧ system.close p.fileHandle ≠ 0 then -1
      else rval, unmapped ++ closed)

def mmapMapRange (system : MmapSystem) (p : MulleMmap) (handle : Int32) (offset length : UInt64) :
    MulleMmap × Int32 × List MmapCall :=
  match system.fileSize handle with
  | none => (p, -1, [])
  | some fileSize =>
    if length ≠ -1 ∧ offset + length > fileSize then (p, -1, [])
    else
      match mmapMemoryMap system handle offset (if length = -1 then fileSize - offset else length)
        p.writable with
      | (none, calls) => (p, -1, calls)
      | (some ctx, calls) =>
        let (p, _, unmapped) := mmapUnmap system p
        ({ p with
            fileHandle := handle, isHandleInternal := false, data := ctx.data, length := ctx.length,
            mappedLength := ctx.mappedLength }, 0, calls ++ unmapped)

/-- What is relied on. Addresses are below `2 ^ 63`, NULL is none of them. -/
structure PosixMmap (system : MmapSystem) : Prop where
  invalid : system.fileSize mmapInvalidHandle = none
  aligned : ∀ request start, system.mmap request = some start →
    start.toNat % system.pageSize.toNat = 0
  fits : ∀ request start, system.mmap request = some start →
    0 < start.toNat ∧ start.toNat + request.length.toNat ≤ 2 ^ 63
  offsets : ∀ request start, system.mmap request = some start → request.offset.toNat < 2 ^ 63

def mapEnd (size offset length : UInt64) : UInt64 :=
  if length = -1 then size else offset + length

structure BytesMapped (system : MmapSystem) (handle : Int32) (offset : UInt64) (p : MulleMmap)
    (request : MmapRequest) (start : UInt64) : Prop where
  answered : system.mmap request = some start
  file : request.handle = handle
  startAligned : start.toNat % system.pageSize.toNat = 0
  offsetAligned : request.offset.toNat % system.pageSize.toNat = 0
  begins : start = p.data - mmapGetMappingOffset p
  mapped : request.length = p.mappedLength
  inside : start.toNat ≤ p.data.toNat ∧
    p.data.toNat + p.length.toNat ≤ start.toNat + p.mappedLength.toNat
  bytes : ∀ i < p.length.toNat, request.offset.toNat + (p.data.toNat + i - start.toNat) =
    offset.toNat + i
  unmaps : (mmapUnmap system p).2.2 = [.munmap start p.mappedLength]

structure RangeMapped (system : MmapSystem) (handle : Int32) (offset length size : UInt64)
    (p : MulleMmap) (calls : List MmapCall) : Prop where
  begins : offset.toNat ≤ size.toNat
  ends : length ≠ -1 → offset.toNat + length.toNat ≤ size.toNat
  sized : p.length = if length = -1 then size - offset else length
  mapped : p.length ≠ 0 → ∃ request start, .mmap request ∈ calls ∧
    BytesMapped system handle offset p request start

def MapRangeKeeps (system : MmapSystem) (p : MulleMmap) (handle : Int32) (offset length : UInt64) :
    Prop :=
  let (after, rval, calls) := mmapMapRange system p handle offset length
  (rval = 0 ∧ ∃ size, system.fileSize handle = some size ∧ RangeMapped system handle offset length
    size after calls) ∨
    (rval = -1 ∧ after = p)

section MapRange

variable {system : MmapSystem} {p : MulleMmap} {handle : Int32} {offset length size : UInt64}
variable {writable : Bool} {ctx : MmapResult} {calls : List MmapCall}

theorem mmapPagealignOffset_toNat (system : MmapSystem) (offset : UInt64) :
    (mmapPagealignOffset system offset).toNat =
      offset.toNat / system.pageSize.toNat * system.pageSize.toNat := by
  have below := Nat.div_mul_le_self offset.toNat system.pageSize.toNat
  have bound := offset.toNat_lt
  rw [mmapPagealignOffset, UInt64.toNat_mul, UInt64.toNat_div, Nat.mod_eq_of_lt (by omega)]

theorem mmapPagealignOffset_le (system : MmapSystem) (offset : UInt64) :
    (mmapPagealignOffset system offset).toNat ≤ offset.toNat := by
  rw [mmapPagealignOffset_toNat]
  exact Nat.div_mul_le_self _ _

theorem lengthToMap_toNat (system : MmapSystem) (size offset length : UInt64) :
    (offset - mmapPagealignOffset system offset + if length = -1 then size - offset
      else length).toNat =
      (2 ^ 64 + (mapEnd size offset length).toNat - (mmapPagealignOffset system offset).toNat) % 2 ^
        64 := by
  have below := mmapPagealignOffset_le system offset
  generalize mmapPagealignOffset system offset = start at below ⊢
  have offsetBound := offset.toNat_lt
  have sizeBound := size.toNat_lt
  rw [UInt64.toNat_add, UInt64.toNat_sub, mapEnd]
  split
  next =>
    rw [UInt64.toNat_sub]
    omega
  next =>
    rw [UInt64.toNat_add]
    omega

theorem check_iff : length ≠ -1 ∧ offset + length > size ↔
    size.toNat < (mapEnd size offset length).toNat := by
  rw [mapEnd, gt_iff_lt, UInt64.lt_iff_toNat_lt]
  split
  next all => simp [all]
  next some => simp [some]

theorem mmapMemoryMap_before (posix : PosixMmap system)
    (before : (mapEnd size offset length).toNat < (mmapPagealignOffset system offset).toNat) :
    (mmapMemoryMap system handle offset (if length = -1 then size - offset else length)
      writable).1 = none := by
  have bound := (mmapPagealignOffset system offset).toNat_lt
  have left := lengthToMap_toNat system size offset length
  rw [mmapMemoryMap]
  generalize offset - mmapPagealignOffset system offset + (if length = -1 then size - offset
    else length) = wanted at left ⊢
  have some : wanted ≠ 0 := by
    rintro rfl
    rw [UInt64.toNat_zero] at left
    omega
  dsimp only
  rw [if_neg some]
  cases answered : system.mmap ⟨wanted, writable, handle, mmapPagealignOffset system offset⟩ with
  | none => rfl
  | some start =>
    have fits := posix.fits _ _ answered
    have offsets := posix.offsets _ _ answered
    dsimp only at fits offsets
    omega

theorem mmapMemoryMap_behind (writable : Bool)
    (behind : (mmapPagealignOffset system offset).toNat ≤ (mapEnd size offset length).toNat) :
    mmapMemoryMap system handle offset (if length = -1 then size - offset else length) writable =
      let start := mmapPagealignOffset system offset
      if mapEnd size offset length = start then (some ⟨0, 0, 0⟩, [])
      else
        let request := ⟨mapEnd size offset length - start, writable, handle, start⟩
        ((system.mmap request).map fun mappingStart =>
          ⟨mappingStart + offset - start, if length = -1 then size - offset else length,
            mapEnd size offset length - start⟩,
          [.mmap request]) := by
  have bound := (mapEnd size offset length).toNat_lt
  have left := lengthToMap_toNat system size offset length
  have same : offset - mmapPagealignOffset system offset + (if length = -1 then size - offset
    else length) =
      mapEnd size offset length - mmapPagealignOffset system offset := by
    apply UInt64.toNat_inj.mp
    rw [left, UInt64.toNat_sub_of_le _ _ (UInt64.le_iff_toNat_le.mpr behind)]
    omega
  have zero : mapEnd size offset length - mmapPagealignOffset system offset = 0 ↔
      mapEnd size offset length = mmapPagealignOffset system offset := by
    rw [← UInt64.toNat_inj, ← UInt64.toNat_inj,
      UInt64.toNat_sub_of_le _ _ (UInt64.le_iff_toNat_le.mpr behind)]
    simp only [UInt64.toNat_zero]
    omega
  rw [mmapMemoryMap, same]
  simp only [zero]

theorem mmapMapRange_unknown (unknown : system.fileSize handle = none) :
    mmapMapRange system p handle offset length = (p, -1, []) := by
  rw [mmapMapRange, unknown]

theorem mmapMapRange_refused (known : system.fileSize handle = some size)
    (refused : size.toNat < (mapEnd size offset length).toNat ∨
      (mmapMemoryMap system handle offset (if length = -1 then size - offset else length)
        p.writable).1 = none) :
    ∃ calls, mmapMapRange system p handle offset length = (p, -1, calls) := by
  rw [mmapMapRange, known]
  dsimp only
  split
  next => exact ⟨[], rfl⟩
  next passes =>
    rw [check_iff] at passes
    have none := refused.resolve_left passes
    cases mapped : mmapMemoryMap system handle offset (if length = -1 then size - offset
      else length) p.writable with
    | mk ctx calls =>
      rw [mapped] at none
      obtain rfl : ctx = .none := none
      exact ⟨calls, rfl⟩

theorem mmapMapRange_mapped (known : system.fileSize handle = some size)
    (passes : (mapEnd size offset length).toNat ≤ size.toNat)
    (mapped : mmapMemoryMap system handle offset (if length = -1 then size - offset
      else length) p.writable =
      (some ctx, calls)) :
    ∃ writable unmapped, mmapMapRange system p handle offset length =
      (⟨ctx.data, ctx.length, ctx.mappedLength, false, writable, handle⟩, 0, calls ++ unmapped) := by
  rw [mmapMapRange, known]
  dsimp only
  rw [if_neg (mt check_iff.mp (Nat.not_lt.mpr passes)), mapped]
  exact ⟨_, _, rfl⟩

theorem mapEnd_proper (passes : (mapEnd size offset length).toNat ≤ size.toNat)
    (ordered : offset.toNat ≤ (mapEnd size offset length).toNat) :
    offset.toNat ≤ size.toNat ∧ (length ≠ -1 → offset.toNat + length.toNat ≤ size.toNat) ∧
      (if length = -1 then size - offset else length).toNat = (mapEnd size offset length).toNat -
        offset.toNat := by
  have offsetBound := offset.toNat_lt
  have lengthBound := length.toNat_lt
  refine ⟨Nat.le_trans ordered passes, ?_⟩
  rw [mapEnd] at passes ordered ⊢
  split at ordered
  next all =>
    rw [if_pos all, UInt64.toNat_sub_of_le _ _ (UInt64.le_iff_toNat_le.mpr ordered), if_pos all]
    exact ⟨fun some => absurd all some, rfl⟩
  next some =>
    rw [if_neg some] at passes
    rw [if_neg some, if_neg some]
    rw [UInt64.toNat_add] at passes ordered ⊢
    omega

theorem bytesMapped (posix : PosixMmap system) (known : system.fileSize handle = some size)
    (passes : (mapEnd size offset length).toNat ≤ size.toNat)
    (ordered : offset.toNat ≤ (mapEnd size offset length).toNat) {was : Bool} {start : UInt64}
    (answered : system.mmap ⟨mapEnd size offset length - mmapPagealignOffset system offset, was,
      handle, mmapPagealignOffset system offset⟩ = some start) :
    BytesMapped system handle offset
      ⟨start + offset - mmapPagealignOffset system offset, if length = -1 then size - offset
        else length,
        mapEnd size offset length - mmapPagealignOffset system offset, false, writable, handle⟩
      ⟨mapEnd size offset length - mmapPagealignOffset system offset, was, handle,
        mmapPagealignOffset system offset⟩
      start := by
  have opened : handle ≠ mmapInvalidHandle := by
    rintro rfl
    exact nomatch posix.invalid.symm.trans known
  have pageStart := mmapPagealignOffset_le system offset
  have pages : (mmapPagealignOffset system offset).toNat % system.pageSize.toNat = 0 := by
    rw [mmapPagealignOffset_toNat, Nat.mul_mod_left]
  have wanted := (mapEnd_proper passes ordered).2.2
  obtain ⟨positive, fits⟩ := posix.fits _ _ answered
  have startAligned := posix.aligned _ _ answered
  have endBound := (mapEnd size offset length).toNat_lt
  dsimp only at fits
  generalize mmapPagealignOffset system offset = page at pageStart pages answered fits ⊢
  generalize (if length = -1 then size - offset else length) = count at wanted ⊢
  generalize mapEnd size offset length = stop at ordered wanted answered fits endBound ⊢
  have whole : (stop - page).toNat = stop.toNat - page.toNat :=
    UInt64.toNat_sub_of_le _ _ (UInt64.le_iff_toNat_le.mpr (Nat.le_trans pageStart ordered))
  rw [whole] at fits
  have data : (start + offset - page).toNat = start.toNat + (offset.toNat - page.toNat) := by
    rw [UInt64.toNat_sub, UInt64.toNat_add]
    omega
  have front : (stop - page - count).toNat = offset.toNat - page.toNat := by
    rw [UInt64.toNat_sub_of_le, whole, wanted]
    · omega
    · rw [UInt64.le_iff_toNat_le, whole, wanted]
      omega
  have begins : start = start + offset - page - (stop - page - count) := by
    apply UInt64.toNat_inj.mp
    rw [UInt64.toNat_sub_of_le, data, front]
    · omega
    · rw [UInt64.le_iff_toNat_le, data, front]
      omega
  have there : start + offset - page ≠ 0 := by
    intro null
    rw [null, UInt64.toNat_zero] at data
    omega
  refine ⟨answered, rfl, startAligned, pages, begins, rfl, ?_, ?_, ?_⟩
  · dsimp only
    rw [data, wanted, whole]
    omega
  · intro i inside
    dsimp only at inside ⊢
    rw [data]
    omega
  · simp [mmapUnmap, mmapIsOpen, opened, there, mmapGetMappingStart, mmapGetMappingOffset, ← begins]

theorem mmapMapRange_keeps (posix : PosixMmap system) (known : system.fileSize handle = some size)
    (passes : (mapEnd size offset length).toNat ≤ size.toNat)
    (ordered : offset.toNat ≤ (mapEnd size offset length).toNat) :
    MapRangeKeeps system p handle offset length := by
  obtain ⟨begins, ends, wanted⟩ := mapEnd_proper passes ordered
  have pageStart := mmapPagealignOffset_le system offset
  have mapped := @mmapMemoryMap_behind system handle offset length size p.writable
    (Nat.le_trans pageStart ordered)
  dsimp only at mapped
  by_cases empty : mapEnd size offset length = mmapPagealignOffset system offset
  · rw [if_pos empty] at mapped
    obtain ⟨writable, unmapped, found⟩ := mmapMapRange_mapped known passes mapped
    rw [MapRangeKeeps, found]
    have none : (if length = -1 then size - offset else length) = 0 := by
      apply UInt64.toNat_inj.mp
      rw [wanted, empty, UInt64.toNat_zero]
      omega
    exact .inl ⟨rfl, size, known, begins, ends, none.symm, fun some => absurd rfl some⟩
  · rw [if_neg empty] at mapped
    cases answered : system.mmap ⟨mapEnd size offset length - mmapPagealignOffset system offset,
      p.writable, handle,
        mmapPagealignOffset system offset⟩ with
    | none =>
      rw [answered] at mapped
      obtain ⟨calls, found⟩ := mmapMapRange_refused (p := p) known (.inr (congrArg Prod.fst mapped))
      rw [MapRangeKeeps, found]
      exact .inr ⟨rfl, rfl⟩
    | some start =>
      rw [answered] at mapped
      obtain ⟨writable, unmapped, found⟩ := mmapMapRange_mapped known passes mapped
      rw [MapRangeKeeps, found]
      refine .inl ⟨rfl, size, known, begins, ends, rfl,
        fun _ => ⟨_, start, List.mem_append_left _ List.mem_cons_self, ?_⟩⟩
      exact bytesMapped posix known passes ordered answered

theorem RangeMapped.ordered (mapped : RangeMapped system handle offset length size p calls) :
    offset.toNat ≤ (mapEnd size offset length).toNat := by
  have sizeBound := size.toNat_lt
  have begins := mapped.begins
  rw [mapEnd]
  split
  next => exact begins
  next some =>
    have ends := mapped.ends some
    rw [UInt64.toNat_add]
    omega

theorem mmapMapRange_breaks (known : system.fileSize handle = some size)
    (passes : (mapEnd size offset length).toNat ≤ size.toNat)
    (before : (mapEnd size offset length).toNat < offset.toNat)
    (mapped : mmapMemoryMap system handle offset (if length = -1 then size - offset
      else length) p.writable =
      (some ctx, calls)) : ¬MapRangeKeeps system p handle offset length := by
  obtain ⟨writable, unmapped, found⟩ := mmapMapRange_mapped known passes mapped
  rw [MapRangeKeeps, found]
  rintro (⟨-, other, same, kept⟩ | ⟨failed, -⟩)
  · obtain rfl : size = other := Option.some.inj (known.symm.trans same)
    exact absurd kept.ordered (Nat.not_le.mpr before)
  · exact absurd failed (by decide)

end MapRange

/-- The computed end must not be before the offset in its page: what is left of the page would be
mapped. -/
theorem mmapMapRange_keeps_iff (system : MmapSystem) (posix : PosixMmap system) (p : MulleMmap)
    (handle : Int32) (offset length : UInt64) :
    MapRangeKeeps system p handle offset length ↔
      ∀ size, system.fileSize handle = some size → mapEnd size offset length ≤ size →
        mmapPagealignOffset system offset ≤ mapEnd size offset length →
        mapEnd size offset length < offset →
          mapEnd size offset length ≠ mmapPagealignOffset system offset ∧
            system.mmap ⟨mapEnd size offset length - mmapPagealignOffset system offset, p.writable,
              handle, mmapPagealignOffset system offset⟩ = none := by
  simp only [UInt64.le_iff_toNat_le, UInt64.lt_iff_toNat_lt]
  constructor
  · intro keeps size known passes inPage before
    have mapped := @mmapMemoryMap_behind system handle offset length size p.writable inPage
    dsimp only at mapped
    by_cases same : mapEnd size offset length = mmapPagealignOffset system offset
    · rw [if_pos same] at mapped
      exact absurd keeps (mmapMapRange_breaks known passes before mapped)
    · rw [if_neg same] at mapped
      refine ⟨same, ?_⟩
      cases answered : system.mmap ⟨mapEnd size offset length - mmapPagealignOffset system offset,
        p.writable, handle,
          mmapPagealignOffset system offset⟩ with
      | none => rfl
      | some start =>
        rw [answered] at mapped
        exact absurd keeps (mmapMapRange_breaks known passes before mapped)
  · intro condition
    cases known : system.fileSize handle with
    | none =>
      rw [MapRangeKeeps, mmapMapRange_unknown known]
      exact .inr ⟨rfl, rfl⟩
    | some size =>
      by_cases passes : (mapEnd size offset length).toNat ≤ size.toNat
      · by_cases ordered : offset.toNat ≤ (mapEnd size offset length).toNat
        · exact mmapMapRange_keeps posix known passes ordered
        · have none : (mmapMemoryMap system handle offset (if length = -1 then size - offset
            else length)
              p.writable).1 = none := by
            by_cases inPage : (mmapPagealignOffset system offset).toNat ≤
              (mapEnd size offset length).toNat
            · obtain ⟨different, unanswered⟩ :=
                condition size known passes inPage (Nat.not_le.mp ordered)
              rw [mmapMemoryMap_behind p.writable inPage]
              dsimp only
              rw [if_neg different, unanswered]
              rfl
            · exact mmapMemoryMap_before posix (Nat.not_le.mp inPage)
          obtain ⟨calls, found⟩ := mmapMapRange_refused known (.inr none)
          rw [MapRangeKeeps, found]
          exact .inr ⟨rfl, rfl⟩
      · obtain ⟨calls, found⟩ := mmapMapRange_refused known (.inl (Nat.not_le.mp passes))
        rw [MapRangeKeeps, found]
        exact .inr ⟨rfl, rfl⟩

def smallFile : MmapSystem where
  pageSize := 4096
  fileSize := fun handle => if handle = mmapInvalidHandle then none else some 5000
  mmap := fun request => if request.length ≤ 8192 ∧ request.offset ≤ 8192 then some 65536 else none
  munmap := fun _ _ => 0
  close := fun _ => 0

theorem smallFile_mmap {request : MmapRequest} {start : UInt64}
    (answered : smallFile.mmap request = some start) :
    start = 65536 ∧ request.length.toNat ≤ 8192 ∧ request.offset.toNat ≤ 8192 := by
  have allowed : (request.length ≤ 8192 ∧ request.offset ≤ 8192) ∧ 65536 = start := by
    simpa [smallFile] using answered
  obtain ⟨⟨few, near⟩, rfl⟩ := allowed
  exact ⟨rfl, UInt64.le_iff_toNat_le.mp few, UInt64.le_iff_toNat_le.mp near⟩

theorem smallFile_posix : PosixMmap smallFile where
  invalid := rfl
  aligned := by
    intro request start answered
    rw [(smallFile_mmap answered).1]
    decide
  fits := by
    intro request start answered
    obtain ⟨rfl, few, -⟩ := smallFile_mmap answered
    have place : (65536 : UInt64).toNat = 65536 := rfl
    omega
  offsets := by
    intro request start answered
    have near := (smallFile_mmap answered).2.2
    omega

theorem mmapMapRange_keeps_iff_middle : MapRangeKeeps smallFile (mmapInit false) 3 4100 10 :=
  (mmapMapRange_keeps_iff smallFile smallFile_posix (mmapInit false) 3 4100 10).mpr (by
    intro size known
    obtain rfl : 5000 = size := Option.some.inj known
    decide)

/-- All from offset 5001 of 5000 bytes on. -/
theorem mmapMapRange_behindEnd :
    PosixMmap smallFile ∧ ¬MapRangeKeeps smallFile (mmapInit false) 3 5001 (-1) := by
  refine ⟨smallFile_posix, ?_⟩
  have found : mmapMapRange smallFile (mmapInit false) 3 5001 (-1) =
      (⟨66441, -1, 904, false, false, 3⟩, 0, [.mmap ⟨904, false, 3, 4096⟩]) := by
    decide
  rw [MapRangeKeeps, found]
  rintro (⟨-, size, known, mapped⟩ | ⟨failed, -⟩)
  · obtain rfl : 5000 = size := Option.some.inj known
    exact absurd mapped.begins (by decide)
  · exact absurd failed (by decide)

end MulleCore
