import Mathlib.Init

/-!
`mulle-hash.h` for 64 bit pointers.
-/

namespace MulleCore

abbrev Pointer := UInt64

def notAPointer : Pointer := 0x8000000000000000

def hashAvalanche64 (h : UInt64) : UInt64 :=
  let h := h ^^^ h >>> 33
  let h := h * 0xff51afd7ed558ccd
  let h := h ^^^ h >>> 33
  let h := h * 0xc4ceb9fe1a85ec53
  h ^^^ h >>> 33

def pointerHash (p : Pointer) : UInt64 := hashAvalanche64 p

end MulleCore
