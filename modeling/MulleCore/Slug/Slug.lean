import MulleCore.Buffer.Hexdump
import MulleCore.Utf.UtfCursors

/-!
`mulle-slug.c` with the table of `map.inc`, for a `passthru` of 0. The generated `decompose_map` and
`mulle_unicode_is_nonbase` are parameters. A result of `none` stands for a read outside of a table
or of the text.
-/

namespace MulleCore

open Library

section Tables

structure MapEntry where
  utf32 : Int
  ascii : List UInt8

def asciiBytes (ascii : String) : List UInt8 := ascii.toList.map fun c => UInt8.ofNat c.toNat

def slugMapEntries : List (Int × String) :=
  [(0xa2, "cent"), (0xa3, "pound"), (0xa4, "currency"), (0xa5, "yen"), (0xa9, "c"), (0xae, "r"),
    (0xc6, "AE"),
   (0xd0, "D"), (0xd8, "O"), (0xde, "TH"), (0xdf, "ss"), (0xe6, "ae"), (0xf0, "d"), (0xf8, "o"),
   (0xfe, "th"),
   (0x131, "i"), (0x141, "L"), (0x142, "l"), (0x152, "OE"), (0x153, "oe"), (0x192, "f"),
   (0x2da, "o"), (0x386, "A"),
   (0x388, "E"), (0x389, "H"), (0x38a, "I"), (0x38c, "O"), (0x38e, "Y"), (0x38f, "W"), (0x390, "i"),
   (0x391, "A"),
   (0x392, "B"), (0x393, "G"), (0x394, "D"), (0x395, "E"), (0x396, "Z"), (0x397, "H"), (0x398, "8"),
   (0x399, "I"),
   (0x39a, "K"), (0x39b, "L"), (0x39c, "M"), (0x39d, "N"), (0x39e, "3"), (0x39f, "O"), (0x3a0, "P"),
   (0x3a1, "R"),
   (0x3a3, "S"), (0x3a4, "T"), (0x3a5, "Y"), (0x3a6, "F"), (0x3a7, "X"), (0x3a8, "PS"),
   (0x3a9, "W"), (0x3aa, "I"),
   (0x3ab, "Y"), (0x3ac, "a"), (0x3ad, "e"), (0x3ae, "h"), (0x3af, "i"), (0x3b0, "y"), (0x3b1, "a"),
   (0x3b2, "b"),
   (0x3b3, "g"), (0x3b4, "d"), (0x3b5, "e"), (0x3b6, "z"), (0x3b7, "h"), (0x3b8, "8"), (0x3b9, "i"),
   (0x3ba, "k"),
   (0x3bb, "l"), (0x3bc, "m"), (0x3bd, "n"), (0x3be, "3"), (0x3bf, "o"), (0x3c0, "p"), (0x3c1, "r"),
   (0x3c2, "s"),
   (0x3c3, "s"), (0x3c4, "t"), (0x3c5, "y"), (0x3c6, "f"), (0x3c7, "x"), (0x3c8, "ps"),
   (0x3c9, "w"), (0x3ca, "i"),
   (0x3cb, "y"), (0x3cc, "o"), (0x3cd, "y"), (0x3ce, "w"), (0x401, "Yo"), (0x404, "Ye"), (0x406, "I"),
   (0x407, "Yi"), (0x410, "A"), (0x411, "B"), (0x412, "V"), (0x413, "G"), (0x414, "D"),
   (0x415, "E"), (0x416, "Zh"),
   (0x417, "Z"), (0x418, "I"), (0x419, "J"), (0x41a, "K"), (0x41b, "L"), (0x41c, "M"), (0x41d, "N"),
   (0x41e, "O"),
   (0x41f, "P"), (0x420, "R"), (0x421, "S"), (0x422, "T"), (0x423, "U"), (0x424, "F"), (0x425, "H"),
   (0x426, "C"),
   (0x427, "Ch"), (0x428, "Sh"), (0x429, "Sh"), (0x42a, "U"), (0x42b, "Y"), (0x42c, ""), (0x42d, "E"),
   (0x42e, "Yu"), (0x42f, "Ya"), (0x430, "a"), (0x431, "b"), (0x432, "v"), (0x433, "g"),
   (0x434, "d"), (0x435, "e"),
   (0x436, "zh"), (0x437, "z"), (0x438, "i"), (0x439, "j"), (0x43a, "k"), (0x43b, "l"),
   (0x43c, "m"), (0x43d, "n"),
   (0x43e, "o"), (0x43f, "p"), (0x440, "r"), (0x441, "s"), (0x442, "t"), (0x443, "u"), (0x444, "f"),
   (0x445, "h"),
   (0x446, "c"), (0x447, "ch"), (0x448, "sh"), (0x449, "sh"), (0x44a, "u"), (0x44b, "y"),
   (0x44c, ""), (0x44d, "e"),
   (0x44e, "yu"), (0x44f, "ya"), (0x451, "yo"), (0x454, "ye"), (0x456, "i"), (0x457, "yi"),
   (0x490, "G"),
   (0x491, "g"), (0xe3f, "baht"), (0x1e9e, "SS"), (0x2020, "cross"), (0x2022, ""), (0x2026, ""),
   (0x20a0, "ecu"),
   (0x20a2, "cruzeiro"), (0x20a3, "franc"), (0x20a4, "lira"), (0x20a5, "mill"), (0x20a6, "naira"),
   (0x20a7, "peseta"), (0x20a8, "rupee"), (0x20a9, "won"), (0x20aa, "new-shequel"), (0x20ab, "dong"),
   (0x20ac, "euro"), (0x20ad, "kip"), (0x20ae, "tugrik"), (0x20af, "drachma"), (0x20b0, "penny"),
   (0x20b1, "peso"),
   (0x20b2, "guarani"), (0x20b3, "austral"), (0x20b4, "hryvnia"), (0x20b5, "cedi"), (0x2120, "sm"),
   (0x2122, "tm"),
   (0x2202, "d"), (0x2206, "delta"), (0x2211, "sum"), (0x221e, "infinity"), (0x2665, "love"),
   (0x5143, "yuan"), (0x5186, "yen"), (0xfdfc, "rial")]

def slugMap : List MapEntry :=
  slugMapEntries.map fun (utf32, ascii) => ⟨utf32, asciiBytes ascii⟩

/-- The loop of `search_map`. The inner `none` is NULL. -/
def searchMapFrom (table : List MapEntry) (c : Int) : Nat → Int → Int → Option (Option (List UInt8))
  | 0, _, _ => none
  | fuel + 1, first, last =>
    if first ≤ last then
      let middle := (first + last) / 2
      match table[middle.toNat]? with
      | none => none
      | some entry =>
        if entry.utf32 ≤ c then
          if entry.utf32 = c then some (some entry.ascii)
            else searchMapFrom table c fuel (middle + 1) last
        else searchMapFrom table c fuel first (middle - 1)
    else some none

def searchMap (table : List MapEntry) (c : Int) : Option (Option (List UInt8)) :=
  searchMapFrom table c (table.length + 1) 0 (table.length - 1)

end Tables

section Functions

structure SlugTables where
  decomposeMap : List MapEntry
  isNonbase : Int → Bool

variable (tables : SlugTables)

def slugAscii (c : Int) : Option (Option (List UInt8)) := do
  match ← searchMap slugMap c with
  | some ascii => some (some ascii)
  | none => searchMap tables.decomposeMap c

def ispunct (c : Int) : Bool :=
  0x21 ≤ c && c ≤ 0x2f || 0x3a ≤ c && c ≤ 0x40 || 0x5b ≤ c && c ≤ 0x60 || 0x7b ≤ c && c ≤ 0x7e

def slugIsBlank (c : Int) : Bool :=
  c == 0x20 || c == 0x0c || c == 0x0a || c == 0x0d || c == 0x09 || c == 0x0b || c == 0x2d

def slugName (c : Int) : Option (List UInt8) :=
  if c = 0x3c then some (asciiBytes "less")
  else if c = 0x3e then some (asciiBytes "greater")
  else if c = 0x24 then some (asciiBytes "dollar")
  else if c = 0x23 then some (asciiBytes "hash")
  else none

variable (env : BufferEnv) (fresh : Nat → UInt8) (delimiter : UInt8)

def delimiterCode : Int := delimiter.toInt8.toInt

def slugDelimiter (buffer : MulleBuffer) (prev : Int) : Option (MulleBuffer × Int) :=
  if prev ≠ 0 ∧ prev ≠ delimiterCode delimiter then do
    let buffer ← bufferAddByte env fresh buffer delimiter
    some (buffer, delimiterCode delimiter)
  else some (buffer, prev)

def slugCharacter (buffer : MulleBuffer) (prev c : Int) : Option (MulleBuffer × Int) :=
  if c < 127 then
    if slugIsBlank c then slugDelimiter env fresh delimiter buffer prev
    else
      match slugName c with
      | some name => do
          let buffer ← bufferAddString env fresh buffer name
          some (buffer, c)
      | none =>
        if ¬ isprint (UInt8.ofNat c.toNat) then some (buffer, prev)
        else if ispunct c then slugDelimiter env fresh delimiter buffer prev
        else do
          let buffer ← bufferAddByte env fresh buffer (UInt8.ofNat c.toNat)
          some (buffer, c)
  else if tables.isNonbase c then some (buffer, prev)
  else do
    match ← slugAscii tables c with
    | some ascii => do
        let buffer ← bufferAddString env fresh buffer ascii
        some (buffer, c)
    | none => some (buffer, prev)

def slugFrom : Nat → MulleBuffer → Int → Cursor UInt8 → Option MulleBuffer
  | 0, _, _, _ => none
  | fuel + 1, buffer, prev, walk =>
    if walk.rest = [] then some buffer
    else do
      let (c, walk) ← utf8NextUtf32character walk
      if c = 0 then some buffer
      else
        let (buffer, prev) ← slugCharacter tables env fresh delimiter buffer prev c
        slugFrom fuel buffer prev walk

def slugTrim (prevlen : Nat) : Nat → MulleBuffer → Option MulleBuffer
  | 0, buffer => some buffer
  | length + 1, buffer =>
    if length + 1 > prevlen + 1 then do
      let c ← bufferGetLastByte buffer
      if c ≠ delimiterCode delimiter then
        some buffer else slugTrim prevlen length (bufferRemoveLastByte buffer)
    else some buffer

def bufferAddSlugifiedUtf8data (buffer : MulleBuffer) (data : List UInt8) : Option MulleBuffer :=
  if data.length = 0 then some buffer
  else do
    let prevlen := bufferGetLength buffer
    let buffer ← slugFrom tables env fresh delimiter (data.length + 1) buffer 0 ⟨[], data⟩
    slugTrim delimiter prevlen (bufferGetLength buffer) buffer

end Functions

end MulleCore
