import MulleCore.Library.Bisect
import MulleCore.Library.Intervals
import MulleCore.Library.Splice
import MulleCore.Library.Block
import MulleCore.Library.Probing
import MulleCore.Library.Bindings
import MulleCore.Library.Ledger
import MulleCore.Library.Arena
import MulleCore.Library.Records
import MulleCore.Library.Simulation
import MulleCore.Library.Calls
import MulleCore.Library.Sorting
import MulleCore.Library.RedBlack
import MulleCore.Library.Rotations
import MulleCore.Library.SearchPath
import MulleCore.Library.Traversal
import MulleCore.Library.ByteMemory
import MulleCore.Library.Spelling
import MulleCore.Library.Chains
import MulleCore.Data.Range
import MulleCore.Data.RangeSearch
import MulleCore.Data.RangeLocations
import MulleCore.Data.RangeSubtract
import MulleCore.Data.Word
import MulleCore.Data.Intptr
import MulleCore.Data.Hash
import MulleCore.Data.Qsort
import MulleCore.Data.QsortSorts
import MulleCore.Data.QsortBytes
import MulleCore.Data.QsortBytesSorts
import MulleCore.Container.Math
import MulleCore.Container.Rangeset
import MulleCore.Container.RangesetOverlap
import MulleCore.Container.RangesetAbsent
import MulleCore.Container.RangesetRefines
import MulleCore.Container.RangesetRuns
import MulleCore.Container.RangesetSearch
import MulleCore.Container.RangesetSearchLocation
import MulleCore.Container.RangesetSum
import MulleCore.Container.RangesetShift
import MulleCore.Container.RangesetShiftSafe
import MulleCore.Container.RangesetUnsorted
import MulleCore.Container.RangesetShiftExact
import MulleCore.Container.Rangemap
import MulleCore.Container.RangemapRefines
import MulleCore.Container.RangemapExact
import MulleCore.Container.RangemapRanges
import MulleCore.Container.ProbeTable
import MulleCore.Container.ProbeTableOk
import MulleCore.Container.ProbeTableHolds
import MulleCore.Container.Pointermap
import MulleCore.Container.PointermapRefines
import MulleCore.Container.PointermapGetters
import MulleCore.Container.MapOwnership
import MulleCore.Container.PointerpairSearch
import MulleCore.Container.Pointerset
import MulleCore.Container.PointersetWrite
import MulleCore.Container.PointersetUnion
import MulleCore.Container.PointersetCombine
import MulleCore.Container.Queue
import MulleCore.Container.QueueCursors
import MulleCore.Container.QueueOk
import MulleCore.Container.QueueRefines
import MulleCore.Container.Structarray
import MulleCore.Container.StructarrayOk
import MulleCore.Container.StructarrayRanges
import MulleCore.Container.StructarrayRefines
import MulleCore.Container.Array
import MulleCore.Container.Assoc
import MulleCore.Container.AssocHolds
import MulleCore.Container.AssocRefines
import MulleCore.Container.AssocIntptr
import MulleCore.Container.AssocMove
import MulleCore.Rbtree.Rbtree
import MulleCore.Rbtree.RbtreeLinked
import MulleCore.Rbtree.RbtreeRotate
import MulleCore.Rbtree.RbtreeInsert
import MulleCore.Rbtree.RbtreeAttach
import MulleCore.Rbtree.RbtreeBlackBlack
import MulleCore.Rbtree.RbtreeUnlink
import MulleCore.Rbtree.RbtreeRemove
import MulleCore.Rbtree.RbtreeRemoveNode
import MulleCore.Rbtree.RbtreeWalk
import MulleCore.Rbtree.RbtreeSteps
import MulleCore.Rbtree.RbtreeRedBlack
import MulleCore.Rbtree.RbtreeOrder
import MulleCore.Rbtree.RbtreeSearch
import MulleCore.Rbtree.RbtreeDirty
import MulleCore.Storage.Arena
import MulleCore.Storage.ArenaBlocks
import MulleCore.Storage.ArenaSafe
import MulleCore.Storage.ArenaAlignment
import MulleCore.Utf.UtfCharacters
import MulleCore.Utf.Utf8
import MulleCore.Utf.Utf16
import MulleCore.Utf.Utf32
import MulleCore.Utf.UtfTexts
import MulleCore.Utf.Utf8Rounds
import MulleCore.Utf.Utf16Rounds
import MulleCore.Utf.UtfConverters
import MulleCore.Utf.Utf8Lengths
import MulleCore.Utf.Utf16Lengths
import MulleCore.Utf.UtfInformations
import MulleCore.Buffer.Buffer
import MulleCore.Buffer.BufferHolds
import MulleCore.Buffer.BufferRefines
import MulleCore.Buffer.BufferOverflow
import MulleCore.Buffer.Hexdump
import MulleCore.Buffer.FlushableBuffer
import MulleCore.Container.Pointerarray
import MulleCore.Container.PointerarrayHolds
import MulleCore.Container.PointerarrayRefines
import MulleCore.Container.PointerarrayRuns
import MulleCore.Multififo.Lockingmultififo
import MulleCore.Linkedlist.ConcurrentLinkedlist
import MulleCore.Spawn.SpawnHandle
import MulleCore.Spawn.SpawnRuns
import MulleCore.Library.CLiterals
import MulleCore.Buffer.CString
import MulleCore.Library.PackedWords
import MulleCore.Utf.Char5
import MulleCore.Utf.Char5Words
import MulleCore.Utf.UtfScan
import MulleCore.Utf.UtfScanDecimal
import MulleCore.Library.Cursors
import MulleCore.Utf.UtfCursors
import MulleCore.Utf.Iso1
import MulleCore.Utf.Utf8Ranges
import MulleCore.Library.Chunks
import MulleCore.Utf.UtfBufferconvert
import MulleCore.Storage.ArenaDirect
import MulleCore.Storage.ArenaDirectSafe
import MulleCore.Library.Pool
import MulleCore.Storage.Indexedstorage
import MulleCore.Storage.Storage
import MulleCore.Storage.StorageRuns
import MulleCore.Library.Digits
import MulleCore.Sprintf.DecimalJeaiii
import MulleCore.Sprintf.DecimalText
import MulleCore.Sprintf.Sscanf
import MulleCore.Buffer.BufferAppends
import MulleCore.Sprintf.Formatconversion
import MulleCore.Sprintf.SprintfInteger
import MulleCore.Sprintf.SprintfIntegerText
import MulleCore.Sprintf.SprintfIntegerSpec
import MulleCore.Library.Rounding
import MulleCore.Dtostr.Dtostr
import MulleCore.Sprintf.SprintfFp
import MulleCore.Sprintf.SprintfFpJustify
import MulleCore.Sprintf.SprintfFpHex
import MulleCore.Sprintf.SprintfFpDigits
import MulleCore.Sprintf.SprintfFpDecimal
import MulleCore.Sprintf.SprintfFpGeneral
import MulleCore.Dtostr.Strtod
import MulleCore.Dtostr.StrtodNumber
import MulleCore.Dtostr.StrtodWriteMulle
import MulleCore.Buffer.AddressBuffer
import MulleCore.Buffer.AddressSprintf
import MulleCore.Library.RollingHash
import MulleCore.Utf.UtfStrings
import MulleCore.Library.SortedSearch
import MulleCore.Utf.UtfStrspn
import MulleCore.Utf.UtfConversionContext
import MulleCore.Utf.UtfMogrify
import MulleCore.Aba.AbaStorage
import MulleCore.Regex.RegexSubstitute
import MulleCore.Multififo.Pointermultififo
import MulleCore.Multififo.PointermultififoVerdicts
import MulleCore.Regex.RegexClass
import MulleCore.Regex.RegexClassMatches
import MulleCore.Library.Ring
import MulleCore.Fifo.Pointerfifo
import MulleCore.Fifo.PointerfifoCalls
import MulleCore.Buffer.BufferStdio
import MulleCore.Slug.Slug
import MulleCore.Library.Patterns
import MulleCore.Slug.SlugText
import MulleCore.Thread.RecursiveMutex
import MulleCore.Thread.OnceRecursive
import MulleCore.Thread.LockCalls
import MulleCore.Allocator.Memset
import MulleCore.Spawn.SpawnCommandLine
import MulleCore.Mmap.MapRange
import MulleCore.Allocator.Calloca
import MulleCore.Utf.Utf8Strspn
import MulleCore.Library.RelyGuarantee
import MulleCore.Concurrent.ConcurrentStorages
import MulleCore.Concurrent.ConcurrentPointerarray
import MulleCore.Concurrent.ConcurrentPointerarrayHolds
import MulleCore.Concurrent.ConcurrentPointerarrayCalls
import MulleCore.Concurrent.ConcurrentPointerarrayRuns
import MulleCore.Concurrent.ConcurrentPointerset
import MulleCore.Concurrent.ConcurrentPointersetHolds
import MulleCore.Concurrent.ConcurrentPointersetCalls
import MulleCore.Concurrent.ConcurrentPointersetRuns
import MulleCore.Concurrent.ConcurrentReclamation
