import TCMalloc.Lib.Scan
import TCMalloc.Lib.Run
import TCMalloc.Lib.Binary64
import TCMalloc.AlignedAlloc
import TCMalloc.Internal.Bitmap
import TCMalloc.Internal.RangeTracker
import TCMalloc.TransferCache
import TCMalloc.Lib.Blocks
import TCMalloc.HugeRegion.Basic
import TCMalloc.HugeRegion.Accounts
import TCMalloc.HugeRegion.Unback
import TCMalloc.HugeRegion.Calls
import TCMalloc.HugeRegion.SpanStats
import TCMalloc.HugeRegion.Run
import TCMalloc.CpuCache.Basic
import TCMalloc.Lib.Ledger
import TCMalloc.CpuCache.Budget
import TCMalloc.CpuCache.Run
import TCMalloc.Common
import TCMalloc.Internal.FindAndMark
import TCMalloc.HugePageFiller.Scale
import TCMalloc.Span.Basic
import TCMalloc.SizeMap.Basic
import TCMalloc.Span.Bitmap
import TCMalloc.TransferCache.Resize
import TCMalloc.Lib.Positions
import TCMalloc.CpuCache.MaxCapacities
import TCMalloc.SizeMap.Init
import TCMalloc.HugePageFiller.PageTracker
import TCMalloc.Span.Freelist
import TCMalloc.Lib.MulShift
import TCMalloc.Lib.Window
import TCMalloc.Internal.TimeSeriesTracker
import TCMalloc.HugePageSubrelease
import TCMalloc.HugePageFiller.SkipSubrelease
import TCMalloc.Releaser
import TCMalloc.Lib.Radix
import TCMalloc.PageMap.Leaf
import TCMalloc.PageMap.PageMap2
import TCMalloc.PageMap.PageMap3
import TCMalloc.PageMap.Refinement
import TCMalloc.Internal.Percpu.Layout
import TCMalloc.Internal.Percpu.Slab
import TCMalloc.Internal.Percpu.Refines
import TCMalloc.Lib.SortedList
import TCMalloc.HugeRegion.Set
import TCMalloc.HugeRegion.SetRun
import TCMalloc.Lib.Affine
import TCMalloc.Lib.LinkedRing
import TCMalloc.Lib.Simulation
import TCMalloc.Lib.Align
import TCMalloc.Lib.While
import TCMalloc.Internal.ExponentialBiased
import TCMalloc.Sampler
import TCMalloc.HintedTrackerLists
import TCMalloc.Internal.Printer
import TCMalloc.Internal.BuildId
import TCMalloc.Internal.Sysinfo
import TCMalloc.Lib.PageSpan
import TCMalloc.Internal.Pagemap
import TCMalloc.Internal.Residency
import TCMalloc.Internal.PageFlags
import TCMalloc.Lib.RingQueue
import TCMalloc.Internal.StacktraceFilter
import TCMalloc.Lib.Word64
import TCMalloc.Internal.BitmapWords
import TCMalloc.Lib.RunLength
import TCMalloc.Internal.RangeTrackerWords
import TCMalloc.Internal.HugePageBitmaps
import TCMalloc.Internal.HookList
import TCMalloc.Lib.Check
import TCMalloc.Lib.Buckets
import TCMalloc.HugePageFiller.Filler
import TCMalloc.HugePageFiller.FillerLists
import TCMalloc.HugePageFiller.FillerState
import TCMalloc.HugePageFiller.FillerRun
import TCMalloc.HugePageFiller.FillerTryGet
import TCMalloc.HugePageFiller.FillerSafety
