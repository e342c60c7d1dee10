import Mathlib
import TCMalloc.HintedTrackerLists
import TCMalloc.HugePageFiller.PageTracker
import TCMalloc.Lib.Check

/-!
`HugePageFiller<PageTracker>` of `huge_page_filler.h`, the part of the hugepage-aware
allocator that packs small spans into hugepages.  Every hugepage it owns has a
`PageTracker`, and every tracker that is not fully free lies on one list of seven
families of `HintedTrackerLists`: the donated tails of large allocations by their
longest free range, and the others, split by access density, on the lists of hugepages
with nothing released, partially released or released, at the index `ListFor` computes
from the longest free range and the number of allocations.  `TryGet` takes the first
tracker of the first non-empty list that can hold a request, `Put` gives a range back
and hands out a hugepage that became empty, and the counters `size_`,
`pages_allocated_`, `unmapped_`, `n_used_released_`, `n_used_partial_released_` and
`n_was_released_` follow the trackers.  `AllocAndContribute` of
`huge_page_aware_allocator.h` makes the trackers the filler receives.

Trackers are pointers `ι`; the state holds the tracker each pointer names.  A
`TC_ASSERT` is a check that fails with `none`.  The statistics (`fillerstats_tracker_`,
`subrelease_stats_`, the lifetime histograms, `treatment_stats_`), the tagging of
sampled trackers, the clock, `num_objects_` and the pagemap updates are left out.
-/

set_option autoImplicit false
set_option relaxedAutoImplicit false

namespace TCMalloc.HugePageFiller

open TCMalloc.Lib TCMalloc.Internal

/-- `AccessDensityPrediction` of `span.h`. -/
inductive AccessDensityPrediction
  | sparse
  | dense
  deriving DecidableEq, Repr

/-- `SubreleaseUnbackedMode` of `huge_pages.h`. -/
inductive SubreleaseUnbackedMode
  | disabled
  | enabled
  deriving DecidableEq, Repr

/-- The state of a `PageTracker` the filler reads and writes: its pages (`free_`,
`released_by_page_`, `released_count_`), `location_`, `donated_`, `was_donated_`,
`was_released_`, `unbroken_`, `has_dense_spans_`, and whether `DontFreeTracker()`. -/
structure Tracker (N : Nat) extends PageTracker N where
  location : Nat
  donated : Bool
  wasDonated : Bool
  wasReleased : Bool
  unbroken : Bool
  hasDenseSpans : Bool
  dontFreeTracker : Bool

namespace Tracker

variable {N : Nat}

/-- `PageTracker(HugePage p, bool was_donated, double now)`. -/
def new (p : Nat) (wasDonated : Bool) : Tracker N :=
  { toPageTracker := PageTracker.init, location := p, donated := false, wasDonated,
    wasReleased := false, unbroken := true, hasDenseSpans := false, dontFreeTracker := false }

/-- `longest_free_range()`. -/
def longestFreeRange (t : Tracker N) : Nat := t.free.longestFree

/-- `nallocs()`. -/
def nallocs (t : Tracker N) : Nat := t.free.nallocs

/-- `used_pages()`. -/
def usedPages (t : Tracker N) : Nat := t.free.nused

/-- `released_pages()`. -/
def releasedPages (t : Tracker N) : Nat := t.releasedCount

/-- `free_pages()`: `kPagesPerHugePage - used_pages()`. -/
def freePages (t : Tracker N) : Nat := N - t.usedPages

/-- `released()`: some page was returned to the OS. -/
def released (t : Tracker N) : Bool := decide (0 < t.releasedCount)

/-- `empty()`: no page is used. -/
def empty (t : Tracker N) : Bool := t.usedPages == 0

/-- `pt->HasDenseSpans() ? kDense : kSparse`. -/
def density (t : Tracker N) : AccessDensityPrediction := if t.hasDenseSpans then .dense else .sparse

end Tracker

/-- `kChunks`: the lists of one longest free range, by number of allocations. -/
def kChunks : Nat := 8

/-- `kNumLists = kPagesPerHugePage * kChunks`. -/
def kNumLists (N : Nat) : Nat := N * kChunks

/-- `__builtin_clzl(x)` of a 64-bit word `0 < x`: the zero bits above its highest set bit. -/
def clzl (x : Nat) : Nat := if x = 0 then 64 else 63 - Nat.log2 x

/-- `kOffset` of `IndexFor`: `__builtin_clzl(1) - (kChunks - 1)`. -/
def kOffset : Nat := clzl 1 - (kChunks - 1)

/-- The chunk `IndexFor` gives `na` allocations: `max(__builtin_clzl(2 * na - 1),
kOffset) - kOffset`, in `size_t` arithmetic.  Irreducible, so that unification never
unfolds its arithmetic modulo `2 ^ 64`. -/
@[irreducible] def chunkOf (na : Nat) : Nat := max (clzl ((2 * na + 2 ^ 64 - 1) % 2 ^ 64)) kOffset - kOffset

theorem kOffset_eq : kOffset = 56 := by decide

theorem chunkOf_lt (na : Nat) : chunkOf na < kChunks := by
  have hodd : (2 * na + 2 ^ 64 - 1) % 2 ^ 64 ≠ 0 := by omega
  have hclz : clzl ((2 * na + 2 ^ 64 - 1) % 2 ^ 64) ≤ 63 := by
    unfold clzl
    rw [if_neg hodd]
    omega
  unfold chunkOf kChunks
  rw [kOffset_eq]
  omega

variable {N : Nat}

/-- `IndexFor(pt)`: `0` for dense trackers, and the chunk of the number of allocations
otherwise. -/
def indexFor (t : Tracker N) : Option Nat :=
  check (t.empty = false) <|
    if t.hasDenseSpans then some 0
    else check (chunkOf t.nallocs < kChunks) (some (chunkOf t.nallocs))

/-- `SparseListFor(longest, chunk)`. -/
def sparseListFor (N longest chunk : Nat) : Option Nat :=
  check (longest < N) (some (longest * kChunks + chunk))

/-- `DenseListFor(chunk, nallocs)`. -/
def denseListFor (N chunk nallocs : Nat) : Option Nat :=
  check (nallocs ≤ N) (some ((N - nallocs) * kChunks + chunk))

/-- `ListFor(longest, chunk, density, nallocs)`. -/
def listFor (N longest chunk : Nat) (density : AccessDensityPrediction) (nallocs : Nat) : Option Nat :=
  check (chunk < kChunks) <|
    match density with
    | .sparse => sparseListFor N longest chunk
    | .dense => denseListFor N chunk nallocs

theorem indexFor_eq {t : Tracker N} (h : t.empty = false) :
    indexFor t = some (if t.hasDenseSpans then 0 else chunkOf t.nallocs) := by
  unfold indexFor
  rw [check_pos h]
  split
  · rfl
  · rw [check_pos (chunkOf_lt _)]

theorem listFor_sparse {longest chunk na : Nat} (hl : longest < N) (hc : chunk < kChunks) :
    listFor N longest chunk .sparse na = some (longest * kChunks + chunk) := by
  rw [listFor, check_pos hc, sparseListFor, check_pos hl]

theorem listFor_dense {longest chunk na : Nat} (hna : na ≤ N) (hc : chunk < kChunks) :
    listFor N longest chunk .dense na = some ((N - na) * kChunks + chunk) := by
  rw [listFor, check_pos hc, denseListFor, check_pos hna]

/-- The family of lists `AddToFillerList` and `RemoveFromFillerList` pick for a tracker
that is not donated. -/
inductive Family
  | regular
  | released
  | partialReleased
  deriving DecidableEq, Repr

/-- The test both `AddToFillerList` and `RemoveFromFillerList` make: the regular lists
when nothing is released and the hugepage is unbroken (or subreleasing unbacked pages
is disabled), the released ones when every free page is released, and the partially
released ones otherwise. -/
def family (mode : SubreleaseUnbackedMode) (t : Tracker N) : Family :=
  if !t.released && (t.unbroken || mode == .disabled) then .regular
  else if t.freePages ≤ t.releasedPages then .released
  else .partialReleased

/-- The state of a `HugePageFiller`, with the tracker each pointer names. -/
structure Filler (ι : Type) (N : Nat) where
  tracker : ι → Tracker N
  regularAlloc : AccessDensityPrediction → HintedTrackerLists ι (kNumLists N)
  donatedAlloc : HintedTrackerLists ι N
  regularAllocPartialReleased : AccessDensityPrediction → HintedTrackerLists ι (kNumLists N)
  regularAllocReleased : AccessDensityPrediction → HintedTrackerLists ι (kNumLists N)
  fullyFreedTrackers : List ι
  nUsedReleased : AccessDensityPrediction → Nat
  nWasReleased : AccessDensityPrediction → Nat
  nUsedPartialReleased : AccessDensityPrediction → Nat
  size : Nat
  pagesAllocated : AccessDensityPrediction → Nat
  unmapped : Nat
  unmappingUnaccounted : Nat
  subreleaseUnbackedMode : SubreleaseUnbackedMode

namespace Filler

variable {ι : Type} [DecidableEq ι]

/-- The constructor: no tracker, empty lists, every counter zero. -/
def init (mode : SubreleaseUnbackedMode) : Filler ι N where
  tracker _ := Tracker.new 0 false
  regularAlloc _ := HintedTrackerLists.empty
  donatedAlloc := HintedTrackerLists.empty
  regularAllocPartialReleased _ := HintedTrackerLists.empty
  regularAllocReleased _ := HintedTrackerLists.empty
  fullyFreedTrackers := []
  nUsedReleased _ := 0
  nWasReleased _ := 0
  nUsedPartialReleased _ := 0
  size := 0
  pagesAllocated _ := 0
  unmapped := 0
  unmappingUnaccounted := 0
  subreleaseUnbackedMode := mode

/-- The filler with the tracker `pt` names replaced. -/
def setTracker (f : Filler ι N) (pt : ι) (t : Tracker N) : Filler ι N :=
  { f with tracker := Function.update f.tracker pt t }

/-- `RemoveFromFillerList(pt)`. -/
def removeFromFillerList (f : Filler ι N) (pt : ι) : Option (Filler ι N) :=
  check ((f.tracker pt).longestFreeRange < N) <|
    if (f.tracker pt).donated then
      (f.donatedAlloc.remove pt (f.tracker pt).longestFreeRange).map fun l => { f with donatedAlloc := l }
    else do
      let chunk ← indexFor (f.tracker pt)
      let i ← listFor N (f.tracker pt).longestFreeRange chunk (f.tracker pt).density (f.tracker pt).nallocs
      match family f.subreleaseUnbackedMode (f.tracker pt) with
      | .regular =>
        (((f.regularAlloc (f.tracker pt).density).remove pt i).map fun l =>
          { f with regularAlloc := Function.update f.regularAlloc (f.tracker pt).density l })
      | .released => do
        let l ← (f.regularAllocReleased (f.tracker pt).density).remove pt i
        check ((f.tracker pt).usedPages ≤ f.nUsedReleased (f.tracker pt).density) <|
          some { f with
            regularAllocReleased := Function.update f.regularAllocReleased (f.tracker pt).density l
            nUsedReleased := Function.update f.nUsedReleased (f.tracker pt).density
              (f.nUsedReleased (f.tracker pt).density - (f.tracker pt).usedPages) }
      | .partialReleased => do
        let l ← (f.regularAllocPartialReleased (f.tracker pt).density).remove pt i
        check ((f.tracker pt).usedPages ≤ f.nUsedPartialReleased (f.tracker pt).density) <|
          some { f with
            regularAllocPartialReleased :=
              Function.update f.regularAllocPartialReleased (f.tracker pt).density l
            nUsedPartialReleased := Function.update f.nUsedPartialReleased (f.tracker pt).density
              (f.nUsedPartialReleased (f.tracker pt).density - (f.tracker pt).usedPages) }

/-- The part of `AddToFillerList(pt)` after `pt->set_donated(false)`, for a tracker
that is not fully free. -/
def addToLists (f : Filler ι N) (pt : ι) : Option (Filler ι N) := do
  let chunk ← indexFor (f.tracker pt)
  let i ← listFor N (f.tracker pt).longestFreeRange chunk (f.tracker pt).density (f.tracker pt).nallocs
  match family f.subreleaseUnbackedMode (f.tracker pt) with
  | .regular =>
    ((f.regularAlloc (f.tracker pt).density).add pt i).map fun l =>
      { f with regularAlloc := Function.update f.regularAlloc (f.tracker pt).density l }
  | .released =>
    ((f.regularAllocReleased (f.tracker pt).density).add pt i).map fun l =>
      { f with
        regularAllocReleased := Function.update f.regularAllocReleased (f.tracker pt).density l
        nUsedReleased := Function.update f.nUsedReleased (f.tracker pt).density
          (f.nUsedReleased (f.tracker pt).density + (f.tracker pt).usedPages) }
  | .partialReleased =>
    ((f.regularAllocPartialReleased (f.tracker pt).density).add pt i).map fun l =>
      { f with
        regularAllocPartialReleased :=
          Function.update f.regularAllocPartialReleased (f.tracker pt).density l
        nUsedPartialReleased := Function.update f.nUsedPartialReleased (f.tracker pt).density
          (f.nUsedPartialReleased (f.tracker pt).density + (f.tracker pt).usedPages) }

/-- `AddToFillerList(pt)`: a fully free tracker goes to `fully_freed_trackers_`; any
other stops being donated and goes on the list its state selects. -/
def addToFillerList (f : Filler ι N) (pt : ι) : Option (Filler ι N) :=
  check ((f.tracker pt).longestFreeRange ≤ N) <|
    if (f.tracker pt).longestFreeRange = N then
      check ((f.tracker pt).empty = true) <| check ((f.tracker pt).dontFreeTracker = true) <|
        some { f with fullyFreedTrackers := pt :: f.fullyFreedTrackers }
    else addToLists (f.setTracker pt { f.tracker pt with donated := false }) pt

/-- `DonateToFillerList(pt)`. -/
def donateToFillerList (f : Filler ι N) (pt : ι) : Option (Filler ι N) :=
  check ((f.tracker pt).longestFreeRange < N) <| check ((f.tracker pt).released = false) <|
    (f.donatedAlloc.add pt (f.tracker pt).longestFreeRange).map fun l =>
      { (f.setTracker pt { f.tracker pt with donated := true }) with donatedAlloc := l }

/-- `Contribute(pt, donated, span_alloc_info)`. -/
def contribute (f : Filler ι N) (pt : ι) (donated : Bool) (density : AccessDensityPrediction) :
    Option (Filler ι N) :=
  check ((f.tracker pt).releasedPages = 0) <|
    check (¬(density = .dense ∧ donated = true)) <| do
      let f := { f with
        pagesAllocated := Function.update f.pagesAllocated density
          (f.pagesAllocated density + (f.tracker pt).usedPages) }
      let f ← if donated then check ((f.tracker pt).wasDonated = true) (donateToFillerList f pt)
        else if density = .dense then
          addToFillerList (f.setTracker pt { f.tracker pt with hasDenseSpans := true }) pt
        else addToFillerList f pt
      some { f with size := f.size + 1 }

/-- The result of `TryGet`: the tracker, the first page of the range, and whether it
came from a released hugepage; `none` is `{nullptr, PageId{0}, false}`. -/
abbrev TryGetResult (ι : Type) := Option (ι × Nat × Bool)

/-- The part of `TryGet(n, span_alloc_info)` after the search, once it took `pt` off its
list (`wasReleased` when from a released or partially released one). -/
def tryGetFrom (f : Filler ι N) (n : Nat) (density : AccessDensityPrediction) (pt : ι)
    (wasReleased : Bool) : Option (TryGetResult ι × Filler ι N) :=
  check (n ≤ (f.tracker pt).longestFreeRange) <|
    check (density = .sparse ∨ (f.tracker pt).hasDenseSpans = true) <| do
      let (index, unbacked, pages) ← (f.tracker pt).toPageTracker.get n
      let f ← addToFillerList (f.setTracker pt { f.tracker pt with toPageTracker := pages }) pt
      let f := { f with
        pagesAllocated := Function.update f.pagesAllocated density (f.pagesAllocated density + n) }
      -- a hugepage taken from a released list that is now backed again
      let f : Filler ι N := if wasReleased && !(f.tracker pt).released && !(f.tracker pt).wasReleased then
          { (f.setTracker pt { f.tracker pt with wasReleased := true }) with
            nWasReleased := Function.update f.nWasReleased density (f.nWasReleased density + 1) }
        else f
      check (wasReleased = true ∨ unbacked = 0) <| check (unbacked ≤ f.unmapped) <|
        check ((f.tracker pt).donated = false) <|
          some (some (pt, (f.tracker pt).location * N + index, wasReleased),
            { f with unmapped := f.unmapped - unbacked })

/-- `TryGet(n, span_alloc_info)`: the regular lists of the density, then (for sparse
requests) the donated lists, then the partially released and the released lists,
each from the first list that can hold `n` pages. -/
def tryGet (f : Filler ι N) (n : Nat) (density : AccessDensityPrediction) :
    Option (TryGetResult ι × Filler ι N) :=
  check (0 < n) <| check (density = .sparse ∨ n = 1) <| check (n < N) <| do
    let listindex ← listFor N n 0 density (N - 1)
    match ← (f.regularAlloc density).getLeast listindex with
    | (some pt, l) =>
      check ((f.tracker pt).donated = false) <|
        tryGetFrom { f with regularAlloc := Function.update f.regularAlloc density l } n density pt false
    | (none, _) =>
      let donated : Option (Option (ι × HintedTrackerLists ι N)) :=
        if density = .sparse then
          (f.donatedAlloc.getLeast n).map fun r => r.1.map fun pt => (pt, r.2)
        else some none
      match ← donated with
      | some (pt, l) => tryGetFrom { f with donatedAlloc := l } n density pt false
      | none =>
        match ← (f.regularAllocPartialReleased density).getLeast listindex with
        | (some pt, l) =>
          check ((f.tracker pt).donated = false) <|
            check ((f.tracker pt).usedPages ≤ f.nUsedPartialReleased density) <|
              tryGetFrom { f with
                regularAllocPartialReleased := Function.update f.regularAllocPartialReleased density l
                nUsedPartialReleased := Function.update f.nUsedPartialReleased density
                  (f.nUsedPartialReleased density - (f.tracker pt).usedPages) } n density pt true
        | (none, _) =>
          match ← (f.regularAllocReleased density).getLeast listindex with
          | (some pt, l) =>
            check ((f.tracker pt).donated = false) <|
              check ((f.tracker pt).usedPages ≤ f.nUsedReleased density) <|
                tryGetFrom { f with
                  regularAllocReleased := Function.update f.regularAllocReleased density l
                  nUsedReleased := Function.update f.nUsedReleased density
                    (f.nUsedReleased density - (f.tracker pt).usedPages) } n density pt true
          | (none, _) => some (none, f)

/-- The part of `Put(pt, r, span_alloc_info)` for a hugepage that became fully free:
`size_`, `unmapped_` (and `unmapping_unaccounted_`, when the rest of a partially
released hugepage is unbacked) and `n_was_released_` let go of it.  `unbackOk` is the
success of `unback_without_lock_`. -/
def putEmptied (f : Filler ι N) (pt : ι) (unbackOk : Bool) : Option (Filler ι N) :=
  check ((f.tracker pt).nallocs = 0) <| do
    let f := { f with size := f.size - 1 }
    let f ← if (f.tracker pt).released then
        check ((f.tracker pt).releasedPages ≤ (f.tracker pt).freePages) <|
          check ((f.tracker pt).releasedPages ≤ f.unmapped) <|
            some { f with
              unmapped := f.unmapped - (f.tracker pt).releasedPages
              unmappingUnaccounted :=
                if (f.tracker pt).releasedPages < (f.tracker pt).freePages && unbackOk then
                  f.unmappingUnaccounted + ((f.tracker pt).freePages - (f.tracker pt).releasedPages)
                else f.unmappingUnaccounted }
      else some f
    some (if (f.tracker pt).wasReleased then
      { (f.setTracker pt { f.tracker pt with wasReleased := false }) with
        nWasReleased := Function.update f.nWasReleased (f.tracker pt).density
          (f.nWasReleased (f.tracker pt).density - 1) }
      else f)

/-- `Put(pt, r, span_alloc_info)` of the range of `n` pages from page `p`: returns `pt`
when its hugepage became empty and may be freed. -/
def put (f : Filler ι N) (pt : ι) (p n : Nat) (unbackOk : Bool) : Option (Option ι × Filler ι N) := do
  let f ← removeFromFillerList f pt
  let f := f.setTracker pt { f.tracker pt with
    toPageTracker := (f.tracker pt).toPageTracker.put (p - (f.tracker pt).location * N) n }
  check (n ≤ f.pagesAllocated (f.tracker pt).density) <| do
    let f := { f with
      pagesAllocated := Function.update f.pagesAllocated (f.tracker pt).density
        (f.pagesAllocated (f.tracker pt).density - n) }
    if (f.tracker pt).longestFreeRange = N then
      let f ← putEmptied f pt unbackOk
      if (f.tracker pt).dontFreeTracker then (addToFillerList f pt).map fun f => (none, f)
      else some (some pt, f)
    else (addToFillerList f pt).map fun f => (none, f)

/-- `HandleReleaseFree(pt)`: the free pages of `pt` are released through `unback`; the
number of pages released. -/
def handleReleaseFree (f : Filler ι N) (pt : ι) (unback : Nat → Nat → Bool) :
    Option (Nat × Filler ι N) := do
  let f ← removeFromFillerList f pt
  let (count, pages, _) ← (f.tracker pt).toPageTracker.releaseFree unback
  let f := { (f.setTracker pt { f.tracker pt with toPageTracker := pages }) with
    unmapped := f.unmapped + count, unmappingUnaccounted := f.unmappingUnaccounted + count }
  (addToFillerList f pt).map fun f => (count, f)

/-- `HandleUnbackedHugePage(pt, unbacked)`: the free pages `unbacked` reports are marked
released, and `MarkSubreleased` marks the hugepage broken. -/
def handleUnbackedHugePage (f : Filler ι N) (pt : ι) (unbacked : Bitmap N) :
    Option (Nat × Filler ι N) := do
  let f ← removeFromFillerList f pt
  let (count, pages) := (f.tracker pt).toPageTracker.markSubreleased unbacked
  let f := { (f.setTracker pt { f.tracker pt with toPageTracker := pages, unbroken := false }) with
    unmapped := f.unmapped + count, unmappingUnaccounted := f.unmappingUnaccounted + count }
  (addToFillerList f pt).map fun f => (count, f)

/-- `OnCollapseSuccess(pt)`: a broken hugepage that was collapsed is unbroken again. -/
def onCollapseSuccess (f : Filler ι N) (pt : ι) : Option (Filler ι N) :=
  if (f.tracker pt).unbroken then some f
  else do
    let f ← removeFromFillerList f pt
    addToFillerList (f.setTracker pt { f.tracker pt with unbroken := true }) pt

/-- `FetchFullyFreedTracker()`. -/
def fetchFullyFreedTracker (f : Filler ι N) : Option ι × Filler ι N :=
  match f.fullyFreedTrackers with
  | [] => (none, f)
  | pt :: rest => (some pt, { f with fullyFreedTrackers := rest })

/-- `AllocAndContribute(p, n, span_alloc_info, donated)` of `huge_page_aware_allocator.h`:
a new tracker for hugepage `p`, the first `n` pages taken from it, and the tracker
contributed; the first page of the range. -/
def allocAndContribute (f : Filler ι N) (pt : ι) (p n : Nat) (donated : Bool)
    (density : AccessDensityPrediction) : Option (Nat × Filler ι N) :=
  check (p ≠ 0) <| check (n ≤ (Tracker.new p donated : Tracker N).longestFreeRange) <| do
    let (index, _, pages) ← (Tracker.new p donated : Tracker N).toPageTracker.get n
    check (p * N + index = p * N) <|
      (contribute (f.setTracker pt { (Tracker.new p donated : Tracker N) with toPageTracker := pages })
        pt donated density).map fun f => (p * N + index, f)

end Filler

end TCMalloc.HugePageFiller
