import TCMalloc.AlignedAlloc
import TCMalloc.Common
import TCMalloc.Internal.Bitmap

/-!
The free objects of a small `Span` of `span.h` and `span.cc`.  A span whose
objects are at least `kPageSize / kBitmapSize` bytes keeps them in a bitmap of
object indices; a one-page span of smaller objects keeps `ObjIdx` offsets
(in units of `kAlignment`) in three places: the `cache` array, a chain of free
objects used as hosts starting at `freelist_`, and the indices embedded in
those hosts, `host[1..]`, with `host[0]` the link to the next host.

Memory is a map from byte addresses to the `ObjIdx` stored there, so that the
host writes of `ListPushBatch` and `BuildFreelist` and the reads of
`ListPopBatch` are explicit.  Addresses are `Nat`; the casts to `uint32_t` and
`ObjIdx` are reductions modulo `2 ^ 32` and `2 ^ 16`.
-/

set_option autoImplicit false
set_option relaxedAutoImplicit false

namespace TCMalloc

open TCMalloc.Internal

/-- A build: the page configuration and whether `TCMALLOC_INTERNAL_LEGACY_LOCKING` is set. -/
structure Build where
  config : AlignedAlloc.Config
  legacyLocking : Bool
  deriving DecidableEq, Repr

namespace Build

variable (b : Build)

def kPageSize : Nat := b.config.kPageSize

/-- `Span::kCacheSize`. -/
def kCacheSize : Nat := if b.legacyLocking then 8 else 12

/-- `Span::kBitmapSize = 8 * sizeof(ObjIdx) * kCacheSize`. -/
def kBitmapSize : Nat := 8 * 2 * b.kCacheSize

end Build

/-- `kBitmapScalingDenominator`. -/
def kBitmapScalingDenominator : Nat := 1 <<< 30

/-- `Span::kListEnd`, the `ObjIdx` `-1`. -/
def kListEnd : Nat := 2 ^ 16 - 1

/-- `Span::kMaxNumPageBits`. -/
def kMaxNumPageBits : Nat := 6

/-- `Span::kLargeSpanLength`. -/
def kLargeSpanLength : Nat := (1 <<< kMaxNumPageBits) - 1

structure Span (b : Build) where
  /-- `first_page().start_uintptr()`. -/
  start : Nat
  /-- `allocated_`. -/
  allocated : Nat
  /-- `small_span_state_.cache[0, cache_size_)`. -/
  cache : List Nat
  /-- `freelist_`. -/
  freelist : Nat
  /-- `embed_count_`. -/
  embedCount : Nat
  /-- `small_span_state_.bitmap`. -/
  bitmap : Bitmap b.kBitmapSize
  /-- The `ObjIdx` stored at each byte address. -/
  mem : Nat → Nat

namespace Span

variable {b : Build}

/-- `Span::UseBitmapForSize(size)`. -/
def useBitmapForSize (b : Build) (size : Nat) : Bool := decide (size ≥ b.kPageSize / b.kBitmapSize)

/-- `Span::IsValidSizeClass(size, pages)`. -/
def isValidSizeClass (b : Build) (size pages : Nat) : Bool :=
  if pages > kLargeSpanLength then false
  else if useBitmapForSize b size then decide (pages * b.kPageSize / size ≤ b.kBitmapSize)
  else pages == 1

/-- `Span::CalcReciprocal(size)`, after `TC_ASSERT_GT(size, 0)`. -/
def calcReciprocal (size : Nat) : Nat := kBitmapScalingDenominator / size

/-- `Span::OffsetToIdx(offset, reciprocal)`, rounding to the nearest index. -/
def offsetToIdx (offset reciprocal : Nat) : Nat :=
  (offset * reciprocal + kBitmapScalingDenominator / 2) / kBitmapScalingDenominator % 2 ^ 16

/-- `Span::BitmapIdxToPtr(idx, size)`. -/
def bitmapIdxToPtr (s : Span b) (idx size : Nat) : Nat := s.start + idx * size

/-- `Span::BitmapPtrToIdx(ptr, size, reciprocal)`. -/
def bitmapPtrToIdx (s : Span b) (ptr _size reciprocal : Nat) : Nat :=
  offsetToIdx ((ptr - s.start) % 2 ^ 32) reciprocal

/-- `Span::IdxToPtr(idx, size, start)`. -/
def idxToPtr (idx start : Nat) : Nat := start + (idx <<< kAlignmentShift)

/-- `Span::PtrToIdx(ptr, size)`: the offset inside the page, in units of `kAlignment`. -/
def ptrToIdx (b : Build) (ptr : Nat) : Nat := ((ptr % b.kPageSize) >>> kAlignmentShift) % 2 ^ 16

/-- `host[k]` for the host at address `host`. -/
def hostSlot (host k : Nat) : Nat := host + 2 * k

def write (s : Span b) (addr v : Nat) : Span b := { s with mem := Function.update s.mem addr v }

@[simp] theorem write_mem (s : Span b) (addr v : Nat) : (s.write addr v).mem = Function.update s.mem addr v := rfl
@[simp] theorem write_start (s : Span b) (addr v : Nat) : (s.write addr v).start = s.start := rfl
@[simp] theorem write_allocated (s : Span b) (addr v : Nat) : (s.write addr v).allocated = s.allocated := rfl
@[simp] theorem write_cache (s : Span b) (addr v : Nat) : (s.write addr v).cache = s.cache := rfl
@[simp] theorem write_freelist (s : Span b) (addr v : Nat) : (s.write addr v).freelist = s.freelist := rfl
@[simp] theorem write_embedCount (s : Span b) (addr v : Nat) : (s.write addr v).embedCount = s.embedCount := rfl

section Bitmap

/-- `BitmapPushBatch(batch, size, reciprocal)` for pointers: each one's bit is set. -/
def bitmapPushBatch (s : Span b) (batch : List Nat) (size reciprocal : Nat) : Span b :=
  { s with bitmap := batch.foldl (fun bm ptr => bm.setBit (s.bitmapPtrToIdx ptr size reciprocal)) s.bitmap }

/-- `BitmapPushBatch(batch, size, reciprocal)` for indices. -/
def bitmapPushBatchIdx (s : Span b) (batch : List Nat) : Span b :=
  { s with bitmap := batch.foldl Bitmap.setBit s.bitmap }

/-- `BitmapPopBatch(batch, size)`: `Bitmap::PopBatch` hands out the lowest set
bits, as pointers, and `allocated_` grows by their number. -/
def bitmapPopBatch (s : Span b) (n size : Nat) : List Nat × Span b :=
  let popped := s.bitmap.popBatch n
  (popped.1.map (s.bitmapIdxToPtr · size), { s with bitmap := popped.2, allocated := s.allocated + popped.1.length })

/-- `BuildBitmap(size, count)`. -/
def buildBitmap (s : Span b) (count : Nat) : Span b :=
  { s with allocated := 0, bitmap := Bitmap.empty.setRange 0 count }

end Bitmap

section List

/-- How many objects of a batch of `n` the cache of `ListPushBatch` takes. -/
def cacheWrites (s : Span b) (n : Nat) : Nat :=
  if s.cache.length < b.kCacheSize then min (b.kCacheSize - s.cache.length) n else 0

/-- The loop of `ListPushBatch(batch, size)` for pointers, past the cache: each
object is embedded into the first host, or becomes the first host when there
is none or it is full. -/
def listPushLoop (start size : Nat) (s : Span b) : List Nat → Span b
  | [] => s
  | ptr :: batch =>
      let idx := ptrToIdx b ptr
      if s.freelist ≠ kListEnd ∧ s.embedCount ≠ size / 2 - 1 then
        let host := idxToPtr s.freelist start
        listPushLoop start size
          ({ s.write (hostSlot host (s.embedCount + 1)) idx with embedCount := s.embedCount + 1 }) batch
      else listPushLoop start size ({ s.write ptr s.freelist with freelist := idx, embedCount := 0 }) batch

/-- `ListPushBatch(batch, size)` for pointers; the span start is read off the
first pointer past the cache, `ptr & ~(kPageSize - 1)`. -/
def listPushBatch (s : Span b) (batch : List Nat) (size : Nat) : Span b :=
  let writes := s.cacheWrites batch.length
  let s := { s with cache := s.cache ++ (batch.take writes).map (ptrToIdx b) }
  match batch.drop writes with
  | [] => s
  | p :: rest => listPushLoop (p - p % b.kPageSize) size s (p :: rest)

/-- The loop of `ListPushBatch(batch, size)` for indices, on its locals `freelist`,
`embed_count` and `host`. -/
def listPushIdxLoop (start limit : Nat) : Span b → Nat → Nat → Nat → List Nat → Span b
  | s, freelist, embedCount, _, [] => { s with freelist := freelist, embedCount := embedCount }
  | s, freelist, embedCount, host, idx :: batch =>
      if embedCount ≠ limit then
        listPushIdxLoop start limit (s.write (hostSlot host (embedCount + 1)) idx) freelist (embedCount + 1) host batch
      else
        let newHost := idxToPtr idx start
        listPushIdxLoop start limit (s.write newHost freelist) idx 0 newHost batch

def listPushBatchIdx (s : Span b) (batch : List Nat) (size : Nat) : Span b :=
  let writes := s.cacheWrites batch.length
  let s := { s with cache := s.cache ++ batch.take writes }
  match batch.drop writes with
  | [] => s
  | idx :: rest =>
      let start := s.start
      let limit := size / 2 - 1
      if s.freelist ≠ kListEnd then
        listPushIdxLoop start limit s s.freelist s.embedCount (idxToPtr s.freelist start) (idx :: rest)
      else
        let host := idxToPtr idx start
        listPushIdxLoop start limit (s.write host kListEnd) idx 0 host rest

/-- The `while (result < N)` loop of `ListPopBatch(batch, N, size)`, past the
cache: the indices it pops, from the embedded ones of the first host down to
the host itself.  Each round pops at least one object, so `N` rounds suffice. -/
def listPopLoop (size N : Nat) : Nat → Span b → List Nat → List Nat × Span b
  | 0, s, out => (out, s)
  | fuel + 1, s, out =>
      if out.length < N then
        if s.freelist = kListEnd then (out, s)
        else
          let host := idxToPtr s.freelist s.start
          let iter := if out.length + s.embedCount > N then N - out.length else s.embedCount
          let out := out ++ (List.range iter).map fun i => idxToPtr (s.mem (hostSlot host (s.embedCount - i))) s.start
          if out.length = N then (out, { s with embedCount := s.embedCount - iter })
          else listPopLoop size N fuel { s with freelist := s.mem host, embedCount := size / 2 - 1 } (out ++ [host])
      else (out, s)

/-- `ListPopBatch(batch, N, size)`: the cache first, from its top, then the
hosts; `allocated_` grows by the number popped. -/
def listPopBatch (s : Span b) (N size : Nat) : List Nat × Span b :=
  let reads := min s.cache.length N
  let fromCache := (List.range reads).map fun i => idxToPtr (s.cache.getD (s.cache.length - i - 1) 0) s.start
  let s := { s with cache := s.cache.take (s.cache.length - reads) }
  let popped := listPopLoop size N N s fromCache
  (popped.1, { popped.2 with allocated := popped.2.allocated + popped.1.length })

end List

/-- `FreelistPushBatch(batch, size, reciprocal)`: `false`, changing nothing,
when the batch is the span's last outstanding one. -/
def freelistPushBatch (s : Span b) (batch : List Nat) (size reciprocal : Nat) : Bool × Span b :=
  if s.allocated = batch.length then (false, s)
  else
    let s := { s with allocated := s.allocated - batch.length }
    if useBitmapForSize b size then (true, s.bitmapPushBatch batch size reciprocal)
    else (true, s.listPushBatch batch size)

/-- `FreelistPushBatch(batch, size, reciprocal)` for a batch of `ObjIdx`. -/
def freelistPushBatchIdx (s : Span b) (batch : List Nat) (size : Nat) : Bool × Span b :=
  if s.allocated = batch.length then (false, s)
  else
    let s := { s with allocated := s.allocated - batch.length }
    if useBitmapForSize b size then (true, s.bitmapPushBatchIdx batch)
    else (true, s.listPushBatchIdx batch size)

def freelistPopBatch (s : Span b) (n size : Nat) : List Nat × Span b :=
  if useBitmapForSize b size then s.bitmapPopBatch n size else s.listPopBatch n size

/-- The cache loop of `BuildFreelist`: indices from `idx` on, below `idxEnd`, into the cache slots. -/
def buildCacheLoop (b : Build) (idxStep idxEnd : Nat) : Nat → Nat → List Nat → Nat × List Nat
  | 0, idx, cache => (idx, cache)
  | fuel + 1, idx, cache =>
      if idx < idxEnd ∧ cache.length < b.kCacheSize then
        buildCacheLoop b idxStep idxEnd fuel (idx + idxStep) (cache ++ [idx])
      else (idx, cache)

/-- The host loop of `BuildFreelist`: hosts taken from the front at `idx`,
indices embedded from the back at `idxEnd`.  Each round moves one of them by
`idxStep`, so `count` rounds suffice. -/
def buildHostLoop (idxStep maxEmbed : Nat) :
    Nat → Span b → Option Nat → Nat → Nat → Nat → Span b × Nat
  | 0, s, _, embedCount, _, _ => (s, embedCount)
  | fuel + 1, s, host, embedCount, idx, idxEnd =>
      if idx < idxEnd then
        match host.filter fun _ => embedCount != maxEmbed with
        | some h =>
            buildHostLoop idxStep maxEmbed fuel (s.write (hostSlot h (embedCount + 1)) (idxEnd - idxStep)) host
              (embedCount + 1) idx (idxEnd - idxStep)
        | none =>
            let h := idxToPtr idx s.start
            buildHostLoop idxStep maxEmbed fuel { s.write h s.freelist with freelist := idx } (some h) 0
              (idx + idxStep) idxEnd
      else (s, embedCount)

/-- `BuildFreelist(size, count, batch)`: the objects handed out, and the span. -/
def buildFreelist (s : Span b) (size count batchSize : Nat) : List Nat × Span b :=
  let s := { s with freelist := kListEnd }
  if useBitmapForSize b size then (s.buildBitmap count).bitmapPopBatch batchSize size
  else
    let result := min batchSize count
    let out := (List.range result).map fun i => s.start + i * size
    let s := { s with allocated := result }
    let idxStep := size / kAlignment
    let idxEnd := count * idxStep
    let (idx, cache) := buildCacheLoop b idxStep idxEnd b.kCacheSize (idxStep * result) []
    let s := { s with cache := cache }
    let (s, embedCount) := buildHostLoop idxStep (size / 2 - 1) count s none 0 idx idxEnd
    (out, { s with embedCount := embedCount })

end Span

end TCMalloc
