import Mathlib
import TCMalloc.Lib.Scan
import TCMalloc.Internal.RangeTracker

/-!
`HugeRegion` of `huge_region.h`: `H` hugepages of `P` pages each, handed out
page by page through a `RangeTracker<H * P>` and backed on demand.  Beside the
tracker the region keeps, per hugepage, how many of its pages are used and
whether it is backed, the number of backed hugepages and the number of those
that are backed but hold no used page.  Page and hugepage indices are relative
to `location_`; the region of the source has `H = kNumHugePages` and
`P = kPagesPerHugePage`.
-/

set_option autoImplicit false
set_option relaxedAutoImplicit false

namespace TCMalloc

open TCMalloc.Lib.Scan TCMalloc.Internal

structure HugeRegion (H P : Nat) where
  tracker : RangeTracker (H * P)
  pagesUsed : Nat → Nat
  backed : Nat → Bool
  nbacked : Nat
  freeBackedCount : Nat

namespace HugeRegion

variable {H P : Nat}

/-- The constructor: no page used, no hugepage backed. -/
def init : HugeRegion H P := ⟨RangeTracker.init, fun _ => 0, fun _ => false, 0, 0⟩

/-- Hugepage `i` is backed and holds no used page. -/
def freeBacked (s : HugeRegion H P) (i : Nat) : Bool := s.backed i && s.pagesUsed i == 0

/-- `used_pages()`. -/
def usedPages (s : HugeRegion H P) : Nat := s.tracker.nused

/-- `unmapped_pages()`: the pages of the hugepages that are not backed. -/
def unmappedPages (s : HugeRegion H P) : Nat := (H - s.nbacked) * P

/-- `free_pages()`. -/
def freePages (s : HugeRegion H P) : Nat := H * P - s.unmappedPages - s.usedPages

section Inc

/-- What `Inc` does to hugepage `i` before adding to `pages_used_[i]`: an
empty hugepage is taken off `free_backed_count_` if it is backed, and is
backed now otherwise. -/
def incTouch (s : HugeRegion H P) (i : Nat) (shouldBack : Bool) : HugeRegion H P × Bool :=
  if s.pagesUsed i = 0 then
    if s.backed i then ({ s with freeBackedCount := s.freeBackedCount - 1 }, shouldBack)
    else ({ s with backed := Function.update s.backed i true, nbacked := s.nbacked + 1 }, true)
  else (s, shouldBack)

/-- One iteration of the loop of `Inc`: `here` more used pages on hugepage `i`. -/
def incStep (s : HugeRegion H P) (i here : Nat) (shouldBack : Bool) : HugeRegion H P × Bool :=
  let t := incTouch s i shouldBack
  ({ t.1 with pagesUsed := Function.update t.1.pagesUsed i (t.1.pagesUsed i + here) }, t.2)

/-- The loop of `Inc(r, from_released)` over `r = [p, p + n)`, one hugepage at a
time; `fuel` bounds the iterations and `n` of them suffice. -/
def incLoop : Nat → HugeRegion H P → Nat → Nat → Bool → HugeRegion H P × Bool
  | 0, s, _, _, shouldBack => (s, shouldBack)
  | fuel + 1, s, p, n, shouldBack =>
      if n = 0 then (s, shouldBack)
      else
        let here := min n ((p / P + 1) * P - p)
        let t := incStep s (p / P) here shouldBack
        incLoop fuel t.1 (p + here) (n - here) t.2

/-- `Inc(r, &from_released)`. -/
def inc (s : HugeRegion H P) (p n : Nat) : HugeRegion H P × Bool := incLoop n s p n false

end Inc

section Unback

/-- One maximal run `[i, j)` of `should_unback` in `UnbackHugepages`: block
allocations on it, call `unback_` (its outcome is `success`), and restore the
tracker and `pages_used_`.  The number of hugepages released comes with the new
region; `none` when one of the two `TC_CHECK_EQ`s fails. -/
def unbackRun (s : HugeRegion H P) (i j : Nat) (success : Bool) : Option (HugeRegion H P × Nat) :=
  let hl := j - i
  let tracker := s.tracker.mark (i * P) (hl * P)
  let blocked : Nat → Nat := fun k => if i ≤ k ∧ k < j then P else s.pagesUsed k
  if ((List.range' i hl).map s.pagesUsed).sum ≠ 0 then none
  else
    let r : HugeRegion H P × Nat :=
      if success then
        ({ s with backed := fun k => if i ≤ k ∧ k < j then false else s.backed k
                  nbacked := s.nbacked - hl
                  freeBackedCount := s.freeBackedCount - hl }, hl)
      else ({ s with freeBackedCount := s.freeBackedCount - hl + hl }, 0)
    if ((List.range' i hl).map blocked).sum ≠ hl * P then none
    else
      some ({ r.1 with tracker := tracker.unmark (i * P) (hl * P)
                       pagesUsed := fun k => if i ≤ k ∧ k < j then 0 else blocked k }, r.2)

/-- The loop of `UnbackHugepages(should_unback)` from hugepage `i`: the new
region, the hugepages released, and the runs `(first hugepage, length)` passed
to `unback_`, whose outcome on a run is `unback`.  `fuel` bounds the iterations
and `H` of them suffice. -/
def unbackFrom (unback : Nat → Nat → Bool) (shouldUnback : Nat → Bool) :
    Nat → HugeRegion H P → Nat → Option (HugeRegion H P × Nat × List (Nat × Nat))
  | 0, s, _ => some (s, 0, [])
  | fuel + 1, s, i =>
      if H ≤ i then some (s, 0, [])
      else if !shouldUnback i then unbackFrom unback shouldUnback fuel s (i + 1)
      else
        let j := firstFrom (fun k => !shouldUnback k) (H - i) i
        match unbackRun s i j (unback i (j - i)) with
        | none => none
        | some r =>
            (unbackFrom unback shouldUnback fuel r.1 j).map fun q =>
              (q.1, r.2 + q.2.1, (i, j - i) :: q.2.2)

def unbackHugepages (s : HugeRegion H P) (shouldUnback : Nat → Bool)
    (unback : Nat → Nat → Bool) : Option (HugeRegion H P × Nat × List (Nat × Nat)) :=
  unbackFrom unback shouldUnback H s 0

end Unback

section Dec

/-- One iteration of the loop of `Dec`: `here` fewer used pages on hugepage `i`,
which is marked in `should_unback` if it is now empty. -/
def decStep (s : HugeRegion H P) (shouldUnback : Nat → Bool) (i here : Nat) :
    HugeRegion H P × (Nat → Bool) :=
  let s := { s with pagesUsed := Function.update s.pagesUsed i (s.pagesUsed i - here) }
  if s.pagesUsed i = 0 then
    ({ s with freeBackedCount := s.freeBackedCount + 1 }, Function.update shouldUnback i true)
  else (s, shouldUnback)

/-- The loop of `Dec(r, release)` over `r = [p, p + n)`: the new region and the
`should_unback` array of the hugepages this call emptied. -/
def decLoop : Nat → HugeRegion H P → (Nat → Bool) → Nat → Nat → HugeRegion H P × (Nat → Bool)
  | 0, s, shouldUnback, _, _ => (s, shouldUnback)
  | fuel + 1, s, shouldUnback, p, n =>
      if n = 0 then (s, shouldUnback)
      else
        let here := min n ((p / P + 1) * P - p)
        let t := decStep s shouldUnback (p / P) here
        decLoop fuel t.1 t.2 (p + here) (n - here)

/-- `Dec(r, release)`: the new region and the runs passed to `unback_`. -/
def dec (s : HugeRegion H P) (p n : Nat) (release : Bool) (unback : Nat → Nat → Bool) :
    Option (HugeRegion H P × List (Nat × Nat)) :=
  let r := decLoop n s (fun _ => false) p n
  if release then (unbackHugepages r.1 r.2 unback).map fun q => (q.1, q.2.2)
  else some (r.1, [])

end Dec

section Calls

/-- `MaybeGet(n, &p, &from_released)`: `some (s, none)` when it returns false,
`some (s', some (index, from_released))` with the first page relative to
`location_`, and `none` when the check in `FindAndMark` fails. -/
def maybeGet (s : HugeRegion H P) (n : Nat) : Option (HugeRegion H P × Option (Nat × Bool)) :=
  if n > s.tracker.longestFree then some (s, none)
  else
    match s.tracker.findAndMark n with
    | none => none
    | some (index, tracker) =>
        let r := inc { s with tracker } index n
        some (r.1, some (index, r.2))

/-- `Put(r, release)` of `r = [p, p + n)`: the new region and the runs passed to
`unback_`. -/
def put (s : HugeRegion H P) (p n : Nat) (release : Bool) (unback : Nat → Nat → Bool) :
    Option (HugeRegion H P × List (Nat × Nat)) :=
  dec { s with tracker := s.tracker.unmark p n } p n release unback

/-- The selection loop of `Release`: the hugepages of `order` that are backed
and unused are marked until they cover `toRelease` pages. -/
def selectFrom (s : HugeRegion H P) (toRelease : Nat) :
    List Nat → (Nat → Bool) → Nat → (Nat → Bool)
  | [], shouldUnback, _ => shouldUnback
  | i :: rest, shouldUnback, target =>
      if s.backed i && s.pagesUsed i == 0 then
        if (target + 1) * P ≥ toRelease then Function.update shouldUnback i true
        else selectFrom s toRelease rest (Function.update shouldUnback i true) (target + 1)
      else if target * P ≥ toRelease then shouldUnback
      else selectFrom s toRelease rest shouldUnback target

/-- The `should_unback` array `Release(desired, adaptive_release)` builds. -/
def releaseSelection (s : HugeRegion H P) (desired : Nat) (adaptive : Bool) : Nat → Bool :=
  selectFrom s (min desired (s.freeBackedCount * P))
    (if adaptive then (List.range H).reverse else List.range H) (fun _ => false) 0

/-- `Release(desired, adaptive_release)`: the new region, the hugepages released,
and the runs passed to `unback_`. -/
def release (s : HugeRegion H P) (desired : Nat) (adaptive : Bool) (unback : Nat → Nat → Bool) :
    Option (HugeRegion H P × Nat × List (Nat × Nat)) :=
  if desired = 0 then some (s, 0, [])
  else unbackHugepages s (s.releaseSelection desired adaptive) unback

end Calls

section SpanStats

/-- The inner loop of `AddSpanStats`: from page `p` of hugepage `i`, the part of
the `n` free pages left that lies in hugepages backed as `backed` says. -/
def truncateLoop (s : HugeRegion H P) (backed : Bool) : Nat → Nat → Nat → Nat → Nat → Nat
  | 0, _, _, _, truncated => truncated
  | fuel + 1, p, n, i, truncated =>
      if n > 0 ∧ s.backed i = backed then
        let here := min n ((i + 1) * P - p)
        truncateLoop s backed fuel (p + here) (n - here) (i + 1) (truncated + here)
      else truncated

/-- The outer loop of `AddSpanStats` from page `index`: the free pages counted in
backed hugepages (`f`) and in unbacked ones (`u`). -/
def spanStatsFrom (s : HugeRegion H P) : Nat → Nat → Nat × Nat → Nat × Nat
  | 0, _, fu => fu
  | fuel + 1, index, fu =>
      match s.tracker.bits.nextFreeRange index with
      | none => fu
      | some (index, n) =>
          let backed := s.backed (index / P)
          let n := truncateLoop s backed n index n (index / P) 0
          spanStatsFrom s fuel (index + n) (if backed then (fu.1 + n, fu.2) else (fu.1, fu.2 + n))

/-- `AddSpanStats` without the span histograms: `(f, u)`, or `none` when
`TC_CHECK_EQ(f, free_pages())` or `TC_CHECK_EQ(u, unmapped_pages())` fails. -/
def addSpanStats (s : HugeRegion H P) : Option (Nat × Nat) :=
  let fu := spanStatsFrom s (H * P) 0 (0, 0)
  if fu.1 ≠ s.freePages then none
  else if fu.2 ≠ s.unmappedPages then none
  else some fu

end SpanStats

end HugeRegion

end TCMalloc
