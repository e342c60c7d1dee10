import Mathlib
import TCMalloc.Lib.Run
import TCMalloc.Lib.RunLength
import TCMalloc.Internal.BitmapWords
import TCMalloc.Internal.PageFlags

/-!
The per-hugepage bitmaps of `residency.cc` and `pageflags.cc`: one read of the
`kHardwarePagesInHugePage` entries of a hugepage, and one bit per native page in a
`Bitmap<kMaxResidencyBits>` (the word-level `BitmapWords.Words`).
`ResidencyPageMap::GetUnbackedAndSwappedBitmaps` sets, for each page that is not
present, its bit in `page_swapped` or `page_unbacked`;
`PageFlags::GetSinglePageBitmaps` resolves a tail page to the flags of the last head page
read and marks each maximal run of stale pages with one `SetRange`.  Both bitmaps are
exact, and agree with what `Get` counts over the same hugepage.
-/

set_option autoImplicit false
set_option relaxedAutoImplicit false

namespace TCMalloc.Internal.HugePageBitmaps

open TCMalloc.Lib TCMalloc.Internal.BitmapWords TCMalloc.Internal.Pagemap

/-- The `absl::StatusCode`s these functions return. -/
inductive StatusCode
  | ok
  | failedPrecondition
  | unavailable
  deriving DecidableEq, Repr

/-- `kMaxResidencyBits`, the width of `ResidencyBitmap`. -/
def kMaxResidencyBits : Nat := 512

/-- The entries `signal_safe_read` puts in `buf_`: those of the hugepage at `addr`. -/
def hugePageEntries (file : List UInt64) (P addr : Nat) : List UInt64 :=
  (file.drop (seek P addr)).take (PageFlags.kPagesInHugePage P)

/-! ### `ResidencyPageMap::GetUnbackedAndSwappedBitmaps` -/

/-- `Residency::SinglePageBitmaps`. -/
structure SinglePageBitmaps where
  unbacked : Words kMaxResidencyBits
  swapped : Words kMaxResidencyBits
  status : StatusCode

/-- One pass of the loop, at `native_page_idx = i`: a page that is not present is set in
`page_swapped` if it is swapped, in `page_unbacked` otherwise. -/
def residencyStep (buf : List UInt64) (bm : Words kMaxResidencyBits × Words kMaxResidencyBits)
    (i : Nat) : Option (Words kMaxResidencyBits × Words kMaxResidencyBits) :=
  if !Residency.pagePresent (entry buf i) then
    if Residency.pageSwapped (entry buf i) then (setBit bm.2 i).map fun r => (bm.1, r.2)
    else (setBit bm.1 i).map fun r => (r.2, bm.2)
  else some bm

/-- `GetUnbackedAndSwappedBitmaps(addr)` on the pagemap `file` (`none` when it could not be
opened, where `Seek` fails), with the page size `P`. -/
def getUnbackedAndSwappedBitmaps (file : Option (List UInt64)) (P addr : Nat) :
    Option SinglePageBitmaps :=
  if addr &&& PageFlags.kHugePageMask ≠ addr then some ⟨empty, empty, .failedPrecondition⟩
  else
    match file with
    | none => some ⟨empty, empty, .unavailable⟩
    | some file =>
      match readEntries file (seek P addr) (PageFlags.kPagesInHugePage P) with
      | none => some ⟨empty, empty, .unavailable⟩
      | some buf =>
        ((List.range (PageFlags.kPagesInHugePage P)).foldlM (residencyStep buf) (empty, empty)).map
          fun bm => ⟨bm.1, bm.2, .ok⟩

/-- The pages below `K` of `buf` that are not present and, as `swapped` says, swapped or
not: what `page_swapped` and `page_unbacked` hold. -/
def absentMap (buf : List UInt64) (K : Nat) (swapped : Bool) : Bitmap kMaxResidencyBits :=
  ⟨fun j => decide (j < K) && !Residency.pagePresent (entry buf j) &&
    Residency.pageSwapped (entry buf j) == swapped⟩

section Residency

variable {buf : List UInt64} {K : Nat}

theorem absentMap_succ (buf : List UInt64) (i : Nat) (swapped : Bool) :
    absentMap buf (i + 1) swapped =
      ⟨fun j => if j = i then !Residency.pagePresent (entry buf i) &&
        Residency.pageSwapped (entry buf i) == swapped else (absentMap buf i swapped).bits j⟩ := by
  ext j
  unfold absentMap
  by_cases hj : j = i
  · subst hj
    simp
  · simp only [hj, if_false, Nat.lt_succ_iff_lt_or_eq, or_false]

theorem absentMap_succ_of_not {i : Nat} {swapped : Bool}
    (h : (!Residency.pagePresent (entry buf i) && Residency.pageSwapped (entry buf i) == swapped) = false) :
    absentMap buf (i + 1) swapped = absentMap buf i swapped := by
  rw [absentMap_succ]
  ext j
  dsimp only
  split
  · subst_vars
    rw [h]
    simp [absentMap]
  · rfl

theorem absentMap_succ_of {i : Nat} {swapped : Bool}
    (h : (!Residency.pagePresent (entry buf i) && Residency.pageSwapped (entry buf i) == swapped) = true) :
    absentMap buf (i + 1) swapped = (absentMap buf i swapped).setBit i := by
  rw [absentMap_succ]
  ext j
  simp only [Bitmap.setBit_bits]
  split
  · exact h
  · rfl

theorem residencyStep_refines (hK : K ≤ kMaxResidencyBits) {i : Nat} (hi : i < K)
    {bm : Words kMaxResidencyBits × Words kMaxResidencyBits}
    (h : Refines bm.1 (absentMap buf i false) ∧ Refines bm.2 (absentMap buf i true)) :
    ∃ bm', residencyStep buf bm i = some bm' ∧
      (Refines bm'.1 (absentMap buf (i + 1) false) ∧ Refines bm'.2 (absentMap buf (i + 1) true)) := by
  have hiN : i < kMaxResidencyBits := by omega
  unfold residencyStep
  cases hp : Residency.pagePresent (entry buf i) with
  | true =>
    -- a present page is in neither map
    refine ⟨bm, rfl, ?_, ?_⟩
    · rw [absentMap_succ_of_not (by rw [hp]; rfl)]
      exact h.1
    · rw [absentMap_succ_of_not (by rw [hp]; rfl)]
      exact h.2
  | false =>
    cases hs : Residency.pageSwapped (entry buf i) with
    | true =>
      obtain ⟨b', hset, hb'⟩ := setBit_refines h.2 hiN
      refine ⟨(bm.1, b'), by simp [hset], ?_, ?_⟩
      · rw [absentMap_succ_of_not (by rw [hp, hs]; rfl)]
        exact h.1
      · rw [absentMap_succ_of (by rw [hp, hs]; rfl)]
        exact hb'
    | false =>
      obtain ⟨b', hset, hb'⟩ := setBit_refines h.1 hiN
      refine ⟨(b', bm.2), by simp [hset], ?_, ?_⟩
      · rw [absentMap_succ_of (by rw [hp, hs]; rfl)]
        exact hb'
      · rw [absentMap_succ_of_not (by rw [hp, hs]; rfl)]
        exact h.2

theorem absentMap_zero (buf : List UInt64) (swapped : Bool) : absentMap buf 0 swapped = Bitmap.empty := by
  ext j
  simp [absentMap]

theorem residencyLoop_refines (buf : List UInt64) (hK : K ≤ kMaxResidencyBits) :
    ∃ bm, (List.range K).foldlM (residencyStep buf) (empty, empty) = some bm ∧
      Refines bm.1 (absentMap buf K false) ∧ Refines bm.2 (absentMap buf K true) := by
  refine foldlM_range_invariant
    (fun i bm => Refines bm.1 (absentMap buf i false) ∧ Refines bm.2 (absentMap buf i true))
    (residencyStep buf) K (fun i bm hi h => residencyStep_refines hK hi h) ?_
  rw [absentMap_zero, absentMap_zero]
  exact ⟨refines_empty, refines_empty⟩

theorem and_kHugePageMask_of_aligned {addr : Nat} (haddr : addr < 2 ^ 64)
    (halign : addr % PageFlags.kHugePageSize = 0) : addr &&& PageFlags.kHugePageMask = addr := by
  rw [PageFlags.kHugePageMask, PageFlags.kHugePageSize,
    Lib.Align.and_two_pow_sub_two_pow (by decide) haddr]
  exact Nat.div_mul_cancel (Nat.dvd_of_mod_eq_zero halign)

end Residency

theorem getUnbackedAndSwappedBitmaps_of_read {file : List UInt64} {P addr : Nat}
    (haddr : addr < 2 ^ 64) (halign : addr % PageFlags.kHugePageSize = 0)
    (hread : seek P addr + PageFlags.kPagesInHugePage P ≤ file.length) :
    getUnbackedAndSwappedBitmaps (some file) P addr =
      ((List.range (PageFlags.kPagesInHugePage P)).foldlM (residencyStep (hugePageEntries file P addr))
        (empty, empty)).map fun bm => ⟨bm.1, bm.2, .ok⟩ := by
  rw [getUnbackedAndSwappedBitmaps, if_neg (by rw [and_kHugePageMask_of_aligned haddr halign]; simp),
    readEntries_of_le hread]
  rfl

/-- For a hugepage-aligned address whose entries can be read, and native pages no more
than the bitmaps hold (`ResidencyPageMap`'s constructor checks it), the call succeeds and
`page_unbacked` and `page_swapped` hold exactly the pages of the hugepage that are not
present and not swapped, resp. not present and swapped. -/
theorem getUnbackedAndSwappedBitmaps_eq {file : List UInt64} {P addr : Nat}
    (hK : PageFlags.kPagesInHugePage P ≤ kMaxResidencyBits) (haddr : addr < 2 ^ 64)
    (halign : addr % PageFlags.kHugePageSize = 0)
    (hread : seek P addr + PageFlags.kPagesInHugePage P ≤ file.length) :
    ∃ unbacked swapped, getUnbackedAndSwappedBitmaps (some file) P addr =
        some ⟨unbacked, swapped, .ok⟩ ∧
      Refines unbacked (absentMap (hugePageEntries file P addr) (PageFlags.kPagesInHugePage P) false) ∧
      Refines swapped (absentMap (hugePageEntries file P addr) (PageFlags.kPagesInHugePage P) true) := by
  obtain ⟨bm, hloop, hu, hs⟩ :=
    residencyLoop_refines (hugePageEntries file P addr) hK
  refine ⟨bm.1, bm.2, ?_, hu, hs⟩
  rw [getUnbackedAndSwappedBitmaps_of_read haddr halign hread, hloop, Option.map_some]

/-- A hugepage of four pages of 512 KiB: present, swapped, unbacked, present. -/
def mixedPagemap : List UInt64 := [Residency.pmPresent, Residency.pmSwap, 0, Residency.pmPresent]

theorem getUnbackedAndSwappedBitmaps_eq_mixed :
    ∃ unbacked swapped, getUnbackedAndSwappedBitmaps (some mixedPagemap) (2 ^ 19) 0 =
        some ⟨unbacked, swapped, .ok⟩ ∧
      Refines unbacked (absentMap (hugePageEntries mixedPagemap (2 ^ 19) 0)
        (PageFlags.kPagesInHugePage (2 ^ 19)) false) ∧
      Refines swapped (absentMap (hugePageEntries mixedPagemap (2 ^ 19) 0)
        (PageFlags.kPagesInHugePage (2 ^ 19)) true) :=
  getUnbackedAndSwappedBitmaps_eq (by decide) (by decide) (by decide) (by decide)

/-! ### `PageFlags::GetSinglePageBitmaps` -/

/-- `PageFlagsBase::PageFlagsBitmaps`. -/
structure PageFlagsBitmaps where
  stale : Words kMaxResidencyBits
  status : StatusCode

/-- The locals of the loop: `last_head_read_`, `stale_start` (`none` for `-1`) and
`ret.stale`. -/
structure StaleScan where
  lastHead : UInt64
  staleStart : Option Nat
  stale : Words kMaxResidencyBits

/-- `last_head_read_` after the entry `flags`. -/
def headAfter (flags lastHead : UInt64) : UInt64 := if PageFlags.pageHead flags then flags else lastHead

/-- The flags the entry `flags` counts with once `last_head_read_` is `lastHead`: a tail
page's are the last head's. -/
def flagsWith (flags lastHead : UInt64) : UInt64 :=
  if PageFlags.pageTail flags then headAfter flags lastHead else flags

/-- One pass of the loop at entry `i`: a tail page with no head read before it returns
`ret` with `kFailedPrecondition` (`.error` with the bitmap so far); any other page goes,
stale or not, to the marking of the runs of stale pages. -/
def staleStep (buf : List UInt64) (s : StaleScan) (i : Nat) :
    Option (Except (Words kMaxResidencyBits) StaleScan) :=
  if PageFlags.pageTail (entry buf i) ∧ headAfter (entry buf i) s.lastHead = PageFlags.noHead then
    some (.error s.stale)
  else
    (RunLength.pass setRange i (PageFlags.pageStale (flagsWith (entry buf i) s.lastHead))
        (s.staleStart, s.stale)).map
      fun r => .ok ⟨headAfter (entry buf i) s.lastHead, r.1, r.2⟩

/-- A pass of the loop; once it has returned, the passes after it do nothing. -/
def staleLoopStep (buf : List UInt64) :
    Except (Words kMaxResidencyBits) StaleScan → Nat → Option (Except (Words kMaxResidencyBits) StaleScan)
  | .error stale, _ => some (.error stale)
  | .ok s, i => staleStep buf s i

/-- `GetSinglePageBitmaps(addr)` on the pageflags `file` (`none` when it could not be
opened, `fd_ < 0`), with the page size `P`. -/
def getSinglePageBitmaps (file : Option (List UInt64)) (P addr : Nat) : Option PageFlagsBitmaps :=
  if addr &&& (PageFlags.kHugePageSize - 1) ≠ 0 then some ⟨empty, .failedPrecondition⟩
  else
    match file with
    | none => some ⟨empty, .unavailable⟩
    | some file =>
      match readEntries file (seek P addr) (PageFlags.kPagesInHugePage P) with
      | none => some ⟨empty, .unavailable⟩
      | some buf =>
        match (List.range (PageFlags.kPagesInHugePage P)).foldlM (staleLoopStep buf)
            (.ok ⟨PageFlags.noHead, none, empty⟩) with
        | none => none
        | some (.error stale) => some ⟨stale, .failedPrecondition⟩
        | some (.ok s) =>
          -- `if (stale_start != -1) ret.stale.SetRange(stale_start, K - stale_start);`
          (RunLength.finish setRange (PageFlags.kPagesInHugePage P) (s.staleStart, s.stale)).map
            fun stale => ⟨stale, .ok⟩

/-- `last_head_read_` after the entries below `n`: the last head page among them, or `-1`. -/
def lastHeadBelow (buf : List UInt64) : Nat → UInt64
  | 0 => PageFlags.noHead
  | n + 1 => headAfter (entry buf n) (lastHeadBelow buf n)

/-- Page `i` is a tail page with no head page at or before it (a head whose flags read
as `-1` counts as none). -/
def orphanTail (buf : List UInt64) (i : Nat) : Bool :=
  PageFlags.pageTail (entry buf i) && lastHeadBelow buf (i + 1) == PageFlags.noHead

/-- Page `j` is stale, counting with the flags of the last head page for a tail page. -/
def staleBit (buf : List UInt64) (j : Nat) : Bool :=
  PageFlags.pageStale (flagsWith (entry buf j) (lastHeadBelow buf j))

/-- The stale pages below `K`. -/
def staleMap (buf : List UInt64) (K : Nat) : Bitmap kMaxResidencyBits := ⟨RunLength.marked (staleBit buf) K⟩

section PageFlags

variable {buf : List UInt64} {K : Nat}

theorem setRange_close (hK : K ≤ kMaxResidencyBits) (out : Words kMaxResidencyBits)
    (m : Nat → Bool) (s n : Nat) (hR : Refines out ⟨m⟩) (hn : 0 < n) (hfit : s + n ≤ K) :
    ∃ out', setRange out s n = some out' ∧
      Refines out' ⟨fun j => m j || decide (s ≤ j ∧ j < s + n)⟩ := by
  obtain ⟨out', hset, hR'⟩ := setRange_refines hR hn (show s + n ≤ kMaxResidencyBits by omega)
  refine ⟨out', hset, ?_⟩
  have hm : (⟨m⟩ : Bitmap kMaxResidencyBits).setRange s n =
      ⟨fun j => m j || decide (s ≤ j ∧ j < s + n)⟩ := by
    ext j
    simp only [Bitmap.setRange_bits]
    split <;> simp_all
  rw [← hm]
  exact hR'

/-- What the loop of `GetSinglePageBitmaps` knows before entry `i`: either it goes on,
with no orphan tail page so far, `last_head_read_` the last head so far and the stale
runs marked as the run-length loop marks them, or it has returned at an orphan tail. -/
def StaleInv (buf : List UInt64) (i : Nat) : Except (Words kMaxResidencyBits) StaleScan → Prop
  | .ok s => (∀ j < i, orphanTail buf j = false) ∧ s.lastHead = lastHeadBelow buf i ∧
      RunLength.Inv (fun out m => Refines out ⟨m⟩) (staleBit buf) i (s.staleStart, s.stale)
  | .error _ => ∃ j < i, orphanTail buf j = true

theorem staleLoopStep_inv (hK : K ≤ kMaxResidencyBits) {i : Nat} (hi : i < K)
    {st : Except (Words kMaxResidencyBits) StaleScan} (h : StaleInv buf i st) :
    ∃ st', staleLoopStep buf st i = some st' ∧ StaleInv buf (i + 1) st' := by
  cases st with
  | error stale =>
    obtain ⟨j, hj, horphan⟩ := h
    exact ⟨.error stale, rfl, j, by omega, horphan⟩
  | ok s =>
    obtain ⟨hnone, hhead, hrun⟩ := h
    have hlast : lastHeadBelow buf (i + 1) = headAfter (entry buf i) s.lastHead := by
      rw [hhead]
      rfl
    by_cases horphan : PageFlags.pageTail (entry buf i) ∧
        headAfter (entry buf i) s.lastHead = PageFlags.noHead
    · -- an orphan tail page: the early return
      refine ⟨.error s.stale, by simp only [staleLoopStep, staleStep, if_pos horphan], i,
        Nat.lt_succ_self i, ?_⟩
      simp [orphanTail, horphan.1, hlast, horphan.2]
    · have hbit : PageFlags.pageStale (flagsWith (entry buf i) s.lastHead) = staleBit buf i := by
        rw [staleBit, hhead]
      obtain ⟨r, hpass, hr⟩ :=
        RunLength.pass_inv (setRange_close hK) hi (p := staleBit buf) hrun
      refine ⟨.ok ⟨headAfter (entry buf i) s.lastHead, r.1, r.2⟩, ?_, ?_, hlast.symm, hr⟩
      · rw [staleLoopStep, staleStep, if_neg horphan, hbit, hpass, Option.map_some]
      · intro j hj
        rcases Nat.lt_succ_iff_lt_or_eq.mp hj with hj | rfl
        · exact hnone j hj
        · -- entry `j` is no orphan: it is no tail, or a head was read
          simp only [orphanTail, hlast, Bool.and_eq_false_iff, beq_eq_false_iff_ne]
          by_cases htail : PageFlags.pageTail (entry buf j)
          · exact Or.inr fun h => horphan ⟨htail, h⟩
          · exact Or.inl (by simpa using htail)

theorem staleInv_zero : StaleInv buf 0 (.ok ⟨PageFlags.noHead, none, empty⟩) :=
  ⟨fun j hj => absurd hj (Nat.not_lt_zero j), rfl, RunLength.inv_zero refines_empty⟩

theorem staleLoop_inv (buf : List UInt64) (hK : K ≤ kMaxResidencyBits) :
    ∃ st, (List.range K).foldlM (staleLoopStep buf) (.ok ⟨PageFlags.noHead, none, empty⟩) = some st ∧
      StaleInv buf K st :=
  foldlM_range_invariant (StaleInv buf) (staleLoopStep buf) K
    (fun _ _ hi h => staleLoopStep_inv hK hi h) staleInv_zero

theorem and_kHugePageSize_sub_one {addr : Nat} :
    addr &&& (PageFlags.kHugePageSize - 1) = addr % PageFlags.kHugePageSize := by
  rw [PageFlags.kHugePageSize]
  exact Nat.and_two_pow_sub_one_eq_mod addr 21

variable {file : List UInt64} {P addr : Nat}

theorem getSinglePageBitmaps_of_read (halign : addr % PageFlags.kHugePageSize = 0)
    (hread : seek P addr + PageFlags.kPagesInHugePage P ≤ file.length) :
    getSinglePageBitmaps (some file) P addr =
      ((List.range (PageFlags.kPagesInHugePage P)).foldlM (staleLoopStep (hugePageEntries file P addr))
          (.ok ⟨PageFlags.noHead, none, empty⟩)).bind fun st =>
        match st with
        | .error stale => some ⟨stale, .failedPrecondition⟩
        | .ok s => (RunLength.finish setRange (PageFlags.kPagesInHugePage P) (s.staleStart, s.stale)).map
            fun stale => ⟨stale, .ok⟩ := by
  rw [getSinglePageBitmaps, if_neg (by rw [and_kHugePageSize_sub_one, halign]; simp),
    readEntries_of_le hread]
  dsimp only
  rw [← hugePageEntries]
  generalize (List.range (PageFlags.kPagesInHugePage P)).foldlM (staleLoopStep (hugePageEntries file P addr))
    (.ok ⟨PageFlags.noHead, none, empty⟩) = loop
  rcases loop with _ | _ | _ <;> rfl

theorem getSinglePageBitmaps_ok (hK : PageFlags.kPagesInHugePage P ≤ kMaxResidencyBits)
    (halign : addr % PageFlags.kHugePageSize = 0)
    (hread : seek P addr + PageFlags.kPagesInHugePage P ≤ file.length)
    (hnone : ∀ j < PageFlags.kPagesInHugePage P, orphanTail (hugePageEntries file P addr) j = false) :
    ∃ stale, getSinglePageBitmaps (some file) P addr = some ⟨stale, .ok⟩ ∧
      Refines stale (staleMap (hugePageEntries file P addr) (PageFlags.kPagesInHugePage P)) := by
  obtain ⟨st, hloop, hinv⟩ := staleLoop_inv (hugePageEntries file P addr) hK
  rw [getSinglePageBitmaps_of_read halign hread, hloop, Option.bind_some]
  cases st with
  | error stale =>
    obtain ⟨j, hj, horphan⟩ := hinv
    rw [hnone j hj] at horphan
    cases horphan
  | ok s =>
    obtain ⟨-, -, hrun⟩ := hinv
    obtain ⟨stale, hfinish, hR⟩ := RunLength.finish_inv (setRange_close hK) hrun
    refine ⟨stale, ?_, hR⟩
    dsimp only
    rw [hfinish, Option.map_some]

theorem getSinglePageBitmaps_failed (hK : PageFlags.kPagesInHugePage P ≤ kMaxResidencyBits)
    (halign : addr % PageFlags.kHugePageSize = 0)
    (hread : seek P addr + PageFlags.kPagesInHugePage P ≤ file.length)
    (horphan : ∃ j < PageFlags.kPagesInHugePage P, orphanTail (hugePageEntries file P addr) j = true) :
    ∃ stale, getSinglePageBitmaps (some file) P addr = some ⟨stale, .failedPrecondition⟩ := by
  obtain ⟨st, hloop, hinv⟩ := staleLoop_inv (hugePageEntries file P addr) hK
  rw [getSinglePageBitmaps_of_read halign hread, hloop, Option.bind_some]
  cases st with
  | error stale => exact ⟨stale, rfl⟩
  | ok s =>
    -- the loop went through, so it met no orphan tail page
    obtain ⟨hnone, -, -⟩ := hinv
    obtain ⟨j, hj, horphan⟩ := horphan
    rw [hnone j hj] at horphan
    cases horphan

end PageFlags

/-- For a hugepage-aligned address whose entries can be read, and native pages no more
than the bitmap holds, `GetSinglePageBitmaps` fails with `kFailedPrecondition` exactly
when some tail page of the hugepage has no head page read before it; otherwise it
succeeds and its bitmap holds exactly the stale pages, a tail page counting with the
flags of the last head page before it. -/
theorem getSinglePageBitmaps_spec {file : List UInt64} {P addr : Nat}
    (hK : PageFlags.kPagesInHugePage P ≤ kMaxResidencyBits)
    (halign : addr % PageFlags.kHugePageSize = 0)
    (hread : seek P addr + PageFlags.kPagesInHugePage P ≤ file.length) :
    ∃ r, getSinglePageBitmaps (some file) P addr = some r ∧
      ((∀ j < PageFlags.kPagesInHugePage P, orphanTail (hugePageEntries file P addr) j = false) →
        r.status = .ok ∧
          Refines r.stale (staleMap (hugePageEntries file P addr) (PageFlags.kPagesInHugePage P))) ∧
      ((∃ j < PageFlags.kPagesInHugePage P, orphanTail (hugePageEntries file P addr) j = true) →
        r.status = .failedPrecondition) := by
  by_cases hnone : ∀ j < PageFlags.kPagesInHugePage P, orphanTail (hugePageEntries file P addr) j = false
  · obtain ⟨stale, hcall, hR⟩ := getSinglePageBitmaps_ok hK halign hread hnone
    refine ⟨_, hcall, fun _ => ⟨rfl, hR⟩, ?_⟩
    rintro ⟨j, hj, horphan⟩
    rw [hnone j hj] at horphan
    cases horphan
  · have horphan : ∃ j < PageFlags.kPagesInHugePage P, orphanTail (hugePageEntries file P addr) j = true := by
      push Not at hnone
      obtain ⟨j, hj, h⟩ := hnone
      exact ⟨j, hj, by simpa using h⟩
    obtain ⟨stale, hcall⟩ := getSinglePageBitmaps_failed hK halign hread horphan
    exact ⟨_, hcall, fun h => absurd h hnone, fun _ => rfl⟩

theorem getSinglePageBitmaps_spec_tails :
    ∃ r, getSinglePageBitmaps (some (List.replicate 512 (PageFlags.kPageTail ||| PageFlags.kPageThp))) 4096 0 =
        some r ∧
      ((∀ j < PageFlags.kPagesInHugePage 4096, orphanTail (hugePageEntries
          (List.replicate 512 (PageFlags.kPageTail ||| PageFlags.kPageThp)) 4096 0) j = false) →
        r.status = .ok ∧ Refines r.stale (staleMap (hugePageEntries
          (List.replicate 512 (PageFlags.kPageTail ||| PageFlags.kPageThp)) 4096 0)
          (PageFlags.kPagesInHugePage 4096))) ∧
      ((∃ j < PageFlags.kPagesInHugePage 4096, orphanTail (hugePageEntries
          (List.replicate 512 (PageFlags.kPageTail ||| PageFlags.kPageThp)) 4096 0) j = true) →
        r.status = .failedPrecondition) :=
  getSinglePageBitmaps_spec (by decide) (by decide) (by rw [List.length_replicate]; decide)

/-! ### Agreement with `Get` -/

section Count

theorem entry_hugePageEntries (file : List UInt64) (P addr : Nat) {j : Nat}
    (hj : j < PageFlags.kPagesInHugePage P) :
    entry (hugePageEntries file P addr) j = entry file (seek P addr + j) := by
  unfold entry hugePageEntries
  rw [List.getD_eq_getElem?_getD, List.getD_eq_getElem?_getD, List.getElem?_take_of_lt hj,
    List.getElem?_drop]

theorem countBits_marked {N K : Nat} (p : Nat → Bool) (hK : K ≤ N) :
    (⟨RunLength.marked p K⟩ : Bitmap N).countBits = ∑ j ∈ Finset.range K, (p j).toNat := by
  rw [Bitmap.countBits, Nat.count_eq_card_filter_range, Finset.card_filter]
  obtain ⟨d, rfl⟩ : ∃ d, N = K + d := ⟨N - K, by omega⟩
  -- the bits from `K` on are clear
  have htail : ∑ x ∈ Finset.range d, (if RunLength.marked p K (K + x) = true then 1 else 0) = 0 :=
    Finset.sum_eq_zero fun x _ => by simp [RunLength.marked]
  rw [Finset.sum_range_add, htail, Nat.add_zero]
  refine Finset.sum_congr rfl fun j hj => ?_
  rw [Finset.mem_range] at hj
  simp only [RunLength.marked, hj, decide_true, Bool.true_and]
  cases p j <;> rfl

theorem absentMap_eq_marked (buf : List UInt64) (K : Nat) (swapped : Bool) :
    absentMap buf K swapped = ⟨RunLength.marked (fun j => !Residency.pagePresent (entry buf j) &&
      Residency.pageSwapped (entry buf j) == swapped) K⟩ := by
  ext j
  simp only [absentMap, RunLength.marked, Bool.and_assoc]

end Count

section Layout

open PageFlags

variable {file : List UInt64} {P addr : Nat}

theorem lastHeadBelow_of_layout (hl : ThpLayout (kPagesInHugePage P) file)
    (hbase : seek P addr % kPagesInHugePage P = 0) :
    ∀ j, 0 < j → j ≤ kPagesInHugePage P →
      lastHeadBelow (hugePageEntries file P addr) j = headAfter (entry file (seek P addr)) noHead
  | 0, h, _ => absurd h (Nat.lt_irrefl 0)
  | j + 1, _, hj => by
    rw [lastHeadBelow, entry_hugePageEntries file P addr (by omega)]
    rcases Nat.eq_zero_or_pos j with rfl | hpos
    · rfl
    · -- entry `j` lies inside the hugepage, so it is no head page
      have hnot : pageHead (entry file (seek P addr + j)) = false := by
        by_contra hhead
        have := hl.head_aligned _ (by simpa using hhead)
        rw [Nat.add_mod, hbase, Nat.zero_add, Nat.mod_mod, Nat.mod_eq_of_lt (by omega)] at this
        omega
      rw [headAfter, if_neg (by rw [hnot]; decide)]
      exact lastHeadBelow_of_layout hl hbase j hpos (by omega)

theorem staleBit_of_layout (hl : ThpLayout (kPagesInHugePage P) file)
    (hbase : seek P addr % kPagesInHugePage P = 0) {j : Nat} (hj : j < kPagesInHugePage P) :
    staleBit (hugePageEntries file P addr) j =
        pageStale (thpFlags (kPagesInHugePage P) file (seek P addr + j)) ∧
      orphanTail (hugePageEntries file P addr) j = false := by
  have hlast : lastHeadBelow (hugePageEntries file P addr) (j + 1) =
      headAfter (entry file (seek P addr)) noHead :=
    lastHeadBelow_of_layout hl hbase (j + 1) (Nat.succ_pos j) hj
  have hentry := entry_hugePageEntries file P addr hj
  have hblock : (seek P addr + j) / kPagesInHugePage P * kPagesInHugePage P = seek P addr := by
    have hK : 0 < kPagesInHugePage P := by omega
    rw [Nat.add_div_of_dvd_right (Nat.dvd_of_mod_eq_zero hbase), Nat.div_eq_of_lt hj, Nat.add_zero,
      Nat.div_mul_cancel (Nat.dvd_of_mod_eq_zero hbase)]
  by_cases htail : pageTail (entry file (seek P addr + j)) = true
  · -- a tail page counts with the head page that starts its hugepage
    have hhead : pageHead (entry file (seek P addr)) = true := by
      have := hl.tail_head _ htail
      rwa [hblock] at this
    have hfirst : headAfter (entry file (seek P addr)) noHead = entry file (seek P addr) := by
      rw [headAfter, if_pos hhead]
    have hne : entry file (seek P addr) ≠ noHead := fun h => by
      have := hl.head_not_tail _ hhead
      rw [h, pageTail_noHead] at this
      cases this
    refine ⟨?_, ?_⟩
    · rw [staleBit, flagsWith, hentry, if_pos htail, ← hentry, ← lastHeadBelow, hlast, hfirst,
        thpFlags, if_pos htail, hblock]
    · simp [orphanTail, hlast, hfirst, hne]
  · have hfalse : pageTail (entry file (seek P addr + j)) = false := by simpa using htail
    refine ⟨?_, ?_⟩
    · rw [staleBit, flagsWith, hentry, if_neg htail, thpFlags, if_neg htail]
    · simp [orphanTail, hentry, hfalse]

end Layout

section Hugepage

variable {k a : Nat}

theorem hugepage_geometry (hk12 : 12 ≤ k) (hk : k ≤ 21) (halign : a % PageFlags.kHugePageSize = 0) :
    PageFlags.kPagesInHugePage (2 ^ k) = 2 ^ (21 - k) ∧ 2 ^ (21 - k) ≤ kMaxResidencyBits ∧
      a = seek (2 ^ k) a * 2 ^ k ∧ seek (2 ^ k) a % 2 ^ (21 - k) = 0 ∧
      PageFlags.kHugePageSize = 2 ^ (21 - k) * 2 ^ k := by
  have hsize := PageFlags.hugePageSize_eq hk
  have hdvd : 2 ^ k ∣ a := by
    have h21 : 2 ^ k ∣ PageFlags.kHugePageSize := ⟨2 ^ (21 - k), by rw [hsize, Nat.mul_comm]⟩
    exact Nat.dvd_trans h21 (Nat.dvd_of_mod_eq_zero halign)
  have ha : a = seek (2 ^ k) a * 2 ^ k := (Nat.div_mul_cancel hdvd).symm
  refine ⟨PageFlags.kPagesInHugePage_pow hk, ?_, ha, ?_, hsize⟩
  · calc 2 ^ (21 - k) ≤ 2 ^ 9 := Nat.pow_le_pow_right (by decide) (by omega)
      _ = kMaxResidencyBits := rfl
  · have hmod : seek (2 ^ k) a * 2 ^ k % (2 ^ (21 - k) * 2 ^ k) = 0 := by
      rw [← ha, ← hsize, halign]
    rw [Nat.mul_mod_mul_right] at hmod
    exact (Nat.mul_eq_zero.mp hmod).resolve_right (Nat.two_pow_pos k).ne'

theorem hugepage_end (hk : k ≤ 21) (b : Nat) :
    (b * 2 ^ k + PageFlags.kHugePageSize + 2 ^ k - 1) / 2 ^ k = b + 2 ^ (21 - k) := by
  have hP := Nat.two_pow_pos k
  rw [PageFlags.hugePageSize_eq hk, ← Nat.add_mul, Nat.add_sub_assoc hP,
    Nat.add_comm ((b + 2 ^ (21 - k)) * 2 ^ k), Nat.add_mul_div_right _ _ hP,
    Nat.div_eq_of_lt (by omega), Nat.zero_add]

theorem spread_hugepage (hk12 : 12 ≤ k) (hk : k ≤ 21) (halign : a % PageFlags.kHugePageSize = 0)
    (w : Nat → Nat) :
    Lib.PageSpan.spread (2 ^ k) a PageFlags.kHugePageSize w =
      2 ^ k * ∑ j ∈ Finset.range (PageFlags.kPagesInHugePage (2 ^ k)), w (seek (2 ^ k) a + j) := by
  obtain ⟨hK, -, ha, -, hsize⟩ := hugepage_geometry hk12 hk halign
  rw [hsize, ha, Lib.PageSpan.spread_aligned (Nat.two_pow_pos k), ← ha, ← hK]

end Hugepage

/-- On a pageflags file laid out as the kernel lays out THPs, for a hugepage of native
pages of at least 4 KiB, `GetSinglePageBitmaps` succeeds, and the stale bytes `Get`
counts over the hugepage are the page size times the pages in its stale bitmap. -/
theorem getSinglePageBitmaps_agrees_with_get {file : List UInt64} {k a : Nat} (scanSeconds : Nat)
    (hk12 : 12 ≤ k) (hk : k ≤ 21) (hl : PageFlags.ThpLayout (2 ^ (21 - k)) file)
    (halign : a % PageFlags.kHugePageSize = 0)
    (hfit : a + PageFlags.kHugePageSize + 2 ^ k < 2 ^ 64)
    (hfile : a / 2 ^ k + 2 ^ (21 - k) ≤ file.length) :
    ∃ stale st, getSinglePageBitmaps (some file) (2 ^ k) a = some ⟨stale, .ok⟩ ∧
      PageFlags.get (some file) (2 ^ k) scanSeconds a PageFlags.kHugePageSize = some st ∧
      st.bytesStale = 2 ^ k * (toBitmap stale).countBits := by
  obtain ⟨hK, hK512, ha, hbase, hsize⟩ := hugepage_geometry hk12 hk halign
  have hl' : PageFlags.ThpLayout (PageFlags.kPagesInHugePage (2 ^ k)) file := by rwa [hK]
  have hbase' : seek (2 ^ k) a % PageFlags.kPagesInHugePage (2 ^ k) = 0 := by rwa [hK]
  have hbits := fun j (hj : j < PageFlags.kPagesInHugePage (2 ^ k)) => staleBit_of_layout hl' hbase' hj
  obtain ⟨stale, hcall, hR⟩ := getSinglePageBitmaps_ok (hK ▸ hK512) halign
    (by rw [hK]; exact hfile) fun j hj => (hbits j hj).2
  have hend := hugepage_end hk (seek (2 ^ k) a)
  rw [← ha] at hend
  have hget := PageFlags.get_eq hk hl scanSeconds (by rw [PageFlags.kHugePageSize]; positivity) hfit
    (by rw [hend]; exact hfile)
  refine ⟨stale, _, hcall, hget, ?_⟩
  -- both sides count the stale pages of the hugepage, page by page
  have hstale : (PageFlags.withScanSeconds scanSeconds ⟨Lib.PageSpan.spread (2 ^ k) a PageFlags.kHugePageSize
      (PageFlags.staleAt (2 ^ (21 - k)) file), Lib.PageSpan.spread (2 ^ k) a PageFlags.kHugePageSize
      (PageFlags.lockedAt (2 ^ (21 - k)) file), 0⟩).bytesStale =
      Lib.PageSpan.spread (2 ^ k) a PageFlags.kHugePageSize (PageFlags.staleAt (2 ^ (21 - k)) file) := by
    unfold PageFlags.withScanSeconds
    split <;> rfl
  rw [hstale, hR.2, staleMap, countBits_marked _ (hK ▸ hK512), spread_hugepage hk12 hk halign]
  congr 1
  refine Finset.sum_congr rfl fun j hj => ?_
  rw [Finset.mem_range] at hj
  rw [(hbits j hj).1, PageFlags.staleAt, hK]

theorem getSinglePageBitmaps_agrees_with_get_thp :
    PageFlags.ThpLayout (2 ^ (21 - 19)) PageFlags.thpObjectFile ∧
      ∃ stale st, getSinglePageBitmaps (some PageFlags.thpObjectFile) (2 ^ 19) 0 = some ⟨stale, .ok⟩ ∧
        PageFlags.get (some PageFlags.thpObjectFile) (2 ^ 19) 0 0 PageFlags.kHugePageSize = some st ∧
        st.bytesStale = 2 ^ 19 * (toBitmap stale).countBits :=
  ⟨PageFlags.thpLayout_thpObjectFile, getSinglePageBitmaps_agrees_with_get 0 (by decide) (by decide)
    PageFlags.thpLayout_thpObjectFile (by decide) (by decide) (by decide)⟩

theorem present_add_absent (e : UInt64) :
    (Residency.pagePresent e).toNat + ((!Residency.pagePresent e && Residency.pageSwapped e == false).toNat +
      (!Residency.pagePresent e && Residency.pageSwapped e == true).toNat) = 1 := by
  cases Residency.pagePresent e <;> cases Residency.pageSwapped e <;> rfl

/-- On a pagemap file holding the entries of a hugepage of native pages of at least 4 KiB,
`GetUnbackedAndSwappedBitmaps` succeeds, and the resident bytes `Get` counts over the
hugepage and the pages in its two bitmaps make up the whole hugepage, with the swapped
pages of the bitmap among those `Get` counts swapped. -/
theorem getUnbackedAndSwappedBitmaps_agrees_with_get {file : List UInt64} {k a : Nat}
    (hk12 : 12 ≤ k) (hk : k ≤ 21) (halign : a % PageFlags.kHugePageSize = 0)
    (hfit : a + PageFlags.kHugePageSize + 2 ^ k < 2 ^ 64)
    (hfile : a / 2 ^ k + 2 ^ (21 - k) ≤ file.length) :
    ∃ unbacked swapped info,
      getUnbackedAndSwappedBitmaps (some file) (2 ^ k) a = some ⟨unbacked, swapped, .ok⟩ ∧
      Residency.get (some file) (2 ^ k) a PageFlags.kHugePageSize = some info ∧
      info.bytesResident + 2 ^ k * ((toBitmap unbacked).countBits + (toBitmap swapped).countBits) =
        PageFlags.kHugePageSize ∧
      2 ^ k * (toBitmap swapped).countBits ≤ info.bytesSwapped := by
  have haddr : a < 2 ^ 64 :=
    lt_of_le_of_lt (Nat.le_add_right _ _) (lt_of_le_of_lt (Nat.le_add_right _ _) hfit)
  obtain ⟨hK, hK512, ha, -, -⟩ := hugepage_geometry hk12 hk halign
  have hend := hugepage_end hk (seek (2 ^ k) a)
  rw [← ha] at hend
  obtain ⟨bm, hloop, hu, hs⟩ :=
    residencyLoop_refines (hugePageEntries file (2 ^ k) a) (hK ▸ hK512)
  have hcall := getUnbackedAndSwappedBitmaps_of_read haddr halign (by rw [hK]; exact hfile)
  rw [hloop, Option.map_some] at hcall
  have hget := Residency.get_eq (by rw [PageFlags.kHugePageSize]; positivity) hfit
    (by rw [hend]; exact hfile)
  refine ⟨bm.1, bm.2, _, hcall, hget, ?_, ?_⟩
  -- both count page by page over the pages of the hugepage
  · rw [hu.2, hs.2, absentMap_eq_marked, absentMap_eq_marked, countBits_marked _ (hK ▸ hK512),
      countBits_marked _ (hK ▸ hK512), spread_hugepage hk12 hk halign (Residency.presentAt file)]
    have hterm : ∀ j ∈ Finset.range (PageFlags.kPagesInHugePage (2 ^ k)),
        Residency.presentAt file (seek (2 ^ k) a + j) +
          ((!Residency.pagePresent (entry (hugePageEntries file (2 ^ k) a) j) &&
              Residency.pageSwapped (entry (hugePageEntries file (2 ^ k) a) j) == false).toNat +
            (!Residency.pagePresent (entry (hugePageEntries file (2 ^ k) a) j) &&
              Residency.pageSwapped (entry (hugePageEntries file (2 ^ k) a) j) == true).toNat) = 1 :=
      fun j hj => by
        rw [entry_hugePageEntries file _ a (Finset.mem_range.mp hj), Residency.presentAt]
        exact present_add_absent _
    rw [← Nat.mul_add, ← Finset.sum_add_distrib, ← Finset.sum_add_distrib, Finset.sum_congr rfl hterm,
      Finset.sum_const, Finset.card_range, smul_eq_mul, Nat.mul_one, hK, Nat.mul_comm,
      PageFlags.hugePageSize_eq hk]
  · rw [hs.2, absentMap_eq_marked, countBits_marked _ (hK ▸ hK512),
      spread_hugepage hk12 hk halign (Residency.swappedAt file)]
    refine Nat.mul_le_mul_left _ (Finset.sum_le_sum fun j hj => ?_)
    rw [entry_hugePageEntries file _ a (Finset.mem_range.mp hj), Residency.swappedAt]
    cases Residency.pagePresent (entry file (seek (2 ^ k) a + j)) <;>
      cases Residency.pageSwapped (entry file (seek (2 ^ k) a + j)) <;> decide

theorem getUnbackedAndSwappedBitmaps_agrees_with_get_mixed :
    ∃ unbacked swapped info,
      getUnbackedAndSwappedBitmaps (some mixedPagemap) (2 ^ 19) 0 = some ⟨unbacked, swapped, .ok⟩ ∧
      Residency.get (some mixedPagemap) (2 ^ 19) 0 PageFlags.kHugePageSize = some info ∧
      info.bytesResident + 2 ^ 19 * ((toBitmap unbacked).countBits + (toBitmap swapped).countBits) =
        PageFlags.kHugePageSize ∧
      2 ^ 19 * (toBitmap swapped).countBits ≤ info.bytesSwapped :=
  getUnbackedAndSwappedBitmaps_agrees_with_get (by decide) (by decide) (by decide) (by decide) (by decide)

end TCMalloc.Internal.HugePageBitmaps
