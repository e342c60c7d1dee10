import TCMalloc.Internal.Residency

/-!
`PageFlags::Get` (pageflags.cc): how many bytes of an object are stale and how many
locked, from the `/proc/self/pageflags` entries of the pages it lies on.  A page of a
transparent hugepage (THP) counts with the flags of the THP's head page: `MaybeReadOne`
seeks back from a tail page to the start of its 2 MiB hugepage, `ReadMany` remembers the
last head page it read in `last_head_read_`, and when the object starts on a hugepage
`Get` charges the head's flags to the rest of that hugepage without reading it.

That last step trusts every THP to fill its hugepage.  On a file whose THPs are laid out
so (`ThpLayout`) `get` returns the `spread` of the stale and of the locked bit of each
page's THP flags; on a file with a smaller THP at the start of a hugepage, the pages
after it are charged the THP's flags.
-/

set_option autoImplicit false
set_option relaxedAutoImplicit false

namespace TCMalloc.Internal.PageFlags

open TCMalloc.Lib.PageSpan TCMalloc.Internal.Pagemap

/-- `1 << KPF_COMPOUND_HEAD`. -/
def kPageHead : UInt64 := (1 : UInt64) <<< 15

/-- `1 << KPF_COMPOUND_TAIL`. -/
def kPageTail : UInt64 := (1 : UInt64) <<< 16

/-- `1 << KPF_THP`. -/
def kPageThp : UInt64 := (1 : UInt64) <<< 22

/-- `1 << KPF_STALE`. -/
def kPageStale : UInt64 := (1 : UInt64) <<< 44

/-- `1 << KPF_MLOCKED`. -/
def kPageMlocked : UInt64 := (1 : UInt64) <<< 33

/-- `1 << KPF_UNEVICTABLE`. -/
def kPageUnevictable : UInt64 := (1 : UInt64) <<< 18

def pageHead (flags : UInt64) : Bool := flags &&& kPageHead == kPageHead

def pageTail (flags : UInt64) : Bool := flags &&& kPageTail == kPageTail

def pageThp (flags : UInt64) : Bool := flags &&& kPageThp == kPageThp

def pageStale (flags : UInt64) : Bool := flags &&& kPageStale == kPageStale

def pageLocked (flags : UInt64) : Bool := flags &&& (kPageMlocked ||| kPageUnevictable) != 0

/-- `PageStats`. -/
structure PageStats where
  bytesStale : Nat := 0
  bytesLocked : Nat := 0
  staleScanSeconds : Nat := 0
deriving DecidableEq, Repr

/-- `MaybeAddToStats(stats, flags, delta)`. -/
def maybeAddToStats (stats : PageStats) (flags : UInt64) (delta : Nat) : PageStats where
  bytesStale := if pageStale flags then stats.bytesStale + delta else stats.bytesStale
  bytesLocked := if pageLocked flags then stats.bytesLocked + delta else stats.bytesLocked
  staleScanSeconds := stats.staleScanSeconds

/-- `kHugePageSize = 2 << 20`. -/
def kHugePageSize : Nat := 2 ^ 21

/-- `kHugePageMask = ~(kHugePageSize - 1)` as a 64-bit mask. -/
def kHugePageMask : Nat := 2 ^ 64 - kHugePageSize

/-- `kPagesInHugePage = kHugePageSize / kHardwarePageSize`. -/
def kPagesInHugePage (P : Nat) : Nat := kHugePageSize / P

/-- `last_head_read_ = -1`: no head page read yet. -/
def noHead : UInt64 := UInt64.ofNat (2 ^ 64 - 1)

/-- `MaybeReadOne(vaddr, flags, is_huge)`: the flags of the page holding `vaddr` (those
of its head page when it is a THP tail), whether it belongs to a hugepage, and the file
position after the read.  A head or tail page without the THP flag fails. -/
def maybeReadOne (file : List UInt64) (P vaddr : Nat) : Option (UInt64 × Bool × Nat) :=
  match readOne file (seek P vaddr) with
  | none => none
  | some (flags, pos) =>
    if (pageHead flags || pageTail flags) && !pageThp flags then none
    else if pageTail flags then
      match readOne file (seek P (vaddr &&& kHugePageMask)) with
      | none => none
      | some (head, pos) => if pageTail head then none else some (head, true, pos)
    else some (flags, pageHead flags, pos)

/-- One entry of `PageFlags::ReadMany` once `last_head_read_` is `lastHead`: a tail page is
charged its head's flags, which must have been read, any other page its own. -/
def chargeEntry (P : Nat) (e lastHead : UInt64) (stats : PageStats) :
    Option (UInt64 × PageStats) :=
  if pageTail e then
    if lastHead = noHead then none else some (lastHead, maybeAddToStats stats lastHead P)
  else some (lastHead, maybeAddToStats stats e P)

/-- `PageFlags::ReadMany`: every entry read updates `last_head_read_` when it is a head
page and is charged a whole page. -/
def readMany (file : List UInt64) (P pos : Nat) (numPages : Int) (lastHead : UInt64)
    (stats : PageStats) : Option (Nat × UInt64 × PageStats) :=
  readBatches file (fun e st => chargeEntry P e (if pageHead e then e else st.1) st.2) pos
    numPages (lastHead, stats)

/-- `stale_scan_seconds` is set, to what `MaybeReadStaleScanSeconds()` reads
(`scanSeconds`), when some byte is stale. -/
def withScanSeconds (scanSeconds : Nat) (ret : PageStats) : PageStats :=
  if 0 < ret.bytesStale then { ret with staleScanSeconds := scanSeconds } else ret

/-- `pages_represented`: the pages from `basePage` to the end of its hugepage. -/
def pagesRepresented (P basePage : Nat) : Nat :=
  kPagesInHugePage P - (basePage &&& (kHugePageSize - 1)) / P

/-- The end of `Get`: `ReadMany(remainingPages - 1)` from `pos` (with no head read yet),
then the last page with `MaybeReadOne`, charged `kHardwarePageSize - (endPage - uaddr - size)`. -/
def getRest (file : List UInt64) (P uaddr size endPage pos : Nat) (remainingPages : Int)
    (ret : PageStats) : Option PageStats :=
  match readMany file P pos (remainingPages - 1) noHead ret with
  | none => none
  | some (_, _, ret) =>
    match maybeReadOne file P (sub64 endPage P) with
    | none => none
    | some (flags, _, _) =>
      some (maybeAddToStats ret flags (sub64 P (sub64 (sub64 endPage uaddr) size)))

/-- `Get` after the first page of a many-page object: its flags are charged
`firstPageSize = kHardwarePageSize - (uaddr - basePage)`, and when it is on a hugepage,
also the rest of the hugepage, which is then skipped. -/
def getFirst (file : List UInt64) (P scanSeconds uaddr size basePage endPage : Nat)
    (remainingPages : Int) (flags : UInt64) (isHuge : Bool) (pos : Nat) : Option PageStats :=
  if isHuge then
    if remainingPages - (pagesRepresented P basePage : Int) ≤ 0 then
      -- the hugepage holds every page of the object
      some (withScanSeconds scanSeconds (maybeAddToStats {} flags size))
    else
      (getRest file P uaddr size endPage
        (seek P (word64 ((basePage &&& kHugePageMask) + kHugePageSize)))
        (remainingPages - (pagesRepresented P basePage : Int))
        (maybeAddToStats {} flags
          (sub64 P (sub64 uaddr basePage) + (pagesRepresented P basePage - 1) * P))).map
        (withScanSeconds scanSeconds)
  else
    (getRest file P uaddr size endPage pos (remainingPages - 1)
      (maybeAddToStats {} flags (sub64 P (sub64 uaddr basePage)))).map
      (withScanSeconds scanSeconds)

/-- `PageFlags::Get` from `MaybeReadOne(basePage)` on, for an object that meets
`remainingPages` pages from `basePage` to `endPage`. -/
def getPages (file : List UInt64) (P scanSeconds uaddr size basePage endPage : Nat)
    (remainingPages : Int) : Option PageStats :=
  if remainingPages = 1 then
    (maybeReadOne file P basePage).map fun r =>
      withScanSeconds scanSeconds (maybeAddToStats {} r.1 size)
  else
    match maybeReadOne file P basePage with
    | none => none
    | some (flags, isHuge, pos) =>
      getFirst file P scanSeconds uaddr size basePage endPage remainingPages flags isHuge pos

/-- `PageFlags::Get(addr, size)` with the page size `P`, on the pageflags `file` (`none`
when it could not be opened); `scanSeconds` is what `MaybeReadStaleScanSeconds()` reads. -/
def get (file : Option (List UInt64)) (P scanSeconds uaddr size : Nat) : Option PageStats :=
  match file with
  | none => none
  | some file =>
    if size = 0 then some {} else
    getPages file P scanSeconds uaddr size (basePage P uaddr) (endPage P uaddr size)
      (sub64 (endPage P uaddr size) (basePage P uaddr) / P : Nat)

/-- The flags page `p` counts with: a THP tail's are its head's, at the start of its
hugepage of `K` pages. -/
def thpFlags (K : Nat) (file : List UInt64) (p : Nat) : UInt64 :=
  if pageTail (entry file p) then entry file (p / K * K) else entry file p

/-- Page `p` counts as stale. -/
def staleAt (K : Nat) (file : List UInt64) (p : Nat) : Nat := (pageStale (thpFlags K file p)).toNat

/-- Page `p` counts as locked. -/
def lockedAt (K : Nat) (file : List UInt64) (p : Nat) : Nat := (pageLocked (thpFlags K file p)).toNat

/-- The THPs of a pageflags file fill their hugepages of `K` pages, as the kernel maps
them: every head or tail page is a THP page, a head page is no tail and starts a
hugepage whose other pages (those in the file) are tails, and a tail page's hugepage
starts with a head. -/
structure ThpLayout (K : Nat) (file : List UInt64) : Prop where
  thp : ∀ p, (pageHead (entry file p) || pageTail (entry file p)) = true →
    pageThp (entry file p) = true
  head_not_tail : ∀ p, pageHead (entry file p) = true → pageTail (entry file p) = false
  head_aligned : ∀ p, pageHead (entry file p) = true → p % K = 0
  tails : ∀ p j, pageHead (entry file p) = true → 0 < j → j < K → p + j < file.length →
    pageTail (entry file (p + j)) = true
  tail_head : ∀ p, pageTail (entry file p) = true → pageHead (entry file (p / K * K)) = true

theorem drop_eq_entry_cons {file : List UInt64} {pos : Nat} (hpos : pos < file.length) :
    file.drop pos = entry file pos :: file.drop (pos + 1) := by
  rw [List.drop_eq_getElem_cons hpos]
  simp [entry, List.getD_eq_getElem?_getD, List.getElem?_eq_getElem hpos]

theorem pageTail_noHead : pageTail noHead = true := by decide

theorem maybeAddToStats_eq (stats : PageStats) (flags : UInt64) (delta : Nat) :
    maybeAddToStats stats flags delta =
      ⟨stats.bytesStale + delta * (pageStale flags).toNat,
        stats.bytesLocked + delta * (pageLocked flags).toNat, stats.staleScanSeconds⟩ := by
  unfold maybeAddToStats
  cases pageStale flags <;> cases pageLocked flags <;> simp

/-- `last_head_read_` is ready for page `q`: if `q` is a tail page, it holds the flags of
the head of `q`'s hugepage. -/
def HeadReady (K : Nat) (file : List UInt64) (q : Nat) (lastHead : UInt64) : Prop :=
  pageTail (entry file q) = true → lastHead = entry file (q / K * K)

theorem headReady_of_start {K : Nat} {file : List UInt64} (hl : ThpLayout K file) {q : Nat}
    {h : UInt64} (hq : q % K = 0) : HeadReady K file q h := by
  intro htail
  have hhead := hl.tail_head q htail
  rw [Nat.div_mul_cancel (Nat.dvd_of_mod_eq_zero hq)] at hhead
  rw [hl.head_not_tail q hhead] at htail
  cases htail

section Hugepages

/-! A hugepage of `2 ^ 21` bytes holds `K = 2 ^ (21 - k)` pages of `2 ^ k` bytes: the
hugepage of page `q` starts at page `q / K * K`. -/

variable {k : Nat} (hk : k ≤ 21)
include hk

theorem kPagesInHugePage_pow : kPagesInHugePage (2 ^ k) = 2 ^ (21 - k) :=
  Nat.pow_div hk Nat.two_pos

theorem hugePageSize_eq : kHugePageSize = 2 ^ (21 - k) * 2 ^ k := by
  rw [kHugePageSize, ← Nat.pow_add, Nat.sub_add_cancel hk]

theorem hugeMask_eq {q : Nat} (hq : q * 2 ^ k < 2 ^ 64) :
    q * 2 ^ k &&& kHugePageMask = q / 2 ^ (21 - k) * 2 ^ (21 - k) * 2 ^ k := by
  have hP : 0 < 2 ^ k := Nat.two_pow_pos k
  rw [kHugePageMask, kHugePageSize, Lib.Align.and_two_pow_sub_two_pow (by decide) hq, ← kHugePageSize,
    hugePageSize_eq hk, Nat.mul_div_mul_right _ _ hP, Nat.mul_assoc]

theorem seek_hugeMask {q : Nat} (hq : q * 2 ^ k < 2 ^ 64) :
    seek (2 ^ k) (q * 2 ^ k &&& kHugePageMask) = q / 2 ^ (21 - k) * 2 ^ (21 - k) := by
  rw [hugeMask_eq hk hq, seek, Nat.mul_div_cancel _ (Nat.two_pow_pos k)]

theorem pagesRepresented_eq {b : Nat} :
    pagesRepresented (2 ^ k) (b * 2 ^ k) = 2 ^ (21 - k) - b % 2 ^ (21 - k) := by
  have hP : 0 < 2 ^ k := Nat.two_pow_pos k
  rw [pagesRepresented, kPagesInHugePage_pow hk, kHugePageSize, Nat.and_two_pow_sub_one_eq_mod,
    ← kHugePageSize, hugePageSize_eq hk, Nat.mul_mod_mul_right, Nat.mul_div_cancel _ hP]

theorem seek_nextHuge {b : Nat} (hb : b * 2 ^ k < 2 ^ 64)
    (hnext : (b / 2 ^ (21 - k) * 2 ^ (21 - k) + 2 ^ (21 - k)) * 2 ^ k < 2 ^ 64) :
    seek (2 ^ k) (word64 ((b * 2 ^ k &&& kHugePageMask) + kHugePageSize)) =
      b / 2 ^ (21 - k) * 2 ^ (21 - k) + 2 ^ (21 - k) := by
  rw [hugeMask_eq hk hb, hugePageSize_eq hk, ← Nat.add_mul, word64_of_lt hnext, seek,
    Nat.mul_div_cancel _ (Nat.two_pow_pos k)]

end Hugepages

section Layout

variable {K : Nat} {file : List UInt64} (hl : ThpLayout K file)
include hl

theorem thpFlags_of_block {b p : Nat}
    (hb : (pageHead (entry file b) || pageTail (entry file b)) = true)
    (hlo : b / K * K ≤ p) (hhi : p < b / K * K + K) (hlen : p < file.length) :
    thpFlags K file p = entry file (b / K * K) := by
  have hhead : pageHead (entry file (b / K * K)) = true := by
    rcases Bool.or_eq_true_iff.mp hb with h | h
    · have := hl.head_aligned b h
      rwa [Nat.div_mul_cancel (Nat.dvd_of_mod_eq_zero this)]
    · exact hl.tail_head b h
  have hpdiv : p / K * K = b / K * K := by
    rw [Nat.div_eq_of_lt_le hlo (by rw [Nat.succ_mul]; exact hhi)]
  unfold thpFlags
  rcases Nat.eq_or_lt_of_le hlo with heq | hlt
  · rw [← heq, hl.head_not_tail _ hhead, if_neg (by decide)]
  · have htail := hl.tails (b / K * K) (p - b / K * K) hhead (by omega) (by omega)
      (by rw [Nat.add_sub_cancel' hlo]; exact hlen)
    rw [Nat.add_sub_cancel' hlt.le] at htail
    rw [if_pos htail, hpdiv]

theorem thpFlags_eq_of_block (hK : 0 < K) {b p : Nat}
    (hb : (pageHead (entry file b) || pageTail (entry file b)) = true) (hblen : b < file.length)
    (hlo : b / K * K ≤ p) (hhi : p < b / K * K + K) (hlen : p < file.length) :
    thpFlags K file p = thpFlags K file b := by
  have hbhi : b < b / K * K + K := by
    have := Nat.lt_div_mul_add (a := b) hK
    omega
  rw [thpFlags_of_block hl hb hlo hhi hlen,
    thpFlags_of_block hl hb (Nat.div_mul_le_self b K) hbhi hblen]

theorem headReady_succ (hK : 0 < K) {q : Nat} {h : UInt64} (hq : q < file.length)
    (hr : HeadReady K file q h) :
    HeadReady K file (q + 1) (if pageHead (entry file q) then entry file q else h) := by
  intro htail
  have hB := hl.tail_head (q + 1) htail
  -- the hugepage of `q + 1` cannot start at `q + 1`, a head page, so it is `q`'s
  have hndvd : ¬ K ∣ q + 1 := by
    intro hdvd
    rw [Nat.div_mul_cancel hdvd, hl.head_not_tail _ hB] at *
    cases htail
  rw [Nat.succ_div_of_not_dvd hndvd] at hB ⊢
  have hlo := Nat.div_mul_le_self q K
  have hhi : q < q / K * K + K := by
    have := Nat.lt_div_mul_add (a := q) hK
    omega
  rcases Nat.eq_or_lt_of_le hlo with heq | hlt
  · rw [heq] at hB
    rw [if_pos hB, heq]
  · have hqtail := hl.tails (q / K * K) (q - q / K * K) hB (by omega) (by omega)
      (by rw [Nat.add_sub_cancel' hlo]; exact hq)
    rw [Nat.add_sub_cancel' hlo] at hqtail
    have hnothead : pageHead (entry file q) = false := by
      cases hhead : pageHead (entry file q)
      · rfl
      · rw [hl.head_not_tail q hhead] at hqtail; cases hqtail
    rw [if_neg (by rw [hnothead]; decide)]
    exact hr hqtail

theorem chargeEntry_eq (P : Nat) {q : Nat} {h : UInt64} (stats : PageStats)
    (hr : HeadReady K file q h) :
    chargeEntry P (entry file q) (if pageHead (entry file q) then entry file q else h) stats =
      some (if pageHead (entry file q) then entry file q else h,
        maybeAddToStats stats (thpFlags K file q) P) := by
  unfold chargeEntry thpFlags
  cases htail : pageTail (entry file q)
  · simp only [Bool.false_eq_true, if_false]
  · have hnothead : pageHead (entry file q) = false := by
      cases hhead : pageHead (entry file q)
      · rfl
      · rw [hl.head_not_tail q hhead] at htail; cases htail
    -- the head read last is a head page, so it is not the `-1` of "none read yet"
    have hh := hr htail
    have hne : h ≠ noHead := by
      intro heq
      have hnt := hl.head_not_tail _ (hl.tail_head q htail)
      rw [← hh, heq, pageTail_noHead] at hnt
      cases hnt
    subst hh
    simp only [hnothead, Bool.false_eq_true, if_false, if_true, if_neg hne]


theorem foldlM_charge (hK : 0 < K) (P : Nat) :
    ∀ (n pos : Nat) (h : UInt64) (stats : PageStats), pos + n ≤ file.length →
      HeadReady K file pos h → ∃ h',
        ((file.drop pos).take n).foldlM
            (fun out e => chargeEntry P e (if pageHead e then e else out.1) out.2) (h, stats) =
          some (h', ⟨stats.bytesStale + ∑ p ∈ Finset.Ico pos (pos + n), P * staleAt K file p,
            stats.bytesLocked + ∑ p ∈ Finset.Ico pos (pos + n), P * lockedAt K file p,
            stats.staleScanSeconds⟩)
  | 0, pos, h, stats, _, _ => ⟨h, by simp [pure]⟩
  | n + 1, pos, h, stats, hlen, hr => by
    have hpos : pos < file.length := by omega
    obtain ⟨h', hrest⟩ := foldlM_charge hK P n (pos + 1) _ (maybeAddToStats stats (thpFlags K file pos) P)
      (by omega) (headReady_succ hl hK hpos hr)
    refine ⟨h', ?_⟩
    rw [drop_eq_entry_cons hpos, List.take_succ_cons, List.foldlM_cons]
    simp only
    rw [chargeEntry_eq hl P stats hr, Option.bind_eq_bind, Option.bind_some, hrest,
      maybeAddToStats_eq, Finset.sum_eq_sum_Ico_succ_bot (by omega : pos < pos + (n + 1)),
      Finset.sum_eq_sum_Ico_succ_bot (by omega : pos < pos + (n + 1)),
      show pos + (n + 1) = pos + 1 + n by omega]
    simp only [staleAt, lockedAt, Nat.add_assoc]

theorem readMany_eq (hK : 0 < K) (P : Nat) {pos n : Nat} {h : UInt64} (stats : PageStats)
    (hlen : pos + n ≤ file.length) (hr : HeadReady K file pos h) : ∃ h',
    readMany file P pos n h stats =
      some (pos + n, h', ⟨stats.bytesStale + ∑ p ∈ Finset.Ico pos (pos + n), P * staleAt K file p,
        stats.bytesLocked + ∑ p ∈ Finset.Ico pos (pos + n), P * lockedAt K file p,
        stats.staleScanSeconds⟩) := by
  have hn : (n : Int).toNat = n := Int.toNat_natCast n
  obtain ⟨h', hfold⟩ := foldlM_charge hl hK P n pos h stats hlen hr
  refine ⟨h', ?_⟩
  unfold readMany
  rw [readBatches_eq (by rwa [hn]), hn, hfold, Option.map_some]

end Layout

section Get

/-! `Get` on a file laid out as the kernel lays out THPs, with pages of `2 ^ k` bytes
and so hugepages of `2 ^ (21 - k)` pages. -/

variable {k : Nat} {file : List UInt64} (hk : k ≤ 21) (hl : ThpLayout (2 ^ (21 - k)) file)
include hk hl

theorem maybeReadOne_eq {q : Nat} (hq : q < file.length) (hqa : q * 2 ^ k < 2 ^ 64) :
    maybeReadOne file (2 ^ k) (q * 2 ^ k) =
      some (thpFlags (2 ^ (21 - k)) file q, pageHead (entry file q) || pageTail (entry file q),
        if pageTail (entry file q) then q / 2 ^ (21 - k) * 2 ^ (21 - k) + 1 else q + 1) := by
  have hseek : seek (2 ^ k) (q * 2 ^ k) = q := Nat.mul_div_cancel q (Nat.two_pow_pos k)
  unfold maybeReadOne thpFlags
  rw [hseek, readOne_of_lt hq]
  dsimp only
  cases ht : pageTail (entry file q)
  · cases hh : pageHead (entry file q)
    · simp
    · rw [hl.thp q (by rw [hh]; rfl)]
      simp
  · -- a tail page: `MaybeReadOne` seeks back to its head
    have hh : pageHead (entry file q) = false := by
      cases hh : pageHead (entry file q)
      · rfl
      · rw [hl.head_not_tail q hh] at ht; cases ht
    have hB := hl.tail_head q ht
    rw [hl.thp q (by rw [ht, Bool.or_true]), seek_hugeMask hk hqa,
      readOne_of_lt (lt_of_le_of_lt (Nat.div_mul_le_self q _) hq)]
    dsimp only
    rw [hl.head_not_tail _ hB]
    simp [hh]

theorem getRest_eq {a s b e pos : Nat} {r : Int} (hp : Pages k a s b e) (hpos : pos < e)
    (he : e ≤ file.length) (hr : r = ((e - pos : Nat) : Int))
    (hready : HeadReady (2 ^ (21 - k)) file pos noHead) (stats : PageStats) :
    getRest file (2 ^ k) a s (endPage (2 ^ k) a s) pos r stats =
      some (maybeAddToStats
        ⟨stats.bytesStale + ∑ p ∈ Finset.Ico pos (e - 1), 2 ^ k * staleAt (2 ^ (21 - k)) file p,
          stats.bytesLocked + ∑ p ∈ Finset.Ico pos (e - 1), 2 ^ k * lockedAt (2 ^ (21 - k)) file p,
          stats.staleScanSeconds⟩
        (thpFlags (2 ^ (21 - k)) file (e - 1)) (a + s + 2 ^ k - e * 2 ^ k)) := by
  obtain ⟨h', hmany⟩ := readMany_eq hl (Nat.two_pow_pos _) (2 ^ k) (n := e - 1 - pos) stats
    (by omega) hready
  rw [show pos + (e - 1 - pos) = e - 1 by omega] at hmany
  have hlast : sub64 (endPage (2 ^ k) a s) (2 ^ k) = (e - 1) * 2 ^ k := by
    rw [hp.endp, sub64_of_le (Nat.le_mul_of_pos_left _ (by omega)) hp.top, Nat.sub_mul,
      Nat.one_mul]
  have hlastTop : (e - 1) * 2 ^ k < 2 ^ 64 :=
    lt_of_le_of_lt (Nat.mul_le_mul_right _ (Nat.sub_le e 1)) hp.top
  unfold getRest
  rw [show r - 1 = ((e - 1 - pos : Nat) : Int) by omega, hmany]
  dsimp only
  rw [hlast, maybeReadOne_eq hk hl (by omega) hlastTop]
  dsimp only
  rw [hp.lastPageSize]

section Paths

/-! The three ways `Get` goes on after the first page of an object `[a, a + s)` that meets
the pages `[b, e)`, `e > b + 1`. -/

variable {a s b e : Nat} (scanSeconds : Nat) (hs : 0 < s) (hp : Pages k a s b e)
  (hmany : b + 1 < e) (he : e ≤ file.length)
include hs hp hmany he

theorem getFirst_small (hnot : (pageHead (entry file b) || pageTail (entry file b)) = false) :
    getFirst file (2 ^ k) scanSeconds a s (basePage (2 ^ k) a) (endPage (2 ^ k) a s)
        ((e - b : Nat) : Int) (thpFlags (2 ^ (21 - k)) file b) false (b + 1) =
      some (withScanSeconds scanSeconds ⟨spread (2 ^ k) a s (staleAt (2 ^ (21 - k)) file),
        spread (2 ^ k) a s (lockedAt (2 ^ (21 - k)) file), 0⟩) := by
  obtain ⟨hh, ht⟩ := Bool.or_eq_false_iff.mp hnot
  have hready : HeadReady (2 ^ (21 - k)) file (b + 1) noHead := by
    have := headReady_succ hl (Nat.two_pow_pos _) (q := b) (h := noHead) (by omega)
      fun htail => by rw [ht] at htail; cases htail
    simpa only [hh, Bool.false_eq_true, if_false] using this
  have hsplit : ∀ w : Nat → Nat, spread (2 ^ k) a s w = (b * 2 ^ k + 2 ^ k - a) * w b +
      ∑ p ∈ Finset.Ico (b + 1) (e - 1), 2 ^ k * w p + (a + s + 2 ^ k - e * 2 ^ k) * w (e - 1) := by
    intro w
    rw [hp.spread_eq_head hs (m := b + 1) (by omega) hmany, Nat.succ_mul]
    intro p hp
    rw [Finset.mem_Ico] at hp
    rw [show p = b by omega]
  rw [getFirst, if_neg (by decide), getRest_eq hk hl hp hmany he (by omega) hready,
    Option.map_some, hp.firstPageSize, maybeAddToStats_eq, maybeAddToStats_eq, hsplit, hsplit]
  simp only [staleAt, lockedAt, Nat.zero_add]

theorem getFirst_huge (hhuge : (pageHead (entry file b) || pageTail (entry file b)) = true)
    (pos : Nat) :
    getFirst file (2 ^ k) scanSeconds a s (basePage (2 ^ k) a) (endPage (2 ^ k) a s)
        ((e - b : Nat) : Int) (thpFlags (2 ^ (21 - k)) file b) true pos =
      some (withScanSeconds scanSeconds ⟨spread (2 ^ k) a s (staleAt (2 ^ (21 - k)) file),
        spread (2 ^ k) a s (lockedAt (2 ^ (21 - k)) file), 0⟩) := by
  have hK : 0 < 2 ^ (21 - k) := Nat.two_pow_pos _
  -- the hugepage of the first page is `[B, B + 2 ^ (21 - k))`
  obtain ⟨B, hB⟩ : ∃ B, B = b / 2 ^ (21 - k) * 2 ^ (21 - k) := ⟨_, rfl⟩
  have hdm : B + b % 2 ^ (21 - k) = b := by rw [hB]; exact Nat.div_add_mod' b _
  have hmod : b % 2 ^ (21 - k) < 2 ^ (21 - k) := Nat.mod_lt _ hK
  have hflags : ∀ p, b ≤ p → p < e → p < B + 2 ^ (21 - k) →
      thpFlags (2 ^ (21 - k)) file p = thpFlags (2 ^ (21 - k)) file b := fun p h1 h2 h3 =>
    thpFlags_eq_of_block hl hK hhuge (by omega) (by rw [← hB]; omega) (by rw [← hB]; omega)
      (by omega)
  have hpr : pagesRepresented (2 ^ k) (basePage (2 ^ k) a) = 2 ^ (21 - k) - b % 2 ^ (21 - k) := by
    rw [hp.base, pagesRepresented_eq hk]
  rw [getFirst, if_pos rfl, hpr]
  rcases Nat.lt_or_ge (B + 2 ^ (21 - k)) e with hpast | hwithin
  · -- the rest of the object starts at the next hugepage, `B + 2 ^ (21 - k)`
    rw [if_neg (by omega)]
    have hnextTop : (B + 2 ^ (21 - k)) * 2 ^ k < 2 ^ 64 :=
      lt_of_le_of_lt (Nat.mul_le_mul_right _ hpast.le) hp.top
    have hnext : seek (2 ^ k) (word64 ((basePage (2 ^ k) a &&& kHugePageMask) + kHugePageSize)) =
        B + 2 ^ (21 - k) := by
      rw [hp.base, hB]
      exact seek_nextHuge hk (lt_of_le_of_lt (Nat.mul_le_mul_right _ (by omega)) hnextTop)
        (by rw [← hB]; exact hnextTop)
    have hstart : (B + 2 ^ (21 - k)) % 2 ^ (21 - k) = 0 := by
      rw [hB, ← Nat.succ_mul]
      exact Nat.mul_mod_left _ _
    -- the bytes charged for the hugepage: the first page in part, the others whole
    have hfirst : b * 2 ^ k + 2 ^ k - a + (2 ^ (21 - k) - b % 2 ^ (21 - k) - 1) * 2 ^ k =
        (B + 2 ^ (21 - k)) * 2 ^ k - a := by
      obtain ⟨t, ht⟩ : ∃ t, t = 2 ^ (21 - k) - b % 2 ^ (21 - k) - 1 := ⟨_, rfl⟩
      rw [← ht, show B + 2 ^ (21 - k) = b + t + 1 by omega, Nat.add_mul, Nat.add_mul, Nat.one_mul]
      have := hp.first_le
      have := hp.lt_next
      omega
    have hsplit : ∀ w : Nat → Nat, (∀ p ∈ Finset.Ico b (B + 2 ^ (21 - k)), w p = w b) →
        spread (2 ^ k) a s w = ((B + 2 ^ (21 - k)) * 2 ^ k - a) * w b +
          ∑ p ∈ Finset.Ico (B + 2 ^ (21 - k)) (e - 1), 2 ^ k * w p +
          (a + s + 2 ^ k - e * 2 ^ k) * w (e - 1) := fun w hw =>
      hp.spread_eq_head hs (by omega) hpast hw
    have hblock : ∀ p ∈ Finset.Ico b (B + 2 ^ (21 - k)),
        thpFlags (2 ^ (21 - k)) file p = thpFlags (2 ^ (21 - k)) file b := fun p hp' => by
      rw [Finset.mem_Ico] at hp'
      exact hflags p hp'.1 (by omega) hp'.2
    rw [hnext, getRest_eq hk hl hp (by omega) he (by omega) (headReady_of_start hl hstart),
      Option.map_some, hp.firstPageSize, hfirst, maybeAddToStats_eq, maybeAddToStats_eq,
      hsplit _ fun p hp' => by unfold staleAt; rw [hblock p hp'],
      hsplit _ fun p hp' => by unfold lockedAt; rw [hblock p hp']]
    simp only [staleAt, lockedAt, Nat.zero_add]
  · -- the hugepage holds the rest of the object
    rw [if_pos (by omega)]
    have hconst : ∀ p ∈ Finset.Ico b e,
        thpFlags (2 ^ (21 - k)) file p = thpFlags (2 ^ (21 - k)) file b := fun p hp' => by
      rw [Finset.mem_Ico] at hp'
      exact hflags p hp'.1 hp'.2 (by omega)
    rw [hp.spread_eq_const hs (c := staleAt (2 ^ (21 - k)) file b)
        fun p hp' => by unfold staleAt; rw [hconst p hp'],
      hp.spread_eq_const hs (c := lockedAt (2 ^ (21 - k)) file b)
        fun p hp' => by unfold lockedAt; rw [hconst p hp'], maybeAddToStats_eq]
    simp only [staleAt, lockedAt, Nat.zero_add]

end Paths

theorem get_eq {a s : Nat} (scanSeconds : Nat) (hs : 0 < s) (hfit : a + s + 2 ^ k < 2 ^ 64)
    (hfile : (a + s + 2 ^ k - 1) / 2 ^ k ≤ file.length) :
    get (some file) (2 ^ k) scanSeconds a s =
      some (withScanSeconds scanSeconds ⟨spread (2 ^ k) a s (staleAt (2 ^ (21 - k)) file),
        spread (2 ^ k) a s (lockedAt (2 ^ (21 - k)) file), 0⟩) := by
  have hp := pages_of_fit hs hfit
  obtain ⟨b, hb⟩ : ∃ b, b = a / 2 ^ k := ⟨_, rfl⟩
  obtain ⟨e, he⟩ : ∃ e, e = (a + s + 2 ^ k - 1) / 2 ^ k := ⟨_, rfl⟩
  rw [← hb, ← he] at hp
  rw [← he] at hfile
  clear hfit hb he
  have hbe := hp.first_lt
  have hread : maybeReadOne file (2 ^ k) (basePage (2 ^ k) a) =
      some (thpFlags (2 ^ (21 - k)) file b, pageHead (entry file b) || pageTail (entry file b),
        if pageTail (entry file b) then b / 2 ^ (21 - k) * 2 ^ (21 - k) + 1 else b + 1) := by
    rw [hp.base]
    exact maybeReadOne_eq hk hl (by omega) (lt_of_le_of_lt (Nat.mul_le_mul_right _ hbe.le) hp.top)
  rw [get, if_neg (Nat.pos_iff_ne_zero.mp hs), hp.remaining, getPages, hread]
  rcases eq_or_ne e (b + 1) with hone | hone
  · -- one page: it holds the whole object
    rw [if_pos (show ((e - b : Nat) : Int) = 1 by rw [hone, Nat.add_sub_cancel_left]; rfl),
      Option.map_some, maybeAddToStats_eq]
    have hw : ∀ w : Nat → Nat, spread (2 ^ k) a s w = s * w b := fun w =>
      hp.spread_eq_const hs fun p hp => by
        rw [Finset.mem_Ico] at hp
        rw [show p = b by omega]
    simp only [hw, staleAt, lockedAt, Nat.zero_add]
  · rw [if_neg (show ((e - b : Nat) : Int) ≠ 1 by omega)]
    dsimp only
    cases hhuge : (pageHead (entry file b) || pageTail (entry file b))
    · rw [if_neg (by rw [(Bool.or_eq_false_iff.mp hhuge).2]; decide)]
      exact getFirst_small hk hl scanSeconds hs hp (by omega) hfile hhuge
    · exact getFirst_huge hk hl scanSeconds hs hp (by omega) hfile hhuge _

end Get

theorem get_charges_each_byte_once {file : List UInt64} {k a s : Nat} (scanSeconds : Nat)
    (hk : k ≤ 21) (hl : ThpLayout (2 ^ (21 - k)) file) (hs : 0 < s)
    (hfit : a + s + 2 ^ k < 2 ^ 64) (hfile : (a + s + 2 ^ k - 1) / 2 ^ k ≤ file.length) :
    Residency.get (some file) (2 ^ k) a s =
        some ⟨spread (2 ^ k) a s (Residency.presentAt file),
          spread (2 ^ k) a s (Residency.swappedAt file)⟩ ∧
      get (some file) (2 ^ k) scanSeconds a s =
        some (withScanSeconds scanSeconds ⟨spread (2 ^ k) a s (staleAt (2 ^ (21 - k)) file),
          spread (2 ^ k) a s (lockedAt (2 ^ (21 - k)) file), 0⟩) ∧
      spread (2 ^ k) a s (fun _ => 1) = s := by
  refine ⟨Residency.get_eq hs hfit hfile, get_eq hk hl scanSeconds hs hfit hfile, ?_⟩
  rw [Lib.PageSpan.spread_eq_const (Nat.two_pow_pos k) hs (c := 1) fun _ _ => rfl, Nat.mul_one]

theorem thpLayout_of_entries {K : Nat} {file : List UInt64}
    (hthp : ∀ p < file.length,
      (pageHead (entry file p) || pageTail (entry file p)) = true → pageThp (entry file p) = true)
    (hhead : ∀ p < file.length, pageHead (entry file p) = true → pageTail (entry file p) = false ∧ p % K = 0)
    (htails : ∀ p < file.length, pageHead (entry file p) = true →
      ∀ j < K, 0 < j → p + j < file.length → pageTail (entry file (p + j)) = true)
    (hstart : ∀ p < file.length, pageTail (entry file p) = true → pageHead (entry file (p / K * K)) = true) :
    ThpLayout K file := by
  have hzero : pageHead 0 = false ∧ pageTail 0 = false := by decide
  have hin : ∀ p, (pageHead (entry file p) || pageTail (entry file p)) = true → p < file.length := by
    intro p hp
    by_contra hge
    rw [entry, List.getD_eq_default _ _ (Nat.le_of_not_lt hge), hzero.1, hzero.2] at hp
    cases hp
  have hheadIn : ∀ p, pageHead (entry file p) = true → p < file.length := fun p hp => hin p (by simp [hp])
  have htailIn : ∀ p, pageTail (entry file p) = true → p < file.length := fun p hp => hin p (by simp [hp])
  exact ⟨fun p hp => hthp p (hin p hp) hp, fun p hp => (hhead p (hheadIn p hp) hp).1,
    fun p hp => (hhead p (hheadIn p hp) hp).2, fun p j hp hj hjK hlen => htails p (hheadIn p hp) hp j hjK hj hlen,
    fun p hp => hstart p (htailIn p hp) hp⟩

/-- A THP of four pages of 512 KiB, a stale head and three tails, filling its hugepage,
then a hugepage of ordinary pages, one stale and one mlocked. -/
def thpObjectFile : List UInt64 :=
  [kPageHead ||| kPageThp ||| kPageStale, kPageTail ||| kPageThp, kPageTail ||| kPageThp, kPageTail ||| kPageThp,
    kPageStale, 0, kPageMlocked, 0]

theorem thpLayout_thpObjectFile : ThpLayout (2 ^ (21 - 19)) thpObjectFile :=
  thpLayout_of_entries (by decide) (by decide) (by decide) (by decide)

theorem get_charges_each_byte_once_across_thp :
    ThpLayout (2 ^ (21 - 19)) thpObjectFile ∧
      (Residency.get (some thpObjectFile) (2 ^ 19) (2 ^ 19 + 100) (5 * 2 ^ 19) =
          some ⟨spread (2 ^ 19) (2 ^ 19 + 100) (5 * 2 ^ 19) (Residency.presentAt thpObjectFile),
            spread (2 ^ 19) (2 ^ 19 + 100) (5 * 2 ^ 19) (Residency.swappedAt thpObjectFile)⟩ ∧
        get (some thpObjectFile) (2 ^ 19) 0 (2 ^ 19 + 100) (5 * 2 ^ 19) =
          some (withScanSeconds 0 ⟨spread (2 ^ 19) (2 ^ 19 + 100) (5 * 2 ^ 19) (staleAt (2 ^ (21 - 19)) thpObjectFile),
            spread (2 ^ 19) (2 ^ 19 + 100) (5 * 2 ^ 19) (lockedAt (2 ^ (21 - 19)) thpObjectFile), 0⟩) ∧
        spread (2 ^ 19) (2 ^ 19 + 100) (5 * 2 ^ 19) (fun _ => 1) = 5 * 2 ^ 19) := by
  exact ⟨thpLayout_thpObjectFile, get_charges_each_byte_once 0 (by decide) thpLayout_thpObjectFile (by decide)
    (by decide) (by decide)⟩

/-- A 64 KiB THP (a stale head and 15 tails of 4 KiB) at the start of a hugepage, and an
ordinary page after it. -/
def smallThpFile : List UInt64 :=
  (kPageHead ||| kPageThp ||| kPageStale) :: List.replicate 15 (kPageTail ||| kPageThp) ++ [0]

/-- A head page of a hugetlbfs page, which has no THP flag. -/
def hugetlbFile : List UInt64 := [kPageHead ||| (1 : UInt64) <<< 17]

/-- Every tail page of both files lies in a hugepage whose first page is its head, yet
`Get` charges the page after a small THP with the THP's staleness (17 stale pages where
16 are), and fails on a hugetlbfs page. -/
theorem get_misreads_compound_pages :
    (∀ p, pageTail (entry smallThpFile p) = true →
      pageHead (entry smallThpFile (p / 512 * 512)) = true) ∧
    get (some smallThpFile) 4096 0 0 (17 * 4096) = some ⟨17 * 4096, 0, 0⟩ ∧
    spread 4096 0 (17 * 4096) (staleAt 512 smallThpFile) = 16 * 4096 ∧
    (∀ p, pageTail (entry hugetlbFile p) = false) ∧
    get (some hugetlbFile) 4096 0 0 1 = none := by
  have hsmall : ∀ p < 17, pageTail (entry smallThpFile p) = true →
      pageHead (entry smallThpFile (p / 512 * 512)) = true := by decide
  refine ⟨fun p hp => ?_, by decide, by decide, fun p => ?_, by decide⟩
  · rcases Nat.lt_or_ge p 17 with h | h
    · exact hsmall p h hp
    · rw [entry, List.getD_eq_default _ _ (by simpa [smallThpFile] using h)] at hp
      cases hp
  · cases p <;> simp [entry, hugetlbFile] <;> decide

end TCMalloc.Internal.PageFlags
