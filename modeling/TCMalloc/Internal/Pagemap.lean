import TCMalloc.Lib.Align
import TCMalloc.Lib.While
import TCMalloc.Lib.PageSpan

/-!
Reading `/proc/self/pagemap` and `/proc/self/pageflags`, as `ResidencyPageMap` and
`PageFlags` (residency.cc, pageflags.cc) both do.  Either file holds one 64-bit entry per
native page of the address space; the model is the list of its entries, so that a read
past its end fails as a short `signal_safe_read` does.  `Seek(vaddr)` moves to the entry
of the page holding `vaddr` (`lseek` on these files does not fail), a read takes entries
from the current position on, and each class's `ReadMany` reads `num_pages` entries in
batches of `kEntriesInBuf`.  Addresses are `uintptr_t`: `word64` and `sub64` are its sum
and difference, and the page size `P` is `GetPageSize()`.
-/

set_option autoImplicit false
set_option relaxedAutoImplicit false

namespace TCMalloc.Internal.Pagemap

open TCMalloc.Lib

/-- A `uintptr_t` or `size_t` value: the low 64 bits. -/
def word64 (n : Nat) : Nat := n % 2 ^ 64

/-- `x - y` on `uintptr_t`. -/
def sub64 (x y : Nat) : Nat := word64 (x + 2 ^ 64 - y)

/-- `~(kHardwarePageSize - 1)` as a 64-bit mask. -/
def pageMask (P : Nat) : Nat := 2 ^ 64 - P

/-- `uaddr & ~(kHardwarePageSize - 1)`: the start of the page holding `uaddr`. -/
def basePage (P uaddr : Nat) : Nat := uaddr &&& pageMask P

/-- `(uaddr + size + kHardwarePageSize - 1) & ~(kHardwarePageSize - 1)`: the end of the
page holding the last byte of `[uaddr, uaddr + size)`. -/
def endPage (P uaddr size : Nat) : Nat := word64 (uaddr + size + P - 1) &&& pageMask P

/-- `kBufferLength / kPagemapEntrySize`. -/
def kEntriesInBuf : Nat := 4096 / 8

/-- The entry of page `p`; pages past the end of the file read as `0`. -/
def entry (file : List UInt64) (p : Nat) : UInt64 := file.getD p 0

/-- `Seek(vaddr)`: the index of the entry of the page holding `vaddr`. -/
def seek (P vaddr : Nat) : Nat := vaddr / P

/-- `ReadOne`: the entry at the current position, and the position after it. -/
def readOne (file : List UInt64) (pos : Nat) : Option (UInt64 × Nat) :=
  file[pos]?.map fun e => (e, pos + 1)

/-- `signal_safe_read` of `n` entries into `buf_`, which fails unless all of them are there. -/
def readEntries (file : List UInt64) (pos n : Nat) : Option (List UInt64) :=
  if pos + n ≤ file.length then some ((file.drop pos).take n) else none

section Batches

variable {σ : Type} (file : List UInt64) (visit : UInt64 → σ → Option σ)

/-- One pass of the `while (num_pages > 0)` loop of `ReadMany`: read a batch of
`min(kEntriesInBuf, num_pages)` entries and hand each one to `visit`, which may fail. -/
def readBatchesBody : Nat × Int × σ → Option ((Nat × σ) ⊕ (Nat × Int × σ))
  | (pos, numPages, out) =>
    if 0 < numPages then
      let batchSize := min kEntriesInBuf numPages.toNat
      match readEntries file pos batchSize with
      | none => none
      | some buf =>
        match buf.foldlM (fun out e => visit e out) out with
        | none => none
        | some out => some (.inr (pos + batchSize, numPages - batchSize, out))
    else some (.inl (pos, out))

/-- The `ReadMany` loop; every pass lowers `num_pages`, so `num_pages + 1` passes suffice. -/
def readBatches (pos : Nat) (numPages : Int) (out : σ) : Option (Nat × σ) :=
  whileLoop (readBatchesBody file visit) (numPages.toNat + 1) (pos, numPages, out)

variable {file visit}

theorem readEntries_of_le {pos n : Nat} (h : pos + n ≤ file.length) :
    readEntries file pos n = some ((file.drop pos).take n) := if_pos h

theorem whileLoop_readBatches (fuel : Nat) :
    ∀ (pos : Nat) (numPages : Int) (out : σ), numPages.toNat < fuel →
      pos + numPages.toNat ≤ file.length →
      whileLoop (readBatchesBody file visit) fuel (pos, numPages, out) =
        (((file.drop pos).take numPages.toNat).foldlM (fun out e => visit e out) out).map
          fun out => (pos + numPages.toNat, out) := by
  induction fuel with
  | zero => intro _ _ _ h; omega
  | succ fuel ih =>
    intro pos numPages out hfuel hlen
    by_cases hn : 0 < numPages
    · -- one batch of `b` entries, then the rest of the loop from `pos + b`
      have hb : min kEntriesInBuf numPages.toNat ≤ numPages.toNat := Nat.min_le_right _ _
      have hb1 : 0 < min kEntriesInBuf numPages.toNat := by unfold kEntriesInBuf; omega
      obtain ⟨b, hbdef⟩ : ∃ b, b = min kEntriesInBuf numPages.toNat := ⟨_, rfl⟩
      rw [← hbdef] at hb hb1
      have hsplit : (file.drop pos).take numPages.toNat =
          (file.drop pos).take b ++ (file.drop (pos + b)).take (numPages.toNat - b) := by
        rw [← List.drop_drop, ← List.take_add, Nat.add_sub_cancel' hb]
      have hrest : (numPages - b).toNat = numPages.toNat - b := by omega
      have hbody : readBatchesBody file visit (pos, numPages, out) =
          match ((file.drop pos).take b).foldlM (fun out e => visit e out) out with
          | none => none
          | some out => some (.inr (pos + b, numPages - b, out)) := by
        simp only [readBatchesBody, if_pos hn, ← hbdef, readEntries_of_le (show pos + b ≤ file.length by omega)]
      rw [hsplit, List.foldlM_append]
      cases hfold : ((file.drop pos).take b).foldlM (fun out e => visit e out) out with
      | none =>
        simp only [whileLoop, hbody, hfold, Option.bind_eq_bind, Option.bind_none, Option.map_none]
      | some out' =>
        rw [whileLoop, hbody, hfold]
        simp only [Option.bind_eq_bind, Option.bind_some]
        rw [ih (pos + b) (numPages - b) out' (by omega) (by omega), hrest, Nat.add_assoc,
          Nat.add_sub_cancel' hb]
    · have hzero : numPages.toNat = 0 := by omega
      simp [whileLoop, readBatchesBody, hn, hzero]

theorem readBatches_eq {pos : Nat} {numPages : Int} {out : σ}
    (hlen : pos + numPages.toNat ≤ file.length) :
    readBatches file visit pos numPages out =
      (((file.drop pos).take numPages.toNat).foldlM (fun out e => visit e out) out).map
        fun out => (pos + numPages.toNat, out) :=
  whileLoop_readBatches _ pos numPages out (Nat.lt_succ_self _) hlen

end Batches

theorem readOne_of_lt {file : List UInt64} {pos : Nat} (h : pos < file.length) :
    readOne file pos = some (entry file pos, pos + 1) := by
  simp [readOne, entry, List.getElem?_eq_getElem h, List.getD_eq_getElem?_getD]

theorem foldlM_some {σ : Type} (g : UInt64 → σ → σ) :
    ∀ (l : List UInt64) (out : σ), l.foldlM (fun out e => some (g e out)) out =
      some (l.foldl (fun out e => g e out) out)
  | [], _ => rfl
  | e :: l, out => foldlM_some g l (g e out)

theorem sum_map_take_drop (file : List UInt64) (g : UInt64 → Nat) (pos : Nat) :
    ∀ n, pos + n ≤ file.length →
      (((file.drop pos).take n).map g).sum = ∑ p ∈ Finset.Ico pos (pos + n), g (entry file p)
  | 0, _ => by simp
  | n + 1, h => by
    have hlt : pos + n < file.length := by omega
    have hget : (file.drop pos)[n]? = some file[pos + n] := by
      rw [List.getElem?_drop, List.getElem?_eq_getElem hlt]
    rw [List.take_add_one, hget, List.map_append, List.sum_append, sum_map_take_drop file g pos n (by omega),
      ← Nat.add_assoc, Finset.sum_Ico_succ_top (Nat.le_add_right pos n)]
    simp [entry, List.getD_eq_getElem?_getD, List.getElem?_eq_getElem hlt]

section Geometry

/-! Rounding the object `[a, a + s)` out to pages of `P = 2 ^ k` bytes: with the first page
`b = a / P` and the end page `e = (a + s + P - 1) / P`, the code's `basePage` is `b * P`,
its `endPage` is `e * P`, and `remainingPages` is `e - b`. -/

variable {k a s : Nat}

theorem word64_of_lt {n : Nat} (h : n < 2 ^ 64) : word64 n = n := Nat.mod_eq_of_lt h

theorem sub64_of_le {x y : Nat} (hy : y ≤ x) (hx : x < 2 ^ 64) : sub64 x y = x - y := by
  unfold sub64 word64
  rw [show x + 2 ^ 64 - y = x - y + 2 ^ 64 by omega, Nat.add_mod_right, Nat.mod_eq_of_lt (by omega)]

theorem basePage_eq (hk : k ≤ 64) (ha : a < 2 ^ 64) : basePage (2 ^ k) a = a / 2 ^ k * 2 ^ k :=
  Align.and_two_pow_sub_two_pow hk ha

theorem endPage_eq (hfit : a + s + 2 ^ k < 2 ^ 64) :
    endPage (2 ^ k) a s = (a + s + 2 ^ k - 1) / 2 ^ k * 2 ^ k := by
  have hk : k ≤ 64 := by
    by_contra hk
    have := Nat.pow_lt_pow_right (show 1 < 2 by decide) (show 64 < k by omega)
    omega
  unfold endPage
  rw [word64_of_lt (by omega)]
  exact Align.and_two_pow_sub_two_pow hk (by omega)

theorem le_64_of_fit (hfit : a + s + 2 ^ k < 2 ^ 64) : k ≤ 64 := by
  by_contra hk
  have := Nat.pow_lt_pow_right (show 1 < 2 by decide) (show 64 < k by omega)
  omega

/-- The pages of a non-empty object `[a, a + s)` that ends below the top page of the
address space: its first page `b` and its end page `e`, where the code's address
arithmetic lands and where the object's bytes lie. -/
structure Pages (k a s b e : Nat) : Prop where
  base : basePage (2 ^ k) a = b * 2 ^ k
  endp : endPage (2 ^ k) a s = e * 2 ^ k
  first_le : b * 2 ^ k ≤ a
  lt_next : a < b * 2 ^ k + 2 ^ k
  end_ge : a + s ≤ e * 2 ^ k
  last_lt : e * 2 ^ k < a + s + 2 ^ k
  first_lt : b < e
  top : e * 2 ^ k < 2 ^ 64

theorem pages_of_fit (hs : 0 < s) (hfit : a + s + 2 ^ k < 2 ^ 64) :
    Pages k a s (a / 2 ^ k) ((a + s + 2 ^ k - 1) / 2 ^ k) := by
  have hP : 0 < 2 ^ k := Nat.two_pow_pos k
  obtain ⟨h1, h2⟩ := PageSpan.div_mul_le_lt hP a
  obtain ⟨h3, h4, h5⟩ := PageSpan.end_bounds (a := a) hP hs
  rw [Nat.succ_mul] at h2
  rw [Nat.sub_mul, Nat.one_mul] at h4
  have htop : (a + s + 2 ^ k - 1) / 2 ^ k * 2 ^ k < 2 ^ 64 :=
    lt_of_le_of_lt (Nat.div_mul_le_self _ _) (by omega)
  exact ⟨basePage_eq (le_64_of_fit hfit) (by omega), endPage_eq hfit, h1, h2, h3, by omega, h5,
    htop⟩

namespace Pages

variable {b e : Nat} (hp : Pages k a s b e)
include hp

theorem page_lt : 2 ^ k < 2 ^ 64 :=
  lt_of_le_of_lt (Nat.le_mul_of_pos_left _ (by have := hp.first_lt; omega)) hp.top

theorem seek_base : seek (2 ^ k) (basePage (2 ^ k) a) = b := by
  rw [hp.base]
  exact Nat.mul_div_cancel b (Nat.two_pow_pos k)

theorem remaining : sub64 (endPage (2 ^ k) a s) (basePage (2 ^ k) a) / 2 ^ k = e - b := by
  have hle : b * 2 ^ k ≤ e * 2 ^ k := Nat.mul_le_mul_right _ hp.first_lt.le
  rw [hp.endp, hp.base, sub64_of_le hle hp.top, ← Nat.sub_mul,
    Nat.mul_div_cancel _ (Nat.two_pow_pos k)]

theorem firstPageSize :
    sub64 (2 ^ k) (sub64 a (basePage (2 ^ k) a)) = b * 2 ^ k + 2 ^ k - a := by
  have := hp.lt_next
  have := hp.first_le
  have := hp.top
  have := hp.end_ge
  have := hp.page_lt
  rw [hp.base, sub64_of_le (x := a) hp.first_le (by omega), sub64_of_le (by omega) hp.page_lt]
  omega

theorem lastPageSize :
    sub64 (2 ^ k) (sub64 (sub64 (endPage (2 ^ k) a s) a) s) = a + s + 2 ^ k - e * 2 ^ k := by
  have := hp.end_ge
  have := hp.last_lt
  have := hp.top
  have := hp.page_lt
  rw [hp.endp, sub64_of_le (x := e * 2 ^ k) (y := a) (by omega) hp.top,
    sub64_of_le (x := e * 2 ^ k - a) (y := s) (by omega) (by omega),
    sub64_of_le (by omega) hp.page_lt]
  omega

theorem first_eq : a / 2 ^ k = b :=
  Nat.div_eq_of_lt_le hp.first_le (by rw [Nat.succ_mul]; exact hp.lt_next)

theorem end_eq : (a + s + 2 ^ k - 1) / 2 ^ k = e := by
  have := hp.end_ge
  have := hp.last_lt
  exact Nat.div_eq_of_lt_le (by omega) (by rw [Nat.succ_mul]; omega)

theorem spread_eq_const (hs : 0 < s) {c : Nat} {w : Nat → Nat}
    (hw : ∀ p ∈ Finset.Ico b e, w p = c) :
    PageSpan.spread (2 ^ k) a s w = s * c := by
  exact PageSpan.spread_eq_const (Nat.two_pow_pos k) hs (by rw [hp.first_eq, hp.end_eq]; exact hw)

theorem spread_eq_head (hs : 0 < s) {m : Nat} {w : Nat → Nat} (hm : b < m) (hme : m < e)
    (hw : ∀ p ∈ Finset.Ico b m, w p = w b) :
    PageSpan.spread (2 ^ k) a s w = (m * 2 ^ k - a) * w b + ∑ p ∈ Finset.Ico m (e - 1), 2 ^ k * w p +
      (a + s + 2 ^ k - e * 2 ^ k) * w (e - 1) := by
  have hlast : a + s - (e - 1) * 2 ^ k = a + s + 2 ^ k - e * 2 ^ k := by
    have hmul : (e - 1) * 2 ^ k = e * 2 ^ k - 2 ^ k := by rw [Nat.sub_mul, Nat.one_mul]
    have hpage : 2 ^ k ≤ e * 2 ^ k := Nat.le_mul_of_pos_left _ (by have := hp.first_lt; omega)
    have := hp.last_lt
    have := hp.end_ge
    rw [hmul]
    omega
  rw [PageSpan.spread_eq_head_add (Nat.two_pow_pos k) hs (c := w b) (by rwa [hp.first_eq])
    (by rwa [hp.end_eq]) (by rwa [hp.first_eq]), hp.end_eq, hlast]

end Pages

end Geometry

end TCMalloc.Internal.Pagemap
