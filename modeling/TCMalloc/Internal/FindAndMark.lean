import TCMalloc.Internal.RangeTracker

/-!
`FindAndMark(n)` is best fit.  The scan keeps a candidate only when a later
range is strictly shorter, and the free ranges come in address order, so of
the shortest runs that fit it returns the first.  Together with
`Bitmap.mem_freeRanges_iff` this is a statement about the maximal clear runs
of the bitmap, whatever the scan visits.
-/

set_option autoImplicit false
set_option relaxedAutoImplicit false

namespace TCMalloc.Internal

namespace RangeTracker

open Bitmap

variable {N n : Nat}

/-- Every range of `l` before the candidate `(index, len)` that holds `n` bits is strictly longer. -/
def FirstBest (n : Nat) (l : List (Nat × Nat)) (index len : Nat) : Prop :=
  ∀ r ∈ l, n ≤ r.2 → r.1 < index → len < r.2

theorem firstBest_step {l : List (Nat × Nat)} {index len : Nat} (r : Nat × Nat)
    (hbest : BestInv N n l index len) (hfirst : FirstBest n l index len) (hafter : ∀ x ∈ l, x.1 < r.1)
    (hr : 0 < r.2 ∧ r.1 + r.2 ≤ N) :
    FirstBest n (l ++ [r]) (if r.2 ≥ n ∧ r.2 < len then r else (index, len)).1
      (if r.2 ≥ n ∧ r.2 < len then r else (index, len)).2 := by
  intro x hx hn hlt
  split at hlt
  · rename_i hbetter
    rw [if_pos hbetter]
    rcases List.mem_append.mp hx with hx | hx
    · have := hbest.le x hx hn
      omega
    · simp only [List.mem_singleton] at hx
      subst hx
      omega
  · rename_i hworse
    rw [if_neg hworse]
    rcases List.mem_append.mp hx with hx | hx
    · exact hfirst x hx hn hlt
    · simp only [List.mem_singleton] at hx
      subst hx
      -- `r` is no shorter; an equal length would need a candidate after `r`
      rcases hbest.mem with ⟨rfl, rfl⟩ | ⟨hmem, -⟩
      · omega
      · have := hafter _ hmem
        simp only at hlt this
        omega

theorem firstBest_foldl (l : List (Nat × Nat)) :
    ∀ (l₀ : List (Nat × Nat)) (s : Scan), ScanInv N n l₀ s → FirstBest n l₀ s.bestIndex s.bestLen →
      (l₀ ++ l).Pairwise (fun x y => x.1 < y.1) → (∀ x ∈ l, 0 < x.2 ∧ x.1 + x.2 ≤ N) →
      FirstBest n (l₀ ++ l) (l.foldl (scanStep n) s).bestIndex (l.foldl (scanStep n) s).bestLen := by
  induction l with
  | nil =>
      intro l₀ s _ hfirst _ _
      simpa using hfirst
  | cons r l ih =>
      intro l₀ s hs hfirst hsorted hin
      have hafter : ∀ x ∈ l₀, x.1 < r.1 := fun x hx =>
        (List.pairwise_append.mp hsorted).2.2 x hx r List.mem_cons_self
      have hstep := firstBest_step r hs.best hfirst hafter (hin r List.mem_cons_self)
      rw [← scanStep_best] at hstep
      have hrest := ih (l₀ ++ [r]) (scanStep n s r) (scanInv_step r hs) hstep (by simpa using hsorted)
        fun x hx => hin x (List.mem_cons_of_mem r hx)
      simpa using hrest

theorem firstBest_freeRanges (b : Bitmap N) :
    FirstBest n b.freeRanges (b.freeRanges.foldl (scanStep n) (scanInit N)).bestIndex
      (b.freeRanges.foldl (scanStep n) (scanInit N)).bestLen := by
  have hsorted : b.freeRanges.Pairwise (fun x y => x.1 < y.1) :=
    b.freeRanges_sorted.imp fun {x y} h => by omega
  have hinit : ScanInv N n [] (scanInit N) := ⟨longestInv_nil, ⟨by simp, Or.inl ⟨rfl, rfl⟩⟩⟩
  have := firstBest_foldl b.freeRanges [] (scanInit N) hinit (by simp [FirstBest]) hsorted
    fun x hx => ⟨(b.mem_freeRanges hx).1, (b.mem_freeRanges hx).2.1⟩
  simpa using this

variable {t : RangeTracker N}

theorem findAndMark_best_fit (hlong : t.bits.IsLongestFree t.longestFree) (hpos : 0 < n)
    (hle : n ≤ t.longestFree) :
    ∃ i len t', t.findAndMark n = some (i, t') ∧ t.bits.IsFreeRun i len ∧ n ≤ len ∧
      (∀ j len', t.bits.IsFreeRun j len' → n ≤ len' → len ≤ len' ∧ (j < i → len < len')) ∧
      t.bits.ClearOn i (i + n) ∧ (∀ k, i ≤ k → k < i + n → t'.bits.bits k = true) ∧
      ∀ k, k < i ∨ i + n ≤ k → t'.bits.bits k = t.bits.bits k := by
  set s := t.bits.freeRanges.foldl (scanStep n) (scanInit N) with hs
  have inv : ScanInv N n t.bits.freeRanges s := scanInv_foldl t.bits.freeRanges
  have hbest : (s.bestIndex, s.bestLen) ∈ t.bits.freeRanges ∧ n ≤ s.bestLen := scan_best_mem hlong hpos hle
  have hrun : t.bits.IsFreeRun s.bestIndex s.bestLen := t.bits.mem_freeRanges_iff.mp hbest.1
  have hBle : s.bestIndex + s.bestLen ≤ N := hrun.2.1
  have hBclear : t.bits.ClearOn s.bestIndex (s.bestIndex + s.bestLen) := hrun.2.2.1
  have hidx : s.bestIndex < N := by omega
  have hfm : t.findAndMark n = some (s.bestIndex,
      { bits := t.bits.setRange s.bestIndex n
        longestFree := toCount N ((if s.bestLen = s.longestLen then
            (if s.longestLen - n < s.secondLen then s.secondLen else s.longestLen - n)
          else s.longestLen : Nat) : Int)
        nused := toCount N (t.nused + n)
        nallocs := toCount N (t.nallocs + 1) }) := by
    simp only [findAndMark]
    rw [← hs, if_pos hidx]
  refine ⟨s.bestIndex, s.bestLen, _, hfm, hrun, hbest.2, ?_, clearOn_mono hBclear le_rfl (by omega), ?_, ?_⟩
  · intro j len' hj hn
    have hmem : (j, len') ∈ t.bits.freeRanges := t.bits.mem_freeRanges_iff.mpr hj
    exact ⟨inv.best.le _ hmem hn, firstBest_freeRanges t.bits _ hmem hn⟩
  · intro k hk hk'
    simp [hk, hk']
  · intro k hk
    have hout : ¬ (s.bestIndex ≤ k ∧ k < s.bestIndex + n) := by omega
    simp only [setRange_bits, if_neg hout]

/-- A tracker of 8 bits whose free runs are `[0, 3)`, `[4, 6)` and `[7, 8)`. -/
def threeRuns : RangeTracker 8 := ⟨⟨fun k => k == 3 || k == 6⟩, 3, 2, 0⟩

theorem threeRuns_isLongestFree : threeRuns.bits.IsLongestFree threeRuns.longestFree := by
  have h := isLongestFree_freeRanges threeRuns.bits
  have hval : threeRuns.bits.freeRanges.foldl longestStep 0 = 3 := by decide
  rw [hval] at h
  exact h

theorem findAndMark_best_fit_at_three_runs :
    threeRuns.bits.IsLongestFree threeRuns.longestFree ∧ 0 < 2 ∧ 2 ≤ threeRuns.longestFree ∧
      ∃ i len t', threeRuns.findAndMark 2 = some (i, t') ∧ threeRuns.bits.IsFreeRun i len ∧ 2 ≤ len ∧
        (∀ j len', threeRuns.bits.IsFreeRun j len' → 2 ≤ len' → len ≤ len' ∧ (j < i → len < len')) ∧
        threeRuns.bits.ClearOn i (i + 2) ∧ (∀ k, i ≤ k → k < i + 2 → t'.bits.bits k = true) ∧
        ∀ k, k < i ∨ i + 2 ≤ k → t'.bits.bits k = threeRuns.bits.bits k :=
  ⟨threeRuns_isLongestFree, by decide, by decide,
    findAndMark_best_fit threeRuns_isLongestFree (by decide) (by decide)⟩

example : (threeRuns.findAndMark 2).map Prod.fst = some 4 := by decide

end RangeTracker

end TCMalloc.Internal
