import TCMalloc.SizeMap.Basic

/-!
The bitmap of a span of large enough objects.  `BitmapPtrToIdx` divides the
offset of an object by its size with the reciprocal `2 ^ 30 / size`, rounding
to the nearest integer.  For an object index `i` the product misses
`i * size` by `i * (2 ^ 30 % size) < i * size`, and every admitted span holds
at most 32 pages of at most 256 KiB, so the error stays below the `2 ^ 29`
the rounding adds and the division is exact.
-/

set_option autoImplicit false
set_option relaxedAutoImplicit false

namespace TCMalloc.Span

open TCMalloc.Internal

variable {b : Build}

theorem kPageSize_le (b : Build) : b.kPageSize ≤ 2 ^ 18 := by
  have hshift : b.config.kPageShift ≤ 18 := by
    obtain ⟨⟨variant, arch⟩, legacy⟩ := b
    cases variant <;> simp [AlignedAlloc.Config.kPageShift]
  rw [Build.kPageSize, AlignedAlloc.Config.kPageSize_eq]
  exact Nat.pow_le_pow_right (by omega) hshift

theorem kBitmapSize_lt (b : Build) : b.kBitmapSize < 2 ^ 16 := by
  unfold Build.kBitmapSize Build.kCacheSize
  split <;> omega

theorem offsetToIdx_mul {size i : Nat} (hsize : 0 < size) (hbound : i * size ≤ 2 ^ 29) (hi : i < 2 ^ 16) :
    (i * size * calcReciprocal size + kBitmapScalingDenominator / 2) / kBitmapScalingDenominator = i ∧
      offsetToIdx (i * size) (calcReciprocal size) = i := by
  have hD : kBitmapScalingDenominator = 2 ^ 30 := Nat.one_shiftLeft 30
  have hdiv : size * (2 ^ 30 / size) + 2 ^ 30 % size = 2 ^ 30 := Nat.div_add_mod (2 ^ 30) size
  -- the product falls short of `i * 2 ^ 30` by `i * (2 ^ 30 % size)`
  have hshort : i * size * (2 ^ 30 / size) + i * (2 ^ 30 % size) = i * 2 ^ 30 := by
    rw [Nat.mul_assoc, ← Nat.mul_add, hdiv]
  have herr : i * (2 ^ 30 % size) ≤ i * size := Nat.mul_le_mul_left i (Nat.mod_lt _ hsize).le
  have hround : (i * size * (2 ^ 30 / size) + 2 ^ 30 / 2) / 2 ^ 30 = i := by
    apply Nat.div_eq_of_lt_le
    · omega
    · rw [Nat.succ_mul]
      omega
  have hq : (i * size * calcReciprocal size + kBitmapScalingDenominator / 2) / kBitmapScalingDenominator = i := by
    rw [calcReciprocal, hD]
    exact hround
  refine ⟨hq, ?_⟩
  rw [offsetToIdx, hq, Nat.mod_eq_of_lt hi]

theorem idx_bounds {size pages numObjectsToMove i : Nat}
    (hvalid : SizeMap.isValidSizeClass b size pages numObjectsToMove = true)
    (hbitmap : useBitmapForSize b size = true) (hi : i < pages * b.kPageSize / size) :
    0 < size ∧ i * size < pages * b.kPageSize ∧ pages * b.kPageSize ≤ 2 ^ 23 ∧ i < b.kBitmapSize := by
  obtain ⟨hsize, -, -, h32, -, hspan, -⟩ := SizeMap.isValidSizeClass_bounds hvalid
  have hobjects : pages * b.kPageSize / size ≤ b.kBitmapSize := by
    simp only [isValidSizeClass, hbitmap, if_true] at hspan
    split at hspan
    · cases hspan
    · exact of_decide_eq_true hspan
  have hmul : (i + 1) * size ≤ pages * b.kPageSize :=
    (Nat.mul_le_mul_right size hi).trans (Nat.div_mul_le_self _ size)
  have hpage := kPageSize_le b
  have hspanBytes : pages * b.kPageSize ≤ 32 * 2 ^ 18 := Nat.mul_le_mul h32 hpage
  refine ⟨hsize, by rw [Nat.succ_mul] at hmul; omega, by omega, by omega⟩

theorem bitmapPtrToIdx_bitmapIdxToPtr (s : Span b) {size pages numObjectsToMove i : Nat}
    (hvalid : SizeMap.isValidSizeClass b size pages numObjectsToMove = true)
    (hbitmap : useBitmapForSize b size = true) (hi : i < pages * b.kPageSize / size) :
    s.bitmapPtrToIdx (s.bitmapIdxToPtr i size) size (calcReciprocal size) = i := by
  obtain ⟨hsize, hoff, hspan, hidx⟩ := idx_bounds hvalid hbitmap hi
  have hcast : (s.start + i * size - s.start) % 2 ^ 32 = i * size := by
    rw [Nat.add_sub_cancel_left, Nat.mod_eq_of_lt (by omega)]
  rw [bitmapPtrToIdx, bitmapIdxToPtr, hcast]
  exact (offsetToIdx_mul hsize (by omega) ((hidx.trans (kBitmapSize_lt b)))).2

theorem map_bitmapPtrToIdx_bitmapIdxToPtr (s : Span b) {size pages numObjectsToMove : Nat}
    (hvalid : SizeMap.isValidSizeClass b size pages numObjectsToMove = true)
    (hbitmap : useBitmapForSize b size = true) {idxs : List Nat}
    (hidxs : ∀ i ∈ idxs, i < pages * b.kPageSize / size) :
    (idxs.map (s.bitmapIdxToPtr · size)).map (s.bitmapPtrToIdx · size (calcReciprocal size)) = idxs := by
  have hid : ∀ i ∈ idxs, ((s.bitmapPtrToIdx · size (calcReciprocal size)) ∘ (s.bitmapIdxToPtr · size)) i = id i := by
    intro i hi
    rw [Function.comp_apply, id]
    exact bitmapPtrToIdx_bitmapIdxToPtr s hvalid hbitmap (hidxs i hi)
  rw [List.map_map, List.map_congr_left hid, List.map_id]

theorem setBit_foldl_bits (g : Nat → Nat) (l : List Nat) (bm : Bitmap b.kBitmapSize) (k : Nat) :
    (l.foldl (fun bm ptr => bm.setBit (g ptr)) bm).bits k = true ↔ bm.bits k = true ∨ k ∈ l.map g := by
  induction l generalizing bm with
  | nil => simp
  | cons i l ih =>
      rw [List.foldl_cons, ih]
      by_cases hk : k = g i
      · simp [Bitmap.setBit, hk]
      · simp [Bitmap.setBit, hk]

theorem bitmapPushBatch_bits (s : Span b) {size pages numObjectsToMove : Nat}
    (hvalid : SizeMap.isValidSizeClass b size pages numObjectsToMove = true)
    (hbitmap : useBitmapForSize b size = true) {idxs : List Nat}
    (hidxs : ∀ i ∈ idxs, i < pages * b.kPageSize / size) (k : Nat) :
    (s.bitmapPushBatch (idxs.map (s.bitmapIdxToPtr · size)) size (calcReciprocal size)).bitmap.bits k = true ↔
      s.bitmap.bits k = true ∨ k ∈ idxs := by
  have hmap := map_bitmapPtrToIdx_bitmapIdxToPtr s hvalid hbitmap hidxs
  show ((idxs.map (s.bitmapIdxToPtr · size)).foldl
      (fun bm ptr => bm.setBit (s.bitmapPtrToIdx ptr size (calcReciprocal size))) s.bitmap).bits k = true ↔ _
  rw [setBit_foldl_bits, hmap]

theorem bitmapPopBatch_eq (s : Span b) (n size : Nat) :
    ∃ idxs : List Nat, (s.bitmapPopBatch n size).1 = idxs.map (s.bitmapIdxToPtr · size) ∧
      idxs.length = min n ((List.range b.kBitmapSize).countP (s.bitmap.bits ·)) ∧
      (∀ i ∈ idxs, s.bitmap.bits i = true) ∧
      ∀ k, ((s.bitmapPopBatch n size).2.bitmap.bits k = true ↔ s.bitmap.bits k = true ∧ k ∉ idxs) := by
  refine ⟨(s.bitmap.popBatch n).1, rfl, ?_, ?_, ?_⟩
  · simp [Bitmap.popBatch, List.countP_eq_length_filter]
  · intro i hi
    have hmem := List.mem_of_mem_take hi
    simp only [List.mem_filter, List.mem_range] at hmem
    exact hmem.2
  · intro k
    simp only [bitmapPopBatch, Bitmap.popBatch]
    by_cases hk : k ∈ ((List.range b.kBitmapSize).filter fun j => s.bitmap.bits j).take n
    · simp [hk]
    · simp [hk]

/-- On an admitted span of bitmap size, `BitmapPtrToIdx(BitmapIdxToPtr(i))` is
`i` for every object `i`, by exact rounding of the reciprocal product, and it
fits in `ObjIdx` below `kBitmapSize`; so a push of objects sets exactly their
bits, and a pop of `n` hands out `min n` of the set bits, read back by
`BitmapPtrToIdx` as those bits, and clears exactly them. -/
theorem span_bitmap_reciprocal_exact (s : Span b) {size pages numObjectsToMove : Nat}
    (hvalid : SizeMap.isValidSizeClass b size pages numObjectsToMove = true)
    (hbitmap : useBitmapForSize b size = true) :
    (∀ i < pages * b.kPageSize / size,
      s.bitmapPtrToIdx (s.bitmapIdxToPtr i size) size (calcReciprocal size) = i ∧
      (i * size * calcReciprocal size + kBitmapScalingDenominator / 2) / kBitmapScalingDenominator = i ∧
      i < 2 ^ 16 ∧ i < b.kBitmapSize) ∧
    (∀ idxs : List Nat, (∀ i ∈ idxs, i < pages * b.kPageSize / size) → ∀ k,
      ((s.bitmapPushBatch (idxs.map (s.bitmapIdxToPtr · size)) size (calcReciprocal size)).bitmap.bits k = true ↔
        s.bitmap.bits k = true ∨ k ∈ idxs)) ∧
    ∀ n, (∀ i, s.bitmap.bits i = true → i < pages * b.kPageSize / size) →
      ∃ idxs : List Nat, (s.bitmapPopBatch n size).1.map (s.bitmapPtrToIdx · size (calcReciprocal size)) = idxs ∧
        (s.bitmapPopBatch n size).1 = idxs.map (s.bitmapIdxToPtr · size) ∧
        idxs.length = min n ((List.range b.kBitmapSize).countP (s.bitmap.bits ·)) ∧
        (∀ i ∈ idxs, s.bitmap.bits i = true) ∧
        ∀ k, ((s.bitmapPopBatch n size).2.bitmap.bits k = true ↔ s.bitmap.bits k = true ∧ k ∉ idxs) := by
  refine ⟨fun i hi => ?_, fun idxs hidxs k => bitmapPushBatch_bits s hvalid hbitmap hidxs k, fun n hset => ?_⟩
  · obtain ⟨hsize, hoff, hspan, hidx⟩ := idx_bounds hvalid hbitmap hi
    have hround := (offsetToIdx_mul hsize (by omega) (hidx.trans (kBitmapSize_lt b))).1
    exact ⟨bitmapPtrToIdx_bitmapIdxToPtr s hvalid hbitmap hi, hround, hidx.trans (kBitmapSize_lt b), hidx⟩
  · obtain ⟨idxs, hpop, hlen, hbits, hclear⟩ := s.bitmapPopBatch_eq n size
    refine ⟨idxs, ?_, hpop, hlen, hbits, hclear⟩
    rw [hpop]
    exact map_bitmapPtrToIdx_bitmapIdxToPtr s hvalid hbitmap fun i hi => hset i (hbits i hi)

/-- The default build, without legacy locking. -/
def defaultBuild : Build := ⟨AlignedAlloc.defaultConfig, false⟩

/-- A fresh one-page span of 64-byte objects at address `2 ^ 16`. -/
def span64 : Span defaultBuild := ⟨2 ^ 16, 0, [], kListEnd, 0, Bitmap.empty, fun _ => 0⟩

theorem span_bitmap_reciprocal_exact_at_64_bytes :
    SizeMap.isValidSizeClass defaultBuild 64 1 32 = true ∧ useBitmapForSize defaultBuild 64 = true ∧
    ((∀ i < 1 * defaultBuild.kPageSize / 64,
      span64.bitmapPtrToIdx (span64.bitmapIdxToPtr i 64) 64 (calcReciprocal 64) = i ∧
      (i * 64 * calcReciprocal 64 + kBitmapScalingDenominator / 2) / kBitmapScalingDenominator = i ∧
      i < 2 ^ 16 ∧ i < defaultBuild.kBitmapSize) ∧
    (∀ idxs : List Nat, (∀ i ∈ idxs, i < 1 * defaultBuild.kPageSize / 64) → ∀ k,
      ((span64.bitmapPushBatch (idxs.map (span64.bitmapIdxToPtr · 64)) 64 (calcReciprocal 64)).bitmap.bits k = true ↔
        span64.bitmap.bits k = true ∨ k ∈ idxs)) ∧
    ∀ n, (∀ i, span64.bitmap.bits i = true → i < 1 * defaultBuild.kPageSize / 64) →
      ∃ idxs : List Nat, (span64.bitmapPopBatch n 64).1.map (span64.bitmapPtrToIdx · 64 (calcReciprocal 64)) = idxs ∧
        (span64.bitmapPopBatch n 64).1 = idxs.map (span64.bitmapIdxToPtr · 64) ∧
        idxs.length = min n ((List.range defaultBuild.kBitmapSize).countP (span64.bitmap.bits ·)) ∧
        (∀ i ∈ idxs, span64.bitmap.bits i = true) ∧
        ∀ k, ((span64.bitmapPopBatch n 64).2.bitmap.bits k = true ↔ span64.bitmap.bits k = true ∧ k ∉ idxs)) := by
  have hvalid : SizeMap.isValidSizeClass defaultBuild 64 1 32 = true := by decide
  have hbitmap : useBitmapForSize defaultBuild 64 = true := by decide
  exact ⟨hvalid, hbitmap, span_bitmap_reciprocal_exact span64 hvalid hbitmap⟩

end TCMalloc.Span
