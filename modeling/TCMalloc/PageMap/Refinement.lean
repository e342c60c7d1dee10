import TCMalloc.PageMap.PageMap3

/-!
The two radix trees against the flat page map.  Over every run of calls from the
empty map, `PageMap2` and `PageMap3` answer what `PageMapSpec.replay` of the calls
says, `get` answers `nullptr` above `2 ^ BITS`, an `Ensure` that returns `true`
backs its whole range when `start + n` does not wrap, and a write to one page
changes no other page's answers.

The flat map is not a plain map of pages to `(span, size class)`, though:
`clear_sizeclass` clears only the `sizeclass` array, so the size class packed with
the span survives it and `sizeclass()` then fails its `TC_ASSERT_EQ`; and
`get_next_set_page` starts from `k + 1` as a `uintptr_t`, which wraps to `0`.
-/

set_option autoImplicit false
set_option relaxedAutoImplicit false

namespace TCMalloc.PageMap

open TCMalloc.Lib

/-- The `PageMap2<kAddressBits - kPageShift, MetaDataAlloc>` of x86-64 with 8 KiB pages:
`kAddressBits = 48`, `kPageShift = 13`, `kHugePageShift = 21`, and a one-byte
`CompactSizeClass`. -/
def defaultParams : PageMap2.Params := ⟨35, 13, 21, 8, by decide⟩

theorem pageMap_refines_flat_map :
    (∀ (P : PageMap2.Params) (calls : List (Call (Nat → Bool))) (m : PageMap2),
      Run (PageMap2.step P) (PageMap2.Allowed P) PageMap2.init calls m →
        PageMap2.Answers P m (PageMapSpec.replay P.layout.hugepageShift calls) ∧
        (∀ k, 2 ^ P.BITS ≤ k → PageMap2.get P m k = 0) ∧
        (∀ allocLeaf start n m', PageMap2.ensure P allocLeaf m start n = some (true, m') →
          start + n ≤ 2 ^ 64 → ∀ k, start ≤ k → k < start + n → (m'.root (k >>> PageMap2.kLeafBits)).isSome) ∧
        (∀ allocLeaf start n, (∀ i, allocLeaf i = true) → 0 < n → start + n ≤ 2 ^ 64 → start + n ≤ 2 ^ P.BITS →
          ∃ m', PageMap2.ensure P allocLeaf m start n = some (true, m')) ∧
        (∀ c m' k k', PageMap2.Allowed P m c → PageMap2.step P m c = some m' → c.writtenPage = some k →
          k' ≠ k → PageMap2.SameAnswers P m m' k')) ∧
    (∀ (P : PageMap3.Params) (calls : List (Call ((Nat → Bool) × (Nat → Nat → Bool)))) (m : PageMap3),
      Run (PageMap3.step P) (PageMap3.Allowed P) PageMap3.init calls m →
        PageMap3.Answers P m (PageMapSpec.replay P.layout.hugepageShift calls) ∧
        (∀ k, 2 ^ P.BITS ≤ k → PageMap3.get P m k = 0) ∧
        (∀ allocNode allocLeaf start n m', PageMap3.ensure P allocNode allocLeaf m start n = (true, m') →
          start + n ≤ 2 ^ 64 → ∀ k, start ≤ k → k < start + n →
            (PageMap3.leafTable P m' (k >>> PageMap3.kLeafBits P)).isSome) ∧
        (∀ allocNode allocLeaf start n, (∀ i, allocNode i = true) → (∀ i j, allocLeaf i j = true) → 0 < n →
          start + n ≤ 2 ^ 64 → start + n ≤ 2 ^ P.BITS → (PageMap3.ensure P allocNode allocLeaf m start n).1 = true) ∧
        (∀ c m' k k', PageMap3.Allowed P m c → PageMap3.step P m c = some m' → c.writtenPage = some k →
          k' ≠ k → PageMap3.SameAnswers P m m' k')) := by
  refine ⟨fun P calls m run => ?_, fun P calls m run => ?_⟩
  · have rep := PageMap2.rep_of_run run
    exact ⟨PageMap2.answers_of_rep rep, fun k hk => PageMap2.get_of_pow_BITS_le P m hk,
      fun _ _ _ _ hens hfit => PageMap2.ensure_backs hens hfit,
      fun _ _ _ halloc hn hfit hbits => PageMap2.exists_ensure_true P halloc m hn hfit
        (hbits.trans PageMap2.pow_BITS_le_kRootLength_mul),
      fun _ _ _ _ hok hstep hw hk => PageMap2.sameAnswers_of_write rep hok hstep hw hk⟩
  · obtain ⟨rep, hbound⟩ := PageMap3.rep_of_run run
    exact ⟨PageMap3.answers_of_rep rep, fun k hk => PageMap3.get_of_pow_BITS_le P m hk,
      fun _ _ _ _ _ hens hfit => PageMap3.ensure_backs hbound hens hfit,
      fun _ _ _ _ hnode hleaf hn hfit hbits => PageMap3.ensure_true hnode hleaf (by omega) hbits hfit,
      fun _ _ _ _ hok hstep hw hk => PageMap3.sameAnswers_of_write rep hbound hok hstep hw hk⟩

theorem ensure_first_page_backed :
    ∃ m, PageMap2.step defaultParams PageMap2.init (.ensure 0 1 fun _ => true) = some m ∧
      PageMap2.backed defaultParams m 0 = true := by
  obtain ⟨m, hens⟩ : ∃ m, PageMap2.ensure defaultParams (fun _ => true) PageMap2.init 0 1 = some (true, m) :=
    PageMap2.exists_ensure_true defaultParams (fun _ => rfl) PageMap2.init (by decide) (by decide) (by decide)
  have hroot := PageMap2.ensure_backs hens (by decide) 0 (Nat.le_refl 0) (by decide)
  refine ⟨m, by simp [PageMap2.step, hens], ?_⟩
  simp only [PageMap2.backed, Nat.zero_shiftRight, beq_self_eq_true, Bool.true_and]
  exact hroot

theorem pageMap_refines_flat_map_after_register :
    ∃ m, Run (PageMap2.step defaultParams) (PageMap2.Allowed defaultParams) PageMap2.init
        [.ensure 0 1 (fun _ => true), .setWithSizeclass 0 8 3] m ∧
      PageMap2.getExistingWithSizeclass defaultParams false m 0 = some (8, 3) ∧
      PageMap2.sizeclass defaultParams m 0 = some 3 := by
  obtain ⟨m₁, hens, hb₁⟩ := ensure_first_page_backed
  obtain ⟨m₂, hset⟩ := PageMap2.exists_setWithSizeclass hb₁ 8 3
  have hb₂ : PageMap2.backed defaultParams m₂ 0 = true := by
    rw [PageMap2.backed_of_write (c := .setWithSizeclass 0 8 3) hset rfl]
    exact hb₁
  have run : Run (PageMap2.step defaultParams) (PageMap2.Allowed defaultParams) PageMap2.init
      [.ensure 0 1 (fun _ => true), .setWithSizeclass 0 8 3] m₂ :=
    .cons trivial hens (.cons ⟨by decide, by decide⟩ hset (.nil _))
  have ans := (pageMap_refines_flat_map.1 defaultParams _ m₂ run).1
  refine ⟨m₂, run, ?_, ?_⟩
  · rw [ans.getExistingWithSizeclass_false_eq, hb₂, if_pos rfl]
    rfl
  · rw [ans.sizeclass_eq]
    rfl

/-- On the default x86-64 page map: after `RegisterSizeClass` and `UnregisterSizeClass`
of a one-page span, `get_existing_with_sizeclass` still answers the old size class and
`sizeclass()` fails its assertion; `get_next_set_page` of the last page answers page
`0`, which is not above it; and an `Ensure` whose `start + n` wraps returns `true`
without backing `start`. -/
theorem pageMap_unregistered_page_keeps_sizeclass :
    (∃ m, Run (PageMap2.step defaultParams) (PageMap2.Allowed defaultParams) PageMap2.init
        [.ensure 0 1 (fun _ => true), .setWithSizeclass 0 8 3, .clearSizeclass 0] m ∧
      PageMap2.getExistingWithSizeclass defaultParams true m 0 = some (8, 3) ∧
      PageMap2.sizeclass defaultParams m 0 = none ∧
      PageMap2.getNextSetPage defaultParams m (2 ^ 64 - 1) = some 0) ∧
    PageMap2.ensure defaultParams (fun _ => true) PageMap2.init 5 (2 ^ 64 - 2) = some (true, PageMap2.init) ∧
    PageMap2.backed defaultParams PageMap2.init 5 = false := by
  refine ⟨?_, ?_, rfl⟩
  · obtain ⟨m₁, hens, hb₁⟩ := ensure_first_page_backed
    obtain ⟨m₂, hset⟩ := PageMap2.exists_setWithSizeclass hb₁ 8 3
    have hb₂ : PageMap2.backed defaultParams m₂ 0 = true := by
      rw [PageMap2.backed_of_write (c := .setWithSizeclass 0 8 3) hset rfl]
      exact hb₁
    obtain ⟨m₃, hclear⟩ := PageMap2.exists_clearSizeclass hb₂
    have run : Run (PageMap2.step defaultParams) (PageMap2.Allowed defaultParams) PageMap2.init
        [.ensure 0 1 (fun _ => true), .setWithSizeclass 0 8 3, .clearSizeclass 0] m₃ :=
      .cons trivial hens (.cons ⟨by decide, by decide⟩ hset (.cons trivial hclear (.nil _)))
    have ans := PageMap2.answers_of_rep (PageMap2.rep_of_run run)
    refine ⟨m₃, run, ?_, ?_, ?_⟩
    · rw [ans.getExistingWithSizeclass_true_eq]
      rfl
    · rw [ans.sizeclass_eq]
      rfl
    · -- the search starts from `(2 ^ 64 - 1 + 1) % 2 ^ 64 = 0`, where page `0` holds a span
      have hnext := ans.getNextSetPage_spec (2 ^ 64 - 1)
      have hzero : (2 ^ 64 - 1 + 1) % 2 ^ 64 = 0 := by decide
      rw [hzero] at hnext
      refine PageMapSpec.IsFirstSetPage.unique hnext ⟨Nat.le_refl 0, ?_, fun j _ hj => absurd hj (Nat.not_lt_zero j)⟩
      decide
  · -- `start + n - 1` wraps to `2`, below `start`, so the loop never runs
    have hlast : (5 + (2 ^ 64 - 2) - 1) % 2 ^ 64 = 2 := by decide
    simp only [PageMap2.ensure, hlast]
    rw [if_neg (by decide), PageMap2.ensureLoop, if_neg (by decide)]

end TCMalloc.PageMap
