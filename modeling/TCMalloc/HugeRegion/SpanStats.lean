import TCMalloc.HugeRegion.Accounts

/-!
`AddSpanStats` of a valid region.  Its walk over the free ranges of the tracker,
cut where the backing of the hugepages changes, meets every free page once and
counts it in `f` when its hugepage is backed and in `u` otherwise; so `f` and
`u` are `free_pages()` and `unmapped_pages()` and both `TC_CHECK_EQ`s at its end
hold.
-/

set_option autoImplicit false
set_option relaxedAutoImplicit false

namespace TCMalloc

open TCMalloc.Lib.Scan TCMalloc.Lib.Blocks TCMalloc.Internal

namespace HugeRegion

variable {H P : Nat}

/-- Page `k` is free and its hugepage is backed as `backed` says. -/
def freeAs (s : HugeRegion H P) (backed : Bool) (k : Nat) : Bool :=
  !s.tracker.bits.bits k && (s.backed (k / P) == backed)

section Walk

variable (hP : 0 < P) (s : HugeRegion H P)
include hP

theorem truncateLoop_spec (backed : Bool) :
    ∀ (fuel : Nat) {p n i : Nat} (truncated : Nat), n ≤ fuel → (0 < n → p / P = i) →
      ∃ t, s.truncateLoop backed fuel p n i truncated = truncated + t ∧ t ≤ n ∧
        (∀ k, p ≤ k → k < p + t → s.backed (k / P) = backed) ∧
        (t < n → s.backed ((p + t) / P) ≠ backed)
  | fuel, p, 0, i, truncated, _, _ => by
      refine ⟨0, ?_, le_rfl, fun k hk hk' => absurd hk' (by omega), fun h => absurd h (by omega)⟩
      cases fuel <;> simp [truncateLoop]
  | 0, _, n + 1, _, _, hfuel, _ => absurd hfuel (by omega)
  | fuel + 1, p, n + 1, i, truncated, hfuel, hi => by
      have hpi := hi (Nat.succ_pos n)
      subst hpi
      by_cases hb : s.backed (p / P) = backed
      · rw [truncateLoop, if_pos ⟨Nat.succ_pos n, hb⟩]
        dsimp only
        obtain ⟨hpos, hlo, hhi⟩ := piece_spec hP p (n + 1) (Nat.succ_pos n)
        generalize hhere : min (n + 1) ((p / P + 1) * P - p) = here at hpos hlo hhi ⊢
        have hnext : 0 < n + 1 - here → (p + here) / P = p / P + 1 := fun hrest =>
          div_eq_of_mem_block hP (by omega) (by rw [Nat.succ_mul]; omega)
        obtain ⟨t, heq, hle, hall, hend⟩ :=
          truncateLoop_spec backed fuel (truncated + here) (by omega) hnext
        refine ⟨here + t, by rw [heq]; omega, by omega, fun k hk hk' => ?_, fun ht => ?_⟩
        · by_cases hkh : k < p + here
          · rw [div_eq_of_mem_block hP (show p / P * P ≤ k by omega) (by omega)]
            exact hb
          · exact hall k (by omega) (by omega)
        · rw [← Nat.add_assoc]
          exact hend (by omega)
      · rw [truncateLoop, if_neg fun h => hb h.2]
        exact ⟨0, rfl, by omega, fun k hk hk' => absurd hk' (by omega), fun _ => hb⟩

omit hP in
theorem count_freeAs_of_piece {index i t : Nat} (backed : Bool) (hi : index ≤ i)
    (hused : s.tracker.bits.SetOn index i) (hfree : s.tracker.bits.ClearOn i (i + t))
    (hbacked : ∀ k, i ≤ k → k < i + t → s.backed (k / P) = backed) (b : Bool) :
    Nat.count (fun k => s.freeAs b k = true) (i + t) =
      Nat.count (fun k => s.freeAs b k = true) index + if backed = b then t else 0 := by
  have hskip := count_eq_of_noneIn (s.freeAs b) hi fun k hk hk' => by
    simp [freeAs, hused k hk hk']
  rw [← hskip]
  split
  · rename_i hbb
    have := count_eq_add_of_allIn (s.freeAs b) (Nat.le_add_right i t) fun k hk hk' => by
      simp [freeAs, hfree k hk hk', hbacked k hk hk', hbb]
    rw [this, Nat.add_sub_cancel_left]
  · rename_i hbb
    have := count_eq_of_noneIn (s.freeAs b) (Nat.le_add_right i t) fun k hk hk' => by
      simp [freeAs, hfree k hk hk', hbacked k hk hk', hbb]
    rw [this, Nat.add_zero]

theorem spanStatsFrom_spec :
    ∀ (fuel index : Nat) (fu : Nat × Nat), H * P - index ≤ fuel →
      s.spanStatsFrom fuel index fu =
        (fu.1 + (Nat.count (fun k => s.freeAs true k = true) (H * P) -
            Nat.count (fun k => s.freeAs true k = true) index),
          fu.2 + (Nat.count (fun k => s.freeAs false k = true) (H * P) -
            Nat.count (fun k => s.freeAs false k = true) index))
  | 0, index, fu, hfuel => by
      have h1 := Nat.count_monotone (fun k => s.freeAs true k = true) (show H * P ≤ index by omega)
      have h2 := Nat.count_monotone (fun k => s.freeAs false k = true) (show H * P ≤ index by omega)
      rw [Nat.sub_eq_zero_of_le h1, Nat.sub_eq_zero_of_le h2]
      rfl
  | fuel + 1, index, fu, hfuel => by
      rw [spanStatsFrom]
      cases hnext : s.tracker.bits.nextFreeRange index with
      | none =>
          have hset := s.tracker.bits.nextFreeRange_eq_none hnext
          have hcount : ∀ b, Nat.count (fun k => s.freeAs b k = true) (H * P) -
              Nat.count (fun k => s.freeAs b k = true) index = 0 := by
            intro b
            by_cases hle : index ≤ H * P
            · rw [count_eq_of_noneIn (s.freeAs b) hle fun k hk hk' => by simp [freeAs, hset k hk hk']]
              exact Nat.sub_self _
            · exact Nat.sub_eq_zero_of_le (Nat.count_monotone _ (by omega))
          dsimp only
          rw [hcount true, hcount false]
          rfl
      | some r =>
          obtain ⟨i, len⟩ := r
          obtain ⟨hi, hused, hlen, hfit, hfree, -⟩ := s.tracker.bits.nextFreeRange_eq_some hnext
          dsimp only
          obtain ⟨t, heq, hle, hbacked, hend⟩ :=
            truncateLoop_spec hP s (s.backed (i / P)) len 0 le_rfl fun _ => rfl
          have htpos : 0 < t := by
            by_contra h0
            exact hend (by omega) (by rw [show t = 0 by omega, Nat.add_zero])
          rw [heq, Nat.zero_add, spanStatsFrom_spec fuel (i + t) _ (by omega)]
          have hpiece := count_freeAs_of_piece s (s.backed (i / P)) hi hused
            (Bitmap.clearOn_mono hfree le_rfl (by omega)) hbacked
          have hmono := fun b => Nat.count_monotone (fun k => s.freeAs b k = true)
            (show i + t ≤ H * P by omega)
          have ht := hpiece true
          have hf := hpiece false
          have hmt := hmono true
          have hmf := hmono false
          cases hb : s.backed (i / P) <;>
            simp only [hb, Bool.false_eq_true, Bool.true_eq_false, ↓reduceIte] at ht hf ⊢ <;>
            refine Prod.ext ?_ ?_ <;> dsimp only <;> omega

end Walk

section Totals

variable {s : HugeRegion H P} (hP : 0 < P) (v : s.Valid)
include hP v

theorem count_freeAs_false : Nat.count (fun k => s.freeAs false k = true) (H * P) = (H - s.nbacked) * P := by
  have hpt : ∀ k < H * P, s.freeAs false k = !s.backed (k / P) := by
    intro k hk
    have hh : k / P < H := Nat.div_lt_of_lt_mul (by rw [Nat.mul_comm]; exact hk)
    cases hb : s.backed (k / P)
    · have hused : s.pagesUsed (k / P) = 0 := by
        by_contra hne
        have := v.accounts.backed_of_used _ hh (Nat.pos_of_ne_zero hne)
        rw [hb] at this
        exact absurd this (by simp)
      have hzero : blockCount s.tracker.bits.bits P (k / P) = 0 := by
        rw [← v.accounts.used _ hh]
        exact hused
      have hk := div_mul_le_self_lt hP k
      have hbit := clear_of_blockCount_eq_zero _ hzero k hk.1 hk.2
      simp [freeAs, hb, hbit]
    · simp [freeAs, hb]
  have htot : Nat.count (fun h => s.backed h = true) H + Nat.count (fun h => (!s.backed h) = true) H = H := by
    have := count_and_add_count_and_not (fun _ => true) s.backed H
    simpa using this
  rw [count_congr_of_lt _ _ hpt, count_comp_div (fun h => !s.backed h) hP H, v.accounts.nbacked]
  congr 1
  omega

omit hP in
theorem count_freeAs_add :
    Nat.count (fun k => s.freeAs true k = true) (H * P) +
      Nat.count (fun k => s.freeAs false k = true) (H * P) = H * P - s.usedPages := by
  have hsplit := count_and_add_count_and_not (fun k => !s.tracker.bits.bits k)
    (fun k => s.backed (k / P)) (H * P)
  have hbits := count_and_add_count_and_not (fun _ => true) s.tracker.bits.bits (H * P)
  simp only [Bool.true_and, Nat.count_true] at hbits
  rw [count_congr_of_lt (s.freeAs true) (fun k => !s.tracker.bits.bits k && s.backed (k / P))
      fun k _ => by simp [freeAs],
    count_congr_of_lt (s.freeAs false) (fun k => !s.tracker.bits.bits k && !s.backed (k / P))
      fun k _ => by simp [freeAs], hsplit]
  have hused : s.usedPages = Nat.count (fun k => s.tracker.bits.bits k = true) (H * P) :=
    v.exact.used
  omega

end Totals

theorem addSpanStats_eq (hP : 0 < P) {s : HugeRegion H P} (v : s.Valid) :
    s.addSpanStats = some (s.freePages, s.unmappedPages) := by
  have hwalk := spanStatsFrom_spec hP s (H * P) 0 (0, 0) (by omega)
  have hu := count_freeAs_false hP v
  have hf := count_freeAs_add v
  simp only [Nat.count_zero, Nat.sub_zero, Nat.zero_add] at hwalk
  have hfree : Nat.count (fun k => s.freeAs true k = true) (H * P) = s.freePages := by
    unfold freePages unmappedPages
    omega
  unfold addSpanStats
  rw [hwalk, hfree, hu]
  simp [unmappedPages]

end HugeRegion

end TCMalloc
