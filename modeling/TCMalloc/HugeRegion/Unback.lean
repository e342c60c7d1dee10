import Mathlib.Algebra.BigOperators.Group.List.Basic
import TCMalloc.HugeRegion.Accounts

/-!
`UnbackHugepages` over hugepages that are backed and hold no used page: each
maximal run of marked hugepages is blocked, passed to `unback_` and restored,
and the checks on the way never fail.
-/

set_option autoImplicit false
set_option relaxedAutoImplicit false

namespace TCMalloc

open TCMalloc.Lib.Scan TCMalloc.Lib.Blocks TCMalloc.Internal

namespace HugeRegion

variable {H P : Nat}

/-- `s` with the hugepages `[i, j)` released: what a successful `unback_` call
on them leaves. -/
def unbacked (s : HugeRegion H P) (i j : Nat) : HugeRegion H P :=
  { s with backed := fun k => if i ≤ k ∧ k < j then false else s.backed k
           nbacked := s.nbacked - (j - i)
           freeBackedCount := s.freeBackedCount - (j - i) }

section Unbacking

variable {s : HugeRegion H P} {b : Bitmap (H * P)}

theorem freeBacked_eq_true {h : Nat} :
    s.freeBacked h = true ↔ s.backed h = true ∧ s.pagesUsed h = 0 := by
  simp [freeBacked]

theorem count_freeBacked_unbacked {i j : Nat} (hij : i ≤ j) (hj : j ≤ H)
    (hfree : ∀ h, i ≤ h → h < j → s.freeBacked h = true) :
    Nat.count (fun h => s.freeBacked h = true) H =
      Nat.count (fun h => (s.unbacked i j).freeBacked h = true) H + (j - i) := by
  apply count_of_clear_range s.freeBacked (s.unbacked i j).freeBacked hij hj
  · intro h hh
    show ((if i ≤ h ∧ h < j then false else s.backed h) && s.pagesUsed h == 0) = _
    rw [if_neg (by omega)]
    rfl
  · intro h hi hj
    refine ⟨hfree h hi hj, ?_⟩
    show ((if i ≤ h ∧ h < j then false else s.backed h) && s.pagesUsed h == 0) = false
    rw [if_pos ⟨hi, hj⟩, Bool.false_and]

theorem accounts_unbacked (acc : Accounts s b) {i j : Nat} (hij : i ≤ j) (hj : j ≤ H)
    (hfree : ∀ h, i ≤ h → h < j → s.freeBacked h = true) : Accounts (s.unbacked i j) b := by
  have hin : ∀ h, i ≤ h → h < j → s.backed h = true ∧ s.pagesUsed h = 0 :=
    fun h hi hj => freeBacked_eq_true.mp (hfree h hi hj)
  have hout : ∀ h, (h < i ∨ j ≤ h) → (s.unbacked i j).backed h = s.backed h :=
    fun h hh => if_neg (by omega)
  constructor
  · exact acc.used
  · intro h hh hpos
    change 0 < s.pagesUsed h at hpos
    rw [hout h (by by_contra hc; have := (hin h (by omega) (by omega)).2; omega)]
    exact acc.backed_of_used h hh hpos
  · have := count_of_clear_range s.backed (s.unbacked i j).backed hij hj hout
      (fun h hi hj => ⟨(hin h hi hj).1, if_pos ⟨hi, hj⟩⟩)
    show s.nbacked - (j - i) = _
    rw [acc.nbacked]
    omega
  · have := count_freeBacked_unbacked hij hj hfree
    show s.freeBackedCount - (j - i) = _
    rw [acc.freeBacked]
    omega

theorem valid_unbacked (v : s.Valid) {i j : Nat} (hij : i ≤ j) (hj : j ≤ H)
    (hfree : ∀ h, i ≤ h → h < j → s.freeBacked h = true) : (s.unbacked i j).Valid :=
  ⟨accounts_unbacked v.accounts hij hj hfree, v.exact, v.nallocs⟩

theorem unbackRun_eq (hN : H * P < 2 ^ 64) (hP : 0 < P) (v : s.Valid) {i j : Nat} (hij : i < j)
    (hj : j ≤ H) (hfree : ∀ h, i ≤ h → h < j → s.freeBacked h = true) (success : Bool) :
    unbackRun s i j success = some (if success then (s.unbacked i j, j - i) else (s, 0)) := by
  have hused : ∀ h, i ≤ h → h < j → s.pagesUsed h = 0 :=
    fun h hi hj => (freeBacked_eq_true.mp (hfree h hi hj)).2
  have hend : i * P + (j - i) * P = j * P := by rw [← Nat.add_mul, Nat.add_sub_cancel' hij.le]
  have hclear : s.tracker.bits.ClearOn (i * P) (i * P + (j - i) * P) := by
    intro k hk hk'
    rw [hend] at hk'
    have hlo : i ≤ k / P := (Nat.le_div_iff_mul_le hP).mpr hk
    have hhi : k / P < j := (Nat.div_lt_iff_lt_mul hP).mpr hk'
    have hzero : blockCount s.tracker.bits.bits P (k / P) = 0 := by
      rw [← v.accounts.used (k / P) (by omega)]
      exact hused _ hlo hhi
    have hk := div_mul_le_self_lt hP k
    exact clear_of_blockCount_eq_zero _ hzero k hk.1 hk.2
  have htracker : (s.tracker.mark (i * P) ((j - i) * P)).unmark (i * P) ((j - i) * P) = s.tracker :=
    RangeTracker.unmark_mark hN v.exact v.nallocs
      ⟨Nat.mul_pos (by omega) hP, by rw [hend]; exact Nat.mul_le_mul_right P hj, hclear⟩
  have hsum0 : ((List.range' i (j - i)).map s.pagesUsed).sum = 0 := by
    apply List.sum_eq_zero
    simp only [List.mem_map, List.mem_range'_1]
    rintro _ ⟨k, ⟨hk, hk'⟩, rfl⟩
    exact hused k hk (by omega)
  have hsumP : ((List.range' i (j - i)).map
      fun k => if i ≤ k ∧ k < j then P else s.pagesUsed k).sum = (j - i) * P := by
    have hconst : ((List.range' i (j - i)).map
        fun k => if i ≤ k ∧ k < j then P else s.pagesUsed k) = (List.range' i (j - i)).map fun _ => P := by
      apply List.map_congr_left
      intro k hk
      rw [List.mem_range'_1] at hk
      exact if_pos ⟨hk.1, by omega⟩
    rw [hconst, List.map_const', List.length_range', List.sum_const_nat]
  have hpages : (fun k => if i ≤ k ∧ k < j then 0
      else if i ≤ k ∧ k < j then P else s.pagesUsed k) = s.pagesUsed := by
    funext k
    by_cases hk : i ≤ k ∧ k < j
    · rw [if_pos hk, hused k hk.1 hk.2]
    · rw [if_neg hk, if_neg hk]
  have hcount := count_freeBacked_unbacked hij.le hj hfree
  have hfb : j - i ≤ s.freeBackedCount := by
    rw [v.accounts.freeBacked, hcount]
    omega
  unfold unbackRun
  simp only [hsum0, hsumP, ne_eq, not_true_eq_false, ↓reduceIte, htracker, hpages]
  cases success
  · simp only [Bool.false_eq_true, ↓reduceIte, Nat.sub_add_cancel hfb]
  · rfl

theorem unbacked_freeBacked_of_not_mem {i j h : Nat} (hh : h < i ∨ j ≤ h) :
    (s.unbacked i j).freeBacked h = s.freeBacked h := by
  show ((if i ≤ h ∧ h < j then false else s.backed h) && s.pagesUsed h == 0) = _
  rw [if_neg (by omega)]
  rfl

end Unbacking

/-- What `UnbackHugepages(should_unback)` did from hugepage `i` on, taking `s` to
`s'` with the calls `calls` of `unback_`: each call is on a maximal run of
`should_unback` inside `[i, H)`, the calls cover every marked hugepage there, a
hugepage stays backed unless a call on it succeeded, and the tracker and
`pages_used_` are as they were. -/
structure Unbacked (su : Nat → Bool) (unback : Nat → Nat → Bool) (i : Nat)
    (s s' : HugeRegion H P) (calls : List (Nat × Nat)) : Prop where
  run : ∀ c ∈ calls, i ≤ c.1 ∧ 0 < c.2 ∧ c.1 + c.2 ≤ H ∧ ∀ h, c.1 ≤ h → h < c.1 + c.2 → su h = true
  maximal : ∀ c ∈ calls, (c.1 = 0 ∨ su (c.1 - 1) = false) ∧ (c.1 + c.2 = H ∨ su (c.1 + c.2) = false)
  cover : ∀ h, i ≤ h → h < H → su h = true → ∃ c ∈ calls, c.1 ≤ h ∧ h < c.1 + c.2
  backed : ∀ h, s'.backed h = true ↔
    s.backed h = true ∧ ¬ ∃ c ∈ calls, unback c.1 c.2 = true ∧ c.1 ≤ h ∧ h < c.1 + c.2
  tracker : s'.tracker = s.tracker
  pagesUsed : s'.pagesUsed = s.pagesUsed

namespace Unbacked

variable {su : Nat → Bool} {unback : Nat → Nat → Bool} {s s' : HugeRegion H P}
  {calls : List (Nat × Nat)}

theorem nil {i : Nat} (hnone : ∀ h, i ≤ h → h < H → su h = false) : Unbacked su unback i s s [] where
  run := by simp
  maximal := by simp
  cover := fun h hi hh hsu => by
    rw [hnone h hi hh] at hsu
    exact absurd hsu (by simp)
  backed := by simp
  tracker := rfl
  pagesUsed := rfl

theorem skip {i : Nat} (hsu : su i = false) (u : Unbacked su unback (i + 1) s s' calls) :
    Unbacked su unback i s s' calls where
  run := fun c hc => ⟨by have := (u.run c hc).1; omega, (u.run c hc).2⟩
  maximal := u.maximal
  cover := fun h hi hh hsuh => by
    have hne : h ≠ i := fun he => by rw [he, hsu] at hsuh; exact absurd hsuh (by simp)
    exact u.cover h (by omega) hh hsuh
  backed := u.backed
  tracker := u.tracker
  pagesUsed := u.pagesUsed

theorem cons {i j : Nat} {s₁ : HugeRegion H P} (hij : i < j) (hj : j ≤ H)
    (hrun : ∀ h, i ≤ h → h < j → su h = true) (hleft : i = 0 ∨ su (i - 1) = false)
    (hright : j = H ∨ su j = false) (hs₁ : s₁ = if unback i (j - i) then s.unbacked i j else s)
    (u : Unbacked su unback j s₁ s' calls) : Unbacked su unback i s s' ((i, j - i) :: calls) := by
  have hlen : i + (j - i) = j := Nat.add_sub_cancel' hij.le
  constructor
  · intro c hc
    rcases List.mem_cons.mp hc with rfl | hc
    · dsimp only
      rw [hlen]
      exact ⟨le_rfl, by omega, hj, hrun⟩
    · have := u.run c hc
      exact ⟨by omega, this.2⟩
  · intro c hc
    rcases List.mem_cons.mp hc with rfl | hc
    · dsimp only
      rw [hlen]
      exact ⟨hleft, hright⟩
    · exact u.maximal c hc
  · intro h hi hh hsu
    by_cases hhj : h < j
    · exact ⟨(i, j - i), List.mem_cons_self, hi, by dsimp only; omega⟩
    · obtain ⟨c, hc, hcover⟩ := u.cover h (by omega) hh hsu
      exact ⟨c, List.mem_cons_of_mem _ hc, hcover⟩
  · intro h
    rw [u.backed h, hs₁]
    simp only [List.mem_cons, exists_eq_or_imp, hlen]
    cases unback i (j - i)
    · simp
    · by_cases hh : i ≤ h ∧ h < j
      · simp [unbacked, hh]
      · simp only [unbacked, hh, ↓reduceIte, true_and, false_or]
  · rw [u.tracker, hs₁]
    split <;> rfl
  · rw [u.pagesUsed, hs₁]
    split <;> rfl

end Unbacked

theorem unbackFrom_spec (hN : H * P < 2 ^ 64) (hP : 0 < P) (unback : Nat → Nat → Bool)
    (su : Nat → Bool) :
    ∀ (fuel : Nat) {s : HugeRegion H P} {i : Nat}, s.Valid → H - i ≤ fuel →
      (H ≤ i ∨ i = 0 ∨ su (i - 1) = false ∨ su i = false) →
      (∀ h, i ≤ h → h < H → su h = true → s.freeBacked h = true) →
      ∃ s' released calls, unbackFrom unback su fuel s i = some (s', released, calls) ∧
        s'.Valid ∧ Unbacked su unback i s s' calls ∧ s'.freeBackedCount + released = s.freeBackedCount
  | 0, s, i, v, hfuel, _, _ =>
      ⟨s, 0, [], rfl, v, Unbacked.nil fun h hi hh => absurd hh (by omega), rfl⟩
  | fuel + 1, s, i, v, hfuel, hstart, hfree => by
      by_cases hH : H ≤ i
      · refine ⟨s, 0, [], ?_, v, Unbacked.nil fun h hi hh => absurd hh (by omega), rfl⟩
        rw [unbackFrom, if_pos hH]
      cases hi : su i
      · obtain ⟨s', r, calls, hcall, v', u, hcount⟩ := unbackFrom_spec hN hP unback su fuel v (by omega)
          (Or.inr (Or.inr (Or.inl (show su (i + 1 - 1) = false from hi))))
          (fun h hh hh' => hfree h (by omega) hh')
        refine ⟨s', r, calls, ?_, v', u.skip hi, hcount⟩
        simp only [unbackFrom, hH, hi, Bool.not_false, ↓reduceIte]
        exact hcall
      · obtain ⟨hij, hjH, hrun, hend⟩ := run_of_firstFrom_not su (by omega : i < H) hi
        simp only [unbackFrom, hH, hi, Bool.not_true, Bool.false_eq_true, ↓reduceIte]
        generalize firstFrom (fun k => !su k) (H - i) i = j at hij hjH hrun hend ⊢
        have hfree' : ∀ h, i ≤ h → h < j → s.freeBacked h = true :=
          fun h h1 h2 => hfree h h1 (by omega) (hrun h h1 h2)
        obtain ⟨s₁, r₁, hrun₁, hs₁, hcount₁⟩ : ∃ s₁ r₁, unbackRun s i j (unback i (j - i)) = some (s₁, r₁) ∧
            (s₁ = if unback i (j - i) then s.unbacked i j else s) ∧
            s₁.freeBackedCount + r₁ = s.freeBackedCount := by
          rw [unbackRun_eq hN hP v hij hjH hfree']
          -- the run's hugepages are counted in `free_backed_count_`, so taking them off does not wrap
          have hle : j - i ≤ s.freeBackedCount := by
            rw [v.accounts.freeBacked, count_freeBacked_unbacked hij.le hjH hfree']
            exact Nat.le_add_left _ _
          cases unback i (j - i)
          · exact ⟨s, 0, rfl, rfl, rfl⟩
          · refine ⟨s.unbacked i j, j - i, rfl, rfl, ?_⟩
            show s.freeBackedCount - (j - i) + (j - i) = s.freeBackedCount
            omega
        have v₁ : s₁.Valid := by
          rw [hs₁]
          split
          · exact valid_unbacked v hij.le hjH hfree'
          · exact v
        have hfree₁ : ∀ h, j ≤ h → h < H → su h = true → s₁.freeBacked h = true := by
          intro h h1 h2 h3
          rw [hs₁]
          split
          · rw [unbacked_freeBacked_of_not_mem (Or.inr h1)]
            exact hfree h (by omega) h2 h3
          · exact hfree h (by omega) h2 h3
        have hstart₁ : H ≤ j ∨ j = 0 ∨ su (j - 1) = false ∨ su j = false := by
          by_cases hjH' : j < H
          · exact Or.inr (Or.inr (Or.inr (hend hjH')))
          · exact Or.inl (by omega)
        obtain ⟨s', r, calls, hcall, v', u, hcount⟩ :=
          unbackFrom_spec hN hP unback su fuel v₁ (by omega) hstart₁ hfree₁
        have hleft : i = 0 ∨ su (i - 1) = false := by
          rcases hstart with h | h | h | h
          · exact absurd h hH
          · exact Or.inl h
          · exact Or.inr h
          · rw [hi] at h
            exact absurd h (by simp)
        have hright : j = H ∨ su j = false := by
          by_cases hjH' : j < H
          · exact Or.inr (hend hjH')
          · exact Or.inl (by omega)
        refine ⟨s', r₁ + r, (i, j - i) :: calls, ?_, v', u.cons hij hjH hrun hleft hright hs₁,
          by omega⟩
        rw [hrun₁]
        dsimp only
        rw [hcall]
        rfl

theorem unbackHugepages_spec (hN : H * P < 2 ^ 64) (hP : 0 < P) {s : HugeRegion H P} (v : s.Valid)
    {su : Nat → Bool} (hfree : ∀ h < H, su h = true → s.freeBacked h = true)
    (unback : Nat → Nat → Bool) :
    ∃ s' released calls, s.unbackHugepages su unback = some (s', released, calls) ∧
      s'.Valid ∧ Unbacked su unback 0 s s' calls ∧ s'.freeBackedCount + released = s.freeBackedCount :=
  unbackFrom_spec hN hP unback su H v (by omega) (Or.inr (Or.inl rfl))
    (fun h _ hh hsu => hfree h hh hsu)

end HugeRegion

end TCMalloc
