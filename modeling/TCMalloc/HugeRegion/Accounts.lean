import TCMalloc.Lib.Blocks
import TCMalloc.HugeRegion.Basic

/-!
The accounts of a `HugeRegion` against a bitmap of used pages: what one
iteration and the whole loop of `Inc` and of `Dec` do to `pages_used_`,
`backed_`, `nbacked_` and `free_backed_count_`.
-/

set_option autoImplicit false
set_option relaxedAutoImplicit false

namespace TCMalloc

open TCMalloc.Lib.Scan TCMalloc.Lib.Blocks TCMalloc.Internal

namespace HugeRegion

variable {H P : Nat}

section Accounts

/-- The per-hugepage arrays and the counters agree with the bitmap `b`:
`pages_used_[i]` counts the used pages of hugepage `i`, a hugepage with a used
page is backed, and the two counters count the backed hugepages and those of
them with no used page. -/
structure Accounts (s : HugeRegion H P) (b : Bitmap (H * P)) : Prop where
  used : ∀ i < H, s.pagesUsed i = blockCount b.bits P i
  backed_of_used : ∀ i < H, 0 < s.pagesUsed i → s.backed i = true
  nbacked : s.nbacked = Nat.count (fun i => s.backed i = true) H
  freeBacked : s.freeBackedCount = Nat.count (fun i => s.freeBacked i = true) H

variable {s : HugeRegion H P} {b : Bitmap (H * P)}

theorem incTouch_eq (i : Nat) (sb : Bool) (hbacked : 0 < s.pagesUsed i → s.backed i = true) :
    incTouch s i sb =
      ({ s with backed := Function.update s.backed i true
                nbacked := s.nbacked + (if s.backed i = true then 0 else 1)
                freeBackedCount := s.freeBackedCount - (if s.freeBacked i = true then 1 else 0) },
        sb || !s.backed i) := by
  have hupd : s.backed i = true → Function.update s.backed i true = s.backed := fun hb => by
    rw [← hb]
    exact Function.update_eq_self i s.backed
  unfold incTouch freeBacked
  by_cases hu : s.pagesUsed i = 0
  · cases hb : s.backed i
    · simp [hu]
    · simp [hu, hupd hb]
  · have hb := hbacked (Nat.pos_of_ne_zero hu)
    simp [hu, hb, hupd hb]

theorem incStep_eq (i here : Nat) (sb : Bool) (hbacked : 0 < s.pagesUsed i → s.backed i = true) :
    incStep s i here sb =
      ({ s with backed := Function.update s.backed i true
                pagesUsed := Function.update s.pagesUsed i (s.pagesUsed i + here)
                nbacked := s.nbacked + (if s.backed i = true then 0 else 1)
                freeBackedCount := s.freeBackedCount - (if s.freeBacked i = true then 1 else 0) },
        sb || !s.backed i) := by
  simp only [incStep, incTouch_eq i sb hbacked]

theorem incStep_tracker (i here : Nat) (sb : Bool) : (incStep s i here sb).1.tracker = s.tracker := by
  unfold incStep incTouch
  split
  · split <;> rfl
  · rfl

theorem incStep_backed {i : Nat} (here : Nat) (sb : Bool)
    (hbacked : 0 < s.pagesUsed i → s.backed i = true) :
    (incStep s i here sb).1.backed = Function.update s.backed i true := by
  rw [incStep_eq i here sb hbacked]

theorem incStep_snd {i : Nat} (here : Nat) (sb : Bool)
    (hbacked : 0 < s.pagesUsed i → s.backed i = true) :
    (incStep s i here sb).2 = (sb || !s.backed i) := by
  rw [incStep_eq i here sb hbacked]

theorem accounts_incStep (acc : Accounts s b) {i p here : Nat} (hi : i < H) (hlo : i * P ≤ p)
    (hhi : p + here ≤ (i + 1) * P) (hpos : 0 < here) (hclear : b.ClearOn p (p + here))
    (sb : Bool) : Accounts (incStep s i here sb).1 (b.setRange p here) := by
  have hcount := blockCount_of_set_range b.bits (b.setRange p here).bits p here i
    (fun k hk => by simp only [Bitmap.setRange_bits]; rw [if_neg (by omega)])
    (fun k hk hk' => ⟨hclear k hk hk', by simp [hk, hk']⟩) hlo hhi
  obtain ⟨hbacked, hused, hnbacked, hfree⟩ :
      (incStep s i here sb).1.backed = Function.update s.backed i true ∧
      (incStep s i here sb).1.pagesUsed = Function.update s.pagesUsed i (s.pagesUsed i + here) ∧
      (incStep s i here sb).1.nbacked = s.nbacked + (if s.backed i = true then 0 else 1) ∧
      (incStep s i here sb).1.freeBackedCount =
        s.freeBackedCount - (if s.freeBacked i = true then 1 else 0) := by
    rw [incStep_eq i here sb (acc.backed_of_used i hi)]
    exact ⟨rfl, rfl, rfl, rfl⟩
  generalize (incStep s i here sb).1 = s₁ at hbacked hused hnbacked hfree ⊢
  have hoff : ∀ k, k ≠ i → s₁.backed k = s.backed k ∧ s₁.pagesUsed k = s.pagesUsed k :=
    fun k hk => ⟨by rw [hbacked, Function.update_of_ne hk], by rw [hused, Function.update_of_ne hk]⟩
  have hbi : s₁.backed i = true := by rw [hbacked, Function.update_self]
  have hui : s₁.pagesUsed i = s.pagesUsed i + here := by rw [hused, Function.update_self]
  constructor
  · intro h hh
    rw [hcount h]
    by_cases hhi : h = i
    · subst hhi
      rw [hui, acc.used h hh, if_pos rfl]
    · rw [(hoff h hhi).2, acc.used h hh, if_neg hhi, Nat.add_zero]
  · intro h hh hpos'
    by_cases hhi : h = i
    · subst hhi
      exact hbi
    · rw [(hoff h hhi).2] at hpos'
      rw [(hoff h hhi).1]
      exact acc.backed_of_used h hh hpos'
  · have hc := count_add_of_eq_off s.backed s₁.backed hi (fun k hk => (hoff k hk).1)
    simp only [hbi, ↓reduceIte] at hc
    rw [hnbacked, acc.nbacked]
    cases hb : s.backed i <;> simp only [hb, Bool.false_eq_true, ↓reduceIte] at hc ⊢ <;> omega
  · have hfi : s₁.freeBacked i = false := by
      simp only [freeBacked, hbi, hui, Bool.true_and, beq_eq_false_iff_ne]
      omega
    have hc := count_add_of_eq_off s.freeBacked s₁.freeBacked hi
      (fun k hk => by simp only [freeBacked, (hoff k hk).1, (hoff k hk).2])
    simp only [hfi, Bool.false_eq_true, ↓reduceIte, Nat.add_zero] at hc
    rw [hfree, acc.freeBacked]
    cases hf : s.freeBacked i <;> simp only [hf, Bool.false_eq_true, ↓reduceIte] at hc ⊢ <;> omega

theorem decStep_eq (su : Nat → Bool) (i here : Nat) :
    decStep s su i here =
      ({ s with pagesUsed := Function.update s.pagesUsed i (s.pagesUsed i - here)
                freeBackedCount := s.freeBackedCount + (if s.pagesUsed i - here = 0 then 1 else 0) },
        if s.pagesUsed i - here = 0 then Function.update su i true else su) := by
  unfold decStep
  by_cases h0 : s.pagesUsed i - here = 0 <;> simp [h0]

theorem accounts_decStep (acc : Accounts s b) {i p here : Nat} (hi : i < H) (hlo : i * P ≤ p)
    (hhi : p + here ≤ (i + 1) * P) (hpos : 0 < here) (hset : b.SetOn p (p + here))
    (su : Nat → Bool) : Accounts (decStep s su i here).1 (b.clearRange p here) := by
  have hcount := blockCount_of_set_range (b.clearRange p here).bits b.bits p here i
    (fun k hk => by simp only [Bitmap.clearRange_bits]; rw [if_neg (by omega)])
    (fun k hk hk' => ⟨by simp [hk, hk'], hset k hk hk'⟩) hlo hhi
  have hui : here ≤ s.pagesUsed i := by
    rw [acc.used i hi, hcount i, if_pos rfl]
    omega
  have hbi : s.backed i = true := acc.backed_of_used i hi (by omega)
  obtain ⟨hbacked, hused, hnbacked, hfree⟩ :
      (decStep s su i here).1.backed = s.backed ∧
      (decStep s su i here).1.pagesUsed = Function.update s.pagesUsed i (s.pagesUsed i - here) ∧
      (decStep s su i here).1.nbacked = s.nbacked ∧
      (decStep s su i here).1.freeBackedCount =
        s.freeBackedCount + (if s.pagesUsed i - here = 0 then 1 else 0) := by
    rw [decStep_eq su i here]
    exact ⟨rfl, rfl, rfl, rfl⟩
  generalize (decStep s su i here).1 = s₁ at hbacked hused hnbacked hfree ⊢
  have hoff : ∀ k, k ≠ i → s₁.pagesUsed k = s.pagesUsed k :=
    fun k hk => by rw [hused, Function.update_of_ne hk]
  have hu1 : s₁.pagesUsed i = s.pagesUsed i - here := by rw [hused, Function.update_self]
  constructor
  · intro h hh
    by_cases hhi : h = i
    · subst hhi
      have := hcount h
      rw [hu1, acc.used h hh, this, if_pos rfl]
      omega
    · rw [hoff h hhi, acc.used h hh, hcount h, if_neg hhi, Nat.add_zero]
  · intro h hh hpos'
    rw [hbacked]
    by_cases hhi : h = i
    · subst hhi
      exact hbi
    · rw [hoff h hhi] at hpos'
      exact acc.backed_of_used h hh hpos'
  · rw [hnbacked, hbacked]
    exact acc.nbacked
  · have hfi : s.freeBacked i = false := by
      simp only [freeBacked, hbi, Bool.true_and, beq_eq_false_iff_ne]
      omega
    have hc := count_add_of_eq_off s.freeBacked s₁.freeBacked hi
      (fun k hk => by simp only [freeBacked, hbacked, hoff k hk])
    have hf1 : s₁.freeBacked i = decide (s.pagesUsed i - here = 0) := by
      by_cases h0 : s.pagesUsed i - here = 0 <;> simp [freeBacked, hbacked, hbi, hu1, h0]
    simp only [hfi, hf1, Bool.false_eq_true, ↓reduceIte, Nat.add_zero, decide_eq_true_eq] at hc
    rw [hfree, acc.freeBacked]
    by_cases h0 : s.pagesUsed i - here = 0 <;> simp only [h0, ↓reduceIte] at hc ⊢ <;> omega

end Accounts

theorem incLoop_zero (fuel : Nat) (s : HugeRegion H P) (p : Nat) (sb : Bool) :
    incLoop fuel s p 0 sb = (s, sb) := by
  cases fuel <;> rfl

theorem decLoop_zero (fuel : Nat) (s : HugeRegion H P) (su : Nat → Bool) (p : Nat) :
    decLoop fuel s su p 0 = (s, su) := by
  cases fuel <;> rfl

section Loops

variable (hP : 0 < P)
include hP

theorem incLoop_spec : ∀ (fuel : Nat) {s : HugeRegion H P} {b : Bitmap (H * P)} {p n : Nat}
    (sb : Bool), Accounts s b → n ≤ fuel → p + n ≤ H * P → b.ClearOn p (p + n) →
    Accounts (incLoop fuel s p n sb).1 (b.setRange p n) ∧
      (incLoop fuel s p n sb).1.tracker = s.tracker ∧
      (∀ h, (incLoop fuel s p n sb).1.backed h = true ↔ s.backed h = true ∨ Touches P h p n) ∧
      ((incLoop fuel s p n sb).2 = true ↔ sb = true ∨ ∃ h, Touches P h p n ∧ s.backed h = false)
  | fuel, s, b, p, 0, sb, acc, _, _, _ => by
      rw [incLoop_zero]
      refine ⟨by rwa [Bitmap.setRange, Bitmap.setRangeValue_zero], rfl, fun h => ?_, ?_⟩
      · simp [not_touches_zero]
      · simp [not_touches_zero]
  | 0, _, _, _, n + 1, _, _, hfuel, _, _ => absurd hfuel (by omega)
  | fuel + 1, s, b, p, n + 1, sb, acc, hfuel, hfit, hclear => by
      rw [incLoop, if_neg (Nat.succ_ne_zero n)]
      obtain ⟨hpos, hlo, hhi⟩ := piece_spec hP p (n + 1) (Nat.succ_pos n)
      generalize hhere : min (n + 1) ((p / P + 1) * P - p) = here at hpos hlo hhi
      have hi : p / P < H := Nat.div_lt_of_lt_mul (by rw [Nat.mul_comm]; omega)
      have hbi := acc.backed_of_used (p / P) hi
      have acc1 := accounts_incStep acc hi hlo hhi hpos (Bitmap.clearOn_mono hclear le_rfl (by omega)) sb
      have hclear1 : (b.setRange p here).ClearOn (p + here) (p + here + (n + 1 - here)) := by
        intro k hk hk'
        simp only [Bitmap.setRange_bits]
        rw [if_neg (by omega)]
        exact hclear k (by omega) (by omega)
      obtain ⟨iacc, itr, ibacked, irel⟩ :=
        incLoop_spec fuel (incStep s (p / P) here sb).2 acc1 (by omega) (by omega) hclear1
      have hmerge : (b.setRange p here).setRange (p + here) (n + 1 - here) = b.setRange p (n + 1) := by
        have := Bitmap.setRangeValue_append b true p here (n + 1 - here)
        rwa [Nat.add_sub_cancel' (by omega)] at this
      have htouch := fun h => touches_iff_piece hP h p (n + 1) (Nat.succ_pos n)
      rw [hhere] at htouch
      refine ⟨hmerge ▸ iacc, itr.trans (incStep_tracker _ _ _), fun h => ?_, ?_⟩
      · rw [ibacked, incStep_backed here sb hbi, htouch h]
        by_cases hh : h = p / P
        · subst hh
          simp
        · simp [hh]
      · rw [irel, incStep_snd here sb hbi, incStep_backed here sb hbi]
        constructor
        · rintro (hor | ⟨h, ht, hb⟩)
          · rcases Bool.or_eq_true _ _ |>.mp hor with hsb | hnb
            · exact Or.inl hsb
            · exact Or.inr ⟨p / P, (htouch _).mpr (Or.inl rfl), by simpa using hnb⟩
          · have hh : h ≠ p / P := fun hh => by subst hh; simp at hb
            rw [Function.update_of_ne hh] at hb
            exact Or.inr ⟨h, (htouch h).mpr (Or.inr ht), hb⟩
        · rintro (hsb | ⟨h, ht, hb⟩)
          · exact Or.inl (by simp [hsb])
          · by_cases hh : h = p / P
            · subst hh
              exact Or.inl (by simp [hb])
            · rcases (htouch h).mp ht with hh' | ht'
              · exact absurd hh' hh
              · exact Or.inr ⟨h, ht', by rw [Function.update_of_ne hh]; exact hb⟩

theorem decLoop_spec : ∀ (fuel : Nat) {s : HugeRegion H P} {b : Bitmap (H * P)}
    {su : Nat → Bool} {p n : Nat}, Accounts s b → n ≤ fuel → p + n ≤ H * P → b.SetOn p (p + n) →
    Accounts (decLoop fuel s su p n).1 (b.clearRange p n) ∧
      (decLoop fuel s su p n).1.tracker = s.tracker ∧
      (decLoop fuel s su p n).1.backed = s.backed ∧
      (∀ h, ¬ Touches P h p n → (decLoop fuel s su p n).1.pagesUsed h = s.pagesUsed h) ∧
      (∀ h, (decLoop fuel s su p n).2 h = true ↔
        su h = true ∨ (Touches P h p n ∧ (decLoop fuel s su p n).1.pagesUsed h = 0))
  | fuel, s, b, su, p, 0, acc, _, _, _ => by
      rw [decLoop_zero]
      refine ⟨by rwa [Bitmap.clearRange, Bitmap.setRangeValue_zero], rfl, rfl, fun _ _ => rfl, ?_⟩
      simp [not_touches_zero]
  | 0, _, _, _, _, n + 1, _, hfuel, _, _ => absurd hfuel (by omega)
  | fuel + 1, s, b, su, p, n + 1, acc, hfuel, hfit, hset => by
      rw [decLoop, if_neg (Nat.succ_ne_zero n)]
      dsimp only
      have hrest := not_touches_piece_rest hP p (n + 1)
      obtain ⟨hpos, hlo, hhi⟩ := piece_spec hP p (n + 1) (Nat.succ_pos n)
      have htouch := fun h => touches_iff_piece hP h p (n + 1) (Nat.succ_pos n)
      generalize hhere : min (n + 1) ((p / P + 1) * P - p) = here at hpos hlo hhi hrest htouch
      have hi : p / P < H := Nat.div_lt_of_lt_mul (by rw [Nat.mul_comm]; omega)
      have acc1 := accounts_decStep acc hi hlo hhi hpos (fun k hk hk' => hset k hk (by omega)) su
      have hset1 : (b.clearRange p here).SetOn (p + here) (p + here + (n + 1 - here)) := by
        intro k hk hk'
        simp only [Bitmap.clearRange_bits]
        rw [if_neg (by omega)]
        exact hset k (by omega) (by omega)
      obtain ⟨iacc, itr, ibacked, iframe, isu⟩ :=
        @decLoop_spec fuel _ _ (decStep s su (p / P) here).2 _ _ acc1 (by omega) (by omega) hset1
      have hmerge : (b.clearRange p here).clearRange (p + here) (n + 1 - here) =
          b.clearRange p (n + 1) := by
        have := Bitmap.setRangeValue_append b false p here (n + 1 - here)
        rwa [Nat.add_sub_cancel' (by omega)] at this
      rw [decStep_eq su (p / P) here] at iacc itr ibacked iframe isu ⊢
      refine ⟨hmerge ▸ iacc, itr, ibacked, fun h hh => ?_, fun h => ?_⟩
      · have hne : h ≠ p / P := fun he => hh ((htouch h).mpr (Or.inl he))
        rw [iframe h (fun ht => hh ((htouch h).mpr (Or.inr ht)))]
        exact Function.update_of_ne hne _ _
      · have hi' := iframe (p / P) hrest
        simp only [Function.update_self] at hi'
        rw [isu, htouch h]
        by_cases hh : h = p / P
        · subst hh
          rw [hi']
          by_cases h0 : s.pagesUsed (p / P) - here = 0 <;> simp [h0, hrest]
        · by_cases h0 : s.pagesUsed (p / P) - here = 0 <;> simp [h0, hh]

end Loops

/-- The tracker agrees with its caches and the per-hugepage accounts agree with
the tracker's bitmap. -/
structure Valid (s : HugeRegion H P) : Prop where
  accounts : Accounts s s.tracker.bits
  exact : s.tracker.Exact
  nallocs : s.tracker.nallocs < 2 ^ countWidth (H * P)

end HugeRegion

end TCMalloc
