import TCMalloc.HugeRegion.Unback

/-!
The three calls of a `HugeRegion` from a valid state: `MaybeGet`, `Put` and
`Release` return (none of their checks fails), keep the region valid, and do to
the tracker, the backed hugepages and `unback_` what the outcomes below say.
-/

set_option autoImplicit false
set_option relaxedAutoImplicit false

namespace TCMalloc

open TCMalloc.Lib.Scan TCMalloc.Lib.Blocks TCMalloc.Internal

namespace HugeRegion

variable {H P : Nat} {s : HugeRegion H P}

theorem Accounts.with_tracker {b : Bitmap (H * P)} (acc : Accounts s b) (t : RangeTracker (H * P)) :
    Accounts { s with tracker := t } b :=
  ⟨acc.used, acc.backed_of_used, acc.nbacked, acc.freeBacked⟩

section Selection

theorem selectFrom_eq_true (toRelease : Nat) :
    ∀ (l : List Nat) (su : Nat → Bool) (target h : Nat),
      s.selectFrom toRelease l su target h = true → su h = true ∨ (h ∈ l ∧ s.freeBacked h = true)
  | [], _, _, _, hsel => Or.inl hsel
  | i :: rest, su, target, h, hsel => by
      have hrest : ∀ su' target', s.selectFrom toRelease rest su' target' h = true →
          su' h = true ∨ h ∈ i :: rest ∧ s.freeBacked h = true := fun su' target' hs =>
        (selectFrom_eq_true toRelease rest su' target' h hs).imp_right
          fun ⟨hmem, hf⟩ => ⟨List.mem_cons_of_mem i hmem, hf⟩
      unfold selectFrom at hsel
      by_cases hc : (s.backed i && s.pagesUsed i == 0) = true
      · have hupd : Function.update su i true h = true →
            su h = true ∨ h ∈ i :: rest ∧ s.freeBacked h = true := by
          intro hu
          by_cases hhi : h = i
          · subst hhi
            exact Or.inr ⟨List.mem_cons_self, hc⟩
          · rw [Function.update_of_ne hhi] at hu
            exact Or.inl hu
        rw [if_pos hc] at hsel
        split at hsel
        · exact hupd hsel
        · rcases hrest _ _ hsel with hu | hf
          · exact hupd hu
          · exact Or.inr hf
      · rw [if_neg hc] at hsel
        split at hsel
        · exact Or.inl hsel
        · exact hrest su target hsel

theorem releaseSelection_freeBacked {desired : Nat} {adaptive : Bool} {h : Nat}
    (hsel : s.releaseSelection desired adaptive h = true) : h < H ∧ s.freeBacked h = true := by
  rcases selectFrom_eq_true _ _ _ _ h hsel with hnone | ⟨hmem, hf⟩
  · exact absurd hnone (by simp)
  · refine ⟨?_, hf⟩
    split at hmem
    · simpa using hmem
    · simpa using hmem

theorem selectFrom_append_of_not_freeBacked {toRelease target : Nat} {l : List Nat}
    (hskip : ∀ h ∈ l, s.freeBacked h = false) (hbelow : target * P < toRelease)
    (rest : List Nat) (su : Nat → Bool) :
    s.selectFrom toRelease (l ++ rest) su target = s.selectFrom toRelease rest su target := by
  induction l with
  | nil => rfl
  | cons i l ih =>
      have hi : (s.backed i && s.pagesUsed i == 0) = false := hskip i List.mem_cons_self
      rw [List.cons_append, selectFrom, hi, if_neg Bool.false_ne_true, if_neg (by omega)]
      exact ih fun h hh => hskip h (List.mem_cons_of_mem i hh)

theorem selectFrom_cons_of_reach {toRelease target i : Nat} (hi : s.freeBacked i = true)
    (hreach : toRelease ≤ (target + 1) * P) (rest : List Nat) (su : Nat → Bool) :
    s.selectFrom toRelease (i :: rest) su target = Function.update su i true := by
  have hi' : (s.backed i && s.pagesUsed i == 0) = true := hi
  rw [selectFrom, if_pos hi', if_pos hreach]

end Selection

/-- What `MaybeGet(n)` reported and did, taking `s` to `s'`: nothing when no free
run of `n` pages exists; otherwise `n` free pages of the region at `index`, now
used, every hugepage they touch now backed, and `from_released` telling whether
one of those was not backed before. -/
def GetOutcome (s : HugeRegion H P) (n : Nat) (s' : HugeRegion H P) : Option (Nat × Bool) → Prop
  | none => s' = s ∧ s.tracker.longestFree < n
  | some (index, fromReleased) =>
      index + n ≤ H * P ∧ s.tracker.bits.ClearOn index (index + n) ∧
        s'.tracker.bits = s.tracker.bits.setRange index n ∧
        (∀ h, s'.backed h = true ↔ s.backed h = true ∨ Touches P h index n) ∧
        (fromReleased = true ↔ ∃ h, Touches P h index n ∧ s.backed h = false)

/-- What `Put(r, release)` of `r = [p, p + n)` did, taking `s` to `s'` with the
calls `calls` of `unback_`: the pages are free again; `mid` is the region after
`Dec`'s loop, whose backed hugepages are those of `s`; with `release` the calls
unback the maximal runs of the hugepages this call left with no used page, all
backed and unused in `mid`. -/
def PutOutcome (s : HugeRegion H P) (p n : Nat) (release : Bool) (unback : Nat → Nat → Bool)
    (s' : HugeRegion H P) (calls : List (Nat × Nat)) : Prop :=
  s'.tracker.bits = s.tracker.bits.clearRange p n ∧
    ∃ mid : HugeRegion H P, mid.Valid ∧ mid.backed = s.backed ∧ mid.tracker = s'.tracker ∧
      (release = false → s' = mid ∧ calls = []) ∧
      (release = true → ∃ su : Nat → Bool,
        (∀ h, su h = true ↔ Touches P h p n ∧ mid.pagesUsed h = 0) ∧
        (∀ h < H, su h = true → mid.freeBacked h = true) ∧ Unbacked su unback 0 mid s' calls)

/-- What `Release(desired, adaptive_release)` did, taking `s` to `s'` with the
calls `calls` of `unback_`: nothing for `desired = 0`; otherwise the calls unback
the maximal runs of the hugepages it selected, all backed and unused. -/
def ReleaseOutcome (s : HugeRegion H P) (desired : Nat) (adaptive : Bool)
    (unback : Nat → Nat → Bool) (s' : HugeRegion H P) (calls : List (Nat × Nat)) : Prop :=
  (desired = 0 → s' = s ∧ calls = []) ∧
    (0 < desired → (∀ h, s.releaseSelection desired adaptive h = true → h < H ∧ s.freeBacked h = true) ∧
      Unbacked (s.releaseSelection desired adaptive) unback 0 s s' calls)

section Specs

variable (hN : H * P < 2 ^ 64) (hP : 0 < P)
include hN hP

theorem maybeGet_spec (v : s.Valid) {n : Nat} (hpos : 0 < n) :
    ∃ s' r, s.maybeGet n = some (s', r) ∧ s'.Valid ∧ GetOutcome s n s' r := by
  by_cases hlong : n > s.tracker.longestFree
  · exact ⟨s, none, by rw [maybeGet, if_pos hlong], v, rfl, hlong⟩
  obtain ⟨i, t, hfind, hfit, hclear, hbits, hallocs, hexact⟩ :=
    RangeTracker.findAndMark_spec hN v.exact hpos (by omega)
  obtain ⟨acc, htr, hbacked, hrel⟩ :=
    incLoop_spec hP n false (v.accounts.with_tracker t) le_rfl hfit hclear
  have hb : (incLoop n { s with tracker := t } i n false).1.tracker.bits =
      s.tracker.bits.setRange i n := by
    rw [htr]
    exact hbits
  refine ⟨(incLoop n { s with tracker := t } i n false).1,
    some (i, (incLoop n { s with tracker := t } i n false).2), ?_, ⟨?_, ?_, ?_⟩,
    hfit, hclear, hb, hbacked, ?_⟩
  · rw [maybeGet, if_neg hlong, hfind]
    rfl
  · rw [hb]
    exact acc
  · rw [htr]
    exact hexact
  · rw [htr]
    show t.nallocs < _
    rw [hallocs]
    exact RangeTracker.toCount_lt_two_pow _
  · rw [hrel]
    simp

theorem put_spec (v : s.Valid) {p n : Nat} (hpos : 0 < n) (hfit : p + n ≤ H * P)
    (hset : s.tracker.bits.SetOn p (p + n)) (release : Bool) (unback : Nat → Nat → Bool) :
    ∃ s' calls, s.put p n release unback = some (s', calls) ∧ s'.Valid ∧
      PutOutcome s p n release unback s' calls := by
  obtain ⟨acc, htr, hbacked, -, hsu⟩ :=
    @decLoop_spec _ _ hP n { s with tracker := s.tracker.unmark p n } _ (fun _ => false) p n
      (v.accounts.with_tracker _) le_rfl hfit hset
  obtain ⟨mid, su, hdec⟩ : ∃ mid su,
      decLoop n { s with tracker := s.tracker.unmark p n } (fun _ => false) p n = (mid, su) :=
    ⟨_, _, rfl⟩
  rw [hdec] at acc htr hbacked hsu
  dsimp only at acc htr hbacked hsu
  have hbits : mid.tracker.bits = s.tracker.bits.clearRange p n := by
    rw [htr]
    rfl
  have vmid : mid.Valid := by
    refine ⟨by rw [hbits]; exact acc, ?_, ?_⟩
    · rw [htr]
      exact RangeTracker.unmark_exact hN v.exact ⟨hpos, hfit, hset⟩
    · rw [htr]
      exact RangeTracker.toCount_lt_two_pow _
  have hput : s.put p n release unback =
      if release then (mid.unbackHugepages su unback).map fun q => (q.1, q.2.2)
      else some (mid, []) := by
    simp only [put, dec, hdec]
  cases release
  · refine ⟨mid, [], by rw [hput]; rfl, vmid, hbits, mid, vmid, hbacked, rfl,
      fun _ => ⟨rfl, rfl⟩, fun h => absurd h (by simp)⟩
  · have hfree : ∀ h < H, su h = true → mid.freeBacked h = true := by
      intro h hh hsuh
      obtain ⟨⟨k, hk, hk', hkh⟩, hzero⟩ := ((hsu h).mp hsuh).resolve_left (by simp)
      have hused : 0 < s.pagesUsed h := by
        rw [v.accounts.used h hh, ← hkh]
        exact blockCount_pos _ hP (hset k hk hk')
      refine freeBacked_eq_true.mpr ⟨?_, hzero⟩
      rw [hbacked]
      exact v.accounts.backed_of_used h hh hused
    obtain ⟨s', released, calls, hunb, v', u, -⟩ := unbackHugepages_spec hN hP vmid hfree unback
    refine ⟨s', calls, by rw [hput, if_pos rfl, hunb]; rfl, v', by rw [u.tracker]; exact hbits,
      mid, vmid, hbacked, u.tracker.symm, fun h => absurd h (by simp), fun _ => ⟨su, ?_, hfree, u⟩⟩
    intro h
    rw [hsu h]
    simp

theorem release_spec (v : s.Valid) (desired : Nat) (adaptive : Bool) (unback : Nat → Nat → Bool) :
    ∃ s' released calls, s.release desired adaptive unback = some (s', released, calls) ∧
      s'.Valid ∧ ReleaseOutcome s desired adaptive unback s' calls := by
  by_cases hd : desired = 0
  · exact ⟨s, 0, [], by rw [release, if_pos hd], v, fun _ => ⟨rfl, rfl⟩, fun h => absurd hd (by omega)⟩
  · obtain ⟨s', released, calls, hunb, v', u, -⟩ := unbackHugepages_spec hN hP v
      (fun h _ hsel => (releaseSelection_freeBacked hsel).2) unback
    exact ⟨s', released, calls, by rw [release, if_neg hd]; exact hunb, v',
      fun h => absurd h hd, fun _ => ⟨fun h hsel => releaseSelection_freeBacked hsel, u⟩⟩

theorem release_freeBackedCount (v : s.Valid) {desired : Nat} {adaptive : Bool}
    {unback : Nat → Nat → Bool} {s' : HugeRegion H P} {released : Nat} {calls : List (Nat × Nat)}
    (hrel : s.release desired adaptive unback = some (s', released, calls)) :
    s'.freeBackedCount + released = s.freeBackedCount := by
  by_cases hd : desired = 0
  · rw [release, if_pos hd] at hrel
    cases hrel
    rfl
  · obtain ⟨s₁, r₁, c₁, hunb, -, -, hcount⟩ :=
      unbackHugepages_spec hN hP v (fun h _ hsel => (releaseSelection_freeBacked hsel).2) unback
    rw [release, if_neg hd, hunb] at hrel
    cases hrel
    exact hcount

end Specs

section FreeBacked

/-! What the two allocation calls do to `free_backed()`, which `HugeRegionSet`
reads before and after each of them. -/

variable (hP : 0 < P)
include hP

theorem freeBackedCount_le_of_get (v : s.Valid) {n : Nat} {s' : HugeRegion H P}
    {r : Option (Nat × Bool)} (v' : s'.Valid) (hout : GetOutcome s n s' r) :
    s'.freeBackedCount ≤ s.freeBackedCount := by
  cases r with
  | none =>
      rw [hout.1]
  | some got =>
      obtain ⟨index, fromReleased⟩ := got
      obtain ⟨-, -, hbits, hbacked, -⟩ := hout
      rw [v'.accounts.freeBacked, v.accounts.freeBacked]
      apply Nat.count_mono_left
      intro h hh hfree
      obtain ⟨hb', hu'⟩ := freeBacked_eq_true.mp hfree
      have hnot : ¬ Touches P h index n := by
        rintro ⟨k, hk, hk', rfl⟩
        have hpos := blockCount_pos s'.tracker.bits.bits hP (k := k) (by simp [hbits, hk, hk'])
        rw [← v'.accounts.used _ hh, hu'] at hpos
        exact absurd hpos (Nat.lt_irrefl 0)
      have hle := blockCount_mono s.tracker.bits.bits s'.tracker.bits.bits (P := P)
        (fun k hk => by simp [hbits, hk]) h
      rw [← v.accounts.used h hh, ← v'.accounts.used h hh, hu'] at hle
      exact freeBacked_eq_true.mpr ⟨((hbacked h).mp hb').resolve_right hnot, Nat.le_zero.mp hle⟩

theorem freeBackedCount_le_of_put (v : s.Valid) {p n : Nat} {release : Bool}
    {unback : Nat → Nat → Bool} {s' : HugeRegion H P} {calls : List (Nat × Nat)}
    (hset : s.tracker.bits.SetOn p (p + n)) (v' : s'.Valid)
    (hout : PutOutcome s p n release unback s' calls) :
    s.freeBackedCount ≤ s'.freeBackedCount := by
  obtain ⟨hbits, mid, -, hmidBacked, -, hkeep, hunback⟩ := hout
  rw [v.accounts.freeBacked, v'.accounts.freeBacked]
  apply Nat.count_mono_left
  intro h hh hfree
  obtain ⟨hb, hu⟩ := freeBacked_eq_true.mp hfree
  have hnot : ¬ Touches P h p n := by
    rintro ⟨k, hk, hk', rfl⟩
    have hpos := blockCount_pos s.tracker.bits.bits hP (hset k hk hk')
    rw [← v.accounts.used _ hh, hu] at hpos
    exact absurd hpos (Nat.lt_irrefl 0)
  have hle := blockCount_mono s'.tracker.bits.bits s.tracker.bits.bits (P := P)
    (fun k hk => by
      rw [hbits, Bitmap.clearRange_bits] at hk
      split at hk
      · exact absurd hk Bool.false_ne_true
      · exact hk) h
  rw [← v'.accounts.used h hh, ← v.accounts.used h hh, hu] at hle
  have hb' : s'.backed h = true := by
    cases release with
    | false =>
        rw [(hkeep rfl).1, hmidBacked]
        exact hb
    | true =>
        obtain ⟨su, hsu, -, u⟩ := hunback rfl
        rw [u.backed, hmidBacked]
        refine ⟨hb, ?_⟩
        rintro ⟨c, hc, -, hlo, hhi⟩
        exact hnot ((hsu h).mp ((u.run c hc).2.2.2 h hlo hhi)).1
  exact freeBacked_eq_true.mpr ⟨hb', Nat.le_zero.mp hle⟩

end FreeBacked

end HugeRegion

end TCMalloc
