import Mathlib
import TCMalloc.CpuCache.Basic
import TCMalloc.Lib.Ledger
import TCMalloc.Lib.Run

/-!
The byte budget of the per-cpu caches.  Each cpu's `capacity` is its slack
`available` plus the bytes of its slab capacity, and the capacities add up to
`NumCPUs() * CacheLimit()`.  Every operation moves bytes between the slack and
the slab of one cpu (`Within`), or takes them out of one cpu's budget and holds
them until they are credited to another (`held`, in `StealFromOtherCache`);
`Inv.step` closes each such move.
-/

set_option autoImplicit false
set_option relaxedAutoImplicit false

namespace TCMalloc

open TCMalloc.Internal TCMalloc.Lib

namespace CpuCache

variable (cfg : Config)

/-- The bytes of `cpu`'s budget held as slab capacity:
`∑ c, Capacity(cpu, c) * class_to_size(c)` over the size classes `[1, kNumClasses)`. -/
def slabBytes (fl : TcmallocSlab) (cpu : Nat) : Nat :=
  ∑ c ∈ Finset.Ico 1 cfg.numClasses, fl.capacity cpu c * cfg.classToSize c

/-- The budget invariant, with `held` bytes taken out of the capacities and
not yet credited to a cpu. -/
structure Inv (s : CpuCache) (held : Nat) : Prop where
  balanced : ∀ cpu < cfg.numCpus, s.capacity cpu = s.available cpu + slabBytes cfg s.freelist cpu
  total : ∑ cpu ∈ Finset.range cfg.numCpus, s.capacity cpu + held = cfg.numCpus * cfg.cacheLimit
  unpopulated : ∀ cpu c, s.populated cpu = false → s.freelist.header cpu c = Header.empty
  nextSteal : ∀ cpu, 1 ≤ s.nextSteal cpu

/-- `s'` differs from `s` only in what belongs to `cpu`, and not in which cpus
are populated; an unpopulated cpu keeps its slab. -/
structure Within (s s' : CpuCache) (cpu : Nat) : Prop where
  populated : s'.populated = s.populated
  capacity : ∀ x, x ≠ cpu → s'.capacity x = s.capacity x
  available : ∀ x, x ≠ cpu → s'.available x = s.available x
  header : ∀ x, (x ≠ cpu ∨ s.populated x = false) → s'.freelist.header x = s.freelist.header x
  nextSteal : ∀ x, 1 ≤ s.nextSteal x → 1 ≤ s'.nextSteal x

section Slab

variable {cfg} {fl fl' : TcmallocSlab} {cpu c n : Nat}

theorem slabBytes_touched (t : fl.Touched fl' cpu c n) (hc : 1 ≤ c ∧ c < cfg.numClasses) :
    slabBytes cfg fl' cpu + fl.capacity cpu c * cfg.classToSize c =
      slabBytes cfg fl cpu + n * cfg.classToSize c := by
  unfold slabBytes
  rw [← t.capacity_eq]
  apply Ledger.sum_add_eq_of_eq_off (Finset.mem_Ico.mpr hc)
  intro i _ hne
  simp only [TcmallocSlab.capacity, t.other cpu i (Or.inr hne)]

theorem slabBytes_congr {x : Nat} (h : fl'.header x = fl.header x) : slabBytes cfg fl' x = slabBytes cfg fl x := by
  unfold slabBytes TcmallocSlab.capacity
  rw [h]

theorem slabBytes_eq_zero {x : Nat} (h : ∀ c, 1 ≤ c ∧ c < cfg.numClasses → fl.header x c = Header.empty) :
    slabBytes cfg fl x = 0 := by
  unfold slabBytes
  apply Finset.sum_eq_zero
  intro c hc
  simp [TcmallocSlab.capacity, h c (Finset.mem_Ico.mp hc), Header.empty]

end Slab

section Within

variable {s s' s'' : CpuCache} {cpu : Nat}

theorem Within.refl (s : CpuCache) (cpu : Nat) : Within s s cpu :=
  ⟨rfl, fun _ _ => rfl, fun _ _ => rfl, fun _ _ => rfl, fun _ h => h⟩

theorem Within.trans (w : Within s s' cpu) (w' : Within s' s'' cpu) : Within s s'' cpu := by
  refine ⟨w'.populated.trans w.populated, fun x hx => ?_, fun x hx => ?_, fun x hx => ?_,
    fun x hx => w'.nextSteal x (w.nextSteal x hx)⟩
  · rw [w'.capacity x hx, w.capacity x hx]
  · rw [w'.available x hx, w.available x hx]
  · have hx' : x ≠ cpu ∨ s'.populated x = false := by
      rw [w.populated]
      exact hx
    rw [w'.header x hx', w.header x hx]

theorem Within.slabBytes_of_ne (w : Within s s' cpu) {x : Nat} (hx : x ≠ cpu) :
    slabBytes cfg s'.freelist x = slabBytes cfg s.freelist x :=
  slabBytes_congr (w.header x (Or.inl hx))

end Within

section Step

variable {cfg} {s s' : CpuCache} {cpu held held' into out : Nat}

theorem Inv.step (inv : Inv cfg s held) (w : Within s s' cpu) (hcpu : cpu < cfg.numCpus)
    (hcap : s'.capacity cpu + out = s.capacity cpu + into)
    (hbal : s'.available cpu + slabBytes cfg s'.freelist cpu + out =
      s.available cpu + slabBytes cfg s.freelist cpu + into)
    (hheld : held' + into = held + out) : Inv cfg s' held' := by
  refine ⟨fun x hx => ?_, ?_, fun x c hx => ?_, fun x => w.nextSteal x (inv.nextSteal x)⟩
  · by_cases hxc : x = cpu
    · subst hxc
      have := inv.balanced x hx
      omega
    · rw [w.capacity x hxc, w.available x hxc, w.slabBytes_of_ne cfg hxc]
      exact inv.balanced x hx
  · have hsum := Ledger.sum_add_eq_of_eq_off (Finset.mem_range.mpr hcpu)
      fun x _ hx => w.capacity x hx
    have := inv.total
    omega
  · rw [w.populated] at hx
    rw [w.header x (Or.inr hx)]
    exact inv.unpopulated x c hx

theorem Inv.keep (inv : Inv cfg s held) (w : Within s s' cpu) (hcpu : cpu < cfg.numCpus)
    (hcap : s'.capacity cpu = s.capacity cpu)
    (hbal : s'.available cpu + slabBytes cfg s'.freelist cpu = s.available cpu + slabBytes cfg s.freelist cpu) :
    Inv cfg s' held := by
  have hcap0 : s'.capacity cpu + 0 = s.capacity cpu + 0 := by omega
  have hbal0 : s'.available cpu + slabBytes cfg s'.freelist cpu + 0 =
      s.available cpu + slabBytes cfg s.freelist cpu + 0 := by omega
  exact inv.step w hcpu hcap0 hbal0 rfl

end Step

section Setters

variable {cfg} {s s' : CpuCache} {cpu : Nat}

theorem subtractAtLeast_spec (a lo hi : Nat) :
    (subtractAtLeast a lo hi).1 + (subtractAtLeast a lo hi).2 = a ∧ (subtractAtLeast a lo hi).1 ≤ hi := by
  unfold subtractAtLeast
  split
  · simp
  · exact ⟨Nat.add_sub_cancel' (Nat.min_le_left _ _), Nat.min_le_right _ _⟩

theorem within_of_eq (hpop : s'.populated = s.populated) (hcap : s'.capacity = s.capacity)
    (havail : s'.available = s.available) (hfl : s'.freelist = s.freelist) (hsteal : s'.nextSteal = s.nextSteal) :
    Within s s' cpu :=
  ⟨hpop, fun _ _ => by rw [hcap], fun _ _ => by rw [havail], fun _ _ => by rw [hfl], fun _ h => by rw [hsteal]; exact h⟩

theorem within_setPerClass (x c : Nat) (info : PerClassResizeInfo) : Within s (s.setPerClass x c info) cpu :=
  within_of_eq rfl rfl rfl rfl rfl

theorem within_setAvailable (v : Nat) :
    Within s { s with available := Function.update s.available cpu v } cpu :=
  ⟨rfl, fun _ _ => rfl, fun _ hx => Function.update_of_ne hx _ _, fun _ _ => rfl, fun _ h => h⟩

theorem within_setCapacity (v : Nat) :
    Within s { s with capacity := Function.update s.capacity cpu v } cpu :=
  ⟨rfl, fun _ hx => Function.update_of_ne hx _ _, fun _ _ => rfl, fun _ _ => rfl, fun _ h => h⟩

theorem within_setNextSteal {v : Nat} (hv : 1 ≤ v) :
    Within s { s with nextSteal := Function.update s.nextSteal cpu v } cpu := by
  refine ⟨rfl, fun _ _ => rfl, fun _ _ => rfl, fun _ _ => rfl, fun x hx => ?_⟩
  by_cases hxc : x = cpu
  · subst hxc
    simpa using hv
  · simpa [Function.update_of_ne hxc] using hx

theorem within_setFreelist {fl : TcmallocSlab} {c n : Nat} (t : s.freelist.Touched fl cpu c n)
    (hpop : s.populated cpu = true) : Within s { s with freelist := fl } cpu := by
  refine ⟨rfl, fun _ _ => rfl, fun _ _ => rfl, fun x hx => ?_, fun _ h => h⟩
  have hxc : x ≠ cpu := by
    rcases hx with hx | hx
    · exact hx
    · rintro rfl
      rw [hpop] at hx
      exact absurd hx (by simp)
  exact t.header_of_ne hxc

end Setters

/-- `s'` moves bytes only between the slack and the slab of `cpu`. -/
structure Keeps (s s' : CpuCache) (cpu : Nat) : Prop where
  within : Within s s' cpu
  capacity : s'.capacity cpu = s.capacity cpu
  budget : s'.available cpu + slabBytes cfg s'.freelist cpu = s.available cpu + slabBytes cfg s.freelist cpu

section Keeps

variable {cfg} {s s' s'' : CpuCache} {cpu : Nat}

theorem Keeps.refl (s : CpuCache) (cpu : Nat) : Keeps cfg s s cpu := ⟨Within.refl s cpu, rfl, rfl⟩

theorem Keeps.trans (k : Keeps cfg s s' cpu) (k' : Keeps cfg s' s'' cpu) : Keeps cfg s s'' cpu :=
  ⟨k.within.trans k'.within, k'.capacity.trans k.capacity, k'.budget.trans k.budget⟩

theorem Inv.keeps {held : Nat} (inv : Inv cfg s held) (k : Keeps cfg s s' cpu) (hcpu : cpu < cfg.numCpus) :
    Inv cfg s' held :=
  inv.keep k.within hcpu k.capacity k.budget

theorem keeps_setPerClass (x c : Nat) (info : PerClassResizeInfo) : Keeps cfg s (s.setPerClass x c info) cpu :=
  ⟨within_setPerClass x c info, rfl, rfl⟩

theorem grow_keeps {c : Nat} (hc : 1 ≤ c ∧ c < cfg.numClasses) (hpop : s.populated cpu = true)
    (d : Nat) (stored : Bool) : Keeps cfg s (s.grow cfg cpu c d stored) cpu := by
  have htaken := subtractAtLeast_spec (s.available cpu) (cfg.classToSize c) (d * cfg.classToSize c)
  unfold grow
  dsimp only
  generalize subtractAtLeast (s.available cpu) (cfg.classToSize c) (d * cfg.classToSize c) = taken at htaken ⊢
  obtain ⟨acq, rest⟩ := taken
  dsimp only at htaken ⊢
  set s1 := CpuCache.setPerClass { s with available := Function.update s.available cpu rest } cpu c
    (if acq < d * cfg.classToSize c then (s.perClass cpu c).recordMiss else s.perClass cpu c) with hs1
  have w1 : Within s s1 cpu := (within_setAvailable rest).trans (within_setPerClass cpu c _)
  have hav1 : s1.available cpu = rest := by simp [hs1]
  have hfl1 : s1.freelist = s.freelist := rfl
  split
  · refine ⟨w1, rfl, ?_⟩
    rw [hav1, hfl1]
    omega
  · obtain ⟨t, hle⟩ := @TcmallocSlab.grow_touched s1.freelist cpu c (acq / cfg.classToSize c)
      (getMaxCapacity cfg s1 c) stored
    generalize s1.freelist.grow cpu c (acq / cfg.classToSize c) (getMaxCapacity cfg s1 c) stored = grown at t hle ⊢
    obtain ⟨fl, g⟩ := grown
    dsimp only at t hle ⊢
    have w2 : Within s { s1 with freelist := fl } cpu := w1.trans (within_setFreelist t hpop)
    have hslab := slabBytes_touched t hc
    have hpaid : g * cfg.classToSize c ≤ acq :=
      Nat.le_trans (Nat.mul_le_mul_right _ hle) (Nat.div_mul_le_self _ _)
    rw [Nat.add_mul, hfl1] at hslab
    split
    · refine ⟨w2, rfl, ?_⟩
      show s1.available cpu + slabBytes cfg fl cpu = _
      omega
    · refine ⟨w2.trans (within_setAvailable _), rfl, ?_⟩
      show Function.update s1.available cpu (s1.available cpu + (acq - g * cfg.classToSize c)) cpu +
        slabBytes cfg fl cpu = _
      rw [Function.update_self]
      omega

theorem updateCapacity_keeps {c : Nat} (hc : 1 ≤ c ∧ c < cfg.numClasses) (hpop : s.populated cpu = true)
    (overflow stored : Bool) : Keeps cfg s (s.updateCapacity cfg cpu c overflow stored).1 cpu := by
  unfold updateCapacity
  dsimp only
  split
  · exact (keeps_setPerClass cpu c _).trans (grow_keeps hc (by simpa using hpop) _ _)
  · exact keeps_setPerClass cpu c _

theorem keeps_of_touched {c : Nat} {fl : TcmallocSlab} (t : s.freelist.Touched fl cpu c (s.freelist.capacity cpu c))
    (hc : 1 ≤ c ∧ c < cfg.numClasses) (hpop : s.populated cpu = true) : Keeps cfg s { s with freelist := fl } cpu := by
  refine ⟨within_setFreelist t hpop, rfl, ?_⟩
  have := slabBytes_touched t hc
  show s.available cpu + slabBytes cfg fl cpu = _
  omega

theorem push_keeps {c : Nat} (hc : 1 ≤ c ∧ c < cfg.numClasses) (hpop : s.populated cpu = true) :
    Keeps cfg s { s with freelist := (s.freelist.push cpu c).1 } cpu :=
  keeps_of_touched TcmallocSlab.push_touched hc hpop

theorem pop_keeps {c : Nat} (hc : 1 ≤ c ∧ c < cfg.numClasses) (hpop : s.populated cpu = true) :
    Keeps cfg s { s with freelist := (s.freelist.pop cpu c).1 } cpu :=
  keeps_of_touched TcmallocSlab.pop_touched hc hpop

end Keeps

/-- `s'` has moved bytes between `cpu`'s slab and an amount the caller holds
locally, from `a` to `a'`, and changed nothing else of the budget. -/
structure Moves (s s' : CpuCache) (cpu a a' : Nat) : Prop where
  within : Within s s' cpu
  capacity : s'.capacity = s.capacity
  available : s'.available = s.available
  slab : slabBytes cfg s'.freelist cpu + a' = slabBytes cfg s.freelist cpu + a

section Moves

variable {cfg} {s s' s'' : CpuCache} {cpu : Nat}

theorem Moves.refl (s : CpuCache) (cpu a : Nat) : Moves cfg s s cpu a a := ⟨Within.refl s cpu, rfl, rfl, rfl⟩

theorem Moves.trans {a a' a'' : Nat} (m : Moves cfg s s' cpu a a') (m' : Moves cfg s' s'' cpu a' a'') :
    Moves cfg s s'' cpu a a'' := by
  refine ⟨m.within.trans m'.within, m'.capacity.trans m.capacity, m'.available.trans m.available, ?_⟩
  have := m.slab
  have := m'.slab
  omega

theorem Moves.populated {a a' : Nat} (m : Moves cfg s s' cpu a a') {x : Nat} (h : s.populated x = true) :
    s'.populated x = true := by
  rw [m.within.populated]
  exact h

theorem moves_setPerClass (x c : Nat) (info : PerClassResizeInfo) (a : Nat) :
    Moves cfg s (s.setPerClass x c info) cpu a a :=
  ⟨within_setPerClass x c info, rfl, rfl, rfl⟩

theorem shrinkOtherCache_moves {c : Nat} (hc : 1 ≤ c ∧ c < cfg.numClasses) (hpop : s.populated cpu = true)
    (a : Nat) : Moves cfg s (s.shrinkOtherCache cfg cpu c).1 cpu a (a + (s.shrinkOtherCache cfg cpu c).2) := by
  unfold shrinkOtherCache
  dsimp only
  split
  · exact Moves.refl s cpu a
  · split
    · exact moves_setPerClass cpu c _ a
    · set s1 := s.setPerClass cpu c (s.perClass cpu c).tick.1
      obtain ⟨t, hone, hcap⟩ := @TcmallocSlab.shrinkOtherCache_touched s1.freelist cpu c 1
      generalize s1.freelist.shrinkOtherCache cpu c 1 = shrunk at t hone hcap ⊢
      obtain ⟨fl, k⟩ := shrunk
      dsimp only at t hone hcap ⊢
      have hslab := slabBytes_touched t hc
      have hback : (s1.freelist.capacity cpu c - k) * cfg.classToSize c + k * cfg.classToSize c =
          s1.freelist.capacity cpu c * cfg.classToSize c := by
        rw [Nat.sub_mul]
        have := Nat.mul_le_mul_right (cfg.classToSize c) hcap
        omega
      have w : Within s { s1 with freelist := fl } cpu :=
        (within_setPerClass cpu c _).trans (within_setFreelist t hpop)
      split
      · refine ⟨w, rfl, rfl, ?_⟩
        show slabBytes cfg fl cpu + (a + 0) = slabBytes cfg s1.freelist cpu + a
        subst k
        omega
      · refine ⟨w, rfl, rfl, ?_⟩
        show slabBytes cfg fl cpu + (a + cfg.classToSize c) = slabBytes cfg s1.freelist cpu + a
        have hk : k = 1 := by omega
        subst hk
        omega

theorem wrap_mem {source : Nat} (hsrc : 1 ≤ source) (hK : 2 ≤ cfg.numClasses) :
    1 ≤ (if cfg.numClasses ≤ source then 1 else source) ∧
      (if cfg.numClasses ≤ source then 1 else source) < cfg.numClasses := by
  split <;> omega

theorem stealWithinCpuLoop_moves (dest : List (Option SizeClassMissStat)) (bytes : Nat) :
    ∀ (fuel : Nat) (s : CpuCache) (source acquired : Nat) {r : CpuCache × Nat × Nat},
      s.populated cpu = true → fuel ≤ cfg.numClasses - 1 → 1 ≤ source →
      stealWithinCpuLoop cfg cpu dest bytes fuel s source acquired = some r →
      Moves cfg s r.1 cpu acquired r.2.2 ∧ 1 ≤ r.2.1
  | 0, s, source, acquired, r, _, _, hsrc, h => by
      simp only [stealWithinCpuLoop, Option.some.injEq] at h
      subst h
      exact ⟨Moves.refl s cpu acquired, hsrc⟩
  | fuel + 1, s, source, acquired, r, hpop, hfuel, hsrc, h => by
      have hwrap := wrap_mem hsrc (show 2 ≤ cfg.numClasses by omega)
      simp only [stealWithinCpuLoop] at h
      generalize (if cfg.numClasses ≤ source then 1 else source) = w at h hwrap
      split at h
      · exact absurd h (by simp)
      · exact stealWithinCpuLoop_moves dest bytes fuel s (w + 1) acquired hpop (by omega) (by omega) h
      · have m := shrinkOtherCache_moves hwrap hpop acquired
        split at h
        · simp only [Option.some.injEq] at h
          subst h
          exact ⟨m, hwrap.1⟩
        · obtain ⟨m', hs⟩ := stealWithinCpuLoop_moves dest bytes fuel _ (w + 1) _
            (m.populated hpop) (by omega) (by omega) h
          exact ⟨m.trans m', hs⟩

theorem stealCapacityForSizeClassWithinCpu_moves (hpop : s.populated cpu = true) (hsteal : 1 ≤ s.nextSteal cpu)
    {dest : List (Option SizeClassMissStat)} {bytes : Nat} {r : CpuCache × Nat} (a : Nat)
    (h : s.stealCapacityForSizeClassWithinCpu cfg cpu dest bytes = some r) : Moves cfg s r.1 cpu a (a + r.2) := by
  unfold stealCapacityForSizeClassWithinCpu at h
  split at h
  · exact absurd h (by simp)
  · rename_i q hq
    simp only [Option.some.injEq] at h
    subst h
    obtain ⟨m, hs⟩ := stealWithinCpuLoop_moves dest bytes _ s _ 0 hpop le_rfl hsteal hq
    refine ⟨m.within.trans (within_setNextSteal hs), m.capacity, m.available, ?_⟩
    have := m.slab
    show slabBytes cfg q.1.freelist cpu + (a + q.2.2) = _
    omega

theorem growSizeClass_moves {c canGrow : Nat} (hc : 1 ≤ c ∧ c < cfg.numClasses) (hpop : s.populated cpu = true)
    (hsteal : 1 ≤ s.nextSteal cpu) {dest : List (Option SizeClassMissStat)} {available : Nat}
    {r : CpuCache × Nat} (h : s.growSizeClass cfg cpu c canGrow dest available = some r) :
    Moves cfg s r.1 cpu available r.2 := by
  unfold growSizeClass at h
  dsimp only at h
  split at h
  · exact absurd h (by simp)
  · rename_i s1 a1 hst
    have m1 : Moves cfg s s1 cpu available a1 := by
      split at hst
      · split at hst
        · exact absurd hst (by simp)
        · rename_i q hq
          simp only [Option.some.injEq, Prod.mk.injEq] at hst
          obtain ⟨rfl, rfl⟩ := hst
          exact stealCapacityForSizeClassWithinCpu_moves hpop hsteal available hq
      · simp only [Option.some.injEq, Prod.mk.injEq] at hst
        obtain ⟨rfl, rfl⟩ := hst
        exact Moves.refl s cpu available
    split at h
    · exact absurd h (by simp)
    · split at h
      · simp only [Option.some.injEq] at h
        subst h
        exact m1
      · simp only [Option.some.injEq] at h
        subst h
        obtain ⟨t, hle⟩ := @TcmallocSlab.growOtherCache_touched s1.freelist cpu c
          (min canGrow (a1 / cfg.classToSize c)) (getMaxCapacity cfg s1 c)
        generalize s1.freelist.growOtherCache cpu c (min canGrow (a1 / cfg.classToSize c))
          (getMaxCapacity cfg s1 c) = got at t hle ⊢
        obtain ⟨fl, g⟩ := got
        dsimp only at t hle ⊢
        have hslab := slabBytes_touched t hc
        rw [Nat.add_mul] at hslab
        have hpaid : g * cfg.classToSize c ≤ a1 :=
          Nat.le_trans (Nat.mul_le_mul_right _ (Nat.le_trans hle (Nat.min_le_right _ _)))
            (Nat.div_mul_le_self _ _)
        refine m1.trans ⟨within_setFreelist t (m1.populated hpop), rfl, rfl, ?_⟩
        show slabBytes cfg fl cpu + (a1 - g * cfg.classToSize c) = slabBytes cfg s1.freelist cpu + a1
        omega

theorem resizeCpuLoop_moves (missStats : List SizeClassMissStat)
    (hstats : ∀ st ∈ missStats, 1 ≤ st.sizeClass ∧ st.sizeClass < cfg.numClasses) :
    ∀ (fuel : Nat) (s : CpuCache) (i toResize available : Nat) {r : CpuCache × Nat},
      s.populated cpu = true → 1 ≤ s.nextSteal cpu →
      resizeCpuLoop cfg cpu missStats fuel s i toResize available = some r →
      Moves cfg s r.1 cpu available r.2
  | 0, s, _, _, available, r, _, _, h => by
      simp only [resizeCpuLoop, Option.some.injEq] at h
      subst h
      exact Moves.refl s cpu available
  | fuel + 1, s, i, toResize, available, r, hpop, hsteal, h => by
      simp only [resizeCpuLoop] at h
      split at h
      · simp only [Option.some.injEq] at h
        subst h
        exact Moves.refl s cpu available
      · split at h
        · exact absurd h (by simp)
        · rename_i stat hstat
          have hc := hstats stat (List.mem_of_getElem? hstat)
          split at h
          · simp only [Option.some.injEq] at h
            subst h
            exact Moves.refl s cpu available
          · split at h
            · exact resizeCpuLoop_moves missStats hstats fuel s _ _ available hpop hsteal h
            · split at h
              · exact absurd h (by simp)
              · rename_i q hq
                have m := growSizeClass_moves hc hpop hsteal hq
                exact m.trans (resizeCpuLoop_moves missStats hstats fuel q.1 _ _ q.2 (m.populated hpop)
                  (m.within.nextSteal cpu hsteal) h)

theorem missStats_mem {s : CpuCache} {st : SizeClassMissStat} (h : st ∈ s.missStats cfg cpu) :
    1 ≤ st.sizeClass ∧ st.sizeClass < cfg.numClasses := by
  unfold missStats at h
  rw [List.mem_mergeSort, List.mem_map] at h
  obtain ⟨c, hc, rfl⟩ := h
  rw [List.mem_range'_1] at hc
  show 1 ≤ c ∧ c < cfg.numClasses
  omega

theorem resizeCpuSizeClasses_keeps (hpop : s.populated cpu = true) (hsteal : 1 ≤ s.nextSteal cpu)
    {s' : CpuCache} (h : s.resizeCpuSizeClasses cfg cpu = some s') : Keeps cfg s s' cpu := by
  unfold resizeCpuSizeClasses at h
  split at h
  · simp only [Option.some.injEq] at h
    subst h
    exact Keeps.refl s cpu
  · dsimp only at h
    split at h
    · exact absurd h (by simp)
    · rename_i q hq
      simp only [Option.some.injEq] at h
      subst h
      have w0 : Within s { s with available := Function.update s.available cpu 0 } cpu := within_setAvailable 0
      have m := resizeCpuLoop_moves (s.missStats cfg cpu) (fun _ hst => missStats_mem hst) _
        { s with available := Function.update s.available cpu 0 } _ _ _ hpop hsteal hq
      refine ⟨(w0.trans m.within).trans (within_setAvailable _), congrFun m.capacity cpu, ?_⟩
      have hslab := m.slab
      have hav : q.1.available cpu = 0 := by rw [m.available]; simp
      show Function.update q.1.available cpu (q.1.available cpu + q.2) cpu + slabBytes cfg q.1.freelist cpu = _
      rw [Function.update_self, hav]
      change slabBytes cfg q.1.freelist cpu + q.2 = slabBytes cfg s.freelist cpu + s.available cpu at hslab
      omega

end Moves

/-- What `DrainHandler` credits for an entry: the bytes of its capacity. -/
def drainedBytes (d : Drained) : Nat := d.cap * cfg.classToSize d.sizeClass

section Drain

variable {cfg}

theorem foldl_drainHandler (l : List Drained) (s : CpuCache) (b : Nat) :
    (l.foldl (drainHandler cfg) (s, b)).1 =
      { s with available := Ledger.credit Drained.cpu (drainedBytes cfg) l s.available } := by
  induction l generalizing s b with
  | nil => rfl
  | cons d l ih => exact ih _ _

theorem drained_filter (fl : TcmallocSlab) (cpu x : Nat) :
    ((fl.drained cfg.numClasses cpu).filter fun d => d.cpu = x) =
      if cpu = x then fl.drained cfg.numClasses cpu else [] := by
  unfold TcmallocSlab.drained
  split
  · rename_i h
    simp [List.filter_map, Function.comp_def, h]
  · rename_i h
    simp [List.filter_map, Function.comp_def, h]

theorem sum_drained (fl : TcmallocSlab) (cpu : Nat) :
    ((fl.drained cfg.numClasses cpu).map (drainedBytes cfg)).sum = slabBytes cfg fl cpu := by
  rw [slabBytes, Ledger.sum_Ico_eq_sum_range']
  simp [TcmallocSlab.drained, Function.comp_def, drainedBytes]

theorem credit_drained (fl : TcmallocSlab) (cpu : Nat) (bal : Nat → Nat) (x : Nat) :
    Ledger.credit Drained.cpu (drainedBytes cfg) (fl.drained cfg.numClasses cpu) bal x =
      bal x + if cpu = x then slabBytes cfg fl cpu else 0 := by
  rw [Ledger.credit_apply, drained_filter]
  split
  · rw [sum_drained]
  · rfl

theorem credit_drainedOldSlabs (fl : TcmallocSlab) (populated : Nat → Bool) (bal : Nat → Nat) (x : Nat) :
    ∀ n, Ledger.credit Drained.cpu (drainedBytes cfg) (fl.drainedOldSlabs cfg.numClasses n populated)
        bal x = bal x + if x < n ∧ populated x = true then slabBytes cfg fl x else 0
  | 0 => by simp [TcmallocSlab.drainedOldSlabs, Ledger.credit]
  | n + 1 => by
      have hsplit : fl.drainedOldSlabs cfg.numClasses (n + 1) populated =
          fl.drainedOldSlabs cfg.numClasses n populated ++
            (if populated n then fl.drained cfg.numClasses n else []) := by
        simp only [TcmallocSlab.drainedOldSlabs, List.range_succ, List.flatMap_append, List.flatMap_cons,
          List.flatMap_nil, List.append_nil]
      rw [hsplit, Ledger.credit_append]
      split
      · rw [credit_drained, credit_drainedOldSlabs fl populated bal x n]
        by_cases hx : x = n
        · subst hx
          simp_all
        · have : ¬ n = x := fun h => hx h.symm
          simp only [this, ↓reduceIte, Nat.add_zero]
          by_cases hlt : x < n
          · simp [hlt, show x < n + 1 by omega]
          · simp [hlt, show ¬ x < n + 1 by omega]
      · rename_i hpop
        rw [show Ledger.credit Drained.cpu (drainedBytes cfg) [] = id from rfl, id,
          credit_drainedOldSlabs fl populated bal x n]
        by_cases hx : x = n
        · subst hx
          simp [hpop]
        · by_cases hlt : x < n
          · simp [hlt, show x < n + 1 by omega]
          · simp [hlt, show ¬ x < n + 1 by omega]

end Drain

section Ops

variable {cfg} {s : CpuCache}

theorem Inv.of_eq {s' : CpuCache} {held : Nat} (inv : Inv cfg s held) (hav : s'.available = s.available)
    (hcap : s'.capacity = s.capacity) (hfl : s'.freelist = s.freelist) (hpop : s'.populated = s.populated)
    (hsteal : s'.nextSteal = s.nextSteal) : Inv cfg s' held := by
  obtain ⟨h1, h2, h3, h4⟩ := inv
  exact ⟨by rw [hav, hcap, hfl]; exact h1, by rw [hcap]; exact h2, by rw [hpop, hfl]; exact h3,
    by rw [hsteal]; exact h4⟩

theorem keeps_updateIntervalMisses (x cpu : Nat) : Keeps cfg s (s.updateIntervalMisses cfg x) cpu :=
  ⟨within_of_eq rfl rfl rfl rfl rfl, rfl, rfl⟩

theorem reclaim_keeps {cpu : Nat} : Keeps cfg s (s.reclaim cfg cpu).1 cpu := by
  unfold reclaim
  split
  · exact Keeps.refl s cpu
  · rename_i hpop
    have hpop' : s.populated cpu = true := by simpa using hpop
    dsimp only
    rw [TcmallocSlab.drain, foldl_drainHandler]
    refine ⟨⟨rfl, fun _ _ => rfl, fun x hx => ?_, fun x hx => ?_, fun _ h => h⟩, rfl, ?_⟩
    · show Ledger.credit Drained.cpu (drainedBytes cfg) (s.freelist.drained cfg.numClasses cpu) s.available x = _
      rw [credit_drained, if_neg (Ne.symm hx), Nat.add_zero]
    · have hxc : x ≠ cpu := by
        rcases hx with hx | hx
        · exact hx
        · rintro rfl
          rw [hpop'] at hx
          exact absurd hx (by simp)
      funext c
      show (s.freelist.initCpu cfg.numClasses cpu).header x c = _
      rw [TcmallocSlab.initCpu_header, if_neg (fun h => hxc h.1)]
    · show Ledger.credit Drained.cpu (drainedBytes cfg) (s.freelist.drained cfg.numClasses cpu) s.available cpu +
        slabBytes cfg (s.freelist.initCpu cfg.numClasses cpu) cpu = _
      have hzero : slabBytes cfg (s.freelist.initCpu cfg.numClasses cpu) cpu = 0 :=
        slabBytes_eq_zero fun c hc => by rw [TcmallocSlab.initCpu_header, if_pos ⟨rfl, hc⟩]
      rw [credit_drained, if_pos rfl, hzero, Nat.add_zero]

theorem resizeSlabs_inv (inv : Inv cfg s 0) (newShift : Nat) : Inv cfg (s.resizeSlabs cfg newShift) 0 := by
  unfold resizeSlabs
  dsimp only
  rw [TcmallocSlab.resizeSlabs, foldl_drainHandler]
  have hempty : ∀ x, slabBytes cfg (⟨fun _ _ => Header.empty, newShift⟩ : TcmallocSlab) x = 0 :=
    fun x => slabBytes_eq_zero fun _ _ => rfl
  refine ⟨fun x hx => ?_, inv.total, fun _ _ _ => rfl, inv.nextSteal⟩
  show s.capacity x = Ledger.credit Drained.cpu (drainedBytes cfg)
    (s.freelist.drainedOldSlabs cfg.numClasses cfg.numCpus s.populated) s.available x + slabBytes cfg _ x
  rw [credit_drainedOldSlabs, hempty, Nat.add_zero, inv.balanced x hx]
  cases hpop : s.populated x
  · rw [slabBytes_eq_zero fun c _ => inv.unpopulated x c hpop]
    simp
  · simp [hx]

theorem resizeSlabIfNeeded_inv (inv : Inv cfg s 0) (resize : DynamicSlabResize) :
    Inv cfg (s.resizeSlabIfNeeded cfg resize) 0 := by
  cases resize with
  | noop => exact inv
  | shrink =>
      dsimp only [resizeSlabIfNeeded]
      split
      · exact inv
      · exact resizeSlabs_inv inv _
  | grow =>
      dsimp only [resizeSlabIfNeeded]
      split
      · exact inv
      · exact resizeSlabs_inv inv _

theorem resizeSizeClassMaxCapacities_inv (inv : Inv cfg s 0) (l : List PerSizeClassMaxCapacity) :
    Inv cfg (s.resizeSizeClassMaxCapacities cfg l) 0 := by
  unfold resizeSizeClassMaxCapacities
  split
  · exact inv
  · dsimp only
    apply resizeSlabs_inv
    exact inv.of_eq rfl rfl rfl rfl rfl

theorem populate_inv (inv : Inv cfg s 0) (cpu : Nat) : Inv cfg (s.populate cfg cpu) 0 := by
  unfold populate
  split
  · exact inv
  · rename_i hpop
    have hpop' : s.populated cpu = false := by simpa using hpop
    have hheader : ∀ x c, (s.freelist.initCpu cfg.numClasses cpu).header x c = s.freelist.header x c := by
      intro x c
      rw [TcmallocSlab.initCpu_header]
      split
      · rename_i h
        rw [h.1, inv.unpopulated cpu c hpop']
      · rfl
    have hslab : ∀ x, slabBytes cfg (s.freelist.initCpu cfg.numClasses cpu) x = slabBytes cfg s.freelist x :=
      fun x => slabBytes_congr (funext (hheader x))
    refine ⟨fun x hx => ?_, inv.total, fun x c hx => ?_, inv.nextSteal⟩
    · show s.capacity x = s.available x + slabBytes cfg (s.freelist.initCpu cfg.numClasses cpu) x
      rw [hslab]
      exact inv.balanced x hx
    · show (s.freelist.initCpu cfg.numClasses cpu).header x c = _
      rw [hheader]
      have hxc : x ≠ cpu := by
        rintro rfl
        simp at hx
      exact inv.unpopulated x c (by simpa [Function.update_of_ne hxc] using hx)

end Ops

section Steal

variable {cfg} {s : CpuCache}

theorem Inv.takeSlab {s' : CpuCache} {cpu held k : Nat} (inv : Inv cfg s held) (m : Moves cfg s s' cpu 0 k)
    (hcpu : cpu < cfg.numCpus) :
    Inv cfg { s' with capacity := Function.update s'.capacity cpu (s'.capacity cpu - k) } (held + k) := by
  have hbal := inv.balanced cpu hcpu
  have hslab := m.slab
  have hcap := congrFun m.capacity cpu
  have hav := congrFun m.available cpu
  have h1 : Function.update s'.capacity cpu (s'.capacity cpu - k) cpu + k = s.capacity cpu + 0 := by
    rw [Function.update_self]
    omega
  have h2 : s'.available cpu + slabBytes cfg s'.freelist cpu + k = s.available cpu + slabBytes cfg s.freelist cpu + 0 := by
    omega
  exact inv.step (m.within.trans (within_setCapacity _)) hcpu h1 h2 (by omega)

theorem Inv.takeAvailable {cpu held t rest : Nat} (inv : Inv cfg s held) (hcpu : cpu < cfg.numCpus)
    (ht : t + rest = s.available cpu) :
    Inv cfg { s with available := Function.update s.available cpu rest,
                     capacity := Function.update s.capacity cpu (s.capacity cpu - t) } (held + t) := by
  have hbal := inv.balanced cpu hcpu
  have h1 : Function.update s.capacity cpu (s.capacity cpu - t) cpu + t = s.capacity cpu + 0 := by
    rw [Function.update_self]
    omega
  have h2 : Function.update s.available cpu rest cpu + slabBytes cfg s.freelist cpu + t =
      s.available cpu + slabBytes cfg s.freelist cpu + 0 := by
    rw [Function.update_self]
    omega
  exact inv.step ((within_setAvailable rest).trans (within_setCapacity _)) hcpu h1 h2 (by omega)

theorem stealClassesLoop_inv {src bytes : Nat} (hsrc : src < cfg.numCpus) :
    ∀ (fuel : Nat) (s : CpuCache) (source acquired : Nat) {r : CpuCache × Nat × Nat},
      s.populated src = true → fuel ≤ cfg.numClasses - 1 → 1 ≤ source → Inv cfg s acquired →
      stealClassesLoop cfg src bytes fuel s source acquired = r → Inv cfg r.1 r.2.2 ∧ 1 ≤ r.2.1
  | 0, s, source, acquired, r, _, _, hsource, inv, h => by
      subst h
      exact ⟨inv, hsource⟩
  | fuel + 1, s, source, acquired, r, hpop, hfuel, hsource, inv, h => by
      have hwrap := wrap_mem hsource (show 2 ≤ cfg.numClasses by omega)
      simp only [stealClassesLoop] at h
      generalize (if cfg.numClasses ≤ source then 1 else source) = w at h hwrap
      have m := shrinkOtherCache_moves hwrap hpop 0
      generalize s.shrinkOtherCache cfg src w = shrunk at h m
      obtain ⟨s1, k⟩ := shrunk
      dsimp only at h m
      rw [Nat.zero_add] at m
      split at h
      · subst k
        have inv1 : Inv cfg s1 acquired :=
          inv.keep m.within hsrc (congrFun m.capacity src) (by have := m.slab; rw [m.available]; omega)
        exact stealClassesLoop_inv hsrc fuel s1 (w + 1) acquired (m.populated hpop) (by omega) (by omega) inv1 h
      · have inv2 := inv.takeSlab m hsrc
        split at h
        · subst h
          exact ⟨inv2, hwrap.1⟩
        · exact stealClassesLoop_inv hsrc fuel
            { s1 with capacity := Function.update s1.capacity src (s1.capacity src - k) } (w + 1) (acquired + k)
            (m.populated hpop) (by omega) (by omega) inv2 h

theorem stealFromCpu_inv {src bytes acquired : Nat} {skipCpus eligible : List Nat} (hsrc : src < cfg.numCpus)
    (inv : Inv cfg s acquired) :
    Inv cfg (s.stealFromCpu cfg src skipCpus eligible bytes acquired).1
      (s.stealFromCpu cfg src skipCpus eligible bytes acquired).2 := by
  unfold stealFromCpu
  split
  · exact inv
  · rename_i hcond
    have hpop : s.populated src = true := by
      simp only [not_or] at hcond
      simpa using hcond.2.1
    dsimp only
    have ht := (subtractAtLeast_spec (s.available src) 0 (bytes - acquired)).1
    generalize subtractAtLeast (s.available src) 0 (bytes - acquired) = taken at ht ⊢
    obtain ⟨t, rest⟩ := taken
    dsimp only at ht ⊢
    set s2 := if t = 0 then { s with available := Function.update s.available src rest }
      else { s with available := Function.update s.available src rest,
                    capacity := Function.update s.capacity src (s.capacity src - t) } with hs2
    have inv2 : Inv cfg s2 (acquired + t) := by
      rw [hs2]
      split
      · rename_i ht0
        subst ht0
        refine inv.keep (within_setAvailable rest) hsrc rfl ?_
        show Function.update s.available src rest src + slabBytes cfg s.freelist src =
          s.available src + slabBytes cfg s.freelist src
        rw [Function.update_self]
        omega
      · exact inv.takeAvailable hsrc ht
    have hpop2 : s2.populated src = true := by
      rw [hs2]
      split <;> exact hpop
    have hsteal2 : 1 ≤ s2.nextSteal src := by
      rw [hs2]
      split <;> exact inv.nextSteal src
    split
    · exact inv2
    · obtain ⟨inv3, hsource⟩ := stealClassesLoop_inv hsrc (cfg.numClasses - 1) s2 (s2.nextSteal src) _ hpop2
        le_rfl hsteal2 inv2 rfl
      exact inv3.keep (within_setNextSteal hsource) hsrc rfl rfl

theorem stealFromOtherCacheLoop_inv {maxPopulatedCpu bytes : Nat} {skipCpus eligible : List Nat}
    (hmax : maxPopulatedCpu < cfg.numCpus) :
    ∀ (fuel : Nat) (s : CpuCache) (i src acquired : Nat) {r : CpuCache × Nat × Nat}, Inv cfg s acquired →
      stealFromOtherCacheLoop cfg maxPopulatedCpu skipCpus eligible bytes fuel s i src acquired = r →
      Inv cfg r.1 r.2.2
  | 0, s, _, _, _, r, inv, h => by
      subst h
      exact inv
  | fuel + 1, s, i, src, acquired, r, inv, h => by
      simp only [stealFromOtherCacheLoop] at h
      split at h
      · have hsrc : (if maxPopulatedCpu < src then 0 else src) < cfg.numCpus := by
          split <;> omega
        exact stealFromOtherCacheLoop_inv hmax fuel _ _ _ _ (stealFromCpu_inv hsrc inv) h
      · subst h
        exact inv

theorem stealFromOtherCache_inv {cpu maxPopulatedCpu bytes : Nat} {skipCpus eligible : List Nat}
    (inv : Inv cfg s 0) (hcpu : cpu < cfg.numCpus) (hmax : maxPopulatedCpu < cfg.numCpus) :
    Inv cfg (s.stealFromOtherCache cfg cpu maxPopulatedCpu skipCpus bytes eligible) 0 := by
  unfold stealFromOtherCache
  split
  · exact inv
  · dsimp only
    have inv1 : Inv cfg (stealFromOtherCacheLoop cfg maxPopulatedCpu skipCpus eligible bytes (maxPopulatedCpu + 1) s 0
        s.nextCpuCacheSteal 0).1 (stealFromOtherCacheLoop cfg maxPopulatedCpu skipCpus eligible bytes
        (maxPopulatedCpu + 1) s 0 s.nextCpuCacheSteal 0).2.2 :=
      stealFromOtherCacheLoop_inv hmax (maxPopulatedCpu + 1) s 0 s.nextCpuCacheSteal 0 inv rfl
    generalize stealFromOtherCacheLoop cfg maxPopulatedCpu skipCpus eligible bytes (maxPopulatedCpu + 1) s 0
      s.nextCpuCacheSteal 0 = r at inv1 ⊢
    have inv2 : Inv cfg { r.1 with nextCpuCacheSteal := r.2.1 } r.2.2 := inv1.of_eq rfl rfl rfl rfl rfl
    split
    · rename_i h0
      rw [h0] at inv2
      exact inv2
    · have h1 : Function.update r.1.capacity cpu (r.1.capacity cpu + r.2.2) cpu + 0 = r.1.capacity cpu + r.2.2 := by
        rw [Function.update_self, Nat.add_zero]
      have h2 : Function.update r.1.available cpu (r.1.available cpu + r.2.2) cpu + slabBytes cfg r.1.freelist cpu + 0 =
          r.1.available cpu + slabBytes cfg r.1.freelist cpu + r.2.2 := by
        rw [Function.update_self]
        omega
      exact inv2.step ((within_setAvailable _).trans (within_setCapacity _)) hcpu h1 h2 (by omega)

end Steal

section Resize

variable {cfg}

theorem resizeSizeClassesLoop_inv :
    ∀ (fuel : Nat) (s : CpuCache) (cpu n : Nat) {r : CpuCache × Nat}, fuel ≤ cfg.numCpus → Inv cfg s 0 →
      resizeSizeClassesLoop cfg fuel s cpu n = some r → Inv cfg r.1 0
  | 0, s, _, _, r, _, inv, h => by
      simp only [resizeSizeClassesLoop, Option.some.injEq] at h
      subst h
      exact inv
  | fuel + 1, s, cpu, n, r, hfuel, inv, h => by
      have hx : (if cfg.numCpus ≤ cpu + 1 then 0 else cpu + 1) < cfg.numCpus := by
        split <;> omega
      simp only [resizeSizeClassesLoop] at h
      generalize (if cfg.numCpus ≤ cpu + 1 then 0 else cpu + 1) = x at h hx
      split at h
      · exact resizeSizeClassesLoop_inv fuel s x n (by omega) inv h
      · rename_i hpop
        have hpop' : s.populated x = true := by simpa using hpop
        split at h
        · exact absurd h (by simp)
        · rename_i s1 hs1
          have inv1 := inv.keeps (resizeCpuSizeClasses_keeps hpop' (inv.nextSteal x) hs1) hx
          have inv2 := inv1.keeps (keeps_updateIntervalMisses x x) hx
          split at h
          · simp only [Option.some.injEq] at h
            subst h
            exact inv2
          · exact resizeSizeClassesLoop_inv fuel _ x (n + 1) (by omega) inv2 h

theorem resizeSizeClasses_inv {s s' : CpuCache} (inv : Inv cfg s 0) (h : s.resizeSizeClasses cfg = some s') :
    Inv cfg s' 0 := by
  unfold resizeSizeClasses at h
  split at h
  · exact absurd h (by simp)
  · rename_i r hr
    simp only [Option.some.injEq] at h
    subst h
    exact (resizeSizeClassesLoop_inv cfg.numCpus s _ 0 le_rfl inv hr).of_eq rfl rfl rfl rfl rfl

end Resize

end CpuCache

end TCMalloc
