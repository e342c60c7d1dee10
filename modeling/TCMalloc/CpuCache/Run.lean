import TCMalloc.CpuCache.Budget

/-!
Runs of the per-cpu cache from `Activate`: every allowed operation keeps the
budget invariant, so on every cpu the capacity is the slack plus the slab
capacity in bytes, and the capacities add up to `NumCPUs() * CacheLimit()`.
-/

set_option autoImplicit false
set_option relaxedAutoImplicit false

namespace TCMalloc

open TCMalloc.Internal TCMalloc.Lib

namespace CpuCache

variable {cfg : Config}

theorem activate_inv : Inv cfg (activate cfg) 0 := by
  have hzero : ∀ x, slabBytes cfg (activate cfg).freelist x = 0 := fun x => slabBytes_eq_zero fun _ _ => rfl
  refine ⟨fun x _ => ?_, ?_, fun _ _ _ => rfl, fun _ => le_rfl⟩
  · rw [hzero]
    rfl
  · show ∑ _cpu ∈ Finset.range cfg.numCpus, cfg.cacheLimit + 0 = cfg.numCpus * cfg.cacheLimit
    simp

theorem step_inv {s s' : CpuCache} {call : Call} (inv : Inv cfg s 0) (hok : Allowed cfg s call)
    (h : step cfg s call = some s') : Inv cfg s' 0 := by
  cases call with
  | push cpu c =>
      obtain ⟨hcpu, hpop, hc⟩ := hok
      simp only [step, Option.some.injEq] at h
      subst h
      exact inv.keeps (push_keeps hc hpop) hcpu
  | pop cpu c =>
      obtain ⟨hcpu, hpop, hc⟩ := hok
      simp only [step, Option.some.injEq] at h
      subst h
      exact inv.keeps (pop_keeps hc hpop) hcpu
  | updateCapacity cpu c overflow stored =>
      obtain ⟨hcpu, hpop, hc⟩ := hok
      simp only [step, Option.some.injEq] at h
      subst h
      exact inv.keeps (updateCapacity_keeps hc hpop overflow stored) hcpu
  | populate cpu =>
      simp only [step, Option.some.injEq] at h
      subst h
      exact populate_inv inv cpu
  | stealFromOtherCache cpu m skipCpus bytes eligible =>
      obtain ⟨hcpu, hm⟩ := hok
      simp only [step, Option.some.injEq] at h
      subst h
      exact stealFromOtherCache_inv inv hcpu hm
  | resizeSizeClasses =>
      exact resizeSizeClasses_inv inv h
  | reclaim cpu =>
      simp only [step, Option.some.injEq] at h
      subst h
      exact inv.keeps reclaim_keeps hok
  | resizeSlabIfNeeded r =>
      simp only [step, Option.some.injEq] at h
      subst h
      exact resizeSlabIfNeeded_inv inv r
  | resizeSizeClassMaxCapacities l =>
      simp only [step, Option.some.injEq] at h
      subst h
      exact resizeSizeClassMaxCapacities_inv inv l

theorem run_inv {calls : List Call} {s : CpuCache} (run : Run (step cfg) (Allowed cfg) (activate cfg) calls s) :
    Inv cfg s 0 :=
  Run.invariant (fun s => Inv cfg s 0) (fun _ _ _ inv hok h => step_inv inv hok h) run activate_inv

/-- The per-cpu byte budget is conserved along every run from `Activate`. -/
theorem cpuCache_budget_conserved {calls : List Call} {s : CpuCache}
    (run : Run (step cfg) (Allowed cfg) (activate cfg) calls s) :
    (∀ cpu < cfg.numCpus, s.capacity cpu =
      s.available cpu + ∑ c ∈ Finset.Ico 1 cfg.numClasses, s.freelist.capacity cpu c * cfg.classToSize c) ∧
    ∑ cpu ∈ Finset.range cfg.numCpus, s.capacity cpu = cfg.numCpus * cfg.cacheLimit := by
  have inv := run_inv run
  exact ⟨inv.balanced, inv.total⟩

/-- Two cpus and the size classes 1 and 2, of 8 and 16 bytes, with a cache
limit of 100 bytes per cpu. -/
def twoCpus : Config where
  numCpus := 2
  numClasses := 3
  classToSize := fun c => 8 * c
  numObjectsToMove := fun _ => 2
  maxCapacity := fun _ => 8
  cacheLimit := 100
  initialShift := 0
  maxShift := 0
  dynamicSlabEnabled := false
  maxSize := 1000
  maxCpuCacheSize := 1000

theorem cpuCache_budget_conserved_after_steal :
    ∃ (calls : List Call) (s : CpuCache), Run (step twoCpus) (Allowed twoCpus) (activate twoCpus) calls s ∧
      ((∀ cpu < twoCpus.numCpus, s.capacity cpu =
        s.available cpu + ∑ c ∈ Finset.Ico 1 twoCpus.numClasses, s.freelist.capacity cpu c * twoCpus.classToSize c) ∧
      ∑ cpu ∈ Finset.range twoCpus.numCpus, s.capacity cpu = twoCpus.numCpus * twoCpus.cacheLimit) := by
  have run : Run (step twoCpus) (Allowed twoCpus) (activate twoCpus)
      [.populate 0, .updateCapacity 0 1 false true, .push 0 1, .stealFromOtherCache 1 1 [1] 50 [0],
        .resizeSizeClassMaxCapacities [⟨1, 4⟩], .reclaim 0] _ :=
    Run.cons (by decide) rfl <| Run.cons (by decide) rfl <| Run.cons (by decide) rfl <|
      Run.cons (by decide) rfl <| Run.cons (by decide) rfl <| Run.cons (by decide) rfl <| Run.nil _
  exact ⟨_, _, run, cpuCache_budget_conserved run⟩

/-- Cpu 0 grows class 1 by a batch of two 8-byte objects, and cpu 1 then steals
the 84 bytes cpu 0 has left of its slack. -/
example : ((((activate twoCpus).populate twoCpus 0).updateCapacity twoCpus 0 1 false true).1.stealFromOtherCache
      twoCpus 1 1 [1] 100 [0]).capacity 1 = 184 := by
  decide

end CpuCache

end TCMalloc
