import Mathlib
import TCMalloc.CpuCache.Basic
import TCMalloc.Lib.Positions

/-!
`GetUpdatedMaxCapacities` of `cpu_cache.h`: the size classes sorted by their
misses against the maximum capacity in the last interval, summed over the
populated cpus; a grow cursor from the most missed class and a shrink cursor
from the least missed one; per round a target of `growth_factor` batches of the
class to grow, taken one batch at most from each class shrunk, and kept only if
some capacity was found.

The interval misses `GetAndUpdateIntervalMisses(kMaxCapacityTotal,
kMaxCapacityResize)` returns are an argument: nothing else in the model reads
those counters.  The output span is the caller's
`new_max_capacities[kNumClasses]`, a buffer `Nat → PerSizeClassMaxCapacity`
here; a write that `TC_ASSERT_LT(next_capacity_index, kNumClasses)` rejects is
`none`.  `to_grow * growth_factor` is an `int` product of a batch size and at
most `5`, which stays far below `2^31` for the batch sizes of the size map.
-/

set_option autoImplicit false
set_option relaxedAutoImplicit false

namespace TCMalloc

open TCMalloc.Internal TCMalloc.Lib

namespace CpuCache

variable (cfg : Config)

/-- `total_misses[size_class]`: the `size_t` sum over the populated cpus. -/
def totalMisses (s : CpuCache) (intervalMisses : Nat → Nat → Nat) (sizeClass : Nat) : Nat :=
  (List.range cfg.numCpus).foldl
    (fun total cpu => if s.populated cpu then (total + intervalMisses cpu sizeClass) % 2 ^ 64 else total) 0

/-- `miss_stats` after the `std::sort`.  Its comparator is a strict total order on
entries of distinct classes, so every sort gives this order. -/
def maxCapacityMissStats (s : CpuCache) (intervalMisses : Nat → Nat → Nat) : List SizeClassMissStat :=
  ((List.range cfg.numClasses).map fun c => ⟨c, totalMisses cfg s intervalMisses c⟩).insertionSort
    fun a b => missStatsBefore a b = true

/-- `kMaxCapacitiesToGrow`. -/
def kMaxCapacitiesToGrow : Nat := cfg.numClasses / 2

/-- `max_capacity[index] = entry`, behind `TC_ASSERT_LT(index, kNumClasses)`. -/
def writeEntry (buf : Nat → PerSizeClassMaxCapacity) (index : Nat) (entry : PerSizeClassMaxCapacity) :
    Option (Nat → PerSizeClassMaxCapacity) :=
  if index < cfg.numClasses then some (Function.update buf index entry) else none

/-- The locals of a round when its `while` loop ends. -/
structure ShrinkState where
  shrinkIndex : Nat
  nextIndex : Nat
  target : Nat
  shrunk : Nat
  buf : Nat → PerSizeClassMaxCapacity

/-- The `while (shrink_index > grow_index && target > 0)` loop of a round: from
each class down from `shrink_index`, at most one batch and never below one. -/
def shrinkMaxCapacityLoop (s : CpuCache) (stats : List SizeClassMissStat) (growIndex : Nat) :
    Nat → Nat → Nat → Nat → (Nat → PerSizeClassMaxCapacity) → Option ShrinkState
  | 0, nextIndex, target, shrunk, buf => some ⟨0, nextIndex, target, shrunk, buf⟩
  | shrinkIndex + 1, nextIndex, target, shrunk, buf =>
    if growIndex < shrinkIndex + 1 ∧ 0 < target then
      match stats[shrinkIndex + 1]? with
      | none => none
      | some stat =>
        let batchSize := cfg.numObjectsToMove stat.sizeClass
        let cap := s.maxCapacity stat.sizeClass
        -- `--shrink_index` comes before either `continue`
        if cap ≤ batchSize then shrinkMaxCapacityLoop s stats growIndex shrinkIndex nextIndex target shrunk buf
        else
          let toShrink := min (min target batchSize) (cap - batchSize)
          if toShrink = 0 then shrinkMaxCapacityLoop s stats growIndex shrinkIndex nextIndex target shrunk buf
          else
            match writeEntry cfg buf nextIndex ⟨stat.sizeClass, cap - toShrink⟩ with
            | none => none
            | some buf =>
              shrinkMaxCapacityLoop s stats growIndex shrinkIndex (nextIndex + 1) (target - toShrink)
                (shrunk + toShrink) buf
    else some ⟨shrinkIndex + 1, nextIndex, target, shrunk, buf⟩

/-- The `for` loop over `grow_index`, with `fuel` indices left below `kNumClasses`:
the buffer and `max_capacity_index` when it ends. -/
def growMaxCapacityLoop (s : CpuCache) (stats : List SizeClassMissStat) :
    Nat → Nat → Nat → Nat → Nat → Nat → (Nat → PerSizeClassMaxCapacity) →
      Option ((Nat → PerSizeClassMaxCapacity) × Nat)
  | 0, _, _, maxCapacityIndex, _, _, buf => some (buf, maxCapacityIndex)
  | fuel + 1, growIndex, shrinkIndex, maxCapacityIndex, growthFactor, grown, buf =>
    match stats[growIndex]? with
    | none => none
    | some stat =>
      if stat.misses = 0 then some (buf, maxCapacityIndex)
      else
        let toGrow := cfg.numObjectsToMove stat.sizeClass
        match shrinkMaxCapacityLoop cfg s stats growIndex shrinkIndex maxCapacityIndex
            (toGrow * growthFactor) 0 buf with
        | none => none
        | some r =>
          -- nothing was written this round, so `max_capacity_index` stays
          if r.shrunk = 0 then some (r.buf, maxCapacityIndex)
          else
            match writeEntry cfg r.buf r.nextIndex
                ⟨stat.sizeClass, s.maxCapacity stat.sizeClass + r.shrunk⟩ with
            | none => none
            | some buf =>
              if grown + 1 = kMaxCapacitiesToGrow cfg then some (buf, r.nextIndex + 1)
              else
                growMaxCapacityLoop s stats fuel (growIndex + 1) r.shrinkIndex (r.nextIndex + 1)
                  (max (growthFactor - 1) 1) (grown + 1) buf

/-- `GetUpdatedMaxCapacities(max_capacity)`: the buffer it wrote and the number of
entries it returns. -/
def getUpdatedMaxCapacities (s : CpuCache) (intervalMisses : Nat → Nat → Nat)
    (buf : Nat → PerSizeClassMaxCapacity) : Option ((Nat → PerSizeClassMaxCapacity) × Nat) :=
  growMaxCapacityLoop cfg s (maxCapacityMissStats cfg s intervalMisses) cfg.numClasses 0
    (cfg.numClasses - 1) 0 5 0 buf

section Stats

variable {cfg}

theorem totalMisses_eq_zero {s : CpuCache} {intervalMisses : Nat → Nat → Nat} {sizeClass : Nat}
    (h : ∀ cpu < cfg.numCpus, s.populated cpu = true → intervalMisses cpu sizeClass = 0) :
    totalMisses cfg s intervalMisses sizeClass = 0 := by
  have step : ∀ l : List Nat, (∀ cpu ∈ l, s.populated cpu = true → intervalMisses cpu sizeClass = 0) →
      l.foldl (fun total cpu =>
        if s.populated cpu then (total + intervalMisses cpu sizeClass) % 2 ^ 64 else total) 0 = 0 := by
    intro l
    induction l with
    | nil => intro _; rfl
    | cons cpu l ih =>
        intro hl
        rw [List.foldl_cons]
        have hzero : (if s.populated cpu then (0 + intervalMisses cpu sizeClass) % 2 ^ 64 else 0) = 0 := by
          split
          · rename_i hpop
            rw [hl cpu List.mem_cons_self hpop, Nat.add_zero, Nat.zero_mod]
          · rfl
        rw [hzero]
        exact ih fun c hc => hl c (List.mem_cons_of_mem cpu hc)
  exact step _ fun cpu hcpu => h cpu (List.mem_range.mp hcpu)

theorem exists_of_totalMisses_ne_zero {s : CpuCache} {intervalMisses : Nat → Nat → Nat} {sizeClass : Nat}
    (h : totalMisses cfg s intervalMisses sizeClass ≠ 0) :
    ∃ cpu < cfg.numCpus, s.populated cpu = true ∧ intervalMisses cpu sizeClass ≠ 0 := by
  by_contra hnone
  simp only [not_exists, not_and, not_not] at hnone
  exact h (totalMisses_eq_zero hnone)

variable (cfg) in
theorem maxCapacityMissStats_spec (s : CpuCache) (intervalMisses : Nat → Nat → Nat) :
    (maxCapacityMissStats cfg s intervalMisses).length = cfg.numClasses ∧
      ((maxCapacityMissStats cfg s intervalMisses).map SizeClassMissStat.sizeClass).Nodup ∧
      ∀ st ∈ maxCapacityMissStats cfg s intervalMisses,
        st.sizeClass < cfg.numClasses ∧ st.misses = totalMisses cfg s intervalMisses st.sizeClass := by
  have hperm := List.perm_insertionSort (fun a b => missStatsBefore a b = true)
    ((List.range cfg.numClasses).map fun c => (⟨c, totalMisses cfg s intervalMisses c⟩ : SizeClassMissStat))
  refine ⟨by rw [maxCapacityMissStats, hperm.length_eq]; simp, ?_, ?_⟩
  · rw [maxCapacityMissStats, (hperm.map SizeClassMissStat.sizeClass).nodup_iff, List.map_map]
    exact (List.nodup_range).map fun i j h => by simpa using h
  · intro st hst
    rw [maxCapacityMissStats, hperm.mem_iff, List.mem_map] at hst
    obtain ⟨c, hc, rfl⟩ := hst
    exact ⟨List.mem_range.mp hc, rfl⟩

end Stats

/-- How much an entry changes the maximum of its class. -/
def change (s : CpuCache) (e : PerSizeClassMaxCapacity) : Int :=
  (e.maxCapacity : Int) - s.maxCapacity e.sizeClass

/-- An entry that lowers the maximum of its class and keeps at least a batch of it. -/
def Lowers (s : CpuCache) (e : PerSizeClassMaxCapacity) : Prop :=
  e.maxCapacity < s.maxCapacity e.sizeClass ∧ cfg.numObjectsToMove e.sizeClass ≤ e.maxCapacity

/-- The entries a round has written past `max_capacity_index` when the shrink
cursor is at `k`: distinct classes at positions in `(max g k, k₀]`, each lowering
its class's maximum, by `shrunk` in all. -/
structure Pending (s : CpuCache) (stats : List SizeClassMissStat) (g k₀ k shrunk : Nat)
    (P : List PerSizeClassMaxCapacity) : Prop where
  nodup : (P.map PerSizeClassMaxCapacity.sizeClass).Nodup
  pos : ∀ e ∈ P, ∃ j, k < j ∧ g < j ∧ j ≤ k₀ ∧
    (stats.map SizeClassMissStat.sizeClass)[j]? = some e.sizeClass
  lowers : ∀ e ∈ P, Lowers cfg s e
  sum : (P.map (change s)).sum = -shrunk
  length_le : P.length ≤ shrunk

/-- The entries committed before round `g`, with the shrink cursor at `k`:
distinct classes at positions below `g` or above `k`, each lowering its class's
maximum or raising that of a class that missed, the changes summing to zero. -/
structure Committed (s : CpuCache) (stats : List SizeClassMissStat) (g k : Nat)
    (C : List PerSizeClassMaxCapacity) : Prop where
  nodup : (C.map PerSizeClassMaxCapacity.sizeClass).Nodup
  pos : ∀ e ∈ C, ∃ j, (j < g ∨ k < j) ∧ (stats.map SizeClassMissStat.sizeClass)[j]? = some e.sizeClass
  changes : ∀ e ∈ C, Lowers cfg s e ∨
    (s.maxCapacity e.sizeClass < e.maxCapacity ∧ ∃ st ∈ stats, st.sizeClass = e.sizeClass ∧ st.misses ≠ 0)
  sum : (C.map (change s)).sum = 0

section Rounds

variable {cfg} {s : CpuCache} {stats : List SizeClassMissStat}

theorem lt_of_getElem?_classes (hlt : ∀ st ∈ stats, st.sizeClass < cfg.numClasses) {j c : Nat}
    (h : (stats.map SizeClassMissStat.sizeClass)[j]? = some c) : c < cfg.numClasses := by
  obtain ⟨st, hst, rfl⟩ := List.mem_map.mp (List.mem_of_getElem? h)
  exact hlt st hst

theorem Pending.nil (g k₀ k : Nat) : Pending cfg s stats g k₀ k 0 [] :=
  ⟨List.nodup_nil, fun _ h => absurd h List.not_mem_nil, fun _ h => absurd h List.not_mem_nil, rfl,
    le_rfl⟩

theorem Pending.eq_nil {g k₀ k : Nat} {P : List PerSizeClassMaxCapacity}
    (h : Pending cfg s stats g k₀ k 0 P) : P = [] :=
  List.eq_nil_of_length_eq_zero (Nat.le_zero.mp h.length_le)

theorem Pending.skip {g k₀ k shrunk : Nat} {P : List PerSizeClassMaxCapacity}
    (h : Pending cfg s stats g k₀ (k + 1) shrunk P) : Pending cfg s stats g k₀ k shrunk P where
  nodup := h.nodup
  pos e he := by
    obtain ⟨j, hkj, hgj, hj, hjc⟩ := h.pos e he
    exact ⟨j, by omega, hgj, hj, hjc⟩
  lowers := h.lowers
  sum := h.sum
  length_le := h.length_le

theorem Committed.nodup_append (hnd : (stats.map SizeClassMissStat.sizeClass).Nodup) {g k₀ k shrunk : Nat}
    {C P : List PerSizeClassMaxCapacity} (hC : Committed cfg s stats g k₀ C)
    (hP : Pending cfg s stats g k₀ k shrunk P) :
    ((C ++ P).map PerSizeClassMaxCapacity.sizeClass).Nodup := by
  rw [List.map_append, List.nodup_append]
  refine ⟨hC.nodup, hP.nodup, ?_⟩
  intro a ha b hb hab
  obtain ⟨e, he, rfl⟩ := List.mem_map.mp ha
  obtain ⟨e', he', rfl⟩ := List.mem_map.mp hb
  obtain ⟨i, hi, hic⟩ := hC.pos e he
  obtain ⟨j, -, hgj, hjk, hjc⟩ := hP.pos e' he'
  have := index_eq_of_nodup hnd hic (hab ▸ hjc)
  omega

theorem not_mem_of_pos (hnd : (stats.map SizeClassMissStat.sizeClass).Nodup) {g k₀ k shrunk j c : Nat}
    {C P : List PerSizeClassMaxCapacity} (hC : Committed cfg s stats g k₀ C)
    (hP : Pending cfg s stats g k₀ k shrunk P) (hgj : g < j) (hjk : j ≤ k) (hk : k ≤ k₀)
    (hc : (stats.map SizeClassMissStat.sizeClass)[j]? = some c) :
    c ∉ (C ++ P).map PerSizeClassMaxCapacity.sizeClass := by
  intro hmem
  obtain ⟨e, he, rfl⟩ := List.mem_map.mp hmem
  rcases List.mem_append.mp he with he | he
  · obtain ⟨i, hi, hic⟩ := hC.pos e he
    have := index_eq_of_nodup hnd hic hc
    omega
  · obtain ⟨i, hki, -, -, hic⟩ := hP.pos e he
    have := index_eq_of_nodup hnd hic hc
    omega

theorem Pending.push {g k₀ k shrunk δ : Nat} {P : List PerSizeClassMaxCapacity} {e : PerSizeClassMaxCapacity}
    (h : Pending cfg s stats g k₀ (k + 1) shrunk P) (hgk : g < k + 1) (hk : k + 1 ≤ k₀)
    (hc : (stats.map SizeClassMissStat.sizeClass)[k + 1]? = some e.sizeClass)
    (hnew : e.sizeClass ∉ P.map PerSizeClassMaxCapacity.sizeClass) (hlow : Lowers cfg s e)
    (hδ : change s e = -δ) (hpos : 0 < δ) :
    Pending cfg s stats g k₀ k (shrunk + δ) (P ++ [e]) where
  nodup := by
    rw [List.map_append, List.map_singleton]
    exact List.Nodup.append h.nodup (List.nodup_singleton _) (by simpa using hnew)
  pos x hx := by
    rcases List.mem_append.mp hx with hx | hx
    · obtain ⟨j, hkj, hgj, hj, hjc⟩ := h.pos x hx
      exact ⟨j, by omega, hgj, hj, hjc⟩
    · rw [List.mem_singleton.mp hx]
      exact ⟨k + 1, by omega, hgk, hk, hc⟩
  lowers x hx := by
    rcases List.mem_append.mp hx with hx | hx
    · exact h.lowers x hx
    · rw [List.mem_singleton.mp hx]
      exact hlow
  sum := by
    rw [List.map_append, List.sum_append, h.sum, List.map_singleton, List.sum_singleton, hδ]
    omega
  length_le := by
    have := h.length_le
    simp only [List.length_append, List.length_singleton]
    omega

theorem Committed.append_lt (hlt : ∀ st ∈ stats, st.sizeClass < cfg.numClasses) {g k₀ k shrunk : Nat}
    {C P : List PerSizeClassMaxCapacity} (hC : Committed cfg s stats g k₀ C)
    (hP : Pending cfg s stats g k₀ k shrunk P) : ∀ e ∈ C ++ P, e.sizeClass < cfg.numClasses := by
  intro e he
  rcases List.mem_append.mp he with he | he
  · obtain ⟨j, -, hjc⟩ := hC.pos e he
    exact lt_of_getElem?_classes hlt hjc
  · obtain ⟨j, -, -, -, hjc⟩ := hP.pos e he
    exact lt_of_getElem?_classes hlt hjc

theorem length_lt_of_fresh {L : List PerSizeClassMaxCapacity} {c : Nat}
    (hL : (L.map PerSizeClassMaxCapacity.sizeClass).Nodup) (hLlt : ∀ e ∈ L, e.sizeClass < cfg.numClasses)
    (hc : c < cfg.numClasses) (hnew : c ∉ L.map PerSizeClassMaxCapacity.sizeClass) :
    L.length < cfg.numClasses := by
  have hnodup : (L.map PerSizeClassMaxCapacity.sizeClass ++ [c]).Nodup :=
    List.Nodup.append hL (List.nodup_singleton c) (by simpa using hnew)
  have hall : ∀ x ∈ L.map PerSizeClassMaxCapacity.sizeClass ++ [c], x < cfg.numClasses := by
    intro x hx
    rcases List.mem_append.mp hx with hx | hx
    · obtain ⟨e, he, rfl⟩ := List.mem_map.mp hx
      exact hLlt e he
    · rw [List.mem_singleton.mp hx]
      exact hc
  have := length_le_of_nodup hnodup hall
  simp only [List.length_append, List.length_map, List.length_singleton] at this
  omega

theorem shrinkMaxCapacityLoop_spec (hnd : (stats.map SizeClassMissStat.sizeClass).Nodup)
    (hlt : ∀ st ∈ stats, st.sizeClass < cfg.numClasses) {g k₀ : Nat} {C : List PerSizeClassMaxCapacity}
    (hC : Committed cfg s stats g k₀ C) (hk₀ : k₀ < stats.length) (k : Nat) :
    ∀ (n t shrunk : Nat) (buf : Nat → PerSizeClassMaxCapacity) (P : List PerSizeClassMaxCapacity),
      k ≤ k₀ → prefixOf buf n = C ++ P → Pending cfg s stats g k₀ k shrunk P →
      ∃ r P', shrinkMaxCapacityLoop cfg s stats g k n t shrunk buf = some r ∧ r.shrinkIndex ≤ k ∧
        prefixOf r.buf r.nextIndex = C ++ P' ∧ Pending cfg s stats g k₀ r.shrinkIndex r.shrunk P' := by
  induction k with
  | zero =>
      intro n t shrunk buf P _ hpre hP
      exact ⟨_, P, rfl, le_rfl, hpre, hP⟩
  | succ k ih =>
      intro n t shrunk buf P hk hpre hP
      by_cases hrun : g < k + 1 ∧ 0 < t
      swap
      · exact ⟨⟨k + 1, n, t, shrunk, buf⟩, P, by simp only [shrinkMaxCapacityLoop, if_neg hrun], le_rfl,
          hpre, hP⟩
      have hstat : stats[k + 1]? = some stats[k + 1] := List.getElem?_eq_getElem (by omega)
      -- the two `continue`s move the cursor on with nothing written
      have hmove : ∀ {r : ShrinkState},
          shrinkMaxCapacityLoop cfg s stats g (k + 1) n t shrunk buf =
            shrinkMaxCapacityLoop cfg s stats g k n t shrunk buf →
          shrinkMaxCapacityLoop cfg s stats g k n t shrunk buf = some r →
          shrinkMaxCapacityLoop cfg s stats g (k + 1) n t shrunk buf = some r := fun heq hr => heq.trans hr
      by_cases hcap : s.maxCapacity stats[k + 1].sizeClass ≤ cfg.numObjectsToMove stats[k + 1].sizeClass
      · obtain ⟨r, P', hr, hle, hpre', hP'⟩ := ih n t shrunk buf P (by omega) hpre hP.skip
        exact ⟨r, P', hmove (by simp [shrinkMaxCapacityLoop, hrun, hstat, hcap]) hr, by omega, hpre', hP'⟩
      by_cases hzero : min (min t (cfg.numObjectsToMove stats[k + 1].sizeClass))
          (s.maxCapacity stats[k + 1].sizeClass - cfg.numObjectsToMove stats[k + 1].sizeClass) = 0
      · obtain ⟨r, P', hr, hle, hpre', hP'⟩ := ih n t shrunk buf P (by omega) hpre hP.skip
        exact ⟨r, P', hmove (by simp [shrinkMaxCapacityLoop, hrun, hstat, hcap, hzero]) hr, by omega,
          hpre', hP'⟩
      -- the class gives up `δ`, at most a batch and no more than it has above one
      obtain ⟨δ, hδ⟩ : ∃ δ, δ = min (min t (cfg.numObjectsToMove stats[k + 1].sizeClass))
          (s.maxCapacity stats[k + 1].sizeClass - cfg.numObjectsToMove stats[k + 1].sizeClass) := ⟨_, rfl⟩
      rw [← hδ] at hzero
      have hδle : δ + cfg.numObjectsToMove stats[k + 1].sizeClass ≤ s.maxCapacity stats[k + 1].sizeClass := by
        omega
      set e : PerSizeClassMaxCapacity := ⟨stats[k + 1].sizeClass, s.maxCapacity stats[k + 1].sizeClass - δ⟩
        with he
      have hc : (stats.map SizeClassMissStat.sizeClass)[k + 1]? = some e.sizeClass := by simp [hstat, he]
      have hfresh := not_mem_of_pos hnd hC hP hrun.1 le_rfl hk hc
      have hlen : (C ++ P).length = n := by rw [← hpre, length_prefixOf]
      have hn : n < cfg.numClasses := hlen ▸ length_lt_of_fresh (hC.nodup_append hnd hP)
        (hC.append_lt hlt hP) (lt_of_getElem?_classes hlt hc) hfresh
      have hwrite : shrinkMaxCapacityLoop cfg s stats g (k + 1) n t shrunk buf =
          shrinkMaxCapacityLoop cfg s stats g k (n + 1) (t - δ) (shrunk + δ) (Function.update buf n e) := by
        simp [shrinkMaxCapacityLoop, hrun, hstat, hcap, ← hδ, hzero, writeEntry, hn, e]
      have hpre' : prefixOf (Function.update buf n e) (n + 1) = C ++ (P ++ [e]) := by
        rw [prefixOf_update, hpre, List.append_assoc]
      have hlow : Lowers cfg s e := ⟨by simp only [he]; omega, by simp only [he]; omega⟩
      have hchange : change s e = -δ := by
        simp only [change, he]
        omega
      have hnew : e.sizeClass ∉ P.map PerSizeClassMaxCapacity.sizeClass := fun hm =>
        hfresh (by rw [List.map_append]; exact List.mem_append_right _ hm)
      obtain ⟨r, P', hr, hle, hpre'', hP'⟩ := ih (n + 1) (t - δ) (shrunk + δ) _ (P ++ [e]) (by omega) hpre'
        (hP.push hrun.1 hk hc hnew hlow hchange (Nat.pos_of_ne_zero hzero))
      exact ⟨r, P', hwrite.trans hr, by omega, hpre'', hP'⟩

theorem Committed.length_le (hlt : ∀ st ∈ stats, st.sizeClass < cfg.numClasses) {g k : Nat}
    {C : List PerSizeClassMaxCapacity} (hC : Committed cfg s stats g k C) : C.length ≤ cfg.numClasses := by
  have hall : ∀ c ∈ C.map PerSizeClassMaxCapacity.sizeClass, c < cfg.numClasses := by
    intro c hc
    obtain ⟨e, he, rfl⟩ := List.mem_map.mp hc
    obtain ⟨j, -, hjc⟩ := hC.pos e he
    exact lt_of_getElem?_classes hlt hjc
  simpa using length_le_of_nodup hC.nodup hall

theorem Committed.round (hnd : (stats.map SizeClassMissStat.sizeClass).Nodup) {g k₀ k shrunk : Nat}
    {C P : List PerSizeClassMaxCapacity} {stat : SizeClassMissStat} (hC : Committed cfg s stats g k₀ C)
    (hP : Pending cfg s stats g k₀ k shrunk P) (hk : k ≤ k₀) (hshrunk : 0 < shrunk)
    (hg : stats[g]? = some stat) (hmiss : stat.misses ≠ 0) :
    Committed cfg s stats (g + 1) k (C ++ P ++ [⟨stat.sizeClass, s.maxCapacity stat.sizeClass + shrunk⟩]) := by
  have hgc : (stats.map SizeClassMissStat.sizeClass)[g]? = some stat.sizeClass := by simp [hg]
  -- something was written, so the shrink cursor started above `g`
  obtain ⟨e₀, he₀⟩ : ∃ e₀, e₀ ∈ P := by
    rcases P with _ | ⟨e₀, P⟩
    · have := hP.sum
      simp only [List.map_nil, List.sum_nil] at this
      omega
    · exact ⟨e₀, List.mem_cons_self⟩
  have hgk₀ : g < k₀ := by
    obtain ⟨j, -, hgj, hjk, -⟩ := hP.pos e₀ he₀
    omega
  have hfresh : stat.sizeClass ∉ (C ++ P).map PerSizeClassMaxCapacity.sizeClass := by
    intro hmem
    obtain ⟨e, he, hec⟩ := List.mem_map.mp hmem
    rcases List.mem_append.mp he with he | he
    · obtain ⟨i, hi, hic⟩ := hC.pos e he
      have := index_eq_of_nodup hnd hic (hec ▸ hgc)
      omega
    · obtain ⟨i, -, hgi, -, hic⟩ := hP.pos e he
      have := index_eq_of_nodup hnd hic (hec ▸ hgc)
      omega
  refine ⟨?_, ?_, ?_, ?_⟩
  · rw [List.map_append, List.map_singleton]
    exact List.Nodup.append (hC.nodup_append hnd hP) (List.nodup_singleton _) (by simpa using hfresh)
  · intro e he
    rcases List.mem_append.mp he with he | he
    · rcases List.mem_append.mp he with he | he
      · obtain ⟨i, hi, hic⟩ := hC.pos e he
        exact ⟨i, by omega, hic⟩
      · obtain ⟨i, hki, -, -, hic⟩ := hP.pos e he
        exact ⟨i, Or.inr hki, hic⟩
    · rw [List.mem_singleton.mp he]
      exact ⟨g, Or.inl (Nat.lt_succ_self g), hgc⟩
  · intro e he
    rcases List.mem_append.mp he with he | he
    · rcases List.mem_append.mp he with he | he
      · exact hC.changes e he
      · exact Or.inl (hP.lowers e he)
    · rw [List.mem_singleton.mp he]
      exact Or.inr ⟨by dsimp only; omega, stat, List.mem_of_getElem? hg, rfl, hmiss⟩
  · rw [List.map_append, List.sum_append, List.map_append, List.sum_append, hC.sum, hP.sum,
      List.map_singleton, List.sum_singleton, change]
    push_cast
    omega

theorem growMaxCapacityLoop_spec (hnd : (stats.map SizeClassMissStat.sizeClass).Nodup)
    (hlt : ∀ st ∈ stats, st.sizeClass < cfg.numClasses) (fuel : Nat) :
    ∀ (g k n growthFactor grown : Nat) (buf : Nat → PerSizeClassMaxCapacity), fuel + g = stats.length →
      k ≤ stats.length - 1 → Committed cfg s stats g k (prefixOf buf n) →
      ∃ out m, growMaxCapacityLoop cfg s stats fuel g k n growthFactor grown buf = some (out, m) ∧
        ∃ g' k', Committed cfg s stats g' k' (prefixOf out m) := by
  induction fuel with
  | zero =>
      intro g k n _ _ buf _ _ hC
      exact ⟨buf, n, rfl, g, k, hC⟩
  | succ fuel ih =>
      intro g k n growthFactor grown buf hfuel hk hC
      have hg : stats[g]? = some stats[g] := List.getElem?_eq_getElem (by omega)
      by_cases hmiss : stats[g].misses = 0
      · exact ⟨buf, n, by simp [growMaxCapacityLoop, hg, hmiss], g, k, hC⟩
      obtain ⟨r, P, hr, hle, hpre, hP⟩ := shrinkMaxCapacityLoop_spec hnd hlt hC (by omega) k n
        (cfg.numObjectsToMove stats[g].sizeClass * growthFactor) 0 buf [] le_rfl (List.append_nil _).symm
        (Pending.nil g k k)
      by_cases hshrunk : r.shrunk = 0
      · -- nothing shrank, so nothing was written and the loop ends where it was
        rw [hshrunk] at hP
        have hnil := hP.eq_nil
        rw [hnil, List.append_nil] at hpre
        have hnext : r.nextIndex = n := by
          simpa only [length_prefixOf] using congrArg List.length hpre
        rw [hnext] at hpre
        exact ⟨r.buf, n, by simp [growMaxCapacityLoop, hg, hmiss, hr, hshrunk], g, k, hpre ▸ hC⟩
      have hround := hC.round hnd hP hle (Nat.pos_of_ne_zero hshrunk) hg hmiss
      have hlen : (prefixOf buf n ++ P).length = r.nextIndex := by rw [← hpre, length_prefixOf]
      have hn : r.nextIndex < cfg.numClasses := by
        have := hround.length_le hlt
        simp only [List.length_append, List.length_singleton] at this hlen
        omega
      set ge : PerSizeClassMaxCapacity := ⟨stats[g].sizeClass, s.maxCapacity stats[g].sizeClass + r.shrunk⟩
      have hpre' : prefixOf (Function.update r.buf r.nextIndex ge) (r.nextIndex + 1) =
          prefixOf buf n ++ P ++ [ge] := by
        rw [prefixOf_update, hpre]
      rw [← hpre'] at hround
      by_cases hmax : grown + 1 = kMaxCapacitiesToGrow cfg
      · exact ⟨_, _, by simp [growMaxCapacityLoop, hg, hmiss, hr, hshrunk, writeEntry, hn, hmax, ge],
          g + 1, r.shrinkIndex, hround⟩
      obtain ⟨out, m, hrest, hout⟩ := ih (g + 1) r.shrinkIndex (r.nextIndex + 1) (max (growthFactor - 1) 1)
        (grown + 1) _ (by omega) (by omega) hround
      exact ⟨out, m, by simpa [growMaxCapacityLoop, hg, hmiss, hr, hshrunk, writeEntry, hn, hmax, ge] using hrest,
        hout⟩

end Rounds

/-- `GetUpdatedMaxCapacities` returns, from every state and whatever the interval
misses; its first `k` entries name distinct size classes, the changes they make
to `max_capacity_` sum to zero, a lowered maximum keeps at least a batch, a raised
one belongs to a class that missed on a populated cpu, no class is both lowered and
raised, and `k <= kNumClasses`. -/
theorem getUpdatedMaxCapacities_moves_capacity (s : CpuCache) (intervalMisses : Nat → Nat → Nat)
    (buf : Nat → PerSizeClassMaxCapacity) :
    ∃ out k, getUpdatedMaxCapacities cfg s intervalMisses buf = some (out, k) ∧ k ≤ cfg.numClasses ∧
      ((prefixOf out k).map PerSizeClassMaxCapacity.sizeClass).Nodup ∧
      (∀ e ∈ prefixOf out k, e.sizeClass < cfg.numClasses) ∧
      ((prefixOf out k).map fun e => (e.maxCapacity : Int) - s.maxCapacity e.sizeClass).sum = 0 ∧
      (∀ e ∈ prefixOf out k, e.maxCapacity < s.maxCapacity e.sizeClass →
        cfg.numObjectsToMove e.sizeClass ≤ e.maxCapacity) ∧
      (∀ e ∈ prefixOf out k, s.maxCapacity e.sizeClass < e.maxCapacity →
        totalMisses cfg s intervalMisses e.sizeClass ≠ 0 ∧
          ∃ cpu < cfg.numCpus, s.populated cpu = true ∧ intervalMisses cpu e.sizeClass ≠ 0) ∧
      ∀ e ∈ prefixOf out k, ∀ e' ∈ prefixOf out k, e.sizeClass = e'.sizeClass →
        ¬ (e.maxCapacity < s.maxCapacity e.sizeClass ∧ s.maxCapacity e'.sizeClass < e'.maxCapacity) := by
  obtain ⟨hlen, hnd, hstats⟩ := maxCapacityMissStats_spec cfg s intervalMisses
  have hlt : ∀ st ∈ maxCapacityMissStats cfg s intervalMisses, st.sizeClass < cfg.numClasses :=
    fun st hst => (hstats st hst).1
  have hinit : Committed cfg s (maxCapacityMissStats cfg s intervalMisses) 0 (cfg.numClasses - 1)
      (prefixOf buf 0) :=
    ⟨List.nodup_nil, fun _ h => absurd h List.not_mem_nil, fun _ h => absurd h List.not_mem_nil, rfl⟩
  obtain ⟨out, k, hrun, g', k', hE⟩ := growMaxCapacityLoop_spec hnd hlt cfg.numClasses 0 (cfg.numClasses - 1)
    0 5 0 buf (by omega) (by omega) hinit
  refine ⟨out, k, hrun, by simpa using hE.length_le hlt, hE.nodup, ?_, hE.sum, ?_, ?_, ?_⟩
  · intro e he
    obtain ⟨j, -, hjc⟩ := hE.pos e he
    exact lt_of_getElem?_classes hlt hjc
  · intro e he hlower
    rcases hE.changes e he with hlow | ⟨hraise, -⟩
    · exact hlow.2
    · omega
  · intro e he hraise
    rcases hE.changes e he with hlow | ⟨-, st, hst, hsc, hmiss⟩
    · have := hlow.1
      omega
    · have htotal : totalMisses cfg s intervalMisses e.sizeClass ≠ 0 := by
        rw [← hsc, ← (hstats st hst).2]
        exact hmiss
      exact ⟨htotal, exists_of_totalMisses_ne_zero htotal⟩
  · -- one entry per class, so a lowered and a raised entry of one class are one entry
    rintro e he e' he' hsc ⟨hlower, hraise⟩
    have heq := List.inj_on_of_nodup_map hE.nodup he he' hsc
    subst heq
    omega

/-- One cpu, four classes of batch two and maximum ten, and only class `3` missing. -/
def fourClasses : Config := ⟨1, 4, fun _ => 8, fun _ => 2, fun _ => 10, 0, 0, 0, false, 0, 0⟩

-- class `3` takes a batch from each other class, up to the five batches of its first round
example : (getUpdatedMaxCapacities fourClasses { activate fourClasses with populated := fun _ => true }
    (fun _ c => if c = 3 then 5 else 0) (fun _ => ⟨0, 0⟩)).map (fun r => prefixOf r.1 r.2) =
      some [⟨2, 8⟩, ⟨1, 8⟩, ⟨0, 8⟩, ⟨3, 16⟩] := by
  decide

end CpuCache

end TCMalloc
