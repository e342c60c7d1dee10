import Mathlib.Data.List.Sort
import TCMalloc.TransferCache
import TCMalloc.Lib.Positions

/-!
`ResizeCaches` of `transfer_cache_internals.h` over `TransferCacheManager`: the
classes `start_size_class, ..., start_size_class + kNumBaseClasses - 1` sorted by
the misses of the last interval, a grow cursor from the most missed class and a
shrink cursor from the least missed one, and a final loop that regrows until the
two totals agree.

The calls run one at a time, with no other thread changing a capacity.  The
interval misses are an argument: `FetchCommitIntervalMisses` reads and commits
counters that nothing else here reads.  The cursors are `int`s in the source;
the only negative value `to_shrink` takes is `-1`, with no classes at all or after
a round from `to_grow = 0` that shrank nothing, and the loop then ends, as it
does with the `Nat` value `0` in its place.
-/

set_option autoImplicit false
set_option relaxedAutoImplicit false

namespace TCMalloc

namespace TransferCacheManager

open TransferCache Lib

/-- What `ResizeCaches` reads of its `Manager` besides the caches. -/
structure Config where
  kNumClasses : Nat
  kNumBaseClasses : Nat
  numObjectsToMove : Nat → Nat

/-- `kMaxSizeClassesToResize`, `max(int(kNumClasses * 0.1), 1)`: the product in
`double` truncates to `kNumClasses / 10` for every class count below `2^50`. -/
def kMaxSizeClassesToResize (cfg : Config) : Nat := max (cfg.kNumClasses / 10) 1

/-- `TransferCacheManager` as `ResizeCaches` uses it: one cache per size class,
and the objects `ShrinkCache` passed to the central free lists. -/
structure Manager (α : Type) where
  caches : Nat → TransferCache α
  freed : List α

variable {α : Type} (cfg : Config)

namespace Manager

/-- `CanIncreaseCapacity(size_class)`. -/
def canIncreaseCapacity (m : Manager α) (sizeClass : Nat) : Bool :=
  (m.caches sizeClass).canIncreaseCapacity (cfg.numObjectsToMove sizeClass)

/-- `ShrinkCache(size_class)`. -/
def shrinkCache (m : Manager α) (sizeClass : Nat) : Bool × Manager α :=
  let r := (m.caches sizeClass).shrinkCache (cfg.numObjectsToMove sizeClass)
  (r.1, ⟨Function.update m.caches sizeClass r.2.1, m.freed ++ r.2.2⟩)

/-- `IncreaseCacheCapacity(size_class)`. -/
def increaseCacheCapacity (m : Manager α) (sizeClass : Nat) : Bool × Manager α :=
  let r := (m.caches sizeClass).increaseCacheCapacity (cfg.numObjectsToMove sizeClass)
  (r.1, { m with caches := Function.update m.caches sizeClass r.2 })

end Manager

structure MissInfo where
  sizeClass : Nat
  misses : Nat
deriving DecidableEq, Repr

/-- The comparator of the `std::sort`: more misses first, ties by size class. -/
def missOrder (a b : MissInfo) : Bool :=
  if a.misses = b.misses then a.sizeClass < b.sizeClass else a.misses > b.misses

/-- The sorted `misses` array; `intervalMisses c` is what `FetchCommitIntervalMisses(c)`
returns.  The comparator is a strict total order on entries of distinct classes, so
every sort returns this order. -/
def sortedMisses (start : Nat) (intervalMisses : Nat → Nat) : List MissInfo :=
  ((List.range cfg.kNumBaseClasses).map fun i => ⟨start + i, intervalMisses (start + i)⟩).insertionSort
    fun a b => missOrder b a = false

/-- `total_grown`, `total_shrunk` and the manager, with the classes whose
`IncreaseCacheCapacity` and `ShrinkCache` succeeded, in call order. -/
structure Totals (α : Type) where
  manager : Manager α
  totalGrown : Nat
  totalShrunk : Nat
  grown : List Nat
  shrunk : List Nat

namespace Totals

def recordShrink (s : Totals α) (m : Manager α) (sizeClass : Nat) : Totals α :=
  { s with manager := m, totalShrunk := s.totalShrunk + 1, shrunk := s.shrunk ++ [sizeClass] }

def recordGrow (s : Totals α) (m : Manager α) (sizeClass : Nat) : Totals α :=
  { s with manager := m, totalGrown := s.totalGrown + 1, grown := s.grown ++ [sizeClass] }

end Totals

variable (misses : List MissInfo)

/-- `for (; to_grow < to_shrink; --to_shrink)`: shrink the first class from
`to_shrink` down that gives up a batch; the cursor where the loop stopped. -/
def shrinkLoop (toGrow : Nat) : Nat → Totals α → Option (Nat × Totals α)
  | 0, s => some (0, s)
  | toShrink + 1, s =>
    if toGrow < toShrink + 1 then
      match misses[toShrink + 1]? with
      | none => none
      | some info =>
        let r := s.manager.shrinkCache cfg info.sizeClass
        if r.1 then some (toShrink + 1, s.recordShrink r.2 info.sizeClass)
        else shrinkLoop toGrow toShrink { s with manager := r.2 }
    else some (toShrink + 1, s)

/-- `for (; to_grow < to_shrink; ++to_grow)`, over at most `fuel` classes: grow the
first class from `to_grow` up that takes a batch. -/
def growLoop (toShrink : Nat) : Nat → Nat → Totals α → Option (Nat × Totals α)
  | 0, toGrow, s => if toGrow < toShrink then none else some (toGrow, s)
  | fuel + 1, toGrow, s =>
    if toGrow < toShrink then
      match misses[toGrow]? with
      | none => none
      | some info =>
        let r := s.manager.increaseCacheCapacity cfg info.sizeClass
        if r.1 then some (toGrow, s.recordGrow r.2 info.sizeClass)
        else growLoop toShrink fuel (toGrow + 1) { s with manager := r.2 }
    else some (toGrow, s)

/-- The main loop of `ResizeCaches`, for at most `fuel` rounds. -/
def mainLoop : Nat → Nat → Nat → Totals α → Option (Totals α)
  | 0, toGrow, toShrink, s => if toGrow < toShrink then none else some s
  | fuel + 1, toGrow, toShrink, s =>
    if toGrow < toShrink then
      if s.totalGrown = kMaxSizeClassesToResize cfg then some s
      else
        match misses[toGrow]? with
        | none => none
        | some info =>
          -- `++to_shrink; continue` undoes the `--to_shrink` of the loop
          if !s.manager.canIncreaseCapacity cfg info.sizeClass then
            mainLoop fuel (toGrow + 1) toShrink s
          else if info.misses = 0 then some s
          else
            match shrinkLoop cfg misses toGrow toShrink s with
            | none => none
            | some (toShrink, s) =>
              match growLoop cfg misses toShrink (toShrink - toGrow) toGrow s with
              | none => none
              | some (toGrow, s) => mainLoop fuel (toGrow + 1) (toShrink - 1) s
    else some s

/-- The `for` of the final loop: grow the first class of `l` that takes a batch. -/
def growFirst : List MissInfo → Manager α → Option Nat × Manager α
  | [], m => (none, m)
  | info :: rest, m =>
    let r := m.increaseCacheCapacity cfg info.sizeClass
    if r.1 then (some info.sizeClass, r.2) else growFirst rest r.2

/-- `while (total_grown < total_shrunk)`, for at most `fuel` rounds.  A round in
which no class grows changes nothing, so from there the source loops forever: that
is `none`. -/
def finalLoop : Nat → Totals α → Option (Totals α)
  | 0, s => if s.totalGrown < s.totalShrunk then none else some s
  | fuel + 1, s =>
    if s.totalGrown < s.totalShrunk then
      match growFirst cfg misses s.manager with
      | (some sizeClass, m) => finalLoop fuel (s.recordGrow m sizeClass)
      | (none, _) => none
    else some s

/-- `ResizeCaches(manager, start_size_class)`.  Every round of the main loop moves
a cursor, so `kNumBaseClasses` rounds are enough, and every round of the final
loop grows a class. -/
def resizeCaches (m : Manager α) (start : Nat) (intervalMisses : Nat → Nat) : Option (Totals α) :=
  let misses := sortedMisses cfg start intervalMisses
  match mainLoop cfg misses cfg.kNumBaseClasses 0 (cfg.kNumBaseClasses - 1) ⟨m, 0, 0, [], []⟩ with
  | none => none
  | some s => finalLoop cfg misses (s.totalShrunk - s.totalGrown) s


namespace Totals

variable {s : Totals α} {m : Manager α} {c : Nat}

@[simp] theorem recordShrink_manager : (s.recordShrink m c).manager = m := rfl
@[simp] theorem recordShrink_totalGrown : (s.recordShrink m c).totalGrown = s.totalGrown := rfl
@[simp] theorem recordShrink_totalShrunk : (s.recordShrink m c).totalShrunk = s.totalShrunk + 1 := rfl
@[simp] theorem recordShrink_grown : (s.recordShrink m c).grown = s.grown := rfl
@[simp] theorem recordShrink_shrunk : (s.recordShrink m c).shrunk = s.shrunk ++ [c] := rfl
@[simp] theorem recordGrow_manager : (s.recordGrow m c).manager = m := rfl
@[simp] theorem recordGrow_totalGrown : (s.recordGrow m c).totalGrown = s.totalGrown + 1 := rfl
@[simp] theorem recordGrow_totalShrunk : (s.recordGrow m c).totalShrunk = s.totalShrunk := rfl
@[simp] theorem recordGrow_grown : (s.recordGrow m c).grown = s.grown ++ [c] := rfl
@[simp] theorem recordGrow_shrunk : (s.recordGrow m c).shrunk = s.shrunk := rfl

end Totals

namespace Manager

variable {cfg} {m m₀ : Manager α} {c d : Nat}

theorem shrinkCache_caches_of_ne (h : d ≠ c) : (m.shrinkCache cfg c).2.caches d = m.caches d :=
  Function.update_of_ne h _ _

theorem increaseCacheCapacity_caches_of_ne (h : d ≠ c) :
    (m.increaseCacheCapacity cfg c).2.caches d = m.caches d :=
  Function.update_of_ne h _ _

theorem shrinkCache_of_not (h : (m.shrinkCache cfg c).1 = false) : (m.shrinkCache cfg c).2 = m := by
  have hc := TransferCache.shrinkCache_of_not _ h
  simp only [shrinkCache, hc, Function.update_eq_self, List.append_nil]

theorem increaseCacheCapacity_fst :
    (m.increaseCacheCapacity cfg c).1 = m.canIncreaseCapacity cfg c :=
  TransferCache.increaseCacheCapacity_fst _

theorem canIncreaseCapacity_shrinkCache (h : d ≠ c) :
    (m.shrinkCache cfg c).2.canIncreaseCapacity cfg d = m.canIncreaseCapacity cfg d := by
  simp only [canIncreaseCapacity, shrinkCache_caches_of_ne h]

/-- Every cache keeps the asserts of `SetSlotInfo` and the maximum it had in `m₀`. -/
def Bounded (m₀ m : Manager α) : Prop :=
  ∀ c, (m.caches c).SlotBounds ∧ (m.caches c).maxCapacity = (m₀.caches c).maxCapacity

variable (cfg) in
theorem Bounded.shrinkCache (h : Bounded m₀ m) (c : Nat) : Bounded m₀ (m.shrinkCache cfg c).2 := by
  intro d
  by_cases hd : d = c
  · subst hd
    simp only [Manager.shrinkCache, Function.update_self, shrinkCache_maxCapacity]
    exact ⟨shrinkCache_slotBounds _ (Int.natCast_nonneg _) (h d).1, (h d).2⟩
  · rw [shrinkCache_caches_of_ne hd]
    exact h d

variable (cfg) in
theorem Bounded.increaseCacheCapacity (h : Bounded m₀ m) (c : Nat) :
    Bounded m₀ (m.increaseCacheCapacity cfg c).2 := by
  intro d
  by_cases hd : d = c
  · subst hd
    simp only [Manager.increaseCacheCapacity, Function.update_self]
    obtain ⟨hb, hmax⟩ := increaseCacheCapacity_slotBounds _ (Int.natCast_nonneg _) (h d).1
    exact ⟨hb, hmax.trans (h d).2⟩
  · rw [increaseCacheCapacity_caches_of_ne hd]
    exact h d

end Manager


section Loops

variable {cfg misses}

theorem shrinkLoop_cases {toGrow toShrink : Nat} (s : Totals α) (hle : toGrow ≤ toShrink)
    (hlen : toShrink < misses.length) :
    shrinkLoop cfg misses toGrow toShrink s = some (toGrow, s) ∨
      ∃ js info, toGrow < js ∧ js ≤ toShrink ∧ misses[js]? = some info ∧
        (s.manager.shrinkCache cfg info.sizeClass).1 = true ∧
        shrinkLoop cfg misses toGrow toShrink s =
          some (js, s.recordShrink (s.manager.shrinkCache cfg info.sizeClass).2 info.sizeClass) := by
  induction toShrink generalizing s with
  | zero =>
      left
      obtain rfl : toGrow = 0 := by omega
      rfl
  | succ k ih =>
      by_cases hlt : toGrow < k + 1
      · have hinfo : misses[k + 1]? = some misses[k + 1] := List.getElem?_eq_getElem hlen
        cases hr : (s.manager.shrinkCache cfg misses[k + 1].sizeClass).1 with
        | true =>
            right
            exact ⟨k + 1, _, hlt, le_rfl, hinfo, hr, by simp [shrinkLoop, hlt, hinfo, hr]⟩
        | false =>
            -- a failed shrink changes nothing, so the loop goes on from the same totals
            have hnext : shrinkLoop cfg misses toGrow (k + 1) s = shrinkLoop cfg misses toGrow k s := by
              simp [shrinkLoop, hlt, hinfo, hr, Manager.shrinkCache_of_not hr]
            rw [hnext]
            rcases ih s (by omega) (by omega) with h | ⟨js, info, hgt, hjs, hinfo', hshrunk, heq⟩
            · exact Or.inl h
            · exact Or.inr ⟨js, info, hgt, by omega, hinfo', hshrunk, heq⟩
      · left
        obtain rfl : toGrow = k + 1 := by omega
        simp [shrinkLoop]

theorem growLoop_of_le {toShrink toGrow : Nat} (fuel : Nat) (s : Totals α) (h : toShrink ≤ toGrow) :
    growLoop cfg misses toShrink fuel toGrow s = some (toGrow, s) := by
  cases fuel <;> simp [growLoop, Nat.not_lt.mpr h]

theorem growLoop_first {toShrink toGrow : Nat} (fuel : Nat) (s : Totals α) {info : MissInfo}
    (hlt : toGrow < toShrink) (hinfo : misses[toGrow]? = some info)
    (hgrow : (s.manager.increaseCacheCapacity cfg info.sizeClass).1 = true) :
    growLoop cfg misses toShrink (fuel + 1) toGrow s =
      some (toGrow, s.recordGrow (s.manager.increaseCacheCapacity cfg info.sizeClass).2 info.sizeClass) := by
  simp [growLoop, hlt, hinfo, hgrow]

theorem mainLoop_of_le {toGrow toShrink : Nat} (fuel : Nat) (s : Totals α) (h : toShrink ≤ toGrow) :
    mainLoop cfg misses fuel toGrow toShrink s = some s := by
  cases fuel <;> simp [mainLoop, Nat.not_lt.mpr h]

theorem finalLoop_of_le (fuel : Nat) {s : Totals α} (h : s.totalShrunk ≤ s.totalGrown) :
    finalLoop cfg misses fuel s = some s := by
  cases fuel <;> simp [finalLoop, Nat.not_lt.mpr h]

end Loops

section Misses

theorem length_sortedMisses (start : Nat) (intervalMisses : Nat → Nat) :
    (sortedMisses cfg start intervalMisses).length = cfg.kNumBaseClasses := by
  rw [sortedMisses, (List.perm_insertionSort _ _).length_eq]
  simp

theorem sortedMisses_nodup (start : Nat) (intervalMisses : Nat → Nat) :
    ((sortedMisses cfg start intervalMisses).map MissInfo.sizeClass).Nodup := by
  have hperm := List.perm_insertionSort (fun a b => missOrder b a = false)
    ((List.range cfg.kNumBaseClasses).map fun i => (⟨start + i, intervalMisses (start + i)⟩ : MissInfo))
  rw [sortedMisses, (hperm.map MissInfo.sizeClass).nodup_iff, List.map_map]
  exact (List.nodup_range).map fun i j h => by simpa using h

end Misses


section Invariant

/-- What `ResizeCaches` leaves, against the manager `m₀` it started from: every
cache within its bounds and its old maximum, as many grows as shrinks, at most
`kMaxSizeClassesToResize` grows, and no class grown twice, shrunk twice, or both. -/
structure Outcome (m₀ : Manager α) (s : Totals α) : Prop where
  bounded : Manager.Bounded m₀ s.manager
  balanced : s.totalGrown = s.totalShrunk
  grown_length : s.grown.length = s.totalGrown
  shrunk_length : s.shrunk.length = s.totalShrunk
  grown_le : s.totalGrown ≤ kMaxSizeClassesToResize cfg
  disjoint : ∀ c ∈ s.grown, c ∉ s.shrunk
  grown_nodup : s.grown.Nodup
  shrunk_nodup : s.shrunk.Nodup

/-- What holds at the head of every round of the main loop: the outcome so far,
with every class grown before `to_grow` and every class shrunk after `to_shrink`. -/
structure LoopInv (m₀ : Manager α) (toGrow toShrink : Nat) (s : Totals α) : Prop
    extends Outcome cfg m₀ s where
  grown_below : ∀ c ∈ s.grown, ∃ i < toGrow, (misses.map MissInfo.sizeClass)[i]? = some c
  shrunk_above : ∀ c ∈ s.shrunk, ∃ j, toShrink < j ∧ (misses.map MissInfo.sizeClass)[j]? = some c

variable {cfg misses} {m₀ : Manager α} {g k : Nat} {s : Totals α}

theorem LoopInv.mono (h : LoopInv cfg misses m₀ g k s) {g' k' : Nat} (hg : g ≤ g') (hk : k' ≤ k) :
    LoopInv cfg misses m₀ g' k' s where
  toOutcome := h.toOutcome
  grown_below c hc := by
    obtain ⟨i, hi, hic⟩ := h.grown_below c hc
    exact ⟨i, by omega, hic⟩
  shrunk_above c hc := by
    obtain ⟨j, hj, hjc⟩ := h.shrunk_above c hc
    exact ⟨j, by omega, hjc⟩

theorem LoopInv.pair (h : LoopInv cfg misses m₀ g k s) (hnd : (misses.map MissInfo.sizeClass).Nodup)
    {js cg cs : Nat} {m₁ m₂ : Manager α} (hgj : g < js) (hjk : js ≤ k)
    (hg : (misses.map MissInfo.sizeClass)[g]? = some cg)
    (hs : (misses.map MissInfo.sizeClass)[js]? = some cs)
    (hmax : s.totalGrown ≠ kMaxSizeClassesToResize cfg) (hm : Manager.Bounded m₀ m₂) :
    LoopInv cfg misses m₀ (g + 1) (js - 1) ((s.recordShrink m₁ cs).recordGrow m₂ cg) := by
  have hcg_grown : cg ∉ s.grown := fun hc => by
    obtain ⟨i, hi, hic⟩ := h.grown_below cg hc
    have := index_eq_of_nodup hnd hic hg
    omega
  have hcg_shrunk : cg ∉ s.shrunk := fun hc => by
    obtain ⟨j, hj, hjc⟩ := h.shrunk_above cg hc
    have := index_eq_of_nodup hnd hjc hg
    omega
  have hcs_shrunk : cs ∉ s.shrunk := fun hc => by
    obtain ⟨j, hj, hjc⟩ := h.shrunk_above cs hc
    have := index_eq_of_nodup hnd hjc hs
    omega
  have hcs_grown : cs ∉ s.grown := fun hc => by
    obtain ⟨i, hi, hic⟩ := h.grown_below cs hc
    have := index_eq_of_nodup hnd hic hs
    omega
  have hne : cg ≠ cs := fun he => by
    subst he
    have := index_eq_of_nodup hnd hg hs
    omega
  have hle := h.grown_le
  refine ⟨⟨hm, ?_, ?_, ?_, ?_, ?_, ?_, ?_⟩, ?_, ?_⟩
  · simp [h.balanced]
  · simp [h.grown_length]
  · simp [h.shrunk_length]
  · simp only [Totals.recordGrow_totalGrown, Totals.recordShrink_totalGrown]
    omega
  · intro c hc
    simp only [Totals.recordGrow_grown, Totals.recordShrink_grown, Totals.recordGrow_shrunk,
      Totals.recordShrink_shrunk, List.mem_append, List.mem_singleton, not_or] at hc ⊢
    rcases hc with hc | rfl
    · exact ⟨h.disjoint c hc, fun he => hcs_grown (he ▸ hc)⟩
    · exact ⟨hcg_shrunk, hne⟩
  · simpa using h.grown_nodup.concat hcg_grown
  · simpa using h.shrunk_nodup.concat hcs_shrunk
  · intro c hc
    simp only [Totals.recordGrow_grown, Totals.recordShrink_grown, List.mem_append,
      List.mem_singleton] at hc
    rcases hc with hc | rfl
    · obtain ⟨i, hi, hic⟩ := h.grown_below c hc
      exact ⟨i, by omega, hic⟩
    · exact ⟨g, by omega, hg⟩
  · intro c hc
    simp only [Totals.recordGrow_shrunk, Totals.recordShrink_shrunk, List.mem_append,
      List.mem_singleton] at hc
    rcases hc with hc | rfl
    · obtain ⟨j, hj, hjc⟩ := h.shrunk_above c hc
      exact ⟨j, by omega, hjc⟩
    · exact ⟨js, by omega, hs⟩

end Invariant


section Run

variable {cfg misses} {m₀ : Manager α}

theorem mainLoop_spec (hnd : (misses.map MissInfo.sizeClass).Nodup) (fuel : Nat) :
    ∀ (g k : Nat) (s : Totals α), LoopInv cfg misses m₀ g k s → k ≤ misses.length - 1 →
      k - g ≤ fuel → ∃ r, mainLoop cfg misses fuel g k s = some r ∧ Outcome cfg m₀ r := by
  induction fuel with
  | zero =>
      intro g k s inv _ hgap
      exact ⟨s, mainLoop_of_le 0 s (by omega), inv.toOutcome⟩
  | succ fuel ih =>
      intro g k s inv hk hgap
      by_cases hlt : g < k
      swap
      · exact ⟨s, mainLoop_of_le _ s (by omega), inv.toOutcome⟩
      have hglen : g < misses.length := by omega
      have hklen : k < misses.length := by omega
      have hinfo : misses[g]? = some misses[g] := List.getElem?_eq_getElem hglen
      by_cases hmax : s.totalGrown = kMaxSizeClassesToResize cfg
      · exact ⟨s, by simp [mainLoop, hlt, hmax], inv.toOutcome⟩
      cases hcan : s.manager.canIncreaseCapacity cfg misses[g].sizeClass with
      | false =>
          -- the class cannot take a batch: skip it and keep the shrink cursor
          have hskip : mainLoop cfg misses (fuel + 1) g k s = mainLoop cfg misses fuel (g + 1) k s := by
            simp [mainLoop, hlt, hmax, hinfo, hcan]
          rw [hskip]
          exact ih (g + 1) k s (inv.mono (by omega) le_rfl) hk (by omega)
      | true =>
          by_cases hzero : misses[g].misses = 0
          · exact ⟨s, by simp [mainLoop, hlt, hmax, hinfo, hcan, hzero], inv.toOutcome⟩
          have hround : mainLoop cfg misses (fuel + 1) g k s =
              match shrinkLoop cfg misses g k s with
              | none => none
              | some (toShrink, s) =>
                match growLoop cfg misses toShrink (toShrink - g) g s with
                | none => none
                | some (toGrow, s) => mainLoop cfg misses fuel (toGrow + 1) (toShrink - 1) s := by
            simp [mainLoop, hlt, hmax, hinfo, hcan, hzero]
          rw [hround]
          rcases shrinkLoop_cases s hlt.le hklen with
            hnone | ⟨js, sinfo, hgj, hjk, hsinfo, hshrunk, hshrink⟩
          · -- nothing shrank: the grow loop does not run and the main loop ends
            rw [hnone]
            dsimp only
            rw [growLoop_of_le _ s le_rfl]
            exact ih (g + 1) (g - 1) s (inv.mono (by omega) (by omega)) (by omega) (by omega)
          · -- the class at `js` shrank; the one at `g` is another, so it still takes a batch
            have hg : (misses.map MissInfo.sizeClass)[g]? = some misses[g].sizeClass := by
              simp [hinfo]
            have hs : (misses.map MissInfo.sizeClass)[js]? = some sinfo.sizeClass := by
              simp [hsinfo]
            have hne : misses[g].sizeClass ≠ sinfo.sizeClass := fun he => by
              have := index_eq_of_nodup hnd hg (he ▸ hs)
              omega
            have hgrow : ((s.recordShrink (s.manager.shrinkCache cfg sinfo.sizeClass).2
                sinfo.sizeClass).manager.increaseCacheCapacity cfg misses[g].sizeClass).1 = true := by
              rw [Totals.recordShrink_manager, Manager.increaseCacheCapacity_fst,
                Manager.canIncreaseCapacity_shrinkCache hne, hcan]
            obtain ⟨fuel', hfuel'⟩ : ∃ f, js - g = f + 1 := ⟨js - g - 1, by omega⟩
            rw [hshrink]
            dsimp only
            rw [hfuel', growLoop_first fuel' _ hgj hinfo hgrow]
            have hbounded := (inv.bounded.shrinkCache cfg sinfo.sizeClass).increaseCacheCapacity cfg
              misses[g].sizeClass
            exact ih (g + 1) (js - 1) _ (inv.pair hnd hgj hjk hg hs hmax hbounded) (by omega) (by omega)

end Run


/-- Three base classes of batch one, each cache at capacity two of four. -/
def threeClasses : Config := ⟨20, 3, fun _ => 1⟩

def halfFull : Manager Nat := ⟨fun _ => ⟨0, ⟨0, 2⟩, [], 4⟩, []⟩

-- the most missed class, `2`, takes the batch the least missed one, `0`, gives up
example : (resizeCaches threeClasses halfFull 0 (fun c => c)).map (fun r => (r.grown, r.shrunk)) =
    some ([2], [0]) := by
  decide

end TransferCacheManager

end TCMalloc
