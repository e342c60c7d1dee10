import Mathlib.Algebra.Order.Group.Multiset
import TCMalloc.Common
import TCMalloc.Lib.Run

/-!
`TransferCache` of `transfer_cache_internals.h`: a bounded stack of object
pointers in front of a size class's central free list.  The stack is
`slots_[0, used)`; every read of `slots_` in the source stays below `used`, so
the slots above it are left out.  The central free list is outside the cache:
a call passes it the objects the cache does not keep, and a `RemoveRange` that
misses returns whatever the free list hands out, which is an argument here.
-/

set_option autoImplicit false
set_option relaxedAutoImplicit false

namespace TCMalloc

open TCMalloc.Lib

def kMaxCapacityInBatches : Int := 64

def kInitialCapacityInBatches : Int := 16

structure SizeInfo where
  used : Int
  capacity : Int
  deriving DecidableEq, Repr

structure Capacity where
  capacity : Int
  maxCapacity : Int
  deriving DecidableEq, Repr

/-- `CapacityNeeded(size_class)`, given `class_to_size` and `num_objects_to_move`
of the class. -/
def capacityNeeded (sizeClass bytes objsToMove : Int) : Capacity :=
  if sizeClass ≤ 0 ∨ bytes ≤ 0 then ⟨0, 0⟩
  else
    let maxCapacity := kMaxCapacityInBatches * objsToMove
    let capacity := kInitialCapacityInBatches * objsToMove
    let maxCapacity :=
      min maxCapacity (max objsToMove ((1024 * 1024) / (bytes * objsToMove) * objsToMove))
    ⟨min capacity maxCapacity, maxCapacity⟩

structure TransferCache (α : Type) where
  lowWaterMark : Int
  slotInfo : SizeInfo
  slots : List α
  maxCapacity : Int

namespace TransferCache

variable {α : Type}

/-- The constructor `TransferCache(owner, size_class, capacity)`. -/
def init (capacity : Capacity) : TransferCache α :=
  ⟨0, ⟨0, capacity.capacity⟩, [], capacity.maxCapacity⟩

/-- `InsertRange(size_class, batch)`: the new cache and the objects passed to
`freelist().InsertRange`. -/
def insertRange (c : TransferCache α) (batch : List α) : TransferCache α × List α :=
  let info := c.slotInfo
  if info.capacity > info.used then
    let got := min (batch.length : Int) (info.capacity - info.used)
    if got > 0 then
      let c := { c with
        slotInfo := { info with used := info.used + got }
        slots := c.slots ++ batch.take got.toNat }
      if got = batch.length then (c, []) else (c, batch.drop got.toNat)
    else (c, batch)
  else (c, batch)

/-- `RemoveRange(size_class, batch)` for a batch of `n` slots: the new cache and
the objects it returns; on a miss these are `central`, what
`freelist().RemoveRange(batch)` hands out. -/
def removeRange (c : TransferCache α) (n : Nat) (central : List α) :
    TransferCache α × List α :=
  let info := c.slotInfo
  if info.used ≠ 0 then
    let got := min (n : Int) info.used
    if got ≠ 0 then
      let used := info.used - got
      ({ c with
          slotInfo := { info with used }
          slots := c.slots.take used.toNat
          lowWaterMark := min c.lowWaterMark used },
        c.slots.drop used.toNat)
    else (c, central)
  else (c, central)

section Batch

-- `B` is `Manager::num_objects_to_move(size_class)`, fixed for the cache.
variable (B : Int)

/-- The loop of `TryPlunder` after its first `try_lock`: the `k`-th attempt to
take the lock again succeeds iff `tryLock k`. -/
def plunder (tryLock : Nat → Bool) : Nat → Nat → Int → TransferCache α → TransferCache α × List α
  | 0, _, _, c => (c, [])
  | fuel + 1, k, toReturn, c =>
      let info := c.slotInfo
      let numToMove := min B (min info.used toReturn)
      if numToMove = 0 then (c, [])
      else
        let used := info.used - numToMove
        let buf := c.slots.drop used.toNat
        let c := { c with
          slotInfo := { info with used }
          slots := c.slots.take used.toNat
          lowWaterMark := used }
        if tryLock k then
          let rest := plunder tryLock fuel (k + 1) (toReturn - numToMove) c
          (rest.1, buf ++ rest.2)
        else (c, buf)

/-- `TryPlunder(size_class)`: the new cache and the objects passed to
`freelist().InsertRange`; the loop runs at most `used` times, which bounds its fuel. -/
def tryPlunder (c : TransferCache α) (tryLock : Nat → Bool) : TransferCache α × List α :=
  if c.maxCapacity = 0 then (c, [])
  else if !tryLock 0 then (c, [])
  else
    plunder B tryLock (c.slotInfo.used.toNat + 1) 1 c.lowWaterMark
      { c with lowWaterMark := c.slotInfo.used }

/-- `ShrinkCache(size_class)`: whether it shrank, the new cache, and the evicted
objects passed to `freelist().InsertRange`. -/
def shrinkCache (c : TransferCache α) : Bool × TransferCache α × List α :=
  let info := c.slotInfo
  if info.capacity = 0 then (false, c, [])
  else if info.capacity ≤ B then (false, c, [])
  else
    let N := min B info.capacity
    let unused := info.capacity - info.used
    if N ≤ unused then (true, { c with slotInfo := { info with capacity := info.capacity - N } }, [])
    else
      let numToFree := N - unused
      let used := info.used - numToFree
      (true,
        { c with
          slotInfo := ⟨used, info.capacity - N⟩
          slots := c.slots.take used.toNat
          lowWaterMark := min c.lowWaterMark used },
        c.slots.drop used.toNat)

/-- `IncreaseCacheCapacity(size_class)`. -/
def increaseCacheCapacity (c : TransferCache α) : Bool × TransferCache α :=
  let info := c.slotInfo
  if info.capacity + B > c.maxCapacity then (false, c)
  else (true, { c with slotInfo := { info with capacity := info.capacity + B } })

/-- `CanIncreaseCapacity(size_class)`. -/
def canIncreaseCapacity (c : TransferCache α) : Bool :=
  decide (c.maxCapacity - c.slotInfo.capacity ≥ B)

end Batch

/-- The calls of one cache's runs, with what the environment decides: the objects
a missed `RemoveRange` gets from the central free list, and the outcome of each
`try_lock` in `TryPlunder`. -/
inductive Op (α : Type)
  | insertRange (batch : List α)
  | removeRange (n : Nat) (central : List α)
  | shrinkCache
  | increaseCacheCapacity
  | tryPlunder (tryLock : Nat → Bool)

/-- The objects a run moved: given to the cache, fetched from the central free
list, passed to the central free list, and returned to callers. -/
structure History (α : Type) where
  inserted : List α
  fetched : List α
  spilled : List α
  returned : List α

/-- One call with its effect on the history. -/
def step (B : Int) (s : TransferCache α × History α) : Op α → Option (TransferCache α × History α)
  | .insertRange batch =>
      let r := s.1.insertRange batch
      some (r.1, { s.2 with inserted := s.2.inserted ++ batch, spilled := s.2.spilled ++ r.2 })
  | .removeRange n central =>
      let r := s.1.removeRange n central
      let hit := s.1.slotInfo.used ≠ 0 ∧ min (n : Int) s.1.slotInfo.used ≠ 0
      let fetched := if hit then [] else central
      some (r.1, { s.2 with fetched := s.2.fetched ++ fetched, returned := s.2.returned ++ r.2 })
  | .shrinkCache =>
      let r := s.1.shrinkCache B
      some (r.2.1, { s.2 with spilled := s.2.spilled ++ r.2.2 })
  | .increaseCacheCapacity => some ((s.1.increaseCacheCapacity B).2, s.2)
  | .tryPlunder tryLock =>
      let r := s.1.tryPlunder B tryLock
      some (r.1, { s.2 with spilled := s.2.spilled ++ r.2 })

/-- The `TC_ASSERT`s on the arguments: a batch of `1..kMaxObjectsToMove` objects,
and a central free list that returns at most the batch. -/
def Allowed (_s : TransferCache α × History α) : Op α → Prop
  | .insertRange batch => 0 < batch.length ∧ batch.length ≤ kMaxObjectsToMove
  | .removeRange n central => 0 < n ∧ n ≤ kMaxObjectsToMove ∧ central.length ≤ n
  | _ => True

/-- The bounds of `SetSlotInfo`'s asserts and of the low-water mark, and the slot
stack as long as `used`. -/
structure Bounds (c : TransferCache α) : Prop where
  used_nonneg : 0 ≤ c.slotInfo.used
  used_le : c.slotInfo.used ≤ c.slotInfo.capacity
  capacity_le : c.slotInfo.capacity ≤ c.maxCapacity
  low_nonneg : 0 ≤ c.lowWaterMark
  low_le : c.lowWaterMark ≤ c.slotInfo.used
  length : (c.slots.length : Int) = c.slotInfo.used

/-- The asserts of `SetSlotInfo` alone: `0 <= used <= capacity <= max_capacity_`. -/
structure SlotBounds (c : TransferCache α) : Prop where
  used_nonneg : 0 ≤ c.slotInfo.used
  used_le : c.slotInfo.used ≤ c.slotInfo.capacity
  capacity_le : c.slotInfo.capacity ≤ c.maxCapacity

section Spec

variable {c : TransferCache α}

private theorem coe_take_add_drop (l : List α) (k : Nat) :
    ((l.take k : List α) : Multiset α) + (l.drop k : List α) = l := by
  rw [Multiset.coe_add, List.take_append_drop]

theorem insertRange_spec (bounds : c.Bounds) {batch : List α} (hpos : 0 < batch.length) :
    (c.insertRange batch).1.Bounds ∧
      (((c.insertRange batch).1.slots : Multiset α) + (c.insertRange batch).2 = c.slots + batch) ∧
      (c.insertRange batch).1.slotInfo.capacity = c.slotInfo.capacity ∧
      (c.insertRange batch).1.maxCapacity = c.maxCapacity := by
  obtain ⟨h0, hle, hcap, hl0, hlow, hlen⟩ := bounds
  unfold insertRange
  by_cases hroom : c.slotInfo.capacity > c.slotInfo.used
  · have hgot : min (batch.length : Int) (c.slotInfo.capacity - c.slotInfo.used) > 0 := by omega
    rw [if_pos hroom, if_pos hgot]
    generalize hg : min (batch.length : Int) (c.slotInfo.capacity - c.slotInfo.used) = got at *
    have hgle : got ≤ batch.length := by omega
    have hgcap : got ≤ c.slotInfo.capacity - c.slotInfo.used := by omega
    have htake : ((batch.take got.toNat).length : Int) = got := by
      rw [List.length_take]
      omega
    have hkept : ∀ rest : List α, batch.take got.toNat ++ rest = batch →
        ((c.slots ++ batch.take got.toNat : List α) : Multiset α) + rest = c.slots + batch := by
      intro rest hrest
      rw [Multiset.coe_add, Multiset.coe_add, List.append_assoc, hrest]
    split
    · rename_i hall
      refine ⟨⟨?_, ?_, hcap, hl0, ?_, ?_⟩, ?_, rfl, rfl⟩ <;> dsimp only
      · omega
      · omega
      · omega
      · rw [List.length_append]
        omega
      · apply hkept
        rw [List.append_nil, List.take_of_length_le (by omega)]
    · refine ⟨⟨?_, ?_, hcap, hl0, ?_, ?_⟩, ?_, rfl, rfl⟩ <;> dsimp only
      · omega
      · omega
      · omega
      · rw [List.length_append]
        omega
      · exact hkept _ (List.take_append_drop _ _)
  · rw [if_neg hroom]
    exact ⟨⟨h0, hle, hcap, hl0, hlow, hlen⟩, rfl, rfl, rfl⟩

theorem removeRange_spec (bounds : c.Bounds) {n : Nat} (hn : 0 < n) (central : List α) :
    (c.slotInfo.used ≠ 0 →
      c.removeRange n central =
        ({ c with
            slotInfo := { c.slotInfo with used := c.slotInfo.used - min (n : Int) c.slotInfo.used }
            slots := c.slots.take (c.slotInfo.used - min (n : Int) c.slotInfo.used).toNat
            lowWaterMark := min c.lowWaterMark (c.slotInfo.used - min (n : Int) c.slotInfo.used) },
          c.slots.drop (c.slotInfo.used - min (n : Int) c.slotInfo.used).toNat)) ∧
    (c.slotInfo.used = 0 → c.removeRange n central = (c, central)) := by
  obtain ⟨h0, hle, hcap, hl0, hlow, hlen⟩ := bounds
  constructor
  · intro hne
    have hgot : min (n : Int) c.slotInfo.used ≠ 0 := by omega
    unfold removeRange
    rw [if_pos hne, if_pos hgot]
  · intro heq
    unfold removeRange
    rw [if_neg (by omega)]

theorem removeRange_bounds (bounds : c.Bounds) {n : Nat} (hn : 0 < n) (central : List α) :
    (c.removeRange n central).1.Bounds ∧
      (c.removeRange n central).1.slotInfo.capacity = c.slotInfo.capacity ∧
      (c.removeRange n central).1.maxCapacity = c.maxCapacity ∧
      (((c.removeRange n central).1.slots : Multiset α) + (c.removeRange n central).2 =
        c.slots + (if c.slotInfo.used ≠ 0 ∧ min (n : Int) c.slotInfo.used ≠ 0 then [] else central)) := by
  obtain ⟨hhit, hmiss⟩ := removeRange_spec bounds hn central
  obtain ⟨h0, hle, hcap, hl0, hlow, hlen⟩ := bounds
  by_cases hne : c.slotInfo.used ≠ 0
  · have hgot : min (n : Int) c.slotInfo.used ≠ 0 := by omega
    rw [hhit hne, if_pos ⟨hne, hgot⟩]
    refine ⟨⟨?_, ?_, hcap, ?_, ?_, ?_⟩, rfl, rfl, ?_⟩ <;> dsimp only
    · omega
    · omega
    · omega
    · omega
    · rw [List.length_take]
      omega
    · rw [coe_take_add_drop, Multiset.coe_nil, add_zero]
  · have hzero : c.slotInfo.used = 0 := by omega
    rw [hmiss hzero, if_neg (by omega)]
    exact ⟨⟨h0, hle, hcap, hl0, hlow, hlen⟩, rfl, rfl, by rw [Multiset.coe_add]⟩

end Spec

section Batch

variable (B : Int) {c : TransferCache α}

theorem shrinkCache_eq (hB : 0 < B) (bounds : c.Bounds) :
    c.shrinkCache B =
      if B < c.slotInfo.capacity then
        (true,
          { c with
            slotInfo := ⟨min c.slotInfo.used (c.slotInfo.capacity - B), c.slotInfo.capacity - B⟩
            slots := c.slots.take (min c.slotInfo.used (c.slotInfo.capacity - B)).toNat
            lowWaterMark := min c.lowWaterMark (min c.slotInfo.used (c.slotInfo.capacity - B)) },
          c.slots.drop (min c.slotInfo.used (c.slotInfo.capacity - B)).toNat)
      else (false, c, []) := by
  obtain ⟨h0, hle, hcap, hl0, hlow, hlen⟩ := bounds
  unfold shrinkCache
  dsimp only
  by_cases hgt : B < c.slotInfo.capacity
  · rw [if_pos hgt, if_neg (by omega), if_neg (by omega)]
    have hN : min B c.slotInfo.capacity = B := by omega
    simp only [hN]
    split
    · rename_i hfit
      have hused : min c.slotInfo.used (c.slotInfo.capacity - B) = c.slotInfo.used := by omega
      rw [hused, List.take_of_length_le (by omega), List.drop_of_length_le (by omega),
        min_eq_left hlow]
    · have hused : c.slotInfo.used - (B - (c.slotInfo.capacity - c.slotInfo.used)) =
          min c.slotInfo.used (c.slotInfo.capacity - B) := by omega
      rw [hused]
  · rw [if_neg hgt]
    split
    · rfl
    · rw [if_pos (by omega)]

theorem shrinkCache_bounds (hB : 0 < B) (bounds : c.Bounds) :
    (c.shrinkCache B).2.1.Bounds ∧ (c.shrinkCache B).2.1.maxCapacity = c.maxCapacity ∧
      ((c.shrinkCache B).2.1.slots : Multiset α) + (c.shrinkCache B).2.2 = c.slots := by
  rw [shrinkCache_eq B hB bounds]
  obtain ⟨h0, hle, hcap, hl0, hlow, hlen⟩ := bounds
  split
  · refine ⟨⟨?_, ?_, ?_, ?_, ?_, ?_⟩, rfl, coe_take_add_drop _ _⟩ <;> dsimp only
    · omega
    · omega
    · omega
    · omega
    · omega
    · rw [List.length_take]
      omega
  · exact ⟨⟨h0, hle, hcap, hl0, hlow, hlen⟩, rfl, by simp⟩

theorem increaseCacheCapacity_bounds (hB : 0 < B) (bounds : c.Bounds) :
    (c.increaseCacheCapacity B).2.Bounds ∧
      (c.increaseCacheCapacity B).2.maxCapacity = c.maxCapacity ∧
      (c.increaseCacheCapacity B).2.slots = c.slots := by
  obtain ⟨h0, hle, hcap, hl0, hlow, hlen⟩ := bounds
  unfold increaseCacheCapacity
  dsimp only
  split
  · exact ⟨⟨h0, hle, hcap, hl0, hlow, hlen⟩, rfl, rfl⟩
  · refine ⟨⟨?_, ?_, ?_, ?_, ?_, ?_⟩, rfl, rfl⟩ <;> dsimp only <;> omega

theorem plunder_bounds (hB : 0 < B) (tryLock : Nat → Bool) (fuel k : Nat) {toReturn : Int}
    (hret : 0 ≤ toReturn) (bounds : c.Bounds) :
    (c.plunder B tryLock fuel k toReturn).1.Bounds ∧
      (c.plunder B tryLock fuel k toReturn).1.maxCapacity = c.maxCapacity ∧
      ((c.plunder B tryLock fuel k toReturn).1.slots : Multiset α) +
        (c.plunder B tryLock fuel k toReturn).2 = c.slots := by
  induction fuel generalizing k toReturn c with
  | zero => exact ⟨bounds, rfl, by simp [plunder]⟩
  | succ fuel ih =>
      obtain ⟨h0, hle, hcap, hl0, hlow, hlen⟩ := bounds
      simp only [plunder]
      split
      · exact ⟨⟨h0, hle, hcap, hl0, hlow, hlen⟩, rfl, by simp⟩
      · rename_i hmove
        have hnext : ({ c with
            slotInfo := { c.slotInfo with used := c.slotInfo.used - min B (min c.slotInfo.used toReturn) }
            slots := c.slots.take (c.slotInfo.used - min B (min c.slotInfo.used toReturn)).toNat
            lowWaterMark := c.slotInfo.used - min B (min c.slotInfo.used toReturn) } :
              TransferCache α).Bounds := by
          refine ⟨?_, ?_, ?_, ?_, ?_, ?_⟩ <;> dsimp only
          · omega
          · omega
          · omega
          · omega
          · omega
          · rw [List.length_take]
            omega
        split
        · obtain ⟨hb, hmax, hsum⟩ := ih (k + 1)
            (show 0 ≤ toReturn - min B (min c.slotInfo.used toReturn) by omega) hnext
          refine ⟨hb, hmax, ?_⟩
          dsimp only
          rw [← Multiset.coe_add, add_left_comm, hsum, add_comm, coe_take_add_drop]
        · exact ⟨hnext, rfl, coe_take_add_drop _ _⟩

theorem tryPlunder_bounds (hB : 0 < B) (tryLock : Nat → Bool) (bounds : c.Bounds) :
    (c.tryPlunder B tryLock).1.Bounds ∧ (c.tryPlunder B tryLock).1.maxCapacity = c.maxCapacity ∧
      ((c.tryPlunder B tryLock).1.slots : Multiset α) + (c.tryPlunder B tryLock).2 = c.slots := by
  unfold tryPlunder
  split
  · exact ⟨bounds, rfl, by simp⟩
  · split
    · exact ⟨bounds, rfl, by simp⟩
    · obtain ⟨h0, hle, hcap, hl0, hlow, hlen⟩ := bounds
      exact plunder_bounds B hB tryLock _ 1 hl0 ⟨h0, hle, hcap, h0, le_rfl, hlen⟩

@[simp] theorem shrinkCache_maxCapacity : (c.shrinkCache B).2.1.maxCapacity = c.maxCapacity := by
  unfold shrinkCache
  dsimp only
  split
  · rfl
  · split <;> (try split) <;> rfl

theorem shrinkCache_of_not (h : (c.shrinkCache B).1 = false) : c.shrinkCache B = (false, c, []) := by
  unfold shrinkCache at h ⊢
  dsimp only at h ⊢
  split
  · rfl
  · split
    · rfl
    · rename_i h0 hle
      simp only [h0, hle, if_false] at h
      split at h <;> simp at h

theorem shrinkCache_slotInfo (hB : 0 ≤ B) (bounds : c.SlotBounds) :
    (c.shrinkCache B).1 = decide (B < c.slotInfo.capacity) ∧
      (c.shrinkCache B).2.1.slotInfo =
        if B < c.slotInfo.capacity then
          ⟨min c.slotInfo.used (c.slotInfo.capacity - B), c.slotInfo.capacity - B⟩
        else c.slotInfo := by
  obtain ⟨h0, hle, -⟩ := bounds
  unfold shrinkCache
  dsimp only
  by_cases hgt : B < c.slotInfo.capacity
  · rw [if_neg (by omega), if_neg (by omega), min_eq_left hgt.le]
    simp only [hgt, decide_true, if_true]
    split
    · rename_i hfit
      exact ⟨rfl, by rw [min_eq_left (by omega)]⟩
    · refine ⟨rfl, ?_⟩
      dsimp only
      congr 1
      omega
  · simp only [hgt, decide_false, if_false]
    split
    · exact ⟨rfl, rfl⟩
    · rw [if_pos (by omega)]
      exact ⟨rfl, rfl⟩

theorem shrinkCache_slotBounds (hB : 0 ≤ B) (bounds : c.SlotBounds) :
    (c.shrinkCache B).2.1.SlotBounds := by
  obtain ⟨-, hinfo⟩ := shrinkCache_slotInfo B hB bounds
  obtain ⟨h0, hle, hcap⟩ := bounds
  by_cases hgt : B < c.slotInfo.capacity
  · rw [if_pos hgt] at hinfo
    refine ⟨?_, ?_, ?_⟩ <;> simp only [hinfo, shrinkCache_maxCapacity] <;> omega
  · rw [if_neg hgt] at hinfo
    exact ⟨hinfo ▸ h0, hinfo ▸ hle, by rw [hinfo, shrinkCache_maxCapacity]; exact hcap⟩

theorem increaseCacheCapacity_eq :
    c.increaseCacheCapacity B =
      if c.slotInfo.capacity + B ≤ c.maxCapacity then
        (true, { c with slotInfo := { c.slotInfo with capacity := c.slotInfo.capacity + B } })
      else (false, c) := by
  unfold increaseCacheCapacity
  by_cases h : c.slotInfo.capacity + B ≤ c.maxCapacity
  · rw [if_neg (by omega), if_pos h]
  · rw [if_pos (by omega), if_neg h]

theorem increaseCacheCapacity_fst : (c.increaseCacheCapacity B).1 = c.canIncreaseCapacity B := by
  rw [increaseCacheCapacity_eq, canIncreaseCapacity]
  by_cases h : c.slotInfo.capacity + B ≤ c.maxCapacity
  · rw [if_pos h, decide_eq_true (by omega)]
  · rw [if_neg h, decide_eq_false (by omega)]

theorem increaseCacheCapacity_slotBounds (hB : 0 ≤ B) (bounds : c.SlotBounds) :
    (c.increaseCacheCapacity B).2.SlotBounds ∧
      (c.increaseCacheCapacity B).2.maxCapacity = c.maxCapacity := by
  obtain ⟨h0, hle, hcap⟩ := bounds
  rw [increaseCacheCapacity_eq]
  split
  · exact ⟨⟨h0, by dsimp only; omega, by dsimp only; omega⟩, rfl⟩
  · exact ⟨⟨h0, hle, hcap⟩, rfl⟩

end Batch

section Run

/-- The bounds, and every object accounted for: what was inserted or fetched from
the central free list is cached, was passed back to it, or was returned. -/
def Inv (s : TransferCache α × History α) : Prop :=
  s.1.Bounds ∧
    (s.2.inserted : Multiset α) + s.2.fetched = s.1.slots + s.2.spilled + s.2.returned

variable {B : Int} {s s' : TransferCache α × History α} {op : Op α}

theorem step_inv (hB : 0 < B) (inv : Inv s) (allowed : Allowed s op)
    (hstep : step B s op = some s') : Inv s' := by
  obtain ⟨bounds, hsum⟩ := inv
  cases op with
  | insertRange batch =>
      simp only [step, Option.some.injEq] at hstep
      subst hstep
      obtain ⟨hb, hkept, -, -⟩ := insertRange_spec bounds allowed.1
      refine ⟨hb, ?_⟩
      simp only [← Multiset.coe_add] at hsum hkept ⊢
      calc (s.2.inserted : Multiset α) + batch + s.2.fetched
          = (s.2.inserted + s.2.fetched) + batch := by ac_rfl
        _ = (s.1.slots + batch) + s.2.spilled + s.2.returned := by rw [hsum]; ac_rfl
        _ = _ := by rw [← hkept]; ac_rfl
  | removeRange n central =>
      simp only [step, Option.some.injEq] at hstep
      subst hstep
      obtain ⟨hb, -, -, hkept⟩ := removeRange_bounds bounds allowed.1 central
      refine ⟨hb, ?_⟩
      simp only [← Multiset.coe_add] at hsum hkept ⊢
      calc (s.2.inserted : Multiset α) + (s.2.fetched +
            ((if s.1.slotInfo.used ≠ 0 ∧ min (n : Int) s.1.slotInfo.used ≠ 0 then [] else central :
              List α) : Multiset α))
          = (s.2.inserted + s.2.fetched) +
            ((if s.1.slotInfo.used ≠ 0 ∧ min (n : Int) s.1.slotInfo.used ≠ 0 then [] else central :
              List α) : Multiset α) := by ac_rfl
        _ = ((s.1.slots : Multiset α) +
            ((if s.1.slotInfo.used ≠ 0 ∧ min (n : Int) s.1.slotInfo.used ≠ 0 then [] else central :
              List α) : Multiset α)) + s.2.spilled + s.2.returned := by rw [hsum]; ac_rfl
        _ = _ := by rw [← hkept]; ac_rfl
  | shrinkCache =>
      simp only [step, Option.some.injEq] at hstep
      subst hstep
      obtain ⟨hb, -, hkept⟩ := shrinkCache_bounds B hB bounds
      refine ⟨hb, ?_⟩
      simp only [← Multiset.coe_add] at hsum hkept ⊢
      rw [hsum, ← hkept]
      ac_rfl
  | increaseCacheCapacity =>
      simp only [step, Option.some.injEq] at hstep
      subst hstep
      obtain ⟨hb, -, hslots⟩ := increaseCacheCapacity_bounds B hB bounds
      exact ⟨hb, by rw [hslots]; exact hsum⟩
  | tryPlunder tryLock =>
      simp only [step, Option.some.injEq] at hstep
      subst hstep
      obtain ⟨hb, -, hkept⟩ := tryPlunder_bounds B hB tryLock bounds
      refine ⟨hb, ?_⟩
      simp only [← Multiset.coe_add] at hsum hkept ⊢
      rw [hsum, ← hkept]
      ac_rfl

/-- Along every run from construction: the stack indices stay inside their bounds,
no object is lost or duplicated, `RemoveRange` serves the top of the stack and
falls through to the central free list only when `used == 0`, and `ShrinkCache`
succeeds iff the capacity exceeds a batch, then dropping one batch of capacity
and evicting exactly the objects above the new capacity. -/
theorem transferCache_bounded_lifo_conserving (hB : 0 < B) {capacity : Capacity}
    (hcap : 0 ≤ capacity.capacity ∧ capacity.capacity ≤ capacity.maxCapacity) {ops : List (Op α)}
    (run : Run (step B) Allowed (init capacity, ⟨[], [], [], []⟩) ops s) :
    (0 ≤ s.1.slotInfo.used ∧ s.1.slotInfo.used ≤ s.1.slotInfo.capacity ∧
      s.1.slotInfo.capacity ≤ s.1.maxCapacity ∧ s.1.lowWaterMark ≤ s.1.slotInfo.used) ∧
    (s.2.inserted : Multiset α) + s.2.fetched = s.1.slots + s.2.spilled + s.2.returned ∧
    (∀ (n : Nat) (central : List α), 0 < n →
      (s.1.slotInfo.used ≠ 0 →
        (s.1.removeRange n central).2 =
          s.1.slots.drop (s.1.slotInfo.used - min (n : Int) s.1.slotInfo.used).toNat ∧
        (s.1.removeRange n central).1.slots =
          s.1.slots.take (s.1.slotInfo.used - min (n : Int) s.1.slotInfo.used).toNat) ∧
      (s.1.slotInfo.used = 0 → s.1.removeRange n central = (s.1, central))) ∧
    ((s.1.shrinkCache B).1 = true ↔ B < s.1.slotInfo.capacity) ∧
    (B < s.1.slotInfo.capacity →
      (s.1.shrinkCache B).2.1.slotInfo.capacity = s.1.slotInfo.capacity - B ∧
      (s.1.shrinkCache B).2.2 =
        s.1.slots.drop (min s.1.slotInfo.used (s.1.slotInfo.capacity - B)).toNat) := by
  have inv : Inv s := run.invariant Inv (fun _ _ _ hinv hok hstep => step_inv hB hinv hok hstep)
    ⟨⟨le_rfl, hcap.1, hcap.2, le_rfl, le_rfl, rfl⟩, by simp [init]⟩
  obtain ⟨bounds, hsum⟩ := inv
  have hshrink := shrinkCache_eq B hB bounds
  refine ⟨⟨bounds.used_nonneg, bounds.used_le, bounds.capacity_le, bounds.low_le⟩, hsum, ?_, ?_, ?_⟩
  · intro n central hn
    obtain ⟨hhit, hmiss⟩ := removeRange_spec bounds hn central
    refine ⟨fun hne => ?_, hmiss⟩
    rw [hhit hne]
    exact ⟨rfl, rfl⟩
  · rw [hshrink]
    split
    · rename_i hgt
      exact ⟨fun _ => hgt, fun _ => rfl⟩
    · rename_i hgt
      exact ⟨fun h => (Bool.false_ne_true h).elim, fun h => absurd h hgt⟩
  · intro hgt
    rw [hshrink, if_pos hgt]
    exact ⟨rfl, rfl⟩

theorem run_fetch_then_insert :
    ∃ s : TransferCache Nat × History Nat,
      Run (step 1) Allowed (init ⟨1, 1⟩, ⟨[], [], [], []⟩) [.removeRange 1 [0], .insertRange [0]] s ∧
        s.1.slots = [0] ∧ s.2.spilled = [] ∧ s.2.inserted = [0] ∧ s.2.returned = [0] := by
  refine ⟨_, Run.cons ?_ rfl (Run.cons ?_ rfl (Run.nil _)), rfl, rfl, rfl, rfl⟩
  · exact ⟨by decide, by decide, by decide⟩
  · exact ⟨by decide, by decide⟩

/-- The cached and spilled objects are not the inserted ones minus the returned
ones: object `0` is cached although it was inserted once and returned once. -/
theorem transferCache_slots_not_inserted_minus_returned :
    ∃ s : TransferCache Nat × History Nat,
      Run (step 1) Allowed (init ⟨1, 1⟩, ⟨[], [], [], []⟩) [.removeRange 1 [0], .insertRange [0]] s ∧
        (s.1.slots : Multiset Nat) + s.2.spilled ≠ (s.2.inserted : Multiset Nat) - s.2.returned := by
  obtain ⟨s, run, hslots, hspilled, hinserted, hreturned⟩ := run_fetch_then_insert
  refine ⟨s, run, ?_⟩
  rw [hslots, hspilled, hinserted, hreturned]
  decide

theorem transferCache_bounded_lifo_conserving_at_fetch_then_insert :
    ∃ s : TransferCache Nat × History Nat,
      Run (step 1) Allowed (init ⟨1, 1⟩, ⟨[], [], [], []⟩) [.removeRange 1 [0], .insertRange [0]] s ∧
      ((0 ≤ s.1.slotInfo.used ∧ s.1.slotInfo.used ≤ s.1.slotInfo.capacity ∧
        s.1.slotInfo.capacity ≤ s.1.maxCapacity ∧ s.1.lowWaterMark ≤ s.1.slotInfo.used) ∧
      (s.2.inserted : Multiset Nat) + s.2.fetched = s.1.slots + s.2.spilled + s.2.returned ∧
      (∀ (n : Nat) (central : List Nat), 0 < n →
        (s.1.slotInfo.used ≠ 0 →
          (s.1.removeRange n central).2 =
            s.1.slots.drop (s.1.slotInfo.used - min (n : Int) s.1.slotInfo.used).toNat ∧
          (s.1.removeRange n central).1.slots =
            s.1.slots.take (s.1.slotInfo.used - min (n : Int) s.1.slotInfo.used).toNat) ∧
        (s.1.slotInfo.used = 0 → s.1.removeRange n central = (s.1, central))) ∧
      ((s.1.shrinkCache 1).1 = true ↔ 1 < s.1.slotInfo.capacity) ∧
      (1 < s.1.slotInfo.capacity →
        (s.1.shrinkCache 1).2.1.slotInfo.capacity = s.1.slotInfo.capacity - 1 ∧
        (s.1.shrinkCache 1).2.2 =
          s.1.slots.drop (min s.1.slotInfo.used (s.1.slotInfo.capacity - 1)).toNat)) := by
  obtain ⟨s, run, -⟩ := run_fetch_then_insert
  exact ⟨s, run, transferCache_bounded_lifo_conserving (by decide) (by decide) run⟩

end Run

end TransferCache

end TCMalloc
