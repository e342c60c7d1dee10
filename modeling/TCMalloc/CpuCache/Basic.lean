import Mathlib
import TCMalloc.Internal.PercpuTcmalloc

/-!
`CpuCache` of `cpu_cache.h`, from `Activate` on, as the byte budget of each cpu
sees it: per cpu `resize_[cpu].available` and `resize_[cpu].capacity`, the slab
`freelist_` whose per-class capacities hold the rest of the budget, and the
state of the resizing heuristics (`next_steal`, the `PerClassResizeInfo` bit
fields and capacity miss counters, `max_capacity_`, the round-robin hints).

The operations run one at a time.  The objects the caches hold, the transfer
cache behind them and the statistics no operation reads are not modelled.  The
floating-point filters of `StealFromOtherCache` are an argument (the source cpus
that pass them), as are the decisions of `ShouldResizeSlab` and
`GetUpdatedMaxCapacities`, and `StoreCurrentCpu`'s success in `Grow`.
Reading `miss_stats` past its end and dividing by a size of zero are `none`.
-/

set_option autoImplicit false
set_option relaxedAutoImplicit false

namespace TCMalloc

open TCMalloc.Internal

namespace CpuCache

/-- What the cache reads from its forwarder and its compile-time constants.
`initialShift` and `maxShift` are `shift_bounds_` as `Activate` sets them;
`maxCapacity` is `MaxCapacity(size_class)` for the classes `Activate` stores
and `0` for the others. -/
structure Config where
  numCpus : Nat
  numClasses : Nat
  classToSize : Nat → Nat
  numObjectsToMove : Nat → Nat
  maxCapacity : Nat → Nat
  cacheLimit : Nat
  initialShift : Nat
  maxShift : Nat
  dynamicSlabEnabled : Bool
  maxSize : Nat
  maxCpuCacheSize : Nat

/-- The `state_` bit fields of a `PerClassResizeInfo` and its `kCapacityTotal`
and `kCapacityResize` miss counters. -/
structure PerClassResizeInfo where
  overflow : Bool
  quiescentTicks : Nat
  successive : Nat
  capacityTotal : Nat
  capacityResize : Nat
deriving DecidableEq, Repr

namespace PerClassResizeInfo

def init : PerClassResizeInfo := ⟨false, 0, 0, 0, 0⟩

/-- `Update`: the new state, the number of successive misses, and whether an
overflow was followed by an underflow. -/
def update (info : PerClassResizeInfo) (overflow grow : Bool) : PerClassResizeInfo × Nat × Bool :=
  let overflowThenUnderflow := !overflow && info.overflow
  let grow := grow || overflowThenUnderflow
  let successive := if overflow == info.overflow then (info.successive + 1) % 2 ^ 16 else 0
  ({ info with overflow, quiescentTicks := if grow then 0 else info.quiescentTicks, successive },
    successive, overflowThenUnderflow)

/-- `Tick`: the 15-bit counter is incremented and its old value returned, as
`uint32_t` arithmetic on the promoted bit field gives it. -/
def tick (info : PerClassResizeInfo) : PerClassResizeInfo × Nat :=
  let quiescentTicks := (info.quiescentTicks + 1) % 2 ^ 15
  ({ info with quiescentTicks }, (quiescentTicks + 2 ^ 32 - 1) % 2 ^ 32)

/-- `RecordMiss(kCapacityTotal)`. -/
def recordMiss (info : PerClassResizeInfo) : PerClassResizeInfo :=
  { info with capacityTotal := info.capacityTotal + 1 }

/-- `GetIntervalMisses(kCapacityTotal, kCapacityResize)`. -/
def getIntervalMisses (info : PerClassResizeInfo) : Nat :=
  if info.capacityResize < info.capacityTotal then info.capacityTotal - info.capacityResize else 0

/-- `UpdateIntervalMisses(kCapacityTotal, kCapacityResize)`. -/
def updateIntervalMisses (info : PerClassResizeInfo) : PerClassResizeInfo :=
  { info with capacityResize := info.capacityTotal }

end PerClassResizeInfo

structure SizeClassMissStat where
  sizeClass : Nat
  misses : Nat
deriving DecidableEq, Repr

structure PerSizeClassMaxCapacity where
  sizeClass : Nat
  maxCapacity : Nat
deriving DecidableEq, Repr

inductive DynamicSlabResize where
  | noop
  | shrink
  | grow
deriving DecidableEq, Repr

/-- `kNumCpuCachesToResize`. -/
def numCpuCachesToResize : Nat := 10

/-- `GetShiftMaxCapacity`: the max capacity of a class at `shift`, smaller by a
factor of two per step below `max_shift` and then by three. -/
def getShiftMaxCapacity (maxCapacities : Nat → Nat) (shift maxShift sizeClass : Nat) : Nat :=
  let relativeShift := maxShift - shift
  if relativeShift = 0 then maxCapacities sizeClass
  else maxCapacities sizeClass >>> relativeShift - 3

/-- `subtract_at_least`: take `min(a, hi)` from `a` unless `a < lo`; the amount
taken and what is left. -/
def subtractAtLeast (a lo hi : Nat) : Nat × Nat :=
  if a < lo then (0, a) else (min a hi, a - min a hi)

/-- `TargetOverflowRefillCount`. -/
def targetOverflowRefillCount (capacity batchLength successive : Nat) : Nat :=
  let max := 2 ^ min successive 10 * batchLength
  let target := min ((capacity + 1) / 2 + 1) max
  if capacity = 1 ∧ successive < 3 then 1 else target

/-- The shrinking score of `ShrinkOtherCache`: the higher, the longer a class
must stay quiescent before it gives up an object of capacity. -/
def shrinkScore (size length capacity batchLength : Nat) : Nat :=
  let full := (decide (capacity ≤ length)).toNat
  let nearBatch := (decide (batchLength ≤ length ∧ length < 2 * batchLength)).toNat
  if size ≤ 144 then 2 + full + nearBatch
  else if size ≤ 1024 then 1 + full + nearBatch
  else if size ≤ 64 <<< 10 then full
  else 0

/-- The order `ResizeCpuSizeClasses` sorts `miss_stats` into: more misses
first, then the smaller class. -/
def missStatsBefore (a b : SizeClassMissStat) : Bool :=
  if a.misses = b.misses then a.sizeClass ≤ b.sizeClass else b.misses < a.misses

/-- Whether `StealCapacityForSizeClassWithinCpu` skips `source`, scanning the
entries of `dest_size_classes`; `none` is a read past the end of `miss_stats`. -/
def destSkips (source : Nat) : List (Option SizeClassMissStat) → Option Bool
  | [] => some false
  | none :: _ => none
  | some d :: ds => if source = d.sizeClass ∧ d.misses ≠ 0 then some true else destSkips source ds

end CpuCache

structure CpuCache where
  available : Nat → Nat
  capacity : Nat → Nat
  nextSteal : Nat → Nat
  populated : Nat → Bool
  perClass : Nat → Nat → CpuCache.PerClassResizeInfo
  freelist : TcmallocSlab
  maxCapacity : Nat → Nat
  nextCpuCacheSteal : Nat
  lastCpuSizeClassResize : Nat

namespace CpuCache

variable (cfg : Config)

/-- `Activate`: every cpu has `CacheLimit()` available and as capacity, and
the slab starts at the initial shift with no capacity. -/
def activate : CpuCache where
  available := fun _ => cfg.cacheLimit
  capacity := fun _ => cfg.cacheLimit
  nextSteal := fun _ => 1
  populated := fun _ => false
  perClass := fun _ _ => PerClassResizeInfo.init
  freelist := ⟨fun _ _ => Header.empty, if cfg.dynamicSlabEnabled then cfg.initialShift else cfg.maxShift⟩
  maxCapacity := fun c => cfg.maxCapacity c % 2 ^ 16
  nextCpuCacheSteal := 0
  lastCpuSizeClassResize := 0

/-- `GetMaxCapacity(size_class, shift)`. -/
def getMaxCapacity (s : CpuCache) (sizeClass shift : Nat) : Nat :=
  getShiftMaxCapacity s.maxCapacity shift cfg.maxShift sizeClass

def setPerClass (s : CpuCache) (cpu sizeClass : Nat) (info : PerClassResizeInfo) : CpuCache :=
  { s with perClass := Function.update s.perClass cpu (Function.update (s.perClass cpu) sizeClass info) }

section SetPerClass

variable (s : CpuCache) (cpu sizeClass : Nat) (info : PerClassResizeInfo)

@[simp] theorem setPerClass_available : (s.setPerClass cpu sizeClass info).available = s.available := rfl
@[simp] theorem setPerClass_capacity : (s.setPerClass cpu sizeClass info).capacity = s.capacity := rfl
@[simp] theorem setPerClass_nextSteal : (s.setPerClass cpu sizeClass info).nextSteal = s.nextSteal := rfl
@[simp] theorem setPerClass_populated : (s.setPerClass cpu sizeClass info).populated = s.populated := rfl
@[simp] theorem setPerClass_freelist : (s.setPerClass cpu sizeClass info).freelist = s.freelist := rfl
@[simp] theorem setPerClass_maxCapacity : (s.setPerClass cpu sizeClass info).maxCapacity = s.maxCapacity := rfl

end SetPerClass

/-- `Grow`: take the bytes of `desired_increase` objects from the cpu's slack,
grow the slab by what they pay for and return the rest. -/
def grow (s : CpuCache) (cpu sizeClass desiredIncrease : Nat) (stored : Bool) : CpuCache :=
  let size := cfg.classToSize sizeClass
  let desiredBytes := desiredIncrease * size
  let taken := subtractAtLeast (s.available cpu) size desiredBytes
  let acquiredBytes := taken.1
  let s := { s with available := Function.update s.available cpu taken.2 }
  let s := s.setPerClass cpu sizeClass
    (if acquiredBytes < desiredBytes then (s.perClass cpu sizeClass).recordMiss else s.perClass cpu sizeClass)
  if acquiredBytes = 0 then s
  else
    let actualIncrease := acquiredBytes / size
    let grown := s.freelist.grow cpu sizeClass actualIncrease (s.getMaxCapacity cfg sizeClass) stored
    let s := { s with freelist := grown.1 }
    let unused := acquiredBytes - grown.2 * size
    if unused = 0 then s
    else { s with available := Function.update s.available cpu (s.available cpu + unused) }

/-- `UpdateCapacity` on an overflow or underflow of `size_class`: the cache and
the number of objects to move. -/
def updateCapacity (s : CpuCache) (cpu sizeClass : Nat) (overflow stored : Bool) : CpuCache × Nat :=
  let batchLength := cfg.numObjectsToMove sizeClass
  let maxCapacity := s.getMaxCapacity cfg sizeClass s.freelist.shift
  let capacity := s.freelist.capacity cpu sizeClass
  let growByOne := decide (capacity < 2 * batchLength)
  let updated := (s.perClass cpu sizeClass).update overflow growByOne
  let successive := updated.2.1
  let growByBatch := updated.2.2
  let s := s.setPerClass cpu sizeClass updated.1
  let s := if (growByOne || growByBatch) && capacity != maxCapacity then
      let increase :=
        if growByBatch then min batchLength (maxCapacity - capacity)
        else if !overflow && capacity < batchLength then batchLength - capacity
        else 1
      s.grow cfg cpu sizeClass increase stored
    else s
  (s, targetOverflowRefillCount (s.freelist.capacity cpu sizeClass) batchLength successive)

/-- `Populate`. -/
def populate (s : CpuCache) (cpu : Nat) : CpuCache :=
  if s.populated cpu then s
  else { s with freelist := s.freelist.initCpu cfg.numClasses cpu,
                populated := Function.update s.populated cpu true }

/-- `ShrinkOtherCache`: the bytes of one object of capacity taken from a class
of a stopped cpu, if its quiescent ticks have reached its score. -/
def shrinkOtherCache (s : CpuCache) (cpu sizeClass : Nat) : CpuCache × Nat :=
  let capacity := s.freelist.capacity cpu sizeClass
  if capacity = 0 then (s, 0)
  else
    let length := s.freelist.length cpu sizeClass
    let size := cfg.classToSize sizeClass
    let score := shrinkScore size length capacity (cfg.numObjectsToMove sizeClass)
    let ticked := (s.perClass cpu sizeClass).tick
    let s := s.setPerClass cpu sizeClass ticked.1
    if ticked.2 < score then (s, 0)
    else
      let shrunk := s.freelist.shrinkOtherCache cpu sizeClass 1
      let s := { s with freelist := shrunk.1 }
      if shrunk.2 = 0 then (s, 0) else (s, size)

/-- The loop of `StealCapacityForSizeClassWithinCpu` with `fuel` iterations
left: where it stopped and what it acquired. -/
def stealWithinCpuLoop (cpu : Nat) (dest : List (Option SizeClassMissStat)) (bytes : Nat) :
    Nat → CpuCache → Nat → Nat → Option (CpuCache × Nat × Nat)
  | 0, s, source, acquired => some (s, source, acquired)
  | fuel + 1, s, source, acquired =>
      let source := if cfg.numClasses ≤ source then 1 else source
      match destSkips source dest with
      | none => none
      | some true => stealWithinCpuLoop cpu dest bytes fuel s (source + 1) acquired
      | some false =>
          let shrunk := s.shrinkOtherCache cfg cpu source
          if bytes ≤ acquired + shrunk.2 then some (shrunk.1, source, acquired + shrunk.2)
          else stealWithinCpuLoop cpu dest bytes fuel shrunk.1 (source + 1) (acquired + shrunk.2)

/-- `StealCapacityForSizeClassWithinCpu`. -/
def stealCapacityForSizeClassWithinCpu (s : CpuCache) (cpu : Nat) (dest : List (Option SizeClassMissStat))
    (bytes : Nat) : Option (CpuCache × Nat) :=
  match stealWithinCpuLoop cfg cpu dest bytes (cfg.numClasses - 1) s (s.nextSteal cpu) 0 with
  | none => none
  | some r => some ({ r.1 with nextSteal := Function.update r.1.nextSteal cpu r.2.1 }, r.2.2)

/-- One iteration of the loop of `ResizeCpuSizeClasses` on a class `c` that can
grow by `canGrow`: steal within the cpu what the local `available` lacks for a
batch, then grow the class by what `available` pays for. -/
def growSizeClass (s : CpuCache) (cpu c canGrow : Nat) (dest : List (Option SizeClassMissStat))
    (available : Nat) : Option (CpuCache × Nat) :=
  let size := cfg.classToSize c
  let needBytes := min canGrow (cfg.numObjectsToMove c) * size
  let toStealBytes : Int := (needBytes : Int) - available
  let stolen :=
    if 0 < toStealBytes then
      match s.stealCapacityForSizeClassWithinCpu cfg cpu dest toStealBytes.toNat with
      | none => none
      | some r => some (r.1, available + r.2)
    else some (s, available)
  match stolen with
  | none => none
  | some (s, available) =>
      if size = 0 then none
      else
        let capacityAcquired := min canGrow (available / size)
        if capacityAcquired = 0 then some (s, available)
        else
          let got := s.freelist.growOtherCache cpu c capacityAcquired (s.getMaxCapacity cfg c)
          some ({ s with freelist := got.1 }, available - got.2 * size)

/-- The loop of `ResizeCpuSizeClasses` over the sorted `miss_stats` from entry
`i`, with `size_classes_to_resize` and the local `available`. -/
def resizeCpuLoop (cpu : Nat) (missStats : List SizeClassMissStat) :
    Nat → CpuCache → Nat → Nat → Nat → Option (CpuCache × Nat)
  | 0, s, _, _, available => some (s, available)
  | fuel + 1, s, i, sizeClassesToResize, available =>
      if sizeClassesToResize ≤ i then some (s, available)
      else
        match missStats[i]? with
        | none => none
        | some stat =>
            if stat.misses = 0 then some (s, available)
            else
              let c := stat.sizeClass
              let canGrow : Int :=
                (s.getMaxCapacity cfg c s.freelist.shift : Int) - s.freelist.capacity cpu c
              if canGrow ≤ 0 then
                resizeCpuLoop cpu missStats fuel s (i + 1)
                  (if sizeClassesToResize < cfg.numClasses then sizeClassesToResize + 1
                   else sizeClassesToResize) available
              else
                let dest := (List.range sizeClassesToResize).map fun j => missStats[j]?
                match s.growSizeClass cfg cpu c canGrow.toNat dest available with
                | none => none
                | some r => resizeCpuLoop cpu missStats fuel r.1 (i + 1) sizeClassesToResize r.2

/-- `miss_stats` of `ResizeCpuSizeClasses`, sorted. -/
def missStats (s : CpuCache) (cpu : Nat) : List SizeClassMissStat :=
  ((List.range' 1 (cfg.numClasses - 1)).map fun c =>
    (⟨c, (s.perClass cpu c).getIntervalMisses⟩ : SizeClassMissStat)).mergeSort missStatsBefore

/-- `ResizeCpuSizeClasses`: the cpu's slack is moved out of `available` for the
loop and what is left of it put back. -/
def resizeCpuSizeClasses (s : CpuCache) (cpu : Nat) : Option CpuCache :=
  if cfg.maxCpuCacheSize ≤ s.available cpu then some s
  else
    let stats := s.missStats cfg cpu
    let available := s.available cpu
    let s := { s with available := Function.update s.available cpu 0 }
    match resizeCpuLoop cfg cpu stats cfg.numClasses s 0 5 available with
    | none => none
    | some r => some { r.1 with available := Function.update r.1.available cpu (r.1.available cpu + r.2) }

def updateIntervalMisses (s : CpuCache) (cpu : Nat) : CpuCache :=
  { s with perClass := Function.update s.perClass cpu fun c =>
      if 1 ≤ c ∧ c < cfg.numClasses then (s.perClass cpu c).updateIntervalMisses else s.perClass cpu c }

/-- The loop of `ResizeSizeClasses` over the cpus after `cpu`. -/
def resizeSizeClassesLoop : Nat → CpuCache → Nat → Nat → Option (CpuCache × Nat)
  | 0, s, cpu, _ => some (s, cpu)
  | fuel + 1, s, cpu, numCpusResized =>
      let cpu := if cfg.numCpus ≤ cpu + 1 then 0 else cpu + 1
      if s.populated cpu = false then resizeSizeClassesLoop fuel s cpu numCpusResized
      else
        match s.resizeCpuSizeClasses cfg cpu with
        | none => none
        | some s =>
            let s := s.updateIntervalMisses cfg cpu
            if numCpuCachesToResize ≤ numCpusResized + 1 then some (s, cpu)
            else resizeSizeClassesLoop fuel s cpu (numCpusResized + 1)

/-- `ResizeSizeClasses`. -/
def resizeSizeClasses (s : CpuCache) : Option CpuCache :=
  match resizeSizeClassesLoop cfg cfg.numCpus s s.lastCpuSizeClassResize 0 with
  | none => none
  | some r => some { r.1 with lastCpuSizeClassResize := r.2 }

/-- The loop of `StealFromOtherCache` over the size classes of `src_cpu`. -/
def stealClassesLoop (src bytes : Nat) : Nat → CpuCache → Nat → Nat → CpuCache × Nat × Nat
  | 0, s, source, acquired => (s, source, acquired)
  | fuel + 1, s, source, acquired =>
      let source := if cfg.numClasses ≤ source then 1 else source
      let shrunk := s.shrinkOtherCache cfg src source
      if shrunk.2 = 0 then stealClassesLoop src bytes fuel shrunk.1 (source + 1) acquired
      else
        let s := { shrunk.1 with capacity := Function.update shrunk.1.capacity src (shrunk.1.capacity src - shrunk.2) }
        if bytes ≤ acquired + shrunk.2 then (s, source, acquired + shrunk.2)
        else stealClassesLoop src bytes fuel s (source + 1) (acquired + shrunk.2)

/-- The body of the loop of `StealFromOtherCache` on the source cpu `src`:
first its slack, then capacity of its classes.  `eligible` are the cpus that
pass the capacity threshold and the comparison of misses. -/
def stealFromCpu (s : CpuCache) (src : Nat) (skipCpus eligible : List Nat) (bytes acquired : Nat) :
    CpuCache × Nat :=
  if src ∈ skipCpus ∨ s.populated src = false ∨ src ∉ eligible then (s, acquired)
  else
    let taken := subtractAtLeast (s.available src) 0 (bytes - acquired)
    let s := { s with available := Function.update s.available src taken.2 }
    let s := if taken.1 = 0 then s
      else { s with capacity := Function.update s.capacity src (s.capacity src - taken.1) }
    if taken.1 ≠ 0 ∧ bytes ≤ acquired + taken.1 then (s, acquired + taken.1)
    else
      let stolen := stealClassesLoop cfg src bytes (cfg.numClasses - 1) s (s.nextSteal src) (acquired + taken.1)
      ({ stolen.1 with nextSteal := Function.update stolen.1.nextSteal src stolen.2.1 }, stolen.2.2)

/-- The loop of `StealFromOtherCache` over the source cpus. -/
def stealFromOtherCacheLoop (maxPopulatedCpu : Nat) (skipCpus eligible : List Nat) (bytes : Nat) :
    Nat → CpuCache → Nat → Nat → Nat → CpuCache × Nat × Nat
  | 0, s, _, src, acquired => (s, src, acquired)
  | fuel + 1, s, i, src, acquired =>
      if i ≤ maxPopulatedCpu ∧ acquired < bytes then
        let src := if maxPopulatedCpu < src then 0 else src
        let r := s.stealFromCpu cfg src skipCpus eligible bytes acquired
        stealFromOtherCacheLoop maxPopulatedCpu skipCpus eligible bytes fuel r.1 (i + 1) (src + 1) r.2
      else (s, src, acquired)

/-- `StealFromOtherCache`: what is acquired from the other cpus is added to the
slack and to the capacity of `cpu`. -/
def stealFromOtherCache (s : CpuCache) (cpu maxPopulatedCpu : Nat) (skipCpus : List Nat) (bytes : Nat)
    (eligible : List Nat) : CpuCache :=
  if cfg.maxSize ≤ s.available cpu then s
  else
    let r := stealFromOtherCacheLoop cfg maxPopulatedCpu skipCpus eligible bytes (maxPopulatedCpu + 1) s 0
      s.nextCpuCacheSteal 0
    let s := { r.1 with nextCpuCacheSteal := r.2.1 }
    if r.2.2 = 0 then s
    else { s with available := Function.update s.available cpu (s.available cpu + r.2.2),
                  capacity := Function.update s.capacity cpu (s.capacity cpu + r.2.2) }

/-- `DrainHandler`: the drained capacity goes back to the cpu's slack; the
second component counts the bytes of the drained objects. -/
def drainHandler (acc : CpuCache × Nat) (d : Drained) : CpuCache × Nat :=
  let size := cfg.classToSize d.sizeClass
  ({ acc.1 with available := Function.update acc.1.available d.cpu (acc.1.available d.cpu + d.cap * size) },
    acc.2 + d.count * size)

/-- `Reclaim`: drain a populated cpu; the bytes of the objects it held. -/
def reclaim (s : CpuCache) (cpu : Nat) : CpuCache × Nat :=
  if s.populated cpu = false then (s, 0)
  else
    let drained := s.freelist.drain cfg.numClasses cpu
    drained.2.foldl (drainHandler cfg) ({ s with freelist := drained.1 }, 0)

/-- The slab resize of `ResizeSlabIfNeeded` and `ResizeSizeClassMaxCapacities`:
a new slab, and the old one drained through `DrainHandler`. -/
def resizeSlabs (s : CpuCache) (newShift : Nat) : CpuCache :=
  let resized := s.freelist.resizeSlabs newShift cfg.numClasses cfg.numCpus s.populated
  (resized.2.foldl (drainHandler cfg) ({ s with freelist := resized.1 }, 0)).1

/-- `ResizeSlabIfNeeded`, given what `ShouldResizeSlab` decided. -/
def resizeSlabIfNeeded (s : CpuCache) : DynamicSlabResize → CpuCache
  | .grow => if s.freelist.shift = cfg.maxShift then s else s.resizeSlabs cfg (s.freelist.shift + 1)
  | .shrink => if s.freelist.shift = cfg.initialShift then s else s.resizeSlabs cfg (s.freelist.shift - 1)
  | .noop => s

/-- `ResizeSizeClassMaxCapacities`, given what `GetUpdatedMaxCapacities` chose. -/
def resizeSizeClassMaxCapacities (s : CpuCache) (newMaxCapacities : List PerSizeClassMaxCapacity) : CpuCache :=
  if newMaxCapacities = [] then s
  else
    let maxCapacity := newMaxCapacities.foldl
      (fun m u => Function.update m u.sizeClass (u.maxCapacity % 2 ^ 16)) s.maxCapacity
    let s := { s with maxCapacity }
    s.resizeSlabs cfg s.freelist.shift

/-- The operations, each with what the model takes as given for it. -/
inductive Call where
  | push (cpu sizeClass : Nat)
  | pop (cpu sizeClass : Nat)
  | updateCapacity (cpu sizeClass : Nat) (overflow stored : Bool)
  | populate (cpu : Nat)
  | stealFromOtherCache (cpu maxPopulatedCpu : Nat) (skipCpus : List Nat) (bytes : Nat) (eligible : List Nat)
  | resizeSizeClasses
  | reclaim (cpu : Nat)
  | resizeSlabIfNeeded (resize : DynamicSlabResize)
  | resizeSizeClassMaxCapacities (newMaxCapacities : List PerSizeClassMaxCapacity)
deriving DecidableEq, Repr

def step (s : CpuCache) : Call → Option CpuCache
  | .push cpu c => some { s with freelist := (s.freelist.push cpu c).1 }
  | .pop cpu c => some { s with freelist := (s.freelist.pop cpu c).1 }
  | .updateCapacity cpu c overflow stored => some (s.updateCapacity cfg cpu c overflow stored).1
  | .populate cpu => some (s.populate cfg cpu)
  | .stealFromOtherCache cpu m skipCpus bytes eligible =>
      some (s.stealFromOtherCache cfg cpu m skipCpus bytes eligible)
  | .resizeSizeClasses => s.resizeSizeClasses cfg
  | .reclaim cpu => some (s.reclaim cfg cpu).1
  | .resizeSlabIfNeeded r => some (s.resizeSlabIfNeeded cfg r)
  | .resizeSizeClassMaxCapacities l => some (s.resizeSizeClassMaxCapacities cfg l)

/-- What the callers promise: the slow paths run on a populated cpu for a size
class in `[1, kNumClasses)`, and every cpu named is one of `NumCPUs()`. -/
def Allowed (s : CpuCache) : Call → Prop
  | .push cpu c | .pop cpu c | .updateCapacity cpu c _ _ =>
      cpu < cfg.numCpus ∧ s.populated cpu = true ∧ 1 ≤ c ∧ c < cfg.numClasses
  | .populate cpu | .reclaim cpu => cpu < cfg.numCpus
  | .stealFromOtherCache cpu m _ _ _ => cpu < cfg.numCpus ∧ m < cfg.numCpus
  | .resizeSizeClasses | .resizeSlabIfNeeded _ | .resizeSizeClassMaxCapacities _ => True

instance (s : CpuCache) : (call : Call) → Decidable (Allowed cfg s call)
  | .push cpu c | .pop cpu c | .updateCapacity cpu c _ _ =>
      inferInstanceAs (Decidable (cpu < cfg.numCpus ∧ s.populated cpu = true ∧ 1 ≤ c ∧ c < cfg.numClasses))
  | .populate cpu | .reclaim cpu => inferInstanceAs (Decidable (cpu < cfg.numCpus))
  | .stealFromOtherCache cpu m _ _ _ => inferInstanceAs (Decidable (cpu < cfg.numCpus ∧ m < cfg.numCpus))
  | .resizeSizeClasses | .resizeSlabIfNeeded _ | .resizeSizeClassMaxCapacities _ => inferInstanceAs (Decidable True)

end CpuCache

end TCMalloc
