import TCMalloc.SizeMap.Basic
import TCMalloc.Lib.Scan
import TCMalloc.Lib.Positions

/-!
`SizeMap::ValidSizeClasses`, `SetSizeClasses` and `Init` of `sizemap.cc`: the
checks on a size-class table, the copy of its sizes into `class_to_size_` and
into the upper class registers, and the fill of `class_array_`, which maps
`ClassIndex(s)` to the class of size `s` in each lookup region.

`class_array_` and `class_to_size_` are functions of their index.
`class_to_pages_`, `num_objects_to_move_` and the list of cold classes are
written too, but nothing modelled reads them, so they are left out.  A row of
the table that `SetSizeClasses` would store past `class_to_size_[kNumClasses]`
and a size `ClassIndex`'s `TC_CHECK` rejects are `none`, as is a rejected table.
-/

set_option autoImplicit false
set_option relaxedAutoImplicit false

namespace TCMalloc.SizeMap

/-- `SizeClassInfo`: the largest size of the class, the bytes of its spans, and
its batch size. -/
structure SizeClassInfo where
  size : Nat
  bytes : Nat
  numToMove : Nat
deriving DecidableEq, Repr

inductive HeapPartitioningMode where
  | kOff
  | kLight
  | kFull
deriving DecidableEq, Repr

/-- The compile-time layout of `common.h`: the page variant, NUMA awareness and
the sanitizers' address space fix the classes and the lookup regions. -/
structure Layout where
  build : Build
  numaAware : Bool
  sanitizer : Bool
deriving DecidableEq, Repr

namespace Layout

variable (l : Layout)

def kNumBaseClasses : Nat :=
  match l.build.config.variant with
  | .smallButSlow => 46
  | .pages8K => 86
  | .pages32K => 78
  | .pages256K => 89

def kHasExpandedClasses : Bool :=
  match l.build.config.variant with
  | .smallButSlow => false
  | _ => true

def kNumaPartitions : Nat := if l.numaAware && !l.sanitizer then 2 else 1

def kSecurityPartitions : Nat := if !l.numaAware && !l.sanitizer then 2 else 1

def kNormalPartitions : Nat := l.kNumaPartitions * l.kSecurityPartitions

def kExpandedClassesStart : Nat := l.kNumBaseClasses * l.kNormalPartitions

def kNumClasses : Nat := l.kExpandedClassesStart + if l.kHasExpandedClasses then l.kNumBaseClasses else 0

def kMaxSize : Nat := l.build.config.kMaxSize

def kClassArraySize : Nat := ((l.kMaxSize + 127 + (120 <<< 7)) >>> 7) + 1

def kHotRegisters : Nat := 2 * l.kSecurityPartitions

def kColdRegisterStride : Nat := l.kHotRegisters

end Layout

/-- `class_array_` and `class_to_size_`. -/
structure Tables where
  classArray : Nat → Nat
  classToSize : Nat → Nat

/-- The tables as `GetSizeClass` reads them for the default policy: hot, `New`,
partition `0` and no NUMA offset. -/
def Tables.sizeMap (t : Tables) (l : Layout) : AlignedAlloc.SizeMap :=
  ⟨t.classArray, t.classToSize, l.kNumClasses⟩

/-- The checks of row `c ≥ 1` of `ValidSizeClasses`, against the row before it. -/
def validRow (b : Build) (prev row : SizeClassInfo) : Bool :=
  let pages := row.bytes >>> b.config.kPageShift
  pages * b.kPageSize == row.bytes && prev.size < row.size && isValidSizeClass b row.size pages row.numToMove

def validRows (b : Build) : SizeClassInfo → List SizeClassInfo → Bool
  | _, [] => true
  | prev, row :: rows => validRow b prev row && validRows b row rows

/-- `ValidSizeClasses(size_classes)`: with expanded classes only the first
`kNumBaseClasses` rows are checked. -/
def validSizeClasses (l : Layout) (table : List SizeClassInfo) : Bool :=
  let numClasses :=
    if l.kHasExpandedClasses && l.kNumBaseClasses < table.length then l.kNumBaseClasses else table.length
  match table.take numClasses with
  | [] => false
  | first :: rows =>
    first.size == 0 && first.bytes == 0 && first.numToMove == 0 && validRows l.build first rows &&
      ((first :: rows).getLast?.map SizeClassInfo.size == some l.kMaxSize)

/-- `std::copy(&a[src], &a[src + len], &a[dst])`. -/
def copyRegion (a : Nat → Nat) (src len dst : Nat) : Nat → Nat :=
  fun x => if dst ≤ x ∧ x < dst + len then a (src + (x - dst)) else a x

/-- `SetSizeClasses(size_classes)`, on `class_to_size_`. -/
def setSizeClasses (l : Layout) (table : List SizeClassInfo) (classToSize : Nat → Nat) : Option (Nat → Nat) :=
  if !validSizeClasses l table then none
  else if l.kNumClasses < table.length then none
  else
    let sizes := Function.update classToSize 0 0
    let sizes := ((List.range table.length).drop 1).foldl
      (fun sizes c => Function.update sizes c (table.getD c ⟨0, 0, 0⟩).size) sizes
    -- fill any unspecified size classes with 0
    let sizes := (List.range' table.length (l.kNumBaseClasses - table.length)).foldl
      (fun sizes x => Function.update sizes x 0) sizes
    -- copy the base classes into the upper registers
    some ((List.range' 1 (l.kNumClasses / l.kNumBaseClasses - 1)).foldl
      (fun sizes i => copyRegion sizes 0 l.kNumBaseClasses (l.kNumBaseClasses * i)) sizes)

/-- `for (s = next_size; s <= max_size_in_class; s += kAlignment)`, for at most
`fuel` sizes, doing `write idx` for `idx = ClassIndex(s)`. -/
def fillSizes (l : Layout) (write : Nat → (Nat → Nat) → Nat → Nat) (maxSize : Nat) :
    Nat → Nat → (Nat → Nat) → Option (Nat → Nat)
  | 0, s, a => if s ≤ maxSize then none else some a
  | fuel + 1, s, a =>
    if s ≤ maxSize then
      match AlignedAlloc.classIndexMaybe l.build.config s with
      | none => none
      | some idx => fillSizes l write maxSize fuel (s + kAlignment) (write idx a)
    else some a

/-- A loop of `Init` over the classes `cs`: each fills the sizes above the
previous class up to its own, and the loop stops once `next_size` passes
`kMaxSize`.  With `skipZero` a class of size `0` only resets `next_size`, as the
cold loop does.  The array and the last `next_size`. -/
def fillClasses (l : Layout) (classToSize : Nat → Nat) (write : Nat → Nat → (Nat → Nat) → Nat → Nat)
    (skipZero : Bool) : List Nat → Nat → (Nat → Nat) → Option ((Nat → Nat) × Nat)
  | [], nextSize, a => some (a, nextSize)
  | c :: cs, nextSize, a =>
    let maxSize := classToSize c
    if skipZero && maxSize == 0 then fillClasses l classToSize write skipZero cs (maxSize + kAlignment) a
    else
      match fillSizes l (write c) maxSize (maxSize / kAlignment + 1) nextSize a with
      | none => none
      | some a =>
        if l.kMaxSize < maxSize + kAlignment then some (a, maxSize + kAlignment)
        else fillClasses l classToSize write skipZero cs (maxSize + kAlignment) a

/-- The write of the main loop: `class_array_[ClassIndex(s)] = c`. -/
def writeHot (c idx : Nat) (a : Nat → Nat) : Nat → Nat := Function.update a idx c

/-- The write of the partition loop: Hot Malloc P1 and Hot New P1, and in
`kLight` mode Hot New P0 as well. -/
def writePartition (l : Layout) (full : Bool) (c idx : Nat) (a : Nat → Nat) : Nat → Nat :=
  let a := Function.update a (idx + l.kClassArraySize * (l.kSecurityPartitions + 1)) c
  let a := Function.update a (idx + l.kClassArraySize) c
  if full then a else Function.update a idx c

/-- The write of the cold loop: Cold New P0. -/
def writeCold (l : Layout) (c idx : Nat) (a : Nat → Nat) : Nat → Nat :=
  Function.update a (idx + l.kClassArraySize * l.kColdRegisterStride) c

/-- `Init(size_classes)` from the tables `t`, with the heap partitioning mode of
the process; `none` when it returns `false`. -/
def init (l : Layout) (mode : HeapPartitioningMode) (table : List SizeClassInfo) (t : Tables) : Option Tables :=
  match setSizeClasses l table t.classToSize with
  | none => none
  | some sizes =>
    let A := l.kClassArraySize
    match fillClasses l sizes writeHot false (List.range' 1 (l.kNumClasses - 1)) 0 t.classArray with
    | none => none
    | some (a, nextSize) =>
      -- point Malloc P0, New P1 and Malloc P1 at New P0
      let a := (List.range' 1 (l.kHotRegisters - 1)).foldl (fun a i => copyRegion a 0 A (A * i)) a
      let partitioned :=
        if 1 < l.kSecurityPartitions ∧ mode ≠ .kOff then
          fillClasses l sizes (writePartition l (mode == .kFull)) false
            (List.range' (l.kNumBaseClasses + 1) (l.kExpandedClassesStart - (l.kNumBaseClasses + 1))) 0 a
        else some (a, nextSize)
      match partitioned with
      | none => none
      | some (a, nextSize) =>
        if l.kHasExpandedClasses then
          let a := copyRegion a 0 A (A * l.kColdRegisterStride)
          match fillClasses l sizes (writeCold l) true
              (List.range' l.kExpandedClassesStart (l.kNumClasses - l.kExpandedClassesStart)) nextSize a with
          | none => none
          | some (a, _) =>
            let S := l.kSecurityPartitions
            let a :=
              if 1 < S then
                if mode = .kFull then copyRegion a A A (A * (2 * S + 1))
                else copyRegion a (A * (2 * S)) A (A * (2 * S + 1))
              else a
            some ⟨a, sizes⟩
        else some ⟨a, sizes⟩

namespace Layout

variable (l : Layout)

theorem kNumBaseClasses_pos : 0 < l.kNumBaseClasses := by
  unfold kNumBaseClasses
  split <;> decide

theorem one_le_kSecurityPartitions : 1 ≤ l.kSecurityPartitions := by
  unfold kSecurityPartitions
  split <;> decide

theorem one_le_kNormalPartitions : 1 ≤ l.kNormalPartitions := by
  have hs := l.one_le_kSecurityPartitions
  unfold kNormalPartitions kNumaPartitions
  split <;> omega

theorem kNumClasses_eq :
    l.kNumClasses = l.kNumBaseClasses * (l.kNormalPartitions + if l.kHasExpandedClasses then 1 else 0) := by
  unfold kNumClasses kExpandedClassesStart
  split <;> simp [Nat.add_mul, Nat.mul_comm]

theorem kNumBaseClasses_le_kExpandedClassesStart : l.kNumBaseClasses ≤ l.kExpandedClassesStart :=
  Nat.le_mul_of_pos_right _ l.one_le_kNormalPartitions

theorem kExpandedClassesStart_le_kNumClasses : l.kExpandedClassesStart ≤ l.kNumClasses :=
  Nat.le_add_right _ _

theorem kMaxSize_facts : AlignedAlloc.kLargeSize < l.kMaxSize ∧ l.kMaxSize % l.build.config.kPageSize = 0 := by
  obtain ⟨⟨⟨v, _⟩, _⟩, _, _⟩ := l
  cases v <;> simp only [kMaxSize, AlignedAlloc.Config.kMaxSize, AlignedAlloc.Config.kPageSize,
    AlignedAlloc.Config.kPageShift, AlignedAlloc.kLargeSize] <;> decide

end Layout

section Index

/-- The index of `class_array_` that `ClassIndexMaybe` computes for a size up to
`kMaxSize`. -/
def arrayIndex (s : Nat) : Nat :=
  if s ≤ AlignedAlloc.kLargeSize then (s + 7) >>> 3 else (s + 127 + 120 * 128) >>> 7

/-- The largest size of the `class_array_` bucket of `s`. -/
def bucketTop (s : Nat) : Nat :=
  if s ≤ AlignedAlloc.kLargeSize then (s + 7) / 8 * 8 else (s + 127) / 128 * 128

theorem classIndexMaybe_of_le {cfg : AlignedAlloc.Config} {s : Nat} (hs : s ≤ cfg.kMaxSize) :
    AlignedAlloc.classIndexMaybe cfg s = some (arrayIndex s) := by
  unfold AlignedAlloc.classIndexMaybe arrayIndex
  by_cases hl : s ≤ AlignedAlloc.kLargeSize
  · rw [if_pos hl, if_pos hl]
  · rw [if_neg hl, if_neg hl, if_pos hs]

theorem arrayIndex_eq (s : Nat) :
    arrayIndex s = if s ≤ 1024 then (s + 7) / 8 else (s + 127) / 128 + 120 := by
  simp only [arrayIndex, AlignedAlloc.kLargeSize, Nat.shiftRight_eq_div_pow]
  split <;> omega

theorem arrayIndex_mono {s t : Nat} (h : s ≤ t) : arrayIndex s ≤ arrayIndex t := by
  rw [arrayIndex_eq, arrayIndex_eq]
  split <;> split <;> omega

theorem arrayIndex_lt_of_aligned {p t : Nat} (hp : IsAligned p) (ht : p + 8 ≤ t) :
    arrayIndex p < arrayIndex t := by
  obtain ⟨hsmall, hlarge⟩ := hp
  simp only [AlignedAlloc.kLargeSize] at hsmall hlarge
  rw [arrayIndex_eq, arrayIndex_eq]
  split <;> split <;> omega

theorem arrayIndex_bucketTop (s : Nat) : arrayIndex (bucketTop s) = arrayIndex s := by
  rw [arrayIndex_eq, arrayIndex_eq]
  unfold bucketTop AlignedAlloc.kLargeSize
  split <;> split <;> omega

theorem le_bucketTop (s : Nat) : s ≤ bucketTop s := by
  unfold bucketTop AlignedAlloc.kLargeSize
  split <;> omega

theorem bucketTop_mod (s : Nat) : bucketTop s % 8 = 0 := by
  unfold bucketTop AlignedAlloc.kLargeSize
  split <;> omega

theorem bucketTop_le_of_aligned {s m : Nat} (hm : IsAligned m) (h : s ≤ m) : bucketTop s ≤ m := by
  obtain ⟨hsmall, hlarge⟩ := hm
  unfold bucketTop AlignedAlloc.kLargeSize at *
  split <;> omega

theorem IsAligned.mod_eight {p : Nat} (hp : IsAligned p) : p % 8 = 0 := by
  obtain ⟨hsmall, hlarge⟩ := hp
  by_cases h : p ≤ AlignedAlloc.kLargeSize
  · exact hsmall h
  · have := hlarge (Nat.lt_of_not_le h)
    omega

theorem arrayIndex_lt_kClassArraySize (l : Layout) {s : Nat} (hs : s ≤ l.kMaxSize) :
    arrayIndex s < l.kClassArraySize := by
  have hM := l.kMaxSize_facts.1
  have hmono := arrayIndex_mono hs
  simp only [AlignedAlloc.kLargeSize] at hM
  rw [arrayIndex_eq l.kMaxSize, if_neg (by omega)] at hmono
  simp only [Layout.kClassArraySize, Nat.shiftRight_eq_div_pow, Nat.shiftLeft_eq]
  omega

end Index

section Table

/-- The size of row `c` of a table, as `SetSizeClasses` reads it. -/
def rowSize (table : List SizeClassInfo) (c : Nat) : Nat := (table.getD c ⟨0, 0, 0⟩).size

@[simp] theorem rowSize_cons_zero (row : SizeClassInfo) (rows : List SizeClassInfo) :
    rowSize (row :: rows) 0 = row.size := rfl

@[simp] theorem rowSize_cons_succ (row : SizeClassInfo) (rows : List SizeClassInfo) (c : Nat) :
    rowSize (row :: rows) (c + 1) = rowSize rows c := by
  simp [rowSize]

/-- What `ValidSizeClasses` establishes of the sizes of an accepted table of `n`
rows: class `0` is empty, the sizes increase and are aligned, and the last is
the largest size a class may have. -/
structure SizeTable (maxSize n : Nat) (size : Nat → Nat) : Prop where
  two_le : 2 ≤ n
  zero : size 0 = 0
  lt_succ : ∀ c, c + 1 < n → size c < size (c + 1)
  aligned : ∀ c < n, IsAligned (size c)
  last : size (n - 1) = maxSize

namespace SizeTable

variable {maxSize n : Nat} {size : Nat → Nat}

theorem lt (ht : SizeTable maxSize n size) {c c' : Nat} (hcc : c < c') (hc' : c' < n) :
    size c < size c' := by
  induction c' with
  | zero => omega
  | succ c' ih =>
      have hstep := ht.lt_succ c' hc'
      rcases Nat.lt_succ_iff_lt_or_eq.mp hcc with hlt | heq
      · exact Nat.lt_trans (ih hlt (by omega)) hstep
      · subst heq
        exact hstep

theorem le_of_le (ht : SizeTable maxSize n size) {c c' : Nat} (hcc : c ≤ c') (hc' : c' < n) :
    size c ≤ size c' := by
  rcases Nat.eq_or_lt_of_le hcc with heq | hlt
  · rw [heq]
  · exact Nat.le_of_lt (ht.lt hlt hc')

theorem le_max (ht : SizeTable maxSize n size) {c : Nat} (hc : c < n) : size c ≤ maxSize := by
  rcases Nat.lt_or_ge c (n - 1) with hlt | hge
  · exact ht.last ▸ Nat.le_of_lt (ht.lt hlt (by omega))
  · have hc : c = n - 1 := by omega
    rw [hc, ht.last]

theorem congr (ht : SizeTable maxSize n size) {size' : Nat → Nat} (h : ∀ c < n, size' c = size c) :
    SizeTable maxSize n size' where
  two_le := ht.two_le
  zero := (h 0 (by have := ht.two_le; omega)).trans ht.zero
  lt_succ c hc := by
    rw [h c (by omega), h (c + 1) hc]
    exact ht.lt_succ c hc
  aligned c hc := (h c hc).symm ▸ ht.aligned c hc
  last := (h (n - 1) (by have := ht.two_le; omega)).trans ht.last

end SizeTable

theorem validRows_spec (b : Build) : ∀ (prev : SizeClassInfo) (rows : List SizeClassInfo),
    validRows b prev rows = true → ∀ i < rows.length,
      rowSize (prev :: rows) i < rowSize (prev :: rows) (i + 1) ∧ IsAligned (rowSize (prev :: rows) (i + 1))
  | _, [], _, i, hi => absurd hi (Nat.not_lt_zero i)
  | prev, row :: rows, h, i, hi => by
      simp only [validRows, validRow, Bool.and_eq_true, decide_eq_true_eq] at h
      obtain ⟨⟨⟨-, hlt⟩, hvalid⟩, hrows⟩ := h
      cases i with
      | zero => exact ⟨hlt, isValidSizeClass_aligned hvalid⟩
      | succ i =>
          have hnext := validRows_spec b row rows hrows i (by simpa using hi)
          simpa using hnext

theorem validSizeClasses_sizeTable {l : Layout} {table : List SizeClassInfo}
    (hvalid : validSizeClasses l table = true) (hlen : table.length ≤ l.kNumBaseClasses) :
    SizeTable l.kMaxSize table.length (rowSize table) := by
  have hwhole : ¬ (l.kHasExpandedClasses && decide (l.kNumBaseClasses < table.length)) = true := by
    simp only [Bool.and_eq_true, decide_eq_true_eq, not_and]
    omega
  have hM := l.kMaxSize_facts.1
  simp only [validSizeClasses] at hvalid
  rw [if_neg hwhole, List.take_length] at hvalid
  obtain _ | ⟨first, rows⟩ := table
  · cases hvalid
  simp only [Bool.and_eq_true, beq_iff_eq] at hvalid
  obtain ⟨⟨⟨⟨hzero, -⟩, -⟩, hrows⟩, hlast⟩ := hvalid
  rw [List.getLast?_eq_getElem?, List.length_cons, Nat.add_sub_cancel] at hlast
  have hlastRow : rowSize (first :: rows) rows.length = l.kMaxSize := by
    simp only [rowSize, List.getD_eq_getElem?_getD]
    simpa using hlast
  have hrows_ne : rows ≠ [] := by
    rintro rfl
    simp only [List.length_nil, rowSize_cons_zero] at hlastRow
    simp only [AlignedAlloc.kLargeSize] at hM
    omega
  refine ⟨?_, hzero, fun c hc => (validRows_spec l.build first rows hrows c (by simpa using hc)).1, ?_, ?_⟩
  · have hpos := List.length_pos_iff.mpr hrows_ne
    simp only [List.length_cons]
    omega
  · intro c hc
    cases c with
    | zero => exact ⟨fun _ => by simp [hzero], fun h => by simp [hzero] at h⟩
    | succ c => exact (validRows_spec l.build first rows hrows c (by simpa using hc)).2
  · simpa using hlastRow

end Table

section Copy

theorem copyRegion_of_lt {a : Nat → Nat} {src len dst x : Nat} (hx : x < dst) :
    copyRegion a src len dst x = a x := by
  unfold copyRegion
  rw [if_neg (by omega)]

theorem foldl_copyRegion_of_lt (a : Nat → Nat) (L : Nat) (is : List Nat) (his : ∀ i ∈ is, 1 ≤ i)
    {x : Nat} (hx : x < L) : is.foldl (fun a i => copyRegion a 0 L (L * i)) a x = a x :=
  Lib.foldl_apply_of_forall is _ a x fun i hi _ =>
    copyRegion_of_lt (Nat.lt_of_lt_of_le hx (Nat.le_mul_of_pos_right L (his i hi)))

theorem foldl_copyRegion_spread (P : Nat → Prop) (L : Nat) :
    ∀ (m s : Nat) (a : Nat → Nat), 1 ≤ s → (∀ x < L * s, P (a x)) →
      ∀ x < L * (s + m), P ((List.range' s m).foldl (fun a i => copyRegion a 0 L (L * i)) a x)
  | 0, _, _, _, h, x, hx => h x hx
  | m + 1, s, a, hs, h, x, hx => by
      rw [List.range'_succ, List.foldl_cons]
      have hstep : L * (s + 1) = L * s + L := Nat.mul_succ L s
      have hbase : L ≤ L * s := Nat.le_mul_of_pos_right L hs
      refine foldl_copyRegion_spread P L m (s + 1) _ (by omega) ?_ x (by rwa [Nat.add_right_comm])
      intro y hy
      unfold copyRegion
      split
      · exact h _ (by omega)
      · exact h y (by omega)

end Copy

section SetSizeClasses

theorem setSizes_apply (table : List SizeClassInfo) (K : Nat) (classToSize : Nat → Nat) (x : Nat) :
    (List.range' table.length (K - table.length)).foldl (fun sizes x => Function.update sizes x 0)
        (((List.range table.length).drop 1).foldl
          (fun sizes c => Function.update sizes c (table.getD c ⟨0, 0, 0⟩).size) (Function.update classToSize 0 0)) x =
      if x = 0 then 0 else if x < table.length then rowSize table x else if x < K then 0 else classToSize x := by
  rw [Lib.foldl_update_apply, Lib.foldl_update_apply]
  simp only [List.mem_range'_1, List.range_eq_range', List.drop_range', Function.update_apply]
  split_ifs <;> first | rfl | omega

variable {l : Layout} {table : List SizeClassInfo}

theorem setSizeClasses_spec (hvalid : validSizeClasses l table = true) (hlen : table.length ≤ l.kNumBaseClasses)
    (classToSize : Nat → Nat) :
    ∃ sizes, setSizeClasses l table classToSize = some sizes ∧ (∀ c < table.length, sizes c = rowSize table c) ∧
      ∀ c < l.kNumClasses, sizes c ≤ l.kMaxSize := by
  have ht := validSizeClasses_sizeTable hvalid hlen
  have hKN : l.kNumBaseClasses ≤ l.kNumClasses :=
    Nat.le_trans l.kNumBaseClasses_le_kExpandedClassesStart l.kExpandedClassesStart_le_kNumClasses
  unfold setSizeClasses
  rw [hvalid, Bool.not_true, if_neg Bool.false_ne_true, if_neg (by omega)]
  refine ⟨_, rfl, ?_, ?_⟩
  · intro c hc
    rw [foldl_copyRegion_of_lt _ _ _ (fun i hi => (List.mem_range'_1.mp hi).1) (by omega), setSizes_apply]
    by_cases h0 : c = 0
    · rw [if_pos h0, h0]
      exact ht.zero.symm
    · rw [if_neg h0, if_pos hc]
  · -- the classes are `q` copies of the base classes, each holding a size of the table or `0`
    intro c hc
    obtain ⟨q, hq, hq1⟩ : ∃ q, l.kNumClasses = l.kNumBaseClasses * q ∧ 1 ≤ q :=
      ⟨_, l.kNumClasses_eq, by have := l.one_le_kNormalPartitions; omega⟩
    have hdiv : l.kNumClasses / l.kNumBaseClasses = q := by
      rw [hq]
      exact Nat.mul_div_cancel_left q l.kNumBaseClasses_pos
    refine foldl_copyRegion_spread (· ≤ l.kMaxSize) _ _ 1 _ le_rfl ?_ c ?_
    · intro x hx
      rw [setSizes_apply]
      split_ifs with h0 hn hK
      · exact Nat.zero_le _
      · exact ht.le_max hn
      · exact Nat.zero_le _
      · omega
    · rw [hdiv, Nat.add_sub_cancel' hq1, ← hq]
      exact hc

end SetSizeClasses

section Fill

variable (l : Layout)

theorem fillSizes_eq (write : Nat → (Nat → Nat) → Nat → Nat) {maxSize : Nat} (hmax : maxSize ≤ l.kMaxSize) :
    ∀ (fuel next : Nat) (a : Nat → Nat), maxSize < next + kAlignment * fuel →
      fillSizes l write maxSize fuel next a =
        some ((List.range' next ((maxSize + kAlignment - next) / kAlignment) kAlignment).foldl
          (fun a t => write (arrayIndex t) a) a)
  | 0, next, a, hfuel => by
      have hcount : (maxSize + kAlignment - next) / kAlignment = 0 := by
        simp only [kAlignment] at hfuel ⊢
        omega
      rw [fillSizes, if_neg (by omega), hcount]
      rfl
  | fuel + 1, next, a, hfuel => by
      rw [fillSizes]
      by_cases hle : next ≤ maxSize
      · rw [if_pos hle, classIndexMaybe_of_le (Nat.le_trans hle hmax)]
        dsimp only
        rw [fillSizes_eq write hmax fuel (next + kAlignment) _ (by simp only [kAlignment] at hfuel ⊢; omega)]
        have hcount : (maxSize + kAlignment - next) / kAlignment =
            (maxSize + kAlignment - (next + kAlignment)) / kAlignment + 1 := by
          simp only [kAlignment]
          omega
        rw [hcount, List.range'_succ, List.foldl_cons]
      · have hcount : (maxSize + kAlignment - next) / kAlignment = 0 := by
          simp only [kAlignment]
          omega
        rw [if_neg hle, hcount]
        rfl

theorem fillClasses_keeps (classToSize : Nat → Nat) (write : Nat → Nat → (Nat → Nat) → Nat → Nat)
    (skipZero : Bool) (X : Nat → Prop) (hw : ∀ c i a x, X x → write c i a x = a x) :
    ∀ (cs : List Nat) (next : Nat) (a : Nat → Nat), (∀ c ∈ cs, classToSize c ≤ l.kMaxSize) →
      ∃ a' next', fillClasses l classToSize write skipZero cs next a = some (a', next') ∧ ∀ x, X x → a' x = a x
  | [], next, a, _ => ⟨a, next, rfl, fun _ _ => rfl⟩
  | c :: cs, next, a, hsizes => by
      have hc := hsizes c List.mem_cons_self
      have hcs : ∀ c' ∈ cs, classToSize c' ≤ l.kMaxSize := fun c' h => hsizes c' (List.mem_cons_of_mem c h)
      rw [fillClasses]
      split
      · exact fillClasses_keeps classToSize write skipZero X hw cs _ a hcs
      · rw [fillSizes_eq l (write c) hc _ next a (by simp only [kAlignment]; omega)]
        dsimp only
        have hkeep : ∀ x, X x → (List.range' next ((classToSize c + kAlignment - next) / kAlignment)
            kAlignment).foldl (fun a t => write c (arrayIndex t) a) a x = a x :=
          fun x hx => Lib.foldl_apply_of_forall _ _ a x fun t _ g => hw c _ g x hx
        split
        · exact ⟨_, _, rfl, hkeep⟩
        · obtain ⟨a', next', hrun, hk⟩ := fillClasses_keeps classToSize write skipZero X hw cs _ _ hcs
          exact ⟨a', next', hrun, fun x hx => (hk x hx).trans (hkeep x hx)⟩

end Fill

section Lookup

/-- `c` is the smallest class `c ≥ 1` whose size is at least `s`. -/
structure Tightest (classToSize : Nat → Nat) (s c : Nat) : Prop where
  pos : 1 ≤ c
  fits : s ≤ classToSize c
  least : ∀ c', 1 ≤ c' → c' < c → classToSize c' < s

/-- The main loop of `Init` before class `c`: every size up to the largest of
class `c - 1` is looked up to its tightest class. -/
def Settled (sizes : Nat → Nat) (c : Nat) (a : Nat → Nat) : Prop :=
  ∀ s, 1 < c → s ≤ sizes (c - 1) → Tightest sizes s (a (arrayIndex s))

variable {M n : Nat} {sizes : Nat → Nat}

theorem settled_fillHot (ht : SizeTable M n sizes) {c next : Nat} (a : Nat → Nat) (hc1 : 1 ≤ c) (hcn : c < n)
    (hnext : next = if c = 1 then 0 else sizes (c - 1) + kAlignment) (hset : Settled sizes c a) :
    Settled sizes (c + 1) ((List.range' next ((sizes c + kAlignment - next) / kAlignment) kAlignment).foldl
      (fun a t => writeHot c (arrayIndex t) a) a) := by
  intro s _ hs
  rw [Nat.add_sub_cancel] at hs
  have hfold : ∀ x, (List.range' next ((sizes c + kAlignment - next) / kAlignment) kAlignment).foldl
      (fun a t => writeHot c (arrayIndex t) a) a x =
        if x ∈ (List.range' next ((sizes c + kAlignment - next) / kAlignment) kAlignment).map arrayIndex
        then c else a x := by
    intro x
    have hupd := Lib.foldl_update_apply
      ((List.range' next ((sizes c + kAlignment - next) / kAlignment) kAlignment).map arrayIndex) (fun _ => c) a x
    rw [List.foldl_map] at hupd
    exact hupd
  have hprev : 1 < c → IsAligned (sizes (c - 1)) := fun h => ht.aligned (c - 1) (by omega)
  rw [hfold]
  by_cases hold : 1 < c ∧ s ≤ sizes (c - 1)
  · -- settled before, and every size written now lies in a later bucket
    rw [if_neg]
    · exact hset s hold.1 hold.2
    · intro hmem
      obtain ⟨t, htmem, hidx⟩ := List.mem_map.mp hmem
      obtain ⟨i, -, rfl⟩ := List.mem_range'.mp htmem
      rw [if_neg (by omega)] at hnext
      have hlt := arrayIndex_lt_of_aligned (hprev hold.1)
        (show sizes (c - 1) + 8 ≤ next + kAlignment * i by simp only [kAlignment] at hnext ⊢; omega)
      have hle := arrayIndex_mono hold.2
      omega
  · -- a size of class `c`: its bucket top is one of the sizes written now
    have htop_le := bucketTop_le_of_aligned (ht.aligned c hcn) hs
    have htop_ge := le_bucketTop s
    have htop_mod := bucketTop_mod s
    have hstart : next ≤ bucketTop s ∧ next % 8 = 0 := by
      by_cases h1 : c = 1
      · rw [if_pos h1] at hnext
        omega
      · rw [if_neg h1] at hnext
        have hmod := (hprev (by omega)).mod_eight
        simp only [kAlignment] at hnext
        omega
    have hmem : arrayIndex s ∈
        (List.range' next ((sizes c + kAlignment - next) / kAlignment) kAlignment).map arrayIndex := by
      refine List.mem_map.mpr ⟨bucketTop s, List.mem_range'.mpr ⟨(bucketTop s - next) / 8, ?_, ?_⟩,
        arrayIndex_bucketTop s⟩
      · simp only [kAlignment]
        omega
      · simp only [kAlignment]
        omega
    rw [if_pos hmem]
    refine ⟨hc1, hs, fun c' hc' hlt => ?_⟩
    have hle := ht.le_of_le (show c' ≤ c - 1 by omega) (by omega)
    omega

theorem fillClasses_hot (l : Layout) (ht : SizeTable l.kMaxSize n sizes) :
    ∀ (k c next : Nat) (a : Nat → Nat), 1 ≤ c → c < n → n ≤ c + k →
      next = (if c = 1 then 0 else sizes (c - 1) + kAlignment) → Settled sizes c a →
      ∃ a' next', fillClasses l sizes writeHot false (List.range' c k) next a = some (a', next') ∧
        ∀ s ≤ l.kMaxSize, Tightest sizes s (a' (arrayIndex s))
  | 0, c, _, _, _, hcn, hk, _, _ => absurd hk (by omega)
  | k + 1, c, next, a, hc1, hcn, hk, hnext, hset => by
      have hmax := ht.le_max hcn
      have hset' := settled_fillHot ht a hc1 hcn hnext hset
      rw [List.range'_succ, fillClasses, if_neg (by simp),
        fillSizes_eq l (writeHot c) hmax _ next a (by simp only [kAlignment]; omega)]
      dsimp only
      by_cases hlast : c = n - 1
      · -- the class of size `kMaxSize` ends the loop
        have hsize : sizes c = l.kMaxSize := hlast ▸ ht.last
        rw [if_pos (by simp only [kAlignment]; omega)]
        exact ⟨_, _, rfl, fun s hs => hset' s (by omega) (by rw [Nat.add_sub_cancel, hsize]; exact hs)⟩
      · have hlt : sizes c < l.kMaxSize := ht.last ▸ ht.lt (show c < n - 1 by omega) (by omega)
        have hmod := (ht.aligned c hcn).mod_eight
        have hmodM := (ht.last ▸ ht.aligned (n - 1) (by omega)).mod_eight
        rw [if_neg (by simp only [kAlignment]; omega)]
        exact fillClasses_hot l ht k (c + 1) _ _ (by omega) (by omega) (by omega)
          (by rw [if_neg (by omega), Nat.add_sub_cancel]) hset'

end Lookup

section Init

variable {l : Layout}

theorem writePartition_full_keeps (c i : Nat) (a : Nat → Nat) {x : Nat} (hx : x < l.kClassArraySize) :
    writePartition l true c i a x = a x := by
  have hS := l.one_le_kSecurityPartitions
  have hfar : l.kClassArraySize ≤ l.kClassArraySize * (l.kSecurityPartitions + 1) :=
    Nat.le_mul_of_pos_right _ (by omega)
  simp only [writePartition, if_true]
  rw [Function.update_of_ne (by omega), Function.update_of_ne (by omega)]

theorem writeCold_keeps (c i : Nat) (a : Nat → Nat) {x : Nat} (hx : x < l.kClassArraySize) :
    writeCold l c i a x = a x := by
  have hS := l.one_le_kSecurityPartitions
  have hfar : l.kClassArraySize ≤ l.kClassArraySize * l.kColdRegisterStride :=
    Nat.le_mul_of_pos_right _ (by simp only [Layout.kColdRegisterStride, Layout.kHotRegisters]; omega)
  simp only [writeCold]
  rw [Function.update_of_ne (by omega)]

theorem partition_keeps {mode : HeapPartitioningMode} (hmode : mode ≠ .kLight ∨ l.kSecurityPartitions = 1)
    {sizes : Nat → Nat} (hle : ∀ c < l.kNumClasses, sizes c ≤ l.kMaxSize) (a : Nat → Nat) (next : Nat) :
    ∃ a' next', (if 1 < l.kSecurityPartitions ∧ mode ≠ .kOff then
        fillClasses l sizes (writePartition l (mode == .kFull)) false
          (List.range' (l.kNumBaseClasses + 1) (l.kExpandedClassesStart - (l.kNumBaseClasses + 1))) 0 a
      else some (a, next)) = some (a', next') ∧ ∀ x < l.kClassArraySize, a' x = a x := by
  by_cases hact : 1 < l.kSecurityPartitions ∧ mode ≠ .kOff
  · have hfull : mode = .kFull := by
      obtain ⟨hS, hon⟩ := hact
      cases mode with
      | kOff => exact absurd rfl hon
      | kLight => exact absurd hmode (by simp only [ne_eq, not_true_eq_false, false_or]; omega)
      | kFull => rfl
    rw [if_pos hact, hfull, beq_self_eq_true]
    have hN := l.kExpandedClassesStart_le_kNumClasses
    exact fillClasses_keeps l sizes _ false (· < l.kClassArraySize)
      (fun c i a _ hx => writePartition_full_keeps c i a hx) _ 0 a
      (fun c hc => hle c (by have := List.mem_range'_1.mp hc; omega))
  · rw [if_neg hact]
    exact ⟨a, next, rfl, fun _ _ => rfl⟩

theorem init_spec {mode : HeapPartitioningMode} {table : List SizeClassInfo}
    (hvalid : validSizeClasses l table = true) (hlen : table.length ≤ l.kNumBaseClasses)
    (hmode : mode ≠ .kLight ∨ l.kSecurityPartitions = 1) (t₀ : Tables) :
    ∃ t, init l mode table t₀ = some t ∧ (∀ c < table.length, t.classToSize c = rowSize table c) ∧
      (∀ c < l.kNumClasses, t.classToSize c ≤ l.kMaxSize) ∧
      ∀ s ≤ l.kMaxSize, Tightest t.classToSize s (t.classArray (arrayIndex s)) := by
  obtain ⟨sizes, hset, hrows, hle⟩ := setSizeClasses_spec hvalid hlen t₀.classToSize
  have ht := (validSizeClasses_sizeTable hvalid hlen).congr hrows
  have hN : table.length ≤ l.kNumClasses := Nat.le_trans hlen
    (Nat.le_trans l.kNumBaseClasses_le_kExpandedClassesStart l.kExpandedClassesStart_le_kNumClasses)
  have hn := ht.two_le
  obtain ⟨a1, next1, hmain, htight⟩ := fillClasses_hot l ht (l.kNumClasses - 1) 1 0 t₀.classArray le_rfl
    (by omega) (by omega) (by simp) (fun _ h => absurd h (Nat.lt_irrefl 1))
  -- every later stage of `Init` leaves the first register as the main loop wrote it
  have hfinish : ∀ aF : Nat → Nat, (∀ x < l.kClassArraySize, aF x = a1 x) →
      (∀ c < table.length, sizes c = rowSize table c) ∧ (∀ c < l.kNumClasses, sizes c ≤ l.kMaxSize) ∧
        ∀ s ≤ l.kMaxSize, Tightest sizes s (aF (arrayIndex s)) :=
    fun aF hF => ⟨hrows, hle, fun s hs => (hF _ (arrayIndex_lt_kClassArraySize l hs)).symm ▸ htight s hs⟩
  have hhot : ∀ x < l.kClassArraySize, (List.range' 1 (l.kHotRegisters - 1)).foldl
      (fun a i => copyRegion a 0 l.kClassArraySize (l.kClassArraySize * i)) a1 x = a1 x :=
    fun x hx => foldl_copyRegion_of_lt a1 _ _ (fun i hi => (List.mem_range'_1.mp hi).1) hx
  obtain ⟨a3, next3, hpart, hk3⟩ := partition_keeps hmode hle ((List.range' 1 (l.kHotRegisters - 1)).foldl
      (fun a i => copyRegion a 0 l.kClassArraySize (l.kClassArraySize * i)) a1) next1
  unfold init
  rw [hset]
  dsimp only
  rw [hmain]
  dsimp only
  rw [hpart]
  dsimp only
  by_cases hexp : l.kHasExpandedClasses = true
  · have hS := l.one_le_kSecurityPartitions
    have hcold : ∀ x < l.kClassArraySize,
        copyRegion a3 0 l.kClassArraySize (l.kClassArraySize * l.kColdRegisterStride) x = a3 x := fun x hx =>
      copyRegion_of_lt (Nat.lt_of_lt_of_le hx (Nat.le_mul_of_pos_right _
        (by simp only [Layout.kColdRegisterStride, Layout.kHotRegisters]; omega)))
    obtain ⟨a4, next4, hrun, hk4⟩ := fillClasses_keeps l sizes (writeCold l) true (· < l.kClassArraySize)
      (fun c i a _ hx => writeCold_keeps c i a hx)
      (List.range' l.kExpandedClassesStart (l.kNumClasses - l.kExpandedClassesStart)) next3
      (copyRegion a3 0 l.kClassArraySize (l.kClassArraySize * l.kColdRegisterStride))
      (fun c hc => hle c (by have := List.mem_range'_1.mp hc; have := l.kExpandedClassesStart_le_kNumClasses; omega))
    rw [if_pos hexp, hrun]
    dsimp only
    refine ⟨_, rfl, hfinish _ fun x hx => ?_⟩
    have hfar : l.kClassArraySize ≤ l.kClassArraySize * (2 * l.kSecurityPartitions + 1) :=
      Nat.le_mul_of_pos_right _ (by omega)
    have hlast : (if 1 < l.kSecurityPartitions then
        if mode = .kFull then copyRegion a4 l.kClassArraySize l.kClassArraySize
          (l.kClassArraySize * (2 * l.kSecurityPartitions + 1))
        else copyRegion a4 (l.kClassArraySize * (2 * l.kSecurityPartitions)) l.kClassArraySize
          (l.kClassArraySize * (2 * l.kSecurityPartitions + 1))
      else a4) x = a4 x := by
      split_ifs <;> first | rfl | exact copyRegion_of_lt (by omega)
    exact hlast.trans ((hk4 x hx).trans ((hcold x hx).trans ((hk3 x hx).trans (hhot x hx))))
  · rw [if_neg hexp]
    exact ⟨_, rfl, hfinish _ fun x hx => (hk3 x hx).trans (hhot x hx)⟩

end Init

section GetSizeClass

variable {cfg : AlignedAlloc.Config}

theorem getSizeClass_of_kMaxSize_lt (m : AlignedAlloc.SizeMap) (align : Nat) {s : Nat}
    (hM : AlignedAlloc.kLargeSize < cfg.kMaxSize) (hs : cfg.kMaxSize < s) : AlignedAlloc.getSizeClass cfg m align s = none := by
  have hlarge : ¬ s ≤ AlignedAlloc.kLargeSize := by omega
  have hmax : ¬ s ≤ cfg.kMaxSize := by omega
  unfold AlignedAlloc.getSizeClass AlignedAlloc.classIndexMaybe
  rw [if_neg hlarge, if_neg hmax]
  split <;> rfl

theorem getSizeClass_of_tightest {m : AlignedAlloc.SizeMap} {n s j : Nat} (ht : SizeTable cfg.kMaxSize n m.classToSize)
    (hn : n ≤ m.numClasses) (hpage : cfg.kMaxSize % cfg.kPageSize = 0) (hs : s ≤ cfg.kMaxSize)
    (htight : Tightest m.classToSize s (m.classArray (arrayIndex s))) (hj : 2 ^ j ≤ cfg.kPageSize) :
    ∃ c', AlignedAlloc.getSizeClass cfg m (2 ^ j) s = some c' ∧ m.classArray (arrayIndex s) ≤ c' ∧ c' < n ∧
      2 ^ j ∣ m.classToSize c' ∧ ∀ k, m.classArray (arrayIndex s) ≤ k → k < c' → ¬ 2 ^ j ∣ m.classToSize k := by
  have hcn : m.classArray (arrayIndex s) < n := by
    by_contra hge
    have h2 := ht.two_le
    have hlt := htight.least (n - 1) (by omega) (by omega)
    rw [ht.last] at hlt
    omega
  have hp : ∀ k, (m.classToSize k &&& (2 ^ j - 1) == 0) = true ↔ 2 ^ j ∣ m.classToSize k := fun k => by
    rw [beq_iff_eq, Nat.and_two_pow_sub_one_eq_mod, Nat.dvd_iff_mod_eq_zero]
  have hlast : (m.classToSize (n - 1) &&& (2 ^ j - 1) == 0) = true := by
    rw [hp, ht.last]
    rw [AlignedAlloc.Config.kPageSize_eq] at hj hpage
    have hjk : j ≤ cfg.kPageShift := (Nat.pow_le_pow_iff_right (by decide)).mp hj
    exact Nat.dvd_trans (Nat.pow_dvd_pow 2 hjk) (Nat.dvd_of_mod_eq_zero hpage)
  have hstart := Lib.Scan.le_firstFrom (fun k => m.classToSize k &&& (2 ^ j - 1) == 0)
    (m.numClasses - m.classArray (arrayIndex s)) (m.classArray (arrayIndex s))
  have hnone := Lib.Scan.noneIn_firstFrom (fun k => m.classToSize k &&& (2 ^ j - 1) == 0)
    (m.numClasses - m.classArray (arrayIndex s)) (m.classArray (arrayIndex s))
  have hinside : Lib.Scan.firstFrom (fun k => m.classToSize k &&& (2 ^ j - 1) == 0)
      (m.numClasses - m.classArray (arrayIndex s)) (m.classArray (arrayIndex s)) < n := by
    by_contra hge
    have hoff := hnone (n - 1) (by omega) (by omega)
    simp only [hlast] at hoff
    exact Bool.noConfusion hoff
  have hget : AlignedAlloc.getSizeClass cfg m (2 ^ j) s = some (Lib.Scan.firstFrom
      (fun k => m.classToSize k &&& (2 ^ j - 1) == 0) (m.numClasses - m.classArray (arrayIndex s))
      (m.classArray (arrayIndex s))) := by
    unfold AlignedAlloc.getSizeClass
    rw [if_neg (Nat.not_lt.mpr hj), classIndexMaybe_of_le hs]
  refine ⟨_, hget, hstart, hinside, AlignedAlloc.getSizeClass_dvd cfg m hget (by omega), fun k hk hk' hdvd => ?_⟩
  have hoff := hnone k hk hk'
  simp only [(hp k).mpr hdvd] at hoff
  exact Bool.noConfusion hoff

end GetSizeClass

section Lookup

variable {l : Layout}

/-- After `Init` from an accepted table of at most `kNumBaseClasses` rows, and
outside `kLight` heap partitioning, the default lookup (hot, `New`, partition
`0`, no NUMA offset) sends every size up to `kMaxSize` to the smallest class
that holds it, and for a power-of-two alignment up to `kPageSize` to the first
class from there whose size is a multiple of it, inside the table; larger sizes
and alignments are not small. -/
theorem init_getSizeClass_tightest {mode : HeapPartitioningMode} {table : List SizeClassInfo}
    (hvalid : validSizeClasses l table = true) (hlen : table.length ≤ l.kNumBaseClasses)
    (hmode : mode ≠ .kLight ∨ l.kSecurityPartitions = 1) (t₀ : Tables) :
    ∃ t, init l mode table t₀ = some t ∧
      (∀ c < table.length, t.classToSize c = (table.getD c ⟨0, 0, 0⟩).size) ∧
      (∀ s ≤ l.kMaxSize, ∃ c, Tightest t.classToSize s c ∧
        AlignedAlloc.getSizeClass l.build.config (t.sizeMap l) 1 s = some c ∧
        ∀ j, 2 ^ j ≤ l.build.config.kPageSize → ∃ c',
          AlignedAlloc.getSizeClass l.build.config (t.sizeMap l) (2 ^ j) s = some c' ∧ c ≤ c' ∧
            c' < table.length ∧ 2 ^ j ∣ t.classToSize c' ∧ ∀ k, c ≤ k → k < c' → ¬ 2 ^ j ∣ t.classToSize k) ∧
      ∀ align s, (l.kMaxSize < s ∨ l.build.config.kPageSize < align) →
        AlignedAlloc.getSizeClass l.build.config (t.sizeMap l) align s = none := by
  obtain ⟨t, hinit, hrows, -, htight⟩ := init_spec hvalid hlen hmode t₀
  -- the lookup reads the tables through `t.sizeMap l`
  have ht : SizeTable l.build.config.kMaxSize table.length (t.sizeMap l).classToSize :=
    (validSizeClasses_sizeTable hvalid hlen).congr hrows
  have htight' : ∀ s ≤ l.build.config.kMaxSize,
      Tightest (t.sizeMap l).classToSize s ((t.sizeMap l).classArray (arrayIndex s)) := htight
  have hn : table.length ≤ (t.sizeMap l).numClasses := Nat.le_trans hlen
    (Nat.le_trans l.kNumBaseClasses_le_kExpandedClassesStart l.kExpandedClassesStart_le_kNumClasses)
  obtain ⟨hlarge, hpage⟩ := l.kMaxSize_facts
  refine ⟨t, hinit, hrows, fun s hs => ⟨_, htight s hs, ?_, fun j hj =>
    getSizeClass_of_tightest ht hn hpage hs (htight' s hs) hj⟩, fun align s hout => ?_⟩
  · -- alignment `1 = 2 ^ 0` divides every size, so the search stops where it starts
    obtain ⟨c', hget, hle, -, -, hfirst⟩ := getSizeClass_of_tightest (j := 0) ht hn hpage hs (htight' s hs)
      (by rw [AlignedAlloc.Config.kPageSize_eq]; exact Nat.one_le_two_pow)
    have hc' : c' = (t.sizeMap l).classArray (arrayIndex s) := by
      by_contra hne
      exact hfirst _ le_rfl (by omega) (Nat.one_dvd _)
    rw [← Nat.pow_zero 2, hget, hc']
    rfl
  · rcases hout with hs | halign
    · exact getSizeClass_of_kMaxSize_lt _ align hlarge hs
    · exact AlignedAlloc.getSizeClass_of_kPageSize_lt _ _ s halign

/-- The small-but-slow build without NUMA or sanitizers: `46` base classes, two
security partitions and no expanded classes. -/
def smallButSlow : Layout := ⟨⟨⟨.smallButSlow, .x86_64⟩, false⟩, false, false⟩

/-- A table of `47` rows: sizes `8, …, 360` and `kMaxSize`. -/
def longTable : List SizeClassInfo :=
  ⟨0, 0, 0⟩ :: ((List.range 45).map fun i => ⟨8 * (i + 1), 4096, 32⟩) ++ [⟨8192, 8192, 2⟩]

def shortTable : List SizeClassInfo := [⟨0, 0, 0⟩, ⟨8, 4096, 32⟩, ⟨8192, 8192, 2⟩]

def zeroTables : Tables := ⟨fun _ => 0, fun _ => 0⟩

theorem init_getSizeClass_tightest_at_shortTable :
    validSizeClasses smallButSlow shortTable = true ∧ shortTable.length ≤ smallButSlow.kNumBaseClasses ∧
      (HeapPartitioningMode.kFull ≠ .kLight ∨ smallButSlow.kSecurityPartitions = 1) ∧
      ∃ t, init smallButSlow .kFull shortTable zeroTables = some t ∧
        (∀ c < shortTable.length, t.classToSize c = (shortTable.getD c ⟨0, 0, 0⟩).size) ∧
        (∀ s ≤ smallButSlow.kMaxSize, ∃ c, Tightest t.classToSize s c ∧
          AlignedAlloc.getSizeClass smallButSlow.build.config (t.sizeMap smallButSlow) 1 s = some c ∧
          ∀ j, 2 ^ j ≤ smallButSlow.build.config.kPageSize → ∃ c',
            AlignedAlloc.getSizeClass smallButSlow.build.config (t.sizeMap smallButSlow) (2 ^ j) s = some c' ∧
              c ≤ c' ∧ c' < shortTable.length ∧ 2 ^ j ∣ t.classToSize c' ∧
              ∀ k, c ≤ k → k < c' → ¬ 2 ^ j ∣ t.classToSize k) ∧
        ∀ align s, (smallButSlow.kMaxSize < s ∨ smallButSlow.build.config.kPageSize < align) →
          AlignedAlloc.getSizeClass smallButSlow.build.config (t.sizeMap smallButSlow) align s = none :=
  have hvalid : validSizeClasses smallButSlow shortTable = true := by decide
  have hlen : shortTable.length ≤ smallButSlow.kNumBaseClasses := by decide
  have hmode : HeapPartitioningMode.kFull ≠ .kLight ∨ smallButSlow.kSecurityPartitions = 1 := by decide
  ⟨hvalid, hlen, hmode, init_getSizeClass_tightest hvalid hlen hmode zeroTables⟩

/-- Both restrictions are needed.  A table longer than `kNumBaseClasses` rows is
accepted whole when there are no expanded classes, but the copy into the upper
registers overwrites its last class, so `kMaxSize` is left on class `0`; and in
`kLight` mode the lookup of partition `0` is routed to partition `1`'s copy of a
class. -/
theorem init_getSizeClass_not_tightest :
    validSizeClasses smallButSlow longTable = true ∧
      (init smallButSlow .kOff longTable zeroTables).map (fun t =>
        AlignedAlloc.getSizeClass smallButSlow.build.config (t.sizeMap smallButSlow) 1 smallButSlow.kMaxSize) =
        some (some 0) ∧
      (init smallButSlow .kLight shortTable zeroTables).map (fun t =>
        AlignedAlloc.getSizeClass smallButSlow.build.config (t.sizeMap smallButSlow) 1 8) = some (some 47) :=
  ⟨by decide +kernel, by decide +kernel, by decide +kernel⟩

end Lookup

end TCMalloc.SizeMap
