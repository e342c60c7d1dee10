import Mathlib.Data.Nat.Count
import TCMalloc.Lib.Scan

/-!
The aligned allocation entry points of `tcmalloc.cc` and the routes an alignment
takes through `fast_alloc`: a size class found by `SizeMap::GetSizeClass`'s
alignment search, or, for an alignment above one page or a size above
`kMaxSize`, `slow_alloc_large` and `do_malloc_pages`, which asks the page
allocator (every heap is a `HugePageAwareAllocator`) for `BytesToLengthCeil(align)`
pages of alignment.  The page configuration (`TCMALLOC_PAGE_SHIFT` and the
architecture's `kHugePageShift`) is a parameter; the size-class tables and what
the caches below the page allocator hand out form an environment.
-/

set_option autoImplicit false
set_option relaxedAutoImplicit false

namespace TCMalloc.AlignedAlloc

open TCMalloc.Lib.Scan

/-- The page sizes `common.h` selects through `TCMALLOC_PAGE_SHIFT`. -/
inductive PageVariant
  | smallButSlow
  | pages8K
  | pages32K
  | pages256K
  deriving DecidableEq, Repr

/-- The architectures `internal/config.h` distinguishes for `kHugePageShift`. -/
inductive Arch
  | x86_64
  | ppc64
  | aarch64
  | riscv
  | other
  deriving DecidableEq, Repr

structure Config where
  variant : PageVariant
  arch : Arch
  deriving DecidableEq, Repr

namespace Config

variable (c : Config)

def kPageShift : Nat :=
  match c.variant with
  | .smallButSlow => 12
  | .pages8K => 13
  | .pages32K => 15
  | .pages256K => 18

def kHugePageShift : Nat :=
  match c.arch with
  | .ppc64 => 24
  | _ => 21

def kPageSize : Nat := 1 <<< c.kPageShift

def kPagesPerHugePage : Nat := 1 <<< (c.kHugePageShift - c.kPageShift)

def kMaxSize : Nat :=
  match c.variant with
  | .smallButSlow => 8 <<< 10
  | _ => 256 * 1024

theorem kPageShift_lt_kHugePageShift : c.kPageShift < c.kHugePageShift := by
  cases c with
  | mk variant arch => cases variant <;> cases arch <;> decide

@[simp] theorem kPageSize_eq : c.kPageSize = 2 ^ c.kPageShift := Nat.one_shiftLeft _

@[simp] theorem kPagesPerHugePage_eq :
    c.kPagesPerHugePage = 2 ^ (c.kHugePageShift - c.kPageShift) := Nat.one_shiftLeft _

end Config

/-- The default build: 8 KiB pages on x86-64. -/
def defaultConfig : Config := ⟨.pages8K, .x86_64⟩

def kLargeSize : Nat := 1024

def EINVAL : Nat := 22

def ENOMEM : Nat := 12

/-- `absl::has_single_bit`. -/
def hasSingleBit (x : Nat) : Bool := x != 0 && x &&& (x - 1) == 0

/-- `BytesToLengthCeil`: the number of pages covering `bytes`. -/
def bytesToLengthCeil (c : Config) (bytes : Nat) : Nat :=
  (bytes >>> c.kPageShift) + if bytes &&& (c.kPageSize - 1) > 0 then 1 else 0

/-- `HLFromPages`: the number of hugepages covering `pages`. -/
def hlFromPages (c : Config) (pages : Nat) : Nat :=
  pages / c.kPagesPerHugePage + if pages % c.kPagesPerHugePage ≠ 0 then 1 else 0

/-- The tables `SizeMap::Init` builds, `class_array_` already offset for the
policy's partition: size index to size class, and size class to object size. -/
structure SizeMap where
  classArray : Nat → Nat
  classToSize : Nat → Nat
  numClasses : Nat

/-- `SizeMap::ClassIndexMaybe`. -/
def classIndexMaybe (c : Config) (s : Nat) : Option Nat :=
  if s ≤ kLargeSize then some ((s + 7) >>> 3)
  else if s ≤ c.kMaxSize then some ((s + 127 + 120 * 128) >>> 7)
  else none

/-- `SizeMap::GetSizeClass`: `none` is `{false}` (not small); otherwise the
first class at or after the size's class whose object size is a multiple of
`align`. -/
def getSizeClass (c : Config) (m : SizeMap) (align size : Nat) : Option Nat :=
  if c.kPageSize < align then none
  else
    match classIndexMaybe c size with
    | none => none
    | some idx =>
        let sizeClass := m.classArray idx
        some (firstFrom (fun k => m.classToSize k &&& (align - 1) == 0)
          (m.numClasses - sizeClass) sizeClass)

/-- What the allocator below `fast_alloc` hands out. -/
structure Env where
  sizeMap : SizeMap
  /-- The per-CPU or thread cache: the address of an object of a size class. -/
  allocate : Nat → Option Nat
  /-- `HugePageAwareAllocator::LockAndAlloc(n)`: the first page of `n` fresh pages. -/
  lockAndAlloc : Nat → Option Nat
  /-- `HugeCache::Get(hl)`: the first hugepage of `hl` fresh hugepages. -/
  cacheGet : Nat → Option Nat

/-- A `TC_CHECK` that failed, with its operands: the program aborts. -/
inductive CheckFailure
  | checkLe (lhs rhs : Nat)
  | checkGt (lhs rhs : Nat)
  deriving DecidableEq, Repr

/-- `HugePageAwareAllocator::AllocRawHugepages(n)`: the first page of the run
of hugepages covering `n` pages. -/
def allocRawHugepages (c : Config) (env : Env) (n : Nat) : Option Nat :=
  (env.cacheGet (hlFromPages c n)).map fun hp => hp * c.kPagesPerHugePage

/-- `HugePageAwareAllocator::New`. -/
def new (env : Env) (n : Nat) : Except CheckFailure (Option Nat) :=
  if 0 < n then .ok (env.lockAndAlloc n) else .error (.checkGt n 0)

/-- `HugePageAwareAllocator::NewAligned`, reached through `PageAllocator::NewAligned`. -/
def newAligned (c : Config) (env : Env) (n align : Nat) : Except CheckFailure (Option Nat) :=
  if align ≤ 1 then new env n
  else if align ≤ c.kPagesPerHugePage then .ok (allocRawHugepages c env n)
  else .error (.checkLe align c.kPagesPerHugePage)

/-- `do_malloc_pages`: the start address and byte size of the span, or `none`
for `{nullptr, 0}`. -/
def doMallocPages (c : Config) (env : Env) (align size : Nat) :
    Except CheckFailure (Option (Nat × Nat)) := do
  let numPages := max (bytesToLengthCeil c size) 1
  let span ← newAligned c env numPages (bytesToLengthCeil c align)
  return span.map fun firstPage => (firstPage <<< c.kPageShift, numPages * c.kPageSize)

/-- How an allocation ends: a pointer with its usable size, a null pointer with
the `errno` it sets, `CrashWithOOM`, or a failed `TC_CHECK`. -/
inductive Outcome
  | allocated (p n : Nat)
  | null (errno : Option Nat)
  | crashWithOom
  | checkFailure (f : CheckFailure)
  deriving DecidableEq, Repr

/-- The OOM policies of `tcmalloc_policy.h`. -/
inductive OomPolicy
  | nullOom
  | mallocOom
  | cppOom
  deriving DecidableEq, Repr

def OomPolicy.handleOom : OomPolicy → Outcome
  | .nullOom => .null none
  | .mallocOom => .null (some ENOMEM)
  | .cppOom => .crashWithOom

def slowAllocLarge (c : Config) (env : Env) (oom : OomPolicy) (align size : Nat) : Outcome :=
  match doMallocPages c env align size with
  | .error f => .checkFailure f
  | .ok none => oom.handleOom
  | .ok (some (p, n)) => .allocated p n

/-- The small-object paths of `fast_alloc`, fast or slow, without sampling. -/
def allocSmall (env : Env) (oom : OomPolicy) (sizeClass : Nat) : Outcome :=
  match env.allocate sizeClass with
  | none => oom.handleOom
  | some p => .allocated p (env.sizeMap.classToSize sizeClass)

def fastAlloc (c : Config) (env : Env) (oom : OomPolicy) (align size : Nat) : Outcome :=
  match getSizeClass c env.sizeMap align size with
  | none => slowAllocLarge c env oom align size
  | some sizeClass => allocSmall env oom sizeClass

def tcmallocInternalAlignedAlloc (c : Config) (env : Env) (align size : Nat) : Outcome :=
  if !hasSingleBit align then .null (some EINVAL)
  else fastAlloc c env .mallocOom align size

/-- `TCMallocInternalPosixMemalign`: an error code, or what was stored in
`*result_ptr` (or how the program stopped) with return code `0`. -/
def tcmallocInternalPosixMemalign (c : Config) (env : Env) (align size : Nat) :
    Except Nat Outcome :=
  if align % 8 ≠ 0 || !hasSingleBit align then .error EINVAL
  else
    match fastAlloc c env .mallocOom align size with
    | .null _ => .error ENOMEM
    | r => .ok r

def tcmallocInternalMemalign (c : Config) (env : Env) (align size : Nat) : Outcome :=
  fastAlloc c env .mallocOom align size

def tcmallocInternalNewAligned (c : Config) (env : Env) (size align : Nat) : Outcome :=
  fastAlloc c env .cppOom align size

def tcmallocInternalNewAlignedNothrow (c : Config) (env : Env) (size align : Nat) : Outcome :=
  fastAlloc c env .nullOom align size

section Pages

variable (c : Config)

theorem hasSingleBit_two_pow (k : Nat) : hasSingleBit (2 ^ k) = true := by
  have hmod : 2 ^ k &&& (2 ^ k - 1) = 0 := by
    rw [Nat.and_two_pow_sub_one_eq_mod, Nat.mod_self]
  simp [hasSingleBit, hmod]

theorem bytesToLengthCeil_two_pow (k : Nat) :
    bytesToLengthCeil c (2 ^ k) = 2 ^ (k - c.kPageShift) := by
  simp only [bytesToLengthCeil, Config.kPageSize_eq, Nat.shiftRight_eq_div_pow,
    Nat.and_two_pow_sub_one_eq_mod]
  rcases Nat.lt_or_ge k c.kPageShift with hlt | hle
  · have hpow : 2 ^ k < 2 ^ c.kPageShift := Nat.pow_lt_pow_right (by decide) hlt
    rw [Nat.div_eq_of_lt hpow, Nat.mod_eq_of_lt hpow, if_pos (Nat.two_pow_pos k),
      Nat.sub_eq_zero_of_le hlt.le]
    rfl
  · have hmod : 2 ^ k % 2 ^ c.kPageShift = 0 := Nat.mod_eq_zero_of_dvd (Nat.pow_dvd_pow 2 hle)
    rw [Nat.pow_div hle (by decide), hmod]
    rfl

theorem le_bytesToLengthCeil_mul (bytes : Nat) :
    bytes ≤ bytesToLengthCeil c bytes * c.kPageSize := by
  simp only [bytesToLengthCeil, Config.kPageSize_eq, Nat.shiftRight_eq_div_pow]
  rw [Nat.and_two_pow_sub_one_eq_mod]
  split
  · rw [Nat.add_mul, Nat.one_mul]
    exact (Nat.lt_div_mul_add (Nat.two_pow_pos _)).le
  · rename_i hmod
    rw [Nat.add_zero, Nat.div_mul_cancel (Nat.dvd_of_mod_eq_zero (by omega))]

theorem size_le_numPages_mul (size : Nat) :
    size ≤ max (bytesToLengthCeil c size) 1 * c.kPageSize :=
  le_trans (le_bytesToLengthCeil_mul c size) (Nat.mul_le_mul_right _ (le_max_left _ _))

theorem one_le_kPagesPerHugePage : 1 ≤ c.kPagesPerHugePage := by
  rw [Config.kPagesPerHugePage_eq]
  exact Nat.one_le_two_pow

end Pages

section Route

variable (c : Config) (env : Env)

theorem getSizeClass_of_kPageSize_lt (m : SizeMap) {align : Nat} (size : Nat)
    (hpage : c.kPageSize < align) : getSizeClass c m align size = none := by
  unfold getSizeClass
  rw [if_pos hpage]

theorem getSizeClass_dvd (m : SizeMap) {k size sizeClass : Nat}
    (hget : getSizeClass c m (2 ^ k) size = some sizeClass) (hin : sizeClass < m.numClasses) :
    2 ^ k ∣ m.classToSize sizeClass := by
  unfold getSizeClass at hget
  split at hget
  · cases hget
  · split at hget
    · cases hget
    · rename_i idx _
      simp only [Option.some.injEq] at hget
      subst hget
      have hstart := le_firstFrom (fun j => m.classToSize j &&& (2 ^ k - 1) == 0)
        (m.numClasses - m.classArray idx) (m.classArray idx)
      have hfound := firstFrom_spec (fun j => m.classToSize j &&& (2 ^ k - 1) == 0)
        (m.numClasses - m.classArray idx) (m.classArray idx) (by omega)
      rw [beq_iff_eq, Nat.and_two_pow_sub_one_eq_mod] at hfound
      exact Nat.dvd_of_mod_eq_zero hfound

theorem doMallocPages_of_newAligned {align size : Nat} {span : Option Nat}
    (h : newAligned c env (max (bytesToLengthCeil c size) 1) (bytesToLengthCeil c align) = .ok span) :
    doMallocPages c env align size =
      .ok (span.map fun firstPage =>
        (firstPage <<< c.kPageShift, max (bytesToLengthCeil c size) 1 * c.kPageSize)) := by
  simp only [doMallocPages, h]
  rfl

theorem doMallocPages_of_kHugePageShift_lt {k : Nat} (size : Nat) (hk : c.kHugePageShift < k) :
    doMallocPages c env (2 ^ k) size =
      .error (.checkLe (2 ^ (k - c.kPageShift)) c.kPagesPerHugePage) := by
  have hlt : c.kPagesPerHugePage < 2 ^ (k - c.kPageShift) := by
    have := c.kPageShift_lt_kHugePageShift
    rw [Config.kPagesPerHugePage_eq]
    exact Nat.pow_lt_pow_right (by decide) (by omega)
  have hone : ¬ 2 ^ (k - c.kPageShift) ≤ 1 := by
    have := one_le_kPagesPerHugePage c
    omega
  simp only [doMallocPages, bytesToLengthCeil_two_pow, newAligned, if_neg hone,
    if_neg (Nat.not_le.mpr hlt)]
  rfl

theorem doMallocPages_aligned {k : Nat} (size : Nat) (hk : k ≤ c.kHugePageShift) :
    ∃ r, doMallocPages c env (2 ^ k) size = .ok r ∧
      ∀ p n, r = some (p, n) → 2 ^ k ∣ p ∧ size ≤ n := by
  have hcover := size_le_numPages_mul c size
  by_cases hpage : k ≤ c.kPageShift
  · have hnew : newAligned c env (max (bytesToLengthCeil c size) 1) (bytesToLengthCeil c (2 ^ k)) =
        .ok (env.lockAndAlloc (max (bytesToLengthCeil c size) 1)) := by
      rw [bytesToLengthCeil_two_pow, Nat.sub_eq_zero_of_le hpage]
      simp [newAligned, new]
    refine ⟨_, doMallocPages_of_newAligned c env hnew, ?_⟩
    intro p n hsome
    obtain ⟨firstPage, -, hpn⟩ := Option.map_eq_some_iff.mp hsome
    simp only [Prod.mk.injEq] at hpn
    obtain ⟨rfl, rfl⟩ := hpn
    refine ⟨?_, hcover⟩
    rw [Nat.shiftLeft_eq]
    exact Nat.dvd_trans (Nat.pow_dvd_pow 2 hpage) (Nat.dvd_mul_left _ _)
  · have hnew : newAligned c env (max (bytesToLengthCeil c size) 1) (bytesToLengthCeil c (2 ^ k)) =
        .ok (allocRawHugepages c env (max (bytesToLengthCeil c size) 1)) := by
      have hgt : ¬ 2 ^ (k - c.kPageShift) ≤ 1 := by
        have : 2 ^ 0 < 2 ^ (k - c.kPageShift) := Nat.pow_lt_pow_right (by decide) (by omega)
        simpa using this
      have hle : 2 ^ (k - c.kPageShift) ≤ c.kPagesPerHugePage := by
        rw [Config.kPagesPerHugePage_eq]
        exact Nat.pow_le_pow_right (by decide) (by omega)
      rw [bytesToLengthCeil_two_pow]
      simp only [newAligned, if_neg hgt, if_pos hle]
    refine ⟨_, doMallocPages_of_newAligned c env hnew, ?_⟩
    intro p n hsome
    obtain ⟨firstPage, hraw, hpn⟩ := Option.map_eq_some_iff.mp hsome
    obtain ⟨hp, -, rfl⟩ := Option.map_eq_some_iff.mp hraw
    simp only [Prod.mk.injEq] at hpn
    obtain ⟨rfl, rfl⟩ := hpn
    refine ⟨?_, hcover⟩
    have hhuge : (hp * c.kPagesPerHugePage) <<< c.kPageShift = hp * 2 ^ c.kHugePageShift := by
      have := c.kPageShift_lt_kHugePageShift
      rw [Nat.shiftLeft_eq, Config.kPagesPerHugePage_eq, Nat.mul_assoc, ← Nat.pow_add,
        Nat.sub_add_cancel this.le]
    rw [hhuge]
    exact Nat.dvd_trans (Nat.pow_dvd_pow 2 hk) (Nat.dvd_mul_left _ _)

end Route

section Outcome

variable (c : Config) (env : Env) (oom : OomPolicy)

theorem handleOom_ne_checkFailure (f : CheckFailure) : oom.handleOom ≠ .checkFailure f := by
  cases oom <;> simp [OomPolicy.handleOom]

theorem handleOom_ne_allocated (p n : Nat) : oom.handleOom ≠ .allocated p n := by
  cases oom <;> simp [OomPolicy.handleOom]

theorem allocSmall_ne_checkFailure (sizeClass : Nat) (f : CheckFailure) :
    allocSmall env oom sizeClass ≠ .checkFailure f := by
  unfold allocSmall
  split
  · exact handleOom_ne_checkFailure oom f
  · simp

theorem slowAllocLarge_of_le {k : Nat} (size : Nat) (hk : k ≤ c.kHugePageShift) :
    (∀ f, slowAllocLarge c env oom (2 ^ k) size ≠ .checkFailure f) ∧
      ∀ p n, slowAllocLarge c env oom (2 ^ k) size = .allocated p n → 2 ^ k ∣ p ∧ size ≤ n := by
  obtain ⟨r, hr, haligned⟩ := doMallocPages_aligned c env size hk
  unfold slowAllocLarge
  rw [hr]
  cases r with
  | none => exact ⟨handleOom_ne_checkFailure oom, fun p n h => absurd h (handleOom_ne_allocated oom p n)⟩
  | some pn =>
      obtain ⟨p, n⟩ := pn
      refine ⟨fun f => by simp, fun p' n' h => ?_⟩
      simp only [Outcome.allocated.injEq] at h
      obtain ⟨rfl, rfl⟩ := h
      exact haligned p n rfl

theorem fastAlloc_of_kHugePageShift_lt {k : Nat} (size : Nat) (hk : c.kHugePageShift < k) :
    fastAlloc c env oom (2 ^ k) size =
      .checkFailure (.checkLe (2 ^ (k - c.kPageShift)) c.kPagesPerHugePage) := by
  have hpage : c.kPageSize < 2 ^ k := by
    have := c.kPageShift_lt_kHugePageShift
    rw [Config.kPageSize_eq]
    exact Nat.pow_lt_pow_right (by decide) (by omega)
  simp only [fastAlloc, getSizeClass_of_kPageSize_lt c _ size hpage, slowAllocLarge,
    doMallocPages_of_kHugePageShift_lt c env size hk]

theorem fastAlloc_eq_checkFailure_iff (k size : Nat) (f : CheckFailure) :
    fastAlloc c env oom (2 ^ k) size = .checkFailure f ↔
      c.kHugePageShift < k ∧ f = .checkLe (2 ^ (k - c.kPageShift)) c.kPagesPerHugePage := by
  by_cases hk : c.kHugePageShift < k
  · rw [fastAlloc_of_kHugePageShift_lt c env oom size hk]
    simp only [Outcome.checkFailure.injEq, true_and, hk]
    exact eq_comm
  · simp only [hk, false_and, iff_false]
    unfold fastAlloc
    split
    · exact (slowAllocLarge_of_le c env oom size (Nat.le_of_not_lt hk)).1 f
    · exact allocSmall_ne_checkFailure env oom _ f

/-- A page allocator that hands out hugepage 3 and page 5, and no small objects. -/
def pageAllocEnv : Env := ⟨⟨fun _ => 0, fun _ => 0, 0⟩, fun _ => none, fun _ => some 5, fun _ => some 3⟩

theorem alignedEntryPoints_of_kHugePageShift_lt (k size : Nat) (hk : c.kHugePageShift < k) :
    tcmallocInternalAlignedAlloc c env (2 ^ k) size =
        .checkFailure (.checkLe (2 ^ (k - c.kPageShift)) c.kPagesPerHugePage) ∧
      tcmallocInternalPosixMemalign c env (2 ^ k) size =
        .ok (.checkFailure (.checkLe (2 ^ (k - c.kPageShift)) c.kPagesPerHugePage)) ∧
      tcmallocInternalMemalign c env (2 ^ k) size =
        .checkFailure (.checkLe (2 ^ (k - c.kPageShift)) c.kPagesPerHugePage) ∧
      tcmallocInternalNewAligned c env size (2 ^ k) =
        .checkFailure (.checkLe (2 ^ (k - c.kPageShift)) c.kPagesPerHugePage) ∧
      tcmallocInternalNewAlignedNothrow c env size (2 ^ k) =
        .checkFailure (.checkLe (2 ^ (k - c.kPageShift)) c.kPagesPerHugePage) := by
  have hfast := fun oom => fastAlloc_of_kHugePageShift_lt c env oom size hk
  have hbit := hasSingleBit_two_pow k
  have hmod : 2 ^ k % 8 = 0 := by
    have : 21 ≤ c.kHugePageShift := by
      unfold Config.kHugePageShift
      split <;> decide
    have h3 : (2 : Nat) ^ 3 ∣ 2 ^ k := Nat.pow_dvd_pow 2 (by omega)
    exact Nat.mod_eq_zero_of_dvd h3
  refine ⟨?_, ?_, hfast _, hfast _, hfast _⟩
  · simp only [tcmallocInternalAlignedAlloc, hbit, hfast]
    rfl
  · simp only [tcmallocInternalPosixMemalign, hmod, hbit, hfast]
    rfl

/-- On the default x86-64 build `aligned_alloc(4 MiB, size)`, and with it every
aligned entry point, aborts on `TC_CHECK_LE(512, 256)` for every size, where
its DR 460 comment and the reference promise a null pointer for an alignment
the implementation does not support. -/
theorem alignedAlloc_aborts_at_4MiB_alignment (env : Env) (size : Nat) :
    tcmallocInternalAlignedAlloc defaultConfig env (2 ^ 22) size = .checkFailure (.checkLe 512 256) ∧
      tcmallocInternalPosixMemalign defaultConfig env (2 ^ 22) size =
        .ok (.checkFailure (.checkLe 512 256)) ∧
      tcmallocInternalMemalign defaultConfig env (2 ^ 22) size = .checkFailure (.checkLe 512 256) ∧
      tcmallocInternalNewAligned defaultConfig env size (2 ^ 22) = .checkFailure (.checkLe 512 256) ∧
      tcmallocInternalNewAlignedNothrow defaultConfig env size (2 ^ 22) =
        .checkFailure (.checkLe 512 256) :=
  alignedEntryPoints_of_kHugePageShift_lt defaultConfig env 22 size (by decide)

end Outcome

end TCMalloc.AlignedAlloc
