import TCMalloc.PageMap.Leaf
import TCMalloc.Lib.Run

/-!
`PageMap2<BITS, Allocator>`, the two-level radix tree of `pagemap.h`: a root
array of `2 ^ kRootBits` leaf pointers, each leaf mapping `2 ^ 15` pages.  Its
root is itself a `LeafTable`, so each write is shown to be one of the leaf
updates of `Leaf.lean`, and over every run of calls from the empty map the tree
holds the flat map the calls describe (`rep_of_run`).  The allocator is an
answer per root index, whether `Allocator(sizeof(Leaf))` returns memory during
that `Ensure`; a failed `TC_ASSERT` and a dereferenced null leaf are `none`.
-/

set_option autoImplicit false
set_option relaxedAutoImplicit false

namespace TCMalloc.PageMap

open TCMalloc.Lib TCMalloc.Lib.Radix

/-- `PageMap2`: `root_` and `bytes_used_`. -/
structure PageMap2 where
  root : Nat → Option Leaf
  bytesUsed : Nat

namespace PageMap2

/-- `kLeafBits`: a leaf maps `2 ^ 15` pages whatever the pointer size. -/
def kLeafBits : Nat := 15

def kLeafLength : Nat := 1 <<< kLeafBits

/-- The template argument `BITS` and the page configuration a `PageMap2` is built with. -/
structure Params where
  BITS : Nat
  kPageShift : Nat
  kHugePageShift : Nat
  compactBits : Nat
  /-- `static_assert(kLeafCoveredBytes >= kHugePageSize, "leaf too small")` -/
  leaf_covers : kHugePageShift ≤ kLeafBits + kPageShift

variable (P : Params)

def Params.layout : Layout := ⟨P.BITS, kLeafBits, P.kPageShift, P.kHugePageShift, P.compactBits, P.leaf_covers⟩

def kRootBits : Nat := if P.BITS ≥ kLeafBits then P.BITS - kLeafBits else 0

def kRootLength : Nat := 1 <<< kRootBits P

def kLeafHugeBits : Nat := kLeafBits + P.kPageShift - P.kHugePageShift

/-- `sizeof(Leaf)`: `kLeafLength` size classes of `compactBits / 8` bytes, as many
packed words and `2 ^ kLeafHugeBits` hugepage pointers of 8 bytes. -/
def sizeofLeaf : Nat := kLeafLength * (P.compactBits / 8) + kLeafLength * 8 + (1 <<< kLeafHugeBits P) * 8

/-- `PageMap2()`: every leaf missing. -/
def init : PageMap2 := ⟨fun _ => none, 0⟩

/-- `get(k)`. -/
def get (m : PageMap2) (k : Nat) : Nat :=
  let i1 := k >>> kLeafBits
  let i2 := k &&& (kLeafLength - 1)
  if k >>> P.BITS > 0 then 0
  else
    match m.root i1 with
    | none => 0
    | some leaf => leaf.span i2

/-- The two outer loops of `get_next_set_page`, over `n` leaves from slot `i2` of
leaf `i1`. -/
def nextSetPageFrom (m : PageMap2) : (n i1 i2 : Nat) → Option Nat
  | 0, _, _ => none
  | n + 1, i1, i2 =>
      match m.root i1 with
      | none => nextSetPageFrom m n (i1 + 1) 0
      | some leaf =>
          match leaf.firstSetSlot kLeafLength i2 with
          | some j => some ((i1 <<< kLeafBits) ||| j)
          | none => nextSetPageFrom m n (i1 + 1) 0

/-- `get_next_set_page(k)`; `k + 1` wraps as a `uintptr_t`. -/
def getNextSetPage (m : PageMap2) (k : Nat) : Option Nat :=
  let nextK := (k + 1) % 2 ^ 64
  let i1 := nextK >>> kLeafBits
  let i2 := nextK &&& (kLeafLength - 1)
  nextSetPageFrom m (kRootLength P - i1) i1 i2

/-- `get_existing_with_sizeclass<check_bounds>(k)`. -/
def getExistingWithSizeclass (checkBounds : Bool) (m : PageMap2) (k : Nat) : Option (Nat × Nat) :=
  let i1 := k >>> kLeafBits
  let i2 := k &&& (kLeafLength - 1)
  if checkBounds && (k >>> P.BITS > 0 || (m.root i1).isNone) then some (0, 0)
  else if k >>> P.BITS ≠ 0 then none
  else
    match m.root i1 with
    | none => none
    | some leaf => some ((leaf.spanAndSizeclass i2).span, (leaf.spanAndSizeclass i2).sizeclass P.compactBits)

/-- `get_existing(k)`. -/
def getExisting (m : PageMap2) (k : Nat) : Option Nat :=
  let i1 := k >>> kLeafBits
  let i2 := k &&& (kLeafLength - 1)
  if k >>> P.BITS ≠ 0 then none
  else
    match m.root i1 with
    | none => none
    | some leaf => some (leaf.span i2)

/-- `sizeclass(k)`, with its `TC_ASSERT_EQ` that the packed copy agrees. -/
def sizeclass (m : PageMap2) (k : Nat) : Option Nat :=
  let i1 := k >>> kLeafBits
  if k >>> P.BITS > 0 then some 0
  else
    match m.root i1 with
    | none => some 0
    | some leaf =>
        let i2 := k &&& (kLeafLength - 1)
        let ret := leaf.sizeclass i2
        if ret = (leaf.spanAndSizeclass i2).sizeclass P.compactBits then some ret else none

/-- `set(k, s)`, whose `TC_ASSERT_EQ(leaf->sizeclass[i2], 0)` expects the page
unregistered. -/
def set (m : PageMap2) (k s : Nat) : Option PageMap2 :=
  if k >>> P.BITS ≠ 0 then none
  else
    let i1 := k >>> kLeafBits
    let i2 := k &&& (kLeafLength - 1)
    match m.root i1 with
    | none => none
    | some leaf =>
        if leaf.sizeclass i2 ≠ 0 then none
        else some { m with root := Function.update m.root i1 (some (leaf.setSpanAndSizeclass i2 s 0)) }

/-- `set_with_sizeclass(k, s, sc)`. -/
def setWithSizeclass (m : PageMap2) (k s sc : Nat) : Option PageMap2 :=
  if k >>> P.BITS ≠ 0 then none
  else
    let i1 := k >>> kLeafBits
    let i2 := k &&& (kLeafLength - 1)
    match m.root i1 with
    | none => none
    | some leaf =>
        some { m with root := Function.update m.root i1 (some ((leaf.setSpanAndSizeclass i2 s sc).setSizeclass i2 sc)) }

/-- `clear_sizeclass(k)`: the `sizeclass` array only. -/
def clearSizeclass (m : PageMap2) (k : Nat) : Option PageMap2 :=
  if k >>> P.BITS ≠ 0 then none
  else
    let i1 := k >>> kLeafBits
    let i2 := k &&& (kLeafLength - 1)
    match m.root i1 with
    | none => none
    | some leaf => some { m with root := Function.update m.root i1 (some (leaf.setSizeclass i2 0)) }

/-- `get_hugepage(k)`. -/
def getHugepage (m : PageMap2) (k : Nat) : Option Nat :=
  if k >>> P.BITS ≠ 0 then none
  else
    let i1 := k >>> kLeafBits
    let i2 := k &&& (kLeafLength - 1)
    match m.root i1 with
    | none => none
    | some leaf => some (leaf.hugepage (i2 >>> (kLeafBits - kLeafHugeBits P)))

/-- `set_hugepage(k, v)`. -/
def setHugepage (m : PageMap2) (k v : Nat) : Option PageMap2 :=
  if k >>> P.BITS ≠ 0 then none
  else
    let i1 := k >>> kLeafBits
    let i2 := k &&& (kLeafLength - 1)
    match m.root i1 with
    | none => none
    | some leaf =>
        some { m with root := Function.update m.root i1 (some (leaf.setHugepage (i2 >>> (kLeafBits - kLeafHugeBits P)) v)) }

/-- "Make 2nd level node if necessary": `none` when the allocator returns `nullptr`. -/
def makeLeaf (allocLeaf : Nat → Bool) (m : PageMap2) (i1 : Nat) : Option PageMap2 :=
  match m.root i1 with
  | some _ => some m
  | none =>
      if allocLeaf i1 then some ⟨Function.update m.root i1 (some Leaf.zero), m.bytesUsed + sizeofLeaf P⟩
      else none

/-- The loop of `Ensure` from `key` over the keys up to `last`.  `key` cannot wrap:
it stays at most `kRootLength << kLeafBits`. -/
def ensureLoop (allocLeaf : Nat → Bool) (last : Nat) (m : PageMap2) (key : Nat) : Bool × PageMap2 :=
  if key ≤ last then
    let i1 := key >>> kLeafBits
    if kRootLength P ≤ i1 then (false, m)
    else
      match makeLeaf P allocLeaf m i1 with
      | none => (false, m)
      | some m' => ensureLoop allocLeaf last m' (((key >>> kLeafBits) + 1) <<< kLeafBits)
  else (true, m)
termination_by last + 1 - key
decreasing_by
  have := lt_nextIndex key kLeafBits
  omega

/-- `Ensure(start, n)`, with `allocLeaf i1` whether the leaf of `i1` can be
allocated; `start + n - 1` wraps as a `uintptr_t`, and `none` is a failed
`TC_ASSERT_GT(n, 0)`. -/
def ensure (allocLeaf : Nat → Bool) (m : PageMap2) (start n : Nat) : Option (Bool × PageMap2) :=
  if n = 0 then none
  else some (ensureLoop P allocLeaf ((start + n - 1) % 2 ^ 64) m start)

/-- One call on the map. -/
def step (m : PageMap2) : Call (Nat → Bool) → Option PageMap2
  | .ensure start n allocLeaf => (ensure P allocLeaf m start n).map (·.2)
  | .set k s => set P m k s
  | .setWithSizeclass k s sc => setWithSizeclass P m k s sc
  | .clearSizeclass k => clearSizeclass P m k
  | .setHugepage k v => setHugepage P m k v

/-- The calls store span pointers and size classes of the types the code has. -/
def Allowed (_ : PageMap2) (c : Call (Nat → Bool)) : Prop := c.Stores P.compactBits

/-- Page `k` lies below `2 ^ BITS` and its leaf is allocated. -/
def backed (m : PageMap2) (k : Nat) : Bool := k >>> P.BITS == 0 && (m.root (k >>> kLeafBits)).isSome

@[simp] theorem layout_BITS : P.layout.BITS = P.BITS := rfl
@[simp] theorem layout_kLeafBits : P.layout.kLeafBits = kLeafBits := rfl
@[simp] theorem layout_kLeafLength : P.layout.kLeafLength = kLeafLength := rfl
@[simp] theorem layout_kLeafHugeBits : P.layout.kLeafHugeBits = kLeafHugeBits P := rfl
@[simp] theorem layout_compactBits : P.layout.compactBits = P.compactBits := rfl

/-! ### Each write is a leaf update -/

variable {P} {m m' : PageMap2} {k : Nat}

theorem set_eq_some {s : Nat} (h : set P m k s = some m') :
    ∃ leaf, k < 2 ^ P.BITS ∧ m.root (k >>> kLeafBits) = some leaf ∧
      m'.root = Function.update m.root (k >>> kLeafBits)
        (some (leaf.setSpanAndSizeclass (k &&& (kLeafLength - 1)) s 0)) := by
  simp only [set] at h
  split at h
  · cases h
  · rename_i hk
    split at h
    · cases h
    · rename_i leaf hleaf
      split at h
      · cases h
      · cases h
        exact ⟨leaf, shiftRight_eq_zero_iff.mp (not_not.mp hk), hleaf, rfl⟩

theorem setWithSizeclass_eq_some {s sc : Nat} (h : setWithSizeclass P m k s sc = some m') :
    ∃ leaf, k < 2 ^ P.BITS ∧ m.root (k >>> kLeafBits) = some leaf ∧
      m'.root = Function.update m.root (k >>> kLeafBits)
        (some ((leaf.setSpanAndSizeclass (k &&& (kLeafLength - 1)) s sc).setSizeclass (k &&& (kLeafLength - 1)) sc)) := by
  simp only [setWithSizeclass] at h
  split at h
  · cases h
  · rename_i hk
    split at h
    · cases h
    · rename_i leaf hleaf
      cases h
      exact ⟨leaf, shiftRight_eq_zero_iff.mp (not_not.mp hk), hleaf, rfl⟩

theorem clearSizeclass_eq_some (h : clearSizeclass P m k = some m') :
    ∃ leaf, k < 2 ^ P.BITS ∧ m.root (k >>> kLeafBits) = some leaf ∧
      m'.root = Function.update m.root (k >>> kLeafBits) (some (leaf.setSizeclass (k &&& (kLeafLength - 1)) 0)) := by
  simp only [clearSizeclass] at h
  split at h
  · cases h
  · rename_i hk
    split at h
    · cases h
    · rename_i leaf hleaf
      cases h
      exact ⟨leaf, shiftRight_eq_zero_iff.mp (not_not.mp hk), hleaf, rfl⟩

theorem exists_setWithSizeclass (hb : backed P m k = true) (s sc : Nat) :
    ∃ m', setWithSizeclass P m k s sc = some m' := by
  simp only [backed, Bool.and_eq_true, beq_iff_eq, Option.isSome_iff_exists] at hb
  obtain ⟨hk, leaf, hleaf⟩ := hb
  simp only [setWithSizeclass, hk, ne_eq, not_true_eq_false, if_false, hleaf]
  exact ⟨_, rfl⟩

theorem exists_clearSizeclass (hb : backed P m k = true) : ∃ m', clearSizeclass P m k = some m' := by
  simp only [backed, Bool.and_eq_true, beq_iff_eq, Option.isSome_iff_exists] at hb
  obtain ⟨hk, leaf, hleaf⟩ := hb
  simp only [clearSizeclass, hk, ne_eq, not_true_eq_false, if_false, hleaf]
  exact ⟨_, rfl⟩

theorem setHugepage_eq_some {v : Nat} (h : setHugepage P m k v = some m') :
    ∃ leaf, m.root (k >>> kLeafBits) = some leaf ∧
      m'.root = Function.update m.root (k >>> kLeafBits)
        (some (leaf.setHugepage ((k &&& (kLeafLength - 1)) >>> (kLeafBits - kLeafHugeBits P)) v)) := by
  simp only [setHugepage] at h
  split at h
  · cases h
  · split at h
    · cases h
    · rename_i leaf hleaf
      cases h
      exact ⟨leaf, hleaf, rfl⟩

theorem makeLeaf_eq_some {allocLeaf : Nat → Bool} {i1 : Nat} (h : makeLeaf P allocLeaf m i1 = some m') :
    AddsLeaves m.root m'.root ∧ (m'.root i1).isSome := by
  simp only [makeLeaf] at h
  split at h
  · rename_i leaf hleaf
    cases h
    exact ⟨addsLeaves_refl _, by rw [hleaf]; rfl⟩
  · rename_i hnone
    split at h
    · cases h
      exact ⟨addsLeaves_update hnone, by simp⟩
    · cases h

variable (P) in
theorem ensureLoop_spec (allocLeaf : Nat → Bool) (last : Nat) (m : PageMap2) (key : Nat) :
    AddsLeaves m.root (ensureLoop P allocLeaf last m key).2.root ∧
      ((ensureLoop P allocLeaf last m key).1 = true →
        ∀ k, key ≤ k → k ≤ last → ((ensureLoop P allocLeaf last m key).2.root (k >>> kLeafBits)).isSome) := by
  fun_induction ensureLoop P allocLeaf last m key with
  | case1 m key hle i1 hover =>
      exact ⟨addsLeaves_refl _, fun h => by cases h⟩
  | case2 m key hle i1 hover hmake =>
      exact ⟨addsLeaves_refl _, fun h => by cases h⟩
  | case3 m key hle i1 hover m' hmake ih =>
      obtain ⟨hadds, hsome⟩ := makeLeaf_eq_some hmake
      obtain ⟨ihadds, ihtrue⟩ := ih
      refine ⟨hadds.trans ihadds, fun htrue k hk hkl => ?_⟩
      by_cases hnext : ((key >>> kLeafBits) + 1) <<< kLeafBits ≤ k
      · exact ihtrue htrue k hnext hkl
      · -- `k` lies in the leaf of `key`, allocated in this round
        have hlow : (key >>> kLeafBits) * 2 ^ kLeafBits ≤ k := by
          have := shiftRight_mul_add_and key kLeafBits
          omega
        have hhigh : k < (key >>> kLeafBits + 1) * 2 ^ kLeafBits := by
          rw [Nat.shiftLeft_eq] at hnext
          omega
        have hleaf : k >>> kLeafBits = key >>> kLeafBits := shiftRight_eq_iff.mpr ⟨hlow, hhigh⟩
        rw [hleaf]
        exact ihadds.isSome hsome
  | case4 m key hgt =>
      exact ⟨addsLeaves_refl _, fun _ k hk hkl => by omega⟩

variable (P) in
theorem ensureLoop_true (allocLeaf : Nat → Bool) (halloc : ∀ i, allocLeaf i = true) (last : Nat)
    (hlast : last < kRootLength P * 2 ^ kLeafBits) (m : PageMap2) (key : Nat) :
    (ensureLoop P allocLeaf last m key).1 = true := by
  fun_induction ensureLoop P allocLeaf last m key with
  | case1 m key hle i1 hover =>
      have hi1 : i1 < kRootLength P := by
        apply Nat.lt_of_le_of_lt (shiftRight_mono hle)
        exact shiftRight_lt_iff.mpr hlast
      omega
  | case2 m key hle i1 hover hmake =>
      simp only [makeLeaf, halloc, if_true] at hmake
      split at hmake <;> cases hmake
  | case3 m key hle i1 hover m' hmake ih => exact ih
  | case4 m key hgt => rfl

theorem ensure_eq_some {allocLeaf : Nat → Bool} {start n : Nat} {b : Bool}
    (h : ensure P allocLeaf m start n = some (b, m')) :
    0 < n ∧ ensureLoop P allocLeaf ((start + n - 1) % 2 ^ 64) m start = (b, m') := by
  simp only [ensure] at h
  split at h
  · cases h
  · rename_i hn
    exact ⟨Nat.pos_of_ne_zero hn, Option.some.inj h⟩

theorem ensure_backs {allocLeaf : Nat → Bool} {start n : Nat} (h : ensure P allocLeaf m start n = some (true, m'))
    (hfit : start + n ≤ 2 ^ 64) (k : Nat) (hlo : start ≤ k) (hhi : k < start + n) :
    (m'.root (k >>> kLeafBits)).isSome := by
  obtain ⟨hn, hloop⟩ := ensure_eq_some h
  have hlast : (start + n - 1) % 2 ^ 64 = start + n - 1 := Nat.mod_eq_of_lt (by omega)
  have hspec := (ensureLoop_spec P allocLeaf ((start + n - 1) % 2 ^ 64) m start).2
  rw [hloop] at hspec
  exact hspec rfl k hlo (by omega)

theorem pow_BITS_le_kRootLength_mul : 2 ^ P.BITS ≤ kRootLength P * 2 ^ kLeafBits := by
  rw [kRootLength, kRootBits, Nat.one_shiftLeft]
  split
  · rename_i hge
    rw [← Nat.pow_add, Nat.sub_add_cancel hge]
  · rename_i hlt
    rw [Nat.pow_zero, Nat.one_mul]
    exact Nat.pow_le_pow_right (by decide) (by omega)

theorem ensure_true {allocLeaf : Nat → Bool} (halloc : ∀ i, allocLeaf i = true) {start n : Nat}
    (hn : 0 < n) (hfit : start + n ≤ 2 ^ 64) (hroot : start + n ≤ kRootLength P * 2 ^ kLeafBits) :
    (ensure P allocLeaf m start n).map Prod.fst = some true := by
  have hlast : (start + n - 1) % 2 ^ 64 = start + n - 1 := Nat.mod_eq_of_lt (by omega)
  simp only [ensure, Nat.ne_of_gt hn, if_false, Option.map_some, hlast]
  rw [ensureLoop_true P allocLeaf halloc (start + n - 1) (by omega)]

variable (P) in
theorem exists_ensure_true {allocLeaf : Nat → Bool} (halloc : ∀ i, allocLeaf i = true) (m : PageMap2)
    {start n : Nat} (hn : 0 < n) (hfit : start + n ≤ 2 ^ 64) (hroot : start + n ≤ kRootLength P * 2 ^ kLeafBits) :
    ∃ m', ensure P allocLeaf m start n = some (true, m') := by
  have htrue := ensure_true (m := m) halloc hn hfit hroot
  cases hens : ensure P allocLeaf m start n with
  | none =>
      rw [hens] at htrue
      cases htrue
  | some r =>
      obtain ⟨b, m'⟩ := r
      rw [hens, Option.map_some, Option.some.injEq] at htrue
      subst htrue
      exact ⟨m', rfl⟩

/-! ### The tree holds the flat map -/

variable {s : PageMapSpec}

theorem rep_step (rep : Rep P.layout m.root s) {c : Call (Nat → Bool)} (hok : Allowed P m c)
    (hstep : step P m c = some m') : Rep P.layout m'.root (PageMapSpec.step P.layout.hugepageShift s c) := by
  cases c with
  | ensure start n allocLeaf =>
      simp only [PageMap2.step, Option.map_eq_some_iff] at hstep
      obtain ⟨⟨b, m''⟩, hensure, rfl⟩ := hstep
      obtain ⟨-, hloop⟩ := ensure_eq_some hensure
      have hadds := (ensureLoop_spec P allocLeaf ((start + n - 1) % 2 ^ 64) m start).1
      rw [hloop] at hadds
      exact rep.of_addsLeaves hadds
  | set k span =>
      obtain ⟨leaf, hk, hleaf, hroot⟩ := set_eq_some hstep
      rw [hroot]
      exact rep.setSpanAndSizeclass hleaf hk hok (Nat.two_pow_pos _)
  | setWithSizeclass k span sc =>
      obtain ⟨leaf, hk, hleaf, hroot⟩ := setWithSizeclass_eq_some hstep
      have hspan := rep.setSpanAndSizeclass hleaf hk hok.1 hok.2
      have hboth := hspan.setSizeclass (Function.update_self ..) hk sc
      rw [Function.update_idem] at hboth
      rw [hroot]
      exact hboth
  | clearSizeclass k =>
      obtain ⟨leaf, hk, hleaf, hroot⟩ := clearSizeclass_eq_some hstep
      rw [hroot]
      exact rep.setSizeclass hleaf hk 0
  | setHugepage k v =>
      obtain ⟨leaf, hleaf, hroot⟩ := setHugepage_eq_some hstep
      rw [hroot]
      exact rep.setHugepage hleaf v

theorem rep_of_run {calls : List (Call (Nat → Bool))} (run : Run (step P) (Allowed P) (init) calls m) :
    Rep P.layout m.root (calls.foldl (PageMapSpec.step P.layout.hugepageShift) PageMapSpec.empty) :=
  Run.invariant_fold (fun m s => Rep P.layout m.root s) _ (fun _ _ _ _ rep hok hstep => rep_step rep hok hstep)
    run rep_empty

/-! ### What the tree answers -/

theorem leaf_entries (rep : Rep P.layout m.root s) {leaf : Leaf} (hleaf : m.root (k >>> kLeafBits) = some leaf) :
    (leaf.spanAndSizeclass (k &&& (kLeafLength - 1))).span = s.span k ∧
      (leaf.spanAndSizeclass (k &&& (kLeafLength - 1))).sizeclass P.compactBits = s.spanSizeclass k ∧
      leaf.sizeclass (k &&& (kLeafLength - 1)) = s.sizeclass k ∧
      leaf.hugepage ((k &&& (kLeafLength - 1)) >>> (kLeafBits - kLeafHugeBits P)) =
        s.hugepage (k >>> P.layout.hugepageShift) := by
  have hspan := rep.spanAt k
  have hsc := rep.packedSizeclass k
  have hsizeclass := rep.sizeclass k
  have hhuge := rep.hugepage k
  simp only [PageMap.spanAt, packedAt, sizeclassAt, hugepageAt, layout_kLeafBits, layout_kLeafLength,
    layout_kLeafHugeBits, layout_compactBits, hleaf] at hspan hsc hsizeclass hhuge
  exact ⟨hspan, hsc, hsizeclass, hhuge⟩

theorem high_of_shiftRight_ne (rep : Rep P.layout m.root s) (hk : k >>> P.BITS ≠ 0) :
    s.span k = 0 ∧ s.spanSizeclass k = 0 ∧ s.sizeclass k = 0 :=
  rep.high k (Nat.not_lt.mp fun h => hk (shiftRight_eq_zero_iff.mpr h))

variable (P) in
theorem get_of_pow_BITS_le (m : PageMap2) (hk : 2 ^ P.BITS ≤ k) : get P m k = 0 := by
  have hpos : k >>> P.BITS > 0 :=
    Nat.pos_of_ne_zero fun h => absurd (shiftRight_eq_zero_iff.mp h) (Nat.not_lt.mpr hk)
  simp only [get, hpos, if_true]

theorem get_eq (rep : Rep P.layout m.root s) (k : Nat) : get P m k = s.span k := by
  simp only [PageMap2.get]
  split
  · rename_i hk
    exact (high_of_shiftRight_ne rep (Nat.pos_iff_ne_zero.mp hk)).1.symm
  · split
    · rename_i hnone
      exact (rep.of_missing hnone).1.symm
    · rename_i leaf hleaf
      exact (leaf_entries rep hleaf).1

theorem getExisting_eq (rep : Rep P.layout m.root s) (k : Nat) :
    getExisting P m k = if backed P m k then some (s.span k) else none := by
  simp only [PageMap2.getExisting, backed]
  by_cases hk : k >>> P.BITS = 0
  · rw [if_neg (not_not.mpr hk)]
    split
    · rename_i hnone
      simp [hnone]
    · rename_i leaf hleaf
      simp only [hk, hleaf, beq_self_eq_true, Option.isSome_some, Bool.and_self, if_true]
      exact congrArg some (leaf_entries rep hleaf).1
  · simp [hk]

theorem getExistingWithSizeclass_true_eq (rep : Rep P.layout m.root s) (k : Nat) :
    getExistingWithSizeclass P true m k = some (s.span k, s.spanSizeclass k) := by
  simp only [PageMap2.getExistingWithSizeclass, Bool.true_and]
  by_cases hk : k >>> P.BITS = 0
  · cases hroot : m.root (k >>> kLeafBits) with
    | none =>
        obtain ⟨hspan, hsc, -⟩ := rep.of_missing hroot
        simp [hspan, hsc]
    | some leaf =>
        obtain ⟨hspan, hsc, -⟩ := leaf_entries rep hroot
        simp [hk, hspan, hsc]
  · obtain ⟨hspan, hsc, -⟩ := high_of_shiftRight_ne rep hk
    simp [Nat.pos_of_ne_zero hk, hspan, hsc]

theorem getExistingWithSizeclass_false_eq (rep : Rep P.layout m.root s) (k : Nat) :
    getExistingWithSizeclass P false m k = if backed P m k then some (s.span k, s.spanSizeclass k) else none := by
  simp only [PageMap2.getExistingWithSizeclass, Bool.false_and, Bool.false_eq_true, if_false, backed]
  by_cases hk : k >>> P.BITS = 0
  · rw [if_neg (not_not.mpr hk)]
    split
    · rename_i hnone
      simp [hnone]
    · rename_i leaf hleaf
      obtain ⟨hspan, hsc, -⟩ := leaf_entries rep hleaf
      simp [hk, hleaf, hspan, hsc]
  · simp [hk]

theorem sizeclass_eq (rep : Rep P.layout m.root s) (k : Nat) : sizeclass P m k = s.sizeclassAnswer k := by
  simp only [PageMap2.sizeclass, PageMapSpec.sizeclassAnswer]
  split
  · rename_i hk
    obtain ⟨-, hsc, hsizeclass⟩ := high_of_shiftRight_ne rep (Nat.pos_iff_ne_zero.mp hk)
    simp [hsc, hsizeclass]
  · split
    · rename_i hnone
      obtain ⟨-, hsc, hsizeclass, -⟩ := rep.of_missing hnone
      simp [hsc, hsizeclass]
    · rename_i leaf hleaf
      obtain ⟨-, hsc, hsizeclass, -⟩ := leaf_entries rep hleaf
      simp only [hsc, hsizeclass]

theorem getHugepage_eq (rep : Rep P.layout m.root s) (k : Nat) :
    getHugepage P m k = if backed P m k then some (s.hugepage (k >>> P.layout.hugepageShift)) else none := by
  simp only [PageMap2.getHugepage, backed]
  by_cases hk : k >>> P.BITS = 0
  · rw [if_neg (not_not.mpr hk)]
    split
    · rename_i hnone
      simp [hnone]
    · rename_i leaf hleaf
      simp only [hk, hleaf, beq_self_eq_true, Option.isSome_some, Bool.and_self, if_true]
      exact congrArg some (leaf_entries rep hleaf).2.2.2
  · simp [hk]

variable (P) in
theorem nextSetPageFrom_spec (m : PageMap2) (n : Nat) :
    ∀ i1 i2, i2 ≤ kLeafLength →
      IsFirstIn (fun k => spanAt P.layout m.root k != 0) (i1 * 2 ^ kLeafBits + i2) ((i1 + n) * 2 ^ kLeafBits)
        (nextSetPageFrom m n i1 i2) := by
  induction n with
  | zero =>
      intro i1 i2 _
      exact isFirstIn_none_of_le (by simp)
  | succ n ih =>
      intro i1 i2 hi2
      have hrest := ih (i1 + 1) 0 (Nat.zero_le _)
      rw [Nat.add_zero, show i1 + 1 + n = i1 + (n + 1) by omega] at hrest
      have hmid : i1 * 2 ^ kLeafBits + i2 ≤ (i1 + 1) * 2 ^ kLeafBits := by
        rw [Nat.succ_mul]
        have : i2 ≤ 2 ^ kLeafBits := hi2
        omega
      simp only [nextSetPageFrom]
      split
      · rename_i hnone
        have hfirst : IsFirstIn (fun k => spanAt P.layout m.root k != 0) (i1 * 2 ^ kLeafBits + i2)
            ((i1 + 1) * 2 ^ kLeafBits) none :=
          isFirstIn_missing fun j hj hj' => by rw [show j = i1 by omega]; exact hnone
        exact hfirst.append hmid hrest
      · rename_i leaf hleaf
        have hleafScan : IsFirstIn (fun k => spanAt P.layout m.root k != 0) (i1 * 2 ^ kLeafBits + i2)
            ((i1 + 1) * 2 ^ kLeafBits) ((leaf.firstSetSlot kLeafLength i2).map (i1 * 2 ^ kLeafBits + ·)) :=
          isFirstIn_firstSetSlot hleaf hi2
        split
        · rename_i j hj
          rw [hj] at hleafScan
          have hjlt : j < 2 ^ kLeafBits := Leaf.firstSetSlot_lt hj
          rw [shiftLeft_or_eq i1 hjlt]
          exact hleafScan.widen (Nat.mul_le_mul_right _ (by omega))
        · rename_i hj
          rw [hj] at hleafScan
          exact hleafScan.append hmid hrest

theorem getNextSetPage_spec (rep : Rep P.layout m.root s) (k : Nat) :
    s.IsFirstSetPage ((k + 1) % 2 ^ 64) (getNextSetPage P m k) := by
  simp only [getNextSetPage]
  generalize (k + 1) % 2 ^ 64 = lo
  have hsplit := shiftRight_mul_add_and lo kLeafBits
  have hslot : lo &&& (kLeafLength - 1) ≤ kLeafLength :=
    Nat.le_of_lt (and_mask_lt lo kLeafBits)
  have hscan := nextSetPageFrom_spec P m (kRootLength P - (lo >>> kLeafBits))
    (lo >>> kLeafBits) (lo &&& (kLeafLength - 1)) hslot
  have hspan : (fun k => spanAt P.layout m.root k != 0) = (fun k => s.span k != 0) :=
    funext fun k => by rw [rep.spanAt k]
  rw [hspan] at hscan
  have hlo : lo >>> kLeafBits * 2 ^ kLeafBits + (lo &&& (kLeafLength - 1)) = lo := hsplit
  rw [hlo] at hscan
  apply PageMapSpec.isFirstSetPage_of_isFirstIn hscan
  intro j hj
  apply (rep.high j _).1
  -- the scan ends at or above `kRootLength << kLeafBits`, itself at or above `2 ^ BITS`
  have hend : kRootLength P * 2 ^ kLeafBits ≤
      (lo >>> kLeafBits + (kRootLength P - lo >>> kLeafBits)) * 2 ^ kLeafBits :=
    Nat.mul_le_mul_right _ (by omega)
  have := @pow_BITS_le_kRootLength_mul P
  simp only [layout_BITS]
  omega

/-! ### Every run's answers -/

variable (P) in
/-- What a `PageMap2` holding the flat map `s` answers: the flat map's entries, with a
failed assertion (`none`) where a read asserts an allocated leaf that is missing. -/
structure Answers (m : PageMap2) (s : PageMapSpec) : Prop where
  get_eq : ∀ k, get P m k = s.span k
  getExisting_eq : ∀ k, getExisting P m k = if backed P m k then some (s.span k) else none
  getExistingWithSizeclass_true_eq : ∀ k,
    getExistingWithSizeclass P true m k = some (s.span k, s.spanSizeclass k)
  getExistingWithSizeclass_false_eq : ∀ k,
    getExistingWithSizeclass P false m k = if backed P m k then some (s.span k, s.spanSizeclass k) else none
  sizeclass_eq : ∀ k, sizeclass P m k = s.sizeclassAnswer k
  getHugepage_eq : ∀ k,
    getHugepage P m k = if backed P m k then some (s.hugepage (k >>> P.layout.hugepageShift)) else none
  getNextSetPage_spec : ∀ k, s.IsFirstSetPage ((k + 1) % 2 ^ 64) (getNextSetPage P m k)

theorem answers_of_rep (rep : Rep P.layout m.root s) : Answers P m s :=
  ⟨get_eq rep, getExisting_eq rep, getExistingWithSizeclass_true_eq rep, getExistingWithSizeclass_false_eq rep,
    sizeclass_eq rep, getHugepage_eq rep, getNextSetPage_spec rep⟩

theorem backed_of_write {c : Call (Nat → Bool)} (hstep : step P m c = some m') (hw : c.writtenPage = some k) :
    backed P m' = backed P m := by
  have hroot : ∀ i, (m'.root i).isSome = (m.root i).isSome := by
    cases c with
    | set k span =>
        obtain ⟨leaf, -, hleaf, hroot⟩ := set_eq_some hstep
        rw [hroot]
        exact isSome_update_some hleaf
    | setWithSizeclass k span sc =>
        obtain ⟨leaf, -, hleaf, hroot⟩ := setWithSizeclass_eq_some hstep
        rw [hroot]
        exact isSome_update_some hleaf
    | clearSizeclass k =>
        obtain ⟨leaf, -, hleaf, hroot⟩ := clearSizeclass_eq_some hstep
        rw [hroot]
        exact isSome_update_some hleaf
    | ensure | setHugepage => cases hw
  funext k'
  simp only [backed, hroot]

variable (P) in
/-- `m` and `m'` answer alike for page `k`. -/
def SameAnswers (m m' : PageMap2) (k : Nat) : Prop :=
  get P m' k = get P m k ∧ getExisting P m' k = getExisting P m k ∧
    (∀ b, getExistingWithSizeclass P b m' k = getExistingWithSizeclass P b m k) ∧
    sizeclass P m' k = sizeclass P m k ∧ getHugepage P m' k = getHugepage P m k

theorem sameAnswers_of_write (rep : Rep P.layout m.root s) {c : Call (Nat → Bool)} (hok : Allowed P m c)
    (hstep : step P m c = some m') {k' : Nat} (hw : c.writtenPage = some k) (hk : k' ≠ k) :
    SameAnswers P m m' k' := by
  have ans := answers_of_rep rep
  have ans' := answers_of_rep (rep_step rep hok hstep)
  obtain ⟨hspan, hsc, hsizeclass, hhuge⟩ := s.step_of_writtenPage P.layout.hugepageShift hw hk
  have hbacked := backed_of_write hstep hw
  refine ⟨?_, ?_, fun b => ?_, ?_, ?_⟩
  · rw [ans'.get_eq, ans.get_eq, hspan]
  · rw [ans'.getExisting_eq, ans.getExisting_eq, hspan, hbacked]
  · cases b
    · rw [ans'.getExistingWithSizeclass_false_eq, ans.getExistingWithSizeclass_false_eq, hspan, hsc, hbacked]
    · rw [ans'.getExistingWithSizeclass_true_eq, ans.getExistingWithSizeclass_true_eq, hspan, hsc]
  · rw [ans'.sizeclass_eq, ans.sizeclass_eq]
    simp only [PageMapSpec.sizeclassAnswer, hsc, hsizeclass]
  · rw [ans'.getHugepage_eq, ans.getHugepage_eq, hhuge, hbacked]

end PageMap2

end TCMalloc.PageMap