import TCMalloc.Lib.Radix

/-!
What the two radix trees of `pagemap.h` share: the `PackedSpanAndSizeclass`
word, the leaf with its three parallel arrays, and the flat map both trees are
meant to implement.

`PageMapSpec` is that map: for each page number the span pointer stored for
it, the size class `sizeclass()` answers, and the copy of the size class packed
with the span pointer; for each hugepage number the pointer `set_hugepage`
stored.  A tree's leaves, by leaf number `k >>> kLeafBits`, form a `LeafTable`,
and `Rep` relates a table to the flat map.  Every write of either tree is one of
three leaf updates or the allocation of a zeroed leaf, and each keeps `Rep`
with the matching update of the flat map (`Rep.setSpanAndSizeclass`,
`Rep.setSizeclass`, `Rep.setHugepage`, `Rep.addLeaf`): the trees' own proofs
only show that their writes are these updates.  Pointers are numbers, `0` being
`nullptr`.
-/

set_option autoImplicit false
set_option relaxedAutoImplicit false

namespace TCMalloc.PageMap

open TCMalloc.Lib.Radix TCMalloc.Lib.Scan

/-! ### The packed word -/

def kSizeclassShift : Nat := 48

def kSpanMask : Nat := (1 <<< kSizeclassShift) - 1

/-- `PackedSpanAndSizeclass`: a span pointer in the low 48 bits of a word and
its size class above them. -/
structure PackedSpanAndSizeclass where
  packedValue : Nat
  deriving DecidableEq, Repr

namespace PackedSpanAndSizeclass

/-- `set(span, sizeclass)`. -/
def set (span sizeclass : Nat) : PackedSpanAndSizeclass :=
  ⟨(sizeclass <<< kSizeclassShift) ||| span⟩

/-- `span()`. -/
def span (p : PackedSpanAndSizeclass) : Nat := p.packedValue &&& kSpanMask

/-- `sizeclass()`: the bits above the span, cast to the `compactBits`-bit
`CompactSizeClass`. -/
def sizeclass (compactBits : Nat) (p : PackedSpanAndSizeclass) : Nat :=
  (p.packedValue >>> kSizeclassShift) % 2 ^ compactBits

theorem kSpanMask_eq : kSpanMask = 2 ^ kSizeclassShift - 1 := by
  rw [kSpanMask, Nat.one_shiftLeft]

@[simp] theorem span_set {span : Nat} (sc : Nat) (h : span < 2 ^ kSizeclassShift) :
    (set span sc).span = span := by
  rw [PackedSpanAndSizeclass.span, set, kSpanMask_eq, shiftLeft_or_and sc h]

@[simp] theorem sizeclass_set {span sc cb : Nat} (h : span < 2 ^ kSizeclassShift) (hsc : sc < 2 ^ cb) :
    (set span sc).sizeclass cb = sc := by
  rw [sizeclass, set, shiftLeft_or_shiftRight sc h, Nat.mod_eq_of_lt hsc]

theorem set_zero : set 0 0 = ⟨0⟩ := rfl

theorem set_inj {span span' sc sc' : Nat} (h : span < 2 ^ kSizeclassShift) (h' : span' < 2 ^ kSizeclassShift)
    (heq : set span sc = set span' sc') : span = span' ∧ sc = sc' := by
  have hspan := congrArg PackedSpanAndSizeclass.span heq
  have hsc := congrArg (fun p => p.packedValue >>> kSizeclassShift) heq
  simp only [set, shiftLeft_or_shiftRight _ h, shiftLeft_or_shiftRight _ h'] at hsc
  rw [span_set sc h, span_set sc' h'] at hspan
  exact ⟨hspan, hsc⟩

end PackedSpanAndSizeclass

/-! ### Leaves -/

/-- A leaf: the parallel arrays `sizeclass`, `span_and_sizeclass` and
`hugepage`, by slot. -/
structure Leaf where
  sizeclass : Nat → Nat
  spanAndSizeclass : Nat → PackedSpanAndSizeclass
  hugepage : Nat → Nat

namespace Leaf

/-- A leaf just allocated, after `memset(leaf, 0, sizeof(*leaf))`. -/
def zero : Leaf := ⟨fun _ => 0, fun _ => ⟨0⟩, fun _ => 0⟩

/-- `span(i)`. -/
def span (leaf : Leaf) (i : Nat) : Nat := (leaf.spanAndSizeclass i).span

/-- `leaf->span_and_sizeclass[i].set(s, sc)`. -/
def setSpanAndSizeclass (leaf : Leaf) (i s sc : Nat) : Leaf :=
  { leaf with spanAndSizeclass := Function.update leaf.spanAndSizeclass i (.set s sc) }

/-- `leaf->sizeclass[i] = sc`. -/
def setSizeclass (leaf : Leaf) (i sc : Nat) : Leaf :=
  { leaf with sizeclass := Function.update leaf.sizeclass i sc }

/-- `leaf->hugepage[i] = v`. -/
def setHugepage (leaf : Leaf) (i v : Nat) : Leaf :=
  { leaf with hugepage := Function.update leaf.hugepage i v }

/-- The innermost loop of `get_next_set_page`: the first slot from `i` on, below
`kLeafLength`, whose span is set. -/
def firstSetSlot (kLeafLength : Nat) (leaf : Leaf) (i : Nat) : Option Nat :=
  let j := firstFrom (fun j => leaf.span j != 0) (kLeafLength - i) i
  if j < kLeafLength then some j else none

theorem firstSetSlot_lt {kLeafLength : Nat} {leaf : Leaf} {i j : Nat}
    (h : leaf.firstSetSlot kLeafLength i = some j) : j < kLeafLength := by
  simp only [firstSetSlot] at h
  split at h
  · rename_i hlt
    rw [← Option.some.inj h]
    exact hlt
  · cases h

end Leaf

/-! ### The flat map -/

/-- What a page map is for: per page number, the span pointer, the size class
`sizeclass()` answers and the size class packed with the span pointer; per
hugepage number, a pointer. -/
structure PageMapSpec where
  span : Nat → Nat
  sizeclass : Nat → Nat
  spanSizeclass : Nat → Nat
  hugepage : Nat → Nat

/-- The calls that change a page map; `A` is what the allocator answers during an
`Ensure`. -/
inductive Call (A : Type)
  | ensure (start n : Nat) (alloc : A)
  | set (k span : Nat)
  | setWithSizeclass (k span sc : Nat)
  | clearSizeclass (k : Nat)
  | setHugepage (k v : Nat)

/-- The page a call writes the span or size class of. -/
def Call.writtenPage {A : Type} : Call A → Option Nat
  | .set k _ => some k
  | .setWithSizeclass k _ _ => some k
  | .clearSizeclass k => some k
  | _ => none

namespace PageMapSpec

/-- Nothing stored anywhere. -/
def empty : PageMapSpec := ⟨fun _ => 0, fun _ => 0, fun _ => 0, fun _ => 0⟩

def setSpan (s : PageMapSpec) (k span sc : Nat) : PageMapSpec :=
  { s with span := Function.update s.span k span, spanSizeclass := Function.update s.spanSizeclass k sc }

def setSizeclass (s : PageMapSpec) (k sc : Nat) : PageMapSpec :=
  { s with sizeclass := Function.update s.sizeclass k sc }

def setHugepage (s : PageMapSpec) (h v : Nat) : PageMapSpec :=
  { s with hugepage := Function.update s.hugepage h v }

/-- What each call means for the flat map, with hugepage numbers `k >>> hugepageShift`:
`Ensure` stores nothing, `set` stores a span with size class `0`, `set_with_sizeclass`
stores a span and its size class in both places, and `clear_sizeclass` clears the
size class `sizeclass()` answers. -/
def step {A : Type} (hugepageShift : Nat) (s : PageMapSpec) : Call A → PageMapSpec
  | .ensure .. => s
  | .set k span => s.setSpan k span 0
  | .setWithSizeclass k span sc => (s.setSpan k span sc).setSizeclass k sc
  | .clearSizeclass k => s.setSizeclass k 0
  | .setHugepage k v => s.setHugepage (k >>> hugepageShift) v

/-- The flat map after a sequence of calls from the empty one. -/
def replay {A : Type} (hugepageShift : Nat) (calls : List (Call A)) : PageMapSpec :=
  calls.foldl (step hugepageShift) empty

theorem step_of_writtenPage {A : Type} (hugepageShift : Nat) (s : PageMapSpec) {c : Call A} {k k' : Nat}
    (hw : c.writtenPage = some k) (hk : k' ≠ k) :
    (s.step hugepageShift c).span k' = s.span k' ∧ (s.step hugepageShift c).spanSizeclass k' = s.spanSizeclass k' ∧
      (s.step hugepageShift c).sizeclass k' = s.sizeclass k' ∧ (s.step hugepageShift c).hugepage = s.hugepage := by
  cases c with
  | ensure => cases hw
  | set k₀ span =>
      cases hw
      simp [step, setSpan, hk]
  | setWithSizeclass k₀ span sc =>
      cases hw
      simp [step, setSpan, setSizeclass, hk]
  | clearSizeclass k₀ =>
      cases hw
      simp [step, setSizeclass, hk]
  | setHugepage => cases hw

/-- What `sizeclass()` answers for a page: its size class, when the packed copy
agrees, and a failed `TC_ASSERT_EQ` otherwise. -/
def sizeclassAnswer (s : PageMapSpec) (k : Nat) : Option Nat :=
  if s.sizeclass k = s.spanSizeclass k then some (s.sizeclass k) else none

/-- `r` is the least page at or above `lo` with a span stored, or `none` when there is
none. -/
def IsFirstSetPage (s : PageMapSpec) (lo : Nat) : Option Nat → Prop
  | some k' => lo ≤ k' ∧ s.span k' ≠ 0 ∧ ∀ j, lo ≤ j → j < k' → s.span j = 0
  | none => ∀ j, lo ≤ j → s.span j = 0

theorem isFirstSetPage_of_isFirstIn {s : PageMapSpec} {lo hi : Nat} {r : Option Nat}
    (h : IsFirstIn (fun j => s.span j != 0) lo hi r) (high : ∀ j, hi ≤ j → s.span j = 0) :
    s.IsFirstSetPage lo r := by
  cases r with
  | none =>
      intro j hj
      by_cases hjh : j < hi
      · simpa using h j hj hjh
      · exact high j (by omega)
  | some k' =>
      obtain ⟨hlo, -, hset, hbefore⟩ := h
      exact ⟨hlo, by simpa using hset, fun j hj hjk => by simpa using hbefore j hj hjk⟩

theorem IsFirstSetPage.unique {s : PageMapSpec} {lo : Nat} {r r' : Option Nat} (h : s.IsFirstSetPage lo r)
    (h' : s.IsFirstSetPage lo r') : r = r' := by
  cases r with
  | none =>
      cases r' with
      | none => rfl
      | some k' => exact absurd (h k' h'.1) h'.2.1
  | some k =>
      cases r' with
      | none => exact absurd (h' k h.1) h.2.1
      | some k' =>
          rcases Nat.lt_trichotomy k k' with hlt | heq | hgt
          · exact absurd (h'.2.2 k h.1 hlt) h.2.1
          · rw [heq]
          · exact absurd (h.2.2 k' h'.1 hgt) h'.2.1

end PageMapSpec

/-- The values the calls store: span pointers fit the 48 bits `kSpanMask` keeps,
and size classes fit `CompactSizeClass`. -/
def Call.Stores {A : Type} (compactBits : Nat) : Call A → Prop
  | .set _ span => span < 2 ^ kSizeclassShift
  | .setWithSizeclass _ span sc => span < 2 ^ kSizeclassShift ∧ sc < 2 ^ compactBits
  | _ => True

/-! ### Tables of leaves -/

/-- The constants that lay out a tree's leaves: its `BITS`, `kLeafBits`, the page
and hugepage shifts and the width of `CompactSizeClass`. -/
structure Layout where
  BITS : Nat
  kLeafBits : Nat
  kPageShift : Nat
  kHugePageShift : Nat
  compactBits : Nat
  /-- `static_assert(kLeafCoveredBytes >= kHugePageSize, "leaf too small")` -/
  leaf_covers : kHugePageShift ≤ kLeafBits + kPageShift

namespace Layout

variable (lay : Layout)

def kLeafLength : Nat := 1 <<< lay.kLeafBits

def kLeafHugeBits : Nat := lay.kLeafBits + lay.kPageShift - lay.kHugePageShift

/-- The shift from a page number to its hugepage number. -/
def hugepageShift : Nat := lay.kHugePageShift - lay.kPageShift

theorem kLeafLength_eq : lay.kLeafLength = 2 ^ lay.kLeafBits := Nat.one_shiftLeft _

theorem kLeafBits_sub_kLeafHugeBits : lay.kLeafBits - lay.kLeafHugeBits = lay.hugepageShift := by
  have := lay.leaf_covers
  simp only [kLeafHugeBits, hugepageShift]
  omega

theorem hugepageShift_le : lay.hugepageShift ≤ lay.kLeafBits := by
  have := lay.leaf_covers
  simp only [hugepageShift]
  omega

end Layout

/-- A tree's leaves by leaf number `k >>> kLeafBits`; `none` is a missing leaf. -/
abbrev LeafTable := Nat → Option Leaf

section Table

variable (lay : Layout)

/-- The packed word a table holds for page `k`, zero where its leaf is missing. -/
def packedAt (t : LeafTable) (k : Nat) : PackedSpanAndSizeclass :=
  match t (k >>> lay.kLeafBits) with
  | none => ⟨0⟩
  | some leaf => leaf.spanAndSizeclass (k &&& (lay.kLeafLength - 1))

/-- The span pointer a table holds for page `k`. -/
def spanAt (t : LeafTable) (k : Nat) : Nat := (packedAt lay t k).span

/-- The `sizeclass` entry a table holds for page `k`. -/
def sizeclassAt (t : LeafTable) (k : Nat) : Nat :=
  match t (k >>> lay.kLeafBits) with
  | none => 0
  | some leaf => leaf.sizeclass (k &&& (lay.kLeafLength - 1))

/-- The `hugepage` entry a table holds for page `k`. -/
def hugepageAt (t : LeafTable) (k : Nat) : Nat :=
  match t (k >>> lay.kLeafBits) with
  | none => 0
  | some leaf => leaf.hugepage ((k &&& (lay.kLeafLength - 1)) >>> (lay.kLeafBits - lay.kLeafHugeBits))

/-- The table holds the flat map: every page's packed word and `sizeclass` entry
and every hugepage's pointer are the map's, the span pointers fit the mask, the
packed size classes fit `CompactSizeClass`, and nothing is stored for a page at
or above `2 ^ BITS`. -/
structure Rep (t : LeafTable) (s : PageMapSpec) : Prop where
  packed : ∀ k, packedAt lay t k = .set (s.span k) (s.spanSizeclass k)
  sizeclass : ∀ k, sizeclassAt lay t k = s.sizeclass k
  hugepage : ∀ k, hugepageAt lay t k = s.hugepage (k >>> lay.hugepageShift)
  span_lt : ∀ k, s.span k < 2 ^ kSizeclassShift
  spanSizeclass_lt : ∀ k, s.spanSizeclass k < 2 ^ lay.compactBits
  high : ∀ k, 2 ^ lay.BITS ≤ k → s.span k = 0 ∧ s.spanSizeclass k = 0 ∧ s.sizeclass k = 0

variable {lay}

theorem eq_of_leaf_eq_of_slot_eq {k k' : Nat} (hj : k' >>> lay.kLeafBits = k >>> lay.kLeafBits)
    (hi : k' &&& (lay.kLeafLength - 1) = k &&& (lay.kLeafLength - 1)) : k' = k := by
  rw [lay.kLeafLength_eq] at hi
  exact eq_of_shiftRight_eq_of_and_eq hj hi

theorem hugeSlot_eq_iff {k k' : Nat} (hj : k' >>> lay.kLeafBits = k >>> lay.kLeafBits) :
    (k' &&& (lay.kLeafLength - 1)) >>> (lay.kLeafBits - lay.kLeafHugeBits) =
        (k &&& (lay.kLeafLength - 1)) >>> (lay.kLeafBits - lay.kLeafHugeBits) ↔
      k' >>> lay.hugepageShift = k >>> lay.hugepageShift := by
  have hle := lay.hugepageShift_le
  rw [lay.kLeafBits_sub_kLeafHugeBits, lay.kLeafLength_eq, and_mask_shiftRight hle,
    and_mask_shiftRight hle]
  constructor
  · intro hslot
    apply eq_of_shiftRight_eq_of_and_eq _ hslot
    rw [shiftRight_shiftRight_sub hle, shiftRight_shiftRight_sub hle, hj]
  · intro hh
    rw [hh]

theorem hugepage_ne_of_leaf_ne {k k' : Nat} (hj : k' >>> lay.kLeafBits ≠ k >>> lay.kLeafBits) :
    k' >>> lay.hugepageShift ≠ k >>> lay.hugepageShift := by
  intro hh
  apply hj
  rw [← shiftRight_shiftRight_sub lay.hugepageShift_le k', hh, shiftRight_shiftRight_sub lay.hugepageShift_le]

theorem leaf_of_key {j i : Nat} (hi : i < lay.kLeafLength) :
    (j * 2 ^ lay.kLeafBits + i) >>> lay.kLeafBits = j ∧
      (j * 2 ^ lay.kLeafBits + i) &&& (lay.kLeafLength - 1) = i := by
  rw [lay.kLeafLength_eq] at hi ⊢
  have hpack := shiftLeft_or_eq j hi
  rw [← hpack]
  exact ⟨shiftLeft_or_shiftRight j hi, shiftLeft_or_and j hi⟩

/-! #### What each leaf update changes -/

variable {t : LeafTable} {k : Nat} {leaf : Leaf}

theorem packedAt_setSpanAndSizeclass (hleaf : t (k >>> lay.kLeafBits) = some leaf) (s sc k' : Nat) :
    packedAt lay (Function.update t (k >>> lay.kLeafBits)
        (some (leaf.setSpanAndSizeclass (k &&& (lay.kLeafLength - 1)) s sc))) k' =
      if k' = k then .set s sc else packedAt lay t k' := by
  unfold packedAt
  by_cases hj : k' >>> lay.kLeafBits = k >>> lay.kLeafBits
  · rw [hj, Function.update_self, hleaf]
    simp only [Leaf.setSpanAndSizeclass, Function.update_apply]
    by_cases hk : k' = k
    · simp [hk]
    · have hslot : (k' &&& (lay.kLeafLength - 1)) ≠ (k &&& (lay.kLeafLength - 1)) :=
        fun hi => hk (eq_of_leaf_eq_of_slot_eq hj hi)
      simp [hk, hslot]
  · have hk : k' ≠ k := fun h => hj (by rw [h])
    rw [Function.update_of_ne hj, if_neg hk]

theorem sizeclassAt_setSizeclass (hleaf : t (k >>> lay.kLeafBits) = some leaf) (sc k' : Nat) :
    sizeclassAt lay (Function.update t (k >>> lay.kLeafBits)
        (some (leaf.setSizeclass (k &&& (lay.kLeafLength - 1)) sc))) k' =
      if k' = k then sc else sizeclassAt lay t k' := by
  unfold sizeclassAt
  by_cases hj : k' >>> lay.kLeafBits = k >>> lay.kLeafBits
  · rw [hj, Function.update_self, hleaf]
    simp only [Leaf.setSizeclass, Function.update_apply]
    by_cases hk : k' = k
    · simp [hk]
    · have hslot : (k' &&& (lay.kLeafLength - 1)) ≠ (k &&& (lay.kLeafLength - 1)) :=
        fun hi => hk (eq_of_leaf_eq_of_slot_eq hj hi)
      simp [hk, hslot]
  · have hk : k' ≠ k := fun h => hj (by rw [h])
    rw [Function.update_of_ne hj, if_neg hk]

theorem hugepageAt_setHugepage (hleaf : t (k >>> lay.kLeafBits) = some leaf) (v k' : Nat) :
    hugepageAt lay (Function.update t (k >>> lay.kLeafBits)
        (some (leaf.setHugepage ((k &&& (lay.kLeafLength - 1)) >>> (lay.kLeafBits - lay.kLeafHugeBits)) v))) k' =
      if k' >>> lay.hugepageShift = k >>> lay.hugepageShift then v else hugepageAt lay t k' := by
  unfold hugepageAt
  by_cases hj : k' >>> lay.kLeafBits = k >>> lay.kLeafBits
  · rw [hj, Function.update_self, hleaf]
    simp only [Leaf.setHugepage, Function.update_apply]
    by_cases hh : k' >>> lay.hugepageShift = k >>> lay.hugepageShift
    · rw [if_pos ((hugeSlot_eq_iff hj).mpr hh), if_pos hh]
    · rw [if_neg fun h => hh ((hugeSlot_eq_iff hj).mp h), if_neg hh]
  · rw [Function.update_of_ne hj, if_neg (hugepage_ne_of_leaf_ne hj)]

theorem packedAt_update_of_eq {leaf' : Leaf} (hleaf : t (k >>> lay.kLeafBits) = some leaf)
    (heq : leaf'.spanAndSizeclass = leaf.spanAndSizeclass) :
    packedAt lay (Function.update t (k >>> lay.kLeafBits) (some leaf')) = packedAt lay t := by
  funext k'
  unfold packedAt
  by_cases hj : k' >>> lay.kLeafBits = k >>> lay.kLeafBits
  · rw [hj, Function.update_self, hleaf]
    simp only [heq]
  · rw [Function.update_of_ne hj]

theorem sizeclassAt_update_of_eq {leaf' : Leaf} (hleaf : t (k >>> lay.kLeafBits) = some leaf)
    (heq : leaf'.sizeclass = leaf.sizeclass) :
    sizeclassAt lay (Function.update t (k >>> lay.kLeafBits) (some leaf')) = sizeclassAt lay t := by
  funext k'
  unfold sizeclassAt
  by_cases hj : k' >>> lay.kLeafBits = k >>> lay.kLeafBits
  · rw [hj, Function.update_self, hleaf]
    simp only [heq]
  · rw [Function.update_of_ne hj]

theorem hugepageAt_update_of_eq {leaf' : Leaf} (hleaf : t (k >>> lay.kLeafBits) = some leaf)
    (heq : leaf'.hugepage = leaf.hugepage) :
    hugepageAt lay (Function.update t (k >>> lay.kLeafBits) (some leaf')) = hugepageAt lay t := by
  funext k'
  unfold hugepageAt
  by_cases hj : k' >>> lay.kLeafBits = k >>> lay.kLeafBits
  · rw [hj, Function.update_self, hleaf]
    simp only [heq]
  · rw [Function.update_of_ne hj]

/-- `t'` is `t` with zeroed leaves where some were missing: what allocating leaves does. -/
def AddsLeaves (t t' : LeafTable) : Prop := ∀ j, t' j = t j ∨ (t j = none ∧ t' j = some Leaf.zero)

theorem addsLeaves_refl (t : LeafTable) : AddsLeaves t t := fun _ => .inl rfl

theorem AddsLeaves.trans {t₁ t₂ t₃ : LeafTable} (h₁ : AddsLeaves t₁ t₂) (h₂ : AddsLeaves t₂ t₃) :
    AddsLeaves t₁ t₃ := by
  intro j
  rcases h₁ j with h₁ | ⟨hnone, hzero⟩
  · rw [← h₁]
    exact h₂ j
  · rcases h₂ j with h₂ | ⟨hnone', -⟩
    · exact .inr ⟨hnone, h₂.trans hzero⟩
    · rw [hzero] at hnone'
      cases hnone'

theorem addsLeaves_update {j : Nat} (hnone : t j = none) :
    AddsLeaves t (Function.update t j (some Leaf.zero)) := by
  intro j'
  by_cases hj : j' = j
  · subst hj
    exact .inr ⟨hnone, Function.update_self ..⟩
  · exact .inl (Function.update_of_ne hj ..)

theorem AddsLeaves.isSome {t' : LeafTable} (h : AddsLeaves t t') {j : Nat} (hj : (t j).isSome) :
    (t' j).isSome := by
  rcases h j with h | ⟨hnone, -⟩
  · rw [h]
    exact hj
  · rw [hnone] at hj
    cases hj

theorem isSome_update_some {j : Nat} {leaf leaf' : Leaf} (hj : t j = some leaf) (i : Nat) :
    (Function.update t j (some leaf') i).isSome = (t i).isSome := by
  by_cases h : i = j
  · subst h
    simp [hj]
  · rw [Function.update_of_ne h]

theorem packedAt_of_addsLeaves {t' : LeafTable} (h : AddsLeaves t t') : packedAt lay t' = packedAt lay t := by
  funext k'
  unfold packedAt
  rcases h (k' >>> lay.kLeafBits) with h | ⟨hnone, hzero⟩
  · rw [h]
  · rw [hnone, hzero]
    rfl

theorem sizeclassAt_of_addsLeaves {t' : LeafTable} (h : AddsLeaves t t') :
    sizeclassAt lay t' = sizeclassAt lay t := by
  funext k'
  unfold sizeclassAt
  rcases h (k' >>> lay.kLeafBits) with h | ⟨hnone, hzero⟩
  · rw [h]
  · rw [hnone, hzero]
    rfl

theorem hugepageAt_of_addsLeaves {t' : LeafTable} (h : AddsLeaves t t') :
    hugepageAt lay t' = hugepageAt lay t := by
  funext k'
  unfold hugepageAt
  rcases h (k' >>> lay.kLeafBits) with h | ⟨hnone, hzero⟩
  · rw [h]
  · rw [hnone, hzero]
    rfl

/-! #### The updates keep `Rep` -/

variable {s : PageMapSpec}

theorem Rep.setSpanAndSizeclass (rep : Rep lay t s) (hleaf : t (k >>> lay.kLeafBits) = some leaf)
    (hk : k < 2 ^ lay.BITS) {span sc : Nat} (hspan : span < 2 ^ kSizeclassShift) (hsc : sc < 2 ^ lay.compactBits) :
    Rep lay (Function.update t (k >>> lay.kLeafBits)
        (some (leaf.setSpanAndSizeclass (k &&& (lay.kLeafLength - 1)) span sc))) (s.setSpan k span sc) := by
  constructor
  · intro k'
    rw [packedAt_setSpanAndSizeclass hleaf]
    by_cases hk' : k' = k
    · simp [hk', PageMapSpec.setSpan]
    · simp [hk', PageMapSpec.setSpan, rep.packed k']
  · intro k'
    rw [@sizeclassAt_update_of_eq _ _ _ _ (leaf.setSpanAndSizeclass _ span sc) hleaf rfl]
    exact rep.sizeclass k'
  · intro k'
    rw [@hugepageAt_update_of_eq _ _ _ _ (leaf.setSpanAndSizeclass _ span sc) hleaf rfl]
    exact rep.hugepage k'
  · intro k'
    by_cases hk' : k' = k
    · simp [hk', PageMapSpec.setSpan, hspan]
    · simp [hk', PageMapSpec.setSpan, rep.span_lt k']
  · intro k'
    by_cases hk' : k' = k
    · simp [hk', PageMapSpec.setSpan, hsc]
    · simp [hk', PageMapSpec.setSpan, rep.spanSizeclass_lt k']
  · intro k' hk'
    have hne : k' ≠ k := by omega
    simp [hne, PageMapSpec.setSpan, rep.high k' hk']

theorem Rep.setSizeclass (rep : Rep lay t s) (hleaf : t (k >>> lay.kLeafBits) = some leaf)
    (hk : k < 2 ^ lay.BITS) (sc : Nat) :
    Rep lay (Function.update t (k >>> lay.kLeafBits)
        (some (leaf.setSizeclass (k &&& (lay.kLeafLength - 1)) sc))) (s.setSizeclass k sc) := by
  constructor
  · intro k'
    rw [@packedAt_update_of_eq _ _ _ _ (leaf.setSizeclass _ sc) hleaf rfl]
    exact rep.packed k'
  · intro k'
    rw [sizeclassAt_setSizeclass hleaf]
    by_cases hk' : k' = k
    · simp [hk', PageMapSpec.setSizeclass]
    · simp [hk', PageMapSpec.setSizeclass, rep.sizeclass k']
  · intro k'
    rw [@hugepageAt_update_of_eq _ _ _ _ (leaf.setSizeclass _ sc) hleaf rfl]
    exact rep.hugepage k'
  · exact rep.span_lt
  · exact rep.spanSizeclass_lt
  · intro k' hk'
    have hne : k' ≠ k := by omega
    simp [hne, PageMapSpec.setSizeclass, rep.high k' hk']

theorem Rep.setHugepage (rep : Rep lay t s) (hleaf : t (k >>> lay.kLeafBits) = some leaf) (v : Nat) :
    Rep lay (Function.update t (k >>> lay.kLeafBits)
        (some (leaf.setHugepage ((k &&& (lay.kLeafLength - 1)) >>> (lay.kLeafBits - lay.kLeafHugeBits)) v)))
      (s.setHugepage (k >>> lay.hugepageShift) v) := by
  constructor
  · intro k'
    rw [@packedAt_update_of_eq _ _ _ _ (leaf.setHugepage _ v) hleaf rfl]
    exact rep.packed k'
  · intro k'
    rw [@sizeclassAt_update_of_eq _ _ _ _ (leaf.setHugepage _ v) hleaf rfl]
    exact rep.sizeclass k'
  · intro k'
    rw [hugepageAt_setHugepage hleaf]
    by_cases hh : k' >>> lay.hugepageShift = k >>> lay.hugepageShift
    · simp [hh, PageMapSpec.setHugepage]
    · simp [hh, PageMapSpec.setHugepage, rep.hugepage k']
  · exact rep.span_lt
  · exact rep.spanSizeclass_lt
  · exact rep.high

theorem Rep.of_addsLeaves (rep : Rep lay t s) {t' : LeafTable} (h : AddsLeaves t t') : Rep lay t' s := by
  constructor
  · rw [packedAt_of_addsLeaves h]
    exact rep.packed
  · rw [sizeclassAt_of_addsLeaves h]
    exact rep.sizeclass
  · rw [hugepageAt_of_addsLeaves h]
    exact rep.hugepage
  · exact rep.span_lt
  · exact rep.spanSizeclass_lt
  · exact rep.high

theorem rep_empty : Rep lay (fun _ => none) PageMapSpec.empty := by
  constructor
  · intro k
    exact PackedSpanAndSizeclass.set_zero.symm
  · intro k
    rfl
  · intro k
    rfl
  · intro k
    exact Nat.two_pow_pos _
  · intro k
    exact Nat.two_pow_pos _
  · intro k _
    exact ⟨rfl, rfl, rfl⟩

/-! #### What the table answers -/

theorem Rep.spanAt (rep : Rep lay t s) (k : Nat) : spanAt lay t k = s.span k := by
  rw [PageMap.spanAt, rep.packed k, PackedSpanAndSizeclass.span_set _ (rep.span_lt k)]

theorem Rep.packedSizeclass (rep : Rep lay t s) (k : Nat) :
    (packedAt lay t k).sizeclass lay.compactBits = s.spanSizeclass k := by
  rw [rep.packed k, PackedSpanAndSizeclass.sizeclass_set (rep.span_lt k) (rep.spanSizeclass_lt k)]

theorem Rep.of_missing (rep : Rep lay t s) (hnone : t (k >>> lay.kLeafBits) = none) :
    s.span k = 0 ∧ s.spanSizeclass k = 0 ∧ s.sizeclass k = 0 ∧ s.hugepage (k >>> lay.hugepageShift) = 0 := by
  have hpacked := rep.packed k
  have hsc := rep.sizeclass k
  have hhuge := rep.hugepage k
  simp only [packedAt, sizeclassAt, hugepageAt, hnone] at hpacked hsc hhuge
  obtain ⟨hspan, hspansc⟩ := PackedSpanAndSizeclass.set_inj (Nat.two_pow_pos _) (rep.span_lt k)
    (PackedSpanAndSizeclass.set_zero.trans hpacked)
  exact ⟨hspan.symm, hspansc.symm, hsc.symm, hhuge.symm⟩

theorem spanAt_of_leaf {j i : Nat} (hleaf : t j = some leaf) (hi : i < lay.kLeafLength) :
    spanAt lay t (j * 2 ^ lay.kLeafBits + i) = leaf.span i := by
  obtain ⟨hj, hslot⟩ := leaf_of_key (j := j) hi
  simp only [PageMap.spanAt, packedAt, hj, hslot, hleaf, Leaf.span]

theorem spanAt_of_missing {k : Nat} (hnone : t (k >>> lay.kLeafBits) = none) : spanAt lay t k = 0 := by
  simp only [PageMap.spanAt, packedAt, hnone]
  rfl

theorem isFirstIn_firstSetSlot {j i : Nat} (hleaf : t j = some leaf) (hi : i ≤ lay.kLeafLength) :
    IsFirstIn (fun k => spanAt lay t k != 0) (j * 2 ^ lay.kLeafBits + i) ((j + 1) * 2 ^ lay.kLeafBits)
      ((leaf.firstSetSlot lay.kLeafLength i).map (j * 2 ^ lay.kLeafBits + ·)) := by
  have hsearch := isFirstIn_firstFrom (fun i => leaf.span i != 0) (lay.kLeafLength - i) i
  rw [Nat.add_sub_cancel' hi] at hsearch
  have hcongr : IsFirstIn (fun x => spanAt lay t (j * 2 ^ lay.kLeafBits + x) != 0) i lay.kLeafLength _ :=
    hsearch.congr fun x _ hx => by rw [spanAt_of_leaf hleaf hx]
  have hshift := @IsFirstIn.shift (fun k => spanAt lay t k != 0) i lay.kLeafLength
    (j * 2 ^ lay.kLeafBits) _ hcongr
  have hend : j * 2 ^ lay.kLeafBits + lay.kLeafLength = (j + 1) * 2 ^ lay.kLeafBits := by
    rw [lay.kLeafLength_eq, Nat.succ_mul]
  rw [hend] at hshift
  exact hshift

theorem isFirstIn_missing {a b i : Nat} (hnone : ∀ j, a ≤ j → j < b → t j = none) :
    IsFirstIn (fun k => spanAt lay t k != 0) (a * 2 ^ lay.kLeafBits + i) (b * 2 ^ lay.kLeafBits) none := by
  intro k hk hk'
  have hlo : a ≤ k >>> lay.kLeafBits :=
    Nat.not_lt.mp fun h => absurd (shiftRight_lt_iff.mp h) (by omega)
  have hhi : k >>> lay.kLeafBits < b := shiftRight_lt_iff.mpr hk'
  show (spanAt lay t k != 0) = false
  rw [spanAt_of_missing (hnone _ hlo hhi)]
  rfl

end Table

end TCMalloc.PageMap
