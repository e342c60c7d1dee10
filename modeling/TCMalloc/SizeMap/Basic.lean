import TCMalloc.Span.Basic

/-!
`SizeMap` of `sizemap.h` and `sizemap.cc`: the checks a size-class table must
pass.  A size class is an object size, a span length in pages and a batch
size; `IsValidSizeClass` checks it on its own and with the span and the
huge-page-aware allocator's assumptions.
-/

set_option autoImplicit false
set_option relaxedAutoImplicit false

namespace TCMalloc.SizeMap

/-- `SizeMap::kLargeSizeAlignment`. -/
def kLargeSizeAlignment : Nat := 128

/-- `central_freelist_internal::kFewObjectsAllocMaxLimit`. -/
def kFewObjectsAllocMaxLimit : Nat := 16

/-- `HugePageAwareAllocator::IsValidSizeClass(size, pages)`: a span of many
objects stays below half a hugepage, as dense spans are not donated. -/
def hpaaIsValidSizeClass (b : Build) (size pages : Nat) : Bool :=
  !(pages * b.kPageSize / size > kFewObjectsAllocMaxLimit && pages > b.config.kPagesPerHugePage / 2)

/-- `SizeMap::IsValidSizeClass(size, pages, num_objects_to_move)`; its
`TC_LOG` messages are left out. -/
def isValidSizeClass (b : Build) (size pages numObjectsToMove : Nat) : Bool :=
  let alignment := if size > AlignedAlloc.kLargeSize then kLargeSizeAlignment else kAlignment
  size != 0 && decide (size ≤ b.config.kMaxSize) && size &&& (alignment - 1) == 0 && pages != 0 &&
    decide (pages ≤ 32) && decide (pages * b.kPageSize / size ≥ 1) && Span.isValidSizeClass b size pages &&
    hpaaIsValidSizeClass b size pages && decide (2 ≤ numObjectsToMove) && decide (numObjectsToMove ≤ kMaxObjectsToMove)

theorem isValidSizeClass_bounds {b : Build} {size pages numObjectsToMove : Nat}
    (h : isValidSizeClass b size pages numObjectsToMove = true) :
    0 < size ∧ size ≤ b.config.kMaxSize ∧ 0 < pages ∧ pages ≤ 32 ∧ 1 ≤ pages * b.kPageSize / size ∧
      Span.isValidSizeClass b size pages = true ∧ 2 ≤ numObjectsToMove ∧ numObjectsToMove ≤ kMaxObjectsToMove := by
  simp only [isValidSizeClass, Bool.and_eq_true, bne_iff_ne, ne_eq, decide_eq_true_eq] at h
  obtain ⟨⟨⟨⟨⟨⟨⟨⟨⟨hsize, hmax⟩, -⟩, hpages⟩, h32⟩, hobj⟩, hspan⟩, -⟩, hmin⟩, hmove⟩ := h
  exact ⟨Nat.pos_of_ne_zero hsize, hmax, Nat.pos_of_ne_zero hpages, h32, hobj, hspan, hmin, hmove⟩

/-- The alignment `IsValidSizeClass` asks of a size: a multiple of `kAlignment`
up to `kLargeSize`, of `kLargeSizeAlignment` above it.  Such a size is the
largest of its `class_array_` bucket. -/
def IsAligned (size : Nat) : Prop :=
  (size ≤ AlignedAlloc.kLargeSize → size % 8 = 0) ∧ (AlignedAlloc.kLargeSize < size → size % 128 = 0)

theorem isValidSizeClass_aligned {b : Build} {size pages numObjectsToMove : Nat}
    (h : isValidSizeClass b size pages numObjectsToMove = true) : IsAligned size := by
  simp only [isValidSizeClass, Bool.and_eq_true, beq_iff_eq] at h
  obtain ⟨⟨⟨⟨⟨⟨⟨⟨⟨-, -⟩, halign⟩, -⟩, -⟩, -⟩, -⟩, -⟩, -⟩, -⟩ := h
  have h8 : size &&& 7 = size % 8 := Nat.and_two_pow_sub_one_eq_mod size 3
  have h128 : size &&& 127 = size % 128 := Nat.and_two_pow_sub_one_eq_mod size 7
  constructor
  · intro hle
    rw [if_neg (Nat.not_lt.mpr hle)] at halign
    rw [← h8]
    exact halign
  · intro hgt
    rw [if_pos hgt] at halign
    rw [← h128]
    exact halign

end TCMalloc.SizeMap
