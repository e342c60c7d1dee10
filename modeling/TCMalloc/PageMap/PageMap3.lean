import TCMalloc.PageMap.PageMap2

/-!
`PageMap3<BITS, Allocator>`, the three-level radix tree of `pagemap.h` used by
the small-but-slow configuration: a root array of mid-level nodes, each holding
`2 ^ kMidBits` leaf pointers.  Its leaves by leaf number `j = k >>> kLeafBits`
sit at `root_[j >> kMidBits]->leafs[j & (kMidLength - 1)]` (`leafTable`); every
write is a leaf update of that table, so over every run from the empty map the
tree holds the flat map the calls describe, as `PageMap2` does.  Unlike
`PageMap2`, `set` does not check `k >> BITS`: its key lies below `2 ^ BITS`
because only nodes below `kRootLength` are ever allocated (`RootBound`).
-/

set_option autoImplicit false
set_option relaxedAutoImplicit false

namespace TCMalloc.PageMap

open TCMalloc.Lib TCMalloc.Lib.Radix

/-- A mid-level `Node`: `leafs`. -/
structure Node where
  leafs : Nat → Option Leaf

/-- `PageMap3`: `root_` and `bytes_used_`. -/
structure PageMap3 where
  root : Nat → Option Node
  bytesUsed : Nat

namespace PageMap3

/-- The template argument `BITS` and the page configuration a `PageMap3` is built with. -/
structure Params where
  BITS : Nat
  kPageShift : Nat
  kHugePageShift : Nat
  compactBits : Nat
  /-- `static_assert(kRootBits > 0, "Too many bits assigned to leaf and mid")` -/
  kRootBits_pos : 2 * ((BITS + 2) / 3) < BITS
  /-- `static_assert(kLeafCoveredBytes >= kHugePageSize, "leaf too small")` -/
  leaf_covers : kHugePageShift ≤ (BITS + 2) / 3 + kPageShift

variable (P : Params)

/-- `kLeafBits`, rounded up. -/
def kLeafBits : Nat := (P.BITS + 2) / 3

def kLeafLength : Nat := 1 <<< kLeafBits P

/-- `kMidBits`, rounded up. -/
def kMidBits : Nat := (P.BITS + 2) / 3

def kMidLength : Nat := 1 <<< kMidBits P

def kRootBits : Nat := P.BITS - kLeafBits P - kMidBits P

def kRootLength : Nat := 1 <<< kRootBits P

def kLeafHugeBits : Nat := kLeafBits P + P.kPageShift - P.kHugePageShift

def Params.layout : Layout := ⟨P.BITS, kLeafBits P, P.kPageShift, P.kHugePageShift, P.compactBits, P.leaf_covers⟩

/-- `sizeof(Leaf)`, as for `PageMap2`. -/
def sizeofLeaf : Nat :=
  kLeafLength P * (P.compactBits / 8) + kLeafLength P * 8 + (1 <<< kLeafHugeBits P) * 8

/-- `sizeof(Node)`: `kMidLength` leaf pointers. -/
def sizeofNode : Nat := kMidLength P * 8

/-- `PageMap3()`: every node missing. -/
def init : PageMap3 := ⟨fun _ => none, 0⟩

/-- `get(k)`. -/
def get (m : PageMap3) (k : Nat) : Nat :=
  let i1 := k >>> (kLeafBits P + kMidBits P)
  let i2 := (k >>> kLeafBits P) &&& (kMidLength P - 1)
  let i3 := k &&& (kLeafLength P - 1)
  if k >>> P.BITS > 0 then 0
  else
    match m.root i1 with
    | none => 0
    | some node =>
        match node.leafs i2 with
        | none => 0
        | some leaf => leaf.span i3

/-- The middle loop of `get_next_set_page`, over `n` leaves of node `i1` from slot
`i3` of leaf `i2`. -/
def nextSetPageMid (node : Node) (i1 : Nat) : (n i2 i3 : Nat) → Option Nat
  | 0, _, _ => none
  | n + 1, i2, i3 =>
      match node.leafs i2 with
      | none => nextSetPageMid node i1 n (i2 + 1) 0
      | some leaf =>
          match leaf.firstSetSlot (kLeafLength P) i3 with
          | some j => some ((i1 <<< (kLeafBits P + kMidBits P)) ||| (i2 <<< kLeafBits P) ||| j)
          | none => nextSetPageMid node i1 n (i2 + 1) 0

/-- The outer loop of `get_next_set_page`, over `n` nodes from leaf `i2` of node `i1`. -/
def nextSetPageFrom (m : PageMap3) : (n i1 i2 i3 : Nat) → Option Nat
  | 0, _, _, _ => none
  | n + 1, i1, i2, i3 =>
      match m.root i1 with
      | none => nextSetPageFrom m n (i1 + 1) 0 0
      | some node =>
          match nextSetPageMid P node i1 (kMidLength P - i2) i2 i3 with
          | some k => some k
          | none => nextSetPageFrom m n (i1 + 1) 0 0

/-- `get_next_set_page(k)`; `k + 1` wraps as a `uintptr_t`. -/
def getNextSetPage (m : PageMap3) (k : Nat) : Option Nat :=
  let nextK := (k + 1) % 2 ^ 64
  let i1 := nextK >>> (kLeafBits P + kMidBits P)
  let i2 := (nextK >>> kLeafBits P) &&& (kMidLength P - 1)
  let i3 := nextK &&& (kLeafLength P - 1)
  nextSetPageFrom P m (kRootLength P - i1) i1 i2 i3

/-- `get_existing_with_sizeclass<check_bounds>(k)`. -/
def getExistingWithSizeclass (checkBounds : Bool) (m : PageMap3) (k : Nat) : Option (Nat × Nat) :=
  let i1 := k >>> (kLeafBits P + kMidBits P)
  let i2 := (k >>> kLeafBits P) &&& (kMidLength P - 1)
  let i3 := k &&& (kLeafLength P - 1)
  let leafPtr := match m.root i1 with
    | none => none
    | some node => node.leafs i2
  if checkBounds && (k >>> P.BITS > 0 || leafPtr.isNone) then some (0, 0)
  else if k >>> P.BITS ≠ 0 then none
  else
    match leafPtr with
    | none => none
    | some leaf => some ((leaf.spanAndSizeclass i3).span, (leaf.spanAndSizeclass i3).sizeclass P.compactBits)

/-- `get_existing(k)`. -/
def getExisting (m : PageMap3) (k : Nat) : Option Nat :=
  let i1 := k >>> (kLeafBits P + kMidBits P)
  let i2 := (k >>> kLeafBits P) &&& (kMidLength P - 1)
  let i3 := k &&& (kLeafLength P - 1)
  if k >>> P.BITS ≠ 0 then none
  else
    match m.root i1 with
    | none => none
    | some node =>
        match node.leafs i2 with
        | none => none
        | some leaf => some (leaf.span i3)

/-- `sizeclass(k)`, with its `TC_ASSERT_EQ` that the packed copy agrees. -/
def sizeclass (m : PageMap3) (k : Nat) : Option Nat :=
  let i1 := k >>> (kLeafBits P + kMidBits P)
  let i2 := (k >>> kLeafBits P) &&& (kMidLength P - 1)
  if k >>> P.BITS > 0 then some 0
  else
    match m.root i1 with
    | none => some 0
    | some node =>
        match node.leafs i2 with
        | none => some 0
        | some leaf =>
            let i3 := k &&& (kLeafLength P - 1)
            let ret := leaf.sizeclass i3
            if ret = (leaf.spanAndSizeclass i3).sizeclass P.compactBits then some ret else none

/-- The write of `f` to the leaf of `k`, through `root_[i1]->leafs[i2]`; `none` where
that dereferences a null pointer or `f` fails. -/
def updateLeaf (m : PageMap3) (k : Nat) (f : Leaf → Option Leaf) : Option PageMap3 :=
  let i1 := k >>> (kLeafBits P + kMidBits P)
  let i2 := (k >>> kLeafBits P) &&& (kMidLength P - 1)
  match m.root i1 with
  | none => none
  | some node =>
      match node.leafs i2 with
      | none => none
      | some leaf =>
          match f leaf with
          | none => none
          | some leaf' => some { m with root := Function.update m.root i1 (some ⟨Function.update node.leafs i2 (some leaf')⟩) }

/-- `set(k, s)`: no `TC_ASSERT_EQ(k >> BITS, 0)` here, only that the page is
unregistered. -/
def set (m : PageMap3) (k s : Nat) : Option PageMap3 :=
  let i3 := k &&& (kLeafLength P - 1)
  updateLeaf P m k fun leaf => if leaf.sizeclass i3 ≠ 0 then none else some (leaf.setSpanAndSizeclass i3 s 0)

/-- `set_with_sizeclass(k, s, sc)`. -/
def setWithSizeclass (m : PageMap3) (k s sc : Nat) : Option PageMap3 :=
  if k >>> P.BITS ≠ 0 then none
  else
    let i3 := k &&& (kLeafLength P - 1)
    updateLeaf P m k fun leaf => some ((leaf.setSpanAndSizeclass i3 s sc).setSizeclass i3 sc)

/-- `clear_sizeclass(k)`: the `sizeclass` array only. -/
def clearSizeclass (m : PageMap3) (k : Nat) : Option PageMap3 :=
  if k >>> P.BITS ≠ 0 then none
  else
    let i3 := k &&& (kLeafLength P - 1)
    updateLeaf P m k fun leaf => some (leaf.setSizeclass i3 0)

/-- `get_hugepage(k)`. -/
def getHugepage (m : PageMap3) (k : Nat) : Option Nat :=
  if k >>> P.BITS ≠ 0 then none
  else
    let i1 := k >>> (kLeafBits P + kMidBits P)
    let i2 := (k >>> kLeafBits P) &&& (kMidLength P - 1)
    let i3 := k &&& (kLeafLength P - 1)
    match m.root i1 with
    | none => none
    | some node =>
        match node.leafs i2 with
        | none => none
        | some leaf => some (leaf.hugepage (i3 >>> (kLeafBits P - kLeafHugeBits P)))

/-- `set_hugepage(k, v)`. -/
def setHugepage (m : PageMap3) (k v : Nat) : Option PageMap3 :=
  if k >>> P.BITS ≠ 0 then none
  else
    let i3 := k &&& (kLeafLength P - 1)
    updateLeaf P m k fun leaf => some (leaf.setHugepage (i3 >>> (kLeafBits P - kLeafHugeBits P)) v)

/-- "Allocate Node if necessary": `none` when the allocator returns `nullptr`. -/
def makeNode (allocNode : Nat → Bool) (m : PageMap3) (i1 : Nat) : Option PageMap3 :=
  match m.root i1 with
  | some _ => some m
  | none =>
      if allocNode i1 then some ⟨Function.update m.root i1 (some ⟨fun _ => none⟩), m.bytesUsed + sizeofNode P⟩
      else none

/-- "Allocate Leaf if necessary", below the node of `i1`. -/
def makeLeaf (allocLeaf : Nat → Nat → Bool) (m : PageMap3) (i1 i2 : Nat) : Option PageMap3 :=
  match m.root i1 with
  | none => none
  | some node =>
      match node.leafs i2 with
      | some _ => some m
      | none =>
          if allocLeaf i1 i2 then
            some ⟨Function.update m.root i1 (some ⟨Function.update node.leafs i2 (some Leaf.zero)⟩),
              m.bytesUsed + sizeofLeaf P⟩
          else none

/-- The loop of `Ensure` from `key` over the keys up to `last`. -/
def ensureLoop (allocNode : Nat → Bool) (allocLeaf : Nat → Nat → Bool) (last : Nat) (m : PageMap3)
    (key : Nat) : Bool × PageMap3 :=
  if key ≤ last then
    let i1 := key >>> (kLeafBits P + kMidBits P)
    let i2 := (key >>> kLeafBits P) &&& (kMidLength P - 1)
    if kRootLength P ≤ i1 then (false, m)
    else
      match makeNode P allocNode m i1 with
      | none => (false, m)
      | some m₁ =>
          match makeLeaf P allocLeaf m₁ i1 i2 with
          | none => (false, m₁)
          | some m₂ => ensureLoop allocNode allocLeaf last m₂ (((key >>> kLeafBits P) + 1) <<< kLeafBits P)
  else (true, m)
termination_by last + 1 - key
decreasing_by
  have := lt_nextIndex key (kLeafBits P)
  omega

/-- `Ensure(start, n)`, with the allocator's answer for each node and each leaf;
`start + n - 1` wraps as a `uintptr_t`. -/
def ensure (allocNode : Nat → Bool) (allocLeaf : Nat → Nat → Bool) (m : PageMap3) (start n : Nat) :
    Bool × PageMap3 :=
  ensureLoop P allocNode allocLeaf ((start + n + 2 ^ 64 - 1) % 2 ^ 64) m start

/-- One call on the map. -/
def step (m : PageMap3) : Call ((Nat → Bool) × (Nat → Nat → Bool)) → Option PageMap3
  | .ensure start n alloc => some (ensure P alloc.1 alloc.2 m start n).2
  | .set k s => set P m k s
  | .setWithSizeclass k s sc => setWithSizeclass P m k s sc
  | .clearSizeclass k => clearSizeclass P m k
  | .setHugepage k v => setHugepage P m k v

/-- The calls store span pointers and size classes of the types the code has. -/
def Allowed (_ : PageMap3) (c : Call ((Nat → Bool) × (Nat → Nat → Bool))) : Prop := c.Stores P.compactBits

/-- The leaves by leaf number. -/
def leafTable (m : PageMap3) : LeafTable := fun j =>
  match m.root (j >>> kMidBits P) with
  | none => none
  | some node => node.leafs (j &&& (kMidLength P - 1))

/-- Page `k` lies below `2 ^ BITS` and its node and leaf are allocated. -/
def backed (m : PageMap3) (k : Nat) : Bool := k >>> P.BITS == 0 && (leafTable P m (k >>> kLeafBits P)).isSome

/-- No node is allocated past the root array. -/
def RootBound (m : PageMap3) : Prop := ∀ i, kRootLength P ≤ i → m.root i = none

@[simp] theorem layout_BITS : P.layout.BITS = P.BITS := rfl
@[simp] theorem layout_kLeafBits : P.layout.kLeafBits = kLeafBits P := rfl
@[simp] theorem layout_kLeafLength : P.layout.kLeafLength = kLeafLength P := rfl
@[simp] theorem layout_kLeafHugeBits : P.layout.kLeafHugeBits = kLeafHugeBits P := rfl
@[simp] theorem layout_compactBits : P.layout.compactBits = P.compactBits := rfl

theorem kMidLength_eq : kMidLength P = 2 ^ kMidBits P := Nat.one_shiftLeft _

theorem kRootLength_eq : kRootLength P = 2 ^ kRootBits P := Nat.one_shiftLeft _

theorem kLeafLength_eq : kLeafLength P = 2 ^ kLeafBits P := Nat.one_shiftLeft _

theorem bits_eq : kRootBits P + (kLeafBits P + kMidBits P) = P.BITS := by
  have := P.kRootBits_pos
  simp only [kRootBits, kLeafBits, kMidBits]
  omega

theorem lt_pow_BITS_iff {k : Nat} : k >>> (kLeafBits P + kMidBits P) < kRootLength P ↔ k < 2 ^ P.BITS := by
  rw [shiftRight_lt_iff, kRootLength_eq, ← Nat.pow_add, bits_eq]

theorem leafTable_key (m : PageMap3) (k : Nat) :
    leafTable P m (k >>> kLeafBits P) =
      match m.root (k >>> (kLeafBits P + kMidBits P)) with
      | none => none
      | some node => node.leafs ((k >>> kLeafBits P) &&& (kMidLength P - 1)) := by
  rw [leafTable, Nat.shiftRight_add]

/-! ### Each write is a leaf update of the table -/

variable {P} {m m' : PageMap3} {k : Nat}

theorem leafTable_setLeafs {j : Nat} {node : Node} (hnode : m.root (j >>> kMidBits P) = some node)
    (x : Option Leaf) (b : Nat) :
    leafTable P ⟨Function.update m.root (j >>> kMidBits P)
        (some ⟨Function.update node.leafs (j &&& (kMidLength P - 1)) x⟩), b⟩ =
      Function.update (leafTable P m) j x := by
  funext j'
  simp only [leafTable]
  by_cases h1 : j' >>> kMidBits P = j >>> kMidBits P
  · rw [h1, Function.update_self]
    simp only [Function.update_apply]
    by_cases hj : j' = j
    · simp [hj]
    · have h2 : j' &&& (kMidLength P - 1) ≠ j &&& (kMidLength P - 1) := fun h2 => by
        rw [kMidLength_eq] at h2
        exact hj (eq_of_shiftRight_eq_of_and_eq h1 h2)
      rw [if_neg h2, if_neg hj, leafTable, h1, hnode]
  · have hj : j' ≠ j := fun h => h1 (by rw [h])
    rw [Function.update_of_ne h1, Function.update_of_ne hj]
    rfl

theorem leafTable_of_root_none (hroot : m.root (k >>> (kLeafBits P + kMidBits P)) = none) :
    leafTable P m (k >>> kLeafBits P) = none := by
  rw [leafTable_key, hroot]

theorem leafTable_of_leafs {node : Node} (hroot : m.root (k >>> (kLeafBits P + kMidBits P)) = some node) :
    leafTable P m (k >>> kLeafBits P) = node.leafs ((k >>> kLeafBits P) &&& (kMidLength P - 1)) := by
  rw [leafTable_key, hroot]

theorem updateLeaf_eq_some {f : Leaf → Option Leaf} (hbound : RootBound P m) (h : updateLeaf P m k f = some m') :
    ∃ leaf leaf', k < 2 ^ P.BITS ∧ leafTable P m (k >>> kLeafBits P) = some leaf ∧ f leaf = some leaf' ∧
      leafTable P m' = Function.update (leafTable P m) (k >>> kLeafBits P) (some leaf') ∧ RootBound P m' := by
  simp only [updateLeaf] at h
  split at h
  · cases h
  · rename_i node hroot
    split at h
    · cases h
    · rename_i leaf hleaf
      split at h
      · cases h
      · rename_i leaf' hf
        cases h
        have hk : k < 2 ^ P.BITS := by
          rw [← lt_pow_BITS_iff]
          apply Nat.not_le.mp
          intro hge
          rw [hbound _ hge] at hroot
          cases hroot
        have hj : (k >>> kLeafBits P) >>> kMidBits P = k >>> (kLeafBits P + kMidBits P) := by
          rw [Nat.shiftRight_add]
        refine ⟨leaf, leaf', hk, by rw [leafTable_of_leafs hroot, hleaf], hf, ?_, ?_⟩
        · rw [← hj] at hroot ⊢
          exact leafTable_setLeafs hroot _ _
        · intro i hi
          have hne : i ≠ k >>> (kLeafBits P + kMidBits P) := fun heq => by
            rw [hbound _ (heq ▸ hi)] at hroot
            cases hroot
          exact (Function.update_of_ne hne ..).trans (hbound i hi)

theorem makeNode_eq_some {allocNode : Nat → Bool} {i1 : Nat} (hi1 : i1 < kRootLength P) (hbound : RootBound P m)
    (h : makeNode P allocNode m i1 = some m') :
    leafTable P m' = leafTable P m ∧ (m'.root i1).isSome ∧ RootBound P m' := by
  simp only [makeNode] at h
  split at h
  · rename_i node hnode
    cases h
    exact ⟨rfl, by rw [hnode]; rfl, hbound⟩
  · rename_i hnone
    split at h
    · cases h
      refine ⟨?_, by simp, ?_⟩
      · funext j
        simp only [leafTable]
        by_cases hj : j >>> kMidBits P = i1
        · rw [hj, Function.update_self, hnone]
        · rw [Function.update_of_ne hj]
      · intro i hi
        have hne : i ≠ i1 := by omega
        dsimp only
        rw [Function.update_of_ne hne]
        exact hbound i hi
    · cases h

theorem makeLeaf_eq_some {allocLeaf : Nat → Nat → Bool} {key : Nat} (hbound : RootBound P m)
    (h : makeLeaf P allocLeaf m (key >>> (kLeafBits P + kMidBits P)) ((key >>> kLeafBits P) &&& (kMidLength P - 1)) =
      some m') :
    AddsLeaves (leafTable P m) (leafTable P m') ∧ (leafTable P m' (key >>> kLeafBits P)).isSome ∧ RootBound P m' := by
  have hj : (key >>> kLeafBits P) >>> kMidBits P = key >>> (kLeafBits P + kMidBits P) := by
    rw [Nat.shiftRight_add]
  simp only [makeLeaf] at h
  split at h
  · cases h
  · rename_i node hroot
    split at h
    · rename_i leaf hleaf
      cases h
      exact ⟨addsLeaves_refl _, by rw [leafTable_of_leafs hroot, hleaf]; rfl, hbound⟩
    · rename_i hnone
      split at h
      · cases h
        have htable := leafTable_setLeafs (hj ▸ hroot) (some Leaf.zero) (m.bytesUsed + sizeofLeaf P)
        rw [hj] at htable
        refine ⟨?_, ?_, ?_⟩
        · rw [htable]
          exact addsLeaves_update (by rw [leafTable_of_leafs hroot, hnone])
        · rw [htable]
          simp
        · intro i hi
          have hne : i ≠ key >>> (kLeafBits P + kMidBits P) := fun heq => by
            rw [hbound _ (heq ▸ hi)] at hroot
            cases hroot
          exact (Function.update_of_ne hne ..).trans (hbound i hi)
      · cases h

theorem makeNode_root_isSome {allocNode : Nat → Bool} {i1 : Nat} (h : makeNode P allocNode m i1 = some m') :
    (m'.root i1).isSome := by
  simp only [makeNode] at h
  split at h
  · rename_i node hnode
    cases h
    rw [hnode]
    rfl
  · split at h
    · cases h
      simp
    · cases h

theorem makeNode_ne_none {allocNode : Nat → Bool} (hnode : ∀ i, allocNode i = true) (i1 : Nat) :
    makeNode P allocNode m i1 ≠ none := by
  simp only [makeNode, hnode, if_true]
  split <;> simp

theorem makeLeaf_ne_none {allocLeaf : Nat → Nat → Bool} (hleaf : ∀ i j, allocLeaf i j = true) {i1 : Nat}
    (hroot : (m.root i1).isSome) (i2 : Nat) : makeLeaf P allocLeaf m i1 i2 ≠ none := by
  simp only [makeLeaf, hleaf, if_true]
  split
  · rename_i hnone
    rw [hnone] at hroot
    cases hroot
  · split <;> simp

variable (P) in
theorem ensureLoop_spec (allocNode : Nat → Bool) (allocLeaf : Nat → Nat → Bool) (last : Nat) (m : PageMap3)
    (key : Nat) (hbound : RootBound P m) :
    AddsLeaves (leafTable P m) (leafTable P (ensureLoop P allocNode allocLeaf last m key).2) ∧
      RootBound P (ensureLoop P allocNode allocLeaf last m key).2 ∧
      ((ensureLoop P allocNode allocLeaf last m key).1 = true →
        ∀ k, key ≤ k → k ≤ last →
          (leafTable P (ensureLoop P allocNode allocLeaf last m key).2 (k >>> kLeafBits P)).isSome) := by
  fun_induction ensureLoop P allocNode allocLeaf last m key with
  | case1 m key hle i1 hover =>
      exact ⟨addsLeaves_refl _, hbound, fun h => by cases h⟩
  | case2 m key hle i1 hover hnode =>
      exact ⟨addsLeaves_refl _, hbound, fun h => by cases h⟩
  | case3 m key hle i1 i2 hover m₁ hnode hleaf =>
      obtain ⟨htable, -, hbound₁⟩ := makeNode_eq_some (Nat.not_le.mp hover) hbound hnode
      exact ⟨by rw [htable]; exact addsLeaves_refl _, hbound₁, fun h => by cases h⟩
  | case4 m key hle i1 i2 hover m₁ hnode m₂ hleaf ih =>
      obtain ⟨htable, -, hbound₁⟩ := makeNode_eq_some (Nat.not_le.mp hover) hbound hnode
      obtain ⟨hadds, hsome, hbound₂⟩ := makeLeaf_eq_some hbound₁ hleaf
      obtain ⟨ihadds, ihbound, ihtrue⟩ := ih hbound₂
      refine ⟨(htable ▸ hadds).trans ihadds, ihbound, fun htrue k hk hkl => ?_⟩
      by_cases hnext : ((key >>> kLeafBits P) + 1) <<< kLeafBits P ≤ k
      · exact ihtrue htrue k hnext hkl
      · -- `k` lies in the leaf of `key`, allocated in this round
        have hlow : (key >>> kLeafBits P) * 2 ^ kLeafBits P ≤ k := by
          have := shiftRight_mul_add_and key (kLeafBits P)
          omega
        have hhigh : k < (key >>> kLeafBits P + 1) * 2 ^ kLeafBits P := by
          rw [Nat.shiftLeft_eq] at hnext
          omega
        have hleafNo : k >>> kLeafBits P = key >>> kLeafBits P := shiftRight_eq_iff.mpr ⟨hlow, hhigh⟩
        rw [hleafNo]
        exact ihadds.isSome hsome
  | case5 m key hgt =>
      exact ⟨addsLeaves_refl _, hbound, fun _ k hk hkl => by omega⟩

theorem ensure_backs {allocNode : Nat → Bool} {allocLeaf : Nat → Nat → Bool} {start n : Nat}
    (hbound : RootBound P m) (h : ensure P allocNode allocLeaf m start n = (true, m'))
    (hfit : start + n ≤ 2 ^ 64) (k : Nat) (hlo : start ≤ k) (hhi : k < start + n) :
    (leafTable P m' (k >>> kLeafBits P)).isSome := by
  have hlast : (start + n + 2 ^ 64 - 1) % 2 ^ 64 = start + n - 1 := by
    rw [show start + n + 2 ^ 64 - 1 = (start + n - 1) + 2 ^ 64 by omega, Nat.add_mod_right,
      Nat.mod_eq_of_lt (by omega)]
  have hspec := (ensureLoop_spec P allocNode allocLeaf ((start + n + 2 ^ 64 - 1) % 2 ^ 64) m start hbound).2.2
  simp only [ensure] at h
  rw [h] at hspec
  exact hspec rfl k hlo (by omega)

variable (P) in
theorem ensureLoop_true (allocNode : Nat → Bool) (allocLeaf : Nat → Nat → Bool) (hnode : ∀ i, allocNode i = true)
    (hleaf : ∀ i j, allocLeaf i j = true) (last : Nat) (hlast : last < 2 ^ P.BITS) (m : PageMap3) (key : Nat) :
    (ensureLoop P allocNode allocLeaf last m key).1 = true := by
  fun_induction ensureLoop P allocNode allocLeaf last m key with
  | case1 m key hle i1 hover =>
      have hi1 : i1 < kRootLength P := (lt_pow_BITS_iff P).mpr (by omega)
      omega
  | case2 m key hle i1 hover hmake =>
      exact absurd hmake (makeNode_ne_none hnode i1)
  | case3 m key hle i1 i2 hover m₁ hmake hmakeLeaf =>
      exact absurd hmakeLeaf (makeLeaf_ne_none hleaf (makeNode_root_isSome hmake) i2)
  | case4 m key hle i1 i2 hover m₁ hmake m₂ hmakeLeaf ih => exact ih
  | case5 m key hgt => rfl

theorem ensure_true {allocNode : Nat → Bool} {allocLeaf : Nat → Nat → Bool} (hnode : ∀ i, allocNode i = true)
    (hleaf : ∀ i j, allocLeaf i j = true) {start n : Nat} (hn : 0 < start + n) (hfit : start + n ≤ 2 ^ P.BITS)
    (hfit64 : start + n ≤ 2 ^ 64) :
    (ensure P allocNode allocLeaf m start n).1 = true := by
  have hlast : (start + n + 2 ^ 64 - 1) % 2 ^ 64 = start + n - 1 := by
    rw [show start + n + 2 ^ 64 - 1 = (start + n - 1) + 2 ^ 64 by omega, Nat.add_mod_right,
      Nat.mod_eq_of_lt (by omega)]
  simp only [ensure, hlast]
  exact ensureLoop_true P allocNode allocLeaf hnode hleaf (start + n - 1) (by omega) m start

/-! ### The tree holds the flat map -/

variable {s : PageMapSpec}

theorem rootBound_init : RootBound P init := fun _ _ => rfl

theorem rep_step (rep : Rep P.layout (leafTable P m) s) (hbound : RootBound P m)
    {c : Call ((Nat → Bool) × (Nat → Nat → Bool))} (hok : Allowed P m c) (hstep : step P m c = some m') :
    Rep P.layout (leafTable P m') (PageMapSpec.step P.layout.hugepageShift s c) ∧ RootBound P m' := by
  cases c with
  | ensure start n alloc =>
      simp only [PageMap3.step, Option.some.injEq] at hstep
      subst hstep
      obtain ⟨hadds, hbound', -⟩ := ensureLoop_spec P alloc.1 alloc.2 ((start + n + 2 ^ 64 - 1) % 2 ^ 64) m start hbound
      exact ⟨rep.of_addsLeaves hadds, hbound'⟩
  | set k span =>
      simp only [PageMap3.step, PageMap3.set] at hstep
      obtain ⟨leaf, leaf', hk, hleaf, hf, htable, hbound'⟩ := updateLeaf_eq_some hbound hstep
      have hf' : (if leaf.sizeclass (k &&& (kLeafLength P - 1)) ≠ 0 then none
          else some (leaf.setSpanAndSizeclass (k &&& (kLeafLength P - 1)) span 0)) = some leaf' := hf
      split at hf'
      · cases hf'
      · cases hf'
        rw [htable]
        exact ⟨rep.setSpanAndSizeclass hleaf hk hok (Nat.two_pow_pos _), hbound'⟩
  | setWithSizeclass k span sc =>
      simp only [PageMap3.step, PageMap3.setWithSizeclass] at hstep
      split at hstep
      · cases hstep
      · obtain ⟨leaf, leaf', hk, hleaf, hf, htable, hbound'⟩ := updateLeaf_eq_some hbound hstep
        cases hf
        have hspan := rep.setSpanAndSizeclass hleaf hk hok.1 hok.2
        have hboth := hspan.setSizeclass (Function.update_self ..) hk sc
        rw [Function.update_idem] at hboth
        rw [htable]
        exact ⟨hboth, hbound'⟩
  | clearSizeclass k =>
      simp only [PageMap3.step, PageMap3.clearSizeclass] at hstep
      split at hstep
      · cases hstep
      · obtain ⟨leaf, leaf', hk, hleaf, hf, htable, hbound'⟩ := updateLeaf_eq_some hbound hstep
        cases hf
        rw [htable]
        exact ⟨rep.setSizeclass hleaf hk 0, hbound'⟩
  | setHugepage k v =>
      simp only [PageMap3.step, PageMap3.setHugepage] at hstep
      split at hstep
      · cases hstep
      · obtain ⟨leaf, leaf', -, hleaf, hf, htable, hbound'⟩ := updateLeaf_eq_some hbound hstep
        cases hf
        rw [htable]
        exact ⟨rep.setHugepage hleaf v, hbound'⟩

theorem rep_of_run {calls : List (Call ((Nat → Bool) × (Nat → Nat → Bool)))}
    (run : Run (step P) (Allowed P) (init) calls m) :
    Rep P.layout (leafTable P m) (calls.foldl (PageMapSpec.step P.layout.hugepageShift) PageMapSpec.empty) ∧
      RootBound P m :=
  Run.invariant_fold (fun m s => Rep P.layout (leafTable P m) s ∧ RootBound P m)
    (PageMapSpec.step P.layout.hugepageShift) (fun _ _ _ _ inv hok hstep => rep_step inv.1 inv.2 hok hstep) run ⟨rep_empty, rootBound_init⟩

/-! ### What the tree answers -/

theorem leaf_entries (rep : Rep P.layout (leafTable P m) s) {leaf : Leaf}
    (hleaf : leafTable P m (k >>> kLeafBits P) = some leaf) :
    (leaf.spanAndSizeclass (k &&& (kLeafLength P - 1))).span = s.span k ∧
      (leaf.spanAndSizeclass (k &&& (kLeafLength P - 1))).sizeclass P.compactBits = s.spanSizeclass k ∧
      leaf.sizeclass (k &&& (kLeafLength P - 1)) = s.sizeclass k ∧
      leaf.hugepage ((k &&& (kLeafLength P - 1)) >>> (kLeafBits P - kLeafHugeBits P)) =
        s.hugepage (k >>> P.layout.hugepageShift) := by
  have hspan := rep.spanAt k
  have hsc := rep.packedSizeclass k
  have hsizeclass := rep.sizeclass k
  have hhuge := rep.hugepage k
  simp only [PageMap.spanAt, packedAt, sizeclassAt, hugepageAt, layout_kLeafBits, layout_kLeafLength,
    layout_kLeafHugeBits, layout_compactBits, hleaf] at hspan hsc hsizeclass hhuge
  exact ⟨hspan, hsc, hsizeclass, hhuge⟩

theorem high_of_shiftRight_ne (rep : Rep P.layout (leafTable P m) s) (hk : k >>> P.BITS ≠ 0) :
    s.span k = 0 ∧ s.spanSizeclass k = 0 ∧ s.sizeclass k = 0 :=
  rep.high k (Nat.not_lt.mp fun h => hk (shiftRight_eq_zero_iff.mpr h))

variable (P) in
theorem get_of_pow_BITS_le (m : PageMap3) (hk : 2 ^ P.BITS ≤ k) : get P m k = 0 := by
  have hpos : k >>> P.BITS > 0 :=
    Nat.pos_of_ne_zero fun h => absurd (shiftRight_eq_zero_iff.mp h) (Nat.not_lt.mpr hk)
  simp only [get, hpos, if_true]

theorem get_eq (rep : Rep P.layout (leafTable P m) s) (k : Nat) : get P m k = s.span k := by
  simp only [PageMap3.get]
  split
  · rename_i hk
    exact (high_of_shiftRight_ne rep (Nat.pos_iff_ne_zero.mp hk)).1.symm
  · split
    · rename_i hroot
      exact (rep.of_missing (leafTable_of_root_none hroot)).1.symm
    · rename_i node hroot
      split
      · rename_i hnone
        exact (rep.of_missing ((leafTable_of_leafs hroot).trans hnone)).1.symm
      · rename_i leaf hleaf
        exact (leaf_entries rep ((leafTable_of_leafs hroot).trans hleaf)).1

theorem leafPtr_eq (m : PageMap3) (k : Nat) :
    (match m.root (k >>> (kLeafBits P + kMidBits P)) with
      | none => none
      | some node => node.leafs ((k >>> kLeafBits P) &&& (kMidLength P - 1))) = leafTable P m (k >>> kLeafBits P) :=
  (leafTable_key P m k).symm

theorem getExisting_eq (rep : Rep P.layout (leafTable P m) s) (k : Nat) :
    getExisting P m k = if backed P m k then some (s.span k) else none := by
  simp only [PageMap3.getExisting, backed]
  by_cases hk : k >>> P.BITS = 0
  · rw [if_neg (not_not.mpr hk)]
    split
    · rename_i hroot
      simp [leafTable_of_root_none hroot]
    · rename_i node hroot
      split
      · rename_i hnone
        simp [(leafTable_of_leafs hroot).trans hnone]
      · rename_i leaf hleaf
        have htable := (leafTable_of_leafs hroot).trans hleaf
        simp only [hk, htable, beq_self_eq_true, Option.isSome_some, Bool.and_self, if_true]
        exact congrArg some (leaf_entries rep htable).1
  · simp [hk]

theorem getExistingWithSizeclass_true_eq (rep : Rep P.layout (leafTable P m) s) (k : Nat) :
    getExistingWithSizeclass P true m k = some (s.span k, s.spanSizeclass k) := by
  simp only [PageMap3.getExistingWithSizeclass, Bool.true_and, leafPtr_eq]
  by_cases hk : k >>> P.BITS = 0
  · cases htable : leafTable P m (k >>> kLeafBits P) with
    | none =>
        obtain ⟨hspan, hsc, -⟩ := rep.of_missing htable
        simp [hspan, hsc]
    | some leaf =>
        obtain ⟨hspan, hsc, -⟩ := leaf_entries rep htable
        simp [hk, hspan, hsc]
  · obtain ⟨hspan, hsc, -⟩ := high_of_shiftRight_ne rep hk
    simp [Nat.pos_of_ne_zero hk, hspan, hsc]

theorem getExistingWithSizeclass_false_eq (rep : Rep P.layout (leafTable P m) s) (k : Nat) :
    getExistingWithSizeclass P false m k = if backed P m k then some (s.span k, s.spanSizeclass k) else none := by
  simp only [PageMap3.getExistingWithSizeclass, Bool.false_and, Bool.false_eq_true, if_false, backed, leafPtr_eq]
  by_cases hk : k >>> P.BITS = 0
  · rw [if_neg (not_not.mpr hk)]
    split
    · rename_i hnone
      simp [hnone]
    · rename_i leaf htable
      obtain ⟨hspan, hsc, -⟩ := leaf_entries rep htable
      simp [hk, htable, hspan, hsc]
  · simp [hk]

theorem sizeclass_eq (rep : Rep P.layout (leafTable P m) s) (k : Nat) : sizeclass P m k = s.sizeclassAnswer k := by
  simp only [PageMap3.sizeclass, PageMapSpec.sizeclassAnswer]
  split
  · rename_i hk
    obtain ⟨-, hsc, hsizeclass⟩ := high_of_shiftRight_ne rep (Nat.pos_iff_ne_zero.mp hk)
    simp [hsc, hsizeclass]
  · split
    · rename_i hroot
      obtain ⟨-, hsc, hsizeclass, -⟩ := rep.of_missing (leafTable_of_root_none hroot)
      simp [hsc, hsizeclass]
    · rename_i node hroot
      split
      · rename_i hnone
        obtain ⟨-, hsc, hsizeclass, -⟩ := rep.of_missing ((leafTable_of_leafs hroot).trans hnone)
        simp [hsc, hsizeclass]
      · rename_i leaf hleaf
        obtain ⟨-, hsc, hsizeclass, -⟩ := leaf_entries rep ((leafTable_of_leafs hroot).trans hleaf)
        simp only [hsc, hsizeclass]

theorem getHugepage_eq (rep : Rep P.layout (leafTable P m) s) (k : Nat) :
    getHugepage P m k = if backed P m k then some (s.hugepage (k >>> P.layout.hugepageShift)) else none := by
  simp only [PageMap3.getHugepage, backed]
  by_cases hk : k >>> P.BITS = 0
  · rw [if_neg (not_not.mpr hk)]
    split
    · rename_i hroot
      simp [leafTable_of_root_none hroot]
    · rename_i node hroot
      split
      · rename_i hnone
        simp [(leafTable_of_leafs hroot).trans hnone]
      · rename_i leaf hleaf
        have htable := (leafTable_of_leafs hroot).trans hleaf
        simp only [hk, htable, beq_self_eq_true, Option.isSome_some, Bool.and_self, if_true]
        exact congrArg some (leaf_entries rep htable).2.2.2
  · simp [hk]

/-! ### `get_next_set_page` -/

theorem leafTable_of_node {node : Node} {i1 i2 : Nat} (hroot : m.root i1 = some node) (hi2 : i2 < kMidLength P) :
    leafTable P m (i1 * 2 ^ kMidBits P + i2) = node.leafs i2 := by
  rw [kMidLength_eq] at hi2
  simp only [leafTable, kMidLength_eq, ← shiftLeft_or_eq i1 hi2, shiftLeft_or_shiftRight i1 hi2,
    shiftLeft_or_and i1 hi2, hroot]

theorem leafTable_of_node_none {i1 j : Nat} (hroot : m.root i1 = none) (hj : j >>> kMidBits P = i1) :
    leafTable P m j = none := by
  simp only [leafTable, hj, hroot]

variable (P) in
theorem nextSetPageMid_spec {node : Node} {i1 : Nat} (hroot : m.root i1 = some node) (n : Nat) :
    ∀ i2 i3, i2 + n ≤ kMidLength P → i3 ≤ kLeafLength P →
      IsFirstIn (fun k => spanAt P.layout (leafTable P m) k != 0)
        ((i1 * 2 ^ kMidBits P + i2) * 2 ^ kLeafBits P + i3) ((i1 * 2 ^ kMidBits P + i2 + n) * 2 ^ kLeafBits P)
        (nextSetPageMid P node i1 n i2 i3) := by
  induction n with
  | zero =>
      intro i2 i3 _ _
      exact isFirstIn_none_of_le (by simp)
  | succ n ih =>
      intro i2 i3 hi2 hi3
      have hrest := ih (i2 + 1) 0 (by omega) (Nat.zero_le _)
      rw [Nat.add_zero, show i1 * 2 ^ kMidBits P + (i2 + 1) + n = i1 * 2 ^ kMidBits P + i2 + (n + 1) by omega,
        ← Nat.add_assoc] at hrest
      have hmid : (i1 * 2 ^ kMidBits P + i2) * 2 ^ kLeafBits P + i3 ≤ (i1 * 2 ^ kMidBits P + i2 + 1) * 2 ^ kLeafBits P := by
        rw [Nat.succ_mul]
        have : i3 ≤ 2 ^ kLeafBits P := kLeafLength_eq P ▸ hi3
        omega
      have hj := leafTable_of_node hroot (show i2 < kMidLength P by omega)
      simp only [nextSetPageMid]
      split
      · rename_i hnone
        have hfirst : IsFirstIn (fun k => spanAt P.layout (leafTable P m) k != 0)
            ((i1 * 2 ^ kMidBits P + i2) * 2 ^ kLeafBits P + i3) ((i1 * 2 ^ kMidBits P + i2 + 1) * 2 ^ kLeafBits P) none :=
          isFirstIn_missing fun j hj1 hj2 => by rw [show j = i1 * 2 ^ kMidBits P + i2 by omega, hj, hnone]
        exact hfirst.append hmid hrest
      · rename_i leaf hleaf
        have hleafScan : IsFirstIn (fun k => spanAt P.layout (leafTable P m) k != 0)
            ((i1 * 2 ^ kMidBits P + i2) * 2 ^ kLeafBits P + i3) ((i1 * 2 ^ kMidBits P + i2 + 1) * 2 ^ kLeafBits P)
            ((leaf.firstSetSlot (kLeafLength P) i3).map ((i1 * 2 ^ kMidBits P + i2) * 2 ^ kLeafBits P + ·)) :=
          isFirstIn_firstSetSlot (hj.trans hleaf) hi3
        split
        · rename_i j hslot
          rw [hslot] at hleafScan
          have hjlt : j < 2 ^ kLeafBits P := kLeafLength_eq P ▸ Leaf.firstSetSlot_lt hslot
          have hi2lt : i2 < 2 ^ kMidBits P := by
            have := kMidLength_eq P
            omega
          rw [shiftLeft_or_shiftLeft i1 hi2lt, shiftLeft_or_eq _ hjlt]
          exact hleafScan.widen (Nat.mul_le_mul_right _ (by omega))
        · rename_i hslot
          rw [hslot] at hleafScan
          exact hleafScan.append hmid hrest

variable (P) in
theorem nextSetPageFrom_spec (m : PageMap3) (n : Nat) :
    ∀ i1 i2 i3, i2 < kMidLength P → i3 ≤ kLeafLength P →
      IsFirstIn (fun k => spanAt P.layout (leafTable P m) k != 0)
        ((i1 * 2 ^ kMidBits P + i2) * 2 ^ kLeafBits P + i3) ((i1 + n) * 2 ^ kMidBits P * 2 ^ kLeafBits P)
        (nextSetPageFrom P m n i1 i2 i3) := by
  have hmidLen := kMidLength_eq P
  induction n with
  | zero =>
      intro i1 i2 i3 _ _
      apply isFirstIn_none_of_le
      rw [Nat.add_zero]
      exact Nat.le_add_right_of_le (Nat.mul_le_mul_right _ (Nat.le_add_right _ _))
  | succ n ih =>
      intro i1 i2 i3 hi2 hi3
      have hpos : 0 < kMidLength P := by omega
      have hrest := ih (i1 + 1) 0 0 hpos (Nat.zero_le _)
      rw [Nat.add_zero, Nat.add_zero, show i1 + 1 + n = i1 + (n + 1) by omega] at hrest
      have hnode_end : (i1 + 1) * 2 ^ kMidBits P = i1 * 2 ^ kMidBits P + i2 + (kMidLength P - i2) := by
        rw [Nat.succ_mul]
        omega
      have hmid : (i1 * 2 ^ kMidBits P + i2) * 2 ^ kLeafBits P + i3 ≤ (i1 + 1) * 2 ^ kMidBits P * 2 ^ kLeafBits P := by
        rw [hnode_end]
        have : (i1 * 2 ^ kMidBits P + i2 + 1) * 2 ^ kLeafBits P ≤
            (i1 * 2 ^ kMidBits P + i2 + (kMidLength P - i2)) * 2 ^ kLeafBits P :=
          Nat.mul_le_mul_right _ (by omega)
        have : i3 ≤ 2 ^ kLeafBits P := kLeafLength_eq P ▸ hi3
        rw [Nat.succ_mul] at *
        omega
      simp only [nextSetPageFrom]
      split
      · rename_i hnone
        have hfirst : IsFirstIn (fun k => spanAt P.layout (leafTable P m) k != 0)
            ((i1 * 2 ^ kMidBits P + i2) * 2 ^ kLeafBits P + i3) ((i1 + 1) * 2 ^ kMidBits P * 2 ^ kLeafBits P) none :=
          isFirstIn_missing fun j hj1 hj2 => leafTable_of_node_none hnone
            (shiftRight_eq_iff.mpr ⟨by omega, by omega⟩)
        exact hfirst.append hmid hrest
      · rename_i node hroot
        have hscan := nextSetPageMid_spec P hroot (kMidLength P - i2) i2 i3 (by omega) hi3
        rw [← hnode_end] at hscan
        split
        · rename_i k hk
          rw [hk] at hscan
          exact hscan.widen (Nat.mul_le_mul_right _ (Nat.mul_le_mul_right _ (by omega)))
        · rename_i hk
          rw [hk] at hscan
          exact hscan.append hmid hrest

theorem getNextSetPage_spec (rep : Rep P.layout (leafTable P m) s) (k : Nat) :
    s.IsFirstSetPage ((k + 1) % 2 ^ 64) (getNextSetPage P m k) := by
  simp only [getNextSetPage]
  generalize (k + 1) % 2 ^ 64 = lo
  have hmidLen := kMidLength_eq P
  -- the three indices of `k + 1` put back together
  have hleafNo := shiftRight_mul_add_and (lo >>> kLeafBits P) (kMidBits P)
  have hpage := shiftRight_mul_add_and lo (kLeafBits P)
  rw [← Nat.shiftRight_add] at hleafNo
  have hi2 : (lo >>> kLeafBits P) &&& (kMidLength P - 1) < kMidLength P := by
    rw [hmidLen]
    exact and_mask_lt _ _
  have hi3 : lo &&& (kLeafLength P - 1) ≤ kLeafLength P := by
    rw [kLeafLength_eq]
    exact Nat.le_of_lt (and_mask_lt lo (kLeafBits P))
  have hscan := nextSetPageFrom_spec P m (kRootLength P - lo >>> (kLeafBits P + kMidBits P))
    (lo >>> (kLeafBits P + kMidBits P)) ((lo >>> kLeafBits P) &&& (kMidLength P - 1))
    (lo &&& (kLeafLength P - 1)) hi2 hi3
  have hlo : (lo >>> (kLeafBits P + kMidBits P) * 2 ^ kMidBits P +
      ((lo >>> kLeafBits P) &&& (kMidLength P - 1))) * 2 ^ kLeafBits P +
        (lo &&& (kLeafLength P - 1)) = lo := by
    rw [hmidLen, kLeafLength_eq, hleafNo]
    exact hpage
  have hspan : (fun k => spanAt P.layout (leafTable P m) k != 0) = (fun k => s.span k != 0) :=
    funext fun k => by rw [rep.spanAt k]
  rw [hspan, hlo] at hscan
  apply PageMapSpec.isFirstSetPage_of_isFirstIn hscan
  intro j hj
  apply (rep.high j _).1
  -- the scan ends at or above `kRootLength << (kLeafBits + kMidBits)`, which is `2 ^ BITS`
  have hend : kRootLength P * 2 ^ kMidBits P * 2 ^ kLeafBits P ≤
      (lo >>> (kLeafBits P + kMidBits P) + (kRootLength P - lo >>> (kLeafBits P + kMidBits P))) *
        2 ^ kMidBits P * 2 ^ kLeafBits P :=
    Nat.mul_le_mul_right _ (Nat.mul_le_mul_right _ (by omega))
  have hbits : kRootLength P * 2 ^ kMidBits P * 2 ^ kLeafBits P = 2 ^ P.BITS := by
    rw [kRootLength_eq, ← Nat.pow_add, ← Nat.pow_add, Nat.add_assoc, Nat.add_comm (kMidBits P), bits_eq]
  simp only [layout_BITS]
  omega

/-! ### Every run's answers -/

variable (P) in
/-- What a `PageMap3` holding the flat map `s` answers: the flat map's entries, with a
failed assertion (`none`) where a read asserts an allocated leaf that is missing. -/
structure Answers (m : PageMap3) (s : PageMapSpec) : Prop where
  get_eq : ∀ k, get P m k = s.span k
  getExisting_eq : ∀ k, getExisting P m k = if backed P m k then some (s.span k) else none
  getExistingWithSizeclass_true_eq : ∀ k,
    getExistingWithSizeclass P true m k = some (s.span k, s.spanSizeclass k)
  getExistingWithSizeclass_false_eq : ∀ k,
    getExistingWithSizeclass P false m k = if backed P m k then some (s.span k, s.spanSizeclass k) else none
  sizeclass_eq : ∀ k, sizeclass P m k = s.sizeclassAnswer k
  getHugepage_eq : ∀ k,
    getHugepage P m k = if backed P m k then some (s.hugepage (k >>> P.layout.hugepageShift)) else none
  getNextSetPage_spec : ∀ k, s.IsFirstSetPage ((k + 1) % 2 ^ 64) (getNextSetPage P m k)

theorem answers_of_rep (rep : Rep P.layout (leafTable P m) s) : Answers P m s :=
  ⟨get_eq rep, getExisting_eq rep, getExistingWithSizeclass_true_eq rep, getExistingWithSizeclass_false_eq rep,
    sizeclass_eq rep, getHugepage_eq rep, getNextSetPage_spec rep⟩

theorem updateLeaf_isSome {f : Leaf → Option Leaf} (hbound : RootBound P m) (h : updateLeaf P m k f = some m')
    (j : Nat) : (leafTable P m' j).isSome = (leafTable P m j).isSome := by
  obtain ⟨leaf, leaf', -, hleaf, -, htable, -⟩ := updateLeaf_eq_some hbound h
  rw [htable]
  exact isSome_update_some hleaf j

theorem backed_of_write (hbound : RootBound P m) {c : Call ((Nat → Bool) × (Nat → Nat → Bool))}
    (hstep : step P m c = some m') (hw : c.writtenPage = some k) : backed P m' = backed P m := by
  have htable : ∀ j, (leafTable P m' j).isSome = (leafTable P m j).isSome := by
    cases c with
    | set k span =>
        simp only [PageMap3.step, PageMap3.set] at hstep
        exact updateLeaf_isSome hbound hstep
    | setWithSizeclass k span sc =>
        simp only [PageMap3.step, PageMap3.setWithSizeclass] at hstep
        split at hstep
        · cases hstep
        · exact updateLeaf_isSome hbound hstep
    | clearSizeclass k =>
        simp only [PageMap3.step, PageMap3.clearSizeclass] at hstep
        split at hstep
        · cases hstep
        · exact updateLeaf_isSome hbound hstep
    | ensure | setHugepage => cases hw
  funext k'
  simp only [backed, htable]

variable (P) in
/-- `m` and `m'` answer alike for page `k`. -/
def SameAnswers (m m' : PageMap3) (k : Nat) : Prop :=
  get P m' k = get P m k ∧ getExisting P m' k = getExisting P m k ∧
    (∀ b, getExistingWithSizeclass P b m' k = getExistingWithSizeclass P b m k) ∧
    sizeclass P m' k = sizeclass P m k ∧ getHugepage P m' k = getHugepage P m k

theorem sameAnswers_of_write (rep : Rep P.layout (leafTable P m) s) (hbound : RootBound P m)
    {c : Call ((Nat → Bool) × (Nat → Nat → Bool))} (hok : Allowed P m c) (hstep : step P m c = some m')
    {k' : Nat} (hw : c.writtenPage = some k) (hk : k' ≠ k) : SameAnswers P m m' k' := by
  have ans := answers_of_rep rep
  have ans' := answers_of_rep (rep_step rep hbound hok hstep).1
  obtain ⟨hspan, hsc, hsizeclass, hhuge⟩ := s.step_of_writtenPage P.layout.hugepageShift hw hk
  have hbacked := backed_of_write hbound hstep hw
  refine ⟨?_, ?_, fun b => ?_, ?_, ?_⟩
  · rw [ans'.get_eq, ans.get_eq, hspan]
  · rw [ans'.getExisting_eq, ans.getExisting_eq, hspan, hbacked]
  · cases b
    · rw [ans'.getExistingWithSizeclass_false_eq, ans.getExistingWithSizeclass_false_eq, hspan, hsc, hbacked]
    · rw [ans'.getExistingWithSizeclass_true_eq, ans.getExistingWithSizeclass_true_eq, hspan, hsc]
  · rw [ans'.sizeclass_eq, ans.sizeclass_eq]
    simp only [PageMapSpec.sizeclassAnswer, hsc, hsizeclass]
  · rw [ans'.getHugepage_eq, ans.getHugepage_eq, hhuge, hbacked]

end PageMap3

end TCMalloc.PageMap
