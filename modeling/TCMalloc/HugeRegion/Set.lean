import Mathlib.Data.List.Perm.Basic
import TCMalloc.Lib.SortedList
import TCMalloc.HugeRegion.Run

/-!
`HugeRegionSet` of `huge_region.h`: the regions a `HugePageAwareAllocator` has
contributed, on an intrusive `TList` kept sorted by each region's longest free
range, so that `MaybeGet` takes from the most fragmented region that fits, and
a set-level `free_backed_count_` kept beside the regions' own counters.

A call works on one region `r` of the list; the list is then split around it
as `pre ++ r :: post`.  `Rise` walks back from `r` with the list's iterator and
`Fall` walks forward, which is `List.span` over `pre` reversed and over `post`.
The `TC_ASSERT`s on the counters are checks: a call returns `none` when one fails.
-/

set_option autoImplicit false
set_option relaxedAutoImplicit false

namespace TCMalloc

open TCMalloc.Lib TCMalloc.Lib.SortedList

namespace HugeRegion

variable {H P : Nat}

/-- `BetterToAllocThan(rhs)`: a shorter longest free range. -/
def betterToAllocThan (s rhs : HugeRegion H P) : Bool :=
  decide (s.tracker.longestFree < rhs.tracker.longestFree)

end HugeRegion

/-- `HugeRegionUsageOption`. -/
inductive HugeRegionUsageOption
  | kDefault
  | kUseForAllLargeAllocs
  deriving DecidableEq, Repr

/-- A region on the set's list: the first hugepage of its `location_`, and the
region with the ranges its callers hold, relative to `location_` (ghost state,
for what the callers promise). -/
structure HugeRegionSet.Member (H P : Nat) where
  first : Nat
  st : HugeRegion.State H P

structure HugeRegionSet (H P : Nat) where
  n : Nat
  useHugeRegionMoreOften : HugeRegionUsageOption
  list : List (HugeRegionSet.Member H P)
  freeBackedCount : Nat
  lowaterFreeBacked : Nat

namespace HugeRegionSet

variable {H P : Nat}

namespace Member

/-- The region's `longest_free()`. -/
def longestFree (m : Member H P) : Nat := m.st.region.tracker.longestFree

/-- `r->BetterToAllocThan(other)` between two regions of the list. -/
def betterToAllocThan (m other : Member H P) : Bool := m.st.region.betterToAllocThan other.st.region

/-- `contains(p)`: the hugepage of page `p` lies in `location_`. -/
def contains (m : Member H P) (p : Nat) : Bool := m.first ≤ p / P && p / P - m.first < H

/-- `unback_` as the region calls it, on its run of `len` hugepages from its
hugepage `i`, where `unback` gives the outcome on a range of pages. -/
def unbackAt (m : Member H P) (unback : Nat → Nat → Bool) (i len : Nat) : Bool :=
  unback ((m.first + i) * P) (len * P)

@[simp] theorem betterToAllocThan_eq_true {m other : Member H P} :
    m.betterToAllocThan other = true ↔ m.longestFree < other.longestFree := by
  simp [betterToAllocThan, HugeRegion.betterToAllocThan, longestFree]

end Member

/-- The constructor. -/
def init (useHugeRegionMoreOften : HugeRegionUsageOption) : HugeRegionSet H P :=
  ⟨0, useHugeRegionMoreOften, [], 0, 0⟩

section List

/-- `Rise(r)` for `r` between `pre` and `post`: the parts of the list before and
after `r` afterwards. -/
def rise (r : Member H P) (pre post : List (Member H P)) : List (Member H P) × List (Member H P) :=
  match pre.reverse with
  | [] => (pre, post)
  | prev :: _ =>
      if !r.betterToAllocThan prev then (pre, post)
      else
        -- back from `prev` to the first region `r` is not better than; `r` goes
        -- after it, or to the front
        let w := pre.reverse.span fun a => r.betterToAllocThan a
        (w.2.reverse, w.1.reverse ++ post)

/-- `Fall(r)` for `r` between `pre` and `post`: the list afterwards. -/
def fall (r : Member H P) (pre post : List (Member H P)) : List (Member H P) :=
  match post with
  | [] => pre ++ [r]
  | next :: _ =>
      if !next.betterToAllocThan r then pre ++ r :: post
      else
        -- on from `next` to the first region not better than `r`; `r` goes
        -- before it, or to the back
        let w := post.span fun a => a.betterToAllocThan r
        pre ++ w.1 ++ r :: w.2

/-- `Fix(r)`: `Rise(r)`, then `Fall(r)` from where `r` is then. -/
def fix (r : Member H P) (pre post : List (Member H P)) : List (Member H P) :=
  fall r (rise r pre post).1 (rise r pre post).2

/-- `AddToList(r)`: before the first region `r` is better than, or at the back. -/
def addToList (r : Member H P) (l : List (Member H P)) : List (Member H P) :=
  let w := l.span fun curr => !r.betterToAllocThan curr
  w.1 ++ r :: w.2

/-- The order the list is kept in: longest free range non-decreasing. -/
def Sorted (l : List (Member H P)) : Prop := l.Pairwise fun a b => a.longestFree ≤ b.longestFree

theorem longestFree_trans (a b c : Member H P) (hab : a.longestFree ≤ b.longestFree)
    (hbc : b.longestFree ≤ c.longestFree) : a.longestFree ≤ c.longestFree :=
  Nat.le_trans hab hbc

theorem rise_eq (r : Member H P) (pre post : List (Member H P)) :
    rise r pre post = ((pre.reverse.dropWhile fun a => r.betterToAllocThan a).reverse,
      (pre.reverse.takeWhile fun a => r.betterToAllocThan a).reverse ++ post) := by
  unfold rise
  split
  · next hrev =>
      rw [hrev, List.reverse_eq_nil_iff.mp hrev]
      rfl
  · next prev rest hrev =>
      rw [List.span_eq_takeWhile_dropWhile]
      cases hb : r.betterToAllocThan prev
      · -- `r` is not better than the region before it: the walk stops at once
        have hnot : ¬ r.betterToAllocThan prev = true := by rw [hb]; exact Bool.false_ne_true
        simp only [Bool.not_false, ↓reduceIte]
        rw [hrev, List.takeWhile_cons_of_neg (p := fun a => r.betterToAllocThan a) hnot,
          List.dropWhile_cons_of_neg (p := fun a => r.betterToAllocThan a) hnot, ← hrev,
          List.reverse_reverse, List.reverse_nil, List.nil_append]
      · rfl

theorem fall_eq (r : Member H P) (pre post : List (Member H P)) :
    fall r pre post = pre ++ (post.takeWhile fun a => a.betterToAllocThan r) ++
      r :: post.dropWhile fun a => a.betterToAllocThan r := by
  unfold fall
  split
  · rw [List.takeWhile_nil, List.dropWhile_nil, List.append_nil]
  · next next rest =>
      rw [List.span_eq_takeWhile_dropWhile]
      cases hb : next.betterToAllocThan r
      · -- the region after `r` is not better than it: the walk stops at once
        have hnot : ¬ next.betterToAllocThan r = true := by rw [hb]; exact Bool.false_ne_true
        simp only [Bool.not_false, ↓reduceIte]
        rw [List.takeWhile_cons_of_neg (p := fun a : Member H P => a.betterToAllocThan r) hnot,
          List.dropWhile_cons_of_neg (p := fun a : Member H P => a.betterToAllocThan r) hnot, List.append_nil]
      · rfl

theorem addToList_eq (r : Member H P) (l : List (Member H P)) :
    addToList r l = (l.takeWhile fun curr => !r.betterToAllocThan curr) ++
      r :: l.dropWhile fun curr => !r.betterToAllocThan curr := by
  rw [addToList, List.span_eq_takeWhile_dropWhile]

theorem rise_append (r : Member H P) (pre post : List (Member H P)) :
    (rise r pre post).1 ++ (rise r pre post).2 = pre ++ post := by
  rw [rise_eq, ← List.append_assoc, takeWhile_append_dropWhile_reverse]

theorem fix_eq_append (r : Member H P) (pre post : List (Member H P)) :
    ∃ l₁ l₂, fix r pre post = l₁ ++ r :: l₂ ∧ l₁ ++ l₂ = pre ++ post := by
  refine ⟨(rise r pre post).1 ++ ((rise r pre post).2.takeWhile fun a => a.betterToAllocThan r),
    (rise r pre post).2.dropWhile fun a => a.betterToAllocThan r, fall_eq _ _ _, ?_⟩
  rw [List.append_assoc, List.takeWhile_append_dropWhile, rise_append]

theorem fall_of_sorted {r : Member H P} {pre post : List (Member H P)}
    (h : Sorted (pre ++ r :: post)) : fall r pre post = pre ++ r :: post := by
  rw [fall_eq]
  cases post with
  | nil => rw [List.takeWhile_nil, List.dropWhile_nil, List.append_nil]
  | cons b rest =>
      have hrb : r.longestFree ≤ b.longestFree :=
        List.rel_of_pairwise_cons (List.pairwise_append.mp h).2.1 List.mem_cons_self
      have hnot : ¬ b.betterToAllocThan r = true := by
        rw [Member.betterToAllocThan_eq_true]
        exact Nat.not_lt.mpr hrb
      rw [List.takeWhile_cons_of_neg (p := fun a : Member H P => a.betterToAllocThan r) hnot,
        List.dropWhile_cons_of_neg (p := fun a : Member H P => a.betterToAllocThan r) hnot, List.append_nil]

theorem fall_sorted {r : Member H P} {pre post : List (Member H P)} (h : Sorted (pre ++ post))
    (hpre : ∀ a ∈ pre, a.longestFree ≤ r.longestFree) : Sorted (fall r pre post) := by
  obtain ⟨hsPre, hsPost, hcross⟩ := List.pairwise_append.mp h
  have hwalk := pairwise_insert_dropWhile longestFree_trans (fun a => a.betterToAllocThan r) hsPost
    (x := r) (fun a _ hb => Nat.le_of_lt (Member.betterToAllocThan_eq_true.mp hb))
    (fun a _ hb => Nat.not_lt.mp fun hlt => by
      rw [← Member.betterToAllocThan_eq_true, hb] at hlt
      exact Bool.false_ne_true hlt)
  rw [fall_eq, List.append_assoc]
  refine List.pairwise_append.mpr ⟨hsPre, hwalk, fun a ha b hb => ?_⟩
  rcases List.mem_append.mp hb with hb | hb
  · exact hcross a ha b ((List.takeWhile_sublist _).subset hb)
  · rcases List.mem_cons.mp hb with rfl | hb
    · exact hpre a ha
    · exact hcross a ha b ((List.dropWhile_sublist _).subset hb)

theorem rise_sorted {r : Member H P} {pre post : List (Member H P)} (h : Sorted (pre ++ post)) :
    Sorted ((rise r pre post).1 ++ r :: (rise r pre post).2) ∨
      (rise r pre post = (pre, post) ∧ ∀ a ∈ pre, a.longestFree ≤ r.longestFree) := by
  obtain ⟨hsPre, hsPost, hcross⟩ := List.pairwise_append.mp h
  cases hrev : pre.reverse with
  | nil =>
      have hpre : pre = [] := List.reverse_eq_nil_iff.mp hrev
      subst hpre
      exact Or.inr ⟨rfl, fun a ha => absurd ha List.not_mem_nil⟩
  | cons prev rest =>
      have hprev : prev ∈ pre := List.mem_reverse.mp (by rw [hrev]; exact List.mem_cons_self)
      -- `prev`, the region just before `r`, is the last of `pre` and follows all of it
      have hlast : ∀ a ∈ pre, a.longestFree ≤ prev.longestFree := by
        intro a ha
        have hsRev : (prev :: rest).Pairwise fun a b => b.longestFree ≤ a.longestFree := by
          rw [← hrev]
          exact List.pairwise_reverse.mpr hsPre
        rcases List.mem_cons.mp (hrev ▸ List.mem_reverse.mpr ha) with rfl | hrest
        · exact Nat.le_refl _
        · exact List.rel_of_pairwise_cons hsRev hrest
      by_cases hb : r.betterToAllocThan prev = true
      · left
        have hwalk := pairwise_insert_dropWhile_reverse longestFree_trans
          (fun a => r.betterToAllocThan a) hsPre (x := r)
          (fun a _ hp => Nat.le_of_lt (Member.betterToAllocThan_eq_true.mp hp))
          (fun a _ hp => Nat.not_lt.mp fun hlt => by
            rw [← Member.betterToAllocThan_eq_true, hp] at hlt
            exact Bool.false_ne_true hlt)
        have hrp := Member.betterToAllocThan_eq_true.mp hb
        rw [rise_eq]
        dsimp only
        rw [← List.cons_append, ← List.append_assoc]
        refine List.pairwise_append.mpr ⟨hwalk, hsPost, fun a ha b hb' => ?_⟩
        have hmem : a = r ∨ a ∈ pre := by
          rcases List.mem_append.mp ha with ha | ha
          · exact Or.inr (List.mem_reverse.mp ((List.dropWhile_sublist _).subset
              (List.mem_reverse.mp ha)))
          · rcases List.mem_cons.mp ha with rfl | ha
            · exact Or.inl rfl
            · exact Or.inr (List.mem_reverse.mp ((List.takeWhile_sublist _).subset
                (List.mem_reverse.mp ha)))
        rcases hmem with rfl | ha
        · exact Nat.le_trans (Nat.le_of_lt hrp) (hcross prev hprev b hb')
        · exact hcross a ha b hb'
      · right
        refine ⟨?_, fun a ha => Nat.le_trans (hlast a ha) ?_⟩
        · unfold rise
          rw [hrev]
          simp only [hb, Bool.not_false, ↓reduceIte]
        · exact Nat.not_lt.mp fun hlt => hb (Member.betterToAllocThan_eq_true.mpr hlt)

theorem fix_sorted {r : Member H P} {pre post : List (Member H P)} (h : Sorted (pre ++ post)) :
    Sorted (fix r pre post) := by
  unfold fix
  rcases rise_sorted h (r := r) with hs | ⟨heq, hle⟩
  · rw [fall_of_sorted hs]
    exact hs
  · rw [heq]
    exact fall_sorted h hle

theorem addToList_sorted {l : List (Member H P)} (h : Sorted l) (r : Member H P) :
    Sorted (addToList r l) := by
  rw [addToList_eq]
  apply pairwise_insert_dropWhile longestFree_trans _ h
  · intro a _ hp
    simp only [Bool.not_eq_eq_eq_not, Bool.not_true, ← Bool.not_eq_true,
      Member.betterToAllocThan_eq_true, Nat.not_lt] at hp
    exact hp
  · intro a _ hp
    simp only [Bool.not_eq_eq_eq_not, Bool.not_false, Member.betterToAllocThan_eq_true] at hp
    exact Nat.le_of_lt hp

end List

section Calls

/-- The loop of `MaybeGet(n, &page, &from_released)` over the regions of `post`,
`pre` those it has passed: `some (s', none)` when it returns false,
`some (s', some (page, from_released))` when a region returned a range, and
`none` when a check fails. -/
def maybeGetFrom (s : HugeRegionSet H P) (n : Nat) :
    List (Member H P) → List (Member H P) → Option (HugeRegionSet H P × Option (Nat × Bool))
  | pre, [] => some ({ s with list := pre }, none)
  | pre, m :: post =>
      match m.st.region.maybeGet n with
      | none => none
      | some (r, none) => maybeGetFrom s n (pre ++ [{ m with st := { m.st with region := r } }]) post
      | some (r, some (index, fromReleased)) =>
          let before := m.st.region.freeBackedCount
          let after := r.freeBackedCount
          -- `TC_ASSERT_LE(after, before)` and `TC_ASSERT_GE(free_backed_count_, diff)`
          if before < after ∨ s.freeBackedCount < before - after then none
          else
            let count := s.freeBackedCount - (before - after)
            some ({ s with list := fix ⟨m.first, ⟨r, (index, n) :: m.st.live⟩⟩ pre post
                           freeBackedCount := count
                           lowaterFreeBacked := min s.lowaterFreeBacked count },
              some (m.first * P + index, fromReleased))

/-- `MaybeGet(n, &page, &from_released)`. -/
def maybeGet (s : HugeRegionSet H P) (n : Nat) : Option (HugeRegionSet H P × Option (Nat × Bool)) :=
  s.maybeGetFrom n [] s.list

/-- The loop of `MaybePut(r)` for `r = [p, p + n)` over the regions of `post`,
`pre` those it has passed: whether a region took the range back, and `none` when
a check fails.  `unback` gives the outcome of `unback_` on a range of pages. -/
def maybePutFrom (s : HugeRegionSet H P) (p n : Nat) (unback : Nat → Nat → Bool) :
    List (Member H P) → List (Member H P) → Option (HugeRegionSet H P × Bool)
  | pre, [] => some ({ s with list := pre }, false)
  | pre, m :: post =>
      if m.contains p then
        -- `release` is `!UseHugeRegionMoreOften()`
        match m.st.region.put (p - m.first * P) n
            (s.useHugeRegionMoreOften != .kUseForAllLargeAllocs) (m.unbackAt unback) with
        | none => none
        | some (r, _) =>
            let before := m.st.region.freeBackedCount
            let after := r.freeBackedCount
            -- `TC_ASSERT_GE(after, before)`
            if after < before then none
            else
              some ({ s with list := fix ⟨m.first, ⟨r, m.st.live.erase (p - m.first * P, n)⟩⟩ pre post
                             freeBackedCount := s.freeBackedCount + (after - before) }, true)
      else maybePutFrom s p n unback (pre ++ [m]) post

/-- `MaybePut(r)` for `r = [p, p + n)`. -/
def maybePut (s : HugeRegionSet H P) (p n : Nat) (unback : Nat → Nat → Bool) :
    Option (HugeRegionSet H P × Bool) :=
  s.maybePutFrom p n unback [] s.list

/-- `Contribute(region)`. -/
def contribute (s : HugeRegionSet H P) (m : Member H P) : HugeRegionSet H P :=
  { s with n := s.n + 1
           freeBackedCount := s.freeBackedCount + m.st.region.freeBackedCount
           list := addToList m s.list }

/-- The loop of `ReleasePages` over the regions of `l` in the order it visits
them, `released` pages released so far: the regions afterwards in the same order
and the pages released, or `none` when a region's check fails. -/
def releaseFrom (toRelease : Nat) (useAdaptive : Bool) (unback : Nat → Nat → Bool) :
    List (Member H P) → Nat → Option (List (Member H P) × Nat)
  | [], released => some ([], released)
  | m :: rest, released =>
      if released ≥ toRelease then some (m :: rest, released)
      else
        match m.st.region.release (toRelease - released) useAdaptive (m.unbackAt unback) with
        | none => none
        | some (r, hl, _) =>
            (releaseFrom toRelease useAdaptive unback rest (released + hl * P)).map fun q =>
              ({ m with st := { m.st with region := r } } :: q.1, q.2)

/-- `ReleasePages(desired, use_adaptive, hit_limit)`: the set afterwards and the
pages released.  The fraction `kFractionToReleaseFromRegion = 0.1` of the free
backed pages is taken as a tenth, which the product in `double` truncates to for
every page count of a 48-bit address space. -/
def releasePages (s : HugeRegionSet H P) (desired : Nat) (useAdaptive hitLimit : Bool)
    (unback : Nat → Nat → Bool) : Option (HugeRegionSet H P × Nat) :=
  let toRelease :=
    if hitLimit then desired
    else if useAdaptive then s.lowaterFreeBacked * P
    else s.freeBackedCount * P / 10
  -- from the back of the list under `use_adaptive`, from the front otherwise
  let visit := if useAdaptive then s.list.reverse else s.list
  match releaseFrom toRelease useAdaptive unback visit 0 with
  | none => none
  | some (l, released) =>
      -- `HLFromPages(released)`, then `TC_ASSERT_LE(released_hl, free_backed_count_)`
      let releasedHl := released / P + if released % P ≠ 0 then 1 else 0
      if s.freeBackedCount < releasedHl then none
      else
        let count := s.freeBackedCount - releasedHl
        some ({ s with list := if useAdaptive then l.reverse else l
                       freeBackedCount := count
                       lowaterFreeBacked := count }, released)

end Calls

end HugeRegionSet

end TCMalloc
