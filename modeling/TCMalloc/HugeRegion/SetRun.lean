import Mathlib
import TCMalloc.HugeRegion.Set

/-!
`HugeRegionSet` with its callers: from the constructor they call `Contribute`
of a new region whose location is apart from the others', `MaybeGet(n)` of at
least one page, `MaybePut` of a range a region holds, and `ReleasePages`, with
an `unback_` that may fail on any call.  Every set reached so keeps its list
sorted and its counter equal to the sum of the regions', no check on the
counters fails, and `MaybeGet` takes from the first region whose longest free
range fits, returning false only when no region has a free run that long.
-/

set_option autoImplicit false
set_option relaxedAutoImplicit false

namespace TCMalloc

open TCMalloc.Lib TCMalloc.Internal

namespace HugeRegionSet

variable {H P : Nat}

/-- The calls of the set's callers; `unback` gives the outcome of `unback_` on a
range of pages. -/
inductive Call
  | contribute (first : Nat)
  | maybeGet (n : Nat)
  | maybePut (p n : Nat) (unback : Nat → Nat → Bool)
  | releasePages (desired : Nat) (useAdaptive hitLimit : Bool) (unback : Nat → Nat → Bool)

/-- `Contribute` takes a region as `HugePageAwareAllocator::AddRegion` constructs
it, on the hugepages from `first`. -/
def step (s : HugeRegionSet H P) : Call → Option (HugeRegionSet H P)
  | .contribute first => some (s.contribute ⟨first, ⟨HugeRegion.init, []⟩⟩)
  | .maybeGet n => (s.maybeGet n).map Prod.fst
  | .maybePut p n unback => (s.maybePut p n unback).map Prod.fst
  | .releasePages desired useAdaptive hitLimit unback =>
      (s.releasePages desired useAdaptive hitLimit unback).map Prod.fst

/-- Two locations of `H` hugepages, by their first hugepage, do not overlap. -/
def Apart (H x y : Nat) : Prop := x + H ≤ y ∨ y + H ≤ x

theorem apart_symm {x y : Nat} (h : Apart H x y) : Apart H y x := h.symm

/-- A new region's location is apart from the others'; `MaybeGet` asks for at
least one page, as the region asserts; `MaybePut` gives back a range a region
holds. -/
def Allowed (s : HugeRegionSet H P) : Call → Prop
  | .contribute first => ∀ m ∈ s.list, Apart H first m.first
  | .maybeGet n => 0 < n
  | .maybePut p n _ => ∃ m ∈ s.list, m.first * P ≤ p ∧ (p - m.first * P, n) ∈ m.st.live
  | .releasePages _ _ _ _ => True

/-- The sum of the regions' `free_backed()`. -/
def regionsFreeBacked (l : List (Member H P)) : Nat := (l.map fun m => m.st.region.freeBackedCount).sum

@[simp] theorem regionsFreeBacked_nil : regionsFreeBacked ([] : List (Member H P)) = 0 := rfl

@[simp] theorem regionsFreeBacked_cons (m : Member H P) (l : List (Member H P)) :
    regionsFreeBacked (m :: l) = m.st.region.freeBackedCount + regionsFreeBacked l := by
  simp [regionsFreeBacked]

@[simp] theorem regionsFreeBacked_append (l₁ l₂ : List (Member H P)) :
    regionsFreeBacked (l₁ ++ l₂) = regionsFreeBacked l₁ + regionsFreeBacked l₂ := by
  simp [regionsFreeBacked]

theorem regionsFreeBacked_reverse (l : List (Member H P)) :
    regionsFreeBacked l.reverse = regionsFreeBacked l := by
  simp [regionsFreeBacked]

/-- Every region is valid with its held ranges, the regions' locations are
apart, the list is sorted, `free_backed_count_` is the sum of the regions' and
bounds its low-water mark, and `n_` counts the regions. -/
structure Inv (s : HugeRegionSet H P) : Prop where
  regions : ∀ m ∈ s.list, HugeRegion.Inv m.st
  apart : (s.list.map Member.first).Pairwise (Apart H)
  sorted : Sorted s.list
  count : s.freeBackedCount = regionsFreeBacked s.list
  lowater : s.lowaterFreeBacked ≤ s.freeBackedCount
  n : s.n = s.list.length

theorem init_inv (useHugeRegionMoreOften : HugeRegionUsageOption) :
    Inv (init useHugeRegionMoreOften : HugeRegionSet H P) :=
  ⟨fun _ h => absurd h List.not_mem_nil, List.Pairwise.nil, List.Pairwise.nil, rfl,
    Nat.le_refl 0, rfl⟩

section Replace

theorem perm_fix (r : Member H P) (pre post : List (Member H P)) :
    (fix r pre post).Perm (r :: (pre ++ post)) := by
  obtain ⟨l₁, l₂, h, h'⟩ := fix_eq_append r pre post
  rw [h, ← h']
  exact List.perm_middle

theorem perm_addToList (r : Member H P) (l : List (Member H P)) :
    (addToList r l).Perm (r :: l) := by
  rw [addToList_eq]
  exact List.perm_middle.trans (by rw [List.takeWhile_append_dropWhile])

theorem regionsFreeBacked_perm {l l' : List (Member H P)} (h : l.Perm l') :
    regionsFreeBacked l = regionsFreeBacked l' :=
  (h.map _).sum_nat

theorem Inv.replace {s : HugeRegionSet H P} (inv : Inv s) {pre post : List (Member H P)}
    {m : Member H P} (hl : s.list = pre ++ m :: post) (m' : Member H P)
    (hm' : HugeRegion.Inv m'.st) (hfirst : m'.first = m.first) {count lowater : Nat}
    (hcount : count + m.st.region.freeBackedCount = s.freeBackedCount + m'.st.region.freeBackedCount)
    (hlow : lowater ≤ count) :
    Inv { s with list := fix m' pre post, freeBackedCount := count, lowaterFreeBacked := lowater } := by
  have hperm : (fix m' pre post).Perm (m' :: (pre ++ post)) := perm_fix m' pre post
  have hperm' : s.list.Perm (m :: (pre ++ post)) := hl ▸ List.perm_middle
  refine ⟨fun a ha => ?_, ?_, ?_, ?_, hlow, ?_⟩
  · rcases List.mem_cons.mp (hperm.subset ha) with rfl | ha
    · exact hm'
    · exact inv.regions a (hperm'.symm.subset (List.mem_cons_of_mem m ha))
  · -- the locations are those of the list before, `m`'s now `m'`'s
    have hmap : ((fix m' pre post).map Member.first).Perm (s.list.map Member.first) := by
      refine (hperm.map Member.first).trans ?_
      rw [List.map_cons, hfirst, ← List.map_cons]
      exact (hperm'.map Member.first).symm
    exact hmap.symm.pairwise inv.apart apart_symm
  · exact fix_sorted (SortedList.pairwise_of_insert (hl ▸ inv.sorted))
  · have hold := inv.count
    rw [hl, regionsFreeBacked_append, regionsFreeBacked_cons] at hold
    show count = regionsFreeBacked (fix m' pre post)
    rw [regionsFreeBacked_perm hperm, regionsFreeBacked_cons, regionsFreeBacked_append]
    omega
  · show s.n = (fix m' pre post).length
    rw [inv.n, hperm.length_eq, hperm'.length_eq]
    rfl

end Replace

section Get

theorem maybeGetFrom_nil (s : HugeRegionSet H P) (n : Nat) (pre : List (Member H P)) :
    s.maybeGetFrom n pre [] = some ({ s with list := pre }, none) := rfl

theorem maybeGetFrom_skip (s : HugeRegionSet H P) (n : Nat) :
    ∀ (mid pre post : List (Member H P)), (∀ a ∈ mid, a.longestFree < n) →
      s.maybeGetFrom n pre (mid ++ post) = s.maybeGetFrom n (pre ++ mid) post
  | [], pre, post, _ => by rw [List.nil_append, List.append_nil]
  | a :: mid, pre, post, h => by
      have ha : n > a.st.region.tracker.longestFree := h a List.mem_cons_self
      have heta : ({ a with st := { a.st with region := a.st.region } } : Member H P) = a := rfl
      rw [List.cons_append, maybeGetFrom, HugeRegion.maybeGet, if_pos ha]
      dsimp only
      rw [heta, maybeGetFrom_skip s n mid (pre ++ [a]) post fun b hb => h b (List.mem_cons_of_mem a hb),
        List.append_assoc, List.singleton_append]

theorem maybeGetFrom_of_get {s : HugeRegionSet H P} {n : Nat} {pre post : List (Member H P)}
    {m : Member H P} {r : HugeRegion H P} {index : Nat} {fromReleased : Bool}
    (hget : m.st.region.maybeGet n = some (r, some (index, fromReleased)))
    (hle : r.freeBackedCount ≤ m.st.region.freeBackedCount)
    (hcount : m.st.region.freeBackedCount - r.freeBackedCount ≤ s.freeBackedCount) :
    s.maybeGetFrom n pre (m :: post) =
      some ({ s with list := fix ⟨m.first, ⟨r, (index, n) :: m.st.live⟩⟩ pre post
                     freeBackedCount := s.freeBackedCount - (m.st.region.freeBackedCount - r.freeBackedCount)
                     lowaterFreeBacked := min s.lowaterFreeBacked
                       (s.freeBackedCount - (m.st.region.freeBackedCount - r.freeBackedCount)) },
        some (m.first * P + index, fromReleased)) := by
  rw [maybeGetFrom, hget]
  dsimp only
  rw [if_neg (by omega)]

/-- What `MaybeGet(n)` did, taking `s` to `s'`: when it returned false, no region
has a free run of `n` pages and nothing changed; otherwise it took `n` free pages
of the first region on the list whose longest free range reaches `n`, and the
list afterwards is the others in their order with that region put back. -/
def Got (s : HugeRegionSet H P) (n : Nat) (s' : HugeRegionSet H P) : Option (Nat × Bool) → Prop
  | none => s' = s ∧ ∀ m ∈ s.list, n ∉ m.st.region.tracker.bits.clearLengths
  | some (page, _) => ∃ pre m post, s.list = pre ++ m :: post ∧
      (∀ a ∈ pre, a.longestFree < n) ∧ n ≤ m.longestFree ∧
      m.first * P ≤ page ∧ page + n ≤ (m.first + H) * P ∧
      m.st.region.tracker.bits.ClearOn (page - m.first * P) (page - m.first * P + n) ∧
      ∃ m' l₁ l₂, s'.list = l₁ ++ m' :: l₂ ∧ l₁ ++ l₂ = pre ++ post ∧ m'.first = m.first

variable (hN : H * P < 2 ^ 64) (hP : 0 < P)
include hN hP

theorem maybeGet_spec {s : HugeRegionSet H P} (inv : Inv s) {n : Nat} (hn : 0 < n) :
    ∃ s' r, s.maybeGet n = some (s', r) ∧ Inv s' ∧ Got s n s' r := by
  have hsplit := List.takeWhile_append_dropWhile (p := fun a : Member H P => decide (a.longestFree < n))
    (l := s.list)
  have hpassed : ∀ a ∈ s.list.takeWhile (fun a : Member H P => decide (a.longestFree < n)),
      a.longestFree < n := fun a ha =>
    of_decide_eq_true (List.mem_takeWhile_imp (p := fun a : Member H P => decide (a.longestFree < n)) ha)
  generalize s.list.takeWhile (fun a : Member H P => decide (a.longestFree < n)) = pre at hsplit hpassed
  cases hd : s.list.dropWhile (fun a : Member H P => decide (a.longestFree < n)) with
  | nil =>
      -- every region's longest free range is below `n`
      rw [hd, List.append_nil] at hsplit
      subst hsplit
      refine ⟨s, none, ?_, inv, rfl, fun m hm hrun => ?_⟩
      · rw [maybeGet, ← List.append_nil s.list, maybeGetFrom_skip s n s.list [] [] hpassed,
          List.nil_append, maybeGetFrom_nil]
      · have hlong := ((inv.regions m hm).valid.exact.longest.mem_clearLengths_iff).mp hrun
        exact absurd (hpassed m hm) (Nat.not_lt.mpr hlong)
  | cons m post =>
      -- the walk stops at `m`, the first region whose longest free range reaches `n`
      have hm : n ≤ m.longestFree := by
        have hne : s.list.dropWhile (fun a : Member H P => decide (a.longestFree < n)) ≠ [] := by
          rw [hd]
          exact List.cons_ne_nil m post
        have hstop := List.head_dropWhile_not (fun a : Member H P => decide (a.longestFree < n)) hne
        simp only [hd, List.head_cons, decide_eq_false_iff_not, Nat.not_lt] at hstop
        exact hstop
      rw [hd] at hsplit
      have hl : s.list = pre ++ m :: post := hsplit.symm
      have minv := inv.regions m (by rw [hl]; exact List.mem_append_right pre List.mem_cons_self)
      obtain ⟨r, res, hget, v', hout⟩ := HugeRegion.maybeGet_spec hN hP minv.valid hn
      cases res with
      | none => exact absurd hout.2 (Nat.not_lt.mpr hm)
      | some got =>
          obtain ⟨index, fromReleased⟩ := got
          have hle := HugeRegion.freeBackedCount_le_of_get hP minv.valid v' hout
          have hsum : m.st.region.freeBackedCount ≤ s.freeBackedCount := by
            rw [inv.count, hl, regionsFreeBacked_append, regionsFreeBacked_cons]
            omega
          have hstep : HugeRegion.step m.st (.maybeGet n) = some ⟨r, (index, n) :: m.st.live⟩ := by
            simp [HugeRegion.step, hget]
          have minv' := HugeRegion.step_inv hN hP minv (c := .maybeGet n) hn hstep
          obtain ⟨hfit, hclear, -⟩ := hout
          have hgot : s.maybeGetFrom n pre (m :: post) = _ := maybeGetFrom_of_get hget hle (by omega)
          have hskip := maybeGetFrom_skip s n pre [] (m :: post) hpassed
          rw [List.nil_append] at hskip
          rw [← hskip, ← hl] at hgot
          have hcount : s.freeBackedCount - (m.st.region.freeBackedCount - r.freeBackedCount) +
              m.st.region.freeBackedCount = s.freeBackedCount + r.freeBackedCount := by
            omega
          refine ⟨_, _, hgot, inv.replace hl ⟨m.first, ⟨r, (index, n) :: m.st.live⟩⟩ minv' rfl
            hcount (Nat.min_le_right _ _),
            pre, m, post, hl, hpassed, hm, Nat.le_add_right _ _, ?_, ?_, ?_⟩
          · rw [Nat.add_mul]
            omega
          · rw [Nat.add_sub_cancel_left]
            exact hclear
          · obtain ⟨l₁, l₂, hfix, happ⟩ := fix_eq_append ⟨m.first, ⟨r, (index, n) :: m.st.live⟩⟩ pre post
            exact ⟨_, l₁, l₂, hfix, happ, rfl⟩

end Get

section Put

variable (hN : H * P < 2 ^ 64) (hP : 0 < P)

theorem maybePutFrom_skip (s : HugeRegionSet H P) (p n : Nat) (unback : Nat → Nat → Bool) :
    ∀ (mid pre post : List (Member H P)), (∀ a ∈ mid, a.contains p = false) →
      s.maybePutFrom p n unback pre (mid ++ post) = s.maybePutFrom p n unback (pre ++ mid) post
  | [], pre, post, _ => by rw [List.nil_append, List.append_nil]
  | a :: mid, pre, post, h => by
      rw [List.cons_append, maybePutFrom, if_neg (by rw [h a List.mem_cons_self]; exact Bool.false_ne_true),
        maybePutFrom_skip s p n unback mid (pre ++ [a]) post fun b hb => h b (List.mem_cons_of_mem a hb),
        List.append_assoc, List.singleton_append]

theorem maybePutFrom_of_put {s : HugeRegionSet H P} {p n : Nat} {unback : Nat → Nat → Bool}
    {pre post : List (Member H P)} {m : Member H P} {r : HugeRegion H P} {calls : List (Nat × Nat)}
    (hc : m.contains p = true)
    (hput : m.st.region.put (p - m.first * P) n (s.useHugeRegionMoreOften != .kUseForAllLargeAllocs)
      (m.unbackAt unback) = some (r, calls))
    (hle : m.st.region.freeBackedCount ≤ r.freeBackedCount) :
    s.maybePutFrom p n unback pre (m :: post) =
      some ({ s with list := fix ⟨m.first, ⟨r, m.st.live.erase (p - m.first * P, n)⟩⟩ pre post
                     freeBackedCount := s.freeBackedCount + (r.freeBackedCount - m.st.region.freeBackedCount) },
        true) := by
  rw [maybePutFrom, if_pos hc, hput]
  dsimp only
  rw [if_neg (Nat.not_lt.mpr hle)]

include hP in
theorem contains_of_live {m : Member H P} {p n : Nat} (hlo : m.first * P ≤ p)
    (hpos : 0 < n) (hfit : p - m.first * P + n ≤ H * P) : m.contains p = true := by
  have hge : m.first ≤ p / P := (Nat.le_div_iff_mul_le hP).mpr hlo
  have hlt : p / P < m.first + H := (Nat.div_lt_iff_lt_mul hP).mpr (by rw [Nat.add_mul]; omega)
  simp only [Member.contains, Bool.and_eq_true, decide_eq_true_eq]
  omega

theorem not_contains_of_apart {a m : Member H P} {p : Nat} (hm : m.contains p = true)
    (hap : Apart H a.first m.first) : a.contains p = false := by
  simp only [Member.contains, Bool.and_eq_true, decide_eq_true_eq] at hm
  simp only [Member.contains, Bool.and_eq_false_iff, decide_eq_false_iff_not]
  unfold Apart at hap
  omega

include hN hP in
theorem maybePut_spec {s : HugeRegionSet H P} (inv : Inv s) {p n : Nat} {unback : Nat → Nat → Bool}
    (allowed : Allowed s (.maybePut p n unback)) :
    ∃ s', s.maybePut p n unback = some (s', true) ∧ Inv s' := by
  obtain ⟨m, hmem, hlo, hlive⟩ := allowed
  obtain ⟨pre, post, hl⟩ := List.append_of_mem hmem
  have minv := inv.regions m hmem
  obtain ⟨hpos, hfit, hset⟩ := minv.live _ hlive
  have hc := contains_of_live hP hlo hpos hfit
  -- the regions before `m` lie apart from it, so none of them contains `p`
  have hpre : ∀ a ∈ pre, a.contains p = false := by
    intro a ha
    have hap := inv.apart
    rw [hl, List.map_append, List.map_cons] at hap
    exact not_contains_of_apart hc ((List.pairwise_append.mp hap).2.2 _ (List.mem_map_of_mem ha) _
      List.mem_cons_self)
  obtain ⟨r, calls, hput, v', hout⟩ := HugeRegion.put_spec hN hP minv.valid hpos hfit hset
    (s.useHugeRegionMoreOften != .kUseForAllLargeAllocs) (m.unbackAt unback)
  have hle := HugeRegion.freeBackedCount_le_of_put hP minv.valid hset v' hout
  have hstep : HugeRegion.step m.st (.put (p - m.first * P) n
      (s.useHugeRegionMoreOften != .kUseForAllLargeAllocs) (m.unbackAt unback)) =
      some ⟨r, m.st.live.erase (p - m.first * P, n)⟩ := by
    simp [HugeRegion.step, hput]
  have minv' := HugeRegion.step_inv hN hP minv
    (c := .put (p - m.first * P) n (s.useHugeRegionMoreOften != .kUseForAllLargeAllocs) (m.unbackAt unback))
    hlive hstep
  have hcount : s.freeBackedCount + (r.freeBackedCount - m.st.region.freeBackedCount) +
      m.st.region.freeBackedCount = s.freeBackedCount + r.freeBackedCount := by
    omega
  refine ⟨_, ?_, inv.replace hl ⟨m.first, ⟨r, m.st.live.erase (p - m.first * P, n)⟩⟩ minv' rfl hcount
    (Nat.le_trans inv.lowater (Nat.le_add_right _ _))⟩
  rw [maybePut, hl, maybePutFrom_skip s p n unback pre [] _ hpre, List.nil_append,
    maybePutFrom_of_put hc hput hle]

end Put

section Release

variable (hN : H * P < 2 ^ 64) (hP : 0 < P)

include hN hP in
theorem releaseFrom_spec (toRelease : Nat) (useAdaptive : Bool) (unback : Nat → Nat → Bool) :
    ∀ (l : List (Member H P)) (released : Nat), (∀ m ∈ l, HugeRegion.Inv m.st) →
      ∃ l' k, releaseFrom toRelease useAdaptive unback l released = some (l', released + k * P) ∧
        l'.map Member.first = l.map Member.first ∧
        l'.map Member.longestFree = l.map Member.longestFree ∧
        (∀ m ∈ l', HugeRegion.Inv m.st) ∧ regionsFreeBacked l' + k = regionsFreeBacked l
  | [], released, _ => ⟨[], 0, by rw [Nat.zero_mul, Nat.add_zero]; rfl, rfl, rfl,
      fun _ h => absurd h List.not_mem_nil, rfl⟩
  | m :: rest, released, hinv => by
      by_cases hdone : released ≥ toRelease
      · refine ⟨m :: rest, 0, ?_, rfl, rfl, hinv, Nat.add_zero _⟩
        rw [releaseFrom, if_pos hdone, Nat.zero_mul, Nat.add_zero]
      · have minv := hinv m List.mem_cons_self
        obtain ⟨r, hl, calls, hrel, -, hout⟩ := HugeRegion.release_spec hN hP minv.valid
          (toRelease - released) useAdaptive (m.unbackAt unback)
        have hcount := HugeRegion.release_freeBackedCount hN hP minv.valid hrel
        have htracker := hout.tracker
        have hstep : HugeRegion.step m.st (.release (toRelease - released) useAdaptive (m.unbackAt unback)) =
            some ⟨r, m.st.live⟩ := by
          simp [HugeRegion.step, hrel]
        have minv' := HugeRegion.step_inv hN hP minv
          (c := .release (toRelease - released) useAdaptive (m.unbackAt unback)) trivial hstep
        obtain ⟨l', k, hrest, hfirst, hlongest, hinv', hsum⟩ := releaseFrom_spec toRelease useAdaptive
          unback rest (released + hl * P) fun a ha => hinv a (List.mem_cons_of_mem m ha)
        refine ⟨⟨m.first, ⟨r, m.st.live⟩⟩ :: l', hl + k, ?_, ?_, ?_, ?_, ?_⟩
        · rw [releaseFrom, if_neg hdone, hrel]
          dsimp only
          rw [hrest, Nat.add_mul, ← Nat.add_assoc]
          rfl
        · rw [List.map_cons, List.map_cons, hfirst]
        · rw [List.map_cons, List.map_cons, hlongest]
          show r.tracker.longestFree :: _ = m.st.region.tracker.longestFree :: _
          rw [htracker]
        · intro a ha
          rcases List.mem_cons.mp ha with rfl | ha
          · exact minv'
          · exact hinv' a ha
        · rw [regionsFreeBacked_cons, regionsFreeBacked_cons]
          show r.freeBackedCount + regionsFreeBacked l' + (hl + k) = _
          omega

theorem sorted_of_map_longestFree {l l' : List (Member H P)}
    (h : l'.map Member.longestFree = l.map Member.longestFree) (hs : Sorted l) : Sorted l' := by
  unfold Sorted at hs ⊢
  rw [← List.pairwise_map] at hs ⊢
  rw [h]
  exact hs

theorem map_unvisit {β : Type} (f : Member H P → β) (b : Bool) {l l' : List (Member H P)}
    (h : l'.map f = (if b then l.reverse else l).map f) :
    (if b then l'.reverse else l').map f = l.map f := by
  cases b
  · exact h
  · simp only [if_true, List.map_reverse] at h ⊢
    rw [h, List.reverse_reverse]

include hN hP in
theorem releasePages_spec {s : HugeRegionSet H P} (inv : Inv s) (desired : Nat)
    (useAdaptive hitLimit : Bool) (unback : Nat → Nat → Bool) :
    ∃ s' released, s.releasePages desired useAdaptive hitLimit unback = some (s', released) ∧
      Inv s' := by
  -- the regions in the order the loop visits them
  have hinv₀ : ∀ m ∈ (if useAdaptive then s.list.reverse else s.list), HugeRegion.Inv m.st := by
    intro m hm
    apply inv.regions
    split at hm
    · exact List.mem_reverse.mp hm
    · exact hm
  have hsum₀ : regionsFreeBacked (if useAdaptive then s.list.reverse else s.list) =
      regionsFreeBacked s.list := by
    split
    · exact regionsFreeBacked_reverse _
    · rfl
  obtain ⟨l', k, hfrom, hfirst, hlongest, hinv', hsum⟩ := releaseFrom_spec hN hP
    (if hitLimit then desired else if useAdaptive then s.lowaterFreeBacked * P
      else s.freeBackedCount * P / 10) useAdaptive unback _ 0 hinv₀
  -- the pages released are whole hugepages, `k` of them, all counted in the set
  have hhl : (0 + k * P) / P + (if (0 + k * P) % P ≠ 0 then 1 else 0) = k := by
    rw [Nat.zero_add, Nat.mul_mod_left, Nat.mul_div_cancel _ hP]
    rfl
  have hk : k ≤ s.freeBackedCount := by
    rw [inv.count, ← hsum₀, ← hsum]
    exact Nat.le_add_left _ _
  have hlist' := map_unvisit Member.first useAdaptive hfirst
  have hlongest' := map_unvisit Member.longestFree useAdaptive hlongest
  have hrel : s.releasePages desired useAdaptive hitLimit unback =
      some ({ s with list := if useAdaptive then l'.reverse else l'
                     freeBackedCount := s.freeBackedCount - k
                     lowaterFreeBacked := s.freeBackedCount - k }, 0 + k * P) := by
    rw [releasePages]
    dsimp only
    rw [hfrom]
    dsimp only
    rw [hhl, if_neg (Nat.not_lt.mpr hk)]
  refine ⟨_, 0 + k * P, hrel, ⟨fun a ha => ?_, ?_, ?_, ?_, Nat.le_refl _, ?_⟩⟩
  · cases useAdaptive
    · exact hinv' a ha
    · exact hinv' a (List.mem_reverse.mp ha)
  · show ((if useAdaptive then l'.reverse else l').map Member.first).Pairwise (Apart H)
    rw [hlist']
    exact inv.apart
  · exact sorted_of_map_longestFree hlongest' inv.sorted
  · show s.freeBackedCount - k = regionsFreeBacked (if useAdaptive then l'.reverse else l')
    have hsum' : regionsFreeBacked (if useAdaptive then l'.reverse else l') = regionsFreeBacked l' := by
      cases useAdaptive
      · rfl
      · exact regionsFreeBacked_reverse l'
    rw [hsum', inv.count, ← hsum₀, ← hsum]
    omega
  · show s.n = (if useAdaptive then l'.reverse else l').length
    have hlength := congrArg List.length hlist'
    rw [List.length_map, List.length_map] at hlength
    rw [inv.n, hlength]

end Release

section Run

variable (hN : H * P < 2 ^ 64) (hP : 0 < P)

theorem contribute_inv {s : HugeRegionSet H P} (inv : Inv s) {first : Nat}
    (allowed : Allowed s (.contribute first)) :
    Inv (s.contribute ⟨first, ⟨HugeRegion.init, []⟩⟩) := by
  have hperm := perm_addToList (⟨first, ⟨HugeRegion.init, []⟩⟩ : Member H P) s.list
  refine ⟨fun a ha => ?_, ?_, addToList_sorted inv.sorted _, ?_, ?_, ?_⟩
  · rcases List.mem_cons.mp (hperm.subset ha) with rfl | ha
    · exact HugeRegion.init_inv
    · exact inv.regions a ha
  · refine (hperm.map Member.first).symm.pairwise ?_ apart_symm
    exact List.pairwise_cons.mpr ⟨fun x hx => by
      obtain ⟨m, hm, rfl⟩ := List.mem_map.mp hx
      exact allowed m hm, inv.apart⟩
  · show s.freeBackedCount + 0 = regionsFreeBacked (addToList _ s.list)
    rw [regionsFreeBacked_perm hperm, regionsFreeBacked_cons, inv.count]
    exact Nat.add_comm _ _
  · exact Nat.le_trans inv.lowater (Nat.le_add_right _ _)
  · show s.n + 1 = (addToList _ s.list).length
    rw [hperm.length_eq, inv.n]
    rfl

include hN hP

theorem exists_step {s : HugeRegionSet H P} (inv : Inv s) {c : Call} (allowed : Allowed s c) :
    ∃ s', step s c = some s' ∧ Inv s' := by
  cases c with
  | contribute first => exact ⟨_, rfl, contribute_inv inv allowed⟩
  | maybeGet n =>
      obtain ⟨s', r, hget, inv', -⟩ := maybeGet_spec hN hP inv allowed
      exact ⟨s', by rw [step, hget]; rfl, inv'⟩
  | maybePut p n unback =>
      obtain ⟨s', hput, inv'⟩ := maybePut_spec hN hP inv allowed
      exact ⟨s', by rw [step, hput]; rfl, inv'⟩
  | releasePages desired useAdaptive hitLimit unback =>
      obtain ⟨s', released, hrel, inv'⟩ := releasePages_spec hN hP inv desired useAdaptive hitLimit unback
      exact ⟨s', by rw [step, hrel]; rfl, inv'⟩

theorem step_inv {s s' : HugeRegionSet H P} {c : Call} (inv : Inv s) (allowed : Allowed s c)
    (hstep : step s c = some s') : Inv s' := by
  obtain ⟨s'', hs'', inv''⟩ := exists_step hN hP inv allowed
  rw [hs''] at hstep
  cases hstep
  exact inv''

theorem run_inv {useHugeRegionMoreOften : HugeRegionUsageOption} {calls : List Call}
    {s : HugeRegionSet H P} (run : Run step Allowed (init useHugeRegionMoreOften) calls s) : Inv s :=
  Run.invariant Inv (fun _ _ _ inv allowed hstep => step_inv hN hP inv allowed hstep) run
    (init_inv useHugeRegionMoreOften)

end Run

/-- What holds of every set its callers reach: the list is sorted by longest
free range, `free_backed_count_` is the sum of the regions' `free_backed()` and
bounds `lowater_free_backed_`, every allowed call returns (no `TC_ASSERT` on the
counters fails, so none of them wraps), and `MaybeGet(n)` does what `Got` says. -/
structure Guarantees (s : HugeRegionSet H P) : Prop where
  sorted : Sorted s.list
  count : s.freeBackedCount = regionsFreeBacked s.list
  lowater : s.lowaterFreeBacked ≤ s.freeBackedCount
  step : ∀ c, Allowed s c → ∃ s', step s c = some s'
  maybeGet : ∀ n, 0 < n → ∃ s' r, s.maybeGet n = some (s', r) ∧ Got s n s' r

theorem hugeRegionSet_sorted_and_counted (hN : H * P < 2 ^ 64) (hP : 0 < P)
    (useHugeRegionMoreOften : HugeRegionUsageOption) {calls : List Call} {s : HugeRegionSet H P}
    (run : Run step Allowed (init useHugeRegionMoreOften) calls s) : Guarantees s := by
  have inv := run_inv hN hP run
  refine ⟨inv.sorted, inv.count, inv.lowater, fun c allowed => ?_, fun n hn => ?_⟩
  · obtain ⟨s', hs', -⟩ := exists_step hN hP inv allowed
    exact ⟨s', hs'⟩
  · obtain ⟨s', r, hget, -, hgot⟩ := maybeGet_spec hN hP inv hn
    exact ⟨s', r, hget, hgot⟩

theorem hugeRegionSet_sorted_and_counted_after_two_regions :
    ∃ s : HugeRegionSet 2 4, Run step Allowed (init .kDefault) [.contribute 0, .contribute 2] s ∧
      s.list.length = 2 ∧ Guarantees s := by
  have run : Run step Allowed (init .kDefault : HugeRegionSet 2 4) [.contribute 0, .contribute 2]
      (((init .kDefault).contribute ⟨0, ⟨HugeRegion.init, []⟩⟩).contribute ⟨2, ⟨HugeRegion.init, []⟩⟩) :=
    .cons (fun _ h => absurd h List.not_mem_nil) rfl
      (.cons (fun m hm => by
        rcases List.mem_singleton.mp hm with rfl
        exact Or.inr (Nat.le_refl 2)) rfl (.nil _))
  exact ⟨_, run, rfl, hugeRegionSet_sorted_and_counted (by decide) (by decide) .kDefault run⟩

end HugeRegionSet

end TCMalloc
