import Mathlib
import TCMalloc.HugePageFiller.Filler
import TCMalloc.Lib.Buckets

/-!
Where the filler keeps its trackers.  A tracker that is not fully free lies on one list:
when donated, on the donated list of its longest free range, and otherwise on the list
`ListFor(longest, IndexFor(pt), type, nallocs)` of its family and density.  `Listed`
relates the seven `HintedTrackerLists` to abstract lists holding exactly the trackers
the filler has, each on its list, with `n_used_released_` and
`n_used_partial_released_` the pages used on the released and partially released ones.
`RemoveFromFillerList`, `AddToFillerList` and `DonateToFillerList` move one tracker off
or onto the lists, and leave the rest of the filler alone.
-/

set_option autoImplicit false
set_option relaxedAutoImplicit false

namespace TCMalloc.HugePageFiller

open TCMalloc.Lib TCMalloc.Lib.Buckets TCMalloc.Internal

/-- The families of lists: the donated ones, and the regular, partially released and
released ones of each density. -/
inductive Place
  | donated
  | listed (fam : Family) (d : AccessDensityPrediction)
  deriving DecidableEq, Repr

/-- The number of lists of a family. -/
def Place.capacity (N : Nat) : Place → Nat
  | .donated => N
  | .listed _ _ => kNumLists N

variable {N : Nat}

/-- Where `DonateToFillerList` or `AddToFillerList` puts a tracker, and where
`RemoveFromFillerList` takes it from. -/
def placeOf (mode : SubreleaseUnbackedMode) (t : Tracker N) : Option (Place × Nat) :=
  if t.donated then some (.donated, t.longestFreeRange)
  else do
    let chunk ← indexFor t
    let i ← listFor N t.longestFreeRange chunk t.density t.nallocs
    some (.listed (family mode t) t.density, i)

/-- `ListFor(longest, IndexFor(pt), type, nallocs)` in closed form. -/
def listIndex (t : Tracker N) : Nat :=
  if t.hasDenseSpans then (N - t.nallocs) * kChunks else t.longestFreeRange * kChunks + chunkOf t.nallocs

/-- The list of a tracker the filler can place. -/
def slotOf (mode : SubreleaseUnbackedMode) (t : Tracker N) : Place × Nat :=
  if t.donated then (.donated, t.longestFreeRange) else (.listed (family mode t) t.density, listIndex t)

/-- A tracker the list operations can place: its longest free range is short of the
hugepage, some page is used, it has an allocation, and a dense one has at most
`kPagesPerHugePage` of them. -/
structure Listable (t : Tracker N) : Prop where
  longest : t.longestFreeRange < N
  nonempty : t.empty = false
  nallocs_pos : 0 < t.nallocs
  nallocs_le : t.hasDenseSpans = true → t.nallocs ≤ N

section Slot

variable {t : Tracker N} (mode : SubreleaseUnbackedMode)

theorem listFor_listIndex (ht : Listable t) :
    listFor N t.longestFreeRange (if t.hasDenseSpans then 0 else chunkOf t.nallocs) t.density t.nallocs =
      some (listIndex t) := by
  unfold listIndex Tracker.density
  cases hd : t.hasDenseSpans
  · simp only [Bool.false_eq_true, if_false]
    exact listFor_sparse ht.longest (chunkOf_lt _)
  · simp only [if_true]
    exact listFor_dense (ht.nallocs_le hd) (by simp [kChunks])

theorem placeOf_eq (ht : Listable t) : placeOf mode t = some (slotOf mode t) := by
  unfold placeOf slotOf
  split
  · rfl
  · simp only [indexFor_eq ht.nonempty, listFor_listIndex ht, Option.bind_eq_bind, Option.bind_some]

theorem slotOf_lt (ht : Listable t) : (slotOf mode t).2 < (slotOf mode t).1.capacity N := by
  unfold slotOf
  split
  · exact ht.longest
  · show listIndex t < kNumLists N
    have hpos := ht.nallocs_pos
    have hchunk := chunkOf_lt t.nallocs
    have hlong := ht.longest
    unfold listIndex kNumLists
    unfold kChunks at hchunk ⊢
    split
    · have := ht.nallocs_le ‹_›
      omega
    · omega

@[simp] theorem family_with_donated (b : Bool) : family mode { t with donated := b } = family mode t := rfl

@[simp] theorem density_with_donated (b : Bool) : ({ t with donated := b } : Tracker N).density = t.density := rfl

@[simp] theorem listIndex_with_donated (b : Bool) : listIndex ({ t with donated := b } : Tracker N) = listIndex t :=
  rfl

theorem slotOf_donated (hd : t.donated = true) : slotOf mode t = (.donated, t.longestFreeRange) := by
  simp [slotOf, hd]

theorem slotOf_listed (hd : t.donated = false) :
    slotOf mode t = (.listed (family mode t) t.density, listIndex t) := by
  simp [slotOf, hd]

end Slot

variable {ι : Type} [DecidableEq ι]

/-- The pages used on the trackers of `S` that lie on the lists of `P`. -/
def usedOn (mode : SubreleaseUnbackedMode) (tracker : ι → Tracker N) (S : Finset ι) (P : Place) : Nat :=
  ∑ q ∈ S, if (placeOf mode (tracker q)).map Prod.fst = some P then (tracker q).usedPages else 0

/-- The lists `L` of each family are those its `HintedTrackerLists` holds; they hold
exactly the trackers of `S`, each on its list; and `n_used_released_` and
`n_used_partial_released_` count the pages used on the released and partially released
ones. -/
structure Listed (f : Filler ι N) (S : Finset ι) (L : Place × Nat → List ι) : Prop where
  donated : HintedTrackerLists.Rep f.donatedAlloc fun i => L (.donated, i)
  regular : ∀ d, HintedTrackerLists.Rep (f.regularAlloc d) fun i => L (.listed .regular d, i)
  released : ∀ d, HintedTrackerLists.Rep (f.regularAllocReleased d) fun i => L (.listed .released d, i)
  partialReleased : ∀ d,
    HintedTrackerLists.Rep (f.regularAllocPartialReleased d) fun i => L (.listed .partialReleased d, i)
  holds : Holds L S fun q => placeOf f.subreleaseUnbackedMode (f.tracker q)
  nUsedReleased : ∀ d, f.nUsedReleased d = usedOn f.subreleaseUnbackedMode f.tracker S (.listed .released d)
  nUsedPartialReleased : ∀ d,
    f.nUsedPartialReleased d = usedOn f.subreleaseUnbackedMode f.tracker S (.listed .partialReleased d)

/-- The fields the list operations leave alone. -/
structure Frame (f' f : Filler ι N) : Prop where
  tracker : f'.tracker = f.tracker
  fullyFreedTrackers : f'.fullyFreedTrackers = f.fullyFreedTrackers
  nWasReleased : f'.nWasReleased = f.nWasReleased
  size : f'.size = f.size
  pagesAllocated : f'.pagesAllocated = f.pagesAllocated
  unmapped : f'.unmapped = f.unmapped
  unmappingUnaccounted : f'.unmappingUnaccounted = f.unmappingUnaccounted
  mode : f'.subreleaseUnbackedMode = f.subreleaseUnbackedMode

/-- The filler after a tracker with `u` used pages was taken off the lists of `P`, which
are now `l`: the count of the released or partially released lists loses its pages.  Both
`RemoveFromFillerList` and the search of `TryGet` leave the filler so. -/
def Filler.takeFrom (f : Filler ι N) : (P : Place) → HintedTrackerLists ι (P.capacity N) → Nat → Filler ι N
  | .donated, l, _ => { f with donatedAlloc := l }
  | .listed .regular d, l, _ => { f with regularAlloc := Function.update f.regularAlloc d l }
  | .listed .released d, l, u =>
    { f with
      regularAllocReleased := Function.update f.regularAllocReleased d l
      nUsedReleased := Function.update f.nUsedReleased d (f.nUsedReleased d - u) }
  | .listed .partialReleased d, l, u =>
    { f with
      regularAllocPartialReleased := Function.update f.regularAllocPartialReleased d l
      nUsedPartialReleased := Function.update f.nUsedPartialReleased d (f.nUsedPartialReleased d - u) }

omit [DecidableEq ι] in
theorem listed_init (mode : SubreleaseUnbackedMode) : Listed (Filler.init mode : Filler ι N) ∅ fun _ => [] where
  donated := HintedTrackerLists.rep_empty
  regular _ := HintedTrackerLists.rep_empty
  released _ := HintedTrackerLists.rep_empty
  partialReleased _ := HintedTrackerLists.rep_empty
  holds := holds_empty
  nUsedReleased _ := rfl
  nUsedPartialReleased _ := rfl

section UsedOn

variable {mode : SubreleaseUnbackedMode} {tracker : ι → Tracker N} {S : Finset ι} {pt : ι}
  {P P₀ : Place} {i : Nat}

theorem usedOn_update (hpt : pt ∉ S) (t : Tracker N) :
    usedOn mode (Function.update tracker pt t) S P = usedOn mode tracker S P :=
  Finset.sum_congr rfl fun q hq => by rw [Function.update_of_ne (ne_of_mem_of_not_mem hq hpt)]

theorem usedOn_erase_self (hpt : pt ∈ S) (hplace : placeOf mode (tracker pt) = some (P, i)) :
    usedOn mode tracker (S.erase pt) P + (tracker pt).usedPages = usedOn mode tracker S P := by
  have := Finset.add_sum_erase S
    (fun q => if (placeOf mode (tracker q)).map Prod.fst = some P then (tracker q).usedPages else 0) hpt
  simp only [hplace, Option.map_some, if_true] at this
  unfold usedOn
  omega

theorem usedOn_erase_of_ne (hpt : pt ∈ S) (hplace : placeOf mode (tracker pt) = some (P₀, i)) (hne : P₀ ≠ P) :
    usedOn mode tracker (S.erase pt) P = usedOn mode tracker S P := by
  have := Finset.add_sum_erase S
    (fun q => if (placeOf mode (tracker q)).map Prod.fst = some P then (tracker q).usedPages else 0) hpt
  simp only [hplace, Option.map_some, Option.some.injEq, if_neg hne, zero_add] at this
  exact this

theorem usedOn_insert_self (hpt : pt ∉ S) (hplace : placeOf mode (tracker pt) = some (P, i)) :
    usedOn mode tracker (insert pt S) P = usedOn mode tracker S P + (tracker pt).usedPages := by
  unfold usedOn
  rw [Finset.sum_insert hpt, hplace, add_comm]
  simp

theorem usedOn_insert_of_ne (hpt : pt ∉ S) (hplace : placeOf mode (tracker pt) = some (P₀, i)) (hne : P₀ ≠ P) :
    usedOn mode tracker (insert pt S) P = usedOn mode tracker S P := by
  unfold usedOn
  rw [Finset.sum_insert hpt, hplace]
  simp [hne]

end UsedOn

section Reps

variable {L : Place × Nat → List ι} {M : Nat} {s : HintedTrackerLists ι M} {P P' : Place} {i : Nat} {pt : ι}

theorem usedOn_update_same {mode : SubreleaseUnbackedMode} {tracker : ι → Tracker N} {S : Finset ι} {pt : ι}
    {t : Tracker N} (hplace : placeOf mode t = placeOf mode (tracker pt))
    (hused : t.usedPages = (tracker pt).usedPages) (P : Place) :
    usedOn mode (Function.update tracker pt t) S P = usedOn mode tracker S P := by
  apply Finset.sum_congr rfl
  intro q _
  by_cases hq : q = pt
  · subst hq
    rw [Function.update_self, hplace, hused]
  · rw [Function.update_of_ne hq]

theorem rep_eraseAt_of_ne (hne : P' ≠ P) (h : HintedTrackerLists.Rep s fun j => L (P', j)) :
    HintedTrackerLists.Rep s fun j => eraseAt L (P, i) pt (P', j) := by
  rwa [eraseAt_slice_ne hne]

omit [DecidableEq ι] in
theorem rep_insertAt_of_ne (hne : P' ≠ P) (h : HintedTrackerLists.Rep s fun j => L (P', j)) :
    HintedTrackerLists.Rep s fun j => insertAt L (P, i) pt (P', j) := by
  rwa [insertAt_slice_ne hne]

end Reps

section Search

variable {L : Place × Nat → List ι} {S : Finset ι} {key : ι → Option (Place × Nat)} {M : Nat}
  {s : HintedTrackerLists ι M} {P : Place} {n : Nat}

theorem getLeast_place (hs : HintedTrackerLists.Rep s fun i => L (P, i)) (hh : Holds L S key) (hn : n < M) :
    (s.getLeast n = some (none, s) ∧ ∀ q ∈ S, ∀ i, key q = some (P, i) → n ≤ i → M ≤ i) ∨
    ∃ pt i s', s.getLeast n = some (some pt, s') ∧ n ≤ i ∧ i < M ∧ pt ∈ S ∧ key pt = some (P, i) ∧
      (∀ q ∈ S, ∀ j, key q = some (P, j) → n ≤ j → j < M → i ≤ j) ∧
      HintedTrackerLists.Rep s' fun j => eraseAt L (P, i) pt (P, j) := by
  obtain ⟨hle, -, hbefore, hhit⟩ := HintedTrackerLists.Spec.least_spec (fun i => L (P, i)) hn.le
  set least := HintedTrackerLists.Spec.least M (fun i => L (P, i)) n
  by_cases hlt : least < M
  · obtain ⟨pt, rest, hL⟩ := List.exists_cons_of_ne_nil (hhit hlt)
    obtain ⟨-, s', hget, hrep⟩ := hs.least_some hn hle hlt hbefore hL
    have hL' : L (P, least) = pt :: rest := hL
    obtain ⟨hptS, hkey⟩ := (hh.mem_iff _ pt).mp (by rw [hL']; exact List.mem_cons_self)
    refine Or.inr ⟨pt, least, s', hget, hle, hlt, hptS, hkey, fun q hq j hkj hnj hjM => ?_, ?_⟩
    · by_contra hj
      have hempty : L (P, j) = [] := hbefore j hnj (by omega)
      have hmem := hh.mem hq hkj
      rw [hempty] at hmem
      exact List.not_mem_nil hmem
    · rw [eraseAt_slice_self, hL', List.erase_cons_head]
      exact hrep
  · have hall : ∀ k, n ≤ k → k < M → (fun i => L (P, i)) k = [] := fun k hk hkM => hbefore k hk (by omega)
    refine Or.inl ⟨(hs.least_none hn hall).2, fun q hq i hki hni => ?_⟩
    by_contra hi
    have hmem := hh.mem hq hki
    rw [show L (P, i) = [] from hall i hni (by omega)] at hmem
    exact List.not_mem_nil hmem

end Search

namespace Listed

variable {f : Filler ι N} {S : Finset ι} {L : Place × Nat → List ι} {pt : ι}

theorem setTracker (h : Listed f S L) (hpt : pt ∉ S) (t : Tracker N) : Listed (f.setTracker pt t) S L where
  donated := h.donated
  regular := h.regular
  released := h.released
  partialReleased := h.partialReleased
  holds := h.holds.congr fun q hq => by
    simp only [Filler.setTracker, Function.update_of_ne (ne_of_mem_of_not_mem hq hpt)]
  nUsedReleased d := (h.nUsedReleased d).trans (usedOn_update hpt t).symm
  nUsedPartialReleased d := (h.nUsedPartialReleased d).trans (usedOn_update hpt t).symm

omit [DecidableEq ι] in
theorem update_counters (h : Listed f S L) (pagesAllocated : AccessDensityPrediction → Nat)
    (size unmapped unmappingUnaccounted : Nat) (nWasReleased : AccessDensityPrediction → Nat)
    (fullyFreedTrackers : List ι) :
    Listed { f with pagesAllocated, size, unmapped, unmappingUnaccounted, nWasReleased, fullyFreedTrackers } S L :=
  ⟨h.donated, h.regular, h.released, h.partialReleased, h.holds, h.nUsedReleased, h.nUsedPartialReleased⟩

theorem setTracker_same (h : Listed f S L) {t : Tracker N}
    (hplace : placeOf f.subreleaseUnbackedMode t = placeOf f.subreleaseUnbackedMode (f.tracker pt))
    (hused : t.usedPages = (f.tracker pt).usedPages) : Listed (f.setTracker pt t) S L where
  donated := h.donated
  regular := h.regular
  released := h.released
  partialReleased := h.partialReleased
  holds := h.holds.congr fun q _ => by
    by_cases hq : q = pt
    · subst hq
      simp only [Filler.setTracker, Function.update_self]
      exact hplace
    · simp only [Filler.setTracker, Function.update_of_ne hq]
  nUsedReleased d := (h.nUsedReleased d).trans (usedOn_update_same hplace hused _).symm
  nUsedPartialReleased d := (h.nUsedPartialReleased d).trans (usedOn_update_same hplace hused _).symm

theorem takeFrom (h : Listed f S L) (hpt : pt ∈ S) {P : Place} {i : Nat}
    (hplace : placeOf f.subreleaseUnbackedMode (f.tracker pt) = some (P, i)) {l : HintedTrackerLists ι (P.capacity N)}
    (hrep : HintedTrackerLists.Rep l fun j => eraseAt L (P, i) pt (P, j)) :
    Frame (f.takeFrom P l (f.tracker pt).usedPages) f ∧
      Listed (f.takeFrom P l (f.tracker pt).usedPages) (S.erase pt) (eraseAt L (P, i) pt) := by
  have hholds := h.holds.erase hplace
  have hsum := usedOn_erase_self hpt hplace
  -- a list of another family, or of the other density, keeps its trackers
  have hother : ∀ {M} {s : HintedTrackerLists ι M} {P'}, P' ≠ P → HintedTrackerLists.Rep s (fun j => L (P', j)) →
      HintedTrackerLists.Rep s fun j => eraseAt L (P, i) pt (P', j) := rep_eraseAt_of_ne
  have hcount : ∀ {P'}, P' ≠ P → usedOn f.subreleaseUnbackedMode f.tracker (S.erase pt) P' =
      usedOn f.subreleaseUnbackedMode f.tracker S P' := fun hne => usedOn_erase_of_ne hpt hplace (Ne.symm hne)
  rcases P with _ | ⟨_ | _ | _, d⟩
  case donated =>
    exact ⟨⟨rfl, rfl, rfl, rfl, rfl, rfl, rfl, rfl⟩, hrep, fun d' => hother (by simp) (h.regular d'),
      fun d' => hother (by simp) (h.released d'), fun d' => hother (by simp) (h.partialReleased d'), hholds,
      fun d' => (h.nUsedReleased d').trans (hcount (by simp)).symm,
      fun d' => (h.nUsedPartialReleased d').trans (hcount (by simp)).symm⟩
  case listed.regular =>
    change HintedTrackerLists ι (kNumLists N) at l
    refine ⟨⟨rfl, rfl, rfl, rfl, rfl, rfl, rfl, rfl⟩, hother (by simp) h.donated, fun d' => ?_,
      fun d' => hother (by simp) (h.released d'), fun d' => hother (by simp) (h.partialReleased d'), hholds,
      fun d' => (h.nUsedReleased d').trans (hcount (by simp)).symm,
      fun d' => (h.nUsedPartialReleased d').trans (hcount (by simp)).symm⟩
    by_cases hd : d' = d
    · subst hd
      simp only [Filler.takeFrom, Function.update_self]
      exact hrep
    · simpa [Filler.takeFrom, Function.update_of_ne hd] using hother (by simp [hd]) (h.regular d')
  case listed.released =>
    change HintedTrackerLists ι (kNumLists N) at l
    refine ⟨⟨rfl, rfl, rfl, rfl, rfl, rfl, rfl, rfl⟩, hother (by simp) h.donated,
      fun d' => hother (by simp) (h.regular d'), fun d' => ?_, fun d' => hother (by simp) (h.partialReleased d'),
      hholds, fun d' => ?_, fun d' => (h.nUsedPartialReleased d').trans (hcount (by simp)).symm⟩
    · by_cases hd : d' = d
      · subst hd
        simp only [Filler.takeFrom, Function.update_self]
        exact hrep
      · simpa [Filler.takeFrom, Function.update_of_ne hd] using hother (by simp [hd]) (h.released d')
    · by_cases hd : d' = d
      · subst hd
        simp only [Filler.takeFrom, Function.update_self]
        rw [h.nUsedReleased d']
        omega
      · simp only [Filler.takeFrom, Function.update_of_ne hd]
        exact (h.nUsedReleased d').trans (hcount (by simp [hd])).symm
  case listed.partialReleased =>
    change HintedTrackerLists ι (kNumLists N) at l
    refine ⟨⟨rfl, rfl, rfl, rfl, rfl, rfl, rfl, rfl⟩, hother (by simp) h.donated,
      fun d' => hother (by simp) (h.regular d'), fun d' => hother (by simp) (h.released d'), fun d' => ?_,
      hholds, fun d' => (h.nUsedReleased d').trans (hcount (by simp)).symm, fun d' => ?_⟩
    · by_cases hd : d' = d
      · subst hd
        simp only [Filler.takeFrom, Function.update_self]
        exact hrep
      · simpa [Filler.takeFrom, Function.update_of_ne hd] using hother (by simp [hd]) (h.partialReleased d')
    · by_cases hd : d' = d
      · subst hd
        simp only [Filler.takeFrom, Function.update_self]
        rw [h.nUsedPartialReleased d']
        omega
      · simp only [Filler.takeFrom, Function.update_of_ne hd]
        exact (h.nUsedPartialReleased d').trans (hcount (by simp [hd])).symm

theorem removeFromFillerList (h : Listed f S L) (hpt : pt ∈ S) (ht : Listable (f.tracker pt)) :
    ∃ f', f.removeFromFillerList pt = some f' ∧ Frame f' f ∧
      Listed f' (S.erase pt) (eraseAt L (slotOf f.subreleaseUnbackedMode (f.tracker pt)) pt) := by
  have hplace := placeOf_eq f.subreleaseUnbackedMode ht
  have hlt := slotOf_lt f.subreleaseUnbackedMode ht
  have hmem := h.holds.mem hpt hplace
  have hholds := h.holds.erase hplace
  unfold Filler.removeFromFillerList
  rw [check_pos ht.longest]
  cases hdon : (f.tracker pt).donated
  case true =>
    rw [slotOf_donated _ hdon] at hplace hlt hmem hholds ⊢
    obtain ⟨s', hrem, hrep⟩ := h.donated.remove_spec hlt hmem
    refine ⟨{ f with donatedAlloc := s' }, by rw [if_pos rfl, hrem]; rfl, ⟨rfl, rfl, rfl, rfl, rfl, rfl, rfl, rfl⟩,
      by rwa [eraseAt_slice_self], fun d => rep_eraseAt_of_ne (by simp) (h.regular d),
      fun d => rep_eraseAt_of_ne (by simp) (h.released d),
      fun d => rep_eraseAt_of_ne (by simp) (h.partialReleased d), hholds, fun d => ?_, fun d => ?_⟩
    · exact (h.nUsedReleased d).trans (usedOn_erase_of_ne hpt hplace (by simp)).symm
    · exact (h.nUsedPartialReleased d).trans (usedOn_erase_of_ne hpt hplace (by simp)).symm
  case false =>
    rw [slotOf_listed _ hdon] at hplace hlt hmem hholds ⊢
    simp only [if_neg Bool.false_ne_true, indexFor_eq ht.nonempty, listFor_listIndex ht, Option.bind_eq_bind,
      Option.bind_some]
    set d := (f.tracker pt).density
    cases hfam : family f.subreleaseUnbackedMode (f.tracker pt)
    case regular =>
      rw [hfam] at hplace hlt hmem hholds
      obtain ⟨s', hrem, hrep⟩ := (h.regular d).remove_spec hlt hmem
      refine ⟨{ f with regularAlloc := Function.update f.regularAlloc d s' }, by rw [hrem]; rfl,
        ⟨rfl, rfl, rfl, rfl, rfl, rfl, rfl, rfl⟩, rep_eraseAt_of_ne (by simp) h.donated, fun d' => ?_,
        fun d' => rep_eraseAt_of_ne (by simp) (h.released d'),
        fun d' => rep_eraseAt_of_ne (by simp) (h.partialReleased d'), hholds, fun d' => ?_, fun d' => ?_⟩
      · by_cases hd : d' = d
        · subst hd
          simp only [Function.update_self]
          rwa [eraseAt_slice_self]
        · simp only [Function.update_of_ne hd]
          exact rep_eraseAt_of_ne (by simp [hd]) (h.regular d')
      · exact (h.nUsedReleased d').trans (usedOn_erase_of_ne hpt hplace (by simp)).symm
      · exact (h.nUsedPartialReleased d').trans (usedOn_erase_of_ne hpt hplace (by simp)).symm
    case released =>
      rw [hfam] at hplace hlt hmem hholds
      obtain ⟨s', hrem, hrep⟩ := (h.released d).remove_spec hlt hmem
      have hsum := usedOn_erase_self hpt hplace
      have hle : (f.tracker pt).usedPages ≤ f.nUsedReleased d := by
        rw [h.nUsedReleased d]
        omega
      refine ⟨{ f with
          regularAllocReleased := Function.update f.regularAllocReleased d s'
          nUsedReleased := Function.update f.nUsedReleased d (f.nUsedReleased d - (f.tracker pt).usedPages) },
        by rw [hrem]; exact check_pos hle, ⟨rfl, rfl, rfl, rfl, rfl, rfl, rfl, rfl⟩,
        rep_eraseAt_of_ne (by simp) h.donated, fun d' => rep_eraseAt_of_ne (by simp) (h.regular d'), fun d' => ?_,
        fun d' => rep_eraseAt_of_ne (by simp) (h.partialReleased d'), hholds, fun d' => ?_, fun d' => ?_⟩
      · by_cases hd : d' = d
        · subst hd
          simp only [Function.update_self]
          rwa [eraseAt_slice_self]
        · simp only [Function.update_of_ne hd]
          exact rep_eraseAt_of_ne (by simp [hd]) (h.released d')
      · by_cases hd : d' = d
        · subst hd
          simp only [Function.update_self]
          rw [h.nUsedReleased d]
          omega
        · simp only [Function.update_of_ne hd]
          exact (h.nUsedReleased d').trans (usedOn_erase_of_ne hpt hplace (by simp [Ne.symm hd])).symm
      · exact (h.nUsedPartialReleased d').trans (usedOn_erase_of_ne hpt hplace (by simp)).symm
    case partialReleased =>
      rw [hfam] at hplace hlt hmem hholds
      obtain ⟨s', hrem, hrep⟩ := (h.partialReleased d).remove_spec hlt hmem
      have hsum := usedOn_erase_self hpt hplace
      have hle : (f.tracker pt).usedPages ≤ f.nUsedPartialReleased d := by
        rw [h.nUsedPartialReleased d]
        omega
      refine ⟨{ f with
          regularAllocPartialReleased := Function.update f.regularAllocPartialReleased d s'
          nUsedPartialReleased :=
            Function.update f.nUsedPartialReleased d (f.nUsedPartialReleased d - (f.tracker pt).usedPages) },
        by rw [hrem]; exact check_pos hle, ⟨rfl, rfl, rfl, rfl, rfl, rfl, rfl, rfl⟩,
        rep_eraseAt_of_ne (by simp) h.donated, fun d' => rep_eraseAt_of_ne (by simp) (h.regular d'),
        fun d' => rep_eraseAt_of_ne (by simp) (h.released d'), fun d' => ?_, hholds, fun d' => ?_, fun d' => ?_⟩
      · by_cases hd : d' = d
        · subst hd
          simp only [Function.update_self]
          rwa [eraseAt_slice_self]
        · simp only [Function.update_of_ne hd]
          exact rep_eraseAt_of_ne (by simp [hd]) (h.partialReleased d')
      · exact (h.nUsedReleased d').trans (usedOn_erase_of_ne hpt hplace (by simp)).symm
      · by_cases hd : d' = d
        · subst hd
          simp only [Function.update_self]
          rw [h.nUsedPartialReleased d]
          omega
        · simp only [Function.update_of_ne hd]
          exact (h.nUsedPartialReleased d').trans (usedOn_erase_of_ne hpt hplace (by simp [Ne.symm hd])).symm

theorem addToLists (h : Listed f S L) (hpt : pt ∉ S) (ht : Listable (f.tracker pt))
    (hdon : (f.tracker pt).donated = false) :
    ∃ f', f.addToLists pt = some f' ∧ Frame f' f ∧
      Listed f' (insert pt S) (insertAt L (slotOf f.subreleaseUnbackedMode (f.tracker pt)) pt) := by
  have hplace := placeOf_eq f.subreleaseUnbackedMode ht
  have hlt := slotOf_lt f.subreleaseUnbackedMode ht
  have hout : ∀ P j, pt ∉ L (P, j) := fun P j => h.holds.not_mem hpt (P, j)
  have hholds := h.holds.insert hpt hplace
  rw [slotOf_listed _ hdon] at hplace hlt hholds ⊢
  unfold Filler.addToLists
  simp only [indexFor_eq ht.nonempty, listFor_listIndex ht, Option.bind_eq_bind, Option.bind_some]
  set d := (f.tracker pt).density
  cases hfam : family f.subreleaseUnbackedMode (f.tracker pt)
  case regular =>
    rw [hfam] at hplace hlt hholds
    obtain ⟨s', hadd, hrep⟩ := (h.regular d).add_spec hlt fun j _ => hout _ j
    refine ⟨{ f with regularAlloc := Function.update f.regularAlloc d s' }, by rw [hadd]; rfl,
      ⟨rfl, rfl, rfl, rfl, rfl, rfl, rfl, rfl⟩, rep_insertAt_of_ne (by simp) h.donated, fun d' => ?_,
      fun d' => rep_insertAt_of_ne (by simp) (h.released d'),
      fun d' => rep_insertAt_of_ne (by simp) (h.partialReleased d'), hholds, fun d' => ?_, fun d' => ?_⟩
    · by_cases hd : d' = d
      · subst hd
        simp only [Function.update_self]
        rwa [insertAt_slice_self]
      · simp only [Function.update_of_ne hd]
        exact rep_insertAt_of_ne (by simp [hd]) (h.regular d')
    · exact (h.nUsedReleased d').trans (usedOn_insert_of_ne hpt hplace (by simp)).symm
    · exact (h.nUsedPartialReleased d').trans (usedOn_insert_of_ne hpt hplace (by simp)).symm
  case released =>
    rw [hfam] at hplace hlt hholds
    obtain ⟨s', hadd, hrep⟩ := (h.released d).add_spec hlt fun j _ => hout _ j
    refine ⟨{ f with
        regularAllocReleased := Function.update f.regularAllocReleased d s'
        nUsedReleased := Function.update f.nUsedReleased d (f.nUsedReleased d + (f.tracker pt).usedPages) },
      by rw [hadd]; rfl, ⟨rfl, rfl, rfl, rfl, rfl, rfl, rfl, rfl⟩, rep_insertAt_of_ne (by simp) h.donated,
      fun d' => rep_insertAt_of_ne (by simp) (h.regular d'), fun d' => ?_,
      fun d' => rep_insertAt_of_ne (by simp) (h.partialReleased d'), hholds, fun d' => ?_, fun d' => ?_⟩
    · by_cases hd : d' = d
      · subst hd
        simp only [Function.update_self]
        rwa [insertAt_slice_self]
      · simp only [Function.update_of_ne hd]
        exact rep_insertAt_of_ne (by simp [hd]) (h.released d')
    · by_cases hd : d' = d
      · subst hd
        simp only [Function.update_self]
        rw [h.nUsedReleased d, usedOn_insert_self hpt hplace]
      · simp only [Function.update_of_ne hd]
        exact (h.nUsedReleased d').trans (usedOn_insert_of_ne hpt hplace (by simp [Ne.symm hd])).symm
    · exact (h.nUsedPartialReleased d').trans (usedOn_insert_of_ne hpt hplace (by simp)).symm
  case partialReleased =>
    rw [hfam] at hplace hlt hholds
    obtain ⟨s', hadd, hrep⟩ := (h.partialReleased d).add_spec hlt fun j _ => hout _ j
    refine ⟨{ f with
        regularAllocPartialReleased := Function.update f.regularAllocPartialReleased d s'
        nUsedPartialReleased :=
          Function.update f.nUsedPartialReleased d (f.nUsedPartialReleased d + (f.tracker pt).usedPages) },
      by rw [hadd]; rfl, ⟨rfl, rfl, rfl, rfl, rfl, rfl, rfl, rfl⟩, rep_insertAt_of_ne (by simp) h.donated,
      fun d' => rep_insertAt_of_ne (by simp) (h.regular d'), fun d' => rep_insertAt_of_ne (by simp) (h.released d'),
      fun d' => ?_, hholds, fun d' => ?_, fun d' => ?_⟩
    · by_cases hd : d' = d
      · subst hd
        simp only [Function.update_self]
        rwa [insertAt_slice_self]
      · simp only [Function.update_of_ne hd]
        exact rep_insertAt_of_ne (by simp [hd]) (h.partialReleased d')
    · exact (h.nUsedReleased d').trans (usedOn_insert_of_ne hpt hplace (by simp)).symm
    · by_cases hd : d' = d
      · subst hd
        simp only [Function.update_self]
        rw [h.nUsedPartialReleased d, usedOn_insert_self hpt hplace]
      · simp only [Function.update_of_ne hd]
        exact (h.nUsedPartialReleased d').trans (usedOn_insert_of_ne hpt hplace (by simp [Ne.symm hd])).symm

theorem addToFillerList (h : Listed f S L) (hpt : pt ∉ S) (ht : Listable (f.tracker pt)) :
    ∃ f', f.addToFillerList pt = some f' ∧ Frame f' (f.setTracker pt { f.tracker pt with donated := false }) ∧
      Listed f' (insert pt S) (insertAt L
        (.listed (family f.subreleaseUnbackedMode (f.tracker pt)) (f.tracker pt).density, listIndex (f.tracker pt)) pt) := by
  have h' := h.setTracker hpt { f.tracker pt with donated := false }
  have ht' : Listable ((f.setTracker pt { f.tracker pt with donated := false }).tracker pt) := by
    simp only [Filler.setTracker, Function.update_self]
    exact ⟨ht.longest, ht.nonempty, ht.nallocs_pos, ht.nallocs_le⟩
  have hdon : ((f.setTracker pt { f.tracker pt with donated := false }).tracker pt).donated = false := by
    simp [Filler.setTracker]
  obtain ⟨f', hadd, hframe, hlisted⟩ := h'.addToLists hpt ht' hdon
  refine ⟨f', ?_, hframe, ?_⟩
  · unfold Filler.addToFillerList
    rw [check_pos ht.longest.le, if_neg ht.longest.ne]
    exact hadd
  · rw [slotOf_listed _ hdon] at hlisted
    simpa [Filler.setTracker] using hlisted

theorem donateToFillerList (h : Listed f S L) (hpt : pt ∉ S) (hlong : (f.tracker pt).longestFreeRange < N)
    (hrel : (f.tracker pt).released = false) :
    ∃ f', f.donateToFillerList pt = some f' ∧ Frame f' (f.setTracker pt { f.tracker pt with donated := true }) ∧
      Listed f' (insert pt S) (insertAt L (.donated, (f.tracker pt).longestFreeRange) pt) := by
  have h' := h.setTracker hpt { f.tracker pt with donated := true }
  have hplace : placeOf f.subreleaseUnbackedMode ((f.setTracker pt { f.tracker pt with donated := true }).tracker pt) =
      some (.donated, (f.tracker pt).longestFreeRange) := by
    simp [Filler.setTracker, placeOf, Tracker.longestFreeRange]
  obtain ⟨s', hadd, hrep⟩ := h.donated.add_spec hlong fun j _ => h.holds.not_mem hpt (.donated, j)
  refine ⟨{ f.setTracker pt { f.tracker pt with donated := true } with donatedAlloc := s' }, ?_,
    ⟨rfl, rfl, rfl, rfl, rfl, rfl, rfl, rfl⟩, by rwa [insertAt_slice_self],
    fun d => rep_insertAt_of_ne (by simp) (h.regular d), fun d => rep_insertAt_of_ne (by simp) (h.released d),
    fun d => rep_insertAt_of_ne (by simp) (h.partialReleased d), h'.holds.insert hpt hplace, fun d => ?_, fun d => ?_⟩
  · unfold Filler.donateToFillerList
    rw [check_pos hlong, check_pos hrel, hadd]
    rfl
  · exact (h'.nUsedReleased d).trans (usedOn_insert_of_ne hpt hplace (by simp)).symm
  · exact (h'.nUsedPartialReleased d).trans (usedOn_insert_of_ne hpt hplace (by simp)).symm

end Listed

end TCMalloc.HugePageFiller
