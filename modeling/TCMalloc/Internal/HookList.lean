import Mathlib
import TCMalloc.Lib.Scan
import TCMalloc.Lib.Simulation

/-!
`HookList<T>` of `internal/hook_list.h`: up to `kHookListMaxValues` hooks in the slots
`priv_data`, where `T()` marks a free slot, and `priv_end`, one past the last slot in
use.  `Add` fills the first free slot, `Remove` frees the first slot holding the value
and pulls `priv_end` down past the free slots below it, and `Traverse` copies the hooks
in slot order.  What the list is for is a bag of at most seven hooks: every sequence of
`Add` and `Remove` answers as the bag does, `Invoke` calls exactly the hooks of the bag,
and `empty()` holds exactly when the bag is empty.
-/

set_option autoImplicit false
set_option relaxedAutoImplicit false

namespace TCMalloc.Internal

open TCMalloc.Lib TCMalloc.Lib.Scan

/-- `kHookListMaxValues`: seven hooks, so that a `HookList` is eight words. -/
def kHookListMaxValues : Nat := 7

/-- `HookList<T>`: `priv_end` and the slots `priv_data`, `0` standing for `T()`. -/
structure HookList (T : Type) where
  privEnd : Nat
  privData : Nat → T

namespace HookList

variable {T : Type} [Zero T] [DecidableEq T]

/-- `constexpr HookList()`. -/
def init : HookList T := ⟨0, fun _ => 0⟩

/-- `constexpr explicit HookList(T initial_hook)`. -/
def ofInitial (initialHook : T) : HookList T :=
  ⟨1, fun i => if i = 0 then initialHook else 0⟩

/-- The first loop of `Add`: the first slot that is `0`, or `kHookListMaxValues`. -/
def firstFreeSlot (h : HookList T) : Nat :=
  firstFrom (fun i => decide (h.privData i = 0)) kHookListMaxValues 0

/-- `Add(value)`: whether it succeeded, and the list after it. -/
def add (h : HookList T) (value : T) : Bool × HookList T :=
  if value = 0 then (false, h)
  else if h.firstFreeSlot = kHookListMaxValues then (false, h)
  else
    (true, ⟨if h.privEnd ≤ h.firstFreeSlot then h.firstFreeSlot + 1 else h.privEnd,
      Function.update h.privData h.firstFreeSlot value⟩)

/-- The first loop of `Remove`: the first slot below `hooks_end` holding `value`, or
`hooks_end`. -/
def slotOf (h : HookList T) (value : T) : Nat :=
  firstFrom (fun i => decide (h.privData i = value)) h.privEnd 0

/-- The second loop of `Remove`: `hooks_end` pulled down from `e` past the slots that
are `0`. -/
def lowerEnd (data : Nat → T) : Nat → Nat
  | 0 => 0
  | e + 1 => if data e = 0 then lowerEnd data e else e + 1

/-- `Remove(value)`: whether it succeeded, and the list after it. -/
def remove (h : HookList T) (value : T) : Bool × HookList T :=
  if value = 0 then (false, h)
  else if h.slotOf value = h.privEnd then (false, h)
  else
    (true, ⟨if h.privEnd = h.slotOf value + 1 then
        lowerEnd (Function.update h.privData (h.slotOf value) 0) (h.slotOf value)
      else h.privEnd, Function.update h.privData (h.slotOf value) 0⟩)

/-- The loop of `Traverse` over `k` more slots from slot `i`, with room for `n` more
values in `output_array`: the values it stores. -/
def traverseFrom (data : Nat → T) : Nat → Nat → Nat → List T
  | 0, _, _ => []
  | k + 1, i, n =>
    if 0 < n then
      if data i ≠ 0 then data i :: traverseFrom data k (i + 1) (n - 1)
      else traverseFrom data k (i + 1) n
    else []

/-- `Traverse(output_array, n)`: the values stored in `output_array`; their number is
what it returns. -/
def traverse (h : HookList T) (n : Nat) : List T :=
  traverseFrom h.privData h.privEnd 0 n

/-- `empty()`. -/
def empty (h : HookList T) : Bool := h.privEnd == 0

/-- `size()`. -/
def size (h : HookList T) : Nat := h.privEnd

/-- The hooks `InvokeSlow` calls, in order. -/
def invokeSlow (h : HookList T) : List T := h.traverse kHookListMaxValues

/-- The hooks `Invoke` calls, in order. -/
def invoke (h : HookList T) : List T := if h.empty then [] else h.invokeSlow

/-- A call of the list. -/
inductive Call (T : Type)
  | add (value : T)
  | remove (value : T)

/-- A call and its answer; no call of the list fails a check. -/
def call (h : HookList T) : Call T → Option (Bool × HookList T)
  | .add value => some (h.add value)
  | .remove value => some (h.remove value)

/-! ### What the list stands for -/

/-- The values of the slots below `m` that are not `0`, in slot order. -/
def usedIn (data : Nat → T) (m : Nat) : List T :=
  ((List.range m).map data).filter fun v => decide (v ≠ 0)

/-- The hooks the list holds, in slot order. -/
def hooks (h : HookList T) : List T := usedIn h.privData kHookListMaxValues

/-- What a hook list is for: a bag of at most `kHookListMaxValues` hooks, none of them
`T()`, with duplicates.  `Add` fails on `T()` and on a full bag; `Remove` fails on `T()`
and on a hook the bag does not hold, and otherwise takes one copy out. -/
def bagCall (bag : Multiset T) : Call T → Bool × Multiset T
  | .add value =>
    if value ≠ 0 ∧ Multiset.card bag < kHookListMaxValues then (true, value ::ₘ bag) else (false, bag)
  | .remove value => if value ≠ 0 ∧ value ∈ bag then (true, bag.erase value) else (false, bag)

/-- The shape every call keeps: `priv_end` is at most `kHookListMaxValues`, every slot
from `priv_end` on is `0`, and the slot below `priv_end` is in use. -/
structure Wf (h : HookList T) : Prop where
  end_le : h.privEnd ≤ kHookListMaxValues
  free_above : ∀ i, h.privEnd ≤ i → h.privData i = 0
  last_used : ∀ e, h.privEnd = e + 1 → h.privData e ≠ 0

/-- The list holds the bag. -/
def Rep (h : HookList T) (bag : Multiset T) : Prop := h.Wf ∧ (h.hooks : Multiset T) = bag

/-! ### The slots in use -/

section Slots

variable (data : Nat → T)

theorem usedIn_succ (m : Nat) :
    usedIn data (m + 1) = usedIn data m ++ (if data m = 0 then [] else [data m]) := by
  unfold usedIn
  rw [List.range_succ, List.map_append, List.filter_append]
  by_cases h : data m = 0 <;> simp [h]

theorem usedIn_congr {data' : Nat → T} {m : Nat} (heq : ∀ i < m, data' i = data i) :
    usedIn data' m = usedIn data m := by
  unfold usedIn
  rw [List.map_congr_left fun i hi => heq i (List.mem_range.mp hi)]

theorem usedIn_of_free {e m : Nat} (he : e ≤ m) (hfree : ∀ i, e ≤ i → i < m → data i = 0) :
    usedIn data m = usedIn data e := by
  induction m with
  | zero => rw [Nat.le_zero.mp he]
  | succ m ih =>
    rcases Nat.eq_or_lt_of_le he with heq | hlt
    · rw [heq]
    · rw [usedIn_succ, hfree m (by omega) (by omega), if_pos rfl, List.append_nil]
      exact ih (by omega) fun i hi hi' => hfree i hi (by omega)

theorem length_usedIn_le (m : Nat) : (usedIn data m).length ≤ m := by
  unfold usedIn
  calc _ ≤ ((List.range m).map data).length := List.length_filter_le _ _
    _ = m := by rw [List.length_map, List.length_range]

theorem mem_usedIn {v : T} {m : Nat} : v ∈ usedIn data m ↔ v ≠ 0 ∧ ∃ i < m, data i = v := by
  unfold usedIn
  simp only [List.mem_filter, List.mem_map, List.mem_range, decide_eq_true_eq]
  constructor
  · rintro ⟨⟨i, hi, hv⟩, hne⟩
    exact ⟨hne, i, hi, hv⟩
  · rintro ⟨hne, i, hi, hv⟩
    exact ⟨⟨i, hi, hv⟩, hne⟩

theorem length_usedIn_lt_iff {m : Nat} : (usedIn data m).length < m ↔ ∃ i < m, data i = 0 := by
  have hfilter := List.length_filter_lt_length_iff_exists (p := fun v => decide (v ≠ 0))
    (l := (List.range m).map data)
  rw [List.length_map, List.length_range] at hfilter
  unfold usedIn
  rw [hfilter]
  simp only [List.mem_map, List.mem_range, decide_eq_true_eq, not_not]
  constructor
  · rintro ⟨_, ⟨i, hi, rfl⟩, hzero⟩
    exact ⟨i, hi, hzero⟩
  · rintro ⟨i, hi, hzero⟩
    exact ⟨_, ⟨i, hi, rfl⟩, hzero⟩

theorem usedIn_update_perm {i m : Nat} {v : T} (hi : i < m) (hfree : data i = 0) (hv : v ≠ 0) :
    (usedIn (Function.update data i v) m).Perm (v :: usedIn data m) := by
  induction m with
  | zero => omega
  | succ m ih =>
    rw [usedIn_succ, usedIn_succ]
    rcases Nat.lt_or_ge i m with him | hge
    · rw [Function.update_of_ne (by omega)]
      exact (ih him).append_right _
    · obtain rfl : i = m := by omega
      rw [Function.update_self, if_neg hv, hfree, if_pos rfl, List.append_nil,
        usedIn_congr data fun j hj => Function.update_of_ne (by omega) _ _]
      exact List.perm_append_singleton _ _

theorem usedIn_update_erase {i m : Nat} {v : T} (hi : i < m) (hat : data i = v) (hv : v ≠ 0)
    (hbefore : ∀ j < i, data j ≠ v) :
    usedIn (Function.update data i 0) m = (usedIn data m).erase v := by
  induction m with
  | zero => omega
  | succ m ih =>
    rw [usedIn_succ, usedIn_succ]
    rcases Nat.lt_or_ge i m with him | hge
    · have hmem : v ∈ usedIn data m := (mem_usedIn data).mpr ⟨hv, i, him, hat⟩
      rw [Function.update_of_ne (by omega), ih him, List.erase_append_left _ hmem]
    · obtain rfl : i = m := by omega
      have hnot : v ∉ usedIn data i := fun hmem => by
        obtain ⟨-, j, hj, hjv⟩ := (mem_usedIn data).mp hmem
        exact hbefore j hj hjv
      rw [Function.update_self, if_pos rfl, List.append_nil, hat, if_neg hv,
        List.erase_append_right _ hnot, List.erase_cons_head, List.append_nil,
        usedIn_congr data fun j hj => Function.update_of_ne (by omega) _ _]

end Slots

theorem length_hooks_le (h : HookList T) : h.hooks.length ≤ kHookListMaxValues :=
  length_usedIn_le _ _

/-! ### `Traverse` -/

theorem traverseFrom_eq (data : Nat → T) (k i n : Nat) :
    traverseFrom data k i n = (((List.range' i k).map data).filter fun v => decide (v ≠ 0)).take n := by
  induction k generalizing i n with
  | zero => simp [traverseFrom]
  | succ k ih =>
    rw [List.range'_succ, List.map_cons, traverseFrom]
    cases n with
    | zero => simp
    | succ n =>
      rw [if_pos (Nat.succ_pos n)]
      by_cases hi : data i = 0
      · rw [if_neg (not_not.mpr hi), ih, List.filter_cons_of_neg (by simpa using hi)]
      · rw [if_pos hi, ih, List.filter_cons_of_pos (by simpa using hi), List.take_succ_cons,
          Nat.add_sub_cancel]

/-! ### The shape every call keeps -/

omit [DecidableEq T] in
theorem wf_init : (init : HookList T).Wf where
  end_le := Nat.zero_le _
  free_above _ _ := rfl
  last_used e he := absurd he (Nat.succ_ne_zero e).symm

theorem hooks_init : (init : HookList T).hooks = [] :=
  usedIn_of_free _ (Nat.zero_le _) fun _ _ _ => rfl

omit [DecidableEq T] in
theorem wf_ofInitial {initialHook : T} (hv : initialHook ≠ 0) : (ofInitial initialHook).Wf where
  end_le := by simp [ofInitial, kHookListMaxValues]
  free_above i hi := if_neg (by simp only [ofInitial] at hi; omega)
  last_used e he := by
    obtain rfl : e = 0 := by simpa [ofInitial] using he.symm
    simpa [ofInitial] using hv

theorem hooks_ofInitial {initialHook : T} (hv : initialHook ≠ 0) :
    (ofInitial initialHook).hooks = [initialHook] := by
  rw [hooks, usedIn_of_free (ofInitial initialHook).privData (show 1 ≤ kHookListMaxValues by decide)
    fun i hi _ => if_neg (Nat.ne_of_gt hi), usedIn_succ]
  simp [usedIn, ofInitial, hv]

section Wf

variable {h : HookList T} (hw : h.Wf)
include hw

theorem hooks_eq_usedIn_end : h.hooks = usedIn h.privData h.privEnd :=
  usedIn_of_free _ hw.end_le fun i hi _ => hw.free_above i hi

theorem traverse_eq (n : Nat) : h.traverse n = h.hooks.take n := by
  rw [traverse, traverseFrom_eq, ← List.range_eq_range', hooks_eq_usedIn_end hw]
  rfl

theorem length_hooks_le_size : h.hooks.length ≤ h.size := by
  rw [hooks_eq_usedIn_end hw]
  exact length_usedIn_le _ _

theorem empty_iff : h.empty = true ↔ h.hooks = [] := by
  rw [hooks_eq_usedIn_end hw, empty, beq_iff_eq]
  constructor
  · intro hend
    rw [hend]
    rfl
  · intro hnil
    cases hend : h.privEnd with
    | zero => rfl
    | succ e =>
      rw [hend, usedIn_succ, if_neg (hw.last_used e hend)] at hnil
      exact absurd hnil (by simp)

theorem invoke_eq : h.invoke = h.hooks := by
  unfold invoke
  split
  · rename_i hempty
    exact ((empty_iff hw).mp hempty).symm
  · rw [invokeSlow, traverse_eq hw, List.take_of_length_le (length_hooks_le h)]

end Wf

/-! ### `Add` -/

section Add

variable {h : HookList T}

theorem firstFreeSlot_le (h : HookList T) : h.firstFreeSlot ≤ kHookListMaxValues := by
  have := firstFrom_le (fun i => decide (h.privData i = 0)) kHookListMaxValues 0
  rwa [Nat.zero_add] at this

theorem firstFreeSlot_lt_iff : h.firstFreeSlot < kHookListMaxValues ↔ h.hooks.length < kHookListMaxValues := by
  rw [hooks, length_usedIn_lt_iff, firstFreeSlot]
  have := firstFrom_lt_iff (fun i => decide (h.privData i = 0)) kHookListMaxValues 0
  rw [Nat.zero_add] at this
  rw [this]
  simp only [Nat.zero_le, true_and, decide_eq_true_eq]

theorem privData_firstFreeSlot (hlt : h.firstFreeSlot < kHookListMaxValues) :
    h.privData h.firstFreeSlot = 0 := by
  have := firstFrom_spec (fun i => decide (h.privData i = 0)) kHookListMaxValues 0 (by
    rw [Nat.zero_add]
    exact hlt)
  simpa [firstFreeSlot] using this

theorem privData_ne_of_lt_firstFreeSlot {i : Nat} (hi : i < h.firstFreeSlot) : h.privData i ≠ 0 := by
  have := noneIn_firstFrom (fun i => decide (h.privData i = 0)) kHookListMaxValues 0 i (Nat.zero_le i) hi
  simpa using this

theorem firstFreeSlot_le_end (hw : h.Wf) : h.firstFreeSlot ≤ h.privEnd := by
  by_contra hgt
  exact privData_ne_of_lt_firstFreeSlot (by omega) (hw.free_above h.privEnd le_rfl)

theorem add_of_lt {v : T} (hv : v ≠ 0) (hlt : h.firstFreeSlot < kHookListMaxValues) :
    h.add v = (true, ⟨if h.privEnd ≤ h.firstFreeSlot then h.firstFreeSlot + 1 else h.privEnd,
      Function.update h.privData h.firstFreeSlot v⟩) := by
  rw [add, if_neg hv, if_neg (Nat.ne_of_lt hlt)]

theorem add_of_not_lt {v : T} (hfail : v = 0 ∨ ¬h.firstFreeSlot < kHookListMaxValues) :
    h.add v = (false, h) := by
  unfold add
  rcases hfail with hv | hfull
  · rw [if_pos hv]
  · rw [if_pos (le_antisymm h.firstFreeSlot_le (not_lt.mp hfull))]
    split <;> rfl

theorem add_wf_hooks (hw : h.Wf) {v : T} (hv : v ≠ 0) (hlt : h.firstFreeSlot < kHookListMaxValues) :
    (h.add v).2.Wf ∧ ((h.add v).2.hooks).Perm (v :: h.hooks) := by
  have hle := firstFreeSlot_le_end hw
  have hfree := privData_firstFreeSlot hlt
  rw [add_of_lt hv hlt]
  refine ⟨⟨?_, fun i hi => ?_, fun e he => ?_⟩, usedIn_update_perm _ hlt hfree hv⟩
  · dsimp only
    split
    · exact hlt
    · exact hw.end_le
  · dsimp only at hi ⊢
    have hne : i ≠ h.firstFreeSlot := by
      split at hi <;> omega
    rw [Function.update_of_ne hne]
    exact hw.free_above i (by split at hi <;> omega)
  · dsimp only at he ⊢
    by_cases hej : e = h.firstFreeSlot
    · rw [hej, Function.update_self]
      exact hv
    · rw [Function.update_of_ne hej]
      split at he
      · omega
      · exact hw.last_used e he

end Add

/-! ### `Remove` -/

section Remove

variable {h : HookList T}

omit [Zero T] in
theorem slotOf_le (h : HookList T) (v : T) : h.slotOf v ≤ h.privEnd := by
  have := firstFrom_le (fun i => decide (h.privData i = v)) h.privEnd 0
  rwa [Nat.zero_add] at this

theorem slotOf_lt_iff (hw : h.Wf) {v : T} (hv : v ≠ 0) : h.slotOf v < h.privEnd ↔ v ∈ h.hooks := by
  rw [hooks_eq_usedIn_end hw, mem_usedIn, slotOf]
  have := firstFrom_lt_iff (fun i => decide (h.privData i = v)) h.privEnd 0
  rw [Nat.zero_add] at this
  rw [this]
  simp only [Nat.zero_le, true_and, decide_eq_true_eq, hv, ne_eq, not_false_eq_true]

omit [Zero T] in
theorem privData_slotOf {v : T} (hlt : h.slotOf v < h.privEnd) : h.privData (h.slotOf v) = v := by
  have := firstFrom_spec (fun i => decide (h.privData i = v)) h.privEnd 0 (by
    rw [Nat.zero_add]
    exact hlt)
  simpa [slotOf] using this

omit [Zero T] in
theorem privData_ne_of_lt_slotOf {v : T} {i : Nat} (hi : i < h.slotOf v) : h.privData i ≠ v := by
  have := noneIn_firstFrom (fun i => decide (h.privData i = v)) h.privEnd 0 i (Nat.zero_le i) hi
  simpa using this

theorem lowerEnd_le (data : Nat → T) (e : Nat) : lowerEnd data e ≤ e := by
  induction e with
  | zero => exact le_rfl
  | succ e ih =>
    unfold lowerEnd
    split <;> omega

theorem free_of_lowerEnd_le (data : Nat → T) (e : Nat) {i : Nat} (hi : lowerEnd data e ≤ i) (hie : i < e) :
    data i = 0 := by
  induction e with
  | zero => omega
  | succ e ih =>
    unfold lowerEnd at hi
    split at hi
    · rename_i hzero
      rcases Nat.lt_or_ge i e with hlt | hge
      · exact ih hi hlt
      · rwa [show i = e by omega]
    · omega

theorem lowerEnd_last_used (data : Nat → T) (e : Nat) :
    ∀ e', lowerEnd data e = e' + 1 → data e' ≠ 0 := by
  induction e with
  | zero => exact fun e' he => absurd he (Nat.succ_ne_zero e').symm
  | succ e ih =>
    intro e' he
    unfold lowerEnd at he
    split at he
    · exact ih e' he
    · rename_i hne
      rwa [show e' = e by omega]

theorem remove_of_lt {v : T} (hv : v ≠ 0) (hlt : h.slotOf v < h.privEnd) :
    h.remove v = (true, ⟨if h.privEnd = h.slotOf v + 1 then
        lowerEnd (Function.update h.privData (h.slotOf v) 0) (h.slotOf v)
      else h.privEnd, Function.update h.privData (h.slotOf v) 0⟩) := by
  rw [remove, if_neg hv, if_neg (Nat.ne_of_lt hlt)]

theorem remove_of_not_lt {v : T} (hfail : v = 0 ∨ ¬h.slotOf v < h.privEnd) :
    h.remove v = (false, h) := by
  unfold remove
  rcases hfail with hv | hmissing
  · rw [if_pos hv]
  · rw [if_pos (le_antisymm (h.slotOf_le v) (not_lt.mp hmissing))]
    split <;> rfl

theorem remove_wf_hooks (hw : h.Wf) {v : T} (hv : v ≠ 0) (hlt : h.slotOf v < h.privEnd) :
    (h.remove v).2.Wf ∧ (h.remove v).2.hooks = h.hooks.erase v := by
  have hat := privData_slotOf hlt
  rw [remove_of_lt hv hlt]
  refine ⟨⟨?_, fun i hi => ?_, fun e he => ?_⟩, ?_⟩
  · dsimp only
    split
    · exact le_trans (lowerEnd_le _ _) (by have := hw.end_le; omega)
    · exact hw.end_le
  · dsimp only at hi ⊢
    by_cases hij : i = h.slotOf v
    · rw [hij, Function.update_self]
    · rw [Function.update_of_ne hij]
      split at hi
      · rename_i hend
        rcases Nat.lt_or_ge i (h.slotOf v) with hlt' | hge
        · have := free_of_lowerEnd_le _ _ hi hlt'
          rwa [Function.update_of_ne hij] at this
        · exact hw.free_above i (by omega)
      · exact hw.free_above i hi
  · dsimp only at he ⊢
    split at he
    · exact lowerEnd_last_used _ _ e he
    · rename_i hend
      have hej : e ≠ h.slotOf v := by omega
      rw [Function.update_of_ne hej]
      exact hw.last_used e he
  · have hlt7 : h.slotOf v < kHookListMaxValues := lt_of_lt_of_le hlt hw.end_le
    exact usedIn_update_erase _ hlt7 hat hv fun j hj => privData_ne_of_lt_slotOf hj

end Remove

/-! ### Runs: the list is the bag -/

theorem call_rep {h : HookList T} {bag : Multiset T} (hR : h.Rep bag) (c : Call T) :
    ∃ h', call h c = some ((bagCall bag c).1, h') ∧ h'.Rep (bagCall bag c).2 := by
  obtain ⟨hw, rfl⟩ := hR
  cases c with
  | add v =>
    by_cases hok : v ≠ 0 ∧ h.hooks.length < kHookListMaxValues
    · have hlt := firstFreeSlot_lt_iff.mpr hok.2
      obtain ⟨hw', hperm⟩ := add_wf_hooks hw hok.1 hlt
      refine ⟨(h.add v).2, ?_, hw', ?_⟩
      · rw [call, add_of_lt hok.1 hlt, bagCall, Multiset.coe_card, if_pos hok]
      · rw [bagCall, Multiset.coe_card, if_pos hok, Multiset.cons_coe]
        exact Multiset.coe_eq_coe.mpr hperm
    · have hfail : v = 0 ∨ ¬h.firstFreeSlot < kHookListMaxValues := by
        rw [firstFreeSlot_lt_iff]
        by_cases hv : v = 0
        · exact Or.inl hv
        · exact Or.inr fun hlt => hok ⟨hv, hlt⟩
      refine ⟨h, ?_, hw, ?_⟩
      · rw [call, add_of_not_lt hfail, bagCall, Multiset.coe_card, if_neg hok]
      · rw [bagCall, Multiset.coe_card, if_neg hok]
  | remove v =>
    -- the bag's test reads membership in the multiset of the hooks
    by_cases hok : v ≠ 0 ∧ v ∈ (h.hooks : Multiset T)
    · have hlt := (slotOf_lt_iff hw hok.1).mpr (Multiset.mem_coe.mp hok.2)
      obtain ⟨hw', hhooks⟩ := remove_wf_hooks hw hok.1 hlt
      refine ⟨(h.remove v).2, ?_, hw', ?_⟩
      · rw [call, remove_of_lt hok.1 hlt, bagCall, if_pos hok]
      · rw [bagCall, if_pos hok, hhooks, Multiset.coe_erase]
    · have hfail : v = 0 ∨ ¬h.slotOf v < h.privEnd := by
        by_cases hv : v = 0
        · exact Or.inl hv
        · exact Or.inr fun hlt => hok ⟨hv, Multiset.mem_coe.mpr ((slotOf_lt_iff hw hv).mp hlt)⟩
      refine ⟨h, ?_, hw, ?_⟩
      · rw [call, remove_of_not_lt hfail, bagCall, if_neg hok]
      · rw [bagCall, if_neg hok]

/-- From any well-formed list, every sequence of `Add` and `Remove` answers as the bag of
its hooks does; afterwards `Invoke` calls exactly the hooks of the bag, each copy once,
`empty()` holds exactly when the bag is empty, `Traverse(output_array, n)` stores the
first `n` hooks `Invoke` calls, and `size()` lies between the number of hooks and
`kHookListMaxValues`. -/
theorem hookList_refines_bag {h₀ : HookList T} (hw : h₀.Wf) (calls : List (Call T)) :
    ∃ h, Simulation.runC call h₀ calls =
        some ((Simulation.runA bagCall (h₀.hooks : Multiset T) calls).1, h) ∧
      (h.invoke : Multiset T) = (Simulation.runA bagCall (h₀.hooks : Multiset T) calls).2 ∧
      (h.empty = true ↔ (Simulation.runA bagCall (h₀.hooks : Multiset T) calls).2 = 0) ∧
      (∀ n, h.traverse n = h.invoke.take n) ∧
      Multiset.card (Simulation.runA bagCall (h₀.hooks : Multiset T) calls).2 ≤ h.size ∧
      h.size ≤ kHookListMaxValues := by
  obtain ⟨h, hrun, hw', hbag⟩ := @Simulation.simulation _ _ _ _ call bagCall (fun _ _ => True) Rep
    (fun _ _ c hR _ => call_rep hR c) _ _ _ ⟨hw, rfl⟩
    (Simulation.allowed_of_forall (fun _ _ => trivial) _ calls)
  refine ⟨h, hrun, ?_, ?_, ?_, ?_, hw'.end_le⟩
  · rw [invoke_eq hw', hbag]
  · rw [empty_iff hw', ← hbag, Multiset.coe_eq_zero]
  · intro n
    rw [traverse_eq hw', invoke_eq hw']
  · rw [← hbag, Multiset.coe_card]
    exact length_hooks_le_size hw'

theorem hookList_refines_bag_initial :
    (ofInitial (5 : Nat)).Wf ∧
      ∃ h, Simulation.runC call (ofInitial (5 : Nat)) [.add 7, .remove 5, .remove 9] =
          some ((Simulation.runA bagCall ((ofInitial (5 : Nat)).hooks : Multiset Nat)
            [.add 7, .remove 5, .remove 9]).1, h) ∧
        (h.invoke : Multiset Nat) = (Simulation.runA bagCall ((ofInitial (5 : Nat)).hooks : Multiset Nat)
          [.add 7, .remove 5, .remove 9]).2 ∧
        (h.empty = true ↔ (Simulation.runA bagCall ((ofInitial (5 : Nat)).hooks : Multiset Nat)
          [.add 7, .remove 5, .remove 9]).2 = 0) ∧
        (∀ n, h.traverse n = h.invoke.take n) ∧
        Multiset.card (Simulation.runA bagCall ((ofInitial (5 : Nat)).hooks : Multiset Nat)
          [.add 7, .remove 5, .remove 9]).2 ≤ h.size ∧
        h.size ≤ kHookListMaxValues :=
  ⟨wf_ofInitial (by decide), hookList_refines_bag (wf_ofInitial (by decide)) _⟩

end HookList

end TCMalloc.Internal
