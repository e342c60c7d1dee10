import TCMalloc.Lib.RingQueue
import Mathlib.Algebra.BigOperators.Group.Finset.Piecewise
import Mathlib.Algebra.Order.BigOperators.Group.Finset
import Mathlib.Algebra.BigOperators.Ring.Finset
import Mathlib.Algebra.Order.BigOperators.Group.List
import Mathlib.Algebra.Order.Group.Int

/-!
`StackTraceFilter` and `DecayingStackTraceFilter` (stacktrace_filter.h): counting Bloom
filters of stack traces.  A trace is hashed to `kHashNum` of `kSize` buckets of 16-bit
counts by a chain of hashes; `Add(s, val)` adds `val` to each of its buckets, wrapping, and
`Contains(s)` asks that none of them be zero.  The hashes are arbitrary functions here.

Every count is what the `Add` calls gave its bucket, wrapped to 16 bits (`run_apply`):
while those sums are in range and no trace was removed more than it was added, a bucket
counts the net values of the traces hashed to it, and `Contains` has no false negatives.

The decaying filter adds one more on every non-negative `Add` and withdraws it later: such
an `Add` and every `Decay()` write a hash into a ring of `kDecaySteps` slots at a wrapping
position and withdraw the hash they replace.  When `kDecaySteps` divides `2 ^ 64` the ring
holds the last `kDecaySteps` hashes written, oldest first (`Inv`), so the extra one is
withdrawn by exactly the `kDecaySteps`-th write after it; for other sizes the wrap of
`pos_` breaks that order.
-/

set_option autoImplicit false
set_option relaxedAutoImplicit false

namespace TCMalloc.Internal.StacktraceFilter

open TCMalloc.Lib.RingQueue

/-- The template parameters `kSize` and `kHashNum` with their `static_assert`s, and the
hashes: `GetFirstHash` (`absl::HashOf` of the stack trace) and `GetNextHash`. -/
structure Params (τ : Type) where
  kSize : Nat
  kHashNum : Nat
  getFirstHash : τ → UInt64
  getNextHash : UInt64 → UInt64
  kSize_pos : 0 < kSize
  kHashNum_pos : 0 < kHashNum

/-- `counts_`: the count of bucket `b < kSize`. -/
abbrev Counts := Nat → UInt16

section Base

variable {τ : Type} (H : Params τ)

/-- `stack_hash % kSize`. -/
def bucket (h : UInt64) : Nat := h.toNat % H.kSize

/-- `counts_[b].fetch_add(val)`: the `int` is converted to `uint16_t` and the sum wraps. -/
def fetchAdd (counts : Counts) (b : Nat) (val : Int) : Counts :=
  Function.update counts b (counts b + UInt16.ofInt val)

/-- The loop of the protected `Add(stack_hash, val)`, with `n` hashes to go. -/
def addLoop (val : Int) : Nat → UInt64 → Counts → Counts
  | 0, _, counts => counts
  | n + 1, h, counts => addLoop val n (H.getNextHash h) (fetchAdd counts (bucket H h) val)

/-- The protected `Add(stack_hash, val)`. -/
def addHash (counts : Counts) (h : UInt64) (val : Int) : Counts :=
  addLoop H val H.kHashNum h counts

/-- `Add(stack_trace, val)`. -/
def add (counts : Counts) (s : τ) (val : Int) : Counts := addHash H counts (H.getFirstHash s) val

/-- The loop of `Contains`, with `n` hashes to go. -/
def containsLoop (counts : Counts) : Nat → UInt64 → Bool
  | 0, _ => true
  | n + 1, h =>
    if counts (bucket H h) = 0 then false else containsLoop counts n (H.getNextHash h)

/-- `Contains(stack_trace)`. -/
def contains (counts : Counts) (s : τ) : Bool :=
  containsLoop H counts H.kHashNum (H.getFirstHash s)

/-- The buckets of the hash chain from `h`, `n` of them, with repeats. -/
def hashBuckets : Nat → UInt64 → List Nat
  | 0, _ => []
  | n + 1, h => bucket H h :: hashBuckets n (H.getNextHash h)

/-- How often the chain of `h` hits bucket `j`. -/
def mult (h : UInt64) (j : Nat) : Nat := (hashBuckets H H.kHashNum h).count j

theorem ofInt_zero : UInt16.ofInt 0 = 0 := rfl

theorem addLoop_apply (val : Int) : ∀ (n : Nat) (h : UInt64) (counts : Counts) (j : Nat),
    addLoop H val n h counts j =
      counts j + UInt16.ofInt (val * ((hashBuckets H n h).count j : Int))
  | 0, _, _, _ => by simp [addLoop, hashBuckets, ofInt_zero]
  | n + 1, h, counts, j => by
    rw [addLoop, addLoop_apply val n, hashBuckets, List.count_cons, fetchAdd]
    rcases eq_or_ne j (bucket H h) with rfl | hne
    · simp only [Function.update_self, beq_self_eq_true, if_true, Nat.cast_add, Nat.cast_one,
        Int.mul_add, Int.mul_one, UInt16.ofInt_add]
      rw [UInt16.add_assoc, UInt16.add_comm (UInt16.ofInt val)]
    · simp [Function.update_of_ne hne, Ne.symm hne]

theorem addHash_apply (counts : Counts) (h : UInt64) (val : Int) (j : Nat) :
    addHash H counts h val j = counts j + UInt16.ofInt (val * (mult H h j : Int)) :=
  addLoop_apply H val _ h counts j

theorem containsLoop_eq_true (counts : Counts) : ∀ (n : Nat) (h : UInt64),
    containsLoop H counts n h = true ↔ ∀ b ∈ hashBuckets H n h, counts b ≠ 0
  | 0, _ => by simp [containsLoop, hashBuckets]
  | n + 1, h => by
    rw [containsLoop, hashBuckets, List.forall_mem_cons, ← containsLoop_eq_true counts n]
    rcases eq_or_ne (counts (bucket H h)) 0 with hz | hz
    · simp [hz]
    · simp [hz]

theorem contains_eq_true (counts : Counts) (s : τ) :
    contains H counts s = true ↔ ∀ j, 0 < mult H (H.getFirstHash s) j → counts j ≠ 0 := by
  rw [contains, containsLoop_eq_true]
  simp only [mult, List.count_pos_iff]

/-- The counts after the calls `Add(s, val)` of `ops` on an empty filter. -/
def run (ops : List (τ × Int)) : Counts :=
  ops.foldl (fun counts op => add H counts op.1 op.2) fun _ => 0

/-- What the calls `ops` gave bucket `j`, as an integer. -/
def bucketCount (ops : List (τ × Int)) (j : Nat) : Int :=
  (ops.map fun op => op.2 * (mult H (H.getFirstHash op.1) j : Int)).sum

theorem bucketCount_cons (op : τ × Int) (ops : List (τ × Int)) (j : Nat) :
    bucketCount H (op :: ops) j = op.2 * (mult H (H.getFirstHash op.1) j : Int) +
      bucketCount H ops j := by
  rw [bucketCount, List.map_cons, List.sum_cons]
  rfl

theorem bucketCount_nil (j : Nat) : bucketCount H [] j = 0 := rfl

theorem bucketCount_append (ops ops' : List (τ × Int)) (j : Nat) :
    bucketCount H (ops ++ ops') j = bucketCount H ops j + bucketCount H ops' j := by
  rw [bucketCount, List.map_append, List.sum_append]
  rfl

theorem foldl_add_apply : ∀ (ops : List (τ × Int)) (counts : Counts) (j : Nat),
    ops.foldl (fun counts op => add H counts op.1 op.2) counts j =
      counts j + UInt16.ofInt (bucketCount H ops j)
  | [], _, _ => by simp [bucketCount, ofInt_zero]
  | op :: ops, counts, j => by
    rw [List.foldl_cons, foldl_add_apply ops, add, addHash_apply, bucketCount_cons,
      UInt16.ofInt_add, UInt16.add_assoc]

theorem run_apply (ops : List (τ × Int)) (j : Nat) :
    run H ops j = UInt16.ofInt (bucketCount H ops j) := by
  rw [run, foldl_add_apply]
  exact UInt16.zero_add _

variable [DecidableEq τ]

/-- The net value of trace `s`: what its calls added, less what they removed. -/
def net (ops : List (τ × Int)) (s : τ) : Int :=
  ((ops.filter fun op => op.1 = s).map Prod.snd).sum

theorem net_cons (op : τ × Int) (ops : List (τ × Int)) (s : τ) :
    net (op :: ops) s = (if op.1 = s then op.2 else 0) + net ops s := by
  unfold net
  rw [List.filter_cons]
  by_cases h : op.1 = s <;> simp [h]

theorem bucketCount_eq_sum_net {T : Finset τ} : ∀ (ops : List (τ × Int)),
    (∀ op ∈ ops, op.1 ∈ T) →
      ∀ j, bucketCount H ops j = ∑ s ∈ T, net ops s * (mult H (H.getFirstHash s) j : Int)
  | [], _, j => by simp [bucketCount, net]
  | op :: ops, hT, j => by
    simp only [net_cons, add_mul, Finset.sum_add_distrib, ite_mul, zero_mul, Finset.sum_ite_eq,
      if_pos (hT op List.mem_cons_self)]
    rw [← bucketCount_eq_sum_net ops (fun op' h => hT op' (List.mem_cons_of_mem _ h)) j,
      bucketCount_cons]

/-- The traces of the calls. -/
def traces (ops : List (τ × Int)) : Finset τ := (ops.map Prod.fst).toFinset

theorem mem_traces_of_net_ne_zero {ops : List (τ × Int)} {s : τ} (h : net ops s ≠ 0) :
    s ∈ traces ops := by
  by_contra hs
  apply h
  have hnil : (ops.filter fun op => op.1 = s) = [] := by
    rw [List.filter_eq_nil_iff]
    intro op hop heq
    exact hs (List.mem_toFinset.mpr (List.mem_map.mpr ⟨op, hop, of_decide_eq_true heq⟩))
  rw [net, hnil]
  rfl

theorem bucketCount_eq_sum_traces (ops : List (τ × Int)) (j : Nat) :
    bucketCount H ops j = ∑ s ∈ traces ops, net ops s * (mult H (H.getFirstHash s) j : Int) :=
  bucketCount_eq_sum_net H ops (fun _ h => List.mem_toFinset.mpr (List.mem_map_of_mem h)) j

theorem toNat_ofInt_of_lt {x : Int} (h0 : 0 ≤ x) (h1 : x < 2 ^ 16) :
    ((UInt16.ofInt x).toNat : Int) = x := by
  rw [UInt16.ofInt, UInt16.toNat_ofNat', Int.emod_eq_of_lt h0 h1]
  omega

theorem ofInt_ne_zero_of_lt {x : Int} (h0 : 0 < x) (h1 : x < 2 ^ 16) : UInt16.ofInt x ≠ 0 := by
  intro hz
  have := toNat_ofInt_of_lt h0.le h1
  rw [hz] at this
  simp at this
  omega

theorem bucketCount_nonneg {ops : List (τ × Int)} (hnet : ∀ s, 0 ≤ net ops s) (j : Nat) :
    0 ≤ bucketCount H ops j := by
  rw [bucketCount_eq_sum_traces]
  exact Finset.sum_nonneg fun s _ => Int.mul_nonneg (hnet s) (Int.natCast_nonneg _)

theorem bucketCount_pos {ops : List (τ × Int)} (hnet : ∀ s, 0 ≤ net ops s) {s : τ} {j : Nat}
    (hs : 0 < net ops s) (hj : 0 < mult H (H.getFirstHash s) j) : 0 < bucketCount H ops j := by
  rw [bucketCount_eq_sum_traces]
  have hterm : 0 < net ops s * (mult H (H.getFirstHash s) j : Int) :=
    Int.mul_pos hs (Int.natCast_pos.mpr hj)
  exact lt_of_lt_of_le hterm (Finset.single_le_sum
    (fun s' _ => Int.mul_nonneg (hnet s') (Int.natCast_nonneg _))
    (mem_traces_of_net_ne_zero (Int.ne_of_gt hs)))

theorem run_toNat {ops : List (τ × Int)} (hnet : ∀ s, 0 ≤ net ops s)
    (hrange : ∀ j, bucketCount H ops j < 2 ^ 16) (j : Nat) :
    ((run H ops j).toNat : Int) = bucketCount H ops j := by
  rw [run_apply]
  exact toNat_ofInt_of_lt (bucketCount_nonneg H hnet j) (hrange j)

theorem contains_of_net_pos {ops : List (τ × Int)} (hnet : ∀ s, 0 ≤ net ops s)
    (hrange : ∀ j, bucketCount H ops j < 2 ^ 16) {s : τ} (hs : 0 < net ops s) :
    contains H (run H ops) s = true := by
  rw [contains_eq_true]
  intro j hj
  rw [run_apply]
  exact ofInt_ne_zero_of_lt (bucketCount_pos H hnet hs hj) (hrange j)

theorem contains_eq_false_of_net_zero {ops : List (τ × Int)} (hzero : ∀ s, net ops s = 0)
    (s : τ) : contains H (run H ops) s = false := by
  have hrun : ∀ j, run H ops j = 0 := fun j => by
    rw [run_apply, bucketCount_eq_sum_traces]
    simp [hzero, ofInt_zero]
  obtain ⟨n, hn⟩ : ∃ n, H.kHashNum = n + 1 := ⟨_, (Nat.succ_pred_eq_of_pos H.kHashNum_pos).symm⟩
  rw [contains, hn, containsLoop, if_pos (hrun _)]

end Base

/-- `DecayingStackTraceFilter`'s state: the base filter's `counts_`, `ring_` and `pos_`. -/
structure DecayingFilter where
  counts : Counts
  ring : Nat → UInt64
  pos : UInt64

/-- A filter just constructed. -/
def DecayingFilter.empty : DecayingFilter := ⟨fun _ => 0, fun _ => 0, 0⟩

/-- The public calls of the decaying filter. -/
inductive Call (τ : Type) where
  | add (s : τ) (val : Int)
  | decay
  | decayAll

section Decaying

variable {τ : Type} (H : Params τ) (K : Nat)

/-- `Base::Add(stack_hash, val)` on the decaying filter. -/
def baseAdd (st : DecayingFilter) (h : UInt64) (val : Int) : DecayingFilter :=
  { st with counts := addHash H st.counts h val }

/-- The private `Decay(replace_hash)` with `kDecaySteps = K`: the slot at `pos_` takes
`replaceHash`, the hash it held is decayed unless it is the zero of an empty slot, and
`pos_` moves on. -/
def decayWith (st : DecayingFilter) (replaceHash : UInt64) : DecayingFilter where
  counts := if st.ring (st.pos.toNat % K) = 0 then st.counts
    else addHash H st.counts (st.ring (st.pos.toNat % K)) (-1)
  ring := Function.update st.ring (st.pos.toNat % K) replaceHash
  pos := st.pos + 1

/-- `Add(stack_trace, val)`: an addition decays a previous trace and adds one more when
the hash is not zero. -/
def decayingAdd (st : DecayingFilter) (s : τ) (val : Int) : DecayingFilter :=
  if 0 ≤ val then
    baseAdd H (decayWith H K st (H.getFirstHash s)) (H.getFirstHash s)
      (val + if H.getFirstHash s = 0 then 0 else 1)
  else baseAdd H st (H.getFirstHash s) val

/-- `Decay()`. -/
def decay (st : DecayingFilter) : DecayingFilter := decayWith H K st 0

/-- `DecayAll()`: `kDecaySteps` calls of `Decay()`. -/
def decayAll (st : DecayingFilter) : DecayingFilter := (decay H K)^[K] st

def step (st : DecayingFilter) : Call τ → DecayingFilter
  | .add s val => decayingAdd H K st s val
  | .decay => decay H K st
  | .decayAll => decayAll H K st

/-- The filter after the calls `calls`, from a filter just constructed. -/
def runDecaying (calls : List (Call τ)) : DecayingFilter :=
  calls.foldl (step H K) DecayingFilter.empty

/-- The hashes a call writes into the ring, one for each `Decay(replace_hash)` it makes. -/
def writes : Call τ → List UInt64
  | .add s val => if 0 ≤ val then [H.getFirstHash s] else []
  | .decay => [0]
  | .decayAll => List.replicate K 0

/-- The base filter's view of a call's `Add`, without the extra one. -/
def adds : Call τ → List (τ × Int)
  | .add s val => [(s, val)]
  | _ => []

/-- Every hash the calls wrote into the ring, in order. -/
def allWrites (calls : List (Call τ)) : List UInt64 := calls.flatMap (writes H K)

/-- Every `Add` of the calls. -/
def allAdds (calls : List (Call τ)) : List (τ × Int) := calls.flatMap adds

/-- The last `K` hashes written, oldest first, behind the zeros of a ring just built. -/
def lastWrites (calls : List (Call τ)) : List UInt64 :=
  (List.replicate K 0 ++ allWrites H K calls).drop (allWrites H K calls).length

/-- What a hash in the ring still adds to bucket `j`: one for each time its chain hits
`j`, and nothing for the zero of an empty slot. -/
def heldCount (h : UInt64) (j : Nat) : Int := if h = 0 then 0 else (mult H h j : Int)

/-- What the hashes of a queue still add to bucket `j`. -/
def pendingCount (q : List UInt64) (j : Nat) : Int := (q.map fun h => heldCount H h j).sum

/-- The ring holds the queue `q` of the last `K` hashes written, oldest first, and each
count is what the calls `added` and the hashes of `q` give its bucket. -/
def Inv (st : DecayingFilter) (added : List (τ × Int)) (q : List UInt64) : Prop :=
  view st.ring K st.pos.toNat K = q ∧
    ∀ j, st.counts j = UInt16.ofInt (bucketCount H added j + pendingCount H q j)

theorem pendingCount_nil (j : Nat) : pendingCount H [] j = 0 := rfl

theorem pendingCount_cons (h : UInt64) (q : List UInt64) (j : Nat) :
    pendingCount H (h :: q) j = heldCount H h j + pendingCount H q j := by
  rw [pendingCount, List.map_cons, List.sum_cons]
  rfl

theorem pendingCount_append (q q' : List UInt64) (j : Nat) :
    pendingCount H (q ++ q') j = pendingCount H q j + pendingCount H q' j := by
  rw [pendingCount, List.map_append, List.sum_append]
  rfl

theorem pendingCount_replicate_zero (n j : Nat) : pendingCount H (List.replicate n 0) j = 0 := by
  simp [pendingCount, heldCount]

theorem heldCount_nonneg (h : UInt64) (j : Nat) : 0 ≤ heldCount H h j := by
  unfold heldCount
  split
  · exact Int.le_refl 0
  · exact Int.natCast_nonneg _

theorem baseAdd_counts (st : DecayingFilter) (h : UInt64) (val : Int) (j : Nat) :
    (baseAdd H st h val).counts j = st.counts j + UInt16.ofInt (val * (mult H h j : Int)) :=
  addHash_apply H st.counts h val j

theorem inv_empty : Inv H K DecayingFilter.empty [] (List.replicate K 0) := by
  refine ⟨view_const 0 K _ K, fun j => ?_⟩
  rw [pendingCount_replicate_zero]
  rfl

theorem lastWrites_decayAll (calls : List (Call τ)) :
    lastWrites H K (calls ++ [.decayAll]) = List.replicate K 0 := by
  have hw : allWrites H K (calls ++ [.decayAll]) = allWrites H K calls ++ List.replicate K 0 := by
    rw [allWrites, List.flatMap_append, List.flatMap_cons, List.flatMap_nil, List.append_nil]
    rfl
  rw [lastWrites, hw, ← List.append_assoc]
  exact List.drop_left' (by simp [Nat.add_comm])

section Ring

/-! When `kDecaySteps` divides `2 ^ 64`, the wrap of `pos_` keeps the ring a queue. -/

variable {K} (hK : 0 < K) (hdvd : K ∣ 2 ^ 64)
include hK hdvd

theorem decayWith_inv {st : DecayingFilter} {added : List (τ × Int)} {q : List UInt64}
    (hinv : Inv H K st added q) (r : UInt64) :
    view (decayWith H K st r).ring K (decayWith H K st r).pos.toNat K = shift q r ∧
      ∀ j, (decayWith H K st r).counts j = UInt16.ofInt
        (bucketCount H added j + pendingCount H (shift q r) j - heldCount H r j) := by
  obtain ⟨hview, hcounts⟩ := hinv
  obtain ⟨y, hy⟩ : ∃ y, y = st.ring (st.pos.toNat % K) := ⟨_, rfl⟩
  have hq : q = y :: q.tail := by
    obtain ⟨n, rfl⟩ : ∃ n, K = n + 1 := ⟨K - 1, by omega⟩
    rw [← hview, view_succ, List.tail_cons, hy]
  refine ⟨?_, fun j => ?_⟩
  · show view (Function.update st.ring (st.pos.toNat % K) r) K (st.pos + 1).toNat K = shift q r
    rw [UInt64.toNat_add, UInt64.toNat_one, view_exchange hK hdvd, hview, shift]
  · have hcons := pendingCount_cons H y q.tail j
    rw [← hq] at hcons
    have hpend : pendingCount H (shift q r) j =
        pendingCount H q j - heldCount H y j + heldCount H r j := by
      rw [shift, pendingCount_append, pendingCount_cons, pendingCount_nil]
      omega
    rw [hpend]
    show (if st.ring (st.pos.toNat % K) = 0 then st.counts
      else addHash H st.counts (st.ring (st.pos.toNat % K)) (-1)) j = _
    rw [← hy]
    rcases eq_or_ne y 0 with hzero | hzero
    · rw [if_pos hzero, hcounts, heldCount, if_pos hzero]
      congr 1
      omega
    · rw [if_neg hzero, addHash_apply, hcounts, ← UInt16.ofInt_add, heldCount, if_neg hzero]
      congr 1
      omega

theorem decay_inv {st : DecayingFilter} {added : List (τ × Int)} {q : List UInt64}
    (hinv : Inv H K st added q) : Inv H K (decay H K st) added (shift q 0) := by
  obtain ⟨hview, hcounts⟩ := decayWith_inv H hK hdvd hinv 0
  refine ⟨hview, fun j => ?_⟩
  rw [decay, hcounts, heldCount, if_pos rfl, Int.sub_zero]

theorem iterate_decay_inv {st : DecayingFilter} {added : List (τ × Int)} {q : List UInt64}
    (hinv : Inv H K st added q) :
    ∀ n, Inv H K ((decay H K)^[n] st) added (shiftAll q (List.replicate n 0))
  | 0 => hinv
  | n + 1 => by
    rw [Function.iterate_succ_apply', List.replicate_succ', shiftAll_append]
    exact decay_inv H hK hdvd (iterate_decay_inv hinv n)

theorem step_inv {st : DecayingFilter} {added : List (τ × Int)} {q : List UInt64}
    (hinv : Inv H K st added q) :
    ∀ c : Call τ, Inv H K (step H K st c) (added ++ adds c) (shiftAll q (writes H K c))
  | .add s val => by
    obtain ⟨h, hh⟩ : ∃ h, h = H.getFirstHash s := ⟨_, rfl⟩
    rcases Int.lt_or_le val 0 with hv | hv
    · -- a removal only adds its value
      have hstep : step H K st (.add s val) = baseAdd H st h val := by
        rw [step, decayingAdd, if_neg (Int.not_le.mpr hv), hh]
      have hw : writes H K (.add s val) = [] := if_neg (Int.not_le.mpr hv)
      obtain ⟨hview, hcounts⟩ := hinv
      rw [hstep, hw, adds]
      refine ⟨hview, fun j => ?_⟩
      rw [baseAdd_counts, hcounts, ← UInt16.ofInt_add, bucketCount_append, bucketCount_cons,
        bucketCount_nil, ← hh]
      congr 1
      show _ = _ + (val * _ + 0) + pendingCount H q j
      omega
    · -- an addition decays the oldest hash, pushes its own and adds one more
      have hstep : step H K st (.add s val) =
          baseAdd H (decayWith H K st h) h (val + if h = 0 then 0 else 1) := by
        rw [step, decayingAdd, if_pos hv, hh]
      have hw : writes H K (.add s val) = [h] := by rw [writes, if_pos hv, hh]
      obtain ⟨hview, hcounts⟩ := decayWith_inv H hK hdvd hinv h
      rw [hstep, hw, adds]
      refine ⟨hview, fun j => ?_⟩
      rw [baseAdd_counts, hcounts, ← UInt16.ofInt_add, bucketCount_append, bucketCount_cons,
        bucketCount_nil, ← hh]
      congr 1
      show _ = _ + (val * _ + 0) + pendingCount H (shift q h) j
      rcases eq_or_ne h 0 with hzero | hzero
      · rw [heldCount, if_pos hzero, if_pos hzero, Int.add_zero]
        omega
      · rw [heldCount, if_neg hzero, if_neg hzero, Int.add_mul, Int.one_mul]
        omega
  | .decay => by
    show Inv H K (decay H K st) (added ++ []) (shift q 0)
    rw [List.append_nil]
    exact decay_inv H hK hdvd hinv
  | .decayAll => by
    show Inv H K ((decay H K)^[K] st) (added ++ []) (shiftAll q (List.replicate K 0))
    rw [List.append_nil]
    exact iterate_decay_inv H hK hdvd hinv K

theorem foldl_step_inv : ∀ (calls : List (Call τ)) {st : DecayingFilter}
    {added : List (τ × Int)} {q : List UInt64}, Inv H K st added q →
      Inv H K (calls.foldl (step H K) st) (added ++ allAdds calls)
        (shiftAll q (allWrites H K calls))
  | [], _, added, q, hinv => by
    rw [List.foldl_nil, allAdds, List.flatMap_nil, List.append_nil]
    exact hinv
  | c :: calls, _, added, q, hinv => by
    have := foldl_step_inv calls (step_inv H hK hdvd hinv c)
    rw [List.append_assoc, ← shiftAll_append] at this
    rw [List.foldl_cons, allAdds, allWrites, List.flatMap_cons, List.flatMap_cons]
    exact this

theorem runDecaying_inv (calls : List (Call τ)) :
    Inv H K (runDecaying H K calls) (allAdds calls) (lastWrites H K calls) := by
  have := foldl_step_inv H hK hdvd calls (inv_empty H K)
  rw [List.nil_append, shiftAll_eq_drop (by simpa using Nat.pos_iff_ne_zero.mp hK)] at this
  exact this

theorem runDecaying_slot (calls : List (Call τ)) :
    (runDecaying H K calls).ring ((runDecaying H K calls).pos.toNat % K) =
      (List.replicate K 0 ++ allWrites H K calls).getD (allWrites H K calls).length 0 := by
  obtain ⟨n, hn⟩ : ∃ n, K = n + 1 := ⟨K - 1, by omega⟩
  have hhead := head?_view_succ (runDecaying H K calls).ring K (runDecaying H K calls).pos.toNat n
  rw [← hn, (runDecaying_inv H hK hdvd calls).1, lastWrites, List.head?_drop] at hhead
  rw [List.getD_eq_getElem?_getD, hhead]
  rfl

theorem contains_of_pending [DecidableEq τ] (calls : List (Call τ)) {s : τ}
    (hs : H.getFirstHash s ≠ 0) (hpend : H.getFirstHash s ∈ lastWrites H K calls)
    (hnet : ∀ s', 0 ≤ net (allAdds calls) s')
    (hrange : ∀ j, bucketCount H (allAdds calls) j + pendingCount H (lastWrites H K calls) j <
      2 ^ 16) :
    contains H (runDecaying H K calls).counts s = true := by
  rw [contains_eq_true]
  intro j hj
  rw [(runDecaying_inv H hK hdvd calls).2 j]
  have hadds := bucketCount_nonneg H hnet j
  have hheld : 0 < heldCount H (H.getFirstHash s) j := by
    rw [heldCount, if_neg hs]
    exact Int.natCast_pos.mpr hj
  have hle : heldCount H (H.getFirstHash s) j ≤ pendingCount H (lastWrites H K calls) j :=
    List.single_le_sum (fun x hx => by
      obtain ⟨h, -, rfl⟩ := List.mem_map.mp hx
      exact heldCount_nonneg H h j) _ (List.mem_map_of_mem hpend)
  exact ofInt_ne_zero_of_lt (by omega) (hrange j)

theorem runDecaying_decayAll (calls : List (Call τ)) (j : Nat) :
    (runDecaying H K (calls ++ [.decayAll])).counts j =
      UInt16.ofInt (bucketCount H (allAdds calls) j) := by
  have hadds : allAdds (calls ++ [(.decayAll : Call τ)]) = allAdds calls := by
    rw [allAdds, List.flatMap_append, List.flatMap_cons, List.flatMap_nil, List.append_nil]
    exact List.append_nil _
  rw [(runDecaying_inv H hK hdvd _).2 j, lastWrites_decayAll, pendingCount_replicate_zero,
    Int.add_zero, hadds]

end Ring

theorem foldl_decay_empty : ∀ n : Nat,
    (List.replicate n (Call.decay : Call τ)).foldl (step H K) DecayingFilter.empty =
      ⟨fun _ => 0, fun _ => 0, UInt64.ofNat n⟩
  | 0 => rfl
  | n + 1 => by
    rw [List.replicate_succ', List.foldl_append, foldl_decay_empty n, List.foldl_cons,
      List.foldl_nil, UInt64.ofNat_add]
    show decayWith H K _ 0 = _
    rw [decayWith, if_pos rfl, Function.update_eq_self]
    rfl

end Decaying

theorem stackTraceFilters_count_net_values {τ : Type} [DecidableEq τ] (H : Params τ) (K : Nat)
    (hK : 0 < K) (hdvd : K ∣ 2 ^ 64) :
    (∀ ops : List (τ × Int), (∀ s, 0 ≤ net ops s) → (∀ j, bucketCount H ops j < 2 ^ 16) →
      (∀ j, ((run H ops j).toNat : Int) =
        ∑ s ∈ traces ops, net ops s * (mult H (H.getFirstHash s) j : Int)) ∧
      (∀ s, 0 < net ops s → contains H (run H ops) s = true) ∧
      ((∀ s, net ops s = 0) → ∀ s, contains H (run H ops) s = false)) ∧
    (∀ calls : List (Call τ),
      (runDecaying H K calls).ring ((runDecaying H K calls).pos.toNat % K) =
          (List.replicate K 0 ++ allWrites H K calls).getD (allWrites H K calls).length 0 ∧
      (∀ j, (runDecaying H K calls).counts j = UInt16.ofInt
        (bucketCount H (allAdds calls) j + pendingCount H (lastWrites H K calls) j)) ∧
      (∀ s, H.getFirstHash s ≠ 0 → H.getFirstHash s ∈ lastWrites H K calls →
        (∀ s', 0 ≤ net (allAdds calls) s') →
        (∀ j, bucketCount H (allAdds calls) j + pendingCount H (lastWrites H K calls) j <
          2 ^ 16) →
        contains H (runDecaying H K calls).counts s = true) ∧
      (∀ j, (runDecaying H K (calls ++ [.decayAll])).counts j =
        UInt16.ofInt (bucketCount H (allAdds calls) j))) := by
  refine ⟨fun ops hnet hrange => ⟨fun j => ?_, fun s hs => contains_of_net_pos H hnet hrange hs,
      fun hzero s => contains_eq_false_of_net_zero H hzero s⟩,
    fun calls => ⟨runDecaying_slot H hK hdvd calls, (runDecaying_inv H hK hdvd calls).2,
      fun s hs hpend hnet hrange => contains_of_pending H hK hdvd calls hs hpend hnet hrange,
      runDecaying_decayAll H hK hdvd calls⟩⟩
  rw [run_toNat H hnet hrange, bucketCount_eq_sum_traces]

/-- A filter of one bucket and one hash, under which every trace hashes to `1`. -/
def unitParams : Params Unit := ⟨1, 1, fun _ => 1, id, Nat.one_pos, Nat.one_pos⟩

theorem stackTraceFilters_count_net_values_guarded :
    0 < 32 ∧ 32 ∣ 2 ^ 64 ∧
      (runDecaying unitParams 32 [.add () 5, .decayAll]).counts 0 =
        UInt16.ofInt (bucketCount unitParams [((), 5)] 0) :=
  ⟨by decide, by decide,
    (stackTraceFilters_count_net_values unitParams 32 (by decide) (by decide)).2 [.add () 5]
      |>.2.2.2 0⟩

end TCMalloc.Internal.StacktraceFilter
