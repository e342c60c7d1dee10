import Mathlib.Data.List.Pairwise
import TCMalloc.Lib.Run
import TCMalloc.HugeRegion.Calls
import TCMalloc.HugeRegion.SpanStats

/-!
A `HugeRegion` with its callers: from construction they call `MaybeGet(n)`,
`Put` of a range an earlier `MaybeGet` returned and not yet put, and
`Release(desired, adaptive_release)`, with an `unback_` that may fail on any
call.  Every region reached so is valid, its `AddSpanStats` checks hold, and
from it every call returns and does what its outcome says.
-/

set_option autoImplicit false
set_option relaxedAutoImplicit false

namespace TCMalloc

open TCMalloc.Lib TCMalloc.Lib.Scan TCMalloc.Lib.Blocks TCMalloc.Internal

namespace HugeRegion

variable {H P : Nat}

/-- The calls of the region's callers; `unback` gives the outcome of `unback_`
on a run by its first hugepage and its length. -/
inductive Call
  | maybeGet (n : Nat)
  | put (p n : Nat) (release : Bool) (unback : Nat → Nat → Bool)
  | release (desired : Nat) (adaptive : Bool) (unback : Nat → Nat → Bool)

/-- The region and the ranges `(first page, length)` its callers hold. -/
structure State (H P : Nat) where
  region : HugeRegion H P
  live : List (Nat × Nat)

def step (st : State H P) : Call → Option (State H P)
  | .maybeGet n => (st.region.maybeGet n).map fun r =>
      ⟨r.1, match r.2 with
        | none => st.live
        | some (index, _) => (index, n) :: st.live⟩
  | .put p n release unback =>
      (st.region.put p n release unback).map fun r => ⟨r.1, st.live.erase (p, n)⟩
  | .release desired adaptive unback =>
      (st.region.release desired adaptive unback).map fun r => ⟨r.1, st.live⟩

/-- `MaybeGet` asks for at least one page, as it asserts; `Put` gives back a
range that is held. -/
def Allowed (st : State H P) : Call → Prop
  | .maybeGet n => 0 < n
  | .put p n _ _ => (p, n) ∈ st.live
  | .release _ _ _ => True

/-- Two page ranges do not overlap. -/
def Apart (r r' : Nat × Nat) : Prop := r.1 + r.2 ≤ r'.1 ∨ r'.1 + r'.2 ≤ r.1

instance : Std.Symm (Apart : Nat × Nat → Nat × Nat → Prop) := ⟨fun _ _ h => h.symm⟩

/-- The region is valid and the held ranges are used pages of it, apart from
each other. -/
structure Inv (st : State H P) : Prop where
  valid : st.region.Valid
  live : ∀ r ∈ st.live, 0 < r.2 ∧ r.1 + r.2 ≤ H * P ∧ st.region.tracker.bits.SetOn r.1 (r.1 + r.2)
  apart : st.live.Pairwise Apart

theorem init_valid : (init : HugeRegion H P).Valid := by
  refine ⟨⟨fun i _ => ?_, fun i _ h => absurd h (by simp [init]), ?_, ?_⟩,
    RangeTracker.init_exact, Nat.two_pow_pos _⟩
  · show 0 = Nat.count (fun k => false = true) _ - Nat.count (fun k => false = true) _
    simp
  · show 0 = Nat.count (fun k => false = true) H
    simp
  · show 0 = Nat.count (fun k => (false && _) = true) H
    simp

theorem init_inv : Inv (⟨init, []⟩ : State H P) :=
  ⟨init_valid, fun _ h => absurd h List.not_mem_nil, List.Pairwise.nil⟩

theorem apart_of_clear_set {b : Bitmap (H * P)} {r r' : Nat × Nat} (hpos : 0 < r.2) (hpos' : 0 < r'.2)
    (hclear : b.ClearOn r.1 (r.1 + r.2)) (hset : b.SetOn r'.1 (r'.1 + r'.2)) : Apart r r' := by
  by_contra hov
  simp only [Apart, not_or, Nat.not_le] at hov
  have h1 := hclear (max r.1 r'.1) (Nat.le_max_left _ _) (by omega)
  rw [hset (max r.1 r'.1) (Nat.le_max_right _ _) (by omega)] at h1
  exact absurd h1 (by simp)

theorem ReleaseOutcome.tracker {s s' : HugeRegion H P} {desired : Nat} {adaptive : Bool}
    {unback : Nat → Nat → Bool} {calls : List (Nat × Nat)}
    (out : ReleaseOutcome s desired adaptive unback s' calls) : s'.tracker = s.tracker := by
  by_cases hd : desired = 0
  · rw [(out.1 hd).1]
  · exact (out.2 (Nat.pos_of_ne_zero hd)).2.tracker

section Step

variable (hN : H * P < 2 ^ 64) (hP : 0 < P)
include hN hP

theorem step_inv {st st' : State H P} {c : Call} (inv : Inv st) (allowed : Allowed st c)
    (hstep : step st c = some st') : Inv st' := by
  cases c with
  | maybeGet n =>
      obtain ⟨s', r, hget, v', hout⟩ := maybeGet_spec hN hP inv.valid allowed
      simp only [step, hget, Option.map_some, Option.some.injEq] at hstep
      subst hstep
      cases r with
      | none =>
          obtain ⟨rfl, -⟩ := hout
          exact inv
      | some got =>
          obtain ⟨index, fromReleased⟩ := got
          obtain ⟨hfit, hclear, hbits, -, -⟩ := hout
          refine ⟨v', fun r hr => ?_, List.pairwise_cons.mpr ⟨fun r hr => ?_, inv.apart⟩⟩
          · dsimp only at hr ⊢
            rw [hbits]
            rcases List.mem_cons.mp hr with rfl | hr
            · exact ⟨allowed, hfit, fun k hk hk' => by simp [hk, hk']⟩
            · obtain ⟨hpos, hrfit, hset⟩ := inv.live r hr
              refine ⟨hpos, hrfit, fun k hk hk' => ?_⟩
              simp only [Bitmap.setRange_bits]
              split
              · rfl
              · exact hset k hk hk'
          · exact apart_of_clear_set allowed (inv.live r hr).1 hclear (inv.live r hr).2.2
  | put p n release unback =>
      obtain ⟨hpos, hfit, hset⟩ := inv.live _ allowed
      obtain ⟨s', calls, hput, v', hbits, -⟩ := put_spec hN hP inv.valid hpos hfit hset release unback
      simp only [step, hput, Option.map_some, Option.some.injEq] at hstep
      subst hstep
      have hnodup : st.live.Nodup := inv.apart.imp_of_mem fun {r r'} hr _ h heq => by
        subst heq
        have := (inv.live r hr).1
        unfold Apart at h
        omega
      refine ⟨v', fun r hr => ?_, inv.apart.sublist List.erase_sublist⟩
      obtain ⟨hne, hr⟩ := (List.Nodup.mem_erase_iff hnodup).mp hr
      obtain ⟨hrpos, hrfit, hrset⟩ := inv.live r hr
      have hap : Apart r (p, n) := inv.apart.forall hr allowed hne
      refine ⟨hrpos, hrfit, fun k hk hk' => ?_⟩
      dsimp only
      rw [hbits, Bitmap.clearRange_bits, if_neg (by unfold Apart at hap; dsimp only at hap; omega)]
      exact hrset k hk hk'
  | release desired adaptive unback =>
      obtain ⟨s', released, calls, hrel, v', hout⟩ := release_spec hN hP inv.valid desired adaptive unback
      simp only [step, hrel, Option.map_some, Option.some.injEq] at hstep
      subst hstep
      have htr := hout.tracker
      refine ⟨v', fun r hr => ?_, inv.apart⟩
      dsimp only
      rw [htr]
      exact inv.live r hr

theorem run_inv {calls : List Call} {st : State H P} (run : Run step Allowed ⟨init, []⟩ calls st) :
    Inv st :=
  Run.invariant Inv (fun _ _ _ inv allowed hstep => step_inv hN hP inv allowed hstep) run init_inv

end Step

/-- What holds of every region its callers reach: the accounts agree with the
tracker, `AddSpanStats` passes its checks, every call returns with the outcome
its spec states, and on a run of backed, unused hugepages `UnbackHugepages`
passes its checks and a failed `unback_` leaves the region exactly as it was. -/
structure Guarantees (st : State H P) : Prop where
  accounts : Accounts st.region st.region.tracker.bits
  addSpanStats : st.region.addSpanStats = some (st.region.freePages, st.region.unmappedPages)
  maybeGet : ∀ n, 0 < n → ∃ s' r, st.region.maybeGet n = some (s', r) ∧ GetOutcome st.region n s' r
  put : ∀ p n release unback, (p, n) ∈ st.live →
    ∃ s' calls, st.region.put p n release unback = some (s', calls) ∧
      PutOutcome st.region p n release unback s' calls
  release : ∀ desired adaptive unback, ∃ s' released calls,
    st.region.release desired adaptive unback = some (s', released, calls) ∧
      ReleaseOutcome st.region desired adaptive unback s' calls
  unbackRun : ∀ i j success, i < j → j ≤ H → (∀ h, i ≤ h → h < j → st.region.freeBacked h = true) →
    st.region.unbackRun i j success =
      some (if success then (st.region.unbacked i j, j - i) else (st.region, 0))

theorem hugeRegion_accounts_consistent (hN : H * P < 2 ^ 64) (hP : 0 < P) {calls : List Call}
    {st : State H P} (run : Run step Allowed ⟨init, []⟩ calls st) : Guarantees st := by
  have inv := run_inv hN hP run
  refine ⟨inv.valid.accounts, addSpanStats_eq hP inv.valid, fun n hn => ?_,
    fun p n release unback hlive => ?_, fun desired adaptive unback => ?_,
    fun i j success hij hj hfree => unbackRun_eq hN hP inv.valid hij hj hfree success⟩
  · obtain ⟨s', r, hget, -, hout⟩ := maybeGet_spec hN hP inv.valid hn
    exact ⟨s', r, hget, hout⟩
  · obtain ⟨hpos, hfit, hset⟩ := inv.live _ hlive
    obtain ⟨s', cs, hput, -, hout⟩ := put_spec hN hP inv.valid hpos hfit hset release unback
    exact ⟨s', cs, hput, hout⟩
  · obtain ⟨s', released, cs, hrel, -, hout⟩ := release_spec hN hP inv.valid desired adaptive unback
    exact ⟨s', released, cs, hrel, hout⟩

section Split

variable (hP : 0 < P)
include hP

omit hP in
theorem touches_le_div {h a n : Nat} (ht : Touches P h a n) : a / P ≤ h := by
  obtain ⟨k, hk, -, rfl⟩ := ht
  exact Nat.div_le_div_right hk

theorem touches_next (a : Nat) : Touches P (a / P + 1) a (2 * P) := by
  have ⟨hlo, hhi⟩ := div_mul_le_self_lt hP a
  refine ⟨(a / P + 1) * P, by omega, by rw [Nat.succ_mul] at hhi ⊢; omega, Nat.mul_div_cancel _ hP⟩

theorem releaseSelection_one {s : HugeRegion H P} {b : Bitmap (H * P)} (acc : Accounts s b) {a : Nat}
    (ha : a / P < H) (hfree : ∀ h < H, s.freeBacked h = true ↔ Touches P h a (2 * P)) :
    s.releaseSelection 1 false = Function.update (fun _ => false) (a / P) true := by
  have hfirst : s.freeBacked (a / P) = true :=
    (hfree _ ha).mpr ⟨a, le_rfl, by omega, rfl⟩
  have hcount : s.freeBackedCount ≠ 0 := by
    rw [acc.freeBacked]
    intro h0
    exact Nat.count_iff_forall_not.mp h0 (a / P) ha hfirst
  have hmin : min 1 (s.freeBackedCount * P) = 1 := by
    have : 1 ≤ s.freeBackedCount * P := Nat.mul_pos (Nat.pos_of_ne_zero hcount) hP
    omega
  have hsplit : List.range H =
      List.range' 0 (a / P) ++ (a / P) :: List.range' (a / P + 1) (H - (a / P + 1)) := by
    have happ := @List.range'_append 0 (a / P) (H - (a / P + 1) + 1) 1
    rw [Nat.zero_add, Nat.one_mul, show a / P + (H - (a / P + 1) + 1) = H by omega,
      List.range'_succ] at happ
    rw [List.range_eq_range', ← happ]
  have hskip : ∀ h ∈ List.range' 0 (a / P), s.freeBacked h = false := by
    intro h hh
    rw [List.mem_range'_1] at hh
    cases hf : s.freeBacked h
    · rfl
    · have := touches_le_div ((hfree h (by omega)).mp hf)
      omega
  unfold releaseSelection
  rw [hmin, if_neg Bool.false_ne_true, hsplit,
    selectFrom_append_of_not_freeBacked hskip (by omega),
    selectFrom_cons_of_reach hfirst (by omega)]

theorem release_unbacks_part_of_run (hN : H * P < 2 ^ 64) (hH : 2 ≤ H) (unback : Nat → Nat → Bool) :
    ∃ (calls : List Call) (st : State H P) (s' : HugeRegion H P) (released h : Nat)
      (cs : List (Nat × Nat)), Run step Allowed ⟨init, []⟩ calls st ∧
      st.region.release 1 false unback = some (s', released, cs) ∧
      (h, 1) ∈ cs ∧ h + 1 < H ∧ st.region.freeBacked (h + 1) = true := by
  have h2P : 0 < 2 * P := by omega
  have hfit2 : 2 * P ≤ H * P := Nat.mul_le_mul_right P hH
  obtain ⟨s₁, r, hget, v₁, hout⟩ := maybeGet_spec hN hP init_valid h2P
  cases r with
  | none => exact absurd hout.2 (by show ¬ H * P < 2 * P; omega)
  | some got =>
  obtain ⟨i, fromReleased⟩ := got
  obtain ⟨hfit, -, hbits₁, hbacked₁, -⟩ := hout
  have hset₁ : s₁.tracker.bits.SetOn i (i + 2 * P) := by
    rw [hbits₁]
    intro k hk hk'
    simp [hk, hk']
  obtain ⟨s₂, cs₂, hput, v₂, hbits₂, mid, -, hbmid, -, hnorel, -⟩ :=
    put_spec hN hP v₁ h2P hfit hset₁ false (fun _ _ => false)
  obtain ⟨rfl, rfl⟩ := hnorel rfl
  have run : Run step Allowed ⟨init, []⟩ [.maybeGet (2 * P), .put i (2 * P) false fun _ _ => false]
      ⟨s₂, []⟩ := by
    have step₁ : step ⟨init, []⟩ (.maybeGet (2 * P)) = some ⟨s₁, [(i, 2 * P)]⟩ := by
      rw [step, hget]
      rfl
    have step₂ : step ⟨s₁, [(i, 2 * P)]⟩ (.put i (2 * P) false fun _ _ => false) = some ⟨s₂, []⟩ := by
      rw [step, hput]
      simp
    exact Run.cons h2P step₁ (Run.cons (by exact List.mem_cons_self) step₂ (Run.nil _))
  have hclear₂ : ∀ k, s₂.tracker.bits.bits k = false := by
    intro k
    rw [hbits₂, hbits₁]
    simp only [Bitmap.clearRange_bits, Bitmap.setRange_bits]
    split_ifs <;> rfl
  have hfree₂ : ∀ h < H, s₂.freeBacked h = true ↔ Touches P h i (2 * P) := by
    intro h hh
    have hused : s₂.pagesUsed h = 0 := by
      rw [v₂.accounts.used h hh]
      unfold blockCount
      simp [hclear₂]
    rw [freeBacked_eq_true, hbmid, hused, hbacked₁ h]
    simp [init]
  have hnext := touches_next hP i
  have hiH : i / P + 1 < H := by
    obtain ⟨k, -, hk, hkdiv⟩ := hnext
    have := (mem_block_of_div_eq hP hkdiv).1
    have hlt : (i / P + 1) * P < H * P := by omega
    exact Nat.lt_of_mul_lt_mul_right hlt
  obtain ⟨s', released, cs, hrel, -, hout⟩ := release_spec hN hP v₂ 1 false unback
  have u := (hout.2 Nat.one_pos).2
  rw [releaseSelection_one hP v₂.accounts (by omega) hfree₂] at u
  have hsu : ∀ h, Function.update (fun _ => false) (i / P) true h = true ↔ h = i / P := by
    intro h
    by_cases hh : h = i / P <;> simp [hh]
  obtain ⟨c, hc, hlo, hhi⟩ := u.cover (i / P) (Nat.zero_le _) (by omega) ((hsu _).mpr rfl)
  obtain ⟨-, hcpos, -, hcrun⟩ := u.run c hc
  have hstart : c.1 = i / P := (hsu _).mp (hcrun c.1 le_rfl (by omega))
  have hlast : c.1 + c.2 - 1 = i / P := (hsu _).mp (hcrun _ (by omega) (by omega))
  have hc1 : c = (i / P, 1) := Prod.ext hstart (by dsimp only; omega)
  exact ⟨_, ⟨s₂, []⟩, s', released, i / P, cs, run, hrel, hc1 ▸ hc, hiH,
    (hfree₂ _ hiH).mpr hnext⟩

end Split

/-- The calls of `unback_` are not all on maximal runs of backed, unused
hugepages: in a region of the source's size, reached by `MaybeGet` and `Put`,
`Release(1)` unbacks one hugepage whose neighbour is backed and unused. -/
theorem hugeRegion_release_unbacks_part_of_free_run :
    ∃ (calls : List Call) (st : State 512 256) (s' : HugeRegion 512 256) (released h : Nat)
      (cs : List (Nat × Nat)), Run step Allowed ⟨init, []⟩ calls st ∧
      st.region.release 1 false (fun _ _ => true) = some (s', released, cs) ∧
      (h, 1) ∈ cs ∧ h + 1 < 512 ∧ st.region.freeBacked (h + 1) = true :=
  release_unbacks_part_of_run (by decide) (by decide) (by decide) _

theorem hugeRegion_accounts_consistent_after_get_put :
    (512 * 256 < 2 ^ 64 ∧ 0 < 256) ∧
      ∃ (calls : List Call) (st : State 512 256),
        Run step Allowed ⟨init, []⟩ calls st ∧ Guarantees st := by
  obtain ⟨calls, st, -, -, -, -, run, -⟩ :=
    release_unbacks_part_of_run (H := 512) (P := 256) (by decide) (by decide) (by decide) fun _ _ => true
  exact ⟨⟨by decide, by decide⟩, calls, st, run, hugeRegion_accounts_consistent (by decide) (by decide) run⟩

end HugeRegion

end TCMalloc
