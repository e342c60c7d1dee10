import TCMalloc.AlignedAlloc
import TCMalloc.Lib.Run

/-!
`ConstantRatePageAllocatorReleaser` (`static_vars.h`), through which the
background thread and `ReleaseMemoryToSystem` release memory at a set rate: the
bytes the page allocator releases past a request are kept as credit against the
next one.  A request the credit covers asks the allocator for no pages, and
whatever that returns replaces the credit, so the rest of the credit is dropped;
over a run, the bytes released exceed the bytes requested by the final credit
plus all credit dropped this way.
-/

set_option autoImplicit false
set_option relaxedAutoImplicit false

namespace TCMalloc.Releaser

open TCMalloc.AlignedAlloc TCMalloc.Lib

/-- The releaser's state, `extra_bytes_released_`. -/
structure ConstantRatePageAllocatorReleaser where
  extraBytesReleased : Nat
  deriving DecidableEq, Repr

namespace ConstantRatePageAllocatorReleaser

variable (c : Config)

/-- `Release(num_bytes)`, with `releaseAtLeastNPages` the page allocator's answer, in
pages, to each page count it can be asked for: the bytes counted as released, and the
releaser after. -/
def release (releaseAtLeastNPages : Nat → Nat) (numBytes : Nat) (r : ConstantRatePageAllocatorReleaser) :
    Nat × ConstantRatePageAllocatorReleaser :=
  let credit :=
    if numBytes ≤ r.extraBytesReleased then (⟨r.extraBytesReleased - numBytes⟩, 0)
    else (r, numBytes - r.extraBytesReleased)
  let r := credit.1
  let numBytes := credit.2
  let numPages := if 0 < numBytes then bytesToLengthCeil c numBytes else 0
  let bytesReleased := releaseAtLeastNPages numPages * c.kPageSize
  if numBytes < bytesReleased then (numBytes, { r with extraBytesReleased := bytesReleased - numBytes })
  -- the page allocator could not release `num_bytes`; no big release next time
  else (bytesReleased, { r with extraBytesReleased := 0 })

variable {c} {releaseAtLeastNPages : Nat → Nat} {numBytes : Nat} {r : ConstantRatePageAllocatorReleaser}

theorem release_of_lt (h : r.extraBytesReleased < numBytes) :
    let bytesReleased := releaseAtLeastNPages (bytesToLengthCeil c (numBytes - r.extraBytesReleased)) * c.kPageSize
    release c releaseAtLeastNPages numBytes r =
      (min (numBytes - r.extraBytesReleased) bytesReleased,
        ⟨r.extraBytesReleased + bytesReleased - numBytes⟩) := by
  intro bytesReleased
  have hpos : 0 < numBytes - r.extraBytesReleased := by omega
  simp only [release, Nat.not_le.mpr h, if_false, hpos, if_true]
  split
  · rename_i hlt
    simp only [Prod.mk.injEq, ConstantRatePageAllocatorReleaser.mk.injEq]
    omega
  · rename_i hge
    simp only [Prod.mk.injEq, ConstantRatePageAllocatorReleaser.mk.injEq]
    omega

theorem release_of_le (h : numBytes ≤ r.extraBytesReleased) :
    release c releaseAtLeastNPages numBytes r = (0, ⟨releaseAtLeastNPages 0 * c.kPageSize⟩) := by
  simp only [release, h, if_true, Nat.lt_irrefl, if_false]
  split
  · rfl
  · rename_i hge
    simp only [Prod.mk.injEq, ConstantRatePageAllocatorReleaser.mk.injEq]
    omega

end ConstantRatePageAllocatorReleaser

/-! ### Runs -/

/-- A call `Release(num_bytes)` and the page allocator's answer to each page count. -/
structure ReleaseCall where
  numBytes : Nat
  releaseAtLeastNPages : Nat → Nat

/-- The releaser with the running totals of a run: the bytes requested, the bytes the
page allocator released, and the credit dropped by requests the credit covered. -/
structure Ledger where
  releaser : ConstantRatePageAllocatorReleaser
  requested : Nat
  released : Nat
  dropped : Nat

open ConstantRatePageAllocatorReleaser

variable (c : Config)

/-- The bytes the page allocator releases for `Release(num_bytes)` on `r`. -/
def allocatorBytes (call : ReleaseCall) (r : ConstantRatePageAllocatorReleaser) : Nat :=
  let numBytes := call.numBytes - r.extraBytesReleased
  call.releaseAtLeastNPages (if 0 < numBytes then bytesToLengthCeil c numBytes else 0) * c.kPageSize

/-- One call, with the totals it adds to. -/
def step (l : Ledger) (call : ReleaseCall) : Option Ledger :=
  some
    { releaser := (release c call.releaseAtLeastNPages call.numBytes l.releaser).2
      requested := l.requested + call.numBytes
      released := l.released + allocatorBytes c call l.releaser
      dropped := l.dropped +
        if call.numBytes ≤ l.releaser.extraBytesReleased then l.releaser.extraBytesReleased - call.numBytes else 0 }

/-- `ReleaseAtLeastNPages` keeps its contract: it releases at least the pages asked for. -/
def Allowed (_ : Ledger) (call : ReleaseCall) : Prop := ∀ n, n ≤ call.releaseAtLeastNPages n

theorem step_ledger {E₀ : Nat} {l l' : Ledger} {call : ReleaseCall}
    (inv : l.released + E₀ = l.requested + l.releaser.extraBytesReleased + l.dropped)
    (hok : Allowed l call) (hstep : step c l call = some l') :
    l'.released + E₀ = l'.requested + l'.releaser.extraBytesReleased + l'.dropped := by
  simp only [step, Option.some.injEq] at hstep
  subst hstep
  by_cases hle : call.numBytes ≤ l.releaser.extraBytesReleased
  · have hzero : call.numBytes - l.releaser.extraBytesReleased = 0 := by omega
    simp only [release_of_le hle, allocatorBytes, hzero, Nat.lt_irrefl, if_false, hle, if_true]
    omega
  · have hlt : l.releaser.extraBytesReleased < call.numBytes := by omega
    have hpos : 0 < call.numBytes - l.releaser.extraBytesReleased := by omega
    -- the allocator's pages cover the rest of the request
    have hcover : call.numBytes - l.releaser.extraBytesReleased ≤
        call.releaseAtLeastNPages (bytesToLengthCeil c (call.numBytes - l.releaser.extraBytesReleased)) *
          c.kPageSize :=
      le_trans (le_bytesToLengthCeil_mul c _) (Nat.mul_le_mul_right _ (hok _))
    simp only [release_of_lt hlt, allocatorBytes, hpos, if_true, hle, if_false]
    omega

/-- Over every run of `Release` calls in which `ReleaseAtLeastNPages` releases at least the
pages it is asked for, the bytes the page allocator released and the starting credit
account for every byte requested, the final credit, and the credit dropped by requests
that the credit covered. -/
theorem release_ledger {r₀ : ConstantRatePageAllocatorReleaser} {calls : List ReleaseCall} {l : Ledger}
    (run : Run (step c) Allowed ⟨r₀, 0, 0, 0⟩ calls l) :
    l.released + r₀.extraBytesReleased = l.requested + l.releaser.extraBytesReleased + l.dropped :=
  Run.invariant (fun l => l.released + r₀.extraBytesReleased = l.requested + l.releaser.extraBytesReleased + l.dropped)
    (fun _ _ _ inv hok hstep => step_ledger c inv hok hstep) run (by simp)

theorem release_ledger_two_one_byte_requests :
    ∃ l, Run (step defaultConfig) Allowed ⟨⟨0⟩, 0, 0, 0⟩ [⟨1, id⟩, ⟨1, id⟩] l ∧ l.dropped = 8190 ∧
      l.released + 0 = l.requested + l.releaser.extraBytesReleased + l.dropped := by
  have run : Run (step defaultConfig) Allowed ⟨⟨0⟩, 0, 0, 0⟩ [⟨1, id⟩, ⟨1, id⟩] _ :=
    .cons (fun n => Nat.le_refl n) rfl <| .cons (fun n => Nat.le_refl n) rfl <| .nil _
  exact ⟨_, run, by decide, release_ledger defaultConfig run⟩

/-- With 8 KiB pages: a 1-byte request gets one page back, leaving a credit of 8191
bytes; a second 1-byte request asks for no pages, gets none, and sets the credit to 0
where `max(0, E + R - N)` is 8190.  After the two calls 8192 bytes were released for 2
requested, while the final credit is 0. -/
theorem release_drops_credit_when_covered :
    release defaultConfig (fun _ => 1) 1 ⟨0⟩ = (1, ⟨8191⟩) ∧
      release defaultConfig (fun _ => 0) 1 ⟨8191⟩ = (0, ⟨0⟩) ∧
      (release defaultConfig (fun _ => 0) 1 ⟨8191⟩).2.extraBytesReleased ≠ max 0 (8191 + 0 - 1) := by
  decide

end TCMalloc.Releaser
