import TCMalloc.Internal.Bitmap

/-!
`Scale<M>(src, src_len, op)` of `huge_page_filler.h`: a bitmap of `src_len`
bits resampled to `M` bits, each block of `src_len / M` source bits reduced to
one by `op`, or each source bit spread over `M / src_len` bits.  Both strides
are divisions by a length, and the one by `src_len` is undefined when it is
zero, which the `TC_ASSERT` admits; the model returns `none` there.
-/

set_option autoImplicit false
set_option relaxedAutoImplicit false

namespace TCMalloc.HugePageFiller

open TCMalloc.Internal

inductive ReductionOp
  | kAny
  | kAll
  deriving DecidableEq, Repr

/-- Unsigned division in C++: undefined for a zero divisor. -/
def cDiv (a b : Nat) : Option Nat := if b = 0 then none else some (a / b)

section Scale

variable {N M : Nat}

/-- What `op` makes of the source bits `[lo, hi)`: one of them set, or all. -/
def ReductionOp.Holds : ReductionOp → Bitmap N → Nat → Nat → Prop
  | .kAny, src, lo, hi => ∃ i, lo ≤ i ∧ i < hi ∧ src.bits i = true
  | .kAll, src, lo, hi => ∀ i, lo ≤ i → i < hi → src.bits i = true

/-- The loop of `Scale` from `src_idx` and `dst_idx`; `src_len` rounds always
suffice, as `src_per_dst ≥ 1`. -/
def scaleLoop (src : Bitmap N) (srcLen srcPerDst dstPerSrc requiredCount : Nat) :
    Nat → Nat → Nat → Bitmap M → Bitmap M
  | 0, _, _, res => res
  | fuel + 1, srcIdx, dstIdx, res =>
      if srcIdx < srcLen then
        let res := if src.countBitsIn srcIdx srcPerDst ≥ requiredCount then res.setRange dstIdx dstPerSrc else res
        scaleLoop src srcLen srcPerDst dstPerSrc requiredCount fuel (srcIdx + srcPerDst) (dstIdx + dstPerSrc) res
      else res

def scale (M : Nat) (src : Bitmap N) (srcLen : Nat) (op : ReductionOp) : Option (Bitmap M) := do
  let srcPerDst := max 1 (← cDiv srcLen M)
  let dstPerSrc := max 1 (← cDiv M srcLen)
  let requiredCount := if op = .kAll then srcPerDst else 1
  some (scaleLoop src srcLen srcPerDst dstPerSrc requiredCount srcLen 0 0 Bitmap.empty)

theorem scaleLoop_bits (src : Bitmap N) (srcLen k d req : Nat) (hk : 0 < k) (x : Nat) :
    ∀ (fuel J : Nat) (res : Bitmap M),
      (scaleLoop src srcLen k d req fuel (J * k) (J * d) res).bits x = true ↔
        res.bits x = true ∨ ∃ j, J ≤ j ∧ j < J + fuel ∧ j * k < srcLen ∧ req ≤ src.countBitsIn (j * k) k ∧
          j * d ≤ x ∧ x < j * d + d
  | 0, J, res => by
      simp only [scaleLoop]
      constructor
      · exact Or.inl
      · rintro (hres | ⟨j, hj, hjf, -⟩)
        · exact hres
        · omega
  | fuel + 1, J, res => by
      have hnext : J * k + k = (J + 1) * k ∧ J * d + d = (J + 1) * d := ⟨(Nat.succ_mul J k).symm, (Nat.succ_mul J d).symm⟩
      simp only [scaleLoop]
      split
      · rename_i hrun
        rw [hnext.1, hnext.2, scaleLoop_bits src srcLen k d req hk x fuel (J + 1)]
        constructor
        · rintro (hres | ⟨j, hj, hjf, hjl, hjc, hjx, hxj⟩)
          · split at hres
            · rename_i hc
              simp only [Bitmap.setRange_bits] at hres
              split at hres
              · rename_i hx
                exact Or.inr ⟨J, le_rfl, by omega, hrun, hc, hx.1, hx.2⟩
              · exact Or.inl hres
            · exact Or.inl hres
          · exact Or.inr ⟨j, by omega, by omega, hjl, hjc, hjx, hxj⟩
        · rintro (hres | ⟨j, hj, hjf, hjl, hjc, hjx, hxj⟩)
          · left
            split
            · simp [hres]
            · exact hres
          · rcases Nat.lt_or_ge J j with hlt | hge
            · exact Or.inr ⟨j, hlt, by omega, hjl, hjc, hjx, hxj⟩
            · obtain rfl : j = J := by omega
              left
              rw [if_pos hjc]
              simp [hjx, hxj]
      · -- the loop has left the source: no later round runs
        rename_i hstop
        constructor
        · exact Or.inl
        · rintro (hres | ⟨j, hj, -, hjl, -⟩)
          · exact hres
          · have : J * k ≤ j * k := Nat.mul_le_mul_right k hj
            omega

theorem scaleLoop_contract (src : Bitmap N) {srcLen M : Nat} (hM : 0 < M) (hle : M ≤ srcLen)
    (hdvd : srcLen % M = 0) (req : Nat) (x : Nat) :
    (scaleLoop src srcLen (srcLen / M) 1 req srcLen 0 0 (Bitmap.empty : Bitmap M)).bits x = true ↔
      x < M ∧ req ≤ src.countBitsIn (x * (srcLen / M)) (srcLen / M) := by
  have hk : 0 < srcLen / M := Nat.div_pos hle hM
  have hlen : srcLen / M * M = srcLen := Nat.div_mul_cancel (Nat.dvd_of_mod_eq_zero hdvd)
  have hround : ∀ j, j * (srcLen / M) < srcLen ↔ j < M := fun j => by
    constructor
    · intro h
      by_contra hj
      have : M * (srcLen / M) ≤ j * (srcLen / M) := Nat.mul_le_mul_right _ (by omega)
      rw [Nat.mul_comm M, hlen] at this
      omega
    · intro h
      calc j * (srcLen / M) < M * (srcLen / M) := Nat.mul_lt_mul_of_pos_right h hk
        _ = srcLen := by rw [Nat.mul_comm, hlen]
  have h := scaleLoop_bits src srcLen (srcLen / M) 1 req hk x srcLen 0 (Bitmap.empty : Bitmap M)
  simp only [Nat.zero_mul, Bitmap.empty_bits, Bool.false_eq_true, false_or, Nat.mul_one] at h
  rw [h]
  constructor
  · rintro ⟨j, -, -, hj, hreq, hjx, hxj⟩
    obtain rfl : j = x := by omega
    exact ⟨(hround j).mp hj, hreq⟩
  · rintro ⟨hx, hreq⟩
    exact ⟨x, Nat.zero_le x, by omega, (hround x).mpr hx, hreq, le_rfl, by omega⟩

theorem scaleLoop_expand (src : Bitmap N) {srcLen d : Nat} (hd : 0 < d) (x : Nat) :
    (scaleLoop src srcLen 1 d 1 srcLen 0 0 (Bitmap.empty : Bitmap M)).bits x = true ↔
      x < srcLen * d ∧ src.bits (x / d) = true := by
  have h := scaleLoop_bits src srcLen 1 d 1 Nat.one_pos x srcLen 0 (Bitmap.empty : Bitmap M)
  simp only [Nat.zero_mul, Bitmap.empty_bits, Bool.false_eq_true, false_or, Nat.mul_one] at h
  rw [h]
  have hone : ∀ j, 1 ≤ src.countBitsIn j 1 ↔ src.bits j = true := fun j => by
    rw [Nat.one_le_iff_ne_zero, ← Nat.pos_iff_ne_zero, Bitmap.countBitsIn_pos_iff]
    constructor
    · rintro ⟨i, hi, hb⟩
      obtain rfl : i = 0 := by omega
      exact hb
    · intro hb
      exact ⟨0, Nat.one_pos, hb⟩
  constructor
  · rintro ⟨j, -, -, hj, hreq, hjx, hxj⟩
    have hxd : x / d = j := by
      rw [Nat.div_eq_iff hd]
      omega
    refine ⟨?_, by rw [hxd]; exact (hone j).mp hreq⟩
    calc x < j * d + d := hxj
      _ = (j + 1) * d := (Nat.succ_mul j d).symm
      _ ≤ srcLen * d := Nat.mul_le_mul_right d hj
  · rintro ⟨hx, hb⟩
    have hj : x / d < srcLen := (Nat.div_lt_iff_lt_mul hd).mpr hx
    refine ⟨x / d, Nat.zero_le _, by omega, by omega, (hone _).mpr hb, Nat.div_mul_le_self x d, ?_⟩
    have := Nat.lt_div_mul_add hd (a := x)
    omega

theorem cDiv_of_pos {a b : Nat} (hb : 0 < b) : cDiv a b = some (a / b) := if_neg (by omega)

theorem holds_iff_count (op : ReductionOp) (src : Bitmap N) (lo k : Nat) :
    (if op = .kAll then k else 1) ≤ src.countBitsIn lo k ↔ op.Holds src lo (lo + k) := by
  cases op with
  | kAny =>
      rw [if_neg (by decide), Nat.one_le_iff_ne_zero, ← Nat.pos_iff_ne_zero, Bitmap.countBitsIn_pos_iff]
      constructor
      · rintro ⟨i, hi, hb⟩
        exact ⟨lo + i, by omega, by omega, hb⟩
      · rintro ⟨i, hlo, hi, hb⟩
        refine ⟨i - lo, by omega, ?_⟩
        rw [Nat.add_sub_cancel' hlo]
        exact hb
  | kAll =>
      rw [if_pos rfl]
      have hle := src.countBitsIn_le lo k
      rw [show k ≤ src.countBitsIn lo k ↔ src.countBitsIn lo k = k by omega, Bitmap.countBitsIn_eq_iff]
      constructor
      · intro h i hlo hi
        have := h (i - lo) (by omega)
        rwa [Nat.add_sub_cancel' hlo] at this
      · intro h i hi
        exact h (lo + i) (by omega) (by omega)

theorem scale_resamples (src : Bitmap N) (srcLen : Nat) (op : ReductionOp) (hM : 0 < M) (hlen : 0 < srcLen)
    (hdvd : srcLen % M = 0 ∨ M % srcLen = 0) :
    ∃ res, scale M src srcLen op = some res ∧
      (M ≤ srcLen → ∀ j < M, (res.bits j = true ↔ op.Holds src (j * (srcLen / M)) ((j + 1) * (srcLen / M)))) ∧
      (srcLen < M → ∀ j < M, res.bits j = src.bits (j / (M / srcLen))) ∧
      ∀ j, M ≤ j → res.bits j = false := by
  simp only [scale, cDiv_of_pos hM, cDiv_of_pos hlen, Option.bind_eq_bind, Option.bind_some]
  refine ⟨_, rfl, ?_⟩
  rcases Nat.lt_or_ge srcLen M with hlt | hge
  · -- an expansion: one source bit per round, spread over `M / src_len` bits
    have hmod : M % srcLen = 0 := by
      rcases hdvd with h | h
      · rw [Nat.mod_eq_of_lt hlt] at h
        omega
      · exact h
    have hd : 0 < M / srcLen := Nat.div_pos hlt.le hlen
    have hM' : srcLen * (M / srcLen) = M := Nat.mul_div_cancel' (Nat.dvd_of_mod_eq_zero hmod)
    have hone : max 1 (srcLen / M) = 1 := by rw [Nat.div_eq_of_lt hlt]; rfl
    rw [hone, ite_self, Nat.max_eq_right hd]
    refine ⟨fun h => absurd h (by omega), fun _ j hj => ?_, fun j hj => ?_⟩
    · apply Bool.eq_iff_iff.mpr
      rw [scaleLoop_expand src hd, hM']
      exact ⟨fun h => h.2, fun h => ⟨hj, h⟩⟩
    · apply Bool.eq_false_iff.mpr
      rw [Ne, scaleLoop_expand src hd, hM']
      omega
  · -- a contraction or the identity: one result bit per block of `src_len / M`
    have hmod : srcLen % M = 0 := by
      rcases hdvd with h | h
      · exact h
      · obtain rfl : M = srcLen := by
          rcases Nat.lt_or_ge M srcLen with h' | h'
          · rw [Nat.mod_eq_of_lt h'] at h
            omega
          · omega
        exact Nat.mod_self M
    have hk : 0 < srcLen / M := Nat.div_pos hge hM
    have hone : max 1 (M / srcLen) = 1 := by
      have : M / srcLen ≤ 1 := (Nat.div_le_iff_le_mul_add_pred hlen).mpr (by omega)
      omega
    rw [hone, Nat.max_eq_right hk]
    refine ⟨fun _ j hj => ?_, fun h => absurd h (by omega), fun j hj => ?_⟩
    · rw [scaleLoop_contract src hM hge hmod, holds_iff_count, Nat.succ_mul]
      exact ⟨fun h => h.2, fun h => ⟨hj, h⟩⟩
    · apply Bool.eq_false_iff.mpr
      rw [Ne, scaleLoop_contract src hM hge hmod]
      omega

theorem scale_resamples_at_eight_to_four :
    0 < 4 ∧ 0 < 8 ∧ (8 % 4 = 0 ∨ 4 % 8 = 0) ∧
      ∃ res, scale 4 (⟨fun k => decide (k < 6)⟩ : Bitmap 8) 8 .kAll = some res ∧
        (4 ≤ 8 → ∀ j < 4, (res.bits j = true ↔
          ReductionOp.kAll.Holds (⟨fun k => decide (k < 6)⟩ : Bitmap 8) (j * (8 / 4)) ((j + 1) * (8 / 4)))) ∧
        (8 < 4 → ∀ j < 4, res.bits j = (⟨fun k => decide (k < 6)⟩ : Bitmap 8).bits (j / (4 / 8))) ∧
        ∀ j, 4 ≤ j → res.bits j = false :=
  ⟨by decide, by decide, Or.inl rfl, scale_resamples _ 8 .kAll (by decide) (by decide) (Or.inl rfl)⟩

example : (scale 4 (⟨fun k => decide (k < 6)⟩ : Bitmap 8) 8 .kAll).map (fun res => [res.bits 0, res.bits 1, res.bits 2, res.bits 3]) =
    some [true, true, true, false] := by decide

theorem scale_of_zero_length (M : Nat) (src : Bitmap N) (op : ReductionOp) : scale M src 0 op = none := by
  simp only [scale, cDiv]
  split <;> rfl

/-- The call `Scale<256>(src, 0, kAny)` of an empty 256-bit map passes the `TC_ASSERT` and has no result. -/
theorem scale_zero_length_divides_by_zero :
    0 ≤ 256 ∧ 0 % 256 = 0 ∧ scale 256 (Bitmap.empty : Bitmap 256) 0 .kAny = none :=
  ⟨Nat.zero_le _, rfl, scale_of_zero_length 256 Bitmap.empty .kAny⟩

end Scale

end TCMalloc.HugePageFiller
