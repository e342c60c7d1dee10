import TCMalloc.Internal.ExponentialBiased

/-!
`Sampler` of `sampler.{h,cc}`: the byte stream of allocations with a sampling
point `bytes_until_sample_` bytes ahead.  Each allocation of `k` bytes takes
`k + 1` bytes of the stream; the allocation that crosses the point is sampled,
weighed by how far past the point it reached, and a new point is drawn.

The sampling interval (`GetSampleInterval()`), the double arithmetic of
`GetGeometricVariable` and the seed hashed at the first allocation are the
environment.  `ssize_t` values are integers; the unsigned subtractions of the
fast path wrap as the code's do.  A failed `TC_ASSERT` is `none`.
-/

set_option autoImplicit false
set_option relaxedAutoImplicit false

namespace TCMalloc

/-- The largest `ssize_t`. -/
def ssizeMax : Int := 2 ^ 63 - 1

/-- The smallest `ssize_t`. -/
def ssizeMin : Int := -2 ^ 63

/-- A 64-bit pattern read as an `ssize_t`: two's complement modulo `2 ^ 64`. -/
def toSsize (x : Int) : Int := (x + 2 ^ 63) % 2 ^ 64 - 2 ^ 63

theorem toSsize_of_mem {x : Int} (hlo : ssizeMin ≤ x) (hhi : x ≤ ssizeMax) : toSsize x = x := by
  unfold toSsize
  unfold ssizeMin at hlo
  unfold ssizeMax at hhi
  rw [Int.emod_eq_of_lt (by omega) (by omega)]
  omega

/-- What the sampler reads of its surroundings. -/
structure Sampler.Env where
  /-- `Parameters::profile_sampling_interval()`, an `int64_t`. -/
  sampleInterval : Int
  sampleInterval_mem : ssizeMin ≤ sampleInterval ∧ sampleInterval ≤ ssizeMax
  /-- The double `interval` of `GetGeometricVariable(mean)`, truncated towards zero,
  from the 26 random bits `rnd_ >> 22`. -/
  geometric : Nat → Int → Int
  /-- `absl::HashOf(CycleClock::Now(), this)` at the first allocation. -/
  seed : Nat

/-- `Sampler`: `sample_interval_`, `rnd_`, `initialized_`, `bytes_until_sample_`. -/
structure Sampler where
  sampleInterval : Int
  rnd : Nat
  initialized : Bool
  bytesUntilSample : Int

namespace Sampler

/-- `kIntervalOffset`. -/
def kIntervalOffset : Int := 1

/-- `constexpr Sampler()`. -/
def initial : Sampler := ⟨0, 0, false, 0⟩

variable (env : Env)

/-- `GetGeometricVariable(mean)`: one step of the generator, then the geometric
variable of its top 26 bits, clamped to the largest `ssize_t` from
`static_cast<double>(max)`, that is `2 ^ 63`, up. -/
def getGeometricVariable (s : Sampler) (mean : Int) : Sampler × Int :=
  let rnd := ExponentialBiased.nextRandom s.rnd
  let interval := env.geometric (rnd >>> (48 - 26)) mean
  ({ s with rnd := rnd }, if 2 ^ 63 ≤ interval then ssizeMax else interval)

/-- `PickNextSamplingPoint()`: never for a non-positive interval, every allocation
for an interval of one, otherwise one less than a geometric variable. -/
def pickNextSamplingPoint (s : Sampler) : Sampler × Int :=
  let s := { s with sampleInterval := env.sampleInterval }
  if s.sampleInterval ≤ 0 then (s, 128 <<< 20)
  else if s.sampleInterval = 1 then (s, 0)
  else
    let (s, g) := getGeometricVariable env s s.sampleInterval
    (s, max 0 (g - kIntervalOffset))

/-- `Init(seed)`: the generator seeded and stepped twenty times, and a first point. -/
def init (s : Sampler) (seed : Nat) : Option Sampler :=
  if seed = 0 then none
  else
    let s := { s with rnd := ExponentialBiased.nextRandom^[20] seed }
    let (s, p) := pickNextSamplingPoint env s
    some { s with bytesUntilSample := p }

/-- The weight of a sample, `sample_interval_ - (bytes_until_sample_ + 1)`, or the
largest `ssize_t` when the subtraction overflows. -/
def weightOf (s : Sampler) : Int :=
  let w := s.sampleInterval - (s.bytesUntilSample + kIntervalOffset)
  if w < ssizeMin ∨ ssizeMax < w then ssizeMax else w

/-- `RecordAllocationSlow(k)`; the returned weight is the `ssize_t` weight as a
`size_t`. -/
def recordAllocationSlow (s : Sampler) (k : Nat) : Option (Nat × Sampler) := do
  let (s, early) ←
    if !s.initialized then do
      let s ← init env { s with initialized := true } env.seed
      -- Avoid missampling 0.
      let s := { s with bytesUntilSample := toSsize (s.bytesUntilSample - (k + 1)) }
      pure (s, decide (0 ≤ s.bytesUntilSample))
    else pure (s, false)
  if early then pure (0, s)
  else
    let weight := weightOf s
    let (s, p) := pickNextSamplingPoint env s
    pure (if env.sampleInterval ≤ 0 then 0 else weight.toNat, { s with bytesUntilSample := p })

/-- `TryRecordAllocationFast(k)`: `k + 1` bytes off the counter, as an unsigned
subtraction that reports whether it wrapped. -/
def tryRecordAllocationFast (s : Sampler) (k : Nat) : Option (Bool × Sampler) :=
  if 0 ≤ s.bytesUntilSample then
    let k := (k + 1) % 2 ^ 64
    let b := s.bytesUntilSample.toNat
    some (decide (k ≤ b), { s with bytesUntilSample := toSsize ((b : Int) - k) })
  else none

/-- `RecordAllocation(k)`. -/
def recordAllocation (s : Sampler) (k : Nat) : Option (Nat × Sampler) := do
  let (fast, s) ← tryRecordAllocationFast s k
  if fast then pure (0, s) else recordAllocationSlow env s k

/-- `RecordedAllocationFast(k)`, after `TryRecordAllocationFast(k)` returned false. -/
def recordedAllocationFast (s : Sampler) (k : Nat) : Option (Nat × Sampler) :=
  if s.bytesUntilSample < 0 then recordAllocationSlow env s k else some (0, s)

/-- `WillRecordAllocation(k)`: the counter, as a `size_t`, below `k + 1`. -/
def willRecordAllocation (s : Sampler) (k : Nat) : Bool :=
  decide ((s.bytesUntilSample % 2 ^ 64).toNat < (k + 1) % 2 ^ 64)

/-- `RecordAllocation` over a sequence of sizes, with the weights returned. -/
def recordAll : Sampler → List Nat → Option (List Nat × Sampler)
  | s, [] => some ([], s)
  | s, k :: ks => do
    let (w, s) ← recordAllocation env s k
    let (ws, s) ← recordAll s ks
    pure (w :: ws, s)

/-- Between calls after the first: initialized, at the environment's interval, with
the sampling point `P` bytes ahead. -/
structure AtPoint (s : Sampler) (P : Int) : Prop where
  initialized : s.initialized = true
  sampleInterval : s.sampleInterval = env.sampleInterval
  bytes : s.bytesUntilSample = P
  nonneg : 0 ≤ P
  le_max : P ≤ ssizeMax

/-- The bytes of the stream that allocations of sizes `ks` take. -/
def stream (ks : List Nat) : Int := (ks.map fun k : Nat => (k : Int) + 1).sum

/-- The state `Init` leaves for the first allocation to continue from. -/
def started : Option Sampler := init env { initial with initialized := true } env.seed

variable {env}

@[simp] theorem stream_nil : stream [] = 0 := rfl

@[simp] theorem stream_cons (k : Nat) (ks : List Nat) : stream (k :: ks) = (k : Int) + 1 + stream ks := by
  simp only [stream, List.map_cons, List.sum_cons]

@[simp] theorem stream_append (ks ks' : List Nat) : stream (ks ++ ks') = stream ks + stream ks' := by
  simp only [stream, List.map_append, List.sum_append]

theorem stream_nonneg (ks : List Nat) : 0 ≤ stream ks := by
  induction ks with
  | nil => exact Int.le_refl 0
  | cons k ks ih =>
    rw [stream_cons]
    omega

theorem pickNextSamplingPoint_fst (s : Sampler) :
    (pickNextSamplingPoint env s).1.initialized = s.initialized ∧
      (pickNextSamplingPoint env s).1.sampleInterval = env.sampleInterval := by
  unfold pickNextSamplingPoint getGeometricVariable
  dsimp only
  split
  · exact ⟨rfl, rfl⟩
  · split <;> exact ⟨rfl, rfl⟩

theorem pickNextSamplingPoint_snd (hT : 1 ≤ env.sampleInterval) (s : Sampler) :
    0 ≤ (pickNextSamplingPoint env s).2 ∧ (pickNextSamplingPoint env s).2 ≤ ssizeMax := by
  unfold pickNextSamplingPoint getGeometricVariable
  dsimp only
  split
  · omega
  · split
    · exact ⟨Int.le_refl 0, show (0 : Int) ≤ ssizeMax by decide⟩
    · constructor
      · exact Int.le_max_left _ _
      · have hg : (if 2 ^ 63 ≤ env.geometric (ExponentialBiased.nextRandom s.rnd >>> (48 - 26)) env.sampleInterval
            then ssizeMax else env.geometric (ExponentialBiased.nextRandom s.rnd >>> (48 - 26)) env.sampleInterval)
            ≤ ssizeMax := by
          unfold ssizeMax
          split <;> omega
        unfold kIntervalOffset
        exact Int.max_le.mpr ⟨by decide, by omega⟩

theorem atPoint_pick (hT : 1 ≤ env.sampleInterval) {s : Sampler} (hs : s.initialized = true) :
    AtPoint env { (pickNextSamplingPoint env s).1 with bytesUntilSample := (pickNextSamplingPoint env s).2 }
      (pickNextSamplingPoint env s).2 where
  initialized := (pickNextSamplingPoint_fst s).1.trans hs
  sampleInterval := (pickNextSamplingPoint_fst s).2
  bytes := rfl
  nonneg := (pickNextSamplingPoint_snd hT s).1
  le_max := (pickNextSamplingPoint_snd hT s).2

variable {s : Sampler} {P : Int} {k : Nat}

theorem tryRecordAllocationFast_of_atPoint (hs : AtPoint env s P) (hk : k < 2 ^ 62) :
    tryRecordAllocationFast s k =
      some (decide ((k : Int) + 1 ≤ P), { s with bytesUntilSample := P - (k + 1) }) := by
  have hk64 : (k + 1) % 2 ^ 64 = k + 1 := Nat.mod_eq_of_lt (by omega)
  have hP : (P.toNat : Int) = P := Int.toNat_of_nonneg hs.nonneg
  have hfit : decide (k + 1 ≤ P.toNat) = decide ((k : Int) + 1 ≤ P) := by
    apply decide_eq_decide.mpr
    omega
  have hwrap : toSsize ((P.toNat : Int) - ((k + 1 : Nat) : Int)) = P - (k + 1) := by
    rw [hP, toSsize_of_mem] <;> · have := hs.le_max; unfold ssizeMin ssizeMax at *; push_cast; omega
  unfold tryRecordAllocationFast
  rw [hs.bytes, if_pos hs.nonneg]
  dsimp only
  rw [hk64, hfit, hwrap]

theorem recordAllocation_below (hs : AtPoint env s P) (hk : k < 2 ^ 62) (hle : (k : Int) + 1 ≤ P) :
    recordAllocation env s k = some (0, { s with bytesUntilSample := P - (k + 1) }) := by
  unfold recordAllocation
  rw [tryRecordAllocationFast_of_atPoint hs hk, decide_eq_true hle]
  rfl

theorem weightOf_eq {s : Sampler} (hw : ssizeMin ≤ s.sampleInterval - (s.bytesUntilSample + kIntervalOffset)) :
    weightOf s = min (s.sampleInterval - (s.bytesUntilSample + kIntervalOffset)) ssizeMax := by
  unfold weightOf
  dsimp only
  by_cases hmax : ssizeMax < s.sampleInterval - (s.bytesUntilSample + kIntervalOffset)
  · rw [if_pos (Or.inr hmax), Int.min_eq_right (Int.le_of_lt hmax)]
  · rw [if_neg (by omega), Int.min_eq_left (by omega)]

theorem recordAllocation_cross (hT : 1 ≤ env.sampleInterval) (hs : AtPoint env s P) (hk : k < 2 ^ 62)
    (hlt : P < (k : Int) + 1) :
    ∃ s', recordAllocation env s k = some ((min (env.sampleInterval + k - P) ssizeMax).toNat, s') ∧
      AtPoint env s' s'.bytesUntilSample := by
  have hs₁ : ({ s with initialized := true, bytesUntilSample := P - (k + 1) } : Sampler).initialized = true := rfl
  refine ⟨_, ?_, atPoint_pick hT hs₁⟩
  have hweight : weightOf { s with initialized := true, bytesUntilSample := P - (k + 1) } =
      min (env.sampleInterval + k - P) ssizeMax := by
    rw [weightOf_eq]
    · simp only [hs.sampleInterval, kIntervalOffset]
      congr 1
      omega
    · simp only [hs.sampleInterval, kIntervalOffset]
      have := env.sampleInterval_mem.1
      omega
  unfold recordAllocation
  rw [tryRecordAllocationFast_of_atPoint hs hk, decide_eq_false (Int.not_le.mpr hlt)]
  simp only [Option.bind_eq_bind, Option.bind_some, Bool.false_eq_true, ↓reduceIte]
  unfold recordAllocationSlow
  simp only [hs.initialized, Bool.not_true, Bool.false_eq_true, ↓reduceIte, Option.pure_def,
    Option.bind_eq_bind, Option.bind_some, hweight, if_neg (show ¬env.sampleInterval ≤ 0 by omega)]

theorem atPoint_below (hs : AtPoint env s P) (hle : (k : Int) + 1 ≤ P) :
    AtPoint env { s with bytesUntilSample := P - (k + 1) } (P - (k + 1)) where
  initialized := hs.initialized
  sampleInterval := hs.sampleInterval
  bytes := rfl
  nonneg := by omega
  le_max := by have := hs.le_max; omega

theorem recordAll_below {ks : List Nat} (hks : ∀ k ∈ ks, k < 2 ^ 62) :
    ∀ {s : Sampler} {P : Int}, AtPoint env s P → stream ks ≤ P →
      recordAll env s ks = some (List.replicate ks.length 0, { s with bytesUntilSample := P - stream ks }) := by
  induction ks with
  | nil =>
    intro s P hs _
    rw [stream_nil, Int.sub_zero, ← hs.bytes]
    rfl
  | cons k ks ih =>
    intro s P hs hS
    rw [stream_cons] at hS
    have hle : (k : Int) + 1 ≤ P := by have := stream_nonneg ks; omega
    have hrest := ih (fun k' hk' => hks k' (List.mem_cons_of_mem k hk')) (atPoint_below hs hle) (by omega)
    simp only [recordAll, recordAllocation_below hs (hks k List.mem_cons_self) hle, hrest,
      Option.bind_eq_bind, Option.bind_some, Option.pure_def, List.length_cons, List.replicate_succ, stream_cons]
    congr 3
    omega

theorem recordAll_cross (hT : 1 ≤ env.sampleInterval) {pre : List Nat} (hpre : ∀ k ∈ pre, k < 2 ^ 62)
    (hk : k < 2 ^ 62) (hs : AtPoint env s P) (hbelow : stream pre ≤ P) (hcross : P < stream pre + k + 1) :
    ∃ s', recordAll env s (pre ++ [k]) =
        some (List.replicate pre.length 0 ++ [(min (env.sampleInterval + (stream pre + k + 1) - 1 - P) ssizeMax).toNat], s') ∧
      AtPoint env s' s'.bytesUntilSample := by
  induction pre generalizing s P with
  | nil =>
    obtain ⟨s', hrec, hs'⟩ := recordAllocation_cross hT hs hk (by rw [stream_nil] at hcross; omega)
    refine ⟨s', ?_, hs'⟩
    simp only [List.nil_append, recordAll, hrec, Option.bind_eq_bind, Option.bind_some, Option.pure_def,
      List.length_nil, List.replicate_zero, stream_nil]
    congr 4
    omega
  | cons k' pre ih =>
    rw [stream_cons] at hbelow hcross
    have hle : (k' : Int) + 1 ≤ P := by have := stream_nonneg pre; omega
    obtain ⟨s', hrest, hs'⟩ := ih (fun k'' hk'' => hpre k'' (List.mem_cons_of_mem k' hk''))
      (atPoint_below hs hle) (by omega) (by omega)
    refine ⟨s', ?_, hs'⟩
    simp only [List.cons_append, recordAll, recordAllocation_below hs (hpre k' List.mem_cons_self) hle] at hrest ⊢
    have hw : env.sampleInterval + (stream pre + k + 1) - 1 - (P - (k' + 1)) =
        env.sampleInterval + (k' + 1 + stream pre + k + 1) - 1 - P := by omega
    simp only [Option.bind_eq_bind, Option.bind_some, hrest, Option.pure_def, List.length_cons,
      List.replicate_succ, List.cons_append, stream_cons, hw]

theorem willRecordAllocation_of_atPoint (hs : AtPoint env s P) (hk : k < 2 ^ 62) :
    willRecordAllocation s k = decide (P < (k : Int) + 1) := by
  have hP : P % 2 ^ 64 = P := Int.emod_eq_of_lt hs.nonneg (by have := hs.le_max; unfold ssizeMax at this; omega)
  have hk64 : (k + 1) % 2 ^ 64 = k + 1 := Nat.mod_eq_of_lt (by omega)
  unfold willRecordAllocation
  rw [hs.bytes, hP, hk64]
  apply decide_eq_decide.mpr
  omega

theorem tryRecordAllocationFast_then_recorded (hs : AtPoint env s P) (hk : k < 2 ^ 62) :
    (tryRecordAllocationFast s k).bind (fun r => if r.1 then some (0, r.2) else recordedAllocationFast env r.2 k) =
      recordAllocation env s k := by
  unfold recordAllocation
  rw [tryRecordAllocationFast_of_atPoint hs hk]
  by_cases hle : (k : Int) + 1 ≤ P
  · simp only [decide_eq_true hle, Option.bind_eq_bind, Option.bind_some, ↓reduceIte, Option.pure_def]
  · simp only [decide_eq_false hle, Option.bind_eq_bind, Option.bind_some, Bool.false_eq_true, ↓reduceIte]
    unfold recordedAllocationFast
    rw [if_pos (by dsimp only; omega)]

theorem init_congr {s s' : Sampler} (h : s.initialized = s'.initialized) (seed : Nat) :
    init env s seed = init env s' seed := by
  obtain ⟨_, _, i, _⟩ := s
  obtain ⟨_, _, i', _⟩ := s'
  dsimp only at h
  subst h
  simp only [init, pickNextSamplingPoint, getGeometricVariable]
  split_ifs <;> rfl

theorem atPoint_of_started (hT : 1 ≤ env.sampleInterval) {s₀ : Sampler} (h : started env = some s₀) :
    AtPoint env s₀ s₀.bytesUntilSample := by
  unfold started init at h
  split at h
  · contradiction
  · cases h
    exact atPoint_pick hT rfl

theorem recordAllocationSlow_of_initialized (h : s.initialized = true) :
    recordAllocationSlow env s k = some (if env.sampleInterval ≤ 0 then 0 else (weightOf s).toNat,
      { (pickNextSamplingPoint env s).1 with bytesUntilSample := (pickNextSamplingPoint env s).2 }) := by
  unfold recordAllocationSlow
  simp only [h, Bool.not_true, Bool.false_eq_true, ↓reduceIte, Option.pure_def, Option.bind_eq_bind,
    Option.bind_some]

theorem recordAllocationSlow_first (h : s.initialized = false) :
    recordAllocationSlow env s k = (init env { s with initialized := true } env.seed).bind fun s₀ =>
      let s₁ := { s₀ with bytesUntilSample := toSsize (s₀.bytesUntilSample - (k + 1)) }
      if 0 ≤ s₁.bytesUntilSample then some (0, s₁)
      else some (if env.sampleInterval ≤ 0 then 0 else (weightOf s₁).toNat,
        { (pickNextSamplingPoint env s₁).1 with bytesUntilSample := (pickNextSamplingPoint env s₁).2 }) := by
  unfold recordAllocationSlow
  simp only [h, Bool.not_false, ↓reduceIte, Option.pure_def, Option.bind_eq_bind]
  cases init env { s with initialized := true } env.seed with
  | none => rfl
  | some s₀ =>
    simp only [Option.bind_some]
    split <;> simp_all

theorem tryRecordAllocationFast_initial (hk : k < 2 ^ 62) :
    tryRecordAllocationFast initial k = some (false, { initial with bytesUntilSample := -(k + 1) }) := by
  have hk64 : (k + 1) % 2 ^ 64 = k + 1 := Nat.mod_eq_of_lt (by omega)
  have hwrap : toSsize (((0 : Int).toNat : Int) - ((k + 1 : Nat) : Int)) = -(k + 1) := by
    have h : (((0 : Int).toNat : Int) - ((k + 1 : Nat) : Int)) = -(k + 1) := by simp
    rw [h]
    apply toSsize_of_mem
    · unfold ssizeMin
      omega
    · unfold ssizeMax
      omega
  unfold tryRecordAllocationFast initial
  dsimp only
  rw [if_pos (Int.le_refl 0), hk64, hwrap, decide_eq_false (by omega)]

theorem recordAllocation_initial (hT : 1 ≤ env.sampleInterval) (hk : k < 2 ^ 62) :
    recordAllocation env initial k = (started env).bind fun s₀ => recordAllocation env s₀ k := by
  have hfirst : recordAllocation env initial k = recordAllocationSlow env { initial with bytesUntilSample := -(k + 1) } k := by
    unfold recordAllocation
    rw [tryRecordAllocationFast_initial hk]
    rfl
  have hstart : init env { initial with bytesUntilSample := -(k + 1), initialized := true } env.seed = started env :=
    @init_congr env { initial with bytesUntilSample := -(k + 1), initialized := true }
      { initial with initialized := true } rfl env.seed
  rw [hfirst, recordAllocationSlow_first rfl, hstart]
  cases hs : started env with
  | none => rfl
  | some s₀ =>
    have hat := atPoint_of_started hT hs
    have hwrap : toSsize (s₀.bytesUntilSample - (k + 1)) = s₀.bytesUntilSample - (k + 1) := by
      have := hat.le_max
      have := hat.nonneg
      apply toSsize_of_mem <;> unfold ssizeMin ssizeMax at * <;> omega
    unfold recordAllocation
    simp only [Option.bind_some, tryRecordAllocationFast_of_atPoint hat hk, hwrap]
    by_cases hle : (k : Int) + 1 ≤ s₀.bytesUntilSample
    · rw [if_pos (by omega), decide_eq_true hle]
      rfl
    · rw [if_neg (by omega), decide_eq_false hle]
      simp only [Option.bind_eq_bind, Option.bind_some, Bool.false_eq_true, ↓reduceIte]
      rw [recordAllocationSlow_of_initialized (s := { s₀ with bytesUntilSample := s₀.bytesUntilSample - (k + 1) }) hat.initialized]

theorem interval_le_weight {S : Int} (hcross : P < S) :
    env.sampleInterval ≤ min (env.sampleInterval + S - 1 - P) ssizeMax :=
  Int.le_min.mpr ⟨by omega, env.sampleInterval_mem.2⟩

theorem willRecordAllocation_iff_weight (hT : 1 ≤ env.sampleInterval) (hs : AtPoint env s P) (hk : k < 2 ^ 62) :
    ∃ w s', recordAllocation env s k = some (w, s') ∧ (willRecordAllocation s k = true ↔ w ≠ 0) := by
  rw [willRecordAllocation_of_atPoint hs hk, decide_eq_true_iff]
  by_cases hlt : P < (k : Int) + 1
  · obtain ⟨s', hrec, -⟩ := recordAllocation_cross hT hs hk hlt
    have hw : env.sampleInterval ≤ min (env.sampleInterval + ((k : Int) + 1) - 1 - P) ssizeMax :=
      interval_le_weight hlt
    refine ⟨_, s', hrec, iff_of_true hlt ?_⟩
    rw [show env.sampleInterval + k - P = env.sampleInterval + ((k : Int) + 1) - 1 - P by omega]
    omega
  · exact ⟨0, _, recordAllocation_below hs hk (by omega), iff_of_false hlt (by simp)⟩

/-- The sampler samples the allocation that crosses the sampling point, and only it.
From the state `Init` leaves at the first allocation, or after any sample, with the
point `P` bytes ahead: allocations whose `k + 1` bytes stay within `P` return `0`
and take their bytes off the counter; the first one that reaches past `P` returns
the interval plus how far past `P` it reached, saturated at the largest `ssize_t`,
and a new point is drawn between `0` and the largest `ssize_t`.  The fast path
with `RecordedAllocationFast` after it records the same, and `WillRecordAllocation`
says whether the next allocation returns a weight. -/
theorem sampler_samples_crossing_allocation (hT : 1 ≤ env.sampleInterval) :
    (∀ k < 2 ^ 62, recordAllocation env initial k = (started env).bind fun s₀ => recordAllocation env s₀ k) ∧
    (∀ s₀, started env = some s₀ → AtPoint env s₀ s₀.bytesUntilSample) ∧
    (∀ s P, AtPoint env s P → ∀ pre : List Nat, (∀ k ∈ pre, k < 2 ^ 62) → stream pre ≤ P →
      recordAll env s pre = some (List.replicate pre.length 0, { s with bytesUntilSample := P - stream pre })) ∧
    (∀ s P, AtPoint env s P → ∀ (pre : List Nat) (k : Nat), (∀ k ∈ pre, k < 2 ^ 62) → k < 2 ^ 62 →
      stream pre ≤ P → P < stream pre + k + 1 →
      env.sampleInterval ≤ min (env.sampleInterval + (stream pre + k + 1) - 1 - P) ssizeMax ∧
      ∃ s', recordAll env s (pre ++ [k]) = some (List.replicate pre.length 0 ++
          [(min (env.sampleInterval + (stream pre + k + 1) - 1 - P) ssizeMax).toNat], s') ∧
        AtPoint env s' s'.bytesUntilSample) ∧
    (∀ s P, AtPoint env s P → ∀ k < 2 ^ 62,
      (tryRecordAllocationFast s k).bind (fun r => if r.1 then some (0, r.2) else recordedAllocationFast env r.2 k) =
        recordAllocation env s k ∧
      ∃ w s', recordAllocation env s k = some (w, s') ∧ (willRecordAllocation s k = true ↔ w ≠ 0)) := by
  refine ⟨fun k hk => recordAllocation_initial hT hk, fun s₀ h => atPoint_of_started hT h,
    fun s P hs pre hpre hbelow => recordAll_below hpre hs hbelow, ?_, ?_⟩
  · intro s P hs pre k hpre hk hbelow hcross
    exact ⟨interval_le_weight (by omega), recordAll_cross hT hpre hk hs hbelow hcross⟩
  · intro s P hs k hk
    exact ⟨tryRecordAllocationFast_then_recorded hs hk, willRecordAllocation_iff_weight hT hs hk⟩

/-- An interval of two bytes, from the seed `1`, with an oracle that draws `0`. -/
def intervalTwo : Env := ⟨2, ⟨by decide, by decide⟩, fun _ _ => 0, 1⟩

theorem sampler_samples_crossing_allocation_at_interval_two :
    1 ≤ intervalTwo.sampleInterval ∧ ∃ s₀ s', started intervalTwo = some s₀ ∧ s₀.bytesUntilSample = 0 ∧
      recordAll intervalTwo s₀ [0] = some ([2], s') := by
  have hT : 1 ≤ intervalTwo.sampleInterval := by decide
  obtain ⟨-, hstart, -, hcross, -⟩ := sampler_samples_crossing_allocation hT
  obtain ⟨s₀, hs₀⟩ : ∃ s₀, started intervalTwo = some s₀ := ⟨_, rfl⟩
  have hP : s₀.bytesUntilSample = 0 := by
    cases hs₀
    rfl
  have hat : AtPoint intervalTwo s₀ 0 := hP ▸ hstart s₀ hs₀
  obtain ⟨-, s', hrun, -⟩ := hcross s₀ 0 hat [] 0 (by simp) (by decide) (by simp) (by simp)
  refine ⟨hT, s₀, s', hs₀, hP, ?_⟩
  rw [List.nil_append] at hrun
  rw [hrun]
  rfl

/-- The largest interval, from a seed whose first draw has its top 26 bits all set:
there `GetGeometricVariable` computes `(log2(2 ^ 26) - 26) * (-log(2) * mean)`, zero
whatever the mean, as the oracle does. -/
def maxInterval : Env := ⟨ssizeMax, ⟨by decide, le_refl _⟩, fun _ _ => 0, 254787961769136⟩

/-- At the largest interval the first allocation, of one byte, crosses the point `0`
that `Init` drew, and `__builtin_ssubl_overflow` saturates its weight at `2 ^ 63 - 1`
where the interval plus the bytes past the point is `2 ^ 63`. -/
theorem sampler_weight_saturates_at_max_interval :
    ExponentialBiased.nextRandom^[21] maxInterval.seed >>> 22 = 2 ^ 26 - 1 ∧
    ∃ s₀ s', started maxInterval = some s₀ ∧ s₀.bytesUntilSample = 0 ∧
      recordAllocation maxInterval initial 1 = some (2 ^ 63 - 1, s') ∧
      maxInterval.sampleInterval + (1 + 1) - 1 - 0 = 2 ^ 63 := by
  refine ⟨by decide, _, _, rfl, rfl, rfl, by decide⟩

end Sampler

end TCMalloc
