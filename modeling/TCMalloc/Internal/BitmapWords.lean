import TCMalloc.Internal.Bitmap
import TCMalloc.Lib.Word64

/-!
`Bitmap<N>` of range_tracker.h word by word: `bits_` holds `kWords` words of 64 bits, bit
`k` of the map is bit `k % 64` of word `k / 64`, and the `kDeadBits` bits of the last
word past `N` are to stay clear.  The `TC_ASSERT`s and `ASSUME`s of the code are checks
here: an operation whose check fails returns `none`.

Every operation keeps the dead bits clear and does to the bits below `N` what the
bit-sequence model `Bitmap` does (`toBitmap`), under the checks the code makes; in
particular `SetRange` and `ClearRange` need `n > 0`, which `SetWordBits` asserts.
-/

set_option autoImplicit false
set_option relaxedAutoImplicit false

namespace TCMalloc.Internal.BitmapWords

open TCMalloc.Lib.Scan TCMalloc.Lib.Word64

/-- `kWordSize = sizeof(size_t) * 8`. -/
def kWordSize : Nat := 64

/-- `kWords = (N + kWordSize - 1) / kWordSize`. -/
def kWords (N : Nat) : Nat := (N + kWordSize - 1) / kWordSize

/-- `kDeadBits = kWordSize * kWords - N`. -/
def kDeadBits (N : Nat) : Nat := kWordSize * kWords N - N

/-- `bits_`: word `i` of the map, for `i < kWords N`. -/
structure Words (N : Nat) where
  bits : Nat → BitVec 64

/-- `TC_ASSERT(cond)` and `ASSUME(cond)`: the operation goes on only when `cond` holds. -/
def check (cond : Prop) [Decidable cond] {α : Type} (x : Option α) : Option α :=
  if cond then x else none

/-- `~static_cast<size_t>(0)`. -/
def allOnes : BitVec 64 := BitVec.allOnes 64

/-- `(all_ones >> (kWordSize - n)) << from` with `n = to - from`: the bits `[lo, hi)`. -/
def rangeMask (lo hi : Nat) : BitVec 64 := (allOnes >>> (kWordSize - (hi - lo))) <<< lo

/-- `here` of `FindValue`: the word, inverted when looking for a clear bit. -/
def goalWord (goal : Bool) (w : BitVec 64) : BitVec 64 := if goal then w else ~~~w

variable {N : Nat}

/-- Bit `k` of the map: bit `k % 64` of word `k / 64`. -/
def bit (b : Words N) (k : Nat) : Bool := (b.bits (k / kWordSize)).getLsbD (k % kWordSize)

/-- The bit sequence the words hold: their bits below `N`. -/
def toBitmap (b : Words N) : Bitmap N := ⟨fun k => decide (k < N) && bit b k⟩

/-- The `kDeadBits` bits past `N` are clear. -/
def DeadClear (b : Words N) : Prop := ∀ k, N ≤ k → k < kWordSize * kWords N → bit b k = false

/-- The words hold the bit sequence `m` and keep their dead bits clear. -/
def Refines (b : Words N) (m : Bitmap N) : Prop := DeadClear b ∧ toBitmap b = m

/-- Word `i` replaced by `w`. -/
def setWord (b : Words N) (i : Nat) (w : BitVec 64) : Words N := ⟨Function.update b.bits i w⟩

/-- `constexpr Bitmap() : bits_{}`. -/
def empty : Words N := ⟨fun _ => 0⟩

/-- `GetBit(i)`. -/
def getBit (b : Words N) (i : Nat) : Option Bool :=
  check (i < N) <| check (i / kWordSize < kWords N) <|
    some (b.bits (i / kWordSize) &&& (1#64 <<< (i % kWordSize)) != 0)

/-- `SetBit(i)`: the old bit, and the map with bit `i` set. -/
def setBit (b : Words N) (i : Nat) : Option (Bool × Words N) :=
  check (i < N) <| check (i / kWordSize < kWords N) <|
    some (b.bits (i / kWordSize) &&& (1#64 <<< (i % kWordSize)) != 0,
      setWord b (i / kWordSize) (b.bits (i / kWordSize) ||| (1#64 <<< (i % kWordSize))))

/-- `ClearBit(i)`: the old bit, and the map with bit `i` clear. -/
def clearBit (b : Words N) (i : Nat) : Option (Bool × Words N) :=
  check (i < N) <| check (i / kWordSize < kWords N) <|
    some (b.bits (i / kWordSize) &&& (1#64 <<< (i % kWordSize)) != 0,
      setWord b (i / kWordSize) (b.bits (i / kWordSize) &&& ~~~(1#64 <<< (i % kWordSize))))

/-- `CountWordBits(i, from, to)`, with `from` and `to` as `lo` and `hi`. -/
def countWordBits (b : Words N) (i lo hi : Nat) : Option Nat :=
  check (lo < kWordSize) <| check (hi ≤ kWordSize) <|
    check (0 < hi - lo ∧ hi - lo ≤ kWordSize) <| check (i < kWords N) <|
      some (popcount (b.bits i &&& rangeMask lo hi))

/-- `SetWordBits<Value>(i, from, to)`, with `from` and `to` as `lo` and `hi`. -/
def setWordBits (value : Bool) (b : Words N) (i lo hi : Nat) : Option (Words N) :=
  check (lo < kWordSize) <| check (hi ≤ kWordSize) <|
    check (0 < hi - lo ∧ hi - lo ≤ kWordSize) <| check (i < kWords N) <|
      some (setWord b i
        (if value then b.bits i ||| rangeMask lo hi else b.bits i &&& ~~~(rangeMask lo hi)))

/-- The `while (n > 0)` loop of `SetRangeValue`: the words after `word`, `n` bits to go. -/
def setRangeRest (value : Bool) (word n : Nat) (b : Words N) : Option (Words N) :=
  if n = 0 then some b
  else
    match setWordBits value b (word + 1) 0 (min n kWordSize) with
    | none => none
    | some b => setRangeRest value (word + 1) (n - min n kWordSize) b
termination_by n
decreasing_by simp only [kWordSize] at *; omega

/-- `SetRangeValue<Value>(index, n)`. -/
def setRangeValue (value : Bool) (b : Words N) (index n : Nat) : Option (Words N) :=
  check (index + n ≤ N) <|
    match setWordBits value b (index / kWordSize) (index % kWordSize)
        (min (index % kWordSize + n) kWordSize) with
    | none => none
    | some b =>
      setRangeRest value (index / kWordSize)
        (n - (min (index % kWordSize + n) kWordSize - index % kWordSize)) b

/-- `SetRange(index, n)`. -/
def setRange (b : Words N) (index n : Nat) : Option (Words N) := setRangeValue true b index n

/-- `ClearRange(index, n)`. -/
def clearRange (b : Words N) (index n : Nat) : Option (Words N) := setRangeValue false b index n

/-- The `while (n > 0)` loop of `CountBits`: the words after `word`, `n` bits to go. -/
def countRest (b : Words N) (word n count : Nat) : Option Nat :=
  if n = 0 then some count
  else
    match countWordBits b (word + 1) 0 (min n kWordSize) with
    | none => none
    | some c => countRest b (word + 1) (n - min n kWordSize) (count + c)
termination_by n
decreasing_by simp only [kWordSize] at *; omega

/-- `CountBits(index, n)`. -/
def countBits (b : Words N) (index n : Nat) : Option Nat :=
  check (index + n ≤ N) <|
    if n = 0 then some 0
    else
      match countWordBits b (index / kWordSize) (index % kWordSize)
          (min (index % kWordSize + n) kWordSize) with
      | none => none
      | some c =>
        countRest b (index / kWordSize)
          (n - (min (index % kWordSize + n) kWordSize - index % kWordSize)) c

/-- The loop of `ClearLowestBit` from word `i`, with `fuel` words left. -/
def clearLowestFrom (b : Words N) : Nat → Nat → Words N
  | 0, _ => b
  | fuel + 1, i =>
    if b.bits i ≠ 0 then setWord b i (b.bits i &&& (b.bits i - 1#64))
    else clearLowestFrom b fuel (i + 1)

/-- `ClearLowestBit()`. -/
def clearLowestBit (b : Words N) : Words N := clearLowestFrom b (kWords N) 0

/-- The inner `while (word != 0 && count < limit)` loop of `PopBatch` on word `i`: the
indices visited, the word left and the count. `64` rounds always suffice. -/
def popWord (i limit : Nat) : Nat → BitVec 64 → Nat → List Nat × BitVec 64 × Nat
  | 0, word, count => ([], word, count)
  | fuel + 1, word, count =>
    if word ≠ 0 ∧ count < limit then
      let rest := popWord i limit fuel (word &&& (word - 1#64)) (count + 1)
      ((i * kWordSize + countrZero word) :: rest.1, rest.2)
    else ([], word, count)

/-- The outer loop of `PopBatch` from word `i`, with `fuel` words left. -/
def popFrom (b : Words N) (limit : Nat) : Nat → Nat → Nat → List Nat × Words N × Nat
  | 0, _, count => ([], b, count)
  | fuel + 1, i, count =>
    if limit ≤ count then ([], b, count)
    else
      let inner := popWord i limit kWordSize (b.bits i) count
      let rest := popFrom (setWord b i inner.2.1) limit fuel (i + 1) inner.2.2
      (inner.1 ++ rest.1, rest.2)

/-- `PopBatch(visitor, limit)`: the indices the visitor is called with, in order, the map
after, and the count returned. -/
def popBatch (b : Words N) (limit : Nat) : List Nat × Words N × Nat := popFrom b limit (kWords N) 0 0

/-- `Clear()`. -/
def clear (b : Words N) : Words N := ⟨fun i => if i < kWords N then 0 else b.bits i⟩

/-- `operator~`: every word inverted, and the dead bits of the last word cleared again. -/
def complement (b : Words N) : Words N :=
  ⟨fun i =>
    if i < kWords N then
      if 0 < kDeadBits N ∧ i = kWords N - 1 then ~~~(b.bits i) &&& (allOnes >>> kDeadBits N)
      else ~~~(b.bits i)
    else 0⟩

/-- `operator&`. -/
def and (b c : Words N) : Words N := ⟨fun i => if i < kWords N then b.bits i &&& c.bits i else 0⟩

/-- `operator|`. -/
def or (b c : Words N) : Words N := ⟨fun i => if i < kWords N then b.bits i ||| c.bits i else 0⟩

/-- `operator^`. -/
def xor (b c : Words N) : Words N := ⟨fun i => if i < kWords N then b.bits i ^^^ c.bits i else 0⟩

/-- The `while (here == 0)` loop of `FindValue` from word `word`, with `fuel` words left
after it; `none` is the `return N` past the last word. -/
def scanUp (goal : Bool) (b : Words N) : Nat → Nat → BitVec 64 → Option (Nat × BitVec 64)
  | 0, word, here => if here ≠ 0 then some (word, here) else none
  | fuel + 1, word, here =>
    if here ≠ 0 then some (word, here)
    else if kWords N ≤ word + 1 then none
    else scanUp goal b fuel (word + 1) (goalWord goal (b.bits (word + 1)))

/-- `FindValue<Goal>(index)`, in the build without `TCMALLOC_INTERNAL_LEGACY_LOCKING`. -/
def findValue (goal : Bool) (b : Words N) (index : Nat) : Option Nat :=
  check (index < N) <| check (index / kWordSize < kWords N) <|
    match scanUp goal b (kWords N) (index / kWordSize)
        (goalWord goal (b.bits (index / kWordSize)) &&& (allOnes <<< (index % kWordSize))) with
    | none => some N
    | some (word, here) =>
      if 0 < kDeadBits N then
        -- dead bits are never set; `FindClear` inverts the word, so it clamps
        if goal then
          check (countrZero here + word * kWordSize < N) (some (countrZero here + word * kWordSize))
        else some (min (countrZero here + word * kWordSize) N)
      else some (countrZero here + word * kWordSize)

/-- `FindSet(index)`. -/
def findSet (b : Words N) (index : Nat) : Option Nat := findValue true b index

/-- `FindClear(index)`. -/
def findClear (b : Words N) (index : Nat) : Option Nat := findValue false b index

/-- The `while (here == 0)` loop of `FindValueBackwards` down from word `word`; `none` is
the `return -1` below word `0`. -/
def scanDown (goal : Bool) (b : Words N) : Nat → Nat → BitVec 64 → Option (Nat × BitVec 64)
  | 0, word, here => if here ≠ 0 then some (word, here) else none
  | fuel + 1, word, here =>
    if here ≠ 0 then some (word, here)
    else if word = 0 then none
    else scanDown goal b fuel (word - 1) (goalWord goal (b.bits (word - 1)))

/-- `FindValueBackwards<Goal>(index)`. -/
def findValueBackwards (goal : Bool) (b : Words N) (index : Nat) : Option Int :=
  check (index < N) <| check (index / kWordSize < kWords N) <|
    match scanDown goal b (index / kWordSize) (index / kWordSize)
        (goalWord goal (b.bits (index / kWordSize)) &&&
          ((2#64 <<< (index % kWordSize)) - 1#64)) with
    | none => some (-1)
    | some (word, here) => some ((Lib.Word64.bitWidth here - 1 + word * kWordSize : Nat) : Int)

/-- `FindSetBackwards(index)`. -/
def findSetBackwards (b : Words N) (index : Nat) : Option Int := findValueBackwards true b index

/-- `FindClearBackwards(index)`. -/
def findClearBackwards (b : Words N) (index : Nat) : Option Int :=
  findValueBackwards false b index

/-! ### Addressing -/

theorem lt_kWords_iff {i : Nat} : i < kWords N ↔ kWordSize * i < N := by
  simp only [kWords, kWordSize]
  omega

theorem le_mul_kWords : N ≤ kWordSize * kWords N := by
  simp only [kWords, kWordSize]
  omega

theorem mul_kWords_lt : kWordSize * kWords N < N + kWordSize := by
  simp only [kWords, kWordSize]
  omega

theorem kDeadBits_add : kDeadBits N + N = kWordSize * kWords N := by
  have := le_mul_kWords (N := N)
  unfold kDeadBits
  omega

theorem bit_word (b : Words N) (i : Nat) {j : Nat} (hj : j < kWordSize) :
    bit b (kWordSize * i + j) = (b.bits i).getLsbD j := by
  have hdiv : (kWordSize * i + j) / kWordSize = i := by simp only [kWordSize] at *; omega
  have hmod : (kWordSize * i + j) % kWordSize = j := by simp only [kWordSize] at *; omega
  rw [bit, hdiv, hmod]

theorem bit_setWord (b : Words N) (i : Nat) (w : BitVec 64) (k : Nat) :
    bit (setWord b i w) k = if k / kWordSize = i then w.getLsbD (k % kWordSize) else bit b k := by
  unfold bit setWord
  dsimp only
  by_cases hk : k / kWordSize = i
  · rw [if_pos hk, hk, Function.update_self]
  · rw [if_neg hk, Function.update_of_ne hk]

theorem setWord_self (b : Words N) (i : Nat) : setWord b i (b.bits i) = b := by
  rw [setWord, Function.update_eq_self]

theorem getLsbD_goalWord (goal : Bool) (w : BitVec 64) {j : Nat} (hj : j < 64) :
    (goalWord goal w).getLsbD j = (w.getLsbD j == goal) := by
  cases goal
  · simp [goalWord, hj]
  · simp [goalWord]

@[simp] theorem toBitmap_bits (b : Words N) (k : Nat) :
    (toBitmap b).bits k = (decide (k < N) && bit b k) := rfl

/-! ### The refinement -/

theorem Refines.bits_of_ge {b : Words N} {m : Bitmap N} (h : Refines b m) {k : Nat}
    (hk : N ≤ k) : m.bits k = false := by
  rw [← h.2, toBitmap_bits, decide_eq_false (by omega), Bool.false_and]

theorem Refines.bit_eq {b : Words N} {m : Bitmap N} (h : Refines b m) {k : Nat}
    (hk : k < kWordSize * kWords N) : bit b k = m.bits k := by
  rcases Nat.lt_or_ge k N with hkN | hkN
  · rw [← h.2, toBitmap_bits, decide_eq_true hkN, Bool.true_and]
  · rw [h.1 k hkN hk, h.bits_of_ge hkN]

theorem refines_of_bit {b : Words N} {m : Bitmap N} (hm : ∀ k, N ≤ k → m.bits k = false)
    (h : ∀ k < kWordSize * kWords N, bit b k = m.bits k) : Refines b m := by
  refine ⟨fun k hkN hk => by rw [h k hk, hm k hkN], ?_⟩
  ext k
  rw [toBitmap_bits]
  rcases Nat.lt_or_ge k N with hkN | hkN
  · rw [decide_eq_true hkN, Bool.true_and, h k (Nat.lt_of_lt_of_le hkN le_mul_kWords)]
  · rw [decide_eq_false (by omega), Bool.false_and, hm k hkN]

/-! ### Single bits -/

theorem and_one_shiftLeft_ne_zero (w : BitVec 64) {s : Nat} (hs : s < 64) :
    (w &&& (1#64 <<< s) != 0) = w.getLsbD s := by
  by_cases hset : w.getLsbD s
  · have hne : w &&& (1#64 <<< s) ≠ 0 := fun h0 => by
      have := congrArg (fun v => v.getLsbD s) h0
      simp only [BitVec.getLsbD_and, getLsbD_one_shiftLeft hs, hset, decide_true,
        Bool.and_true] at this
      exact absurd this (by simp)
    rw [hset]
    exact bne_iff_ne.mpr hne
  · have h0 : w &&& (1#64 <<< s) = 0 := eq_zero_of_getLsbD fun k _ => by
      rw [BitVec.getLsbD_and, getLsbD_one_shiftLeft hs]
      by_cases hks : k = s
      · rw [hks, Bool.eq_false_iff.mpr hset, Bool.false_and]
      · rw [decide_eq_false hks, Bool.and_false]
    simp [h0, Bool.eq_false_iff.mpr hset]

section Bits

variable {b : Words N} {m : Bitmap N} {i : Nat}

theorem word_lt_kWords (hi : i < N) : i / kWordSize < kWords N :=
  lt_kWords_iff.mpr (by simp only [kWordSize] at *; omega)

theorem eq_iff_mod_eq {k : Nat} (hk : k / kWordSize = i / kWordSize) :
    k = i ↔ k % kWordSize = i % kWordSize := by
  simp only [kWordSize] at *
  omega

theorem bit_setWord_bit (value : Bool) (k : Nat) :
    bit (setWord b (i / kWordSize) (if value then b.bits (i / kWordSize) ||| (1#64 <<< (i % kWordSize))
      else b.bits (i / kWordSize) &&& ~~~(1#64 <<< (i % kWordSize)))) k =
      if k = i then value else bit b k := by
  rw [bit_setWord]
  have hs : i % kWordSize < 64 := Nat.mod_lt _ (by decide)
  by_cases hki : k = i
  · subst hki
    rw [if_pos rfl, if_pos rfl]
    cases value <;> simp only [Bool.false_eq_true, if_false, if_true, BitVec.getLsbD_and,
      BitVec.getLsbD_not, BitVec.getLsbD_or, getLsbD_one_shiftLeft hs, decide_eq_true hs,
      decide_true, Bool.not_true, Bool.and_false, Bool.or_true]
  · rw [if_neg hki]
    by_cases hk : k / kWordSize = i / kWordSize
    · rw [if_pos hk]
      have hkm : k % kWordSize ≠ i % kWordSize := fun h => hki ((eq_iff_mod_eq hk).mpr h)
      have hk' : k % kWordSize < 64 := Nat.mod_lt _ (by decide)
      cases value <;> simp only [Bool.false_eq_true, if_false, if_true, BitVec.getLsbD_and,
        BitVec.getLsbD_not, BitVec.getLsbD_or, getLsbD_one_shiftLeft hs, decide_eq_true hk',
        decide_eq_false hkm, Bool.not_false, Bool.and_true, Bool.or_false, bit, hk]
    · rw [if_neg hk]

theorem setWord_bit_refines (value : Bool) (hb : Refines b m) (hi : i < N) :
    Refines (setWord b (i / kWordSize) (if value then b.bits (i / kWordSize) ||| (1#64 <<< (i % kWordSize))
      else b.bits (i / kWordSize) &&& ~~~(1#64 <<< (i % kWordSize))))
      ⟨fun k => if k = i then value else m.bits k⟩ := by
  apply refines_of_bit
  · intro k hk
    dsimp only
    rw [if_neg (by omega), hb.bits_of_ge hk]
  · intro k hk
    dsimp only
    rw [bit_setWord_bit, hb.bit_eq hk]

theorem old_bit_eq (hb : Refines b m) (hi : i < N) :
    (b.bits (i / kWordSize) &&& (1#64 <<< (i % kWordSize)) != 0) = m.getBit i := by
  have hs : i % kWordSize < 64 := Nat.mod_lt _ (by decide)
  rw [and_one_shiftLeft_ne_zero _ hs, Bitmap.getBit,
    ← hb.bit_eq (Nat.lt_of_lt_of_le hi le_mul_kWords), bit]

theorem getBit_eq (hb : Refines b m) (hi : i < N) : getBit b i = some (m.getBit i) := by
  rw [getBit, check, if_pos hi, check, if_pos (word_lt_kWords hi), old_bit_eq hb hi]

theorem setBit_refines (hb : Refines b m) (hi : i < N) :
    ∃ b', setBit b i = some (m.getBit i, b') ∧ Refines b' (m.setBit i) := by
  rw [setBit, check, if_pos hi, check, if_pos (word_lt_kWords hi), old_bit_eq hb hi]
  exact ⟨_, rfl, setWord_bit_refines true hb hi⟩

theorem clearBit_refines (hb : Refines b m) (hi : i < N) :
    ∃ b', clearBit b i = some (m.getBit i, b') ∧ Refines b' (m.clearBit i) := by
  rw [clearBit, check, if_pos hi, check, if_pos (word_lt_kWords hi), old_bit_eq hb hi]
  exact ⟨_, rfl, setWord_bit_refines false hb hi⟩

end Bits

/-! ### Ranges -/

section Ranges

variable {b : Words N} {m : Bitmap N}

theorem rangeMask_eq (lo hi : Nat) :
    rangeMask lo hi = (BitVec.allOnes 64 >>> (64 - (hi - lo))) <<< lo := rfl

theorem setWordBits_eq (value : Bool) (b : Words N) (i lo hi : Nat) (hlh : lo < hi)
    (hhi : hi ≤ kWordSize) (hword : i < kWords N) :
    ∃ b', setWordBits value b i lo hi = some b' ∧ ∀ k, bit b' k =
      if kWordSize * i + lo ≤ k ∧ k < kWordSize * i + hi then value else bit b k := by
  have hlo : lo < kWordSize := Nat.lt_of_lt_of_le hlh hhi
  rw [setWordBits, check, if_pos hlo, check, if_pos hhi, check,
    if_pos ⟨by omega, by omega⟩, check, if_pos hword]
  refine ⟨_, rfl, fun k => ?_⟩
  have hmask : ∀ j, (rangeMask lo hi).getLsbD j = (decide (lo ≤ j) && decide (j < hi)) := by
    intro j
    rw [rangeMask_eq, getLsbD_rangeMask hlh hhi]
  have hk64 : k % kWordSize < 64 := Nat.mod_lt _ (by decide)
  rw [bit_setWord]
  by_cases hk : k / kWordSize = i
  · rw [if_pos hk]
    have hlo' : lo ≤ k % kWordSize ↔ kWordSize * i + lo ≤ k := by
      simp only [kWordSize] at *
      omega
    have hhi' : k % kWordSize < hi ↔ k < kWordSize * i + hi := by
      simp only [kWordSize] at *
      omega
    cases value
    · simp only [Bool.false_eq_true, if_false, BitVec.getLsbD_and, BitVec.getLsbD_not, hmask,
        decide_eq_true hk64, Bool.true_and, hlo', hhi']
      by_cases hin : kWordSize * i + lo ≤ k ∧ k < kWordSize * i + hi
      · rw [if_pos hin, decide_eq_true hin.1, decide_eq_true hin.2]
        simp
      · rw [if_neg hin, bit, hk]
        by_cases hlo'' : kWordSize * i + lo ≤ k
        · rw [decide_eq_true hlo'', decide_eq_false fun h => hin ⟨hlo'', h⟩]
          simp
        · rw [decide_eq_false hlo'']
          simp
    · simp only [if_true, BitVec.getLsbD_or, hmask, hlo', hhi']
      by_cases hin : kWordSize * i + lo ≤ k ∧ k < kWordSize * i + hi
      · rw [if_pos hin, decide_eq_true hin.1, decide_eq_true hin.2]
        simp
      · rw [if_neg hin, bit, hk]
        by_cases hlo'' : kWordSize * i + lo ≤ k
        · rw [decide_eq_true hlo'', decide_eq_false fun h => hin ⟨hlo'', h⟩]
          simp
        · rw [decide_eq_false hlo'']
          simp
  · rw [if_neg hk, if_neg (by simp only [kWordSize] at *; omega)]

theorem setRangeRest_eq (value : Bool) :
    ∀ (n word : Nat) (b : Words N), (0 < n → kWordSize * (word + 1) + n ≤ kWordSize * kWords N) →
      ∃ b', setRangeRest value word n b = some b' ∧ ∀ k, bit b' k =
        if kWordSize * (word + 1) ≤ k ∧ k < kWordSize * (word + 1) + n then value else bit b k := by
  intro n
  induction n using Nat.strong_induction_on with
  | _ n ih =>
  intro word b hfit
  rw [setRangeRest]
  by_cases hn : n = 0
  · rw [if_pos hn]
    exact ⟨b, rfl, fun k => by rw [if_neg (by omega)]⟩
  rw [if_neg hn]
  -- the first `min n 64` bits go to word `word + 1`, the rest to the words after it
  have hfit' := hfit (by omega)
  have hword : word + 1 < kWords N := by
    simp only [kWordSize] at hfit'
    omega
  obtain ⟨b₁, h₁, hb₁⟩ := setWordBits_eq value b (word + 1) 0 (min n kWordSize)
    (by simp only [kWordSize]; omega) (Nat.min_le_right _ _) hword
  rw [h₁]
  dsimp only
  obtain ⟨b₂, h₂, hb₂⟩ := ih (n - min n kWordSize) (by simp only [kWordSize]; omega) (word + 1) b₁
    (fun hpos => by simp only [kWordSize] at *; omega)
  refine ⟨b₂, h₂, fun k => ?_⟩
  rw [hb₂, hb₁]
  have h64 : kWordSize = 64 := rfl
  rcases Nat.le_total n kWordSize with hle | hle
  · rw [Nat.min_eq_left hle, h64] at *
    split_ifs <;> first | rfl | omega
  · rw [Nat.min_eq_right hle, h64] at *
    split_ifs <;> first | rfl | omega

theorem setRangeValue_refines (value : Bool) (hb : Refines b m) {index n : Nat} (hn : 0 < n)
    (hN : index + n ≤ N) :
    ∃ b', setRangeValue value b index n = some b' ∧ Refines b' (m.setRangeValue value index n) := by
  have hkW := le_mul_kWords (N := N)
  rw [setRangeValue, check, if_pos hN]
  obtain ⟨b₁, h₁, hb₁⟩ := setWordBits_eq value b (index / kWordSize)
    (index % kWordSize) (min (index % kWordSize + n) kWordSize)
    (by simp only [kWordSize]; omega) (Nat.min_le_right _ _) (word_lt_kWords (by omega))
  rw [h₁]
  dsimp only
  obtain ⟨b₂, h₂, hb₂⟩ := setRangeRest_eq value
    (n - (min (index % kWordSize + n) kWordSize - index % kWordSize)) (index / kWordSize) b₁
    (fun hpos => by simp only [kWordSize] at *; omega)
  refine ⟨b₂, h₂, refines_of_bit (fun k hk => ?_) (fun k hk => ?_)⟩
  · rw [Bitmap.setRangeValue_bits, if_neg (by omega), hb.bits_of_ge hk]
  · rw [hb₂, hb₁, Bitmap.setRangeValue_bits, hb.bit_eq hk]
    have h64 : kWordSize = 64 := rfl
    rcases Nat.le_total (index % kWordSize + n) kWordSize with hle | hle
    · rw [Nat.min_eq_left hle, h64] at *
      split_ifs <;> first | rfl | omega
    · rw [Nat.min_eq_right hle, h64] at *
      split_ifs <;> first | rfl | omega

theorem setRange_refines (hb : Refines b m) {index n : Nat} (hn : 0 < n) (hN : index + n ≤ N) :
    ∃ b', setRange b index n = some b' ∧ Refines b' (m.setRange index n) :=
  setRangeValue_refines true hb hn hN

theorem clearRange_refines (hb : Refines b m) {index n : Nat} (hn : 0 < n) (hN : index + n ≤ N) :
    ∃ b', clearRange b index n = some b' ∧ Refines b' (m.clearRange index n) :=
  setRangeValue_refines false hb hn hN

theorem setWordBits_empty (value : Bool) (b : Words N) (i lo : Nat) :
    setWordBits value b i lo lo = none := by
  unfold setWordBits
  rw [Nat.sub_self]
  simp [check]

theorem setRangeValue_zero (value : Bool) (b : Words N) (index : Nat) :
    setRangeValue value b index 0 = none := by
  rw [setRangeValue, check]
  split
  · have hlo : min (index % kWordSize + 0) kWordSize = index % kWordSize := by
      have : index % kWordSize < kWordSize := Nat.mod_lt _ (by decide)
      omega
    rw [hlo, setWordBits_empty]
  · rfl

end Ranges

/-! ### Counting -/

section Count

variable {b : Words N} {m : Bitmap N}

theorem countWordBits_eq (b : Words N) {i lo hi : Nat} (hlh : lo < hi) (hhi : hi ≤ kWordSize)
    (hword : i < kWords N) :
    countWordBits b i lo hi =
      some (Nat.count (fun j => bit b (kWordSize * i + lo + j) = true) (hi - lo)) := by
  have hlo : lo < kWordSize := Nat.lt_of_lt_of_le hlh hhi
  rw [countWordBits, check, if_pos hlo, check, if_pos hhi, check,
    if_pos ⟨by omega, by omega⟩, check, if_pos hword, rangeMask_eq,
    popcount_and_rangeMask _ hlh hhi]
  congr 1
  exact count_congr_of_lt _ _ fun j hj => by rw [Nat.add_assoc, bit_word b i (by omega)]

theorem countRest_eq (b : Words N) :
    ∀ (n word count : Nat), (0 < n → kWordSize * (word + 1) + n ≤ kWordSize * kWords N) →
      countRest b word n count =
        some (count + Nat.count (fun j => bit b (kWordSize * (word + 1) + j) = true) n) := by
  intro n
  induction n using Nat.strong_induction_on with
  | _ n ih =>
  intro word count hfit
  rw [countRest]
  by_cases hn : n = 0
  · rw [if_pos hn, hn, Nat.count_zero, Nat.add_zero]
  rw [if_neg hn]
  have hfit' := hfit (by omega)
  have hword : word + 1 < kWords N := by
    simp only [kWordSize] at hfit'
    omega
  rw [countWordBits_eq b (by simp only [kWordSize]; omega) (Nat.min_le_right _ _) hword]
  dsimp only
  rw [ih (n - min n kWordSize) (by simp only [kWordSize]; omega) (word + 1) _
    (fun hpos => by simp only [kWordSize] at *; omega)]
  congr 1
  -- `min n 64` bits from word `word + 1`, the rest from the words after it
  have hsplit := Nat.count_add (fun j => bit b (kWordSize * (word + 1) + j) = true)
    (min n kWordSize) (n - min n kWordSize)
  rw [Nat.add_sub_cancel' (Nat.min_le_left _ _)] at hsplit
  rw [hsplit, Nat.add_assoc, Nat.sub_zero, Nat.add_zero]
  congr 2
  refine count_congr_of_lt _ _ fun j hj => ?_
  have hmin : min n kWordSize = kWordSize := Nat.min_eq_right (by omega)
  rw [hmin]
  simp only [kWordSize]
  congr 1
  omega

theorem countBits_eq (hb : Refines b m) {index n : Nat} (hN : index + n ≤ N) :
    countBits b index n = some (m.countBitsIn index n) := by
  have hkW := le_mul_kWords (N := N)
  rw [countBits, check, if_pos hN]
  by_cases hn : n = 0
  · rw [if_pos hn, hn]
    rfl
  rw [if_neg hn]
  have hoff : index % kWordSize < kWordSize := Nat.mod_lt _ (by decide)
  rw [countWordBits_eq b (by omega) (Nat.min_le_right _ _) (word_lt_kWords (by omega))]
  dsimp only
  rw [countRest_eq b _ _ _ (fun hpos => by simp only [kWordSize] at *; omega)]
  congr 1
  -- the first word holds the first `a` bits of the range, the words after it the rest
  obtain ⟨a, ha⟩ : ∃ a, a = min (index % kWordSize + n) kWordSize - index % kWordSize :=
    ⟨_, rfl⟩
  rw [← ha]
  have hsplit := Nat.count_add (fun j => m.bits (index + j) = true) a (n - a)
  rw [Nat.add_sub_cancel' (by omega)] at hsplit
  rw [Bitmap.countBitsIn, hsplit]
  congr 1
  · refine count_congr_of_lt _ _ fun j hj => ?_
    have hidx : kWordSize * (index / kWordSize) + index % kWordSize + j = index + j := by
      rw [Nat.div_add_mod]
    rw [hidx, hb.bit_eq (by omega)]
  · refine count_congr_of_lt _ _ fun j hj => ?_
    have hmin : min (index % kWordSize + n) kWordSize = kWordSize := Nat.min_eq_right (by omega)
    have hidx : kWordSize * (index / kWordSize + 1) + j = index + (a + j) := by
      rw [hmin] at ha
      have := Nat.div_add_mod index kWordSize
      simp only [kWordSize] at *
      omega
    rw [hidx, hb.bit_eq (by omega)]

end Count

/-! ### Whole maps -/

section Whole

variable {b c : Words N} {m m' : Bitmap N}

theorem div_lt_kWords {k : Nat} (hk : k < kWordSize * kWords N) : k / kWordSize < kWords N := by
  simp only [kWordSize] at *
  omega

theorem clear_refines (b : Words N) : Refines (clear b) Bitmap.empty := by
  refine refines_of_bit (fun _ _ => rfl) fun k hk => ?_
  rw [bit, clear]
  dsimp only
  rw [if_pos (div_lt_kWords hk)]
  simp

theorem bit_complement {k : Nat} (hk : k < kWordSize * kWords N) :
    bit (complement b) k = (decide (k < N) && !bit b k) := by
  have hdead := kDeadBits_add (N := N)
  have hkW := mul_kWords_lt (N := N)
  have hoff : k % kWordSize < 64 := Nat.mod_lt _ (by decide)
  have hsplit := Nat.div_add_mod k kWordSize
  rw [bit, complement]
  dsimp only
  rw [if_pos (div_lt_kWords hk)]
  split_ifs with hlast
  · -- the last word keeps only its `64 - kDeadBits` live bits
    rw [BitVec.getLsbD_and, BitVec.getLsbD_not, allOnes, getLsbD_deadMask, decide_eq_true hoff,
      Bool.true_and, bit, Bool.and_comm]
    congr 1
    simp only [kWordSize] at *
    exact decide_eq_decide.mpr (by omega)
  · rw [BitVec.getLsbD_not, decide_eq_true hoff, Bool.true_and, bit,
      decide_eq_true (by simp only [kWordSize] at *; omega), Bool.true_and]

theorem complement_refines (hb : Refines b m) : Refines (complement b) m.complement := by
  refine refines_of_bit (fun k hk => ?_) fun k hk => ?_
  · rw [Bitmap.complement_bits, decide_eq_false (by omega), Bool.false_and]
  · rw [bit_complement hk, Bitmap.complement_bits, hb.bit_eq hk]

theorem bit_wordwise (op : BitVec 64 → BitVec 64 → BitVec 64) (f : Bool → Bool → Bool)
    (hop : ∀ v w j, (op v w).getLsbD j = f (v.getLsbD j) (w.getLsbD j)) {k : Nat}
    (hk : k < kWordSize * kWords N) :
    bit (⟨fun i => if i < kWords N then op (b.bits i) (c.bits i) else 0⟩ : Words N) k =
      f (bit b k) (bit c k) := by
  rw [bit]
  dsimp only
  rw [if_pos (div_lt_kWords hk), hop]
  rfl

theorem wordwise_refines (op : BitVec 64 → BitVec 64 → BitVec 64) (f : Bool → Bool → Bool)
    (hop : ∀ v w j, (op v w).getLsbD j = f (v.getLsbD j) (w.getLsbD j)) (hf : f false false = false)
    (hb : Refines b m) (hc : Refines c m') :
    Refines (⟨fun i => if i < kWords N then op (b.bits i) (c.bits i) else 0⟩ : Words N)
      ⟨fun k => f (m.bits k) (m'.bits k)⟩ := by
  refine refines_of_bit (fun k hk => ?_) fun k hk => ?_
  · dsimp only
    rw [hb.bits_of_ge hk, hc.bits_of_ge hk, hf]
  · rw [bit_wordwise op f hop hk, hb.bit_eq hk, hc.bit_eq hk]

theorem and_refines (hb : Refines b m) (hc : Refines c m') : Refines (and b c) (m.and m') :=
  wordwise_refines _ (· && ·) (fun _ _ _ => BitVec.getLsbD_and) rfl hb hc

theorem or_refines (hb : Refines b m) (hc : Refines c m') : Refines (or b c) (m.or m') :=
  wordwise_refines _ (· || ·) (fun _ _ _ => BitVec.getLsbD_or) rfl hb hc

theorem xor_refines (hb : Refines b m) (hc : Refines c m') : Refines (xor b c) (m.xor m') :=
  wordwise_refines _ (· ^^ ·) (fun _ _ _ => BitVec.getLsbD_xor) rfl hb hc

end Whole

/-! ### `PopBatch` and `ClearLowestBit` -/

section Pop

variable {b : Words N} {m : Bitmap N}

theorem popWord_eq (i limit : Nat) :
    ∀ (fuel : Nat) (word : BitVec 64) (count : Nat), (setBits word).length ≤ fuel →
      (popWord i limit fuel word count).1 =
          ((setBits word).take (limit - count)).map (fun j => i * kWordSize + j) ∧
        (∀ j, (popWord i limit fuel word count).2.1.getLsbD j =
          (word.getLsbD j && decide (j ∉ (setBits word).take (limit - count)))) ∧
        (popWord i limit fuel word count).2.2 =
          count + ((setBits word).take (limit - count)).length
  | 0, word, count, hfuel => by
    rw [List.eq_nil_of_length_eq_zero (Nat.le_zero.mp hfuel)]
    simp [popWord]
  | fuel + 1, word, count, hfuel => by
    by_cases hgo : word ≠ 0 ∧ count < limit
    · -- one round visits the lowest set bit and clears it
      have hbits := setBits_of_ne_zero hgo.1
      rw [hbits, List.length_cons] at hfuel
      obtain ⟨h1, h2, h3⟩ := popWord_eq i limit fuel (word &&& (word - 1#64)) (count + 1)
        (by omega)
      have hlim : limit - count = limit - (count + 1) + 1 := by omega
      rw [popWord, if_pos hgo]
      dsimp only
      refine ⟨?_, fun j => ?_, ?_⟩
      · rw [hbits, hlim, List.take_succ_cons, List.map_cons, ← h1]
      · rw [h2, getLsbD_and_sub_one hgo.1]
        simp only [hbits, hlim, List.take_succ_cons, List.mem_cons, not_or]
        by_cases hj : j = countrZero word <;> simp [hj]
      · rw [h3, hbits, hlim, List.take_succ_cons, List.length_cons]
        omega
    · -- the loop stops: the word is empty or `limit` bits were visited
      have hnil : (setBits word).take (limit - count) = [] := by
        rcases not_and_or.mp hgo with h | h
        · rw [not_not.mp h, setBits_zero, List.take_nil]
        · rw [show limit - count = 0 by omega, List.take_zero]
      rw [popWord, if_neg hgo, hnil]
      simp

/-- The set bits of words `[i, i + fuel)`, as bits of the map, in increasing order. -/
def setBitsFrom (b : Words N) (fuel i : Nat) : List Nat :=
  (List.range' (kWordSize * i) (kWordSize * fuel)).filter (bit b)

theorem setBitsFrom_succ (b : Words N) (fuel i : Nat) :
    setBitsFrom b (fuel + 1) i =
      (setBits (b.bits i)).map (fun j => i * kWordSize + j) ++ setBitsFrom b fuel (i + 1) := by
  have hsplit : List.range' (kWordSize * i) (kWordSize * (fuel + 1)) =
      List.range' (kWordSize * i) kWordSize ++ List.range' (kWordSize * (i + 1)) (kWordSize * fuel) := by
    have h1 : kWordSize * (i + 1) = kWordSize * i + 1 * kWordSize := by rw [Nat.one_mul, Nat.mul_succ]
    have h2 : kWordSize * (fuel + 1) = kWordSize + kWordSize * fuel := by
      rw [Nat.mul_succ, Nat.add_comm]
    rw [h1, List.range'_append, h2]
  rw [setBitsFrom, hsplit, List.filter_append, ← setBitsFrom]
  congr 1
  rw [List.range'_eq_map_range, List.filter_map, setBits]
  simp only [kWordSize]
  rw [show (fun x => 64 * i + x) = (fun j => i * 64 + j) from funext fun x => by rw [Nat.mul_comm]]
  congr 1
  refine List.filter_congr fun j hj => ?_
  rw [Function.comp_apply, Nat.mul_comm, ← bit_word b i (List.mem_range.mp hj)]
  rfl

theorem mem_setBitsFrom {fuel i k : Nat} (hk : k ∈ setBitsFrom b fuel i) :
    kWordSize * i ≤ k ∧ k < kWordSize * i + kWordSize * fuel ∧ bit b k = true := by
  rw [setBitsFrom, List.mem_filter, List.mem_range'_1] at hk
  exact ⟨hk.1.1, hk.1.2, hk.2⟩

theorem setBitsFrom_setWord (b : Words N) (fuel i : Nat) (w : BitVec 64) :
    setBitsFrom (setWord b i w) fuel (i + 1) = setBitsFrom b fuel (i + 1) := by
  refine List.filter_congr fun k hk => ?_
  rw [List.mem_range'_1] at hk
  rw [bit_setWord, if_neg (by simp only [kWordSize] at *; omega)]

theorem mem_map_word {S : List Nat} (hS : ∀ j ∈ S, j < kWordSize) {i k : Nat} :
    k ∈ S.map (fun j => i * kWordSize + j) ↔ k / kWordSize = i ∧ k % kWordSize ∈ S := by
  rw [List.mem_map]
  constructor
  · rintro ⟨j, hj, rfl⟩
    have := hS j hj
    simp only [kWordSize] at *
    refine ⟨by omega, ?_⟩
    rw [show (i * 64 + j) % 64 = j by omega]
    exact hj
  · rintro ⟨hk, hmem⟩
    refine ⟨k % kWordSize, hmem, ?_⟩
    rw [← hk, Nat.mul_comm, Nat.div_add_mod]

theorem lt_of_mem_take_setBits {w : BitVec 64} {n j : Nat} (hj : j ∈ (setBits w).take n) :
    j < kWordSize := by
  have := List.mem_of_mem_take hj
  rw [setBits, List.mem_filter, List.mem_range] at this
  exact this.1

theorem popFrom_eq (limit : Nat) :
    ∀ (fuel i count : Nat) (b : Words N),
      (popFrom b limit fuel i count).1 = (setBitsFrom b fuel i).take (limit - count) ∧
        (∀ k, bit (popFrom b limit fuel i count).2.1 k =
          (bit b k && decide (k ∉ (setBitsFrom b fuel i).take (limit - count)))) ∧
        (popFrom b limit fuel i count).2.2 =
          count + ((setBitsFrom b fuel i).take (limit - count)).length
  | 0, i, count, b => by
    have hnil : setBitsFrom b 0 i = [] := by
      rw [setBitsFrom, Nat.mul_zero, List.range'_zero, List.filter_nil]
    rw [hnil]
    simp [popFrom]
  | fuel + 1, i, count, b => by
    by_cases hdone : limit ≤ count
    · rw [popFrom, if_pos hdone, show limit - count = 0 by omega, List.take_zero]
      simp
    rw [popFrom, if_neg hdone]
    dsimp only
    -- the inner loop on word `i`, then the words after it
    obtain ⟨h1, h2, h3⟩ := popWord_eq i limit kWordSize (b.bits i) count (length_setBits_le _)
    obtain ⟨ih1, ih2, ih3⟩ := popFrom_eq limit fuel (i + 1)
      (popWord i limit kWordSize (b.bits i) count).2.2
      (setWord b i (popWord i limit kWordSize (b.bits i) count).2.1)
    have hrest : limit - (popWord i limit kWordSize (b.bits i) count).2.2 =
        limit - count - ((setBits (b.bits i)).map (fun j => i * kWordSize + j)).length := by
      rw [h3, List.length_take, List.length_map]
      omega
    rw [setBitsFrom_setWord, hrest] at ih1 ih2 ih3
    rw [setBitsFrom_succ, List.take_append]
    refine ⟨?_, fun k => ?_, ?_⟩
    · rw [ih1, h1, List.map_take]
    · have hmem : k ∈ ((setBits (b.bits i)).map (fun j => i * kWordSize + j)).take (limit - count) ↔
          k / kWordSize = i ∧ k % kWordSize ∈ (setBits (b.bits i)).take (limit - count) := by
        rw [← List.map_take, mem_map_word fun j hj => lt_of_mem_take_setBits hj]
      rw [ih2, bit_setWord]
      by_cases hk : k / kWordSize = i
      · -- a bit of word `i` is not among the later words' bits
        have hlater : k ∉ (setBitsFrom b fuel (i + 1)).take
            (limit - count - ((setBits (b.bits i)).map (fun j => i * kWordSize + j)).length) :=
          fun hmem => by
            have := (mem_setBitsFrom (List.mem_of_mem_take hmem)).1
            simp only [kWordSize] at *
            omega
        rw [if_pos hk, h2, bit, hk]
        simp only [List.mem_append, hmem, hlater, hk, true_and, or_false, not_false_eq_true,
          decide_true, Bool.and_true]
      · rw [if_neg hk]
        simp only [List.mem_append, hmem, hk, false_and, false_or]
    · rw [ih3, h3]
      simp only [List.length_append, List.length_map, List.length_take]
      omega

theorem setBitsFrom_eq (hb : Refines b m) :
    setBitsFrom b (kWords N) 0 = (List.range N).filter m.bits := by
  have hkW := le_mul_kWords (N := N)
  have hsplit : List.range' (kWordSize * 0) (kWordSize * kWords N) =
      List.range' 0 N ++ List.range' N (kWordSize * kWords N - N) := by
    have happ := @List.range'_append 0 N (kWordSize * kWords N - N) 1
    rw [Nat.zero_add, Nat.one_mul, Nat.add_sub_cancel' hkW] at happ
    rw [Nat.mul_zero, happ]
  rw [setBitsFrom, hsplit, List.filter_append, ← List.range_eq_range']
  have hdead : (List.range' N (kWordSize * kWords N - N)).filter (bit b) = [] :=
    List.filter_eq_nil_iff.mpr fun k hk => by
      rw [List.mem_range'_1] at hk
      rw [hb.1 k hk.1 (by omega)]
      simp
  rw [hdead, List.append_nil]
  exact List.filter_congr fun k hk => hb.bit_eq (by
    have := List.mem_range.mp hk
    omega)

theorem popBatch_refines (hb : Refines b m) (limit : Nat) :
    (popBatch b limit).1 = (m.popBatch limit).1 ∧ Refines (popBatch b limit).2.1 (m.popBatch limit).2 ∧
      (popBatch b limit).2.2 = (m.popBatch limit).1.length := by
  obtain ⟨h1, h2, h3⟩ := popFrom_eq limit (kWords N) 0 0 b
  rw [setBitsFrom_eq hb, Nat.sub_zero] at h1 h2 h3
  rw [Bitmap.popBatch]
  dsimp only
  refine ⟨h1, refines_of_bit (fun k hk => ?_) (fun k hk => ?_), by rw [popBatch, h3, Nat.zero_add]⟩
  · dsimp only
    split_ifs
    · rfl
    · exact hb.bits_of_ge hk
  · rw [popBatch, h2, hb.bit_eq hk]
    by_cases hmem : k ∈ ((List.range N).filter m.bits).take limit <;> simp [hmem]

theorem popFrom_of_le {limit count : Nat} (h : limit ≤ count) (b : Words N) (fuel i : Nat) :
    popFrom b limit fuel i count = ([], b, count) := by
  cases fuel with
  | zero => rfl
  | succ fuel => rw [popFrom, if_pos h]

theorem clearLowestFrom_eq (b : Words N) : ∀ fuel i, clearLowestFrom b fuel i = (popFrom b 1 fuel i 0).2.1
  | 0, _ => rfl
  | fuel + 1, i => by
    obtain ⟨-, h2, h3⟩ := popWord_eq i 1 kWordSize (b.bits i) 0 (length_setBits_le _)
    rw [clearLowestFrom, popFrom, if_neg (show ¬1 ≤ 0 by omega)]
    by_cases hw : b.bits i = 0
    · -- an empty word is written back unchanged
      have hword : (popWord i 1 kWordSize (b.bits i) 0).2.1 = b.bits i :=
        BitVec.eq_of_getLsbD_eq fun j _ => by rw [h2, hw, setBits_zero]; simp
      rw [if_neg (not_not.mpr hw), clearLowestFrom_eq b fuel (i + 1)]
      dsimp only
      rw [hword, setWord_self, h3, hw, setBits_zero]
      rfl
    · -- the first non-empty word loses its lowest bit, and the count reaches the limit
      have hbits := setBits_of_ne_zero hw
      have hword : (popWord i 1 kWordSize (b.bits i) 0).2.1 = b.bits i &&& (b.bits i - 1#64) :=
        BitVec.eq_of_getLsbD_eq fun j _ => by
          rw [h2, getLsbD_and_sub_one hw, hbits]
          simp
      have hcount : (popWord i 1 kWordSize (b.bits i) 0).2.2 = 1 := by
        rw [h3, hbits]
        rfl
      rw [if_pos hw]
      dsimp only
      rw [hword, hcount, popFrom_of_le (Nat.le_refl 1)]

theorem clearLowestBit_eq_popBatch (b : Words N) : clearLowestBit b = (popBatch b 1).2.1 :=
  clearLowestFrom_eq b (kWords N) 0

/-- The visits cross into the second word once the first is exhausted. -/
example : (popBatch (setWord (setWord (empty : Words 100) 0 0x90) 1 0x5) 3).1 = [4, 7, 64] := by
  decide

theorem clearLowestBit_refines (hb : Refines b m) : Refines (clearLowestBit b) (m.popBatch 1).2 := by
  rw [clearLowestBit_eq_popBatch]
  exact (popBatch_refines hb 1).2.1

end Pop

/-! ### `FindValue` -/

section Find

variable {b : Words N} {m : Bitmap N} (goal : Bool)

/-- A word of the forward scan: its bits are the map's bits in word `word` equal to
`goal`, from `start` on. -/
def ScanUpWord (b : Words N) (start word : Nat) (here : BitVec 64) : Prop :=
  ∀ j < 64, here.getLsbD j =
    (decide (start ≤ kWordSize * word + j) && (bit b (kWordSize * word + j) == goal))

theorem scanUp_found {start word : Nat} {here : BitVec 64} (hhere : ScanUpWord goal b start word here)
    (hne : here ≠ 0) (hbefore : NoneIn (fun k => bit b k == goal) start (kWordSize * word)) :
    start ≤ countrZero here + word * kWordSize ∧
      (bit b (countrZero here + word * kWordSize) == goal) = true ∧
      NoneIn (fun k => bit b k == goal) start (countrZero here + word * kWordSize) := by
  obtain ⟨hlt, hset, hbelow⟩ := countrZero_spec hne
  have hpos : countrZero here + word * kWordSize = kWordSize * word + countrZero here := by
    rw [Nat.add_comm, Nat.mul_comm]
  rw [hhere _ hlt, Bool.and_eq_true, decide_eq_true_iff] at hset
  rw [hpos]
  refine ⟨hset.1, hset.2, fun k hk hk' => ?_⟩
  rcases Nat.lt_or_ge k (kWordSize * word) with hkw | hkw
  · exact hbefore k hk hkw
  · -- below the lowest bit of `here`, within its word
    have hj := hbelow (k - kWordSize * word) (by omega)
    rw [hhere _ (by simp only [kWordSize] at *; omega), Nat.add_sub_cancel' hkw,
      decide_eq_true hk, Bool.true_and] at hj
    exact hj

theorem scanUp_empty {start word : Nat} (hhere : ScanUpWord goal b start word 0)
    (hbefore : NoneIn (fun k => bit b k == goal) start (kWordSize * word)) :
    NoneIn (fun k => bit b k == goal) start (kWordSize * (word + 1)) := fun k hk hk' => by
  rcases Nat.lt_or_ge k (kWordSize * word) with hkw | hkw
  · exact hbefore k hk hkw
  · have hj := hhere (k - kWordSize * word) (by simp only [kWordSize] at *; omega)
    rw [Nat.add_sub_cancel' hkw, decide_eq_true hk, Bool.true_and] at hj
    show (bit b k == goal) = false
    rw [← hj]
    simp

theorem scanUpWord_next (b : Words N) {start word : Nat} (hstart : start ≤ kWordSize * (word + 1)) :
    ScanUpWord goal b start (word + 1) (goalWord goal (b.bits (word + 1))) := fun j hj => by
  rw [getLsbD_goalWord goal _ hj, decide_eq_true (by omega), Bool.true_and,
    bit_word b (word + 1) hj]

theorem scanUp_spec (b : Words N) (start : Nat) :
    ∀ (fuel word : Nat) (here : BitVec 64), word < kWords N → kWords N ≤ word + 1 + fuel →
      start ≤ kWordSize * (word + 1) → ScanUpWord goal b start word here →
      NoneIn (fun k => bit b k == goal) start (kWordSize * word) →
      (scanUp goal b fuel word here = none →
          NoneIn (fun k => bit b k == goal) start (kWordSize * kWords N)) ∧
        ∀ w h, scanUp goal b fuel word here = some (w, h) →
          start ≤ countrZero h + w * kWordSize ∧ countrZero h + w * kWordSize < kWordSize * kWords N ∧
            (bit b (countrZero h + w * kWordSize) == goal) = true ∧
            NoneIn (fun k => bit b k == goal) start (countrZero h + w * kWordSize)
  | fuel, word, here, hword, hfuel, hstart, hhere, hbefore => by
    by_cases hne : here ≠ 0
    · -- found in this word
      have hres : scanUp goal b fuel word here = some (word, here) := by
        cases fuel <;> rw [scanUp, if_pos hne]
      obtain ⟨h1, h2, h3⟩ := scanUp_found goal hhere hne hbefore
      have hlt := (countrZero_spec hne).1
      refine ⟨fun hnone => ?_, fun w h hsome => ?_⟩
      · rw [hres] at hnone
        cases hnone
      rw [hres, Option.some.injEq, Prod.mk.injEq] at hsome
      obtain ⟨rfl, rfl⟩ := hsome
      refine ⟨h1, ?_, h2, h3⟩
      simp only [kWordSize] at *
      omega
    rw [not_not] at hne
    subst hne
    have hnext := scanUp_empty goal hhere hbefore
    cases fuel with
    | zero =>
      have hlast : word + 1 = kWords N := by omega
      rw [scanUp, if_neg (not_not.mpr rfl)]
      refine ⟨fun _ => ?_, fun _ _ hsome => ?_⟩
      · rw [← hlast]
        exact hnext
      · cases hsome
    | succ fuel =>
      rw [scanUp, if_neg (not_not.mpr rfl)]
      by_cases hend : kWords N ≤ word + 1
      · rw [if_pos hend]
        have hlast : word + 1 = kWords N := by omega
        refine ⟨fun _ => ?_, fun _ _ hsome => ?_⟩
        · rw [← hlast]
          exact hnext
        · cases hsome
      · rw [if_neg hend]
        exact scanUp_spec b start fuel (word + 1) _ (by omega) (by omega)
          (by simp only [kWordSize] at *; omega) (scanUpWord_next goal b (by omega)) hnext

theorem findValue_eq (hb : Refines b m) {index : Nat} (hi : index < N) :
    findValue goal b index = some (m.findValue goal index) := by
  have hkW := le_mul_kWords (N := N)
  have hoff : index % kWordSize < 64 := Nat.mod_lt _ (by decide)
  have hdiv := Nat.div_add_mod index kWordSize
  rw [findValue, check, if_pos hi, check, if_pos (word_lt_kWords hi)]
  -- the first word, masked below `index`
  have hhere : ScanUpWord goal b index (index / kWordSize)
      (goalWord goal (b.bits (index / kWordSize)) &&& (allOnes <<< (index % kWordSize))) :=
    fun j hj => by
      rw [BitVec.getLsbD_and, getLsbD_goalWord goal _ hj, allOnes, getLsbD_highMask,
        decide_eq_true hj, Bool.true_and, bit_word b _ hj, Bool.and_comm]
      congr 1
      exact decide_eq_decide.mpr (by simp only [kWordSize] at *; omega)
  obtain ⟨hnone, hsome⟩ := scanUp_spec goal b index (kWords N) (index / kWordSize) _
    (word_lt_kWords hi) (Nat.le_add_left _ _) (by simp only [kWordSize] at *; omega) hhere
    (fun k hk hk' => by simp only [kWordSize] at *; omega)
  have habs : ∀ j, index ≤ j → j ≤ N → NoneIn (fun k => bit b k == goal) index j →
      (j < N → (bit b j == goal) = true) → m.findValue goal index = j := fun j h1 h2 hbefore hhit =>
    firstFrom_eq _ _ _ _ h1 (by omega)
      (fun k hk hk' => by rw [← hb.bit_eq (by omega)]; exact hbefore k hk hk')
      (fun hj => by rw [← hb.bit_eq (by omega)]; exact hhit (by omega))
  cases hscan : scanUp goal b (kWords N) (index / kWordSize)
      (goalWord goal (b.bits (index / kWordSize)) &&& (allOnes <<< (index % kWordSize))) with
  | none =>
    -- past the last word: no bit below `N` equals `goal`
    dsimp only
    rw [habs N hi.le le_rfl (fun k hk hk' => hnone hscan k hk (by omega)) (fun h => absurd h (lt_irrefl N))]
  | some r =>
    obtain ⟨w, h⟩ := r
    obtain ⟨h1, h2, h3, h4⟩ := hsome w h hscan
    dsimp only
    -- the code's result is the found bit, clamped to `N`
    have hmin : m.findValue goal index = min (countrZero h + w * kWordSize) N :=
      habs _ (by omega) (Nat.min_le_right _ _)
        (fun k hk hk' => h4 k hk (by omega))
        (fun hlt => by rw [Nat.min_eq_left (by omega)]; exact h3)
    rw [hmin]
    have hdead := kDeadBits_add (N := N)
    by_cases hd : 0 < kDeadBits N
    · rw [if_pos hd]
      cases goal
      · rfl
      · -- a set bit is never a dead bit
        have hlive : countrZero h + w * kWordSize < N := by
          by_contra hge
          rw [hb.1 _ (by omega) h2] at h3
          cases h3
        rw [if_pos rfl, check, if_pos hlive, Nat.min_eq_left hlive.le]
    · rw [if_neg hd, Nat.min_eq_left (by omega)]

theorem findSet_eq (hb : Refines b m) {index : Nat} (hi : index < N) :
    findSet b index = some (m.findSet index) :=
  findValue_eq true hb hi

theorem findClear_eq (hb : Refines b m) {index : Nat} (hi : index < N) :
    findClear b index = some (m.findClear index) :=
  findValue_eq false hb hi

/-- On a full map of 100 bits the search for a clear bit runs into the dead bits of the
last word and clamps to `N`. -/
example : findClear (complement (empty : Words 100)) 3 = some 100 := by decide

/-- A word of the backward scan: its bits are the map's bits in word `word` equal to
`goal`, up to `stop`. -/
def ScanDownWord (b : Words N) (stop word : Nat) (here : BitVec 64) : Prop :=
  ∀ j < 64, here.getLsbD j =
    (decide (kWordSize * word + j ≤ stop) && (bit b (kWordSize * word + j) == goal))

theorem scanDown_found {stop word : Nat} {here : BitVec 64}
    (hhere : ScanDownWord goal b stop word here) (hne : here ≠ 0)
    (hafter : NoneIn (fun k => bit b k == goal) (kWordSize * (word + 1)) (stop + 1)) :
    Lib.Word64.bitWidth here - 1 + word * kWordSize ≤ stop ∧
      (bit b (Lib.Word64.bitWidth here - 1 + word * kWordSize) == goal) = true ∧
      NoneIn (fun k => bit b k == goal) (Lib.Word64.bitWidth here - 1 + word * kWordSize + 1)
        (stop + 1) := by
  obtain ⟨hpos, hle, hset, habove⟩ := bitWidth_spec hne
  have hidx : Lib.Word64.bitWidth here - 1 + word * kWordSize =
      kWordSize * word + (Lib.Word64.bitWidth here - 1) := by
    rw [Nat.add_comm, Nat.mul_comm]
  rw [hhere _ (by omega), Bool.and_eq_true, decide_eq_true_iff] at hset
  rw [hidx]
  refine ⟨hset.1, hset.2, fun k hk hk' => ?_⟩
  rcases Nat.lt_or_ge k (kWordSize * (word + 1)) with hkw | hkw
  · -- above the highest bit of `here`, within its word
    have hj := habove (k - kWordSize * word) (by omega)
    rw [hhere _ (by simp only [kWordSize] at *; omega), Nat.add_sub_cancel' (by
      simp only [kWordSize] at *; omega), decide_eq_true (by omega), Bool.true_and] at hj
    exact hj
  · exact hafter k hkw hk'

theorem scanDown_empty {stop word : Nat} (hhere : ScanDownWord goal b stop word 0)
    (hafter : NoneIn (fun k => bit b k == goal) (kWordSize * (word + 1)) (stop + 1)) :
    NoneIn (fun k => bit b k == goal) (kWordSize * word) (stop + 1) := fun k hk hk' => by
  rcases Nat.lt_or_ge k (kWordSize * (word + 1)) with hkw | hkw
  · have hj := hhere (k - kWordSize * word) (by simp only [kWordSize] at *; omega)
    rw [Nat.add_sub_cancel' hk, decide_eq_true (by omega), Bool.true_and] at hj
    show (bit b k == goal) = false
    rw [← hj]
    simp
  · exact hafter k hkw hk'

theorem scanDownWord_prev (b : Words N) {stop word : Nat} (hstop : kWordSize * word ≤ stop)
    (hword : word ≠ 0) :
    ScanDownWord goal b stop (word - 1) (goalWord goal (b.bits (word - 1))) := fun j hj => by
  rw [getLsbD_goalWord goal _ hj, decide_eq_true (by simp only [kWordSize] at *; omega),
    Bool.true_and, bit_word b (word - 1) hj]

theorem scanDown_spec (b : Words N) (stop : Nat) :
    ∀ (fuel word : Nat) (here : BitVec 64), word ≤ fuel → kWordSize * word ≤ stop →
      ScanDownWord goal b stop word here →
      NoneIn (fun k => bit b k == goal) (kWordSize * (word + 1)) (stop + 1) →
      (scanDown goal b fuel word here = none → NoneIn (fun k => bit b k == goal) 0 (stop + 1)) ∧
        ∀ w h, scanDown goal b fuel word here = some (w, h) →
          Lib.Word64.bitWidth h - 1 + w * kWordSize ≤ stop ∧
            (bit b (Lib.Word64.bitWidth h - 1 + w * kWordSize) == goal) = true ∧
            NoneIn (fun k => bit b k == goal) (Lib.Word64.bitWidth h - 1 + w * kWordSize + 1)
              (stop + 1)
  | fuel, word, here, hfuel, hstop, hhere, hafter => by
    by_cases hne : here ≠ 0
    · -- found in this word
      have hres : scanDown goal b fuel word here = some (word, here) := by
        cases fuel <;> rw [scanDown, if_pos hne]
      refine ⟨fun hnone => ?_, fun w h hsome => ?_⟩
      · rw [hres] at hnone
        cases hnone
      rw [hres, Option.some.injEq, Prod.mk.injEq] at hsome
      obtain ⟨rfl, rfl⟩ := hsome
      exact scanDown_found goal hhere hne hafter
    rw [not_not] at hne
    subst hne
    have hnext := scanDown_empty goal hhere hafter
    have hstop0 : word = 0 → NoneIn (fun k => bit b k == goal) 0 (stop + 1) := fun h0 => by
      rw [h0, Nat.mul_zero] at hnext
      exact hnext
    cases fuel with
    | zero =>
      rw [scanDown, if_neg (not_not.mpr rfl)]
      exact ⟨fun _ => hstop0 (by omega), fun _ _ hsome => by cases hsome⟩
    | succ fuel =>
      rw [scanDown, if_neg (not_not.mpr rfl)]
      by_cases hbottom : word = 0
      · rw [if_pos hbottom]
        exact ⟨fun _ => hstop0 hbottom, fun _ _ hsome => by cases hsome⟩
      · rw [if_neg hbottom]
        exact scanDown_spec b stop fuel (word - 1) _ (by omega)
          (by simp only [kWordSize] at *; omega) (scanDownWord_prev goal b hstop hbottom)
          (by rw [Nat.sub_add_cancel (Nat.pos_of_ne_zero hbottom)]; exact hnext)

theorem findValueBackwards_eq (hb : Refines b m) {index : Nat} (hi : index < N) :
    findValueBackwards goal b index = some (m.findValueBackwards goal index) := by
  have hkW := le_mul_kWords (N := N)
  have hoff : index % kWordSize < 64 := Nat.mod_lt _ (by decide)
  have hdiv := Nat.div_add_mod index kWordSize
  rw [findValueBackwards, check, if_pos hi, check, if_pos (word_lt_kWords hi)]
  -- the first word, masked above `index`
  have hhere : ScanDownWord goal b index (index / kWordSize)
      (goalWord goal (b.bits (index / kWordSize)) &&& ((2#64 <<< (index % kWordSize)) - 1#64)) :=
    fun j hj => by
      rw [BitVec.getLsbD_and, getLsbD_goalWord goal _ hj, getLsbD_lowMask hoff,
        bit_word b _ hj, Bool.and_comm]
      congr 1
      exact decide_eq_decide.mpr (by simp only [kWordSize] at *; omega)
  obtain ⟨hnone, hsome⟩ := scanDown_spec goal b index (index / kWordSize) (index / kWordSize) _
    le_rfl (by simp only [kWordSize] at *; omega) hhere
    (fun k hk hk' => by simp only [kWordSize] at *; omega)
  have habs : ∀ r : Int, -1 ≤ r → r ≤ index →
      (∀ k : Nat, r < k → k ≤ index → (bit b k == goal) = false) →
      (0 ≤ r → (bit b r.toNat == goal) = true) → m.findValueBackwards goal index = r :=
    fun r h1 h2 hafter hhit =>
      lastAtOrBelow_eq _ index r h1 h2
        (fun k hk hk' => by rw [← hb.bit_eq (by omega)]; exact hafter k hk hk')
        (fun hr => by rw [← hb.bit_eq (by omega)]; exact hhit hr)
  cases hscan : scanDown goal b (index / kWordSize) (index / kWordSize)
      (goalWord goal (b.bits (index / kWordSize)) &&& ((2#64 <<< (index % kWordSize)) - 1#64)) with
  | none =>
    -- below word `0`: no bit up to `index` equals `goal`
    dsimp only
    rw [habs (-1) le_rfl (by omega) (fun k _ hk' => hnone hscan k (Nat.zero_le k) (by omega))
      (fun h => absurd h (by decide))]
  | some r =>
    obtain ⟨w, h⟩ := r
    obtain ⟨h1, h2, h3⟩ := hsome w h hscan
    dsimp only
    rw [habs ((Lib.Word64.bitWidth h - 1 + w * kWordSize : Nat) : Int) (by omega) (by omega)
      (fun k hk hk' => h3 k (by omega) (by omega)) (fun _ => by rw [Int.toNat_natCast]; exact h2)]

theorem findSetBackwards_eq (hb : Refines b m) {index : Nat} (hi : index < N) :
    findSetBackwards b index = some (m.findSetBackwards index) :=
  findValueBackwards_eq true hb hi

theorem findClearBackwards_eq (hb : Refines b m) {index : Nat} (hi : index < N) :
    findClearBackwards b index = some (m.findValueBackwards false index) :=
  findValueBackwards_eq false hb hi

end Find

/-! ### Runs of calls -/

/-- The calls that change a map. -/
inductive Op
  | setBit (i : Nat)
  | clearBit (i : Nat)
  | setRange (index n : Nat)
  | clearRange (index n : Nat)
  | clearLowestBit
  | popBatch (limit : Nat)
  | clear
  | complement
  deriving DecidableEq, Repr

/-- A call on the words; `none` when a check of the code fails. -/
def runOp (b : Words N) : Op → Option (Words N)
  | .setBit i => (setBit b i).map Prod.snd
  | .clearBit i => (clearBit b i).map Prod.snd
  | .setRange index n => setRange b index n
  | .clearRange index n => clearRange b index n
  | .clearLowestBit => some (clearLowestBit b)
  | .popBatch limit => some (popBatch b limit).2.1
  | .clear => some (clear b)
  | .complement => some (complement b)

/-- The same call on the bit sequence. -/
def runOpBitmap (m : Bitmap N) : Op → Bitmap N
  | .setBit i => m.setBit i
  | .clearBit i => m.clearBit i
  | .setRange index n => m.setRange index n
  | .clearRange index n => m.clearRange index n
  | .clearLowestBit => (m.popBatch 1).2
  | .popBatch limit => (m.popBatch limit).2
  | .clear => Bitmap.empty
  | .complement => m.complement

/-- The arguments pass the checks the code makes. -/
def Op.Valid (N : Nat) : Op → Prop
  | .setBit i | .clearBit i => i < N
  | .setRange index n | .clearRange index n => 0 < n ∧ index + n ≤ N
  | _ => True

instance (N : Nat) : DecidablePred (Op.Valid N) := fun op => by
  cases op <;> unfold Op.Valid <;> infer_instance

/-- Calls in order on the words, stopping at the first failed check. -/
def runOps (b : Words N) (ops : List Op) : Option (Words N) := ops.foldlM runOp b

theorem refines_empty : Refines (empty : Words N) Bitmap.empty :=
  refines_of_bit (fun _ _ => rfl) fun k _ => by simp [bit, empty]

section Runs

variable {b : Words N} {m : Bitmap N}

theorem runOp_refines (hb : Refines b m) {op : Op} (hv : op.Valid N) :
    ∃ b', runOp b op = some b' ∧ Refines b' (runOpBitmap m op) := by
  cases op with
  | setBit i =>
    obtain ⟨b', h, hr⟩ := setBit_refines hb hv
    exact ⟨b', by rw [runOp, h]; rfl, hr⟩
  | clearBit i =>
    obtain ⟨b', h, hr⟩ := clearBit_refines hb hv
    exact ⟨b', by rw [runOp, h]; rfl, hr⟩
  | setRange index n => exact setRange_refines hb hv.1 hv.2
  | clearRange index n => exact clearRange_refines hb hv.1 hv.2
  | clearLowestBit => exact ⟨_, rfl, clearLowestBit_refines hb⟩
  | popBatch limit => exact ⟨_, rfl, (popBatch_refines hb limit).2.1⟩
  | clear => exact ⟨_, rfl, clear_refines b⟩
  | complement => exact ⟨_, rfl, complement_refines hb⟩

theorem runOps_refines :
    ∀ (ops : List Op) {b : Words N} {m : Bitmap N}, Refines b m → (∀ op ∈ ops, op.Valid N) →
      ∃ b', runOps b ops = some b' ∧ Refines b' (ops.foldl runOpBitmap m)
  | [], b, _, hb, _ => ⟨b, rfl, hb⟩
  | op :: ops, _, _, hb, hv => by
    obtain ⟨b₁, h₁, hr₁⟩ := runOp_refines hb (hv op List.mem_cons_self)
    obtain ⟨b₂, h₂, hr₂⟩ := runOps_refines ops hr₁ fun o ho => hv o (List.mem_cons_of_mem _ ho)
    refine ⟨b₂, ?_, hr₂⟩
    rw [runOps, List.foldlM_cons, h₁]
    exact h₂

end Runs

/-- The word-level `Bitmap<N>` refines the bit sequence for every `N`, on every map whose
dead bits are clear: each call with arguments that pass its checks keeps them clear and
does what the bit-sequence model does. -/
theorem bitmap_words_refine_bitmap {N : Nat} {b : Words N} {m : Bitmap N} (hb : Refines b m) :
    (∀ i < N, getBit b i = some (m.getBit i)) ∧
      (∀ i < N, ∃ b', setBit b i = some (m.getBit i, b') ∧ Refines b' (m.setBit i)) ∧
      (∀ i < N, ∃ b', clearBit b i = some (m.getBit i, b') ∧ Refines b' (m.clearBit i)) ∧
      (∀ index n, 0 < n → index + n ≤ N →
        ∃ b', setRange b index n = some b' ∧ Refines b' (m.setRange index n)) ∧
      (∀ index n, 0 < n → index + n ≤ N →
        ∃ b', clearRange b index n = some b' ∧ Refines b' (m.clearRange index n)) ∧
      Refines (clearLowestBit b) (m.popBatch 1).2 ∧
      (∀ limit, (popBatch b limit).1 = (m.popBatch limit).1 ∧
        Refines (popBatch b limit).2.1 (m.popBatch limit).2 ∧
        (popBatch b limit).2.2 = min limit m.countBits) ∧
      Refines (clear b) Bitmap.empty ∧
      Refines (complement b) m.complement ∧
      (∀ (c : Words N) (m' : Bitmap N), Refines c m' →
        Refines (and b c) (m.and m') ∧ Refines (or b c) (m.or m') ∧ Refines (xor b c) (m.xor m')) ∧
      (∀ i < N, findSet b i = some (m.findSet i) ∧ findClear b i = some (m.findClear i) ∧
        findSetBackwards b i = some (m.findSetBackwards i) ∧
        findClearBackwards b i = some (m.findValueBackwards false i)) ∧
      (∀ index n, index + n ≤ N → countBits b index n = some (m.countBitsIn index n)) ∧
      (∀ ops : List Op, (∀ op ∈ ops, op.Valid N) →
        ∃ b', runOps b ops = some b' ∧ Refines b' (ops.foldl runOpBitmap m)) := by
  refine ⟨fun i hi => getBit_eq hb hi, fun i hi => setBit_refines hb hi,
    fun i hi => clearBit_refines hb hi, fun _ _ hn hN => setRange_refines hb hn hN,
    fun _ _ hn hN => clearRange_refines hb hn hN, clearLowestBit_refines hb,
    fun limit => ?_, clear_refines b, complement_refines hb,
    fun _ _ hc => ⟨and_refines hb hc, or_refines hb hc, xor_refines hb hc⟩,
    fun i hi => ⟨findSet_eq hb hi, findClear_eq hb hi, findSetBackwards_eq hb hi,
      findClearBackwards_eq hb hi⟩,
    fun _ _ hN => countBits_eq hb hN, fun ops hv => runOps_refines ops hb hv⟩
  obtain ⟨h1, h2, h3⟩ := popBatch_refines hb limit
  exact ⟨h1, h2, by rw [h3, Bitmap.popBatch_length]⟩

theorem bitmap_words_refine_bitmap_hundred :
    Refines (empty : Words 100) Bitmap.empty ∧
      ∃ b', setRange (empty : Words 100) 60 10 = some b' ∧
        Refines b' ((Bitmap.empty : Bitmap 100).setRange 60 10) :=
  ⟨refines_empty, (bitmap_words_refine_bitmap refines_empty).2.2.2.1 60 10 (by decide) (by decide)⟩

/-- `SetRange(i, 0)` and `ClearRange(i, 0)` fail `SetWordBits`'s check `n > 0` rather than
leave the map as it is. -/
theorem setRange_zero_length_fails :
    setRange (empty : Words 100) 5 0 = none ∧ clearRange (empty : Words 100) 5 0 = none :=
  ⟨setRangeValue_zero true _ 5, setRangeValue_zero false _ 5⟩

end TCMalloc.Internal.BitmapWords
