import Mathlib.Data.Nat.Count

/-!
Bounded linear searches over a predicate on `Nat`: the first index at or after
a start inside a window, and the last index at or below a point.  These are the
reference semantics of word-scanning loops, together with the counting facts
that range updates of a predicate need.
-/

set_option autoImplicit false
set_option relaxedAutoImplicit false

namespace TCMalloc.Lib.Scan

/-- The first index of `[i, i + fuel)` satisfying `p`, or `i + fuel` if none does. -/
def firstFrom (p : Nat → Bool) : Nat → Nat → Nat
  | 0, i => i
  | fuel + 1, i => if p i then i else firstFrom p fuel (i + 1)

/-- The last index at or below `i` satisfying `p`, or `-1` if none does. -/
def lastAtOrBelow (p : Nat → Bool) : Nat → Int
  | 0 => if p 0 then 0 else -1
  | i + 1 => if p (i + 1) then ((i + 1 : Nat) : Int) else lastAtOrBelow p i

/-- `p` fails on every index of `[i, j)`. -/
def NoneIn (p : Nat → Bool) (i j : Nat) : Prop := ∀ k, i ≤ k → k < j → p k = false

section First

variable (p : Nat → Bool)

theorem le_firstFrom (fuel i : Nat) : i ≤ firstFrom p fuel i := by
  induction fuel generalizing i with
  | zero => simp [firstFrom]
  | succ fuel ih =>
      simp only [firstFrom]
      split
      · exact le_rfl
      · exact Nat.le_of_succ_le (ih (i + 1))

theorem firstFrom_le (fuel i : Nat) : firstFrom p fuel i ≤ i + fuel := by
  induction fuel generalizing i with
  | zero => simp [firstFrom]
  | succ fuel ih =>
      simp only [firstFrom]
      split
      · omega
      · have := ih (i + 1)
        omega

theorem noneIn_firstFrom (fuel i : Nat) : NoneIn p i (firstFrom p fuel i) := by
  induction fuel generalizing i with
  | zero =>
      intro k hik hk
      simp only [firstFrom] at hk
      omega
  | succ fuel ih =>
      intro k hik hk
      simp only [firstFrom] at hk
      split at hk
      · omega
      · rename_i hpi
        by_cases hki : k = i
        · subst hki
          simpa using hpi
        · exact ih (i + 1) k (by omega) hk

theorem firstFrom_spec (fuel i : Nat) (found : firstFrom p fuel i < i + fuel) :
    p (firstFrom p fuel i) = true := by
  induction fuel generalizing i with
  | zero => simp [firstFrom] at found
  | succ fuel ih =>
      simp only [firstFrom] at found ⊢
      split
      · assumption
      · rename_i hpi
        rw [if_neg hpi] at found
        exact ih (i + 1) (by omega)

theorem firstFrom_eq (fuel i j : Nat) (lower : i ≤ j) (upper : j ≤ i + fuel)
    (before : NoneIn p i j) (hit : j < i + fuel → p j = true) :
    firstFrom p fuel i = j := by
  have h1 := le_firstFrom p fuel i
  have h2 := firstFrom_le p fuel i
  rcases Nat.lt_trichotomy (firstFrom p fuel i) j with hlt | heq | hgt
  · have := before _ h1 hlt
    rw [firstFrom_spec p fuel i (by omega)] at this
    exact absurd this (by simp)
  · exact heq
  · have := noneIn_firstFrom p fuel i j lower hgt
    rw [hit (by omega)] at this
    exact absurd this (by simp)

theorem firstFrom_lt_iff (fuel i : Nat) :
    firstFrom p fuel i < i + fuel ↔ ∃ k, i ≤ k ∧ k < i + fuel ∧ p k = true := by
  constructor
  · intro found
    exact ⟨_, le_firstFrom p fuel i, found, firstFrom_spec p fuel i found⟩
  · rintro ⟨k, hik, hk, hpk⟩
    by_contra hnot
    have hnone := noneIn_firstFrom p fuel i k hik (by omega)
    rw [hpk] at hnone
    exact absurd hnone (by simp)

theorem run_of_firstFrom_not {i m : Nat} (hi : i < m) (hpi : p i = true) :
    i < firstFrom (fun k => !p k) (m - i) i ∧ firstFrom (fun k => !p k) (m - i) i ≤ m ∧
      (∀ k, i ≤ k → k < firstFrom (fun k => !p k) (m - i) i → p k = true) ∧
      (firstFrom (fun k => !p k) (m - i) i < m → p (firstFrom (fun k => !p k) (m - i) i) = false) := by
  have hle := le_firstFrom (fun k => !p k) (m - i) i
  have hge := firstFrom_le (fun k => !p k) (m - i) i
  have hnone := noneIn_firstFrom (fun k => !p k) (m - i) i
  have hhit := firstFrom_spec (fun k => !p k) (m - i) i
  have hend : firstFrom (fun k => !p k) (m - i) i < m → p (firstFrom (fun k => !p k) (m - i) i) = false :=
    fun hlt => by simpa using hhit (by omega)
  refine ⟨?_, by omega, fun k hk hk' => by simpa using hnone k hk hk', hend⟩
  rcases Nat.eq_or_lt_of_le hle with heq | hlt
  · rw [← heq] at hend
    rw [hend hi] at hpi
    exact absurd hpi (by simp)
  · exact hlt

end First

section Last

variable (p : Nat → Bool)

theorem lastAtOrBelow_le (i : Nat) : lastAtOrBelow p i ≤ i := by
  induction i with
  | zero =>
      simp only [lastAtOrBelow]
      split <;> omega
  | succ i ih =>
      simp only [lastAtOrBelow]
      split <;> omega

theorem neg_one_le_lastAtOrBelow (i : Nat) : -1 ≤ lastAtOrBelow p i := by
  induction i with
  | zero =>
      simp only [lastAtOrBelow]
      split <;> omega
  | succ i ih =>
      simp only [lastAtOrBelow]
      split <;> omega

theorem lastAtOrBelow_spec (i : Nat) (found : 0 ≤ lastAtOrBelow p i) :
    p (lastAtOrBelow p i).toNat = true := by
  induction i with
  | zero =>
      simp only [lastAtOrBelow] at found ⊢
      split
      · assumption
      · rename_i h
        rw [if_neg h] at found
        omega
  | succ i ih =>
      simp only [lastAtOrBelow] at found ⊢
      split
      · simpa
      · rename_i h
        rw [if_neg h] at found
        exact ih found

theorem noneAbove_lastAtOrBelow (i k : Nat) (above : lastAtOrBelow p i < k)
    (hk : k ≤ i) : p k = false := by
  induction i with
  | zero =>
      have hk0 : k = 0 := by omega
      subst hk0
      simp only [lastAtOrBelow] at above
      split at above
      · omega
      · simpa using ‹¬p 0 = true›
  | succ i ih =>
      simp only [lastAtOrBelow] at above
      split at above
      · omega
      · rename_i h
        by_cases hki : k = i + 1
        · subst hki
          simpa using h
        · exact ih above (by omega)

theorem lastAtOrBelow_eq (i : Nat) (r : Int) (lower : -1 ≤ r) (upper : r ≤ i)
    (after : ∀ k : Nat, r < k → k ≤ i → p k = false) (hit : 0 ≤ r → p r.toNat = true) :
    lastAtOrBelow p i = r := by
  have h1 := lastAtOrBelow_le p i
  have h2 := neg_one_le_lastAtOrBelow p i
  rcases lt_trichotomy (lastAtOrBelow p i) r with hlt | heq | hgt
  · have hr : ((r.toNat : Nat) : Int) = r := Int.toNat_of_nonneg (by omega)
    have := noneAbove_lastAtOrBelow p i r.toNat (by omega) (by omega)
    rw [hit (by omega)] at this
    exact absurd this (by simp)
  · exact heq
  · have hc : (((lastAtOrBelow p i).toNat : Nat) : Int) = lastAtOrBelow p i :=
      Int.toNat_of_nonneg (by omega)
    have hspec := lastAtOrBelow_spec p i (by omega)
    have := after (lastAtOrBelow p i).toNat (by omega) (by omega)
    rw [hspec] at this
    exact absurd this (by simp)

end Last

section Count

theorem count_of_set_range (p q : Nat → Bool) (i n : Nat)
    (outside : ∀ k, (k < i ∨ i + n ≤ k) → q k = p k)
    (inside : ∀ k, i ≤ k → k < i + n → p k = false ∧ q k = true) (m : Nat) :
    Nat.count (fun k => q k = true) m =
      Nat.count (fun k => p k = true) m + (min m (i + n) - min m i) := by
  induction m with
  | zero => simp
  | succ m ih =>
      rw [Nat.count_succ, Nat.count_succ, ih]
      by_cases hin : i ≤ m ∧ m < i + n
      · obtain ⟨hp, hq⟩ := inside m hin.1 hin.2
        simp only [hp, hq, if_true]
        simp only [Bool.false_eq_true, if_false]
        omega
      · have heq := outside m (by omega)
        rw [heq]
        split <;> omega

theorem count_add_of_eq_off (p q : Nat → Bool) {i m : Nat} (hi : i < m)
    (off : ∀ k, k ≠ i → q k = p k) :
    Nat.count (fun k => q k = true) m + (if p i = true then 1 else 0) =
      Nat.count (fun k => p k = true) m + (if q i = true then 1 else 0) := by
  have hone : ∀ k, (k < i ∨ i + 1 ≤ k) → k ≠ i := fun k hk => by omega
  have hat : ∀ k, i ≤ k → k < i + 1 → k = i := fun k hk hk' => by omega
  cases hp : p i <;> cases hq : q i
  · have hpq : q = p := funext fun k => if h : k = i then h ▸ hq.trans hp.symm else off k h
    rw [hpq]
  · have := count_of_set_range p q i 1 (fun k hk => off k (hone k hk))
      (fun k hk hk' => by rw [hat k hk hk']; exact ⟨hp, hq⟩) m
    simp only [Bool.false_eq_true, ↓reduceIte]
    omega
  · have := count_of_set_range q p i 1 (fun k hk => (off k (hone k hk)).symm)
      (fun k hk hk' => by rw [hat k hk hk']; exact ⟨hq, hp⟩) m
    simp only [Bool.false_eq_true, ↓reduceIte]
    omega
  · have hpq : q = p := funext fun k => if h : k = i then h ▸ hq.trans hp.symm else off k h
    rw [hpq]

theorem count_of_clear_range (p q : Nat → Bool) {i j m : Nat} (hij : i ≤ j) (hj : j ≤ m)
    (outside : ∀ k, (k < i ∨ j ≤ k) → q k = p k)
    (inside : ∀ k, i ≤ k → k < j → p k = true ∧ q k = false) :
    Nat.count (fun k => p k = true) m = Nat.count (fun k => q k = true) m + (j - i) := by
  have := count_of_set_range q p i (j - i) (fun k hk => (outside k (by omega)).symm)
    (fun k hk hk' => ⟨(inside k hk (by omega)).2, (inside k hk (by omega)).1⟩) m
  rw [this]
  omega

theorem count_eq_of_noneIn (p : Nat → Bool) {x y : Nat} (hxy : x ≤ y) (h : NoneIn p x y) :
    Nat.count (fun k => p k = true) y = Nat.count (fun k => p k = true) x := by
  obtain ⟨d, rfl⟩ := Nat.exists_eq_add_of_le hxy
  have hzero : Nat.count (fun k => p (x + k) = true) d = 0 :=
    Nat.count_iff_forall_not.mpr fun k hk => by rw [h (x + k) (by omega) (by omega)]; simp
  rw [Nat.count_add, hzero, Nat.add_zero]

theorem count_eq_add_of_allIn (p : Nat → Bool) {x y : Nat} (hxy : x ≤ y)
    (h : ∀ k, x ≤ k → k < y → p k = true) :
    Nat.count (fun k => p k = true) y = Nat.count (fun k => p k = true) x + (y - x) := by
  obtain ⟨d, rfl⟩ := Nat.exists_eq_add_of_le hxy
  have hall : Nat.count (fun k => p (x + k) = true) d = d :=
    Nat.count_iff_forall.mpr fun k hk => h (x + k) (by omega) (by omega)
  rw [Nat.count_add, hall, Nat.add_sub_cancel_left]

theorem count_congr_of_lt (p q : Nat → Bool) {m : Nat} (h : ∀ k < m, p k = q k) :
    Nat.count (fun k => p k = true) m = Nat.count (fun k => q k = true) m := by
  induction m with
  | zero => rfl
  | succ m ih => rw [Nat.count_succ, Nat.count_succ, ih fun k hk => h k (by omega), h m (by omega)]

theorem count_and_add_count_and_not (p r : Nat → Bool) (m : Nat) :
    Nat.count (fun k => (p k && r k) = true) m + Nat.count (fun k => (p k && !r k) = true) m =
      Nat.count (fun k => p k = true) m := by
  induction m with
  | zero => rfl
  | succ m ih =>
      rw [Nat.count_succ, Nat.count_succ, Nat.count_succ, ← ih]
      cases p m <;> cases r m <;> simp <;> omega

theorem count_clear_range_add (p : Nat → Bool) {i n m : Nat} (hm : i + n ≤ m) :
    Nat.count (fun k => (if i ≤ k ∧ k < i + n then false else p k) = true) m +
        Nat.count (fun k => p (i + k) = true) n = Nat.count (fun k => p k = true) m := by
  obtain ⟨d, rfl⟩ := Nat.exists_eq_add_of_le hm
  have hbefore : Nat.count (fun k => (if i ≤ k ∧ k < i + n then false else p k) = true) i =
      Nat.count (fun k => p k = true) i :=
    count_congr_of_lt _ p fun k hk => if_neg (by omega)
  have hinside : Nat.count (fun k => (if i ≤ i + k ∧ i + k < i + n then false else p (i + k)) = true) n = 0 :=
    Nat.count_iff_forall_not.mpr fun k hk => by rw [if_pos (by omega)]; simp
  have hafter : Nat.count (fun k => (if i ≤ i + n + k ∧ i + n + k < i + n then false else p (i + n + k)) = true) d =
      Nat.count (fun k => p (i + n + k) = true) d :=
    count_congr_of_lt _ (fun k => p (i + n + k)) fun k _ => if_neg (by omega)
  rw [Nat.count_add, Nat.count_add, hbefore, hinside, hafter, Nat.count_add, Nat.count_add (fun k => p k = true)]
  omega

theorem count_or_of_disjoint (p q : Nat → Bool) (h : ∀ k, p k = true → q k = false) (m : Nat) :
    Nat.count (fun k => (p k || q k) = true) m = Nat.count (fun k => p k = true) m + Nat.count (fun k => q k = true) m := by
  induction m with
  | zero => rfl
  | succ m ih =>
      rw [Nat.count_succ, Nat.count_succ, Nat.count_succ, ih]
      cases hp : p m
      · cases q m <;> simp
        omega
      · simp [h m hp]
        omega

end Count

end TCMalloc.Lib.Scan
