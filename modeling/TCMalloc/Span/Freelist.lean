import Mathlib
import TCMalloc.Span.Bitmap
import TCMalloc.Lib.Positions
import TCMalloc.Lib.Run

/-!
The compressed index freelist of a one-page span of small objects
(`Span::BuildFreelist`, `ListPushBatch` and `ListPopBatch`).  Free objects are
held in three places: the `cache` array, the chain of hosts from `freelist_`
linked through `host[0]`, and the indices each host embeds in `host[1..]`,
`embed_count_` of them in the first host and `size / 2 - 1` in every other.

What a span holds is read off a chain of hosts given beside it (`held`).  The
invariant `Holds` says that this chain is the one linked in memory and that
what it holds are distinct objects of the span; a push adds exactly the
objects it takes back and a pop removes exactly those it hands out, `min n` of
them.  The `ObjIdx` form of `ListPushBatch` does what the pointer form does.
-/

set_option autoImplicit false
set_option relaxedAutoImplicit false

namespace TCMalloc.Span

open TCMalloc.Lib

variable {b : Build}

/-- A size class kept on the compressed freelist: one-page spans of `count`
objects of `size` bytes from the start of the page, `size` a multiple of
`kAlignment` below the bitmap threshold. -/
structure ListClass (b : Build) where
  size : Nat
  count : Nat
  aligned : size % kAlignment = 0
  size_pos : 0 < size
  fits : count * size ≤ b.kPageSize
  list : useBitmapForSize b size = false

namespace ListClass

variable (c : ListClass b)

/-- `idxStep = size / kAlignment`, the `ObjIdx` distance between objects. -/
def idxStep : Nat := c.size / kAlignment

/-- The slots a host embeds, `size / sizeof(ObjIdx) - 1`. -/
def limit : Nat := c.size / 2 - 1

/-- The `ObjIdx` of the objects `[i, j)` of a span. -/
def seg (i j : Nat) : List Nat := (List.range' i (j - i)).map (· * c.idxStep)

/-- The `ObjIdx` of all objects: `0, idxStep, ..., (count - 1) * idxStep`. -/
def objects : List Nat := c.seg 0 c.count

theorem idxStep_mul : c.idxStep * kAlignment = c.size :=
  Nat.div_mul_cancel (Nat.dvd_of_mod_eq_zero c.aligned)

theorem idxStep_pos : 0 < c.idxStep := by
  have h := c.idxStep_mul
  rcases Nat.eq_zero_or_pos c.idxStep with h0 | h0
  · rw [h0, Nat.zero_mul] at h
    exact absurd h c.size_pos.ne
  · exact h0

theorem two_mul_lt_size {j : Nat} (hj : j ≤ c.limit) : 2 * j < c.size := by
  have hsize := c.size_pos
  unfold limit at hj
  omega

theorem mem_seg {i j x : Nat} : x ∈ c.seg i j ↔ ∃ k, i ≤ k ∧ k < j ∧ x = k * c.idxStep := by
  simp only [seg, List.mem_map, List.mem_range'_1]
  constructor
  · rintro ⟨k, ⟨hik, hkj⟩, rfl⟩
    exact ⟨k, hik, by omega, rfl⟩
  · rintro ⟨k, hik, hkj, rfl⟩
    exact ⟨k, ⟨hik, by omega⟩, rfl⟩

theorem seg_nodup (i j : Nat) : (c.seg i j).Nodup :=
  List.Nodup.map (fun _ _ h => Nat.eq_of_mul_eq_mul_right c.idxStep_pos h) List.nodup_range'

theorem seg_sub {i j x : Nat} (hj : j ≤ c.count) (hx : x ∈ c.seg i j) : x ∈ c.objects := by
  obtain ⟨k, _, hkj, rfl⟩ := c.mem_seg.mp hx
  exact c.mem_seg.mpr ⟨k, Nat.zero_le k, by omega, rfl⟩

theorem seg_cons {i j : Nat} (hij : i < j) : c.seg i j = i * c.idxStep :: c.seg (i + 1) j := by
  have hlen : j - i = j - (i + 1) + 1 := by omega
  rw [seg, hlen, List.range'_succ]
  rfl

theorem seg_append {i j k : Nat} (hij : i ≤ j) (hjk : j ≤ k) : c.seg i j ++ c.seg j k = c.seg i k := by
  have hj : j = i + 1 * (j - i) := by omega
  have hlen : k - i = (j - i) + (k - j) := by omega
  rw [seg, seg, seg, ← List.map_append, hlen]
  nth_rewrite 2 [hj]
  rw [List.range'_append]

theorem seg_self (i : Nat) : c.seg i i = [] := by
  simp [seg]

theorem bytes_le {x : Nat} (hx : x ∈ c.objects) : x * kAlignment + c.size ≤ b.kPageSize := by
  obtain ⟨k, -, hk, rfl⟩ := c.mem_seg.mp hx
  have hle : (k + 1) * c.size ≤ c.count * c.size := Nat.mul_le_mul_right _ hk
  calc k * c.idxStep * kAlignment + c.size = (k + 1) * c.size := by
        rw [Nat.mul_assoc, c.idxStep_mul, Nat.succ_mul]
    _ ≤ c.count * c.size := hle
    _ ≤ b.kPageSize := c.fits

theorem lt_kListEnd {x : Nat} (hx : x ∈ c.objects) : x < kListEnd := by
  have hbytes := c.bytes_le hx
  have hpage := kPageSize_le b
  unfold kAlignment at hbytes
  unfold kListEnd
  omega

theorem ne_kListEnd {x : Nat} (hx : x ∈ c.objects) : x ≠ kListEnd := (c.lt_kListEnd hx).ne

end ListClass

section Pointers

variable (c : ListClass b)

theorem idxToPtr_eq (x start : Nat) : idxToPtr x start = start + x * kAlignment := by
  rw [idxToPtr, Nat.shiftLeft_eq]
  rfl

theorem ptrToIdx_idxToPtr {start x : Nat} (haligned : start % b.kPageSize = 0) (hx : x ∈ c.objects) :
    ptrToIdx b (idxToPtr x start) = x := by
  have hbytes := c.bytes_le hx
  have hoff : (start + x * kAlignment) % b.kPageSize = x * kAlignment := by
    rw [Nat.add_mod, haligned, Nat.zero_add, Nat.mod_mod, Nat.mod_eq_of_lt (by have := c.size_pos; omega)]
  have hlt := c.lt_kListEnd hx
  rw [ptrToIdx, idxToPtr_eq, hoff, Nat.shiftRight_eq_div_pow]
  unfold kAlignment kAlignmentShift
  unfold kListEnd at hlt
  omega

theorem idxToPtr_pageStart {start x : Nat} (haligned : start % b.kPageSize = 0) (hx : x ∈ c.objects) :
    idxToPtr x start - idxToPtr x start % b.kPageSize = start := by
  have hbytes := c.bytes_le hx
  have hoff : (start + x * kAlignment) % b.kPageSize = x * kAlignment := by
    rw [Nat.add_mod, haligned, Nat.zero_add, Nat.mod_mod, Nat.mod_eq_of_lt (by have := c.size_pos; omega)]
  rw [idxToPtr_eq, hoff]
  omega

theorem map_ptrToIdx_idxToPtr {start : Nat} (haligned : start % b.kPageSize = 0) {xs : List Nat}
    (hxs : ∀ x ∈ xs, x ∈ c.objects) : (xs.map (idxToPtr · start)).map (ptrToIdx b) = xs := by
  rw [List.map_map]
  conv_rhs => rw [← List.map_id xs]
  exact List.map_congr_left fun x hx => ptrToIdx_idxToPtr c haligned (hxs x hx)

private theorem mul_add_div_of_lt {k r n : Nat} (hr : r < n) : (k * n + r) / n = k := by
  rw [Nat.mul_comm, Nat.mul_add_div (by omega), Nat.div_eq_of_lt hr, Nat.add_zero]

theorem hostSlot_inj {start x y j k : Nat} (hx : x ∈ c.objects) (hy : y ∈ c.objects) (hj : j ≤ c.limit)
    (hk : k ≤ c.limit) (h : hostSlot (idxToPtr x start) j = hostSlot (idxToPtr y start) k) :
    x = y ∧ j = k := by
  obtain ⟨kx, -, -, rfl⟩ := c.mem_seg.mp hx
  obtain ⟨ky, -, -, rfl⟩ := c.mem_seg.mp hy
  have hj' := c.two_mul_lt_size hj
  have hk' := c.two_mul_lt_size hk
  have hbytes : kx * c.size + 2 * j = ky * c.size + 2 * k := by
    simp only [hostSlot, idxToPtr_eq, Nat.mul_assoc, c.idxStep_mul] at h
    omega
  have hkxy : kx = ky := by
    rw [← mul_add_div_of_lt hj' (k := kx), hbytes, mul_add_div_of_lt hk']
  subst hkxy
  exact ⟨rfl, by omega⟩

end Pointers

section Chain

/-- `host[1..n]` of the host object `h`: the indices it embeds. -/
def embedded (mem : Nat → Nat) (start h n : Nat) : List Nat :=
  prefixOf (fun j => mem (hostSlot (idxToPtr h start) (j + 1))) n

/-- What full hosts hold: each host and the `limit` indices it embeds. -/
def fullHosts (mem : Nat → Nat) (start limit : Nat) (hosts : List Nat) : List Nat :=
  hosts.flatMap fun h => h :: embedded mem start h limit

/-- What the chain of hosts `hosts` holds: the first host embeds `e` indices
and every other one is full. -/
def chain (mem : Nat → Nat) (start limit e : Nat) : List Nat → List Nat
  | [] => []
  | h :: hs => h :: embedded mem start h e ++ fullHosts mem start limit hs

/-- The chain from `first` is `hosts`: the `host[0]` of each host links to the
next one, and that of the last to `kListEnd`. -/
def Linked (mem : Nat → Nat) (start : Nat) : Nat → List Nat → Prop
  | first, [] => first = kListEnd
  | first, h :: hs => first = h ∧ Linked mem start (mem (idxToPtr h start)) hs

/-- The free objects of a span whose chain of hosts is `hosts`: the cache, then the chain. -/
def held (s : Span b) (limit : Nat) (hosts : List Nat) : List Nat :=
  s.cache ++ chain s.mem s.start limit s.embedCount hosts

variable {mem : Nat → Nat} {start limit : Nat}

@[simp] theorem hostSlot_zero (host : Nat) : hostSlot host 0 = host := by
  simp [hostSlot]

@[simp] theorem length_embedded (mem : Nat → Nat) (start h n : Nat) : (embedded mem start h n).length = n :=
  length_prefixOf _ _

@[simp] theorem embedded_zero (mem : Nat → Nat) (start h : Nat) : embedded mem start h 0 = [] := rfl

theorem embedded_succ (mem : Nat → Nat) (start h n : Nat) :
    embedded mem start h (n + 1) = embedded mem start h n ++ [mem (hostSlot (idxToPtr h start) (n + 1))] :=
  prefixOf_succ _ _

theorem embedded_pop (mem : Nat → Nat) (start h : Nat) {e r : Nat} (hr : r ≤ e) :
    embedded mem start h e = embedded mem start h (e - r) ++
      ((List.range r).map fun i => mem (hostSlot (idxToPtr h start) (e - i))).reverse := by
  have hslot : ∀ i ∈ List.range r,
      mem (hostSlot (idxToPtr h start) (e - 1 - i + 1)) = mem (hostSlot (idxToPtr h start) (e - i)) := by
    intro i hi
    have hi' := List.mem_range.mp hi
    congr 2
    omega
  rw [embedded, prefixOf_eq_append_pop _ hr, List.map_congr_left hslot]
  rfl

theorem length_chain_cons (mem : Nat → Nat) (start limit e h : Nat) (hs : List Nat) :
    (chain mem start limit e (h :: hs)).length = e + 1 + (fullHosts mem start limit hs).length := by
  simp only [chain, List.cons_append, List.length_cons, List.length_append, length_embedded]
  omega

theorem chain_limit (hosts : List Nat) : chain mem start limit limit hosts = fullHosts mem start limit hosts := by
  cases hosts with
  | nil => rfl
  | cons h hs => simp [chain, fullHosts]

theorem mem_chain_of_mem {e h : Nat} {hosts : List Nat} (hh : h ∈ hosts) : h ∈ chain mem start limit e hosts := by
  cases hosts with
  | nil => cases hh
  | cons h' hs =>
      rcases List.mem_cons.mp hh with rfl | hh
      · simp [chain]
      · simp only [chain, fullHosts, List.cons_append, List.mem_cons, List.mem_append, List.mem_flatMap]
        exact Or.inr (Or.inr ⟨h, hh, Or.inl rfl⟩)

theorem embedded_update {a v h n : Nat} (hne : ∀ j < n, a ≠ hostSlot (idxToPtr h start) (j + 1)) :
    embedded (Function.update mem a v) start h n = embedded mem start h n :=
  List.map_congr_left fun j hj => Function.update_of_ne (hne j (List.mem_range.mp hj)).symm _ _

theorem embedded_update_top {v h n : Nat} :
    embedded (Function.update mem (hostSlot (idxToPtr h start) (n + 1)) v) start h (n + 1) =
      embedded mem start h n ++ [v] := by
  have hkeep : embedded (Function.update mem (hostSlot (idxToPtr h start) (n + 1)) v) start h n =
      embedded mem start h n :=
    embedded_update fun j hj heq => by
      simp only [hostSlot] at heq
      omega
  rw [embedded_succ, hkeep, Function.update_self]

theorem fullHosts_update {a v : Nat} {hosts : List Nat}
    (hne : ∀ h ∈ hosts, ∀ j ≤ limit, a ≠ hostSlot (idxToPtr h start) j) :
    fullHosts (Function.update mem a v) start limit hosts = fullHosts mem start limit hosts := by
  induction hosts with
  | nil => rfl
  | cons h hs ih =>
      have hhead : embedded (Function.update mem a v) start h limit = embedded mem start h limit :=
        embedded_update fun j hj => hne h List.mem_cons_self (j + 1) (by omega)
      simp only [fullHosts, List.flatMap_cons] at ih ⊢
      rw [hhead, ih fun h' hh' => hne h' (List.mem_cons_of_mem h hh')]

theorem linked_update {a v first : Nat} {hosts : List Nat} (hne : ∀ h ∈ hosts, a ≠ idxToPtr h start) :
    Linked (Function.update mem a v) start first hosts ↔ Linked mem start first hosts := by
  induction hosts generalizing first with
  | nil => exact Iff.rfl
  | cons h hs ih =>
      simp only [Linked]
      rw [Function.update_of_ne (hne h List.mem_cons_self).symm, ih fun h' hh' => hne h' (List.mem_cons_of_mem h hh')]

variable (c : ListClass b)

theorem linked_cons {first : Nat} {hosts : List Nat} (hobj : ∀ h ∈ hosts, h ∈ c.objects)
    (hlinked : Linked mem start first hosts) (hfirst : first ≠ kListEnd) : ∃ h hs, hosts = h :: hs ∧ first = h := by
  cases hosts with
  | nil => exact absurd hlinked hfirst
  | cons h hs => exact ⟨h, hs, rfl, hlinked.1⟩

theorem linked_nil {hosts : List Nat} (hobj : ∀ h ∈ hosts, h ∈ c.objects)
    (hlinked : Linked mem start kListEnd hosts) : hosts = [] := by
  cases hosts with
  | nil => rfl
  | cons h hs => exact absurd hlinked.1.symm (c.ne_kListEnd (hobj h List.mem_cons_self))

theorem chain_embed {h e x : Nat} {hs : List Nat} (hobj : ∀ y ∈ h :: hs, y ∈ c.objects) (hh : h ∉ hs)
    (he : e < c.limit) :
    chain (Function.update mem (hostSlot (idxToPtr h start) (e + 1)) x) start c.limit (e + 1) (h :: hs) =
      h :: (embedded mem start h e ++ [x]) ++ fullHosts mem start c.limit hs := by
  have happart : ∀ h' ∈ hs, ∀ j ≤ c.limit, hostSlot (idxToPtr h start) (e + 1) ≠ hostSlot (idxToPtr h' start) j := by
    intro h' hh' j hj heq
    have hsame := (hostSlot_inj c (hobj h List.mem_cons_self) (hobj h' (List.mem_cons_of_mem h hh')) (by omega) hj heq).1
    exact hh (hsame ▸ hh')
  rw [chain, embedded_update_top, fullHosts_update happart]

theorem linked_embed {h e x first : Nat} {hs : List Nat} (hobj : ∀ y ∈ h :: hs, y ∈ c.objects) (he : e < c.limit) :
    Linked (Function.update mem (hostSlot (idxToPtr h start) (e + 1)) x) start first (h :: hs) ↔
      Linked mem start first (h :: hs) :=
  linked_update fun h' hh' heq => by
    have hslot := (hostSlot_inj c (hobj h List.mem_cons_self) (hobj h' hh') (by omega) (Nat.zero_le _)
      (heq.trans (hostSlot_zero _).symm)).2
    omega

theorem chain_host {x e first : Nat} {hosts : List Nat} (hobj : ∀ y ∈ hosts, y ∈ c.objects) (hx : x ∈ c.objects)
    (hfresh : x ∉ hosts) (hfull : hosts = [] ∨ e = c.limit) :
    chain (Function.update mem (idxToPtr x start) first) start c.limit 0 (x :: hosts) =
      x :: chain mem start c.limit e hosts := by
  have happart : ∀ h ∈ hosts, ∀ j ≤ c.limit, idxToPtr x start ≠ hostSlot (idxToPtr h start) j := by
    intro h hh j hj heq
    have hsame := (hostSlot_inj c hx (hobj h hh) (Nat.zero_le _) hj ((hostSlot_zero _).trans heq)).1
    exact hfresh (hsame ▸ hh)
  have hkeep : chain mem start c.limit e hosts = fullHosts mem start c.limit hosts := by
    rcases hfull with rfl | rfl
    · rfl
    · exact chain_limit hosts
  rw [chain, hkeep, fullHosts_update happart, embedded_zero, List.singleton_append]

theorem linked_host {x first : Nat} {hosts : List Nat} (hobj : ∀ y ∈ hosts, y ∈ c.objects) (hx : x ∈ c.objects)
    (hfresh : x ∉ hosts) (hlinked : Linked mem start first hosts) :
    Linked (Function.update mem (idxToPtr x start) first) start x (x :: hosts) := by
  refine ⟨rfl, ?_⟩
  rw [Function.update_self, linked_update fun h hh heq => hfresh ?_]
  · exact hlinked
  · have hsame := (hostSlot_inj c hx (hobj h hh) (Nat.zero_le _) (Nat.zero_le _)
      ((hostSlot_zero _).trans (heq.trans (hostSlot_zero _).symm))).1
    exact hsame ▸ hh

end Chain

section Holds

variable (c : ListClass b)

/-- The freelist invariant of a span whose chain of hosts is `hosts`: the chain
is the one linked from `freelist_`, the first host embeds at most `size / 2 - 1`
indices, the cache is within `kCacheSize`, and what the span holds are
distinct objects of it. -/
structure Holds (s : Span b) (hosts : List Nat) : Prop where
  aligned : s.start % b.kPageSize = 0
  cache_le : s.cache.length ≤ b.kCacheSize
  linked : Linked s.mem s.start s.freelist hosts
  embed_le : s.embedCount ≤ c.limit
  nodup : (s.held c.limit hosts).Nodup
  sub : ∀ x ∈ s.held c.limit hosts, x ∈ c.objects

variable {c} {s : Span b} {hosts : List Nat}

theorem Holds.hosts_sub (H : Holds c s hosts) : ∀ h ∈ hosts, h ∈ c.objects :=
  fun _ hh => H.sub _ (List.mem_append_right _ (mem_chain_of_mem hh))

theorem chain_head_not_mem {mem : Nat → Nat} {start e h : Nat} {hs : List Nat}
    (hnd : (chain mem start c.limit e (h :: hs)).Nodup) : h ∉ hs := by
  intro hh
  have hfull : h ∈ fullHosts mem start c.limit hs := by
    rw [← chain_limit]
    exact mem_chain_of_mem hh
  simp only [chain, List.cons_append, List.nodup_cons] at hnd
  exact hnd.1 (List.mem_append_right _ hfull)

theorem Holds.head_not_mem {h : Nat} {hs : List Nat} (H : Holds c s (h :: hs)) : h ∉ hs :=
  chain_head_not_mem ((List.sublist_append_right s.cache _).nodup H.nodup)

theorem nodup_sub_of_perm_append {l l' xs : List Nat} (hperm : (l' ++ xs).Perm l) (hnd : l.Nodup)
    (hsub : ∀ x ∈ l, x ∈ c.objects) : l'.Nodup ∧ ∀ x ∈ l', x ∈ c.objects :=
  ⟨(List.sublist_append_left l' xs).nodup (hperm.nodup_iff.mpr hnd),
    fun x hx => hsub x (hperm.subset (List.mem_append_left xs hx))⟩

theorem Holds.embed (H : Holds c s hosts) {x : Nat} (hfl : s.freelist ≠ kListEnd) (he : s.embedCount ≠ c.limit)
    (hx : x ∈ c.objects) (hfresh : x ∉ s.held c.limit hosts) :
    Holds c { s.write (hostSlot (idxToPtr s.freelist s.start) (s.embedCount + 1)) x with
      embedCount := s.embedCount + 1 } hosts ∧
    (held { s.write (hostSlot (idxToPtr s.freelist s.start) (s.embedCount + 1)) x with
      embedCount := s.embedCount + 1 } c.limit hosts).Perm (x :: s.held c.limit hosts) := by
  obtain ⟨h, hs, rfl, hfirst⟩ := linked_cons c H.hosts_sub H.linked hfl
  subst hfirst
  have hlt : s.embedCount < c.limit := Nat.lt_of_le_of_ne H.embed_le he
  have hperm : (held { s.write (hostSlot (idxToPtr s.freelist s.start) (s.embedCount + 1)) x with
      embedCount := s.embedCount + 1 } c.limit (s.freelist :: hs)).Perm (x :: s.held c.limit (s.freelist :: hs)) := by
    have hmiddle := @List.perm_middle _ x (s.cache ++ s.freelist :: embedded s.mem s.start s.freelist s.embedCount)
      (fullHosts s.mem s.start c.limit hs)
    simp only [held, write_mem, write_start, write_cache]
    rw [chain_embed c H.hosts_sub H.head_not_mem hlt]
    simpa [chain] using hmiddle
  have hnd : (held { s.write (hostSlot (idxToPtr s.freelist s.start) (s.embedCount + 1)) x with
      embedCount := s.embedCount + 1 } c.limit (s.freelist :: hs)).Nodup :=
    hperm.nodup_iff.mpr (List.nodup_cons.mpr ⟨hfresh, H.nodup⟩)
  refine ⟨⟨H.aligned, H.cache_le, (linked_embed c H.hosts_sub hlt).mpr H.linked, hlt, hnd, fun y hy => ?_⟩, hperm⟩
  rcases List.mem_cons.mp (hperm.subset hy) with rfl | hy
  · exact hx
  · exact H.sub y hy

theorem Holds.host (H : Holds c s hosts) {x : Nat} (hfull : s.freelist = kListEnd ∨ s.embedCount = c.limit)
    (hx : x ∈ c.objects) (hfresh : x ∉ s.held c.limit hosts) :
    Holds c { s.write (idxToPtr x s.start) s.freelist with freelist := x, embedCount := 0 } (x :: hosts) ∧
    (held { s.write (idxToPtr x s.start) s.freelist with freelist := x, embedCount := 0 } c.limit
      (x :: hosts)).Perm (x :: s.held c.limit hosts) := by
  have hnothost : x ∉ hosts := fun hh => hfresh (List.mem_append_right _ (mem_chain_of_mem hh))
  have hfull' : hosts = [] ∨ s.embedCount = c.limit := by
    rcases hfull with hfl | he
    · exact Or.inl (linked_nil c H.hosts_sub (hfl ▸ H.linked))
    · exact Or.inr he
  have hperm : (held { s.write (idxToPtr x s.start) s.freelist with freelist := x, embedCount := 0 } c.limit
      (x :: hosts)).Perm (x :: s.held c.limit hosts) := by
    simp only [held, write_mem, write_start, write_cache]
    rw [chain_host c H.hosts_sub hx hnothost hfull']
    exact List.perm_middle
  refine ⟨⟨H.aligned, H.cache_le, linked_host c H.hosts_sub hx hnothost H.linked, Nat.zero_le _,
    hperm.nodup_iff.mpr (List.nodup_cons.mpr ⟨hfresh, H.nodup⟩), fun y hy => ?_⟩, hperm⟩
  rcases List.mem_cons.mp (hperm.subset hy) with rfl | hy
  · exact hx
  · exact H.sub y hy

theorem listPushLoop_spec {xs : List Nat} : ∀ {s : Span b} {hosts : List Nat}, Holds c s hosts →
    (xs ++ s.held c.limit hosts).Nodup → (∀ x ∈ xs, x ∈ c.objects) →
    ∃ hosts', Holds c (listPushLoop s.start c.size s (xs.map (idxToPtr · s.start))) hosts' ∧
      ((listPushLoop s.start c.size s (xs.map (idxToPtr · s.start))).held c.limit hosts').Perm
        (xs ++ s.held c.limit hosts) ∧
      (listPushLoop s.start c.size s (xs.map (idxToPtr · s.start))).allocated = s.allocated := by
  induction xs with
  | nil => exact fun H _ _ => ⟨_, H, List.Perm.refl _, rfl⟩
  | cons x xs ih =>
      intro s hosts H hnd hobj
      have hxobj := hobj x List.mem_cons_self
      have hfresh : x ∉ s.held c.limit hosts := fun hx =>
        (List.nodup_cons.mp hnd).1 (List.mem_append_right _ hx)
      -- the objects still to push stay fresh after this one
      have hnext : ∀ {s' : Span b} {hosts' : List Nat}, (s'.held c.limit hosts').Perm (x :: s.held c.limit hosts) →
          (xs ++ s'.held c.limit hosts').Nodup := fun hperm =>
        ((hperm.append_left xs).trans List.perm_middle).nodup_iff.mpr hnd
      have hrest : ∀ {s' : Span b} {hosts' : List Nat} {l : List Nat},
          (s'.held c.limit hosts').Perm (x :: s.held c.limit hosts) → l.Perm (xs ++ s'.held c.limit hosts') →
          l.Perm (x :: xs ++ s.held c.limit hosts) := fun hperm hl =>
        (hl.trans (hperm.append_left xs)).trans List.perm_middle
      have hobj' : ∀ y ∈ xs, y ∈ c.objects := fun y hy => hobj y (List.mem_cons_of_mem x hy)
      rw [List.map_cons, listPushLoop, ptrToIdx_idxToPtr c H.aligned hxobj]
      split
      · rename_i hcond
        obtain ⟨H₁, hperm₁⟩ := H.embed hcond.1 hcond.2 hxobj hfresh
        obtain ⟨hosts', H', hperm', halloc'⟩ := ih H₁ (hnext hperm₁) hobj'
        exact ⟨hosts', H', hrest hperm₁ hperm', halloc'⟩
      · rename_i hcond
        have hfull : s.freelist = kListEnd ∨ s.embedCount = c.limit := by
          show s.freelist = kListEnd ∨ s.embedCount = c.size / 2 - 1
          omega
        obtain ⟨H₁, hperm₁⟩ := H.host hfull hxobj hfresh
        obtain ⟨hosts', H', hperm', halloc'⟩ := ih H₁ (hnext hperm₁) hobj'
        exact ⟨hosts', H', hrest hperm₁ hperm', halloc'⟩

theorem Holds.toCache (H : Holds c s hosts) {xs : List Nat} (hnd : (xs ++ s.held c.limit hosts).Nodup)
    (hobj : ∀ x ∈ xs, x ∈ c.objects) :
    Holds c { s with cache := s.cache ++ xs.take (s.cacheWrites xs.length) } hosts ∧
      (held { s with cache := s.cache ++ xs.take (s.cacheWrites xs.length) } c.limit hosts).Perm
        (xs.take (s.cacheWrites xs.length) ++ s.held c.limit hosts) := by
  have hperm : (held { s with cache := s.cache ++ xs.take (s.cacheWrites xs.length) } c.limit hosts).Perm
      (xs.take (s.cacheWrites xs.length) ++ s.held c.limit hosts) := by
    simp only [held, List.append_assoc]
    exact List.perm_append_comm_assoc _ _ _
  have hsub : (xs.take (s.cacheWrites xs.length) ++ s.held c.limit hosts).Sublist (xs ++ s.held c.limit hosts) :=
    (List.take_sublist _ _).append (List.Sublist.refl _)
  have hcache : (s.cache ++ xs.take (s.cacheWrites xs.length)).length ≤ b.kCacheSize := by
    have hcap := H.cache_le
    rw [List.length_append, List.length_take]
    unfold cacheWrites
    split <;> omega
  refine ⟨⟨H.aligned, hcache, H.linked, H.embed_le, hperm.nodup_iff.mpr (hsub.nodup hnd), fun x hx => ?_⟩, hperm⟩
  rcases List.mem_append.mp (hperm.subset hx) with hx | hx
  · exact hobj x (List.mem_of_mem_take hx)
  · exact H.sub x hx

theorem listPushBatch_spec (H : Holds c s hosts) {xs : List Nat} (hnd : (xs ++ s.held c.limit hosts).Nodup)
    (hobj : ∀ x ∈ xs, x ∈ c.objects) :
    ∃ hosts', Holds c (s.listPushBatch (xs.map (idxToPtr · s.start)) c.size) hosts' ∧
      ((s.listPushBatch (xs.map (idxToPtr · s.start)) c.size).held c.limit hosts').Perm
        (xs ++ s.held c.limit hosts) ∧
      (s.listPushBatch (xs.map (idxToPtr · s.start)) c.size).allocated = s.allocated := by
  obtain ⟨H₁, hperm₁⟩ := H.toCache hnd hobj
  have hcache : ((xs.map (idxToPtr · s.start)).take (s.cacheWrites xs.length)).map (ptrToIdx b) =
      xs.take (s.cacheWrites xs.length) := by
    rw [← List.map_take, map_ptrToIdx_idxToPtr c H.aligned fun x hx => hobj x (List.mem_of_mem_take hx)]
  have hsplit := List.take_append_drop (s.cacheWrites xs.length) xs
  rcases hd : xs.drop (s.cacheWrites xs.length) with _ | ⟨y, ys⟩
  · -- everything fits in the cache
    rw [hd, List.append_nil] at hsplit
    refine ⟨hosts, ?_, ?_, ?_⟩ <;>
      simp only [listPushBatch, List.length_map, hcache, ← List.map_drop, hd, List.map_nil]
    · exact H₁
    · exact hperm₁.trans (List.Perm.of_eq (congrArg (· ++ s.held c.limit hosts) hsplit))
  · have hy : y ∈ c.objects := hobj y (hsplit ▸ List.mem_append_right _ (hd ▸ List.mem_cons_self))
    have hstart : idxToPtr y s.start - idxToPtr y s.start % b.kPageSize = s.start :=
      idxToPtr_pageStart c H.aligned hy
    have hnd₁ : (y :: ys ++ held { s with cache := s.cache ++ xs.take (s.cacheWrites xs.length) } c.limit hosts).Nodup := by
      have hall : (xs.take (s.cacheWrites xs.length) ++ (y :: ys ++ s.held c.limit hosts)).Nodup := by
        rw [← List.append_assoc, ← hd, hsplit]
        exact hnd
      exact ((hperm₁.append_left (y :: ys)).trans (List.perm_append_comm_assoc _ _ _)).nodup_iff.mpr hall
    have hobj₁ : ∀ x ∈ y :: ys, x ∈ c.objects := fun x hx =>
      hobj x (hsplit ▸ List.mem_append_right _ (hd ▸ hx))
    obtain ⟨hosts', H', hperm', halloc'⟩ := listPushLoop_spec H₁ hnd₁ hobj₁
    have hunfold : s.listPushBatch (xs.map (idxToPtr · s.start)) c.size =
        listPushLoop s.start c.size { s with cache := s.cache ++ xs.take (s.cacheWrites xs.length) }
          ((y :: ys).map (idxToPtr · s.start)) := by
      simp only [listPushBatch, List.length_map, hcache, ← List.map_drop, hd, List.map_cons, hstart]
    -- the pushed objects are those past the cache, then those in it
    have hback : xs.take (s.cacheWrites xs.length) ++ (y :: ys ++ s.held c.limit hosts) = xs ++ s.held c.limit hosts := by
      rw [← List.append_assoc, ← hd, hsplit]
    rw [hunfold]
    exact ⟨hosts', H', ((hperm'.trans (hperm₁.append_left _)).trans (List.perm_append_comm_assoc _ _ _)).trans
      (List.Perm.of_eq hback), halloc'⟩

theorem listPushIdxLoop_eq {start : Nat} (haligned : start % b.kPageSize = 0) {xs : List Nat}
    (hobj : ∀ x ∈ xs, x ∈ c.objects) : ∀ (s : Span b) (fl e : Nat), fl ≠ kListEnd →
    listPushIdxLoop start (c.size / 2 - 1) s fl e (idxToPtr fl start) xs =
      listPushLoop start c.size { s with freelist := fl, embedCount := e } (xs.map (idxToPtr · start)) := by
  induction xs with
  | nil => exact fun _ _ _ _ => rfl
  | cons x xs ih =>
      intro s fl e hfl
      have hx := hobj x List.mem_cons_self
      have ih' := ih fun y hy => hobj y (List.mem_cons_of_mem x hy)
      rw [List.map_cons, listPushIdxLoop, listPushLoop, ptrToIdx_idxToPtr c haligned hx]
      by_cases he : e = c.size / 2 - 1
      · -- the first host is full: `x` becomes the new one
        rw [if_neg (not_not_intro he), if_neg fun h => h.2 he]
        exact ih' _ x 0 (c.ne_kListEnd hx)
      · rw [if_pos he, if_pos ⟨hfl, he⟩]
        exact ih' _ fl (e + 1) hfl

theorem listPushBatchIdx_eq (haligned : s.start % b.kPageSize = 0) {xs : List Nat}
    (hobj : ∀ x ∈ xs, x ∈ c.objects) : s.listPushBatchIdx xs c.size = s.listPushBatch (xs.map (idxToPtr · s.start)) c.size := by
  have hcache : ((xs.map (idxToPtr · s.start)).take (s.cacheWrites xs.length)).map (ptrToIdx b) =
      xs.take (s.cacheWrites xs.length) := by
    rw [← List.map_take, map_ptrToIdx_idxToPtr c haligned fun x hx => hobj x (List.mem_of_mem_take hx)]
  have hsplit := List.take_append_drop (s.cacheWrites xs.length) xs
  rcases hd : xs.drop (s.cacheWrites xs.length) with _ | ⟨y, ys⟩
  · simp only [listPushBatchIdx, listPushBatch, List.length_map, hcache, ← List.map_drop, hd, List.map_nil]
  · have hy : y ∈ c.objects := hobj y (hsplit ▸ List.mem_append_right _ (hd ▸ List.mem_cons_self))
    have hys : ∀ x ∈ ys, x ∈ c.objects := fun x hx =>
      hobj x (hsplit ▸ List.mem_append_right _ (hd ▸ List.mem_cons_of_mem y hx))
    have hstart : idxToPtr y s.start - idxToPtr y s.start % b.kPageSize = s.start :=
      idxToPtr_pageStart c haligned hy
    simp only [listPushBatchIdx, listPushBatch, List.length_map, hcache, ← List.map_drop, hd, List.map_cons, hstart]
    split
    · rename_i hfl
      rw [listPushIdxLoop_eq haligned (List.forall_mem_cons.mpr ⟨hy, hys⟩) _ _ _ hfl, List.map_cons]
    · rename_i hfl
      rw [listPushIdxLoop_eq haligned hys _ _ _ (c.ne_kListEnd hy), listPushLoop, ptrToIdx_idxToPtr c haligned hy,
        if_neg fun h => hfl h.1]
      simp only [not_not] at hfl
      rw [hfl]

end Holds

section Pop

variable {c : ListClass b} {s : Span b}

theorem Holds.popTop {hs : List Nat} (H : Holds c s (s.freelist :: hs)) {r : Nat} (hr : r ≤ s.embedCount) :
    Holds c { s with embedCount := s.embedCount - r } (s.freelist :: hs) ∧
    (held { s with embedCount := s.embedCount - r } c.limit (s.freelist :: hs) ++
      (List.range r).map fun i => s.mem (hostSlot (idxToPtr s.freelist s.start) (s.embedCount - i))).Perm
      (s.held c.limit (s.freelist :: hs)) := by
  have hperm : (held { s with embedCount := s.embedCount - r } c.limit (s.freelist :: hs) ++
      (List.range r).map fun i => s.mem (hostSlot (idxToPtr s.freelist s.start) (s.embedCount - i))).Perm
      (s.held c.limit (s.freelist :: hs)) := by
    rw [List.perm_iff_count]
    intro a
    simp only [held, chain, embedded_pop s.mem s.start s.freelist hr, List.count_append,
      List.count_cons, List.count_reverse, List.cons_append]
    omega
  obtain ⟨hnd, hsub⟩ := nodup_sub_of_perm_append hperm H.nodup H.sub
  exact ⟨⟨H.aligned, H.cache_le, H.linked, Nat.le_trans (Nat.sub_le _ _) H.embed_le, hnd, hsub⟩, hperm⟩

theorem Holds.popHost {hs : List Nat} (H : Holds c s (s.freelist :: hs)) :
    Holds c { s with freelist := s.mem (idxToPtr s.freelist s.start), embedCount := c.limit } hs ∧
    (held { s with freelist := s.mem (idxToPtr s.freelist s.start), embedCount := c.limit } c.limit hs ++
      s.freelist :: embedded s.mem s.start s.freelist s.embedCount).Perm (s.held c.limit (s.freelist :: hs)) := by
  have hperm : (held { s with freelist := s.mem (idxToPtr s.freelist s.start), embedCount := c.limit } c.limit hs ++
      s.freelist :: embedded s.mem s.start s.freelist s.embedCount).Perm (s.held c.limit (s.freelist :: hs)) := by
    rw [List.perm_iff_count]
    intro a
    simp only [held]
    rw [chain_limit]
    simp only [chain, List.count_append, List.count_cons, List.cons_append]
    omega
  obtain ⟨hnd, hsub⟩ := nodup_sub_of_perm_append hperm H.nodup H.sub
  exact ⟨⟨H.aligned, H.cache_le, H.linked.2, Nat.le_refl _, hnd, hsub⟩, hperm⟩

theorem listPopLoop_spec {N : Nat} (fuel : Nat) : ∀ {s : Span b} {hosts : List Nat} (acc : List Nat),
    Holds c s hosts → N ≤ fuel + acc.length →
    ∃ xs hosts', (listPopLoop c.size N fuel s acc).1 = acc ++ xs.map (idxToPtr · s.start) ∧
      Holds c (listPopLoop c.size N fuel s acc).2 hosts' ∧
      ((listPopLoop c.size N fuel s acc).2.held c.limit hosts' ++ xs).Perm (s.held c.limit hosts) ∧
      xs.length = min (N - acc.length) (chain s.mem s.start c.limit s.embedCount hosts).length ∧
      (listPopLoop c.size N fuel s acc).2.allocated = s.allocated := by
  induction fuel with
  | zero =>
      intro s hosts acc H hN
      exact ⟨[], hosts, by simp [listPopLoop], H, by simp [listPopLoop], by simp; omega, rfl⟩
  | succ fuel ih =>
      intro s hosts acc H hN
      by_cases hlt : acc.length < N
      · by_cases hend : s.freelist = kListEnd
        · -- no host: the chain is empty and the loop stops
          have hnil := linked_nil c H.hosts_sub (hend ▸ H.linked)
          subst hnil
          exact ⟨[], [], by simp [listPopLoop, hlt, hend], by simpa [listPopLoop, hlt, hend] using H,
            by simp [listPopLoop, hlt, hend], by simp [chain], by simp [listPopLoop, hlt, hend]⟩
        · obtain ⟨h, hs, rfl, hfirst⟩ := linked_cons c H.hosts_sub H.linked hend
          subst hfirst
          simp only [listPopLoop, if_pos hlt, if_neg hend, show c.size / 2 - 1 = c.limit from rfl]
          generalize hiter : (if acc.length + s.embedCount > N then N - acc.length else s.embedCount) = iter
          have hiter_le : iter ≤ s.embedCount := by
            rw [← hiter]
            split <;> omega
          have hchain := length_chain_cons s.mem s.start c.limit s.embedCount s.freelist hs
          have hptrs : ((List.range iter).map fun i =>
              idxToPtr (s.mem (hostSlot (idxToPtr s.freelist s.start) (s.embedCount - i))) s.start) =
              ((List.range iter).map fun i => s.mem (hostSlot (idxToPtr s.freelist s.start) (s.embedCount - i))).map
                (idxToPtr · s.start) := by
            rw [List.map_map]
            rfl
          rw [hptrs]
          split
          · -- the batch is full: the first host keeps what is left
            rename_i hfull
            obtain ⟨H', hperm'⟩ := H.popTop hiter_le
            refine ⟨_, _, rfl, H', hperm', ?_, rfl⟩
            simp only [List.length_append, List.length_map, List.length_range] at hfull ⊢
            rw [← hiter] at hfull ⊢
            split at hfull <;> split <;> omega
          · -- the first host is emptied, then popped itself
            rename_i hfull
            have hall : iter = s.embedCount := by
              simp only [List.length_append, List.length_map, List.length_range] at hfull
              rw [← hiter] at hfull ⊢
              split at hfull <;> split <;> omega
            subst hall
            have hroom : acc.length + s.embedCount < N := by
              simp only [List.length_append, List.length_map, List.length_range] at hfull
              split at hiter <;> omega
            obtain ⟨H₂, hperm₂⟩ := H.popHost
            have hN₂ : N ≤ fuel + (acc ++ ((List.range s.embedCount).map fun i =>
                s.mem (hostSlot (idxToPtr s.freelist s.start) (s.embedCount - i))).map (idxToPtr · s.start) ++
                [idxToPtr s.freelist s.start]).length := by
              simp only [List.length_append, List.length_map, List.length_range, List.length_singleton]
              omega
            obtain ⟨xs, hosts', hout, H', hperm', hlen', halloc'⟩ := ih _ H₂ hN₂
            refine ⟨((List.range s.embedCount).map fun i =>
                s.mem (hostSlot (idxToPtr s.freelist s.start) (s.embedCount - i))) ++ s.freelist :: xs,
              hosts', ?_, H', ?_, ?_, halloc'⟩
            · rw [hout]
              simp
            · -- what the host embedded is what this round read, in reverse
              have htop := embedded_pop s.mem s.start s.freelist (Nat.le_refl s.embedCount)
              rw [Nat.sub_self, embedded_zero, List.nil_append] at htop
              rw [List.perm_iff_count] at hperm' hperm₂ ⊢
              intro a
              have h₁ := hperm' a
              have h₂ := hperm₂ a
              rw [htop] at h₂
              simp only [List.count_append, List.count_cons, List.count_reverse] at h₁ h₂ ⊢
              omega
            · simp only [chain_limit, List.length_append, List.length_map, List.length_range,
                List.length_singleton] at hlen'
              simp only [List.length_append, List.length_map, List.length_range, List.length_cons]
              rw [hchain, hlen']
              omega
      · -- the batch is already full
        exact ⟨[], hosts, by simp [listPopLoop, hlt], by simpa [listPopLoop, hlt] using H,
          by simp [listPopLoop, hlt], by simp; omega, by simp [listPopLoop, hlt]⟩

theorem Holds.with_allocated {hosts : List Nat} (H : Holds c s hosts) (n : Nat) :
    Holds c { s with allocated := n } hosts :=
  ⟨H.aligned, H.cache_le, H.linked, H.embed_le, H.nodup, H.sub⟩

theorem Holds.popCache {hosts : List Nat} (H : Holds c s hosts) {reads : Nat} (hreads : reads ≤ s.cache.length) :
    Holds c { s with cache := s.cache.take (s.cache.length - reads) } hosts ∧
    (held { s with cache := s.cache.take (s.cache.length - reads) } c.limit hosts ++
      (List.range reads).map fun i => s.cache.getD (s.cache.length - i - 1) 0).Perm (s.held c.limit hosts) := by
  have hsplit := prefixOf_eq_append_pop (fun j => s.cache.getD j 0) hreads
  rw [prefixOf_getD] at hsplit
  have htop : ((List.range reads).map fun i => s.cache.getD (s.cache.length - 1 - i) 0) =
      (List.range reads).map fun i => s.cache.getD (s.cache.length - i - 1) 0 :=
    List.map_congr_left fun i _ => by rw [Nat.sub_right_comm]
  rw [htop] at hsplit
  have htake : s.cache.take (s.cache.length - reads) = prefixOf (fun j => s.cache.getD j 0) (s.cache.length - reads) := by
    have h := @List.take_left' _ _ ((List.range reads).map fun i => s.cache.getD (s.cache.length - i - 1) 0).reverse _
      (length_prefixOf (fun j => s.cache.getD j 0) (s.cache.length - reads))
    rwa [← hsplit] at h
  have hperm : (held { s with cache := s.cache.take (s.cache.length - reads) } c.limit hosts ++
      (List.range reads).map fun i => s.cache.getD (s.cache.length - i - 1) 0).Perm (s.held c.limit hosts) := by
    rw [List.perm_iff_count]
    intro a
    have hcount := congrArg (List.count a) hsplit
    simp only [List.count_append, List.count_reverse] at hcount
    simp only [held, htake, List.count_append]
    omega
  obtain ⟨hnd, hsub⟩ := nodup_sub_of_perm_append hperm H.nodup H.sub
  have hcache : (s.cache.take (s.cache.length - reads)).length ≤ b.kCacheSize :=
    (List.length_take_le _ _).trans ((Nat.sub_le _ _).trans H.cache_le)
  exact ⟨⟨H.aligned, hcache, H.linked, H.embed_le, hnd, hsub⟩, hperm⟩

theorem listPopBatch_spec {hosts : List Nat} (H : Holds c s hosts) (N : Nat) :
    ∃ xs hosts', (s.listPopBatch N c.size).1 = xs.map (idxToPtr · s.start) ∧
      Holds c (s.listPopBatch N c.size).2 hosts' ∧
      ((s.listPopBatch N c.size).2.held c.limit hosts' ++ xs).Perm (s.held c.limit hosts) ∧
      xs.length = min N (s.held c.limit hosts).length ∧
      (s.listPopBatch N c.size).2.allocated = s.allocated + xs.length := by
  obtain ⟨H₁, hperm₁⟩ := H.popCache (Nat.min_le_left s.cache.length N)
  have hfrom : ((List.range (min s.cache.length N)).map fun i =>
      idxToPtr (s.cache.getD (s.cache.length - i - 1) 0) s.start) =
      ((List.range (min s.cache.length N)).map fun i => s.cache.getD (s.cache.length - i - 1) 0).map
        (idxToPtr · s.start) := by
    rw [List.map_map]
    rfl
  obtain ⟨xs, hosts', hout, H', hperm', hlen', halloc'⟩ := listPopLoop_spec (c := c) (N := N) N
    (((List.range (min s.cache.length N)).map fun i => s.cache.getD (s.cache.length - i - 1) 0).map
      (idxToPtr · s.start)) H₁ (by simp)
  simp only [listPopBatch, hfrom]
  refine ⟨((List.range (min s.cache.length N)).map fun i => s.cache.getD (s.cache.length - i - 1) 0) ++ xs,
    hosts', ?_, H'.with_allocated _, ?_, ?_, ?_⟩
  · rw [hout, List.map_append]
  · exact ((List.perm_append_comm.append_left _).trans (List.Perm.of_eq (List.append_assoc _ _ _).symm)).trans
      ((hperm'.append_right _).trans hperm₁)
  · simp only [List.length_append, List.length_map, List.length_range, held, chain] at hlen' ⊢
    rw [hlen']
    omega
  · simp only [halloc', hout, List.length_append, List.length_map]

end Pop

section Build

variable (c : ListClass b)

theorem idxStep_lt_iff {i j : Nat} : i * c.idxStep < j * c.idxStep ↔ i < j :=
  Nat.mul_lt_mul_right c.idxStep_pos

theorem buildCacheLoop_eq : ∀ (fuel i : Nat) (cache : List Nat), cache.length + fuel ≤ b.kCacheSize →
    buildCacheLoop b c.idxStep (c.count * c.idxStep) fuel (i * c.idxStep) cache =
      ((i + min fuel (c.count - i)) * c.idxStep, cache ++ c.seg i (i + min fuel (c.count - i)))
  | 0, i, cache, _ => by simp [buildCacheLoop, ListClass.seg_self]
  | fuel + 1, i, cache, hroom => by
      rw [buildCacheLoop]
      by_cases hi : i < c.count
      · rw [if_pos ⟨(idxStep_lt_iff c).mpr hi, by omega⟩, ← Nat.succ_mul,
          buildCacheLoop_eq fuel (i + 1) (cache ++ [i * c.idxStep]) (by simp; omega)]
        have hmin : i + 1 + min fuel (c.count - (i + 1)) = i + min (fuel + 1) (c.count - i) := by omega
        rw [hmin, List.append_assoc, List.singleton_append, ← c.seg_cons (by omega)]
      · rw [if_neg fun h => hi ((idxStep_lt_iff c).mp h.1)]
        have hmin : min (fuel + 1) (c.count - i) = 0 := by omega
        rw [hmin, Nat.add_zero, ListClass.seg_self, List.append_nil]

/-- What the host loop of `BuildFreelist` leaves in a span at `start`: a chain
linked from `freelist_` that holds the objects `T`, and the cache and the
count of allocated objects as they were. -/
structure HostsBuilt (start : Nat) (cache : List Nat) (allocated : Nat) (T : List Nat) (r : Span b × Nat) : Prop where
  holds : ∃ hosts, Linked r.1.mem start r.1.freelist hosts ∧ (chain r.1.mem start c.limit r.2 hosts).Perm T
  embed_le : r.2 ≤ c.limit
  start_eq : r.1.start = start
  cache_eq : r.1.cache = cache
  allocated_eq : r.1.allocated = allocated

theorem buildHostLoop_spec {T : List Nat} (hT : T.Nodup) (hTsub : ∀ x ∈ T, x ∈ c.objects) :
    ∀ (fuel : Nat) (s : Span b) (host : Option Nat) (e i j : Nat) (hosts : List Nat), j ≤ c.count →
    j - i ≤ fuel → host = hosts.head?.map (idxToPtr · s.start) → Linked s.mem s.start s.freelist hosts →
    e ≤ c.limit → (chain s.mem s.start c.limit e hosts ++ c.seg i j).Perm T →
    HostsBuilt c s.start s.cache s.allocated T
      (buildHostLoop c.idxStep (c.size / 2 - 1) fuel s host e (i * c.idxStep) (j * c.idxStep)) := by
  intro fuel
  induction fuel with
  | zero =>
      intro s host e i j hosts _ hfuel _ hlinked he hperm
      have hseg : c.seg i j = [] := by simp [ListClass.seg]; omega
      rw [hseg, List.append_nil] at hperm
      exact ⟨⟨hosts, hlinked, hperm⟩, he, rfl, rfl, rfl⟩
  | succ fuel ih =>
      intro s host e i j hosts hj hfuel hhost hlinked he hperm
      have hnd := hperm.nodup_iff.mpr hT
      have hsub : ∀ x ∈ chain s.mem s.start c.limit e hosts ++ c.seg i j, x ∈ c.objects :=
        fun x hx => hTsub x (hperm.subset hx)
      have hobj : ∀ h ∈ hosts, h ∈ c.objects := fun h hh => hsub h (List.mem_append_left _ (mem_chain_of_mem hh))
      rw [buildHostLoop]
      by_cases hij : i < j
      · rw [if_pos ((idxStep_lt_iff c).mpr hij)]
        have hx : i * c.idxStep ∈ c.seg i j := c.mem_seg.mpr ⟨i, le_rfl, hij, rfl⟩
        have hxobj : i * c.idxStep ∈ c.objects := hsub _ (List.mem_append_right _ hx)
        have hxfresh : i * c.idxStep ∉ hosts := fun hh =>
          List.disjoint_of_nodup_append hnd (mem_chain_of_mem hh) hx
        -- the object at `i` becomes the first host, linked to the old one
        have hnewHost : (hosts = [] ∨ e = c.limit) →
            HostsBuilt c s.start s.cache s.allocated T (buildHostLoop c.idxStep (c.size / 2 - 1) fuel
              { s.write (idxToPtr (i * c.idxStep) s.start) s.freelist with freelist := i * c.idxStep }
              (some (idxToPtr (i * c.idxStep) s.start)) 0 (i * c.idxStep + c.idxStep) (j * c.idxStep)) := by
          intro hfull
          have hperm₁ : (chain (Function.update s.mem (idxToPtr (i * c.idxStep) s.start) s.freelist) s.start c.limit 0
              (i * c.idxStep :: hosts) ++ c.seg (i + 1) j).Perm T := by
            rw [chain_host c hobj hxobj hxfresh hfull]
            refine List.Perm.trans ?_ hperm
            rw [c.seg_cons hij]
            exact List.perm_middle.symm
          have hbuilt := ih { s.write (idxToPtr (i * c.idxStep) s.start) s.freelist with freelist := i * c.idxStep }
            (some (idxToPtr (i * c.idxStep) s.start)) 0 (i + 1) j (i * c.idxStep :: hosts) hj (by omega) rfl
            (linked_host c hobj hxobj hxfresh hlinked) (Nat.zero_le _) hperm₁
          rw [Nat.succ_mul] at hbuilt
          exact hbuilt
        cases hosts with
        | nil =>
            subst hhost
            simp only [List.head?_nil, Option.map_none, Option.filter_none]
            exact hnewHost (Or.inl rfl)
        | cons h hs =>
            subst hhost
            by_cases he' : e = c.limit
            · have hfilter : (some (idxToPtr h s.start)).filter (fun _ => e != c.size / 2 - 1) = none := by
                simp only [Option.filter_some]
                rw [if_neg (by simp only [bne_iff_ne, ne_eq, not_not]; exact he')]
              simp only [List.head?_cons, Option.map_some, hfilter]
              exact hnewHost (Or.inr he')
            · -- embed the last object still free into the first host
              have hfilter : (some (idxToPtr h s.start)).filter (fun _ => e != c.size / 2 - 1) =
                  some (idxToPtr h s.start) := by
                simp only [Option.filter_some]
                rw [if_pos (by simp only [bne_iff_ne, ne_eq]; exact he')]
              have hlt : e < c.limit := Nat.lt_of_le_of_ne he he'
              have hlast : c.seg i j = c.seg i (j - 1) ++ [(j - 1) * c.idxStep] := by
                rw [← c.seg_append (i := i) (j := j - 1) (k := j) (by omega) (by omega),
                  c.seg_cons (i := j - 1) (j := j) (by omega)]
                have hj' : j - 1 + 1 = j := by omega
                rw [hj', ListClass.seg_self]
              have hperm₁ : (chain (Function.update s.mem (hostSlot (idxToPtr h s.start) (e + 1)) ((j - 1) * c.idxStep))
                  s.start c.limit (e + 1) (h :: hs) ++ c.seg i (j - 1)).Perm T := by
                rw [chain_embed c hobj (chain_head_not_mem (List.sublist_append_left _ _ |>.nodup hnd)) hlt]
                refine List.Perm.trans ?_ hperm
                rw [hlast, List.perm_iff_count]
                intro a
                simp only [chain, List.count_append, List.count_cons, List.cons_append, List.count_nil]
                omega
              have hbuilt := ih (s.write (hostSlot (idxToPtr h s.start) (e + 1)) ((j - 1) * c.idxStep))
                (some (idxToPtr h s.start)) (e + 1) i (j - 1) (h :: hs) (by omega) (by omega) rfl
                ((linked_embed c hobj hlt).mpr hlinked) hlt hperm₁
              rw [Nat.sub_one_mul] at hbuilt
              simp only [List.head?_cons, Option.map_some, hfilter]
              exact hbuilt
      · rw [if_neg fun h => hij ((idxStep_lt_iff c).mp h)]
        have hseg : c.seg i j = [] := by simp [ListClass.seg]; omega
        rw [hseg, List.append_nil] at hperm
        exact ⟨⟨hosts, hlinked, hperm⟩, he, rfl, rfl, rfl⟩

theorem buildFreelist_eq (s : Span b) (batchSize : Nat) :
    s.buildFreelist c.size c.count batchSize =
      let loaded := buildCacheLoop b c.idxStep (c.count * c.idxStep) b.kCacheSize (min batchSize c.count * c.idxStep) []
      let built := buildHostLoop c.idxStep (c.size / 2 - 1) c.count
        { s with freelist := kListEnd, allocated := min batchSize c.count, cache := loaded.2 } none 0 loaded.1
        (c.count * c.idxStep)
      ((List.range (min batchSize c.count)).map fun i => s.start + i * c.size, { built.1 with embedCount := built.2 }) := by
  unfold buildFreelist
  simp only [c.list, Bool.false_eq_true, if_false]
  rw [Nat.mul_comm (c.size / kAlignment)]
  rfl

theorem seg_zero_map_idxToPtr (start n : Nat) :
    (c.seg 0 n).map (idxToPtr · start) = (List.range n).map fun i => start + i * c.size := by
  simp only [ListClass.seg, Nat.sub_zero, ← List.range_eq_range', List.map_map]
  apply List.map_congr_left
  intro i _
  simp only [Function.comp_apply, idxToPtr_eq, Nat.mul_assoc, c.idxStep_mul]

theorem buildFreelist_spec (s : Span b) (haligned : s.start % b.kPageSize = 0) (batchSize : Nat) :
    ∃ hosts, (s.buildFreelist c.size c.count batchSize).1 = (c.seg 0 (min batchSize c.count)).map (idxToPtr · s.start) ∧
      Holds c (s.buildFreelist c.size c.count batchSize).2 hosts ∧
      ((s.buildFreelist c.size c.count batchSize).2.held c.limit hosts).Perm (c.seg (min batchSize c.count) c.count) ∧
      (s.buildFreelist c.size c.count batchSize).2.allocated = min batchSize c.count := by
  have hcacheLoop := buildCacheLoop_eq c b.kCacheSize (min batchSize c.count) [] (by simp)
  have hfrom : min batchSize c.count + min b.kCacheSize (c.count - min batchSize c.count) ≤ c.count := by omega
  have hbuilt := buildHostLoop_spec c
    (T := c.seg (min batchSize c.count + min b.kCacheSize (c.count - min batchSize c.count)) c.count)
    (c.seg_nodup _ _) (fun x hx => c.seg_sub le_rfl hx) c.count
    { s with
      freelist := kListEnd, allocated := min batchSize c.count,
      cache := [] ++ c.seg (min batchSize c.count)
        (min batchSize c.count + min b.kCacheSize (c.count - min batchSize c.count)) }
    none 0 (min batchSize c.count + min b.kCacheSize (c.count - min batchSize c.count)) c.count [] le_rfl
    (by omega) rfl rfl (Nat.zero_le _) (by simp [chain])
  rw [buildFreelist_eq]
  simp only [hcacheLoop]
  generalize buildHostLoop c.idxStep (c.size / 2 - 1) c.count
    { s with
      freelist := kListEnd, allocated := min batchSize c.count,
      cache := [] ++ c.seg (min batchSize c.count)
        (min batchSize c.count + min b.kCacheSize (c.count - min batchSize c.count)) }
    none 0 ((min batchSize c.count + min b.kCacheSize (c.count - min batchSize c.count)) * c.idxStep)
    (c.count * c.idxStep) = built at hbuilt ⊢
  obtain ⟨⟨hosts, hlinked, hperm⟩, he, hstart, hcache, halloc⟩ := hbuilt
  -- the cache took the objects past the batch, the chain all the rest
  have hheld : c.seg (min batchSize c.count)
      (min batchSize c.count + min b.kCacheSize (c.count - min batchSize c.count)) ++
      c.seg (min batchSize c.count + min b.kCacheSize (c.count - min batchSize c.count)) c.count =
      c.seg (min batchSize c.count) c.count := c.seg_append (by omega) hfrom
  have hheldPerm : (held { built.1 with embedCount := built.2 } c.limit hosts).Perm
      (c.seg (min batchSize c.count) c.count) := by
    simp only [held, hcache, hstart, List.nil_append]
    rw [← hheld]
    exact hperm.append_left _
  refine ⟨hosts, (seg_zero_map_idxToPtr c _ _).symm, ⟨?_, ?_, ?_, he, ?_, ?_⟩, hheldPerm, halloc⟩
  · simpa only [hstart] using haligned
  · simp only [hcache, List.nil_append, ListClass.seg, List.length_map, List.length_range']
    omega
  · simpa only [hstart] using hlinked
  · exact hheldPerm.nodup_iff.mpr (c.seg_nodup _ _)
  · exact fun x hx => c.seg_sub le_rfl (hheldPerm.subset hx)

end Build

section Run

variable (c : ListClass b)

theorem freelistPopBatch_eq (s : Span b) (n : Nat) : s.freelistPopBatch n c.size = s.listPopBatch n c.size := by
  simp [freelistPopBatch, c.list]

theorem freelistPushBatch_eq (s : Span b) (batch : List Nat) (reciprocal : Nat) :
    s.freelistPushBatch batch c.size reciprocal =
      if s.allocated = batch.length then (false, s)
      else (true, { s with allocated := s.allocated - batch.length }.listPushBatch batch c.size) := by
  simp [freelistPushBatch, c.list]

theorem freelistPushBatchIdx_eq {s : Span b} (haligned : s.start % b.kPageSize = 0) {idxs : List Nat}
    (hobj : ∀ x ∈ idxs, x ∈ c.objects) (reciprocal : Nat) :
    s.freelistPushBatchIdx idxs c.size = s.freelistPushBatch (idxs.map (idxToPtr · s.start)) c.size reciprocal := by
  rw [freelistPushBatch_eq, List.length_map]
  simp only [freelistPushBatchIdx, c.list, Bool.false_eq_true, if_false]
  split
  · rfl
  · rw [listPushBatchIdx_eq (s := { s with allocated := s.allocated - idxs.length }) haligned hobj]

/-- What a caller does with a span of a size class of the compressed freelist. -/
inductive Call
  /-- `FreelistPopBatch(batch, size)` with room for `n` objects. -/
  | popBatch (n : Nat)
  /-- `FreelistPushBatch(batch, size, reciprocal)` with a batch of pointers. -/
  | pushBatch (ptrs : List Nat)
  /-- `FreelistPushBatch(batch, size, reciprocal)` with a batch of `ObjIdx`. -/
  | pushBatchIdx (idxs : List Nat)
  deriving DecidableEq, Repr

/-- A span and the `ObjIdx` of the objects it handed out that have not come back. -/
structure State (b : Build) where
  span : Span b
  out : List Nat

/-- The state after `BuildFreelist(size, count, batch)`. -/
def build (s : Span b) (batchSize : Nat) : State b :=
  ⟨(s.buildFreelist c.size c.count batchSize).2, (s.buildFreelist c.size c.count batchSize).1.map (ptrToIdx b)⟩

/-- A call: the popped objects join `out`, and the pushed ones leave it when
`FreelistPushBatch` takes them. -/
def step (st : State b) : Call → Option (State b)
  | .popBatch n =>
      some ⟨(st.span.freelistPopBatch n c.size).2, st.out ++ (st.span.freelistPopBatch n c.size).1.map (ptrToIdx b)⟩
  | .pushBatch ptrs =>
      some ⟨(st.span.freelistPushBatch ptrs c.size (calcReciprocal c.size)).2,
        if (st.span.freelistPushBatch ptrs c.size (calcReciprocal c.size)).1 then
          st.out.filter (· ∉ ptrs.map (ptrToIdx b)) else st.out⟩
  | .pushBatchIdx idxs =>
      some ⟨(st.span.freelistPushBatchIdx idxs c.size).2,
        if (st.span.freelistPushBatchIdx idxs c.size).1 then st.out.filter (· ∉ idxs) else st.out⟩

/-- What callers promise: a push returns objects they hold, each once. -/
def Allowed (st : State b) : Call → Prop
  | .popBatch _ => True
  | .pushBatch ptrs => ∃ idxs : List Nat, idxs.Nodup ∧ (∀ x ∈ idxs, x ∈ st.out) ∧
      ptrs = idxs.map (idxToPtr · st.span.start)
  | .pushBatchIdx idxs => idxs.Nodup ∧ ∀ x ∈ idxs, x ∈ st.out

/-- A span with chain `hosts` keeps `Holds`, what it holds and what its callers
hold are all its objects, each once, and `allocated_` counts the latter. -/
structure Conserves (st : State b) (hosts : List Nat) : Prop where
  holds : Holds c st.span hosts
  perm : (st.span.held c.limit hosts ++ st.out).Perm c.objects
  allocated : st.span.allocated = st.out.length

def Inv (st : State b) : Prop := ∃ hosts, Conserves c st hosts

variable {c}

theorem Conserves.out_nodup {st : State b} {hosts : List Nat} (h : Conserves c st hosts) : st.out.Nodup :=
  (List.sublist_append_right _ _).nodup (h.perm.nodup_iff.mpr (c.seg_nodup 0 c.count))

theorem Conserves.out_sub {st : State b} {hosts : List Nat} (h : Conserves c st hosts) : ∀ x ∈ st.out, x ∈ c.objects :=
  fun _ hx => h.perm.subset (List.mem_append_right _ hx)

theorem build_inv (s : Span b) (haligned : s.start % b.kPageSize = 0) (batchSize : Nat) :
    Inv c (build c s batchSize) := by
  obtain ⟨hosts, hout, H, hperm, halloc⟩ := buildFreelist_spec c s haligned batchSize
  have hidx : (s.buildFreelist c.size c.count batchSize).1.map (ptrToIdx b) = c.seg 0 (min batchSize c.count) := by
    rw [hout]
    exact map_ptrToIdx_idxToPtr c haligned fun x hx => c.seg_sub (Nat.min_le_right _ _) hx
  refine ⟨hosts, H, ?_, ?_⟩
  · show ((s.buildFreelist c.size c.count batchSize).2.held c.limit hosts ++
      (s.buildFreelist c.size c.count batchSize).1.map (ptrToIdx b)).Perm c.objects
    rw [hidx, ListClass.objects, ← c.seg_append (Nat.zero_le _) (Nat.min_le_right batchSize c.count)]
    exact (hperm.append_right _).trans List.perm_append_comm
  · show (s.buildFreelist c.size c.count batchSize).2.allocated =
      ((s.buildFreelist c.size c.count batchSize).1.map (ptrToIdx b)).length
    rw [halloc, hidx, ListClass.seg, List.length_map, List.length_range']
    omega

theorem Conserves.pop {st : State b} {hosts : List Nat} (h : Conserves c st hosts) (n : Nat) :
    ∃ hosts', Conserves c ⟨(st.span.freelistPopBatch n c.size).2,
        st.out ++ (st.span.freelistPopBatch n c.size).1.map (ptrToIdx b)⟩ hosts' ∧
      (st.span.freelistPopBatch n c.size).1.length = min n (st.span.held c.limit hosts).length := by
  obtain ⟨xs, hosts', hout, H', hperm', hlen, halloc'⟩ := listPopBatch_spec h.holds n
  have hxs : ∀ x ∈ xs, x ∈ c.objects := fun x hx => h.holds.sub x (hperm'.subset (List.mem_append_right _ hx))
  have hidx : (st.span.listPopBatch n c.size).1.map (ptrToIdx b) = xs := by
    rw [hout]
    exact map_ptrToIdx_idxToPtr c h.holds.aligned hxs
  simp only [freelistPopBatch_eq]
  refine ⟨hosts', ⟨H', ?_, ?_⟩, by rw [hout, List.length_map, hlen]⟩
  · show ((st.span.listPopBatch n c.size).2.held c.limit hosts' ++
      (st.out ++ (st.span.listPopBatch n c.size).1.map (ptrToIdx b))).Perm c.objects
    rw [hidx]
    -- what the span still holds and what it handed out are what it held
    refine ((List.perm_append_comm.append_left _).trans (List.Perm.of_eq (List.append_assoc _ _ _).symm)).trans ?_
    exact (hperm'.append_right _).trans h.perm
  · show (st.span.listPopBatch n c.size).2.allocated = (st.out ++ (st.span.listPopBatch n c.size).1.map (ptrToIdx b)).length
    rw [halloc', hidx, List.length_append, h.allocated]

theorem perm_filter_not_mem {out idxs : List Nat} (hout : out.Nodup) (hnd : idxs.Nodup) (hsub : ∀ x ∈ idxs, x ∈ out) :
    (idxs ++ out.filter (· ∉ idxs)).Perm out := by
  have hin : (out.filter (· ∈ idxs)).Perm idxs := by
    rw [List.perm_ext_iff_of_nodup (hout.filter _) hnd]
    intro x
    simp only [List.mem_filter, decide_eq_true_eq]
    exact ⟨fun hx => hx.2, fun hx => ⟨hsub x hx, hx⟩⟩
  have hsplit := List.filter_append_perm (· ∈ idxs) out
  simp only [decide_not] at hsplit ⊢
  exact (hin.symm.append_right _).trans hsplit

theorem Conserves.fresh {st : State b} {hosts : List Nat} (h : Conserves c st hosts) {idxs : List Nat}
    (hnd : idxs.Nodup) (hsub : ∀ x ∈ idxs, x ∈ st.out) : (idxs ++ st.span.held c.limit hosts).Nodup := by
  have hall := h.perm.nodup_iff.mpr (c.seg_nodup 0 c.count)
  refine List.Nodup.append hnd h.holds.nodup fun x hx hheld => ?_
  exact List.disjoint_of_nodup_append hall hheld (hsub x hx)

theorem Conserves.push {st : State b} {hosts : List Nat} (h : Conserves c st hosts) {idxs : List Nat}
    (hnd : idxs.Nodup) (hsub : ∀ x ∈ idxs, x ∈ st.out) (reciprocal : Nat) :
    Inv c ⟨(st.span.freelistPushBatch (idxs.map (idxToPtr · st.span.start)) c.size reciprocal).2,
      if (st.span.freelistPushBatch (idxs.map (idxToPtr · st.span.start)) c.size reciprocal).1 then
        st.out.filter (· ∉ idxs) else st.out⟩ := by
  rw [freelistPushBatch_eq]
  split
  · exact ⟨hosts, h⟩
  · simp only [if_true]
    obtain ⟨hosts', H', hperm', halloc'⟩ :=
      listPushBatch_spec (h.holds.with_allocated (st.span.allocated - (idxs.map (idxToPtr · st.span.start)).length))
        (h.fresh hnd hsub) fun x hx => h.out_sub x (hsub x hx)
    have hsplit := perm_filter_not_mem h.out_nodup hnd hsub
    refine ⟨hosts', H', ?_, ?_⟩
    · -- the objects pushed move from `out` to what the span holds
      refine (hperm'.append_right _).trans ?_
      refine (List.Perm.of_eq (List.append_assoc _ _ _)).trans ?_
      exact (List.perm_append_comm_assoc _ _ _).trans ((hsplit.append_left _).trans h.perm)
    · show (listPushBatch _ _ c.size).allocated = (st.out.filter (· ∉ idxs)).length
      rw [halloc']
      dsimp only
      rw [List.length_map, h.allocated, ← hsplit.length_eq, List.length_append]
      omega

theorem Conserves.push_returns {st : State b} {hosts : List Nat} (h : Conserves c st hosts) {idxs : List Nat}
    (hnd : idxs.Nodup) (hsub : ∀ x ∈ idxs, x ∈ st.out) (hlast : idxs.length < st.out.length) (reciprocal : Nat) :
    (st.span.freelistPushBatch (idxs.map (idxToPtr · st.span.start)) c.size reciprocal).1 = true ∧
      ∃ hosts', ((st.span.freelistPushBatch (idxs.map (idxToPtr · st.span.start)) c.size reciprocal).2.held
        c.limit hosts').Perm (idxs ++ st.span.held c.limit hosts) := by
  have hne : st.span.allocated ≠ (idxs.map (idxToPtr · st.span.start)).length := by
    rw [h.allocated, List.length_map]
    omega
  obtain ⟨hosts', -, hperm', -⟩ :=
    listPushBatch_spec (h.holds.with_allocated (st.span.allocated - (idxs.map (idxToPtr · st.span.start)).length))
      (h.fresh hnd hsub) fun x hx => h.out_sub x (hsub x hx)
  rw [freelistPushBatch_eq, if_neg hne]
  exact ⟨rfl, hosts', hperm'⟩

theorem step_inv {st st' : State b} {call : Call} (hinv : Inv c st) (hok : Allowed st call)
    (hstep : step c st call = some st') : Inv c st' := by
  obtain ⟨hosts, h⟩ := hinv
  cases call with
  | popBatch n =>
      cases hstep
      obtain ⟨hosts', h', -⟩ := h.pop n
      exact ⟨hosts', h'⟩
  | pushBatch ptrs =>
      obtain ⟨idxs, hnd, hsub, rfl⟩ := hok
      cases hstep
      have hidx : (idxs.map (idxToPtr · st.span.start)).map (ptrToIdx b) = idxs :=
        map_ptrToIdx_idxToPtr c h.holds.aligned fun x hx => h.out_sub x (hsub x hx)
      simp only [hidx]
      exact h.push hnd hsub _
  | pushBatchIdx idxs =>
      obtain ⟨hnd, hsub⟩ := hok
      cases hstep
      rw [freelistPushBatchIdx_eq c h.holds.aligned (fun x hx => h.out_sub x (hsub x hx)) (calcReciprocal c.size)]
      exact h.push hnd hsub _

theorem run_inv {s : Span b} (haligned : s.start % b.kPageSize = 0) (batchSize : Nat) {calls : List Call}
    {st : State b} (run : Run (step c) Allowed (build c s batchSize) calls st) : Inv c st :=
  run.invariant (Inv c) (fun _ _ _ hinv hok hstep => step_inv hinv hok hstep) (build_inv s haligned batchSize)

/-- From `BuildFreelist(size, count, batch)` and after any calls of
`FreelistPopBatch` and `FreelistPushBatch` (pointer or `ObjIdx` form) that
return objects the caller holds, each once, the span holds its objects in the
cache and in the chain of hosts linked from `freelist_` (the first embedding
`embed_count_` indices, every other one `size / 2 - 1`); what it holds is
duplicate-free and is its objects `0, idxStep, ..., (count - 1) * idxStep`
less those handed out; `allocated_` is `count` less what it holds; no index it
holds is `kListEnd`; `FreelistPopBatch(n)` hands out `min n` of them; and a
push, in either form, of objects the callers hold, each once and not the span's
last outstanding batch, returns `true` and leaves the span holding them with
what it held. -/
theorem span_freelist_conserves (c : ListClass b) {s : Span b} (haligned : s.start % b.kPageSize = 0)
    (batchSize : Nat) {calls : List Call} {st : State b} (run : Run (step c) Allowed (build c s batchSize) calls st) :
    ∃ hosts, Holds c st.span hosts ∧ (st.span.held c.limit hosts).Nodup ∧
      (st.span.held c.limit hosts ++ st.out).Perm c.objects ∧
      st.span.allocated = c.count - (st.span.held c.limit hosts).length ∧
      (∀ x ∈ st.span.held c.limit hosts, x ≠ kListEnd) ∧
      (∀ n, (st.span.freelistPopBatch n c.size).1.length = min n (st.span.held c.limit hosts).length) ∧
      (∀ idxs : List Nat, idxs.Nodup → (∀ x ∈ idxs, x ∈ st.out) → idxs.length < st.out.length →
        (st.span.freelistPushBatchIdx idxs c.size).1 = true ∧
          ∃ hosts', ((st.span.freelistPushBatchIdx idxs c.size).2.held c.limit hosts').Perm
            (idxs ++ st.span.held c.limit hosts)) ∧
      ∀ idxs : List Nat, idxs.Nodup → (∀ x ∈ idxs, x ∈ st.out) → idxs.length < st.out.length →
        (st.span.freelistPushBatch (idxs.map (idxToPtr · st.span.start)) c.size (calcReciprocal c.size)).1 = true ∧
          ∃ hosts', ((st.span.freelistPushBatch (idxs.map (idxToPtr · st.span.start)) c.size
            (calcReciprocal c.size)).2.held c.limit hosts').Perm (idxs ++ st.span.held c.limit hosts) := by
  obtain ⟨hosts, h⟩ := run_inv haligned batchSize run
  have hcount : (st.span.held c.limit hosts).length + st.out.length = c.count := by
    rw [← List.length_append, h.perm.length_eq, ListClass.objects, ListClass.seg, List.length_map,
      List.length_range', Nat.sub_zero]
  refine ⟨hosts, h.holds, h.holds.nodup, h.perm, by rw [h.allocated]; omega,
    fun x hx => c.ne_kListEnd (h.holds.sub x hx), fun n => ?_, fun idxs hnd hsub hlast => ?_,
    fun idxs hnd hsub hlast => h.push_returns hnd hsub hlast _⟩
  · obtain ⟨_, _, hlen⟩ := h.pop n
    exact hlen
  · rw [freelistPushBatchIdx_eq c h.holds.aligned (fun x hx => h.out_sub x (hsub x hx)) (calcReciprocal c.size)]
    exact h.push_returns hnd hsub hlast _

theorem class16_size_pos : 0 < 16 := by decide

/-- A size class of 16-byte objects, twenty to a span. -/
def class16 : ListClass defaultBuild := ⟨16, 20, by decide, class16_size_pos, by decide, by decide⟩

/-- A fresh one-page span at address `2 ^ 16`. -/
def span16 : Span defaultBuild := ⟨2 ^ 16, 0, [], kListEnd, 0, Internal.Bitmap.empty, fun _ => 0⟩

theorem span_freelist_conserves_after_pop_push :
    span16.start % defaultBuild.kPageSize = 0 ∧
      ∃ calls st, Run (step class16) Allowed (build class16 span16 1) calls st ∧
        ∃ hosts, Holds class16 st.span hosts ∧ (st.span.held class16.limit hosts).Nodup ∧
          (st.span.held class16.limit hosts ++ st.out).Perm class16.objects ∧
          st.span.allocated = class16.count - (st.span.held class16.limit hosts).length ∧
          (∀ x ∈ st.span.held class16.limit hosts, x ≠ kListEnd) ∧
          (∀ n, (st.span.freelistPopBatch n class16.size).1.length =
            min n (st.span.held class16.limit hosts).length) ∧
          (∀ idxs : List Nat, idxs.Nodup → (∀ x ∈ idxs, x ∈ st.out) → idxs.length < st.out.length →
            (st.span.freelistPushBatchIdx idxs class16.size).1 = true ∧
              ∃ hosts', ((st.span.freelistPushBatchIdx idxs class16.size).2.held class16.limit hosts').Perm
                (idxs ++ st.span.held class16.limit hosts)) ∧
          ∀ idxs : List Nat, idxs.Nodup → (∀ x ∈ idxs, x ∈ st.out) → idxs.length < st.out.length →
            (st.span.freelistPushBatch (idxs.map (idxToPtr · st.span.start)) class16.size
              (calcReciprocal class16.size)).1 = true ∧
              ∃ hosts', ((st.span.freelistPushBatch (idxs.map (idxToPtr · st.span.start)) class16.size
                (calcReciprocal class16.size)).2.held class16.limit hosts').Perm
                  (idxs ++ st.span.held class16.limit hosts) := by
  have haligned : span16.start % defaultBuild.kPageSize = 0 := by decide
  have run : Run (step class16) Allowed (build class16 span16 1) [.popBatch 14, .pushBatchIdx [0]] _ :=
    .cons trivial rfl (.cons ⟨by decide, by decide⟩ rfl (.nil _))
  exact ⟨haligned, _, _, run, span_freelist_conserves class16 haligned 1 run⟩

end Run

end TCMalloc.Span
