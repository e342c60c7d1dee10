import TCMalloc.Internal.Percpu.Slab
import TCMalloc.Internal.PercpuTcmalloc

/-!
The region of one cpu against the slab `CpuCache` reasons about: `TcmallocSlab`
keeps, per class, only `Length = current - begin` and `Capacity = end - begin`.
Under `Inv`, each operation on the region does to these what the operation of
`TcmallocSlab` does and returns what it returns, so what the budget proofs of
`CpuCache` show of `TcmallocSlab` holds of the slabs' memory.
-/

set_option autoImplicit false
set_option relaxedAutoImplicit false

namespace TCMalloc.Internal.Percpu

open TCMalloc.Lib

/-- The headers of `cpu` in `s` are the lengths and capacities of the region's headers. -/
def Abstracts (L : Layout) (m : CpuMemory) (s : TcmallocSlab) (cpu : Nat) : Prop :=
  ∀ c, L.IsClass c → s.length cpu c = (m.header c).current - L.begins c ∧
    s.capacity cpu c = (m.header c).end_ - L.begins c

section Refinement

variable {L : Layout} {m m' : CpuMemory} {s s' : TcmallocSlab} {cpu c : Nat}

theorem Abstracts.update (hab : Abstracts L m s cpu) {n : Nat} (t : s.Touched s' cpu c n)
    (hm : ∀ c', c' ≠ c → m'.header c' = m.header c')
    (hlen : s'.length cpu c = (m'.header c).current - L.begins c)
    (hcap : s'.capacity cpu c = (m'.header c).end_ - L.begins c) : Abstracts L m' s' cpu := by
  intro c' hc'
  by_cases hne : c' = c
  · subst hne
    exact ⟨hlen, hcap⟩
  · have hs : s'.header cpu c' = s.header cpu c' := t.other cpu c' (Or.inr hne)
    simp only [TcmallocSlab.length, TcmallocSlab.capacity, hs, hm c' hne]
    exact hab c' hc'

theorem push_abstracts (hab : Abstracts L m s cpu) (inv : Inv L m) (hc : L.IsClass c) (item : Nat) :
    Abstracts L (m.push c item).1 (s.push cpu c).1 cpu ∧ (m.push c item).2 = (s.push cpu c).2 := by
  obtain ⟨hlen, hcap⟩ := hab c hc
  have hb := inv.begin_le c hc
  have hce := inv.current_le c hc
  unfold TcmallocSlab.push
  simp only [TcmallocSlab.length, TcmallocSlab.capacity] at hlen hcap
  by_cases h : (m.header c).current < (m.header c).end_
  · have habs : (s.header cpu c).length < (s.header cpu c).capacity := by omega
    rw [push_of_lt inv hc h, dif_pos habs]
    refine ⟨hab.update (TcmallocSlab.touched_setHeader _) (fun c' hne => Function.update_of_ne hne _ _) ?_ ?_, rfl⟩
      <;> simp [TcmallocSlab.length, TcmallocSlab.capacity, TcmallocSlab.setHeader_header]
    · omega
    · omega
  · have habs : ¬ (s.header cpu c).length < (s.header cpu c).capacity := by omega
    rw [push_of_ge (by omega), dif_neg habs]
    exact ⟨hab, rfl⟩

theorem pop_abstracts (hab : Abstracts L m s cpu) (inv : Inv L m) (hc : L.IsClass c) :
    Abstracts L (m.pop c).1 (s.pop cpu c).1 cpu ∧ (m.pop c).2.isSome = (s.pop cpu c).2 := by
  obtain ⟨hlen, hcap⟩ := hab c hc
  have hce := inv.current_le c hc
  unfold TcmallocSlab.pop
  simp only [TcmallocSlab.length, TcmallocSlab.capacity] at hlen hcap
  rcases Nat.eq_or_lt_of_le (inv.begin_le c hc) with h | h
  · have habs : ¬ 0 < (s.header cpu c).length := by omega
    rw [pop_of_eq inv hc h.symm, if_neg habs]
    exact ⟨hab, rfl⟩
  · have habs : 0 < (s.header cpu c).length := by omega
    rw [pop_of_lt inv hc h, if_pos habs]
    refine ⟨hab.update (TcmallocSlab.touched_setHeader _) (fun c' hne => Function.update_of_ne hne _ _) ?_ ?_, rfl⟩
      <;> simp [TcmallocSlab.length, TcmallocSlab.capacity, TcmallocSlab.setHeader_header]
    · omega
    · omega

theorem grow_abstracts (hab : Abstracts L m s cpu) (inv : Inv L m) (hc : L.IsClass c) (len : Nat)
    {maxCapacity : Nat → Nat} (hmax : maxCapacity s.shift = L.capacity c) (stored : Bool) :
    Abstracts L (m.grow L.begins c len (L.capacity c) stored).1 (s.grow cpu c len maxCapacity stored).1 cpu ∧
      (m.grow L.begins c len (L.capacity c) stored).2 = (s.grow cpu c len maxCapacity stored).2 := by
  obtain ⟨hlen, hcap⟩ := hab c hc
  have hce := inv.current_le c hc
  have hb := inv.begin_le c hc
  have hle := inv.end_le c hc
  have hend := L.end_lt c hc.1 hc.2
  simp only [TcmallocSlab.length, TcmallocSlab.capacity] at hlen hcap
  rw [grow_eq inv hc]
  unfold TcmallocSlab.grow
  simp only [hmax, hcap]
  by_cases hroom : (m.header c).end_ < L.begins c + L.capacity c
  · have hroom' : ¬ ((L.capacity c : Int) - ((m.header c).end_ - L.begins c : Nat) ≤ 0) := by omega
    have hnat : ((L.capacity c : Int) - ((m.header c).end_ - L.begins c : Nat)).toNat % 2 ^ 16 =
        L.begins c + L.capacity c - (m.header c).end_ := by omega
    rw [if_neg hroom']
    simp only [hnat]
    cases stored
    · simp only [Bool.false_eq_true, false_and, if_false]
      exact ⟨hab, trivial⟩
    · rw [if_pos ⟨rfl, hroom⟩, if_pos rfl]
      refine ⟨hab.update (TcmallocSlab.touched_setHeader _) (fun c' hne => Function.update_of_ne hne _ _) ?_ ?_, rfl⟩
        <;> simp [TcmallocSlab.length, TcmallocSlab.capacity, TcmallocSlab.setHeader_header]
      · omega
      · omega
  · have hroom' : (L.capacity c : Int) - ((m.header c).end_ - L.begins c : Nat) ≤ 0 := by omega
    rw [if_neg (by omega), if_pos hroom']
    exact ⟨hab, rfl⟩

theorem growOtherCache_abstracts (hab : Abstracts L m s cpu) (inv : Inv L m) (hc : L.IsClass c) (len : Nat)
    {maxCapacity : Nat → Nat} (hmax : maxCapacity s.shift = L.capacity c) :
    Abstracts L (m.growOtherCache L.begins c len (L.capacity c)).1 (s.growOtherCache cpu c len maxCapacity).1 cpu ∧
      (m.growOtherCache L.begins c len (L.capacity c)).2 = (s.growOtherCache cpu c len maxCapacity).2 := by
  obtain ⟨hlen, hcap⟩ := hab c hc
  have hb := inv.begin_le c hc
  have hce := inv.current_le c hc
  have hle := inv.end_le c hc
  have hend := L.end_lt c hc.1 hc.2
  simp only [TcmallocSlab.length, TcmallocSlab.capacity] at hlen hcap
  rw [growOtherCache_eq inv hc]
  unfold TcmallocSlab.growOtherCache
  have hnat : (((L.capacity c : Int) - ((m.header c).end_ - L.begins c : Nat)) % 2 ^ 16).toNat =
      L.begins c + L.capacity c - (m.header c).end_ := by omega
  simp only [hmax, hcap, hnat]
  constructor
  · apply hab.update (TcmallocSlab.touched_setHeader _) (fun c' hne => Function.update_of_ne hne _ _)
      <;> simp [TcmallocSlab.length, TcmallocSlab.capacity, TcmallocSlab.setHeader_header]
    · omega
    · omega
  · trivial

theorem shrinkOtherCache_abstracts (hab : Abstracts L m s cpu) (inv : Inv L m) (hc : L.IsClass c) (len : Nat) :
    Abstracts L (m.shrinkOtherCache L.begins c len).1 (s.shrinkOtherCache cpu c len).1 cpu ∧
      (m.shrinkOtherCache L.begins c len).2.1 = (s.shrinkOtherCache cpu c len).2 := by
  obtain ⟨hlen, hcap⟩ := hab c hc
  have hb := inv.begin_le c hc
  have hce := inv.current_le c hc
  have hend := inv.end_lt hc
  simp only [TcmallocSlab.length, TcmallocSlab.capacity] at hlen hcap
  obtain ⟨pop, hpopdef, hpop, -, hshrink, hmem⟩ := shrinkOtherCache_spec inv hc len
  -- the abstract length left after popping is the concrete `current - pop`, from `begin`
  have hcur : TcmallocSlab.shrinkLength (s.header cpu c) len = (m.header c).current - pop - L.begins c := by
    have hunused : ((s.header cpu c).capacity - (s.header cpu c).length) % 2 ^ 16 =
        (m.header c).end_ - (m.header c).current := by
      rw [hlen, hcap, Nat.mod_eq_of_lt (by omega)]
      omega
    have hlength : (s.header cpu c).length % 2 ^ 16 = (m.header c).current - L.begins c := by
      rw [hlen]
      exact Nat.mod_eq_of_lt (by omega)
    unfold TcmallocSlab.shrinkLength
    simp only [hunused, hlength]
    rw [hpopdef, shrinkPop]
    by_cases hcond : (m.header c).end_ - (m.header c).current < len ∧ (m.header c).current ≠ L.begins c
    · rw [if_pos ⟨hcond.1, by omega⟩, if_pos hcond, hlen]
      omega
    · rw [if_neg (by omega), if_neg hcond, hlen]
      omega
  have hs₂ : (s.shrinkOtherCache cpu c len).2 =
      min (len % 2 ^ 16) (((s.header cpu c).capacity - TcmallocSlab.shrinkLength (s.header cpu c) len) % 2 ^ 16) :=
    rfl
  have hslen : (s.shrinkOtherCache cpu c len).1.length cpu c = TcmallocSlab.shrinkLength (s.header cpu c) len := by
    simp [TcmallocSlab.shrinkOtherCache, TcmallocSlab.length, TcmallocSlab.setHeader_header]
  have hout : (m.shrinkOtherCache L.begins c len).2.1 = (s.shrinkOtherCache cpu c len).2 := by
    have hlt : (m.header c).end_ - L.begins c - ((m.header c).current - pop - L.begins c) < 2 ^ 16 := by omega
    rw [hshrink, hs₂, hcur, hcap, Nat.mod_eq_of_lt hlt]
    congr 1
    omega
  obtain ⟨t, -, -⟩ : s.Touched (s.shrinkOtherCache cpu c len).1 cpu c
      (s.capacity cpu c - (s.shrinkOtherCache cpu c len).2) ∧ _ ∧ _ :=
    TcmallocSlab.shrinkOtherCache_touched len
  refine ⟨hab.update t (fun c' hne => ?_) ?_ ?_, hout⟩
  · rw [hmem]
    exact Function.update_of_ne hne _ _
  · rw [hslen, hcur, hmem]
    simp
  · rw [t.capacity_eq, ← hout, hshrink, hmem, TcmallocSlab.capacity, hcap]
    simp only [CpuMemory.setHeader_header, Function.update_self]
    omega

theorem drainCpu_abstracts (hab : Abstracts L m s cpu) (inv : Inv L m) :
    Abstracts L (m.drainCpu L.begins L.numClasses).1 (s.initCpu L.numClasses cpu) cpu ∧
      (m.drainCpu L.begins L.numClasses).2.map (fun d => (⟨cpu, d.sizeClass, d.size, d.cap⟩ : Drained)) =
        s.drained L.numClasses cpu := by
  rw [drainCpu_spec inv]
  refine ⟨fun c hc => ?_, ?_⟩
  · have hin : 0 < c ∧ c ≤ L.numClasses - 1 := ⟨hc.1, by have := hc.2; omega⟩
    have hempty : (s.initCpu L.numClasses cpu).header cpu c = Header.empty := by
      rw [TcmallocSlab.initCpu_header, if_pos ⟨rfl, hc.1, hc.2⟩]
    simp only [TcmallocSlab.length, TcmallocSlab.capacity, hempty, if_pos hin, Header.empty, Nat.sub_self, and_self]
  · rw [List.map_map, TcmallocSlab.drained]
    apply List.map_congr_left
    intro c hc
    rw [List.mem_range'_1] at hc
    obtain ⟨hlen, hcap⟩ := hab c ⟨hc.1, by omega⟩
    simp only [Function.comp_apply, hlen, hcap]

end Refinement

/-! ### Runs -/

/-- The operation of `TcmallocSlab` on `cpu` that a call on the region of `cpu` is. -/
def slabStep (L : Layout) (cpu : Nat) (s : TcmallocSlab) : Call → TcmallocSlab
  | .push c _ => (s.push cpu c).1
  | .pop c => (s.pop cpu c).1
  | .grow c len maxCap stored => (s.grow cpu c len (fun _ => maxCap) stored).1
  | .growOtherCache c len maxCap => (s.growOtherCache cpu c len fun _ => maxCap).1
  | .shrinkOtherCache c len => (s.shrinkOtherCache cpu c len).1
  | .drainCpu => (s.drain L.numClasses cpu).1

theorem abstracts_step {L : Layout} {m m' : CpuMemory} {s : TcmallocSlab} {cpu : Nat} {call : Call}
    (hab : Abstracts L m s cpu) (inv : Inv L m) (hok : Allowed L m call) (hstep : step L m call = some m') :
    Abstracts L m' (slabStep L cpu s call) cpu := by
  cases call with
  | push c item =>
      cases hstep
      exact (push_abstracts hab inv hok.1 item).1
  | pop c =>
      cases hstep
      exact (pop_abstracts hab inv hok).1
  | grow c len maxCap stored =>
      cases hstep
      obtain ⟨hc, rfl⟩ := hok
      exact (grow_abstracts hab inv hc len rfl stored).1
  | growOtherCache c len maxCap =>
      cases hstep
      obtain ⟨hc, rfl⟩ := hok
      exact (growOtherCache_abstracts hab inv hc len rfl).1
  | shrinkOtherCache c len =>
      cases hstep
      exact (shrinkOtherCache_abstracts hab inv hok len).1
  | drainCpu =>
      cases hstep
      exact (drainCpu_abstracts hab inv).1

theorem abstracts_run {L : Layout} {m m' : CpuMemory} {s : TcmallocSlab} {cpu : Nat} {calls : List Call}
    (run : Run (step L) (Allowed L) m calls m') (inv : Inv L m) (hab : Abstracts L m s cpu) :
    Inv L m' ∧ Abstracts L m' (calls.foldl (slabStep L cpu) s) cpu :=
  Run.invariant_fold (fun m s => Inv L m ∧ Abstracts L m s cpu) (slabStep L cpu)
    (fun _ _ _ _ h hok hstep => ⟨step_inv h.1 hok hstep, abstracts_step h.2 h.1 hok hstep⟩) run ⟨inv, hab⟩

/-! ### From `InitCpuImpl` -/

theorem abstracts_of_initCpuImpl {numClasses shift cpuStart : Nat} {capacity : Nat → Nat} {m m' : CpuMemory}
    (hfit : ∀ c, 1 ≤ c → c < numClasses → slotBegin capacity (headerWords numClasses) c + capacity c < 2 ^ 16)
    (hok : initCpuImpl numClasses shift cpuStart capacity m = .ok m') (s : TcmallocSlab) (cpu : Nat) :
    Abstracts (Layout.ofWalk numClasses capacity hfit) m' (s.initCpu numClasses cpu) cpu := by
  obtain ⟨-, hheader, -⟩ := initCpuImpl_ok hok
  intro c hc
  have hlt : slotBegin capacity (headerWords numClasses) c < 2 ^ 16 := by
    have := hfit c hc.1 hc.2
    omega
  have hempty : (s.initCpu numClasses cpu).header cpu c = Header.empty := by
    rw [TcmallocSlab.initCpu_header, if_pos ⟨rfl, hc.1, hc.2⟩]
  simp only [TcmallocSlab.length, TcmallocSlab.capacity, hempty, hheader c hc.1 hc.2, Nat.mod_eq_of_lt hlt]
  exact ⟨(Nat.sub_self _).symm, (Nat.sub_self _).symm⟩

/-- After `InitCpuImpl` lays out a cpu's region, the slab `CpuCache` reasons about, reset
by `InitCpu` for that cpu, follows the region along every run of calls: the region keeps
`Inv`, each class's `Length` and `Capacity` are `current - begin` and `end - begin`, and
`Length` counts the objects stacked in `[begin, current)`.  `Push` with room stacks its
object on top, `Pop` takes the top one, and `Push`, `Pop`, `Grow` and `ShrinkOtherCache` on
the region return what they return on the slab. -/
theorem percpu_region_refines_slab {numClasses shift cpuStart : Nat} {capacity : Nat → Nat}
    {m m' m'' : CpuMemory}
    (hfit : ∀ c, 1 ≤ c → c < numClasses → slotBegin capacity (headerWords numClasses) c + capacity c < 2 ^ 16)
    (hok : initCpuImpl numClasses shift cpuStart capacity m = .ok m') (s : TcmallocSlab) (cpu : Nat)
    {calls : List Call}
    (run : Run (step (Layout.ofWalk numClasses capacity hfit)) (Allowed (Layout.ofWalk numClasses capacity hfit))
      m' calls m'') :
    let L := Layout.ofWalk numClasses capacity hfit
    let s'' := calls.foldl (slabStep L cpu) (s.initCpu numClasses cpu)
    Inv L m'' ∧ Abstracts L m'' s'' cpu ∧
      (∀ c, L.IsClass c → s''.length cpu c = (stack L m'' c).length) ∧
      (∀ c item, L.IsClass c → (m''.header c).current < (m''.header c).end_ →
        stack L (m''.push c item).1 c = stack L m'' c ++ [item]) ∧
      (∀ c, L.IsClass c → stack L m'' c = stack L (m''.pop c).1 c ++ (m''.pop c).2.toList) ∧
      (∀ c item, L.IsClass c → (m''.push c item).2 = (s''.push cpu c).2) ∧
      (∀ c, L.IsClass c → (m''.pop c).2.isSome = (s''.pop cpu c).2) ∧
      (∀ c len stored, L.IsClass c →
        (m''.grow L.begins c len (L.capacity c) stored).2 = (s''.grow cpu c len (fun _ => L.capacity c) stored).2) ∧
      (∀ c len, L.IsClass c → (m''.shrinkOtherCache L.begins c len).2.1 = (s''.shrinkOtherCache cpu c len).2) := by
  intro L s''
  obtain ⟨inv, hab⟩ := abstracts_run run (inv_of_initCpuImpl hfit hok) (abstracts_of_initCpuImpl hfit hok s cpu)
  exact ⟨inv, hab, fun c hc => (hab c hc).1.trans (stack_length m'' c).symm,
    fun c item hc hroom => push_stack inv hc hroom, fun c hc => pop_stack inv hc,
    fun c item hc => (push_abstracts hab inv hc item).2, fun c hc => (pop_abstracts hab inv hc).2,
    fun c len stored hc => (grow_abstracts hab inv hc len rfl stored).2,
    fun c len hc => (shrinkOtherCache_abstracts hab inv hc len).2⟩

/-- Class 1 of three holds four slots; the others none. -/
def oneClassCapacity (c : Nat) : Nat := if c = 1 then 4 else 0

theorem oneClassCapacity_fits :
    ∀ c, 1 ≤ c → c < 3 → slotBegin oneClassCapacity (headerWords 3) c + oneClassCapacity c < 2 ^ 16 := by
  decide

theorem percpu_region_refines_slab_after_grow_push_pop :
    ∃ m' m'', initCpuImpl 3 12 0 oneClassCapacity ⟨fun _ => ⟨0, 0⟩, fun _ => 0⟩ = .ok m' ∧
      Run (step (Layout.ofWalk 3 oneClassCapacity oneClassCapacity_fits))
        (Allowed (Layout.ofWalk 3 oneClassCapacity oneClassCapacity_fits)) m' [.grow 1 2 4 true, .push 1 8, .pop 1] m'' ∧
      Inv (Layout.ofWalk 3 oneClassCapacity oneClassCapacity_fits) m'' ∧
      Abstracts (Layout.ofWalk 3 oneClassCapacity oneClassCapacity_fits) m''
        ([.grow 1 2 4 true, .push 1 8, .pop 1].foldl (slabStep (Layout.ofWalk 3 oneClassCapacity oneClassCapacity_fits) 0)
          ((⟨fun _ _ => Header.empty, 12⟩ : TcmallocSlab).initCpu 3 0)) 0 := by
  have hinit : (initCpuImpl 3 12 0 oneClassCapacity ⟨fun _ => ⟨0, 0⟩, fun _ => 0⟩).toOption.isSome = true := by
    decide
  obtain ⟨m', hm'⟩ := Option.isSome_iff_exists.mp hinit
  have hok : initCpuImpl 3 12 0 oneClassCapacity ⟨fun _ => ⟨0, 0⟩, fun _ => 0⟩ = .ok m' := by
    revert hm'
    cases initCpuImpl 3 12 0 oneClassCapacity ⟨fun _ => ⟨0, 0⟩, fun _ => 0⟩ with
    | ok m => exact fun h => by cases h; rfl
    | error e => exact fun h => by cases h
  have hclass : (Layout.ofWalk 3 oneClassCapacity oneClassCapacity_fits).IsClass 1 := ⟨le_refl 1, by decide⟩
  have run : Run (step (Layout.ofWalk 3 oneClassCapacity oneClassCapacity_fits))
      (Allowed (Layout.ofWalk 3 oneClassCapacity oneClassCapacity_fits)) m' [.grow 1 2 4 true, .push 1 8, .pop 1] _ :=
    .cons ⟨hclass, rfl⟩ rfl <| .cons ⟨hclass, by decide, by decide⟩ rfl <| .cons hclass rfl <| .nil _
  have h := percpu_region_refines_slab oneClassCapacity_fits hok ⟨fun _ _ => Header.empty, 12⟩ 0 run
  exact ⟨m', _, hok, run, h.1, h.2.1⟩

end TCMalloc.Internal.Percpu
