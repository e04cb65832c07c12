/-
SmallAllocators.Stack.Pools — the slabs of the pools, call by call.

`Small.Ops` says where an object is and what stays; here it is which slabs a
pool has afterwards. A pool that asks the cache has the slab that it gets,
a sweep and `smfree` only take slabs from the pools, and no pool is touched
when `smalloc` charges another one.
-/
import SmallAllocators.Stack.Memory

namespace SmallAllocators

variable {g : Geometry} {h h' : MslabHeap} {p p' : Mempool} {alloc alloc' : SmallAlloc}
    {answer retry : Option Nat}
  {ptr a u size : Nat}

/-! ## `mempool_alloc` -/

theorem insertHot_slabs (hrun : insertHot h p a = some (h', p')) : p'.slabs = p.slabs := by
  obtain ⟨hot, -, heq⟩ := Option.bind_eq_some_iff.1 hrun
  cases heq
  rfl

theorem skipHot_slabs (p : Mempool) (a : Nat) : (p.skipHot a).slabs = p.slabs := by
  unfold Mempool.skipHot
  split <;> rfl

theorem removeHot_slabs (hrun : removeHot h p a = some (h', p')) : p'.slabs = p.slabs := by
  obtain ⟨hot, -, heq⟩ := Option.bind_eq_some_iff.1 hrun
  cases heq
  exact skipHot_slabs p a

theorem mempoolTake_slabs (hrun : mempoolTake h p a = some (ptr, h', p')) : p'.slabs = p.slabs := by
  obtain ⟨⟨ptr₁, h₁, p₁⟩, halloc, hrest⟩ := Option.bind_eq_some_iff.1 hrun
  obtain ⟨u, -, heq⟩ := Option.bind_eq_some_iff.1 hrest
  cases heq
  obtain ⟨u, -, halloc⟩ := Option.bind_eq_some_iff.1 halloc
  simp only [] at halloc
  split at halloc
  · obtain ⟨⟨h₂, p₂⟩, hremove, heq⟩ := Option.bind_eq_some_iff.1 halloc
    cases heq
    exact (removeHot_slabs hremove).trans rfl
  · cases halloc
    rfl

theorem mempoolSlab_slabs (hrun : mempoolSlab g h p answer = some (a, h', p')) :
    p'.slabs = if p.spare = 0 then answer.toList ++ p.slabs else p.slabs := by
  unfold mempoolSlab at hrun
  by_cases hspare : p.spare = 0
  · rw [if_neg (by simpa using hspare)] at hrun
    rw [if_pos hspare]
    cases answer with
    | none =>
        simp only [] at hrun
        split at hrun
        · cases hrun
        · split at hrun
          · cases hrun
            rfl
          · cases hrun
    | some b =>
        cases hrun
        rfl
  · rw [if_pos hspare] at hrun
    rw [if_neg hspare]
    cases hrun
    rfl

theorem mempoolSlab_none (hrun : mempoolSlab g h p answer = none) :
    p.spare = 0 ∧ answer = none := by
  unfold mempoolSlab at hrun
  split at hrun
  · cases hrun
  · next hspare =>
    cases answer with
    | none => exact ⟨by simpa using hspare, rfl⟩
    | some b => cases hrun

/-- The slabs of a pool after `mempool_alloc`: if it asks the cache, the slab that it gets is
one of them. -/
theorem mempoolAlloc_slabs (hrun : mempoolAlloc g h p answer = some (ptr, h', p')) :
    p'.slabs = if p.asks then answer.toList ++ p.slabs else p.slabs := by
  unfold mempoolAlloc at hrun
  unfold Mempool.asks
  by_cases hfirst : p.firstHotSlab = 0
  · rw [if_neg (by simpa using hfirst)] at hrun
    simp only [hfirst, decide_true, Bool.true_and, decide_eq_true_eq]
    split at hrun
    · next hnone =>
      obtain ⟨hspare, rfl⟩ := mempoolSlab_none hnone
      cases hrun
      simp
    · next hsome =>
      obtain ⟨u, -, hrun⟩ := Option.bind_eq_some_iff.1 hrun
      obtain ⟨⟨h₂, p₂⟩, hinsert, htake⟩ := Option.bind_eq_some_iff.1 hrun
      rw [mempoolTake_slabs htake]
      exact (insertHot_slabs hinsert).trans (mempoolSlab_slabs hsome)
  · rw [if_pos hfirst] at hrun
    simp [hfirst, mempoolTake_slabs hrun]

/-! ## `smalloc` -/

theorem updateUsedPool_pool {group : SmallMempoolGroup} {i : Nat}
    (hrun : updateUsedPool group alloc i = some alloc') :
    alloc'.pool = alloc.pool := by
  obtain ⟨u₁, -, hrun⟩ := Option.bind_eq_some_iff.1 hrun
  obtain ⟨u₂, -, hrun⟩ := Option.bind_eq_some_iff.1 hrun
  obtain ⟨u₃, -, heq⟩ := Option.bind_eq_some_iff.1 hrun
  cases heq
  funext q
  simp only [SmallAlloc.pool, SmallAlloc.setUsedPool, SmallAlloc.setSmallMempool]
  split
  · next he => rw [he]
  · rfl

theorem updateUsedPool_foldlM_pool {group : SmallMempoolGroup} {l : List Nat}
    (hrun : l.foldlM (updateUsedPool group) alloc = some alloc') : alloc'.pool = alloc.pool := by
  induction l generalizing alloc with
  | nil =>
      cases hrun
      rfl
  | cons i l ih =>
      rw [List.foldlM_cons] at hrun
      obtain ⟨alloc₁, hone, hrest⟩ := Option.bind_eq_some_iff.1 hrun
      rw [ih hrest, updateUsedPool_pool hone]

/-- An object is charged to its class; the pools stay as they are. -/
theorem smallocCharge_pool (hrun : smallocCharge alloc u = some alloc') :
    alloc'.pool = alloc.pool := by
  unfold smallocCharge at hrun
  simp only [] at hrun
  split at hrun
  · split at hrun
    · obtain ⟨u, -, hrun⟩ := Option.bind_eq_some_iff.1 hrun
      rw [updateUsedPool_foldlM_pool hrun]
      funext q
      exact SmallAlloc.setWaste_pool _ _ _ q
    · cases hrun
      funext q
      exact SmallAlloc.setWaste_pool _ _ _ q
  · cases hrun
    rfl

/-- The pools are what the attempts leave. -/
theorem smalloc_pool (hsize : size ≤ alloc.objsizeMax)
    (hrun : smalloc g h alloc size answer retry = some (ptr, h', alloc')) :
    ∃ alloc₁, smallocTry g h alloc (alloc.poolFor size) answer retry = some (ptr, h', alloc₁) ∧
      alloc'.pool = alloc₁.pool := by
  rw [smalloc, smallMempoolSearch_of_le hsize] at hrun
  obtain ⟨u, -, hrun⟩ := Option.bind_eq_some_iff.1 hrun
  obtain ⟨⟨ptr₁, h₁, alloc₁⟩, htry, hrun⟩ := Option.bind_eq_some_iff.1 hrun
  by_cases hzero : ptr₁ = 0
  · subst hzero
    cases hrun
    exact ⟨_, htry, rfl⟩
  · simp only [hzero, if_false] at hrun
    obtain ⟨alloc₂, hcharge, heq⟩ := Option.bind_eq_some_iff.1 hrun
    cases heq
    exact ⟨_, htry, smallocCharge_pool hcharge⟩

/-! ## The slabs of all pools -/

theorem SmallAlloc.mem_slabList :
    a ∈ alloc.slabList ↔ ∃ p < alloc.smallMempoolCacheSize, a ∈ (alloc.pool p).slabs := by
  simp [SmallAlloc.slabList]

theorem SmallAlloc.mem_returned :
    a ∈ alloc.returned alloc' ↔ a ∈ alloc.slabList ∧ a ∉ alloc'.slabList := by
  simp [SmallAlloc.returned]

/-- No slab is in two pools. -/
theorem SmallInv.slabList_nodup {live : List SmallObject} (hi : SmallInv g h alloc live) :
    alloc.slabList.Nodup := by
  unfold SmallAlloc.slabList
  rw [List.nodup_flatMap]
  constructor
  · intro p hp
    obtain ⟨cold, hinv⟩ := hi.pools p (List.mem_range.1 hp)
    exact hinv.contents.nodup
  · refine List.nodup_range.imp_of_mem fun hp hq hne => ?_
    intro a ha hb
    have hap := hi.slabs _ (List.mem_range.1 hp) _ (List.mem_range.1 hq) hne a ha a hb
    exact hap.ne (alloc.slabSize_pos g _) (alloc.slabSize_pos g _) rfl

end SmallAllocators
