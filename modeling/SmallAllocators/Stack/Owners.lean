/-
SmallAllocators.Stack.Owners — who has the slabs of the cache.

`CacheState.HeldBy` says that the slabs which the cache gave away are those
of the pools and the blocks of the large objects, with the orders and sizes
that were asked for. Then what the cache returns is what the allocator of
small objects relies on: a slab that meets no slab of a pool and no block.
-/
import SmallAllocators.Stack.Pools

namespace SmallAllocators

variable {C : StackConfig} {m m' : CacheState} {h : MslabHeap} {alloc alloc' : SmallAlloc}
    {live live' : List SmallObject}
  {o : SmallObject} {a p size : Nat} {answer : Option Nat}

structure CacheState.HeldBy (C : StackConfig) (m : CacheState) (alloc : SmallAlloc)
    (live : List SmallObject) : Prop where
  slabs : ∀ a, a ∈ m.cache.live ↔ a ∈ alloc.slabList ∨ ∃ o ∈ live, o.home = none ∧ o.start = a
  pools : ∀ p < alloc.smallMempoolCacheSize, ∀ a ∈ (alloc.pool p).slabs,
    (m.slab a).order = (alloc.pool p).slabOrder
  blocks : ∀ o ∈ live, o.home = none →
    (m.slab o.start).order = C.geometry.orderMax + 1 ∧ (m.slab o.start).size = o.size + slabSizeof

/-! ## Sizes -/

section Sizes

/-- A large slab is a block of `malloc`. -/
theorem CacheState.Inv.block (hm : m.Inv C) (ha : a ∈ m.cache.live)
    (horder : (m.slab a).order = C.geometry.orderMax + 1) :
    (a, (m.slab a).size) ∈ m.backing.heap := by
  refine hm.backing.mem_heap.2 (SlabState.mem_blocks.2 ⟨?_, rfl⟩)
  simp only [SlabState.large, Finset.mem_filter]
  exact ⟨ha, horder⟩

theorem CacheState.HeldBy.mem_pool (ho : m.HeldBy C alloc live)
    (hp : p < alloc.smallMempoolCacheSize) (ha : a ∈ (alloc.pool p).slabs) : a ∈ m.cache.live :=
  (ho.slabs a).2 (.inl (SmallAlloc.mem_slabList.2 ⟨p, hp, ha⟩))

theorem CacheState.HeldBy.mem_block (ho : m.HeldBy C alloc live) (hmem : o ∈ live)
    (hnone : o.home = none) :
    o.start ∈ m.cache.live :=
  (ho.slabs o.start).2 (.inr ⟨o, hmem, hnone, rfl⟩)

theorem SmallInv.slabOrder_le (hi : SmallInv C.geometry h alloc live)
    (hp : p < alloc.smallMempoolCacheSize) :
    (alloc.pool p).slabOrder ≤ C.geometry.orderMax := by
  obtain ⟨cold, hinv⟩ := hi.pools p hp
  exact hinv.contents.config.order

/-- A slab of a pool has the size of its order. -/
theorem CacheState.HeldBy.slab_size (ho : m.HeldBy C alloc live) (hm : m.Inv C)
    (hi : SmallInv C.geometry h alloc live) (hp : p < alloc.smallMempoolCacheSize)
    (ha : a ∈ (alloc.pool p).slabs) :
    (m.slab a).size = alloc.slabSize C.geometry p := by
  have horder := ho.pools p hp a ha
  have hle : (m.slab a).order ≤ C.geometry.orderMax := horder.trans_le (hi.slabOrder_le hp)
  obtain ⟨-, -, -, hsize⟩ := hm.place (ho.mem_pool hp ha) hle
  rw [hsize, horder, SmallAlloc.slabSize]

/-- A large object has the bytes that were asked for, and the header. -/
theorem CacheState.HeldBy.length_eq (ho : m.HeldBy C alloc live) (hm : m.Inv C) (hmem : o ∈ live)
    (hnone : o.home = none) :
    o.length alloc = (m.slab o.start).size := by
  obtain ⟨horder, hsize⟩ := ho.blocks o hmem hnone
  obtain ⟨hpos, hlt⟩ := hm.backing.sizes _ (hm.block (ho.mem_block hmem hnone) horder)
  have hmod : (o.size + slabSizeof) % sizeMax = o.size + slabSizeof :=
    Nat.mod_eq_of_lt (Nat.lt_trans (hsize ▸ hlt) (by decide))
  rw [hsize] at hpos ⊢
  simp only [SmallObject.length, hnone, largeSize, hmod]
  exact Nat.max_eq_left hpos

end Sizes

/-! ## Slabs for the pools -/

/-- The pool gets a slab, if it asks for one and there is one. -/
inductive CacheState.SlabFor (m : CacheState) (pool : Mempool) :
    Option Nat → CacheState → Prop where
  | same : SlabFor m pool none m
  | new {a : Nat} {m' : CacheState} : pool.asks = true → m.Gets a m' →
      (m'.slab a).order = pool.slabOrder →
      SlabFor m pool (some a) m'

theorem CacheState.Inv.slabFor (hm : m.Inv C) {pool : Mempool}
    (horder : pool.slabOrder ≤ C.geometry.orderMax)
    (hfits : usedInUnits m.backing.quota + ceilUnits C.arena.slabSize < 2 ^ 32)
    (hanswer : ∀ a, answer = some a → m.backing.FreshSlab (fun _ => C.arena) () a) :
    ∃ slab m', m.slabFor C pool answer = some (slab, m') ∧ m'.Inv C ∧ m.SlabFor pool slab m' := by
  unfold CacheState.slabFor
  cases hasks : pool.asks with
  | false => exact ⟨none, m, rfl, hm, .same⟩
  | true =>
      rcases hm.getWithOrder horder hfits hanswer with hnone | ⟨a, m', hsome, hm', hgets, hao⟩
      · exact ⟨none, m, hnone, hm, .same⟩
      · exact ⟨some a, m', hsome, hm', .new hasks hgets hao⟩

/-- The slabs that a client has are not the one that it gets. -/
theorem CacheState.Gets.mem (hg : m.Gets a m') {b : Nat} (hb : b ∈ m.cache.live) :
    b ∈ m'.cache.live ∧ a ≠ b := by
  rw [hg.live]
  exact ⟨Finset.mem_insert_of_mem hb, fun he => hg.fresh (he ▸ hb)⟩

/-- A slab for a pool meets nothing that is in use. -/
theorem CacheState.HeldBy.freshSlab (ho : m.HeldBy C alloc live) (hm : m.Inv C)
    (hi : SmallInv C.geometry h alloc live) (hm' : m'.Inv C)
    (hp : p < alloc.smallMempoolCacheSize) (hg : m.Gets a m')
    (horder : (m'.slab a).order = (alloc.pool p).slabOrder) :
    alloc.FreshSlab C.geometry live p a := by
  have ha : a ∈ m'.cache.live := by simp [hg.live]
  obtain ⟨hpos, hdvd, hbound, hsize⟩ := hm'.place ha (horder.trans_le (hi.slabOrder_le hp))
  rw [horder] at hdvd hbound hsize
  have hsize : (m'.slab a).size = alloc.slabSize C.geometry p := hsize
  have hlen := alloc.slabSize_pos C.geometry p
  constructor
  case pool =>
    exact ⟨hpos, hdvd, hbound, fun hmem => hg.fresh (ho.mem_pool hp hmem)⟩
  case slabs =>
    intro q hq hne b hb
    have hblive := ho.mem_pool hq hb
    have hbsize : (m'.slab b).size = alloc.slabSize C.geometry q := by
      rw [hg.slab b hblive, ho.slab_size hm hi hq hb]
    have hap := hm'.live_apart ha (hg.mem hblive).1 (hg.mem hblive).2 (by omega)
      (by rw [hbsize]; exact alloc.slabSize_pos C.geometry q)
    rwa [hsize, hbsize] at hap
  case blocks =>
    intro o hmem hnone
    have hblive := ho.mem_block hmem hnone
    have hbsize : (m'.slab o.start).size = o.length alloc := by
      rw [hg.slab _ hblive, ho.length_eq hm hmem hnone]
    have hap := hm'.live_apart (hg.mem hblive).1 ha (Ne.symm (hg.mem hblive).2)
      (by rw [hbsize]; exact hi.length_pos hmem) (by omega)
    rwa [hsize, hbsize] at hap

/-- What the cache returns is what the pool relies on. -/
theorem CacheState.SlabFor.slabAnswer {slab : Option Nat} (hs : m.SlabFor (alloc.pool p) slab m')
    (ho : m.HeldBy C alloc live) (hm : m.Inv C) (hi : SmallInv C.geometry h alloc live)
    (hm' : m'.Inv C) (hp : p < alloc.smallMempoolCacheSize) :
    alloc.SlabAnswer C.geometry live p slab := by
  intro a ha
  cases hs with
  | same => cases ha
  | new hasks hg horder =>
      cases ha
      exact ho.freshSlab hm hi hm' hp hg horder

/-- The pool has the slab. -/
theorem CacheState.SlabFor.heldBy {slab : Option Nat} (hs : m.SlabFor (alloc.pool p) slab m')
    (ho : m.HeldBy C alloc live)
    (hcount : alloc'.smallMempoolCacheSize = alloc.smallMempoolCacheSize)
    (horders : ∀ q, (alloc'.pool q).slabOrder = (alloc.pool q).slabOrder)
    (hp : p < alloc.smallMempoolCacheSize)
    (hslabs : (alloc'.pool p).slabs = if (alloc.pool p).asks then
      slab.toList ++ (alloc.pool p).slabs else (alloc.pool p).slabs)
    (hother : ∀ q, q ≠ p → alloc'.pool q = alloc.pool q)
    (hlive : ∀ o : SmallObject, o.home = none → (o ∈ live' ↔ o ∈ live)) :
    m'.HeldBy C alloc' live' := by
  have hblocks : ∀ a, (∃ o ∈ live', o.home = none ∧ o.start = a) ↔
      ∃ o ∈ live, o.home = none ∧ o.start = a := by
    intro a
    refine exists_congr fun o => ?_
    constructor
    · rintro ⟨hmem, hnone, hstart⟩
      exact ⟨(hlive o hnone).1 hmem, hnone, hstart⟩
    · rintro ⟨hmem, hnone, hstart⟩
      exact ⟨(hlive o hnone).2 hmem, hnone, hstart⟩
  cases hs with
  | same =>
      have hsame : ∀ q, (alloc'.pool q).slabs = (alloc.pool q).slabs := by
        intro q
        by_cases hq : q = p
        · subst hq
          simpa using hslabs
        · rw [hother q hq]
      constructor
      case slabs =>
        intro a
        rw [ho.slabs a, hblocks, SmallAlloc.mem_slabList, SmallAlloc.mem_slabList, hcount]
        simp [hsame]
      case pools =>
        intro q hq a ha
        rw [hcount] at hq
        rw [horders q]
        exact ho.pools q hq a (hsame q ▸ ha)
      case blocks => exact fun o hmem hnone => ho.blocks o ((hlive o hnone).1 hmem) hnone
  | @new a _ hasks hg horder =>
      rw [if_pos hasks] at hslabs
      have hmem : ∀ q b, b ∈ (alloc'.pool q).slabs ↔ b ∈ (alloc.pool q).slabs ∨ q = p ∧ b = a := by
        intro q b
        by_cases hq : q = p
        · subst hq
          simp [hslabs, or_comm]
        · simp [hother q hq, hq]
      constructor
      case slabs =>
        intro b
        rw [hg.live, Finset.mem_insert, ho.slabs b, hblocks, SmallAlloc.mem_slabList,
          SmallAlloc.mem_slabList, hcount]
        constructor
        · rintro (rfl | ⟨q, hq, hb⟩ | hb)
          · exact .inl ⟨p, hp, (hmem p b).2 (.inr ⟨rfl, rfl⟩)⟩
          · exact .inl ⟨q, hq, (hmem q b).2 (.inl hb)⟩
          · exact .inr hb
        · rintro (⟨q, hq, hb⟩ | hb)
          · rcases (hmem q b).1 hb with hb | ⟨-, rfl⟩
            · exact .inr (.inl ⟨q, hq, hb⟩)
            · exact .inl rfl
          · exact .inr (.inr hb)
      case pools =>
        intro q hq b hb
        rw [hcount] at hq
        rw [horders q]
        rcases (hmem q b).1 hb with hb | ⟨rfl, rfl⟩
        · rw [hg.slab b (ho.mem_pool hq hb)]
          exact ho.pools q hq b hb
        · exact horder
      case blocks =>
        intro o ho' hnone
        have hold := (hlive o hnone).1 ho'
        rw [hg.slab _ (ho.mem_block hold hnone)]
        exact ho.blocks o hold hnone

/-! ## Slabs that the pools give back -/

/-- A call after which the pools have fewer slabs: the others go back to the cache. -/
theorem CacheState.HeldBy.shrink (ho : m.HeldBy C alloc live) (hm : m.Inv C)
    (hi : SmallInv C.geometry h alloc live) (hlay : alloc.SameLayout alloc')
    (hsub : ∀ q, ∀ a ∈ (alloc'.pool q).slabs, a ∈ (alloc.pool q).slabs)
    (hlive : ∀ o : SmallObject, o.home = none → (o ∈ live' ↔ o ∈ live)) :
    ∃ m', CacheState.putAll C (alloc.returned alloc') m = some m' ∧ m'.Inv C ∧
      m'.HeldBy C alloc' live' ∧ m.SameMemory m' := by
  have hreturned : ∀ a ∈ alloc.returned alloc', a ∈ m.cache.live ∧
      (m.slab a).order ≤ C.geometry.orderMax := by
    intro a ha
    obtain ⟨p, hp, hslab⟩ := SmallAlloc.mem_slabList.1 (SmallAlloc.mem_returned.1 ha).1
    exact ⟨ho.mem_pool hp hslab, (ho.pools p hp a hslab).trans_le (hi.slabOrder_le hp)⟩
  have hkept : ∀ a ∈ alloc'.slabList, a ∈ alloc.slabList := by
    intro a ha
    obtain ⟨p, hp, hslab⟩ := SmallAlloc.mem_slabList.1 ha
    exact SmallAlloc.mem_slabList.2 ⟨p, hlay.cacheSize ▸ hp, hsub p a hslab⟩
  have hblock : ∀ o ∈ live, o.home = none → o.start ∉ alloc.slabList := by
    intro o hmem hnone hslab
    obtain ⟨p, hp, hslab⟩ := SmallAlloc.mem_slabList.1 hslab
    exact (hi.blocks o hmem hnone p hp _ hslab).ne (hi.length_pos hmem)
      (alloc.slabSize_pos C.geometry p) rfl
  have hnodup : (alloc.returned alloc').Nodup := hi.slabList_nodup.filter _
  obtain ⟨m', hrun, hm', hputs, hmemory⟩ := hm.putAll hnodup hreturned
  have hiff : ∀ a, a ∈ m'.cache.live ↔ a ∈ alloc'.slabList ∨ ∃ o ∈ live', o.home = none ∧
      o.start = a := by
    intro a
    rw [hputs.live, Finset.mem_sdiff, List.mem_toFinset, SmallAlloc.mem_returned, ho.slabs a,
      not_and, not_not]
    constructor
    · rintro ⟨hslab | ⟨o, hmem, hnone, hstart⟩, hback⟩
      · exact .inl (hback hslab)
      · exact .inr ⟨o, (hlive o hnone).2 hmem, hnone, hstart⟩
    · rintro (hslab | ⟨o, hmem, hnone, hstart⟩)
      · exact ⟨.inl (hkept a hslab), fun _ => hslab⟩
      · have hold := (hlive o hnone).1 hmem
        exact ⟨.inr ⟨o, hold, hnone, hstart⟩, fun hslab =>
          absurd (hstart ▸ hslab) (hblock o hold hnone)⟩
  refine ⟨m', hrun, hm', ⟨hiff, fun p hp a ha => ?_, fun o hmem hnone => ?_⟩, hmemory⟩
  · have hin : a ∈ m'.cache.live := (hiff a).2 (.inl (SmallAlloc.mem_slabList.2 ⟨p, hp, ha⟩))
    rw [hlay.cacheSize] at hp
    rw [hputs.slab a hin, (hlay.config p).slabOrder]
    exact ho.pools p hp a (hsub p a ha)
  · rw [hputs.slab _ ((hiff _).2 (.inr ⟨o, hmem, hnone, rfl⟩))]
    exact ho.blocks o ((hlive o hnone).1 hmem) hnone

/-! ## Large objects -/

/-- A block for a large object meets nothing that is in use. -/
theorem CacheState.HeldBy.freshBlock (ho : m.HeldBy C alloc live) (hm : m.Inv C)
    (hi : SmallInv C.geometry h alloc live) (hm' : m'.Inv C) (hg : m.Gets a m')
    (hsize : (m'.slab a).size = size + slabSizeof) (hlt : size + slabSizeof < quotaMax)
    (hpos : 0 < a) : alloc.FreshBlock C.geometry live size a := by
  have ha : a ∈ m'.cache.live := by simp [hg.live]
  have hone : 0 < size + slabSizeof := Nat.add_pos_right size (by decide)
  have hmod : (size + slabSizeof) % sizeMax = size + slabSizeof :=
    Nat.mod_eq_of_lt (Nat.lt_trans hlt (by decide))
  have hlen : largeSize size = size + slabSizeof := by
    rw [largeSize, hmod]
    exact Nat.max_eq_left hone
  constructor
  case pos => exact hpos
  case slabs =>
    intro p hp b hb
    have hblive := ho.mem_pool hp hb
    have hbsize : (m'.slab b).size = alloc.slabSize C.geometry p := by
      rw [hg.slab b hblive, ho.slab_size hm hi hp hb]
    have hap := hm'.live_apart ha (hg.mem hblive).1 (hg.mem hblive).2 (hsize ▸ hone)
      (by rw [hbsize]; exact alloc.slabSize_pos C.geometry p)
    rwa [hsize, hbsize, ← hlen] at hap
  case blocks =>
    intro o hmem hnone
    have hblive := ho.mem_block hmem hnone
    have hbsize : (m'.slab o.start).size = o.length alloc := by
      rw [hg.slab _ hblive, ho.length_eq hm hmem hnone]
    have hap := hm'.live_apart ha (hg.mem hblive).1 (hg.mem hblive).2 (hsize ▸ hone)
      (by rw [hbsize]; exact hi.length_pos hmem)
    rwa [hsize, hbsize, ← hlen] at hap

/-- The block is the new object's. -/
theorem CacheState.HeldBy.takeLarge (ho : m.HeldBy C alloc live) (hg : m.Gets a m')
    (horder : (m'.slab a).order = C.geometry.orderMax + 1)
    (hsize : (m'.slab a).size = size + slabSizeof) :
    m'.HeldBy C alloc (⟨a + slabSizeof, size, none⟩ :: live) := by
  have hstart : SmallObject.start ⟨a + slabSizeof, size, none⟩ = a := Nat.add_sub_cancel _ _
  constructor
  case slabs =>
    intro b
    rw [hg.live, Finset.mem_insert, ho.slabs b]
    simp only [List.mem_cons, exists_eq_or_imp, hstart, true_and, eq_comm (a := a)]
    tauto
  case pools =>
    intro p hp b hb
    rw [hg.slab b (ho.mem_pool hp hb)]
    exact ho.pools p hp b hb
  case blocks =>
    intro o hmem hnone
    rcases List.mem_cons.1 hmem with rfl | hmem
    · rw [hstart]
      exact ⟨horder, hsize⟩
    · rw [hg.slab _ (ho.mem_block hmem hnone)]
      exact ho.blocks o hmem hnone

/-- Live objects are different. -/
theorem SmallInv.live_nodup (hi : SmallInv C.geometry h alloc live) : live.Nodup := by
  refine hi.apart.imp_of_mem fun hx _ hap he => ?_
  subst he
  exact hap.ne (hi.length_pos hx) (hi.length_pos hx) rfl

/-- Two large objects that start at one address are one. -/
theorem SmallInv.start_inj (hi : SmallInv C.geometry h alloc live) {o' : SmallObject}
    (hmem : o ∈ live) (hmem' : o' ∈ live) (hstart : o.start = o'.start) : o = o' := by
  by_contra hne
  have : Std.Symm (SmallObject.Apart alloc) := ⟨fun _ _ hap => RangesApart.symm hap⟩
  have hap := hi.apart.forall hmem hmem' hne
  exact hap.ne (hi.length_pos hmem) (hi.length_pos hmem') hstart

/-- `slab_put_large` of the block of a live object. -/
theorem CacheState.HeldBy.putLarge (ho : m.HeldBy C alloc live) (hm : m.Inv C)
    (hi : SmallInv C.geometry h alloc live) (hmem : o ∈ live) (hnone : o.home = none) :
    ∃ m', m.putLarge C (o.ptr - slabSizeof) = some m' ∧ m'.Inv C ∧
      m'.HeldBy C alloc (live.erase o) := by
  have hstart : o.start = o.ptr - slabSizeof := by rw [SmallObject.start, hnone]
  obtain ⟨horder, -⟩ := ho.blocks o hmem hnone
  obtain ⟨m', hput, hm', hputs, -⟩ := hm.put (ho.mem_block hmem hnone)
  have hguard : (m.cache.cache.slab o.start).order = C.geometry.orderMax + 1 := horder
  rw [← hstart]
  have hiff : ∀ a, a ∈ m'.cache.live ↔ a ∈ alloc.slabList ∨ ∃ o' ∈ live.erase o, o'.home = none ∧
      o'.start = a := by
    intro a
    rw [hputs.live, Finset.mem_sdiff, List.mem_toFinset, List.mem_singleton, ho.slabs a]
    constructor
    · rintro ⟨hslab | ⟨o', hmem', hnone', hstart'⟩, hne⟩
      · exact .inl hslab
      · exact .inr ⟨o', (List.mem_erase_of_ne fun he => hne (by rw [← hstart', he])).2 hmem',
          hnone', hstart'⟩
    · rintro (hslab | ⟨o', hmem', hnone', hstart'⟩)
      · refine ⟨.inl hslab, fun he => ?_⟩
        obtain ⟨p, hp, hin⟩ := SmallAlloc.mem_slabList.1 (he ▸ hslab)
        exact (hi.blocks o hmem hnone p hp _ hin).ne (hi.length_pos hmem)
          (alloc.slabSize_pos C.geometry p) rfl
      · have hold := List.mem_of_mem_erase hmem'
        refine ⟨.inr ⟨o', hold, hnone', hstart'⟩, fun he => ?_⟩
        rw [hi.start_inj hold hmem (hstart'.trans he)] at hmem'
        exact (List.Nodup.not_mem_erase hi.live_nodup) hmem'
  refine ⟨m', by simp [CacheState.putLarge, guard, hguard, hput], hm',
    hiff, fun p hp a ha => ?_, fun o' hmem' hnone' => ?_⟩
  · rw [hputs.slab a ((hiff a).2 (.inl (SmallAlloc.mem_slabList.2 ⟨p, hp, ha⟩)))]
    exact ho.pools p hp a ha
  · rw [hputs.slab _ ((hiff _).2 (.inr ⟨o', hmem', hnone', rfl⟩))]
    exact ho.blocks o' (List.mem_of_mem_erase hmem') hnone'

end SmallAllocators
