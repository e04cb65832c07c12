/-
SmallAllocators.Stack.Runs — runs of the allocator of small objects on its
own slab cache and arena.

Nothing is assumed of the cache: that its slabs are new, aligned and apart
is proved of the calls that the cache makes. In every run no assertion of
the three layers fails, no slab is lost between them, and at the end
everything goes back to the arena and to `malloc`.
-/
import SmallAllocators.SlabArena.Runs
import SmallAllocators.Small.Failure
import SmallAllocators.Stack.Owners

namespace SmallAllocators

variable {C : StackConfig} {s s' : SmallStack} {size : Nat} {answer retry : Option Nat}
    {o : SmallObject}

/-- The invariant of the three layers. -/
structure SmallStack.Inv (C : StackConfig) (s : SmallStack) : Prop where
  memory : s.memory.Inv C
  small : s.small.Good C.geometry
  held : s.memory.HeldBy C s.small.alloc s.small.live

/-! ## The start -/

theorem SmallStack.Created.slabList (h : s.Created C) :
    s.small.alloc.slabList = [] ∧ s.small.live = [] := by
  obtain ⟨orderOf, heap, alloc, objsizeMin, granularity, effectiveBits, hmin, hmin32, hgran, hex,
    hlive⟩ := h.small
  have hptr : ptrSize = 8 := rfl
  obtain ⟨hready, -⟩ := smallAllocCreate_ready C.order0_min (by omega) hmin32 hgran hex
  refine ⟨List.eq_nil_iff_forall_not_mem.2 fun a ha => ?_, hlive⟩
  obtain ⟨p, hp, hin⟩ := SmallAlloc.mem_slabList.1 ha
  rw [(hready.pools p hp).slabs] at hin
  cases hin

theorem SmallStack.Created.memory (h : s.Created C) : s.memory.Inv C := by
  obtain ⟨slab, inCache, inList, hcache⟩ := h.cache
  have hholding : s.memory.cache.holding () C.geometry = 0 := by
    rw [hcache]
    simp [SlabState.holding, SlabState.blocks, SlabState.large, slabCacheCreate, SlabCache.mapped]
    rfl
  constructor
  case cache =>
    rw [hcache]
    exact slabCacheCreate_good C.geometry slab inCache inList
  case backing =>
    rw [hholding]
    constructor
    case arena =>
      intro i
      rw [h.arena]
      exact ⟨rfl, rfl, .nil _, by simp, by simp, rfl⟩
    case heap => simp [h.heap]
    case sizes => simp [h.heap]
    case apart => simp [h.heap]
    case prealloc => simp [h.heap]
    case mapped => simp [h.heap]
    case quota => simp [quotaUsed, h.quota, h.arena]

theorem SmallStack.Created.inv (h : s.Created C) : s.Inv C := by
  obtain ⟨hslabs, hlive⟩ := h.slabList
  obtain ⟨slab, inCache, inList, hcache⟩ := h.cache
  refine ⟨h.memory, h.small.good C.order0_min, fun a => ?_, fun p hp a ha => ?_, fun o hmem => ?_⟩
  · simp [hcache, hslabs, hlive]
  · have hin := SmallAlloc.mem_slabList.2 ⟨p, hp, ha⟩
    rw [hslabs] at hin
    cases hin
  · rw [hlive] at hmem
    cases hmem

/-! ## `smalloc` -/

/-- What the cache gives to `smalloc`: it is what the allocator relies on, and the pools have it
afterwards. -/
structure SmallStack.Gives (C : StackConfig) (s : SmallStack) (size : Nat)
    (slab slab' : Option Nat) (m' : CacheState) : Prop where
  memory : m'.Inv C
  answers : s.small.Answers C.geometry size slab slab'
  held : ∀ {ptr h' alloc₁},
    smallocTry C.geometry s.small.heap s.small.alloc (s.small.alloc.poolFor size) slab slab'
      = some (ptr, h', alloc₁) →
    ∀ (alloc' : SmallAlloc) (live' : List SmallObject), s.small.alloc.SameLayout alloc' →
    alloc'.pool = alloc₁.pool →
      (∀ o : SmallObject, o.home = none → (o ∈ live' ↔ o ∈ s.small.live)) → m'.HeldBy C alloc' live'

/-- The first attempt finds an object. -/
theorem SmallStack.Inv.slabsFor_found (hs : s.Inv C) (hsize : size ≤ s.small.alloc.objsizeMax)
    {slab : Option Nat} {m : CacheState} {ptr : Nat} {h₁ : MslabHeap} {pool : Mempool}
    (hfor : s.memory.slabFor C (s.small.alloc.pool (s.small.alloc.poolFor size)) answer =
      some (slab, m))
    (hm : m.Inv C)
    (hslab : s.memory.SlabFor (s.small.alloc.pool (s.small.alloc.poolFor size)) slab m)
    (halloc : mempoolAlloc C.geometry s.small.heap
      (s.small.alloc.pool (s.small.alloc.poolFor size)) slab = some (ptr, h₁, pool))
    (hptr : ptr ≠ 0) :
    s.memory.slabsFor C s.small.heap s.small.alloc (s.small.alloc.poolFor size) answer retry =
      some ((slab, none), m) ∧
      s.Gives C size slab none m := by
  have hp := (hs.small.inv.poolFor hsize).1
  refine ⟨by simp [CacheState.slabsFor, hfor, halloc, hptr], hm, ?_, ?_⟩
  · rw [SmallState.Answers, if_pos hsize]
    exact ⟨hslab.slabAnswer hs.held hs.memory hs.small.inv hm hp, fun alloc₁ _ a ha => by cases ha⟩
  · intro ptr' h' alloc₁ htry alloc' live' hlay hpool hlive
    simp only [smallocTry, halloc, Option.bind_eq_bind, Option.bind_some, hptr, if_false] at htry
    cases htry
    refine hslab.heldBy hs.held hlay.cacheSize (fun q => (hlay.config q).slabOrder) hp ?_
      (fun q hq => ?_) hlive
    · rw [hpool, SmallAlloc.setPool_pool_self]
      exact mempoolAlloc_slabs halloc
    · rw [hpool, SmallAlloc.setPool_pool_ne _ hq]

/-- No object is found: the sweep gives slabs back, and the pool asks again. -/
theorem SmallStack.Inv.slabsFor_swept (hs : s.Inv C) (hsize : size ≤ s.small.alloc.objsizeMax)
    (hop : s.Answers C size answer retry)
    (hfor : s.memory.slabFor C (s.small.alloc.pool (s.small.alloc.poolFor size)) answer =
      some (none, s.memory))
    (halloc :
      mempoolAlloc C.geometry s.small.heap (s.small.alloc.pool (s.small.alloc.poolFor size)) none =
        some (0, s.small.heap, s.small.alloc.pool (s.small.alloc.poolFor size))) :
    ∃ slab' m,
      s.memory.slabsFor C s.small.heap s.small.alloc (s.small.alloc.poolFor size) answer retry =
        some ((none, slab'), m) ∧ s.Gives C size none slab' m := by
  have hi := hs.small.inv
  have hp := (hi.poolFor hsize).1
  rw [SmallStack.Answers, if_pos hsize] at hop
  -- the sweep
  obtain ⟨alloc₁, hsweep, hswept⟩ :=
    smallMempoolGroupSweepSparse_spec (h := s.small.heap) hi.grouped hi.usedAt
  have hi₁ := hi.swept hswept
  have hp₁ : s.small.alloc.poolFor size < alloc₁.smallMempoolCacheSize :=
    hswept.layout.cacheSize.symm ▸ hp
  have hsub : ∀ q, ∀ a ∈ (alloc₁.pool q).slabs, a ∈ (s.small.alloc.pool q).slabs := by
    intro q a ha
    by_cases hq : q < s.small.alloc.smallMempoolCacheSize ∧
      smallMempoolCanBeDeactivated s.small.alloc q = true
    · rw [hswept.swept q hq.1 hq.2] at ha
      exact dropSpare_slabs ha
    · rwa [hswept.kept q hq] at ha
  obtain ⟨m₁, hback, hm₁, hheld₁, hsame⟩ :=
    hs.held.shrink hs.memory hi hswept.layout hsub fun o _ => Iff.rfl
  -- the second request
  have hfits : usedInUnits m₁.backing.quota + ceilUnits C.arena.slabSize < 2 ^ 32 := by
    rw [hsame.quota]
    exact hop.1
  have hretry : ∀ a, retry = some a → m₁.backing.FreshSlab (fun _ => C.arena) () a :=
    fun a ha => hsame.freshSlab (hop.2 a (.inr ha))
  obtain ⟨slab', m, hfor', hm, hslab'⟩ := hm₁.slabFor (hi₁.slabOrder_le hp₁) hfits hretry
  have hanswer' := hslab'.slabAnswer hheld₁ hm₁ hi₁ hm hp₁
  refine ⟨slab', m, by simp [CacheState.slabsFor, hfor, halloc, hsweep, hback, hfor'], hm, ?_, ?_⟩
  · rw [SmallState.Answers, if_pos hsize]
    refine ⟨fun a ha => (by cases ha), fun alloc₂ hsweep₂ => ?_⟩
    rw [hsweep] at hsweep₂
    cases hsweep₂
    exact hanswer'
  · intro ptr h' alloc₂ htry alloc' live' hlay hpool hlive
    have hagain :
        smallocTry C.geometry s.small.heap s.small.alloc (s.small.alloc.poolFor size) none slab'
        = smallocRetry C.geometry s.small.heap s.small.alloc
        (s.small.alloc.poolFor size) slab' := by
      simp [smallocTry, halloc, SmallAlloc.setPool_self]
    rw [hagain, smallocRetry, hsweep, Option.bind_eq_bind, Option.bind_some] at htry
    obtain ⟨⟨ptr₁, h₁, pool⟩, halloc', heq⟩ := Option.bind_eq_some_iff.1 htry
    cases heq
    refine hslab'.heldBy hheld₁ (hlay.cacheSize.trans hswept.layout.cacheSize.symm)
      (fun q => (hlay.config q).slabOrder.trans (hswept.layout.config q).slabOrder.symm) hp₁ ?_
      (fun q hq => ?_) hlive
    · rw [hpool, SmallAlloc.setPool_pool_self]
      exact mempoolAlloc_slabs halloc'
    · rw [hpool, SmallAlloc.setPool_pool_ne _ hq]

/-- The requests of `smalloc` for a size that has a pool. -/
theorem SmallStack.Inv.slabsFor (hs : s.Inv C) (hsize : size ≤ s.small.alloc.objsizeMax)
    (hop : s.Answers C size answer retry) :
    ∃ slab slab' m,
      s.memory.slabsFor C s.small.heap s.small.alloc (s.small.alloc.poolFor size) answer retry
      = some ((slab, slab'), m) ∧ s.Gives C size slab slab' m := by
  have hi := hs.small.inv
  have hp := (hi.poolFor hsize).1
  have hanswers := hop
  rw [SmallStack.Answers, if_pos hsize] at hop
  have hfresh : ∀ a, answer = some a → s.memory.backing.FreshSlab (fun _ => C.arena) () a :=
    fun a ha => hop.2 a (.inl ha)
  obtain ⟨slab, m, hfor, hm, hslab⟩ := hs.memory.slabFor (hi.slabOrder_le hp) hop.1 hfresh
  obtain ⟨cold, hinv⟩ := hi.pools _ hp
  rcases mempoolAlloc_spec hinv (hslab.slabAnswer hs.held hs.memory hi hm hp).pool with
    ⟨halloc, rfl, -⟩ | ⟨a, k, h₁, pool, cold', halloc, ha, hk, -, hinv', -, hsame, -⟩
  · cases hslab
    obtain ⟨slab', m, hrun, hgives⟩ := hs.slabsFor_swept hsize hanswers hfor halloc
    exact ⟨none, slab', m, hrun, hgives⟩
  · have hptr : (s.small.alloc.pool (s.small.alloc.poolFor size)).slot a k ≠ 0 := by
      rw [← hsame.slot]
      exact (hinv'.contents.slot_pos ha (hsame.objcount.symm ▸ hk)).1.ne'
    exact ⟨slab, none, m, hs.slabsFor_found hsize hfor hm hslab halloc hptr⟩

/-- `smalloc` of a size that has a pool returns, and keeps the invariant. -/
theorem SmallStack.Inv.allocSmall (hs : s.Inv C) (hsize : size ≤ s.small.alloc.objsizeMax)
    (hop : s.Answers C size answer retry) :
    ∃ s', (StackOp.alloc size answer retry).exec C s = some s' ∧ s'.Inv C := by
  obtain ⟨slab, slab', m, hrun, hgives⟩ := hs.slabsFor hsize hop
  obtain ⟨small, hexec, hgood, hserved⟩ := hs.small.alloc hsize hgives.answers
  have hrequests : s.requests C size answer retry = some ((slab, slab'), m) := by
    rw [SmallStack.requests, smallMempoolSearch_of_le hsize]
    exact hrun
  refine ⟨⟨m, small⟩, by simp [StackOp.exec, hrequests, hexec], hgives.memory, hgood, ?_⟩
  obtain ⟨⟨ptr, h', alloc'⟩, hsmalloc, heq⟩ := Option.bind_eq_some_iff.1 hexec
  obtain ⟨alloc₁, htry, hpool⟩ := smalloc_pool hsize hsmalloc
  have hlay := hserved.layout
  cases heq
  refine hgives.held htry alloc' _ hlay hpool fun o hnone => ?_
  simp only []
  split
  · exact Iff.rfl
  · have hhome : s.small.homeFor size = some (s.small.alloc.poolFor size) := if_pos hsize
    rw [List.mem_cons]
    refine or_iff_right fun he => ?_
    rw [he, hhome] at hnone
    cases hnone

/-- `smalloc` of a size that has no pool. -/
theorem SmallStack.Inv.allocLarge (hs : s.Inv C) (hsize : s.small.alloc.objsizeMax < size)
    (hop : s.Answers C size answer retry) :
    ∃ s', (StackOp.alloc size answer retry).exec C s = some s' ∧ s'.Inv C := by
  have hi := hs.small.inv
  rw [SmallStack.Answers, if_neg (Nat.not_le.2 hsize)] at hop
  obtain ⟨hlt, hfits, hanswer⟩ := hop
  have hsearch := smallMempoolSearch_of_lt hsize
  have hrequests : s.requests C size answer retry = (s.memory.getLarge C size answer).bind
      fun r => some ((r.1, none), r.2) := by
    rw [SmallStack.requests, hsearch]
    rfl
  rcases hs.memory.getLarge hlt hfits (fun a ha => (hanswer a ha).2) with hnone
    | ⟨m, a, hans, hget, hm, hg, horder, hbytes⟩
  · have hsmall : (SmallOp.alloc size none none).exec C.geometry s.small = some s.small := by
      have hrun : smalloc C.geometry s.small.heap s.small.alloc size none none =
          some (0, s.small.heap, s.small.alloc) := by
        rw [smalloc, hsearch]
        rfl
      exact SmallState.exec_alloc hrun
    exact ⟨s, by simp [StackOp.exec, hrequests, hnone, hsmall], hs⟩
  · have hfresh := hs.held.freshBlock hs.memory hi hm hg hbytes hlt (hanswer a hans).1
    have hanswers : s.small.Answers C.geometry size (some a) none := by
      rw [SmallState.Answers, if_neg (Nat.not_le.2 hsize)]
      rintro b hb
      cases hb
      exact hfresh
    obtain ⟨small, hexec, hgood, halloc, -⟩ := hs.small.allocLarge hsize hanswers
    refine ⟨⟨m, small⟩, by simp [StackOp.exec, hrequests, hget, hexec], hm, hgood, ?_⟩
    have hrun : smalloc C.geometry s.small.heap s.small.alloc size (some a) none
        = some (a + slabSizeof, createLarge C.geometry s.small.heap a size, s.small.alloc) := by
      rw [smalloc, hsearch]
      rfl
    have hpos : a + slabSizeof ≠ 0 := by
      have := hfresh.pos
      omega
    have hhome : s.small.homeFor size = none := if_neg (Nat.not_le.2 hsize)
    rw [SmallState.exec_alloc hrun, if_neg hpos, hhome] at hexec
    cases hexec
    exact hs.held.takeLarge hg horder hbytes

/-! ## The other calls -/

/-- `smfree` returns: the slabs that the pools give back, or the block of a large object, go to
the cache. -/
theorem SmallStack.Inv.free (hs : s.Inv C) (hmem : o ∈ s.small.live) :
    ∃ s', (StackOp.free o).exec C s = some s' ∧ s'.Inv C := by
  have hi := hs.small.inv
  obtain ⟨small, hexec, hgood, hlive, hfreed, -⟩ := hs.small.free hmem
  by_cases hsize : o.size ≤ s.small.alloc.objsizeMax
  · obtain ⟨q, hq, -, -⟩ := hi.small o hmem hsize
    have hothers : ∀ o' : SmallObject, o'.home = none → (o' ∈ small.live ↔ o' ∈ s.small.live) := by
      intro o' hnone
      rw [hlive]
      refine List.mem_erase_of_ne fun he => ?_
      rw [he, hq] at hnone
      cases hnone
    obtain ⟨m, hback, hm, hheld, -⟩ :=
      hs.held.shrink hs.memory hi hfreed.layout hfreed.slabs hothers
    have hreturns : s.returns C o small.alloc = some m := by
      rw [SmallStack.returns, smallMempoolSearch_of_le hsize]
      exact hback
    exact ⟨⟨m, small⟩, by simp [StackOp.exec, hexec, hreturns], hm, hgood, hheld⟩
  · have hlt := Nat.lt_of_not_le hsize
    obtain ⟨hnone, -⟩ := hi.large o hmem hlt
    obtain ⟨m, hput, hm, hheld⟩ := hs.held.putLarge hs.memory hi hmem hnone
    have hreturns : s.returns C o small.alloc = some m := by
      rw [SmallStack.returns, smallMempoolSearch_of_lt hlt]
      exact hput
    have halloc : small.alloc = s.small.alloc ∧ small.live = s.small.live.erase o := by
      have hrun := (smfree_large hi hmem hlt).1
      simp only [SmallOp.exec, hrun, Option.bind_eq_bind, Option.bind_some,
        Option.some.injEq] at hexec
      rw [← hexec]
      exact ⟨rfl, rfl⟩
    refine ⟨⟨m, small⟩, by simp [StackOp.exec, hexec, hreturns], hm, hgood, ?_⟩
    show m.HeldBy C small.alloc small.live
    rw [halloc.1, halloc.2]
    exact hheld

/-- What a client writes to its slab is not a header of another one. -/
theorem CacheState.Inv.scribble {m : CacheState} {a : Nat} (hm : m.Inv C) (ha : a ∈ m.cache.live)
    (mem : SlabCache) :
    CacheState.Inv C
      { m with cache := { m.cache with cache := clientWrite m.cache.cache a mem } } := by
  refine ⟨hm.cache.write ha mem, ?_⟩
  rw [hm.cache.write_holding ha mem]
  exact hm.backing

theorem SmallStack.Inv.scribble (hs : s.Inv C) {a : Nat} (ha : a ∈ s.memory.cache.live)
    (mem : SlabCache) :
    ∃ s', (StackOp.scribble a mem).exec C s = some s' ∧ s'.Inv C := by
  have hsame : ∀ {x : Nat}, x ∈ s.memory.cache.live →
      (clientWrite s.memory.cache.cache a mem).slab x = s.memory.slab x :=
    fun hx => hs.memory.cache.write_slab ha mem hx
  refine ⟨_, rfl, hs.memory.scribble ha mem, hs.small,
    hs.held.slabs, fun p hp b hb => ?_, fun o hmem hnone => ?_⟩
  · show ((clientWrite s.memory.cache.cache a mem).slab b).order = _
    rw [hsame (hs.held.mem_pool hp hb)]
    exact hs.held.pools p hp b hb
  · show ((clientWrite s.memory.cache.cache a mem).slab o.start).order = _ ∧
      ((clientWrite s.memory.cache.cache a mem).slab o.start).size = _
    rw [hsame (hs.held.mem_block hmem hnone)]
    exact hs.held.blocks o hmem hnone

/-- Every allowed call returns, and keeps the invariant. -/
theorem StackOp.exec_inv (hs : s.Inv C) (op : StackOp) (hop : op.Allowed C s) :
    ∃ s', op.exec C s = some s' ∧ s'.Inv C := by
  cases op with
  | alloc size answer retry =>
      by_cases hsize : size ≤ s.small.alloc.objsizeMax
      · exact hs.allocSmall hsize hop
      · exact hs.allocLarge (Nat.lt_of_not_le hsize) hop
  | free o => exact hs.free hop
  | write mem =>
      exact ⟨_, rfl, hs.memory, hs.small.write hop, hs.held⟩
  | scribble a mem => exact hs.scribble hop mem

theorem stackMachine_inv (hs : (stackMachine C).Reachable s) :
    s.Inv C ∧ ∀ op : StackOp, op.Allowed C s → ∃ s', op.exec C s = some s' ∧ s'.Inv C :=
  Machine.invariant (stackMachine C) (fun _ hinit => SmallStack.Created.inv hinit)
    (fun _ op hinv hop => StackOp.exec_inv hinv op hop) hs

/-! ## The end -/

/-- The memory when nobody holds any: the arena has all of its slabs, and the quota is billed
for them. -/
structure Backing.AllBack (b : Backing Unit) : Prop where
  heap : b.heap = []
  arena : (b.arena ()).cache.Perm ((b.arena ()).carved ++ (b.arena ()).mapped)
  quota : quotaUsed b.quota = (b.arena ()).used

theorem Backing.Inv.allBack {b : Backing Unit} (h : b.Inv (fun _ => C.arena) 0) : b.AllBack where
  heap := by
    have hheap := h.heap
    exact Multiset.coe_eq_zero _ |>.1 hheap
  arena := by
    have hout := (h.arena ()).out
    rw [← Multiset.coe_eq_coe, ← Multiset.coe_add, ← hout]
    exact (add_zero _).symm
  quota := by
    have hquota := h.quota
    simpa using hquota

/-- `small_alloc_destroy` and `slab_cache_destroy` end, and everything is back. -/
theorem SmallStack.Inv.destroy (hs : s.Inv C) :
    ∃ b, b.AllBack ∧ (∀ fuel b', s.destroy C fuel = some b' → b' = b) ∧ ∃ n, ∀ fuel, n < fuel →
      s.destroy C fuel = some b := by
  have hi := hs.small.inv
  have hslabs : ∀ a ∈ s.small.alloc.slabList, a ∈ s.memory.cache.live ∧
      (s.memory.slab a).order ≤ C.geometry.orderMax := by
    intro a ha
    obtain ⟨p, hp, hin⟩ := SmallAlloc.mem_slabList.1 ha
    exact ⟨hs.held.mem_pool hp hin, (hs.held.pools p hp a hin).trans_le (hi.slabOrder_le hp)⟩
  obtain ⟨m, hput, hm, -⟩ := hs.memory.putAll hi.slabList_nodup hslabs
  obtain ⟨b, hb, huniq, n, hn⟩ := hm.beside.cacheDestroy hm.cache
  have hpools : s.destroyPools C = some m := hput
  refine ⟨b, hb.allBack, fun fuel b' hrun => ?_, n, fun fuel hfuel => ?_⟩
  · simp only [SmallStack.destroy, hpools, Option.bind_eq_bind, Option.bind_some] at hrun
    exact huniq fuel b' hrun
  · simp only [SmallStack.destroy, hpools, Option.bind_eq_bind, Option.bind_some]
    exact hn fuel hfuel

/-! ## The contract -/

/-- What the large objects are billed for. -/
def SmallStack.largeBilled (s : SmallStack) : Nat :=
  ((s.small.live.filter fun o => o.home = none).map fun o =>
      ceilUnits (o.size + slabSizeof) * quotaUnitSize).sum

/-- The bytes of the object are those of a slab of the arena that is in use, or of a block of
`malloc`. -/
def SmallStack.Backed (C : StackConfig) (s : SmallStack) (o : SmallObject) : Prop :=
  (o.start, o.length s.small.alloc) ∈ s.memory.backing.heap ∨
  ∃ m, (m ∈ (s.memory.backing.arena ()).carved ∨ m ∈ (s.memory.backing.arena ()).mapped) ∧
    m ∉ (s.memory.backing.arena ()).cache ∧ m ≤ o.start ∧
    o.start + o.length s.small.alloc ≤ m + C.arena.slabSize

/-- What the client and the operator may rely on between two calls. -/
structure SmallStack.Contract (C : StackConfig) (s : SmallStack) : Prop where
  small : s.small.Contract C.geometry
  held : s.memory.HeldBy C s.small.alloc s.small.live
  backed : ∀ o ∈ s.small.live, s.Backed C o
  quota : quotaUsed s.memory.backing.quota = (s.memory.backing.arena ()).used + s.largeBilled
  returns : ∀ op : StackOp, op.Allowed C s → op.exec C s ≠ none
  destroy : ∃ b, b.AllBack ∧ (∀ fuel b', s.destroy C fuel = some b' → b' = b) ∧
    ∃ n, ∀ fuel, n < fuel → s.destroy C fuel = some b

/-- What an object has is small enough for a header: it fits in a slot, or the quota was billed
for it. -/
theorem SmallStack.Inv.fits (hs : s.Inv C) (hmem : o ∈ s.small.live) :
    o.size + slabSizeof < sizeMax := by
  cases hhome : o.home with
  | none =>
      obtain ⟨horder, hsize⟩ := hs.held.blocks o hmem hhome
      obtain ⟨-, hlt⟩ :=
        hs.memory.backing.sizes _ (hs.memory.block (hs.held.mem_block hmem hhome) horder)
      rw [hsize] at hlt
      exact Nat.lt_trans hlt (by decide)
  | some q =>
      have hle := hs.small.inv.size_le hmem hhome
      have hlt := hs.small.inv.objsize_lt (hs.small.inv.home_lt hmem hhome).1
      calc o.size + slabSizeof < 2 ^ 32 + slabSizeof := by omega
        _ < sizeMax := by decide

theorem SmallStack.Inv.backed (hs : s.Inv C) (hmem : o ∈ s.small.live) : s.Backed C o := by
  have hi := hs.small.inv
  cases hhome : o.home with
  | none =>
      left
      obtain ⟨horder, -⟩ := hs.held.blocks o hmem hhome
      rw [hs.held.length_eq hs.memory hmem hhome]
      exact hs.memory.block (hs.held.mem_block hmem hhome) horder
  | some q =>
      right
      have hq := (hi.home_lt hmem hhome).1
      obtain ⟨b, hb, -, -, -, hlo, hup⟩ := hi.slot_of hmem hhome
      have horder := hs.held.pools q hq b hb
      obtain ⟨m, hm, hle, hend, -⟩ :=
        hs.memory.inArena (hs.held.mem_pool hq hb) (horder.trans_le (hi.slabOrder_le hq))
      rw [hs.held.slab_size hs.memory hi hq hb] at hend
      have harena := hs.memory.backing.arena ()
      refine ⟨m, harena.mem_out hm, fun hcache => ?_, ?_, ?_⟩
      · exact Multiset.disjoint_left.1 (Multiset.nodup_add.1 harena.nodup).2.2
          (Multiset.mem_coe.2 hcache) hm
      · rw [SmallObject.start, hhome]
        show m ≤ o.ptr
        omega
      · rw [SmallObject.start, SmallObject.length, hhome]
        exact Nat.le_trans hup hend

theorem SmallStack.Inv.quota (hs : s.Inv C) :
    quotaUsed s.memory.backing.quota = (s.memory.backing.arena ()).used + s.largeBilled := by
  have hi := hs.small.inv
  have hquota := hs.memory.backing.quota
  -- the large slabs are the blocks of the large objects
  have hlarge : s.memory.cache.large C.geometry
      = ((s.small.live.filter fun o => o.home = none).map SmallObject.start).toFinset := by
    ext a
    rw [SlabState.large, Finset.mem_filter, List.mem_toFinset, List.mem_map, hs.held.slabs a]
    constructor
    · rintro ⟨hslab | ⟨o, hmem, hnone, hstart⟩, horder⟩
      · obtain ⟨p, hp, hin⟩ := SmallAlloc.mem_slabList.1 hslab
        have hle : (s.memory.slab a).order ≤ C.geometry.orderMax :=
          (hs.held.pools p hp a hin).trans_le (hi.slabOrder_le hp)
        have horder : (s.memory.slab a).order = C.geometry.orderMax + 1 := horder
        omega
      · exact ⟨o, by simp [hmem, hnone], hstart⟩
    · rintro ⟨o, hmem, hstart⟩
      obtain ⟨hmem, hnone⟩ : o ∈ s.small.live ∧ o.home = none := by simpa using hmem
      subst hstart
      exact ⟨.inr ⟨o, hmem, hnone, rfl⟩, (hs.held.blocks o hmem hnone).1⟩
  have hnodup : ((s.small.live.filter fun o => o.home = none).map SmallObject.start).Nodup := by
    refine List.Nodup.map_on (fun o ho o' ho' hstart => ?_) (hi.live_nodup.filter _)
    exact hi.start_inj (List.mem_of_mem_filter ho) (List.mem_of_mem_filter ho') hstart
  have hbills : ((s.small.live.filter fun o => o.home = none).map SmallObject.start).map
        (fun a => ceilUnits (s.memory.cache.cache.slab a).size * quotaUnitSize)
      = (s.small.live.filter fun o => o.home = none).map fun o =>
      ceilUnits (o.size + slabSizeof) * quotaUnitSize := by
    rw [List.map_map]
    refine List.map_congr_left fun o ho => ?_
    obtain ⟨hmem, hnone⟩ : o ∈ s.small.live ∧ o.home = none := by simpa using ho
    have hsize : (s.memory.cache.cache.slab o.start).size = o.size + slabSizeof :=
      (hs.held.blocks o hmem hnone).2
    rw [Function.comp_apply, hsize]
  rw [SlabState.holding_bill, hlarge, List.sum_toFinset _ hnodup, hbills, Finset.univ_unique,
    Finset.sum_singleton] at hquota
  exact hquota

/-- **The allocator of small objects on its cache and its arena**: in every run of the three
layers, with any memory that `mmap` and `malloc` return, no call fails, the contract of the
objects holds, each object lies in memory that the arena or `malloc` has given away, and
everything goes back at the end. -/
theorem small_stack_contract (hs : (stackMachine C).Reachable s) : s.Contract C := by
  obtain ⟨hinv, hcalls⟩ := stackMachine_inv hs
  constructor
  case small => exact hinv.small.contract fun o hmem => hinv.fits hmem
  case held => exact hinv.held
  case backed => exact fun o hmem => hinv.backed hmem
  case quota => exact hinv.quota
  case returns =>
    intro op hop hnone
    obtain ⟨s', hex, -⟩ := hcalls op hop
    rw [hnone] at hex
    cases hex
  case destroy => exact hinv.destroy

/-! ## Deciding what is allowed -/

section Decide

variable {b : Backing Unit} {n a : Nat}

instance (b : Backing Unit) (n a : Nat) : Decidable (b.FreshBlock (fun _ => C.arena) n a) :=
  decidable_of_iff ((∀ x ∈ b.heap, a + n ≤ x.1 ∨ x.1 + x.2 ≤ a) ∧
      (a + n ≤ C.arena.arena ∨ C.arena.arena + C.arena.prealloc ≤ a) ∧
      ∀ m ∈ (b.arena ()).mapped, a + n ≤ m ∨ m + C.arena.slabSize ≤ a)
    ⟨fun h => ⟨h.1, fun _ => h.2.1, fun _ => h.2.2⟩, fun h => ⟨h.heap, h.prealloc (), h.mapped ()⟩⟩

instance (b : Backing Unit) (m : Nat) : Decidable (b.FreshSlab (fun _ => C.arena) () m) :=
  decidable_of_iff (m ≠ 0 ∧ C.arena.slabSize ∣ m ∧ m + C.arena.slabSize ≤ sizeMax ∧
      (∀ x ∈ b.heap, m + C.arena.slabSize ≤ x.1 ∨ x.1 + x.2 ≤ m) ∧
      (m + C.arena.slabSize ≤ C.arena.arena ∨ C.arena.arena + C.arena.prealloc ≤ m) ∧
      ∀ m' ∈ (b.arena ()).mapped, m + C.arena.slabSize ≤ m' ∨ m' + C.arena.slabSize ≤ m)
    ⟨fun h => ⟨h.1, h.2.1, h.2.2.1, h.2.2.2.1, h.2.2.2.2.1, h.2.2.2.2.2⟩,
      fun h => ⟨h.ne_zero, h.aligned, h.bound, h.heap, h.prealloc, h.mapped⟩⟩

instance (s : SmallStack) (size : Nat) (answer retry : Option Nat) :
    Decidable (s.Answers C size answer retry) :=
  decidable_of_iff (if size ≤ s.small.alloc.objsizeMax then
      usedInUnits s.memory.backing.quota + ceilUnits C.arena.slabSize < 2 ^ 32 ∧
      (∀ m ∈ answer, s.memory.backing.FreshSlab (fun _ => C.arena) () m) ∧
      ∀ m ∈ retry, s.memory.backing.FreshSlab (fun _ => C.arena) () m
    else
      size + slabSizeof < quotaMax ∧
      usedInUnits s.memory.backing.quota + ceilUnits (size + slabSizeof) < 2 ^ 32 ∧
      ∀ a ∈ answer,
      0 < a ∧ s.memory.backing.FreshBlock (fun _ => C.arena) (size + slabSizeof) a) (by
    unfold SmallStack.Answers
    split
    · refine and_congr_right fun _ => ?_
      simp only [or_imp, forall_and, Option.mem_def]
    · rfl)

end Decide

/-- Whether a call of `smalloc` or `smfree` is allowed. -/
def StackOp.check (C : StackConfig) (s : SmallStack) : StackOp → Bool
  | .alloc size answer retry => decide (s.Answers C size answer retry)
  | .free o => decide (o ∈ s.small.live)
  | .write _ => false
  | .scribble _ _ => false

theorem StackOp.check_allowed (s : SmallStack) (op : StackOp) (hop : op.check C s = true) :
    op.Allowed C s := by
  cases op with
  | alloc size answer retry =>
      rw [StackOp.check, decide_eq_true_eq] at hop
      exact hop
  | free o =>
      rw [StackOp.check, decide_eq_true_eq] at hop
      exact hop
  | write mem => cases hop
  | scribble a mem => cases hop

/-- The pools for 512, 1024, 2048 and 4096 bytes over an arena of one slab. -/
def fourPoolsStack : StackConfig where
  arena := oneSlab
  geometry := sixteenPages
  slabSize_eq := rfl
  order0_min := by decide

def fourPoolsMemory : CacheState where
  cache := { cache := slabCacheCreate sixteenPages (fun _ => Slab.poisoned) ⟨id, id⟩ ⟨id, id⟩,
             live := ∅ }
  backing :=
    { quota := quotaInit 1048576
      arena := fun _ =>
        { cache := [], arena := 65536, prealloc := 65536, used := 0, carved := [], mapped := [] }
      heap := [] }

theorem fourPoolsMemory_quota : usedInUnits fourPoolsMemory.backing.quota = 0 := by decide

/-- A small object in the slab that is there, a large one, and the small one is freed. -/
def threeCalls : List StackOp :=
  [.alloc 512 none none, .alloc 100000 (some 1048576) none, .free ⟨69632, 512, some 3⟩]

theorem small_stack_contract_three : ∃ s, (stackMachine fourPoolsStack).Reachable s ∧
    s.small.live = [⟨1048624, 100000, none⟩] ∧ s.Contract fourPoolsStack := by
  have hrun : ((fourPools.map fun small => SmallStack.mk fourPoolsMemory small).bind
      ((stackMachine fourPoolsStack).run (fun s op => op.check fourPoolsStack s) threeCalls)).map
        (fun s => s.small.live) = some [⟨1048624, 100000, none⟩] := by decide +kernel
  obtain ⟨s, hs, hlive⟩ := Option.map_eq_some_iff.1 hrun
  obtain ⟨s₀, hs₀, hrun⟩ := Option.bind_eq_some_iff.1 hs
  obtain ⟨small, hsmall, rfl⟩ := Option.map_eq_some_iff.1 hs₀
  have hinit : (stackMachine fourPoolsStack).Reachable ⟨fourPoolsMemory, small⟩ :=
    .init ⟨fourPools_created hsmall, ⟨_, _, _, rfl⟩, fourPoolsMemory_quota, rfl, rfl⟩
  have hreach :=
    Machine.Reachable.run _ (fun s op hop => StackOp.check_allowed s op hop) threeCalls hinit hrun
  exact ⟨s, hreach, hlive, small_stack_contract hreach⟩

end SmallAllocators
