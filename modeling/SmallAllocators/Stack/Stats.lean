/-
SmallAllocators.Stack.Stats — the statistics of the allocator of small
objects, of its cache and of its quota are about the same memory.

`small_stats` adds up the pools; `slab_cache_used` counts the slabs of the
pools and of the large objects; and the quota is billed for no less
(`small_statistics`).
-/
import SmallAllocators.Small.Stats
import SmallAllocators.Stack.Runs

namespace SmallAllocators

variable {C : StackConfig} {s : SmallStack} {alloc : SmallAlloc} {live : List SmallObject}
    {m : CacheState} {h : MslabHeap}

/-! ## Sums -/

theorem sum_map_range (n : Nat) (f : Nat → Nat) :
    ((List.range n).map f).sum = ∑ p ∈ Finset.range n, f p := by
  induction n with
  | zero => rfl
  | succ n ih => simp [List.range_succ, Finset.sum_range_succ, ih]

/-- The objects that live in some pool, one pool after another. -/
theorem sum_liveAt (n : Nat) (hlt : ∀ o ∈ live, ∀ q, o.home = some q → q < n) :
    ∑ p ∈ Finset.range n, (alloc.pool p).objsize * (liveAt live p).length
      = ((live.filter fun o => o.home.isSome).map fun o => o.length alloc).sum := by
  induction live with
  | nil => simp [liveAt]
  | cons o live ih =>
      have ih := ih fun o' ho' => hlt o' (List.mem_cons_of_mem o ho')
      cases hhome : o.home with
      | none =>
          have hsame : ∀ p, liveAt (o :: live) p = liveAt live p :=
            fun p => liveAt_cons_ne live (by simp [hhome])
          simp only [hsame, ih]
          simp [hhome]
      | some q =>
          have hq : q < n := hlt o List.mem_cons_self q hhome
          have hlen : ∀ p, (alloc.pool p).objsize * (liveAt (o :: live) p).length
              = (alloc.pool p).objsize * (liveAt live p).length + if p = q then
              (alloc.pool p).objsize else 0 := by
            intro p
            by_cases hp : p = q
            · simp [liveAt, hhome, hp, Nat.mul_add]
            · have hne : o.home ≠ some p := fun he => hp (Option.some.inj (he.symm.trans hhome))
              simp [liveAt_cons_ne live hne, hp]
          simp only [hlen, Finset.sum_add_distrib, ih]
          simp [hhome, hq, SmallObject.length, Nat.add_comm]

/-! ## The memory of the cache -/

/-- The slabs that clients have are in the arena slabs and in the blocks that the quota is
billed for. -/
theorem CacheState.Inv.used_le_quota (hm : m.Inv C) :
    slabCacheUsed m.cache.cache ≤ quotaUsed m.backing.quota := by
  obtain ⟨G, hinv, hlive⟩ := hm.cache
  have hquota := hm.backing.quota
  have harena := hm.backing.arena ()
  have htiles : ∑ a ∈ G.tiles, m.cache.cache.usedSize a ≤ G.regions.card * C.geometry.slabSize := by
    rw [← hinv.sum_size]
    refine Finset.sum_le_sum fun a _ => ?_
    unfold SlabCache.usedSize
    split
    · exact Nat.zero_le _
    · exact Nat.le_refl _
  have hregions : G.regions.card * C.geometry.slabSize ≤ (m.backing.arena ()).used := by
    have hmapped : m.cache.cache.mapped = G.regions.val := by
      rw [SlabCache.mapped, hinv.alloc.maps, add_tsub_cancel_left]
    have hcard := congrArg Multiset.card harena.out
    simp only [SlabState.holding, Pi.single_eq_same, hmapped, Multiset.card_add,
      Multiset.coe_card, Finset.card_val] at hcard
    rw [harena.used, C.slabSize_eq]
    exact Nat.mul_le_mul_right _ (by omega)
  have hblocks :
      ∑ a ∈ G.large, (m.cache.cache.slab a).size ≤ (m.cache.holding () C.geometry).bill := by
    have hlarge : m.cache.large C.geometry = G.large := by rw [← hinv.large_eq, hlive]
    rw [SlabState.holding_bill, hlarge]
    refine Finset.sum_le_sum fun a _ => ?_
    simp only [ceilUnits, quotaUnitSize]
    omega
  rw [slabCacheUsed, hinv.stats.allUsed]
  have hunit : ∑ i, (m.backing.arena i).used = (m.backing.arena ()).used := by simp
  omega

/-- `slab_cache_used` counts the slabs of the pools and the blocks of the large objects. -/
theorem SmallStack.Inv.cacheUsed (hs : s.Inv C) :
    slabCacheUsed s.memory.cache.cache
      = ∑ p ∈ Finset.range s.small.alloc.smallMempoolCacheSize, mempoolTotal (s.small.alloc.pool p)
        + ((s.small.live.filter fun o => o.home = none).map fun o => o.size + slabSizeof).sum := by
  have hi := hs.small.inv
  obtain ⟨G, hinv, hlive⟩ := hs.memory.cache
  set blocks := (s.small.live.filter fun o => o.home = none).map SmallObject.start with hblocks
  have hblock : ∀ a, a ∈ blocks ↔ ∃ o ∈ s.small.live, o.home = none ∧ o.start = a := by
    intro a
    simp [hblocks, and_assoc]
  have hset : s.memory.cache.live = (s.small.alloc.slabList ++ blocks).toFinset := by
    ext a
    rw [hs.held.slabs a, List.mem_toFinset, List.mem_append, hblock]
  have hnodup : (s.small.alloc.slabList ++ blocks).Nodup := by
    refine List.Nodup.append hi.slabList_nodup ?_ ?_
    · refine List.Nodup.map_on (fun o ho o' ho' hstart => ?_) (hi.live_nodup.filter _)
      exact hi.start_inj (List.mem_of_mem_filter ho) (List.mem_of_mem_filter ho') hstart
    · intro a hslab hmem
      obtain ⟨p, hp, hin⟩ := SmallAlloc.mem_slabList.1 hslab
      obtain ⟨o, ho, hnone, rfl⟩ := (hblock a).1 hmem
      exact (hi.blocks o ho hnone p hp _ hin).ne (hi.length_pos ho)
        (s.small.alloc.slabSize_pos C.geometry p) rfl
  rw [slabCacheUsed, hinv.allUsed_eq, hlive, hset, List.sum_toFinset _ hnodup, List.map_append,
    List.sum_append]
  congr 1
  · -- the slabs of each pool
    rw [SmallAlloc.slabList, List.map_flatMap, List.flatMap, List.sum_flatten, List.map_map,
      sum_map_range]
    refine Finset.sum_congr rfl fun p hp => ?_
    have hp := Finset.mem_range.1 hp
    obtain ⟨cold, hpool⟩ := hi.pools p hp
    have hsizes : (s.small.alloc.pool p).slabs.map (fun a => (s.memory.cache.cache.slab a).size)
        = (s.small.alloc.pool p).slabs.map fun _ =>
        C.geometry.slabOrderSize (s.small.alloc.pool p).slabOrder :=
      List.map_congr_left fun a ha => hs.held.slab_size hs.memory hi hp ha
    rw [Function.comp_apply, hsizes, mempoolTotal, hpool.contents.total]
    simp [Nat.mul_comm]
  · rw [hblocks, List.map_map]
    refine congrArg List.sum (List.map_congr_left fun o ho => ?_)
    obtain ⟨hmem, hnone⟩ : o ∈ s.small.live ∧ o.home = none := by simpa using ho
    exact (hs.held.blocks o hmem hnone).2

/-! ## The statistics -/

/-- What the statistics tell a client. -/
structure SmallStack.Statistics (C : StackConfig) (s : SmallStack) : Prop where
  pools : ∀ p < s.small.alloc.smallMempoolCacheSize,
    (mempoolStats C.geometry (s.small.alloc.pool p)).Of C.geometry (s.small.alloc.pool p)
      (liveAt s.small.live p)
  /-- `small_stats` gives the function of the client one pool after another until it stops, and
  adds up the pools that it gave. -/
  stats : ∀ (γ : Type) (cb : MempoolStats → γ → Bool × γ) (ctx : γ) (fuel : Nat),
    s.small.alloc.smallMempoolCacheSize < fuel →
    smallStats C.geometry s.small.alloc cb fuel ctx =
      some (sumStats (callUntil cb (s.small.alloc.allStats C.geometry) ctx).1,
        (callUntil cb (s.small.alloc.allStats C.geometry) ctx).2)
  /-- The pools use the memory of the small objects. -/
  used : (sumStats (s.small.alloc.allStats C.geometry)).used
    = ((s.small.live.filter fun o => o.home.isSome).map fun o => o.length s.small.alloc).sum
  used_le : (sumStats (s.small.alloc.allStats C.geometry)).used ≤
    (sumStats (s.small.alloc.allStats C.geometry)).total
  /-- The cache counts the slabs of the pools and the large objects. -/
  cache : slabCacheUsed s.memory.cache.cache
    = ((List.range s.small.alloc.smallMempoolCacheSize).map fun p =>
      mempoolTotal (s.small.alloc.pool p)).sum
      + ((s.small.live.filter fun o => o.home = none).map fun o => o.size + slabSizeof).sum
  total_le : (sumStats (s.small.alloc.allStats C.geometry)).total ≤
    slabCacheUsed s.memory.cache.cache
  quota : slabCacheUsed s.memory.cache.cache ≤ quotaUsed s.memory.backing.quota

theorem SmallStack.Inv.statistics (hs : s.Inv C) : s.Statistics C := by
  have hi := hs.small.inv
  have hcache : slabCacheUsed s.memory.cache.cache
      = ((List.range s.small.alloc.smallMempoolCacheSize).map fun p =>
        mempoolTotal (s.small.alloc.pool p)).sum
        + ((s.small.live.filter fun o => o.home = none).map fun o => o.size + slabSizeof).sum := by
    rw [sum_map_range]
    exact hs.cacheUsed
  have hquota := hs.memory.used_le_quota
  have hlt : quotaUsed s.memory.backing.quota < sizeMax := by
    have hunits := usedInUnits_lt s.memory.backing.quota
    simp only [quotaUsed, quotaUnitSize, sizeMax]
    omega
  have hpool : ∀ p < s.small.alloc.smallMempoolCacheSize,
      (mempoolStats C.geometry (s.small.alloc.pool p)).Of C.geometry (s.small.alloc.pool p)
        (liveAt s.small.live p) := by
    intro p hp
    obtain ⟨cold, hinv⟩ := hi.pools p hp
    have hle : mempoolTotal (s.small.alloc.pool p)
        ≤ ((List.range s.small.alloc.smallMempoolCacheSize).map fun p =>
          mempoolTotal (s.small.alloc.pool p)).sum :=
      List.single_le_sum (fun _ _ => Nat.zero_le _) _ (List.mem_map.2 ⟨p, List.mem_range.2 hp, rfl⟩)
    exact hinv.contents.stats (by omega)
  have hall : ∀ f : MempoolStats → Nat, ((s.small.alloc.allStats C.geometry).map f).sum
      = ∑ p ∈ Finset.range s.small.alloc.smallMempoolCacheSize, f
        (mempoolStats C.geometry (s.small.alloc.pool p)) := by
    intro f
    rw [SmallAlloc.allStats, List.map_map, sum_map_range]
    rfl
  have htotal : (sumStats (s.small.alloc.allStats C.geometry)).total ≤
      slabCacheUsed s.memory.cache.cache := by
    rw [hcache, sum_map_range]
    simp only [sumStats, hall]
    exact Nat.le_add_right_of_le (Finset.sum_le_sum fun p hp =>
        (hpool p (Finset.mem_range.1 hp)).total_le)
  have hused : (sumStats (s.small.alloc.allStats C.geometry)).used ≤
      (sumStats (s.small.alloc.allStats C.geometry)).total := by
    simp only [sumStats, hall]
    exact Finset.sum_le_sum fun p hp => (hpool p (Finset.mem_range.1 hp)).used_le
  constructor
  case pools => exact hpool
  case stats =>
    intro γ cb ctx fuel hfuel
    exact smallStats_eq ctx hfuel (by omega) (by omega)
  case used =>
    rw [← sum_liveAt s.small.alloc.smallMempoolCacheSize fun o ho q hq => (hi.home_lt ho hq).1,
      sumStats, hall]
    exact Finset.sum_congr rfl fun p hp => (hpool p (Finset.mem_range.1 hp)).used
  case used_le => exact hused
  case cache => exact hcache
  case total_le => exact htotal
  case quota => exact hquota

/-- **The statistics are about the same memory** in every run of the three layers: what each
pool reports, what `small_stats` adds up, what the cache counts and what the quota is billed
for. -/
theorem small_statistics (hs : (stackMachine C).Reachable s) : s.Statistics C :=
  (stackMachine_inv hs).1.statistics

/-- A small object, which goes to the largest of the four pools, and a large one. -/
def twoCalls : List StackOp := [.alloc 512 none none, .alloc 100000 (some 1048576) none]

theorem small_statistics_two : ∃ s, (stackMachine fourPoolsStack).Reachable s ∧
    sumStats (s.small.alloc.allStats sixteenPages) = { used := 4096, total := 65424 } ∧
    slabCacheUsed s.memory.cache.cache = 165584 ∧ s.Statistics fourPoolsStack := by
  have hrun : ((fourPools.map fun small => SmallStack.mk fourPoolsMemory small).bind
      ((stackMachine fourPoolsStack).run (fun s op => op.check fourPoolsStack s) twoCalls)).map
        (fun s => (sumStats (s.small.alloc.allStats sixteenPages),
          slabCacheUsed s.memory.cache.cache))
          = some ({ used := 4096, total := 65424 }, 165584) := by decide +kernel
  obtain ⟨s, hs, heq⟩ := Option.map_eq_some_iff.1 hrun
  obtain ⟨hstats, hcache⟩ := Prod.mk.inj heq
  obtain ⟨s₀, hs₀, hrun⟩ := Option.bind_eq_some_iff.1 hs
  obtain ⟨small, hsmall, rfl⟩ := Option.map_eq_some_iff.1 hs₀
  have hinit : (stackMachine fourPoolsStack).Reachable ⟨fourPoolsMemory, small⟩ :=
    .init ⟨fourPools_created hsmall, ⟨_, _, _, rfl⟩, fourPoolsMemory_quota, rfl, rfl⟩
  have hreach :=
    Machine.Reachable.run _ (fun s op hop => StackOp.check_allowed s op hop) twoCalls hinit hrun
  exact ⟨s, hreach, hstats, hcache, small_statistics hreach⟩

end SmallAllocators
