/-
SmallAllocators.Small.Routing — pool groups and routing in every run.

No step of the allocator changes the layout of its pools and groups, and
each step that changes which pools are active serves every pool again. This
does not depend on what is in the slabs, so it is shown here for every call
that returns, whatever the pools and the memory look like.
-/
import SmallAllocators.Small.Runs

namespace SmallAllocators

section Pools

variable {g : Geometry} {h h' : MslabHeap} {p p' : Mempool} {answer : Option Nat} {slab ptr : Nat}

/-! ## Pools keep their sizes -/

theorem removeHot_sameConfig (hrun : removeHot h p slab = some (h', p')) : p.SameConfig p' := by
  simp only [removeHot, Option.bind_eq_bind, Option.bind_eq_some_iff, Option.some.injEq,
    Prod.mk.injEq] at hrun
  obtain ⟨hot, -, -, rfl⟩ := hrun
  unfold Mempool.skipHot
  split <;> exact ⟨rfl, rfl, rfl, rfl, rfl, rfl⟩

theorem insertHot_sameConfig (hrun : insertHot h p slab = some (h', p')) : p.SameConfig p' := by
  simp only [insertHot, Option.bind_eq_bind, Option.bind_eq_some_iff, Option.some.injEq,
    Prod.mk.injEq] at hrun
  obtain ⟨hot, -, -, rfl⟩ := hrun
  exact ⟨rfl, rfl, rfl, rfl, rfl, rfl⟩

theorem mslabAlloc_sameConfig (hrun : mslabAlloc h p slab = some (ptr, h', p')) :
    p.SameConfig p' := by
  simp only [mslabAlloc, Option.bind_eq_bind, Option.bind_eq_some_iff] at hrun
  obtain ⟨-, -, hrun⟩ := hrun
  split at hrun
  · simp only [Option.bind_eq_some_iff, Option.some.injEq, Prod.mk.injEq] at hrun
    obtain ⟨⟨h₁, p₁⟩, hremove, -, -, rfl⟩ := hrun
    exact removeHot_sameConfig hremove
  · simp only [Option.some.injEq, Prod.mk.injEq] at hrun
    obtain ⟨-, -, rfl⟩ := hrun
    exact .refl p

theorem mempoolTake_sameConfig (hrun : mempoolTake h p slab = some (ptr, h', p')) :
    p.SameConfig p' := by
  simp only [mempoolTake, Option.bind_eq_bind, Option.bind_eq_some_iff, Option.some.injEq,
    Prod.mk.injEq] at hrun
  obtain ⟨⟨ptr₁, h₁, p₁⟩, halloc, -, -, -, -, rfl⟩ := hrun
  have hused : p.SameConfig (p.setUsed (p.stats.used + p.objsize)) := ⟨rfl, rfl, rfl, rfl, rfl, rfl⟩
  exact hused.trans (mslabAlloc_sameConfig halloc)

theorem mempoolSlab_sameConfig (hrun : mempoolSlab g h p answer = some (slab, h', p')) :
    p.SameConfig p' := by
  unfold mempoolSlab at hrun
  split at hrun
  · simp only [Option.some.injEq, Prod.mk.injEq] at hrun
    obtain ⟨-, -, rfl⟩ := hrun
    exact ⟨rfl, rfl, rfl, rfl, rfl, rfl⟩
  · split at hrun
    · simp only [Option.some.injEq, Prod.mk.injEq] at hrun
      obtain ⟨-, -, rfl⟩ := hrun
      exact ⟨rfl, rfl, rfl, rfl, rfl, rfl⟩
    · split at hrun
      · cases hrun
      · split at hrun
        · simp only [Option.some.injEq, Prod.mk.injEq] at hrun
          obtain ⟨-, -, rfl⟩ := hrun
          exact .refl p
        · cases hrun

theorem mempoolAlloc_sameConfig (hrun : mempoolAlloc g h p answer = some (ptr, h', p')) :
    p.SameConfig p' := by
  unfold mempoolAlloc at hrun
  split at hrun
  · exact mempoolTake_sameConfig hrun
  · split at hrun
    · simp only [Option.some.injEq, Prod.mk.injEq] at hrun
      obtain ⟨-, -, rfl⟩ := hrun
      exact .refl p
    · next slab₁ h₁ p₁ hslab =>
        simp only [Option.bind_eq_bind, Option.bind_eq_some_iff] at hrun
        obtain ⟨-, -, ⟨h₂, p₂⟩, hinsert, htake⟩ := hrun
        have hhot : p₂.SameConfig (p₂.setHot p₂.hotSlabs slab₁) := ⟨rfl, rfl, rfl, rfl, rfl, rfl⟩
        exact (mempoolSlab_sameConfig hslab).trans
          ((insertHot_sameConfig hinsert).trans (hhot.trans (mempoolTake_sameConfig htake)))

theorem retireSlab_sameConfig (hrun : retireSlab h p slab = some p') : p.SameConfig p' := by
  unfold retireSlab mempoolFreeSpareSlab at hrun
  split at hrun
  · simp only [Option.bind_eq_bind, Option.bind_eq_some_iff, Option.some.injEq] at hrun
    obtain ⟨p₁, ⟨-, -, rfl⟩, rfl⟩ := hrun
    exact ⟨rfl, rfl, rfl, rfl, rfl, rfl⟩
  · split at hrun
      <;> (rw [Option.some.injEq] at hrun; subst hrun; exact ⟨rfl, rfl, rfl, rfl, rfl, rfl⟩)

theorem mslabPlace_sameConfig (hrun : mslabPlace h p slab = some (h', p')) : p.SameConfig p' := by
  unfold mslabPlace at hrun
  simp only [] at hrun
  split at hrun
  · simp only [Option.bind_eq_bind, Option.bind_eq_some_iff] at hrun
    obtain ⟨⟨h₁, p₁⟩, hinsert, hrun⟩ := hrun
    refine (insertHot_sameConfig hinsert).trans ?_
    split at hrun <;>
      (simp only [Option.some.injEq, Prod.mk.injEq] at hrun
       obtain ⟨-, rfl⟩ := hrun
       exact ⟨rfl, rfl, rfl, rfl, rfl, rfl⟩)
  · split at hrun
    · simp only [Option.some.injEq, Prod.mk.injEq] at hrun
      exact hrun.2 ▸ .refl p
    · split at hrun
      · simp only [Option.bind_eq_bind, Option.bind_eq_some_iff, Option.some.injEq,
          Prod.mk.injEq] at hrun
        obtain ⟨⟨h₁, p₁⟩, hremove, p₂, hretire, -, rfl⟩ := hrun
        exact (removeHot_sameConfig hremove).trans (retireSlab_sameConfig hretire)
      · simp only [Option.some.injEq, Prod.mk.injEq] at hrun
        exact hrun.2 ▸ .refl p

theorem mempoolFreeSlab_sameConfig (hrun : mempoolFreeSlab h p slab ptr = some (h', p')) :
    p.SameConfig p' := by
  simp only [mempoolFreeSlab, mslabFree, Option.bind_eq_bind, Option.bind_eq_some_iff] at hrun
  obtain ⟨-, -, -, -, hplace⟩ := hrun
  have hused : p.SameConfig (p.setUsed (p.stats.used - p.objsize)) := ⟨rfl, rfl, rfl, rfl, rfl, rfl⟩
  exact hused.trans (mslabPlace_sameConfig hplace)

end Pools

/-! ## The allocator -/

variable {g : Geometry} {h h' : MslabHeap} {alloc alloc' : SmallAlloc} {size ptr p q : Nat}
    {answer retry : Option Nat}

/-- What does not depend on the memory: the layout, and that every pool is served. -/
structure SmallAlloc.Routed (alloc : SmallAlloc) : Prop where
  grouped : alloc.Grouped alloc.smallMempoolCacheSize
  usedAt : ∀ p < alloc.smallMempoolCacheSize, alloc.UsedAt p
  classOf_lt : ∀ size ≤ alloc.objsizeMax, alloc.classOf size < alloc.smallMempoolCacheSize
  count : alloc.smallMempoolCacheSize ≤ smallMempoolMax
  strict : ∀ p q, p < q → q < alloc.smallMempoolCacheSize →
    (alloc.pool p).objsize < (alloc.pool q).objsize

namespace SmallAlloc.Routed

theorem change (hr : alloc.Routed) (hlay : alloc.SameLayout alloc')
    (hu : ∀ p < alloc.smallMempoolCacheSize, alloc'.UsedAt p) : alloc'.Routed := by
  constructor
  case grouped => rw [hlay.cacheSize]; exact hlay.grouped hr.grouped
  case usedAt => rw [hlay.cacheSize]; exact hu
  case classOf_lt =>
    intro size hsize
    rw [hlay.objsizeMax] at hsize
    rw [hlay.classOf, hlay.cacheSize]
    exact hr.classOf_lt size hsize
  case count => rw [hlay.cacheSize]; exact hr.count
  case strict =>
    intro p q hpq hq
    rw [hlay.cacheSize] at hq
    rw [(hlay.config p).objsize, (hlay.config q).objsize]
    exact hr.strict p q hpq hq

end SmallAlloc.Routed

/-- The layout is the same, and every pool is served. -/
structure SmallAlloc.Reroutes (alloc alloc' : SmallAlloc) : Prop where
  layout : alloc.SameLayout alloc'
  routed : alloc'.Routed

namespace SmallAlloc.Routed

theorem refl (hr : alloc.Routed) : alloc.Reroutes alloc := ⟨.refl alloc, hr⟩

theorem setPool (hr : alloc.Routed) {m : Mempool} (hm : (alloc.pool p).SameConfig m) :
    alloc.Reroutes (alloc.setPool p m) :=
  ⟨SmallAlloc.setPool_sameLayout hm, hr.change (SmallAlloc.setPool_sameLayout hm)
    fun q hq => (hr.usedAt q hq).of_group (alloc.setPool_group p m) (alloc.setPool_usedPool p m q)⟩

theorem setWaste (hr : alloc.Routed) (p waste : Nat) : alloc.Reroutes (alloc.setWaste p waste) :=
  ⟨alloc.setWaste_sameLayout p waste, hr.change (alloc.setWaste_sameLayout p waste)
    fun q hq => (hr.usedAt q hq).of_group (alloc.setWaste_group p waste)
      (alloc.setWaste_usedPool p waste q)⟩

end SmallAlloc.Routed

theorem SmallAlloc.Reroutes.trans {alloc₁ alloc₂ alloc₃ : SmallAlloc} (h : alloc₁.Reroutes alloc₂)
    (h' : alloc₂.Reroutes alloc₃) :
    alloc₁.Reroutes alloc₃ := ⟨h.layout.trans h'.layout, h'.routed⟩

theorem smallocRetry_reroutes (hr : alloc.Routed)
    (hrun : smallocRetry g h alloc p retry = some (ptr, h', alloc')) :
    alloc.Reroutes alloc' := by
  obtain ⟨alloc₁, hsweep, hs⟩ := smallMempoolGroupSweepSparse_spec (h := h) hr.grouped hr.usedAt
  simp only [smallocRetry, hsweep, Option.bind_eq_bind, Option.bind_some, Option.bind_eq_some_iff,
    Option.some.injEq, Prod.mk.injEq] at hrun
  obtain ⟨⟨ptr₁, h₁, m⟩, halloc, -, -, rfl⟩ := hrun
  have hswept : alloc.Reroutes alloc₁ := ⟨hs.layout, hr.change hs.layout hs.usedAt⟩
  exact hswept.trans (hswept.routed.setPool (mempoolAlloc_sameConfig halloc))

theorem smallocTry_reroutes (hr : alloc.Routed)
    (hrun : smallocTry g h alloc p answer retry = some (ptr, h', alloc')) :
    alloc.Reroutes alloc' := by
  simp only [smallocTry, Option.bind_eq_bind, Option.bind_eq_some_iff] at hrun
  obtain ⟨⟨ptr₁, h₁, m⟩, halloc, hrun⟩ := hrun
  have hr₁ := hr.setPool (mempoolAlloc_sameConfig halloc)
  split at hrun
  · exact hr₁.trans (smallocRetry_reroutes hr₁.routed hrun)
  · simp only [Option.some.injEq, Prod.mk.injEq] at hrun
    obtain ⟨-, -, rfl⟩ := hrun
    exact hr₁

theorem smallocCharge_reroutes (hr : alloc.Routed) (hp : p < alloc.smallMempoolCacheSize)
    (hrun : smallocCharge alloc p = some alloc') : alloc.Reroutes alloc' := by
  unfold smallocCharge at hrun
  simp only [] at hrun
  split at hrun
  · next hne =>
      generalize ((alloc.smallMempoolCache p).waste +
        objsizeDiff alloc (alloc.smallMempoolCache p).usedPool p) % sizeMax = waste at hrun
      have hr₁ := hr.setWaste p waste
      split at hrun
      · -- the pool is not active, as another one serves it
        have hserve := (hr.usedAt p hp).used
        have hna : ¬ (alloc.setWaste p waste).Active p := by
          rw [SmallAlloc.setWaste_active]
          exact hserve.lowest p (Nat.le_refl p) (Nat.lt_of_le_of_ne hserve.le (Ne.symm hne))
        obtain ⟨alloc₁, hact, hs⟩ :=
          smallMempoolActivate_spec hr₁.routed.grouped hp hr₁.routed.usedAt hna
        rw [hrun, Option.some.injEq] at hact
        subst hact
        exact hr₁.trans ⟨hs.layout, hr₁.routed.change hs.layout hs.usedAt⟩
      · rw [Option.some.injEq] at hrun
        exact hrun ▸ hr₁
  · rw [Option.some.injEq] at hrun
    exact hrun ▸ hr.refl

/-- `smalloc`. -/
theorem smalloc_reroutes (hr : alloc.Routed)
    (hrun : smalloc g h alloc size answer retry = some (ptr, h', alloc')) :
    alloc.Reroutes alloc' := by
  by_cases hsize : size ≤ alloc.objsizeMax
  · rw [smalloc, smallMempoolSearch_of_le hsize] at hrun
    simp only [smallocFromPool, Option.bind_eq_bind, Option.bind_eq_some_iff] at hrun
    obtain ⟨-, -, ⟨ptr₁, h₁, alloc₁⟩, htry, hrun⟩ := hrun
    have hr₁ := smallocTry_reroutes hr htry
    split at hrun
    · simp only [Option.some.injEq, Prod.mk.injEq] at hrun
      obtain ⟨-, -, rfl⟩ := hrun
      exact hr₁
    · simp only [Option.bind_eq_some_iff, Option.some.injEq, Prod.mk.injEq] at hrun
      obtain ⟨alloc₂, hcharge, -, -, rfl⟩ := hrun
      exact hr₁.trans (smallocCharge_reroutes hr₁.routed
          (hr₁.layout.cacheSize.symm ▸ hr.classOf_lt size hsize) hcharge)
  · rw [smalloc, smallMempoolSearch_of_lt (Nat.lt_of_not_le hsize)] at hrun
    simp only [Option.some.injEq, Prod.mk.injEq] at hrun
    obtain ⟨-, -, rfl⟩ := hrun
    exact hr.refl

/-- `smfree`. -/
theorem smfree_reroutes (hr : alloc.Routed)
    (hrun : smfree g h alloc ptr size = some (h', alloc')) : alloc.Reroutes alloc' := by
  unfold smfree at hrun
  split at hrun
  · simp only [Option.bind_eq_bind, Option.bind_eq_some_iff, Option.some.injEq,
      Prod.mk.injEq] at hrun
    obtain ⟨-, -, -, rfl⟩ := hrun
    exact hr.refl
  · next pool _ =>
      unfold smfreeFromPool at hrun
      simp only [Option.bind_eq_bind, Option.bind_eq_some_iff, Option.some.injEq,
        Prod.mk.injEq] at hrun
      obtain ⟨slab, -, -, -, ⟨h₁, m⟩, hfree, -, rfl⟩ := hrun
      have hr₁ := hr.setWaste pool
        ((alloc.smallMempoolCache pool).waste - objsizeDiff alloc (h.mslab slab).mempool pool)
      exact hr₁.trans (hr₁.routed.setPool (mempoolFreeSlab_sameConfig hfree))

/-! ## Every run -/

theorem SmallAlloc.Ready.routed (hr : alloc.Ready g h) : alloc.Routed := by
  refine ⟨hr.grouped, hr.usedAt, fun size hsize => (hr.search size hsize).1,
    hr.size, fun p q hpq hq => ?_⟩
  have h1 := hr.strict p (by omega)
  have h2 := hr.grouped.mono (p + 1) q hpq hq
  omega

theorem SmallOp.exec_routed {s s' : SmallState} (hr : s.alloc.Routed) (op : SmallOp)
    (hex : op.exec g s = some s') :
    s'.alloc.Routed := by
  cases op with
  | alloc size answer retry =>
      simp only [SmallOp.exec, Option.bind_eq_bind, Option.bind_eq_some_iff,
        Option.some.injEq] at hex
      obtain ⟨⟨ptr, h', alloc'⟩, hrun, rfl⟩ := hex
      exact (smalloc_reroutes hr hrun).routed
  | free o =>
      simp only [SmallOp.exec, Option.bind_eq_bind, Option.bind_eq_some_iff,
        Option.some.injEq] at hex
      obtain ⟨⟨h', alloc'⟩, hrun, rfl⟩ := hex
      exact (smfree_reroutes hr hrun).routed
  | write mem =>
      simp only [SmallOp.exec, Option.some.injEq] at hex
      exact hex ▸ hr

/-- The groups of an allocator and the pools that serve. -/
structure SmallAlloc.WellFormed (alloc : SmallAlloc) : Prop where
  /-- A group is a run of at most 32 pools, and these are the pools that point to it. -/
  groups : ∀ j < alloc.smallMempoolGroupsSize,
    (alloc.smallMempoolGroups j).first ≤ (alloc.smallMempoolGroups j).last ∧
    (alloc.smallMempoolGroups j).last + 1 - (alloc.smallMempoolGroups j).first ≤ 32 ∧
    ∀ q, (alloc.smallMempoolGroups j).first ≤ q ∧ q ≤ (alloc.smallMempoolGroups j).last ↔
      q < alloc.smallMempoolCacheSize ∧ (alloc.smallMempoolCache q).group = j
  index : ∀ p < alloc.smallMempoolCacheSize, (alloc.smallMempoolCache p).group <
    alloc.smallMempoolGroupsSize
  slabOrder : ∀ p < alloc.smallMempoolCacheSize, ∀ q < alloc.smallMempoolCacheSize,
    (alloc.smallMempoolCache p).group = (alloc.smallMempoolCache q).group →
    (alloc.pool p).slabOrder = (alloc.pool q).slabOrder
  lastActive : ∀ j < alloc.smallMempoolGroupsSize, alloc.Active (alloc.smallMempoolGroups j).last
  /-- A pool is served by the first active pool of its group that is not before it. -/
  used : ∀ p < alloc.smallMempoolCacheSize, ∃ u < alloc.smallMempoolCacheSize,
    (alloc.smallMempoolCache p).usedPool = u ∧
    p ≤ u ∧ (alloc.smallMempoolCache u).group = (alloc.smallMempoolCache p).group ∧ alloc.Active u ∧
    (∀ r, p ≤ r → r < u → ¬ alloc.Active r) ∧ (alloc.pool p).objsize ≤ (alloc.pool u).objsize
  self : ∀ p < alloc.smallMempoolCacheSize, ((alloc.smallMempoolCache p).usedPool = p ↔
      alloc.Active p)

theorem SmallAlloc.Routed.wellFormed (hr : alloc.Routed) : alloc.WellFormed := by
  have hg := hr.grouped
  constructor
  case groups =>
    intro j hj
    obtain ⟨p, hp, rfl⟩ := hg.onto j hj
    have hself := hg.self p hp
    have hlast := hg.last p hp
    have hmax : poolPerGroupMax = 32 := rfl
    rw [SmallAlloc.InGroup, SmallAlloc.group] at hself
    rw [SmallAlloc.group] at hlast
    refine ⟨Nat.le_trans hself.1 hself.2, by omega, fun q => ⟨fun hq => ?_, fun hq => ?_⟩⟩
    · exact ⟨hg.lt hp hq, (hg.same p hp q hq).1⟩
    · exact (hg.inGroup_iff hp hq.1).2 hq.2
  case index => exact hg.index
  case slabOrder =>
    intro p hp q hq he
    exact ((hg.same p hp q ((hg.inGroup_iff hp hq).2 he.symm)).2).symm
  case lastActive =>
    intro j hj
    obtain ⟨p, hp, rfl⟩ := hg.onto j hj
    have hself := hg.self p hp
    have hin : alloc.InGroup p (alloc.group p).last := ⟨Nat.le_trans hself.1 hself.2, Nat.le_refl _⟩
    have hbit := (hr.usedAt p hp).lastActive
    rw [SmallAlloc.Active]
    change (alloc.group (alloc.group p).last).activePoolMask.testBit ((alloc.group p).last -
      (alloc.group (alloc.group p).last).first) = true
    rw [hg.group_eq hp hin]
    exact hbit
  case used =>
    intro p hp
    have hserve := (hr.usedAt p hp).used
    have hin : alloc.InGroup p (alloc.smallMempoolCache p).usedPool :=
      ⟨Nat.le_trans (hg.self p hp).1 hserve.le, hserve.last⟩
    have hlt := hg.lt hp hin
    exact ⟨_, hlt, rfl, hserve.le, (hg.same p hp _ hin).1, hserve.active, hserve.lowest,
      hg.mono _ _ hserve.le hlt⟩
  case self =>
    intro p hp
    have hserve := (hr.usedAt p hp).used
    constructor
    · intro he
      rw [he] at hserve
      exact hserve.active
    · intro ha
      by_contra hne
      exact hserve.lowest p (Nat.le_refl p) (Nat.lt_of_le_of_ne hserve.le (Ne.symm hne)) ha

/-- **Pool groups and routing are well formed** in every run, with objects of any size. -/
theorem small_groups_well_formed (hgeo : mslabSizeof ≤ g.order0Size) {s : SmallState}
    (hs : (smallMachine g 1).Reachable s) :
    s.alloc.smallMempoolCacheSize ≤ smallMempoolMax ∧
    (∀ p q, p < q → q < s.alloc.smallMempoolCacheSize →
      (s.alloc.pool p).objsize < (s.alloc.pool q).objsize) ∧
    s.alloc.WellFormed := by
  have hr : s.alloc.Routed := by
    refine Machine.Reachable.of_step (smallMachine g 1) (P := fun s => s.alloc.Routed)
      (fun s hs => ?_) (fun s op s' hr _ hex => SmallOp.exec_routed hr op hex) hs
    obtain ⟨orderOf, heap, alloc, objsizeMin, granularity, effectiveBits, hmin, hmin32, hgran,
      hex, -⟩ := hs
    exact (smallAllocCreate_ready hgeo hmin hmin32 hgran hex).1.routed
  exact ⟨hr.count, hr.strict, hr.wellFormed⟩

/-- The pools of 512 and of 4096 bytes are active, and the second one has a live object. -/
theorem small_groups_well_formed_four : ∃ s, (smallMachine sixteenPages 1).Reachable s ∧
    (s.alloc.smallMempoolGroups 0).activePoolMask = 9 ∧ s.live = [⟨86016, 512, some 3⟩] ∧
    s.alloc.WellFormed := by
  have hrun : (fourPools.bind ((smallMachine sixteenPages 1).run
      (fun s op => op.check sixteenPages s) fiveObjects)).map
      (fun s => ((s.alloc.smallMempoolGroups 0).activePoolMask, s.live)) =
        some (9, [⟨86016, 512, some 3⟩]) := by
    decide +kernel
  obtain ⟨s, hs, heq⟩ := Option.map_eq_some_iff.1 hrun
  obtain ⟨s₀, hs₀, hrun'⟩ := Option.bind_eq_some_iff.1 hs
  rw [Prod.mk.injEq] at heq
  obtain ⟨orderOf, heap, alloc, objsizeMin, granularity, effectiveBits, hmin, hcreated⟩ :=
    fourPools_created hs₀
  have hreach : (smallMachine sixteenPages 1).Reachable s :=
    Machine.Reachable.run _ (fun s op hop => SmallOp.check_allowed s op hop) fiveObjects
      (.init ⟨orderOf, heap, alloc, objsizeMin, granularity, effectiveBits,
        Nat.le_trans (by decide) hmin, hcreated⟩) hrun'
  exact ⟨s, hreach, heq.1, heq.2, (small_groups_well_formed (by decide) hreach).2.2⟩

end SmallAllocators
