/-
SmallAllocators.Small.Create — `small_alloc_create` makes groups.

The pools are created in the order of their sizes, and each time the size
of slabs changes, the pools before are put into groups of at most 32. The
only assertion that can fail here is one of `mempool_create`.
-/
import SmallAllocators.Mempool.Runs
import SmallAllocators.Small.Groups

namespace SmallAllocators

variable {g : Geometry} {alloc alloc' : SmallAlloc} {n p q first last : Nat}

/-! ## `small_mempool_create_group` -/

/-- The mask that `small_mempool_set_mask` computes. -/
def appropriateMask (idx : Nat) : Nat :=
  (List.range' idx (poolPerGroupMax - idx)).foldl (fun mask i => mask ||| 1 <<< i) 0

theorem testBit_foldl_or (l : List Nat) (mask i : Nat) :
    (l.foldl (fun mask i => mask ||| 1 <<< i) mask).testBit i =
      (mask.testBit i || decide (i ∈ l)) := by
  induction l generalizing mask with
  | nil => simp
  | cons j l ih =>
      rw [List.foldl_cons, ih, testBit_or_bit, Bool.or_assoc]
      simp

theorem appropriateMask_testBit (idx i : Nat) :
    (appropriateMask idx).testBit i = decide (idx ≤ i ∧ i < poolPerGroupMax) := by
  rw [appropriateMask, testBit_foldl_or, Nat.zero_testBit, Bool.false_or, decide_eq_decide,
    List.mem_range'_1]
  omega

/-- The pools of `l` after they joined the group. -/
def SmallAlloc.joined (alloc : SmallAlloc) (group : Nat) (l : List Nat) : SmallAlloc :=
  { alloc with
    smallMempoolCache := fun i =>
      if i ∈ l then
        { alloc.smallMempoolCache i with
          group := group
          appropriatePoolMask := appropriateMask (i - (alloc.smallMempoolGroups group).first) }
      else alloc.smallMempoolCache i }

theorem joinGroup_foldlM (group : Nat) (l : List Nat) (alloc : SmallAlloc) (hl : l.Nodup)
    (hmask : ∀ i ∈ l, (alloc.smallMempoolCache i).appropriatePoolMask = 0) :
    l.foldlM (joinGroup group) alloc = some (alloc.joined group l) := by
  induction l generalizing alloc with
  | nil => simp [SmallAlloc.joined]
  | cons i l ih =>
      obtain ⟨hi, hl'⟩ := List.nodup_cons.1 hl
      have hstep : joinGroup group alloc i = some (alloc.joined group [i]) := by
        have hi0 := hmask i List.mem_cons_self
        simp only [joinGroup, smallMempoolSetMask, SmallAlloc.setSmallMempool, if_true, hi0,
          guard, SmallAlloc.joined,
          List.mem_singleton, smallMempoolGetGroupIndex, SmallAlloc.group, Option.pure_def,
          Option.bind_eq_bind,
          Option.bind_some, Option.some.injEq, SmallAlloc.mk.injEq, and_self, and_true]
        funext x
        by_cases hx : x = i <;> simp [hx, appropriateMask]
      rw [List.foldlM_cons, hstep, Option.bind_eq_bind, Option.bind_some, ih _ hl']
      · simp only [SmallAlloc.joined, Option.some.injEq, SmallAlloc.mk.injEq, and_self, and_true]
        funext x
        by_cases hx : x = i
        · subst hx
          simp [hi]
        · by_cases hxl : x ∈ l <;> simp [hx, hxl]
      · intro j hj
        have hne : j ≠ i := fun he => hi (he ▸ hj)
        simp only [SmallAlloc.joined, List.mem_singleton, if_neg hne]
        exact hmask j (List.mem_cons_of_mem _ hj)

/-- A pool is served as before when its group is what it was. -/
theorem SmallAlloc.UsedAt.congr (hu : alloc.UsedAt p) (hself : (alloc.group p).first ≤ p)
    (hgroup : ∀ q, alloc.InGroup p q → alloc'.group q = alloc.group q)
    (hused : (alloc'.smallMempoolCache p).usedPool = (alloc.smallMempoolCache p).usedPool) :
    alloc'.UsedAt p := by
  have hle := hu.used.le
  have hgp := hgroup p ⟨hself, Nat.le_trans hle hu.used.last⟩
  have hactive : ∀ r, p ≤ r → r ≤ (alloc.group p).last → (alloc'.Active r ↔ alloc.Active r) := by
    intro r hpr hr
    rw [Active, Active, hgroup r ⟨Nat.le_trans hself hpr, hr⟩]
  constructor
  case mask => rw [hgp]; exact hu.mask
  case lastActive => rw [hgp]; exact hu.lastActive
  case used =>
    rw [hused]
    refine ⟨hle, by rw [hgp]; exact hu.used.last,
      (hactive _ hle hu.used.last).2 hu.used.active, fun r hpr hr => ?_⟩
    rw [hactive r hpr (Nat.le_trans hr.le hu.used.last)]
    exact hu.used.lowest r hpr hr

/-- What the creation of groups leaves as it is. -/
structure SmallAlloc.PoolsKept (alloc : SmallAlloc) (last : Nat) (alloc' : SmallAlloc) : Prop where
  cacheSize : alloc'.smallMempoolCacheSize = alloc.smallMempoolCacheSize
  smallClass : alloc'.smallClass = alloc.smallClass
  objsizeMax : alloc'.objsizeMax = alloc.objsizeMax
  pool : ∀ q, alloc'.pool q = alloc.pool q
  waste : ∀ q, (alloc'.smallMempoolCache q).waste = (alloc.smallMempoolCache q).waste
  objsizeMin : ∀ q, (alloc'.smallMempoolCache q).objsizeMin = (alloc.smallMempoolCache q).objsizeMin
  appropriate : ∀ q, last < q →
    (alloc'.smallMempoolCache q).appropriatePoolMask =
    (alloc.smallMempoolCache q).appropriatePoolMask

theorem SmallAlloc.PoolsKept.trans {alloc₁ alloc₂ alloc₃ : SmallAlloc} {last last' : Nat}
    (h : alloc₁.PoolsKept last alloc₂) (h' : alloc₂.PoolsKept last' alloc₃) (hle : last ≤ last') :
    alloc₁.PoolsKept last' alloc₃ :=
  ⟨h'.cacheSize.trans h.cacheSize, h'.smallClass.trans h.smallClass,
    h'.objsizeMax.trans h.objsizeMax,
    fun q => (h'.pool q).trans (h.pool q), fun q => (h'.waste q).trans (h.waste q),
    fun q => (h'.objsizeMin q).trans (h.objsizeMin q),
    fun q hq => (h'.appropriate q hq).trans (h.appropriate q (by omega))⟩

/-- The pools from `first` to `last` wait for a group. -/
structure SmallAlloc.Waiting (g : Geometry) (alloc : SmallAlloc) (first last : Nat) : Prop where
  mask : ∀ q, first ≤ q → q ≤ last → (alloc.smallMempoolCache q).appropriatePoolMask = 0
  order : ∀ q, first ≤ q → q ≤ last → (alloc.pool q).slabOrder = (alloc.pool last).slabOrder
  size : ∀ q, first ≤ q → q ≤ last → 4 ≤ g.slabOrderSize (alloc.pool q).slabOrder ∧
    g.slabOrderSize (alloc.pool q).slabOrder < 2 ^ 32
  mono : ∀ p q, p ≤ q → q ≤ last → (alloc.pool p).objsize ≤ (alloc.pool q).objsize

/-- The allocator of `small_mempool_create_group` before it activates the last pool. -/
def SmallAlloc.newGroup (g : Geometry) (alloc : SmallAlloc) (first last : Nat) : SmallAlloc :=
  { (alloc.setGroup alloc.smallMempoolGroupsSize
      { first := first
        last := last
        activePoolMask := 0
        wasteMax := g.slabOrderSize (alloc.pool last).slabOrder / 4 }).joined
          alloc.smallMempoolGroupsSize
      (poolsFromTo first last) with
    smallMempoolGroupsSize := alloc.smallMempoolGroupsSize + 1 }

theorem SmallAlloc.newGroup_cache (q : Nat) : ((alloc.newGroup g first last).smallMempoolCache q)
    = if first ≤ q ∧ q ≤ last then
        { alloc.smallMempoolCache q with
          group := alloc.smallMempoolGroupsSize
          appropriatePoolMask := appropriateMask (q - first) }
      else alloc.smallMempoolCache q := by
  simp [newGroup, joined, setGroup, mem_poolsFromTo]

theorem SmallAlloc.newGroup_pool (q : Nat) :
    (alloc.newGroup g first last).pool q = alloc.pool q := by
  rw [SmallAlloc.pool, newGroup_cache]
  split <;> rfl

theorem SmallAlloc.newGroup_group_old (hg : alloc.Grouped first) (hq : q < first) :
    (alloc.newGroup g first last).group q = alloc.group q := by
  have hcache : (alloc.newGroup g first last).smallMempoolCache q = alloc.smallMempoolCache q := by
    rw [newGroup_cache, if_neg (by omega)]
  have hne := (hg.index q hq).ne
  rw [SmallAlloc.group, hcache, SmallAlloc.group]
  simp [newGroup, joined, setGroup, hne]

theorem SmallAlloc.newGroup_group_new (h1 : first ≤ q) (h2 : q ≤ last) :
    (alloc.newGroup g first last).group q =
      { first := first
        last := last
        activePoolMask := 0
        wasteMax := g.slabOrderSize (alloc.pool last).slabOrder / 4 } := by
  rw [SmallAlloc.group, newGroup_cache, if_pos ⟨h1, h2⟩]
  simp [newGroup, joined, setGroup]

theorem SmallAlloc.newGroup_grouped (hg : alloc.Grouped first) (hle : first ≤ last)
    (hlt : last < first + poolPerGroupMax) (hw : alloc.Waiting g first last) :
    (alloc.newGroup g first last).Grouped (last + 1) := by
  have hcase : ∀ p < last + 1, p < first ∨ first ≤ p ∧ p ≤ last := fun p hp => by omega
  constructor
  case index =>
    intro p hp
    change _ < alloc.smallMempoolGroupsSize + 1
    rw [newGroup_cache]
    split
    · exact Nat.lt_succ_self _
    · exact Nat.lt_succ_of_lt (hg.index p (by omega))
  case onto =>
    intro j hj
    by_cases hlt' : j < alloc.smallMempoolGroupsSize
    · obtain ⟨p, hp, heq⟩ := hg.onto j hlt'
      refine ⟨p, by omega, ?_⟩
      rw [newGroup_cache, if_neg (by omega)]
      exact heq
    · refine ⟨first, by omega, ?_⟩
      rw [newGroup_cache, if_pos ⟨Nat.le_refl _, hle⟩]
      exact Nat.le_antisymm (Nat.le_of_not_lt hlt') (Nat.le_of_lt_succ hj)
  case self =>
    intro p hp
    rcases hcase p hp with h | ⟨h1, h2⟩
    · rw [InGroup, newGroup_group_old hg h]
      exact hg.self p h
    · rw [InGroup, newGroup_group_new h1 h2]
      exact ⟨h1, h2⟩
  case last =>
    intro p hp
    rcases hcase p hp with h | ⟨h1, h2⟩
    · rw [newGroup_group_old hg h]
      have := hg.last p h
      omega
    · rw [newGroup_group_new h1 h2]
      exact ⟨Nat.lt_succ_self _, hlt⟩
  case same =>
    intro p hp q hq
    rw [newGroup_pool, newGroup_pool]
    rcases hcase p hp with h | ⟨h1, h2⟩
    · rw [InGroup, newGroup_group_old hg h] at hq
      have hqlt := hg.lt h hq
      rw [newGroup_cache, newGroup_cache, if_neg (by omega), if_neg (by omega)]
      exact hg.same p h q hq
    · rw [InGroup, newGroup_group_new h1 h2] at hq
      rw [newGroup_cache, newGroup_cache, if_pos hq, if_pos ⟨h1, h2⟩]
      exact ⟨rfl, (hw.order q hq.1 hq.2).trans (hw.order p h1 h2).symm⟩
  case appropriate =>
    intro p hp i
    rcases hcase p hp with h | ⟨h1, h2⟩
    · rw [newGroup_group_old hg h, newGroup_cache, if_neg (by omega)]
      exact hg.appropriate p h i
    · rw [newGroup_group_new h1 h2, newGroup_cache, if_pos ⟨h1, h2⟩]
      exact appropriateMask_testBit _ i
  case wasteMax =>
    intro p hp
    rcases hcase p hp with h | ⟨h1, h2⟩
    · rw [newGroup_group_old hg h]
      exact hg.wasteMax p h
    · rw [newGroup_group_new h1 h2]
      have := hw.size last hle (Nat.le_refl _)
      simp only
      omega
  case mono =>
    intro p q hpq hq
    rw [newGroup_pool, newGroup_pool]
    exact hw.mono p q hpq (by omega)

/-- `small_mempool_create_group`. -/
theorem smallMempoolCreateGroup_spec (hg : alloc.Grouped first) (hu : ∀ q < first, alloc.UsedAt q)
    (hle : first ≤ last) (hlt : last < first + poolPerGroupMax)
    (hw : alloc.Waiting g first last) :
    ∃ alloc', smallMempoolCreateGroup g alloc first last = some alloc' ∧ alloc'.Grouped (last + 1) ∧
      (∀ q < last + 1, alloc'.UsedAt q) ∧ alloc.PoolsKept last alloc' := by
  have hgrouped := alloc.newGroup_grouped (g := g) hg hle hlt hw
  have hlast := alloc.newGroup_group_new (g := g) hle (Nat.le_refl last)
  have hmaskeq : ((alloc.newGroup g first last).group last).activePoolMask = 0 := by rw [hlast]
  have hidx : smallMempoolGetGroupIndex (alloc.newGroup g first last) last = last - first := by
    rw [smallMempoolGetGroupIndex, hlast]
  obtain ⟨alloc', hupd, hr⟩ :=
    retarget_spec (0 ||| 1 <<< (last - first)) hgrouped (Nat.lt_succ_self last) (by
      intro i hi
      rw [testBit_or_bit, Nat.zero_testBit, Bool.false_or, decide_eq_true_eq] at hi
      rw [hlast]
      simp only
      omega)
    (by
      rw [hlast, testBit_or_bit]
      simp)
    (by
      intro q hq hout
      have hqf : q < first := by
        rw [SmallAlloc.InGroup, hlast] at hout
        simp only at hout
        omega
      refine (hu q hqf).congr (hg.self q hqf).1
        (fun r hr => alloc.newGroup_group_old hg (hg.lt hqf hr)) ?_
      rw [SmallAlloc.newGroup_cache, if_neg (by omega)])
  refine ⟨alloc', ?_, hr.layout.grouped hgrouped, hr.usedAt, ?_⟩
  · have hfold := joinGroup_foldlM alloc.smallMempoolGroupsSize (poolsFromTo first last)
      (alloc.setGroup alloc.smallMempoolGroupsSize
        { first := first
          last := last
          activePoolMask := 0
          wasteMax := g.slabOrderSize (alloc.pool last).slabOrder / 4 })
      (by rw [poolsFromTo]; exact List.nodup_range') (by
        intro i hi
        rw [mem_poolsFromTo] at hi
        exact hw.mask i hi.1 hi.2)
    simp only [smallMempoolCreateGroup, hfold, Option.bind_eq_bind, Option.bind_some]
    change smallMempoolActivate (alloc.newGroup g first last) last = some alloc'
    simp only [smallMempoolActivate, hmaskeq, hidx, Nat.zero_and, guard, if_true]
    exact hupd
  · constructor
    case cacheSize => exact hr.layout.cacheSize
    case smallClass => exact hr.layout.smallClass
    case objsizeMax => exact hr.layout.objsizeMax
    case pool => intro q; rw [hr.pool, SmallAlloc.newGroup_pool]
    case waste =>
      intro q
      rw [hr.waste, SmallAlloc.newGroup_cache]
      split <;> rfl
    case objsizeMin =>
      intro q
      rw [hr.layout.objsizeMin, SmallAlloc.newGroup_cache]
      split <;> rfl
    case appropriate =>
      intro q hq
      rw [hr.layout.appropriate, SmallAlloc.newGroup_cache, if_neg (by omega)]

/-! ## `small_mempool_create_groups` -/

theorem groupLastLoop_spec (last n cur : Nat) (hle : cur ≤ last) :
    cur ≤ groupLastLoop last n cur ∧ groupLastLoop last n cur ≤ last ∧
      groupLastLoop last n cur ≤ cur + n := by
  induction n generalizing cur with
  | zero => exact ⟨Nat.le_refl _, hle, Nat.le_refl _⟩
  | succ n ih =>
      rw [groupLastLoop]
      by_cases hlt : cur < last
      · rw [if_pos hlt]
        have := ih (cur + 1) hlt
        omega
      · rw [if_neg hlt]
        omega

theorem createGroupsLoop_spec (hle : first ≤ last + 1) (fuel : Nat)
    (hfuel : last + 1 - first ≤ fuel) (hg : alloc.Grouped first)
    (hu : ∀ q < first, alloc.UsedAt q) (hw : alloc.Waiting g first last) :
    ∃ alloc', createGroupsLoop g last fuel alloc first = some alloc' ∧ alloc'.Grouped (last + 1) ∧
      (∀ q < last + 1, alloc'.UsedAt q) ∧ alloc.PoolsKept last alloc' := by
  induction fuel generalizing alloc first with
  | zero =>
      obtain rfl : first = last + 1 := by omega
      exact ⟨alloc, rfl, hg, hu, rfl, rfl, rfl, fun _ => rfl, fun _ => rfl, fun _ =>
        rfl, fun _ _ => rfl⟩
  | succ fuel ih =>
      rw [createGroupsLoop]
      by_cases hlt : first ≤ last
      · rw [if_pos hlt]
        have hlp := groupLastLoop_spec last (poolPerGroupMax - 1) first hlt
        rw [← smallMempoolGroupLastPool] at hlp
        generalize smallMempoolGroupLastPool first last = l at hlp
        have hmax : poolPerGroupMax = 32 := rfl
        have hw₁ : alloc.Waiting g first l :=
          ⟨fun q h1 h2 => hw.mask q h1 (by omega),
            fun q h1 h2 => (hw.order q h1 (by omega)).trans (hw.order l (by omega) (by omega)).symm,
            fun q h1 h2 => hw.size q h1 (by omega), fun p q hpq hq => hw.mono p q hpq (by omega)⟩
        obtain ⟨alloc₁, hex₁, hg₁, hu₁, hk₁⟩ :=
          smallMempoolCreateGroup_spec hg hu (by omega) (by omega) hw₁
        have hw₂ : alloc₁.Waiting g (l + 1) last := by
          refine ⟨fun q h1 h2 => ?_, fun q h1 h2 => ?_, fun q h1 h2 => ?_, fun p q hpq hq => ?_⟩
          · rw [hk₁.appropriate q (by omega)]
            exact hw.mask q (by omega) h2
          · rw [hk₁.pool, hk₁.pool]
            exact hw.order q (by omega) h2
          · rw [hk₁.pool]
            exact hw.size q (by omega) h2
          · rw [hk₁.pool, hk₁.pool]
            exact hw.mono p q hpq hq
        obtain ⟨alloc₂, hex₂, hg₂, hu₂, hk₂⟩ := ih (by omega) (by omega) hg₁ hu₁ hw₂
        refine ⟨alloc₂, ?_, hg₂, hu₂, hk₁.trans hk₂ (by omega)⟩
        simp only [hex₁, Option.bind_eq_bind, Option.bind_some]
        exact hex₂
      · rw [if_neg hlt]
        obtain rfl : first = last + 1 := by omega
        exact ⟨alloc, rfl, hg, hu, rfl, rfl, rfl, fun _ => rfl, fun _ => rfl, fun _ =>
          rfl, fun _ _ => rfl⟩

/-! ## `small_mempool_create` -/

/-- The objects of the pool `p`. -/
def poolObjsize (sc : SmallClass) (limit p : Nat) : Nat := min (sc.rawSize p) limit

theorem poolObjsize_mono (sc : SmallClass) (limit : Nat) (h : p ≤ q) :
    poolObjsize sc limit p ≤ poolObjsize sc limit q :=
  min_le_min_right _ (sc.rawSize_mono h)

/-- The pool `i` as `mempool_create` returned it. -/
structure Mempool.New (g : Geometry) (h : MslabHeap) (i : Nat) (p : Mempool) : Prop where
  shape : p.Shape g
  id : p.id = i
  slabs : p.slabs = []
  inv : ptrSize ≤ p.objsize → p.Inv g h [] []

/-- The state of the loop: the pools before `cur_order_pool` are in groups, and the others have
slabs of one size. -/
structure CreateState.Inv (g : Geometry) (sc : SmallClass) (limit : Nat) (st : CreateState) :
    Prop where
  smallClass : st.alloc.smallClass = sc
  objsizeMax : st.alloc.objsizeMax = limit
  sizes : ∀ p < st.alloc.smallMempoolCacheSize, (st.alloc.pool p).objsize = poolObjsize sc limit p
  unclipped : ∀ p, p + 1 < st.alloc.smallMempoolCacheSize → sc.rawSize p < limit
  objsize : st.objsize = if st.alloc.smallMempoolCacheSize = 0 then 0
    else (st.alloc.pool (st.alloc.smallMempoolCacheSize - 1)).objsize
  objsizeMin : ∀ p < st.alloc.smallMempoolCacheSize,
    (st.alloc.smallMempoolCache p).objsizeMin =
    (if p = 0 then 0 else (st.alloc.pool (p - 1)).objsize) + 1
  pools : ∀ p < st.alloc.smallMempoolCacheSize, (st.alloc.pool p).New g st.heap p
  waste : ∀ p < st.alloc.smallMempoolCacheSize, (st.alloc.smallMempoolCache p).waste = 0
  cur : st.curOrderPool ≤ st.alloc.smallMempoolCacheSize
  curLt : 0 < st.alloc.smallMempoolCacheSize → st.curOrderPool < st.alloc.smallMempoolCacheSize
  grouped : st.alloc.Grouped st.curOrderPool
  usedAt : ∀ p < st.curOrderPool, st.alloc.UsedAt p
  first : st.firstIteration = decide (st.alloc.smallMempoolCacheSize = 0)
  order : ∀ p, st.curOrderPool ≤ p → p < st.alloc.smallMempoolCacheSize →
    (st.alloc.pool p).slabOrder = st.slabOrderCur ∧
    (st.alloc.smallMempoolCache p).appropriatePoolMask = 0

theorem Mempool.Shape.objsize_lt {p : Mempool} (hp : p.Shape g) : p.objsize < 2 ^ 31 := by
  have hsize := hp.size
  have hhead := hp.header
  have hcount := hp.objcount
  have hlt := slabOrderSize_lt hp.order
  have hpow : g.slabOrderSize p.slabOrder = 2 ^ (p.slabOrder + g.order0SizeLb) := by
    rw [Geometry.slabOrderSize, Nat.one_shiftLeft]
  have hexp : p.slabOrder + g.order0SizeLb < 32 := by
    rw [hpow] at hlt
    exact (Nat.pow_lt_pow_iff_right (by decide)).1 hlt
  have hle : g.slabOrderSize p.slabOrder ≤ 2 ^ 31 :=
    hpow ▸ Nat.pow_le_pow_right (by decide) (by omega)
  have hmul : 1 * p.objsize ≤ p.objcount * p.objsize := Nat.mul_le_mul_right _ hcount
  simp only [mslabSizeof] at hhead
  omega

variable {sc : SmallClass} {minAlloc limit : Nat} {st : CreateState}

/-- The size of the next pool does not wrap: sizes at most double, and a pool fits into a slab. -/
theorem CreateState.Inv.nextObjsize_eq (hc : sc.Created minAlloc) (hi : st.Inv g sc limit)
    (hlt : st.objsize < limit) :
    nextObjsize st.alloc = poolObjsize sc limit st.alloc.smallMempoolCacheSize := by
  have hraw : sc.rawSize st.alloc.smallMempoolCacheSize < 2 ^ 32 := by
    generalize hn : st.alloc.smallMempoolCacheSize = n
    cases n with
    | zero => rw [hc.rawSize_zero]; exact hc.lt
    | succ n =>
        have hobj := hi.objsize
        rw [hn, if_neg (Nat.succ_ne_zero n), Nat.add_sub_cancel] at hobj
        have hlast := (hi.pools n (by omega)).shape.objsize_lt
        rw [hobj, hi.sizes n (by omega), poolObjsize] at hlt
        rw [hi.sizes n (by omega), poolObjsize] at hlast
        have hdouble := sc.rawSize_succ_le n
        omega
  simp only [nextObjsize, hi.smallClass, hi.objsizeMax, smallClassCalcSizeByOffset_eq hraw,
    poolObjsize]
  split <;> omega

/-- The pools that wait for a group. -/
theorem CreateState.Inv.waiting (hi : st.Inv g sc limit) (hgeo : mslabSizeof ≤ g.order0Size)
    (alloc : SmallAlloc) (last : Nat) (hlast : last < st.alloc.smallMempoolCacheSize)
    (hpool : ∀ q ≤ last, alloc.pool q = st.alloc.pool q)
    (hmask : ∀ q ≤ last, (alloc.smallMempoolCache q).appropriatePoolMask =
      (st.alloc.smallMempoolCache q).appropriatePoolMask)
    (hcur : st.curOrderPool ≤ last) :
    alloc.Waiting g st.curOrderPool last := by
  constructor
  case mask =>
    intro q h1 h2
    rw [hmask q h2]
    exact (hi.order q h1 (by omega)).2
  case order =>
    intro q h1 h2
    rw [hpool q h2, hpool last (Nat.le_refl _), (hi.order q h1 (by omega)).1,
      (hi.order last hcur hlast).1]
  case size =>
    intro q h1 h2
    rw [hpool q h2]
    have hlt := slabOrderSize_lt (hi.pools q (by omega)).shape.order
    have hge := order0Size_le g (st.alloc.pool q).slabOrder
    simp only [mslabSizeof] at hgeo
    exact ⟨by omega, hlt⟩
  case mono =>
    intro p q hpq hq
    rw [hpool p (by omega), hpool q hq, hi.sizes p (by omega), hi.sizes q (by omega)]
    exact poolObjsize_mono sc limit hpq

theorem SmallAlloc.UsedAt.of_cache (hu : alloc.UsedAt p) (hg : alloc.Grouped n) (hp : p < n)
    (hcache : ∀ q < n, alloc'.smallMempoolCache q = alloc.smallMempoolCache q)
    (hgroups : alloc'.smallMempoolGroups = alloc.smallMempoolGroups) : alloc'.UsedAt p := by
  refine hu.congr (hg.self p hp).1 (fun q hq => ?_) (by rw [hcache p hp])
  rw [group, group, hcache q (hg.lt hp hq), hgroups]

theorem SmallAlloc.Grouped.of_cache (hg : alloc.Grouped n)
    (hcache : ∀ q < n, alloc'.smallMempoolCache q = alloc.smallMempoolCache q)
    (hgroups : alloc'.smallMempoolGroups = alloc.smallMempoolGroups)
    (hsize : alloc'.smallMempoolGroupsSize = alloc.smallMempoolGroupsSize) : alloc'.Grouped n := by
  have hgroup : ∀ q < n, alloc'.group q = alloc.group q := by
    intro q hq
    rw [group, group, hcache q hq, hgroups]
  have hpool : ∀ q < n, alloc'.pool q = alloc.pool q := fun q hq => by rw [pool, pool, hcache q hq]
  constructor
  case index => intro p hp; rw [hcache p hp, hsize]; exact hg.index p hp
  case onto =>
    intro j hj
    rw [hsize] at hj
    obtain ⟨p, hp, heq⟩ := hg.onto j hj
    exact ⟨p, hp, by rw [hcache p hp]; exact heq⟩
  case self => intro p hp; rw [InGroup, hgroup p hp]; exact hg.self p hp
  case last => intro p hp; rw [hgroup p hp]; exact hg.last p hp
  case same =>
    intro p hp q hq
    rw [InGroup, hgroup p hp] at hq
    have hqn := hg.lt hp hq
    rw [hcache p hp, hcache q hqn, hpool p hp, hpool q hqn]
    exact hg.same p hp q hq
  case appropriate => intro p hp i; rw [hcache p hp, hgroup p hp]; exact hg.appropriate p hp i
  case wasteMax => intro p hp; rw [hgroup p hp]; exact hg.wasteMax p hp
  case mono => intro p q hpq hq; rw [hpool p (by omega), hpool q hq]; exact hg.mono p q hpq hq

/-- The pool that a round of the loop adds. -/
theorem CreateState.Inv.addPool {orderOf : Nat → Nat} {heap : MslabHeap} {pool : Mempool}
    (hgeo : mslabSizeof ≤ g.order0Size) (hi : st.Inv g sc limit)
    (hex : mempoolCreate g orderOf st.heap st.alloc.smallMempoolCacheSize
      (poolObjsize sc limit st.alloc.smallMempoolCacheSize) = some (heap, pool)) :
    pool.objsize = poolObjsize sc limit st.alloc.smallMempoolCacheSize ∧
      pool.New g heap st.alloc.smallMempoolCacheSize ∧
      ∀ p < st.alloc.smallMempoolCacheSize, (st.alloc.pool p).New g heap p := by
  obtain ⟨hshape, hheap, hpool⟩ := mempoolCreateWithOrder_shape hgeo hex
  have hobj : pool.objsize = poolObjsize sc limit st.alloc.smallMempoolCacheSize := by rw [hpool]
  refine ⟨hobj, ⟨hshape, by rw [hpool], by rw [hpool], fun hsize => ?_⟩, fun p hp => ?_⟩
  · exact mempoolCreateWithOrder_spec hgeo (hobj ▸ hsize) hex
  · have hnew := hi.pools p hp
    have hframe : st.heap.Frame st.alloc.smallMempoolCacheSize [] heap := by
      rw [hheap]
      exact ⟨fun _ _ => rfl, fun b _ => rlistCreate_same (by simp), fun j hj =>
        rlistCreate_same (by simpa using hj)⟩
    refine { hnew with inv := fun hsize => ?_ }
    exact (hnew.inv hsize).frame hframe (by rw [hnew.id]; omega) (by simp) (by simp [hnew.slabs])

theorem SmallAlloc.setSmallMempool_ne {i : Nat} {m : SmallMempool} (h : q ≠ i) :
    (alloc.setSmallMempool i m).smallMempoolCache q = alloc.smallMempoolCache q := if_neg h

/-- `alloc'` has the pool `p` at `n`, and the other pools of `alloc`. -/
structure SmallAlloc.WithPool (alloc : SmallAlloc) (n : Nat) (p : Mempool) (least : Nat)
    (alloc' : SmallAlloc) : Prop where
  smallClass : alloc'.smallClass = alloc.smallClass
  objsizeMax : alloc'.objsizeMax = alloc.objsizeMax
  pool : ∀ q, alloc'.pool q = if q = n then p else alloc.pool q
  objsizeMin : ∀ q, (alloc'.smallMempoolCache q).objsizeMin =
    if q = n then least else (alloc.smallMempoolCache q).objsizeMin
  waste : ∀ q, (alloc'.smallMempoolCache q).waste =
    if q = n then 0 else (alloc.smallMempoolCache q).waste
  appropriate : (alloc'.smallMempoolCache n).appropriatePoolMask = 0

theorem SmallAlloc.withPool_setSmallMempool (alloc : SmallAlloc) (n : Nat) (p : Mempool)
    (least : Nat) :
    alloc.WithPool n p least (alloc.setSmallMempool n (newSmallMempool p least)) := by
  have hcache : ∀ q, (alloc.setSmallMempool n (newSmallMempool p least)).smallMempoolCache q =
      if q = n then newSmallMempool p least else alloc.smallMempoolCache q := fun _ => rfl
  constructor
  case smallClass => rfl
  case objsizeMax => rfl
  case pool =>
    intro q
    rw [SmallAlloc.pool, hcache]
    split <;> rfl
  case objsizeMin =>
    intro q
    rw [hcache]
    split <;> rfl
  case waste =>
    intro q
    rw [hcache]
    split <;> rfl
  case appropriate =>
    rw [hcache, if_pos rfl]
    rfl

/-- The creation of groups keeps the new pool. -/
theorem SmallAlloc.WithPool.kept {alloc₁ alloc₂ : SmallAlloc} {pool : Mempool} {least : Nat}
    (h : alloc.WithPool n pool least alloc₁) (hk : alloc₁.PoolsKept last alloc₂)
    (hlast : last < n) :
    alloc.WithPool n pool least alloc₂ where
  smallClass := hk.smallClass.trans h.smallClass
  objsizeMax := hk.objsizeMax.trans h.objsizeMax
  pool q := (hk.pool q).trans (h.pool q)
  objsizeMin q := (hk.objsizeMin q).trans (h.objsizeMin q)
  waste q := (hk.waste q).trans (h.waste q)
  appropriate := (hk.appropriate n hlast).trans h.appropriate

/-- The state after a round, when the pools up to `cur_order_pool` are in groups. -/
theorem CreateState.Inv.grow {st' : CreateState} {pool : Mempool} (hi : st.Inv g sc limit)
    (hn : st.alloc.smallMempoolCacheSize = n) (hlt : st.objsize < limit)
    (hw : st.alloc.WithPool n pool (st.objsize + 1) st'.alloc) (hobj : st'.objsize = pool.objsize)
    (hpoolsize : pool.objsize = poolObjsize sc limit n) (hpool : pool.New g st'.heap n)
    (hold : ∀ q < n, (st.alloc.pool q).New g st'.heap q)
    (hfirst : st'.firstIteration = false) (hcur : st'.curOrderPool ≤ n)
    (hgrouped : st'.alloc.Grouped st'.curOrderPool)
    (husedAt : ∀ q < st'.curOrderPool, st'.alloc.UsedAt q)
    (horder : ∀ q, st'.curOrderPool ≤ q → q < n + 1 →
      (st'.alloc.pool q).slabOrder = st'.slabOrderCur ∧
      (st'.alloc.smallMempoolCache q).appropriatePoolMask = 0) :
    CreateState.Inv g sc limit
      { st' with alloc := { st'.alloc with smallMempoolCacheSize := n + 1 } } := by
  have hcase : ∀ q < n + 1, q < n ∨ q = n := fun q hq => by omega
  have holdPool : ∀ q < n, st'.alloc.pool q = st.alloc.pool q := fun q hq => by
    rw [hw.pool, if_neg (Nat.ne_of_lt hq)]
  have hnewPool : st'.alloc.pool n = pool := by rw [hw.pool, if_pos rfl]
  constructor
  case smallClass => exact hw.smallClass.trans hi.smallClass
  case objsizeMax => exact hw.objsizeMax.trans hi.objsizeMax
  case sizes =>
    intro q hq
    show (st'.alloc.pool q).objsize = _
    rcases hcase q hq with h | rfl
    · rw [holdPool q h, hi.sizes q (hn ▸ h)]
    · rw [hnewPool, hpoolsize]
  case unclipped =>
    intro q hq
    have hq : q + 1 < n + 1 := hq
    by_cases hq' : q + 1 < n
    · exact hi.unclipped q (hn ▸ hq')
    · have hobj' := hi.objsize
      have hlast : n - 1 = q := by omega
      rw [hn, if_neg (by omega), hlast, hi.sizes q (by omega), poolObjsize] at hobj'
      omega
  case objsize =>
    show st'.objsize = if n + 1 = 0 then 0 else (st'.alloc.pool (n + 1 - 1)).objsize
    rw [if_neg (Nat.succ_ne_zero n), Nat.add_sub_cancel, hnewPool, hobj]
  case pools =>
    intro q hq
    show (st'.alloc.pool q).New g st'.heap q
    rcases hcase q hq with h | rfl
    · rw [holdPool q h]
      exact hold q h
    · rw [hnewPool]
      exact hpool
  case objsizeMin =>
    intro q hq
    show (st'.alloc.smallMempoolCache q).objsizeMin =
      (if q = 0 then 0 else (st'.alloc.pool (q - 1)).objsize) + 1
    rcases hcase q hq with h | rfl
    · rw [hw.objsizeMin, if_neg (Nat.ne_of_lt h), hi.objsizeMin q (hn ▸ h),
        holdPool (q - 1) (by omega)]
    · rw [hw.objsizeMin, if_pos rfl, hi.objsize, hn]
      by_cases hz : q = 0
      · rw [if_pos hz, if_pos hz]
      · rw [if_neg hz, if_neg hz, holdPool _ (by omega)]
  case waste =>
    intro q hq
    show (st'.alloc.smallMempoolCache q).waste = 0
    rw [hw.waste]
    split
    · rfl
    · next hne =>
      have hq : q < n + 1 := hq
      exact hi.waste q (by omega)
  case cur => exact Nat.le_succ_of_le hcur
  case curLt => exact fun _ => Nat.lt_succ_of_le hcur
  case grouped => exact hgrouped.of_cache (fun _ _ => rfl) rfl rfl
  case usedAt => exact fun q hq => (husedAt q hq).of_cache hgrouped hq (fun _ _ => rfl) rfl
  case first =>
    show st'.firstIteration = decide (n + 1 = 0)
    rw [hfirst, decide_eq_false (Nat.succ_ne_zero n)]
  case order => exact horder

/-! ## The end of a round -/

/-- The state when a round has created its pool. -/
def CreateState.withPool (st : CreateState) (heap : MslabHeap) (n : Nat) (pool : Mempool) :
    CreateState where
  heap := heap
  alloc := st.alloc.setSmallMempool n (newSmallMempool pool (st.objsize + 1))
  slabOrderCur := if st.firstIteration then pool.slabOrder else st.slabOrderCur
  objsize := pool.objsize
  curOrderPool := st.curOrderPool
  firstIteration := false

section EndOfRound

variable {heap : MslabHeap} {pool : Mempool} (hi : st.Inv g sc limit)
  (hn : st.alloc.smallMempoolCacheSize = n)

include hi hn

/-- The new pool is not in a group yet. -/
theorem CreateState.Inv.withPool_grouped :
    (st.withPool heap n pool).alloc.Grouped st.curOrderPool ∧
      ∀ q < st.curOrderPool, (st.withPool heap n pool).alloc.UsedAt q := by
  have hcur := hi.cur
  have hcache : ∀ q < st.curOrderPool, (st.withPool heap n pool).alloc.smallMempoolCache q =
      st.alloc.smallMempoolCache q := fun q hq => SmallAlloc.setSmallMempool_ne (by omega)
  exact ⟨hi.grouped.of_cache hcache rfl rfl,
    fun q hq => (hi.usedAt q hq).of_cache hi.grouped hq hcache rfl⟩

/-- The pools before the new one are grouped if the size of slabs changes. -/
theorem createOrder_change (hgeo : mslabSizeof ≤ g.order0Size)
    (horder : pool.slabOrder ≠ (st.withPool heap n pool).slabOrderCur) :
    ∃ alloc', createOrder g (st.withPool heap n pool) n = some
        { st.withPool heap n pool with
          alloc := alloc'
          slabOrderCur := (alloc'.pool n).slabOrder
          curOrderPool := n } ∧
      alloc'.Grouped n ∧ (∀ q < n, alloc'.UsedAt q) ∧
      st.alloc.WithPool n pool (st.objsize + 1) alloc' := by
  have hcur := hi.cur
  obtain ⟨hgrouped, husedAt⟩ : (st.withPool heap n pool).alloc.Grouped st.curOrderPool ∧
      ∀ q < st.curOrderPool, (st.withPool heap n pool).alloc.UsedAt q := hi.withPool_grouped hn
  have hwith : st.alloc.WithPool n pool (st.objsize + 1) (st.withPool heap n pool).alloc :=
    st.alloc.withPool_setSmallMempool n pool (st.objsize + 1)
  -- there is a pool before
  have hpos : 0 < n := by
    by_contra hz
    have hfirst := hi.first
    rw [hn, decide_eq_true (Nat.eq_zero_of_not_pos hz)] at hfirst
    exact horder (if_pos hfirst).symm
  have hcurlt := hi.curLt (hn ▸ hpos)
  rw [hn] at hcurlt
  have hcache : ∀ q < n, (st.withPool heap n pool).alloc.smallMempoolCache q =
      st.alloc.smallMempoolCache q := fun q hq => SmallAlloc.setSmallMempool_ne (Nat.ne_of_lt hq)
  have hcurPool : (st.withPool heap n pool).curOrderPool = st.curOrderPool := rfl
  set alloc₁ := (st.withPool heap n pool).alloc with halloc₁
  have hpools : ∀ q < n, alloc₁.pool q = st.alloc.pool q := fun q hq => by
    rw [hwith.pool, if_neg (Nat.ne_of_lt hq)]
  have hmask : (alloc₁.pool st.curOrderPool).slabPtrMask = (alloc₁.pool (n - 1)).slabPtrMask := by
    rw [hpools _ hcurlt, hpools _ (by omega)]
    have h1 := (hi.pools st.curOrderPool (by omega)).shape.mask
    have h2 := (hi.pools (n - 1) (by omega)).shape.mask
    rw [h1, h2, (hi.order st.curOrderPool (Nat.le_refl _) (by omega)).1,
      (hi.order (n - 1) (by omega) (by omega)).1]
  have hw := hi.waiting hgeo alloc₁ (n - 1) (by omega) (fun q hq => hpools q (by omega))
    (fun q hq => by rw [hcache q (by omega)]) (by omega)
  obtain ⟨alloc₂, hex, hg₂, hu₂, hk⟩ :=
    createGroupsLoop_spec (by omega) (n - 1 + 1 - st.curOrderPool)
      (Nat.le_refl _) hgrouped husedAt hw
  rw [Nat.sub_add_cancel hpos] at hg₂ hu₂
  refine ⟨alloc₂, ?_, hg₂, hu₂, hwith.kept hk (by omega)⟩
  have hnew : alloc₁.pool n = pool := by rw [hwith.pool, if_pos rfl]
  have hne : (alloc₁.pool n).slabOrder ≠ (st.withPool heap n pool).slabOrderCur := hnew ▸ horder
  rw [createOrder, ← halloc₁, if_pos hne, hcurPool, hmask, smallMempoolCreateGroups, hex, guard,
    if_pos rfl]
  rfl

/-- The end of a round. -/
theorem createOrder_spec (hgeo : mslabSizeof ≤ g.order0Size) (hlt : st.objsize < limit)
    (hobj : pool.objsize = poolObjsize sc limit n) (hpool : pool.New g heap n)
    (hold : ∀ q < n, (st.alloc.pool q).New g heap q) :
    ∃ st', createOrder g (st.withPool heap n pool) n = some st' ∧
      CreateState.Inv g sc limit
        { st' with alloc := { st'.alloc with smallMempoolCacheSize := n + 1 } } := by
  by_cases horder : pool.slabOrder = (st.withPool heap n pool).slabOrderCur
  · have hwith : st.alloc.WithPool n pool (st.objsize + 1) (st.withPool heap n pool).alloc :=
      st.alloc.withPool_setSmallMempool n pool (st.objsize + 1)
    obtain ⟨hgrouped, husedAt⟩ : (st.withPool heap n pool).alloc.Grouped st.curOrderPool ∧
        ∀ q < st.curOrderPool, (st.withPool heap n pool).alloc.UsedAt q := hi.withPool_grouped hn
    have hsame : ((st.withPool heap n pool).alloc.pool n).slabOrder =
        (st.withPool heap n pool).slabOrderCur := by
      rw [hwith.pool, if_pos rfl]
      exact horder
    refine ⟨_, by rw [createOrder, if_neg (not_not.mpr hsame)], ?_⟩
    refine hi.grow hn hlt hwith rfl hobj hpool hold rfl (hn ▸ hi.cur) hgrouped husedAt ?_
    intro q h1 h2
    by_cases hq : q = n
    · subst hq
      exact ⟨hsame, hwith.appropriate⟩
    · have hqn : q < n := by omega
      obtain ⟨h3, h4⟩ := hi.order q h1 (hn ▸ hqn)
      have hfirst : st.firstIteration = false := by
        rw [hi.first, hn, decide_eq_false (by omega)]
      constructor
      · rw [hwith.pool, if_neg hq, h3]
        simp [CreateState.withPool, hfirst]
      · show ((st.alloc.setSmallMempool n _).smallMempoolCache q).appropriatePoolMask = 0
        rw [SmallAlloc.setSmallMempool_ne hq, h4]
  · obtain ⟨alloc', hex, hgrouped, husedAt, hwith⟩ := createOrder_change hi hn hgeo horder
    refine ⟨_, hex,
      hi.grow hn hlt hwith rfl hobj hpool hold rfl (Nat.le_refl n) hgrouped husedAt ?_⟩
    intro q h1 h2
    obtain rfl : q = n := Nat.le_antisymm (Nat.le_of_lt_succ h2) h1
    exact ⟨rfl, hwith.appropriate⟩

end EndOfRound

/-- One round of the loop. -/
theorem createPool_spec (orderOf : Nat → Nat) (hgeo : mslabSizeof ≤ g.order0Size)
    (hc : sc.Created minAlloc) (hi : st.Inv g sc limit) (hlt : st.objsize < limit) :
    (createPool g orderOf st = none ∧
        ∃ heap, mempoolCreate g orderOf heap st.alloc.smallMempoolCacheSize
      (poolObjsize sc limit st.alloc.smallMempoolCacheSize) = none) ∨
    ∃ st', createPool g orderOf st = some st' ∧ st'.Inv g sc limit ∧
      st'.alloc.smallMempoolCacheSize = st.alloc.smallMempoolCacheSize + 1 := by
  have hnext := hi.nextObjsize_eq hc hlt
  cases hex : mempoolCreate g orderOf st.heap st.alloc.smallMempoolCacheSize
      (poolObjsize sc limit st.alloc.smallMempoolCacheSize) with
  | none => exact Or.inl ⟨by simp [createPool, hnext, hex], st.heap, hex⟩
  | some r =>
      obtain ⟨heap, pool⟩ := r
      obtain ⟨hobj, hpool, hold⟩ := hi.addPool hgeo hex
      obtain ⟨st', hord, hinv⟩ := createOrder_spec hi rfl hgeo hlt hobj hpool hold
      refine Or.inr ⟨_, ?_, hinv, rfl⟩
      rw [CreateState.withPool, hobj] at hord
      simp only [createPool, hnext, hex, Option.bind_eq_bind, Option.bind_some, hord]

theorem createLoop_spec (orderOf : Nat → Nat) (hgeo : mslabSizeof ≤ g.order0Size)
    (hc : sc.Created minAlloc) (fuel : Nat) (hi : st.Inv g sc limit) :
    (createLoop g orderOf fuel st = none ∧
        ∃ heap i, mempoolCreate g orderOf heap i (poolObjsize sc limit i) = none) ∨
    ∃ st', createLoop g orderOf fuel st = some st' ∧ st'.Inv g sc limit ∧
      (limit ≤ st'.objsize ∨
        st'.alloc.smallMempoolCacheSize = st.alloc.smallMempoolCacheSize + fuel) ∧
      st'.alloc.smallMempoolCacheSize ≤ st.alloc.smallMempoolCacheSize + fuel := by
  induction fuel generalizing st with
  | zero => exact Or.inr ⟨st, rfl, hi, Or.inr rfl, Nat.le_refl _⟩
  | succ fuel ih =>
      rw [createLoop, hi.objsizeMax]
      by_cases hlt : st.objsize < limit
      · rw [if_pos hlt]
        rcases createPool_spec orderOf hgeo hc hi hlt with
          ⟨hfail, heap, hnone⟩ | ⟨st₁, hex₁, hi₁, hn₁⟩
        · exact Or.inl ⟨by simp [hfail], heap, _, hnone⟩
        · rcases ih hi₁ with ⟨hfail, hnone⟩ | ⟨st₂, hex₂, hi₂, hn₂⟩
          · exact Or.inl ⟨by simp [hex₁, hfail], hnone⟩
          · refine Or.inr ⟨st₂, ?_, hi₂, ?_, ?_⟩
            · simp only [hex₁, Option.bind_eq_bind, Option.bind_some, hex₂]
            · omega
            · omega
      · rw [if_neg hlt]
        exact Or.inr ⟨st, rfl, hi, Or.inl (Nat.le_of_not_lt hlt), by omega⟩

/-! ## `small_alloc_create` -/

/-- A new allocator: each size has a pool, all pools are in groups and have no slab. -/
structure SmallAlloc.Ready (g : Geometry) (h : MslabHeap) (alloc : SmallAlloc) : Prop where
  grouped : alloc.Grouped alloc.smallMempoolCacheSize
  usedAt : ∀ p < alloc.smallMempoolCacheSize, alloc.UsedAt p
  pools : ∀ p < alloc.smallMempoolCacheSize, (alloc.pool p).New g h p
  waste : ∀ p < alloc.smallMempoolCacheSize, (alloc.smallMempoolCache p).waste = 0
  size : alloc.smallMempoolCacheSize ≤ smallMempoolMax
  strict : ∀ p, p + 1 < alloc.smallMempoolCacheSize →
    (alloc.pool p).objsize < (alloc.pool (p + 1)).objsize
  objsizeMin : ∀ p < alloc.smallMempoolCacheSize,
    (alloc.smallMempoolCache p).objsizeMin = (if p = 0 then 0 else (alloc.pool (p - 1)).objsize) + 1
  search : ∀ size ≤ alloc.objsizeMax, smallClassCalcOffsetBySize alloc.smallClass size <
    alloc.smallMempoolCacheSize ∧
    size ≤ (alloc.pool (smallClassCalcOffsetBySize alloc.smallClass size)).objsize ∧
    ∀ p < smallClassCalcOffsetBySize alloc.smallClass size, (alloc.pool p).objsize < size

/-- The pools at the end of the loop, when all of them are in groups. -/
theorem CreateState.Inv.ready (hc : sc.Created minAlloc) (hi : st.Inv g sc limit)
    (hpos : 0 < st.alloc.smallMempoolCacheSize)
    (hle : st.alloc.smallMempoolCacheSize ≤ smallMempoolMax)
    (hsize : alloc.smallMempoolCacheSize = st.alloc.smallMempoolCacheSize)
    (hcls : alloc.smallClass = sc) (hmax : alloc.objsizeMax = st.objsize)
    (hpool : ∀ q, alloc.pool q = st.alloc.pool q)
    (hwaste : ∀ q, (alloc.smallMempoolCache q).waste = (st.alloc.smallMempoolCache q).waste)
    (hmin : ∀ q, (alloc.smallMempoolCache q).objsizeMin = (st.alloc.smallMempoolCache q).objsizeMin)
    (hgrouped : alloc.Grouped st.alloc.smallMempoolCacheSize)
    (hused : ∀ q < st.alloc.smallMempoolCacheSize, alloc.UsedAt q) : alloc.Ready g st.heap := by
  constructor
  case grouped => rw [hsize]; exact hgrouped
  case usedAt => rw [hsize]; exact hused
  case pools => intro p hp; rw [hpool]; exact hi.pools p (hsize ▸ hp)
  case waste => intro p hp; rw [hwaste]; exact hi.waste p (hsize ▸ hp)
  case size => rw [hsize]; exact hle
  case objsizeMin => intro p hp; rw [hmin, hpool]; exact hi.objsizeMin p (hsize ▸ hp)
  case strict =>
    intro p hp
    rw [hsize] at hp
    rw [hpool, hpool, hi.sizes p (by omega), hi.sizes (p + 1) hp, poolObjsize, poolObjsize]
    have hstrict := sc.rawSize_lt_succ p
    have hlt := hi.unclipped p hp
    omega
  case search =>
    intro size hle'
    have hlast : st.alloc.smallMempoolCacheSize - 1 < st.alloc.smallMempoolCacheSize :=
      Nat.sub_lt hpos Nat.one_pos
    have hobj := hi.objsize
    rw [if_neg hpos.ne', hi.sizes _ hlast] at hobj
    have hlt : st.objsize < 2 ^ 31 := by
      have := (hi.pools _ hlast).shape.objsize_lt
      rwa [hi.sizes _ hlast, ← hobj] at this
    rw [hmax] at hle'
    have hiff : ∀ t, smallClassCalcOffsetBySize sc size ≤ t ↔ size ≤ sc.rawSize t :=
      fun t => smallClassCalcOffsetBySize_le_iff hc (by omega)
    rw [hobj, poolObjsize] at hle'
    rw [hcls, hsize, hpool]
    have hoff := (hiff (st.alloc.smallMempoolCacheSize - 1)).2 (le_trans hle' (min_le_left _ _))
    have hraw := (hiff _).1 (Nat.le_refl _)
    have hlt' : smallClassCalcOffsetBySize sc size < st.alloc.smallMempoolCacheSize :=
      Nat.lt_of_le_of_lt hoff hlast
    refine ⟨hlt', ?_, fun p hp => ?_⟩
    · rw [hi.sizes _ hlt', poolObjsize]
      exact le_min hraw (le_trans hle' (min_le_right _ _))
    · rw [hpool, hi.sizes p (by omega), poolObjsize]
      have hnot := mt (hiff p).2 (Nat.not_le.2 hp)
      omega

theorem createEnd_spec (hgeo : mslabSizeof ≤ g.order0Size) (hc : sc.Created minAlloc)
    (hi : st.Inv g sc limit) (hpos : 0 < st.alloc.smallMempoolCacheSize)
    (hle : st.alloc.smallMempoolCacheSize ≤ smallMempoolMax) :
    ∃ alloc', createEnd g st = some (st.heap, alloc') ∧ alloc'.Ready g st.heap ∧
      (alloc'.pool 0).objsize = poolObjsize sc limit 0 := by
  have hcurlt := hi.curLt hpos
  generalize hn : st.alloc.smallMempoolCacheSize = n at *
  have hmask :
      (st.alloc.pool st.curOrderPool).slabPtrMask = (st.alloc.pool (n - 1)).slabPtrMask := by
    have h1 := (hi.pools st.curOrderPool (by omega)).shape.mask
    have h2 := (hi.pools (n - 1) (by omega)).shape.mask
    rw [h1, h2, (hi.order st.curOrderPool (Nat.le_refl _) (by omega)).1,
      (hi.order (n - 1) (by omega) (by omega)).1]
  have hw := hi.waiting hgeo st.alloc (n - 1) (by omega) (fun _ _ => rfl) (fun _ _ => rfl)
    (by omega)
  obtain ⟨alloc₁, hex, hg₁, hu₁, hk⟩ :=
    createGroupsLoop_spec (by omega) (n - 1 + 1 - st.curOrderPool)
      (Nat.le_refl _) hi.grouped hi.usedAt hw
  rw [Nat.sub_add_cancel hpos] at hg₁ hu₁
  refine ⟨{ alloc₁ with objsizeMax := st.objsize }, ?_, ?_, ?_⟩
  · simp only [createEnd, hn, ne_eq, hpos.ne', not_false_eq_true, guard, if_true, hmask,
      smallMempoolCreateGroups, hex]
    rfl
  · refine hi.ready hc (hn.symm ▸ hpos) (hn.symm ▸ hle) hk.cacheSize
      (hk.smallClass.trans hi.smallClass) rfl hk.pool hk.waste
      hk.objsizeMin ?_ ?_
    · rw [hn]
      exact hg₁.of_cache (fun _ _ => rfl) rfl rfl
    · rw [hn]
      exact fun q hq => (hu₁ q hq).of_cache hg₁ hq (fun _ _ => rfl) rfl
  · rw [← hi.sizes 0 (by omega)]
    exact congrArg Mempool.objsize (hk.pool 0)

theorem SmallAlloc.grouped_zero (alloc : SmallAlloc) (h : alloc.smallMempoolGroupsSize = 0) :
    alloc.Grouped 0 := by
  constructor <;> intros <;> omega

/-- `small_mempool_create` fails only if some `mempool_create` does. -/
theorem smallMempoolCreate_spec (orderOf : Nat → Nat) (h : MslabHeap) (alloc : SmallAlloc)
    (hgeo : mslabSizeof ≤ g.order0Size) (hc : alloc.smallClass.Created minAlloc)
    (hlimit : 0 < alloc.objsizeMax) :
    (smallMempoolCreate g orderOf h alloc = none ∧
      ∃ heap i, mempoolCreate g orderOf heap i
        (poolObjsize alloc.smallClass alloc.objsizeMax i) = none) ∨
    ∃ h' alloc', smallMempoolCreate g orderOf h alloc = some (h', alloc') ∧ alloc'.Ready g h' ∧
      (alloc'.pool 0).objsize = poolObjsize alloc.smallClass alloc.objsizeMax 0 := by
  have hi : CreateState.Inv g alloc.smallClass alloc.objsizeMax
      { heap := h
        alloc := { alloc with smallMempoolGroupsSize := 0, smallMempoolCacheSize := 0 }
        slabOrderCur := 0
        objsize := 0
        curOrderPool := 0
        firstIteration := true } := by
    constructor
    case smallClass => rfl
    case objsizeMax => rfl
    case objsize => rfl
    case cur => exact Nat.le_refl _
    case curLt => exact fun h => absurd h (Nat.lt_irrefl _)
    case grouped => exact SmallAlloc.grouped_zero _ rfl
    case first => rfl
    case sizes => exact fun p hp => absurd hp (Nat.not_lt_zero _)
    case unclipped => exact fun p hp => absurd hp (Nat.not_lt_zero _)
    case objsizeMin => exact fun p hp => absurd hp (Nat.not_lt_zero _)
    case pools => exact fun p hp => absurd hp (Nat.not_lt_zero _)
    case waste => exact fun p hp => absurd hp (Nat.not_lt_zero _)
    case usedAt => exact fun p hp => absurd hp (Nat.not_lt_zero _)
    case order => exact fun p _ hp => absurd hp (Nat.not_lt_zero _)
  rcases createLoop_spec orderOf hgeo hc smallMempoolMax hi with
    ⟨hfail, hnone⟩ | ⟨st, hex, hi', hn, hle⟩
  · exact Or.inl ⟨by simp [smallMempoolCreate, hfail], hnone⟩
  · right
    have hmax : smallMempoolMax = 1024 := rfl
    simp only [Nat.zero_add] at hn hle
    have hpos : 0 < st.alloc.smallMempoolCacheSize := by
      by_contra hz
      have hobj := hi'.objsize
      rw [if_pos (by omega)] at hobj
      omega
    obtain ⟨alloc', hend, hready⟩ := createEnd_spec hgeo hc hi' hpos hle
    refine ⟨st.heap, alloc', ?_, hready⟩
    simp only [smallMempoolCreate, hex, Option.bind_eq_bind, Option.bind_some, hend]

theorem smallMempoolCreate_zero {orderOf : Nat → Nat} {h : MslabHeap}
    (hlimit : alloc.objsizeMax = 0) :
    smallMempoolCreate g orderOf h alloc = none := by
  simp [smallMempoolCreate, smallMempoolMax, createLoop, createEnd, hlimit]

/-- The limit of the sizes before pools are created. -/
def objsizeLimit (g : Geometry) (k : Nat) : Nat :=
  alignUp k ((g.slabSize - mslabSizeof) / 16 / 8 * 8)

theorem objsizeLimit_zero_or (g : Geometry) (k : Nat) :
    objsizeLimit g k = 0 ∨ ptrSize ≤ objsizeLimit g k := by
  unfold objsizeLimit
  by_cases hz : (g.slabSize - mslabSizeof) / 16 / 8 = 0
  · left
    rw [hz, Nat.zero_mul, alignUp, Nat.zero_add,
      Nat.div_eq_of_lt (Nat.sub_lt (Nat.two_pow_pos k) Nat.one_pos), Nat.zero_mul]
  · right
    have hle := le_alignUp k ((g.slabSize - mslabSizeof) / 16 / 8 * 8)
    simp only [ptrSize]
    omega

theorem slabOrderSize_orderMax (g : Geometry) : g.slabOrderSize g.orderMax = g.slabSize := by
  rw [Geometry.slabOrderSize, Nat.one_shiftLeft, g.slabSize_eq]

theorem order0Size_le_slabSize (g : Geometry) : g.order0Size ≤ g.slabSize :=
  slabOrderSize_orderMax g ▸ order0Size_le g g.orderMax

theorem mempoolObjsizeMax_eq (hgeo : mslabSizeof ≤ g.order0Size) :
    mempoolObjsizeMax (g.slabOrderSize g.orderMax) = (g.slabSize - mslabSizeof) / 16 / 8 * 8 := by
  have hle := Nat.le_trans hgeo (order0Size_le_slabSize g)
  have hlt := g.slabSize_lt
  have hmod : (g.slabSize + 2 ^ 32 - mslabSizeof) % 2 ^ 32 = g.slabSize - mslabSizeof := by
    rw [show g.slabSize + 2 ^ 32 - mslabSizeof = g.slabSize - mslabSizeof + 2 ^ 32 by omega,
      Nat.add_mod_right, Nat.mod_eq_of_lt (by omega)]
  rw [mempoolObjsizeMax, slabOrderSize_orderMax, hmod]
  exact and_high_mask (k := 3) (n := 64) (by omega) (by omega)

/-- `small_alloc_create` with a granularity of `2 ^ k`. -/
theorem smallAllocCreate_spec (orderOf : Nat → Nat) (h : MslabHeap) (alloc : SmallAlloc)
    (effectiveBits : Nat) {objsizeMin k : Nat} (hgeo : mslabSizeof ≤ g.order0Size) (hk : k < 32)
    (hmin : 0 < objsizeMin) (hlt : alignUp k objsizeMin < 2 ^ 32)
    (hlimit : 0 < objsizeLimit g k) :
    ∃ sc : SmallClass, smallClassCreate (2 ^ k) effectiveBits (alignUp k objsizeMin) = some sc ∧
      ((smallAllocCreate g orderOf h alloc objsizeMin (2 ^ k) effectiveBits = none ∧
        ∃ heap i, mempoolCreate g orderOf heap i (poolObjsize sc (objsizeLimit g k) i) = none) ∨
      ∃ h' alloc', smallAllocCreate g orderOf h alloc objsizeMin (2 ^ k) effectiveBits =
          some (h', alloc') ∧
        alloc'.Ready g h' ∧
        (alloc'.pool 0).objsize = min (alignUp k objsizeMin) (objsizeLimit g k)) := by
  have hpow : 2 ^ k ≤ 2 ^ 31 := Nat.pow_le_pow_right (by decide) (by omega)
  have hpos := Nat.two_pow_pos k
  have hle := le_alignUp k objsizeMin
  have hge : 2 ^ k ≤ alignUp k objsizeMin := by
    obtain ⟨m, hm⟩ := dvd_alignUp k objsizeMin
    rw [hm] at hle ⊢
    have hmpos : 1 ≤ m := by
      by_contra hz
      rw [show m = 0 by omega, Nat.mul_zero] at hle
      omega
    exact Nat.le_mul_of_pos_right _ hmpos
  obtain ⟨sc, hcls, hc, -, -⟩ := smallClassCreate_spec effectiveBits (by omega) hlt hge
  have hslab := g.slabSize_lt
  have halign := alignUp_le k ((g.slabSize - mslabSizeof) / 16 / 8 * 8)
  have hmax : objsizeLimit g k < 2 ^ 32 := by
    unfold objsizeLimit
    omega
  have h1 : smallAlign objsizeMin (2 ^ k) = some (alignUp k objsizeMin) :=
    smallAlign_eq (by simp only [sizeMax]; omega)
  have h2 : smallAlign (mempoolObjsizeMax (g.slabOrderSize g.orderMax)) (2 ^ k) =
      some (objsizeLimit g k) := by
    rw [mempoolObjsizeMax_eq hgeo]
    exact smallAlign_eq (by simp only [sizeMax]; omega)
  have hand : 2 ^ k &&& (2 ^ k - 1) = 0 := by rw [Nat.and_two_pow_sub_one_eq_mod, Nat.mod_self]
  have heq : smallAllocCreate g orderOf h alloc objsizeMin (2 ^ k) effectiveBits
      = smallMempoolCreate g orderOf h
      { alloc with objsizeMax := objsizeLimit g k, smallClass := sc } := by
    simp only [smallAllocCreate, h1, h2, Option.bind_eq_bind, Option.bind_some, guard, hand,
      if_true, Nat.mod_eq_of_lt hlt, Nat.mod_eq_of_lt hmax, hcls, Option.pure_def]
  refine ⟨sc, hcls, ?_⟩
  rw [heq]
  rcases smallMempoolCreate_spec orderOf h
    { alloc with objsizeMax := objsizeLimit g k, smallClass := sc } hgeo hc hlimit with
    hnone | ⟨h', alloc', hex, hready, hfirst⟩
  · exact Or.inl hnone
  · refine Or.inr ⟨h', alloc', hex, hready, ?_⟩
    rw [hfirst, poolObjsize, hc.rawSize_zero]

/-- An allocator that `small_alloc_create` returned. -/
theorem smallAllocCreate_ready {orderOf : Nat → Nat} {h h' : MslabHeap}
    {objsizeMin granularity effectiveBits : Nat} (hgeo : mslabSizeof ≤ g.order0Size)
    (hmin : 0 < objsizeMin) (hmin32 : objsizeMin < 2 ^ 32) (hgran : granularity < 2 ^ 32)
    (hex : smallAllocCreate g orderOf h alloc objsizeMin granularity effectiveBits =
      some (h', alloc')) :
    alloc'.Ready g h' ∧ ∃ a, smallAlign objsizeMin granularity = some a ∧ objsizeMin ≤ a ∧
      min a ptrSize ≤ (alloc'.pool 0).objsize := by
  -- the assertions that held
  have hparts := hex
  simp only [smallAllocCreate, Option.bind_eq_bind, Option.bind_eq_some_iff] at hparts
  obtain ⟨a, ha, b, hb, u, hguard, sc, hsc, hcreate⟩ := hparts
  have hand : granularity &&& (granularity - 1) = 0 := by
    by_contra hne
    simp [guard, hne] at hguard
  have hgpos : granularity ≠ 0 := by
    intro hz
    simp [smallClassCreate, guard, hz] at hsc
  obtain ⟨k, rfl⟩ := (Nat.and_sub_one_eq_zero_iff_isPowerOfTwo hgpos).1 hand
  have hk : k < 32 := (Nat.pow_lt_pow_iff_right (by decide)).1 hgran
  have hpow : 2 ^ k ≤ 2 ^ 31 := Nat.pow_le_pow_right (by decide) (by omega)
  have hle := le_alignUp k objsizeMin
  have halign := ha
  rw [smallAlign_eq (by simp only [sizeMax]; omega), Option.some.injEq] at ha
  have halt : alignUp k objsizeMin < 2 ^ 32 := by
    by_contra hge
    have hup := alignUp_le k objsizeMin
    -- it is a multiple of `2 ^ k` between `2 ^ 32` and `2 ^ 32 + 2 ^ k`
    have heq : alignUp k objsizeMin = 2 ^ 32 := by
      obtain ⟨m, hm⟩ := dvd_alignUp k objsizeMin
      obtain ⟨m', hm'⟩ : 2 ^ k ∣ 2 ^ 32 := Nat.pow_dvd_pow 2 (by omega)
      rw [hm, hm'] at hge
      have h1 : m' ≤ m := Nat.le_of_mul_le_mul_left (Nat.le_of_not_lt hge) (Nat.two_pow_pos k)
      have h2 : m < m' + 1 := by
        refine Nat.lt_of_mul_lt_mul_left (a := 2 ^ k) ?_
        rw [Nat.mul_add, Nat.mul_one, ← hm, ← hm']
        omega
      rw [hm, hm', show m = m' by omega]
    rw [← ha, heq, Nat.mod_self] at hsc
    simp [smallClassCreate, guard] at hsc
  have hlimit : 0 < objsizeLimit g k := by
    by_contra hz
    have hpos := Nat.two_pow_pos k
    have hslab := g.slabSize_lt
    rw [mempoolObjsizeMax_eq hgeo, smallAlign_eq (by simp only [sizeMax]; omega),
      Option.some.injEq] at hb
    have hb0 : b = 0 := by
      rw [← hb, ← objsizeLimit]
      omega
    rw [smallMempoolCreate_zero (by simp [hb0])] at hcreate
    cases hcreate
  obtain ⟨sc', -, ⟨hnone, -⟩ | ⟨h'', alloc'', hex', hready, hfirst⟩⟩ :=
    smallAllocCreate_spec orderOf h alloc effectiveBits hgeo hk hmin halt hlimit
  · rw [hex] at hnone
    cases hnone
  · rw [hex, Option.some.injEq, Prod.mk.injEq] at hex'
    obtain ⟨rfl, rfl⟩ := hex'
    refine ⟨hready, a, halign, ha ▸ hle, ?_⟩
    rw [hfirst, ha]
    have := objsizeLimit_zero_or g k
    omega

/-! ## `small_mempool_search` -/

/-- **`small_mempool_search` finds the best pool** for every size up to the limit of a new
allocator. -/
theorem small_mempool_search_best_fit {orderOf : Nat → Nat} {h h' : MslabHeap}
    {objsizeMin granularity effectiveBits : Nat} (hgeo : mslabSizeof ≤ g.order0Size)
    (hmin : 0 < objsizeMin) (hmin31 : objsizeMin ≤ 2 ^ 31) (hgran : granularity < 2 ^ 32)
    (hex : smallAllocCreate g orderOf h alloc objsizeMin granularity effectiveBits =
      some (h', alloc')) (size : Nat) :
    (size ≤ alloc'.objsizeMax → ∃ c, smallMempoolSearch alloc' size = some c ∧
      c < alloc'.smallMempoolCacheSize ∧
      size ≤ (alloc'.pool c).objsize ∧ (0 < c → (alloc'.pool (c - 1)).objsize < size) ∧
      (1 ≤ size → (alloc'.smallMempoolCache c).objsizeMin ≤ size)) ∧
    (alloc'.objsizeMax < size → smallMempoolSearch alloc' size = none) := by
  obtain ⟨hready, -⟩ := smallAllocCreate_ready hgeo hmin (by omega) hgran hex
  constructor
  · intro hle
    obtain ⟨hlt, hfit, hbest⟩ := hready.search size hle
    refine ⟨_, by rw [smallMempoolSearch, if_neg (by omega)], hlt,
      hfit, fun hpos => hbest _ (Nat.sub_lt hpos Nat.one_pos), fun hsize => ?_⟩
    rw [hready.objsizeMin _ hlt]
    by_cases hz : smallClassCalcOffsetBySize alloc'.smallClass size = 0
    · rw [if_pos hz]
      omega
    · rw [if_neg hz]
      exact hbest _ (Nat.sub_lt (Nat.pos_of_ne_zero hz) Nat.one_pos)
  · intro hgt
    rw [smallMempoolSearch, if_pos hgt]

/-- An allocator before `small_alloc_create`. -/
def rawAlloc : SmallAlloc where
  smallMempoolCache := fun _ => newSmallMempool threeObjects.pool 0
  smallMempoolCacheSize := 0
  smallMempoolGroups := fun _ => ⟨0, 0, 0, 0⟩
  smallMempoolGroupsSize := 0
  smallClass := ⟨0, 0, 0, 0, 0, 0, 0⟩
  objsizeMax := 0

/-- Slabs of 64 kilobytes, and pages of 4. -/
def sixteenPages : Geometry where
  slabSize := 65536
  order0Size := 4096
  order0SizeLb := 12
  orderMax := 4
  order0Size_eq := rfl
  slabSize_eq := rfl
  slabSize_lt := by decide
  orderMax_lt := by decide

theorem sixteenPages_created :
    ∃ h' alloc', smallAllocCreate sixteenPages (fun _ => 4) emptyHeap rawAlloc 512 512 0
    = some (h', alloc') ∧ alloc'.smallMempoolCacheSize = 4 ∧ alloc'.objsizeMax = 4096 := by
  have hrun : (smallAllocCreate sixteenPages (fun _ => 4) emptyHeap rawAlloc 512 512 0).map
      (fun r => (r.2.smallMempoolCacheSize, r.2.objsizeMax)) = some (4, 4096) := by decide +kernel
  obtain ⟨⟨h', alloc'⟩, hex, heq⟩ := Option.map_eq_some_iff.1 hrun
  rw [Prod.mk.injEq] at heq
  exact ⟨h', alloc', hex, heq⟩

theorem small_mempool_search_best_fit_four :
    ∃ h' alloc', smallAllocCreate sixteenPages (fun _ => 4) emptyHeap rawAlloc 512 512 0
    = some (h', alloc') ∧ ∃ c, smallMempoolSearch alloc' 600 = some c ∧
    600 ≤ (alloc'.pool c).objsize := by
  obtain ⟨h', alloc', hex, -, hmax⟩ := sixteenPages_created
  obtain ⟨c, hc, -, hfit, -⟩ :=
    (small_mempool_search_best_fit (by decide) (by decide) (by decide) (by decide) hex 600).1
      (by rw [hmax]; decide)
  exact ⟨h', alloc', hex, c, hc, hfit⟩

end SmallAllocators
