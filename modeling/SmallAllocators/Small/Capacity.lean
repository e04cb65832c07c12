/-
SmallAllocators.Small.Capacity — the memory that a request gets, over the
whole range of sizes.

`slab_get` and `slab_get_large` add the size of the header to the request in
64 bits, and nothing checks that sum. Where it wraps around, `slab_get` takes
a slab of the least order, and `slab_get_large` asks for a block that does
not even hold the header: `smalloc` then returns a pointer to the end of it.
-/
import SmallAllocators.SlabCache.Billing
import SmallAllocators.SlabCache.Runs
import SmallAllocators.Small.Routing

namespace SmallAllocators

variable {g : Geometry} {c c' : SlabCache} {arena arena' : SlabArena} {quota quota' size : Nat}
  {answer slab : Option Nat}

/-- A slab is large enough for the request of `size` bytes, and there is none if no slab could be:
then the quota and the statistics are as they were. -/
structure LargeEnough (size : Nat) (c : SlabCache) (quota : Nat) (slab : Option Nat)
    (c' : SlabCache) (quota' : Nat) : Prop where
  capacity : ∀ a, slab = some a → size ≤ (c'.slab a).capacity
  rejected : sizeMax ≤ size + slabSizeof →
    slab = none ∧ quota' = quota ∧ c'.allocated = c.allocated ∧ c'.orders = c.orders

/-- No slab and no object is smaller than requested. -/
structure SlabsSuffice (g : Geometry) (size : Nat) : Prop where
  get : ∀ s, (slabMachine g).Reachable s → ∀ arena quota answer slab c' arena' quota',
    slabGetBilled g s.cache arena quota size answer = some (slab, c', arena', quota') →
      LargeEnough size s.cache quota slab c' quota'
  getLarge : ∀ s, (slabMachine g).Reachable s → ∀ arena quota answer slab c' arena' quota',
    slabGetLargeBilled g s.cache arena quota size answer = some (slab, c', arena', quota') →
      LargeEnough size s.cache quota slab c' quota'
  smalloc : ∀ s, (smallMachine g 1).Reachable s → ∀ o ∈ s.live, o.size = size →
    o.start ≤ o.ptr ∧ o.ptr + size ≤ o.start + o.length s.alloc ∧ size + slabSizeof < sizeMax

/-! ## Sizes that can be represented together with the header -/

theorem slabGetBilled_largeEnough (hsize : size + slabSizeof < sizeMax)
    (h : slabGetBilled g c arena quota size answer = some (slab, c', arena', quota')) :
    LargeEnough size c quota slab c' quota' := by
  obtain ⟨answer', hget⟩ := slabGetBilled_get h
  refine ⟨fun a ha => ?_, fun hwraps => absurd hsize (by omega)⟩
  subst ha
  have hle := g.le_slabRealSize size
  rw [Nat.mod_eq_of_lt hsize] at hle
  change size ≤ (c'.slab a).size - slabSizeof
  rw [slabGet_size hget]
  omega

theorem slabGetLargeBilled_largeEnough (hsize : size + slabSizeof < sizeMax)
    (h : slabGetLargeBilled g c arena quota size answer = some (slab, c', arena', quota')) :
    LargeEnough size c quota slab c' quota' := by
  obtain ⟨answer', -, hget, -⟩ := slabGetLargeBilled_get h
  refine ⟨fun a ha => ?_, fun hwraps => absurd hsize (by omega)⟩
  subst ha
  cases answer' with
  | none => cases hget
  | some a₁ =>
      cases hget
      have hslab : ((slabCreate c a (g.orderMax + 1) ((size + slabSizeof) % sizeMax)).slab a).size =
          (size + slabSizeof) % sizeMax := by
        rw [slabCreate, SlabCache.setSlab_self]
      rw [Nat.mod_eq_of_lt hsize] at hslab
      change size ≤
        ((slabCreate c a (g.orderMax + 1) ((size + slabSizeof) % sizeMax)).slab a).size -
          slabSizeof
      rw [Nat.mod_eq_of_lt hsize]
      omega

/-- The bytes of an object are in its memory. -/
def SmallObject.Inside (alloc : SmallAlloc) (o : SmallObject) : Prop :=
  o.start ≤ o.ptr ∧ o.ptr + o.size ≤ o.start + o.length alloc

/-- A request gets what it asks for, with objects of any size. -/
structure SmallState.Holds (s : SmallState) : Prop where
  routed : s.alloc.Routed
  fit : ∀ size ≤ s.alloc.objsizeMax, size ≤ (s.alloc.pool (s.alloc.classOf size)).objsize
  objects : ∀ o ∈ s.live, o.size + slabSizeof < sizeMax → o.Inside s.alloc

/-- The pool that serves a size has objects of at least this size. -/
theorem SmallAlloc.Routed.poolFor_fit {alloc : SmallAlloc} (hr : alloc.Routed)
    (hsize : size ≤ alloc.objsizeMax) (hfit : size ≤ (alloc.pool (alloc.classOf size)).objsize) :
    size ≤ (alloc.pool (alloc.poolFor size)).objsize := by
  have hc := hr.classOf_lt size hsize
  have hserve := (hr.usedAt _ hc).used
  have hin : alloc.InGroup (alloc.classOf size) (alloc.poolFor size) :=
    ⟨Nat.le_trans (hr.grouped.self _ hc).1 hserve.le, hserve.last⟩
  exact Nat.le_trans hfit (hr.grouped.mono _ _ hserve.le (hr.grouped.lt hc hin))

theorem SmallState.Holds.change {s s' : SmallState} (h : s.Holds) (hre : s.alloc.Reroutes s'.alloc)
    (hlive : ∀ o ∈ s'.live, o ∈ s.live ∨ (o.size + slabSizeof < sizeMax → o.Inside s.alloc)) :
    s'.Holds := by
  refine ⟨hre.routed, fun size hsize => ?_, fun o ho hfits => ?_⟩
  · rw [hre.layout.objsizeMax] at hsize
    rw [hre.layout.classOf, (hre.layout.config _).objsize]
    exact h.fit size hsize
  · have hin : o.Inside s.alloc := by
      rcases hlive o ho with hold | hnew
      · exact h.objects o hold hfits
      · exact hnew hfits
    rw [SmallObject.Inside, hre.layout.length]
    exact hin

theorem SmallOp.exec_holds {s s' : SmallState} (h : s.Holds) (op : SmallOp)
    (hex : op.exec g s = some s') : s'.Holds := by
  cases op with
  | alloc size answer retry =>
      simp only [SmallOp.exec, Option.bind_eq_bind, Option.bind_eq_some_iff,
        Option.some.injEq] at hex
      obtain ⟨⟨ptr, heap, alloc⟩, hrun, rfl⟩ := hex
      refine h.change (smalloc_reroutes h.routed hrun) fun o ho => ?_
      by_cases hptr : ptr = 0
      · rw [if_pos hptr] at ho
        exact .inl ho
      rw [if_neg hptr] at ho
      rcases List.mem_cons.1 ho with rfl | ho
      · refine .inr fun hfits => ?_
        by_cases hsize : size ≤ s.alloc.objsizeMax
        · have hfit := h.routed.poolFor_fit hsize (h.fit size hsize)
          simpa [SmallObject.Inside, SmallObject.start, SmallObject.length,
            SmallState.homeFor, hsize]
            using hfit
        · -- a large object lies behind the header of its slab
          rw [smalloc, smallMempoolSearch_of_lt (Nat.lt_of_not_le hsize)] at hrun
          cases answer with
          | none =>
              rw [smallocLarge, Option.some.injEq, Prod.mk.injEq] at hrun
              exact absurd hrun.1.symm hptr
          | some slab =>
              rw [smallocLarge, Option.some.injEq, Prod.mk.injEq] at hrun
              simp only [SmallObject.Inside, SmallObject.start, SmallObject.length,
                SmallState.homeFor, if_neg hsize, largeSize, Nat.mod_eq_of_lt hfits]
              omega
      · exact .inl ho
  | free o =>
      simp only [SmallOp.exec, Option.bind_eq_bind, Option.bind_eq_some_iff,
        Option.some.injEq] at hex
      obtain ⟨⟨heap, alloc⟩, hrun, rfl⟩ := hex
      exact h.change (smfree_reroutes h.routed hrun) fun o' ho' => .inl (List.mem_of_mem_erase ho')
  | write mem =>
      simp only [SmallOp.exec, Option.some.injEq] at hex
      subst hex
      exact h.change h.routed.refl fun o ho => .inl ho

theorem SmallState.reachable_holds (hgeo : mslabSizeof ≤ g.order0Size) {s : SmallState}
    (hs : (smallMachine g 1).Reachable s) : s.Holds := by
  refine Machine.Reachable.of_step (smallMachine g 1) (P := SmallState.Holds) (fun s hs => ?_)
    (fun s op s' h _ hex => SmallOp.exec_holds h op hex) hs
  obtain ⟨orderOf, heap, alloc, objsizeMin, granularity, effectiveBits, hmin, hmin32, hgran, hex,
    hlive⟩ := hs
  have hready := (smallAllocCreate_ready hgeo hmin hmin32 hgran hex).1
  exact ⟨hready.routed, fun size hsize => (hready.search size hsize).2.1, by simp [hlive]⟩

theorem smalloc_largeEnough (hgeo : mslabSizeof ≤ g.order0Size)
    (hsize : size + slabSizeof < sizeMax) {s : SmallState} (hs : (smallMachine g 1).Reachable s)
    {o : SmallObject} (ho : o ∈ s.live) (heq : o.size = size) :
    o.start ≤ o.ptr ∧ o.ptr + size ≤ o.start + o.length s.alloc ∧ size + slabSizeof < sizeMax := by
  obtain ⟨hstart, hend⟩ :=
    (SmallState.reachable_holds hgeo hs).objects o ho (by rw [heq]; exact hsize)
  exact ⟨hstart, heq ▸ hend, hsize⟩

/-! ## Sizes that wrap around -/

/-- An arena without free slabs and without preallocated memory. -/
def bareArena : SlabArena where
  cache := []
  arena := 0
  prealloc := 0
  used := 0
  carved := []
  mapped := []

/-- A quota of `QUOTA_MAX`, of which nothing is used. -/
def wholeQuota : Nat := quotaPack uint32Max 0

/-- An arena slab from `mmap`, billed to the quota. -/
theorem bareArena_slabMap (g : Geometry) (m : Nat) :
    ∃ quota', bareArena.slabMap g.slabSize wholeQuota (some m) =
      some (some m, { bareArena with used := g.slabSize, mapped := [m] }, quota') := by
  have hpos : 1 ≤ g.slabSize := by
    rw [g.slabSize_eq]
    exact Nat.two_pow_pos _
  have hlt := g.slabSize_lt
  have hmax : g.slabSize ≤ quotaMax := by
    have : 2 ^ 32 ≤ quotaMax := by decide
    omega
  have hunits := ceilUnits_le hmax
  have hused : usedInUnits wholeQuota = 0 := usedInUnits_pack (by decide)
  have htotal : totalInUnits wholeQuota = uint32Max := totalInUnits_pack (by decide)
  have huse := quotaUse_eq hpos hmax (show usedInUnits wholeQuota + ceilUnits g.slabSize < 2 ^ 32 by
    rw [hused]
    have : uint32Max < 2 ^ 32 := by decide
    omega)
  rw [hused, htotal, if_neg (by omega)] at huse
  have hadd : (0 + g.slabSize) % sizeMax = g.slabSize := by
    rw [Nat.zero_add]
    exact Nat.mod_eq_of_lt (Nat.lt_trans hlt (by decide))
  refine ⟨quotaPack uint32Max (0 + ceilUnits g.slabSize), ?_⟩
  simp only [SlabArena.slabMap, bareArena, huse, hadd, Option.bind_eq_bind, Option.bind_some]
  rw [if_neg (by omega)]

/-- A cache that is new and has to ask its arena. -/
def newCache (g : Geometry) : SlabState where
  cache := slabCacheCreate g (fun _ => Slab.poisoned) ⟨id, id⟩ ⟨id, id⟩
  live := ∅

theorem newCache_maps (g : Geometry) : slabFindMaps g (newCache g).cache 0 = true := by
  rw [slabFindMaps, List.all_eq_true]
  intro k hk
  rw [List.mem_range'_1] at hk
  exact (rlistEmpty_iff (createLists_ring _ _ k (by omega))).2 rfl

theorem newCache_mapAnswer (g : Geometry) : (newCache g).MapAnswer g g.slabSize := by
  refine ⟨Nat.dvd_refl _, ?_, ?_⟩
  · intro r hr
    simp [newCache, slabCacheCreate, SlabCache.mapped] at hr
  · intro a ha
    exact absurd (Finset.mem_filter.mp ha).1 (Finset.notMem_empty a)

/-- Where the sum with the header wraps around, `slab_get` returns a slab of the least order. -/
theorem slabGetBilled_wraps (hgeo : mslabSizeof ≤ g.order0Size) (hsize : size < sizeMax)
    (hwraps : sizeMax ≤ size + slabSizeof) :
    ∃ a c' arena' quota',
      slabGetBilled g (newCache g).cache bareArena wholeQuota size (some g.slabSize) =
      some (some a, c', arena', quota') := by
  have horder : g.slabOrder ((size + slabSizeof) % sizeMax) = 0 := by
    have hle : (size + slabSizeof) % sizeMax ≤ mslabSizeof := by
      simp only [slabSizeof, mslabSizeof, sizeMax] at *
      omega
    rw [Geometry.slabOrder, if_pos (Nat.le_trans hle hgeo)]
  obtain ⟨quota', hmap⟩ := bareArena_slabMap g g.slabSize
  obtain ⟨G, hinv, hlive⟩ := slabCacheCreate_good g (fun _ => Slab.poisoned) ⟨id, id⟩ ⟨id, id⟩
  have hfresh : ∀ m, some g.slabSize = some m → FreshRegion g (newCache g).cache G m := by
    intro m hm
    cases hm
    exact (newCache_mapAnswer g).fresh hinv hlive
  rcases slabGetWithOrder_spec hinv (Nat.zero_le g.orderMax) hfresh with ⟨-, hnone, -⟩
    | ⟨a, c', G', hget, -⟩
  · cases hnone
  have hbilled : slabGetOrLarge g (newCache g).cache bareArena wholeQuota size (some g.slabSize) =
      some (some a, c', { bareArena with used := g.slabSize, mapped := [g.slabSize] }, quota') := by
    rw [slabGetOrLarge, horder]
    dsimp only
    rw [if_neg (by omega), slabGetWithOrderBilled, if_pos (newCache_maps g), hmap]
    change (slabGetWithOrder g (newCache g).cache 0 (some g.slabSize)).bind _ = _
    rw [show slabGetWithOrder g (newCache g).cache 0 (some g.slabSize) =
      some (some a, c') from hget]
    rfl
  -- the assertion at the end holds, because the call of the model without quotas returns
  have hchecked : slabGet g (newCache g).cache size (some g.slabSize) ≠ none := by
    have hans : ∀ m, some g.slabSize = some m →
        if g.slabOrder ((size + slabSizeof) % sizeMax) = g.orderMax + 1 then
          FreshLarge g (newCache g).cache G ((size + slabSizeof) % sizeMax) m
        else FreshRegion g (newCache g).cache G m := by
      intro m hm
      rw [if_neg (by omega)]
      exact hfresh m hm
    intro hnone
    rcases slabGet_spec hinv hans with heq | ⟨_, _, _, heq, -⟩ <;> cases hnone.symm.trans heq
  refine ⟨a, c', { bareArena with used := g.slabSize, mapped := [g.slabSize] }, quota', ?_⟩
  rw [slabGetBilled, hbilled]
  rw [slabGet_eq, horder, if_neg (by omega),
    show slabGetWithOrder g (newCache g).cache 0 (some g.slabSize) =
    some (some a, c') from hget] at hchecked
  by_cases hreal : (c'.slab a).size = g.slabRealSize size
  · simp [guard, hreal]
  · simp [guard, hreal] at hchecked

/-- **A slab is never smaller than requested** exactly for the sizes that can be represented
together with the header. -/
theorem slabs_suffice_iff (hgeo : mslabSizeof ≤ g.order0Size) (hsize : size < sizeMax) :
    SlabsSuffice g size ↔ size + slabSizeof < sizeMax := by
  constructor
  · intro h
    by_contra hnot
    obtain ⟨a, c', arena', quota', hget⟩ := slabGetBilled_wraps hgeo hsize (by omega)
    have hlarge := h.get (newCache g) (.init ⟨_, _, _, rfl⟩) _ _ _ _ _ _ _ hget
    cases (hlarge.rejected (by omega)).1
  · intro hfits
    exact {
            get := fun _ _ _ _ _ _ _ _ _ hget => slabGetBilled_largeEnough hfits hget
            getLarge := fun _ _ _ _ _ _ _ _ _ hget => slabGetLargeBilled_largeEnough hfits hget
            smalloc := fun _ hs _ ho heq => smalloc_largeEnough hgeo hfits hs ho heq }

/-- A page that is requested. -/
theorem slabs_suffice_iff_page : SlabsSuffice sixteenPages 4096 :=
  (slabs_suffice_iff (by decide) (by decide)).2 (by decide)

/-- A request of all but 32 bytes of the address space gets a slab of 16 bytes. -/
theorem slabGetLarge_wraps :
    (∃ c' arena' quota',
        slabGetLargeBilled fourPages (newCache fourPages).cache bareArena wholeQuota (2 ^ 64 - 32)
      (some 4096) = some (some 4096, c', arena', quota') ∧ (c'.slab 4096).size = 16) ∧
    ¬ SlabsSuffice fourPages (2 ^ 64 - 32) := by
  have hrun : (slabGetLargeBilled fourPages (newCache fourPages).cache bareArena wholeQuota
      (2 ^ 64 - 32)
      (some 4096)).map (fun r => (r.1, (r.2.1.slab 4096).size)) = some (some 4096, 16) := by
      decide +kernel
  obtain ⟨⟨slab, c', arena', quota'⟩, hget, hslab⟩ := Option.map_eq_some_iff.1 hrun
  obtain ⟨rfl, hsize⟩ := Prod.mk.inj hslab
  refine ⟨⟨c', arena', quota', hget, hsize⟩, fun h => ?_⟩
  have hlarge := (h.getLarge _ (.init ⟨_, _, _, rfl⟩) _ _ _ _ _ _ _ hget).capacity 4096 rfl
  rw [Slab.capacity, show (c'.slab 4096).size = 16 from hsize] at hlarge
  exact absurd hlarge (by decide)

end SmallAllocators
