/-
SmallAllocators.Small.Failure — runs in which the cache has no slab.

`smalloc` chooses a pool, and when neither the pool nor the cache has
memory it sweeps and asks the same pool again. The sweep may have
deactivated this pool: the object is then taken from an inactive pool and
charged as one of the pool that serves requests now, and when the retry
fails too, that other pool is not asked.
-/
import SmallAllocators.Small.Runs

namespace SmallAllocators

variable {g : Geometry} {s s' : SmallState} {size : Nat} {answer retry : Option Nat}

/-! ## Runs without a redirected request -/

def SmallOp.Redirected (s : SmallState) : SmallOp → Prop
  | .alloc size answer retry => s.Redirects size answer retry
  | .free _ => False
  | .write _ => False

/-- The allocator and its client, when no request is redirected. -/
def steadyMachine (g : Geometry) : Machine SmallState SmallOp where
  init := SmallState.Created g ptrSize
  allowed s op := op.Allowed g s ∧ ¬ op.Redirected s
  exec s op := op.exec g s

/-- Every waste is what the objects waste. -/
def SmallState.Exact (s : SmallState) : Prop :=
  ∀ p < s.alloc.smallMempoolCacheSize, (s.alloc.smallMempoolCache p).waste = owed s.alloc s.live p

theorem SmallState.Served.exact (hg : s.Good g) (he : s.Exact) (hsize : size ≤ s.alloc.objsizeMax)
    (hnot : ¬ s.Redirects size answer retry) (hserved : s.Served size answer retry s') :
    s'.Exact := by
  cases hserved with
  | full hans hret hfull hs hheap hlive =>
      intro p hp
      rw [hs.layout.cacheSize] at hp
      rw [hlive, hs.layout.owed, hs.waste]
      exact he p hp
  | object ptr alloc₁ hptr hsrc hmove hlive =>
      have hlay := hsrc.layout.trans hmove.layout
      intro p hp
      rw [hlay.cacheSize] at hp
      have hcharge := (charge_owedBy ptr hg.inv hsize hsrc p).2 hnot
      have hold := he p hp
      rw [hlive, hlay.owed, owed_cons, hmove.charged, hsrc.waste]
      omega

theorem SmallState.Step.exact {op : SmallOp} (hg : s.Good g) (he : s.Exact)
    (hnot : ¬ op.Redirected s) (hstep : s.Step op s') : s'.Exact := by
  cases hstep with
  | small hsize hserved => exact hserved.exact hg he hsize hnot
  | large hsize halloc hlive =>
      rcases hlive with rfl | ⟨ptr, hlive⟩
      · exact he
      · intro p hp
        rw [halloc] at hp
        rw [halloc, hlive, owed_cons, owedBy, smallMempoolSearch_of_lt hsize, if_neg (by simp),
          Nat.zero_add]
        exact he p hp
  | free ho hlive hf =>
      intro p hp
      rw [hf.layout.cacheSize] at hp
      have hold := he p hp
      have hsum := owed_erase s.alloc ho p
      have hwaste := hf.waste p hp
      rw [hlive, hf.layout.owed]
      omega
  | write halloc hlive =>
      intro p hp
      rw [halloc] at hp
      rw [halloc, hlive]
      exact he p hp

theorem SmallState.Created.exact (hgeo : mslabSizeof ≤ g.order0Size) (hs : s.Created g ptrSize) :
    s.Exact := by
  obtain ⟨orderOf, heap, alloc, objsizeMin, granularity, effectiveBits, hmin, hmin32, hgran, hex,
    hlive⟩ := hs
  have hptr : ptrSize = 8 := rfl
  obtain ⟨hready, -⟩ := smallAllocCreate_ready hgeo (by omega) hmin32 hgran hex
  intro p hp
  rw [hready.waste p hp, hlive]
  rfl

/-- An invariant of the calls that are not redirected. -/
theorem steady_invariant {P : SmallState → Prop} (hgeo : mslabSizeof ≤ g.order0Size)
    (hinit : ∀ s, s.Created g ptrSize → P s)
    (hstep : ∀ s op s', s.Good g → P s → ¬ op.Redirected s → s.Step op s' → P s')
    (hs : (steadyMachine g).Reachable s) : s.Good g ∧ P s := by
  refine ((steadyMachine g).invariant (P := fun s => s.Good g ∧ P s)
      (fun s hs => ⟨SmallState.Created.good hgeo hs, hinit s hs⟩)
    (fun s op hP hop => ?_) hs).1
  obtain ⟨s', hex, hg', hst⟩ := SmallOp.exec_good hP.1 op hop.1
  exact ⟨s', hex, hg', hstep s op s' hP.1 hP.2 hop.2 hst⟩

/-- **The waste of each pool is exact** in every run in which no request is redirected. -/
theorem small_waste_exact (hgeo : mslabSizeof ≤ g.order0Size) (hs : (steadyMachine g).Reachable s)
    (p : Nat) (hp : p < s.alloc.smallMempoolCacheSize) :
    (s.alloc.smallMempoolCache p).waste = owed s.alloc s.live p ∧
      ((∀ o ∈ s.live, smallMempoolSearch s.alloc o.size ≠ some p) →
        (s.alloc.smallMempoolCache p).waste = 0) := by
  have hexact := (steady_invariant hgeo (fun s hs => SmallState.Created.exact hgeo hs)
    (fun s op s' hg he hnot hst => hst.exact hg he hnot) hs).2 p hp
  refine ⟨hexact, fun hnone => ?_⟩
  rw [hexact, owed, List.sum_eq_zero]
  intro x hx
  obtain ⟨o, ho, rfl⟩ := List.mem_map.1 hx
  exact if_neg (hnone o ho)

instance (s : SmallState) (size : Nat) (answer retry : Option Nat) :
    Decidable (s.Redirects size answer retry) :=
  inferInstanceAs (Decidable (_ ∧ _ ∧ _ ∧ _ ∧ _))

/-- Whether a call is allowed and not redirected. -/
def SmallOp.steadyCheck (g : Geometry) (s : SmallState) : SmallOp → Bool
  | .alloc size answer retry =>
      decide (s.Answers g size answer retry) && !decide (s.Redirects size answer retry)
  | .free o => decide (o ∈ s.live)
  | .write _ => false

theorem SmallOp.steadyCheck_allowed (s : SmallState) (op : SmallOp)
    (hop : op.steadyCheck g s = true) :
    op.Allowed g s ∧ ¬ op.Redirected s := by
  cases op with
  | alloc size answer retry =>
      rw [SmallOp.steadyCheck, Bool.and_eq_true, decide_eq_true_eq, Bool.not_eq_true',
        decide_eq_false_iff_not] at hop
      exact hop
  | free o =>
      rw [SmallOp.steadyCheck, decide_eq_true_eq] at hop
      exact ⟨hop, fun h => h⟩
  | write mem => cases hop

theorem fourPools_steady {ops : List SmallOp} {s : SmallState}
    (hs : fourPools.bind ((steadyMachine sixteenPages).run
      (fun s op => op.steadyCheck sixteenPages s) ops) = some s) :
    (steadyMachine sixteenPages).Reachable s := by
  obtain ⟨s₀, hs₀, hrun⟩ := Option.bind_eq_some_iff.1 hs
  exact Machine.Reachable.run _ (fun s op hop => SmallOp.steadyCheck_allowed s op hop) ops
    (.init (fourPools_created hs₀)) hrun

theorem small_waste_exact_four :
    ∃ s, (steadyMachine sixteenPages).Reachable s ∧ (s.alloc.smallMempoolCache 0).waste = 3584 ∧
    (s.alloc.smallMempoolCache 0).waste = owed s.alloc s.live 0 := by
  have hrun : (fourPools.bind ((steadyMachine sixteenPages).run
      (fun s op => op.steadyCheck sixteenPages s) fiveObjects)).map
      (fun s => ((s.alloc.smallMempoolCache 0).waste, s.alloc.smallMempoolCacheSize)) =
      some (3584, 4) := by decide +kernel
  obtain ⟨s, hs, heq⟩ := Option.map_eq_some_iff.1 hrun
  rw [Prod.mk.injEq] at heq
  have hreach := fourPools_steady hs
  exact ⟨s, hreach, heq.1, (small_waste_exact (by decide) hreach 0 (by rw [heq.2]; decide)).1⟩

/-- The first pool has become active and has no slab yet. The sweep deactivates it, and then the
cache has a slab for it: the object is charged 3584 bytes, as if it were in the last pool. -/
def redirected : List SmallOp := fiveObjects ++ [.alloc 512 none (some 131072)]

theorem small_waste_redirected : ¬ ∀ s, (smallMachine sixteenPages ptrSize).Reachable s →
    ∀ p < s.alloc.smallMempoolCacheSize,
    (s.alloc.smallMempoolCache p).waste = owed s.alloc s.live p := by
  intro hall
  have hrun : (fourPools.bind ((smallMachine sixteenPages ptrSize).run
      (fun s op => op.check sixteenPages s) redirected)).map
      (fun s => ((s.alloc.smallMempoolCache 0).waste, owed s.alloc s.live 0,
        s.alloc.smallMempoolCacheSize))
        = some (7168, 3584, 4) := by decide +kernel
  obtain ⟨s, hs, heq⟩ := Option.map_eq_some_iff.1 hrun
  rw [Prod.mk.injEq, Prod.mk.injEq] at heq
  have hexact := hall s (fourPools_reachable hs) 0 (by rw [heq.2.2]; decide)
  rw [heq.1, heq.2.1] at hexact
  cases hexact

/-! ## Inactive pools -/

/-- Every pool has at least two objects in a slab. -/
def SmallState.Roomy (s : SmallState) : Prop :=
  ∀ p < s.alloc.smallMempoolCacheSize, 2 ≤ (s.alloc.pool p).objcount

/-- Inactive pools have no slab. -/
def SmallAlloc.Bare (alloc : SmallAlloc) : Prop :=
  ∀ p < alloc.smallMempoolCacheSize, ¬ alloc.Active p → (alloc.pool p).slabs = []

/-- A sweep takes the slab of each pool that it deactivates. -/
theorem SmallAlloc.Swept.bare {h : MslabHeap} {alloc alloc' : SmallAlloc}
    {live : List SmallObject} (hs : alloc.Swept h alloc.smallMempoolCacheSize
      (fun q => q < alloc.smallMempoolCacheSize) alloc')
    (hi : SmallInv g h alloc live)
    (hroom : ∀ p < alloc.smallMempoolCacheSize, 2 ≤ (alloc.pool p).objcount)
    (hbare : alloc.Bare) : alloc'.Bare := by
  intro p hp hna
  rw [hs.layout.cacheSize] at hp
  rw [hs.active p hp] at hna
  by_cases hcan : smallMempoolCanBeDeactivated alloc p = true
  · obtain ⟨cold, hinv⟩ := hi.pools p hp
    rw [mempoolCount_eq_zero hinv (smallMempoolCanBeDeactivated_iff.1 hcan).2.1] at hinv
    rw [hs.swept p hp hcan]
    exact (dropSpare_empty hinv (hroom p hp)).1
  · have hold : ¬ alloc.Active p := fun ha => hna ⟨ha, fun hd => hcan hd.2⟩
    rw [hs.kept p fun hd => hcan hd.2]
    exact hbare p hp hold

/-- The pool that an object is taken from is active, unless the request is redirected. -/
theorem SmallAlloc.Source.active {alloc₁ : SmallAlloc} (hi : SmallInv g s.heap s.alloc s.live)
    (hsize : size ≤ s.alloc.objsizeMax) (hnot : ¬ s.Redirects size answer retry)
    (hsrc : s.alloc.Source s.heap (s.alloc.poolFor size) answer retry alloc₁) :
    alloc₁.Active (s.alloc.poolFor size) := by
  have hactive : s.alloc.Active (s.alloc.poolFor size) :=
    (hi.usedAt _ (hi.search size hsize).1).used.active
  rcases hsrc with rfl | ⟨hs, hre⟩
  · exact hactive
  · refine (hs.active _ (hi.poolFor hsize).1).2 ⟨hactive, fun hd => ?_⟩
    obtain ⟨hnil, hans, hret⟩ := hre hd.2
    exact hnot ⟨hsize, hd.2, hnil, hans, hret⟩

theorem SmallState.Served.bare (hg : s.Good g) (hroom : s.Roomy) (hb : s.alloc.Bare)
    (hsize : size ≤ s.alloc.objsizeMax) (hnot : ¬ s.Redirects size answer retry)
    (hserved : s.Served size answer retry s') : s'.alloc.Bare := by
  cases hserved with
  | full hans hret hfull hs hheap hlive => exact hs.bare hg.inv hroom hb
  | object ptr alloc₁ hptr hsrc hmove hlive =>
      have hb₁ : alloc₁.Bare := by
        rcases hsrc with rfl | ⟨hs, -⟩
        · exact hb
        · exact hs.bare hg.inv hroom hb
      have hu := hsrc.active hg.inv hsize hnot
      have hlt := (hg.inv.poolFor hsize).1
      intro p hp hna
      rw [hmove.layout.cacheSize] at hp
      have hne : p ≠ s.alloc.poolFor size := by
        rintro rfl
        exact hna (hmove.active _ hp hu)
      rw [hmove.pool p hne]
      exact hb₁ p hp fun ha => hna (hmove.active p hp ha)

theorem SmallState.Step.bare {op : SmallOp} (hg : s.Good g) (hroom : s.Roomy) (hb : s.alloc.Bare)
    (hnot : ¬ op.Redirected s) (hstep : s.Step op s') : s'.alloc.Bare := by
  cases hstep with
  | small hsize hserved => exact hserved.bare hg hroom hb hsize hnot
  | large _ halloc _ => exact halloc.symm ▸ hb
  | free ho hlive hf =>
      intro p hp hna
      rw [hf.layout.cacheSize] at hp
      rw [hf.active] at hna
      have hnil := hb p hp hna
      exact List.eq_nil_iff_forall_not_mem.2 fun a ha => by
        have hold := hf.slabs p a ha
        rw [hnil] at hold
        cases hold
  | write halloc _ => exact halloc.symm ▸ hb

theorem SmallState.Served.layout (hserved : s.Served size answer retry s') :
    s.alloc.SameLayout s'.alloc := by
  cases hserved with
  | full _ _ _ hs _ _ => exact hs.layout
  | object _ _ _ hsrc hmove _ => exact hsrc.layout.trans hmove.layout

theorem SmallState.Step.layout {op : SmallOp} (hstep : s.Step op s') :
    s.alloc.SameLayout s'.alloc := by
  cases hstep with
  | small _ hserved => exact hserved.layout
  | large _ halloc _ => exact halloc ▸ .refl _
  | free _ _ hf => exact hf.layout
  | write halloc _ => exact halloc ▸ .refl _

theorem SmallState.Created.bare (hgeo : mslabSizeof ≤ g.order0Size) (hs : s.Created g ptrSize) :
    s.alloc.Bare := by
  obtain ⟨orderOf, heap, alloc, objsizeMin, granularity, effectiveBits, hmin, hmin32, hgran, hex,
    hlive⟩ := hs
  have hptr : ptrSize = 8 := rfl
  obtain ⟨hready, -⟩ := smallAllocCreate_ready hgeo (by omega) hmin32 hgran hex
  exact fun p hp _ => (hready.pools p hp).slabs

/-- **Inactive pools own no memory** in every run in which no request is redirected, when each
pool has at least two objects in a slab. -/
theorem small_inactive_pools_empty (hgeo : mslabSizeof ≤ g.order0Size)
    (hs : (steadyMachine g).Reachable s) (hroom : s.Roomy) (p : Nat)
    (hp : p < s.alloc.smallMempoolCacheSize) (hna : ¬ s.alloc.Active p) :
    (∀ o ∈ s.live, o.home ≠ some p) ∧ (s.alloc.pool p).slabs = [] ∧ (s.alloc.pool p).spare = 0 := by
  obtain ⟨hg, hb⟩ := steady_invariant (P := fun s => s.Roomy → s.alloc.Bare) hgeo
    (fun s hs _ => SmallState.Created.bare hgeo hs)
    (fun s op s' hg hb hnot hst hroom' => by
      have hroom : s.Roomy := fun p hp => by
        rw [← (hst.layout.config p).objcount]
        exact hroom' p (hst.layout.cacheSize.symm ▸ hp)
      exact hst.bare hg hroom (hb hroom) hnot) hs
  have hnil := hb hroom p hp hna
  obtain ⟨cold, hinv⟩ := hg.inv.pools p hp
  refine ⟨fun o ho hhome => ?_, hnil, ?_⟩
  · obtain ⟨a, ha, -⟩ := hg.inv.slot_of ho hhome
    rw [hnil] at ha
    cases ha
  · by_contra hne
    have hspare := (hinv.lists.spare hne).1
    rw [hnil] at hspare
    cases hspare

instance (s : SmallState) : Decidable s.Roomy :=
  inferInstanceAs (Decidable (∀ p < s.alloc.smallMempoolCacheSize, 2 ≤ (s.alloc.pool p).objcount))

instance (alloc : SmallAlloc) (p : Nat) : Decidable (alloc.Active p) :=
  inferInstanceAs (Decidable (_ = true))

theorem small_inactive_pools_empty_four :
    ∃ s, (steadyMachine sixteenPages).Reachable s ∧ ¬ s.alloc.Active 1 ∧
    (s.alloc.pool 1).slabs = [] := by
  have hrun : (fourPools.bind ((steadyMachine sixteenPages).run
      (fun s op => op.steadyCheck sixteenPages s) fiveObjects)).map
      (fun s => (s.alloc.smallMempoolCacheSize, decide (s.alloc.Active 1), decide s.Roomy)) =
      some (4, false, true) := by
    decide +kernel
  obtain ⟨s, hs, heq⟩ := Option.map_eq_some_iff.1 hrun
  rw [Prod.mk.injEq, Prod.mk.injEq, decide_eq_false_iff_not, decide_eq_true_eq] at heq
  obtain ⟨hsize, hna, hroom⟩ := heq
  have hreach := fourPools_steady hs
  exact ⟨s, hreach, hna,
    (small_inactive_pools_empty (by decide) hreach hroom 1 (by rw [hsize]; decide) hna).2.1⟩

theorem small_inactive_pool_redirected :
    ¬ ∀ s, (smallMachine sixteenPages ptrSize).Reachable s → s.Roomy →
    ∀ p < s.alloc.smallMempoolCacheSize, ¬ s.alloc.Active p →
      (∀ o ∈ s.live, o.home ≠ some p) ∧ (s.alloc.pool p).slabs = [] ∧
      (s.alloc.pool p).spare = 0 := by
  intro hall
  have hrun : (fourPools.bind ((smallMachine sixteenPages ptrSize).run
      (fun s op => op.check sixteenPages s) redirected)).map
      (fun s => (s.alloc.smallMempoolCacheSize, decide (s.alloc.Active 0), decide s.Roomy,
        (s.alloc.pool 0).slabs))
        = some (4, false, true, [131072]) := by decide +kernel
  obtain ⟨s, hs, heq⟩ := Option.map_eq_some_iff.1 hrun
  rw [Prod.mk.injEq, Prod.mk.injEq, Prod.mk.injEq, decide_eq_false_iff_not,
    decide_eq_true_eq] at heq
  obtain ⟨hsize, hna, hroom, hslabs⟩ := heq
  have hnil := (hall s (fourPools_reachable hs) hroom 0 (by rw [hsize]; decide) hna).2.1
  rw [hslabs] at hnil
  cases hnil

/-! ## `NULL` -/

/-- The pool `q` serves the requests of `p` after a sweep that deactivates `p`. -/
structure SmallAlloc.Next (alloc : SmallAlloc) (p q : Nat) : Prop where
  lt : p < q
  inGroup : alloc.InGroup p q
  active : alloc.Active q
  stays : smallMempoolCanBeDeactivated alloc q = false
  first : ∀ r, p < r → r < q → alloc.Active r → smallMempoolCanBeDeactivated alloc r = true

/-- A request fails, although the pool that serves the size after the sweep has a free slot. -/
def SmallState.Overlooks (s : SmallState) (size : Nat) (answer retry : Option Nat) : Prop :=
  answer = none ∧ retry = none ∧
  smallMempoolCanBeDeactivated s.alloc (s.alloc.poolFor size) = true ∧
    (s.alloc.pool (s.alloc.poolFor size)).slabs = [] ∧
    ∃ q, s.alloc.Next (s.alloc.poolFor size) q ∧ ∃ a ∈ (s.alloc.pool q).slabs,
    (s.heap.mslab a).nfree ≠ 0

/-- What `smalloc` has to leave behind when it returns `NULL`. -/
structure SmallState.OutOfMemory (g : Geometry) (s : SmallState) (size : Nat)
    (answer retry : Option Nat) (h' : MslabHeap) (alloc' : SmallAlloc) : Prop where
  /-- The pool that serves the size is full. -/
  full : ∀ a ∈ (alloc'.pool (alloc'.poolFor size)).slabs, (h'.mslab a).nfree = 0
  /-- The cache refused slabs of the order of this pool. -/
  refused : answer = none ∧ retry = none
  order : (alloc'.pool (alloc'.poolFor size)).slabOrder =
    (s.alloc.pool (s.alloc.poolFor size)).slabOrder
  /-- The same request fails again, as long as the cache has no slab. -/
  again : ∃ h'' alloc'', smalloc g h' alloc' size none none = some (0, h'', alloc'')
  heap : h' = s.heap
  used : ∀ p < s.alloc.smallMempoolCacheSize, (alloc'.pool p).stats.used =
    (s.alloc.pool p).stats.used
  waste : ∀ p < s.alloc.smallMempoolCacheSize, (alloc'.smallMempoolCache p).waste =
    (s.alloc.smallMempoolCache p).waste

section Null

variable {h : MslabHeap} {alloc alloc' : SmallAlloc} {live : List SmallObject} {p q : Nat}

theorem SmallAlloc.Swept.slabs {done : Nat → Prop} {n : Nat} (hs : alloc.Swept h n done alloc')
    {a : Nat} (ha : a ∈ (alloc'.pool q).slabs) : a ∈ (alloc.pool q).slabs := by
  by_cases hd : done q ∧ smallMempoolCanBeDeactivated alloc q = true
  · rw [hs.swept q hd.1 hd.2] at ha
    exact dropSpare_slabs ha
  · rwa [hs.kept q hd] at ha

theorem SmallAlloc.Swept.used {done : Nat → Prop} {n : Nat} (hs : alloc.Swept h n done alloc')
    (q : Nat) :
    (alloc'.pool q).stats.used = (alloc.pool q).stats.used := by
  by_cases hd : done q ∧ smallMempoolCanBeDeactivated alloc q = true
  · rw [hs.swept q hd.1 hd.2, dropSpare_used]
  · rw [hs.kept q hd]

/-- A request fails when the pool that serves it is full and the cache has no slab. -/
theorem smalloc_full (hi : SmallInv g h alloc live) (hsize : size ≤ alloc.objsizeMax)
    (hfull : ∀ a ∈ (alloc.pool (alloc.poolFor size)).slabs, (h.mslab a).nfree = 0) :
    ∃ alloc', smalloc g h alloc size none none = some (0, h, alloc') := by
  obtain ⟨hlt, -, -, hfit⟩ := hi.poolFor hsize
  obtain ⟨alloc₁, hsweep, hs⟩ := smallMempoolGroupSweepSparse_spec (h := h) hi.grouped hi.usedAt
  obtain ⟨cold, hinv⟩ := hi.pools _ hlt
  obtain ⟨cold₁, hinv₁⟩ := (hi.swept hs).pools _ (hs.layout.cacheSize.symm ▸ hlt)
  have h₁ := mempoolAlloc_full hinv hfull
  have h₂ := mempoolAlloc_full hinv₁ fun a ha => hfull a (hs.slabs ha)
  have hretry : smallocRetry g h alloc (alloc.poolFor size) none = some (0, h, alloc₁) := by
    simp [smallocRetry, hsweep, h₂, SmallAlloc.setPool_self]
  have htry : smallocTry g h alloc (alloc.poolFor size) none none = some (0, h, alloc₁) := by
    simp [smallocTry, h₁, SmallAlloc.setPool_self, hretry]
  refine ⟨alloc₁, ?_⟩
  rw [smalloc, smallMempoolSearch_of_le hsize]
  rw [SmallAlloc.poolFor] at htry hfit
  simp [smallocFromPool, guard, hfit, htry]

/-- Only one pool is the next one. -/
theorem SmallAlloc.Next.unique {q' : Nat} (hq : alloc.Next p q) (hq' : alloc.Next p q') :
    q = q' := by
  rcases Nat.lt_trichotomy q q' with hlt | heq | hgt
  · have := hq'.first q hq.lt hlt hq.active
    rw [hq.stays] at this
    cases this
  · exact heq
  · have := hq.first q' hq'.lt hgt hq'.active
    rw [hq'.stays] at this
    cases this

/-- The pool that serves a size after a sweep. -/
theorem SmallAlloc.Swept.next
    (hs : alloc.Swept h alloc.smallMempoolCacheSize
      (fun q => q < alloc.smallMempoolCacheSize) alloc')
    (hi : SmallInv g h alloc live) (hsize : size ≤ alloc.objsizeMax)
    (hcan : smallMempoolCanBeDeactivated alloc (alloc.poolFor size) = true) :
    alloc.Next (alloc.poolFor size) (alloc'.poolFor size) := by
  have hc := (hi.search size hsize).1
  obtain ⟨hlt, hin, hcle, -⟩ := hi.poolFor hsize
  have hnew := (hs.usedAt _ hc).used
  obtain ⟨hle, hlt'⟩ := hs.used_le hi.grouped hi.usedAt hc
  rw [SmallAlloc.poolFor, SmallAlloc.poolFor, hs.layout.classOf] at *
  generalize (alloc'.smallMempoolCache (alloc.classOf size)).usedPool = q at *
  obtain ⟨hactive, hnot⟩ := (hs.active q hlt').1 hnew.active
  have hstays : smallMempoolCanBeDeactivated alloc q = false := by
    rw [Bool.eq_false_iff]
    exact fun h => hnot ⟨hlt', h⟩
  have hne : (alloc.smallMempoolCache (alloc.classOf size)).usedPool ≠ q := by
    intro he
    rw [he, hstays] at hcan
    cases hcan
  have hgroup := hi.grouped.group_eq hc hin
  have hlast := hnew.last
  rw [hs.layout.last] at hlast
  refine ⟨Nat.lt_of_le_of_ne hle hne, ?_, hactive, hstays, fun r h1 h2 hr => ?_⟩
  · rw [SmallAlloc.InGroup, hgroup]
    exact ⟨Nat.le_trans hin.1 hle, hlast⟩
  · by_contra hno
    exact hnew.lowest r (by omega) h2 ((hs.active r (by omega)).2 ⟨hr, fun hd => hno hd.2⟩)

end Null

/-- **`smalloc` returns `NULL` only when it is out of memory**, unless the sweep deactivated the
pool that was asked and the pool behind it has a free slot. -/
theorem small_null_out_of_memory (hgeo : mslabSizeof ≤ g.order0Size)
    (hs : (smallMachine g ptrSize).Reachable s) (hsize : size ≤ s.alloc.objsizeMax)
    (hop : s.Answers g size answer retry) :
    (∀ h' alloc', smalloc g s.heap s.alloc size answer retry = some (0, h', alloc') →
      s.OutOfMemory g size answer retry h' alloc') ↔ ¬ s.Overlooks size answer retry := by
  obtain ⟨hg, -⟩ := SmallState.reachable_good hgeo hs
  rw [SmallState.Answers, if_pos hsize] at hop
  have hc := (hg.inv.search size hsize).1
  constructor
  · rintro hall ⟨rfl, rfl, hcan, hnil, q, hnext, a, ha, hfree⟩
    rcases smalloc_spec hg.inv hg.thrifty hsize hop.1 hop.2 with
      ⟨alloc', hrun, -, -, -, hsw⟩ | ⟨ptr, h', alloc₁, alloc', hrun, hptr, -⟩
    · have hq := hnext.unique (hsw.next hg.inv hsize hcan)
      subst hq
      refine hfree ((hall _ _ hrun).full a ?_)
      rw [hsw.kept _ fun hd => by rw [hnext.stays] at hd; cases hd.2]
      exact ha
    · obtain ⟨alloc'', hnull⟩ := smalloc_full hg.inv hsize (by rw [hnil]; simp)
      rw [hrun, Option.some.injEq, Prod.mk.injEq] at hnull
      exact absurd hnull.1 hptr
  · intro hnot h' alloc' hrun
    rcases smalloc_spec hg.inv hg.thrifty hsize hop.1 hop.2 with
      ⟨alloc₁, hrun₁, hans, hret, hfull, hsw⟩ | ⟨ptr, h₁, alloc₁, alloc₂, hrun₁, hptr, -⟩
    · rw [hrun, Option.some.injEq, Prod.mk.injEq, Prod.mk.injEq] at hrun₁
      obtain ⟨-, rfl, rfl⟩ := hrun₁
      have hi' := hg.inv.swept hsw
      have hsize' : size ≤ alloc'.objsizeMax := hsw.layout.objsizeMax.symm ▸ hsize
      have hfull' :
          ∀ a ∈ (alloc'.pool (alloc'.poolFor size)).slabs, (s.heap.mslab a).nfree = 0 := by
        intro a ha
        by_cases hcan : smallMempoolCanBeDeactivated s.alloc (s.alloc.poolFor size) = true
        · by_contra hfree
          exact hnot ⟨hans, hret, hcan, hg.inv.slabs_nil (hg.inv.poolFor hsize).1 hcan hfull, _,
            hsw.next hg.inv hsize hcan, a, hsw.slabs ha, hfree⟩
        · have heq : alloc'.poolFor size = s.alloc.poolFor size := by
            rw [SmallAlloc.poolFor, SmallAlloc.poolFor, hsw.layout.classOf]
            exact hsw.used_eq hg.inv.grouped hg.inv.usedAt hc (Bool.eq_false_iff.2 hcan)
          rw [heq] at ha
          exact hfull a (hsw.slabs ha)
      obtain ⟨alloc'', hagain⟩ := smalloc_full hi' hsize' hfull'
      refine ⟨hfull', ⟨hans, hret⟩, ?_, ⟨_, _, hagain⟩, rfl, fun p _ => hsw.used p, fun p _ =>
        hsw.waste p⟩
      -- both pools are in the group of the size
      obtain ⟨-, hin, -, -⟩ := hg.inv.poolFor hsize
      obtain ⟨-, hin', -, -⟩ := hi'.poolFor hsize'
      rw [hsw.layout.classOf, hsw.layout.inGroup] at hin'
      rw [(hsw.layout.config _).slabOrder, (hg.inv.grouped.same _ hc _ hin').2,
        (hg.inv.grouped.same _ hc _ hin).2]
    · rw [hrun, Option.some.injEq, Prod.mk.injEq] at hrun₁
      exact absurd hrun₁.1.symm hptr

theorem small_null_out_of_memory_four : ∃ s, (smallMachine sixteenPages ptrSize).Reachable s ∧
    s.Answers sixteenPages 512 none none ∧ ¬ s.Overlooks 512 none none ∧
    ∀ h' alloc', smalloc sixteenPages s.heap s.alloc 512 none none = some (0, h', alloc') →
      s.OutOfMemory sixteenPages 512 none none h' alloc' := by
  -- the new allocator has no slab, and its last pool serves all sizes
  have hrun : fourPools.map
      (fun s => (decide (512 ≤ s.alloc.objsizeMax), decide (s.Answers sixteenPages 512 none none),
      smallMempoolCanBeDeactivated s.alloc (s.alloc.poolFor 512))) =
      some (true, true, false) := by decide +kernel
  obtain ⟨s, hs, heq⟩ := Option.map_eq_some_iff.1 hrun
  rw [Prod.mk.injEq, Prod.mk.injEq, decide_eq_true_eq, decide_eq_true_eq] at heq
  obtain ⟨hsize, hans, hcan⟩ := heq
  have hreach : (smallMachine sixteenPages ptrSize).Reachable s := .init (fourPools_created hs)
  have hnot : ¬ s.Overlooks 512 none none := by
    rintro ⟨-, -, h, -⟩
    rw [hcan] at h
    cases h
  exact ⟨s, hreach, hans, hnot, (small_null_out_of_memory (by decide) hreach hsize hans).2 hnot⟩

/-- The request after `fiveObjects` fails, although the last pool, which serves the size then,
has free slots. -/
theorem small_null_overlooks :
    ¬ ∀ s, (smallMachine sixteenPages ptrSize).Reachable s → ∀ size ≤ s.alloc.objsizeMax,
    ∀ answer retry, s.Answers sixteenPages size answer retry → ∀ h' alloc',
      smalloc sixteenPages s.heap s.alloc size answer retry = some (0, h', alloc') →
        s.OutOfMemory sixteenPages size answer retry h' alloc' := by
  intro hall
  have hrun : (fourPools.bind ((smallMachine sixteenPages ptrSize).run
      (fun s op => op.check sixteenPages s) fiveObjects)).map
      (fun s => (decide (512 ≤ s.alloc.objsizeMax), decide (s.Answers sixteenPages 512 none none),
        (smalloc sixteenPages s.heap s.alloc 512 none none).map
          fun r => decide (r.1 = 0 ∧ 65536 ∈ (r.2.2.pool (r.2.2.poolFor 512)).slabs ∧
            (r.2.1.mslab 65536).nfree = 14)))
        = some (true, true, some true) := by decide +kernel
  obtain ⟨s, hs, heq⟩ := Option.map_eq_some_iff.1 hrun
  rw [Prod.mk.injEq, Prod.mk.injEq, decide_eq_true_eq, decide_eq_true_eq] at heq
  obtain ⟨hsize, hans, hnull⟩ := heq
  obtain ⟨⟨ptr, h', alloc'⟩, hex, heq⟩ := Option.map_eq_some_iff.1 hnull
  rw [decide_eq_true_eq] at heq
  obtain ⟨rfl, hslab, hfree⟩ := heq
  have hfull :=
    (hall s (fourPools_reachable hs) 512 hsize none none hans h' alloc' hex).full 65536 hslab
  rw [hfree] at hfull
  cases hfull

end SmallAllocators
