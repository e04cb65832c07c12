/-
SmallAllocators.Shared.Runs — the quota over runs of all allocators.

The invariant adds up what the caches and the regions hold: this is the
memory in use, and the quota is billed for it. A call changes what one of
them holds and leaves the rest alone, so that each case of the step lemma is
a spec of `Shared.Caches` or `Shared.Regions` beside the rest.
-/
import SmallAllocators.Shared.Caches
import SmallAllocators.Shared.Regions
import SmallAllocators.SlabArena.Runs

namespace SmallAllocators

open Finset

section Invariant

variable {ι κ ρ : Type} [DecidableEq ι] (S : Setup ι κ ρ) (s : SharedState ι κ ρ)

/-! ## The memory in use -/

/-- The memory of the cache `k`, if there is one. -/
def Setup.cacheHolding (k : κ) (st : Option SlabState) : Holding ι :=
  match st with
  | none => 0
  | some st => st.holding (S.cacheArena k) (S.geometry k)

/-- The memory of the region `r`, if there is one. -/
def Setup.regionHolding (r : ρ) (region : Option Lsregion) : Holding ι :=
  match region with
  | none => 0
  | some region => region.holding (S.regionArena r) (S.regionSize r)

variable [Fintype κ] [Fintype ρ]

/-- What all of them hold. -/
def SharedState.inUse : Holding ι :=
  ∑ k, S.cacheHolding k (s.cache k) + ∑ r, S.regionHolding r (s.region r)

/-- The invariant. -/
structure SharedState.Inv [Fintype ι] : Prop where
  backing : s.backing.Inv S.arena (s.inUse S)
  cache : ∀ k st, s.cache k = some st → st.Good (S.geometry k)
  region : ∀ r region, s.region r = some region → region.Good (S.regionSize r)

variable {S s} {k : κ} {r : ρ} {b : Backing ι}

/-- The memory of a cache, and the rest. -/
theorem SharedState.inUse_cache [DecidableEq κ] (S : Setup ι κ ρ) (s : SharedState ι κ ρ) (k : κ) :
    ∃ H, s.inUse S = S.cacheHolding k (s.cache k) + H ∧
      ∀ st b, (s.setCache k st b).inUse S = S.cacheHolding k st + H := by
  refine ⟨∑ k' ∈ univ.erase k,
    S.cacheHolding k' (s.cache k') + ∑ r, S.regionHolding r (s.region r), ?_, fun st b => ?_⟩
  · rw [SharedState.inUse, ← add_sum_erase univ _ (mem_univ k), add_assoc]
  · have hrest : ∑ k' ∈ univ.erase k, S.cacheHolding k' (Function.update s.cache k st k') =
        ∑ k' ∈ univ.erase k, S.cacheHolding k' (s.cache k') :=
      sum_congr rfl fun k' hk' => by rw [Function.update_of_ne (ne_of_mem_erase hk')]
    show ∑ k', S.cacheHolding k' (Function.update s.cache k st k') + ∑ r, S.regionHolding r
      (s.region r) = _
    rw [← add_sum_erase univ _ (mem_univ k), hrest, Function.update_self, add_assoc]

/-- The memory of a region, and the rest. -/
theorem SharedState.inUse_region [DecidableEq ρ] (S : Setup ι κ ρ) (s : SharedState ι κ ρ) (r : ρ) :
    ∃ H, s.inUse S = S.regionHolding r (s.region r) + H ∧
      ∀ region b, (s.setRegion r region b).inUse S = S.regionHolding r region + H := by
  refine ⟨∑ k, S.cacheHolding k (s.cache k) +
    ∑ r' ∈ univ.erase r, S.regionHolding r' (s.region r'), ?_, fun region b => ?_⟩
  · rw [SharedState.inUse, ← add_sum_erase univ _ (mem_univ r), add_left_comm]
  · have hrest : ∑ r' ∈ univ.erase r, S.regionHolding r' (Function.update s.region r region r') =
        ∑ r' ∈ univ.erase r, S.regionHolding r' (s.region r') :=
      sum_congr rfl fun r' hr' => by rw [Function.update_of_ne (ne_of_mem_erase hr')]
    show ∑ k, S.cacheHolding k (s.cache k) + ∑ r', S.regionHolding r'
      (Function.update s.region r region r') = _
    rw [← add_sum_erase univ _ (mem_univ r), hrest, Function.update_self, add_left_comm]

omit [DecidableEq ι] [Fintype κ] [Fintype ρ] in
theorem SharedState.setCache_cache [DecidableEq κ] (s : SharedState ι κ ρ) (k k' : κ)
    (st : Option SlabState) (b : Backing ι) :
    (s.setCache k st b).cache k' = Function.update s.cache k st k' := rfl

omit [DecidableEq ι] [Fintype κ] [Fintype ρ] in
theorem SharedState.setRegion_region [DecidableEq ρ] (s : SharedState ι κ ρ) (r r' : ρ)
    (region : Option Lsregion) (b : Backing ι) :
    (s.setRegion r region b).region r' = Function.update s.region r region r' := rfl

variable [Fintype ι]

/-- The cache `k` and the memory change, beside the rest. -/
theorem SharedState.Inv.setCache [DecidableEq κ] (h : s.Inv S) {H : Holding ι}
    {st : Option SlabState} (hin : (s.setCache k st b).inUse S = S.cacheHolding k st + H)
    (hgood : ∀ st', st = some st' → st'.Good (S.geometry k))
    (hinv : b.Inv S.arena (S.cacheHolding k st + H)) : (s.setCache k st b).Inv S where
  backing := by
    rw [hin]
    exact hinv
  cache := by
    intro k' st' hst'
    by_cases hk : k' = k
    · subst hk
      refine hgood st' ?_
      rwa [SharedState.setCache_cache, Function.update_self] at hst'
    · refine h.cache k' st' ?_
      rwa [SharedState.setCache_cache, Function.update_of_ne hk] at hst'
  region := h.region

/-- The region `r` and the memory change, beside the rest. -/
theorem SharedState.Inv.setRegion [DecidableEq ρ] (h : s.Inv S) {H : Holding ι}
    {region : Option Lsregion}
    (hin : (s.setRegion r region b).inUse S = S.regionHolding r region + H)
    (hgood : ∀ region', region = some region' → region'.Good (S.regionSize r))
    (hinv : b.Inv S.arena (S.regionHolding r region + H)) : (s.setRegion r region b).Inv S where
  backing := by
    rw [hin]
    exact hinv
  cache := h.cache
  region := by
    intro r' region' hregion'
    by_cases hr : r' = r
    · subst hr
      refine hgood region' ?_
      rwa [SharedState.setRegion_region, Function.update_self] at hregion'
    · refine h.region r' region' ?_
      rwa [SharedState.setRegion_region, Function.update_of_ne hr] at hregion'

end Invariant

/-! ## Every call keeps the invariant -/

section Step

variable {ι κ ρ : Type} [DecidableEq ι] [DecidableEq κ] [DecidableEq ρ] [Fintype ι] [Fintype κ]
    [Fintype ρ]
  {S : Setup ι κ ρ} {s s' : SharedState ι κ ρ} {k : κ} {r : ρ} {ret : Returned}

/-- What a call that returned `ret` leaves behind: `NULL` means that the memory is as it was. -/
structure SharedState.Kept (S : Setup ι κ ρ) (s : SharedState ι κ ρ) (ret : Returned)
    (s' : SharedState ι κ ρ) : Prop where
  inv : s'.Inv S
  null : ret = .null → s'.backing = s.backing

omit [DecidableEq ρ] in
/-- A call of the cache `k` that gets a slab. -/
theorem SharedState.Inv.gives (h : s.Inv S) {st st' : SlabState} {slab : Option Nat} {b : Backing ι}
    (hst : s.cache k = some st)
    (hgives : ∀ H, s.backing.Inv S.arena (st.holding (S.cacheArena k) (S.geometry k) + H) →
      Backing.Gives S.arena (S.cacheArena k) (S.geometry k) H s.backing slab st' b) :
    SharedState.Kept S s (.of slab) (s.setCache k (some st') b) := by
  obtain ⟨H, hold, hnew⟩ := s.inUse_cache S k
  have hbacking := h.backing
  rw [hold, hst] at hbacking
  have hg := hgives H hbacking
  refine ⟨h.setCache (hnew _ b) ?_ hg.inv, fun hnull => hg.null ?_⟩
  · rintro _ ⟨⟩
    exact hg.good
  · cases slab with
    | none => rfl
    | some a => cases hnull

theorem SharedState.Inv.get (h : s.Inv S) {size : Nat} {answer : Option Nat}
    (hop : (SharedOp.get k size answer).Allowed S s)
    (hcall : (SharedOp.get k size answer).call S s = some (ret, s')) :
    SharedState.Kept S s ret s' := by
  obtain ⟨st, hst, hcall⟩ := Option.bind_eq_some_iff.1 hcall
  obtain ⟨⟨slab, cache, b⟩, hget, hcall⟩ := Option.bind_eq_some_iff.1 hcall
  cases hcall
  exact h.gives hst fun H hinv => hinv.get (h.cache k st hst) (S.slabSize_eq k) hop.1 hop.2 hget

theorem SharedState.Inv.getLarge (h : s.Inv S) {size : Nat} {answer : Option Nat}
    (hop : (SharedOp.getLarge k size answer).Allowed S s)
    (hcall : (SharedOp.getLarge k size answer).call S s = some (ret, s')) :
    SharedState.Kept S s ret s' := by
  obtain ⟨st, hst, hcall⟩ := Option.bind_eq_some_iff.1 hcall
  obtain ⟨⟨slab, cache, b⟩, hget, hcall⟩ := Option.bind_eq_some_iff.1 hcall
  cases hcall
  obtain ⟨⟨answer', b₁⟩, hmalloc, hget⟩ := Option.bind_eq_some_iff.1 hget
  have hmod : (size + slabSizeof) % sizeMax = size + slabSizeof :=
    Nat.mod_eq_of_lt (Nat.lt_trans hop.1 (by decide))
  rw [hmod] at hmalloc
  cases hget
  exact h.gives hst fun H hinv => hinv.getLarge (h.cache k st hst) (S.slabSize_eq k) hop.1
    (fun a ha => (hop.2 a ha).1 trivial) hmalloc rfl

/-- A slab that a client has is put back. -/
theorem SharedState.Inv.put (h : s.Inv S) {st : SlabState} {a : Nat} (hst : s.cache k = some st)
    (ha : a ∈ st.live) :
    ∃ s', (SharedOp.put k a).call S s = some (.void, s') ∧ SharedState.Kept S s .void s' := by
  obtain ⟨H, hold, hnew⟩ := s.inUse_cache S k
  have hbacking := h.backing
  rw [hold, hst] at hbacking
  obtain ⟨cache, b, hput, hgood, hinv⟩ := Backing.Inv.put hbacking (h.cache k st hst) ha
  refine ⟨s.setCache k (some { cache := cache, live := st.live.erase a }) b, ?_,
    h.setCache (hnew _ b) ?_ hinv, fun h => by cases h⟩
  · simp only [SharedOp.call, hst, Option.bind_eq_bind, Option.bind_some, hput]
  · rintro _ ⟨⟩
    exact hgood

/-- The destruction of a cache that ends gives back all that it has, and it ends. -/
theorem SharedState.Inv.cacheDestroy (h : s.Inv S) {st : SlabState} (hst : s.cache k = some st) :
    ∃ s', SharedState.Kept S s .void s' ∧
      (∀ fuel ret s'', (SharedOp.cacheDestroy k fuel).call S s = some (ret, s'') →
        ret = .void ∧ s'' = s') ∧
      ∃ n, ∀ fuel, n < fuel → (SharedOp.cacheDestroy k fuel).call S s = some (.void, s') := by
  obtain ⟨H, hold, hnew⟩ := s.inUse_cache S k
  have hbacking := h.backing
  rw [hold, hst] at hbacking
  obtain ⟨b, hinv, honly, n, hends⟩ := Backing.Inv.cacheDestroy hbacking (h.cache k st hst)
  refine ⟨s.setCache k none b, ⟨h.setCache (hnew none b) (fun _ h => by cases h) ?_, fun h => by
    cases h⟩, fun fuel ret s'' hcall => ?_, n, fun fuel hfuel => ?_⟩
  · rw [Setup.cacheHolding, zero_add]
    exact hinv
  · simp only [SharedOp.call, hst, Option.bind_eq_bind, Option.bind_some] at hcall
    obtain ⟨b', hdestroy, hcall⟩ := Option.bind_eq_some_iff.1 hcall
    cases hcall
    rw [honly fuel b' hdestroy]
    exact ⟨rfl, rfl⟩
  · simp only [SharedOp.call, hst, Option.bind_eq_bind, Option.bind_some, hends fuel hfuel]

/-- A client writes to its slab. -/
theorem SharedState.Inv.write (h : s.Inv S) {a : Nat} {mem : SlabCache}
    (hop : (SharedOp.write k a mem).Allowed S s)
    (hcall : (SharedOp.write k a mem).call S s = some (ret, s')) :
    SharedState.Kept S s ret s' := by
  obtain ⟨st, hst, hcall⟩ := Option.bind_eq_some_iff.1 hcall
  cases hcall
  obtain ⟨H, hold, hnew⟩ := s.inUse_cache S k
  have hbacking := h.backing
  have hgood := h.cache k st hst
  have ha := hop st hst
  rw [hold, hst, Setup.cacheHolding, ← hgood.write_holding ha mem] at hbacking
  refine ⟨h.setCache (hnew _ _) ?_ hbacking, fun h => by cases h⟩
  rintro _ ⟨⟩
  exact hgood.write ha mem

theorem SharedState.Inv.cacheCreate (h : s.Inv S) {slab : Nat → Slab}
    {inCache inList : Links SlabNode}
    (hop : (SharedOp.cacheCreate k slab inCache inList).Allowed S s)
    (hcall : (SharedOp.cacheCreate k slab inCache inList).call S s = some (ret, s')) :
    SharedState.Kept S s ret s' := by
  cases hcall
  obtain ⟨H, hold, hnew⟩ := s.inUse_cache S k
  have hbacking := h.backing
  rw [hold, show s.cache k = none from hop, Setup.cacheHolding, zero_add] at hbacking
  refine ⟨h.setCache (hnew _ _) ?_ ?_, fun h => by cases h⟩
  · rintro _ ⟨⟩
    exact slabCacheCreate_good _ _ _ _
  · -- a new cache has nothing
    have hempty : S.cacheHolding k
        (some { cache := slabCacheCreate (S.geometry k) slab inCache inList, live := ∅ }) = 0 := by
      have hlarge : SlabState.large (S.geometry k)
          { cache := slabCacheCreate (S.geometry k) slab inCache inList, live := ∅ } = ∅ :=
          filter_empty _
      rw [Setup.cacheHolding, SlabState.holding, SlabState.blocks, hlarge]
      simp [slabCacheCreate, SlabCache.mapped]
    rw [hempty, zero_add]
    exact hbacking

/-! ## Regions -/

theorem SharedState.Inv.regionCreate (h : s.Inv S)
    (hop : (SharedOp.regionCreate r : SharedOp κ ρ).Allowed S s)
    (hcall : (SharedOp.regionCreate r : SharedOp κ ρ).call S s = some (ret, s')) :
    SharedState.Kept S s ret s' := by
  obtain ⟨region, hcreate, hcall⟩ := Option.bind_eq_some_iff.1 hcall
  cases hcall
  obtain ⟨hgood, hblocks⟩ := lsregionCreate_good hcreate
  obtain ⟨H, hold, hnew⟩ := s.inUse_region S r
  have hbacking := h.backing
  rw [hold, show s.region r = none from hop, Setup.regionHolding, zero_add] at hbacking
  refine ⟨h.setRegion (hnew _ _) ?_ ?_, fun h => by cases h⟩
  · rintro _ ⟨⟩
    exact hgood
  · rw [Setup.regionHolding, Lsregion.holding, hblocks, List.map_nil, List.sum_nil, zero_add]
    exact hbacking

omit [DecidableEq κ] in
/-- A call of the region `r` that reserves memory. -/
theorem SharedState.Inv.withReservation (h : s.Inv S) {region : Lsregion} {size alignment : Nat}
    {answer : Option Nat} {call : Option Nat → Option (Option Reservation × Lsregion)}
    (hregion : s.region r = some region) (hop : s.Reserves S r size alignment answer)
    (hreserves : ∀ answer res region', call answer = some (res, region') →
      region.Reserves (S.regionSize r) size alignment answer res region')
    (hcall : s.withReservation S r region size alignment answer call = some (ret, s')) :
    SharedState.Kept S s ret s' := by
  obtain ⟨⟨answer', b⟩, hmemory, hcall⟩ := Option.bind_eq_some_iff.1 hcall
  obtain ⟨⟨res, region'⟩, hres, hcall⟩ := Option.bind_eq_some_iff.1 hcall
  cases hcall
  obtain ⟨H, hold, hnew⟩ := s.inUse_region S r
  have hbacking := h.backing
  rw [hold, hregion] at hbacking
  obtain ⟨hgood, hinv, hnull⟩ :=
    Backing.Inv.reserve hbacking (h.region r region hregion) hop.1 hop.2 hmemory
    (hreserves answer' res region' hres)
  refine ⟨h.setRegion (hnew _ b) ?_ hinv, fun hret => hnull ?_⟩
  · rintro _ ⟨⟩
    exact hgood
  · cases res with
    | none => rfl
    | some res => cases hret

/-- `lsregion_gc` returns. -/
theorem SharedState.Inv.gc (h : s.Inv S) {region : Lsregion} (hregion : s.region r = some region)
    (minId : Int) :
    ∃ s', (SharedOp.gc r minId : SharedOp κ ρ).call S s = some (.void, s') ∧
      SharedState.Kept S s .void s' := by
  obtain ⟨H, hold, hnew⟩ := s.inUse_region S r
  have hbacking := h.backing
  rw [hold, hregion] at hbacking
  obtain ⟨b, hgc, hgood, hinv⟩ := Backing.Inv.gc hbacking (h.region r region hregion) minId
  refine ⟨s.setRegion r (some (lsregionGc (S.regionSize r) region minId)) b, ?_,
    h.setRegion (hnew _ b) ?_ hinv, fun h => by cases h⟩
  · simp only [SharedOp.call, hregion, Option.bind_eq_bind, Option.bind_some, hgc]
    rfl
  · rintro _ ⟨⟩
    exact hgood

/-- `lsregion_destroy` gives back all that the region has. -/
theorem SharedState.Inv.regionDestroy (h : s.Inv S) {region : Lsregion}
    (hregion : s.region r = some region) :
    ∃ s', (SharedOp.regionDestroy r : SharedOp κ ρ).call S s = some (.void, s') ∧
      SharedState.Kept S s .void s' := by
  obtain ⟨H, hold, hnew⟩ := s.inUse_region S r
  have hbacking := h.backing
  rw [hold, hregion] at hbacking
  obtain ⟨b, hdestroy, hinv⟩ := Backing.Inv.regionDestroy hbacking (h.region r region hregion)
  refine ⟨s.setRegion r none b, ?_, h.setRegion (hnew none b) (fun _ h => by cases h) ?_, fun h =>
    by cases h⟩
  · simp only [SharedOp.call, hregion, Option.bind_eq_bind, Option.bind_some, hdestroy]
  · rw [Setup.regionHolding, zero_add]
    exact hinv

/-- Every call that returns keeps the invariant, and one that returns `NULL` leaves the memory
as it was. -/
theorem SharedOp.call_kept (h : s.Inv S) (op : SharedOp κ ρ) (hop : op.Allowed S s)
    (hcall : op.call S s = some (ret, s')) :
    SharedState.Kept S s ret s' := by
  cases op with
  | cacheCreate k slab inCache inList => exact h.cacheCreate hop hcall
  | get k size answer => exact h.get hop hcall
  | getLarge k size answer => exact h.getLarge hop hcall
  | put k a =>
      obtain ⟨st, hst, -⟩ := Option.bind_eq_some_iff.1 hcall
      obtain ⟨s₁, hput, hkept⟩ := h.put hst (hop st hst)
      rw [hput] at hcall
      cases hcall
      exact hkept
  | cacheDestroy k fuel =>
      obtain ⟨st, hst, -⟩ := Option.bind_eq_some_iff.1 hcall
      obtain ⟨s₁, hkept, honly, -⟩ := h.cacheDestroy hst
      obtain ⟨rfl, rfl⟩ := honly fuel ret s' hcall
      exact hkept
  | write k a mem => exact h.write hop hcall
  | regionCreate r => exact h.regionCreate hop hcall
  | alloc r size id answer =>
      obtain ⟨region, hregion, hcall⟩ := Option.bind_eq_some_iff.1 hcall
      exact h.withReservation hregion hop.2
        (fun _ _ _ hres => lsregionAlloc_reserves hop.1 hres) hcall
  | alignedAlloc r size alignment id answer =>
      obtain ⟨region, hregion, hcall⟩ := Option.bind_eq_some_iff.1 hcall
      exact h.withReservation hregion hop.2
        (fun _ _ _ hres => lsregionAlignedAlloc_reserves hop.1 hres) hcall
  | reserve r size answer =>
      obtain ⟨region, hregion, hcall⟩ := Option.bind_eq_some_iff.1 hcall
      exact h.withReservation hregion hop
        (fun _ _ _ hres => ⟨_, lsregionReserve_some hres, .inl rfl⟩) hcall
  | alignedReserve r size alignment answer =>
      obtain ⟨region, hregion, hcall⟩ := Option.bind_eq_some_iff.1 hcall
      exact h.withReservation hregion hop (fun _ _ _ hres => ⟨_, hres, .inl rfl⟩) hcall
  | gc r minId =>
      obtain ⟨region, hregion, -⟩ := Option.bind_eq_some_iff.1 hcall
      obtain ⟨s₁, hgc, hkept⟩ := h.gc hregion minId
      rw [hgc] at hcall
      cases hcall
      exact hkept
  | regionDestroy r =>
      obtain ⟨region, hregion, -⟩ := Option.bind_eq_some_iff.1 hcall
      obtain ⟨s₁, hdestroy, hkept⟩ := h.regionDestroy hregion
      rw [hdestroy] at hcall
      cases hcall
      exact hkept

omit [DecidableEq κ] [DecidableEq ρ] in
theorem SharedState.Init.inv (h : s.Init S) : s.Inv S where
  backing := by
    have hempty : s.inUse S = 0 := by
      rw [SharedState.inUse, sum_eq_zero fun k _ => by rw [h.cache k]; rfl,
        sum_eq_zero fun r _ => by rw [h.region r]; rfl, add_zero]
    rw [hempty]
    constructor
    case arena =>
      intro i
      rw [h.arena i]
      exact ⟨rfl, rfl, .nil _, by simp, by simp, rfl⟩
    case heap => simp [h.heap]
    case sizes => simp [h.heap]
    case apart => simp [h.heap]
    case prealloc => simp [h.heap]
    case mapped => simp [h.heap]
    case quota =>
      rw [quotaUsed, h.quota, sum_eq_zero fun i _ => by rw [h.arena i], Holding.bill_zero,
        Nat.zero_mul]
  cache := fun k st hst => by
    rw [h.cache k] at hst
    cases hst
  region := fun r region hregion => by
    rw [h.region r] at hregion
    cases hregion

theorem sharedMachine_inv (hs : (sharedMachine S).Reachable s) : s.Inv S := by
  induction hs with
  | init h => exact SharedState.Init.inv h
  | step op _ hop hex ih =>
      obtain ⟨⟨ret, s₁⟩, hcall, rfl⟩ := Option.map_eq_some_iff.1 hex
      exact (op.call_kept ih hop hcall).inv

end Step

/-! ## Conservation -/

section Conservation

variable {ι κ ρ : Type} [DecidableEq ι] [DecidableEq κ] [DecidableEq ρ] (S : Setup ι κ ρ)
    (s : SharedState ι κ ρ)

/-- What the large slabs of the cache `k` are billed for. -/
def SharedState.cacheBilled (k : κ) : Nat :=
  match s.cache k with
  | none => 0
  | some st => ∑ a ∈ st.large (S.geometry k), ceilUnits (st.cache.slab a).size * quotaUnitSize

/-- What the large slabs of the region `r` are billed for. -/
def SharedState.regionBilled (r : ρ) : Nat :=
  match s.region r with
  | none => 0
  | some region =>
    ((region.blocks.filter fun t => S.regionSize r < t.slabSize).map fun t =>
        ceilUnits t.slabSize * quotaUnitSize).sum

/-- The quota is billed for the arenas and the large slabs, and all memory goes back to where it
came from. -/
structure SharedState.Conserved [Fintype ι] [Fintype κ] [Fintype ρ] : Prop where
  used : quotaUsed s.backing.quota =
    ∑ i, (s.backing.arena i).used + (∑ k, s.cacheBilled S k + ∑ r, s.regionBilled S r)
  /-- A call that fails bills nothing. -/
  null : ∀ (op : SharedOp κ ρ) s', op.Allowed S s → op.call S s = some (.null, s') →
    quotaUsed s'.backing.quota = quotaUsed s.backing.quota
  /-- No block of `malloc` is a slab of an arena. -/
  separate : ∀ x ∈ s.backing.heap, ∀ i, x.1 ∉ (s.backing.arena i).carved ∧
    x.1 ∉ (s.backing.arena i).mapped
  put : ∀ k st a, s.cache k = some st → a ∈ st.live →
    ∃ s', (SharedOp.put k a).call S s = some (.void, s')
  cacheDestroy : ∀ k st, s.cache k = some st →
    ∃ n, ∀ fuel, n < fuel → ∃ s', (SharedOp.cacheDestroy k fuel).call S s = some (.void, s')
  gc : ∀ r region minId, s.region r = some region →
    ∃ s', (SharedOp.gc r minId).call S s = some (.void, s')
  regionDestroy : ∀ r region, s.region r = some region →
    ∃ s', (SharedOp.regionDestroy r).call S s = some (.void, s')

omit [DecidableEq κ] [DecidableEq ρ] in
theorem Setup.bill_cache (k : κ) : (S.cacheHolding k (s.cache k)).bill = s.cacheBilled S k := by
  rw [SharedState.cacheBilled]
  cases s.cache k with
  | none => rfl
  | some st => exact st.holding_bill _ _

omit [DecidableEq κ] [DecidableEq ρ] in
theorem Setup.bill_region (r : ρ) : (S.regionHolding r (s.region r)).bill = s.regionBilled S r := by
  rw [SharedState.regionBilled]
  cases s.region r with
  | none => rfl
  | some region => exact region.holding_bill _ _

variable {S s} [Fintype ι] [Fintype κ] [Fintype ρ]

/-- In every run, the quota is billed for the arenas and for the large slabs, a call that fails
leaves it as it was, and whatever is given back goes to where it came from. -/
theorem quota_conserved (hs : (sharedMachine S).Reachable s) : s.Conserved S := by
  have h := sharedMachine_inv hs
  constructor
  case used =>
    have hquota := h.backing.quota
    rw [SharedState.inUse, Holding.bill_add, Holding.bill_sum, Holding.bill_sum,
      sum_congr rfl fun k _ => Setup.bill_cache S s k, sum_congr rfl fun r _ =>
      Setup.bill_region S s r] at hquota
    exact hquota
  case null =>
    intro op s' hop hcall
    rw [(op.call_kept h hop hcall).null rfl]
  case separate => exact fun x hx i => h.backing.separate hx i
  case put =>
    intro k st a hst ha
    obtain ⟨s', hput, -⟩ := h.put hst ha
    exact ⟨s', hput⟩
  case cacheDestroy =>
    intro k st hst
    obtain ⟨s', -, -, n, hends⟩ := h.cacheDestroy hst
    exact ⟨n, fun fuel hfuel => ⟨s', hends fuel hfuel⟩⟩
  case gc =>
    intro r region minId hregion
    obtain ⟨s', hgc, -⟩ := h.gc hregion minId
    exact ⟨s', hgc⟩
  case regionDestroy =>
    intro r region hregion
    obtain ⟨s', hdestroy, -⟩ := h.regionDestroy hregion
    exact ⟨s', hdestroy⟩

end Conservation

/-! ## Deciding what is allowed -/

section Deciding

variable {ι κ ρ : Type} [DecidableEq ι] [DecidableEq κ] [DecidableEq ρ] [Fintype ι]
    (S : Setup ι κ ρ)
  (s : SharedState ι κ ρ)

omit [DecidableEq ι] in
instance Backing.FreshBlock.decidable (c : ι → ArenaConfig) (b : Backing ι) (size a : Nat) :
    Decidable (b.FreshBlock c size a) :=
  decidable_of_iff
    ((∀ x ∈ b.heap, a + size ≤ x.1 ∨ x.1 + x.2 ≤ a) ∧
      ∀ i, (a + size ≤ (c i).arena ∨ (c i).arena + (c i).prealloc ≤ a) ∧
        ∀ m ∈ (b.arena i).mapped, a + size ≤ m ∨ m + (c i).slabSize ≤ a)
    ⟨fun h => ⟨h.1, fun i => (h.2 i).1, fun i => (h.2 i).2⟩, fun h =>
    ⟨h.heap, fun i => ⟨h.prealloc i, h.mapped i⟩⟩⟩

omit [DecidableEq ι] [Fintype ι] in
instance Backing.FreshSlab.decidable (c : ι → ArenaConfig) (i : ι) (b : Backing ι) (m : Nat) :
    Decidable (b.FreshSlab c i m) :=
  decidable_of_iff
    ((m ≠ 0 ∧ (c i).slabSize ∣ m ∧ m + (c i).slabSize ≤ sizeMax) ∧
      (∀ x ∈ b.heap, m + (c i).slabSize ≤ x.1 ∨ x.1 + x.2 ≤ m) ∧
      (m + (c i).slabSize ≤ (c i).arena ∨ (c i).arena + (c i).prealloc ≤ m) ∧
      ∀ m' ∈ (b.arena i).mapped, m + (c i).slabSize ≤ m' ∨ m' + (c i).slabSize ≤ m)
    ⟨fun h => ⟨h.1.1, h.1.2.1, h.1.2.2, h.2.1, h.2.2.1, h.2.2.2⟩,
      fun h => ⟨⟨h.ne_zero, h.aligned, h.bound⟩, h.heap, h.prealloc, h.mapped⟩⟩

omit [DecidableEq ι] in
instance Backing.Answers.decidable (c : ι → ArenaConfig) (i : ι) (b : Backing ι) (large : Prop)
    [Decidable large] (size : Nat) (answer : Option Nat) :
    Decidable (b.Answers c i large size answer) :=
  inferInstanceAs (Decidable (∀ ptr ∈ answer, (large → b.FreshBlock c size ptr) ∧
      (¬ large → b.FreshSlab c i ptr)))

instance SharedState.Reserves.decidable (r : ρ) (size alignment : Nat) (answer : Option Nat) :
    Decidable (s.Reserves S r size alignment answer) :=
  inferInstanceAs (Decidable (_ ∧ _))

instance SharedOp.Allowed.decidable : (op : SharedOp κ ρ) → Decidable (op.Allowed S s)
  | .cacheCreate k _ _ _ => inferInstanceAs (Decidable (s.cache k = none))
  | .get _ _ _ => inferInstanceAs (Decidable (_ ∧ _))
  | .getLarge _ _ _ => inferInstanceAs (Decidable (_ ∧ _))
  | .put k a => inferInstanceAs (Decidable (∀ st ∈ s.cache k, a ∈ st.live))
  | .cacheDestroy _ _ => inferInstanceAs (Decidable True)
  | .write k a _ => inferInstanceAs (Decidable (∀ st ∈ s.cache k, a ∈ st.live))
  | .regionCreate r => inferInstanceAs (Decidable (s.region r = none))
  | .alloc _ _ _ _ => inferInstanceAs (Decidable (_ ∧ _))
  | .alignedAlloc _ _ _ _ _ => inferInstanceAs (Decidable (_ ∧ _))
  | .reserve r size answer => inferInstanceAs (Decidable (s.Reserves S r size 1 answer))
  | .alignedReserve r size alignment answer =>
      inferInstanceAs (Decidable (s.Reserves S r size alignment answer))
  | .gc _ _ => inferInstanceAs (Decidable True)
  | .regionDestroy _ => inferInstanceAs (Decidable True)

end Deciding

/-! ## One arena, one cache, one region -/

/-- Slabs of 64K, of which the smallest have a page. -/
def pageSlabs : Geometry := .create 16 12 (by decide)

/-- One arena of one slab, with one slab cache and one region over it. -/
def oneOfEach : Setup Unit Unit Unit where
  arena := fun _ => oneSlab
  geometry := fun _ => pageSlabs
  cacheArena := id
  regionArena := id
  slabSize_eq := fun _ => rfl

/-- After `slab_arena_create`. -/
def oneOfEachStart : SharedState Unit Unit Unit where
  backing :=
    { quota := quotaInit 1048576
      arena := fun _ =>
        { cache := [], arena := 65536, prealloc := 65536, used := 0, carved := [], mapped := [] }
      heap := [] }
  cache := fun _ => none
  region := fun _ => none

/-- The cache and the region take a slab each: the arena carves one out of its preallocated
memory and maps the other one. Each of them also gets a block from `malloc`. -/
def sharedSlabs : List (SharedOp Unit Unit) :=
  [.cacheCreate () (fun _ => Slab.poisoned) ⟨id, id⟩ ⟨id, id⟩, .get () 100 none,
    .getLarge () 100000 (some 4194304), .regionCreate (), .alloc () 100 1 (some 2097152),
    .alloc () 200000 2 (some 8388608)]

theorem quota_conserved_four_slabs :
    ∃ s, (sharedMachine oneOfEach).Reachable s ∧ s.backing.heap.map Prod.fst = [8388608, 4194304] ∧
      quotaUsed s.backing.quota = 2 * 65536 + 98 * 1024 + 196 * 1024 ∧ s.Conserved oneOfEach := by
  have hrun : ((sharedMachine oneOfEach).run
      (fun s op => decide (op.Allowed oneOfEach s)) sharedSlabs
      oneOfEachStart).map (fun s => (s.backing.heap.map Prod.fst, quotaUsed s.backing.quota)) =
        some ([8388608, 4194304], 2 * 65536 + 98 * 1024 + 196 * 1024) := by
    decide +kernel
  obtain ⟨s, hs, heq⟩ := Option.map_eq_some_iff.1 hrun
  rw [Prod.mk.injEq] at heq
  have hreach := Machine.Reachable.run (sharedMachine oneOfEach)
    (fun s op h => (decide_eq_true_iff (p := op.Allowed oneOfEach s)).1 h) sharedSlabs
    (.init (s := oneOfEachStart) ⟨by decide, fun _ => rfl, rfl, fun _ => rfl, fun _ => rfl⟩) hs
  exact ⟨s, hreach, heq.1, heq.2, quota_conserved hreach⟩

end SmallAllocators
