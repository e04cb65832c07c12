/-
SmallAllocators.Small.Stats — `mempool_stats` and `small_stats`.

The counts are words of 32 bits, and so is the size of all slab headers that
`mempool_stats` subtracts from the memory of the slabs; the sums over the
pools are not. `small_stats` stops when the function of the client says so.
-/
import SmallAllocators.Small.Objects

namespace SmallAllocators

/-- `struct mempool_stats`. -/
structure MempoolStats where
  objsize : Nat
  objcount : Nat
  slabsize : Nat
  slabcount : Nat
  totals : SmallStats

/-- `mempool_total`. -/
def mempoolTotal (pool : Mempool) : Nat := pool.stats.total

def mempoolStats (g : Geometry) (pool : Mempool) : MempoolStats :=
  let slabsize := g.slabOrderSize pool.slabOrder % 2 ^ 32
  let slabcount := pool.stats.total / slabsize % 2 ^ 32
  { objsize := pool.objsize
    objcount := mempoolCount pool % 2 ^ 32
    slabsize := slabsize
    slabcount := slabcount
    totals :=
      { used := pool.stats.used
        -- the product is a `uint32_t`
        total := (pool.stats.total + (sizeMax - mslabSizeof * slabcount % 2 ^ 32)) % sizeMax } }

/-! ## `small_stats` -/

/-- `struct mempool_iterator`. -/
structure MempoolIterator where
  smallIterator : Nat

def mempoolIteratorCreate : MempoolIterator where
  smallIterator := 0

/-- `mempool_iterator_next`: the index of a pool, or `NULL`. -/
def mempoolIteratorNext (alloc : SmallAlloc) (it : MempoolIterator) :
    Option Nat × MempoolIterator :=
  if it.smallIterator < alloc.smallMempoolCacheSize then
    (some it.smallIterator, ⟨it.smallIterator + 1⟩) else (none, it)

section Stats

variable {γ : Type} (g : Geometry) (alloc : SmallAlloc) (cb : MempoolStats → γ → Bool × γ)

/-- The loop of `small_stats`. The function of the client reads and writes the context, and returns
whether to stop. -/
def smallStatsLoop : Nat → MempoolIterator → SmallStats → γ → Option (SmallStats × γ)
  | 0, _, _, _ => none
  | fuel + 1, it, totals, ctx =>
    match mempoolIteratorNext alloc it with
    | (none, _) => some (totals, ctx)
    | (some pool, it) =>
      let stats := mempoolStats g (alloc.pool pool)
      let totals : SmallStats :=
        { used := (totals.used + stats.totals.used) % sizeMax,
          total := (totals.total + stats.totals.total) % sizeMax }
      let (stop, ctx) := cb stats ctx
      if stop then some (totals, ctx) else smallStatsLoop fuel it totals ctx

/-- `small_stats`, with at most `fuel` rounds of its loop. -/
def smallStats (fuel : Nat) (ctx : γ) : Option (SmallStats × γ) :=
  smallStatsLoop g alloc cb fuel mempoolIteratorCreate { used := 0, total := 0 } ctx

/-- The calls of the function, for one pool after another until it stops: what it was given, and the
context after the last call. -/
def callUntil : List MempoolStats → γ → List MempoolStats × γ
  | [], ctx => ([], ctx)
  | stats :: rest, ctx =>
    if (cb stats ctx).1 then ([stats], (cb stats ctx).2)
    else (stats :: (callUntil rest (cb stats ctx).2).1, (callUntil rest (cb stats ctx).2).2)

/-- The numbers of all pools, in the order of the iterator. -/
def SmallAlloc.allStats : List MempoolStats :=
  (List.range alloc.smallMempoolCacheSize).map fun p => mempoolStats g (alloc.pool p)

end Stats

/-- The sums over some pools. -/
def sumStats (stats : List MempoolStats) : SmallStats where
  used := (stats.map fun st => st.totals.used).sum
  total := (stats.map fun st => st.totals.total).sum

variable {γ : Type} {g : Geometry} {alloc : SmallAlloc} {cb : MempoolStats → γ → Bool × γ}
    {h : MslabHeap} {p : Mempool}
  {live : List Nat}

/-- The loop of `small_stats` makes these calls, and adds up what it gives them. -/
theorem smallStatsLoop_eq (fuel i : Nat) (totals : SmallStats) (ctx : γ)
    (hi : i ≤ alloc.smallMempoolCacheSize) (hfuel : alloc.smallMempoolCacheSize - i < fuel)
    (hused : totals.used + (sumStats ((alloc.allStats g).drop i)).used < sizeMax)
    (htotal : totals.total + (sumStats ((alloc.allStats g).drop i)).total < sizeMax) :
    smallStatsLoop g alloc cb fuel ⟨i⟩ totals ctx =
      some (
        { used := totals.used + (sumStats (callUntil cb ((alloc.allStats g).drop i) ctx).1).used
          total := totals.total +
            (sumStats (callUntil cb ((alloc.allStats g).drop i) ctx).1).total },
        (callUntil cb ((alloc.allStats g).drop i) ctx).2) := by
  induction fuel generalizing i totals ctx with
  | zero => omega
  | succ fuel ih =>
      rw [smallStatsLoop, mempoolIteratorNext]
      have hlen : (alloc.allStats g).length = alloc.smallMempoolCacheSize := by
        simp [SmallAlloc.allStats]
      by_cases hlt : i < alloc.smallMempoolCacheSize
      · -- one call, for pool `i`
        have hdrop : (alloc.allStats g).drop i =
            mempoolStats g (alloc.pool i) :: (alloc.allStats g).drop (i + 1) := by
          rw [List.drop_eq_getElem_cons (hlen ▸ hlt)]
          simp [SmallAlloc.allStats]
        rw [hdrop] at hused htotal ⊢
        simp only [sumStats, List.map_cons, List.sum_cons] at hused htotal
        simp only [hlt, if_true, callUntil]
        rw [Nat.mod_eq_of_lt (by omega), Nat.mod_eq_of_lt (by omega)]
        cases hstop : (cb (mempoolStats g (alloc.pool i)) ctx).1 with
        | true => simp [sumStats]
        | false =>
            have hnext :=
              ih (i + 1)
                { used := totals.used + (mempoolStats g (alloc.pool i)).totals.used
                  total := totals.total + (mempoolStats g (alloc.pool i)).totals.total }
                (cb (mempoolStats g (alloc.pool i)) ctx).2 hlt (by omega)
                  (by simp only [sumStats]; omega) (by simp only [sumStats]; omega)
            simp [hnext, sumStats, Nat.add_assoc]
      · have hdrop : (alloc.allStats g).drop i = [] := List.drop_eq_nil_of_le (by omega)
        simp [hlt, hdrop, callUntil, sumStats]

/-- `small_stats`, when the sums fit in a word. -/
theorem smallStats_eq {fuel : Nat} (ctx : γ) (hfuel : alloc.smallMempoolCacheSize < fuel)
    (hused : (sumStats (alloc.allStats g)).used < sizeMax)
    (htotal : (sumStats (alloc.allStats g)).total < sizeMax) :
    smallStats g alloc cb fuel ctx =
      some (sumStats (callUntil cb (alloc.allStats g) ctx).1,
        (callUntil cb (alloc.allStats g) ctx).2) := by
  have hloop : smallStatsLoop g alloc cb fuel ⟨0⟩ { used := 0, total := 0 } ctx = _ :=
    smallStatsLoop_eq fuel 0 _ ctx (Nat.zero_le _) (by simpa using hfuel) (by simpa using hused)
      (by simpa using htotal)
  simpa [smallStats, mempoolIteratorCreate, sumStats] using hloop

/-! ## The numbers of one pool -/

/-- The objects fit in the slabs. -/
theorem Contents.live_le (hc : Contents g h p live) :
    live.length ≤ p.slabs.length * p.objcount := by
  have hsub : live ⊆ p.slabs.flatMap fun a => (List.range p.objcount).map (p.slot a) := by
    intro x hx
    obtain ⟨a, ha, k, hk, rfl⟩ := hc.live_slot x hx
    exact List.mem_flatMap.2 ⟨a, ha, List.mem_map.2 ⟨k, List.mem_range.2 hk, rfl⟩⟩
  have hle := (hc.live_nodup.subperm hsub).length_le
  simpa [List.length_flatMap, List.map_const', List.sum_replicate] using hle

/-- What a client reads in the numbers of a pool. -/
structure MempoolStats.Of (g : Geometry) (p : Mempool) (live : List Nat) (stats : MempoolStats) :
    Prop where
  objsize : stats.objsize = p.objsize
  objcount : stats.objcount = live.length % 2 ^ 32
  slabsize : stats.slabsize = g.slabOrderSize p.slabOrder
  slabcount : stats.slabcount = p.slabs.length % 2 ^ 32
  used : stats.totals.used = p.objsize * live.length
  used_le : stats.totals.used ≤ stats.totals.total
  total_le : stats.totals.total ≤ mempoolTotal p
  /-- The total is the memory behind the headers, as long as the size of all headers fits in its
  word. -/
  total : stats.totals.total = p.slabs.length * (g.slabOrderSize p.slabOrder - mslabSizeof) ↔
    mslabSizeof * p.slabs.length < 2 ^ 32

theorem Contents.stats (hc : Contents g h p live) (hlt : mempoolTotal p < sizeMax) :
    (mempoolStats g p).Of g p live := by
  have hsize := hc.config.size
  have hhead := hc.config.header
  have hpos : 0 < p.objsize := Nat.lt_of_lt_of_le (by decide) hc.config.objsize
  have hS : g.slabOrderSize p.slabOrder % 2 ^ 32 = g.slabOrderSize p.slabOrder :=
    Nat.mod_eq_of_lt (Nat.lt_of_le_of_lt
        (g.slabOrderSize_max ▸ Geometry.slabOrderSize_le hc.config.order) g.slabSize_lt)
  generalize hgen : g.slabOrderSize p.slabOrder = S at hsize hS
  have hSpos : 0 < S := by
    simp only [mslabSizeof] at hhead
    omega
  have htotal : p.stats.total = S * p.slabs.length := by rw [hc.total, hgen]
  have hcount :
      p.stats.total / S = p.slabs.length := by rw [htotal, Nat.mul_div_cancel_left _ hSpos]
  -- the headers, in a word of 32 bits
  set w := mslabSizeof * p.slabs.length % 2 ^ 32 with hw
  have hwle : w ≤ mslabSizeof * p.slabs.length := Nat.mod_le _ _
  have hbytes :
      p.slabs.length * (S - mslabSizeof) + mslabSizeof * p.slabs.length = p.stats.total := by
    rw [htotal, Nat.mul_comm mslabSizeof, ← Nat.mul_add, Nat.mul_comm]
    congr 1
    omega
  have hmem : (mempoolStats g p).totals.total = p.stats.total - w := by
    have hlt : p.stats.total < sizeMax := hlt
    show (p.stats.total + (sizeMax -
      mslabSizeof * (p.stats.total / (g.slabOrderSize p.slabOrder % 2 ^ 32) % 2 ^ 32) % 2 ^ 32)) %
        sizeMax = _
    rw [hgen, hS, hcount, Nat.mul_mod_mod, ← hw,
      show p.stats.total + (sizeMax - w) = p.stats.total - w + sizeMax by omega,
      Nat.add_mod_right, Nat.mod_eq_of_lt (by omega)]
  have hobjects : p.objsize * live.length ≤ p.slabs.length * (S - mslabSizeof) := by
    calc p.objsize * live.length ≤ p.objsize * (p.slabs.length * p.objcount) :=
      Nat.mul_le_mul_left _ hc.live_le
      _ = p.slabs.length * (p.objcount * p.objsize) := by ring
      _ ≤ p.slabs.length * (S - mslabSizeof) := Nat.mul_le_mul_left _ (by omega)
  constructor
  case objsize => rfl
  case objcount =>
    show p.stats.used / p.objsize % 2 ^ 32 = _
    rw [hc.used, Nat.mul_div_cancel_left _ hpos]
  case slabsize =>
    show g.slabOrderSize p.slabOrder % 2 ^ 32 = _
    rw [hgen, hS]
  case slabcount =>
    show p.stats.total / (g.slabOrderSize p.slabOrder % 2 ^ 32) % 2 ^ 32 = _
    rw [hgen, hS, hcount]
  case used => exact hc.used
  case used_le =>
    have hused : (mempoolStats g p).totals.used = p.objsize * live.length := hc.used
    omega
  case total_le =>
    rw [hmem]
    exact Nat.sub_le _ _
  case total =>
    have hiff : w = mslabSizeof * p.slabs.length ↔ mslabSizeof * p.slabs.length < 2 ^ 32 :=
      ⟨fun heq => heq ▸ Nat.mod_lt _ (Nat.two_pow_pos 32), Nat.mod_eq_of_lt⟩
    rw [← hiff, hmem, hgen]
    omega

end SmallAllocators
