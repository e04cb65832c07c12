/-
SmallAllocators.SlabCache.Check — the counters of the cache are exact, and
`slab_cache_check` finds nothing.

The invariant gives each counter as a sum over slabs. Here the sums are
put in terms of the slabs of the clients and the free lists, and the two
loops of `slab_cache_check` are shown to recompute them.
-/
import SmallAllocators.SlabCache.Put
import Mathlib.Algebra.BigOperators.Ring.Finset

namespace SmallAllocators

open Blocks

variable {g : Geometry} {c : SlabCache} {G : Ghost} {a k : Nat}

/-! ## Sums over slabs -/

/-- The slabs of one order count for the bytes of all, over all orders. -/
theorem sum_over_orders {T : Finset Nat} {f : Nat → Nat}
    (ho : ∀ a ∈ T, (c.slab a).order ≤ g.orderMax) :
    ∑ k ∈ Finset.range (g.orderMax + 1), ∑ a ∈ T, (if (c.slab a).order = k then f a else 0) =
      ∑ a ∈ T, f a := by
  rw [Finset.sum_comm]
  refine Finset.sum_congr rfl fun a ha => ?_
  have := ho a ha
  rw [Finset.sum_ite_eq, if_pos (Finset.mem_range.mpr (by omega))]

/-- The slabs of the buddy system have the bytes of the arena slabs. -/
theorem SlabCache.Inv.sum_size (h : c.Inv g G ∅ ∅) :
    ∑ a ∈ G.tiles, (c.slab a).size = G.regions.card * g.slabSize := by
  rw [Finset.sum_congr rfl h.tiles.size, h.tiles.tiling.sum_eq, g.slabSize_eq_top]

theorem SlabCache.Inv.sum_total (h : c.Inv g G ∅ ∅) :
    ∑ k ∈ Finset.range (g.orderMax + 1), (c.orders k).total = G.regions.card * g.slabSize := by
  rw [← h.sum_size, ← sum_over_orders (g := g) fun a ha => h.order_le ha]
  refine Finset.sum_congr rfl fun k hk => ?_
  rw [h.stats.total k (by rw [Finset.mem_range] at hk; omega), Finset.sdiff_empty]
  rfl

theorem SlabCache.Inv.sum_used (h : c.Inv g G ∅ ∅) :
    ∑ k ∈ Finset.range (g.orderMax + 1), (c.orders k).used = ∑ a ∈ G.tiles, c.usedSize a := by
  rw [← sum_over_orders (g := g) fun a ha => h.order_le ha]
  refine Finset.sum_congr rfl fun k hk => ?_
  rw [h.stats.used k (by rw [Finset.mem_range] at hk; omega)]
  rfl

/-! ## The two loops -/

/-- What an allocated slab adds to `total`. -/
def checkedTotal (g : Geometry) (c : SlabCache) (a : Nat) : Nat :=
  if (c.slab a).order = g.orderMax + 1 then (c.slab a).size else g.slabSize

/-- What an allocated slab adds to `huge` and to `used`. -/
def checkedHuge (g : Geometry) (c : SlabCache) (a : Nat) : Nat :=
  if (c.slab a).order = g.orderMax + 1 then (c.slab a).size else 0

theorem checkSlab_region (h : c.Inv g G ∅ ∅) (ha : a ∈ G.tiles) (st : CheckState) :
    checkSlab g c st a = some { st with total := st.total + g.slabSize } := by
  have hle := h.order_le ha
  have hsize : (c.slab a).size = g.slabOrderSize (c.slab a).order := by
    rw [h.tiles.size a ha, g.slabOrderSize_eq, SlabCache.exp]
  have htop : g.slabOrderSize g.orderMax = g.slabSize := by
    rw [g.slabOrderSize_eq, g.slabSize_eq]
  have hne : (c.slab a).order ≠ g.orderMax + 1 := by omega
  simp [checkSlab, hne, hle, h.tiles.magic a ha, ← hsize, htop]

theorem checkSlab_large (h : c.Inv g G ∅ ∅) (ha : a ∈ G.large) (st : CheckState) :
    checkSlab g c st a = some { st with
      huge := st.huge + (c.slab a).size
      used := st.used + (c.slab a).size
      total := st.total + (c.slab a).size } := by
  simp [checkSlab, h.alloc.largeOrder a ha, h.alloc.largeMagic a ha]

/-- The loop over the allocated slabs. -/
theorem checkSlab_loop (h : c.Inv g G ∅ ∅) (xs : List Nat) (hxs : ∀ a ∈ xs, a ∈ G.allocated)
    (st : CheckState) :
    xs.foldlM (checkSlab g c) st = some { st with
      huge := st.huge + (xs.map (checkedHuge g c)).sum
      used := st.used + (xs.map (checkedHuge g c)).sum
      total := st.total + (xs.map (checkedTotal g c)).sum } := by
  induction xs generalizing st with
  | nil => rfl
  | cons a xs ih =>
      have hrest : ∀ b ∈ xs, b ∈ G.allocated := fun b hb => hxs b (List.mem_cons_of_mem a hb)
      simp only [List.foldlM_cons, List.map_cons, List.sum_cons]
      rcases (h.alloc.mem a).mp (hxs a (by simp)) with hr | hl
      · have hat := h.region_tile hr
        have hne : (c.slab a).order ≠ g.orderMax + 1 := by
          have := h.order_le hat
          omega
        rw [checkSlab_region h hat, Option.bind_eq_bind, Option.bind_some, ih hrest]
        simp [checkedHuge, checkedTotal, hne, Nat.add_assoc]
      · rw [checkSlab_large h hl, Option.bind_eq_bind, Option.bind_some, ih hrest]
        simp [checkedHuge, checkedTotal, h.alloc.largeOrder a hl, Nat.add_assoc]

/-- The counters of an order are multiples of the smallest slab. -/
theorem SlabCache.Inv.order0Size_dvd (h : c.Inv g G ∅ ∅) (hk : k ≤ g.orderMax) :
    g.order0Size ∣ (c.orders k).total ∧ g.order0Size ∣ (c.orders k).used := by
  have hsize : ∀ a ∈ G.tiles, g.order0Size ∣ (c.slab a).size := by
    intro a ha
    rw [h.tiles.size a ha, g.order0Size_eq]
    exact Nat.pow_dvd_pow 2 (Nat.le_add_left _ _)
  constructor
  · rw [h.stats.total k hk, Finset.sdiff_empty]
    refine Finset.dvd_sum fun a ha => ?_
    rw [SlabCache.bill]
    split
    · exact hsize a ha
    · exact Nat.dvd_zero _
  · rw [h.stats.used k hk]
    refine Finset.dvd_sum fun a ha => ?_
    rw [SlabCache.billUsed, SlabCache.usedSize]
    split
    · split
      · exact Nat.dvd_zero _
      · exact hsize a ha
    · exact Nat.dvd_zero _

/-- With slabs of at least 256 bytes the `uint8_t` that takes a slab size is 0. -/
theorem Geometry.slabOrderSize_mod (g : Geometry) (h0 : 256 ≤ g.order0Size) (k : Nat) :
    g.slabOrderSize k % 256 = 0 := by
  have hlb : 8 ≤ g.order0SizeLb := by
    rw [g.order0Size_eq] at h0
    by_contra hlt
    have : 2 ^ g.order0SizeLb < 2 ^ 8 := Nat.pow_lt_pow_right (by omega) (by omega)
    omega
  rw [g.slabOrderSize_eq]
  exact Nat.mod_eq_zero_of_dvd (Nat.pow_dvd_pow 2 (show 8 ≤ k + g.order0SizeLb by omega))

/-- The loop over the orders. -/
theorem checkOrder_loop (h : c.Inv g G ∅ ∅) (h0 : 256 ≤ g.order0Size) (n : Nat)
    (hn : n ≤ g.orderMax + 1) (st : CheckState) :
    (List.range n).foldlM (checkOrder g c) st = some { st with
      ordered := st.ordered + ∑ k ∈ Finset.range n, (c.orders k).total
      used := st.used + ∑ k ∈ Finset.range n, (c.orders k).used } := by
  induction n with
  | zero => rfl
  | succ n ih =>
      obtain ⟨ht, hu⟩ := h.order0Size_dvd (show n ≤ g.orderMax by omega)
      have hz : g.slabOrderSize 0 = g.order0Size := by
        rw [g.slabOrderSize_eq, g.order0Size_eq, Nat.zero_add]
      rw [List.range_succ, List.foldlM_append, ih (by omega)]
      simp [checkOrder, g.slabOrderSize_mod h0, hz, Nat.mod_eq_zero_of_dvd ht,
        Nat.mod_eq_zero_of_dvd hu, Finset.sum_range_succ, Nat.add_assoc]

/-! ## `slab_cache_check` -/

/-- The list of allocated slabs, in two parts. -/
theorem SlabCache.Inv.sum_allocated_eq {M : Type} [AddCommMonoid M] (h : c.Inv g G ∅ ∅)
    (f : Nat → M) :
    (G.allocated.map f).sum = ∑ a ∈ G.regions, f a + ∑ a ∈ G.large, f a := by
  have hnd : G.allocated.Nodup := List.Nodup.of_map _ h.alloc.ring.nodup_tail
  have hset : G.allocated.toFinset = G.regions ∪ G.large := by
    ext a
    rw [List.mem_toFinset, h.alloc.mem, Finset.mem_union]
  have hdis : Disjoint G.regions G.large := by
    rw [Finset.disjoint_left]
    exact fun a hr hl => h.large_not_tile hl (h.region_tile hr)
  rw [← List.sum_toFinset _ hnd, hset, Finset.sum_union hdis]

/-- An arena slab is not large. -/
theorem SlabCache.Inv.region_order (h : c.Inv g G ∅ ∅) (ha : a ∈ G.regions) :
    (c.slab a).order ≠ g.orderMax + 1 := by
  have := h.order_le (h.region_tile ha)
  omega

/-- The sums over the list of allocated slabs. -/
theorem SlabCache.Inv.sum_allocated (h : c.Inv g G ∅ ∅) :
    (G.allocated.map (checkedTotal g c)).sum = c.allocated.total ∧
    (G.allocated.map (checkedHuge g c)).sum = ∑ a ∈ G.large, (c.slab a).size := by
  constructor
  · rw [h.sum_allocated_eq, h.stats.allTotal]
    congr 1
    · exact Finset.sum_const_nat fun a ha => if_neg (h.region_order ha)
    · exact Finset.sum_congr rfl fun a ha => if_pos (h.alloc.largeOrder a ha)
  · have : ∀ a ∈ G.regions, checkedHuge g c a = 0 := fun a ha => if_neg (h.region_order ha)
    rw [h.sum_allocated_eq, Finset.sum_congr rfl this, Finset.sum_const_zero, Nat.zero_add]
    exact Finset.sum_congr rfl fun a ha => if_pos (h.alloc.largeOrder a ha)

/-- The slabs of a list. -/
theorem mapM_slabOfNode (xs : List Nat) : (xs.map SlabNode.slab).mapM slabOfNode = some xs := by
  induction xs with
  | nil => rfl
  | cons a xs ih => simp [slabOfNode, ih]

theorem slabCacheCheck_spec (h : c.Inv g G ∅ ∅) (h0 : 256 ≤ g.order0Size) {fuel : Nat}
    (hf : G.allocated.length < fuel) : slabCacheCheck g c fuel = some true := by
  have hwalk := rlistForeach_eq fuel h.alloc.ring (by simpa using hf)
  obtain ⟨htotal, hhuge⟩ := h.sum_allocated
  have hused : ∑ a ∈ G.large, (c.slab a).size + ∑ a ∈ G.tiles, c.usedSize a = c.allocated.used := by
    rw [h.stats.allUsed]
    omega
  have hsum : G.regions.card * g.slabSize + ∑ a ∈ G.large, (c.slab a).size = c.allocated.total :=
    h.stats.allTotal.symm
  simp only [slabCacheCheck, hwalk, mapM_slabOfNode, Option.bind_eq_bind, Option.bind_some,
    checkSlab_loop h G.allocated fun _ ha => ha]
  rw [checkOrder_loop h h0 _ (Nat.le_refl _)]
  simp [htotal, hhuge, h.sum_total, h.sum_used, hused, hsum]

end SmallAllocators
