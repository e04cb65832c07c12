/-
SmallAllocators.SlabCache.Invariant — the invariant of the buddy system.

The heap of headers says nothing by itself about which addresses are
slabs. The invariant is stated with a `Ghost`: the addresses where slabs
start (`tiles`), the arena slabs they partition (`regions`), the slabs
from `malloc` (`large`), and the sequences that the lists hold. It has
five parts, each about its own fields of the cache, so that a step has to
re-establish only the parts it touches:

* `Tiles` — the slabs partition the arena slabs and carry valid headers;
* `FreeLists` — `orders[k]` holds exactly the free slabs of order `k`;
* `Allocated` — the list of allocated slabs, and the record of the arena;
* `Stats` — every counter is the sum it stands for;
* `Coalesced` — no two free buddies, at most one free arena slab.

Between the first and the last line of an operation one slab may be in
transit: taken from its list and not yet handed out, or freed and not yet
put back. Such slabs are the set `held`; `unbilled` are the slabs that the
counters `orders[k].stats.total` leave out meanwhile.
-/
import SmallAllocators.Lib.Tiling
import SmallAllocators.SlabCache.Model
import Mathlib.Algebra.BigOperators.Group.Finset.Piecewise
import Mathlib.Algebra.Order.BigOperators.Group.Finset
import Mathlib.Data.Multiset.AddSub

namespace SmallAllocators

open Blocks

/-- Which addresses are slabs, what the lists hold, and which slabs the clients have. -/
structure Ghost where
  tiles : Finset Nat
  regions : Finset Nat
  large : Finset Nat
  free : Nat → List Nat
  allocated : List Nat
  live : Finset Nat

/-! ## Sizes -/

/-- The binary logarithm of an arena slab. -/
def Geometry.top (g : Geometry) : Nat := g.orderMax + g.order0SizeLb

theorem Geometry.slabOrderSize_eq (g : Geometry) (k : Nat) :
    g.slabOrderSize k = 2 ^ (k + g.order0SizeLb) := by
  rw [Geometry.slabOrderSize, Nat.one_shiftLeft]

theorem Geometry.slabSize_eq_top (g : Geometry) : g.slabSize = 2 ^ g.top := g.slabSize_eq

/-- The binary logarithm of the slab at `a`, by its header. -/
def SlabCache.exp (g : Geometry) (c : SlabCache) (a : Nat) : Nat :=
  (c.slab a).order + g.order0SizeLb

/-- The bytes of a slab from `malloc`; a block of size 0 still has an address of its own. -/
def SlabCache.InLarge (c : SlabCache) (a x : Nat) : Prop := a ≤ x ∧ x < a + max (c.slab a).size 1

/-- What the slab at `a` counts for in `orders[k].stats.total`. -/
def SlabCache.bill (c : SlabCache) (k a : Nat) : Nat :=
  if (c.slab a).order = k then (c.slab a).size else 0

/-- What the slab at `a` counts for in `allocated.stats.used`. -/
def SlabCache.usedSize (c : SlabCache) (a : Nat) : Nat :=
  if (c.slab a).inUse = 0 then 0 else (c.slab a).size

/-- What the slab at `a` counts for in `orders[k].stats.used`. -/
def SlabCache.billUsed (c : SlabCache) (k a : Nat) : Nat :=
  if (c.slab a).order = k then c.usedSize a else 0

/-! ## The five parts -/

section Parts

variable (g : Geometry) (c : SlabCache) (G : Ghost) (held unbilled : Finset Nat)

/-- The slabs partition the arena slabs, and each has a valid header. -/
structure SlabCache.Tiles : Prop where
  tiling : Tiling G.tiles (c.exp g) g.top G.regions
  magic : ∀ a ∈ G.tiles, (c.slab a).magic = slabMagic
  size : ∀ a ∈ G.tiles, (c.slab a).size = 2 ^ c.exp g a
  inUse : ∀ a ∈ G.tiles, (c.slab a).inUse = 0 ∨ (c.slab a).inUse = (c.slab a).order + 1

/-- `orders[k]` holds exactly the free slabs of order `k` that are not in transit. -/
structure SlabCache.FreeLists : Prop where
  ring : ∀ k ≤ g.orderMax, IsRing c.nextInList (.orders k) ((G.free k).map .slab)
  mem : ∀ k ≤ g.orderMax, ∀ a, a ∈ G.free k ↔
    a ∈ G.tiles ∧ a ∉ held ∧ (c.slab a).order = k ∧ (c.slab a).inUse = 0

/-- `allocated` holds the arena slabs and the large slabs; the latter lie outside the former. -/
structure SlabCache.Allocated : Prop where
  ring : IsRing c.nextInCache .allocated (G.allocated.map .slab)
  mem : ∀ a, a ∈ G.allocated ↔ a ∈ G.regions ∨ a ∈ G.large
  largeMagic : ∀ a ∈ G.large, (c.slab a).magic = slabMagic
  largeOrder : ∀ a ∈ G.large, (c.slab a).order = g.orderMax + 1
  outside : ∀ a ∈ G.large, ∀ x, c.InLarge a x → ∀ m ∈ G.regions, ¬ InBlock g.top m x
  disjoint : ∀ a ∈ G.large, ∀ b ∈ G.large, ∀ x, c.InLarge a x → c.InLarge b x → a = b
  maps : (c.maps : Multiset Nat) = c.unmaps + G.regions.val
  kept : c.maps ≠ [] → G.regions.Nonempty

/-- Every counter is the sum it stands for. -/
structure SlabCache.Stats : Prop where
  total : ∀ k ≤ g.orderMax, (c.orders k).total = ∑ a ∈ G.tiles \ unbilled, c.bill k a
  used : ∀ k ≤ g.orderMax, (c.orders k).used = ∑ a ∈ G.tiles, c.billUsed k a
  allTotal : c.allocated.total = G.regions.card * g.slabSize + ∑ a ∈ G.large, (c.slab a).size
  allUsed : c.allocated.used = ∑ a ∈ G.tiles, c.usedSize a + ∑ a ∈ G.large, (c.slab a).size

/-- No two free buddies below the largest order, and at most one free slab of that order. -/
structure SlabCache.Coalesced : Prop where
  buddies : ∀ a ∈ G.tiles, ∀ b ∈ G.tiles, a ∉ held → b ∉ held → (c.slab a).inUse = 0 →
    (c.slab b).inUse = 0 → (c.slab a).order < g.orderMax → (c.slab b).order = (c.slab a).order →
    b ≠ buddy (c.exp g a) a
  maxOne : (G.free g.orderMax).length ≤ 1

/-- The invariant, with the slabs `held` in transit and the slabs `unbilled` left out of the
totals. -/
structure SlabCache.Inv : Prop where
  tiles : c.Tiles g G
  lists : c.FreeLists g G held
  alloc : c.Allocated g G
  stats : c.Stats g G unbilled
  coalesced : c.Coalesced g G held
  live : ∀ a, a ∈ G.live ↔ (a ∈ G.tiles ∧ (c.slab a).inUse ≠ 0) ∨ a ∈ G.large
  heldTiles : ∀ a ∈ held, a ∈ G.tiles ∧ (c.slab a).inUse = 0
  unbilledHeld : unbilled ⊆ held

end Parts

/-! ## Frame rules -/

section Frame

variable {g : Geometry} {c c' : SlabCache} {G : Ghost} {held unbilled : Finset Nat}

theorem SlabCache.exp_congr {a : Nat} (h : c'.slab a = c.slab a) : c'.exp g a = c.exp g a := by
  simp [SlabCache.exp, h]

theorem SlabCache.bill_congr {k a : Nat} (h : c'.slab a = c.slab a) : c'.bill k a = c.bill k a := by
  simp [SlabCache.bill, h]

theorem SlabCache.usedSize_congr {a : Nat} (h : c'.slab a = c.slab a) :
    c'.usedSize a = c.usedSize a := by
  simp [SlabCache.usedSize, h]

theorem SlabCache.billUsed_congr {k a : Nat} (h : c'.slab a = c.slab a) :
    c'.billUsed k a = c.billUsed k a := by
  simp [SlabCache.billUsed, SlabCache.usedSize_congr h, h]

theorem SlabCache.inLarge_congr {a x : Nat} (h : c'.slab a = c.slab a) :
    c'.InLarge a x ↔ c.InLarge a x := by
  simp [SlabCache.InLarge, h]

theorem SlabCache.Tiles.congr (h : c.Tiles g G) (hs : ∀ a ∈ G.tiles, c'.slab a = c.slab a) :
    c'.Tiles g G where
  tiling := h.tiling.congr fun a ha => exp_congr (hs a ha)
  magic := fun a ha => by rw [hs a ha]; exact h.magic a ha
  size := fun a ha => by rw [hs a ha, exp_congr (hs a ha)]; exact h.size a ha
  inUse := fun a ha => by rw [hs a ha]; exact h.inUse a ha

theorem SlabCache.Coalesced.congr (h : c.Coalesced g G held)
    (hs : ∀ a ∈ G.tiles, c'.slab a = c.slab a) : c'.Coalesced g G held where
  buddies := fun a ha b hb hah hbh => by
    rw [hs a ha, hs b hb, exp_congr (hs a ha)]
    exact h.buddies a ha b hb hah hbh
  maxOne := h.maxOne

theorem SlabCache.FreeLists.congr (h : c.FreeLists g G held)
    (hs : ∀ a ∈ G.tiles, c'.slab a = c.slab a)
    (hheads : ∀ k ≤ g.orderMax, c.nextInList.SameAt c'.nextInList (.orders k))
    (hfree : ∀ a ∈ G.tiles, (c.slab a).inUse = 0 → a ∉ held →
      c.nextInList.SameAt c'.nextInList (.slab a)) : c'.FreeLists g G held where
  ring := fun k hk => by
    refine (h.ring k hk).congr fun y hy => ?_
    rw [List.mem_cons, List.mem_map] at hy
    rcases hy with rfl | ⟨a, ha, rfl⟩
    · exact hheads k hk
    · obtain ⟨hat, hah, -, hau⟩ := (h.mem k hk a).mp ha
      exact hfree a hat hau hah
  mem := fun k hk a => by
    rw [h.mem k hk a]
    constructor
    · rintro ⟨ha, hah, ho, hu⟩
      rw [hs a ha]
      exact ⟨ha, hah, ho, hu⟩
    · rintro ⟨ha, hah, ho, hu⟩
      rw [hs a ha] at ho hu
      exact ⟨ha, hah, ho, hu⟩

theorem SlabCache.Allocated.congr (h : c.Allocated g G)
    (hs : ∀ a ∈ G.large, c'.slab a = c.slab a)
    (hhead : c.nextInCache.SameAt c'.nextInCache .allocated)
    (hlinks : ∀ a ∈ G.allocated, c.nextInCache.SameAt c'.nextInCache (.slab a))
    (hmaps : c'.maps = c.maps) (hunmaps : c'.unmaps = c.unmaps) : c'.Allocated g G where
  ring := by
    refine h.ring.congr fun y hy => ?_
    rw [List.mem_cons, List.mem_map] at hy
    rcases hy with rfl | ⟨a, ha, rfl⟩
    · exact hhead
    · exact hlinks a ha
  mem := h.mem
  largeMagic := fun a ha => by rw [hs a ha]; exact h.largeMagic a ha
  largeOrder := fun a ha => by rw [hs a ha]; exact h.largeOrder a ha
  outside := fun a ha x hx => h.outside a ha x ((inLarge_congr (hs a ha)).mp hx)
  disjoint := fun a ha b hb x hax hbx =>
    h.disjoint a ha b hb x ((inLarge_congr (hs a ha)).mp hax) ((inLarge_congr (hs b hb)).mp hbx)
  maps := by rw [hmaps, hunmaps]; exact h.maps
  kept := by rw [hmaps]; exact h.kept

theorem SlabCache.Stats.congr (h : c.Stats g G unbilled)
    (hs : ∀ a ∈ G.tiles, c'.slab a = c.slab a) (hl : ∀ a ∈ G.large, c'.slab a = c.slab a)
    (hal : c'.allocated = c.allocated) (hor : c'.orders = c.orders) : c'.Stats g G unbilled where
  total := fun k hk => by
    rw [hor, h.total k hk]
    exact Finset.sum_congr rfl fun a ha => (bill_congr (hs a (Finset.sdiff_subset ha))).symm
  used := fun k hk => by
    rw [hor, h.used k hk]
    exact Finset.sum_congr rfl fun a ha => (billUsed_congr (hs a ha)).symm
  allTotal := by
    rw [hal, h.allTotal]
    congr 1
    exact Finset.sum_congr rfl fun a ha => by rw [hl a ha]
  allUsed := by
    rw [hal, h.allUsed]
    congr 1
    · exact Finset.sum_congr rfl fun a ha => (usedSize_congr (hs a ha)).symm
    · exact Finset.sum_congr rfl fun a ha => by rw [hl a ha]

/-- The cache does not depend on memory that is not a slab header, nor on the `next_in_list`
links of slabs that are in use or in transit. -/
theorem SlabCache.Inv.frame (h : c.Inv g G held unbilled)
    (hs : ∀ a ∈ G.tiles, c'.slab a = c.slab a) (hl : ∀ a ∈ G.large, c'.slab a = c.slab a)
    (hheads : ∀ k ≤ g.orderMax, c.nextInList.SameAt c'.nextInList (.orders k))
    (hfree : ∀ a ∈ G.tiles, (c.slab a).inUse = 0 → a ∉ held →
      c.nextInList.SameAt c'.nextInList (.slab a))
    (hhead : c.nextInCache.SameAt c'.nextInCache .allocated)
    (hlinks : ∀ a ∈ G.allocated, c.nextInCache.SameAt c'.nextInCache (.slab a))
    (hmaps : c'.maps = c.maps) (hunmaps : c'.unmaps = c.unmaps)
    (hal : c'.allocated = c.allocated) (hor : c'.orders = c.orders) : c'.Inv g G held unbilled where
  tiles := h.tiles.congr hs
  lists := h.lists.congr hs hheads hfree
  alloc := h.alloc.congr hl hhead hlinks hmaps hunmaps
  stats := h.stats.congr hs hl hal hor
  coalesced := h.coalesced.congr hs
  live := fun a => by
    rw [h.live a]
    have : a ∈ G.tiles ∧ (c.slab a).inUse ≠ 0 ↔ a ∈ G.tiles ∧ (c'.slab a).inUse ≠ 0 :=
      and_congr_right fun ha => by rw [hs a ha]
    rw [this]
  heldTiles := fun a ha => by
    obtain ⟨h1, h2⟩ := h.heldTiles a ha
    exact ⟨h1, by rw [hs a h1]; exact h2⟩
  unbilledHeld := h.unbilledHeld

/-- Arena slabs start with a slab header. -/
theorem SlabCache.Inv.region_tile (h : c.Inv g G held unbilled) {m : Nat} (hm : m ∈ G.regions) :
    m ∈ G.tiles := by
  obtain ⟨a, ha, hin⟩ := h.tiles.tiling.cover m hm m (inBlock_self _ _)
  have : a = m := InBlock.eq_of_dvd (h.tiles.tiling.dvd a ha) (h.tiles.tiling.region_dvd m hm)
    (h.tiles.tiling.order_le a ha) hin
  exact this ▸ ha

/-- A large slab is not a slab of the buddy system. -/
theorem SlabCache.Inv.large_not_tile (h : c.Inv g G held unbilled) {a : Nat} (ha : a ∈ G.large) :
    a ∉ G.tiles := by
  intro hat
  obtain ⟨m, hm, hin⟩ := h.tiles.tiling.inside a hat
  exact h.alloc.outside a ha a ⟨Nat.le_refl _, by omega⟩ m hm hin

end Frame

end SmallAllocators
