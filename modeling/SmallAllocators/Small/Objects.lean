/-
SmallAllocators.Small.Objects — the objects of an allocator and the memory
they lie in.

An object has a home: the pool whose `mempool_alloc` returned it. The pools
share the heap of slab headers and the bytes, so the invariant says, beside
the invariant of each pool, that the slabs of different pools and the large
blocks do not overlap.
-/
import SmallAllocators.Small.Sweep

namespace SmallAllocators

open Memory

/-- An object that `smalloc` returned. -/
structure SmallObject where
  ptr : Nat
  size : Nat
  /-- The pool that it was taken from; a large object has none. -/
  home : Option Nat
deriving DecidableEq

/-- The objects that live in the pool. -/
def liveAt (live : List SmallObject) (p : Nat) : List Nat :=
  (live.filter fun o => o.home = some p).map (·.ptr)

/-- Two ranges of bytes do not meet. -/
def RangesApart (a n b m : Nat) : Prop := a + n ≤ b ∨ b + m ≤ a

/-- The first byte of the object's memory; that of a large one starts with the slab header. -/
def SmallObject.start (o : SmallObject) : Nat :=
  match o.home with
  | none => o.ptr - slabSizeof
  | some _ => o.ptr

/-- The block of a large object, from `malloc`. -/
def largeSize (size : Nat) : Nat := max ((size + slabSizeof) % sizeMax) 1

/-- The number of bytes of the object's memory. -/
def SmallObject.length (alloc : SmallAlloc) (o : SmallObject) : Nat :=
  match o.home with
  | none => largeSize o.size
  | some q => (alloc.pool q).objsize

def SmallObject.Apart (alloc : SmallAlloc) (o o' : SmallObject) : Prop :=
  RangesApart o.start (o.length alloc) o'.start (o'.length alloc)

/-- The size of the slabs of a pool. -/
def SmallAlloc.slabSize (g : Geometry) (alloc : SmallAlloc) (p : Nat) : Nat :=
  g.slabOrderSize (alloc.pool p).slabOrder

/-- The class of a size. -/
def SmallAlloc.classOf (alloc : SmallAlloc) (size : Nat) : Nat :=
  smallClassCalcOffsetBySize alloc.smallClass size

/-- The header of a large block. -/
def LargeHeader (g : Geometry) (h : MslabHeap) (o : SmallObject) : Prop :=
  slabSizeof ≤ o.ptr ∧ (h.mslab (o.ptr - slabSizeof)).magic = slabMagic ∧
    (h.mslab (o.ptr - slabSizeof)).order = g.orderMax + 1

/-- The pools, their slabs and the objects in them. -/
structure SmallInv (g : Geometry) (h : MslabHeap) (alloc : SmallAlloc) (live : List SmallObject) :
    Prop where
  grouped : alloc.Grouped alloc.smallMempoolCacheSize
  usedAt : ∀ p < alloc.smallMempoolCacheSize, alloc.UsedAt p
  id : ∀ p < alloc.smallMempoolCacheSize, (alloc.pool p).id = p
  pools : ∀ p < alloc.smallMempoolCacheSize, ∃ cold, (alloc.pool p).Inv g h (liveAt live p) cold
  slabs : ∀ p < alloc.smallMempoolCacheSize, ∀ q < alloc.smallMempoolCacheSize, p ≠ q →
    ∀ a ∈ (alloc.pool p).slabs, ∀ b ∈ (alloc.pool q).slabs,
    RangesApart a (alloc.slabSize g p) b (alloc.slabSize g q)
  search : ∀ size ≤ alloc.objsizeMax, alloc.classOf size < alloc.smallMempoolCacheSize ∧
    size ≤ (alloc.pool (alloc.classOf size)).objsize
  small : ∀ o ∈ live, o.size ≤ alloc.objsizeMax →
    ∃ q, o.home = some q ∧ alloc.InGroup (alloc.classOf o.size) q ∧
    alloc.classOf o.size ≤ q
  large : ∀ o ∈ live, alloc.objsizeMax < o.size → o.home = none ∧ LargeHeader g h o
  blocks : ∀ o ∈ live, o.home = none →
    ∀ p < alloc.smallMempoolCacheSize, ∀ a ∈ (alloc.pool p).slabs,
    RangesApart o.start (o.length alloc) a (alloc.slabSize g p)
  apart : live.Pairwise (SmallObject.Apart alloc)

variable {g : Geometry} {h h' : MslabHeap} {alloc alloc' : SmallAlloc} {live : List SmallObject}
    {p q a : Nat}
  {o : SmallObject}

theorem RangesApart.symm {a n b m : Nat} (h : RangesApart a n b m) : RangesApart b m a n :=
  Or.symm h

/-- Smaller ranges do not meet either. -/
theorem RangesApart.mono {a n b m a' n' b' m' : Nat} (h : RangesApart a n b m) (h1 : a ≤ a')
    (h2 : a' + n' ≤ a + n) (h3 : b ≤ b') (h4 : b' + m' ≤ b + m) : RangesApart a' n' b' m' := by
  unfold RangesApart at *
  omega

theorem RangesApart.ne {a n b m : Nat} (h : RangesApart a n b m) (hn : 0 < n) (hm : 0 < m) :
    a ≠ b := by
  unfold RangesApart at h
  omega

theorem largeSize_pos (size : Nat) : 0 < largeSize size :=
  Nat.lt_of_lt_of_le Nat.one_pos (Nat.le_max_right _ _)

theorem SmallAlloc.slabSize_pos (g : Geometry) (alloc : SmallAlloc) (p : Nat) :
    0 < alloc.slabSize g p := by
  rw [slabSize, Geometry.slabOrderSize, Nat.one_shiftLeft]
  exact Nat.two_pow_pos _

/-! ## Live objects -/

theorem liveAt_cons_self (ptr size : Nat) (live : List SmallObject) (p : Nat) :
    liveAt (⟨ptr, size, some p⟩ :: live) p = ptr :: liveAt live p := by
  simp [liveAt]

theorem liveAt_cons_ne (live : List SmallObject) (hne : o.home ≠ some p) :
    liveAt (o :: live) p = liveAt live p := by
  simp [liveAt, hne]

theorem mem_liveAt (ho : o ∈ live) (hq : o.home = some q) : o.ptr ∈ liveAt live q :=
  List.mem_map.2 ⟨o, List.mem_filter.2 ⟨ho, by simpa using hq⟩, rfl⟩

theorem liveAt_perm {live' : List SmallObject} (hperm : live.Perm live') (p : Nat) :
    (liveAt live p).Perm (liveAt live' p) := (hperm.filter _).map _

theorem liveAt_erase_ne (ho : o ∈ live) (hne : o.home ≠ some p) :
    (liveAt live p).Perm (liveAt (live.erase o) p) := by
  have hperm := liveAt_perm (List.perm_cons_erase ho) p
  rwa [liveAt_cons_ne _ hne] at hperm

theorem liveAt_erase_self (ho : o ∈ live) (hq : o.home = some p) :
    ((liveAt live p).erase o.ptr).Perm (liveAt (live.erase o) p) := by
  have hperm := liveAt_perm (List.perm_cons_erase ho) p
  obtain ⟨ptr, size, home⟩ := o
  subst hq
  rw [liveAt_cons_self] at hperm
  have herase := hperm.erase ptr
  rwa [List.erase_cons_head] at herase

namespace SmallInv

/-- An object with a home is small, and its home is a pool. -/
theorem home_lt (hi : SmallInv g h alloc live) (ho : o ∈ live) (hq : o.home = some q) :
    q < alloc.smallMempoolCacheSize ∧ o.size ≤ alloc.objsizeMax := by
  have hsize : o.size ≤ alloc.objsizeMax := by
    by_contra hgt
    have hnone := (hi.large o ho (Nat.lt_of_not_le hgt)).1
    rw [hq] at hnone
    cases hnone
  obtain ⟨q', hq', hin, -⟩ := hi.small o ho hsize
  rw [hq, Option.some.injEq] at hq'
  subst hq'
  exact ⟨hi.grouped.lt (hi.search _ hsize).1 hin, hsize⟩

/-- An object lies in a slot of a slab of its home. -/
theorem slot_of (hi : SmallInv g h alloc live) (ho : o ∈ live) (hq : o.home = some q) :
    ∃ b ∈ (alloc.pool q).slabs, ∃ k < (alloc.pool q).objcount, o.ptr = (alloc.pool q).slot b k ∧
      b + mslabSizeof ≤ o.ptr ∧ o.ptr + (alloc.pool q).objsize ≤ b + alloc.slabSize g q := by
  obtain ⟨cold, hinv⟩ := hi.pools q (hi.home_lt ho hq).1
  obtain ⟨b, hb, k, hk, heq⟩ := hinv.contents.live_slot o.ptr (mem_liveAt ho hq)
  obtain ⟨h1, h2⟩ := hinv.contents.config.slot_bounds (a := b) hk
  exact ⟨b, hb, k, hk, heq, heq ▸ h1, heq ▸ h2⟩

theorem length_pos (hi : SmallInv g h alloc live) (ho : o ∈ live) : 0 < o.length alloc := by
  unfold SmallObject.length
  split
  · exact largeSize_pos _
  · next q hq =>
      obtain ⟨cold, hinv⟩ := hi.pools q (hi.home_lt ho hq).1
      exact hinv.contents.config.objsize_pos

end SmallInv

theorem SmallAlloc.SameLayout.length (hlay : alloc.SameLayout alloc') (o : SmallObject) :
    o.length alloc' = o.length alloc := by
  unfold SmallObject.length
  split
  · rfl
  · exact (hlay.config _).objsize

theorem SmallAlloc.SameLayout.slabSize (hlay : alloc.SameLayout alloc') (p : Nat) :
    alloc'.slabSize g p = alloc.slabSize g p := by
  rw [SmallAlloc.slabSize, SmallAlloc.slabSize, (hlay.config p).slabOrder]

theorem SmallAlloc.SameLayout.classOf (hlay : alloc.SameLayout alloc') (size : Nat) :
    alloc'.classOf size = alloc.classOf size := by
  rw [SmallAlloc.classOf, SmallAlloc.classOf, hlay.smallClass]

theorem SmallAlloc.SameLayout.apart (hlay : alloc.SameLayout alloc') (o o' : SmallObject) :
    o.Apart alloc' o' ↔ o.Apart alloc o' := by
  rw [SmallObject.Apart, SmallObject.Apart, hlay.length, hlay.length]

/-! ## Changes -/

/-- The invariant after a change, from what is new. -/
theorem SmallInv.change {live' : List SmallObject} (hi : SmallInv g h alloc live)
    (hlay : alloc.SameLayout alloc')
    (husedAt : ∀ p < alloc.smallMempoolCacheSize, alloc'.UsedAt p)
    (hpools : ∀ p < alloc.smallMempoolCacheSize, ∃ cold,
      (alloc'.pool p).Inv g h' (liveAt live' p) cold)
    (hslabs : ∀ p < alloc.smallMempoolCacheSize, ∀ q < alloc.smallMempoolCacheSize, p ≠ q →
      ∀ a ∈ (alloc'.pool p).slabs, ∀ b ∈ (alloc'.pool q).slabs, RangesApart a
    (alloc.slabSize g p) b (alloc.slabSize g q))
    (hsmall : ∀ o ∈ live', o.size ≤ alloc.objsizeMax →
      ∃ q, o.home = some q ∧ alloc.InGroup (alloc.classOf o.size) q ∧ alloc.classOf o.size ≤ q)
    (hlarge : ∀ o ∈ live', alloc.objsizeMax < o.size → o.home = none ∧ LargeHeader g h' o)
    (hblocks : ∀ o ∈ live', o.home = none → ∀ p < alloc.smallMempoolCacheSize,
      ∀ a ∈ (alloc'.pool p).slabs, RangesApart o.start (o.length alloc) a (alloc.slabSize g p))
    (hapart : live'.Pairwise (SmallObject.Apart alloc)) : SmallInv g h' alloc' live' := by
  constructor
  case grouped => rw [hlay.cacheSize]; exact hlay.grouped hi.grouped
  case usedAt => rw [hlay.cacheSize]; exact husedAt
  case id => intro p hp; rw [hlay.cacheSize] at hp; rw [(hlay.config p).id]; exact hi.id p hp
  case pools => rw [hlay.cacheSize]; exact hpools
  case slabs =>
    intro p hp q hq hne a ha b hb
    rw [hlay.cacheSize] at hp hq
    rw [hlay.slabSize, hlay.slabSize]
    exact hslabs p hp q hq hne a ha b hb
  case search =>
    intro size hsize
    rw [hlay.objsizeMax] at hsize
    rw [hlay.classOf, hlay.cacheSize, (hlay.config _).objsize]
    exact hi.search size hsize
  case small =>
    intro o ho hsize
    rw [hlay.objsizeMax] at hsize
    rw [hlay.classOf]
    obtain ⟨q, hq, hin, hle⟩ := hsmall o ho hsize
    exact ⟨q, hq, (hlay.inGroup _ _).2 hin, hle⟩
  case large => intro o ho hsize; exact hlarge o ho (hlay.objsizeMax ▸ hsize)
  case blocks =>
    intro o ho hnone p hp a ha
    rw [hlay.cacheSize] at hp
    rw [hlay.length, hlay.slabSize]
    exact hblocks o ho hnone p hp a ha
  case apart => exact hapart.imp fun hab => (hlay.apart _ _).2 hab

/-- Nothing is new but which pools are used and that slabs went back to the cache. -/
theorem SmallInv.shrink (hi : SmallInv g h alloc live) (hlay : alloc.SameLayout alloc')
    (husedAt : ∀ p < alloc.smallMempoolCacheSize, alloc'.UsedAt p)
    (hpools : ∀ p < alloc.smallMempoolCacheSize, ∀ cold,
      (alloc.pool p).Inv g h (liveAt live p) cold → (alloc'.pool p).Inv g h (liveAt live p) cold)
    (hsub : ∀ p < alloc.smallMempoolCacheSize, ∀ a ∈ (alloc'.pool p).slabs,
      a ∈ (alloc.pool p).slabs) :
    SmallInv g h alloc' live := by
  refine hi.change hlay husedAt (fun p hp => ?_)
    (fun p hp q hq hne a ha b hb => ?_) hi.small hi.large
    (fun o ho hnone p hp a ha => ?_) hi.apart
  · obtain ⟨cold, hinv⟩ := hi.pools p hp
    exact ⟨cold, hpools p hp cold hinv⟩
  · exact hi.slabs p hp q hq hne a (hsub p hp a ha) b (hsub q hq b hb)
  · exact hi.blocks o ho hnone p hp a (hsub p hp a ha)

/-- The sweep keeps the invariant. -/
theorem SmallInv.swept {done : Nat → Prop} (hi : SmallInv g h alloc live)
    (hs : alloc.Swept h alloc.smallMempoolCacheSize done alloc') : SmallInv g h alloc' live := by
  have hcase : ∀ q, alloc'.pool q = dropSpare h (alloc.pool q) ∨ alloc'.pool q = alloc.pool q := by
    intro q
    by_cases hd : done q ∧ smallMempoolCanBeDeactivated alloc q = true
    · exact Or.inl (hs.swept q hd.1 hd.2)
    · exact Or.inr (hs.kept q hd)
  refine hi.shrink hs.layout hs.usedAt (fun q _ cold hinv => ?_) fun q _ a ha => ?_
  · rcases hcase q with he | he
    · rw [he]
      exact dropSpare_inv hinv
    · rwa [he]
  · rcases hcase q with he | he
    · rw [he] at ha
      exact dropSpare_slabs ha
    · rwa [he] at ha

/-- Activation keeps the invariant. -/
theorem SmallInv.switched {active : Nat → Prop} (hi : SmallInv g h alloc live)
    (hs : alloc.Switched alloc.smallMempoolCacheSize active alloc') : SmallInv g h alloc' live := by
  refine hi.shrink hs.layout hs.usedAt (fun q _ cold hinv => ?_) fun q _ a ha => ?_
  · rwa [hs.pool]
  · rwa [hs.pool] at ha

end SmallAllocators
