/-
SmallAllocators.Mempool.Invariant — slabs, slots and free lists.

A slab of a pool is a header and `objcount` slots. The slots behind
`free_offset` were never used, and the free list threads some of the used
ones; `SlabOk` says that the other slots are the live objects. `Contents`
is about all slabs of a pool, `Lists` about the tree of hot slabs, the list
of cold ones and the spare one, and `Status` about what each of them holds.
-/
import SmallAllocators.Mempool.Model

namespace SmallAllocators

open Memory

/-! ## Pointers in memory -/

theorem loadPtr_congr {mem mem' : Nat → UInt8} {a : Nat}
    (h : ∀ x, a ≤ x → x < a + ptrSize → mem' x = mem x) :
    loadPtr mem' a = loadPtr mem a := by
  unfold loadPtr
  congr 1
  refine List.map_congr_left fun i hi => ?_
  rw [List.mem_range] at hi
  rw [h (a + i) (by omega) (by omega)]

theorem loadPtr_storePtr (mem : Nat → UInt8) (a : Nat) {v : Nat} (hv : v < sizeMax) :
    loadPtr (storePtr mem a v) a = v := by
  have hbyte : ∀ i, i < ptrSize → storePtr mem a v (a + i) = UInt8.ofNat (v / 256 ^ i) := by
    intro i hi
    rw [storePtr, fill, if_pos (by omega), Nat.add_sub_cancel_left]
  have hsum : loadPtr (storePtr mem a v) a
      = ((List.range ptrSize).map fun i => v / 256 ^ i % 256 * 256 ^ i).sum := by
    unfold loadPtr
    congr 1
    refine List.map_congr_left fun i hi => ?_
    rw [hbyte i (List.mem_range.1 hi), UInt8.toNat_ofNat']
  rw [hsum]
  simp only [ptrSize, List.range_succ, List.range_zero, List.nil_append, List.map_append,
    List.map_cons, List.map_nil, List.sum_append, List.sum_cons, List.sum_nil, sizeMax] at *
  omega

theorem storePtr_of_not {mem : Nat → UInt8} {a v x : Nat} (h : ¬ (a ≤ x ∧ x < a + ptrSize)) :
    storePtr mem a v x = mem x := fill_of_not h

/-! ## Pools and slots -/

/-- The address of slot `k` of a slab. -/
def Mempool.slot (p : Mempool) (a k : Nat) : Nat := a + p.offset + k * p.objsize

/-- The constants of a pool. -/
structure Mempool.Config (g : Geometry) (p : Mempool) : Prop where
  order : p.slabOrder ≤ g.orderMax
  objsize : ptrSize ≤ p.objsize
  objcount : 0 < p.objcount
  header : mslabSizeof ≤ p.offset
  size : p.offset + p.objcount * p.objsize = g.slabOrderSize p.slabOrder
  mask : p.slabPtrMask = sizeMax - 1 - (g.slabOrderSize p.slabOrder - 1)

/-- The free list threads the slots. -/
def FreeChain (p : Mempool) (mem : Nat → UInt8) (a : Nat) : Nat → List Nat → Prop
  | ptr, [] => ptr = 0
  | ptr, k :: ks => ptr = p.slot a k ∧ FreeChain p mem a (loadPtr mem ptr) ks

/-- The slab's first `m` slots were used, and `ks` of them are on the free list. -/
structure SlabOk (g : Geometry) (h : MslabHeap) (p : Mempool) (live : List Nat) (a m : Nat)
    (ks : List Nat) : Prop where
  magic : (h.mslab a).magic = slabMagic
  order : (h.mslab a).order = p.slabOrder
  size : (h.mslab a).size = g.slabOrderSize p.slabOrder
  owner : (h.mslab a).mempool = p.id
  used : m ≤ p.objcount
  offset : (h.mslab a).freeOffset = p.offset + m * p.objsize
  chain : FreeChain p h.mem a (h.mslab a).freeList ks
  nodup : ks.Nodup
  lt : ∀ k ∈ ks, k < m
  nfree : (h.mslab a).nfree = ks.length + (p.objcount - m)
  live : ∀ k < p.objcount, p.slot a k ∈ live ↔ k < m ∧ k ∉ ks

/-- The slabs of a pool and the live objects in them. -/
structure Contents (g : Geometry) (h : MslabHeap) (p : Mempool) (live : List Nat) : Prop where
  config : p.Config g
  nodup : p.slabs.Nodup
  place : ∀ a ∈ p.slabs, 0 < a ∧ g.slabOrderSize p.slabOrder ∣ a ∧
    a + g.slabOrderSize p.slabOrder ≤ sizeMax
  slab : ∀ a ∈ p.slabs, ∃ m ks, SlabOk g h p live a m ks
  live_slot : ∀ x ∈ live, ∃ a ∈ p.slabs, ∃ k < p.objcount, x = p.slot a k
  live_nodup : live.Nodup
  used : p.stats.used = p.objsize * live.length
  total : p.stats.total = g.slabOrderSize p.slabOrder * p.slabs.length

/-- The tree of hot slabs, the list of cold slabs and the spare slab. -/
structure Lists (h : MslabHeap) (p : Mempool) (cold : List Nat) : Prop where
  hotSorted : p.hotSlabs.Pairwise (· < ·)
  hotMem : ∀ a ∈ p.hotSlabs, a ∈ p.slabs
  hotFlag : ∀ a ∈ p.slabs, (h.mslab a).inHotSlabs = decide (a ∈ p.hotSlabs)
  first : p.firstHotSlab = p.hotSlabs.headD 0
  ring : IsRing h.nextInCold (.head p.id) (cold.map .slab)
  coldMem : ∀ a ∈ cold, a ∈ p.slabs ∧ a ∉ p.hotSlabs ∧ a ≠ p.spare
  loose : ∀ a ∈ p.slabs, a ∉ cold → h.nextInCold.SelfLinked (.slab a)
  spare : p.spare ≠ 0 → p.spare ∈ p.slabs ∧ p.spare ∉ p.hotSlabs

/-- How many objects are free in a slab, by the place of the slab. -/
structure Status (h : MslabHeap) (p : Mempool) (cold : List Nat) (a : Nat) : Prop where
  ofHot : a ∈ p.hotSlabs → 0 < (h.mslab a).nfree ∧ ((h.mslab a).nfree < p.objcount ∨ p.objcount = 1)
  ofCold : a ∈ cold → 0 < (h.mslab a).nfree ∧ (h.mslab a).nfree < p.objcount >>> maxColdFractionLb
  ofSpare : a = p.spare → (h.mslab a).nfree = p.objcount
  ofFull : a ∉ p.hotSlabs → a ∉ cold → a ≠ p.spare → (h.mslab a).nfree = 0

/-- The invariant of a pool. -/
structure Mempool.Inv (g : Geometry) (h : MslabHeap) (p : Mempool) (live cold : List Nat) :
    Prop where
  contents : Contents g h p live
  lists : Lists h p cold
  status : ∀ a ∈ p.slabs, Status h p cold a

section Slots

variable {g : Geometry} {p : Mempool}

theorem Mempool.Config.slot_inj (hp : p.Config g) {a k k' : Nat} (h : p.slot a k = p.slot a k') :
    k = k' := by
  have hpos : 0 < p.objsize := Nat.lt_of_lt_of_le (by decide) hp.objsize
  unfold Mempool.slot at h
  exact Nat.eq_of_mul_eq_mul_right hpos (by omega)

/-- A slot lies behind the header and inside the slab. -/
theorem Mempool.Config.slot_bounds (hp : p.Config g) {a k : Nat} (hk : k < p.objcount) :
    a + mslabSizeof ≤ p.slot a k ∧ p.slot a k + p.objsize ≤ a + g.slabOrderSize p.slabOrder := by
  have hle : (k + 1) * p.objsize ≤ p.objcount * p.objsize := Nat.mul_le_mul_right _ hk
  have h1 := hp.header
  have h2 := hp.size
  rw [Nat.add_mul, Nat.one_mul] at hle
  unfold Mempool.slot
  omega

/-- Two slots of a slab do not overlap. -/
theorem Mempool.slot_apart {a k k' : Nat} (hne : k ≠ k') :
    p.slot a k + p.objsize ≤ p.slot a k' ∨ p.slot a k' + p.objsize ≤ p.slot a k := by
  unfold Mempool.slot
  rcases Nat.lt_or_gt_of_ne hne with h | h
  · have hle : (k + 1) * p.objsize ≤ k' * p.objsize := Nat.mul_le_mul_right _ h
    rw [Nat.add_mul, Nat.one_mul] at hle
    omega
  · have hle : (k' + 1) * p.objsize ≤ k * p.objsize := Nat.mul_le_mul_right _ h
    rw [Nat.add_mul, Nat.one_mul] at hle
    omega

/-- Two slabs of one size do not overlap. -/
theorem slab_apart {n a b : Nat} (ha : n ∣ a) (hb : n ∣ b) (hne : a ≠ b) :
    a + n ≤ b ∨ b + n ≤ a := by
  obtain ⟨i, rfl⟩ := ha
  obtain ⟨j, rfl⟩ := hb
  rcases Nat.lt_trichotomy i j with h | h | h
  · have := Nat.mul_le_mul_left n (show i + 1 ≤ j from h)
    rw [Nat.mul_add, Nat.mul_one] at this
    exact Or.inl this
  · exact absurd (by rw [h]) hne
  · have := Nat.mul_le_mul_left n (show j + 1 ≤ i from h)
    rw [Nat.mul_add, Nat.mul_one] at this
    exact Or.inr this

end Slots

section Changes

variable {g : Geometry} {h h' : MslabHeap} {p p' : Mempool} {live cold : List Nat} {a : Nat}

@[simp] theorem MslabHeap.setMslab_self (h : MslabHeap) (a : Nat) (s : Mslab) :
    (h.setMslab a s).mslab a = s := by
  simp [MslabHeap.setMslab]

@[simp] theorem MslabHeap.setMslab_mem (h : MslabHeap) (a : Nat) (s : Mslab) :
    (h.setMslab a s).mem = h.mem := rfl

@[simp] theorem MslabHeap.setMslab_nextInCold (h : MslabHeap) (a : Nat) (s : Mslab) :
    (h.setMslab a s).nextInCold = h.nextInCold := rfl

theorem MslabHeap.setMslab_ne (h : MslabHeap) {a b : Nat} (s : Mslab) (hne : b ≠ a) :
    (h.setMslab a s).mslab b = h.mslab b := by
  simp [MslabHeap.setMslab, hne]

/-! ## Frames -/

theorem FreeChain.congr {mem mem' : Nat → UInt8} {ks : List Nat} {ptr : Nat}
    (hc : FreeChain p mem a ptr ks)
    (hm : ∀ k ∈ ks, ∀ x, p.slot a k ≤ x → x < p.slot a k + ptrSize → mem' x = mem x) :
    FreeChain p mem' a ptr ks := by
  induction ks generalizing ptr with
  | nil => exact hc
  | cons k ks ih =>
      obtain ⟨rfl, hrest⟩ := hc
      refine ⟨rfl, ?_⟩
      rw [loadPtr_congr (hm k List.mem_cons_self)]
      exact ih hrest fun k' hk' => hm k' (List.mem_cons_of_mem _ hk')

/-- The two pools have the same constants. -/
structure Mempool.SameConfig (p p' : Mempool) : Prop where
  id : p'.id = p.id
  objsize : p'.objsize = p.objsize
  slabOrder : p'.slabOrder = p.slabOrder
  objcount : p'.objcount = p.objcount
  offset : p'.offset = p.offset
  mask : p'.slabPtrMask = p.slabPtrMask

theorem Mempool.SameConfig.refl (p : Mempool) : p.SameConfig p := ⟨rfl, rfl, rfl, rfl, rfl, rfl⟩

theorem Mempool.SameConfig.trans {p₁ p₂ p₃ : Mempool} (h : p₁.SameConfig p₂)
    (h' : p₂.SameConfig p₃) :
    p₁.SameConfig p₃ :=
  ⟨h'.id.trans h.id, h'.objsize.trans h.objsize, h'.slabOrder.trans h.slabOrder,
    h'.objcount.trans h.objcount, h'.offset.trans h.offset, h'.mask.trans h.mask⟩

theorem Mempool.SameConfig.slot (hs : p.SameConfig p') (a k : Nat) : p'.slot a k = p.slot a k := by
  rw [Mempool.slot, Mempool.slot, hs.offset, hs.objsize]

theorem Mempool.SameConfig.config (hs : p.SameConfig p') (hp : p.Config g) : p'.Config g := by
  refine ⟨?_, ?_, ?_, ?_, ?_, ?_⟩
  · rw [hs.slabOrder]; exact hp.order
  · rw [hs.objsize]; exact hp.objsize
  · rw [hs.objcount]; exact hp.objcount
  · rw [hs.offset]; exact hp.header
  · rw [hs.offset, hs.objcount, hs.objsize, hs.slabOrder]; exact hp.size
  · rw [hs.mask, hs.slabOrder]; exact hp.mask

theorem FreeChain.sameConfig (hs : p.SameConfig p') {mem : Nat → UInt8} {ks : List Nat} {ptr : Nat}
    (hc : FreeChain p mem a ptr ks) : FreeChain p' mem a ptr ks := by
  induction ks generalizing ptr with
  | nil => exact hc
  | cons k ks ih => exact ⟨hc.1.trans (hs.slot a k).symm, ih hc.2⟩

/-- The two headers differ at most in the flag. -/
structure Mslab.SameObjects (s s' : Mslab) : Prop where
  magic : s'.magic = s.magic
  order : s'.order = s.order
  size : s'.size = s.size
  freeList : s'.freeList = s.freeList
  freeOffset : s'.freeOffset = s.freeOffset
  nfree : s'.nfree = s.nfree
  mempool : s'.mempool = s.mempool

theorem Mslab.SameObjects.refl (s : Mslab) : s.SameObjects s := ⟨rfl, rfl, rfl, rfl, rfl, rfl, rfl⟩

theorem Mslab.SameObjects.of_eq {s s' : Mslab} (h : s' = s) : s.SameObjects s' := h ▸ .refl s'

theorem MslabHeap.setHotFlag_sameObjects (h : MslabHeap) (a b : Nat) (flag : Bool) :
    (h.mslab b).SameObjects ((h.setHotFlag a flag).mslab b) := by
  unfold MslabHeap.setHotFlag
  by_cases hb : b = a
  · subst hb
    rw [h.setMslab_self]
    exact ⟨rfl, rfl, rfl, rfl, rfl, rfl, rfl⟩
  · exact .of_eq (h.setMslab_ne _ hb)

/-- A slab is untouched by changes of its flag and of other slabs. -/
theorem SlabOk.congr {m : Nat} {ks live' : List Nat} (hs : SlabOk g h p live a m ks)
    (hp : p.Config g) (hsame : p.SameConfig p') (hslab : (h.mslab a).SameObjects (h'.mslab a))
    (hmem : ∀ x, a ≤ x → x < a + g.slabOrderSize p.slabOrder → h'.mem x = h.mem x)
    (hlive : ∀ k < p.objcount, p.slot a k ∈ live' ↔ p.slot a k ∈ live) :
    SlabOk g h' p' live' a m ks := by
  constructor
  case magic => rw [hslab.magic]; exact hs.magic
  case order => rw [hslab.order, hsame.slabOrder]; exact hs.order
  case size => rw [hslab.size, hsame.slabOrder]; exact hs.size
  case owner => rw [hslab.mempool, hsame.id]; exact hs.owner
  case used => rw [hsame.objcount]; exact hs.used
  case offset => rw [hslab.freeOffset, hsame.offset, hsame.objsize]; exact hs.offset
  case chain =>
    rw [hslab.freeList]
    refine (hs.chain.congr fun k hk x h1 h2 => ?_).sameConfig hsame
    have hb := hp.slot_bounds (a := a) (Nat.lt_of_lt_of_le (hs.lt k hk) hs.used)
    have hsz := hp.objsize
    exact hmem x (by omega) (by omega)
  case nodup => exact hs.nodup
  case lt => exact hs.lt
  case nfree => rw [hslab.nfree, hsame.objcount]; exact hs.nfree
  case live =>
    intro k hk
    rw [hsame.objcount] at hk
    rw [hsame.slot, hlive k hk]
    exact hs.live k hk

/-- The contents of a pool do not depend on its lists, and on what is outside its slabs. -/
theorem Contents.congr (hc : Contents g h p live) (hsame : p.SameConfig p')
    (hslabs : p'.slabs = p.slabs) (hstats : p'.stats = p.stats)
    (hslab : ∀ a ∈ p.slabs, (h.mslab a).SameObjects (h'.mslab a))
    (hmem : ∀ a ∈ p.slabs, ∀ x, a ≤ x → x < a + g.slabOrderSize p.slabOrder → h'.mem x = h.mem x) :
    Contents g h' p' live := by
  constructor
  case config => exact hsame.config hc.config
  case nodup => rw [hslabs]; exact hc.nodup
  case place => rw [hslabs, hsame.slabOrder]; exact hc.place
  case slab =>
    intro a ha
    rw [hslabs] at ha
    obtain ⟨m, ks, hs⟩ := hc.slab a ha
    exact ⟨m, ks, hs.congr hc.config hsame (hslab a ha) (hmem a ha) fun _ _ => Iff.rfl⟩
  case live_slot =>
    intro x hx
    obtain ⟨a, ha, k, hk, rfl⟩ := hc.live_slot x hx
    exact ⟨a, hslabs ▸ ha, k, hsame.objcount ▸ hk, (hsame.slot a k).symm⟩
  case live_nodup => exact hc.live_nodup
  case used => rw [hstats, hsame.objsize]; exact hc.used
  case total => rw [hstats, hsame.slabOrder, hslabs]; exact hc.total

/-- The lists of a pool do not depend on what is outside its slabs. -/
theorem Lists.congr (hl : Lists h p cold)
    (hflag : ∀ a ∈ p.slabs, (h'.mslab a).inHotSlabs = (h.mslab a).inHotSlabs)
    (hlinks : ∀ a ∈ p.slabs, h.nextInCold.SameAt h'.nextInCold (.slab a))
    (hhead : h.nextInCold.SameAt h'.nextInCold (.head p.id)) : Lists h' p cold := by
  refine { hl with
    hotFlag := fun a ha => ?_, ring := hl.ring.congr fun y hy => ?_, loose := fun a ha hn => ?_ }
  · rw [hflag a ha]
    exact hl.hotFlag a ha
  · rcases List.mem_cons.1 hy with rfl | hy
    · exact hhead
    · obtain ⟨a, ha, rfl⟩ := List.mem_map.1 hy
      exact hlinks a (hl.coldMem a ha).1
  · obtain ⟨h1, h2⟩ := hl.loose a ha hn
    obtain ⟨h3, h4⟩ := hlinks a ha
    exact ⟨h3.trans h1, h4.trans h2⟩

end Changes

end SmallAllocators
