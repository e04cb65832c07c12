/-
SmallAllocators.Matras.Invariant — the extents of a matras and its views.

The head and the views are versions of one tree (`Lib.Snapshots`): the root,
the extents of the second level and those of the third level are its nodes,
and the blocks are the items. The invariant says how the versions share
extents, that all extents which a version reaches are allocated and not
reserved, and that the list of reserved extents is in order.
-/
import SmallAllocators.Lib.Snapshots
import SmallAllocators.Matras.Address

namespace SmallAllocators

/-- A place in the tree of extents. -/
inductive ExtentPos where
  | root
  | mid (i : Nat)
  | leaf (e : Nat)
deriving DecidableEq

/-- The blocks below an extent. -/
def MatrasConfig.layout (c : MatrasConfig) : TreeLayout ExtentPos where
  below
    | .root, _ => True
    | .mid i, id => c.extentOf id / c.fanout = i
    | .leaf e, id => c.extentOf id = e
  first
    | .root => 0
    | .mid i => i * c.fanout * c.perExtent
    | .leaf e => e * c.perExtent
  below_first p := by
    cases p with
    | root => trivial
    | mid i =>
        show i * c.fanout * c.perExtent / c.perExtent / c.fanout = i
        rw [Nat.mul_div_cancel _ c.perExtent_pos, Nat.mul_div_cancel _ c.fanout_pos]
    | leaf e =>
        show e * c.perExtent / c.perExtent = e
        rw [Nat.mul_div_cancel _ c.perExtent_pos]
  first_le p id h := by
    cases p with
    | root => exact Nat.zero_le id
    | mid i =>
        have h1 : id / c.perExtent / c.fanout * c.fanout ≤ id / c.perExtent :=
          Nat.div_mul_le_self _ _
        have h2 : id / c.perExtent * c.perExtent ≤ id := Nat.div_mul_le_self _ _
        have h' : id / c.perExtent / c.fanout = i := h
        rw [h'] at h1
        exact Nat.le_trans (Nat.mul_le_mul_right _ h1) h2
    | leaf e =>
        have h' : id / c.perExtent = e := h
        show e * c.perExtent ≤ id
        rw [← h']
        exact Nat.div_mul_le_self _ _

namespace Matras

/-- The address of an extent of a view. -/
def addr (m : Matras) (v : MatrasView) : ExtentPos → Nat
  | .root => v.root
  | .mid i => m.slots v.root i
  | .leaf e => m.slots (m.slots v.root (e / m.config.fanout)) (e % m.config.fanout)

/-- A view as a version of the tree. -/
def snap (m : Matras) (v : MatrasView) : Snapshot ExtentPos where
  count := v.blockCount
  addr := m.addr v

/-- The head and the views, newest first. -/
def all (m : Matras) : List MatrasView := m.head :: m.views

/-- The view has a block below the position. -/
def Covers (m : Matras) (v : MatrasView) (p : ExtentPos) : Prop :=
  m.config.layout.first p < v.blockCount

/-- The extent is reached from the head or from a view. -/
def Reached (m : Matras) (x : Nat) : Prop := ∃ v ∈ m.all, ∃ p, m.Covers v p ∧ m.addr v p = x

end Matras

/-- The list of reserved extents is threaded through them. -/
def ReservedChain (slots : Nat → Nat → Nat) : Nat → List Nat → Prop
  | _, [] => True
  | ptr, a :: rs => ptr = a ∧ ReservedChain slots (slots a 0) rs

/-- The allocator of extents, with the extents that are reserved. -/
structure MatrasAllocator.Ok (a : MatrasAllocator) (slots : Nat → Nat → Nat) (rs : List Nat) :
    Prop where
  nodup : a.allocated.Nodup
  chain : ReservedChain slots a.reservedExtents rs
  size : a.numReservedExtents = rs.length
  reserved : ∀ x ∈ rs, x ∈ a.allocated
  reservedNodup : rs.Nodup
  /-- What `alloc_func` returns is not in use. -/
  fresh : ∀ x, some x ∈ a.supply → x ∉ a.allocated
  distinct : a.supply.Pairwise fun x y => x ≠ none → x ≠ y

/-- The extents that the matras owns: those that are allocated and not reserved. -/
def Matras.Owns (m : Matras) (rs : List Nat) (x : Nat) : Prop := x ∈ m.allocator.allocated ∧ x ∉ rs

/-- The invariant of a matras. -/
structure Matras.Inv (m : Matras) (rs : List Nat) : Prop where
  config : m.config.Ok
  sharing : Snapshot.Sharing m.config.layout (m.all.map m.snap)
  owned : ∀ v ∈ m.all, ∀ p, m.Covers v p → m.Owns rs (m.addr v p)
  bound : ∀ v ∈ m.all, v.blockCount ≤ m.config.capacity
  alloc : m.allocator.Ok m.slots rs

variable {m m' : Matras} {rs rs' : List Nat} {v w : MatrasView} {p q : ExtentPos} {id x : Nat}

theorem Matras.head_mem (m : Matras) : m.head ∈ m.all := List.mem_cons_self

theorem Matras.view_mem (hv : v ∈ m.views) : v ∈ m.all := List.mem_cons_of_mem _ hv

/-! ## Blocks and positions -/

/-- Where a block lies. -/
theorem matrasViewGetNoCheck_eq (hc : m.config.Ok) (v : MatrasView) (id : Nat) :
    matrasViewGetNoCheck m v id =
      { extent := m.addr v (.leaf (m.config.extentOf id)),
        offset := id % m.config.perExtent * m.config.blockSize } := by
  rw [matrasViewGetNoCheck, hc.n1_eq, hc.n2_eq, hc.n3_eq]
  rfl

/-- The extents above a block. -/
def MatrasConfig.onPath (c : MatrasConfig) (id : Nat) : ExtentPos → Prop
  | .root => True
  | .mid i => c.extentOf id / c.fanout = i
  | .leaf e => c.extentOf id = e

theorem MatrasConfig.below_iff {c : MatrasConfig} : c.layout.below p id ↔ c.onPath id p := by
  cases p <;> rfl

/-- A view that has a block has the extents above it. -/
theorem Matras.Covers.of_path (hp : m.config.onPath id p) (hid : id < v.blockCount) :
    m.Covers v p :=
  Nat.lt_of_le_of_lt (m.config.layout.first_le p id (MatrasConfig.below_iff.2 hp)) hid

/-- A view that has a block has its extent. -/
theorem Matras.Covers.of_lt (hid : id < v.blockCount) : m.Covers v (.leaf (m.config.extentOf id)) :=
  .of_path (show m.config.extentOf id = m.config.extentOf id from rfl) hid

theorem Matras.covers_root : m.Covers v .root ↔ 0 < v.blockCount := Iff.rfl

theorem Matras.covers_mid {i : Nat} :
    m.Covers v (.mid i) ↔ i * m.config.fanout * m.config.perExtent < v.blockCount := Iff.rfl

theorem Matras.covers_leaf {e : Nat} :
    m.Covers v (.leaf e) ↔ e * m.config.perExtent < v.blockCount := Iff.rfl

theorem Matras.Covers.mid_of_leaf {e : Nat} (h : m.Covers v (.leaf e)) :
    m.Covers v (.mid (e / m.config.fanout)) := by
  have hle := Nat.mul_le_mul_right m.config.perExtent (Nat.div_mul_le_self e m.config.fanout)
  exact Nat.lt_of_le_of_lt hle h

theorem Matras.Covers.root (h : m.Covers v p) : m.Covers v .root :=
  Nat.lt_of_le_of_lt (Nat.zero_le _) h

/-- A view that has the extent of a block has the extents above it. -/
theorem Matras.Covers.of_leaf (h : m.Covers v (.leaf (m.config.extentOf id)))
    (hp : m.config.onPath id p) : m.Covers v p := by
  cases p with
  | root => exact h.root
  | mid i =>
      cases hp
      exact h.mid_of_leaf
  | leaf e =>
      cases hp
      exact h

/-! ## Frames -/

/-- The view keeps its extents if the tables that it reads keep what it reads. -/
theorem Matras.addr_eq_of_slots (hc : m'.config = m.config)
    (hslots : ∀ q, m.Covers v q → ∀ i, m'.slots (m.addr v q) i = m.slots (m.addr v q) i)
    (hp : m.Covers v p) :
    m'.addr v p = m.addr v p := by
  cases p with
  | root => rfl
  | mid i => exact hslots .root hp.root i
  | leaf e =>
      show m'.slots (m'.slots v.root (e / m'.config.fanout)) (e % m'.config.fanout) = _
      have hmid : m'.slots v.root (e / m.config.fanout) = m.slots v.root (e / m.config.fanout) :=
        hslots .root hp.root _
      rw [hc, hmid]
      exact hslots _ hp.mid_of_leaf _

theorem ReservedChain.congr {slots slots' : Nat → Nat → Nat} {rs : List Nat} {ptr : Nat}
    (h : ReservedChain slots ptr rs) (hs : ∀ x ∈ rs, slots' x = slots x) :
    ReservedChain slots' ptr rs := by
  induction rs generalizing ptr with
  | nil => trivial
  | cons a rs ih =>
      refine ⟨h.1, ?_⟩
      rw [hs a List.mem_cons_self]
      exact ih h.2 fun x hx => hs x (List.mem_cons_of_mem _ hx)

theorem MatrasAllocator.Ok.congr {a : MatrasAllocator} {slots slots' : Nat → Nat → Nat}
    (h : a.Ok slots rs) (hs : ∀ x ∈ rs, slots' x = slots x) : a.Ok slots' rs :=
  { h with chain := h.chain.congr hs }

namespace Matras.Inv

/-- Two views have an address at one position only. -/
theorem inj (hi : m.Inv rs) (hv : v ∈ m.all) (hw : w ∈ m.all) (hp : m.Covers v p)
    (hq : m.Covers w q) (h : m.addr v p = m.addr w q) : p = q :=
  hi.sharing.inj _ (List.mem_map_of_mem hv) _ (List.mem_map_of_mem hw) p q hp hq h

/-- The invariant after a change of the head. The views keep their extents, and each extent of
the head is one that it had or a new one. -/
theorem update (hi : m.Inv rs) (hc : m'.config = m.config) (hv : m'.views = m.views)
    (hviews : ∀ v ∈ m.views, ∀ p, m.Covers v p → m'.addr v p = m.addr v p)
    (hinj : ∀ p q, m'.Covers m'.head p → m'.Covers m'.head q →
      m'.addr m'.head p = m'.addr m'.head q → p = q)
    (hold : ∀ p, m'.Covers m'.head p → (m.Covers m.head p ∧ m'.addr m'.head p = m.addr m.head p) ∨
      ∀ v ∈ m.views, ∀ q, m.Covers v q → m'.addr m'.head p ≠ m.addr v q)
    (hgrow : ∀ v ∈ m.views, ∀ p, m.Covers m.head p → m.Covers v p → m.addr m.head p = m.addr v p →
      m'.addr m'.head p = m.addr m.head p → ∀ id, m.config.onPath id p → id < v.blockCount →
    id < m'.head.blockCount)
    (howned : ∀ p, m'.Covers m'.head p → m'.Owns rs' (m'.addr m'.head p))
    (hkeep : ∀ v ∈ m.views, ∀ p, m.Covers v p → m'.Owns rs' (m.addr v p))
    (hbound : m'.head.blockCount ≤ m'.config.capacity) (halloc : m'.allocator.Ok m'.slots rs') :
    m'.Inv rs' := by
  have hcov : ∀ v p, m'.Covers v p ↔ m.Covers v p :=
    fun v p => by rw [Matras.Covers, Matras.Covers, hc]
  constructor
  case config => rw [hc]; exact hi.config
  case sharing =>
    rw [hc]
    have hlist := hi.sharing
    rw [Matras.all, List.map_cons] at hlist
    rw [Matras.all, List.map_cons, hv]
    -- first the head, and then the views, which agree
    have hhead : Snapshot.Sharing m.config.layout (m'.snap m'.head :: m.views.map m.snap) := by
      refine hlist.update (fun p q hp hq => hinj p q ((hcov _ _).2 hp) ((hcov _ _).2 hq))
        (fun p hp => ?_)
        fun u hu p hs hs' id hb hlt => ?_
      · rcases hold p ((hcov _ _).2 hp) with h | hnew
        · exact Or.inl h
        · refine Or.inr fun u hu q hq => ?_
          obtain ⟨v, hv', rfl⟩ := List.mem_map.1 hu
          exact hnew v hv' q hq
      · obtain ⟨v, hv', rfl⟩ := List.mem_map.1 hu
        exact hgrow v hv' p hs.left hs.right hs.eq (hs'.eq.trans hs.eq.symm) id
          (MatrasConfig.below_iff.1 hb) hlt
    exact hhead.congr_tail fun v hv' => ⟨rfl, fun p hp => hviews v hv' p hp⟩
  case owned =>
    intro v hv' p hp
    rw [Matras.all, hv] at hv'
    rcases List.mem_cons.1 hv' with rfl | hv'
    · exact howned p hp
    · rw [hcov] at hp
      rw [hviews v hv' p hp]
      exact hkeep v hv' p hp
  case bound =>
    intro v hv'
    rw [Matras.all, hv] at hv'
    rcases List.mem_cons.1 hv' with rfl | hv'
    · exact hbound
    · rw [hc]
      exact hi.bound v (Matras.view_mem hv')
  case alloc => exact halloc

end Matras.Inv

/-! ## The allocator of extents -/

/-- The head, the views, the sizes and the memory are the same. -/
structure Matras.SameTree (m m' : Matras) : Prop where
  head : m'.head = m.head
  views : m'.views = m.views
  config : m'.config = m.config
  slots : m'.slots = m.slots
  bytes : m'.bytes = m.bytes

namespace Matras.SameTree

theorem refl (m : Matras) : m.SameTree m := ⟨rfl, rfl, rfl, rfl, rfl⟩

theorem addExtents (h : m.SameTree m') (k : BitVec 32) : m.SameTree (m'.addExtents k) :=
  ⟨h.head, h.views, h.config, h.slots, h.bytes⟩

theorem addReadViewExtents (h : m.SameTree m') (k : BitVec 32) :
    m.SameTree (m'.addReadViewExtents k) :=
  ⟨h.head, h.views, h.config, h.slots, h.bytes⟩

theorem setAllocator (h : m.SameTree m') (a : MatrasAllocator) : m.SameTree (m'.setAllocator a) :=
  ⟨h.head, h.views, h.config, h.slots, h.bytes⟩

theorem trans {m₁ m₂ m₃ : Matras} (h : m₁.SameTree m₂) (h' : m₂.SameTree m₃) : m₁.SameTree m₃ :=
  ⟨h'.head.trans h.head, h'.views.trans h.views, h'.config.trans h.config, h'.slots.trans h.slots,
    h'.bytes.trans h.bytes⟩

theorem addr (h : m.SameTree m') (v : MatrasView) (p : ExtentPos) : m'.addr v p = m.addr v p := by
  cases p <;> simp only [Matras.addr, h.slots, h.config]

theorem covers (h : m.SameTree m') (v : MatrasView) (p : ExtentPos) :
    m'.Covers v p ↔ m.Covers v p := by
  rw [Matras.Covers, Matras.Covers, h.config]

theorem all (h : m.SameTree m') : m'.all = m.all := by rw [Matras.all, Matras.all, h.head, h.views]

theorem reached (h : m.SameTree m') (x : Nat) : m'.Reached x ↔ m.Reached x := by
  simp only [Matras.Reached, h.all, h.covers, h.addr]

/-- The invariant, when the extents that are in use stay owned. -/
theorem inv (h : m.SameTree m') (hi : m.Inv rs)
    (howns : ∀ v ∈ m.all, ∀ p, m.Covers v p → m'.Owns rs' (m.addr v p))
    (halloc : m'.allocator.Ok m'.slots rs') : m'.Inv rs' := by
  have hsnap : m'.snap = m.snap := by
    funext v
    simp only [Matras.snap, Snapshot.mk.injEq, true_and]
    funext p
    exact h.addr v p
  constructor
  case config => rw [h.config]; exact hi.config
  case sharing => rw [h.config, h.all, hsnap]; exact hi.sharing
  case owned =>
    intro v hv p hp
    rw [h.all] at hv
    rw [h.covers] at hp
    rw [h.addr]
    exact howns v hv p hp
  case bound => rw [h.all, h.config]; exact hi.bound
  case alloc => exact halloc

end Matras.SameTree

/-! The counters say nothing about the extents. -/

@[simp] theorem Matras.owns_addExtents {k : BitVec 32} :
    (m.addExtents k).Owns rs x ↔ m.Owns rs x := Iff.rfl

@[simp] theorem Matras.owns_addReadViewExtents {k : BitVec 32} :
    (m.addReadViewExtents k).Owns rs x ↔ m.Owns rs x :=
  Iff.rfl

theorem Matras.Inv.addExtents (hi : m.Inv rs) (k : BitVec 32) : (m.addExtents k).Inv rs :=
  ((Matras.SameTree.refl m).addExtents k).inv hi hi.owned hi.alloc

theorem Matras.Inv.addReadViewExtents (hi : m.Inv rs) (k : BitVec 32) :
    (m.addReadViewExtents k).Inv rs :=
  ((Matras.SameTree.refl m).addReadViewExtents k).inv hi hi.owned hi.alloc

/-- The number of extents that the allocator can deliver before it fails. -/
def MatrasAllocator.avail (a : MatrasAllocator) : Nat :=
  a.numReservedExtents + (a.supply.takeWhile Option.isSome).length

/-- The allocator delivered `n` extents: reserved ones first, and no call of `alloc_func` if
these are enough. -/
structure MatrasAllocator.Draws (a : MatrasAllocator) (n : Nat) (a' : MatrasAllocator) : Prop where
  avail : a'.avail + n = a.avail
  reserved : a'.numReservedExtents = a.numReservedExtents - n
  supply : n ≤ a.numReservedExtents → a'.supply = a.supply ∧ a'.allocated = a.allocated

theorem MatrasAllocator.Draws.refl (a : MatrasAllocator) : a.Draws 0 a :=
  ⟨rfl, rfl, fun _ => ⟨rfl, rfl⟩⟩

theorem MatrasAllocator.Draws.trans {a₁ a₂ a₃ : MatrasAllocator} {n k : Nat} (h : a₁.Draws n a₂)
    (h' : a₂.Draws k a₃) :
    a₁.Draws (n + k) a₃ where
  avail := by rw [← h.avail, ← h'.avail, Nat.add_assoc, Nat.add_comm n]
  reserved := by rw [h'.reserved, h.reserved, Nat.sub_sub]
  supply hle := by
    have h1 := h.supply (by omega)
    have h2 := h'.supply (by rw [h.reserved]; omega)
    exact ⟨h2.1.trans h1.1, h2.2.trans h1.2⟩

/-- The number of extents that are allocated and not reserved. -/
def MatrasAllocator.size (a : MatrasAllocator) : Int := a.allocated.length - a.numReservedExtents

/--
There are `d` more extents, the counters of extents went up with them, and
that of extents of views by `r`, all modulo `2 ^ 32`.
-/
structure Matras.Counts (m : Matras) (d r : Int) (m' : Matras) : Prop where
  extents : m'.extentCount = m.extentCount + (d : BitVec 32)
  total : m'.stats.extentCount = m.stats.extentCount + (d : BitVec 32)
  views : m'.stats.readViewExtentCount = m.stats.readViewExtentCount + (r : BitVec 32)
  size : m'.allocator.size = m.allocator.size + d

theorem Matras.Counts.trans {m₁ m₂ m₃ : Matras} {d d' r r' : Int} (h : m₁.Counts d r m₂)
    (h' : m₂.Counts d' r' m₃) :
    m₁.Counts (d + d') (r + r') m₃ :=
  ⟨by rw [h'.extents, h.extents, Int.cast_add, add_assoc],
    by rw [h'.total, h.total, Int.cast_add, add_assoc],
    by rw [h'.views, h.views, Int.cast_add, add_assoc], by rw [h'.size, h.size, Int.add_assoc]⟩

theorem Matras.Counts.same (he : m'.extentCount = m.extentCount) (hs : m'.stats = m.stats)
    (ha : m'.allocator.size = m.allocator.size) : m.Counts 0 0 m' :=
  ⟨by rw [he, Int.cast_zero, add_zero], by rw [hs, Int.cast_zero, add_zero],
    by rw [hs, Int.cast_zero, add_zero], by rw [ha, Int.add_zero]⟩

/-- The counters follow the allocator. -/
theorem Matras.Counts.addExtents {d : Int} {k : BitVec 32} (hk : k = (d : BitVec 32))
    (he : m'.extentCount = m.extentCount) (hs : m'.stats = m.stats)
    (ha : m'.allocator.size = m.allocator.size + d) : m.Counts d 0 (m'.addExtents k) where
  extents := by rw [Matras.addExtents, he, hk]
  total := by rw [Matras.addExtents, hs, hk]
  views := by rw [Matras.addExtents, hs, Int.cast_zero, add_zero]
  size := ha

theorem Matras.Counts.addReadViewExtents {d r r' : Int} {k : BitVec 32} (h : m.Counts d r m')
    (hk : k = (r' : BitVec 32)) : m.Counts d (r + r') (m'.addReadViewExtents k) where
  extents := h.extents
  total := h.total
  views := by rw [Matras.addReadViewExtents, h.views, hk, Int.cast_add, add_assoc]
  size := h.size

/-- An extent that was just taken. -/
structure Matras.Taken (m : Matras) (rs : List Nat) (new : Nat) (m' : Matras) (rs' : List Nat) :
    Prop where
  tree : m.SameTree m'
  inv : m'.Inv rs'
  /-- The extent is in use now, and was not. -/
  owns : ∀ x, m'.Owns rs' x ↔ m.Owns rs x ∨ x = new
  new : ¬ m.Owns rs new
  /-- Nothing goes back to `free_func`, and the list of reserved extents gets shorter at most. -/
  allocated : ∀ x ∈ m.allocator.allocated, x ∈ m'.allocator.allocated
  reserved : rs'.Sublist rs

theorem MatrasAllocator.Ok.call {a : MatrasAllocator} {slots : Nat → Nat → Nat}
    (h : a.Ok slots rs) :
    a.call.2.Ok slots rs ∧ (∀ x, x ∈ a.call.2.allocated ↔ x ∈ a.allocated ∨ a.call.1 = some x) ∧
      (∀ x, a.call.1 = some x → x ∉ a.allocated) ∧ a.call.2.reservedExtents = a.reservedExtents ∧
      a.call.2.size = a.size + (if a.call.1.isSome then 1 else 0) := by
  unfold MatrasAllocator.call
  split
  · refine ⟨h, fun x => by simp, fun x hx => (by cases hx), rfl, by simp⟩
  · next supply heq =>
      have hfresh := h.fresh
      have hdist := h.distinct
      rw [heq] at hfresh hdist
      refine ⟨{ h with
        fresh := fun x hx => hfresh x (List.mem_cons_of_mem _ hx)
        distinct := (List.pairwise_cons.1 hdist).2 }, fun x => by simp, fun x hx =>
          (by cases hx), rfl,
        by simp [MatrasAllocator.size]⟩
  · next ext supply heq =>
      have hfresh := h.fresh
      have hdist := h.distinct
      rw [heq] at hfresh hdist
      have hnew := hfresh ext List.mem_cons_self
      obtain ⟨hne, hdist'⟩ := List.pairwise_cons.1 hdist
      refine ⟨{ h with
        nodup := List.nodup_cons.2 ⟨hnew, h.nodup⟩
        reserved := fun x hx => List.mem_cons_of_mem _ (h.reserved x hx)
        fresh := fun x hx hmem => ?_
        distinct := hdist' }, fun x => ?_, fun x hx => ?_, rfl, ?_⟩
      · rcases List.mem_cons.1 hmem with rfl | hmem
        · exact hne _ hx (by simp) rfl
        · exact hfresh x (List.mem_cons_of_mem _ hx) hmem
      · simp only [List.mem_cons, Option.some.injEq]
        tauto
      · rw [Option.some.injEq] at hx
        exact hx ▸ hnew
      · simp only [MatrasAllocator.size, List.length_cons, Option.isSome_some, if_true]
        omega

theorem MatrasAllocator.call_avail (a : MatrasAllocator) (ha : a.numReservedExtents = 0) :
    (a.call.1 = none → a.avail = 0) ∧ ∀ x, a.call.1 = some x → a.Draws 1 a.call.2 := by
  unfold MatrasAllocator.call
  split
  · next heq => simp [MatrasAllocator.avail, heq, ha]
  · next supply heq => simp [MatrasAllocator.avail, heq, ha]
  · next ext supply heq =>
      refine ⟨fun h => (by cases h), fun x _ => ⟨?_, ?_, fun h => ?_⟩⟩
      · simp [MatrasAllocator.avail, heq, ha]
      · simp [ha]
      · omega

/-- `matras_allocator_alloc`. -/
theorem matrasAllocatorAlloc_spec (hi : m.Inv rs) :
    (∃ m', matrasAllocatorAlloc m = (none, m') ∧ m.SameTree m' ∧ m'.Inv rs ∧
        (∀ x, m'.Owns rs x ↔ m.Owns rs x) ∧
      m'.extentCount = m.extentCount ∧ m'.stats = m.stats ∧ m'.allocator.size = m.allocator.size ∧
      m.allocator.avail = 0) ∨
    ∃ new m' rs', matrasAllocatorAlloc m = (some new, m') ∧ m.Taken rs new m' rs' ∧
      m'.extentCount = m.extentCount ∧ m'.stats = m.stats ∧
      m'.allocator.size = m.allocator.size + 1 ∧
      m.allocator.Draws 1 m'.allocator := by
  have ha := hi.alloc
  unfold matrasAllocatorAlloc
  split
  · next hpos =>
      right
      -- the first reserved extent
      cases rs with
      | nil =>
          rw [ha.size] at hpos
          simp at hpos
      | cons a rs =>
          obtain ⟨hptr, hchain⟩ := ha.chain
          obtain ⟨hnot, hnodup⟩ := List.nodup_cons.1 ha.reservedNodup
          have hmem := ha.reserved a List.mem_cons_self
          have howns : ∀ x, x ∈ m.allocator.allocated ∧ x ∉ rs ↔
              (x ∈ m.allocator.allocated ∧ x ∉ a :: rs) ∨ x = a := by
            intro x
            constructor
            · rintro ⟨h1, h2⟩
              by_cases hx : x = a
              · exact Or.inr hx
              · exact Or.inl ⟨h1, by simp [hx, h2]⟩
            · rintro (⟨h1, h2⟩ | rfl)
              · exact ⟨h1, fun h => h2 (List.mem_cons_of_mem _ h)⟩
              · exact ⟨hmem, hnot⟩
          have htree : m.SameTree (m.setAllocator
              { m.allocator with
                reservedExtents := m.slots m.allocator.reservedExtents 0
                numReservedExtents := m.allocator.numReservedExtents - 1 }) :=
                  ⟨rfl, rfl, rfl, rfl, rfl⟩
          refine ⟨m.allocator.reservedExtents, _, rs, rfl,
            ⟨htree, ?_, ?_, ?_, fun x hx => hx, List.sublist_cons_self a rs⟩, rfl, rfl, ?_, ?_⟩
          · refine htree.inv hi (fun v hv p hp => ?_) ?_
            · exact (howns _).2 (Or.inl (hi.owned v hv p hp))
            · refine { ha with
                chain := by rw [hptr]; exact hchain
                size := by simp [Matras.setAllocator, ha.size]
                reserved := fun x hx => ha.reserved x (List.mem_cons_of_mem _ hx)
                reservedNodup := hnodup }
          · intro x
            rw [hptr]
            exact howns x
          · rw [hptr]
            rintro ⟨-, h⟩
            exact h List.mem_cons_self
          · simp only [Matras.setAllocator, MatrasAllocator.size]
            omega
          · refine ⟨?_, rfl, fun _ => ⟨rfl, rfl⟩⟩
            simp only [Matras.setAllocator, MatrasAllocator.avail]
            omega
  · next hzero =>
    have havail := m.allocator.call_avail (Nat.eq_zero_of_not_pos hzero)
    obtain ⟨hok, hall, hnew, hres, hsize⟩ := ha.call
    have htree : m.SameTree (m.setAllocator m.allocator.call.2) := ⟨rfl, rfl, rfl, rfl, rfl⟩
    have hinv : (m.setAllocator m.allocator.call.2).Inv rs := by
      refine htree.inv hi (fun v hv p hp => ?_) hok
      have := hi.owned v hv p hp
      exact ⟨(hall _).2 (Or.inl this.1), this.2⟩
    cases hcall : m.allocator.call.1 with
    | none =>
        left
        refine ⟨_, rfl, htree, hinv, fun x => ?_, rfl,
          rfl, by simpa [Matras.setAllocator, hcall] using hsize, havail.1 hcall⟩
        show (x ∈ m.allocator.call.2.allocated ∧ x ∉ rs) ↔ _
        rw [hall, hcall]
        simp [Matras.Owns]
    | some new =>
        right
        have hnot := hnew new hcall
        refine ⟨new, _, rs, rfl,
          ⟨htree, hinv, fun x => ?_, fun h => hnot h.1, fun x hx => (hall x).2 (Or.inl hx),
          List.Sublist.refl rs⟩, rfl, rfl, by simpa [Matras.setAllocator, hcall] using hsize,
          havail.2 new hcall⟩
        show (x ∈ m.allocator.call.2.allocated ∧ x ∉ rs) ↔ _
        rw [hall, hcall, Option.some.injEq]
        constructor
        · rintro ⟨h1 | h1, h2⟩
          · exact Or.inl ⟨h1, h2⟩
          · exact Or.inr h1.symm
        · rintro (⟨h1, h2⟩ | rfl)
          · exact ⟨Or.inl h1, h2⟩
          · exact ⟨Or.inr rfl, fun h => hnot (ha.reserved _ h)⟩

/-- `matras_alloc_extent`. -/
theorem matrasAllocExtent_spec (hi : m.Inv rs) :
    (∃ m', matrasAllocExtent m = (none, m') ∧ m.SameTree m' ∧ m'.Inv rs ∧
        (∀ x, m'.Owns rs x ↔ m.Owns rs x) ∧
      m.Counts 0 0 m' ∧ m.allocator.avail = 0) ∨
    ∃ new m' rs', matrasAllocExtent m = (some new, m') ∧ m.Taken rs new m' rs' ∧ m.Counts 1 0 m' ∧
      m.allocator.Draws 1 m'.allocator := by
  unfold matrasAllocExtent
  rcases matrasAllocatorAlloc_spec hi with
    ⟨m', heq, htree, hinv, howns, hcount, hstats, hsize, havail⟩
    | ⟨new, m', rs', heq, ht, hcount, hstats, hsize, havail⟩
  · left
    exact ⟨m', by rw [heq], htree, hinv, howns, .same hcount hstats hsize, havail⟩
  · right
    refine ⟨new, m'.addExtents 1, rs', by rw [heq],
      ⟨ht.tree.addExtents 1, ht.inv.addExtents 1, ht.owns,
      ht.new, ht.allocated, ht.reserved⟩, .addExtents Int.cast_one.symm hcount hstats hsize, havail⟩

/-- `matras_allocator_free` of an extent that is not in use. -/
theorem matrasAllocatorFree_spec (hi : m.Inv rs) (hx : m.Owns rs x) (hnot : ¬ m.Reached x) :
    ∃ m', matrasAllocatorFree m x = some m' ∧ m.SameTree m' ∧ m'.Inv rs ∧
      (∀ y, m'.Owns rs y ↔ m.Owns rs y ∧ y ≠ x) ∧
      m'.extentCount = m.extentCount ∧ m'.stats = m.stats ∧
      m'.allocator.size = m.allocator.size - 1 := by
  have ha := hi.alloc
  have hmem : ∀ y, y ∈ m.allocator.allocated.erase x ↔ y ∈ m.allocator.allocated ∧ y ≠ x := by
    intro y
    rw [ha.nodup.mem_erase_iff]
    tauto
  have htree := (Matras.SameTree.refl m).setAllocator
    { m.allocator with allocated := m.allocator.allocated.erase x }
  refine ⟨_, by simp [matrasAllocatorFree, guard, hx.1], htree,
    htree.inv hi (fun v hv p hp => ?_) ?_, fun y => ?_, rfl, rfl, ?_⟩
  · have howned := hi.owned v hv p hp
    refine ⟨(hmem _).2 ⟨howned.1, fun he => hnot ⟨v, hv, p, hp, he⟩⟩, howned.2⟩
  · refine { ha with
      nodup := ha.nodup.erase x
      reserved := fun y hy => (hmem y).2 ⟨ha.reserved y hy, fun he => hx.2 (he ▸ hy)⟩
      fresh := fun y hy h => ha.fresh y hy ((hmem y).1 h).1 }
  · show (y ∈ m.allocator.allocated.erase x ∧ y ∉ rs) ↔ _
    rw [hmem]
    simp only [Matras.Owns]
    tauto
  · have hpos := List.length_pos_of_mem hx.1
    show ((m.allocator.allocated.erase x).length : Int) - m.allocator.numReservedExtents = _
    rw [List.length_erase_of_mem hx.1, MatrasAllocator.size]
    omega

/-- An extent that is not in use goes back to `free_func`. -/
theorem matrasFreeExtent_spec (hi : m.Inv rs) (hx : m.Owns rs x) (hnot : ¬ m.Reached x) :
    ∃ m', matrasFreeExtent m x = some m' ∧ m.SameTree m' ∧ m'.Inv rs ∧
      (∀ y, m'.Owns rs y ↔ m.Owns rs y ∧ y ≠ x) ∧ m.Counts (-1) 0 m' := by
  obtain ⟨m', heq, htree, hinv, howns, hcount, hstats, hsize⟩ := matrasAllocatorFree_spec hi hx hnot
  exact ⟨m'.addExtents (-1), by simp [matrasFreeExtent, heq], htree.addExtents (-1),
    hinv.addExtents (-1), fun y => Matras.owns_addExtents.trans (howns y),
    .addExtents (by simp) hcount hstats hsize⟩

end SmallAllocators
