/-
SmallAllocators.Matras.Leaks — the extents that are allocated and those that
are in use.

`matras_destroy_read_view` goes by the neighbours of the view: it leaves an
extent, and all that lies below it, if one of them has it. What the next view
shares, it has in full. The previous view may have fewer blocks: then the
extents behind its last block, below an extent that it shares, belong to
nobody if the next view has copied them (`Matras.Leaks`). In runs where no
such view is destroyed every extent that is allocated is in use, and
`matras_destroy` gives all of them back.
-/
import SmallAllocators.Matras.Failure

namespace SmallAllocators

variable {m m' m₁ : Matras} {rs rs' : List Nat} {v next w : MatrasView} {prev : Option MatrasView}
    {A B : List MatrasView}
  {p q : ExtentPos} {id i k n x : Nat} {supply : List (Option Nat)} {blockSize extentSize : Nat}

/-! ## Views that leave extents behind -/

/-- The level of an extent. -/
def ExtentPos.depth : ExtentPos → Nat
  | .root => 0
  | .mid _ => 1
  | .leaf _ => 2

namespace Matras

/-- The view has an extent that its neighbours do not have, and the previous view has an extent
above it. -/
def Leaks (m : Matras) (v next : MatrasView) (prev : Option MatrasView) : Prop :=
  ∃ id < v.blockCount, ∃ p q, m.config.onPath id p ∧ m.config.onPath id q ∧ q.depth < p.depth ∧
  m.Unshared v next prev p ∧
    ∃ u ∈ prev, m.Covers u q ∧ m.addr v q = m.addr u q

/-- The matras reaches all extents that it owns. -/
def Tight (m : Matras) (rs : List Nat) : Prop := ∀ x, m.Owns rs x → m.Reached x

end Matras

theorem Matras.owns_nil : m.Owns [] x ↔ x ∈ m.allocator.allocated := by
  simp [Matras.Owns]

/-- A position below which the view has a block is on the way to one. -/
theorem Matras.Covers.exists_path (h : m.Covers v p) : ∃ id < v.blockCount, m.config.onPath id p :=
  ⟨m.config.layout.first p, h, MatrasConfig.below_iff.1 (m.config.layout.below_first p)⟩

/-- There is one extent of each level above a block. -/
theorem MatrasConfig.onPath_unique {c : MatrasConfig} (hp : c.onPath id p) (hq : c.onPath id q)
    (h : p.depth = q.depth) : p = q := by
  cases p with
  | root =>
      cases q with
      | root => rfl
      | mid j => cases h
      | leaf e => cases h
  | mid i =>
      cases q with
      | root => cases h
      | mid j =>
          cases hp
          cases hq
          rfl
      | leaf e => cases h
  | leaf e =>
      cases q with
      | root => cases h
      | mid j => cases h
      | leaf e' =>
          cases hp
          cases hq
          rfl

/-- What lies below a shared extent is the same. -/
theorem Matras.addr_eq_of_above (hp : m.config.onPath id p) (hq : m.config.onPath id q)
    (hle : q.depth ≤ p.depth) (h : m.addr v q = m.addr w q) : m.addr v p = m.addr w p := by
  have hroot : v.root = w.root → ∀ p, m.addr v p = m.addr w p := by
    intro h p
    cases p <;> simp only [Matras.addr, h]
  cases q with
  | root => exact hroot h p
  | mid i =>
      cases hq
      cases p with
      | root => exact absurd hle (by simp [ExtentPos.depth])
      | mid j =>
          cases hp
          exact h
      | leaf e =>
          cases hp
          have h' : m.slots v.root (m.config.extentOf id / m.config.fanout) =
              m.slots w.root (m.config.extentOf id / m.config.fanout) := h
          simp only [Matras.addr, h']
  | leaf e =>
      cases hq
      cases p with
      | root => exact absurd hle (by simp [ExtentPos.depth])
      | mid j => exact absurd hle (by simp [ExtentPos.depth])
      | leaf e =>
          cases hp
          exact h

namespace Matras.Between

/-- The next view comes right before the view. -/
theorem all (hb : m.Between A v next prev B) :
    m.all = (m.head :: A).dropLast ++ next :: v :: B := by
  rw [Matras.all, hb.views, hb.next, List.append_cons (m.head :: A).dropLast,
    List.dropLast_append_getLast, List.cons_append]

/-- Below an extent of the view that the next view has too, that one has all blocks of the view. -/
theorem next_covers (hb : m.Between A v next prev B) (hi : m.Inv rs) (hid : id < v.blockCount)
    (hq : m.config.onPath id q) (hcov : m.Covers next q) (heq : m.addr v q = m.addr next q) :
    id < next.blockCount := by
  have hsub : List.Sublist [m.snap next, m.snap v] (m.all.map m.snap) := by
    rw [hb.all, List.map_append, List.map_cons, List.map_cons]
    exact (((List.nil_sublist (B.map m.snap)).cons_cons (m.snap v)).cons_cons (m.snap next)).trans
      (List.sublist_append_right _ _)
  exact hi.sharing.grows _ _ hsub q ⟨hcov, Matras.Covers.of_path hq hid, heq.symm⟩ id
    (MatrasConfig.below_iff.2 hq) hid

/-- An extent that only the view has goes, and with it those above, unless the view leaks. -/
theorem unshared_above (hb : m.Between A v next prev B) (hi : m.Inv rs)
    (hno : ¬ m.Leaks v next prev) (hid : id < v.blockCount) (hp : m.config.onPath id p)
    (hq : m.config.onPath id q) (hle : q.depth ≤ p.depth) (hu : m.Unshared v next prev p) :
    m.Unshared v next prev q := by
  constructor
  · intro hcov heq
    have hlt := hb.next_covers hi hid hq hcov heq
    exact hu.next (.of_path hp hlt) (Matras.addr_eq_of_above hp hq hle heq)
  · intro u hu' hcov heq
    rcases Nat.lt_or_eq_of_le hle with hlt | hsame
    · exact hno ⟨id, hid, p, q, hp, hq, hlt, hu, u, hu', hcov, heq⟩
    · obtain rfl := MatrasConfig.onPath_unique hp hq hsame.symm
      exact hu.prev u hu' hcov heq

/-- An extent that only the view has goes, unless the view leaks. -/
theorem goes (hb : m.Between A v next prev B) (hi : m.Inv rs) (hno : ¬ m.Leaks v next prev)
    (hcov : m.Covers v p) (hu : m.Unshared v next prev p) :
    m.Unshared v next prev .root ∧ m.Goes v next prev p := by
  obtain ⟨id, hid, hp⟩ := hcov.exists_path
  refine ⟨hb.unshared_above hi hno hid hp trivial (Nat.zero_le _) hu, ?_⟩
  cases p with
  | root => trivial
  | mid i => exact hu
  | leaf e =>
      cases hp
      have hmid : m.config.onPath id (.mid (m.config.extentOf id / m.config.fanout)) := rfl
      have hleaf : m.config.onPath id (.leaf (m.config.extentOf id)) := rfl
      exact ⟨hb.unshared_above hi hno hid hleaf hmid (by simp [ExtentPos.depth]) hu, hu⟩

end Matras.Between

/-! ## Steps -/

theorem Matras.Grown.tight (h : m.Grown rs [] m' rs') (ht : m.Tight rs) : m'.Tight rs' := by
  intro x hx
  have hx' : m.Owns rs x := by simpa [h.owns] using hx
  exact (h.blocks.reached x).2 (ht x hx')

theorem Matras.Extended.tight (h : m.Extended rs n m' rs') (hle : m.head.blockCount ≤ n)
    (ht : m.Tight rs) : m'.Tight rs' := by
  intro x hx
  rcases (h.owns x).1 hx with hx | ⟨p, -, hcov, rfl⟩
  · obtain ⟨v, hv, p, hp, rfl⟩ := ht x hx
    rcases List.mem_cons.1 hv with rfl | hv
    · refine ⟨m'.head, m'.head_mem, p, ?_, h.head p hp⟩
      rw [Matras.Covers, h.config, h.count]
      exact Nat.lt_of_lt_of_le hp hle
    · refine ⟨v, Matras.view_mem (h.views ▸ hv), p, ?_, h.kept v hv p hp⟩
      rw [Matras.Covers, h.config]
      exact hp
  · exact ⟨m'.head, m'.head_mem, p, hcov, rfl⟩

theorem Matras.Copied.tight (h : m.Copied rs m' rs') (ht : m.Tight rs) : m'.Tight rs' := by
  intro x hx
  rcases h.new x hx with hx | hx
  · exact h.reached x (ht x hx)
  · exact hx

theorem Matras.Shrunk.tight (h : m.Shrunk rs id m') (ht : m.Tight rs) : m'.Tight rs := by
  have haddr : ∀ v p, m'.addr v p = m.addr v p := by
    intro v p
    cases p <;> simp only [Matras.addr, h.slots, h.config]
  have hhead : ∀ p, m'.addr m'.head p = m.addr m.head p := by
    intro p
    cases p <;> simp only [Matras.addr, h.slots, h.config, h.root]
  intro x hx
  obtain ⟨hown, hne⟩ := (h.owns x).1 hx
  obtain ⟨v, hv, p, hp, rfl⟩ := ht x hown
  rcases List.mem_cons.1 hv with rfl | hv
  · by_cases hcov : m'.Covers m'.head p
    · exact ⟨m'.head, m'.head_mem, p, hcov, hhead p⟩
    · exact absurd rfl (hne p hp hcov)
  · refine ⟨v, Matras.view_mem (h.views ▸ hv), p, ?_, haddr v p⟩
    rw [Matras.Covers, h.config]
    exact hp

theorem Matras.Dropped.tight (h : m.Dropped rs v next prev m') (hb : m.Between A v next prev B)
    (hviews : m'.views = A ++ B) (hi : m.Inv rs) (hno : ¬ m.Leaks v next prev) (ht : m.Tight rs) :
    m'.Tight rs := by
  have haddr : ∀ v p, m'.addr v p = m.addr v p := by
    intro v p
    cases p <;> simp only [Matras.addr, h.slots, h.config]
  have hall : m'.all = m.head :: A ++ B := by rw [Matras.all, h.head, hviews]; rfl
  have hreach : ∀ w ∈ m.head :: A ++ B, ∀ p, m.Covers w p → m'.Reached (m.addr w p) := by
    intro w hw p hp
    refine ⟨w, hall ▸ hw, p, ?_, haddr w p⟩
    rw [Matras.Covers, h.config]
    exact hp
  intro x hx
  obtain ⟨hown, hne⟩ := (h.owns x).1 hx
  obtain ⟨w, hw, p, hp, rfl⟩ := ht x hown
  have hw' : w ∈ m.head :: A ++ B ∨ w = v := by
    rw [Matras.all, hb.views, ← List.cons_append] at hw
    rcases List.mem_append.1 hw with hw | hw
    · exact Or.inl (List.mem_append_left _ hw)
    · rcases List.mem_cons.1 hw with hw | hw
      · exact Or.inr hw
      · exact Or.inl (List.mem_append_right _ hw)
  rcases hw' with hw' | rfl
  · exact hreach w hw' p hp
  · -- a neighbour has the extent, for it did not go
    by_cases hnext : m.Covers next p ∧ m.addr w p = m.addr next p
    · rw [hnext.2]
      refine hreach next (List.mem_append_left _ ?_) p hnext.1
      rw [hb.next]
      exact List.getLast_mem _
    · by_cases hprev : ∃ u ∈ prev, m.Covers u p ∧ m.addr w p = m.addr u p
      · obtain ⟨u, hu, hcov, heq⟩ := hprev
        rw [heq]
        refine hreach u (List.mem_append_right _ ?_) p hcov
        rw [hb.prev] at hu
        exact List.mem_of_mem_head? hu
      · have hu : m.Unshared w next prev p :=
          ⟨fun hcov he => hnext ⟨hcov, he⟩, fun u hu hcov he => hprev ⟨u, hu, hcov, he⟩⟩
        obtain ⟨h1, h2⟩ := hb.goes hi hno hp hu
        exact absurd rfl (hne p hp h1 h2)

/-- Nothing is reserved. -/
theorem Matras.Inv.eq_nil (hi : m.Inv rs) (h : m.allocator.numReservedExtents = 0) : rs = [] := by
  rw [hi.alloc.size] at h
  exact List.length_eq_zero_iff.1 h

/-- The call does not reserve extents, and destroys no view that leaks. -/
def MatrasOp.Tidy (m : Matras) : MatrasOp → Prop
  | .touchReserve .. => False
  | .destroyReadView key => ∀ A v next prev B, m.Between A v next prev B → v.key = key →
      ¬ m.Leaks v next prev
  | _ => True

theorem Matras.Grown.stays_tight (h : m.Grown [] [] m' rs') (ht : m.Tight []) :
    m'.Tight [] ∧ m'.allocator.numReservedExtents = 0 := by
  obtain rfl := List.sublist_nil.1 h.reserved
  exact ⟨h.tight ht, h.inv.alloc.size⟩

theorem Matras.Extended.stays_tight (h : m.Extended [] n m' rs')
    (hd : m.allocator.Draws k m'.allocator) (hi : m.Inv []) (hle : m.head.blockCount ≤ n)
    (ht : m.Tight []) : m'.Tight [] ∧ m'.allocator.numReservedExtents = 0 := by
  have hzero : m.allocator.numReservedExtents = 0 := hi.alloc.size
  have hnum : m'.allocator.numReservedExtents = 0 := by
    rw [hd.reserved, hzero, Nat.zero_sub]
  obtain rfl := h.inv.eq_nil hnum
  exact ⟨h.tight hle ht, hnum⟩

/-- The blocks from `id` on go. -/
theorem deallocTo_tight (hi : m.Inv []) (hs : m.Tight []) (hid : id < m.head.blockCount)
    (hle : m.head.blockCount ≤ (m.config.extentOf id + 1) * m.config.perExtent)
    (ht : m.TouchSucceeds id) (heq : deallocTo m id = some m') :
    m'.Tight [] ∧ m'.allocator.numReservedExtents = 0 := by
  obtain ⟨m₁, rs₁, m₂, -, hcp, -, heq₂, hsh⟩ := deallocTo_spec hi hid hle (ht.copies_le hi hid)
  rw [heq₂, Option.some.injEq] at heq
  subst heq
  obtain rfl := List.sublist_nil.1 hcp.reserved
  exact ⟨hsh.tight (hcp.tight hs), hsh.inv.alloc.size⟩

theorem Matras.Tight.withSupply (h : m.Tight rs) : (m.withSupply supply).Tight rs := h

theorem matrasOp_tight {op : MatrasOp} (hg : m.Good []) (hs : m.Tight []) (hal : op.Allowed m)
    (hop : op.Tidy m) (hex : op.exec m = some m') :
    m'.Tight [] ∧ m'.allocator.numReservedExtents = 0 := by
  have hi := hg.inv
  have hzero : m.allocator.numReservedExtents = 0 := hi.alloc.size
  cases op with
  | alloc supply =>
      have hi' := Matras.withSupply_inv hi hal
      rcases matrasAlloc_spec hi' with ⟨m₁, rs₁, heq, h, -⟩ | ⟨m₁, rs₁, heq, h, hd⟩
      · simp only [MatrasOp.exec, heq, Option.map_eq_map, Option.map_some, Option.some.injEq] at hex
        exact hex ▸ h.stays_tight hs.withSupply
      · simp only [MatrasOp.exec, heq, Option.map_eq_map, Option.map_some, Option.some.injEq] at hex
        exact hex ▸ h.stays_tight hd hi' (Nat.le_succ _) hs.withSupply
  | allocRange supply rangeCount =>
      have hi' := Matras.withSupply_inv hi hal.1
      have hr : (m.withSupply supply).RangeOk rangeCount := ⟨hal.2.pos, hal.2.count, hal.2.extent⟩
      rcases matrasAllocRange_spec hi' hr with ⟨m₁, rs₁, heq, h, -⟩ | ⟨m₁, rs₁, heq, h, hd⟩
      · simp only [MatrasOp.exec, heq, Option.map_eq_map, Option.map_some, Option.some.injEq] at hex
        exact hex ▸ h.stays_tight hs.withSupply
      · simp only [MatrasOp.exec, heq, Option.map_eq_map, Option.map_some, Option.some.injEq] at hex
        exact hex ▸ h.stays_tight hd hi' (Nat.le_add_right _ _) hs.withSupply
  | dealloc supply =>
      obtain ⟨hf, hpos, ht⟩ := hal
      have hi' := Matras.withSupply_inv hi hf
      rw [MatrasOp.exec, matrasDealloc_eq hi' hpos] at hex
      exact deallocTo_tight hi' hs.withSupply (Nat.sub_lt hpos Nat.zero_lt_one)
        (m.config.le_extent_end _) ht hex
  | deallocRange supply rangeCount =>
      obtain ⟨hf, hr, hle, ht⟩ := hal
      have hi' := Matras.withSupply_inv hi hf
      have hr' : (m.withSupply supply).RangeOk rangeCount := ⟨hr.pos, hr.count, hr.extent⟩
      have hpos := Nat.pos_of_ne_zero hr.pos
      rw [MatrasOp.exec, matrasDeallocRange_eq hi' hr' hle] at hex
      exact deallocTo_tight hi' hs.withSupply (Nat.sub_lt (Nat.lt_of_lt_of_le hpos hle) hpos)
        (hr'.extent_le hi.config hle) ht hex
  | touch supply id =>
      obtain ⟨hf, hid⟩ := hal
      have hi' := Matras.withSupply_inv hi hf
      have hcp : ∃ rs', (m.withSupply supply).Copied [] m' rs' := by
        rcases matrasTouch_spec hi' hid with ⟨m₁, rs₁, heq, -, h⟩ | ⟨m₁, rs₁, heq, h, -⟩
        · simp only [MatrasOp.exec, heq, Option.map_eq_map, Option.map_some,
            Option.some.injEq] at hex
          exact ⟨rs₁, hex ▸ h.copied⟩
        · simp only [MatrasOp.exec, heq, Option.map_eq_map, Option.map_some,
            Option.some.injEq] at hex
          exact ⟨rs₁, hex ▸ h⟩
      obtain ⟨rs', h⟩ := hcp
      obtain rfl := List.sublist_nil.1 h.reserved
      exact ⟨h.tight hs.withSupply, h.inv.alloc.size⟩
  | touchReserve supply count => exact hop.elim
  | createReadView key =>
      rw [MatrasOp.exec, Option.some.injEq] at hex
      subst hex
      refine ⟨fun x hx => ?_, hzero⟩
      obtain ⟨v, hv, p, hp, he⟩ := hs x hx
      rcases List.mem_cons.1 hv with rfl | hv
      · exact ⟨m.head, Matras.head_mem _, p, hp, he⟩
      · exact ⟨v, Matras.view_mem (List.mem_cons_of_mem _ hv), p, hp, he⟩
  | destroyReadView key =>
      rw [MatrasOp.exec] at hex
      rcases matrasDestroyReadView_spec hi hg.keys key with ⟨-, heq⟩
        | ⟨A, v, next, prev, B, hb, hkey, ⟨-, heq⟩ | ⟨m₁, heq, hviews, h⟩⟩
      · rw [heq, Option.some.injEq] at hex
        exact hex ▸ ⟨hs, hzero⟩
      · rw [heq] at hex
        cases hex
      · rw [heq, Option.some.injEq] at hex
        subst hex
        exact ⟨h.tight hb hviews hi (hop A v next prev B hb hkey) hs, h.inv.alloc.size⟩
  | write id offset byte =>
      rw [MatrasOp.exec, Option.some.injEq] at hex
      subst hex
      exact ⟨hs, hzero⟩
  | memory slots bytes =>
      rw [MatrasOp.exec, Option.some.injEq] at hex
      subst hex
      refine ⟨fun x hx => ?_, hzero⟩
      have hw : m.Written { m with slots := slots, bytes := bytes } :=
        ⟨rfl, rfl, rfl, rfl, rfl, rfl, hal.slots⟩
      obtain ⟨v, hv, p, hp, he⟩ := hs x hx
      exact ⟨v, hv, p, hp, (hw.addr hi hv hp).trans he⟩

/-! ## `matras_destroy` -/

/-- The extents of the head at the positions `D` went back, each once. -/
structure Matras.Emptied (m : Matras) (D : ExtentPos → Prop) (m' : Matras) : Prop where
  config : m'.config = m.config
  head : m'.head = m.head
  slots : m'.slots = m.slots
  nodup : m'.allocator.allocated.Nodup
  mem : ∀ x, x ∈ m'.allocator.allocated ↔ x ∈ m.allocator.allocated ∧ ∀ p, D p → m.addr m.head p ≠ x
  count : m'.extentCount - (m'.allocator.allocated.length : BitVec 32) =
    m.extentCount - (m.allocator.allocated.length : BitVec 32)

namespace Matras.Emptied

variable {D D' : ExtentPos → Prop}

theorem congr (h : m.Emptied D m') (hD : ∀ p, D p ↔ D' p) : m.Emptied D' m' :=
  ⟨h.config, h.head, h.slots, h.nodup, fun x => by simp only [h.mem, hD], h.count⟩

theorem free (h : m.Emptied D m₁) (hx : m.addr m.head q ∈ m.allocator.allocated)
    (hne : ∀ p, D p → m.addr m.head p ≠ m.addr m.head q) :
    ∃ m₂, matrasFreeExtent m₁ (m.addr m.head q) = some m₂ ∧
      m.Emptied (fun p => D p ∨ p = q) m₂ := by
  have hmem : m.addr m.head q ∈ m₁.allocator.allocated := (h.mem _).2 ⟨hx, hne⟩
  refine ⟨(m₁.setAllocator { m₁.allocator with
      allocated := m₁.allocator.allocated.erase (m.addr m.head q) }).addExtents (-1),
    by simp [matrasFreeExtent, matrasAllocatorFree, guard, hmem], ?_⟩
  constructor
  case config => rw [Matras.addExtents_config, Matras.setAllocator, h.config]
  case head => rw [Matras.addExtents_head, Matras.setAllocator, h.head]
  case slots => rw [Matras.addExtents_slots, Matras.setAllocator, h.slots]
  case nodup =>
    rw [Matras.addExtents_allocator]
    exact h.nodup.erase _
  case mem =>
    intro x
    rw [Matras.addExtents_allocator]
    show x ∈ m₁.allocator.allocated.erase (m.addr m.head q) ↔ _
    rw [h.nodup.mem_erase_iff, h.mem]
    constructor
    · rintro ⟨hxq, hxm, hxD⟩
      refine ⟨hxm, ?_⟩
      rintro p (hp | rfl)
      · exact hxD p hp
      · exact fun he => hxq he.symm
    · rintro ⟨hxm, hxD⟩
      exact ⟨fun he => hxD q (Or.inr rfl) he.symm, hxm, fun p hp => hxD p (Or.inl hp)⟩
  case count =>
    have hlen : (m₁.allocator.allocated.erase (m.addr m.head q)).length + 1 =
        m₁.allocator.allocated.length := by
      rw [List.length_erase_of_mem hmem]
      have := List.length_pos_of_mem hmem
      omega
    rw [← h.count, ← hlen, Nat.cast_add, Nat.cast_one, ← sub_sub, sub_right_comm,
      sub_eq_add_neg m₁.extentCount, Matras.addExtents_allocator]
    rfl

end Matras.Emptied

/-- What `matras_destroy` has freed after `i` rounds of the outer loop and `k` of the inner one. -/
def Matras.HeadDone (m : Matras) (i k : Nat) (p : ExtentPos) : Prop :=
  m.Covers m.head p ∧
    match p with
    | .root => False
    | .mid j => j < i
    | .leaf e => e / m.config.fanout < i ∨ e / m.config.fanout = i ∧ e % m.config.fanout < k

/-- The head with no views, all of whose extents are allocated. -/
structure Matras.Single (m : Matras) : Prop where
  config : m.config.Ok
  nodup : m.allocator.allocated.Nodup
  owned : ∀ p, m.Covers m.head p → m.addr m.head p ∈ m.allocator.allocated
  inj : ∀ p q, m.Covers m.head p → m.Covers m.head q → m.addr m.head p = m.addr m.head q → p = q
  wraps : m.config.mids m.head.blockCount * (m.config.perExtent * m.config.fanout) < 2 ^ 32

section Head

variable (hg : m.Single)

include hg

/-- One round of the inner loop. -/
theorem destroyHeadLeaf_spec (hk : k < m.config.leaves m.head.blockCount i)
    (he : m.Emptied (m.HeadDone i k) m₁) :
    ∃ m₂, matrasFreeExtent m₁ (m₁.slots (m.addr m.head (.mid i)) k) = some m₂ ∧
      m.Emptied (m.HeadDone i (k + 1)) m₂ := by
  obtain ⟨hkf, hkb⟩ := MatrasConfig.lt_leaves_iff.1 hk
  have hdiv : (i * m.config.fanout + k) / m.config.fanout = i := by
    rw [Nat.mul_comm, Nat.mul_add_div m.config.fanout_pos, Nat.div_eq_of_lt hkf, Nat.add_zero]
  have hmod : (i * m.config.fanout + k) % m.config.fanout = k := by
    rw [Nat.mul_comm, Nat.mul_add_mod, Nat.mod_eq_of_lt hkf]
  have hcov : m.Covers m.head (.leaf (i * m.config.fanout + k)) := by
    rw [Matras.covers_leaf, Nat.add_mul, Nat.mul_assoc, Nat.mul_comm m.config.fanout]
    exact hkb
  have haddr :
      m₁.slots (m.addr m.head (.mid i)) k = m.addr m.head (.leaf (i * m.config.fanout + k)) := by
    rw [he.slots]
    simp only [Matras.addr, hdiv, hmod]
  obtain ⟨m₂, heq, he₂⟩ := he.free (hg.owned _ hcov) fun p hp hsame => by
    obtain rfl := hg.inj p _ hp.1 hcov hsame
    have hdone : (i * m.config.fanout + k) / m.config.fanout < i ∨
        (i * m.config.fanout + k) / m.config.fanout = i ∧
        (i * m.config.fanout + k) % m.config.fanout < k := hp.2
    rw [hdiv, hmod] at hdone
    omega
  refine ⟨m₂, by rw [haddr, heq], he₂.congr fun p => ?_⟩
  cases p with
  | root => simp [Matras.HeadDone]
  | mid j => simp [Matras.HeadDone]
  | leaf e =>
      simp only [Matras.HeadDone, ExtentPos.leaf.injEq, Nat.lt_succ_iff_lt_or_eq]
      constructor
      · rintro (⟨hc, h | ⟨h1, h2⟩⟩ | rfl)
        · exact ⟨hc, Or.inl h⟩
        · exact ⟨hc, Or.inr ⟨h1, Or.inl h2⟩⟩
        · exact ⟨hcov, Or.inr ⟨hdiv, Or.inr hmod⟩⟩
      · rintro ⟨hc, h | ⟨h1, h2 | h2⟩⟩
        · exact Or.inl ⟨hc, Or.inl h⟩
        · exact Or.inl ⟨hc, Or.inr ⟨h1, h2⟩⟩
        · right
          rw [← Nat.div_add_mod e m.config.fanout, h1, h2, Nat.mul_comm]

/-- One round of the outer loop. -/
theorem destroyHeadMid_spec (hk : i < m.config.mids m.head.blockCount)
    (he : m.Emptied (m.HeadDone i 0) m₁) :
    ∃ m₂, destroyHeadMid m.head i (i * (m.config.perExtent * m.config.fanout)) m₁ = some m₂ ∧
      m.Emptied (m.HeadDone (i + 1) 0) m₂ := by
  have hcov : m.Covers m.head (.mid i) := by
    rw [Matras.covers_mid, Nat.mul_assoc, Nat.mul_comm m.config.fanout]
    exact MatrasConfig.lt_mids_iff.1 hk
  have haddr : m₁.slots m.head.root i = m.addr m.head (.mid i) := by
    rw [he.slots]
    rfl
  obtain ⟨m₂, heq, he₂⟩ := hg.config.leavesLoop
    (fun i2 _ m' => matrasFreeExtent m' (m'.slots (m.addr m.head (.mid i)) i2))
    (I := fun k m' => m.Emptied (m.HeadDone i k) m') hg.wraps hk
    (fun k m' hk' hI => destroyHeadLeaf_spec hg hk' hI) he
  obtain ⟨m₃, heq₃, he₃⟩ := he₂.free (hg.owned _ hcov) fun p hp hsame => by
    obtain rfl := hg.inj p _ hp.1 hcov hsame
    exact Nat.lt_irrefl i hp.2
  refine ⟨m₃, ?_, he₃.congr fun p => ?_⟩
  · unfold destroyHeadMid
    dsimp only
    rw [haddr, he.config, hg.config.step2, heq, Option.bind_eq_bind, Option.bind_some, heq₃]
  · cases p with
    | root => simp [Matras.HeadDone]
    | mid j =>
        simp only [Matras.HeadDone, ExtentPos.mid.injEq, Nat.lt_succ_iff_lt_or_eq]
        constructor
        · rintro (⟨hc, h⟩ | rfl)
          · exact ⟨hc, Or.inl h⟩
          · exact ⟨hcov, Or.inr rfl⟩
        · rintro ⟨hc, h | h⟩
          · exact Or.inl ⟨hc, h⟩
          · exact Or.inr h
    | leaf e =>
        simp only [Matras.HeadDone, reduceCtorEq, or_false, Nat.not_lt_zero, and_false,
          Nat.lt_succ_iff_lt_or_eq]
        refine and_congr_right fun hc => or_congr Iff.rfl ⟨fun h => h.1, fun h => ⟨h, ?_⟩⟩
        rw [MatrasConfig.lt_leaves_iff]
        refine ⟨Nat.mod_lt _ m.config.fanout_pos, ?_⟩
        have hc' : e * m.config.perExtent < m.head.blockCount := hc
        rw [← Nat.div_add_mod e m.config.fanout, h, Nat.add_mul, Nat.mul_comm m.config.fanout,
          Nat.mul_assoc, Nat.mul_comm m.config.fanout] at hc'
        exact hc'

/-- The head goes. -/
theorem destroyHead_spec (hne : m.head.blockCount ≠ 0) :
    ∃ m₂ m', stepLoop (fun _ j1 => decide (j1 < m.head.blockCount)) (m.config.mask1 + 1)
      (destroyHeadMid m.head)
        (m.head.blockCount + 1) 0 0 m = some m₂ ∧
      matrasFreeExtent m₂ m₂.head.root = some m' ∧ m.Emptied (m.Covers m.head) m' := by
  have hcov : m.Covers m.head .root := Nat.pos_of_ne_zero hne
  have hnone : ∀ p, ¬ m.HeadDone 0 0 p := by
    intro p hp
    cases p with
    | root => exact hp.2
    | mid j => exact Nat.not_lt_zero j hp.2
    | leaf e => simp [Matras.HeadDone] at hp
  have hstart : m.Emptied (m.HeadDone 0 0) m :=
    ⟨rfl, rfl, rfl,
      hg.nodup, fun x => ⟨fun hx => ⟨hx, fun p hp => absurd hp (hnone p)⟩, fun h => h.1⟩, rfl⟩
  obtain ⟨m₂, heq, he⟩ := MatrasConfig.midsLoop (destroyHeadMid m.head)
    (I := fun k m' => m.Emptied (m.HeadDone k 0) m') hg.wraps
    (fun k m' hk hI => destroyHeadMid_spec hg hk hI) hstart
  obtain ⟨m', heq', he'⟩ := he.free (hg.owned _ hcov) fun p hp hsame => by
    obtain rfl := hg.inj p _ hp.1 hcov hsame
    exact hp.2
  refine ⟨m₂, m', by rw [hg.config.step1, heq], by rw [he.head]; exact heq', he'.congr fun p => ?_⟩
  constructor
  · rintro (h | rfl)
    · exact h.1
    · exact hcov
  · intro h
    cases p with
    | root => exact Or.inr rfl
    | mid j => exact Or.inl ⟨h, Matras.lt_mids h⟩
    | leaf e => exact Or.inl ⟨h, Or.inl (Matras.lt_mids h.mid_of_leaf)⟩

end Head

/-- The state of a run: every extent that is allocated is in use, and counted. -/
structure Matras.Clean (m : Matras) : Prop where
  good : m.Good []
  tight : m.Tight []
  count : m.extentCount = (m.allocator.size : BitVec 32)

namespace Matras.Clean

theorem count_eq (h : m.Clean) : m.extentCount = (m.allocator.allocated.length : BitVec 32) := by
  have hzero : m.allocator.numReservedExtents = 0 := h.good.inv.alloc.size
  rw [h.count, MatrasAllocator.size, hzero, Int.natCast_zero, Int.sub_zero, Int.cast_natCast]

theorem count_toNat (h : m.Clean) :
    m.extentCount.toNat = m.allocator.allocated.length % 2 ^ 32 := by
  rw [h.count_eq, BitVec.natCast_eq_ofNat, BitVec.toNat_ofNat]

theorem allocated_iff (h : m.Clean) : x ∈ m.allocator.allocated ↔ m.Reached x := by
  constructor
  · exact fun hx => h.tight x (Matras.owns_nil.2 hx)
  · rintro ⟨v, hv, p, hp, rfl⟩
    exact (h.good.inv.owned v hv p hp).1

end Matras.Clean

theorem Matras.Leaks.congr (hslots : m'.slots = m.slots) (hconfig : m'.config = m.config)
    (h : m'.Leaks v next prev) :
    m.Leaks v next prev := by
  have haddr : m'.addr = m.addr := by
    funext v p
    cases p <;> simp only [Matras.addr, hslots, hconfig]
  have hcov : m'.Covers = m.Covers := by
    funext v p
    simp only [Matras.Covers, hconfig]
  obtain ⟨id, hid, p, q, hp, hq, hdepth, hu, u, hmem, hc, he⟩ := h
  rw [hconfig] at hp hq
  rw [hcov] at hc
  rw [haddr] at he
  refine ⟨id, hid, p, q, hp, hq, hdepth, ⟨fun hc' => ?_, fun w hw hc' => ?_⟩, u, hmem, hc, he⟩
  · have := hu.next (hcov ▸ hc')
    rwa [haddr] at this
  · have := hu.prev w hw (hcov ▸ hc')
    rwa [haddr] at this

/-- The first view is the one with its key. -/
theorem Matras.Between.of_first (hb : m.Between A w next prev B) {views : List MatrasView}
    (hviews : m.views = v :: views) (hkeys : (m.views.map (·.key)).Nodup) (hkey : w.key = v.key) :
    A = [] ∧ w = v ∧ B = views ∧ next = m.head := by
  have hlist := hb.views
  rw [hviews] at hlist
  cases A with
  | nil =>
      obtain ⟨rfl, rfl⟩ := List.cons.inj hlist
      exact ⟨rfl, rfl, rfl, hb.next⟩
  | cons a A =>
      obtain ⟨rfl, rfl⟩ := List.cons.inj hlist
      rw [hviews, List.map_cons, List.nodup_cons] at hkeys
      refine absurd ?_ hkeys.1
      rw [← hkey]
      exact List.mem_map_of_mem (List.mem_append_right _ List.mem_cons_self)

/-- A view without leaks goes. -/
theorem Matras.Clean.dropped (hc : m.Clean) (hb : m.Between A v next prev B)
    (hviews : m'.views = A ++ B) (h : m.Dropped [] v next prev m') (hno : ¬ m.Leaks v next prev) :
    m'.Clean := by
  have hkeys : (m'.views.map (·.key)).Nodup := by
    have hkeys := hc.good.keys
    rw [hb.views] at hkeys
    rw [hviews]
    exact hkeys.sublist (((List.sublist_cons_self v B).append_left A).map _)
  refine ⟨⟨h.inv, hkeys⟩, h.tight hb hviews hc.good.inv hno hc.tight, ?_⟩
  obtain ⟨k, hk⟩ := h.counts
  rw [hk.extents, hk.size, hc.count, Int.cast_add]

/-- The views go one after the other, the newest one first. -/
theorem destroyViews_spec {views : List MatrasView} : ∀ {m : Matras}, m.views = views → m.Clean →
    (∀ A v B, m.views = A ++ v :: B → ¬ m.Leaks v m.head B.head?) → m.config.capacity < 2 ^ 32 →
    ∃ m', destroyViews views.length m = some m' ∧ m'.Clean ∧ m'.views = [] ∧
    m'.config = m.config := by
  induction views with
  | nil => exact fun hviews hc _ _ => ⟨_, rfl, hc, hviews, rfl⟩
  | cons v views ih =>
      intro m hviews hc hno hsmall
      have hi := hc.good.inv
      have hv : v ∈ m.views := by rw [hviews]; exact List.mem_cons_self
      rcases matrasDestroyReadView_spec hi hc.good.keys v.key with ⟨hnone, -⟩
        | ⟨A, w, next, prev, B, hb, hkey, ⟨hwrap, -⟩ | ⟨m₁, heq, hm₁, h⟩⟩
      · exact absurd rfl (hnone v hv)
      · have := hi.config.mids_lt (hi.bound w (Matras.view_mem hb.mem)) hsmall
        omega
      · obtain ⟨rfl, rfl, rfl, rfl⟩ := hb.of_first hviews hc.good.keys hkey
        have hprev : prev = B.head? := hb.prev
        subst hprev
        have hclean : m₁.Clean := hc.dropped hb hm₁ h (hno [] w B hviews)
        have hno₁ : ∀ A v B', m₁.views = A ++ v :: B' → ¬ m₁.Leaks v m₁.head B'.head? := by
          intro A v B' hsplit hleak
          rw [h.head] at hleak
          refine hno (w :: A) v B' ?_ (hleak.congr h.slots h.config)
          rw [hviews, List.cons_append, ← hsplit, hm₁, List.nil_append]
        obtain ⟨m', heq', hclean', hviews', hconfig⟩ := ih hm₁ hclean hno₁ (h.config.symm ▸ hsmall)
        refine ⟨m', ?_, hclean', hviews', hconfig.trans h.config⟩
        rw [List.length_cons, destroyViews, hviews]
        show (matrasDestroyReadView m w.key).bind (destroyViews B.length) = some m'
        rw [heq]
        exact heq'

/-- `matras_destroy` frees the extents of the head, if no view is open and its outer counter
does not wrap around. -/
theorem matrasDestroy_head (hc : m.Clean) (hviews : m.views = [])
    (hwrap : m.config.mids m.head.blockCount * (m.config.perExtent * m.config.fanout) < 2 ^ 32) :
    ∃ m', matrasDestroy m = some m' ∧ m'.allocator.allocated = [] ∧ m'.extentCount = 0 := by
  have hi := hc.good.inv
  have hall : m.all = [m.head] := by rw [Matras.all, hviews]
  have hreach : ∀ x ∈ m.allocator.allocated, ∃ p, m.Covers m.head p ∧ m.addr m.head p = x := by
    intro x hx
    obtain ⟨v, hv, p, hp, he⟩ := hc.allocated_iff.1 hx
    rw [hall] at hv
    obtain rfl := List.mem_singleton.1 hv
    exact ⟨p, hp, he⟩
  have hnone : destroyViews m.views.length m = some m := by
    rw [hviews]
    rfl
  unfold matrasDestroy
  rw [hnone, Option.bind_eq_bind, Option.bind_some]
  by_cases hzero : m.head.blockCount = 0
  · have hnil : m.allocator.allocated = [] := by
      rw [List.eq_nil_iff_forall_not_mem]
      intro x hx
      obtain ⟨p, hp, -⟩ := hreach x hx
      have hlt : _ < m.head.blockCount := hp
      omega
    refine ⟨m, if_pos hzero, hnil, ?_⟩
    rw [hc.count_eq, hnil]
    rfl
  · have hg : m.Single :=
      ⟨hi.config, hi.alloc.nodup, fun p hp => (hi.owned _ m.head_mem p hp).1,
        fun p q hp hq => hi.inj m.head_mem m.head_mem hp hq, hwrap⟩
    obtain ⟨m₂, m', hloop, hfree, he⟩ := destroyHead_spec hg hzero
    have hnil : m'.allocator.allocated = [] := by
      rw [List.eq_nil_iff_forall_not_mem]
      intro x hx
      obtain ⟨hx₁, hne⟩ := (he.mem x).1 hx
      obtain ⟨p, hp, hpx⟩ := hreach x hx₁
      exact hne p hp hpx
    have hcount : m'.extentCount = 0 := by
      have h1 := he.count
      have h2 := hc.count_eq
      rw [h2, sub_self, hnil, List.length_nil, Nat.cast_zero, sub_zero] at h1
      exact h1
    refine ⟨m', ?_, hnil, hcount⟩
    rw [if_neg hzero, hloop, Option.bind_some, hfree, Option.bind_some]
    simp [guard, hcount]

/-- `matras_destroy` gives everything back. -/
theorem matrasDestroy_spec (hc : m.Clean)
    (hno : ∀ A v B, m.views = A ++ v :: B → ¬ m.Leaks v m.head B.head?)
    (hsmall : m.config.capacity < 2 ^ 32) :
    ∃ m', matrasDestroy m = some m' ∧ m'.allocator.allocated = [] ∧ m'.extentCount = 0 := by
  obtain ⟨m₁, heq, hc₁, hviews, hconfig⟩ := destroyViews_spec rfl hc hno hsmall
  have hi := hc₁.good.inv
  obtain ⟨m', hdestroy, hrest⟩ :=
    matrasDestroy_head hc₁ hviews
      (hi.config.mids_lt (hi.bound _ m₁.head_mem) (hconfig.symm ▸ hsmall))
  have hnone : destroyViews m₁.views.length m₁ = some m₁ := by
    rw [hviews]
    rfl
  refine ⟨m', ?_, hrest⟩
  unfold matrasDestroy at hdestroy ⊢
  rw [hnone] at hdestroy
  rw [heq]
  exact hdestroy

/-! ## Runs -/

/-- The runs of a matras in which nothing is reserved and no view is destroyed that leaks. -/
def tidyMachine (blockSize extentSize : Nat) : Machine Matras MatrasOp where
  init := (matrasMachine blockSize extentSize).init
  allowed := fun m op => op.Allowed m ∧ op.Tidy m
  exec := MatrasOp.exec

/--
The extents that are allocated are those in use, `extent_count` is their number
modulo `2 ^ 32`, and `matras_destroy` gives each of them back if the views that
are there do not leak.
-/
structure Matras.NoLeak (m : Matras) : Prop where
  allocated : ∀ x, x ∈ m.allocator.allocated ↔ m.Reached x
  nodup : m.allocator.allocated.Nodup
  count : m.extentCount.toNat = m.allocator.allocated.length % 2 ^ 32
  destroy : (∀ A v B, m.views = A ++ v :: B → ¬ m.Leaks v m.head B.head?) →
    ∃ m', matrasDestroy m = some m' ∧ m'.allocator.allocated = [] ∧ m'.extentCount = 0

/-- A call that returns leaves a state as before. -/
theorem Matras.Clean.exec {op : MatrasOp} (hc : m.Clean) (hal : op.Allowed m) (hop : op.Tidy m)
    (hex : op.exec m = some m') :
    m'.Clean ∧ m'.config = m.config := by
  rcases matrasOp_spec hc.good hal with ⟨-, hnone⟩ | ⟨supply, m₁, rs', hfresh, heq, h⟩
  · rw [hnone] at hex
    cases hex
  · cases heq.symm.trans hex
    obtain ⟨htight, hzero⟩ := matrasOp_tight hc.good hc.tight hal hop hex
    have hg := h.good (Matras.withSupply_good hc.good hfresh)
    obtain rfl := hg.inv.eq_nil hzero
    obtain ⟨d, r, hcounts, -⟩ := h.counts
    have hcount : (m.withSupply supply).extentCount = (m.withSupply supply).allocator.size :=
      hc.count
    refine ⟨⟨hg, htight, ?_⟩, h.config⟩
    rw [hcounts.extents, hcounts.size, hcount, Int.cast_add]

theorem matrasOp_clean {op : MatrasOp} (hc : m.Clean) (hal : op.Allowed m) (hop : op.Tidy m)
    (hsmall : m.config.capacity < 2 ^ 32) :
    ∃ m', op.exec m = some m' ∧ m'.Clean ∧ m'.config = m.config := by
  rcases matrasOp_spec hc.good hal with ⟨hlarge, -⟩ | ⟨supply, m', rs', hfresh, heq, h⟩
  · omega
  · exact ⟨m', heq, hc.exec hal hop heq⟩

/-- A new matras. -/
theorem matrasCreate_clean {slots : Nat → Nat → Nat} {bytes : Nat → Nat → UInt8} {root : Nat}
    (h : matrasCreate blockSize extentSize slots bytes root = some m) : m.Clean := by
  have hnew := matrasCreate_spec h
  refine ⟨hnew.good, fun x hx => ?_, ?_⟩
  · rw [Matras.owns_nil, hnew.allocated] at hx
    cases hx
  · have hzero : m.allocator.numReservedExtents = 0 := hnew.good.inv.alloc.size
    rw [hnew.extentCount, MatrasAllocator.size, hnew.allocated, hzero]
    rfl

/-- **No extent leaks** as long as no view is destroyed that leaks, and no call frees an extent
twice: each one returns. -/
theorem matras_no_leak (hsize : 3 * extentSize.log2 - blockSize.log2 - 6 < 32)
    (hs : (tidyMachine blockSize extentSize).Reachable m) :
    m.NoLeak ∧ ∀ op : MatrasOp, op.Allowed m → op.Tidy m → ∃ m', op.exec m = some m' := by
  have hinv := (tidyMachine blockSize extentSize).invariant
    (P := fun m => m.Clean ∧ m.config.capacity < 2 ^ 32) (fun m hm => ?_) (fun m op hP hal => ?_) hs
  · obtain ⟨⟨hc, hsmall⟩, hops⟩ := hinv
    refine ⟨⟨fun x => hc.allocated_iff, hc.good.inv.alloc.nodup, hc.count_toNat, fun hno =>
      matrasDestroy_spec hc hno hsmall⟩,
      fun op hal hop => ?_⟩
    obtain ⟨m', heq, -⟩ := hops op ⟨hal, hop⟩
    exact ⟨m', heq⟩
  · obtain ⟨slots, bytes, root, hcreate⟩ := hm
    exact ⟨matrasCreate_clean hcreate,
      (matrasConfig_spec (matrasCreate_spec hcreate).config).2 hsize⟩
  · obtain ⟨m', heq, hc', hconfig⟩ := matrasOp_clean hP.1 hal.1 hal.2 hP.2
    exact ⟨m', heq, hc', hconfig ▸ hP.2⟩

/-- The only view does not leak. -/
theorem Matras.tidy_of_single {key : Nat} (hv : m.views = [v]) :
    (MatrasOp.destroyReadView key).Tidy m := by
  intro A w next prev B hb _ hleak
  obtain ⟨-, -, -, -, -, -, -, -, u, hu, -⟩ := hleak
  have hlist := hb.views
  rw [hv] at hlist
  have hB : B = [] := by
    cases A with
    | nil => exact (List.cons.inj hlist).2.symm
    | cons a A =>
        have := congrArg List.length hlist
        simp at this
  rw [hb.prev, hB] at hu
  cases hu

/-- Nothing is reserved, and a view goes only if it is the only one. -/
def MatrasOp.isTidy (m : Matras) : MatrasOp → Bool
  | .touchReserve .. => false
  | .destroyReadView _ => decide (m.views.length = 1)
  | _ => true

theorem MatrasOp.tidy_of_isTidy {op : MatrasOp} (h : op.isTidy m = true) : op.Tidy m := by
  cases op with
  | touchReserve supply count => cases h
  | destroyReadView key =>
      have hlen : m.views.length = 1 := of_decide_eq_true h
      obtain ⟨v, hv⟩ := List.length_eq_one_iff.1 hlen
      exact Matras.tidy_of_single hv
  | _ => trivial

/-- The run of a list of calls from a new matras in an empty memory. -/
def tidyRun (blockSize extentSize : Nat) (ops : List MatrasOp) : Option Matras :=
  (matrasCreate blockSize extentSize (fun _ _ => 0) (fun _ _ => 0) 0).bind
    ((tidyMachine blockSize extentSize).run (fun m op => op.check m && op.isTidy m) ops)

theorem tidyRun_reachable {ops : List MatrasOp} (h : tidyRun blockSize extentSize ops = some m) :
    (tidyMachine blockSize extentSize).Reachable m := by
  obtain ⟨m₀, hinit, hrun⟩ := Option.bind_eq_some_iff.1 h
  refine Machine.Reachable.run _ (fun m op h => ?_) ops (.init ⟨_, _, _, hinit⟩) hrun
  rw [Bool.and_eq_true] at h
  exact ⟨MatrasOp.allowed_of_check h.1, MatrasOp.tidy_of_isTidy h.2⟩

/-- The only view goes after its block was touched. -/
theorem matras_no_leak_destroyed :
    ∃ m, tidyRun 16 16 [.alloc [some 1, some 2, some 3], .createReadView 1,
      .touch [some 4, some 5, some 6] 0, .destroyReadView 1] = some m ∧ m.extentCount = 3 ∧
      m.NoLeak := by
  have hrun : (tidyRun 16 16 [.alloc [some 1, some 2, some 3], .createReadView 1,
      .touch [some 4, some 5, some 6] 0,
      .destroyReadView 1]).map (·.extentCount) = some 3 := by decide +kernel
  obtain ⟨m, heq, hcount⟩ := Option.map_eq_some_iff.1 hrun
  exact ⟨m, heq, hcount, (matras_no_leak (by decide) (tidyRun_reachable heq)).1⟩

/-- The second of two views goes after its last block was touched: what the first view does not
have stays behind, and `matras_destroy` fails its assertion. -/
theorem matras_view_leaks : 3 * Nat.log2 16 - Nat.log2 16 - 6 < 32 ∧
    ∃ m, matrasRun 16 16 [.alloc [some 1, some 2, some 3],
      .createReadView 1, .alloc [some 4], .createReadView 2, .touch [some 5, some 6, some 7] 1,
      .destroyReadView 2] = some m ∧
    4 ∈ m.allocator.allocated ∧ ¬ m.Reached 4 ∧ matrasDestroy m = none := by
  have hrun : (matrasRun 16 16 [.alloc [some 1, some 2, some 3], .createReadView 1,
      .alloc [some 4], .createReadView 2,
      .touch [some 5, some 6, some 7] 1, .destroyReadView 2]).map (fun m =>
      (decide (4 ∈ m.allocator.allocated), (matrasDestroy m).isNone,
        (m.all.map fun v => [v.blockCount, m.addr v .root, m.addr v (.mid 0), m.addr v (.leaf 0),
          m.addr v (.leaf 1)]),
        m.config.perExtent, m.config.fanout)) =
      some (true, true, [[2, 5, 6, 3, 7], [1, 1, 2, 3, 4]], 1, 2) := by decide +kernel
  obtain ⟨m, heq, hval⟩ := Option.map_eq_some_iff.1 hrun
  simp only [Prod.mk.injEq, decide_eq_true_eq, Option.isNone_iff_eq_none] at hval
  obtain ⟨hmem, hnone, hall, hper, hfan⟩ := hval
  refine ⟨by decide, m, heq, hmem, ?_, hnone⟩
  rintro ⟨v, hv, p, hp, he⟩
  have hv' := List.mem_map_of_mem (f := fun v => [v.blockCount, m.addr v .root, m.addr v (.mid 0),
      m.addr v (.leaf 0), m.addr v (.leaf 1)]) hv
  rw [hall] at hv'
  simp only [List.mem_cons, List.not_mem_nil, or_false, List.cons.injEq, and_true] at hv'
  cases p with
  | root => omega
  | mid i =>
      rw [Matras.covers_mid, hper, hfan] at hp
      obtain rfl : i = 0 := by omega
      omega
  | leaf e =>
      rw [Matras.covers_leaf, hper] at hp
      rcases Nat.eq_zero_or_pos e with rfl | hpos
      · omega
      · rcases hv' with ⟨hcount, -, -, -, h7⟩ | ⟨hcount, -⟩
        · obtain rfl : e = 1 := by omega
          omega
        · omega

end SmallAllocators
