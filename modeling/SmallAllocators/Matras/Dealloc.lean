/-
SmallAllocators.Matras.Dealloc — the last blocks go.

`matras_dealloc` touches the last block and frees the extents above it that
the head no longer needs. After the touch these extents are the head's own.
A range goes in one step, and its blocks lie in one extent, so the touch of
its first block is enough.
-/
import SmallAllocators.Matras.Alloc

namespace SmallAllocators

variable {m m' m₁ m₂ : Matras} {rs rs' : List Nat} {v : MatrasView} {p q : ExtentPos}
    {id x n : Nat} {xs : List Nat} {r : Int}

/-! ## Extents that go back -/

/-- Extents went back to `free_func`, and the counter of extents of views changed by `r`. -/
structure Matras.Freed (m : Matras) (rs : List Nat) (xs : List Nat) (r : Int) (m' : Matras) :
    Prop where
  tree : m.SameTree m'
  inv : m'.Inv rs
  owns : ∀ y, m'.Owns rs y ↔ m.Owns rs y ∧ y ∉ xs
  counts : m.Counts (-xs.length) r m'

namespace Matras.Freed

theorem refl (hi : m.Inv rs) : m.Freed rs [] 0 m :=
  ⟨.refl m, hi, fun y => by simp, .same rfl rfl rfl⟩

/-- One more extent, by `matras_free_extent`. -/
theorem cons (h : m.Freed rs xs r m₁) (hx : m.Owns rs x) (hxs : x ∉ xs) (hnot : ¬ m.Reached x) :
    ∃ m₂, matrasFreeExtent m₁ x = some m₂ ∧ m.Freed rs (x :: xs) r m₂ := by
  have hnot' : ¬ m₁.Reached x := fun hr => hnot ((h.tree.reached x).1 hr)
  obtain ⟨m₂, heq, ht, hinv, howns, hcounts⟩ :=
    matrasFreeExtent_spec h.inv ((h.owns x).2 ⟨hx, hxs⟩) hnot'
  refine ⟨m₂, heq, h.tree.trans ht, hinv, fun y => ?_, ?_⟩
  · rw [howns, h.owns, List.mem_cons]
    tauto
  · have hc := h.counts.trans hcounts
    rw [List.length_cons]
    have hlen : -((xs.length + 1 : Nat) : Int) = -(xs.length : Int) + -1 := by omega
    rw [hlen]
    simpa using hc

/-- One more extent, by `matras_free_read_view_extent`. -/
theorem cons_readView (h : m.Freed rs xs r m₁) (hx : m.Owns rs x) (hxs : x ∉ xs)
    (hnot : ¬ m.Reached x) :
    ∃ m₂, matrasFreeReadViewExtent m₁ x = some m₂ ∧ m.Freed rs (x :: xs) (r - 1) m₂ := by
  obtain ⟨m₂, heq, hf⟩ := h.cons hx hxs hnot
  exact ⟨m₂.addReadViewExtents (-1), by simp [matrasFreeReadViewExtent, heq],
    hf.tree.addReadViewExtents (-1),
    hf.inv.addReadViewExtents (-1), fun y => Matras.owns_addReadViewExtents.trans (hf.owns y),
    hf.counts.addReadViewExtents (by simp)⟩

end Matras.Freed

/-! ## The extents of the last block -/

/-- The last blocks, from `id` on, are gone. -/
structure Matras.Shrunk (m : Matras) (rs : List Nat) (id : Nat) (m' : Matras) : Prop where
  inv : m'.Inv rs
  config : m'.config = m.config
  views : m'.views = m.views
  count : m'.head.blockCount = id
  root : m'.head.root = m.head.root
  slots : m'.slots = m.slots
  bytes : m'.bytes = m.bytes
  owns : ∀ x, m'.Owns rs x ↔ m.Owns rs x ∧ ∀ p, m.Covers m.head p → ¬ m'.Covers m'.head p →
    m.addr m.head p ≠ x
  counts : m.Counts ((m.config.need id : Int) - m.config.need m.head.blockCount) 0 m'

/-- The last block is in the last extent. -/
theorem MatrasConfig.le_extent_end (c : MatrasConfig) (n : Nat) :
    n ≤ (c.extentOf (n - 1) + 1) * c.perExtent := by
  have hlt := Nat.lt_mul_div_succ (n - 1) c.perExtent_pos
  rw [Nat.mul_comm] at hlt
  exact Nat.le_of_pred_lt hlt

theorem MatrasConfig.onPath_congr {c : MatrasConfig} {i : Nat} (h : c.extentOf i = c.extentOf id)
    (hp : c.onPath i p) :
    c.onPath id p := by
  cases p with
  | root => trivial
  | mid j =>
      show c.extentOf id / c.fanout = j
      rw [← h]
      exact hp
  | leaf e =>
      show c.extentOf id = e
      rw [← h]
      exact hp

/-- Blocks between the first of an extent and the end of it lie in the extent. -/
theorem MatrasConfig.extentOf_eq (c : MatrasConfig) {b i : Nat} (hlo : b ≤ i)
    (hhi : i < (c.extentOf b + 1) * c.perExtent) :
    c.extentOf i = c.extentOf b := by
  have h1 : c.extentOf b ≤ c.extentOf i := Nat.div_le_div_right hlo
  have h2 : c.extentOf i < c.extentOf b + 1 := (Nat.div_lt_iff_lt_mul c.perExtent_pos).2 hhi
  omega

/-- The head without its last blocks. -/
theorem Matras.Isolated.inv_setBlockCount (h : m.Isolated id) (hi : m.Inv rs)
    (hid : id < m.head.blockCount)
    (hle : m.head.blockCount ≤ (m.config.extentOf id + 1) * m.config.perExtent) :
    (m.setBlockCount id).Inv rs := by
  have hcov : ∀ p, (m.setBlockCount id).Covers (m.setBlockCount id).head p → m.Covers m.head p :=
    fun p hp => Nat.lt_trans hp hid
  refine hi.update rfl rfl (fun v _ p _ => by cases p <;> rfl) (fun p q hp hq heq => ?_)
    (fun p hp => ?_)
    (fun v hv p hp hpv heq _ i hpath hlt => ?_) (fun p hp => ?_)
    (fun v hv p hp => hi.owned v (Matras.view_mem hv) p hp) ?_ hi.alloc
  · rw [m.addr_setBlockCount, m.addr_setBlockCount] at heq
    exact hi.inj m.head_mem m.head_mem (hcov p hp) (hcov q hq) heq
  · rw [m.addr_setBlockCount]
    exact Or.inl ⟨hcov p hp, rfl⟩
  · show i < id
    by_cases hon : m.config.onPath id p
    · exact Nat.lt_of_lt_of_le (h v hv p hon hp hpv heq i hpath hlt) (Nat.div_mul_le_self _ _)
    · have hbc := hi.grows hv hp hpv heq hpath hlt
      by_contra hge
      have hext := m.config.extentOf_eq (Nat.le_of_not_lt hge) (Nat.lt_of_lt_of_le hbc hle)
      exact hon (MatrasConfig.onPath_congr hext hpath)
  · rw [m.addr_setBlockCount]
    exact hi.owned m.head m.head_mem p (hcov p hp)
  · exact Nat.le_trans (Nat.le_of_lt hid) (hi.bound m.head m.head_mem)

/-- The extents that the head no longer needs are not in use. -/
theorem Matras.Isolated.not_reached (h : m.Isolated id) (hi : m.Inv rs)
    (hid : id < m.head.blockCount) (hp : p ∈ (m.setBlockCount id).news) :
    ¬ (m.setBlockCount id).Reached (m.addr m.head p) := by
  obtain ⟨hpath, hnot⟩ := Matras.mem_news.1 hp
  have hpath' : m.config.onPath id p := hpath
  have hcov : m.Covers m.head p := .of_path hpath' hid
  rintro ⟨v, hv, q, hq, he⟩
  rcases List.mem_cons.1 hv with rfl | hv
  · rw [m.addr_setBlockCount] at he
    have hq' : m.Covers m.head q := Nat.lt_trans hq hid
    obtain rfl := hi.inj m.head_mem m.head_mem hq' hcov he
    exact hnot hq
  · have he' : m.addr v q = m.addr m.head p := by
      rw [← he]
      cases q <;> rfl
    obtain rfl := hi.inj (Matras.view_mem hv) m.head_mem hq hcov he'
    have hfirst := h v hv q hpath' hcov hq he'.symm (m.config.layout.first q)
      (MatrasConfig.below_iff.1 (m.config.layout.below_first q)) hq
    have hle : m.config.extentOf id * m.config.perExtent ≤ id := Nat.div_mul_le_self _ _
    exact hnot (Nat.lt_of_lt_of_le hfirst hle)

/-- One `if` of `matras_dealloc`. -/
theorem freeIf_spec {L : List ExtentPos} {free : Bool}
    (h : m.Freed rs (L.map (m.addr m.head)) r m₁) (hfree : free = true ↔ ¬ m.Covers m.head p)
    (hown : m.Owns rs (m.addr m.head p)) (hL : m.addr m.head p ∉ L.map (m.addr m.head))
    (hnot : ¬ m.Covers m.head p → ¬ m.Reached (m.addr m.head p)) :
    ∃ m₂, freeIf m₁ free (m.addr m.head p) = some m₂ ∧
      m.Freed rs ((m.missing p ++ L).map (m.addr m.head)) r m₂ := by
  unfold freeIf Matras.missing
  by_cases hcov : m.Covers m.head p
  · rw [if_neg fun hf => hfree.1 hf hcov, if_pos hcov]
    exact ⟨m₁, rfl, h⟩
  · rw [if_pos (hfree.2 hcov), if_neg hcov]
    exact h.cons hown hL (hnot hcov)

theorem deallocExtents_eq (hc : m.config.Ok) (id : Nat) : deallocExtents m id = (do
    let m₁ ← freeIf m (decide (id &&& m.config.mask1 &&& m.config.mask2 = 0))
      (m.addr m.head (.leaf (m.config.extentOf id)))
    let m₂ ← freeIf m₁ (decide (id &&& m₁.config.mask1 = 0))
      (m.addr m.head (.mid (m.config.extentOf id / m.config.fanout)))
    freeIf m₂ (decide (id = 0)) (m.addr m.head .root)) := by
  unfold deallocExtents
  rw [hc.n1_eq, hc.n2_eq]
  rfl

/-- Nothing goes back when the block is not the first one of its extent. -/
theorem deallocExtents_of_ne (hc : m.config.Ok) (hmod : id % m.config.perExtent ≠ 0) :
    deallocExtents m id = some m := by
  have hmid : id % (m.config.perExtent * m.config.fanout) ≠ 0 := fun h =>
    hmod (Nat.mod_eq_zero_of_dvd (Nat.dvd_trans (Dvd.intro _ rfl) (Nat.dvd_of_mod_eq_zero h)))
  have hzero : id ≠ 0 := by
    rintro rfl
    exact hmod (Nat.zero_mod _)
  rw [deallocExtents_eq hc, hc.and_masks]
  simp [freeIf, hmod, hmid, hzero, hc.and_mask1]

/-- The extents of the last block go back. -/
theorem deallocExtents_spec (hi : m.Inv rs) (hiso : m.Isolated id) (hid : id < m.head.blockCount)
    (hle : m.head.blockCount ≤ (m.config.extentOf id + 1) * m.config.perExtent) :
    ∃ m', deallocExtents (m.setBlockCount id) id = some m' ∧ m.Shrunk rs id m' := by
  have hc := hi.config
  have hinv := hiso.inv_setBlockCount hi hid hle
  have hleaf : decide (id &&& m.config.mask1 &&& m.config.mask2 = 0) = true ↔
      ¬ (m.setBlockCount id).Covers (m.setBlockCount id).head (.leaf (m.config.extentOf id)) := by
    rw [decide_eq_true_iff, hc.and_masks]
    exact (not_iff_comm.1 (m.config.first_leaf_lt id).symm).symm
  have hmid : decide (id &&& m.config.mask1 = 0) = true ↔
      ¬ (m.setBlockCount id).Covers (m.setBlockCount id).head
        (.mid (m.config.extentOf id / m.config.fanout)) := by
    rw [decide_eq_true_iff, hc.and_mask1]
    exact (not_iff_comm.1 (m.config.first_mid_lt id).symm).symm
  have hroot : decide (id = 0) = true ↔
      ¬ (m.setBlockCount id).Covers (m.setBlockCount id).head .root := by
    rw [decide_eq_true_iff]
    exact Nat.pos_iff_ne_zero.not_left.symm
  have haddr : (m.setBlockCount id).addr (m.setBlockCount id).head = m.addr m.head :=
    funext (m.addr_setBlockCount id)
  have hcov : ∀ p, m.config.onPath id p → m.Covers m.head p := fun p hp => .of_path hp hid
  have hown : ∀ p, m.config.onPath id p →
      (m.setBlockCount id).Owns rs ((m.setBlockCount id).addr (m.setBlockCount id).head p) := by
    intro p hp
    rw [haddr]
    exact hi.owned m.head m.head_mem p (hcov p hp)
  have hnot : ∀ p, m.config.onPath id p →
      ¬ (m.setBlockCount id).Covers (m.setBlockCount id).head p →
      ¬ (m.setBlockCount id).Reached ((m.setBlockCount id).addr (m.setBlockCount id).head p) := by
    intro p hp hc'
    rw [haddr]
    exact hiso.not_reached hi hid (Matras.mem_news.2 ⟨hp, hc'⟩)
  have hne : ∀ p, m.config.onPath id p →
      ∀ L : List ExtentPos, (∀ q ∈ L, m.config.onPath id q ∧ q ≠ p) →
      (m.setBlockCount id).addr (m.setBlockCount id).head p ∉
        L.map ((m.setBlockCount id).addr (m.setBlockCount id).head) := by
    intro p hp L hL hmem
    obtain ⟨q, hq, he⟩ := List.mem_map.1 hmem
    rw [haddr] at he
    exact (hL q hq).2 (hi.inj m.head_mem m.head_mem (hcov q (hL q hq).1) (hcov p hp) he)
  have hpath2 : m.config.onPath id (.mid (m.config.extentOf id / m.config.fanout)) := rfl
  have hpath3 : m.config.onPath id (.leaf (m.config.extentOf id)) := rfl
  obtain ⟨m₁, heq₁, hf₁⟩ :=
    freeIf_spec (L := []) (.refl hinv) hleaf (hown _ hpath3) (by simp) (hnot _ hpath3)
  obtain ⟨m₂, heq₂, hf₂⟩ := freeIf_spec hf₁ hmid (hown _ hpath2) (hne _ hpath2 _ fun q hq => by
    rw [List.append_nil, Matras.mem_missing] at hq
    exact ⟨hq.1 ▸ hpath3, by rw [hq.1]; intro h; cases h⟩) (hnot _ hpath2)
  obtain ⟨m₃, heq₃, hf₃⟩ :=
      freeIf_spec hf₂ hroot (hown .root trivial) (hne .root trivial _ fun q hq => by
    rw [List.append_nil, List.mem_append, Matras.mem_missing, Matras.mem_missing] at hq
    rcases hq with hq | hq
    · exact ⟨hq.1 ▸ hpath2, by rw [hq.1]; intro h; cases h⟩
    · exact ⟨hq.1 ▸ hpath3, by rw [hq.1]; intro h; cases h⟩) (hnot .root trivial)
  refine ⟨m₃, ?_, ?_⟩
  · have hc₁ : m₁.config = m.config := hf₁.tree.config
    rw [deallocExtents_eq hinv.config]
    show ((freeIf (m.setBlockCount id) (decide (id &&& m.config.mask1 &&& m.config.mask2 = 0))
      ((m.setBlockCount id).addr (m.setBlockCount id).head (.leaf (m.config.extentOf id)))).bind
      fun m₁ =>
        (freeIf m₁ (decide (id &&& m₁.config.mask1 = 0))
          ((m.setBlockCount id).addr (m.setBlockCount id).head
            (.mid (m.config.extentOf id / m.config.fanout)))).bind fun m₂ =>
            freeIf m₂ (decide (id = 0))
              ((m.setBlockCount id).addr (m.setBlockCount id).head .root)) = _
    rw [heq₁, Option.bind_some, hc₁, heq₂, Option.bind_some, heq₃]
  · have hlist : ∀ L : List ExtentPos, L = (m.setBlockCount id).missing .root ++
        ((m.setBlockCount id).missing (.mid (m.config.extentOf id / m.config.fanout)) ++
          ((m.setBlockCount id).missing (.leaf (m.config.extentOf id)) ++ [])) →
          L.Perm (m.setBlockCount id).news := by
      rintro L rfl
      rw [List.append_nil]
      exact List.perm_append_comm.trans
        ((List.perm_append_comm.append_right _).trans (by rw [List.append_assoc]; exact .refl _))
    have hperm := hlist _ rfl
    constructor
    case inv => exact hf₃.inv
    case config => exact hf₃.tree.config
    case views => exact hf₃.tree.views
    case count => rw [hf₃.tree.head]; rfl
    case root => rw [hf₃.tree.head]; rfl
    case slots => exact hf₃.tree.slots
    case bytes => exact hf₃.tree.bytes
    case owns =>
      intro x
      rw [hf₃.owns, hf₃.tree.head, haddr]
      refine and_congr Iff.rfl ⟨fun hx p hp hnp he => ?_, fun hx hmem => ?_⟩
      · rw [hf₃.tree.covers] at hnp
        have hpath := ((m.config.first_lt_iff hid hle p).1 hp).resolve_left hnp
        exact hx (List.mem_map.2 ⟨p, hperm.mem_iff.2 (Matras.mem_news.2 ⟨hpath, hnp⟩), he⟩)
      · obtain ⟨p, hp, he⟩ := List.mem_map.1 hmem
        obtain ⟨hpath, hnp⟩ := Matras.mem_news.1 (hperm.mem_iff.1 hp)
        exact hx p (hcov p hpath) (fun h => hnp ((hf₃.tree.covers _ _).1 h)) he
    case counts =>
      have hneed := Matras.need_eq (m := m.setBlockCount id) hc hid hle
      have hlen : ((m.config.need id : Int) - m.config.need m.head.blockCount) =
          -((m.setBlockCount id).news.length : Int) := by
        have : m.config.need m.head.blockCount =
            m.config.need id + (m.setBlockCount id).news.length := hneed
        omega
      have hcounts := hf₃.counts
      rw [List.length_map, hperm.length_eq] at hcounts
      rw [hlen]
      exact ⟨hcounts.extents, hcounts.total, hcounts.views, hcounts.size⟩

/-! ## A touch does not look at the number of blocks -/

theorem matrasAllocExtent_setBlockCount (m : Matras) (n : Nat) :
    matrasAllocExtent (m.setBlockCount n) = ((matrasAllocExtent m).1,
        (matrasAllocExtent m).2.setBlockCount n) := by
  unfold matrasAllocExtent matrasAllocatorAlloc
  by_cases hpos : 0 < m.allocator.numReservedExtents
  · have hpos' : 0 < (m.setBlockCount n).allocator.numReservedExtents := hpos
    rw [if_pos hpos, if_pos hpos']
    rfl
  · have hpos' : ¬ 0 < (m.setBlockCount n).allocator.numReservedExtents := hpos
    rw [if_neg hpos, if_neg hpos']
    have hcall : (m.setBlockCount n).allocator.call = m.allocator.call := rfl
    rw [hcall]
    cases m.allocator.call.1 <;> rfl

theorem touchLevel_setBlockCount (m : Matras) (n ext extp : Nat) {link : Matras → Nat → Matras}
    (hlink : ∀ m' new, link (m'.setBlockCount n) new = (link m' new).setBlockCount n) :
    touchLevel (m.setBlockCount n) ext extp link = ((touchLevel m ext extp link).1,
        (touchLevel m ext extp link).2.setBlockCount n) := by
  unfold touchLevel
  split
  · unfold matrasCopyReadViewExtent
    rw [matrasAllocExtent_setBlockCount]
    rcases matrasAllocExtent m with ⟨new | new, m'⟩
    · rfl
    · show (some new,
          link ((((m'.copyExtent new ext).addReadViewExtents 1)).setBlockCount n) new) = _
      rw [hlink]
  · rfl

theorem touchLeaf_setBlockCount (m : Matras) (n extent2 extent2p id : Nat) :
    touchLeaf (m.setBlockCount n) extent2 extent2p id =
      ((touchLeaf m extent2 extent2p id).1,
        (touchLeaf m extent2 extent2p id).2.setBlockCount n) := by
  have hlevel : touchLevel (m.setBlockCount n)
      ((m.setBlockCount n).slots extent2 ((m.setBlockCount n).config.n2 id))
      ((m.setBlockCount n).slots extent2p ((m.setBlockCount n).config.n2 id))
      (fun m' new => m'.setSlot extent2 ((m.setBlockCount n).config.n2 id) new) =
        ((touchLevel m (m.slots extent2 (m.config.n2 id)) (m.slots extent2p (m.config.n2 id))
          (fun m' new => m'.setSlot extent2 (m.config.n2 id) new)).1,
        (touchLevel m (m.slots extent2 (m.config.n2 id)) (m.slots extent2p (m.config.n2 id))
          (fun m' new => m'.setSlot extent2 (m.config.n2 id) new)).2.setBlockCount n) :=
    touchLevel_setBlockCount m n _ _ fun _ _ => rfl
  simp only [touchLeaf]
  rw [hlevel]
  rcases touchLevel m (m.slots extent2 (m.config.n2 id)) (m.slots extent2p (m.config.n2 id))
    (fun m' new => m'.setSlot extent2 (m.config.n2 id) new) with ⟨x | x, m'⟩
  · rfl
  · rfl

theorem touchMid_setBlockCount (m : Matras) (n extent1 extent1p id : Nat) :
    touchMid (m.setBlockCount n) extent1 extent1p id =
      ((touchMid m extent1 extent1p id).1, (touchMid m extent1 extent1p id).2.setBlockCount n) := by
  have hlevel : touchLevel (m.setBlockCount n)
      ((m.setBlockCount n).slots extent1 ((m.setBlockCount n).config.n1 id))
      ((m.setBlockCount n).slots extent1p ((m.setBlockCount n).config.n1 id))
      (fun m' new => m'.setSlot extent1 ((m.setBlockCount n).config.n1 id) new) =
        ((touchLevel m (m.slots extent1 (m.config.n1 id)) (m.slots extent1p (m.config.n1 id))
          (fun m' new => m'.setSlot extent1 (m.config.n1 id) new)).1,
        (touchLevel m (m.slots extent1 (m.config.n1 id)) (m.slots extent1p (m.config.n1 id))
          (fun m' new => m'.setSlot extent1 (m.config.n1 id) new)).2.setBlockCount n) :=
    touchLevel_setBlockCount m n _ _ fun _ _ => rfl
  simp only [touchMid]
  rw [hlevel]
  rcases touchLevel m (m.slots extent1 (m.config.n1 id)) (m.slots extent1p (m.config.n1 id))
    (fun m' new => m'.setSlot extent1 (m.config.n1 id) new) with ⟨x | x, m'⟩
  · rfl
  · exact touchLeaf_setBlockCount m' n _ _ id

theorem matrasTouchNoCheck_setBlockCount (m : Matras) (n extent1p id : Nat) :
    matrasTouchNoCheck (m.setBlockCount n) extent1p id =
      ((matrasTouchNoCheck m extent1p id).1,
        (matrasTouchNoCheck m extent1p id).2.setBlockCount n) := by
  have hlevel :
      touchLevel (m.setBlockCount n) (m.setBlockCount n).head.root extent1p Matras.setRoot =
      ((touchLevel m m.head.root extent1p Matras.setRoot).1,
        (touchLevel m m.head.root extent1p Matras.setRoot).2.setBlockCount n) :=
    touchLevel_setBlockCount m n _ _ fun _ _ => rfl
  unfold matrasTouchNoCheck
  rw [hlevel]
  rcases touchLevel m m.head.root extent1p Matras.setRoot with ⟨x | x, m'⟩
  · rfl
  · exact touchMid_setBlockCount m' n _ _ id

theorem matrasTouch_setBlockCount (hid : id < m.head.blockCount) (hn : id < n) :
    matrasTouch (m.setBlockCount n) id = (matrasTouch m id).map fun r =>
      (r.1, r.2.setBlockCount n) := by
  have hid' : id < (m.setBlockCount n).head.blockCount := hn
  have hneeds : matrasNeedsTouch (m.setBlockCount n) id = matrasNeedsTouch m id := rfl
  have hroot : (m.setBlockCount n).prevRoot = m.prevRoot := rfl
  unfold matrasTouch
  simp only [guard, hid, hid', if_true, Option.pure_def, Option.bind_eq_bind, Option.bind_some,
    hneeds, hroot]
  split
  · rw [matrasTouchNoCheck_setBlockCount, Option.map_some]
  · rfl

/-! ## `matras_dealloc` and `matras_dealloc_range` -/

/-- What `matras_dealloc` and `matras_dealloc_range` do when the blocks from `id` on go. -/
def deallocTo (m : Matras) (id : Nat) : Option Matras := do
  let (_, m) ← matrasTouch m id
  deallocExtents (m.setBlockCount id) id

theorem matrasDealloc_setBlockCount (hid : id < m.head.blockCount) (h32 : id < 2 ^ 32) :
    matrasDealloc (m.setBlockCount (id + 1)) = deallocTo m id := by
  have hne : (m.setBlockCount (id + 1)).head.blockCount ≠ 0 := Nat.succ_ne_zero id
  have hsub : ((m.setBlockCount (id + 1)).head.blockCount - 1) % 2 ^ 32 = id := Nat.mod_eq_of_lt h32
  unfold matrasDealloc deallocTo
  simp only [guard, hne, ne_eq, not_false_eq_true, if_true, Option.pure_def, Option.bind_eq_bind,
    Option.bind_some, hsub, matrasTouch_setBlockCount hid (Nat.lt_succ_self id)]
  cases matrasTouch m id <;> rfl

theorem matrasDealloc_eq (hi : m.Inv rs) (hpos : 0 < m.head.blockCount) :
    matrasDealloc m = deallocTo m (m.head.blockCount - 1) := by
  have hle := Nat.le_trans (hi.bound m.head m.head_mem) hi.config.capacity_le_two_pow
  rw [← matrasDealloc_setBlockCount (by omega) (by omega), Nat.sub_add_cancel hpos]
  rfl

theorem matrasDeallocRange_eq {r : Nat} (hi : m.Inv rs) (hr : m.RangeOk r)
    (hle : r ≤ m.head.blockCount) :
    matrasDeallocRange m r = deallocTo m (m.head.blockCount - r) := by
  have hcap := Nat.le_trans (hi.bound m.head m.head_mem) hi.config.capacity_le_two_pow
  have hpos : 0 < r := Nat.pos_of_ne_zero hr.pos
  unfold matrasDeallocRange
  simp only [guard, hr.pos, hr.count, hr.extent, if_true, ne_eq, not_false_eq_true,
    Option.pure_def, Option.bind_eq_bind, Option.bind_some]
  rw [← matrasDealloc_setBlockCount (by omega) (by omega),
    show m.head.blockCount - (r - 1) = m.head.blockCount - r + 1 by omega]

/-- The blocks from `id` on lie in one extent. -/
theorem Matras.RangeOk.extent_le {r : Nat} (hr : m.RangeOk r) (hc : m.config.Ok)
    (hle : r ≤ m.head.blockCount) :
    m.head.blockCount ≤ (m.config.extentOf (m.head.blockCount - r) + 1) * m.config.perExtent := by
  have hmod : (m.head.blockCount - r) % r = 0 := by
    rw [← Nat.mod_eq_sub_mod hle]
    exact hr.count
  have h := m.config.range_le hmod (hr.perExtent hc)
  omega

/-- The last blocks, when the touch succeeds. -/
theorem deallocTo_spec (hi : m.Inv rs) (hid : id < m.head.blockCount)
    (hle : m.head.blockCount ≤ (m.config.extentOf id + 1) * m.config.perExtent)
    (hav : m.copies id ≤ m.allocator.avail) :
    ∃ m₁ rs₁ m', matrasTouch m id = some (some (matrasGet m₁ id), m₁) ∧ m.Copied rs m₁ rs₁ ∧
      m.allocator.Draws (m.copies id) m₁.allocator ∧ deallocTo m id = some m' ∧
      m₁.Shrunk rs₁ id m' := by
  rcases matrasTouch_spec hi hid with ⟨m₁, rs₁, -, -, hst⟩ | ⟨m₁, rs₁, heq, hcp, hiso, hdraws, -, -⟩
  · have hlt := hst.avail
    omega
  · obtain ⟨m', heq', hsh⟩ := deallocExtents_spec hcp.inv hiso (hcp.count.symm ▸ hid)
      (by rw [hcp.count, hcp.config]; exact hle)
    exact ⟨m₁, rs₁, m', heq, hcp, hdraws, by rw [deallocTo, heq]; exact heq', hsh⟩

end SmallAllocators
