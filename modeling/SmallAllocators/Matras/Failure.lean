/-
SmallAllocators.Matras.Failure — failures of the extent allocator.

A failed `matras_alloc` leaves nothing behind, and a failed `matras_touch`
leaves copies that no reader can tell from the originals. `matras_dealloc`
ignores the result of its touch: when that fails, it may free extents which
a view still has.
-/
import SmallAllocators.Matras.Runs

namespace SmallAllocators

variable {m m' m₁ : Matras} {rs rs' : List Nat} {v : MatrasView} {p : ExtentPos} {id x n : Nat}
    {supply : List (Option Nat)}
  {blockSize extentSize : Nat}

namespace Matras

/-- The byte of a block of a view. -/
def content (m : Matras) (v : MatrasView) (id offset : Nat) : UInt8 :=
  m.bytes (matrasViewGetNoCheck m v id).extent ((matrasViewGetNoCheck m v id).offset + offset)

/-- The extents that are allocated and not reserved. -/
def InUse (m : Matras) (x : Nat) : Prop := x ∈ m.allocator.allocated ∧ x ∉ m.reserved

theorem Inv.inUse_iff (hi : m.Inv rs) : m.InUse x ↔ m.Owns rs x := by
  rw [InUse, hi.reserved_eq, Owns]

theorem content_eq (hc : m.config.Ok) (v : MatrasView) (id offset : Nat) :
    m.content v id offset = m.bytes (m.addr v (.leaf (m.config.extentOf id)))
      (id % m.config.perExtent * m.config.blockSize + offset) := by
  rw [content, matrasViewGetNoCheck_eq hc]

/-- Nothing that can be observed is different. -/
structure Unchanged (m m' : Matras) : Prop where
  count : m'.head.blockCount = m.head.blockCount
  extentCount : m'.extentCount = m.extentCount
  stats : m'.stats = m.stats
  views : m'.views = m.views
  bytes : m'.bytes = m.bytes
  head : ∀ id < m.head.blockCount, matrasGet m' id = matrasGet m id
  view : ∀ v ∈ m.views, ∀ id < v.blockCount, matrasViewGetNoCheck m' v id =
    matrasViewGetNoCheck m v id
  inUse : ∀ x, m'.InUse x ↔ m.InUse x
  /-- No extent was taken for good. -/
  allocated : ∀ x ∈ m'.allocator.allocated, x ∈ m.allocator.allocated

/-- The blocks have the same contents, and no extent is lost. -/
structure ContentsKept (m m' : Matras) : Prop where
  count : m'.head.blockCount = m.head.blockCount
  views : m'.views = m.views
  head : ∀ id < m.head.blockCount, ∀ k, m'.content m'.head id k = m.content m.head id k
  view : ∀ v ∈ m.views, ∀ id < v.blockCount, ∀ k, m'.content v id k = m.content v id k
  /-- What was reachable is reachable, and an extent that was taken is reachable. -/
  reached : ∀ x, m.Reached x → m'.Reached x
  taken : ∀ x, m'.InUse x → m.InUse x ∨ m'.Reached x

/-- No view has the extent of the block. -/
def Private (m : Matras) (id : Nat) : Prop :=
  ∀ v ∈ m.views, ∀ i < v.blockCount, (matrasViewGetNoCheck m v i).extent ≠ (matrasGet m id).extent

end Matras

theorem Matras.Grown.unchanged (h : m.Grown rs [] m' rs') (hi : m.Inv rs) : m.Unchanged m' := by
  have hc := h.blocks.config
  have hc' := hi.config
  have howns : ∀ x, m'.Owns rs' x ↔ m.Owns rs x := fun x => by simp [h.owns]
  constructor
  case count => exact h.blocks.count
  case extentCount => simpa using h.counts.extents
  case stats =>
    have h1 := h.counts.total
    have h2 := h.counts.views
    rw [List.length_nil, Int.natCast_zero, Int.cast_zero, add_zero] at h1
    rw [Int.cast_zero, add_zero] at h2
    cases hm : m'.stats
    cases hm₀ : m.stats
    rw [hm, hm₀] at h1 h2
    exact congrArg₂ _ h1 h2
  case views => exact h.blocks.views
  case bytes => exact h.blocks.bytes
  case head =>
    intro id hid
    rw [matrasGet, matrasGet, matrasViewGetNoCheck_eq h.inv.config, matrasViewGetNoCheck_eq hc',
      hc, h.blocks.head _ (.of_lt hid)]
  case view =>
    intro v hv id hid
    rw [matrasViewGetNoCheck_eq h.inv.config, matrasViewGetNoCheck_eq hc', hc,
      h.blocks.kept v hv _ (.of_lt hid)]
  case inUse =>
    intro x
    rw [h.inv.inUse_iff, hi.inUse_iff, howns]
  case allocated =>
    intro x hx
    by_cases hr : x ∈ rs'
    · exact hi.alloc.reserved x (h.reserved.subset hr)
    · exact ((howns x).1 ⟨hx, hr⟩).1

theorem Matras.Copied.contentsKept (h : m.Copied rs m' rs') (hi : m.Inv rs) :
    m.ContentsKept m' := by
  constructor
  case count => exact h.count
  case views => exact h.views
  case head =>
    intro id hid k
    rw [Matras.content_eq h.inv.config, Matras.content_eq hi.config, h.config,
      h.headBytes _ (.of_lt hid)]
  case view =>
    intro v hv id hid k
    have hcov : m.Covers v (.leaf (m.config.extentOf id)) := .of_lt hid
    rw [Matras.content_eq h.inv.config, Matras.content_eq hi.config, h.config, h.kept v hv _ hcov,
      h.bytes _ (hi.owned v (Matras.view_mem hv) _ hcov)]
  case reached => exact h.reached
  case taken =>
    intro x hx
    rw [h.inv.inUse_iff] at hx
    rw [hi.inUse_iff]
    exact h.new x hx

theorem Matras.Isolated.private (h : m.Isolated id) (hi : m.Inv rs)
    (hid : id < m.head.blockCount) : m.Private id := by
  intro v hv i hlt he
  rw [matrasGet, matrasViewGetNoCheck_eq hi.config, matrasViewGetNoCheck_eq hi.config] at he
  have hcov : m.Covers v (.leaf (m.config.extentOf i)) := .of_lt hlt
  have hcovh : m.Covers m.head (.leaf (m.config.extentOf id)) := .of_lt hid
  have hpos := hi.inj (Matras.view_mem hv) m.head_mem hcov hcovh he
  have hext : m.config.extentOf i = m.config.extentOf id := by
    rwa [ExtentPos.leaf.injEq] at hpos
  rw [hext] at hcov he
  have hless := h v hv (.leaf (m.config.extentOf id)) rfl hcovh hcov he.symm i hext hlt
  have hle : m.config.extentOf i * m.config.perExtent ≤ i := Nat.div_mul_le_self _ _
  rw [hext] at hle
  omega

theorem Matras.Unchanged.of_withSupply (h : (m.withSupply supply).Unchanged m') : m.Unchanged m' :=
  ⟨h.count, h.extentCount, h.stats, h.views, h.bytes, h.head, h.view, h.inUse, h.allocated⟩

theorem Matras.ContentsKept.of_withSupply (h : (m.withSupply supply).ContentsKept m') :
    m.ContentsKept m' :=
  ⟨h.count, h.views, h.head, h.view, h.reached, h.taken⟩

/-- The runs that go on from a state. -/
def matrasAfter (m : Matras) : Machine Matras MatrasOp where
  init := fun m' => m' = m
  allowed := MatrasOp.Allowed
  exec := MatrasOp.exec

theorem matrasAfter_good (hg : m.Good rs) (hs : (matrasAfter m).Reachable m') :
    ∃ rs', m'.Good rs' := by
  refine Machine.Reachable.of_step (P := fun m => ∃ rs, m.Good rs) _ (fun m hm => ?_)
    (fun m op m' hP hal hex => ?_) hs
  · obtain rfl : m = _ := hm
    exact ⟨rs, hg⟩
  · obtain ⟨rs, hg⟩ := hP
    obtain ⟨supply, rs', hfresh, h⟩ := matrasStep_effect hg hal hex
    exact ⟨rs', h.good (Matras.withSupply_good hg hfresh)⟩

/-- A successful touch. -/
theorem matrasTouch_isolates {ptr : BlockPtr} (hi : m.Inv rs) (hid : id < m.head.blockCount)
    (heq : matrasTouch m id = some (some ptr, m')) :
    ptr = matrasGet m' id ∧ m'.Private id ∧ m.ContentsKept m' := by
  rcases matrasTouch_spec hi hid with ⟨m₁, rs₁, heq₁, -⟩ | ⟨m₁, rs₁, heq₁, hcp, hiso, -⟩
  · rw [heq₁] at heq
    cases heq
  · rw [heq₁] at heq
    cases heq
    exact ⟨rfl, hiso.private hcp.inv (hcp.count.symm ▸ hid), hcp.contentsKept hi⟩

/-- **Failed allocations and touches change nothing that can be observed**, and a touch that
succeeds later isolates the views. -/
theorem matras_failures_invisible (hs : (matrasMachine blockSize extentSize).Reachable m)
    (hfresh : m.FreshSupply supply) :
    (∀ m', matrasAlloc (m.withSupply supply) = some (none, m') → m.Unchanged m') ∧
    (∀ r m', m.RangeOk r → matrasAllocRange (m.withSupply supply) r = some (none, m') →
      m.Unchanged m') ∧
    ∀ id m', id < m.head.blockCount → matrasTouch (m.withSupply supply) id = some (none, m') →
      m.ContentsKept m' ∧
      ∀ m₂ supply₂ ptr m₃, (matrasAfter m').Reachable m₂ → m₂.FreshSupply supply₂ →
      id < m₂.head.blockCount →
        matrasTouch (m₂.withSupply supply₂) id = some (some ptr, m₃) →
          ptr = matrasGet m₃ id ∧ m₃.Private id ∧ m₂.ContentsKept m₃ := by
  obtain ⟨rs, hg⟩ := matrasReachable_good hs
  have hi := Matras.withSupply_inv hg.inv hfresh
  refine ⟨fun m' heq => ?_, fun r m' hr heq => ?_, fun id m' hid heq =>
    ⟨?_, fun m₂ supply₂ ptr m₃ hrun hfresh₂ hid₂ heq₂ => ?_⟩⟩
  · rcases matrasAlloc_spec hi with ⟨m₁, rs₁, heq₁, h, -⟩ | ⟨m₁, rs₁, heq₁, -⟩
    · rw [heq₁] at heq
      cases heq
      exact (h.unchanged hi).of_withSupply
    · rw [heq₁] at heq
      cases heq
  · have hr' : (m.withSupply supply).RangeOk r := ⟨hr.pos, hr.count, hr.extent⟩
    rcases matrasAllocRange_spec hi hr' with ⟨m₁, rs₁, heq₁, h, -⟩ | ⟨m₁, rs₁, heq₁, -⟩
    · rw [heq₁] at heq
      cases heq
      exact (h.unchanged hi).of_withSupply
    · rw [heq₁] at heq
      cases heq
  · rcases matrasTouch_spec hi hid with ⟨m₁, rs₁, heq₁, -, h⟩ | ⟨m₁, rs₁, heq₁, -⟩
    · rw [heq₁] at heq
      cases heq
      exact (h.copied.contentsKept hi).of_withSupply
    · rw [heq₁] at heq
      cases heq
  · have hreach : ∃ rs', m'.Good rs' := by
      have hex : (MatrasOp.touch supply id).exec m = some m' := by
        rw [MatrasOp.exec, heq]
        rfl
      have hal : (MatrasOp.touch supply id).Allowed m := ⟨hfresh, hid⟩
      obtain ⟨supply', rs', hfresh', h⟩ := matrasStep_effect hg hal hex
      exact ⟨rs', h.good (Matras.withSupply_good hg hfresh')⟩
    obtain ⟨rs', hg'⟩ := hreach
    obtain ⟨rs₂, hg₂⟩ := matrasAfter_good hg' hrun
    obtain ⟨hptr, hpriv, hkept⟩ :=
      matrasTouch_isolates (Matras.withSupply_inv hg₂.inv hfresh₂) hid₂ heq₂
    exact ⟨hptr, hpriv, hkept.of_withSupply⟩

/-- A touch that copies the root and then gets no extent. -/
theorem matras_failures_invisible_root :
    ∃ m m', matrasRun 8 16 [.alloc [some 1, some 2, some 3], .createReadView 1] = some m ∧
    matrasTouch (m.withSupply [some 4, none]) 0 = some (none, m') ∧ m'.head.root = 4 ∧
    m.ContentsKept m' := by
  have hrun : (matrasRun 8 16 [.alloc [some 1, some 2, some 3], .createReadView 1]).map (fun m =>
      (decide (m.FreshSupply [some 4, none]), m.head.blockCount,
        (matrasTouch (m.withSupply [some 4, none]) 0).map fun r => (r.1, r.2.head.root))) =
      some (true, 1, some (none, 4)) := by decide +kernel
  obtain ⟨m, heq, hval⟩ := Option.map_eq_some_iff.1 hrun
  rw [Prod.mk.injEq, Prod.mk.injEq, decide_eq_true_eq] at hval
  obtain ⟨hfresh, hcount, htouch⟩ := hval
  obtain ⟨⟨res, m'⟩, heq', hval'⟩ := Option.map_eq_some_iff.1 htouch
  rw [Prod.mk.injEq] at hval'
  obtain ⟨rfl, hroot⟩ := hval'
  have hkept := ((matras_failures_invisible (matrasRun_reachable heq) hfresh).2.2 0 m'
      (by rw [hcount]; decide) heq').1
  exact ⟨m, m', heq, heq', hroot, hkept⟩

/-! ## The touch inside `matras_dealloc` -/

namespace Matras

/-- The extents that `matras_view_get` reads. -/
def path (m : Matras) (v : MatrasView) (id : Nat) : List Nat :=
  [v.root, m.slots v.root (m.config.n1 id), (matrasViewGetNoCheck m v id).extent]

/-- The views can read their blocks, and find what was there. -/
def ViewsKept (m m' : Matras) : Prop :=
  ∀ v ∈ m.views, ∀ id < v.blockCount, (∀ x ∈ m'.path v id, x ∈ m'.allocator.allocated) ∧
    ∀ k < m.config.blockSize, m'.content v id k = m.content v id k

/-- The block is the first one of its extent, the newest view has the extent, and the extents
for a touch cannot be had. -/
def Endangers (m : Matras) (id : Nat) : Prop :=
  id % m.config.perExtent = 0 ∧ matrasNeedsTouch m id = true ∧ m.allocator.avail < m.copies id

theorem mem_path (hc : m.config.Ok) :
    x ∈ m.path v id ↔ ∃ p, m.config.onPath id p ∧ m.addr v p = x := by
  rw [path, matrasViewGetNoCheck_eq hc, hc.n1_eq]
  constructor
  · intro hx
    simp only [List.mem_cons, List.not_mem_nil, or_false] at hx
    rcases hx with rfl | rfl | rfl
    · exact ⟨.root, trivial, rfl⟩
    · exact ⟨.mid _, rfl, rfl⟩
    · exact ⟨.leaf _, rfl, rfl⟩
  · rintro ⟨p, hp, rfl⟩
    cases p with
    | root => exact List.mem_cons_self
    | mid i =>
        cases hp
        exact List.mem_cons_of_mem _ List.mem_cons_self
    | leaf e =>
        cases hp
        exact List.mem_cons_of_mem _ (List.mem_cons_of_mem _ List.mem_cons_self)

end Matras

/-- The views after copies for the head, and changes that leave the memory as it is. -/
theorem Matras.Copied.viewsKept (h : m.Copied rs m₁ rs') (hi : m.Inv rs)
    (hc : m'.config = m₁.config) (hslots : m'.slots = m₁.slots) (hbytes : m'.bytes = m₁.bytes)
    (hown : ∀ v ∈ m.views, ∀ p, m.Covers v p → m.addr v p ∈ m'.allocator.allocated) :
    m.ViewsKept m' := by
  have hc' : m'.config.Ok := by
    rw [hc]
    exact h.inv.config
  have haddr : ∀ v p, m'.addr v p = m₁.addr v p := by
    intro v p
    cases p <;> simp only [Matras.addr, hslots, hc]
  intro v hv id hid
  refine ⟨fun x hx => ?_, fun k _ => ?_⟩
  · obtain ⟨p, hp, rfl⟩ := (Matras.mem_path hc').1 hx
    rw [hc, h.config] at hp
    have hcov : m.Covers v p := .of_path hp hid
    rw [haddr, h.kept v hv p hcov]
    exact hown v hv p hcov
  · rw [← (h.contentsKept hi).view v hv id hid k, Matras.content_eq hc',
      Matras.content_eq h.inv.config, haddr, hbytes, hc]

/-- Below an extent that a touch has to copy the extents are shared. -/
theorem leaf_eq_of_rootCopies {e : Nat} (h : 0 < m.rootCopies v e) :
    m.addr m.head (.leaf e) = m.addr v (.leaf e) := by
  unfold Matras.rootCopies Matras.midCopies Matras.leafCopies at h
  split at h
  · next heq => exact leaf_eq_of_mid (mid_eq_of_root heq)
  · split at h
    · next heq => exact leaf_eq_of_mid heq
    · split at h
      · next heq => exact heq
      · cases h

theorem matrasFreeExtent_allocated {y : Nat} (h : matrasFreeExtent m y = some m') :
    m'.allocator.allocated = m.allocator.allocated.erase y ∧ m'.slots = m.slots ∧
      m'.config = m.config := by
  unfold matrasFreeExtent matrasAllocatorFree at h
  simp only [guard, Option.pure_def, Option.bind_eq_bind] at h
  split at h
  · simp only [Option.bind_some, Option.some.injEq] at h
    subst h
    rw [Matras.addExtents_allocator, Matras.addExtents_slots, Matras.addExtents_config]
    exact ⟨rfl, rfl, rfl⟩
  · cases h

theorem freeIf_allocated {free : Bool} {y : Nat} (h : freeIf m free y = some m') :
    (∀ x ∈ m'.allocator.allocated, x ∈ m.allocator.allocated) ∧
      (free = true → m.allocator.allocated.Nodup → y ∉ m'.allocator.allocated) ∧
      m'.slots = m.slots ∧ m'.config = m.config := by
  unfold freeIf at h
  split at h
  · obtain ⟨hal, hs, hc⟩ := matrasFreeExtent_allocated h
    rw [hal]
    exact ⟨fun x hx => List.mem_of_mem_erase hx, fun _ hn hx =>
      (hn.mem_erase_iff.1 hx).1 rfl, hs, hc⟩
  · next hfree =>
      rw [Option.some.injEq] at h
      subst h
      exact ⟨fun x hx => hx, fun hf => absurd hf hfree, rfl, rfl⟩

/-- `matras_dealloc` frees the extent of the block, whoever has it. -/
theorem deallocExtents_allocated (hc : m.config.Ok) (hn : m.allocator.allocated.Nodup)
    (hid : id % m.config.perExtent = 0) (h : deallocExtents m id = some m') :
    m.addr m.head (.leaf (m.config.extentOf id)) ∉ m'.allocator.allocated ∧ m'.slots = m.slots ∧
      m'.config = m.config := by
  rw [deallocExtents_eq hc, Option.bind_eq_bind, Option.bind_eq_some_iff] at h
  obtain ⟨m₁, h₁, h⟩ := h
  rw [Option.bind_eq_some_iff] at h
  obtain ⟨m₂, h₂, h₃⟩ := h
  obtain ⟨-, hnot, hs₁, hc₁⟩ := freeIf_allocated h₁
  obtain ⟨hsub₂, -, hs₂, hc₂⟩ := freeIf_allocated h₂
  obtain ⟨hsub₃, -, hs₃, hc₃⟩ := freeIf_allocated h₃
  refine ⟨fun hx => hnot ?_ hn (hsub₂ _ (hsub₃ _ hx)), hs₃.trans (hs₂.trans hs₁),
    hc₃.trans (hc₂.trans hc₁)⟩
  rw [decide_eq_true_iff, hc.and_masks]
  exact hid

/-- The touch succeeds. -/
theorem deallocTo_viewsKept (hi : m.Inv rs) (hid : id < m.head.blockCount)
    (hle : m.head.blockCount ≤ (m.config.extentOf id + 1) * m.config.perExtent)
    (hav : m.copies id ≤ m.allocator.avail) :
    ∃ m', deallocTo m id = some m' ∧ m.ViewsKept m' := by
  obtain ⟨m₁, rs₁, m', -, hcp, -, heq, hsh⟩ := deallocTo_spec hi hid hle hav
  refine ⟨m', heq, hcp.viewsKept hi hsh.config hsh.slots hsh.bytes fun v hv p hp => ?_⟩
  have hown := hsh.inv.owned v (Matras.view_mem (by rw [hsh.views, hcp.views]; exact hv)) p
    (by rw [Matras.Covers, hsh.config, hcp.config]; exact hp)
  have haddr : m'.addr v p = m.addr v p := by
    rw [← hcp.kept v hv p hp]
    cases p <;> simp only [Matras.addr, hsh.slots, hsh.config]
  exact haddr ▸ hown.1

/-- The touch fails, and the extent of the block, which is not a copy, goes. -/
theorem Matras.Starved.not_viewsKept (hi : m.Inv rs) (hneeds : matrasNeedsTouch m id = true)
    (hmod : id % m.config.perExtent = 0)
    (hst : m.Starved rs (.leaf (m.config.extentOf id)) (m.copies id) m₁ rs')
    (heq : deallocExtents (m₁.setBlockCount id) id = some m') : ¬ m.ViewsKept m' := by
  intro hkept
  have hcp := hst.copied
  have hok : (m₁.setBlockCount id).config.Ok := hcp.inv.config
  have hconf : (m₁.setBlockCount id).config = m.config := hcp.config
  obtain ⟨prev, views, hviews, hcov⟩ := (matrasNeedsTouch_iff hi).1 hneeds
  have hprev : prev ∈ m.views := by rw [hviews]; exact List.mem_cons_self
  obtain ⟨hnot, hslots, hc'⟩ :=
    deallocExtents_allocated hok hcp.inv.alloc.nodup (by rw [hconf]; exact hmod) heq
  have hshared : m.addr m.head (.leaf (m.config.extentOf id)) =
      m.addr prev (.leaf (m.config.extentOf id)) := by
    have hpos : 0 < m.copies id := Nat.lt_of_le_of_lt (Nat.zero_le _) hst.avail
    rw [Matras.copies, hviews] at hpos
    simp only [hneeds, if_true] at hpos
    exact leaf_eq_of_rootCopies hpos
  have hlt : id < prev.blockCount := by
    have hfirst : m.config.extentOf id * m.config.perExtent = id :=
      Nat.div_mul_cancel (Nat.dvd_of_mod_eq_zero hmod)
    have hcov' : m.config.extentOf id * m.config.perExtent < prev.blockCount := hcov
    rwa [hfirst] at hcov'
  have hmem := (hkept prev hprev id hlt).1 (m'.addr prev (.leaf (m.config.extentOf id)))
    ((Matras.mem_path (by rw [hc']; exact hok)).2 ⟨_, by rw [hc', hconf]; rfl, rfl⟩)
  have haddr : m'.addr prev (.leaf (m.config.extentOf id)) =
      (m₁.setBlockCount id).addr (m₁.setBlockCount id).head (.leaf (m.config.extentOf id)) := by
    rw [Matras.addr_setBlockCount, hst.kept, hshared, ← hcp.kept prev hprev _ hcov]
    simp only [Matras.addr, hslots, hc']
    rfl
  rw [haddr] at hmem
  rw [hconf] at hnot
  exact hnot hmem

/-- When the blocks from `id` on go, the views keep theirs exactly if the touch cannot fail
where it matters. -/
theorem deallocTo_viewsKept_iff (hi : m.Inv rs) (hid : id < m.head.blockCount)
    (hle : m.head.blockCount ≤ (m.config.extentOf id + 1) * m.config.perExtent) :
    (∃ m', deallocTo m id = some m' ∧ m.ViewsKept m') ↔ ¬ m.Endangers id := by
  by_cases hav : m.copies id ≤ m.allocator.avail
  · exact ⟨fun _ hd => absurd hd.2.2 (Nat.not_lt_of_le hav), fun _ =>
      deallocTo_viewsKept hi hid hle hav⟩
  · rcases matrasTouch_spec hi hid with ⟨m₁, rs₁, heq, hneeds, hst⟩
      | ⟨m₁, rs₁, -, -, -, hdraws, -, -⟩
    · have hcp := hst.copied
      have hunfold : deallocTo m id = deallocExtents (m₁.setBlockCount id) id := by
        rw [deallocTo, heq]; rfl
      rw [hunfold]
      by_cases hmod : id % m.config.perExtent = 0
      · refine ⟨?_, fun hd => absurd ⟨hmod, hneeds, Nat.lt_of_not_le hav⟩ hd⟩
        rintro ⟨m', heq', hkept⟩
        exact absurd hkept (hst.not_viewsKept hi hneeds hmod heq')
      · refine ⟨fun _ hd => hmod hd.1, fun _ => ?_⟩
        have hok : (m₁.setBlockCount id).config.Ok := hcp.inv.config
        have hmod' : id % (m₁.setBlockCount id).config.perExtent ≠ 0 := by
          rw [show (m₁.setBlockCount id).config = m.config from hcp.config]
          exact hmod
        refine ⟨_, deallocExtents_of_ne hok hmod', hcp.viewsKept hi rfl rfl rfl fun v hv p hp => ?_⟩
        exact (hcp.owns _ (hi.owned v (Matras.view_mem hv) p hp)).1
    · have := hdraws.avail
      omega

/-- **`matras_dealloc` frees no extent of a view** exactly if its touch cannot fail where the
extent of the block goes. -/
theorem matras_dealloc_safe_iff (hs : (matrasMachine blockSize extentSize).Reachable m)
    (hfresh : m.FreshSupply supply) :
    (0 < m.head.blockCount →
        ((∃ m', matrasDealloc (m.withSupply supply) = some m' ∧ m.ViewsKept m') ↔
      ¬ (m.withSupply supply).Endangers (m.head.blockCount - 1))) ∧
    ∀ r, m.RangeOk r → r ≤ m.head.blockCount →
      ((∃ m', matrasDeallocRange (m.withSupply supply) r = some m' ∧ m.ViewsKept m') ↔
        ¬ (m.withSupply supply).Endangers (m.head.blockCount - r)) := by
  obtain ⟨rs, hg⟩ := matrasReachable_good hs
  have hi := Matras.withSupply_inv hg.inv hfresh
  refine ⟨fun hpos => ?_, fun r hr hle => ?_⟩
  · rw [matrasDealloc_eq hi hpos]
    exact deallocTo_viewsKept_iff hi (Nat.sub_lt hpos Nat.zero_lt_one) (m.config.le_extent_end _)
  · have hr' : (m.withSupply supply).RangeOk r := ⟨hr.pos, hr.count, hr.extent⟩
    have hpos := Nat.pos_of_ne_zero hr.pos
    rw [matrasDeallocRange_eq hi hr' hle]
    exact deallocTo_viewsKept_iff hi (Nat.sub_lt (Nat.lt_of_lt_of_le hpos hle) hpos)
      (hr'.extent_le hi.config hle)

instance (m : Matras) (id : Nat) : Decidable (m.Endangers id) :=
  inferInstanceAs (Decidable (_ ∧ _ ∧ _))

/-- One block, and a view of it. -/
def viewedBlock : Option Matras :=
  matrasRun 8 16 [.alloc [some 1, some 2, some 3], .createReadView 1]

theorem viewedBlock_eq : ∃ m, viewedBlock = some m ∧ m.head.blockCount = 1 ∧ m.FreshSupply [] ∧
    m.FreshSupply [some 4, some 5, some 6] ∧
    (m.withSupply []).Endangers 0 ∧ ¬ (m.withSupply [some 4, some 5, some 6]).Endangers 0 := by
  have hrun : viewedBlock.map (fun m => (m.head.blockCount, decide (m.FreshSupply []),
      decide (m.FreshSupply [some 4, some 5, some 6]),
      decide ((m.withSupply []).Endangers 0),
      decide ((m.withSupply [some 4, some 5, some 6]).Endangers 0))) =
      some (1, true, true, true, false) := by decide +kernel
  obtain ⟨m, heq, hval⟩ := Option.map_eq_some_iff.1 hrun
  simp only [Prod.mk.injEq, decide_eq_true_eq, decide_eq_false_iff_not] at hval
  exact ⟨m, heq, hval⟩

/-- The block goes, with enough extents for the touch. -/
theorem matras_dealloc_safe_touched : ∃ m m', viewedBlock = some m ∧
    matrasDealloc (m.withSupply [some 4, some 5, some 6]) = some m' ∧
    m.ViewsKept m' := by
  obtain ⟨m, heq, hcount, -, hfresh, -, hsafe⟩ := viewedBlock_eq
  obtain ⟨m', heq', hkept⟩ :=
    ((matras_dealloc_safe_iff (matrasRun_reachable heq) hfresh).1 (by rw [hcount]; decide)).2
    (by rw [hcount]; exact hsafe)
  exact ⟨m, m', heq, heq', hkept⟩

/-- The block goes, and there is no extent for the touch: the extents of the view are freed. -/
theorem matras_dealloc_frees_view :
    ∃ m, viewedBlock = some m ∧ (matrasMachine 8 16).Reachable m ∧ m.FreshSupply [] ∧
    0 < m.head.blockCount ∧ ¬ ∃ m', matrasDealloc (m.withSupply []) = some m' ∧ m.ViewsKept m' := by
  obtain ⟨m, heq, hcount, hfresh, -, hbad, -⟩ := viewedBlock_eq
  have hreach := matrasRun_reachable heq
  obtain ⟨rs, hg⟩ := matrasReachable_good hreach
  have hi := Matras.withSupply_inv hg.inv hfresh
  have hpos : 0 < m.head.blockCount := by rw [hcount]; decide
  have hcount' : (m.withSupply []).head.blockCount = 1 := hcount
  refine ⟨m, heq, hreach, hfresh, hpos, ?_⟩
  rw [matrasDealloc_eq hi hpos, hcount']
  exact fun h => (deallocTo_viewsKept_iff hi hpos (by
    rw [hcount']
    exact Nat.mul_pos (Nat.succ_pos _) (m.withSupply []).config.perExtent_pos)).1 h hbad

end SmallAllocators
