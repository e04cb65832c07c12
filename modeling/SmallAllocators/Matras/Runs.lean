/-
SmallAllocators.Matras.Runs — runs of a matras and its statistics.

A run of `matrasMachine` makes any calls, in any order. Each call that may
allocate gets its own answers of `alloc_func` (`supply`): fresh extents or
`NULL`. The touch inside `matras_dealloc` does not fail in these runs; what
happens when it does is the subject of `Matras.Failure`. The client writes
to blocks, and memory that is not allocated may change at any time.

`Effect` says once what a step can do. The invariant and the statistics of
`matras_statistics_match` follow from it by cases.
-/
import SmallAllocators.Lib.Runs
import SmallAllocators.Matras.Reserve
import SmallAllocators.Matras.Views

namespace SmallAllocators

variable {m m' : Matras} {rs rs' : List Nat} {v : MatrasView} {p : ExtentPos} {id x n key : Nat}
    {supply : List (Option Nat)}
  {blockSize extentSize : Nat}

/-! ## The machine -/

inductive MatrasOp where
  | alloc (supply : List (Option Nat))
  | allocRange (supply : List (Option Nat)) (rangeCount : Nat)
  | dealloc (supply : List (Option Nat))
  | deallocRange (supply : List (Option Nat)) (rangeCount : Nat)
  | touch (supply : List (Option Nat)) (id : Nat)
  | touchReserve (supply : List (Option Nat)) (count : Nat)
  | createReadView (key : Nat)
  | destroyReadView (key : Nat)
  /-- The client writes a byte of a block. -/
  | write (id offset : Nat) (byte : UInt8)
  /-- Memory that is not allocated changes. -/
  | memory (slots : Nat → Nat → Nat) (bytes : Nat → Nat → UInt8)

namespace Matras

/-- The next answers of `alloc_func`. -/
def withSupply (m : Matras) (supply : List (Option Nat)) : Matras :=
  m.setAllocator { m.allocator with supply := supply }

/-- What `alloc_func` may answer: extents that are not allocated, and none twice. -/
structure FreshSupply (m : Matras) (supply : List (Option Nat)) : Prop where
  fresh : ∀ x, some x ∈ supply → x ∉ m.allocator.allocated
  distinct : supply.Pairwise fun x y => x ≠ none → x ≠ y

/-- A touch of the block succeeds. -/
def TouchSucceeds (m : Matras) (id : Nat) : Prop := ∃ ptr m', matrasTouch m id = some (some ptr, m')

/-- `ptr[offset] = byte`. -/
def writeByte (m : Matras) (ptr : BlockPtr) (offset : Nat) (byte : UInt8) : Matras :=
  { m with
    bytes := fun x j =>
      if x = ptr.extent ∧ j = ptr.offset + offset then byte else m.bytes x j }

/-- Memory that is not allocated is different. -/
structure MemoryOk (m : Matras) (slots : Nat → Nat → Nat) (bytes : Nat → Nat → UInt8) : Prop where
  slots : ∀ x ∈ m.allocator.allocated, slots x = m.slots x
  bytes : ∀ x ∈ m.allocator.allocated, bytes x = m.bytes x

end Matras

def MatrasOp.Allowed (m : Matras) : MatrasOp → Prop
  | .alloc supply => m.FreshSupply supply
  | .allocRange supply rangeCount => m.FreshSupply supply ∧ m.RangeOk rangeCount
  | .dealloc supply => m.FreshSupply supply ∧ 0 < m.head.blockCount ∧
      (m.withSupply supply).TouchSucceeds (m.head.blockCount - 1)
  | .deallocRange supply rangeCount =>
      m.FreshSupply supply ∧ m.RangeOk rangeCount ∧ rangeCount ≤ m.head.blockCount ∧
        (m.withSupply supply).TouchSucceeds (m.head.blockCount - rangeCount)
  | .touch supply id => m.FreshSupply supply ∧ id < m.head.blockCount
  | .touchReserve supply count => m.FreshSupply supply ∧ 2 * count + 1 ≤ intMax
  | .createReadView key => ∀ v ∈ m.views, v.key ≠ key
  | .destroyReadView _ => True
  | .write id offset _ => id < m.head.blockCount ∧ offset < m.config.blockSize
  | .memory slots bytes => m.MemoryOk slots bytes

def MatrasOp.exec (m : Matras) : MatrasOp → Option Matras
  | .alloc supply => Prod.snd <$> matrasAlloc (m.withSupply supply)
  | .allocRange supply rangeCount => Prod.snd <$> matrasAllocRange (m.withSupply supply) rangeCount
  | .dealloc supply => matrasDealloc (m.withSupply supply)
  | .deallocRange supply rangeCount => matrasDeallocRange (m.withSupply supply) rangeCount
  | .touch supply id => Prod.snd <$> matrasTouch (m.withSupply supply) id
  | .touchReserve supply count => Prod.snd <$> matrasTouchReserve (m.withSupply supply) count
  | .createReadView key => some (matrasCreateReadView m key)
  | .destroyReadView key => matrasDestroyReadView m key
  | .write id offset byte => some (m.writeByte (matrasGet m id) offset byte)
  | .memory slots bytes => some { m with slots := slots, bytes := bytes }

/-- The runs of a matras with these sizes. -/
def matrasMachine (blockSize extentSize : Nat) : Machine Matras MatrasOp where
  init := fun m => ∃ slots bytes root, matrasCreate blockSize extentSize slots bytes root = some m
  allowed := MatrasOp.Allowed
  exec := MatrasOp.exec

/-! ## Runs on given inputs -/

instance (m : Matras) (supply : List (Option Nat)) : Decidable (m.FreshSupply supply) :=
  decidable_of_iff ((∀ y ∈ supply, ∀ x ∈ y, x ∉ m.allocator.allocated) ∧
      supply.Pairwise fun x y => x ≠ none → x ≠ y)
    ⟨fun h => ⟨fun x hx => h.1 _ hx x rfl, h.2⟩, fun h =>
    ⟨fun _ hy x hx => h.fresh x (Option.mem_def.1 hx ▸ hy), h.distinct⟩⟩

instance (m : Matras) (r : Nat) : Decidable (m.RangeOk r) :=
  decidable_of_iff (r ≠ 0 ∧ m.head.blockCount % r = 0 ∧
      m.config.extentSize / m.config.blockSize % r = 0)
    ⟨fun h => ⟨h.1, h.2.1, h.2.2⟩, fun h => ⟨h.pos, h.count, h.extent⟩⟩

/-- Whether a touch succeeds. -/
def touchSucceeds (m : Matras) (id : Nat) : Bool :=
  match matrasTouch m id with
  | some (some _, _) => true
  | _ => false

theorem touchSucceeds_iff : touchSucceeds m id = true ↔ m.TouchSucceeds id := by
  unfold touchSucceeds Matras.TouchSucceeds
  rcases matrasTouch m id with _ | ⟨_ | ptr, m'⟩ <;> simp

/-- Whether a call may be made; not for changes of memory. -/
def MatrasOp.check (m : Matras) : MatrasOp → Bool
  | .alloc supply => decide (m.FreshSupply supply)
  | .allocRange supply rangeCount => decide (m.FreshSupply supply) && decide (m.RangeOk rangeCount)
  | .dealloc supply => decide (m.FreshSupply supply) && decide (0 < m.head.blockCount) &&
      touchSucceeds (m.withSupply supply) (m.head.blockCount - 1)
  | .deallocRange supply rangeCount =>
      decide (m.FreshSupply supply) && decide (m.RangeOk rangeCount) &&
      decide (rangeCount ≤ m.head.blockCount) && touchSucceeds (m.withSupply supply)
        (m.head.blockCount - rangeCount)
  | .touch supply id => decide (m.FreshSupply supply) && decide (id < m.head.blockCount)
  | .touchReserve supply count => decide (m.FreshSupply supply) && decide (2 * count + 1 ≤ intMax)
  | .createReadView key => decide (∀ v ∈ m.views, v.key ≠ key)
  | .destroyReadView _ => true
  | .write id offset _ => decide (id < m.head.blockCount) && decide (offset < m.config.blockSize)
  | .memory _ _ => false

theorem MatrasOp.allowed_of_check {op : MatrasOp} (h : op.check m = true) : op.Allowed m := by
  cases op <;> simp only [MatrasOp.check, Bool.and_eq_true, decide_eq_true_eq, touchSucceeds_iff,
    Bool.false_eq_true] at h
  case alloc => exact h
  case allocRange => exact h
  case dealloc => exact ⟨h.1.1, h.1.2, h.2⟩
  case deallocRange => exact ⟨h.1.1.1, h.1.1.2, h.1.2, h.2⟩
  case touch => exact h
  case touchReserve => exact h
  case createReadView => exact h
  case destroyReadView => trivial
  case write => exact h

/-- The run of a list of calls from a new matras in an empty memory. -/
def matrasRun (blockSize extentSize : Nat) (ops : List MatrasOp) : Option Matras :=
  (matrasCreate blockSize extentSize (fun _ _ => 0) (fun _ _ => 0) 0).bind
    ((matrasMachine blockSize extentSize).run MatrasOp.check ops)

theorem matrasRun_reachable {ops : List MatrasOp}
    (h : matrasRun blockSize extentSize ops = some m) :
    (matrasMachine blockSize extentSize).Reachable m := by
  obtain ⟨m₀, hinit, hrun⟩ := Option.bind_eq_some_iff.1 h
  exact Machine.Reachable.run _ (fun _ _ => MatrasOp.allowed_of_check) ops
    (.init ⟨_, _, _, hinit⟩) hrun

/-! ## What a step does -/

/-- The memory changed where nothing is allocated, or the bytes of it. -/
structure Matras.Written (m m' : Matras) : Prop where
  head : m'.head = m.head
  views : m'.views = m.views
  config : m'.config = m.config
  allocator : m'.allocator = m.allocator
  extentCount : m'.extentCount = m.extentCount
  stats : m'.stats = m.stats
  slots : ∀ x ∈ m.allocator.allocated, m'.slots x = m.slots x

/-- What a step can do, after the new answers of `alloc_func` are there. -/
inductive Matras.Effect (m : Matras) (rs : List Nat) (m' : Matras) (rs' : List Nat) : Prop where
  | refused (h : m.Grown rs [] m' rs')
  | extended (n : Nat) (h : m.Extended rs n m' rs')
  | copied (h : m.Copied rs m' rs')
  | shrunk (m₁ : Matras) (id : Nat) (h : m.Copied rs m₁ rs') (h' : m₁.Shrunk rs' id m')
  | stocked (h : m.Stocked rs m' rs')
  | viewed (key : Nat) (hkey : ∀ v ∈ m.views, v.key ≠ key) (hm : m' = matrasCreateReadView m key)
      (hrs : rs' = rs)
  | dropped (A : List MatrasView) (v next : MatrasView) (prev : Option MatrasView)
      (B : List MatrasView)
      (hb : m.Between A v next prev B) (hviews : m'.views = A ++ B)
      (h : m.Dropped rs v next prev m') (hrs : rs' = rs)
  | written (h : m.Written m') (hrs : rs' = rs)

/-- New answers of `alloc_func` change nothing else. -/
theorem Matras.withSupply_inv (hi : m.Inv rs) (hs : m.FreshSupply supply) :
    (m.withSupply supply).Inv rs := by
  have htree : m.SameTree (m.withSupply supply) := ⟨rfl, rfl, rfl, rfl, rfl⟩
  exact htree.inv hi hi.owned { hi.alloc with fresh := hs.fresh, distinct := hs.distinct }

theorem Matras.Inv.freshSupply (hi : m.Inv rs) : m.FreshSupply m.allocator.supply :=
  ⟨hi.alloc.fresh, hi.alloc.distinct⟩

theorem Matras.Written.addr (h : m.Written m') (hi : m.Inv rs) (hv : v ∈ m.all)
    (hp : m.Covers v p) : m'.addr v p = m.addr v p :=
  Matras.addr_eq_of_slots h.config (fun q hq i => by rw [h.slots _ (hi.owned v hv q hq).1]) hp

theorem Matras.Written.inv (h : m.Written m') (hi : m.Inv rs) : m'.Inv rs := by
  have hall : m'.all = m.all := by rw [Matras.all, Matras.all, h.head, h.views]
  have hcov : ∀ v p, m'.Covers v p ↔ m.Covers v p :=
    fun v p => by rw [Matras.Covers, Matras.Covers, h.config]
  have howns : ∀ x, m'.Owns rs x ↔ m.Owns rs x :=
    fun x => by rw [Matras.Owns, Matras.Owns, h.allocator]
  constructor
  case config => rw [h.config]; exact hi.config
  case sharing =>
    rw [h.config, hall]
    exact hi.sharing.congr fun v hv => ⟨rfl, fun p hp => h.addr hi hv hp⟩
  case owned =>
    intro v hv p hp
    rw [hall] at hv
    rw [hcov] at hp
    rw [h.addr hi hv hp, howns]
    exact hi.owned v hv p hp
  case bound => rw [hall, h.config]; exact hi.bound
  case alloc =>
    rw [h.allocator]
    exact hi.alloc.congr fun x hx => h.slots x (hi.alloc.reserved x hx)

theorem Matras.Effect.inv (h : m.Effect rs m' rs') (hi : m.Inv rs) : m'.Inv rs' := by
  cases h with
  | refused h => exact h.inv
  | extended n h => exact h.inv
  | copied h => exact h.inv
  | shrunk m₁ id h h' => exact h'.inv
  | stocked h => exact h.inv
  | viewed key hkey hm hrs =>
      rw [hm, hrs]
      exact matrasCreateReadView_inv hi key
  | dropped A v next prev B hb hviews h hrs =>
      rw [hrs]
      exact h.inv
  | written h hrs =>
      rw [hrs]
      exact h.inv hi

/-- The state of a run. -/
structure Matras.Good (m : Matras) (rs : List Nat) : Prop where
  inv : m.Inv rs
  keys : (m.views.map (·.key)).Nodup

theorem Matras.TouchSucceeds.copies_le (hi : m.Inv rs) (hid : id < m.head.blockCount)
    (h : m.TouchSucceeds id) :
    m.copies id ≤ m.allocator.avail := by
  obtain ⟨ptr, m', heq⟩ := h
  rcases matrasTouch_spec hi hid with ⟨m₁, rs₁, heq₁, -, -⟩ | ⟨m₁, rs₁, -, -, -, hdraws, -, -⟩
  · rw [heq₁] at heq
    cases heq
  · have := hdraws.avail
    omega

/-- The blocks from `id` on go. -/
theorem deallocTo_effect (hi : m.Inv rs) (hid : id < m.head.blockCount)
    (hle : m.head.blockCount ≤ (m.config.extentOf id + 1) * m.config.perExtent)
    (ht : m.TouchSucceeds id) :
    ∃ m' rs', deallocTo m id = some m' ∧ m.Effect rs m' rs' := by
  obtain ⟨m₁, rs₁, m', -, hcp, -, heq, hsh⟩ := deallocTo_spec hi hid hle (ht.copies_le hi hid)
  exact ⟨m', rs₁, heq, .shrunk m₁ id hcp hsh⟩

/-- Every call that may be made does one of these things, unless it destroys a view of a matras
for 2^32 blocks. -/
theorem matrasOp_spec {op : MatrasOp} (hg : m.Good rs) (hal : op.Allowed m) :
    (2 ^ 32 ≤ m.config.capacity ∧ op.exec m = none) ∨
    ∃ supply m' rs', m.FreshSupply supply ∧ op.exec m = some m' ∧
    (m.withSupply supply).Effect rs m' rs' := by
  have hi := hg.inv
  cases op with
  | alloc supply =>
      right
      have hi' := Matras.withSupply_inv hi hal
      rcases matrasAlloc_spec hi' with ⟨m', rs', heq, h, -⟩ | ⟨m', rs', heq, h, -⟩
      · exact ⟨supply, m', rs', hal, by simp [MatrasOp.exec, heq], .refused h⟩
      · exact ⟨supply, m', rs', hal, by simp [MatrasOp.exec, heq], .extended _ h⟩
  | allocRange supply rangeCount =>
      right
      have hi' := Matras.withSupply_inv hi hal.1
      have hr : (m.withSupply supply).RangeOk rangeCount := ⟨hal.2.pos, hal.2.count, hal.2.extent⟩
      rcases matrasAllocRange_spec hi' hr with ⟨m', rs', heq, h, -⟩ | ⟨m', rs', heq, h, -⟩
      · exact ⟨supply, m', rs', hal.1, by simp [MatrasOp.exec, heq], .refused h⟩
      · exact ⟨supply, m', rs', hal.1, by simp [MatrasOp.exec, heq], .extended _ h⟩
  | dealloc supply =>
      right
      obtain ⟨hs, hpos, ht⟩ := hal
      have hi' := Matras.withSupply_inv hi hs
      obtain ⟨m', rs', heq, h⟩ :=
        deallocTo_effect hi' (Nat.sub_lt hpos Nat.zero_lt_one) (m.config.le_extent_end _) ht
      exact ⟨supply, m', rs', hs, (matrasDealloc_eq hi' hpos).trans heq, h⟩
  | deallocRange supply rangeCount =>
      right
      obtain ⟨hs, hr, hle, ht⟩ := hal
      have hi' := Matras.withSupply_inv hi hs
      have hr' : (m.withSupply supply).RangeOk rangeCount := ⟨hr.pos, hr.count, hr.extent⟩
      have hpos := Nat.pos_of_ne_zero hr.pos
      obtain ⟨m', rs', heq, h⟩ :=
        deallocTo_effect hi' (Nat.sub_lt (Nat.lt_of_lt_of_le hpos hle) hpos)
        (hr'.extent_le hi.config hle) ht
      exact ⟨supply, m', rs', hs, (matrasDeallocRange_eq hi' hr' hle).trans heq, h⟩
  | touch supply id =>
      right
      obtain ⟨hs, hid⟩ := hal
      have hi' := Matras.withSupply_inv hi hs
      rcases matrasTouch_spec hi' hid with ⟨m', rs', heq, -, h⟩ | ⟨m', rs', heq, h, -⟩
      · exact ⟨supply, m', rs', hs, by simp [MatrasOp.exec, heq], .copied h.copied⟩
      · exact ⟨supply, m', rs', hs, by simp [MatrasOp.exec, heq], .copied h⟩
  | touchReserve supply count =>
      right
      obtain ⟨hs, hcount⟩ := hal
      obtain ⟨ok, m', rs', heq, h, -⟩ :=
        matrasTouchReserve_spec (Matras.withSupply_inv hi hs) hcount
      exact ⟨supply, m', rs', hs, by simp [MatrasOp.exec, heq], .stocked h⟩
  | createReadView key =>
      exact Or.inr ⟨m.allocator.supply, _, rs, hi.freshSupply, rfl, .viewed key hal rfl rfl⟩
  | destroyReadView key =>
      rcases matrasDestroyReadView_spec hi hg.keys key with ⟨-, heq⟩
        | ⟨A, v, next, prev, B, hb, -, ⟨hwrap, heq⟩ | ⟨m', heq, hviews, h⟩⟩
      · exact Or.inr ⟨m.allocator.supply, m, rs, hi.freshSupply, heq,
          .written ⟨rfl, rfl, rfl, rfl, rfl, rfl, fun _ _ => rfl⟩ rfl⟩
      · left
        refine ⟨?_, heq⟩
        by_contra hlt
        have := hi.config.mids_lt (hi.bound v (Matras.view_mem hb.mem)) (Nat.lt_of_not_le hlt)
        omega
      · exact Or.inr ⟨m.allocator.supply, m', rs, hi.freshSupply, heq,
          .dropped A v next prev B hb hviews h rfl⟩
  | write id offset byte =>
      exact Or.inr ⟨m.allocator.supply, _, rs, hi.freshSupply, rfl,
        .written ⟨rfl, rfl, rfl, rfl, rfl, rfl, fun _ _ => rfl⟩ rfl⟩
  | memory slots bytes =>
      exact Or.inr ⟨m.allocator.supply, _, rs, hi.freshSupply, rfl,
        .written ⟨rfl, rfl, rfl, rfl, rfl, rfl, hal.slots⟩ rfl⟩

/-! ## Invariants of runs -/

theorem Matras.Effect.config (h : m.Effect rs m' rs') : m'.config = m.config := by
  cases h with
  | refused h => exact h.blocks.config
  | extended n h => exact h.config
  | copied h => exact h.config
  | shrunk m₁ id h h' => exact h'.config.trans h.config
  | stocked h => exact h.blocks.config
  | viewed key hkey hm hrs => rw [hm]; rfl
  | dropped A v next prev B hb hviews h hrs => exact h.config
  | written h hrs => exact h.config

theorem Matras.Effect.good (h : m.Effect rs m' rs') (hg : m.Good rs) : m'.Good rs' := by
  refine ⟨h.inv hg.inv, ?_⟩
  have hkeys := hg.keys
  cases h with
  | refused h => rwa [h.blocks.views]
  | extended n h => rwa [h.views]
  | copied h => rwa [h.views]
  | shrunk m₁ id h h' => rwa [h'.views, h.views]
  | stocked h => rwa [h.blocks.views]
  | viewed key hkey hm hrs =>
      rw [hm]
      refine List.nodup_cons.2 ⟨fun hmem => ?_, hkeys⟩
      obtain ⟨v, hv, he⟩ := List.mem_map.1 hmem
      exact hkey v hv he
  | dropped A v next prev B hb hviews h hrs =>
      rw [hb.views] at hkeys
      rw [hviews]
      exact hkeys.sublist (((List.Sublist.refl A).append (List.sublist_cons_self v B)).map _)
  | written h hrs => rwa [h.views]

/-- The extents that are counted beyond those of views are those that the head needs. -/
theorem Matras.Effect.counts (h : m.Effect rs m' rs') : ∃ d r, m.Counts d r m' ∧
    d - r = (m.config.need m'.head.blockCount : Int) - m.config.need m.head.blockCount := by
  cases h with
  | refused h => exact ⟨_, _, h.counts, by rw [h.blocks.count]; simp⟩
  | extended n h => exact ⟨_, _, h.counts, by rw [h.count]; omega⟩
  | copied h =>
      obtain ⟨k, hk⟩ := h.counts
      exact ⟨k, k, hk, by rw [h.count]; omega⟩
  | shrunk m₁ id h h' =>
      obtain ⟨k, hk⟩ := h.counts
      refine ⟨_, _, hk.trans h'.counts, ?_⟩
      rw [h'.count, h.config, h.count]
      omega
  | stocked h => exact ⟨0, 0, h.counts, by rw [h.blocks.count]; omega⟩
  | viewed key hkey hm hrs =>
      subst hm
      refine ⟨0, 0, .same rfl rfl rfl, ?_⟩
      show (0 : Int) - 0 = (m.config.need m.head.blockCount : Int) - m.config.need m.head.blockCount
      omega
  | dropped A v next prev B hb hviews h hrs =>
      obtain ⟨k, hk⟩ := h.counts
      exact ⟨k, k, hk, by rw [h.head]; omega⟩
  | written h hrs =>
      exact ⟨0, 0, .same h.extentCount h.stats (by rw [h.allocator]), by rw [h.head]; omega⟩

theorem Matras.withSupply_good (hg : m.Good rs) (hs : m.FreshSupply supply) :
    (m.withSupply supply).Good rs :=
  ⟨Matras.withSupply_inv hg.inv hs, hg.keys⟩

/-- A new matras. -/
structure Matras.Created (m : Matras) (blockSize extentSize : Nat) : Prop where
  config : matrasConfig blockSize extentSize = some m.config
  good : m.Good []
  views : m.views = []
  count : m.head.blockCount = 0
  extentCount : m.extentCount = 0
  stats : m.stats = { extentCount := 0, readViewExtentCount := 0 }
  allocated : m.allocator.allocated = []

theorem matrasCreate_spec {slots : Nat → Nat → Nat} {bytes : Nat → Nat → UInt8} {root : Nat}
    (h : matrasCreate blockSize extentSize slots bytes root = some m) :
    m.Created blockSize extentSize := by
  unfold matrasCreate at h
  rw [Option.bind_eq_bind, Option.bind_eq_some_iff] at h
  obtain ⟨c, hc, h⟩ := h
  rw [Option.some.injEq] at h
  subst h
  have hok := (matrasConfig_spec hc).1
  refine ⟨hc, ⟨⟨hok, .empty rfl, fun v hv p hp => ?_, fun v hv => ?_, ?_⟩, List.nodup_nil⟩, rfl,
    rfl, rfl, rfl, rfl⟩
  · obtain rfl := List.mem_singleton.1 hv
    exact absurd hp (Nat.not_lt_zero _)
  · obtain rfl := List.mem_singleton.1 hv
    exact Nat.zero_le _
  · exact ⟨List.nodup_nil, trivial, rfl, fun x hx => (by cases hx), List.nodup_nil, fun x hx =>
      (by cases hx), List.Pairwise.nil⟩

/-- A step, with what it does. -/
theorem matrasStep_effect {op : MatrasOp} (hg : m.Good rs) (hal : op.Allowed m)
    (hex : op.exec m = some m') :
    ∃ supply rs', m.FreshSupply supply ∧ (m.withSupply supply).Effect rs m' rs' := by
  rcases matrasOp_spec hg hal with ⟨-, hnone⟩ | ⟨supply, m'', rs', hs, heq, h⟩
  · rw [hnone] at hex
    cases hex
  · rw [heq, Option.some.injEq] at hex
    exact ⟨supply, rs', hs, hex ▸ h⟩

/-- Every state of a run satisfies the invariant. -/
theorem matrasReachable_good (hs : (matrasMachine blockSize extentSize).Reachable m) :
    ∃ rs, m.Good rs := by
  refine Machine.Reachable.of_step (P := fun m => ∃ rs, m.Good rs) _ (fun m hm => ?_)
    (fun m op m' hP hal hex => ?_) hs
  · obtain ⟨slots, bytes, root, h⟩ := hm
    exact ⟨[], (matrasCreate_spec h).good⟩
  · obtain ⟨rs, hg⟩ := hP
    obtain ⟨supply, rs', hfresh, h⟩ := matrasStep_effect hg hal hex
    exact ⟨rs', h.good (Matras.withSupply_good hg hfresh)⟩

theorem matrasReachable_config (hs : (matrasMachine blockSize extentSize).Reachable m) :
    matrasConfig blockSize extentSize = some m.config := by
  refine (Machine.Reachable.of_step (P := fun m => (∃ rs, m.Good rs) ∧
      matrasConfig blockSize extentSize = some m.config) _
    (fun m hm => ?_) (fun m op m' hP hal hex => ?_) hs).2
  · obtain ⟨slots, bytes, root, h⟩ := hm
    have hnew := matrasCreate_spec h
    exact ⟨⟨[], hnew.good⟩, hnew.config⟩
  · obtain ⟨⟨rs, hg⟩, hc⟩ := hP
    obtain ⟨supply, rs', hfresh, h⟩ := matrasStep_effect hg hal hex
    exact ⟨⟨rs', h.good (Matras.withSupply_good hg hfresh)⟩, hc.trans (congrArg some h.config.symm)⟩

/-- The counters agree with each other and with the number of blocks. -/
structure Matras.Counted (m : Matras) : Prop where
  total : m.stats.extentCount = m.extentCount
  head : m.extentCount - m.stats.readViewExtentCount = (m.config.need m.head.blockCount : BitVec 32)

theorem Matras.Effect.counted (h : m.Effect rs m' rs') (hc : m.Counted) : m'.Counted := by
  obtain ⟨d, r, hcounts, hdiff⟩ := h.counts
  have h1 := hc.total
  have h2 := hc.head
  constructor
  · rw [hcounts.total, hcounts.extents, h1]
  · have hneed : (m.config.need m'.head.blockCount : Int) =
        m.config.need m.head.blockCount + (d - r) := by omega
    have hcast := congrArg (Int.cast (R := BitVec 32)) hneed
    rw [Int.cast_add, Int.cast_sub, Int.cast_natCast, Int.cast_natCast] at hcast
    rw [hcounts.extents, hcounts.views, h.config, hcast, ← h2]
    exact add_sub_add_comm ..

/-- The head never needs as many extents as the counters can count. -/
theorem MatrasConfig.Ok.need_lt {c : MatrasConfig} {b : Nat} (hok : c.Ok) (hb : b ≤ c.capacity)
    (hsmall : c.capacity < 2 ^ 32) : c.need b < 2 ^ 32 := by
  have hshift := hok.shift2_lt
  rw [hok.capacity] at hb hsmall
  have hlog : min (2 * (c.shift1 - c.shift2) + c.shift2) 32 < 32 :=
    (Nat.pow_lt_pow_iff_right (by omega)).1 hsmall
  rw [Nat.min_eq_left (by omega)] at hb hlog
  -- the slots of the root, and those of the extents of the second level
  have hmids : 2 ^ (c.shift1 - c.shift2) ≤ 2 ^ 15 := Nat.pow_le_pow_right (by omega) (by omega)
  have hleaves : 2 ^ (2 * (c.shift1 - c.shift2)) ≤ 2 ^ 31 :=
    Nat.pow_le_pow_right (by omega) (by omega)
  have hceil : ∀ s k, b ≤ 2 ^ (s + k) → (b + (2 ^ s - 1)) / 2 ^ s ≤ 2 ^ k := by
    intro s k hle
    have hpos := Nat.two_pow_pos s
    rw [Nat.pow_add] at hle
    rw [← Nat.lt_succ_iff]
    apply Nat.div_lt_of_lt_mul
    rw [Nat.mul_succ]
    omega
  have hsum1 : c.shift1 + (c.shift1 - c.shift2) = 2 * (c.shift1 - c.shift2) + c.shift2 := by omega
  have h1 := hceil c.shift1 (c.shift1 - c.shift2) (hsum1 ▸ hb)
  have h2 := hceil c.shift2 (2 * (c.shift1 - c.shift2)) (Nat.add_comm .. ▸ hb)
  unfold MatrasConfig.need
  split
  · exact Nat.two_pow_pos 32
  · omega

/-- **The statistics of extents match the shape of the tree** in every state of a run, and every
call returns there. -/
theorem matras_statistics_match (hsize : 3 * extentSize.log2 - blockSize.log2 - 6 < 32)
    (hs : (matrasMachine blockSize extentSize).Reachable m) :
    m.stats.extentCount = m.extentCount ∧
      (m.extentCount - m.stats.readViewExtentCount).toNat =
        (if m.head.blockCount = 0 then 0
          else 1 + (m.head.blockCount + (2 ^ m.config.shift1 - 1)) / 2 ^ m.config.shift1 +
            (m.head.blockCount + (2 ^ m.config.shift2 - 1)) / 2 ^ m.config.shift2) ∧
      ∀ op : MatrasOp, op.Allowed m → ∃ m', op.exec m = some m' := by
  have hcounted : (∃ rs, m.Good rs) ∧ m.Counted := by
    refine Machine.Reachable.of_step (P := fun m => (∃ rs, m.Good rs) ∧
        m.Counted) _ (fun m hm => ?_)
      (fun m op m' hP hal hex => ?_) hs
    · obtain ⟨slots, bytes, root, h⟩ := hm
      have hnew := matrasCreate_spec h
      refine ⟨⟨[], hnew.good⟩, ?_, ?_⟩
      · rw [hnew.stats, hnew.extentCount]
      · rw [hnew.stats, hnew.extentCount, hnew.count, MatrasConfig.need, if_pos rfl]
        rfl
    · obtain ⟨⟨rs, hg⟩, hc⟩ := hP
      obtain ⟨supply, rs', hfresh, h⟩ := matrasStep_effect hg hal hex
      exact ⟨⟨rs', h.good (Matras.withSupply_good hg hfresh)⟩, h.counted ⟨hc.total, hc.head⟩⟩
  obtain ⟨⟨rs, hg⟩, hc⟩ := hcounted
  have hsmall := (matrasConfig_spec (matrasReachable_config hs)).2 hsize
  have hneed := hg.inv.config.need_lt (hg.inv.bound m.head m.head_mem) hsmall
  have hhead :
      (m.extentCount - m.stats.readViewExtentCount).toNat = m.config.need m.head.blockCount := by
    rw [hc.head, BitVec.natCast_eq_ofNat, BitVec.toNat_ofNat, Nat.mod_eq_of_lt hneed]
  refine ⟨hc.total, hhead, fun op hal => ?_⟩
  rcases matrasOp_spec hg hal with ⟨hlarge, -⟩ | ⟨supply, m', rs', -, heq, -⟩
  · omega
  · exact ⟨m', heq⟩

/-- A block of which a view exists is touched: three extents for the head, and three more for
the view. -/
theorem matras_statistics_match_touched :
    ∃ m, matrasRun 8 16 [.alloc [some 1, some 2, some 3], .createReadView 1,
      .touch [some 4, some 5, some 6] 0] = some m ∧ m.extentCount = 6 ∧
      m.stats.readViewExtentCount = 3 ∧
      m.stats.extentCount = m.extentCount ∧ m.head.blockCount = 1 := by
  have hrun : (matrasRun 8 16 [.alloc [some 1, some 2, some 3], .createReadView 1,
      .touch [some 4, some 5, some 6] 0]).map
        (fun m => (m.extentCount, m.stats.readViewExtentCount, m.head.blockCount)) =
      some (6, 3, 1) := by decide +kernel
  obtain ⟨m, heq, hval⟩ := Option.map_eq_some_iff.1 hrun
  rw [Prod.mk.injEq, Prod.mk.injEq] at hval
  have hmatch := matras_statistics_match (by decide) (matrasRun_reachable heq)
  exact ⟨m, heq, hval.1, hval.2.1, hmatch.1, hval.2.2⟩

end SmallAllocators
