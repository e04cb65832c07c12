/-
SmallAllocators.Matras.Isolation — views keep what the head had, and the
head keeps what was written to it.

A client keeps the pointers that touches and allocations return until a view
is created, and writes through them. Beside the matras, a client here
remembers what it wrote and what the head held when each view was created
(`written`, `saved`); these never decide what a call does.

A touch or an allocation returns the address of a block that no view has
there (`Matras.Apart`), and that stays so until a view is created. The address
that a touch returned stays that of the block, too (`matrasTouch_stays`), but
that of an allocation may become an old one: the touch of another block copies
the extent, if the newest view has some of its blocks. So the runs in which the
views and the head keep their contents are those where a write goes to the
address that `matras_get` returns.
-/
import SmallAllocators.Matras.Failure

namespace SmallAllocators

variable {m m' : Matras} {rs rs' : List Nat} {v : MatrasView} {id i n : Nat}
    {supply : List (Option Nat)} {blockSize extentSize : Nat}

/-! ## A client -/

structure MatrasClient where
  matras : Matras
  /-- What touches and allocations returned since the last view was created. -/
  pointers : List (Nat × BlockPtr)
  /-- The last byte that was written to a block since it was allocated. -/
  written : Nat → Nat → Option UInt8
  /-- What the head held when a view was created. -/
  saved : Nat → Nat → Nat → UInt8

inductive ClientOp where
  | call (op : MatrasOp)
  | write (id : Nat) (ptr : BlockPtr) (offset : Nat) (byte : UInt8)

namespace MatrasClient

/-- New blocks from `id` on, with their first address. -/
def receive (c : MatrasClient) (ptr : BlockPtr) (id n : Nat) (m : Matras) : MatrasClient :=
  { c with
    matras := m
    pointers := (List.range n).map
      (fun k => (id + k, ⟨ptr.extent, ptr.offset + k * m.config.blockSize⟩)) ++ c.pointers
    written := fun i => if id ≤ i ∧ i < id + n then fun _ => none else c.written i }

/-- A call of the client, which is not a write. -/
def call (c : MatrasClient) : MatrasOp → Option MatrasClient
  | .alloc supply =>
      match matrasAlloc (c.matras.withSupply supply) with
      | none => none
      | some (none, m) => some { c with matras := m }
      | some (some (ptr, id), m) => some (c.receive ptr id 1 m)
  | .allocRange supply rangeCount =>
      match matrasAllocRange (c.matras.withSupply supply) rangeCount with
      | none => none
      | some (none, m) => some { c with matras := m }
      | some (some (ptr, id), m) => some (c.receive ptr id rangeCount m)
  | .touch supply id =>
      match matrasTouch (c.matras.withSupply supply) id with
      | none => none
      | some (none, m) => some { c with matras := m }
      | some (some ptr, m) => some { c with matras := m, pointers := (id, ptr) :: c.pointers }
  | .createReadView key =>
      some { c with
        matras := matrasCreateReadView c.matras key
        pointers := []
        saved := fun k => if k = key then c.matras.content c.matras.head else c.saved k }
  | op => (op.exec c.matras).map fun m => { c with matras := m }

/-- A write of the client. -/
def write (c : MatrasClient) (id : Nat) (ptr : BlockPtr) (offset : Nat) (byte : UInt8) :
    MatrasClient :=
  { c with
    matras := c.matras.writeByte ptr offset byte
    written := fun i k => if i = id ∧ k = offset then some byte else c.written i k }

/-- The client got the pointer for the block. -/
def Got (c : MatrasClient) (id : Nat) (ptr : BlockPtr) : Prop := (id, ptr) ∈ c.pointers

/-- The client got the pointer, and it still is the address of the block. -/
def GotCurrent (c : MatrasClient) (id : Nat) (ptr : BlockPtr) : Prop :=
  (id, ptr) ∈ c.pointers ∧ ptr = matrasGet c.matras id

/-- The views have the contents that they were created with, in extents that are allocated, and
the head has the bytes that were written to it. -/
structure Isolated (c : MatrasClient) : Prop where
  view : ∀ v ∈ c.matras.views, ∀ id < v.blockCount,
    (∀ x ∈ c.matras.path v id, x ∈ c.matras.allocator.allocated) ∧
      ∀ k < c.matras.config.blockSize, c.matras.content v id k = c.saved v.key id k
  head : ∀ id < c.matras.head.blockCount, ∀ k < c.matras.config.blockSize, ∀ byte,
    c.written id k = some byte →
    c.matras.bytes (matrasGet c.matras id).extent ((matrasGet c.matras id).offset + k) = byte

end MatrasClient

def MatrasOp.isWrite : MatrasOp → Bool
  | .write .. => true
  | _ => false

/-- The calls are those of `matrasMachine`; the client writes through pointers. -/
def ClientOp.Allowed (may : MatrasClient → Nat → BlockPtr → Prop) (c : MatrasClient) :
    ClientOp → Prop
  | .call op => op.isWrite = false ∧ op.Allowed c.matras
  | .write id ptr offset _ => id < c.matras.head.blockCount ∧ offset < c.matras.config.blockSize ∧
      may c id ptr

def ClientOp.exec (c : MatrasClient) : ClientOp → Option MatrasClient
  | .call op => c.call op
  | .write id ptr offset byte => some (c.write id ptr offset byte)

/-- The runs of a matras and a client that writes through the pointers which it may use. -/
def clientMachine (may : MatrasClient → Nat → BlockPtr → Prop) (blockSize extentSize : Nat) :
    Machine MatrasClient ClientOp where
  init := fun c => (matrasMachine blockSize extentSize).init c.matras ∧ c.pointers = [] ∧
    c.written = fun _ _ => none
  allowed := ClientOp.Allowed may
  exec := ClientOp.exec

/-! ## What the calls leave as it is -/

namespace Matras

/-- No view has the block at the address where the head has it. -/
def Apart (m : Matras) (id : Nat) : Prop :=
  ∀ v ∈ m.views, id < v.blockCount →
  m.addr v (.leaf (m.config.extentOf id)) ≠ m.addr m.head (.leaf (m.config.extentOf id))

/-- Views keep their extents and the bytes in them. An extent of the head is kept, or replaced
by one that no view has. -/
structure Keeps (m : Matras) (rs : List Nat) (m' : Matras) : Prop where
  config : m'.config = m.config
  views : ∀ v ∈ m'.views, v ∈ m.views
  kept : ∀ v ∈ m'.views, ∀ p, m.Covers v p → m'.addr v p = m.addr v p
  bytes : ∀ x, m.Owns rs x → m'.bytes x = m.bytes x
  head : ∀ e, m.Covers m.head (.leaf e) → m'.Covers m'.head (.leaf e) →
    (m'.addr m'.head (.leaf e) = m.addr m.head (.leaf e) ∨
      ¬ m.Owns rs (m'.addr m'.head (.leaf e))) ∧
      m'.bytes (m'.addr m'.head (.leaf e)) = m.bytes (m.addr m.head (.leaf e))
  alone : ∀ e, m.Covers m.head (.leaf e) → m'.Covers m'.head (.leaf e) → m.Alone (.leaf e) →
    m'.addr m'.head (.leaf e) = m.addr m.head (.leaf e)

end Matras

namespace Matras.Keeps

theorem of_withSupply (h : (m.withSupply supply).Keeps rs m') : m.Keeps rs m' :=
  ⟨h.config, h.views, h.kept, h.bytes, h.head, h.alone⟩

theorem apart (h : m.Keeps rs m') (hi : m.Inv rs) (hid : id < m.head.blockCount)
    (hid' : id < m'.head.blockCount) (ha : m.Apart id) :
    m'.Apart id := by
  intro v hv hlt he
  have hcov : m.Covers v (.leaf (m.config.extentOf id)) := .of_lt hlt
  have hhead :=
    (h.head (m.config.extentOf id) (.of_lt hid) (by rw [← h.config]; exact .of_lt hid')).1
  rw [h.config, h.kept v hv _ hcov] at he
  rcases hhead with hsame | hnew
  · exact ha v (h.views v hv) hlt (he.trans hsame)
  · exact hnew (he ▸ hi.owned v (Matras.view_mem (h.views v hv)) _ hcov)

theorem content (h : m.Keeps rs m') (hi : m.Inv rs) (hv : v ∈ m'.views) (hid : id < v.blockCount)
    (k : Nat) :
    m'.content v id k = m.content v id k := by
  have hcov : m.Covers v (.leaf (m.config.extentOf id)) := .of_lt hid
  have hc : m'.config.Ok := by
    rw [h.config]
    exact hi.config
  rw [Matras.content_eq hc, Matras.content_eq hi.config, h.config, h.kept v hv _ hcov,
    h.bytes _ (hi.owned v (Matras.view_mem (h.views v hv)) _ hcov)]

theorem content_head (h : m.Keeps rs m') (hi : m.Inv rs) (hid : id < m.head.blockCount)
    (hid' : id < m'.head.blockCount) (k : Nat) :
    m'.content m'.head id k = m.content m.head id k := by
  have hc : m'.config.Ok := by
    rw [h.config]
    exact hi.config
  rw [Matras.content_eq hc, Matras.content_eq hi.config, h.config,
    (h.head (m.config.extentOf id) (.of_lt hid) (by rw [← h.config]; exact .of_lt hid')).2]

end Matras.Keeps

theorem Matras.SameBlocks.keeps (h : m.SameBlocks m') : m.Keeps rs m' where
  config := h.config
  views v hv := h.views ▸ hv
  kept v hv := h.kept v (h.views ▸ hv)
  bytes x _ := by rw [h.bytes]
  head e he _ := ⟨Or.inl (h.head _ he), by rw [h.head _ he, h.bytes]⟩
  alone e he _ _ := h.head _ he

theorem Matras.Extended.keeps (h : m.Extended rs n m' rs') : m.Keeps rs m' where
  config := h.config
  views v hv := h.views ▸ hv
  kept v hv := h.kept v (h.views ▸ hv)
  bytes x _ := by rw [h.bytes]
  head e he _ := ⟨Or.inl (h.head _ he), by rw [h.head _ he, h.bytes]⟩
  alone e he _ _ := h.head _ he

theorem Matras.Copied.keeps (h : m.Copied rs m' rs') : m.Keeps rs m' where
  config := h.config
  views _ hv := h.views ▸ hv
  kept v hv := h.kept v (h.views ▸ hv)
  bytes := h.bytes
  head e he _ := ⟨h.head _ he, h.headBytes e he⟩
  alone _ he _ := h.alone _ he

theorem Matras.Shrunk.keeps {m₁ : Matras} (h : m.Copied rs m₁ rs') (h' : m₁.Shrunk rs' id m') :
    m.Keeps rs m' := by
  have haddr : ∀ v p, m'.addr v p = m₁.addr v p := by
    intro v p
    cases p <;> simp only [Matras.addr, h'.slots, h'.config]
  have hhead : ∀ p, m'.addr m'.head p = m₁.addr m₁.head p := by
    intro p
    cases p <;> simp only [Matras.addr, h'.slots, h'.config, h'.root]
  have hviews : m'.views = m.views := h'.views.trans h.views
  constructor
  case config => exact h'.config.trans h.config
  case views => exact fun v hv => hviews ▸ hv
  case kept =>
    intro v hv p hp
    rw [haddr]
    exact h.kept v (hviews ▸ hv) p hp
  case bytes =>
    intro x hx
    rw [h'.bytes]
    exact h.bytes x hx
  case head =>
    intro e he _
    rw [hhead, h'.bytes]
    exact ⟨h.head _ he, h.headBytes e he⟩
  case alone =>
    intro e he _ hal
    rw [hhead]
    exact h.alone _ he hal

theorem Matras.Dropped.keeps {A B : List MatrasView} {w next : MatrasView}
    {prev : Option MatrasView} (h : m.Dropped rs w next prev m') (hb : m.Between A w next prev B)
    (hviews : m'.views = A ++ B) : m.Keeps rs m' := by
  have haddr : ∀ v p, m'.addr v p = m.addr v p := by
    intro v p
    cases p <;> simp only [Matras.addr, h.slots, h.config]
  constructor
  case config => exact h.config
  case views =>
    intro v hv
    rw [hviews] at hv
    rw [hb.views]
    exact ((List.Sublist.refl A).append (List.sublist_cons_self w B)).subset hv
  case kept => exact fun v _ p _ => haddr v p
  case bytes => exact fun x _ => by rw [h.bytes]
  case head =>
    intro e _ _
    rw [h.head, haddr, h.bytes]
    exact ⟨Or.inl rfl, rfl⟩
  case alone =>
    intro e _ _ _
    rw [h.head, haddr]

theorem Matras.MemoryOk.keeps {slots : Nat → Nat → Nat} {bytes : Nat → Nat → UInt8}
    (h : m.MemoryOk slots bytes) (hi : m.Inv rs) :
    m.Keeps rs { m with slots := slots, bytes := bytes } := by
  have hw : m.Written { m with slots := slots, bytes := bytes } :=
    ⟨rfl, rfl, rfl, rfl, rfl, rfl, h.slots⟩
  constructor
  case config => rfl
  case views => exact fun v hv => hv
  case kept => exact fun v hv p hp => hw.addr hi (Matras.view_mem hv) hp
  case bytes => exact fun x hx => h.bytes x hx.1
  case head =>
    intro e he _
    have haddr := hw.addr hi m.head_mem he
    have hbytes := h.bytes _ (hi.owned _ m.head_mem _ he).1
    exact ⟨Or.inl haddr, (congrArg bytes haddr).trans hbytes⟩
  case alone => exact fun e he _ _ => hw.addr hi m.head_mem he

/-- The blocks from `id` on go. -/
theorem deallocTo_keeps (hi : m.Inv rs) (hid : id < m.head.blockCount)
    (hle : m.head.blockCount ≤ (m.config.extentOf id + 1) * m.config.perExtent)
    (ht : m.TouchSucceeds id) (heq : deallocTo m id = some m') :
    m.Keeps rs m' ∧ m'.head.blockCount = id := by
  obtain ⟨m₁, rs₁, m₂, -, hcp, -, heq₂, hsh⟩ := deallocTo_spec hi hid hle (ht.copies_le hi hid)
  rw [heq₂, Option.some.injEq] at heq
  subst heq
  exact ⟨hsh.keeps hcp, hsh.count⟩

/-- The call neither writes nor gives an address nor creates a view. -/
def MatrasOp.Plain : MatrasOp → Prop
  | .alloc _ | .allocRange .. | .touch .. | .createReadView _ | .write .. => False
  | _ => True

theorem matrasOp_keeps {op : MatrasOp} (hg : m.Good rs) (hal : op.Allowed m)
    (hex : op.exec m = some m') (hop : op.Plain) :
    m.Keeps rs m' ∧ m'.head.blockCount ≤ m.head.blockCount := by
  have hi := hg.inv
  cases op with
  | dealloc supply =>
      obtain ⟨hs, hpos, ht⟩ := hal
      have hi' := Matras.withSupply_inv hi hs
      have hlt : m.head.blockCount - 1 < m.head.blockCount := Nat.sub_lt hpos Nat.zero_lt_one
      rw [MatrasOp.exec, matrasDealloc_eq hi' hpos] at hex
      obtain ⟨h, hcount⟩ := deallocTo_keeps hi' hlt (m.config.le_extent_end _) ht hex
      exact ⟨h.of_withSupply, hcount ▸ Nat.le_of_lt hlt⟩
  | deallocRange supply rangeCount =>
      obtain ⟨hs, hr, hle, ht⟩ := hal
      have hi' := Matras.withSupply_inv hi hs
      have hr' : (m.withSupply supply).RangeOk rangeCount := ⟨hr.pos, hr.count, hr.extent⟩
      have hpos := Nat.pos_of_ne_zero hr.pos
      have hlt : m.head.blockCount - rangeCount < m.head.blockCount :=
        Nat.sub_lt (Nat.lt_of_lt_of_le hpos hle) hpos
      rw [MatrasOp.exec, matrasDeallocRange_eq hi' hr' hle] at hex
      obtain ⟨h, hcount⟩ := deallocTo_keeps hi' hlt (hr'.extent_le hi.config hle) ht hex
      exact ⟨h.of_withSupply, hcount ▸ Nat.le_of_lt hlt⟩
  | touchReserve supply count =>
      obtain ⟨hs, hcount⟩ := hal
      obtain ⟨ok, m₁, rs', heq, h, -⟩ :=
        matrasTouchReserve_spec (Matras.withSupply_inv hi hs) hcount
      simp only [MatrasOp.exec, heq, Option.map_eq_map, Option.map_some, Option.some.injEq] at hex
      subst hex
      exact ⟨h.blocks.keeps.of_withSupply, Nat.le_of_eq h.blocks.count⟩
  | destroyReadView key =>
      rw [MatrasOp.exec] at hex
      rcases matrasDestroyReadView_spec hi hg.keys key with ⟨-, heq⟩
        | ⟨A, w, next, prev, B, hb, -, ⟨-, heq⟩ | ⟨m₁, heq, hviews, h⟩⟩
      · rw [heq, Option.some.injEq] at hex
        subst hex
        exact ⟨(Matras.SameBlocks.of_sameTree (.refl m)).keeps, Nat.le_refl _⟩
      · rw [heq] at hex
        cases hex
      · rw [heq, Option.some.injEq] at hex
        subst hex
        exact ⟨h.keeps hb hviews, Nat.le_of_eq (congrArg _ h.head)⟩
  | memory slots bytes =>
      rw [MatrasOp.exec, Option.some.injEq] at hex
      subst hex
      exact ⟨hal.keeps hi, Nat.le_refl _⟩
  | alloc supply => exact hop.elim
  | allocRange supply rangeCount => exact hop.elim
  | touch supply id => exact hop.elim
  | createReadView key => exact hop.elim
  | write id offset byte => exact hop.elim

/-- No view has a new block where the head has it. -/
theorem Matras.Extended.apart (h : m.Extended rs n m' rs') (hi : m.Inv rs)
    (hle : m.head.blockCount ≤ id) (hlt : id < n) :
    m'.Apart id := by
  intro v hv hid he
  rw [h.views] at hv
  have hcov : m.Covers v (.leaf (m.config.extentOf id)) := .of_lt hid
  rw [h.config, h.kept v hv _ hcov] at he
  by_cases hhead : m.Covers m.head (.leaf (m.config.extentOf id))
  · -- the extent is shared, and so the head has all blocks that the view has there
    rw [h.head _ hhead] at he
    have hs := hi.sharing
    rw [Matras.all, List.map_cons] at hs
    have hmem : m.snap v ∈ m.views.map m.snap := List.mem_map_of_mem hv
    have hgrows := hs.grows _ _ ((List.singleton_sublist.2 hmem).cons_cons (m.snap m.head))
      _ ⟨hhead, hcov, he.symm⟩ id
      (MatrasConfig.below_iff.2 rfl) hid
    exact absurd hgrows (Nat.not_lt_of_le hle)
  · have hcov' : m'.Covers m'.head (.leaf (m.config.extentOf id)) := by
      rw [← h.config]
      exact .of_lt (h.count ▸ hlt)
    exact h.fresh _ hhead hcov' (he ▸ hi.owned v (Matras.view_mem hv) _ hcov)

theorem Matras.Private.apart (h : m.Private id) (hi : m.Inv rs) : m.Apart id := by
  intro v hv hid he
  refine h v hv id hid ?_
  rw [matrasGet, matrasViewGetNoCheck_eq hi.config, matrasViewGetNoCheck_eq hi.config]
  exact he

/-! ## The address that a touch returns -/

section Touched

variable {ptr : BlockPtr} {m₀ : Matras}

/-- A block of an extent that no view has stays where it is. -/
theorem Matras.Keeps.stays (h : m.Keeps rs m') (hi : m.Inv rs) (hid : id < m.head.blockCount)
    (hid' : id < m'.head.blockCount) (hal : m.Alone (.leaf (m.config.extentOf id))) :
    m'.Alone (.leaf (m'.config.extentOf id)) ∧ matrasGet m' id = matrasGet m id := by
  have hc : m'.config.Ok := by
    rw [h.config]
    exact hi.config
  have haddr :=
    h.alone (m.config.extentOf id) (.of_lt hid) (by rw [← h.config]; exact .of_lt hid') hal
  refine ⟨fun v hv hcov => ?_, ?_⟩
  · rw [Matras.Covers, h.config] at hcov
    rw [h.config, haddr, h.kept v hv _ hcov]
    exact hal v (h.views v hv) hcov
  · rw [matrasGet, matrasGet, matrasViewGetNoCheck_eq hc, matrasViewGetNoCheck_eq hi.config,
      h.config, haddr]

theorem Matras.Written.stays (h : m.Written m') (hi : m.Inv rs) (hid : id < m.head.blockCount)
    (hal : m.Alone (.leaf (m.config.extentOf id))) :
    m'.Alone (.leaf (m'.config.extentOf id)) ∧ matrasGet m' id = matrasGet m id := by
  have haddr := h.addr hi m.head_mem (.of_lt hid)
  refine ⟨fun v hv hcov => ?_, ?_⟩
  · rw [h.views] at hv
    rw [Matras.Covers, h.config] at hcov
    rw [h.config, h.head, haddr, h.addr hi (Matras.view_mem hv) hcov]
    exact hal v hv hcov
  · rw [matrasGet, matrasGet, matrasViewGetNoCheck_eq (h.inv hi).config,
      matrasViewGetNoCheck_eq hi.config, h.config, h.head, haddr]

theorem Matras.Effect.stays (h : m.Effect rs m' rs') (hi : m.Inv rs)
    (hviews : ∀ v ∈ m'.views, v ∈ m.views) (hid : id < m.head.blockCount)
    (hid' : id < m'.head.blockCount) (hal : m.Alone (.leaf (m.config.extentOf id))) :
    m'.Alone (.leaf (m'.config.extentOf id)) ∧ matrasGet m' id = matrasGet m id := by
  cases h with
  | refused h => exact h.blocks.keeps.stays hi hid hid' hal
  | extended n h => exact h.keeps.stays hi hid hid' hal
  | copied h => exact h.keeps.stays hi hid hid' hal
  | shrunk m₁ n h h' => exact (Matras.Shrunk.keeps h h').stays hi hid hid' hal
  | stocked h => exact h.blocks.keeps.stays hi hid hid' hal
  | viewed key hkey hm hrs =>
      -- the new view would be one of the old ones
      subst hm
      exact absurd rfl (hkey _ (hviews _ List.mem_cons_self))
  | dropped A v next prev B hb hAB h hrs => exact (h.keeps hb hAB).stays hi hid hid' hal
  | written h hrs => exact h.stays hi hid hal

/-- The runs from a state on in which no view is created and the block stays. -/
def Matras.runsFrom (m₀ : Matras) (id : Nat) : Machine Matras MatrasOp where
  init := (· = m₀)
  allowed := fun m op => op.Allowed m ∧
    ∀ m', op.exec m = some m' → (∀ v ∈ m'.views, v ∈ m.views) ∧ id < m'.head.blockCount
  exec := MatrasOp.exec

/--
The address that a touch returns stays the address of the block until a view is
created: only the pointers of allocations can become old ones (`GotCurrent`).
-/
theorem matrasTouch_stays (hs : (matrasMachine blockSize extentSize).Reachable m)
    (hal : (MatrasOp.touch supply id).Allowed m)
    (htouch : matrasTouch (m.withSupply supply) id = some (some ptr, m₀))
    (hr : (m₀.runsFrom id).Reachable m') :
    matrasGet m' id = ptr := by
  obtain ⟨rs, hg⟩ := matrasReachable_good hs
  obtain ⟨hsupply, hid⟩ := hal
  have hinv : (∃ rs, m'.Good rs) ∧ id < m'.head.blockCount ∧
      m'.Alone (.leaf (m'.config.extentOf id)) ∧ matrasGet m' id = ptr := by
    refine Machine.Reachable.of_step (m₀.runsFrom id)
      (P := fun m' => (∃ rs, m'.Good rs) ∧ id < m'.head.blockCount ∧
        m'.Alone (.leaf (m'.config.extentOf id)) ∧
        matrasGet m' id = ptr) (fun m₁ hm₁ => ?_) (fun m₁ op m₂ hP hal hex => ?_) hr
    · obtain rfl : m₁ = m₀ := hm₁
      rcases matrasTouch_spec (Matras.withSupply_inv hg.inv hsupply) hid with
        ⟨m₂, rs', heq, -, -⟩ | ⟨m₂, rs', heq, hcp, hiso, -⟩
      · rw [htouch] at heq
        cases heq
      · rw [htouch, Option.some.injEq, Prod.mk.injEq, Option.some.injEq] at heq
        obtain ⟨rfl, rfl⟩ := heq
        have hid' : id < m₁.head.blockCount := hcp.count.symm ▸ hid
        have hviews : m₁.views = m.views := hcp.views
        exact ⟨⟨rs', hcp.inv, hviews ▸ hg.keys⟩, hid', hiso.alone hid', rfl⟩
    · obtain ⟨⟨rs₁, hg₁⟩, hid₁, halone, hget⟩ := hP
      obtain ⟨hviews, hid₂⟩ := hal.2 m₂ hex
      obtain ⟨supply', rs₂, hfresh, heff⟩ := matrasStep_effect hg₁ hal.1 hex
      have hg' := Matras.withSupply_good hg₁ hfresh
      obtain ⟨halone', hget'⟩ := heff.stays hg'.inv hviews hid₁ hid₂ halone
      exact ⟨⟨rs₂, heff.good hg'⟩, hid₂, halone', hget'.trans hget⟩
  exact hinv.2.2.2

end Touched

/-! ## Writes -/

/-- Bytes of blocks have different offsets. -/
theorem MatrasConfig.offset_inj (c : MatrasConfig) {k l : Nat} (hk : k < c.blockSize)
    (hl : l < c.blockSize) (hext : c.extentOf i = c.extentOf id)
    (he : i % c.perExtent * c.blockSize + k = id % c.perExtent * c.blockSize + l) :
    i = id ∧ k = l := by
  have hpos : 0 < c.blockSize := Nat.lt_of_le_of_lt (Nat.zero_le k) hk
  have hdiv : ∀ {a j : Nat}, j < c.blockSize → (a * c.blockSize + j) / c.blockSize = a := by
    intro a j hj
    rw [Nat.mul_comm, Nat.mul_add_div hpos, Nat.div_eq_of_lt hj, Nat.add_zero]
  have hmod : i % c.perExtent = id % c.perExtent := by
    rw [← hdiv (a := i % c.perExtent) hk, he, hdiv hl]
  have h1 := Nat.div_add_mod i c.perExtent
  have h2 := Nat.div_add_mod id c.perExtent
  have h3 : i / c.perExtent = id / c.perExtent := hext
  rw [h3, hmod] at h1
  refine ⟨h1.symm.trans h2, ?_⟩
  rw [hmod] at he
  exact Nat.add_left_cancel he

section Write

variable {k offset : Nat} {byte : UInt8} (hi : m.Inv rs) (hid : id < m.head.blockCount)
    (hoff : offset < m.config.blockSize)
  (hk : k < m.config.blockSize)

include hi hid hoff hk

/-- A write changes a byte of a view exactly if the view has the block there. -/
theorem Matras.content_writeByte (hv : v ∈ m.all) (hlt : i < v.blockCount) :
    (m.writeByte (matrasGet m id) offset byte).content v i k =
      if m.addr v (.leaf (m.config.extentOf i)) = m.addr m.head (.leaf (m.config.extentOf id)) ∧
      i = id ∧ k = offset then byte
      else m.content v i k := by
  have hc : (m.writeByte (matrasGet m id) offset byte).config.Ok := hi.config
  have hget : matrasGet m id = ⟨m.addr m.head (.leaf (m.config.extentOf id)),
      id % m.config.perExtent * m.config.blockSize⟩ :=
    matrasViewGetNoCheck_eq hi.config m.head id
  rw [Matras.content_eq hc, Matras.content_eq hi.config, hget]
  show (if m.addr v (.leaf (m.config.extentOf i)) = m.addr m.head (.leaf (m.config.extentOf id)) ∧
    i % m.config.perExtent * m.config.blockSize + k =
    id % m.config.perExtent * m.config.blockSize + offset then byte else _) = _
  refine if_congr (and_congr_right fun he => ?_) rfl rfl
  have hpos := hi.inj hv m.head_mem (Matras.Covers.of_lt hlt) (Matras.Covers.of_lt hid) he
  have hext : m.config.extentOf i = m.config.extentOf id := by
    rwa [ExtentPos.leaf.injEq] at hpos
  constructor
  · exact fun h => m.config.offset_inj hk hoff hext h
  · rintro ⟨rfl, rfl⟩
    rfl

end Write

/-! ## Runs -/

/-- The state of a run. -/
structure MatrasClient.Good (c : MatrasClient) (rs : List Nat) : Prop where
  good : c.matras.Good rs
  apart : ∀ id ptr, (id, ptr) ∈ c.pointers → id < c.matras.head.blockCount → c.matras.Apart id
  saved : ∀ v ∈ c.matras.views, ∀ id < v.blockCount, ∀ k < c.matras.config.blockSize,
    c.matras.content v id k = c.saved v.key id k
  written : ∀ id < c.matras.head.blockCount, ∀ k < c.matras.config.blockSize, ∀ byte,
    c.written id k = some byte →
    c.matras.content c.matras.head id k = byte

namespace MatrasClient.Good

variable {c c' : MatrasClient}

theorem isolated (h : c.Good rs) : c.Isolated := by
  have hi := h.good.inv
  refine ⟨fun v hv id hid => ⟨fun x hx => ?_, h.saved v hv id hid⟩, h.written⟩
  obtain ⟨p, hp, rfl⟩ := (Matras.mem_path hi.config).1 hx
  exact (hi.owned v (Matras.view_mem hv) p (.of_path hp hid)).1

/-- Nothing new for the client. -/
theorem keeps (h : c.Good rs) (hg : m'.Good rs') (hk : c.matras.Keeps rs m')
    (hle : m'.head.blockCount ≤ c.matras.head.blockCount) :
    MatrasClient.Good { c with matras := m' } rs' := by
  have hi := h.good.inv
  constructor
  case good => exact hg
  case apart =>
    intro id ptr hmem hid
    exact hk.apart hi (Nat.lt_of_lt_of_le hid hle) hid
      (h.apart id ptr hmem (Nat.lt_of_lt_of_le hid hle))
  case saved =>
    intro v hv id hid k hlt
    have hlt' : k < c.matras.config.blockSize := hk.config ▸ hlt
    exact (hk.content hi hv hid k).trans (h.saved v (hk.views v hv) id hid k hlt')
  case written =>
    intro id hid k hlt byte hw
    have hlt' : k < c.matras.config.blockSize := hk.config ▸ hlt
    have hid' := Nat.lt_of_lt_of_le hid hle
    exact (hk.content_head hi hid' hid k).trans (h.written id hid' k hlt' byte hw)

/-- New blocks. -/
theorem receive (h : c.Good rs) (hg : m'.Good rs')
    (he : c.matras.Extended rs (c.matras.head.blockCount + n) m' rs') (ptr : BlockPtr) :
    (c.receive ptr c.matras.head.blockCount n m').Good rs' := by
  have hi := h.good.inv
  have hk := he.keeps
  have hcount : (c.receive ptr c.matras.head.blockCount n m').matras.head.blockCount =
      c.matras.head.blockCount + n := he.count
  constructor
  case good => exact hg
  case apart =>
    intro id q hmem hid
    by_cases hold : id < c.matras.head.blockCount
    · -- the block is an old one, and so is the pointer
      rcases List.mem_append.1 hmem with hnew | hmem
      · obtain ⟨k, -, hk⟩ := List.mem_map.1 hnew
        rw [Prod.mk.injEq] at hk
        omega
      · exact hk.apart hi hold hid (h.apart id q hmem hold)
    · exact he.apart hi (Nat.le_of_not_lt hold) (hcount ▸ hid)
  case saved =>
    intro v hv id hid k hlt
    have hlt' : k < c.matras.config.blockSize := hk.config ▸ hlt
    exact (hk.content hi hv hid k).trans (h.saved v (hk.views v hv) id hid k hlt')
  case written =>
    intro id hid k hlt byte hw
    have hlt' : k < c.matras.config.blockSize := hk.config ▸ hlt
    rw [hcount] at hid
    by_cases hold : id < c.matras.head.blockCount
    · have hw' : c.written id k = some byte := by
        rw [← hw]
        exact (congrFun (if_neg fun hr => Nat.not_lt_of_le hr.1 hold) k).symm
      exact (hk.content_head hi hold (he.count ▸ hid) k).trans (h.written id hold k hlt' byte hw')
    · have hnone : (c.receive ptr c.matras.head.blockCount n m').written id k = none :=
        congrFun (if_pos ⟨Nat.le_of_not_lt hold, hid⟩) k
      rw [hnone] at hw
      cases hw

theorem touched (h : c.Good rs) (hid : id < c.matras.head.blockCount) (hp : c.matras.Private id)
    (ptr : BlockPtr) :
    MatrasClient.Good { c with pointers := (id, ptr) :: c.pointers } rs := by
  refine ⟨h.good, fun i q hmem hi => ?_, h.saved, h.written⟩
  rcases List.mem_cons.1 hmem with heq | hmem
  · rw [Prod.mk.injEq] at heq
    obtain ⟨rfl, -⟩ := heq
    exact hp.apart h.good.inv
  · exact h.apart i q hmem hi

theorem viewed (h : c.Good rs) {key : Nat} (hkey : ∀ v ∈ c.matras.views, v.key ≠ key)
    (hc : c.call (.createReadView key) = some c') (hg : c'.matras.Good rs) : c'.Good rs := by
  rw [MatrasClient.call, Option.some.injEq] at hc
  subst hc
  refine ⟨hg, fun i q hmem => (by cases hmem), fun v hv id hid k hlt => ?_, h.written⟩
  rcases List.mem_cons.1 hv with rfl | hv
  · exact (congrFun (congrFun (if_pos rfl) id) k).symm
  · exact (h.saved v hv id hid k hlt).trans (congrFun (congrFun (if_neg (hkey v hv)) id) k).symm

/-- A write to the address of a block. -/
theorem write (h : c.Good rs) (hid : id < c.matras.head.blockCount) {offset : Nat}
    (hoff : offset < c.matras.config.blockSize) {ptr : BlockPtr} (hmay : c.GotCurrent id ptr)
    (byte : UInt8) : (c.write id ptr offset byte).Good rs := by
  obtain ⟨hgot, rfl⟩ := hmay
  have hi := h.good.inv
  have ha := h.apart id _ hgot hid
  have hw : c.matras.Written (c.matras.writeByte (matrasGet c.matras id) offset byte) :=
    ⟨rfl, rfl, rfl, rfl, rfl, rfl, fun _ _ => rfl⟩
  constructor
  case good => exact ⟨hw.inv hi, h.good.keys⟩
  case apart => exact h.apart
  case saved =>
    intro v hv i hlt k hk
    refine ((Matras.content_writeByte hi hid hoff hk (Matras.view_mem hv) hlt).trans
        (if_neg ?_)).trans (h.saved v hv i hlt k hk)
    rintro ⟨he, rfl, -⟩
    exact ha v hv hlt he
  case written =>
    intro i hlt k hk b hb
    refine (Matras.content_writeByte hi hid hoff hk c.matras.head_mem hlt).trans ?_
    have hb' : (if i = id ∧ k = offset then some byte else c.written i k) = some b := hb
    by_cases hsame : i = id ∧ k = offset
    · rw [if_pos hsame, Option.some.injEq] at hb'
      obtain ⟨rfl, rfl⟩ := hsame
      rw [if_pos ⟨rfl, rfl, rfl⟩, hb']
    · rw [if_neg hsame] at hb'
      rw [if_neg fun hr => hsame hr.2]
      exact h.written i hlt k hk b hb'

end MatrasClient.Good

section Step

variable {c : MatrasClient} {op : MatrasOp}

/-- A call that gives the client nothing new. -/
theorem MatrasClient.Good.other (h : c.Good rs) (hsmall : c.matras.config.capacity < 2 ^ 32)
    (hal : op.Allowed c.matras)
    (hcall : c.call op = (op.exec c.matras).map fun m => { c with matras := m })
    (hop : op.Plain) :
    ∃ c' rs', c.call op = some c' ∧ c'.Good rs' ∧ c'.matras.config = c.matras.config := by
  rcases matrasOp_spec h.good hal with ⟨hlarge, -⟩ | ⟨supply, m', rs', hfresh, heq, heff⟩
  · omega
  · obtain ⟨hk, hle⟩ := matrasOp_keeps h.good hal heq hop
    have hg := heff.good (Matras.withSupply_good h.good hfresh)
    exact ⟨{ c with matras := m' }, rs', by rw [hcall, heq]; rfl, h.keeps hg hk hle, heff.config⟩

/-- An allocation that fails. -/
theorem MatrasClient.Good.refused (h : c.Good rs)
    (hg : (c.matras.withSupply supply).Grown rs [] m' rs') :
    MatrasClient.Good { c with matras := m' } rs' := by
  have hviews : m'.views = c.matras.views := hg.blocks.views
  exact h.keeps ⟨hg.inv, hviews ▸ h.good.keys⟩ hg.blocks.keeps.of_withSupply
    (Nat.le_of_eq hg.blocks.count)

/-- An allocation that succeeds. -/
theorem MatrasClient.Good.extended (h : c.Good rs)
    (he : (c.matras.withSupply supply).Extended rs (c.matras.head.blockCount + n) m' rs')
    (ptr : BlockPtr) : (c.receive ptr c.matras.head.blockCount n m').Good rs' := by
  have hviews : m'.views = c.matras.views := he.views
  have he' : c.matras.Extended rs (c.matras.head.blockCount + n) m' rs' :=
    ⟨he.inv, he.config, he.views, he.count, he.bytes, he.kept, he.head, he.owns, he.fresh,
      he.counts.extents, he.counts.total, he.counts.views, he.counts.size⟩
  exact h.receive ⟨he.inv, hviews ▸ h.good.keys⟩ he' ptr

theorem MatrasClient.call_spec (h : c.Good rs) (hsmall : c.matras.config.capacity < 2 ^ 32)
    (hal : ClientOp.Allowed MatrasClient.GotCurrent c (.call op)) :
    ∃ c' rs', c.call op = some c' ∧ c'.Good rs' ∧ c'.matras.config = c.matras.config := by
  have hi := h.good.inv
  obtain ⟨hwrite, hal⟩ := hal
  cases op with
  | alloc supply =>
      have hi' := Matras.withSupply_inv hi hal
      rcases matrasAlloc_spec hi' with ⟨m', rs', heq, hg, -⟩ | ⟨m', rs', heq, he, -⟩
      · exact ⟨_, rs', by rw [MatrasClient.call, heq], h.refused hg, hg.blocks.config⟩
      · exact ⟨_, rs', by rw [MatrasClient.call, heq]; rfl, h.extended he _, he.config⟩
  | allocRange supply rangeCount =>
      have hi' := Matras.withSupply_inv hi hal.1
      have hr : (c.matras.withSupply supply).RangeOk rangeCount :=
        ⟨hal.2.pos, hal.2.count, hal.2.extent⟩
      rcases matrasAllocRange_spec hi' hr with ⟨m', rs', heq, hg, -⟩ | ⟨m', rs', heq, he, -⟩
      · exact ⟨_, rs', by rw [MatrasClient.call, heq], h.refused hg, hg.blocks.config⟩
      · exact ⟨_, rs', by rw [MatrasClient.call, heq]; rfl, h.extended he _, he.config⟩
  | touch supply id =>
      obtain ⟨hs, hid⟩ := hal
      have hi' := Matras.withSupply_inv hi hs
      have hgood : ∀ {m' rs'}, (c.matras.withSupply supply).Copied rs m' rs' →
          MatrasClient.Good { c with matras := m' } rs' := by
        intro m' rs' hcp
        have hviews : m'.views = c.matras.views := hcp.views
        exact h.keeps ⟨hcp.inv, hviews ▸ h.good.keys⟩ hcp.keeps.of_withSupply
          (Nat.le_of_eq hcp.count)
      rcases matrasTouch_spec hi' hid with ⟨m', rs', heq, -, hst⟩ | ⟨m', rs', heq, hcp, hiso, -⟩
      · exact ⟨_, rs', by rw [MatrasClient.call, heq], hgood hst.copied, hst.copied.config⟩
      · have hid' : id < m'.head.blockCount := by
          rw [hcp.count]
          exact hid
        exact ⟨_, rs', by rw [MatrasClient.call, heq],
          (hgood hcp).touched hid' (hiso.private hcp.inv hid') _, hcp.config⟩
  | createReadView key =>
      have hg : (matrasCreateReadView c.matras key).Good rs := by
        refine ⟨matrasCreateReadView_inv hi key, List.nodup_cons.2 ⟨fun hmem => ?_, h.good.keys⟩⟩
        obtain ⟨v, hv, he⟩ := List.mem_map.1 hmem
        exact hal v hv he
      exact ⟨_, rs, rfl, h.viewed hal rfl hg, rfl⟩
  | write id offset byte => cases hwrite
  | dealloc supply => exact h.other hsmall hal rfl trivial
  | deallocRange supply rangeCount => exact h.other hsmall hal rfl trivial
  | touchReserve supply count => exact h.other hsmall hal rfl trivial
  | destroyReadView key => exact h.other hsmall hal rfl trivial
  | memory slots bytes => exact h.other hsmall hal rfl trivial

end Step

/-- **Read views are isolated from the head.** In every run where the client writes through the
address of a block that a touch or an allocation gave it since the last view was created, each
view keeps the contents that it was created with, the head has the bytes that were written to
it, and every call returns. -/
theorem matras_views_isolated {c : MatrasClient}
    (hsize : 3 * extentSize.log2 - blockSize.log2 - 6 < 32)
    (hs : (clientMachine MatrasClient.GotCurrent blockSize extentSize).Reachable c) :
    c.Isolated ∧ ∀ op, ClientOp.Allowed MatrasClient.GotCurrent c op →
      ∃ c', op.exec c = some c' := by
  have hinv := (clientMachine MatrasClient.GotCurrent blockSize extentSize).invariant
    (P := fun c => (∃ rs, c.Good rs) ∧ c.matras.config.capacity < 2 ^ 32) (fun c hc => ?_)
    (fun c op hP hal => ?_) hs
  · obtain ⟨⟨⟨rs, hg⟩, -⟩, hops⟩ := hinv
    refine ⟨hg.isolated, fun op hal => ?_⟩
    obtain ⟨c', heq, -⟩ := hops op hal
    exact ⟨c', heq⟩
  · obtain ⟨hm, hp, -⟩ := hc
    obtain ⟨slots, bytes, root, hcreate⟩ := hm
    have hnew := matrasCreate_spec hcreate
    refine ⟨⟨[], hnew.good, fun id ptr hmem => ?_, fun v hv => ?_, fun id hid => ?_⟩,
      (matrasConfig_spec hnew.config).2 hsize⟩
    · rw [hp] at hmem
      cases hmem
    · rw [hnew.views] at hv
      cases hv
    · rw [hnew.count] at hid
      cases hid
  · obtain ⟨⟨rs, hg⟩, hsmall⟩ := hP
    cases op with
    | call op =>
        obtain ⟨c', rs', heq, hg', hc⟩ := MatrasClient.call_spec hg hsmall hal
        exact ⟨c', heq, ⟨rs', hg'⟩, hc ▸ hsmall⟩
    | write id ptr offset byte =>
        obtain ⟨hid, hoff, hmay⟩ := hal
        exact ⟨_, rfl, ⟨rs, hg.write hid hoff hmay byte⟩, hsmall⟩

/-! ## Runs on given inputs -/

instance (c : MatrasClient) (id : Nat) (ptr : BlockPtr) : Decidable (c.Got id ptr) :=
  inferInstanceAs (Decidable (_ ∈ _))

instance (c : MatrasClient) (id : Nat) (ptr : BlockPtr) : Decidable (c.GotCurrent id ptr) :=
  inferInstanceAs (Decidable (_ ∧ _))

section Given

variable (may : MatrasClient → Nat → BlockPtr → Prop) [∀ c id ptr, Decidable (may c id ptr)]

/-- Whether the client may do this; not for changes of memory. -/
def ClientOp.check (c : MatrasClient) : ClientOp → Bool
  | .call op => !op.isWrite && op.check c.matras
  | .write id ptr offset _ => decide (id < c.matras.head.blockCount) && decide (offset <
        c.matras.config.blockSize) && decide (may c id ptr)

theorem ClientOp.allowed_of_check {c : MatrasClient} {op : ClientOp} (h : op.check may c = true) :
    op.Allowed may c := by
  cases op with
  | call op =>
      rw [ClientOp.check, Bool.and_eq_true, Bool.not_eq_true'] at h
      exact ⟨h.1, MatrasOp.allowed_of_check h.2⟩
  | write id ptr offset byte =>
      simp only [ClientOp.check, Bool.and_eq_true, decide_eq_true_eq] at h
      exact ⟨h.1.1, h.1.2, h.2⟩

/-- The run of a list of steps from a new matras in an empty memory. -/
def clientRun (blockSize extentSize : Nat) (ops : List ClientOp) : Option MatrasClient :=
  (matrasCreate blockSize extentSize (fun _ _ => 0) (fun _ _ => 0) 0).bind fun m =>
    (clientMachine may blockSize extentSize).run (ClientOp.check may) ops
      { matras := m, pointers := [], written := fun _ _ => none, saved := fun _ _ _ => 0 }

theorem clientRun_reachable {ops : List ClientOp} {c : MatrasClient}
    (h : clientRun may blockSize extentSize ops = some c) :
    (clientMachine may blockSize extentSize).Reachable c := by
  obtain ⟨m₀, hinit, hrun⟩ := Option.bind_eq_some_iff.1 h
  exact Machine.Reachable.run _ (fun _ _ => ClientOp.allowed_of_check may) ops
    (.init ⟨⟨_, _, _, hinit⟩, rfl, rfl⟩) hrun

end Given

/-- A block of a view is touched and written: the view and the head have different bytes. -/
theorem matras_views_isolated_write :
    ∃ c, clientRun MatrasClient.GotCurrent 8 16 [.call (.alloc [some 1, some 2, some 3]),
      .write 0 ⟨3, 0⟩ 0 5, .call (.createReadView 1), .call (.touch [some 4, some 5, some 6] 0),
      .write 0 ⟨6, 0⟩ 0 7] = some c ∧
    c.saved 1 0 0 = 5 ∧ c.written 0 0 = some 7 ∧ c.Isolated := by
  have hrun : (clientRun MatrasClient.GotCurrent 8 16 [.call (.alloc [some 1, some 2, some 3]),
      .write 0 ⟨3, 0⟩ 0 5,
      .call (.createReadView 1), .call (.touch [some 4, some 5, some 6] 0),
      .write 0 ⟨6, 0⟩ 0 7]).map
      (fun c => (c.saved 1 0 0, c.written 0 0)) = some (5, some 7) := by decide +kernel
  obtain ⟨c, heq, hval⟩ := Option.map_eq_some_iff.1 hrun
  rw [Prod.mk.injEq] at hval
  have h := (matras_views_isolated (by decide) (clientRun_reachable _ heq)).1
  exact ⟨c, heq, hval.1, hval.2, h⟩

/-- The address of a new block is an old one after another block of the extent is touched. What
is written there is not in the head. -/
theorem matras_write_lost : 3 * Nat.log2 16 - Nat.log2 8 - 6 < 32 ∧
    ¬ ∀ c, (clientMachine MatrasClient.Got 8 16).Reachable c → c.Isolated := by
  refine ⟨by decide, fun hall => ?_⟩
  have hrun : (clientRun MatrasClient.Got 8 16 [.call (.alloc [some 1, some 2, some 3]),
      .call (.createReadView 1),
      .call (.alloc []), .call (.touch [some 4, some 5, some 6] 0), .write 1 ⟨3, 8⟩ 0 7]).map
      (fun c => (c.matras.head.blockCount, c.matras.config.blockSize, c.written 1 0,
        c.matras.bytes (matrasGet c.matras 1).extent ((matrasGet c.matras 1).offset + 0))) =
        some (2, 8, some 7, 0) := by decide +kernel
  obtain ⟨c, heq, hval⟩ := Option.map_eq_some_iff.1 hrun
  simp only [Prod.mk.injEq] at hval
  obtain ⟨hcount, hblock, hwritten, hbyte⟩ := hval
  have h := (hall c (clientRun_reachable _ heq)).head 1 (by rw [hcount]; decide) 0
    (by rw [hblock]; decide) 7 hwritten
  rw [hbyte] at h
  exact absurd h (by decide)

end SmallAllocators
