/-
SmallAllocators.Lsregion.GcRuns — runs of the log structured allocator with
arbitrary reservations and garbage collection of arbitrary ids.

The clients allocate chunks with nondecreasing ids. `gcMachine` has all such
runs, and `gcMachineNoWrap` those in which no address or size computation
wraps around; there `lsregion_gc` frees the slabs that it should and no
others. In `gcMachine` a chunk of `SIZE_MAX` bytes seems to fit in a slab.
-/
import SmallAllocators.Lsregion.Gc
import SmallAllocators.Lsregion.Runs

namespace SmallAllocators

open Memory

variable {β : Type}

/-! ## The machine -/

inductive GcOp (β : Type) where
  | alloc (size : Nat) (id : Int) (data : Nat → β) (answer : Option Nat)
  | alignedAlloc (size k : Nat) (id : Int) (data : Nat → β) (answer : Option Nat)
  | reserve (size : Nat) (answer : Option Nat)
  | alignedReserve (size k : Nat) (answer : Option Nat)
  | gc (minId : Int)
  /-- Memory without chunks changes: slab headers, other users of the memory, and clients in what
  they reserved. -/
  | write (mem : Nat → β)

/-- What the arena or `malloc` may return: memory in the lower half of the address space, of the
size asked for and not in use already. -/
def Lsregion.LowAnswer (arenaSize : Nat) (region : Lsregion) (size alignment : Nat)
    (answer : Option Nat) : Prop :=
  region.Answer arenaSize size alignment answer ∧
  ∀ addr, answer = some addr → addr + max arenaSize (newSlabSize size alignment) < 2 ^ 63

instance Lsregion.LowAnswer.decidable (arenaSize : Nat) (region : Lsregion) (size alignment : Nat)
    (answer : Option Nat) :
    Decidable (region.LowAnswer arenaSize size alignment answer) :=
  inferInstanceAs (Decidable (_ ∧ ∀ addr ∈ answer, _))

/-- What the clients promise, and what the arena and `malloc` may answer; alignments are `2 ^ k`. -/
def GcOp.Allowed (arenaSize : Nat) (s : GcState β) : GcOp β → Prop
  | .alloc size id _ answer =>
      1 ≤ size ∧ size < sizeMax ∧ s.lastId ≤ id ∧ id ≤ int64Max ∧
        s.region.LowAnswer arenaSize size 1 answer
  | .alignedAlloc size k id _ answer =>
      1 ≤ size ∧ size < sizeMax ∧ k < 64 ∧ s.lastId ≤ id ∧ id ≤ int64Max ∧
      s.region.LowAnswer arenaSize size (2 ^ k) answer
  | .reserve size answer => size < sizeMax ∧ s.region.LowAnswer arenaSize size 1 answer
  | .alignedReserve size k answer => size < sizeMax ∧ k < 64 ∧
      s.region.LowAnswer arenaSize size (2 ^ k) answer
  | .gc _ => True
  | .write mem => ∀ t ∈ s.region.slabs, ∀ c ∈ s.chunks t.slabId,
      read mem c.addr c.bytes.length = read s.mem c.addr c.bytes.length

/-- No address or size computation of the call wraps around. -/
def GcOp.NoWrap (s : GcState β) : GcOp β → Prop
  | .alloc size _ _ _ => s.region.NoWrap size 1
  | .alignedAlloc size k _ _ _ => s.region.NoWrap size (2 ^ k)
  | .reserve size _ => s.region.NoWrap size 1
  | .alignedReserve size k _ => s.region.NoWrap size (2 ^ k)
  | .gc _ => True
  | .write _ => True

instance GcOp.Allowed.decidable [DecidableEq β] {arenaSize : Nat} (s : GcState β) :
    (op : GcOp β) → Decidable (op.Allowed arenaSize s)
  | .alloc _ _ _ _ => inferInstanceAs (Decidable (_ ∧ _ ∧ _ ∧ _ ∧ _))
  | .alignedAlloc _ _ _ _ _ => inferInstanceAs (Decidable (_ ∧ _ ∧ _ ∧ _ ∧ _ ∧ _))
  | .reserve _ _ => inferInstanceAs (Decidable (_ ∧ _))
  | .alignedReserve _ _ _ => inferInstanceAs (Decidable (_ ∧ _ ∧ _))
  | .gc _ => inferInstanceAs (Decidable True)
  | .write _ =>
      inferInstanceAs (Decidable (∀ t ∈ s.region.slabs, ∀ c ∈ s.chunks t.slabId, _ = _))

instance GcOp.NoWrap.decidable (s : GcState β) : (op : GcOp β) → Decidable (op.NoWrap s)
  | .alloc _ _ _ _ => inferInstanceAs (Decidable (s.region.NoWrap _ _))
  | .alignedAlloc _ _ _ _ _ => inferInstanceAs (Decidable (s.region.NoWrap _ _))
  | .reserve _ _ => inferInstanceAs (Decidable (s.region.NoWrap _ _))
  | .alignedReserve _ _ _ => inferInstanceAs (Decidable (s.region.NoWrap _ _))
  | .gc _ => inferInstanceAs (Decidable True)
  | .write _ => inferInstanceAs (Decidable True)

/-- The state after an allocation that returned `r`. -/
def GcState.allocated (s : GcState β) (r : Option Reservation) (region : Lsregion) (size : Nat)
    (id : Int) (data : Nat → β) : GcState β :=
  match r with
  | none => { s with region := region }
  | some r => s.place region r size id data

def GcOp.exec (arenaSize : Nat) (s : GcState β) : GcOp β → Option (GcState β)
  | .alloc size id data answer => do
    let (r, region) ← lsregionAlloc arenaSize s.region size id answer
    some (s.allocated r region size id data)
  | .alignedAlloc size k id data answer => do
    let (r, region) ← lsregionAlignedAlloc arenaSize s.region size (2 ^ k) id answer
    some (s.allocated r region size id data)
  | .reserve size answer => do
    let (_, region) ← lsregionReserve arenaSize s.region size answer
    some { s with region := region }
  | .alignedReserve size k answer => do
    let (_, region) ← lsregionAlignedReserve arenaSize s.region size (2 ^ k) answer
    some { s with region := region }
  | .gc minId => some { s with region := lsregionGc arenaSize s.region minId }
  | .write mem => some { s with mem := mem }

def GcState.Init (arenaSize : Nat) (s : GcState β) : Prop :=
  lsregionCreate arenaSize = some s.region ∧ (∀ i, s.chunks i = []) ∧ s.lastId = 0

/-- The runs of a region on an arena with slabs of `arenaSize` bytes. -/
def gcMachine (β : Type) (arenaSize : Nat) : Machine (GcState β) (GcOp β) where
  init := GcState.Init arenaSize
  allowed := GcOp.Allowed arenaSize
  exec := GcOp.exec arenaSize

/-- The runs in which no address or size computation wraps around. -/
def gcMachineNoWrap (β : Type) (arenaSize : Nat) : Machine (GcState β) (GcOp β) where
  init := GcState.Init arenaSize
  allowed := fun s op => op.Allowed arenaSize s ∧ op.NoWrap s
  exec := GcOp.exec arenaSize

/-! ## Each call keeps the invariant -/

variable {arenaSize size k : Nat} {s : GcState β} {answer : Option Nat} {id : Int}

theorem GcState.Init.inv (h : s.Init arenaSize) : s.Inv arenaSize := by
  obtain ⟨hregion, hchunks, hlast⟩ := h
  unfold lsregionCreate at hregion
  by_cases h48 : arenaSize > lslabSizeof
  · have hr : s.region = { slabs := [], cached := none, slabId := 0, used := 0, total := 0,
                           calls := ⟨[], [], [], []⟩ } := by
      simpa [guard, h48] using hregion.symm
    have hinv : s.region.Inv arenaSize (2 ^ 63) := Lsregion.Inv.empty (by rw [hr]) (by rw [hr])
    constructor
    case region => exact hinv
    all_goals simp [hr, Lsregion.blocks, Lsregion.held, hchunks, hlast, int64Max, Owns.nil]
  · simp [guard, h48] at hregion

/-- In the lower half of the address space, the start of a new slab can be aligned. -/
theorem GcState.Inv.canAlign (h : s.Inv arenaSize) (hk : k < 64)
    (hans : s.region.LowAnswer arenaSize size (2 ^ k) answer)
    (hwrap : s.region.NoWrap size (2 ^ k)) :
    s.region.CanAlign arenaSize size k answer := by
  have hpow : 2 ^ k ≤ 2 ^ 63 := Nat.pow_le_pow_right (by omega) (by omega)
  have hslab := newSlabSize_eq (Nat.two_pow_pos k) hwrap.slab
  have hpos := Nat.two_pow_pos k
  constructor
  · intro addr haddr
    have hlow := hans.2 addr haddr
    have hle : newSlabSize size (2 ^ k) ≤ max arenaSize (newSlabSize size (2 ^ k)) :=
      le_max_right _ _
    simp only [sizeMax]
    omega
  · intro t ht hle
    have hlow := h.region.cached_last ht
    have hsize := h.region.cached t ht
    simp only [sizeMax, Lslab.last] at *
    omega

/-- `lsregion_aligned_reserve` finds room in the last slab, or returns `NULL` and changes
nothing. -/
theorem GcState.Inv.reserve (h : s.Inv arenaSize) (hk : k < 64)
    (hwrap : s.region.NoWrap size (2 ^ k))
    (hans : s.region.LowAnswer arenaSize size (2 ^ k) answer) :
    lsregionAlignedReserve arenaSize s.region size (2 ^ k) answer = some (none, s.region) ∨
    ∃ r region t, lsregionAlignedReserve arenaSize s.region size (2 ^ k) answer =
    some (some r, region) ∧
      region.Reserved size k r t ∧ GcState.Inv arenaSize { s with region := region } := by
  rcases lsregionAlignedReserve_cases h.layout hwrap hans.1 (h.canAlign hk hans hwrap) with
    ⟨heq, -⟩ | ⟨r, t, heq, hr⟩ | ⟨addr, n, total, cached, calls, r, hnew, hgets, -, heq, hr⟩
  · exact Or.inl heq
  · exact Or.inr ⟨r, s.region, t, heq, hr, h⟩
  · refine Or.inr ⟨r, _, _, heq, hr, h.addSlab hnew hgets ?_⟩
    rcases hgets.origin with ⟨t, ht, rfl, rfl⟩ | ⟨haddr, hle⟩
    · exact h.region.cached_last ht
    · have := hans.2 addr haddr
      omega

/-- `lsregion_aligned_alloc`. -/
theorem lsregionAlignedAlloc_inv (h : s.Inv arenaSize) (hk : k < 64)
    (hwrap : s.region.NoWrap size (2 ^ k))
    (hans : s.region.LowAnswer arenaSize size (2 ^ k) answer) (hid : s.lastId ≤ id)
    (hmax : id ≤ int64Max) (data : Nat → β) :
    ∃ r region, lsregionAlignedAlloc arenaSize s.region size (2 ^ k) id answer = some (r, region) ∧
      (s.allocated r region size id data).Inv arenaSize := by
  rcases h.reserve hk hwrap hans with heq | ⟨r, region, t, heq, hr, hinv⟩
  · refine ⟨none, s.region, ?_, h⟩
    unfold lsregionAlignedAlloc
    rw [heq]
    rfl
  · obtain ⟨region', huse, hinv'⟩ := hinv.useLast hr hid hmax data
    refine ⟨some r, region', ?_, hinv'⟩
    have hmod : (size + (r.pos - r.unaligned)) % sizeMax = r.pos - r.unaligned + size := by
      have hend := hinv.region.slab_last (List.mem_of_getLast? hr.last)
      have hfits := hr.fits
      rw [Nat.mod_eq_of_lt (by simp only [sizeMax]; omega), Nat.add_comm]
    unfold lsregionAlignedAlloc
    rw [heq]
    simp only [Option.bind_eq_bind, Option.bind_some, hmod]
    rw [show region.useLast (r.pos - r.unaligned + size) id = some region' from huse]
    rfl

/-- `lsregion_reserve`. -/
theorem lsregionReserve_inv (h : s.Inv arenaSize) (hwrap : s.region.NoWrap size 1)
    (hans : s.region.LowAnswer arenaSize size 1 answer) :
    lsregionReserve arenaSize s.region size answer = some (none, s.region) ∨
    ∃ r region t, lsregionReserve arenaSize s.region size answer = some (some r, region) ∧
      region.Reserved size 0 r t ∧ GcState.Inv arenaSize { s with region := region } := by
  rcases h.reserve (k := 0) (by decide) hwrap hans with heq | ⟨r, region, t, heq, hr, hinv⟩
  · exact Or.inl (lsregionReserve_of_aligned heq (by simp))
  · have hpos := hr.pos_eq
    exact Or.inr ⟨r, region, t, lsregionReserve_of_aligned heq (by simpa using hpos), hr, hinv⟩

/-- `lsregion_alloc`. -/
theorem lsregionAlloc_inv (h : s.Inv arenaSize) (hwrap : s.region.NoWrap size 1)
    (hans : s.region.LowAnswer arenaSize size 1 answer) (hid : s.lastId ≤ id) (hmax : id ≤ int64Max)
    (data : Nat → β) :
    ∃ r region, lsregionAlloc arenaSize s.region size id answer = some (r, region) ∧
      (s.allocated r region size id data).Inv arenaSize := by
  unfold lsregionAlloc
  rcases lsregionReserve_inv h hwrap hans with heq | ⟨r, region, t, heq, hr, hinv⟩
  · rw [heq]
    exact ⟨none, s.region, rfl, h⟩
  · obtain ⟨region', huse, hinv'⟩ := hinv.useLast hr hid hmax data
    rw [hr.pos_eq, Nat.sub_self, Nat.zero_add] at huse
    rw [heq]
    simp only [Option.bind_eq_bind, Option.bind_some]
    rw [show region.useLast size id = some region' from huse]
    exact ⟨some r, region', rfl, hinv'⟩

/-- Memory without chunks may change. -/
theorem GcState.Inv.setMem (h : s.Inv arenaSize) {mem : Nat → β}
    (hmem : ∀ t ∈ s.region.slabs, ∀ c ∈ s.chunks t.slabId,
      read mem c.addr c.bytes.length = read s.mem c.addr c.bytes.length) :
    GcState.Inv arenaSize { s with mem := mem } :=
  { h with
    holds := fun t ht =>
      { h.holds t ht with
        placed := fun c hc =>
          { (h.holds t ht).placed c hc with
            bytes := (hmem t ht c hc).trans ((h.holds t ht).placed c hc).bytes } } }

theorem GcOp.exec_inv (h : s.Inv arenaSize) (op : GcOp β) (hop : op.Allowed arenaSize s)
    (hwrap : op.NoWrap s) :
    ∃ s', op.exec arenaSize s = some s' ∧ s'.Inv arenaSize := by
  cases op with
  | alloc size id data answer =>
      obtain ⟨-, -, hid, hmax, hans⟩ := hop
      obtain ⟨r, region, heq, hinv⟩ := lsregionAlloc_inv h hwrap hans hid hmax data
      exact ⟨_, by simp only [GcOp.exec, heq]; rfl, hinv⟩
  | alignedAlloc size k id data answer =>
      obtain ⟨-, -, hk, hid, hmax, hans⟩ := hop
      obtain ⟨r, region, heq, hinv⟩ := lsregionAlignedAlloc_inv h hk hwrap hans hid hmax data
      exact ⟨_, by simp only [GcOp.exec, heq]; rfl, hinv⟩
  | reserve size answer =>
      rcases lsregionReserve_inv h hwrap hop.2 with heq | ⟨r, region, t, heq, -, hinv⟩
      · exact ⟨_, by simp only [GcOp.exec, heq]; rfl, h⟩
      · exact ⟨_, by simp only [GcOp.exec, heq]; rfl, hinv⟩
  | alignedReserve size k answer =>
      rcases h.reserve hop.2.1 hwrap hop.2.2 with heq | ⟨r, region, t, heq, -, hinv⟩
      · exact ⟨_, by simp only [GcOp.exec, heq]; rfl, h⟩
      · exact ⟨_, by simp only [GcOp.exec, heq]; rfl, hinv⟩
  | gc minId => exact ⟨_, rfl, (lsregionGc_exact h minId).1⟩
  | write mem => exact ⟨_, rfl, h.setMem hop⟩

/-! ## Garbage collection keeps what it must -/

/-- The slabs that `lsregion_gc` leaves and those that it frees. -/
structure GcState.Collects (s : GcState β) (minId : Int) (region : Lsregion)
    (freed : List Lslab) : Prop where
  slabs : s.region.slabs = freed ++ region.slabs
  freed : ∀ t ∈ freed, t.maxId ≤ minId
  /-- The run of slabs that are freed is the longest one. -/
  longest : ∀ t, region.slabs.head? = some t → minId < t.maxId
  /-- A chunk with a larger id stays in its slab, with its bytes. -/
  keeps : ∀ t ∈ s.region.slabs, ∀ c ∈ s.chunks t.slabId, minId < c.id →
    t ∈ region.slabs ∧ c.In s.mem t

/-- The statistics and the chunks of the region `s` are right, and garbage collection keeps what it
must. -/
structure GcState.Exact (M : Machine (GcState β) (GcOp β)) (arenaSize : Nat) (s : GcState β) :
    Prop where
  placed : ∀ t ∈ s.region.slabs, ∀ c ∈ s.chunks t.slabId, c.In s.mem t
  used : lsregionUsed s.region =
    (s.region.slabs.map fun t => ((s.chunks t.slabId).map Placed.padded).sum).sum
  total : lsregionTotal s.region =
    (s.region.slabs.map Lslab.slabSize).sum + (s.region.cached.map Lslab.slabSize).getD 0
  cached : ∀ t, s.region.cached = some t → t.slabSize = arenaSize
  ids : s.region.slabs.Pairwise fun t u => t.slabId < u.slabId
  gc : ∀ minId, ∃ freed, s.Collects minId (lsregionGc arenaSize s.region minId) freed
  /-- `lsregion_destroy` gives back all slabs, each once and to where it came from. -/
  destroy : (lsregionDestroy arenaSize s.region).calls.unmaps.Perm
    (lsregionDestroy arenaSize s.region).calls.maps ∧
    (lsregionDestroy arenaSize s.region).calls.frees.Perm
      (lsregionDestroy arenaSize s.region).calls.mallocs
  returns : ∀ op, M.allowed s op → ∃ s', M.exec s op = some s'

theorem GcState.Inv.collects (h : s.Inv arenaSize) (minId : Int) :
    ∃ freed, s.Collects minId (lsregionGc arenaSize s.region minId) freed := by
  obtain ⟨-, hslabs⟩ := lsregionGc_exact h minId
  refine ⟨s.region.slabs.takeWhile fun t => t.maxId ≤ minId,
    ?_, fun t ht => ?_, fun t ht => ?_, fun t ht c hc hid => ?_⟩
  · rw [hslabs, List.takeWhile_append_dropWhile]
  · simpa using List.mem_takeWhile_imp ht
  · rw [hslabs] at ht
    have := List.head?_dropWhile_not (fun t : Lslab => decide (t.maxId ≤ minId)) s.region.slabs
    rw [ht] at this
    simpa using this
  · refine ⟨?_, (h.holds t ht).placed c hc⟩
    have hmax := (h.holds t ht).ids c hc
    rw [← List.takeWhile_append_dropWhile (p := fun t : Lslab => decide (t.maxId ≤ minId))
      (l := s.region.slabs)] at ht
    rcases List.mem_append.mp ht with ht | ht
    · have := List.mem_takeWhile_imp ht
      simp only [decide_eq_true_eq] at this
      omega
    · exact hslabs ▸ ht

theorem GcState.Inv.exact {M : Machine (GcState β) (GcOp β)} (h : s.Inv arenaSize)
    (hret : ∀ op, M.allowed s op → ∃ s', M.exec s op = some s') : s.Exact M arenaSize := by
  constructor
  case placed => exact fun t ht c hc => (h.holds t ht).placed c hc
  case used =>
    rw [lsregionUsed, h.used]
    refine congrArg List.sum (List.map_congr_left fun t ht => ?_)
    rw [(h.holds t ht).used, Nat.add_sub_cancel_left]
  case total =>
    rw [lsregionTotal, h.owns.total, Lsregion.held, Lsregion.blocks, List.map_map,
      List.map_append, List.sum_append]
    congr 1
    cases s.region.cached <;> simp
  case cached => exact h.region.cached
  case ids => exact h.region.ids
  case gc => exact h.collects
  case destroy => exact lsregionDestroy_exact h
  case returns => exact hret

/-- **`lsregion_gc` keeps exactly what it must**, in every run in which no address or size
computation wraps around. -/
theorem lsregion_gc_exact (arenaSize : Nat) (s : GcState β)
    (hs : (gcMachineNoWrap β arenaSize).Reachable s) :
    s.Exact (gcMachineNoWrap β arenaSize) arenaSize := by
  obtain ⟨h, hstep⟩ := (gcMachineNoWrap β arenaSize).invariant (P := GcState.Inv arenaSize)
    (fun _ => GcState.Init.inv) (fun _ op h hop => GcOp.exec_inv h op hop.1 hop.2) hs
  refine h.exact fun op hop => ?_
  obtain ⟨s', heq, -⟩ := hstep op hop
  exact ⟨s', heq⟩

/-- A new region. -/
def newGcState : GcState UInt8 where
  region := newRegion.region
  mem := fun _ => 0
  chunks := fun _ => []
  lastId := 0

/-- Two slabs of the arena and one from `malloc`. The first one is collected, with the chunk in
it. -/
def twoSlabsOfThree : List (GcOp UInt8) :=
  [.alloc 10 0 (fun _ => 1) (some 1024), .alloc 10 1 (fun _ => 2) (some 2048),
    .alignedAlloc 20 3 2 (fun _ => 3) (some 4096), .gc 0]

theorem lsregion_gc_exact_two_slabs :
    ∃ s, (gcMachineNoWrap UInt8 64).Reachable s ∧ s.region.slabs.map Lslab.addr = [2048, 4096] ∧
      s.region.cached.map Lslab.addr = some 1024 ∧ s.Exact (gcMachineNoWrap UInt8 64) 64 := by
  have hrun : ((gcMachineNoWrap UInt8 64).run (fun s op => decide (op.Allowed 64 s ∧ op.NoWrap s))
      twoSlabsOfThree newGcState).map (fun s =>
        (s.region.slabs.map Lslab.addr, s.region.cached.map Lslab.addr)) =
        some ([2048, 4096], some 1024) := by
    decide +kernel
  obtain ⟨s, hs, heq⟩ := Option.map_eq_some_iff.1 hrun
  rw [Prod.mk.injEq] at heq
  have hreach := Machine.Reachable.run (gcMachineNoWrap UInt8 64)
    (fun _ _ h => (decide_eq_true_iff (p := _ ∧ _)).1 h) twoSlabsOfThree
    (.init (s := newGcState) ⟨rfl, fun _ => rfl, rfl⟩) hs
  exact ⟨s, hreach, heq.1, heq.2, lsregion_gc_exact 64 s hreach⟩

/-- The state after the allocation of one byte. -/
def oneChunkGcState : GcState UInt8 :=
  newGcState.place oneChunk { pos := 8240, unaligned := 8240 } 1 0 fun _ => 0

theorem newGcState_init : GcState.Init 4096 newGcState := ⟨rfl, fun _ => rfl, rfl⟩

theorem oneChunkGcState_allowed :
    GcOp.Allowed 4096 newGcState (.alloc 1 0 (fun _ => 0) (some 8192)) := by
  refine ⟨by decide, by decide, by decide, by
    decide, fun addr haddr => ?_, fun addr haddr => ?_⟩ <;>
    rw [Option.some.injEq] at haddr <;> subst haddr
  · exact ⟨by decide, fun t ht => absurd ht List.not_mem_nil⟩
  · decide

theorem oneChunkGcState_exec :
    GcOp.exec 4096 newGcState (.alloc 1 0 (fun _ => 0) (some 8192)) = some oneChunkGcState := by
  rw [GcOp.exec, show newGcState.region = newRegion.region from rfl, oneChunk_alloc]
  rfl

/-- The state after an allocation of `SIZE_MAX` bytes. -/
def wrappedGcState : GcState UInt8 :=
  oneChunkGcState.place wrappedChunk { pos := 8248, unaligned := 8241 } (sizeMax - 1) 0 fun _ => 0

theorem wrappedGcState_chunks : wrappedGcState.chunks 1 = oneChunkGcState.chunks 1 ++
    [{ id := 0, addr := 8248, pad := 7, bytes := (List.range (sizeMax - 1)).map fun _ => 0 }] := by
  have hid : wrappedChunk.lastSlabId = 1 := rfl
  unfold wrappedGcState GcState.place
  simp only [hid, Function.update_self]

theorem wrappedGcState_exec :
    GcOp.exec 4096 oneChunkGcState (.alignedAlloc (sizeMax - 1) 3 0 (fun _ => 0) none) =
      some wrappedGcState := by
  rw [GcOp.exec, show oneChunkGcState.region = oneChunk from rfl, show 2 ^ 3 = 8 from rfl,
    wrappedChunk_alloc]
  rfl

theorem padded_replicate (id : Int) (addr pad n : Nat) :
    Placed.padded ({ id := id, addr := addr, pad := pad, bytes := (List.range n).map fun _ =>
        0 } : Placed UInt8) = pad + n := by
  simp [Placed.padded]

/-- **Where a computation wraps around, the statistics are wrong**: after an allocation of
`SIZE_MAX` bytes, 7 bytes are in use. -/
theorem lsregion_used_of_wrap :
    ¬ ∀ s, (gcMachine UInt8 4096).Reachable s → s.Exact (gcMachine UInt8 4096) 4096 := by
  intro hall
  have hone : (gcMachine UInt8 4096).Reachable oneChunkGcState :=
    .step (.alloc 1 0 (fun _ => 0) (some 8192))
      (.init newGcState_init) oneChunkGcState_allowed oneChunkGcState_exec
  have hallowed :
      GcOp.Allowed 4096 oneChunkGcState (.alignedAlloc (sizeMax - 1) 3 0 (fun _ => 0) none) :=
    ⟨by decide, by decide, by decide, by decide, by decide, by simp [Lsregion.Answer], by simp⟩
  have hused :=
    (hall wrappedGcState (.step (.alignedAlloc (sizeMax - 1) 3 0 (fun _ => 0) none) hone hallowed
    wrappedGcState_exec)).used
  have hregion : wrappedGcState.region = wrappedChunk := rfl
  have hseven : lsregionUsed wrappedChunk = 7 := rfl
  have hslabs :
      wrappedChunk.slabs.map (fun t => ((wrappedGcState.chunks t.slabId).map Placed.padded).sum) =
      [((wrappedGcState.chunks 1).map Placed.padded).sum] := List.map_singleton
  have hmax : 1 ≤ sizeMax - 1 := by decide
  rw [hregion, hseven, hslabs, List.sum_singleton, wrappedGcState_chunks, List.map_append,
    List.sum_append, List.map_singleton, List.sum_singleton, padded_replicate] at hused
  omega

end SmallAllocators
