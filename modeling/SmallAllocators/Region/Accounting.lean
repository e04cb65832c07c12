/-
SmallAllocators.Region.Accounting — the counters of a region against the
chunks that were allocated in it, for requests of every size.

Sizes are 64-bit and the counters of a slab are 32-bit. Beside the region, a
`TallyState` keeps for each slab the end of the last chunk that was
allocated in it; the counters are exact if they say the same. They are as
long as no request, with its padding, takes 4 GB or more: then
`region_alloc` fails its assertion, and `region_aligned_alloc` fails it or
counts the chunk without its high 32 bits.
-/
import SmallAllocators.Region.Reset

namespace SmallAllocators

variable {g : Geometry}

/-! ## The size of a new slab -/

theorem rslabNewSize_eq {size : Nat} (hsize : rslabSizeof + size < sizeMax) :
    rslabNewSize g size =
      if size + rslabSizeof ≤ g.slabSize then g.slabOrderSize (g.slabOrder (size + rslabSizeof))
      else size + rslabSizeof := by
  have hcut : size + rslabSizeof - slabSizeof + slabSizeof = size + rslabSizeof := by
    simp only [rslabSizeof, slabSizeof]
    omega
  have hmod : (size + rslabSizeof + (sizeMax - slabSizeof)) % sizeMax =
      size + rslabSizeof - slabSizeof := by
    rw [show size + rslabSizeof + (sizeMax - slabSizeof) =
        size + rslabSizeof - slabSizeof + sizeMax by
      simp only [sizeMax, rslabSizeof, slabSizeof] at *; omega, Nat.add_mod_right,
        Nat.mod_eq_of_lt (by omega)]
  rw [rslabNewSize, hmod, g.slabRealSize_eq (by omega), hcut]

/-- The data area of a new slab is below 4 GB if the request is. -/
theorem rslabNewSize_lt {size : Nat} (hsize : rslabSizeof + size < sizeMax) (hlt : size < 2 ^ 32) :
    rslabNewSize g size < rslabSizeof + 2 ^ 32 := by
  have hslab := g.slabSize_lt
  rw [rslabNewSize_eq hsize]
  split
  · next hfits =>
      have horder := (g.slabOrder_le_iff (size + rslabSizeof) (Nat.le_refl _)).2
        (by rw [g.slabOrderSize_max]; exact hfits)
      have hle := Geometry.slabOrderSize_le (g := g) horder
      rw [g.slabOrderSize_max] at hle
      omega
  · omega

theorem rslabNewSize_large {size : Nat} (hsize : rslabSizeof + size < sizeMax)
    (hge : 2 ^ 32 ≤ size) :
    rslabNewSize g size = size + rslabSizeof := by
  have hslab := g.slabSize_lt
  rw [rslabNewSize_eq hsize, if_neg (by omega)]

/-! ## The machine -/

/-- A region, and the end of the last chunk in each of its slabs. -/
structure TallyState where
  region : Region
  tops : List Nat

/-- The state after an allocation that returned `ptr`. -/
def TallyState.allocated (s : TallyState) (ptr : Option Nat) (region : Region) (size : Nat) :
    TallyState :=
  match ptr with
  | none => { s with region := region }
  | some p =>
    { region := region
      tops := (p + size) :: s.tops.drop (s.region.slabs.length + 1 - region.slabs.length) }

inductive AllocOp where
  | alloc (size : Nat) (answer : Option Nat)
  | alignedAlloc (size alignment : Nat) (answer : Option Nat)

def AllocOp.exec (g : Geometry) (s : TallyState) : AllocOp → Option TallyState
  | .alloc size answer => do
    let (ptr, region) ← regionAlloc g s.region size answer
    some (s.allocated ptr region size)
  | .alignedAlloc size alignment answer => do
    let (ptr, region) ← regionAlignedAlloc g s.region size alignment answer
    some (s.allocated ptr region size)

/-- What the call asks `region_reserve` for. -/
def AllocOp.request : AllocOp → Nat
  | .alloc size _ => size
  | .alignedAlloc size alignment _ => size + alignment - 1

def AllocOp.answer : AllocOp → Option Nat
  | .alloc _ answer => answer
  | .alignedAlloc _ _ answer => answer

/-- The memory that `slab_get` returns is not in use. -/
def Region.FreshAnswer (g : Geometry) (r : Region) (size : Nat) (answer : Option Nat) : Prop :=
  ∀ addr, answer = some addr →
    0 < addr ∧ addr + rslabNewSize g size < sizeMax ∧
    ∀ s ∈ r.slabs, addr + rslabNewSize g size ≤ s.addr ∨ s.addr + s.size ≤ addr

/-- Sizes are positive and do not wrap around with the header and the padding; alignments are
powers of two. -/
def AllocOp.Allowed (g : Geometry) (s : TallyState) : AllocOp → Prop
  | .alloc size answer => 0 < size ∧ rslabSizeof + size < sizeMax ∧
      s.region.FreshAnswer g size answer
  | .alignedAlloc size alignment answer =>
      0 < size ∧ (∃ k, alignment = 2 ^ k) ∧ rslabSizeof + (size + alignment) < sizeMax ∧
      s.region.FreshAnswer g (size + alignment - 1) answer

/-- The request is below 4 GB. -/
def AllocOp.Below (op : AllocOp) : Prop := op.request < 2 ^ 32

/-- The runs from the states `start`, of requests below 4 GB. -/
def tallyMachine (g : Geometry) (start : TallyState → Prop) : Machine TallyState AllocOp where
  init := start
  allowed := fun s op => op.Allowed g s ∧ op.Below
  exec := AllocOp.exec g

/-- A new region. -/
def TallyState.Start (s : TallyState) : Prop :=
  ∃ mem, s = { region := regionCreate mem, tops := [] }

/-- The counter of each slab is exact: it says where the last chunk ends, and how many bytes are
left behind it; and the counter of the region is their sum. -/
structure TallyState.Exact (s : TallyState) : Prop where
  slabs : List.Forall₂ (fun slab top => slab.dataEnd = top ∧
    slab.unused = slab.size - rslabSizeof - (top - slab.data)) s.region.slabs s.tops
  used : regionUsed s.region = usedOf s.region.slabs

/-! ## Where a chunk goes -/

variable {r r' : Region} {s : TallyState} {size k : Nat} {answer : Option Nat}

/-- The region `r'` has `n` bytes more than `r`, the last of them at `top`: in the first slab of
`r`, or in a new one. -/
structure Region.Places (r r' : Region) (n top : Nat) : Prop where
  first : ∃ slab slabs, r'.slabs = { slab with used := slab.used + n } :: slabs ∧
    top = slab.dataEnd + n ∧
    (r.slabs = slab :: slabs ∨ (r.slabs = slabs ∧ slab.used = 0))

/-- The end of a chunk that is counted in full is where the counter says. -/
theorem Region.Places.tops {n top : Nat} (h : r.Places r' n top) (hinv : r'.Inv) {tops : List Nat}
    (hs : List.Forall₂ (fun slab top => slab.dataEnd = top ∧
      slab.unused = slab.size - rslabSizeof - (top - slab.data)) r.slabs tops) :
    List.Forall₂ (fun slab top => slab.dataEnd = top ∧
        slab.unused = slab.size - rslabSizeof - (top - slab.data))
      r'.slabs (top :: tops.drop (r.slabs.length + 1 - r'.slabs.length)) := by
  obtain ⟨slab, slabs, hslabs', htop, hplace⟩ := h.first
  have hbounds := hinv.bounds _ (by rw [hslabs']; exact List.mem_cons_self)
  have hlast : ({ slab with used := slab.used + n } : Rslab).dataEnd = top := by
    rw [htop]
    simp only [Rslab.dataEnd, Rslab.data]
    omega
  have hfirst : ({ slab with used := slab.used + n } : Rslab).unused =
      slab.size - rslabSizeof - (top - slab.data) := by
    rw [Rslab.unused_eq hbounds, ← hlast]
    simp only [Rslab.dataEnd, Rslab.data]
    omega
  rw [hslabs']
  rcases hplace with hslabs | ⟨hslabs, -⟩
  · -- in the slab that was the first
    rw [hslabs] at hs ⊢
    cases hs with
    | cons _ htail =>
        rw [List.length_cons, List.length_cons, Nat.add_sub_cancel_left]
        exact .cons ⟨hlast, hfirst⟩ htail
  · -- in a new slab
    rw [hslabs, List.length_cons, Nat.sub_self]
    rw [hslabs] at hs
    exact .cons ⟨hlast, hfirst⟩ hs

/-- Counting a chunk in the slab that was found for it. -/
theorem Region.Found.useFirst {r₁ : Region} {p n : Nat} (hfound : r.Found r₁ size p) (hinv : r₁.Inv)
    (hn : ∀ slab, r₁.slabs.head? = some slab → n ≤ slab.unused) (b : Bool) :
    ∃ r', Region.useFirst { r₁ with reserved := b } n = some r' ∧ r.Places r' n (p + n) := by
  obtain ⟨slab, hslab, hp, -⟩ := hfound.first
  have hroom := hn slab hslab
  cases hslabs : r₁.slabs with
  | nil => simp [hslabs] at hslab
  | cons slab' slabs =>
      rw [hslabs, List.head?_cons, Option.some.injEq] at hslab
      subst hslab
      have hbounds := hinv.bounds slab' (by simp [hslabs])
      have hfits := hroom
      rw [Rslab.unused_eq hbounds] at hfits
      have huse := (hbounds.grow hfits).1
      refine ⟨{ r₁ with
        slabs := slab'.use n :: slabs
        used := r₁.used + n
        reserved := false }, ?_, ⟨slab', slabs, ?_, by rw [hp], ?_⟩⟩
      · simp [Region.useFirst, guard, hroom]
      · rw [huse]
      · rcases hfound.slabs with hsame | ⟨new, hzero, hnew⟩
        · exact .inl (by rw [← hsame, hslabs])
        · rw [hslabs, List.cons.injEq] at hnew
          exact .inr ⟨hnew.2.symm, by rw [hnew.1]; exact hzero⟩

/-- `region_alloc`, where nothing wraps around. -/
theorem regionAlloc_places (hg : rslabSizeof ≤ g.order0Size) (h : r.Inv)
    (hans : r.Answer g size answer) (hpos : 0 < size) (hsize : rslabSizeof + size < sizeMax) :
    regionAlloc g r size answer = some (none, { r with reserved := false }) ∨
    ∃ p r', regionAlloc g r size answer = some (some p, r') ∧ r.Places r' size (p + size) := by
  have hafter := h.after_create.setReserved false
  unfold regionAlloc
  rcases regionReserve_spec hg hafter hans rfl with ⟨-, hnone⟩ | ⟨p, r₁, hsome, hafter₁, hfound⟩
  · left
    simp [guard, hpos, hnone]
  · right
    have hroom : ∀ slab, r₁.slabs.head? = some slab → size ≤ slab.unused := by
      obtain ⟨slab, hslab, -, hroom⟩ := hfound.first
      intro slab' hslab'
      rw [hslab, Option.some.injEq] at hslab'
      exact hslab' ▸ hroom hsize
    obtain ⟨r', huse, hplaces⟩ := hfound.useFirst hafter₁.inv hroom true
    exact ⟨p, r', by simp [guard, hpos, hsome, huse], ⟨hplaces.first⟩⟩

theorem alignedRequest_eq (hpos : 0 < size) (hsize : rslabSizeof + (size + 2 ^ k) < sizeMax) :
    (size + 2 ^ k + (sizeMax - 1)) % sizeMax = size + 2 ^ k - 1 := by
  have hk := Nat.two_pow_pos k
  rw [show size + 2 ^ k + (sizeMax - 1) = size + 2 ^ k - 1 + sizeMax by
    simp only [sizeMax] at *; omega, Nat.add_mod_right, Nat.mod_eq_of_lt (by omega)]

/-- `NULL` is aligned to anything. -/
theorem smallAlign_null (hk : 2 ^ k < sizeMax) : smallAlign 0 (2 ^ k) = some 0 := by
  have hpos := Nat.two_pow_pos k
  rw [smallAlign_eq (by omega), alignUp, Nat.zero_add, Nat.div_eq_of_lt (by omega), Nat.zero_mul]

/-- What `region_aligned_alloc` does with a slab that has room for the request. -/
theorem regionAlignedAlloc_places (hg : rslabSizeof ≤ g.order0Size) (h : r.Inv)
    (hans : r.Answer g (size + 2 ^ k - 1) answer) (hpos : 0 < size)
    (hsize : rslabSizeof + (size + 2 ^ k) < sizeMax) :
    regionAlignedAlloc g r size (2 ^ k) answer = some (none, { r with reserved := false }) ∨
    ∃ p n r', regionAlignedAlloc g r size (2 ^ k) answer = some (some p, r') ∧
    r.Places r' n (p + size) := by
  have hafter := h.after_create.setReserved false
  have hrequest := alignedRequest_eq hpos hsize
  have hk := Nat.two_pow_pos k
  unfold regionAlignedAlloc regionAlignedReserve
  rcases regionReserve_spec (r := { r with reserved := false }) hg hafter hans rfl with
    ⟨-, hnone⟩ | ⟨p, r₁, hsome, hafter₁, hfound⟩
  · left
    have halign := smallAlign_null (k := k) (by omega)
    simp [guard, hpos, hrequest, hnone, halign, ofPtr]
  · right
    obtain ⟨slab, hslab, hp, hroom⟩ := hfound.first
    have hbounds := hafter₁.inv.bounds slab (List.mem_of_mem_head? hslab)
    have hroom := hroom (by omega)
    rw [Rslab.unused_eq hbounds] at hroom
    have hstart := hbounds.pos
    have hlast := hbounds.last
    have hdata := hbounds.data
    have hused := hbounds.used
    have hend : slab.dataEnd = slab.addr + rslabSizeof + slab.used := rfl
    have hle := le_alignUp k slab.dataEnd
    have hup := alignUp_le k slab.dataEnd
    have halign : smallAlign slab.dataEnd (2 ^ k) = some (alignUp k slab.dataEnd) :=
      smallAlign_eq (by omega)
    have hptr : ofPtr (alignUp k slab.dataEnd) = some (alignUp k slab.dataEnd) := by
      rw [ofPtr, if_neg (by omega)]
    have heff : effectiveSize slab (alignUp k slab.dataEnd) size =
        alignUp k slab.dataEnd - slab.dataEnd + size := by
      have hsum : alignUp k slab.dataEnd + sizeMax - slab.dataEnd + size =
          alignUp k slab.dataEnd - slab.dataEnd + size + sizeMax := by omega
      unfold effectiveSize
      rw [hsum, Nat.add_mod_right, Nat.mod_eq_of_lt (show _ < sizeMax by omega),
        Nat.mod_eq_of_lt (by omega)]
    have hn : ∀ slab', r₁.slabs.head? = some slab' →
        alignUp k slab.dataEnd - slab.dataEnd + size ≤ slab'.unused := by
      intro slab' hslab'
      rw [hslab, Option.some.injEq] at hslab'
      rw [← hslab', Rslab.unused_eq hbounds]
      omega
    obtain ⟨r', huse, hplaces⟩ := hfound.useFirst hafter₁.inv hn true
    have htop : p + (alignUp k slab.dataEnd - slab.dataEnd + size) =
        alignUp k slab.dataEnd + size := by omega
    rw [htop] at hplaces
    refine ⟨alignUp k slab.dataEnd, alignUp k slab.dataEnd - slab.dataEnd + size, r', ?_,
      ⟨hplaces.first⟩⟩
    simp [guard, hpos, hrequest, hsome, hp, halign, hptr, hslab, heff, huse]

/-! ## Runs of requests below 4 GB -/

theorem Region.FreshAnswer.below (h : r.FreshAnswer g size answer)
    (hsize : rslabSizeof + size < sizeMax) (hlt : size < 2 ^ 32) : r.Answer g size answer := by
  intro addr haddr
  obtain ⟨hpos, hlast, hout⟩ := h addr haddr
  exact ⟨hpos, hlast, rslabNewSize_lt hsize hlt, hout⟩

/-- The call as one of `RegionOp`. -/
def AllocOp.toRegionOp : AllocOp → RegionOp
  | .alloc size answer => .alloc size answer
  | .alignedAlloc size alignment answer => .alignedAlloc size alignment answer

theorem AllocOp.toRegionOp_allowed {op : AllocOp} (hallowed : op.Allowed g s) (hbelow : op.Below) :
    op.toRegionOp.Allowed g s.region := by
  cases op with
  | alloc size answer => exact hallowed.2.2.below hallowed.2.1 hbelow
  | alignedAlloc size alignment answer =>
      obtain ⟨hpos, ⟨k, rfl⟩, hsize, hans⟩ := hallowed
      have hk := Nat.two_pow_pos k
      show s.region.Answer g ((size + 2 ^ k + (sizeMax - 1)) % sizeMax) answer
      rw [alignedRequest_eq hpos hsize]
      exact hans.below (by omega) hbelow

/-- A call that returns is one of the region. -/
theorem AllocOp.exec_region {s' : TallyState} {op : AllocOp} (hex : op.exec g s = some s') :
    op.toRegionOp.exec g s.region = some s'.region := by
  have hregion : ∀ ptr region size, (s.allocated ptr region size).region = region := by
    intro ptr region size
    cases ptr <;> rfl
  cases op with
  | alloc size answer =>
      obtain ⟨⟨ptr, region⟩, halloc, hs'⟩ := Option.bind_eq_some_iff.1 hex
      cases hs'
      rw [hregion]
      exact Option.map_eq_some_iff.2 ⟨_, halloc, rfl⟩
  | alignedAlloc size alignment answer =>
      obtain ⟨⟨ptr, region⟩, halloc, hs'⟩ := Option.bind_eq_some_iff.1 hex
      cases hs'
      rw [hregion]
      exact Option.map_eq_some_iff.2 ⟨_, halloc, rfl⟩

/-- A run of requests after a savepoint. -/
theorem tallyMachine_since {s₀ : TallyState} (hs : (tallyMachine g (· = s₀)).Reachable s) :
    (sinceMachine g s₀.region).Reachable s.region := by
  apply Machine.Reachable.of_step (tallyMachine g (· = s₀))
    (P := fun s => (sinceMachine g s₀.region).Reachable s.region)
    _ _ hs
  · rintro s rfl
    exact .init rfl
  · intro s op s' h hop hex
    have hsince : op.toRegionOp.Since s₀.region s.region := by
      cases op <;> exact trivial
    exact .step op.toRegionOp h ⟨AllocOp.toRegionOp_allowed hop.1 hop.2, hsince⟩
      (AllocOp.exec_region hex)

/-- A request below 4 GB is counted exactly, and no assertion fails. -/
theorem AllocOp.exec_exact (hg : rslabSizeof ≤ g.order0Size) (h : s.region.Inv) (hexact : s.Exact)
    {op : AllocOp} (hallowed : op.Allowed g s) (hbelow : op.Below) :
    ∃ s', op.exec g s = some s' ∧ s'.Exact := by
  have hinv : ∀ {s' : TallyState}, op.exec g s = some s' → s'.region.Inv := fun hex =>
    (RegionOp.exec_after hg
        (regionCreate_inv _) h.after_create _ (toRegionOp_allowed hallowed hbelow)
      (by cases op <;> exact trivial) (exec_region hex)).inv
  cases op with
  | alloc size answer =>
      obtain ⟨hpos, hsize, hans⟩ := hallowed
      rcases regionAlloc_places hg h (hans.below hsize hbelow) hpos hsize with hnone
        | ⟨p, r', hsome, hplaces⟩
      · exact ⟨{ s with region := { s.region with reserved := false } }, by
          simp only [AllocOp.exec, hnone]; rfl, hexact.slabs, hexact.used⟩
      · have hex : AllocOp.exec g s (.alloc size answer) = some (s.allocated (some p) r' size) := by
          simp only [AllocOp.exec, hsome]
          rfl
        exact ⟨_, hex, hplaces.tops (hinv hex) hexact.slabs, (hinv hex).used⟩
  | alignedAlloc size alignment answer =>
      obtain ⟨hpos, ⟨k, rfl⟩, hsize, hans⟩ := hallowed
      have hk := Nat.two_pow_pos k
      rcases regionAlignedAlloc_places hg h (hans.below (by omega) hbelow) hpos hsize with
        hnone | ⟨p, n, r', hsome, hplaces⟩
      · exact ⟨{ s with region := { s.region with reserved := false } }, by
          simp only [AllocOp.exec, hnone]; rfl, hexact.slabs, hexact.used⟩
      · have hex : AllocOp.exec g s (.alignedAlloc size (2 ^ k) answer) =
            some (s.allocated (some p) r' size) := by
          simp only [AllocOp.exec, hsome]
          rfl
        exact ⟨_, hex, hplaces.tops (hinv hex) hexact.slabs, (hinv hex).used⟩

/-! ## Requests of 4 GB and more -/

theorem Rslab.unused_lt (s : Rslab) : s.unused < 2 ^ 32 := Nat.mod_lt _ (by decide)

/-- No slab seems to have room for 4 GB, so that `region_reserve` gets a new one. -/
theorem regionReserve_large (addr : Nat) (hge : 2 ^ 32 ≤ size) :
    regionReserve g { r with reserved := false } size (some addr) =
      some (some (addr + rslabSizeof), { r with
        slabs := { addr := addr, size := rslabNewSize g size, used := 0 } :: r.slabs
        total := r.total + rslabNewSize g size
        gets := addr :: r.gets
        reserved := true }) := by
  have hfind : regionFind g { r with reserved := false } size (some addr) =
      regionReserveSlow g { r with reserved := false } size (some addr) := by
    unfold regionFind
    cases hslabs : r.slabs with
    | nil => rfl
    | cons slab slabs =>
        have hlt := slab.unused_lt
        exact if_neg (by omega)
  unfold regionReserve
  rw [hfind]
  simp [guard, regionReserveSlow, Rslab.data]

/-- `rslab_unused` of a new slab for 4 GB or more shows less than the chunk. -/
theorem newSlab_unused_lt (addr : Nat) (hpos : 0 < size) (hlt : size < 2 ^ 32)
    (hsize : rslabSizeof + (size + 2 ^ k) < sizeMax) (hge : 2 ^ 32 ≤ size + 2 ^ k - 1) :
    Rslab.unused { addr := addr, size := rslabNewSize g (size + 2 ^ k - 1), used := 0 } < size := by
  have hk := Nat.two_pow_pos k
  have hunused :
      Rslab.unused { addr := addr, size := rslabNewSize g (size + 2 ^ k - 1), used := 0 } =
      (size + 2 ^ k - 1) % 2 ^ 32 := by
    have hdvd : 2 ^ 32 ∣ sizeMax := by decide
    rw [Rslab.unused, rslabNewSize_large (by omega) hge, Nat.mod_mod_of_dvd _ hdvd]
    dsimp only
    rw [show size + 2 ^ k - 1 + rslabSizeof + 2 * sizeMax - rslabSizeof - 0 =
      size + 2 ^ k - 1 + 2 * sizeMax by omega,
      show 2 * sizeMax = 2 ^ 32 * 2 ^ 33 by decide, Nat.add_mul_mod_self_left]
  rw [hunused]
  rcases Nat.lt_or_ge k 33 with hsmall | hlarge
  · have hle : 2 ^ k ≤ 2 ^ 32 := Nat.pow_le_pow_right (by decide) (by omega)
    omega
  · -- the alignment is a multiple of 4 GB
    have hmul : 2 ^ k = 2 ^ 32 * 2 ^ (k - 32) := by
      rw [← Nat.pow_add, Nat.add_sub_of_le (by omega)]
    rw [show size + 2 ^ k - 1 = size - 1 + 2 ^ k by omega, hmul, Nat.add_mul_mod_self_left]
    exact Nat.lt_of_le_of_lt (Nat.mod_le _ _) (by omega)

/-- `effective_size` is the chunk with its padding, less the high 32 bits. -/
theorem effectiveSize_eq {slab : Rslab} {p : Nat} (size : Nat) (hle : slab.dataEnd ≤ p)
    (hlt : p - slab.dataEnd + size < sizeMax) :
    effectiveSize slab p size = (p - slab.dataEnd + size) % 2 ^ 32 := by
  have hsum : p + sizeMax - slab.dataEnd + size = p - slab.dataEnd + size + sizeMax := by omega
  rw [effectiveSize, hsum, Nat.add_mod_right, Nat.mod_eq_of_lt hlt]

/-- `region_aligned_alloc` with an empty slab that was just obtained. -/
theorem regionAlignedAlloc_of_new {r₁ : Region} {slab : Rslab} {slabs : List Rslab}
    {ptr : Option Nat} (hsize : rslabSizeof + (size + 2 ^ k) < sizeMax)
    (hnew : regionReserve g { r with reserved := false } (size + 2 ^ k - 1) answer =
      some (some slab.dataEnd, r₁))
    (hslabs : r₁.slabs = slab :: slabs) (hstart : 0 < slab.dataEnd)
    (hlast : slab.dataEnd + (size + 2 ^ k - 1) < sizeMax)
    (heq : regionAlignedAlloc g r size (2 ^ k) answer = some (ptr, r')) :
    ∃ p, ptr = some p ∧ slab.dataEnd ≤ p ∧ (p - slab.dataEnd + size) % 2 ^ 32 ≤ slab.unused ∧
      r'.slabs = slab.use ((p - slab.dataEnd + size) % 2 ^ 32) :: slabs := by
  have hpos : 0 < size := by
    unfold regionAlignedAlloc at heq
    obtain ⟨u, hguard, -⟩ := Option.bind_eq_some_iff.1 heq
    by_contra hnot
    simp [guard, hnot] at hguard
  have hle := le_alignUp k slab.dataEnd
  have hup := alignUp_le k slab.dataEnd
  have hk := Nat.two_pow_pos k
  have halign : smallAlign slab.dataEnd (2 ^ k) = some (alignUp k slab.dataEnd) :=
    smallAlign_eq (by omega)
  have hptr : ofPtr (alignUp k slab.dataEnd) = some (alignUp k slab.dataEnd) := by
    rw [ofPtr, if_neg (by omega)]
  have heff := effectiveSize_eq size hle (by omega)
  unfold regionAlignedAlloc regionAlignedReserve at heq
  obtain ⟨u, -, heq⟩ := Option.bind_eq_some_iff.1 heq
  rw [alignedRequest_eq hpos hsize, hnew] at heq
  simp only [Option.bind_eq_bind, Option.bind_some, Option.getD_some, halign, hptr, hslabs,
    List.head?_cons, heff] at heq
  obtain ⟨r₂, huse, heq⟩ := Option.bind_eq_some_iff.1 heq
  cases heq
  unfold Region.useFirst at huse
  rw [hslabs] at huse
  obtain ⟨u', hguard', huse⟩ := Option.bind_eq_some_iff.1 huse
  have hroom : (alignUp k slab.dataEnd - slab.dataEnd + size) % 2 ^ 32 ≤ slab.unused := by
    by_contra hnot
    simp only [guard, if_neg hnot] at hguard'
    cases hguard'
  cases huse
  exact ⟨_, rfl, hle, hroom, rfl⟩

/-- A request for 4 GB or more fails an assertion, or is not counted in full. -/
theorem AllocOp.not_exact {op : AllocOp} (hallowed : op.Allowed g s) (hanswer : op.answer ≠ none)
    (hnot : ¬op.Below) : ¬∃ s', op.exec g s = some s' ∧ s'.Exact := by
  rintro ⟨s', hex, hexact⟩
  have hge := Nat.le_of_not_lt hnot
  obtain ⟨addr, haddr⟩ := Option.ne_none_iff_exists'.1 hanswer
  cases op with
  | alloc size answer =>
      obtain ⟨hpos, hsize, -⟩ := hallowed
      rw [AllocOp.answer] at haddr
      rw [AllocOp.request] at hge
      subst haddr
      have hlt : ¬size ≤ Rslab.unused { addr := addr, size := rslabNewSize g size, used := 0 } := by
        have := Rslab.unused_lt { addr := addr, size := rslabNewSize g size, used := 0 }
        omega
      simp [AllocOp.exec, regionAlloc, guard, hpos, regionReserve_large _ hge, Region.useFirst,
        hlt] at hex
  | alignedAlloc size alignment answer =>
      obtain ⟨hpos, ⟨k, rfl⟩, hsize, hans⟩ := hallowed
      rw [AllocOp.answer] at haddr
      rw [AllocOp.request] at hge
      subst haddr
      have hk := Nat.two_pow_pos k
      obtain ⟨haddr, hlast, -⟩ := hans addr rfl
      rw [rslabNewSize_large (by omega) hge] at hlast
      have hunused := fun hlt => newSlab_unused_lt (g := g) addr hpos hlt hsize hge
      have hreserve := regionReserve_large (g := g) (r := s.region) addr hge
      obtain ⟨⟨ptr, region⟩, halloc, hs'⟩ := Option.bind_eq_some_iff.1 hex
      generalize hslab : ({ addr := addr, size := rslabNewSize g (size + 2 ^ k - 1), used := 0 } :
          Rslab) = slab at *
      have hend : slab.dataEnd = addr + rslabSizeof := by
        rw [← hslab]
        rfl
      rw [← hend] at hreserve
      obtain ⟨p, rfl, hle, hroom, hslabs⟩ :=
        regionAlignedAlloc_of_new hsize hreserve rfl (by omega) (by omega) halloc
      cases hs'
      have htop := hexact.slabs
      rw [TallyState.allocated, hslabs] at htop
      cases htop with
      | cons hfirst _ =>
          have hwraps := hfirst.1
          have hzero : slab.used = 0 := by rw [← hslab]
          have hcut : (slab.use ((p - slab.dataEnd + size) % 2 ^ 32)).dataEnd =
              slab.dataEnd + (p - slab.dataEnd + size) % 2 ^ 32 := by
            rw [Rslab.dataEnd, Rslab.use, hzero, Nat.zero_add, Nat.mod_mod, Rslab.dataEnd, hzero]
            rfl
          rw [hcut] at hwraps
          have hless := hunused
          omega

/-! ## Runs -/

theorem TallyState.Start.exact (h : s.Start) : s.Exact := by
  obtain ⟨mem, rfl⟩ := h
  exact ⟨.nil, rfl⟩

theorem tallyMachine_exact (hg : rslabSizeof ≤ g.order0Size) (start : TallyState → Prop)
    (hstart : ∀ s, start s → (regionMachine g).Reachable s.region ∧ s.Exact)
    (hs : (tallyMachine g start).Reachable s) : (regionMachine g).Reachable s.region ∧ s.Exact := by
  apply Machine.Reachable.of_step (tallyMachine g start)
    (P := fun s => (regionMachine g).Reachable s.region ∧ s.Exact) hstart _ hs
  rintro s op s' ⟨hregion, hexact⟩ ⟨hallowed, hbelow⟩ hex
  obtain ⟨s'', hex', hexact'⟩ :=
    AllocOp.exec_exact hg (regionMachine_inv hg hregion) hexact hallowed hbelow
  have hsame : s'' = s' := Option.some.inj (hex'.symm.trans hex)
  exact ⟨.step op.toRegionOp hregion (AllocOp.toRegionOp_allowed hallowed hbelow)
    (AllocOp.exec_region hex), hsame ▸ hexact'⟩

/-- **The counters of a region are exact** as long as every request, with its padding, is below
4 GB: in every such run they say where the last chunk of each slab ends, the next request returns
and is counted exactly if and only if it is below 4 GB too, and the region can be truncated to any
state of the run, with all that was allocated before that. -/
theorem region_accounting_exact (hg : rslabSizeof ≤ g.order0Size) {s₀ : TallyState}
    (h₀ : (tallyMachine g TallyState.Start).Reachable s₀)
    (hs : (tallyMachine g (· = s₀)).Reachable s) :
    s.Exact ∧
    (∀ op : AllocOp, op.Allowed g s → op.answer ≠ none →
      ((∃ s', op.exec g s = some s' ∧ s'.Exact) ↔ op.Below)) ∧
    ∃ r', regionTruncate s.region (regionUsed s₀.region) = some r' ∧ s₀.region.RolledBack r' := by
  have hbefore := tallyMachine_exact hg TallyState.Start
    (fun s hs => ⟨.init (by obtain ⟨mem, rfl⟩ := hs; exact ⟨mem, rfl⟩), hs.exact⟩) h₀
  obtain ⟨hregion, hexact⟩ := tallyMachine_exact hg (· = s₀) (fun s hs => hs ▸ hbefore) hs
  refine ⟨hexact, fun op hallowed hanswer => ⟨fun hex => ?_, fun hbelow => ?_⟩, ?_⟩
  · by_contra hnot
    exact AllocOp.not_exact hallowed hanswer hnot hex
  · exact AllocOp.exec_exact hg (regionMachine_inv hg hregion) hexact hallowed hbelow
  · exact sinceMachine_rolledBack g hg _ _ hbefore.1 (tallyMachine_since hs)

/-- A new region, and a chunk of 100 bytes in it. -/
def tallyStart : TallyState := { region := regionCreate fun _ => 0, tops := [] }

def tallyOneChunk : TallyState := { region := oneChunkRegion, tops := [16540] }

theorem Region.freshAnswer_some {addr : Nat} (hpos : 0 < addr)
    (hlast : addr + rslabNewSize g size < sizeMax) :
    (tallyStart.region).FreshAnswer g size (some addr) := by
  intro a ha
  cases ha
  exact ⟨hpos, hlast, by simp [tallyStart, regionCreate]⟩

theorem region_accounting_exact_one_chunk :
    ∃ s : TallyState, s.Exact ∧ s.tops = [16540] ∧ ∃ r', regionTruncate s.region 0 = some r' := by
  have hallowed : (AllocOp.alloc 100 (some 16384)).Allowed fourPages tallyStart :=
    ⟨by decide, by decide, Region.freshAnswer_some (by decide) (by decide)⟩
  have hstart : (tallyMachine fourPages TallyState.Start).Reachable tallyStart := .init ⟨_, rfl⟩
  have hone : (tallyMachine fourPages (· = tallyStart)).Reachable tallyOneChunk :=
    .step (.alloc 100 (some 16384)) (.init rfl) ⟨hallowed, show 100 < 2 ^ 32 by decide⟩ rfl
  obtain ⟨hexact, -, r', htruncate, -⟩ := region_accounting_exact (by decide) hstart hone
  exact ⟨tallyOneChunk, hexact, rfl, r', htruncate⟩

/-- `region_alloc` of 4 GB fails its assertion. -/
theorem regionAlloc_large_asserts :
    (AllocOp.exec fourPages tallyStart (.alloc (2 ^ 32) (some 16384))).map TallyState.tops =
      none := by decide +kernel

/-- `region_aligned_alloc` of 100 bytes more counts 100 bytes. -/
theorem regionAlignedAlloc_large_counts :
    (AllocOp.exec fourPages tallyStart (.alignedAlloc (2 ^ 32 + 100) 1 (some 16384))).map
        (fun s => (s.region.slabs.map Rslab.dataEnd, s.tops)) =
      some ([16384 + 56 + 100], [16384 + 56 + 2 ^ 32 + 100]) := by decide +kernel

theorem region_accounting_not_exact :
    (tallyMachine fourPages TallyState.Start).Reachable tallyStart ∧
    ((AllocOp.alloc (2 ^ 32) (some 16384)).Allowed fourPages tallyStart ∧
      AllocOp.exec fourPages tallyStart (.alloc (2 ^ 32) (some 16384)) = none) ∧
    ((AllocOp.alignedAlloc (2 ^ 32 + 100) 1 (some 16384)).Allowed fourPages tallyStart ∧
      ∃ s, AllocOp.exec fourPages tallyStart (.alignedAlloc (2 ^ 32 + 100) 1 (some 16384)) =
      some s ∧ ¬s.Exact) := by
  refine ⟨.init ⟨_, rfl⟩, ⟨⟨by decide, by decide, ?_⟩, ?_⟩,
    ⟨by decide, ⟨0, rfl⟩, by decide, ?_⟩, ?_⟩
  · exact Region.freshAnswer_some (by decide) (by decide +kernel)
  · exact Option.map_eq_none_iff.1 regionAlloc_large_asserts
  · exact Region.freshAnswer_some (by decide) (by decide +kernel)
  · obtain ⟨s, hex, hs⟩ := Option.map_eq_some_iff.1 regionAlignedAlloc_large_counts
    refine ⟨s, hex, fun hexact => ?_⟩
    obtain ⟨hends, htops⟩ := Prod.mk.inj hs
    have hslabs := hexact.slabs
    rw [htops] at hslabs
    cases hregion : s.region.slabs with
    | nil => simp [hregion] at hends
    | cons slab slabs =>
        rw [hregion] at hslabs hends
        have hsame := (List.forall₂_cons.1 hslabs).1.1
        rw [List.map_cons, List.cons.injEq] at hends
        omega

end SmallAllocators
