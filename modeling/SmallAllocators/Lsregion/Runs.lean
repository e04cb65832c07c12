/-
SmallAllocators.Lsregion.Runs — runs of the log structured allocator.

The clients allocate chunks with nondecreasing ids, follow each reservation
by an allocation that it covers, collect garbage below the first id that is
not flushed, and flush on one savepoint. `lsMachine` has all such runs. In
`lsMachineNoWrap` moreover no address or size computation wraps around;
there nothing of the log is lost, duplicated or reordered. In `lsMachine`
this fails: the end of a chunk of `SIZE_MAX` bytes wraps around to an
address inside the slab, and the chunk seems to fit.
-/
import SmallAllocators.Lib.Runs
import SmallAllocators.Lsregion.Invariant

namespace SmallAllocators

open Memory

variable {β : Type}

/-! ## The machine -/

inductive LsOp (β : Type) where
  | alloc (size : Nat) (id : Int) (data : Nat → β) (answer : Option Nat)
  | alignedAlloc (size alignment : Nat) (id : Int) (data : Nat → β) (answer : Option Nat)
  | reserve (size : Nat) (answer : Option Nat)
  | alignedReserve (size alignment : Nat) (answer : Option Nat)
  | gc (minId : Int)
  | toIovec (iovcnt : Nat)
  /-- Memory without chunks changes: other users of the memory, and clients in what they
  reserved. -/
  | write (mem : Nat → β)

/-- The chunks that are not flushed, when `n` bytes of all are. -/
def unflushed : Nat → List (Chunk β) → List (Chunk β)
  | _, [] => []
  | n, c :: cs => if c.bytes.length ≤ n then unflushed (n - c.bytes.length) cs else c :: cs

/-- The allocation is not larger than the reservation before it and has its alignment. -/
def LsState.FollowsReserve (s : LsState β) (size alignment : Nat) : Prop :=
  ∀ sz al, s.pending = some (sz, al) → size ≤ sz ∧ alignment = al

instance LsState.FollowsReserve.decidable (s : LsState β) (size alignment : Nat) :
    Decidable (s.FollowsReserve size alignment) :=
  decidable_of_iff (∀ x ∈ s.pending, size ≤ x.1 ∧ alignment = x.2)
    ⟨fun h sz al hx => h (sz, al) hx, fun h x hx => h x.1 x.2 hx⟩

/-- What the clients promise, and what the arena and `malloc` may answer. -/
def LsOp.Allowed (arenaSize : Nat) (s : LsState β) : LsOp β → Prop
  | .alloc size id _ answer =>
      1 ≤ size ∧ size < sizeMax ∧ 0 ≤ id ∧ (∀ c ∈ s.chunks, c.id ≤ id) ∧ s.FollowsReserve size 1 ∧
      s.region.Answer arenaSize size 1 answer
  | .alignedAlloc size alignment id _ answer =>
      1 ≤ size ∧ size < sizeMax ∧ (∃ k < 64, alignment = 2 ^ k) ∧ 0 ≤ id ∧
      (∀ c ∈ s.chunks, c.id ≤ id) ∧ s.FollowsReserve size alignment ∧
      s.region.Answer arenaSize size alignment answer
  | .reserve size answer =>
      1 ≤ size ∧ size < sizeMax ∧ s.pending = none ∧ s.region.Answer arenaSize size 1 answer
  | .alignedReserve size alignment answer =>
      1 ≤ size ∧ size < sizeMax ∧ (∃ k < 64, alignment = 2 ^ k) ∧ s.pending = none ∧
      s.region.Answer arenaSize size alignment answer
  | .gc minId => ∀ c ∈ unflushed s.flushed.length s.chunks, minId < c.id
  | .toIovec _ => True
  | .write mem => ∀ t ∈ s.region.slabs, ∀ x, t.addr ≤ x → x < t.pos → mem x = s.mem x

/-- The computations of an operation do not wrap around. -/
def LsOp.NoWrap (s : LsState β) : LsOp β → Prop
  | .alloc size _ _ _ => s.region.NoWrap size 1
  | .alignedAlloc size alignment _ _ _ => s.region.NoWrap size alignment
  | .reserve size _ => s.region.NoWrap size 1
  | .alignedReserve size alignment _ => s.region.NoWrap size alignment
  | .gc _ => True
  | .toIovec _ => True
  | .write _ => True

instance LsOp.Allowed.decidable [DecidableEq β] {arenaSize : Nat} (s : LsState β) :
    (op : LsOp β) → Decidable (op.Allowed arenaSize s)
  | .alloc _ _ _ _ => inferInstanceAs (Decidable (_ ∧ _ ∧ _ ∧ _ ∧ _ ∧ _))
  | .alignedAlloc _ _ _ _ _ => inferInstanceAs (Decidable (_ ∧ _ ∧ _ ∧ _ ∧ _ ∧ _ ∧ _))
  | .reserve _ _ => inferInstanceAs (Decidable (_ ∧ _ ∧ _ ∧ _))
  | .alignedReserve _ _ _ => inferInstanceAs (Decidable (_ ∧ _ ∧ _ ∧ _ ∧ _))
  | .gc _ => inferInstanceAs (Decidable (∀ c ∈ unflushed _ _, _))
  | .toIovec _ => inferInstanceAs (Decidable True)
  | .write _ => inferInstanceAs (Decidable (∀ t ∈ s.region.slabs, ∀ x, t.addr ≤ x → x < t.pos → _))

instance LsOp.NoWrap.decidable (s : LsState β) : (op : LsOp β) → Decidable (op.NoWrap s)
  | .alloc _ _ _ _ => inferInstanceAs (Decidable (s.region.NoWrap _ _))
  | .alignedAlloc _ _ _ _ _ => inferInstanceAs (Decidable (s.region.NoWrap _ _))
  | .reserve _ _ => inferInstanceAs (Decidable (s.region.NoWrap _ _))
  | .alignedReserve _ _ _ => inferInstanceAs (Decidable (s.region.NoWrap _ _))
  | .gc _ => inferInstanceAs (Decidable True)
  | .toIovec _ => inferInstanceAs (Decidable True)
  | .write _ => inferInstanceAs (Decidable True)

/-- The state after an allocation that returned `r`. -/
def LsState.allocated (s : LsState β) (r : Option Reservation) (region : Lsregion) (size : Nat)
    (id : Int) (data : Nat → β) : LsState β :=
  match r with
  | none => { s with region := region, pending := none }
  | some r => s.useChunk region r size id data

def LsOp.exec (arenaSize : Nat) (s : LsState β) : LsOp β → Option (LsState β)
  | .alloc size id data answer => do
    let (r, region) ← lsregionAlloc arenaSize s.region size id answer
    some (s.allocated r region size id data)
  | .alignedAlloc size alignment id data answer => do
    let (r, region) ← lsregionAlignedAlloc arenaSize s.region size alignment id answer
    some (s.allocated r region size id data)
  | .reserve size answer => do
    let (_, region) ← lsregionReserve arenaSize s.region size answer
    some { s with region := region, pending := some (size, 1) }
  | .alignedReserve size alignment answer => do
    let (_, region) ← lsregionAlignedReserve arenaSize s.region size alignment answer
    some { s with region := region, pending := some (size, alignment) }
  | .gc minId => some { s with region := lsregionGc arenaSize s.region minId }
  | .toIovec iovcnt => do
    let f ← lsregionToIovec s.region iovcnt s.svp
    some { s with svp := f.svp, flushed := s.flushed ++ readIov s.mem f.iov }
  | .write mem => some { s with mem := mem }

/-- A new region on an arena with slabs of `arenaSize` bytes, and a new savepoint. -/
def LsState.Init (arenaSize : Nat) (s : LsState β) : Prop :=
  lsregionCreate arenaSize = some s.region ∧ s.svp = lsregionSvpCreate ∧ s.chunks = [] ∧
  s.flushed = [] ∧
    s.pending = none

/-- All runs of the clients. -/
def lsMachine (β : Type) (arenaSize : Nat) : Machine (LsState β) (LsOp β) where
  init := LsState.Init arenaSize
  allowed := LsOp.Allowed arenaSize
  exec := LsOp.exec arenaSize

/-- The runs in which no computation wraps around. -/
def lsMachineNoWrap (β : Type) (arenaSize : Nat) : Machine (LsState β) (LsOp β) where
  init := LsState.Init arenaSize
  allowed := fun s op => op.Allowed arenaSize s ∧ op.NoWrap s
  exec := LsOp.exec arenaSize

/-! ## The invariant over runs -/

variable {arenaSize : Nat} {s : LsState β} {size k : Nat} {answer : Option Nat} {id : Int}

/-- The invariant between two calls. -/
def LsState.Good (arenaSize : Nat) (s : LsState β) : Prop :=
  lslabSizeof < arenaSize ∧ ∃ done fl un, s.Inv arenaSize done fl un

theorem LsState.Init.good (h : s.Init arenaSize) : s.Good arenaSize := by
  obtain ⟨hcreate, hsvp, hc, hf, hp⟩ := h
  by_cases h48 : arenaSize > lslabSizeof
  · have hr : ({ slabs := [], cached := none, slabId := 0, used := 0, total := 0,
                 calls := ⟨[], [], [], []⟩ } :
        Lsregion) = s.region := by
      simpa [lsregionCreate, h48] using hcreate
    refine ⟨h48, [], fun _ => [], fun _ => [], ?_⟩
    constructor
    case region => exact .empty (by simp [← hr]) (by simp [← hr])
    case chunks => simp [← hr, hc]
    case flushed => simp [hf]
    case svpBound => simp [← hr, hsvp, lsregionSvpCreate, lslabNotUsedId]
    case sorted => simp [hc]
    case fresh => exact fun _ _ => ⟨rfl, rfl⟩
    all_goals simp [← hr]
  · simp [lsregionCreate, h48] at hcreate

/-- The unflushed chunks are the ones behind the flushed bytes. -/
theorem unflushed_append (done : List (Chunk β)) (todo : List (Chunk β))
    (hne : ∀ c ∈ todo, c.bytes ≠ []) : unflushed (bytesOf done).length (done ++ todo) = todo := by
  induction done with
  | nil =>
      cases todo with
      | nil => rfl
      | cons c cs =>
          have := List.length_pos_of_ne_nil (hne c (by simp))
          simp only [List.nil_append, bytesOf_nil, List.length_nil, unflushed]
          rw [if_neg (by omega)]
  | cons d ds ih =>
      have hlen : (bytesOf (d :: ds)).length = d.bytes.length + (bytesOf ds).length := by
        simp [bytesOf]
      rw [List.cons_append, hlen, unflushed, if_pos (by omega), Nat.add_sub_cancel_left]
      exact ih

theorem LsState.Inv.unflushed_eq {done : List (Chunk β)} {fl un : Int → List (Chunk β)}
    (h : s.Inv arenaSize done fl un) :
    unflushed s.flushed.length s.chunks = s.region.slabs.flatMap fun t => un t.slabId := by
  rw [h.flushed, h.chunks]
  refine unflushed_append _ _ fun c hc => ?_
  obtain ⟨t, ht, hct⟩ := List.mem_flatMap.mp hc
  exact (h.holds t ht).nonempty c (List.mem_append_right _ hct)

/-- A reservation that the client may make. -/
theorem LsState.Inv.reserve {done : List (Chunk β)} {fl un : Int → List (Chunk β)}
    (h : s.Inv arenaSize done fl un) (hsize : 1 ≤ size)
    (hpend : s.FollowsReserve size (2 ^ k)) (hwrap : s.region.NoWrap size (2 ^ k))
    (hans : s.region.Answer arenaSize size (2 ^ k) answer) :
    (lsregionAlignedReserve arenaSize s.region size (2 ^ k) answer = some (none, s.region) ∧
      ∀ t, s.region.slabs.getLast? = some t → t.maxId ≠ lslabNotUsedId) ∨
    ∃ r region t, lsregionAlignedReserve arenaSize s.region size (2 ^ k) answer =
        some (some r, region) ∧ region.Reserved size k r t ∧
      LsState.Inv arenaSize
      { s with region := region, pending := some (size, 2 ^ k) } done fl un := by
  refine lsregionAlignedReserve_spec h hsize hwrap hans fun t ht hn => ?_
  -- an unused slab was reserved for this allocation
  obtain ⟨sz, al, hp, p, hal, hle⟩ := h.reserved t ht hn
  obtain ⟨h1, h2⟩ := hpend sz al hp
  exact ⟨p, by rw [h2]; exact hal, by omega⟩

/-- `lsregion_aligned_alloc`. -/
theorem lsregionAlignedAlloc_good (h : s.Good arenaSize) (hsize : 1 ≤ size)
    (hpend : s.FollowsReserve size (2 ^ k)) (hwrap : s.region.NoWrap size (2 ^ k))
    (hans : s.region.Answer arenaSize size (2 ^ k) answer) (hid : 0 ≤ id)
    (hids : ∀ c ∈ s.chunks, c.id ≤ id) (data : Nat → β) :
    ∃ r region, lsregionAlignedAlloc arenaSize s.region size (2 ^ k) id answer = some (r, region) ∧
      (s.allocated r region size id data).Good arenaSize := by
  obtain ⟨h48, done, fl, un, h⟩ := h
  rcases h.reserve hsize hpend hwrap hans with ⟨heq, hused⟩ | ⟨r, region, t, heq, hr, hinv⟩
  · refine ⟨none, s.region, ?_, h48, done, fl, un, h.setPending_of_used hused none⟩
    unfold lsregionAlignedAlloc
    rw [heq]
    rfl
  · obtain ⟨region', un', huse, hinv'⟩ := hinv.useLast hr hsize hid hids data
    refine ⟨some r, region', ?_, h48, done, fl, un', hinv'⟩
    have hmod : (size + (r.pos - r.unaligned)) % sizeMax = r.pos - r.unaligned + size := by
      have hend := hinv.region.slab_last (List.mem_of_getLast? hr.last)
      have hfits := hr.fits
      rw [Nat.mod_eq_of_lt (by omega), Nat.add_comm]
    unfold lsregionAlignedAlloc
    rw [heq]
    simp only [Option.bind_eq_bind, Option.bind_some, hmod]
    rw [show region.useLast (r.pos - r.unaligned + size) id = some region' from huse]
    rfl

/-- `lsregion_alloc`. -/
theorem lsregionAlloc_good (h : s.Good arenaSize) (hsize : 1 ≤ size)
    (hpend : s.FollowsReserve size 1) (hwrap : s.region.NoWrap size 1)
    (hans : s.region.Answer arenaSize size 1 answer) (hid : 0 ≤ id)
    (hids : ∀ c ∈ s.chunks, c.id ≤ id) (data : Nat → β) :
    ∃ r region, lsregionAlloc arenaSize s.region size id answer = some (r, region) ∧
      (s.allocated r region size id data).Good arenaSize := by
  obtain ⟨h48, done, fl, un, h⟩ := h
  rcases h.reserve (k := 0) hsize hpend hwrap hans with ⟨heq, hused⟩ | ⟨r, region, t, heq, hr, hinv⟩
  · refine ⟨none, s.region, ?_, h48, done, fl, un, h.setPending_of_used hused none⟩
    unfold lsregionAlloc
    rw [lsregionReserve_of_aligned heq (by simp)]
    rfl
  · obtain ⟨region', un', huse, hinv'⟩ := hinv.useLast hr hsize hid hids data
    refine ⟨some r, region', ?_, h48, done, fl, un', hinv'⟩
    have hpos := hr.pos_eq
    rw [hpos, Nat.sub_self, Nat.zero_add] at huse
    unfold lsregionAlloc
    rw [lsregionReserve_of_aligned heq (by simpa using hpos)]
    simp only [Option.bind_eq_bind, Option.bind_some]
    rw [show region.useLast size id = some region' from huse]
    rfl

/-- `lsregion_aligned_reserve`, with no reservation before it. -/
theorem lsregionAlignedReserve_good (h : s.Good arenaSize) (hsize : 1 ≤ size)
    (hpend : s.pending = none) (hwrap : s.region.NoWrap size (2 ^ k))
    (hans : s.region.Answer arenaSize size (2 ^ k) answer) :
    ∃ r region, lsregionAlignedReserve arenaSize s.region size (2 ^ k) answer = some (r, region) ∧
      (∀ r', r = some r' → k = 0 → r'.pos = r'.unaligned) ∧
      LsState.Good arenaSize { s with region := region, pending := some (size, 2 ^ k) } := by
  obtain ⟨h48, done, fl, un, h⟩ := h
  have hfollows : s.FollowsReserve size (2 ^ k) := fun sz al hp => by simp [hpend] at hp
  rcases h.reserve hsize hfollows hwrap hans with ⟨heq, hused⟩ | ⟨r, region, t, heq, hr, hinv⟩
  · exact ⟨none, s.region, heq, by simp, h48, done, fl, un, h.setPending_of_used hused _⟩
  · refine ⟨some r, region, heq, ?_, h48, done, fl, un, hinv⟩
    rintro r' hr' rfl
    rw [Option.some.injEq] at hr'
    exact hr' ▸ hr.pos_eq

/-- Every call that the clients may make returns, if nothing wraps around, and keeps the
invariant. -/
theorem LsOp.exec_good (h : s.Good arenaSize) (op : LsOp β) (hop : op.Allowed arenaSize s)
    (hwrap : op.NoWrap s) : ∃ s', op.exec arenaSize s = some s' ∧ s'.Good arenaSize := by
  cases op with
  | alloc size id data answer =>
      obtain ⟨hsize, -, hid, hids, hpend, hans⟩ := hop
      obtain ⟨r, region, heq, hgood⟩ := lsregionAlloc_good h hsize hpend hwrap hans hid hids data
      exact ⟨_, by rw [LsOp.exec, heq]; rfl, hgood⟩
  | alignedAlloc size alignment id data answer =>
      obtain ⟨hsize, -, ⟨k, -, rfl⟩, hid, hids, hpend, hans⟩ := hop
      obtain ⟨r, region, heq, hgood⟩ :=
        lsregionAlignedAlloc_good h hsize hpend hwrap hans hid hids data
      exact ⟨_, by rw [LsOp.exec, heq]; rfl, hgood⟩
  | reserve size answer =>
      obtain ⟨hsize, -, hpend, hans⟩ := hop
      obtain ⟨r, region, heq, hpos, hgood⟩ :=
        lsregionAlignedReserve_good (k := 0) h hsize hpend hwrap hans
      have hres := lsregionReserve_of_aligned heq fun r' hr' => hpos r' hr' rfl
      exact ⟨_, by rw [LsOp.exec, hres]; rfl, hgood⟩
  | alignedReserve size alignment answer =>
      obtain ⟨hsize, -, ⟨k, -, rfl⟩, hpend, hans⟩ := hop
      obtain ⟨r, region, heq, -, hgood⟩ := lsregionAlignedReserve_good h hsize hpend hwrap hans
      exact ⟨_, by rw [LsOp.exec, heq]; rfl, hgood⟩
  | gc minId =>
      obtain ⟨h48, done, fl, un, h⟩ := h
      refine ⟨_, rfl, h48, done, fl, un,
        lsregionGcLoop_spec s.region.slabs s.region h fun c hc => ?_⟩
      exact hop c (by rw [h.unflushed_eq]; exact hc)
  | toIovec iovcnt =>
      obtain ⟨h48, done, fl, un, h⟩ := h
      obtain ⟨f, new, fl', un', heq, -, -, -, hinv, -⟩ := lsregionToIovec_spec h iovcnt
      exact ⟨_, by rw [LsOp.exec, heq]; rfl, h48, done ++ new, fl', un', hinv⟩
  | write mem =>
      obtain ⟨h48, done, fl, un, h⟩ := h
      exact ⟨_, rfl, h48, done, fl, un, h.frame hop⟩

/-! ## Nothing is lost, duplicated or reordered -/

/-- The log of the state `s` is flushed exactly: the bytes flushed so far are a prefix of the
allocated chunks, every call returns, and the next call of `lsregion_to_iovec` appends the chunks
`new`, all that are left if there is room for an iovec for each slab, and returns the id of the
last of them. -/
structure LsState.Lossless (M : Machine (LsState β) (LsOp β)) (s : LsState β) : Prop where
  flushed : s.flushed <+: bytesOf s.chunks
  returns : ∀ op, M.allowed s op → ∃ s', M.exec s op = some s'
  toIovec : ∀ iovcnt, ∃ f new, lsregionToIovec s.region iovcnt s.svp = some f ∧
    f.iov.length ≤ iovcnt ∧ readIov s.mem f.iov = bytesOf new ∧
    new <+: unflushed s.flushed.length s.chunks ∧
    s.flushed ++ readIov s.mem f.iov <+: bytesOf s.chunks ∧
    (s.region.slabs.length ≤ iovcnt → s.flushed ++ readIov s.mem f.iov = bytesOf s.chunks) ∧
    f.maxAllocId = lastId lslabNotUsedId new ∧
    (f.maxAllocId = lslabNotUsedId ↔ readIov s.mem f.iov = [])

theorem LsState.Inv.lossless {M : Machine (LsState β) (LsOp β)} {done : List (Chunk β)}
    {fl un : Int → List (Chunk β)} (h : s.Inv arenaSize done fl un)
    (hreturns : ∀ op, M.allowed s op → ∃ s', M.exec s op = some s') : s.Lossless M where
  flushed := by
    rw [h.flushed, h.chunks, bytesOf_append]
    exact List.prefix_append _ _
  returns := hreturns
  toIovec := fun iovcnt => by
    obtain ⟨f, new, fl', un', heq, hbytes, hid, hcount, hinv, hwhole⟩ :=
      lsregionToIovec_spec h iovcnt
    have hchunks : s.chunks = (done ++ new) ++ _ := hinv.chunks
    have hnew : new <+: unflushed s.flushed.length s.chunks := by
      have hsame := h.chunks
      rw [hchunks, List.append_assoc] at hsame
      rw [h.unflushed_eq, ← List.append_cancel_left hsame]
      exact List.prefix_append _ _
    have hne : ∀ c ∈ new, c.bytes ≠ [] ∧ 0 ≤ c.id := by
      intro c hc
      have := hnew.subset hc
      rw [h.unflushed_eq] at this
      obtain ⟨t, ht, hct⟩ := List.mem_flatMap.mp this
      exact ⟨(h.holds t ht).nonempty c (List.mem_append_right _ hct),
        (h.holds t ht).nonneg c (List.mem_append_right _ hct)⟩
    refine ⟨f, new, heq, hcount, hbytes, hnew, ?_, fun hroom => ?_, hid, ?_⟩
    · rw [h.flushed, hbytes, ← bytesOf_append, hchunks, bytesOf_append (done ++ new)]
      exact List.prefix_append _ _
    · rw [h.flushed, hbytes, ← bytesOf_append, hwhole hroom]
    · rw [hid, hbytes]
      rcases List.eq_nil_or_concat' new with hnil | ⟨cs, c, hcs⟩
      · simp [hnil]
      · have hc := hne c (by simp [hcs])
        have hid0 : lastId lslabNotUsedId new ≠ lslabNotUsedId := by
          rw [hcs]
          simp [lastId, lslabNotUsedId]
          omega
        have hb0 : bytesOf new ≠ [] := by
          rw [hcs, bytesOf_append]
          simp [bytesOf, hc.1]
        exact iff_of_false hid0 hb0

/-- **`lsregion_to_iovec` flushes the log without loss, duplication or reordering**, in every run
in which no address or size computation wraps around. -/
theorem lsregion_flushes_log (arenaSize : Nat) (s : LsState β)
    (hs : (lsMachineNoWrap β arenaSize).Reachable s) :
    s.Lossless (lsMachineNoWrap β arenaSize) := by
  obtain ⟨⟨-, done, fl, un, h⟩, hstep⟩ := (lsMachineNoWrap β arenaSize).invariant
    (P := LsState.Good arenaSize) (fun _ => LsState.Init.good)
    (fun _ op hgood hop => LsOp.exec_good hgood op hop.1 hop.2) hs
  refine h.lossless fun op hop => ?_
  obtain ⟨s', heq, -⟩ := hstep op hop
  exact ⟨s', heq⟩

/-- A new region. -/
def newRegion : LsState UInt8 where
  region := { slabs := [], cached := none, slabId := 0, used := 0, total := 0,
              calls := ⟨[], [], [], []⟩ }
  mem := fun _ => 0
  svp := lsregionSvpCreate
  chunks := []
  flushed := []
  pending := none

theorem newRegion_init : LsState.Init 4096 newRegion := ⟨rfl, rfl, rfl, rfl, rfl⟩

/-- Three chunks in slabs of their own, the last one from `malloc`. The first one is flushed and its
slab collected. -/
def threeChunks : List (LsOp UInt8) :=
  [.alloc 10 0 (fun _ => 1) (some 1024), .alloc 10 1 (fun _ => 2) (some 2048),
    .alignedAlloc 20 8 2 (fun _ => 3) (some 4096), .toIovec 1, .gc 0]

theorem lsregion_flushes_log_three_chunks :
    ∃ s, (lsMachineNoWrap UInt8 64).Reachable s ∧ s.region.slabs.map Lslab.maxId = [1, 2] ∧
      s.flushed = List.replicate 10 1 ∧ s.Lossless (lsMachineNoWrap UInt8 64) := by
  have hrun : ((lsMachineNoWrap UInt8 64).run (fun s op => decide (op.Allowed 64 s ∧ op.NoWrap s))
      threeChunks newRegion).map (fun s => (s.region.slabs.map Lslab.maxId, s.flushed)) =
        some ([1, 2], List.replicate 10 1) := by
    decide +kernel
  obtain ⟨s, hs, heq⟩ := Option.map_eq_some_iff.1 hrun
  rw [Prod.mk.injEq] at heq
  have hreach := Machine.Reachable.run (lsMachineNoWrap UInt8 64)
    (fun _ _ h => (decide_eq_true_iff (p := _ ∧ _)).1 h) threeChunks
    (.init (s := newRegion) ⟨rfl, rfl, rfl, rfl, rfl⟩) hs
  exact ⟨s, hreach, heq.1, heq.2, lsregion_flushes_log 64 s hreach⟩

/-- One chunk of a byte in the first slab, at address 8192. -/
def oneChunk : Lsregion where
  slabs := [{ addr := 8192, slabSize := 4096, slabUsed := 49, slabId := 1, maxId := 0 }]
  cached := none
  slabId := 1
  used := 1
  total := 4096
  calls := { maps := [8192], mallocs := [], unmaps := [], frees := [] }

theorem oneChunk_alloc :
    lsregionAlloc 4096 newRegion.region 1 0 (some 8192) =
      some (some { pos := 8240, unaligned := 8240 }, oneChunk) := by
  decide

/-- The state after that allocation. -/
def oneChunkState : LsState UInt8 where
  region := oneChunk
  mem := fill (fun _ => 0) 8240 1 fun _ => 0
  svp := lsregionSvpCreate
  chunks := [newChunk (fun _ => 0) { pos := 8240, unaligned := 8240 } 1 0 fun _ => 0]
  flushed := []
  pending := none

theorem oneChunk_allowed :
    LsOp.Allowed 4096 newRegion (.alloc 1 0 (fun _ => 0) (some 8192)) := by
  refine ⟨by decide, by decide, by decide, by simp [newRegion], ?_, ?_⟩
  · simp [LsState.FollowsReserve, newRegion]
  · intro addr haddr
    rw [Option.some.injEq] at haddr
    subst haddr
    exact ⟨by decide, by simp [newRegion, Lsregion.blocks]⟩

theorem oneChunk_exec :
    LsOp.exec 4096 newRegion (.alloc 1 0 (fun _ => 0) (some 8192)) = some oneChunkState := by
  rw [LsOp.exec, oneChunk_alloc]
  rfl

/-- The slab after an allocation of `SIZE_MAX` bytes: only 6 bytes of it are in use. -/
def wrappedChunk : Lsregion :=
  { oneChunk with
    slabs := [{ addr := 8192, slabSize := 4096, slabUsed := 55, slabId := 1, maxId := 0 }]
    used := 7 }

/-- An allocation of `SIZE_MAX` bytes succeeds in a slab of 4096 bytes: the end of the chunk wraps
around to its start, and the size with the padding wraps around to 6. -/
theorem wrappedChunk_alloc :
    lsregionAlignedAlloc 4096 oneChunk (sizeMax - 1) 8 0 none =
      some (some { pos := 8248, unaligned := 8241 }, wrappedChunk) := by
  decide

/-- **Where a computation wraps around, the log is not flushed.** -/
theorem lsregion_loses_log_of_wrap :
    ¬ ∀ s, (lsMachine UInt8 4096).Reachable s → s.Lossless (lsMachine UInt8 4096) := by
  intro hall
  have hone : (lsMachine UInt8 4096).Reachable oneChunkState :=
    .step (.alloc 1 0 (fun _ => 0) (some 8192))
      (.init newRegion_init) oneChunk_allowed oneChunk_exec
  have hallowed : LsOp.Allowed 4096 oneChunkState
      (.alignedAlloc (sizeMax - 1) 8 0 (fun _ => 0) none) := by
    refine ⟨by decide, by decide, ⟨3, by decide, rfl⟩, by decide, ?_, ?_, by simp [Lsregion.Answer]⟩
    · intro c hc
      rw [oneChunkState, List.mem_singleton] at hc
      rw [hc]
      decide
    · simp [LsState.FollowsReserve, oneChunkState]
  set s := oneChunkState.useChunk wrappedChunk { pos := 8248, unaligned := 8241 } (sizeMax - 1) 0
    (fun _ => 0) with hs
  have hexec : LsOp.exec 4096 oneChunkState (.alignedAlloc (sizeMax - 1) 8 0 (fun _ => 0) none) =
      some s := by
    rw [LsOp.exec, show oneChunkState.region = oneChunk from rfl, wrappedChunk_alloc]
    rfl
  obtain ⟨f, new, hf, -, -, -, -, hwhole, -⟩ := (hall s
    (.step (.alignedAlloc (sizeMax - 1) 8 0 (fun _ => 0) none) hone hallowed hexec)).toIovec 1
  have hiov : f = { iov := [{ base := 8240, len := 7 }]
                    svp := { slabId := 1, pos := 7 }
                    maxAllocId := 0 } := by
    have : lsregionToIovec wrappedChunk 1 lsregionSvpCreate = some f := hf
    rw [← Option.some.injEq, ← this]
    decide
  have hlen := congrArg List.length (hwhole (Nat.le_refl 1))
  rw [hs, hiov] at hlen
  simp [LsState.useChunk, oneChunkState, readIov, bytesOf, newChunk, sizeMax] at hlen

end SmallAllocators
