/-
SmallAllocators.Lsregion.Invariant — the invariant of the log structured
allocator.

The state is the region and its memory, together with what the clients did:
the chunks they allocated, the bytes they flushed on one savepoint, and the
reservation that no allocation followed yet. The invariant says where the
chunks are: the unflushed ones, in order, in the slabs of the list. What it
says of the slabs themselves is `Lsregion.Inv`.

Each operation has one theorem here, under the conditions that the clients
promise (the contract that the ASAN build asserts) and that no address or
size computation wraps around.
-/
import SmallAllocators.Lsregion.Flush
import SmallAllocators.Lsregion.Slabs

namespace SmallAllocators

open Memory

variable {β : Type}

/-- The region, its memory, and the history of the clients. -/
structure LsState (β : Type) where
  region : Lsregion
  mem : Nat → β
  svp : LsregionSvp
  /-- The chunks allocated so far, in order. -/
  chunks : List (Chunk β)
  /-- The bytes of all iovecs produced so far. -/
  flushed : List β
  /-- Size and alignment of a reservation that no allocation followed yet. -/
  pending : Option (Nat × Nat)

structure LsState.Inv (arenaSize : Nat) (s : LsState β) (done : List (Chunk β))
    (fl un : Int → List (Chunk β)) : Prop where
  region : s.region.Inv arenaSize sizeMax
  chunks : s.chunks = done ++ s.region.slabs.flatMap fun t => un t.slabId
  flushed : s.flushed = bytesOf done
  holds : ∀ t ∈ s.region.slabs, Holds s.mem s.svp t (fl t.slabId) (un t.slabId)
  newest : ∀ t, s.region.slabs.getLast? = some t → t.slabId = s.region.slabId
  svpBound : s.svp.slabId ≤ s.region.slabId
  fresh : ∀ i, s.region.slabId < i → fl i = [] ∧ un i = []
  sorted : s.chunks.Pairwise fun c d => c.id ≤ d.id
  placed : ∀ t ∈ s.region.slabs, ∀ c ∈ fl t.slabId, c ∈ s.chunks
  unused : ∀ t ∈ s.region.slabs.dropLast, t.maxId ≠ lslabNotUsedId
  reserved : ∀ t, s.region.slabs.getLast? = some t → t.maxId = lslabNotUsedId →
    ∃ size alignment, s.pending = some (size, alignment) ∧ t.Fits size alignment

variable {arenaSize : Nat} {s : LsState β} {done : List (Chunk β)} {fl un : Int → List (Chunk β)}
  {size alignment k : Nat} {answer : Option Nat}

/-! ## Reserving -/

/-- A new, empty slab at the end of the list. -/
theorem LsState.Inv.addSlab (h : s.Inv arenaSize done fl un) {addr n total : Nat}
    {cached : Option Lslab} {calls : LsCalls}
    (hused : ∀ t, s.region.slabs.getLast? = some t → t.maxId ≠ lslabNotUsedId)
    (hnew : NewSlab arenaSize s.region addr n total cached calls)
    (hgets : s.region.Gets arenaSize size k answer addr n cached)
    (hfits : (lslabCreate addr n (s.region.slabId + 1)).Fits size (2 ^ k)) :
    LsState.Inv arenaSize
      { s with
        region := s.region.withSlab addr n total cached calls
        pending := some (size, 2 ^ k) } done fl un := by
  set t := lslabCreate addr n (s.region.slabId + 1) with ht
  have hfresh := h.fresh (s.region.slabId + 1) (by omega)
  have hslabs : (s.region.withSlab addr n total cached calls).slabs = s.region.slabs ++ [t] := rfl
  constructor
  case region => exact h.region.withSlab hnew hgets hgets.last
  case chunks =>
    show s.chunks = done ++ (s.region.slabs ++ [t]).flatMap fun t => un t.slabId
    rw [List.flatMap_append, h.chunks]
    simp [ht, lslabCreate, hfresh.2]
  case flushed => exact h.flushed
  case holds =>
    intro u hu
    rcases List.mem_append.mp hu with hu | hu
    · exact h.holds u hu
    · rw [List.mem_singleton] at hu
      subst hu
      refine ⟨?_, ?_, ?_, ?_, ?_, Nat.le_refl _⟩
      · simp [lslabCreate, hfresh.1, hfresh.2]
      · have := h.svpBound
        rw [flushedIn_of_gt (by simp only [lslabCreate]; omega)]
        simp [lslabCreate, hfresh.1]
      · simp [lslabCreate, hfresh.1, hfresh.2]
      · simp [lslabCreate, hfresh.1, hfresh.2]
      · simp [lslabCreate, hfresh.1, hfresh.2]
  case newest =>
    intro u hu
    rw [hslabs, List.getLast?_concat, Option.some.injEq] at hu
    rw [← hu]
    rfl
  case svpBound =>
    have := h.svpBound
    show s.svp.slabId ≤ s.region.slabId + 1
    omega
  case fresh =>
    intro i hi
    have hi' : s.region.slabId + 1 < i := hi
    exact h.fresh i (by omega)
  case sorted => exact h.sorted
  case placed =>
    intro u hu c hc
    rcases List.mem_append.mp hu with hu | hu
    · exact h.placed u hu c hc
    · rw [List.mem_singleton] at hu
      simp [hu, lslabCreate, hfresh.1] at hc
  case unused =>
    intro u hu
    rw [hslabs, List.dropLast_concat] at hu
    rcases List.eq_nil_or_concat' s.region.slabs with hnil | ⟨us, v, hsl⟩
    · simp [hnil] at hu
    · rw [hsl] at hu
      rcases List.mem_append.mp hu with hu | hu
      · exact h.unused u (by rw [hsl, List.dropLast_concat]; exact hu)
      · rw [List.mem_singleton] at hu
        exact hused u (by rw [hsl, hu]; simp)
  case reserved =>
    intro u hu _
    rw [hslabs, List.getLast?_concat, Option.some.injEq] at hu
    exact ⟨size, 2 ^ k, rfl, hu ▸ hfits⟩

/-- The state is the same up to a longer reservation history. -/
theorem LsState.Inv.setPending (h : s.Inv arenaSize done fl un) {t : Lslab}
    (ht : s.region.slabs.getLast? = some t) (hfits : t.Fits size alignment) :
    LsState.Inv arenaSize { s with pending := some (size, alignment) } done fl un :=
  { h with
    reserved := fun u hu _ => by
      rw [ht, Option.some.injEq] at hu
      exact ⟨size, alignment, rfl, hu ▸ hfits⟩ }

/-- The state after a failed reservation. -/
theorem LsState.Inv.setPending_of_used (h : s.Inv arenaSize done fl un)
    (hused : ∀ t, s.region.slabs.getLast? = some t → t.maxId ≠ lslabNotUsedId)
    (pending : Option (Nat × Nat)) :
    LsState.Inv arenaSize { s with pending := pending } done fl un :=
  { h with reserved := fun u hu hn => absurd hn (hused u hu) }

theorem LsState.Inv.layout (h : s.Inv arenaSize done fl un) : s.region.Layout arenaSize :=
  h.region.layout (Nat.le_refl _)

/-- `lsregion_aligned_reserve` finds room in the last slab, or returns `NULL` and changes
nothing. -/
theorem lsregionAlignedReserve_spec (h : s.Inv arenaSize done fl un)
    (hsize : 1 ≤ size) (hwrap : s.region.NoWrap size (2 ^ k))
    (hans : s.region.Answer arenaSize size (2 ^ k) answer)
    (hunused : ∀ t, s.region.slabs.getLast? = some t → t.maxId = lslabNotUsedId →
      t.Fits size (2 ^ k)) :
    (lsregionAlignedReserve arenaSize s.region size (2 ^ k) answer = some (none, s.region) ∧
      ∀ t, s.region.slabs.getLast? = some t → t.maxId ≠ lslabNotUsedId) ∨
    ∃ r region t, lsregionAlignedReserve arenaSize s.region size (2 ^ k) answer =
        some (some r, region) ∧ region.Reserved size k r t ∧
      LsState.Inv arenaSize
      { s with region := region, pending := some (size, 2 ^ k) } done fl un := by
  -- a slab that was reserved and not used has room
  have hused : s.region.Full size k →
      ∀ t, s.region.slabs.getLast? = some t → t.maxId ≠ lslabNotUsedId := by
    intro hfull t ht hn
    obtain ⟨p, hp, hle⟩ := hunused t ht hn
    rw [smallAlign_eq (hwrap.align t ht), Option.some.injEq] at hp
    exact hfull t ht (hp ▸ hle)
  rcases lsregionAlignedReserve_cases h.layout hwrap hans (h.layout.canAlign hsize hwrap hans) with
    ⟨heq, hfull⟩ | ⟨r, t, heq, hr⟩ | ⟨addr, n, total, cached, calls, r, hnew, hgets, hfull, heq, hr⟩
  · exact Or.inl ⟨heq, hused hfull⟩
  · refine Or.inr ⟨r, s.region, t, heq, hr, ?_⟩
    exact h.setPending hr.last ⟨r.pos, by rw [hr.pos]; exact smallAlign_eq hr.align, hr.fits⟩
  · refine Or.inr ⟨r, _, _, heq, hr, ?_⟩
    exact h.addSlab (hused hfull) hnew hgets ⟨r.pos, by rw [hr.pos]; exact smallAlign_eq hr.align,
      hr.fits⟩

/-! ## Allocating -/

/-- The chunk that an allocation of `size` bytes at the reservation `r` makes. -/
def newChunk (mem : Nat → β) (r : Reservation) (size : Nat) (id : Int) (data : Nat → β) :
    Chunk β where
  id := id
  bytes := read (fill mem r.pos size data) r.unaligned (r.pos - r.unaligned + size)

/-- The state after `lslab_use`, with the data of the client in the chunk. -/
def LsState.useChunk (s : LsState β) (region : Lsregion) (r : Reservation) (size : Nat) (id : Int)
    (data : Nat → β) : LsState β :=
  { s with
    region := region
    mem := fill s.mem r.pos size data
    chunks := s.chunks ++ [newChunk s.mem r size id data]
    pending := none }

/-- The slabs that are not the last one keep their chunks. -/
theorem holds_of_apart {svp : LsregionSvp} {mem : Nat → β} {data : Nat → β} {t : Lslab} {a n : Nat}
    {cs ds : List (Chunk β)} (h : Holds mem svp t cs ds) (hused : t.slabUsed ≤ t.slabSize)
    (hout : t.last ≤ a ∨ a + n ≤ t.addr) : Holds (fill mem a n data) svp t cs ds :=
  { h with
    data := by
      rw [← h.data]
      refine read_fill_of_disjoint fun x h1 h2 => ?_
      have := h.sizeof_le
      simp only [Lslab.last] at hout
      omega }

/-- The chunks of a slab have ids up to `maxId`. -/
theorem LsState.Inv.maxId_le (h : s.Inv arenaSize done fl un) {t : Lslab} {id : Int}
    (ht : t ∈ s.region.slabs) (hid : 0 ≤ id) (hids : ∀ c ∈ s.chunks, c.id ≤ id) : t.maxId ≤ id := by
  rw [(h.holds t ht).maxId]
  rcases List.eq_nil_or_concat' (fl t.slabId ++ un t.slabId) with hnil | ⟨cs, c, hcs⟩
  · rw [hnil, lastId_nil, lslabNotUsedId]
    omega
  · have hc : c ∈ s.chunks := by
      have hmem : c ∈ fl t.slabId ++ un t.slabId := by rw [hcs]; simp
      rcases List.mem_append.mp hmem with hc | hc
      · exact h.placed t ht c hc
      · rw [h.chunks]
        exact List.mem_append_right _ (List.mem_flatMap.mpr ⟨t, ht, hc⟩)
    rw [hcs]
    simpa [lastId] using hids c hc

/-- The last slab holds its chunks and the new one. -/
theorem LsState.Inv.holds_newChunk (h : s.Inv arenaSize done fl un) {r : Reservation} {t : Lslab}
    {id : Int} (hr : s.region.Reserved size k r t) (hsize : 1 ≤ size) (hid : 0 ≤ id)
    (data : Nat → β) :
    Holds (fill s.mem r.pos size data) s.svp (t.grown (r.pos - r.unaligned + size) id) (fl t.slabId)
      (un t.slabId ++ [newChunk s.mem r size id data]) := by
  have htm : t ∈ s.region.slabs := List.mem_of_getLast? hr.last
  have ht := h.holds t htm
  have hsz := ht.sizeof_le
  have hle : t.pos ≤ r.pos := by rw [hr.pos]; exact le_alignUp _ _
  set n := r.pos - r.unaligned + size with hn
  set c := newChunk s.mem r size id data with hc
  have hcpos : 0 < c.bytes.length := by
    simp only [hc, newChunk, read_length]
    omega
  have hnew : s.svp.slabId ≤ t.slabId := (h.newest t hr.last) ▸ h.svpBound
  have hfl : flushedIn s.svp (t.grown n id) = flushedIn s.svp t := by
    by_cases heq : t.slabId = s.svp.slabId
    · rw [flushedIn_of_eq (show (t.grown n id).slabId = _ from heq), flushedIn_of_eq heq]
    · have hgt : s.svp.slabId < t.slabId := by omega
      rw [flushedIn_of_gt (show _ < (t.grown n id).slabId from hgt), flushedIn_of_gt hgt]
  constructor
  case data =>
    -- the old contents of the slab, and the chunk behind them
    have hold : read (fill s.mem r.pos size data) (t.addr + lslabSizeof)
        (t.slabUsed - lslabSizeof) = bytesOf (fl t.slabId) ++ bytesOf (un t.slabId) := by
      rw [← ht.data]
      refine read_fill_of_disjoint fun x h1 h2 => ?_
      simp only [Lslab.pos] at hle
      omega
    have hsplit : t.slabUsed + n - lslabSizeof = (t.slabUsed - lslabSizeof) + n := by omega
    have hstart : t.addr + lslabSizeof + (t.slabUsed - lslabSizeof) = r.unaligned := by
      rw [hr.unaligned, Lslab.pos]
      omega
    show read (fill s.mem r.pos size data) (t.addr + lslabSizeof) (t.slabUsed + n - lslabSizeof) = _
    rw [hsplit, read_add, hold, hstart, bytesOf_append, List.append_assoc]
    simp [bytesOf, hc, newChunk, hn]
  case flushed => rw [ht.flushed, hfl]
  case maxId =>
    rw [← List.append_assoc]
    simp [lastId, Lslab.grown, hc, newChunk]
  case nonneg =>
    intro d hd
    rw [← List.append_assoc] at hd
    rcases List.mem_append.mp hd with hd | hd
    · exact ht.nonneg d hd
    · obtain rfl := List.mem_singleton.mp hd
      exact hid
  case nonempty =>
    intro d hd
    rw [← List.append_assoc] at hd
    rcases List.mem_append.mp hd with hd | hd
    · exact ht.nonempty d hd
    · obtain rfl := List.mem_singleton.mp hd
      exact List.ne_nil_of_length_pos hcpos
  case sizeof_le => exact hsz.trans (Nat.le_add_right _ _)

/-- `lslab_use` on the last slab, for a chunk that a reservation found room for. -/
theorem LsState.Inv.useLast (h : s.Inv arenaSize done fl un) {r : Reservation} {t : Lslab}
    {id : Int} (hr : s.region.Reserved size k r t) (hsize : 1 ≤ size) (hid : 0 ≤ id)
    (hids : ∀ c ∈ s.chunks, c.id ≤ id) (data : Nat → β) :
    ∃ region un', s.region.useLast (r.pos - r.unaligned + size) id = some region ∧
      (s.useChunk region r size id data).Inv arenaSize done fl un' := by
  have htm : t ∈ s.region.slabs := List.mem_of_getLast? hr.last
  obtain ⟨us, hslabs, huse, hregion⟩ := h.region.useLast hr (h.maxId_le htm hid hids)
  have hlast := h.holds_newChunk hr hsize hid data
  set n := r.pos - r.unaligned + size with hn
  set c := newChunk s.mem r size id data
  set un' : Int → List (Chunk β) := fun i => if i = t.slabId then un i ++ [c] else un i with hun'
  have hold : ∀ u ∈ us, un' u.slabId = un u.slabId := by
    intro u hu
    have hlt := (h.region.before_last hslabs hu).1
    simp only [hun', if_neg (by omega : ¬ u.slabId = t.slabId)]
  have hsub : ∀ u ∈ us, u ∈ s.region.slabs := fun u hu => by simp [hslabs, hu]
  refine ⟨s.region.withUse us t n id, un', huse, ?_⟩
  constructor
  case region => exact hregion
  case chunks =>
    show s.chunks ++ [c] = done ++ (us ++ [t.grown n id]).flatMap fun u => un' u.slabId
    have hus : (us.flatMap fun u => un' u.slabId) = us.flatMap fun u => un u.slabId :=
      List.flatMap_congr fun u hu => hold u hu
    rw [List.flatMap_append, hus, h.chunks, hslabs, List.flatMap_append]
    simp [hun', Lslab.grown]
  case flushed => exact h.flushed
  case holds =>
    intro u hu
    rcases List.mem_append.mp hu with hu | hu
    · rw [hold u hu]
      refine holds_of_apart (h.holds u (hsub u hu)) (h.region.bounds u (hsub u hu)).1 ?_
      have hap := (h.region.before_last hslabs hu).2
      have hused := (h.region.bounds t htm).1
      have hle : t.pos ≤ r.pos := by rw [hr.pos]; exact le_alignUp _ _
      have hfits := hr.fits
      simp only [Lslab.Apart, Lslab.last, Lslab.pos] at *
      omega
    · obtain rfl := List.mem_singleton.mp hu
      have hun : un' t.slabId = un t.slabId ++ [c] := if_pos rfl
      show Holds _ _ _ (fl t.slabId) (un' t.slabId)
      rw [hun]
      exact hlast
  case newest =>
    intro u hu
    have hu' : (us ++ [t.grown n id]).getLast? = some u := hu
    rw [List.getLast?_concat, Option.some.injEq] at hu'
    rw [← hu']
    exact h.newest t hr.last
  case svpBound => exact h.svpBound
  case fresh =>
    intro i hi
    have hi' : s.region.slabId < i := hi
    have hbound := h.region.idBound t htm
    refine ⟨(h.fresh i hi').1, ?_⟩
    simp only [hun', if_neg (by omega : ¬ i = t.slabId), (h.fresh i hi').2]
  case sorted =>
    refine List.pairwise_append.mpr ⟨h.sorted, List.pairwise_singleton _ _, fun d hd e he => ?_⟩
    obtain rfl := List.mem_singleton.mp he
    exact hids d hd
  case placed =>
    intro u hu d hd
    refine List.mem_append_left _ ?_
    rcases List.mem_append.mp hu with hu | hu
    · exact h.placed u (hsub u hu) d hd
    · obtain rfl := List.mem_singleton.mp hu
      exact h.placed t htm d hd
  case unused =>
    intro u hu
    have hu' : u ∈ (us ++ [t.grown n id]).dropLast := hu
    rw [List.dropLast_concat] at hu'
    exact h.unused u (by rw [hslabs, List.dropLast_concat]; exact hu')
  case reserved =>
    intro u hu hnu
    have hu' : (us ++ [t.grown n id]).getLast? = some u := hu
    rw [List.getLast?_concat, Option.some.injEq] at hu'
    rw [← hu'] at hnu
    simp only [Lslab.grown, lslabNotUsedId] at hnu
    omega

/-! ## Garbage collection -/

/-- `lsregion_gc` frees the oldest slab: all its chunks are flushed. -/
theorem LsState.Inv.dropFirst {region : Lsregion} {t : Lslab} {ts : List Lslab}
    (h : LsState.Inv arenaSize { s with region := { region with slabs := t :: ts } } done fl un)
    {minId : Int} (hmin : t.maxId ≤ minId)
    (hun : ∀ c ∈ (t :: ts).flatMap fun u => un u.slabId, minId < c.id) :
    LsState.Inv arenaSize { s with region := { lsregionDrop arenaSize region t with slabs := ts } }
      done fl un := by
  have ht := h.holds t List.mem_cons_self
  have hnone : un t.slabId = [] := by
    rcases List.eq_nil_or_concat' (un t.slabId) with hnil | ⟨cs, c, hcs⟩
    · exact hnil
    · have hc : c ∈ (t :: ts).flatMap fun u => un u.slabId :=
        List.mem_flatMap.mpr ⟨t, List.mem_cons_self, by simp [hcs]⟩
      have hid : t.maxId = c.id := by
        rw [ht.maxId, hcs, ← List.append_assoc]
        simp [lastId]
      have := hun c hc
      omega
  have hsub : ∀ u ∈ ts, u ∈ t :: ts := fun u hu => List.mem_cons_of_mem _ hu
  have hlast : ∀ u, ts.getLast? = some u → (t :: ts).getLast? = some u := by
    intro u hu
    cases ts with
    | nil => simp at hu
    | cons v vs => simpa using hu
  have hid := lsregionDrop_slabId arenaSize region t
  constructor
  case region => exact h.region.dropFirst
  case chunks =>
    have hchunks : s.chunks = done ++ (t :: ts).flatMap fun u => un u.slabId := h.chunks
    rwa [List.flatMap_cons, hnone, List.nil_append] at hchunks
  case flushed => exact h.flushed
  case holds => exact fun u hu => h.holds u (hsub u hu)
  case newest =>
    intro u hu
    rw [hid]
    exact h.newest u (hlast u hu)
  case svpBound =>
    rw [hid]
    exact h.svpBound
  case fresh =>
    intro i hi
    rw [hid] at hi
    exact h.fresh i hi
  case sorted => exact h.sorted
  case placed => exact fun u hu => h.placed u (hsub u hu)
  case unused =>
    intro u hu
    refine h.unused u ?_
    cases ts with
    | nil => simp at hu
    | cons v vs => exact List.mem_cons_of_mem _ hu
  case reserved => exact fun u hu hn => h.reserved u (hlast u hu) hn

/-- `lsregion_gc` of an id that is smaller than that of every unflushed chunk. -/
theorem lsregionGcLoop_spec {minId : Int} (ts : List Lslab) (region : Lsregion)
    (h : LsState.Inv arenaSize { s with region := { region with slabs := ts } } done fl un)
    (hun : ∀ c ∈ ts.flatMap fun u => un u.slabId, minId < c.id) :
    LsState.Inv arenaSize
      { s with region := lsregionGcLoop arenaSize minId ts region } done fl un := by
  induction ts generalizing region with
  | nil => exact h
  | cons t ts ih =>
      unfold lsregionGcLoop
      split
      · exact h
      · next hgt =>
          refine ih _ (h.dropFirst (Int.not_lt.mp hgt) hun) fun c hc => hun c ?_
          rw [List.flatMap_cons]
          exact List.mem_append_right _ hc

/-! ## Flushing -/

/-- A call of `lsregion_to_iovec` flushes the unflushed chunks `new`, a prefix of those there are,
and all of them if there is room for an iovec for each slab. -/
theorem lsregionToIovec_spec (h : s.Inv arenaSize done fl un) (iovcnt : Nat) :
    ∃ f new fl' un', lsregionToIovec s.region iovcnt s.svp = some f ∧
      readIov s.mem f.iov = bytesOf new ∧
      f.maxAllocId = lastId lslabNotUsedId new ∧ f.iov.length ≤ iovcnt ∧
      LsState.Inv arenaSize
        { s with svp := f.svp, flushed := s.flushed ++ readIov s.mem f.iov } (done ++ new) fl' un' ∧
      (s.region.slabs.length ≤ iovcnt → s.chunks = done ++ new) := by
  obtain ⟨f, ys, zs, hf, hfl⟩ :=
    toIovecLoop_spec fl un iovcnt s.svp lslabNotUsedId h.region.ids h.holds
    h.unused (Or.inl rfl)
  set new := ys.flatMap fun t => un t.slabId with hnew
  -- the chunks of the slabs `ys` are flushed now
  set fl' : Int → List (Chunk β) := fun i =>
    if i ∈ ys.map Lslab.slabId then fl i ++ un i else fl i with hfl'
  set un' : Int → List (Chunk β) := fun i =>
    if i ∈ ys.map Lslab.slabId then [] else un i with hun'
  have hsplit := hfl.split
  have hids := h.region.ids
  rw [hsplit] at hids
  have hzs : ∀ t ∈ zs, t.slabId ∉ ys.map Lslab.slabId := by
    intro t ht hmem
    obtain ⟨u, hu, he⟩ := List.mem_map.mp hmem
    have := (List.pairwise_append.mp hids).2.2 u hu t ht
    omega
  have hys : ∀ t ∈ ys, t.slabId ∈ ys.map Lslab.slabId := fun t ht => List.mem_map_of_mem ht
  have hflat : (s.region.slabs.flatMap fun t => un t.slabId) =
      new ++ zs.flatMap fun t => un t.slabId := by
    rw [hsplit, List.flatMap_append]
  refine ⟨f, new, fl', un', hf, hfl.bytes, hfl.id, hfl.count, ?_, ?_⟩
  · constructor
    case region => exact h.region
    case chunks =>
      have h1 : (ys.flatMap fun t => un' t.slabId) = [] := by
        rw [List.flatMap_eq_nil_iff]
        intro t ht
        simp only [hun', if_pos (hys t ht)]
      have h2 : (zs.flatMap fun t => un' t.slabId) = zs.flatMap fun t => un t.slabId :=
        List.flatMap_congr fun t ht => by simp only [hun', if_neg (hzs t ht)]
      show s.chunks = (done ++ new) ++ s.region.slabs.flatMap fun t => un' t.slabId
      rw [h.chunks, hflat, List.append_assoc]
      congr 2
      rw [hsplit, List.flatMap_append, h1, h2, List.nil_append]
    case flushed =>
      show s.flushed ++ readIov s.mem f.iov = _
      rw [h.flushed, hfl.bytes, bytesOf_append]
    case holds =>
      intro t ht
      have ht' : t ∈ s.region.slabs := ht
      have hold := h.holds t ht'
      rw [hsplit] at ht'
      rcases List.mem_append.mp ht' with hty | htz
      · have hfl0 :
            fl' t.slabId = fl t.slabId ++ un t.slabId := by simp only [hfl', if_pos (hys t hty)]
        have hun0 : un' t.slabId = [] := by simp only [hun', if_pos (hys t hty)]
        rw [hfl0, hun0]
        refine ⟨?_, ?_, ?_, ?_, ?_, hold.sizeof_le⟩
        · rw [bytesOf_append, bytesOf_nil, List.append_nil]
          exact hold.data
        · show _ = flushedIn f.svp t
          rw [hfl.covered t hty, bytesOf_append, ← hold.data, read_length]
        · rw [List.append_nil]
          exact hold.maxId
        · rw [List.append_nil]
          exact hold.nonneg
        · rw [List.append_nil]
          exact hold.nonempty
      · have hfl0 : fl' t.slabId = fl t.slabId := by simp only [hfl', if_neg (hzs t htz)]
        have hun0 : un' t.slabId = un t.slabId := by simp only [hun', if_neg (hzs t htz)]
        rw [hfl0, hun0]
        refine { hold with flushed := ?_ }
        show _ = flushedIn f.svp t
        rw [hfl.rest t htz]
        exact hold.flushed
    case newest => exact h.newest
    case svpBound =>
      rcases hfl.savepoint with he | ⟨t, ht, he⟩
      · show f.svp.slabId ≤ _
        rw [he]
        exact h.svpBound
      · show f.svp.slabId ≤ _
        rw [he]
        exact h.region.idBound t ht
    case fresh =>
      intro i hi
      obtain ⟨h1, h2⟩ := h.fresh i hi
      simp [hfl', hun', h1, h2]
    case sorted => exact h.sorted
    case placed =>
      intro t ht c hc
      have ht' : t ∈ s.region.slabs := ht
      by_cases hmem : t.slabId ∈ ys.map Lslab.slabId
      · simp only [hfl', if_pos hmem] at hc
        rcases List.mem_append.mp hc with hc | hc
        · exact h.placed t ht' c hc
        · show c ∈ s.chunks
          rw [h.chunks]
          exact List.mem_append_right _ (List.mem_flatMap.mpr ⟨t, ht', hc⟩)
      · simp only [hfl', if_neg hmem] at hc
        exact h.placed t ht' c hc
    case unused => exact h.unused
    case reserved => exact h.reserved
  · intro hroom
    rw [h.chunks, hflat, hfl.whole hroom, List.append_nil]

/-- Memory that holds no chunk may change. -/
theorem LsState.Inv.frame (h : s.Inv arenaSize done fl un) {mem : Nat → β}
    (hmem : ∀ t ∈ s.region.slabs, ∀ x, t.addr ≤ x → x < t.pos → mem x = s.mem x) :
    LsState.Inv arenaSize { s with mem := mem } done fl un :=
  { h with
    holds := fun t ht =>
      { h.holds t ht with
        data := by
          rw [← (h.holds t ht).data]
          refine read_congr fun x h1 h2 => hmem t ht x (by omega) ?_
          have := (h.holds t ht).sizeof_le
          rw [Lslab.pos]
          omega } }

end SmallAllocators
