/-
SmallAllocators.Lsregion.Asan — the log structured allocator of
`include/small/lsregion_asan.h` and `small/lsregion_asan.c`.

Every allocation has memory of its own, and the region is a list of them,
the oldest first. The savepoint of `lsregion_to_iovec` has no position in
that list but the id of the last allocation that was flushed, and the
function skips all allocations whose id is not greater. Ids may repeat: an
allocation with the id of the savepoint that was not flushed yet is never
flushed. So the log is complete in the runs where no flush stops between two
allocations of one id, and no allocation is made with the id of the
savepoint.
-/
import SmallAllocators.Lib.Memory
import SmallAllocators.Lib.Runs
import SmallAllocators.Lsregion.Model

namespace SmallAllocators

open Memory

/-! ## The implementation -/

/-- `struct lsregion_allocation`, and the contents of its memory. -/
structure LsregionAllocation where
  size : Nat
  used : Nat
  id : Int
  alignment : Nat
  payload : Nat → UInt8

/-- The `struct lsregion` of this implementation. -/
structure AsanLsregion where
  allocations : List LsregionAllocation
  used : Nat

def asanLsregionCreate : AsanLsregion where
  allocations := []
  used := 0

/-- `lsregion_reserved_alloc`. -/
def lsregionReservedAlloc (region : AsanLsregion) : Option LsregionAllocation :=
  region.allocations.getLast?.filter fun alloc => alloc.id = lslabNotUsedId

/-- `lsregion_prepare_buf`; `payload` is what the new memory happens to hold. -/
def lsregionPrepareBuf (region : AsanLsregion) (size alignment : Nat) (payload : Nat → UInt8) :
    AsanLsregion :=
  { region with
    allocations := region.allocations ++
      [{ size := size, used := 0, id := lslabNotUsedId, alignment := alignment,
         payload := payload }] }

def asanLsregionReserve (region : AsanLsregion) (size alignment : Nat) (payload : Nat → UInt8) :
    Option AsanLsregion := do
  guard ((lsregionReservedAlloc region).isNone)
  some (lsregionPrepareBuf region size alignment payload)

/-- `lsregion_aligned_alloc`; `payload` is what the client writes to the memory. -/
def asanLsregionAlloc (region : AsanLsregion) (size alignment : Nat) (id : Int)
    (payload : Nat → UInt8) :
    Option AsanLsregion := do
  let region := if (lsregionReservedAlloc region).isSome then region
    else lsregionPrepareBuf region size alignment payload
  let alloc ← region.allocations.getLast?
  guard (alloc.size ≥ size ∧ alloc.alignment = alignment)
  some {
    allocations :=
      region.allocations.dropLast ++ [{ alloc with used := size, id := id, payload := payload }]
    used := region.used + size }

/-- The loop of `lsregion_gc`. -/
def asanLsregionGcLoop (minId : Int) : List LsregionAllocation → Nat → Option AsanLsregion
  | [], used => some { allocations := [], used := used }
  | alloc :: allocs, used =>
    if alloc.id > minId then some { allocations := alloc :: allocs, used := used }
    else do
      guard (used ≥ alloc.used)
      asanLsregionGcLoop minId allocs (used - alloc.used)

def asanLsregionGc (region : AsanLsregion) (minId : Int) : Option AsanLsregion :=
  asanLsregionGcLoop minId region.allocations region.used

/-- `struct iovec`, with the memory that its base points to. -/
structure AsanIovec where
  base : Nat → UInt8
  len : Nat

/-- What `lsregion_to_iovec` returns: the iovecs, the savepoint and the id. -/
structure AsanFlush where
  iov : List AsanIovec
  svp : LsregionSvp
  maxAllocId : Int

/-- The loop of `lsregion_to_iovec`, with room for `room` more iovecs; `prevId` is the id in the
savepoint at the start of the call. -/
def asanToIovecLoop (prevId : Int) : List LsregionAllocation → Nat → LsregionSvp → Int → AsanFlush
  | [], _, svp, maxAllocId => { iov := [], svp := svp, maxAllocId := maxAllocId }
  | alloc :: allocs, room, svp, maxAllocId =>
    if alloc.id ≤ prevId then asanToIovecLoop prevId allocs room svp maxAllocId
    else
      match room with
      | 0 => { iov := [], svp := svp, maxAllocId := maxAllocId }
      | room + 1 =>
        let rest := asanToIovecLoop prevId allocs room
          { slabId := alloc.id, pos := svp.pos + alloc.size } alloc.id
        { rest with iov := { base := alloc.payload, len := alloc.used } :: rest.iov }

def asanLsregionToIovec (region : AsanLsregion) (iovcnt : Nat) (svp : LsregionSvp) : AsanFlush :=
  asanToIovecLoop svp.slabId region.allocations iovcnt svp lslabNotUsedId

/-! ## Contents -/

/-- The bytes of iovecs, in order. -/
def iovBytes (iov : List AsanIovec) : List UInt8 := iov.flatMap fun v => read v.base 0 v.len

/-- The iovec that covers an allocation. -/
def LsregionAllocation.iovec (alloc : LsregionAllocation) : AsanIovec :=
  { base := alloc.payload, len := alloc.used }

/-- The bytes of allocations, in order. -/
def lsBytes (allocs : List LsregionAllocation) : List UInt8 :=
  iovBytes (allocs.map LsregionAllocation.iovec)

theorem iovBytes_append (a b : List AsanIovec) : iovBytes (a ++ b) = iovBytes a ++ iovBytes b := by
  simp [iovBytes]

theorem lsBytes_append (a b : List LsregionAllocation) :
    lsBytes (a ++ b) = lsBytes a ++ lsBytes b := by
  rw [lsBytes, List.map_append, iovBytes_append]
  rfl

theorem lsBytes_length (allocs : List LsregionAllocation) :
    (lsBytes allocs).length = (allocs.map LsregionAllocation.used).sum := by
  induction allocs with
  | nil => rfl
  | cons alloc allocs ih =>
      rw [show alloc :: allocs = [alloc] ++ allocs from rfl, lsBytes_append, List.length_append,
        ih, List.map_append, List.sum_append]
      simp [lsBytes, iovBytes, LsregionAllocation.iovec]

/-- The allocations behind the savepoint, as the function finds them. -/
def unseen (prevId : Int) (allocs : List LsregionAllocation) : List LsregionAllocation :=
  allocs.filter fun alloc => prevId < alloc.id

/-- The savepoint after some allocations. -/
def svpAfter (svp : LsregionSvp) (allocs : List LsregionAllocation) : LsregionSvp :=
  allocs.foldl (fun svp alloc => { slabId := alloc.id, pos := svp.pos + alloc.size }) svp

theorem svpAfter_slabId (svp : LsregionSvp) (allocs : List LsregionAllocation) :
    (svpAfter svp allocs).slabId = (allocs.getLast?.map LsregionAllocation.id).getD svp.slabId := by
  rcases List.eq_nil_or_concat allocs with rfl | ⟨allocs, alloc, rfl⟩
  · rfl
  · rw [svpAfter, List.concat_eq_append, List.foldl_append, List.getLast?_concat]
    rfl

/-- `lsregion_to_iovec` returns the first of the unseen allocations. -/
theorem asanToIovecLoop_eq (prevId : Int) (allocs : List LsregionAllocation) (room : Nat)
    (svp : LsregionSvp) (maxAllocId : Int) :
    (asanToIovecLoop prevId allocs room svp maxAllocId).iov =
        ((unseen prevId allocs).take room).map LsregionAllocation.iovec ∧
      (asanToIovecLoop prevId allocs room svp maxAllocId).svp =
      svpAfter svp ((unseen prevId allocs).take room) := by
  induction allocs generalizing room svp maxAllocId with
  | nil => simp [asanToIovecLoop, unseen, svpAfter]
  | cons alloc allocs ih =>
      unfold asanToIovecLoop
      by_cases hseen : alloc.id ≤ prevId
      · have hskip : unseen prevId (alloc :: allocs) = unseen prevId allocs := by
          simp [unseen, Int.not_lt.2 hseen]
        rw [if_pos hseen, hskip]
        exact ih room svp maxAllocId
      · have hnext : unseen prevId (alloc :: allocs) = alloc :: unseen prevId allocs := by
          simp [unseen, Int.not_le.1 hseen]
        rw [if_neg hseen, hnext]
        cases room with
        | zero => simp [svpAfter]
        | succ room =>
            obtain ⟨hiov, hsvp⟩ :=
              ih room { slabId := alloc.id, pos := svp.pos + alloc.size } alloc.id
            dsimp only
            rw [hiov, hsvp]
            exact ⟨rfl, rfl⟩

/-! ## The machine -/

/-- The region and the savepoint, all allocations as they were made, and all iovecs that were
returned. -/
structure AsanLsState where
  region : AsanLsregion
  svp : LsregionSvp
  chunks : List LsregionAllocation
  sent : List AsanIovec

/-- The allocations that were returned in an iovec. -/
def AsanLsState.flushed (s : AsanLsState) : List LsregionAllocation := s.chunks.take s.sent.length

/-- The allocations that were not yet. -/
def AsanLsState.unflushed (s : AsanLsState) : List LsregionAllocation := s.chunks.drop s.sent.length

inductive AsanLsOp where
  | reserve (size alignment : Nat) (payload : Nat → UInt8)
  | alloc (size alignment : Nat) (id : Int) (payload : Nat → UInt8)
  | gc (minId : Int)
  | toIovec (iovcnt : Nat)

def AsanLsOp.exec (s : AsanLsState) : AsanLsOp → Option AsanLsState
  | .reserve size alignment payload => do
    let region ← asanLsregionReserve s.region size alignment payload
    some { s with region := region }
  | .alloc size alignment id payload => do
    let region ← asanLsregionAlloc s.region size alignment id payload
    some { s with region := region, chunks := s.chunks ++ region.allocations.getLast?.toList }
  | .gc minId => do
    let region ← asanLsregionGc s.region minId
    some { s with region := region }
  | .toIovec iovcnt =>
    let f := asanLsregionToIovec s.region iovcnt s.svp
    some { s with svp := f.svp, sent := s.sent ++ f.iov }

/-- Ids are not negative and do not decrease, and garbage is collected below the first id that is
not flushed. -/
def AsanLsOp.Allowed (s : AsanLsState) : AsanLsOp → Prop
  | .alloc _ _ id _ => 0 ≤ id ∧ ∀ c ∈ s.chunks, c.id ≤ id
  | .gc minId => ∀ c ∈ s.unflushed, minId < c.id
  | _ => True

/-- The last allocation that is flushed, and the first that is not, have different ids. -/
def AsanLsOp.Unsplit (s : AsanLsState) : AsanLsOp → Prop
  | .alloc _ _ id _ => ∀ last ∈ s.flushed.getLast?, last.id ≠ id
  | .toIovec iovcnt =>
      ∀ last ∈ (s.unflushed.take iovcnt).getLast?, ∀ next ∈ (s.unflushed.drop iovcnt).head?,
        last.id ≠ next.id
  | _ => True

instance (s : AsanLsState) (op : AsanLsOp) : Decidable (op.Allowed s) :=
  match op with
  | .alloc _ _ id _ => inferInstanceAs (Decidable (0 ≤ id ∧ ∀ c ∈ s.chunks, c.id ≤ id))
  | .gc minId => inferInstanceAs (Decidable (∀ c ∈ s.unflushed, minId < c.id))
  | .reserve .. | .toIovec _ => .isTrue trivial

instance (s : AsanLsState) (op : AsanLsOp) : Decidable (op.Unsplit s) :=
  match op with
  | .alloc _ _ id _ => inferInstanceAs (Decidable (∀ last ∈ s.flushed.getLast?, last.id ≠ id))
  | .toIovec iovcnt =>
      inferInstanceAs (Decidable (∀ last ∈ (s.unflushed.take iovcnt).getLast?,
        ∀ next ∈ (s.unflushed.drop iovcnt).head?, last.id ≠ next.id))
  | .reserve .. | .gc _ => .isTrue trivial

def AsanLsState.Start (s : AsanLsState) : Prop :=
  s.region = asanLsregionCreate ∧ s.svp = { slabId := lslabNotUsedId, pos := 0 } ∧ s.chunks = [] ∧
  s.sent = []

/-- All runs that no assertion ends. -/
def asanLsMachine : Machine AsanLsState AsanLsOp where
  init := AsanLsState.Start
  allowed s op := op.Allowed s
  exec s op := op.exec s

/-- The runs in which no savepoint comes to stand between two allocations of one id. -/
def unsplitMachine : Machine AsanLsState AsanLsOp where
  init := AsanLsState.Start
  allowed s op := op.Allowed s ∧ op.Unsplit s
  exec s op := op.exec s

/-- Nothing of the log is lost: what was flushed is the start of what was allocated, and a flush
with room for all allocations that are left returns the rest. -/
structure AsanLsState.Flushes (s : AsanLsState) : Prop where
  sent : iovBytes s.sent <+: lsBytes s.chunks
  completes : ∀ iovcnt, s.region.allocations.length ≤ iovcnt →
    iovBytes (s.sent ++ (asanLsregionToIovec s.region iovcnt s.svp).iov) = lsBytes s.chunks

/-! ## The invariant -/

/-- The log consists of the allocations that were freed, those that are flushed and those that are
not, and behind them the region may have a reservation. -/
structure AsanLsState.Inv (s : AsanLsState) (gone kept todo res : List LsregionAllocation) :
    Prop where
  chunks : s.chunks = gone ++ kept ++ todo
  allocations : s.region.allocations = kept ++ todo ++ res
  sent : s.sent = (gone ++ kept).map LsregionAllocation.iovec
  sorted : s.chunks.Pairwise fun c d => c.id ≤ d.id
  ids : ∀ c ∈ s.chunks, 0 ≤ c.id
  seen : ∀ c ∈ kept, c.id ≤ s.svp.slabId
  new : ∀ c ∈ todo, s.svp.slabId < c.id
  /-- The savepoint has the id of the last allocation that was flushed. -/
  svp : s.svp.slabId = ((gone ++ kept).getLast?.map LsregionAllocation.id).getD lslabNotUsedId
  used : s.region.used = ((kept ++ todo).map LsregionAllocation.used).sum
  reserved : ∀ c ∈ res, c.id = lslabNotUsedId ∧ c.used = 0
  single : res.length ≤ 1

section Invariant

variable {s s' : AsanLsState} {gone kept todo res : List LsregionAllocation}

theorem AsanLsState.Start.inv (h : s.Start) : s.Inv [] [] [] [] := by
  obtain ⟨hregion, hsvp, hchunks, hsent⟩ := h
  constructor <;> simp [hregion, hsvp, hchunks, hsent, asanLsregionCreate]

theorem AsanLsState.Inv.flushed (h : s.Inv gone kept todo res) : s.flushed = gone ++ kept := by
  rw [AsanLsState.flushed, h.sent, List.length_map, h.chunks]
  exact List.take_left

theorem AsanLsState.Inv.unflushed (h : s.Inv gone kept todo res) : s.unflushed = todo := by
  rw [AsanLsState.unflushed, h.sent, List.length_map, h.chunks]
  exact List.drop_left

theorem AsanLsState.Inv.notUsed_le (h : s.Inv gone kept todo res) :
    lslabNotUsedId ≤ s.svp.slabId := by
  rw [h.svp]
  cases hlast : (gone ++ kept).getLast? with
  | none => exact Int.le_refl _
  | some c =>
      have hpos :=
        h.ids c (by rw [h.chunks]; exact List.mem_append_left _ (List.mem_of_getLast? hlast))
      have : lslabNotUsedId < 0 := by decide
      simp only [Option.map_some, Option.getD_some]
      omega

/-- The allocations behind the savepoint are those that are not flushed. -/
theorem AsanLsState.Inv.unseen_eq (h : s.Inv gone kept todo res) :
    unseen s.svp.slabId s.region.allocations = todo := by
  have hkept : kept.filter (fun c => s.svp.slabId < c.id) = [] := by
    rw [List.filter_eq_nil_iff]
    intro c hc
    simpa using h.seen c hc
  have htodo : todo.filter (fun c => s.svp.slabId < c.id) = todo := by
    rw [List.filter_eq_self]
    intro c hc
    simpa using h.new c hc
  have hres : res.filter (fun c => s.svp.slabId < c.id) = [] := by
    rw [List.filter_eq_nil_iff]
    intro c hc
    have hid := (h.reserved c hc).1
    simpa [hid] using h.notUsed_le
  rw [unseen, h.allocations, List.filter_append, List.filter_append, hkept, htodo, hres,
    List.nil_append, List.append_nil]

theorem AsanLsState.Inv.toIovec_eq (h : s.Inv gone kept todo res) (iovcnt : Nat) :
    (asanLsregionToIovec s.region iovcnt s.svp).iov =
      (todo.take iovcnt).map LsregionAllocation.iovec ∧
      (asanLsregionToIovec s.region iovcnt s.svp).svp = svpAfter s.svp (todo.take iovcnt) := by
  have heq := asanToIovecLoop_eq s.svp.slabId s.region.allocations iovcnt s.svp lslabNotUsedId
  rw [h.unseen_eq] at heq
  exact heq

/-- The invariant says that nothing is lost. -/
theorem AsanLsState.Inv.flushes (h : s.Inv gone kept todo res) : s.Flushes := by
  constructor
  · rw [h.sent, h.chunks, lsBytes_append]
    exact List.prefix_append _ _
  · intro iovcnt hall
    have hlen : todo.length ≤ iovcnt := by
      rw [h.allocations] at hall
      simp only [List.length_append] at hall
      omega
    rw [(h.toIovec_eq iovcnt).1, List.take_of_length_le hlen, h.sent, ← List.map_append, h.chunks]
    rfl

/-- A reservation is not among the chunks. -/
theorem AsanLsState.Inv.reserve (h : s.Inv gone kept todo res) {size alignment : Nat}
    {payload : Nat → UInt8} (hex : AsanLsOp.exec s (.reserve size alignment payload) = some s') :
    ∃ res', s'.Inv gone kept todo res' := by
  obtain ⟨region, hreserve, hs'⟩ := Option.bind_eq_some_iff.1 hex
  cases hs'
  unfold asanLsregionReserve at hreserve
  obtain ⟨u, hguard, hreserve⟩ := Option.bind_eq_some_iff.1 hreserve
  cases hreserve
  have hnone : lsregionReservedAlloc s.region = none := by
    by_contra hnot
    simp [guard, Option.isNone_iff_eq_none, hnot] at hguard
  -- there was no reservation before
  have hres : res = [] := by
    rcases List.eq_nil_or_concat res with hnil | ⟨front, c, hc⟩
    · exact hnil
    · rw [List.concat_eq_append] at hc
      have hid := (h.reserved c (by simp [hc])).1
      rw [lsregionReservedAlloc, h.allocations, hc, ← List.append_assoc,
        List.getLast?_concat] at hnone
      simp [hid] at hnone
  subst hres
  refine ⟨[{ size := size, used := 0, id := lslabNotUsedId, alignment := alignment,
             payload := payload }], ?_⟩
  have hallocations := h.allocations
  exact { h with
    allocations := by simp [lsregionPrepareBuf, hallocations]
    reserved := by simp
    single := by simp }

/-- The new chunk is the last, in the place of the reservation if there is one. -/
theorem AsanLsState.Inv.alloc_eq (h : s.Inv gone kept todo res) {size alignment : Nat} {id : Int}
    {payload : Nat → UInt8} (hex : AsanLsOp.exec s (.alloc size alignment id payload) = some s') :
    ∃ c : LsregionAllocation, c.id = id ∧ c.used = size ∧ s'.svp = s.svp ∧ s'.sent = s.sent ∧
      s'.chunks = s.chunks ++ [c] ∧ s'.region.allocations = kept ++ todo ++ [c] ∧
      s'.region.used = s.region.used + size := by
  obtain ⟨region, halloc, hs'⟩ := Option.bind_eq_some_iff.1 hex
  cases hs'
  have hfront : (if (lsregionReservedAlloc s.region).isSome then s.region
      else lsregionPrepareBuf s.region size alignment payload).allocations.dropLast =
          kept ++ todo := by
    rcases List.eq_nil_or_concat res with hnil | ⟨front, c, hc⟩
    · -- no reservation: the ids of chunks are not negative
      have hnone : lsregionReservedAlloc s.region = none := by
        rw [lsregionReservedAlloc, Option.filter_eq_none_iff]
        intro c hc
        have hmem := List.mem_of_getLast? hc
        rw [h.allocations, hnil, List.append_nil] at hmem
        have hid := h.ids c (by
          rw [h.chunks, List.append_assoc]
          exact List.mem_append_right _ hmem)
        have : lslabNotUsedId < 0 := by decide
        simp
        omega
      have hallocations := h.allocations
      rw [hnone, hnil, List.append_nil] at *
      simp [lsregionPrepareBuf, hallocations]
    · rw [List.concat_eq_append] at hc
      have hsingle := h.single
      have hempty : front = [] := by
        rw [hc, List.length_append, List.length_singleton] at hsingle
        exact List.length_eq_zero_iff.1 (by omega)
      have hid := (h.reserved c (by simp [hc])).1
      have hsome : lsregionReservedAlloc s.region = some c := by
        rw [lsregionReservedAlloc, h.allocations, hc, ← List.append_assoc, List.getLast?_concat]
        simp [hid]
      rw [hsome, Option.isSome_some, if_pos rfl, h.allocations, hc, hempty, List.nil_append,
        List.dropLast_concat]
  have hused : (if (lsregionReservedAlloc s.region).isSome then s.region
      else lsregionPrepareBuf s.region size alignment payload).used = s.region.used := by
    split <;> rfl
  unfold asanLsregionAlloc at halloc
  obtain ⟨alloc, -, halloc⟩ := Option.bind_eq_some_iff.1 halloc
  obtain ⟨-, -, halloc⟩ := Option.bind_eq_some_iff.1 halloc
  cases halloc
  rw [hfront]
  refine ⟨{ alloc with used := size, id := id, payload := payload }, rfl, rfl, rfl, rfl, ?_,
    rfl, ?_⟩
  · rw [List.getLast?_concat]
    rfl
  · dsimp only
    rw [hused]

/-- An allocation with another id than the savepoint is one that is not flushed. -/
theorem AsanLsState.Inv.alloc (h : s.Inv gone kept todo res) {size alignment : Nat} {id : Int}
    {payload : Nat → UInt8} (hallowed : (AsanLsOp.alloc size alignment id payload).Allowed s)
    (hunsplit : (AsanLsOp.alloc size alignment id payload).Unsplit s)
    (hex : AsanLsOp.exec s (.alloc size alignment id payload) = some s') :
    ∃ todo', s'.Inv gone kept todo' [] := by
  obtain ⟨hpos, hlast⟩ := hallowed
  obtain ⟨c, hid, hused, hsvp, hsent, hchunks, hallocations, hregion⟩ := h.alloc_eq hex
  have hlt : s.svp.slabId < id := by
    rw [AsanLsOp.Unsplit, h.flushed] at hunsplit
    rw [h.svp]
    cases hd : (gone ++ kept).getLast? with
    | none => exact Int.lt_of_lt_of_le (by decide) hpos
    | some d =>
        have hle := hlast d
          (by rw [h.chunks]; exact List.mem_append_left _ (List.mem_of_getLast? hd))
        have hne := hunsplit d hd
        simp only [Option.map_some, Option.getD_some]
        omega
  exact ⟨todo ++ [c], {
    chunks := by rw [hchunks, h.chunks, List.append_assoc]
    allocations := by rw [hallocations, List.append_nil, List.append_assoc]
    sent := by rw [hsent, h.sent]
    sorted := by
      rw [hchunks, List.pairwise_append]
      refine ⟨h.sorted, List.pairwise_singleton _ _, ?_⟩
      intro d hd e he
      rw [List.mem_singleton.1 he, hid]
      exact hlast d hd
    ids := by
      intro d hd
      rw [hchunks, List.mem_append, List.mem_singleton] at hd
      rcases hd with hd | rfl
      · exact h.ids d hd
      · rwa [hid]
    seen := by rw [hsvp]; exact h.seen
    new := by
      intro d hd
      rw [hsvp]
      rw [List.mem_append, List.mem_singleton] at hd
      rcases hd with
    hd | rfl
      · exact h.new d hd
      · rwa [hid]
    svp := by rw [hsvp]; exact h.svp
    used := by
      rw [hregion, h.used, ← List.append_assoc]
      generalize kept ++ todo = front
      rw [List.map_append, List.sum_append, List.map_singleton, List.sum_singleton, hused]
    reserved := by simp
    single := by simp }⟩

/-- The garbage collector goes through the flushed allocations first. -/
theorem asanLsregionGcLoop_append (minId : Int) (kept rest : List LsregionAllocation) (n : Nat) :
    ∃ freed left, kept = freed ++ left ∧
      asanLsregionGcLoop minId (kept ++ rest) ((kept.map LsregionAllocation.used).sum + n) =
        if left = [] then asanLsregionGcLoop minId rest n
        else some { allocations := left ++ rest,
                    used := (left.map LsregionAllocation.used).sum + n } := by
  induction kept with
  | nil => exact ⟨[], [], rfl, by simp⟩
  | cons c kept ih =>
      by_cases hstop : c.id > minId
      · refine ⟨[], c :: kept, rfl, ?_⟩
        rw [if_neg (List.cons_ne_nil _ _), List.cons_append, asanLsregionGcLoop, if_pos hstop]
      · obtain ⟨freed, left, hkept, hloop⟩ := ih
        refine ⟨c :: freed, left, by rw [hkept, List.cons_append], ?_⟩
        have hsum : ((c :: kept).map LsregionAllocation.used).sum + n - c.used =
            (kept.map LsregionAllocation.used).sum + n := by
          rw [List.map_cons, List.sum_cons]
          omega
        have hle : c.used ≤ ((c :: kept).map LsregionAllocation.used).sum + n := by
          rw [List.map_cons, List.sum_cons]
          omega
        rw [List.cons_append, asanLsregionGcLoop, if_neg hstop, hsum, hloop, guard, if_pos hle]
        simp

/-- The garbage collector stops at the first allocation that is not flushed. -/
theorem asanLsregionGcLoop_todo {minId : Int} (htodo : ∀ c ∈ todo, minId < c.id)
    (hres : ∀ c ∈ res, c.id = lslabNotUsedId ∧ c.used = 0) (hsingle : res.length ≤ 1) :
    ∃ res', (res' = res ∨ res' = []) ∧
      asanLsregionGcLoop minId (todo ++ res) (todo.map LsregionAllocation.used).sum =
        some { allocations := todo ++ res', used := (todo.map LsregionAllocation.used).sum } := by
  cases todo with
  | cons c todo =>
      refine ⟨res, .inl rfl, ?_⟩
      rw [List.cons_append, asanLsregionGcLoop, if_pos (htodo c List.mem_cons_self)]
  | nil =>
      cases res with
      | nil => exact ⟨[], .inl rfl, rfl⟩
      | cons c res =>
          have hnil : res = [] := by
            rw [List.length_cons] at hsingle
            exact List.length_eq_zero_iff.1 (by omega)
          have hused := (hres c List.mem_cons_self).2
          by_cases hstop : c.id > minId
          · refine ⟨c :: res, .inl rfl, ?_⟩
            simp [asanLsregionGcLoop, hstop]
          · refine ⟨[], .inr rfl, ?_⟩
            rw [List.nil_append, asanLsregionGcLoop, if_neg hstop, hused, hnil]
            rfl

/-- The garbage collector frees flushed allocations only, and a reservation if nothing is before
it. -/
theorem AsanLsState.Inv.gc (h : s.Inv gone kept todo res) {minId : Int}
    (hallowed : (AsanLsOp.gc minId).Allowed s) :
    ∃ s', AsanLsOp.exec s (.gc minId) = some s' ∧ ∃ gone' kept' res',
      s'.Inv gone' kept' todo res' := by
  have htodo : ∀ c ∈ todo, minId < c.id := by
    rw [AsanLsOp.Allowed, h.unflushed] at hallowed
    exact hallowed
  obtain ⟨freed, left, hkept, hloop⟩ :=
    asanLsregionGcLoop_append minId kept (todo ++ res) (todo.map LsregionAllocation.used).sum
  obtain ⟨res', hres', htail⟩ := asanLsregionGcLoop_todo htodo h.reserved h.single
  have hgc : ∃ res', (res' = res ∨ res' = []) ∧ asanLsregionGc s.region minId =
      some { allocations := left ++ todo ++ res',
             used := ((left ++ todo).map LsregionAllocation.used).sum } := by
    have hused := h.used
    rw [List.map_append, List.sum_append] at hused ⊢
    rw [asanLsregionGc, h.allocations, hused, List.append_assoc, hloop]
    by_cases hleft : left = []
    · refine ⟨res', hres', ?_⟩
      rw [if_pos hleft, htail, hleft]
      simp
    · refine ⟨res, .inl rfl, ?_⟩
      rw [if_neg hleft, List.append_assoc]
  obtain ⟨res'', hres'', hgc⟩ := hgc
  refine ⟨_, by rw [AsanLsOp.exec, hgc]; rfl, gone ++ freed, left, res'', ?_⟩
  have hchunks : s.chunks = gone ++ freed ++ left ++ todo := by
    rw [h.chunks, hkept, ← List.append_assoc]
  exact { h with
    chunks := hchunks
    allocations := rfl
    sent := by
      have hsent := h.sent
      rw [hkept, ← List.append_assoc] at hsent
      exact hsent
    svp := by
      have hsvp := h.svp
      rw [hkept, ← List.append_assoc] at hsvp
      exact hsvp
    seen := by
      intro c hc
      exact h.seen c (by rw [hkept]; exact List.mem_append_right _ hc)
    used := rfl
    reserved := by
      rcases hres'' with rfl | rfl
      · exact h.reserved
      · simp
    single := by
      rcases hres'' with rfl | rfl
      · exact h.single
      · simp }

/-- What is flushed is before the new savepoint. -/
theorem AsanLsState.Inv.svpAfter_seen (h : s.Inv gone kept todo res) (iovcnt : Nat) :
    ∀ c ∈ kept ++ todo.take iovcnt, c.id ≤ (svpAfter s.svp (todo.take iovcnt)).slabId := by
  have hsorted := h.sorted
  rw [h.chunks, List.pairwise_append] at hsorted
  have htake := hsorted.2.1.sublist (List.take_sublist iovcnt todo)
  have hmid : ∀ c ∈ todo.take iovcnt, s.svp.slabId < c.id :=
    fun c hc => h.new c (List.mem_of_mem_take hc)
  rw [svpAfter_slabId]
  rcases List.eq_nil_or_concat (todo.take iovcnt) with hnil | ⟨front, last, htaken⟩
  · -- nothing is flushed
    rw [hnil, List.append_nil]
    exact h.seen
  · rw [List.concat_eq_append] at htaken
    rw [htaken] at htake hmid ⊢
    have hlast := hmid last List.mem_concat_self
    rw [List.getLast?_concat, Option.map_some, Option.getD_some]
    intro c hc
    rw [List.mem_append, List.mem_append, List.mem_singleton] at hc
    rcases hc with hkept | hfront | rfl
    · exact Int.le_of_lt (Int.lt_of_le_of_lt (h.seen c hkept) hlast)
    · exact (List.pairwise_append.1 htake).2.2 c hfront last List.mem_cons_self
    · exact Int.le_refl _

/-- What is not flushed is behind it, unless the flush stopped between two allocations of one id. -/
theorem AsanLsState.Inv.svpAfter_new (h : s.Inv gone kept todo res) {iovcnt : Nat}
    (hunsplit : (AsanLsOp.toIovec iovcnt).Unsplit s) :
    ∀ c ∈ todo.drop iovcnt, (svpAfter s.svp (todo.take iovcnt)).slabId < c.id := by
  have hsorted := h.sorted
  rw [h.chunks, List.pairwise_append] at hsorted
  have htodo := hsorted.2.1
  rw [← List.take_append_drop iovcnt todo, List.pairwise_append] at htodo
  obtain ⟨-, hdrop, hcross⟩ := htodo
  rw [AsanLsOp.Unsplit, h.unflushed] at hunsplit
  rw [svpAfter_slabId]
  cases hlast : (todo.take iovcnt).getLast? with
  | none => exact fun c hc => h.new c (List.mem_of_mem_drop hc)
  | some last =>
      rw [Option.map_some, Option.getD_some]
      cases hrest : todo.drop iovcnt with
      | nil => simp
      | cons next rest =>
          rw [hrest] at hdrop hcross hunsplit
          have hne := hunsplit last hlast next rfl
          have hle := hcross last (List.mem_of_getLast? hlast) next List.mem_cons_self
          intro c hc
          rcases List.mem_cons.1 hc with rfl | hc
          · omega
          · have := (List.pairwise_cons.1 hdrop).1 c hc
            omega

/-- A flush that does not stop between two allocations of one id leaves the others behind the
savepoint. -/
theorem AsanLsState.Inv.toIovec (h : s.Inv gone kept todo res) {iovcnt : Nat}
    (hunsplit : (AsanLsOp.toIovec iovcnt).Unsplit s) :
    ∃ s', AsanLsOp.exec s (.toIovec iovcnt) = some s' ∧
      s'.Inv gone (kept ++ todo.take iovcnt) (todo.drop iovcnt) res := by
  obtain ⟨hiov, hsvp⟩ := h.toIovec_eq iovcnt
  refine ⟨_, rfl, ?_⟩
  rw [hiov, hsvp]
  have hsplit : todo.take iovcnt ++ todo.drop iovcnt = todo := List.take_append_drop iovcnt todo
  have hallocations := h.allocations
  have hchunks := h.chunks
  have hused := h.used
  rw [← hsplit] at hallocations hchunks hused
  exact { h with
    chunks := by rw [hchunks, List.append_assoc, List.append_assoc, List.append_assoc]
    allocations := by rw [hallocations, List.append_assoc kept (todo.take iovcnt)]
    sent := by rw [h.sent, ← List.map_append, List.append_assoc]
    seen := h.svpAfter_seen iovcnt
    new := h.svpAfter_new hunsplit
    svp := by
      rw [svpAfter_slabId, h.svp]
      simp only [List.getLast?_append]
      cases (todo.take iovcnt).getLast? <;> simp
    used := by rw [hused, List.append_assoc] }

/-- One call of an unsplit run. -/
theorem AsanLsState.Inv.step (h : s.Inv gone kept todo res) {op : AsanLsOp}
    (hallowed : op.Allowed s) (hunsplit : op.Unsplit s) (hex : op.exec s = some s') :
    ∃ gone kept todo res, s'.Inv gone kept todo res := by
  cases op with
  | reserve size alignment payload =>
      obtain ⟨res', h'⟩ := h.reserve hex
      exact ⟨gone, kept, todo, res', h'⟩
  | alloc size alignment id payload =>
      obtain ⟨todo', h'⟩ := h.alloc hallowed hunsplit hex
      exact ⟨gone, kept, todo', [], h'⟩
  | gc minId =>
      obtain ⟨s'', hex', gone', kept', res', h'⟩ := h.gc hallowed
      cases hex.symm.trans hex'
      exact ⟨gone', kept', todo, res', h'⟩
  | toIovec iovcnt =>
      obtain ⟨s'', hex', h'⟩ := h.toIovec hunsplit
      cases hex.symm.trans hex'
      exact ⟨gone, _, _, res, h'⟩

/-! ### Splits -/

theorem unseen_append (prevId : Int) (a b : List LsregionAllocation) :
    unseen prevId (a ++ b) = unseen prevId a ++ unseen prevId b := List.filter_append ..

theorem unseen_eq_nil {prevId : Int} {allocs : List LsregionAllocation}
    (h : ∀ c ∈ allocs, c.id ≤ prevId) :
    unseen prevId allocs = [] := by
  rw [unseen, List.filter_eq_nil_iff]
  intro c hc
  simpa using h c hc

theorem lsBytes_unseen_length_le (prevId : Int) (allocs : List LsregionAllocation) :
    (lsBytes (unseen prevId allocs)).length ≤ (lsBytes allocs).length := by
  induction allocs with
  | nil => exact Nat.le_refl _
  | cons c allocs ih =>
      rw [show c :: allocs = [c] ++ allocs from rfl, unseen_append, lsBytes_append,
        lsBytes_append, List.length_append, List.length_append]
      by_cases hc : prevId < c.id
      · simpa [unseen, hc] using ih
      · have hnil : lsBytes (unseen prevId [c]) = [] := by simp [unseen, hc, lsBytes, iovBytes]
        rw [hnil, List.length_nil]
        omega

/-- What a flush returns that has room for all allocations. -/
theorem asanLsregionToIovec_all (s : AsanLsState) :
    (asanLsregionToIovec s.region s.region.allocations.length s.svp).iov =
      (unseen s.svp.slabId s.region.allocations).map LsregionAllocation.iovec := by
  rw [asanLsregionToIovec, (asanToIovecLoop_eq _ _ _ _ _).1, List.take_of_length_le]
  exact List.length_filter_le _ _

/-- An allocation with the id of the savepoint is never flushed. -/
theorem AsanLsState.Inv.alloc_loses (h : s.Inv gone kept todo res) {size alignment : Nat}
    {id : Int} {payload : Nat → UInt8} (hsize : 0 < size)
    (hex : AsanLsOp.exec s (.alloc size alignment id payload) = some s') (hflushes : s'.Flushes) :
    (AsanLsOp.alloc size alignment id payload).Unsplit s := by
  obtain ⟨c, hid, hused, hsvp, hsent, hchunks, hallocations, -⟩ := h.alloc_eq hex
  intro last hlast heq
  rw [h.flushed, Option.mem_def] at hlast
  have hc : c.id = s.svp.slabId := by
    rw [h.svp, hlast, Option.map_some, Option.getD_some, hid, heq]
  have hkept := unseen_eq_nil h.seen
  have hnew : unseen s.svp.slabId [c] = [] := unseen_eq_nil (by simp [hc])
  have hrest :
      (lsBytes (unseen s.svp.slabId (kept ++ todo ++ [c]))).length ≤ (lsBytes todo).length := by
    rw [unseen_append, unseen_append, hkept, hnew, List.append_nil, List.nil_append]
    exact lsBytes_unseen_length_le _ _
  -- the new bytes are in no iovec
  have hall := congrArg List.length (hflushes.completes _ (Nat.le_refl _))
  rw [asanLsregionToIovec_all, hsent, hsvp, hallocations, h.sent, ← List.map_append, hchunks,
    h.chunks] at hall
  change (lsBytes (_ ++ _)).length = _ at hall
  have hbytes : (lsBytes [c]).length = size := by
    rw [lsBytes_length, List.map_singleton, List.sum_singleton, hused]
  simp only [lsBytes_append, List.length_append, hbytes] at hall hrest
  omega

/-- The next allocation is never flushed if it has the id of the last one. -/
theorem AsanLsState.Inv.toIovec_loses (h : s.Inv gone kept todo res) {iovcnt : Nat}
    (hex : AsanLsOp.exec s (.toIovec iovcnt) = some s') (hsize : ∀ c ∈ s.chunks, 0 < c.used)
    (hflushes : s'.Flushes) : (AsanLsOp.toIovec iovcnt).Unsplit s := by
  obtain ⟨hiov, hsvp⟩ := h.toIovec_eq iovcnt
  cases hex
  intro last hlast next hnext heq
  rw [h.unflushed, Option.mem_def] at hlast hnext
  have hall := congrArg List.length (hflushes.completes _ (Nat.le_refl _))
  rw [asanLsregionToIovec_all, hiov, hsvp, h.sent, ← List.map_append, ← List.map_append,
    h.chunks] at hall
  change (lsBytes (_ ++ _)).length = _ at hall
  obtain ⟨rest, hdrop⟩ := List.head?_eq_some_iff.1 hnext
  have hsplit : todo = todo.take iovcnt ++ ([next] ++ rest) := by
    rw [List.singleton_append, ← hdrop, List.take_append_drop]
  generalize hid : (svpAfter s.svp (todo.take iovcnt)).slabId = prevId at hall
  have hprev : prevId = last.id := by
    rw [← hid, svpAfter_slabId, hlast, Option.map_some, Option.getD_some]
  have hseen := unseen_eq_nil (hid ▸ h.svpAfter_seen iovcnt)
  have hskip : unseen prevId [next] = [] := unseen_eq_nil (by simp [hprev, heq])
  have hres : unseen prevId res = [] := by
    refine unseen_eq_nil fun c hc => ?_
    have hnew := h.new last (List.mem_of_mem_take (List.mem_of_getLast? hlast))
    have hle := h.notUsed_le
    rw [(h.reserved c hc).1, hprev]
    omega
  have hle := lsBytes_unseen_length_le prevId rest
  have hlen : 0 < (lsBytes [next]).length := by
    rw [lsBytes_length, List.map_singleton, List.sum_singleton]
    exact hsize next (by rw [h.chunks, hsplit]; simp)
  rw [h.allocations, unseen_append, hres, List.append_nil] at hall
  have hrest : unseen prevId (kept ++ todo) = unseen prevId rest := by
    conv_lhs => rw [hsplit]
    rw [← List.append_assoc, ← List.append_assoc, unseen_append, unseen_append, hseen, hskip]
    rfl
  have hlog : (lsBytes todo).length =
      (lsBytes (todo.take iovcnt)).length + ((lsBytes [next]).length + (lsBytes rest).length) := by
    conv_lhs => rw [hsplit]
    rw [lsBytes_append, lsBytes_append, List.length_append, List.length_append]
  rw [hrest] at hall
  simp only [lsBytes_append, List.length_append] at hall
  omega

end Invariant

/-! ## Runs -/

/-- In an unsplit run the log splits as the invariant says. -/
theorem unsplitMachine_inv {s : AsanLsState} (hs : unsplitMachine.Reachable s) :
    ∃ gone kept todo res, s.Inv gone kept todo res := by
  refine Machine.Reachable.of_step (P := fun s => ∃ gone kept todo res,
      s.Inv gone kept todo res) unsplitMachine
    (fun s hstart => ⟨[], [], [], [], hstart.inv⟩) ?_ hs
  intro s op s' hinv hallowed hex
  obtain ⟨gone, kept, todo, res, h⟩ := hinv
  exact h.step hallowed.1 hallowed.2 hex

/-- The log of an unsplit run is complete, and a call that leaves it complete is unsplit (where no
allocation is empty). -/
theorem asanLsregion_flushes_iff {s : AsanLsState} (hs : unsplitMachine.Reachable s) :
    s.Flushes ∧ ∀ (op : AsanLsOp) (s' : AsanLsState), op.Allowed s → op.exec s = some s' →
      (∀ c ∈ s'.chunks, 0 < c.used) → (s'.Flushes ↔ op.Unsplit s) := by
  obtain ⟨gone, kept, todo, res, h⟩ := unsplitMachine_inv hs
  refine ⟨h.flushes, fun op s' hallowed hex hsize => ⟨fun hflushes => ?_, fun hunsplit => ?_⟩⟩
  · cases op with
    | reserve | gc => trivial
    | alloc size alignment id payload =>
        obtain ⟨c, -, hused, -, -, hchunks, -⟩ := h.alloc_eq hex
        have hpos := hsize c (by rw [hchunks]; exact List.mem_concat_self)
        exact h.alloc_loses (hused ▸ hpos) hex hflushes
    | toIovec iovcnt =>
        refine h.toIovec_loses hex (fun c hc => hsize c ?_) hflushes
        cases hex
        exact hc
  · obtain ⟨_, _, _, _, h'⟩ := h.step hallowed hunsplit hex
    exact h'.flushes

/-- A log of one byte in each allocation, with these ids. -/
def oneByteLog (ids : List Int) : List LsregionAllocation :=
  ids.map fun id =>
    { size := 1, used := 1, id := id, alignment := 1, payload := fun _ => id.toNat.toUInt8 }

/-- The state after allocations of one byte with ids 5 and 6, of which the first is flushed. -/
def twoIdsFlushed : AsanLsState where
  region := { allocations := oneByteLog [5, 6], used := 2 }
  svp := { slabId := 5, pos := 1 }
  chunks := oneByteLog [5, 6]
  sent := (oneByteLog [5]).map LsregionAllocation.iovec

/-- The same with two ids 5. -/
def oneIdFlushed : AsanLsState where
  region := { allocations := oneByteLog [5, 5], used := 2 }
  svp := { slabId := 5, pos := 1 }
  chunks := oneByteLog [5, 5]
  sent := (oneByteLog [5]).map LsregionAllocation.iovec

/-- The calls that lead to the states above. -/
def oneByteOps (ids : List Int) : List AsanLsOp :=
  (ids.map fun id => AsanLsOp.alloc 1 1 id fun _ => id.toNat.toUInt8) ++ [.toIovec 1]

def emptyLog : AsanLsState where
  region := asanLsregionCreate
  svp := { slabId := lslabNotUsedId, pos := 0 }
  chunks := []
  sent := []

theorem twoIdsFlushed_reachable : unsplitMachine.Reachable twoIdsFlushed := by
  have hrun : unsplitMachine.run (fun s op => decide (op.Allowed s ∧ op.Unsplit s))
      (oneByteOps [5, 6]) emptyLog =
      some twoIdsFlushed := rfl
  exact Machine.Reachable.run unsplitMachine
    (fun s op h => by have hok := of_decide_eq_true h; exact hok)
    _ (.init ⟨rfl, rfl, rfl, rfl⟩) hrun

/-- A flush of the second allocation completes the log. -/
theorem asanLsregion_flushes_iff_two_ids :
    ∃ s', AsanLsOp.exec twoIdsFlushed (.toIovec 1) = some s' ∧ s'.Flushes := by
  obtain ⟨-, hiff⟩ := asanLsregion_flushes_iff twoIdsFlushed_reachable
  refine ⟨_, rfl, (hiff (.toIovec 1) _ trivial rfl ?_).2 ?_⟩
  · decide
  · decide

/-- After two allocations with the id 5, of which one is flushed, no call returns the other. -/
theorem asanLsregion_loses_equal_id :
    asanLsMachine.Reachable oneIdFlushed ∧
      iovBytes (oneIdFlushed.sent ++
        (asanLsregionToIovec oneIdFlushed.region 2 oneIdFlushed.svp).iov) = [5] ∧
      lsBytes oneIdFlushed.chunks = [5, 5] := by
  have hrun : asanLsMachine.run (fun s op => decide (op.Allowed s)) (oneByteOps [5, 5]) emptyLog =
      some oneIdFlushed := rfl
  exact ⟨Machine.Reachable.run asanLsMachine
    (fun s op h => by have hok := of_decide_eq_true h; exact hok)
    _ (.init ⟨rfl, rfl, rfl, rfl⟩) hrun,
    by decide, by decide⟩

end SmallAllocators
