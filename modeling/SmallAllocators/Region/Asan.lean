/-
SmallAllocators.Region.Asan — the region allocator of
`include/small/region_asan.h` and `small/region_asan.c`.

Every allocation has memory of its own, so that the contents of the region
are those of the allocations, from the oldest to the newest. `region_join`
copies whole allocations, from the last to the first, and of the one where
it stops as many bytes as are left, but from its start: these should be the
bytes at its end. So it returns the last bytes of the region, as the
implementation on slabs does, exactly when it stops between two
allocations, or when the two parts of that one have the same bytes.
-/
import SmallAllocators.Region.Join

namespace SmallAllocators

open Memory

/-! ## The implementation -/

/-- `struct region_allocation`, and the contents of its memory. -/
structure RegionAllocation where
  used : Nat
  alignment : Nat
  payload : Nat → UInt8

/-- The `struct region` of this implementation; the newest allocation is the first. -/
structure AsanRegion where
  allocations : List RegionAllocation
  used : Nat
  reserved : Nat

/-- `SMALL_REGION_MIN_RESERVE`. -/
def smallRegionMinReserve : Nat := 128

def asanRegionCreate : AsanRegion where
  allocations := []
  used := 0
  reserved := 0

/-- `region_prepare_buf`; `payload` is what the new memory happens to hold. -/
def regionPrepareBuf (region : AsanRegion) (alignment used : Nat) (payload : Nat → UInt8) :
    AsanRegion :=
  { region with
    allocations :=
      { used := used, alignment := alignment, payload := payload } :: region.allocations }

def asanAlignedReserve (region : AsanRegion) (size alignment : Nat) (payload : Nat → UInt8) :
    Option AsanRegion := do
  guard (region.reserved = 0)
  let size := if size < smallRegionMinReserve then smallRegionMinReserve else size
  some { regionPrepareBuf region alignment 0 payload with reserved := size }

/-- `region_aligned_alloc_reserved`. -/
def asanAllocReserved (region : AsanRegion) (size alignment : Nat) : Option AsanRegion := do
  guard (size ≤ region.reserved)
  match region.allocations with
  | [] => none
  | alloc :: allocs =>
    guard (alignment = alloc.alignment)
    some {
           allocations := { alloc with used := alloc.used + size } :: allocs
           used := region.used + size
           reserved := 0 }

def asanAlignedAlloc (region : AsanRegion) (size alignment : Nat) (payload : Nat → UInt8) :
    Option AsanRegion := do
  guard (size > 0)
  if region.reserved ≠ 0 then asanAllocReserved region size alignment
  else some { regionPrepareBuf region alignment size payload with used := region.used + size }

def asanAlloc (region : AsanRegion) (size : Nat) (payload : Nat → UInt8) : Option AsanRegion :=
  asanAlignedAlloc region size 1 payload

/-- The loop of `region_truncate`. -/
def asanTruncateLoop : List RegionAllocation → Nat → Option (List RegionAllocation)
  | allocs, 0 => some allocs
  | [], _ + 1 => some []
  | alloc :: allocs, cutSize + 1 => do
    guard (alloc.used ≤ cutSize + 1)
    asanTruncateLoop allocs (cutSize + 1 - alloc.used)

def asanTruncate (region : AsanRegion) (used : Nat) : Option AsanRegion := do
  guard (used ≤ region.used)
  let allocs := if region.reserved ≠ 0 then region.allocations.tail else region.allocations
  let allocs ← asanTruncateLoop allocs (region.used - used)
  some { allocations := allocs, used := used, reserved := 0 }

/-- The loop of `region_join`: `offset` bytes are left to copy to `ret`. It must not run past the
end of the list. -/
def asanJoinLoop : List RegionAllocation → Nat → (Nat → UInt8) → Option (Nat → UInt8)
  | _, 0, ret => some ret
  | [], _ + 1, _ => none
  | alloc :: allocs, offset + 1, ret =>
    let copySize := if offset + 1 < alloc.used then offset + 1 else alloc.used
    asanJoinLoop allocs (offset + 1 - copySize)
      (fill ret (offset + 1 - copySize) copySize alloc.payload)

/-- `region_join`, which returns the memory of the first allocation. -/
def asanJoin (region : AsanRegion) (size : Nat) (payload : Nat → UInt8) : Option AsanRegion := do
  guard (size ≤ region.used)
  guard (region.reserved = 0)
  guard (size > 0)
  let allocs := region.allocations
  let region ← asanAlloc region size payload
  match region.allocations with
  | [] => none
  | alloc :: rest => do
    let ret ← asanJoinLoop allocs size alloc.payload
    some { region with allocations := { alloc with payload := ret } :: rest }

/-! ## Contents -/

/-- The sizes of allocations, together. -/
def sizesOf (allocs : List RegionAllocation) : Nat := (allocs.map RegionAllocation.used).sum

@[simp] theorem sizesOf_nil : sizesOf [] = 0 := rfl

@[simp] theorem sizesOf_cons (alloc : RegionAllocation) (allocs : List RegionAllocation) :
    sizesOf (alloc :: allocs) = alloc.used + sizesOf allocs := rfl

/-- The bytes of allocations, the newest of which is the first. -/
def allocBytes : List RegionAllocation → List UInt8
  | [] => []
  | alloc :: allocs => allocBytes allocs ++ read alloc.payload 0 alloc.used

/-- The bytes that were allocated in the region, in order. -/
def AsanRegion.bytes (region : AsanRegion) : List UInt8 := allocBytes region.allocations

/-- What is at the pointer that `region_join` returned. -/
def AsanRegion.joined (region : AsanRegion) (size : Nat) : List UInt8 :=
  match region.allocations with
  | [] => []
  | alloc :: _ => read alloc.payload 0 size

@[simp] theorem allocBytes_length (allocs : List RegionAllocation) :
    (allocBytes allocs).length = sizesOf allocs := by
  induction allocs with
  | nil => rfl
  | cons alloc allocs ih =>
      rw [allocBytes, List.length_append, ih, read_length, sizesOf_cons, Nat.add_comm]

/-- If the last `size` bytes begin inside of an allocation, then the allocation begins with the same
bytes as it ends with, as many as are needed of it. -/
def CutRepeats (allocs : List RegionAllocation) (size : Nat) : Prop :=
  ∀ newer alloc older, allocs = newer ++ alloc :: older → sizesOf newer < size →
  size < sizesOf newer + alloc.used →
    read alloc.payload 0 (size - sizesOf newer) =
      read alloc.payload (alloc.used - (size - sizesOf newer)) (size - sizesOf newer)

theorem cutRepeats_cons_of_le {alloc : RegionAllocation} {allocs : List RegionAllocation}
    {size : Nat} (hle : alloc.used ≤ size) :
    CutRepeats (alloc :: allocs) size ↔ CutRepeats allocs (size - alloc.used) := by
  constructor
  · rintro h newer a older rfl h1 h2
    have hcut :=
      h (alloc :: newer) a older rfl (by rw [sizesOf_cons]; omega) (by rw [sizesOf_cons]; omega)
    rw [sizesOf_cons, show size - (alloc.used + sizesOf newer) =
      size - alloc.used - sizesOf newer by omega] at hcut
    exact hcut
  · intro h newer a older heq h1 h2
    cases newer with
    | nil =>
        rw [List.nil_append, List.cons.injEq] at heq
        rw [← heq.1, sizesOf_nil] at h2
        omega
    | cons b newer =>
        rw [List.cons_append, List.cons.injEq] at heq
        obtain ⟨rfl, rfl⟩ := heq
        rw [sizesOf_cons] at h1 h2 ⊢
        have hcut := h newer a older rfl (by omega) (by omega)
        rw [show size - (alloc.used + sizesOf newer) = size - alloc.used - sizesOf newer by omega]
        exact hcut

theorem cutRepeats_cons_of_lt {alloc : RegionAllocation} {allocs : List RegionAllocation}
    {size : Nat} (hpos : 0 < size) (hlt : size < alloc.used) :
    CutRepeats (alloc :: allocs) size ↔
      read alloc.payload 0 size = read alloc.payload (alloc.used - size) size := by
  constructor
  · intro h
    exact h [] alloc allocs rfl hpos (by rw [sizesOf_nil]; omega)
  · intro h newer a older heq h1 h2
    cases newer with
    | nil =>
        rw [List.nil_append, List.cons.injEq] at heq
        rw [← heq.1]
        exact h
    | cons b newer =>
        rw [List.cons_append, List.cons.injEq] at heq
        rw [sizesOf_cons, ← heq.1] at h1
        omega

/-- At the boundary between two allocations there is nothing to compare. -/
theorem cutRepeats_of_boundary (newer older : List RegionAllocation) :
    CutRepeats (newer ++ older) (sizesOf newer) := by
  induction newer with
  | nil =>
      intro newer alloc older' _ h1
      exact absurd h1 (Nat.not_lt_zero _)
  | cons alloc newer ih =>
      rw [List.cons_append,
        cutRepeats_cons_of_le (by rw [sizesOf_cons]; exact Nat.le_add_right _ _), sizesOf_cons,
        Nat.add_sub_cancel_left]
      exact ih

/-! ## `region_join` -/

/-- The loop stays in the list, and copies the last bytes of the allocations exactly when the one
where it stops repeats them. -/
theorem asanJoinLoop_spec (allocs : List RegionAllocation) (offset : Nat) (ret : Nat → UInt8)
    (hle : offset ≤ sizesOf allocs) :
    ∃ ret', asanJoinLoop allocs offset ret = some ret' ∧ (∀ x, offset ≤ x → ret' x = ret x) ∧
      (read ret' 0 offset = (allocBytes allocs).drop (sizesOf allocs - offset) ↔
        CutRepeats allocs offset) := by
  induction allocs generalizing offset ret with
  | nil =>
      rw [sizesOf_nil, Nat.le_zero] at hle
      subst hle
      exact ⟨ret, rfl, fun _ _ => rfl, fun _ => cutRepeats_of_boundary [] _, fun _ => rfl⟩
  | cons alloc allocs ih =>
      have hlen := allocBytes_length allocs
      rw [sizesOf_cons] at hle
      cases offset with
      | zero =>
          refine ⟨ret, rfl, fun _ _ => rfl, fun _ => cutRepeats_of_boundary [] _, fun _ => ?_⟩
          rw [read_zero, Nat.sub_zero, List.drop_of_length_le (by rw [allocBytes_length])]
      | succ offset =>
          unfold asanJoinLoop
          by_cases hlt : offset + 1 < alloc.used
          · -- the loop stops in this allocation
            rw [if_pos hlt]
            dsimp only
            rw [Nat.sub_self]
            refine ⟨_, by rw [asanJoinLoop], fun x hx => fill_of_not (by omega), ?_⟩
            rw [read_fill_data, cutRepeats_cons_of_lt (Nat.succ_pos _) hlt, allocBytes,
              sizesOf_cons, List.drop_append,
              List.drop_of_length_le (by omega), List.nil_append, hlen,
              show alloc.used + sizesOf allocs - (offset + 1) - sizesOf allocs =
              alloc.used - (offset + 1) by omega,
              read_drop' alloc.payload 0 (by omega), Nat.zero_add,
              show alloc.used - (alloc.used - (offset + 1)) = offset + 1 by omega]
          · -- the whole allocation, and the rest of the bytes in front of it
            rw [if_neg hlt]
            have hused := Nat.le_of_not_lt hlt
            dsimp only
            generalize hrest : offset + 1 - alloc.used = rest
            obtain ⟨ret', heq, hout, hiff⟩ :=
              ih rest (fill ret rest alloc.used alloc.payload) (by omega)
            refine ⟨ret', heq, fun x hx => ?_, ?_⟩
            · rw [hout x (by omega), fill_of_not (by omega)]
            · have hlast : read ret' rest alloc.used = read alloc.payload 0 alloc.used := by
                calc read ret' rest alloc.used
                    = read (fill ret rest alloc.used alloc.payload) rest alloc.used :=
                      read_congr fun x h1 h2 => hout x h1
                  _ = read alloc.payload 0 alloc.used :=
                    read_fill_data ret rest alloc.used alloc.payload
              have hdrop := drop_append_of_length (allocBytes allocs)
                (read alloc.payload 0 alloc.used) (n := rest) (by omega)
              rw [read_length, hlen] at hdrop
              rw [cutRepeats_cons_of_le hused, hrest, ← hiff,
                show offset + 1 = rest + alloc.used by omega, read_add,
                Nat.zero_add, hlast, allocBytes, sizesOf_cons, Nat.add_comm alloc.used, hdrop]
              exact List.append_left_inj _

/-! ## Runs -/

inductive AsanOp where
  | alloc (size : Nat) (payload : Nat → UInt8)
  | alignedAlloc (size alignment : Nat) (payload : Nat → UInt8)
  | alignedReserve (size alignment : Nat) (payload : Nat → UInt8)
  | truncate (used : Nat)
  | join (size : Nat) (payload : Nat → UInt8)
  /-- The client fills its allocation number `i`, counted from the newest. -/
  | write (i : Nat) (payload : Nat → UInt8)

def AsanOp.exec (r : AsanRegion) : AsanOp → Option AsanRegion
  | .alloc size payload => asanAlloc r size payload
  | .alignedAlloc size alignment payload => asanAlignedAlloc r size alignment payload
  | .alignedReserve size alignment payload => asanAlignedReserve r size alignment payload
  | .truncate used => asanTruncate r used
  | .join size payload => asanJoin r size payload
  | .write i payload =>
    some { r with allocations := r.allocations.modify i fun alloc =>
      { alloc with payload := payload } }

/-- All runs that no assertion ends. -/
def asanMachine : Machine AsanRegion AsanOp where
  init r := r = asanRegionCreate
  allowed _ _ := True
  exec := AsanOp.exec

/-- The counter of the region is the sum of the sizes, and a reservation is an allocation that has
no bytes yet. -/
structure AsanRegion.Inv (r : AsanRegion) : Prop where
  used : r.used = sizesOf r.allocations
  reserved : r.reserved ≠ 0 → ∃ alloc allocs, r.allocations = alloc :: allocs ∧ alloc.used = 0

variable {r r' : AsanRegion} {size : Nat}

theorem asanAlignedAlloc_inv (h : r.Inv) {alignment : Nat} {payload : Nat → UInt8}
    (heq : asanAlignedAlloc r size alignment payload = some r') : r'.Inv := by
  unfold asanAlignedAlloc at heq
  obtain ⟨-, -, heq⟩ := Option.bind_eq_some_iff.1 heq
  split at heq
  · unfold asanAllocReserved at heq
    obtain ⟨-, -, heq⟩ := Option.bind_eq_some_iff.1 heq
    split at heq
    · cases heq
    · next alloc allocs hallocs =>
        obtain ⟨-, -, heq⟩ := Option.bind_eq_some_iff.1 heq
        cases heq
        refine ⟨?_, fun hres => absurd rfl hres⟩
        have hused := h.used
        rw [hallocs, sizesOf_cons] at hused
        dsimp only [sizesOf_cons]
        omega
  · next hres =>
      cases heq
      refine ⟨?_, fun hres' => absurd hres' hres⟩
      have hused := h.used
      simp only [regionPrepareBuf, sizesOf_cons]
      omega

theorem asanAlignedReserve_inv (h : r.Inv) {alignment : Nat} {payload : Nat → UInt8}
    (heq : asanAlignedReserve r size alignment payload = some r') : r'.Inv := by
  unfold asanAlignedReserve at heq
  obtain ⟨-, -, heq⟩ := Option.bind_eq_some_iff.1 heq
  cases heq
  refine ⟨?_, fun _ => ⟨_, _, rfl, rfl⟩⟩
  have hused := h.used
  simp only [regionPrepareBuf, sizesOf_cons, Nat.zero_add]
  exact hused

theorem asanTruncateLoop_sizes (allocs : List RegionAllocation) (cutSize : Nat)
    (hle : cutSize ≤ sizesOf allocs) {allocs' : List RegionAllocation}
    (heq : asanTruncateLoop allocs cutSize = some allocs') :
    sizesOf allocs' + cutSize = sizesOf allocs := by
  induction allocs generalizing cutSize with
  | nil =>
      rw [sizesOf_nil, Nat.le_zero] at hle
      subst hle
      cases heq
      rfl
  | cons alloc allocs ih =>
      cases cutSize with
      | zero =>
          cases heq
          rfl
      | succ cutSize =>
          rw [sizesOf_cons] at hle ⊢
          unfold asanTruncateLoop at heq
          obtain ⟨u, hguard, heq⟩ := Option.bind_eq_some_iff.1 heq
          have hused : alloc.used ≤ cutSize + 1 := by
            by_contra hnot
            simp [guard, hnot] at hguard
          have hrest := ih (cutSize + 1 - alloc.used) (by omega) heq
          omega

theorem asanTruncate_inv (h : r.Inv) {used : Nat} (heq : asanTruncate r used = some r') :
    r'.Inv := by
  unfold asanTruncate at heq
  obtain ⟨u, hguard, heq⟩ := Option.bind_eq_some_iff.1 heq
  have hle : used ≤ r.used := by
    by_contra hnot
    simp [guard, hnot] at hguard
  obtain ⟨allocs, hloop, heq⟩ := Option.bind_eq_some_iff.1 heq
  cases heq
  refine ⟨?_, fun hres => absurd rfl hres⟩
  have hused := h.used
  -- the reservation, if there is one, has no bytes
  have hsizes : sizesOf (if r.reserved ≠ 0 then r.allocations.tail else r.allocations) =
      sizesOf r.allocations := by
    split
    · next hres =>
        obtain ⟨alloc, allocs', hallocs, hzero⟩ := h.reserved hres
        rw [hallocs, List.tail_cons, sizesOf_cons, hzero, Nat.zero_add]
    · rfl
  have hcut := asanTruncateLoop_sizes _ _ (by rw [hsizes]; omega) hloop
  rw [hsizes] at hcut
  dsimp only
  omega

/-- What `region_join` does in a region without a reservation. -/
theorem asanJoin_eq (hpos : 0 < size) (hle : size ≤ r.used) (hres : r.reserved = 0)
    (payload : Nat → UInt8) :
    asanJoin r size payload = (asanJoinLoop r.allocations size payload).map fun ret =>
      { allocations := { used := size, alignment := 1, payload := ret } :: r.allocations
        used := r.used + size
        reserved := r.reserved } := by
  simp only [asanJoin, guard, hle, hres, hpos, if_true, pure, Option.bind_eq_bind,
    Option.bind_some, asanAlloc,
    asanAlignedAlloc, ne_eq, not_true_eq_false, if_false, regionPrepareBuf]
  cases asanJoinLoop r.allocations size payload <;> rfl

theorem asanJoin_inv (h : r.Inv) {payload : Nat → UInt8}
    (heq : asanJoin r size payload = some r') : r'.Inv := by
  unfold asanJoin at heq
  obtain ⟨-, -, heq⟩ := Option.bind_eq_some_iff.1 heq
  obtain ⟨-, -, heq⟩ := Option.bind_eq_some_iff.1 heq
  obtain ⟨-, -, heq⟩ := Option.bind_eq_some_iff.1 heq
  obtain ⟨r₁, halloc, heq⟩ := Option.bind_eq_some_iff.1 heq
  have h₁ := asanAlignedAlloc_inv h halloc
  split at heq
  · cases heq
  · next alloc rest hallocs =>
      obtain ⟨ret, -, heq⟩ := Option.bind_eq_some_iff.1 heq
      cases heq
      refine ⟨?_, fun hres => ?_⟩
      · rw [h₁.used, hallocs]
        rfl
      · obtain ⟨alloc', allocs', hallocs', hzero⟩ := h₁.reserved hres
        rw [hallocs, List.cons.injEq] at hallocs'
        exact ⟨_, _, rfl, by rw [hallocs'.1]; exact hzero⟩

/-- The contents of an allocation are not among the counters. -/
theorem AsanRegion.Inv.write (h : r.Inv) (i : Nat) (payload : Nat → UInt8) :
    AsanRegion.Inv { r with allocations := r.allocations.modify i fun alloc =>
      { alloc with payload := payload } } := by
  have hsizes : ∀ (allocs : List RegionAllocation) i,
      (allocs.modify i fun alloc => { alloc with payload := payload }).map RegionAllocation.used =
        allocs.map RegionAllocation.used := by
    intro allocs
    induction allocs with
    | nil => simp
    | cons alloc allocs ih =>
        intro i
        cases i with
        | zero => rfl
        | succ i => simp [ih i]
  refine ⟨?_, fun hres => ?_⟩
  · dsimp only
    rw [sizesOf, hsizes]
    exact h.used
  · obtain ⟨alloc, allocs, hallocs, hzero⟩ := h.reserved hres
    dsimp only
    rw [hallocs]
    cases i with
    | zero => exact ⟨_, _, rfl, hzero⟩
    | succ i => exact ⟨_, _, rfl, hzero⟩

theorem asanMachine_inv (hr : asanMachine.Reachable r) : r.Inv := by
  apply Machine.Reachable.of_step asanMachine _ _ hr
  · rintro _ rfl
    exact ⟨rfl, fun hres => absurd rfl hres⟩
  · intro r op r' h _ heq
    cases op with
    | alloc size payload => exact asanAlignedAlloc_inv h heq
    | alignedAlloc size alignment payload => exact asanAlignedAlloc_inv h heq
    | alignedReserve size alignment payload => exact asanAlignedReserve_inv h heq
    | truncate used => exact asanTruncate_inv h heq
    | join size payload => exact asanJoin_inv h heq
    | write i payload =>
        cases heq
        exact h.write i payload

/-- **The two `region_join` agree** exactly when the allocation that the last `size` bytes begin in
repeats at its start what it has at its end: then this one returns the last bytes that were
allocated, and so it returns what `region_join` on slabs does in a region with the same bytes. -/
theorem asanJoin_agrees_iff (hr : asanMachine.Reachable r) (hpos : 0 < size) (hle : size ≤ r.used)
    (hres : r.reserved = 0) (payload : Nat → UInt8) :
    ∃ r', asanJoin r size payload = some r' ∧
      (r'.joined size = r.bytes.drop (r.bytes.length - size) ↔ CutRepeats r.allocations size) ∧
      ∀ (g : Geometry) (slabRegion slabRegion' : Region) (answer answer' : Option Nat) (p : Nat),
        rslabSizeof ≤ g.order0Size → (regionMachine g).Reachable slabRegion →
        slabRegion.Answer g size answer →
        slabRegion.bytes = r.bytes →
        regionJoin g slabRegion size answer answer' = some (some p, slabRegion') →
        (r'.joined size = read slabRegion'.mem p size ↔ CutRepeats r.allocations size) := by
  have hinv := asanMachine_inv hr
  have hused := hinv.used
  obtain ⟨ret, hloop, -, hiff⟩ := asanJoinLoop_spec r.allocations size payload (by omega)
  have hlen : r.bytes.length = sizesOf r.allocations := allocBytes_length _
  rw [← hlen] at hiff
  have hjoin : asanJoin r size payload = some
      { allocations := { used := size, alignment := 1, payload := ret } :: r.allocations
        used := r.used + size
        reserved := r.reserved } := by
    rw [asanJoin_eq hpos hle hres, hloop]
    rfl
  refine ⟨_, hjoin, hiff, ?_⟩
  intro g slabRegion slabRegion' answer answer' p hg hreach hans hbytes hslabJoin
  have hslabs := regionMachine_inv hg hreach
  have hsize : size ≤ slabRegion.used := by
    rw [← hslabs.bytes_length, hbytes, hlen, ← hused]
    exact hle
  have hopen : slabRegion.reserved = false := by
    by_contra hnot
    simp [regionJoin, guard, hnot] at hslabJoin
  rcases regionJoin_joined hg hslabs hans hpos hsize hopen answer' with ⟨-, hnull⟩
    | ⟨q, reg, hsome, hjoined⟩
  · rw [hnull] at hslabJoin
    cases hslabJoin
  · rw [hsome] at hslabJoin
    cases hslabJoin
    rw [hjoined.bytes, hbytes]
    exact hiff

/-- A region with one allocation, of the bytes 1, 2, 3, 4. -/
def fourBytesRegion : AsanRegion where
  allocations := [{ used := 4, alignment := 1, payload := fun i => (i + 1).toUInt8 }]
  used := 4
  reserved := 0

theorem fourBytesRegion_reachable : asanMachine.Reachable fourBytesRegion :=
  .step (.alloc 4 fun i => (i + 1).toUInt8) (.init rfl) trivial rfl

/-- All four bytes. -/
theorem asanJoin_agrees_iff_four_bytes :
    ∃ r', asanJoin fourBytesRegion 4 (fun _ => 0) = some r' ∧ r'.joined 4 = [1, 2, 3, 4] := by
  obtain ⟨r', hjoin, hiff, -⟩ :=
    asanJoin_agrees_iff fourBytesRegion_reachable (show 0 < 4 by decide) (by decide) rfl fun _ => 0
  exact ⟨r', hjoin, hiff.2 (cutRepeats_of_boundary fourBytesRegion.allocations [])⟩

/-- The last two of the four bytes are 3 and 4, and `region_join` returns 1 and 2. -/
theorem asanJoin_returns_head :
    asanMachine.Reachable fourBytesRegion ∧ 2 ≤ fourBytesRegion.used ∧
      fourBytesRegion.reserved = 0 ∧
      (asanJoin fourBytesRegion 2 fun _ => 0).map (fun r' => r'.joined 2) = some [1, 2] ∧
      fourBytesRegion.bytes.drop (fourBytesRegion.bytes.length - 2) = [3, 4] :=
  ⟨fourBytesRegion_reachable, by decide, rfl, by decide, by decide⟩

end SmallAllocators
