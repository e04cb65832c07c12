/-
SmallAllocators.Region.Chunks — the chunks that the clients of a region
have, and savepoints.

A run keeps the chunks that the calls returned, each with `region_used`
after its call, and takes away those that a truncation cuts. The chunks lie
among the bytes in use of the slabs, as long as `region_aligned_alloc` is
not called with a size that wraps around with the alignment or the header:
it counts what it reserved, which is then less than the chunk has.
-/
import SmallAllocators.Region.Runs

namespace SmallAllocators

open Memory

/-- A chunk that a client got, and `region_used` after the call. -/
structure RegionChunk where
  ptr : Nat
  size : Nat
  used : Nat
deriving DecidableEq, Repr

structure ChunkState where
  region : Region
  chunks : List RegionChunk

section Machine

variable (g : Geometry)

/-- The pointer that a call returns to a client, and how many bytes the client has there. -/
def RegionOp.returned (r : Region) : RegionOp → Option (Nat × Nat)
  | .alloc size answer => do
    let (ptr, _) ← regionAlloc g r size answer
    ptr.map fun p => (p, size)
  | .alignedAlloc size alignment answer => do
    let (ptr, _) ← regionAlignedAlloc g r size alignment answer
    ptr.map fun p => (p, size)
  | .join size answer answer' => do
    let (ptr, _) ← regionJoin g r size answer answer'
    ptr.map fun p => (p, size)
  | _ => none

/-- The chunks that the clients still have. -/
def RegionOp.kept (chunks : List RegionChunk) : RegionOp → List RegionChunk
  | .truncate used => chunks.filter fun c => c.used ≤ used
  | .free => []
  | _ => chunks

def RegionOp.execChunks (s : ChunkState) (op : RegionOp) : Option ChunkState := do
  let r ← op.exec g s.region
  let new := (op.returned g s.region).toList.map fun c => ⟨c.1, c.2, regionUsed r⟩
  some { region := r, chunks := new ++ op.kept s.chunks }

/-- The runs of a region with its clients. -/
def chunkMachine : Machine ChunkState RegionOp where
  init := fun s => ∃ mem, s = { region := regionCreate mem, chunks := [] }
  allowed := fun s op => op.Allowed g s.region
  exec := RegionOp.execChunks g

/-- The runs that follow the savepoint `s₀`. -/
def chunksSince (s₀ : ChunkState) : Machine ChunkState RegionOp where
  init := fun s => s = s₀
  allowed := fun s op => op.Allowed g s.region ∧ op.Since s₀.region s.region
  exec := RegionOp.execChunks g

end Machine

/-- What `region_aligned_alloc` reserves can be represented together with the header of a slab. -/
def RegionOp.Fits : RegionOp → Prop
  | .alignedAlloc size alignment _ => rslabSizeof + (size + alignment - 1) < sizeMax
  | _ => True

variable {g : Geometry} {s s' s₀ : ChunkState} {r r' : Region} {c : RegionChunk} {op : RegionOp}
  {slabs N Z M D rest : List Rslab} {n k : Nat}

/-! ## Chunks in slabs -/

/-- The chunk lies among the first `c.used` bytes of the slabs, the newest of which is the first. -/
def RegionChunk.In (c : RegionChunk) : List Rslab → Prop
  | [] => False
  | t :: slabs =>
      t.data ≤ c.ptr ∧ c.ptr + c.size + usedOf slabs ≤ t.data + c.used ∧
        c.used ≤ t.used + usedOf slabs ∨
        c.In slabs

theorem RegionChunk.In.slab (h : c.In slabs) :
    ∃ t ∈ slabs, t.data ≤ c.ptr ∧ c.ptr + c.size ≤ t.dataEnd := by
  induction slabs with
  | nil => cases h
  | cons t slabs ih =>
      rcases h with ⟨hstart, hend, hused⟩ | h
      · refine ⟨t, List.mem_cons_self, hstart, ?_⟩
        rw [Rslab.dataEnd]
        omega
      · obtain ⟨u, hu, hin⟩ := ih h
        exact ⟨u, List.mem_cons_of_mem _ hu, hin⟩

theorem RegionChunk.In.used (h : c.In slabs) (hpos : 0 < c.size) :
    0 < c.used ∧ c.used ≤ usedOf slabs := by
  induction slabs with
  | nil => cases h
  | cons t slabs ih =>
      rw [usedOf_cons]
      rcases h with ⟨hstart, hend, hused⟩ | h
      · omega
      · obtain ⟨hcount, hle⟩ := ih h
        exact ⟨hcount, Nat.le_trans hle (Nat.le_add_left _ _)⟩

/-- New slabs go in front. -/
theorem RegionChunk.In.append (h : c.In slabs) (N : List Rslab) : c.In (N ++ slabs) := by
  induction N with
  | nil => exact h
  | cons t N ih => exact .inr ih

/-- No chunk is in an empty slab. -/
theorem RegionChunk.In.of_empty (h : c.In (Z ++ M)) (hempty : ∀ t ∈ Z, t.used = 0)
    (hpos : 0 < c.size) :
    c.In M := by
  induction Z with
  | nil => exact h
  | cons t Z ih =>
      rcases h with ⟨hstart, hend, hused⟩ | h
      · have hzero := hempty t List.mem_cons_self
        omega
      · exact ih h fun u hu => hempty u (List.mem_cons_of_mem _ hu)

theorem RegionChunk.In.grow (h : c.In M) (n : Nat) : c.In (grow n M) := by
  cases M with
  | nil => exact h
  | cons t M =>
      rcases h with ⟨hstart, hend, hused⟩ | h
      · refine .inl ⟨hstart, hend, ?_⟩
        change c.used ≤ t.used + n + usedOf M
        omega
      · exact .inr h

/-- What the bytes that are left still count stays. -/
theorem RegionChunk.In.cut {t : Rslab} (h : c.In (D ++ t :: rest)) (hpos : 0 < c.size)
    (hleft : c.used ≤ usedOf (t.trim k :: rest)) : c.In (t.trim k :: rest) := by
  have htrim : usedOf (t.trim k :: rest) = t.used - k + usedOf rest := rfl
  induction D with
  | nil =>
      rcases h with ⟨hstart, hend, hused⟩ | h
      · exact .inl ⟨hstart, hend, hleft⟩
      · exact .inr h
  | cons u D ih =>
      rcases h with ⟨hstart, hend, hused⟩ | h
      · -- the chunk is newer than what is left
        change c.ptr + c.size + usedOf (D ++ t :: rest) ≤ _ at hend
        rw [usedOf_append, usedOf_cons] at hend
        omega
      · exact ih h

/-! ## The calls -/

/-- The last `n` bytes of the newest slab are at `p`. -/
def Region.EndsWith (r : Region) (p n : Nat) : Prop :=
  ∃ t rest, r.slabs = t :: rest ∧ t.data ≤ p ∧ p + n = t.dataEnd

theorem Region.EndsWith.chunk {p : Nat} (h : r.EndsWith p n) (hi : r.Inv) :
    RegionChunk.In ⟨p, n, regionUsed r⟩ r.slabs := by
  obtain ⟨t, rest, hslabs, hstart, hend⟩ := h
  have hused := hi.used
  rw [hslabs, usedOf_cons] at hused
  rw [Rslab.dataEnd] at hend
  rw [hslabs]
  refine .inl ⟨hstart, ?_, ?_⟩
  · change p + n + usedOf rest ≤ t.data + r.used
    omega
  · change r.used ≤ t.used + usedOf rest
    omega

/-- A chunk of `n` bytes at `p`, behind the bytes in use, is counted with what is in front of it. -/
theorem Region.useFirst_endsWith {t : Rslab} {p m : Nat} (ht : r.slabs.head? = some t)
    (hb : t.InBounds) (hp : t.dataEnd ≤ p) (hm : m = p - t.dataEnd + n)
    (heq : r.useFirst m = some r') :
    r'.EndsWith p n := by
  unfold Region.useFirst at heq
  cases hslabs : r.slabs with
  | nil => simp [hslabs] at ht
  | cons u slabs =>
      rw [hslabs, List.head?_cons, Option.some.injEq] at ht
      subst ht
      rw [hslabs] at heq
      obtain ⟨x, hguard, heq⟩ := Option.bind_eq_some_iff.1 heq
      have hroom : m ≤ u.unused := by
        by_contra hnot
        simp [guard, hnot] at hguard
      rw [Rslab.unused_eq hb] at hroom
      obtain rfl := Option.some.inj heq
      refine ⟨u.use m, slabs, rfl, ?_, ?_⟩
      · exact Nat.le_trans (Nat.le_add_right _ _) hp
      · rw [(hb.grow hroom).1]
        change p + n = u.data + (u.used + m)
        rw [Rslab.dataEnd] at hp hm
        omega

theorem regionAlloc_endsWith (hg : rslabSizeof ≤ g.order0Size) (h : r.Inv) {size p : Nat}
    {answer : Option Nat} (hans : r.Answer g size answer)
    (heq : regionAlloc g r size answer = some (some p, r')) : 0 < size ∧ r'.EndsWith p size := by
  unfold regionAlloc at heq
  obtain ⟨x, hguard, heq⟩ := Option.bind_eq_some_iff.1 heq
  have hpos : 0 < size := by
    by_contra hnot
    simp [guard, hnot] at hguard
  refine ⟨hpos, ?_⟩
  rcases regionReserve_spec hg (h.after_create.setReserved false) hans rfl with
    ⟨-, hnone⟩ | ⟨q, r₁, hsome, hafter, hfound⟩
  · rw [hnone] at heq
    cases heq
  · rw [hsome, Option.bind_eq_bind, Option.bind_some] at heq
    obtain ⟨r₂, huse, heq⟩ := Option.bind_eq_some_iff.1 heq
    obtain ⟨rfl, rfl⟩ : q = p ∧ r₂ = r' := by simpa using heq
    obtain ⟨t, ht, hq, -⟩ := hfound.first
    exact Region.useFirst_endsWith ht (hafter.inv.bounds t (List.mem_of_mem_head? ht)) hq.ge
      (by omega) huse

/-- `small_align` accepts powers of two, and 0. -/
theorem smallAlign_alignment {x y alignment : Nat} (hlt : alignment < sizeMax)
    (h : smallAlign x alignment = some y) : alignment = 0 ∨ ∃ k, alignment = 2 ^ k := by
  by_cases hzero : alignment = 0
  · exact .inl hzero
  right
  obtain ⟨u, hguard, -⟩ := Option.bind_eq_some_iff.1 h
  have hand : alignment &&& (alignment - 1) = 0 := by
    by_contra hne
    rw [show alignment + (sizeMax - 1) = alignment - 1 + sizeMax by omega, Nat.add_mod_right,
      Nat.mod_eq_of_lt (by omega)] at hguard
    simp [guard, hne] at hguard
  exact (Nat.and_sub_one_eq_zero_iff_isPowerOfTwo hzero).1 hand

/-- `region_aligned_reserve` returns `NULL` when the alignment is 0. -/
theorem regionAlignedReserve_zero {size p : Nat} {answer : Option Nat} :
    regionAlignedReserve g r size 0 answer ≠ some (some p, r') := by
  intro heq
  obtain ⟨⟨q, r₁⟩, -, heq⟩ := Option.bind_eq_some_iff.1 heq
  obtain ⟨y, halign, heq⟩ := Option.bind_eq_some_iff.1 heq
  obtain ⟨u, -, halign⟩ := Option.bind_eq_some_iff.1 halign
  have hy : y = 0 := by
    rw [← Option.some.inj halign]
    exact Nat.and_zero _
  rw [hy] at heq
  cases heq

theorem regionAlignedAlloc_endsWith (hg : rslabSizeof ≤ g.order0Size) (h : r.Inv)
    {size alignment p : Nat} {answer : Option Nat}
    (hans : r.Answer g ((size + alignment + (sizeMax - 1)) % sizeMax) answer)
    (hsize : rslabSizeof + (size + alignment - 1) < sizeMax)
    (heq : regionAlignedAlloc g r size alignment answer = some (some p, r')) :
    0 < size ∧ r'.EndsWith p size := by
  unfold regionAlignedAlloc at heq
  obtain ⟨x, hguard, heq⟩ := Option.bind_eq_some_iff.1 heq
  have hpos : 0 < size := by
    by_contra hnot
    simp [guard, hnot] at hguard
  obtain ⟨⟨q, r₁⟩, hreserve, heq⟩ := Option.bind_eq_some_iff.1 heq
  cases q with
  | none => cases heq
  | some q =>
      obtain ⟨t, ht, heq⟩ := Option.bind_eq_some_iff.1 heq
      obtain ⟨r₂, huse, heq⟩ := Option.bind_eq_some_iff.1 heq
      obtain ⟨rfl, rfl⟩ : q = p ∧ r₂ = r' := by simpa using heq
      have halign : alignment = 0 ∨ ∃ k, alignment = 2 ^ k := by
        obtain ⟨w, -, hrest⟩ := Option.bind_eq_some_iff.1 hreserve
        obtain ⟨y, hy, -⟩ := Option.bind_eq_some_iff.1 hrest
        exact smallAlign_alignment (by omega) hy
      rcases halign with rfl | ⟨k, rfl⟩
      · exact absurd hreserve regionAlignedReserve_zero
      · rcases regionAlignedReserve_returns hg (h.after_create.setReserved false).inv hans rfl hpos
          hsize with hnone | ⟨q', r₃, t', hsome, ht', hb, hle, hroom⟩
        · rw [hnone] at hreserve
          cases hreserve
        · obtain ⟨rfl, rfl⟩ : q' = q ∧ { r₃ with reserved := true } = r₁ := by
            simpa using hsome.symm.trans hreserve
          obtain rfl : t' = t := Option.some.inj (ht'.symm.trans ht)
          exact ⟨hpos, Region.useFirst_endsWith ht hb hle (effectiveSize_of_room hb hle hroom) huse⟩

theorem regionJoin_endsWith (hg : rslabSizeof ≤ g.order0Size) (h : r.Inv) {size p : Nat}
    {answer answer' : Option Nat} (hans : r.Answer g size answer)
    (heq : regionJoin g r size answer answer' = some (some p, r')) :
    0 < size ∧ r'.EndsWith p size := by
  unfold regionJoin at heq
  simp only [guard, Option.bind_eq_bind] at heq
  by_cases hle : size ≤ r.used
  swap
  · simp [hle] at heq
  cases hres : r.reserved
  swap
  · simp [hle, hres] at heq
  by_cases hpos : size > 0
  swap
  · simp [hle, hres, hpos] at heq
  refine ⟨hpos, ?_⟩
  simp only [hle, hres, hpos, if_true, Bool.false_eq_true, not_false_eq_true, pure,
    Option.bind_some, Option.bind_eq_some_iff] at heq
  obtain ⟨t, ht, heq⟩ := heq
  by_cases hone : t.used ≥ size
  · -- the bytes stay where they are
    obtain ⟨rfl, rfl⟩ : t.data + t.used - size = p ∧ r = r' := by simpa [hone] using heq
    obtain ⟨rest, hslabs⟩ : ∃ rest, r.slabs = t :: rest := by
      cases hslabs : r.slabs with
      | nil => simp [hslabs] at ht
      | cons u rest =>
          rw [hslabs, List.head?_cons, Option.some.injEq] at ht
          exact ⟨rest, by rw [ht]⟩
    refine ⟨t, rest, hslabs, by omega, ?_⟩
    rw [Rslab.dataEnd]
    omega
  · simp only [if_neg hone, Option.bind_eq_some_iff] at heq
    obtain ⟨⟨q, r₁⟩, hreserve, heq⟩ := heq
    rcases regionReserve_spec hg h.after_create hans hres with
      ⟨-, hnone⟩ | ⟨q', r₂, hsome, hafter, hfound⟩
    · rw [hnone, Option.some.injEq, Prod.mk.injEq] at hreserve
      obtain ⟨rfl, rfl⟩ := hreserve
      cases heq
    · rw [hsome, Option.some.injEq, Prod.mk.injEq] at hreserve
      obtain ⟨rfl, rfl⟩ := hreserve
      simp only [Option.bind_eq_some_iff] at heq
      obtain ⟨mem, hloop, ⟨q₃, r₃⟩, halloc, heq⟩ := heq
      obtain ⟨rfl, rfl⟩ : q' = p ∧ r₃ = r' := by simpa using heq
      have hsize : rslabSizeof + size < sizeMax := by
        have hne : r.slabs ≠ [] := by
          intro hnil
          simp [hnil] at ht
        have := h.used_add_lt hne
        omega
      obtain ⟨u, hu, hq, hroom⟩ := hfound.first
      -- the copy is what `region_alloc` returns
      rw [regionAlloc_in_first (r := { r₂ with reserved := true, mem := mem }) hu
        (hroom hsize) hpos, Option.map_eq_some_iff] at halloc
      obtain ⟨r₄, huse, heq⟩ := halloc
      obtain ⟨-, rfl⟩ := Prod.mk.inj heq
      have hb := hafter.inv.bounds u (List.mem_of_mem_head? hu)
      have hm : size = q' - u.dataEnd + size := by omega
      exact Region.useFirst_endsWith
        (r := { r₂ with reserved := true, mem := mem }) hu hb hq.ge hm huse

/-! ## The invariant over runs -/

/-- The chunks are in the slabs. -/
structure ChunkState.Inv (g : Geometry) (s : ChunkState) : Prop where
  region : (regionMachine g).Reachable s.region
  chunks : ∀ c ∈ s.chunks, 0 < c.size ∧ c.In s.region.slabs

/-- What a call returns is the end of the newest slab. -/
theorem RegionOp.returned_endsWith (hg : rslabSizeof ≤ g.order0Size) (h : r.Inv) {p : Nat}
    (hop : op.Allowed g r) (hfits : op.Fits) (heq : op.exec g r = some r')
    (hret : op.returned g r = some (p, n)) : 0 < n ∧ r'.EndsWith p n := by
  cases op with
  | alloc size answer =>
      obtain ⟨⟨ptr, r₁⟩, hrun, rfl⟩ := Option.map_eq_some_iff.1 heq
      obtain ⟨rfl, rfl⟩ : ptr = some p ∧ size = n := by simpa [RegionOp.returned, hrun] using hret
      exact regionAlloc_endsWith hg h hop hrun
  | alignedAlloc size alignment answer =>
      obtain ⟨⟨ptr, r₁⟩, hrun, rfl⟩ := Option.map_eq_some_iff.1 heq
      obtain ⟨rfl, rfl⟩ : ptr = some p ∧ size = n := by simpa [RegionOp.returned, hrun] using hret
      exact regionAlignedAlloc_endsWith hg h hop hfits hrun
  | join size answer answer' =>
      obtain ⟨⟨ptr, r₁⟩, hrun, rfl⟩ := Option.map_eq_some_iff.1 heq
      obtain ⟨rfl, rfl⟩ : ptr = some p ∧ size = n := by simpa [RegionOp.returned, hrun] using hret
      exact regionJoin_endsWith hg h hop hrun
  | _ => cases hret

/-- A call that allocates, reserves or joins keeps the chunks. -/
theorem Region.After.chunk (h : r.After r') (hin : c.In r.slabs) (hpos : 0 < c.size) :
    c.In r'.slabs := by
  obtain ⟨N, Z, M, n, G, P, ha⟩ := h.above
  rw [ha.old] at hin
  rw [ha.slabs]
  exact ((hin.of_empty ha.empty hpos).grow n).append N

/-- A truncation keeps the chunks up to it. -/
theorem regionTruncate_chunk {used : Nat} (h : r.Inv) (heq : regionTruncate r used = some r')
    (hin : c.In r.slabs) (hpos : 0 < c.size) (hused : c.used ≤ used) : c.In r'.slabs := by
  obtain ⟨x, hguard, heq⟩ := Option.bind_eq_some_iff.1 heq
  have hle : used ≤ r.used := by
    by_contra hnot
    simp [guard, hnot] at hguard
  have hcut : r.used - used ≤ usedOf r.slabs := by
    rw [← h.used]
    exact Nat.sub_le _ _
  rcases truncateLoop_spec r.slabs (r.used - used) r hcut with
    ⟨hall, hloop⟩ | ⟨D, t, rest, hslabs, hD, hmore, hloop⟩
  · -- nothing is left, and the chunk has bytes
    obtain ⟨hcount, hle'⟩ := hin.used hpos
    have hsum := h.used
    omega
  · rw [hloop] at heq
    obtain ⟨y, -, heq⟩ := Option.bind_eq_some_iff.1 heq
    obtain rfl := Option.some.inj heq
    rw [hslabs] at hin
    refine hin.cut hpos ?_
    have hsum := h.used
    rw [hslabs, usedOf_append, usedOf_cons] at hsum
    rw [usedOf_cons, Rslab.trim]
    change c.used ≤ t.used - (r.used - used - usedOf D) + usedOf rest
    omega

/-- A call keeps the chunks that clients still have. -/
theorem RegionOp.kept_in (hg : rslabSizeof ≤ g.order0Size) (h : r.Inv) (hop : op.Allowed g r)
    (heq : op.exec g r = some r') {chunks : List RegionChunk} (hc : c ∈ op.kept chunks)
    (hin : c.In r.slabs) (hpos : 0 < c.size) : c.In r'.slabs := by
  have hself : r.After r := ⟨h, .refl r⟩
  cases op with
  | truncate used =>
      have hused : c.used ≤ used := of_decide_eq_true (List.mem_filter.1 hc).2
      exact regionTruncate_chunk h heq hin hpos hused
  | free => cases hc
  | write mem =>
      obtain rfl := Option.some.inj heq
      exact hin
  | _ => exact (RegionOp.exec_after hg h hself _ hop trivial heq).chunk hin hpos

theorem RegionOp.mem_of_kept {chunks : List RegionChunk} (hc : c ∈ op.kept chunks) :
    c ∈ chunks := by
  cases op with
  | truncate used => exact List.mem_of_mem_filter hc
  | free => cases hc
  | _ => exact hc

theorem RegionOp.execChunks_inv (hg : rslabSizeof ≤ g.order0Size) (h : s.Inv g)
    (hop : op.Allowed g s.region) (hfits : op.Fits) (heq : op.execChunks g s = some s') :
    s'.Inv g := by
  obtain ⟨r', hex, heq⟩ := Option.bind_eq_some_iff.1 heq
  obtain rfl := Option.some.inj heq
  have hreach : (regionMachine g).Reachable r' := .step op h.region hop hex
  have hi := regionMachine_inv hg h.region
  refine ⟨hreach, fun c hc => ?_⟩
  rcases List.mem_append.1 hc with hnew | hold
  · obtain ⟨⟨p, n⟩, hret, rfl⟩ := List.mem_map.1 hnew
    obtain ⟨hpos, hends⟩ :=
      RegionOp.returned_endsWith hg hi hop hfits hex (Option.mem_toList.1 hret)
    exact ⟨hpos, hends.chunk (regionMachine_inv hg hreach)⟩
  · obtain ⟨hpos, hin⟩ := h.chunks c (RegionOp.mem_of_kept hold)
    exact ⟨hpos, RegionOp.kept_in hg hi hop hex hold hin hpos⟩

theorem chunkMachine_inv (hg : rslabSizeof ≤ g.order0Size)
    (hs : ((chunkMachine g).restrict RegionOp.Fits).Reachable s) : s.Inv g := by
  refine Machine.Reachable.of_step _ (fun s hinit => ?_) (fun s op s' h hop heq => ?_) hs
  · obtain ⟨mem, rfl⟩ := hinit
    exact ⟨.init ⟨mem, rfl⟩, fun c hc => by cases hc⟩
  · exact RegionOp.execChunks_inv hg h hop.1 hop.2 heq

/-- The runs that follow a savepoint are runs of the region. -/
theorem chunksSince_region (hs : ((chunksSince g s₀).restrict RegionOp.Fits).Reachable s) :
    (sinceMachine g s₀.region).Reachable s.region := by
  refine Machine.Reachable.of_step _ (P := fun s => (sinceMachine g s₀.region).Reachable s.region)
    (fun s hinit => ?_) (fun s op s' h hop heq => ?_) hs
  · exact .init (congrArg ChunkState.region hinit)
  · obtain ⟨r', hex, heq⟩ := Option.bind_eq_some_iff.1 heq
    obtain rfl := Option.some.inj heq
    exact .step op h hop.1 hex

/-! ## Savepoints -/

/-- The region `r'` is that of the savepoint `s₀` again, with the chunks of the clients. -/
structure ChunkState.RolledBack (s₀ : ChunkState) (r' : Region) : Prop where
  region : s₀.region.RolledBack r'
  chunks : ∀ c ∈ s₀.chunks, (∃ t ∈ r'.slabs, t.data ≤ c.ptr ∧ c.ptr + c.size ≤ t.dataEnd) ∧
    read r'.mem c.ptr c.size = read s₀.region.mem c.ptr c.size

/-- **`region_truncate` rolls the region back to a savepoint**, with every chunk that the clients
had, whatever the calls made since; as long as what `region_aligned_alloc` reserves can be
represented together with a header. -/
theorem region_truncate_rolls_back (hg : rslabSizeof ≤ g.order0Size)
    (h₀ : ((chunkMachine g).restrict RegionOp.Fits).Reachable s₀)
    (hs : ((chunksSince g s₀).restrict RegionOp.Fits).Reachable s) :
    ∃ r', regionTruncate s.region (regionUsed s₀.region) = some r' ∧ s₀.RolledBack r' := by
  have hinv := chunkMachine_inv hg h₀
  obtain ⟨r', heq, hback⟩ := sinceMachine_rolledBack g hg _ _ hinv.region (chunksSince_region hs)
  refine ⟨r', heq, hback, fun c hc => ?_⟩
  obtain ⟨hpos, hin⟩ := hinv.chunks c hc
  obtain ⟨t, ht, hstart, hend⟩ := hin.slab
  refine ⟨⟨t, (hback.bytes t ht c.ptr hstart (by omega)).1, hstart, hend⟩, ?_⟩
  refine read_congr fun x h1 h2 => ?_
  exact (hback.bytes t ht x (by omega) (by omega)).2

/-- A client with a chunk of 100 bytes, and later one of 5000 bytes. -/
def oneRegionChunk : ChunkState where
  region := oneChunkRegion
  chunks := [⟨16440, 100, 100⟩]

def twoRegionChunks : ChunkState where
  region := twoChunkRegion
  chunks := [⟨32824, 5000, 5100⟩, ⟨16440, 100, 100⟩]

theorem region_truncate_rolls_back_two_chunks :
    ((chunkMachine fourPages).restrict RegionOp.Fits).Reachable oneRegionChunk ∧
      ((chunksSince fourPages oneRegionChunk).restrict RegionOp.Fits).Reachable twoRegionChunks ∧
      ∃ r', regionTruncate twoRegionChunks.region 100 = some r' ∧ oneRegionChunk.RolledBack r' := by
  have hone : ((chunkMachine fourPages).restrict RegionOp.Fits).Reachable oneRegionChunk := by
    refine .step (.alloc 100 (some 16384)) (.init ⟨fun _ => 0, rfl⟩) ⟨?_, trivial⟩ rfl
    exact .intro (by decide) (by decide) (by decide) (by simp [regionCreate])
  have htwo : ((chunksSince fourPages oneRegionChunk).restrict RegionOp.Fits).Reachable
      twoRegionChunks := by
    refine .step (.alloc 5000 (some 32768)) (.init rfl) ⟨⟨?_, trivial⟩, trivial⟩ rfl
    exact .intro (by decide) (by decide) (by decide) (by decide)
  exact ⟨hone, htwo, region_truncate_rolls_back (by decide) hone htwo⟩

/-- After a chunk of one byte: `region_aligned_alloc` of `SIZE_MAX` bytes reserves 6 bytes, 7 of
which are in front of the pointer. -/
def wrappedRegionChunk : ChunkState where
  region := { oneChunkRegion with slabs := [{ addr := 16384, size := 4096, used := 7 }], used := 7 }
  chunks := [⟨16448, 2 ^ 64 - 1, 7⟩, ⟨16440, 1, 1⟩]

/-- The chunk starts behind the bytes in use, at a byte of the next chunk. -/
theorem region_wrapped_chunk :
    (chunkMachine fourPages).Reachable wrappedRegionChunk ∧
      (¬ ∃ r', regionTruncate wrappedRegionChunk.region (regionUsed wrappedRegionChunk.region) =
        some r' ∧
        wrappedRegionChunk.RolledBack r') ∧
      ∃ r', regionAlloc fourPages wrappedRegionChunk.region 8 none = some (some 16447, r') := by
  have hone : (chunkMachine fourPages).Reachable
      { region := { oneChunkRegion with
        slabs := [{ addr := 16384, size := 4096, used := 1 }], used := 1 }
        chunks := [⟨16440, 1, 1⟩] } := by
    refine .step (.alloc 1 (some 16384)) (.init ⟨fun _ => 0, rfl⟩) ?_ rfl
    exact .intro (by decide) (by decide) (by decide) (by simp [regionCreate])
  refine ⟨.step (.alignedAlloc (2 ^ 64 - 1) 8 none) hone ?_ rfl, ?_, _, rfl⟩
  · intro addr haddr
    cases haddr
  · rintro ⟨r', heq, hback⟩
    obtain ⟨⟨t, ht, hstart, hend⟩, -⟩ :=
      hback.chunks ⟨16448, 2 ^ 64 - 1, 7⟩ (by simp [wrappedRegionChunk])
    have hslabs :
        (regionTruncate wrappedRegionChunk.region (regionUsed wrappedRegionChunk.region)).map
        Region.slabs = some wrappedRegionChunk.region.slabs := rfl
    rw [heq, Option.map_some, Option.some.injEq] at hslabs
    rw [hslabs] at ht
    obtain rfl := List.mem_singleton.1 ht
    exact absurd hend (by decide)

end SmallAllocators
