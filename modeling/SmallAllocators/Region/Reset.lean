/-
SmallAllocators.Region.Reset — the counters of a region, and what is left of
them after `region_reset`.

The counter of the region is the sum of the counters of its slabs, in every
run, whatever the sizes and whatever `slab_get` returns: the assertions keep
the counter of a slab within what the 32 bits of `rslab_unused` show of it.
`region_reset` empties the newest slab only. So the region is empty after
it exactly when the older slabs were.
-/
import SmallAllocators.Region.Runs

namespace SmallAllocators

/-! ## The machine -/

/-- The calls of `RegionOp`, and `region_reset`. -/
inductive ResetOp where
  | call (op : RegionOp)
  | reset

def ResetOp.exec (g : Geometry) (r : Region) : ResetOp → Option Region
  | .call op => op.exec g r
  | .reset => some (regionReset r)

/-- All runs that no assertion ends, whatever `slab_get` returns. -/
def resetMachine (g : Geometry) : Machine Region ResetOp where
  init := fun r => ∃ mem, r = regionCreate mem
  allowed := fun _ _ => True
  exec := ResetOp.exec g

/-! ## The counters -/

variable {g : Geometry} {r r' : Region} {size : Nat} {answer ptr : Option Nat}

/-- The counter of a slab is no more than the 32 bits of `rslab_unused` show of its data area. -/
structure Rslab.Counted (s : Rslab) : Prop where
  header : rslabSizeof ≤ s.size
  used : s.used ≤ (s.size - rslabSizeof) % 2 ^ 32

structure Region.Counted (r : Region) : Prop where
  slabs : ∀ s ∈ r.slabs, s.Counted
  used : r.used = usedOf r.slabs

theorem Rslab.Counted.unused_eq {s : Rslab} (h : s.Counted) :
    s.unused = (s.size - rslabSizeof) % 2 ^ 32 - s.used := by
  have hheader := h.header
  have hused := h.used
  have hle := Nat.mod_le (s.size - rslabSizeof) (2 ^ 32)
  have hsub : s.size + 2 * sizeMax - rslabSizeof - s.used =
      s.size - rslabSizeof - s.used + sizeMax + sizeMax := by
    omega
  have hdvd : 2 ^ 32 ∣ sizeMax := by decide
  rw [Rslab.unused, hsub, Nat.add_mod_right, Nat.add_mod_right, Nat.mod_mod_of_dvd _ hdvd]
  omega

/-- A chunk that the assertion lets through. -/
theorem Rslab.Counted.use {s : Rslab} (h : s.Counted) (hsize : size ≤ s.unused) :
    s.use size = { s with used := s.used + size } ∧ (s.use size).Counted := by
  have hused := h.used
  have hlt : (s.size - rslabSizeof) % 2 ^ 32 < 2 ^ 32 := Nat.mod_lt _ (by decide)
  rw [h.unused_eq] at hsize
  have heq : s.use size = { s with used := s.used + size } := by
    rw [Rslab.use, Nat.mod_eq_of_lt (by omega)]
  rw [heq]
  exact ⟨rfl, h.header, by dsimp only; omega⟩

theorem Rslab.Counted.lower {s : Rslab} (h : s.Counted) {used : Nat} (hused : used ≤ s.used) :
    Rslab.Counted { s with used := used } :=
  ⟨h.header, hused.trans h.used⟩

/-- The counters do not depend on the rest of the state. -/
theorem Region.Counted.of_eq (h : r.Counted) (hslabs : r'.slabs = r.slabs)
    (hused : r'.used = r.used) : r'.Counted :=
  ⟨by rw [hslabs]; exact h.slabs, by rw [hslabs, hused]; exact h.used⟩

/-- A region with a new slab, which is empty. -/
theorem Region.Counted.push (h : r.Counted) {addr n : Nat} (hn : rslabSizeof ≤ n)
    (hslabs : r'.slabs = { addr := addr, size := n, used := 0 } :: r.slabs)
    (hused : r'.used = r.used) :
    r'.Counted := by
  constructor
  · intro t ht
    rw [hslabs] at ht
    rcases List.mem_cons.1 ht with rfl | ht
    · exact ⟨hn, Nat.zero_le _⟩
    · exact h.slabs t ht
  · rw [hslabs, hused, usedOf_cons, Nat.zero_add]
    exact h.used

/-- The first slab has another counter, and so has the region. -/
theorem Region.Counted.setFirst (h : r.Counted) {s s' : Rslab} {slabs : List Rslab}
    (hslabs : r.slabs = s :: slabs) (hs' : s'.Counted) (hslabs' : r'.slabs = s' :: slabs)
    (hused : r'.used + s.used = r.used + s'.used) :
    r'.Counted := by
  constructor
  · intro t ht
    rw [hslabs'] at ht
    rcases List.mem_cons.1 ht with rfl | ht
    · exact hs'
    · exact h.slabs t (by rw [hslabs]; exact List.mem_cons_of_mem _ ht)
  · have hsum := h.used
    rw [hslabs, usedOf_cons] at hsum
    rw [hslabs', usedOf_cons]
    omega

/-! ## Each call keeps the counters -/

theorem regionFind_counted (hg : rslabSizeof ≤ g.order0Size) (h : r.Counted) (size : Nat)
    (answer : Option Nat) :
    (regionFind g r size answer).2.Counted := by
  have hslow : (regionReserveSlow g r size answer).2.Counted := by
    cases answer with
    | none => exact h
    | some addr =>
        rw [regionReserveSlow]
        exact h.push (rslabSizeof_le_newSize hg size) rfl rfl
  unfold regionFind
  split
  · exact hslow
  · split
    · exact h
    · exact hslow

theorem regionReserve_counted (hg : rslabSizeof ≤ g.order0Size) (h : r.Counted)
    (heq : regionReserve g r size answer = some (ptr, r')) : r'.Counted := by
  have hfind := regionFind_counted hg h size answer
  unfold regionReserve at heq
  obtain ⟨-, -, heq⟩ := Option.bind_eq_some_iff.1 heq
  split at heq
  · next region hnone =>
      rw [hnone] at hfind
      cases heq
      exact hfind
  · next p region hsome =>
      rw [hsome] at hfind
      cases heq
      exact hfind.of_eq rfl rfl

theorem Region.useFirst_counted (h : r.Counted) (heq : r.useFirst size = some r') : r'.Counted := by
  unfold Region.useFirst at heq
  split at heq
  · cases heq
  · next s slabs hslabs =>
      obtain ⟨hsize, hguard, heq⟩ := Option.bind_eq_some_iff.1 heq
      have hsize : size ≤ s.unused := by
        by_contra hnot
        simp [guard, hnot] at hguard
      obtain ⟨huse, hcounted⟩ := (h.slabs s (by simp [hslabs])).use hsize
      cases heq
      refine h.setFirst hslabs hcounted rfl ?_
      rw [huse]
      dsimp only
      omega

theorem regionAlloc_counted (hg : rslabSizeof ≤ g.order0Size) (h : r.Counted)
    (heq : regionAlloc g r size answer = some (ptr, r')) : r'.Counted := by
  unfold regionAlloc at heq
  obtain ⟨-, -, heq⟩ := Option.bind_eq_some_iff.1 heq
  obtain ⟨⟨p, r₁⟩, hreserve, heq⟩ := Option.bind_eq_some_iff.1 heq
  have h₁ := regionReserve_counted (r := { r with reserved := false }) hg (h.of_eq rfl rfl) hreserve
  cases p with
  | none =>
      cases heq
      exact h₁
  | some p =>
      obtain ⟨r₂, huse, heq⟩ := Option.bind_eq_some_iff.1 heq
      cases heq
      exact Region.useFirst_counted h₁ huse

theorem regionAlignedReserve_counted (hg : rslabSizeof ≤ g.order0Size) (h : r.Counted)
    {alignment : Nat} (heq : regionAlignedReserve g r size alignment answer = some (ptr, r')) :
    r'.Counted := by
  unfold regionAlignedReserve at heq
  obtain ⟨⟨p, r₁⟩, hreserve, heq⟩ := Option.bind_eq_some_iff.1 heq
  obtain ⟨q, -, heq⟩ := Option.bind_eq_some_iff.1 heq
  cases heq
  exact regionReserve_counted hg h hreserve

theorem regionAlignedAlloc_counted (hg : rslabSizeof ≤ g.order0Size) (h : r.Counted)
    {alignment : Nat} (heq : regionAlignedAlloc g r size alignment answer = some (ptr, r')) :
    r'.Counted := by
  unfold regionAlignedAlloc at heq
  obtain ⟨-, -, heq⟩ := Option.bind_eq_some_iff.1 heq
  obtain ⟨⟨p, r₁⟩, hreserve, heq⟩ := Option.bind_eq_some_iff.1 heq
  have h₁ := regionAlignedReserve_counted (r := { r with reserved := false }) hg
    (h.of_eq rfl rfl) hreserve
  cases p with
  | none =>
      cases heq
      exact h₁
  | some p =>
      obtain ⟨s, -, heq⟩ := Option.bind_eq_some_iff.1 heq
      obtain ⟨r₂, huse, heq⟩ := Option.bind_eq_some_iff.1 heq
      cases heq
      exact Region.useFirst_counted h₁ huse

theorem regionJoin_counted (hg : rslabSizeof ≤ g.order0Size) (h : r.Counted) {answer' : Option Nat}
    (heq : regionJoin g r size answer answer' = some (ptr, r')) : r'.Counted := by
  unfold regionJoin at heq
  obtain ⟨-, -, heq⟩ := Option.bind_eq_some_iff.1 heq
  obtain ⟨-, -, heq⟩ := Option.bind_eq_some_iff.1 heq
  obtain ⟨-, -, heq⟩ := Option.bind_eq_some_iff.1 heq
  obtain ⟨s, -, heq⟩ := Option.bind_eq_some_iff.1 heq
  split at heq
  · cases heq
    exact h
  · obtain ⟨⟨p, r₁⟩, hreserve, heq⟩ := Option.bind_eq_some_iff.1 heq
    have h₁ := regionReserve_counted hg h hreserve
    cases p with
    | none =>
        cases heq
        exact h₁
    | some p =>
        obtain ⟨mem, -, heq⟩ := Option.bind_eq_some_iff.1 heq
        obtain ⟨⟨q, r₂⟩, halloc, heq⟩ := Option.bind_eq_some_iff.1 heq
        cases heq
        exact regionAlloc_counted (r := { r₁ with mem := mem }) hg (h₁.of_eq rfl rfl) halloc

theorem regionTruncate_counted (h : r.Counted) {used : Nat}
    (heq : regionTruncate r used = some r') :
    r'.Counted := by
  unfold regionTruncate at heq
  obtain ⟨u, hguard, heq⟩ := Option.bind_eq_some_iff.1 heq
  have hle : r.used ≥ used := by
    by_contra hnot
    simp [guard, hnot] at hguard
  have hcut : r.used - used ≤ usedOf r.slabs := by
    rw [← h.used]
    exact Nat.sub_le _ _
  rcases truncateLoop_spec r.slabs (r.used - used) r hcut with ⟨hall, hloop⟩
    | ⟨D, s, rest, hslabs, hD, hmore, hloop⟩
  · rw [hloop] at heq
    cases heq
    refine ⟨by simp, ?_⟩
    have hsum := h.used
    dsimp only [usedOf_nil]
    omega
  · rw [hloop] at heq
    cases heq
    have hs := h.slabs s (by simp [hslabs])
    constructor
    · intro t ht
      rcases List.mem_cons.1 ht with rfl | ht
      · exact hs.lower (Nat.sub_le _ _)
      · exact h.slabs t (by simp [hslabs, ht])
    · have hsum := h.used
      rw [hslabs, usedOf_append, usedOf_cons] at hsum
      show used = s.used - _ + usedOf rest
      omega

theorem regionReset_counted (h : r.Counted) : (regionReset r).Counted := by
  unfold regionReset
  split
  · exact h.of_eq rfl rfl
  · next s slabs hslabs =>
      have hle : s.used ≤ r.used := by
        rw [h.used, hslabs, usedOf_cons]
        exact Nat.le_add_right _ _
      refine h.setFirst hslabs ((h.slabs s (by simp [hslabs])).lower (Nat.zero_le _)) rfl ?_
      dsimp only
      omega

/-- Every call that returns keeps the counters. -/
theorem ResetOp.exec_counted (hg : rslabSizeof ≤ g.order0Size) (h : r.Counted) (op : ResetOp)
    (heq : op.exec g r = some r') : r'.Counted := by
  cases op with
  | reset =>
      cases heq
      exact regionReset_counted h
  | call op =>
      cases op with
      | alloc size answer =>
          obtain ⟨⟨ptr, r₁⟩, hex, rfl⟩ := Option.map_eq_some_iff.1 heq
          exact regionAlloc_counted hg h hex
      | alignedAlloc size alignment answer =>
          obtain ⟨⟨ptr, r₁⟩, hex, rfl⟩ := Option.map_eq_some_iff.1 heq
          exact regionAlignedAlloc_counted hg h hex
      | reserve size answer =>
          obtain ⟨⟨ptr, r₁⟩, hex, rfl⟩ := Option.map_eq_some_iff.1 heq
          exact regionReserve_counted hg h hex
      | alignedReserve size alignment answer =>
          obtain ⟨⟨ptr, r₁⟩, hex, rfl⟩ := Option.map_eq_some_iff.1 heq
          exact regionAlignedReserve_counted hg h hex
      | join size answer answer' =>
          obtain ⟨⟨ptr, r₁⟩, hex, rfl⟩ := Option.map_eq_some_iff.1 heq
          exact regionJoin_counted hg h hex
      | truncate used => exact regionTruncate_counted h heq
      | free =>
          cases heq
          exact ⟨by simp [regionFree], rfl⟩
      | write mem =>
          cases heq
          exact h.of_eq rfl rfl

/-! ## `region_reset` -/

theorem resetMachine_counted (hg : rslabSizeof ≤ g.order0Size)
    (hr : (resetMachine g).Reachable r) : r.Counted := by
  apply Machine.Reachable.of_step (resetMachine g) _ _ hr
  · rintro _ ⟨mem, rfl⟩
    exact ⟨by simp [regionCreate], rfl⟩
  · intro r op r' h _ heq
    exact ResetOp.exec_counted hg h op heq

/-- **`region_reset` empties the region** exactly when all slabs but the newest are empty
already. -/
theorem regionReset_empties_iff (hg : rslabSizeof ≤ g.order0Size)
    (hr : (resetMachine g).Reachable r) :
    (regionUsed (regionReset r) = 0 ∧ regionTotal (regionReset r) = regionTotal r) ↔
      ∀ s ∈ r.slabs.tail, s.used = 0 := by
  have h := regionReset_counted (resetMachine_counted hg hr)
  have htotal : regionTotal (regionReset r) = regionTotal r := by
    unfold regionReset
    split <;> rfl
  have hslabs : usedOf (regionReset r).slabs = usedOf r.slabs.tail := by
    unfold regionReset
    split
    · next hnil => simp [hnil]
    · next hcons => simp [hcons]
  rw [regionUsed, h.used, hslabs]
  exact ⟨fun h => used_eq_zero_of_usedOf h.1, fun h => ⟨usedOf_eq_zero h, htotal⟩⟩

theorem oneChunkRegion_reset_reachable : (resetMachine fourPages).Reachable oneChunkRegion :=
  .step (.call (.alloc 100 (some 16384))) (.init ⟨fun _ => 0, rfl⟩) trivial rfl

theorem regionReset_empties_one_chunk : regionUsed (regionReset oneChunkRegion) = 0 :=
  ((regionReset_empties_iff (by decide) oneChunkRegion_reset_reachable).2 (by decide)).1

/-- With a chunk in each of two slabs, the older chunk stays. -/
theorem regionReset_keeps_old_chunk :
    (resetMachine fourPages).Reachable twoChunkRegion ∧
      regionUsed (regionReset twoChunkRegion) = 100 :=
  ⟨.step (.call (.alloc 5000 (some 32768))) oneChunkRegion_reset_reachable trivial rfl, rfl⟩

end SmallAllocators
