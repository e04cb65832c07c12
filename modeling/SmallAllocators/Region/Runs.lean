/-
SmallAllocators.Region.Runs — runs of the region allocator and savepoints.

A run of `regionMachine` makes any calls but `region_reset`, with any sizes;
it ends when an assertion fails. A savepoint is a state `r0` of such a run,
and `sinceMachine` has the runs that continue from it: they truncate the
region to `region_used` of the savepoint or more only, and the clients do
not write to the bytes that were allocated before it.

`sinceMachine_rolledBack` says that truncating the region to the savepoint
works after each such run. `region_calls_return` says when the assertions
hold, so that runs do not end before that.
-/
import SmallAllocators.SlabCache.Runs
import SmallAllocators.Region.Invariant

namespace SmallAllocators

open Memory

/-! ## The machine -/

inductive RegionOp where
  | alloc (size : Nat) (answer : Option Nat)
  | alignedAlloc (size alignment : Nat) (answer : Option Nat)
  | reserve (size : Nat) (answer : Option Nat)
  | alignedReserve (size alignment : Nat) (answer : Option Nat)
  | join (size : Nat) (answer answer' : Option Nat)
  | truncate (used : Nat)
  | free
  /-- The memory changes: clients fill what they allocated or reserved, and other users of the
  memory write to theirs. -/
  | write (mem : Nat → UInt8)

/-- What `slab_get` may answer. -/
def RegionOp.Allowed (g : Geometry) (r : Region) : RegionOp → Prop
  | .alloc size answer => r.Answer g size answer
  | .alignedAlloc size alignment answer =>
      r.Answer g ((size + alignment + (sizeMax - 1)) % sizeMax) answer
  | .reserve size answer => r.Answer g size answer
  | .alignedReserve size alignment answer =>
      r.Answer g ((size + alignment + (sizeMax - 1)) % sizeMax) answer
  | .join size answer _ => r.Answer g size answer
  | .truncate _ => True
  | .free => True
  | .write _ => True

def RegionOp.exec (g : Geometry) (r : Region) : RegionOp → Option Region
  | .alloc size answer => Prod.snd <$> regionAlloc g r size answer
  | .alignedAlloc size alignment answer => Prod.snd <$> regionAlignedAlloc g r size alignment answer
  | .reserve size answer => Prod.snd <$> regionReserve g r size answer
  | .alignedReserve size alignment answer =>
      Prod.snd <$> regionAlignedReserve g r size alignment answer
  | .join size answer answer' => Prod.snd <$> regionJoin g r size answer answer'
  | .truncate used => regionTruncate r used
  | .free => some (regionFree r)
  | .write mem => some { r with mem := mem }

/-- The runs of a region, on a slab cache with the constants `g`. -/
def regionMachine (g : Geometry) : Machine Region RegionOp where
  init := fun r => ∃ mem, r = regionCreate mem
  allowed := RegionOp.Allowed g
  exec := RegionOp.exec g

/-- What a run keeps of the savepoint `r0`: it does not free the region, truncates it only to
savepoints that are taken later, and does not write to the bytes of `r0`. -/
def RegionOp.Since (r0 r : Region) : RegionOp → Prop
  | .truncate used => regionUsed r0 ≤ used
  | .free => False
  | .write mem => SameBytes r0.slabs r.mem mem
  | _ => True

/-- The runs that follow the savepoint `r0`. -/
def sinceMachine (g : Geometry) (r0 : Region) : Machine Region RegionOp where
  init := fun r => r = r0
  allowed := fun r op => op.Allowed g r ∧ op.Since r0 r
  exec := RegionOp.exec g

/-! ## The invariant over runs -/

variable {g : Geometry} {r0 r r' : Region}

/-- A call that returns keeps the relation to the savepoint. -/
theorem RegionOp.exec_after (hg : rslabSizeof ≤ g.order0Size) (h0 : r0.Inv) (h : r0.After r)
    (op : RegionOp) (hop : op.Allowed g r) (hsince : op.Since r0 r)
    (heq : op.exec g r = some r') : r0.After r' := by
  cases op with
  | alloc size answer =>
      obtain ⟨⟨ptr, r1⟩, hex, rfl⟩ := Option.map_eq_some_iff.mp heq
      exact regionAlloc_spec hg h hop hex
  | alignedAlloc size alignment answer =>
      obtain ⟨⟨ptr, r1⟩, hex, rfl⟩ := Option.map_eq_some_iff.mp heq
      exact regionAlignedAlloc_spec hg h hop hex
  | reserve size answer =>
      obtain ⟨⟨ptr, r1⟩, hex, rfl⟩ := Option.map_eq_some_iff.mp heq
      cases hres : r.reserved with
      | true => simp [regionReserve, hres, guard] at hex
      | false =>
          rcases regionReserve_spec hg h hop hres with ⟨-, hnone⟩ | ⟨p, r2, hsome, hafter, -⟩
          · rw [hnone, Option.some.injEq, Prod.mk.injEq] at hex
            exact hex.2 ▸ h
          · rw [hsome, Option.some.injEq, Prod.mk.injEq] at hex
            exact hex.2 ▸ hafter.setReserved true
  | alignedReserve size alignment answer =>
      obtain ⟨⟨ptr, r1⟩, hex, rfl⟩ := Option.map_eq_some_iff.mp heq
      exact regionAlignedReserve_spec hg h hop hex
  | join size answer answer' =>
      obtain ⟨⟨ptr, r1⟩, hex, rfl⟩ := Option.map_eq_some_iff.mp heq
      exact regionJoin_spec hg h hop hex
  | truncate used =>
      have hle : used ≤ r.used := by
        by_contra hnot
        simp [RegionOp.exec, regionTruncate, guard, hnot] at heq
      obtain ⟨r1, N, Z, M, n, G, P, hex, hinv, -, habove, -⟩ := regionTruncate_spec h0 h hsince hle
      rw [RegionOp.exec, hex, Option.some.injEq] at heq
      exact heq ▸ ⟨hinv, N, Z, M, n, G, P, habove⟩
  | free => exact absurd hsince id
  | write mem =>
      rw [RegionOp.exec, Option.some.injEq] at heq
      exact heq ▸ h.setMem mem hsince

theorem regionCreate_inv (mem : Nat → UInt8) : (regionCreate mem).Inv := by
  constructor
  case bounds => simp [regionCreate]
  all_goals simp [regionCreate]

/-- Every region is above the empty one it started as. -/
theorem Region.Inv.after_create (h : r.Inv) : (regionCreate r.mem).After r := by
  refine ⟨h, r.slabs, [], [], 0, r.gets, r.puts, ?_⟩
  constructor
  case balance => simpa using h.balance.symm
  case bytes => exact fun _ _ _ _ _ => rfl
  all_goals simp [regionCreate, grow]

theorem regionFree_inv (h : r.Inv) : (regionFree r).Inv := by
  constructor
  case bounds => simp [regionFree]
  case apart => simp [regionFree]
  case used => rfl
  case total => rfl
  case balance =>
    refine h.balance.trans ?_
    simp only [regionFree, List.map_nil, List.append_nil]
    exact List.perm_append_comm.trans (List.Perm.append_right _ (List.reverse_perm _).symm)

/-- The invariant holds in every run. -/
theorem regionMachine_inv (hg : rslabSizeof ≤ g.order0Size) (hr : (regionMachine g).Reachable r) :
    r.Inv := by
  refine Machine.Reachable.of_step _ ?_ ?_ hr
  · rintro _ ⟨mem, rfl⟩
    exact regionCreate_inv mem
  · intro r op r' h hop heq
    have hafter := h.after_create
    have h0 := regionCreate_inv r.mem
    have hsince : op ≠ .free → op.Since (regionCreate r.mem) r := by
      cases op <;> simp [RegionOp.Since, SameBytes, regionCreate, regionUsed]
    by_cases hfree : op = .free
    · subst hfree
      exact Option.some.inj heq ▸ regionFree_inv h
    · exact (RegionOp.exec_after hg h0 hafter op hop (hsince hfree) heq).inv

/-- The relation to the savepoint holds in every run that follows it. -/
theorem sinceMachine_after (hg : rslabSizeof ≤ g.order0Size) (h0 : (regionMachine g).Reachable r0)
    (hr : (sinceMachine g r0).Reachable r) : r0.After r := by
  have hinv := regionMachine_inv hg h0
  refine Machine.Reachable.of_step _ ?_ ?_ hr
  · rintro _ rfl
    exact ⟨hinv, Region.Above.refl _⟩
  · intro r op r' h hop heq
    exact RegionOp.exec_after hg hinv h op hop.1 hop.2 heq

/-! ## Savepoints -/

/-- The region `r'` is the savepoint `r0` again. -/
structure Region.RolledBack (r0 r' : Region) : Prop where
  used : regionUsed r' = regionUsed r0
  /-- The slabs are those of the savepoint, with their counters, less a leading run of empty ones;
  the slabs obtained since were put back once. -/
  slabs : ∃ Z gets puts, r0.slabs = Z ++ r'.slabs ∧ (∀ s ∈ Z, s.used = 0) ∧
    r'.gets = gets ++ r0.gets ∧ r'.puts = puts ++ r0.puts ∧ puts.Perm (gets ++ Z.map Rslab.addr)
  /-- Every byte of the savepoint is in the same slab, with the same value. -/
  bytes : ∀ s ∈ r0.slabs, ∀ x, s.data ≤ x → x < s.dataEnd → s ∈ r'.slabs ∧ r'.mem x = r0.mem x

/-- Truncating rolls the slabs of the region back to a savepoint, whatever the calls made since. -/
theorem sinceMachine_rolledBack (g : Geometry) (hg : rslabSizeof ≤ g.order0Size) (r0 r : Region)
    (h0 : (regionMachine g).Reachable r0) (hr : (sinceMachine g r0).Reachable r) :
    ∃ r', regionTruncate r (regionUsed r0) = some r' ∧ r0.RolledBack r' := by
  have hinv := regionMachine_inv hg h0
  have hafter := sinceMachine_after hg h0 hr
  obtain ⟨N0, Z0, M0, n0, G0, P0, ha0⟩ := hafter.above
  have hle : r0.used ≤ r.used := by
    rw [ha0.used_eq hinv hafter.inv]
    exact Nat.le_add_right _ _
  obtain ⟨r', N, Z, M, n, G, P, heq, hinv', hused, ha, hN⟩ :=
    regionTruncate_spec hinv hafter (Nat.le_refl _) hle
  -- nothing newer than the savepoint is left
  have hzero : usedOf N + n = 0 := by
    have := ha.used_eq hinv hinv'
    omega
  have hslabs : r'.slabs = M := by
    rw [ha.slabs, hN (by omega), show n = 0 by omega, grow_zero, List.nil_append]
  refine ⟨r', heq, hused, ⟨Z, G, P, ?_, ha.empty, ha.gets, ha.puts, ?_⟩, fun s hs x h1 h2 =>
    ⟨?_, ?_⟩⟩
  · rw [hslabs]
    exact ha.old
  · simpa [hN (by omega)] using ha.balance
  · rw [ha.old, List.mem_append] at hs
    rcases hs with hs | hs
    · have := ha.empty s hs
      simp only [Rslab.dataEnd, this] at h2
      omega
    · rw [hslabs]
      exact hs
  · exact ha.bytes s hs x h1 h2

/-! ## The assertions -/

/-- What the clients must promise: no reservation while one is open, savepoints that are not above
`region_used`, powers of two, and sizes that do not wrap around with the headers and the padding. -/
def RegionOp.Pre (r : Region) : RegionOp → Prop
  | .alloc size _ => 0 < size ∧ rslabSizeof + size < sizeMax
  | .alignedAlloc size alignment _ =>
      0 < size ∧ (∃ k, alignment = 2 ^ k) ∧ rslabSizeof + (size + alignment) < sizeMax
  | .reserve _ _ => r.reserved = false
  | .alignedReserve size alignment _ =>
      0 < size ∧ r.reserved = false ∧ (∃ k, alignment = 2 ^ k) ∧
        rslabSizeof + (size + alignment) < sizeMax
  | .join size _ _ => 0 < size ∧ size ≤ r.used ∧ r.reserved = false
  | .truncate used => used ≤ r.used
  | .free => True
  | .write _ => True

theorem Region.useFirst_returns {s : Rslab} {n : Nat} (hs : r.slabs.head? = some s)
    (hn : n ≤ s.unused) :
    ∃ r', r.useFirst n = some r' := by
  unfold Region.useFirst
  cases hslabs : r.slabs with
  | nil => simp [hslabs] at hs
  | cons s' slabs =>
      rw [hslabs, List.head?_cons, Option.some.injEq] at hs
      subst hs
      simp only [guard, if_pos hn]
      exact ⟨_, rfl⟩

theorem regionAlloc_returns (hg : rslabSizeof ≤ g.order0Size) (h : r.Inv) {size : Nat}
    {answer : Option Nat} (hans : r.Answer g size answer) (hpos : 0 < size)
    (hsize : rslabSizeof + size < sizeMax) :
    ∃ r', RegionOp.exec g r (.alloc size answer) = some r' := by
  have hafter := h.after_create.setReserved false
  unfold RegionOp.exec regionAlloc
  rcases regionReserve_spec hg hafter hans rfl with ⟨-, hnone⟩ | ⟨p, r1, hsome, -, hfound⟩
  · exact ⟨_, by simp [guard, hpos, hnone]; rfl⟩
  · obtain ⟨s, hs, -, hroom⟩ := hfound.first
    obtain ⟨r2, huse⟩ :=
      Region.useFirst_returns (r := { r1 with reserved := true }) hs (hroom hsize)
    exact ⟨r2, by simp [guard, hpos, hsome, huse]⟩

theorem regionAlignedReserve_returns (hg : rslabSizeof ≤ g.order0Size) (h : r.Inv) {size k : Nat}
    {answer : Option Nat} (hans : r.Answer g ((size + 2 ^ k + (sizeMax - 1)) % sizeMax) answer)
    (hres : r.reserved = false) (hpos : 0 < size)
    (hsize : rslabSizeof + (size + 2 ^ k - 1) < sizeMax) :
    regionAlignedReserve g r size (2 ^ k) answer = some (none, r) ∨
    ∃ (p : Nat) (r1 : Region) (s : Rslab),
      regionAlignedReserve g r size (2 ^ k) answer = some (some p, { r1 with reserved := true }) ∧
      r1.slabs.head? = some s ∧ s.InBounds ∧ s.dataEnd ≤ p ∧ p - s.dataEnd + size ≤ s.unused := by
  have hk := Nat.two_pow_pos k
  have hmod : (size + 2 ^ k + (sizeMax - 1)) % sizeMax = size + 2 ^ k - 1 := by
    rw [show size + 2 ^ k + (sizeMax - 1) = size + 2 ^ k - 1 + sizeMax by
      simp only [sizeMax] at *; omega, Nat.add_mod_right, Nat.mod_eq_of_lt (by omega)]
  unfold regionAlignedReserve
  rw [hmod] at hans ⊢
  rcases regionReserve_spec hg h.after_create hans hres with ⟨-, hnone⟩
    | ⟨p, r1, hsome, hafter, hfound⟩
  · left
    have halign : smallAlign 0 (2 ^ k) = some 0 := by
      rw [smallAlign_eq (by omega)]
      simp only [alignUp, Nat.zero_add]
      rw [Nat.div_eq_of_lt (by omega), Nat.zero_mul]
    simp [hnone, halign, ofPtr]
  · right
    obtain ⟨s, hs, hp, hroom⟩ := hfound.first
    have hsb := hafter.inv.bounds s (List.mem_of_mem_head? hs)
    have hroom := hroom (by omega)
    rw [Rslab.unused_eq hsb] at hroom
    have hlast := hsb.last
    have hdata : s.dataEnd + 2 ^ k < sizeMax := by
      have := hsb.used
      simp only [Rslab.dataEnd, Rslab.data]
      omega
    have hle := le_alignUp k s.dataEnd
    have hup := alignUp_le k s.dataEnd
    refine ⟨alignUp k s.dataEnd, r1, s, ?_, hs, hsb, hle, ?_⟩
    · have hne : alignUp k s.dataEnd ≠ 0 := by
        have := hsb.pos
        simp only [Rslab.dataEnd, Rslab.data] at hle ⊢
        omega
      simp [hsome, hp, smallAlign_eq hdata, ofPtr, hne]
    · rw [Rslab.unused_eq hsb]
      omega

/-- The chunk and its padding are counted as they are. -/
theorem effectiveSize_of_room {s : Rslab} {p size : Nat} (hs : s.InBounds) (hle : s.dataEnd ≤ p)
    (hroom : p - s.dataEnd + size ≤ s.unused) : effectiveSize s p size = p - s.dataEnd + size := by
  have h1 := hs.last
  have h2 := hs.data
  rw [Rslab.unused_eq hs] at hroom
  unfold effectiveSize
  rw [show p + sizeMax - s.dataEnd + size = p - s.dataEnd + size + sizeMax by omega,
    Nat.add_mod_right,
    Nat.mod_eq_of_lt (show p - s.dataEnd + size < sizeMax by omega), Nat.mod_eq_of_lt (by omega)]

theorem regionAlignedAlloc_returns (hg : rslabSizeof ≤ g.order0Size) (h : r.Inv) {size k : Nat}
    {answer : Option Nat} (hans : r.Answer g ((size + 2 ^ k + (sizeMax - 1)) % sizeMax) answer)
    (hpos : 0 < size) (hsize : rslabSizeof + (size + 2 ^ k) < sizeMax) :
    ∃ r', RegionOp.exec g r (.alignedAlloc size (2 ^ k) answer) = some r' := by
  unfold RegionOp.exec regionAlignedAlloc
  rcases regionAlignedReserve_returns (r := { r with reserved := false }) hg
    (h.after_create.setReserved false).inv hans rfl
    hpos (Nat.lt_of_le_of_lt (Nat.add_le_add_left (Nat.sub_le _ 1) _) hsize) with
    hnone | ⟨p, r1, s, hsome, hs, hsb, hle, hroom⟩
  · simp only [guard, hpos, hnone]
    exact ⟨_, rfl⟩
  · have heff := effectiveSize_of_room hsb hle hroom
    obtain ⟨r2, huse⟩ := Region.useFirst_returns (r := { r1 with reserved := true }) hs
      (show effectiveSize s p size ≤ s.unused by omega)
    exact ⟨r2, by simp [guard, hpos, hsome, hs, huse]⟩

/-- `region_join` copies from slabs that are there, to room that it reserved. -/
theorem regionJoin_returns (hg : rslabSizeof ≤ g.order0Size) (h : r.Inv) {size : Nat}
    {answer : Option Nat} (hans : r.Answer g size answer) (hpos : 0 < size) (hle : size ≤ r.used)
    (hres : r.reserved = false) (answer' : Option Nat) :
    ∃ r', RegionOp.exec g r (.join size answer answer') = some r' := by
  have hne : r.slabs ≠ [] := by
    intro hnil
    have := h.used
    rw [hnil, usedOf_nil] at this
    omega
  obtain ⟨s, slabs, hslabs⟩ := List.exists_cons_of_ne_nil hne
  unfold RegionOp.exec regionJoin
  simp only [guard, Option.bind_eq_bind, hle, hres, hpos, if_true, Bool.false_eq_true,
    not_false_eq_true, pure, Option.bind_some, hslabs, List.head?_cons]
  by_cases hone : s.used ≥ size
  · simp only [if_pos hone]
    exact ⟨_, rfl⟩
  · simp only [if_neg hone]
    rcases regionReserve_spec hg h.after_create hans hres with ⟨-, hnone⟩
      | ⟨p, r1, hsome, hafter, hfound⟩
    · simp only [hnone]
      exact ⟨_, rfl⟩
    · obtain ⟨s1, hs1, -, hroom⟩ := hfound.first
      have hroom := hroom (by have := h.used_add_lt hne; omega)
      obtain ⟨mem, hloop, -⟩ := joinLoop_spec p r.slabs size r1.mem (by rw [← h.used]; exact hle)
      set r2 : Region := { r1 with reserved := true, mem := mem } with hr2
      have hnull : r2.Answer g size none := fun _ haddr => by simp at haddr
      have hinv2 := (hafter.setReserved true).setMem mem (by simp [SameBytes, regionCreate])
      obtain ⟨r3, hr3⟩ := regionAlloc_returns hg hinv2.inv hnull hpos
        (by have := h.used_add_lt hne; omega)
      obtain ⟨⟨q, r4⟩, halloc, rfl⟩ := Option.map_eq_some_iff.mp hr3
      rw [← regionAlloc_of_room answer' (r := r2) hs1 hroom] at halloc
      simp only [hsome, Option.bind_some, ← hslabs, hloop, ← hr2, halloc]
      exact ⟨_, rfl⟩

/-- Every call that meets its precondition returns: no assertion of the source fails. -/
theorem region_calls_return (hg : rslabSizeof ≤ g.order0Size) (hr : (regionMachine g).Reachable r)
    (op : RegionOp) (hop : op.Allowed g r) (hpre : op.Pre r) : ∃ r', op.exec g r = some r' := by
  have h := regionMachine_inv hg hr
  cases op with
  | alloc size answer => exact regionAlloc_returns hg h hop hpre.1 hpre.2
  | alignedAlloc size alignment answer =>
      obtain ⟨hpos, ⟨k, rfl⟩, hsize⟩ := hpre
      exact regionAlignedAlloc_returns hg h hop hpos hsize
  | reserve size answer =>
      rcases regionReserve_spec hg h.after_create hop hpre with ⟨-, hnone⟩ | ⟨p, r1, hsome, -, -⟩
      · exact ⟨_, by rw [RegionOp.exec, hnone]; rfl⟩
      · exact ⟨_, by rw [RegionOp.exec, hsome]; rfl⟩
  | alignedReserve size alignment answer =>
      obtain ⟨hpos, hres, ⟨k, rfl⟩, hsize⟩ := hpre
      rcases regionAlignedReserve_returns hg h hop hres hpos
        (Nat.lt_of_le_of_lt (Nat.add_le_add_left (Nat.sub_le _ 1) _) hsize) with
        hnone | ⟨p, r1, s, hsome, -⟩
      · exact ⟨_, by rw [RegionOp.exec, hnone]; rfl⟩
      · exact ⟨_, by rw [RegionOp.exec, hsome]; rfl⟩
  | join size answer answer' => exact regionJoin_returns hg h hop hpre.1 hpre.2.1 hpre.2.2 answer'
  | truncate used =>
      obtain ⟨r1, -, -, -, -, -, -, heq, -⟩ :=
        regionTruncate_spec (regionCreate_inv r.mem) h.after_create (Nat.zero_le used) hpre
      exact ⟨r1, heq⟩
  | free => exact ⟨_, rfl⟩
  | write mem => exact ⟨_, rfl⟩

/-- A region with one slab and a chunk of 100 bytes. -/
def oneChunkRegion : Region where
  slabs := [{ addr := 16384, size := 4096, used := 100 }]
  used := 100
  total := 4096
  reserved := false
  mem := fun _ => 0
  gets := [16384]
  puts := []

/-- The same region with a chunk of 5000 bytes more, in a new slab. -/
def twoChunkRegion : Region :=
  { oneChunkRegion with
    slabs := { addr := 32768, size := 8192, used := 5000 } :: oneChunkRegion.slabs
    used := 5100
    total := 12288
    gets := [32768, 16384] }

/-- An answer of `slab_get`. -/
theorem Region.Answer.intro {size addr : Nat} (hpos : 0 < addr)
    (hlast : addr + rslabNewSize g size < sizeMax)
    (hdata : rslabNewSize g size < rslabSizeof + 2 ^ 32)
    (hout : ∀ s ∈ r.slabs, addr + rslabNewSize g size ≤ s.addr ∨ s.addr + s.size ≤ addr) :
    r.Answer g size (some addr) := by
  intro a ha
  rw [Option.some.injEq] at ha
  exact ha ▸ ⟨hpos, hlast, hdata, hout⟩

end SmallAllocators
