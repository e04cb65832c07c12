/-
SmallAllocators.Region.Invariant — the invariant of the region allocator
relative to a savepoint.

`Region.Inv` says what holds of a region at any time: the slabs are apart,
their counters are in bounds, and `region_used` is the sum of the counters.
`Region.Above` compares a region with its state `r0` at a savepoint. Of the
slabs of `r0` a leading run `Z` of empty ones may be gone; the first of the
others may have grown by `n` bytes, and new slabs `N` stand in front of
them. All bytes of `r0` are as they were.

Each operation has one theorem here, which says that it keeps both.
-/
import SmallAllocators.SlabCache.Get
import SmallAllocators.Region.Model

namespace SmallAllocators

open Memory

variable {g : Geometry}

/-! ## The invariant -/

/-- Two slabs occupy different memory. -/
def Rslab.Apart (s t : Rslab) : Prop := s.addr + s.size ≤ t.addr ∨ t.addr + t.size ≤ s.addr

instance : Std.Symm Rslab.Apart := ⟨fun _ _ h => Or.symm h⟩

/-- The slab is in memory, holds the bytes it counts, and its data area is below 4 GB. -/
structure Rslab.InBounds (s : Rslab) : Prop where
  pos : 0 < s.addr
  last : s.addr + s.size < sizeMax
  used : rslabSizeof + s.used ≤ s.size
  data : s.size < rslabSizeof + 2 ^ 32

theorem Rslab.Apart.addr_ne {s t : Rslab} (h : s.Apart t) (hs : s.InBounds) (ht : t.InBounds) :
    t.addr ≠ s.addr := by
  have h1 := hs.used
  have h2 := ht.used
  simp only [rslabSizeof] at h1 h2
  rcases h with h | h <;> omega

/-- The bytes in use of a list of slabs. -/
def usedOf (slabs : List Rslab) : Nat := (slabs.map Rslab.used).sum

@[simp] theorem usedOf_nil : usedOf [] = 0 := rfl

@[simp] theorem usedOf_cons (s : Rslab) (slabs : List Rslab) :
    usedOf (s :: slabs) = s.used + usedOf slabs := rfl

@[simp] theorem usedOf_append (slabs slabs' : List Rslab) :
    usedOf (slabs ++ slabs') = usedOf slabs + usedOf slabs' := by
  simp [usedOf]

structure Region.Inv (r : Region) : Prop where
  bounds : ∀ s ∈ r.slabs, s.InBounds
  apart : r.slabs.Pairwise Rslab.Apart
  used : r.used = usedOf r.slabs
  total : r.total = (r.slabs.map Rslab.size).sum
  balance : r.gets.Perm (r.puts ++ r.slabs.map Rslab.addr)

/-- The first slab has `n` more bytes in use. -/
def grow (n : Nat) : List Rslab → List Rslab
  | [] => []
  | s :: slabs => { s with used := s.used + n } :: slabs

theorem grow_zero (slabs : List Rslab) : grow 0 slabs = slabs := by
  cases slabs <;> rfl

theorem map_addr_grow (n : Nat) (slabs : List Rslab) :
    (grow n slabs).map Rslab.addr = slabs.map Rslab.addr := by
  cases slabs <;> rfl

/-- The two memories agree on the bytes in use of the slabs. -/
def SameBytes (slabs : List Rslab) (mem mem' : Nat → UInt8) : Prop :=
  ∀ s ∈ slabs, ∀ x, s.data ≤ x → x < s.dataEnd → mem' x = mem x

theorem SameBytes.trans {slabs : List Rslab} {m m' m'' : Nat → UInt8} (h : SameBytes slabs m m')
    (h' : SameBytes slabs m' m'') : SameBytes slabs m m'' :=
  fun s hs x h1 h2 => (h' s hs x h1 h2).trans (h s hs x h1 h2)

/-- How the region `r` is related to its state `r0` at a savepoint. -/
structure Region.AboveBy (r0 r : Region) (N Z M : List Rslab) (n : Nat) (G P : List Nat) :
    Prop where
  old : r0.slabs = Z ++ M
  empty : ∀ s ∈ Z, s.used = 0
  slabs : r.slabs = N ++ grow n M
  grown : M = [] → n = 0
  gets : r.gets = G ++ r0.gets
  puts : r.puts = P ++ r0.puts
  balance : (P ++ N.map Rslab.addr).Perm (G ++ Z.map Rslab.addr)
  bytes : SameBytes r0.slabs r0.mem r.mem

def Region.Above (r0 r : Region) : Prop := ∃ N Z M n G P, r0.AboveBy r N Z M n G P

theorem Region.Above.refl (r : Region) : r.Above r :=
  ⟨[], [], r.slabs, 0, [], [], by simp, by simp, by simp [grow_zero], by simp, by simp, by
    simp, by simp, fun _ _ _ _ _ => rfl⟩

/-! ## The slabs in the address space -/

/-- Slabs that are apart fit in the address space together. -/
theorem sum_size_lt {slabs : List Rslab} (hb : ∀ s ∈ slabs, s.InBounds)
    (ha : slabs.Pairwise Rslab.Apart) : (slabs.map Rslab.size).sum < sizeMax := by
  set cells := slabs.flatMap fun s => List.range' s.addr s.size with hcells
  have hlen : cells.length = (slabs.map Rslab.size).sum := by
    simp [hcells, List.length_flatMap]
  have hnodup : cells.Nodup := by
    refine List.nodup_flatMap.mpr ⟨fun s _ => List.nodup_range', ?_⟩
    refine ha.imp fun {s t} hst => ?_
    rw [Function.onFun, List.disjoint_left]
    intro x hx hx'
    rw [List.mem_range'_1] at hx hx'
    rcases hst with h | h <;> omega
  have hsub : cells ⊆ List.range' 1 (sizeMax - 1) := by
    intro x hx
    obtain ⟨s, hs, hx⟩ := List.mem_flatMap.mp hx
    have h1 := (hb s hs).pos
    have h2 := (hb s hs).last
    rw [List.mem_range'_1] at hx ⊢
    omega
  have hle := (hnodup.subperm hsub).length_le
  rw [List.length_range', hlen] at hle
  have : 0 < sizeMax := by decide
  omega

theorem usedOf_add_le {slabs : List Rslab} (hb : ∀ s ∈ slabs, s.InBounds) :
    usedOf slabs + slabs.length * rslabSizeof ≤ (slabs.map Rslab.size).sum := by
  induction slabs with
  | nil => simp
  | cons s slabs ih =>
      have h1 := (hb s (by simp)).used
      have h2 := ih fun t ht => hb t (List.mem_cons_of_mem _ ht)
      simp only [usedOf_cons, List.length_cons, List.map_cons, List.sum_cons, Nat.succ_mul]
      omega

/-- The bytes in use leave room for a header in the address space. -/
theorem Region.Inv.used_add_lt {r : Region} (h : r.Inv) (hne : r.slabs ≠ []) :
    rslabSizeof + r.used < sizeMax := by
  have h1 := sum_size_lt h.bounds h.apart
  have h2 := usedOf_add_le h.bounds
  have h3 := h.used
  have h4 : rslabSizeof ≤ r.slabs.length * rslabSizeof :=
    Nat.le_mul_of_pos_left _ (List.length_pos_of_ne_nil hne)
  omega

theorem Rslab.unused_eq {s : Rslab} (h : s.InBounds) :
    s.unused = s.size - rslabSizeof - s.used := by
  have h1 := h.used
  have h2 := h.data
  have h3 := h.last
  unfold Rslab.unused
  rw [show s.size + 2 * sizeMax - rslabSizeof - s.used =
      s.size - rslabSizeof - s.used + sizeMax + sizeMax by
    simp only [sizeMax] at *; omega, Nat.add_mod_right, Nat.add_mod_right,
    Nat.mod_eq_of_lt (show s.size - rslabSizeof - s.used < sizeMax by omega),
    Nat.mod_eq_of_lt (by omega)]

/-- A slab with more bytes in use. -/
theorem Rslab.InBounds.grow {s : Rslab} {n : Nat} (h : s.InBounds)
    (hn : n ≤ s.size - rslabSizeof - s.used) :
    s.use n = { s with used := s.used + n } ∧ ({ s with used := s.used + n } : Rslab).InBounds := by
  have h1 := h.used
  have h2 := h.data
  refine ⟨?_, h.pos, h.last, by show rslabSizeof + (s.used + n) ≤ s.size; omega, h2⟩
  unfold Rslab.use
  rw [Nat.mod_eq_of_lt (by omega)]

/-! ## Reserving -/

/-- What `slab_get` may return for `region_reserve_slow`: memory that the region does not have
already, with a data area below 4 GB. -/
def Region.Answer (g : Geometry) (r : Region) (size : Nat) (answer : Option Nat) : Prop :=
  ∀ addr, answer = some addr →
    0 < addr ∧ addr + rslabNewSize g size < sizeMax ∧ rslabNewSize g size < rslabSizeof + 2 ^ 32 ∧
    ∀ s ∈ r.slabs, addr + rslabNewSize g size ≤ s.addr ∨ s.addr + s.size ≤ addr

theorem rslabSizeof_le_newSize (hg : rslabSizeof ≤ g.order0Size) (size : Nat) :
    rslabSizeof ≤ rslabNewSize g size :=
  hg.trans (g.order0Size_le_slabRealSize _)

/-- The slab that `region_reserve_slow` gets is large enough, unless the size wraps around. -/
theorem add_le_rslabNewSize {size : Nat} (hsize : rslabSizeof + size < sizeMax) :
    rslabSizeof + size ≤ rslabNewSize g size := by
  have hmin : (size + rslabSizeof + (sizeMax - slabSizeof)) % sizeMax =
      size + rslabSizeof - slabSizeof := by
    rw [show size + rslabSizeof + (sizeMax - slabSizeof) =
        size + rslabSizeof - slabSizeof + sizeMax by
      simp only [sizeMax, rslabSizeof, slabSizeof] at *; omega, Nat.add_mod_right,
      Nat.mod_eq_of_lt (by omega)]
  have hle := g.le_slabRealSize (size + rslabSizeof - slabSizeof)
  have hadd : size + rslabSizeof - slabSizeof + slabSizeof = rslabSizeof + size := by
    simp only [rslabSizeof, slabSizeof]
    omega
  rw [hadd, Nat.mod_eq_of_lt hsize] at hle
  rw [rslabNewSize, hmin]
  exact hle

/-- A region with its savepoint. -/
structure Region.After (r0 r : Region) : Prop where
  inv : r.Inv
  above : r0.Above r

variable {r0 r r' : Region} {size n : Nat} {answer : Option Nat}

/-- The flag is only for the assertions. -/
theorem Region.After.setReserved (h : r0.After r) (b : Bool) :
    r0.After { r with reserved := b } := by
  obtain ⟨N, Z, M, n, G, P, ha⟩ := h.above
  have hi := h.inv
  exact ⟨⟨hi.bounds, hi.apart, hi.used, hi.total, hi.balance⟩, N, Z, M, n, G, P,
    ⟨ha.old, ha.empty, ha.slabs, ha.grown, ha.gets, ha.puts, ha.balance, ha.bytes⟩⟩

/-- The memory may change where the savepoint has no bytes. -/
theorem Region.After.setMem (h : r0.After r) (mem : Nat → UInt8)
    (hmem : SameBytes r0.slabs r.mem mem) :
    r0.After { r with mem := mem } := by
  obtain ⟨N, Z, M, n, G, P, ha⟩ := h.above
  have hi := h.inv
  exact ⟨⟨hi.bounds, hi.apart, hi.used, hi.total, hi.balance⟩, N, Z, M, n, G, P,
    ⟨ha.old, ha.empty, ha.slabs, ha.grown, ha.gets, ha.puts, ha.balance, ha.bytes.trans hmem⟩⟩

/-- A pointer into the first slab, behind its bytes in use; the slab has room for `size` bytes
unless the size wraps around. -/
structure Region.Found (r r' : Region) (size p : Nat) : Prop where
  first : ∃ s, r'.slabs.head? = some s ∧ p = s.dataEnd ∧
    (rslabSizeof + size < sizeMax → size ≤ s.unused)
  slabs : r'.slabs = r.slabs ∨ ∃ s, s.used = 0 ∧ r'.slabs = s :: r.slabs
  used : r'.used = r.used
  mem : r'.mem = r.mem
  reserved : r'.reserved = r.reserved

theorem regionReserveSlow_spec (hg : rslabSizeof ≤ g.order0Size) (h : r0.After r)
    (hans : r.Answer g size answer) :
    (answer = none ∧ regionReserveSlow g r size answer = (none, r)) ∨
    ∃ p r', regionReserveSlow g r size answer = (some p, r') ∧ r0.After r' ∧ r.Found r' size p := by
  cases answer with
  | none => exact Or.inl ⟨rfl, rfl⟩
  | some addr =>
      right
      obtain ⟨hpos, hlast, hdata, hout⟩ := hans addr rfl
      set s : Rslab := { addr := addr, size := rslabNewSize g size, used := 0 } with hs
      have hle := rslabSizeof_le_newSize hg size
      have hsb : s.InBounds := by
        constructor <;> simp only [hs] <;> omega
      obtain ⟨N, Z, M, n, G, P, ha⟩ := h.above
      have hi := h.inv
      refine ⟨s.data, _, rfl, ⟨?_, s :: N, Z, M, n, addr :: G, P, ?_⟩, ?_⟩
      · constructor
        case bounds =>
          intro t ht
          rcases List.mem_cons.mp ht with rfl | ht
          · exact hsb
          · exact hi.bounds t ht
        case apart =>
          refine List.pairwise_cons.mpr ⟨fun t ht => ?_, hi.apart⟩
          simpa only [Rslab.Apart] using hout t ht
        case used => simp [hi.used]
        case total =>
          simp [hi.total]
          omega
        case balance =>
          refine (hi.balance.cons addr).trans ?_
          exact (List.perm_middle (a := addr)).symm
      · constructor
        case old => exact ha.old
        case empty => exact ha.empty
        case slabs => simp [ha.slabs, hs]
        case grown => exact ha.grown
        case gets => simp [ha.gets]
        case puts => exact ha.puts
        case balance => exact (List.perm_middle (a := addr)).trans (ha.balance.cons addr)
        case bytes => exact ha.bytes
      · refine ⟨⟨s, rfl, rfl, fun hsize => ?_⟩, Or.inr ⟨s, rfl, rfl⟩, rfl, rfl, rfl⟩
        have := add_le_rslabNewSize (g := g) hsize
        rw [Rslab.unused_eq hsb]
        simp only [hs]
        omega

theorem regionFind_spec (hg : rslabSizeof ≤ g.order0Size) (h : r0.After r)
    (hans : r.Answer g size answer) :
    (answer = none ∧ regionFind g r size answer = (none, r)) ∨
    ∃ p r', regionFind g r size answer = (some p, r') ∧ r0.After r' ∧ r.Found r' size p := by
  unfold regionFind
  cases hslabs : r.slabs with
  | nil => exact regionReserveSlow_spec hg h hans
  | cons s slabs =>
      by_cases hfits : size ≤ s.unused
      · right
        refine ⟨s.dataEnd, r, by simp [hfits], h, ⟨s, by simp [hslabs], rfl, fun _ => hfits⟩,
          Or.inl rfl, rfl, rfl, rfl⟩
      · simp only [if_neg hfits]
        exact regionReserveSlow_spec hg h hans

/-- `region_reserve`, if its assertion holds. -/
theorem regionReserve_spec (hg : rslabSizeof ≤ g.order0Size) (h : r0.After r)
    (hans : r.Answer g size answer) (hres : r.reserved = false) :
    (answer = none ∧ regionReserve g r size answer = some (none, r)) ∨
    ∃ p r', regionReserve g r size answer = some (some p, { r' with reserved := true }) ∧
    r0.After r' ∧
      r.Found r' size p := by
  unfold regionReserve
  rcases regionFind_spec hg h hans with ⟨hnone, heq⟩ | ⟨p, r', heq, hafter, hfound⟩
  · left
    exact ⟨hnone, by simp [hres, heq, guard]⟩
  · right
    exact ⟨p, r', by simp [hres, heq, guard], hafter, hfound⟩

/-! ## Allocating -/

/-- Counting a chunk in the first slab. -/
theorem Region.useFirst_spec (h : r0.After r) (heq : r.useFirst n = some r') : r0.After r' := by
  obtain ⟨N, Z, M, k, G, P, ha⟩ := h.above
  have hi := h.inv
  unfold Region.useFirst at heq
  cases hslabs : r.slabs with
  | nil => simp [hslabs] at heq
  | cons s slabs =>
      simp only [hslabs, guard] at heq
      by_cases hle : n ≤ s.unused
      · have hsb := hi.bounds s (by simp [hslabs])
        rw [Rslab.unused_eq hsb] at hle
        obtain ⟨huse, hgrow⟩ := hsb.grow hle
        rw [if_pos (by rw [Rslab.unused_eq hsb]; exact hle), huse] at heq
        have hr' : r' = _ := (Option.some.inj heq).symm
        subst hr'
        refine ⟨?_, ?_⟩
        · constructor
          case bounds =>
            intro t ht
            rcases List.mem_cons.mp ht with rfl | ht
            · exact hgrow
            · exact hi.bounds t (by simp [hslabs, ht])
          case apart =>
            have := hi.apart
            rw [hslabs, List.pairwise_cons] at this
            exact List.pairwise_cons.mpr ⟨fun t ht => this.1 t ht, this.2⟩
          case used =>
            simp only [hi.used, hslabs, usedOf_cons]
            omega
          case total => simp [hi.total, hslabs]
          case balance => simpa [hslabs] using hi.balance
        · -- the chunk is in a new slab, or in the first slab of the savepoint
          have hold := ha.slabs
          cases N with
          | nil =>
              cases M with
              | nil => simp [hslabs, grow] at hold
              | cons m M =>
                  simp only [hslabs, List.nil_append, grow, List.cons.injEq] at hold
                  refine ⟨[], Z, m :: M, k + n, G, P, ha.old, ha.empty, ?_, by simp, ha.gets,
                    ha.puts, ha.balance, ha.bytes⟩
                  simp [grow, hold.1, hold.2, Nat.add_assoc]
          | cons a N =>
              simp only [hslabs, List.cons_append, List.cons.injEq] at hold
              refine ⟨{ s with used := s.used + n } :: N, Z, M, k, G, P, ha.old, ha.empty, ?_,
                ha.grown, ha.gets, ha.puts, ?_, ha.bytes⟩
              · simp [hold.2]
              · simpa [hold.1] using ha.balance
      · simp [hle] at heq

/-- `region_alloc`, if no assertion fails. -/
theorem regionAlloc_spec (hg : rslabSizeof ≤ g.order0Size) (h : r0.After r)
    (hans : r.Answer g size answer) {ptr : Option Nat}
    (heq : regionAlloc g r size answer = some (ptr, r')) : r0.After r' := by
  unfold regionAlloc at heq
  by_cases hpos : size > 0
  · simp only [hpos, guard, if_true, Option.bind_eq_bind] at heq
    rcases regionReserve_spec hg (h.setReserved false) hans rfl with
      ⟨-, hres⟩ | ⟨p, r1, hres, hafter, -⟩
    · rw [hres] at heq
      simp only [pure, Option.bind_some, Option.some.injEq, Prod.mk.injEq] at heq
      exact heq.2 ▸ h.setReserved false
    · rw [hres] at heq
      simp only [pure, Option.bind_some, Option.bind_eq_some_iff] at heq
      obtain ⟨r2, huse, hr2⟩ := heq
      simp only [Option.some.injEq, Prod.mk.injEq] at hr2
      exact hr2.2 ▸ Region.useFirst_spec (hafter.setReserved true) huse
  · simp [hpos, guard] at heq

/-- `region_aligned_reserve`, if no assertion fails. -/
theorem regionAlignedReserve_spec (hg : rslabSizeof ≤ g.order0Size) (h : r0.After r)
    {alignment : Nat} (hans : r.Answer g ((size + alignment + (sizeMax - 1)) % sizeMax) answer)
    {ptr : Option Nat} (heq : regionAlignedReserve g r size alignment answer = some (ptr, r')) :
    r0.After r' := by
  unfold regionAlignedReserve at heq
  cases hr : r.reserved with
  | true => simp [regionReserve, hr, guard] at heq
  | false =>
      rcases regionReserve_spec hg h hans hr with ⟨-, hres⟩ | ⟨p, r1, hres, hafter, -⟩
      · rw [hres] at heq
        simp only [Option.bind_eq_bind, Option.bind_some, Option.bind_eq_some_iff] at heq
        obtain ⟨q, -, hq⟩ := heq
        simp only [Option.some.injEq, Prod.mk.injEq] at hq
        exact hq.2 ▸ h
      · rw [hres] at heq
        simp only [Option.bind_eq_bind, Option.bind_some, Option.bind_eq_some_iff] at heq
        obtain ⟨q, -, hq⟩ := heq
        simp only [Option.some.injEq, Prod.mk.injEq] at hq
        exact hq.2 ▸ hafter.setReserved true

/-- `region_aligned_alloc`, if no assertion fails. -/
theorem regionAlignedAlloc_spec (hg : rslabSizeof ≤ g.order0Size) (h : r0.After r) {alignment : Nat}
    (hans : r.Answer g ((size + alignment + (sizeMax - 1)) % sizeMax) answer) {ptr : Option Nat}
    (heq : regionAlignedAlloc g r size alignment answer = some (ptr, r')) : r0.After r' := by
  unfold regionAlignedAlloc at heq
  by_cases hpos : size > 0
  · simp only [hpos, guard, if_true, Option.bind_eq_bind, pure, Option.bind_some,
      Option.bind_eq_some_iff] at heq
    obtain ⟨⟨q, r1⟩, hres, heq⟩ := heq
    have hafter := regionAlignedReserve_spec hg (h.setReserved false) hans hres
    cases q with
    | none =>
        simp only [Option.some.injEq, Prod.mk.injEq] at heq
        exact heq.2 ▸ hafter
    | some q =>
        simp only [Option.bind_eq_some_iff] at heq
        obtain ⟨s, -, r2, huse, hr2⟩ := heq
        simp only [Option.some.injEq, Prod.mk.injEq] at hr2
        exact hr2.2 ▸ Region.useFirst_spec hafter huse
  · simp [hpos, guard] at heq

/-! ## Joining -/

/-- The copying loop stays in the list as long as there are bytes to copy, and only writes to the
room for the copy. -/
theorem joinLoop_spec (ptr : Nat) (slabs : List Rslab) (offset : Nat) (mem : Nat → UInt8)
    (hle : offset ≤ usedOf slabs) :
    ∃ mem', joinLoop ptr slabs offset mem = some mem' ∧
      ∀ x, ¬ (ptr ≤ x ∧ x < ptr + offset) → mem' x = mem x := by
  induction slabs generalizing offset mem with
  | nil =>
      simp only [usedOf_nil, Nat.le_zero] at hle
      subst hle
      exact ⟨mem, rfl, fun _ _ => rfl⟩
  | cons s slabs ih =>
      cases offset with
      | zero => exact ⟨mem, rfl, fun _ _ => rfl⟩
      | succ offset =>
          unfold joinLoop
          by_cases hused : s.used ≤ offset + 1
          · rw [if_pos hused]
            obtain ⟨mem', heq, hout⟩ := ih (offset + 1 - s.used)
              (fill mem (ptr + (offset + 1) - s.used) s.used fun i => mem (s.data + i))
              (by simp only [usedOf_cons] at hle; omega)
            refine ⟨mem', heq, fun x hx => ?_⟩
            rw [hout x (by omega), fill_of_not (by omega)]
          · rw [if_neg hused]
            exact ⟨_, rfl, fun x hx => fill_of_not hx⟩

/-- The bytes of the savepoint are among the bytes in use. -/
theorem Region.AboveBy.mem_bytes {N Z M : List Rslab} {n : Nat} {G P : List Nat}
    (h : r0.AboveBy r N Z M n G P) {s : Rslab} (hs : s ∈ r0.slabs) {x : Nat} (h1 : s.data ≤ x)
    (h2 : x < s.dataEnd) : ∃ t ∈ r.slabs, t.data ≤ x ∧ x < t.dataEnd := by
  rw [h.old, List.mem_append] at hs
  rcases hs with hs | hs
  · -- an empty slab has no bytes
    have := h.empty s hs
    simp only [Rslab.dataEnd, this] at h2
    omega
  · cases M with
    | nil => simp at hs
    | cons m M =>
        rcases List.mem_cons.mp hs with rfl | hs
        · refine ⟨{ s with used := s.used + n }, by simp [h.slabs, grow], h1, ?_⟩
          simp only [Rslab.dataEnd, Rslab.data] at h2 ⊢
          omega
        · exact ⟨s, by simp [h.slabs, grow, hs], h1, h2⟩

/-- Writes behind the bytes in use of the first slab do not touch the savepoint. -/
theorem Region.After.sameBytes_of_first (h : r0.After r) {s : Rslab} (hs : r.slabs.head? = some s)
    {mem : Nat → UInt8}
    (hout : ∀ x, ¬ (s.dataEnd ≤ x ∧ x < s.addr + s.size) → mem x = r.mem x) :
    SameBytes r0.slabs r.mem mem := by
  obtain ⟨N, Z, M, n, G, P, ha⟩ := h.above
  intro t ht x h1 h2
  obtain ⟨u, hu, hux, hux'⟩ := ha.mem_bytes ht h1 h2
  refine hout x fun hx => ?_
  cases hslabs : r.slabs with
  | nil => simp [hslabs] at hs
  | cons s' slabs =>
      rw [hslabs, List.head?_cons, Option.some.injEq] at hs
      subst hs
      rw [hslabs] at hu
      rcases List.mem_cons.mp hu with rfl | hu
      · omega
      · have hb := (h.inv.bounds u (by simp [hslabs, hu])).used
        have hap := h.inv.apart
        rw [hslabs, List.pairwise_cons] at hap
        simp only [Rslab.dataEnd, Rslab.data] at hux hux' hx
        rcases hap.1 u hu with hlt | hlt <;> omega

/-- `region_alloc` does not need a new slab when the first one has room. -/
theorem regionAlloc_of_room (answer : Option Nat) {s : Rslab} (hs : r.slabs.head? = some s)
    (hroom : size ≤ s.unused) :
    regionAlloc g r size answer = regionAlloc g r size none := by
  cases hslabs : r.slabs with
  | nil => simp [hslabs] at hs
  | cons s' slabs =>
      rw [hslabs, List.head?_cons, Option.some.injEq] at hs
      subst hs
      simp [regionAlloc, regionReserve, regionFind, hslabs, hroom]

/-- `region_alloc` when the newest slab has room. -/
theorem regionAlloc_in_first {t : Rslab}
    (ht : r.slabs.head? = some t) (hroom : size ≤ t.unused) (hpos : 0 < size) :
    regionAlloc g r size answer
      = (Region.useFirst { r with reserved := true } size).map fun r' => (some t.dataEnd, r') := by
  cases hslabs : r.slabs with
  | nil => simp [hslabs] at ht
  | cons u slabs =>
      rw [hslabs, List.head?_cons, Option.some.injEq] at ht
      subst ht
      cases huse : Region.useFirst { r with reserved := true } size with
      | none =>
          rw [hslabs] at huse
          simp [regionAlloc, regionReserve, regionFind, hslabs, guard, hpos, hroom, huse]
      | some r₁ =>
          rw [hslabs] at huse
          simp [regionAlloc, regionReserve, regionFind, hslabs, guard, hpos, hroom, huse]

/-- `region_join`, if no assertion fails; nothing is assumed of the second answer of `slab_get`,
which the function does not ask for. -/
theorem regionJoin_spec (hg : rslabSizeof ≤ g.order0Size) (h : r0.After r)
    (hans : r.Answer g size answer) {answer' ptr : Option Nat}
    (heq : regionJoin g r size answer answer' = some (ptr, r')) : r0.After r' := by
  unfold regionJoin at heq
  simp only [guard, Option.bind_eq_bind] at heq
  by_cases hle : size ≤ r.used
  swap
  · simp [hle] at heq
  cases hres : r.reserved
  swap
  · simp [hle, hres] at heq
  by_cases hpos : size > 0
  swap
  · simp [hle, hres, hpos] at heq
  simp only [hle, hres, hpos, if_true, Bool.false_eq_true, not_false_eq_true, pure,
    Option.bind_some, Option.bind_eq_some_iff] at heq
  obtain ⟨s, hs, heq⟩ := heq
  by_cases hone : s.used ≥ size
  · simp only [if_pos hone, Option.some.injEq, Prod.mk.injEq] at heq
    exact heq.2 ▸ h
  simp only [if_neg hone, Option.bind_eq_some_iff] at heq
  obtain ⟨⟨p, r1⟩, hreserve, heq⟩ := heq
  rcases regionReserve_spec hg h hans hres with ⟨-, hnone⟩ | ⟨q, r2, hsome, hafter, hfound⟩
  · rw [hnone, Option.some.injEq, Prod.mk.injEq] at hreserve
    obtain ⟨rfl, rfl⟩ := hreserve
    simp only [Option.some.injEq, Prod.mk.injEq] at heq
    exact heq.2 ▸ h
  · rw [hsome, Option.some.injEq, Prod.mk.injEq] at hreserve
    obtain ⟨rfl, rfl⟩ := hreserve
    simp only [Option.bind_eq_some_iff] at heq
    obtain ⟨mem, hloop, ⟨_, r3⟩, halloc, heq⟩ := heq
    simp only [Option.some.injEq, Prod.mk.injEq] at heq
    -- the bytes that are joined are fewer than the address space has, so there is room for them
    have hsize : rslabSizeof + size < sizeMax := by
      have hne : r.slabs ≠ [] := by
        rintro hnil
        simp [hnil] at hs
      have := h.inv.used_add_lt hne
      omega
    obtain ⟨t, ht, hq, hroom⟩ := hfound.first
    have hroom := hroom hsize
    obtain ⟨mem', hloop', hout⟩ :=
      joinLoop_spec q r.slabs size r2.mem (by rw [← h.inv.used]; exact hle)
    have hmem : mem' = mem := Option.some.inj (hloop'.symm.trans hloop)
    have htb : t.InBounds := hafter.inv.bounds t (List.mem_of_mem_head? ht)
    have hsame : SameBytes r0.slabs r2.mem mem := by
      refine hafter.sameBytes_of_first ht fun x hx => ?_
      have hu := htb.used
      rw [Rslab.unused_eq htb] at hroom
      rw [← hmem]
      refine hout x fun hin => hx ?_
      rw [hq] at hin
      simp only [Rslab.dataEnd, Rslab.data] at hin ⊢
      omega
    rw [regionAlloc_of_room answer'
      (r := { r2 with reserved := true, mem := mem }) ht hroom] at halloc
    rw [← heq.2]
    refine regionAlloc_spec hg ((hafter.setReserved true).setMem mem hsame) ?_ halloc
    intro addr haddr
    simp at haddr

/-! ## Truncating -/

/-- The leading slabs `D` are put back. -/
def Region.putAll (r : Region) (D : List Rslab) : Region :=
  { r with
    total := r.total - (D.map Rslab.size).sum
    puts := (D.map Rslab.addr).reverse ++ r.puts }

/-- The slab loses its last `k` bytes. -/
def Rslab.trim (s : Rslab) (k : Nat) : Rslab := { s with used := s.used - k }

/-- The region after the loop of `region_truncate`: the leading slabs `D` are put back, and the
next slab loses `k` bytes. -/
def Region.cut (r : Region) (D : List Rslab) (s : Rslab) (rest : List Rslab) (k : Nat) : Region :=
  { r.putAll D with
    slabs := s.trim k :: rest
    mem := fill r.mem (s.dataEnd - k) k fun _ => 'P'.toUInt8 }

/-- The loop of `region_truncate` puts back all slabs, or stops at the first that has more bytes
than are left to cut. -/
theorem truncateLoop_spec (slabs : List Rslab) (cut : Nat) (r : Region)
    (hcut : cut ≤ usedOf slabs) :
    (cut = usedOf slabs ∧ truncateLoop slabs cut r = ({ r.putAll slabs with slabs := [] }, 0)) ∨
    ∃ D s rest, slabs = D ++ s :: rest ∧ usedOf D ≤ cut ∧ cut - usedOf D < s.used ∧
      truncateLoop slabs cut r = (r.cut D s rest (cut - usedOf D), 0) := by
  induction slabs generalizing cut r with
  | nil =>
      left
      simp only [usedOf_nil, Nat.le_zero] at hcut
      subst hcut
      exact ⟨rfl, rfl⟩
  | cons s slabs ih =>
      unfold truncateLoop
      by_cases hlt : s.used > cut
      · right
        refine ⟨[], s, slabs, rfl, by simp, by simpa using hlt, ?_⟩
        rw [if_pos hlt]
        rfl
      · rw [if_neg hlt]
        set r1 : Region := { r with total := r.total - s.size, puts := s.addr :: r.puts } with hr1
        have hput : ∀ D : List Rslab, r1.putAll D = r.putAll (s :: D) := by
          intro D
          simp [Region.putAll, hr1, Nat.sub_sub]
        simp only [usedOf_cons] at hcut
        rcases ih (cut - s.used) r1 (by omega) with ⟨hall, heq⟩ | ⟨D, t, rest, hD, hle, hmore, heq⟩
        · left
          rw [hput] at heq
          exact ⟨by simp only [usedOf_cons]; omega, heq⟩
        · right
          refine ⟨s :: D, t, rest, by simp [hD], ?_, ?_, ?_⟩
          · simp only [usedOf_cons]
            omega
          · simp only [usedOf_cons]
            omega
          · rw [heq, Region.cut, Region.cut, hput, usedOf_cons, Nat.sub_sub]

/-- The region after `region_truncate`: the slabs `D` are put back, `rest` is left. -/
def Region.truncated (r : Region) (D rest : List Rslab) (used : Nat) (mem : Nat → UInt8) : Region :=
  { r.putAll D with
    slabs := rest
    used := used
    reserved := false
    mem := mem }

/-- Slabs that are put back and slabs that stay. -/
theorem Region.Inv.truncated {D rest : List Rslab} (h : r.Inv) (hslabs : r.slabs = D ++ rest)
    (mem : Nat → UInt8) : (r.truncated D rest (usedOf rest) mem).Inv := by
  have hperm : (r.gets).Perm ((D.map Rslab.addr).reverse ++ r.puts ++ rest.map Rslab.addr) := by
    have h1 := h.balance
    rw [hslabs, List.map_append] at h1
    refine h1.trans ?_
    rw [← List.append_assoc]
    refine List.Perm.append_right _ (List.perm_append_comm.trans ?_)
    exact List.Perm.append_right _ (List.reverse_perm _).symm
  constructor
  case bounds => exact fun s hs => h.bounds s (by rw [hslabs]; exact List.mem_append_right _ hs)
  case apart =>
    have := h.apart
    rw [hslabs, List.pairwise_append] at this
    exact this.2.1
  case used => rfl
  case total =>
    show r.total - (D.map Rslab.size).sum = (rest.map Rslab.size).sum
    rw [h.total, hslabs, List.map_append, List.sum_append, Nat.add_sub_cancel_left]
  case balance => exact hperm

/-- The first slab loses bytes. -/
theorem Region.Inv.trim {s : Rslab} {rest : List Rslab} {k : Nat} (h : r.Inv)
    (hslabs : r.slabs = s :: rest) (hk : k ≤ s.used) (mem : Nat → UInt8) :
    Region.Inv { r with slabs := s.trim k :: rest, used := r.used - k, mem := mem } := by
  have hs := h.bounds s (by simp [hslabs])
  constructor
  case bounds =>
    intro t ht
    rcases List.mem_cons.mp ht with rfl | ht
    · have hle := hs.used
      refine ⟨hs.pos, hs.last, ?_, hs.data⟩
      show rslabSizeof + (s.used - k) ≤ s.size
      omega
    · exact h.bounds t (by simp [hslabs, ht])
  case apart =>
    have := h.apart
    rw [hslabs, List.pairwise_cons] at this
    exact List.pairwise_cons.mpr ⟨fun t ht => this.1 t ht, this.2⟩
  case used =>
    show r.used - k = s.used - k + usedOf rest
    rw [h.used, hslabs, usedOf_cons]
    omega
  case total => simp [h.total, hslabs, Rslab.trim]
  case balance => simpa [hslabs, Rslab.trim] using h.balance

theorem usedOf_grow {M : List Rslab} (hgrown : M = [] → n = 0) :
    usedOf (grow n M) = usedOf M + n := by
  cases M with
  | nil => simp [grow, hgrown rfl]
  | cons m M =>
      simp only [grow, usedOf_cons]
      omega

theorem used_eq_zero_of_usedOf {M : List Rslab} (h : usedOf M = 0) : ∀ s ∈ M, s.used = 0 := by
  induction M with
  | nil => simp
  | cons m M ih =>
      simp only [usedOf_cons, Nat.add_eq_zero_iff] at h
      intro s hs
      rcases List.mem_cons.mp hs with rfl | hs
      · exact h.1
      · exact ih h.2 s hs

theorem usedOf_eq_zero {M : List Rslab} (h : ∀ s ∈ M, s.used = 0) : usedOf M = 0 := by
  induction M with
  | nil => rfl
  | cons m M ih =>
      rw [usedOf_cons, h m (by simp), ih fun s hs => h s (List.mem_cons_of_mem _ hs)]

section Truncate

variable {N Z M : List Rslab} {G P : List Nat}

/-- The bytes in use since the savepoint. -/
theorem Region.AboveBy.used_eq (h : r0.AboveBy r N Z M n G P) (h0 : r0.Inv) (hi : r.Inv) :
    r.used = r0.used + (usedOf N + n) := by
  rw [hi.used, h.slabs, usedOf_append, usedOf_grow h.grown, h0.used, h.old, usedOf_append,
    usedOf_eq_zero h.empty]
  omega

/-- Where a cut of bytes that are newer than the savepoint ends: in a new slab, or in the first
slab of the savepoint, or behind some empty slabs of the savepoint. -/
theorem cut_cases {D rest : List Rslab} {s : Rslab} {k : Nat} (hgrown : M = [] → n = 0)
    (hslabs : N ++ grow n M = D ++ s :: rest) (hcut : usedOf D + k ≤ usedOf N + n) :
    (∃ N', N = D ++ s :: N' ∧ rest = N' ++ grow n M) ∨
    (∃ m, M = m :: rest ∧ D = N ∧ s = { m with used := m.used + n } ∧ k ≤ n) ∨
    (∃ Z', M = Z' ++ s :: rest ∧ D = N ++ grow n Z' ∧ Z' ≠ [] ∧ (∀ t ∈ Z', t.used = 0) ∧
      k = 0) := by
  rcases List.append_eq_append_iff.mp hslabs with ⟨D', hD, hgrow⟩ | ⟨N', hN, hrest⟩
  · right
    cases D' with
    | nil =>
        left
        cases M with
        | nil => simp [grow] at hgrow
        | cons m M =>
            simp only [grow, List.nil_append, List.cons.injEq] at hgrow
            refine ⟨m, by rw [hgrow.2], by simpa using hD, hgrow.1.symm, ?_⟩
            rw [hD] at hcut
            simp only [usedOf_append, usedOf_nil] at hcut
            omega
    | cons d D' =>
        right
        cases M with
        | nil => simp [grow] at hgrow
        | cons m M =>
            simp only [grow, List.cons_append, List.cons.injEq] at hgrow
            obtain ⟨hd, hM⟩ := hgrow
            rw [hD, ← hd] at hcut
            simp only [usedOf_append, usedOf_cons] at hcut
            have hm : m.used = 0 := by omega
            have hz : usedOf D' = 0 := by omega
            refine ⟨m :: D', by simp [hM], by simp [hD, grow, ← hd], by simp, ?_, by omega⟩
            intro t ht
            rcases List.mem_cons.mp ht with rfl | ht
            · exact hm
            · exact used_eq_zero_of_usedOf hz t ht
  · cases N' with
    | nil =>
        -- the cut ends at the boundary between the new slabs and those of the savepoint
        right
        left
        simp only [List.append_nil, List.nil_append] at hN hrest
        cases M with
        | nil => simp [grow] at hrest
        | cons m M =>
            simp only [grow, List.cons.injEq] at hrest
            refine ⟨m, by rw [hrest.2], hN.symm, hrest.1, ?_⟩
            rw [hN] at hcut
            omega
    | cons a N' =>
        left
        simp only [List.cons_append, List.cons.injEq] at hrest
        exact ⟨N', by rw [hN, hrest.1], hrest.2⟩

/-- Putting back slabs since the savepoint: new ones, and empty ones of the savepoint. -/
theorem perm_putAll {N' D Z' : List Rslab}
    (hbal : (P ++ N.map Rslab.addr).Perm (G ++ Z.map Rslab.addr))
    (hD : (D.map Rslab.addr ++ N'.map Rslab.addr).Perm (N.map Rslab.addr ++ Z'.map Rslab.addr)) :
    ((D.map Rslab.addr).reverse ++ P ++ N'.map Rslab.addr).Perm
      (G ++ (Z ++ Z').map Rslab.addr) := by
  have h1 : ((D.map Rslab.addr).reverse ++ P ++ N'.map Rslab.addr).Perm
      (P ++ (D.map Rslab.addr ++ N'.map Rslab.addr)) := by
    rw [← List.append_assoc]
    refine List.Perm.append_right _ (List.perm_append_comm.trans ?_)
    exact List.Perm.append_left _ (List.reverse_perm _)
  have h2 := List.Perm.append_left P hD
  have h3 : (P ++ (N.map Rslab.addr ++ Z'.map Rslab.addr)).Perm
      (G ++ (Z ++ Z').map Rslab.addr) := by
    rw [← List.append_assoc, List.map_append, ← List.append_assoc]
    exact List.Perm.append_right _ hbal
  exact h1.trans (h2.trans h3)

/-- The relation to the savepoint after `region_truncate`. -/
theorem Region.AboveBy.truncated {N' M' D rest : List Rslab} {n' u : Nat} {mem : Nat → UInt8}
    (h : r0.AboveBy r N Z M n G P) (Z' : List Rslab) (hM : M = Z' ++ M')
    (hempty : ∀ s ∈ Z', s.used = 0) (hrest : rest = N' ++ grow n' M') (hgrown : M' = [] → n' = 0)
    (hD : (D.map Rslab.addr ++ N'.map Rslab.addr).Perm (N.map Rslab.addr ++ Z'.map Rslab.addr))
    (hmem : SameBytes r0.slabs r.mem mem) :
    r0.AboveBy (r.truncated D rest u mem) N' (Z ++ Z') M' n' G
      ((D.map Rslab.addr).reverse ++ P) where
  old := by rw [h.old, hM, List.append_assoc]
  empty := by
    intro s hs
    rcases List.mem_append.mp hs with hs | hs
    · exact h.empty s hs
    · exact hempty s hs
  slabs := hrest
  grown := hgrown
  gets := h.gets
  puts := by
    show (D.map Rslab.addr).reverse ++ r.puts = _
    rw [h.puts, List.append_assoc]
  balance := perm_putAll h.balance hD
  bytes := h.bytes.trans hmem

/-- The bytes that the `memset` of `region_truncate` overwrites are newer than the savepoint. -/
theorem sameBytes_of_trim {s : Rslab} {k : Nat} {data : Nat → UInt8} (h : r0.AboveBy r N Z M n G P)
    (hi : r.Inv) (hs : s ∈ r.slabs) (hk : k ≤ s.used)
    (hnew : ∀ t ∈ M, t.addr = s.addr → t.used + k ≤ s.used) :
    SameBytes r0.slabs r.mem (fill r.mem (s.dataEnd - k) k data) := by
  intro t ht x h1 h2
  refine fill_of_not fun hx => ?_
  have hsb := (hi.bounds s hs).used
  rw [h.old, List.mem_append] at ht
  rcases ht with ht | ht
  · have := h.empty t ht
    simp only [Rslab.dataEnd, this] at h2
    omega
  · obtain ⟨u, hu, huaddr, husize, huused⟩ :
        ∃ u ∈ r.slabs, u.addr = t.addr ∧ u.size = t.size ∧ t.used ≤ u.used := by
      cases M with
      | nil => simp at ht
      | cons m M =>
          rcases List.mem_cons.mp ht with rfl | ht
          · exact ⟨{ t with used := t.used + n }, by simp [h.slabs, grow], rfl, rfl,
              Nat.le_add_right _ _⟩
          · exact ⟨t, by simp [h.slabs, grow, ht], rfl, rfl, Nat.le_refl _⟩
    have hub := (hi.bounds u hu).used
    simp only [Rslab.dataEnd, Rslab.data] at h1 h2 hx
    by_cases hsame : u = s
    · have := hnew t ht (by rw [← huaddr, hsame])
      rw [hsame] at huaddr
      omega
    · rcases hi.apart.forall hu hs hsame with hlt | hlt <;> omega

/-- `region_truncate` to a savepoint `r0`, or to a number of bytes that is reached later. -/
theorem regionTruncate_spec {u : Nat} (h0 : r0.Inv) (h : r0.After r) (hu : r0.used ≤ u)
    (hle : u ≤ r.used) :
    ∃ r' N' Z' M' n' G' P', regionTruncate r u = some r' ∧ r'.Inv ∧ r'.used = u ∧
      r0.AboveBy r' N' Z' M' n' G' P' ∧ (usedOf N' = 0 → N' = []) := by
  obtain ⟨N, Z, M, n, G, P, ha⟩ := h.above
  have hi := h.inv
  have hused := ha.used_eq h0 hi
  have hcut : r.used - u ≤ usedOf r.slabs := by rw [← hi.used]; omega
  rcases truncateLoop_spec r.slabs (r.used - u) r hcut with
    ⟨hall, heq⟩ | ⟨D, s, rest, hD, hDle, hmore, heq⟩
  · -- all slabs are put back: those of the savepoint are empty
    have hM : usedOf M = 0 := by
      rw [ha.slabs, usedOf_append, usedOf_grow ha.grown] at hall
      omega
    have hu0 : u = usedOf [] := by
      rw [← hi.used] at hall
      simp only [usedOf_nil]
      omega
    have hperm : (r.slabs.map Rslab.addr ++ ([] : List Rslab).map Rslab.addr).Perm
        (N.map Rslab.addr ++ M.map Rslab.addr) := by
      rw [ha.slabs, List.map_append, map_addr_grow]
      simp
    refine ⟨r.truncated r.slabs [] u r.mem, [], Z ++ M, [], 0, G, _, ?_, ?_, rfl,
      ha.truncated M (by simp) (used_eq_zero_of_usedOf hM) rfl (by simp) hperm
        fun _ _ _ _ _ => rfl, by simp⟩
    · simp [regionTruncate, guard, heq, hle, Region.putAll, Region.truncated]
    · rw [hu0]
      exact hi.truncated (by simp) r.mem
  · set k := r.used - u - usedOf D with hk
    have hs : s ∈ r.slabs := by simp [hD]
    set mem := fill r.mem (s.dataEnd - k) k fun _ => 'P'.toUInt8 with hmem
    set r' := r.truncated D (s.trim k :: rest) u mem with hr'
    have hinv : r'.Inv := by
      have h1 := (hi.truncated hD r.mem).trim (k := k) rfl (by omega) mem
      have hu' : usedOf (s :: rest) - k = u := by
        have := hi.used
        rw [hD, usedOf_append] at this
        omega
      rw [hr', ← hu']
      exact h1
    have heq' : regionTruncate r u = some r' := by
      simp [regionTruncate, guard, heq, hle, hr', Region.cut, Region.putAll, Region.truncated, hmem]
    rcases cut_cases ha.grown (ha.slabs.symm.trans hD) (k := k) (by omega) with
      ⟨N', hN, hrest⟩ | ⟨m, hM, hDN, hsm, hkn⟩ | ⟨Z', hM, hDN, -, hempty, hk0⟩
    · -- the cut ends in a new slab
      refine ⟨r', s.trim k :: N', Z ++ [], M, n, G, _, heq', hinv, rfl,
        ha.truncated [] (by simp) (by simp) (by rw [hrest]; rfl) ha.grown ?_ ?_, ?_⟩
      · simp [hN, Rslab.trim]
      · refine sameBytes_of_trim ha hi hs (by omega) fun t ht haddr => ?_
        have hmem : t.addr ∈ (grow n M).map Rslab.addr := by
          rw [map_addr_grow]
          exact List.mem_map_of_mem ht
        obtain ⟨v, hv, hvaddr⟩ := List.mem_map.mp hmem
        have hap := hi.apart
        rw [ha.slabs, List.pairwise_append] at hap
        have hne := (hap.2.2 s (by simp [hN]) v hv).addr_ne (hi.bounds s hs)
          (hi.bounds v (by simp [ha.slabs, hv]))
        exact absurd (hvaddr.trans haddr) hne
      · intro hzero
        simp only [usedOf_cons, Rslab.trim] at hzero
        omega
    · -- the cut ends in the first slab of the savepoint
      refine ⟨r', [], Z ++ [], M, n - k, G, _, heq', hinv, rfl,
        ha.truncated [] (by simp) (by simp) ?_ (by simp [hM]) ?_ ?_, by simp⟩
      · rw [hM, hsm]
        simp only [Rslab.trim, grow, List.nil_append, List.cons.injEq, Rslab.mk.injEq, true_and,
          and_true]
        omega
      · simp [hDN]
      · refine sameBytes_of_trim ha hi hs (by omega) fun t ht haddr => ?_
        rw [hM] at ht
        rcases List.mem_cons.mp ht with rfl | ht
        · simp only [hsm]
          omega
        · have hap := hi.apart
          rw [hD, List.pairwise_append, List.pairwise_cons] at hap
          have hne := (hap.2.1.1 t ht).addr_ne (hi.bounds s hs) (hi.bounds t (by simp [hD, ht]))
          exact absurd haddr hne
    · -- the cut ends behind some empty slabs of the savepoint
      refine ⟨r', [], Z ++ Z', s :: rest, 0, G, _, heq', hinv, rfl,
        ha.truncated Z' hM hempty ?_ (by simp) ?_ ?_, by simp⟩
      · simp [hk0, Rslab.trim, grow_zero]
      · simp [hDN, map_addr_grow]
      · intro t ht x h1 h2
        rw [hmem, hk0]
        exact fill_of_not (by omega)

end Truncate

end SmallAllocators
