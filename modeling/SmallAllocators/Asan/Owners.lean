/-
SmallAllocators.Asan.Owners — the allocators of a build with ASAN and the
blocks that each of them gave out.

An id is reserved for one allocator and for no other one, and it is in the
header of every block of this allocator. So a block that comes back with the
id of an allocator comes back to the one that gave it out. The header of a
small object begins with its size, and what an arena, a slab cache or a pool
reads there is the low half of the size.
-/
import Mathlib.Algebra.BigOperators.Group.List.Basic
import SmallAllocators.Asan.Objects
import SmallAllocators.Lib.Sums

namespace SmallAllocators

open Memory

/-! ## The state -/

/-- An allocator; `ι` are the addresses of the structures of the clients. -/
inductive AsanOwner (ι : Type) where
  | arena (a : ι)
  | cache (c : ι)
  | pool (p : ι)
  | small (a : ι)
deriving DecidableEq

/-- The allocators that were created and not destroyed. -/
structure AsanAllocators (ι : Type) where
  arena : ι → Option AsanArena
  cache : ι → Option AsanSlabCache
  pool : ι → Option AsanMempool
  alloc : ι → Option (AsanSmallAlloc ι)

/-- The heap, the allocators, the quota, the units of it that others have, and the blocks that are
in use. -/
structure AsanState (ι : Type) where
  heap : AsanHeap
  allocators : AsanAllocators ι
  source : Nat
  others : Nat
  live : List (AsanObject (AsanOwner ι))

namespace AsanOwner

variable {ι : Type}

/-- An allocator of small objects. -/
def IsSmall : AsanOwner ι → Prop
  | .small _ => True
  | _ => False

/-- The slab cache that leases what the allocator takes. -/
def lender (lender : ι → Option ι) : AsanOwner ι → Option ι
  | .small a => lender a
  | _ => none

instance : DecidablePred (IsSmall (ι := ι)) :=
  fun w => (by cases w <;> unfold IsSmall <;> infer_instance)

end AsanOwner

/-- What the allocator wrote into the block. -/
def AsanObject.Written {ι : Type} (o : AsanObject (AsanOwner ι)) (mem : Nat → UInt8)
    (id : Nat) : Prop :=
  match o.owner with
  | .arena _ => loadLe mem o.header 4 = id ∧ o.alignment = smallArenaSlabAlignment ∧
      o.headerSize = ptrSize
  | .cache _ =>
      loadLe mem o.header 4 = id ∧ o.alignment = smallCacheSlabAlignment ∧ o.headerSize = ptrSize ∧
        loadLe mem o.payload asanSlabSizeof = o.size ∧ asanSlabSizeof ≤ o.size
  | .pool _ => loadLe mem o.header 4 = id ∧ o.headerSize = mempoolObjectSizeof
  | .small _ =>
      loadLe mem (o.header + 8) 4 = id ∧ o.alignment = smallAsanAlignment ∧
        o.headerSize = smallObjectSizeof ∧
        loadLe mem o.header 8 = o.size

/-- What clients do not write: the block up to the payload, and the size at the start of a slab. -/
def AsanObject.reserved {ι : Type} (o : AsanObject (AsanOwner ι)) : Nat :=
  match o.owner with
  | .cache _ => o.payload + asanSlabSizeof
  | _ => o.payload

/-- A pool as `mempool_create` made it. -/
structure AsanMempool.Created (pool : AsanMempool) : Prop where
  pos : 0 < pool.objsize
  lt : pool.objsize < 2 ^ 32
  /-- The largest power of two that divides the size, or 4096. -/
  alignment : ∃ k ≤ 12, pool.alignment = 2 ^ k ∧ 2 ^ k ∣ pool.objsize ∧
    (k < 12 → ¬2 ^ (k + 1) ∣ pool.objsize)

namespace AsanAllocators

variable {ι : Type} (t : AsanAllocators ι)

/-- The id of an allocator. -/
def id : AsanOwner ι → Option Nat
  | .arena a => (t.arena a).map (·.id)
  | .cache c => (t.cache c).map (·.id)
  | .pool p => (t.pool p).map (·.id)
  | .small a => (t.alloc a).map (·.id)

/-- The lessor of a slab cache. -/
def quota (c : ι) : Option QuotaLessor := (t.cache c).map (·.quota)

/-- The slab cache under an allocator of small objects. -/
def lender (a : ι) : Option ι := (t.alloc a).map (·.cache)

/-- What the structure of an allocator says about the blocks that it gave out. -/
def Serves : AsanOwner ι → List (AsanObject (AsanOwner ι)) → Prop
  | .arena a, objs => ∀ arena, t.arena a = some arena → ∀ o ∈ objs, o.size = arena.slabSize
  | .cache c, objs => ∀ cache, t.cache c = some cache → cache.used = (objs.map (·.size)).sum
  | .pool p, objs =>
      ∀ pool, t.pool p = some pool →
        pool.Created ∧ pool.objcount = objs.length ∧ ∀ o ∈ objs, o.size = pool.objsize ∧
        o.alignment = pool.alignment
  | .small a, objs =>
      ∀ alloc, t.alloc a = some alloc → alloc.objcount = objs.length ∧
        alloc.used = (objs.map (·.size)).sum

section Set

variable [DecidableEq ι]

def setArena (a : ι) (r : Option AsanArena) : AsanAllocators ι :=
  { t with arena := Function.update t.arena a r }

def setCache (c : ι) (r : Option AsanSlabCache) : AsanAllocators ι :=
  { t with cache := Function.update t.cache c r }

def setPool (p : ι) (r : Option AsanMempool) : AsanAllocators ι :=
  { t with pool := Function.update t.pool p r }

def setAlloc (a : ι) (r : Option (AsanSmallAlloc ι)) : AsanAllocators ι :=
  { t with alloc := Function.update t.alloc a r }

end Set

end AsanAllocators

/-! ## Blocks and ids -/

section Tags

variable {ι : Type} {o o' : AsanObject (AsanOwner ι)} {mem mem' : Nat → UInt8} {h h' : AsanHeap}
  {ids ids' : AsanOwner ι → Option Nat} {live : List (AsanObject (AsanOwner ι))} {w : AsanOwner ι}
  {n : Nat}

/-- The blocks of a heap, each with the id of the allocator that gave it out. -/
structure AsanHeap.Tags (h : AsanHeap) (ids : AsanOwner ι → Option Nat)
    (live : List (AsanObject (AsanOwner ι))) : Prop where
  holds : h.Holds live
  next : h.smallAsanIdNext < 2 ^ 32
  ids_lt : ∀ w n, ids w = some n → n < h.smallAsanIdNext
  ids_inj : ∀ w w' n, ids w = some n → ids w' = some n → w = w'
  written : ∀ o ∈ live, ∃ n, ids o.owner = some n ∧ o.Written h.mem n

theorem AsanObject.payload_le_reserved (o : AsanObject (AsanOwner ι)) : o.payload ≤ o.reserved := by
  unfold AsanObject.reserved
  split <;> omega

theorem AsanObject.Written.congr (hw : o.Written mem n) (hp : o.Placed)
    (hsame : ∀ x, o.header ≤ x → x < o.reserved → mem' x = mem x) : o.Written mem' n := by
  have hafter := hp.after
  have hheader := o.header_eq
  obtain ⟨w, block, payload, size, alignment, headerSize⟩ := o
  dsimp only at hafter hheader
  have hhead : ∀ m, m ≤ 4 → 4 ≤ headerSize → ∀ x, block + 8 ≤ x → x < block + 8 + m →
      mem' x = mem x := by
    intro m hm hsize x h1 h2
    refine hsame x h1 (lt_of_lt_of_le ?_ (AsanObject.payload_le_reserved _))
    dsimp only
    omega
  cases w with
  | arena a =>
      obtain ⟨hid, halign, hsize⟩ := hw
      have hsize' : headerSize = ptrSize := hsize
      exact ⟨(loadLe_congr (hhead 4 (le_refl 4) (by rw [hsize', ptrSize]; omega))).trans hid,
        halign, hsize⟩
  | cache c =>
      obtain ⟨hid, halign, hsize, hslab, hle⟩ := hw
      have hsize' : headerSize = ptrSize := hsize
      refine ⟨(loadLe_congr (hhead 4 (le_refl 4) (by rw [hsize', ptrSize]; omega))).trans hid,
        halign, hsize, ?_, hle⟩
      exact (loadLe_congr fun x h1 h2 => hsame x (by dsimp only at h1; omega) h2).trans hslab
  | pool p =>
      obtain ⟨hid, hsize⟩ := hw
      have hsize' : headerSize = mempoolObjectSizeof := hsize
      exact ⟨(loadLe_congr (hhead 4 (le_refl 4) (by rw [hsize', mempoolObjectSizeof]))).trans hid,
        hsize⟩
  | small a =>
      obtain ⟨hid, halign, hsize, hslab⟩ := hw
      have hsize' : headerSize = 16 := hsize
      have hall : ∀ x, block + 8 ≤ x → x < block + 8 + 16 → mem' x = mem x :=
        fun x h1 h2 => hsame x h1 (by show x < payload; omega)
      refine ⟨(loadLe_congr fun x h1 h2 => hall x ?_ ?_).trans hid, halign, hsize,
        (loadLe_congr fun x h1 h2 => hall x ?_ ?_).trans hslab⟩
      all_goals
        simp only [AsanObject.header, smallAsanHeaderAlignment, ptrSize] at h1 h2
        omega

/-- What a call that gives out a block does to the heap. -/
structure AsanHeap.Gives (h h' : AsanHeap) (o : AsanObject (AsanOwner ι)) (n : Nat) : Prop where
  placed : o.Placed
  tagged : o.Tagged h'.mem
  written : o.Written h'.mem n
  blocks : h'.blocks = (o.block, o.blockSize) :: h.blocks
  next : h'.smallAsanIdNext = h.smallAsanIdNext
  same : ∀ x, (x < o.block ∨ o.block + o.blockSize ≤ x) → h'.mem x = h.mem x

theorem AsanObject.Written.reserved_le (hw : o.Written mem n) :
    o.reserved ≤ o.payload + o.size := by
  obtain ⟨w, block, payload, size, alignment, headerSize⟩ := o
  cases w with
  | cache c =>
      obtain ⟨-, -, -, -, hle⟩ := hw
      exact Nat.add_le_add_left hle payload
  | _ => exact Nat.le_add_right payload size

/-- A new block does not touch the others. -/
theorem AsanHeap.Gives.apart (hg : h.Gives h' o n) (hh : h.Holds live)
    (hfresh : h.Fresh o.blockSize o.block) (ho' : o' ∈ live) {x : Nat} (h1 : o'.block ≤ x)
    (h2 : x < o'.block + o'.blockSize) : h'.mem x = h.mem x := by
  have hap := hfresh.apart _ (hh.blocks.mem_iff.2 (List.mem_map.2 ⟨o', ho', rfl⟩))
  unfold RangesApart at hap
  exact hg.same x (by omega)

theorem AsanHeap.Tags.add (ht : h.Tags ids live) (hg : h.Gives h' o n)
    (hfresh : h.Fresh o.blockSize o.block) (hid : ids o.owner = some n) :
    h'.Tags ids (o :: live) := by
  constructor
  case holds => exact ht.holds.add hg.placed hg.tagged hg.blocks hfresh hg.same
  case next => exact hg.next ▸ ht.next
  case ids_lt => exact hg.next ▸ ht.ids_lt
  case ids_inj => exact ht.ids_inj
  case written =>
    refine List.forall_mem_cons.2 ⟨⟨n, hid, hg.written⟩, fun o' ho' => ?_⟩
    obtain ⟨m, hm, hw⟩ := ht.written o' ho'
    have hp := ht.holds.placed o' ho'
    have hle := hw.reserved_le
    have hinside := hp.inside
    have hheader := o'.header_eq
    exact ⟨m, hm, hw.congr hp fun x h1 h2 => hg.apart ht.holds hfresh ho' (by omega) (by omega)⟩

/-- Clients write to their payloads. -/
theorem AsanHeap.Tags.write (ht : h.Tags ids live) (hblocks : h'.blocks = h.blocks)
    (hnext : h'.smallAsanIdNext = h.smallAsanIdNext)
    (hsame : ∀ o ∈ live, ∀ x, o.block ≤ x → x < o.reserved → h'.mem x = h.mem x) :
    h'.Tags ids live := by
  constructor
  case holds =>
    refine ht.holds.write hblocks fun x hx => ?_
    obtain ⟨o, ho, h1, h2, -⟩ := hx
    exact hsame o ho x h1 (lt_of_lt_of_le h2 o.payload_le_reserved)
  case next => exact hnext ▸ ht.next
  case ids_lt => exact hnext ▸ ht.ids_lt
  case ids_inj => exact ht.ids_inj
  case written =>
    intro o ho
    obtain ⟨m, hm, hw⟩ := ht.written o ho
    have hheader := o.header_eq
    exact ⟨m, hm, hw.congr (ht.holds.placed o ho) fun x h1 h2 => hsame o ho x (by omega) h2⟩

/-- What an arena, a slab cache or a pool takes for the id. -/
theorem AsanHeap.Tags.load (ht : h.Tags ids live) (ho : o ∈ live) :
    (¬o.owner.IsSmall ∧ ids o.owner = some (loadLe h.mem o.header 4)) ∨
      (o.owner.IsSmall ∧ loadLe h.mem o.header 4 = o.size % 2 ^ 32) := by
  obtain ⟨n, hn, hw⟩ := ht.written o ho
  obtain ⟨w, block, payload, size, alignment, headerSize⟩ := o
  cases w with
  | small a =>
      obtain ⟨-, -, -, hsize⟩ := hw
      have hmod := loadLe_mod h.mem
        (AsanObject.mk (AsanOwner.small a) block payload size alignment headerSize).header 4 4
      rw [hsize] at hmod
      exact .inr ⟨trivial, hmod.symm⟩
  | _ => exact .inl ⟨fun hsmall => hsmall, hw.1 ▸ hn⟩

section Ids

variable [DecidableEq ι]

/-- A new allocator. -/
theorem AsanHeap.Tags.reserve (ht : h.Tags ids live) (hnone : ids w = none)
    (hleft : h.smallAsanIdNext + 1 < 2 ^ 32) :
    h.smallAsanReserveId.2.Tags (Function.update ids w (some h.smallAsanReserveId.1)) live := by
  have hnext : h.smallAsanReserveId.2.smallAsanIdNext = h.smallAsanIdNext + 1 :=
    Nat.mod_eq_of_lt hleft
  have hold : ∀ w' n, ids w' = some n → n ≠ h.smallAsanIdNext :=
    fun w' n hn => Nat.ne_of_lt (ht.ids_lt w' n hn)
  have hcases : ∀ w' n, Function.update ids w (some h.smallAsanReserveId.1) w' = some n →
      (w' = w ∧ n = h.smallAsanIdNext) ∨ (w' ≠ w ∧ ids w' = some n) := by
    intro w' n hn
    by_cases hw : w' = w
    · rw [hw, Function.update_self] at hn
      exact .inl ⟨hw, (Option.some.inj hn).symm⟩
    · rw [Function.update_of_ne hw] at hn
      exact .inr ⟨hw, hn⟩
  constructor
  case holds => exact ⟨ht.holds.placed, ht.holds.tagged, ht.holds.blocks, ht.holds.apart⟩
  case next => exact hnext ▸ hleft
  case ids_lt =>
    intro w' n hn
    rw [hnext]
    rcases hcases w' n hn with ⟨-, rfl⟩ | ⟨-, hn⟩
    · exact Nat.lt_succ_self _
    · exact Nat.lt_succ_of_lt (ht.ids_lt w' n hn)
  case ids_inj =>
    intro w₁ w₂ n h1 h2
    rcases hcases w₁ n h1 with ⟨hw₁, hn₁⟩ | ⟨-, hold₁⟩ <;> rcases hcases w₂ n h2 with ⟨hw₂, hn₂⟩
      | ⟨-, hold₂⟩
    · exact hw₁.trans hw₂.symm
    · exact absurd hn₁ (hold w₂ n hold₂)
    · exact absurd hn₂ (hold w₁ n hold₁)
    · exact ht.ids_inj w₁ w₂ n hold₁ hold₂
  case written =>
    intro o ho
    obtain ⟨m, hm, hw⟩ := ht.written o ho
    refine ⟨m, ?_, hw⟩
    rw [Function.update_of_ne, hm]
    rintro rfl
    rw [hnone] at hm
    cases hm

/-- The end of an allocator none of whose blocks is in use. -/
theorem AsanHeap.Tags.forget (ht : h.Tags ids live) (hnone : ∀ o ∈ live, o.owner ≠ w) :
    h.Tags (Function.update ids w none) live := by
  have hold : ∀ w' n, Function.update ids w none w' = some n → ids w' = some n := by
    intro w' n hn
    by_cases hw : w' = w
    · rw [hw, Function.update_self] at hn
      cases hn
    · rwa [Function.update_of_ne hw] at hn
  constructor
  case holds => exact ht.holds
  case next => exact ht.next
  case ids_lt => exact fun w' n hn => ht.ids_lt w' n (hold w' n hn)
  case ids_inj => exact fun w₁ w₂ n h1 h2 => ht.ids_inj w₁ w₂ n (hold w₁ n h1) (hold w₂ n h2)
  case written =>
    intro o ho
    obtain ⟨m, hm, hw⟩ := ht.written o ho
    exact ⟨m, by rw [Function.update_of_ne (hnone o ho), hm], hw⟩

theorem AsanHeap.Tags.erase (ht : h.Tags ids live) (hmem : h'.mem = h.mem)
    (hnext : h'.smallAsanIdNext = h.smallAsanIdNext) (hholds : h'.Holds (live.erase o)) :
    h'.Tags ids (live.erase o) := by
  constructor
  case holds => exact hholds
  case next => exact hnext ▸ ht.next
  case ids_lt => exact hnext ▸ ht.ids_lt
  case ids_inj => exact ht.ids_inj
  case written => exact fun o' ho' => hmem ▸ ht.written o' (List.mem_of_mem_erase ho')

/-- A block that comes back to an arena, a slab cache or a pool; a small object whose size ends
with the id is not told apart. -/
theorem AsanHeap.Tags.freeTagged (ht : h.Tags ids live) (ho : o ∈ live) (hw : ¬w.IsSmall)
    (hid : ids w = some n) (hsmall : o.owner.IsSmall → o.size % 2 ^ 32 ≠ n) :
    (o.owner ≠ w ∧ h.freeTagged n o.payload = none) ∨
      (o.owner = w ∧ ∃ h', h.freeTagged n o.payload = some h' ∧ h'.mem = h.mem ∧
        h'.Tags ids (live.erase o)) := by
  have howner : loadLe h.mem o.header 4 = n ↔ o.owner = w := by
    rcases ht.load ho with ⟨-, hload⟩ | ⟨his, hload⟩
    · constructor
      · rintro rfl
        exact ht.ids_inj _ _ _ hload hid
      · intro heq
        rw [heq, hid] at hload
        exact (Option.some.inj hload).symm
    · rw [hload]
      exact ⟨fun heq => absurd heq (hsmall his), fun heq => absurd (heq ▸ his) hw⟩
  rcases ht.holds.freeTagged ho n with ⟨hrun, hne⟩ | ⟨h', hrun, heq, hmem, hnext, hholds⟩
  · exact .inl ⟨fun heq => hne (howner.2 heq), hrun⟩
  · exact .inr ⟨howner.1 heq, h', hrun, hmem, ht.erase hmem hnext hholds⟩

end Ids

end Tags

end SmallAllocators
