/-
SmallAllocators.Asan.Objects — the blocks of a heap, each with its payload.

Whatever happens to the heap, the offsets and the magic of a block that is in
use stay where they are, and so does its header: other blocks are elsewhere,
and clients write to payloads. From the payload one finds the header, and from
the header the payload and the block.
-/
import SmallAllocators.Asan.Model
import SmallAllocators.Small.Objects

namespace SmallAllocators

open Memory

/-- A block that an allocator gave out. -/
structure AsanObject (ω : Type) where
  /-- The allocator. -/
  owner : ω
  block : Nat
  payload : Nat
  size : Nat
  alignment : Nat
  headerSize : Nat
deriving DecidableEq

namespace AsanObject

variable {ω : Type} (o : AsanObject ω)

def header : Nat := o.block + smallAsanHeaderAlignment

/-- The `alloc_size` of `small_asan_alloc`, when it does not wrap around. -/
def blockSize : Nat := o.headerSize + o.size + 2 * o.alignment + 16

/-- Where the payload is in the block. -/
structure Placed : Prop where
  aligned : o.alignment ∣ o.payload ∧ ¬ 2 * o.alignment ∣ o.payload
  after : o.block + o.headerSize + 16 < o.payload
  inside : o.payload + o.size ≤ o.block + o.blockSize
  bound : o.block + o.blockSize < sizeMax

/-- The offsets and the magic are in the block. -/
structure Tagged (mem : Nat → UInt8) : Prop where
  front : load16 mem o.block = o.payload - o.header
  back : load16 mem (magicBegin o.payload - 2) = o.payload - o.header
  magic : ∀ x, magicBegin o.payload ≤ x → x < o.payload →
    mem x = byte smallAsanMagic (x - magicBegin o.payload)

end AsanObject

variable {ω : Type} {o o' : AsanObject ω} {mem mem' : Nat → UInt8} {h h' : AsanHeap}
    {live : List (AsanObject ω)}
  {size headerSize k answer id x : Nat}

/-! ## One block -/

theorem AsanObject.header_eq (o : AsanObject ω) : o.header = o.block + 8 := rfl

theorem magicBegin_bounds (payload : Nat) :
    magicBegin payload ≤ payload ∧ payload < magicBegin payload + 8 := by
  simp only [magicBegin, smallPoisonAlignment]
  omega

theorem AsanObject.Tagged.congr (ht : o.Tagged mem) (hp : o.Placed)
    (hsame : ∀ x, o.block ≤ x → x < o.payload → (x < o.header ∨ o.header + o.headerSize ≤ x) →
      mem' x = mem x) :
    o.Tagged mem' := by
  have hafter := hp.after
  have hmagic := magicBegin_bounds o.payload
  have hheader := o.header_eq
  constructor
  case front =>
    rw [← ht.front, load16, load16, hsame _ (by omega) (by omega) (by omega),
      hsame _ (by omega) (by omega) (by omega)]
  case back =>
    rw [← ht.back, load16, load16, hsame _ (by omega) (by omega) (by omega),
      hsame _ (by omega) (by omega) (by omega)]
  case magic =>
    intro x h1 h2
    rw [hsame x (by omega) h2 (by omega), ht.magic x h1 h2]

theorem AsanObject.Placed.payload_lt (hp : o.Placed) : o.payload < sizeMax := by
  have hinside := hp.inside
  have hbound := hp.bound
  omega

theorem AsanObject.Tagged.payload_from_header (ht : o.Tagged mem) (hp : o.Placed) :
    smallAsanPayloadFromHeader mem o.header = o.payload := by
  have hafter := hp.after
  exact (smallAsanPayloadFromHeader_eq ht.front (by omega) hp.payload_lt).2

theorem AsanObject.Tagged.header_from_payload (ht : o.Tagged mem) (hp : o.Placed) :
    smallAsanHeaderFromPayload mem o.payload = some o.header := by
  have hafter := hp.after
  have hlt := hp.payload_lt
  have hmagic := magicBegin_bounds o.payload
  have hheader := o.header_eq
  have haddress : (magicBegin o.payload + (sizeMax - 2)) % sizeMax = magicBegin o.payload - 2 := by
    rw [show magicBegin o.payload + (sizeMax - 2) = magicBegin o.payload - 2 + sizeMax by omega,
      Nat.add_mod_right, Nat.mod_eq_of_lt (by omega)]
  rw [smallAsanHeaderFromPayload, smallAlignDown_poison hlt]
  simp only [Option.bind_eq_bind, Option.bind_some, haddress, ht.back]
  rw [show o.payload + (sizeMax - (o.payload - o.header)) = o.header + sizeMax by omega,
    Nat.add_mod_right, Nat.mod_eq_of_lt (by omega)]

theorem AsanObject.Tagged.free (ht : o.Tagged mem) (hp : o.Placed) :
    smallAsanFree mem o.header = some o.block := by
  have hafter := hp.after
  have halloc := (smallAsanPayloadFromHeader_eq ht.front (by omega) hp.payload_lt).1
  cases hfree : smallAsanFree mem o.header with
  | none =>
      obtain ⟨x, h1, h2, hne⟩ := (smallAsanFree_eq_none ht.front (by omega) hp.payload_lt).1 hfree
      exact absurd (ht.magic x h1 h2) hne
  | some a =>
      obtain ⟨down, -, hrest⟩ := Option.bind_eq_some_iff.1 hfree
      rw [← Option.some.inj hrest]
      exact congrArg some halloc

/-- `small_asan_free` finds a payload that somebody wrote in front of. -/
theorem AsanObject.Tagged.free_eq_none (ht : o.Tagged mem) (hp : o.Placed)
    (hfront : load16 mem' o.block = load16 mem o.block) :
    smallAsanFree mem' o.header = none ↔ ∃ x, magicBegin o.payload ≤ x ∧ x < o.payload ∧
      mem' x ≠ mem x := by
  have hafter := hp.after
  rw [AsanObject.header_eq, smallAsanFree_eq_none (hfront.trans ht.front) (by omega) hp.payload_lt]
  refine exists_congr fun x => and_congr_right fun h1 => and_congr_right fun h2 => ?_
  rw [ht.magic x h1 h2]

/-- What `malloc` may return: memory that is not in another block. -/
structure AsanHeap.Fresh (h : AsanHeap) (size answer : Nat) : Prop where
  malloced : Malloced answer size
  pos : 0 < answer
  apart : ∀ b ∈ h.blocks, RangesApart answer size b.1 b.2

/-- `small_asan_alloc`, with an alignment for which the offset fits in 16 bits. -/
theorem AsanHeap.alloc_spec (h : AsanHeap) (owner : ω)
    (hfresh : Malloced answer (headerSize + size + 2 * 2 ^ k + 16))
    (hsmall : headerSize + 2 * 2 ^ k + 8 ≤ uint16Max) :
    ∃ payload mem', h.alloc size (2 ^ k) headerSize answer
        = some (answer + 8, { h with
          mem := mem', blocks := (answer, headerSize + size + 2 * 2 ^ k + 16) :: h.blocks }) ∧
      (AsanObject.mk owner answer payload size (2 ^ k) headerSize).Placed ∧
      (AsanObject.mk owner answer payload size (2 ^ k) headerSize).Tagged mem' ∧
      ∀ x, (x < answer ∨ payload ≤ x) → mem' x = h.mem x := by
  have hpos := Nat.two_pow_pos k
  have hmax : 2 ^ 63 < sizeMax := by decide
  obtain ⟨hsize, hbound⟩ := hfresh
  have hsum : asanAllocSize size (2 ^ k) headerSize = headerSize + size + 2 * 2 ^ k + 16 := by
    rw [asanAllocSize_eq, Nat.mod_eq_of_lt (by omega)]
  have hpayload : asanPayload answer size (2 ^ k) headerSize =
      some (oddMultiple k (answer + headerSize + 2 * 2 ^ k + 16)) :=
    asanPayload_eq (by omega) hbound
  obtain ⟨-, hle, hlt⟩ :=
    oddMultiple_spec (show 2 ^ k ≤ answer + headerSize + 2 * 2 ^ k + 16 by omega)
  generalize oddMultiple k (answer + headerSize + 2 * 2 ^ k + 16) = payload at hpayload hle hlt
  obtain ⟨⟨header, mem'⟩, hres⟩ :
      ∃ r, smallAsanAlloc h.mem answer size (2 ^ k) headerSize = some r := by
    have hheader : (answer + smallAsanHeaderAlignment) % sizeMax = answer + 8 :=
      Nat.mod_eq_of_lt (by
      simp only [smallAsanHeaderAlignment, ptrSize]
      omega)
    have hdistance : (payload + (sizeMax - (answer + 8))) % sizeMax = payload - (answer + 8) := by
      rw [show payload + (sizeMax - (answer + 8)) = payload - (answer + 8) + sizeMax by omega,
        Nat.add_mod_right, Nat.mod_eq_of_lt (by omega)]
    have hfits : payload - (answer + 8) ≤ uint16Max := by omega
    rw [smallAsanAlloc, hpayload]
    simp [hheader, hdistance, hfits, guard, smallAlignDown_poison (show payload < sizeMax by omega)]
  obtain ⟨⟨haligned, hafter, -⟩, rfl, hd16, hmem⟩ :=
    smallAsanAlloc_spec ⟨hsize, hbound⟩ hpayload hres
  have hmagic := magicBegin_bounds payload
  refine ⟨payload, mem', ?_, ⟨haligned, hafter, ?_, hbound⟩, ⟨?_, ?_, ?_⟩, ?_⟩
  · simp only [AsanHeap.alloc, hres, hsum, Option.bind_eq_bind, Option.bind_some]
  · simp only [AsanObject.blockSize]
    omega
  · show load16 mem' answer = payload - (answer + 8)
    rw [hmem, load16_fill_of_disjoint (by omega), load16_fill hd16]
  · show load16 mem' (magicBegin payload - 2) = payload - (answer + 8)
    rw [hmem, load16_fill_of_disjoint (by omega), load16_fill_of_disjoint (by omega),
      load16_fill hd16]
  · intro x h1 h2
    have h1 : magicBegin payload ≤ x := h1
    have h2 : x < payload := h2
    rw [hmem, fill, if_pos (by omega)]
  · intro x hx
    rw [hmem, fill_of_not (by omega), fill_of_not (by omega), fill_of_not (by omega)]

/-- An id in the header. -/
theorem AsanHeap.allocTagged_spec (h : AsanHeap) (owner : ω)
    (hfresh : Malloced answer (headerSize + size + 2 * 2 ^ k + 16))
    (hsmall : headerSize + 2 * 2 ^ k + 8 ≤ uint16Max) (hheader : 4 ≤ headerSize)
    (hid : id < 2 ^ 32) :
    ∃ payload mem', h.allocTagged size (2 ^ k) headerSize id answer
        = some (payload, { h with
          mem := mem', blocks := (answer, headerSize + size + 2 * 2 ^ k + 16) :: h.blocks }) ∧
      (AsanObject.mk owner answer payload size (2 ^ k) headerSize).Placed ∧
      (AsanObject.mk owner answer payload size (2 ^ k) headerSize).Tagged mem' ∧
      loadLe mem' (answer + 8) 4 = id ∧
      ∀ x, (x < answer ∨ payload ≤ x) → mem' x = h.mem x := by
  obtain ⟨payload, mem', hrun, hp, ht, hsame⟩ := h.alloc_spec owner hfresh hsmall
  have hafter : answer + headerSize + 16 < payload := hp.after
  have ht' : (AsanObject.mk owner answer payload size (2 ^ k) headerSize).Tagged
      (fill mem' (answer + 8) 4 (byte id)) :=
    ht.congr hp fun x _ _ hx => fill_of_not (by simp only [AsanObject.header_eq] at hx; omega)
  refine ⟨payload, fill mem' (answer + 8) 4 (byte id), ?_, hp, ht', ?_, fun x hx => ?_⟩
  · have hfrom : smallAsanPayloadFromHeader (fill mem' (answer + 8) 4 (byte id)) (answer + 8) =
        payload :=
      ht'.payload_from_header hp
    simp only [AsanHeap.allocTagged, hrun, AsanHeap.store, Option.bind_eq_bind,
      Option.bind_some, hfrom]
  · rw [loadLe_fill]
    exact Nat.mod_eq_of_lt hid
  · rw [fill_of_not (by omega), hsame x hx]

/-! ## All blocks -/

/-- The blocks of the heap are those that were given out. -/
structure AsanHeap.Holds (h : AsanHeap) (live : List (AsanObject ω)) : Prop where
  placed : ∀ o ∈ live, o.Placed
  tagged : ∀ o ∈ live, o.Tagged h.mem
  blocks : h.blocks.Perm (live.map fun o => (o.block, o.blockSize))
  apart : live.Pairwise fun o o' => RangesApart o.block o.blockSize o'.block o'.blockSize

theorem AsanObject.blockSize_pos (o : AsanObject ω) : 0 < o.blockSize := by
  simp only [AsanObject.blockSize]
  omega

theorem AsanHeap.Holds.apart_of_ne (hh : h.Holds live) (ho : o ∈ live) (ho' : o' ∈ live)
    (hne : o ≠ o') :
    RangesApart o.block o.blockSize o'.block o'.blockSize := by
  have hsymm :
      Std.Symm fun o o' : AsanObject ω => RangesApart o.block o.blockSize o'.block o'.blockSize :=
    ⟨fun _ _ => RangesApart.symm⟩
  exact hh.apart.forall ho ho' hne

theorem AsanHeap.Holds.nodup (hh : h.Holds live) : live.Nodup := by
  refine hh.apart.imp fun {o o'} hap heq => ?_
  subst heq
  exact hap.ne o.blockSize_pos o.blockSize_pos rfl

/-- The blocks have different addresses, and different payloads. -/
theorem AsanHeap.Holds.inj (hh : h.Holds live) (ho : o ∈ live) (ho' : o' ∈ live)
    (heq : o.block = o'.block ∨ o.payload = o'.payload) : o = o' := by
  by_contra hne
  have hap := hh.apart_of_ne ho ho' hne
  have hpos := o.blockSize_pos
  have hpos' := o'.blockSize_pos
  obtain ⟨-, hafter, hinside, -⟩ := hh.placed o ho
  obtain ⟨-, hafter', hinside', -⟩ := hh.placed o' ho'
  unfold RangesApart at hap
  rcases heq with heq | heq <;> omega

/-- A new block. -/
theorem AsanHeap.Holds.add (hh : h.Holds live) (hp : o.Placed) (ht : o.Tagged h'.mem)
    (hblocks : h'.blocks = (o.block, o.blockSize) :: h.blocks)
    (hfresh : h.Fresh o.blockSize o.block)
    (hsame : ∀ x, (x < o.block ∨ o.block + o.blockSize ≤ x) → h'.mem x = h.mem x) :
    h'.Holds (o :: live) := by
  have hap : ∀ o' ∈ live, RangesApart o.block o.blockSize o'.block o'.blockSize := by
    intro o' ho'
    exact hfresh.apart _ (hh.blocks.mem_iff.2 (List.mem_map.2 ⟨o', ho', rfl⟩))
  constructor
  case placed => exact List.forall_mem_cons.2 ⟨hp, hh.placed⟩
  case tagged =>
    refine List.forall_mem_cons.2
      ⟨ht, fun o' ho' => (hh.tagged o' ho').congr (hh.placed o' ho') fun x h1 h2 _ => hsame x ?_⟩
    have hinside' := (hh.placed o' ho').inside
    have hap' := hap o' ho'
    unfold RangesApart at hap'
    omega
  case blocks =>
    rw [hblocks, List.map_cons]
    exact hh.blocks.cons _
  case apart => exact List.pairwise_cons.2 ⟨hap, hh.apart⟩

/-- What clients write behind the start of a payload. -/
theorem AsanHeap.Holds.write (hh : h.Holds live) (hblocks : h'.blocks = h.blocks)
    (hsame : ∀ x, (∃ o ∈ live, o.block ≤ x ∧ x < o.payload ∧
      (x < o.header ∨ o.header + o.headerSize ≤ x)) → h'.mem x = h.mem x) :
    h'.Holds live := by
  refine ⟨hh.placed, fun o ho => ?_, hblocks ▸ hh.blocks, hh.apart⟩
  exact (hh.tagged o ho).congr (hh.placed o ho) fun x h1 h2 h3 => hsame x ⟨o, ho, h1, h2, h3⟩

section Free

variable [DecidableEq ω]

/-- `small_asan_free` of a block that is in use. -/
theorem AsanHeap.Holds.free (hh : h.Holds live) (ho : o ∈ live) :
    ∃ h', h.free o.header = some h' ∧ h'.mem = h.mem ∧ h'.smallAsanIdNext = h.smallAsanIdNext ∧
      h'.Holds (live.erase o) := by
  have hmem : (o.block, o.blockSize) ∈ h.blocks := hh.blocks.mem_iff.2 (List.mem_map.2 ⟨o, ho, rfl⟩)
  have hfind : h.blocks.find? (fun block => block.1 = o.block) = some (o.block, o.blockSize) := by
    obtain ⟨b, hb⟩ : ∃ b, h.blocks.find? (fun block => block.1 = o.block) = some b := by
      rw [← Option.isSome_iff_exists, List.find?_isSome]
      exact ⟨_, hmem, by simp⟩
    have hfirst : b.1 = o.block := by simpa using List.find?_some hb
    obtain ⟨o', ho', rfl⟩ := List.mem_map.1 (hh.blocks.mem_iff.1 (List.mem_of_find?_eq_some hb))
    rw [hb, hh.inj ho' ho (.inl hfirst)]
  have hrun : h.free o.header =
      some { h with blocks := h.blocks.erase (o.block, o.blockSize) } := by
    simp [AsanHeap.free, (hh.tagged o ho).free (hh.placed o ho), hfind]
  refine ⟨_, hrun, rfl, rfl, ?_⟩
  constructor
  case placed => exact fun o' ho' => hh.placed o' (List.mem_of_mem_erase ho')
  case tagged => exact fun o' ho' => hh.tagged o' (List.mem_of_mem_erase ho')
  case blocks =>
    have hperm := (List.perm_cons_erase ho).map fun o => (o.block, o.blockSize)
    have hall := (hh.blocks.trans hperm).erase (o.block, o.blockSize)
    rwa [List.map_cons, List.erase_cons_head] at hall
  case apart => exact hh.apart.sublist List.erase_sublist

theorem AsanHeap.freeTagged_eq (id : Nat) {payload obj : Nat}
    (hobj : smallAsanHeaderFromPayload h.mem payload = some obj) :
    h.freeTagged id payload = if loadLe h.mem obj 4 = id then h.free obj else none := by
  rw [AsanHeap.freeTagged, hobj, Option.bind_eq_bind, Option.bind_some]
  split
  · next hid => rw [guard, if_pos hid]; rfl
  · next hid => rw [guard, if_neg hid]; rfl

/-- A block comes back to the allocator with its id, or the assertion fails. -/
theorem AsanHeap.Holds.freeTagged (hh : h.Holds live) (ho : o ∈ live) (id : Nat) :
    h.freeTagged id o.payload = none ∧ loadLe h.mem o.header 4 ≠ id ∨
    ∃ h', h.freeTagged id o.payload = some h' ∧ loadLe h.mem o.header 4 = id ∧ h'.mem = h.mem ∧
      h'.smallAsanIdNext = h.smallAsanIdNext ∧ h'.Holds (live.erase o) := by
  obtain ⟨h', hrun, hmem, hnext, hholds⟩ := hh.free ho
  have hheader := (hh.tagged o ho).header_from_payload (hh.placed o ho)
  rw [AsanHeap.freeTagged_eq id hheader]
  by_cases hid : loadLe h.mem o.header 4 = id
  · exact .inr ⟨h', (if_pos hid).trans hrun, hid, hmem, hnext, hholds⟩
  · exact .inl ⟨if_neg hid, hid⟩

end Free

end SmallAllocators
