/-
SmallAllocators.Asan.Counters — what the allocators count and lease.

A pool counts its objects, a slab cache adds up the sizes of its slabs, an
allocator of small objects does both. The counters are words, but no sum of
sizes of blocks that are apart from each other is as large as a word. The
lessor of a slab cache has on lease what the allocators on it gave out.
-/
import SmallAllocators.Asan.Calls

namespace SmallAllocators

variable {ι : Type} {o : AsanObject (AsanOwner ι)} {live live' : List (AsanObject (AsanOwner ι))}
    {w : AsanOwner ι}
  {t t' : AsanAllocators ι} {h : AsanHeap}

/-- The sizes of all blocks, and their number, are less than a word together. -/
theorem AsanHeap.Holds.room [DecidableEq ι] (hh : h.Holds live) :
    (live.map (·.size)).sum + live.length < sizeMax := by
  have hlast : ∀ o ∈ live.toFinset, o.block + o.blockSize ≤ sizeMax - 1 := by
    intro o ho
    have hbound := (hh.placed o (List.mem_toFinset.1 ho)).bound
    omega
  have hap : ∀ o ∈ live.toFinset, ∀ o' ∈ live.toFinset, o ≠ o' →
      o.block + o.blockSize ≤ o'.block ∨ o'.block + o'.blockSize ≤ o.block :=
    fun o ho o' ho' hne => hh.apart_of_ne (List.mem_toFinset.1 ho) (List.mem_toFinset.1 ho') hne
  have hall := Memory.sum_le_of_apart live.toFinset (·.block) (·.blockSize) hlast hap
  rw [List.sum_toFinset _ hh.nodup] at hall
  have heach : ∀ l : List (AsanObject (AsanOwner ι)), (l.map (·.size)).sum + l.length ≤
      (l.map (·.blockSize)).sum := by
    intro l
    induction l with
    | nil => simp
    | cons o l ih =>
        simp only [List.map_cons, List.sum_cons, List.length_cons, AsanObject.blockSize] at ih ⊢
        omega
  have := heach live
  have hpos : 0 < sizeMax := by decide
  omega

/-! ## The structures of the allocators -/

theorem AsanAllocators.id_arena {t : AsanAllocators ι} {a : ι} {arena : AsanArena}
    (h : t.arena a = some arena) :
    t.id (.arena a) = some arena.id := by simp [id, h]

theorem AsanAllocators.id_cache {t : AsanAllocators ι} {c : ι} {cache : AsanSlabCache}
    (h : t.cache c = some cache) :
    t.id (.cache c) = some cache.id := by simp [id, h]

theorem AsanAllocators.id_pool {t : AsanAllocators ι} {p : ι} {pool : AsanMempool}
    (h : t.pool p = some pool) :
    t.id (.pool p) = some pool.id := by simp [id, h]

theorem AsanAllocators.id_alloc {t : AsanAllocators ι} {a : ι} {alloc : AsanSmallAlloc ι}
    (h : t.alloc a = some alloc) :
    t.id (.small a) = some alloc.id := by simp [id, h]

theorem AsanAllocators.Serves.perm (hs : t.Serves w live) (hp : live.Perm live') :
    t.Serves w live' := by
  cases w with
  | arena a => exact fun arena harena o ho => hs arena harena o (hp.mem_iff.2 ho)
  | cache c => exact fun cache hcache => (hs cache hcache).trans (hp.map _).sum_eq
  | pool p =>
      intro pool hpool
      obtain ⟨hcreated, hcount, hobjs⟩ := hs pool hpool
      exact ⟨hcreated, hcount.trans hp.length_eq, fun o ho => hobjs o (hp.mem_iff.2 ho)⟩
  | small a =>
      intro alloc halloc
      obtain ⟨hcount, hused⟩ := hs alloc halloc
      exact ⟨hcount.trans hp.length_eq, hused.trans (hp.map _).sum_eq⟩

section Set

variable [DecidableEq ι]

theorem AsanAllocators.id_setArena (a : ι) (r : Option AsanArena) :
    (t.setArena a r).id = Function.update t.id (.arena a) (r.map (·.id)) := by
  funext w
  cases w with
  | arena b => by_cases hb : b = a <;> simp [id, setArena, hb]
  | _ => simp [id, setArena]

theorem AsanAllocators.id_setCache (c : ι) (r : Option AsanSlabCache) :
    (t.setCache c r).id = Function.update t.id (.cache c) (r.map (·.id)) := by
  funext w
  cases w with
  | cache b => by_cases hb : b = c <;> simp [id, setCache, hb]
  | _ => simp [id, setCache]

theorem AsanAllocators.id_setPool (p : ι) (r : Option AsanMempool) :
    (t.setPool p r).id = Function.update t.id (.pool p) (r.map (·.id)) := by
  funext w
  cases w with
  | pool b => by_cases hb : b = p <;> simp [id, setPool, hb]
  | _ => simp [id, setPool]

theorem AsanAllocators.id_setAlloc (a : ι) (r : Option (AsanSmallAlloc ι)) :
    (t.setAlloc a r).id = Function.update t.id (.small a) (r.map (·.id)) := by
  funext w
  cases w with
  | small b => by_cases hb : b = a <;> simp [id, setAlloc, hb]
  | _ => simp [id, setAlloc]

theorem AsanAllocators.quota_setCache (c : ι) (r : Option AsanSlabCache) :
    (t.setCache c r).quota = Function.update t.quota c (r.map (·.quota)) := by
  funext b
  by_cases hb : b = c <;> simp [quota, setCache, hb]

theorem AsanAllocators.lender_setAlloc (a : ι) (r : Option (AsanSmallAlloc ι)) :
    (t.setAlloc a r).lender = Function.update t.lender a (r.map (·.cache)) := by
  funext b
  by_cases hb : b = a <;> simp [lender, setAlloc, hb]

/-- A call does not change what the structures of other allocators say. -/
theorem AsanAllocators.Serves.setArena {a : ι} {r : Option AsanArena} (hs : t.Serves w live)
    (hw : w ≠ .arena a) :
    (t.setArena a r).Serves w live := by
  cases w with
  | arena b =>
      have hb : b ≠ a := fun heq => hw (congrArg _ heq)
      intro arena harena
      exact hs arena (by simpa [AsanAllocators.setArena, Function.update_of_ne hb] using harena)
  | _ => exact hs

theorem AsanAllocators.Serves.setCache {c : ι} {r : Option AsanSlabCache} (hs : t.Serves w live)
    (hw : w ≠ .cache c) :
    (t.setCache c r).Serves w live := by
  cases w with
  | cache b =>
      have hb : b ≠ c := fun heq => hw (congrArg _ heq)
      intro cache hcache
      exact hs cache (by simpa [AsanAllocators.setCache, Function.update_of_ne hb] using hcache)
  | _ => exact hs

theorem AsanAllocators.Serves.setPool {p : ι} {r : Option AsanMempool} (hs : t.Serves w live)
    (hw : w ≠ .pool p) :
    (t.setPool p r).Serves w live := by
  cases w with
  | pool b =>
      have hb : b ≠ p := fun heq => hw (congrArg _ heq)
      intro pool hpool
      exact hs pool (by simpa [AsanAllocators.setPool, Function.update_of_ne hb] using hpool)
  | _ => exact hs

theorem AsanAllocators.Serves.setAlloc {a : ι} {r : Option (AsanSmallAlloc ι)}
    (hs : t.Serves w live) (hw : w ≠ .small a) :
    (t.setAlloc a r).Serves w live := by
  cases w with
  | small b =>
      have hb : b ≠ a := fun heq => hw (congrArg _ heq)
      intro alloc halloc
      exact hs alloc (by simpa [AsanAllocators.setAlloc, Function.update_of_ne hb] using halloc)
  | _ => exact hs

/-- A lease does not change what the structure of a slab cache says. -/
theorem AsanAllocators.Serves.setQuota {c : ι} {cache : AsanSlabCache} {lessor : QuotaLessor}
    (hs : t.Serves w live) (hcache : t.cache c = some cache) :
    (t.setCache c (some { cache with quota := lessor })).Serves w live := by
  by_cases hw : w = .cache c
  · subst hw
    intro cache' hcache'
    have heq : { cache with quota := lessor } = cache' := by
      simpa [AsanAllocators.setCache] using hcache'
    rw [← heq]
    exact hs cache hcache
  · exact hs.setCache hw

theorem AsanAllocators.setCache_self {c : ι} {cache : AsanSlabCache}
    (hcache : t.cache c = some cache) :
    t.setCache c (some cache) = t := by
  rw [setCache, ← hcache, Function.update_eq_self]

theorem AsanAllocators.setAlloc_self {a : ι} {alloc : AsanSmallAlloc ι}
    (halloc : t.alloc a = some alloc) :
    t.setAlloc a (some alloc) = t := by
  rw [setAlloc, ← halloc, Function.update_eq_self]

/-- The structures after a call of an allocator of small objects. -/
theorem AsanAllocators.lease_tables {t : AsanAllocators ι} {a : ι} {alloc : AsanSmallAlloc ι}
    {cache : AsanSlabCache} (alloc' : AsanSmallAlloc ι) (lessor : QuotaLessor)
    (halloc : t.alloc a = some alloc) (hcache : t.cache alloc.cache = some cache)
    (hid : alloc'.id = alloc.id) (hsame : alloc'.cache = alloc.cache) :
    let t' := (t.setCache alloc.cache (some { cache with quota := lessor })).setAlloc a
      (some alloc')
    t'.id = t.id ∧ t'.quota = Function.update t.quota alloc.cache (some lessor) ∧
    t'.lender = t.lender ∧
      ∀ w objs, w ≠ .small a → t.Serves w objs → t'.Serves w objs := by
  have hlender : t.lender a = some alloc.cache := by
    rw [AsanAllocators.lender, halloc]
    rfl
  refine ⟨?_, ?_, ?_, fun w objs hw hs => (hs.setQuota hcache).setAlloc hw⟩
  · rw [AsanAllocators.id_setAlloc, AsanAllocators.id_setCache, Option.map_some,
      Option.map_some, hid,
      ← AsanAllocators.id_cache hcache, Function.update_eq_self, ← AsanAllocators.id_alloc halloc,
      Function.update_eq_self]
  · show (t.setCache alloc.cache (some { cache with quota := lessor })).quota = _
    rw [AsanAllocators.quota_setCache]
    rfl
  · rw [AsanAllocators.lender_setAlloc, Option.map_some, hsame]
    show Function.update t.lender a (some alloc.cache) = t.lender
    rw [← hlender, Function.update_eq_self]

end Set

/-! ## The blocks of one allocator -/

section Blocks

variable [DecidableEq ι]

/-- The blocks that an allocator gave out. -/
def blocksOf (live : List (AsanObject (AsanOwner ι))) (w : AsanOwner ι) :
    List (AsanObject (AsanOwner ι)) :=
  live.filter fun o => o.owner = w

theorem blocksOf_cons_self (o : AsanObject (AsanOwner ι)) :
    blocksOf (o :: live) o.owner = o :: blocksOf live o.owner := by
  simp [blocksOf]

theorem blocksOf_cons_of_ne (hw : w ≠ o.owner) : blocksOf (o :: live) w = blocksOf live w := by
  simp [blocksOf, Ne.symm hw]

theorem blocksOf_eq_nil (hnone : ∀ o ∈ live, o.owner ≠ w) : blocksOf live w = [] := by
  simpa [blocksOf] using hnone

/-- One block more. -/
theorem AsanAllocators.Serves.give (hs : ∀ w, t.Serves w (blocksOf live w))
    (hothers : ∀ w objs, w ≠ o.owner → t.Serves w objs → t'.Serves w objs)
    (hself : t.Serves o.owner (blocksOf live o.owner) →
      t'.Serves o.owner (o :: blocksOf live o.owner)) :
    ∀ w, t'.Serves w (blocksOf (o :: live) w) := by
  intro w
  by_cases hw : w = o.owner
  · rw [hw, blocksOf_cons_self]
    exact hself (hs o.owner)
  · rw [blocksOf_cons_of_ne hw]
    exact hothers w _ hw (hs w)

/-- One block less. -/
theorem AsanAllocators.Serves.take (hs : ∀ w, t.Serves w (blocksOf live w)) (ho : o ∈ live)
    (hothers : ∀ w objs, w ≠ o.owner → t.Serves w objs → t'.Serves w objs)
    (hself : t.Serves o.owner (o :: blocksOf (live.erase o) o.owner) →
      t'.Serves o.owner (blocksOf (live.erase o) o.owner)) :
    ∀ w, t'.Serves w (blocksOf (live.erase o) w) := by
  intro w
  have hperm : (blocksOf live w).Perm (blocksOf (o :: live.erase o) w) :=
    (List.perm_cons_erase ho).filter _
  have hold := (hs w).perm hperm
  by_cases hw : w = o.owner
  · rw [hw, blocksOf_cons_self] at hold
    exact hw ▸ hself hold
  · rw [blocksOf_cons_of_ne hw] at hold
    exact hothers w _ hw hold

/-- The room that a new block leaves in the counters. -/
theorem AsanHeap.Holds.counters (hh : h.Holds (o :: live)) :
    (blocksOf live o.owner).length + 1 < sizeMax ∧
      ((blocksOf live o.owner).map (·.size)).sum + o.size < sizeMax := by
  have hroom := hh.room
  have hlen : (blocksOf live o.owner).length ≤ live.length := List.length_filter_le _ _
  have hsum : ((blocksOf live o.owner).map (·.size)).sum ≤ (live.map (·.size)).sum :=
    (List.filter_sublist.map _).sum_le_sum fun _ _ => Nat.zero_le _
  simp only [List.map_cons, List.sum_cons, List.length_cons] at hroom
  omega

end Blocks

/-! ## Leases -/

section Leases

/-- What a lessor has taken from the source, and what of it is on lease. -/
structure QuotaLessor.Holds (lessor : QuotaLessor) (lent : Nat) : Prop where
  leased : lessor.leased = lent
  le : lessor.leased ≤ lessor.used
  units : lessor.used % quotaUnitSize = 0
  available : lessor.used < lessor.leased + 2 * quotaUseMin

theorem AsanOwner.lender_eq_none {lender : ι → Option ι} (hw : ¬w.IsSmall) :
    w.lender lender = none := by
  cases w with
  | small a => exact absurd trivial hw
  | _ => rfl

variable [DecidableEq ι]

/-- The bytes that the allocators on a slab cache gave out. -/
def lentBy (lender : ι → Option ι) (live : List (AsanObject (AsanOwner ι))) (c : ι) : Nat :=
  ((live.filter fun o => o.owner.lender lender = some c).map (·.size)).sum

/-- The quota between the lessors and the others. -/
structure AsanLeases [Fintype ι] (quota : ι → Option QuotaLessor) (lender : ι → Option ι)
    (source others : Nat) (live : List (AsanObject (AsanOwner ι))) : Prop where
  lenders : ∀ a c, lender a = some c → ∃ lessor, quota c = some lessor
  lessor : ∀ c lessor, quota c = some lessor → lessor.Holds (lentBy lender live c)
  held : ∑ c, (quota c).elim 0 (·.used) + others * quotaUnitSize = quotaUsed source

theorem lentBy_cons (lender : ι → Option ι) (c : ι) :
    lentBy lender (o :: live) c = (if o.owner.lender lender = some c then o.size else 0) +
      lentBy lender live c := by
  by_cases ho : o.owner.lender lender = some c <;> simp [lentBy, ho]

theorem lentBy_perm (lender : ι → Option ι) (c : ι) (hp : live.Perm live') :
    lentBy lender live c = lentBy lender live' c :=
  ((hp.filter _).map _).sum_eq

theorem lentBy_eq_zero {lender : ι → Option ι} {c : ι} (hnone : ∀ a, lender a ≠ some c) :
    lentBy lender live c = 0 := by
  have hnil : live.filter (fun o => o.owner.lender lender = some c) = [] := by
    rw [List.filter_eq_nil_iff]
    intro o _ ho
    obtain ⟨w, block, payload, size, alignment, headerSize⟩ := o
    cases w with
    | small a => exact hnone a (of_decide_eq_true ho)
    | _ => simp [AsanOwner.lender] at ho
  rw [lentBy, hnil]
  rfl

theorem lentBy_update {lender : ι → Option ι} {a : ι} (r : Option ι) (c : ι)
    (hnone : ∀ o ∈ live, o.owner ≠ .small a) :
    lentBy (Function.update lender a r) live c = lentBy lender live c := by
  have hfilter : live.filter (fun o => o.owner.lender (Function.update lender a r) = some c) =
      live.filter (fun o => o.owner.lender lender = some c) := by
    refine List.filter_congr fun o ho => ?_
    have hne := hnone o ho
    obtain ⟨w, block, payload, size, alignment, headerSize⟩ := o
    cases w with
    | small b =>
        have hb : b ≠ a := fun heq => hne (congrArg AsanOwner.small heq)
        show decide (Function.update lender a r b = some c) = decide (lender b = some c)
        rw [Function.update_of_ne hb]
    | _ => rfl
  rw [lentBy, lentBy, hfilter]

section Lessors

variable [Fintype ι] {quota : ι → Option QuotaLessor} {lender : ι → Option ι}
    {source others : Nat} {c : ι}
  {lessor lessor' : QuotaLessor}

/-- What one lessor has is a part of what is in use. -/
theorem AsanLeases.used_le (hl : AsanLeases quota lender source others live)
    (hq : quota c = some lessor) :
    lessor.used ≤ quotaUsed source := by
  have hle : (quota c).elim 0 (·.used) ≤ ∑ c, (quota c).elim 0 (·.used) :=
    Finset.single_le_sum (f := fun c => (quota c).elim 0 (·.used)) (fun _ _ => Nat.zero_le _)
      (Finset.mem_univ c)
  have hheld := hl.held
  rw [hq] at hle
  have hle : lessor.used ≤ ∑ c, (quota c).elim 0 (·.used) := hle
  omega

/-- One lessor, with everybody else among its others. -/
theorem AsanLeases.inv (hl : AsanLeases quota lender source others live)
    (hq : quota c = some lessor) :
    LessorState.Inv ⟨source, lessor, usedInUnits source - lessor.used / quotaUnitSize,
      lentBy lender live c⟩ := by
  obtain ⟨hleased, hle, hunits, havailable⟩ := hl.lessor c lessor hq
  have hused := hl.used_le hq
  refine .intro hleased hle hunits ?_ havailable
  simp only [quotaUsed, quotaUnitSize] at hused hunits ⊢
  omega

/-- A step of one lessor. -/
theorem AsanLeases.step (hl : AsanLeases quota lender source others live)
    (hq : quota c = some lessor) {source' : Nat} (hlessor : lessor'.Holds (lentBy lender live' c))
    (hheld : quotaUsed source' + lessor.used = quotaUsed source + lessor'.used)
    (hlent : ∀ b, b ≠ c → lentBy lender live' b = lentBy lender live b) :
    AsanLeases (Function.update quota c (some lessor')) lender source' others live' := by
  constructor
  case lenders =>
    intro a b hb
    by_cases heq : b = c
    · exact ⟨lessor', by rw [heq, Function.update_self]⟩
    · rw [Function.update_of_ne heq]
      exact hl.lenders a b hb
  case lessor =>
    intro b lessor₁ hb
    by_cases heq : b = c
    · rw [heq, Function.update_self] at hb
      exact heq ▸ Option.some.inj hb ▸ hlessor
    · rw [Function.update_of_ne heq] at hb
      exact hlent b heq ▸ hl.lessor b lessor₁ hb
  case held =>
    have hsum := sum_of_others (fun b => (quota b).elim 0 (·.used))
      (fun b => (Function.update quota c (some lessor') b).elim 0 (·.used))
      fun b (hb : b ≠ c) => by rw [Function.update_of_ne hb]
    simp only [Function.update_self, hq, Option.elim_some] at hsum
    have hheld' := hl.held
    omega

/-- The lease for a new object. One that fails changes nothing. -/
theorem AsanLeases.lease (hl : AsanLeases quota lender source others live)
    (hq : quota c = some lessor) {size : Nat} (hsize : size < 2 ^ 63)
    (hfits : lessor.used < lessor.leased + size → SumFits source (leaseRequest lessor size)) :
    quotaLease lessor source size = some (none, lessor, source) ∨
      ∃ lessor' source', quotaLease lessor source size = some (some size, lessor', source') ∧
        ∀ o : AsanObject (AsanOwner ι), o.owner.lender lender = some c → o.size = size →
          AsanLeases (Function.update quota c (some lessor')) lender source' others
            (o :: live) := by
  obtain ⟨hleased, -, hunits, -⟩ := hl.lessor c lessor hq
  have hallowed : (LessorOp.lease size).Allowed
      ⟨source, lessor, usedInUnits source - lessor.used / quotaUnitSize, lentBy lender live c⟩ :=
      ⟨hsize, hfits⟩
  rcases quotaLease_spec (hl.inv hq) hallowed with hfail
    | ⟨taken, source', hlease, htaken, hused, hle, hlt⟩
  · exact .inl hfail
  · dsimp only at hlease htaken hused hle hlt
    refine .inr ⟨_, source', hlease, fun o howner hosize =>
      hl.step hq ⟨?_, hle, ?_, hlt⟩ ?_ fun b hb => ?_⟩
    · rw [lentBy_cons, if_pos howner]
      dsimp only
      omega
    · rw [Nat.add_mod, hunits, htaken]
      rfl
    · dsimp only
      omega
    · rw [lentBy_cons, howner, if_neg fun heq => hb (Option.some.inj heq).symm, Nat.zero_add]

/-- The end of the lease of an object. -/
theorem AsanLeases.endLease (hl : AsanLeases quota lender source others live)
    (hq : quota c = some lessor) (ho : o ∈ live) (howner : o.owner.lender lender = some c) :
    ∃ lessor' source', quotaEndLease lessor source o.size = some (o.size, lessor', source') ∧
      AsanLeases (Function.update quota c (some lessor')) lender source' others (live.erase o) := by
  obtain ⟨hleased, -, hunits, -⟩ := hl.lessor c lessor hq
  have hlent : ∀ b, lentBy lender live b = (if some c = some b then o.size else 0) + lentBy lender
      (live.erase o) b := by
    intro b
    rw [lentBy_perm lender b (List.perm_cons_erase ho), lentBy_cons, howner]
  have hsize : o.size ≤ lessor.leased := by
    rw [hleased, hlent c, if_pos rfl]
    exact Nat.le_add_right _ _
  obtain ⟨released, source', hend, hreleased, hused, hle, hlt⟩ :=
    quotaEndLease_spec (hl.inv hq) hsize
  dsimp only at hend hused hle hlt
  refine ⟨_, source', hend, hl.step hq ⟨?_, ?_, ?_, ?_⟩ ?_ fun b hb => ?_⟩
  · rw [hlent c, if_pos rfl] at hleased
    dsimp only
    omega
  · dsimp only
    omega
  · exact Nat.sub_mod_eq_zero_of_mod_eq (hunits.trans hreleased.symm)
  · dsimp only
    omega
  · dsimp only
    omega
  · rw [hlent b, if_neg fun heq => hb (Option.some.inj heq).symm, Nat.zero_add]

/-- What is not a small object is not on lease. -/
theorem AsanLeases.give (hl : AsanLeases quota lender source others live) (ho : ¬o.owner.IsSmall) :
    AsanLeases quota lender source others (o :: live) := by
  have hlent : ∀ c, lentBy lender (o :: live) c = lentBy lender live c := by
    intro c
    rw [lentBy_cons, AsanOwner.lender_eq_none ho, if_neg fun heq => (by cases heq), Nat.zero_add]
  exact ⟨hl.lenders, fun c lessor hq => hlent c ▸ hl.lessor c lessor hq, hl.held⟩

theorem AsanLeases.take (hl : AsanLeases quota lender source others live) (ho : o ∈ live)
    (hsmall : ¬o.owner.IsSmall) :
    AsanLeases quota lender source others (live.erase o) := by
  have hlent : ∀ c, lentBy lender live c = lentBy lender (live.erase o) c := by
    intro c
    rw [lentBy_perm lender c (List.perm_cons_erase ho), lentBy_cons,
      AsanOwner.lender_eq_none hsmall, if_neg fun heq => (by cases heq), Nat.zero_add]
  exact ⟨hl.lenders, fun c lessor hq => hlent c ▸ hl.lessor c lessor hq, hl.held⟩

/-- A lessor that was just created has nothing. -/
theorem AsanLeases.create (hl : AsanLeases quota lender source others live) (hq : quota c = none) :
    AsanLeases (Function.update quota c (some { used := 0, leased := 0 })) lender source others
      live := by
  have hnobody : ∀ a, lender a ≠ some c := by
    intro a ha
    obtain ⟨lessor, hsome⟩ := hl.lenders a c ha
    rw [hq] at hsome
    cases hsome
  constructor
  case lenders =>
    intro a b hb
    have hne : b ≠ c := fun heq => hnobody a (heq ▸ hb)
    rw [Function.update_of_ne hne]
    exact hl.lenders a b hb
  case lessor =>
    intro b lessor₁ hb
    by_cases heq : b = c
    · rw [heq, Function.update_self, Option.some.injEq] at hb
      rw [heq, lentBy_eq_zero hnobody, ← hb]
      exact ⟨rfl, le_refl 0, rfl, by decide⟩
    · rw [Function.update_of_ne heq] at hb
      exact hl.lessor b lessor₁ hb
  case held =>
    have hsum := sum_of_others (fun b => (quota b).elim 0 (·.used))
      (fun b => (Function.update quota c (some { used := 0, leased := 0 }) b).elim 0 (·.used))
      fun b (hb : b ≠ c) => by rw [Function.update_of_ne hb]
    simp only [Function.update_self, hq, Option.elim_some, Option.elim_none] at hsum
    have hheld := hl.held
    omega

/-- A lessor that is destroyed gives back what it has, unless that is `QUOTA_MAX`. -/
theorem AsanLeases.destroy (hl : AsanLeases quota lender source others live)
    (hq : quota c = some lessor) (hnobody : ∀ a, lender a ≠ some c) :
    (lessor.used = quotaMax ∧ quotaLessorDestroy lessor source = none) ∨
      (lessor.used ≠ quotaMax ∧ ∃ r source', quotaLessorDestroy lessor source = some (r, source') ∧
        AsanLeases (Function.update quota c none) lender source' others live) := by
  by_cases hmax : lessor.used = quotaMax
  · exact .inl ⟨hmax, quotaLessorDestroy_asserts
      (s := ⟨source, lessor, usedInUnits source - lessor.used / quotaUnitSize,
        lentBy lender live c⟩) hmax⟩
  obtain ⟨source', hdestroy, hused, -⟩ := quotaLessorDestroy_spec (hl.inv hq) hmax
  dsimp only at hdestroy hused
  refine .inr ⟨hmax, _, source', hdestroy, ?_⟩
  constructor
  case lenders =>
    intro a b hb
    have hne : b ≠ c := fun heq => hnobody a (heq ▸ hb)
    rw [Function.update_of_ne hne]
    exact hl.lenders a b hb
  case lessor =>
    intro b lessor₁ hb
    by_cases heq : b = c
    · rw [heq, Function.update_self] at hb
      cases hb
    · rw [Function.update_of_ne heq] at hb
      exact hl.lessor b lessor₁ hb
  case held =>
    have hsum := sum_of_others (fun b => (quota b).elim 0 (·.used))
      (fun b => (Function.update quota c none b).elim 0 (·.used)) fun b (hb : b ≠ c) => by
      rw [Function.update_of_ne hb]
    simp only [Function.update_self, hq, Option.elim_some, Option.elim_none] at hsum
    have hheld := hl.held
    omega

/-- An allocator of small objects is created or destroyed; none of its objects is in use. -/
theorem AsanLeases.setLender {a : ι} {r : Option ι}
    (hl : AsanLeases quota lender source others live) (hnone : ∀ o ∈ live, o.owner ≠ .small a)
    (hr : ∀ c, r = some c → ∃ lessor, quota c = some lessor) :
    AsanLeases quota (Function.update lender a r) source others live := by
  constructor
  case lenders =>
    intro b c hb
    by_cases heq : b = a
    · rw [heq, Function.update_self] at hb
      exact hr c hb
    · rw [Function.update_of_ne heq] at hb
      exact hl.lenders b c hb
  case lessor =>
    intro c lessor hq
    rw [lentBy_update r c hnone]
    exact hl.lessor c lessor hq
  case held => exact hl.held

/-- The others use the source, release what they have of it or resize it. -/
theorem AsanLeases.other (hl : AsanLeases quota lender source others live) {op : QuotaOp}
    {source' : Nat} (heffect : op.Effect source source') (hclient : op.Client others) :
    AsanLeases quota lender source' (op.settle others) live := by
  have hunits : (∑ c, (quota c).elim 0 (·.used)) % quotaUnitSize = 0 := by
    refine Nat.mod_eq_zero_of_dvd (Finset.dvd_sum fun c _ => ?_)
    cases hq : quota c with
    | none => exact dvd_zero _
    | some lessor => exact Nat.dvd_of_mod_eq_zero (hl.lessor c lessor hq).units
  -- all lessors together are one lessor that has everything on lease
  have hall : LessorState.Inv ⟨source,
      ⟨∑ c, (quota c).elim 0 (·.used), ∑ c, (quota c).elim 0 (·.used)⟩, others,
      ∑ c, (quota c).elim 0 (·.used)⟩ :=
    .intro rfl (le_refl _) hunits hl.held (Nat.lt_add_of_pos_right (by decide))
  exact ⟨hl.lenders, hl.lessor, (hall.other heffect hclient).held⟩

end Lessors

end Leases

end SmallAllocators
