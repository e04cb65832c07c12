/-
SmallAllocators.Mempool.Ops — what `mempool_alloc`, `mempool_free` and
`mempool_free_spare_slab` do to a pool.

Each keeps the invariant. `Frame` says that the headers and the links of
slabs that are not the pool's are what they were.
-/
import SmallAllocators.Mempool.Lists
import SmallAllocators.Mempool.Slabs

namespace SmallAllocators

open Memory

variable {g : Geometry} {h : MslabHeap} {p : Mempool} {live cold : List Nat} {a : Nat}

/-- Only the list head of the pool `id` and the headers of the slabs `own` are not the same. -/
structure MslabHeap.Frame (id : Nat) (own : List Nat) (h h' : MslabHeap) : Prop where
  slab : ∀ b ∉ own, h'.mslab b = h.mslab b
  slabLinks : ∀ b ∉ own, h.nextInCold.SameAt h'.nextInCold (.slab b)
  headLinks : ∀ j ≠ id, h.nextInCold.SameAt h'.nextInCold (.head j)

theorem MslabHeap.Frame.trans {id : Nat} {own : List Nat} {h₁ h₂ h₃ : MslabHeap}
    (h : Frame id own h₁ h₂) (h' : Frame id own h₂ h₃) : Frame id own h₁ h₃ :=
  ⟨fun b hb => (h'.slab b hb).trans (h.slab b hb),
    fun b hb => ⟨(h'.slabLinks b hb).1.trans (h.slabLinks b hb).1,
    (h'.slabLinks b hb).2.trans (h.slabLinks b hb).2⟩,
    fun j hj => ⟨(h'.headLinks j hj).1.trans (h.headLinks j hj).1,
    (h'.headLinks j hj).2.trans (h.headLinks j hj).2⟩⟩

/-- A change of the header of one slab. -/
theorem MslabHeap.Frame.of_slab {id : Nat} {own : List Nat} {h h' : MslabHeap} (ha : a ∈ own)
    (hslab : ∀ b ≠ a, h'.mslab b = h.mslab b) (hlinks : h'.nextInCold = h.nextInCold) :
    Frame id own h h' := by
  refine ⟨fun b hb => hslab b fun he => hb (he ▸ ha), fun b hb => ?_, fun j hj => ?_⟩
  · rw [hlinks]
    exact ⟨rfl, rfl⟩
  · rw [hlinks]
    exact ⟨rfl, rfl⟩

theorem MslabHeap.Frame.of_links {h h' : MslabHeap} (hslab : h'.mslab = h.mslab)
    (hlinks : ∀ y, ¬ p.Owns y → h.nextInCold.SameAt h'.nextInCold y) : Frame p.id p.slabs h h' :=
  ⟨fun b _ => by rw [hslab], fun b hb => hlinks (.slab b) hb, fun j hj => hlinks (.head j) hj⟩

theorem SlabOk.nfree_le {m : Nat} {ks : List Nat} (hs : SlabOk g h p live a m ks) :
    (h.mslab a).nfree ≤ p.objcount := by
  have hsub : ks.Subperm (List.range m) :=
    List.subperm_of_subset hs.nodup fun x hx => List.mem_range.2 (hs.lt x hx)
  have hlen := hsub.length_le
  rw [List.length_range] at hlen
  have hnfree := hs.nfree
  have hused := hs.used
  omega

theorem Contents.pos (hc : Contents g h p live) : ∀ b ∈ p.slabs, 0 < b :=
  fun b hb => (hc.place b hb).1

/-- The status of a slab does not depend on what happens to other slabs. -/
theorem Status.congr {h' : MslabHeap} {p' : Mempool} {cold' : List Nat} (hs : Status h p cold a)
    (hnfree : (h'.mslab a).nfree = (h.mslab a).nfree) (hcount : p'.objcount = p.objcount)
    (hhot : a ∈ p'.hotSlabs ↔ a ∈ p.hotSlabs) (hcold : a ∈ cold' ↔ a ∈ cold)
    (hspare : a = p'.spare ↔ a = p.spare) : Status h' p' cold' a := by
  constructor
  case ofHot => rw [hnfree, hcount, hhot]; exact hs.ofHot
  case ofCold => rw [hnfree, hcount, hcold]; exact hs.ofCold
  case ofSpare => rw [hnfree, hcount, hspare]; exact hs.ofSpare
  case ofFull => rw [hnfree, hhot, hcold, ne_eq, hspare]; exact hs.ofFull

/-! ## `mempool_alloc` -/

/-- An object is taken from a hot slab. -/
theorem mempoolTake_spec (hc : Contents g h p live) (hl : Lists h p cold) (ha : a ∈ p.hotSlabs)
    (hn : 0 < (h.mslab a).nfree) (hst : ∀ b ∈ p.slabs, b ≠ a → Status h p cold b) :
    ∃ k h' p', k < p.objcount ∧ mempoolTake h p a = some (p.slot a k, h', p') ∧ p.slot a k ∉ live ∧
      p'.Inv g h' (p.slot a k :: live) cold ∧ p'.slabs = p.slabs ∧ p.SameConfig p' ∧
      h'.mem = h.mem ∧
      h.Frame p.id p.slabs h' := by
  have has := hl.hotMem a ha
  obtain ⟨m, ks, hs⟩ := hc.slab a has
  have hle := hs.nfree_le
  obtain ⟨k, hk, hptr, hnew, hc'⟩ := mslabTake_spec hc has hn
  have hspare : a ≠ p.spare := fun he => (hl.spare (he ▸ (hc.pos a has).ne')).2 (he ▸ ha)
  have hcold : a ∉ cold := fun hm => (hl.coldMem a hm).2.1 ha
  have hpos := (hc.slot_pos has hk).1
  have hl' : Lists (mslabTake h p a).2 (p.setUsed (p.stats.used + p.objsize)) cold :=
    { hl.congr (fun _ _ => mslabTake_inHotSlabs h p a _) (fun _ _ => by simp [Links.SameAt])
        (by simp [Links.SameAt]) with }
  have htake : mslabTake h (p.setUsed (p.stats.used + p.objsize)) a = mslabTake h p a := rfl
  have hframe : h.Frame p.id p.slabs (mslabTake h p a).2 :=
    .of_slab has (fun b hb => mslabTake_ne h p hb) (mslabTake_nextInCold h p a)
  by_cases hzero : (h.mslab a).nfree = 1
  · obtain ⟨first, hrem, hl''⟩ := removeHot_spec hl' ha
    have hnodup : p.hotSlabs.Nodup := hl.hotSorted.imp fun h => Nat.ne_of_lt h
    have hzero' : ((mslabTake h p a).2.mslab a).nfree = 0 := by rw [mslabTake_nfree, hzero]
    refine ⟨k, _, _, hk, ?_, hnew, ⟨?_, hl'', fun b hb => ?_⟩, rfl, ⟨rfl, rfl, rfl, rfl, rfl, rfl⟩,
      mslabTake_mem h p a,
      hframe.trans (.of_slab has (fun b hb => MslabHeap.setHotFlag_ne _ _ hb) rfl)⟩
    · simp [mempoolTake, mslabAlloc, htake, hzero', hrem, hptr, hpos.ne', hn.ne']
    · exact hc'.congr ⟨rfl, rfl, rfl, rfl, rfl, rfl⟩ rfl rfl
        (fun b _ => MslabHeap.setHotFlag_sameObjects _ a b false) (fun _ _ _ _ _ => rfl)
    · by_cases hba : b = a
      · subst hba
        constructor
        case ofHot => exact fun hm => absurd rfl (hnodup.mem_erase_iff.1 hm).1
        case ofCold => exact fun hm => absurd hm hcold
        case ofSpare => exact fun he => absurd he hspare
        case ofFull =>
          intro _ _ _
          rw [MslabHeap.setHotFlag_nfree]
          exact hzero'
      · have hnf :
            (((mslabTake h p a).2.setHotFlag a false).mslab b).nfree = (h.mslab b).nfree := by
          rw [MslabHeap.setHotFlag_nfree, mslabTake_ne h p hba]
        exact (hst b hb hba).congr hnf rfl (List.mem_erase_of_ne hba) Iff.rfl Iff.rfl
  · have hne : ((mslabTake h p a).2.mslab a).nfree ≠ 0 := by rw [mslabTake_nfree]; omega
    refine ⟨k, _, _, hk, ?_, hnew, ⟨hc', hl', fun b hb => ?_⟩, rfl, ⟨rfl, rfl, rfl, rfl, rfl, rfl⟩,
      mslabTake_mem h p a, hframe⟩
    · simp [mempoolTake, mslabAlloc, htake, hne, hptr, hpos.ne', hn.ne']
    · by_cases hba : b = a
      · subst hba
        have hnf := mslabTake_nfree h p b
        constructor
        case ofHot =>
          intro _
          rw [hnf]
          refine ⟨by omega, Or.inl ?_⟩
          change _ < p.objcount
          omega
        case ofCold => exact fun hm => absurd hm hcold
        case ofSpare => exact fun he => absurd he hspare
        case ofFull => exact fun hm => absurd ha hm
      · exact (hst b hb hba).congr (by rw [mslabTake_ne h p hba]) rfl Iff.rfl Iff.rfl Iff.rfl

/-- What `mempool_alloc` may get from the cache: nothing, or a slab that is not the pool's. -/
def Mempool.Answers (g : Geometry) (p : Mempool) (answer : Option Nat) : Prop :=
  ∀ a, answer = some a → p.Fresh g a

/-- The slab that `mempool_alloc` finds when no slab is hot: it is on no list, and has a free
object. -/
structure FoundSlab (g : Geometry) (h : MslabHeap) (p : Mempool) (live : List Nat)
    (answer : Option Nat) (a : Nat) (h' : MslabHeap) (p' : Mempool) (cold' : List Nat) :
    Prop where
  contents : Contents g h' p' live
  lists : Lists h' p' cold'
  mem : a ∈ p'.slabs
  hot : p'.hotSlabs = p.hotSlabs
  cold : a ∉ cold'
  spare : a ≠ p'.spare
  nfree : 0 < (h'.mslab a).nfree
  status : ∀ b ∈ p'.slabs, b ≠ a → Status h' p' cold' b
  slabs : p'.slabs = p.slabs ∨ answer = some a ∧ p'.slabs = a :: p.slabs
  sameConfig : p.SameConfig p'
  sameMem : h'.mem = h.mem
  frame : h.Frame p.id p'.slabs h'

theorem mempoolSlab_spec {answer : Option Nat} (hi : p.Inv g h live cold)
    (hanswer : p.Answers g answer) (hhot : p.hotSlabs = []) :
    (mempoolSlab g h p answer = none ∧ answer = none ∧ ∀ a ∈ p.slabs, (h.mslab a).nfree = 0) ∨
    ∃ a h' p' cold', mempoolSlab g h p answer = some (a, h', p') ∧
    FoundSlab g h p live answer a h' p' cold' := by
  obtain ⟨hc, hl, hst⟩ := hi
  unfold mempoolSlab
  by_cases hspare : p.spare = 0
  · rw [if_neg (by simpa using hspare)]
    cases answer with
    | some a =>
        have hf := hanswer a rfl
        have hself := mslabCreate_self g h a p
        obtain ⟨hl', hsame⟩ := hl.listAdd (g := g) hf.absent
        right
        refine ⟨a, _, _, cold, rfl, mslabCreate_spec hc hf, hl', List.mem_cons_self, rfl,
          fun hm => hf.absent (hl.coldMem a hm).1, ?_, ?_, fun b hb hba => ?_, Or.inr ⟨rfl, rfl⟩,
          ⟨rfl, rfl, rfl, rfl, rfl, rfl⟩, rfl,
          ⟨fun b hb => ?_, fun b hb => ?_, fun j hj => hsame _ (by simp)⟩⟩
        · change a ≠ p.spare
          rw [hspare]
          exact hf.pos.ne'
        · rw [hself]
          exact hc.config.objcount
        · have hb' : b ∈ p.slabs := by simpa [Mempool.listAdd, hba] using hb
          exact (hst b hb').congr (by rw [mslabCreate_ne g h p hba]) rfl Iff.rfl Iff.rfl Iff.rfl
        · exact mslabCreate_ne g h p fun he => hb (by simp [Mempool.listAdd, he])
        · exact hsame _ fun he => hb (by simp [Mempool.listAdd, ColdNode.slab.inj he])
    | none =>
        have hempty := rlistEmpty_iff hl.ring
        cases cold with
        | nil =>
            left
            refine ⟨by simp [hempty.2 rfl], rfl, fun a ha => (hst a ha).ofFull ?_ ?_ ?_⟩
            · simp [hhot]
            · simp
            · rw [hspare]
              exact (hc.pos a ha).ne'
        | cons a cold =>
            right
            have hne : ¬ rlistEmpty h.nextInCold (.head p.id) = true :=
              fun he => by simp [hempty] at he
            have hshift := rlistShift_eq hl.ring
            obtain ⟨hmem, hnothot, hnotspare⟩ := hl.coldMem a List.mem_cons_self
            obtain ⟨hl', -, hsame⟩ := coldDel_spec hl hmem
            rw [List.erase_cons_head] at hl'
            have hnodup : (a :: cold).Nodup := List.Nodup.of_map _ hl.ring.nodup_tail
            refine ⟨a, _, p, cold, ?_, ?_, hl', hmem, rfl, (List.nodup_cons.1 hnodup).1, hnotspare,
              ((hst a hmem).ofCold List.mem_cons_self).1, fun b hb hba => ?_, Or.inl rfl,
              .refl p, rfl, .of_links rfl hsame⟩
            · rw [if_neg hne]
              simp only [hshift]
            · exact hc.congr (.refl p) rfl rfl (fun _ _ => .refl _) (fun _ _ _ _ _ => rfl)
            · exact (hst b hb).congr rfl rfl Iff.rfl (by simp [hba]) Iff.rfl
  · right
    obtain ⟨hmem, hnothot⟩ := hl.spare hspare
    have hnotcold : p.spare ∉ cold := fun hm => (hl.coldMem _ hm).2.2 rfl
    refine ⟨p.spare, h, p.setSpare 0, cold, by simp [hspare], ?_, hl.clearSpare hc.pos, hmem, rfl,
      hnotcold, hspare, ?_,
      fun b hb hba => ?_, Or.inl rfl, ⟨rfl, rfl, rfl, rfl, rfl, rfl⟩, rfl,
      .of_slab hmem (fun _ _ => rfl) rfl⟩
    · exact hc.congr ⟨rfl, rfl, rfl, rfl, rfl, rfl⟩ rfl rfl (fun _ _ => .refl _)
        (fun _ _ _ _ _ => rfl)
    · rw [(hst _ hmem).ofSpare rfl]
      exact hc.config.objcount
    · refine (hst b hb).congr rfl rfl Iff.rfl Iff.rfl ⟨fun he => ?_, fun he => absurd he hba⟩
      exact absurd he (hc.pos b hb).ne'

/-- What `mempool_alloc` does: it returns `NULL` when all slabs are full and the cache has none,
and else an object that was not live. -/
theorem mempoolAlloc_spec {answer : Option Nat} (hi : p.Inv g h live cold)
    (hanswer : p.Answers g answer) :
    (mempoolAlloc g h p answer = some (0, h, p) ∧ answer = none ∧ ∀ a ∈ p.slabs,
        (h.mslab a).nfree = 0) ∨
    ∃ a k h' p' cold', mempoolAlloc g h p answer = some (p.slot a k, h', p') ∧ a ∈ p'.slabs ∧
    k < p.objcount ∧
      p.slot a k ∉ live ∧ p'.Inv g h' (p.slot a k :: live) cold' ∧
      (p'.slabs = p.slabs ∨ answer = some a ∧ p'.slabs = a :: p.slabs) ∧ p.SameConfig p' ∧
      h'.mem = h.mem ∧
      h.Frame p.id p'.slabs h' := by
  obtain ⟨hc, hl, hst⟩ := hi
  unfold mempoolAlloc
  by_cases hfirst : p.firstHotSlab = 0
  · have hhot : p.hotSlabs = [] := by
      cases hcase : p.hotSlabs with
      | nil => rfl
      | cons b tree =>
          have hf := hl.first
          rw [hcase] at hf
          have hb := hc.pos b (hl.hotMem b (by rw [hcase]; exact List.mem_cons_self))
          simp only [List.headD_cons] at hf
          omega
    rw [if_neg (by simpa using hfirst)]
    rcases mempoolSlab_spec ⟨hc, hl, hst⟩ hanswer hhot with ⟨hnone, hans, hfull⟩
      | ⟨a, h₁, p₁, cold₁, hsome, hfound⟩
    · left
      exact ⟨by simp only [hnone], hans, hfull⟩
    · right
      have hnothot : a ∉ p₁.hotSlabs := by simp [hfound.hot, hhot]
      obtain ⟨hot, hins, hmem, hhead, hl₂⟩ :=
        insertHot_spec hfound.lists hfound.contents.pos hfound.mem hnothot
        hfound.cold hfound.spare
      have hfirst₁ : p₁.firstHotSlab = 0 := by rw [hfound.lists.first, hfound.hot, hhot]; rfl
      rw [hfirst₁, if_pos (Or.inl rfl)] at hhead
      rw [hhead] at hl₂
      have hflag : (h₁.mslab a).inHotSlabs = false := by
        rw [hfound.lists.hotFlag a hfound.mem]; simp [hnothot]
      have hc₂ : Contents g (h₁.setHotFlag a true) (p₁.setHot hot a) live :=
        hfound.contents.congr ⟨rfl, rfl, rfl, rfl, rfl, rfl⟩ rfl rfl
          (fun b _ => MslabHeap.setHotFlag_sameObjects _ a b true) (fun _ _ _ _ _ => rfl)
      obtain ⟨k, h₃, p₃, hk, htake, hnew, hinv, hslabs, hsame, hmem₃, hframe⟩ :=
        mempoolTake_spec hc₂ hl₂ ((hmem a).2 (Or.inl rfl))
          (by rw [MslabHeap.setHotFlag_nfree]; exact hfound.nfree)
          (fun b hb hba => (hfound.status b hb hba).congr (h₁.setHotFlag_nfree true a b) rfl
            (by simp [Mempool.setHot, hmem, hba])
            Iff.rfl Iff.rfl)
      have hslot : (p₁.setHot hot a).slot a k = p.slot a k := hfound.sameConfig.slot a k
      rw [hslot] at htake hnew hinv
      have hslabs' : p₃.slabs = p₁.slabs := hslabs
      have hsame₂ : p₁.SameConfig (p₁.setHot hot a) := ⟨rfl, rfl, rfl, rfl, rfl, rfl⟩
      refine ⟨a, k, h₃, p₃, cold₁, ?_, hslabs'.symm ▸ hfound.mem, hfound.sameConfig.objcount ▸ hk,
        hnew, hinv, ?_, hfound.sameConfig.trans (hsame₂.trans hsame),
        hmem₃.trans hfound.sameMem, ?_⟩
      · simp only [hsome, hflag, hins]
        simpa [Mempool.setHot] using htake
      · rw [hslabs']
        exact hfound.slabs
      · rw [hslabs']
        refine hfound.frame.trans ?_
        have hframe' : (h₁.setHotFlag a true).Frame p₁.id p₁.slabs h₃ := hframe
        rw [hfound.sameConfig.id] at hframe'
        exact MslabHeap.Frame.trans
          (.of_slab hfound.mem (fun b hb => h₁.setHotFlag_ne true hb) rfl) hframe'
  · right
    have hmem : p.firstHotSlab ∈ p.hotSlabs := by
      have hf := hl.first
      cases hcase : p.hotSlabs with
      | nil =>
          rw [hcase] at hf
          exact absurd hf hfirst
      | cons b tree =>
          rw [hcase] at hf
          rw [hf]
          exact List.mem_cons_self
    have hslab := hl.hotMem _ hmem
    obtain ⟨k, h', p', hk, htake, hnew, hinv, hslabs, hsame, hmem', hframe⟩ :=
      mempoolTake_spec hc hl hmem ((hst _ hslab).ofHot hmem).1 fun b hb _ => hst b hb
    refine ⟨p.firstHotSlab, k, h', p', cold, ?_, hslabs ▸ hslab, hk, hnew, hinv, Or.inl hslabs,
      hsame, hmem', hslabs ▸ hframe⟩
    rw [if_pos hfirst]
    exact htake

/-! ## `mempool_free` -/

/-- `mempool_free_spare_slab`. -/
theorem mempoolFreeSpareSlab_spec (hi : p.Inv g h live cold) (hspare : p.spare ≠ 0) :
    mempoolFreeSpareSlab h p = some ((p.listDel h p.spare).setSpare 0) ∧
      ((p.listDel h p.spare).setSpare 0).Inv g h live cold := by
  obtain ⟨hc, hl, hst⟩ := hi
  obtain ⟨hmem, hnothot⟩ := hl.spare hspare
  have hnotcold : p.spare ∉ cold := fun hm => (hl.coldMem _ hm).2.2 rfl
  have hsame : p.SameConfig ((p.listDel h p.spare).setSpare 0) := ⟨rfl, rfl, rfl, rfl, rfl, rfl⟩
  have hdel := listDel_spec hc hmem ((hst _ hmem).ofSpare rfl)
  refine ⟨by simp [mempoolFreeSpareSlab, hspare],
    hdel.congr ⟨rfl, rfl, rfl, rfl, rfl, rfl⟩ rfl rfl (fun _ _ => .refl _)
    (fun _ _ _ _ _ => rfl), ?_, fun b hb => ?_⟩
  · exact (hl.clearSpare hc.pos).listDel hnothot hnotcold hspare
  · have hb' := hc.nodup.mem_erase_iff.1 hb
    refine (hst b hb'.2).congr rfl rfl Iff.rfl Iff.rfl ⟨fun he => ?_, fun he => absurd he hb'.1⟩
    exact absurd he (hc.pos b hb'.2).ne'

/-- A slab that is on no list, and has only free objects, becomes the spare slab or goes back to
the cache. -/
theorem retireSlab_spec (hc : Contents g h p live) (hl : Lists h p cold) (ha : a ∈ p.slabs)
    (hhot : a ∉ p.hotSlabs) (hcold : a ∉ cold) (hspare : a ≠ p.spare)
    (hn : (h.mslab a).nfree = p.objcount) (hst : ∀ b ∈ p.slabs, b ≠ a → Status h p cold b) :
    ∃ p', retireSlab h p a = some p' ∧ p'.Inv g h live cold ∧ (∀ b ∈ p'.slabs, b ∈ p.slabs) ∧
      p.SameConfig p' := by
  have hpos := hc.pos
  -- the status of the slab when it is the spare one
  have hstatus : ∀ q : Mempool, q.hotSlabs = p.hotSlabs → q.objcount = p.objcount →
      Status h (q.setSpare a) cold a := by
    intro q hq hcount
    constructor
    case ofHot => exact fun hm => absurd (hq ▸ hm : a ∈ p.hotSlabs) hhot
    case ofCold => exact fun hm => absurd hm hcold
    case ofSpare => exact fun _ => hn.trans hcount.symm
    case ofFull => exact fun _ _ hne => absurd rfl hne
  unfold retireSlab
  by_cases hgt : p.spare > a
  · have hne : p.spare ≠ 0 := by omega
    obtain ⟨hmem, hnothot⟩ := hl.spare hne
    have hnotcold : p.spare ∉ cold := fun hm => (hl.coldMem _ hm).2.2 rfl
    have hdel := listDel_spec hc hmem ((hst _ hmem (Ne.symm hspare)).ofSpare rfl)
    have hl' := ((hl.clearSpare hpos).listDel hnothot hnotcold hne).setSpare
      ((List.mem_erase_of_ne hspare).2 ha) hhot hcold
    refine ⟨((p.listDel h p.spare).setSpare 0).setSpare a, by
      simp [hgt, mempoolFreeSpareSlab, hne], ⟨?_, hl', ?_⟩,
      fun b hb => List.mem_of_mem_erase hb, ⟨rfl, rfl, rfl, rfl, rfl, rfl⟩⟩
    · exact hdel.congr ⟨rfl, rfl, rfl, rfl, rfl, rfl⟩ rfl rfl (fun _ _ => .refl _)
        (fun _ _ _ _ _ => rfl)
    · intro b hb
      have hb' := hc.nodup.mem_erase_iff.1 hb
      by_cases hba : b = a
      · subst hba
        exact hstatus _ rfl rfl
      · refine (hst b hb'.2 hba).congr rfl rfl Iff.rfl Iff.rfl ⟨fun he => absurd he hba, fun he =>
          absurd he hb'.1⟩
  · rw [if_neg hgt]
    by_cases hne : p.spare = 0
    · rw [if_neg (by simpa using hne)]
      refine ⟨p.setSpare a, rfl, ⟨?_, hl.setSpare ha hhot hcold, fun b hb => ?_⟩, fun _ hb => hb,
        ⟨rfl, rfl, rfl, rfl, rfl, rfl⟩⟩
      · exact hc.congr ⟨rfl, rfl, rfl, rfl, rfl, rfl⟩ rfl rfl (fun _ _ => .refl _)
          (fun _ _ _ _ _ => rfl)
      · by_cases hba : b = a
        · subst hba
          exact hstatus p rfl rfl
        · refine (hst b hb hba).congr rfl rfl Iff.rfl Iff.rfl
            ⟨fun he => absurd he hba, fun he => ?_⟩
          rw [hne] at he
          exact absurd he (hpos b hb).ne'
    · rw [if_pos (by simpa using hne)]
      refine ⟨p.listDel h a, rfl,
        ⟨listDel_spec hc ha hn, hl.listDel hhot hcold hspare, fun b hb => ?_⟩,
        fun b hb => List.mem_of_mem_erase hb, ⟨rfl, rfl, rfl, rfl, rfl, rfl⟩⟩
      have hb' := hc.nodup.mem_erase_iff.1 hb
      exact (hst b hb'.2 hb'.1).congr rfl rfl Iff.rfl Iff.rfl Iff.rfl

section Place

variable (hc : Contents g h p live) (hl : Lists h p cold) (ha : a ∈ p.slabs) (hspare : a ≠ p.spare)
  (hcold : a ∈ cold →
    1 < (h.mslab a).nfree ∧ (h.mslab a).nfree ≤ p.objcount >>> maxColdFractionLb)
  (hfull : a ∉ p.hotSlabs → a ∉ cold → (h.mslab a).nfree = 1)
  (hst : ∀ b ∈ p.slabs, b ≠ a → Status h p cold b)
include hc hl ha hspare hst

include hcold hfull in
/-- A slab that is not hot and has enough free objects becomes hot. -/
theorem mslabPlace_hot (hnothot : a ∉ p.hotSlabs)
    (hmany : (h.mslab a).nfree ≥ p.objcount >>> maxColdFractionLb) :
    ∃ h' p' cold', mslabPlace h p a = some (h', p') ∧ p'.Inv g h' live cold' ∧
      (∀ b ∈ p'.slabs, b ∈ p.slabs) ∧
      p.SameConfig p' ∧ h'.mem = h.mem ∧ h.Frame p.id p.slabs h' := by
  have hflag := hl.hotFlag a ha
  have hshift : p.objcount >>> maxColdFractionLb = p.objcount / 8 := Nat.shiftRight_eq_div_pow _ _
  have hcount := hc.config.objcount
  have hbecomes : (h.mslab a).inHotSlabs = false ∧
      (h.mslab a).nfree ≥ p.objcount >>> maxColdFractionLb := by
    simp [hflag, hnothot, hmany]
  obtain ⟨hl₁, -, hlinks⟩ := coldDel_spec hl ha
  have hnodup : cold.Nodup := List.Nodup.of_map _ hl.ring.nodup_tail
  obtain ⟨hot, hins, hmem, hhead, hl₂⟩ := insertHot_spec hl₁ hc.pos ha hnothot
    (fun hm => absurd rfl (hnodup.mem_erase_iff.1 hm).1) hspare
  refine ⟨(h.setLinks (rlistDel h.nextInCold (.slab a))).setHotFlag a true,
    p.setHot hot (hot.headD 0), cold.erase a,
    ?_, ⟨?_, hl₂, fun b hb => ?_⟩, fun _ hb => hb, ⟨rfl, rfl, rfl, rfl, rfl, rfl⟩, rfl, ?_⟩
  · unfold mslabPlace
    simp only [if_pos hbecomes, hins]
    by_cases hf : p.firstHotSlab = 0 ∨ p.firstHotSlab > a
    · rw [hhead, if_pos hf]
      simp [Mempool.setHot, hf]
    · rw [hhead, if_neg hf]
      simp only [Mempool.setHot, Option.bind_eq_bind, Option.bind_some, if_neg hf]
  · exact hc.congr ⟨rfl, rfl, rfl, rfl, rfl, rfl⟩ rfl rfl
      (fun b _ => MslabHeap.setHotFlag_sameObjects _ a b true) (fun _ _ _ _ _ => rfl)
  · have hnf := MslabHeap.setHotFlag_nfree (h.setLinks (rlistDel h.nextInCold (.slab a))) true a b
    by_cases hba : b = a
    · subst hba
      constructor
      case ofHot =>
        intro _
        rw [hnf]
        change 0 < (h.mslab b).nfree ∧ ((h.mslab b).nfree < p.objcount ∨ p.objcount = 1)
        by_cases hb' : b ∈ cold
        · have := hcold hb'
          omega
        · have := hfull hnothot hb'
          omega
      case ofCold => exact fun hm => absurd rfl (hnodup.mem_erase_iff.1 hm).1
      case ofSpare => exact fun he => absurd he hspare
      case ofFull => exact fun hm => absurd ((hmem b).2 (Or.inl rfl)) hm
    · exact (hst b hb hba).congr hnf rfl (by simp [Mempool.setHot, hmem, hba])
        (List.mem_erase_of_ne hba) Iff.rfl
  · have hframe : h.Frame p.id p.slabs (h.setLinks (rlistDel h.nextInCold (.slab a))) :=
      .of_links rfl hlinks
    exact hframe.trans (.of_slab ha (fun b hb => MslabHeap.setHotFlag_ne _ _ hb) rfl)

/-- A slab that was full becomes cold. -/
theorem coldAdd_places (hone : (h.mslab a).nfree = 1) (hnothot : a ∉ p.hotSlabs)
    (hnotcold : a ∉ cold) (hfew : (h.mslab a).nfree < p.objcount >>> maxColdFractionLb) :
    p.Inv g (h.setLinks (rlistAdd h.nextInCold (.head p.id) (.slab a))) live (a :: cold) ∧
      h.Frame p.id p.slabs (h.setLinks (rlistAdd h.nextInCold (.head p.id) (.slab a))) := by
  obtain ⟨hl₁, hlinks⟩ := coldAdd_spec hl ha hnothot hnotcold hspare
  refine ⟨⟨?_, hl₁, fun b hb => ?_⟩, .of_links rfl hlinks⟩
  · exact hc.congr (.refl p) rfl rfl (fun _ _ => .refl _) (fun _ _ _ _ _ => rfl)
  · by_cases hba : b = a
    · subst hba
      constructor
      case ofHot => exact fun hm => absurd hm hnothot
      case ofCold => exact fun _ => ⟨by change 0 < (h.mslab b).nfree; omega, hfew⟩
      case ofSpare => exact fun he => absurd he hspare
      case ofFull => exact fun _ hm => absurd List.mem_cons_self hm
    · exact (hst b hb hba).congr rfl rfl Iff.rfl (by simp [hba]) Iff.rfl

/-- A hot slab of which all objects are free is no longer hot, and is retired. -/
theorem removeHot_retire (hall : (h.mslab a).nfree = p.objcount) (hishot : a ∈ p.hotSlabs) :
    ∃ first p', removeHot h p a =
        some (h.setHotFlag a false, p.setHot (p.hotSlabs.erase a) first) ∧
      retireSlab (h.setHotFlag a false) (p.setHot (p.hotSlabs.erase a) first) a = some p' ∧
      p'.Inv g (h.setHotFlag a false) live cold ∧ (∀ b ∈ p'.slabs, b ∈ p.slabs) ∧
      p.SameConfig p' := by
  have hnotcold : a ∉ cold := fun hm => (hl.coldMem a hm).2.1 hishot
  have hnodup : p.hotSlabs.Nodup := hl.hotSorted.imp fun h => Nat.ne_of_lt h
  obtain ⟨first, hrem, hl₁⟩ := removeHot_spec hl hishot
  have hc₁ : Contents g (h.setHotFlag a false) (p.setHot (p.hotSlabs.erase a) first) live :=
    hc.congr ⟨rfl, rfl, rfl, rfl, rfl, rfl⟩ rfl rfl
      (fun b _ => MslabHeap.setHotFlag_sameObjects _ a b false) (fun _ _ _ _ _ => rfl)
  obtain ⟨p', hret, hinv, hsub, hsame⟩ := retireSlab_spec hc₁ hl₁ ha
    (fun hm => absurd rfl (hnodup.mem_erase_iff.1 hm).1) hnotcold hspare
    ((h.setHotFlag_nfree false a a).trans hall)
    (fun b hb hba => (hst b hb hba).congr (h.setHotFlag_nfree false a b) rfl
      (List.mem_erase_of_ne hba) Iff.rfl Iff.rfl)
  have hsame₁ : p.SameConfig (p.setHot (p.hotSlabs.erase a) first) :=
    ⟨rfl, rfl, rfl, rfl, rfl, rfl⟩
  exact ⟨first, p', hrem, hret, hinv, hsub, hsame₁.trans hsame⟩

include hcold hfull in
/-- The place of a slab with one more free object: what it was before is told by its lists. -/
theorem mslabPlace_spec (hle : (h.mslab a).nfree ≤ p.objcount)
    (hhot : a ∈ p.hotSlabs → 1 < (h.mslab a).nfree) :
    ∃ h' p' cold', mslabPlace h p a = some (h', p') ∧ p'.Inv g h' live cold' ∧
      (∀ b ∈ p'.slabs, b ∈ p.slabs) ∧
      p.SameConfig p' ∧ h'.mem = h.mem ∧ h.Frame p.id p.slabs h' := by
  have hflag := hl.hotFlag a ha
  have hcount := hc.config.objcount
  by_cases hA :
    (h.mslab a).inHotSlabs = false ∧ (h.mslab a).nfree ≥ p.objcount >>> maxColdFractionLb
  · have hnothot : a ∉ p.hotSlabs := by
      rw [hflag] at hA
      simpa using hA.1
    exact mslabPlace_hot hc hl ha hspare hcold hfull hst hnothot hA.2
  have hfew : a ∉ p.hotSlabs → (h.mslab a).nfree < p.objcount >>> maxColdFractionLb := by
    intro hm
    rw [hflag] at hA
    simp only [hm, decide_false, true_and] at hA
    omega
  unfold mslabPlace
  rw [if_neg hA]
  by_cases hB : (h.mslab a).nfree = 1
  · have hnothot : a ∉ p.hotSlabs := fun hm => by have := hhot hm; omega
    have hnotcold : a ∉ cold := fun hm => by have := hcold hm; omega
    obtain ⟨hinv, hframe⟩ := coldAdd_places hc hl ha hspare hst hB hnothot hnotcold (hfew hnothot)
    exact ⟨_, p, a :: cold, by rw [if_pos hB], hinv, fun _ hb => hb, .refl p, rfl, hframe⟩
  rw [if_neg hB]
  by_cases hC : (h.mslab a).nfree = p.objcount
  · -- the slab has only free objects, so it is hot
    have hishot : a ∈ p.hotSlabs := by
      by_contra hm
      have hshift := Nat.shiftRight_le p.objcount maxColdFractionLb
      have := hfew hm
      omega
    obtain ⟨first, p', hrem, hret, hinv, hsub, hsame⟩ :=
      removeHot_retire hc hl ha hspare hst hC hishot
    refine ⟨_, p', cold, ?_, hinv, hsub, hsame, rfl,
      .of_slab ha (fun b hb => h.setHotFlag_ne _ hb) rfl⟩
    simp [hC, hrem, hret]
  · -- the slab stays where it is
    rw [if_neg hC]
    refine ⟨h, p, cold, rfl, ⟨hc, hl, fun b hb => ?_⟩, fun _ hb => hb, .refl p, rfl,
      .of_slab ha (fun _ _ => rfl) rfl⟩
    by_cases hba : b = a
    · subst hba
      constructor
      case ofHot => exact fun hm => ⟨by have := hhot hm; omega, Or.inl (by omega)⟩
      case ofCold => exact fun hm => ⟨by have := hcold hm; omega, hfew (hl.coldMem b hm).2.1⟩
      case ofSpare => exact fun he => absurd he hspare
      case ofFull => exact fun h1 h2 _ => absurd (hfull h1 h2) hB
    · exact hst b hb hba

end Place

/-- `mempool_free_slab` of a live object. -/
theorem mempoolFreeSlab_spec (hi : p.Inv g h live cold) (ha : a ∈ p.slabs) {k : Nat}
    (hk : k < p.objcount) (hlive : p.slot a k ∈ live) :
    ∃ h' p' cold', mempoolFreeSlab h p a (p.slot a k) = some (h', p') ∧
      p'.Inv g h' (live.erase (p.slot a k)) cold' ∧ (∀ b ∈ p'.slabs, b ∈ p.slabs) ∧
      p.SameConfig p' ∧
      (∀ x, ¬ (p.slot a k ≤ x ∧ x < p.slot a k + p.objsize) → h'.mem x = h.mem x) ∧
      h.Frame p.id p.slabs h' := by
  obtain ⟨hc, hl, hst⟩ := hi
  have hpos := (hc.slot_pos ha hk).1
  obtain ⟨m, ks, hs⟩ := hc.slab a ha
  have hc₁ := mslabReturn_spec hc ha hk hlive
  have hself := mslabReturn_self h p a (p.slot a k)
  have hne : ∀ b ≠ a, (mslabReturn h p a (p.slot a k)).mslab b = h.mslab b :=
    fun b hb => mslabReturn_ne h p hb
  have hl₁ : Lists (mslabReturn h p a (p.slot a k)) p cold := by
    refine hl.congr (fun b _ => ?_) (fun _ _ => ⟨rfl, rfl⟩) ⟨rfl, rfl⟩
    by_cases hba : b = a
    · rw [hba, hself]
    · rw [hne b hba]
  have hnfree : ((mslabReturn h p a (p.slot a k)).mslab a).nfree = (h.mslab a).nfree + 1 := by
    rw [hself]
  obtain ⟨m₁, ks₁, hs₁⟩ := hc₁.slab a ha
  have hle := hs₁.nfree_le
  have hle' : (h.mslab a).nfree + 1 ≤ p.objcount := hnfree ▸ hle
  have hspare : a ≠ p.spare := by
    intro he
    have := (hst a ha).ofSpare he
    omega
  obtain ⟨h', p', cold', hplace, hinv, hsub, hsame, hmem, hframe⟩ :=
    mslabPlace_spec hc₁ (hl₁.setUsed (p.stats.used - p.objsize)) ha hspare
      (fun hm => by
        have := (hst a ha).ofCold hm
        change _ ∧ _ ≤ p.objcount >>> maxColdFractionLb
        omega)
      (fun h1 h2 => by have := (hst a ha).ofFull h1 h2 hspare; omega)
      (fun b hb hba => (hst b hb).congr (by rw [hne b hba]) rfl Iff.rfl Iff.rfl Iff.rfl) hle
      (fun hm => by have := (hst a ha).ofHot hm; omega)
  refine ⟨h', p', cold', ?_, hinv, hsub, (p.setUsed_sameConfig _).trans hsame, fun x hx => ?_, ?_⟩
  · simpa [mempoolFreeSlab, hpos.ne', hs.order, mslabFree, mslabReturn] using hplace
  · rw [hmem]
    exact mslabReturn_mem hc.config hx
  · exact MslabHeap.Frame.trans (.of_slab ha hne rfl) hframe

/-- `mempool_free` of a live object finds its slab. -/
theorem mempoolFree_eq (hi : p.Inv g h live cold) (ha : a ∈ p.slabs) {k : Nat}
    (hk : k < p.objcount) :
    slabFromPtr h (p.slot a k) p.slabPtrMask = some a ∧
      mempoolFree h p (p.slot a k) = mempoolFreeSlab h p a (p.slot a k) := by
  obtain ⟨m, ks, hs⟩ := hi.contents.slab a ha
  have hpos := (hi.contents.slot_pos ha hk).1
  have hslab : slabFromPtr h (p.slot a k) p.slabPtrMask = some a := by
    simp [slabFromPtr, hi.contents.slot_and_mask ha hk, hs.magic]
  exact ⟨hslab, by simp [mempoolFree, hpos.ne', hslab]⟩

/-! ## Other pools -/

/-- A pool does not see what happens to the slabs of others. -/
theorem Mempool.Inv.frame {h' : MslabHeap} {id : Nat} {own : List Nat} (hi : p.Inv g h live cold)
    (hframe : h.Frame id own h') (hid : p.id ≠ id) (hown : ∀ a ∈ p.slabs, a ∉ own)
    (hmem : ∀ a ∈ p.slabs, ∀ x, a ≤ x → x < a + g.slabOrderSize p.slabOrder → h'.mem x = h.mem x) :
    p.Inv g h' live cold := by
  obtain ⟨hc, hl, hst⟩ := hi
  have hslab : ∀ a ∈ p.slabs, h'.mslab a = h.mslab a := fun a ha => hframe.slab a (hown a ha)
  refine ⟨?_, ?_, fun a ha => ?_⟩
  · exact hc.congr (.refl p) rfl rfl (fun a ha => .of_eq (hslab a ha)) hmem
  · exact hl.congr (fun a ha => by rw [hslab a ha]) (fun a ha => hframe.slabLinks a (hown a ha))
      (hframe.headLinks _ hid)
  · exact (hst a ha).congr (by rw [hslab a ha]) rfl Iff.rfl Iff.rfl Iff.rfl

/-- The order of the live objects does not matter. -/
theorem Mempool.Inv.perm {live' : List Nat} (hi : p.Inv g h live cold) (hperm : live.Perm live') :
    p.Inv g h live' cold := by
  obtain ⟨hc, hl, hst⟩ := hi
  refine ⟨?_, hl, hst⟩
  constructor
  case config => exact hc.config
  case nodup => exact hc.nodup
  case place => exact hc.place
  case slab =>
    intro a ha
    obtain ⟨m, ks, hs⟩ := hc.slab a ha
    exact ⟨m, ks, hs.congr hc.config (.refl p) (.refl _) (fun _ _ _ => rfl) fun k _ =>
      hperm.mem_iff.symm⟩
  case live_slot => exact fun x hx => hc.live_slot x (hperm.mem_iff.2 hx)
  case live_nodup => exact hperm.nodup_iff.1 hc.live_nodup
  case used => rw [hc.used, hperm.length_eq]
  case total => exact hc.total

end SmallAllocators
