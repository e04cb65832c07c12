/-
SmallAllocators.Mempool.Lists — slabs enter and leave the tree of hot slabs,
the list of cold slabs and the place of the spare slab.

One lemma for each such change, with the new state and a frame: the links
of other pools' slabs are what they were.
-/
import SmallAllocators.Mempool.Invariant

namespace SmallAllocators

variable {g : Geometry} {h : MslabHeap} {p : Mempool} {cold : List Nat} {a b : Nat}

theorem MslabHeap.setHotFlag_ne (h : MslabHeap) (flag : Bool) (hne : b ≠ a) :
    (h.setHotFlag a flag).mslab b = h.mslab b := h.setMslab_ne _ hne

theorem MslabHeap.setHotFlag_nfree (h : MslabHeap) (flag : Bool) (a b : Nat) :
    ((h.setHotFlag a flag).mslab b).nfree = (h.mslab b).nfree :=
      (h.setHotFlag_sameObjects a b flag).nfree

/-! ## The tree -/

theorem pairwise_orderedInsert {tree : List Nat} (hs : tree.Pairwise (· < ·)) (ha : a ∉ tree) :
    (tree.orderedInsert (· ≤ ·) a).Pairwise (· < ·) := by
  induction tree with
  | nil => simp
  | cons b tree ih =>
      simp only [List.mem_cons, not_or] at ha
      obtain ⟨hb, hrest⟩ := List.pairwise_cons.1 hs
      rw [List.orderedInsert_cons]
      split
      · rename_i hle
        refine List.pairwise_cons.2 ⟨fun x hx => ?_, hs⟩
        rcases List.mem_cons.1 hx with rfl | hx
        · omega
        · have := hb x hx
          omega
      · rename_i hle
        refine List.pairwise_cons.2 ⟨fun x hx => ?_, ih hrest ha.2⟩
        rcases (List.mem_orderedInsert _).1 hx with rfl | hx
        · omega
        · exact hb x hx

/-- The first node after an insertion. -/
theorem headD_orderedInsert (tree : List Nat) (a : Nat) (hpos : ∀ b ∈ tree, 0 < b) :
    (tree.orderedInsert (· ≤ ·) a).headD 0
      = if tree.headD 0 = 0 ∨ tree.headD 0 ≥ a then a else tree.headD 0 := by
  cases tree with
  | nil => simp
  | cons b tree =>
      have hb := hpos b List.mem_cons_self
      rw [List.orderedInsert_cons]
      by_cases hle : a ≤ b
      · simp [hle]
      · have hne : ¬ (b = 0 ∨ b ≥ a) := by omega
        rw [if_neg hle, List.headD_cons, List.headD_cons, if_neg hne]

/-- The node behind the first one is the first one of the rest. -/
theorem treeNext_head {tree : List Nat} (hs : (a :: tree).Pairwise (· < ·)) :
    treeNext (a :: tree) a = tree.headD 0 := by
  obtain ⟨ha, -⟩ := List.pairwise_cons.1 hs
  cases tree with
  | nil => simp [treeNext]
  | cons b tree =>
      have hb := ha b List.mem_cons_self
      simp [treeNext, hb]

/-- The slab enters the tree, and the tree's first node is known. -/
theorem insertHot_spec (hl : Lists h p cold) (hpos : ∀ b ∈ p.slabs, 0 < b) (ha : a ∈ p.slabs)
    (hhot : a ∉ p.hotSlabs) (hcold : a ∉ cold) (hspare : a ≠ p.spare) :
    ∃ hot, insertHot h p a = some (h.setHotFlag a true, p.setHot hot p.firstHotSlab) ∧
      (∀ b, b ∈ hot ↔ b = a ∨ b ∈ p.hotSlabs) ∧
      hot.headD 0 = (if p.firstHotSlab = 0 ∨ p.firstHotSlab > a then a else p.firstHotSlab) ∧
      Lists (h.setHotFlag a true) (p.setHot hot (hot.headD 0)) cold := by
  have hmem : ∀ b, b ∈ p.hotSlabs.orderedInsert (· ≤ ·) a ↔ b = a ∨ b ∈ p.hotSlabs :=
    fun b => List.mem_orderedInsert _
  refine ⟨p.hotSlabs.orderedInsert (· ≤ ·) a, by simp [insertHot, treeInsert, hhot], hmem, ?_, ?_⟩
  · rw [headD_orderedInsert _ _ fun b hb => hpos b (hl.hotMem b hb), ← hl.first]
    have hne : p.firstHotSlab ≠ a ∨ p.firstHotSlab = 0 := by
      rw [hl.first]
      cases hcase : p.hotSlabs with
      | nil => exact Or.inr rfl
      | cons b tree =>
        exact Or.inl fun he => hhot (by
          rw [hcase, ← show b = a from he]; exact List.mem_cons_self)
    by_cases hc : p.firstHotSlab = 0 ∨ p.firstHotSlab > a
    · rw [if_pos hc, if_pos (by omega)]
    · rw [if_neg hc, if_neg (by omega)]
  · constructor
    case hotSorted => exact pairwise_orderedInsert hl.hotSorted hhot
    case hotMem =>
      intro b hb
      rcases (hmem b).1 hb with rfl | hb
      · exact ha
      · exact hl.hotMem b hb
    case hotFlag =>
      intro b hb
      by_cases hba : b = a
      · subst hba
        simp [MslabHeap.setHotFlag, Mempool.setHot, hmem]
      · rw [h.setHotFlag_ne _ hba, hl.hotFlag b hb]
        simp [Mempool.setHot, hmem, hba]
    case first => rfl
    case ring => exact hl.ring
    case coldMem =>
      intro b hb
      obtain ⟨h1, h2, h3⟩ := hl.coldMem b hb
      refine ⟨h1, fun hm => ?_, h3⟩
      rcases (hmem b).1 hm with rfl | hm
      · exact hcold hb
      · exact h2 hm
    case loose => exact hl.loose
    case spare =>
      intro hne
      obtain ⟨h1, h2⟩ := hl.spare hne
      refine ⟨h1, fun hm => ?_⟩
      rcases (hmem p.spare).1 hm with he | hm
      · exact hspare he.symm
      · exact h2 hm

/-- The slab leaves the tree. -/
theorem removeHot_spec (hl : Lists h p cold) (ha : a ∈ p.hotSlabs) :
    ∃ first, removeHot h p a = some (h.setHotFlag a false, p.setHot (p.hotSlabs.erase a) first) ∧
      Lists (h.setHotFlag a false) (p.setHot (p.hotSlabs.erase a) first) cold := by
  have hnodup : p.hotSlabs.Nodup := hl.hotSorted.imp fun h => Nat.ne_of_lt h
  have hfirst : ∃ first, p.skipHot a = p.setHot p.hotSlabs first ∧
      first = (p.hotSlabs.erase a).headD 0 := by
    have hf := hl.first
    have hs := hl.hotSorted
    obtain ⟨b, tree, hcase⟩ := List.exists_cons_of_ne_nil (List.ne_nil_of_mem ha)
    rw [hcase] at hf hs
    have hf' : p.firstHotSlab = b := hf
    by_cases hba : a = b
    · subst hba
      refine ⟨treeNext p.hotSlabs a, by rw [Mempool.skipHot, if_pos hf'.symm], ?_⟩
      rw [hcase, treeNext_head hs, List.erase_cons_head]
    · refine ⟨p.firstHotSlab, by rw [Mempool.skipHot, if_neg (hf' ▸ hba)]; rfl, ?_⟩
      rw [hcase, List.erase_cons_tail (by simpa using Ne.symm hba)]
      exact hf'
  obtain ⟨first, hskip, hhead⟩ := hfirst
  refine ⟨first, by simp [removeHot, hskip, treeRemove, ha, Mempool.setHot], ?_⟩
  constructor
  case hotSorted => exact hl.hotSorted.sublist List.erase_sublist
  case hotMem => exact fun b hb => hl.hotMem b (List.mem_of_mem_erase hb)
  case hotFlag =>
    intro b hb
    by_cases hba : b = a
    · subst hba
      simp [MslabHeap.setHotFlag, Mempool.setHot, hnodup.mem_erase_iff]
    · rw [h.setHotFlag_ne _ hba, hl.hotFlag b hb]
      simp [Mempool.setHot, hnodup.mem_erase_iff, hba]
  case first => exact hhead
  case ring => exact hl.ring
  case coldMem =>
    intro b hb
    obtain ⟨h1, h2, h3⟩ := hl.coldMem b hb
    exact ⟨h1, fun hm => h2 (List.mem_of_mem_erase hm), h3⟩
  case loose => exact hl.loose
  case spare =>
    intro hne
    obtain ⟨h1, h2⟩ := hl.spare hne
    exact ⟨h1, fun hm => h2 (List.mem_of_mem_erase hm)⟩

/-! ## The list of cold slabs -/

/-- The node is one of the pool's: its list head, or in one of its slabs. -/
def Mempool.Owns (p : Mempool) : ColdNode → Prop
  | .head id => id = p.id
  | .slab a => a ∈ p.slabs

theorem Lists.owns_ring (hl : Lists h p cold) {y : ColdNode}
    (hy : y ∈ .head p.id :: cold.map .slab) : p.Owns y := by
  rcases List.mem_cons.1 hy with rfl | hy
  · rfl
  · obtain ⟨b, hb, rfl⟩ := List.mem_map.1 hy
    exact (hl.coldMem b hb).1

/-- The slab leaves the list of cold slabs, if it is there. -/
theorem coldDel_spec (hl : Lists h p cold) (ha : a ∈ p.slabs) :
    Lists (h.setLinks (rlistDel h.nextInCold (.slab a))) p (cold.erase a) ∧
      (rlistDel h.nextInCold (.slab a)).SelfLinked (.slab a) ∧
      ∀ y, ¬ p.Owns y → h.nextInCold.SameAt (rlistDel h.nextInCold (.slab a)) y := by
  by_cases hcold : a ∈ cold
  · have hnode : ColdNode.slab a ∈ cold.map ColdNode.slab := List.mem_map.2 ⟨a, hcold, rfl⟩
    have hnodup : cold.Nodup := List.Nodup.of_map _ hl.ring.nodup_tail
    have hring := rlistDel_erase hl.ring hnode
    rw [← List.map_erase (f := ColdNode.slab) (fun _ _ he => ColdNode.slab.inj he)] at hring
    refine ⟨?_, rlistDel_selfLinked _ _, fun y hy => rlistDel_same hl.ring hnode fun hm =>
      hy (hl.owns_ring hm)⟩
    refine { hl with
      ring := hring, coldMem := fun b hb => hl.coldMem b (List.mem_of_mem_erase hb), loose := ?_ }
    intro b hb hnot
    by_cases hba : b = a
    · subst hba
      exact rlistDel_selfLinked _ _
    · have hbc : b ∉ cold := fun hm => hnot ((List.mem_erase_of_ne hba).2 hm)
      have hsame : h.nextInCold.SameAt (rlistDel h.nextInCold (.slab a)) (.slab b) := by
        refine rlistDel_same hl.ring hnode ?_
        simp [hbc]
      obtain ⟨h1, h2⟩ := hl.loose b hb hbc
      exact ⟨hsame.1.trans h1, hsame.2.trans h2⟩
  · have hself := hl.loose a ha hcold
    rw [rlistDel_of_selfLinked hself, List.erase_of_not_mem hcold]
    exact ⟨hl, hself, fun _ _ => ⟨rfl, rfl⟩⟩

/-- The slab becomes the first cold one. -/
theorem coldAdd_spec (hl : Lists h p cold) (ha : a ∈ p.slabs) (hhot : a ∉ p.hotSlabs)
    (hcold : a ∉ cold) (hspare : a ≠ p.spare) :
    Lists (h.setLinks (rlistAdd h.nextInCold (.head p.id) (.slab a))) p (a :: cold) ∧
      ∀ y, ¬ p.Owns y → h.nextInCold.SameAt (rlistAdd h.nextInCold (.head p.id) (.slab a)) y := by
  have hnode : ColdNode.slab a ∉ ColdNode.head p.id :: cold.map ColdNode.slab := by
    simp [hcold]
  have hsame : ∀ y, y ∉ ColdNode.head p.id :: cold.map ColdNode.slab → y ≠ .slab a →
      h.nextInCold.SameAt (rlistAdd h.nextInCold (.head p.id) (.slab a)) y :=
    fun y hy hya => rlistAdd_same hl.ring hy hya (by simp)
  refine ⟨{ hl with ring := rlistAdd_ring hl.ring hnode, coldMem := ?_, loose := ?_ },
    fun y hy => ?_⟩
  · intro b hb
    rcases List.mem_cons.1 hb with rfl | hb
    · exact ⟨ha, hhot, hspare⟩
    · exact hl.coldMem b hb
  · intro b hb hnot
    simp only [List.mem_cons, not_or] at hnot
    obtain ⟨h1, h2⟩ := hl.loose b hb hnot.2
    have hs := hsame (.slab b) (by simp [hnot.2]) (by simpa using hnot.1)
    exact ⟨hs.1.trans h1, hs.2.trans h2⟩
  · refine hsame y (fun hm => hy (hl.owns_ring hm)) ?_
    rintro rfl
    exact hy ha

/-! ## Spare slabs, new slabs and slabs that go -/

theorem Lists.setUsed (hl : Lists h p cold) (used : Nat) : Lists h (p.setUsed used) cold :=
  { hl with }

theorem Lists.setSpare (hl : Lists h p cold) (ha : a ∈ p.slabs) (hhot : a ∉ p.hotSlabs)
    (hcold : a ∉ cold) :
    Lists h (p.setSpare a) cold :=
  { hl with
    coldMem := fun b hb =>
      ⟨(hl.coldMem b hb).1, (hl.coldMem b hb).2.1, fun (he : b = a) => hcold (he ▸ hb)⟩
    spare := fun _ => ⟨ha, hhot⟩ }

theorem Lists.clearSpare (hl : Lists h p cold) (hpos : ∀ b ∈ p.slabs, 0 < b) :
    Lists h (p.setSpare 0) cold :=
  { hl with
    coldMem := fun b hb =>
      ⟨(hl.coldMem b hb).1, (hl.coldMem b hb).2.1, (hpos b (hl.coldMem b hb).1).ne'⟩
    spare := fun hne => absurd rfl hne }

theorem Lists.listDel (hl : Lists h p cold) (hhot : a ∉ p.hotSlabs) (hcold : a ∉ cold)
    (hspare : a ≠ p.spare) :
    Lists h (p.listDel h a) cold := by
  have hmem : ∀ b, b ≠ a → b ∈ p.slabs → b ∈ p.slabs.erase a :=
    fun b hne hb => (List.mem_erase_of_ne hne).2 hb
  constructor
  case hotSorted => exact hl.hotSorted
  case hotMem => exact fun b hb => hmem b (fun he => hhot (he ▸ hb)) (hl.hotMem b hb)
  case hotFlag => exact fun b hb => hl.hotFlag b (List.mem_of_mem_erase hb)
  case first => exact hl.first
  case ring => exact hl.ring
  case coldMem =>
    intro b hb
    obtain ⟨h1, h2, h3⟩ := hl.coldMem b hb
    exact ⟨hmem b (fun he => hcold (he ▸ hb)) h1, h2, h3⟩
  case loose => exact fun b hb hnot => hl.loose b (List.mem_of_mem_erase hb) hnot
  case spare =>
    intro hne
    obtain ⟨h1, h2⟩ := hl.spare hne
    exact ⟨hmem p.spare (Ne.symm hspare) h1, h2⟩

theorem Lists.listAdd (hl : Lists h p cold) (ha : a ∉ p.slabs) :
    Lists (mslabCreate g h a p) (p.listAdd (mslabCreate g h a p) a) cold ∧
      ∀ y, y ≠ .slab a → h.nextInCold.SameAt (mslabCreate g h a p).nextInCold y := by
  have hsame : ∀ y, y ≠ .slab a → h.nextInCold.SameAt (mslabCreate g h a p).nextInCold y :=
    fun y hy => rlistCreate_same hy
  have hne : ∀ b ∈ p.slabs, b ≠ a := fun b hb he => ha (he ▸ hb)
  refine ⟨?_, hsame⟩
  constructor
  case hotSorted => exact hl.hotSorted
  case hotMem => exact fun b hb => List.mem_cons_of_mem _ (hl.hotMem b hb)
  case hotFlag =>
    intro b hb
    rcases List.mem_cons.1 hb with rfl | hb
    · have hnot : b ∉ p.hotSlabs := fun hm => ha (hl.hotMem b hm)
      simp [mslabCreate, Mempool.listAdd, MslabHeap.setLinks, hnot]
    · have hcreate : (mslabCreate g h a p).mslab b = h.mslab b := h.setMslab_ne _ (hne b hb)
      rw [hcreate]
      exact hl.hotFlag b hb
  case first => exact hl.first
  case ring =>
    refine hl.ring.congr fun y hy => hsame y ?_
    rintro rfl
    exact ha (hl.owns_ring hy)
  case coldMem =>
    intro b hb
    obtain ⟨h1, h2, h3⟩ := hl.coldMem b hb
    exact ⟨List.mem_cons_of_mem _ h1, h2, h3⟩
  case loose =>
    intro b hb hnot
    rcases List.mem_cons.1 hb with rfl | hb
    · exact IsRing.nil_iff.1 (rlistCreate_ring _ _)
    · obtain ⟨h1, h2⟩ := hl.loose b hb hnot
      have hs := hsame (.slab b) (by simpa using hne b hb)
      exact ⟨hs.1.trans h1, hs.2.trans h2⟩
  case spare =>
    intro hnz
    obtain ⟨h1, h2⟩ := hl.spare hnz
    exact ⟨List.mem_cons_of_mem _ h1, h2⟩

end SmallAllocators
