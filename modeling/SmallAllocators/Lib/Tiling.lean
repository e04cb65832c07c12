/-
SmallAllocators.Lib.Tiling — regions of memory cut into aligned
power-of-two blocks.

`Tiling T e n M` says that the blocks starting at the addresses `T`, the
block at `a` having size `2 ^ e a`, partition the regions of size `2 ^ n`
starting at the addresses `M`: every point of a region lies in exactly one
block. The four moves of a buddy system keep this: cutting a block in two,
joining a block with its buddy, adding a region and dropping a region that
is one block.

`Tiling.buddy_mem` is what makes joining safe to decide locally: at the
address of a block's buddy there always starts a block, and never a larger
one. `Tiling.eq_top_of_coalesced` is the end state of complete joining.
-/
import SmallAllocators.Lib.Blocks
import Mathlib.Data.Finset.Basic
import Mathlib.Data.Finset.Max
import Mathlib.Algebra.Order.BigOperators.Group.Finset
import Mathlib.Order.Interval.Finset.Nat

namespace SmallAllocators.Blocks

/-- The blocks at `T`, the one at `a` of order `e a`, partition the regions of order `n` at `M`. -/
structure Tiling (T : Finset Nat) (e : Nat → Nat) (n : Nat) (M : Finset Nat) : Prop where
  region_dvd : ∀ m ∈ M, 2 ^ n ∣ m
  order_le : ∀ a ∈ T, e a ≤ n
  dvd : ∀ a ∈ T, 2 ^ e a ∣ a
  inside : ∀ a ∈ T, ∃ m ∈ M, InBlock n m a
  cover : ∀ m ∈ M, ∀ x, InBlock n m x → ∃ a ∈ T, InBlock (e a) a x
  unique : ∀ a ∈ T, ∀ b ∈ T, ∀ x, InBlock (e a) a x → InBlock (e b) b x → a = b

namespace Tiling

variable {T M : Finset Nat} {e e' : Nat → Nat} {n a b m : Nat}

theorem empty (e : Nat → Nat) (n : Nat) : Tiling ∅ e n ∅ := by
  constructor <;> simp

/-- Only the orders of the blocks that are there matter. -/
theorem congr (h : Tiling T e n M) (he : ∀ a ∈ T, e' a = e a) : Tiling T e' n M := by
  refine ⟨h.region_dvd, ?_, ?_, h.inside, ?_, ?_⟩
  · intro a ha; rw [he a ha]; exact h.order_le a ha
  · intro a ha; rw [he a ha]; exact h.dvd a ha
  · intro m hm x hx
    obtain ⟨a, ha, hax⟩ := h.cover m hm x hx
    exact ⟨a, ha, by rwa [he a ha]⟩
  · intro a ha b hb x hax hbx
    rw [he a ha] at hax
    rw [he b hb] at hbx
    exact h.unique a ha b hb x hax hbx

/-- A block lies in its region as a whole. -/
theorem block_inside (h : Tiling T e n M) (ha : a ∈ T) :
    ∃ m ∈ M, ∀ x, InBlock (e a) a x → InBlock n m x := by
  obtain ⟨m, hm, hma⟩ := h.inside a ha
  refine ⟨m, hm, fun x hx => ?_⟩
  exact InBlock.nested (h.dvd a ha) (h.region_dvd m hm) (h.order_le a ha) (inBlock_self _ _) hma hx

/-- **Where the buddy of a block would start there starts a block**, and it is not larger. -/
theorem buddy_mem (h : Tiling T e n M) (ha : a ∈ T) (hlt : e a < n) :
    buddy (e a) a ∈ T ∧ e (buddy (e a) a) ≤ e a := by
  have hda := h.dvd a ha
  obtain ⟨m, hm, hma⟩ := h.inside a ha
  -- the parent block, of order `e a + 1`, lies in the same region
  have hpar : ∀ x, InBlock (e a + 1) (min a (buddy (e a) a)) x → InBlock n m x := by
    intro x hx
    have ha' : InBlock (e a + 1) (min a (buddy (e a) a)) a :=
      (inBlock_succ_iff hda).mpr (Or.inl (inBlock_self _ _))
    exact InBlock.nested (dvd_min_buddy hda) (h.region_dvd m hm) hlt ha' hma hx
  have hbin : InBlock n m (buddy (e a) a) :=
    hpar _ ((inBlock_succ_iff hda).mpr (Or.inr (inBlock_self _ _)))
  obtain ⟨t, ht, htb⟩ := h.cover m hm _ hbin
  have hne : a ≠ t := by
    rintro rfl
    exact not_inBlock_buddy hda htb (inBlock_self _ _)
  have hle : e t ≤ e a := by
    by_contra hgt
    -- a larger block around the buddy would contain the whole parent, and with it `a`
    have hta : InBlock (e t) t a := by
      refine InBlock.nested (dvd_min_buddy hda) (h.dvd t ht) (by omega)
        ((inBlock_succ_iff hda).mpr (Or.inr (inBlock_self _ _))) htb ?_
      exact (inBlock_succ_iff hda).mpr (Or.inl (inBlock_self _ _))
    exact hne (h.unique a ha t ht a (inBlock_self _ _) hta)
  have htb' : t = buddy (e a) a := InBlock.eq_of_dvd (h.dvd t ht) (dvd_buddy hda) hle htb
  subst htb'
  exact ⟨ht, hle⟩

/-- Cutting a block in two halves. -/
theorem split (h : Tiling T e n M) (ha : a ∈ T) {i : Nat} (hi : e a = i + 1)
    (hea : e' a = i) (heb : e' (a + 2 ^ i) = i)
    (he : ∀ b ∈ T, b ≠ a → e' b = e b) : Tiling (insert (a + 2 ^ i) T) e' n M := by
  have hda : 2 ^ (i + 1) ∣ a := hi ▸ h.dvd a ha
  have hdi : 2 ^ i ∣ a := (Nat.pow_dvd_pow 2 (Nat.le_succ i)).trans hda
  have hbud : buddy i a = a + 2 ^ i := buddy_of_dvd hda
  have hhalf : ∀ x, InBlock (e a) a x ↔ InBlock i a x ∨ InBlock i (a + 2 ^ i) x := by
    intro x
    rw [hi, ← hbud, ← inBlock_succ_iff hdi, hbud, Nat.min_eq_left (Nat.le_add_right _ _)]
  -- a block of the new tiling lies in a block of the old one
  have hold : ∀ b ∈ insert (a + 2 ^ i) T, ∃ c ∈ T,
      (∀ x, InBlock (e' b) b x → InBlock (e c) c x) ∧
        ((b = a ∨ b = a + 2 ^ i) ∧ c = a ∨ b ≠ a ∧ b ≠ a + 2 ^ i ∧ c = b) := by
    intro b hb
    by_cases hb1 : b = a + 2 ^ i
    · refine ⟨a, ha, fun x hx => ?_, Or.inl ⟨Or.inr hb1, rfl⟩⟩
      rw [hb1, heb] at hx
      exact (hhalf x).mpr (Or.inr hx)
    · by_cases hb2 : b = a
      · refine ⟨a, ha, fun x hx => ?_, Or.inl ⟨Or.inl hb2, rfl⟩⟩
        rw [hb2, hea] at hx
        exact (hhalf x).mpr (Or.inl hx)
      · have hbT : b ∈ T := (Finset.mem_insert.mp hb).resolve_left hb1
        refine ⟨b, hbT, fun x hx => ?_, Or.inr ⟨hb2, hb1, rfl⟩⟩
        rwa [he b hbT hb2] at hx
  refine ⟨h.region_dvd, ?_, ?_, ?_, ?_, ?_⟩
  · intro b hb
    rcases Finset.mem_insert.mp hb with rfl | hbT
    · have := h.order_le a ha; omega
    · by_cases hb2 : b = a
      · have := h.order_le a ha; subst hb2; omega
      · rw [he b hbT hb2]; exact h.order_le b hbT
  · intro b hb
    rcases Finset.mem_insert.mp hb with rfl | hbT
    · rw [heb]; exact (Nat.dvd_add_right hdi).mpr (dvd_refl _)
    · by_cases hb2 : b = a
      · rw [hb2, hea]; exact hdi
      · rw [he b hbT hb2]; exact h.dvd b hbT
  · intro b hb
    obtain ⟨c, hc, hbc, -⟩ := hold b hb
    obtain ⟨m, hm, hin⟩ := h.block_inside hc
    exact ⟨m, hm, hin b (hbc b (inBlock_self _ _))⟩
  · intro m hm x hx
    obtain ⟨c, hc, hcx⟩ := h.cover m hm x hx
    by_cases hca : c = a
    · subst hca
      rcases (hhalf x).mp hcx with hx | hx
      · exact ⟨c, Finset.mem_insert_of_mem hc, by rwa [hea]⟩
      · exact ⟨c + 2 ^ i, Finset.mem_insert_self _ _, by rwa [heb]⟩
    · exact ⟨c, Finset.mem_insert_of_mem hc, by rwa [he c hc hca]⟩
  · intro b hb c hc x hbx hcx
    obtain ⟨b', hb', hbb, hb''⟩ := hold b hb
    obtain ⟨c', hc', hcc, hc''⟩ := hold c hc
    have hbc : b' = c' := h.unique b' hb' c' hc' x (hbb x hbx) (hcc x hcx)
    have hdisj : InBlock i a x → ¬ InBlock i (a + 2 ^ i) x := by
      intro hx; rw [← hbud]; exact not_inBlock_buddy hdi hx
    rcases hb'' with ⟨hb1, hb2⟩ | ⟨hb1, hb2, hb3⟩ <;> rcases hc'' with ⟨hc1, hc2⟩ | ⟨hc1, hc2, hc3⟩
    · rcases hb1 with rfl | rfl <;> rcases hc1 with rfl | rfl
      · rfl
      · rw [heb] at hcx
        rw [hea] at hbx
        exact absurd hcx (hdisj hbx)
      · rw [heb] at hbx
        rw [hea] at hcx
        exact absurd hbx (hdisj hcx)
      · rfl
    · exact absurd (hc3.symm.trans (hbc.symm.trans hb2)) hc1
    · exact absurd (hb3.symm.trans (hbc.trans hc2)) hb1
    · rw [← hb3, ← hc3, hbc]

/-- Joining a block with its buddy of the same order. -/
theorem merge (h : Tiling T e n M) (ha : a ∈ T) {i : Nat} (hia : e a = i) (hin : i < n)
    (hb : buddy i a ∈ T) (hib : e (buddy i a) = i)
    (hem : e' (min a (buddy i a)) = i + 1)
    (he : ∀ c ∈ T, c ≠ a → c ≠ buddy i a → e' c = e c) :
    Tiling (T.erase (max a (buddy i a))) e' n M := by
  have hda : 2 ^ i ∣ a := hia ▸ h.dvd a ha
  have hne : buddy i a ≠ a := buddy_ne i a
  set p := min a (buddy i a) with hp
  set q := max a (buddy i a) with hq
  have hpT : p ∈ T := by rcases min_choice a (buddy i a) with h' | h' <;> rw [hp, h'] <;> assumption
  have hpq : p ≠ q := by omega
  have hpart : ∀ x, InBlock (i + 1) p x ↔ InBlock i a x ∨ InBlock i (buddy i a) x :=
    fun x => inBlock_succ_iff hda
  have hmem : ∀ c, c ∈ T.erase q ↔ c ∈ T ∧ c ≠ q := by
    intro c; rw [Finset.mem_erase, and_comm]
  have hother : ∀ c ∈ T.erase q, c ≠ p → c ∈ T ∧ c ≠ a ∧ c ≠ buddy i a := by
    intro c hc hcp
    obtain ⟨hcT, hcq⟩ := (hmem c).mp hc
    exact ⟨hcT, by omega, by omega⟩
  refine ⟨h.region_dvd, ?_, ?_, ?_, ?_, ?_⟩
  · intro c hc
    by_cases hcp : c = p
    · rw [hcp, hem]; omega
    · obtain ⟨hcT, hca, hcb⟩ := hother c hc hcp
      rw [he c hcT hca hcb]; exact h.order_le c hcT
  · intro c hc
    by_cases hcp : c = p
    · rw [hcp, hem]; exact dvd_min_buddy hda
    · obtain ⟨hcT, hca, hcb⟩ := hother c hc hcp
      rw [he c hcT hca hcb]; exact h.dvd c hcT
  · intro c hc
    exact h.inside c (Finset.mem_of_mem_erase hc)
  · intro m hm x hx
    obtain ⟨c, hcT, hcx⟩ := h.cover m hm x hx
    by_cases hc : c = a ∨ c = buddy i a
    · refine ⟨p, (hmem p).mpr ⟨hpT, hpq⟩, ?_⟩
      rw [hem, hpart]
      rcases hc with rfl | rfl
      · exact Or.inl (by rwa [hia] at hcx)
      · exact Or.inr (by rwa [hib] at hcx)
    · rw [not_or] at hc
      refine ⟨c, (hmem c).mpr ⟨hcT, by omega⟩, ?_⟩
      rwa [he c hcT hc.1 hc.2]
  · -- a point of the joined block lies in no other block, as it lies in one of the two halves
    have hjoin : ∀ c ∈ T.erase q, ∀ x, c ≠ p → InBlock (e' c) c x → ¬ InBlock (i + 1) p x := by
      intro c hc x hcp hcx hpx
      obtain ⟨hcT, hca, hcb⟩ := hother c hc hcp
      rw [he c hcT hca hcb] at hcx
      rcases (hpart x).mp hpx with hx | hx
      · exact hca (h.unique c hcT a ha x hcx (by rwa [hia]))
      · exact hcb (h.unique c hcT _ hb x hcx (by rwa [hib]))
    intro c hc d hd x hcx hdx
    by_cases hcp : c = p <;> by_cases hdp : d = p
    · rw [hcp, hdp]
    · rw [hcp, hem] at hcx
      exact absurd hcx (hjoin d hd x hdp hdx)
    · rw [hdp, hem] at hdx
      exact absurd hdx (hjoin c hc x hcp hcx)
    · obtain ⟨hcT, hca, hcb⟩ := hother c hc hcp
      obtain ⟨hdT, hda', hdb⟩ := hother d hd hdp
      rw [he c hcT hca hcb] at hcx
      rw [he d hdT hda' hdb] at hdx
      exact h.unique c hcT d hdT x hcx hdx

/-- Adding a region, as one block. -/
theorem addRegion (h : Tiling T e n M) (hd : 2 ^ n ∣ m) (hm : m ∉ M) (hem : e' m = n)
    (he : ∀ c ∈ T, e' c = e c) : Tiling (insert m T) e' n (insert m M) := by
  have h' := h.congr he
  have hout : ∀ c ∈ T, ∀ x, InBlock (e' c) c x → ¬ InBlock n m x := by
    intro c hc x hcx hmx
    obtain ⟨m', hm', hin⟩ := h'.block_inside hc
    have : m' = m := InBlock.eq_of_dvd (h.region_dvd m' hm') hd (le_refl n)
      (InBlock.nested hd (h.region_dvd m' hm') (le_refl n) hmx (hin x hcx) (inBlock_self _ _))
    exact hm (this ▸ hm')
  refine ⟨?_, ?_, ?_, ?_, ?_, ?_⟩
  · intro m' hm'
    rcases Finset.mem_insert.mp hm' with rfl | hm'
    · exact hd
    · exact h.region_dvd m' hm'
  · intro c hc
    rcases Finset.mem_insert.mp hc with rfl | hc
    · rw [hem]
    · exact h'.order_le c hc
  · intro c hc
    rcases Finset.mem_insert.mp hc with rfl | hc
    · rwa [hem]
    · exact h'.dvd c hc
  · intro c hc
    rcases Finset.mem_insert.mp hc with rfl | hc
    · exact ⟨c, Finset.mem_insert_self _ _, inBlock_self _ _⟩
    · obtain ⟨m', hm', hin⟩ := h'.inside c hc
      exact ⟨m', Finset.mem_insert_of_mem hm', hin⟩
  · intro m' hm' x hx
    rcases Finset.mem_insert.mp hm' with rfl | hm'
    · exact ⟨m', Finset.mem_insert_self _ _, by rwa [hem]⟩
    · obtain ⟨c, hc, hcx⟩ := h'.cover m' hm' x hx
      exact ⟨c, Finset.mem_insert_of_mem hc, hcx⟩
  · intro c hc d hd' x hcx hdx
    rcases Finset.mem_insert.mp hc with hcm | hcT <;> rcases Finset.mem_insert.mp hd' with hdm | hdT
    · rw [hcm, hdm]
    · rw [hcm, hem] at hcx
      exact absurd hcx (hout d hdT x hdx)
    · rw [hdm, hem] at hdx
      exact absurd hdx (hout c hcT x hcx)
    · exact h'.unique c hcT d hdT x hcx hdx

/-- A block of the order of the regions is a whole region. -/
theorem mem_of_order_eq (h : Tiling T e n M) (ha : a ∈ T) (hea : e a = n) : a ∈ M := by
  obtain ⟨m, hm, hma⟩ := h.inside a ha
  have hda : 2 ^ n ∣ a := hea ▸ h.dvd a ha
  exact InBlock.eq_of_dvd (h.region_dvd m hm) hda (le_refl n) hma ▸ hm

/-- Dropping a region that is one block. -/
theorem dropRegion (h : Tiling T e n M) (ha : a ∈ T) (hea : e a = n) :
    Tiling (T.erase a) e n (M.erase a) := by
  refine ⟨?_, ?_, ?_, ?_, ?_, ?_⟩
  · exact fun m hm => h.region_dvd m (Finset.mem_of_mem_erase hm)
  · exact fun c hc => h.order_le c (Finset.mem_of_mem_erase hc)
  · exact fun c hc => h.dvd c (Finset.mem_of_mem_erase hc)
  · intro c hc
    obtain ⟨hca, hcT⟩ := Finset.mem_erase.mp hc
    obtain ⟨m, hm, hmc⟩ := h.inside c hcT
    refine ⟨m, Finset.mem_erase.mpr ⟨?_, hm⟩, hmc⟩
    rintro rfl
    exact hca (h.unique c hcT m ha c (inBlock_self _ _) (by rwa [hea]))
  · intro m hm x hx
    obtain ⟨hma, hmM⟩ := Finset.mem_erase.mp hm
    obtain ⟨c, hc, hcx⟩ := h.cover m hmM x hx
    refine ⟨c, Finset.mem_erase.mpr ⟨?_, hc⟩, hcx⟩
    rintro rfl
    rw [hea] at hcx
    have hcM := h.mem_of_order_eq hc hea
    have := InBlock.nested (h.region_dvd m hmM) (h.region_dvd c hcM) (le_refl n) hx hcx
      (inBlock_self _ _)
    exact hma (InBlock.eq_of_dvd (h.region_dvd c hcM) (h.region_dvd m hmM) (le_refl n) this).symm
  · intro c hc d hd
    exact h.unique c (Finset.mem_of_mem_erase hc) d (Finset.mem_of_mem_erase hd)

/-- If no block has a buddy of its own order, every block is a whole region. -/
theorem eq_top_of_coalesced (h : Tiling T e n M)
    (hc : ∀ a ∈ T, e a < n → buddy (e a) a ∈ T → e (buddy (e a) a) ≠ e a) :
    ∀ a ∈ T, e a = n := by
  by_contra hne
  push Not at hne
  obtain ⟨b, hbT, hbn⟩ := hne
  -- a block of least order has a buddy of at most that order
  obtain ⟨a, haT, hmin⟩ := T.exists_min_image e ⟨b, hbT⟩
  have hlt : e a < n := by
    have h1 := hmin b hbT
    have h2 := h.order_le b hbT
    omega
  obtain ⟨hbud, hle⟩ := h.buddy_mem haT hlt
  exact hc a haT hlt hbud (Nat.le_antisymm hle (hmin _ hbud))

/-- The blocks have the bytes of the regions, no more and no less. -/
theorem sum_eq (h : Tiling T e n M) : ∑ a ∈ T, 2 ^ e a = M.card * 2 ^ n := by
  have hmem : ∀ i a x, x ∈ Finset.Ico a (a + 2 ^ i) ↔ InBlock i a x := fun i a x => by
    rw [Finset.mem_Ico, InBlock]
  have hunion : T.biUnion (fun a => Finset.Ico a (a + 2 ^ e a)) =
      M.biUnion (fun m => Finset.Ico m (m + 2 ^ n)) := by
    ext x
    simp only [Finset.mem_biUnion, hmem]
    constructor
    · rintro ⟨a, ha, hx⟩
      obtain ⟨m, hm, hall⟩ := h.block_inside ha
      exact ⟨m, hm, hall x hx⟩
    · rintro ⟨m, hm, hx⟩
      exact h.cover m hm x hx
  have hT : ∀ a ∈ T, ∀ b ∈ T, a ≠ b →
      Disjoint (Finset.Ico a (a + 2 ^ e a)) (Finset.Ico b (b + 2 ^ e b)) := by
    intro a ha b hb hab
    rw [Finset.disjoint_left]
    intro x hxa hxb
    exact hab (h.unique a ha b hb x ((hmem _ _ _).mp hxa) ((hmem _ _ _).mp hxb))
  have hM : ∀ a ∈ M, ∀ b ∈ M, a ≠ b →
      Disjoint (Finset.Ico a (a + 2 ^ n)) (Finset.Ico b (b + 2 ^ n)) := by
    intro a ha b hb hab
    rw [Finset.disjoint_left]
    intro x hxa hxb
    refine hab (InBlock.eq_of_dvd (h.region_dvd a ha) (h.region_dvd b hb) (le_refl n) ?_)
    exact InBlock.nested (h.region_dvd b hb) (h.region_dvd a ha) (le_refl n)
      ((hmem _ _ _).mp hxb) ((hmem _ _ _).mp hxa) (inBlock_self _ _)
  have hcard := congrArg Finset.card hunion
  rw [Finset.card_biUnion hT, Finset.card_biUnion hM] at hcard
  simpa using hcard

end Tiling

end SmallAllocators.Blocks
