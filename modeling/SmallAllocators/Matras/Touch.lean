/-
SmallAllocators.Matras.Touch — copy on write.

`matras_touch` gives the head its own copy of each extent above a block that
the newest view has too. `Copied` is what any number of such copies does, also
when an allocation fails on the way: the views keep their extents, the head
gets new ones at most, no extent is lost and no block changes.
-/
import SmallAllocators.Matras.Invariant

namespace SmallAllocators

variable {m m' m₁ : Matras} {rs rs' : List Nat} {v : MatrasView} {p q : ExtentPos} {id new : Nat}

/-- No view has the extent that the head has there. -/
def Matras.Alone (m : Matras) (p : ExtentPos) : Prop :=
  ∀ v ∈ m.views, m.Covers v p → m.addr v p ≠ m.addr m.head p

/-- Extents of the head were replaced by copies. -/
structure Matras.Copied (m : Matras) (rs : List Nat) (m' : Matras) (rs' : List Nat) : Prop where
  inv : m'.Inv rs'
  config : m'.config = m.config
  views : m'.views = m.views
  count : m'.head.blockCount = m.head.blockCount
  kept : ∀ v ∈ m.views, ∀ p, m.Covers v p → m'.addr v p = m.addr v p
  head : ∀ p, m.Covers m.head p → m'.addr m'.head p = m.addr m.head p ∨
    ¬ m.Owns rs (m'.addr m'.head p)
  /-- Only extents that a view has are copied. -/
  alone : ∀ p, m.Covers m.head p → m.Alone p → m'.addr m'.head p = m.addr m.head p
  owns : ∀ x, m.Owns rs x → m'.Owns rs' x
  new : ∀ x, m'.Owns rs' x → m.Owns rs x ∨ m'.Reached x
  reached : ∀ x, m.Reached x → m'.Reached x
  bytes : ∀ x, m.Owns rs x → m'.bytes x = m.bytes x
  headBytes : ∀ e, m.Covers m.head (.leaf e) →
    m'.bytes (m'.addr m'.head (.leaf e)) = m.bytes (m.addr m.head (.leaf e))
  counts : ∃ k, m.Counts k k m'
  reserved : rs'.Sublist rs

namespace Matras.Copied

theorem covers_iff (h : m.Copied rs m' rs') (p : ExtentPos) :
    m'.Covers m'.head p ↔ m.Covers m.head p := by
  rw [Matras.Covers, Matras.Covers, h.config, h.count]

theorem view_covers_iff (h : m.Copied rs m' rs') (v : MatrasView) (p : ExtentPos) :
    m'.Covers v p ↔ m.Covers v p := by
  rw [Matras.Covers, Matras.Covers, h.config]

theorem of_sameTree (ht : m.SameTree m') (hinv : m'.Inv rs)
    (howns : ∀ x, m'.Owns rs x ↔ m.Owns rs x) (hcounts : m.Counts 0 0 m') :
    m.Copied rs m' rs := by
  constructor
  case inv => exact hinv
  case config => exact ht.config
  case views => exact ht.views
  case count => rw [ht.head]
  case kept => exact fun v _ p _ => ht.addr v p
  case head => exact fun p _ => Or.inl (by rw [ht.head, ht.addr])
  case alone => exact fun p _ _ => by rw [ht.head, ht.addr]
  case owns => exact fun x hx => (howns x).2 hx
  case new => exact fun x hx => Or.inl ((howns x).1 hx)
  case reached => exact fun x hx => (ht.reached x).2 hx
  case bytes => exact fun x _ => by rw [ht.bytes]
  case headBytes => exact fun e _ => by rw [ht.bytes, ht.head, ht.addr]
  case counts => exact ⟨0, hcounts⟩
  case reserved => exact List.Sublist.refl rs

theorem refl (hi : m.Inv rs) : m.Copied rs m rs :=
  of_sameTree (.refl m) hi (fun _ => Iff.rfl) (.same rfl rfl rfl)

theorem trans {m₂ : Matras} {rs₂ : List Nat} (h : m.Copied rs m' rs')
    (h' : m'.Copied rs' m₂ rs₂) : m.Copied rs m₂ rs₂ := by
  constructor
  case inv => exact h'.inv
  case config => rw [h'.config, h.config]
  case views => rw [h'.views, h.views]
  case count => rw [h'.count, h.count]
  case kept =>
    intro v hv p hp
    rw [h'.kept v (h.views.symm ▸ hv) p ((h.view_covers_iff v p).2 hp), h.kept v hv p hp]
  case head =>
    intro p hp
    rcases h'.head p ((h.covers_iff p).2 hp) with heq | hnew
    · rw [heq]
      exact h.head p hp
    · exact Or.inr fun ho => hnew (h.owns _ ho)
  case alone =>
    intro p hp hal
    have heq := h.alone p hp hal
    rw [← heq]
    refine h'.alone p ((h.covers_iff p).2 hp) fun v hv hcov => ?_
    rw [h.views] at hv
    rw [h.view_covers_iff] at hcov
    rw [h.kept v hv p hcov, heq]
    exact hal v hv hcov
  case owns => exact fun x hx => h'.owns x (h.owns x hx)
  case new =>
    intro x hx
    rcases h'.new x hx with ho | hr
    · rcases h.new x ho with ho | hr
      · exact Or.inl ho
      · exact Or.inr (h'.reached x hr)
    · exact Or.inr hr
  case reached => exact fun x hx => h'.reached x (h.reached x hx)
  case bytes => exact fun x hx => (h'.bytes x (h.owns x hx)).trans (h.bytes x hx)
  case headBytes =>
    intro e he
    rw [h'.headBytes e ((h.covers_iff _).2 he), h.headBytes e he]
  case counts =>
    obtain ⟨k, hk⟩ := h.counts
    obtain ⟨k', hk'⟩ := h'.counts
    exact ⟨k + k', hk.trans hk'⟩
  case reserved => exact h'.reserved.trans h.reserved

end Matras.Copied

namespace Matras.Inv

/-- Below an extent that a view shares with the head, the head has the view's blocks. -/
theorem grows (hi : m.Inv rs) (hv : v ∈ m.views) (hp : m.Covers m.head p) (hq : m.Covers v p)
    (heq : m.addr m.head p = m.addr v p) (hpath : m.config.onPath id p)
    (hlt : id < v.blockCount) : id < m.head.blockCount := by
  have hsub : List.Sublist [m.snap m.head, m.snap v] (m.all.map m.snap) := by
    rw [Matras.all, List.map_cons]
    exact (List.singleton_sublist.2 (List.mem_map_of_mem hv)).cons_cons _
  exact hi.sharing.grows _ _ hsub p ⟨hp, hq, heq⟩ id (MatrasConfig.below_iff.2 hpath) hlt

/-- An extent that the head does not share with the newest view, it shares with none. -/
theorem private_of_newest (hi : m.Inv rs) {prev : MatrasView} {views : List MatrasView}
    (hviews : m.views = prev :: views) (hp : m.Covers m.head p)
    (hne : m.Covers prev p → m.addr m.head p ≠ m.addr prev p) :
    ∀ v ∈ m.views, m.Covers v p → m.addr m.head p ≠ m.addr v p := by
  have hs := hi.sharing
  rw [Matras.all, hviews, List.map_cons, List.map_cons] at hs
  intro v hv hcov heq
  rw [hviews] at hv
  have hmem : m.snap v ∈ m.snap prev :: views.map m.snap := by
    rw [← List.map_cons]
    exact List.mem_map_of_mem hv
  exact hs.private_of_next (fun h => hne h.right h.eq) (m.snap v) hmem ⟨hp, hcov, heq⟩

end Matras.Inv

/-! ## One copy -/

/-- The head after the extent at `q` was replaced by a copy. -/
structure Matras.Linked (m m₁ : Matras) (q : ExtentPos) (new : Nat) (m' : Matras) : Prop where
  config : m'.config = m.config
  views : m'.views = m.views
  count : m'.head.blockCount = m.head.blockCount
  allocator : m'.allocator = m₁.allocator
  addr : ∀ p, m.Covers m.head p → m'.addr m'.head p = if p = q then new else m.addr m.head p
  bytes : ∀ x, m'.bytes x = if x = new then m.bytes (m.addr m.head q) else m.bytes x
  counts : m₁.Counts 0 1 m'

namespace Matras.Linked

theorem covers_iff (hl : m.Linked m₁ q new m') (v : MatrasView) (p : ExtentPos) :
    m'.Covers v p ↔ m.Covers v p := by
  rw [Matras.Covers, Matras.Covers, hl.config]

theorem covers_head_iff (hl : m.Linked m₁ q new m') (p : ExtentPos) :
    m'.Covers m'.head p ↔ m.Covers m.head p := by
  rw [Matras.Covers, Matras.Covers, hl.config, hl.count]

theorem owns_iff (hl : m.Linked m₁ q new m') (ht : m.Taken rs new m₁ rs') (x : Nat) :
    m'.Owns rs' x ↔ m.Owns rs x ∨ x = new := by
  rw [Matras.Owns, hl.allocator]
  exact ht.owns x

theorem new_reached (hl : m.Linked m₁ q new m') (hq : m.Covers m.head q) : m'.Reached new :=
  ⟨m'.head, m'.head_mem, q, (hl.covers_head_iff q).2 hq, by rw [hl.addr q hq, if_pos rfl]⟩

end Matras.Linked

/-- No version has the new extent. -/
theorem Matras.Taken.addr_ne (hi : m.Inv rs) (ht : m.Taken rs new m₁ rs') (hv : v ∈ m.all)
    (hp : m.Covers v p) :
    m.addr v p ≠ new :=
  fun he => ht.new (he ▸ hi.owned v hv p hp)

/-- Of the tables, only those of the new extent and of one extent that no view has were written. -/
structure Matras.Rewrites (m : Matras) (rs : List Nat) (new y : Nat) (m' : Matras) : Prop where
  slots : ∀ x, x ≠ new → x ≠ y → m'.slots x = m.slots x
  owned : m.Owns rs y ∨ y = new
  views : ∀ v ∈ m.views, ∀ p, m.Covers v p → m.addr v p ≠ y

namespace Matras.Rewrites

variable {y : Nat}

theorem kept (hw : m.Rewrites rs new y m') (hi : m.Inv rs) (ht : m.Taken rs new m₁ rs')
    (hl : m.Linked m₁ q new m') (hv : v ∈ m.views) (hp : m.Covers v p) :
    m'.addr v p = m.addr v p := by
  refine Matras.addr_eq_of_slots hl.config (fun r hr i => ?_) hp
  rw [hw.slots _ (ht.addr_ne hi (Matras.view_mem hv) hr) (hw.views v hv r hr)]

/-- The list of reserved extents goes through none of the extents that were written. -/
theorem reserved_slots (hw : m.Rewrites rs new y m') (ht : m.Taken rs new m₁ rs')
    (hl : m.Linked m₁ q new m') (hx : x ∈ rs') : m'.slots x = m.slots x := by
  have hnot : ¬ m'.Owns rs' x := fun h => h.2 hx
  rw [hl.owns_iff ht, not_or] at hnot
  refine hw.slots x hnot.2 fun he => ?_
  rcases hw.owned with ho | he'
  · exact hnot.1 (he ▸ ho)
  · exact hnot.2 (he.trans he')

end Matras.Rewrites

namespace Matras.Linked

variable {y : Nat}

/-- The extents of the new head are distinct. -/
theorem inj (hl : m.Linked m₁ q new m') (hi : m.Inv rs) (ht : m.Taken rs new m₁ rs')
    {r : ExtentPos} (hp : m.Covers m.head p) (hr : m.Covers m.head r)
    (heq : m'.addr m'.head p = m'.addr m'.head r) : p = r := by
  rw [hl.addr p hp, hl.addr r hr] at heq
  by_cases hpq : p = q <;> by_cases hrq : r = q
  · exact hpq.trans hrq.symm
  · rw [if_pos hpq, if_neg hrq] at heq
    exact absurd heq.symm (ht.addr_ne hi m.head_mem hr)
  · rw [if_neg hpq, if_pos hrq] at heq
    exact absurd heq (ht.addr_ne hi m.head_mem hp)
  · rw [if_neg hpq, if_neg hrq] at heq
    exact hi.inj m.head_mem m.head_mem hp hr heq

theorem inv (hl : m.Linked m₁ q new m') (hi : m.Inv rs) (ht : m.Taken rs new m₁ rs')
    (hw : m.Rewrites rs new y m') : m'.Inv rs' := by
  refine hi.update hl.config hl.views (fun v hv p hp => hw.kept hi ht hl hv hp)
    (fun p r hp hr heq => ?_)
    (fun p hp => ?_) (fun v hv p hp hpv heq _ id hpath hlt => ?_) (fun p hp => ?_)
    (fun v hv p hp => ?_) ?_ ?_
  · exact hl.inj hi ht ((hl.covers_head_iff p).1 hp) ((hl.covers_head_iff r).1 hr) heq
  · rw [hl.covers_head_iff] at hp
    rw [hl.addr p hp]
    by_cases hpq : p = q
    · rw [if_pos hpq]
      exact Or.inr fun v hv r hr => (ht.addr_ne hi (Matras.view_mem hv) hr).symm
    · rw [if_neg hpq]
      exact Or.inl ⟨hp, rfl⟩
  · rw [hl.count]
    exact hi.grows hv hp hpv heq hpath hlt
  · rw [hl.covers_head_iff] at hp
    rw [hl.addr p hp, hl.owns_iff ht]
    by_cases hpq : p = q
    · rw [if_pos hpq]
      exact Or.inr rfl
    · rw [if_neg hpq]
      exact Or.inl (hi.owned m.head m.head_mem p hp)
  · rw [hl.owns_iff ht]
    exact Or.inl (hi.owned v (Matras.view_mem hv) p hp)
  · rw [hl.count, hl.config]
    exact hi.bound m.head m.head_mem
  · rw [hl.allocator]
    have hok := ht.inv.alloc
    rw [ht.tree.slots] at hok
    exact hok.congr fun x hx => hw.reserved_slots ht hl hx

/-- What a version reached is reached, because a view has the extent that was replaced. -/
theorem reached (hl : m.Linked m₁ q new m') (hi : m.Inv rs) (ht : m.Taken rs new m₁ rs')
    (hw : m.Rewrites rs new y m')
    (hshared : ∃ v ∈ m.views, m.Covers v q ∧ m.addr v q = m.addr m.head q) (hx : m.Reached x) :
    m'.Reached x := by
  have hview : ∀ v ∈ m.views, ∀ p, m.Covers v p → m'.Reached (m.addr v p) := fun v hv p hp =>
    ⟨v, Matras.view_mem (hl.views.symm ▸ hv), p, (hl.covers_iff v p).2 hp, hw.kept hi ht hl hv hp⟩
  obtain ⟨v, hv, p, hp, rfl⟩ := hx
  rcases List.mem_cons.1 hv with rfl | hv
  · by_cases hpq : p = q
    · obtain ⟨w, hwv, hwq, heq⟩ := hshared
      rw [hpq, ← heq]
      exact hview w hwv q hwq
    · exact ⟨m'.head, m'.head_mem, p, (hl.covers_head_iff p).2 hp, by rw [hl.addr p hp, if_neg hpq]⟩
  · exact hview v hv p hp

/-- A copy, when only the new extent and one extent that no view has were written. -/
theorem copied (hl : m.Linked m₁ q new m') (hi : m.Inv rs) (ht : m.Taken rs new m₁ rs')
    (hcounts : m.Counts 1 0 m₁) (hq : m.Covers m.head q) (hw : m.Rewrites rs new y m')
    (hshared : ∃ v ∈ m.views, m.Covers v q ∧ m.addr v q = m.addr m.head q) :
    m.Copied rs m' rs' := by
  constructor
  case inv => exact hl.inv hi ht hw
  case config => exact hl.config
  case views => exact hl.views
  case count => exact hl.count
  case kept => exact fun v hv p hp => hw.kept hi ht hl hv hp
  case head =>
    intro p hp
    rw [hl.addr p hp]
    by_cases hpq : p = q
    · rw [if_pos hpq]
      exact Or.inr ht.new
    · rw [if_neg hpq]
      exact Or.inl rfl
  case alone =>
    intro p hp hal
    rw [hl.addr p hp, if_neg]
    rintro rfl
    obtain ⟨v, hv, hvp, heq⟩ := hshared
    exact hal v hv hvp heq
  case owns => exact fun x hx => (hl.owns_iff ht x).2 (Or.inl hx)
  case new =>
    intro x hx
    rcases (hl.owns_iff ht x).1 hx with ho | rfl
    · exact Or.inl ho
    · exact Or.inr (hl.new_reached hq)
  case reached => exact fun x hx => hl.reached hi ht hw hshared hx
  case bytes =>
    intro x hx
    rw [hl.bytes, if_neg]
    rintro rfl
    exact ht.new hx
  case headBytes =>
    intro e he
    rw [hl.bytes, hl.addr _ he]
    by_cases heq : ExtentPos.leaf e = q
    · rw [if_pos heq, if_pos rfl, heq]
    · rw [if_neg heq, if_neg (ht.addr_ne hi m.head_mem he)]
  case counts =>
    have hc := hcounts.trans hl.counts
    exact ⟨1, by simpa using hc⟩
  case reserved => exact ht.reserved

end Matras.Linked

namespace Matras

/-- How `matras_touch_no_check` and `matras_alloc_internal` put an extent at a position of the
head. -/
def link (m : Matras) : ExtentPos → Matras → Nat → Matras
  | .root => Matras.setRoot
  | .mid i => fun m' new => m'.setSlot m.head.root i new
  | .leaf e => fun m' new => m'.setSlot (m.addr m.head (.mid (e / m.config.fanout)))
      (e % m.config.fanout) new

/-- The table that `link` writes. -/
def table (m : Matras) (new : Nat) : ExtentPos → Nat
  | .root => new
  | .mid _ => m.head.root
  | .leaf e => m.addr m.head (.mid (e / m.config.fanout))

end Matras

theorem Matras.link_counts (m m₁ : Matras) (q : ExtentPos) (new y : Nat) :
    m₁.Counts 0 1 (m.link q ((m₁.copyExtent new y).addReadViewExtents 1) new) := by
  have hsame : m₁.Counts 0 0 (m₁.copyExtent new y) := .same rfl rfl rfl
  have hcounts := hsame.addReadViewExtents (k := 1) Int.cast_one.symm
  cases q with
  | root => exact ⟨hcounts.extents, hcounts.total, hcounts.views, hcounts.size⟩
  | mid i => exact ⟨hcounts.extents, hcounts.total, hcounts.views, hcounts.size⟩
  | leaf e => exact ⟨hcounts.extents, hcounts.total, hcounts.views, hcounts.size⟩

theorem ExtentPos.leaf_eq {c : MatrasConfig} {e e' : Nat} (h1 : e' / c.fanout = e / c.fanout)
    (h2 : e' % c.fanout = e % c.fanout) :
    e' = e := by
  rw [← Nat.div_add_mod e' c.fanout, h1, h2, Nat.div_add_mod]

/-- The head with a copy in the place of one of its extents. -/
theorem Matras.Taken.linked (hi : m.Inv rs) (ht : m.Taken rs new m₁ rs') (hq : m.Covers m.head q) :
    m.Linked m₁ q new (m.link q ((m₁.copyExtent new (m.addr m.head q)).addReadViewExtents 1) new) ∧
      ∀ x, x ≠ new → x ≠ m.table new q →
        (m.link q ((m₁.copyExtent new (m.addr m.head q)).addReadViewExtents 1) new).slots x =
        m.slots x := by
  obtain ⟨hhead, hviews, hconfig, hslots, hbytes⟩ := ht.tree
  have hne : ∀ p, m.Covers m.head p → m.addr m.head p ≠ new :=
    fun p hp he => ht.new (he ▸ hi.owned m.head m.head_mem p hp)
  have hroot : m.head.root ≠ new := hne .root hq.root
  cases q with
  | root =>
      refine ⟨⟨hconfig, hviews, by rw [← hhead]; rfl, rfl, fun p hp => ?_, fun x => ?_,
        m.link_counts m₁ _ new _⟩,
        fun x hx _ => ?_⟩
      · cases p with
        | root => simp [Matras.addr, Matras.link, Matras.setRoot]
        | mid i => simp [Matras.addr, Matras.link, Matras.setRoot, Matras.copyExtent,
            Matras.addReadViewExtents, hslots]
        | leaf e =>
            have hmid : m.slots m.head.root (e / m.config.fanout) ≠ new := hne _ hp.mid_of_leaf
            simp [Matras.addr, Matras.link, Matras.setRoot, Matras.copyExtent,
              Matras.addReadViewExtents, hslots, hconfig, hmid]
      · simp only [Matras.link, Matras.setRoot, Matras.copyExtent,
          Matras.addReadViewExtents, hbytes]
      · simp [Matras.link, Matras.setRoot, Matras.copyExtent, Matras.addReadViewExtents, hslots, hx]
  | mid i =>
      have hmids : ∀ j, m.Covers m.head (.mid j) → m.slots m.head.root j ≠ m.head.root := by
        intro j hj he
        cases hi.inj m.head_mem m.head_mem hj hj.root he
      refine ⟨⟨hconfig, hviews, by rw [← hhead]; rfl, rfl, fun p hp => ?_, fun x => ?_,
        m.link_counts m₁ _ new _⟩, fun x hx hy => ?_⟩
      · cases p with
        | root => simp [Matras.addr, Matras.link, Matras.setSlot, Matras.copyExtent,
            Matras.addReadViewExtents, hhead]
        | mid j =>
            simp [Matras.addr, Matras.link, Matras.setSlot, Matras.copyExtent,
              Matras.addReadViewExtents, hhead, hslots, hroot]
        | leaf e =>
            have hmid : m.slots m.head.root (e / m.config.fanout) ≠ new := hne _ hp.mid_of_leaf
            have hmid' := hmids _ hp.mid_of_leaf
            by_cases hij : e / m.config.fanout = i
            · simp [Matras.addr, Matras.link, Matras.setSlot, Matras.copyExtent,
                Matras.addReadViewExtents, hhead, hslots, hconfig, hij, hroot.symm]
            · simp [Matras.addr, Matras.link, Matras.setSlot, Matras.copyExtent,
                Matras.addReadViewExtents, hhead, hslots, hconfig, hij, hroot, hmid, hmid']
      · simp only [Matras.link, Matras.setSlot, Matras.copyExtent,
          Matras.addReadViewExtents, hbytes]
      · have hy' : x ≠ m.head.root := hy
        simp [Matras.link, Matras.setSlot, Matras.copyExtent, Matras.addReadViewExtents, hslots,
          hx, hy']
  | leaf e =>
      have hmid : m.slots m.head.root (e / m.config.fanout) ≠ new := hne _ hq.mid_of_leaf
      have hrootMid : m.head.root ≠ m.slots m.head.root (e / m.config.fanout) := by
        intro he
        cases hi.inj m.head_mem m.head_mem hq.root hq.mid_of_leaf he
      refine ⟨⟨hconfig, hviews, by rw [← hhead]; rfl, rfl, fun p hp => ?_, fun x => ?_,
        m.link_counts m₁ _ new _⟩, fun x hx hy => ?_⟩
      · cases p with
        | root => simp [Matras.addr, Matras.link, Matras.setSlot, Matras.copyExtent,
            Matras.addReadViewExtents, hhead]
        | mid j =>
            simp [Matras.addr, Matras.link, Matras.setSlot, Matras.copyExtent,
              Matras.addReadViewExtents, hhead, hslots, hroot, hrootMid]
        | leaf e' =>
            have hmid' : m.slots m.head.root (e' / m.config.fanout) ≠ new := hne _ hp.mid_of_leaf
            -- the slot is the one that was written only if the extent is the same
            have hsame : (m.slots m.head.root (e' / m.config.fanout) =
                m.slots m.head.root (e / m.config.fanout) ∧
                e' % m.config.fanout = e % m.config.fanout) ↔ e' = e := by
              constructor
              · rintro ⟨h1, h2⟩
                have hpos := hi.inj m.head_mem m.head_mem hp.mid_of_leaf hq.mid_of_leaf h1
                rw [ExtentPos.mid.injEq] at hpos
                exact ExtentPos.leaf_eq hpos h2
              · rintro rfl
                exact ⟨rfl, rfl⟩
            simp [Matras.addr, Matras.link, Matras.setSlot, Matras.copyExtent,
              Matras.addReadViewExtents, hhead, hslots, hconfig, hroot, hrootMid, hmid', hsame]
      · simp only [Matras.link, Matras.setSlot, Matras.copyExtent,
          Matras.addReadViewExtents, hbytes]
      · have hy' : x ≠ m.slots m.head.root (e / m.config.fanout) := hy
        simp [Matras.link, Matras.addr, Matras.setSlot, Matras.copyExtent,
          Matras.addReadViewExtents, hslots, hx, hy']

/-- The extent at one position of the head was replaced by a copy. -/
structure Matras.Replaced (m : Matras) (rs : List Nat) (q : ExtentPos) (m' : Matras)
    (rs' : List Nat) : Prop where
  copied : m.Copied rs m' rs'
  addr : ∀ p, m.Covers m.head p → p ≠ q → m'.addr m'.head p = m.addr m.head p
  new : ¬ m.Owns rs (m'.addr m'.head q)
  draws : m.allocator.Draws 1 m'.allocator

/-- One level of `matras_touch_no_check`. -/
theorem touchLevel_spec (hi : m.Inv rs) (hv : v ∈ m.views) (hq : m.Covers m.head q)
    (hvq : m.Covers v q)
    (hpriv : q ≠ .root → ∀ w ∈ m.views, ∀ p, m.Covers w p → m.addr w p ≠ m.table 0 q) :
    (m.addr m.head q ≠ m.addr v q ∧ touchLevel m (m.addr m.head q) (m.addr v q) (m.link q) =
        (some (m.addr m.head q), m)) ∨
    (m.addr m.head q = m.addr v q ∧
      ((∃ m', touchLevel m (m.addr m.head q) (m.addr v q) (m.link q) = (none, m') ∧
        m.Copied rs m' rs ∧ m.SameTree m' ∧
          m.allocator.avail = 0) ∨
        ∃ m' rs', touchLevel m (m.addr m.head q) (m.addr v q) (m.link q) =
        (some (m'.addr m'.head q), m') ∧
          m.Replaced rs q m' rs')) := by
  by_cases heq : m.addr m.head q = m.addr v q
  · refine Or.inr ⟨heq, ?_⟩
    unfold touchLevel
    rw [if_pos heq]
    unfold matrasCopyReadViewExtent
    rcases matrasAllocExtent_spec hi with
      ⟨m', halloc, htree, hinv, howns, hcounts, havail⟩
      | ⟨new, m₁, rs', halloc, ht, hcounts, hdraws⟩
    · left
      exact ⟨m', by rw [halloc], .of_sameTree htree hinv howns hcounts, htree, havail⟩
    · right
      obtain ⟨hl, hslots⟩ := ht.linked hi hq
      have hnewq := (hl.addr q hq).trans (if_pos rfl)
      have htable : m.table new q = new ∨ (q ≠ .root ∧ m.table new q = m.table 0 q) := by
        cases q with
        | root => exact Or.inl rfl
        | mid i => exact Or.inr ⟨(by intro h; cases h), rfl⟩
        | leaf e => exact Or.inr ⟨(by intro h; cases h), rfl⟩
      have hy : m.Owns rs (m.table new q) ∨ m.table new q = new := by
        cases q with
        | root => exact Or.inr rfl
        | mid i => exact Or.inl (hi.owned m.head m.head_mem .root hq.root)
        | leaf e => exact Or.inl (hi.owned m.head m.head_mem _ hq.mid_of_leaf)
      refine ⟨_, rs', by rw [halloc]; exact congrArg (·, _) (congrArg some hnewq.symm), ?_⟩
      have hviews : ∀ w ∈ m.views, ∀ p, m.Covers w p → m.addr w p ≠ m.table new q := by
        intro w hw p hp he
        rcases htable with h | ⟨hroot, h⟩
        · exact ht.addr_ne hi (Matras.view_mem hw) hp (he.trans h)
        · exact hpriv hroot w hw p hp (he.trans h)
      refine ⟨hl.copied hi ht hcounts hq ⟨hslots, hy, hviews⟩ ⟨v, hv, hvq, heq.symm⟩,
        fun p hp hpq => ?_, ?_, ?_⟩
      · rw [hl.addr p hp, if_neg hpq]
      · rw [hnewq]
        exact ht.new
      · rw [hl.allocator]
        exact hdraws
  · exact Or.inl ⟨heq, by rw [touchLevel, if_neg heq]⟩

/-! ## The levels together -/

/-- The head has its own extents at the positions `P`; `n` of them are new, and only those that
it shared with `prev`. -/
structure Matras.Touched (m : Matras) (rs : List Nat) (prev : MatrasView) (P : ExtentPos → Prop)
    (n : Nat) (m' : Matras) (rs' : List Nat) : Prop where
  copied : m.Copied rs m' rs'
  fresh : ∀ p, P p → m.Covers m.head p → ∀ v ∈ m.views, m.Covers v p →
    m'.addr m'.head p ≠ m.addr v p
  kept : ∀ p, m.Covers m.head p → (¬ P p ∨ (m.Covers prev p → m.addr m.head p ≠ m.addr prev p)) →
    m'.addr m'.head p = m.addr m.head p
  draws : m.allocator.Draws n m'.allocator

/-- A touch that failed: fewer than `n` extents could be had, and the extent at `q` was not
replaced. -/
structure Matras.Starved (m : Matras) (rs : List Nat) (q : ExtentPos) (n : Nat) (m' : Matras)
    (rs' : List Nat) : Prop where
  copied : m.Copied rs m' rs'
  avail : m.allocator.avail < n
  kept : m'.addr m'.head q = m.addr m.head q

namespace Matras.Touched

variable {prev : MatrasView} {views : List MatrasView} {P Q : ExtentPos → Prop} {n k : Nat}

theorem of_replaced (hi : m.Inv rs)
    (hprev : m.Covers m.head q → m.Covers prev q ∧ m.addr m.head q = m.addr prev q)
    (h : m.Replaced rs q m' rs') : m.Touched rs prev (· = q) 1 m' rs' where
  copied := h.copied
  fresh p hp _ v hv hcov he := by
    subst hp
    exact h.new (he ▸ hi.owned v (Matras.view_mem hv) p hcov)
  kept p hp hor := by
    refine h.addr p hp ?_
    rintro rfl
    rcases hor with hne | hne
    · exact hne rfl
    · exact hne (hprev hp).1 (hprev hp).2
  draws := h.draws

/-- Nothing is replaced where the head shares nothing with the newest view. -/
theorem of_private (hi : m.Inv rs) (hviews : m.views = prev :: views) (hq : m.Covers m.head q)
    (hne : m.Covers prev q → m.addr m.head q ≠ m.addr prev q) :
    m.Touched rs prev (· = q) 0 m rs where
  copied := .refl hi
  fresh p hp _ v hv hcov := by
    subst hp
    exact hi.private_of_newest hviews hq hne v hv hcov
  kept _ _ _ := rfl
  draws := .refl _

theorem trans {m₂ : Matras} {rs₂ : List Nat} (hi : m.Inv rs) (hprev : prev ∈ m.views)
    (h : m.Touched rs prev P n m' rs') (h' : m'.Touched rs' prev Q k m₂ rs₂) :
    m.Touched rs prev (fun p => P p ∨ Q p) (n + k) m₂ rs₂ where
  copied := h.copied.trans h'.copied
  fresh p hp hh v hv hcov := by
    have hv' : v ∈ m'.views := h.copied.views.symm ▸ hv
    have hh' := (h.copied.covers_iff p).2 hh
    have hcov' := (h.copied.view_covers_iff v p).2 hcov
    rcases hp with hp | hp
    · rcases h'.copied.head p hh' with heq | hnew
      · rw [heq]
        exact h.fresh p hp hh v hv hcov
      · exact fun he => hnew (he ▸ h.copied.owns _ (hi.owned v (Matras.view_mem hv) p hcov))
    · rw [← h.copied.kept v hv p hcov]
      exact h'.fresh p hp hh' v hv' hcov'
  kept p hp hor := by
    have h1 : m'.addr m'.head p = m.addr m.head p := by
      refine h.kept p hp ?_
      rcases hor with hor | hor
      · exact Or.inl fun hP => hor (Or.inl hP)
      · exact Or.inr hor
    rw [← h1]
    refine h'.kept p ((h.copied.covers_iff p).2 hp) ?_
    rcases hor with hor | hor
    · exact Or.inl fun hQ => hor (Or.inr hQ)
    · refine Or.inr fun hcov => ?_
      have hcov' := (h.copied.view_covers_iff prev p).1 hcov
      rw [h1, h.copied.kept prev hprev p hcov']
      exact hor hcov'
  draws := h.draws.trans h'.draws

/-- The rest of the touch failed. -/
theorem starved {m₂ : Matras} {rs₂ : List Nat} (h : m.Touched rs prev P n m' rs')
    (hq : m.Covers m.head q) (hP : ¬ P q) (h' : m'.Starved rs' q k m₂ rs₂) :
    m.Starved rs q (n + k) m₂ rs₂ where
  copied := h.copied.trans h'.copied
  avail := by
    have h1 := h.draws.avail
    have h2 := h'.avail
    omega
  kept := h'.kept.trans (h.kept q hq (Or.inl hP))

end Matras.Touched

namespace Matras

/-- The number of extents that a touch copies on the third level. -/
def leafCopies (m : Matras) (v : MatrasView) (e : Nat) : Nat :=
  if m.addr m.head (.leaf e) = m.addr v (.leaf e) then 1 else 0

/-- The number of extents that a touch copies below the root; what lies below a shared extent is
shared. -/
def midCopies (m : Matras) (v : MatrasView) (e : Nat) : Nat :=
  if m.addr m.head (.mid (e / m.config.fanout)) = m.addr v (.mid (e / m.config.fanout)) then 2
    else m.leafCopies v e

/-- The number of extents that a touch copies. -/
def rootCopies (m : Matras) (v : MatrasView) (e : Nat) : Nat :=
  if m.head.root = v.root then 3 else m.midCopies v e

end Matras

section Levels

variable {prev : MatrasView} {views : List MatrasView}

theorem touchLeaf_eq (hc : m.config.Ok) (v : MatrasView) (id : Nat) :
    touchLeaf m (m.addr m.head (.mid (m.config.extentOf id / m.config.fanout)))
        (m.addr v (.mid (m.config.extentOf id / m.config.fanout))) id =
      match touchLevel m (m.addr m.head (.leaf (m.config.extentOf id)))
        (m.addr v (.leaf (m.config.extentOf id)))
        (m.link (.leaf (m.config.extentOf id))) with
      | (none, m) => (none, m)
      | (some extent3, m) =>
          (some { extent := extent3, offset := m.config.n3 id * m.config.blockSize }, m) := by
  unfold touchLeaf
  rw [hc.n2_eq]
  rfl

theorem touchMid_eq (hc : m.config.Ok) (v : MatrasView) (id : Nat) :
    touchMid m m.head.root v.root id =
      match touchLevel m (m.addr m.head (.mid (m.config.extentOf id / m.config.fanout)))
        (m.addr v (.mid (m.config.extentOf id / m.config.fanout)))
        (m.link (.mid (m.config.extentOf id / m.config.fanout))) with
      | (none, m) => (none, m)
      | (some extent2, m') =>
          touchLeaf m' extent2 (m.addr v (.mid (m.config.extentOf id / m.config.fanout))) id := by
  unfold touchMid
  rw [hc.n1_eq]
  rfl

/-- The result of the third level is the block's address. -/
theorem matrasGet_of_leaf (hc : m.config.Ok) (id : Nat) :
    ({ extent := m.addr m.head (.leaf (m.config.extentOf id)),
        offset := m.config.n3 id * m.config.blockSize } : BlockPtr) =
      matrasGet m id := by
  rw [matrasGet, matrasViewGetNoCheck_eq hc, hc.n3_eq]

/-- The third level. -/
theorem touchLeaf_spec (hi : m.Inv rs) (hviews : m.views = prev :: views)
    (hid : id < m.head.blockCount) (hcov : m.Covers prev (.leaf (m.config.extentOf id)))
    (hpriv : ∀ w ∈ m.views, ∀ p, m.Covers w p →
      m.addr w p ≠ m.addr m.head (.mid (m.config.extentOf id / m.config.fanout))) :
    (∃ m' rs', touchLeaf m (m.addr m.head (.mid (m.config.extentOf id / m.config.fanout)))
        (m.addr prev (.mid (m.config.extentOf id / m.config.fanout))) id = (none, m') ∧
      m.Starved rs (.leaf (m.config.extentOf id))
        (m.leafCopies prev (m.config.extentOf id)) m' rs') ∨
    ∃ m' rs', touchLeaf m (m.addr m.head (.mid (m.config.extentOf id / m.config.fanout)))
        (m.addr prev (.mid (m.config.extentOf id / m.config.fanout))) id =
        (some (matrasGet m' id), m') ∧
      m.Touched rs prev (· = .leaf (m.config.extentOf id))
        (m.leafCopies prev (m.config.extentOf id)) m' rs' := by
  have hprev : prev ∈ m.views := by rw [hviews]; exact List.mem_cons_self
  have hq : m.Covers m.head (.leaf (m.config.extentOf id)) := .of_path rfl hid
  rw [touchLeaf_eq hi.config, Matras.leafCopies]
  rcases touchLevel_spec hi hprev hq hcov (fun _ w hw p hp => hpriv w hw p hp) with ⟨hne, heq⟩
    | ⟨he, hrest⟩
  · right
    rw [heq, if_neg hne]
    exact ⟨m, rs, by rw [← matrasGet_of_leaf hi.config], .of_private hi hviews hq fun _ => hne⟩
  · rw [if_pos he]
    rcases hrest with ⟨m', heq, hcopied, htree, havail⟩ | ⟨m', rs', heq, hrep⟩
    · left
      rw [heq]
      exact ⟨m', rs, rfl, hcopied, by omega, by rw [htree.head, htree.addr]⟩
    · right
      rw [heq]
      refine ⟨m', rs', ?_, .of_replaced hi (fun _ => ⟨hcov, he⟩) hrep⟩
      have hc := hrep.copied.config
      rw [← matrasGet_of_leaf hrep.copied.inv.config, ← hc]

/-- What lies below an extent that the head shares with a view is shared, too. -/
theorem leaf_eq_of_mid {e : Nat}
    (h : m.addr m.head (.mid (e / m.config.fanout)) = m.addr v (.mid (e / m.config.fanout))) :
    m.addr m.head (.leaf e) = m.addr v (.leaf e) :=
  congrArg (m.slots · (e % m.config.fanout)) h

theorem mid_eq_of_root {i : Nat} (h : m.head.root = v.root) :
    m.addr m.head (.mid i) = m.addr v (.mid i) :=
  congrArg (m.slots · i) h

/-- The second and the third level. -/
theorem touchMid_spec (hi : m.Inv rs) (hviews : m.views = prev :: views)
    (hid : id < m.head.blockCount) (hcov : m.Covers prev (.leaf (m.config.extentOf id)))
    (hpriv : ∀ w ∈ m.views, ∀ p, m.Covers w p → m.addr w p ≠ m.head.root) :
    (∃ m' rs', touchMid m m.head.root prev.root id = (none, m') ∧
      m.Starved rs (.leaf (m.config.extentOf id))
        (m.midCopies prev (m.config.extentOf id)) m' rs') ∨
    ∃ m' rs', touchMid m m.head.root prev.root id = (some (matrasGet m' id), m') ∧
      m.Touched rs prev (fun p => p = .mid (m.config.extentOf id / m.config.fanout) ∨
        p = .leaf (m.config.extentOf id))
        (m.midCopies prev (m.config.extentOf id)) m' rs' := by
  have hprev : prev ∈ m.views := by rw [hviews]; exact List.mem_cons_self
  have hleaf : m.Covers m.head (.leaf (m.config.extentOf id)) := .of_path rfl hid
  have hq := hleaf.mid_of_leaf
  rw [touchMid_eq hi.config, Matras.midCopies]
  rcases touchLevel_spec hi hprev hq hcov.mid_of_leaf (fun _ w hw p hp => hpriv w hw p hp) with
    ⟨hne, heq⟩ | ⟨he, hrest⟩
  · rw [heq, if_neg hne]
    have ht : m.Touched rs prev (· = .mid (m.config.extentOf id / m.config.fanout)) 0 m rs :=
      .of_private hi hviews hq fun _ => hne
    have hpriv' : ∀ w ∈ m.views, ∀ p, m.Covers w p →
        m.addr w p ≠ m.addr m.head (.mid (m.config.extentOf id / m.config.fanout)) := by
      intro w hw p hp he
      obtain rfl := hi.inj (Matras.view_mem hw) m.head_mem hp hq he
      exact ht.fresh _ rfl hq w hw hp he.symm
    rcases touchLeaf_spec hi hviews hid hcov hpriv' with ⟨m', rs', heq', hst⟩ | ⟨m', rs', heq', ht'⟩
    · exact Or.inl ⟨m', rs', heq', hst⟩
    · right
      refine ⟨m', rs', heq', ?_⟩
      have htrans := ht.trans hi hprev ht'
      rwa [Nat.zero_add] at htrans
  · rw [if_pos he]
    rcases hrest with ⟨m', heq, hcopied, htree, havail⟩ | ⟨m₁, rs₁, heq, hrep⟩
    · left
      rw [heq]
      exact ⟨m', rs, rfl, hcopied, by omega, by rw [htree.head, htree.addr]⟩
    · rw [heq]
      have hcp := hrep.copied
      have hc := hcp.config
      have ht : m.Touched rs prev (· = .mid (m.config.extentOf id / m.config.fanout)) 1 m₁ rs₁ :=
        .of_replaced hi (fun _ => ⟨hcov.mid_of_leaf, he⟩) hrep
      have hmidp : m₁.addr prev (.mid (m.config.extentOf id / m.config.fanout)) =
          m.addr prev (.mid (m.config.extentOf id / m.config.fanout)) :=
          hcp.kept prev hprev _ hcov.mid_of_leaf
      have hpriv' : ∀ w ∈ m₁.views, ∀ p, m₁.Covers w p →
          m₁.addr w p ≠ m₁.addr m₁.head (.mid (m.config.extentOf id / m.config.fanout)) := by
        intro w hw p hp he'
        rw [hcp.views] at hw
        rw [hcp.view_covers_iff] at hp
        rw [hcp.kept w hw p hp] at he'
        exact hrep.new (he' ▸ hi.owned w (Matras.view_mem hw) p hp)
      -- the copy has the pointers of the old extent, and the third level is still shared
      have hone : m₁.leafCopies prev (m.config.extentOf id) = 1 := by
        rw [Matras.leafCopies, if_pos]
        rw [hrep.addr _ hleaf (by intro h; cases h), hcp.kept prev hprev _ hcov]
        exact leaf_eq_of_mid he
      have hspec := touchLeaf_spec hcp.inv (hcp.views.trans hviews) (hcp.count.symm ▸ hid)
        ((hcp.view_covers_iff prev _).2 (hc.symm ▸ hcov)) (hc.symm ▸ hpriv')
      rw [hc, hone, hmidp] at hspec
      rcases hspec with ⟨m', rs', heq', hst⟩ | ⟨m', rs', heq', ht'⟩
      · exact Or.inl ⟨m', rs', heq', ht.starved hleaf (by intro h; cases h) hst⟩
      · exact Or.inr ⟨m', rs', heq', ht.trans hi hprev ht'⟩

/-- The three levels. -/
theorem matrasTouchNoCheck_spec (hi : m.Inv rs) (hviews : m.views = prev :: views)
    (hid : id < m.head.blockCount) (hcov : m.Covers prev (.leaf (m.config.extentOf id))) :
    (∃ m' rs', matrasTouchNoCheck m prev.root id = (none, m') ∧
      m.Starved rs (.leaf (m.config.extentOf id))
        (m.rootCopies prev (m.config.extentOf id)) m' rs') ∨
    ∃ m' rs', matrasTouchNoCheck m prev.root id = (some (matrasGet m' id), m') ∧
      m.Touched rs prev (m.config.onPath id) (m.rootCopies prev (m.config.extentOf id)) m' rs' := by
  have hprev : prev ∈ m.views := by rw [hviews]; exact List.mem_cons_self
  have hleaf : m.Covers m.head (.leaf (m.config.extentOf id)) := .of_path rfl hid
  have hpath : (fun p => p = ExtentPos.root ∨ p = .mid (m.config.extentOf id / m.config.fanout) ∨
      p = .leaf (m.config.extentOf id)) = m.config.onPath id := by
    funext p
    cases p <;> simp [MatrasConfig.onPath, eq_comm]
  rw [← hpath]
  have hunfold : matrasTouchNoCheck m prev.root id =
      match touchLevel m (m.addr m.head .root) (m.addr prev .root) (m.link .root) with
      | (none, m) => (none, m)
      | (some extent1, m) => touchMid m extent1 prev.root id := rfl
  rw [hunfold, Matras.rootCopies]
  rcases touchLevel_spec hi hprev hleaf.root hcov.root (fun h => absurd rfl h) with ⟨hne, heq⟩
    | ⟨he, hrest⟩
  · have hne' : m.head.root ≠ prev.root := hne
    rw [heq, if_neg hne']
    have ht : m.Touched rs prev (· = .root) 0 m rs := .of_private hi hviews hleaf.root fun _ => hne
    have hpriv : ∀ w ∈ m.views, ∀ p, m.Covers w p → m.addr w p ≠ m.head.root := by
      intro w hw p hp he
      obtain rfl := hi.inj (Matras.view_mem hw) m.head_mem hp hleaf.root he
      exact ht.fresh _ rfl hleaf.root w hw hp he.symm
    rcases touchMid_spec hi hviews hid hcov hpriv with ⟨m', rs', heq', hst⟩ | ⟨m', rs', heq', ht'⟩
    · exact Or.inl ⟨m', rs', heq', hst⟩
    · right
      refine ⟨m', rs', heq', ?_⟩
      have htrans := ht.trans hi hprev ht'
      rwa [Nat.zero_add] at htrans
  · have he' : m.head.root = prev.root := he
    rw [if_pos he']
    rcases hrest with ⟨m', heq, hcopied, htree, havail⟩ | ⟨m₁, rs₁, heq, hrep⟩
    · left
      rw [heq]
      exact ⟨m', rs, rfl, hcopied, by omega, by rw [htree.head, htree.addr]⟩
    · rw [heq]
      have hcp := hrep.copied
      have hc := hcp.config
      have ht : m.Touched rs prev (· = .root) 1 m₁ rs₁ :=
        .of_replaced hi (fun _ => ⟨hcov.root, he⟩) hrep
      have hpriv : ∀ w ∈ m₁.views, ∀ p, m₁.Covers w p → m₁.addr w p ≠ m₁.head.root := by
        intro w hw p hp he''
        rw [hcp.views] at hw
        rw [hcp.view_covers_iff] at hp
        rw [hcp.kept w hw p hp] at he''
        have hnew : ¬ m.Owns rs m₁.head.root := hrep.new
        exact hnew (he'' ▸ hi.owned w (Matras.view_mem hw) p hp)
      have htwo : m₁.midCopies prev (m.config.extentOf id) = 2 := by
        rw [Matras.midCopies, if_pos]
        rw [hc, hrep.addr _ hleaf.mid_of_leaf (by intro h; cases h),
          hcp.kept prev hprev _ hcov.mid_of_leaf]
        exact mid_eq_of_root he'
      have hspec := touchMid_spec hcp.inv (hcp.views.trans hviews) (hcp.count.symm ▸ hid)
        ((hcp.view_covers_iff prev _).2 (hc.symm ▸ hcov)) hpriv
      rw [hc, htwo] at hspec
      rcases hspec with ⟨m', rs', heq', hst⟩ | ⟨m', rs', heq', ht'⟩
      · exact Or.inl ⟨m', rs', heq', ht.starved hleaf (by intro h; cases h) hst⟩
      · exact Or.inr ⟨m', rs', heq', ht.trans hi hprev ht'⟩

end Levels

/-! ## `matras_touch` -/

/-- `matras_needs_touch` asks whether the newest view has blocks in the extent. -/
theorem matrasNeedsTouch_iff (hi : m.Inv rs) :
    matrasNeedsTouch m id = true ↔ ∃ prev views, m.views = prev :: views ∧
      m.Covers prev (.leaf (m.config.extentOf id)) := by
  unfold matrasNeedsTouch
  cases hviews : m.views with
  | nil => simp
  | cons prev views =>
      have hprev : prev ∈ m.views := by rw [hviews]; exact List.mem_cons_self
      have hbound :=
        Nat.le_trans (hi.bound prev (Matras.view_mem hprev)) hi.config.capacity_le_two_pow
      have hpos := m.config.perExtent_pos
      have hiff : (∃ p vs, prev :: views = p :: vs ∧ m.Covers p (.leaf (m.config.extentOf id))) ↔
          m.config.extentOf id * m.config.perExtent < prev.blockCount := by
        constructor
        · rintro ⟨p, vs, h, hcov⟩
          obtain ⟨rfl, rfl⟩ := List.cons.inj h
          exact hcov
        · exact fun h => ⟨prev, views, rfl, h⟩
      rw [hiff]
      show (if prev.blockCount ≠ 0 then _ else _) = true ↔ _
      by_cases hzero : prev.blockCount = 0
      · rw [if_neg (not_not.2 hzero)]
        simp [hzero]
      · rw [if_pos hzero, Nat.mod_eq_of_lt (by omega), Nat.shiftRight_eq_div_pow,
          Nat.shiftRight_eq_div_pow, ← MatrasConfig.perExtent,
          Bool.not_eq_true', decide_eq_false_iff_not, Nat.not_lt, Nat.le_div_iff_mul_le hpos]
        show id / m.config.perExtent * m.config.perExtent ≤ _ ↔
          id / m.config.perExtent * m.config.perExtent < _
        omega

namespace Matras

/-- The number of extents that `matras_touch` copies. -/
def copies (m : Matras) (id : Nat) : Nat :=
  match m.views with
  | [] => 0
  | prev :: _ => if matrasNeedsTouch m id then m.rootCopies prev (m.config.extentOf id) else 0

/-- No view has blocks in the extent of the block, and below an extent that a view shares with
the head on the way to it, the view has blocks of earlier extents only. -/
def Isolated (m : Matras) (id : Nat) : Prop :=
  ∀ v ∈ m.views, ∀ p, m.config.onPath id p → m.Covers m.head p → m.Covers v p →
  m.addr m.head p = m.addr v p →
    ∀ i, m.config.onPath i p → i < v.blockCount → i < m.config.extentOf id * m.config.perExtent

end Matras

/-- No view has the extent of an isolated block. -/
theorem Matras.Isolated.alone (h : m.Isolated id) (hid : id < m.head.blockCount) :
    m.Alone (.leaf (m.config.extentOf id)) := by
  intro v hv hcov he
  have hleaf : m.config.onPath id (.leaf (m.config.extentOf id)) := rfl
  have hfirst : m.config.extentOf id * m.config.perExtent < v.blockCount := hcov
  have hpath :
      m.config.onPath (m.config.extentOf id * m.config.perExtent) (.leaf (m.config.extentOf id)) :=
    Nat.mul_div_cancel _ m.config.perExtent_pos
  exact absurd (h v hv _ hleaf (.of_path hleaf hid) hcov he.symm _ hpath hfirst) (Nat.lt_irrefl _)

/-- A block that needs no touch is isolated. -/
theorem Matras.Inv.isolated_of_not_needsTouch (hi : m.Inv rs)
    (hno : matrasNeedsTouch m id ≠ true) : m.Isolated id := by
  intro v hv p hpath hcov hcovv heq i hip hlt
  rw [ne_eq, matrasNeedsTouch_iff hi] at hno
  cases hviews : m.views with
  | nil =>
      rw [hviews] at hv
      cases hv
  | cons prev views =>
      have hprev : ¬ m.config.extentOf id * m.config.perExtent < prev.blockCount :=
        fun h => hno ⟨prev, views, hviews, h⟩
      have hle : i < prev.blockCount := by
        rw [hviews] at hv
        rcases List.mem_cons.1 hv with rfl | hv
        · exact hlt
        · have hs := hi.sharing
          rw [Matras.all, hviews, List.map_cons, List.map_cons] at hs
          have hmem : m.snap v ∈ views.map m.snap := List.mem_map_of_mem hv
          have hold : (m.snap m.head).Shares m.config.layout (m.snap v) p := ⟨hcov, hcovv, heq⟩
          have hbetween := hs.between _ _ _
            (((List.singleton_sublist.2 hmem).cons_cons (m.snap prev)).cons_cons (m.snap m.head))
            p hold
          have hshare := hbetween.symm.trans hold
          exact hs.grows _ _
            (((List.singleton_sublist.2 hmem).cons_cons (m.snap prev)).cons (m.snap m.head))
            p hshare i (MatrasConfig.below_iff.2 hip) hlt
      omega

/-- `matras_touch` with what it returns and the state behind it. -/
theorem matrasTouch_spec (hi : m.Inv rs) (hid : id < m.head.blockCount) :
    (∃ m' rs', matrasTouch m id = some (none, m') ∧ matrasNeedsTouch m id = true ∧
      m.Starved rs (.leaf (m.config.extentOf id)) (m.copies id) m' rs') ∨
    ∃ m' rs', matrasTouch m id = some (some (matrasGet m' id), m') ∧ m.Copied rs m' rs' ∧
    m'.Isolated id ∧
      m.allocator.Draws (m.copies id) m'.allocator ∧
      (matrasNeedsTouch m id = true → ∃ prev views, m.views = prev :: views ∧
        m.Touched rs prev (m.config.onPath id) (m.copies id) m' rs') ∧
      (matrasNeedsTouch m id = false → m' = m) := by
  unfold matrasTouch
  simp only [guard, hid, if_true, Option.pure_def, Option.bind_eq_bind, Option.bind_some]
  cases hneeds : matrasNeedsTouch m id with
  | true =>
      obtain ⟨prev, views, hviews, hcov⟩ := (matrasNeedsTouch_iff hi).1 hneeds
      have hroot : m.prevRoot = prev.root := by rw [Matras.prevRoot, hviews]; rfl
      have hcopies : m.copies id = m.rootCopies prev (m.config.extentOf id) := by
        rw [Matras.copies, hviews]
        exact if_pos hneeds
      rw [if_pos rfl, hroot, hcopies]
      rcases matrasTouchNoCheck_spec hi hviews hid hcov with ⟨m', rs', heq, hst⟩
        | ⟨m', rs', heq, ht⟩
      · exact Or.inl ⟨m', rs', by rw [heq], rfl, hst⟩
      · right
        have hcp := ht.copied
        refine ⟨m', rs', by rw [heq], hcp, ?_,
          ht.draws, fun _ => ⟨prev, views, hviews, ht⟩, fun h => absurd h (by decide)⟩
        intro v hv p hpath hcovh hcovv he
        rw [hcp.views] at hv
        rw [hcp.covers_iff] at hcovh
        rw [hcp.view_covers_iff] at hcovv
        rw [hcp.kept v hv p hcovv] at he
        exact absurd he (ht.fresh p (hcp.config ▸ hpath) hcovh v hv hcovv)
  | false =>
      right
      have hcopies : m.copies id = 0 := by
        rw [Matras.copies]
        cases m.views <;> simp [hneeds]
      rw [hcopies]
      exact ⟨m, rs, rfl, .refl hi, hi.isolated_of_not_needsTouch (by rw [hneeds]; decide),
        .refl _, fun h => absurd h (by decide), fun _ => rfl⟩

end SmallAllocators
