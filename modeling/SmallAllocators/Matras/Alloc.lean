/-
SmallAllocators.Matras.Alloc — new blocks.

`matras_alloc_internal` puts new extents at the positions above the new block
that the head does not have yet, and takes them back when one of them cannot
be had. The slots it writes may lie in extents that views share, but no view
reads them: a view that shares an extent with the head has no more blocks
below it than the head. Only the new number of blocks makes the extents part
of the head.
-/
import SmallAllocators.Matras.Touch

namespace SmallAllocators

variable {m m' m₁ : Matras} {rs rs' : List Nat} {v : MatrasView} {p q : ExtentPos}
    {id x y i new n : Nat}

/-! ## Changes that no view sees -/

/-- The head and the views have the same extents, with the same contents, where they have blocks. -/
structure Matras.SameBlocks (m m' : Matras) : Prop where
  config : m'.config = m.config
  views : m'.views = m.views
  count : m'.head.blockCount = m.head.blockCount
  bytes : m'.bytes = m.bytes
  kept : ∀ v ∈ m.views, ∀ p, m.Covers v p → m'.addr v p = m.addr v p
  head : ∀ p, m.Covers m.head p → m'.addr m'.head p = m.addr m.head p

namespace Matras.SameBlocks

theorem of_sameTree (h : m.SameTree m') : m.SameBlocks m' where
  config := h.config
  views := h.views
  count := by rw [h.head]
  bytes := h.bytes
  kept v _ p _ := h.addr v p
  head p _ := by rw [h.head, h.addr]

theorem covers_iff (h : m.SameBlocks m') (p : ExtentPos) :
    m'.Covers m'.head p ↔ m.Covers m.head p := by
  rw [Matras.Covers, Matras.Covers, h.config, h.count]

theorem view_covers_iff (h : m.SameBlocks m') (v : MatrasView) (p : ExtentPos) :
    m'.Covers v p ↔ m.Covers v p := by
  rw [Matras.Covers, Matras.Covers, h.config]

theorem trans {m₂ : Matras} (h : m.SameBlocks m') (h' : m'.SameBlocks m₂) : m.SameBlocks m₂ where
  config := h'.config.trans h.config
  views := h'.views.trans h.views
  count := h'.count.trans h.count
  bytes := h'.bytes.trans h.bytes
  kept v hv p hp := by rw [h'.kept v (h.views.symm ▸ hv) p ((h.view_covers_iff v p).2 hp),
    h.kept v hv p hp]
  head p hp := by rw [h'.head p ((h.covers_iff p).2 hp), h.head p hp]

theorem reached (h : m.SameBlocks m') (x : Nat) : m'.Reached x ↔ m.Reached x := by
  constructor
  · rintro ⟨v, hv, p, hp, rfl⟩
    rcases List.mem_cons.1 hv with rfl | hv
    · rw [h.covers_iff] at hp
      exact ⟨m.head, m.head_mem, p, hp, (h.head p hp).symm⟩
    · rw [h.views] at hv
      rw [h.view_covers_iff] at hp
      exact ⟨v, Matras.view_mem hv, p, hp, (h.kept v hv p hp).symm⟩
  · rintro ⟨v, hv, p, hp, rfl⟩
    rcases List.mem_cons.1 hv with rfl | hv
    · exact ⟨m'.head, m'.head_mem, p, (h.covers_iff p).2 hp, h.head p hp⟩
    · exact ⟨v, Matras.view_mem (h.views.symm ▸ hv), p, (h.view_covers_iff v p).2 hp,
        h.kept v hv p hp⟩

/-- The invariant, when the extents that are in use stay owned. -/
theorem inv (h : m.SameBlocks m') (hi : m.Inv rs)
    (howns : ∀ v ∈ m.all, ∀ p, m.Covers v p → m'.Owns rs' (m.addr v p))
    (halloc : m'.allocator.Ok m'.slots rs') : m'.Inv rs' := by
  refine hi.update h.config h.views h.kept (fun p q hp hq heq => ?_) (fun p hp => ?_)
    (fun v hv p hp hpv heq _ id hpath hlt => ?_) (fun p hp => ?_)
    (fun v hv p hp => howns v (Matras.view_mem hv) p hp) ?_ halloc
  · rw [h.covers_iff] at hp hq
    rw [h.head p hp, h.head q hq] at heq
    exact hi.inj m.head_mem m.head_mem hp hq heq
  · rw [h.covers_iff] at hp
    exact Or.inl ⟨hp, h.head p hp⟩
  · rw [h.count]
    exact hi.grows hv hp hpv heq hpath hlt
  · rw [h.covers_iff] at hp
    rw [h.head p hp]
    exact howns m.head m.head_mem p hp
  · rw [h.count, h.config]
    exact hi.bound m.head m.head_mem

end Matras.SameBlocks

/-- No block is reached through the slot. -/
structure Matras.Unread (m : Matras) (y i : Nat) : Prop where
  mid : ∀ v ∈ m.all, ∀ j, m.Covers v (.mid j) → v.root = y → j ≠ i
  leaf : ∀ v ∈ m.all, ∀ e, m.Covers v (.leaf e) → m.addr v (.mid (e / m.config.fanout)) = y →
    e % m.config.fanout ≠ i

/-- A slot of an extent that is not in use. -/
theorem Matras.Unread.of_not_reached (hy : ¬ m.Reached y) : m.Unread y i where
  mid v hv _ hj he := absurd ⟨v, hv, .root, hj.root, he⟩ hy
  leaf v hv _ he h := absurd ⟨v, hv, _, he.mid_of_leaf, h⟩ hy

/-- A view that shares an extent of the head does not have what the head does not have below it. -/
theorem Matras.Inv.not_covers (hi : m.Inv rs) (hv : v ∈ m.all) (hp : m.Covers m.head p)
    (hpv : m.Covers v p) (heq : m.addr v p = m.addr m.head p) (hq : ¬ m.Covers m.head q)
    (hpq : m.config.onPath (m.config.layout.first q) p) :
    ¬ m.Covers v q := by
  intro hcov
  rcases List.mem_cons.1 hv with rfl | hv
  · exact hq hcov
  · exact hq (hi.grows hv hp hpv heq.symm hpq hcov)

/-- A slot of the root behind the last one. -/
theorem Matras.Inv.unread_mid (hi : m.Inv rs) (hroot : m.Covers m.head .root)
    (hq : ¬ m.Covers m.head (.mid i)) :
    m.Unread m.head.root i where
  mid v hv j hj he := by
    rintro rfl
    exact hi.not_covers hv hroot hj.root he hq trivial hj
  leaf v hv e he h := by
    cases hi.inj hv m.head_mem he.mid_of_leaf hroot h

/-- A slot of an extent of the second level behind the last one. -/
theorem Matras.Inv.unread_leaf {e : Nat} (hi : m.Inv rs)
    (hmid : m.Covers m.head (.mid (e / m.config.fanout))) (hq : ¬ m.Covers m.head (.leaf e)) :
    m.Unread (m.addr m.head (.mid (e / m.config.fanout))) (e % m.config.fanout) where
  mid v hv j hj he := by
    cases hi.inj hv m.head_mem hj.root hmid he
  leaf v hv e' he h := by
    intro hmod
    have hpos := hi.inj hv m.head_mem he.mid_of_leaf hmid h
    rw [ExtentPos.mid.injEq] at hpos
    obtain rfl := ExtentPos.leaf_eq hpos hmod
    refine hi.not_covers hv hmid he.mid_of_leaf h hq ?_ he
    show e' * m.config.perExtent / m.config.perExtent / m.config.fanout = e' / m.config.fanout
    rw [Nat.mul_div_cancel _ m.config.perExtent_pos]

theorem Matras.Unread.sameBlocks (h : m.Unread y i) (x : Nat) : m.SameBlocks (m.setSlot y i x) := by
  have haddr : ∀ v ∈ m.all, ∀ p, m.Covers v p → (m.setSlot y i x).addr v p = m.addr v p := by
    intro v hv p hp
    have hmid : ∀ j, m.Covers v (.mid j) → (m.setSlot y i x).slots v.root j = m.slots v.root j := by
      intro j hj
      exact if_neg fun hc => h.mid v hv j hj hc.1 hc.2
    cases p with
    | root => rfl
    | mid j => exact hmid j hp
    | leaf e =>
        show (m.setSlot y i x).slots ((m.setSlot y i x).slots v.root (e / m.config.fanout))
          (e % m.config.fanout) = _
        rw [hmid _ hp.mid_of_leaf]
        exact if_neg fun hc => h.leaf v hv e hp hc.1 hc.2
  exact ⟨rfl, rfl, rfl, rfl, fun v hv => haddr v (Matras.view_mem hv), haddr m.head m.head_mem⟩

/-! ## New extents -/

/-- New extents lie at positions where the head has no blocks. -/
structure Matras.Grown (m : Matras) (rs : List Nat) (news : List ExtentPos) (m' : Matras)
    (rs' : List Nat) : Prop where
  blocks : m.SameBlocks m'
  inv : m'.Inv rs'
  owns : ∀ x, m'.Owns rs' x ↔ m.Owns rs x ∨ ∃ p ∈ news, m'.addr m'.head p = x
  uncovered : ∀ p ∈ news, ¬ m.Covers m.head p
  fresh : ∀ p ∈ news, ¬ m.Owns rs (m'.addr m'.head p)
  inj : ∀ p ∈ news, ∀ q ∈ news, m'.addr m'.head p = m'.addr m'.head q → p = q
  counts : m.Counts news.length 0 m'
  reserved : rs'.Sublist rs

namespace Matras.Grown

variable {news : List ExtentPos}

theorem refl (hi : m.Inv rs) : m.Grown rs [] m rs where
  blocks := .of_sameTree (.refl m)
  inv := hi
  owns x := by simp
  uncovered p hp := by cases hp
  fresh p hp := by cases hp
  inj p hp := by cases hp
  counts := .same rfl rfl rfl
  reserved := List.Sublist.refl rs

theorem sameTree (h : m.Grown rs news m' rs') (ht : m'.SameTree m₁) (hi : m₁.Inv rs')
    (howns : ∀ x, m₁.Owns rs' x ↔ m'.Owns rs' x) (hcounts : m'.Counts 0 0 m₁) :
    m.Grown rs news m₁ rs' where
  blocks := h.blocks.trans (.of_sameTree ht)
  inv := hi
  owns x := by simp only [howns, h.owns, ht.head, ht.addr]
  uncovered := h.uncovered
  fresh p hp := by rw [ht.head, ht.addr]; exact h.fresh p hp
  inj p hp q hq := by rw [ht.head, ht.addr, ht.addr]; exact h.inj p hp q hq
  counts := by simpa using h.counts.trans hcounts
  reserved := h.reserved

theorem not_reached (h : m.Grown rs news m' rs') (hi : m.Inv rs) (hp : p ∈ news) :
    ¬ m'.Reached (m'.addr m'.head p) := by
  rw [h.blocks.reached]
  rintro ⟨v, hv, q, hq, he⟩
  exact h.fresh p hp (he ▸ hi.owned v hv q hq)

/-- One more extent. -/
theorem cons {rs₂ : List Nat} {m₂ : Matras} (h : m.Grown rs news m' rs')
    (ht : m'.Taken rs' new m₁ rs₂) (hcounts : m'.Counts 1 0 m₁) (hq : ¬ m.Covers m.head q)
    (hblocks : m₁.SameBlocks m₂) (ha : m₂.allocator = m₁.allocator)
    (hslots : ∀ x ∈ rs₂, m₂.slots x = m₁.slots x) (hcount : m₁.Counts 0 0 m₂)
    (hself : m₂.addr m₂.head q = new)
    (hkeep : ∀ p ∈ news, m₂.addr m₂.head p = m'.addr m'.head p) :
    m.Grown rs (q :: news) m₂ rs₂ := by
  have howns : ∀ x, m₂.Owns rs₂ x ↔ m'.Owns rs' x ∨ x = new := by
    intro x
    rw [Matras.Owns, ha]
    exact ht.owns x
  have hnew : ¬ m.Owns rs new := fun ho => ht.new ((h.owns new).2 (Or.inl ho))
  have hnews : ∀ p ∈ news, m₂.addr m₂.head p ≠ new := by
    intro p hp he
    rw [hkeep p hp] at he
    exact ht.new ((h.owns new).2 (Or.inr ⟨p, hp, he⟩))
  constructor
  case blocks => exact h.blocks.trans ((SameBlocks.of_sameTree ht.tree).trans hblocks)
  case inv =>
    refine hblocks.inv ht.inv (fun v hv p hp => ?_) ?_
    · have ho := ht.inv.owned v hv p hp
      rw [Matras.Owns, ha]
      exact ho
    · rw [ha]
      exact ht.inv.alloc.congr hslots
  case owns =>
    intro x
    rw [howns, h.owns]
    constructor
    · rintro ((ho | ⟨p, hp, he⟩) | rfl)
      · exact Or.inl ho
      · exact Or.inr ⟨p, List.mem_cons_of_mem _ hp, (hkeep p hp).trans he⟩
      · exact Or.inr ⟨q, List.mem_cons_self, hself⟩
    · rintro (ho | ⟨p, hp, he⟩)
      · exact Or.inl (Or.inl ho)
      · rcases List.mem_cons.1 hp with rfl | hp
        · exact Or.inr (he.symm.trans hself)
        · exact Or.inl (Or.inr ⟨p, hp, (hkeep p hp).symm.trans he⟩)
  case uncovered =>
    intro p hp
    rcases List.mem_cons.1 hp with rfl | hp
    · exact hq
    · exact h.uncovered p hp
  case fresh =>
    intro p hp
    rcases List.mem_cons.1 hp with rfl | hp
    · rw [hself]
      exact hnew
    · rw [hkeep p hp]
      exact h.fresh p hp
  case inj =>
    intro p hp r hr he
    rcases List.mem_cons.1 hp with rfl | hp' <;> rcases List.mem_cons.1 hr with rfl | hr'
    · rfl
    · exact absurd (he.symm.trans hself) (hnews r hr')
    · exact absurd (he.trans hself) (hnews p hp')
    · rw [hkeep p hp', hkeep r hr'] at he
      exact h.inj p hp' r hr' he
  case counts =>
    have hc := (h.counts.trans hcounts).trans hcount
    simpa using hc
  case reserved => exact ht.reserved.trans h.reserved

/-- The last extent goes back. -/
theorem free (h : m.Grown rs (q :: news) m' rs') (hi : m.Inv rs) (hq : q ∉ news) :
    ∃ m₂, matrasFreeExtent m' (m'.addr m'.head q) = some m₂ ∧ m.Grown rs news m₂ rs' ∧
      m'.SameTree m₂ := by
  have hown : m'.Owns rs' (m'.addr m'.head q) := (h.owns _).2 (Or.inr ⟨q, List.mem_cons_self, rfl⟩)
  obtain ⟨m₂, heq, ht, hinv, howns, hcounts⟩ :=
    matrasFreeExtent_spec h.inv hown (h.not_reached hi List.mem_cons_self)
  refine ⟨m₂, heq, ?_, ht⟩
  constructor
  case blocks => exact h.blocks.trans (.of_sameTree ht)
  case inv => exact hinv
  case owns =>
    intro x
    simp only [howns, h.owns, ht.head, ht.addr]
    constructor
    · rintro ⟨ho | ⟨p, hp, he⟩, hne⟩
      · exact Or.inl ho
      · rcases List.mem_cons.1 hp with rfl | hp
        · exact absurd he.symm hne
        · exact Or.inr ⟨p, hp, he⟩
    · rintro (ho | ⟨p, hp, he⟩)
      · exact ⟨Or.inl ho, fun hx => h.fresh q List.mem_cons_self (hx ▸ ho)⟩
      · refine ⟨Or.inr ⟨p, List.mem_cons_of_mem _ hp, he⟩, fun hx => hq ?_⟩
        rw [← h.inj p (List.mem_cons_of_mem _ hp) q List.mem_cons_self (he.trans hx)]
        exact hp
  case uncovered => exact fun p hp => h.uncovered p (List.mem_cons_of_mem _ hp)
  case fresh =>
    intro p hp
    rw [ht.head, ht.addr]
    exact h.fresh p (List.mem_cons_of_mem _ hp)
  case inj =>
    intro p hp r hr
    rw [ht.head, ht.addr, ht.addr]
    exact h.inj p (List.mem_cons_of_mem _ hp) r (List.mem_cons_of_mem _ hr)
  case counts =>
    have hc := h.counts.trans hcounts
    rw [List.length_cons] at hc
    simpa [Int.add_assoc] using hc
  case reserved => exact h.reserved

theorem perm {news' : List ExtentPos} (h : m.Grown rs news m' rs') (hp : news.Perm news') :
    m.Grown rs news' m' rs' where
  blocks := h.blocks
  inv := h.inv
  owns x := by simp only [h.owns, hp.mem_iff]
  uncovered p hp' := h.uncovered p (hp.mem_iff.2 hp')
  fresh p hp' := h.fresh p (hp.mem_iff.2 hp')
  inj p hp' q hq := h.inj p (hp.mem_iff.2 hp') q (hp.mem_iff.2 hq)
  counts := hp.length_eq ▸ h.counts
  reserved := h.reserved

end Matras.Grown

/-- A new extent may be put at the position. -/
structure Matras.Linkable (m' : Matras) (rs' : List Nat) (q : ExtentPos) (news : List ExtentPos) :
    Prop where
  blocks : ∀ m₁ new, m'.SameTree m₁ → m₁.SameBlocks (m'.link q m₁ new)
  self : ∀ m₁ new, m'.SameTree m₁ → (m'.link q m₁ new).addr (m'.link q m₁ new).head q = new
  keep : ∀ m₁ new, m'.SameTree m₁ →
    ∀ p ∈ news, (m'.link q m₁ new).addr (m'.link q m₁ new).head p = m'.addr m'.head p
  table : q ≠ .root → m'.Owns rs' (m'.table 0 q)

instance (m : Matras) (v : MatrasView) (p : ExtentPos) : Decidable (m.Covers v p) :=
  inferInstanceAs (Decidable (_ < _))

/-- The position, if the head has no blocks there. -/
def Matras.missing (m : Matras) (p : ExtentPos) : List ExtentPos :=
  if m.Covers m.head p then [] else [p]

theorem Matras.mem_missing : p ∈ m.missing q ↔ p = q ∧ ¬ m.Covers m.head q := by
  unfold Matras.missing
  split <;> simp_all

/-- One level of `matras_alloc_internal`. -/
theorem allocLevel_spec {news : List ExtentPos} {available : Bool} (h : m.Grown rs news m' rs')
    (hav : available = true ↔ m.Covers m.head q)
    (hlink : ¬ m.Covers m.head q → m'.Linkable rs' q news) :
    (∃ m₂, allocLevel m' available (m'.addr m'.head q) (m'.link q) = (none, m₂) ∧
        m.Grown rs news m₂ rs' ∧
      m'.SameTree m₂ ∧ m'.allocator.avail < (m.missing q).length) ∨
    ∃ m₂ rs₂, allocLevel m' available (m'.addr m'.head q) (m'.link q) =
    (some (m₂.addr m₂.head q), m₂) ∧
      m.Grown rs (m.missing q ++ news) m₂ rs₂ ∧
      m'.allocator.Draws (m.missing q).length m₂.allocator ∧
      ∀ p ∈ news, m₂.addr m₂.head p = m'.addr m'.head p := by
  unfold allocLevel Matras.missing
  by_cases hcov : m.Covers m.head q
  · right
    rw [if_pos (hav.2 hcov), if_pos hcov]
    exact ⟨m', rs', rfl, h, .refl _, fun _ _ => rfl⟩
  · rw [if_neg fun hc => hcov (hav.1 hc), if_neg hcov]
    rcases matrasAllocExtent_spec h.inv with
      ⟨m₁, halloc, htree, hinv, howns, hcounts, havail⟩
      | ⟨new, m₁, rs₁, halloc, ht, hcounts, hdraws⟩
    · left
      exact ⟨m₁, by rw [halloc], h.sameTree htree hinv howns hcounts,
        htree, by rw [havail]; exact Nat.zero_lt_one⟩
    · right
      have hl := hlink hcov
      have hself := hl.self m₁ new ht.tree
      refine ⟨m'.link q m₁ new, rs₁, by rw [halloc, hself], ?_, ?_, hl.keep m₁ new ht.tree⟩
      · refine h.cons ht hcounts hcov (hl.blocks m₁ new ht.tree) ?_ (fun x hx => ?_) ?_ hself
          (hl.keep m₁ new ht.tree)
        · cases q <;> rfl
        · -- a table that is written is not reserved
          have hne : q ≠ .root → x ≠ m'.table 0 q := by
            rintro hq rfl
            have hown := (ht.owns _).2 (Or.inl (hl.table hq))
            exact hown.2 hx
          cases q with
          | root => rfl
          | mid i =>
              funext j
              exact if_neg fun hc => hne (by intro h; cases h) hc.1
          | leaf e =>
              funext j
              exact if_neg fun hc => hne (by intro h; cases h) hc.1
        · cases q <;> exact .same rfl rfl rfl
      · have ha : (m'.link q m₁ new).allocator = m₁.allocator := by cases q <;> rfl
        rw [ha]
        exact hdraws

/-- An extent goes back if it was created. -/
theorem rollback_spec {news : List ExtentPos} {available : Bool}
    (h : m.Grown rs (m.missing q ++ news) m' rs') (hi : m.Inv rs)
    (hav : available = true ↔ m.Covers m.head q) (hq : q ∉ news) :
    ∃ m₂, rollback m' available (m'.addr m'.head q) = some m₂ ∧ m.Grown rs news m₂ rs' ∧
      m'.SameTree m₂ := by
  unfold rollback
  unfold Matras.missing at h
  by_cases hcov : m.Covers m.head q
  · rw [if_pos hcov] at h
    rw [if_pos (hav.2 hcov)]
    exact ⟨m', rfl, h, .refl m'⟩
  · rw [if_neg hcov] at h
    rw [if_neg fun hc => hcov (hav.1 hc)]
    exact h.free hi hq

theorem Matras.Unread.of_sameTree (h : m.Unread y i) (ht : m.SameTree m') : m'.Unread y i where
  mid v hv j hj := by
    rw [ht.all] at hv
    rw [ht.covers] at hj
    exact h.mid v hv j hj
  leaf v hv e he := by
    rw [ht.all] at hv
    rw [ht.covers] at he
    rw [ht.addr, ht.config]
    exact h.leaf v hv e he

namespace Matras.Grown

variable {news : List ExtentPos}

/-- The extents at the positions that are there belong to the matras. -/
theorem owned (h : m.Grown rs news m' rs') (hp : m.Covers m.head p ∨ p ∈ news) :
    m'.Owns rs' (m'.addr m'.head p) := by
  rcases hp with hp | hp
  · exact h.inv.owned m'.head m'.head_mem p ((h.blocks.covers_iff p).2 hp)
  · exact (h.owns _).2 (Or.inr ⟨p, hp, rfl⟩)

/-- The extents at different positions are different. -/
theorem addr_ne (h : m.Grown rs news m' rs') (hi : m.Inv rs) (hp : m.Covers m.head p ∨ p ∈ news)
    (hq : m.Covers m.head q ∨ q ∈ news) (hne : p ≠ q) : m'.addr m'.head p ≠ m'.addr m'.head q := by
  intro he
  rcases hp with hp | hp <;> rcases hq with hq | hq
  · rw [h.blocks.head p hp, h.blocks.head q hq] at he
    exact hne (hi.inj m.head_mem m.head_mem hp hq he)
  · rw [h.blocks.head p hp] at he
    exact h.fresh q hq (he ▸ hi.owned m.head m.head_mem p hp)
  · rw [h.blocks.head q hq] at he
    exact h.fresh p hp (he ▸ hi.owned m.head m.head_mem q hq)
  · exact hne (h.inj p hp q hq he)

theorem linkable_root (hq : ¬ m.Covers m.head .root) : m.Linkable rs .root [] where
  blocks m₁ new ht := by
    have hzero : m.head.blockCount = 0 := Nat.eq_zero_of_not_pos hq
    refine ⟨rfl, rfl, rfl, rfl, fun v _ p _ => ?_, fun p hp => ?_⟩
    · cases p <;> rfl
    · rw [Matras.Covers, ht.head, hzero] at hp
      cases hp
  self _ _ _ := rfl
  keep _ _ _ p hp := by cases hp
  table h := absurd rfl h

theorem linkable_mid (h : m.Grown rs news m' rs') (hi : m.Inv rs)
    (hroot : m.Covers m.head .root ∨ .root ∈ news) (hnews : ∀ p ∈ news, p = .root)
    (hq : ¬ m.Covers m.head (.mid i)) : m'.Linkable rs' (.mid i) news where
  blocks m₁ new ht := by
    have hunread : m'.Unread m'.head.root i := by
      rcases hroot with hroot | hroot
      · exact h.inv.unread_mid ((h.blocks.covers_iff _).2 hroot) fun hc =>
          hq ((h.blocks.covers_iff _).1 hc)
      · exact .of_not_reached (h.not_reached hi hroot)
    exact (hunread.of_sameTree ht).sameBlocks new
  self m₁ new ht := by
    show (if m₁.head.root = m'.head.root ∧ i = i then new else _) = new
    rw [if_pos ⟨by rw [ht.head], rfl⟩]
  keep m₁ new ht p hp := by
    obtain rfl := hnews p hp
    show m₁.head.root = m'.head.root
    rw [ht.head]
  table _ := h.owned hroot

theorem linkable_leaf {e : Nat} (h : m.Grown rs news m' rs') (hi : m.Inv rs)
    (hroot : m.Covers m.head .root ∨ .root ∈ news)
    (hmid : m.Covers m.head (.mid (e / m.config.fanout)) ∨ .mid (e / m.config.fanout) ∈ news)
    (hnews : ∀ p ∈ news, p = .root ∨ p = .mid (e / m.config.fanout))
    (hq : ¬ m.Covers m.head (.leaf e)) :
    m'.Linkable rs' (.leaf e) news := by
  have hc := h.blocks.config
  have hne : m'.head.root ≠ m'.addr m'.head (.mid (e / m.config.fanout)) :=
    h.addr_ne hi hroot hmid (by intro h; cases h)
  have hslot : ∀ m₁ new, m'.SameTree m₁ →
      ∀ j, (m'.link (.leaf e) m₁ new).slots m'.head.root j = m'.slots m'.head.root j := by
    intro m₁ new ht j
    rw [← ht.slots]
    exact if_neg fun hx => hne (by rw [← hc]; exact hx.1)
  constructor
  case blocks =>
    intro m₁ new ht
    have hunread :
        m'.Unread (m'.addr m'.head (.mid (e / m'.config.fanout))) (e % m'.config.fanout) := by
      rcases hmid with hmid | hmid
      · rw [← hc] at hmid
        exact h.inv.unread_leaf ((h.blocks.covers_iff _).2 hmid) fun hx =>
          hq ((h.blocks.covers_iff _).1 hx)
      · rw [← hc] at hmid
        exact .of_not_reached (h.not_reached hi hmid)
    exact (hunread.of_sameTree ht).sameBlocks new
  case self =>
    intro m₁ new ht
    show (m'.link (.leaf e) m₁ new).slots
      ((m'.link (.leaf e) m₁ new).slots m₁.head.root (e / m₁.config.fanout))
      (e % m₁.config.fanout) = new
    rw [ht.head, ht.config, hslot m₁ new ht]
    exact if_pos ⟨rfl, rfl⟩
  case keep =>
    intro m₁ new ht p hp
    rcases hnews p hp with rfl | rfl
    · show m₁.head.root = m'.head.root
      rw [ht.head]
    · show (m'.link (.leaf e) m₁ new).slots m₁.head.root (e / m.config.fanout) = _
      rw [ht.head, hslot m₁ new ht]
      rfl
  case table =>
    intro _
    show m'.Owns rs' (m'.addr m'.head (.mid (e / m'.config.fanout)))
    rw [hc]
    exact h.owned hmid

end Matras.Grown

/-! ## `matras_alloc_internal` -/

/-- Whether the extents above the next block are there. -/
theorem MatrasConfig.first_mid_lt (c : MatrasConfig) (n : Nat) :
    c.extentOf n / c.fanout * c.fanout * c.perExtent < n ↔ n % (c.perExtent * c.fanout) ≠ 0 := by
  have h := Nat.div_add_mod n (c.perExtent * c.fanout)
  have heq : c.extentOf n / c.fanout * c.fanout * c.perExtent =
      c.perExtent * c.fanout * (n / (c.perExtent * c.fanout)) := by
    rw [MatrasConfig.extentOf, Nat.div_div_eq_div_mul, Nat.mul_assoc, Nat.mul_comm,
      Nat.mul_comm c.fanout]
  rw [heq]
  omega

theorem MatrasConfig.first_leaf_lt (c : MatrasConfig) (n : Nat) :
    c.extentOf n * c.perExtent < n ↔ n % c.perExtent ≠ 0 := by
  have h := Nat.div_add_mod n c.perExtent
  have heq : c.extentOf n * c.perExtent = c.perExtent * (n / c.perExtent) := Nat.mul_comm _ _
  rw [heq]
  omega

/-- The positions above the next block where the head has no blocks. -/
def Matras.news (m : Matras) : List ExtentPos :=
  m.missing (.leaf (m.config.extentOf m.head.blockCount)) ++
    (m.missing (.mid (m.config.extentOf m.head.blockCount / m.config.fanout)) ++ m.missing .root)

theorem Matras.mem_news :
    p ∈ m.news ↔ m.config.onPath m.head.blockCount p ∧ ¬ m.Covers m.head p := by
  unfold Matras.news
  simp only [List.mem_append, Matras.mem_missing]
  constructor
  · rintro (⟨rfl, h⟩ | ⟨rfl, h⟩ | ⟨rfl, h⟩)
    · exact ⟨rfl, h⟩
    · exact ⟨rfl, h⟩
    · exact ⟨trivial, h⟩
  · rintro ⟨hp, h⟩
    cases p with
    | root => exact Or.inr (Or.inr ⟨rfl, h⟩)
    | mid i => cases hp; exact Or.inr (Or.inl ⟨rfl, h⟩)
    | leaf e => cases hp; exact Or.inl ⟨rfl, h⟩

section Levels

variable {a1 a2 a3 : Bool} {e : Nat}

/-- The third level. -/
theorem allocLeaf_spec (hi : m.Inv rs)
    (h : m.Grown rs (m.missing (.mid (e / m.config.fanout)) ++ m.missing .root) m' rs')
    (h1 : a1 = true ↔ m.Covers m.head .root)
    (h2 : a2 = true ↔ m.Covers m.head (.mid (e / m.config.fanout)))
    (h3 : a3 = true ↔ m.Covers m.head (.leaf e)) (n3 : Nat) :
    (∃ m₂ rs₂, allocLeaf m' a1 a2 a3 (m'.addr m'.head .root)
        (m'.addr m'.head (.mid (e / m.config.fanout)))
        (e % m.config.fanout) n3 = some (none, m₂) ∧ m.Grown rs [] m₂ rs₂ ∧
      m'.allocator.avail < (m.missing (.leaf e)).length) ∨
    ∃ m₂ rs₂, allocLeaf m' a1 a2 a3 (m'.addr m'.head .root)
        (m'.addr m'.head (.mid (e / m.config.fanout)))
        (e % m.config.fanout) n3 =
          some (some { extent := m₂.addr m₂.head (.leaf e), offset := n3 * m.config.blockSize },
            m₂) ∧
      m.Grown rs
        (m.missing (.leaf e) ++ (m.missing (.mid (e / m.config.fanout)) ++ m.missing .root))
        m₂ rs₂ ∧
      m'.allocator.Draws (m.missing (.leaf e)).length m₂.allocator := by
  have hc := h.blocks.config
  have hroot : m.Covers m.head .root ∨
      .root ∈ m.missing (.mid (e / m.config.fanout)) ++ m.missing .root := by
    by_cases hcov : m.Covers m.head .root
    · exact Or.inl hcov
    · exact Or.inr (List.mem_append_right _ (Matras.mem_missing.2 ⟨rfl, hcov⟩))
  have hmid : m.Covers m.head (.mid (e / m.config.fanout)) ∨
      .mid (e / m.config.fanout) ∈ m.missing (.mid (e / m.config.fanout)) ++ m.missing .root := by
    by_cases hcov : m.Covers m.head (.mid (e / m.config.fanout))
    · exact Or.inl hcov
    · exact Or.inr (List.mem_append_left _ (Matras.mem_missing.2 ⟨rfl, hcov⟩))
  have hnews : ∀ p ∈ m.missing (.mid (e / m.config.fanout)) ++ m.missing .root, p = .root ∨
      p = .mid (e / m.config.fanout) := by
    intro p hp
    rcases List.mem_append.1 hp with hp | hp
    · exact Or.inr (Matras.mem_missing.1 hp).1
    · exact Or.inl (Matras.mem_missing.1 hp).1
  have hlevel : allocLevel m' a3
      (m'.slots (m'.addr m'.head (.mid (e / m.config.fanout))) (e % m.config.fanout))
      (fun m₂ new => m₂.setSlot (m'.addr m'.head (.mid (e / m.config.fanout)))
        (e % m.config.fanout) new) =
        allocLevel m' a3 (m'.addr m'.head (.leaf e)) (m'.link (.leaf e)) := by
    rw [← hc]
    rfl
  rw [allocLeaf, hlevel]
  rcases allocLevel_spec h h3 (h.linkable_leaf hi hroot hmid hnews) with
    ⟨m₂, heq, hg, ht, havail⟩ | ⟨m₂, rs₂, heq, hg, hdraws, -⟩
  · left
    rw [heq]
    obtain ⟨m₃, heq₃, hg₃, ht₃⟩ := rollback_spec (hg.perm List.perm_append_comm) hi h1
      (fun hx => by cases (Matras.mem_missing.1 hx).1)
    rw [← List.append_nil (m.missing _)] at hg₃
    obtain ⟨m₄, heq₄, hg₄, ht₄⟩ := rollback_spec hg₃ hi h2 (by simp)
    rw [ht.head, ht.addr] at heq₃
    rw [ht₃.head, ht₃.addr, ht.head, ht.addr] at heq₄
    exact ⟨m₄, rs', by simp [heq₃, heq₄], hg₄, havail⟩
  · right
    rw [heq]
    exact ⟨m₂, rs₂, by rw [← hg.blocks.config], hg, hdraws⟩

/-- The second and the third level. -/
theorem allocMid_spec (hi : m.Inv rs) (h : m.Grown rs (m.missing .root) m' rs')
    (h1 : a1 = true ↔ m.Covers m.head .root)
    (h2 : a2 = true ↔ m.Covers m.head (.mid (e / m.config.fanout)))
    (h3 : a3 = true ↔ m.Covers m.head (.leaf e)) (n3 : Nat) :
    (∃ m₂ rs₂, allocMid m' a1 a2 a3 (m'.addr m'.head .root) (e / m.config.fanout)
        (e % m.config.fanout) n3 =
        some (none, m₂) ∧ m.Grown rs [] m₂ rs₂ ∧
      m'.allocator.avail <
      (m.missing (.leaf e)).length + (m.missing (.mid (e / m.config.fanout))).length) ∨
    ∃ m₂ rs₂, allocMid m' a1 a2 a3 (m'.addr m'.head .root) (e / m.config.fanout)
        (e % m.config.fanout) n3 =
          some (some { extent := m₂.addr m₂.head (.leaf e), offset := n3 * m.config.blockSize },
            m₂) ∧
      m.Grown rs
        (m.missing (.leaf e) ++ (m.missing (.mid (e / m.config.fanout)) ++ m.missing .root))
        m₂ rs₂ ∧
      m'.allocator.Draws ((m.missing (.leaf e)).length +
        (m.missing (.mid (e / m.config.fanout))).length) m₂.allocator := by
  have hroot : m.Covers m.head .root ∨ .root ∈ m.missing .root := by
    by_cases hcov : m.Covers m.head .root
    · exact Or.inl hcov
    · exact Or.inr (Matras.mem_missing.2 ⟨rfl, hcov⟩)
  have hlevel : allocLevel m' a2 (m'.slots (m'.addr m'.head .root) (e / m.config.fanout))
      (fun m₂ new => m₂.setSlot (m'.addr m'.head .root) (e / m.config.fanout) new) =
        allocLevel m' a2 (m'.addr m'.head (.mid (e / m.config.fanout)))
          (m'.link (.mid (e / m.config.fanout))) := rfl
  rw [allocMid, hlevel]
  rcases allocLevel_spec h h2 (h.linkable_mid hi hroot fun p hp => (Matras.mem_missing.1 hp).1) with
    ⟨m₂, heq, hg, ht, havail⟩ | ⟨m₂, rs₂, heq, hg, hdraws, hkeep⟩
  · left
    rw [heq]
    rw [← List.append_nil (m.missing _)] at hg
    obtain ⟨m₃, heq₃, hg₃, -⟩ := rollback_spec hg hi h1 (by simp)
    rw [ht.head, ht.addr] at heq₃
    exact ⟨m₃, rs', by simp [heq₃], hg₃, by omega⟩
  · rw [heq]
    have hrootEq : m₂.addr m₂.head .root = m'.addr m'.head .root := by
      rcases hroot with hcov | hmem
      · rw [hg.blocks.head _ hcov, h.blocks.head _ hcov]
      · exact hkeep _ hmem
    rw [← hrootEq]
    rcases allocLeaf_spec hi hg h1 h2 h3 n3 with ⟨m₃, rs₃, heq₃, hg₃, havail⟩
      | ⟨m₃, rs₃, heq₃, hg₃, hdraws₃⟩
    · left
      have hd := hdraws.avail
      exact ⟨m₃, rs₃, heq₃, hg₃, by omega⟩
    · right
      have hd := hdraws.trans hdraws₃
      rw [Nat.add_comm] at hd
      exact ⟨m₃, rs₃, heq₃, hg₃, hd⟩

end Levels

/-- `matras_alloc_internal`: the extents for one more block, or nothing. -/
theorem matrasAllocInternal_spec (hi : m.Inv rs) (hlt : m.head.blockCount < m.config.capacity) :
    (∃ m' rs', matrasAllocInternal m = some (none, m') ∧ m.Grown rs [] m' rs' ∧
        m.allocator.avail < m.news.length) ∨
    ∃ m' rs', matrasAllocInternal m = some (some (matrasGet m' m.head.blockCount), m') ∧
    m.Grown rs m.news m' rs' ∧
      m.allocator.Draws m.news.length m'.allocator := by
  have hc := hi.config
  have hmod : m.head.blockCount % 2 ^ 32 = m.head.blockCount :=
    Nat.mod_eq_of_lt (Nat.lt_of_lt_of_le hlt hc.capacity_le_two_pow)
  have h1 : decide (m.head.blockCount ≠ 0) = true ↔ m.Covers m.head .root := by
    rw [decide_eq_true_iff]
    exact Nat.pos_iff_ne_zero.symm
  have h2 : decide (m.head.blockCount &&& m.config.mask1 ≠ 0) = true ↔
      m.Covers m.head (.mid (m.config.extentOf m.head.blockCount / m.config.fanout)) := by
    rw [decide_eq_true_iff, hc.and_mask1]
    exact (m.config.first_mid_lt _).symm
  have h3 : decide (m.head.blockCount &&& m.config.mask1 &&& m.config.mask2 ≠ 0) = true ↔
      m.Covers m.head (.leaf (m.config.extentOf m.head.blockCount)) := by
    rw [decide_eq_true_iff, hc.and_masks]
    exact (m.config.first_leaf_lt _).symm
  have hlevel : allocLevel m (decide (m.head.blockCount ≠ 0)) m.head.root Matras.setRoot =
      allocLevel m (decide (m.head.blockCount ≠ 0)) (m.addr m.head .root) (m.link .root) := rfl
  rw [matrasAllocInternal, hmod, hlevel]
  rcases allocLevel_spec (.refl hi) h1 (Matras.Grown.linkable_root) with
    ⟨m₂, heq, hg, -, havail⟩ | ⟨m₂, rs₂, heq, hg, hdraws, -⟩
  · left
    rw [heq]
    refine ⟨m₂, rs, rfl, hg, ?_⟩
    rw [Matras.news, List.length_append, List.length_append]
    omega
  · rw [List.append_nil] at hg
    rw [heq]
    show (∃ m' rs', allocMid m₂ _ _ _ _ (m₂.config.n1 _) (m₂.config.n2 _)
        (_ &&& m₂.config.mask1 &&& m₂.config.mask2) = _ ∧ _) ∨
      ∃ m' rs', allocMid m₂ _ _ _ _ (m₂.config.n1 _) (m₂.config.n2 _)
        (_ &&& m₂.config.mask1 &&& m₂.config.mask2) = _ ∧ _
    rw [hg.blocks.config, hc.n1_eq, hc.n2_eq]
    rcases allocMid_spec hi hg h1 h2 h3
      (m.head.blockCount &&& m.config.mask1 &&& m.config.mask2) with
      ⟨m₃, rs₃, heq₃, hg₃, havail⟩ | ⟨m₃, rs₃, heq₃, hg₃, hdraws₃⟩
    · left
      have hd := hdraws.avail
      refine ⟨m₃, rs₃, heq₃, hg₃, ?_⟩
      rw [Matras.news, List.length_append, List.length_append]
      omega
    · right
      refine ⟨m₃, rs₃, ?_, hg₃, ?_⟩
      · rw [heq₃, matrasGet, matrasViewGetNoCheck_eq hg₃.inv.config, hg₃.blocks.config,
          hc.and_masks]
      · have hd := hdraws.trans hdraws₃
        rw [Matras.news, List.length_append, List.length_append]
        rwa [Nat.add_comm, Nat.add_assoc] at hd

/-! ## The number of extents -/

namespace MatrasConfig

/-- The number of extents for `b` blocks. -/
def need (c : MatrasConfig) (b : Nat) : Nat :=
  if b = 0 then 0 else 1 + (b + (2 ^ c.shift1 - 1)) / 2 ^ c.shift1 + (b + (2 ^ c.shift2 - 1)) /
    2 ^ c.shift2

theorem first_eq_mul (c : MatrasConfig) (p : ExtentPos) :
    ∃ k, c.layout.first p = k * c.perExtent := by
  cases p with
  | root => exact ⟨0, (Nat.zero_mul _).symm⟩
  | mid i => exact ⟨i * c.fanout, rfl⟩
  | leaf e => exact ⟨e, rfl⟩

/-- More blocks of one extent need the extents above the first of them. -/
theorem first_lt_iff (c : MatrasConfig) {b n : Nat} (hlt : b < n)
    (hle : n ≤ (c.extentOf b + 1) * c.perExtent) (p : ExtentPos) :
    c.layout.first p < n ↔ c.layout.first p < b ∨ c.onPath b p := by
  constructor
  · intro hp
    obtain ⟨k, hk⟩ := c.first_eq_mul p
    have hk' : k < c.extentOf b + 1 := by
      rw [hk] at hp
      exact Nat.lt_of_mul_lt_mul_right (Nat.lt_of_lt_of_le hp hle)
    have hle' : k * c.perExtent ≤ b :=
      Nat.le_trans (Nat.mul_le_mul_right _ (Nat.le_of_lt_succ hk'))
        (Nat.div_mul_le_self b c.perExtent)
    rcases Nat.lt_or_eq_of_le hle' with h | h
    · rw [hk]
      exact Or.inl h
    · right
      have hbelow := below_iff.1 (c.layout.below_first p)
      rwa [hk, h] at hbelow
  · rintro (hp | hp)
    · exact Nat.lt_trans hp hlt
    · exact Nat.lt_of_le_of_lt (c.layout.first_le p b (below_iff.2 hp)) hlt

theorem ceil_add {b n d : Nat} (hd : 0 < d) (hlt : b < n) (hle : n ≤ (b / d + 1) * d) :
    (n + (d - 1)) / d = (b + (d - 1)) / d + if b % d = 0 then 1 else 0 := by
  have hb := Nat.div_add_mod b d
  have hmod := Nat.mod_lt b hd
  have hn : (n + (d - 1)) / d = b / d + 1 := by
    rw [Nat.div_eq_iff hd]
    rw [Nat.add_mul, Nat.one_mul] at hle
    constructor
    · rw [Nat.add_mul, Nat.one_mul, Nat.mul_comm]
      omega
    · rw [Nat.add_mul, Nat.one_mul, Nat.mul_comm] at *
      omega
  rw [hn]
  split
  · next hzero =>
      have : (b + (d - 1)) / d = b / d := by
        rw [Nat.div_eq_iff hd, Nat.mul_comm]
        omega
      rw [this]
  · next hzero =>
      have : (b + (d - 1)) / d = b / d + 1 := by
        rw [Nat.div_eq_iff hd, Nat.add_mul, Nat.one_mul, Nat.mul_comm]
        omega
      rw [this, Nat.add_zero]

end MatrasConfig

theorem Matras.length_missing (m : Matras) (p : ExtentPos) :
    (m.missing p).length = if m.Covers m.head p then 0 else 1 := by
  unfold Matras.missing
  split <;> rfl

/-- The new extents are those that more blocks need. -/
theorem Matras.need_eq (hc : m.config.Ok) (hlt : m.head.blockCount < n)
    (hle : n ≤ (m.config.extentOf m.head.blockCount + 1) * m.config.perExtent) :
    m.config.need n = m.config.need m.head.blockCount + m.news.length := by
  have hP := m.config.perExtent_pos
  have hF := m.config.fanout_pos
  have hle1 : n ≤ (m.head.blockCount / (m.config.perExtent * m.config.fanout) + 1) *
      (m.config.perExtent * m.config.fanout) := by
    have hdiv : m.config.extentOf m.head.blockCount <
        (m.config.extentOf m.head.blockCount / m.config.fanout + 1) * m.config.fanout := by
      rw [Nat.mul_comm]
      exact Nat.lt_mul_div_succ _ hF
    rw [← Nat.div_div_eq_div_mul, Nat.mul_comm m.config.perExtent, ← Nat.mul_assoc]
    exact Nat.le_trans hle (Nat.mul_le_mul_right _ hdiv)
  have hone := MatrasConfig.ceil_add (Nat.mul_pos hP hF) hlt hle1
  have htwo := MatrasConfig.ceil_add hP hlt hle
  have hroot : m.Covers m.head .root ↔ m.head.blockCount ≠ 0 := Nat.pos_iff_ne_zero
  have hmid : m.Covers m.head (.mid (m.config.extentOf m.head.blockCount / m.config.fanout)) ↔
      _ := m.config.first_mid_lt _
  have hleaf : m.Covers m.head (.leaf (m.config.extentOf m.head.blockCount)) ↔ _ :=
    m.config.first_leaf_lt _
  rw [Matras.news, List.length_append, List.length_append, Matras.length_missing,
    Matras.length_missing, Matras.length_missing]
  simp only [MatrasConfig.need, hc.two_pow_shift1]
  rw [if_neg (by omega : n ≠ 0), ← MatrasConfig.perExtent, hone, htwo]
  simp only [hroot, hmid, hleaf]
  by_cases hzero : m.head.blockCount = 0
  · simp only [hzero, Nat.zero_mod, if_true, ne_eq, not_true, if_false, Nat.zero_add,
      Nat.div_eq_of_lt (by omega : m.config.perExtent - 1 < m.config.perExtent),
      Nat.div_eq_of_lt (Nat.sub_lt (Nat.mul_pos hP hF) Nat.zero_lt_one)]
  · simp only [hzero, if_false, ne_eq, not_false_eq_true, if_true, ite_not]
    omega

/-- More blocks in the extent of the next one. -/
structure Matras.Extended (m : Matras) (rs : List Nat) (n : Nat) (m' : Matras) (rs' : List Nat) :
    Prop where
  inv : m'.Inv rs'
  config : m'.config = m.config
  views : m'.views = m.views
  count : m'.head.blockCount = n
  bytes : m'.bytes = m.bytes
  kept : ∀ v ∈ m.views, ∀ p, m.Covers v p → m'.addr v p = m.addr v p
  head : ∀ p, m.Covers m.head p → m'.addr m'.head p = m.addr m.head p
  owns : ∀ x, m'.Owns rs' x ↔ m.Owns rs x ∨ ∃ p, ¬ m.Covers m.head p ∧ m'.Covers m'.head p ∧
    m'.addr m'.head p = x
  fresh : ∀ p, ¬ m.Covers m.head p → m'.Covers m'.head p → ¬ m.Owns rs (m'.addr m'.head p)
  counts : m.Counts ((m.config.need n : Int) - m.config.need m.head.blockCount) 0 m'

theorem Matras.addr_setBlockCount (m : Matras) (n : Nat) (p : ExtentPos) :
    (m.setBlockCount n).addr (m.setBlockCount n).head p = m.addr m.head p := by
  cases p <;> rfl

theorem Matras.Grown.extend (h : m.Grown rs m.news m' rs') (hi : m.Inv rs)
    (hlt : m.head.blockCount < n)
    (hle : n ≤ (m.config.extentOf m.head.blockCount + 1) * m.config.perExtent)
    (hcap : n ≤ m.config.capacity) :
    m.Extended rs n (m'.setBlockCount n) rs' := by
  have hc := h.blocks.config
  have haddr := m'.addr_setBlockCount n
  have hcov : ∀ p, (m'.setBlockCount n).Covers (m'.setBlockCount n).head p ↔
      m.Covers m.head p ∨ p ∈ m.news := by
    intro p
    have hiff := m.config.first_lt_iff hlt hle p
    rw [Matras.mem_news]
    show m'.config.layout.first p < n ↔ _
    rw [hc, hiff, Matras.Covers]
    tauto
  constructor
  case inv =>
    refine h.inv.update rfl rfl (fun v _ p _ => by cases p <;> rfl) (fun p q hp hq heq => ?_)
      (fun p hp => ?_)
      (fun v hv p hp hpv heq _ id hpath hid => ?_) (fun p hp => ?_)
      (fun v hv p hp => h.inv.owned v (Matras.view_mem hv) p hp) ?_
      h.inv.alloc
    · rw [hcov] at hp hq
      rw [haddr, haddr] at heq
      by_contra hne
      exact h.addr_ne hi hp hq hne heq
    · rw [hcov] at hp
      rw [haddr]
      rcases hp with hp | hp
      · exact Or.inl ⟨(h.blocks.covers_iff p).2 hp, rfl⟩
      · refine Or.inr fun v hv q hq he => ?_
        exact h.not_reached hi hp ⟨v, Matras.view_mem hv, q, hq, he.symm⟩
    · have hlt' := h.inv.grows hv hp hpv heq hpath hid
      rw [h.blocks.count] at hlt'
      exact Nat.lt_trans hlt' hlt
    · rw [hcov] at hp
      rw [haddr]
      exact h.owned hp
    · show n ≤ m'.config.capacity
      rw [hc]
      exact hcap
  case config => exact hc
  case views => exact h.blocks.views
  case count => rfl
  case bytes => exact h.blocks.bytes
  case kept =>
    intro v hv p hp
    rw [← h.blocks.kept v hv p hp]
    cases p <;> rfl
  case head =>
    intro p hp
    rw [haddr, h.blocks.head p hp]
  case owns =>
    intro x
    show m'.Owns rs' x ↔ _
    rw [h.owns]
    constructor
    · rintro (ho | ⟨p, hp, he⟩)
      · exact Or.inl ho
      · exact Or.inr ⟨p, h.uncovered p hp, (hcov p).2 (Or.inr hp), by rw [haddr, he]⟩
    · rintro (ho | ⟨p, hp, hp', he⟩)
      · exact Or.inl ho
      · exact Or.inr ⟨p, ((hcov p).1 hp').resolve_left hp, by rw [← he, haddr]⟩
  case fresh =>
    intro p hp hp'
    rw [haddr]
    exact h.fresh p (((hcov p).1 hp').resolve_left hp)
  case counts =>
    have hlen : ((m.config.need n : Int) - m.config.need m.head.blockCount) = m.news.length := by
      rw [Matras.need_eq hi.config hlt hle]
      omega
    rw [hlen]
    exact ⟨h.counts.extents, h.counts.total, h.counts.views, h.counts.size⟩

/-! ## `matras_alloc` and `matras_alloc_range` -/

theorem matrasGet_setBlockCount (m : Matras) (n id : Nat) :
    matrasGet (m.setBlockCount n) id = matrasGet m id := rfl

/-- `matras_alloc`. -/
theorem matrasAlloc_spec (hi : m.Inv rs) :
    (∃ m' rs', matrasAlloc m = some (none, m') ∧ m.Grown rs [] m' rs' ∧
      (m.head.blockCount = m.config.capacity ∨ m.allocator.avail < m.news.length)) ∨
    ∃ m' rs', matrasAlloc m = some (some (matrasGet m' m.head.blockCount, m.head.blockCount), m') ∧
      m.Extended rs (m.head.blockCount + 1) m' rs' ∧
      m.allocator.Draws m.news.length m'.allocator := by
  have hcap : m.head.blockCount ≤ m.config.capacity := hi.bound m.head m.head_mem
  unfold matrasAlloc
  simp only [guard, hcap, if_true, Option.pure_def, Option.bind_eq_bind, Option.bind_some]
  by_cases hfull : m.head.blockCount = m.config.capacity
  · left
    rw [if_pos hfull]
    exact ⟨m, rs, rfl, .refl hi, Or.inl hfull⟩
  · rw [if_neg hfull]
    have hlt : m.head.blockCount < m.config.capacity := Nat.lt_of_le_of_ne hcap hfull
    rcases matrasAllocInternal_spec hi hlt with ⟨m', rs', heq, hg, havail⟩
      | ⟨m', rs', heq, hg, hdraws⟩
    · left
      rw [heq]
      exact ⟨m', rs', rfl, hg, Or.inr havail⟩
    · right
      have hle : m.head.blockCount + 1 ≤
          (m.config.extentOf m.head.blockCount + 1) * m.config.perExtent := by
        rw [Nat.mul_comm]
        exact Nat.lt_mul_div_succ _ m.config.perExtent_pos
      rw [heq, ← hg.blocks.count]
      refine ⟨m'.setBlockCount (m'.head.blockCount + 1), rs', rfl, ?_, hdraws⟩
      rw [hg.blocks.count]
      exact hg.extend hi (Nat.lt_succ_self _) hle hlt

/-- The arguments of the range operations. -/
structure Matras.RangeOk (m : Matras) (r : Nat) : Prop where
  pos : r ≠ 0
  count : m.head.blockCount % r = 0
  extent : m.config.extentSize / m.config.blockSize % r = 0

theorem Matras.RangeOk.perExtent {r : Nat} (h : m.RangeOk r) (hc : m.config.Ok) :
    m.config.perExtent % r = 0 := by
  have he := h.extent
  rwa [hc.blocks, Nat.mul_div_cancel _ hc.blockSize_pos] at he

/-- The range lies in one extent. -/
theorem MatrasConfig.range_le (c : MatrasConfig) {b r : Nat} (hb : b % r = 0)
    (hp : c.perExtent % r = 0) :
    b + r ≤ (c.extentOf b + 1) * c.perExtent := by
  have hlt : b < (c.extentOf b + 1) * c.perExtent := by
    rw [Nat.mul_comm]
    exact Nat.lt_mul_div_succ _ c.perExtent_pos
  have hdvd : r ∣ (c.extentOf b + 1) * c.perExtent := Dvd.dvd.mul_left (Nat.dvd_of_mod_eq_zero hp) _
  obtain ⟨k, hk⟩ := hdvd
  obtain ⟨j, rfl⟩ := Nat.dvd_of_mod_eq_zero hb
  rw [hk] at hlt ⊢
  have hjk : j < k := Nat.lt_of_mul_lt_mul_left hlt
  calc r * j + r = r * (j + 1) := (Nat.mul_succ r j).symm
    _ ≤ r * k := Nat.mul_le_mul_left r hjk

/-- `matras_alloc_range`. -/
theorem matrasAllocRange_spec {r : Nat} (hi : m.Inv rs) (hr : m.RangeOk r) :
    (∃ m' rs', matrasAllocRange m r = some (none, m') ∧ m.Grown rs [] m' rs' ∧
      (m.config.capacity < m.head.blockCount + r ∨ m.allocator.avail < m.news.length)) ∨
    ∃ m' rs', matrasAllocRange m r =
    some (some (matrasGet m' m.head.blockCount, m.head.blockCount), m') ∧
      m.Extended rs (m.head.blockCount + r) m' rs' ∧
      m.allocator.Draws m.news.length m'.allocator := by
  have hcap : m.head.blockCount ≤ m.config.capacity := hi.bound m.head m.head_mem
  have hpos : 0 < r := Nat.pos_of_ne_zero hr.pos
  unfold matrasAllocRange
  simp only [guard, hcap, hr.pos, hr.count, hr.extent, if_true, ne_eq, not_false_eq_true,
    Option.pure_def, Option.bind_eq_bind, Option.bind_some]
  by_cases hfull : m.head.blockCount + r > m.config.capacity
  · left
    rw [if_pos hfull]
    exact ⟨m, rs, rfl, .refl hi, Or.inl hfull⟩
  · rw [if_neg hfull]
    rcases matrasAllocInternal_spec hi (by omega) with ⟨m', rs', heq, hg, havail⟩
      | ⟨m', rs', heq, hg, hdraws⟩
    · left
      rw [heq]
      exact ⟨m', rs', rfl, hg, Or.inr havail⟩
    · right
      rw [heq, ← hg.blocks.count]
      refine ⟨m'.setBlockCount (m'.head.blockCount + r), rs', rfl, ?_, hdraws⟩
      rw [hg.blocks.count]
      exact hg.extend hi (by omega) (m.config.range_le hr.count (hr.perExtent hi.config)) (by omega)

end SmallAllocators
