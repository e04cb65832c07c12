/-
SmallAllocators.Matras.Range — range operations and repeated operations.

A range lies in one extent, so one call of `matras_alloc_internal` gets all
the extents for it, and one touch makes all of its extents the head's own.
What `matras_alloc` and `matras_dealloc` do for the other blocks of the range
changes nothing but the number of blocks.
-/
import SmallAllocators.Matras.Runs

namespace SmallAllocators

variable {m m' m₁ : Matras} {rs rs' : List Nat} {v : MatrasView} {id i n r : Nat}
    {supply : List (Option Nat)}
  {blockSize extentSize : Nat}

/-- Successive calls of `matras_alloc` that succeed. -/
def allocTimes : Nat → Matras → Option Matras
  | 0, m => some m
  | n + 1, m => do
    let (res, m) ← matrasAlloc m
    guard res.isSome
    allocTimes n m

/-- Successive calls of `matras_dealloc`. -/
def deallocTimes : Nat → Matras → Option Matras
  | 0, m => some m
  | n + 1, m => do
    let m ← matrasDealloc m
    deallocTimes n m

/-- Positions in an extent. -/
theorem MatrasConfig.mod_add (c : MatrasConfig) {b k : Nat}
    (hlt : b + k < (c.extentOf b + 1) * c.perExtent) :
    (b + k) % c.perExtent = b % c.perExtent + k := by
  have hext : (b + k) / c.perExtent = b / c.perExtent := c.extentOf_eq (Nat.le_add_right b k) hlt
  have h1 := Nat.div_add_mod b c.perExtent
  have h2 := Nat.div_add_mod (b + k) c.perExtent
  rw [hext] at h2
  omega

/-! ## Allocation -/

/-- All extents are there for a block that is not the first of its extent. -/
theorem matrasAllocInternal_of_ne (hc : m.config.Ok) (h32 : m.head.blockCount < 2 ^ 32)
    (hmod : m.head.blockCount % m.config.perExtent ≠ 0) :
    matrasAllocInternal m = some (some (matrasGet m m.head.blockCount), m) := by
  have hmid : m.head.blockCount % (m.config.perExtent * m.config.fanout) ≠ 0 := fun h =>
    hmod (Nat.mod_eq_zero_of_dvd (Nat.dvd_trans (Dvd.intro _ rfl) (Nat.dvd_of_mod_eq_zero h)))
  have hzero : m.head.blockCount ≠ 0 := by
    intro h
    rw [h] at hmod
    exact hmod (Nat.zero_mod _)
  unfold matrasAllocInternal
  rw [Nat.mod_eq_of_lt h32]
  simp only [hc.and_mask1, hc.and_mask2, ne_eq, hzero, hmid, not_false_eq_true, decide_true,
    allocLevel, if_true, allocMid, allocLeaf,
    Nat.mod_mod_of_dvd _ (Dvd.intro m.config.fanout rfl), hmod]
  rw [matrasGet, matrasViewGetNoCheck, hc.n3_eq]

/-- One more block in the extent of the last one. -/
theorem matrasAlloc_of_ne (hc : m.config.Ok) (hlt : m.head.blockCount < m.config.capacity)
    (hmod : m.head.blockCount % m.config.perExtent ≠ 0) :
    matrasAlloc m = some (some (matrasGet m m.head.blockCount, m.head.blockCount),
        m.setBlockCount (m.head.blockCount + 1)) := by
  unfold matrasAlloc
  simp only [guard, Nat.le_of_lt hlt, if_true, Option.pure_def, Option.bind_eq_bind,
    Option.bind_some, Nat.ne_of_lt hlt, if_false,
    matrasAllocInternal_of_ne hc (Nat.lt_of_lt_of_le hlt hc.capacity_le_two_pow) hmod]

/-- The rest of a range. -/
theorem allocTimes_of_ne (hc : m.config.Ok) {b k : Nat} (hk : 0 < b % m.config.perExtent)
    (hle : b + k ≤ (m.config.extentOf b + 1) * m.config.perExtent)
    (hcap : b + k ≤ m.config.capacity) :
    allocTimes k (m.setBlockCount b) = some (m.setBlockCount (b + k)) := by
  induction k generalizing b with
  | zero => rfl
  | succ k ih =>
      have hmod : (m.setBlockCount b).head.blockCount % (m.setBlockCount b).config.perExtent ≠
          0 := Nat.ne_of_gt hk
      have hlt : (m.setBlockCount b).head.blockCount < (m.setBlockCount b).config.capacity := by
        show b < m.config.capacity
        omega
      rw [allocTimes, matrasAlloc_of_ne (m := m.setBlockCount b) hc hlt hmod]
      show allocTimes k (m.setBlockCount (b + 1)) = _
      cases k with
      | zero => rfl
      | succ k =>
          -- the next block is in the same extent
          have hext : m.config.extentOf (b + 1) = m.config.extentOf b :=
            m.config.extentOf_eq (Nat.le_succ b) (by omega)
          have hsucc : 0 < (b + 1) % m.config.perExtent := by
            rw [m.config.mod_add (by omega)]
            omega
          rw [ih hsucc (by rw [hext]; omega) (by omega),
            show b + 1 + (k + 1) = b + (k + 1 + 1) by omega]

/-- The bytes of a range follow each other. -/
theorem matrasGet_add (hc : m.config.Ok) {k : Nat}
    (hlt : id + k < (m.config.extentOf id + 1) * m.config.perExtent) :
    matrasGet m (id + k) =
      { extent := (matrasGet m id).extent,
        offset := (matrasGet m id).offset + k * m.config.blockSize } := by
  have hext : m.config.extentOf (id + k) = m.config.extentOf id :=
    m.config.extentOf_eq (Nat.le_add_right _ _) hlt
  rw [matrasGet, matrasGet, matrasViewGetNoCheck_eq hc, matrasViewGetNoCheck_eq hc, hext,
    m.config.mod_add hlt, Nat.add_mul]

/-- The range ends in the extent. -/
theorem range_offset_le (hc : m.config.Ok)
    (hle : id + r ≤ (m.config.extentOf id + 1) * m.config.perExtent) :
    (matrasGet m id).offset + r * m.config.blockSize ≤ m.config.extentSize := by
  have h1 := Nat.div_add_mod id m.config.perExtent
  have hle' : id % m.config.perExtent + r ≤ m.config.perExtent := by
    rw [Nat.add_mul, Nat.one_mul, Nat.mul_comm] at hle
    have : m.config.perExtent * (id / m.config.perExtent) =
        m.config.perExtent * m.config.extentOf id := rfl
    omega
  rw [matrasGet, matrasViewGetNoCheck_eq hc, ← Nat.add_mul, hc.blocks]
  exact Nat.mul_le_mul_right _ hle'

/-- A block needs three extents at most. -/
theorem Matras.length_news (m : Matras) : m.news.length ≤ 3 := by
  rw [Matras.news, List.length_append, List.length_append, Matras.length_missing,
    Matras.length_missing, Matras.length_missing]
  split <;> split <;> split <;> omega

theorem matrasAllocRange_eq_times (hi : m.Inv rs) (hr : m.RangeOk r)
    (hcap : m.head.blockCount + r ≤ m.config.capacity) (hav : 3 ≤ m.allocator.avail) :
    ∃ ptr m', matrasAllocRange m r = some (some (ptr, m.head.blockCount), m') ∧
      allocTimes r m = some m' ∧
      (∀ k < r, matrasGet m' (m.head.blockCount + k) =
        { extent := ptr.extent, offset := ptr.offset + k * m.config.blockSize }) ∧
      ptr.offset + r * m.config.blockSize ≤ m.config.extentSize := by
  have hpos : 0 < r := Nat.pos_of_ne_zero hr.pos
  have hc := hi.config
  have hle := m.config.range_le hr.count (hr.perExtent hc)
  have hnews := m.length_news
  rcases matrasAllocInternal_spec hi (by omega) with ⟨m₁, rs₁, -, -, havail⟩ | ⟨m₁, rs₁, heq, hg, -⟩
  · omega
  · have hc₁ := hg.blocks.config
    have hcount := hg.blocks.count
    have hok : m₁.config.Ok := hg.inv.config
    refine ⟨matrasGet m₁ m.head.blockCount, m₁.setBlockCount (m.head.blockCount + r), ?_,
      ?_, fun k hk => ?_, ?_⟩
    · unfold matrasAllocRange
      simp only [guard, hi.bound m.head m.head_mem, hr.pos, hr.count, hr.extent, if_true, ne_eq,
        not_false_eq_true, Option.pure_def,
        Option.bind_eq_bind, Option.bind_some, Nat.not_lt.2 hcap, if_false, heq, hcount]
    · obtain ⟨k, rfl⟩ : ∃ k, r = k + 1 := ⟨r - 1, by omega⟩
      have hfirst : matrasAlloc m = some (some (matrasGet m₁ m.head.blockCount, m.head.blockCount),
          m₁.setBlockCount (m.head.blockCount + 1)) := by
        unfold matrasAlloc
        simp only [guard, hi.bound m.head m.head_mem, if_true, Option.pure_def,
          Option.bind_eq_bind, Option.bind_some,
          show ¬ m.head.blockCount = m.config.capacity by omega, if_false, heq, hcount]
      rw [allocTimes, hfirst]
      show allocTimes k (m₁.setBlockCount (m.head.blockCount + 1)) = _
      cases k with
      | zero => rfl
      | succ k =>
          have hext : m.config.extentOf (m.head.blockCount + 1) =
              m.config.extentOf m.head.blockCount :=
            m.config.extentOf_eq (Nat.le_succ _) (by omega)
          have hmod : 0 < (m.head.blockCount + 1) % m.config.perExtent := by
            rw [m.config.mod_add (by omega)]
            omega
          have hrest := allocTimes_of_ne (m := m₁) (b := m.head.blockCount + 1) (k := k + 1) hok
            (by rw [hc₁]; exact hmod) (by rw [hc₁, hext]; omega) (by rw [hc₁]; omega)
          rw [hrest, show m.head.blockCount + 1 + (k + 1) =
            m.head.blockCount + (k + 1 + 1) by omega]
    · rw [matrasGet_setBlockCount, ← hc₁]
      exact matrasGet_add hok (by rw [hc₁]; omega)
    · rw [← hc₁]
      exact range_offset_le hok (by rw [hc₁]; exact hle)

/-! ## Deallocation -/

theorem matrasAllocExtent_config (m : Matras) : (matrasAllocExtent m).2.config = m.config := by
  unfold matrasAllocExtent matrasAllocatorAlloc
  by_cases hpos : 0 < m.allocator.numReservedExtents
  · rw [if_pos hpos]
    rfl
  · rw [if_neg hpos]
    cases m.allocator.call.1 <;> rfl

theorem touchLevel_config (m : Matras) (ext extp : Nat) {link : Matras → Nat → Matras}
    (hlink : ∀ m' new, (link m' new).config = m'.config) :
    (touchLevel m ext extp link).2.config = m.config := by
  unfold touchLevel
  split
  · have hc := matrasAllocExtent_config m
    unfold matrasCopyReadViewExtent
    revert hc
    rcases matrasAllocExtent m with ⟨_ | new, m'⟩
    · exact id
    · intro hc
      show (link _ new).config = _
      rw [hlink]
      exact hc
  · rfl

/-- Touches of two blocks of an extent do the same. -/
theorem touchLeaf_congr (hn2 : m.config.n2 i = m.config.n2 id) (extent2 extent2p : Nat) :
    (touchLeaf m extent2 extent2p i).2 = (touchLeaf m extent2 extent2p id).2 ∧
      (touchLeaf m extent2 extent2p i).1.isSome = (touchLeaf m extent2 extent2p id).1.isSome := by
  simp only [touchLeaf, hn2]
  rcases touchLevel m (m.slots extent2 (m.config.n2 id)) (m.slots extent2p (m.config.n2 id))
    (fun m' new => m'.setSlot extent2 (m.config.n2 id) new) with ⟨_ | x, m'⟩
  · exact ⟨rfl, rfl⟩
  · exact ⟨rfl, rfl⟩

theorem touchMid_congr (hn1 : m.config.n1 i = m.config.n1 id)
    (hn2 : m.config.n2 i = m.config.n2 id) (extent1 extent1p : Nat) :
    (touchMid m extent1 extent1p i).2 = (touchMid m extent1 extent1p id).2 ∧
      (touchMid m extent1 extent1p i).1.isSome = (touchMid m extent1 extent1p id).1.isSome := by
  simp only [touchMid, hn1]
  have hc : (touchLevel m (m.slots extent1 (m.config.n1 id)) (m.slots extent1p (m.config.n1 id))
      fun m' new => m'.setSlot extent1 (m.config.n1 id) new).2.config = m.config :=
      touchLevel_config m _ _ fun _ _ => rfl
  revert hc
  rcases touchLevel m (m.slots extent1 (m.config.n1 id)) (m.slots extent1p (m.config.n1 id))
    (fun m' new => m'.setSlot extent1 (m.config.n1 id) new) with ⟨_ | x, m'⟩
  · exact fun _ => ⟨rfl, rfl⟩
  · intro hc
    have hc' : m'.config = m.config := hc
    exact touchLeaf_congr (by rw [hc']; exact hn2) _ _

theorem matrasTouchNoCheck_congr (hn1 : m.config.n1 i = m.config.n1 id)
    (hn2 : m.config.n2 i = m.config.n2 id) (extent1p : Nat) :
    (matrasTouchNoCheck m extent1p i).2 = (matrasTouchNoCheck m extent1p id).2 ∧
      (matrasTouchNoCheck m extent1p i).1.isSome = (matrasTouchNoCheck m extent1p id).1.isSome := by
  simp only [matrasTouchNoCheck]
  have hc : (touchLevel m m.head.root extent1p Matras.setRoot).2.config = m.config :=
    touchLevel_config m _ _ fun _ _ => rfl
  revert hc
  rcases touchLevel m m.head.root extent1p Matras.setRoot with ⟨_ | x, m'⟩
  · exact fun _ => ⟨rfl, rfl⟩
  · intro hc
    have hc' : m'.config = m.config := hc
    exact touchMid_congr (by rw [hc']; exact hn1) (by rw [hc']; exact hn2) _ _

theorem matrasTouch_congr (hi : m.Inv rs) (hid : id < m.head.blockCount)
    (hi' : i < m.head.blockCount) (hext : m.config.extentOf i = m.config.extentOf id)
    {ptr : BlockPtr} (heq : matrasTouch m id = some (some ptr, m₁)) :
    ∃ ptr', matrasTouch m i = some (some ptr', m₁) := by
  have hc := hi.config
  have hneeds : matrasNeedsTouch m i = matrasNeedsTouch m id := by
    rw [Bool.eq_iff_iff, matrasNeedsTouch_iff hi, matrasNeedsTouch_iff hi, hext]
  unfold matrasTouch at heq ⊢
  simp only [guard, hid, hi', if_true, Option.pure_def, Option.bind_eq_bind, Option.bind_some,
    hneeds] at heq ⊢
  split at heq
  · next hn =>
      rw [if_pos hn]
      have hn1 : m.config.n1 i = m.config.n1 id := by rw [hc.n1_eq, hc.n1_eq, hext]
      have hn2 : m.config.n2 i = m.config.n2 id := by rw [hc.n2_eq, hc.n2_eq, hext]
      obtain ⟨h1, h2⟩ := matrasTouchNoCheck_congr hn1 hn2 m.prevRoot
      rw [Option.some.injEq] at heq
      rw [heq] at h1 h2
      obtain ⟨ptr', hptr⟩ := Option.isSome_iff_exists.1 (h2.trans rfl)
      exact ⟨ptr', congrArg some (Prod.ext hptr h1)⟩
  · next hn =>
      rw [if_neg hn]
      rw [Option.some.injEq, Prod.mk.injEq] at heq
      exact ⟨_, by rw [heq.2]⟩

/-- Nothing is copied where the head and the view have different extents. -/
theorem matrasTouchNoCheck_of_ne (hc : m.config.Ok)
    (hne : ∀ p, m.config.onPath id p → m.addr m.head p ≠ m.addr v p) :
    matrasTouchNoCheck m v.root id = (some (matrasGet m id), m) := by
  have hroot : m.head.root ≠ v.root := hne .root trivial
  have hmid := hne (.mid (m.config.extentOf id / m.config.fanout)) rfl
  have hleaf := hne (.leaf (m.config.extentOf id)) rfl
  have h1 : matrasTouchNoCheck m v.root id = touchMid m m.head.root v.root id := by
    unfold matrasTouchNoCheck touchLevel
    rw [if_neg hroot]
  have h2 : touchMid m m.head.root v.root id =
      touchLeaf m (m.addr m.head (.mid (m.config.extentOf id / m.config.fanout)))
      (m.addr v (.mid (m.config.extentOf id / m.config.fanout))) id := by
    rw [touchMid_eq hc, touchLevel, if_neg hmid]
  rw [h1, h2, touchLeaf_eq hc, touchLevel, if_neg hleaf]
  exact congrArg (fun ptr => (some ptr, m)) (matrasGet_of_leaf hc id)

/-- A second touch of the extent changes nothing. -/
theorem matrasTouch_again (hi : m.Inv rs) (hid : id < m.head.blockCount)
    (hi' : i < m.head.blockCount) (hext : m.config.extentOf i = m.config.extentOf id)
    {ptr : BlockPtr} (heq : matrasTouch m id = some (some ptr, m₁)) :
    ∃ ptr', matrasTouch m₁ i = some (some ptr', m₁) := by
  rcases matrasTouch_spec hi hid with ⟨m₂, rs₂, heq₂, -⟩ | ⟨m₂, rs₂, heq₂, hcp, -, -, hyes, hno⟩
  · rw [heq₂] at heq
    cases heq
  · rw [heq₂] at heq
    cases heq
    cases hneeds : matrasNeedsTouch m id with
    | false =>
        obtain rfl := hno hneeds
        obtain ⟨ptr', h⟩ := matrasTouch_congr hi hid hi' hext heq₂
        exact ⟨ptr', h⟩
    | true =>
        obtain ⟨prev, views, hviews, ht⟩ := hyes hneeds
        have hcov : m.Covers prev (.leaf (m.config.extentOf id)) := by
          obtain ⟨prev', views', hviews', hcov⟩ := (matrasNeedsTouch_iff hi).1 hneeds
          rw [hviews] at hviews'
          obtain ⟨rfl, -⟩ := List.cons.inj hviews'
          exact hcov
        have hprev : prev ∈ m.views := by rw [hviews]; exact List.mem_cons_self
        -- the head shares none of the extents above the block with the newest view
        have hne : ∀ p, m.config.onPath id p → m₁.addr m₁.head p ≠ m₁.addr prev p := by
          intro p hp
          have hcovp : m.Covers prev p := hcov.of_leaf hp
          rw [hcp.kept prev hprev p hcovp]
          exact ht.fresh p hp (.of_path hp hid) prev hprev hcovp
        have hneeds₁ : matrasNeedsTouch m₁ i = true := by
          refine (matrasNeedsTouch_iff hcp.inv).2 ⟨prev, views, hcp.views.trans hviews, ?_⟩
          rw [hcp.view_covers_iff, hcp.config, hext]
          exact hcov
        have hroot : m₁.prevRoot = prev.root := by rw [Matras.prevRoot, hcp.views, hviews]; rfl
        have hi₁ : i < m₁.head.blockCount := by rw [hcp.count]; exact hi'
        have hsame : matrasTouchNoCheck m₁ prev.root i = (some (matrasGet m₁ i), m₁) :=
          matrasTouchNoCheck_of_ne hcp.inv.config fun p hp => hne p (by
            rw [hcp.config] at hp
            exact MatrasConfig.onPath_congr hext hp)
        refine ⟨matrasGet m₁ i, ?_⟩
        unfold matrasTouch
        simp only [guard, hi₁, if_true, Option.pure_def, Option.bind_eq_bind, Option.bind_some,
          hneeds₁, hroot, hsame]

/-- The blocks of a range, one after the other, when the extents above them are the head's own. -/
theorem deallocTimes_eq (hc : m.config.Ok) (h32 : m.head.blockCount ≤ 2 ^ 32) {b k : Nat}
    (hbk : b + (k + 1) ≤ m.head.blockCount)
    (hle : b + (k + 1) ≤ (m.config.extentOf b + 1) * m.config.perExtent)
    (htouch : ∀ j ≤ k, ∃ ptr, matrasTouch m (b + j) = some (some ptr, m)) :
    deallocTimes (k + 1) (m.setBlockCount (b + (k + 1))) = deallocTo m b := by
  have hstep : ∀ j ≤ k, matrasDealloc (m.setBlockCount (b + j + 1)) =
      deallocExtents (m.setBlockCount (b + j)) (b + j) := by
    intro j hj
    obtain ⟨ptr, heq⟩ := htouch j hj
    rw [matrasDealloc_setBlockCount (by omega) (by omega), deallocTo, heq]
    rfl
  induction k with
  | zero =>
      obtain ⟨ptr, heq⟩ := htouch 0 (Nat.le_refl _)
      rw [Nat.add_zero] at heq
      rw [deallocTimes, hstep 0 (Nat.le_refl _), deallocTo, heq]
      show (deallocExtents (m.setBlockCount b) b).bind (deallocTimes 0) =
        deallocExtents (m.setBlockCount b) b
      cases deallocExtents (m.setBlockCount b) b <;> rfl
  | succ k ih =>
      have hmod : (b + (k + 1)) % (m.setBlockCount (b + (k + 1))).config.perExtent ≠ 0 := by
        show (b + (k + 1)) % m.config.perExtent ≠ 0
        rw [m.config.mod_add (by omega)]
        omega
      rw [deallocTimes]
      show (matrasDealloc (m.setBlockCount (b + (k + 1) + 1))).bind (deallocTimes (k + 1)) = _
      rw [hstep (k + 1) (Nat.le_refl _),
        deallocExtents_of_ne (m := m.setBlockCount (b + (k + 1))) hc hmod]
      exact ih (by omega) (by omega) (fun j hj => htouch j (by omega))
        (fun j hj => hstep j (by omega))

theorem Matras.copies_le (m : Matras) (id : Nat) : m.copies id ≤ 3 := by
  unfold Matras.copies
  split
  · exact Nat.zero_le 3
  · split
    · unfold Matras.rootCopies Matras.midCopies Matras.leafCopies
      split
      · omega
      · split
        · omega
        · split <;> omega
    · exact Nat.zero_le 3

theorem matrasDeallocRange_eq_times (hi : m.Inv rs) (hr : m.RangeOk r)
    (hle : r ≤ m.head.blockCount) (hav : 3 ≤ m.allocator.avail) :
    ∃ m', matrasDeallocRange m r = some m' ∧ deallocTimes r m = some m' := by
  have hpos : 0 < r := Nat.pos_of_ne_zero hr.pos
  have h32 := Nat.le_trans (hi.bound m.head m.head_mem) hi.config.capacity_le_two_pow
  have hend := hr.extent_le hi.config hle
  have hb : m.head.blockCount - r < m.head.blockCount := by omega
  obtain ⟨m₁, rs₁, m', htouch, hcp, -, heq, -⟩ :=
    deallocTo_spec hi hb hend (Nat.le_trans (m.copies_le _) hav)
  -- each touch of a block of the range ends in the same state, and so does a second one
  have hext : ∀ j < r, m.config.extentOf (m.head.blockCount - r + j) =
      m.config.extentOf (m.head.blockCount - r) :=
    fun j hj => m.config.extentOf_eq (Nat.le_add_right _ _) (by omega)
  have hagain : ∀ j < r, ∃ ptr, matrasTouch m₁ (m.head.blockCount - r + j) = some (some ptr, m₁) :=
    fun j hj => matrasTouch_again hi hb (by omega) (hext j hj) htouch
  refine ⟨m', (matrasDeallocRange_eq hi hr hle).trans heq, ?_⟩
  have hsame : deallocTo m₁ (m.head.blockCount - r) = deallocTo m (m.head.blockCount - r) := by
    obtain ⟨ptr, h⟩ := hagain 0 hpos
    rw [Nat.add_zero] at h
    rw [deallocTo, deallocTo, h, htouch]
    rfl
  obtain ⟨k, rfl⟩ : ∃ k, r = k + 1 := ⟨r - 1, by omega⟩
  have hfirst : matrasDealloc m =
      matrasDealloc (m₁.setBlockCount (m.head.blockCount - (k + 1) + (k + 1))) := by
    obtain ⟨ptr, h1⟩ := matrasTouch_congr hi hb (by omega) (hext k (Nat.lt_succ_self k)) htouch
    obtain ⟨ptr', h2⟩ := hagain k (Nat.lt_succ_self k)
    rw [matrasDealloc_eq hi (by omega),
      show m.head.blockCount - 1 = m.head.blockCount - (k + 1) + k by omega]
    have hlast : m.head.blockCount - (k + 1) + k < m₁.head.blockCount := by
      rw [hcp.count]
      omega
    have hset := matrasDealloc_setBlockCount (m := m₁) hlast (by omega)
    rw [Nat.add_assoc] at hset
    rw [hset, deallocTo, deallocTo, h1, h2]
    rfl
  have htimes := deallocTimes_eq hcp.inv.config (by rw [hcp.count]; exact h32)
    (b := m.head.blockCount - (k + 1)) (k := k)
    (by rw [hcp.count]; omega) (by rw [hcp.config]; omega) fun j hj => hagain j (by omega)
  have hunf : deallocTimes (k + 1) m =
      deallocTimes (k + 1) (m₁.setBlockCount (m.head.blockCount - (k + 1) + (k + 1))) := by
    rw [deallocTimes, deallocTimes, hfirst]
  rw [hunf, htimes, hsame, heq]

/-- **Range operations do what repeated operations do**, with an allocator that does not fail. -/
theorem matras_ranges_equal_repeats (hs : (matrasMachine blockSize extentSize).Reachable m)
    (hfresh : m.FreshSupply supply) (hav : 3 ≤ (m.withSupply supply).allocator.avail)
    (hr : m.RangeOk r) :
    (m.head.blockCount + r ≤ m.config.capacity → ∃ ptr m',
      matrasAllocRange (m.withSupply supply) r = some (some (ptr, m.head.blockCount), m') ∧
      allocTimes r (m.withSupply supply) = some m' ∧
      (∀ k < r, matrasGet m' (m.head.blockCount + k) =
        { extent := ptr.extent, offset := ptr.offset + k * m.config.blockSize }) ∧
      ptr.offset + r * m.config.blockSize ≤ m.config.extentSize) ∧
    (r ≤ m.head.blockCount → ∃ m',
      matrasDeallocRange (m.withSupply supply) r = some m' ∧
      deallocTimes r (m.withSupply supply) = some m') := by
  obtain ⟨rs, hg⟩ := matrasReachable_good hs
  have hi := Matras.withSupply_inv hg.inv hfresh
  have hr' : (m.withSupply supply).RangeOk r := ⟨hr.pos, hr.count, hr.extent⟩
  exact ⟨fun hcap => matrasAllocRange_eq_times hi hr' hcap hav, fun hle =>
    matrasDeallocRange_eq_times hi hr' hle hav⟩

/-- Two blocks go and come back, while a view has them. -/
theorem matras_ranges_equal_repeats_two : ∃ m ptr m₁ m₂,
    matrasRun 8 16 [.allocRange [some 1, some 2, some 3] 2, .createReadView 1] = some m ∧
    matrasAllocRange (m.withSupply [some 4, some 5, some 6]) 2 = some (some (ptr, 2), m₁) ∧
    allocTimes 2 (m.withSupply [some 4, some 5, some 6]) = some m₁ ∧
    matrasDeallocRange (m.withSupply [some 4, some 5, some 6]) 2 = some m₂ ∧
    deallocTimes 2 (m.withSupply [some 4, some 5, some 6]) = some m₂ := by
  have hrun : (matrasRun 8 16 [.allocRange [some 1, some 2, some 3] 2, .createReadView 1]).map
      (fun m =>
      (decide (m.FreshSupply [some 4, some 5, some 6]),
          (m.withSupply [some 4, some 5, some 6]).allocator.avail, decide (m.RangeOk 2),
        m.head.blockCount, m.config.capacity)) = some (true, 3, true, 2, 8) := by decide +kernel
  obtain ⟨m, heq, hval⟩ := Option.map_eq_some_iff.1 hrun
  simp only [Prod.mk.injEq, decide_eq_true_eq] at hval
  obtain ⟨hfresh, hav, hr, hcount, hcap⟩ := hval
  obtain ⟨h1, h2⟩ := matras_ranges_equal_repeats (matrasRun_reachable heq) hfresh (by rw [hav]) hr
  obtain ⟨ptr, m₁, ha, hb, -⟩ := h1 (by rw [hcount, hcap]; decide)
  obtain ⟨m₂, hc, hd⟩ := h2 (by rw [hcount])
  rw [hcount] at ha
  exact ⟨m, ptr, m₁, m₂, heq, ha, hb, hc, hd⟩

end SmallAllocators
