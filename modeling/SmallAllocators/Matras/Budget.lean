/-
SmallAllocators.Matras.Budget — what `matras_touch_reserve` promises.

A touch copies two extents below the root, and the root itself only while
the newest view still has it. So two extents for each touch to come, and one
for a shared root, are enough: every touch keeps this budget for those that
follow it (`Matras.Budget`).
-/
import SmallAllocators.Matras.Runs

namespace SmallAllocators

variable {m m' : Matras} {rs rs' : List Nat} {id n count : Nat}
    {supply supply' : List (Option Nat)} {blockSize extentSize : Nat}

/-- What a client does with blocks of the head. -/
inductive BlockStep where
  | touch (id : Nat)
  | write (id offset : Nat) (byte : UInt8)

/-- The block exists, and so does the byte of it. -/
def BlockStep.Valid (m : Matras) : BlockStep → Prop
  | .touch id => id < m.head.blockCount
  | .write id offset _ => id < m.head.blockCount ∧ offset < m.config.blockSize

/-- The steps one after the other, if every touch succeeds, and how many of the touches copied
the root. -/
def blockSteps : List BlockStep → Matras → Option (Nat × Matras)
  | [], m => some (0, m)
  | .touch id :: steps, m => do
    let (res, m₁) ← matrasTouch m id
    guard res.isSome
    let (copied, m') ← blockSteps steps m₁
    some (if m₁.head.root = m.head.root then copied else copied + 1, m')
  | .write id offset byte :: steps, m => blockSteps steps (m.writeByte (matrasGet m id) offset byte)

/-- The number of touches. -/
def touchCount : List BlockStep → Nat
  | [] => 0
  | .touch _ :: steps => touchCount steps + 1
  | .write .. :: steps => touchCount steps

namespace Matras

/-- Whether the next touch copies the root. -/
def rootShared (m : Matras) : Bool :=
  match m.views with
  | [] => false
  | prev :: _ => decide (m.head.root = prev.root)

/-- Enough extents are reserved for `n` touches, or no block needs one. -/
def Budget (m : Matras) (n : Nat) : Prop :=
  n = 0 ∨ (∀ id, matrasNeedsTouch m id = false) ∨
  2 * n + (if m.rootShared then 1 else 0) ≤ m.allocator.numReservedExtents

end Matras

theorem matrasNeedsTouch_congr (hviews : m'.views = m.views) (hconfig : m'.config = m.config)
    (id : Nat) :
    matrasNeedsTouch m' id = matrasNeedsTouch m id := by
  unfold matrasNeedsTouch
  rw [hviews, hconfig]

/-- A touch copies at most two extents below the root. -/
theorem Matras.copies_le_two (m : Matras) (id : Nat) :
    m.copies id ≤ 2 + (if m.rootShared then 1 else 0) := by
  unfold Matras.copies Matras.rootShared
  cases hviews : m.views with
  | nil => exact Nat.zero_le _
  | cons prev views =>
      show (if matrasNeedsTouch m id then m.rootCopies prev (m.config.extentOf id) else 0) ≤ _
      have hmid : m.midCopies prev (m.config.extentOf id) ≤ 2 := by
        unfold Matras.midCopies Matras.leafCopies
        split
        · exact Nat.le_refl 2
        · split <;> omega
      unfold Matras.rootCopies
      by_cases hroot : m.head.root = prev.root
      · simp only [hroot, if_true, decide_true]
        split <;> omega
      · simp only [hroot, if_false, decide_false]
        split <;> omega

/-- The newest view has blocks where a touch is needed. -/
theorem Matras.Inv.covers_root (hi : m.Inv rs) (hneeds : matrasNeedsTouch m id = true)
    {prev : MatrasView} {views : List MatrasView} (hviews : m.views = prev :: views) :
    m.Covers prev .root := by
  obtain ⟨prev', views', hviews', hcov⟩ := (matrasNeedsTouch_iff hi).1 hneeds
  rw [hviews] at hviews'
  obtain ⟨rfl, -⟩ := List.cons.inj hviews'
  exact hcov.root

/-- The root is the head's own after a touch, and it is copied only if it was not before. -/
theorem Matras.Touched.root {prev : MatrasView} {views : List MatrasView}
    (h : m.Touched rs prev (m.config.onPath id) n m' rs') (hid : id < m.head.blockCount)
    (hviews : m.views = prev :: views) (hcov : m.Covers prev .root) :
    m'.rootShared = false ∧ (m.rootShared = false → m'.head.root = m.head.root) := by
  have hhead : m.Covers m.head .root :=
    Matras.covers_root.2 (Nat.lt_of_le_of_lt (Nat.zero_le id) hid)
  have hprev : prev ∈ m.views := by rw [hviews]; exact List.mem_cons_self
  constructor
  · unfold Matras.rootShared
    rw [h.copied.views, hviews]
    exact decide_eq_false (h.fresh .root trivial hhead prev hprev hcov)
  · intro hown
    unfold Matras.rootShared at hown
    rw [hviews] at hown
    exact h.kept .root hhead (Or.inr fun _ => of_decide_eq_false hown)

/-- A touch within the budget takes nothing from `alloc_func`, and leaves the budget for the
touches after it. -/
theorem matrasTouch_within_budget (hi : m.Inv rs) (hid : id < m.head.blockCount)
    (hb : m.Budget (n + 1)) :
    ∃ ptr m' rs', matrasTouch m id = some (some ptr, m') ∧ m'.Inv rs' ∧ m'.Budget n ∧
      m'.config = m.config ∧
      m'.head.blockCount = m.head.blockCount ∧ m'.allocator.supply = m.allocator.supply ∧
      m'.allocator.allocated = m.allocator.allocated ∧
      (m'.head.root = m.head.root ∧ m'.rootShared = m.rootShared ∨ m.rootShared = true ∧
        m'.rootShared = false) := by
  have hcopies : m.copies id ≤ m.allocator.numReservedExtents := by
    rcases hb with hzero | hno | hle
    · omega
    · rw [Matras.copies]
      cases m.views <;> simp [hno]
    · have := m.copies_le_two id
      omega
  rcases matrasTouch_spec hi hid with ⟨m', rs', heq, -, hst⟩
    | ⟨m', rs', heq, hcp, -, hdraws, hyes, hno⟩
  · -- the reserved extents are available
    have havail : m.allocator.numReservedExtents ≤ m.allocator.avail := Nat.le_add_right _ _
    have := hst.avail
    omega
  · obtain ⟨hsupply, hall⟩ := hdraws.supply hcopies
    refine ⟨_, m', rs', heq, hcp.inv, ?_, hcp.config, hcp.count, hsupply, hall, ?_⟩
    · rcases hb with hzero | hb | hle
      · omega
      · exact Or.inr (Or.inl fun i => by rw [matrasNeedsTouch_congr hcp.views hcp.config, hb])
      · cases hneeds : matrasNeedsTouch m id with
        | false =>
            rw [hno hneeds]
            exact Or.inr (Or.inr (by omega))
        | true =>
            obtain ⟨prev, views, hviews, ht⟩ := hyes hneeds
            obtain ⟨hown, -⟩ := ht.root hid hviews (hi.covers_root hneeds hviews)
            refine Or.inr (Or.inr ?_)
            rw [hown, hdraws.reserved]
            have := m.copies_le_two id
            simp only [Bool.false_eq_true, if_false]
            omega
    · cases hneeds : matrasNeedsTouch m id with
      | false =>
          rw [hno hneeds]
          exact Or.inl ⟨rfl, rfl⟩
      | true =>
          obtain ⟨prev, views, hviews, ht⟩ := hyes hneeds
          obtain ⟨hown, hkept⟩ := ht.root hid hviews (hi.covers_root hneeds hviews)
          cases hshared : m.rootShared with
          | false => exact Or.inl ⟨hkept hshared, hown⟩
          | true => exact Or.inr ⟨rfl, hown⟩

/-- Steps of a client within the budget. -/
theorem blockSteps_within_budget {steps : List BlockStep} :
    ∀ {m : Matras} {rs : List Nat}, m.Inv rs → (∀ step ∈ steps, step.Valid m) →
      m.Budget (touchCount steps) →
      ∃ copied m', blockSteps steps m = some (copied, m') ∧
      copied ≤ (if m.rootShared then 1 else 0) ∧
        m'.allocator.supply = m.allocator.supply ∧
        m'.allocator.allocated = m.allocator.allocated := by
  induction steps with
  | nil => exact fun _ _ _ => ⟨0, _, rfl, Nat.zero_le _, rfl, rfl⟩
  | cons step steps ih =>
      intro m rs hi hvalid hb
      have hfirst := hvalid step List.mem_cons_self
      have hrest := fun s hs => hvalid s (List.mem_cons_of_mem _ hs)
      cases step with
      | touch id =>
          obtain ⟨ptr, m₁, rs₁, heq, hi₁, hb₁, hconfig, hcount, hsupply, hall, hroot⟩ :=
            matrasTouch_within_budget hi hfirst hb
          have hvalid₁ : ∀ s ∈ steps, s.Valid m₁ := fun s hs => by
            have := hrest s hs
            cases s <;> simpa [BlockStep.Valid, hconfig, hcount] using this
          obtain ⟨copied, m', hsteps, hle, hsupply', hall'⟩ := ih hi₁ hvalid₁ hb₁
          refine ⟨if m₁.head.root = m.head.root then copied else copied + 1, m', ?_, ?_,
            hsupply'.trans hsupply, hall'.trans hall⟩
          · rw [blockSteps, heq]
            simp [guard, hsteps]
          · rcases hroot with ⟨hsame, hshared⟩ | ⟨hshared, hown⟩
            · rw [if_pos hsame, ← hshared]
              exact hle
            · rw [hown] at hle
              simp only [Bool.false_eq_true, if_false] at hle
              rw [hshared]
              split <;> simp <;> omega
      | write id offset byte =>
          have hw : m.Written (m.writeByte (matrasGet m id) offset byte) :=
            ⟨rfl, rfl, rfl, rfl, rfl, rfl, fun _ _ => rfl⟩
          exact ih (hw.inv hi) hrest hb

theorem reserveLoop_head {fuel : Nat} :
    ∀ m : Matras, (reserveLoop count fuel m).2.head = m.head := by
  induction fuel with
  | zero => exact fun _ => rfl
  | succ fuel ih =>
      intro m
      rw [reserveLoop]
      split
      · split
        · rfl
        · exact ih _
      · rfl

theorem matrasTouchReserve_head {ok : Bool} (h : matrasTouchReserve m count = some (ok, m')) :
    m'.head = m.head := by
  unfold matrasTouchReserve at h
  split at h
  · cases h
    rfl
  · split at h
    · cases h
      rfl
    · split at h
      · cases h
        rfl
      · rw [Option.bind_eq_bind, Option.bind_eq_some_iff] at h
        obtain ⟨-, -, h⟩ := h
        rw [Option.some.injEq] at h
        have hm : (matrasAllocatorReserve m _).2 = m' := congrArg Prod.snd h
        rw [← hm]
        exact reserveLoop_head m

/-- The budget that `matras_touch_reserve` gets. -/
theorem matrasTouchReserve_budget (hi : m.Inv rs) (hcount : 2 * count + 1 ≤ intMax)
    (hok : matrasTouchReserve m count = some (true, m')) :
    ∃ rs', m.Stocked rs m' rs' ∧ m'.Budget count := by
  obtain ⟨ok, m₁, rs', heq, hst, hreserved⟩ := matrasTouchReserve_spec hi hcount
  rw [hok] at heq
  cases heq
  refine ⟨rs', hst, ?_⟩
  have hviews := hst.blocks.views
  rcases hreserved rfl with hzero | hnil | ⟨prev, views, hcons, hempty⟩ | ⟨prev, views, hcons, hle⟩
  · exact Or.inl hzero
  · refine Or.inr (Or.inl fun id => ?_)
    unfold matrasNeedsTouch
    rw [hviews, hnil]
  · refine Or.inr (Or.inl fun id => ?_)
    unfold matrasNeedsTouch
    rw [hviews, hcons]
    exact if_neg (not_not.2 hempty)
  · refine Or.inr (Or.inr ?_)
    unfold Matras.rootShared
    rw [hviews, hcons, matrasTouchReserve_head hok, Nat.mul_comm]
    simpa using hle

theorem Matras.Budget.mono {k : Nat} (h : m.Budget n) (hle : k ≤ n) : m.Budget k := by
  rcases h with h | h | h
  · exact Or.inl (by omega)
  · exact Or.inr (Or.inl h)
  · exact Or.inr (Or.inr (by omega))

/-- **`matras_touch_reserve` guarantees the touches.** After it returned 0, at most `count`
touches, of any blocks and with writes in between, all succeed; none of them calls `alloc_func`,
and at most one copies the root. -/
theorem matras_touch_reserve_suffices (hs : (matrasMachine blockSize extentSize).Reachable m)
    (hfresh : m.FreshSupply supply) (hcount : 2 * count + 1 ≤ intMax)
    (hok : matrasTouchReserve (m.withSupply supply) count = some (true, m'))
    (hfresh' : m'.FreshSupply supply') {steps : List BlockStep}
    (hvalid : ∀ step ∈ steps, step.Valid m) (hle : touchCount steps ≤ count) :
    ∃ copied m'', blockSteps steps (m'.withSupply supply') = some (copied, m'') ∧ copied ≤ 1 ∧
      m''.allocator.supply = supply' ∧
      m''.allocator.allocated = m'.allocator.allocated := by
  obtain ⟨rs, hg⟩ := matrasReachable_good hs
  have hi := Matras.withSupply_inv hg.inv hfresh
  obtain ⟨rs', hst, hb⟩ := matrasTouchReserve_budget hi hcount hok
  have hvalid' : ∀ step ∈ steps, step.Valid (m'.withSupply supply') := fun s hs => by
    have := hvalid s hs
    have hc : m'.config = m.config := hst.blocks.config
    have hb : m'.head.blockCount = m.head.blockCount := hst.blocks.count
    cases s <;> simpa [BlockStep.Valid, Matras.withSupply, Matras.setAllocator, hc, hb] using this
  have hi' := Matras.withSupply_inv hst.inv hfresh'
  obtain ⟨copied, m'', hsteps, hcopied, hsupply, hall⟩ :=
    blockSteps_within_budget hi' hvalid' (hb.mono hle)
  refine ⟨copied, m'', hsteps, Nat.le_trans hcopied ?_, hsupply, hall⟩
  split <;> omega

/-- Two blocks of different extents are touched while every call of `alloc_func` would fail. -/
theorem matras_touch_reserve_suffices_two : ∃ m m' m'' copied,
    matrasRun 8 16 [.allocRange [some 1, some 2, some 3] 2, .alloc [some 4], .createReadView 1] =
    some m ∧
    matrasTouchReserve (m.withSupply [some 5, some 6, some 7, some 8, some 9]) 2 = some (true, m') ∧
    blockSteps [.touch 0, .write 0 3 7, .touch 2] (m'.withSupply []) = some (copied, m'') ∧
    copied ≤ 1 := by
  have hrun : (matrasRun 8 16 [.allocRange [some 1, some 2, some 3] 2, .alloc [some 4],
      .createReadView 1]).map (fun m =>
      (decide (m.FreshSupply [some 5, some 6, some 7, some 8, some 9]), m.head.blockCount,
          m.config.blockSize,
        (matrasTouchReserve (m.withSupply [some 5, some 6, some 7, some 8, some 9]) 2).map
          Prod.fst)) =
      some (true, 3, 8, some true) := by decide +kernel
  obtain ⟨m, heq, hval⟩ := Option.map_eq_some_iff.1 hrun
  simp only [Prod.mk.injEq, decide_eq_true_eq] at hval
  obtain ⟨hfresh, hcount, hsize, hok⟩ := hval
  obtain ⟨⟨ok, m'⟩, hreserve, rfl⟩ := Option.map_eq_some_iff.1 hok
  have hvalid : ∀ step ∈ [BlockStep.touch 0, .write 0 3 7, .touch 2], step.Valid m := by
    simp [BlockStep.Valid, hcount, hsize]
  have hnone : m'.FreshSupply [] := ⟨fun x hx => (by cases hx), .nil⟩
  obtain ⟨copied, m'', hsteps, hle, -⟩ :=
    matras_touch_reserve_suffices (matrasRun_reachable heq) hfresh (by decide) hreserve
    hnone hvalid (by decide)
  exact ⟨m, m', m'', copied, heq, hreserve, hsteps, hle⟩

end SmallAllocators
