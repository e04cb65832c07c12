/-
SmallAllocators.Matras.Teardown — the loops of `matras_destroy` and
`matras_destroy_read_view` at any number of blocks.

The number of blocks is a 64-bit number and goes up to 2^32; the counters
`j1` and `j2` and their sum have 32 bits. Where the extents of the second
level reach up to the last block number, `j1` is 0 again after the last
round: the loop starts over with index slots that are not in use. The bound
is exact, and the inner loop adds none of its own.
-/
import Mathlib.Algebra.Order.BigOperators.Group.List
import Mathlib.Algebra.Order.Group.Nat
import SmallAllocators.Matras.Leaks
import SmallAllocators.Matras.Range

namespace SmallAllocators

variable {m m' : Matras} {c : MatrasConfig} {v : MatrasView} {b i j fuel blockSize extentSize : Nat}

/-! ## The rounds of a loop -/

/-- The values of the two counters in the rounds of a loop. -/
def stepRounds (cond : Nat → Nat → Bool) (step : Nat) : Nat → Nat → Nat → Option (List (Nat × Nat))
  | 0, _, _ => none
  | n + 1, i, j =>
    if cond i j then (stepRounds cond step n (i + 1) ((j + step) % 2 ^ 32)).map fun rounds =>
      (i, j) :: rounds
    else some []

/-- A loop runs its body in these rounds. -/
theorem stepLoop_rounds {cond : Nat → Nat → Bool} {step : Nat}
    {body : Nat → Nat → Matras → Option Matras} :
    stepLoop cond step body fuel i j m =
      (stepRounds cond step fuel i j).bind fun rounds =>
      rounds.foldlM (fun m r => body r.1 r.2 m) m := by
  induction fuel generalizing i j m with
  | zero => rfl
  | succ fuel ih =>
      rw [stepLoop, stepRounds]
      split
      · cases hrounds : stepRounds cond step fuel (i + 1) ((j + step) % 2 ^ 32) with
        | none =>
            simp only [ih, hrounds]
            cases body i j m <;> rfl
        | some rounds =>
            simp only [ih, hrounds, Option.map_some, Option.bind_some, List.foldlM_cons]
      · rfl

theorem stepRounds_spec (cond : Nat → Nat → Bool) (fuel : Nat) {step n : Nat}
    (hgo : ∀ k < n, cond k (k * step) = true) (hstop : cond n (n * step) = false)
    (hwrap : n * step < 2 ^ 32) (hle : i ≤ n) (hfuel : n < i + fuel) :
    ∃ rounds, stepRounds cond step fuel i (i * step) = some rounds ∧ ∀ r ∈ rounds, r.1 < n ∧
      r.2 = r.1 * step := by
  induction fuel generalizing i with
  | zero => omega
  | succ fuel ih =>
      rw [stepRounds]
      rcases Nat.lt_or_eq_of_le hle with hlt | rfl
      · have hmul : (i + 1) * step ≤ n * step := Nat.mul_le_mul_right step hlt
        have hnext : (i * step + step) % 2 ^ 32 = (i + 1) * step := by
          rw [← Nat.succ_mul, Nat.mod_eq_of_lt (Nat.lt_of_le_of_lt hmul hwrap)]
        obtain ⟨rounds, heq, hall⟩ := ih hlt (by omega)
        refine ⟨(i, i * step) :: rounds, ?_, ?_⟩
        · rw [if_pos (hgo i hlt), hnext, heq, Option.map_some]
        · intro r hr
          rcases List.mem_cons.1 hr with rfl | hr
          · exact ⟨hlt, rfl⟩
          · exact hall r hr
      · rw [hstop, if_neg Bool.false_ne_true]
        exact ⟨[], rfl, by simp⟩

/-- A loop in which `j` wraps around before it reaches the bound makes rounds without end. -/
theorem stepRounds_wraps {cond : Nat → Nat → Bool} {step : Nat} (hdvd : step ∣ 2 ^ 32)
    (hgo : ∀ i j, step ∣ j → j < 2 ^ 32 → cond i j = true) (hj : step ∣ j) (hlt : j < 2 ^ 32) :
    stepRounds cond step fuel i j = none := by
  induction fuel generalizing i j with
  | zero => rfl
  | succ fuel ih =>
      have hnext : step ∣ (j + step) % 2 ^ 32 :=
        (Nat.dvd_mod_iff hdvd).2 (Nat.dvd_add hj (Nat.dvd_refl step))
      rw [stepRounds, if_pos (hgo i j hj hlt), ih hnext (Nat.mod_lt _ (by decide))]
      rfl

namespace MatrasConfig

/-- The rounds of the outer loop over an index of `b` blocks. -/
def outerRounds (c : MatrasConfig) (b : Nat) : Option (List (Nat × Nat)) :=
  stepRounds (fun _ j1 => decide (j1 < b)) (c.mask1 + 1) (b + 1) 0 0

/-- The rounds of the inner loop. -/
def innerRounds (c : MatrasConfig) (b j1 : Nat) : Option (List (Nat × Nat)) :=
  stepRounds (fun i2 j2 => decide (i2 < c.ptrsInExt) && decide ((j1 + j2) % 2 ^ 32 < b))
    (c.mask2 + 1) (c.ptrsInExt + 1) 0 0

/-- The outer counter passes the last block before it wraps around. -/
theorem Ok.mids_lt_iff (hc : c.Ok) :
    c.mids b * (c.perExtent * c.fanout) < 2 ^ 32 ↔ b ≤ 2 ^ 32 - 2 ^ c.shift1 := by
  rw [hc.two_pow_shift1]
  have hpos : 0 < c.perExtent * c.fanout := Nat.mul_pos c.perExtent_pos c.fanout_pos
  obtain ⟨k, hk⟩ := hc.step1_dvd
  have hmids := fun n => @lt_mids_iff c b n
  generalize c.perExtent * c.fanout = step at *
  -- the largest multiple of the step below 2^32
  have hlast :
      2 ^ 32 - step = (k - 1) * step := by rw [hk, Nat.sub_mul, Nat.one_mul, Nat.mul_comm step]
  have hkpos : 0 < k := by
    by_contra hnot
    rw [Nat.eq_zero_of_not_pos hnot] at hk
    omega
  rw [hlast]
  constructor
  · intro hlt
    have hle : c.mids b ≤ k - 1 := by
      rw [hk, Nat.mul_comm step] at hlt
      have := Nat.lt_of_mul_lt_mul_right hlt
      omega
    exact Nat.not_lt.1 fun hgt => absurd ((hmids (k - 1)).2 hgt) (by omega)
  · intro hle
    have hmids_le : c.mids b ≤ k - 1 := by
      by_contra hgt
      have := (hmids (k - 1)).1 (by omega)
      omega
    have hmul := Nat.mul_le_mul_right step hmids_le
    have : (k - 1) * step < 2 ^ 32 := by omega
    omega

theorem Ok.outerRounds_spec (hc : c.Ok) (hle : b ≤ 2 ^ 32 - 2 ^ c.shift1) :
    ∃ rounds, c.outerRounds b = some rounds ∧
      ∀ r ∈ rounds, r.1 < c.mids b ∧ r.2 = r.1 * (c.perExtent * c.fanout) := by
  have hspec := stepRounds_spec (fun _ j1 => decide (j1 < b)) (b + 1)
    (fun k hk => decide_eq_true (lt_mids_iff.1 hk)) (decide_eq_false fun h =>
      Nat.lt_irrefl _ (lt_mids_iff.2 h))
    (hc.mids_lt_iff.2 hle) (Nat.zero_le _) (by have := c.mids_le b; omega)
  rw [Nat.zero_mul] at hspec
  rw [outerRounds, hc.step1]
  exact hspec

theorem Ok.innerRounds_spec (hc : c.Ok) (hle : b ≤ 2 ^ 32 - 2 ^ c.shift1) (hi : i < c.mids b) :
    ∃ rounds, c.innerRounds b (i * (c.perExtent * c.fanout)) = some rounds ∧ ∀ r ∈ rounds,
      r.1 < c.leaves b i := by
  have hwrap := hc.mids_lt_iff.2 hle
  have hfan : c.leaves b i ≤ c.fanout := Nat.min_le_left _ _
  obtain ⟨rounds, heq, hall⟩ := stepRounds_spec
    (fun i2 j2 => decide (i2 < c.fanout) &&
      decide ((i * (c.perExtent * c.fanout) + j2) % 2 ^ 32 < b)) (c.fanout + 1)
    (fun k hk => leaves_go hwrap hi hk) (leaves_stop hwrap hi)
    (by have := leaves_lt hwrap hi (Nat.le_refl _); omega) (Nat.zero_le _) (by omega)
  rw [Nat.zero_mul] at heq
  refine ⟨rounds, ?_, fun r hr => (hall r hr).1⟩
  rw [innerRounds, hc.ptrsInExt, hc.step2]
  exact heq

/-- The loop over the last blocks does not end. -/
theorem Ok.outerRounds_wraps (hc : c.Ok) (hgt : 2 ^ 32 - 2 ^ c.shift1 < b) (fuel : Nat) :
    stepRounds (fun _ j1 => decide (j1 < b)) (c.mask1 + 1) fuel 0 0 = none := by
  have hwrap : 2 ^ 32 ≤ c.mids b * (c.perExtent * c.fanout) := by
    by_contra hnot
    have := hc.mids_lt_iff.1 (Nat.lt_of_not_le hnot)
    omega
  rw [hc.step1]
  exact stepRounds_wraps hc.step1_dvd
    (fun i j hj hlt => decide_eq_true (lt_of_wraps hwrap hj hlt)) (Nat.dvd_zero _) (by decide)

end MatrasConfig

/-! ## What the loops read -/

/-- The loops over the extents of a view end, and read only index slots of extents of the view. -/
structure Matras.Walked (m : Matras) (v : MatrasView) (rounds : List (Nat × Nat)) : Prop where
  outer : m.config.outerRounds v.blockCount = some rounds
  mid : ∀ r ∈ rounds, m.Covers v (.mid r.1)
  inner : ∀ r ∈ rounds, ∃ rounds', m.config.innerRounds v.blockCount r.2 = some rounds' ∧
    ∀ r' ∈ rounds', r'.1 < m.config.fanout ∧ m.Covers v (.leaf (r.1 * m.config.fanout + r'.1))

/-- The extents of the view are those that were allocated, and each of them was freed. -/
structure Matras.TornDown (m : Matras) (v : MatrasView) (m' : Matras) : Prop where
  extents : ∀ x, x ∈ m.allocator.allocated ↔ ∃ p, m.Covers v p ∧ m.addr v p = x
  nodup : m.allocator.allocated.Nodup
  freed : m'.allocator.allocated = []
  count : m'.extentCount = 0

theorem Matras.walked (hc : m.config.Ok) (hle : v.blockCount ≤ 2 ^ 32 - 2 ^ m.config.shift1) :
    ∃ rounds, m.Walked v rounds := by
  obtain ⟨rounds, heq, hrounds⟩ := hc.outerRounds_spec hle
  refine ⟨rounds, heq, fun r hr => ?_, fun r hr => ?_⟩
  · rw [Matras.covers_mid, Nat.mul_assoc, Nat.mul_comm m.config.fanout]
    exact MatrasConfig.lt_mids_iff.1 (hrounds r hr).1
  · obtain ⟨hlt, hj⟩ := hrounds r hr
    obtain ⟨rounds', heq', hrounds'⟩ := hc.innerRounds_spec hle hlt
    refine ⟨rounds', by rw [hj, heq'], fun r' hr' => ?_⟩
    obtain ⟨hfan, hbelow⟩ := MatrasConfig.lt_leaves_iff.1 (hrounds' r' hr')
    refine ⟨hfan, ?_⟩
    rw [Matras.covers_leaf, Nat.add_mul, Nat.mul_assoc, Nat.mul_comm m.config.fanout]
    exact hbelow

/-! ## The head -/

/-- The loops of `matras_destroy` end, and free the extents of the head. -/
def Matras.DestroysHead (m : Matras) : Prop :=
  (∃ rounds, m.Walked m.head rounds) ∧ ∃ m', matrasDestroy m = some m' ∧ m.TornDown m.head m'

theorem Matras.Clean.destroysHead (hc : m.Clean) (hviews : m.views = [])
    (hle : m.head.blockCount ≤ 2 ^ 32 - 2 ^ m.config.shift1) : m.DestroysHead := by
  have hok := hc.good.inv.config
  obtain ⟨m', heq, hfreed, hcount⟩ := matrasDestroy_head hc hviews (hok.mids_lt_iff.2 hle)
  refine ⟨Matras.walked hok hle, m', heq, ⟨fun x => ?_, hc.good.inv.alloc.nodup, hfreed, hcount⟩⟩
  rw [hc.allocated_iff, Matras.Reached, Matras.all, hviews]
  simp

/-- The loop of `matras_destroy` goes on behind the last extent. -/
theorem matrasDestroy_wraps (hc : m.config.Ok) (hviews : m.views = [])
    (hgt : 2 ^ 32 - 2 ^ m.config.shift1 < m.head.blockCount) : matrasDestroy m = none := by
  have hne : m.head.blockCount ≠ 0 := by omega
  unfold matrasDestroy
  rw [hviews, List.length_nil, destroyViews, Option.bind_eq_bind, Option.bind_some, if_neg hne,
    stepLoop_rounds, hc.outerRounds_wraps hgt]
  rfl

/-! ## A view alone -/

/-- The loops of `matras_destroy_read_view` end, and free the extents of the view. -/
def Matras.DestroysView (m : Matras) (v : MatrasView) : Prop :=
  (∃ rounds, m.Walked v rounds) ∧ ∃ m', matrasDestroyReadView m v.key = some m' ∧ m.TornDown v m'

theorem Matras.Clean.destroysView (hc : m.Clean) (hviews : m.views = [v])
    (hempty : m.head.blockCount = 0) (hle : v.blockCount ≤ 2 ^ 32 - 2 ^ m.config.shift1) :
    m.DestroysView v := by
  have hi := hc.good.inv
  refine ⟨Matras.walked hi.config hle, ?_⟩
  have hnone : ∀ p, ¬ m.Covers m.head p := by
    intro p hp
    have hlt : _ < m.head.blockCount := hp
    omega
  have hextents : ∀ x, x ∈ m.allocator.allocated ↔ ∃ p, m.Covers v p ∧ m.addr v p = x := by
    intro x
    rw [hc.allocated_iff, Matras.Reached, Matras.all, hviews]
    constructor
    · rintro ⟨w, hw, p, hp, hx⟩
      rcases List.mem_cons.1 hw with rfl | hw
      · exact absurd hp (hnone p)
      · obtain rfl := List.mem_singleton.1 hw
        exact ⟨p, hp, hx⟩
    · rintro ⟨p, hp, hx⟩
      exact ⟨v, by simp, p, hp, hx⟩
  rcases matrasDestroyReadView_spec hi hc.good.keys v.key with
    ⟨hno, -⟩ | ⟨A, w, next, prev, B, hb, hkey, ⟨hwrap, -⟩ | ⟨m', heq, hm', h⟩⟩
  · exact absurd rfl (hno v (by rw [hviews]; exact List.mem_cons_self))
  · obtain ⟨rfl, rfl, rfl, rfl⟩ := hb.of_first hviews hc.good.keys hkey
    have := hi.config.mids_lt_iff.2 hle
    omega
  · obtain ⟨rfl, rfl, rfl, rfl⟩ := hb.of_first hviews hc.good.keys hkey
    have hclean := hc.dropped hb hm' h (Matras.tidy_of_single hviews [] w m.head prev [] hb hkey)
    have hfreed : m'.allocator.allocated = [] := by
      rw [List.eq_nil_iff_forall_not_mem]
      intro x hx
      obtain ⟨u, hu, p, hp, -⟩ := hclean.allocated_iff.1 hx
      rw [Matras.all, hm', List.append_nil] at hu
      obtain rfl := List.mem_singleton.1 hu
      have hlt : _ < m'.head.blockCount := hp
      rw [h.head] at hlt
      omega
    refine ⟨m', heq, ⟨hextents, hi.alloc.nodup, hfreed, ?_⟩⟩
    rw [hclean.count_eq, hfreed]
    rfl

/-- The loop of `matras_destroy_read_view` goes on behind the last extent. -/
theorem matrasDestroyReadView_wraps (hc : m.config.Ok) (hviews : m.views = [v])
    (hempty : m.head.blockCount = 0) (hgt : 2 ^ 32 - 2 ^ m.config.shift1 < v.blockCount) :
    matrasDestroyReadView m v.key = none := by
  have hne : v.blockCount ≠ 0 := by omega
  have hfind : findView v.key m.head m.views = some (v, m.head, none) := by
    rw [hviews, findView, if_pos rfl]
    rfl
  unfold matrasDestroyReadView
  rw [hfind]
  dsimp only
  have hroot : sameRoot v (some m.head) = false := by simp [sameRoot, hempty]
  unfold destroyExtents
  rw [if_neg hne, if_neg (by rw [hroot]; exact Bool.false_ne_true), if_neg (by simp [sameRoot]),
    stepLoop_rounds,
    show ({ m with views := m.views.filter fun w => w.key ≠ v.key } : Matras).config =
    m.config from rfl, hc.outerRounds_wraps hgt]
  rfl

/-! ## Runs -/

theorem tidyMachine_clean (hs : (tidyMachine blockSize extentSize).Reachable m) :
    m.Clean ∧ matrasConfig blockSize extentSize = some m.config := by
  refine Machine.Reachable.of_step (P := fun m => m.Clean ∧
      matrasConfig blockSize extentSize = some m.config)
    (tidyMachine blockSize extentSize) (fun m hm => ?_) (fun m op m' hP hal hex => ?_) hs
  · obtain ⟨slots, bytes, root, hcreate⟩ := hm
    exact ⟨matrasCreate_clean hcreate, (matrasCreate_spec hcreate).config⟩
  · obtain ⟨hc, hconfig⟩ := hP.1.exec hal.1 hal.2 hex
    exact ⟨hc, hconfig ▸ hP.2⟩

/-- Three extents that are not in use. -/
def Matras.freshExtents (m : Matras) : List (Option Nat) :=
  let top := m.allocator.allocated.sum
  [some (top + 1), some (top + 2), some (top + 3)]

theorem Matras.freshExtents_fresh (m : Matras) : m.FreshSupply m.freshExtents := by
  constructor
  · intro x hx hmem
    have hle := List.le_sum_of_mem hmem
    simp [Matras.freshExtents] at hx
    omega
  · simp [Matras.freshExtents]

/-- One more block. -/
theorem tidyMachine_alloc (hs : (tidyMachine blockSize extentSize).Reachable m)
    (hviews : m.views = []) (hlt : m.head.blockCount < m.config.capacity) :
    ∃ m', (tidyMachine blockSize extentSize).Reachable m' ∧ m'.views = [] ∧
      m'.head.blockCount = m.head.blockCount + 1 := by
  have hi := (tidyMachine_clean hs).1.good.inv
  have hfresh := m.freshExtents_fresh
  have hi' := Matras.withSupply_inv hi hfresh
  rcases matrasAlloc_spec hi' with ⟨m', rs', -, -, hfull | havail⟩ | ⟨m', rs', heq, h, -⟩
  · have : m.head.blockCount = m.config.capacity := hfull
    omega
  · have hnews := (m.withSupply m.freshExtents).length_news
    have : (m.withSupply m.freshExtents).allocator.avail = m.allocator.numReservedExtents + 3 := rfl
    omega
  · have hex : MatrasOp.exec m (.alloc m.freshExtents) = some m' := by simp [MatrasOp.exec, heq]
    exact ⟨m', .step (.alloc m.freshExtents) hs ⟨hfresh, trivial⟩ hex, h.views.trans hviews,
      h.count⟩

/-- Every number of blocks up to the capacity is reached. -/
theorem tidyMachine_count (hconfig : matrasConfig blockSize extentSize = some c) {n : Nat}
    (hn : n ≤ c.capacity) :
    ∃ m, (tidyMachine blockSize extentSize).Reachable m ∧ m.views = [] ∧ m.head.blockCount = n := by
  induction n with
  | zero =>
      have hcreate :
          ∃ m, matrasCreate blockSize extentSize (fun _ _ => 0) (fun _ _ => 0) 0 = some m := by
        rw [matrasCreate, hconfig]
        exact ⟨_, rfl⟩
      obtain ⟨m, hcreate⟩ := hcreate
      have hnew := matrasCreate_spec hcreate
      exact ⟨m, .init ⟨_, _, _, hcreate⟩, hnew.views, hnew.count⟩
  | succ n ih =>
      obtain ⟨m, hs, hviews, hcount⟩ := ih (Nat.le_of_succ_le hn)
      have hsame := (tidyMachine_clean hs).2.symm.trans hconfig
      rw [Option.some.injEq] at hsame
      obtain ⟨m', hs', hviews', hcount'⟩ :=
        tidyMachine_alloc hs hviews (by rw [hcount, hsame]; omega)
      exact ⟨m', hs', hviews', by rw [hcount', hcount]⟩

/-- **`matras_destroy` works up to the last extent but one.** For every number of blocks that a
matras without views can have, its loops end, read only slots in use and free every extent once
if and only if the outer counter does not wrap around behind the last extent of the second
level; and so do those of `matras_destroy_read_view`, for a view that is left alone. -/
theorem matras_destroy_iff (hconfig : matrasConfig blockSize extentSize = some c) :
    (∀ n ≤ c.capacity, ∃ m, (tidyMachine blockSize extentSize).Reachable m ∧ m.views = [] ∧
        m.head.blockCount = n) ∧
    ∀ m, (tidyMachine blockSize extentSize).Reachable m →
      (m.views = [] → (m.DestroysHead ↔ m.head.blockCount ≤ 2 ^ 32 - 2 ^ c.shift1)) ∧
      ∀ v, m.views = [v] → m.head.blockCount = 0 →
      (m.DestroysView v ↔ v.blockCount ≤ 2 ^ 32 - 2 ^ c.shift1) := by
  refine ⟨fun n hn => tidyMachine_count hconfig hn, fun m hs => ?_⟩
  obtain ⟨hc, hsame⟩ := tidyMachine_clean hs
  obtain rfl := Option.some.inj (hconfig.symm.trans hsame)
  have hok := hc.good.inv.config
  constructor
  · intro hviews
    constructor
    · rintro ⟨-, m', heq, -⟩
      by_contra hgt
      rw [matrasDestroy_wraps hok hviews (Nat.lt_of_not_le hgt)] at heq
      cases heq
    · exact hc.destroysHead hviews
  · intro v hviews hempty
    constructor
    · rintro ⟨-, m', heq, -⟩
      by_contra hgt
      rw [matrasDestroyReadView_wraps hok hviews hempty (Nat.lt_of_not_le hgt)] at heq
      cases heq
    · exact hc.destroysView hviews hempty

/-- What a matras with blocks of 8 bytes and extents of 16384 bytes has: its capacity is limited
to 2^32. -/
def largeConfig : MatrasConfig where
  blockSize := 8
  extentSize := 16384
  capacity := 2 ^ 32
  shift1 := 22
  shift2 := 11
  mask1 := 2 ^ 22 - 1
  mask2 := 2 ^ 11 - 1

theorem largeConfig_eq : matrasConfig 8 16384 = some largeConfig := by decide +kernel

/-- The 2^32 - 2^22 blocks below the last extent of the second level. -/
theorem matras_destroy_iff_large : ∃ m, (tidyMachine 8 16384).Reachable m ∧ m.views = [] ∧
    m.head.blockCount = 2 ^ 32 - 2 ^ 22 ∧ m.DestroysHead := by
  obtain ⟨hcounts, hiff⟩ := matras_destroy_iff largeConfig_eq
  obtain ⟨m, hs, hviews, hcount⟩ := hcounts (2 ^ 32 - 2 ^ 22) (by decide)
  exact ⟨m, hs, hviews, hcount, ((hiff m hs).1 hviews).2 (Nat.le_of_eq hcount)⟩

/-- With 2^32 blocks the outer loop makes rounds without end. -/
theorem matras_destroy_wraps :
    ∃ m, (tidyMachine 8 16384).Reachable m ∧ m.views = [] ∧ m.head.blockCount = 2 ^ 32 ∧
    matrasDestroy m = none ∧
    ∀ fuel, stepRounds (fun _ j1 => decide (j1 < m.head.blockCount))
      (m.config.mask1 + 1) fuel 0 0 = none := by
  obtain ⟨m, hs, hviews, hcount⟩ :=
    tidyMachine_count largeConfig_eq (show 2 ^ 32 ≤ largeConfig.capacity by decide)
  obtain ⟨hc, hsame⟩ := tidyMachine_clean hs
  have hconfig : largeConfig = m.config := Option.some.inj (largeConfig_eq.symm.trans hsame)
  have hgt : 2 ^ 32 - 2 ^ m.config.shift1 < m.head.blockCount := by
    rw [← hconfig, hcount]
    decide
  have hok := hc.good.inv.config
  exact ⟨m, hs, hviews, hcount, matrasDestroy_wraps hok hviews hgt, hok.outerRounds_wraps hgt⟩

end SmallAllocators
