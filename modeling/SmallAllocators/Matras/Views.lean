/-
SmallAllocators.Matras.Views — read views come and go.

A new view is the head once more. When a view goes, `matras_destroy_read_view`
frees the extents that neither of the two neighbours has, except below an
extent that a neighbour has: the loops stop there. What they free no other
view has (`Sharing.private_of_neighbours`).
-/
import Mathlib.Data.List.Nodup
import SmallAllocators.Matras.Dealloc

namespace SmallAllocators

variable {m m' m₁ m₂ : Matras} {rs rs' : List Nat} {v w next : MatrasView}
    {prev : Option MatrasView} {p q : ExtentPos}
  {id x n key : Nat}

/-! ## A new view -/

theorem matrasCreateReadView_inv (hi : m.Inv rs) (key : Nat) :
    (matrasCreateReadView m key).Inv rs := by
  have hmem : ∀ w ∈ (matrasCreateReadView m key).all, ∃ u ∈ m.all, w.root = u.root ∧
      w.blockCount = u.blockCount := by
    intro w hw
    rcases List.mem_cons.1 hw with rfl | hw
    · exact ⟨m.head, m.head_mem, rfl, rfl⟩
    · rcases List.mem_cons.1 hw with rfl | hw
      · exact ⟨m.head, m.head_mem, rfl, rfl⟩
      · exact ⟨w, Matras.view_mem hw, rfl, rfl⟩
  constructor
  case config => exact hi.config
  case sharing =>
    have hs := hi.sharing
    rw [Matras.all, List.map_cons] at hs
    have hd := hs.dup
    exact hd
  case owned =>
    intro w hw p hp
    obtain ⟨u, hu, hroot, hcount⟩ := hmem w hw
    have hp' : m.Covers u p := by
      show _ < _
      rw [← hcount]
      exact hp
    have haddr : (matrasCreateReadView m key).addr w p = m.addr u p := by
      cases p <;> simp [Matras.addr, matrasCreateReadView, hroot]
    rw [haddr]
    exact hi.owned u hu p hp'
  case bound =>
    intro w hw
    obtain ⟨u, hu, -, hcount⟩ := hmem w hw
    rw [hcount]
    exact hi.bound u hu
  case alloc => exact hi.alloc

/-! ## A view less -/

/-- The matras with some of its views. -/
theorem Matras.Inv.sublist (hi : m.Inv rs) {views : List MatrasView}
    (hsub : views.Sublist m.views) :
    ({ m with views := views } : Matras).Inv rs := by
  have hall : ∀ w ∈ ({ m with views := views } : Matras).all, w ∈ m.all :=
    (hsub.cons_cons m.head).subset
  constructor
  case config => exact hi.config
  case sharing => exact hi.sharing.sublist ((hsub.cons_cons m.head).map m.snap)
  case owned => exact fun w hw p hp => hi.owned w (hall w hw) p hp
  case bound => exact fun w hw => hi.bound w (hall w hw)
  case alloc => exact hi.alloc

/-- The views before and behind a view. -/
structure Matras.Between (m : Matras) (A : List MatrasView) (v next : MatrasView)
    (prev : Option MatrasView) (B : List MatrasView) : Prop where
  views : m.views = A ++ v :: B
  next : next = (m.head :: A).getLast (List.cons_ne_nil _ _)
  prev : prev = B.head?

theorem findView_eq {views : List MatrasView} (h : findView key next views = some (v, w, prev)) :
    ∃ A B, views = A ++ v :: B ∧ w = (next :: A).getLast (List.cons_ne_nil _ _) ∧ prev = B.head? ∧
      v.key = key := by
  induction views generalizing next with
  | nil => cases h
  | cons u views ih =>
      rw [findView] at h
      split at h
      · next hkey =>
          simp only [Option.some.injEq, Prod.mk.injEq] at h
          obtain ⟨rfl, rfl, rfl⟩ := h
          exact ⟨[], views, rfl, rfl, rfl, hkey⟩
      · obtain ⟨A, B, rfl, rfl, hprev, hkey⟩ := ih h
        exact ⟨u :: A, B, rfl, by rw [List.getLast_cons (List.cons_ne_nil _ _)], hprev, hkey⟩

theorem findView_eq_none {views : List MatrasView} (h : findView key next views = none) :
    ∀ v ∈ views, v.key ≠ key := by
  induction views generalizing next with
  | nil => exact fun v hv => (by cases hv)
  | cons u views ih =>
      rw [findView] at h
      split at h
      · cases h
      · next hkey =>
          intro v hv
          rcases List.mem_cons.1 hv with rfl | hv
          · exact hkey
          · exact ih h v hv

theorem filter_key {A B : List MatrasView} (hnodup : ((A ++ v :: B).map (·.key)).Nodup)
    (hkey : v.key = key) :
    (A ++ v :: B).filter (fun w => decide (w.key ≠ key)) = A ++ B := by
  have hne : ∀ w ∈ A ++ B, w.key ≠ key := by
    intro w hw he
    rw [List.map_append, List.map_cons, List.nodup_middle, List.nodup_cons] at hnodup
    refine hnodup.1 ?_
    rw [hkey, ← he, ← List.map_append]
    exact List.mem_map_of_mem hw
  have hA : A.filter (fun w => decide (w.key ≠ key)) = A :=
    List.filter_eq_self.2 fun w hw => decide_eq_true (hne w (List.mem_append_left _ hw))
  have hB : B.filter (fun w => decide (w.key ≠ key)) = B :=
    List.filter_eq_self.2 fun w hw => decide_eq_true (hne w (List.mem_append_right _ hw))
  rw [List.filter_append, List.filter_cons_of_neg (by simp [hkey]), hA, hB]

/-- The view has the extent, and the neighbours do not have it. -/
structure Matras.Unshared (m : Matras) (v next : MatrasView) (prev : Option MatrasView)
    (p : ExtentPos) : Prop where
  next : m.Covers next p → m.addr v p ≠ m.addr next p
  prev : ∀ u ∈ prev, m.Covers u p → m.addr v p ≠ m.addr u p

/-- An extent that no neighbour has is not in use when the view is gone. -/
theorem Matras.Between.not_reached {A B : List MatrasView} (hb : m.Between A v next prev B)
    (hi : m.Inv rs) (hp : m.Covers v p) (hu : m.Unshared v next prev p) :
    ¬ ({ m with views := A ++ B } : Matras).Reached (m.addr v p) := by
  have hvm : v ∈ m.all :=
    Matras.view_mem (hb.views.symm ▸ List.mem_append_right _ List.mem_cons_self)
  have hs := hi.sharing
  -- the list, with the next view in front of the view
  have hlist : m.all.map m.snap = (m.head :: A).dropLast.map m.snap ++ m.snap next :: m.snap v ::
      B.map m.snap := by
    have hall : m.all = (m.head :: A).dropLast ++ next :: v :: B := by
      rw [Matras.all, hb.views, hb.next, List.append_cons (m.head :: A).dropLast,
        List.dropLast_append_getLast, List.cons_append]
    rw [hall, List.map_append, List.map_cons, List.map_cons]
  rw [hlist] at hs
  obtain ⟨hnewer, holder⟩ :=
    hs.private_of_neighbours (p := p) (fun h => hu.next h.left h.eq.symm) (by
    intro u hu' hshare
    rw [List.head?_map, Option.mem_map] at hu'
    obtain ⟨u', hmem, rfl⟩ := hu'
    exact hu.prev u' (hb.prev ▸ hmem) hshare.right hshare.eq)
  rintro ⟨u, hu', q, hq, he⟩
  have hu'' : u ∈ (m.head :: A) ++ B := hu'
  have huall : u ∈ m.all := by
    rw [Matras.all, hb.views]
    rcases List.mem_append.1 hu'' with h | h
    · exact List.mem_append_left (v :: B) h
    · exact List.mem_append_right (m.head :: A) (List.mem_cons_of_mem _ h)
  obtain rfl := hi.inj huall hvm hq hp he
  rcases List.mem_append.1 hu'' with hmem | hmem
  · refine hnewer (m.snap u) ?_ ⟨hq, hp, he⟩
    rw [← List.map_singleton, ← List.map_append, hb.next, List.dropLast_append_getLast]
    exact List.mem_map_of_mem hmem
  · exact holder (m.snap u) (List.mem_map_of_mem hmem) ⟨hp, hq, he.symm⟩

/-! ## Loops -/

/-- The invariant rule for a loop of `n` rounds in which `j` does not wrap around. -/
theorem stepLoop_spec {cond : Nat → Nat → Bool} {step n : Nat}
    {body : Nat → Nat → Matras → Option Matras} {I : Nat → Matras → Prop}
    (hgo : ∀ k < n, cond k (k * step) = true) (hstop : cond n (n * step) = false)
    (hwrap : n * step < 2 ^ 32)
    (hbody : ∀ k m, k < n → I k m → ∃ m', body k (k * step) m = some m' ∧ I (k + 1) m')
    {fuel : Nat} :
    ∀ i m, i ≤ n → n < i + fuel → I i m →
      ∃ m', stepLoop cond step body fuel i (i * step) m = some m' ∧ I n m' := by
  induction fuel with
  | zero => exact fun i m hle hlt _ => absurd hlt (by omega)
  | succ fuel ih =>
      intro i m hle hlt hI
      rw [stepLoop]
      rcases Nat.lt_or_eq_of_le hle with hin | rfl
      · obtain ⟨m₁, heq, hI₁⟩ := hbody i m hin hI
        have hmul : (i + 1) * step ≤ n * step := Nat.mul_le_mul_right step hin
        have hnext : (i * step + step) % 2 ^ 32 = (i + 1) * step := by
          rw [← Nat.succ_mul, Nat.mod_eq_of_lt (Nat.lt_of_le_of_lt hmul hwrap)]
        rw [if_pos (hgo i hin), heq, Option.bind_eq_bind, Option.bind_some, hnext]
        exact ih (i + 1) m₁ hin (by omega) hI₁
      · rw [hstop, if_neg Bool.false_ne_true]
        exact ⟨m, rfl, hI⟩

/-- A loop in which `j` wraps around before it reaches the bound does not end. -/
theorem stepLoop_wraps {cond : Nat → Nat → Bool} {step : Nat}
    {body : Nat → Nat → Matras → Option Matras} (hdvd : step ∣ 2 ^ 32)
    (hgo : ∀ i j, step ∣ j → j < 2 ^ 32 → cond i j = true) {fuel : Nat} :
    ∀ i j m, step ∣ j → j < 2 ^ 32 → stepLoop cond step body fuel i j m = none := by
  induction fuel with
  | zero => exact fun _ _ _ _ _ => rfl
  | succ fuel ih =>
      intro i j m hj hlt
      rw [stepLoop, if_pos (hgo i j hj hlt), Option.bind_eq_bind]
      cases body i j m with
      | none => rfl
      | some m₁ =>
          refine ih _ _ _ ?_ (Nat.mod_lt _ (by decide))
          exact (Nat.dvd_mod_iff hdvd).2 (Nat.dvd_add hj (Nat.dvd_refl step))

/-- The extents of the view at the positions `D` went back; each of them changed the counter of
extents of views by `k`. -/
def Matras.Released (m : Matras) (rs : List Nat) (v : MatrasView) (D : ExtentPos → Prop) (k : Int)
    (m' : Matras) : Prop :=
  ∃ xs : List Nat, m.Freed rs xs (k * xs.length) m' ∧ ∀ y, y ∈ xs ↔ ∃ p, D p ∧ m.addr v p = y

namespace Matras.Released

variable {D D' : ExtentPos → Prop} {k : Int}

theorem refl (hi : m.Inv rs) (v : MatrasView) (k : Int) : m.Released rs v (fun _ => False) k m :=
  ⟨[], by simpa using Freed.refl hi, fun y => by simp⟩

theorem congr (h : m.Released rs v D k m') (hD : ∀ p, D p ↔ D' p) : m.Released rs v D' k m' := by
  obtain ⟨xs, hf, hmem⟩ := h
  refine ⟨xs, hf, fun y => ?_⟩
  rw [hmem]
  simp only [hD]

theorem tree (h : m.Released rs v D k m') : m.SameTree m' := by
  obtain ⟨xs, hf, -⟩ := h
  exact hf.tree

theorem cons {xs : List Nat}
    (hf : m.Freed rs (m.addr v q :: xs) (k * (m.addr v q :: xs).length) m₂)
    (hmem : ∀ y, y ∈ xs ↔ ∃ p, D p ∧ m.addr v p = y) :
    m.Released rs v (fun p => D p ∨ p = q) k m₂ := by
  refine ⟨m.addr v q :: xs, hf, fun y => ?_⟩
  rw [List.mem_cons, hmem]
  constructor
  · rintro (rfl | ⟨p, hp, he⟩)
    · exact ⟨q, Or.inr rfl, rfl⟩
    · exact ⟨p, Or.inl hp, he⟩
  · rintro ⟨p, hp | rfl, he⟩
    · exact Or.inr ⟨p, hp, he⟩
    · exact Or.inl he.symm

/-- One more extent of the view, by `matras_free_read_view_extent`. -/
theorem freeReadView (h : m.Released rs v D (-1) m₁) (hown : m.Owns rs (m.addr v q))
    (hnot : ¬ m.Reached (m.addr v q)) (hne : ∀ p, D p → m.addr v p ≠ m.addr v q) :
    ∃ m₂, matrasFreeReadViewExtent m₁ (m.addr v q) = some m₂ ∧
      m.Released rs v (fun p => D p ∨ p = q) (-1) m₂ := by
  obtain ⟨xs, hf, hmem⟩ := h
  have hxs : m.addr v q ∉ xs := by
    rw [hmem]
    rintro ⟨p, hp, he⟩
    exact hne p hp he
  obtain ⟨m₂, heq, hf₂⟩ := hf.cons_readView hown hxs hnot
  refine ⟨m₂, heq, cons ?_ hmem⟩
  have hlen : (-1 : Int) * (m.addr v q :: xs).length = -1 * xs.length - 1 := by
    rw [List.length_cons]
    omega
  rw [hlen]
  exact hf₂

/-- One more extent of the view, by `matras_free_extent`. -/
theorem free (h : m.Released rs v D 0 m₁) (hown : m.Owns rs (m.addr v q))
    (hnot : ¬ m.Reached (m.addr v q)) (hne : ∀ p, D p → m.addr v p ≠ m.addr v q) :
    ∃ m₂, matrasFreeExtent m₁ (m.addr v q) = some m₂ ∧
      m.Released rs v (fun p => D p ∨ p = q) 0 m₂ := by
  obtain ⟨xs, hf, hmem⟩ := h
  have hxs : m.addr v q ∉ xs := by
    rw [hmem]
    rintro ⟨p, hp, he⟩
    exact hne p hp he
  obtain ⟨m₂, heq, hf₂⟩ := hf.cons hown hxs hnot
  refine ⟨m₂, heq, cons ?_ hmem⟩
  rw [Int.zero_mul] at hf₂ ⊢
  exact hf₂

end Matras.Released

/-! ## Rounds -/

namespace MatrasConfig

variable {c : MatrasConfig}

/-- The number of rounds of the outer loop. -/
def mids (c : MatrasConfig) (b : Nat) : Nat :=
  (b + (c.perExtent * c.fanout - 1)) / (c.perExtent * c.fanout)

/-- The number of rounds of the inner loop. -/
def leaves (c : MatrasConfig) (b i : Nat) : Nat :=
  min c.fanout ((b - i * (c.perExtent * c.fanout) + (c.perExtent - 1)) / c.perExtent)

theorem lt_ceil_iff {b d k : Nat} (hd : 0 < d) : k < (b + (d - 1)) / d ↔ k * d < b := by
  rw [Nat.lt_iff_add_one_le, Nat.le_div_iff_mul_le hd, Nat.add_mul, Nat.one_mul]
  omega

theorem lt_mids_iff {b k : Nat} : k < c.mids b ↔ k * (c.perExtent * c.fanout) < b :=
  lt_ceil_iff (Nat.mul_pos c.perExtent_pos c.fanout_pos)

theorem lt_leaves_iff {b i k : Nat} :
    k < c.leaves b i ↔ k < c.fanout ∧ i * (c.perExtent * c.fanout) + k * c.perExtent < b := by
  rw [leaves, Nat.lt_min, lt_ceil_iff c.perExtent_pos]
  omega

theorem mids_le (c : MatrasConfig) (b : Nat) : c.mids b ≤ b := by
  by_contra hgt
  have hlt := lt_mids_iff.1 (Nat.lt_of_not_le hgt)
  have hle := Nat.le_mul_of_pos_right b (Nat.mul_pos c.perExtent_pos c.fanout_pos)
  omega

theorem Ok.step1_dvd (hc : c.Ok) : c.perExtent * c.fanout ∣ 2 ^ 32 := by
  rw [← hc.two_pow_shift1]
  exact Nat.pow_dvd_pow 2 (Nat.le_of_lt hc.shift1_lt)

/-- Where the outer counter wraps around, all its values are below the number of blocks. -/
theorem lt_of_wraps {b j : Nat} (hwrap : 2 ^ 32 ≤ c.mids b * (c.perExtent * c.fanout))
    (hj : c.perExtent * c.fanout ∣ j) (hlt : j < 2 ^ 32) : j < b := by
  obtain ⟨k, rfl⟩ := hj
  rw [Nat.mul_comm] at hlt ⊢
  exact lt_mids_iff.1 (Nat.lt_of_mul_lt_mul_right (Nat.lt_of_lt_of_le hlt hwrap))

/-- The outer counter does not wrap around. -/
theorem Ok.mids_lt (hc : c.Ok) {b : Nat} (hb : b ≤ c.capacity) (hsmall : c.capacity < 2 ^ 32) :
    c.mids b * (c.perExtent * c.fanout) < 2 ^ 32 := by
  have hlt := hc.shift2_lt
  have hexp : 2 * (c.shift1 - c.shift2) + c.shift2 < 32 := by
    rw [hc.capacity, Nat.pow_lt_pow_iff_right (by decide)] at hsmall
    omega
  have hcap : c.capacity = 2 ^ (c.shift1 - c.shift2) * (c.perExtent * c.fanout) := by
    rw [hc.capacity, ← hc.two_pow_shift1, ← Nat.pow_add]
    congr 1
    omega
  have hle : c.mids b ≤ 2 ^ (c.shift1 - c.shift2) := by
    by_contra hgt
    have := lt_mids_iff.1 (Nat.lt_of_not_le hgt)
    omega
  exact Nat.lt_of_le_of_lt
    (Nat.le_trans (Nat.mul_le_mul_right _ hle) (Nat.le_of_eq hcap.symm)) hsmall

/-- The outer loop over the extents of `b` blocks. -/
theorem midsLoop {b : Nat} (body : Nat → Nat → Matras → Option Matras) {I : Nat → Matras → Prop}
    (hwrap : c.mids b * (c.perExtent * c.fanout) < 2 ^ 32)
    (hbody : ∀ k m, k < c.mids b → I k m →
      ∃ m', body k (k * (c.perExtent * c.fanout)) m = some m' ∧ I (k + 1) m')
    (hI : I 0 m) :
    ∃ m', stepLoop (fun _ j1 => decide (j1 < b)) (c.perExtent * c.fanout) body (b + 1) 0 0 m =
      some m' ∧ I (c.mids b) m' := by
  have hloop : ∃ m', stepLoop (fun _ j1 => decide (j1 < b)) (c.perExtent * c.fanout) body
      (b + 1) 0 (0 * (c.perExtent * c.fanout)) m =
      some m' ∧ I (c.mids b) m' := by
    refine stepLoop_spec (I := I) (fun k hk => decide_eq_true (lt_mids_iff.1 hk))
      (decide_eq_false fun h => Nat.lt_irrefl _ (lt_mids_iff.2 h)) hwrap hbody 0 m
      (Nat.zero_le _) ?_ hI
    rw [Nat.zero_add, Nat.lt_succ_iff]
    exact c.mids_le b
  rwa [Nat.zero_mul] at hloop

/-- The sum of the two counters does not wrap around where the outer one does not. -/
theorem leaves_lt {b i k : Nat} (hwrap : c.mids b * (c.perExtent * c.fanout) < 2 ^ 32)
    (hi : i < c.mids b) (hk : k ≤ c.leaves b i) :
    i * (c.perExtent * c.fanout) + k * c.perExtent < 2 ^ 32 := by
  have hkf : k ≤ c.fanout := Nat.le_trans hk (Nat.min_le_left _ _)
  have h1 := Nat.mul_le_mul_right c.perExtent hkf
  have h2 := Nat.mul_le_mul_right (c.perExtent * c.fanout) hi
  rw [Nat.succ_mul] at h2
  rw [Nat.mul_comm c.fanout] at h1
  omega

theorem leaves_go {b i k : Nat} (hwrap : c.mids b * (c.perExtent * c.fanout) < 2 ^ 32)
    (hi : i < c.mids b) (hk : k < c.leaves b i) :
    (decide (k < c.fanout) &&
      decide ((i * (c.perExtent * c.fanout) + k * c.perExtent) % 2 ^ 32 < b)) = true := by
  have hlt := lt_leaves_iff.1 hk
  rw [Nat.mod_eq_of_lt (leaves_lt hwrap hi (Nat.le_of_lt hk))]
  simp [hlt.1, hlt.2]

theorem leaves_stop {b i : Nat} (hwrap : c.mids b * (c.perExtent * c.fanout) < 2 ^ 32)
    (hi : i < c.mids b) :
    (decide (c.leaves b i < c.fanout) &&
      decide ((i * (c.perExtent * c.fanout) + c.leaves b i * c.perExtent) % 2 ^ 32 < b)) =
          false := by
  have hnot := mt lt_leaves_iff.2 (Nat.lt_irrefl (c.leaves b i))
  rw [Nat.mod_eq_of_lt (leaves_lt hwrap hi (Nat.le_refl _)), Bool.and_eq_false_iff,
    decide_eq_false_iff_not, decide_eq_false_iff_not]
  exact Classical.not_and_iff_not_or_not.1 hnot

/-- The inner loop over the extents of the third level. -/
theorem Ok.leavesLoop (hc : c.Ok) {b i : Nat} (body : Nat → Nat → Matras → Option Matras)
    {I : Nat → Matras → Prop} (hwrap : c.mids b * (c.perExtent * c.fanout) < 2 ^ 32)
    (hi : i < c.mids b)
    (hbody : ∀ k m, k < c.leaves b i → I k m →
      ∃ m', body k (k * c.perExtent) m = some m' ∧ I (k + 1) m')
    (hI : I 0 m) :
    ∃ m', stepLoop (fun i2 j2 => decide (i2 < c.ptrsInExt) &&
        decide ((i * (c.perExtent * c.fanout) + j2) % 2 ^ 32 < b)) c.perExtent
      body (c.ptrsInExt + 1) 0 0 m = some m' ∧ I (c.leaves b i) m' := by
  rw [hc.ptrsInExt]
  have hloop : ∃ m', stepLoop (fun i2 j2 =>
      decide (i2 < c.fanout) && decide ((i * (c.perExtent * c.fanout) + j2) % 2 ^ 32 < b))
      c.perExtent body (c.fanout + 1) 0 (0 * c.perExtent) m = some m' ∧ I (c.leaves b i) m' := by
    refine stepLoop_spec (I := I) (fun k hk => leaves_go hwrap hi hk)
      (leaves_stop hwrap hi) ?_ hbody 0 m (Nat.zero_le _) ?_ hI
    · have := leaves_lt hwrap hi (Nat.le_refl _)
      omega
    · have : c.leaves b i ≤ c.fanout := Nat.min_le_left _ _
      omega
  rwa [Nat.zero_mul] at hloop

end MatrasConfig

/-! ## The extents of a view -/

namespace Matras

/-- The extents that `matras_destroy_read_view` frees below a root that it frees. -/
def Goes (m : Matras) (v next : MatrasView) (prev : Option MatrasView) : ExtentPos → Prop
  | .root => True
  | .mid i => m.Unshared v next prev (.mid i)
  | .leaf e => m.Unshared v next prev (.mid (e / m.config.fanout)) ∧
      m.Unshared v next prev (.leaf e)

/-- What the first `k` rounds of the outer loop free. -/
def MidsDone (m : Matras) (v next : MatrasView) (prev : Option MatrasView) (k : Nat)
    (p : ExtentPos) : Prop :=
  m.Covers v p ∧ m.Goes v next prev p ∧
    match p with
    | .root => False
    | .mid i => i < k
    | .leaf e => e / m.config.fanout < k

/-- What the first `k` rounds of the inner loop free, too. -/
def LeavesDone (m : Matras) (v next : MatrasView) (prev : Option MatrasView) (i k : Nat)
    (p : ExtentPos) : Prop :=
  m.MidsDone v next prev i p ∨
    ∃ e, p = .leaf e ∧ e / m.config.fanout = i ∧ e % m.config.fanout < k ∧ m.Covers v p ∧
    m.Unshared v next prev p

/-- A view that is no longer in the chain, with its extents still allocated. -/
structure Gone (m : Matras) (rs : List Nat) (v next : MatrasView) (prev : Option MatrasView) :
    Prop where
  inv : m.Inv rs
  bound : v.blockCount ≤ m.config.capacity
  owned : ∀ p, m.Covers v p → m.Owns rs (m.addr v p)
  inj : ∀ p q, m.Covers v p → m.Covers v q → m.addr v p = m.addr v q → p = q
  notReached : ∀ p, m.Covers v p → m.Unshared v next prev p → ¬ m.Reached (m.addr v p)

end Matras

theorem Matras.lt_mids {i : Nat} (h : m.Covers v (.mid i)) : i < m.config.mids v.blockCount := by
  rw [MatrasConfig.lt_mids_iff, Nat.mul_comm m.config.perExtent, ← Nat.mul_assoc]
  exact h

theorem sameSlot_eq_false_iff {j ext i extn : Nat} {neighbour : Option MatrasView} :
    sameSlot m neighbour j ext i extn = false ↔ ∀ u ∈ neighbour, j < u.blockCount →
      m.slots ext i ≠ m.slots extn i := by
  cases neighbour with
  | none => simp [sameSlot]
  | some u => simp [sameSlot]

/-- What a round of the outer loop adds. -/
theorem midsDone_succ (i : Nat) (p : ExtentPos) :
    m.MidsDone v next prev (i + 1) p ↔ m.MidsDone v next prev i p ∨
      m.Unshared v next prev (.mid i) ∧ m.Covers v p ∧
        (p = .mid i ∨ ∃ e, p = .leaf e ∧ e / m.config.fanout = i ∧ m.Unshared v next prev p) := by
  cases p with
  | root => simp [Matras.MidsDone]
  | mid j =>
      simp only [Matras.MidsDone, Matras.Goes, ExtentPos.mid.injEq, reduceCtorEq, false_and,
        exists_false, or_false, Nat.lt_succ_iff_lt_or_eq]
      constructor
      · rintro ⟨h1, h2, h3 | rfl⟩
        · exact Or.inl ⟨h1, h2, h3⟩
        · exact Or.inr ⟨h2, h1, rfl⟩
      · rintro (⟨h1, h2, h3⟩ | ⟨h2, h1, rfl⟩)
        · exact ⟨h1, h2, Or.inl h3⟩
        · exact ⟨h1, h2, Or.inr rfl⟩
  | leaf e =>
      simp only [Matras.MidsDone, Matras.Goes, reduceCtorEq, false_or, ExtentPos.leaf.injEq,
        Nat.lt_succ_iff_lt_or_eq]
      constructor
      · rintro ⟨h1, ⟨h2, h3⟩, h4 | rfl⟩
        · exact Or.inl ⟨h1, ⟨h2, h3⟩, h4⟩
        · exact Or.inr ⟨h2, h1, e, rfl, rfl, h3⟩
      · rintro (⟨h1, h2, h3⟩ | ⟨h2, h1, e', rfl, rfl, h3⟩)
        · exact ⟨h1, h2, Or.inl h3⟩
        · exact ⟨h1, ⟨h2, h3⟩, Or.inr rfl⟩

section Rounds

variable (hg : m.Gone rs v next prev)

include hg

/-- One round of the inner loop. -/
theorem destroyLeaf_spec {i k : Nat} (hk : k < m.config.leaves v.blockCount i)
    (hr : m.Released rs v (m.LeavesDone v next prev i k) (-1) m₁) :
    ∃ m₂, destroyLeaf v next prev i (i * (m.config.perExtent * m.config.fanout)) k
      (k * m.config.perExtent) m₁ = some m₂ ∧
      m.Released rs v (m.LeavesDone v next prev i (k + 1)) (-1) m₂ := by
  have ht := hr.tree
  obtain ⟨hkf, hkb⟩ := MatrasConfig.lt_leaves_iff.1 hk
  have hcap := Nat.le_trans hg.bound hg.inv.config.capacity_le_two_pow
  have hdiv : (i * m.config.fanout + k) / m.config.fanout = i := by
    rw [Nat.mul_comm, Nat.mul_add_div m.config.fanout_pos, Nat.div_eq_of_lt hkf, Nat.add_zero]
  have hmod : (i * m.config.fanout + k) % m.config.fanout = k := by
    rw [Nat.mul_comm, Nat.mul_add_mod, Nat.mod_eq_of_lt hkf]
  have hfirst : (i * m.config.fanout + k) * m.config.perExtent =
      i * (m.config.perExtent * m.config.fanout) + k * m.config.perExtent := by
    rw [Nat.add_mul, Nat.mul_assoc, Nat.mul_comm m.config.fanout]
  have hcov : m.Covers v (.leaf (i * m.config.fanout + k)) := by
    show (i * m.config.fanout + k) * m.config.perExtent < _
    rw [hfirst]
    exact hkb
  have haddr : ∀ u : MatrasView, m₁.slots (m₁.slots u.root i) k =
      m.addr u (.leaf (i * m.config.fanout + k)) := by
    intro u
    rw [ht.slots]
    show _ = m.slots (m.slots u.root ((i * m.config.fanout + k) / m.config.fanout))
      ((i * m.config.fanout + k) % m.config.fanout)
    rw [hdiv, hmod]
  have hun : m.Unshared v next prev (.leaf (i * m.config.fanout + k)) ↔
      sameSlot m₁ (some next)
        ((i * (m.config.perExtent * m.config.fanout) + k * m.config.perExtent) % 2 ^ 32)
        (m₁.slots v.root i) k (m₁.slots next.root i) = false ∧
      sameSlot m₁ prev
        ((i * (m.config.perExtent * m.config.fanout) + k * m.config.perExtent) % 2 ^ 32)
        (m₁.slots v.root i) k (m₁.slots ((prev.map (·.root)).getD 0) i) = false := by
    rw [sameSlot_eq_false_iff, sameSlot_eq_false_iff, Nat.mod_eq_of_lt (by omega), haddr v,
      haddr next]
    constructor
    · intro hu
      refine ⟨fun u hu' hlt => ?_, fun u hu' hlt => ?_⟩
      · obtain rfl := Option.some.inj hu'
        exact hu.next (by rw [Matras.covers_leaf, hfirst]; exact hlt)
      · rw [Option.mem_def.1 hu', Option.map_some, Option.getD_some, haddr u]
        exact hu.prev u hu' (by rw [Matras.covers_leaf, hfirst]; exact hlt)
    · rintro ⟨h1, h2⟩
      refine ⟨fun hc => h1 next rfl (by rw [← hfirst]; exact hc), fun u hu' hc => ?_⟩
      have hne := h2 u hu' (by rw [← hfirst]; exact hc)
      rwa [Option.mem_def.1 hu', Option.map_some, Option.getD_some, haddr u] at hne
  have hiff : ∀ p, m.LeavesDone v next prev i (k + 1) p ↔ m.LeavesDone v next prev i k p ∨
      p = .leaf (i * m.config.fanout + k) ∧ m.Unshared v next prev p := by
    intro p
    constructor
    · rintro (h | ⟨e, rfl, h1, h2, h3, h4⟩)
      · exact Or.inl (Or.inl h)
      · rcases Nat.lt_or_eq_of_le (Nat.le_of_lt_succ h2) with hlt | heq
        · exact Or.inl (Or.inr ⟨e, rfl, h1, hlt, h3, h4⟩)
        · have he : e = i * m.config.fanout + k :=
            ExtentPos.leaf_eq (h1.trans hdiv.symm) (heq.trans hmod.symm)
          exact Or.inr ⟨by rw [he], h4⟩
    · rintro ((h | ⟨e, rfl, h1, h2, h3, h4⟩) | ⟨rfl, h⟩)
      · exact Or.inl h
      · exact Or.inr ⟨e, rfl, h1, Nat.lt_succ_of_lt h2, h3, h4⟩
      · exact Or.inr ⟨_, rfl, hdiv, by rw [hmod]; exact Nat.lt_succ_self k, hcov, h⟩
  unfold destroyLeaf
  by_cases hu : m.Unshared v next prev (.leaf (i * m.config.fanout + k))
  · obtain ⟨h1, h2⟩ := hun.1 hu
    obtain ⟨m₂, heq, hr₂⟩ :=
        hr.freeReadView (hg.owned _ hcov) (hg.notReached _ hcov hu) fun p hp he => by
      have hcovp : m.Covers v p := by
        rcases hp with hp | ⟨_, _, _, _, hp, _⟩
        · exact hp.1
        · exact hp
      obtain rfl := hg.inj p _ hcovp hcov he
      rcases hp with ⟨_, _, hlt⟩ | ⟨e, he, _, hlt, _, _⟩
      · have hlt' : (i * m.config.fanout + k) / m.config.fanout < i := hlt
        omega
      · rw [ExtentPos.leaf.injEq] at he
        rw [← he, hmod] at hlt
        exact Nat.lt_irrefl k hlt
    refine ⟨m₂, ?_, hr₂.congr fun p => ?_⟩
    · show (if sameSlot m₁ _ _ _ _ _ = true then _ else if sameSlot m₁ _ _ _ _ _ = true then
          _ else _) = _
      rw [h1, h2, if_neg Bool.false_ne_true, if_neg Bool.false_ne_true, haddr v, heq]
    · rw [hiff]
      exact or_congr Iff.rfl ⟨fun h => ⟨h, h ▸ hu⟩, fun h => h.1⟩
  · refine ⟨m₁, ?_, hr.congr fun p => ?_⟩
    · show (if sameSlot m₁ _ _ _ _ _ = true then _ else if sameSlot m₁ _ _ _ _ _ = true then
          _ else _) = _
      split
      · rfl
      · next h1 =>
          rw [if_pos]
          by_contra h2
          exact hu (hun.2 ⟨Bool.eq_false_iff.2 h1, Bool.eq_false_iff.2 h2⟩)
    · rw [hiff]
      refine ⟨Or.inl, fun h => h.resolve_right ?_⟩
      rintro ⟨rfl, h⟩
      exact hu h

/-- One round of the outer loop. -/
theorem destroyMid_spec {i : Nat}
    (hwrap : m.config.mids v.blockCount * (m.config.perExtent * m.config.fanout) < 2 ^ 32)
    (hk : i < m.config.mids v.blockCount)
    (hr : m.Released rs v (m.MidsDone v next prev i) (-1) m₁) :
    ∃ m₂, destroyMid v next prev i (i * (m.config.perExtent * m.config.fanout)) m₁ = some m₂ ∧
      m.Released rs v (m.MidsDone v next prev (i + 1)) (-1) m₂ := by
  have ht := hr.tree
  have hc := hg.inv.config
  have hib := MatrasConfig.lt_mids_iff.1 hk
  have hfirst :
      i * m.config.fanout * m.config.perExtent = i * (m.config.perExtent * m.config.fanout) := by
    rw [Nat.mul_assoc, Nat.mul_comm m.config.fanout]
  have hcov : m.Covers v (.mid i) := by
    rw [Matras.covers_mid, hfirst]
    exact hib
  have haddr : ∀ u : MatrasView, m₁.slots u.root i = m.addr u (.mid i) := by
    intro u
    rw [ht.slots]
    rfl
  have hun : m.Unshared v next prev (.mid i) ↔
      sameSlot m₁ (some next)
        (i * (m.config.perExtent * m.config.fanout)) v.root i next.root = false ∧
      sameSlot m₁ prev (i * (m.config.perExtent * m.config.fanout)) v.root i
        ((prev.map (·.root)).getD 0) = false := by
    rw [sameSlot_eq_false_iff, sameSlot_eq_false_iff, haddr v, haddr next]
    constructor
    · intro hu
      refine ⟨fun u hu' hlt => ?_, fun u hu' hlt => ?_⟩
      · obtain rfl := Option.some.inj hu'
        exact hu.next (by rw [Matras.covers_mid, hfirst]; exact hlt)
      · rw [Option.mem_def.1 hu', Option.map_some, Option.getD_some, haddr u]
        exact hu.prev u hu' (by rw [Matras.covers_mid, hfirst]; exact hlt)
    · rintro ⟨h1, h2⟩
      refine ⟨fun hc => h1 next rfl (by rw [← hfirst]; exact hc), fun u hu' hc => ?_⟩
      have hne := h2 u hu' (by rw [← hfirst]; exact hc)
      rwa [Option.mem_def.1 hu', Option.map_some, Option.getD_some, haddr u] at hne
  by_cases hu : m.Unshared v next prev (.mid i)
  · obtain ⟨h1, h2⟩ := hun.1 hu
    obtain ⟨m₂, heq, hr₂⟩ :=
      hc.leavesLoop (destroyLeaf v next prev i (i * (m.config.perExtent * m.config.fanout)))
      (I := fun k m' => m.Released rs v (m.LeavesDone v next prev i k) (-1) m') hwrap hk
      (fun k m' hk' hI => destroyLeaf_spec hg hk' hI)
      (hr.congr fun p => ⟨Or.inl, fun h => h.resolve_right (by
        rintro ⟨e, -, -, h, -⟩
        exact Nat.not_lt_zero _ h)⟩)
    obtain ⟨m₃, heq₃, hr₃⟩ :=
        hr₂.freeReadView (hg.owned _ hcov) (hg.notReached _ hcov hu) fun p hp he => by
      have hcovp : m.Covers v p := by
        rcases hp with hp | ⟨_, _, _, _, hp, _⟩
        · exact hp.1
        · exact hp
      obtain rfl := hg.inj p _ hcovp hcov he
      rcases hp with ⟨_, _, hlt⟩ | ⟨e, he, _⟩
      · exact Nat.lt_irrefl i hlt
      · cases he
    refine ⟨m₃, ?_, hr₃.congr fun p => ?_⟩
    · unfold destroyMid
      rw [h1, h2, if_neg Bool.false_ne_true, if_neg Bool.false_ne_true]
      rw [ht.config, hc.step2, heq, Option.bind_eq_bind, Option.bind_some, haddr v, heq₃]
    · rw [midsDone_succ]
      constructor
      · rintro ((h | ⟨e, rfl, h1, h2, h3, h4⟩) | rfl)
        · exact Or.inl h
        · exact Or.inr ⟨hu, h3, Or.inr ⟨e, rfl, h1, h4⟩⟩
        · exact Or.inr ⟨hu, hcov, Or.inl rfl⟩
      · rintro (h | ⟨-, h3, rfl | ⟨e, rfl, h1, h4⟩⟩)
        · exact Or.inl (Or.inl h)
        · exact Or.inr rfl
        · refine Or.inl (Or.inr ⟨e, rfl, h1, ?_, h3, h4⟩)
          rw [MatrasConfig.lt_leaves_iff]
          refine ⟨Nat.mod_lt _ m.config.fanout_pos, ?_⟩
          have h3' : e * m.config.perExtent < v.blockCount := h3
          rw [← Nat.div_add_mod e m.config.fanout, h1, Nat.add_mul,
            Nat.mul_comm m.config.fanout] at h3'
          rw [← hfirst]
          exact h3'
  · refine ⟨m₁, ?_, hr.congr fun p => ?_⟩
    · unfold destroyMid
      split
      · rfl
      · next h1 =>
          rw [if_pos]
          by_contra h2
          exact hu (hun.2 ⟨Bool.eq_false_iff.2 h1, Bool.eq_false_iff.2 h2⟩)
    · rw [midsDone_succ]
      exact ⟨Or.inl, fun h => h.resolve_right fun h' => hu h'.1⟩

omit hg in
theorem unshared_root_iff :
    m.Unshared v next prev .root ↔ sameRoot v (some next) = false ∧ sameRoot v prev = false := by
  have hiff : ∀ u : Option MatrasView, sameRoot v u = false ↔ ∀ w ∈ u, m.Covers w .root →
      m.addr v .root ≠ m.addr w .root := by
    intro u
    cases u with
    | none => simp [sameRoot]
    | some w =>
        simp only [sameRoot, Bool.and_eq_false_iff, decide_eq_false_iff_not, Option.mem_def,
          Option.some.injEq, forall_eq', Matras.covers_root, Matras.addr, Nat.pos_iff_ne_zero]
        tauto
  rw [hiff, hiff]
  exact ⟨fun h => ⟨fun w hw => Option.some.inj hw ▸ h.next, h.prev⟩, fun h => ⟨h.1 next rfl, h.2⟩⟩

/-- The extents of a view go back, unless the outer counter wraps around: then the loop does not
end. -/
theorem destroyExtents_spec :
    (2 ^ 32 ≤ m.config.mids v.blockCount * (m.config.perExtent * m.config.fanout) ∧
        destroyExtents m v next prev = none) ∨
    ∃ m', destroyExtents m v next prev = some m' ∧
      m.Released rs v (fun p => m.Covers v p ∧ m.Unshared v next prev .root ∧
        m.Goes v next prev p) (-1) m' := by
  have hc := hg.inv.config
  unfold destroyExtents
  by_cases hzero : v.blockCount = 0
  · right
    rw [if_pos hzero]
    refine ⟨m, rfl, (Matras.Released.refl hg.inv v (-1)).congr fun p => ⟨False.elim, fun h => ?_⟩⟩
    have hlt : _ < v.blockCount := h.1
    omega
  · rw [if_neg hzero]
    by_cases hroot : m.Unshared v next prev .root
    · obtain ⟨h1, h2⟩ := unshared_root_iff.1 hroot
      have hcov : m.Covers v .root := Nat.pos_of_ne_zero hzero
      rw [h1, h2, if_neg Bool.false_ne_true, if_neg Bool.false_ne_true, hc.step1]
      rcases Nat.lt_or_ge (m.config.mids v.blockCount * (m.config.perExtent * m.config.fanout))
        (2 ^ 32) with hwrap | hwrap
      · right
        obtain ⟨m₂, heq, hr₂⟩ := MatrasConfig.midsLoop (destroyMid v next prev)
          (I := fun k m' => m.Released rs v (m.MidsDone v next prev k) (-1) m') hwrap
          (fun k m' hk hI => destroyMid_spec hg hwrap hk hI)
          ((Matras.Released.refl hg.inv v (-1)).congr fun p => ⟨False.elim, fun h => by
            cases p with
            | root => exact h.2.2
            | mid i => exact Nat.not_lt_zero _ h.2.2
            | leaf e => exact Nat.not_lt_zero _ h.2.2⟩)
        obtain ⟨m₃, heq₃, hr₃⟩ :=
            hr₂.freeReadView (hg.owned _ hcov) (hg.notReached _ hcov hroot) fun p hp he => by
          obtain rfl := hg.inj p _ hp.1 hcov he
          exact hp.2.2
        refine ⟨m₃, by rw [heq, Option.bind_eq_bind, Option.bind_some]; exact heq₃,
          hr₃.congr fun p => ?_⟩
        constructor
        · rintro (h | rfl)
          · exact ⟨h.1, hroot, h.2.1⟩
          · exact ⟨hcov, hroot, trivial⟩
        · rintro ⟨h1, -, h3⟩
          cases p with
          | root => exact Or.inr rfl
          | mid i => exact Or.inl ⟨h1, h3, Matras.lt_mids h1⟩
          | leaf e => exact Or.inl ⟨h1, h3, Matras.lt_mids h1.mid_of_leaf⟩
      · left
        refine ⟨hwrap, ?_⟩
        rw [stepLoop_wraps hc.step1_dvd
          (fun i j hj hlt => decide_eq_true (MatrasConfig.lt_of_wraps hwrap hj hlt)) 0 0 m
          (Nat.dvd_zero _) (by decide)]
        rfl
    · right
      refine ⟨m, ?_, (Matras.Released.refl hg.inv v (-1)).congr fun p =>
        ⟨False.elim, fun h => hroot h.2.1⟩⟩
      split
      · rfl
      · next h1 =>
          rw [if_pos]
          by_contra h2
          exact hroot (unshared_root_iff.2 ⟨Bool.eq_false_iff.2 h1, Bool.eq_false_iff.2 h2⟩)

end Rounds

/-! ## `matras_destroy_read_view` -/

theorem Matras.Between.mem {A B : List MatrasView} (hb : m.Between A v next prev B) :
    v ∈ m.views := by
  rw [hb.views]
  exact List.mem_append_right _ List.mem_cons_self

theorem Matras.Between.gone {A B : List MatrasView} (hb : m.Between A v next prev B)
    (hi : m.Inv rs) :
    ({ m with views := A ++ B } : Matras).Gone rs v next prev where
  inv := hi.sublist
    (by rw [hb.views]; exact (List.Sublist.refl A).append (List.sublist_cons_self v B))
  bound := hi.bound v (Matras.view_mem hb.mem)
  owned p hp := hi.owned v (Matras.view_mem hb.mem) p hp
  inj p q hp hq := hi.inj (Matras.view_mem hb.mem) (Matras.view_mem hb.mem) hp hq
  notReached p hp hu := hb.not_reached hi hp ⟨hu.next, hu.prev⟩

theorem Matras.unshared_views (views : List MatrasView) :
    ({ m with views := views } : Matras).Unshared v next prev p ↔ m.Unshared v next prev p :=
  ⟨fun h => ⟨h.next, h.prev⟩, fun h => ⟨h.next, h.prev⟩⟩

theorem Matras.goes_views (views : List MatrasView) :
    ({ m with views := views } : Matras).Goes v next prev p ↔ m.Goes v next prev p := by
  cases p with
  | root => exact Iff.rfl
  | mid i => exact Matras.unshared_views views
  | leaf e => exact and_congr (Matras.unshared_views views) (Matras.unshared_views views)

/-- The view is gone. -/
structure Matras.Dropped (m : Matras) (rs : List Nat) (v next : MatrasView)
    (prev : Option MatrasView) (m' : Matras) : Prop where
  inv : m'.Inv rs
  config : m'.config = m.config
  head : m'.head = m.head
  slots : m'.slots = m.slots
  bytes : m'.bytes = m.bytes
  owns : ∀ x, m'.Owns rs x ↔ m.Owns rs x ∧ ∀ p, m.Covers v p → m.Unshared v next prev .root →
    m.Goes v next prev p → m.addr v p ≠ x
  counts : ∃ k : Int, m.Counts k k m'

/-- `matras_destroy_read_view`. It does not end if the view has so many blocks that the outer
counter wraps around. -/
theorem matrasDestroyReadView_spec (hi : m.Inv rs) (hkeys : (m.views.map (·.key)).Nodup)
    (key : Nat) :
    ((∀ v ∈ m.views, v.key ≠ key) ∧ matrasDestroyReadView m key = some m) ∨
    ∃ A v next prev B, m.Between A v next prev B ∧ v.key = key ∧
      ((2 ^ 32 ≤ m.config.mids v.blockCount * (m.config.perExtent * m.config.fanout) ∧
        matrasDestroyReadView m key = none) ∨
        ∃ m', matrasDestroyReadView m key = some m' ∧ m'.views = A ++ B ∧
        m.Dropped rs v next prev m') := by
  unfold matrasDestroyReadView
  cases hfind : findView key m.head m.views with
  | none => exact Or.inl ⟨findView_eq_none hfind, rfl⟩
  | some found =>
      right
      obtain ⟨v, next, prev⟩ := found
      obtain ⟨A, B, hviews, hnext, hprev, hkey⟩ := findView_eq hfind
      have hb : m.Between A v next prev B := ⟨hviews, hnext, hprev⟩
      refine ⟨A, v, next, prev, B, hb, hkey, ?_⟩
      rw [hviews] at hkeys
      show (_ ∧ destroyExtents
          { m with views := m.views.filter fun w => decide (w.key ≠ key) } v next prev = none) ∨
        ∃ m', destroyExtents
        { m with views := m.views.filter fun w => decide (w.key ≠ key) } v next prev = some m' ∧ _
      rw [hviews, filter_key hkeys hkey]
      rcases destroyExtents_spec (hb.gone hi) with ⟨hwrap, hnone⟩ | ⟨m', heq, xs, hf, hmem⟩
      · exact Or.inl ⟨hwrap, hnone⟩
      · right
        refine ⟨m', heq, hf.tree.views, ?_⟩
        constructor
        case inv => exact hf.inv
        case config => exact hf.tree.config
        case head => exact hf.tree.head
        case slots => exact hf.tree.slots
        case bytes => exact hf.tree.bytes
        case owns =>
          intro x
          rw [hf.owns, hmem]
          refine and_congr Iff.rfl ⟨fun h p h1 h2 h3 he => ?_, fun h => ?_⟩
          · exact h ⟨p, ⟨h1, (Matras.unshared_views _).2 h2, (Matras.goes_views _).2 h3⟩, he⟩
          · rintro ⟨p, ⟨h1, h2, h3⟩, he⟩
            exact h p h1 ((Matras.unshared_views _).1 h2) ((Matras.goes_views _).1 h3) he
        case counts =>
          have hc := hf.counts
          rw [show (-1 : Int) * xs.length = -xs.length by omega] at hc
          exact ⟨_, hc.extents, hc.total, hc.views, hc.size⟩

end SmallAllocators
