/-
SmallAllocators.Growth — the loops of the buffers that double a capacity.

A capacity that is a `size_t` loses its highest bit when it is doubled, so it
can get smaller, and is 0 in the end. `growLoop` then stays at 0 and
`allocPosLoop` starts again. `Reaches c needed` says that one of the words that
doubling `c` gives is large enough. Each of `ibuf_reserve_slow`,
`obuf_alloc_pos` and `obuf_reserve_slow` ends, and asks `slab_get` for enough,
if and only if the capacity that it starts from reaches what is needed
(`growth_enough_iff`). Up to 2^63 bytes it always does (`reaches_of_le`).
-/
import SmallAllocators.Lib.Loops
import SmallAllocators.Ibuf.Runs
import SmallAllocators.Obuf.Runs

namespace SmallAllocators

variable {g : Geometry} {needed size c n start : Nat}

/-! ## Doubling -/

/-- `capacity * 2` of a `size_t`. -/
def double (c : Nat) : Nat := c * 2 % sizeMax

/-- The body of the loop of `obuf_alloc_pos`. -/
def doubleOrStart (start c : Nat) : Nat := if c = 0 then start else c * 2 % sizeMax

/-- One of the words that doubling `c` gives is at least `needed`. -/
def Reaches (c needed : Nat) : Prop := ∃ j < 64, needed ≤ c * 2 ^ j % sizeMax

theorem iterate_double (hc : c < sizeMax) (j : Nat) : double^[j] c = c * 2 ^ j % sizeMax := by
  induction j with
  | zero => rw [Nat.pow_zero, Nat.mul_one, Nat.mod_eq_of_lt hc]; rfl
  | succ j ih => rw [Function.iterate_succ_apply', ih, double, Nat.mod_mul_mod, Nat.mul_assoc,
      ← Nat.pow_succ]

theorem shift_out (c : Nat) {j : Nat} (hj : 64 ≤ j) : c * 2 ^ j % sizeMax = 0 := by
  rw [← Nat.add_sub_of_le hj, Nat.pow_add, Nat.mul_left_comm]
  exact Nat.mul_mod_right _ _

/-- All bits are shifted out after 64 rounds, so there are 65 words at most. -/
theorem doubles_mem (c j : Nat) :
    c * 2 ^ j % sizeMax ∈ (Finset.range 65).image fun i => c * 2 ^ i % sizeMax := by
  rw [Finset.mem_image]
  by_cases hj : j < 64
  · exact ⟨j, Finset.mem_range.2 (by omega), rfl⟩
  · exact ⟨64, by decide, by rw [shift_out c (Nat.le_refl 64), shift_out c (Nat.le_of_not_lt hj)]⟩

theorem card_doubles (c : Nat) : ((Finset.range 65).image fun i => c * 2 ^ i % sizeMax).card ≤ 65 :=
  Finset.card_image_le.trans (Nat.le_of_eq (Finset.card_range 65))

/-- Only a word before the last bit is shifted out is large enough. -/
theorem reaches_iff : Reaches c needed ↔ ∃ j, needed ≤ c * 2 ^ j % sizeMax := by
  constructor
  · rintro ⟨j, -, h⟩
    exact ⟨j, h⟩
  · rintro ⟨j, h⟩
    by_cases hj : j < 64
    · exact ⟨j, hj, h⟩
    · rw [shift_out c (Nat.le_of_not_lt hj)] at h
      exact ⟨0, by decide, h.trans (Nat.zero_le _)⟩

/-- The word in which the highest bit of `c` is the highest bit of all is at least 2^63. -/
theorem reaches_of_le (h1 : 1 ≤ c) (hc : c < sizeMax) (hneeded : needed ≤ 2 ^ 63) :
    Reaches c needed := by
  have hne : c ≠ 0 := by omega
  have hlog : Nat.log2 c < 64 := (Nat.log2_lt hne).2 hc
  have hlow := Nat.log2_self_le hne
  have hhigh : c < 2 ^ (Nat.log2 c + 1) := Nat.lt_log2_self
  have hsum : Nat.log2 c + (63 - Nat.log2 c) = 63 := by omega
  have hge : 2 ^ 63 ≤ c * 2 ^ (63 - Nat.log2 c) := by
    calc 2 ^ 63 = 2 ^ Nat.log2 c * 2 ^ (63 - Nat.log2 c) := by rw [← Nat.pow_add, hsum]
      _ ≤ c * 2 ^ (63 - Nat.log2 c) := Nat.mul_le_mul_right _ hlow
  have hlt : c * 2 ^ (63 - Nat.log2 c) < sizeMax := by
    calc c * 2 ^ (63 - Nat.log2 c) < 2 ^ (Nat.log2 c + 1) * 2 ^ (63 - Nat.log2 c) :=
          Nat.mul_lt_mul_of_pos_right hhigh (Nat.two_pow_pos _)
      _ = sizeMax := by rw [← Nat.pow_add, show Nat.log2 c + 1 + (63 - Nat.log2 c) = 64 by omega,
        sizeMax]
  refine ⟨63 - Nat.log2 c, by omega, ?_⟩
  rw [Nat.mod_eq_of_lt hlt]
  exact hneeded.trans hge

/-! ## The loops -/

theorem growLoop_eq_run (fuel c : Nat) :
    growLoop needed fuel c = Loop.run (· < needed) double fuel c := by
  induction fuel generalizing c with
  | zero => rfl
  | succ fuel ih => rw [growLoop, Loop.run, ih]; rfl

/-- 65 rounds are enough for the doubling loop: it has no result if and only if it never ends. -/
theorem growLoop_iff_ends (hc : c < sizeMax) :
    growLoop needed 65 c = some n ↔ Loop.Ends (· < needed) double c n := by
  rw [growLoop_eq_run]
  refine Loop.run_eq_some_iff _ (fun j => ?_) (card_doubles c)
  rw [iterate_double hc]
  exact doubles_mem c j

theorem growLoop_isSome_iff (hc : c < sizeMax) :
    (∃ n, growLoop needed 65 c = some n) ↔ Reaches c needed := by
  simp only [growLoop_iff_ends hc, Loop.exists_ends_iff, iterate_double hc, Nat.not_lt, reaches_iff]

theorem growLoop_le (h : growLoop needed 65 c = some n) : needed ≤ n := by
  rw [growLoop_eq_run] at h
  exact Nat.le_of_not_lt (Loop.ends_of_run h).not_cond

theorem allocPosLoop_eq_run (fuel c : Nat) :
    allocPosLoop start needed fuel c = Loop.run (· < needed) (doubleOrStart start) fuel c := by
  induction fuel generalizing c with
  | zero => rfl
  | succ fuel ih => rw [allocPosLoop, Loop.run, ih]; rfl

/-- The words of this loop are the start capacity and its doubles. -/
theorem iterate_doubleOrStart (hstart : start < sizeMax) (p j : Nat) :
    ∃ i, (doubleOrStart start)^[j] (start * 2 ^ p % sizeMax) = start * 2 ^ i % sizeMax := by
  induction j with
  | zero => exact ⟨p, rfl⟩
  | succ j ih =>
      obtain ⟨i, hi⟩ := ih
      rw [Function.iterate_succ_apply', hi, doubleOrStart]
      by_cases hzero : start * 2 ^ i % sizeMax = 0
      · exact ⟨0, by rw [if_pos hzero, Nat.pow_zero, Nat.mul_one, Nat.mod_eq_of_lt hstart]⟩
      · exact ⟨i + 1, by rw [if_neg hzero, Nat.mod_mul_mod, Nat.mul_assoc, ← Nat.pow_succ]⟩

theorem allocPosLoop_iff_ends (hstart : start < sizeMax) (p : Nat) :
    allocPosLoop start needed 66 (start * 2 ^ p % sizeMax) = some n ↔
      Loop.Ends (· < needed) (doubleOrStart start) (start * 2 ^ p % sizeMax) n := by
  rw [allocPosLoop_eq_run]
  refine Loop.run_eq_some_iff _ (fun j => ?_) ((card_doubles start).trans (Nat.le_succ 65))
  obtain ⟨i, hi⟩ := iterate_doubleOrStart hstart p j
  rw [hi]
  exact doubles_mem start i

theorem allocPosLoop_le {fuel : Nat} (h : allocPosLoop start needed fuel c = some n) :
    needed ≤ n := by
  rw [allocPosLoop_eq_run] at h
  exact Nat.le_of_not_lt (Loop.ends_of_run h).not_cond

/-- From the start capacity on, the loop ends as soon as it meets a word that is large enough. -/
theorem ends_of_doubles {i j : Nat} (hij : i ≤ j) (h : needed ≤ start * 2 ^ j % sizeMax) :
    ∃ n, Loop.Ends (· < needed) (doubleOrStart start) (start * 2 ^ i % sizeMax) n := by
  induction hd : j - i generalizing i with
  | zero =>
      obtain rfl : i = j := by omega
      exact ⟨_, .done (Nat.not_lt.2 h)⟩
  | succ d ih =>
      by_cases hlt : start * 2 ^ i % sizeMax < needed
      · have hne : start * 2 ^ i % sizeMax ≠ 0 := by
          intro hzero
          have hdvd : sizeMax ∣ start * 2 ^ j :=
            (Nat.dvd_of_mod_eq_zero hzero).trans
              (Nat.mul_dvd_mul_left start (Nat.pow_dvd_pow 2 hij))
          rw [Nat.mod_eq_zero_of_dvd hdvd] at h
          omega
        obtain ⟨n, hn⟩ := ih (i := i + 1) (by omega) (by omega)
        refine ⟨n, .next hlt ?_⟩
        rw [doubleOrStart, if_neg hne, Nat.mod_mul_mod, Nat.mul_assoc, ← Nat.pow_succ]
        exact hn
      · exact ⟨_, .done hlt⟩

theorem allocPosLoop_isSome_iff (hstart : start < sizeMax) (p : Nat) :
    (∃ n, allocPosLoop start needed 66 (start * 2 ^ p % sizeMax) = some n) ↔
      Reaches start needed := by
  rw [reaches_iff]
  constructor
  · rintro ⟨n, h⟩
    have hle := allocPosLoop_le h
    obtain ⟨j, rfl, -⟩ := ((allocPosLoop_iff_ends hstart p).1 h).exists_iterate
    obtain ⟨i, hi⟩ := iterate_doubleOrStart hstart p j
    exact ⟨i, hi ▸ hle⟩
  · rintro ⟨j, h⟩
    simp only [allocPosLoop_iff_ends hstart]
    -- the rounds until the last bit is shifted out
    induction hd : 64 - p generalizing p with
    | zero =>
        rw [shift_out start (by omega)]
        by_cases hlt : 0 < needed
        · obtain ⟨n, hn⟩ := ends_of_doubles (Nat.zero_le j) h
          rw [Nat.pow_zero, Nat.mul_one, Nat.mod_eq_of_lt hstart] at hn
          exact ⟨n, .next hlt hn⟩
        · exact ⟨0, .done hlt⟩
    | succ d ih =>
        by_cases hlt : start * 2 ^ p % sizeMax < needed
        · by_cases hzero : start * 2 ^ p % sizeMax = 0
          · obtain ⟨n, hn⟩ := ends_of_doubles (Nat.zero_le j) h
            rw [Nat.pow_zero, Nat.mul_one, Nat.mod_eq_of_lt hstart] at hn
            refine ⟨n, .next hlt ?_⟩
            rw [doubleOrStart, if_pos hzero]
            exact hn
          · obtain ⟨n, hn⟩ := ih (p + 1) (by omega)
            refine ⟨n, .next hlt ?_⟩
            rw [doubleOrStart, if_neg hzero, Nat.mod_mul_mod, Nat.mul_assoc, ← Nat.pow_succ]
            exact hn
        · exact ⟨_, .done hlt⟩

/-! ## The requests of the buffers -/

/-- The capacity that `ibuf_reserve_slow` asks `slab_get` for; the inner `none` says that it
does not call `slab_get`, and the outer one that its loop does not end. -/
def Ibuf.slowRequest (b : Ibuf) (size : Nat) : Option (Option Nat) :=
  if (size + (b.wpos - b.rpos)) % sizeMax ≤ ibufCapacity b then some none
  else (b.newCapacity (((b.wpos - b.rpos) + size) % sizeMax)).map some

/-- `ibuf_reserve_slow` behind its assertions: it makes this request. -/
theorem ibufReserveSlow_eq {b : Ibuf} (hend : (b.wpos + size) % sizeMax > b.bufEnd)
    (hused : b.wpos ≥ b.rpos) (answer : Option Nat) :
    ibufReserveSlow g b size answer = (b.slowRequest size).map fun request =>
      request.elim (some (b.buf + (b.wpos - b.rpos)), b.defragment (b.wpos - b.rpos)) fun n =>
        answer.elim (none, b) fun addr =>
          (some (b.moveTo addr (g.slabRealSize n) (b.wpos - b.rpos)).wpos,
            b.moveTo addr (g.slabRealSize n) (b.wpos - b.rpos)) := by
  unfold ibufReserveSlow ibufUsed Ibuf.slowRequest
  simp only [guard, if_pos hend, if_pos hused, pure, Option.bind_eq_bind, Option.bind_some]
  by_cases hroom : (size + (b.wpos - b.rpos)) % sizeMax ≤ ibufCapacity b
  · rw [if_pos hroom, if_pos hroom]
    rfl
  · rw [if_neg hroom, if_neg hroom]
    cases b.newCapacity (((b.wpos - b.rpos) + size) % sizeMax) with
    | none => rfl
    | some n => cases answer <;> rfl

/-- The same for `obuf_alloc_pos`. -/
def Obuf.posRequest (b : Obuf) (size : Nat) : Option (Option Nat) := (b.posCapacity size).map some

/-- The same for `obuf_reserve_slow`. -/
def Obuf.slowRequest (b : Obuf) (size : Nat) : Option (Option Nat) :=
  (b.nextIfUsed (b.vec b.pos)).elim (some none) fun b =>
    if size > (b.vec b.pos).capacity then
      if (b.vec b.pos).capacity > 0 then
        (growLoop size 65 (b.vec b.pos).capacity).map some else b.posRequest size
    else some none

section Requests

variable {slabGet slabGet' : Nat → Option Nat} {b : Obuf}

/-- `obuf_alloc_pos` calls `slab_get` with its request only. -/
theorem obufAllocPos_congr (h : ∀ n, b.posRequest size = some (some n) → slabGet n = slabGet' n) :
    obufAllocPos g slabGet b size = obufAllocPos g slabGet' b size := by
  have hset : ∀ v, (b.set (b.pos + 1) v).posCapacity size = b.posCapacity size := fun _ => rfl
  unfold obufAllocPos
  simp only [hset]
  cases hn : b.posCapacity size with
  | none => rfl
  | some n =>
      have hsame := h n (by rw [Obuf.posRequest, hn]; rfl)
      simp only [Option.bind_eq_bind, Option.bind_some, hsame]

theorem obufAllocPos_of_none (h : b.posRequest size = none) :
    obufAllocPos g slabGet b size = none := by
  have hset : ∀ v, (b.set (b.pos + 1) v).posCapacity size = b.posCapacity size := fun _ => rfl
  have hn : b.posCapacity size = none := Option.map_eq_none_iff.1 h
  unfold obufAllocPos
  simp [hset, hn]

/-- `obuf_reserve_slow` calls `slab_get` with its request only. -/
theorem obufReserveSlow_congr
    (h : ∀ n, b.slowRequest size = some (some n) → slabGet n = slabGet' n) :
    obufReserveSlow g slabGet b size = obufReserveSlow g slabGet' b size := by
  unfold Obuf.slowRequest at h
  unfold obufReserveSlow Obuf.at
  by_cases hat : b.pos < smallObufIovMax + 1
  · rw [if_pos hat]
    simp only [Option.bind_eq_bind, Option.bind_some]
    cases hnext : b.nextIfUsed (b.vec b.pos) with
    | none => rfl
    | some b₁ =>
        simp only [hnext, Option.elim_some] at h
        have hhere : obufReserveHere g slabGet b₁ (b₁.vec b₁.pos) size =
            obufReserveHere g slabGet' b₁ (b₁.vec b₁.pos) size := by
          unfold obufReserveHere
          by_cases hmore : size > (b₁.vec b₁.pos).capacity
          · by_cases hcap : (b₁.vec b₁.pos).capacity > 0
            · simp only [if_pos hmore, if_pos hcap] at h ⊢
              cases hn : growLoop size 65 (b₁.vec b₁.pos).capacity with
              | none => rfl
              | some n => simp only [Option.bind_eq_bind, Option.bind_some, h n (by rw [hn]; rfl)]
            · simp only [if_pos hmore, if_neg hcap] at h ⊢
              exact obufAllocPos_congr h
          · rw [if_neg hmore, if_neg hmore]
        by_cases hat₁ : b₁.pos < smallObufIovMax + 1
        · simp only [if_pos hat₁, Option.bind_some, hhere]
        · simp only [if_neg hat₁, Option.bind_none]
  · rw [if_neg hat]
    rfl

theorem obufReserveSlow_of_none (h : b.slowRequest size = none) :
    obufReserveSlow g slabGet b size = none := by
  unfold Obuf.slowRequest at h
  unfold obufReserveSlow Obuf.at
  by_cases hat : b.pos < smallObufIovMax + 1
  · rw [if_pos hat]
    simp only [Option.bind_eq_bind, Option.bind_some]
    cases hnext : b.nextIfUsed (b.vec b.pos) with
    | none => rw [hnext] at h; cases h
    | some b₁ =>
        simp only [hnext, Option.elim_some] at h
        have hhere : obufReserveHere g slabGet b₁ (b₁.vec b₁.pos) size = none := by
          unfold obufReserveHere
          by_cases hmore : size > (b₁.vec b₁.pos).capacity
          · by_cases hcap : (b₁.vec b₁.pos).capacity > 0
            · simp only [if_pos hmore, if_pos hcap, Option.map_eq_none_iff] at h ⊢
              rw [h]
              rfl
            · simp only [if_pos hmore, if_neg hcap] at h ⊢
              exact obufAllocPos_of_none h
          · rw [if_neg hmore] at h
            cases h
        simp [hhere]
  · rw [if_neg hat]
    rfl

end Requests

/-! ## Enough -/

/-- The loop before the request ends, and the request, if there is one, is for `needed` bytes at
least. -/
def Enough (needed : Nat) (request : Option (Option Nat)) : Prop :=
  ∃ r, request = some r ∧ ∀ n, r = some n → needed ≤ n

theorem enough_none (needed : Nat) : Enough needed (some none) :=
  ⟨none, rfl, fun n hn => by cases hn⟩

theorem enough_map_iff {o : Option Nat} (h : ∀ n, o = some n → needed ≤ n) :
    Enough needed (o.map some) ↔ ∃ n, o = some n := by
  constructor
  · rintro ⟨r, hr, -⟩
    obtain ⟨n, hn, -⟩ := Option.map_eq_some_iff.1 hr
    exact ⟨n, hn⟩
  · rintro ⟨n, hn⟩
    refine ⟨some n, by rw [hn]; rfl, fun m hm => ?_⟩
    cases hm
    exact h n hn

theorem posRequest_enough_iff {b : Obuf} (hstart : b.startCapacity < sizeMax) :
    Enough size (b.posRequest size) ↔ Reaches b.startCapacity size := by
  have hle : ∀ n, b.posCapacity size = some n → size ≤ n := fun n hn => allocPosLoop_le hn
  unfold Obuf.posRequest
  rw [enough_map_iff hle, ← allocPosLoop_isSome_iff hstart b.pos, Obuf.posCapacity,
    Nat.shiftLeft_eq]

/-- The capacity from which the loop of `obuf_reserve_slow` starts in the entry `v`. -/
def Obuf.slowStart (b : Obuf) (v : ObufVec) : Nat :=
  if v.capacity = 0 then b.startCapacity else v.capacity

theorem Obuf.nextIfUsed_same {b b₁ : Obuf} {v : ObufVec} (hnext : b.nextIfUsed v = some b₁) :
    b₁.startCapacity = b.startCapacity ∧ b₁.vec = b.vec := by
  unfold Obuf.nextIfUsed at hnext
  split at hnext
  · split at hnext
    · cases hnext
    · cases hnext
      exact ⟨rfl, rfl⟩
  · cases hnext
    exact ⟨rfl, rfl⟩

theorem slowRequest_enough_iff {b : Obuf} (hstart : b.startCapacity < sizeMax)
    (hcap : ∀ i, (b.vec i).capacity < sizeMax) :
    Enough size (b.slowRequest size) ↔
      ∀ b₁, b.nextIfUsed (b.vec b.pos) = some b₁ → Reaches (b₁.slowStart (b₁.vec b₁.pos)) size := by
  unfold Obuf.slowRequest
  cases hnext : b.nextIfUsed (b.vec b.pos) with
  | none => exact ⟨fun _ b₁ h => (by cases h), fun _ => enough_none size⟩
  | some b₁ =>
      have hsame := Obuf.nextIfUsed_same hnext
      have hlt : (b₁.vec b₁.pos).capacity < sizeMax := by
        rw [hsame.2]
        exact hcap _
      simp only [Option.elim_some, Option.some.injEq, forall_eq']
      unfold Obuf.slowStart
      by_cases hmore : size > (b₁.vec b₁.pos).capacity
      · by_cases hpos : (b₁.vec b₁.pos).capacity > 0
        · rw [if_pos hmore, if_pos hpos, if_neg (by omega), enough_map_iff fun n hn =>
            growLoop_le hn, growLoop_isSome_iff hlt]
        · rw [if_pos hmore, if_neg hpos, if_pos (by omega),
            posRequest_enough_iff (hsame.1 ▸ hstart)]
      · have hle : size ≤ (b₁.vec b₁.pos).capacity := Nat.le_of_not_lt hmore
        rw [if_neg hmore]
        refine ⟨fun _ => ⟨0, by decide, ?_⟩, fun _ => enough_none size⟩
        rw [Nat.pow_zero, Nat.mul_one]
        split
        · omega
        · rw [Nat.mod_eq_of_lt hlt]
          exact hle

/-- The capacity from which the loop of `ibuf_reserve_slow` starts. -/
def Ibuf.slowStart (b : Ibuf) : Nat := max (ibufCapacity b * 2 % sizeMax) b.startCapacity

theorem ibuf_slowRequest_enough_iff {b : Ibuf} (hstart : b.startCapacity < sizeMax) :
    Enough (b.wpos - b.rpos + size) (b.slowRequest size) ↔
      (size + (b.wpos - b.rpos)) % sizeMax ≤ ibufCapacity b ∨
      b.wpos - b.rpos + size < sizeMax ∧ Reaches b.slowStart (b.wpos - b.rpos + size) := by
  set used := b.wpos - b.rpos with hused
  have hlt : b.slowStart < sizeMax := Nat.max_lt.2 ⟨Nat.mod_lt _ (by decide), hstart⟩
  have hnew : ∀ needed, b.newCapacity needed = growLoop needed 65 b.slowStart := by
    intro needed
    unfold Ibuf.newCapacity Ibuf.slowStart
    simp only
    split
    · rw [Nat.max_eq_right (by omega)]
    · rw [Nat.max_eq_left (by omega)]
  unfold Ibuf.slowRequest
  rw [← hused, hnew]
  by_cases hroom : (size + used) % sizeMax ≤ ibufCapacity b
  · rw [if_pos hroom]
    exact ⟨fun _ => Or.inl hroom, fun _ => enough_none _⟩
  · rw [if_neg hroom]
    by_cases hwrap : used + size < sizeMax
    · rw [Nat.mod_eq_of_lt hwrap, enough_map_iff fun n hn => growLoop_le hn,
        growLoop_isSome_iff hlt]
      exact ⟨fun h => Or.inr ⟨hwrap, h⟩, fun h => (h.resolve_left hroom).2⟩
    · -- the capacity is a word, and what is needed is not
      refine ⟨fun h => ?_, fun h => absurd (h.resolve_left hroom).1 hwrap⟩
      obtain ⟨r, hr, hle⟩ := h
      obtain ⟨n, hn, rfl⟩ := Option.map_eq_some_iff.1 hr
      have hn' : n < sizeMax :=
        ((growLoop_iff_ends hlt).1 hn).invariant (P := (· < sizeMax))
          (fun _ _ _ => Nat.mod_lt _ (by decide)) hlt
      have := hle n rfl
      omega

/-- **The loops of the buffers end, and ask for enough**, if and only if doubling the capacity
that they start from reaches what is needed. This is so in every state, whether a run reaches it
or not. -/
theorem growth_enough_iff {startCapacity : Nat} (hstart : startCapacity < sizeMax) :
    (∀ b : Ibuf, b.startCapacity = startCapacity → ∀ size,
      Enough (b.wpos - b.rpos + size) (b.slowRequest size) ↔
        (size + (b.wpos - b.rpos)) % sizeMax ≤ ibufCapacity b ∨
        b.wpos - b.rpos + size < sizeMax ∧ Reaches b.slowStart (b.wpos - b.rpos + size)) ∧
    (∀ b : Obuf, b.startCapacity = startCapacity → ∀ size,
      Enough size (b.posRequest size) ↔ Reaches startCapacity size) ∧
    ∀ b : Obuf, b.startCapacity = startCapacity → (∀ i, (b.vec i).capacity < sizeMax) → ∀ size,
      Enough size (b.slowRequest size) ↔
        ∀ b₁, b.nextIfUsed (b.vec b.pos) = some b₁ →
        Reaches (b₁.slowStart (b₁.vec b₁.pos)) size := by
  refine ⟨?_, ?_, ?_⟩
  · rintro b rfl size
    exact ibuf_slowRequest_enough_iff hstart
  · rintro b rfl size
    exact posRequest_enough_iff hstart
  · rintro b rfl hcap size
    exact slowRequest_enough_iff hstart hcap

/-- The first block of a buffer that starts with 16 bytes: three doublings are enough for 100. -/
theorem growth_enough_sixteen :
    Reaches 16 100 ∧
      Enough 100 ((obufCreate (fun _ => zeroVec) (fun _ => 0) 16).posRequest 100) := by
  have hreaches : Reaches 16 100 := ⟨3, by decide, by decide⟩
  exact ⟨hreaches, ((growth_enough_iff (by decide : 16 < sizeMax)).2.1 _ rfl 100).2 hreaches⟩

/-- From a start capacity of 1, the loops of new buffers do not end for 2^63 + 1 bytes. -/
theorem growth_never_ends :
    ((ibufMachine fourPages).Reachable { ibuf := ibufCreate (fun _ => 0) 1, queue := [] } ∧
      ¬ Enough (2 ^ 63 + 1) ((ibufCreate (fun _ => 0) 1).slowRequest (2 ^ 63 + 1))) ∧
    (obufMachine fourPages 1).Reachable
    { obuf := obufCreate (fun _ => zeroVec) (fun _ => 0) 1, content := [], svps := [] } ∧
      ¬ Enough (2 ^ 63 + 1)
        ((obufCreate (fun _ => zeroVec) (fun _ => 0) 1).posRequest (2 ^ 63 + 1)) ∧
      ¬ Enough (2 ^ 63 + 1)
        ((obufCreate (fun _ => zeroVec) (fun _ => 0) 1).slowRequest (2 ^ 63 + 1)) := by
  have hnot : ∀ request, request = none → ¬ Enough (2 ^ 63 + 1) request := by
    rintro request rfl ⟨r, hr, -⟩
    cases hr
  exact ⟨⟨.init ⟨_, 1, Nat.le_refl 1, rfl⟩, hnot _ (by decide)⟩, .init ⟨_, _, rfl⟩,
    hnot _ (by decide), hnot _ (by decide)⟩

/-- No request of up to 2^63 bytes loops for ever. -/
theorem growth_enough_of_le :
    (∀ b : Ibuf, 1 ≤ b.startCapacity → b.startCapacity < sizeMax →
        ∀ size, b.wpos - b.rpos + size ≤ 2 ^ 63 →
      Enough (b.wpos - b.rpos + size) (b.slowRequest size)) ∧
    ∀ b : Obuf, 1 ≤ b.startCapacity → b.startCapacity < sizeMax →
    (∀ i, (b.vec i).capacity < sizeMax) →
      ∀ size ≤ 2 ^ 63, Enough size (b.posRequest size) ∧ Enough size (b.slowRequest size) := by
  have hword : 2 ^ 63 < sizeMax := by decide
  constructor
  · intro b h1 hstart size hsize
    have hpos : 1 ≤ b.slowStart := h1.trans (Nat.le_max_right _ _)
    have hlt : b.slowStart < sizeMax := Nat.max_lt.2 ⟨Nat.mod_lt _ (by decide), hstart⟩
    exact (ibuf_slowRequest_enough_iff hstart).2 (Or.inr ⟨by omega, reaches_of_le hpos hlt hsize⟩)
  · intro b h1 hstart hcap size hsize
    refine ⟨(posRequest_enough_iff hstart).2 (reaches_of_le h1 hstart hsize), ?_⟩
    rw [slowRequest_enough_iff hstart hcap]
    intro b₁ hnext
    obtain ⟨hstart₁, hvec₁⟩ := Obuf.nextIfUsed_same hnext
    have hcap₁ := hcap b₁.pos
    unfold Obuf.slowStart
    rw [hstart₁, hvec₁]
    split
    · exact reaches_of_le h1 hstart hsize
    · exact reaches_of_le (by omega) hcap₁ hsize

end SmallAllocators
