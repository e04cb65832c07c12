/-
SmallAllocators.Matras.Address — shifts, masks and the positions of blocks.

A block's number is split into three parts. `MatrasConfig.Ok` has what
`matras_create` establishes when its shifts are defined; everything about
addresses follows from it.
-/
import Mathlib.Data.Nat.Bitwise
import SmallAllocators.Matras.Model

namespace SmallAllocators

/-- The relations between sizes, shifts and masks. -/
structure MatrasConfig.Ok (c : MatrasConfig) : Prop where
  shift1_lt : c.shift1 < 32
  shift2_lt : c.shift2 < c.shift1
  mask1 : c.mask1 = 2 ^ c.shift1 - 1
  mask2 : c.mask2 = 2 ^ c.shift2 - 1
  ptrs : c.extentSize = ptrSize * 2 ^ (c.shift1 - c.shift2)
  blocks : c.extentSize = 2 ^ c.shift2 * c.blockSize
  blockSize_pos : 0 < c.blockSize
  capacity : c.capacity = 2 ^ min (2 * (c.shift1 - c.shift2) + c.shift2) 32

namespace MatrasConfig

/-- The number of blocks in an extent. -/
def perExtent (c : MatrasConfig) : Nat := 2 ^ c.shift2

/-- The number of pointers in an extent. -/
def fanout (c : MatrasConfig) : Nat := 2 ^ (c.shift1 - c.shift2)

/-- The extent of the third level that a block lies in. -/
def extentOf (c : MatrasConfig) (id : Nat) : Nat := id / c.perExtent

variable {c : MatrasConfig}

theorem perExtent_pos (c : MatrasConfig) : 0 < c.perExtent := Nat.two_pow_pos _

theorem fanout_pos (c : MatrasConfig) : 0 < c.fanout := Nat.two_pow_pos _

namespace Ok

theorem two_pow_shift1 (hc : c.Ok) : 2 ^ c.shift1 = c.perExtent * c.fanout := by
  have hlt := hc.shift2_lt
  rw [perExtent, fanout, ← Nat.pow_add, show c.shift2 + (c.shift1 - c.shift2) = c.shift1 by omega]

theorem step1 (hc : c.Ok) : c.mask1 + 1 = c.perExtent * c.fanout := by
  rw [hc.mask1, Nat.sub_add_cancel (Nat.two_pow_pos _), hc.two_pow_shift1]

theorem step2 (hc : c.Ok) : c.mask2 + 1 = c.perExtent := by
  rw [hc.mask2, Nat.sub_add_cancel (Nat.two_pow_pos _), perExtent]

theorem ptrsInExt (hc : c.Ok) : c.ptrsInExt = c.fanout := by
  rw [MatrasConfig.ptrsInExt, hc.ptrs, Nat.mul_div_cancel_left _ (by decide), fanout]

theorem and_mask1 (hc : c.Ok) (id : Nat) : id &&& c.mask1 = id % (c.perExtent * c.fanout) := by
  rw [hc.mask1, Nat.and_two_pow_sub_one_eq_mod, hc.two_pow_shift1]

theorem and_mask2 (hc : c.Ok) (id : Nat) : id &&& c.mask2 = id % c.perExtent := by
  rw [hc.mask2, Nat.and_two_pow_sub_one_eq_mod, perExtent]

theorem n1_eq (hc : c.Ok) (id : Nat) : c.n1 id = c.extentOf id / c.fanout := by
  rw [n1, Nat.shiftRight_eq_div_pow, hc.two_pow_shift1, extentOf, Nat.div_div_eq_div_mul]

theorem n2_eq (hc : c.Ok) (id : Nat) : c.n2 id = c.extentOf id % c.fanout := by
  rw [n2, hc.and_mask1, Nat.shiftRight_eq_div_pow, ← perExtent, Nat.mod_mul_right_div_self,
    extentOf]

theorem n3_eq (hc : c.Ok) (id : Nat) : c.n3 id = id % c.perExtent := by
  rw [n3, hc.and_mask2]

theorem and_masks (hc : c.Ok) (id : Nat) : id &&& c.mask1 &&& c.mask2 = id % c.perExtent := by
  rw [hc.and_mask1, hc.and_mask2, Nat.mod_mod_of_dvd _ (Dvd.intro _ rfl)]

theorem capacity_le (hc : c.Ok) : c.capacity ≤ c.perExtent * c.fanout * c.fanout := by
  rw [hc.capacity, perExtent, fanout, ← Nat.pow_add, ← Nat.pow_add]
  exact Nat.pow_le_pow_right (by decide) (by omega)

theorem capacity_le_two_pow (hc : c.Ok) : c.capacity ≤ 2 ^ 32 := by
  rw [hc.capacity]
  exact Nat.pow_le_pow_right (by decide) (Nat.min_le_right _ _)

/-- A block lies in its extent. -/
theorem n3_bound (hc : c.Ok) (id : Nat) : c.n3 id * c.blockSize + c.blockSize ≤ c.extentSize := by
  have hlt := Nat.mod_lt id c.perExtent_pos
  have hmul := Nat.mul_le_mul_right c.blockSize (Nat.succ_le_of_lt hlt)
  rw [Nat.succ_mul] at hmul
  rw [hc.n3_eq, hc.blocks]
  exact hmul

/-- The three parts tell the number. -/
theorem parts (hc : c.Ok) (id : Nat) :
    (c.n1 id * c.fanout + c.n2 id) * c.perExtent + c.n3 id = id := by
  rw [hc.n1_eq, hc.n2_eq, hc.n3_eq, Nat.mul_comm (_ / _), Nat.div_add_mod, extentOf, Nat.mul_comm]
  exact Nat.div_add_mod id c.perExtent

theorem n1_lt (hc : c.Ok) {id : Nat} (hid : id < c.capacity) : c.n1 id < c.fanout := by
  have hlt := Nat.lt_of_lt_of_le hid hc.capacity_le
  rw [hc.n1_eq, extentOf]
  refine (Nat.div_lt_iff_lt_mul c.fanout_pos).2 ((Nat.div_lt_iff_lt_mul c.perExtent_pos).2 ?_)
  rwa [Nat.mul_comm, ← Nat.mul_assoc]

theorem n2_lt (hc : c.Ok) (id : Nat) : c.n2 id < c.fanout := by
  rw [hc.n2_eq]
  exact Nat.mod_lt _ c.fanout_pos

/-- The next block comes next, in the order of the three parts. -/
theorem next (hc : c.Ok) (id : Nat) :
    c.n1 id < c.n1 (id + 1) ∨ c.n1 id = c.n1 (id + 1) ∧
      (c.n2 id < c.n2 (id + 1) ∨ c.n2 id = c.n2 (id + 1) ∧ c.n3 id < c.n3 (id + 1)) := by
  have hone : c.n1 id ≤ c.n1 (id + 1) := by
    rw [hc.n1_eq, hc.n1_eq, extentOf, extentOf]
    exact Nat.div_le_div_right (Nat.div_le_div_right (Nat.le_succ id))
  rcases Nat.lt_or_eq_of_le hone with hlt | heq
  · exact Or.inl hlt
  · refine Or.inr ⟨heq, ?_⟩
    have hparts := hc.parts id
    have hparts' := hc.parts (id + 1)
    have hle : c.extentOf id ≤ c.extentOf (id + 1) := Nat.div_le_div_right (Nat.le_succ id)
    have hdiv := Nat.div_add_mod (c.extentOf id) c.fanout
    have hdiv' := Nat.div_add_mod (c.extentOf (id + 1)) c.fanout
    rw [← hc.n1_eq, ← hc.n2_eq] at hdiv hdiv'
    rw [heq] at hdiv hparts
    have htwo : c.n2 id ≤ c.n2 (id + 1) := by omega
    rcases Nat.lt_or_eq_of_le htwo with hlt | heq2
    · exact Or.inl hlt
    · refine Or.inr ⟨heq2, ?_⟩
      rw [heq2] at hparts
      omega

end Ok

/-- Address translation is well defined. -/
structure Translates (c : MatrasConfig) : Prop where
  shift1 : c.shift1 < 32
  shift2 : c.shift2 < 32
  bounds : ∀ id < c.capacity, c.n1 id < c.extentSize / ptrSize ∧ c.n2 id < c.extentSize / ptrSize ∧
    c.n3 id * c.blockSize + c.blockSize ≤ c.extentSize
  distinct : ∀ id < c.capacity, ∀ id' < c.capacity, c.n1 id = c.n1 id' → c.n2 id = c.n2 id' →
    c.n3 id = c.n3 id' → id = id'
  order : ∀ id, id + 1 < c.capacity → c.n1 id < c.n1 (id + 1) ∨ c.n1 id = c.n1 (id + 1) ∧
    (c.n2 id < c.n2 (id + 1) ∨ c.n2 id = c.n2 (id + 1) ∧ c.n3 id < c.n3 (id + 1))
  capacity : c.capacity = min (2 ^ 32) ((c.extentSize / ptrSize) ^ 2 * (c.extentSize / c.blockSize))

theorem Ok.translates (hc : c.Ok) : c.Translates := by
  have hptrs : c.extentSize / ptrSize = c.fanout := hc.ptrsInExt
  have hblocks : c.extentSize / c.blockSize = c.perExtent := by
    rw [hc.blocks, Nat.mul_div_cancel _ hc.blockSize_pos, perExtent]
  constructor
  case shift1 => exact hc.shift1_lt
  case shift2 => exact Nat.lt_trans hc.shift2_lt hc.shift1_lt
  case bounds =>
    intro id hid
    rw [hptrs]
    exact ⟨hc.n1_lt hid, hc.n2_lt id, hc.n3_bound id⟩
  case distinct =>
    intro id _ id' _ h1 h2 h3
    rw [← hc.parts id, ← hc.parts id', h1, h2, h3]
  case order => exact fun id _ => hc.next id
  case capacity =>
    rw [hptrs, hblocks, hc.capacity, fanout, perExtent, ← Nat.pow_mul, ← Nat.pow_add,
      Nat.mul_comm _ 2]
    rcases Nat.le_total (2 * (c.shift1 - c.shift2) + c.shift2) 32 with h | h
    · rw [Nat.min_eq_left h, Nat.min_eq_right (Nat.pow_le_pow_right (by decide) h)]
    · rw [Nat.min_eq_right h, Nat.min_eq_left (Nat.pow_le_pow_right (by decide) h)]

end MatrasConfig

/-! ## `matras_create` -/

theorem matrasLog2_two_pow {k : Nat} (hk : k < 32) : matrasLog2 (2 ^ k) = some k := by
  have hlt : 2 ^ k < 2 ^ 32 := Nat.pow_lt_pow_right (by decide) hk
  have hpos : 0 < 2 ^ k := Nat.two_pow_pos k
  simp only [matrasLog2, Nat.mod_eq_of_lt hlt, guard, hpos, if_true, Option.pure_def,
    Option.bind_eq_bind, Option.bind_some, Nat.log2_two_pow]

theorem matrasLog2_large {k : Nat} (hk : 32 ≤ k) : matrasLog2 (2 ^ k) = none := by
  have hmod : 2 ^ k % 2 ^ 32 = 0 := Nat.mod_eq_zero_of_dvd (Nat.pow_dvd_pow 2 hk)
  simp only [matrasLog2, hmod, guard, Nat.lt_irrefl, if_false, Option.bind_eq_bind]
  rfl

/-- The sizes with the exponents `a` and `b`. -/
theorem matrasConfig_two_pow {a b : Nat} (ha : 3 < a) (hb : b ≤ a) (hb32 : b < 32) :
    (a < 32 ∧ 2 * a - b - 3 < 32 → ∃ c, matrasConfig (2 ^ b) (2 ^ a) = some c ∧ c.Ok ∧
        c.capacity = 2 ^ min (3 * a - b - 6) 32) ∧
    (¬ (a < 32 ∧ 2 * a - b - 3 < 32) → matrasConfig (2 ^ b) (2 ^ a) = none) := by
  have handa : 2 ^ a &&& (2 ^ a - 1) = 0 := by rw [Nat.and_two_pow_sub_one_eq_mod, Nat.mod_self]
  have handb : 2 ^ b &&& (2 ^ b - 1) = 0 := by rw [Nat.and_two_pow_sub_one_eq_mod, Nat.mod_self]
  have hle : 2 ^ b ≤ 2 ^ a := Nat.pow_le_pow_right (by decide) hb
  have hgt : 2 ^ a > ptrSize :=
    Nat.lt_of_lt_of_le (by decide : ptrSize < 2 ^ 4) (Nat.pow_le_pow_right (by decide) ha)
  have h3 : matrasLog2 ptrSize = some 3 := rfl
  by_cases ha32 : a < 32
  · refine ⟨fun hcond => ?_, fun hcond => ?_⟩
    · have h1 : oneShiftLeft (a * 2 - b - 3) = some (2 ^ (a * 2 - b - 3)) := by
        simp [oneShiftLeft, guard, show a * 2 - b - 3 < 32 by omega, Nat.one_shiftLeft]
      have h2 : oneShiftLeft (a - b) = some (2 ^ (a - b)) := by
        simp [oneShiftLeft, guard, show a - b < 32 by omega, Nat.one_shiftLeft]
      have heq : matrasConfig (2 ^ b) (2 ^ a) = some
          { blockSize := 2 ^ b
            extentSize := 2 ^ a
            capacity := 1 <<< min (a * 3 - b - 3 * 2) 32
            shift1 := a * 2 - b - 3
            shift2 := a - b
            mask1 := 2 ^ (a * 2 - b - 3) - 1
            mask2 := 2 ^ (a - b) - 1 } := by
        simp only [matrasConfig, guard, handa, handb, hle, hgt, if_true, matrasLog2_two_pow ha32,
          matrasLog2_two_pow hb32, h3,
          h1, h2, Option.pure_def, Option.bind_eq_bind, Option.bind_some]
      refine ⟨_, heq, ?_, by rw [Nat.one_shiftLeft, Nat.mul_comm a 3]⟩
      constructor
      case shift1_lt => show a * 2 - b - 3 < 32; omega
      case shift2_lt => show a - b < a * 2 - b - 3; omega
      case mask1 => rfl
      case mask2 => rfl
      case ptrs =>
        show 2 ^ a = 2 ^ 3 * 2 ^ (a * 2 - b - 3 - (a - b))
        rw [← Nat.pow_add, show 3 + (a * 2 - b - 3 - (a - b)) = a by omega]
      case blocks =>
        show 2 ^ a = 2 ^ (a - b) * 2 ^ b
        rw [← Nat.pow_add, show a - b + b = a by omega]
      case blockSize_pos => exact Nat.two_pow_pos b
      case capacity =>
        show 1 <<< min (a * 3 - b - 3 * 2) 32 = 2 ^ min (2 * (a * 2 - b - 3 - (a - b)) + (a - b)) 32
        rw [Nat.one_shiftLeft,
          show a * 3 - b - 3 * 2 = 2 * (a * 2 - b - 3 - (a - b)) + (a - b) by omega]
    · have h1 : oneShiftLeft (a * 2 - b - 3) = none := by
        simp [oneShiftLeft, guard, show ¬ a * 2 - b - 3 < 32 by omega]
      simp only [matrasConfig, guard, handa, handb, hle, hgt, if_true, matrasLog2_two_pow ha32,
        matrasLog2_two_pow hb32, h3, h1,
        Option.pure_def, Option.bind_eq_bind, Option.bind_some, Option.bind_none]
  · refine ⟨fun hcond => absurd hcond.1 ha32, fun _ => ?_⟩
    simp only [matrasConfig, guard, handa, handb, hle, hgt, if_true,
      matrasLog2_large (Nat.le_of_not_lt ha32),
      Option.pure_def, Option.bind_eq_bind, Option.bind_some, Option.bind_none]

/-- What `matras_create` accepts. -/
theorem matrasConfig_spec {blockSize extentSize : Nat} {c : MatrasConfig}
    (h : matrasConfig blockSize extentSize = some c) :
    c.Ok ∧ (3 * extentSize.log2 - blockSize.log2 - 6 < 32 → c.capacity < 2 ^ 32) := by
  have hguards : (extentSize &&& (extentSize - 1)) = 0 ∧ (blockSize &&& (blockSize - 1)) = 0 ∧
      blockSize ≤ extentSize ∧
      ptrSize < extentSize ∧ matrasLog2 blockSize ≠ none := by
    unfold matrasConfig at h
    simp only [guard, Option.pure_def, Option.bind_eq_bind, Option.bind_eq_some_iff] at h
    obtain ⟨_, h1, _, h2, _, h3, _, h4, _, _, k, h5, -⟩ := h
    refine ⟨?_, ?_, ?_, ?_, by rw [h5]; exact Option.some_ne_none k⟩
    · by_contra hne
      rw [if_neg hne] at h1
      cases h1
    · by_contra hne
      rw [if_neg hne] at h2
      cases h2
    · by_contra hne
      rw [if_neg hne] at h3
      cases h3
    · by_contra hne
      rw [if_neg hne] at h4
      cases h4
  obtain ⟨he, hb, hle, hptr, hlog⟩ := hguards
  have hb0 : blockSize ≠ 0 := by
    rintro rfl
    exact hlog rfl
  obtain ⟨a, rfl⟩ := (Nat.and_sub_one_eq_zero_iff_isPowerOfTwo
      (Nat.ne_of_gt (Nat.lt_of_le_of_lt (Nat.zero_le _) hptr))).1 he
  obtain ⟨b, rfl⟩ := (Nat.and_sub_one_eq_zero_iff_isPowerOfTwo hb0).1 hb
  have ha : 3 < a := (Nat.pow_lt_pow_iff_right (by decide : 1 < 2)).1 hptr
  have hba : b ≤ a := (Nat.pow_le_pow_iff_right (by decide : 1 < 2)).1 hle
  have hb32 : b < 32 := by
    by_contra hge
    exact hlog (matrasLog2_large (Nat.le_of_not_lt hge))
  obtain ⟨hsome, hnone⟩ := matrasConfig_two_pow ha hba hb32
  by_cases hcond : a < 32 ∧ 2 * a - b - 3 < 32
  · obtain ⟨c', hc', hok, hcap⟩ := hsome hcond
    rw [hc', Option.some.injEq] at h
    subst h
    refine ⟨hok, fun hsmall => ?_⟩
    rw [Nat.log2_two_pow, Nat.log2_two_pow] at hsmall
    rw [hcap]
    exact Nat.pow_lt_pow_right (by decide) (by omega)
  · rw [hnone hcond] at h
    cases h

/-- **Address translation is well defined** exactly for the sizes whose shifts are below 32. -/
theorem matras_addresses_defined {blockSize extentSize : Nat} (hb : blockSize.isPowerOfTwo)
    (he : extentSize.isPowerOfTwo) (hle : blockSize ≤ extentSize) (hptr : ptrSize < extentSize)
    (hb32 : blockSize < 2 ^ 32) :
    (∃ c, matrasConfig blockSize extentSize = some c ∧ c.Translates) ↔
      extentSize < 2 ^ 32 ∧ 2 * extentSize.log2 - blockSize.log2 - 3 < 32 := by
  obtain ⟨b, rfl⟩ := hb
  obtain ⟨a, rfl⟩ := he
  have ha : 3 < a := (Nat.pow_lt_pow_iff_right (by decide : 1 < 2)).1 hptr
  have hba : b ≤ a := (Nat.pow_le_pow_iff_right (by decide : 1 < 2)).1 hle
  have hb' : b < 32 := (Nat.pow_lt_pow_iff_right (by decide : 1 < 2)).1 hb32
  obtain ⟨hsome, hnone⟩ := matrasConfig_two_pow ha hba hb'
  rw [Nat.log2_two_pow, Nat.log2_two_pow, Nat.pow_lt_pow_iff_right (by decide : 1 < 2)]
  constructor
  · rintro ⟨c, hc, -⟩
    by_contra hcond
    rw [hnone hcond] at hc
    cases hc
  · intro hcond
    obtain ⟨c, hc, hok, -⟩ := hsome hcond
    exact ⟨c, hc, hok.translates⟩

/-- Extents of 16 kilobytes with blocks of 512 bytes. -/
theorem matras_addresses_defined_typical :
    (16384 < 2 ^ 32 ∧ 2 * Nat.log2 16384 - Nat.log2 512 - 3 < 32) ∧
    ∃ c, matrasConfig 512 16384 = some c ∧ c.Translates := by
  have hcond : 16384 < 2 ^ 32 ∧ 2 * Nat.log2 16384 - Nat.log2 512 - 3 < 32 := by decide
  exact ⟨hcond,
    (matras_addresses_defined ⟨9, rfl⟩ ⟨14, rfl⟩ (by decide) (by decide) (by decide)).2 hcond⟩

/-- Extents of 256 kilobytes with blocks of one byte: the first shift is 33, and `1 << 33` is
not defined. -/
theorem matras_shift_undefined :
    Nat.isPowerOfTwo 1 ∧ Nat.isPowerOfTwo 262144 ∧ 1 ≤ 262144 ∧ ptrSize < 262144 ∧
    ¬ ∃ c, matrasConfig 1 262144 = some c ∧ c.Translates := by
  refine ⟨⟨0, rfl⟩, ⟨18, rfl⟩, by decide, by decide, ?_⟩
  rintro ⟨c, hc, -⟩
  have hnone : matrasConfig 1 262144 = none := by decide
  rw [hnone] at hc
  cases hc

end SmallAllocators
