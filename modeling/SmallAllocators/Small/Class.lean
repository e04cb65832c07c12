/-
SmallAllocators.Small.Class — the size classes of `small/small_class.c` and
`include/small/small_class.h`.

The sizes of the classes grow by the granularity at first and then by
`2 ^ effectiveBits` steps for each power of two. The two functions of the
header are inverse to each other in the sense of `classOffset_le_iff`: the
class of a size is the least one whose size is not less.

Values are `unsigned`, so results are taken modulo `2 ^ 32`. The factor is
a floating point number in the source; here `effectiveBits` is a parameter.
-/
import Mathlib.Algebra.Order.Group.Nat
import Mathlib.Data.Nat.Bitwise
import Mathlib.Data.Nat.Log
import Mathlib.Tactic.Common
import Mathlib.Tactic.Ring
import SmallAllocators.Util

namespace SmallAllocators

/-- `struct small_class`. -/
structure SmallClass where
  granularity : Nat
  ignoreBitsCount : Nat
  effectiveBits : Nat
  effectiveSize : Nat
  effectiveMask : Nat
  sizeShift : Nat
  sizeShiftPlus1 : Nat
deriving DecidableEq

/-- `small_class_create`. -/
def smallClassCreate (granularity effectiveBits minAlloc : Nat) : Option SmallClass := do
  guard (0 < granularity)
  guard (granularity &&& (granularity - 1) = 0)
  guard (0 < minAlloc)
  let sizeShift := (minAlloc + 2 ^ 32 - granularity) % 2 ^ 32
  some
    { granularity := granularity
      -- `__builtin_ctz` of a power of two
      ignoreBitsCount := Nat.log2 granularity
      effectiveBits := effectiveBits
      effectiveSize := 2 ^ effectiveBits
      effectiveMask := 2 ^ effectiveBits - 1
      sizeShift := sizeShift
      sizeShiftPlus1 := (sizeShift + 1) % 2 ^ 32 }

/-- `small_class_fls`. -/
def smallClassFls (value : Nat) : Nat := Nat.log2 value

/-- The part of `small_class_calc_offset_by_size` behind the shift. -/
def classOffset (effectiveBits size : Nat) : Nat :=
  if size < 2 ^ effectiveBits then size
  else
    let log2 := smallClassFls (size >>> effectiveBits)
    (size >>> log2) + (log2 <<< effectiveBits)

/-- `small_class_calc_offset_by_size`. -/
def smallClassCalcOffsetBySize (sc : SmallClass) (size : Nat) : Nat :=
  let checkedSize := (size + 2 ^ 32 - sc.sizeShiftPlus1) % 2 ^ 32
  let size := if checkedSize > size then 0 else checkedSize
  classOffset sc.effectiveBits (size >>> sc.ignoreBitsCount)

/-- The part of `small_class_calc_size_by_offset` before the shift. -/
def classSize (effectiveBits cls : Nat) : Nat :=
  let cls := cls + 1
  let linearPart := cls &&& (2 ^ effectiveBits - 1)
  let log2 := cls >>> effectiveBits
  if log2 ≠ 0 then (linearPart ||| 2 ^ effectiveBits) <<< (log2 - 1) else linearPart

/-- `small_class_calc_size_by_offset`. -/
def smallClassCalcSizeByOffset (sc : SmallClass) (cls : Nat) : Nat :=
  (sc.sizeShift + (classSize sc.effectiveBits cls <<< sc.ignoreBitsCount) % 2 ^ 32) % 2 ^ 32

/-! ## Classes and sizes -/

variable {e : Nat}

theorem classSize_of_lt {t : Nat} (h : t + 1 < 2 ^ e) : classSize e t = t + 1 := by
  have hz : (t + 1) / 2 ^ e = 0 := Nat.div_eq_of_lt h
  simp only [classSize, Nat.shiftRight_eq_div_pow, hz, Nat.and_two_pow_sub_one_eq_mod]
  simp [Nat.mod_eq_of_lt h]

/-- Behind the linear part, the class sizes are `m * 2 ^ k` for `2 ^ e ≤ m ≤ 2 ^ (e + 1)`. -/
theorem classSize_of_ge {t m k : Nat} (hm : 2 ^ e ≤ m) (hm' : m ≤ 2 ^ (e + 1))
    (ht : t + 1 = m + k * 2 ^ e) :
    classSize e t = m * 2 ^ k := by
  have hpos := Nat.two_pow_pos e
  rw [Nat.pow_succ] at hm'
  rcases Nat.lt_or_eq_of_le hm' with hlt | heq
  · obtain ⟨i, rfl⟩ : ∃ i, m = i + 2 ^ e := ⟨m - 2 ^ e, by omega⟩
    have hi : i < 2 ^ e := by omega
    have hsum : t + 1 = i + (k + 1) * 2 ^ e := by rw [Nat.add_mul, Nat.one_mul]; omega
    have hdiv : (t + 1) / 2 ^ e = k + 1 := by
      rw [hsum, Nat.add_mul_div_right _ _ hpos, Nat.div_eq_of_lt hi, Nat.zero_add]
    have hmod : (t + 1) % 2 ^ e = i := by rw [hsum, Nat.add_mul_mod_self_right, Nat.mod_eq_of_lt hi]
    have hor : i ||| 2 ^ e = i + 2 ^ e := by
      have := Nat.two_pow_add_eq_or_of_lt hi 1
      rw [Nat.mul_one] at this
      rw [Nat.or_comm, ← this, Nat.add_comm]
    simp only [classSize, Nat.shiftRight_eq_div_pow, hdiv, Nat.and_two_pow_sub_one_eq_mod,
      hmod, hor]
    simp [Nat.shiftLeft_eq]
  · have hsum : t + 1 = 0 + (k + 2) * 2 ^ e := by rw [ht, heq]; ring
    have hdiv : (t + 1) / 2 ^ e = k + 2 := by
      rw [hsum, Nat.add_mul_div_right _ _ hpos, Nat.zero_div, Nat.zero_add]
    have hmod : (t + 1) % 2 ^ e = 0 := by rw [hsum, Nat.add_mul_mod_self_right, Nat.zero_mod]
    simp only [classSize, Nat.shiftRight_eq_div_pow, hdiv, Nat.and_two_pow_sub_one_eq_mod, hmod,
      Nat.zero_or]
    simp only [Nat.shiftLeft_eq, ne_eq, Nat.add_eq_zero_iff, OfNat.ofNat_ne_zero, and_false,
      not_false_eq_true, if_true, heq]
    rw [show k + 2 - 1 = k + 1 from rfl, Nat.pow_succ]
    ring

/-- Every class behind the linear part has this form. -/
theorem class_form {t : Nat} (h : 2 ^ e ≤ t + 1) :
    ∃ m k, 2 ^ e ≤ m ∧ m < 2 ^ (e + 1) ∧ t + 1 = m + k * 2 ^ e := by
  have hpos := Nat.two_pow_pos e
  refine ⟨(t + 1) % 2 ^ e + 2 ^ e, (t + 1) / 2 ^ e - 1, by omega, ?_, ?_⟩
  · have := Nat.mod_lt (t + 1) hpos
    rw [Nat.pow_succ]
    omega
  · have hdiv := Nat.div_add_mod (t + 1) (2 ^ e)
    have hge : 1 ≤ (t + 1) / 2 ^ e := (Nat.one_le_div_iff hpos).2 h
    obtain ⟨q, hq⟩ : ∃ q, (t + 1) / 2 ^ e = q + 1 := ⟨(t + 1) / 2 ^ e - 1, by omega⟩
    rw [hq] at hdiv ⊢
    rw [Nat.mul_comm, Nat.add_mul, Nat.one_mul] at hdiv
    rw [Nat.add_sub_cancel]
    omega

theorem classSize_zero (e : Nat) : classSize e 0 = 1 := by
  cases e with
  | zero => rfl
  | succ e => exact classSize_of_lt (Nat.one_lt_two_pow (by omega))

/-- The class sizes grow, and at most double. -/
theorem classSize_succ (e t : Nat) :
    classSize e t < classSize e (t + 1) ∧ classSize e (t + 1) ≤ 2 * classSize e t := by
  by_cases hlt : t + 1 + 1 < 2 ^ e
  · rw [classSize_of_lt hlt, classSize_of_lt (by omega)]
    omega
  · by_cases heq : t + 1 < 2 ^ e
    · rw [classSize_of_lt heq,
        classSize_of_ge (m := t + 2) (k := 0) (by omega) (by rw [Nat.pow_succ]; omega) (by omega)]
      omega
    · obtain ⟨m, k, hm, hm', ht⟩ := class_form (e := e) (t := t) (by omega)
      rw [classSize_of_ge hm hm'.le ht,
        classSize_of_ge (m := m + 1) (k := k) (by omega) hm' (by omega)]
      have hpos := Nat.two_pow_pos k
      have hmpos : 1 ≤ m := Nat.le_trans (Nat.two_pow_pos e) hm
      constructor
      · exact Nat.mul_lt_mul_of_pos_right (Nat.lt_succ_self m) hpos
      · rw [← Nat.mul_assoc]
        exact Nat.mul_le_mul_right _ (by omega)

theorem classSize_strictMono (e : Nat) : StrictMono (classSize e) :=
  strictMono_nat_of_lt_succ fun t => (classSize_succ e t).1

/-- The size lies below its class and not below the class before. -/
theorem classOffset_spec (e v : Nat) :
    v < classSize e (classOffset e v) ∧ ∀ t, t < classOffset e v → classSize e t ≤ v := by
  have hmono := (classSize_strictMono e).monotone
  by_cases hlt : v < 2 ^ e
  · rw [classOffset, if_pos hlt]
    constructor
    · by_cases hv : v + 1 < 2 ^ e
      · rw [classSize_of_lt hv]
        omega
      · rw [classSize_of_ge (m := v + 1) (k := 0) (by omega) (by rw [Nat.pow_succ]; omega)
          (by omega)]
        omega
    · intro t ht
      rw [classSize_of_lt (by omega)]
      exact ht
  · -- `v` has the leading bits `m` and `k` more bits
    have hv : v ≠ 0 := by
      rintro rfl
      exact hlt (Nat.two_pow_pos e)
    have hdivne : v / 2 ^ e ≠ 0 := by
      have := (Nat.one_le_div_iff (Nat.two_pow_pos e)).2 (Nat.le_of_not_lt hlt)
      omega
    rw [classOffset, if_neg hlt]
    simp only [smallClassFls, Nat.shiftRight_eq_div_pow, Nat.shiftLeft_eq]
    generalize hk : Nat.log2 (v / 2 ^ e) = k
    have hlo : 2 ^ k ≤ v / 2 ^ e := hk ▸ Nat.log2_self_le hdivne
    have hhi : v / 2 ^ e < 2 ^ (k + 1) := hk ▸ Nat.lt_log2_self
    have hpk := Nat.two_pow_pos k
    have hpe := Nat.two_pow_pos e
    have hm : 2 ^ e ≤ v / 2 ^ k := by
      rw [Nat.le_div_iff_mul_le hpk]
      rw [Nat.le_div_iff_mul_le hpe, Nat.mul_comm] at hlo
      exact hlo
    have hm' : v / 2 ^ k < 2 ^ (e + 1) := by
      rw [Nat.div_lt_iff_lt_mul hpk]
      rw [Nat.div_lt_iff_lt_mul hpe] at hhi
      rw [← Nat.pow_add] at hhi ⊢
      rwa [show e + 1 + k = k + 1 + e by omega]
    have hdiv := Nat.div_add_mod v (2 ^ k)
    have hmod := Nat.mod_lt v hpk
    rw [Nat.mul_comm] at hdiv
    constructor
    · rw [classSize_of_ge (m := v / 2 ^ k + 1) (k := k) (by omega) hm' (by omega), Nat.add_mul,
        Nat.one_mul]
      omega
    · intro t ht
      refine Nat.le_trans (hmono (show t ≤ v / 2 ^ k + k * 2 ^ e - 1 by omega)) ?_
      rw [classSize_of_ge (m := v / 2 ^ k) (k := k) hm hm'.le (by omega)]
      omega

/-- The class of a size is the least one that is greater. -/
theorem classOffset_le_iff (e v t : Nat) : classOffset e v ≤ t ↔ v < classSize e t := by
  obtain ⟨h1, h2⟩ := classOffset_spec e v
  constructor
  · intro h
    exact Nat.lt_of_lt_of_le h1 ((classSize_strictMono e).monotone h)
  · intro h
    by_contra hgt
    have := h2 t (by omega)
    omega

/-! ## The sizes of an allocator -/

/-- The size of a class, as a number that does not wrap. -/
def SmallClass.rawSize (sc : SmallClass) (t : Nat) : Nat :=
  sc.sizeShift + classSize sc.effectiveBits t * 2 ^ sc.ignoreBitsCount

/-- What `small_class_create` makes of a granularity that is a power of two. -/
structure SmallClass.Created (sc : SmallClass) (minAlloc : Nat) : Prop where
  min : sc.sizeShift + 2 ^ sc.ignoreBitsCount = minAlloc
  plus1 : sc.sizeShiftPlus1 = sc.sizeShift + 1
  lt : minAlloc < 2 ^ 32

theorem smallClassCreate_spec {k minAlloc : Nat} (effectiveBits : Nat) (hpos : 0 < minAlloc)
    (hlt : minAlloc < 2 ^ 32) (hge : 2 ^ k ≤ minAlloc) :
    ∃ sc, smallClassCreate (2 ^ k) effectiveBits minAlloc = some sc ∧ sc.Created minAlloc ∧
      sc.effectiveBits = effectiveBits ∧ sc.ignoreBitsCount = k := by
  have hk := Nat.two_pow_pos k
  have hand : 2 ^ k &&& (2 ^ k - 1) = 0 := by rw [Nat.and_two_pow_sub_one_eq_mod, Nat.mod_self]
  have hshift : (minAlloc + 2 ^ 32 - 2 ^ k) % 2 ^ 32 = minAlloc - 2 ^ k := by
    rw [show minAlloc + 2 ^ 32 - 2 ^ k = minAlloc - 2 ^ k + 2 ^ 32 by omega, Nat.add_mod_right,
      Nat.mod_eq_of_lt (by omega)]
  have hplus : (minAlloc - 2 ^ k + 1) % 2 ^ 32 = minAlloc - 2 ^ k + 1 := Nat.mod_eq_of_lt (by omega)
  refine ⟨_, by simp only [smallClassCreate, guard, if_pos hk, if_pos hand, if_pos hpos]; rfl, ?_,
    rfl, Nat.log2_two_pow⟩
  simp only [Nat.log2_two_pow, hshift, hplus]
  exact ⟨by simp only; omega, rfl, hlt⟩

variable {sc : SmallClass} {minAlloc : Nat}

theorem SmallClass.Created.rawSize_zero (hc : sc.Created minAlloc) : sc.rawSize 0 = minAlloc := by
  rw [SmallClass.rawSize, classSize_zero, Nat.one_mul]
  exact hc.min

theorem SmallClass.rawSize_mono (sc : SmallClass) {t t' : Nat} (h : t ≤ t') :
    sc.rawSize t ≤ sc.rawSize t' := by
  have hmono := (classSize_strictMono sc.effectiveBits).monotone h
  have hmul := Nat.mul_le_mul_right (2 ^ sc.ignoreBitsCount) hmono
  unfold SmallClass.rawSize
  omega

theorem SmallClass.rawSize_lt_succ (sc : SmallClass) (t : Nat) :
    sc.rawSize t < sc.rawSize (t + 1) := by
  have hmul := Nat.mul_lt_mul_of_pos_right (classSize_succ sc.effectiveBits t).1
    (Nat.two_pow_pos sc.ignoreBitsCount)
  unfold SmallClass.rawSize
  omega

theorem SmallClass.rawSize_succ_le (sc : SmallClass) (t : Nat) :
    sc.rawSize (t + 1) ≤ 2 * sc.rawSize t := by
  have hmul := Nat.mul_le_mul_right (2 ^ sc.ignoreBitsCount) (classSize_succ sc.effectiveBits t).2
  rw [Nat.mul_assoc] at hmul
  unfold SmallClass.rawSize
  omega

theorem smallClassCalcSizeByOffset_eq {t : Nat} (h : sc.rawSize t < 2 ^ 32) :
    smallClassCalcSizeByOffset sc t = sc.rawSize t := by
  unfold SmallClass.rawSize at h ⊢
  have hlt : classSize sc.effectiveBits t * 2 ^ sc.ignoreBitsCount < 2 ^ 32 := by omega
  rw [smallClassCalcSizeByOffset, Nat.shiftLeft_eq, Nat.mod_eq_of_lt hlt, Nat.mod_eq_of_lt h]

/-- The class of a size is the first one that is large enough. -/
theorem smallClassCalcOffsetBySize_le_iff (hc : sc.Created minAlloc) {size t : Nat}
    (hsize : size < 2 ^ 32) :
    smallClassCalcOffsetBySize sc size ≤ t ↔ size ≤ sc.rawSize t := by
  have hpos := Nat.two_pow_pos sc.ignoreBitsCount
  have hmin := hc.min
  have hlt := hc.lt
  have hgrow := classSize_zero sc.effectiveBits ▸ (classSize_strictMono sc.effectiveBits).monotone
    (Nat.zero_le t)
  have hmul : 2 ^ sc.ignoreBitsCount ≤ classSize sc.effectiveBits t * 2 ^ sc.ignoreBitsCount := by
    have := Nat.mul_le_mul_right (2 ^ sc.ignoreBitsCount) hgrow
    rwa [Nat.one_mul] at this
  simp only [smallClassCalcOffsetBySize, hc.plus1, Nat.shiftRight_eq_div_pow, SmallClass.rawSize]
  rw [classOffset_le_iff]
  by_cases hge : sc.sizeShift + 1 ≤ size
  · have hmod : (size + 2 ^ 32 - (sc.sizeShift + 1)) % 2 ^ 32 = size - (sc.sizeShift + 1) := by
      rw [show size + 2 ^ 32 - (sc.sizeShift + 1) = size - (sc.sizeShift + 1) + 2 ^ 32 by omega,
        Nat.add_mod_right, Nat.mod_eq_of_lt (by omega)]
    rw [hmod, if_neg (by omega), Nat.div_lt_iff_lt_mul hpos]
    omega
  · have hmod :
        (size + 2 ^ 32 - (sc.sizeShift + 1)) % 2 ^ 32 = size + 2 ^ 32 - (sc.sizeShift + 1) :=
      Nat.mod_eq_of_lt (by omega)
    rw [hmod, if_pos (by omega), Nat.zero_div]
    constructor
    · intro _
      omega
    · intro _
      exact Nat.lt_of_lt_of_le Nat.zero_lt_one hgrow

/-! ## The classes as a whole -/

/-- `small_class_calc_offset_by_size` with `SMALL_CLASS_BRANCHLESS`. -/
def smallClassCalcOffsetBySizeBranchless (sc : SmallClass) (size : Nat) : Nat :=
  let checkedSize := (size + 2 ^ 32 - sc.sizeShiftPlus1) % 2 ^ 32
  let size := if checkedSize > size then 0 else checkedSize
  let size := size >>> sc.ignoreBitsCount
  let log2 := smallClassFls ((size >>> sc.effectiveBits) ||| 1)
  (size >>> log2) + (log2 <<< sc.effectiveBits)

/-- The lowest bit does not change the highest one. -/
theorem smallClassFls_or_one {v : Nat} (hv : v ≠ 0) :
    smallClassFls (v ||| 1) = smallClassFls v := by
  have hle : v ≤ v ||| 1 := Nat.left_le_or
  have hne : v ||| 1 ≠ 0 := by omega
  have hlo := Nat.log2_self_le hv
  have hhi : v < 2 ^ (Nat.log2 v + 1) := Nat.lt_log2_self
  have hor : v ||| 1 < 2 ^ (Nat.log2 v + 1) :=
    Nat.or_lt_two_pow hhi (Nat.one_lt_two_pow (Nat.succ_ne_zero _))
  exact (Nat.log2_eq_iff hne).2 ⟨Nat.le_trans hlo hle, hor⟩

theorem branchless_eq (sc : SmallClass) (size : Nat) :
    smallClassCalcOffsetBySizeBranchless sc size = smallClassCalcOffsetBySize sc size := by
  simp only [smallClassCalcOffsetBySizeBranchless, smallClassCalcOffsetBySize, classOffset]
  generalize (if (size + 2 ^ 32 - sc.sizeShiftPlus1) % 2 ^ 32 > size then 0
    else (size + 2 ^ 32 - sc.sizeShiftPlus1) % 2 ^ 32) >>> sc.ignoreBitsCount = v
  by_cases hlt : v < 2 ^ sc.effectiveBits
  · have hz : v >>> sc.effectiveBits = 0 := by rw [Nat.shiftRight_eq_div_pow, Nat.div_eq_of_lt hlt]
    rw [if_pos hlt, hz]
    have hlog : smallClassFls (0 ||| 1) = 0 := by decide
    rw [hlog, Nat.shiftRight_zero, Nat.zero_shiftLeft, Nat.add_zero]
  · have hne : v >>> sc.effectiveBits ≠ 0 := by
      rw [Nat.shiftRight_eq_div_pow]
      have := (Nat.one_le_div_iff (Nat.two_pow_pos sc.effectiveBits)).2 (Nat.le_of_not_lt hlt)
      omega
    rw [if_neg hlt, smallClassFls_or_one hne]

/-- The step from the class before: one granule in the first `2 ^ e` classes, and twice as many
in each block of `2 ^ e` classes. -/
theorem classSize_step {t : Nat} (ht : 0 < t) (h : t < 2 ^ e) :
    classSize e t = classSize e (t - 1) + 1 := by
  obtain ⟨s, rfl⟩ : ∃ s, t = s + 1 := ⟨t - 1, by omega⟩
  rw [Nat.add_sub_cancel, classSize_of_lt h]
  by_cases hlt : s + 1 + 1 < 2 ^ e
  · rw [classSize_of_lt hlt]
  · rw [classSize_of_ge (m := s + 2) (k := 0) (by omega) (by rw [Nat.pow_succ]; omega) (by omega)]
    omega

theorem classSize_block {k i : Nat} (hi : i < 2 ^ e) :
    classSize e ((k + 1) * 2 ^ e + i) = classSize e ((k + 1) * 2 ^ e + i - 1) + 2 ^ k := by
  have hpos := Nat.two_pow_pos e
  have hmul : (k + 1) * 2 ^ e = k * 2 ^ e + 2 ^ e := by rw [Nat.add_mul, Nat.one_mul]
  have hpow : 2 ^ (e + 1) = 2 * 2 ^ e := by rw [Nat.pow_succ, Nat.mul_comm]
  rw [classSize_of_ge (m := 2 ^ e + i + 1) (k := k) (by omega) (by omega) (by omega),
    classSize_of_ge (m := 2 ^ e + i) (k := k) (by omega) (by omega) (by omega), Nat.add_mul,
    Nat.one_mul]

/-- The classes of an allocator: `c` is a class when its size fits into 32 bits. -/
structure SmallClass.Exact (sc : SmallClass) (granularity effectiveBits minAlloc : Nat) : Prop where
  /-- The class of a size is the least one that fits. -/
  least : ∀ size < 2 ^ 32, sc.rawSize (smallClassCalcOffsetBySize sc size) < 2 ^ 32 →
    size ≤ smallClassCalcSizeByOffset sc (smallClassCalcOffsetBySize sc size) ∧
    ∀ t < smallClassCalcOffsetBySize sc size, smallClassCalcSizeByOffset sc t < size
  inverse : ∀ c, sc.rawSize c < 2 ^ 32 →
    smallClassCalcOffsetBySize sc (smallClassCalcSizeByOffset sc c) = c
  /-- No size of a class wraps. -/
  size : ∀ c, sc.rawSize c < 2 ^ 32 → smallClassCalcSizeByOffset sc c = sc.rawSize c
  strict : ∀ c c', c < c' → sc.rawSize c' < 2 ^ 32 →
    smallClassCalcSizeByOffset sc c < smallClassCalcSizeByOffset sc c'
  congruent : ∀ c, sc.rawSize c < 2 ^ 32 →
    smallClassCalcSizeByOffset sc c % granularity = minAlloc % granularity
  start : smallClassCalcSizeByOffset sc 0 = minAlloc
  linear : ∀ c, 0 < c → c < 2 ^ effectiveBits → sc.rawSize c < 2 ^ 32 →
    smallClassCalcSizeByOffset sc c = smallClassCalcSizeByOffset sc (c - 1) + granularity
  block : ∀ k i, i < 2 ^ effectiveBits → sc.rawSize ((k + 1) * 2 ^ effectiveBits + i) < 2 ^ 32 →
    smallClassCalcSizeByOffset sc ((k + 1) * 2 ^ effectiveBits + i)
      = smallClassCalcSizeByOffset sc ((k + 1) * 2 ^ effectiveBits + i - 1) + granularity * 2 ^ k
  branchless : ∀ size < 2 ^ 32, smallClassCalcOffsetBySizeBranchless sc size =
    smallClassCalcOffsetBySize sc size

/-- **The two directions of `small_class` agree** for every granularity, every number of
effective bits and every smallest size. -/
theorem small_class_exact {b effectiveBits minAlloc : Nat} {sc : SmallClass}
    (hge : 2 ^ b ≤ minAlloc) (hlt : minAlloc < 2 ^ 32)
    (hex : smallClassCreate (2 ^ b) effectiveBits minAlloc = some sc) :
    sc.Exact (2 ^ b) effectiveBits minAlloc := by
  have hpos := Nat.two_pow_pos b
  obtain ⟨sc', hex', hc, hbits, hignore⟩ := smallClassCreate_spec effectiveBits (by omega) hlt hge
  rw [hex, Option.some.injEq] at hex'
  subst hex'
  have hmono := fun {t t' : Nat} (h : t ≤ t') => sc.rawSize_mono h
  have hsize : ∀ c, sc.rawSize c < 2 ^ 32 → smallClassCalcSizeByOffset sc c = sc.rawSize c :=
    fun c h => smallClassCalcSizeByOffset_eq h
  have hiff : ∀ {size t : Nat}, size < 2 ^ 32 →
      (smallClassCalcOffsetBySize sc size ≤ t ↔ size ≤ sc.rawSize t) :=
    fun h => smallClassCalcOffsetBySize_le_iff hc h
  constructor
  case least =>
    intro size hsz hfit
    refine ⟨?_, fun t ht => ?_⟩
    · rw [hsize _ hfit]
      exact (hiff hsz).1 (Nat.le_refl _)
    · have hnot := mt (hiff (t := t) hsz).2 (Nat.not_le.2 ht)
      rw [hsize t (by omega)]
      omega
  case inverse =>
    intro c hfit
    rw [hsize c hfit]
    refine Nat.le_antisymm ((hiff hfit).2 (Nat.le_refl _)) ?_
    by_contra hgt
    have hle := (hiff (t := c - 1) hfit).1 (by omega)
    have hstrict := sc.rawSize_lt_succ (c - 1)
    rw [Nat.sub_add_cancel (by omega)] at hstrict
    omega
  case size => exact hsize
  case strict =>
    intro c c' hcc hfit
    have hle := hmono (show c + 1 ≤ c' from hcc)
    have hstrict := sc.rawSize_lt_succ c
    rw [hsize c (by omega), hsize c' hfit]
    omega
  case congruent =>
    intro c hfit
    rw [hsize c hfit, SmallClass.rawSize, ← hc.min, hignore]
    rw [Nat.add_mul_mod_self_right, Nat.add_mod_right]
  case start => rw [hsize 0 (by rw [hc.rawSize_zero]; exact hlt), hc.rawSize_zero]
  case linear =>
    intro c hcpos hclt hfit
    have hle := hmono (show c - 1 ≤ c by omega)
    rw [hsize c hfit, hsize (c - 1) (by omega), SmallClass.rawSize, SmallClass.rawSize, hbits,
      hignore, classSize_step hcpos hclt, Nat.add_mul, Nat.one_mul, Nat.add_assoc]
  case block =>
    intro k i hi hfit
    have hle := hmono
      (show (k + 1) * 2 ^ effectiveBits + i - 1 ≤ (k + 1) * 2 ^ effectiveBits + i by omega)
    rw [hsize _ hfit, hsize _ (by omega), SmallClass.rawSize, SmallClass.rawSize, hbits, hignore,
      classSize_block hi, Nat.add_mul, Nat.mul_comm (2 ^ k), Nat.add_assoc]
  case branchless => exact fun size _ => branchless_eq sc size

theorem small_class_exact_eight :
    ∃ sc, smallClassCreate (2 ^ 3) 2 24 = some sc ∧ sc.Exact (2 ^ 3) 2 24 :=
  ⟨_, rfl, small_class_exact (by decide) (by decide) rfl⟩

end SmallAllocators
