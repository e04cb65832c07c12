/-
SmallAllocators.Util — the arithmetic of `include/small/util.h`.

Sizes and addresses are natural numbers below `sizeMax`; where the source
computes in `size_t`, the result is taken modulo `sizeMax`.
-/
import Mathlib.Data.Nat.Bitwise
import Mathlib.Tactic.Common

namespace SmallAllocators

/-- The size of `size_t`, in values. -/
def sizeMax : Nat := 2 ^ 64

/-- `sizeof(void *)`. -/
def ptrSize : Nat := 8

/-- `NULL` is the address 0. -/
def ofPtr (p : Nat) : Option Nat := if p = 0 then none else some p

/-- `small_align`: the next multiple of a power of two, with both assertions. -/
def smallAlign (size alignment : Nat) : Option Nat := do
  guard (alignment &&& (alignment + (sizeMax - 1)) % sizeMax = 0)
  guard (size ≤ sizeMax - 1 - alignment)
  some ((size + (sizeMax - 1) + alignment) % sizeMax &&&
    (sizeMax - 1 - (alignment + (sizeMax - 1)) % sizeMax))

/-- The least multiple of `2 ^ k` that is not less than `x`. -/
def alignUp (k x : Nat) : Nat := (x + (2 ^ k - 1)) / 2 ^ k * 2 ^ k

theorem le_alignUp (k x : Nat) : x ≤ alignUp k x := by
  have hpos := Nat.two_pow_pos k
  have h := Nat.div_add_mod (x + (2 ^ k - 1)) (2 ^ k)
  have hlt := Nat.mod_lt (x + (2 ^ k - 1)) hpos
  rw [Nat.mul_comm] at h
  unfold alignUp
  omega

theorem alignUp_le (k x : Nat) : alignUp k x ≤ x + (2 ^ k - 1) :=
  Nat.div_mul_le_self _ _

theorem dvd_alignUp (k x : Nat) : 2 ^ k ∣ alignUp k x := Dvd.intro_left _ rfl

theorem alignUp_zero (x : Nat) : alignUp 0 x = x := by
  simp [alignUp]

/-- Clearing the low bits of a 64-bit word. -/
theorem and_high_mask {k n x : Nat} (hk : k ≤ n) (hx : x < 2 ^ n) :
    x &&& (2 ^ n - 1 - (2 ^ k - 1)) = x / 2 ^ k * 2 ^ k := by
  have hmask : 2 ^ n - 1 - (2 ^ k - 1) = (2 ^ (n - k) - 1) <<< k := by
    have hpow : 2 ^ n = 2 ^ (n - k) * 2 ^ k := by rw [← Nat.pow_add, Nat.sub_add_cancel hk]
    have hpos := Nat.two_pow_pos k
    rw [Nat.shiftLeft_eq, Nat.sub_mul, ← hpow]
    omega
  rw [hmask, ← Nat.shiftRight_eq_div_pow, ← Nat.shiftLeft_eq]
  refine Nat.eq_of_testBit_eq fun i => ?_
  rw [Nat.testBit_and, Nat.testBit_shiftLeft, Nat.testBit_shiftLeft, Nat.testBit_shiftRight,
    Nat.testBit_two_pow_sub_one]
  by_cases hi : k ≤ i
  · have hin : k + (i - k) = i := by omega
    rw [hin]
    by_cases hlt : i - k < n - k
    · simp [hi, hlt]
    · have hbit : x.testBit i = false :=
        Nat.testBit_lt_two_pow (lt_of_lt_of_le hx (Nat.pow_le_pow_right (by omega) (by omega)))
      simp [hbit]
  · simp [hi]

/-- `small_align` rounds up to a power of two. -/
theorem smallAlign_eq {k x : Nat} (hx : x + 2 ^ k < sizeMax) :
    smallAlign x (2 ^ k) = some (alignUp k x) := by
  have hpos := Nat.two_pow_pos k
  have hk : k < 64 := by
    by_contra hge
    have : 2 ^ 64 ≤ 2 ^ k := Nat.pow_le_pow_right (by omega) (by omega)
    simp only [sizeMax] at hx
    omega
  have hm : (2 ^ k + (sizeMax - 1)) % sizeMax = 2 ^ k - 1 := by
    rw [show 2 ^ k + (sizeMax - 1) = (2 ^ k - 1) + sizeMax by simp only [sizeMax] at *; omega,
      Nat.add_mod_right, Nat.mod_eq_of_lt (by omega)]
  have hand : 2 ^ k &&& (2 ^ k - 1) = 0 := by
    rw [Nat.and_two_pow_sub_one_eq_mod, Nat.mod_self]
  have hsum : (x + (sizeMax - 1) + 2 ^ k) % sizeMax = x + (2 ^ k - 1) := by
    rw [show x + (sizeMax - 1) + 2 ^ k = (x + (2 ^ k - 1)) + sizeMax by
      simp only [sizeMax] at *; omega, Nat.add_mod_right, Nat.mod_eq_of_lt (by omega)]
  have hle : x ≤ sizeMax - 1 - 2 ^ k := by omega
  simp only [smallAlign, hm, hand, guard, if_true, if_pos hle, hsum]
  have hlt : x + (2 ^ k - 1) < 2 ^ 64 := by simp only [sizeMax] at hx; omega
  have hmask := and_high_mask hk.le hlt
  simp only [sizeMax, alignUp]
  rw [hmask]
  rfl

/-- `small_align_down`, with its assertion. -/
def smallAlignDown (value alignment : Nat) : Option Nat := do
  guard (alignment &&& (alignment + (sizeMax - 1)) % sizeMax = 0)
  some (value &&& (sizeMax - 1 - (alignment + (sizeMax - 1)) % sizeMax))

/-- `small_align_down` rounds down to a power of two. -/
theorem smallAlignDown_eq {k x : Nat} (hk : k < 64) (hx : x < sizeMax) :
    smallAlignDown x (2 ^ k) = some (x / 2 ^ k * 2 ^ k) := by
  have hpos := Nat.two_pow_pos k
  have hlt : 2 ^ k < sizeMax := Nat.pow_lt_pow_right (by decide) hk
  have hm : (2 ^ k + (sizeMax - 1)) % sizeMax = 2 ^ k - 1 := by
    rw [show 2 ^ k + (sizeMax - 1) = (2 ^ k - 1) + sizeMax by simp only [sizeMax] at *; omega,
      Nat.add_mod_right, Nat.mod_eq_of_lt (by omega)]
  have hand : 2 ^ k &&& (2 ^ k - 1) = 0 := by
    rw [Nat.and_two_pow_sub_one_eq_mod, Nat.mod_self]
  have hmask := and_high_mask hk.le hx
  simp only [smallAlignDown, hm, hand, guard, if_true]
  simp only [sizeMax]
  rw [hmask]
  rfl

/-- `small_round`: the next power of two, with both assertions. `64 - clz(x)` is `log2 x + 1` for a
positive 64-bit `x`. -/
def smallRound (size : Nat) : Option Nat :=
  if size < 2 then some size
  else do
    guard (size ≤ (sizeMax - 1) / 2 + 1)
    guard (size - 1 ≤ sizeMax - 1)
    some (1 <<< (Nat.log2 (size - 1) + 1) % sizeMax)

/-- `small_round` of at most 2^63 returns a power of two between the size and its double. -/
theorem smallRound_spec {size : Nat} (hmin : 2 ≤ size) (hmax : size ≤ 2 ^ 63) :
    ∃ k ≤ 63, smallRound size = some (2 ^ k) ∧ size ≤ 2 ^ k ∧ 2 ^ k < 2 * size := by
  have hpos : size - 1 ≠ 0 := by omega
  have hle := Nat.log2_self_le hpos
  have hlt : size - 1 < 2 ^ (Nat.log2 (size - 1) + 1) := Nat.lt_log2_self
  have hlog : Nat.log2 (size - 1) < 63 := (Nat.log2_lt hpos).2 (by omega)
  have hpow : 2 ^ (Nat.log2 (size - 1) + 1) < sizeMax := Nat.pow_lt_pow_right (by decide) (by omega)
  have hfirst : size ≤ (sizeMax - 1) / 2 + 1 := by simp only [sizeMax]; omega
  have hsecond : size - 1 ≤ sizeMax - 1 := by simp only [sizeMax]; omega
  refine ⟨Nat.log2 (size - 1) + 1, by omega, ?_, by omega, ?_⟩
  · rw [smallRound, if_neg (by omega), guard, if_pos hfirst, guard, if_pos hsecond,
      Nat.one_shiftLeft, Nat.mod_eq_of_lt hpow]
    rfl
  · rw [Nat.pow_succ]
    omega

/-- The loop `while (capacity < needed) capacity *= 2` of the buffers. A `size_t` is 0 after 64
rounds, so the loop does not end if it makes more. -/
def growLoop (needed : Nat) : Nat → Nat → Option Nat
  | 0, _ => none
  | fuel + 1, capacity =>
    if capacity < needed then growLoop needed fuel (capacity * 2 % sizeMax)
    else some capacity

/-- The doubling loop ends when the capacity suffices. -/
theorem growLoop_spec {needed : Nat} (hneeded : needed ≤ 2 ^ 63) (fuel c : Nat)
    (hc : needed ≤ c * 2 ^ fuel) :
    ∃ n, growLoop needed (fuel + 1) c = some n ∧ needed ≤ n ∧ c ≤ n ∧ (n = c ∨ n < 2 * needed) := by
  induction fuel generalizing c with
  | zero =>
      refine ⟨c, ?_, by omega, Nat.le_refl _, Or.inl rfl⟩
      rw [growLoop, if_neg (by omega)]
  | succ fuel ih =>
      rw [growLoop]
      by_cases hlt : c < needed
      · have hmod : c * 2 % sizeMax = c * 2 := Nat.mod_eq_of_lt (by simp only [sizeMax]; omega)
        obtain ⟨n, heq, h1, h2, h3⟩ := ih (c * 2) (by rw [Nat.mul_assoc, ← Nat.pow_succ']; exact hc)
        rw [if_pos hlt, hmod]
        exact ⟨n, heq, h1, by omega, by omega⟩
      · rw [if_neg hlt]
        exact ⟨c, rfl, by omega, Nat.le_refl _, Or.inl rfl⟩

end SmallAllocators
