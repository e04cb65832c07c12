/-
SmallAllocators.Lib.Blocks — aligned power-of-two blocks of addresses.

The block of order `i` at `a` is the half-open interval `[a, a + 2 ^ i)`,
with `a` a multiple of `2 ^ i`. Two such blocks are nested or disjoint
(`InBlock.nested`). The buddy of a block is the other half of the block of
the next order it lies in, found by negating one bit of its address; the
union of the two is that larger block (`inBlock_succ_iff`).
-/
import Mathlib.Data.Nat.Bitwise
import Mathlib.Tactic.Ring
import Mathlib.Tactic.Common

namespace SmallAllocators.Blocks

/-- `x` lies in the block of order `i` at `a`. -/
def InBlock (i a x : Nat) : Prop := a ≤ x ∧ x < a + 2 ^ i

instance (i a x : Nat) : Decidable (InBlock i a x) := inferInstanceAs (Decidable (_ ∧ _))

theorem inBlock_self (i a : Nat) : InBlock i a a :=
  ⟨Nat.le_refl a, Nat.lt_add_of_pos_right (Nat.two_pow_pos i)⟩

/-- The points of an aligned block are those with the same high bits. -/
theorem inBlock_iff_div {i a x : Nat} (ha : 2 ^ i ∣ a) :
    InBlock i a x ↔ x / 2 ^ i = a / 2 ^ i := by
  obtain ⟨q, rfl⟩ := ha
  have hpos := Nat.two_pow_pos i
  rw [Nat.mul_div_cancel_left q hpos, Nat.div_eq_iff hpos, InBlock, Nat.mul_comm]
  omega

/-- Two aligned blocks with a common point are nested, the smaller in the larger. -/
theorem InBlock.nested {i j a b x y : Nat} (ha : 2 ^ i ∣ a) (hb : 2 ^ j ∣ b) (hij : i ≤ j)
    (hax : InBlock i a x) (hbx : InBlock j b x) (hay : InBlock i a y) : InBlock j b y := by
  rw [inBlock_iff_div ha] at hax hay
  rw [inBlock_iff_div hb] at hbx ⊢
  have hdiv : ∀ z : Nat, z / 2 ^ j = z / 2 ^ i / 2 ^ (j - i) := by
    intro z
    rw [Nat.div_div_eq_div_mul, ← Nat.pow_add, Nat.add_sub_cancel' hij]
  rw [hdiv y, hay, ← hax, ← hdiv x, hbx]

/-- A block of at most the order of an aligned point it contains starts at that point. -/
theorem InBlock.eq_of_dvd {i j a x : Nat} (ha : 2 ^ i ∣ a) (hx : 2 ^ j ∣ x) (hij : i ≤ j)
    (h : InBlock i a x) : a = x := by
  rw [inBlock_iff_div ha] at h
  have hxi : 2 ^ i ∣ x := (Nat.pow_dvd_pow 2 hij).trans hx
  rw [← Nat.div_mul_cancel ha, ← h, Nat.div_mul_cancel hxi]

/-! ## Buddies -/

/-- The other half of the block of order `i + 1` around the block of order `i` at `a`. -/
def buddy (i a : Nat) : Nat := a ^^^ 2 ^ i

theorem buddy_mul (i q : Nat) : buddy i (2 ^ i * q) = 2 ^ i * (q ^^^ 1) := by
  have hpos := Nat.two_pow_pos i
  have hd : (2 ^ i * q ^^^ 2 ^ i) / 2 ^ i = q ^^^ 1 := by
    rw [Nat.xor_div_two_pow, Nat.mul_div_cancel_left q hpos, Nat.div_self hpos]
  have hm : (2 ^ i * q ^^^ 2 ^ i) % 2 ^ i = 0 := by
    rw [Nat.xor_mod_two_pow, Nat.mul_mod_right, Nat.mod_self, Nat.xor_zero]
  rw [buddy, ← hd, Nat.mul_div_cancel' (Nat.dvd_of_mod_eq_zero hm)]

theorem xor_one_even (q : Nat) : 2 * q ^^^ 1 = 2 * q + 1 := by
  apply Nat.eq_of_testBit_eq
  intro i
  cases i with
  | zero => simp
  | succ i => simp [Nat.testBit_succ, Nat.mul_add_div]

theorem xor_one_odd (q : Nat) : (2 * q + 1) ^^^ 1 = 2 * q := by
  rw [← xor_one_even, Nat.xor_assoc, Nat.xor_self, Nat.xor_zero]

/-- The lower half of a block of order `i + 1` has the upper half as its buddy, and conversely. -/
theorem buddy_cases {i a : Nat} (ha : 2 ^ i ∣ a) :
    (2 ^ (i + 1) ∣ a ∧ buddy i a = a + 2 ^ i) ∨
      ∃ p, 2 ^ (i + 1) ∣ p ∧ a = p + 2 ^ i ∧ buddy i a = p := by
  obtain ⟨q, rfl⟩ := ha
  rw [buddy_mul]
  rcases Nat.even_or_odd' q with ⟨r, rfl | rfl⟩
  · left
    rw [xor_one_even]
    exact ⟨⟨r, by ring⟩, by ring⟩
  · right
    rw [xor_one_odd]
    exact ⟨2 ^ i * (2 * r), ⟨r, by ring⟩, by ring, rfl⟩

theorem buddy_of_dvd {i a : Nat} (ha : 2 ^ (i + 1) ∣ a) : buddy i a = a + 2 ^ i := by
  obtain ⟨q, rfl⟩ := ha
  rw [show 2 ^ (i + 1) * q = 2 ^ i * (2 * q) by ring, buddy_mul, xor_one_even]
  ring

theorem buddy_buddy (i a : Nat) : buddy i (buddy i a) = a := by
  rw [buddy, buddy, Nat.xor_assoc, Nat.xor_self, Nat.xor_zero]

theorem buddy_ne (i a : Nat) : buddy i a ≠ a := by
  intro h
  have : a ^^^ (a ^^^ 2 ^ i) = 0 := by rw [← buddy, h, Nat.xor_self]
  rw [← Nat.xor_assoc, Nat.xor_self, Nat.zero_xor] at this
  exact absurd this (Nat.two_pow_pos i).ne'

theorem dvd_buddy {i a : Nat} (ha : 2 ^ i ∣ a) : 2 ^ i ∣ buddy i a := by
  obtain ⟨q, rfl⟩ := ha
  rw [buddy_mul]
  exact Nat.dvd_mul_right _ _

theorem dvd_min_buddy {i a : Nat} (ha : 2 ^ i ∣ a) : 2 ^ (i + 1) ∣ min a (buddy i a) := by
  rcases buddy_cases ha with ⟨h1, h2⟩ | ⟨p, h1, h2, h3⟩
  · rw [h2, Nat.min_eq_left (Nat.le_add_right _ _)]
    exact h1
  · rw [h3, h2, Nat.min_eq_right (Nat.le_add_right _ _)]
    exact h1

/-- A block and its buddy make up the block of the next order. -/
theorem inBlock_succ_iff {i a x : Nat} (ha : 2 ^ i ∣ a) :
    InBlock (i + 1) (min a (buddy i a)) x ↔ InBlock i a x ∨ InBlock i (buddy i a) x := by
  have hs : 2 ^ (i + 1) = 2 ^ i + 2 ^ i := by ring
  rcases buddy_cases ha with ⟨-, h2⟩ | ⟨p, -, h2, h3⟩
  · rw [h2, Nat.min_eq_left (Nat.le_add_right _ _)]
    simp only [InBlock, hs]
    omega
  · rw [h3, h2, Nat.min_eq_right (Nat.le_add_right _ _)]
    simp only [InBlock, hs]
    omega

theorem not_inBlock_buddy {i a x : Nat} (ha : 2 ^ i ∣ a) (h : InBlock i a x) :
    ¬ InBlock i (buddy i a) x := by
  rcases buddy_cases ha with ⟨-, h2⟩ | ⟨p, -, h2, h3⟩
  · simp only [InBlock, h2] at *
    omega
  · rw [h3]
    simp only [InBlock, h2] at *
    omega

end SmallAllocators.Blocks
