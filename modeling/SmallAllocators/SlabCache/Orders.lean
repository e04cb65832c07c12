/-
SmallAllocators.SlabCache.Orders — the arithmetic of orders and sizes.

`slab_cache_create` clamps the number of orders, which makes the smallest
slab larger (`Geometry.create_order0SizeLb`). Whatever it computes,
`slab_order`, `slab_order_size` and `slab_real_size` agree: the order of a
size is the least one that is large enough, and the slab that `slab_get`
returns has the size that `slab_real_size` says (`slab_order_tight`).
-/
import Mathlib.Order.Bounds.Basic
import SmallAllocators.SlabCache.Runs
import SmallAllocators.SlabCache.Billing

namespace SmallAllocators

variable {g : Geometry} {s : SlabState} {n m size k : Nat}

/-! ## The constants of `slab_cache_create` -/

theorem createOrderMax_eq (h : m ≤ n) :
    createOrderMax (2 ^ n) (2 ^ m) = min (n - m) (orderMaxLimit - 1) := by
  have hlb : smallLb (2 ^ n / 2 ^ m) = n - m := by
    rw [smallLb, Nat.pow_div h (by decide), Nat.log2_two_pow]
  simp only [createOrderMax, hlb]
  split <;> omega

/-- The smallest slab has the size that was asked for, unless that would give too many orders. -/
theorem Geometry.create_order0SizeLb (hn : n < 32) (h : m ≤ n) :
    (Geometry.create n m hn).order0SizeLb = max m (n - (orderMaxLimit - 1)) := by
  show smallLb (2 ^ n >>> createOrderMax (2 ^ n) (2 ^ m)) = _
  rw [smallLb, Nat.shiftRight_eq_div_pow, Nat.pow_div createOrderMax_le (by decide),
    Nat.log2_two_pow, createOrderMax_eq h]
  omega

/-! ## Orders and sizes -/

theorem Geometry.slabOrder_of_large (hsize : g.slabSize < size) :
    g.slabOrder size = g.orderMax + 1 := by
  have hle := g.slabOrder_le size
  have hiff := g.slabOrder_le_iff size (Nat.le_refl g.orderMax)
  rw [g.slabOrderSize_max] at hiff
  have hnot : ¬ g.slabOrder size ≤ g.orderMax := fun h => absurd (hiff.1 h) (Nat.not_le.2 hsize)
  omega

/-- The orders whose slabs have at least `size` bytes. -/
def Geometry.Enough (g : Geometry) (size : Nat) : Set Nat :=
  {k | k ≤ g.orderMax ∧ size ≤ g.slabOrderSize k}

theorem Geometry.slabOrder_isLeast (hsize : size ≤ g.slabSize) :
    IsLeast (g.Enough size) (g.slabOrder size) := by
  have hmax : g.slabOrder size ≤ g.orderMax :=
    (g.slabOrder_le_iff size (Nat.le_refl _)).2 (by rw [g.slabOrderSize_max]; exact hsize)
  refine ⟨⟨hmax, g.le_slabOrderSize hmax⟩, ?_⟩
  rintro k ⟨hk, hle⟩
  exact (g.slabOrder_le_iff size hk).2 hle

/-- In every run, `slab_get` returns a slab of the size that `slab_real_size` says. -/
theorem slabGet_returns_size (hs : (slabMachine g).Reachable s) {answer : Option Nat}
    (hop : (SlabOp.get size answer).Allowed g s) :
    ∃ r c, slabGet g s.cache size answer = some (r, c) ∧
      ∀ a, r = some a → (c.slab a).size = g.slabRealSize size := by
  obtain ⟨-, hstep⟩ := slabMachine_good hs
  obtain ⟨s', hex, -⟩ := hstep (.get size answer) hop
  obtain ⟨⟨r, c⟩, hget, -⟩ := Option.bind_eq_some_iff.1 hex
  refine ⟨r, c, hget, ?_⟩
  rintro a rfl
  exact slabGet_size hget

/-- What callers rely on. -/
structure Geometry.Tight (g : Geometry) : Prop where
  orderMax : g.orderMax ≤ orderMaxLimit - 1
  largest : g.slabOrderSize g.orderMax = g.slabSize
  least : ∀ size ≤ g.slabSize, IsLeast (g.Enough size) (g.slabOrder size)
  large : ∀ size, g.slabSize < size → g.slabOrder size = g.orderMax + 1
  mono : ∀ a b, a ≤ b → b + slabSizeof < sizeMax → g.slabRealSize a ≤ g.slabRealSize b
  room : ∀ size, size + slabSizeof < sizeMax → size + slabSizeof ≤ g.slabRealSize size
  get : ∀ s, (slabMachine g).Reachable s → ∀ size answer, (SlabOp.get size answer).Allowed g s →
    ∃ r c, slabGet g s.cache size answer = some (r, c) ∧ ∀ a, r = some a →
    (c.slab a).size = g.slabRealSize size

theorem Geometry.tight (g : Geometry) : g.Tight := by
  constructor
  case orderMax => exact Nat.le_sub_one_of_lt g.orderMax_lt
  case largest => exact g.slabOrderSize_max
  case least => exact fun size hsize => slabOrder_isLeast hsize
  case large => exact fun size hsize => slabOrder_of_large hsize
  case mono => exact fun a b hab hb => g.slabRealSize_mono hab hb
  case room =>
    intro size hsize
    have hle := g.le_slabRealSize size
    rwa [Nat.mod_eq_of_lt hsize] at hle
  case get => exact fun s hs size answer hop => slabGet_returns_size hs hop

/-- **The arithmetic of orders is tight**, for the constants that `slab_cache_create` computes
from arena slabs of `2 ^ n` bytes and a smallest slab of `2 ^ m` bytes. -/
theorem slab_order_tight (n m : Nat) (hn : n < 32) (hm : m ≤ n) :
    (Geometry.create n m hn).slabSize = 2 ^ n ∧
    (Geometry.create n m hn).orderMax = min (n - m) (orderMaxLimit - 1) ∧
    (Geometry.create n m hn).order0Size = 2 ^ max m (n - (orderMaxLimit - 1)) ∧
    (Geometry.create n m hn).order0SizeLb = max m (n - (orderMaxLimit - 1)) ∧
    (Geometry.create n m hn).Tight := by
  have hlb := Geometry.create_order0SizeLb hn hm
  refine ⟨rfl, createOrderMax_eq hm, ?_, hlb, Geometry.tight _⟩
  rw [(Geometry.create n m hn).order0Size_eq, hlb]

/-- Arena slabs of 4 MB with slabs of one page or more. -/
theorem slab_order_tight_four_megabytes :
    22 < 32 ∧ 12 ≤ 22 ∧ (Geometry.create 22 12 (by decide)).orderMax =
      min (22 - 12) (orderMaxLimit - 1) ∧
      (Geometry.create 22 12 (by decide)).Tight :=
  ⟨by decide, by decide, (slab_order_tight 22 12 (by decide) (by decide)).2.1,
    (slab_order_tight 22 12 (by decide) (by decide)).2.2.2.2⟩

end SmallAllocators
