/-
SmallAllocators.Lib.Memory — flat memory and ranges of cells.

A memory gives each address the contents of its cell. `read` lists the
cells of a range and `fill` overwrites one. The lemmas say how reading
composes along a range, and that it does not see writes elsewhere.
-/
import Mathlib.Algebra.Order.BigOperators.Group.Finset
import Mathlib.Algebra.Ring.Nat
import Mathlib.Data.List.Basic
import Mathlib.Order.Interval.Finset.Nat

namespace SmallAllocators.Memory

variable {β : Type} {mem mem' : Nat → β} {data : Nat → β} {a b m n : Nat}

/-- The contents of the `n` cells from `a` on. -/
def read (mem : Nat → β) (a n : Nat) : List β := (List.range n).map fun i => mem (a + i)

/-- The `n` cells from `a` on get new contents. -/
def fill (mem : Nat → β) (a n : Nat) (data : Nat → β) : Nat → β :=
  fun x => if a ≤ x ∧ x < a + n then data (x - a) else mem x

@[simp] theorem read_length (mem : Nat → β) (a n : Nat) : (read mem a n).length = n := by
  simp [read]

@[simp] theorem read_zero (mem : Nat → β) (a : Nat) : read mem a 0 = [] := rfl

theorem read_add (mem : Nat → β) (a m n : Nat) :
    read mem a (m + n) = read mem a m ++ read mem (a + m) n := by
  simp [read, List.range_add, Function.comp_def, Nat.add_assoc]

theorem read_congr (h : ∀ x, a ≤ x → x < a + n → mem' x = mem x) :
    read mem' a n = read mem a n := by
  unfold read
  refine List.map_congr_left fun i hi => ?_
  rw [List.mem_range] at hi
  exact h (a + i) (by omega) (by omega)

theorem read_drop (mem : Nat → β) (a m n : Nat) :
    (read mem a (m + n)).drop m = read mem (a + m) n := by
  rw [read_add, List.drop_left' (read_length mem a m)]

theorem fill_of_not (h : ¬ (a ≤ b ∧ b < a + n)) : fill mem a n data b = mem b := by
  rw [fill, if_neg h]

/-- A range does not see a write to cells outside it. -/
theorem read_fill_of_disjoint (h : ∀ x, a ≤ x → x < a + n → ¬ (b ≤ x ∧ x < b + m)) :
    read (fill mem b m data) a n = read mem a n :=
  read_congr fun x h1 h2 => fill_of_not (h x h1 h2)

/-- A range that was overwritten. -/
theorem read_fill (mem : Nat → β) (a n : Nat) (data : Nat → β) :
    read (fill mem a n data) a n = (List.range n).map data := by
  refine List.map_congr_left fun i hi => ?_
  rw [List.mem_range] at hi
  rw [fill, if_pos (by omega), Nat.add_sub_cancel_left]

/-- The new contents, as a memory of their own. -/
theorem read_fill_data (mem : Nat → β) (a n : Nat) (data : Nat → β) :
    read (fill mem a n data) a n = read data 0 n := by
  rw [read_fill, read]
  simp only [Nat.zero_add]

/-- `memcpy` and `memmove`: the source range may overlap the destination. -/
def copy (mem : Nat → β) (dst src n : Nat) : Nat → β := fill mem dst n fun i => mem (src + i)

theorem read_copy (mem : Nat → β) (dst src n : Nat) :
    read (copy mem dst src n) dst n = read mem src n :=
  read_fill mem dst n _

theorem read_take (mem : Nat → β) (a : Nat) (h : m ≤ n) : (read mem a n).take m = read mem a m := by
  rw [read, ← List.map_take, List.take_range, Nat.min_eq_left h]
  rfl

theorem read_drop' (mem : Nat → β) (a : Nat) (h : m ≤ n) :
    (read mem a n).drop m = read mem (a + m) (n - m) := by
  obtain ⟨k, rfl⟩ := Nat.exists_eq_add_of_le h
  rw [read_drop, Nat.add_sub_cancel_left]

/-- Ranges that are apart, all of them below `n`, have no more than `n` cells. -/
theorem sum_le_of_apart {ι : Type} (s : Finset ι) (base size : ι → Nat)
    (hlast : ∀ i ∈ s, base i + size i ≤ n)
    (hap : ∀ i ∈ s, ∀ j ∈ s, i ≠ j → base i + size i ≤ base j ∨ base j + size j ≤ base i) :
    ∑ i ∈ s, size i ≤ n := by
  have hdisj : ∀ i ∈ s, ∀ j ∈ s, i ≠ j →
      Disjoint (Finset.Ico (base i) (base i + size i)) (Finset.Ico (base j) (base j + size j)) := by
    intro i hi j hj hne
    rw [Finset.disjoint_left]
    intro x hx hx'
    rw [Finset.mem_Ico] at hx hx'
    rcases hap i hi j hj hne with h | h <;> omega
  have hsub : s.biUnion (fun i => Finset.Ico (base i) (base i + size i)) ⊆ Finset.range n := by
    intro x hx
    obtain ⟨i, hi, hx⟩ := Finset.mem_biUnion.1 hx
    rw [Finset.mem_Ico] at hx
    exact Finset.mem_range.2 (hx.2.trans_le (hlast i hi))
  calc ∑ i ∈ s, size i = (s.biUnion fun i => Finset.Ico (base i) (base i + size i)).card := by
        rw [Finset.card_biUnion hdisj]
        simp
    _ ≤ (Finset.range n).card := Finset.card_le_card hsub
    _ = n := Finset.card_range n

/-! ## Numbers in memory, least significant byte first -/

/-- Byte `i` of a number. -/
def byte (value i : Nat) : UInt8 := UInt8.ofNat (value / 256 ^ i)

/-- The 16-bit number at an address. -/
def load16 (mem : Nat → UInt8) (a : Nat) : Nat := (mem a).toNat + 256 * (mem (a + 1)).toNat

theorem load16_fill {mem : Nat → UInt8} {value : Nat} (h : value < 2 ^ 16) :
    load16 (fill mem a 2 (byte value)) a = value := by
  have h0 : fill mem a 2 (byte value) a = byte value 0 := by
    rw [fill, if_pos (by omega), Nat.sub_self]
  have h1 : fill mem a 2 (byte value) (a + 1) = byte value 1 := by
    rw [fill, if_pos (by omega), Nat.add_sub_cancel_left]
  rw [load16, h0, h1, byte, byte, UInt8.toNat_ofNat', UInt8.toNat_ofNat']
  omega

/-- A load does not see writes elsewhere. -/
theorem load16_fill_of_disjoint {mem data : Nat → UInt8} (h : a + 2 ≤ b ∨ b + n ≤ a) :
    load16 (fill mem b n data) a = load16 mem a := by
  rw [load16, fill_of_not (by omega), fill_of_not (by omega), load16]

/-- The number of `n` bytes at an address. -/
def loadLe (mem : Nat → UInt8) (a n : Nat) : Nat :=
  ((List.range n).map fun i => (mem (a + i)).toNat * 256 ^ i).sum

theorem loadLe_succ (mem : Nat → UInt8) (a n : Nat) :
    loadLe mem a (n + 1) = loadLe mem a n + (mem (a + n)).toNat * 256 ^ n := by
  simp [loadLe, List.range_succ]

theorem loadLe_congr {mem mem' : Nat → UInt8} (h : ∀ x, a ≤ x → x < a + n → mem' x = mem x) :
    loadLe mem' a n = loadLe mem a n := by
  unfold loadLe
  refine congrArg List.sum (List.map_congr_left fun i hi => ?_)
  rw [List.mem_range] at hi
  rw [h (a + i) (by omega) (by omega)]

/-- The bytes of a number are the number, as far as there is room for it. -/
theorem loadLe_fill (mem : Nat → UInt8) (a n value : Nat) :
    loadLe (fill mem a n (byte value)) a n = value % 256 ^ n := by
  have hbytes : ∀ m ≤ n, loadLe (fill mem a n (byte value)) a m = value % 256 ^ m := by
    intro m hm
    induction m with
    | zero => simp [loadLe, Nat.mod_one]
    | succ m ih =>
        have hbyte : (fill mem a n (byte value) (a + m)).toNat = value / 256 ^ m % 256 := by
          rw [fill, if_pos (by omega), Nat.add_sub_cancel_left, byte, UInt8.toNat_ofNat']
        rw [loadLe_succ, ih (by omega), hbyte, Nat.mod_pow_succ, Nat.mul_comm]
  exact hbytes n (Nat.le_refl n)

theorem loadLe_lt (mem : Nat → UInt8) (a n : Nat) : loadLe mem a n < 256 ^ n := by
  induction n with
  | zero => simp [loadLe]
  | succ n ih =>
      have hbyte : (mem (a + n)).toNat ≤ 255 := Nat.le_of_lt_succ (mem (a + n)).toNat_lt
      rw [loadLe_succ, Nat.pow_succ]
      calc loadLe mem a n + (mem (a + n)).toNat * 256 ^ n
          ≤ loadLe mem a n + 255 * 256 ^ n := Nat.add_le_add_left (Nat.mul_le_mul_right _ hbyte) _
        _ < 256 ^ n * 256 := by omega

/-- The low bytes of a number. -/
theorem loadLe_mod (mem : Nat → UInt8) (a m n : Nat) :
    loadLe mem a (m + n) % 256 ^ m = loadLe mem a m := by
  induction n with
  | zero => exact Nat.mod_eq_of_lt (loadLe_lt mem a m)
  | succ n ih =>
      rw [← Nat.add_assoc, loadLe_succ, Nat.pow_add, Nat.mul_left_comm,
        Nat.add_mul_mod_self_left, ih]

end SmallAllocators.Memory
