/-
SmallAllocators.Quota.Model — the memory limit of `include/small/quota.h`.

A quota is one 64-bit word: the limit in its high half and the amount in use
in its low half, both in units of `QUOTA_UNIT_SIZE` bytes. Each of the three
calls that change it is a loop that loads the word, computes a new one from
it (`QuotaOp.attempt`), and tries to exchange them. A call that runs alone
goes through the loop once (`QuotaOp.run`); the steps of calls that run
concurrently are in `Quota.Runs`.

A function returns `none` when an `assert` of the source fails.
-/
import Mathlib.Data.Nat.Bitwise
import SmallAllocators.Util

namespace SmallAllocators

/-- `QUOTA_UNIT_SIZE`. -/
def quotaUnitSize : Nat := 1024

/-- `UINT32_MAX`. -/
def uint32Max : Nat := 2 ^ 32 - 1

/-- `QUOTA_MAX`, for a 64-bit `size_t`. -/
def quotaMax : Nat := quotaUnitSize * uint32Max

/-- The conversion of a size to a 32-bit number of units, as all three calls make it. -/
def quotaUnits (size : Nat) : Nat := (size + (quotaUnitSize - 1)) % sizeMax / quotaUnitSize % 2 ^ 32

/-- `((uint64_t) total_in_units << 32) | used_in_units`. -/
def quotaPack (total used : Nat) : Nat := total <<< 32 ||| used

/-- `value >> 32`. -/
def totalInUnits (value : Nat) : Nat := value >>> 32

/-- `value & UINT32_MAX`. -/
def usedInUnits (value : Nat) : Nat := value &&& uint32Max

def quotaInit (total : Nat) : Nat :=
  ((total + (quotaUnitSize - 1)) % sizeMax / quotaUnitSize) <<< 32 % sizeMax

def quotaTotal (value : Nat) : Nat := totalInUnits value * quotaUnitSize

def quotaUsed (value : Nat) : Nat := usedInUnits value * quotaUnitSize

/-! ## The loops -/

/-- What one round of a loop does with the value it loaded. -/
inductive Attempt where
  | fail
  | exchange (newValue : Nat)
deriving DecidableEq, Repr

def quotaSetAttempt (newTotalInUnits value : Nat) : Option Attempt :=
  if newTotalInUnits < usedInUnits value then some .fail
  else some (.exchange (quotaPack newTotalInUnits (usedInUnits value)))

def quotaUseAttempt (sizeInUnits value : Nat) : Option Attempt := do
  let newUsedInUnits := (usedInUnits value + sizeInUnits) % 2 ^ 32
  guard (newUsedInUnits > usedInUnits value)
  if newUsedInUnits > totalInUnits value then some .fail
  else some (.exchange (quotaPack (totalInUnits value) newUsedInUnits))

def quotaReleaseAttempt (sizeInUnits value : Nat) : Option Attempt := do
  guard (sizeInUnits ≤ usedInUnits value)
  some (.exchange (quotaPack (totalInUnits value) (usedInUnits value - sizeInUnits)))

/-- A call that changes the quota. -/
inductive QuotaOp where
  | set (newTotal : Nat)
  | use (size : Nat)
  | release (size : Nat)
deriving DecidableEq, Repr

/-- The argument of the call. -/
def QuotaOp.size : QuotaOp → Nat
  | .set newTotal => newTotal
  | .use size => size
  | .release size => size

/-- What the call does before its loop: `false` if it returns -1 at once. -/
def QuotaOp.start : QuotaOp → Option Bool
  | .set newTotal => do
    guard (newTotal ≤ quotaMax)
    some true
  | .use size =>
    if size > quotaMax then some false
    else do
      guard (quotaUnits size ≠ 0)
      some true
  | .release size => do
    guard (size < quotaMax)
    guard (quotaUnits size ≠ 0)
    some true

/-- One round of the loop, on the value that it loaded. -/
def QuotaOp.attempt (value : Nat) : QuotaOp → Option Attempt
  | .set newTotal => quotaSetAttempt (quotaUnits newTotal) value
  | .use size => quotaUseAttempt (quotaUnits size) value
  | .release size => quotaReleaseAttempt (quotaUnits size) value

/-- What the call returns when it succeeds: its argument, rounded up. -/
def QuotaOp.result (op : QuotaOp) : Nat := quotaUnits op.size * quotaUnitSize

/-- The call with no other one beside it. It returns `none` for -1, and the new value. -/
def QuotaOp.run (value : Nat) (op : QuotaOp) : Option (Option Nat × Nat) := do
  let enters ← op.start
  if enters then
    match ← op.attempt value with
    | .fail => some (none, value)
    | .exchange newValue => some (some op.result, newValue)
  else some (none, value)

def quotaUse (value size : Nat) : Option (Option Nat × Nat) := (QuotaOp.use size).run value

def quotaRelease (value size : Nat) : Option (Option Nat × Nat) := (QuotaOp.release size).run value

/-! ## The two halves of the word -/

section Halves

variable {total used value size : Nat}

theorem quotaPack_eq (hu : used < 2 ^ 32) : quotaPack total used = total * 2 ^ 32 + used := by
  rw [quotaPack, ← Nat.shiftLeft_add_eq_or_of_lt hu, Nat.shiftLeft_eq]

theorem usedInUnits_eq (value : Nat) : usedInUnits value = value % 2 ^ 32 :=
  Nat.and_two_pow_sub_one_eq_mod value 32

theorem totalInUnits_eq (value : Nat) : totalInUnits value = value / 2 ^ 32 :=
  Nat.shiftRight_eq_div_pow value 32

@[simp] theorem totalInUnits_pack (hu : used < 2 ^ 32) :
    totalInUnits (quotaPack total used) = total := by
  rw [totalInUnits_eq, quotaPack_eq hu]
  omega

@[simp] theorem usedInUnits_pack (hu : used < 2 ^ 32) :
    usedInUnits (quotaPack total used) = used := by
  rw [usedInUnits_eq, quotaPack_eq hu]
  omega

theorem usedInUnits_lt (value : Nat) : usedInUnits value < 2 ^ 32 := by
  rw [usedInUnits_eq]
  exact Nat.mod_lt _ (by decide)

/-- The word is its two halves. -/
theorem quotaPack_halves (value : Nat) :
    quotaPack (totalInUnits value) (usedInUnits value) = value := by
  rw [quotaPack_eq (usedInUnits_lt value), totalInUnits_eq, usedInUnits_eq]
  omega

/-- A size in units, rounded up. -/
def ceilUnits (size : Nat) : Nat := (size + (quotaUnitSize - 1)) / quotaUnitSize

/-- Nothing wraps around for the sizes that the calls accept. -/
theorem quotaUnits_eq (hsize : size ≤ quotaMax) : quotaUnits size = ceilUnits size := by
  have h1 : size + (quotaUnitSize - 1) < sizeMax := by
    simp only [quotaMax, quotaUnitSize, uint32Max, sizeMax] at *
    omega
  have h2 : (size + (quotaUnitSize - 1)) / quotaUnitSize < 2 ^ 32 := by
    simp only [quotaMax, quotaUnitSize, uint32Max] at *
    omega
  rw [quotaUnits, ceilUnits, Nat.mod_eq_of_lt h1, Nat.mod_eq_of_lt h2]

theorem quotaUnits_lt (size : Nat) : quotaUnits size < 2 ^ 32 := Nat.mod_lt _ (by decide)

theorem ceilUnits_ne_zero : ceilUnits size ≠ 0 ↔ 1 ≤ size := by
  simp only [ceilUnits, quotaUnitSize]
  omega

end Halves

end SmallAllocators
