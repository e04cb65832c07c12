/-
SmallAllocators.Quota.Lease — when `quota_lease` turns a lease down.

The header says that it does so when there is not enough quota. The loop
asks the source for `QUOTA_USE_MIN`, for a half of it, for a quarter of it
and so on, as long as that covers what the lease is short of; it never asks
for what the lease is short of itself. A source that has that much, and less
than the last request, is overlooked.
-/
import SmallAllocators.Quota.Lessor

namespace SmallAllocators

/-- The units that the source can still give. -/
def freeUnits (value : Nat) : Nat := totalInUnits value - usedInUnits value

/-- The lessor has too little for the lease, and all that is left in the source would not do
either. -/
structure OutOfQuota (lessor : QuotaLessor) (source size : Nat) : Prop where
  exceeds : quotaAvailable lessor < size
  short : freeUnits source < ceilUnits (size - quotaAvailable lessor)

/-- The lease fails only for lack of quota. -/
def LeaseComplete (lessor : QuotaLessor) (source size : Nat) : Prop :=
  ∀ lessor' source', quotaLease lessor source size = some (none, lessor', source') →
  OutOfQuota lessor source size

/-- The source has what the lease is short of, but not the least of `QUOTA_USE_MIN`, its half, its
quarter and so on that covers it. (A sum of units that reaches 2^32 is left to the assertion of
`quota_use`.) -/
def Overlooked (lessor : QuotaLessor) (source size : Nat) : Prop :=
  ∃ k, quotaUseMin / 2 ^ (k + 1) < size - quotaAvailable lessor ∧
    size - quotaAvailable lessor ≤ quotaUseMin / 2 ^ k ∧
    ceilUnits (size - quotaAvailable lessor) ≤ freeUnits source ∧
    freeUnits source < ceilUnits (quotaUseMin / 2 ^ k) ∧
    usedInUnits source + ceilUnits quotaUseMin < 2 ^ 32

/-! ## The loop -/

section Loop

variable {value required use k : Nat}

/-- The last of the halves that covers what is required. -/
theorem exists_last_half (hpos : 1 ≤ required) (use : Nat) (hle : required ≤ use) :
    ∃ k, use / 2 ^ (k + 1) < required ∧ required ≤ use / 2 ^ k := by
  induction use using Nat.strong_induction_on with
  | h use ih =>
      by_cases hhalf : use / 2 < required
      · exact ⟨0, by simpa using hhalf, by simpa using hle⟩
      · obtain ⟨k, hlt, hk⟩ := ih (use / 2) (by omega) (Nat.le_of_not_lt hhalf)
        rw [Nat.div_div_eq_div_mul, ← Nat.pow_succ'] at hlt hk
        exact ⟨k + 1, hlt, hk⟩

/-- The loop fails when the last of its requests does. -/
theorem leaseLoop_fails_iff {source' : Nat} (hpos : 1 ≤ required) (rounds : Nat)
    (huse : use < 2 ^ rounds) (hmax : use ≤ quotaMax)
    (hfits : usedInUnits value + ceilUnits use < 2 ^ 32) (hlast : use / 2 ^ (k + 1) < required)
    (hk : required ≤ use / 2 ^ k) :
    leaseLoop required (rounds + 1) use value = some (none, source') ↔
      source' = value ∧ totalInUnits value < usedInUnits value + ceilUnits (use / 2 ^ k) := by
  induction k generalizing use rounds with
  | zero =>
      rw [Nat.pow_zero, Nat.div_one] at hk ⊢
      obtain ⟨rounds, rfl⟩ :=
        Nat.exists_eq_add_one_of_ne_zero (show rounds ≠ 0 by rintro rfl; omega)
      rw [leaseLoop, if_pos hk, quotaUse_eq (hpos.trans hk) hmax hfits]
      split
      · -- the half does not cover it any more
        next hfail =>
        have hend : ¬ required ≤ use / 2 := by simpa using hlast
        simp only [Option.bind_eq_bind, Option.bind_some]
        rw [leaseLoop, if_neg hend]
        simp [hfail, eq_comm]
      · next hroom => simp [hroom]
  | succ k ih =>
      have hhalves (j : Nat) : use / 2 ^ (j + 1) = use / 2 / 2 ^ j := by
        rw [Nat.div_div_eq_div_mul, ← Nat.pow_succ']
      rw [hhalves] at hlast hk ⊢
      have hmore' : required ≤ use / 2 := hk.trans (Nat.div_le_self _ _)
      have hmore : required ≤ use := hmore'.trans (Nat.div_le_self _ _)
      have hunits := ceilUnits_mono (Nat.div_le_self use 2)
      obtain ⟨rounds, rfl⟩ :=
        Nat.exists_eq_add_one_of_ne_zero (show rounds ≠ 0 by rintro rfl; omega)
      rw [leaseLoop, if_pos hmore, quotaUse_eq (hpos.trans hmore) hmax hfits]
      split
      · -- the next round asks for the half
        have hhalf : use / 2 < 2 ^ rounds := by
          rw [Nat.pow_succ] at huse
          omega
        simp only [Option.bind_eq_bind, Option.bind_some]
        exact ih rounds hhalf (by omega) (by omega) hlast hk
      · -- what is granted here covers the smaller requests
        next hroom =>
        have hless := ceilUnits_mono (Nat.div_le_self (use / 2) (2 ^ k))
        simp only [Option.bind_eq_bind, Option.bind_some]
        constructor
        · intro h
          cases h
        · rintro ⟨-, hlt⟩
          omega

/-- A sum of units that reaches 2^32 fails the assertion of `quota_use` in the first round. -/
theorem leaseLoop_asserts (hmore : required ≤ use) (hmax : use ≤ quotaMax) (rounds : Nat)
    (hwraps : 2 ^ 32 ≤ usedInUnits value + ceilUnits use) :
    leaseLoop required (rounds + 1) use value = none := by
  rw [leaseLoop, if_pos hmore, quotaUse_asserts hmax hwraps]
  rfl

end Loop

/-! ## The lease -/

section Lease

variable {lessor lessor' : QuotaLessor} {source source' size : Nat}

/-- A lease that the lessor cannot serve goes to the loop, with what it is short of. -/
theorem quotaLease_eq (hle : lessor.leased ≤ lessor.used) (hmax : lessor.used ≤ quotaMax)
    (hsize : size < 2 ^ 63) (hshort : quotaAvailable lessor < size) :
    quotaLease lessor source size = some (none, lessor', source') ↔ lessor' = lessor ∧
      leaseLoop (size - quotaAvailable lessor) 65
        (max (size - quotaAvailable lessor) quotaUseMin) source =
        some (none, source') := by
  have havailable := quotaAvailable_eq hle hmax
  have hword : quotaMax + 2 ^ 63 < sizeMax := by decide
  have hslow : ¬ (lessor.leased + size) % sizeMax ≤ lessor.used := by
    rw [Nat.mod_eq_of_lt (by omega)]
    omega
  have hrequired : (size + lessor.leased + (sizeMax - lessor.used)) % sizeMax =
      size - quotaAvailable lessor := by
    rw [lessor_required hsize hmax hle (by omega)]
    omega
  rw [quotaLease, if_neg hslow]
  dsimp only
  rw [hrequired, ite_eq_max]
  cases leaseLoop (size - quotaAvailable lessor) 65
    (max (size - quotaAvailable lessor) quotaUseMin) source with
  | none => simp
  | some r =>
      obtain ⟨taken, source₁⟩ := r
      cases taken with
      | none => simp [eq_comm]
      | some taken => simp

/-- The lessor serves a lease of what it has available itself. -/
theorem quotaLease_available (hle : lessor.leased ≤ lessor.used) (hmax : lessor.used ≤ quotaMax)
    (hroom : size ≤ quotaAvailable lessor) :
    quotaLease lessor source size ≠ some (none, lessor', source') := by
  rw [quotaAvailable_eq hle hmax] at hroom
  have hword : quotaMax < sizeMax := by decide
  have hfast : (lessor.leased + size) % sizeMax ≤ lessor.used := by
    rw [Nat.mod_eq_of_lt (by omega)]
    omega
  rw [quotaLease, if_pos hfast]
  intro h
  cases h

/-- More than `QUOTA_USE_MIN` is asked for at once, and only once. -/
theorem leaseLoop_large (hsource : source < 2 ^ 64) {required : Nat}
    (hlarge : quotaUseMin < required) (hsize : required < 2 ^ 64)
    (hfail : leaseLoop required 65 required source = some (none, source')) :
    freeUnits source < ceilUnits required := by
  have hpos : 1 ≤ required := by omega
  have htotal : totalInUnits source < 2 ^ 32 := by
    rw [totalInUnits_eq]
    omega
  rcases Nat.lt_or_ge quotaMax required with habove | hmax
  · have hunits := lt_ceilUnits habove
    rw [freeUnits]
    rw [uint32Max] at hunits
    omega
  · by_cases hfits : usedInUnits source + ceilUnits required < 2 ^ 32
    · have hhalf : required / 2 ^ (0 + 1) < required := by
        rw [Nat.zero_add, Nat.pow_one]
        omega
      obtain ⟨-, hlt⟩ := (leaseLoop_fails_iff hpos 64 hsize hmax hfits hhalf (by simp)).1 hfail
      have hunits := ceilUnits_ne_zero.2 hpos
      rw [Nat.pow_zero, Nat.div_one] at hlt
      rw [freeUnits]
      omega
    · rw [leaseLoop_asserts (Nat.le_refl _) hmax 64 (Nat.le_of_not_lt hfits)] at hfail
      cases hfail

/-- Up to `QUOTA_USE_MIN`, the last half that covers what is required decides. -/
theorem leaseLoop_small {required k : Nat} (hpos : 1 ≤ required)
    (hlast : quotaUseMin / 2 ^ (k + 1) < required) (hk : required ≤ quotaUseMin / 2 ^ k) :
    leaseLoop required 65 quotaUseMin source = some (none, source') ↔
      source' = source ∧ usedInUnits source + ceilUnits quotaUseMin < 2 ^ 32 ∧
        freeUnits source < ceilUnits (quotaUseMin / 2 ^ k) := by
  have hmin : quotaUseMin ≤ quotaMax := by decide
  have hmore : required ≤ quotaUseMin := hk.trans (Nat.div_le_self _ _)
  have hunits : ceilUnits (quotaUseMin / 2 ^ k) ≠ 0 := ceilUnits_ne_zero.2 (hpos.trans hk)
  by_cases hfits : usedInUnits source + ceilUnits quotaUseMin < 2 ^ 32
  · rw [leaseLoop_fails_iff hpos 64 (by decide) hmin hfits hlast hk, freeUnits]
    simp only [hfits, true_and, and_congr_right_iff]
    omega
  · rw [leaseLoop_asserts hmore hmin 64 (Nat.le_of_not_lt hfits)]
    exact ⟨fun h => (by cases h), fun h => absurd h.2.1 hfits⟩

/-- **A lease fails only for lack of quota, unless the source is overlooked**, for every lessor,
every state of the source and every size. -/
theorem quotaLease_complete_iff (hle : lessor.leased ≤ lessor.used) (hmax : lessor.used ≤ quotaMax)
    (hsource : source < 2 ^ 64) (hsize : size < 2 ^ 63) :
    LeaseComplete lessor source size ↔ ¬ Overlooked lessor source size := by
  constructor
  · rintro hcomplete ⟨k, hlast, hk, hhas, hless, hfits⟩
    have hshort : quotaAvailable lessor < size := Nat.sub_pos_iff_lt.1 (Nat.zero_lt_of_lt hlast)
    have hmin : size - quotaAvailable lessor ≤ quotaUseMin := hk.trans (Nat.div_le_self _ _)
    have hloop :
        leaseLoop (size - quotaAvailable lessor) 65 quotaUseMin source = some (none, source) :=
      (leaseLoop_small (by omega) hlast hk).2 ⟨rfl, hfits, hless⟩
    rw [← Nat.max_eq_right hmin] at hloop
    have hout := hcomplete _ _ ((quotaLease_eq hle hmax hsize hshort).2 ⟨rfl, hloop⟩)
    exact Nat.not_lt.2 hhas hout.short
  · intro hnot lessor' source' hfail
    by_cases hshort : quotaAvailable lessor < size
    · refine ⟨hshort, ?_⟩
      obtain ⟨-, hloop⟩ := (quotaLease_eq hle hmax hsize hshort).1 hfail
      rcases Nat.lt_or_ge quotaUseMin (size - quotaAvailable lessor) with hlarge | hmin
      · rw [Nat.max_eq_left (Nat.le_of_lt hlarge)] at hloop
        exact leaseLoop_large hsource hlarge (by omega) hloop
      · rw [Nat.max_eq_right hmin] at hloop
        have hpos : 1 ≤ size - quotaAvailable lessor := by omega
        obtain ⟨k, hlast, hk⟩ := exists_last_half hpos _ hmin
        obtain ⟨-, hfits, hless⟩ := (leaseLoop_small hpos hlast hk).1 hloop
        by_contra hhas
        exact hnot ⟨k, hlast, hk, Nat.le_of_not_lt hhas, hless, hfits⟩
    · exact absurd hfail (quotaLease_available hle hmax (Nat.le_of_not_lt hshort))

/-- A new lessor whose source is used up: a lease of one unit fails, and the source has nothing
left. -/
theorem quotaLease_complete_none_left :
    quotaLease { used := 0, leased := 0 } (quotaPack 1024 1024) 1024 =
        some (none, { used := 0, leased := 0 }, quotaPack 1024 1024) ∧
      LeaseComplete { used := 0, leased := 0 } (quotaPack 1024 1024) 1024 := by
  refine ⟨by decide, (quotaLease_complete_iff (by decide) (by decide) (by decide) (by decide)).2 ?_⟩
  rintro ⟨k, -, -, hhas, -⟩
  exact absurd hhas (by decide)

/-- 700 of 1024 units are left, and a lease is short of 600000 bytes, which are 586 units: the only
request that covers it is the first, of 1024 units. -/
theorem quotaLease_overlooks :
    quotaLease { used := 0, leased := 0 } (quotaPack 1024 324) 600000 =
        some (none, { used := 0, leased := 0 }, quotaPack 1024 324) ∧
      ceilUnits 600000 ≤ freeUnits (quotaPack 1024 324) ∧
      ¬ LeaseComplete { used := 0, leased := 0 } (quotaPack 1024 324) 600000 := by
  have hfails : quotaLease { used := 0, leased := 0 } (quotaPack 1024 324) 600000 =
      some (none, { used := 0, leased := 0 }, quotaPack 1024 324) := by decide
  refine ⟨hfails, by decide, fun hcomplete => ?_⟩
  have hshort := (hcomplete _ _ hfails).short
  exact absurd hshort (by decide)

end Lease

end SmallAllocators
