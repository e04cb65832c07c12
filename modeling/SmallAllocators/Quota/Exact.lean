/-
SmallAllocators.Quota.Exact — what `quota_use` and `quota_release` return.

One call at a time, over the whole range of words and sizes. The check
against `QUOTA_MAX` keeps the number of units below 2^32, but the sum with
the units already in use is made in 32 bits: where it wraps around, the
assertion of `quota_use` fails before the sum is compared with the limit.
The two calls check their argument differently, too: `quota_use` accepts
`QUOTA_MAX` itself and `quota_release` does not.
-/
import SmallAllocators.Quota.Model

namespace SmallAllocators

variable {value size : Nat}

/-! ## The calls, by the outcome -/

theorem ceilUnits_le (hsize : size ≤ quotaMax) : ceilUnits size ≤ uint32Max := by
  simp only [ceilUnits, quotaMax, quotaUnitSize] at *
  omega

theorem lt_ceilUnits (hsize : quotaMax < size) : uint32Max < ceilUnits size := by
  simp only [ceilUnits, quotaMax, quotaUnitSize] at *
  omega

/-- A size above `QUOTA_MAX` is turned down before the word is read. -/
theorem quotaUse_above_max (hsize : quotaMax < size) :
    quotaUse value size = some (none, value) := by
  simp [quotaUse, QuotaOp.run, QuotaOp.start, hsize]

/-- The units wrap around: the assertion of the loop fails. -/
theorem quotaUse_asserts (hsize : size ≤ quotaMax)
    (hwraps : 2 ^ 32 ≤ usedInUnits value + ceilUnits size) :
    quotaUse value size = none := by
  have hused := usedInUnits_lt value
  have hunits := quotaUnits_lt size
  rw [← quotaUnits_eq hsize] at hwraps
  have hnot : ¬(usedInUnits value + quotaUnits size) % 2 ^ 32 > usedInUnits value := by omega
  have hattempt : (QuotaOp.use size).attempt value = none := by
    rw [QuotaOp.attempt, quotaUseAttempt, guard, if_neg hnot]
    rfl
  have hstart : (QuotaOp.use size).start = some true := by
    have : quotaUnits size ≠ 0 := by omega
    simp [QuotaOp.start, Nat.not_lt.2 hsize, guard, this]
  simp [quotaUse, QuotaOp.run, hstart, hattempt]

/-- The limit decides where nothing wraps around. -/
theorem quotaUse_eq (hpos : 1 ≤ size) (hsize : size ≤ quotaMax)
    (hfits : usedInUnits value + ceilUnits size < 2 ^ 32) :
    quotaUse value size =
      if totalInUnits value < usedInUnits value + ceilUnits size then some (none, value)
      else some (some (ceilUnits size * quotaUnitSize),
        quotaPack (totalInUnits value) (usedInUnits value + ceilUnits size)) := by
  have hunits := ceilUnits_ne_zero.2 hpos
  have hstart : (QuotaOp.use size).start = some true := by
    simp [QuotaOp.start, Nat.not_lt.2 hsize, guard, quotaUnits_eq hsize, hunits]
  have hmore : usedInUnits value + ceilUnits size > usedInUnits value := by omega
  have hattempt : (QuotaOp.use size).attempt value =
      if totalInUnits value < usedInUnits value + ceilUnits size then some .fail
      else some
        (.exchange (quotaPack (totalInUnits value) (usedInUnits value + ceilUnits size))) := by
    simp only [QuotaOp.attempt, quotaUseAttempt, quotaUnits_eq hsize, Nat.mod_eq_of_lt hfits, guard,
      if_pos hmore, pure, Option.bind_eq_bind, Option.bind_some, gt_iff_lt]
  simp only [quotaUse, QuotaOp.run, hstart, hattempt, Option.bind_eq_bind, Option.bind_some,
    if_true]
  split
  · rfl
  · simp [QuotaOp.result, QuotaOp.size, quotaUnits_eq hsize]

theorem quotaRelease_eq (hpos : 1 ≤ size) (hsize : size < quotaMax)
    (hle : ceilUnits size ≤ usedInUnits value) :
    quotaRelease value size = some (some (ceilUnits size * quotaUnitSize),
      quotaPack (totalInUnits value) (usedInUnits value - ceilUnits size)) := by
  have hunits := ceilUnits_ne_zero.2 hpos
  simp [quotaRelease, QuotaOp.run, QuotaOp.start, QuotaOp.attempt, quotaReleaseAttempt,
    guard, hsize, QuotaOp.result, QuotaOp.size, quotaUnits_eq (Nat.le_of_lt hsize), hunits, hle]

theorem quotaRelease_asserts (hsize : quotaMax ≤ size) : quotaRelease value size = none := by
  simp [quotaRelease, QuotaOp.run, QuotaOp.start, guard, Nat.not_lt.2 hsize]

/-- What is used can be released, and that restores the word. -/
theorem quotaRelease_pack {total used : Nat} (hpos : 1 ≤ size) (hsize : size < quotaMax)
    (hfits : used + ceilUnits size < 2 ^ 32) :
    quotaRelease (quotaPack total (used + ceilUnits size)) size =
      some (some (ceilUnits size * quotaUnitSize), quotaPack total used) := by
  have hle : ceilUnits size ≤ usedInUnits (quotaPack total (used + ceilUnits size)) := by
    rw [usedInUnits_pack hfits]
    omega
  rw [quotaRelease_eq hpos hsize hle, totalInUnits_pack hfits, usedInUnits_pack hfits,
    Nat.add_sub_cancel]

/-! ## Exact inverses -/

/-- The limit is exact at a word and a size, and a release undoes a use. -/
structure QuotaExact (value size : Nat) : Prop where
  /-- -1, and the word as it was, exactly when the request exceeds the limit. -/
  turned_down : quotaUse value size = some (none, value) ↔
    totalInUnits value < usedInUnits value + ceilUnits size
  restored : usedInUnits value + ceilUnits size ≤ totalInUnits value →
    ∃ value', quotaUse value size = some (some (ceilUnits size * quotaUnitSize), value') ∧
      totalInUnits value' = totalInUnits value ∧
      usedInUnits value' = usedInUnits value + ceilUnits size ∧
      quotaRelease value' size = some (some (ceilUnits size * quotaUnitSize), value)

/-- Where the sum of units does not wrap around, and the size is not the one that only
`quota_use` accepts, the limit is exact. -/
theorem QuotaExact.of_fits (hpos : 1 ≤ size) (hsize : size < quotaMax)
    (hfits : usedInUnits value + ceilUnits size < 2 ^ 32) : QuotaExact value size := by
  have huse := quotaUse_eq hpos (Nat.le_of_lt hsize) hfits
  constructor
  · rw [huse]
    split <;> simp [*]
  · intro hle
    refine ⟨_, by rw [huse, if_neg (Nat.not_lt.2 hle)], totalInUnits_pack hfits,
      usedInUnits_pack hfits, ?_⟩
    rw [quotaRelease_pack hpos hsize hfits, quotaPack_halves]

/-- A request that exceeds the limit in a sum that does not wrap around is turned down. -/
theorem QuotaExact.of_exceeds (hpos : 1 ≤ size) (hsize : size ≤ quotaMax)
    (hfits : usedInUnits value + ceilUnits size < 2 ^ 32)
    (hexceeds : totalInUnits value < usedInUnits value + ceilUnits size) :
    QuotaExact value size := by
  constructor
  · rw [quotaUse_eq hpos hsize hfits, if_pos hexceeds]
    simp [hexceeds]
  · omega

/-- The calls are exact inverses with exact limits at the sizes above `QUOTA_MAX`, which are
turned down, and where the sum of units stays below 2^32, but for a use of the whole
`QUOTA_MAX`: that one cannot be released. -/
theorem quota_exact_iff (hvalue : value < 2 ^ 64) (hpos : 1 ≤ size) :
    QuotaExact value size ↔ quotaMax < size ∨
      (usedInUnits value + ceilUnits size < 2 ^ 32 ∧
        ¬(size = quotaMax ∧ totalInUnits value = uint32Max)) := by
  have htotal : totalInUnits value ≤ uint32Max := by
    rw [totalInUnits_eq, uint32Max]
    omega
  constructor
  · intro h
    by_contra hnot
    obtain ⟨hmax, hbad⟩ := not_or.1 hnot
    have hmax := Nat.le_of_not_lt hmax
    by_cases hfits : usedInUnits value + ceilUnits size < 2 ^ 32
    · -- the use succeeds, and its release does not
      have hwhole := Classical.not_not.1 (not_and.1 hbad hfits)
      have hunits := ceilUnits_le hmax
      have hall : usedInUnits value + ceilUnits size ≤ totalInUnits value := by
        rw [hwhole.2]
        rw [uint32Max] at *
        omega
      obtain ⟨value', -, -, -, hrelease⟩ := h.restored hall
      rw [quotaRelease_asserts (Nat.le_of_eq hwhole.1.symm)] at hrelease
      cases hrelease
    · -- the request exceeds the limit, and the assertion fails
      have hwraps := Nat.le_of_not_lt hfits
      have hexceeds : totalInUnits value < usedInUnits value + ceilUnits size := by
        rw [uint32Max] at htotal
        omega
      have huse := h.turned_down.2 hexceeds
      rw [quotaUse_asserts hmax hwraps] at huse
      cases huse
  · rintro (habove | ⟨hfits, hnot⟩)
    · have hunits := lt_ceilUnits habove
      have hexceeds : totalInUnits value < usedInUnits value + ceilUnits size := by omega
      exact ⟨by simp [quotaUse_above_max habove, hexceeds], fun h => by omega⟩
    · have hmax : size ≤ quotaMax := by
        by_contra habove
        have hunits := lt_ceilUnits (Nat.lt_of_not_le habove)
        rw [uint32Max] at hunits
        omega
      rcases Nat.lt_or_eq_of_le hmax with hlt | heq
      · exact .of_fits hpos hlt hfits
      · have hlimit : totalInUnits value ≠ uint32Max := fun h => hnot ⟨heq, h⟩
        have hunits : ceilUnits size = uint32Max := by rw [heq]; rfl
        exact .of_exceeds hpos hmax hfits (by omega)

/-- A quota of 4 KB with 1 KB in use, and a request for 2 KB. -/
theorem quota_exact_iff_example : QuotaExact (quotaPack 4 1) 2048 :=
  (quota_exact_iff (by decide) (by decide)).2 (.inr (by decide))

/-- One unit in use of two, and a request for `QUOTA_MAX`: -1 is due, and the assertion fails.
A quota with the largest limit and none in use: `quota_use` grants `QUOTA_MAX`, and
`quota_release` does not take it back. -/
theorem quota_not_exact :
    (usedInUnits (quotaPack 2 1) ≤ totalInUnits (quotaPack 2 1) ∧ quotaMax < sizeMax ∧
      totalInUnits (quotaPack 2 1) < usedInUnits (quotaPack 2 1) + ceilUnits quotaMax ∧
      quotaUse (quotaPack 2 1) quotaMax = none ∧ ¬QuotaExact (quotaPack 2 1) quotaMax) ∧
    quotaUse (quotaPack uint32Max 0) quotaMax =
    some (some quotaMax, quotaPack uint32Max uint32Max) ∧
    quotaRelease (quotaPack uint32Max uint32Max) quotaMax = none := by
  refine ⟨⟨by decide, by decide, by decide, by decide, fun h => ?_⟩, by decide, by decide⟩
  have hnone : quotaUse (quotaPack 2 1) quotaMax = none := by decide
  have huse := h.turned_down.2 (by decide)
  rw [hnone] at huse
  cases huse

end SmallAllocators
