/-
SmallAllocators.Quota.Lessor — `include/small/quota_lessor.h`.

A lessor takes large amounts from a shared quota and leases them in bytes.
What it has and has not leased stays below two times `QUOTA_USE_MIN`: a
lease takes no more than that from the source, and the end of a lease that
reaches the limit gives back all but a little more than `QUOTA_USE_MIN`.

The source is shared: between two calls of the lessor, others use it,
release what they have of it and resize it. Beside the state of the program
a `LessorState` counts, in units, what the others have, and the bytes that
are on lease.
-/
import SmallAllocators.Quota.Exact
import SmallAllocators.Quota.Runs

namespace SmallAllocators

structure QuotaLessor where
  used : Nat
  leased : Nat
deriving DecidableEq, Repr

def quotaAvailable (lessor : QuotaLessor) : Nat :=
  (lessor.used + (sizeMax - lessor.leased)) % sizeMax

/-- `QUOTA_USE_MIN`. -/
def quotaUseMin : Nat := quotaUnitSize * 1024

def quotaLessorCreate (source : Nat) : Option QuotaLessor := do
  guard (quotaTotal source ≥ quotaUseMin)
  some { used := 0, leased := 0 }

def quotaLessorDestroy (lessor : QuotaLessor) (source : Nat) : Option (QuotaLessor × Nat) :=
  if lessor.used = 0 then some (lessor, source)
  else do
    guard (lessor.used % quotaUnitSize = 0)
    let (_, source) ← quotaRelease source lessor.used
    some ({ used := 0, leased := 0 }, source)

/-- The loop of `quota_lease`, for at most the given number of rounds. It returns what it took from
the source, if anything, and the source. -/
def leaseLoop (required : Nat) : Nat → Nat → Nat → Option (Option Nat × Nat)
  | 0, _, _ => none
  | rounds + 1, use, source =>
    if use ≥ required then do
      match ← quotaUse source use with
      | (some used, source) => some (some used, source)
      | (none, source) => leaseLoop required rounds (use / 2) source
    else some (none, source)

/-- `quota_lease`. Its loop halves a 64-bit number, so that it never ends if it takes more than 65
rounds. -/
def quotaLease (lessor : QuotaLessor) (source size : Nat) :
    Option (Option Nat × QuotaLessor × Nat) :=
  if (lessor.leased + size) % sizeMax ≤ lessor.used then
    some (some size, { lessor with leased := (lessor.leased + size) % sizeMax }, source)
  else do
    let required := (size + lessor.leased + (sizeMax - lessor.used)) % sizeMax
    let use := if required > quotaUseMin then required else quotaUseMin
    match ← leaseLoop required 65 use source with
    | (some used, source) =>
      some (some size, { used := (lessor.used + used) % sizeMax,
                         leased := (lessor.leased + size) % sizeMax }, source)
    | (none, source) => some (none, lessor, source)

/-- `quota_end_lease`; `quota_release` does not return -1. -/
def quotaEndLease (lessor : QuotaLessor) (source size : Nat) :
    Option (Nat × QuotaLessor × Nat) := do
  guard (lessor.leased ≥ size)
  let leased := lessor.leased - size
  let available := (lessor.used + (sizeMax - leased)) % sizeMax
  if available ≥ 2 * quotaUseMin then
    let release := available - quotaUseMin - quotaUnitSize
    match ← quotaRelease source release with
    | (some released, source) =>
        some (size, { used := lessor.used - released, leased := leased }, source)
    | (none, _) => none
  else some (size, { lessor with leased := leased }, source)

/-! ## The lessor between others -/

/-- The lessor, its source, the units of the source that others have, and the sum of the leases
less those that ended, since the lessor was created or last destroyed. -/
structure LessorState where
  source : Nat
  lessor : QuotaLessor
  others : Nat
  lent : Nat
deriving DecidableEq, Repr

inductive LessorOp where
  | lease (size : Nat)
  | endLease (size : Nat)
  | destroy
  | other (op : QuotaOp)
deriving DecidableEq, Repr

def LessorOp.exec (s : LessorState) : LessorOp → Option LessorState
  | .lease size => do
    match ← quotaLease s.lessor s.source size with
    | (some leased, lessor, source) =>
      some { s with source := source, lessor := lessor, lent := s.lent + leased }
    | (none, lessor, source) => some { s with source := source, lessor := lessor }
  | .endLease size => do
    let (ended, lessor, source) ← quotaEndLease s.lessor s.source size
    some { s with source := source, lessor := lessor, lent := s.lent - ended }
  | .destroy => do
    let (lessor, source) ← quotaLessorDestroy s.lessor s.source
    some { s with source := source, lessor := lessor, lent := 0 }
  | .other op => do
    match ← op.run s.source with
    | (some _, source) => some { s with source := source, others := op.settle s.others }
    | (none, source) => some { s with source := source }

/-- The request does not take the units in use to 2^32. -/
def SumFits (value size : Nat) : Prop :=
  quotaMax < size ∨ usedInUnits value + ceilUnits size < 2 ^ 32

/-- The first request that a lease of `size` bytes makes when the lessor has too little. -/
def leaseRequest (lessor : QuotaLessor) (size : Nat) : Nat :=
  max (size + lessor.leased - lessor.used) quotaUseMin

/-- What the lessor and the others may call: a lease has a size that is not negative and ends at
most once, and the others release no more than they have. -/
def LessorOp.Allowed (s : LessorState) : LessorOp → Prop
  | .lease size =>
      size < 2 ^ 63 ∧
        (s.lessor.used < s.lessor.leased + size → SumFits s.source (leaseRequest s.lessor size))
  | .endLease size => size ≤ s.lessor.leased
  | .destroy => True
  | .other op => op.Client s.others ∧ ∀ size, op = .use size → SumFits s.source size

/-- The lessor is not destroyed while it has exactly `QUOTA_MAX` bytes. -/
def LessorOp.BelowMax (s : LessorState) (op : LessorOp) : Prop :=
  op = .destroy → s.lessor.used ≠ quotaMax

/-- A lessor that was just created; others may have some of the source already. -/
def LessorState.Created (s : LessorState) : Prop :=
  s.source < 2 ^ 64 ∧ quotaLessorCreate s.source = some s.lessor ∧
  s.others = usedInUnits s.source ∧ s.lent = 0

/-- Every sequence of calls. -/
def lessorMachine : Machine LessorState LessorOp where
  init := LessorState.Created
  allowed s op := op.Allowed s
  exec s op := op.exec s

/-- The sequences in which `LessorOp.BelowMax` holds of every call. -/
def belowMaxMachine : Machine LessorState LessorOp where
  init := LessorState.Created
  allowed s op := op.Allowed s ∧ op.BelowMax s
  exec s op := op.exec s

/-- The invariant of the lessor. -/
structure LessorState.Inv (s : LessorState) : Prop where
  leased : s.lessor.leased = s.lent
  le : s.lessor.leased ≤ s.lessor.used
  units : s.lessor.used % quotaUnitSize = 0
  /-- The lessor has what is in use and the others do not have. -/
  held : s.lessor.used + s.others * quotaUnitSize = quotaUsed s.source
  available : quotaAvailable s.lessor < 2 * quotaUseMin

/-! ## The calls -/

section Calls

variable {value size : Nat} {s : LessorState}

/-- A call of the others: -1 and nothing changed, or its effect. -/
theorem QuotaOp.Client.run {balance : Nat} {op : QuotaOp} (h : op.Client balance)
    (hfits : ∀ size, op = .use size → SumFits value size) (hbalance : balance ≤ usedInUnits value) :
    op.run value = some (none, value) ∨
      ∃ value', op.run value = some (some op.result, value') ∧ op.Effect value value' := by
  rcases h.start with hstart | ⟨-, hstart⟩
  · have huse : ∀ size, op = .use size → usedInUnits value + quotaUnits size < 2 ^ 32 := by
      rintro size rfl
      have hmax : size ≤ quotaMax := by
        by_contra habove
        simp [QuotaOp.start, Nat.lt_of_not_le habove] at hstart
      rw [quotaUnits_eq hmax]
      exact (hfits size rfl).resolve_left (Nat.not_lt.2 hmax)
    have hrelease : ∀ size, op = .release size → quotaUnits size ≤ usedInUnits value := by
      rintro size rfl
      exact h.2.2.trans hbalance
    obtain ⟨a, ha⟩ := QuotaOp.attempt_returns hstart huse hrelease
    cases a with
    | fail =>
        left
        simp [QuotaOp.run, hstart, ha]
    | exchange value' =>
        right
        exact ⟨value', by simp [QuotaOp.run, hstart, ha], QuotaOp.effect_of_attempt ha⟩
  · left
    simp [QuotaOp.run, hstart]

/-- A use that the limit allows. -/
theorem quotaUse_fits (hpos : 1 ≤ size) (hfits : SumFits value size) :
    quotaUse value size = some (none, value) ∨
      ∃ value', quotaUse value size = some (some (ceilUnits size * quotaUnitSize), value') ∧
        quotaUsed value' = quotaUsed value + ceilUnits size * quotaUnitSize := by
  rcases Nat.lt_or_ge quotaMax size with habove | hmax
  · exact .inl (quotaUse_above_max habove)
  · have hlt := hfits.resolve_left (Nat.not_lt.2 hmax)
    rw [quotaUse_eq hpos hmax hlt]
    split
    · exact .inl rfl
    · refine .inr ⟨_, rfl, ?_⟩
      rw [quotaUsed, quotaUsed, usedInUnits_pack hlt, Nat.add_mul]

theorem ceilUnits_mono {a b : Nat} (h : a ≤ b) : ceilUnits a ≤ ceilUnits b :=
  Nat.div_le_div_right (Nat.add_le_add_right h _)

/-- The bytes of a size rounded up to units. -/
theorem ceilUnits_bytes (size : Nat) :
    size ≤ ceilUnits size * quotaUnitSize ∧
      ceilUnits size * quotaUnitSize < size + quotaUnitSize := by
  simp only [ceilUnits, quotaUnitSize]
  omega

/-- The retry loop ends, for it halves its request. Either it took nothing, or it took from the
source a size between the one that is required and the one that it began with. -/
theorem leaseLoop_spec {required : Nat} (hpos : 1 ≤ required) (rounds use : Nat)
    (huse : use < 2 ^ rounds) (hfits : required ≤ use → SumFits value use)
    (hlarge : quotaMax < use → use / 2 < required) :
    leaseLoop required (rounds + 1) use value = some (none, value) ∨
      ∃ n value', leaseLoop required (rounds + 1) use value =
      some (some (ceilUnits n * quotaUnitSize), value') ∧
        required ≤ n ∧ n ≤ use ∧
        quotaUsed value' = quotaUsed value + ceilUnits n * quotaUnitSize := by
  induction rounds generalizing use with
  | zero =>
      left
      have hnot : ¬use ≥ required := by omega
      rw [leaseLoop, if_neg hnot]
  | succ rounds ih =>
      rw [leaseLoop]
      by_cases hmore : use ≥ required
      · rw [if_pos hmore]
        rcases quotaUse_fits (hpos.trans hmore) (hfits hmore) with hfail | ⟨value', htook, hused⟩
        · -- the next round asks for half of it
          have hhalf : use / 2 < 2 ^ rounds := by
            rw [Nat.pow_succ] at huse
            omega
          have hfits' : required ≤ use / 2 → SumFits value (use / 2) := by
            intro hagain
            have hmax : ¬quotaMax < use := fun h => by have := hlarge h; omega
            have hlt := (hfits hmore).resolve_left hmax
            have hle := ceilUnits_mono (Nat.div_le_self use 2)
            exact .inr (by omega)
          have hlarge' : quotaMax < use / 2 → use / 2 / 2 < required := by
            intro habove
            have := hlarge (by omega)
            omega
          rw [hfail]
          rcases ih (use / 2) hhalf hfits' hlarge' with hend | ⟨n, value', hend, hle, hn, hused⟩
          · exact .inl hend
          · exact .inr ⟨n, value', hend, hle, hn.trans (Nat.div_le_self use 2), hused⟩
        · right
          rw [htook]
          exact ⟨use, value', rfl, hmore, Nat.le_refl _, hused⟩
      · left
        rw [if_neg hmore]

theorem quotaUsed_le (value : Nat) : quotaUsed value ≤ quotaMax := by
  have h := usedInUnits_lt value
  simp only [quotaUsed, quotaMax, quotaUnitSize, uint32Max]
  omega

/-- What a lessor has and has not leased. -/
theorem quotaAvailable_eq {lessor : QuotaLessor} (hle : lessor.leased ≤ lessor.used)
    (hmax : lessor.used ≤ quotaMax) :
    quotaAvailable lessor = lessor.used - lessor.leased := by
  simp only [quotaAvailable, quotaMax, quotaUnitSize, uint32Max, sizeMax] at *
  omega

theorem LessorState.Inv.used_le (h : s.Inv) : s.lessor.used ≤ quotaMax := by
  have hheld := h.held
  have hmax := quotaUsed_le s.source
  omega

theorem LessorState.Inv.available_lt (h : s.Inv) :
    s.lessor.used < s.lessor.leased + 2 * quotaUseMin := by
  have havailable := h.available
  have hle := h.le
  rw [quotaAvailable_eq hle h.used_le] at havailable
  omega

theorem ite_eq_max (a b : Nat) : (if a > b then a else b) = max a b := by
  split <;> omega

/-- What a lease is short of; the expression of the source does not wrap around. -/
theorem lessor_required {lessor : QuotaLessor} (hsize : size < 2 ^ 63)
    (hmax : lessor.used ≤ quotaMax) (hle : lessor.leased ≤ lessor.used)
    (hslow : lessor.used < lessor.leased + size) :
    (size + lessor.leased + (sizeMax - lessor.used)) % sizeMax =
      size + lessor.leased - lessor.used := by
  simp only [quotaMax, quotaUnitSize, uint32Max, sizeMax] at *
  omega

theorem leaseRequest_cases (lessor : QuotaLessor) (size : Nat) :
    (size + lessor.leased - lessor.used ≤ quotaUseMin ∧ leaseRequest lessor size = quotaUseMin) ∨
      (quotaUseMin < size + lessor.leased - lessor.used ∧
        leaseRequest lessor size = size + lessor.leased - lessor.used) := by
  rw [leaseRequest]
  rcases Nat.lt_or_ge quotaUseMin (size + lessor.leased - lessor.used) with h | h
  · exact .inr ⟨h, Nat.max_eq_left (Nat.le_of_lt h)⟩
  · exact .inl ⟨h, Nat.max_eq_right h⟩

/-- A lease that fails changes nothing. One that succeeds leaves less than `QUOTA_USE_MIN` of what
it took from the source. -/
theorem quotaLease_spec (h : s.Inv) (hallowed : (LessorOp.lease size).Allowed s) :
    quotaLease s.lessor s.source size = some (none, s.lessor, s.source) ∨
      ∃ taken source, quotaLease s.lessor s.source size = some (some size,
          { used := s.lessor.used + taken, leased := s.lessor.leased + size }, source) ∧
        taken % quotaUnitSize = 0 ∧ quotaUsed source = quotaUsed s.source + taken ∧
        s.lessor.leased + size ≤ s.lessor.used + taken ∧
        s.lessor.used + taken < s.lessor.leased + size + 2 * quotaUseMin := by
  obtain ⟨hsize, hfits⟩ := hallowed
  have hmax := h.used_le
  have hle := h.le
  have hleased : (s.lessor.leased + size) % sizeMax = s.lessor.leased + size := by
    simp only [quotaMax, quotaUnitSize, uint32Max, sizeMax] at *
    omega
  rw [quotaLease, hleased]
  by_cases hfast : s.lessor.leased + size ≤ s.lessor.used
  · -- enough is there already
    have havailable := h.available_lt
    rw [if_pos hfast]
    exact .inr ⟨0, s.source, rfl, rfl, (Nat.add_zero _).symm, hfast, by omega⟩
  · rw [if_neg hfast]
    have hfits := hfits (Nat.lt_of_not_le hfast)
    rw [lessor_required hsize hmax hle (Nat.lt_of_not_le hfast)]
    have hpos : 1 ≤ size + s.lessor.leased - s.lessor.used := by omega
    have huse := leaseRequest_cases s.lessor size
    have hconst : quotaMax < 2 ^ 63 ∧ quotaUseMin < quotaMax ∧
        quotaUnitSize ≤ quotaUseMin := by decide
    have hlt : leaseRequest s.lessor size < 2 ^ 64 := by omega
    have hlarge : quotaMax < leaseRequest s.lessor size →
        leaseRequest s.lessor size / 2 < size + s.lessor.leased - s.lessor.used := by omega
    dsimp only
    rw [ite_eq_max]
    rcases leaseLoop_spec hpos 64 _ hlt (fun _ => hfits) hlarge with hend
      | ⟨n, source, hend, hn, hnuse, hused⟩
    · left
      rw [leaseRequest] at hend
      rw [hend]
      rfl
    · right
      have hbytes := ceilUnits_bytes n
      have hbound := quotaUsed_le source
      have hheld := h.held
      have hsum : (s.lessor.used + ceilUnits n * quotaUnitSize) % sizeMax =
          s.lessor.used + ceilUnits n * quotaUnitSize := by
        apply Nat.mod_eq_of_lt
        rw [sizeMax]
        omega
      refine ⟨ceilUnits n * quotaUnitSize, source, ?_, Nat.mul_mod_left _ _, hused, ?_, ?_⟩
      · rw [leaseRequest] at hend
        rw [hend, Option.bind_eq_bind, Option.bind_some]
        dsimp only
        rw [hsum]
      · omega
      · omega

/-- The end of a lease. What it gives back to the source is available, and enough is left. -/
theorem quotaEndLease_spec (h : s.Inv) (hsize : size ≤ s.lessor.leased) :
    ∃ released source, quotaEndLease s.lessor s.source size = some (size,
        { used := s.lessor.used - released, leased := s.lessor.leased - size }, source) ∧
      released % quotaUnitSize = 0 ∧ quotaUsed source + released = quotaUsed s.source ∧
      s.lessor.leased - size + released ≤ s.lessor.used ∧
      s.lessor.used < s.lessor.leased - size + released + 2 * quotaUseMin := by
  have hle := h.le
  have hmax := h.used_le
  have hconst : quotaMax < 2 ^ 63 ∧ 2 * quotaUnitSize < quotaUseMin := by decide
  have havailable : (s.lessor.used + (sizeMax - (s.lessor.leased - size))) % sizeMax =
      s.lessor.used - (s.lessor.leased - size) :=
    @quotaAvailable_eq ⟨s.lessor.used, s.lessor.leased - size⟩ (by dsimp only; omega) hmax
  simp only [quotaEndLease, guard, ge_iff_le, if_pos hsize, pure, Option.bind_eq_bind,
    Option.bind_some, havailable]
  generalize hleft : s.lessor.leased - size = leased at *
  by_cases hmuch : 2 * quotaUseMin ≤ s.lessor.used - leased
  · rw [if_pos hmuch]
    generalize hrelease : s.lessor.used - leased - quotaUseMin - quotaUnitSize = release
    have hbytes := ceilUnits_bytes release
    have hheld := h.held
    have hunits : ceilUnits release ≤ usedInUnits s.source := by
      apply Nat.le_of_mul_le_mul_right _ (show 0 < quotaUnitSize by decide)
      rw [quotaUsed] at hheld
      omega
    have hpos : 1 ≤ release := by omega
    have hbelow : release < quotaMax := by omega
    rw [quotaRelease_eq hpos hbelow hunits]
    refine ⟨ceilUnits release * quotaUnitSize, _, rfl, Nat.mul_mod_left _ _, ?_, by omega, by omega⟩
    have hlt := usedInUnits_lt s.source
    rw [quotaUsed, quotaUsed, usedInUnits_pack (by omega), ← Nat.add_mul, Nat.sub_add_cancel hunits]
  · rw [if_neg hmuch]
    exact ⟨0, s.source, rfl, rfl, Nat.add_zero _, by omega, by omega⟩

theorem QuotaLessor.eq_of {lessor : QuotaLessor} {used leased : Nat} (hused : lessor.used = used)
    (hleased : lessor.leased = leased) : lessor = { used := used, leased := leased } := by
  rw [← hused, ← hleased]

/-- Unless the lessor has exactly `QUOTA_MAX`, the whole share goes back to the source. -/
theorem quotaLessorDestroy_spec (h : s.Inv) (hmax : s.lessor.used ≠ quotaMax) :
    ∃ source, quotaLessorDestroy s.lessor s.source = some ({ used := 0, leased := 0 }, source) ∧
      quotaUsed source + s.lessor.used = quotaUsed s.source ∧
      totalInUnits source = totalInUnits s.source := by
  have hle := h.le
  by_cases hzero : s.lessor.used = 0
  · -- nothing is leased, and the function returns at once
    refine ⟨s.source, ?_, by omega, rfl⟩
    have hleased : s.lessor.leased = 0 := by omega
    rw [quotaLessorDestroy, if_pos hzero]
    exact congrArg (fun lessor => some (lessor, s.source)) (QuotaLessor.eq_of hzero hleased)
  · have hheld := h.held
    have hunits : ceilUnits s.lessor.used * quotaUnitSize = s.lessor.used := by
      have := h.units
      simp only [ceilUnits, quotaUnitSize] at *
      omega
    have hhas : ceilUnits s.lessor.used ≤ usedInUnits s.source := by
      apply Nat.le_of_mul_le_mul_right _ (show 0 < quotaUnitSize by decide)
      rw [quotaUsed] at hheld
      omega
    have hbelow := Nat.lt_of_le_of_ne h.used_le hmax
    have hlt := usedInUnits_lt s.source
    have hleft : usedInUnits s.source - ceilUnits s.lessor.used < 2 ^ 32 := by omega
    refine ⟨quotaPack (totalInUnits s.source)
      (usedInUnits s.source - ceilUnits s.lessor.used), ?_, ?_, totalInUnits_pack hleft⟩
    · simp [quotaLessorDestroy, hzero, guard, h.units,
        quotaRelease_eq (Nat.pos_of_ne_zero hzero) hbelow hhas]
    · rw [quotaUsed, quotaUsed, usedInUnits_pack hleft, ← Nat.sub_add_cancel hhas, Nat.add_mul,
        Nat.add_sub_cancel, hunits]

/-- `QUOTA_MAX` is the one amount that cannot be given back at once. -/
theorem quotaLessorDestroy_asserts (hmax : s.lessor.used = quotaMax) :
    quotaLessorDestroy s.lessor s.source = none := by
  rw [quotaLessorDestroy, hmax, if_neg (by decide), quotaRelease_asserts (Nat.le_refl _)]
  rfl

end Calls

/-! ## Runs -/

section Runs

variable {s : LessorState}

theorem LessorState.Created.inv (h : s.Created) : s.Inv := by
  obtain ⟨hvalue, hcreate, hothers, hlent⟩ := h
  have hlessor : s.lessor = { used := 0, leased := 0 } := by
    rw [quotaLessorCreate] at hcreate
    obtain ⟨-, -, hsome⟩ := Option.bind_eq_some_iff.1 hcreate
    exact (Option.some.inj hsome).symm
  have hheld : s.lessor.used + s.others * quotaUnitSize = quotaUsed s.source := by
    rw [hlessor, hothers, quotaUsed, Nat.zero_add]
  rw [hlessor] at hheld
  constructor <;> rw [hlessor]
  · exact hlent.symm
  · rfl
  · exact hheld
  · decide

/-- The invariant after a call, from what the lessor has then. -/
theorem LessorState.Inv.intro {source used leased others lent : Nat} (hleased : leased = lent)
    (hle : leased ≤ used) (hunits : used % quotaUnitSize = 0)
    (hheld : used + others * quotaUnitSize = quotaUsed source)
    (havailable : used < leased + 2 * quotaUseMin) :
    LessorState.Inv
      { source := source, lessor := { used := used, leased := leased }, others := others,
        lent := lent } := by
  have hmax := quotaUsed_le source
  refine ⟨hleased, hle, hunits, hheld, ?_⟩
  rw [quotaAvailable_eq hle (by dsimp only; omega)]
  dsimp only
  omega

/-- The others have no more than is in use. -/
theorem LessorState.Inv.others_le (h : s.Inv) : s.others ≤ usedInUnits s.source := by
  have hheld := h.held
  rw [quotaUsed] at hheld
  apply Nat.le_of_mul_le_mul_right _ (show 0 < quotaUnitSize by decide)
  omega

/-- What the others do to the source they do to their own share. -/
theorem LessorState.Inv.other (h : s.Inv) {op : QuotaOp} {source : Nat}
    (heffect : op.Effect s.source source) (hclient : op.Client s.others) :
    LessorState.Inv { s with source := source, others := op.settle s.others } := by
  have hheld := h.held
  have hle := h.others_le
  have hshare : s.lessor.used + op.settle s.others * quotaUnitSize = quotaUsed source := by
    cases op with
    | set newTotal =>
        obtain ⟨-, hused, -⟩ := heffect
        rw [QuotaOp.settle, hheld, quotaUsed, quotaUsed, hused]
    | use size =>
        obtain ⟨-, hused, -⟩ := heffect
        have hbytes : quotaUsed source = quotaUsed s.source + quotaUnits size * quotaUnitSize := by
          rw [quotaUsed, quotaUsed, hused, Nat.add_mul]
        rw [QuotaOp.settle, Nat.add_mul]
        omega
    | release size =>
        obtain ⟨-, hused⟩ := heffect
        have hbytes : quotaUsed source + quotaUnits size * quotaUnitSize = quotaUsed s.source := by
          rw [quotaUsed, quotaUsed, ← hused, Nat.add_mul]
        have hleft :
            (s.others - quotaUnits size) * quotaUnitSize + quotaUnits size * quotaUnitSize =
            s.others * quotaUnitSize := by
          rw [← Nat.add_mul, Nat.sub_add_cancel hclient.2.2]
        rw [QuotaOp.settle]
        omega
  exact .intro h.leased h.le h.units hshare h.available_lt

/-- Each call of the machine returns and keeps the invariant, if it does not destroy a lessor that
has `QUOTA_MAX` bytes. -/
theorem LessorOp.exec_spec (h : s.Inv) (op : LessorOp) (hallowed : op.Allowed s)
    (hbelow : op.BelowMax s) :
    ∃ s', op.exec s = some s' ∧ s'.Inv := by
  have hleased := h.leased
  have hheld := h.held
  have hunits := h.units
  cases op with
  | lease size =>
      rcases quotaLease_spec h hallowed with hfail
        | ⟨taken, source, hlease, htaken, hused, hle, hlt⟩
      · exact ⟨s, by simp [LessorOp.exec, hfail], h⟩
      · have hex : LessorOp.exec s (.lease size) =
            some ⟨source, ⟨s.lessor.used + taken, s.lessor.leased + size⟩,
            s.others, s.lent + size⟩ := by
          simp only [LessorOp.exec, hlease, Option.bind_eq_bind, Option.bind_some]
        refine ⟨_, hex, .intro (congrArg (· + size) hleased) hle ?_ (by omega) hlt⟩
        rw [Nat.add_mod, hunits, htaken]
        rfl
  | endLease size =>
      obtain ⟨released, source, hend, hreleased, hused, hle, hlt⟩ := quotaEndLease_spec h hallowed
      have hmod : (s.lessor.used - released) % quotaUnitSize = 0 :=
        Nat.sub_mod_eq_zero_of_mod_eq (hunits.trans hreleased.symm)
      have hex : LessorOp.exec s (.endLease size) = some ⟨source,
          ⟨s.lessor.used - released, s.lessor.leased - size⟩, s.others, s.lent - size⟩ := by
        simp only [LessorOp.exec, hend, Option.bind_eq_bind, Option.bind_some]
      exact ⟨_, hex, .intro (congrArg (· - size) hleased) (by omega) hmod (by omega) (by omega)⟩
  | destroy =>
      obtain ⟨source, hdestroy, hused, -⟩ := quotaLessorDestroy_spec h (hbelow rfl)
      have hex : LessorOp.exec s .destroy = some ⟨source, ⟨0, 0⟩, s.others, 0⟩ := by
        simp only [LessorOp.exec, hdestroy, Option.bind_eq_bind, Option.bind_some]
      exact ⟨_, hex, .intro rfl (Nat.le_refl _) rfl (by omega) (by decide)⟩
  | other op =>
      obtain ⟨hclient, hfits⟩ := hallowed
      rcases hclient.run hfits h.others_le with hfail | ⟨source, hrun, heffect⟩
      · exact ⟨s, by simp [LessorOp.exec, hfail], h⟩
      · have hex : LessorOp.exec s (.other op) =
            some { s with source := source, others := op.settle s.others } := by
          simp only [LessorOp.exec, hrun, Option.bind_eq_bind, Option.bind_some]
        exact ⟨_, hex, h.other heffect hclient⟩

/-- **The invariant of the lessor**, in every state of every run in which no lessor is destroyed
while it has exactly `QUOTA_MAX` bytes: it has on lease what was leased and did not end, within what
it has taken from the source, in whole units; no call fails an assertion or loops forever; a lease
that fails changes nothing; and a lessor that is destroyed has given everything back. -/
theorem quotaLessor_invariant (hs : belowMaxMachine.Reachable s) :
    s.Inv ∧
    (∀ op, belowMaxMachine.allowed s op → ∃ s', belowMaxMachine.exec s op = some s') ∧
    (∀ size, (LessorOp.lease size).Allowed s →
      quotaLease s.lessor s.source size = some (none, s.lessor, s.source) ∨
        ∃ lessor source, quotaLease s.lessor s.source size = some (some size, lessor, source)) ∧
    ((∃ source, quotaLessorDestroy s.lessor s.source = some ({ used := 0, leased := 0 }, source) ∧
        quotaUsed source = s.others * quotaUnitSize ∧ totalInUnits source = totalInUnits s.source) ↔
      s.lessor.used ≠ quotaMax) := by
  have hstep : ∀ s op, s.Inv → belowMaxMachine.allowed s op →
      ∃ s', belowMaxMachine.exec s op = some s' ∧ s'.Inv :=
    fun s op h hallowed => LessorOp.exec_spec h op hallowed.1 hallowed.2
  obtain ⟨h, hnext⟩ := belowMaxMachine.invariant (fun s hs => hs.inv) hstep hs
  refine ⟨h, fun op hop => ?_, fun size hsize => ?_, fun hdestroy hmax => ?_, fun hmax => ?_⟩
  · obtain ⟨s', hex, -⟩ := hnext op hop
    exact ⟨s', hex⟩
  · rcases quotaLease_spec h hsize with hfail | ⟨taken, source, hlease, -⟩
    · exact .inl hfail
    · exact .inr ⟨_, source, hlease⟩
  · obtain ⟨source, hsome, -⟩ := hdestroy
    rw [quotaLessorDestroy_asserts hmax] at hsome
    cases hsome
  · obtain ⟨source, hdestroy, hused, htotal⟩ := quotaLessorDestroy_spec h hmax
    have hheld := h.held
    exact ⟨source, hdestroy, by omega, htotal⟩

/-- A lessor whose source has the largest limit, and the lessor after it leased all of it. -/
def wholeSource : LessorState where
  source := quotaInit quotaMax
  lessor := { used := 0, leased := 0 }
  others := 0
  lent := 0

def wholeLeased : LessorState where
  source := quotaPack uint32Max uint32Max
  lessor := { used := quotaMax, leased := quotaMax }
  others := 0
  lent := quotaMax

theorem wholeSource_created : wholeSource.Created :=
  ⟨by decide +kernel, by decide +kernel, by decide +kernel, by decide +kernel⟩

theorem wholeSource_lease :
    LessorOp.exec wholeSource (.lease quotaMax) = some wholeLeased := by decide

theorem wholeSource_lease_allowed : (LessorOp.lease quotaMax).Allowed wholeSource :=
  ⟨by decide, fun _ => .inr (by decide)⟩

theorem quotaLessor_invariant_whole :
    belowMaxMachine.Reachable wholeLeased ∧ wholeLeased.Inv := by
  have h0 : belowMaxMachine.Reachable wholeSource := .init wholeSource_created
  have h1 : belowMaxMachine.Reachable wholeLeased :=
    .step (.lease quotaMax) h0 ⟨wholeSource_lease_allowed, fun h => by cases h⟩ wholeSource_lease
  exact ⟨h1, (quotaLessor_invariant h1).1⟩

/-- The whole of the largest quota can be leased; a lessor that has it cannot be destroyed, for
`quota_release` does not take `QUOTA_MAX`. -/
theorem quotaLessor_destroy_fails :
    lessorMachine.Reachable wholeLeased ∧ lessorMachine.allowed wholeLeased .destroy ∧
      lessorMachine.exec wholeLeased .destroy = none := by
  have h0 : lessorMachine.Reachable wholeSource := .init wholeSource_created
  exact ⟨.step (.lease quotaMax) h0 wholeSource_lease_allowed wholeSource_lease, trivial, by decide⟩

end Runs

end SmallAllocators
