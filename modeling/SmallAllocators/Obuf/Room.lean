/-
SmallAllocators.Obuf.Room — what the output buffer promises for sizes of up
to `SIZE_MAX`.

The fast paths of `obuf_reserve` and `obuf_alloc` add the size to the fill
level in a `size_t` before they compare with the capacity. `Obuf.Promises`
says that a chunk which these functions return is there, and that it is
counted. Whatever the start capacity is, a buffer keeps this promise for the
sizes for which the sum does not wrap around, and for no others
(`obuf_promises_iff`): a sum that wraps around is less than the fill level,
so the fast path is taken.
-/
import SmallAllocators.Obuf.Runs

namespace SmallAllocators

open Memory

variable {g : Geometry} {slabGet : Nat → Option Nat} {b b' : Obuf} {s s' : ObufState} {size : Nat}
    {ptr : Option Nat}

/-! ## The functions, for any start capacity -/

/-- `obuf_reserve_slow` at an empty entry, without its last assertion. -/
theorem obufReserveHere_cases (hg : slabSizeof < g.order0Size) (h : b.Inv)
    (hans : b.Answers g slabGet) (hlen : (b.vec b.pos).len = 0)
    (heq : obufReserveHere g slabGet b (b.vec b.pos) size = some (ptr, b')) :
    b.Same b' ∧ b'.pos = b.pos ∧ ∀ p, ptr = some p → p = (b'.vec b'.pos).base ∧
      (b'.vec b'.pos).len = 0 := by
  have hroom : ∀ n, slabSizeof < g.slabRealSize n :=
    fun n => hg.trans_le (g.order0Size_le_slabRealSize n)
  have hgot : ∀ {addr n b₁}, b.Got g addr n b₁ → b.Same b₁ ∧ b₁.pos = b.pos ∧
      ∀ p, some (addr + slabSizeof) = some p → p = (b₁.vec b₁.pos).base ∧
      (b₁.vec b₁.pos).len = 0 := by
    intro addr n b₁ h₁
    refine ⟨h₁.same, h₁.pos, fun p hp => ?_⟩
    rw [h₁.block]
    exact ⟨(Option.some.inj hp).symm, rfl⟩
  unfold obufReserveHere at heq
  by_cases hmore : size > (b.vec b.pos).capacity
  · rw [if_pos hmore] at heq
    by_cases hcap : (b.vec b.pos).capacity > 0
    · -- a larger slab instead of the one the entry has
      have hlt : b.pos < b.nIov := by
        rcases h.current with ⟨hlt, -⟩ | ⟨-, hz⟩
        · exact hlt
        · simp [hz, zeroVec] at hcap
      rw [if_pos hcap] at heq
      obtain ⟨n, -, hrest⟩ := Option.bind_eq_some_iff.1 heq
      cases hget : slabGet n with
      | none =>
          rw [hget] at hrest
          cases hrest
          exact ⟨.refl h, rfl, fun p hp => by cases hp⟩
      | some addr =>
          rw [hget] at hrest
          cases hrest
          exact hgot (h.largerBlock hans hlt hlen hget (hroom n))
    · have hpos : b.pos = b.nIov := by
        rcases h.current with ⟨-, hb⟩ | ⟨heq, -⟩
        · exact absurd hb.pos hcap
        · exact heq
      rw [if_neg hcap, obufAllocPos_eq h hpos] at heq
      obtain ⟨n, -, hrest⟩ := Option.bind_eq_some_iff.1 heq
      cases hget : slabGet n with
      | none =>
          rw [hget] at hrest
          cases hrest
          exact ⟨h.setNext hpos, rfl, fun p hp => by cases hp⟩
      | some addr =>
          rw [hget] at hrest
          cases hrest
          exact hgot (h.firstBlock hans hpos hget (hroom n))
  · rw [if_neg hmore] at heq
    cases heq
    refine ⟨.refl h, rfl, fun p hp => ⟨?_, hlen⟩⟩
    unfold ofPtr at hp
    split at hp
    · cases hp
    · exact (Option.some.inj hp).symm

/-- `obuf_reserve_slow` returns the start of an empty entry; its last assertion says that there is
room. -/
theorem obufReserveSlow_cases (hg : slabSizeof < g.order0Size) (h : b.Inv)
    (hans : b.Answers g slabGet) (hsize : size < sizeMax)
    (heq : obufReserveSlow g slabGet b size = some (ptr, b')) :
    b.Same b' ∧ ∀ p, ptr = some p → p = (b'.vec b'.pos).base + (b'.vec b'.pos).len ∧
      (b'.vec b'.pos).len + size ≤ (b'.vec b'.pos).capacity ∧
      (b.vec b'.pos).len = (b'.vec b'.pos).len := by
  unfold obufReserveSlow at heq
  rw [h.at_pos, Option.bind_eq_bind, Option.bind_some] at heq
  cases hnext : b.nextIfUsed (b.vec b.pos) with
  | none =>
      rw [hnext] at heq
      cases heq
      exact ⟨.refl h, fun p hp => by cases hp⟩
  | some b₁ =>
      obtain ⟨hsame₁, hzero, hn₁, hvec₁⟩ := h.nextIfUsed hnext
      have hans₁ : b₁.Answers g slabGet := by
        unfold Obuf.Answers
        rw [hn₁, hvec₁]
        exact hans
      rw [hnext] at heq
      simp only [hsame₁.inv.at_pos, hzero, guard, if_true, pure, Option.bind_eq_bind,
        Option.bind_some] at heq
      obtain ⟨⟨ptr₂, b₂⟩, hhere, hrest⟩ := Option.bind_eq_some_iff.1 heq
      obtain ⟨hsame₂, hpos₂, hptr⟩ := obufReserveHere_cases hg hsame₁.inv hans₁ hzero hhere
      cases ptr₂ with
      | none =>
          cases hrest
          exact ⟨hsame₁.trans hsame₂, fun p hp => by cases hp⟩
      | some p =>
          obtain ⟨hp, hlen⟩ := hptr p rfl
          have hroom : size ≤ (b₂.vec b₂.pos).capacity := by
            by_contra hno
            simp [Obuf.checkRoom, hsame₂.inv.at_pos, hlen, Nat.mod_eq_of_lt hsize, guard,
              hno] at hrest
          obtain ⟨-, -, hres⟩ := Option.bind_eq_some_iff.1 hrest
          obtain ⟨h1, h2⟩ := Prod.mk.inj (Option.some.inj hres)
          subst h1 h2
          refine ⟨hsame₁.trans hsame₂, fun q hq => ?_⟩
          obtain rfl := Option.some.inj hq
          have hold : (b.vec b₂.pos).len = 0 := by rw [hpos₂, ← hvec₁, hzero]
          dsimp only
          exact ⟨by omega, by omega, hold.trans hlen.symm⟩

/-- `obuf_reserve` of a chunk for which the sum does not wrap around. -/
theorem obufReserve_cases (hg : slabSizeof < g.order0Size) (h : b.Inv)
    (hans : b.Answers g slabGet) (hsum : (b.vec b.pos).len + size < sizeMax)
    (heq : obufReserve g slabGet b size = some (ptr, b')) :
    b.Same b' ∧ ∀ p, ptr = some p → (b'.vec b'.pos).len + size ≤ (b'.vec b'.pos).capacity := by
  obtain ⟨-, -, hrest⟩ := Option.bind_eq_some_iff.1 heq
  simp only [h.at_pos, Option.bind_eq_bind, Option.bind_some, Nat.mod_eq_of_lt hsum] at hrest
  by_cases hmore : (b.vec b.pos).len + size > (b.vec b.pos).capacity
  · rw [if_pos hmore] at hrest
    obtain ⟨⟨ptr₁, b₁⟩, hslow, hres⟩ := Option.bind_eq_some_iff.1 hrest
    obtain ⟨hsame, hroom⟩ := obufReserveSlow_cases hg h hans (by omega) hslow
    cases ptr₁ with
    | none =>
        cases hres
        exact ⟨hsame, fun p hp => by cases hp⟩
    | some p =>
        cases hres
        exact ⟨hsame.trans (hsame.inv.setReserved true), fun q _ => (hroom p rfl).2.1⟩
  · rw [if_neg hmore] at hrest
    cases hptr : ofPtr ((b.vec b.pos).base + (b.vec b.pos).len) with
    | none =>
        rw [hptr] at hrest
        cases hrest
        exact ⟨.refl h, fun p hp => by cases hp⟩
    | some p =>
        rw [hptr] at hrest
        cases hrest
        exact ⟨h.setReserved true, fun q _ => Nat.le_of_not_lt hmore⟩

/-- `obuf_alloc` of a chunk for which the sum does not wrap around, and which the client then
fills. -/
theorem obufAlloc_cases (hg : slabSizeof < g.order0Size) (h : b.Inv) (hans : b.Answers g slabGet)
    (hsum : (b.vec b.pos).len + size < sizeMax) (data : Nat → UInt8)
    (heq : obufAlloc g slabGet b size = some (ptr, b')) :
    (ptr = none → b.Same b') ∧ ∀ p, ptr = some p →
      b.Allocated size b' ∧
      b.Wrote ((List.range size).map data) { b' with mem := fill b'.mem p size data } := by
  by_cases hfits : (b.vec b.pos).len + size ≤ (b.vec b.pos).capacity
  · obtain ⟨ptr₁, b₁, heq₁, -, hnull, hsome⟩ := @obufAlloc_here g slabGet b size h hfits data
    obtain ⟨h1, h2⟩ := Prod.mk.inj (Option.some.inj (heq₁.symm.trans heq))
    subst h1 h2
    exact ⟨hnull, fun p hp => hsome p hp⟩
  · have hmore : ¬ ((b.vec b.pos).len + size) % sizeMax ≤ (b.vec b.pos).capacity := by
      rwa [Nat.mod_eq_of_lt hsum]
    have heq' := heq
    unfold obufAlloc at heq'
    rw [h.at_pos, Option.bind_eq_bind, Option.bind_some, if_neg hmore] at heq'
    obtain ⟨⟨ptr₁, b₁⟩, hslow, hres⟩ := Option.bind_eq_some_iff.1 heq'
    obtain ⟨hsame, hroom⟩ := obufReserveSlow_cases hg h hans (by omega) hslow
    cases ptr₁ with
    | none =>
        cases hres
        exact ⟨fun _ => hsame, fun p hp => by cases hp⟩
    | some p =>
        obtain ⟨hp, hfit, hold⟩ := hroom p rfl
        obtain ⟨b₂, heq₂, hpos, hallocated, -, hw⟩ :=
          obufAlloc_slow h hmore hslow hsame hp hfit data
        obtain ⟨h1, h2⟩ := Prod.mk.inj (Option.some.inj (heq₂.symm.trans heq))
        subst h1 h2
        have hused : b₁.used = b.used := by rw [hsame.inv.used, hsame.content, h.used]
        obtain ⟨hr, hl, hu⟩ := hallocated
        rw [hpos] at hr hl
        refine ⟨fun hnull => (by cases hnull), fun q hq => ?_⟩
        obtain rfl := Option.some.inj hq
        refine ⟨⟨?_, ?_, by rw [hu, hused]⟩, hw⟩
        · rw [hpos, hold]
          exact hr
        · rw [hpos, hold]
          exact hl

/-! ## The runs -/

/-- What the code promises its callers: when `obuf_reserve` or `obuf_alloc` returns a chunk,
there is room for it at the position on return, and `obuf_alloc` counts all of it. -/
structure Obuf.Promises (g : Geometry) (b : Obuf) (size : Nat) : Prop where
  reserve : ∀ slabGet p b', b.Answers g slabGet → obufReserve g slabGet b size = some (some p, b') →
    (b'.vec b'.pos).len + size ≤ (b'.vec b'.pos).capacity
  alloc : ∀ slabGet p b', b.Answers g slabGet → obufAlloc g slabGet b size = some (some p, b') →
    b.Allocated size b'

/-- The arguments are of their types, and `slab_get` answers with memory that is free. -/
def ObufOp.Called (g : Geometry) (s : ObufState) : ObufOp → Prop
  | .dup _ size slabGet => size < sizeMax ∧ s.obuf.Answers g slabGet
  | .alloc size _ slabGet => size < sizeMax ∧ s.obuf.Answers g slabGet
  | .reserve size slabGet => size < sizeMax ∧ s.obuf.Answers g slabGet
  | .createSvp => True
  | .rollbackToSvp k => k < s.svps.length
  | .reset => True
  | .write mem => ∀ i ≤ s.obuf.pos, ∀ x, (s.obuf.vec i).base ≤ x →
      x < (s.obuf.vec i).base + (s.obuf.vec i).len → mem x = s.obuf.mem x

/-- The size is added to the fill level without wrapping around. -/
def Obuf.Fits (b : Obuf) (size : Nat) : Prop := (b.vec b.pos).len + size < sizeMax

def ObufOp.Fits (s : ObufState) : ObufOp → Prop
  | .dup _ size _ => s.obuf.Fits size
  | .alloc size _ _ => s.obuf.Fits size
  | .reserve size _ => s.obuf.Fits size
  | _ => True

/-- The runs of a buffer with any start capacity in which no sum wraps around. -/
def obufFitMachine (g : Geometry) (startCapacity : Nat) : Machine ObufState ObufOp :=
  { obufMachine g startCapacity with allowed := fun s op => op.Called g s ∧ op.Fits s }

theorem ObufOp.exec_logged (hg : slabSizeof < g.order0Size) (h : s.Logged) (op : ObufOp)
    (hop : op.Called g s) (hfits : op.Fits s) (hex : op.exec g s = some s') : s'.Logged := by
  cases op with
  | dup data size slabGet =>
      obtain ⟨⟨n, b⟩, hdup, hres⟩ := Option.bind_eq_some_iff.1 hex
      cases hres
      exact h.wrote (obufDup_wrote h.obuf hop.2 (Or.inl hg) hfits data hdup).2.1
  | alloc size data slabGet =>
      obtain ⟨⟨ptr, b⟩, halloc, hres⟩ := Option.bind_eq_some_iff.1 hex
      obtain ⟨hnull, hsome⟩ := obufAlloc_cases hg h.obuf hop.2 hfits data halloc
      cases ptr with
      | none =>
          cases hres
          exact h.same (hnull rfl)
      | some p =>
          cases hres
          exact h.wrote (hsome p rfl).2
  | reserve size slabGet =>
      obtain ⟨⟨ptr, b⟩, hreserve, hres⟩ := Option.bind_eq_some_iff.1 hex
      cases hres
      exact h.same (obufReserve_cases hg h.obuf hop.2 hfits hreserve).1
  | createSvp =>
      obtain ⟨svp, heq, hat, hle⟩ := obufCreateSvp_spec h
      simp only [ObufOp.exec, heq, Option.bind_eq_bind, Option.bind_some, Option.some.injEq] at hex
      subst hex
      exact h.createSvp hat hle
  | rollbackToSvp k =>
      obtain ⟨⟨svp, content⟩, hk⟩ : ∃ x, s.svps[k]? = some x := ⟨_, List.getElem?_eq_getElem hop⟩
      obtain ⟨b, heq, -, -, hlogged⟩ := h.rollback hk
      simp only [ObufOp.exec, hk, heq, Option.bind_eq_bind, Option.bind_some,
        Option.some.injEq] at hex
      subst hex
      exact hlogged
  | reset =>
      obtain ⟨b, heq, hinv, hcontent, -⟩ := obufReset_spec h.obuf
      simp only [ObufOp.exec, heq, Option.bind_eq_bind, Option.bind_some, Option.some.injEq] at hex
      subst hex
      exact .reset hinv hcontent
  | write mem =>
      cases hex
      exact h.same (h.obuf.setMem hop)

theorem obufFitMachine_logged (hg : slabSizeof < g.order0Size) {startCapacity : Nat}
    (hs : (obufFitMachine g startCapacity).Reachable s) : s.Logged := by
  refine Machine.Reachable.of_step _ ?_ (fun s op s' h hop hex => ?_) hs
  · rintro s ⟨vec, mem, rfl⟩
    exact obufCreate_logged vec mem startCapacity
  · exact ObufOp.exec_logged hg h op hop.1 hop.2 hex

/-- The fast path of `obuf_alloc` when the sum wraps around: it is less than the fill level. -/
theorem obufAlloc_wraps (g : Geometry) (slabGet : Nat → Option Nat) (h : b.Inv)
    (hsize : size < sizeMax) (hwrap : ¬ b.Fits size) :
    ∃ p b', obufAlloc g slabGet b size = some (some p, b') ∧ ¬ b.Allocated size b' := by
  obtain ⟨hlen, hcap⟩ := h.len_le
  have hword : 2 ^ 63 ≤ sizeMax := by decide
  unfold Obuf.Fits at hwrap
  have hbase : (b.vec b.pos).base + (b.vec b.pos).len ≠ 0 := by omega
  have hless : ((b.vec b.pos).len + size) % sizeMax < (b.vec b.pos).len := by
    rw [Nat.mod_eq_sub_mod (by omega), Nat.mod_eq_of_lt (by omega)]
    omega
  have hfast : ((b.vec b.pos).len + size) % sizeMax ≤ (b.vec b.pos).capacity :=
    (Nat.le_of_lt hless).trans hlen
  obtain ⟨b', hadv⟩ : ∃ b', b.advance size = some b' := by
    unfold Obuf.advance
    rw [h.at_pos]
    exact ⟨_, rfl⟩
  refine ⟨(b.vec b.pos).base + (b.vec b.pos).len, b', ?_, fun hallocated => ?_⟩
  · unfold obufAlloc
    simp only [h.at_pos, Option.bind_eq_bind, Option.bind_some, if_pos hfast, hadv, ofPtr,
      if_neg hbase]
  · have hcapacity : (b'.vec b'.pos).len = ((b.vec b.pos).len + size) % sizeMax ∧
        b'.pos = b.pos := by
      unfold Obuf.advance at hadv
      rw [h.at_pos] at hadv
      cases hadv
      exact ⟨by show ((b.set b.pos _).vec b.pos).len = _; rw [Obuf.set_vec, if_pos rfl], rfl⟩
    have hlen' := hallocated.len
    rw [hcapacity.1, hcapacity.2] at hlen'
    omega

/-- **The output buffer never promises room that it does not have**, in all runs in which no size
wraps around when it is added to the fill level; and it does so for each size that wraps around. -/
theorem obuf_promises_iff (hg : slabSizeof < g.order0Size) {startCapacity : Nat}
    (hs : (obufFitMachine g startCapacity).Reachable s) (hsize : size < sizeMax) :
    s.obuf.Promises g size ↔ (s.obuf.vec s.obuf.pos).len + size < sizeMax := by
  have h := obufFitMachine_logged hg hs
  constructor
  · intro hpromises
    by_contra hwrap
    obtain ⟨p, b', heq, hno⟩ := obufAlloc_wraps g (fun _ => none) h.obuf hsize hwrap
    exact hno (hpromises.alloc _ p b' (fun n addr hget => by cases hget) heq)
  · intro hsum
    constructor
    case reserve =>
      exact fun slabGet p b' hans heq => (obufReserve_cases hg h.obuf hans hsum heq).2 p rfl
    case alloc =>
      exact fun slabGet p b' hans heq =>
        ((obufAlloc_cases hg h.obuf hans hsum (fun _ => 0) heq).2 p rfl).1

/-- A buffer that starts with 16 bytes, and has counted one. -/
theorem oneByte_reachable :
    ∃ s, (obufFitMachine fourPages 16).Reachable s ∧ (s.obuf.vec s.obuf.pos).len = 1 := by
  have h0 : (obufFitMachine fourPages 16).Reachable
      { obuf := obufCreate (fun _ => zeroVec) (fun _ => 0) 16, content := [], svps := [] } :=
      .init ⟨_, _, rfl⟩
  have hans : (obufCreate (fun _ => zeroVec) (fun _ => 0) 16).Answers fourPages (onlyFor 16) := by
    intro n addr hget
    unfold onlyFor at hget
    split at hget
    · rename_i hn
      subst hn
      cases hget
      exact ⟨by decide, by decide, fun i hi => absurd hi (Nat.not_lt_zero i)⟩
    · cases hget
  exact ⟨_, .step (.alloc 1 (fun _ => 0) (onlyFor 16)) h0
    ⟨⟨by decide, hans⟩, (by decide : 0 + 1 < sizeMax)⟩ rfl, rfl⟩

/-- There is a run for the theorem to speak about. -/
theorem obuf_promises_five : ∃ s : ObufState, (s.obuf.vec s.obuf.pos).len = 1 ∧
    (s.obuf.Promises fourPages 5 ↔ (s.obuf.vec s.obuf.pos).len + 5 < sizeMax) := by
  obtain ⟨s, hs, hlen⟩ := oneByte_reachable
  exact ⟨s, hlen, obuf_promises_iff (by decide) hs (by decide)⟩

/-- With one byte in the buffer, `obuf_alloc` of `SIZE_MAX` bytes returns a chunk, for which
there is no room, and then counts no bytes in the entry. -/
theorem obuf_promises_size_max : ∃ s, (obufFitMachine fourPages 16).Reachable s ∧
    ¬ s.obuf.Promises fourPages (sizeMax - 1) := by
  obtain ⟨s, hs, hlen⟩ := oneByte_reachable
  have h := obufFitMachine_logged (by decide) hs
  refine ⟨s, hs, fun hpromises => ?_⟩
  obtain ⟨p, b', heq, hno⟩ := obufAlloc_wraps fourPages (fun _ => none) h.obuf
    (show sizeMax - 1 < sizeMax by decide) (by unfold Obuf.Fits; rw [hlen]; decide)
  exact hno (hpromises.alloc _ p b' (fun n addr hget => by cases hget) heq)

end SmallAllocators
