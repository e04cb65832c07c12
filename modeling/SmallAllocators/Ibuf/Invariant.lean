/-
SmallAllocators.Ibuf.Invariant — the invariant of the input buffer.

Either there is no slab and the four pointers are `NULL`, or they point into
the one slab that the buffer holds, in order (`Ibuf.Held`). Each function
has one theorem here: it keeps the invariant, and what it does to the unread
bytes (`Ibuf.unread`).
-/
import SmallAllocators.SlabCache.Get
import SmallAllocators.Ibuf.Model

namespace SmallAllocators

open Memory

variable {g : Geometry} {b : Ibuf} {addr n size used : Nat} {answer : Option Nat}

/-! ## The invariant -/

/-- The buffer has no slab. -/
structure Ibuf.Empty (b : Ibuf) : Prop where
  buf : b.buf = 0
  rpos : b.rpos = 0
  wpos : b.wpos = 0
  bufEnd : b.bufEnd = 0
  balance : b.gets.Perm b.puts

/-- The buffer has the slab at `addr`, which `slab_get` returned for a request of `n` bytes. The
slab is in the lower half of the address space, as all memory of a process is. -/
structure Ibuf.Held (g : Geometry) (b : Ibuf) (addr n : Nat) : Prop where
  pos : 0 < addr
  buf : b.buf = addr + slabSizeof
  bufEnd : b.bufEnd = addr + g.slabRealSize n
  room : n + slabSizeof ≤ g.slabRealSize n
  start : b.startCapacity ≤ n
  bound : b.bufEnd < 2 ^ 63
  rpos : b.buf ≤ b.rpos
  wpos : b.rpos ≤ b.wpos
  last : b.wpos ≤ b.bufEnd
  balance : b.gets.Perm (addr :: b.puts)

structure Ibuf.Inv (g : Geometry) (b : Ibuf) : Prop where
  start : 1 ≤ b.startCapacity
  slab : b.Empty ∨ ∃ addr n, b.Held g addr n

/-- The bytes that were written and not consumed. -/
def Ibuf.unread (b : Ibuf) : List UInt8 := read b.mem b.rpos (b.wpos - b.rpos)

theorem Ibuf.Inv.rpos_le (h : b.Inv g) : b.rpos ≤ b.wpos := by
  rcases h.slab with h | ⟨addr, n, h⟩
  · rw [h.rpos, h.wpos]
  · exact h.wpos

theorem Ibuf.Inv.order (h : b.Inv g) : b.buf ≤ b.rpos ∧ b.wpos ≤ b.bufEnd ∧ b.bufEnd < 2 ^ 63 := by
  rcases h.slab with h | ⟨addr, n, h⟩
  · rw [h.buf, h.bufEnd, h.wpos]
    exact ⟨Nat.zero_le _, Nat.le_refl _, by decide⟩
  · exact ⟨h.rpos, h.last, h.bound⟩

theorem ibufUsed_eq (h : b.Inv g) : ibufUsed b = some (b.wpos - b.rpos) := by
  simp [ibufUsed, guard, h.rpos_le]

theorem Ibuf.unread_length (b : Ibuf) : b.unread.length = b.wpos - b.rpos := by
  rw [Ibuf.unread, read_length]

/-! ## Moving to another slab -/

/-- What `slab_get` may return for a request of `n` bytes: `NULL`, or a slab of sufficient capacity,
in other memory than the slab of the buffer and in the lower half of the address space. -/
def Ibuf.Answer (g : Geometry) (b : Ibuf) (n : Nat) (answer : Option Nat) : Prop :=
  ∀ addr, answer = some addr →
    0 < addr ∧ n + slabSizeof ≤ g.slabRealSize n ∧ addr + g.slabRealSize n < 2 ^ 63 ∧
    (b.buf ≠ 0 → addr + g.slabRealSize n ≤ b.buf - slabSizeof ∨ b.bufEnd ≤ addr)

theorem Ibuf.putSlab_balance (h : b.Inv g) : b.gets.Perm b.putSlab.puts := by
  unfold Ibuf.putSlab
  rcases h.slab with h | ⟨addr, n, h⟩
  · simp [h.buf, h.balance]
  · have hne : b.buf ≠ 0 := by
      have := h.pos
      have := h.buf
      omega
    rw [if_pos hne]
    have hsub : b.buf - slabSizeof = addr := by rw [h.buf, Nat.add_sub_cancel]
    simpa [hsub] using h.balance

@[simp] theorem Ibuf.putSlab_startCapacity (b : Ibuf) :
    b.putSlab.startCapacity = b.startCapacity := by
  unfold Ibuf.putSlab
  split <;> rfl

@[simp] theorem Ibuf.putSlab_gets (b : Ibuf) : b.putSlab.gets = b.gets := by
  unfold Ibuf.putSlab
  split <;> rfl

/-- Moving the unread bytes to a new slab. -/
theorem Ibuf.moveTo_spec (h : b.Inv g) (hans : b.Answer g n (some addr))
    (hstart : b.startCapacity ≤ n) (hused : b.wpos - b.rpos ≤ n) :
    (b.moveTo addr (g.slabRealSize n) (b.wpos - b.rpos)).Held g addr n ∧
    (b.moveTo addr (g.slabRealSize n) (b.wpos - b.rpos)).unread = b.unread := by
  obtain ⟨hpos, hroom, hbound, -⟩ := hans addr rfl
  refine ⟨?_, ?_⟩
  · constructor
    case pos => exact hpos
    case buf => rfl
    case bufEnd => rfl
    case room => exact hroom
    case start => simpa [Ibuf.moveTo] using hstart
    case bound => exact hbound
    case rpos => exact Nat.le_refl _
    case wpos => exact Nat.le_add_right _ _
    case last =>
      show addr + slabSizeof + (b.wpos - b.rpos) ≤ addr + g.slabRealSize n
      omega
    case balance => exact (Ibuf.putSlab_balance h).cons addr
  · show read (copy b.mem _ b.rpos _) (addr + slabSizeof)
      (addr + slabSizeof + (b.wpos - b.rpos) - (addr + slabSizeof)) = _
    rw [Nat.add_sub_cancel_left, read_copy]
    rfl

/-- The buffer without a slab. -/
theorem Ibuf.null_spec (h : b.Inv g) : b.putSlab.null.Empty ∧ b.putSlab.null.unread = [] := by
  refine ⟨⟨rfl, rfl, rfl, rfl, ?_⟩, rfl⟩
  show b.putSlab.gets.Perm b.putSlab.puts
  rw [Ibuf.putSlab_gets]
  exact Ibuf.putSlab_balance h

/-! ## Reserving -/

/-- The capacity that `ibuf_reserve_slow` asks for. -/
theorem Ibuf.newCapacity_spec (h : b.Inv g) {needed : Nat} (hneeded : needed ≤ 2 ^ 63) :
    ∃ n, b.newCapacity needed = some n ∧ needed ≤ n ∧ b.startCapacity ≤ n := by
  have hstart := h.start
  unfold Ibuf.newCapacity
  set c := if ibufCapacity b * 2 % sizeMax < b.startCapacity then b.startCapacity
    else ibufCapacity b * 2 % sizeMax with hc
  have hle : b.startCapacity ≤ c := by
    rw [hc]
    split <;> omega
  obtain ⟨n, heq, h1, h2, -⟩ := growLoop_spec hneeded 64 c (by omega)
  exact ⟨n, heq, h1, by omega⟩

/-- What `slab_get` may answer when `ibuf_reserve` calls it. -/
def Ibuf.ReserveAnswer (g : Geometry) (b : Ibuf) (size : Nat) (answer : Option Nat) : Prop :=
  ∀ n, b.newCapacity (b.wpos - b.rpos + size) = some n → b.Answer g n answer

/-- The de-fragmented buffer. -/
theorem Ibuf.Held.defragment (h : b.Held g addr n) :
    (b.defragment (b.wpos - b.rpos)).Held g addr n ∧
    (b.defragment (b.wpos - b.rpos)).unread = b.unread := by
  have h1 := h.rpos
  have h2 := h.wpos
  have h3 := h.last
  refine ⟨⟨h.pos, h.buf, h.bufEnd, h.room, h.start, h.bound, Nat.le_refl _,
    Nat.le_add_right _ _, ?_, h.balance⟩, ?_⟩
  · show b.buf + (b.wpos - b.rpos) ≤ b.bufEnd
    omega
  · show read (copy b.mem b.buf b.rpos _) b.buf (b.buf + (b.wpos - b.rpos) - b.buf) = _
    rw [Nat.add_sub_cancel_left, read_copy]
    rfl

/-- `ibuf_reserve_slow`, when the chunk does not fit behind the unread bytes. -/
theorem ibufReserveSlow_spec (h : b.Inv g) (hsize : b.wpos - b.rpos + size ≤ 2 ^ 63)
    (hans : b.ReserveAnswer g size answer) (hfull : b.bufEnd < b.wpos + size) :
    ibufReserveSlow g b size answer = some (none, b) ∨
    ∃ b', ibufReserveSlow g b size answer = some (some b'.wpos, b') ∧ b'.Inv g ∧
    b'.unread = b.unread ∧
      0 < b'.wpos ∧ b'.wpos + size ≤ b'.bufEnd ∧ b'.startCapacity = b.startCapacity := by
  obtain ⟨hbuf, hlast, hbound⟩ := h.order
  have hle := h.rpos_le
  have hmod : (b.wpos + size) % sizeMax = b.wpos + size :=
    Nat.mod_eq_of_lt (by simp only [sizeMax]; omega)
  have hmod' : (b.wpos - b.rpos + size) % sizeMax = b.wpos - b.rpos + size :=
    Nat.mod_eq_of_lt (by simp only [sizeMax]; omega)
  unfold ibufReserveSlow
  rw [hmod, ibufUsed_eq h]
  simp only [guard, if_pos hfull, pure, Option.bind_eq_bind, Option.bind_some,
    Nat.add_comm size, hmod']
  by_cases hfits : b.wpos - b.rpos + size ≤ ibufCapacity b
  · right
    simp only [if_pos hfits]
    rcases h.slab with he | ⟨addr, n, hheld⟩
    · have := he.buf
      have := he.bufEnd
      have := he.wpos
      simp only [ibufCapacity] at hfits
      omega
    · obtain ⟨hheld', hunread⟩ := hheld.defragment
      refine ⟨b.defragment (b.wpos - b.rpos), rfl, ⟨h.start, Or.inr ⟨addr, n, hheld'⟩⟩, hunread,
        ?_, ?_, rfl⟩
      · have := hheld.pos
        have := hheld.buf
        show 0 < b.buf + (b.wpos - b.rpos)
        omega
      · show b.buf + (b.wpos - b.rpos) + size ≤ b.bufEnd
        simp only [ibufCapacity] at hfits
        omega
  · simp only [if_neg hfits]
    obtain ⟨n, hn, hneeded, hstart⟩ := Ibuf.newCapacity_spec h hsize
    rw [hn]
    cases answer with
    | none => exact Or.inl rfl
    | some addr =>
        right
        obtain ⟨hheld, hunread⟩ := Ibuf.moveTo_spec h (hans n hn) hstart (by omega)
        refine ⟨b.moveTo addr (g.slabRealSize n) (b.wpos - b.rpos), rfl,
          ⟨?_, Or.inr ⟨addr, n, hheld⟩⟩, hunread, ?_, ?_, ?_⟩
        · simpa [Ibuf.moveTo] using h.start
        · have := hheld.pos
          show 0 < addr + slabSizeof + (b.wpos - b.rpos)
          omega
        · have := hheld.room
          show addr + slabSizeof + (b.wpos - b.rpos) + size ≤ addr + g.slabRealSize n
          omega
        · simp [Ibuf.moveTo]

/-- What a reservation guarantees: a failure changes nothing, and a pointer is just behind the
unread bytes, with `size` bytes before the end of the buffer. -/
structure Ibuf.Reserved (b : Ibuf) (size : Nat) (ptr : Option Nat) (b' : Ibuf) : Prop where
  unread : b'.unread = b.unread
  null : ptr = none → b' = b
  room : ∀ p, ptr = some p → p = b'.wpos ∧ p + size ≤ b'.bufEnd

theorem ofPtr_eq_some {p q : Nat} (h : ofPtr p = some q) : q = p := by
  unfold ofPtr at h
  split at h
  · simp at h
  · exact (Option.some.inj h).symm

theorem ibufReserve_spec (h : b.Inv g) (hsize : b.wpos - b.rpos + size ≤ 2 ^ 63)
    (hans : b.ReserveAnswer g size answer) :
    ∃ ptr b', ibufReserve g b size answer = some (ptr, b') ∧ b'.Inv g ∧
      b'.startCapacity = b.startCapacity ∧ b.Reserved size ptr b' := by
  obtain ⟨-, hlast, hbound⟩ := h.order
  have hmod : (b.wpos + size) % sizeMax = b.wpos + size :=
    Nat.mod_eq_of_lt (by simp only [sizeMax]; omega)
  unfold ibufReserve
  rw [hmod]
  by_cases hfits : b.wpos + size ≤ b.bufEnd
  · rw [if_pos hfits]
    refine ⟨ofPtr b.wpos, b, rfl, h, rfl, rfl, fun _ => rfl, fun p hp => ?_⟩
    have := ofPtr_eq_some hp
    exact ⟨this, by omega⟩
  · rw [if_neg hfits]
    rcases ibufReserveSlow_spec h hsize hans (by omega) with hnone
      | ⟨b', heq, hinv, hunread, -, hroom, hstart⟩
    · exact ⟨none, b, hnone, h, rfl, rfl, fun _ => rfl, fun p hp => by simp at hp⟩
    · refine ⟨some b'.wpos, b', heq, hinv, hstart, hunread, fun hp => by simp at hp, fun p hp => ?_⟩
      rw [Option.some.injEq] at hp
      exact ⟨hp.symm, by omega⟩

/-! ## Allocating -/

/-- More bytes behind the unread ones. -/
theorem Ibuf.Inv.extend (h : b.Inv g) (hroom : b.wpos + size ≤ b.bufEnd) :
    Ibuf.Inv g { b with wpos := b.wpos + size } := by
  refine ⟨h.start, ?_⟩
  rcases h.slab with he | ⟨addr, n, hh⟩
  · left
    have h1 := he.wpos
    have h2 := he.bufEnd
    exact ⟨he.buf, he.rpos, show b.wpos + size = 0 by omega, he.bufEnd, he.balance⟩
  · right
    exact ⟨addr, n, hh.pos, hh.buf, hh.bufEnd, hh.room, hh.start, hh.bound, hh.rpos,
      hh.wpos.trans (Nat.le_add_right _ _), hroom, hh.balance⟩

/-- What an allocation guarantees: a failure changes nothing, and otherwise the `size` bytes at the
pointer are appended to the unread ones. -/
structure Ibuf.Allocated (b : Ibuf) (size : Nat) (ptr : Option Nat) (b' : Ibuf) : Prop where
  null : ptr = none → b' = b
  unread : ∀ p, ptr = some p → read b'.mem b'.rpos b.unread.length = b.unread
  room : ∀ p, ptr = some p → p = b'.rpos + b.unread.length ∧ b'.wpos = p + size ∧
    p + size ≤ b'.bufEnd

theorem ibufAlloc_spec (h : b.Inv g) (hsize : b.wpos - b.rpos + size ≤ 2 ^ 63)
    (hans : b.ReserveAnswer g size answer) :
    ∃ ptr b', ibufAlloc g b size answer = some (ptr, b') ∧ b'.Inv g ∧
      b'.startCapacity = b.startCapacity ∧ b.Allocated size ptr b' := by
  obtain ⟨-, hlast, hbound⟩ := h.order
  have hle := h.rpos_le
  have hmod : (b.wpos + size) % sizeMax = b.wpos + size :=
    Nat.mod_eq_of_lt (by simp only [sizeMax]; omega)
  unfold ibufAlloc
  rw [hmod]
  by_cases hfits : b.wpos + size ≤ b.bufEnd
  · rw [if_pos hfits]
    refine ⟨ofPtr b.wpos, _, rfl, h.extend hfits,
      rfl, fun hnull => ?_, fun p _ => ?_, fun p hp => ?_⟩
    · -- only the empty buffer has a `NULL` pointer, and an empty chunk fits in it
      have hzero : b.wpos = 0 := by
        unfold ofPtr at hnull
        split at hnull
        · assumption
        · simp at hnull
      have hsize0 : size = 0 := by
        rcases h.slab with he | ⟨addr, n, hh⟩
        · have := he.bufEnd
          omega
        · have := hh.pos
          have := hh.buf
          have := hh.rpos
          omega
      subst hsize0
      rfl
    · rw [Ibuf.unread_length]
      rfl
    · have := ofPtr_eq_some hp
      rw [Ibuf.unread_length, this]
      exact ⟨by show b.wpos = b.rpos + (b.wpos - b.rpos); omega, rfl, hfits⟩
  · rw [if_neg hfits]
    rcases ibufReserveSlow_spec h hsize hans (by omega) with hnone
      | ⟨b', heq, hinv, hunread, -, hroom, hstart⟩
    · rw [hnone]
      exact ⟨none, b, rfl, h, rfl, fun _ => rfl, fun p hp => by simp at hp, fun p hp => by
        simp at hp⟩
    · rw [heq]
      have hlen : b.unread.length = b'.wpos - b'.rpos := by rw [← hunread, Ibuf.unread_length]
      refine ⟨some b'.wpos, _, rfl, hinv.extend hroom,
        hstart, fun hp => by simp at hp, fun p _ => ?_, fun p hp => ?_⟩
      · rw [hlen, ← hunread]
        rfl
      · rw [Option.some.injEq] at hp
        have := hinv.rpos_le
        rw [hlen, ← hp]
        exact ⟨by show b'.wpos = b'.rpos + (b'.wpos - b'.rpos); omega, rfl, hroom⟩

/-- The client fills the chunk. -/
theorem Ibuf.Allocated.fill_unread {ptr : Option Nat} {b' : Ibuf} {p : Nat}
    (h : b.Allocated size ptr b') (hp : ptr = some p) (data : Nat → UInt8) :
    ({ b' with mem := fill b'.mem p size data } : Ibuf).unread =
      b.unread ++ (List.range size).map data := by
  obtain ⟨h1, h2, -⟩ := h.room p hp
  have hlen : b'.wpos - b'.rpos = b.unread.length + size := by omega
  show read (fill b'.mem p size data) b'.rpos (b'.wpos - b'.rpos) = _
  rw [hlen, read_add, ← h1, read_fill, read_fill_of_disjoint (fun x _ _ => by omega), h.unread p hp]

/-! ## Shrinking -/

theorem Ibuf.shrunkCapacity_spec (b : Ibuf) (used : Nat) :
    used ≤ b.shrunkCapacity used ∧ b.startCapacity ≤ b.shrunkCapacity used ∧
    b.shrunkCapacity used = max used b.startCapacity := by
  unfold Ibuf.shrunkCapacity
  split <;> omega

/-- The size of the slab of the buffer, from its capacity. -/
theorem Ibuf.Held.slabRealSize_capacity (h : b.Held g addr n) :
    ibufCapacity b = g.slabRealSize n - slabSizeof ∧
      g.slabRealSize (ibufCapacity b) = g.slabRealSize n := by
  have h1 := h.buf
  have h2 := h.bufEnd
  have h3 := h.bound
  have h4 := h.room
  have hcap : ibufCapacity b = g.slabRealSize n - slabSizeof := by
    simp only [ibufCapacity]
    omega
  refine ⟨hcap, ?_⟩
  rw [hcap]
  exact g.slabRealSize_capacity (by simp only [sizeMax]; omega) (by simp only [sizeMax]; omega)

/-- What `ibuf_shrink` guarantees. -/
structure Ibuf.Shrunk (g : Geometry) (b : Ibuf) (answer : Option Nat) (b' : Ibuf) : Prop where
  unread : b'.unread = b.unread
  le : ibufCapacity b' ≤ ibufCapacity b
  empty : b.unread = [] → b'.Empty
  room : b.unread ≠ [] → max b.unread.length b.startCapacity ≤ ibufCapacity b'
  again : answer ≠ none → ∀ answer', ibufShrink g b' answer' = some b'
  /-- Without memory nothing changes. -/
  refused : b.unread ≠ [] → answer = none → b' = b

/-- Shrinking a buffer with nothing to read. -/
theorem ibufShrink_of_empty (h : b.Inv g) (hused : b.wpos - b.rpos = 0) (answer : Option Nat) :
    ibufShrink g b answer = some b.putSlab.null := by
  simp [ibufShrink, ibufUsed_eq h, hused]

/-- Shrinking a buffer whose slab has the right size already. -/
theorem ibufShrink_of_same (h : b.Inv g) (hused : b.wpos - b.rpos ≠ 0)
    (hsame : g.slabRealSize (ibufCapacity b) = g.slabRealSize (b.shrunkCapacity (b.wpos - b.rpos)))
    (answer : Option Nat) : ibufShrink g b answer = some b := by
  simp [ibufShrink, ibufUsed_eq h, hused, hsame]

theorem ibufShrink_spec (answer : Option Nat) (h : b.Inv g)
    (hans : b.Answer g (b.shrunkCapacity (b.wpos - b.rpos)) answer) :
    ∃ b', ibufShrink g b answer = some b' ∧ b'.Inv g ∧ b'.startCapacity = b.startCapacity ∧
      b.Shrunk g answer b' := by
  have hlen := b.unread_length
  by_cases hused : b.wpos - b.rpos = 0
  · have hnil : b.unread = [] := List.length_eq_zero_iff.mp (hlen.trans hused)
    obtain ⟨hempty, hunread⟩ := Ibuf.null_spec h
    have hinv : b.putSlab.null.Inv g := ⟨by simpa [Ibuf.null] using h.start, Or.inl hempty⟩
    refine ⟨b.putSlab.null, ibufShrink_of_empty h hused answer, hinv, by simp [Ibuf.null], ?_⟩
    refine ⟨hunread.trans hnil.symm, Nat.zero_le _, fun _ => hempty, fun hne => absurd hnil hne, ?_,
      fun hne => absurd hnil hne⟩
    intro _ answer'
    rw [ibufShrink_of_empty hinv rfl answer']
    rfl
  · have hne : b.unread ≠ [] := fun hnil => hused (hlen.symm.trans (congrArg List.length hnil))
    obtain ⟨addr, n, hheld⟩ : ∃ addr n, b.Held g addr n := by
      rcases h.slab with he | hheld
      · have := he.wpos
        omega
      · exact hheld
    obtain ⟨hm1, hm2, hmax⟩ := b.shrunkCapacity_spec (b.wpos - b.rpos)
    obtain ⟨hcap, hreal⟩ := hheld.slabRealSize_capacity
    set m := b.shrunkCapacity (b.wpos - b.rpos) with hm
    have hmcap : m ≤ ibufCapacity b := by
      have h1 := hheld.start
      have h2 := hheld.room
      have h3 := hheld.rpos
      have h4 := hheld.last
      have h5 : b.wpos - b.rpos ≤ ibufCapacity b := by
        simp only [ibufCapacity]
        omega
      omega
    by_cases hsame : g.slabRealSize (ibufCapacity b) = g.slabRealSize m
    · refine ⟨b, ibufShrink_of_same h hused hsame answer, h, rfl, rfl, Nat.le_refl _,
        fun hnil => absurd hnil hne, fun _ => ?_, fun _ =>
        ibufShrink_of_same h hused hsame, fun _ _ => rfl⟩
      rw [hlen, ← hmax]
      exact hmcap
    · cases answer with
      | none =>
          refine ⟨b, by simp [ibufShrink, ibufUsed_eq h, hused], h, rfl, rfl, Nat.le_refl _,
            fun hnil => absurd hnil hne, fun _ => ?_, fun hnone => absurd rfl hnone, fun _ _ => rfl⟩
          rw [hlen, ← hmax]
          exact hmcap
      | some addr' =>
          obtain ⟨hheld', hunread⟩ := Ibuf.moveTo_spec h hans hm2 hm1
          set b' := b.moveTo addr' (g.slabRealSize m) (b.wpos - b.rpos) with hb'
          have hstart : b'.startCapacity = b.startCapacity := by simp [hb', Ibuf.moveTo]
          have hinv : b'.Inv g := ⟨hstart ▸ h.start, Or.inr ⟨addr', m, hheld'⟩⟩
          obtain ⟨hcap', hreal'⟩ := hheld'.slabRealSize_capacity
          have hused' : b'.wpos - b'.rpos = b.wpos - b.rpos := Nat.add_sub_cancel_left _ _
          refine ⟨b', ?_, hinv, hstart, hunread,
            ?_, fun hnil => absurd hnil hne, fun _ => ?_, fun _ => ?_,
            fun _ hnone => (by cases hnone)⟩
          · simp [ibufShrink, ibufUsed_eq h, hused, ← hm, hsame, hb']
          · have hbound := hheld.bound
            have hmono := g.slabRealSize_mono hmcap (by
              simp only [ibufCapacity, sizeMax, slabSizeof]
              omega)
            omega
          · have := hheld'.room
            rw [hlen, ← hmax]
            omega
          · refine ibufShrink_of_same hinv (by omega) ?_
            rw [hreal', hused', Ibuf.shrunkCapacity, hstart, hm, Ibuf.shrunkCapacity]

/-! ## Consuming and discarding -/

/-- The invariant does not depend on the contents of the memory. -/
theorem Ibuf.Inv.setMem (h : b.Inv g) (mem : Nat → UInt8) : Ibuf.Inv g { b with mem := mem } := by
  refine ⟨h.start, ?_⟩
  rcases h.slab with he | ⟨addr, n, hh⟩
  · exact Or.inl ⟨he.buf, he.rpos, he.wpos, he.bufEnd, he.balance⟩
  · exact Or.inr ⟨addr, n, hh.pos, hh.buf, hh.bufEnd, hh.room, hh.start, hh.bound, hh.rpos,
      hh.wpos, hh.last, hh.balance⟩

/-- Taking bytes from either end. -/
theorem Ibuf.Inv.narrow (h : b.Inv g) (rpos wpos : Nat) (hr : b.rpos ≤ rpos) (hrw : rpos ≤ wpos)
    (hw : wpos ≤ b.wpos) : Ibuf.Inv g { b with rpos := rpos, wpos := wpos } := by
  refine ⟨h.start, ?_⟩
  rcases h.slab with he | ⟨addr, n, hh⟩
  · left
    have := he.wpos
    exact ⟨he.buf, show rpos = 0 by omega, show wpos = 0 by omega, he.bufEnd, he.balance⟩
  · right
    exact ⟨addr, n, hh.pos, hh.buf, hh.bufEnd, hh.room, hh.start, hh.bound, hh.rpos.trans hr, hrw,
      hw.trans hh.last, hh.balance⟩

theorem ibufConsume_spec (h : b.Inv g) (size : Nat) (hsize : size ≤ b.unread.length) :
    ∃ b', ibufConsume b size = some b' ∧ b'.Inv g ∧ b'.unread = b.unread.drop size := by
  have hle := h.rpos_le
  rw [Ibuf.unread_length] at hsize
  have hinv := h.narrow (b.rpos + size) b.wpos (by omega) (by omega) (Nat.le_refl _)
  refine ⟨{ b with rpos := b.rpos + size }, ?_, hinv, ?_⟩
  · simp [ibufConsume, ibufUsed_eq h, guard, hsize]
  · rw [Ibuf.unread, Ibuf.unread, read_drop' _ _ hsize, Nat.sub_sub]

theorem ibufDiscard_spec (h : b.Inv g) (size : Nat) (hsize : size ≤ b.unread.length) :
    ∃ b', ibufDiscard b size = some b' ∧ b'.Inv g ∧
      b'.unread = b.unread.take (b.unread.length - size) := by
  have hle := h.rpos_le
  have hlen := b.unread_length
  rw [hlen] at hsize
  have hinv := h.narrow b.rpos (b.wpos - size) (Nat.le_refl _) (by omega) (by omega)
  refine ⟨{ b with wpos := b.wpos - size }, ?_, hinv, ?_⟩
  · simp [ibufDiscard, ibufUsed_eq h, guard, hsize]
  · rw [hlen, Ibuf.unread, Ibuf.unread, read_take _ _ (by omega)]
    show read b.mem b.rpos (b.wpos - size - b.rpos) = read b.mem b.rpos (b.wpos - b.rpos - size)
    congr 1
    omega

end SmallAllocators
