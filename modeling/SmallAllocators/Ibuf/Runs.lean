/-
SmallAllocators.Ibuf.Runs — the input buffer is a queue of bytes.

The abstract state of the buffer is the list of bytes that were appended and
not consumed or discarded (`IbufState.queue`). `ibufMachine` has all runs of
the functions of the header, with any answers of `slab_get`;
`ibuf_exact_queue` says that the buffer refines the queue in each of them.
-/
import SmallAllocators.SlabCache.Runs
import SmallAllocators.Ibuf.Invariant

namespace SmallAllocators

open Memory

/-! ## The machine -/

/-- The buffer, and the bytes that it should hold. -/
structure IbufState where
  ibuf : Ibuf
  queue : List UInt8

inductive IbufOp where
  /-- `ibuf_alloc`, after which the client fills the chunk with `data`. -/
  | alloc (size : Nat) (data : Nat → UInt8) (answer : Option Nat)
  | reserve (size : Nat) (answer : Option Nat)
  | consume (size : Nat)
  | consumeBefore (ptr : Nat)
  | discard (size : Nat)
  | truncate (used : Nat)
  | shrink (answer : Option Nat)
  | reset
  | reinit
  /-- Memory other than the unread bytes changes. -/
  | write (mem : Nat → UInt8)

/-- The assertions on the arguments, and what `slab_get` may answer. -/
def IbufOp.Allowed (g : Geometry) (s : IbufState) : IbufOp → Prop
  | .alloc size _ answer => s.queue.length + size ≤ 2 ^ 63 ∧ s.ibuf.ReserveAnswer g size answer
  | .reserve size answer => s.queue.length + size ≤ 2 ^ 63 ∧ s.ibuf.ReserveAnswer g size answer
  | .consume size => size ≤ s.queue.length
  | .consumeBefore ptr => s.ibuf.rpos ≤ ptr ∧ ptr ≤ s.ibuf.wpos
  | .discard size => size ≤ s.queue.length
  | .truncate used => used ≤ s.queue.length
  | .shrink answer => s.ibuf.Answer g (s.ibuf.shrunkCapacity s.queue.length) answer
  | .reset => True
  | .reinit => True
  | .write mem => ∀ x, s.ibuf.rpos ≤ x → x < s.ibuf.wpos → mem x = s.ibuf.mem x

def IbufOp.exec (g : Geometry) (s : IbufState) : IbufOp → Option IbufState
  | .alloc size data answer => do
    match ← ibufAlloc g s.ibuf size answer with
    | (none, b) => some { s with ibuf := b }
    | (some p, b) =>
      some { ibuf := { b with mem := fill b.mem p size data }
             queue := s.queue ++ (List.range size).map data }
  | .reserve size answer => do
    let (_, b) ← ibufReserve g s.ibuf size answer
    some { s with ibuf := b }
  | .consume size => do
    let b ← ibufConsume s.ibuf size
    some { ibuf := b, queue := s.queue.drop size }
  | .consumeBefore ptr => do
    let b ← ibufConsumeBefore s.ibuf ptr
    some { ibuf := b, queue := s.queue.drop (ptr - s.ibuf.rpos) }
  | .discard size => do
    let b ← ibufDiscard s.ibuf size
    some { ibuf := b, queue := s.queue.take (s.queue.length - size) }
  | .truncate used => do
    let b ← ibufTruncate s.ibuf used
    some { ibuf := b, queue := s.queue.take used }
  | .shrink answer => do
    let b ← ibufShrink g s.ibuf answer
    some { s with ibuf := b }
  | .reset => some { ibuf := ibufReset s.ibuf, queue := [] }
  | .reinit => some { ibuf := ibufReinit s.ibuf, queue := [] }
  | .write mem => some { s with ibuf := { s.ibuf with mem := mem } }

/-- The runs of a buffer, on a slab cache with the constants `g`. -/
def ibufMachine (g : Geometry) : Machine IbufState IbufOp where
  init := fun s => ∃ mem startCapacity, 1 ≤ startCapacity ∧
    s = { ibuf := ibufCreate mem startCapacity, queue := [] }
  allowed := IbufOp.Allowed g
  exec := IbufOp.exec g

/-! ## The invariant over runs -/

variable {g : Geometry} {s : IbufState}

structure IbufState.Inv (g : Geometry) (s : IbufState) : Prop where
  ibuf : s.ibuf.Inv g
  queue : s.ibuf.unread = s.queue

theorem ibufCreate_inv (mem : Nat → UInt8) {startCapacity : Nat} (h : 1 ≤ startCapacity) :
    IbufState.Inv g { ibuf := ibufCreate mem startCapacity, queue := [] } :=
  ⟨⟨h, Or.inl ⟨rfl, rfl, rfl, rfl, List.Perm.refl _⟩⟩, rfl⟩

theorem IbufState.Inv.length (h : s.Inv g) : s.queue.length = s.ibuf.wpos - s.ibuf.rpos := by
  rw [← h.queue, Ibuf.unread_length]

theorem IbufOp.exec_inv (h : s.Inv g) (op : IbufOp) (hop : op.Allowed g s) :
    ∃ s', op.exec g s = some s' ∧ s'.Inv g := by
  have hlen := h.length
  have hq := h.queue
  cases op with
  | alloc size data answer =>
      obtain ⟨hsize, hans⟩ := hop
      obtain ⟨ptr, b, heq, hinv, -, halloc⟩ := ibufAlloc_spec h.ibuf (hlen ▸ hsize) hans
      cases ptr with
      | none =>
          refine ⟨{ s with ibuf := b }, by simp [IbufOp.exec, heq], ?_⟩
          rw [halloc.null rfl]
          exact h
      | some p =>
          refine ⟨_, by simp only [IbufOp.exec, heq]; rfl, hinv.setMem _, ?_⟩
          rw [← hq]
          exact halloc.fill_unread rfl data
  | reserve size answer =>
      obtain ⟨hsize, hans⟩ := hop
      obtain ⟨ptr, b, heq, hinv, -, hres⟩ := ibufReserve_spec h.ibuf (hlen ▸ hsize) hans
      exact ⟨{ s with ibuf := b }, by simp [IbufOp.exec, heq], hinv, hres.unread.trans hq⟩
  | consume size =>
      obtain ⟨b, heq, hinv, hunread⟩ := ibufConsume_spec h.ibuf size (by rw [hq]; exact hop)
      exact ⟨_, by simp only [IbufOp.exec, heq]; rfl, hinv, by rw [hunread, hq]⟩
  | consumeBefore ptr =>
      obtain ⟨h1, h2⟩ := hop
      obtain ⟨b, heq, hinv, hunread⟩ :=
        ibufConsume_spec h.ibuf (ptr - s.ibuf.rpos) (by rw [hq]; omega)
      have hex : ibufConsumeBefore s.ibuf ptr = some b := by
        simp [ibufConsumeBefore, guard, h1, h2, heq]
      exact ⟨_, by simp only [IbufOp.exec, hex]; rfl, hinv, by rw [hunread, hq]⟩
  | discard size =>
      obtain ⟨b, heq, hinv, hunread⟩ := ibufDiscard_spec h.ibuf size (by rw [hq]; exact hop)
      exact ⟨_, by simp only [IbufOp.exec, heq]; rfl, hinv, by rw [hunread, hq]⟩
  | truncate used =>
      have hle : used ≤ s.queue.length := hop
      obtain ⟨b, heq, hinv, hunread⟩ := ibufDiscard_spec h.ibuf (s.queue.length - used)
        (by rw [hq]; exact Nat.sub_le _ _)
      have hex : ibufTruncate s.ibuf used = some b := by
        rw [hlen] at hle heq
        simp [ibufTruncate, ibufUsed_eq h.ibuf, guard, hle, heq]
      refine ⟨_, by simp only [IbufOp.exec, hex]; rfl, hinv, ?_⟩
      show b.unread = s.queue.take used
      rw [hunread, hq, Nat.sub_sub_self hle]
  | shrink answer =>
      obtain ⟨b, heq, hinv, -, hshrunk⟩ := ibufShrink_spec answer h.ibuf
        (by rw [← hlen]; exact hop)
      exact ⟨{ s with ibuf := b }, by simp [IbufOp.exec, heq], hinv, hshrunk.unread.trans hq⟩
  | reset =>
      refine ⟨_, rfl, ⟨h.ibuf.start, ?_⟩, ?_⟩
      · rcases h.ibuf.slab with he | ⟨addr, n, hh⟩
        · exact Or.inl ⟨he.buf, he.buf, he.buf, he.bufEnd, he.balance⟩
        · obtain ⟨h1, h2, -⟩ := h.ibuf.order
          have h3 := h.ibuf.rpos_le
          exact Or.inr ⟨addr, n, hh.pos, hh.buf, hh.bufEnd, hh.room, hh.start, hh.bound,
            Nat.le_refl _, Nat.le_refl _, show s.ibuf.buf ≤ s.ibuf.bufEnd by omega, hh.balance⟩
      · show read s.ibuf.mem s.ibuf.buf (s.ibuf.buf - s.ibuf.buf) = []
        rw [Nat.sub_self, read_zero]
  | reinit =>
      obtain ⟨hempty, hunread⟩ := Ibuf.null_spec h.ibuf
      exact ⟨_, rfl,
        ⟨by simpa [ibufReinit, ibufDestroy, Ibuf.null] using h.ibuf.start, Or.inl hempty⟩,
        hunread⟩
  | write mem =>
      refine ⟨_, rfl, h.ibuf.setMem mem, ?_⟩
      rw [← hq]
      have hle := h.ibuf.rpos_le
      show read mem s.ibuf.rpos (s.ibuf.wpos - s.ibuf.rpos) = s.ibuf.unread
      exact read_congr fun x h1 h2 => hop x h1 (by omega)

/-! ## The queue -/

/-- The buffer `s` is its queue. -/
structure IbufState.Exact (g : Geometry) (s : IbufState) : Prop where
  /-- There is no slab, or one slab with the four pointers in it, in order. -/
  layout : s.ibuf.Empty ∨ ∃ addr n, s.ibuf.Held g addr n
  queue : s.ibuf.unread = s.queue
  returns : ∀ op : IbufOp, op.Allowed g s → ∃ s', op.exec g s = some s'
  reserve : ∀ size answer, (IbufOp.reserve size answer).Allowed g s →
    ∃ ptr b, ibufReserve g s.ibuf size answer = some (ptr, b) ∧ s.ibuf.Reserved size ptr b
  alloc : ∀ size data answer, (IbufOp.alloc size data answer).Allowed g s →
    ∃ ptr b, ibufAlloc g s.ibuf size answer = some (ptr, b) ∧ s.ibuf.Allocated size ptr b
  shrink : ∀ answer, (IbufOp.shrink answer).Allowed g s →
    ∃ b, ibufShrink g s.ibuf answer = some b ∧ s.ibuf.Shrunk g answer b

/-- **The input buffer is an exact queue of bytes** in every run, whatever memory is available. -/
theorem ibuf_exact_queue (g : Geometry) (s : IbufState) (hs : (ibufMachine g).Reachable s) :
    s.Exact g := by
  have hinit : ∀ s, (ibufMachine g).init s → s.Inv g := by
    rintro s ⟨mem, startCapacity, hstart, rfl⟩
    exact ibufCreate_inv mem hstart
  obtain ⟨h, -⟩ := (ibufMachine g).invariant hinit (fun s op h hop => IbufOp.exec_inv h op hop) hs
  have hlen := h.length
  refine ⟨h.ibuf.slab,
    h.queue, fun op hop => ?_, fun size answer hop => ?_, fun size data answer hop => ?_,
    fun answer hop => ?_⟩
  · obtain ⟨s', hex, -⟩ := IbufOp.exec_inv h op hop
    exact ⟨s', hex⟩
  · obtain ⟨ptr, b, heq, -, -, hres⟩ := ibufReserve_spec h.ibuf (hlen ▸ hop.1) hop.2
    exact ⟨ptr, b, heq, hres⟩
  · obtain ⟨ptr, b, heq, -, -, halloc⟩ := ibufAlloc_spec h.ibuf (hlen ▸ hop.1) hop.2
    exact ⟨ptr, b, heq, halloc⟩
  · obtain ⟨b, heq, -, -, hshrunk⟩ := ibufShrink_spec answer h.ibuf (by rw [← hlen]; exact hop)
    exact ⟨b, heq, hshrunk⟩

/-- A buffer with 100 bytes, in a slab of one page. -/
def oneChunkIbuf : IbufState where
  ibuf :=
    { buf := 16432
      rpos := 16432
      wpos := 16532
      bufEnd := 20480
      startCapacity := 1
      mem := fill (copy (fun _ => 0) 16432 0 0) 16432 100 fun _ => 7
      gets := [16384]
      puts := [] }
  queue := [] ++ (List.range 100).map fun _ => 7

theorem ibuf_exact_queue_one_chunk :
    (ibufMachine fourPages).Reachable oneChunkIbuf ∧ oneChunkIbuf.Exact fourPages := by
  have hstart :
      (ibufMachine fourPages).Reachable { ibuf := ibufCreate (fun _ => 0) 1, queue := [] } :=
    .init ⟨fun _ => 0, 1, Nat.le_refl 1, rfl⟩
  have hreach : (ibufMachine fourPages).Reachable oneChunkIbuf := by
    refine .step (.alloc 100 (fun _ => 7) (some 16384)) hstart
      ⟨by decide, fun n hn addr haddr => ?_⟩ rfl
    have hn' : n = 128 := (Option.some.inj hn).symm
    rw [Option.some.injEq] at haddr
    subst hn' haddr
    exact ⟨by decide, by decide, by decide, fun h => absurd rfl h⟩
  exact ⟨hreach, ibuf_exact_queue fourPages oneChunkIbuf hreach⟩

end SmallAllocators
