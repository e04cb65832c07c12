/-
SmallAllocators.Obuf.AsanRuns — runs of the output buffer with ASAN, alone
and beside the one on slabs.

`obuf_asan_exact_log` is what `Obuf.Runs` proves of the buffer on slabs,
here for every start capacity: the buffer is a log of bytes with savepoints.
Both implementations are the same log, so a client that makes the same calls
has the same bytes in both (`obuf_builds_agree`), as long as the slab cache
has memory.
-/
import SmallAllocators.Obuf.Asan
import SmallAllocators.Obuf.Runs

namespace SmallAllocators

open Memory

/-! ## The machine -/

/-- The buffer, the bytes that it should hold, and those that it should hold after a rollback to
each savepoint. -/
structure AsanObufState where
  obuf : AsanObuf
  content : List UInt8
  svps : List (ObufSvp × List UInt8)

inductive AsanObufOp where
  | dup (data : Nat → UInt8) (size : Nat) (payload : Nat → UInt8)
  /-- `obuf_alloc`, after which the client fills the chunk with `data`. -/
  | alloc (size : Nat) (data : Nat → UInt8) (payload : Nat → UInt8)
  | reserve (size : Nat) (payload : Nat → UInt8)
  | createSvp
  /-- `obuf_rollback_to_svp` with the savepoint number `k` from the newest one. -/
  | rollbackToSvp (k : Nat)
  | reset
  /-- Memory of block `i` other than the contents changes. -/
  | write (i : Nat) (mem : Nat → UInt8)

/-- A store to the memory of block `i`. -/
def AsanObuf.overwrite (b : AsanObuf) (i : Nat) (mem : Nat → UInt8) : AsanObuf :=
  b.set i { b.vec i with base := (b.vec i).base.map fun _ => mem }

/-- The blocks that `malloc` returns fit in the address space. -/
def AsanObuf.Fits (b : AsanObuf) (size : Nat) (payload : Nat → UInt8) : Prop :=
  ∀ b', obufPrepareBuf b size payload = some b' → b'.footprint < 2 ^ 63

/-- The assertions on the arguments, and what `malloc` may return. -/
def AsanObufOp.Allowed (s : AsanObufState) : AsanObufOp → Prop
  | .dup _ size payload => size < 2 ^ 62 ∧ s.obuf.Fits size payload ∧
      (s.obuf.reserved = true → size ≤ s.obuf.unallocatedSize)
  | .alloc size _ payload => size < 2 ^ 62 ∧ s.obuf.Fits size payload ∧
      (s.obuf.reserved = true → size ≤ s.obuf.unallocatedSize)
  | .reserve size payload => size < 2 ^ 62 ∧ s.obuf.Fits size payload ∧ s.obuf.reserved = false
  | .createSvp => True
  | .rollbackToSvp k => k < s.svps.length
  | .reset => True
  | .write i mem => ∀ old, (s.obuf.vec i).base = some old → ∀ x < (s.obuf.vec i).len, mem x = old x

def AsanObufOp.exec (s : AsanObufState) : AsanObufOp → Option AsanObufState
  | .dup data size payload => do
    let (n, b) ← asanObufDup s.obuf data size payload
    some { s with obuf := b, content := s.content ++ (List.range n).map data }
  | .alloc size data payload => do
    let (offset, b) ← asanObufAlloc s.obuf size payload
    some { s with
      obuf := b.store offset size data, content := s.content ++ (List.range size).map data }
  | .reserve size payload => do
    let b ← asanObufReserve s.obuf size payload
    some { s with obuf := b }
  | .createSvp => some { s with svps := (asanObufCreateSvp s.obuf, s.content) :: s.svps }
  | .rollbackToSvp k => do
    let (svp, content) ← s.svps[k]?
    let b ← asanObufRollbackToSvp s.obuf svp
    -- the savepoints that were made later are gone
    some { obuf := b, content := content, svps := s.svps.drop k }
  | .reset => do
    let b ← asanObufReset s.obuf
    some { obuf := b, content := [], svps := [] }
  | .write i mem => some { s with obuf := s.obuf.overwrite i mem }

def asanObufMachine (startCapacity : Nat) : Machine AsanObufState AsanObufOp where
  init := fun s => s = { obuf := asanObufCreate startCapacity, content := [], svps := [] }
  allowed := AsanObufOp.Allowed
  exec := AsanObufOp.exec

/-! ## When a call does not return -/

variable {b b' : AsanObuf} {s : AsanObufState} {size : Nat} {payload data : Nat → UInt8}

/-- The call needs a new block, and all entries have one, or the capacity that the loop doubles
is 0. -/
def AsanObuf.Stuck (b : AsanObuf) (size : Nat) : Prop :=
  smallObufIovCheckedMax ≤ b.pos ∧ (b.vec b.pos).capacity < (b.vec b.pos).len + size ∧
    (b.pos + 1 = asanObufIovMax ∨ sizeMax ∣ b.startCapacity <<< (b.pos - smallObufIovCheckedMax))

theorem growLoop_zero {needed : Nat} (hpos : 0 < needed) (fuel : Nat) :
    growLoop needed fuel 0 = none := by
  induction fuel with
  | zero => rfl
  | succ fuel ih =>
      rw [growLoop, if_pos hpos]
      exact ih

theorem AsanObuf.nextCapacity_eq_none_iff (hsize : size < 2 ^ 62) (hpos : 0 < size) :
    b.nextCapacity size = none ↔
      smallObufIovCheckedMax ≤ b.pos ∧
      sizeMax ∣ b.startCapacity <<< (b.pos - smallObufIovCheckedMax) := by
  unfold AsanObuf.nextCapacity
  split
  · next hlt => exact iff_of_false (Option.some_ne_none _) fun h => absurd h.1 (Nat.not_le.2 hlt)
  · next hge =>
    rw [Nat.dvd_iff_mod_eq_zero]
    generalize b.startCapacity <<< (b.pos - smallObufIovCheckedMax) % sizeMax = c
    rcases Nat.eq_zero_or_pos c with rfl | hc
    · exact iff_of_true (growLoop_zero hpos 65) ⟨Nat.not_lt.1 hge, rfl⟩
    · have hle : size ≤ 2 ^ 63 := by omega
      obtain ⟨n, hn, -⟩ := growLoop_spec hle 64 c (by omega)
      exact iff_of_false (by rw [hn]; exact Option.some_ne_none n) fun h => by omega

/-- When `obuf_prepare_buf` does not return. -/
theorem obufPrepareBuf_eq_none_iff (h : b.Inv) (hsize : size < 2 ^ 62) (payload : Nat → UInt8) :
    obufPrepareBuf b size payload = none ↔ b.Stuck size := by
  have hlen := h.len b.pos
  have hcap := h.capacity_lt
  have hlt := h.pos
  have hmod : ((b.vec b.pos).len + size) % sizeMax = (b.vec b.pos).len + size :=
    Nat.mod_eq_of_lt (by simp only [sizeMax]; omega)
  unfold obufPrepareBuf AsanObuf.Stuck
  rw [hmod]
  by_cases hnew : b.pos < smallObufIovCheckedMax ∨ (b.vec b.pos).len + size > (b.vec b.pos).capacity
  · rw [if_pos hnew]
    by_cases hchecked : b.pos < smallObufIovCheckedMax
    · -- a block of its own
      obtain ⟨c, hc⟩ : ∃ c, b.nextCapacity size = some c := ⟨_, if_pos hchecked⟩
      have hguard :
          (if (b.vec b.pos).base.isSome = true then b.pos + 1 else b.pos) < asanObufIovMax := by
        simp only [smallObufIovCheckedMax, asanObufIovMax] at hchecked ⊢
        split <;> omega
      refine iff_of_false ?_ fun hstuck => absurd hstuck.1 (Nat.not_le.2 hchecked)
      simp [hc, guard, hguard]
    · have hfull : (b.vec b.pos).capacity < (b.vec b.pos).len + size := by omega
      have hbase : (b.vec b.pos).base.isSome = true := by
        refine h.base_isSome (Nat.le_refl _) (.inl ?_)
        simp only [smallObufIovCheckedMax] at hchecked
        omega
      have hnone := AsanObuf.nextCapacity_eq_none_iff (b := b) hsize (by omega : 0 < size)
      simp only [Nat.not_lt.1 hchecked, true_and] at hnone
      simp only [Nat.not_lt.1 hchecked, hfull, true_and, hbase, if_true, ← hnone]
      cases hc : b.nextCapacity size with
      | none => simp
      | some c =>
          by_cases hguard : b.pos + 1 < asanObufIovMax
          · simp [guard, hguard]
            omega
          · simp [guard, hguard]
            omega
  · rw [if_neg hnew]
    exact iff_of_false (Option.some_ne_none b) fun hstuck => by omega

/-- The current block has room for `size` bytes, or the call does not return. At the checked entries
nothing else is in it. -/
theorem AsanObuf.ready_spec (h : b.Inv) (hsize : size < 2 ^ 62) (hfits : b.Fits size payload)
    (hres : b.reserved = true → size ≤ b.unallocatedSize) :
    b.ready size payload = none ∧ b.reserved = false ∧ b.Stuck size ∨
    ∃ b', b.ready size payload = some b' ∧ ¬ (b.reserved = false ∧ b.Stuck size) ∧ b.Same b' ∧
      (b'.vec b'.pos).len + size ≤ (b'.vec b'.pos).capacity ∧ (b'.vec b'.pos).base.isSome = true ∧
      b'.reserved = false ∧ (b.pos < smallObufIovCheckedMax → (b'.vec b'.pos).len = 0) := by
  unfold AsanObuf.ready
  cases hflag : b.reserved with
  | true =>
      right
      have hle := hres hflag
      have hlen := h.len b.pos
      have hcap := h.capacity_lt
      have hroom : b.unallocatedSize = (b.vec b.pos).capacity - (b.vec b.pos).len := by
        have hmax : 2 ^ 63 < sizeMax := by decide
        rw [AsanObuf.unallocatedSize, show (b.vec b.pos).capacity + (sizeMax - (b.vec b.pos).len) =
          (b.vec b.pos).capacity - (b.vec b.pos).len + sizeMax by omega, Nat.add_mod_right,
          Nat.mod_eq_of_lt (by omega)]
      have hsame := h.setReserved false (fun he => by cases he) (fun he => by cases he)
      refine ⟨{ b with reserved := false }, by simp [guard, hle], by simp, hsame, ?_,
        h.reserved hflag, rfl, h.fresh hflag⟩
      show (b.vec b.pos).len + size ≤ (b.vec b.pos).capacity
      omega
  | false =>
      rw [if_neg (by simp)]
      cases hrun : obufPrepareBuf b size payload with
      | none => exact .inl ⟨rfl, rfl, (obufPrepareBuf_eq_none_iff h hsize payload).1 hrun⟩
      | some b' =>
          right
          have hnot : ¬ b.Stuck size := by
            rw [← obufPrepareBuf_eq_none_iff h hsize payload, hrun]
            exact Option.some_ne_none b'
          obtain ⟨hsame, hroom, hbase, hr, hfresh⟩ :=
            obufPrepareBuf_spec h hsize hrun (hfits b' hrun)
          exact ⟨b', rfl, fun he => hnot he.2, hsame, hroom, hbase, hr.trans hflag, hfresh⟩

/-- `obuf_alloc`, with the data in the chunk. -/
theorem asanObufAlloc_spec (h : b.Inv) (hsize : size < 2 ^ 62) (hfits : b.Fits size payload)
    (hres : b.reserved = true → size ≤ b.unallocatedSize) (data : Nat → UInt8) :
    asanObufAlloc b size payload = none ∧ b.reserved = false ∧ b.Stuck size ∨
    ∃ offset b', asanObufAlloc b size payload = some (offset, b') ∧
    ¬ (b.reserved = false ∧ b.Stuck size) ∧
      b.Wrote ((List.range size).map data) (b'.store offset size data) ∧
      (b.pos < smallObufIovCheckedMax → offset = 0) := by
  rcases AsanObuf.ready_spec h hsize hfits hres with ⟨hnone, hstuck⟩
    | ⟨b₁, hready, hnot, hsame, hroom, hbase, hr, hfresh⟩
  · exact .inl ⟨by simp [asanObufAlloc, hnone], hstuck⟩
  · right
    refine ⟨(b₁.vec b₁.pos).len,
      _, by simp only [asanObufAlloc, hready, Option.bind_eq_bind, Option.bind_some]; rfl, hnot,
      ?_, hfresh⟩
    exact hsame.wrote (AsanObuf.take_spec hsame.inv data hroom hbase hr)

theorem asanObufReserve_spec (h : b.Inv) (hsize : size < 2 ^ 62) (hfits : b.Fits size payload)
    (hres : b.reserved = false) :
    asanObufReserve b size payload = none ∧ b.Stuck size ∨
    ∃ b', asanObufReserve b size payload = some b' ∧ ¬ b.Stuck size ∧ b.Same b' := by
  have hnone := obufPrepareBuf_eq_none_iff h hsize payload
  cases hrun : obufPrepareBuf b size payload with
  | none => exact .inl ⟨by simp [asanObufReserve, hres, guard, hrun], hnone.1 hrun⟩
  | some b₁ =>
      right
      obtain ⟨hsame, -, hbase, -, hfresh⟩ := obufPrepareBuf_spec h hsize hrun (hfits b₁ hrun)
      have hflag := hsame.inv.setReserved true (fun _ => hbase) fun _ hlt =>
        hfresh (hsame.keeps.pos.trans_lt hlt)
      refine ⟨{ b₁ with reserved := true }, by simp [asanObufReserve, hres, guard, hrun], ?_,
        hflag.inv, hsame.keeps.trans hflag.keeps, hflag.content.trans hsame.content, hsame.start⟩
      rw [← hnone, hrun]
      exact Option.some_ne_none b₁

/-! ## The log -/

/-- The savepoint `svp` is a position in what the buffer has written, with the bytes `content`
before it. -/
structure ObufSvp.AtBlocks (svp : ObufSvp) (content : List UInt8) (b : AsanObuf) : Prop where
  pos : svp.pos ≤ b.pos
  len : svp.iovLen ≤ (b.vec svp.pos).len
  bytes : b.upTo svp.pos svp.iovLen = content
  used : svp.used = content.length

theorem ObufSvp.AtBlocks.keeps {svp : ObufSvp} {content : List UInt8} (h : svp.AtBlocks content b)
    (hk : b.Keeps b') :
    svp.AtBlocks content b' :=
  ⟨h.pos.trans hk.pos, h.len.trans (hk.len _ h.pos), by rw [hk.upTo h.pos h.len, h.bytes], h.used⟩

/-- A rollback keeps the savepoints before the one that it goes to. -/
theorem ObufSvp.AtBlocks.rollback {svp old : ObufSvp} {content : List UInt8}
    (h : old.AtBlocks content b) (hb : b.BackAt svp b') (hle : old.Le svp) :
    old.AtBlocks content b' := by
  refine ⟨?_, ?_, (hb.upTo hle).trans h.bytes, h.used⟩
  · rw [hb.pos]
    rcases hle with hlt | ⟨heq, -⟩ <;> omega
  · rcases hle with hlt | ⟨heq, hle⟩
    · rw [hb.whole _ hlt]
      exact h.len
    · rw [heq, hb.len]
      exact hle

/-- The buffer has the bytes and the savepoints that it should have. -/
structure AsanObufState.Inv (s : AsanObufState) : Prop where
  obuf : s.obuf.Inv
  content : s.obuf.content = s.content
  svps : ∀ x ∈ s.svps, x.1.AtBlocks x.2 s.obuf
  sorted : s.svps.Pairwise fun x y => y.1.Le x.1

theorem AsanObufState.Inv.wrote (h : s.Inv) {data : List UInt8} (hw : s.obuf.Wrote data b) :
    AsanObufState.Inv { s with obuf := b, content := s.content ++ data } :=
  ⟨hw.inv, by rw [hw.content, h.content], fun x hx => (h.svps x hx).keeps hw.keeps, h.sorted⟩

theorem AsanObufState.Inv.same (h : s.Inv) (hs : s.obuf.Same b) :
    AsanObufState.Inv { s with obuf := b } :=
  ⟨hs.inv, hs.content.trans h.content, fun x hx => (h.svps x hx).keeps hs.keeps, h.sorted⟩

/-- `obuf_create_svp`: the position is the end of what was written. -/
theorem AsanObufState.Inv.createSvp (h : s.Inv) :
    AsanObufState.Inv { s with svps := (asanObufCreateSvp s.obuf, s.content) :: s.svps } := by
  refine ⟨h.obuf, h.content, fun x hx => ?_, List.pairwise_cons.2 ⟨fun x hx => ?_, h.sorted⟩⟩
  · rcases List.mem_cons.1 hx with rfl | hx
    · refine ⟨Nat.le_refl _, Nat.le_refl _, ?_, ?_⟩
      · rw [← h.content, AsanObuf.content_eq]
        rfl
      · rw [← h.content, AsanObuf.content_eq]
        exact h.obuf.used
    · exact h.svps x hx
  · have hat := h.svps x hx
    rcases Nat.lt_or_eq_of_le hat.pos with hlt | heq
    · exact .inl hlt
    · refine .inr ⟨heq, ?_⟩
      have hlen := hat.len
      rw [heq] at hlen
      exact hlen

/-- The rollback to a valid savepoint. -/
theorem AsanObufState.Inv.rollback (h : s.Inv) {k : Nat} {svp : ObufSvp} {content : List UInt8}
    (hk : s.svps[k]? = some (svp, content)) :
    ∃ b, asanObufRollbackToSvp s.obuf svp = some b ∧
      AsanObufState.Inv { obuf := b, content := content, svps := s.svps.drop k } := by
  obtain ⟨hlt, hget⟩ := List.getElem?_eq_some_iff.1 hk
  have hat : svp.AtBlocks content s.obuf := h.svps (svp, content) (hget ▸ List.getElem_mem hlt)
  obtain ⟨b, heq, hback⟩ :=
    asanObufRollbackToSvp_spec h.obuf hat.pos hat.len (by rw [hat.bytes, hat.used])
  have hdrop : s.svps.drop k = (svp, content) :: s.svps.drop (k + 1) := by
    rw [List.drop_eq_getElem_cons hlt, hget]
  have hsorted : (s.svps.drop k).Pairwise fun x y => y.1.Le x.1 := h.sorted.drop
  refine ⟨b, heq, hback.inv, ?_, fun x hx => ?_, hsorted⟩
  · show b.content = content
    rw [AsanObuf.content_eq, hback.pos, hback.len, hback.upTo (.inr ⟨rfl, Nat.le_refl _⟩),
      hat.bytes]
  · have hx' : x ∈ s.svps.drop k := hx
    have hold : x.1.Le svp := by
      rw [hdrop] at hx' hsorted
      rcases List.mem_cons.1 hx' with rfl | hx'
      · exact .inr ⟨rfl, Nat.le_refl _⟩
      · exact (List.pairwise_cons.1 hsorted).1 x hx'
    exact (h.svps x (List.mem_of_mem_drop hx)).rollback hback hold

/-- `obuf_reset` frees all blocks. -/
theorem asanObufReset_spec (h : b.Inv) :
    ∃ b', asanObufReset b = some b' ∧ b'.Inv ∧ b'.content = [] ∧ b'.used = 0 ∧
      ∀ i, (b'.vec i).base = none := by
  have hused : obufSvpReset.used = (b.upTo obufSvpReset.pos obufSvpReset.iovLen).length := by
    simp [obufSvpReset, AsanObuf.upTo]
  obtain ⟨b', heq, hback⟩ := asanObufRollbackToSvp_spec h (Nat.zero_le _) (Nat.zero_le _) hused
  have hpos : b'.pos = 0 := hback.pos
  have hlen : (b'.vec 0).len = 0 := hback.len
  have hempty : b'.upTo b'.pos (b'.vec b'.pos).len = [] := by
    rw [hpos, hlen]
    simp [AsanObuf.upTo]
  refine ⟨b', heq, hback.inv, ?_, ?_, fun i => by rw [hback.freed rfl rfl i]; rfl⟩
  · rw [AsanObuf.content_eq, hempty]
  · rw [hback.inv.used, hempty]
    rfl

theorem AsanObuf.overwrite_vec (b : AsanObuf) (i j : Nat) (mem : Nat → UInt8) :
    ((b.overwrite i mem).vec j).len = (b.vec j).len ∧ ((b.overwrite i mem).vec j).capacity =
      (b.vec j).capacity ∧
      ((b.overwrite i mem).vec j).base.isSome = (b.vec j).base.isSome ∧
      ((b.vec j).base = none → (b.overwrite i mem).vec j = b.vec j) := by
  unfold AsanObuf.overwrite
  rw [AsanObuf.set_vec]
  split
  · next heq =>
    subst heq
    refine ⟨rfl, rfl, by simp, fun hnone => ?_⟩
    simp only [hnone, Option.map_none]
    rw [← hnone]
  · exact ⟨rfl, rfl, rfl, fun _ => rfl⟩

/-- What a client writes behind the contents does not matter. -/
theorem AsanObuf.Inv.overwrite (h : b.Inv) {i : Nat} {mem : Nat → UInt8}
    (hmem : ∀ old, (b.vec i).base = some old → ∀ x < (b.vec i).len, mem x = old x) :
    b.Same (b.overwrite i mem) := by
  have hfirst : ∀ j l, l ≤ (b.vec j).len →
      ((b.overwrite i mem).vec j).first l = (b.vec j).first l := by
    intro j l hl
    rw [AsanObuf.overwrite, AsanObuf.set_vec]
    split
    · next heq =>
      subst heq
      cases hbase : (b.vec j).base with
      | none => simp [AsanVec.first, hbase]
      | some old =>
          simp only [AsanVec.first, hbase, Option.map_some, Option.elim_some]
          exact read_congr fun x _ hx => hmem old hbase x (by omega)
    · rfl
  have hlen j := (b.overwrite_vec i j mem).1
  have hcap j := (b.overwrite_vec i j mem).2.1
  have hsome j := (b.overwrite_vec i j mem).2.2.1
  have hpos : (b.overwrite i mem).pos = b.pos := rfl
  have hkeeps : b.Keeps (b.overwrite i mem) :=
    ⟨Nat.le_refl _, fun j _ => (hlen j).ge, fun j _ => hlen j, fun j _ l hl => hfirst j l hl⟩
  have hupTo : (b.overwrite i mem).upTo b.pos ((b.overwrite i mem).vec b.pos).len =
      b.upTo b.pos (b.vec b.pos).len := by
    rw [hlen]
    exact hkeeps.upTo (Nat.le_refl _) (Nat.le_refl _)
  refine ⟨?_, hkeeps, ?_, rfl⟩
  · constructor
    case pos => exact h.pos
    case blocks =>
      intro j hj
      rw [hsome]
      exact h.blocks j hj
    case rest =>
      intro j hj
      have hnull := h.rest j hj
      rw [(b.overwrite_vec i j mem).2.2.2 (by rw [hnull]; rfl), hnull]
    case current =>
      intro hnone
      have hbase : (b.vec b.pos).base = none := by
        rw [← Option.not_isSome_iff_eq_none, ← hsome, ← hpos, hnone]
        exact Bool.false_ne_true
      rw [hpos, (b.overwrite_vec i b.pos mem).2.2.2 hbase]
      exact h.current hbase
    case len =>
      intro j
      rw [hlen, hcap]
      exact h.len j
    case footprint =>
      rw [AsanObuf.footprint, hpos, Finset.sum_congr rfl fun j _ => hcap j]
      exact h.footprint
    case used =>
      rw [hpos, hupTo]
      exact h.used
    case reserved =>
      intro hr
      rw [hpos, hsome]
      exact h.reserved hr
    case fresh =>
      intro hr hlt
      rw [hpos, hlen]
      exact h.fresh hr hlt
  · rw [AsanObuf.content_eq, AsanObuf.content_eq, hpos, hupTo]

/-! ## Runs -/

/-- The call cannot return. -/
def AsanObufOp.Stuck (s : AsanObufState) : AsanObufOp → Prop
  | .dup _ size _ => s.obuf.reserved = false ∧ s.obuf.Stuck size
  | .alloc size _ _ => s.obuf.reserved = false ∧ s.obuf.Stuck size
  | .reserve size _ => s.obuf.Stuck size
  | _ => False

/-- One call: it returns, and keeps the invariant, or it is stuck. -/
theorem AsanObufOp.exec_spec (h : s.Inv) (op : AsanObufOp) (hop : op.Allowed s) :
    op.exec s = none ∧ op.Stuck s ∨ ∃ s', op.exec s = some s' ∧ ¬ op.Stuck s ∧ s'.Inv := by
  cases op with
  | dup data size payload =>
      obtain ⟨hsize, hfits, hres⟩ := hop
      rcases asanObufAlloc_spec h.obuf hsize hfits hres data with ⟨hnone, hstuck⟩
        | ⟨offset, b, hrun, hnot, hw, -⟩
      · exact .inl ⟨by simp [exec, asanObufDup, hnone], hstuck⟩
      · right
        refine ⟨{ s with
          obuf := b.store offset size data,
          content := s.content ++ (List.range size).map data }, ?_, hnot,
          h.wrote hw⟩
        simp [exec, asanObufDup, hrun]
  | alloc size data payload =>
      obtain ⟨hsize, hfits, hres⟩ := hop
      rcases asanObufAlloc_spec h.obuf hsize hfits hres data with ⟨hnone, hstuck⟩
        | ⟨offset, b, hrun, hnot, hw, -⟩
      · exact .inl ⟨by simp [exec, hnone], hstuck⟩
      · right
        refine ⟨{ s with
          obuf := b.store offset size data,
          content := s.content ++ (List.range size).map data }, ?_, hnot,
          h.wrote hw⟩
        simp [exec, hrun]
  | reserve size payload =>
      obtain ⟨hsize, hfits, hres⟩ := hop
      rcases asanObufReserve_spec h.obuf hsize hfits hres with ⟨hnone, hstuck⟩
        | ⟨b, hrun, hnot, hsame⟩
      · exact .inl ⟨by simp [exec, hnone], hstuck⟩
      · exact .inr ⟨{ s with obuf := b }, by simp [exec, hrun], hnot, h.same hsame⟩
  | createSvp => exact .inr ⟨_, rfl, fun hstuck => hstuck, h.createSvp⟩
  | rollbackToSvp k =>
      obtain ⟨svp, hget⟩ : ∃ svp, s.svps[k]? = some svp := ⟨_, List.getElem?_eq_getElem hop⟩
      obtain ⟨b, hrun, hinv⟩ := h.rollback hget
      refine .inr ⟨{ obuf := b, content := svp.2, svps := s.svps.drop k },
        ?_, fun hstuck => hstuck, hinv⟩
      simp [exec, hget, hrun]
  | reset =>
      obtain ⟨b, hrun, hinv, hcontent, -⟩ := asanObufReset_spec h.obuf
      refine .inr ⟨{ obuf := b, content := [], svps := [] }, by simp [exec, hrun], fun hstuck =>
        hstuck, hinv, hcontent, ?_, .nil⟩
      exact fun x hx => absurd hx List.not_mem_nil
  | write i mem => exact .inr ⟨_, rfl, fun hstuck => hstuck, h.same (h.obuf.overwrite hop)⟩

/-- What a client sees of the buffer. -/
structure AsanObufState.Exact (s : AsanObufState) : Prop where
  content : s.obuf.content = s.content
  used : s.obuf.used = s.content.length
  /-- The vector for `writev` has the blocks, and each holds what is written to it. -/
  iovcnt : asanObufIovcnt s.obuf ≤ asanObufIovMax
  blocks : ∀ i, (s.obuf.vec i).base.isSome = true ↔ i < asanObufIovcnt s.obuf
  len : ∀ i, (s.obuf.vec i).len ≤ (s.obuf.vec i).capacity
  /-- The calls that do not return. -/
  stuck : ∀ op : AsanObufOp, op.Allowed s → (op.exec s = none ↔ op.Stuck s)
  dup : ∀ data size payload n b, (AsanObufOp.dup data size payload).Allowed s →
    asanObufDup s.obuf data size payload = some (n, b) →
    n = size ∧ b.content = s.content ++ (List.range size).map data
  /-- The checked entries have one chunk each. -/
  checked : ∀ size data payload offset b, (AsanObufOp.alloc size data payload).Allowed s →
    asanObufAlloc s.obuf size payload = some (offset, b) → s.obuf.pos < smallObufIovCheckedMax →
    offset = 0
  rollback : ∀ (k : Nat) svp content, s.svps[k]? = some (svp, content) → ∃ b,
    asanObufRollbackToSvp s.obuf svp = some b ∧ b.content = content ∧ b.used = content.length
  reset : ∃ b, asanObufReset s.obuf = some b ∧ b.content = [] ∧ b.used = 0 ∧
    ∀ i, (b.vec i).base = none

theorem AsanObufState.Inv.exact (h : s.Inv) : s.Exact := by
  constructor
  case content => exact h.content
  case used => rw [h.obuf.used, ← AsanObuf.content_eq, h.content]
  case iovcnt =>
    have hpos := h.obuf.pos
    unfold asanObufIovcnt
    split <;> omega
  case blocks => exact h.obuf.block_iff
  case len => exact h.obuf.len
  case stuck =>
    intro op hop
    rcases op.exec_spec h hop with ⟨hnone, hstuck⟩ | ⟨s', hrun, hnot, -⟩
    · exact iff_of_true hnone hstuck
    · exact iff_of_false (by simp [hrun]) hnot
  case dup =>
    rintro data size payload n b ⟨hsize, hfits, hres⟩ hrun
    rcases asanObufAlloc_spec h.obuf hsize hfits hres data with ⟨hnone, -⟩
      | ⟨offset, b₁, halloc, -, hw, -⟩
    · simp [asanObufDup, hnone] at hrun
    · obtain ⟨rfl, rfl⟩ :
          size = n ∧ b₁.store offset size data = b := by simpa [asanObufDup, halloc] using hrun
      exact ⟨rfl, by rw [hw.content, h.content]⟩
  case checked =>
    rintro size data payload offset b ⟨hsize, hfits, hres⟩ hrun
    rcases asanObufAlloc_spec h.obuf hsize hfits hres data with ⟨hnone, -⟩
      | ⟨offset', b', halloc, -, -, hchecked⟩
    · simp [hnone] at hrun
    · obtain ⟨rfl, rfl⟩ : offset' = offset ∧ b' = b := by simpa [halloc] using hrun
      exact hchecked
  case rollback =>
    intro k svp content hk
    obtain ⟨b, hrun, hinv⟩ := h.rollback hk
    have hcontent : b.content = content := hinv.content
    exact ⟨b, hrun, hcontent, by rw [hinv.obuf.used, ← AsanObuf.content_eq, hcontent]⟩
  case reset =>
    obtain ⟨b, hrun, -, hcontent, hused, hnone⟩ := asanObufReset_spec h.obuf
    exact ⟨b, hrun, hcontent, hused, hnone⟩

theorem asanObufMachine_inv {startCapacity : Nat}
    (hs : (asanObufMachine startCapacity).Reachable s) : s.Inv := by
  refine Machine.Reachable.of_step _ ?_ (fun s op s' h hop hrun => ?_) hs
  · rintro s rfl
    refine ⟨asanObufCreate_inv startCapacity, rfl, fun x hx => absurd hx List.not_mem_nil, .nil⟩
  · rcases AsanObufOp.exec_spec h op hop with ⟨hnone, -⟩ | ⟨s'', hrun', -, h'⟩
    · exact absurd (hnone.symm.trans hrun) (by simp)
    · obtain rfl : s'' = s' := Option.some.inj (hrun'.symm.trans hrun)
      exact h'

/-- **The output buffer with ASAN is an exact log of bytes with savepoints** in every run,
whatever the start capacity is. -/
theorem obuf_asan_exact_log (startCapacity : Nat) (s : AsanObufState)
    (hs : (asanObufMachine startCapacity).Reachable s) :
    s.Exact := (asanObufMachine_inv hs).exact

/-- Whether the block that a chunk of `size` bytes may need fits in the address space. -/
def AsanObuf.checkFits (b : AsanObuf) (size : Nat) (payload : Nat → UInt8) : Bool :=
  decide (size < 2 ^ 62) && (obufPrepareBuf b size payload).all fun b' =>
    decide (b'.footprint < 2 ^ 63)

theorem AsanObuf.checkFits_fits (h : b.checkFits size payload = true) :
    size < 2 ^ 62 ∧ b.Fits size payload := by
  obtain ⟨hsize, hfits⟩ := Bool.and_eq_true_iff.1 h
  refine ⟨of_decide_eq_true hsize, fun b' hrun => ?_⟩
  rw [hrun] at hfits
  exact of_decide_eq_true hfits

/-- Whether a call is allowed, as far as the blocks that it may need are concerned. -/
def AsanObufOp.check (s : AsanObufState) (op : AsanObufOp) : Bool :=
  match op with
  | .dup _ size payload => s.obuf.checkFits size payload && decide (s.obuf.reserved = true →
        size ≤ s.obuf.unallocatedSize)
  | .alloc size _ payload => s.obuf.checkFits size payload && decide (s.obuf.reserved = true →
        size ≤ s.obuf.unallocatedSize)
  | .reserve size payload => s.obuf.checkFits size payload && !s.obuf.reserved
  | .createSvp => true
  | .rollbackToSvp k => decide (k < s.svps.length)
  | .reset => true
  | .write _ _ => false

theorem AsanObufOp.check_allowed (s : AsanObufState) (op : AsanObufOp) (hop : op.check s = true) :
    op.Allowed s := by
  cases op with
  | dup data size payload =>
      obtain ⟨hfits, hres⟩ := (Bool.and_eq_true_iff).1 hop
      exact ⟨(AsanObuf.checkFits_fits hfits).1, (AsanObuf.checkFits_fits hfits).2,
        of_decide_eq_true hres⟩
  | alloc size data payload =>
      obtain ⟨hfits, hres⟩ := (Bool.and_eq_true_iff).1 hop
      exact ⟨(AsanObuf.checkFits_fits hfits).1, (AsanObuf.checkFits_fits hfits).2,
        of_decide_eq_true hres⟩
  | reserve size payload =>
      obtain ⟨hfits, hres⟩ := (Bool.and_eq_true_iff).1 hop
      exact ⟨(AsanObuf.checkFits_fits hfits).1, (AsanObuf.checkFits_fits hfits).2, by
        simpa using hres⟩
  | createSvp => trivial
  | rollbackToSvp k => exact of_decide_eq_true (p := k < s.svps.length) hop
  | reset => trivial
  | write i mem => cases hop

/-- A rollback after a chunk of 200 bytes. -/
theorem obuf_asan_exact_log_rollback :
    ∃ s, (asanObufMachine 16).Reachable s ∧ s.content = [0, 1, 2] ∧ s.obuf.used = 3 ∧ s.Exact := by
  have hrun : ((asanObufMachine 16).run AsanObufOp.check
      [.dup UInt8.ofNat 3 fun _ => 0, .createSvp, .alloc 200 UInt8.ofNat fun _ => 0,
      .rollbackToSvp 0]
      { obuf := asanObufCreate 16, content := [], svps := [] }).map
      (fun s => (s.content, s.obuf.used)) =
        some ([0, 1, 2], 3) := by decide +kernel
  obtain ⟨s, hs, heq⟩ := Option.map_eq_some_iff.1 hrun
  obtain ⟨hcontent, hused⟩ := Prod.mk.inj heq
  have hreach := Machine.Reachable.run _ AsanObufOp.check_allowed _ (.init rfl) hs
  exact ⟨s, hreach, hcontent, hused, obuf_asan_exact_log 16 s hreach⟩

/-! ## The two implementations -/

/-- A call of a client, who does not know which implementation it is. -/
inductive ObufCall where
  | dup (data : Nat → UInt8) (size : Nat)
  | alloc (size : Nat) (data : Nat → UInt8)
  | reserve (size : Nat)
  | createSvp
  | rollbackToSvp (k : Nat)
  | reset

/-- A call of the same client of both buffers, with the memory that either gets. -/
structure ObufBothOp where
  call : ObufCall
  slabGet : Nat → Option Nat
  payload : Nat → UInt8

structure ObufBoth where
  slabs : ObufState
  asan : AsanObufState

def ObufBothOp.onSlabs (op : ObufBothOp) : ObufOp :=
  match op.call with
  | .dup data size => .dup data size op.slabGet
  | .alloc size data => .alloc size data op.slabGet
  | .reserve size => .reserve size op.slabGet
  | .createSvp => .createSvp
  | .rollbackToSvp k => .rollbackToSvp k
  | .reset => .reset

def ObufBothOp.onAsan (op : ObufBothOp) : AsanObufOp :=
  match op.call with
  | .dup data size => .dup data size op.payload
  | .alloc size data => .alloc size data op.payload
  | .reserve size => .reserve size op.payload
  | .createSvp => .createSvp
  | .rollbackToSvp k => .rollbackToSvp k
  | .reset => .reset

/-- The slab cache had the memory for the whole call. -/
def ObufBothOp.Served (g : Geometry) (s : ObufBoth) (op : ObufBothOp) : Prop :=
  match op.call with
  | .dup data size => ∀ n b, obufDup g op.slabGet s.slabs.obuf data size = some (n, b) → n = size
  | .alloc size _ => ∀ ptr b, obufAlloc g op.slabGet s.slabs.obuf size = some (ptr, b) →
      ptr.isSome = true
  | _ => True

structure ObufBothOp.Allowed (g : Geometry) (s : ObufBoth) (op : ObufBothOp) : Prop where
  slabs : op.onSlabs.Allowed g s.slabs
  asan : op.onAsan.Allowed s.asan
  served : op.Served g s

def ObufBothOp.exec (g : Geometry) (s : ObufBoth) (op : ObufBothOp) : Option ObufBoth := do
  let slabs ← op.onSlabs.exec g s.slabs
  let asan ← op.onAsan.exec s.asan
  some { slabs := slabs, asan := asan }

/-- The runs of a client with both buffers. -/
def obufBothMachine (g : Geometry) (startCapacity : Nat) : Machine ObufBoth ObufBothOp where
  init := fun s => (obufMachine g startCapacity).init s.slabs ∧
    (asanObufMachine startCapacity).init s.asan
  allowed := ObufBothOp.Allowed g
  exec := ObufBothOp.exec g

variable {g : Geometry} {both both' : ObufBoth}

/-- Both buffers are the same log. -/
structure ObufBoth.Inv (both : ObufBoth) : Prop where
  slabs : both.slabs.Inv
  asan : both.asan.Inv
  content : both.asan.content = both.slabs.content
  svps : both.asan.svps.map Prod.snd = both.slabs.svps.map Prod.snd

theorem asanObufDup_size {n : Nat} (hrun : asanObufDup b data size payload = some (n, b')) :
    n = size := by
  obtain ⟨x, -, heq⟩ := Option.bind_eq_some_iff.1 hrun
  obtain ⟨rfl, -⟩ := Prod.mk.inj (Option.some.inj heq)
  rfl

/-- One call changes both logs in the same way. -/
theorem ObufBothOp.exec_logs (h : both.Inv) {op : ObufBothOp} (hserved : op.Served g both)
    {slabs : ObufState} {asan : AsanObufState}
    (hslabs : op.onSlabs.exec g both.slabs = some slabs)
    (hasan : op.onAsan.exec both.asan = some asan) :
    asan.content = slabs.content ∧ asan.svps.map Prod.snd = slabs.svps.map Prod.snd := by
  obtain ⟨call, slabGet, payload⟩ := op
  cases call with
  | dup data size =>
      obtain ⟨⟨n, b⟩, hdup, hs⟩ := Option.bind_eq_some_iff.1 hslabs
      obtain ⟨⟨n', b'⟩, hdup', ha⟩ := Option.bind_eq_some_iff.1 hasan
      obtain rfl := hserved n b hdup
      obtain rfl := asanObufDup_size hdup'
      obtain rfl := Option.some.inj hs
      obtain rfl := Option.some.inj ha
      exact ⟨congrArg (· ++ _) h.content, h.svps⟩
  | alloc size data =>
      obtain ⟨⟨ptr, b⟩, halloc, hs⟩ := Option.bind_eq_some_iff.1 hslabs
      obtain ⟨⟨offset, b'⟩, -, ha⟩ := Option.bind_eq_some_iff.1 hasan
      obtain ⟨p, rfl⟩ := Option.isSome_iff_exists.1 (hserved ptr b halloc)
      obtain rfl := Option.some.inj hs
      obtain rfl := Option.some.inj ha
      exact ⟨congrArg (· ++ _) h.content, h.svps⟩
  | reserve size =>
      obtain ⟨⟨ptr, b⟩, -, hs⟩ := Option.bind_eq_some_iff.1 hslabs
      obtain ⟨b', -, ha⟩ := Option.bind_eq_some_iff.1 hasan
      obtain rfl := Option.some.inj hs
      obtain rfl := Option.some.inj ha
      exact ⟨h.content, h.svps⟩
  | createSvp =>
      obtain ⟨svp, -, hs⟩ := Option.bind_eq_some_iff.1 hslabs
      obtain rfl := Option.some.inj hs
      obtain rfl := Option.some.inj hasan
      refine ⟨h.content, ?_⟩
      rw [List.map_cons, List.map_cons, h.svps]
      exact congrArg (· :: _) h.content
  | rollbackToSvp k =>
      obtain ⟨⟨svp, content⟩, hk, hs⟩ := Option.bind_eq_some_iff.1 hslabs
      obtain ⟨b, -, hs⟩ := Option.bind_eq_some_iff.1 hs
      obtain ⟨⟨svp', content'⟩, hk', ha⟩ := Option.bind_eq_some_iff.1 hasan
      obtain ⟨b', -, ha⟩ := Option.bind_eq_some_iff.1 ha
      obtain rfl := Option.some.inj hs
      obtain rfl := Option.some.inj ha
      refine ⟨?_, ?_⟩
      · have hget := congrArg (fun contents => contents[k]?) h.svps
        simp only [List.getElem?_map, hk, hk', Option.map_some] at hget
        exact Option.some.inj hget
      · show (both.asan.svps.drop k).map Prod.snd = (both.slabs.svps.drop k).map Prod.snd
        rw [List.map_drop, List.map_drop, h.svps]
  | reset =>
      obtain ⟨b, -, hs⟩ := Option.bind_eq_some_iff.1 hslabs
      obtain ⟨b', -, ha⟩ := Option.bind_eq_some_iff.1 hasan
      obtain rfl := Option.some.inj hs
      obtain rfl := Option.some.inj ha
      exact ⟨rfl, rfl⟩

/-- One call: the buffer with ASAN is stuck, or both return, and are the same log. -/
theorem ObufBothOp.exec_spec (h : both.Inv) {op : ObufBothOp} (hop : op.Allowed g both) :
    op.exec g both = none ∧ op.onAsan.Stuck both.asan ∨
      ∃ both', op.exec g both = some both' ∧ ¬ op.onAsan.Stuck both.asan ∧ both'.Inv := by
  obtain ⟨slabs, hslabs, hinv⟩ := ObufOp.exec_inv h.slabs op.onSlabs hop.slabs
  rcases AsanObufOp.exec_spec h.asan op.onAsan hop.asan with ⟨hnone, hstuck⟩
    | ⟨asan, hasan, hnot, hinv'⟩
  · exact .inl ⟨by simp [ObufBothOp.exec, hslabs, hnone], hstuck⟩
  · obtain ⟨hcontent, hsvps⟩ := ObufBothOp.exec_logs h hop.served hslabs hasan
    exact .inr ⟨{ slabs := slabs, asan := asan }, by simp [ObufBothOp.exec, hslabs, hasan], hnot,
      hinv, hinv', hcontent, hsvps⟩

theorem obufBothMachine_inv {startCapacity : Nat} (h1 : 1 ≤ startCapacity)
    (hok : startCapacity + slabSizeof < sizeMax)
    (hboth : (obufBothMachine g startCapacity).Reachable both) : both.Inv := by
  refine Machine.Reachable.of_step _ ?_ (fun both op both' h hop hrun => ?_) hboth
  · rintro ⟨slabs, asan⟩ ⟨⟨vec, mem, rfl⟩, rfl⟩
    have hinv := obufCreate_logged vec mem startCapacity
    have hstarted := obufCreate_started vec mem h1 (Nat.lt_of_le_of_lt (Nat.le_add_right _ _) hok)
    exact ⟨⟨hinv, hok, hstarted⟩, asanObufMachine_inv (.init rfl), rfl, rfl⟩
  · rcases ObufBothOp.exec_spec h hop with ⟨hnone, -⟩ | ⟨both'', hrun', -, h'⟩
    · exact absurd (hnone.symm.trans hrun) (by simp)
    · obtain rfl : both'' = both' := Option.some.inj (hrun'.symm.trans hrun)
      exact h'

/-- The client sees the same bytes in both buffers. -/
structure ObufBoth.Agree (g : Geometry) (both : ObufBoth) : Prop where
  content : both.asan.obuf.content = both.slabs.obuf.content
  used : both.asan.obuf.used = both.slabs.obuf.used
  /-- A savepoint of one buffer is one of the other. -/
  svps : both.asan.svps.map (fun x => x.1.used) = both.slabs.svps.map fun x => x.1.used
  rollback : ∀ (k : Nat) (hk : k < both.slabs.svps.length)
    (hk' : k < both.asan.svps.length), ∃ b b',
    obufRollbackToSvp both.slabs.obuf (both.slabs.svps.get ⟨k, hk⟩).1 = some b ∧
    asanObufRollbackToSvp both.asan.obuf (both.asan.svps.get ⟨k, hk'⟩).1 = some b' ∧
    b'.content = b.content ∧ b'.used = b.used
  /-- The buffer with ASAN can only run out of entries, or of bits for its capacity. -/
  stuck : ∀ op : ObufBothOp, op.Allowed g both → (op.exec g both = none ↔ op.onAsan.Stuck both.asan)

theorem ObufBoth.Inv.agree (h : both.Inv) : both.Agree g := by
  have hcontent : both.asan.obuf.content = both.slabs.obuf.content := by
    rw [h.asan.content, h.content, h.slabs.content]
  constructor
  case content => exact hcontent
  case used => rw [h.asan.obuf.used, ← AsanObuf.content_eq, hcontent, h.slabs.obuf.used]
  case svps =>
    have hasan : both.asan.svps.map (fun x => x.1.used) =
        (both.asan.svps.map Prod.snd).map List.length := by
      rw [List.map_map]
      exact List.map_congr_left fun x hx => (h.asan.svps x hx).used
    have hslabs : both.slabs.svps.map (fun x => x.1.used) =
        (both.slabs.svps.map Prod.snd).map List.length := by
      rw [List.map_map]
      exact List.map_congr_left fun x hx => (h.slabs.svps x hx).used
    rw [hasan, hslabs, h.svps]
  case rollback =>
    intro k hk hk'
    obtain ⟨b, hrun, -, -, hs⟩ := h.slabs.rollback (List.getElem?_eq_getElem hk)
    obtain ⟨b', hrun', hs'⟩ := h.asan.rollback (List.getElem?_eq_getElem hk')
    have heq : b'.content = b.content := by
      have hget := congrArg (fun contents => contents[k]?) h.svps
      simp only [List.getElem?_map, List.getElem?_eq_getElem hk, List.getElem?_eq_getElem hk',
        Option.map_some] at hget
      exact hs'.content.trans ((Option.some.inj hget).trans hs.content.symm)
    exact ⟨b, b', hrun, hrun', heq, by rw [hs'.obuf.used, ← AsanObuf.content_eq, heq, hs.obuf.used]⟩
  case stuck =>
    intro op hop
    rcases ObufBothOp.exec_spec h hop with ⟨hnone, hstuck⟩ | ⟨both', hrun, hnot, -⟩
    · exact iff_of_true hnone hstuck
    · exact iff_of_false (by simp [hrun]) hnot

/-- **Both implementations of the output buffer are the same log**: a client that makes the same
calls of both has the same bytes, savepoints and sizes in them, as long as the slab cache has
memory. -/
theorem obuf_builds_agree (g : Geometry) (startCapacity : Nat) (h1 : 1 ≤ startCapacity)
    (hok : startCapacity + slabSizeof < sizeMax) (both : ObufBoth)
    (hboth : (obufBothMachine g startCapacity).Reachable both) :
    both.Agree g := (obufBothMachine_inv h1 hok hboth).agree

/-- Both buffers before the first call. -/
def emptyBoth : ObufBoth where
  slabs := { obuf := obufCreate (fun _ => zeroVec) (fun _ => 0) 16, content := [], svps := [] }
  asan := { obuf := asanObufCreate 16, content := [], svps := [] }

/-- The first three bytes, for which the slab cache has a slab. -/
def threeBytes : ObufBothOp where
  call := .dup UInt8.ofNat 3
  slabGet := fun n => if n = 16 then some 4096 else none
  payload := fun _ => 0

theorem obuf_builds_agree_three :
    ∃ both, (obufBothMachine fourPages 16).Reachable both ∧ both.slabs.content = [0, 1, 2] ∧
      both.Agree fourPages := by
  have hdup : (obufDup fourPages threeBytes.slabGet emptyBoth.slabs.obuf UInt8.ofNat 3).map
      Prod.fst = some 3 := by decide +kernel
  have hans : emptyBoth.slabs.obuf.Answers fourPages threeBytes.slabGet := by
    intro n addr hget
    obtain ⟨rfl, rfl⟩ : n = 16 ∧ addr = 4096 := by simpa [threeBytes, eq_comm] using hget
    exact ⟨by decide, by decide, fun i hi => absurd hi (Nat.not_lt_zero i)⟩
  have hop : threeBytes.Allowed fourPages emptyBoth := by
    refine ⟨⟨by decide, hans⟩, AsanObufOp.check_allowed _ _ (by decide +kernel), fun n b hrun => ?_⟩
    rw [hrun] at hdup
    exact Option.some.inj hdup
  have hexec : (threeBytes.exec fourPages emptyBoth).map (fun both => both.slabs.content) =
      some [0, 1, 2] := by decide +kernel
  obtain ⟨both, hrun, hcontent⟩ := Option.map_eq_some_iff.1 hexec
  have hinit : (obufBothMachine fourPages 16).Reachable emptyBoth := .init ⟨⟨_, _, rfl⟩, rfl⟩
  have hreach : (obufBothMachine fourPages 16).Reachable both := hinit.step threeBytes hop hrun
  exact ⟨both, hreach, hcontent, obuf_builds_agree fourPages 16 (by decide) (by decide) both hreach⟩

end SmallAllocators
