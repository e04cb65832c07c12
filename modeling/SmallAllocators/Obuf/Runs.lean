/-
SmallAllocators.Obuf.Runs — the output buffer is a log of bytes with
savepoints.

The abstract state of the buffer is the list of bytes written
(`ObufState.content`) and, for each savepoint that is still valid, the list
as it was then (`ObufState.svps`, the newest first). `obufMachine` has all
runs of the functions of the header, with any answers of `slab_get`;
`obuf_exact_log` says for which start capacities the buffer refines the log
in all of them. For the others the capacity that `obuf_alloc_pos` asks for
wraps around with the header of a slab, and the first block is too small.
-/
import SmallAllocators.SlabCache.Runs
import SmallAllocators.Obuf.Invariant

namespace SmallAllocators

open Memory

/-! ## The machine -/

/-- The buffer, the bytes that it should hold, and those that it should hold after a rollback to
each savepoint. -/
structure ObufState where
  obuf : Obuf
  content : List UInt8
  svps : List (ObufSvp × List UInt8)

inductive ObufOp where
  | dup (data : Nat → UInt8) (size : Nat) (slabGet : Nat → Option Nat)
  /-- `obuf_alloc`, after which the client fills the chunk with `data`. -/
  | alloc (size : Nat) (data : Nat → UInt8) (slabGet : Nat → Option Nat)
  | reserve (size : Nat) (slabGet : Nat → Option Nat)
  | createSvp
  /-- `obuf_rollback_to_svp` with the savepoint number `k` from the newest one. -/
  | rollbackToSvp (k : Nat)
  | reset
  /-- Memory other than the contents changes. -/
  | write (mem : Nat → UInt8)

/-- The assertions on the arguments, and what `slab_get` may answer. -/
def ObufOp.Allowed (g : Geometry) (s : ObufState) : ObufOp → Prop
  | .dup _ size slabGet => size < 2 ^ 62 ∧ s.obuf.Answers g slabGet
  | .alloc size _ slabGet => size < 2 ^ 62 ∧ s.obuf.Answers g slabGet
  | .reserve size slabGet => size < 2 ^ 62 ∧ s.obuf.Answers g slabGet ∧ s.obuf.reserved = false
  | .createSvp => True
  | .rollbackToSvp k => k < s.svps.length
  | .reset => True
  | .write mem => ∀ i ≤ s.obuf.pos, ∀ x, (s.obuf.vec i).base ≤ x →
      x < (s.obuf.vec i).base + (s.obuf.vec i).len → mem x = s.obuf.mem x

def ObufOp.exec (g : Geometry) (s : ObufState) : ObufOp → Option ObufState
  | .dup data size slabGet => do
    let (n, b) ← obufDup g slabGet s.obuf data size
    some { s with obuf := b, content := s.content ++ (List.range n).map data }
  | .alloc size data slabGet => do
    match ← obufAlloc g slabGet s.obuf size with
    | (none, b) => some { s with obuf := b }
    | (some p, b) =>
      some { s with obuf := { b with mem := fill b.mem p size data }
                    content := s.content ++ (List.range size).map data }
  | .reserve size slabGet => do
    let (_, b) ← obufReserve g slabGet s.obuf size
    some { s with obuf := b }
  | .createSvp => do
    let svp ← obufCreateSvp s.obuf
    some { s with svps := (svp, s.content) :: s.svps }
  | .rollbackToSvp k => do
    let (svp, content) ← s.svps[k]?
    let b ← obufRollbackToSvp s.obuf svp
    -- the savepoints that were made later are gone
    some { obuf := b, content := content, svps := s.svps.drop k }
  | .reset => do
    let b ← obufReset s.obuf
    some { obuf := b, content := [], svps := [] }
  | .write mem => some { s with obuf := { s.obuf with mem := mem } }

/-- The runs of a buffer with the given start capacity, on a slab cache with the constants `g`. -/
def obufMachine (g : Geometry) (startCapacity : Nat) : Machine ObufState ObufOp where
  init := fun s => ∃ vec mem,
    s = { obuf := obufCreate vec mem startCapacity, content := [], svps := [] }
  allowed := ObufOp.Allowed g
  exec := ObufOp.exec g

/-! ## The invariant over runs -/

variable {g : Geometry} {s : ObufState} {b b' : Obuf}

/-- The savepoint `svp` is a position in what the buffer has written, with the bytes `content`
before it. -/
structure ObufSvp.At (svp : ObufSvp) (content : List UInt8) (b : Obuf) : Prop where
  pos : svp.pos ≤ b.pos
  len : svp.iovLen ≤ (b.vec svp.pos).len
  bytes : b.upTo svp.pos svp.iovLen = content
  used : svp.used = content.length

/-- The position of `svp` is not behind that of `svp'`. -/
def ObufSvp.Le (svp svp' : ObufSvp) : Prop :=
  svp.pos < svp'.pos ∨ svp.pos = svp'.pos ∧ svp.iovLen ≤ svp'.iovLen

theorem ObufSvp.At.keeps {svp : ObufSvp} {content : List UInt8} (h : svp.At content b)
    (hk : b.Keeps b') :
    svp.At content b' :=
  ⟨h.pos.trans hk.pos, h.len.trans (hk.len h.pos), by rw [hk.upTo h.pos h.len, h.bytes], h.used⟩

/-- A rollback keeps the savepoints before the one that it goes to. -/
theorem ObufSvp.At.rollback {svp old : ObufSvp} {content : List UInt8} (h : old.At content b)
    (hk : b'.Keeps b) (hpos : b'.pos = svp.pos) (hlen : (b'.vec svp.pos).len = svp.iovLen)
    (hle : old.Le svp) : old.At content b' := by
  have hp : old.pos ≤ b'.pos := by
    rcases hle with hlt | ⟨heq, -⟩ <;> omega
  have hl : old.iovLen ≤ (b'.vec old.pos).len := by
    rcases hle with hlt | ⟨heq, hle⟩
    · rw [← (hk.whole old.pos (by omega)).2]
      exact h.len
    · rw [heq, hlen]
      exact hle
  exact ⟨hp, hl, by rw [← hk.upTo hp hl, h.bytes], h.used⟩

/-- The buffer has the bytes and the savepoints that it should have. -/
structure ObufState.Logged (s : ObufState) : Prop where
  obuf : s.obuf.Inv
  content : s.obuf.content = s.content
  svps : ∀ x ∈ s.svps, x.1.At x.2 s.obuf
  sorted : s.svps.Pairwise fun x y => y.1.Le x.1

structure ObufState.Inv (s : ObufState) : Prop extends s.Logged where
  start : StartOk s.obuf.startCapacity
  started : s.obuf.Started

theorem obufCreate_inv (vec : Nat → ObufVec) (mem : Nat → UInt8) (startCapacity : Nat) :
    (obufCreate vec mem startCapacity).Inv := by
  have hz : (obufCreate vec mem startCapacity).vec 0 = zeroVec := by
    simp [obufCreate, zeroVec]
  constructor
  case pos => exact (by decide : 0 < smallObufIovMax)
  case posLe => exact Nat.le_refl 0
  case nIov => exact Nat.zero_le _
  case blocks => exact fun i hi => absurd hi (Nat.not_lt_zero i)
  case zero => exact hz
  case empty =>
    intro i h1 h2
    exact absurd (Nat.lt_of_lt_of_le h1 h2) (Nat.lt_irrefl 0)
  case apart => exact fun i hi => absurd hi (Nat.not_lt_zero i)
  case used =>
    rw [Obuf.content_eq]
    show 0 = ((List.range 0).flatMap _ ++
        read _ _ ((obufCreate vec mem startCapacity).vec 0).len).length
    rw [hz]
    rfl

theorem obufCreate_logged (vec : Nat → ObufVec) (mem : Nat → UInt8) (startCapacity : Nat) :
    ObufState.Logged { obuf := obufCreate vec mem startCapacity, content := [], svps := [] } := by
  have hinv := obufCreate_inv vec mem startCapacity
  exact ⟨hinv, List.eq_nil_of_length_eq_zero hinv.used.symm, fun x hx =>
    absurd hx List.not_mem_nil, .nil⟩

theorem obufCreate_started (vec : Nat → ObufVec) (mem : Nat → UInt8) {startCapacity : Nat}
    (h : 1 ≤ startCapacity) (hlt : startCapacity < sizeMax) :
    (obufCreate vec mem startCapacity).Started :=
  ⟨⟨h, hlt⟩, fun i hi => absurd hi (Nat.not_lt_zero i)⟩

theorem ObufState.Logged.wrote (h : s.Logged) {data : List UInt8} (hw : s.obuf.Wrote data b) :
    ObufState.Logged { s with obuf := b, content := s.content ++ data } :=
  ⟨hw.inv, by rw [hw.content, h.content], fun x hx => (h.svps x hx).keeps hw.keeps, h.sorted⟩

theorem ObufState.Logged.same (h : s.Logged) (hs : s.obuf.Same b) :
    ObufState.Logged { s with obuf := b } := by
  have := h.wrote hs.wrote
  rwa [List.append_nil] at this

/-- Memory elsewhere does not matter. -/
theorem Obuf.Inv.setMem (h : b.Inv) {mem : Nat → UInt8}
    (hmem : ∀ i ≤ b.pos, ∀ x, (b.vec i).base ≤ x → x < (b.vec i).base + (b.vec i).len →
      mem x = b.mem x) :
    b.Same { b with mem := mem } := by
  have hkeeps : b.Keeps { b with mem := mem } :=
    ⟨Nat.le_refl _, fun _ _ => ⟨rfl, rfl⟩, Nat.le_refl _, fun _ => rfl, hmem⟩
  have hcontent : Obuf.content { b with mem := mem } = b.content := by
    rw [Obuf.content_eq, Obuf.content_eq]
    exact hkeeps.upTo (Nat.le_refl _) (Nat.le_refl _)
  exact ⟨⟨h.pos, h.posLe, h.nIov, h.blocks, h.zero, h.empty,
    h.apart, by rw [hcontent]; exact h.used⟩,
    hkeeps, hcontent, rfl⟩

/-- `obuf_create_svp`: the position is the end of what was written. -/
theorem obufCreateSvp_spec (h : s.Logged) :
    ∃ svp, obufCreateSvp s.obuf = some svp ∧ svp.At s.content s.obuf ∧ ∀ x ∈ s.svps,
      x.1.Le svp := by
  refine ⟨⟨s.obuf.pos, (s.obuf.vec s.obuf.pos).len, s.obuf.used⟩, ?_,
    ⟨Nat.le_refl _, Nat.le_refl _, ?_, ?_⟩, fun x hx => ?_⟩
  · unfold obufCreateSvp
    rw [h.obuf.at_pos]
    rfl
  · rw [← Obuf.content_eq, h.content]
  · rw [← h.content]
    exact h.obuf.used
  · have hx := h.svps x hx
    rcases Nat.lt_or_eq_of_le hx.pos with hlt | heq
    · exact Or.inl hlt
    · have := hx.len
      rw [heq] at this
      exact Or.inr ⟨heq, this⟩

theorem ObufState.Logged.createSvp (h : s.Logged) {svp : ObufSvp} (hat : svp.At s.content s.obuf)
    (hle : ∀ x ∈ s.svps, x.1.Le svp) :
    ObufState.Logged { s with svps := (svp, s.content) :: s.svps } := by
  refine ⟨h.obuf, h.content, fun x hx => ?_, List.pairwise_cons.mpr ⟨hle, h.sorted⟩⟩
  rcases List.mem_cons.mp hx with rfl | hx
  · exact hat
  · exact h.svps x hx

/-- The rollback to a valid savepoint. -/
theorem ObufState.Logged.rollback (h : s.Logged) {k : Nat} {svp : ObufSvp} {content : List UInt8}
    (hk : s.svps[k]? = some (svp, content)) :
    ∃ b, obufRollbackToSvp s.obuf svp = some b ∧ b.startCapacity = s.obuf.startCapacity ∧
      (s.obuf.Started → b.Started) ∧
      ObufState.Logged { obuf := b, content := content, svps := s.svps.drop k } := by
  obtain ⟨hlt, hget⟩ := List.getElem?_eq_some_iff.mp hk
  have hat : svp.At content s.obuf := h.svps (svp, content) (hget ▸ List.getElem_mem hlt)
  obtain ⟨b, heq, hinv, hcontent, hstart, hstarted, hkeeps, hpos, hlen⟩ :=
    obufRollbackToSvp_spec h.obuf hat.pos hat.len
    (by rw [hat.bytes, hat.used])
  have hdrop : s.svps.drop k = (svp, content) :: s.svps.drop (k + 1) := by
    rw [List.drop_eq_getElem_cons hlt, hget]
  have hsorted : (s.svps.drop k).Pairwise fun x y => y.1.Le x.1 := h.sorted.drop
  refine ⟨b, heq, hstart, hstarted, hinv, hcontent.trans hat.bytes, fun x hx => ?_, hsorted⟩
  have hold : x.1.Le svp := by
    have hx' : x ∈ s.svps.drop k := hx
    rw [hdrop] at hx' hsorted
    rcases List.mem_cons.mp hx' with rfl | hx'
    · exact Or.inr ⟨rfl, Nat.le_refl _⟩
    · exact (List.pairwise_cons.mp hsorted).1 x hx'
  exact (h.svps x (List.mem_of_mem_drop hx)).rollback hkeeps hpos hlen hold

theorem ObufState.Logged.reset (hinv : b.Inv) (hcontent : b.content = []) :
    ObufState.Logged { obuf := b, content := [], svps := [] } :=
  ⟨hinv, hcontent, fun _ hx => absurd hx List.not_mem_nil, .nil⟩

theorem ObufOp.exec_inv (h : s.Inv) (op : ObufOp) (hop : op.Allowed g s) :
    ∃ s', op.exec g s = some s' ∧ s'.Inv := by
  cases op with
  | dup data size slabGet =>
      obtain ⟨n, b, heq, hstarted, -, hw, -⟩ :=
        obufDup_spec h.obuf h.started h.start hop.2 hop.1 data
      exact ⟨_, by simp only [ObufOp.exec, heq]; rfl, h.toLogged.wrote hw, hw.start ▸ h.start,
        hstarted⟩
  | alloc size data slabGet =>
      obtain ⟨ptr, b, heq, hstarted, hnull, hsome⟩ :=
        obufAlloc_spec h.obuf h.started h.start hop.2 hop.1 data
      cases ptr with
      | none =>
          have hs := hnull rfl
          exact ⟨_, by simp only [ObufOp.exec, heq]; rfl, h.toLogged.same hs, hs.start ▸ h.start,
            hstarted⟩
      | some p =>
          have hw := hsome p rfl
          exact ⟨_, by simp only [ObufOp.exec, heq]; rfl, h.toLogged.wrote hw, hw.start ▸ h.start,
            hstarted.start, hstarted.shifted⟩
  | reserve size slabGet =>
      obtain ⟨hsize, hans, hres⟩ := hop
      obtain ⟨ptr, b, heq, hs, hstarted⟩ :=
        obufReserve_spec h.obuf h.started h.start hans hres hsize
      exact ⟨_, by simp only [ObufOp.exec, heq]; rfl, h.toLogged.same hs, hs.start ▸ h.start,
        hstarted⟩
  | createSvp =>
      obtain ⟨svp, heq, hat, hle⟩ := obufCreateSvp_spec h.toLogged
      exact ⟨{ s with svps := (svp, s.content) :: s.svps }, by simp only [ObufOp.exec, heq]; rfl,
        h.toLogged.createSvp hat hle, h.start, h.started⟩
  | rollbackToSvp k =>
      obtain ⟨⟨svp, content⟩, hk⟩ : ∃ x, s.svps[k]? = some x := ⟨_, List.getElem?_eq_getElem hop⟩
      obtain ⟨b, heq, hstart, hstarted, hlogged⟩ := h.toLogged.rollback hk
      exact ⟨_, by simp only [ObufOp.exec, hk, Option.bind_eq_bind, Option.bind_some, heq],
        hlogged, hstart ▸ h.start, hstarted h.started⟩
  | reset =>
      obtain ⟨b, heq, hinv, hcontent, hstart, hstarted⟩ := obufReset_spec h.obuf
      exact ⟨_, by simp only [ObufOp.exec, heq]; rfl, .reset hinv hcontent, hstart ▸ h.start,
        hstarted h.started⟩
  | write mem =>
      have hs := h.obuf.setMem hop
      exact ⟨_, rfl, h.toLogged.same hs, h.start, h.started.start, h.started.shifted⟩

/-! ## The log -/

/-- The buffer `s` is its log. -/
structure ObufState.Exact (g : Geometry) (s : ObufState) : Prop where
  content : s.obuf.content = s.content
  used : s.obuf.used = s.content.length
  pos : s.obuf.pos < smallObufIovMax
  posLe : s.obuf.pos ≤ s.obuf.nIov
  blocks : ∀ i < s.obuf.nIov, 0 < (s.obuf.vec i).capacity ∧
    (s.obuf.vec i).len ≤ (s.obuf.vec i).capacity
  zero : s.obuf.vec s.obuf.nIov = zeroVec
  empty : ∀ i, s.obuf.pos < i → i ≤ s.obuf.nIov → (s.obuf.vec i).len = 0
  /-- No assertion fails, and no access leaves the arrays. -/
  returns : ∀ op : ObufOp, op.Allowed g s → ∃ s', op.exec g s = some s'
  /-- Less than all the data is copied only when `slab_get` refused memory for the rest of it, or
  the vector is used up. -/
  dup : ∀ data size slabGet, (ObufOp.dup data size slabGet).Allowed g s →
    ∃ n b, obufDup g slabGet s.obuf data size = some (n, b) ∧ n ≤ size ∧
      b.content = s.content ++ (List.range n).map data ∧ b.used = s.obuf.used + n ∧
      (n < size → (∃ m, b.posCapacity (size - n) = some m ∧ slabGet m = none) ∨
        b.pos + 1 = smallObufIovMax ∧ (b.vec b.pos).len = (b.vec b.pos).capacity)
  alloc : ∀ size data slabGet, (ObufOp.alloc size data slabGet).Allowed g s →
    ∃ ptr b, obufAlloc g slabGet s.obuf size = some (ptr, b) ∧
      (ptr = none → b.content = s.content ∧ b.used = s.obuf.used) ∧
      ∀ p, ptr = some p →
        Obuf.content { b with mem := fill b.mem p size data } =
        s.content ++ (List.range size).map data ∧
        b.used = s.obuf.used + size
  reserve : ∀ size slabGet, (ObufOp.reserve size slabGet).Allowed g s →
    ∃ ptr b, obufReserve g slabGet s.obuf size = some (ptr, b) ∧ b.content = s.content ∧
    b.used = s.obuf.used
  rollback : ∀ (k : Nat) svp content, s.svps[k]? = some (svp, content) →
    ∃ b, obufRollbackToSvp s.obuf svp = some b ∧ b.content = content ∧ b.used = content.length
  reset : ∃ b, obufReset s.obuf = some b ∧ b.content = [] ∧ b.used = 0

theorem ObufState.Inv.exact (h : s.Inv) : s.Exact g := by
  have hused : s.obuf.used = s.content.length := by rw [← h.content, h.obuf.used]
  constructor
  case content => exact h.content
  case used => exact hused
  case pos => exact h.obuf.pos
  case posLe => exact h.obuf.posLe
  case blocks => exact fun i hi => ⟨(h.obuf.blocks i hi).pos, (h.obuf.blocks i hi).len⟩
  case zero => exact h.obuf.zero
  case empty => exact h.obuf.empty
  case returns =>
    intro op hop
    obtain ⟨s', hex, -⟩ := ObufOp.exec_inv h op hop
    exact ⟨s', hex⟩
  case dup =>
    intro data size slabGet hop
    obtain ⟨n, b, heq, -, hle, hw, hless⟩ := obufDup_spec h.obuf h.started h.start hop.2 hop.1 data
    have hs := h.toLogged.wrote hw
    refine ⟨n, b, heq, hle, hs.content, ?_, hless⟩
    rw [hs.obuf.used, hs.content]
    simp [hused]
  case alloc =>
    intro size data slabGet hop
    obtain ⟨ptr, b, heq, -, hnull, hsome⟩ :=
      obufAlloc_spec h.obuf h.started h.start hop.2 hop.1 data
    refine ⟨ptr, b, heq, fun hp => ?_, fun p hp => ?_⟩
    · have hs := h.toLogged.same (hnull hp)
      exact ⟨hs.content, by rw [hs.obuf.used, hs.content, hused]⟩
    · have hs := h.toLogged.wrote (hsome p hp)
      refine ⟨hs.content, ?_⟩
      show Obuf.used { b with mem := fill b.mem p size data } = s.obuf.used + size
      rw [hs.obuf.used, hs.content]
      simp [hused]
  case reserve =>
    rintro size slabGet ⟨hsize, hans, hres⟩
    obtain ⟨ptr, b, heq, hsame, -⟩ := obufReserve_spec h.obuf h.started h.start hans hres hsize
    have hs := h.toLogged.same hsame
    exact ⟨ptr, b, heq, hs.content, by rw [hs.obuf.used, hs.content, hused]⟩
  case rollback =>
    intro k svp content hk
    obtain ⟨b, heq, -, -, hs⟩ := h.toLogged.rollback hk
    exact ⟨b, heq, hs.content, by rw [hs.obuf.used, hs.content]⟩
  case reset =>
    obtain ⟨b, heq, hinv, hcontent, -⟩ := obufReset_spec h.obuf
    exact ⟨b, heq, hcontent, by rw [hinv.used, hcontent]; rfl⟩

/-! ## Start capacities that wrap around -/

/-- A request that wraps around gets a slab of the cache. -/
theorem Geometry.slabRealSize_of_wrap (g : Geometry) {n : Nat} (hn : n < sizeMax)
    (hwrap : ¬ StartOk n) :
    g.slabRealSize n < 2 ^ 32 := by
  have hlt := g.slabSize_lt
  have hmod : (n + slabSizeof) % sizeMax < slabSizeof := by
    unfold StartOk at hwrap
    simp only [sizeMax, slabSizeof] at *
    omega
  have hle := g.slabOrder_le ((n + slabSizeof) % sizeMax)
  unfold slabRealSize
  simp only
  split
  · exact hmod.trans (by decide)
  · refine Nat.lt_of_le_of_lt ?_ hlt
    rw [← g.slabOrderSize_max]
    exact slabOrderSize_le (by omega)

/-- The answer of `slab_get` that gives the slab at address 4096 to requests for `n` bytes only. -/
def onlyFor (n : Nat) : Nat → Option Nat := fun m => if m = n then some 4096 else none

theorem onlyFor_answers {n : Nat} (hn : n < sizeMax) (hwrap : ¬ StartOk n) (vec : Nat → ObufVec)
    (mem : Nat → UInt8) :
    (obufCreate vec mem n).Answers g (onlyFor n) := by
  intro m addr hget
  have hlt := g.slabRealSize_of_wrap hn hwrap
  unfold onlyFor at hget
  split at hget
  · rename_i hm
    subst hm
    rw [Option.some.injEq] at hget
    subst hget
    exact ⟨by decide, by omega, fun i hi => absurd hi (Nat.not_lt_zero i)⟩
  · simp at hget

/-- In the empty buffer, a chunk that is larger than any slab of the cache does not fit in the block
of a request that wraps around. -/
theorem obufAlloc_of_wrap {n size : Nat} (hn : n < sizeMax) (hwrap : ¬ StartOk n)
    (h1 : 2 ^ 32 ≤ size) (hsize : size < 2 ^ 62) (vec : Nat → ObufVec) (mem : Nat → UInt8) :
    obufAlloc g (onlyFor n) (obufCreate vec mem n) size = none := by
  have hlt := g.slabRealSize_of_wrap hn hwrap
  have hmod : size % sizeMax = size := Nat.mod_eq_of_lt (by simp only [sizeMax]; omega)
  have hbig : ¬ n < size := by
    unfold StartOk at hwrap
    simp only [sizeMax, slabSizeof] at hwrap
    omega
  have hroom : ¬ size ≤ g.slabRealSize n - slabSizeof := by omega
  have hpos : 0 < size := by omega
  set b := obufCreate vec mem n with hb
  have hat : b.at b.pos = some zeroVec := by simp [hb, obufCreate, Obuf.at, zeroVec]
  have hcap : (b.set (b.pos + 1) zeroVec).posCapacity size = some n := by
    simp [hb, Obuf.posCapacity, Obuf.set, obufCreate, allocPosLoop, Nat.mod_eq_of_lt hn, hbig]
  set b1 : Obuf := { (b.set (b.pos + 1) zeroVec).setSlab g zeroVec 4096 n with nIov := 1 } with hb1
  have hallocPos : obufAllocPos g (onlyFor n) b size = some (some (4096 + slabSizeof), b1) := by
    have hnext : b.at (b.pos + 1) = some (b.vec 1) := rfl
    have hentry : zeroVec.capacity = 0 ∧ zeroVec.len = 0 := ⟨rfl, rfl⟩
    have hlast : b.pos < smallObufIovMax := (by decide : 0 < smallObufIovMax)
    have hend : b.nIov = b.pos := rfl
    unfold obufAllocPos
    simp only [hat, hnext, hcap, guard, if_pos hentry, if_pos hlast, if_pos hend, pure,
      Option.bind_eq_bind, Option.bind_some, onlyFor, if_true]
    rfl
  have hcheck : b1.checkRoom size = none := by
    have hat1 : b1.at b1.pos = some { zeroVec with
        base := 4096 + slabSizeof, capacity := g.slabRealSize n - slabSizeof } := by
      simp [hb1, hb, Obuf.at, Obuf.setSlab, Obuf.set, obufCreate]
    unfold Obuf.checkRoom
    rw [hat1]
    simp [guard, zeroVec, hmod, hroom]
  have hhere :
      obufReserveHere g (onlyFor n) b zeroVec size = some (some (4096 + slabSizeof), b1) := by
    unfold obufReserveHere
    rw [if_pos (show size > zeroVec.capacity from hpos),
      if_neg (show ¬ zeroVec.capacity > 0 from Nat.lt_irrefl 0), hallocPos]
  have hslow : obufReserveSlow g (onlyFor n) b size = none := by
    have hnone : b.nextIfUsed zeroVec = some b := rfl
    have hempty : zeroVec.len = 0 := rfl
    unfold obufReserveSlow
    simp only [hat, hnone, guard, if_pos hempty, pure, hhere, hcheck, Option.bind_eq_bind,
      Option.bind_some, Option.bind_none]
  unfold obufAlloc
  simp only [hat, hslow, Option.bind_eq_bind, Option.bind_some, Option.bind_none]
  rw [if_neg]
  show ¬ (0 + size) % sizeMax ≤ 0
  rw [Nat.zero_add, hmod]
  omega

/-- **The output buffer is an exact log of bytes with savepoints** in every run if and only if the
start capacity does not wrap around with the header of a slab. -/
theorem obuf_exact_log (g : Geometry) (startCapacity : Nat) (h1 : 1 ≤ startCapacity)
    (hlt : startCapacity < sizeMax) :
    (∀ s, (obufMachine g startCapacity).Reachable s → s.Exact g) ↔
      startCapacity + slabSizeof < sizeMax := by
  constructor
  · intro hall
    by_contra hwrap
    have hinit : (obufMachine g startCapacity).Reachable
        { obuf := obufCreate (fun _ => zeroVec) (fun _ => 0) startCapacity, content := [],
          svps := [] } :=
      .init ⟨_, _, rfl⟩
    obtain ⟨s', hex⟩ :=
      (hall _ hinit).returns (.alloc (2 ^ 32) (fun _ => 0) (onlyFor startCapacity))
      ⟨by decide, onlyFor_answers hlt hwrap _ _⟩
    simp only [ObufOp.exec,
      obufAlloc_of_wrap hlt hwrap (Nat.le_refl _) (by decide : 2 ^ 32 < 2 ^ 62),
      Option.bind_eq_bind, Option.bind_none] at hex
    simp at hex
  · intro hok s hs
    have hinit : ∀ s, (obufMachine g startCapacity).init s → s.Inv := by
      rintro s ⟨vec, mem, rfl⟩
      exact ⟨obufCreate_logged vec mem startCapacity, hok, obufCreate_started vec mem h1 hlt⟩
    obtain ⟨h, -⟩ := (obufMachine g startCapacity).invariant hinit
      (fun s op h hop => ObufOp.exec_inv h op hop) hs
    exact h.exact

/-- A buffer that starts with 16 bytes. -/
theorem obuf_exact_log_sixteen :
    16 + slabSizeof < sizeMax ∧ ∀ s, (obufMachine fourPages 16).Reachable s → s.Exact fourPages :=
  ⟨by decide, (obuf_exact_log fourPages 16 (by decide) (by decide)).mpr (by decide)⟩

/-- With the largest start capacity, the first block has 4048 bytes, and the assertion that a
chunk of 4096 bytes fits in it fails. -/
theorem obuf_max_start_capacity :
    1 ≤ sizeMax - 1 ∧ sizeMax - 1 < sizeMax ∧
    ¬ ∀ s, (obufMachine fourPages (sizeMax - 1)).Reachable s → s.Exact fourPages := by
  refine ⟨by decide, by decide, fun hall => ?_⟩
  have hinit : (obufMachine fourPages (sizeMax - 1)).Reachable
      { obuf := obufCreate (fun _ => zeroVec) (fun _ => 0) (sizeMax - 1), content := [],
        svps := [] } :=
    .init ⟨_, _, rfl⟩
  have hwrap : ¬ StartOk (sizeMax - 1) := by
    unfold StartOk
    decide
  obtain ⟨s', hex⟩ := (hall _ hinit).returns (.alloc 4096 (fun _ => 0) (onlyFor (sizeMax - 1)))
    ⟨by decide, onlyFor_answers (by decide) hwrap _ _⟩
  have hnone : ObufOp.exec fourPages
      { obuf := obufCreate (fun _ => zeroVec) (fun _ => 0) (sizeMax - 1), content := [],
        svps := [] }
      (.alloc 4096 (fun _ => 0) (onlyFor (sizeMax - 1))) = none := by decide
  rw [hnone] at hex
  simp at hex

end SmallAllocators
