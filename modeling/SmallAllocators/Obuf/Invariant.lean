/-
SmallAllocators.Obuf.Invariant — the invariant of the output buffer.

`Obuf.Inv` says how the entries of the vector are laid out, and
`Obuf.Keeps` that a later buffer still has what an earlier one has written:
the entries before the current one, and the bytes of the current one. So a
savepoint, which is a position in the bytes written so far (`Obuf.upTo`),
stays valid. The functions are made of four moves: appending bytes to the
current entry, going to the next entry, and giving the current entry its
first block or a larger one. Each move has one theorem, and each function
is put together from these.
-/
import SmallAllocators.SlabCache.Get
import SmallAllocators.Obuf.Model

namespace SmallAllocators

open Memory

variable {g : Geometry} {slabGet : Nat → Option Nat} {b b' b'' : Obuf} {n size p l : Nat}

/-! ## The contents -/

/-- The bytes of entry `i`. -/
def Obuf.bytes (b : Obuf) (i : Nat) : List UInt8 := read b.mem (b.vec i).base (b.vec i).len

/-- The bytes written up to a position: those of the entries before `p`, and `l` bytes of entry
`p`. -/
def Obuf.upTo (b : Obuf) (p l : Nat) : List UInt8 :=
  (List.range p).flatMap b.bytes ++ read b.mem (b.vec p).base l

/-- The contents of the buffer: the bytes of the entries up to the current one. -/
def Obuf.content (b : Obuf) : List UInt8 := (List.range (b.pos + 1)).flatMap b.bytes

theorem Obuf.content_eq (b : Obuf) : b.content = b.upTo b.pos (b.vec b.pos).len := by
  rw [Obuf.content, Obuf.upTo, List.range_succ, List.flatMap_append]
  simp [Obuf.bytes]

theorem Obuf.content_length (b : Obuf) :
    b.content.length = ∑ i ∈ Finset.range (b.pos + 1), (b.vec i).len := by
  unfold Obuf.content
  induction b.pos + 1 with
  | zero => rfl
  | succ p ih =>
      rw [List.range_succ, List.flatMap_append, List.length_append, ih, Finset.sum_range_succ]
      simp [Obuf.bytes]

/-- What the buffer `b` has written is in the buffer `b'` too. -/
structure Obuf.Keeps (b b' : Obuf) : Prop where
  pos : b.pos ≤ b'.pos
  whole : ∀ i < b.pos, (b'.vec i).base = (b.vec i).base ∧ (b'.vec i).len = (b.vec i).len
  part : (b.vec b.pos).len ≤ (b'.vec b.pos).len
  base : 0 < (b.vec b.pos).len → (b'.vec b.pos).base = (b.vec b.pos).base
  bytes : ∀ i ≤ b.pos, ∀ x, (b.vec i).base ≤ x → x < (b.vec i).base + (b.vec i).len →
    b'.mem x = b.mem x

theorem Obuf.Keeps.len (h : b.Keeps b') {i : Nat} (hi : i ≤ b.pos) :
    (b.vec i).len ≤ (b'.vec i).len := by
  rcases Nat.lt_or_eq_of_le hi with hi | rfl
  · exact Nat.le_of_eq (h.whole i hi).2.symm
  · exact h.part

theorem Obuf.Keeps.base_eq (h : b.Keeps b') {i : Nat} (hi : i ≤ b.pos) (hlen : 0 < (b.vec i).len) :
    (b'.vec i).base = (b.vec i).base := by
  rcases Nat.lt_or_eq_of_le hi with hi | rfl
  · exact (h.whole i hi).1
  · exact h.base hlen

theorem Obuf.Keeps.trans (h : b.Keeps b') (h' : b'.Keeps b'') : b.Keeps b'' := by
  have hle := h.pos
  refine ⟨hle.trans h'.pos, fun i hi => ?_, ?_, fun hlen => ?_, fun i hi x h1 h2 => ?_⟩
  · obtain ⟨h1, h2⟩ := h.whole i hi
    obtain ⟨h3, h4⟩ := h'.whole i (by omega)
    exact ⟨h3.trans h1, h4.trans h2⟩
  · exact h.part.trans (h'.len hle)
  · exact (h'.base_eq hle (Nat.lt_of_lt_of_le hlen h.part)).trans (h.base hlen)
  · have hlen := h.len hi
    have hbase := h.base_eq hi (by omega)
    exact (h'.bytes i (hi.trans hle) x (by omega) (by omega)).trans (h.bytes i hi x h1 h2)

/-- A position in what was written stays what it is. -/
theorem Obuf.Keeps.upTo (h : b.Keeps b') (hp : p ≤ b.pos) (hl : l ≤ (b.vec p).len) :
    b'.upTo p l = b.upTo p l := by
  unfold Obuf.upTo
  congr 1
  · refine List.flatMap_congr fun i hi => ?_
    rw [List.mem_range] at hi
    obtain ⟨hbase, hlen⟩ := h.whole i (by omega)
    unfold Obuf.bytes
    rw [hbase, hlen]
    exact read_congr fun x h1 h2 => h.bytes i (by omega) x h1 h2
  · cases l with
    | zero => rfl
    | succ l =>
        rw [h.base_eq hp (by omega)]
        exact read_congr fun x h1 h2 => h.bytes p hp x h1 (by omega)

/-! ## The invariant -/

/-- An entry with a block. -/
structure ObufVec.Block (v : ObufVec) : Prop where
  header : slabSizeof < v.base
  last : v.base + v.capacity < 2 ^ 63
  pos : 0 < v.capacity
  len : v.len ≤ v.capacity

/-- The entry that ends the vector. -/
def zeroVec : ObufVec where
  base := 0
  len := 0
  capacity := 0

/-- Two blocks are in different memory. -/
def ObufVec.Apart (v w : ObufVec) : Prop :=
  v.base + v.capacity ≤ w.base ∨ w.base + w.capacity ≤ v.base

structure Obuf.Inv (b : Obuf) : Prop where
  pos : b.pos < smallObufIovMax
  posLe : b.pos ≤ b.nIov
  nIov : b.nIov ≤ smallObufIovMax
  blocks : ∀ i < b.nIov, (b.vec i).Block
  zero : b.vec b.nIov = zeroVec
  empty : ∀ i, b.pos < i → i ≤ b.nIov → (b.vec i).len = 0
  apart : ∀ i < b.nIov, ∀ j < b.nIov, i ≠ j → (b.vec i).Apart (b.vec j)
  used : b.used = b.content.length

/-- Each block is as large as what `obuf_alloc_pos` starts from. -/
structure Obuf.Started (b : Obuf) : Prop where
  start : 1 ≤ b.startCapacity ∧ b.startCapacity < sizeMax
  shifted : ∀ i < b.nIov, b.startCapacity <<< i % sizeMax ≤ (b.vec i).capacity

theorem Obuf.Started.setPos (h : b.Started) (p : Nat) : Obuf.Started { b with pos := p } :=
  ⟨h.start, h.shifted⟩

theorem Obuf.Started.congr (h : b.Started) (hstart : b'.startCapacity = b.startCapacity)
    (hvec : ∀ i < b'.nIov, b.startCapacity <<< i % sizeMax ≤ (b'.vec i).capacity ∨
      i < b.nIov ∧ (b'.vec i).capacity = (b.vec i).capacity) : b'.Started := by
  refine ⟨hstart ▸ h.start, fun i hi => ?_⟩
  rw [hstart]
  rcases hvec i hi with hle | ⟨hi', heq⟩
  · exact hle
  · rw [heq]
    exact h.shifted i hi'

theorem Obuf.at_eq (h : p < smallObufIovMax + 1) : b.at p = some (b.vec p) := if_pos h

theorem Obuf.Inv.at_pos (h : b.Inv) : b.at b.pos = some (b.vec b.pos) :=
  Obuf.at_eq (Nat.lt_succ_of_lt h.pos)

/-- The entry at the current position: a block, or the one that ends the vector. -/
theorem Obuf.Inv.current (h : b.Inv) :
    b.pos < b.nIov ∧ (b.vec b.pos).Block ∨ b.pos = b.nIov ∧ b.vec b.pos = zeroVec := by
  rcases Nat.lt_or_eq_of_le h.posLe with hlt | heq
  · exact Or.inl ⟨hlt, h.blocks _ hlt⟩
  · exact Or.inr ⟨heq, heq ▸ h.zero⟩

theorem Obuf.Inv.len_le (h : b.Inv) : (b.vec b.pos).len ≤ (b.vec b.pos).capacity ∧
    (b.vec b.pos).capacity < 2 ^ 63 := by
  rcases h.current with ⟨-, hb⟩ | ⟨-, hz⟩
  · have := hb.last
    exact ⟨hb.len, by omega⟩
  · rw [hz]
    exact ⟨Nat.le_refl _, by decide⟩

/-- The blocks are in the lower half of the address space, so the room in them is less than a
`size_t`. -/
theorem Obuf.Inv.used_add_le (h : b.Inv) :
    b.used + ((b.vec b.pos).capacity - (b.vec b.pos).len) ≤ 2 ^ 63 := by
  have hle := h.posLe
  have hlen := h.len_le.1
  have hlast : ∀ i ∈ Finset.range b.nIov, (b.vec i).base + (b.vec i).capacity ≤ 2 ^ 63 :=
    fun i hi =>
    Nat.le_of_lt (h.blocks i (Finset.mem_range.1 hi)).last
  have hall := sum_le_of_apart (Finset.range b.nIov) (fun i => (b.vec i).base)
    (fun i => (b.vec i).capacity) hlast
    fun i hi j hj hne => h.apart i (Finset.mem_range.1 hi) j (Finset.mem_range.1 hj) hne
  have hfull :
      ∑ i ∈ Finset.range b.pos, (b.vec i).len ≤ ∑ i ∈ Finset.range b.pos, (b.vec i).capacity :=
    Finset.sum_le_sum fun i hi => (h.blocks i ((Finset.mem_range.1 hi).trans_le hle)).len
  have hblocks : ∑ i ∈ Finset.range b.pos, (b.vec i).capacity + (b.vec b.pos).capacity ≤
      ∑ i ∈ Finset.range b.nIov, (b.vec i).capacity := by
    rcases h.current with ⟨hlt, -⟩ | ⟨heq, hz⟩
    · rw [← Finset.sum_range_succ (fun i => (b.vec i).capacity)]
      exact Finset.sum_le_sum_of_subset (Finset.range_subset_range.2 hlt)
    · rw [hz, ← heq]
      exact Nat.le_refl _
  have hused : b.used = ∑ i ∈ Finset.range b.pos, (b.vec i).len + (b.vec b.pos).len := by
    rw [h.used, Obuf.content_length, Finset.sum_range_succ]
  omega

/-- Bytes for which there is room are counted without wrapping around. -/
theorem Obuf.Inv.append_lt (h : b.Inv) (hn : (b.vec b.pos).len + n ≤ (b.vec b.pos).capacity) :
    (b.vec b.pos).len + n < sizeMax ∧ b.used + n < sizeMax := by
  have hcap := h.len_le.2
  have hused := h.used_add_le
  simp only [sizeMax]
  omega

/-- The bytes of the entries up to the current one are in different places. -/
theorem Obuf.Inv.apart_bytes (h : b.Inv) {i : Nat} (hi : i ≤ b.pos) (hne : i ≠ b.pos) {x : Nat}
    (h1 : (b.vec i).base ≤ x) (h2 : x < (b.vec i).base + (b.vec i).len) :
    ¬ ((b.vec b.pos).base ≤ x ∧ x < (b.vec b.pos).base + (b.vec b.pos).capacity) := by
  intro hx
  have hle := h.posLe
  have hi' : i < b.nIov := by omega
  have hlen := (h.blocks i hi').len
  rcases h.current with ⟨hlt, -⟩ | ⟨-, hz⟩
  · rcases h.apart i hi' b.pos hlt hne with hap | hap <;> omega
  · simp [hz, zeroVec] at hx

/-! ## The moves -/

@[simp] theorem Obuf.set_vec (b : Obuf) (i j : Nat) (v : ObufVec) :
    (b.set i v).vec j = if j = i then v else b.vec j := by
  simp [Obuf.set, Function.update_apply]

/-- The bytes of the entries before the current one, after a change to the current entry and to
memory that they do not use. -/
theorem Obuf.flatMap_bytes_congr (hvec : ∀ i < p, b'.vec i = b.vec i)
    (hmem : ∀ i < p, ∀ x, (b.vec i).base ≤ x → x < (b.vec i).base + (b.vec i).len →
      b'.mem x = b.mem x) :
    (List.range p).flatMap b'.bytes = (List.range p).flatMap b.bytes := by
  refine List.flatMap_congr fun i hi => ?_
  rw [List.mem_range] at hi
  unfold Obuf.bytes
  rw [hvec i hi]
  exact read_congr fun x h1 h2 => hmem i hi x h1 h2

/-- Appending bytes to the current entry. -/
theorem Obuf.append_spec (h : b.Inv) (data : Nat → UInt8)
    (hn : (b.vec b.pos).len + n ≤ (b.vec b.pos).capacity) :
    (b.append (b.vec b.pos) n data).Inv ∧ b.Keeps (b.append (b.vec b.pos) n data) ∧
    (b.append (b.vec b.pos) n data).content = b.content ++ (List.range n).map data := by
  obtain ⟨hlen, hsum⟩ := h.append_lt hn
  set v := b.vec b.pos with hv
  set b' := b.append v n data with hb'
  have hvec : ∀ i, b'.vec i = if i = b.pos then { v with len := v.len + n } else b.vec i := by
    intro i
    simp [hb', Obuf.append, Nat.mod_eq_of_lt hlen]
  have hmem : b'.mem = fill b.mem (v.base + v.len) n data := rfl
  have hbytes : ∀ i ≤ b.pos, ∀ x, (b.vec i).base ≤ x → x < (b.vec i).base + (b.vec i).len →
      b'.mem x = b.mem x := by
    intro i hi x h1 h2
    rw [hmem]
    refine fill_of_not fun hx => ?_
    by_cases hne : i = b.pos
    · rw [hne, ← hv] at h1 h2
      omega
    · have hout := h.apart_bytes hi hne h1 h2
      rw [← hv] at hout
      omega
  have hcontent : b'.content = b.content ++ (List.range n).map data := by
    rw [Obuf.content_eq, Obuf.content_eq, Obuf.upTo, Obuf.upTo, ← hv]
    have h1 : (List.range b.pos).flatMap b'.bytes = (List.range b.pos).flatMap b.bytes :=
      Obuf.flatMap_bytes_congr (fun i hi => by rw [hvec, if_neg (by omega)])
        fun i hi => hbytes i (Nat.le_of_lt hi)
    have h2 : b'.vec b'.pos = { v with len := v.len + n } := (hvec b.pos).trans (if_pos rfl)
    rw [h2, show b'.pos = b.pos from rfl, h1]
    show _ ++ read b'.mem v.base (v.len + n) = _
    rw [read_add, hmem, read_fill, read_fill_of_disjoint (fun x _ _ => by omega), List.append_assoc]
  refine ⟨?_, ?_, hcontent⟩
  · constructor
    case pos => exact h.pos
    case posLe => exact h.posLe
    case nIov => exact h.nIov
    case blocks =>
      intro i hi
      rw [hvec]
      by_cases hip : i = b.pos
      · rw [if_pos hip]
        have hb := h.blocks i hi
        rw [hip, ← hv] at hb
        exact ⟨hb.header, hb.last, hb.pos, hn⟩
      · rw [if_neg hip]
        exact h.blocks i hi
    case zero =>
      show b'.vec b.nIov = zeroVec
      rw [hvec]
      by_cases hip : b.nIov = b.pos
      · have hz := h.zero
        rw [hip, ← hv] at hz
        have h0 : n = 0 := by
          rw [hz] at hn
          simp only [zeroVec] at hn
          omega
        rw [if_pos hip, h0, hz]
        rfl
      · rw [if_neg hip]
        exact h.zero
    case empty =>
      intro i h1 h2
      have h1' : b.pos < i := h1
      rw [hvec, if_neg (by omega)]
      exact h.empty i h1 h2
    case apart =>
      intro i hi j hj hne
      have hap := h.apart i hi j hj hne
      rw [hvec, hvec]
      unfold ObufVec.Apart at hap ⊢
      split <;> split <;> simp_all
    case used =>
      rw [hcontent, List.length_append, List.length_map, List.length_range, ← h.used]
      exact Nat.mod_eq_of_lt hsum
  · constructor
    case pos => exact Nat.le_refl _
    case whole =>
      intro i hi
      rw [hvec, if_neg (by omega)]
      exact ⟨rfl, rfl⟩
    case part =>
      rw [hvec, if_pos rfl]
      exact Nat.le_add_right _ _
    case base =>
      intro _
      rw [hvec, if_pos rfl]
    case bytes => exact hbytes

/-- What all moves but appending do: they keep the contents. -/
structure Obuf.Same (b b' : Obuf) : Prop where
  inv : b'.Inv
  keeps : b.Keeps b'
  content : b'.content = b.content
  start : b'.startCapacity = b.startCapacity

theorem Obuf.Same.trans (h : b.Same b') (h' : b'.Same b'') : b.Same b'' :=
  ⟨h'.inv, h.keeps.trans h'.keeps, h'.content.trans h.content, h'.start.trans h.start⟩

/-- Entries behind the end of the vector do not matter, nor does the flag. -/
theorem Obuf.Inv.same_of_vec (h : b.Inv) (hpos : b'.pos = b.pos) (hn : b'.nIov = b.nIov)
    (hmem : b'.mem = b.mem) (hused : b'.used = b.used)
    (hstart : b'.startCapacity = b.startCapacity) (hvec : ∀ i ≤ b.nIov, b'.vec i = b.vec i) :
    b.Same b' := by
  have hle := h.posLe
  have hcontent : b'.content = b.content := by
    unfold Obuf.content
    rw [hpos]
    exact Obuf.flatMap_bytes_congr (fun i hi => hvec i (by omega)) fun _ _ x _ _ => by rw [hmem]
  have hinv : b'.Inv := by
    constructor
    case pos => rw [hpos]; exact h.pos
    case posLe => rw [hpos, hn]; exact hle
    case nIov => rw [hn]; exact h.nIov
    case blocks =>
      intro i hi
      rw [hn] at hi
      rw [hvec i (Nat.le_of_lt hi)]
      exact h.blocks i hi
    case zero =>
      rw [hn, hvec _ (Nat.le_refl _)]
      exact h.zero
    case empty =>
      intro i h1 h2
      rw [hpos] at h1
      rw [hn] at h2
      rw [hvec i h2]
      exact h.empty i h1 h2
    case apart =>
      intro i hi j hj hne
      rw [hn] at hi hj
      rw [hvec i (Nat.le_of_lt hi), hvec j (Nat.le_of_lt hj)]
      exact h.apart i hi j hj hne
    case used => rw [hused, hcontent, h.used]
  refine ⟨hinv,
    ⟨Nat.le_of_eq hpos.symm, fun i hi => ?_, ?_, fun _ => ?_, fun _ _ x _ _ => by rw [hmem]⟩,
    hcontent, hstart⟩
  · rw [hvec i (by omega)]
    exact ⟨rfl, rfl⟩
  · rw [hvec _ hle]
  · rw [hvec _ hle]

/-- Going to the next entry, which is empty. -/
theorem Obuf.Inv.next (h : b.Inv) (hlt : b.pos < b.nIov) (hmax : b.pos + 1 < smallObufIovMax) :
    b.Same { b with pos := b.pos + 1 } := by
  have hcontent : Obuf.content { b with pos := b.pos + 1 } = b.content := by
    show (List.range (b.pos + 1 + 1)).flatMap b.bytes = (List.range (b.pos + 1)).flatMap b.bytes
    rw [List.range_succ, List.flatMap_append]
    simp [Obuf.bytes, h.empty (b.pos + 1) (Nat.lt_succ_self _) hlt]
  refine ⟨⟨hmax, hlt, h.nIov, h.blocks, h.zero, ?_, h.apart, ?_⟩, ?_, hcontent, rfl⟩
  · intro i h1 h2
    have h1' : b.pos + 1 < i := h1
    exact h.empty i (by omega) h2
  · rw [hcontent]
    exact h.used
  · exact ⟨Nat.le_succ _, fun _ _ => ⟨rfl, rfl⟩, Nat.le_refl _, fun _ => rfl, fun _ _ _ _ _ => rfl⟩

/-- The current entry, which is empty, gets a block: a larger one, or the first one of the entry,
which the next entry then ends the vector behind. -/
theorem Obuf.Inv.setBlock (h : b.Inv) {w : ObufVec} (hlen : (b.vec b.pos).len = 0) (hw : w.Block)
    (hw0 : w.len = 0) (hap : ∀ i < b.nIov, (b.vec i).Apart w) (hpos : b'.pos = b.pos)
    (hmem : b'.mem = b.mem) (hused : b'.used = b.used)
    (hstart : b'.startCapacity = b.startCapacity) (hnew : b'.vec b.pos = w)
    (hvec : ∀ i ≤ b.nIov, i ≠ b.pos → b'.vec i = b.vec i)
    (hn : b'.nIov = b.nIov ∧ b.pos < b.nIov ∨ b'.nIov = b.nIov + 1 ∧ b.pos = b.nIov ∧
      b'.vec (b.nIov + 1) = zeroVec) :
    b.Same b' := by
  have hle := h.posLe
  have hmax := h.pos
  have hsame : ∀ i < b'.nIov, i = b.pos ∨ i < b.nIov ∧ i ≠ b.pos ∧ b'.vec i = b.vec i := by
    intro i hi
    by_cases hip : i = b.pos
    · exact Or.inl hip
    · have hi' : i < b.nIov := by
        rcases hn with ⟨hn, -⟩ | ⟨hn, hpn, -⟩ <;> omega
      exact Or.inr ⟨hi', hip, hvec i (Nat.le_of_lt hi') hip⟩
  have hcontent : b'.content = b.content := by
    rw [Obuf.content_eq, Obuf.content_eq, Obuf.upTo, Obuf.upTo, hpos, hnew, hlen, hw0, read_zero,
      read_zero]
    congr 1
    exact Obuf.flatMap_bytes_congr (fun i hi => hvec i (by omega) (by omega)) fun _ _ x _ _ => by
      rw [hmem]
  have hinv : b'.Inv := by
    constructor
    case pos => rw [hpos]; exact hmax
    case posLe => rcases hn with ⟨hn, -⟩ | ⟨hn, -, -⟩ <;> omega
    case nIov =>
      have := h.nIov
      rcases hn with ⟨hn, -⟩ | ⟨hn, hpn, -⟩ <;> omega
    case blocks =>
      intro i hi
      rcases hsame i hi with rfl | ⟨hi', -, heq⟩
      · rw [hnew]
        exact hw
      · rw [heq]
        exact h.blocks i hi'
    case zero =>
      rcases hn with ⟨hn, hlt⟩ | ⟨hn, -, hz⟩
      · rw [hn, hvec _ (Nat.le_refl _) (by omega)]
        exact h.zero
      · rw [hn]
        exact hz
    case empty =>
      intro i h1 h2
      rw [hpos] at h1
      rcases hn with ⟨hn, -⟩ | ⟨hn, hpn, hz⟩
      · rw [hvec i (by omega) (by omega)]
        exact h.empty i h1 (by omega)
      · rw [show i = b.nIov + 1 by omega, hz]
        rfl
    case apart =>
      intro i hi j hj hne
      rcases hsame i hi with rfl | ⟨hi', -, heq⟩ <;> rcases hsame j hj with rfl | ⟨hj', -, heq'⟩
      · exact absurd rfl hne
      · rw [hnew, heq']
        exact Or.symm (hap j hj')
      · rw [hnew, heq]
        exact hap i hi'
      · rw [heq, heq']
        exact h.apart i hi' j hj' hne
    case used => rw [hused, hcontent, h.used]
  refine ⟨hinv,
    ⟨Nat.le_of_eq hpos.symm, fun i hi => ?_, ?_, fun hpos0 => ?_, fun _ _ x _ _ => by rw [hmem]⟩,
    hcontent, hstart⟩
  · rw [hvec i (by omega) (by omega)]
    exact ⟨rfl, rfl⟩
  · rw [hlen]
    exact Nat.zero_le _
  · omega

/-! ## Getting slabs -/

/-- What `slab_get` may return: memory in the lower half of the address space that the buffer does
not have already. -/
def Obuf.Answers (g : Geometry) (b : Obuf) (slabGet : Nat → Option Nat) : Prop :=
  ∀ n addr, slabGet n = some addr →
    0 < addr ∧ addr + g.slabRealSize n < 2 ^ 63 ∧
    ∀ i < b.nIov, addr + g.slabRealSize n ≤ (b.vec i).base - slabSizeof ∨
      (b.vec i).base + (b.vec i).capacity ≤ addr

/-- The capacity that the first entry asks for does not wrap around with the header of a slab. -/
def StartOk (startCapacity : Nat) : Prop := startCapacity + slabSizeof < sizeMax

/-- The block of a slab that `slab_get` returned. -/
def slabVec (g : Geometry) (addr n : Nat) : ObufVec where
  base := addr + slabSizeof
  len := 0
  capacity := g.slabRealSize n - slabSizeof

/-- A new slab is a block in other memory than those of the buffer. -/
theorem Obuf.Answers.block {addr : Nat} (hans : b.Answers g slabGet) (hget : slabGet n = some addr)
    (hn : slabSizeof < g.slabRealSize n) :
    (slabVec g addr n).Block ∧ ∀ i < b.nIov, (b.vec i).Apart (slabVec g addr n) := by
  obtain ⟨hpos, hlast, hout⟩ := hans n addr hget
  refine ⟨⟨?_, ?_, ?_, Nat.zero_le _⟩, fun i hi => ?_⟩
  · show slabSizeof < addr + slabSizeof
    omega
  · show addr + slabSizeof + (g.slabRealSize n - slabSizeof) < 2 ^ 63
    omega
  · show 0 < g.slabRealSize n - slabSizeof
    omega
  · show (b.vec i).base + (b.vec i).capacity ≤ addr + slabSizeof ∨
      addr + slabSizeof + (g.slabRealSize n - slabSizeof) ≤ (b.vec i).base
    rcases hout i hi with h | h <;> omega

/-- It has enough room, unless the capacity wraps around. -/
theorem slabVec_room (g : Geometry) (addr : Nat) (hn : n + slabSizeof < sizeMax) :
    n ≤ (slabVec g addr n).capacity ∧ n + slabSizeof ≤ g.slabRealSize n := by
  have hle := g.le_slabRealSize n
  rw [Nat.mod_eq_of_lt hn] at hle
  refine ⟨?_, hle⟩
  show n ≤ g.slabRealSize n - slabSizeof
  omega

/-- From a capacity that is not 0 on, the loop of `obuf_alloc_pos` doubles. -/
theorem allocPosLoop_eq {start : Nat} (hsize : size ≤ 2 ^ 63) (fuel c : Nat) (hc : 0 < c) :
    allocPosLoop start size fuel c = growLoop size fuel c := by
  induction fuel generalizing c with
  | zero => rfl
  | succ fuel ih =>
      unfold allocPosLoop growLoop
      by_cases hlt : c < size
      · rw [if_pos hlt, if_pos hlt, if_neg (by omega),
          Nat.mod_eq_of_lt (by simp only [sizeMax]; omega)]
        exact ih (c * 2) (by omega)
      · rw [if_neg hlt, if_neg hlt]

/-- The shift of a new entry does not wrap around with the header of a slab: the entry before has a
block of half the size. -/
theorem Obuf.Inv.shift_lt (h : b.Inv) (hst : b.Started) (hok : StartOk b.startCapacity)
    (hpos : b.pos = b.nIov) :
    b.startCapacity <<< b.pos % sizeMax + slabSizeof < sizeMax := by
  cases hp : b.pos with
  | zero =>
      rw [Nat.shiftLeft_zero, Nat.mod_eq_of_lt hst.start.2]
      exact hok
  | succ q =>
      have hq := hst.shifted q (by omega)
      have hblock := h.blocks q (by omega)
      have hheader := hblock.header
      have hlast := hblock.last
      have hmod : b.startCapacity <<< (q + 1) % sizeMax =
          b.startCapacity <<< q % sizeMax * 2 % sizeMax := by
        rw [Nat.shiftLeft_succ, Nat.mul_comm, Nat.mod_mul_mod]
      have hle := Nat.mod_le (b.startCapacity <<< q % sizeMax * 2) sizeMax
      rw [hmod]
      simp only [sizeMax, slabSizeof] at *
      omega

/-- The capacity that `obuf_alloc_pos` asks for is enough. -/
theorem Obuf.posCapacity_spec (h : b.Inv) (hst : b.Started) (hok : StartOk b.startCapacity)
    (hpos : b.pos = b.nIov) (h1 : 1 ≤ size) (hsize : size < 2 ^ 62) :
    ∃ n, b.posCapacity size = some n ∧ size ≤ n ∧ n + slabSizeof < sizeMax ∧
      b.startCapacity <<< b.pos % sizeMax ≤ n := by
  have hstart := hst.start.1
  have hc := h.shift_lt hst hok hpos
  unfold Obuf.posCapacity
  set c := b.startCapacity <<< b.pos % sizeMax with hcdef
  have hbound : ∀ n, n < 2 * size → n + slabSizeof < sizeMax := by
    intro n hn
    simp only [sizeMax, slabSizeof]
    omega
  by_cases hzero : c = 0
  · -- the shift took all bits out: the loop starts again
    obtain ⟨n, heq, hle, -, hn⟩ :=
      growLoop_spec (show size ≤ 2 ^ 63 by omega) 64 b.startCapacity (by omega)
    refine ⟨n, ?_, hle, ?_, by omega⟩
    · rw [hzero, allocPosLoop, if_pos (by omega), if_pos rfl, allocPosLoop_eq (by omega) _ _ hstart]
      exact heq
    · rcases hn with rfl | hn
      · exact hok
      · exact hbound n hn
  · obtain ⟨n, heq, hle, hge, hn⟩ := growLoop_spec (show size ≤ 2 ^ 63 by omega) 65 c (by omega)
    refine ⟨n, ?_, hle, ?_, hge⟩
    · rw [allocPosLoop_eq (by omega) _ _ (by omega)]
      exact heq
    · rcases hn with rfl | hn
      · exact hc
      · exact hbound n hn

/-! ## A new block -/

/-- The current entry, which was empty, has the slab at `addr`, which `slab_get` returned for a
request of `n` bytes. -/
structure Obuf.Got (g : Geometry) (b : Obuf) (addr n : Nat) (b' : Obuf) : Prop where
  same : b.Same b'
  pos : b'.pos = b.pos
  block : b'.vec b'.pos = slabVec g addr n
  others : ∀ i < b'.nIov, i = b.pos ∨ i < b.nIov ∧ b'.vec i = b.vec i

theorem Obuf.Got.started {addr : Nat} (h : b.Got g addr n b') (hst : b.Started)
    (hroom : b.startCapacity <<< b.pos % sizeMax ≤ (slabVec g addr n).capacity) : b'.Started := by
  refine hst.congr h.same.start fun i hi => ?_
  rcases h.others i hi with rfl | ⟨hlt, heq⟩
  · left
    rw [← h.pos, h.block, h.pos]
    exact hroom
  · right
    exact ⟨hlt, by rw [heq]⟩

/-- The buffer when `obuf_alloc_pos` returns: the entry behind the current one ends the vector. -/
def Obuf.firstBlock (g : Geometry) (b : Obuf) (addr n : Nat) : Obuf :=
  { (b.set (b.pos + 1) zeroVec).setSlab g zeroVec addr n with nIov := b.nIov + 1 }

/-- The buffer when `obuf_reserve_slow` has put back the slab of the current entry for a larger
one. -/
def Obuf.largerBlock (g : Geometry) (b : Obuf) (addr n : Nat) : Obuf :=
  { b.setSlab g (b.vec b.pos) addr n with puts := ((b.vec b.pos).base - slabSizeof) :: b.puts }

theorem Obuf.Inv.firstBlock {addr : Nat} (h : b.Inv) (hans : b.Answers g slabGet)
    (hpos : b.pos = b.nIov) (hget : slabGet n = some addr) (hn : slabSizeof < g.slabRealSize n) :
    b.Got g addr n (b.firstBlock g addr n) := by
  obtain ⟨hblock, hap⟩ := hans.block hget hn
  set b' := b.firstBlock g addr n with hb'
  have hvec : ∀ i, b'.vec i = if i = b.pos then slabVec g addr n else if i = b.pos + 1 then
      zeroVec else b.vec i := by
    intro i
    simp only [hb', Obuf.firstBlock, Obuf.setSlab, Obuf.set_vec]
    rfl
  have hcur : b'.vec b.pos = slabVec g addr n := (hvec b.pos).trans (if_pos rfl)
  have hold : ∀ i ≤ b.nIov, i ≠ b.pos → b'.vec i = b.vec i := fun i hi hne => by
    rw [hvec, if_neg hne, if_neg (by omega)]
  refine ⟨?_, rfl, hcur, fun i hi => ?_⟩
  · refine h.setBlock (w := slabVec g addr n)
      (by rw [hpos, h.zero]; rfl) hblock rfl hap rfl rfl rfl rfl hcur hold
      (Or.inr ⟨rfl, hpos, ?_⟩)
    rw [hvec, if_neg (by omega), if_pos (by omega)]
  · have hi' : i < b.nIov + 1 := hi
    by_cases hip : i = b.pos
    · exact Or.inl hip
    · exact Or.inr ⟨by omega, hold i (by omega) hip⟩

theorem Obuf.Inv.largerBlock {addr : Nat} (h : b.Inv) (hans : b.Answers g slabGet)
    (hlt : b.pos < b.nIov) (hlen : (b.vec b.pos).len = 0) (hget : slabGet n = some addr)
    (hn : slabSizeof < g.slabRealSize n) :
    b.Got g addr n (b.largerBlock g addr n) := by
  obtain ⟨hblock, hap⟩ := hans.block hget hn
  set b' := b.largerBlock g addr n with hb'
  have hvec : ∀ i, b'.vec i = if i = b.pos then slabVec g addr n else b.vec i := by
    intro i
    simp only [hb', Obuf.largerBlock, Obuf.setSlab, Obuf.set_vec, slabVec, hlen]
  have hcur : b'.vec b.pos = slabVec g addr n := (hvec b.pos).trans (if_pos rfl)
  have hold : ∀ i, i ≠ b.pos → b'.vec i = b.vec i := fun i hne => (hvec i).trans (if_neg hne)
  refine ⟨?_, rfl, hcur, fun i hi => ?_⟩
  · exact h.setBlock (w := slabVec g addr n) hlen hblock rfl hap rfl rfl rfl rfl hcur
      (fun i _ => hold i) (Or.inl ⟨rfl, hlt⟩)
  · by_cases hip : i = b.pos
    · exact Or.inl hip
    · exact Or.inr ⟨hi, hold i hip⟩

/-- The entry behind the end of the vector is initialized. -/
theorem Obuf.Inv.setNext (h : b.Inv) (hpos : b.pos = b.nIov) : b.Same (b.set (b.pos + 1) zeroVec) :=
  h.same_of_vec rfl rfl rfl rfl rfl fun i hi => by rw [Obuf.set_vec, if_neg (by omega)]

theorem obufAllocPos_eq (h : b.Inv) (hpos : b.pos = b.nIov) (size : Nat) :
    obufAllocPos g slabGet b size = (b.posCapacity size).bind fun n =>
      some ((slabGet n).map (· + slabSizeof),
        (slabGet n).elim (b.set (b.pos + 1) zeroVec) fun addr => b.firstBlock g addr n) := by
  have hmax := h.pos
  have hz : b.vec b.pos = zeroVec := by rw [hpos]; exact h.zero
  have hat : b.at (b.pos + 1) = some (b.vec (b.pos + 1)) := Obuf.at_eq (Nat.succ_lt_succ hmax)
  have hentry : zeroVec.capacity = 0 ∧ zeroVec.len = 0 := ⟨rfl, rfl⟩
  have hcapacity : (b.set (b.pos + 1) zeroVec).posCapacity size = b.posCapacity size := rfl
  unfold obufAllocPos
  simp only [h.at_pos, hz, guard, if_pos hentry, if_pos hmax, if_pos hpos.symm, hat,
    hcapacity, pure, Option.bind_eq_bind, Option.bind_some]
  cases b.posCapacity size with
  | none => rfl
  | some n =>
      simp only [Option.bind_some]
      cases slabGet n <;> rfl

/-! ## Reserving -/

/-- The result of a reservation: `NULL`, or a pointer behind the bytes of the current entry, with
room for `size` bytes there. The contents stay as they are in both cases. -/
structure Obuf.Reserved (slabGet : Nat → Option Nat) (b : Obuf) (size : Nat) (ptr : Option Nat)
    (b' : Obuf) :
    Prop where
  same : b.Same b'
  started : b'.Started
  null : ptr = none → (∃ n, slabGet n = none) ∨ b'.pos + 1 = smallObufIovMax
  room : ∀ p, ptr = some p →
    p = (b'.vec b'.pos).base + (b'.vec b'.pos).len ∧
    (b'.vec b'.pos).len + size ≤ (b'.vec b'.pos).capacity

/-- A new block with room for `n` bytes. -/
theorem Obuf.Got.reserved {addr : Nat} (h : b.Got g addr n b') (hst : b.Started)
    (hshift : b.startCapacity <<< b.pos % sizeMax ≤ n) (hn : n + slabSizeof < sizeMax)
    (hsize : size ≤ n) :
    b.Reserved slabGet size (some (addr + slabSizeof)) b' := by
  have hroom := (slabVec_room g addr hn).1
  refine ⟨h.same, h.started hst (hshift.trans hroom), fun hp => by simp at hp, fun p hp => ?_⟩
  rw [h.block]
  rw [Option.some.injEq] at hp
  exact ⟨hp.symm, by show 0 + size ≤ _; omega⟩

theorem obufAllocPos_spec (h : b.Inv) (hst : b.Started) (hok : StartOk b.startCapacity)
    (hans : b.Answers g slabGet) (hpos : b.pos = b.nIov) (h1 : 1 ≤ size) (hsize : size < 2 ^ 62) :
    ∃ ptr b', obufAllocPos g slabGet b size = some (ptr, b') ∧
      (ptr = none → ∃ n, b'.posCapacity size = some n ∧ slabGet n = none) ∧
      b.Reserved slabGet size ptr b' := by
  obtain ⟨n, hn, hle, hwrap, hshift⟩ := Obuf.posCapacity_spec h hst hok hpos h1 hsize
  rw [obufAllocPos_eq h hpos, hn, Option.bind_some]
  cases hget : slabGet n with
  | none =>
      have hsame := h.setNext hpos
      refine ⟨none, _, rfl, fun _ => ⟨n, hn, hget⟩, hsame, hst.congr hsame.start fun i hi =>
        Or.inr ⟨hi, ?_⟩, fun _ => Or.inl ⟨n, hget⟩, fun p hp => by simp at hp⟩
      have hi' : i < b.nIov := hi
      rw [Option.elim_none, Obuf.set_vec, if_neg (by omega)]
  | some addr =>
      have hgot := h.firstBlock hans hpos hget (by have := (slabVec_room g addr hwrap).2; omega)
      exact ⟨_, _, rfl, fun hp => by simp at hp, hgot.reserved hst hshift hwrap hle⟩

/-- The part of `obuf_reserve_slow` at an empty entry. -/
theorem obufReserveHere_spec (h : b.Inv) (hst : b.Started) (hok : StartOk b.startCapacity)
    (hans : b.Answers g slabGet) (hlen : (b.vec b.pos).len = 0) (h1 : 1 ≤ size)
    (hsize : size < 2 ^ 62) :
    ∃ ptr b', obufReserveHere g slabGet b (b.vec b.pos) size = some (ptr, b') ∧
      b.Reserved slabGet size ptr b' := by
  have hrefl : b.Same b := h.same_of_vec rfl rfl rfl rfl rfl fun _ _ => rfl
  unfold obufReserveHere
  by_cases hmore : size > (b.vec b.pos).capacity
  · rw [if_pos hmore]
    by_cases hcap : (b.vec b.pos).capacity > 0
    · -- a larger slab instead of the one the entry has
      rw [if_pos hcap]
      have hlt : b.pos < b.nIov := by
        rcases h.current with ⟨hlt, -⟩ | ⟨-, hz⟩
        · exact hlt
        · simp [hz, zeroVec] at hcap
      obtain ⟨n, hn, hle, hge, hbound⟩ :=
        growLoop_spec (show size ≤ 2 ^ 63 by omega) 64 (b.vec b.pos).capacity
        (by omega)
      have hwrap : n + slabSizeof < sizeMax := by
        simp only [sizeMax, slabSizeof]
        omega
      simp only [hn, Option.bind_eq_bind, Option.bind_some]
      cases hget : slabGet n with
      | none => exact ⟨none, b, rfl, hrefl, hst, fun _ => Or.inl ⟨n, hget⟩, fun p hp => by
          simp at hp⟩
      | some addr =>
          have hgot :=
            h.largerBlock hans hlt hlen hget (by have := (slabVec_room g addr hwrap).2; omega)
          exact ⟨_, _, rfl, hgot.reserved hst ((hst.shifted _ hlt).trans hge) hwrap hle⟩
    · rw [if_neg hcap]
      have hpos : b.pos = b.nIov := by
        rcases h.current with ⟨-, hb⟩ | ⟨heq, -⟩
        · exact absurd hb.pos hcap
        · exact heq
      obtain ⟨ptr, b', heq, -, hres⟩ := obufAllocPos_spec h hst hok hans hpos h1 hsize
      exact ⟨ptr, b', heq, hres⟩
  · rw [if_neg hmore]
    have hblock : (b.vec b.pos).Block := by
      rcases h.current with ⟨-, hb⟩ | ⟨-, hz⟩
      · exact hb
      · simp only [hz, zeroVec] at hmore
        omega
    have hne : (b.vec b.pos).base ≠ 0 := by
      have := hblock.header
      omega
    refine ⟨some (b.vec b.pos).base, b, by rw [ofPtr, if_neg hne], hrefl,
      hst, fun hp => by simp at hp, fun p hp => ?_⟩
    rw [Option.some.injEq] at hp
    omega

theorem Obuf.Same.refl (h : b.Inv) : b.Same b := h.same_of_vec rfl rfl rfl rfl rfl fun _ _ => rfl

/-- What `obuf_reserve_slow` does before it looks at the capacity: it stays at an empty entry,
or goes to the next one, which is empty. -/
theorem Obuf.Inv.nextIfUsed (h : b.Inv) (hnext : b.nextIfUsed (b.vec b.pos) = some b') :
    b.Same b' ∧ (b'.vec b'.pos).len = 0 ∧ b'.nIov = b.nIov ∧ b'.vec = b.vec := by
  unfold Obuf.nextIfUsed at hnext
  by_cases hused : (b.vec b.pos).len > 0
  · have hlt : b.pos < b.nIov := by
      rcases h.current with ⟨hlt, -⟩ | ⟨-, hz⟩
      · exact hlt
      · simp [hz, zeroVec] at hused
    rw [if_pos hused] at hnext
    split at hnext
    · simp at hnext
    · next hroom =>
      rw [Option.some.injEq] at hnext
      subst hnext
      exact ⟨h.next hlt (by omega), h.empty _ (Nat.lt_succ_self _) hlt, rfl, rfl⟩
  · rw [if_neg hused, Option.some.injEq] at hnext
    subst hnext
    exact ⟨.refl h, by omega, rfl, rfl⟩

/-- `obuf_reserve_slow`, when the chunk does not fit in the current entry. -/
theorem obufReserveSlow_spec (h : b.Inv) (hst : b.Started) (hok : StartOk b.startCapacity)
    (hans : b.Answers g slabGet) (hmore : (b.vec b.pos).capacity < (b.vec b.pos).len + size)
    (hsize : size < 2 ^ 62) :
    ∃ ptr b', obufReserveSlow g slabGet b size = some (ptr, b') ∧
      b.Reserved slabGet size ptr b' := by
  obtain ⟨hlen, hcap⟩ := h.len_le
  have hmax := h.pos
  -- the buffer from which the reservation is made
  by_cases hnone : b.nextIfUsed (b.vec b.pos) = none
  · have hlast : b.pos + 1 = smallObufIovMax := by
      unfold Obuf.nextIfUsed at hnone
      split at hnone
      · split at hnone
        · omega
        · simp at hnone
      · simp at hnone
    refine ⟨none, b, ?_, .refl h, hst, fun _ => Or.inr hlast, fun p hp => by simp at hp⟩
    unfold obufReserveSlow
    simp [h.at_pos, hnone]
  · obtain ⟨b1, hb1⟩ := Option.ne_none_iff_exists'.mp hnone
    obtain ⟨hsame, hzero, hn1, hvec1⟩ := h.nextIfUsed hb1
    have hans1 : b1.Answers g slabGet := by
      unfold Obuf.Answers
      rw [hn1, hvec1]
      exact hans
    have hst1 : b1.Started := hst.congr hsame.start fun i hi => Or.inr ⟨hn1 ▸ hi, by rw [hvec1]⟩
    obtain ⟨ptr, b', heq, hres⟩ :=
      obufReserveHere_spec hsame.inv hst1 (hsame.start ▸ hok) hans1 hzero (by omega) hsize
    have hroom' : ∀ p, ptr = some p → b'.checkRoom size = some () := by
      intro p hp
      have hroom := (hres.room p hp).2
      have hbound := hres.same.inv.len_le.2
      unfold Obuf.checkRoom
      rw [hres.same.inv.at_pos]
      simp only [Option.bind_eq_bind, Option.bind_some, guard]
      rw [Nat.mod_eq_of_lt (by simp only [sizeMax]; omega), if_pos hroom]
      rfl
    refine ⟨ptr, b', ?_, hsame.trans hres.same, hres.started, hres.null, hres.room⟩
    unfold obufReserveSlow
    simp only [h.at_pos, Option.bind_eq_bind, Option.bind_some, hb1, hsame.inv.at_pos, hzero,
      guard, if_true, pure, heq]
    cases ptr with
    | none => rfl
    | some p => simp only [hroom' p rfl, Option.bind_some]

theorem Obuf.Inv.setReserved (h : b.Inv) (r : Bool) : b.Same { b with reserved := r } :=
  h.same_of_vec rfl rfl rfl rfl rfl fun _ _ => rfl

/-- `obuf_reserve`, when no reservation is open. A reservation of 0 bytes in the empty buffer also
returns `NULL`. -/
theorem obufReserve_spec (h : b.Inv) (hst : b.Started) (hok : StartOk b.startCapacity)
    (hans : b.Answers g slabGet) (hres : b.reserved = false) (hsize : size < 2 ^ 62) :
    ∃ ptr b', obufReserve g slabGet b size = some (ptr, b') ∧ b.Same b' ∧ b'.Started := by
  obtain ⟨hlen, hcap⟩ := h.len_le
  have hmod : ((b.vec b.pos).len + size) % sizeMax = (b.vec b.pos).len + size :=
    Nat.mod_eq_of_lt (by simp only [sizeMax]; omega)
  unfold obufReserve
  simp only [hres, guard, h.at_pos, Bool.false_eq_true, not_false_eq_true, if_true, pure,
    Option.bind_eq_bind, Option.bind_some, hmod]
  by_cases hmore : (b.vec b.pos).len + size > (b.vec b.pos).capacity
  · rw [if_pos hmore]
    obtain ⟨ptr, b', heq, hr⟩ := obufReserveSlow_spec h hst hok hans hmore hsize
    rw [heq]
    cases ptr with
    | none => exact ⟨none, b', rfl, hr.same, hr.started⟩
    | some p => exact ⟨some p, _, rfl, hr.same.trans (hr.same.inv.setReserved true),
        hr.started.start, hr.started.shifted⟩
  · rw [if_neg hmore]
    cases ofPtr ((b.vec b.pos).base + (b.vec b.pos).len) with
    | none => exact ⟨none, b, rfl, .refl h, hst⟩
    | some p => exact ⟨some p, _, rfl, h.setReserved true, hst.start, hst.shifted⟩

/-! ## Writing -/

/-- The buffer `b'` has the bytes `data` appended to those of `b`. -/
structure Obuf.Wrote (b : Obuf) (data : List UInt8) (b' : Obuf) : Prop where
  inv : b'.Inv
  keeps : b.Keeps b'
  content : b'.content = b.content ++ data
  start : b'.startCapacity = b.startCapacity

theorem Obuf.Same.wrote (h : b.Same b') : b.Wrote [] b' :=
  ⟨h.inv, h.keeps, by rw [h.content, List.append_nil], h.start⟩

theorem Obuf.Wrote.trans {d d' : List UInt8} (h : b.Wrote d b') (h' : b'.Wrote d' b'') :
    b.Wrote (d ++ d') b'' :=
  ⟨h'.inv, h.keeps.trans h'.keeps, by rw [h'.content, h.content, List.append_assoc],
    h'.start.trans h.start⟩

/-- The memory that the buffer has is the same. -/
theorem Obuf.Answers.congr (hans : b.Answers g slabGet) (hn : b'.nIov = b.nIov)
    (hvec : ∀ i, (b'.vec i).base = (b.vec i).base ∧ (b'.vec i).capacity = (b.vec i).capacity) :
    b'.Answers g slabGet := by
  intro n addr hget
  obtain ⟨h1, h2, h3⟩ := hans n addr hget
  refine ⟨h1, h2, fun i hi => ?_⟩
  rw [(hvec i).1, (hvec i).2]
  exact h3 i (hn ▸ hi)

/-- A change of the number of bytes in an entry. -/
theorem Obuf.set_len (b : Obuf) (p l i : Nat) :
    ((b.set p { b.vec p with len := l }).vec i).base = (b.vec i).base ∧
      ((b.set p { b.vec p with len := l }).vec i).capacity = (b.vec i).capacity := by
  rw [Obuf.set_vec]
  split
  · rename_i hi
    rw [hi]
    exact ⟨rfl, rfl⟩
  · exact ⟨rfl, rfl⟩

theorem Obuf.Answers.append (hans : b.Answers g slabGet) (n : Nat) (data : Nat → UInt8) :
    (b.append (b.vec b.pos) n data).Answers g slabGet :=
  hans.congr rfl fun i => Obuf.set_len b _ _ i

theorem Obuf.Started.append (hst : b.Started) (n : Nat) (data : Nat → UInt8) :
    (b.append (b.vec b.pos) n data).Started :=
  hst.congr rfl fun i hi => Or.inr ⟨hi, (Obuf.set_len b _ _ i).2⟩

theorem Obuf.append_wrote (h : b.Inv) (data : Nat → UInt8)
    (hn : (b.vec b.pos).len + n ≤ (b.vec b.pos).capacity) :
    b.Wrote ((List.range n).map data) (b.append (b.vec b.pos) n data) := by
  obtain ⟨hinv, hkeeps, hcontent⟩ := Obuf.append_spec h data hn
  exact ⟨hinv, hkeeps, hcontent, rfl⟩

/-- The chunk of `size` bytes that `obuf_alloc` returns: there was room for it, and it is
counted. -/
structure Obuf.Allocated (b : Obuf) (size : Nat) (b' : Obuf) : Prop where
  room : (b.vec b'.pos).len + size ≤ (b'.vec b'.pos).capacity
  len : (b'.vec b'.pos).len = (b.vec b'.pos).len + size
  used : b'.used = b.used + size

/-- Counting bytes for which there is room; when the client then fills them, they are appended. -/
theorem Obuf.Inv.advance (h : b.Inv) (hroom : (b.vec b.pos).len + size ≤ (b.vec b.pos).capacity)
    {p : Nat} (hp : p = (b.vec b.pos).base + (b.vec b.pos).len) (data : Nat → UInt8) :
    ∃ b', b.advance size = some b' ∧ b'.pos = b.pos ∧ b.Allocated size b' ∧
      (b.Started → b'.Started) ∧
      b.Wrote ((List.range size).map data) { b' with mem := fill b'.mem p size data } := by
  obtain ⟨hlen, hsum⟩ := h.append_lt hroom
  have hvec : ∀ v : ObufVec, ((b.set b.pos v).vec b.pos) = v :=
    fun v => by rw [Obuf.set_vec, if_pos rfl]
  have hadv : b.advance size = some
      { b.set b.pos { b.vec b.pos with len := ((b.vec b.pos).len + size) % sizeMax } with
        reserved := false
        used := (b.used + size) % sizeMax } := by
    unfold Obuf.advance
    rw [h.at_pos]
    rfl
  refine ⟨_, hadv, rfl, ⟨?_, ?_, ?_⟩, fun hst => ?_, ?_⟩
  · show (b.vec b.pos).len + size ≤ ((b.set b.pos _).vec b.pos).capacity
    rw [hvec]
    exact hroom
  · show ((b.set b.pos _).vec b.pos).len = _
    rw [hvec]
    exact Nat.mod_eq_of_lt hlen
  · exact Nat.mod_eq_of_lt hsum
  · exact hst.congr rfl fun i hi => Or.inr ⟨hi, (Obuf.set_len b _ _ i).2⟩
  · have hw := Obuf.append_wrote h data hroom
    have hs := hw.inv.setReserved false
    rw [hp]
    exact ⟨hs.inv, hw.keeps.trans hs.keeps, hs.content.trans hw.content, hw.start⟩

/-- `obuf_alloc` in the current entry. `NULL` is returned for no bytes at the end of the vector
only. -/
theorem obufAlloc_here (h : b.Inv) (hfits : (b.vec b.pos).len + size ≤ (b.vec b.pos).capacity)
    (data : Nat → UInt8) :
    ∃ ptr b', obufAlloc g slabGet b size = some (ptr, b') ∧ (b.Started → b'.Started) ∧
      (ptr = none → b.Same b') ∧
      ∀ p, ptr = some p → b.Allocated size b' ∧
        b.Wrote ((List.range size).map data) { b' with mem := fill b'.mem p size data } := by
  obtain ⟨hlt, hsum⟩ := h.append_lt hfits
  obtain ⟨b', hadv, -, hallocated, hstarted, hw⟩ := h.advance hfits rfl data
  refine ⟨ofPtr ((b.vec b.pos).base + (b.vec b.pos).len), b', ?_,
    hstarted, fun hnull => ?_, fun p hp => ?_⟩
  · unfold obufAlloc
    simp only [h.at_pos, Option.bind_eq_bind, Option.bind_some, Nat.mod_eq_of_lt hlt,
      if_pos hfits, hadv]
  · -- the entry has no block, and the chunk no bytes
    have hz : (b.vec b.pos).capacity = 0 := by
      rcases h.current with ⟨-, hb⟩ | ⟨-, hz⟩
      · have := hb.header
        unfold ofPtr at hnull
        split at hnull
        · omega
        · simp at hnull
      · rw [hz]
        rfl
    have h0 : size = 0 := by omega
    subst h0
    unfold Obuf.advance at hadv
    rw [h.at_pos] at hadv
    simp only [Option.bind_eq_bind, Option.bind_some, Option.some.injEq] at hadv
    subst hadv
    refine h.same_of_vec rfl rfl rfl (Nat.mod_eq_of_lt hsum) rfl fun i _ => ?_
    rw [Nat.add_zero] at hlt
    simp only [Obuf.set_vec, Nat.add_zero, Nat.mod_eq_of_lt hlt]
    split
    · rename_i hi
      rw [hi]
    · rfl
  · rw [ofPtr] at hp
    split at hp
    · simp at hp
    · rw [Option.some.injEq] at hp
      subst hp
      exact ⟨hallocated, hw⟩

/-- `obuf_alloc` after `obuf_reserve_slow`, which returned the buffer `b1`. -/
theorem obufAlloc_slow {b1 : Obuf} {p : Nat} (h : b.Inv)
    (hmore : ¬ ((b.vec b.pos).len + size) % sizeMax ≤ (b.vec b.pos).capacity)
    (hslow : obufReserveSlow g slabGet b size = some (some p, b1)) (hsame : b.Same b1)
    (hp : p = (b1.vec b1.pos).base + (b1.vec b1.pos).len)
    (hroom : (b1.vec b1.pos).len + size ≤ (b1.vec b1.pos).capacity) (data : Nat → UInt8) :
    ∃ b', obufAlloc g slabGet b size = some (some p, b') ∧ b'.pos = b1.pos ∧ b1.Allocated size b' ∧
      (b1.Started → b'.Started) ∧
      b.Wrote ((List.range size).map data) { b' with mem := fill b'.mem p size data } := by
  obtain ⟨b', hadv, hpos, hallocated, hstarted, hw⟩ := hsame.inv.advance hroom hp data
  have hle := hsame.inv.len_le.1
  refine ⟨b', ?_, hpos, hallocated, hstarted, hsame.wrote.trans hw⟩
  unfold obufAlloc
  simp only [h.at_pos, Option.bind_eq_bind, Option.bind_some, if_neg hmore, hslow,
    hsame.inv.at_pos, guard, if_pos hle, pure, hadv]

/-- `obuf_alloc`, with the chunk filled by the client. -/
theorem obufAlloc_spec (h : b.Inv) (hst : b.Started) (hok : StartOk b.startCapacity)
    (hans : b.Answers g slabGet) (hsize : size < 2 ^ 62) (data : Nat → UInt8) :
    ∃ ptr b', obufAlloc g slabGet b size = some (ptr, b') ∧ b'.Started ∧
      (ptr = none → b.Same b') ∧
      ∀ p, ptr = some p →
        b.Wrote ((List.range size).map data) { b' with mem := fill b'.mem p size data } := by
  obtain ⟨hlen, hcap⟩ := h.len_le
  have hmod : ((b.vec b.pos).len + size) % sizeMax = (b.vec b.pos).len + size :=
    Nat.mod_eq_of_lt (by simp only [sizeMax]; omega)
  by_cases hfits : (b.vec b.pos).len + size ≤ (b.vec b.pos).capacity
  · obtain ⟨ptr, b', heq, hstarted, hnull, hsome⟩ := obufAlloc_here h hfits data
    exact ⟨ptr, b', heq, hstarted hst, hnull, fun p hp => (hsome p hp).2⟩
  · obtain ⟨ptr, b1, heq, hr⟩ := obufReserveSlow_spec h hst hok hans (by omega) hsize
    have hmore : ¬ ((b.vec b.pos).len + size) % sizeMax ≤ (b.vec b.pos).capacity := by rwa [hmod]
    cases ptr with
    | none =>
        refine ⟨none, b1, ?_, hr.started, fun _ => hr.same, fun p hp => by simp at hp⟩
        unfold obufAlloc
        simp only [h.at_pos, Option.bind_eq_bind, Option.bind_some, if_neg hmore, heq]
    | some p =>
        obtain ⟨hp, hroom⟩ := hr.room p rfl
        obtain ⟨b', halloc, -, -, hstarted, hw⟩ := obufAlloc_slow h hmore heq hr.same hp hroom data
        refine ⟨some p, b', halloc, hstarted hr.started, fun hnull => by
          simp at hnull, fun q hq => ?_⟩
        rw [Option.some.injEq] at hq
        subst hq
        exact hw

/-! ## `obuf_dup` -/

theorem obufDupLast_spec (h : b.Inv) (data : Nat → UInt8)
    (hn : (b.vec b.pos).len + n ≤ (b.vec b.pos).capacity) :
    obufDupLast b n data = some (b.append (b.vec b.pos) n data) ∧
      b.Wrote ((List.range n).map data) (b.append (b.vec b.pos) n data) := by
  have hw := Obuf.append_wrote h data hn
  refine ⟨?_, hw⟩
  have hle := hw.inv.len_le.1
  unfold obufDupLast
  simp only [h.at_pos, Option.bind_eq_bind, Option.bind_some, hw.inv.at_pos, guard,
    if_pos hle, pure]

/-- An entry that was filled to its capacity. -/
theorem Obuf.append_full (h : b.Inv) (hn : (b.vec b.pos).len + n = (b.vec b.pos).capacity)
    (data : Nat → UInt8) :
    ((b.append (b.vec b.pos) n data).vec b.pos).len =
      ((b.append (b.vec b.pos) n data).vec b.pos).capacity := by
  obtain ⟨-, hcap⟩ := h.len_le
  show ((b.set b.pos _).vec b.pos).len = ((b.set b.pos _).vec b.pos).capacity
  rw [Obuf.set_vec, if_pos rfl]
  show ((b.vec b.pos).len + n) % sizeMax = (b.vec b.pos).capacity
  rw [hn, Nat.mod_eq_of_lt (by simp only [sizeMax]; omega)]

/-- The last assertion of `obuf_dup`. -/
theorem obufDupLast_room (h : b.Inv) (data : Nat → UInt8) (hn : (b.vec b.pos).len + n < sizeMax)
    (hlast : obufDupLast b n data = some b') : (b.vec b.pos).len + n ≤ (b.vec b.pos).capacity := by
  have hat : (b.append (b.vec b.pos) n data).at (b.append (b.vec b.pos) n data).pos =
      some { b.vec b.pos with len := (b.vec b.pos).len + n } := by
    rw [show (b.append (b.vec b.pos) n data).pos = b.pos from rfl,
      Obuf.at_eq (Nat.lt_succ_of_lt h.pos)]
    show some ((b.set b.pos _).vec b.pos) = _
    rw [Obuf.set_vec, if_pos rfl, Nat.mod_eq_of_lt hn]
  unfold obufDupLast at hlast
  simp only [h.at_pos, Option.bind_eq_bind, Option.bind_some, hat, guard] at hlast
  by_contra hroom
  rw [if_neg hroom] at hlast
  cases hlast

/-- The data that is left after `n` bytes. -/
theorem range_map_add (data : Nat → UInt8) (m n : Nat) :
    (List.range (m + n)).map data = (List.range m).map data ++ (List.range n).map fun i =>
      data (m + i) := by
  simp [List.range_add, Function.comp_def]

/-- The slab that is asked for has room behind its header: because each slab has, or because the
capacity does not wrap around with the header. -/
def Obuf.HasHeader (g : Geometry) (b : Obuf) (size : Nat) : Prop :=
  slabSizeof < g.order0Size ∨ b.Started ∧ StartOk b.startCapacity ∧ size < 2 ^ 62

theorem Obuf.HasHeader.room (hdr : b.HasHeader g size) (h : b.Inv) (hpos : b.pos = b.nIov)
    (h1 : 1 ≤ size) (hn : b.posCapacity size = some n) : slabSizeof < g.slabRealSize n := by
  rcases hdr with hg | ⟨hst, hok, hsize⟩
  · exact hg.trans_le (g.order0Size_le_slabRealSize n)
  · obtain ⟨m, hm, hle, hwrap, -⟩ := Obuf.posCapacity_spec h hst hok hpos h1 hsize
    obtain rfl : m = n := Option.some.inj (hm.symm.trans hn)
    have := (slabVec_room g 0 hwrap).2
    omega

/-- The loop of `obuf_dup` at the end of the vector, with a slab for `m` bytes. -/
theorem obufDupLoop_new {m toCopy fuel : Nat} (h : b.Inv) (hpos : b.pos = b.nIov)
    (hcopy : 0 < toCopy) (hsize : toCopy < sizeMax) (hm : b.posCapacity toCopy = some m)
    (data : Nat → UInt8) :
    obufDupLoop g slabGet (fuel + 1) b toCopy data =
      (slabGet m).elim (some (toCopy, b.set (b.pos + 1) zeroVec)) fun addr =>
        (obufDupLast (b.firstBlock g addr m) toCopy data).map fun b' => (0, b') := by
  have hz : b.vec b.pos = zeroVec := hpos ▸ h.zero
  have hmod : (zeroVec.len + toCopy) % sizeMax = toCopy := by
    rw [show zeroVec.len = 0 from rfl, Nat.zero_add, Nat.mod_eq_of_lt hsize]
  have hmore : toCopy > zeroVec.capacity := hcopy
  have hpart : ¬ zeroVec.len < zeroVec.capacity := Nat.lt_irrefl 0
  have hzero : zeroVec.capacity = 0 := rfl
  unfold obufDupLoop
  simp only [h.at_pos, hz, Option.bind_eq_bind, Option.bind_some, hmod, if_pos hmore,
    if_neg hpart, if_pos hzero, obufAllocPos_eq h hpos, hm]
  cases slabGet m with
  | none => rfl
  | some addr =>
      simp only [Option.map_some, Option.elim_some]
      cases obufDupLast (b.firstBlock g addr m) toCopy data <;> rfl

/-- At the end of the vector, the size of the slab must be computable. -/
theorem obufDupLoop_no_capacity {toCopy fuel : Nat} (h : b.Inv) (hpos : b.pos = b.nIov)
    (hcopy : 0 < toCopy) (hsize : toCopy < sizeMax) (hm : b.posCapacity toCopy = none)
    (data : Nat → UInt8) :
    obufDupLoop g slabGet (fuel + 1) b toCopy data = none := by
  have hz : b.vec b.pos = zeroVec := hpos ▸ h.zero
  have hmod : (zeroVec.len + toCopy) % sizeMax = toCopy := by
    rw [show zeroVec.len = 0 from rfl, Nat.zero_add, Nat.mod_eq_of_lt hsize]
  have hmore : toCopy > zeroVec.capacity := hcopy
  have hpart : ¬ zeroVec.len < zeroVec.capacity := Nat.lt_irrefl 0
  unfold obufDupLoop
  simp only [h.at_pos, hz, Option.bind_eq_bind, Option.bind_some, hmod, if_pos hmore, if_neg hpart,
    if_pos (show zeroVec.capacity = 0 from rfl), obufAllocPos_eq h hpos, hm, Option.bind_none]

/-- The loop of `obuf_dup` at an entry with room for some of the data. -/
theorem obufDupLoop_part {toCopy fuel : Nat} (h : b.Inv)
    (hsum : (b.vec b.pos).len + toCopy < sizeMax)
    (hn : (b.vec b.pos).len + n = (b.vec b.pos).capacity) (hn0 : 0 < n) (hmore : n < toCopy)
    (data : Nat → UInt8) :
    obufDupLoop g slabGet (fuel + 1) b toCopy data =
      if b.pos + 1 ≥ smallObufIovMax then some (toCopy - n, b.append (b.vec b.pos) n data)
      else obufDupLoop g slabGet fuel { b.append (b.vec b.pos) n data with pos := b.pos + 1 }
        (toCopy - n)
        fun i => data (n + i) := by
  have hgt : (b.vec b.pos).len + toCopy > (b.vec b.pos).capacity := by omega
  have hpart : (b.vec b.pos).len < (b.vec b.pos).capacity := by omega
  obtain rfl : n = (b.vec b.pos).capacity - (b.vec b.pos).len := by omega
  rw [obufDupLoop]
  simp only [h.at_pos, Option.bind_eq_bind, Option.bind_some, Nat.mod_eq_of_lt hsum, if_pos hgt,
    if_pos hpart, guard, if_pos hmore, pure]
  rfl

/-- The loop of `obuf_dup` at an entry that is full. -/
theorem obufDupLoop_full {toCopy fuel : Nat} (h : b.Inv)
    (hsum : (b.vec b.pos).len + toCopy < sizeMax) (hcopy : 0 < toCopy)
    (hfull : (b.vec b.pos).capacity = (b.vec b.pos).len) (hne : (b.vec b.pos).capacity ≠ 0)
    (data : Nat → UInt8) :
    obufDupLoop g slabGet (fuel + 1) b toCopy data =
      if b.pos + 1 ≥ smallObufIovMax then some (toCopy, b)
      else obufDupLoop g slabGet fuel { b with pos := b.pos + 1 } toCopy data := by
  have hgt : (b.vec b.pos).len + toCopy > (b.vec b.pos).capacity := by omega
  have hpart : ¬ (b.vec b.pos).len < (b.vec b.pos).capacity := by omega
  rw [obufDupLoop]
  simp only [h.at_pos, Option.bind_eq_bind, Option.bind_some, Nat.mod_eq_of_lt hsum, if_pos hgt,
    if_neg hpart, if_neg hne, guard, if_pos hfull, pure]

/-- The loop of `obuf_dup` at an entry with room for what is left. -/
theorem obufDupLoop_last {toCopy fuel : Nat} (h : b.Inv)
    (hfits : (b.vec b.pos).len + toCopy ≤ (b.vec b.pos).capacity) (data : Nat → UInt8) :
    obufDupLoop g slabGet (fuel + 1) b toCopy data =
      some (0, b.append (b.vec b.pos) toCopy data) := by
  obtain ⟨hlen, hcap⟩ := h.len_le
  obtain ⟨hlast, -⟩ := obufDupLast_spec h data hfits
  have hsum : (b.vec b.pos).len + toCopy < sizeMax := by simp only [sizeMax]; omega
  rw [obufDupLoop]
  simp only [h.at_pos, Option.bind_eq_bind, Option.bind_some, Nat.mod_eq_of_lt hsum,
    if_neg (Nat.not_lt.2 hfits), hlast]

/-- The entry at the current position, for data that does not fit in it. -/
theorem Obuf.Inv.cases_current {toCopy : Nat} (h : b.Inv)
    (hmore : (b.vec b.pos).capacity < (b.vec b.pos).len + toCopy) :
    b.pos = b.nIov ∧ 0 < toCopy ∨
    b.pos < b.nIov ∧ (b.vec b.pos).capacity ≠ 0 ∧
      ((∃ n, (b.vec b.pos).len + n = (b.vec b.pos).capacity ∧ 0 < n ∧ n < toCopy) ∨
        (b.vec b.pos).capacity = (b.vec b.pos).len ∧ 0 < toCopy) := by
  obtain ⟨hlen, -⟩ := h.len_le
  rcases h.current with ⟨hlt, hb⟩ | ⟨heq, hz⟩
  · refine Or.inr ⟨hlt, hb.pos.ne', ?_⟩
    by_cases hpart : (b.vec b.pos).len < (b.vec b.pos).capacity
    · exact Or.inl ⟨(b.vec b.pos).capacity - (b.vec b.pos).len, by omega, by omega, by omega⟩
    · exact Or.inr ⟨by omega, by omega⟩
  · refine Or.inl ⟨heq, ?_⟩
    rw [hz] at hmore
    simpa [zeroVec] using hmore

/-- What the loop of `obuf_dup` has done when it ends with `left` bytes left. -/
structure Obuf.Copied (g : Geometry) (slabGet : Nat → Option Nat) (b : Obuf) (toCopy : Nat)
    (data : Nat → UInt8) (left : Nat) (b' : Obuf) : Prop where
  le : left ≤ toCopy
  wrote : b.Wrote ((List.range (toCopy - left)).map data) b'
  /-- There is no slab for what is left, or no entry. -/
  stops : 0 < left → (∃ n, b'.posCapacity left = some n ∧ slabGet n = none) ∨
    b'.pos + 1 = smallObufIovMax ∧ (b'.vec b'.pos).len = (b'.vec b'.pos).capacity

/-- The loop has copied the first `n` bytes, and goes on behind them. -/
theorem Obuf.Copied.after {b₁ : Obuf} {toCopy left : Nat} {data : Nat → UInt8} (hn : n ≤ toCopy)
    (hw : b.Wrote ((List.range n).map data) b₁)
    (h : b₁.Copied g slabGet (toCopy - n) (fun i => data (n + i)) left b') :
    b.Copied g slabGet toCopy data left b' := by
  have hle := h.le
  refine ⟨by omega, ?_, h.stops⟩
  rw [show toCopy - left = n + (toCopy - n - left) by omega, range_map_add]
  exact hw.trans h.wrote

/-- The loop of `obuf_dup` at the end of the vector. -/
theorem obufDupLoop_new_copied {toCopy fuel left : Nat} {data : Nat → UInt8} (h : b.Inv)
    (hans : b.Answers g slabGet) (hdr : b.HasHeader g toCopy) (hpos : b.pos = b.nIov)
    (hcopy : 0 < toCopy) (hsize : toCopy < sizeMax)
    (heq : obufDupLoop g slabGet (fuel + 1) b toCopy data = some (left, b')) :
    b.Copied g slabGet toCopy data left b' := by
  cases hm : b.posCapacity toCopy with
  | none =>
      rw [obufDupLoop_no_capacity h hpos hcopy hsize hm] at heq
      cases heq
  | some m =>
      rw [obufDupLoop_new h hpos hcopy hsize hm] at heq
      cases hget : slabGet m with
      | none =>
          rw [hget] at heq
          cases heq
          refine ⟨Nat.le_refl _, ?_, fun _ => Or.inl ⟨m, hm, hget⟩⟩
          rw [Nat.sub_self]
          exact (h.setNext hpos).wrote
      | some addr =>
          have hgot := h.firstBlock hans hpos hget (hdr.room h hpos hcopy hm)
          rw [hget, Option.elim_some] at heq
          obtain ⟨b₁, hlast, hres⟩ := Option.map_eq_some_iff.1 heq
          cases hres
          have hfirst : ((b.firstBlock g addr m).vec (b.firstBlock g addr m).pos).len = 0 := by
            rw [hgot.block]
            rfl
          have hroom := obufDupLast_room hgot.same.inv data (by omega) hlast
          obtain ⟨hlast', hw⟩ := obufDupLast_spec hgot.same.inv data hroom
          obtain rfl := Option.some.inj (hlast'.symm.trans hlast)
          exact ⟨Nat.zero_le _, by simpa using hgot.same.wrote.trans hw, fun h0 =>
            absurd h0 (Nat.lt_irrefl 0)⟩

/-- What the loop of `obuf_dup` has done when it ends. -/
theorem obufDupLoop_copied (fuel : Nat) (b : Obuf) (toCopy : Nat) (data : Nat → UInt8) (h : b.Inv)
    (hans : b.Answers g slabGet) (hdr : b.HasHeader g toCopy)
    (hsum : (b.vec b.pos).len + toCopy < sizeMax) {left : Nat}
    (heq : obufDupLoop g slabGet fuel b toCopy data = some (left, b')) :
    b.Copied g slabGet toCopy data left b' := by
  induction fuel generalizing b toCopy data with
  | zero => cases heq
  | succ fuel ih =>
      by_cases hfits : (b.vec b.pos).len + toCopy ≤ (b.vec b.pos).capacity
      · rw [obufDupLoop_last h hfits] at heq
        cases heq
        exact ⟨Nat.zero_le _, (obufDupLast_spec h data hfits).2, fun h0 =>
          absurd h0 (Nat.lt_irrefl 0)⟩
      have hmax := h.pos
      rcases h.cases_current (Nat.lt_of_not_le hfits) with
        ⟨hpos, hcopy⟩ | ⟨hlt, hne, ⟨n, hn, hn0, hmore⟩ | ⟨hfull, hcopy⟩⟩
      · -- a new entry
        exact obufDupLoop_new_copied h hans hdr hpos hcopy (by omega) heq
      · -- fill the rest of the entry
        have hw := Obuf.append_wrote (n := n) h data (by omega)
        rw [obufDupLoop_part h hsum hn hn0 hmore] at heq
        by_cases hend : b.pos + 1 ≥ smallObufIovMax
        · rw [if_pos hend] at heq
          cases heq
          refine ⟨Nat.sub_le _ _, by rwa [Nat.sub_sub_self hmore.le], fun _ => Or.inr ⟨?_, ?_⟩⟩
          · exact Nat.le_antisymm (Nat.succ_le_of_lt hmax) hend
          · exact Obuf.append_full h hn data
        · rw [if_neg hend] at heq
          have hnext := hw.inv.next hlt (Nat.lt_of_not_le hend)
          have hdr' : Obuf.HasHeader g { b.append (b.vec b.pos) n data with pos := b.pos + 1 }
              (toCopy - n) :=
            hdr.imp_right fun hd =>
              ⟨(hd.1.append n data).setPos _, hd.2.1, by have := hd.2.2; omega⟩
          have hempty : ((b.append (b.vec b.pos) n data).vec (b.pos + 1)).len = 0 :=
            hw.inv.empty _ (Nat.lt_succ_self _) hlt
          have hfits : ((b.append (b.vec b.pos) n data).vec (b.pos + 1)).len + (toCopy - n) <
              sizeMax := by
            omega
          have hcopied := ih _ _ _ hnext.inv (hans.append n data) hdr' hfits heq
          exact Obuf.Copied.after hmore.le (by simpa using hw.trans hnext.wrote) hcopied
      · -- the entry is full
        rw [obufDupLoop_full h hsum hcopy hfull hne] at heq
        by_cases hend : b.pos + 1 ≥ smallObufIovMax
        · rw [if_pos hend] at heq
          cases heq
          refine ⟨Nat.le_refl _, ?_, fun _ => Or.inr ⟨by omega, hfull.symm⟩⟩
          rw [Nat.sub_self]
          exact (Obuf.Same.refl h).wrote
        · rw [if_neg hend] at heq
          have hnext := h.next hlt (Nat.lt_of_not_le hend)
          have hdr' : Obuf.HasHeader g { b with pos := b.pos + 1 } toCopy :=
            hdr.imp_right fun hd => ⟨hd.1.setPos _, hd.2⟩
          have hempty : (b.vec (b.pos + 1)).len = 0 := h.empty _ (Nat.lt_succ_self _) hlt
          have hcopied := ih _ _ _ hnext.inv hans hdr'
            (by show (b.vec (b.pos + 1)).len + toCopy < sizeMax; omega) heq
          exact ⟨hcopied.le, by simpa using hnext.wrote.trans hcopied.wrote, hcopied.stops⟩

/-- The loop of `obuf_dup` ends, and no assertion fails in it. -/
theorem obufDupLoop_returns (fuel : Nat) (b : Obuf) (toCopy : Nat) (data : Nat → UInt8)
    (h : b.Inv) (hst : b.Started) (hok : StartOk b.startCapacity) (hans : b.Answers g slabGet)
    (hsize : toCopy < 2 ^ 62) (hfuel : smallObufIovMax ≤ b.pos + fuel) :
    ∃ left b', obufDupLoop g slabGet fuel b toCopy data = some (left, b') ∧ b'.Started := by
  induction fuel generalizing b toCopy data with
  | zero =>
      have := h.pos
      omega
  | succ fuel ih =>
      obtain ⟨hlen, hcap⟩ := h.len_le
      have hsum : (b.vec b.pos).len + toCopy < sizeMax := by simp only [sizeMax]; omega
      by_cases hfits : (b.vec b.pos).len + toCopy ≤ (b.vec b.pos).capacity
      · exact ⟨_, _, obufDupLoop_last h hfits data, hst.append _ _⟩
      rcases h.cases_current (Nat.lt_of_not_le hfits) with
        ⟨hpos, hcopy⟩ | ⟨hlt, hne, ⟨n, hn, hn0, hmore⟩ | ⟨hfull, hcopy⟩⟩
      · -- a new entry
        obtain ⟨m, hm, hle, hwrap, hshift⟩ := Obuf.posCapacity_spec h hst hok hpos hcopy hsize
        rw [obufDupLoop_new h hpos hcopy (by simp only [sizeMax]; omega) hm]
        cases hget : slabGet m with
        | none =>
            have hsame := h.setNext hpos
            refine ⟨toCopy, _, rfl, hst.congr hsame.start fun i hi => Or.inr ⟨hi, ?_⟩⟩
            have hi' : i < b.nIov := hi
            rw [Obuf.set_vec, if_neg (by omega)]
        | some addr =>
            obtain ⟨hroom, hreal⟩ := slabVec_room g addr hwrap
            have hgot := h.firstBlock hans hpos hget (by omega)
            have hfits : ((b.firstBlock g addr m).vec (b.firstBlock g addr m).pos).len + toCopy ≤
                ((b.firstBlock g addr m).vec (b.firstBlock g addr m).pos).capacity := by
              rw [hgot.block]
              show 0 + toCopy ≤ _
              omega
            obtain ⟨hlast, -⟩ := obufDupLast_spec hgot.same.inv data hfits
            exact ⟨0, _, by rw [Option.elim_some, hlast]; rfl,
              (hgot.started hst (hshift.trans hroom)).append _ _⟩
      · -- fill the rest of the entry
        have hw := Obuf.append_wrote (n := n) h data (by omega)
        rw [obufDupLoop_part h hsum hn hn0 hmore]
        by_cases hend : b.pos + 1 ≥ smallObufIovMax
        · rw [if_pos hend]
          exact ⟨_, _, rfl, hst.append n data⟩
        · rw [if_neg hend]
          have hnext := hw.inv.next hlt (Nat.lt_of_not_le hend)
          exact ih _ _ _ hnext.inv ((hst.append n data).setPos _) hok (hans.append n data)
            (by omega) (by show smallObufIovMax ≤ b.pos + 1 + fuel; omega)
      · -- the entry is full
        rw [obufDupLoop_full h hsum hcopy hfull hne]
        by_cases hend : b.pos + 1 ≥ smallObufIovMax
        · rw [if_pos hend]
          exact ⟨_, _, rfl, hst⟩
        · rw [if_neg hend]
          have hnext := h.next hlt (Nat.lt_of_not_le hend)
          exact ih _ _ _ hnext.inv (hst.setPos _) hok hans hsize
            (by show smallObufIovMax ≤ b.pos + 1 + fuel; omega)

/-- `obuf_dup` appends the bytes that it says it copied, all of them unless there is no slab or no
entry left. -/
theorem obufDup_wrote (h : b.Inv) (hans : b.Answers g slabGet) (hdr : b.HasHeader g size)
    (hsum : (b.vec b.pos).len + size < sizeMax) (data : Nat → UInt8)
    (heq : obufDup g slabGet b data size = some (n, b')) :
    n ≤ size ∧ b.Wrote ((List.range n).map data) b' ∧
      (n < size → (∃ m, b'.posCapacity (size - n) = some m ∧ slabGet m = none) ∨
        b'.pos + 1 = smallObufIovMax ∧ (b'.vec b'.pos).len = (b'.vec b'.pos).capacity) := by
  obtain ⟨⟨left, b₁⟩, hloop, hres⟩ := Option.bind_eq_some_iff.1 heq
  cases hres
  have hcopied := obufDupLoop_copied _ b size data h hans hdr hsum hloop
  refine ⟨Nat.sub_le _ _, hcopied.wrote, fun hlt => ?_⟩
  rw [Nat.sub_sub_self hcopied.le]
  exact hcopied.stops (by omega)

theorem obufDup_spec (h : b.Inv) (hst : b.Started) (hok : StartOk b.startCapacity)
    (hans : b.Answers g slabGet) (hsize : size < 2 ^ 62) (data : Nat → UInt8) :
    ∃ n b', obufDup g slabGet b data size = some (n, b') ∧ b'.Started ∧ n ≤ size ∧
      b.Wrote ((List.range n).map data) b' ∧
      (n < size → (∃ m, b'.posCapacity (size - n) = some m ∧ slabGet m = none) ∨
        b'.pos + 1 = smallObufIovMax ∧ (b'.vec b'.pos).len = (b'.vec b'.pos).capacity) := by
  obtain ⟨left, b', heq, hstarted⟩ :=
    obufDupLoop_returns (smallObufIovMax + 1) b size data h hst hok hans hsize
    (by omega)
  have hdup : obufDup g slabGet b data size = some (size - left, b') := by
    unfold obufDup
    rw [heq]
    rfl
  obtain ⟨hlen, hcap⟩ := h.len_le
  have hsum : (b.vec b.pos).len + size < sizeMax := by simp only [sizeMax]; omega
  exact ⟨_, b', hdup, hstarted, obufDup_wrote h hans (Or.inr ⟨hst, hok, hsize⟩) hsum data hdup⟩

/-! ## Clearing -/

/-- The entries from `i` on are empty, `n` of them. -/
def Obuf.cleared (b : Obuf) (i n : Nat) : Obuf :=
  { b with vec := fun j => if i ≤ j ∧ j < i + n then { b.vec j with len := 0 } else b.vec j }

/-- The loop that empties entries. -/
theorem clearLoop_spec (n i : Nat) (b : Obuf) (hle : i + n ≤ smallObufIovMax + 1) :
    clearLoop n i b = some (b.cleared i n) := by
  induction n generalizing i b with
  | zero =>
      have hvec : (fun j => if i ≤ j ∧ j < i + 0 then { b.vec j with len := 0 } else b.vec j) =
          b.vec :=
        funext fun j => if_neg (by omega)
      rw [Obuf.cleared, hvec]
      rfl
  | succ n ih =>
      unfold clearLoop
      rw [Obuf.at_eq (by omega)]
      simp only [Option.bind_eq_bind, Option.bind_some]
      rw [ih (i + 1) _ (by omega)]
      simp only [Obuf.cleared, Obuf.set, Option.some.injEq, Obuf.mk.injEq, true_and, and_true]
      funext j
      simp only [Function.update_apply]
      by_cases hj : j = i
      · subst hj
        rw [if_neg (by omega), if_pos rfl, if_pos (by omega)]
      · rw [if_neg hj]
        by_cases hin : i + 1 ≤ j ∧ j < i + 1 + n
        · rw [if_pos hin, if_pos (by omega)]
        · rw [if_neg hin, if_neg (by omega)]

/-- How many entries have bytes. -/
theorem obufIovcnt_spec (h : b.Inv) :
    ∃ cnt, obufIovcnt b = some cnt ∧ cnt ≤ b.pos + 1 ∧ b.pos ≤ cnt ∧
    ∀ i, cnt ≤ i → i ≤ b.nIov → (b.vec i).len = 0 := by
  unfold obufIovcnt
  rw [h.at_pos]
  refine ⟨_, rfl, ?_, ?_, fun i h1 h2 => ?_⟩
  · split <;> omega
  · split <;> omega
  · by_cases hi : i = b.pos
    · subst hi
      split at h1 <;> omega
    · refine h.empty i ?_ h2
      split at h1 <;> omega

/-- Forgetting what was written behind a position. -/
theorem Obuf.Inv.cut (h : b.Inv) (b' : Obuf) (hp : p ≤ b.pos) (hl : l ≤ (b.vec p).len)
    (hpos : b'.pos = p) (hn : b'.nIov = b.nIov) (hmem : b'.mem = b.mem)
    (hused : b'.used = (b.upTo p l).length)
    (hbase : ∀ i, (b'.vec i).base = (b.vec i).base ∧ (b'.vec i).capacity = (b.vec i).capacity)
    (hlt : ∀ i < p, (b'.vec i).len = (b.vec i).len) (hat : (b'.vec p).len = l)
    (hgt : ∀ i, p < i → i ≤ b.nIov → (b'.vec i).len = 0) :
    b'.Inv ∧ b'.content = b.upTo p l := by
  have hle := h.posLe
  have hmax := h.pos
  have hcontent : b'.content = b.upTo p l := by
    rw [Obuf.content_eq, Obuf.upTo, Obuf.upTo, hpos, hat, hmem, (hbase p).1]
    congr 1
    refine List.flatMap_congr fun i hi => ?_
    rw [List.mem_range] at hi
    rw [Obuf.bytes, Obuf.bytes, hmem, (hbase i).1, hlt i hi]
  have hlen : ∀ i ≤ b.nIov, (b'.vec i).len ≤ (b.vec i).len := by
    intro i hi
    rcases Nat.lt_trichotomy i p with h1 | rfl | h1
    · exact Nat.le_of_eq (hlt i h1)
    · omega
    · rw [hgt i h1 hi]
      exact Nat.zero_le _
  refine ⟨?_, hcontent⟩
  constructor
  case pos => omega
  case posLe => omega
  case nIov => rw [hn]; exact h.nIov
  case blocks =>
    intro i hi
    rw [hn] at hi
    have hb := h.blocks i hi
    obtain ⟨h1, h2⟩ := hbase i
    exact ⟨h1 ▸ hb.header, by rw [h1, h2]; exact hb.last, h2 ▸ hb.pos,
      (hlen i (Nat.le_of_lt hi)).trans (h2 ▸ hb.len)⟩
  case zero =>
    have hz := h.zero
    obtain ⟨h1, h2⟩ := hbase b.nIov
    have h3 := hlen b.nIov (Nat.le_refl _)
    rw [hz] at h1 h2 h3
    rw [hn]
    calc b'.vec b.nIov = ⟨(b'.vec b.nIov).base, (b'.vec b.nIov).len, (b'.vec b.nIov).capacity⟩ :=
      rfl
      _ = zeroVec := by rw [h1, h2, Nat.le_zero.mp h3]; rfl
  case empty =>
    intro i h1 h2
    rw [hpos] at h1
    rw [hn] at h2
    exact hgt i h1 h2
  case apart =>
    intro i hi j hj hne
    rw [hn] at hi hj
    have hap := h.apart i hi j hj hne
    unfold ObufVec.Apart at hap ⊢
    rw [(hbase i).1, (hbase i).2, (hbase j).1, (hbase j).2]
    exact hap
  case used => rw [hused, hcontent]

/-- `obuf_rollback_to_svp`, to a position in what was written. -/
theorem obufRollbackToSvp_spec (h : b.Inv) {svp : ObufSvp} (hp : svp.pos ≤ b.pos)
    (hl : svp.iovLen ≤ (b.vec svp.pos).len)
    (hused : svp.used = (b.upTo svp.pos svp.iovLen).length) :
    ∃ b', obufRollbackToSvp b svp = some b' ∧ b'.Inv ∧ b'.content = b.upTo svp.pos svp.iovLen ∧
      b'.startCapacity = b.startCapacity ∧ (b.Started → b'.Started) ∧ b'.Keeps b ∧
      b'.pos = svp.pos ∧
      (b'.vec svp.pos).len = svp.iovLen := by
  obtain ⟨cnt, hcnt, hle, hge, hzero⟩ := obufIovcnt_spec h
  have hmax := h.pos
  have hposLe := h.posLe
  set b1 : Obuf := { b.set svp.pos { b.vec svp.pos with len := svp.iovLen } with
    pos := svp.pos, used := svp.used } with hb1
  set b' : Obuf :=
    { b1.cleared (svp.pos + 1) (cnt - (svp.pos + 1)) with reserved := false } with hb'
  have heq : obufRollbackToSvp b svp = some b' := by
    unfold obufRollbackToSvp
    have hat : ({ b with pos := svp.pos } : Obuf).at svp.pos = some (b.vec svp.pos) :=
      Obuf.at_eq (by omega)
    simp only [guard, if_pos hp, pure, hcnt, Option.bind_eq_bind, Option.bind_some, hat]
    change ((clearLoop (cnt - (svp.pos + 1)) (svp.pos + 1) b1).bind _) = some b'
    rw [clearLoop_spec _ _ _ (by omega)]
    rfl
  have hvec : ∀ i, b'.vec i = if svp.pos + 1 ≤ i ∧ i < svp.pos + 1 + (cnt - (svp.pos + 1)) then
      { b1.vec i with len := 0 } else b1.vec i := fun _ => rfl
  have hvec1 : ∀ i, b1.vec i = if i = svp.pos then { b.vec svp.pos with len := svp.iovLen }
      else b.vec i := by
    intro i
    simp only [hb1, Obuf.set, Function.update_apply]
  have hat : b'.vec svp.pos = { b.vec svp.pos with len := svp.iovLen } := by
    rw [hvec, if_neg (by omega), hvec1, if_pos rfl]
  have hlt : ∀ i < svp.pos, b'.vec i = b.vec i := by
    intro i hi
    rw [hvec, if_neg (by omega), hvec1, if_neg (by omega)]
  have hbase : ∀ i, (b'.vec i).base = (b.vec i).base ∧
      (b'.vec i).capacity = (b.vec i).capacity := by
    intro i
    rw [hvec, hvec1]
    by_cases hi : i = svp.pos
    · subst hi
      rw [if_neg (by omega), if_pos rfl]
      exact ⟨rfl, rfl⟩
    · rw [if_neg hi]
      split <;> exact ⟨rfl, rfl⟩
  have hgt : ∀ i, svp.pos < i → i ≤ b.nIov → (b'.vec i).len = 0 := by
    intro i h1 h2
    have hne : i ≠ svp.pos := by omega
    rw [hvec, hvec1, if_neg hne]
    by_cases hin : svp.pos + 1 ≤ i ∧ i < svp.pos + 1 + (cnt - (svp.pos + 1))
    · rw [if_pos hin]
    · rw [if_neg hin]
      exact hzero i (by omega) h2
  obtain ⟨hinv, hcontent⟩ := h.cut b' hp hl rfl rfl rfl hused hbase (fun i hi => by rw [hlt i hi])
    (by rw [hat]) hgt
  refine ⟨b', heq, hinv, hcontent, rfl, fun hst => hst.congr rfl fun i hi =>
    Or.inr ⟨hi, (hbase i).2⟩, ⟨hp, fun i hi => ?_, ?_, fun _ => ?_, fun _ _ _ _ _ => rfl⟩, rfl,
    by rw [hat]⟩
  · rw [hlt i hi]
    exact ⟨rfl, rfl⟩
  · rw [show b'.pos = svp.pos from rfl, hat]
    exact hl
  · rw [show b'.pos = svp.pos from rfl, hat]

/-- `obuf_reset`. -/
theorem obufReset_spec (h : b.Inv) :
    ∃ b', obufReset b = some b' ∧ b'.Inv ∧ b'.content = [] ∧ b'.startCapacity = b.startCapacity ∧
      (b.Started → b'.Started) := by
  obtain ⟨cnt, hcnt, hle, hge, hzero⟩ := obufIovcnt_spec h
  have hmax := h.pos
  set b' : Obuf := { b.cleared 0 cnt with pos := 0, used := 0, reserved := false } with hb'
  have heq : obufReset b = some b' := by
    unfold obufReset
    rw [hcnt]
    simp only [Option.bind_eq_bind, Option.bind_some]
    rw [clearLoop_spec _ _ _ (by omega)]
    rfl
  have hvec : ∀ i, b'.vec i = if 0 ≤ i ∧ i < 0 + cnt then { b.vec i with len := 0 }
      else b.vec i := fun _ => rfl
  have hlen : ∀ i ≤ b.nIov, (b'.vec i).len = 0 := by
    intro i hi
    rw [hvec]
    by_cases hin : 0 ≤ i ∧ i < 0 + cnt
    · rw [if_pos hin]
    · rw [if_neg hin]
      exact hzero i (by omega) hi
  have hbase : ∀ i, (b'.vec i).base = (b.vec i).base ∧
      (b'.vec i).capacity = (b.vec i).capacity := by
    intro i
    rw [hvec]
    split <;> exact ⟨rfl, rfl⟩
  obtain ⟨hinv, hcontent⟩ := h.cut b' (Nat.zero_le _) (Nat.zero_le _) rfl rfl rfl rfl hbase
    (fun i hi => absurd hi (Nat.not_lt_zero i)) (hlen 0 (Nat.zero_le _)) (fun i _ hi => hlen i hi)
  exact ⟨b', heq, hinv, hcontent, rfl, fun hst => hst.congr rfl fun i hi =>
    Or.inr ⟨hi, (hbase i).2⟩⟩

end SmallAllocators
