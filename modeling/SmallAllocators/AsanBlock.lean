/-
SmallAllocators.AsanBlock — the blocks of `small_asan_alloc` in
`small/util.c`, under which every allocator runs with ASAN.

A block has a header at its front and the payload near its end, aligned to
the alignment and to no more. Each of the two finds the other by an offset
of 16 bits: one before the header, one before the 8-aligned address below
the payload. The bytes from this address to the payload cannot be poisoned;
they hold a magic number, which `small_asan_free` checks.

`small_asan_alloc` adds up the size of the block in `size_t` and does not
check the sum. `small_asan_layout_iff` says that this is the only case in
which the layout is not as it should be.
-/
import SmallAllocators.Lib.Memory
import SmallAllocators.Util

namespace SmallAllocators

open Memory

/-- `SMALL_ASAN_HEADER_ALIGNMENT`. -/
def smallAsanHeaderAlignment : Nat := ptrSize

/-- `SMALL_POISON_ALIGNMENT`. -/
def smallPoisonAlignment : Nat := 8

/-- `SMALL_ASAN_MAGIC`. -/
def smallAsanMagic : Nat := 0xdeadbeefcafefeed

/-- `UINT16_MAX`. -/
def uint16Max : Nat := 2 ^ 16 - 1

/-- The `alloc_size` of `small_asan_alloc`. -/
def asanAllocSize (payloadSize alignment headerSize : Nat) : Nat :=
  (smallAsanHeaderAlignment + headerSize + smallPoisonAlignment - 1 + 2 + 2 * alignment - 1 +
      payloadSize) % sizeMax

/-- The `payload` of `small_asan_alloc`, in the block at `alloc`; `none` is a failed assertion or a
division by 0. -/
def asanPayload (alloc payloadSize alignment headerSize : Nat) : Option Nat := do
  let allocSize := asanAllocSize payloadSize alignment headerSize
  let payload ← smallAlignDown ((alloc + allocSize + (sizeMax - payloadSize)) % sizeMax) alignment
  guard (2 * alignment % sizeMax ≠ 0)
  if payload % (2 * alignment % sizeMax) = 0 then some ((payload + (sizeMax - alignment)) % sizeMax)
  else some payload

/-- `small_asan_alloc`: the header, and the memory with what is written into the block, which
`malloc` has returned at `alloc`. -/
def smallAsanAlloc (mem : Nat → UInt8) (alloc payloadSize alignment headerSize : Nat) :
    Option (Nat × (Nat → UInt8)) := do
  let payload ← asanPayload alloc payloadSize alignment headerSize
  let header := (alloc + smallAsanHeaderAlignment) % sizeMax
  let distance := (payload + (sizeMax - header)) % sizeMax
  -- a difference of pointers has a sign
  guard (distance ≤ uint16Max ∨ 2 ^ 63 ≤ distance)
  let offset := distance % 2 ^ 16
  let magicBegin ← smallAlignDown payload smallPoisonAlignment
  let mem := fill mem ((magicBegin + (sizeMax - 2)) % sizeMax) 2 (byte offset)
  let mem := fill mem alloc 2 (byte offset)
  some (header, fill mem magicBegin (payload - magicBegin) (byte smallAsanMagic))

def smallAsanPayloadFromHeader (mem : Nat → UInt8) (header : Nat) : Nat :=
  let alloc := (header + (sizeMax - smallAsanHeaderAlignment)) % sizeMax
  (header + load16 mem alloc) % sizeMax

def smallAsanHeaderFromPayload (mem : Nat → UInt8) (payload : Nat) : Option Nat := do
  let magicBegin ← smallAlignDown payload smallPoisonAlignment
  let offset := load16 mem ((magicBegin + (sizeMax - 2)) % sizeMax)
  some ((payload + (sizeMax - offset)) % sizeMax)

/-- `small_asan_free`: the block that it frees, unless its assertion reports a corrupted magic. -/
def smallAsanFree (mem : Nat → UInt8) (header : Nat) : Option Nat := do
  let alloc := (header + (sizeMax - smallAsanHeaderAlignment)) % sizeMax
  let payload := smallAsanPayloadFromHeader mem header
  let magicBegin ← smallAlignDown payload smallPoisonAlignment
  guard (read mem magicBegin (payload - magicBegin) = (List.range (payload - magicBegin)).map
      (byte smallAsanMagic))
  some alloc

/-- What `malloc` promises of a block: it is no larger than `PTRDIFF_MAX`, and its end has an
address. -/
structure Malloced (alloc size : Nat) : Prop where
  size_lt : size < 2 ^ 63
  bound : alloc + size < sizeMax

/-- The 8-aligned address below the payload. -/
def magicBegin (payload : Nat) : Nat := payload / smallPoisonAlignment * smallPoisonAlignment

/-- The layout of the block of `allocSize` bytes at `alloc`. -/
structure AsanLayout (mem : Nat → UInt8)
    (alloc allocSize payloadSize alignment headerSize header payload : Nat) : Prop where
  aligned : alignment ∣ payload ∧ ¬ 2 * alignment ∣ payload
  inside : payload + payloadSize ≤ alloc + allocSize
  /-- The offset for the header is before the header. -/
  front : alloc + 2 ≤ header
  /-- The offset for the payload and the magic are between the header and the payload. -/
  between : header + headerSize + 2 ≤ magicBegin payload ∧ magicBegin payload ≤ payload
  payload_from_header : smallAsanPayloadFromHeader mem header = payload
  header_from_payload : smallAsanHeaderFromPayload mem payload = some header
  /-- Whatever is written to the block but for the offset at its front. -/
  free : ∀ mem', load16 mem' alloc = load16 mem alloc →
    (smallAsanFree mem' header = none ↔ ∃ a, magicBegin payload ≤ a ∧ a < payload ∧ mem' a ≠ mem a)

variable {mem mem' : Nat → UInt8} {alloc payloadSize headerSize header payload k : Nat}

theorem asanAllocSize_eq (payloadSize headerSize k : Nat) :
    asanAllocSize payloadSize (2 ^ k) headerSize =
      (headerSize + payloadSize + 2 * 2 ^ k + 16) % sizeMax := by
  have hpos := Nat.two_pow_pos k
  rw [asanAllocSize]
  congr 1
  simp only [smallAsanHeaderAlignment, smallPoisonAlignment, ptrSize]
  omega

/-- The poison alignment is a power of two. -/
theorem smallAlignDown_poison (h : payload < sizeMax) :
    smallAlignDown payload smallPoisonAlignment = some (magicBegin payload) :=
  smallAlignDown_eq (k := 3) (by decide) h

/-- The steps down from `x`: to a multiple of the alignment, and to one that is no multiple of its
double. -/
def oddMultiple (k x : Nat) : Nat :=
  if x / 2 ^ k * 2 ^ k % (2 * 2 ^ k) = 0 then x / 2 ^ k * 2 ^ k - 2 ^ k else x / 2 ^ k * 2 ^ k

theorem oddMultiple_spec {k x : Nat} (hx : 2 ^ k ≤ x) :
    (2 ^ k ∣ oddMultiple k x ∧ ¬ 2 * 2 ^ k ∣ oddMultiple k x) ∧ oddMultiple k x ≤ x ∧
      x < oddMultiple k x + 2 * 2 ^ k := by
  have hpos := Nat.two_pow_pos k
  have hdiv := Nat.div_add_mod x (2 ^ k)
  have hmod := Nat.mod_lt x hpos
  have hq : 1 ≤ x / 2 ^ k := (Nat.le_div_iff_mul_le hpos).2 (by omega)
  obtain ⟨q, hq⟩ : ∃ q, x / 2 ^ k = q + 1 := ⟨x / 2 ^ k - 1, by omega⟩
  have hdouble : ∀ n, 2 * 2 ^ k ∣ n * 2 ^ k ↔ 2 ∣ n := fun n => Nat.mul_dvd_mul_iff_right hpos
  rw [hq, Nat.mul_comm, Nat.add_mul, Nat.one_mul] at hdiv
  rw [oddMultiple, hq]
  split
  · next heven =>
    have htwo := (hdouble (q + 1)).1 (Nat.dvd_of_mod_eq_zero heven)
    rw [Nat.add_mul, Nat.one_mul, Nat.add_sub_cancel, hdouble]
    exact ⟨⟨Nat.dvd_mul_left _ _, by omega⟩, by omega, by omega⟩
  · next hodd =>
    refine ⟨⟨Nat.dvd_mul_left _ _, fun hdvd => hodd (Nat.mod_eq_zero_of_dvd hdvd)⟩, ?_⟩
    rw [Nat.add_mul, Nat.one_mul]
    exact ⟨by omega, by omega⟩

/-- Where the payload is, when the size of the block does not wrap around. -/
theorem asanPayload_eq (hsum : headerSize + payloadSize + 2 * 2 ^ k + 16 < sizeMax)
    (hbound : alloc + (headerSize + payloadSize + 2 * 2 ^ k + 16) < sizeMax) :
    asanPayload alloc payloadSize (2 ^ k) headerSize =
      some (oddMultiple k (alloc + headerSize + 2 * 2 ^ k + 16)) := by
  have hpos := Nat.two_pow_pos k
  have hk : k < 64 := by
    by_contra hge
    have : 2 ^ 64 ≤ 2 ^ k := Nat.pow_le_pow_right (by omega) (by omega)
    simp only [sizeMax] at hsum
    omega
  have hstart :
      (alloc + (headerSize + payloadSize + 2 * 2 ^ k + 16) + (sizeMax - payloadSize)) % sizeMax =
      alloc + headerSize + 2 * 2 ^ k + 16 := by
    rw [show alloc + (headerSize + payloadSize + 2 * 2 ^ k + 16) + (sizeMax - payloadSize) =
      alloc + headerSize + 2 * 2 ^ k + 16 + sizeMax by omega, Nat.add_mod_right,
      Nat.mod_eq_of_lt (by omega)]
  have hdouble : 2 * 2 ^ k % sizeMax = 2 * 2 ^ k := Nat.mod_eq_of_lt (by omega)
  have hdown := smallAlignDown_eq hk (x := alloc + headerSize + 2 * 2 ^ k + 16) (by omega)
  have hle : 2 ^ k ≤ (alloc + headerSize + 2 * 2 ^ k + 16) / 2 ^ k * 2 ^ k := by
    have hq := (Nat.le_div_iff_mul_le hpos).2
      (show 1 * 2 ^ k ≤ alloc + headerSize + 2 * 2 ^ k + 16 by omega)
    calc 2 ^ k = 1 * 2 ^ k := (Nat.one_mul _).symm
      _ ≤ _ := Nat.mul_le_mul_right _ hq
  have hback :
      ((alloc + headerSize + 2 * 2 ^ k + 16) / 2 ^ k * 2 ^ k + (sizeMax - 2 ^ k)) % sizeMax =
      (alloc + headerSize + 2 * 2 ^ k + 16) / 2 ^ k * 2 ^ k - 2 ^ k := by
    have hfloor := Nat.div_mul_le_self (alloc + headerSize + 2 * 2 ^ k + 16) (2 ^ k)
    rw [show (alloc + headerSize + 2 * 2 ^ k + 16) / 2 ^ k * 2 ^ k + (sizeMax - 2 ^ k) =
      (alloc + headerSize + 2 * 2 ^ k + 16) / 2 ^ k * 2 ^ k - 2 ^ k + sizeMax by omega,
      Nat.add_mod_right, Nat.mod_eq_of_lt (by omega)]
  have hne : 2 * 2 ^ k ≠ 0 := by omega
  rw [asanPayload, asanAllocSize_eq, Nat.mod_eq_of_lt hsum, hstart, hdown]
  simp only [Option.bind_eq_bind, Option.bind_some, hdouble, guard, if_pos hne, hback, oddMultiple]
  split
  · rfl
  · rfl

/-! ## The layout -/

/-- What `small_asan_alloc` has done when it returns. -/
theorem smallAsanAlloc_of_some {alignment : Nat}
    (hpayload : asanPayload alloc payloadSize alignment headerSize = some payload)
    (hlt : payload < sizeMax)
    (hres : smallAsanAlloc mem alloc payloadSize alignment headerSize = some (header, mem')) :
    header = (alloc + smallAsanHeaderAlignment) % sizeMax ∧
    ∃ distance, distance = (payload + (sizeMax - header)) % sizeMax ∧
    (distance ≤ uint16Max ∨ 2 ^ 63 ≤ distance) ∧
      mem' = fill
        (fill
          (fill mem ((magicBegin payload + (sizeMax - 2)) % sizeMax) 2 (byte (distance % 2 ^ 16)))
          alloc 2 (byte (distance % 2 ^ 16)))
        (magicBegin payload) (payload - magicBegin payload) (byte smallAsanMagic) := by
  rw [smallAsanAlloc, hpayload] at hres
  simp only [Option.bind_eq_bind, Option.bind_some, smallAlignDown_poison hlt] at hres
  by_cases hfits :
    (payload + (sizeMax - (alloc + smallAsanHeaderAlignment) % sizeMax)) % sizeMax ≤ uint16Max ∨
      2 ^ 63 ≤ (payload + (sizeMax - (alloc + smallAsanHeaderAlignment) % sizeMax)) % sizeMax
  · rw [guard, if_pos hfits] at hres
    cases hres
    exact ⟨rfl, _, rfl, hfits, rfl⟩
  · rw [guard, if_neg hfits] at hres
    cases hres

/-- The block starts with an offset and its header, and the payload comes after both and the second
offset. -/
theorem smallAsanAlloc_spec (hblock : Malloced alloc (headerSize + payloadSize + 2 * 2 ^ k + 16))
    (hpayload : asanPayload alloc payloadSize (2 ^ k) headerSize = some payload)
    (hres : smallAsanAlloc mem alloc payloadSize (2 ^ k) headerSize = some (header, mem')) :
    ((2 ^ k ∣ payload ∧ ¬ 2 * 2 ^ k ∣ payload) ∧ alloc + headerSize + 16 < payload ∧
      payload ≤ alloc + headerSize + 2 * 2 ^ k + 16) ∧
    header = alloc + 8 ∧ payload - header < 2 ^ 16 ∧
    mem' = fill
      (fill (fill mem (magicBegin payload - 2) 2 (byte (payload - header)))
        alloc 2 (byte (payload - header)))
      (magicBegin payload) (payload - magicBegin payload) (byte smallAsanMagic) := by
  have hpos := Nat.two_pow_pos k
  obtain ⟨hsize, hbound⟩ := hblock
  have hmax : 2 ^ 63 < sizeMax := by decide
  have hpayload' := hpayload
  rw [asanPayload_eq (by omega) hbound, Option.some.injEq] at hpayload'
  obtain ⟨haligned, hle, hlt⟩ :=
    oddMultiple_spec (k := k) (x := alloc + headerSize + 2 * 2 ^ k + 16) (by omega)
  rw [hpayload'] at haligned hle hlt
  obtain ⟨hheader, distance, hdistance, hfits, hmem⟩ :=
    smallAsanAlloc_of_some hpayload (by omega) hres
  have hheader' : header = alloc + 8 := by
    rw [hheader, smallAsanHeaderAlignment, ptrSize, Nat.mod_eq_of_lt (by omega)]
  have hd : distance = payload - header := by
    rw [hdistance, show payload + (sizeMax - header) = payload - header + sizeMax by omega,
      Nat.add_mod_right, Nat.mod_eq_of_lt (by omega)]
  have hd16 : payload - header < 2 ^ 16 := by
    simp only [uint16Max] at hfits
    omega
  have hback : (magicBegin payload + (sizeMax - 2)) % sizeMax = magicBegin payload - 2 := by
    have hmagic : magicBegin payload ≤ payload ∧ 2 ≤ magicBegin payload := by
      simp only [magicBegin, smallPoisonAlignment]
      omega
    rw [show magicBegin payload + (sizeMax - 2) = magicBegin payload - 2 + sizeMax by omega,
      Nat.add_mod_right, Nat.mod_eq_of_lt (by omega)]
  refine ⟨⟨haligned, by omega, hle⟩, hheader', hd16, ?_⟩
  rw [hmem, hback, hd, Nat.mod_eq_of_lt hd16]

/-- A memory that has the offset of a payload before its header. -/
theorem smallAsanPayloadFromHeader_eq (h : load16 mem alloc = payload - (alloc + 8))
    (hle : alloc + 8 ≤ payload) (hlt : payload < sizeMax) :
    (alloc + 8 + (sizeMax - smallAsanHeaderAlignment)) % sizeMax = alloc ∧
    smallAsanPayloadFromHeader mem (alloc + 8) = payload := by
  have halloc : (alloc + 8 + (sizeMax - smallAsanHeaderAlignment)) % sizeMax = alloc := by
    have : 8 < sizeMax := by decide
    rw [smallAsanHeaderAlignment, ptrSize, show alloc + 8 + (sizeMax - 8) = alloc + sizeMax by
      omega, Nat.add_mod_right, Nat.mod_eq_of_lt (by omega)]
  refine ⟨halloc, ?_⟩
  rw [smallAsanPayloadFromHeader, halloc, h, Nat.add_sub_cancel' hle, Nat.mod_eq_of_lt hlt]

/-- `small_asan_free` compares the bytes below the payload with the magic. -/
theorem smallAsanFree_eq_none (h : load16 mem alloc = payload - (alloc + 8))
    (hle : alloc + 8 ≤ payload) (hlt : payload < sizeMax) :
    smallAsanFree mem (alloc + 8) = none ↔
      ∃ a, magicBegin payload ≤ a ∧ a < payload ∧
      mem a ≠ byte smallAsanMagic (a - magicBegin payload) := by
  obtain ⟨halloc, hpayload⟩ := smallAsanPayloadFromHeader_eq h hle hlt
  have hbytes : read mem (magicBegin payload) (payload - magicBegin payload) =
      (List.range (payload - magicBegin payload)).map (byte smallAsanMagic) ↔
      ∀ a, magicBegin payload ≤ a → a < payload →
      mem a = byte smallAsanMagic (a - magicBegin payload) := by
    rw [Memory.read, List.map_inj_left]
    constructor
    · intro hread a hfrom hto
      have hbyte := hread (a - magicBegin payload) (List.mem_range.2 (by omega))
      rwa [Nat.add_sub_cancel' hfrom] at hbyte
    · intro hall i hi
      rw [List.mem_range] at hi
      rw [hall _ (Nat.le_add_right _ _) (by omega), Nat.add_sub_cancel_left]
  rw [smallAsanFree, halloc, hpayload, smallAlignDown_poison hlt]
  simp only [Option.bind_eq_bind, Option.bind_some]
  by_cases hsame : ∀ a, magicBegin payload ≤ a → a < payload →
    mem a = byte smallAsanMagic (a - magicBegin payload)
  · rw [guard, if_pos (hbytes.2 hsame)]
    simp only [Option.pure_def, Option.bind_some, reduceCtorEq, false_iff]
    rintro ⟨a, hfrom, hto, hne⟩
    exact hne (hsame a hfrom hto)
  · rw [guard, if_neg fun hread => hsame (hbytes.1 hread)]
    push Not at hsame
    exact iff_of_true rfl hsame

/-- The alignment is at most 2^62: the remainder by its double is computed. -/
theorem two_pow_le_of_asanPayload
    (hpayload : asanPayload alloc payloadSize (2 ^ k) headerSize = some payload) :
    2 ^ k ≤ 2 ^ 62 := by
  refine Nat.pow_le_pow_right (by decide) ?_
  by_contra hk
  obtain ⟨j, rfl⟩ : ∃ j, k = j + 63 := ⟨k - 63, by omega⟩
  have hzero : 2 * 2 ^ (j + 63) % sizeMax = 0 := by
    rw [show 2 * 2 ^ (j + 63) = 2 ^ j * sizeMax by rw [sizeMax, ← Nat.pow_succ', ← Nat.pow_add],
      Nat.mul_mod_left]
  obtain ⟨down, -, hpayload⟩ := Option.bind_eq_some_iff.1 hpayload
  rw [guard, if_neg (not_not.2 hzero)] at hpayload
  cases hpayload

/-- A sum that wraps around is too small for its parts. -/
theorem AsanLayout.sum_lt
    (hpayload : asanPayload alloc payloadSize (2 ^ k) headerSize = some payload)
    (hheader : header = (alloc + smallAsanHeaderAlignment) % sizeMax)
    (h : AsanLayout mem alloc (asanAllocSize payloadSize (2 ^ k) headerSize) payloadSize
      (2 ^ k) headerSize header payload) :
    headerSize + payloadSize + 2 * 2 ^ k + 16 < sizeMax := by
  have hk := two_pow_le_of_asanPayload hpayload
  have hmax : sizeMax = 2 ^ 64 := rfl
  have hinside := h.inside
  have hfront := h.front
  obtain ⟨hbetween, hle⟩ := h.between
  have hstart : header = alloc + 8 := by
    rw [smallAsanHeaderAlignment, ptrSize, hmax] at hheader
    omega
  by_contra hwraps
  rw [asanAllocSize_eq, Nat.mod_eq_sub_mod (by omega)] at hinside
  have hmod := Nat.mod_le (headerSize + payloadSize + 2 * 2 ^ k + 16 - sizeMax) sizeMax
  omega

/-- **The layout of a block**: for every address that `malloc` returns, payload, header and
alignment for which `small_asan_alloc` returns, the block is laid out as it should be if and only
if the sum of its parts does not wrap around. -/
theorem small_asan_layout_iff
    (halloc : Malloced alloc (asanAllocSize payloadSize (2 ^ k) headerSize))
    (hpayload : asanPayload alloc payloadSize (2 ^ k) headerSize = some payload)
    (hres : smallAsanAlloc mem alloc payloadSize (2 ^ k) headerSize = some (header, mem')) :
    AsanLayout mem' alloc (asanAllocSize payloadSize (2 ^ k) headerSize) payloadSize
      (2 ^ k) headerSize header payload ↔
      headerSize + payloadSize + 2 * 2 ^ k + 16 < sizeMax := by
  constructor
  · intro h
    have hlt : payload < sizeMax := by
      have hinside := h.inside
      have hbound := halloc.bound
      omega
    obtain ⟨hheader, -⟩ := smallAsanAlloc_of_some hpayload hlt hres
    exact h.sum_lt hpayload hheader
  · intro hsum
    rw [asanAllocSize_eq, Nat.mod_eq_of_lt hsum] at halloc ⊢
    obtain ⟨⟨haligned, hafter, hbefore⟩, rfl, hd16, hmem⟩ :=
      smallAsanAlloc_spec halloc hpayload hres
    have hbound := halloc.bound
    have hmagic : magicBegin payload ≤ payload ∧ payload < magicBegin payload + 8 := by
      simp only [magicBegin, smallPoisonAlignment]
      omega
    have hfront : load16 mem' alloc = payload - (alloc + 8) := by
      rw [hmem, load16_fill_of_disjoint (by omega), load16_fill hd16]
    have hback : load16 mem' (magicBegin payload - 2) = payload - (alloc + 8) := by
      rw [hmem, load16_fill_of_disjoint (by omega), load16_fill_of_disjoint (by omega),
        load16_fill hd16]
    have hbytes : ∀ a, magicBegin payload ≤ a → a < payload →
        mem' a = byte smallAsanMagic (a - magicBegin payload) := by
      intro a hfrom hto
      rw [hmem, fill, if_pos (by omega)]
    refine ⟨haligned, by omega, by omega, by omega, ?_, ?_, ?_⟩
    · exact (smallAsanPayloadFromHeader_eq hfront (by omega) (by omega)).2
    · rw [smallAsanHeaderFromPayload, smallAlignDown_poison (by omega)]
      have haddress : (magicBegin payload + (sizeMax - 2)) % sizeMax = magicBegin payload - 2 := by
        rw [show magicBegin payload + (sizeMax - 2) = magicBegin payload - 2 + sizeMax by omega,
          Nat.add_mod_right, Nat.mod_eq_of_lt (by omega)]
      simp only [Option.bind_eq_bind, Option.bind_some, haddress, hback]
      rw [show payload + (sizeMax - (payload - (alloc + 8))) = alloc + 8 + sizeMax by omega,
        Nat.add_mod_right, Nat.mod_eq_of_lt (by omega)]
    · intro mem'' hkeeps
      rw [smallAsanFree_eq_none (hkeeps.trans hfront) (by omega) (by omega)]
      refine exists_congr fun a => and_congr_right fun hfrom => and_congr_right fun hto => ?_
      rw [hbytes a hfrom hto]

/-- 5 bytes, aligned to 4 and not to 8, behind a header of 3 bytes. -/
theorem small_asan_layout_five :
    ∃ header mem, smallAsanAlloc (fun _ => 0) 4096 5 4 3 = some (header, mem) ∧
    AsanLayout mem 4096 32 5 4 3 header 4116 := by
  have halloc : Malloced 4096 (asanAllocSize 5 (2 ^ 2) 3) := ⟨by decide, by decide⟩
  have hpayload : asanPayload 4096 5 (2 ^ 2) 3 = some 4116 := by decide
  exact ⟨_, _, rfl, (small_asan_layout_iff halloc hpayload rfl).2 (by decide)⟩

/-- A payload of `SIZE_MAX` bytes gets a block of 17 bytes. -/
theorem small_asan_layout_wraps :
    ∃ header mem, asanAllocSize (sizeMax - 1) 1 0 = 17 ∧ Malloced 4096 17 ∧
    asanPayload 4096 (sizeMax - 1) 1 0 = some 4113 ∧
    smallAsanAlloc (fun _ => 0) 4096 (sizeMax - 1) 1 0 = some (header, mem) ∧
    ¬ AsanLayout mem 4096 17 (sizeMax - 1) 1 0 header 4113 :=
  ⟨_, _, by decide, ⟨by decide, by decide⟩, by decide, rfl, fun h => absurd h.inside (by decide)⟩

end SmallAllocators
