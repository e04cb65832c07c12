/-
SmallAllocators.Region.Join — what `region_join` returns.

The contents of a region are the bytes in use of its slabs, from the oldest
slab to the newest. `region_join` returns a pointer to the last of them,
which it copies to a new place unless the newest slab has them all. The
copying goes from the last byte to the first; what it writes is behind the
bytes in use of every slab, so it reads the contents as they were.
-/
import SmallAllocators.Region.Runs

namespace SmallAllocators

open Memory

variable {g : Geometry} {r r' : Region} {size : Nat} {answer answer' : Option Nat}

/-! ## Contents -/

/-- The bytes in use of slabs, the newest of which is the first. -/
def slabBytes (mem : Nat → UInt8) : List Rslab → List UInt8
  | [] => []
  | s :: slabs => slabBytes mem slabs ++ read mem s.data s.used

/-- The bytes that were allocated in the region, in order. -/
def Region.bytes (r : Region) : List UInt8 := slabBytes r.mem r.slabs

@[simp] theorem slabBytes_length (mem : Nat → UInt8) (slabs : List Rslab) :
    (slabBytes mem slabs).length = usedOf slabs := by
  induction slabs with
  | nil => rfl
  | cons s slabs ih =>
      rw [slabBytes, List.length_append, ih, read_length, usedOf_cons, Nat.add_comm]

theorem slabBytes_congr {mem mem' : Nat → UInt8} {slabs : List Rslab}
    (h : SameBytes slabs mem mem') :
    slabBytes mem' slabs = slabBytes mem slabs := by
  induction slabs with
  | nil => rfl
  | cons s slabs ih =>
      have htail : SameBytes slabs mem mem' := fun t ht => h t (List.mem_cons_of_mem _ ht)
      have hfirst : read mem' s.data s.used = read mem s.data s.used :=
        read_congr (h s List.mem_cons_self)
      rw [slabBytes, slabBytes, ih htail, hfirst]

/-! ## The copying loop -/

/-- The range at `ptr` is not in use by the slabs. -/
def FreeRange (slabs : List Rslab) (ptr size : Nat) : Prop :=
  ∀ s ∈ slabs, ∀ x, s.data ≤ x → x < s.dataEnd → ¬(ptr ≤ x ∧ x < ptr + size)

theorem FreeRange.tail {s : Rslab} {slabs : List Rslab} {ptr n size : Nat}
    (h : FreeRange (s :: slabs) ptr size) (hn : n ≤ size) : FreeRange slabs ptr n :=
  fun t ht x h1 h2 hx => h t (List.mem_cons_of_mem _ ht) x h1 h2 ⟨hx.1, by omega⟩

/-- Copying to a free range leaves the bytes of the slabs. -/
theorem FreeRange.sameBytes {slabs : List Rslab} {ptr size a n : Nat} {mem data : Nat → UInt8}
    (h : FreeRange slabs ptr size) (ha : ptr ≤ a) (hn : a + n ≤ ptr + size) :
    SameBytes slabs mem (fill mem a n data) :=
  fun s hs x h1 h2 => fill_of_not fun hx => h s hs x h1 h2 ⟨by omega, by omega⟩

/-- The last bytes of some, followed by more. -/
theorem drop_append_of_length {α : Type} (bytes more : List α) {n : Nat} (hn : n ≤ bytes.length) :
    (bytes ++ more).drop (bytes.length + more.length - (n + more.length)) =
      bytes.drop (bytes.length - n) ++ more := by
  rw [Nat.add_sub_add_right, List.drop_append_of_le_length (by omega)]

/-- The loop copies the last `offset` bytes of the slabs to `ptr`. -/
theorem joinLoop_bytes (ptr : Nat) (slabs : List Rslab) (offset : Nat) (mem : Nat → UInt8)
    (hle : offset ≤ usedOf slabs) (hfree : FreeRange slabs ptr offset) :
    ∃ mem', joinLoop ptr slabs offset mem = some mem' ∧
      (∀ x, ¬(ptr ≤ x ∧ x < ptr + offset) → mem' x = mem x) ∧
      read mem' ptr offset = (slabBytes mem slabs).drop (usedOf slabs - offset) := by
  induction slabs generalizing offset mem with
  | nil =>
      rw [usedOf_nil, Nat.le_zero] at hle
      subst hle
      exact ⟨mem, rfl, fun _ _ => rfl, rfl⟩
  | cons s slabs ih =>
      cases offset with
      | zero =>
          refine ⟨mem, rfl, fun _ _ => rfl, ?_⟩
          rw [read_zero, Nat.sub_zero, List.drop_of_length_le (by rw [slabBytes_length])]
      | succ offset =>
          rw [usedOf_cons] at hle
          unfold joinLoop
          by_cases hused : s.used ≤ offset + 1
          · -- the whole slab, and the rest of the bytes in front of it
            rw [if_pos hused]
            generalize hrest : offset + 1 - s.used = rest
            have hsum : ptr + (offset + 1) - s.used = ptr + rest := by omega
            rw [hsum]
            set mem₁ := fill mem (ptr + rest) s.used fun i => mem (s.data + i) with hmem₁
            have hfree₁ : FreeRange slabs ptr rest := hfree.tail (by omega)
            obtain ⟨mem', heq, hout, hbytes⟩ := ih rest mem₁ (by omega) hfree₁
            refine ⟨mem', heq, fun x hx => ?_, ?_⟩
            · rw [hout x (by omega), hmem₁, fill_of_not (by omega)]
            · have hsame : slabBytes mem₁ slabs = slabBytes mem slabs := by
                refine slabBytes_congr ?_
                have hfree' : FreeRange slabs ptr (offset + 1) := hfree.tail (Nat.le_refl _)
                exact hfree'.sameBytes (by omega) (by omega)
              have hlast : read mem' (ptr + rest) s.used = read mem s.data s.used := by
                calc read mem' (ptr + rest) s.used
                    = read mem₁ (ptr + rest) s.used := read_congr fun x h1 h2 => hout x (by omega)
                  _ = read mem s.data s.used := read_copy mem (ptr + rest) s.data s.used
              have hlen := slabBytes_length mem slabs
              rw [show offset + 1 = rest + s.used by omega, read_add, hbytes, hlast, hsame,
                slabBytes, usedOf_cons, Nat.add_comm s.used, ← hlen]
              have hdrop := drop_append_of_length (slabBytes mem slabs) (read mem s.data s.used)
                (n := rest) (by omega)
              rw [read_length] at hdrop
              exact hdrop.symm
          · -- the tail of the slab
            rw [if_neg hused]
            refine ⟨_, rfl, fun x hx => fill_of_not hx, ?_⟩
            have hlen := slabBytes_length mem slabs
            have hshift :
                s.data + s.used - (offset + 1) = s.data + (s.used - (offset + 1)) := by omega
            rw [hshift, ← copy, read_copy, slabBytes, usedOf_cons, List.drop_append,
              List.drop_of_length_le (by omega), List.nil_append, hlen,
              show s.used + usedOf slabs - (offset + 1) - usedOf slabs =
              s.used - (offset + 1) by omega,
              read_drop' mem s.data (by omega),
              show s.used - (s.used - (offset + 1)) = offset + 1 by omega]

/-! ## `region_join` -/

/-- The room that was reserved is behind the bytes in use. -/
theorem Region.Found.freeRange {r₁ : Region} {p : Nat} (hfound : r.Found r₁ size p) (h : r₁.Inv)
    (hsize : rslabSizeof + size < sizeMax) : FreeRange r.slabs p size := by
  obtain ⟨t, ht, hp, hroom⟩ := hfound.first
  have hroom := hroom hsize
  have htb := h.bounds t (List.mem_of_mem_head? ht)
  rw [Rslab.unused_eq htb] at hroom
  have hused := htb.used
  intro s hs x h1 h2 hx
  have hs₁ : s ∈ r₁.slabs := by
    rcases hfound.slabs with hsame | ⟨new, -, hnew⟩
    · rw [hsame]
      exact hs
    · rw [hnew]
      exact List.mem_cons_of_mem _ hs
  have hsb := (h.bounds s hs₁).used
  simp only [Rslab.dataEnd, Rslab.data] at h1 h2 hp
  by_cases heq : s = t
  · rw [heq] at h2
    omega
  · rcases h.apart.forall hs₁ (List.mem_of_mem_head? ht) heq with hlt | hlt <;> omega

/-- The newest slab has the last `size` bytes. -/
def Region.InNewest (r : Region) (size : Nat) : Prop := ∃ s, r.slabs.head? = some s ∧ size ≤ s.used

/-- The region `r'` is `r` with its last `size` bytes at `p`. -/
structure Region.Joined (r r' : Region) (size p : Nat) : Prop where
  bytes : read r'.mem p size = r.bytes.drop (r.bytes.length - size)
  /-- No byte of the region was modified. -/
  same : SameBytes r.slabs r.mem r'.mem
  in_place : r.InNewest size → regionUsed r' = regionUsed r
  moved : ¬r.InNewest size → regionUsed r' = regionUsed r + size

theorem Region.Inv.bytes_length (h : r.Inv) : r.bytes.length = r.used := by
  rw [Region.bytes, slabBytes_length, h.used]

/-- Counting a chunk changes neither the memory nor the other counters. -/
theorem Region.useFirst_eq {n : Nat} (h : r.useFirst n = some r') :
    r'.mem = r.mem ∧ r'.used = r.used + n := by
  unfold Region.useFirst at h
  split at h
  · cases h
  · obtain ⟨-, -, h⟩ := Option.bind_eq_some_iff.1 h
    cases h
    exact ⟨rfl, rfl⟩

theorem regionJoin_joined (hg : rslabSizeof ≤ g.order0Size) (h : r.Inv)
    (hans : r.Answer g size answer) (hpos : 0 < size) (hle : size ≤ r.used)
    (hres : r.reserved = false) (answer' : Option Nat) :
    (answer = none ∧ regionJoin g r size answer answer' = some (none, r)) ∨
    ∃ p r', regionJoin g r size answer answer' = some (some p, r') ∧ r.Joined r' size p := by
  have hne : r.slabs ≠ [] := by
    intro hnil
    have hused := h.used
    rw [hnil, usedOf_nil] at hused
    omega
  have hsize : rslabSizeof + size < sizeMax := by
    have := h.used_add_lt hne
    omega
  obtain ⟨s, slabs, hslabs⟩ := List.exists_cons_of_ne_nil hne
  have hhead : r.slabs.head? = some s := by rw [hslabs, List.head?_cons]
  have hnewest : r.InNewest size ↔ s.used ≥ size := by
    unfold Region.InNewest
    rw [hslabs]
    simp
  simp only [regionJoin, guard, hle, hres, hpos, if_true, Bool.false_eq_true,
    not_false_eq_true, pure, Option.bind_eq_bind, Option.bind_some, hhead]
  by_cases hone : s.used ≥ size
  · -- they are in the newest slab, and nothing moves
    right
    rw [if_pos hone]
    have hbytes :
        read r.mem (s.data + s.used - size) size = r.bytes.drop (r.bytes.length - size) := by
      have hlen := slabBytes_length r.mem slabs
      rw [h.bytes_length, h.used, Region.bytes, hslabs, slabBytes, usedOf_cons, List.drop_append,
        List.drop_of_length_le (by omega), List.nil_append, hlen,
        show s.used + usedOf slabs - size - usedOf slabs = s.used - size by omega,
        read_drop' r.mem s.data (by omega),
        show s.used - (s.used - size) = size by omega, Nat.add_sub_assoc hone]
    exact ⟨_, r, rfl, hbytes, fun _ _ _ _ _ => rfl, fun _ => rfl, fun hnot =>
      absurd (hnewest.2 hone) hnot⟩
  · rw [if_neg hone]
    rcases regionReserve_spec hg h.after_create hans hres with ⟨hnone, hreserve⟩
      | ⟨p, r₁, hreserve, hafter, hfound⟩
    · left
      rw [hreserve]
      exact ⟨hnone, rfl⟩
    · right
      have hfree := hfound.freeRange hafter.inv hsize
      have hlen := h.used
      obtain ⟨mem, hloop, hout, hbytes⟩ := joinLoop_bytes p r.slabs size r₁.mem (by omega) hfree
      rw [hfound.mem] at hloop hout hbytes
      obtain ⟨t, ht, -, hroom⟩ := hfound.first
      have hroom := hroom hsize
      -- the chunk is counted where it was reserved, so the second answer is not asked for
      obtain ⟨r₂, huse⟩ :=
        Region.useFirst_returns (r := { r₁ with reserved := true, mem := mem }) ht hroom
      obtain ⟨hmem, hused⟩ := Region.useFirst_eq huse
      have halloc : regionAlloc g { r₁ with reserved := true, mem := mem } size answer' =
          some (some t.dataEnd, r₂) := by
        rw [regionAlloc_in_first
          (r := { r₁ with reserved := true, mem := mem }) ht hroom hpos, huse, Option.map_some]
      refine ⟨p, r₂, ?_, ?_⟩
      · rw [hreserve]
        simp only [Option.bind_some]
        rw [hfound.mem, hloop, Option.bind_some, halloc]
        rfl
      · refine ⟨?_, ?_, fun hin => absurd (hnewest.1 hin) hone, fun _ => ?_⟩
        · rw [hmem, h.bytes_length, h.used]
          exact hbytes
        · intro s' hs' x h1 h2
          rw [hmem]
          exact hout x (hfree s' hs' x h1 h2)
        · rw [regionUsed, hused]
          exact congrArg (· + size) hfound.used

/-- **`region_join` returns the last bytes of the region**, in every state without an open
reservation, or `NULL` when there is no memory, and then nothing changed. -/
theorem region_join_exact (hg : rslabSizeof ≤ g.order0Size) (hr : (regionMachine g).Reachable r)
    (hres : r.reserved = false) (hpos : 0 < size) (hle : size ≤ regionUsed r)
    (hans : r.Answer g size answer) :
    (answer = none ∧ regionJoin g r size answer answer' = some (none, r)) ∨
    ∃ p r', regionJoin g r size answer answer' = some (some p, r') ∧ r.Joined r' size p :=
  regionJoin_joined hg (regionMachine_inv hg hr) hans hpos hle hres answer'

theorem twoChunkRegion_reachable : (regionMachine fourPages).Reachable twoChunkRegion := by
  have hone : (regionMachine fourPages).Reachable oneChunkRegion :=
    .step (.alloc 100 (some 16384)) (.init ⟨fun _ => 0, rfl⟩)
      (.intro (by decide) (by decide) (by decide) (by simp [regionCreate])) rfl
  exact .step (.alloc 5000 (some 32768)) hone
    (.intro (by decide) (by decide) (by decide) (by decide)) rfl

/-- The chunks of the two slabs, joined in a third one. -/
theorem region_join_exact_two_chunks :
    ∃ p r', regionJoin fourPages twoChunkRegion 5100 (some 65536) none = some (some p, r') ∧
      twoChunkRegion.Joined r' 5100 p ∧ regionUsed r' = 10200 := by
  have hans : twoChunkRegion.Answer fourPages 5100 (some 65536) :=
    .intro (by decide) (by decide) (by decide) (by decide)
  have hnewest : ¬ twoChunkRegion.InNewest 5100 := by
    rintro ⟨t, ht, hle⟩
    obtain rfl : _ = t := Option.some.inj ht
    exact absurd hle (by decide)
  rcases region_join_exact (by decide) twoChunkRegion_reachable rfl (by decide)
    (by decide) hans with ⟨hnone, -⟩ | ⟨p, r', heq, hjoined⟩
  · cases hnone
  · exact ⟨p, r', heq, hjoined, hjoined.moved hnewest⟩

/-- The last `size` bytes are in one slab, with no bytes in the slabs in front of it. -/
def Region.InOneSlab (r : Region) (size : Nat) : Prop :=
  ∃ Z s rest, r.slabs = Z ++ s :: rest ∧ (∀ z ∈ Z, z.used = 0) ∧ size ≤ s.used

/-- A chunk, and an empty slab from a reservation that was given up: the allocation after it found
no memory. -/
def emptyFirstRegion : Region where
  slabs := [{ addr := 32768, size := 4096, used := 0 },
    { addr := 16384, size := 4096, used := 4000 }]
  used := 4000
  total := 8192
  reserved := false
  mem := fun _ => 0
  gets := [32768, 16384]
  puts := []

theorem emptyFirstRegion_reachable : (regionMachine fourPages).Reachable emptyFirstRegion := by
  have hchunk : (regionMachine fourPages).Reachable
      { oneChunkRegion with
        slabs := [{ addr := 16384, size := 4096, used := 4000 }], used := 4000 } :=
    .step (.alloc 4000 (some 16384)) (.init ⟨fun _ => 0, rfl⟩)
      (.intro (by decide) (by decide) (by decide) (by simp [regionCreate])) rfl
  have hreserve : (regionMachine fourPages).Reachable { emptyFirstRegion with reserved := true } :=
    .step (.reserve 100 (some 32768)) hchunk
      (.intro (by decide) (by decide) (by decide) (by decide)) rfl
  exact .step (.alloc 10000 none) hreserve (fun _ h => by cases h) rfl

/-- The last 50 bytes are moved to the empty slab, although they are in one slab already. -/
theorem region_join_moves_from_one_slab :
    (regionMachine fourPages).Reachable emptyFirstRegion ∧ emptyFirstRegion.reserved = false ∧
      50 ≤ regionUsed emptyFirstRegion ∧ emptyFirstRegion.InOneSlab 50 ∧
      ∃ p r', regionJoin fourPages emptyFirstRegion 50 none none = some (some p, r') ∧
        regionUsed r' = regionUsed emptyFirstRegion + 50 :=
  ⟨emptyFirstRegion_reachable, rfl, by decide, ⟨[_], _, [], rfl, by decide, by decide⟩, 32824, _,
    rfl, rfl⟩

end SmallAllocators
