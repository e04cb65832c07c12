/-
SmallAllocators.Lsregion.Flush — what `lsregion_to_iovec` flushes.

Every chunk that was allocated is either flushed or not. For the slab with
id `i`, `fl i` are the chunks in it that were flushed and `un i` those that
were not; the savepoint tells them apart (`flushedIn`). The loop of
`lsregion_to_iovec` flushes the `un` chunks of a run of slabs from the
front of the list, and moves the savepoint so that it says so.
-/
import SmallAllocators.Lib.Memory
import SmallAllocators.Lsregion.Model

namespace SmallAllocators

open Memory

variable {β : Type} {mem : Nat → β} {prev svp : LsregionSvp} {slab : Lslab} {slabs : List Lslab}

/-- An allocated chunk, alignment padding included. -/
structure Chunk (β : Type) where
  id : Int
  bytes : List β

/-- The bytes of a sequence of chunks. -/
def bytesOf (cs : List (Chunk β)) : List β := cs.flatMap Chunk.bytes

@[simp] theorem bytesOf_nil : bytesOf ([] : List (Chunk β)) = [] := rfl

@[simp] theorem bytesOf_append (cs ds : List (Chunk β)) :
    bytesOf (cs ++ ds) = bytesOf cs ++ bytesOf ds := List.flatMap_append

/-- The id of the last chunk, or `other` if there is none. -/
def lastId (other : Int) (cs : List (Chunk β)) : Int := (cs.getLast?.map Chunk.id).getD other

@[simp] theorem lastId_nil (other : Int) : lastId other ([] : List (Chunk β)) = other := rfl

theorem lastId_append (other : Int) (cs ds : List (Chunk β)) :
    lastId other (cs ++ ds) = lastId (lastId other cs) ds := by
  rcases List.eq_nil_or_concat' ds with rfl | ⟨ds, d, rfl⟩
  · simp
  · simp [lastId, ← List.append_assoc]

theorem lastId_of_ne_nil {cs : List (Chunk β)} (h : cs ≠ []) (i j : Int) :
    lastId i cs = lastId j cs := by
  rcases List.eq_nil_or_concat' cs with rfl | ⟨cs, c, rfl⟩
  · exact absurd rfl h
  · simp [lastId]

/-- The bytes that an iovec points to. -/
def readIov (mem : Nat → β) (iov : List Iovec) : List β :=
  iov.flatMap fun v => read mem v.base v.len

/-- How many bytes of the slab are flushed, by the savepoint. -/
def flushedIn (svp : LsregionSvp) (slab : Lslab) : Nat :=
  if slab.slabId < svp.slabId then slab.slabUsed - lslabSizeof
  else if slab.slabId = svp.slabId then svp.pos
  else 0

theorem flushedIn_of_lt (h : slab.slabId < svp.slabId) :
    flushedIn svp slab = slab.slabUsed - lslabSizeof := by
  simp [flushedIn, h]

theorem flushedIn_of_eq (h : slab.slabId = svp.slabId) : flushedIn svp slab = svp.pos := by
  simp [flushedIn, h]

theorem flushedIn_of_gt (h : svp.slabId < slab.slabId) : flushedIn svp slab = 0 := by
  have h1 : ¬ slab.slabId < svp.slabId := by omega
  have h2 : slab.slabId ≠ svp.slabId := by omega
  simp [flushedIn, h1, h2]

/-- The slab holds the flushed chunks `fl` and then the chunks `un`. -/
structure Holds (mem : Nat → β) (svp : LsregionSvp) (slab : Lslab) (fl un : List (Chunk β)) :
    Prop where
  data : read mem (slab.addr + lslabSizeof) (slab.slabUsed - lslabSizeof) = bytesOf fl ++ bytesOf un
  flushed : (bytesOf fl).length = flushedIn svp slab
  maxId : slab.maxId = lastId lslabNotUsedId (fl ++ un)
  nonneg : ∀ c ∈ fl ++ un, 0 ≤ c.id
  nonempty : ∀ c ∈ fl ++ un, c.bytes ≠ []
  sizeof_le : lslabSizeof ≤ slab.slabUsed

namespace Holds

variable {fl un : List (Chunk β)}

theorem length_eq (h : Holds mem svp slab fl un) :
    slab.slabUsed - lslabSizeof = flushedIn svp slab + (bytesOf un).length := by
  have := congrArg List.length h.data
  rw [read_length, List.length_append, h.flushed] at this
  exact this

/-- A slab has no unflushed chunk exactly if the savepoint covers it. -/
theorem un_nil_iff (h : Holds mem svp slab fl un) :
    un = [] ↔ flushedIn svp slab = slab.slabUsed - lslabSizeof := by
  have hlen := h.length_eq
  constructor
  · rintro rfl
    simpa using hlen.symm
  · intro he
    cases un with
    | nil => rfl
    | cons c cs =>
        have hc : c.bytes ≠ [] := h.nonempty c (by simp)
        have := List.length_pos_of_ne_nil hc
        simp only [bytesOf, List.flatMap_cons, List.length_append] at hlen
        omega

/-- The unused slab is the one without chunks. -/
theorem notUsed_iff (h : Holds mem svp slab fl un) :
    slab.maxId = lslabNotUsedId ↔ fl ++ un = [] := by
  rw [h.maxId]
  rcases List.eq_nil_or_concat' (fl ++ un) with hcs | ⟨cs, c, hcs⟩
  · simp [hcs]
  · have hc := h.nonneg c (by rw [hcs]; simp)
    rw [hcs]
    simp [lastId, lslabNotUsedId]
    omega

/-- The bytes of the slab behind the flushed ones. -/
theorem read_un (h : Holds mem svp slab fl un) :
    read mem (slab.addr + lslabSizeof + flushedIn svp slab)
      (slab.slabUsed - lslabSizeof - flushedIn svp slab) = bytesOf un := by
  have hlen := h.length_eq
  have hdrop := read_drop mem (slab.addr + lslabSizeof) (flushedIn svp slab)
    (slab.slabUsed - lslabSizeof - flushedIn svp slab)
  rw [show flushedIn svp slab + (slab.slabUsed - lslabSizeof - flushedIn svp slab) =
    slab.slabUsed - lslabSizeof by omega, h.data, List.drop_left' h.flushed] at hdrop
  exact hdrop.symm

end Holds

/-! ## The loop -/

/-- The loop skips a slab exactly if the savepoint covers it. -/
theorem skip_iff (prev : LsregionSvp) (slab : Lslab) (hpos : 0 < slab.slabUsed - lslabSizeof) :
    (slab.slabId < prev.slabId ∨ slab.slabId = prev.slabId ∧
        slab.slabUsed - lslabSizeof = prev.pos) ↔
      flushedIn prev slab = slab.slabUsed - lslabSizeof := by
  by_cases hlt : slab.slabId < prev.slabId
  · simp [flushedIn_of_lt hlt, hlt]
  · by_cases heq : slab.slabId = prev.slabId
    · simp [flushedIn_of_eq heq, heq, eq_comm]
    · rw [flushedIn_of_gt (by omega)]
      simp [hlt, heq]
      omega

/-- The iovec for a slab that is not covered. -/
theorem slabIovec_spec {fl un : List (Chunk β)} (h : Holds mem prev slab fl un) (hun : un ≠ [])
    (hlt : ¬ slab.slabId < prev.slabId) :
    ∃ v, slabIovec prev slab = some v ∧ read mem v.base v.len = bytesOf un := by
  have hread := h.read_un
  have hne : flushedIn prev slab ≠ slab.slabUsed - lslabSizeof := mt h.un_nil_iff.mpr hun
  have hlen := h.length_eq
  by_cases heq : slab.slabId = prev.slabId
  · rw [flushedIn_of_eq heq] at hread hne hlen
    have hgt : slab.slabUsed - lslabSizeof > prev.pos := by omega
    refine ⟨{ base := slab.addr + lslabSizeof + prev.pos,
              len := slab.slabUsed - lslabSizeof - prev.pos }, ?_, hread⟩
    simp [slabIovec, heq, hgt]
  · rw [flushedIn_of_gt (by omega)] at hread
    exact ⟨{ base := slab.addr + lslabSizeof, len := slab.slabUsed - lslabSizeof },
      by simp [slabIovec, heq], by simpa using hread⟩

/-- What a run of the loop over the slabs `xs` achieves: it flushes the unflushed chunks of the
first slabs `ys`, and the savepoint then covers `ys` and says of the others what it said before. -/
structure Flushes (mem : Nat → β) (prev : LsregionSvp) (un : Int → List (Chunk β))
    (xs : List Lslab) (room : Nat) (svp : LsregionSvp) (maxAllocId : Int) (f : Flush)
    (ys zs : List Lslab) : Prop where
  split : xs = ys ++ zs
  bytes : readIov mem f.iov = bytesOf (ys.flatMap fun s => un s.slabId)
  covered : ∀ s ∈ ys, flushedIn f.svp s = s.slabUsed - lslabSizeof
  rest : ∀ s ∈ zs, flushedIn f.svp s = flushedIn prev s
  id : f.maxAllocId = lastId maxAllocId (ys.flatMap fun s => un s.slabId)
  whole : xs.length ≤ room → (zs.flatMap fun s => un s.slabId) = []
  savepoint : f.svp = svp ∨ ∃ s ∈ xs, f.svp.slabId = s.slabId
  count : f.iov.length ≤ room

/-- The loop stops without flushing any of the slabs that are left. -/
theorem Flushes.stop {un : Int → List (Chunk β)} {room : Nat} {maxAllocId : Int}
    (hsvp : ∀ s ∈ slabs, flushedIn svp s = flushedIn prev s)
    (hun : slabs.length ≤ room → (slabs.flatMap fun s => un s.slabId) = []) :
    Flushes mem prev un slabs room svp maxAllocId
      { iov := [], svp := svp, maxAllocId := maxAllocId } [] slabs where
  split := rfl
  bytes := rfl
  covered := by simp
  rest := hsvp
  id := rfl
  whole := hun
  savepoint := Or.inl rfl
  count := Nat.zero_le _

/-- The savepoint after the loop covers a slab that was covered before it. -/
theorem Flushes.covers {un : Int → List (Chunk β)} {room : Nat} {maxAllocId : Int} {f : Flush}
    {ys zs : List Lslab} (hf : Flushes mem prev un slabs room svp maxAllocId f ys zs)
    (hid : ∀ t ∈ slabs, slab.slabId < t.slabId)
    (hsvp : flushedIn svp slab = slab.slabUsed - lslabSizeof) :
    ∀ s ∈ slab :: ys, flushedIn f.svp s = s.slabUsed - lslabSizeof := by
  intro s hs
  rcases List.mem_cons.mp hs with rfl | hs
  · rcases hf.savepoint with he | ⟨t, ht, he⟩
    · rw [he, hsvp]
    · exact flushedIn_of_lt (he ▸ hid t ht)
  · exact hf.covered s hs

/-- The loop goes past a slab whose chunks are all flushed. -/
theorem Flushes.skip {un : Int → List (Chunk β)} {room : Nat} {maxAllocId : Int} {f : Flush}
    {ys zs : List Lslab} (hf : Flushes mem prev un slabs room svp maxAllocId f ys zs)
    (hid : ∀ t ∈ slabs, slab.slabId < t.slabId) (hun : un slab.slabId = [])
    (hskip : flushedIn svp slab = slab.slabUsed - lslabSizeof) :
    Flushes mem prev un (slab :: slabs) room svp maxAllocId f (slab :: ys) zs where
  split := by rw [hf.split]; rfl
  bytes := by simp [hun, hf.bytes]
  covered := hf.covers hid hskip
  rest := hf.rest
  id := by simp [hun, hf.id]
  whole hr := hf.whole (by simp at hr; omega)
  savepoint := by
    rcases hf.savepoint with he | ⟨t, ht, he⟩
    · exact Or.inl he
    · exact Or.inr ⟨t, by simp [ht], he⟩
  count := hf.count

/-- The loop flushes a slab. -/
theorem Flushes.flush {un : Int → List (Chunk β)} {fl : List (Chunk β)} {room : Nat}
    {maxAllocId : Int} {f : Flush} {ys zs : List Lslab} {v : Iovec}
    (hf : Flushes mem prev un slabs room
      { slabId := slab.slabId, pos := slab.slabUsed - lslabSizeof } slab.maxId f ys zs)
    (hid : ∀ t ∈ slabs, slab.slabId < t.slabId) (hslab : Holds mem prev slab fl (un slab.slabId))
    (hun : un slab.slabId ≠ []) (hread : read mem v.base v.len = bytesOf (un slab.slabId)) :
    Flushes mem prev un (slab :: slabs) (room + 1) svp maxAllocId { f with iov := v :: f.iov }
      (slab :: ys) zs where
  split := by rw [hf.split]; rfl
  bytes := by
    show read mem v.base v.len ++ readIov mem f.iov = _
    rw [hread, hf.bytes, List.flatMap_cons, bytesOf_append]
  covered := hf.covers hid (by simp [flushedIn])
  rest := hf.rest
  id := by
    show f.maxAllocId = _
    rw [List.flatMap_cons, lastId_append, hf.id, hslab.maxId, lastId_append]
    congr 1
    exact lastId_of_ne_nil hun _ _
  whole hr := hf.whole (by simpa using hr)
  savepoint := by
    rcases hf.savepoint with he | ⟨t, ht, he⟩
    · exact Or.inr ⟨slab, by simp, by rw [he]⟩
    · exact Or.inr ⟨t, by simp [ht], he⟩
  count := Nat.succ_le_succ hf.count

/-- A slab with chunks has bytes. -/
theorem Holds.used_pos {fl un : List (Chunk β)} (h : Holds mem prev slab fl un)
    (hnu : slab.maxId ≠ lslabNotUsedId) : 0 < slab.slabUsed - lslabSizeof := by
  have hne : fl ++ un ≠ [] := mt h.notUsed_iff.mpr hnu
  obtain ⟨c, cs, hcs⟩ := List.exists_cons_of_ne_nil hne
  have hc := List.length_pos_of_ne_nil (h.nonempty c (by rw [hcs]; simp))
  have hlen := congrArg List.length h.data
  rw [read_length, ← bytesOf_append, hcs] at hlen
  simp only [bytesOf, List.flatMap_cons, List.length_append] at hlen
  omega

theorem toIovecLoop_spec (fl un : Int → List (Chunk β)) (room : Nat) (svp : LsregionSvp)
    (maxAllocId : Int)
    (hids : slabs.Pairwise fun s t => s.slabId < t.slabId)
    (hholds : ∀ s ∈ slabs, Holds mem prev s (fl s.slabId) (un s.slabId))
    (hunused : ∀ s ∈ slabs.dropLast, s.maxId ≠ lslabNotUsedId)
    (hsvp : svp = prev ∨ ∀ s ∈ slabs, svp.slabId < s.slabId ∧ prev.slabId < s.slabId) :
    ∃ f ys zs, toIovecLoop prev slabs room svp maxAllocId = some f ∧
      Flushes mem prev un slabs room svp maxAllocId f ys zs := by
  -- the savepoint is the one before the call until the first slab is flushed; from then on every
  -- slab that is left is newer than both
  induction slabs generalizing room svp maxAllocId with
  | nil => exact ⟨_, _, _, rfl, Flushes.stop (by simp) (by simp)⟩
  | cons slab slabs ih =>
      obtain ⟨hid, hids'⟩ := List.pairwise_cons.mp hids
      have hslab := hholds slab (by simp)
      have hholds' : ∀ s ∈ slabs, Holds mem prev s (fl s.slabId) (un s.slabId) := fun s hs =>
        hholds s (by simp [hs])
      have hunused' : ∀ s ∈ slabs.dropLast, s.maxId ≠ lslabNotUsedId := by
        intro s hs
        refine hunused s ?_
        cases slabs with
        | nil => simp at hs
        | cons t ts => simp [hs]
      have hsame : ∀ s ∈ slab :: slabs, flushedIn svp s = flushedIn prev s := by
        intro s hs
        rcases hsvp with rfl | hgt
        · rfl
        · rw [flushedIn_of_gt (hgt s hs).1, flushedIn_of_gt (hgt s hs).2]
      by_cases hnu : slab.maxId = lslabNotUsedId
      · -- the unused slab is the last one, and has no chunks
        refine ⟨_, _, _, by rw [toIovecLoop, if_pos hnu], Flushes.stop hsame fun _ => ?_⟩
        have hlast : slabs = [] := by
          cases slabs with
          | nil => rfl
          | cons t ts => exact absurd hnu (hunused slab (by simp))
        have hnil := List.append_eq_nil_iff.mp (hslab.notUsed_iff.mp hnu)
        simp [hlast, hnil.2]
      · have hpos := hslab.used_pos hnu
        by_cases hskip : flushedIn prev slab = slab.slabUsed - lslabSizeof
        · have hun : un slab.slabId = [] := hslab.un_nil_iff.mpr hskip
          have hsvp' : svp = prev := by
            rcases hsvp with rfl | hgt
            · rfl
            · have hcode := (skip_iff prev slab hpos).mpr hskip
              have := (hgt slab (by simp)).2
              omega
          obtain ⟨f, ys, zs, heq, hf⟩ :=
            ih room svp maxAllocId hids' hholds' hunused' (Or.inl hsvp')
          refine ⟨f, slab :: ys, zs, ?_, hf.skip hid hun (by rw [hsvp', hskip])⟩
          rw [toIovecLoop, if_neg hnu, if_pos ((skip_iff prev slab hpos).mpr hskip), heq]
        · have hcode := mt (skip_iff prev slab hpos).mp hskip
          cases room with
          | zero =>
              refine ⟨_, _, _, by rw [toIovecLoop, if_neg hnu, if_neg hcode, if_pos rfl],
                Flushes.stop hsame ?_⟩
              simp
          | succ room =>
              have hun : un slab.slabId ≠ [] := mt hslab.un_nil_iff.mp hskip
              obtain ⟨v, hv, hread⟩ := slabIovec_spec hslab hun fun h => hcode (Or.inl h)
              have hgt : ∀ s ∈ slabs, slab.slabId < s.slabId ∧ prev.slabId < s.slabId := by
                intro s hs
                have := hid s hs
                constructor
                · exact this
                · have : ¬ slab.slabId < prev.slabId := fun h => hcode (Or.inl h)
                  omega
              obtain ⟨f, ys, zs, heq, hf⟩ := ih room
                { slabId := slab.slabId, pos := slab.slabUsed - lslabSizeof } slab.maxId
                hids' hholds'
                hunused' (Or.inr hgt)
              refine ⟨{ f with iov := v :: f.iov }, slab :: ys, zs, ?_,
                hf.flush hid hslab hun hread⟩
              rw [toIovecLoop, if_neg hnu, if_neg hcode, if_neg (Nat.succ_ne_zero room)]
              simp [hv, heq]

end SmallAllocators
