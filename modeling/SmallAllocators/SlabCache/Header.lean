/-
SmallAllocators.SlabCache.Header — headers that lie over each other.

`slab_get_large` adds the size of the header to the request, and nothing
checks that sum. Where it wraps around, the block from `malloc` is shorter
than the header, and what is written behind its end may lie in the header
of another such block. Here a large slab is taken with what its header does
to other headers; as long as no sum wraps around this is nothing, and the
counters of the cache are exact.

A header is six words: the two links of `next_in_cache`, the two of
`next_in_list`, the size, and one word for `magic`, `order` and `in_use`.
Headers start at multiples of eight, so that words lie over words.
-/
import SmallAllocators.SlabCache.Runs

namespace SmallAllocators

variable {g : Geometry} {head a size : Nat} {s s' : SlabState} {op : SlabOp}

/-! ## The words of a header -/

/-- The value of a link of `next_in_cache`; `head` is `&cache->allocated.slabs`. -/
def linkWord (head : Nat) : SlabNode → Nat
  | .slab a => a
  | _ => head

/-- The node that a value of such a link stands for. -/
def linkOfWord (head w : Nat) : SlabNode := if w = head then .allocated else .slab w

/-- What `slab_get_large` writes at `y`, to the header at `a`. It leaves `next_in_list` alone. -/
def SlabCache.headerWord (head : Nat) (c : SlabCache) (a y : Nat) : Option Nat :=
  if y = a then some (linkWord head (c.nextInCache.prev (.slab a)))
  else if y = a + 8 then some (linkWord head (c.nextInCache.next (.slab a)))
  else if y = a + 32 then some (c.slab a).size
  else if y = a + 40 then
    some ((c.slab a).magic + (c.slab a).order * 2 ^ 32 + (c.slab a).inUse * 2 ^ 40)
  else none

/-- The fields of a header at `x`, after the words `w` were written. -/
def Slab.overlaid (w : Nat → Option Nat) (x : Nat) (s : Slab) : Slab where
  size := (w (x + 32)).getD s.size
  magic := ((w (x + 40)).map fun v => v % 2 ^ 32).getD s.magic
  order := ((w (x + 40)).map fun v => v / 2 ^ 32 % 256).getD s.order
  inUse := ((w (x + 40)).map fun v => v / 2 ^ 40 % 256).getD s.inUse

/-- The headers that the one at `a` lies over, after it was written. The links of `next_in_list`
are those of the slab that starts 16 bytes before. -/
def SlabCache.overlay (head : Nat) (c : SlabCache) (a : Nat) : SlabCache :=
  let w := c.headerWord head a
  let hit : Nat → Bool := fun x => x ≠ a && a < x + slabSizeof && x < a + slabSizeof
  let write (i : Nat) (node : Nat → SlabNode) (f : SlabNode → SlabNode) : SlabNode → SlabNode :=
    fun n => match n with
      | .slab x => if hit x then ((w (x + i)).map node).getD (f n) else f n
      | n => f n
  { c with
    slab := fun x => if hit x then (c.slab x).overlaid w x else c.slab x
    nextInCache :=
      { prev := write 0 (linkOfWord head) c.nextInCache.prev
        next := write 8 (linkOfWord head) c.nextInCache.next }
    nextInList :=
      { prev := write 16 (fun v => .slab (v - 16)) c.nextInList.prev
        next := write 24 (fun v => .slab (v - 16)) c.nextInList.next } }

/-- Only headers within 48 bytes change. -/
theorem SlabCache.overlay_overwritten (head : Nat) (c : SlabCache) (a : Nat) :
    c.Overwritten (c.overlay head a)
      fun x => x ≠ a ∧ a < x + slabSizeof ∧ x < a + slabSizeof := by
  have hout : ∀ x, ¬ (x ≠ a ∧ a < x + slabSizeof ∧ x < a + slabSizeof) →
      (decide (x ≠ a) && decide (a < x + slabSizeof) && decide (x < a + slabSizeof)) = false := by
    intro x hx
    simpa [and_assoc] using hx
  refine ⟨fun x hx => ?_, fun n hn => ?_, fun n hn => ?_, rfl, rfl, rfl, rfl⟩
  · simp only [overlay, hout x hx, Bool.false_eq_true, if_false]
  · cases n with
    | slab x =>
        have hx := hout x (hn x rfl)
        constructor <;> simp only [overlay, hx, Bool.false_eq_true, if_false]
    | _ => exact ⟨rfl, rfl⟩
  · cases n with
    | slab x =>
        have hx := hout x (hn x rfl)
        constructor <;> simp only [overlay, hx, Bool.false_eq_true, if_false]
    | _ => exact ⟨rfl, rfl⟩

/-! ## The machine -/

/-- Where the call writes the header of a large slab. -/
def SlabOp.headerAt (g : Geometry) : SlabOp → Option Nat
  | .getLarge _ answer => answer
  | .get size answer =>
      if g.slabOrder ((size + slabSizeof) % sizeMax) = g.orderMax + 1 then answer else none
  | _ => none

def SlabOp.execHeader (g : Geometry) (head : Nat) (s : SlabState) (op : SlabOp) :
    Option SlabState := do
  let s ← op.exec g s
  match op.headerAt g with
  | some a => some { s with cache := s.cache.overlay head a }
  | none => some s

/-- The slab cache with its clients, in a memory where headers may lie over each other. -/
def headerMachine (g : Geometry) (head : Nat) : Machine SlabState SlabOp where
  init := (slabMachine g).init
  allowed := SlabOp.Allowed g
  exec := SlabOp.execHeader g head

/-- The size of a large slab can be represented together with its header. -/
def SlabOp.Fits : SlabOp → Prop
  | .getLarge size _ => size + slabSizeof < sizeMax
  | _ => True

/-! ## Blocks that hold their headers -/

/-- The invariant between two calls: large slabs are not shorter than their headers. -/
structure SlabState.Roomy (g : Geometry) (s : SlabState) : Prop where
  good : s.Good g
  large : ∀ a ∈ s.large g, slabSizeof ≤ (s.cache.slab a).size

/-- The slab that a call returns is not shorter than its header. -/
theorem SlabOp.Fits.header_le (hfits : op.Fits) (h0 : slabSizeof ≤ g.order0Size)
    (hsize : op.slabSize g = some size) : slabSizeof ≤ size := by
  cases op with
  | get n answer =>
      obtain rfl := Option.some.inj hsize
      exact Nat.le_trans h0 (g.order0Size_le_slabRealSize n)
  | getWithOrder order answer =>
      obtain rfl := Option.some.inj hsize
      rw [g.slabOrderSize_eq, Nat.pow_add, ← g.order0Size_eq]
      exact Nat.le_trans h0 (Nat.le_mul_of_pos_left _ (Nat.two_pow_pos order))
  | getLarge n answer =>
      rw [SlabOp.slabSize, Nat.mod_eq_of_lt hfits] at hsize
      obtain rfl := Option.some.inj hsize
      exact Nat.le_add_left _ _
  | _ => cases hsize

/-- A call keeps the blocks that hold their headers. -/
theorem SlabOp.Effect.roomy (he : op.Effect g s s') (hs : s.Roomy g) (hfits : op.Fits)
    (h0 : slabSizeof ≤ g.order0Size) : s'.Roomy g := by
  refine ⟨he.good, fun a ha => ?_⟩
  obtain ⟨hlive, horder⟩ := Finset.mem_filter.1 ha
  rcases he.slab a hlive with ⟨hold, hsame⟩ | hnew
  · rw [hsame] at horder ⊢
    exact hs.large a (Finset.mem_filter.2 ⟨hold, horder⟩)
  · exact hfits.header_le h0 hnew

/-- A client has the slab whose header a call writes. -/
theorem SlabOp.headerAt_live (hex : op.exec g s = some s') (ha : op.headerAt g = some a) :
    a ∈ s'.live := by
  cases op with
  | get size answer =>
      rw [SlabOp.headerAt] at ha
      split at ha
      · next horder =>
          subst ha
          obtain ⟨⟨r, c⟩, hget, hex⟩ := Option.bind_eq_some_iff.1 hex
          obtain rfl := Option.some.inj hex
          rw [slabGet_eq, if_pos horder, Option.bind_some] at hget
          simp only [slabGetLarge] at hget
          obtain ⟨u, -, hget⟩ := Option.bind_eq_some_iff.1 hget
          cases hget
          simp [SlabState.obtain]
      · cases ha
  | getLarge size answer =>
      rw [SlabOp.headerAt] at ha
      subst ha
      obtain rfl := Option.some.inj hex
      simp [SlabState.obtain]
  | _ => cases ha

/-- A header in a block that holds it lies over no other header. -/
theorem SlabState.Roomy.overlay (hs : s.Roomy g) (h0 : slabSizeof ≤ g.order0Size)
    (ha : a ∈ s.live) : SlabState.Roomy g { s with cache := s.cache.overlay head a } := by
  obtain ⟨⟨G, h, hl⟩, hlarge⟩ := hs
  have hlarge_eq : s.large g = G.large := by rw [← h.large_eq, hl]
  rw [hlarge_eq] at hlarge
  have hover := s.cache.overlay_overwritten head a
  have hlong : ∀ x ∈ G.tiles, slabSizeof ≤ (s.cache.slab x).size := by
    intro x hx
    rw [h.tiles.size x hx, SlabCache.exp, Nat.pow_add, ← g.order0Size_eq]
    exact Nat.le_trans h0 (Nat.le_mul_of_pos_left _ (Nat.two_pow_pos _))
  -- two headers of which one starts in the other
  have hapart : ∀ x y, x ∈ G.tiles ∨ x ∈ G.large → y ∈ G.tiles ∨ y ∈ G.large →
      ¬ (x < y ∧ y < x + slabSizeof) := by
    rintro x y hx hy ⟨h1, h2⟩
    obtain ⟨hyt, hyl⟩ : y ∉ G.tiles ∧ y ∉ G.large := by
      rcases hx with hx | hx
      · exact h.not_inside hx h1 (Nat.lt_of_lt_of_le h2 (Nat.add_le_add_left (hlong x hx) x))
      · exact h.not_inside_large hx h1 (Nat.lt_of_lt_of_le h2 (Nat.add_le_add_left (hlarge x hx) x))
    exact hy.elim hyt hyl
  have haG : a ∈ G.tiles ∨ a ∈ G.large := ((h.live a).1 (hl ▸ ha)).imp_left And.left
  have hout : ∀ x, (x ≠ a ∧ a < x + slabSizeof ∧ x < a + slabSizeof) →
      x ∉ G.tiles ∧ x ∉ G.large := by
    rintro x ⟨hne, h1, h2⟩
    rw [← not_or]
    intro hx
    rcases Nat.lt_or_gt_of_ne hne with hlt | hgt
    · exact hapart x a hx haG ⟨hlt, h1⟩
    · exact hapart a x haG hx ⟨hgt, h2⟩
  refine ⟨⟨G, h.overwrite hover hout, hl⟩, fun x hx => ?_⟩
  obtain ⟨hlive, horder⟩ := Finset.mem_filter.1 hx
  have hsame : (s.cache.overlay head a).slab x = s.cache.slab x := by
    refine hover.slab x fun hin => ?_
    exact ((h.live x).1 (hl ▸ hlive)).elim (fun hxt => (hout x hin).1 hxt.1) (hout x hin).2
  change slabSizeof ≤ ((s.cache.overlay head a).slab x).size
  change ((s.cache.overlay head a).slab x).order = g.orderMax + 1 at horder
  rw [hsame] at horder ⊢
  exact hlarge x (hlarge_eq ▸ Finset.mem_filter.2 ⟨hlive, horder⟩)

/-- A call that fits returns, and keeps the blocks that hold their headers. -/
theorem SlabOp.execHeader_roomy (h0 : slabSizeof ≤ g.order0Size) (hs : s.Roomy g) (op : SlabOp)
    (hop : op.Allowed g s) (hfits : op.Fits) :
    ∃ s', op.execHeader g head s = some s' ∧ s'.Roomy g := by
  obtain ⟨s₁, hex, heffect⟩ := SlabOp.exec_effect hs.good op hop
  have hroomy := heffect.roomy hs hfits h0
  cases ha : op.headerAt g with
  | none => exact ⟨s₁, by simp [SlabOp.execHeader, hex, ha], hroomy⟩
  | some a =>
      refine ⟨{ s₁ with cache := s₁.cache.overlay head a }, by
        simp [SlabOp.execHeader, hex, ha], ?_⟩
      exact hroomy.overlay h0 (SlabOp.headerAt_live hex ha)

/-- **The counters are exact**, so that `slab_cache_check` never aborts, in every run in which the
size of each large slab can be represented together with its header. -/
theorem slab_cache_stats_exact (h0 : 256 ≤ g.order0Size)
    (hs : ((headerMachine g head).restrict SlabOp.Fits).Reachable s) : s.Counted g := by
  have hlong : slabSizeof ≤ g.order0Size := Nat.le_trans (by decide) h0
  refine SlabState.Good.counted (SlabState.Roomy.good ?_) h0
  refine (Machine.invariant ((headerMachine g head).restrict SlabOp.Fits) ?_ ?_ hs).1
  · rintro _ ⟨slab, inCache, inList, rfl⟩
    exact ⟨slabCacheCreate_good g slab inCache inList, by simp [SlabState.large]⟩
  · exact fun s op hroomy hop => SlabOp.execHeader_roomy hlong hroomy op hop.1 hop.2

/-! ## Deciding what is allowed -/

/-- Whether `n` bytes at `a` are apart from the arena slabs and the large slabs. -/
def SlabState.isFresh (g : Geometry) (s : SlabState) (n a : Nat) : Bool :=
  decide (∀ m ∈ s.cache.mapped, a + n ≤ m ∨ m + 2 ^ g.top ≤ a) &&
    decide (∀ b ∈ s.large g, a + n ≤ b ∨ b + max (s.cache.slab b).size 1 ≤ a)

/-- Whether a call is allowed. -/
def SlabOp.check (g : Geometry) (s : SlabState) : SlabOp → Bool
  | .getWithOrder order answer =>
      decide (order ≤ g.orderMax) &&
        answer.all fun m => decide (g.slabSize ∣ m) && s.isFresh g (2 ^ g.top) m
  | .getLarge size answer =>
      answer.all fun a => s.isFresh g (max ((size + slabSizeof) % sizeMax) 1) a
  | .put a => decide (a ∈ s.live)
  | _ => false

theorem SlabState.isFresh_spec {n : Nat} (h : s.isFresh g n a = true) :
    (∀ x, a ≤ x → x < a + n → ∀ m ∈ s.cache.mapped, ¬ Blocks.InBlock g.top m x) ∧
      ∀ x, a ≤ x → x < a + n → ∀ b ∈ s.large g, ¬ s.cache.InLarge b x := by
  obtain ⟨hmapped, hlarge⟩ := Bool.and_eq_true_iff.1 h
  constructor
  · rintro x h1 h2 m hm ⟨h3, h4⟩
    have := of_decide_eq_true hmapped m hm
    omega
  · rintro x h1 h2 b hb ⟨h3, h4⟩
    have := of_decide_eq_true hlarge b hb
    omega

theorem SlabOp.check_allowed (s : SlabState) (op : SlabOp) (h : op.check g s = true) :
    op.Allowed g s := by
  cases op with
  | getWithOrder order answer =>
      obtain ⟨horder, hanswer⟩ := Bool.and_eq_true_iff.1 h
      refine ⟨of_decide_eq_true horder, ?_⟩
      rintro m rfl
      obtain ⟨hdvd, hfresh⟩ := Bool.and_eq_true_iff.1 hanswer
      obtain ⟨hmapped, hlarge⟩ := SlabState.isFresh_spec hfresh
      refine ⟨of_decide_eq_true hdvd, fun r hr x hx => hmapped x hx.1 hx.2 r hr, ?_⟩
      exact fun b hb x hbx hx => hlarge x hx.1 hx.2 b hb hbx
  | getLarge size answer =>
      rintro b rfl
      obtain ⟨hmapped, hlarge⟩ := SlabState.isFresh_spec h
      exact ⟨hmapped, hlarge⟩
  | put b => exact (decide_eq_true_iff (p := b ∈ s.live)).1 h
  | _ => cases h

/-- Whether a call fits. -/
def SlabOp.fitsCheck : SlabOp → Bool
  | .getLarge size _ => decide (size + slabSizeof < sizeMax)
  | _ => true

theorem SlabOp.fitsCheck_fits (op : SlabOp) (h : op.fitsCheck = true) : op.Fits := by
  cases op with
  | getLarge size answer => exact (decide_eq_true_iff (p := size + slabSizeof < sizeMax)).1 h
  | _ => trivial

theorem fourPagesStart_init : (slabMachine fourPages).init fourPagesStart := ⟨_, _, _, rfl⟩

/-- A page that goes back, two pages of the same arena slab, and a large slab. -/
def pagesAndBlock : List SlabOp :=
  [.getWithOrder 0 (some 16384), .getLarge 20000 (some 65536), .getWithOrder 1 none, .put 16384]

theorem slab_cache_stats_exact_two_pages :
    ∃ s, ((headerMachine fourPages 4096).restrict SlabOp.Fits).Reachable s ∧
      s.live = {24576, 65536} ∧ s.cache.allocated.used = 28240 ∧ s.Counted fourPages := by
  have hrun : ((((headerMachine fourPages 4096).restrict SlabOp.Fits).run
      (fun s op => op.check fourPages s && op.fitsCheck)) pagesAndBlock fourPagesStart).map
      (fun s => (s.live, s.cache.allocated.used)) = some ({24576, 65536}, 28240) := by
      decide +kernel
  obtain ⟨s, hs, hfields⟩ := Option.map_eq_some_iff.1 hrun
  obtain ⟨hlive, hused⟩ := Prod.mk.inj hfields
  have hreach : ((headerMachine fourPages 4096).restrict SlabOp.Fits).Reachable s := by
    refine Machine.Reachable.run _ (fun s op hop => ?_) pagesAndBlock (.init fourPagesStart_init) hs
    obtain ⟨hcheck, hfits⟩ := Bool.and_eq_true_iff.1 hop
    exact ⟨SlabOp.check_allowed s op hcheck, op.fitsCheck_fits hfits⟩
  exact ⟨s, hreach, hlive, hused, slab_cache_stats_exact (by decide) hreach⟩

/-- Two requests of all but 32 bytes of the address space get blocks of 16 bytes, 32 bytes apart. -/
def shortBlocks : List SlabOp :=
  [.getLarge (2 ^ 64 - 32) (some 65536), .getLarge (2 ^ 64 - 32) (some 65568)]

/-- The links of the second header lie over the size and the magic of the first one:
`slab_cache_check` aborts. -/
theorem slab_cache_check_aborts :
    ∃ s, (headerMachine fourPages 4096).Reachable s ∧ s.live = {65536, 65568} ∧
      slabCacheCheck fourPages s.cache 3 = some false ∧ ¬ s.Counted fourPages := by
  have hrun : ((headerMachine fourPages 4096).run (fun s op => op.check fourPages s) shortBlocks
      fourPagesStart).map (fun s => (s.live, s.cache.allocated.used, (s.cache.slab 65536).size,
        (s.cache.slab 65568).size, slabCacheCheck fourPages s.cache 3))
      = some ({65536, 65568}, 32, 4096, 16, some false) := by decide +kernel
  obtain ⟨s, hs, hfields⟩ := Option.map_eq_some_iff.1 hrun
  simp only [Prod.mk.injEq] at hfields
  obtain ⟨hlive, hused, hfirst, hsecond, hcheck⟩ := hfields
  have hreach : (headerMachine fourPages 4096).Reachable s :=
    Machine.Reachable.run _ (fun s op hop => SlabOp.check_allowed s op hop) shortBlocks
      (.init fourPagesStart_init) hs
  refine ⟨s, hreach, hlive, hcheck, fun hcounted => ?_⟩
  have hsum := hcounted.used
  rw [hused, hlive, Finset.sum_pair (by decide), hfirst, hsecond] at hsum
  cases hsum

end SmallAllocators
