/-
  Subject:   THE REPRESENTATION INVARIANT OF THE KERNEL HEAP, and that every operation keeps it.

  * `HeapOk` -- blocks tile the heap, their tags stand in memory, the free list holds exactly the
    free ones, no two free ones are neighbours, the statistics are right;
  * `Hole` -- the same with one stretch of memory taken out. Both allocating and freeing take a
    block out (`HeapShape.takeFree`, `HeapShape.takeUsed`), change the stretch (`Hole.within`, `Hole.split`, `Hole.growRight`,
    `Hole.growLeft`) and put a block back (`Hole.fillUsed`, `Hole.fillFree`);
  * `allocFromFreeList_spec`, `freeToFreeList_spec`, `init_heapOk` -- the functions of the code.
-/
import Mathlib.Data.List.Chain
import Zigk.Mm.HeapBlocks

namespace Zigk.Mm

open Function List Block Heap Within

/-- Of two neighbours one is allocated. -/
def Coalesced (b c : Block) : Prop := b.used = true ∨ c.used = true

/-- All of the invariant but the statistics, which the code brings up to date at another time. -/
structure HeapShape (h : Heap) (bs : List Block) (fl : List Nat) : Prop extends Books h bs fl where
  tiles : Tiles addr size h.heapStart bs h.heapEnd
  apart : bs.IsChain Coalesced
  below : h.heapEnd < 2 ^ 64
  initialized : h.initialized = true

structure HeapOk (h : Heap) (bs : List Block) (fl : List Nat) : Prop extends HeapShape h bs fl where
  bytes : h.allocatedBytes = ((payloads bs).map Slice.len).sum
  allocs : h.allocationCount = (payloads bs).length

/-- The heap without the memory from `lo` to `hi`; `pre` lies before it and `post` behind. -/
structure Hole (h : Heap) (pre post : List Block) (lo hi : Nat) (fl : List Nat) : Prop
    extends Books h (pre ++ post) fl where
  before : Tiles addr size h.heapStart pre lo
  after : Tiles addr size hi post h.heapEnd
  apartPre : pre.IsChain Coalesced
  apartPost : post.IsChain Coalesced
  pos : 0 < lo
  aligned : lo % ALIGNMENT = 0
  alignedHi : hi % ALIGNMENT = 0
  width : lo + MIN_BLOCK_SIZE ≤ hi
  below : h.heapEnd < 2 ^ 64
  initialized : h.initialized = true

/-! ## 1. Neighbours -/

section Chains

variable {b : Block} {pre post : List Block}

theorem coalesced_middle : (pre ++ b :: post).IsChain Coalesced ↔
    pre.IsChain Coalesced ∧ post.IsChain Coalesced ∧
      (∀ x ∈ pre.getLast?, Coalesced x b) ∧ ∀ y ∈ post.head?, Coalesced b y := by
  rw [isChain_append, isChain_cons]
  constructor
  · rintro ⟨h₁, ⟨hb, h₂⟩, h₃⟩
    exact ⟨h₁, h₂, fun x hx => h₃ x hx b rfl, hb⟩
  · rintro ⟨h₁, h₂, hx, hb⟩
    refine ⟨h₁, ⟨hb, h₂⟩, fun x hm y hy => ?_⟩
    cases hy
    exact hx x hm

end Chains

/-! ## 2. Taking a block out, and putting one back -/

section Hole

variable {h h' : Heap} {bs pre post : List Block} {fl : List Nat} {b : Block} {lo hi mid : Nat}

/-- The statistics are no part of the shape. -/
theorem HeapShape.stats (hok : HeapShape h bs fl) (n m : Nat) :
    HeapShape { h with allocatedBytes := n, allocationCount := m } bs fl := by
  obtain ⟨⟨hf, ht, ⟨L, hs, hl⟩, hfree, hcount⟩, htiles, hapart, hbelow, hinit⟩ := hok
  exact ⟨⟨hf, ht, ⟨L, ⟨hs.head, hs.next, hs.prev⟩, hl⟩, hfree, hcount⟩, htiles, hapart, hbelow, hinit⟩

/-- A heap whose blocks are those before, one and those behind. -/
theorem HeapShape.hole (hok : HeapShape h (pre ++ b :: post) fl) (hb : Books h' (pre ++ post) fl')
    (ho : h'.heapStart = h.heapStart ∧ h'.heapEnd = h.heapEnd ∧ h'.initialized = h.initialized) :
    Hole h' pre post b.addr b.stop fl' := by
  have hfit := hok.fits b (by simp)
  obtain ⟨h₁, h₂⟩ := tiles_middle.mp hok.tiles
  obtain ⟨ha₁, ha₂, -, -⟩ := coalesced_middle.mp hok.apart
  have hal := hfit.aligned
  have hsz := hfit.size_aligned
  refine ⟨hb, ho.1 ▸ h₁, ho.2.1 ▸ h₂, ha₁, ha₂, hfit.pos, hal, ?_, Nat.add_le_add_left hfit.size_ge _,
    ho.2.1 ▸ hok.below, ho.2.2.trans hok.initialized⟩
  simp only [ALIGNMENT, stop] at hal hsz ⊢
  omega

/-- **A free block is taken out of the list.** -/
theorem HeapShape.takeFree (hok : HeapShape h (pre ++ b :: post) fl) (hu : b.used = false) :
    Hole (h.removeFromFreeList b.addr) pre post b.addr b.stop (fl.erase b.addr) ∧
      ListOnly h (h.removeFromFreeList b.addr) := by
  obtain ⟨hb, ho⟩ := (hok.toBooks.perm perm_middle).remove hu
  exact ⟨hok.hole hb ⟨ho.heapStart, ho.heapEnd, ho.initialized⟩, ho⟩

/-- **An allocated block is taken out.** -/
theorem HeapShape.takeUsed (hok : HeapShape h (pre ++ b :: post) fl) (hu : b.used = true) :
    Hole h pre post b.addr b.stop fl :=
  hok.hole ((hok.toBooks.perm perm_middle).forget hu) ⟨rfl, rfl, rfl⟩

/-- The blocks beside the hole. -/
theorem Hole.outside (hh : Hole h pre post lo hi fl) {x : Block} (hx : x ∈ pre ++ post) :
    x.stop ≤ lo ∨ hi ≤ x.addr := by
  rcases mem_append.mp hx with hx | hx
  · exact .inl (hh.before.inside hx).2
  · exact .inr (hh.after.inside hx).1

theorem Block.Own.inside {w : Nat} (hw : b.Own w) (hf : b.Fits) : b.addr ≤ w ∧ w < b.stop := by
  have hge := hf.size_ge
  simp only [MIN_BLOCK_SIZE] at hge
  simp only [Block.Own, stop, FOOTER_SIZE] at hw ⊢
  omega

/-- **What happens in the hole does not touch the rest.** -/
theorem Hole.within (hh : Hole h pre post lo hi fl) (hw : Within lo hi h h') :
    Hole h' pre post lo hi fl := by
  have hs : h'.heapStart = h.heapStart := by rw [hw.same]
  have he : h'.heapEnd = h.heapEnd := by rw [hw.same]
  have hi : h'.initialized = h.initialized := by rw [hw.same]
  refine ⟨hh.toBooks.within hw fun x hx w hown => ?_, hs ▸ hh.before, he ▸ hh.after, hh.apartPre,
    hh.apartPost, hh.pos, hh.aligned, hh.alignedHi, hh.width, he ▸ hh.below, hi.trans hh.initialized⟩
  have hin := hown.inside (hh.fits x hx)
  have := hh.outside hx
  omega

/-- The block that fills the hole. -/
def filling (lo hi : Nat) (used : Bool) : Block := ⟨lo, hi - lo, used⟩

theorem Hole.fits_filling (hh : Hole h pre post lo hi fl) (used : Bool) :
    (filling lo hi used).Fits := by
  have hal := hh.aligned
  have hhi := hh.alignedHi
  have hwidth := hh.width
  refine ⟨hh.pos, hal, ?_, ?_⟩ <;> simp only [filling, ALIGNMENT, MIN_BLOCK_SIZE] at * <;> omega

theorem Hole.tiles_filling (hh : Hole h pre post lo hi fl) (used : Bool) :
    Tiles addr size h.heapStart (pre ++ filling lo hi used :: post) h.heapEnd := by
  have hwidth := hh.width
  refine tiles_middle.mpr ⟨hh.before, ?_⟩
  show Tiles addr size (lo + (hi - lo)) post h.heapEnd
  rw [Nat.add_sub_cancel' (by omega)]
  exact hh.after

theorem payloads_middle_used (hu : b.used = true) :
    (payloads (pre ++ b :: post)).Perm (b.payload :: payloads (pre ++ post)) := by
  rw [← payloads_cons_used hu]
  exact payloads_perm perm_middle

theorem payloads_middle_free (hu : b.used = false) :
    payloads (pre ++ b :: post) = payloads (pre ++ post) := by
  simp [payloads, hu]

/-- **The hole is filled with an allocated block.** -/
theorem Hole.fillUsed (hh : Hole h pre post lo hi fl)
    (ht : Tagged h.mem h.heapCanary (filling lo hi true)) :
    HeapShape h (pre ++ filling lo hi true :: post) fl where
  toBooks := (hh.toBooks.add (hh.fits_filling true) ht rfl).perm perm_middle.symm
  tiles := hh.tiles_filling true
  apart := coalesced_middle.mpr
    ⟨hh.apartPre, hh.apartPost, fun _ _ => .inr rfl, fun _ _ => .inl rfl⟩
  below := hh.below
  initialized := hh.initialized

/-- **The hole is filled with a free block**, between allocated neighbours. -/
theorem Hole.fillFree (hh : Hole h pre post lo hi fl)
    (ht : Tagged h.mem h.heapCanary (filling lo hi false))
    (hpre : ∀ x ∈ pre.getLast?, x.used = true) (hpost : ∀ y ∈ post.head?, y.used = true) :
    HeapShape (h.addToFreeList lo) (pre ++ filling lo hi false :: post) (lo :: fl) ∧
      ListOnly h (h.addToFreeList lo) := by
  have hnew : lo ∉ fl := by
    intro hm
    obtain ⟨-, -, x, hx, -, hxlo⟩ := hh.free_fits hm
    have hge := (hh.fits x hx).size_ge
    have hout := hh.outside hx
    have hwidth := hh.width
    simp only [stop, MIN_BLOCK_SIZE] at hout hge hwidth
    omega
  obtain ⟨hb, ho⟩ := hh.toBooks.addFree (hh.fits_filling false) ht rfl hnew
  have htiles := hh.tiles_filling false
  rw [← ho.heapStart, ← ho.heapEnd] at htiles
  exact ⟨⟨hb.perm perm_middle.symm, htiles,
    coalesced_middle.mpr ⟨hh.apartPre, hh.apartPost, fun x hx => .inl (hpre x hx),
      fun y hy => .inr (hpost y hy)⟩, ho.heapEnd ▸ hh.below, ho.initialized.trans hh.initialized⟩, ho⟩

/-- **An allocated block at the front of the hole**: the hole is what is left behind it. -/
theorem Hole.split (hh : Hole h pre post lo hi fl)
    (ht : Tagged h.mem h.heapCanary (filling lo mid true)) (hmid : mid % ALIGNMENT = 0)
    (hlo : lo + MIN_BLOCK_SIZE ≤ mid) (hhi : mid + MIN_BLOCK_SIZE ≤ hi) :
    Hole h (pre ++ [filling lo mid true]) post mid hi fl := by
  have hal := hh.aligned
  have hf : (filling lo mid true).Fits := by
    refine ⟨hh.pos, hal, ?_, ?_⟩ <;> simp only [filling, ALIGNMENT, MIN_BLOCK_SIZE] at * <;> omega
  have hperm : (pre ++ filling lo mid true :: post).Perm (filling lo mid true :: (pre ++ post)) :=
    perm_middle
  have hb := (hh.toBooks.add hf ht rfl).perm hperm.symm
  refine ⟨by simpa using hb, ?_, hh.after, ?_, hh.apartPost,
    Nat.lt_of_lt_of_le hh.pos (by omega), hmid, hh.alignedHi, hhi, hh.below, hh.initialized⟩
  · refine tiles_middle.mpr ⟨hh.before, ?_⟩
    show lo + (mid - lo) = mid
    omega
  · exact coalesced_middle.mpr ⟨hh.apartPre, .nil, fun _ _ => .inr rfl, fun _ hy => (nomatch hy)⟩

/-- **The hole grows over a free neighbour behind it.** -/
theorem Hole.growRight (hh : Hole h pre (b :: post) lo hi fl) (hu : b.used = false) :
    Hole (h.removeFromFreeList b.addr) pre post lo b.stop (fl.erase b.addr) ∧
      ListOnly h (h.removeFromFreeList b.addr) ∧ b.addr = hi := by
  obtain ⟨hb, ho⟩ := (hh.toBooks.perm perm_middle).remove hu
  have hf := hh.fits b (by simp)
  obtain ⟨haddr, hafter⟩ := hh.after
  have hal := hf.aligned
  have hsz := hf.size_aligned
  have hwidth := hh.width
  refine ⟨⟨hb, ho.heapStart ▸ hh.before, ?_, hh.apartPre, (isChain_cons.mp hh.apartPost).2,
    hh.pos, hh.aligned, ?_, ?_, ho.heapEnd ▸ hh.below, ho.initialized.trans hh.initialized⟩, ho, haddr⟩
  · rw [ho.heapEnd, stop, haddr]
    exact hafter
  · simp only [ALIGNMENT, stop] at hal hsz ⊢
    omega
  · rw [stop, haddr]
    exact Nat.le_trans hwidth (Nat.le_add_right _ _)

/-- **The hole grows over a free neighbour before it.** -/
theorem Hole.growLeft (hh : Hole h (pre ++ [b]) post lo hi fl) (hu : b.used = false) :
    Hole (h.removeFromFreeList b.addr) pre post b.addr hi (fl.erase b.addr) ∧
      ListOnly h (h.removeFromFreeList b.addr) ∧ b.stop = lo := by
  have hbooks : Books h (pre ++ b :: post) fl := by simpa using hh.toBooks
  obtain ⟨hb, ho⟩ := (hbooks.perm perm_middle).remove hu
  have hf := hbooks.fits b (by simp)
  obtain ⟨hbefore, hstop⟩ := tiles_middle.mp hh.before
  have hstop' : b.stop = lo := hstop
  have hwidth := hh.width
  refine ⟨⟨hb, ho.heapStart ▸ hbefore, ho.heapEnd ▸ hh.after, (coalesced_middle.mp hh.apartPre).1,
    hh.apartPost, hf.pos, hf.aligned, hh.alignedHi, ?_, ho.heapEnd ▸ hh.below,
    ho.initialized.trans hh.initialized⟩, ho, hstop'⟩
  have hge := hf.size_ge
  simp only [stop] at hstop'
  omega

end Hole

/-! ## 3. Writing the tags -/

section Tagging

variable {h k : Heap} {b : Block}

/-- The size word after the two writes that the code makes to it. -/
theorem setSize_setAllocated_mem {a size : Nat} (hs : size % 2 = 0) (u : Bool) :
    ((h.setSize a size).setAllocated a u).mem a = size + u.toNat := by
  simp only [Heap.setAllocated, Heap.setSize, Heap.store, update_self]
  cases u
  · simp only [Bool.false_eq_true, if_false, Bool.toNat_false]
    omega
  · simp only [if_true, Bool.toNat_true]
    omega

theorem getFooter_of_head (hf : b.Fits) (hhead : k.mem b.addr = b.size + b.used.toNat) :
    k.getFooter b.addr = b.stop - FOOTER_SIZE := by
  have hs := hf.size_aligned
  simp only [ALIGNMENT] at hs
  have hsize : k.getSize b.addr = b.size := by
    rw [getSize, hhead]
    cases b.used <;> simp only [Bool.toNat_true, Bool.toNat_false] <;> omega
  rw [getFooter, hsize, stop]

/-- **The footer completes the tags**, once the header is written. -/
theorem tagged_setFooter (hf : b.Fits) (hhead : k.mem b.addr = b.size + b.used.toNat)
    (hmagic : k.magic b.addr = ALLOCATOR_MAGIC) :
    Tagged (k.setFooter (k.getFooter b.addr) b.size).mem k.heapCanary b ∧
      Within b.addr b.stop k (k.setFooter (k.getFooter b.addr) b.size) := by
  have hge := hf.size_ge
  simp only [MIN_BLOCK_SIZE] at hge
  rw [getFooter_of_head hf hhead]
  unfold Heap.magic at hmagic
  unfold Heap.setFooter
  constructor
  · constructor
    · simp only [Heap.store, Block.stop, FOOTER_SIZE]
      rw [update_of_ne (by omega), update_of_ne (by omega), hhead]
    · simp only [Heap.store, Block.stop, FOOTER_SIZE]
      rw [update_of_ne (by omega), update_of_ne (by omega), hmagic]
    · simp only [Heap.store, Block.stop, FOOTER_SIZE]
      rw [update_of_ne (by omega), update_self]
    · exact update_self _ _ _
  · refine (Within.store b.size ?_ ?_).trans (Within.store _ ?_ ?_) <;>
      simp only [Block.stop, FOOTER_SIZE] <;> omega

end Tagging

/-! ## 4. Allocation -/

section Alloc

variable {h : Heap} {bs pre post : List Block} {fl : List Nat} {b : Block}

/-- A heap of the same extent. -/
def SameRegion (h h' : Heap) : Prop := h'.heapStart = h.heapStart ∧ h'.heapEnd = h.heapEnd

theorem ListOnly.sameRegion {h h' : Heap} (ho : ListOnly h h') : SameRegion h h' :=
  ⟨ho.heapStart, ho.heapEnd⟩

/-- What the code writes at the front of the block it splits. -/
theorem allocatedFront_spec {lo n hi : Nat} (hn : n % ALIGNMENT = 0) (hge : MIN_BLOCK_SIZE ≤ n)
    (hlo : 0 < lo) (hal : lo % ALIGNMENT = 0) (hhi : lo + n ≤ hi) :
    let k := ((h.setSize lo n).setAllocated lo true).setMagic lo
    Tagged (k.setFooter (k.getFooter lo) n).mem h.heapCanary (filling lo (lo + n) true) ∧
      Within lo hi h (k.setFooter (k.getFooter lo) n) := by
  intro k
  have hf : (filling lo (lo + n) true).Fits := by
    refine ⟨hlo, hal, ?_, ?_⟩ <;> simp only [filling, ALIGNMENT, MIN_BLOCK_SIZE] at * <;> omega
  have hsize : (filling lo (lo + n) true).size = n := Nat.add_sub_cancel_left lo n
  have hstop : (filling lo (lo + n) true).stop = lo + n := congrArg (lo + ·) hsize
  simp only [ALIGNMENT, MIN_BLOCK_SIZE] at hn hge
  have hhead : k.mem lo = n + 1 := by
    show update _ (lo + 24) _ lo = _
    rw [update_of_ne (by omega)]
    exact setSize_setAllocated_mem (by omega) true
  have hmagic : k.magic lo = ALLOCATOR_MAGIC := update_self _ _ _
  obtain ⟨ht, hw⟩ := tagged_setFooter (k := k) hf (hhead.trans (by rw [hsize]; rfl)) hmagic
  rw [hsize] at ht hw
  refine ⟨ht, ?_⟩
  have hk : Within lo hi h k :=
    ((store _ (Nat.le_refl lo) (by omega)).trans
      (store _ (Nat.le_refl lo) (by omega))).trans (store _ (by omega) (by omega))
  refine hk.trans ⟨fun w hwo => hw.mem w ?_, hw.same⟩
  rw [hstop]
  show w < lo ∨ lo + n ≤ w
  omega

/-- What it writes where it does not split. -/
theorem allocatedWhole_spec {k : Heap} (hf : b.Fits) (ht : Tagged k.mem k.heapCanary b) :
    Tagged ((k.setAllocated b.addr true).setFooter ((k.setAllocated b.addr true).getFooter b.addr)
        ((k.setAllocated b.addr true).getSize b.addr)).mem k.heapCanary (filling b.addr b.stop true) ∧
      Within b.addr b.stop k ((k.setAllocated b.addr true).setFooter
        ((k.setAllocated b.addr true).getFooter b.addr)
        ((k.setAllocated b.addr true).getSize b.addr)) := by
  have hsz := hf.size_aligned
  have hge := hf.size_ge
  have hsize : (filling b.addr b.stop true).size = b.size := Nat.add_sub_cancel_left b.addr b.size
  have hstop : (filling b.addr b.stop true).stop = b.stop := congrArg (b.addr + ·) hsize
  have hf' : (filling b.addr b.stop true).Fits := ⟨hf.pos, hf.aligned, hsize ▸ hsz, hsize ▸ hge⟩
  simp only [ALIGNMENT, MIN_BLOCK_SIZE] at hsz hge
  have hhead : (k.setAllocated b.addr true).mem b.addr = b.size + 1 := by
    simp only [Heap.setAllocated, Heap.store, update_self, if_true, ht.head]
    cases b.used <;> simp only [Bool.toNat_true, Bool.toNat_false] <;> omega
  have hmagic : (k.setAllocated b.addr true).magic b.addr = ALLOCATOR_MAGIC :=
    (update_of_ne (by omega) _ _).trans ht.magic
  have hget : (k.setAllocated b.addr true).getSize b.addr = b.size := by
    rw [Heap.getSize, hhead]
    omega
  obtain ⟨ht', hw⟩ := tagged_setFooter (k := k.setAllocated b.addr true) hf'
    (hhead.trans (by rw [hsize]; rfl)) hmagic
  rw [hsize, hstop] at hw
  rw [hsize] at ht'
  rw [hget]
  exact ⟨ht', (Within.store _ (Nat.le_refl _) (by rw [Block.stop]; omega)).trans hw⟩

/-- The rest of a split block as a free block. -/
theorem splitRest_spec {mid hi : Nat} {h : Heap} (hh : Hole h pre post mid hi fl)
    (hpre : ∀ x ∈ pre.getLast?, x.used = true) (hpost : ∀ y ∈ post.head?, y.used = true) :
    HeapShape (h.splitRest mid (hi - mid)) (pre ++ filling mid hi false :: post) (mid :: fl) ∧
      SameRegion h (h.splitRest mid (hi - mid)) ∧
      (h.splitRest mid (hi - mid)).allocatedBytes = h.allocatedBytes ∧
      (h.splitRest mid (hi - mid)).allocationCount = h.allocationCount := by
  have hf := hh.fits_filling false
  have hsz := hf.size_aligned
  have hwidth := hh.width
  simp only [filling, ALIGNMENT, MIN_BLOCK_SIZE] at hsz hwidth
  let k := ((((h.store mid (hi - mid)).setAllocated mid false).setPrevFree mid none).setNextFree mid
    none).setMagic mid
  have hhead : k.mem mid = hi - mid := by
    show update _ (mid + 24) _ mid = _
    rw [update_of_ne (by omega)]
    show update _ (mid + 16) _ mid = _
    rw [update_of_ne (by omega)]
    show update _ (mid + 8) _ mid = _
    rw [update_of_ne (by omega)]
    simp only [Heap.setAllocated, Heap.store, update_self, Bool.false_eq_true, if_false]
    omega
  have hmagic : k.magic mid = ALLOCATOR_MAGIC := update_self _ _ _
  have hk : Within mid hi h k :=
    ((((Within.store _ (Nat.le_refl _) (by omega)).trans
      (Within.store _ (Nat.le_refl _) (by omega))).trans
      (Within.store _ (by omega) (by omega))).trans
      (Within.store _ (by omega) (by omega))).trans (Within.store _ (by omega) (by omega))
  obtain ⟨ht, hw⟩ := tagged_setFooter (k := k) hf (hhead.trans rfl) hmagic
  have hstop : (filling mid hi false).stop = hi := by
    show mid + (hi - mid) = hi
    omega
  rw [hstop] at hw
  have hcanary : k.heapCanary = h.heapCanary := by rw [hk.same]
  obtain ⟨hshape, ho⟩ := (hh.within (hk.trans hw)).fillFree ht hpre hpost
  exact ⟨hshape, ho.sameRegion, ho.allocatedBytes, ho.allocationCount⟩

/-- The word `a` of a header that list operations do not touch. -/
theorem ListOnly.tagged {h h' : Heap} (ho : ListOnly h h') (hf : b.Fits)
    (ht : Tagged h.mem h.heapCanary b) : Tagged h'.mem h'.heapCanary b := by
  rw [ho.heapCanary]
  exact ht.congr hf fun w _ h8 h16 => ho.mem w h8 h16

/-- **The block taken out comes back allocated**, whole or as the front part of itself. -/
theorem carve_spec {h : Heap} (hh : Hole h pre post b.addr b.stop fl) (hf : b.Fits)
    (ht : Tagged h.mem h.heapCanary b) (hpost : ∀ y ∈ post.head?, y.used = true) {n : Nat}
    (hn : n % ALIGNMENT = 0) (hge : MIN_BLOCK_SIZE ≤ n) (hle : n ≤ b.size) :
    ∃ c bs' fl', HeapShape (h.carve b.addr n (b.size - n)) bs' fl' ∧ c ∈ bs' ∧ c.addr = b.addr ∧
      n ≤ c.size ∧ (payloads bs').Perm (c.payload :: payloads (pre ++ post)) ∧
      SameRegion h (h.carve b.addr n (b.size - n)) ∧
      (h.carve b.addr n (b.size - n)).allocatedBytes = h.allocatedBytes ∧
      (h.carve b.addr n (b.size - n)).allocationCount = h.allocationCount := by
  unfold carve
  by_cases hsplit : b.size - n ≥ MIN_BLOCK_SIZE
  · rw [if_pos hsplit]
    have hal := hf.aligned
    have hmid : (b.addr + n) % ALIGNMENT = 0 := by
      simp only [ALIGNMENT] at hal hn ⊢
      omega
    obtain ⟨htag, hw⟩ := allocatedFront_spec (h := h) hn hge hf.pos hal
        (show b.addr + n ≤ b.stop from Nat.add_le_add_left hle _)
    generalize ((h.setSize b.addr n).setAllocated b.addr true).setMagic b.addr = k at htag hw ⊢
    have hcanary : (k.setFooter (k.getFooter b.addr) n).heapCanary = h.heapCanary := by rw [hw.same]
    have hhole := (hh.within hw).split (hcanary ▸ htag) hmid (Nat.add_le_add_left hge _)
      (by rw [stop]; omega)
    obtain ⟨hshape, hregion, hbytes, hallocs⟩ :=
      splitRest_spec hhole (fun x hx => by rw [getLast?_concat] at hx; cases hx; rfl) hpost
    have hrest : b.stop - (b.addr + n) = b.size - n := Nat.add_sub_add_left _ _ _
    rw [hrest] at hshape hregion hbytes hallocs
    refine ⟨filling b.addr (b.addr + n) true, _, _, hshape, by simp, rfl, ?_, ?_, ?_, ?_, ?_⟩
    · exact Nat.le_of_eq (Nat.add_sub_cancel_left _ _).symm
    · rw [payloads_middle_free rfl, append_assoc]
      exact payloads_middle_used rfl
    · rw [SameRegion, hregion.1, hregion.2, hw.same]
      exact ⟨rfl, rfl⟩
    · rw [hbytes, hw.same]
    · rw [hallocs, hw.same]
  · rw [if_neg hsplit]
    obtain ⟨htag, hw⟩ := allocatedWhole_spec hf ht
    generalize h.setAllocated b.addr true = k at htag hw ⊢
    have hcanary : (k.setFooter (k.getFooter b.addr) (k.getSize b.addr)).heapCanary = h.heapCanary := by
      rw [hw.same]
    refine ⟨filling b.addr b.stop true, _, _, (hh.within hw).fillUsed (hcanary ▸ htag), by simp, rfl,
      ?_, payloads_middle_used rfl, ?_, ?_, ?_⟩
    · exact Nat.le_trans hle (Nat.le_of_eq (Nat.add_sub_cancel_left _ _).symm)
    · rw [SameRegion, hw.same]
      exact ⟨rfl, rfl⟩
    · rw [hw.same]
    · rw [hw.same]

/-- **Allocating from a free block that is large enough.** -/
theorem allocateFromBlock_spec (hok : HeapOk h (pre ++ b :: post) fl) (hu : b.used = false) {n : Nat}
    (hn : n % ALIGNMENT = 0) (hge : MIN_BLOCK_SIZE ≤ n) (hle : n ≤ b.size) :
    ∃ h' slice bs' fl', h.allocateFromBlock b.addr n = .ok (h', slice) ∧ HeapOk h' bs' fl' ∧
      SameRegion h h' ∧ n - (HEADER_SIZE + FOOTER_SIZE) ≤ slice.len ∧
      (payloads bs').Perm (slice :: payloads (pre ++ b :: post)) := by
  have hf := hok.fits b (by simp)
  have ht := hok.tagged b (by simp)
  obtain ⟨hhole, ho⟩ := hok.toHeapShape.takeFree hu
  obtain ⟨-, -, hpre, hpost⟩ := coalesced_middle.mp hok.apart
  have hfree : ¬ b.used = true := by
    rw [hu]
    exact Bool.false_ne_true
  obtain ⟨c, bs', fl', hshape, hc, hcaddr, hcn, hperm, hregion, hbytes, hallocs⟩ :=
    carve_spec hhole hf (ho.tagged hf ht) (fun y hy => (hpost y hy).resolve_left hfree) hn hge hle
  have hsize := getSize_eq (hshape.fits c hc) (hshape.tagged c hc)
  have hpay : HEADER_SIZE + FOOTER_SIZE ≤ c.size :=
    Nat.le_trans (by decide) (hshape.fits c hc).size_ge
  rw [hcaddr] at hsize
  rw [allocateFromBlock, getSize_eq hf ht]
  simp only [Trap.sub, if_pos hle, Except.ok_bind, hsize, if_pos hpay]
  refine ⟨_, _, bs', fl', rfl, ⟨hshape.stats _ _, ?_, ?_⟩, ?_, ?_, ?_⟩
  · have hsum := (hperm.map Slice.len).sum_eq
    rw [map_cons, sum_cons] at hsum
    have hold := hok.bytes
    rw [payloads_middle_free hu] at hold
    show allocatedBytes _ + (c.size - (HEADER_SIZE + FOOTER_SIZE)) = _
    rw [hbytes, ho.allocatedBytes, hold, hsum, Nat.add_comm]
    rfl
  · have hold := hok.allocs
    rw [payloads_middle_free hu] at hold
    show allocationCount _ + 1 = _
    rw [hallocs, ho.allocationCount, hold, hperm.length_eq, length_cons]
  · exact ⟨hregion.1.trans ho.heapStart, hregion.2.trans ho.heapEnd⟩
  · exact Nat.sub_le_sub_right hcn _
  · rw [payloads_middle_free hu]
    have hslice : c.payload = ⟨getPayload b.addr, c.size - (HEADER_SIZE + FOOTER_SIZE)⟩ := by
      rw [payload, hcaddr]
      rfl
    rw [← hslice]
    exact hperm

/-! ### The search -/

/-- The search over a stretch of the free list: the first block that is large enough, if any. -/
theorem firstFit_spec {L : Links Nat} (hs : Shows h L) (n : Nat) {l : List Nat} {before : Option Nat}
    (hc : L.Chain before l none) (hal : ∀ p ∈ l, p % ALIGNMENT = 0) {rounds : Nat}
    (hr : l.length ≤ rounds) :
    ∃ r, h.firstFit n rounds l.head? = .ok r ∧ (r = none → ∀ p ∈ l, h.getSize p < n) ∧
      ∀ p, r = some p → p ∈ l ∧ n ≤ h.getSize p := by
  induction l generalizing before rounds with
  | nil =>
    refine ⟨none, ?_, fun _ p hp => (nomatch hp), fun p hp => (nomatch hp)⟩
    cases rounds <;> rfl
  | cons p l ih =>
    obtain ⟨-, hnext, hc⟩ := hc
    cases rounds with
    | zero => exact absurd hr (Nat.not_succ_le_zero _)
    | succ rounds =>
      rw [head?_cons, firstFit]
      by_cases hfit : h.getSize p ≥ n
      · rw [if_pos hfit]
        refine ⟨some p, rfl, fun e => (nomatch e), ?_⟩
        rintro q ⟨⟩
        exact ⟨mem_cons_self, hfit⟩
      rw [if_neg hfit, ← hs.next p (hal p mem_cons_self), hnext, Option.or_none]
      obtain ⟨r, hr', hnone, hsome⟩ := ih hc (fun q hq => hal q (.tail _ hq))
        (Nat.le_of_succ_le_succ hr)
      refine ⟨r, hr', fun e q hq => ?_, fun q e => ⟨.tail _ (hsome q e).1, (hsome q e).2⟩⟩
      rcases mem_cons.mp hq with rfl | hq
      · exact Nat.lt_of_not_le hfit
      · exact hnone e q hq

theorem minSize_spec (size : Nat) :
    minSize size % ALIGNMENT = 0 ∧ MIN_BLOCK_SIZE ≤ minSize size ∧
      size + (HEADER_SIZE + FOOTER_SIZE) ≤ minSize size := by
  simp only [minSize, alignForward, alignBackward, ALIGNMENT, MIN_BLOCK_SIZE, HEADER_SIZE,
    FOOTER_SIZE]
  omega

/-- **Allocation**: a fresh payload that is long enough; or nothing, and then the request is out
    of bounds or no free block is large enough. -/
theorem allocFromFreeList_spec (hok : HeapOk h bs fl) (size : Nat) :
    ∃ h' r bs' fl', h.allocFromFreeList size = .ok (h', r) ∧ HeapOk h' bs' fl' ∧ SameRegion h h' ∧
      (r = none → h' = h ∧ bs' = bs ∧ (0 < size → size ≤ MAX_ALLOC_SIZE →
        ∀ b ∈ bs, b.used = false → b.size < minSize size)) ∧
      ∀ slice, r = some slice → size ≤ slice.len ∧ (payloads bs').Perm (slice :: payloads bs) := by
  have stay : ∀ P : Prop, P → ∃ h' r bs' fl',
      (.ok (h, none) : Except Trap (Heap × Option Slice)) = .ok (h', r) ∧ HeapOk h' bs' fl' ∧
      SameRegion h h' ∧ (r = none → h' = h ∧ bs' = bs ∧ P) ∧
      ∀ slice, r = some slice → size ≤ slice.len ∧ (payloads bs').Perm (slice :: payloads bs) :=
    fun P hP => ⟨h, none, bs, fl, rfl, hok, ⟨rfl, rfl⟩, fun _ => ⟨rfl, rfl, hP⟩,
      fun _ e => (nomatch e)⟩
  rw [allocFromFreeList, hok.initialized]
  by_cases h0 : size = 0
  · rw [if_pos (.inr h0)]
    exact stay _ (fun hpos => absurd h0 (Nat.ne_of_gt hpos))
  by_cases hmax : size > MAX_ALLOC_SIZE
  · simp only [h0, hmax, Bool.not_true, Bool.false_eq_true, or_false, if_false, if_true]
    exact stay _ (fun _ hle => absurd hmax (Nat.not_lt_of_le hle))
  obtain ⟨L, hs, hl⟩ := hok.linked
  obtain ⟨r, hr, hnone, hsome⟩ := firstFit_spec hs (minSize size) hl.chain
    (fun p hp => (hok.free_fits hp).2.1) (Nat.le_of_eq hok.count.symm)
  rw [← hl.head, hs.head] at hr
  simp only [h0, hmax, Bool.not_true, Bool.false_eq_true, or_false, if_false, hr, Except.ok_bind]
  cases r with
  | none =>
    refine stay _ fun _ _ b hb hu => ?_
    have hm : b.addr ∈ fl := hok.free.mem_iff.mpr (mem_freeAddrs.mpr ⟨b, hb, hu, rfl⟩)
    have := hnone rfl b.addr hm
    rwa [getSize_eq (hok.fits b hb) (hok.tagged b hb)] at this
  | some p =>
    obtain ⟨hp, hfit⟩ := hsome p rfl
    obtain ⟨-, -, b, hb, hu, rfl⟩ := hok.free_fits hp
    rw [getSize_eq (hok.fits b hb) (hok.tagged b hb)] at hfit
    obtain ⟨pre, post, rfl⟩ := append_of_mem hb
    obtain ⟨hn, hge, hlen⟩ := minSize_spec size
    obtain ⟨h', slice, bs', fl', he, hok', hregion, hslice, hperm⟩ :=
      allocateFromBlock_spec hok hu hn hge hfit
    simp only [he, Except.ok_bind]
    refine ⟨h', some slice, bs', fl', rfl, hok', hregion, fun e => (nomatch e), ?_⟩
    rintro _ ⟨⟩
    exact ⟨by omega, hperm⟩

end Alloc

/-! ## 5. Freeing -/

section Free

variable {h : Heap} {bs pre post : List Block} {fl : List Nat} {b : Block} {lo hi : Nat}

/-- A free neighbour is absorbed. -/
theorem absorb_ok (side : String) (hf : b.Fits) (ht : Tagged h.mem h.heapCanary b)
    (hin : h.heapStart ≤ b.addr ∧ b.stop ≤ h.heapEnd) {size : Nat} (hsum : size + b.size < 2 ^ 64) :
    h.absorb side b.addr size = .ok (h.removeFromFreeList b.addr, size + b.size) := by
  have hge := hf.size_ge
  have hle : ¬ (b.size < MIN_BLOCK_SIZE ∨ b.size > h.heapEnd - h.heapStart) := by
    simp only [stop] at hin
    omega
  rw [absorb, getSize_eq hf ht]
  simp only [hle, if_false, Nat.not_le_of_lt hsum]

/-- **Coalescing with the next block**: behind the hole no free block is left. -/
theorem coalesceNext_spec (hh : Hole h pre post lo hi fl) (hhead : h.getSize lo = hi - lo) :
    ∃ h' post' hi' fl', h.coalesceNext lo (hi - lo) = .ok (h', hi' - lo) ∧
      Hole h' pre post' lo hi' fl' ∧ (∀ y ∈ post'.head?, y.used = true) ∧ ListOnly h h' ∧
      payloads (pre ++ post') = payloads (pre ++ post) := by
  have hwidth := hh.width
  have hnext : lo + h.getSize lo = hi := by
    rw [hhead]
    omega
  unfold coalesceNext getNextBlock
  simp only [hnext]
  cases post with
  | nil =>
    have hend : hi = h.heapEnd := hh.after
    simp only [hend, ge_iff_le, Nat.le_refl, if_true]
    rw [← hend]
    exact ⟨h, [], hi, fl, rfl, hh, fun _ hy => (nomatch hy), .refl h, rfl⟩
  | cons c post =>
    have hf := hh.fits c (by simp)
    have ht := hh.tagged c (by simp)
    obtain ⟨hc, hafter⟩ := hh.after
    have hstop : c.stop ≤ h.heapEnd := (hh.after.inside mem_cons_self).2
    have hge := hf.size_ge
    have hlt : ¬ hi ≥ h.heapEnd := by
      simp only [stop, MIN_BLOCK_SIZE] at hstop hge
      omega
    have hmagic : h.magic hi = ALLOCATOR_MAGIC := hc ▸ ht.magic
    have hused := isAllocated_eq hf ht
    rw [hc] at hused
    simp only [hlt, if_false, hmagic, ne_eq, not_true, hused]
    cases hu : c.used with
    | true =>
      simp only [if_true]
      refine ⟨h, c :: post, hi, fl, rfl, hh, ?_, .refl h, rfl⟩
      rintro y ⟨⟩
      exact hu
    | false =>
      have hbelow := hh.below
      have hstart := hh.before.le
      rw [if_neg Bool.false_ne_true, ← hc, absorb_ok "next" hf ht
        ⟨by omega, hstop⟩ (by simp only [stop] at hstop; omega)]
      obtain ⟨hhole, ho, -⟩ := hh.growRight hu
      refine ⟨_, post, c.stop, _, ?_, hhole, ?_, ho, ?_⟩
      · rw [stop, Nat.sub_add_comm (by omega)]
      · intro y hy
        have := (isChain_cons.mp hh.apartPost).1 y hy
        exact this.resolve_left (by rw [hu]; exact Bool.false_ne_true)
      · rw [payloads_middle_free hu]

/-- **Coalescing with the previous block**: before the hole no free block is left. -/
theorem coalescePrev_spec (hh : Hole h pre post lo hi fl) (hmagic : h.magic lo = ALLOCATOR_MAGIC) :
    ∃ h' pre' lo' fl', h.coalescePrev lo (hi - lo) = .ok (h', hi - lo', lo') ∧
      Hole h' pre' post lo' hi fl' ∧ (∀ x ∈ pre'.getLast?, x.used = true) ∧ ListOnly h h' ∧
      h'.magic lo' = ALLOCATOR_MAGIC ∧ payloads (pre' ++ post) = payloads (pre ++ post) := by
  have hwidth := hh.width
  unfold coalescePrev
  rcases eq_nil_or_concat' pre with rfl | ⟨pre, a, rfl⟩
  · have hstart : h.heapStart = lo := hh.before
    have hprev : h.getPrevBlock lo = none := if_pos (Nat.le_of_eq hstart.symm)
    rw [hprev]
    exact ⟨h, [], lo, fl, rfl, hh, fun _ hx => (nomatch hx), .refl h, hmagic, rfl⟩
  have hf := hh.fits a (by simp)
  have ht := hh.tagged a (by simp)
  obtain ⟨hbefore, hstop⟩ := tiles_middle.mp hh.before
  have hstop' : a.stop = lo := hstop
  have hstart := hbefore.le
  have hge := hf.size_ge
  have hsub : lo - a.size = a.addr := by
    rw [← hstop', stop]
    omega
  -- footer, header and their sizes agree, so the check finds the block
  have hprev : h.getPrevBlock lo = some a.addr := by
    have hfoot := ht.foot
    have hcanary := ht.canary
    have hmagic' : h.magic a.addr = ALLOCATOR_MAGIC := ht.magic
    rw [hstop'] at hfoot hcanary
    simp only [stop, MIN_BLOCK_SIZE] at hstop' hge
    have h1 : ¬ lo ≤ h.heapStart := by omega
    have h2 : ¬ lo < h.heapStart + FOOTER_SIZE := by
      simp only [FOOTER_SIZE]
      omega
    have h3 : ¬ (a.size > lo ∨ a.size < MIN_BLOCK_SIZE) := by
      simp only [MIN_BLOCK_SIZE]
      omega
    have h4 : ¬ a.addr < h.heapStart := by omega
    simp only [getPrevBlock, h1, h2, hfoot, hcanary, h3, hsub, h4, hmagic',
      getSize_eq hf ht, if_false, ne_eq, not_true]
  have hmagic' : h.magic a.addr = ALLOCATOR_MAGIC := ht.magic
  simp only [hprev, hmagic', ne_eq, not_true, if_false, isAllocated_eq hf ht]
  cases hu : a.used with
  | true =>
    simp only [if_true]
    refine ⟨h, pre ++ [a], lo, fl, rfl, hh, ?_, .refl h, hmagic, rfl⟩
    intro x hx
    rw [getLast?_concat] at hx
    cases hx
    exact hu
  | false =>
    have hbelow := hh.below
    have hend := hh.after.le
    have hle : a.stop ≤ h.heapEnd := by omega
    rw [if_neg Bool.false_ne_true, absorb_ok "prev" hf ht ⟨hstart, hle⟩
      (by simp only [stop] at hstop'; omega), Except.ok_bind]
    obtain ⟨hhole, ho, -⟩ := hh.growLeft hu
    have hal := hf.aligned
    simp only [ALIGNMENT] at hal
    refine ⟨_, pre, a.addr, _, ?_, hhole, ?_, ho, ?_, ?_⟩
    · have e : hi - lo + a.size = hi - a.addr := by
        simp only [stop] at hstop'
        omega
      rw [e]
      rfl
    · intro x hx
      have := (coalesced_middle.mp hh.apartPre).2.2.1 x hx
      exact this.resolve_right (by rw [hu]; exact Bool.false_ne_true)
    · exact (ho.mem _ (by omega) (by omega)).trans ht.magic
    · simp [payloads, hu]

/-- The checks pass on an allocated block. -/
theorem checkFreed_ok (hf : b.Fits) (ht : Tagged h.mem h.heapCanary b) (hstop : b.stop ≤ h.heapEnd)
    (hbelow : h.heapEnd < 2 ^ 64) (ptrAddr : Nat) : h.checkFreed ptrAddr b.addr = .ok () := by
  have hge := hf.size_ge
  have h1 : ¬ b.addr + b.size ≥ 2 ^ 64 := by
    simp only [stop] at hstop
    omega
  have h2 : ¬ (b.size < MIN_BLOCK_SIZE ∨ b.addr + b.size > h.heapEnd) := by
    simp only [stop] at hstop
    omega
  have hfoot := ht.foot
  have hcanary := ht.canary
  rw [checkFreed]
  simp only [getSize_eq hf ht, getFooter_eq hf ht, h1, h2, hfoot, hcanary, if_false, ne_eq, not_true,
    or_self]
  rfl

/-- The coalesced block is tagged and enters the list. -/
theorem freedBlock_spec (hh : Hole h pre post lo hi fl) (hmagic : h.magic lo = ALLOCATOR_MAGIC)
    (hpre : ∀ x ∈ pre.getLast?, x.used = true) (hpost : ∀ y ∈ post.head?, y.used = true) :
    let k := (h.setSize lo (hi - lo)).setAllocated lo false
    let h' := (k.setFooter (k.getFooter lo) (hi - lo)).addToFreeList lo
    HeapShape h' (pre ++ filling lo hi false :: post) (lo :: fl) ∧ SameRegion h h' ∧
      h'.allocatedBytes = h.allocatedBytes ∧ h'.allocationCount = h.allocationCount := by
  intro k h'
  have hf := hh.fits_filling false
  have hsz := hf.size_aligned
  have hwidth := hh.width
  simp only [filling, ALIGNMENT, MIN_BLOCK_SIZE] at hsz hwidth
  have hhead : k.mem lo = hi - lo := setSize_setAllocated_mem (by omega) false
  have hmagic' : k.magic lo = ALLOCATOR_MAGIC :=
    (update_of_ne (by omega) _ _).trans ((update_of_ne (by omega) _ _).trans hmagic)
  have hk : Within lo hi h k :=
    (store _ (Nat.le_refl _) (by omega)).trans (store _ (Nat.le_refl _) (by omega))
  obtain ⟨ht, hw⟩ := tagged_setFooter (k := k) hf hhead hmagic'
  have hstop : (filling lo hi false).stop = hi := by
    show lo + (hi - lo) = hi
    omega
  rw [hstop] at hw
  obtain ⟨hshape, ho⟩ := (hh.within (hk.trans hw)).fillFree ht hpre hpost
  exact ⟨hshape, ho.sameRegion, ho.allocatedBytes, ho.allocationCount⟩

/-- **Freeing an allocated block**: its payload is gone, nothing else is. -/
theorem freeToFreeList_spec (debug : Bool) (hok : HeapOk h (pre ++ b :: post) fl)
    (hu : b.used = true) :
    ∃ h' bs' fl', Heap.freeToFreeList debug h b.payload.ptr = .ok h' ∧ HeapOk h' bs' fl' ∧
      SameRegion h h' ∧ payloads bs' = payloads (pre ++ post) := by
  have hf := hok.fits b (by simp)
  have ht := hok.tagged b (by simp)
  obtain ⟨hlo, hhi⟩ := hok.tiles.inside (x := b) (by simp)
  have hge := hf.size_ge
  have hal := hf.aligned
  have hsz := hf.size_aligned
  have hpay : HEADER_SIZE + FOOTER_SIZE ≤ b.size := Nat.le_trans (by decide) hge
  have hperm : (payloads (pre ++ b :: post)).Perm (b.payload :: payloads (pre ++ post)) :=
    payloads_middle_used hu
  have hbytes := hok.bytes
  have hallocs := hok.allocs
  rw [(hperm.map _).sum_eq, map_cons, sum_cons] at hbytes
  rw [hperm.length_eq, length_cons] at hallocs
  have hbig : h.allocatedBytes ≥ b.size - (HEADER_SIZE + FOOTER_SIZE) := by
    rw [hbytes]
    exact Nat.le_add_right _ _
  simp only [ALIGNMENT, MIN_BLOCK_SIZE] at hal hsz hge
  -- the checks
  have hrange : ¬ (b.payload.ptr < h.heapStart + HEADER_SIZE ∨ b.payload.ptr ≥ h.heapEnd) := by
    simp only [Block.payload, HEADER_SIZE]
    omega
  have hheader : b.payload.ptr - HEADER_SIZE = b.addr := Nat.add_sub_cancel _ _
  have hmagic : h.magic b.addr = ALLOCATOR_MAGIC := ht.magic
  rw [Heap.freeToFreeList, if_neg (by rw [hok.initialized]; decide)]
  simp only [hrange, hheader, hmagic, isAllocated_eq hf ht, hu, checkFreed_ok hf ht hhi hok.below,
    getSize_eq hf ht, Trap.sub, if_pos hpay, if_pos hbig, Bool.not_true, Bool.false_eq_true, if_false,
    ne_eq, not_true, Except.ok_bind]
  -- the block is taken out, its header marked free
  have hhole := (hok.toHeapShape.stats (h.allocatedBytes - (b.size - (HEADER_SIZE + FOOTER_SIZE)))
    (h.allocationCount - 1)).takeUsed hu
  generalize hg : ({ h with
      allocatedBytes := h.allocatedBytes - (b.size - (HEADER_SIZE + FOOTER_SIZE))
      allocationCount := h.allocationCount - 1 } : Heap) = g at hhole ⊢
  have hmem : g.mem = h.mem := by rw [← hg]
  have hw : Within b.addr b.stop g (g.setAllocated b.addr false) :=
    Within.store _ (Nat.le_refl _) (by rw [Block.stop]; omega)
  have hhead : (g.setAllocated b.addr false).mem b.addr = b.size := by
    simp only [Heap.setAllocated, Heap.store, update_self, Bool.false_eq_true, if_false,
      hmem, ht.head, hu, Bool.toNat_true]
    omega
  have hsize : (g.setAllocated b.addr false).getSize b.addr = b.stop - b.addr := by
    rw [Heap.getSize, hhead, Block.stop]
    omega
  have hstop : b.stop - b.addr = b.size := Nat.add_sub_cancel_left _ _
  have hmagic₁ : (g.setAllocated b.addr false).magic b.addr = ALLOCATOR_MAGIC := by
    refine (update_of_ne (by omega) _ _).trans ?_
    rw [hmem]
    exact ht.magic
  obtain ⟨h₂, post', hi', fl₂, e₂, hhole₂, hpost, ho₂, hpay₂⟩ :=
    coalesceNext_spec (hhole.within hw) hsize
  rw [hstop] at e₂
  obtain ⟨h₃, pre', lo', fl₃, e₃, hhole₃, hpre, ho₃, hmagic₃, hpay₃⟩ := coalescePrev_spec hhole₂
    ((ho₂.mem _ (by omega) (by omega)).trans hmagic₁)
  simp only [e₂, e₃, Except.ok_bind]
  -- the hole is filled with one free block
  obtain ⟨hshape, hregion, hbytes₄, hallocs₄⟩ := freedBlock_spec hhole₃ hmagic₃ hpre hpost
  have hpays : payloads (pre' ++ post') = payloads (pre ++ post) := hpay₃.trans hpay₂
  have hgbytes : g.allocatedBytes = ((payloads (pre ++ post)).map Slice.len).sum := by
    rw [← hg]
    show h.allocatedBytes - (b.size - (HEADER_SIZE + FOOTER_SIZE)) = _
    rw [hbytes]
    exact Nat.add_sub_cancel_left _ _
  have hgallocs : g.allocationCount = (payloads (pre ++ post)).length := by
    rw [← hg]
    show h.allocationCount - 1 = _
    rw [hallocs]
    rfl
  refine ⟨_, _, _, rfl, ⟨hshape, ?_, ?_⟩, ⟨?_, ?_⟩, (payloads_middle_free rfl).trans hpays⟩
  · rw [payloads_middle_free rfl, hpays, hbytes₄, ho₃.allocatedBytes, ho₂.allocatedBytes]
    exact hgbytes
  · rw [payloads_middle_free rfl, hpays, hallocs₄, ho₃.allocationCount, ho₂.allocationCount]
    exact hgallocs
  · rw [hregion.1, ho₃.heapStart, ho₂.heapStart]
    show g.heapStart = _
    rw [← hg]
  · rw [hregion.2, ho₃.heapEnd, ho₂.heapEnd]
    show g.heapEnd = _
    rw [← hg]

end Free

/-! ## 6. The start, and writes to payloads -/

/-- What `init` writes. -/
theorem firstBlock_spec {h : Heap} {lo hi : Nat} (hlo : 0 < lo) (hal : lo % ALIGNMENT = 0)
    (hhi : hi % ALIGNMENT = 0) (hwidth : lo + MIN_BLOCK_SIZE ≤ hi) (hstart : h.heapStart = lo)
    (hend : h.heapEnd = hi) (hbelow : hi < 2 ^ 64) :
    let k := (((h.store lo (hi - lo)).setPrevFree lo none).setNextFree lo none).setMagic lo
    HeapOk { k.setFooter (k.getFooter lo) (hi - lo) with
      freeListHead := some lo
      freeBlockCount := 1
      allocatedBytes := 0
      allocationCount := 0
      initialized := true } [filling lo hi false] [lo] := by
  intro k
  have hf : (filling lo hi false).Fits := by
    refine ⟨hlo, hal, ?_, ?_⟩ <;> simp only [filling, ALIGNMENT, MIN_BLOCK_SIZE] at * <;> omega
  have hstop : (filling lo hi false).stop = hi := by
    show lo + (hi - lo) = hi
    omega
  simp only [ALIGNMENT, MIN_BLOCK_SIZE] at hal hhi hwidth
  have hhead : k.mem lo = hi - lo := by
    refine (update_of_ne (by omega) _ _).trans ?_
    refine (update_of_ne (by omega) _ _).trans ?_
    exact (update_of_ne (by omega) _ _).trans (update_self _ _ _)
  have hmagic : k.magic lo = ALLOCATOR_MAGIC := update_self _ _ _
  obtain ⟨ht, hw⟩ := tagged_setFooter (k := k) hf hhead hmagic
  have hprev : k.mem (lo + 8) = 0 := by
    refine (update_of_ne (by omega) _ _).trans ?_
    exact (update_of_ne (by omega) _ _).trans (update_self _ _ _)
  have hnext : k.mem (lo + 16) = 0 := by
    refine (update_of_ne (by omega) _ _).trans ?_
    exact update_self _ _ _
  -- the footer lies behind the links
  have hfoot : k.getFooter lo = hi - FOOTER_SIZE := by
    have := getFooter_of_head (k := k) hf hhead
    rwa [hstop] at this
  have hlink : ∀ w, w < hi - FOOTER_SIZE → (k.setFooter (k.getFooter lo) (hi - lo)).mem w = k.mem w := by
    intro w hlt
    rw [hfoot]
    simp only [FOOTER_SIZE] at hlt ⊢
    exact (update_of_ne (by omega) _ _).trans (update_of_ne (by omega) _ _)
  refine ⟨⟨⟨?_, ?_, ⟨⟨some lo, some lo, (k.setFooter (k.getFooter lo) (hi - lo)).nextFree,
    (k.setFooter (k.getFooter lo) (hi - lo)).prevFree⟩, ⟨rfl, fun _ _ => rfl, fun _ _ => rfl⟩, ?_⟩,
    List.Perm.refl _, rfl⟩, ⟨hstart.symm, ?_⟩, isChain_singleton _, ?_, rfl⟩, rfl, rfl⟩
  · intro b hb
    rw [mem_singleton.mp hb]
    exact hf
  · intro b hb
    rw [mem_singleton.mp hb]
    exact ht
  · refine ⟨rfl, rfl, ⟨?_, ?_, trivial⟩, nodup_singleton lo⟩
    · exact congrArg ptr ((hlink _ (by simp only [FOOTER_SIZE]; omega)).trans hprev)
    · exact congrArg ptr ((hlink _ (by simp only [FOOTER_SIZE]; omega)).trans hnext)
  · show h.heapStart + (hi - lo) = h.heapEnd
    omega
  · show h.heapEnd < 2 ^ 64
    omega

theorem alignForward_aligned (n : Nat) : alignForward n % ALIGNMENT = 0 ∧ n ≤ alignForward n := by
  simp only [alignForward, alignBackward, ALIGNMENT]
  omega

/-- **The first block covers the region.** -/
theorem init_heapOk {h h' : Heap} {hwEntropy tsc : BitVec 64} {start size : Nat}
    (hnew : h.initialized = false) (he : h.init hwEntropy tsc start size = .ok h')
    (hinit : h'.initialized = true) :
    ∃ b, HeapOk h' [b] [b.addr] ∧ b.addr = h'.heapStart ∧ b.stop = h'.heapEnd ∧ b.used = false := by
  unfold init at he
  rw [if_neg (by rw [hnew]; decide)] at he
  by_cases h1 : start + (ALIGNMENT - 1) ≥ 2 ^ 64
  · simp only [h1, if_true] at he
    cases he
  simp only [h1, if_false] at he
  obtain ⟨adjusted, -, he⟩ := (Except.bind_ok_iff _ _).mp he
  obtain ⟨hal, -⟩ := alignForward_aligned start
  generalize alignForward start = lo at he hal
  have hhi : (lo + alignBackward adjusted) % ALIGNMENT = 0 := by
    simp only [alignBackward, ALIGNMENT] at hal ⊢
    omega
  generalize lo + alignBackward adjusted = hi at he hhi
  by_cases h2 : hi ≥ 2 ^ 64
  · simp only [h2, if_true] at he
    cases he
  by_cases h3 : lo + MIN_BLOCK_SIZE ≥ 2 ^ 64
  · simp only [h2, h3, if_true, if_false] at he
    cases he
  by_cases h4 : hi ≤ lo + MIN_BLOCK_SIZE
  · simp only [h2, h3, h4, if_true, if_false] at he
    cases he
    rw [hnew] at hinit
    cases hinit
  by_cases h5 : lo = 0
  · simp only [h2, h3, h4, if_false] at he
    rw [if_pos h5] at he
    cases he
  simp only [h2, h3, h4, h5, if_false] at he
  cases he
  refine ⟨filling lo hi false, firstBlock_spec (h := { h with
    heapStart := lo, heapEnd := hi, heapCanary := (initCanary hwEntropy tsc).toNat })
    (Nat.pos_of_ne_zero h5) hal hhi (by omega) rfl rfl (by omega), rfl, ?_, rfl⟩
  show lo + (hi - lo) = hi
  omega

/-- **A write to the payload of an allocated block** is no business of the allocator. -/
theorem store_heapOk {h : Heap} {bs : List Block} {fl : List Nat} {b : Block} {w : Nat}
    (hok : HeapOk h bs fl) (hb : b ∈ bs) (hlo : b.payload.ptr ≤ w)
    (hhi : w < b.payload.ptr + b.payload.len) (v : Nat) : HeapOk (h.store w v) bs fl := by
  have hbooks : Books (h.store w v) bs fl := by
    refine hok.toBooks.within (store v (Nat.le_refl w) (Nat.lt_succ_self w)) ?_
    intro c hc u hown
    have hge := (hok.fits b hb).size_ge
    simp only [payload, HEADER_SIZE, FOOTER_SIZE, MIN_BLOCK_SIZE] at hlo hhi hge
    rcases hok.tiles.apart hb hc with rfl | h' | h'
    · simp only [Block.Own, stop, FOOTER_SIZE] at hown
      omega
    · have := (hown.inside (hok.fits c hc)).1
      omega
    · have := (hown.inside (hok.fits c hc)).2
      simp only [stop] at this
      omega
  exact ⟨⟨hbooks, hok.tiles, hok.apart, hok.below, hok.initialized⟩, hok.bytes, hok.allocs⟩

end Zigk.Mm
