/-
  Subject:   THE BLOCKS THAT THE HEAP'S MEMORY SPELLS, and what one write or one list operation
             does to them.

  * `Books` -- memory and free list agree with a list of blocks, in any order and not necessarily
    all of them. Writing between the blocks changes nothing (`Books.within`); a block leaves
    (`Books.remove`, `Books.forget`) and enters (`Books.add`, `Books.addFree`).

  All header and footer words lie at fixed places modulo 64, the links at 8 and 16 and nothing
  else there: list operations do not touch the tags, tagging does not touch the links.
-/
import Zigk.Base.Intrusive
import Zigk.Base.Tiling
import Zigk.Mm.Heap

namespace Zigk.Mm

open Function List

structure Block where
  addr : Nat
  size : Nat
  used : Bool
  deriving DecidableEq, Repr

namespace Block

/-- The address behind the block. -/
def stop (b : Block) : Nat := b.addr + b.size

def payload (b : Block) : Slice := ⟨b.addr + HEADER_SIZE, b.size - (HEADER_SIZE + FOOTER_SIZE)⟩

/-- A block as the allocator cuts them. -/
structure Fits (b : Block) : Prop where
  pos : 0 < b.addr
  aligned : b.addr % ALIGNMENT = 0
  size_aligned : b.size % ALIGNMENT = 0
  size_ge : MIN_BLOCK_SIZE ≤ b.size

end Block

/-- Header and footer of `b` in the memory `m`, with the canary `c`. -/
structure Tagged (m : Nat → Nat) (c : Nat) (b : Block) : Prop where
  head : m b.addr = b.size + b.used.toNat
  magic : m (b.addr + 24) = ALLOCATOR_MAGIC
  foot : m (b.stop - FOOTER_SIZE) = b.size
  canary : m (b.stop - FOOTER_SIZE + 8) = c

/-- The links `L` are those that the headers of the heap's memory spell. -/
structure Shows (h : Heap) (L : Links Nat) : Prop where
  head : L.head = h.freeListHead
  next : ∀ q, q % ALIGNMENT = 0 → L.next q = h.nextFree q
  prev : ∀ q, q % ALIGNMENT = 0 → L.prev q = h.prevFree q

/-- The addresses of the free blocks. -/
def freeAddrs (bs : List Block) : List Nat := (bs.filter fun b => !b.used).map Block.addr

/-- The payloads of the allocated blocks. -/
def payloads (bs : List Block) : List Slice := (bs.filter fun b => b.used).map Block.payload

/-- Memory, free list and its counter agree with the blocks `bs`. -/
structure Books (h : Heap) (bs : List Block) (fl : List Nat) : Prop where
  fits : ∀ b ∈ bs, b.Fits
  tagged : ∀ b ∈ bs, Tagged h.mem h.heapCanary b
  linked : ∃ L, Shows h L ∧ L.Linked fl
  free : fl.Perm (freeAddrs bs)
  count : h.freeBlockCount = fl.length

/-! ## 1. Reading the tags -/

section Tags

variable {h : Heap} {b : Block}

theorem getSize_eq (hf : b.Fits) (ht : Tagged h.mem h.heapCanary b) : h.getSize b.addr = b.size := by
  have hs := hf.size_aligned
  rw [Heap.getSize, ht.head]
  cases b.used <;> simp only [Bool.toNat_true, Bool.toNat_false, ALIGNMENT] at hs ⊢ <;> omega

theorem isAllocated_eq (hf : b.Fits) (ht : Tagged h.mem h.heapCanary b) :
    h.isAllocated b.addr = b.used := by
  have hs := hf.size_aligned
  have heven : b.size % 2 = 0 := by
    simp only [ALIGNMENT] at hs
    omega
  rw [Heap.isAllocated, ht.head, Nat.add_mod, heven]
  cases b.used <;> rfl

theorem getFooter_eq (hf : b.Fits) (ht : Tagged h.mem h.heapCanary b) :
    h.getFooter b.addr = b.stop - FOOTER_SIZE := by
  rw [Heap.getFooter, getSize_eq hf ht, Block.stop]

end Tags

/-! ## 2. The lists of a list of blocks -/

section Lists

variable {bs bs' : List Block} {b : Block}

theorem freeAddrs_perm (h : bs.Perm bs') : (freeAddrs bs).Perm (freeAddrs bs') := (h.filter _).map _

theorem payloads_perm (h : bs.Perm bs') : (payloads bs).Perm (payloads bs') := (h.filter _).map _

@[simp] theorem freeAddrs_cons_free (h : b.used = false) :
    freeAddrs (b :: bs) = b.addr :: freeAddrs bs := by
  simp [freeAddrs, h]

@[simp] theorem freeAddrs_cons_used (h : b.used = true) : freeAddrs (b :: bs) = freeAddrs bs := by
  simp [freeAddrs, h]

@[simp] theorem payloads_cons_free (h : b.used = false) : payloads (b :: bs) = payloads bs := by
  simp [payloads, h]

@[simp] theorem payloads_cons_used (h : b.used = true) :
    payloads (b :: bs) = b.payload :: payloads bs := by
  simp [payloads, h]

theorem mem_freeAddrs {p : Nat} : p ∈ freeAddrs bs ↔ ∃ b ∈ bs, b.used = false ∧ b.addr = p := by
  simp [freeAddrs, and_assoc]

/-- **The order of the blocks is no part of the books.** -/
theorem Books.perm {h : Heap} {fl : List Nat} (hb : Books h bs fl) (hp : bs.Perm bs') :
    Books h bs' fl where
  fits b hm := hb.fits b (hp.mem_iff.mpr hm)
  tagged b hm := hb.tagged b (hp.mem_iff.mpr hm)
  linked := hb.linked
  free := hb.free.trans (freeAddrs_perm hp)
  count := hb.count

end Lists

/-! ## 3. Writes beside the blocks -/

/-- From `h` to `h'` only memory from `lo` up to `hi` has changed. -/
structure Within (lo hi : Nat) (h h' : Heap) : Prop where
  mem : ∀ w, w < lo ∨ hi ≤ w → h'.mem w = h.mem w
  same : h' = { h with mem := h'.mem }

section Store

variable {h h' h'' : Heap} {bs : List Block} {fl : List Nat} {b : Block} {lo hi : Nat}

theorem Within.store {w : Nat} (v : Nat) (hlo : lo ≤ w) (hhi : w < hi) :
    Within lo hi h (h.store w v) :=
  ⟨fun _ hu => update_of_ne (by omega) _ _, rfl⟩

theorem Within.trans (h₁ : Within lo hi h h') (h₂ : Within lo hi h' h'') : Within lo hi h h'' where
  mem w hw := (h₂.mem w hw).trans (h₁.mem w hw)
  same := by
    rw [h₂.same]
    exact congrArg (fun k : Heap => { k with mem := h''.mem }) h₁.same

/-- The words of a block that the allocator reads: its header and its footer. -/
def Block.Own (b : Block) (w : Nat) : Prop :=
  b.addr ≤ w ∧ w < b.addr + 32 ∨ b.stop - FOOTER_SIZE ≤ w ∧ w < b.stop

theorem Tagged.congr {m m' : Nat → Nat} {c : Nat} (ht : Tagged m c b) (hf : b.Fits)
    (hm : ∀ w, b.Own w → w % 64 ≠ 8 → w % 64 ≠ 16 → m' w = m w) : Tagged m' c b := by
  have hal := hf.aligned
  have hsz := hf.size_aligned
  have hge := hf.size_ge
  simp only [ALIGNMENT, MIN_BLOCK_SIZE] at hal hsz hge
  refine ⟨?_, ?_, ?_, ?_⟩
  · rw [hm _ (.inl ⟨by omega, by omega⟩) (by omega) (by omega), ht.head]
  · rw [hm _ (.inl ⟨by omega, by omega⟩) (by omega) (by omega), ht.magic]
  · rw [hm, ht.foot] <;> simp only [Block.Own, Block.stop, FOOTER_SIZE] <;> omega
  · rw [hm, ht.canary] <;> simp only [Block.Own, Block.stop, FOOTER_SIZE] <;> omega

/-- Elements of the free list stand at block addresses. -/
theorem Books.free_fits (hb : Books h bs fl) {p : Nat} (hp : p ∈ fl) :
    0 < p ∧ p % 64 = 0 ∧ ∃ b ∈ bs, b.used = false ∧ b.addr = p := by
  obtain ⟨b, hm, hu, rfl⟩ := mem_freeAddrs.mp (hb.free.mem_iff.mp hp)
  exact ⟨(hb.fits b hm).pos, (hb.fits b hm).aligned, b, hm, hu, rfl⟩

/-- The link words are words of the block. -/
theorem Block.own_links (b : Block) : b.Own (b.addr + 8) ∧ b.Own (b.addr + 16) :=
  ⟨.inl ⟨by omega, by omega⟩, .inl ⟨by omega, by omega⟩⟩

/-- **Writes beside the words of all blocks change nothing.** -/
theorem Books.within (hb : Books h bs fl) (hw : Within lo hi h h')
    (hout : ∀ b ∈ bs, ∀ w, b.Own w → w < lo ∨ hi ≤ w) : Books h' bs fl := by
  have hsame : ∀ b ∈ bs, ∀ u, b.Own u → h'.mem u = h.mem u :=
    fun b hm u hu => hw.mem u (hout b hm u hu)
  have hhead : h'.freeListHead = h.freeListHead := by rw [hw.same]
  have hcanary : h'.heapCanary = h.heapCanary := by rw [hw.same]
  have hcount : h'.freeBlockCount = h.freeBlockCount := by rw [hw.same]
  refine ⟨hb.fits, fun b hm => ?_, ?_, hb.free, hcount.trans hb.count⟩
  · rw [hcanary]
    exact (hb.tagged b hm).congr (hb.fits b hm) fun u hu _ _ => hsame b hm u hu
  obtain ⟨L, hs, hl⟩ := hb.linked
  -- the same links, read off the new memory, with the old tail
  refine ⟨⟨h'.freeListHead, L.tail, h'.nextFree, h'.prevFree⟩,
    ⟨rfl, fun _ _ => rfl, fun _ _ => rfl⟩,
    Links.linked_congr hl (hhead.trans hs.head.symm) rfl (fun p hp => ?_) fun p hp => ?_⟩
  · obtain ⟨-, hal, b, hm, -, rfl⟩ := hb.free_fits hp
    rw [hs.next _ hal]
    exact congrArg ptr (hsame b hm _ b.own_links.2)
  · obtain ⟨-, hal, b, hm, -, rfl⟩ := hb.free_fits hp
    rw [hs.prev _ hal]
    exact congrArg ptr (hsame b hm _ b.own_links.1)

end Store

/-! ## 4. The free list -/

/-- From `h` to `h'` only links, the head of the list and its counter have changed. -/
structure ListOnly (h h' : Heap) : Prop where
  mem : ∀ w, w % 64 ≠ 8 → w % 64 ≠ 16 → h'.mem w = h.mem w
  heapStart : h'.heapStart = h.heapStart
  heapEnd : h'.heapEnd = h.heapEnd
  heapCanary : h'.heapCanary = h.heapCanary
  allocatedBytes : h'.allocatedBytes = h.allocatedBytes
  allocationCount : h'.allocationCount = h.allocationCount
  initialized : h'.initialized = h.initialized

section FreeList

variable {h h' h'' h₁ : Heap} {L L₁ : Links Nat} {p : Nat} {n : Option Nat}

theorem ListOnly.refl (h : Heap) : ListOnly h h := ⟨fun _ _ _ => rfl, rfl, rfl, rfl, rfl, rfl, rfl⟩

theorem ListOnly.trans (h₁ : ListOnly h h') (h₂ : ListOnly h' h'') : ListOnly h h'' where
  mem w h8 h16 := (h₂.mem w h8 h16).trans (h₁.mem w h8 h16)
  heapStart := h₂.heapStart.trans h₁.heapStart
  heapEnd := h₂.heapEnd.trans h₁.heapEnd
  heapCanary := h₂.heapCanary.trans h₁.heapCanary
  allocatedBytes := h₂.allocatedBytes.trans h₁.allocatedBytes
  allocationCount := h₂.allocationCount.trans h₁.allocationCount
  initialized := h₂.initialized.trans h₁.initialized

theorem ListOnly.setNextFree (hp : p % 64 = 0) : ListOnly h (h.setNextFree p n) :=
  ⟨fun w _ h16 => update_of_ne (by omega) _ _, rfl, rfl, rfl, rfl, rfl, rfl⟩

theorem ListOnly.setPrevFree (hp : p % 64 = 0) : ListOnly h (h.setPrevFree p n) :=
  ⟨fun w h8 _ => update_of_ne (by omega) _ _, rfl, rfl, rfl, rfl, rfl, rfl⟩

theorem ptr_word (hn : ∀ a, n = some a → 0 < a) : ptr (word n) = n := by
  cases n with
  | none => rfl
  | some a => exact if_neg (Nat.ne_of_gt (hn a rfl))

theorem Shows.setNextFree (hs : Shows h L) (hp : p % ALIGNMENT = 0) (hn : ∀ a, n = some a → 0 < a) :
    Shows (h.setNextFree p n) (L.setNext p n) where
  head := hs.head
  next q hq := by
    show update L.next p n q = ptr (update h.mem (p + 16) (word n) (q + 16))
    by_cases e : q = p
    · rw [e, update_self, update_self, ptr_word hn]
    · rw [update_of_ne e, update_of_ne (by omega)]
      exact hs.next q hq
  prev q hq := by
    simp only [ALIGNMENT] at hp hq
    show L.prev q = ptr (update h.mem (p + 16) (word n) (q + 8))
    rw [update_of_ne (by omega)]
    exact hs.prev q hq

theorem Shows.setPrevFree (hs : Shows h L) (hp : p % ALIGNMENT = 0) (hn : ∀ a, n = some a → 0 < a) :
    Shows (h.setPrevFree p n) (L.setPrev p n) where
  head := hs.head
  next q hq := by
    simp only [ALIGNMENT] at hp hq
    show L.next q = ptr (update h.mem (p + 8) (word n) (q + 16))
    rw [update_of_ne (by omega)]
    exact hs.next q hq
  prev q hq := by
    show update L.prev p n q = ptr (update h.mem (p + 8) (word n) (q + 8))
    by_cases e : q = p
    · rw [e, update_self, update_self, ptr_word hn]
    · rw [update_of_ne e, update_of_ne (by omega)]
      exact hs.prev q hq

/-- A pointer that may stand in a link: to an address at which a block can begin. -/
def Linkable (n : Option Nat) : Prop := ∀ a, n = some a → 0 < a ∧ a % ALIGNMENT = 0

/-- First the link before, or the head. -/
theorem unlinkPrev_shows (hs : Shows h L) (hp : p % ALIGNMENT = 0)
    (hnext : Linkable (L.next p)) (hprev : Linkable (L.prev p)) :
    ∃ h₁, (match h.prevFree p with
      | some prev => h.setNextFree prev (h.nextFree p)
      | none => { h with freeListHead := h.nextFree p }) = h₁ ∧ ∃ L₁, (match L.prev p with
      | some b => L.setNext b (L.next p)
      | none => { L with head := L.next p }) = L₁ ∧ Shows h₁ L₁ ∧ ListOnly h h₁ ∧
      Linkable (L₁.next p) ∧ Linkable (L₁.prev p) := by
  refine ⟨_, rfl, _, rfl, ?_⟩
  rw [← hs.prev p hp, ← hs.next p hp]
  cases hb : L.prev p with
  | none =>
    refine ⟨⟨rfl, hs.next, hs.prev⟩, ⟨fun _ _ _ => rfl, rfl, rfl, rfl, rfl, rfl, rfl⟩, hnext, ?_⟩
    exact hprev
  | some b =>
    have hb' := hprev b hb
    refine ⟨hs.setNextFree hb'.2 (fun a ha => (hnext a ha).1), .setNextFree hb'.2, ?_, hprev⟩
    show Linkable (update L.next b (L.next p) p)
    by_cases e : p = b
    · rw [e, update_self]
      exact e ▸ hnext
    · rw [update_of_ne e]
      exact hnext

/-- Then the link behind, which the code reads again. -/
theorem unlinkNext_shows (hs₁ : Shows h₁ L₁) (hp : p % ALIGNMENT = 0)
    (hn₁ : Linkable (L₁.next p)) (hp₁ : Linkable (L₁.prev p)) :
    ∃ h₂, (match h₁.nextFree p with
      | some next => h₁.setPrevFree next (h₁.prevFree p)
      | none => h₁) = h₂ ∧ ∃ L₂, (match L₁.next p with
      | some n => L₁.setPrev n (L₁.prev p)
      | none => { L₁ with tail := L₁.prev p }) = L₂ ∧ Shows h₂ L₂ ∧ ListOnly h₁ h₂ := by
  refine ⟨_, rfl, _, rfl, ?_⟩
  rw [← hs₁.prev p hp, ← hs₁.next p hp]
  cases hn : L₁.next p with
  | none => exact ⟨⟨hs₁.head, hs₁.next, hs₁.prev⟩, .refl h₁⟩
  | some n =>
    have hn' := hn₁ n hn
    exact ⟨hs₁.setPrevFree hn'.2 (fun a ha => (hp₁ a ha).1), .setPrevFree hn'.2⟩

/-- **Removal does to the links in memory what it does to the list.** -/
theorem removeFromFreeList_shows (hs : Shows h L) (hp : p % ALIGNMENT = 0)
    (hnext : Linkable (L.next p)) (hprev : Linkable (L.prev p)) :
    Shows (h.removeFromFreeList p) (L.remove p) ∧ ListOnly h (h.removeFromFreeList p) := by
  obtain ⟨h₁, hh₁, L₁, hL₁, hs₁, ho₁, hn₁, hp₁⟩ := unlinkPrev_shows hs hp hnext hprev
  obtain ⟨h₂, hh₂, L₂, hL₂, hs₂, ho₂⟩ := unlinkNext_shows hs₁ hp hn₁ hp₁
  have hnone : ∀ a, (none : Option Nat) = some a → 0 < a := by rintro a ⟨⟩
  have hs₃ := (hs₂.setPrevFree (n := none) hp hnone).setNextFree (n := none) hp hnone
  have ho₃ : ListOnly h₂ ((h₂.setPrevFree p none).setNextFree p none) :=
    (ListOnly.setPrevFree hp).trans (.setNextFree hp)
  have e : h.removeFromFreeList p = { (h₂.setPrevFree p none).setNextFree p none with
      freeBlockCount := ((h₂.setPrevFree p none).setNextFree p none).freeBlockCount - 1 } := by
    subst hh₂ hh₁
    rfl
  have e' : L.remove p = (L₂.setNext p none).setPrev p none := by
    subst hL₂ hL₁
    cases hb : L.prev p with
    | none => cases hn : L.next p <;> simp only [Links.remove, hb, hn]
    | some b =>
      cases hn : (L.setNext b (L.next p)).next p <;> simp only [Links.remove, hb, hn]
  rw [e, e']
  refine ⟨⟨hs₃.head, hs₃.next, hs₃.prev⟩, (ho₁.trans ho₂).trans ?_⟩
  exact ⟨ho₃.mem, ho₃.heapStart, ho₃.heapEnd, ho₃.heapCanary, ho₃.allocatedBytes,
    ho₃.allocationCount, ho₃.initialized⟩

/-- **Adding to the list does to the links in memory what insertion at the head does.** -/
theorem addToFreeList_shows (hs : Shows h L) (hp : p % ALIGNMENT = 0) (hp0 : 0 < p)
    (hhead : Linkable L.head) :
    Shows (h.addToFreeList p) (L.insertHead p) ∧ ListOnly h (h.addToFreeList p) := by
  have hs₁ := hs.setPrevFree (n := none) hp (by rintro a ⟨⟩)
  have hs₂ := hs₁.setNextFree (n := L.head) hp fun a ha => (hhead a ha).1
  have ho₂ : ListOnly h ((h.setPrevFree p none).setNextFree p L.head) :=
    (ListOnly.setPrevFree hp).trans (.setNextFree hp)
  have hsome : ∀ a, some p = some a → 0 < a := by
    rintro a ⟨⟩
    exact hp0
  unfold Heap.addToFreeList Links.insertHead
  simp only
  have e₁ : (h.setPrevFree p none).freeListHead = L.head := hs.head.symm
  have e₂ : ((h.setPrevFree p none).setNextFree p L.head).freeListHead = L.head := hs.head.symm
  have e₃ : (L.setPrev p none).head = L.head := rfl
  have e₄ : ((L.setPrev p none).setNext p L.head).head = L.head := rfl
  rw [e₁, e₂, e₃, e₄]
  cases hh : L.head with
  | none =>
    rw [hh] at hs₂ ho₂
    exact ⟨⟨rfl, hs₂.next, hs₂.prev⟩, ho₂.mem, rfl, rfl, rfl, rfl, rfl, rfl⟩
  | some q =>
    rw [hh] at hs₂ ho₂
    have hq := hhead q hh
    have hs₃ := hs₂.setPrevFree (n := some p) hq.2 hsome
    have ho₃ := ho₂.trans (ListOnly.setPrevFree (n := some p) hq.2)
    exact ⟨⟨rfl, hs₃.next, hs₃.prev⟩, ho₃.mem, rfl, rfl, rfl, rfl, rfl, rfl⟩

end FreeList

/-! ## 5. Blocks leave and enter the books -/

section Moves

variable {h h' : Heap} {bs : List Block} {fl : List Nat} {b : Block}

theorem Books.linkable (hb : Books h bs fl) {n : Option Nat} (hn : ∀ a, n = some a → a ∈ fl) :
    Linkable n := fun a ha =>
  have hf := hb.free_fits (hn a ha)
  ⟨hf.1, hf.2.1⟩

theorem Books.tagged_of_listOnly (hb : Books h bs fl) (ho : ListOnly h h') :
    ∀ x ∈ bs, Tagged h'.mem h'.heapCanary x := by
  intro x hx
  rw [ho.heapCanary]
  exact (hb.tagged x hx).congr (hb.fits x hx) fun w _ h8 h16 => ho.mem w h8 h16

/-- **A free block leaves the free list.** -/
theorem Books.remove (hb : Books h (b :: bs) fl) (hu : b.used = false) :
    Books (h.removeFromFreeList b.addr) bs (fl.erase b.addr) ∧
      ListOnly h (h.removeFromFreeList b.addr) := by
  obtain ⟨L, hs, hl⟩ := hb.linked
  have hfree := hb.free
  rw [freeAddrs_cons_free hu] at hfree
  have hmem : b.addr ∈ fl := hfree.mem_iff.mpr mem_cons_self
  have hfit := hb.fits b mem_cons_self
  obtain ⟨hs', ho⟩ := removeFromFreeList_shows hs hfit.aligned
    (hb.linkable fun a ha => Links.linked_neighbours hl hmem (.inl ha))
    (hb.linkable fun a ha => Links.linked_neighbours hl hmem (.inr ha))
  refine ⟨⟨fun x hx => hb.fits x (.tail _ hx), fun x hx => ?_, ⟨_, hs', Links.linked_remove hl hmem⟩,
    ?_, ?_⟩, ho⟩
  · exact hb.tagged_of_listOnly ho x (.tail _ hx)
  · have := hfree.erase b.addr
    rwa [erase_cons_head] at this
  show (h.removeFromFreeList b.addr).freeBlockCount = _
  have hcount : (h.removeFromFreeList b.addr).freeBlockCount = h.freeBlockCount - 1 := by
    unfold Heap.removeFromFreeList
    simp only
    split <;> split <;> rfl
  rw [hcount, hb.count, length_erase_of_mem hmem]

/-- **A free block enters it.** -/
theorem Books.addFree (hb : Books h bs fl) (hf : b.Fits) (ht : Tagged h.mem h.heapCanary b)
    (hu : b.used = false) (hnew : b.addr ∉ fl) :
    Books (h.addToFreeList b.addr) (b :: bs) (b.addr :: fl) ∧
      ListOnly h (h.addToFreeList b.addr) := by
  obtain ⟨L, hs, hl⟩ := hb.linked
  obtain ⟨hs', ho⟩ := addToFreeList_shows hs hf.aligned hf.pos
    (hb.linkable fun a ha => by rw [hl.head] at ha; exact mem_of_head? ha)
  refine ⟨⟨?_, ?_, ⟨_, hs', Links.linked_insertHead hl hnew⟩, ?_, ?_⟩, ho⟩
  · intro x hx
    rcases mem_cons.mp hx with rfl | hx
    · exact hf
    · exact hb.fits x hx
  · intro x hx
    rcases mem_cons.mp hx with rfl | hx
    · rw [ho.heapCanary]
      exact ht.congr hf fun w _ h8 h16 => ho.mem w h8 h16
    · exact hb.tagged_of_listOnly ho x hx
  · rw [freeAddrs_cons_free hu]
    exact hb.free.cons _
  · have hcount : (h.addToFreeList b.addr).freeBlockCount = h.freeBlockCount + 1 := by
      unfold Heap.addToFreeList
      simp only
      split <;> rfl
    rw [hcount, hb.count, length_cons]

/-- An allocated block leaves the books. -/
theorem Books.forget (hb : Books h (b :: bs) fl) (hu : b.used = true) : Books h bs fl := by
  have hfree := hb.free
  rw [freeAddrs_cons_used hu] at hfree
  exact ⟨fun x hx => hb.fits x (.tail _ hx), fun x hx => hb.tagged x (.tail _ hx), hb.linked, hfree,
    hb.count⟩

/-- An allocated block enters them. -/
theorem Books.add (hb : Books h bs fl) (hf : b.Fits) (ht : Tagged h.mem h.heapCanary b)
    (hu : b.used = true) : Books h (b :: bs) fl := by
  refine ⟨?_, ?_, hb.linked, ?_, hb.count⟩
  · intro x hx
    rcases mem_cons.mp hx with rfl | hx
    · exact hf
    · exact hb.fits x hx
  · intro x hx
    rcases mem_cons.mp hx with rfl | hx
    · exact ht
    · exact hb.tagged x hx
  · rw [freeAddrs_cons_used hu]
    exact hb.free

end Moves

end Zigk.Mm
