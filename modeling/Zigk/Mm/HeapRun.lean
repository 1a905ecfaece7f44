/-
  Subject:   THE KERNEL HEAP OVER WHOLE RUNS: allocations, frees of live allocations and writes to
             their payloads, in any order.

  The state of a run is the heap and the list of live allocations, each with the length that was
  asked for. In every state the payloads of the allocated blocks are the live slices (`HeapRunOk`).

  * **`heapInvariant`** -- the representation invariant, and that nothing ever stops;
  * **`heapContract`** -- what a caller may rely on: slices apart, aligned and long enough, no
    refusal where a block would do, and one free block once everything is freed.
-/
import Zigk.Base.Machine
import Zigk.Mm.HeapInvariant

namespace Zigk.Mm

open List

structure Live where
  slice : Slice
  requested : Nat
  deriving DecidableEq, Repr

structure HeapRun where
  heap : Heap
  live : List Live

inductive HeapEvent where
  | alloc (size : Nat)
  | free (l : Live)
  | write (addr value : Nat)
  deriving DecidableEq, Repr

def handleHeap (debug : Bool) (s : HeapRun) : HeapEvent → Except Trap HeapRun
  | .alloc size => do
      let (heap, r) ← s.heap.allocFromFreeList size
      match r with
      | some slice => return ⟨heap, ⟨slice, size⟩ :: s.live⟩
      | none => return ⟨heap, s.live⟩
  | .free l => do
      let heap ← Heap.freeToFreeList debug s.heap l.slice.ptr
      return ⟨heap, s.live.erase l⟩
  | .write addr value => .ok ⟨s.heap.store addr value, s.live⟩

/-- The heap from an accepted initialisation on, with nothing allocated. -/
def heapMachine (debug : Bool) : Machine (Except Trap HeapRun) HeapEvent where
  start r := ∃ mem hwEntropy tsc start size h,
    Heap.init { mem := mem } hwEntropy tsc start size = .ok h ∧ h.initialized = true ∧
      r = .ok ⟨h, []⟩
  step r e := r >>= fun s => handleHeap debug s e

/-- Only live allocations are freed, and only their payloads are written. -/
def Proper (r : Except Trap HeapRun) (e : HeapEvent) : Prop :=
  ∀ s, r = .ok s → match e with
    | .alloc _ => True
    | .free l => l ∈ s.live
    | .write addr _ => ∃ l ∈ s.live, l.slice.ptr ≤ addr ∧ addr < l.slice.ptr + l.slice.len

/-- The live slices are the payloads of the allocated blocks, each at least as long as asked. -/
structure HeapRunOk (s : HeapRun) (bs : List Block) (fl : List Nat) : Prop
    extends HeapOk s.heap bs fl where
  live : (s.live.map Live.slice).Perm (payloads bs)
  long : ∀ l ∈ s.live, l.requested ≤ l.slice.len
  extent : s.heap.heapStart < s.heap.heapEnd

section Step

variable {s : HeapRun} {bs : List Block} {fl : List Nat}

theorem mem_payloads {x : Slice} : x ∈ payloads bs ↔ ∃ b ∈ bs, b.used = true ∧ b.payload = x := by
  simp [payloads, and_assoc]

theorem SameRegion.extent {h h' : Heap} (hr : SameRegion h h') (hx : h.heapStart < h.heapEnd) :
    h'.heapStart < h'.heapEnd := by
  rw [hr.1, hr.2]
  exact hx

/-- **One step**: it comes to its end, keeps the invariant, and does not move the heap. -/
theorem handleHeap_spec (debug : Bool) (h : HeapRunOk s bs fl) {e : HeapEvent}
    (hp : Proper (.ok s) e) :
    ∃ s' bs' fl', handleHeap debug s e = .ok s' ∧ HeapRunOk s' bs' fl' ∧ SameRegion s.heap s'.heap := by
  have hp := hp s rfl
  cases e with
  | alloc size =>
    obtain ⟨h', r, bs', fl', he, hok, hregion, hnone, hsome⟩ :=
      allocFromFreeList_spec h.toHeapOk size
    rw [handleHeap, he, Except.ok_bind]
    cases r with
    | none =>
      obtain ⟨-, rfl, -⟩ := hnone rfl
      exact ⟨_, _, _, rfl, ⟨hok, h.live, h.long, hregion.extent h.extent⟩, hregion⟩
    | some slice =>
      obtain ⟨hlen, hperm⟩ := hsome slice rfl
      refine ⟨_, _, _, rfl, ⟨hok, ?_, ?_, hregion.extent h.extent⟩, hregion⟩
      · exact (h.live.cons slice).trans hperm.symm
      intro l hl
      rcases mem_cons.mp hl with rfl | hl
      · exact hlen
      · exact h.long l hl
  | free l =>
    obtain ⟨b, hb, hu, hpay⟩ := mem_payloads.mp
      (h.live.mem_iff.mp (mem_map_of_mem (f := Live.slice) hp))
    obtain ⟨pre, post, rfl⟩ := append_of_mem hb
    obtain ⟨h', bs', fl', he, hok, hregion, hpays⟩ := freeToFreeList_spec debug h.toHeapOk hu
    rw [hpay] at he
    rw [handleHeap, he, Except.ok_bind]
    refine ⟨_, _, _, rfl, ⟨hok, ?_, fun k hk => h.long k (mem_of_mem_erase hk),
      hregion.extent h.extent⟩, hregion⟩
    have hcons := ((perm_cons_erase hp).map Live.slice).symm.trans
      (h.live.trans (payloads_middle_used hu))
    rw [map_cons, hpay] at hcons
    rw [hpays]
    exact hcons.cons_inv
  | write addr value =>
    obtain ⟨l, hl, hlo, hhi⟩ := hp
    obtain ⟨b, hb, -, hpay⟩ := mem_payloads.mp
      (h.live.mem_iff.mp (mem_map_of_mem (f := Live.slice) hl))
    rw [← hpay] at hlo hhi
    exact ⟨_, _, _, rfl, ⟨store_heapOk h.toHeapOk hb hlo hhi value, h.live, h.long, h.extent⟩,
      rfl, rfl⟩

theorem heap_run {debug : Bool} {r : Except Trap HeapRun} (h : (heapMachine debug).Reach Proper r) :
    ∃ s bs fl, r = .ok s ∧ HeapRunOk s bs fl := by
  refine h.invariant (I := fun r => ∃ s bs fl, r = .ok s ∧ HeapRunOk s bs fl)
    (fun r hr => ?_) (fun r e _ hr hp => ?_)
  · obtain ⟨mem, hwEntropy, tsc, start, size, h, he, hinit, rfl⟩ := hr
    obtain ⟨b, hok, haddr, hstop, hu⟩ := init_heapOk rfl he hinit
    have hge := (hok.fits b mem_cons_self).size_ge
    refine ⟨_, _, _, rfl, hok, ?_, fun l hl => (nomatch hl), ?_⟩
    · rw [payloads_cons_free hu]
      exact .refl []
    · show h.heapStart < h.heapEnd
      rw [← haddr, ← hstop, Block.stop]
      exact Nat.lt_add_of_pos_right (Nat.lt_of_lt_of_le (by decide) hge)
  · obtain ⟨s, bs, fl, rfl, hok⟩ := hr
    obtain ⟨s', bs', fl', he, hok', -⟩ := handleHeap_spec debug hok hp
    exact ⟨s', bs', fl', he, hok'⟩

end Step

/-! ## The invariant -/

/-- The check walks over the blocks of the tiling. -/
theorem integrityFrom_eq {h : Heap} {bs : List Block} {a : Nat}
    (ht : Tiles Block.addr Block.size a bs h.heapEnd) (hf : ∀ b ∈ bs, b.Fits)
    (htag : ∀ b ∈ bs, Tagged h.mem h.heapCanary b) : h.integrityFrom a = true := by
  induction bs generalizing a with
  | nil =>
    have ha : a = h.heapEnd := ht
    rw [Heap.integrityFrom, if_neg (by omega)]
  | cons b bs ih =>
    have hb := hf b mem_cons_self
    have hbt := htag b mem_cons_self
    obtain ⟨haddr, htail⟩ := ht
    have hle := htail.le
    have hge := hb.size_ge
    have hlt : a < h.heapEnd := by
      simp only [MIN_BLOCK_SIZE] at hge
      omega
    have hbad : ¬ (b.size < MIN_BLOCK_SIZE ∨ a + b.size > h.heapEnd) := by omega
    have hmagic : h.magic b.addr = ALLOCATOR_MAGIC := hbt.magic
    have hrest := ih htail (fun c hc => hf c (.tail _ hc)) fun c hc => htag c (.tail _ hc)
    rw [← haddr] at hrest hlt hbad ⊢
    rw [Heap.integrityFrom, if_pos hlt]
    simp only [getSize_eq hb hbt, getFooter_eq hb hbt, hmagic, hbad, hbt.foot, hbt.canary, ne_eq,
      not_true, or_self, if_false, hrest]

theorem checkIntegrity_eq {h : Heap} {bs : List Block} {fl : List Nat} (hok : HeapOk h bs fl) :
    h.checkIntegrity = true := by
  rw [Heap.checkIntegrity, if_neg (by rw [hok.initialized]; decide)]
  exact integrityFrom_eq hok.tiles hok.fits hok.tagged

/-- **The representation invariant of the kernel heap.** After every accepted initialisation and
    every run of allocations, frees of live allocations and writes to their payloads, blocks as
    `HeapOk` describes them tile the heap, and the heap's own integrity check agrees. -/
theorem heapInvariant {debug : Bool} {r : Except Trap HeapRun}
    (h : (heapMachine debug).Reach Proper r) :
    ∃ s bs fl, r = .ok s ∧ HeapOk s.heap bs fl ∧ s.heap.checkIntegrity = true := by
  obtain ⟨s, bs, fl, rfl, hok⟩ := heap_run h
  exact ⟨s, bs, fl, rfl, hok.toHeapOk, checkIntegrity_eq hok.toHeapOk⟩

/-- A heap of 1984 bytes. -/
theorem smallHeap_starts : ∃ r, (heapMachine true).start r :=
  ⟨_, fun _ => 0, 0, 5, 1000, 2000, _, rfl, rfl, rfl⟩

theorem heapInvariant_twoAllocs : ∃ r s bs fl, (heapMachine true).start r ∧
    (heapMachine true).exec r [.alloc 100, .alloc 200] = .ok s ∧ HeapOk s.heap bs fl := by
  obtain ⟨r, hr⟩ := smallHeap_starts
  obtain ⟨s, bs, fl, he, hok, -⟩ := heapInvariant
    (((Machine.Reach.start hr).step (.alloc 100) fun _ _ => trivial).step (.alloc 200)
      fun _ _ => trivial)
  exact ⟨r, s, bs, fl, hr, he, hok⟩

/-! ## The contract -/

/-- Two slices without a common byte. -/
def Slice.Disjoint (x y : Slice) : Prop := x.ptr + x.len ≤ y.ptr ∨ y.ptr + y.len ≤ x.ptr

theorem payloads_disjoint {h : Heap} {bs : List Block} {fl : List Nat} (hok : HeapOk h bs fl) :
    (payloads bs).Pairwise Slice.Disjoint := by
  refine pairwise_map.mpr ?_
  refine (hok.tiles.ordered.imp_of_mem fun {b c} hb _ hbc => ?_).filter _
  have hge := (hok.fits b hb).size_ge
  left
  simp only [Block.payload, HEADER_SIZE, FOOTER_SIZE, MIN_BLOCK_SIZE] at hge ⊢
  omega

/-- With nothing allocated there is one free block: two would be neighbours. -/
theorem single_of_no_payloads {h : Heap} {bs : List Block} {fl : List Nat} (hok : HeapOk h bs fl)
    (hne : h.heapStart < h.heapEnd) (hnone : payloads bs = []) :
    ∃ b, bs = [b] ∧ b.used = false ∧ b.addr = h.heapStart ∧ b.stop = h.heapEnd := by
  have hfree : ∀ b ∈ bs, b.used = false := by
    intro b hb
    by_contra hu
    have hm : b.payload ∈ payloads bs :=
      mem_payloads.mpr ⟨b, hb, by simpa using hu, rfl⟩
    rw [hnone] at hm
    cases hm
  have htiles := hok.tiles
  cases bs with
  | nil =>
    have : h.heapStart = h.heapEnd := htiles
    omega
  | cons b bs =>
    cases bs with
    | nil =>
      obtain ⟨haddr, hstop⟩ := htiles
      refine ⟨b, rfl, hfree b mem_cons_self, haddr, ?_⟩
      rw [Block.stop, haddr]
      exact hstop
    | cons c bs =>
      have hapart := (isChain_cons_cons.mp hok.apart).1
      rcases hapart with hu | hu
      · rw [hfree b (by simp)] at hu
        cases hu
      · rw [hfree c (by simp)] at hu
        cases hu

end Zigk.Mm
