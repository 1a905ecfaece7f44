/-
  Subject:   CACHE, DISK AND COUNTER OF THE ALLOCATOR AGREE, IF NO STALE SECTOR IS WRITTEN.

  Between two lock sections the bitmap exists three times: in the cache, on the disk, and in the
  copy of a sector that a call is about to write. `books` is what the lock sections made of it.

  * `Vol.Calm` -- a sector is written from a copy that is up to date but for the call's own bit and
    loaded while no bit of it is on its way; the superblock's write does not fail; callers free what
    they hold;
  * `owner`, `pending`, `effect` -- the block of a call, whether its bit is taken in the books and
    not on the disk, and what the call has changed in the books so far;
  * **`allocatorBooks`** -- every run of calm steps; `allocatorBooks_refuted` -- a block is taken
    while another is given back.
-/
import Mathlib.Order.Interval.Finset.Nat
import Zigk.Fs.SfsBitmapBounds

namespace Zigk.SfsAlloc

open Function List Bool
open Zigk.Sfs (U32_MAX)

/-! ## 1. Calls and their bits -/

namespace Task

variable (sb : Superblock)

/-- The block that is the call's own: it has been taken or has not been given back yet. -/
def owner : Task → Option Nat
  | .allocateBlock (.write block_num _ _) | .allocateBlock (.rollback block_num)
  | .allocateBlock (.superblock block_num) => some block_num
  | .freeBlock block_num .start => if block_num < sb.data_start then none else some block_num
  | .freeBlock block_num (.write _ _) | .freeBlock block_num .account => some block_num
  | _ => none

/-- The bit that is set in the books and clear on the disk. -/
def pending : Task → Option Nat
  | .allocateBlock (.write block_num _ _) | .allocateBlock (.rollback block_num)
  | .freeBlock block_num .account => some (sb.rel block_num)
  | _ => none

/-- What the call has changed in the books: it set a bit, or cleared one. -/
def effect (rel : Nat) : Task → Int
  | .allocateBlock (.write block_num _ _) | .allocateBlock (.rollback block_num)
  | .allocateBlock (.superblock block_num) | .allocateBlock (.done (.ok block_num)) =>
    if sb.rel block_num = rel then 1 else 0
  | .freeBlock block_num .superblock | .freeBlock block_num (.done (.ok ())) =>
    if sb.rel block_num = rel then -1 else 0
  | _ => 0

/-- What a call that returned without an error has changed. -/
def outcome (rel : Nat) : Task → Int
  | .allocateBlock (.done (.ok block_num)) => if sb.rel block_num = rel then 1 else 0
  | .freeBlock block_num (.done (.ok ())) => if sb.rel block_num = rel then -1 else 0
  | _ => 0

/-- How far the bitmap is loaded, and what was read. -/
def loads : Task → Option (Nat × Bitmap)
  | .allocateBlock (.load next bitmap_buf) => some (next, bitmap_buf)
  | _ => none

def isDone : Task → Bool
  | .allocateBlock (.done _) | .freeBlock _ (.done _) => true
  | _ => false

end Task

namespace Vol

variable (s : Vol)

def idle : Prop := ∀ task ∈ s.tasks, task.isDone = true

/-- The bit of a block on the disk. -/
def diskBit (rel : Nat) : Bool := (s.disk (s.sb.lba rel)).bit (bitInSector rel)

/-- The bits of blocks of the volume that are clear. -/
def clear (bit : Nat → Bool) : Finset Nat :=
  (Finset.range s.sb.bits).filter fun r =>
    s.sb.data_start + r < s.sb.total_blocks ∧ bit r = false

/-- A sector is loaded while no bit of it is on its way, and written from a copy that is the sector
    but for the own bit; the superblock's write succeeds, so that no call is to undo it. -/
def CalmTask (ok : Bool) : Task → Prop
  | .allocateBlock (.load next _) =>
    ok = true → ∀ task ∈ s.tasks, ∀ r ∈ task.pending s.sb, r / 8 / 512 ≠ next
  | .allocateBlock (.write block_num lba sector_data) =>
    ok = true → sector_data = (s.disk lba).setBit (bitInSector (s.sb.rel block_num))
  | .freeBlock block_num (.write lba sector_buf) =>
    ok = true → sector_buf = (s.disk lba).clearBit (bitInSector (s.sb.rel block_num))
  | .allocateBlock (.superblock _) | .freeBlock _ .superblock => ok = true
  | .allocateBlock .undo => False
  | _ => True

def Calm : Input → Prop
  | .allocateBlock => True
  | .freeBlock block_num => block_num < s.sb.data_start ∨ block_num ∈ s.held
  | .run t ok => ∀ task ∈ s.tasks[t]?, s.CalmTask ok task

instance (ok : Bool) (task : Task) : Decidable (s.CalmTask ok task) := by
  unfold CalmTask
  split <;> infer_instance

instance (input : Input) : Decidable (s.Calm input) := by
  unfold Calm
  split <;> infer_instance

end Vol

/-- The block has a bit in the books, and it is set. -/
structure HasBit (s : Vol) (block_num : Nat) : Prop where
  start : s.sb.data_start ≤ block_num
  total : block_num < s.sb.total_blocks
  bits : s.sb.rel block_num < s.sb.bits
  set : s.books (s.sb.rel block_num) = true

/-- **The invariant**, over the calls in any order. -/
structure Books (s₀ s : Vol) (l : List Task) : Prop where
  owned : (s.held ++ l.filterMap (Task.owner s.sb)).Nodup
  blocks : ∀ b ∈ s.held ++ l.filterMap (Task.owner s.sb), HasBit s b
  pending : ∀ task ∈ l, ∀ r, task.pending s.sb = some r → s.diskBit r = false
  settled : ∀ r < s.sb.bits, (∀ task ∈ l, task.pending s.sb ≠ some r) → s.diskBit r = s.books r
  cached : ∀ m, s.cache = .valid m → ∀ r < s.sb.bits, m.bit r = s.books r
  unlocked : s.lock = none → l.filterMap Task.loads = []
  locked : (l.filterMap Task.loads).length ≤ 1
  loading : ∀ p ∈ l.filterMap Task.loads, ∀ r < p.1 * 4096, p.2.bit r = s.books r
  counted : s.sb.free_blocks + (s₀.clear s₀.books).card =
    s₀.sb.free_blocks + (s.clear s.books).card
  balance : ∀ r < s.sb.bits, ((s.books r).toNat : Int) =
    (s₀.books r).toNat + (l.map (Task.effect s.sb r)).sum

section Books

variable {s₀ s : Vol} {l rest : List Task} {x y : Task} {b r t n : Nat} {m buf : Bitmap}

/-- **Other calls take their places**, and the books say the same of them: their blocks may go to
    their callers. -/
theorem Books.become (h : Books s₀ s l) {l' : List Task} (held : List Nat)
    (hperm : (held ++ l'.filterMap (Task.owner s.sb)).Perm
      (s.held ++ l.filterMap (Task.owner s.sb)))
    (hp : ∀ r, (∃ x ∈ l', x.pending s.sb = some r) ↔ ∃ x ∈ l, x.pending s.sb = some r)
    (hloads : (l'.filterMap Task.loads).Subperm (l.filterMap Task.loads))
    (he : ∀ r, (l'.map (Task.effect s.sb r)).sum = (l.map (Task.effect s.sb r)).sum) :
    Books s₀ (s.setHeld held) l' where
  owned := hperm.nodup_iff.2 h.owned
  blocks b hb := by
    obtain ⟨h₁, h₂, h₃, h₄⟩ := h.blocks b (hperm.mem_iff.1 hb)
    exact ⟨h₁, h₂, h₃, h₄⟩
  pending task hm r hr := by
    obtain ⟨x, hx, hr⟩ := (hp r).1 ⟨task, hm, hr⟩
    exact h.pending x hx r hr
  settled r hr hno := h.settled r hr fun task hm e => by
    obtain ⟨x, hx, e⟩ := (hp r).2 ⟨task, hm, e⟩
    exact hno x hx e
  cached := h.cached
  unlocked e := subperm_nil.1 (h.unlocked e ▸ hloads)
  locked := hloads.length_le.trans h.locked
  loading p hm := h.loading p (hloads.subset hm)
  counted := h.counted
  balance r hr := (h.balance r hr).trans (congrArg _ (he r).symm)

theorem Books.perm (h : Books s₀ s l) {l' : List Task} (hl : l'.Perm l) : Books s₀ s l' :=
  h.become s.held ((hl.filterMap _).append_left _)
    (fun _ => exists_congr fun _ => and_congr_left' hl.mem_iff) (hl.filterMap _).subperm
    fun _ => (hl.map _).sum_eq

theorem owner_of_pending {sb : Superblock} (h : x.pending sb = some r) :
    ∃ b, x.owner sb = some b ∧ sb.rel b = r := by
  unfold Task.pending at h
  split at h
  all_goals
    first
    | cases h
      exact ⟨_, rfl, rfl⟩
    | cases h

theorem HasBit.eq_of_rel {b' : Nat} (hb : HasBit s b) (hb' : HasBit s b')
    (e : s.sb.rel b = s.sb.rel b') : b = b' := by
  have := hb.start
  have := hb'.start
  unfold Superblock.rel at e
  omega

theorem Books.hasBit (h : Books s₀ s (x :: rest)) (hx : x.owner s.sb = some b) : HasBit s b :=
  h.blocks b (mem_append_right _ (mem_filterMap.2 ⟨x, mem_cons_self, hx⟩))

/-- No other call has the bit of an owned block on its way. -/
theorem Books.alone (h : Books s₀ s (x :: rest)) (hx : x.owner s.sb = some b) :
    ∀ task ∈ rest, task.pending s.sb ≠ some (s.sb.rel b) := by
  intro task hm hp
  obtain ⟨b', ho, hrel⟩ := owner_of_pending hp
  have hrest : b' ∈ rest.filterMap (Task.owner s.sb) := mem_filterMap.2 ⟨task, hm, ho⟩
  have hcons : (x :: rest).filterMap (Task.owner s.sb) = b :: rest.filterMap (Task.owner s.sb) :=
    filterMap_cons_some hx
  have hb' := h.blocks b' (mem_append_right _ (hcons ▸ mem_cons_of_mem _ hrest))
  have hb := h.hasBit hx
  have hne := (nodup_append.1 h.owned).2.1
  rw [hcons] at hne
  exact (nodup_cons.1 hne).1 (hb'.eq_of_rel hb hrel ▸ hrest)

/-- A block whose bit is clear in the books is nobody's, and no call has its bit on its way. -/
theorem Books.unowned (h : Books s₀ s l) (hb : s.books (s.sb.rel b) = false) :
    b ∉ s.held ++ l.filterMap (Task.owner s.sb) ∧
      ∀ task ∈ l, task.pending s.sb ≠ some (s.sb.rel b) := by
  refine ⟨fun hm => ?_, fun task hm hp => ?_⟩
  · rw [(h.blocks b hm).set] at hb
    cases hb
  obtain ⟨b', ho, hrel⟩ := owner_of_pending hp
  have := h.blocks b' (mem_append_right _ (mem_filterMap.2 ⟨task, hm, ho⟩))
  rw [← hrel, this.set] at hb
  cases hb

theorem loads_cons (hx : x.loads = none) :
    (x :: rest).filterMap Task.loads = rest.filterMap Task.loads :=
  filterMap_cons_none hx

theorem Books.loads_rest (h : Books s₀ s (x :: rest)) :
    (s.lock = none → rest.filterMap Task.loads = []) ∧ (rest.filterMap Task.loads).length ≤ 1 ∧
      ∀ p ∈ rest.filterMap Task.loads, p ∈ (x :: rest).filterMap Task.loads := by
  have hsub : (rest.filterMap Task.loads).Sublist ((x :: rest).filterMap Task.loads) :=
    (sublist_cons_self x rest).filterMap _
  refine ⟨fun e => ?_, hsub.length_le.trans h.locked, fun p hp => hsub.subset hp⟩
  have := h.unlocked e
  rw [this] at hsub
  exact sublist_nil.1 hsub

/-- **A call moves on** and changes no bit: its block stays its own or goes to its caller. -/
theorem Books.replace (h : Books s₀ s (x :: rest)) (held : List Nat)
    (hperm : (held ++ (y :: rest).filterMap (Task.owner s.sb)).Perm
      (s.held ++ (x :: rest).filterMap (Task.owner s.sb)))
    (hp : y.pending s.sb = x.pending s.sb) (he : ∀ r, y.effect s.sb r = x.effect s.sb r)
    (hy : y.loads = none) : Books s₀ (s.setHeld held) (y :: rest) := by
  refine h.become held hperm (fun r => ?_) ?_ fun r => ?_
  · rw [exists_mem_cons_iff, exists_mem_cons_iff, hp]
  · rw [loads_cons hy]
    exact ((sublist_cons_self x rest).filterMap _).subperm
  · rw [map_cons, map_cons, sum_cons, sum_cons, he]

/-- A call that keeps its block moves on. -/
theorem Books.next (h : Books s₀ s (x :: rest)) (ho : y.owner s.sb = x.owner s.sb)
    (hp : y.pending s.sb = x.pending s.sb) (he : ∀ r, y.effect s.sb r = x.effect s.sb r)
    (hy : y.loads = none) : Books s₀ s (y :: rest) := by
  refine h.replace s.held (.of_eq ?_) hp he hy
  rw [filterMap_cons, filterMap_cons, ho]

/-- A call begins. The block it gives back was its caller's. -/
theorem Books.add (h : Books s₀ s l) (held : List Nat)
    (hperm : (held ++ (y :: l).filterMap (Task.owner s.sb)).Perm
      (s.held ++ l.filterMap (Task.owner s.sb)))
    (hp : y.pending s.sb = none) (he : ∀ r, y.effect s.sb r = 0) (hy : y.loads = none) :
    Books s₀ (s.setHeld held) (y :: l) := by
  refine h.become held hperm (fun r => ?_) ?_ fun r => ?_
  · rw [exists_mem_cons_iff, hp]
    exact or_iff_right nofun
  · rw [loads_cons hy]
  · rw [map_cons, sum_cons, he, zero_add]

/-! ## 2. Lock sections -/

theorem clear_take {bit : Nat → Bool} (hr : r ∈ s.clear bit) :
    (s.clear (update bit r true)).card + 1 = (s.clear bit).card := by
  have : s.clear (update bit r true) = (s.clear bit).erase r := by
    ext k
    simp only [Vol.clear, Finset.mem_filter, Finset.mem_erase, update_apply]
    grind
  rw [this]
  exact Finset.card_erase_add_one hr

theorem clear_give {bit : Nat → Bool} (hr : r < s.sb.bits)
    (ht : s.sb.data_start + r < s.sb.total_blocks) (hb : bit r = true) :
    (s.clear (update bit r false)).card = (s.clear bit).card + 1 := by
  have : s.clear (update bit r false) = insert r (s.clear bit) := by
    ext k
    simp only [Vol.clear, Finset.mem_filter, Finset.mem_insert, Finset.mem_range,
      update_apply]
    grind
  rw [this]
  refine Finset.card_insert_of_notMem fun hm => ?_
  have := (Finset.mem_filter.1 hm).2.2
  rw [hb] at this
  cases this

/-- **A block is taken** whose bit is clear in the books. -/
theorem Books.take (h : Books s₀ s (x :: rest)) (hlock : s.lock = none)
    (hclear : (s₀.clear s₀.books).card ≤ s₀.sb.free_blocks)
    (hox : x.owner s.sb = none) (hpx : x.pending s.sb = none)
    (hex : ∀ r, x.effect s.sb r = 0) (hstart : s.sb.data_start ≤ b)
    (htotal : b < s.sb.total_blocks) (hbits : s.sb.rel b < s.sb.bits)
    (hb : s.books (s.sb.rel b) = false) {c : Cache}
    (hc : ∀ m, c = .valid m → ∀ r < s.sb.bits,
      m.bit r = update s.books (s.sb.rel b) true r) (lba : Nat) (data : Bitmap) :
    Books s₀ { (s.setFree (s.sb.free_blocks - 1)).setBook (s.sb.rel b) true with cache := c }
      (.allocateBlock (.write b lba data) :: rest) := by
  obtain ⟨hnot, hpend⟩ := h.unowned hb
  have hcons : (x :: rest).filterMap (Task.owner s.sb) = rest.filterMap (Task.owner s.sb) :=
    filterMap_cons_none hox
  have howned := h.owned
  have hblocks := h.blocks
  rw [hcons] at hnot howned hblocks
  have hmem : ∀ b', b' ∈ s.held ++ b :: rest.filterMap (Task.owner s.sb) ↔
      b' ∈ b :: (s.held ++ rest.filterMap (Task.owner s.sb)) := fun _ =>
    perm_middle.mem_iff
  have hfree : s.sb.rel b ∈ s.clear s.books := by
    refine Finset.mem_filter.2 ⟨Finset.mem_range.2 hbits, ?_, hb⟩
    unfold Superblock.rel
    omega
  have hcard := clear_take hfree
  have hnil := h.loads_rest.1 hlock
  refine ⟨?_, ?_, ?_, ?_, hc, fun _ => hnil, ?_, ?_, ?_, ?_⟩
  · exact (perm_middle.nodup_iff).2 (nodup_cons.2 ⟨hnot, howned⟩)
  · intro b' hb'
    rcases mem_cons.1 ((hmem b').1 hb') with rfl | hb'
    · exact ⟨hstart, htotal, hbits, update_self ..⟩
    obtain ⟨h₁, h₂, h₃, h₄⟩ := hblocks b' hb'
    refine ⟨h₁, h₂, h₃, ?_⟩
    show update s.books (s.sb.rel b) true (s.sb.rel b') = true
    rw [update_apply, h₄]
    exact ite_self _
  · intro task hm r hr
    rcases mem_cons.1 hm with rfl | hm
    · cases hr
      exact (h.settled _ hbits hpend).trans hb
    · exact h.pending task (mem_cons_of_mem _ hm) r hr
  · intro r hr hno
    have hne : r ≠ s.sb.rel b := fun e => hno _ mem_cons_self (congrArg some e.symm)
    show s.diskBit r = update s.books (s.sb.rel b) true r
    rw [update_of_ne hne]
    refine h.settled r hr fun task hm => ?_
    rcases mem_cons.1 hm with rfl | hm
    · rw [hpx]
      exact nofun
    · exact hno task (mem_cons_of_mem _ hm)
  · rw [loads_cons rfl, hnil]
    exact Nat.zero_le _
  · intro p hp
    rw [loads_cons rfl, hnil] at hp
    cases hp
  · have := h.counted
    show s.sb.free_blocks - 1 + (s₀.clear s₀.books).card =
      s₀.sb.free_blocks + (s.clear (update s.books (s.sb.rel b) true)).card
    omega
  · intro r hr
    have := h.balance r hr
    rw [map_cons, sum_cons, hex r, zero_add] at this
    show ((update s.books (s.sb.rel b) true r).toNat : Int) =
      (s₀.books r).toNat + ((if s.sb.rel b = r then 1 else 0) +
        (rest.map (Task.effect s.sb r)).sum)
    by_cases e : r = s.sb.rel b
    · rw [e, hb] at this
      rw [e, update_self, if_pos rfl]
      simp only [toNat_false, toNat_true] at this ⊢
      omega
    · rw [update_of_ne e, if_neg (fun e' => e e'.symm), zero_add]
      exact this

/-- The cache after a bit was cleared. -/
theorem cache_clearCache (hc : ∀ m, s.cache = .valid m → m.length = s.sb.bytes ∧
      ∀ k < s.sb.bits, m.bit k = s.books k) (hr : r < s.sb.bits) {m : Bitmap}
    (e : (s.clearCache r).cache = .valid m) {k : Nat} (hk : k < s.sb.bits) :
    m.bit k = update s.books r false k := by
  unfold Vol.clearCache at e
  split at e
  · rename_i m' e'
    obtain ⟨hlen, hbit⟩ := hc m' e'
    cases e
    have hin : r / 8 < m'.length := by
      unfold Superblock.bits at hr
      omega
    rw [Bitmap.bit_clearBit k hin, update_apply, hbit k hk]
    by_cases h : k = r
    · rw [if_pos h, decide_eq_true h]
      rfl
    · rw [if_neg h, decide_eq_false h]
      rfl
  · rename_i hno
    exact absurd e (hno m)

/-- The state after a bit was given back, but for the call. -/
def Vol.release (s : Vol) (rel : Nat) : Vol := (s.clearCache rel).credit.setBook rel false

theorem release_fields : (s.release r).held = s.held ∧ (s.release r).disk = s.disk ∧
    (s.release r).lock = s.lock ∧ (s.release r).tasks = s.tasks ∧
    (s.release r).cache = (s.clearCache r).cache ∧
    (∃ n, n = min (s.sb.free_blocks + 1) U32_MAX ∧
      (s.release r).sb = { s.sb with free_blocks := n }) ∧
    (s.release r).books = update s.books r false := by
  unfold Vol.release Vol.clearCache
  split <;> exact ⟨rfl, rfl, rfl, rfl, rfl, ⟨_, rfl, rfl⟩, rfl⟩

/-- The counter goes up with the clear bits: it is far from its end. -/
theorem credit_eq {free free₀ n c c' bits max : Nat} (h : free + n = free₀ + c) (hc : c' = c + 1)
    (hfit : c' ≤ bits) (hmax : free₀ + bits < max) : min (free + 1) max + n = free₀ + c' := by
  omega

/-- **A bit is given back** that is clear on the disk. -/
theorem Books.giveBack (h : Books s₀ s (x :: rest)) (hshape : Shape s₀.sb s) (hlock : s.lock = none)
    (hsmall : s₀.sb.free_blocks + s₀.sb.bits < U32_MAX)
    (hox : x.owner s.sb = some b) (hpx : x.pending s.sb = some (s.sb.rel b))
    (hoy : y.owner s.sb = none) (hpy : y.pending s.sb = none)
    (he : ∀ r, x.effect s.sb r = y.effect s.sb r + if s.sb.rel b = r then 1 else 0)
    (hy : y.loads = none) : Books s₀ (s.release (s.sb.rel b)) (y :: rest) := by
  have hcons : (x :: rest).filterMap (Task.owner s.sb) = b :: rest.filterMap (Task.owner s.sb) :=
    filterMap_cons_some hox
  have hb := h.hasBit hox
  have hnil := h.loads_rest.1 hlock
  have howned := h.owned
  rw [hcons, perm_middle.nodup_iff, nodup_cons] at howned
  have hbits : s.sb.bits = s₀.sb.bits := by
    rw [hshape.layout]
    rfl
  have htotal : s.sb.data_start + s.sb.rel b < s.sb.total_blocks := by
    unfold Superblock.rel
    rw [Nat.add_sub_cancel' hb.start]
    exact hb.total
  have hcard := clear_give hb.bits htotal hb.set
  have hfit : (s.clear (update s.books (s.sb.rel b) false)).card ≤ s.sb.bits :=
    (Finset.card_filter_le _ _).trans (Finset.card_range _).le
  obtain ⟨eheld, edisk, -, -, ecache, ⟨n, hn, esb⟩, ebooks⟩ :=
    release_fields (s := s) (r := s.sb.rel b)
  have eowner : Task.owner (s.release (s.sb.rel b)).sb = Task.owner s.sb := by rw [esb]; rfl
  have epend : ∀ task : Task, task.pending (s.release (s.sb.rel b)).sb = task.pending s.sb := by
    rw [esb]
    exact fun _ => rfl
  have edisk' : (s.release (s.sb.rel b)).diskBit = s.diskBit := by
    unfold Vol.diskBit
    rw [esb, edisk]
    rfl
  have ebits : (s.release (s.sb.rel b)).sb.bits = s.sb.bits := by rw [esb]; rfl
  refine ⟨?_, ?_, ?_, ?_, ?_, ?_, ?_, ?_, ?_, ?_⟩
  · rw [eheld, eowner, filterMap_cons_none hoy]
    exact howned.2
  · intro b' hb'
    rw [eheld, eowner, filterMap_cons_none hoy] at hb'
    have hne : b' ≠ b := fun e => howned.1 (e ▸ hb')
    have hold := h.blocks b' (by
      rw [hcons, perm_middle.mem_iff]
      exact mem_cons_of_mem _ hb')
    refine ⟨?_, ?_, ?_, ?_⟩
    · rw [esb]
      exact hold.start
    · rw [esb]
      exact hold.total
    · rw [esb]
      exact hold.bits
    · rw [ebooks, esb]
      show update s.books (s.sb.rel b) false (s.sb.rel b') = true
      rw [update_of_ne fun e => hne (hold.eq_of_rel hb e)]
      exact hold.set
  · intro task hm r hr
    rw [epend] at hr
    rw [edisk']
    rcases mem_cons.1 hm with rfl | hm
    · rw [hpy] at hr
      cases hr
    · exact h.pending task (mem_cons_of_mem _ hm) r hr
  · intro r hr hno
    rw [ebits] at hr
    rw [edisk', ebooks]
    by_cases e : r = s.sb.rel b
    · rw [e, update_self]
      exact h.pending x mem_cons_self _ hpx
    rw [update_of_ne e]
    refine h.settled r hr fun task hm => ?_
    rcases mem_cons.1 hm with rfl | hm
    · rw [hpx]
      exact fun e' => e (Option.some.inj e').symm
    · rw [← epend]
      exact hno task (mem_cons_of_mem _ hm)
  · intro m e k hk
    rw [ecache] at e
    rw [ebits] at hk
    rw [ebooks]
    exact cache_clearCache (fun m e => ⟨hshape.cache m e, h.cached m e⟩) hb.bits e hk
  · intro _
    rw [loads_cons hy, hnil]
  · rw [loads_cons hy, hnil]
    exact Nat.zero_le _
  · intro p hp
    rw [loads_cons hy, hnil] at hp
    cases hp
  · have hclear : (s.release (s.sb.rel b)).clear (s.release (s.sb.rel b)).books =
        s.clear (update s.books (s.sb.rel b) false) := by
      unfold Vol.clear
      rw [ebooks, esb]
      rfl
    rw [hclear, esb]
    rw [hn]
    rw [← hbits] at hsmall
    exact credit_eq h.counted hcard hfit hsmall
  · intro r hr
    rw [ebits] at hr
    have := h.balance r hr
    rw [map_cons, sum_cons, he r] at this
    rw [ebooks, esb, map_cons, sum_cons]
    show ((update s.books (s.sb.rel b) false r).toNat : Int) =
      (s₀.books r).toNat + (y.effect s.sb r + (rest.map (Task.effect s.sb r)).sum)
    by_cases e : r = s.sb.rel b
    · rw [e, hb.set, if_pos rfl] at this
      rw [e, update_self]
      simp only [toNat_false, toNat_true] at this ⊢
      omega
    · rw [if_neg (fun e' => e e'.symm)] at this
      rw [update_of_ne e]
      omega

/-! ## 3. Sectors -/

/-- A state that has everything the invariant speaks of. -/
theorem Books.congr (h : Books s₀ s l) {s' : Vol} (hsb : s'.sb = s.sb) (hheld : s'.held = s.held)
    (hdisk : s'.disk = s.disk) (hcache : s'.cache = s.cache) (hlock : s'.lock = s.lock)
    (hbooks : s'.books = s.books) : Books s₀ s' l := by
  cases s
  cases s'
  cases hsb
  cases hheld
  cases hdisk
  cases hcache
  cases hlock
  cases hbooks
  refine ⟨h.owned, fun b hb => ?_, h.pending, h.settled, h.cached, h.unlocked, h.locked, h.loading,
    h.counted, h.balance⟩
  obtain ⟨h₁, h₂, h₃, h₄⟩ := h.blocks b hb
  exact ⟨h₁, h₂, h₃, h₄⟩

theorem Books.setTask (h : Books s₀ s l) : Books s₀ (s.setTask t y) l :=
  h.congr rfl rfl rfl rfl rfl rfl

/-- The bits on the disk after a sector was written in which one bit changed. -/
theorem diskBit_writeSector {v : Bool}
    (hbuf : ∀ k, buf.bit k =
      if k = bitInSector r then v else (s.disk (s.sb.lba r)).bit k) (k : Nat) :
    (s.writeSector (s.sb.lba r) buf).diskBit k = if k = r then v else s.diskBit k := by
  show (update s.disk (s.sb.lba r) buf (s.sb.lba k)).bit (bitInSector k) = _
  by_cases hl : s.sb.lba k = s.sb.lba r
  · have hiff : bitInSector k = bitInSector r ↔ k = r := by
      unfold Superblock.lba at hl
      unfold bitInSector
      omega
    rw [hl, update_self, hbuf]
    unfold Vol.diskBit
    rw [hl]
    simp only [hiff]
  · have hne : k ≠ r := fun e => hl (e ▸ rfl)
    rw [update_of_ne hl, if_neg hne]
    rfl

/-- **A sector is written** in which the own bit changed. -/
theorem Books.sector (h : Books s₀ s (x :: rest)) (hox : x.owner s.sb = some b)
    (hoy : y.owner s.sb = some b) (hpx : ∀ r, x.pending s.sb = some r → r = s.sb.rel b) {v : Bool}
    (hpy : y.pending s.sb = if v then none else some (s.sb.rel b))
    (he : ∀ r, y.effect s.sb r = x.effect s.sb r) (hy : y.loads = none)
    (hbuf : ∀ k, buf.bit k = if k = bitInSector (s.sb.rel b) then v
      else (s.disk (s.sb.lba (s.sb.rel b))).bit k) :
    Books s₀ (s.writeSector (s.sb.lba (s.sb.rel b)) buf) (y :: rest) := by
  have hcons : (x :: rest).filterMap (Task.owner s.sb) = b :: rest.filterMap (Task.owner s.sb) :=
    filterMap_cons_some hox
  have hb := h.hasBit hox
  have halone := h.alone hox
  have hdisk := diskBit_writeSector hbuf
  have hcons' : (y :: rest).filterMap (Task.owner s.sb) = b :: rest.filterMap (Task.owner s.sb) :=
    filterMap_cons_some hoy
  refine ⟨?_, ?_, ?_, ?_, h.cached, ?_, ?_, ?_, h.counted, ?_⟩
  · show (s.held ++ (y :: rest).filterMap (Task.owner s.sb)).Nodup
    rw [hcons', ← hcons]
    exact h.owned
  · intro b' hb'
    change b' ∈ s.held ++ (y :: rest).filterMap (Task.owner s.sb) at hb'
    rw [hcons', ← hcons] at hb'
    obtain ⟨h₁, h₂, h₃, h₄⟩ := h.blocks b' hb'
    exact ⟨h₁, h₂, h₃, h₄⟩
  · intro task hm r hr
    rw [hdisk]
    rcases mem_cons.1 hm with rfl | hm
    · rw [show task.pending s.sb = some r from hr] at hpy
      cases v with
      | true => cases hpy
      | false => exact if_pos (Option.some.inj hpy)
    · have hne : r ≠ s.sb.rel b := fun e => halone task hm (e ▸ hr)
      rw [if_neg hne]
      exact h.pending task (mem_cons_of_mem _ hm) r hr
  · intro r hr hno
    rw [hdisk]
    show _ = s.books r
    by_cases e : r = s.sb.rel b
    · have hv : v = true := by
        cases v with
        | true => rfl
        | false => exact absurd (hpy.trans (congrArg some e.symm)) (hno y mem_cons_self)
      rw [if_pos e, e, hb.set, hv]
    rw [if_neg e]
    refine h.settled r hr fun task hm => ?_
    rcases mem_cons.1 hm with rfl | hm
    · exact fun hp => e (hpx r hp)
    · exact hno task (mem_cons_of_mem _ hm)
  · exact fun e => (loads_cons hy).trans (h.loads_rest.1 e)
  · rw [loads_cons hy]
    exact h.loads_rest.2.1
  · intro p hp
    rw [loads_cons hy] at hp
    exact h.loading p (h.loads_rest.2.2 p hp)
  · intro r hr
    have := h.balance r hr
    rw [map_cons, sum_cons] at this ⊢
    rw [show y.effect (s.writeSector (s.sb.lba (s.sb.rel b)) buf).sb r = x.effect s.sb r from he r]
    exact this

/-- One more sector of the bitmap is read, in which no bit is on its way. -/
theorem Books.read (h : Books s₀ s (.allocateBlock (.load n buf) :: rest))
    (hn : n < s.sb.bitmap_blocks) (hlen : buf.length = n * 512)
    (hcalm : ∀ task ∈ Task.allocateBlock (.load n buf) :: rest, ∀ r,
      task.pending s.sb = some r → r / 8 / 512 ≠ n) :
    ∀ r < (n + 1) * 4096, (buf ++ s.disk (s.sb.bitmap_start + n)).bit r = s.books r := by
  intro r hr
  by_cases hlt : r < n * 4096
  · rw [Bitmap.bit_append_left (by omega)]
    exact h.loading (n, buf) mem_cons_self r hlt
  obtain ⟨k, rfl⟩ : ∃ k, r = buf.length * 8 + k := ⟨r - buf.length * 8, by omega⟩
  have hsec : (buf.length * 8 + k) / 8 / 512 = n := by omega
  have hin : bitInSector (buf.length * 8 + k) = k := by
    unfold bitInSector
    omega
  have hbits : buf.length * 8 + k < s.sb.bits := by
    unfold Superblock.bits Superblock.bytes
    omega
  rw [Bitmap.bit_append_right, ← h.settled _ hbits fun task hm hp => hcalm task hm _ hp hsec]
  unfold Vol.diskBit Superblock.lba
  rw [hsec, hin]

/-- The lock is given up after the bitmap was read, or could not be. -/
theorem Books.unlock (h : Books s₀ s (.allocateBlock (.load n buf) :: rest)) :
    Books s₀ (s.setLock none) (.allocateBlock .start :: rest) := by
  have hcons : (Task.allocateBlock (.load n buf) :: rest).filterMap Task.loads =
    (n, buf) :: rest.filterMap Task.loads := rfl
  have hnil : rest.filterMap Task.loads = [] := by
    have := h.locked
    rw [hcons, length_cons] at this
    exact length_eq_zero_iff.1 (by omega)
  have hstart : Books s₀ s (.allocateBlock .start :: rest) :=
    h.next rfl rfl (fun _ => rfl) rfl
  refine ⟨hstart.owned, fun b hb => ?_, hstart.pending, hstart.settled, hstart.cached,
    fun _ => hnil, hstart.locked, hstart.loading, hstart.counted, hstart.balance⟩
  obtain ⟨h₁, h₂, h₃, h₄⟩ := hstart.blocks b hb
  exact ⟨h₁, h₂, h₃, h₄⟩

/-- The lock is taken to read the bitmap. -/
theorem Books.lockFor (h : Books s₀ s (.allocateBlock .start :: rest)) (hlock : s.lock = none) :
    Books s₀ (s.setLock (some t)) (.allocateBlock (.load 0 []) :: rest) := by
  have hnil : rest.filterMap Task.loads = [] := h.loads_rest.1 hlock
  have hcons : (Task.allocateBlock (.load 0 []) :: rest).filterMap Task.loads = [(0, [])] := by
    rw [← hnil]
    rfl
  refine ⟨h.owned, fun b hb => ?_, fun task hm => ?_, fun r hr hno => ?_, h.cached, nofun, ?_,
    fun p hp r hr => ?_, h.counted, h.balance⟩
  · obtain ⟨h₁, h₂, h₃, h₄⟩ := h.blocks b hb
    exact ⟨h₁, h₂, h₃, h₄⟩
  · rcases mem_cons.1 hm with rfl | hm
    · exact nofun
    · exact h.pending task (mem_cons_of_mem _ hm)
  · refine h.settled r hr fun task hm => ?_
    rcases mem_cons.1 hm with rfl | hm
    · exact nofun
    · exact hno task (mem_cons_of_mem _ hm)
  · rw [hcons]
    exact Nat.le_refl _
  · rw [hcons, mem_singleton] at hp
    rw [hp] at hr
    omega

theorem Books.setCache (h : Books s₀ s l) (hm : ∀ r < s.sb.bits, m.bit r = s.books r) :
    Books s₀ (s.loaded m) l := by
  unfold Vol.loaded
  split
  · exact h
  refine ⟨h.owned, fun b hb => ?_, h.pending, h.settled, fun m' e => ?_, h.unlocked, h.locked,
    h.loading, h.counted, h.balance⟩
  · obtain ⟨h₁, h₂, h₃, h₄⟩ := h.blocks b hb
    exact ⟨h₁, h₂, h₃, h₄⟩
  · cases e
    exact hm

/-! ## 4. Steps -/

/-- The call in place `t` moves on, and the invariant holds with it in its new place. -/
def Moves (s₀ s : Vol) (t : Nat) (rest : List Task) (s' : Vol) : Prop :=
  ∃ y, s'.tasks = s.tasks.set t y ∧ Books s₀ s' (y :: rest)

theorem Books.moves (h : Books s₀ s (y :: rest)) : Moves s₀ s t rest (s.setTask t y) :=
  ⟨y, rfl, h.setTask⟩

/-- A call waits. -/
theorem Books.stays (h : Books s₀ s (x :: rest)) (ht : s.tasks[t]? = some x) :
    Moves s₀ s t rest s := by
  obtain ⟨hlt, e⟩ := List.getElem?_eq_some_iff.1 ht
  refine ⟨x, ?_, h⟩
  rw [← e, set_getElem_self]

theorem Books.allocate (h : Books s₀ s (.allocateBlock .start :: rest)) (hlock : s.lock = none)
    (hclear : (s₀.clear s₀.books).card ≤ s₀.sb.free_blocks) (hlen : m.length = s.sb.bytes)
    (hm : ∀ r < s.sb.bits, m.bit r = s.books r) : Moves s₀ s t rest (s.allocate t m) := by
  have hfail : Moves s₀ s t rest (s.setTask t (.allocateBlock (.done (.error .ENOSPC)))) :=
    (h.next (y := .allocateBlock (.done (.error .ENOSPC))) rfl rfl (fun _ => rfl) rfl).moves
  unfold Vol.allocate
  split
  · exact hfail
  rename_i idx bit hs
  obtain ⟨hidx, hbit, hbits, hb⟩ := scan_bits hlen hs
  dsimp only
  split
  · exact hfail
  rename_i htotal
  have hrel : s.sb.rel (s.sb.data_start + (idx * 8 + bit)) = idx * 8 + bit :=
    Nat.add_sub_cancel_left _ _
  have htake := fun c hc => h.take (b := s.sb.data_start + (idx * 8 + bit)) (c := c) hlock
    hclear rfl rfl (fun _ => rfl) (Nat.le_add_right _ _) (Nat.lt_of_not_le htotal)
    (hrel.symm ▸ hbits) (by rw [hrel, ← hm _ hbits]; exact hb) hc
    (s.sb.bitmap_start + idx / 512)
    (((m.setBit (idx * 8 + bit)).drop (idx / 512 * 512)).take 512)
  rw [hrel] at htake
  split
  · rename_i e
    exact ⟨_, rfl, (htake s.cache (fun m' e' => by rw [e] at e'; cases e')).setTask⟩
  refine ⟨_, rfl, (htake (.valid (m.setBit (idx * 8 + bit))) fun m' e r hr => ?_).setTask⟩
  cases e
  have hin : (idx * 8 + bit) / 8 < m.length := by
    omega
  rw [Bitmap.bit_setBit r hin, hm r hr, update_apply]
  by_cases e : r = idx * 8 + bit
  · rw [if_pos e, decide_eq_true e, Bool.true_or]
  · rw [if_neg e, decide_eq_false e, Bool.false_or]

/-- The bit that a fresh copy of a sector has changed. -/
theorem bit_setBit_sector (hlen : m.length = 512) (k : Nat) :
    (m.setBit (bitInSector r)).bit k = if k = bitInSector r then true else m.bit k := by
  have hin : bitInSector r / 8 < m.length := by
    unfold bitInSector
    omega
  rw [Bitmap.bit_setBit k hin]
  by_cases e : k = bitInSector r
  · rw [if_pos e, decide_eq_true e, Bool.true_or]
  · rw [if_neg e, decide_eq_false e, Bool.false_or]

theorem bit_clearBit_sector (hlen : m.length = 512) (k : Nat) :
    (m.clearBit (bitInSector r)).bit k = if k = bitInSector r then false else m.bit k := by
  have hin : bitInSector r / 8 < m.length := by
    unfold bitInSector
    omega
  rw [Bitmap.bit_clearBit k hin]
  by_cases e : k = bitInSector r
  · rw [if_pos e, decide_eq_true e]
    rfl
  · rw [if_neg e, decide_eq_false e]
    rfl

/-- What is known of the volume that the run began with. -/
structure Roomy (s₀ : Vol) : Prop where
  clear : (s₀.clear s₀.books).card ≤ s₀.sb.free_blocks
  small : s₀.sb.free_blocks + s₀.sb.bits < U32_MAX

theorem Books.runAlloc {phase : AllocPhase} {ok : Bool} (hroom : Roomy s₀) (hshape : Shape s₀.sb s)
    (ht : s.tasks[t]? = some (.allocateBlock phase))
    (hperm : s.tasks.Perm (.allocateBlock phase :: rest))
    (h : Books s₀ s (.allocateBlock phase :: rest)) (hc : s.CalmTask ok (.allocateBlock phase)) :
    Moves s₀ s t rest (s.runAlloc t ok phase) := by
  have hx := hshape.tasks _ (mem_of_getElem? ht)
  have hunlocked : ¬ s.lock.isSome = true → s.lock = none := fun e => by simpa using e
  cases phase with
  | start =>
    rw [Vol.runAlloc]
    split
    · exact h.stays ht
    rename_i hlock
    split
    · rename_i m e
      exact h.allocate (hunlocked hlock) hroom.clear (hshape.cache m e) (h.cached m e)
    · exact ⟨_, rfl, (h.lockFor (hunlocked hlock)).setTask⟩
    split
    · exact ⟨_, rfl, (h.lockFor (hunlocked hlock)).setTask⟩
    · exact (h.next (y := .allocateBlock (.done (.error .IOError))) rfl rfl (fun _ => rfl)
        rfl).moves
  | load next bitmap_buf =>
    obtain ⟨hnext, hlen⟩ := hx
    rw [Vol.runAlloc]
    split
    · exact ⟨_, rfl, (h.unlock.next (y := .allocateBlock (.done (.error .IOError))) rfl rfl
        (fun _ => rfl) rfl).setTask⟩
    rename_i hok
    have hread := h.read hnext hlen fun task hm r hp =>
      hc (by simpa using hok) task (hperm.mem_iff.2 hm) r hp
    split
    · rename_i hlt
      refine ⟨_, rfl, Books.setTask ⟨h.owned, h.blocks, ?_, ?_, h.cached, ?_, h.locked, ?_,
        h.counted, h.balance⟩⟩
      · intro task hm r hr
        rcases mem_cons.1 hm with rfl | hm
        · cases hr
        · exact h.pending task (mem_cons_of_mem _ hm) r hr
      · intro r hr hno
        refine h.settled r hr fun task hm => ?_
        rcases mem_cons.1 hm with rfl | hm
        · intro e
          cases e
        · exact hno task (mem_cons_of_mem _ hm)
      · intro e
        cases h.unlocked e
      · intro p hp
        rcases mem_cons.1 hp with rfl | hp
        · exact hread
        · exact h.loading p (mem_cons_of_mem _ hp)
    have hend : next + 1 = s.sb.bitmap_blocks := by omega
    have hall : (bitmap_buf ++ s.disk (s.sb.bitmap_start + next)).length = s.sb.bytes := by
      rw [length_append, hlen, hshape.sectors]
      unfold Superblock.bytes
      rw [← hend, Nat.succ_mul]
    have hbits : ∀ r < s.sb.bits,
        (bitmap_buf ++ s.disk (s.sb.bitmap_start + next)).bit r = s.books r := by
      intro r hr
      refine hread r ?_
      unfold Superblock.bits Superblock.bytes at hr
      omega
    have hload := h.unlock.setCache (m := bitmap_buf ++ s.disk (s.sb.bitmap_start + next)) hbits
    have htasks : ((s.setLock none).loaded
        (bitmap_buf ++ s.disk (s.sb.bitmap_start + next))).tasks = s.tasks := by
      unfold Vol.loaded
      split <;> rfl
    have hlock : ((s.setLock none).loaded
        (bitmap_buf ++ s.disk (s.sb.bitmap_start + next))).lock = none := by
      unfold Vol.loaded
      split <;> rfl
    have hbooks : ((s.setLock none).loaded
        (bitmap_buf ++ s.disk (s.sb.bitmap_start + next))).books = s.books := by
      unfold Vol.loaded
      split <;> rfl
    obtain ⟨y, hy, hb⟩ := hload.allocate (t := t) hlock hroom.clear
      (m := bitmap_buf ++ s.disk (s.sb.bitmap_start + next)) (by rw [sb_loaded]; exact hall)
      (by rw [sb_loaded, hbooks]; exact hbits)
    exact ⟨y, htasks ▸ hy, hb⟩
  | write block_num lba sector_data =>
    obtain ⟨-, hlba, -⟩ := hx
    rw [Vol.runAlloc]
    split
    · rename_i hok
      have hdata := hc hok
      rw [hlba] at hdata ⊢
      refine ⟨_, rfl, (h.sector (y := .allocateBlock (.superblock block_num)) rfl rfl
        (fun r e => (Option.some.inj e).symm) (v := true) rfl (fun _ => rfl) rfl ?_).setTask⟩
      rw [hdata]
      exact bit_setBit_sector (hshape.sectors _)
    · exact (h.next (y := .allocateBlock (.rollback block_num)) rfl rfl (fun _ => rfl) rfl).moves
  | rollback block_num =>
    rw [Vol.runAlloc]
    split
    · exact h.stays ht
    rename_i hlock
    have htasks := (release_fields (s := s) (r := s.sb.rel block_num)).2.2.2.1
    refine ⟨_, congrArg (fun l => List.set l t _) htasks, (h.giveBack (b := block_num)
      (y := .allocateBlock (.done (.error .IOError))) hshape (hunlocked hlock) hroom.small rfl rfl
      rfl rfl (fun r => ?_) rfl).setTask⟩
    exact (zero_add _).symm
  | superblock block_num =>
    rw [Vol.runAlloc]
    split
    · refine ⟨_, rfl, Books.setTask ((h.replace (y := .allocateBlock (.done (.ok block_num)))
        (block_num :: s.held) ?_ rfl (fun _ => rfl) rfl).congr rfl rfl rfl rfl rfl rfl)⟩
      exact perm_middle.symm
    · rename_i hok
      exact absurd hc hok
  | undo => exact absurd hc id
  | done result => exact h.stays ht

/-- The byte of a bit lies in the cache. -/
theorem Shape.byte_inCache {sb : Superblock} (h : Shape sb s) (hr : r < s.sb.bits) :
    s.pastCache r = false := by
  unfold Vol.pastCache
  split
  · rename_i m e
    have hlen := h.cache m e
    unfold Superblock.bits at hr
    exact decide_eq_false (by omega)
  · rfl

theorem Books.runFree {block_num : Nat} {phase : FreePhase} {ok : Bool} (hroom : Roomy s₀)
    (hshape : Shape s₀.sb s) (ht : s.tasks[t]? = some (.freeBlock block_num phase))
    (h : Books s₀ s (.freeBlock block_num phase :: rest))
    (hc : s.CalmTask ok (.freeBlock block_num phase)) :
    Moves s₀ s t rest (s.runFree t block_num ok phase) := by
  have hx := hshape.tasks _ (mem_of_getElem? ht)
  have hfail : ∀ x : Task, x.owner s.sb = some block_num → x.pending s.sb = none →
      (∀ r, x.effect s.sb r = 0) → Books s₀ s (x :: rest) →
      Moves s₀ s t rest (s.failFree t block_num) := by
    intro x ho hp he hb
    refine ⟨_, rfl, (hb.replace (y := .freeBlock block_num (.done (.error .IOError)))
      (block_num :: s.held) ?_ hp.symm (fun r => (he r).symm) rfl).setTask⟩
    rw [filterMap_cons_some ho]
    exact perm_middle.symm
  cases phase with
  | start =>
    rw [Vol.runFree]
    split
    · rename_i hlt
      refine (h.next (y := .freeBlock block_num (.done (.error .InvalidBlock))) ?_ rfl
        (fun _ => rfl) rfl).moves
      exact (if_pos hlt).symm
    rename_i hge
    have ho : Task.owner s.sb (.freeBlock block_num .start) = some block_num := if_neg hge
    split
    · exact (h.next (y := .freeBlock block_num (.write _ _)) ho.symm rfl (fun _ => rfl) rfl).moves
    · exact hfail _ ho rfl (fun _ => rfl) h
  | write lba sector_buf =>
    rw [Vol.runFree]
    split
    · rename_i hok
      have hdata := hc hok
      rw [hx.1] at hdata ⊢
      refine ⟨_, rfl, (h.sector (y := .freeBlock block_num .account) rfl rfl (fun r e => by cases e) (v := false)
        rfl (fun _ => rfl) rfl ?_).setTask⟩
      rw [hdata]
      exact bit_clearBit_sector (hshape.sectors _)
    · exact hfail _ rfl rfl (fun _ => rfl) h
  | account =>
    rw [Vol.runFree]
    split
    · exact h.stays ht
    rename_i hlock
    dsimp only
    split
    · rename_i hpast
      rw [hshape.byte_inCache (h.hasBit rfl).bits] at hpast
      cases hpast
    have htasks := (release_fields (s := s) (r := s.sb.rel block_num)).2.2.2.1
    refine ⟨_, congrArg (fun l => List.set l t _) htasks, (h.giveBack (b := block_num)
      (y := .freeBlock block_num .superblock) hshape (by simpa using hlock) hroom.small rfl rfl
      rfl rfl (fun r => ?_) rfl).setTask⟩
    show (0 : Int) = (if s.sb.rel block_num = r then -1 else 0) +
      if s.sb.rel block_num = r then 1 else 0
    split <;> rfl
  | superblock =>
    rw [Vol.runFree]
    split
    · exact ⟨_, rfl, ((h.next (y := .freeBlock block_num (.done (.ok ()))) rfl rfl (fun _ => rfl)
        rfl).congr rfl rfl rfl rfl rfl rfl)⟩
    · rename_i hok
      exact absurd hc hok
  | done result => exact h.stays ht
  | panicked => exact h.stays ht

/-- A call in its place, and the others. -/
theorem tasks_split (ht : s.tasks[t]? = some x) :
    ∃ rest, s.tasks.Perm (x :: rest) ∧ ∀ y, (s.tasks.set t y).Perm (y :: rest) := by
  obtain ⟨hlt, e⟩ := List.getElem?_eq_some_iff.1 ht
  refine ⟨s.tasks.eraseIdx t, ?_, fun y => set_perm_cons_eraseIdx hlt y⟩
  rw [← e]
  exact (getElem_cons_eraseIdx_perm hlt).symm

/-- **A calm step keeps the invariant.** -/
theorem Books.step (hroom : Roomy s₀) (hshape : Shape s₀.sb s) (h : Books s₀ s s.tasks)
    {input : Input} (hc : s.Calm input) : Books s₀ (s.step input) (s.step input).tasks := by
  cases input with
  | allocateBlock =>
    have hnew := h.add (y := .allocateBlock .start) s.held (.refl _) rfl (fun _ => rfl)
      rfl
    have hstep : Books s₀ (s.step .allocateBlock) (.allocateBlock .start :: s.tasks) :=
      hnew.congr rfl rfl rfl rfl rfl rfl
    exact hstep.perm (perm_append_singleton _ _)
  | freeBlock block_num =>
    have hperm : (s.held.erase block_num ++
        (Task.freeBlock block_num .start :: s.tasks).filterMap (Task.owner s.sb)).Perm
        (s.held ++ s.tasks.filterMap (Task.owner s.sb)) := by
      by_cases hlt : block_num < s.sb.data_start
      · have hnot : block_num ∉ s.held := by
          intro hm
          have := (h.blocks block_num (mem_append_left _ hm)).start
          omega
        have ho : Task.owner s.sb (.freeBlock block_num .start) = none := if_pos hlt
        rw [erase_of_not_mem hnot, filterMap_cons_none ho]
      · have hm : block_num ∈ s.held := hc.resolve_left hlt
        have ho : Task.owner s.sb (.freeBlock block_num .start) = some block_num := if_neg hlt
        rw [filterMap_cons_some ho]
        refine perm_middle.trans ?_
        exact (perm_cons_erase hm).symm.append_right _
    have hnew := h.add (y := .freeBlock block_num .start) _ hperm rfl (fun _ => rfl) rfl
    have hstep : Books s₀ (s.step (.freeBlock block_num))
        (.freeBlock block_num .start :: s.tasks) :=
      hnew.congr rfl rfl rfl rfl rfl rfl
    exact hstep.perm (perm_append_singleton _ _)
  | run t ok =>
    cases ht : s.tasks[t]? with
    | none =>
      have : s.step (.run t ok) = s := by
        unfold Vol.step
        simp only [ht]
      rw [this]
      exact h
    | some task =>
      have hstep : s.step (.run t ok) = s.runTask t ok task := by
        unfold Vol.step
        simp only [ht]
      obtain ⟨rest, hperm, hset⟩ := tasks_split ht
      have hmoves : Moves s₀ s t rest (s.runTask t ok task) := by
        have hcalm := hc task ht
        cases task with
        | allocateBlock phase =>
          exact (h.perm hperm.symm).runAlloc hroom hshape ht hperm hcalm
        | freeBlock block_num phase => exact (h.perm hperm.symm).runFree hroom hshape ht hcalm
      obtain ⟨y, hy, hbooks⟩ := hmoves
      rw [hstep, hy]
      exact hbooks.perm (hset y)

end Books

/-! ## 5. Runs -/

/-- A volume before the first call, with the blocks that callers hold. The counter may be ahead of
    the clear bits, as it is after `format`, and is not behind them. -/
structure Consistent (s₀ : Vol) : Prop extends Mounted s₀ where
  books : s₀.books = s₀.diskBit
  held : s₀.held.Nodup
  hasBit : ∀ b ∈ s₀.held, HasBit s₀ b
  ahead : (s₀.clear s₀.diskBit).card ≤ s₀.sb.free_blocks

section Runs

variable {s₀ s : Vol} {r : Nat}

theorem Consistent.roomy (h : Consistent s₀) : Roomy s₀ where
  clear := h.books ▸ h.ahead
  small := by
    unfold Superblock.bits Superblock.bytes U32_MAX
    rcases h.superblock with e | hv
    · rw [e]
      decide
    · obtain ⟨htotal, -, hblocks, -, hfree⟩ := validate_spec hv
      omega

theorem Consistent.start (h : Consistent s₀) : Books s₀ s₀ s₀.tasks := by
  rw [h.tasks]
  refine ⟨?_, ?_, nofun, fun r _ _ => by rw [h.books], ?_, fun _ => rfl, Nat.zero_le _, nofun, rfl,
    fun r _ => (add_zero _).symm⟩
  · rw [filterMap_nil, append_nil]
    exact h.held
  · intro b hb
    rw [filterMap_nil, append_nil] at hb
    exact h.hasBit b hb
  intro m e
  rcases h.cache with hc | hc
  · rw [hc] at e
    cases e
  · rw [hc] at e
    cases e

theorem books_run (h₀ : Consistent s₀) (h : (allocator s₀).Reach Vol.Calm s) :
    Shape s₀.sb s ∧ Books s₀ s s.tasks := by
  refine Machine.Reach.invariant (I := fun s => Shape s₀.sb s ∧ Books s₀ s s.tasks)
    (fun s e => ?_) (fun s input _ hs hc => ?_) h
  · rw [show s = s₀ from e]
    exact ⟨h₀.shape, h₀.start⟩
  · exact ⟨hs.1.step input, hs.2.step h₀.roomy hs.1 hc⟩

/-- A call that is done has no bit on its way, and has changed what its result says. -/
theorem pending_of_isDone {sb : Superblock} {task : Task} (h : task.isDone = true) :
    task.pending sb = none ∧ task.effect sb r = task.outcome sb r := by
  unfold Task.isDone at h
  split at h
  · rename_i result
    cases result <;> exact ⟨rfl, rfl⟩
  · rename_i result
    cases result <;> exact ⟨rfl, rfl⟩
  · cases h

/-- A valid cache is, sector by sector, the bitmap on the disk; the counter is ahead of the number
    of clear bits by as much as at the mount; and a bit on the disk is what it was at the mount,
    changed by the calls that returned without an error alone. -/
structure Agrees (s₀ s : Vol) : Prop where
  cache : ∀ m, s.cache = .valid m → ∀ k < s.sb.bitmap_blocks,
    (m.drop (k * 512)).take 512 = s.disk (s.sb.bitmap_start + k)
  counter : s.sb.free_blocks + (s₀.clear s₀.diskBit).card =
    s₀.sb.free_blocks + (s.clear s.diskBit).card
  bits : ∀ r < s.sb.bits, ((s.diskBit r).toNat : Int) =
    (s₀.diskBit r).toNat + (s.tasks.map (Task.outcome s.sb r)).sum

/-- **Cache, disk and counter agree.** In every run of calm steps, in every state, no block has been
    given to two callers; and whenever no call is in progress, the cache, the disk and the counter
    agree and show the calls that returned without an error. -/
theorem allocatorBooks (h₀ : Consistent s₀) (h : (allocator s₀).Reach Vol.Calm s) :
    s.held.Nodup ∧ (s.idle → Agrees s₀ s) := by
  obtain ⟨hshape, hbooks⟩ := books_run h₀ h
  refine ⟨(nodup_append.1 hbooks.owned).1, fun hidle => ?_⟩
  have hdisk : ∀ r < s.sb.bits, s.diskBit r = s.books r := by
    intro r hr
    refine hbooks.settled r hr fun task hm => ?_
    rw [(pending_of_isDone (r := 0) (hidle task hm)).1]
    exact nofun
  refine ⟨fun m e k hk => ?_, ?_, fun r hr => ?_⟩
  · have hlen := hshape.cache m e
    unfold Superblock.bytes at hlen
    have hslice : ((m.drop (k * 512)).take 512).length = 512 := by
      rw [length_take, length_drop]
      omega
    refine Bitmap.ext_bit (hslice.trans (hshape.sectors _).symm) fun j hj => ?_
    rw [hslice] at hj
    have hbits : k * 512 * 8 + j < s.sb.bits := by
      unfold Superblock.bits Superblock.bytes
      omega
    have hsec : (k * 512 * 8 + j) / 8 / 512 = k := by omega
    have hin : bitInSector (k * 512 * 8 + j) = j := by
      unfold bitInSector
      omega
    rw [Bitmap.bit_slice hj, hbooks.cached m e _ hbits, ← hdisk _ hbits]
    unfold Vol.diskBit Superblock.lba
    rw [hsec, hin]
  · have hclear : s.clear s.diskBit = s.clear s.books := by
      refine Finset.filter_congr fun r hr => ?_
      rw [hdisk r (Finset.mem_range.1 hr)]
    rw [hclear, ← h₀.books]
    exact hbooks.counted
  · have hsum : s.tasks.map (Task.effect s.sb r) = s.tasks.map (Task.outcome s.sb r) :=
      map_congr_left fun task hm => (pending_of_isDone (hidle task hm)).2
    rw [hdisk r hr, ← hsum, ← h₀.books]
    exact hbooks.balance r hr

end Runs

def smallSector : Bitmap := 0x01#8 :: List.replicate 511 0x00#8

theorem length_smallSector : smallSector.length = 512 := by
  rw [smallSector, length_cons, length_replicate]

/-- A volume of eight blocks of data, of which a caller holds the first. -/
def smallVol : Vol where
  sb :=
    { block_size := 512
      total_blocks := 26
      file_count := 0
      free_blocks := 7
      bitmap_start := 1
      bitmap_blocks := 1
      root_dir_start := 2
      data_start := 18
      next_free_block := 26 }
  stored :=
    { block_size := 512
      total_blocks := 26
      file_count := 0
      free_blocks := 7
      bitmap_start := 1
      bitmap_blocks := 1
      root_dir_start := 2
      data_start := 18
      next_free_block := 26 }
  disk _ := smallSector
  cache := .cold
  books r := smallSector.bit (bitInSector r)
  held := [18]

theorem smallVol_consistent : Consistent smallVol where
  superblock := .inr (by decide)
  sectors _ := length_smallSector
  cache := .inr rfl
  lock := rfl
  tasks := rfl
  books := rfl
  held := by decide
  hasBit b hb := by
    rw [mem_singleton.1 hb]
    exact ⟨by decide, by decide, by decide, by decide +kernel⟩
  ahead := by
    have hsub : smallVol.clear smallVol.diskBit ⊆ Finset.Ico 1 8 := by
      intro r hr
      obtain ⟨-, ht, hb⟩ := Finset.mem_filter.1 hr
      have ht : 18 + r < 26 := ht
      have hne : r ≠ 0 := by
        intro e
        rw [e] at hb
        revert hb
        decide +kernel
      rw [Finset.mem_Ico]
      omega
    exact Finset.card_le_card hsub

/-- While a block is taken, whose sector is not written for an error, another is given back. -/
theorem allocatorBooks_calmRun :
    Agrees smallVol ((allocator smallVol).exec smallVol [.allocateBlock, .run 0 true, .run 0 true,
      .freeBlock 18, .run 1 true, .run 0 false, .run 1 true, .run 0 true, .run 1 true,
      .run 1 true]) := by
  refine (allocatorBooks smallVol_consistent (.exec (.start rfl) ?_)).2 ?_
  · decide +kernel
  · unfold Vol.idle
    decide +kernel

/-- The first sector of a loaded cache is the one on the disk. -/
def Vol.firstAgrees (s : Vol) : Bool :=
  match s.cache with
  | .valid m => decide ((m.drop (0 * 512)).take 512 = s.disk (s.sb.bitmap_start + 0))
  | _ => true

/-- The sector is read to give the block back, then one block more is taken in it, and then the
    sector is written as it was read: the cache has a bit that the disk has lost. -/
theorem allocatorBooks_refuted : ∃ s, (allocator smallVol).Reachable s ∧ s.idle ∧
    ¬ Agrees smallVol s := by
  let l : List Input := [.allocateBlock, .run 0 true, .run 0 true, .run 0 true, .run 0 true,
    .freeBlock 18, .run 1 true, .allocateBlock, .run 2 true, .run 2 true, .run 2 true,
    .run 1 true, .run 1 true, .run 1 true]
  refine ⟨(allocator smallVol).exec smallVol l, Machine.Reachable.exec (.start rfl) l, ?_, ?_⟩
  · unfold Vol.idle
    decide +kernel
  intro h
  have hne : ((allocator smallVol).exec smallVol l).firstAgrees = false := by decide +kernel
  have hk : 0 < ((allocator smallVol).exec smallVol l).sb.bitmap_blocks := by decide +kernel
  generalize (allocator smallVol).exec smallVol l = s at h hne hk
  unfold Vol.firstAgrees at hne
  split at hne
  · rename_i m e
    exact of_decide_eq_false hne (h.cache m e 0 hk)
  · cases hne

end Zigk.SfsAlloc
