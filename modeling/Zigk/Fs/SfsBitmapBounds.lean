/-
  Subject:   THE ALLOCATOR STAYS IN THE BITMAP, WHERE THE BITMAP HAS A BIT FOR THE BLOCK.

  Nothing relates `total_blocks` to `bitmap_blocks`: of the 32768 blocks of `format` the bitmap has
  a bit for 16384. The bit of a later one lies in a sector of the root directory.

  * `TaskShape`, `Shape` -- what the buffers of a call look like in every run; `Shape.step`;
  * **`bitmapBounds`** -- `freeBlock` does exactly where the block has a bit;
    `bitmapBounds_refuted` -- the first block without one.
-/
import Zigk.Fs.SfsAlloc

namespace Zigk.SfsAlloc

open Function List Vol Superblock

/-! ## 1. The scan -/

theorem scanByte_spec {byte : BitVec 8} {bit : Nat} (h : scanByte byte = some bit) :
    bit < 8 ∧ byte &&& (1#8 <<< bit) = 0#8 := by
  refine ⟨mem_range.1 (mem_of_find?_eq_some h), ?_⟩
  have := find?_some h
  simpa only [decide_eq_true_eq] using this

/-- A scan ends with a bit of the bitmap that is clear. -/
theorem scan_spec {m : Bitmap} {k idx bit : Nat} (h : scan m k = some (idx, bit)) :
    k ≤ idx ∧ idx < k + m.length ∧ bit < 8 ∧ Bitmap.bit m ((idx - k) * 8 + bit) = false := by
  induction m generalizing k with
  | nil => cases h
  | cons byte rest ih =>
    have hrest : scan rest (k + 1) = some (idx, bit) →
        k ≤ idx ∧ idx < k + (byte :: rest).length ∧ bit < 8 ∧
          Bitmap.bit (byte :: rest) ((idx - k) * 8 + bit) = false := by
      intro hs
      obtain ⟨hge, hlt, hbit, hclear⟩ := ih hs
      refine ⟨by omega, by rw [length_cons]; omega, hbit, ?_⟩
      rw [Bitmap.bit_eq_getLsbD] at hclear ⊢
      have hdiv : ((idx - k) * 8 + bit) / 8 = ((idx - (k + 1)) * 8 + bit) / 8 + 1 := by omega
      have hmod : ((idx - k) * 8 + bit) % 8 = ((idx - (k + 1)) * 8 + bit) % 8 := by omega
      rw [hdiv, hmod, getD_cons_succ]
      exact hclear
    rw [scan] at h
    split at h
    · split at h
      · rename_i b hb
        cases h
        obtain ⟨hlt, hand⟩ := scanByte_spec hb
        refine ⟨Nat.le_refl _, by rw [length_cons]; omega, hlt, ?_⟩
        have hdiv : ((idx - idx) * 8 + bit) / 8 = 0 := by omega
        have hmod : ((idx - idx) * 8 + bit) % 8 = bit := by omega
        rw [Bitmap.bit, Bitmap.mask, hdiv, hmod, getD_cons_zero, hand]
        rfl
      · exact hrest h
    · exact hrest h

/-! ## 2. The shape of a call -/

def TaskShape (sb : Superblock) : Task → Prop
  | .allocateBlock (.load next bitmap_buf) =>
    next < sb.bitmap_blocks ∧ bitmap_buf.length = next * 512
  | .allocateBlock (.write block_num lba sector_data) =>
    sb.rel block_num < sb.bits ∧ lba = sb.lba (sb.rel block_num) ∧ sector_data.length = 512
  | .allocateBlock (.rollback block_num) => sb.rel block_num < sb.bits
  | .freeBlock block_num (.write lba sector_buf) =>
    lba = sb.lba (sb.rel block_num) ∧ sector_buf.length = 512
  | _ => True

/-- The buffers of the bitmap are as long as it is, those of a sector as long as a sector; the
    superblock is the one of the start but for its counter. -/
structure Shape (sb : Superblock) (s : Vol) : Prop where
  blocks : 0 < s.sb.bitmap_blocks
  layout : s.sb = { sb with free_blocks := s.sb.free_blocks }
  sectors : ∀ lba, (s.disk lba).length = 512
  cache : ∀ m, s.cache = .valid m → m.length = s.sb.bytes
  tasks : ∀ task ∈ s.tasks, TaskShape s.sb task

section Shape

variable {sb : Superblock} {s : Vol} {t lba : Nat} {task : Task} {m buf : Bitmap} {ok : Bool}

section

variable (h : Shape sb s)
include h

theorem Shape.setTask (hx : TaskShape s.sb task) : Shape sb (s.setTask t task) where
  blocks := h.blocks
  layout := h.layout
  sectors := h.sectors
  cache := h.cache
  tasks x hm := by
    rcases mem_or_eq_of_mem_set hm with hm | rfl
    · exact h.tasks x hm
    · exact hx

theorem Shape.setCache (hm : m.length = s.sb.bytes) : Shape sb (s.setCache m) where
  blocks := h.blocks
  layout := h.layout
  sectors := h.sectors
  cache m' e := by
    cases e
    exact hm
  tasks := h.tasks

theorem Shape.writeSector (hb : buf.length = 512) : Shape sb (s.writeSector lba buf) where
  blocks := h.blocks
  layout := h.layout
  sectors k := by
    show (update s.disk lba buf k).length = 512
    by_cases e : k = lba
    · rw [e, update_self, hb]
    · rw [update_of_ne e]
      exact h.sectors k
  cache := h.cache
  tasks := h.tasks

theorem Shape.setFree (n : Nat) : Shape sb (s.setFree n) where
  blocks := h.blocks
  layout := by
    show ({ s.sb with free_blocks := n } : Superblock) = { sb with free_blocks := n }
    rw [h.layout]
  sectors := h.sectors
  cache := h.cache
  tasks := h.tasks

theorem Shape.setBook (rel : Nat) (b : Bool) : Shape sb (s.setBook rel b) :=
  ⟨h.blocks, h.layout, h.sectors, h.cache, h.tasks⟩

theorem Shape.setLock (lock : Option Nat) : Shape sb (s.setLock lock) :=
  ⟨h.blocks, h.layout, h.sectors, h.cache, h.tasks⟩

theorem Shape.setHeld (held : List Nat) : Shape sb (s.setHeld held) :=
  ⟨h.blocks, h.layout, h.sectors, h.cache, h.tasks⟩

theorem Shape.updateSuperblock : Shape sb s.updateSuperblock :=
  ⟨h.blocks, h.layout, h.sectors, h.cache, h.tasks⟩

theorem Shape.credit : Shape sb s.credit := h.setFree _

theorem Shape.clearCache (rel : Nat) : Shape sb (s.clearCache rel) := by
  unfold Vol.clearCache
  split
  · rename_i m e
    exact h.setCache (by rw [Bitmap.length_clearBit, h.cache m e])
  · exact h

theorem Shape.loaded (hm : m.length = s.sb.bytes) : Shape sb (s.loaded m) := by
  unfold Vol.loaded
  split
  · exact h
  · exact h.setCache hm

end

@[simp] theorem sb_loaded : (s.loaded m).sb = s.sb := by
  unfold loaded
  split <;> rfl

/-- The bit that a scan of the whole bitmap ends with. -/
theorem scan_bits {idx bit : Nat} (hm : m.length = s.sb.bytes) (h : scan m 0 = some (idx, bit)) :
    idx < s.sb.bytes ∧ bit < 8 ∧ idx * 8 + bit < s.sb.bits ∧ m.bit (idx * 8 + bit) = false := by
  obtain ⟨-, hlt, hbit, hclear⟩ := scan_spec h
  rw [Nat.sub_zero] at hclear
  refine ⟨by omega, hbit, ?_, hclear⟩
  unfold bits
  omega

section

variable (h : Shape sb s)
include h

theorem Shape.allocate (hm : m.length = s.sb.bytes) :
    Shape sb (s.allocate t m) := by
  unfold Vol.allocate
  split
  · exact h.setTask trivial
  rename_i idx bit hs
  obtain ⟨hidx, hbit, hbits, -⟩ := scan_bits hm hs
  dsimp only
  split
  · exact h.setTask trivial
  have hrel : s.sb.rel (s.sb.data_start + (idx * 8 + bit)) = idx * 8 + bit :=
    Nat.add_sub_cancel_left _ _
  have hlen : (((m.setBit (idx * 8 + bit)).drop (idx / 512 * 512)).take 512).length = 512 := by
    rw [length_take, length_drop, Bitmap.length_setBit, hm]
    unfold Superblock.bytes at hidx ⊢
    omega
  have hbook := (h.setFree (s.sb.free_blocks - 1)).setBook (idx * 8 + bit) true
  have htask : TaskShape s.sb (.allocateBlock (.write (s.sb.data_start + (idx * 8 + bit))
      (s.sb.bitmap_start + idx / 512)
      (((m.setBit (idx * 8 + bit)).drop (idx / 512 * 512)).take 512))) := by
    refine ⟨by rw [hrel]; exact hbits, ?_, hlen⟩
    rw [hrel]
    show s.sb.bitmap_start + idx / 512 = s.sb.bitmap_start + (idx * 8 + bit) / 8 / 512
    omega
  split
  · exact hbook.setTask htask
  · exact (hbook.setCache ((Bitmap.length_setBit _ _).trans hm)).setTask htask

theorem Shape.runAlloc {phase : AllocPhase}
    (hx : TaskShape s.sb (.allocateBlock phase)) : Shape sb (s.runAlloc t ok phase) := by
  cases phase with
  | start =>
    rw [Vol.runAlloc]
    split
    · exact h
    split
    · rename_i m e
      exact h.allocate (h.cache m e)
    · exact (h.setLock (some t)).setTask ⟨h.blocks, rfl⟩
    · split
      · exact (h.setLock (some t)).setTask ⟨h.blocks, rfl⟩
      · exact h.setTask trivial
  | load next bitmap_buf =>
    obtain ⟨hnext, hlen⟩ := hx
    have happ : (bitmap_buf ++ s.disk (s.sb.bitmap_start + next)).length = (next + 1) * 512 := by
      rw [length_append, hlen, h.sectors]
      omega
    rw [Vol.runAlloc]
    split
    · exact (h.setLock none).setTask trivial
    dsimp only
    split
    · rename_i hlt
      exact h.setTask ⟨hlt, happ⟩
    have hall : (bitmap_buf ++ s.disk (s.sb.bitmap_start + next)).length = s.sb.bytes := by
      rw [happ]
      unfold Superblock.bytes
      congr 1
      omega
    exact ((h.setLock none).loaded hall).allocate (by rw [sb_loaded]; exact hall)
  | write block_num lba sector_data =>
    obtain ⟨hbits, -, hlen⟩ := hx
    rw [Vol.runAlloc]
    split
    · exact (h.writeSector hlen).setTask trivial
    · exact h.setTask hbits
  | rollback block_num =>
    rw [Vol.runAlloc]
    split
    · exact h
    · exact (((h.clearCache _).credit).setBook _ _).setTask trivial
  | superblock block_num =>
    rw [Vol.runAlloc]
    split
    · exact (h.updateSuperblock.setHeld _).setTask trivial
    · exact h.setTask trivial
  | undo =>
    rw [Vol.runAlloc]
    split
    · exact h
    · exact h.credit.setTask trivial
  | done result => exact h

theorem Shape.runFree {block_num : Nat} {phase : FreePhase}
    (hx : TaskShape s.sb (.freeBlock block_num phase)) :
    Shape sb (s.runFree t block_num ok phase) := by
  have hfail : Shape sb (s.failFree t block_num) := (h.setHeld _).setTask trivial
  cases phase with
  | start =>
    rw [Vol.runFree]
    split
    · exact h.setTask trivial
    dsimp only
    split
    · refine h.setTask ⟨rfl, ?_⟩
      rw [Bitmap.length_clearBit, h.sectors]
    · exact hfail
  | write lba sector_buf =>
    rw [Vol.runFree]
    split
    · exact (h.writeSector hx.2).setTask trivial
    · exact hfail
  | account =>
    rw [Vol.runFree]
    split
    · exact h
    dsimp only
    split
    · exact h.setTask trivial
    · exact (((h.clearCache _).credit).setBook _ _).setTask trivial
  | superblock =>
    rw [Vol.runFree]
    split
    · exact h.updateSuperblock.setTask trivial
    · exact h.setTask trivial
  | done result => exact h
  | panicked => exact h

theorem Shape.runTask (hx : TaskShape s.sb task) :
    Shape sb (s.runTask t ok task) := by
  cases task with
  | allocateBlock phase => exact h.runAlloc hx
  | freeBlock block_num phase => exact h.runFree hx

theorem Shape.append (hx : TaskShape s.sb task) :
    ∀ x ∈ s.tasks ++ [task], TaskShape s.sb x := by
  intro x hm
  rcases mem_append.1 hm with hm | hm
  · exact h.tasks x hm
  · rw [mem_singleton.1 hm]
    exact hx

theorem Shape.step (input : Input) : Shape sb (s.step input) := by
  cases input with
  | allocateBlock => exact ⟨h.blocks, h.layout, h.sectors, h.cache, h.append trivial⟩
  | freeBlock block_num => exact ⟨h.blocks, h.layout, h.sectors, h.cache, h.append trivial⟩
  | run t ok =>
    unfold Vol.step
    dsimp only
    split
    · exact h
    · rename_i task e
      exact h.runTask (h.tasks task (mem_of_getElem? e))

end

end Shape

/-! ## 3. What a step uses -/

/-- A volume that was formatted or accepted, before the first call. -/
structure Mounted (s : Vol) : Prop where
  superblock : s.sb = format ∨ validateSuperblock s.sb = true
  sectors : ∀ lba, (s.disk lba).length = 512
  cache : s.cache = .absent ∨ s.cache = .cold
  lock : s.lock = none
  tasks : s.tasks = []

theorem validate_spec {sb : Superblock} (h : validateSuperblock sb = true) :
    sb.total_blocks ≤ 4 * 1024 * 1024 ∧ 0 < sb.bitmap_blocks ∧ sb.bitmap_blocks ≤ 16 ∧
      sb.data_start = sb.bitmap_start + sb.bitmap_blocks + Sfs.ROOT_DIR_BLOCKS ∧
      sb.free_blocks ≤ sb.total_blocks - sb.data_start := by
  unfold validateSuperblock at h
  simp only [ne_eq, ite_not, Bool.if_false_left, Bool.if_false_right] at h
  grind

section Bounds

variable {sb : Superblock} {s : Vol} {t lba : Nat} {task : Task} {m buf : Bitmap} {ok : Bool}
  {a : Access}

theorem Mounted.shape (h : Mounted s) : Shape s.sb s where
  blocks := by
    rcases h.superblock with e | hv
    · rw [e]
      decide
    · exact (validate_spec hv).2.1
  layout := rfl
  sectors := h.sectors
  cache m e := by
    rcases h.cache with hc | hc
    · rw [hc] at e
      cases e
    · rw [hc] at e
      cases e
  tasks task hm := by
    rw [h.tasks] at hm
    cases hm

theorem shape_run {s₀ : Vol} (h₀ : Mounted s₀) (h : (allocator s₀).Reachable s) :
    Shape s₀.sb s := by
  refine h.invariant (fun s e => ?_) fun s input _ hs _ => hs.step input
  rw [show s = s₀ from e]
  exact h₀.shape

theorem Shape.inBounds (h : Shape sb s) : sb.InBounds a ↔ s.sb.InBounds a := by
  rw [h.layout]
  exact Iff.rfl

/-- The sector of a bit of the bitmap is one of the bitmap's. -/
theorem lba_inBounds {rel : Nat} (h : rel < sb.bits) : sb.InBounds (.sector (sb.lba rel)) := by
  unfold Superblock.InBounds lba
  unfold bits bytes at h
  omega

theorem slices_inBounds (hm : m.length = s.sb.bytes) (ha : a ∈ slices m) : s.sb.InBounds a := by
  unfold slices at ha
  split at ha
  · cases ha
  rename_i idx bit hs
  have hidx := (scan_bits hm hs).1
  rcases mem_cons.1 ha with rfl | ha
  · exact hidx
  rw [mem_singleton.1 ha]
  show idx / 512 * 512 + 512 ≤ s.sb.bytes
  unfold bytes at hidx ⊢
  omega

theorem cleared_inBounds {block_num : Nat} (h : s.sb.rel block_num < s.sb.bits)
    (ha : a ∈ s.cleared block_num) : s.sb.InBounds a := by
  unfold cleared at ha
  split at ha
  · rw [mem_singleton.1 ha]
    show s.sb.rel block_num / 8 < s.sb.bytes
    unfold bits at h
    omega
  · cases ha

/-- **`allocateBlock` stays in the bitmap.** -/
theorem Shape.allocate_inBounds (h : Shape sb s) {phase : AllocPhase}
    (hx : TaskShape s.sb (.allocateBlock phase)) (ha : a ∈ s.accesses (.allocateBlock phase)) :
    s.sb.InBounds a := by
  cases phase with
  | start =>
    rw [accesses] at ha
    split at ha
    · rename_i m e
      exact slices_inBounds (h.cache m e) ha
    · cases ha
  | load next bitmap_buf =>
    obtain ⟨hnext, hlen⟩ := hx
    rw [accesses] at ha
    rcases mem_cons.1 ha with rfl | ha
    · exact ⟨Nat.le_add_right _ _, Nat.add_lt_add_left hnext _⟩
    split at ha
    · cases ha
    refine slices_inBounds ?_ ha
    rw [length_append, hlen, h.sectors]
    unfold bytes
    have hend : next + 1 = s.sb.bitmap_blocks := by omega
    rw [← hend, Nat.succ_mul]
  | write block_num lba sector_data =>
    obtain ⟨hbits, hlba, -⟩ := hx
    rw [accesses] at ha
    rw [mem_singleton.1 ha, hlba]
    exact lba_inBounds hbits
  | rollback block_num =>
    rw [accesses] at ha
    exact cleared_inBounds hx ha
  | superblock block_num =>
    rw [accesses] at ha
    rw [mem_singleton.1 ha]
    trivial
  | undo => cases ha
  | done result => cases ha

/-- `freeBlock` does, if the bitmap has a bit for the block. -/
theorem Shape.free_inBounds {block_num : Nat} {phase : FreePhase}
    (hx : TaskShape s.sb (.freeBlock block_num phase)) (hb : s.sb.rel block_num < s.sb.bits)
    (ha : a ∈ s.accesses (.freeBlock block_num phase)) : s.sb.InBounds a := by
  cases phase with
  | start =>
    rw [accesses] at ha
    split at ha
    · cases ha
    · rw [mem_singleton.1 ha]
      exact lba_inBounds hb
  | write lba sector_buf =>
    rw [accesses] at ha
    rw [mem_singleton.1 ha, hx.1]
    exact lba_inBounds hb
  | account =>
    rw [accesses] at ha
    exact cleared_inBounds hb ha
  | superblock =>
    rw [accesses] at ha
    rw [mem_singleton.1 ha]
    trivial
  | done result => cases ha
  | panicked => cases ha

/-! ### The other sectors -/

/-- A scan and a lock section write no sector. -/
@[simp] theorem disk_clearCache (rel : Nat) : (s.clearCache rel).disk = s.disk := by
  unfold clearCache
  split <;> rfl

theorem disk_allocate : (s.allocate t m).disk = s.disk := by
  unfold allocate
  split
  · rfl
  dsimp only
  split
  · rfl
  · split <;> rfl

theorem disk_loaded : (s.loaded m).disk = s.disk := by
  unfold loaded
  split <;> rfl

theorem disk_writeSector {k : Nat} (h : k ≠ lba) : (s.writeSector lba buf).disk k = s.disk k :=
  update_of_ne h ..

/-- **A step changes no sector but the one it uses.** -/
theorem disk_runTask {k : Nat} (hk : .sector k ∉ s.accesses task) :
    (s.runTask t ok task).disk k = s.disk k := by
  cases task with
  | allocateBlock phase =>
    show (s.runAlloc t ok phase).disk k = s.disk k
    cases phase with
    | start =>
      rw [runAlloc]
      split
      · rfl
      split
      · rw [disk_allocate]
      · rfl
      · split <;> rfl
    | load next bitmap_buf =>
      rw [runAlloc]
      split
      · rfl
      dsimp only
      split
      · rfl
      · rw [disk_allocate, disk_loaded]
        rfl
    | write block_num lba sector_data =>
      have hne : k ≠ lba := by
        intro e
        exact hk (by rw [e, accesses]; exact mem_singleton_self _)
      rw [runAlloc]
      split
      · exact disk_writeSector hne
      · rfl
    | rollback block_num =>
      rw [runAlloc]
      split
      · rfl
      · exact congrFun (disk_clearCache _) k
    | superblock block_num =>
      rw [runAlloc]
      split <;> rfl
    | undo =>
      rw [runAlloc]
      split <;> rfl
    | done result => rfl
  | freeBlock block_num phase =>
    show (s.runFree t block_num ok phase).disk k = s.disk k
    cases phase with
    | start =>
      rw [runFree]
      split
      · rfl
      · dsimp only
        split <;> rfl
    | write lba sector_buf =>
      have hne : k ≠ lba := by
        intro e
        exact hk (by rw [e, accesses]; exact mem_singleton_self _)
      rw [runFree]
      split
      · exact disk_writeSector hne
      · rfl
    | account =>
      rw [runFree]
      split
      · rfl
      dsimp only
      split
      · rfl
      · exact congrFun (disk_clearCache _) k
    | superblock =>
      rw [runFree]
      split <;> rfl
    | done result => rfl
    | panicked => rfl

end Bounds

/-! ## 4. All runs -/

/-- In every run on a volume of this layout, whatever the device does: an `allocateBlock`, and a
    `freeBlock` of the block, uses sectors of the bitmap and the superblock's, and places in the
    bitmap, and leaves the sectors from the root directory on as they are. -/
def Confined (sb : Superblock) (block_num : Nat) : Prop :=
  ∀ s₀ s t task, Mounted s₀ → s₀.sb = sb → (allocator s₀).Reachable s → s.tasks[t]? = some task →
    ((∃ phase, task = .allocateBlock phase) ∨ ∃ phase, task = .freeBlock block_num phase) →
    (∀ a ∈ s.accesses task, sb.InBounds a) ∧
    ∀ ok lba, sb.bitmap_start + sb.bitmap_blocks ≤ lba → (s.runTask t ok task).disk lba = s.disk lba

theorem confined_of_bit {sb : Superblock} {block_num : Nat} (h : sb.rel block_num < sb.bits) :
    Confined sb block_num := by
  intro s₀ s t task h₀ e hs ht hcall
  have hshape := e ▸ shape_run h₀ hs
  have hx := hshape.tasks task (mem_of_getElem? ht)
  have hb : s.sb.rel block_num < s.sb.bits := by
    rw [hshape.layout]
    exact h
  have hin : ∀ a ∈ s.accesses task, sb.InBounds a := by
    intro a ha
    rw [hshape.inBounds]
    rcases hcall with ⟨phase, rfl⟩ | ⟨phase, rfl⟩
    · exact hshape.allocate_inBounds hx ha
    · exact Shape.free_inBounds hx hb ha
  refine ⟨hin, fun ok lba hge => disk_runTask fun hmem => ?_⟩
  exact Nat.not_lt_of_le hge (hin _ hmem).2

/-- The first step of `freeBlock` reads the sector of the bit. -/
theorem Confined.bit {sb : Superblock} {block_num : Nat} (h : Confined sb block_num)
    (hsb : sb = format ∨ validateSuperblock sb = true) (hlo : sb.data_start ≤ block_num) :
    sb.rel block_num < sb.bits := by
  let s₀ : Vol :=
    { sb := sb, stored := sb, disk := fun _ => List.replicate 512 0#8, books := fun _ => false }
  have h₀ : Mounted s₀ := ⟨hsb, fun _ => length_replicate, .inl rfl, rfl, rfl⟩
  have hs : (allocator s₀).Reachable (s₀.step (.freeBlock block_num)) :=
    Machine.Reach.step (M := allocator s₀) (.start rfl) (Input.freeBlock block_num) trivial
  have hmem : .sector (sb.lba (sb.rel block_num)) ∈
      (s₀.step (Input.freeBlock block_num)).accesses (Task.freeBlock block_num .start) := by
    rw [accesses, if_neg (by exact Nat.not_lt_of_le hlo)]
    exact mem_singleton_self _
  obtain ⟨-, hlt⟩ := (h s₀ _ 0 _ h₀ rfl hs rfl (.inr ⟨.start, rfl⟩)).1 _ hmem
  unfold lba at hlt
  unfold bits bytes
  omega

/-- **A block has a bit, or freeing it reaches past the bitmap.** For every superblock that `format`
    writes or `validateSuperblock` accepts and every block of the data: the allocator's calls stay
    in the bitmap if and only if the block is one of the `bitmap_blocks * 4096` that have a bit. -/
theorem bitmapBounds {sb : Superblock} (hsb : sb = format ∨ validateSuperblock sb = true)
    {block_num : Nat} (hlo : sb.data_start ≤ block_num) (_ : block_num < sb.total_blocks) :
    Confined sb block_num ↔ block_num - sb.data_start < sb.bitmap_blocks * 512 * 8 :=
  ⟨fun h => h.bit hsb hlo, fun h => confined_of_bit h⟩

theorem bitmapBounds_format : Confined format 21 :=
  (bitmapBounds (.inl rfl) (by decide) (by decide)).2 (by decide)

/-- The first block without a bit: its sector is the first of the root directory. -/
theorem bitmapBounds_refuted : format.data_start ≤ 16405 ∧ 16405 < format.total_blocks ∧
    format.lba (format.rel 16405) = format.root_dir_start ∧ ¬ Confined format 16405 := by
  refine ⟨by decide, by decide, by decide, fun h => ?_⟩
  have := h.bit (.inl rfl) (by decide)
  exact absurd this (by decide)

end Zigk.SfsAlloc
