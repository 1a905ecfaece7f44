/-
  Subject:   WHO OWNS A BLOCK OF A VOLUME, AND WHICH STEPS KEEP THE BOOKS.

  * `Live`, `Owns` -- the files that an entry or a descriptor still reaches, and their extents;
  * `BlockOwnership`, `HandsOutFree`, `SpaceAccounting` -- what a volume should satisfy;
  * `Calm` -- a step on which no file grows, no link of an open or replaced file is forgotten, no
    slot of a deferred deletion is reused, and no count is taken from another file's descriptors;
  * `Volume` -- the invariant: each slot of the directory holds at most one block; `setSlot`,
    `relabel`, `setFile`, `installFile`, `eraseFile`, `defer`, `discard` -- what the operations
    are made of;
  * `allocateBlock_some`, `Volume.take`, `Volume.give` -- the allocator over the bitmap.
-/
import Zigk.Base.Machine
import Zigk.Base.Holders
import Zigk.Fs.Sfs
import Mathlib.Order.Interval.Finset.Nat

namespace Zigk.Sfs

open Function List SFS

namespace SFS

/-! ## 1. Extents -/

variable (s : SFS)

/-- A file with a start and a size under which it is reached. Directories have no blocks. -/
inductive Live : Nat → Nat → Nat → Prop where
  | entry (i : Slot) (hf : (s.dir i).flags = true) (hd : (s.dir i).isDirectory = false) :
      Live (s.dir i).file (s.dir i).start_block (s.dir i).size
  | opened (f : SfsFile) (hf : f ∈ s.files) (hd : f.mode ≠ .S_IFDIR) :
      Live f.file f.start_block f.size

/-- Block `b` is in an extent of file `n`. -/
def Owns (n b : Nat) : Prop :=
  ∃ start size, s.Live n start size ∧ start ≤ b ∧ b < start + blocks size

/-- The bit of a block; a block past the bitmap has none, and counts as free. -/
def bit (b : Nat) : Bool := DATA_START_BLOCK ≤ b && s.bitmap (b - DATA_START_BLOCK)

end SFS

def dataBlocks : Finset Nat := Finset.Ico DATA_START_BLOCK TOTAL_BLOCKS

/-- No block is in the extents of two files. -/
def BlockOwnership (s : SFS) : Prop := ∀ n m b, s.Owns n b → s.Owns m b → n = m

/-- Neither allocator hands out a block of a live file. -/
def HandsOutFree (s : SFS) (op : Op) : Prop := ∀ b ∈ (s.step op).handed, ∀ n, ¬ s.Owns n b

/-- `free_blocks` is the number of the clear bits, a bit is set for the blocks of the live files,
    and without files the volume is as free as after `format`. -/
def SpaceAccounting (s : SFS) : Prop :=
  s.free_blocks = (dataBlocks.filter fun b => s.bit b = false).card ∧
  (∀ b, s.bit b = true ↔ ∃ n, s.Owns n b) ∧
  ((∀ n start size, ¬ s.Live n start size) → s.free_blocks = format.free_blocks)

/-! ## 2. Calm steps -/

namespace SFS

variable (s : SFS)

/-- A new entry would go to the slot of a file that was unlinked and is still open. -/
def reusesPending : Bool :=
  s.file_count < MAX_FILES && s.freeSlot.any fun i => s.pending_delete i

/-- A file does not grow to a length: it has the blocks, or it is refused more. -/
def staysWithin (f : SfsFile) (length : Nat) : Prop :=
  (length + 511) / 512 ≤ blocks f.size ∨ s.refusesGrowth f ((length + 511) / 512) = true

instance (f : SfsFile) (length : Nat) : Decidable (s.staysWithin f length) :=
  inferInstanceAs (Decidable (_ ∨ _))

/-- A valid name without an entry. -/
def isNew (name : Name) : Bool :=
  isValidFilename name && name.length < 32 && (s.lookup name).isNone

/-- `sfsRename` leaves the other links of a replaced file. -/
def forgetsLinks (old_name new_name : Name) : Bool :=
  old_name ≠ new_name && (s.lookupLast old_name).isSome &&
    (s.lookupLast new_name).any fun j => !(s.dir j).isDirectory && 1 < (s.dir j).effective_nlink

def Calm : Op → Prop
  | .sfsOpen path flags heap =>
    (!isRoot (stripSlash path) && s.isNew (stripSlash path) && flags &&& O_CREAT ≠ 0) = true →
      (heap.file_ctx && heap.file_fd) = true ∧ s.reusesPending = false
  | .sfsClose k => ∀ f ∈ s.files[k]?, f.root = true → s.open_counts 0 = 0
  | .sfsWrite k len => ∀ f ∈ s.files[k]?, s.staysWithin f (f.position + len)
  | .sfsTruncate k length => ∀ f ∈ s.files[k]?, f.size < length → s.staysWithin f length
  | .sysFallocate k offset len =>
    ∀ f ∈ s.files[k]?, (s.refreshSizeFromDisk f).getD f.size < offset + len →
      f.size < offset + len → s.staysWithin f (offset + len)
  | .sfsUnlink path =>
    ∀ i ∈ s.lookup (stripSlash path), 0 < s.open_counts i → (s.dir i).effective_nlink ≤ 1
  | .sfsMkdir path => s.isNew (stripSlash path) = true → s.reusesPending = false
  | .sfsLink old_path new_path =>
    ∀ i ∈ s.lookupLast (stripSlash old_path), (s.dir i).isRegularFile = true →
      s.isNew (stripSlash new_path) = true → s.reusesPending = false
  | .sfsSymlink _ linkpath => s.isNew (stripSlash linkpath) = true → s.reusesPending = false
  | .sfsRename old_path new_path =>
    s.forgetsLinks (stripSlash old_path) (stripSlash new_path) = false
  | .sfsRename2 old_path new_path flags =>
    flags = 0 → s.forgetsLinks (stripSlash old_path) (stripSlash new_path) = false
  | _ => True

instance (op : Op) : Decidable (s.Calm op) :=
  match op with
  | .sfsOpen .. | .sfsMkdir .. | .sfsSymlink .. => inferInstanceAs (Decidable (_ → _))
  | .sfsClose _ | .sfsTruncate .. => inferInstanceAs (Decidable (∀ f ∈ _, _ → _))
  | .sfsWrite .. => inferInstanceAs (Decidable (∀ f ∈ _, s.staysWithin f _))
  | .sysFallocate .. => inferInstanceAs (Decidable (∀ f ∈ _, _ → _ → s.staysWithin f _))
  | .sfsUnlink _ => inferInstanceAs (Decidable (∀ i ∈ _, _ → _))
  | .sfsLink .. => inferInstanceAs (Decidable (∀ i ∈ _, _ → _ → _))
  | .sfsRename .. => inferInstanceAs (Decidable (_ = _))
  | .sfsRename2 .. => inferInstanceAs (Decidable (_ → _ = _))
  | .sfsRead .. | .sfsSeek .. | .sfsRmdir _ => inferInstanceAs (Decidable True)

end SFS

def sfs : Machine SFS Op where
  start s := s = format
  step := step

/-! ## 3. The invariant -/

/-- The block of an entry. -/
def DirEntry.block (e : DirEntry) : Option Nat :=
  if e.isDirectory then none else some e.start_block

/-- A descriptor that `open_counts` of a slot counts. -/
def SfsFile.counts (f : SfsFile) (i : Slot) : Bool := !f.root && f.entry_idx = i

namespace SFS

variable (s : SFS)

/-- A slot with an entry, or with a deletion that waits for the last `close`. -/
def kept (i : Slot) : Bool := (s.dir i).flags || s.pending_delete i

/-- The block that a slot keeps from the allocator. -/
def holds (i : Slot) : Option Nat := if s.kept i then (s.dir i).block else none

end SFS

/-- Two entries that the invariant does not tell apart. -/
structure DirEntry.Like (e e' : DirEntry) : Prop where
  flags : e.flags = e'.flags
  start_block : e.start_block = e'.start_block
  mode : e.mode = e'.mode
  file : e.file = e'.file

structure SfsFile.Like (f f' : SfsFile) : Prop where
  start_block : f.start_block = f'.start_block
  entry_idx : f.entry_idx = f'.entry_idx
  mode : f.mode = f'.mode
  root : f.root = f'.root
  file : f.file = f'.file

structure Volume (s : SFS) : Prop where
  exact : Exact s.holds s.bit
  balance : s.free_blocks + marked dataBlocks s.bit = dataBlocks.card
  range : ∀ i b, s.holds i = some b → DATA_START_BLOCK ≤ b ∧ b < DATA_START_BLOCK + BITMAP_BITS
  /-- Slots share a block only as links of one file. -/
  alone : ∀ i j b, s.holds i = some b → s.holds j = some b → i ≠ j →
    (s.dir i).flags = true ∧ (s.dir i).file = (s.dir j).file
  dirs : ∀ i, s.kept i = true → (s.dir i).isDirectory = true → (s.dir i).start_block = 0
  pending : ∀ i, s.pending_delete i = true → (s.dir i).flags = false ∧
    s.deferred_info i = ⟨(s.dir i).start_block, 1⟩
  opens : ∀ i, s.open_counts i = s.files.countP fun f => f.counts i
  /-- An open file is the one of its slot. -/
  opened : ∀ f ∈ s.files, f.root = false → s.kept f.entry_idx = true ∧
    f.start_block = (s.dir f.entry_idx).start_block ∧ f.mode = (s.dir f.entry_idx).mode ∧
    f.file = (s.dir f.entry_idx).file
  roots : ∀ f ∈ s.files, f.root = true → f.mode = .S_IFDIR ∧ f.entry_idx = 0
  small : ∀ i, (s.dir i).size ≤ 512
  smallFiles : ∀ f ∈ s.files, f.size ≤ 512

variable {s t : SFS} {i j : Slot} {b : Nat} {e : DirEntry} {f : SfsFile} {k : Nat}

theorem blocks_of_le (h : k ≤ 512) : blocks k = 1 := by
  unfold blocks
  split_ifs with h0
  · rfl
  · omega

theorem block_eq_some : e.block = some b ↔ e.isDirectory = false ∧ e.start_block = b := by
  unfold DirEntry.block
  cases e.isDirectory <;> simp

theorem SFS.holds_eq_some : s.holds i = some b ↔
    s.kept i = true ∧ (s.dir i).isDirectory = false ∧ (s.dir i).start_block = b := by
  unfold holds
  cases s.kept i <;> simp [block_eq_some]

theorem SFS.holds_of_not_kept (h : s.kept i = false) : s.holds i = none := by
  simp [holds, h]

theorem SFS.kept_of_flags (h : (s.dir i).flags = true) : s.kept i = true := by
  simp [kept, h]

theorem SFS.kept_of_pending (h : s.pending_delete i = true) : s.kept i = true := by
  simp [kept, h]

theorem SFS.kept_eq_false : s.kept i = false ↔
    (s.dir i).flags = false ∧ s.pending_delete i = false := Bool.or_eq_false_iff

theorem SFS.holds_setEntry (s : SFS) (i : Slot) (e : DirEntry) : (s.setEntry i e).holds =
      update s.holds i (if e.flags || s.pending_delete i then e.block else none) := by
  funext j
  by_cases hj : j = i
  · subst hj
    simp [holds, kept, setEntry]
  · simp [holds, kept, setEntry, update_of_ne hj]

theorem SFS.dir_setEntry_self (s : SFS) (i : Slot) (e : DirEntry) : (s.setEntry i e).dir i = e :=
  update_self ..

theorem SFS.dir_setEntry_ne (s : SFS) (e : DirEntry) (h : j ≠ i) :
    (s.setEntry i e).dir j = s.dir j :=
  update_of_ne h ..

theorem SFS.kept_setEntry_ne (s : SFS) (e : DirEntry) (h : j ≠ i) :
    (s.setEntry i e).kept j = s.kept j := by
  unfold kept
  rw [s.dir_setEntry_ne e h]
  rfl

theorem DirEntry.Like.isDirectory {e' : DirEntry} (h : e.Like e') :
    e.isDirectory = e'.isDirectory := by
  unfold DirEntry.isDirectory
  rw [h.mode]

theorem DirEntry.Like.block {e' : DirEntry} (h : e.Like e') : e.block = e'.block := by
  unfold DirEntry.block
  rw [h.isDirectory, h.start_block]

theorem SfsFile.Like.counts {f' : SfsFile} (h : f.Like f') (i : Slot) :
    f.counts i = f'.counts i := by
  unfold SfsFile.counts
  rw [h.root, h.entry_idx]

theorem SFS.kept_setDir {d : Slot → DirEntry} (hd : ∀ i, (d i).Like (s.dir i)) (i : Slot) :
    (s.setDir d).kept i = s.kept i := congrArg (· || s.pending_delete i) (hd i).flags

theorem SFS.holds_setDir {d : Slot → DirEntry} (hd : ∀ i, (d i).Like (s.dir i)) :
    (s.setDir d).holds = s.holds := by
  funext i
  unfold holds
  rw [kept_setDir hd]
  change (if _ then (d i).block else none) = _
  rw [(hd i).block]

theorem SFS.like_syncLinks (s : SFS) (b n : Nat) (i : Slot) :
    ((s.syncLinks b n).dir i).Like (s.dir i) := by
  change (if _ then (s.dir i).setNlink n else s.dir i).Like _
  split_ifs <;> exact ⟨rfl, rfl, rfl, rfl⟩

theorem SFS.holds_syncLinks (s : SFS) (b n : Nat) : (s.syncLinks b n).holds = s.holds :=
  holds_setDir (s.like_syncLinks b n)

theorem SFS.flags_syncLinks (s : SFS) (b n : Nat) (i : Slot) :
    ((s.syncLinks b n).dir i).flags = (s.dir i).flags := (s.like_syncLinks b n i).flags

/-- An unlinked open file keeps its slot and its block. -/
theorem SFS.kept_defer (hf : (s.dir i).flags = true) (info : DeferredDeleteInfo) (j : Slot) :
    ((s.setEntry i (s.dir i).clear).setPending i true info).kept j = s.kept j := by
  unfold kept
  by_cases hj : j = i
  · subst hj
    rw [hf]
    change (_ || update s.pending_delete j true j) = _
    rw [update_self, Bool.or_true, Bool.true_or]
  · change ((update s.dir i _ j).flags || update s.pending_delete i true j) = _
    rw [update_of_ne hj, update_of_ne hj]

theorem SFS.holds_defer (hf : (s.dir i).flags = true) (info : DeferredDeleteInfo) :
    ((s.setEntry i (s.dir i).clear).setPending i true info).holds = s.holds := by
  funext j
  unfold holds
  rw [kept_defer hf]
  change (if _ then (update s.dir i _ j).block else none) = _
  by_cases hj : j = i
  · subst hj
    rw [update_self]
    rfl
  · rw [update_of_ne hj]

/-- A slot whose deletion is over holds nothing. -/
theorem SFS.kept_discard_ne (s : SFS) (info : DeferredDeleteInfo) (j : Slot) (hj : j ≠ i) :
    (s.setPending i false info).kept j = s.kept j := by
  change (_ || update s.pending_delete i false j) = _
  rw [update_of_ne hj]
  rfl

theorem SFS.holds_discard (hf : (s.dir i).flags = false) (info : DeferredDeleteInfo) :
    (s.setPending i false info).holds = update s.holds i none := by
  funext j
  by_cases hj : j = i
  · subst hj
    rw [update_self]
    exact holds_of_not_kept (kept_eq_false.2 ⟨hf, update_self ..⟩)
  rw [update_of_ne hj]
  unfold holds
  rw [kept_discard_ne s info j hj]
  rfl

namespace Volume

section

variable (h : Volume s)
include h

/-- Nobody has a slot open that is not kept. -/
theorem not_counted (hi : s.open_counts i = 0) (hf : f ∈ s.files)
    (hr : f.root = false) : f.entry_idx ≠ i := by
  intro he
  rw [h.opens i, countP_eq_zero] at hi
  refine hi f hf ?_
  simp [SfsFile.counts, hr, he]

theorem open_counts_eq_zero (hk : s.kept i = false) : s.open_counts i = 0 := by
  rw [h.opens i, countP_eq_zero]
  intro f hf hc
  have hc' : f.root = false ∧ f.entry_idx = i := by simpa [SfsFile.counts] using hc
  have hkept := (h.opened f hf hc'.1).1
  rw [hc'.2, hk] at hkept
  cases hkept

/-- An entry is written into a slot that nobody has open, and the bitmap follows. -/
theorem setSlot (hi : s.open_counts i = 0) (hpend : s.pending_delete i = false)
    (hsize : e.size ≤ 512) {B : Nat → Bool} {F : Nat}
    (hexact : Exact (update s.holds i (if e.flags then e.block else none)) (s.setBits B F).bit)
    (hbal : F + marked dataBlocks (s.setBits B F).bit = dataBlocks.card)
    (hrange : ∀ b, e.flags = true → e.block = some b →
      DATA_START_BLOCK ≤ b ∧ b < DATA_START_BLOCK + BITMAP_BITS)
    (hdir : e.flags = true → e.isDirectory = true → e.start_block = 0)
    (halone : ∀ j b, j ≠ i → e.flags = true → e.block = some b → s.holds j = some b →
      (s.dir j).flags = true ∧ (s.dir j).file = e.file) :
    Volume ((s.setBits B F).setEntry i e) := by
  have hholds : ((s.setBits B F).setEntry i e).holds =
      update s.holds i (if e.flags then e.block else none) := by
    rw [holds_setEntry]
    change update s.holds i (if e.flags || s.pending_delete i then _ else _) = _
    rw [hpend, Bool.or_false]
  have hself : ∀ b, ((s.setBits B F).setEntry i e).holds i = some b →
      e.flags = true ∧ e.block = some b := by
    intro b hb
    rw [hholds, update_self] at hb
    cases hf : e.flags with
    | false => rw [hf] at hb; cases hb
    | true => exact ⟨rfl, by simpa [hf] using hb⟩
  have hother : ∀ j, j ≠ i → ((s.setBits B F).setEntry i e).holds j = s.holds j := by
    intro j hj
    rw [hholds, update_of_ne hj]
  refine ⟨?_, hbal, ?_, ?_, ?_, ?_, h.opens, ?_, h.roots, ?_, h.smallFiles⟩
  · rw [hholds]
    exact hexact
  · intro j b hj
    by_cases hji : j = i
    · subst hji
      exact hrange b (hself b hj).1 (hself b hj).2
    · exact h.range j b ((hother j hji).symm.trans hj)
  · intro j k b hj hk hne
    by_cases hji : j = i
    · subst hji
      have hkj : k ≠ j := hne.symm
      rw [hother k hkj] at hk
      obtain ⟨hf, hb⟩ := hself b hj
      rw [dir_setEntry_self, dir_setEntry_ne _ _ hkj]
      exact ⟨hf, (halone k b hkj hf hb hk).2.symm⟩
    rw [hother j hji] at hj
    rw [dir_setEntry_ne _ _ hji]
    by_cases hki : k = i
    · subst hki
      obtain ⟨hf, hb⟩ := hself b hk
      rw [dir_setEntry_self]
      exact halone j b hji hf hb hj
    · rw [hother k hki] at hk
      rw [dir_setEntry_ne _ _ hki]
      exact h.alone j k b hj hk hne
  · intro j hj hd
    by_cases hji : j = i
    · subst hji
      rw [dir_setEntry_self] at hd ⊢
      refine hdir ?_ hd
      unfold kept at hj
      rw [dir_setEntry_self] at hj
      change (e.flags || s.pending_delete j) = true at hj
      rwa [hpend, Bool.or_false] at hj
    · rw [kept_setEntry_ne _ _ hji] at hj
      rw [dir_setEntry_ne _ _ hji] at hd ⊢
      exact h.dirs j hj hd
  · intro j hj
    have hji : j ≠ i := by
      intro he
      subst he
      exact absurd (hpend.symm.trans hj) (by decide)
    rw [dir_setEntry_ne _ _ hji]
    exact h.pending j hj
  · intro f hf hr
    have hne := h.not_counted hi hf hr
    rw [kept_setEntry_ne _ _ hne, dir_setEntry_ne _ _ hne]
    exact h.opened f hf hr
  · intro j
    by_cases hji : j = i
    · subst hji
      rw [dir_setEntry_self]
      exact hsize
    · rw [dir_setEntry_ne _ _ hji]
      exact h.small j

/-- Sizes, names and links change. -/
theorem relabel {d : Slot → DirEntry} (hd : ∀ i, (d i).Like (s.dir i))
    (hs : ∀ i, (d i).size ≤ 512) : Volume (s.setDir d) := by
  have hholds := holds_setDir hd
  have hkept : ∀ i, (s.setDir d).kept i = s.kept i := kept_setDir hd
  refine ⟨?_, h.balance, ?_, ?_, ?_, ?_, h.opens, ?_, h.roots, hs, h.smallFiles⟩
  · rw [hholds]
    exact h.exact
  · rw [hholds]
    exact h.range
  · intro i j b hi hj hne
    rw [hholds] at hi hj
    obtain ⟨hf, hn⟩ := h.alone i j b hi hj hne
    exact ⟨(hd i).flags.trans hf, (hd i).file.trans (hn.trans (hd j).file.symm)⟩
  · intro i hi hdir
    rw [hkept] at hi
    exact (hd i).start_block.trans (h.dirs i hi ((hd i).isDirectory.symm.trans hdir))
  · intro i hi
    obtain ⟨hf, hdef⟩ := h.pending i hi
    refine ⟨(hd i).flags.trans hf, hdef.trans ?_⟩
    exact congrArg (fun b => DeferredDeleteInfo.mk b 1) (hd i).start_block.symm
  · intro f hf hr
    obtain ⟨hk, hb, hm, hn⟩ := h.opened f hf hr
    have hlike := hd f.entry_idx
    exact ⟨(hkept _).trans hk, hb.trans hlike.start_block.symm, hm.trans hlike.mode.symm,
      hn.trans hlike.file.symm⟩

/-- A descriptor changes its position or its size. -/
theorem setFile (hk : s.files[k]? = some f) {g : SfsFile} (hg : g.Like f)
    (hsize : g.size ≤ 512) : Volume (s.setFile k g) := by
  have hf : f ∈ s.files := mem_of_getElem? hk
  have hmem : ∀ {q}, q ∈ s.files.set k g → q ∈ s.files ∨ q = g := mem_or_eq_of_mem_set
  refine ⟨h.exact, h.balance, h.range, h.alone, h.dirs, h.pending, ?_, ?_, ?_, h.small, ?_⟩
  · intro i
    obtain ⟨hlt, hget⟩ := List.getElem?_eq_some_iff.1 hk
    have hset := (set_perm_cons_eraseIdx hlt g).countP_eq fun q => q.counts i
    have hold := (getElem_cons_eraseIdx_perm hlt).countP_eq fun q => q.counts i
    rw [hget] at hold
    change s.open_counts i = (s.files.set k g).countP _
    rw [h.opens i, hset, ← hold, countP_cons, countP_cons, hg.counts i]
  · intro q hq hr
    obtain hq | rfl := hmem hq
    · exact h.opened q hq hr
    obtain ⟨hkept, hb, hm, hn⟩ := h.opened f hf (hg.root.symm.trans hr)
    change s.kept q.entry_idx = true ∧ _ = (s.dir q.entry_idx).start_block ∧
      _ = (s.dir q.entry_idx).mode ∧ _ = (s.dir q.entry_idx).file
    rw [hg.entry_idx]
    exact ⟨hkept, hg.start_block.trans hb, hg.mode.trans hm, hg.file.trans hn⟩
  · intro q hq hr
    obtain hq | rfl := hmem hq
    · exact h.roots q hq hr
    · obtain ⟨hm, hidx⟩ := h.roots f hf (hg.root.symm.trans hr)
      exact ⟨hg.mode.trans hm, hg.entry_idx.trans hidx⟩
  · intro q hq
    obtain hq | rfl := hmem hq
    · exact h.smallFiles q hq
    · exact hsize

/-- A descriptor of the root directory: no count changes. -/
theorem installRoot : Volume (s.install rootFile) := by
  have hmem : ∀ {q}, q ∈ s.files ++ [rootFile] → q ∈ s.files ∨ q = rootFile := by
    intro q hq
    simpa using hq
  refine ⟨h.exact, h.balance, h.range, h.alone, h.dirs, h.pending, ?_, ?_, ?_, h.small, ?_⟩
  · intro i
    change s.open_counts i = (s.files ++ [rootFile]).countP _
    rw [countP_append, h.opens i]
    rfl
  · intro q hq hr
    obtain hq | rfl := hmem hq
    · exact h.opened q hq hr
    · cases hr
  · intro q hq hr
    obtain hq | rfl := hmem hq
    · exact h.roots q hq hr
    · exact ⟨rfl, rfl⟩
  · intro q hq
    obtain hq | rfl := hmem hq
    · exact h.smallFiles q hq
    · exact Nat.zero_le _

/-- A descriptor of a slot, which counts it. -/
theorem installFile (hi : s.kept i = true) (position : Nat) :
    Volume ((s.setCount i (s.open_counts i + 1)).install (s.fileOf i position)) := by
  have hmem : ∀ {q}, q ∈ s.files ++ [s.fileOf i position] →
      q ∈ s.files ∨ q = s.fileOf i position := by
    intro q hq
    simpa using hq
  refine ⟨h.exact, h.balance, h.range, h.alone, h.dirs, h.pending, ?_, ?_, ?_, h.small, ?_⟩
  · intro j
    change update s.open_counts i _ j = (s.files ++ [s.fileOf i position]).countP _
    rw [countP_append, ← h.opens j, countP_singleton]
    by_cases hj : j = i
    · subst hj
      rw [update_self, if_pos (by simp [SfsFile.counts, fileOf])]
    have hc : (s.fileOf i position).counts j = false := by
      simp [SfsFile.counts, fileOf, Ne.symm hj]
    rw [update_of_ne hj, hc]
    rfl
  · intro q hq hr
    obtain hq | rfl := hmem hq
    · exact h.opened q hq hr
    · exact ⟨hi, rfl, rfl, rfl⟩
  · intro q hq hr
    obtain hq | rfl := hmem hq
    · exact h.roots q hq hr
    · cases hr
  · intro q hq
    obtain hq | rfl := hmem hq
    · exact h.smallFiles q hq
    · exact h.small i

/-- A descriptor goes, and the count of its slot with it. The root directory's descriptor is not
    counted: the count it takes must be 0. -/
theorem eraseFile (hk : s.files[k]? = some f) (hr : f.root = true → s.open_counts f.entry_idx = 0) :
    Volume { s.setCount f.entry_idx (s.open_counts f.entry_idx - 1) with
      files := s.files.eraseIdx k } := by
  have hmem : ∀ {q}, q ∈ s.files.eraseIdx k → q ∈ s.files := mem_of_mem_eraseIdx
  refine ⟨h.exact, h.balance, h.range, h.alone, h.dirs, h.pending, ?_, ?_, ?_, h.small, ?_⟩
  · intro j
    obtain ⟨hlt, hget⟩ := List.getElem?_eq_some_iff.1 hk
    have hold := (getElem_cons_eraseIdx_perm hlt).countP_eq fun q => q.counts j
    rw [hget, countP_cons, ← h.opens j] at hold
    change update s.open_counts f.entry_idx _ j = (s.files.eraseIdx k).countP _
    by_cases hj : j = f.entry_idx
    · subst hj
      rw [update_self]
      cases hroot : f.root with
      | true =>
        rw [hr hroot] at hold ⊢
        omega
      | false =>
        rw [if_pos (by simp [SfsFile.counts, hroot])] at hold
        omega
    · rw [update_of_ne hj, ← hold, if_neg, Nat.add_zero]
      simp [SfsFile.counts, Ne.symm hj]
  · intro q hq
    exact h.opened q (hmem hq)
  · intro q hq
    exact h.roots q (hmem hq)
  · intro q hq
    exact h.smallFiles q (hmem hq)

/-- The last link of an open file is unlinked: its slot keeps the block. -/
theorem defer (hf : (s.dir i).flags = true)
    (honly : ∀ j b, s.holds i = some b → s.holds j = some b → j = i) :
    Volume ((s.setEntry i (s.dir i).clear).setPending i true ⟨(s.dir i).start_block, 1⟩) := by
  have hkept := kept_defer (s := s) hf ⟨(s.dir i).start_block, 1⟩
  have hholds := holds_defer (s := s) hf ⟨(s.dir i).start_block, 1⟩
  set t := (s.setEntry i (s.dir i).clear).setPending i true ⟨(s.dir i).start_block, 1⟩ with ht
  have hself : t.dir i = (s.dir i).clear := update_self ..
  have hdir : ∀ j, j ≠ i → t.dir j = s.dir j := fun j hj => update_of_ne hj ..
  have hpend : ∀ j, j ≠ i → t.pending_delete j = s.pending_delete j :=
    fun j hj => update_of_ne hj ..
  refine ⟨?_, h.balance, ?_, ?_, ?_, ?_, h.opens, ?_, h.roots, ?_, h.smallFiles⟩
  · rw [hholds]
    exact h.exact
  · rw [hholds]
    exact h.range
  · intro j k b hj hk hne
    rw [hholds] at hj hk
    have hji : j ≠ i := by
      intro he
      subst he
      exact hne (honly k b hj hk).symm
    have hki : k ≠ i := by
      intro he
      subst he
      exact hne (honly j b hk hj)
    rw [hdir j hji, hdir k hki]
    exact h.alone j k b hj hk hne
  · intro j hj hd
    rw [hkept] at hj
    by_cases hji : j = i
    · subst hji
      rw [hself] at hd ⊢
      exact h.dirs j hj hd
    · rw [hdir j hji] at hd ⊢
      exact h.dirs j hj hd
  · intro j hj
    by_cases hji : j = i
    · subst hji
      rw [hself]
      exact ⟨rfl, update_self ..⟩
    rw [hpend j hji] at hj
    rw [hdir j hji]
    refine ⟨(h.pending j hj).1, ?_⟩
    change update s.deferred_info i _ j = _
    rw [update_of_ne hji]
    exact (h.pending j hj).2
  · intro f hf hr
    obtain ⟨hk, hb, hm, hn⟩ := h.opened f hf hr
    rw [hkept]
    by_cases hji : f.entry_idx = i
    · rw [hji] at hk hb hm hn ⊢
      rw [hself]
      exact ⟨hk, hb, hm, hn⟩
    · rw [hdir _ hji]
      exact ⟨hk, hb, hm, hn⟩
  · intro j
    by_cases hji : j = i
    · subst hji
      rw [hself]
      exact h.small j
    · rw [hdir j hji]
      exact h.small j

/-- A deferred deletion ends once nobody has the file open. -/
theorem discard (hi : s.open_counts i = 0) (hf : (s.dir i).flags = false)
    {B : Nat → Bool} {F : Nat} (hexact : Exact (update s.holds i none) (s.setBits B F).bit)
    (hbal : F + marked dataBlocks (s.setBits B F).bit = dataBlocks.card) :
    Volume ((s.setPending i false {}).setBits B F) := by
  have hholds := holds_discard (s := s) hf {}
  set t := (s.setPending i false {}).setBits B F with ht
  have hholds : t.holds = update s.holds i none := hholds
  have hpend : ∀ j, j ≠ i → t.pending_delete j = s.pending_delete j :=
    fun j hj => update_of_ne hj ..
  have hself : t.pending_delete i = false := update_self ..
  have hkept : ∀ j, j ≠ i → t.kept j = s.kept j := kept_discard_ne s {}
  have hkself : t.kept i = false := kept_eq_false.2 ⟨hf, hself⟩
  have hof : ∀ {j b}, t.holds j = some b → j ≠ i ∧ s.holds j = some b := by
    intro j b hj
    rw [hholds] at hj
    have hji : j ≠ i := by
      intro he
      rw [he, update_self] at hj
      cases hj
    exact ⟨hji, by rwa [update_of_ne hji] at hj⟩
  refine ⟨?_, hbal, ?_, ?_, ?_, ?_, h.opens, ?_, h.roots, h.small, h.smallFiles⟩
  · rw [hholds]
    exact hexact
  · exact fun j b hj => h.range j b (hof hj).2
  · exact fun j k b hj hk => h.alone j k b (hof hj).2 (hof hk).2
  · intro j hj hd
    have hji : j ≠ i := by
      intro he
      rw [he, hkself] at hj
      cases hj
    rw [hkept j hji] at hj
    exact h.dirs j hj hd
  · intro j hj
    have hji : j ≠ i := by
      intro he
      rw [he, hself] at hj
      cases hj
    rw [hpend j hji] at hj
    refine ⟨(h.pending j hj).1, ?_⟩
    change update s.deferred_info i _ j = _
    rw [update_of_ne hji]
    exact (h.pending j hj).2
  · intro f hf hr
    rw [hkept _ (h.not_counted hi hf hr)]
    exact h.opened f hf hr

end

end Volume

/-! ## 4. The allocator over the bitmap -/

theorem SFS.bit_setBits (hb : DATA_START_BLOCK ≤ b) (v : Bool) (F : Nat) :
    (s.setBits (update s.bitmap (b - DATA_START_BLOCK) v) F).bit =
      update s.bit b v := by
  funext c
  unfold bit
  by_cases hc : c = b
  · subst hc
    simp [setBits, hb]
  rw [update_of_ne hc]
  by_cases hlt : DATA_START_BLOCK ≤ c
  · have hne : c - DATA_START_BLOCK ≠ b - DATA_START_BLOCK := by omega
    simp [setBits, update_of_ne hne]
  · simp [hlt]

theorem mem_dataBlocks (hb : DATA_START_BLOCK ≤ b ∧ b < DATA_START_BLOCK + BITMAP_BITS) :
    b ∈ dataBlocks := by
  refine Finset.mem_Ico.2 ⟨hb.1, hb.2.trans ?_⟩
  decide

theorem SFS.scan_some {bitmap : Nat → Bool} {n r q : Nat} (h : scan bitmap n r = some q) :
    r ≤ q ∧ q < r + n ∧ bitmap q = false := by
  induction n generalizing r with
  | zero => cases h
  | succ n ih =>
    unfold scan at h
    cases hb : bitmap r with
    | false =>
      rw [hb] at h
      cases h
      exact ⟨le_rfl, by omega, hb⟩
    | true =>
      rw [hb] at h
      obtain ⟨h1, h2, h3⟩ := ih h
      exact ⟨by omega, by omega, h3⟩

/-- A block handed out has a bit, which was clear and is set. -/
theorem SFS.allocateBlock_some (h : s.allocateBlock = some (b, t)) :
    (DATA_START_BLOCK ≤ b ∧ b < DATA_START_BLOCK + BITMAP_BITS) ∧ s.bit b = false ∧
      t = { s.setBits (update s.bitmap (b - DATA_START_BLOCK) true)
        (s.free_blocks - 1) with handed := [b] } := by
  unfold allocateBlock at h
  cases hr : scan s.bitmap BITMAP_BITS 0 with
  | none => rw [hr] at h; cases h
  | some r =>
    rw [hr] at h
    obtain ⟨-, hlt, hclear⟩ := scan_some hr
    simp only at h
    split_ifs at h
    cases h
    refine ⟨⟨by omega, by omega⟩, ?_, ?_⟩
    · simp [bit, hclear]
    · rw [Nat.add_sub_cancel_left]

theorem SFS.freeBlock_of_range (hb : DATA_START_BLOCK ≤ b ∧ b < DATA_START_BLOCK + BITMAP_BITS) :
    s.freeBlock b = s.setBits (update s.bitmap (b - DATA_START_BLOCK) false)
      (min (s.free_blocks + 1) U32_MAX) := by
  unfold freeBlock
  rw [if_neg (by omega), if_neg (by omega)]

theorem SFS.freeBlocks_one (s : SFS) (b : Nat) : s.freeBlocks b 1 = s.freeBlock b := rfl

namespace Volume

/-- A slot takes a clear block. -/
theorem take (h : Volume s) (hi : s.holds i = none)
    (hb : DATA_START_BLOCK ≤ b ∧ b < DATA_START_BLOCK + BITMAP_BITS) (hc : s.bit b = false) :
    Exact (update s.holds i (some b))
        (s.setBits (update s.bitmap (b - DATA_START_BLOCK) true) (s.free_blocks - 1)).bit ∧
      s.free_blocks - 1 + marked dataBlocks (s.setBits
        (update s.bitmap (b - DATA_START_BLOCK) true) (s.free_blocks - 1)).bit =
      dataBlocks.card := by
  rw [bit_setBits hb.1, marked_set (mem_dataBlocks hb) hc]
  have hlt := marked_lt (mem_dataBlocks hb) hc
  have hbal := h.balance
  exact ⟨h.exact.take hi, by omega⟩

/-- The only slot of a block gives it back. -/
theorem give (h : Volume s) (hi : s.holds i = some b) (honly : ∀ j, s.holds j = some b → j = i) :
    Exact (update s.holds i none) (s.setBits (update s.bitmap (b - DATA_START_BLOCK) false)
          (min (s.free_blocks + 1) U32_MAX)).bit ∧
      min (s.free_blocks + 1) U32_MAX + marked dataBlocks (s.setBits
        (update s.bitmap (b - DATA_START_BLOCK) false)
          (min (s.free_blocks + 1) U32_MAX)).bit = dataBlocks.card := by
  have hb := h.range i b hi
  rw [bit_setBits hb.1]
  have hclear := marked_clear (mem_dataBlocks hb) (h.exact.taken_of hi)
  have hbal := h.balance
  have hcard : dataBlocks.card ≤ U32_MAX := by
    rw [dataBlocks, Nat.card_Ico]
    decide
  refine ⟨h.exact.give hi honly, ?_⟩
  omega

end Volume

end Zigk.Sfs
