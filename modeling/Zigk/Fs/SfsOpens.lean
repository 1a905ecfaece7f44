/-
  Subject:   FILES THAT ARE UNLINKED WHILE THEY ARE OPEN.

  * **`openTracking`** -- in every run of calm steps, whatever is called next: a read is the one
    call that may fail, and fails where there is something to read; `openTracking_refuted`.
-/
import Zigk.Fs.SfsBlocks

namespace Zigk.Sfs

open Function SFS

variable {s t : SFS} {i j : Slot} {b c n len : Nat} {f g : SfsFile} {k : Nat}

/-! ## 1. Open files -/

namespace SFS

variable (s : SFS)

/-- The file of a descriptor has lost its last name. -/
def unlinked (f : SfsFile) : Bool := !f.root && !(s.dir f.entry_idx).flags

/-- What the calls made of the lengths of the files. -/
def lengths (lens : Nat → Nat) (s : SFS) (op : Op) : Nat → Nat :=
  if s.lost then lens
  else match op with
    | .sfsOpen path flags _ =>
      match s.lookup (stripSlash path) with
      | none => lens
      | some i =>
        if flags &&& O_TRUNC ≠ 0 ∧ (flags &&& O_ACCMODE = 1 ∨ flags &&& O_ACCMODE = 2) then
          update lens (s.dir i).file 0
        else lens
    | .sfsSymlink target linkpath =>
      match (s.sfsSymlink target linkpath).2 with
      | .error _ => lens
      | .ok _ => update lens s.next_file target.length
    | .sfsWrite k len =>
      match s.files[k]? with
      | none => lens
      | some f =>
        match (s.sfsWrite k f len).2 with
        | .error _ => lens
        | .ok written =>
          if written = 0 then lens
          else update lens f.file (max (lens f.file) (f.position + written))
    | .sfsTruncate k length =>
      match s.files[k]? with
      | none => lens
      | some f =>
        match (s.truncateFd k f length).2 with
        | .error _ => lens
        | .ok _ => update lens f.file length
    | .sysFallocate k offset len =>
      match s.files[k]? with
      | none => lens
      | some f =>
        match (s.sysFallocate k f offset len).2 with
        | .error _ => lens
        | .ok _ => update lens f.file (max (lens f.file) (offset + len))
    | _ => lens

end SFS

/-- SFS with the lengths of its files. -/
def sfsLengths : Machine (SFS × (Nat → Nat)) Op := sfs.track (fun _ => 0) lengths

/-- `open_counts` counts descriptors; an open file keeps its slot, and its blocks are taken and
    its own; what nobody reaches is free, once. -/
structure OpenTracking (s : SFS) : Prop where
  counts : ∀ i, s.open_counts i = s.files.countP fun f => f.counts i
  slot : ∀ f ∈ s.files, f.root = false → (s.dir f.entry_idx).file = f.file ∧
    (s.dir f.entry_idx).start_block = f.start_block
  own : ∀ f ∈ s.files, f.mode ≠ .S_IFDIR → ∀ b, f.start_block ≤ b →
    b < f.start_block + blocks f.size → s.bit b = true ∧ ∀ n, s.Owns n b ↔ n = f.file
  freed : ∀ b, s.bit b = true → ∃ n, s.Owns n b
  once : s.free_blocks = (dataBlocks.filter fun b => s.bit b = false).card

namespace SFS

variable (s : SFS)

/-- A read gives what the file has from the position on. -/
def ServesRead (lens : Nat → Nat) (k : Nat) (f : SfsFile) (len : Nat) : Prop :=
  (s.sfsRead k f len).2 = .ok (min len (lens f.file - f.position))

/-- A write is refused where it must grow and cannot, or goes to blocks of the file. -/
def ServesWrite (k : Nat) (f : SfsFile) (len : Nat) : Prop :=
  (blocks f.size < (f.position + len + 511) / 512 ∧
    s.refusesGrowth f ((f.position + len + 511) / 512) = true) ∨
  (s.sfsWrite k f len).2 = .ok len ∧ (f.mode ≠ .S_IFDIR →
    ∀ p, f.position ≤ p → p < f.position + len → ∀ n, s.Owns n (f.start_block + p / 512) ↔
      n = f.file)

/-- The last `close` frees the block, the others nothing. -/
def ServesClose (k : Nat) (f : SfsFile) : Prop :=
  (s.open_counts f.entry_idx = 1 → (s.sfsClose k f).pending_delete f.entry_idx = false ∧
    (f.mode ≠ .S_IFDIR → (s.sfsClose k f).bit f.start_block = false ∧
      (s.sfsClose k f).free_blocks = s.free_blocks + 1)) ∧
  (s.open_counts f.entry_idx ≠ 1 → (s.sfsClose k f).pending_delete f.entry_idx = true ∧
    (s.sfsClose k f).bitmap = s.bitmap ∧ (s.sfsClose k f).free_blocks = s.free_blocks)

/-- A call on a descriptor of an unlinked file. -/
def Serves (lens : Nat → Nat) : Op → Prop
  | .sfsRead k len => ∀ f ∈ s.files[k]?, s.unlinked f = true → s.ServesRead lens k f len
  | .sfsWrite k len => ∀ f ∈ s.files[k]?, s.unlinked f = true → s.ServesWrite k f len
  | .sfsClose k => ∀ f ∈ s.files[k]?, s.unlinked f = true → s.ServesClose k f
  | _ => True

/-- A read of an unlinked file asks for nothing that the file has. -/
def Readable (lens : Nat → Nat) : Op → Prop
  | .sfsRead k len => ∀ f ∈ s.files[k]?, s.unlinked f = true →
    min len (lens f.file - f.position) = 0
  | _ => True

end SFS

/-! ## 2. The invariant of the blocks gives the tracking -/

theorem SFS.unlinked_iff : s.unlinked f = true ↔
    f.root = false ∧ (s.dir f.entry_idx).flags = false := by
  simp [unlinked]

namespace Inv

theorem pending_of_unlinked (h : Inv s) (hf : f ∈ s.files) (hu : s.unlinked f = true) :
    s.pending_delete f.entry_idx = true := by
  obtain ⟨hr, hfl⟩ := unlinked_iff.1 hu
  have hkept := (h.volume.opened f hf hr).1
  simpa [kept, hfl] using hkept

/-- An open file that is no directory holds its block through its slot. -/
theorem holds_of_open (h : Inv s) (hf : f ∈ s.files) (hd : f.mode ≠ .S_IFDIR) :
    s.holds f.entry_idx = some f.start_block ∧ (s.dir f.entry_idx).file = f.file := by
  have hr : f.root = false := by
    cases hr : f.root with
    | false => rfl
    | true => exact absurd (h.volume.roots f hf hr).1 hd
  obtain ⟨hk, hb, hm, hn⟩ := h.volume.opened f hf hr
  rw [hm] at hd
  exact ⟨holds_eq_some.2 ⟨hk, decide_eq_false hd, hb.symm⟩, hn.symm⟩

/-- Its block belongs to it and to no other file. -/
theorem owns_iff (h : Inv s) (hf : f ∈ s.files) (hd : f.mode ≠ .S_IFDIR) :
    s.Owns n f.start_block ↔ n = f.file := by
  obtain ⟨hi, hn⟩ := h.holds_of_open hf hd
  constructor
  · intro ho
    obtain ⟨j, hj, rfl⟩ := h.volume.holds_of_owns ho
    by_cases hji : j = f.entry_idx
    · rw [hji, hn]
    · rw [(h.volume.alone j _ _ hj hi hji).2, hn]
  · intro he
    refine ⟨f.start_block, f.size, he ▸ .opened f hf hd, le_rfl, ?_⟩
    rw [blocks_of_le (h.volume.smallFiles f hf)]
    omega

theorem tracked (h : Inv s) : OpenTracking s := by
  have hbal := h.volume.balance
  have hclear := card_clear dataBlocks s.bit
  refine ⟨h.volume.opens, ?_, ?_, fun b => (h.bit_iff b).1, by omega⟩
  · intro f hf hr
    obtain ⟨-, hb, -, hn⟩ := h.volume.opened f hf hr
    exact ⟨hn.symm, hb.symm⟩
  intro f hf hd b hle hlt
  rw [blocks_of_le (h.volume.smallFiles f hf)] at hlt
  have hb : b = f.start_block := by omega
  rw [hb]
  exact ⟨(h.bit_iff _).2 ⟨f.file, (h.owns_iff hf hd).2 rfl⟩, fun n => h.owns_iff hf hd⟩

/-! ## 3. Calls on unlinked files -/

/-- The entry is gone, and with it the size. -/
theorem sfsRead_unlinked (hu : s.unlinked f = true) : (s.sfsRead k f len).2 = .ok 0 := by
  have hfl := (unlinked_iff.1 hu).2
  have hnone : s.refreshSizeFromDisk f = none := by
    simp [refreshSizeFromDisk, matchesEntry, hfl]
  unfold sfsRead
  rw [hnone]

theorem servesRead_iff {lens : Nat → Nat} (hu : s.unlinked f = true) :
    s.ServesRead lens k f len ↔ min len (lens f.file - f.position) = 0 := by
  unfold SFS.ServesRead
  rw [sfsRead_unlinked hu, Except.ok.injEq]
  exact eq_comm

/-- A write into the one block of a file. -/
theorem sfsWrite_within (hsmall : f.size ≤ 512) (hstart : f.start_block < TOTAL_BLOCKS)
    (hlen : f.position + len ≤ 512) : (s.sfsWrite k f len).2 = .ok len := by
  have hneed : (f.position + len + 511) / 512 ≤ 1 := by omega
  have hover : f.overwrites (f.position + len) = false := by
    simp [SfsFile.overwrites, not_lt.2 hlen]
  have hgap : ¬ (f.size < f.position ∧
      TOTAL_BLOCKS ≤ f.start_block + (f.position - 1) / 512) := by omega
  have hsame : (if f.size < f.position then f.setSize f.position else f).start_block =
      f.start_block ∧ (if f.size < f.position then f.setSize f.position else f).position =
        f.position := by
    split_ifs <;> exact ⟨rfl, rfl⟩
  have hdata : ¬ (0 < len ∧ TOTAL_BLOCKS ≤ f.start_block + (f.position + len - 1) / 512) := by
    omega
  unfold sfsWrite
  dsimp only
  rw [blocks_of_le hsmall, if_neg (show ¬ U32_MAX < _ from ?_), if_neg (not_lt.2 hneed)]
  · unfold writeData
    rw [hover, if_neg Bool.false_ne_true, if_neg hgap]
    dsimp only
    rw [hsame.1, hsame.2, if_neg hdata]
    split_ifs <;> rfl
  · have : 1 < U32_MAX := by decide
    omega

theorem start_lt (h : Inv s) (hf : f ∈ s.files) (hr : f.root = false) :
    f.start_block < TOTAL_BLOCKS := by
  have hpos : 0 < TOTAL_BLOCKS := by decide
  have hbits : DATA_START_BLOCK + BITMAP_BITS ≤ TOTAL_BLOCKS := by decide
  obtain ⟨hk, hb, hm, -⟩ := h.volume.opened f hf hr
  by_cases hd : f.mode = .S_IFDIR
  · rw [hb, h.volume.dirs _ hk (decide_eq_true (hm.symm.trans hd))]
    exact hpos
  · have hrange := h.volume.range _ _ (h.holds_of_open hf hd).1
    omega

theorem servesWrite (h : Inv s) (hk : s.files[k]? = some f) (hu : s.unlinked f = true)
    (hcalm : s.staysWithin f (f.position + len)) : s.ServesWrite k f len := by
  have hf : f ∈ s.files := List.mem_of_getElem? hk
  have hsmall := h.volume.smallFiles f hf
  by_cases href : blocks f.size < (f.position + len + 511) / 512 ∧
      s.refusesGrowth f ((f.position + len + 511) / 512) = true
  · exact .inl href
  have hlen := Good.le_of_stays h hk hcalm href
  refine .inr ⟨sfsWrite_within hsmall (h.start_lt hf (unlinked_iff.1 hu).1) hlen, ?_⟩
  intro hd p _ hp n
  rw [Nat.div_eq_of_lt (show p < 512 by omega), Nat.add_zero]
  exact h.owns_iff hf hd

/-- The descriptor goes, and the rest follows from the count that is left. -/
theorem servesClose (h : Inv s) (hk : s.files[k]? = some f) (hu : s.unlinked f = true) :
    s.ServesClose k f := by
  have hf : f ∈ s.files := List.mem_of_getElem? hk
  have hp := h.pending_of_unlinked hf hu
  have hopen := h.waits _ hp
  have hinfo := (h.volume.pending _ hp).2
  obtain ⟨hr, -⟩ := unlinked_iff.1 hu
  have hstart := (h.volume.opened f hf hr).2.1
  unfold SFS.ServesClose sfsClose
  dsimp only
  set q : SFS := { s.setCount f.entry_idx (s.open_counts f.entry_idx - 1) with
    files := s.files.eraseIdx k } with hq
  have hcount : q.open_counts f.entry_idx = s.open_counts f.entry_idx - 1 := update_self ..
  have hpend : q.pending_delete f.entry_idx = true := hp
  have hdeferred : q.deferred_info f.entry_idx = ⟨f.start_block, 1⟩ := by
    rw [hstart]
    exact hinfo
  refine ⟨?_, ?_⟩
  · intro hlast
    have hnone : q.open_counts f.entry_idx = 0 := by rw [hcount, hlast]
    rw [if_pos ⟨hnone, hpend⟩, hdeferred, freeBlocks_one]
    set r := q.setPending f.entry_idx false {} with hrq
    have hself : r.pending_delete f.entry_idx = false := update_self ..
    refine ⟨?_, fun hd => ?_⟩
    · unfold freeBlock
      split_ifs <;> exact hself
    have hi := (h.holds_of_open hf hd).1
    have hb := h.volume.range _ _ hi
    rw [freeBlock_of_range hb, bit_setBits hb.1, update_self]
    refine ⟨rfl, ?_⟩
    have hclear := marked_clear (mem_dataBlocks hb) (h.volume.exact.taken_of hi)
    have hbal := h.volume.balance
    have hcard : dataBlocks.card ≤ U32_MAX := by
      rw [dataBlocks, Nat.card_Ico]
      decide
    exact Nat.min_eq_left (show s.free_blocks + 1 ≤ U32_MAX by omega)
  · intro hmore
    rw [hcount, if_neg (fun hl => hmore (by omega))]
    exact ⟨hpend, rfl, rfl⟩

/-- What a calm call on an unlinked file needs. -/
theorem serves_iff (h : Inv s) (lens : Nat → Nat) {op : Op} (hcalm : s.Calm op) :
    s.Serves lens op ↔ s.Readable lens op := by
  cases op with
  | sfsRead k len =>
    refine forall_congr' fun f => forall_congr' fun _ => forall_congr' fun hu => ?_
    exact servesRead_iff hu
  | sfsWrite k len =>
    exact iff_of_true (fun f hk hu => h.servesWrite hk hu (hcalm f hk)) trivial
  | sfsClose k => exact iff_of_true (fun f hk hu => h.servesClose hk hu) trivial
  | _ => exact Iff.rfl

end Inv

/-! ## 4. Runs -/

/-- **In every run of calm steps the descriptors are counted, and an unlinked file keeps its slot
    and its blocks until the last of them is closed. Reads of it are served where there is nothing
    to read, and only there.** -/
theorem openTracking {p : SFS × (Nat → Nat)} (h : sfsLengths.Reach (fun p op => p.1.Calm op) p) :
    OpenTracking p.1 ∧ ∀ op, p.1.Calm op → (p.1.Serves p.2 op ↔ p.1.Readable p.2 op) := by
  have hinv := Inv.of_reach h.forget
  exact ⟨hinv.tracked, fun op hc => hinv.serves_iff p.2 hc⟩

/-- A file with two descriptors is unlinked, and one of them is closed. -/
def unlinkRun : List Op :=
  [create nameA, .sfsOpen nameA 2 ⟨true, true⟩, .sfsWrite 0 3, .sfsUnlink nameA, .sfsClose 1]

theorem openTracking_unlinkRun :
    OpenTracking (sfsLengths.exec (format, fun _ => 0) unlinkRun).1 ∧
    ∀ op, (sfsLengths.exec (format, fun _ => 0) unlinkRun).1.Calm op →
      ((sfsLengths.exec (format, fun _ => 0) unlinkRun).1.Serves
          (sfsLengths.exec (format, fun _ => 0) unlinkRun).2 op ↔
        (sfsLengths.exec (format, fun _ => 0) unlinkRun).1.Readable
          (sfsLengths.exec (format, fun _ => 0) unlinkRun).2 op) := by
  have hstart : sfsLengths.start (format, fun _ => 0) := ⟨rfl, rfl⟩
  refine openTracking ((Machine.Reach.start hstart).exec ⟨?_, ?_, ?_, ?_, ?_, trivial⟩) <;>
    decide +kernel

/-- The three bytes are there, and a read of them ends at once. -/
theorem openTracking_refuted : ¬ ∀ p, sfsLengths.Reachable p →
    OpenTracking p.1 ∧ ∀ op, p.1.Serves p.2 op := by
  intro h
  have hstart : sfsLengths.start (format, fun _ => 0) := ⟨rfl, rfl⟩
  set run : List Op := [create nameA, .sfsWrite 0 3, .sfsUnlink nameA, .sfsSeek 0 0 0] with hrun
  obtain ⟨-, hserves⟩ := h _ (Machine.Reachable.exec (.start hstart) run)
  have hread : ¬ ∀ f ∈ (sfsLengths.exec (format, fun _ => 0) run).1.files[0]?,
      (sfsLengths.exec (format, fun _ => 0) run).1.unlinked f = true →
      min 3 ((sfsLengths.exec (format, fun _ => 0) run).2 f.file - f.position) = 0 := by
    decide +kernel
  refine hread fun f hf hu => ?_
  exact Inv.servesRead_iff hu |>.1 (hserves (.sfsRead 0 3) f hf hu)

end Zigk.Sfs
