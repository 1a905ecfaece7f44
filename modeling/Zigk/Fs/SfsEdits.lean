/-
  Subject:   SFS (fs/sfs/ops.zig): modes, owners and times; what an operation does to the directory.

  * `Attrs`, `SFSMeta`, `MetaOp` -- the entries with the rest of their fields, and the calls that
    write these: `sfsChmod`, `sfsChown`, `sfsFdChown`, `sfsSetTimestamps`;
  * `Edit` -- the four things an operation does to the directory: it stores a size, adds a new
    file, adds a link, or at most renames and removes; `edit` -- it does no other, one lemma for
    each operation.

  Left out: the copies of mode and owner in a descriptor, which `sfsStat` shows once the entry is
  gone.
-/
import Zigk.Fs.SfsLinks

namespace Zigk.Sfs

open Function

/-! ## 1. The other fields of an entry -/

structure Attrs where
  /-- The permission bits of `mode`. -/
  perm : Nat
  uid : Nat := 0
  gid : Nat := 0
  mtime : Nat := 0
  atime : Nat := 0
  deriving DecidableEq

namespace Attrs

def chmod (a : Attrs) (mode : Nat) : Attrs := { a with perm := mode % 0o10000 }

def chown (a : Attrs) (uid gid : Option Nat) : Attrs :=
  { a with uid := uid.getD a.uid, gid := gid.getD a.gid }

/-- The seconds as a `u32`. -/
def seconds (sec : Int) : Nat := (sec % 2 ^ 32).toNat

/-- -1 leaves a time as it is. -/
def setTimestamps (a : Attrs) (atime_sec mtime_sec : Int) : Attrs :=
  { a with
    atime := if atime_sec ≠ -1 then seconds atime_sec else a.atime
    mtime := if mtime_sec ≠ -1 then seconds mtime_sec else a.mtime }

end Attrs

structure SFSMeta where
  sfs : SFS
  attrs : Slot → Attrs

inductive MetaOp where
  /-- The operation, with the `mode` of `sfsMkdir`. -/
  | op (op : Op) (mode : Nat := 0)
  | sfsChmod (path : Name) (mode : Nat)
  | sfsChown (path : Name) (uid gid : Option Nat)
  | sfsFdChown (k : Nat) (uid gid : Option Nat)
  | sfsSetTimestamps (path : Name) (atime_sec mtime_sec : Int)

namespace SFSMeta

variable (p : SFSMeta)

def setAttrs (i : Slot) (a : Attrs) : SFSMeta := { p with attrs := update p.attrs i a }

/-- A change to the entry of a name. -/
def onEntry (path : Name) (change : Attrs → Attrs) : SFSMeta × Except VfsError Unit :=
  let name := SFS.stripSlash path
  if !SFS.isValidFilename name then (p, .error .AccessDenied)
  else if 32 ≤ name.length then (p, .error .NotFound)
  else match p.sfs.lookup name with
    | none => (p, .error .NotFound)
    | some i => (p.setAttrs i (change (p.attrs i)), .ok ())

def sfsChmod (path : Name) (mode : Nat) : SFSMeta × Except VfsError Unit :=
  p.onEntry path (·.chmod mode)

def sfsChown (path : Name) (uid gid : Option Nat) : SFSMeta × Except VfsError Unit :=
  p.onEntry path (·.chown uid gid)

def sfsSetTimestamps (path : Name) (atime_sec mtime_sec : Int) :
    SFSMeta × Except VfsError Unit := p.onEntry path (·.setTimestamps atime_sec mtime_sec)

/-- The entry in the slot of the descriptor, whatever entry it is. -/
def sfsFdChown (f : SfsFile) (uid gid : Option Nat) : SFSMeta :=
  p.setAttrs f.entry_idx ((p.attrs f.entry_idx).chown uid gid)

/-- What a new entry of an operation has; a link has what the file has. -/
def newAttrs (mode : Nat) : Op → Attrs
  | .sfsMkdir _ => { perm := mode % 0o10000 }
  | .sfsSymlink .. => { perm := 0o777 }
  | .sfsLink old_path _ =>
    match p.sfs.lookupLast (SFS.stripSlash old_path) with
    | some old => p.attrs old
    | none => { perm := 0o644 }
  | _ => { perm := 0o644 }

/-- The operation writes a new entry where one becomes active. -/
def perform (op : Op) (mode : Nat) : SFSMeta where
  sfs := p.sfs.step op
  attrs i := if !(p.sfs.dir i).flags && ((p.sfs.step op).dir i).flags then
      p.newAttrs mode op
    else p.attrs i

def step : MetaOp → SFSMeta
  | .op op mode => p.perform op mode
  | .sfsChmod path mode => if p.sfs.lost then p else (p.sfsChmod path mode).1
  | .sfsChown path uid gid => if p.sfs.lost then p else (p.sfsChown path uid gid).1
  | .sfsFdChown k uid gid =>
    match p.sfs.lost, p.sfs.files[k]? with
    | false, some f => p.sfsFdChown f uid gid
    | _, _ => p
  | .sfsSetTimestamps path atime_sec mtime_sec =>
    if p.sfs.lost then p else (p.sfsSetTimestamps path atime_sec mtime_sec).1

end SFSMeta

def formatMeta : SFSMeta where
  sfs := format
  attrs _ := { perm := 0 }

def sfsMeta : Machine SFSMeta MetaOp where
  start p := p = formatMeta
  step := SFSMeta.step

/-! ## 2. Edits of the directory -/

namespace SFS

variable (s : SFS)

/-- A file must grow to have a length, and cannot. -/
def refusesLength (f : SfsFile) (length : Nat) : Bool :=
  blocks f.size < (length + 511) / 512 && s.refusesGrowth f ((length + 511) / 512)

/-- The size that an operation writes into an entry that is there. -/
def stored : Op → Option (Slot × Nat)
  | .sfsOpen path flags _ =>
    match s.lookup (stripSlash path) with
    | none => none
    | some i =>
      if flags &&& O_TRUNC ≠ 0 ∧ (flags &&& O_ACCMODE = 1 ∨ flags &&& O_ACCMODE = 2) then
        some (i, 0)
      else none
  | .sfsWrite k len =>
    match s.files[k]? with
    | none => none
    | some f =>
      if s.matchesEntry f = true ∧ 0 < len ∧ f.size < f.position + len ∧
          s.refusesLength f (f.position + len) = false then some (f.entry_idx, f.position + len)
      else none
  | .sfsTruncate k length =>
    match s.files[k]? with
    | none => none
    | some f =>
      if length ≤ U32_MAX ∧ (f.size < length → s.refusesLength f length = false) then
        some (f.entry_idx, length)
      else none
  | .sysFallocate k offset len =>
    match s.files[k]? with
    | none => none
    | some f =>
      if (s.refreshSizeFromDisk f).getD f.size < offset + len ∧ offset + len ≤ U32_MAX ∧
          (f.size < offset + len → s.refusesLength f (offset + len) = false) then
        some (f.entry_idx, offset + len)
      else none
  | _ => none

/-- An operation has all it needs to write a new entry, if there is a slot. -/
def adds : Op → Bool
  | .sfsOpen path flags _ => s.file_count < MAX_FILES && !isRoot (stripSlash path) &&
    s.isNew (stripSlash path) && flags &&& O_CREAT ≠ 0
  | .sfsMkdir path => s.file_count < MAX_FILES && s.isNew (stripSlash path)
  | .sfsLink old_path new_path => s.file_count < MAX_FILES && s.isNew (stripSlash new_path) &&
    (s.lookupLast (stripSlash old_path)).any fun i => (s.dir i).isRegularFile
  | .sfsSymlink _ linkpath => s.file_count < MAX_FILES && s.isNew (stripSlash linkpath)
  | _ => false

/-- The entry that an operation links to. -/
def linkSource : Op → Option Slot
  | .sfsLink old_path _ => s.lookupLast (stripSlash old_path)
  | _ => none

end SFS

/-- What an operation did to the directory of `s`. -/
inductive Edit (s : SFS) (op : Op) (t : SFS) : Prop where
  | stores (i : Slot) (n : Nat) (h : s.stored op = some (i, n)) (hn : t.next_file = s.next_file)
      (hdir : t.dir = update s.dir i ((s.dir i).setSize n))
  | adds (i : Slot) (ha : s.adds op = true) (hi : s.freeSlot = some i)
      (hn : t.next_file = s.next_file + 1) (hfile : (t.dir i).file = s.next_file)
      (hrest : ∀ j, j ≠ i → t.dir j = s.dir j)
  | links (i j : Slot) (ha : s.adds op = true) (hi : s.freeSlot = some i)
      (hj : s.linkSource op = some j) (hfl : (s.dir j).flags = true)
      (hn : t.next_file = s.next_file) (hself : (t.dir i).Same (s.dir j))
      (hrest : ∀ k, k ≠ i → Fades (s.dir k) (t.dir k))
  | fades (hn : t.next_file = s.next_file) (h : ∀ i, Fades (s.dir i) (t.dir i))

variable {s t u : SFS} {op : Op} {i j : Slot} {b n : Nat} {e : DirEntry} {f : SfsFile} {k : Nat}

theorem Edit.same (hdir : t.dir = s.dir) (hn : t.next_file = s.next_file) : Edit s op t := by
  refine .fades hn fun i => ?_
  rw [hdir]
  exact .refl _

/-- Only the directory is read. -/
theorem Edit.congr (h : Edit s op t) (hdir : u.dir = t.dir) (hn : u.next_file = t.next_file) :
    Edit s op u := by
  cases h with
  | stores i n h hn' hdir' => exact .stores i n h (hn.trans hn') (hdir.trans hdir')
  | adds i ha hi hn' hfile hrest =>
    rw [← hdir] at hfile hrest
    exact .adds i ha hi (hn.trans hn') hfile hrest
  | links i j ha hi hj hfl hn' hself hrest =>
    rw [← hdir] at hself hrest
    exact .links i j ha hi hj hfl (hn.trans hn') hself hrest
  | fades hn' h =>
    rw [← hdir] at h
    exact .fades (hn.trans hn') h

namespace SFS

theorem dir_freeBlock (s : SFS) (b : Nat) : (s.freeBlock b).dir = s.dir ∧
    (s.freeBlock b).next_file = s.next_file := by
  unfold freeBlock
  split_ifs <;> exact ⟨rfl, rfl⟩

theorem dir_freeBlocks (s : SFS) (b n : Nat) : (s.freeBlocks b n).dir = s.dir ∧
    (s.freeBlocks b n).next_file = s.next_file := by
  induction n with
  | zero => exact ⟨rfl, rfl⟩
  | succ n ih =>
    obtain ⟨hd, hn⟩ := (s.freeBlocks b n).dir_freeBlock (b + n)
    exact ⟨hd.trans ih.1, hn.trans ih.2⟩

theorem dir_allocateBlock (ha : s.allocateBlock = some (b, t)) : t.dir = s.dir ∧
    t.next_file = s.next_file := by
  rw [(allocateBlock_some ha).2.2]
  exact ⟨rfl, rfl⟩

theorem freeSlot_congr (h : t.dir = s.dir) : t.freeSlot = s.freeSlot := by
  unfold freeSlot
  rw [h]

end SFS

/-! ## 3. Sizes -/

/-- The directory stays as it is, or an entry gets a size. -/
def Sized (s : SFS) (op : Op) (t : SFS) (i : Slot) : Prop :=
  t.next_file = s.next_file ∧ (t.dir = s.dir ∨ ∃ n, s.stored op = some (i, n) ∧
      t.dir = update s.dir i ((s.dir i).setSize n))

namespace Sized

theorem same (hdir : t.dir = s.dir) (hn : t.next_file = s.next_file) : Sized s op t i :=
  ⟨hn, .inl hdir⟩

theorem edit (h : Sized s op t i) : Edit s op t := by
  obtain ⟨hn, hdir | ⟨n, hs, hdir⟩⟩ := h
  · exact .same hdir hn
  · exact .stores i n hs hn hdir

theorem openEntry {path : Name} {flags : Nat} (hl : s.lookup (SFS.stripSlash path) = some i)
    (heap : SFS.Heap) :
    Sized s (.sfsOpen path flags heap) (s.openEntry i flags heap).1 i := by
  have ht : Sized s (.sfsOpen path flags heap) (s.truncEntry i flags) i := by
    unfold SFS.truncEntry
    split_ifs with htrunc
    · refine ⟨rfl, .inr ⟨0, ?_, rfl⟩⟩
      simp only [SFS.stored, hl]
      exact if_pos ⟨htrunc.1, htrunc.2.2⟩
    · exact same rfl rfl
  unfold SFS.openEntry
  dsimp only
  split_ifs
  · exact same rfl rfl
  · exact same rfl rfl
  all_goals exact ht

variable {len length : Nat}

/-- What `writeData` writes into the directory. -/
theorem writeData (s : SFS) (k : Nat) (f : SfsFile) (len : Nat) :
    (s.writeData k f len).1.next_file = s.next_file ∧
    ((s.writeData k f len).1.dir = s.dir ∨
      s.matchesEntry f = true ∧ 0 < len ∧ f.size < f.position + len ∧
        (s.writeData k f len).1.dir = update s.dir f.entry_idx
          ((s.dir f.entry_idx).setSize (f.position + len))) := by
  unfold SFS.writeData
  dsimp only
  split_ifs with hover hgap hfill hio hgrown hmatch hio hgrown hmatch
  · exact ⟨rfl, .inl rfl⟩
  · exact ⟨rfl, .inl rfl⟩
  · exact ⟨rfl, .inl rfl⟩
  · have hlt : f.position < f.position + len := hgrown
    exact ⟨rfl, .inr ⟨hmatch, by omega, by omega, rfl⟩⟩
  · exact ⟨rfl, .inl rfl⟩
  · exact ⟨rfl, .inl rfl⟩
  · exact ⟨rfl, .inl rfl⟩
  · have hlt : f.size < f.position + len := hgrown
    exact ⟨rfl, .inr ⟨hmatch, by omega, hlt, rfl⟩⟩
  · exact ⟨rfl, .inl rfl⟩
  · exact ⟨rfl, .inl rfl⟩

theorem sfsWrite (hk : s.files[k]? = some f) :
    Sized s (.sfsWrite k len) (s.sfsWrite k f len).1 f.entry_idx := by
  -- `u` has the blocks
  have hdata : ∀ u : SFS, u.dir = s.dir → u.next_file = s.next_file →
      s.refusesLength f (f.position + len) = false →
      Sized s (.sfsWrite k len) (u.writeData k f len).1 f.entry_idx := by
    intro u hdir hn href
    obtain ⟨hn', hsame | ⟨hmatch, hpos, hlt, hset⟩⟩ := writeData u k f len
    · exact same (hsame.trans hdir) (hn'.trans hn)
    rw [hdir] at hset
    unfold SFS.matchesEntry at hmatch
    rw [hdir] at hmatch
    refine ⟨hn'.trans hn, .inr ⟨_, ?_, hset⟩⟩
    simp only [SFS.stored, hk]
    exact if_pos ⟨hmatch, hpos, hlt, href⟩
  unfold SFS.sfsWrite
  dsimp only
  split_ifs with hbig hmore href
  · exact same rfl rfl
  · exact same rfl rfl
  · refine hdata _ rfl rfl ?_
    rw [SFS.refusesLength, Bool.eq_false_of_not_eq_true href, Bool.and_false]
  · refine hdata s rfl rfl ?_
    rw [SFS.refusesLength, decide_eq_false hmore, Bool.false_and]

/-- What `truncateFd` writes into the directory. -/
theorem truncateFd (s : SFS) (k : Nat) (f : SfsFile) (length : Nat) :
    (s.truncateFd k f length).1.next_file = s.next_file ∧
    ((s.truncateFd k f length).1.dir = s.dir ∨
      length ≤ U32_MAX ∧ (f.size < length → s.refusesLength f length = false) ∧
        (s.truncateFd k f length).1.dir = update s.dir f.entry_idx
          ((s.dir f.entry_idx).setSize length)) := by
  have hfill : ∀ u : SFS, u.dir = s.dir → u.next_file = s.next_file → length ≤ U32_MAX →
      s.refusesLength f length = false → (u.fillTo k f length).next_file = s.next_file ∧
      ((u.fillTo k f length).dir = s.dir ∨ length ≤ U32_MAX ∧
        (f.size < length → s.refusesLength f length = false) ∧
        (u.fillTo k f length).dir = update s.dir f.entry_idx
          ((s.dir f.entry_idx).setSize length)) := by
    intro u hdir hn hle href
    unfold SFS.fillTo
    split_ifs
    · exact ⟨hn, .inl hdir⟩
    · refine ⟨hn, .inr ⟨hle, fun _ => href, ?_⟩⟩
      rw [← hdir]
      rfl
  unfold SFS.truncateFd
  split_ifs with hbig hgrow
  · exact ⟨rfl, .inl rfl⟩
  · have hle := not_lt.1 hbig
    unfold SFS.extend
    split_ifs with hround hmore href
    · exact ⟨rfl, .inl rfl⟩
    · exact ⟨rfl, .inl rfl⟩
    · refine hfill _ rfl rfl hle ?_
      rw [SFS.refusesLength, Bool.eq_false_of_not_eq_true href, Bool.and_false]
    · refine hfill s rfl rfl hle ?_
      rw [SFS.refusesLength, decide_eq_false hmore, Bool.false_and]
  have hle := not_lt.1 hbig
  have hshrunk : (s.shrink k f length).next_file = s.next_file ∧
      (s.shrink k f length).dir = update s.dir f.entry_idx
        ((s.dir f.entry_idx).setSize length) := by
    unfold SFS.shrink
    dsimp only
    split_ifs
    · obtain ⟨hd, hn⟩ := SFS.dir_freeBlocks _ _ _
      exact ⟨hn, hd⟩
    · obtain ⟨hd, hn⟩ := SFS.dir_freeBlocks _ _ _
      exact ⟨hn, hd⟩
    · exact ⟨rfl, rfl⟩
  exact ⟨hshrunk.1, .inr ⟨hle, fun hlt => absurd hlt hgrow, hshrunk.2⟩⟩

theorem sfsTruncate (hk : s.files[k]? = some f) :
    Sized s (.sfsTruncate k length) (s.truncateFd k f length).1 f.entry_idx := by
  obtain ⟨hn, hsame | ⟨hle, href, hset⟩⟩ := truncateFd s k f length
  · exact ⟨hn, .inl hsame⟩
  · refine ⟨hn, .inr ⟨length, ?_, hset⟩⟩
    simp only [SFS.stored, hk]
    exact if_pos ⟨hle, href⟩

theorem sysFallocate (hk : s.files[k]? = some f) {offset : Nat} :
    Sized s (.sysFallocate k offset len) (s.sysFallocate k f offset len).1 f.entry_idx := by
  unfold SFS.sysFallocate
  dsimp only
  split_ifs with hlt
  · obtain ⟨hn, hsame | ⟨hle, href, hset⟩⟩ := truncateFd s k f (offset + len)
    · exact ⟨hn, .inl hsame⟩
    · refine ⟨hn, .inr ⟨offset + len, ?_, hset⟩⟩
      simp only [SFS.stored, hk]
      exact if_pos ⟨hlt, hle, href⟩
  · exact same rfl rfl

end Sized

/-! ## 4. Entries -/

namespace Edit

/-- Moves that add nothing. -/
theorem calm (h : Moves False s t) : Edit s op t := .fades h.fades.1 h.fades.2

theorem addEntry (hadds : s.adds op = true) (ha : t.dir = s.dir)
    (hn : t.next_file = s.next_file) (hi : s.freeSlot = some i) (he : e.file = s.next_file) :
    Edit s op (t.addEntry i e) := by
  refine .adds i hadds hi (congrArg (· + 1) hn) ?_ fun j hj => ?_
  · change (update t.dir i e i).file = _
    rw [update_self, he]
  · change update t.dir i e j = _
    rw [update_of_ne hj, ha]

/-- A block is handed out and given back. -/
theorem takeBack (ha : t.dir = s.dir) (hn : t.next_file = s.next_file) (b : Nat) :
    Edit s op (t.freeBlock b) := by
  obtain ⟨hd, hn'⟩ := t.dir_freeBlock b
  exact .same (hd.trans ha) (hn'.trans hn)

theorem createEntry (name : Name) (heap : SFS.Heap)
    (hadds : s.file_count < MAX_FILES → s.adds op = true) :
    Edit s op (s.createEntry name heap).1 := by
  unfold SFS.createEntry
  cases hal : s.allocateBlock with
  | none => exact .same rfl rfl
  | some q =>
    obtain ⟨b, t⟩ := q
    obtain ⟨ha, hn⟩ := SFS.dir_allocateBlock hal
    have hcount : t.file_count = s.file_count := by
      rw [(SFS.allocateBlock_some hal).2.2]
      rfl
    dsimp only
    cases hs : t.freeSlot with
    | none => exact takeBack ha hn b
    | some i =>
      have hi : s.freeSlot = some i := (SFS.freeSlot_congr ha).symm.trans hs
      dsimp only
      split_ifs with hc
      · exact takeBack ha hn b
      all_goals
        have hadd : Edit s op (t.addEntry i (t.newEntry name b 0 .S_IFREG)) :=
          addEntry (hadds (hcount ▸ not_le.1 hc)) ha hn hi hn
      · exact hadd.congr rfl rfl
      · obtain ⟨hd, hn'⟩ := SFS.dir_freeBlock ((((t.addEntry i (t.newEntry name b 0
          .S_IFREG)).setPending i false {}).setCount i 1).setCount i 0) b
        exact hadd.congr hd hn'

theorem sfsOpen (s : SFS) (path : Name) (flags : Nat) (heap : SFS.Heap) :
    Edit s (.sfsOpen path flags heap) (s.sfsOpen path flags heap).1 := by
  unfold SFS.sfsOpen
  dsimp only
  cases hl : s.lookup (SFS.stripSlash path) with
  | some i =>
    have hopen : Edit s (.sfsOpen path flags heap) (s.openEntry i flags heap).1 :=
      (Sized.openEntry hl heap).edit
    split_ifs <;> first | exact .same rfl rfl | exact hopen
  | none =>
    split_ifs with hroot _ hvalid hlen hcreat
    · exact .same rfl rfl
    · exact .same rfl rfl
    · exact .same rfl rfl
    · exact .same rfl rfl
    · refine createEntry _ heap fun hc => ?_
      have hnew := SFS.isNew_of hvalid hlen hl
      simp [SFS.adds, hc, hroot, hnew, hcreat]
    · exact .same rfl rfl

theorem sfsMkdir (s : SFS) (path : Name) : Edit s (.sfsMkdir path) (s.sfsMkdir path).1 := by
  unfold SFS.sfsMkdir
  dsimp only
  cases hl : s.lookup (SFS.stripSlash path) with
  | some i => split_ifs <;> exact .same rfl rfl
  | none =>
    cases hs : s.freeSlot with
    | none => split_ifs <;> exact .same rfl rfl
    | some i =>
      dsimp only
      split_ifs with hvalid hname hc
      · exact .same rfl rfl
      · exact .same rfl rfl
      · exact .same rfl rfl
      · have hnew := SFS.isNew_of hvalid (fun hlen => hname (.inl hlen)) hl
        exact addEntry (by simp [SFS.adds, not_le.1 hc, hnew]) rfl rfl hs rfl

theorem sfsLink (s : SFS) (old_path new_path : Name) :
    Edit s (.sfsLink old_path new_path) (s.sfsLink old_path new_path).1 := by
  unfold SFS.sfsLink
  dsimp only
  cases hnames : SFS.checkNames (SFS.stripSlash old_path) (SFS.stripSlash new_path) with
  | some err => exact .same rfl rfl
  | none =>
    dsimp only
    split
    · exact .same rfl rfl
    · exact .same rfl rfl
    · exact .same rfl rfl
    rename_i old i hnew hold hslot
    split_ifs with hreg hc
    · exact .same rfl rfl
    · exact .same rfl rfl
    have hreg : (s.dir old).isRegularFile = true := by simpa using hreg
    have hadds : s.adds (.sfsLink old_path new_path) = true := by
      simp [SFS.adds, not_le.1 hc, SFS.isNew_of_checkNames hnames hnew, hold, hreg]
    set n := (s.dir old).effective_nlink + 1
    set e := ((s.dir old).setName (SFS.stripSlash new_path)).setNlink n
    refine .links i old hadds hslot hold (SFS.flags_of_lookupLast hold) rfl ?_ fun k hk => ?_
    · have hsync := Fades.syncLinks (s.setEntry i e) (s.dir old).start_block n i
      have hlike := SFS.like_syncLinks (s.setEntry i e) (s.dir old).start_block n i
      rw [SFS.dir_setEntry_self] at hsync hlike
      have hactive : (((s.setEntry i e).syncLinks (s.dir old).start_block n).dir i).flags =
          true := by
        rw [hlike.flags]
        exact SFS.flags_of_lookupLast hold
      obtain ⟨hstart, hsize, hmode, hfile⟩ := (hsync.active hactive).2
      exact ⟨hstart, hsize, hmode, hfile⟩
    · have hsync := Fades.syncLinks (s.setEntry i e) (s.dir old).start_block n k
      rw [SFS.dir_setEntry_ne _ _ hk] at hsync
      exact hsync

theorem sfsSymlink (s : SFS) (target linkpath : Name) :
    Edit s (.sfsSymlink target linkpath) (s.sfsSymlink target linkpath).1 := by
  unfold SFS.sfsSymlink
  dsimp only
  split_ifs with hvalid hlen
  · exact .same rfl rfl
  · exact .same rfl rfl
  · exact .same rfl rfl
  · exact .same rfl rfl
  cases hal : s.allocateBlock with
  | none => exact .same rfl rfl
  | some q =>
    obtain ⟨b, t⟩ := q
    obtain ⟨ha, hn⟩ := SFS.dir_allocateBlock hal
    have ht := (SFS.allocateBlock_some hal).2.2
    dsimp only
    split
    · exact takeBack ha hn b
    · exact takeBack ha hn b
    rename_i i hl hs
    have hl : s.lookup (SFS.stripSlash linkpath) = none := by rw [ht] at hl; exact hl
    have hnew := SFS.isNew_of hvalid hlen hl
    split_ifs with hc
    · exact takeBack ha hn b
    have hcount : s.file_count < MAX_FILES := by rw [ht] at hc; exact not_le.1 hc
    have hadds : s.adds (.sfsSymlink target linkpath) = true := by
      simp [SFS.adds, hcount, hnew]
    exact addEntry hadds ha hn ((SFS.freeSlot_congr ha).symm.trans hs) hn

/-- A call on a descriptor. -/
theorem onFile (s : SFS) (k : Nat) {call : SfsFile → SFS}
    (hcall : ∀ f, s.files[k]? = some f → Edit s op (call f)) : Edit s op (s.onFile k call) := by
  unfold SFS.onFile
  cases hk : s.files[k]? with
  | none => exact .same rfl rfl
  | some f => exact hcall f hk

end Edit

/-- **An operation does one of the four things to the directory.** -/
theorem edit (s : SFS) (op : Op) : Edit s op (s.step op) := by
  unfold SFS.step
  split_ifs
  · exact .same rfl rfl
  have hb : Edit s.begin op (s.begin.perform op) := by
    cases op with
    | sfsOpen path flags heap => exact .sfsOpen _ path flags heap
    | sfsClose k => exact .calm (.onFile _ k fun f _ => .sfsClose _ k f)
    | sfsRead k len => exact .calm (.onFile _ k fun f hk => .sfsRead hk len)
    | sfsSeek k offset whence => exact .calm (.onFile _ k fun f hk => .sfsSeek hk offset whence)
    | sfsWrite k len => exact .onFile _ k fun f hk => (Sized.sfsWrite hk).edit
    | sfsTruncate k length => exact .onFile _ k fun f hk => (Sized.sfsTruncate hk).edit
    | sysFallocate k offset len => exact .onFile _ k fun f hk => (Sized.sysFallocate hk).edit
    | sfsUnlink path => exact .calm (.sfsUnlink _ path)
    | sfsMkdir path => exact .sfsMkdir _ path
    | sfsRmdir path => exact .calm (.sfsRmdir _ path)
    | sfsLink old_path new_path => exact .sfsLink _ old_path new_path
    | sfsSymlink target linkpath => exact .sfsSymlink _ target linkpath
    | sfsRename old_path new_path => exact .calm (.sfsRename _ old_path new_path)
    | sfsRename2 old_path new_path flags => exact .calm (.sfsRename2 _ old_path new_path flags)
  cases hb with
  | stores i n h hn hdir => exact .stores i n h hn hdir
  | adds i ha hi hn hfile hrest => exact .adds i ha hi hn hfile hrest
  | links i j ha hi hj hfl hn hself hrest => exact .links i j ha hi hj hfl hn hself hrest
  | fades hn h => exact .fades hn h

end Zigk.Sfs
