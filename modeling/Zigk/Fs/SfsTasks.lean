/-
  Subject:   SFS (fs/sfs/ops.zig): calls on the directory, interleaved at sector I/O and the lock.

  * `Record`, `Dir`, `sectorOf` -- the 64 entries on the disk, four to a sector;
  * `Copy`, `Todo`, `TaskState` -- a call reads the directory sector by sector without the lock,
    takes private copies of the sectors it changes under the lock, and writes them back after it;
  * `Call`, `afterScan`, `lockSection` -- each call's checks and changes;
  * `Vol.step` -- one sector read or written, or one lock section, of any task.

  The device never fails and there is memory for every call. Names are those after the checks on
  paths. `expected` is the directory with the changes of every call in it, and no call reads it.
  Left out: data blocks, descriptors but for their counts, the superblock's other fields.
-/
import Zigk.Fs.SfsEdits

namespace Zigk.Sfs

open Function

/-! ## 1. The directory -/

structure Record extends DirEntry where
  attrs : Attrs := { perm := 0 }

abbrev Dir := Slot → Record

/-- The sector of an entry, counted from `root_dir_start`. -/
def sectorOf (i : Slot) : Nat := i.val / 4

namespace Record

def named (r : Record) (name : Name) : Bool := r.flags && r.name = name

def rename (r : Record) (name : Name) : Record := { r with name := name }
def resize (r : Record) (size : Nat) : Record := { r with size := size }
def relink (r : Record) (nlink : Nat) : Record := { r with nlink := nlink }
def setAttrs (r : Record) (change : Attrs → Attrs) : Record := { r with attrs := change r.attrs }

/-- `flags` and the name are cleared, and the extent unless the file is open. -/
def remove (r : Record) (is_open : Bool) : Record :=
  { r with
    flags := false
    name := []
    start_block := if is_open then r.start_block else 0
    size := if is_open then r.size else 0 }

end Record

namespace Dir

variable (d : Dir)

def find (name : Name) : Option Slot := (List.finRange MAX_FILES).find? fun i => (d i).named name

def findLast (name : Name) : Option Slot :=
  (List.finRange MAX_FILES).reverse.find? fun i => (d i).named name

def freeSlot : Option Slot := (List.finRange MAX_FILES).find? fun i => !(d i).flags

/-- What a scan has after sector `next`. -/
def readSector (seen : Dir) (next : Nat) : Dir := fun i => if sectorOf i = next then d i else seen i

/-- The links of the active entries that start at a block. -/
def linked (start_block : Nat) (i : Slot) : Bool :=
  (d i).flags && (d i).start_block = start_block

def syncLinks (start_block nlink : Nat) : Dir :=
  fun i => if d.linked start_block i then (d i).relink nlink else d i

/-- The changes of a call put into a directory. -/
def merge (own : Slot → Bool) (image : Dir) : Dir := fun i => if own i then image i else d i

end Dir

/-- A private copy of a sector with the entries that its call changed. Only entries of the sector
    count. -/
structure Copy where
  sector : Nat
  own : Slot → Bool
  image : Dir

def Copy.writeTo (c : Copy) (d : Dir) : Dir := d.merge (fun i => sectorOf i = c.sector) c.image

/-! ## 2. Calls -/

inductive Call where
  /-- An open with `O_CREAT`; the block it allocated. Nothing looks at `excl`, its `O_EXCL`. -/
  | sfsOpen (name : Name) (excl : Bool) (start_block : Nat)
  /-- An open with `O_TRUNC` for writing. -/
  | sfsOpenTrunc (name : Name)
  | sfsMkdir (name : Name) (mode : Nat)
  | sfsSymlink (linkname : Name) (start_block target_len : Nat)
  | sfsLink (old_name new_name : Name)
  | sfsRmdir (name : Name)
  | sfsUnlink (name : Name)
  | sfsChmod (name : Name) (mode : Nat)
  | sfsChown (name : Name) (uid gid : Option Nat)
  | sfsSetTimestamps (name : Name) (atime_sec mtime_sec : Int)
  /-- `sfsRename`, also as the end of `sfsRename2` with `RENAME_NOREPLACE`. -/
  | sfsRename (old_name new_name : Name) (noreplace : Bool)
  /-- `sfsRename2` with `RENAME_EXCHANGE`. -/
  | exchange (old_name new_name : Name)
  /-- The size update of a write that ended past the size of the descriptor. -/
  | sfsWrite (entry_idx : Slot) (start_block size : Nat)
  | truncateFd (entry_idx : Slot) (size : Nat)
  | sfsFdChown (entry_idx : Slot) (uid gid : Option Nat)

/-- What a call does after its lock section: it writes a copy back, or brings the links of a sector
    up to date (`sfsLink`). -/
inductive Todo where
  | write (c : Copy)
  | sync (sector start_block nlink : Nat)

def Todo.sector : Todo → Nat
  | .write c => c.sector
  | .sync σ _ _ => σ

inductive TaskState where
  /-- The directory is read, `next` first; `again` where it is read for the second time. -/
  | scan (again : Bool) (next : Nat) (seen : Dir)
  | locked (seen : Dir)
  | writes (todo : List Todo)
  | done (result : Except VfsError Unit)

namespace TaskState

def fail (err : VfsError) : TaskState := .done (.error err)
def finish : TaskState := .done (.ok ())

end TaskState

structure Task where
  call : Call
  state : TaskState

def emptyDir : Dir := fun _ => {}

/-- A call on a name scans the directory, one on a descriptor knows its slot. Two equal names end
    a rename. -/
def Call.begin : Call → TaskState
  | .sfsWrite .. | .truncateFd .. | .sfsFdChown .. => .locked emptyDir
  | .sfsRename old_name new_name _ | .exchange old_name new_name =>
    if old_name = new_name then .finish else .scan false 0 emptyDir
  | _ => .scan false 0 emptyDir

/-- What a call makes of a scan: `sfsOpen` and `RENAME_NOREPLACE` look for the name, and then scan
    once more. -/
def Call.afterScan (call : Call) (again : Bool) (seen : Dir) : TaskState :=
  match call, again with
  | .sfsOpen name _ _, false =>
    if (seen.find name).isSome then .finish else .scan true 0 emptyDir
  | .sfsRename old_name new_name true, false =>
    if (seen.findLast old_name).isNone then .fail .NotFound
    else if (seen.findLast new_name).isSome then .fail .AlreadyExists
    else .scan true 0 emptyDir
  | _, _ => .locked seen

structure Vol where
  disk : Dir
  expected : Dir
  file_count : Nat
  open_counts : Slot → Nat
  tasks : List Task

namespace Vol

variable (s : Vol)

def setTask (t : Nat) (call : Call) (state : TaskState) : Vol :=
  { s with tasks := s.tasks.set t ⟨call, state⟩ }
def setFileCount (n : Nat) : Vol := { s with file_count := n }
def setOpen (i : Slot) (n : Nat) : Vol :=
  { s with open_counts := update s.open_counts i n }

/-- Entries are written, and nothing else of their sectors changes. -/
def commit (own : Slot → Bool) (image : Dir) : Vol :=
  { s with disk := s.disk.merge own image, expected := s.expected.merge own image }

/-- A copy is written back: the whole sector on the disk, the own entries in `expected`. -/
def writeBack (c : Copy) : Vol :=
  { s with disk := c.writeTo s.disk, expected := s.expected.merge c.own c.image }

/-! ## 3. Lock sections -/

/-- A copy of the sector of an entry, which gets another value. -/
def edit (i : Slot) (r : Record) : TaskState :=
  .writes [.write ⟨sectorOf i, fun j => j = i, update s.disk i r⟩]

/-- The entry in slot `i` is active and has the name. -/
def holdsName (i : Slot) (name : Name) : Bool := (s.disk i).named name

/-- `sfsChmod`, `sfsChown`, `sfsSetTimestamps`: the entry is looked at again. -/
def setattr (seen : Dir) (name : Name) (change : Attrs → Attrs) : TaskState :=
  match seen.find name with
  | none => .fail .NotFound
  | some i =>
    if s.holdsName i name then s.edit i ((s.disk i).setAttrs change) else .fail .NotFound

def openTrunc (seen : Dir) (name : Name) : TaskState :=
  match seen.find name with
  | none => .fail .NotFound
  | some i =>
    if (seen i).isDirectory then .finish
    else if (seen i).start_block < DATA_START_BLOCK ∨ TOTAL_BLOCKS ≤ (seen i).start_block ∨
        (TOTAL_BLOCKS - (seen i).start_block) * 512 < (seen i).size then .fail .IOError
    else if !(s.disk i).flags || (s.disk i).start_block ≠ (seen i).start_block then
      .fail .NotFound
    else s.edit i ((s.disk i).resize 0)

def newRecord (name : Name) (start_block size : Nat) (mode : FileType) (perm : Nat) : Record where
  name := name
  start_block := start_block
  size := size
  flags := true
  mode := mode
  nlink := 1
  attrs := { perm := perm }

/-- A new entry: the slot is looked at again, and by `sfsMkdir` the names in its sector. The one of
    `sfsOpen` counts as open. -/
def addEntry (seen : Dir) (r : Record) (recheck opened : Bool) : Vol × TaskState :=
  match seen.freeSlot with
  | none => (s, .fail .NoMemory)
  | some i =>
    if MAX_FILES ≤ s.file_count then (s, .fail .NoMemory)
    else if (s.disk i).flags then (s, .fail .NoMemory)
    else if recheck && (List.finRange MAX_FILES).any fun j =>
        sectorOf j = sectorOf i && s.holdsName j r.name then (s, .fail .AlreadyExists)
    else
      let s' := s.setFileCount (s.file_count + 1)
      (if opened then s'.setOpen i 1 else s', s.edit i r)

def createEntry (seen : Dir) (name : Name) (start_block : Nat) : Vol × TaskState :=
  s.addEntry seen (newRecord name start_block 0 .S_IFREG 0o644) false true

def mkdir (seen : Dir) (name : Name) (mode : Nat) : Vol × TaskState :=
  if (seen.find name).isSome then (s, .fail .AlreadyExists)
  else s.addEntry seen (newRecord name 0 0 .S_IFDIR (mode % 0o10000)) true false

def symlink (seen : Dir) (linkname : Name) (start_block target_len : Nat) : Vol × TaskState :=
  if (seen.find linkname).isSome then (s, .fail .AlreadyExists)
  else s.addEntry seen (newRecord linkname start_block target_len .S_IFLNK 0o777) false false

/-- The sectors that `sfsLink` brings up to date after its own two. -/
def otherSectors (σ τ : Nat) : List Nat := (List.range ROOT_DIR_BLOCKS).filter fun ρ =>
  ρ ≠ σ ∧ ρ ≠ τ

/-- The copies of the sectors of two entries, written in this order. -/
def editTwo (i j : Slot) (own : Slot → Bool) (image : Dir) (more : List Todo) : TaskState :=
  let first : Todo := .write ⟨sectorOf i, fun k => own k && sectorOf k = sectorOf i, image⟩
  let second : Todo := .write ⟨sectorOf j, fun k => own k && sectorOf k = sectorOf j, image⟩
  .writes (if sectorOf i = sectorOf j then first :: more else first :: second :: more)

def link (seen : Dir) (old_name new_name : Name) : Vol × TaskState :=
  match seen.find new_name, seen.findLast old_name, seen.freeSlot with
  | some _, _, _ => (s, .fail .AlreadyExists)
  | none, none, _ => (s, .fail .NotFound)
  | none, some _, none => (s, .fail .NoMemory)
  | none, some old, some i =>
    if !(seen old).isRegularFile then (s, .fail .AccessDenied)
    else if MAX_FILES ≤ s.file_count then (s, .fail .NoMemory)
    else if !s.holdsName old old_name then (s, .fail .NotFound)
    else if (s.disk i).flags then (s, .fail .AlreadyExists)
    else
      let b := (s.disk old).start_block
      let nlink := (s.disk old).effective_nlink + 1
      let added : Dir := update s.disk i (((s.disk old).rename new_name).relink nlink)
      let rest := (otherSectors (sectorOf old) (sectorOf i)).map fun ρ =>
        Todo.sync ρ (seen old).start_block ((seen old).effective_nlink + 1)
      (s.setFileCount (s.file_count + 1),
        editTwo old i (fun k => k = i || s.disk.linked b k) (added.syncLinks b nlink) rest)

def rmdir (seen : Dir) (name : Name) : Vol × TaskState :=
  match seen.find name with
  | none => (s, .fail .NotFound)
  | some i =>
    if !s.holdsName i name then (s, .fail .NotFound)
    else if !(s.disk i).isDirectory then (s, .fail .NotDirectory)
    else if 0 < s.open_counts i then (s, .fail .Busy)
    else (s.setFileCount (s.file_count - 1),
      s.edit i { (s.disk i).remove false with mode := .none })

/-- The sectors are written under the lock. -/
def unlink (seen : Dir) (name : Name) : Vol × TaskState :=
  match seen.find name with
  | none => (s, .fail .NotFound)
  | some i =>
    if !s.holdsName i name then (s, .fail .NotFound)
    else
      let e := s.disk i
      let removed : Bool → Dir := fun is_open => update s.disk i (e.remove is_open)
      let s' := s.setFileCount (s.file_count - 1)
      if 1 < e.effective_nlink ∧ ¬ 0 < s.open_counts i then
        (s'.commit (fun k => k = i || s.disk.linked e.start_block k)
          ((removed true).syncLinks e.start_block (e.effective_nlink - 1)), .finish)
      else (s'.commit (fun k => k = i) (removed (0 < s.open_counts i)), .finish)

/-- The entry `old` gets the name, and the entry that had it at the scan goes, whatever its name is
    now. -/
def rename (seen : Dir) (old_name new_name : Name) : Vol × TaskState :=
  match seen.findLast old_name, seen.findLast new_name with
  | none, _ => (s, .fail .NotFound)
  | some old, target =>
    if !s.holdsName old old_name then (s, .fail .NotFound)
    else match target with
      | none => (s, s.edit old ((s.disk old).rename new_name))
      | some j =>
        if (s.disk j).flags then
          if (s.disk j).isDirectory then (s, .fail .IsDirectory)
          else
            let removed : Dir := update s.disk j ((s.disk j).remove (0 < s.open_counts j))
            let image : Dir := update removed old ((s.disk old).rename new_name)
            (s.setFileCount (s.file_count - 1),
              editTwo old j (fun k => k = old || k = j) image [])
        else
          let image : Dir := update s.disk old ((s.disk old).rename new_name)
          (s, editTwo old j (fun k => k = old) image [])

def exchange (seen : Dir) (old_name new_name : Name) : TaskState :=
  match seen.findLast old_name, seen.findLast new_name with
  | none, _ => .fail .NotFound
  | some _, none => .fail .NotFound
  | some old, some j =>
    if s.holdsName old old_name && s.holdsName j new_name then
      let image : Dir := update (update s.disk old ((s.disk old).rename new_name)) j
        ((s.disk j).rename old_name)
      editTwo old j (fun k => k = old || k = j) image []
    else .fail .NotFound

def lockSection (call : Call) (seen : Dir) : Vol × TaskState :=
  match call with
  | .sfsOpen name _ start_block => s.createEntry seen name start_block
  | .sfsOpenTrunc name => (s, s.openTrunc seen name)
  | .sfsMkdir name mode => s.mkdir seen name mode
  | .sfsSymlink linkname start_block target_len => s.symlink seen linkname start_block target_len
  | .sfsLink old_name new_name => s.link seen old_name new_name
  | .sfsRmdir name => s.rmdir seen name
  | .sfsUnlink name => s.unlink seen name
  | .sfsChmod name mode => (s, s.setattr seen name (·.chmod mode))
  | .sfsChown name uid gid => (s, s.setattr seen name (·.chown uid gid))
  | .sfsSetTimestamps name atime_sec mtime_sec =>
    (s, s.setattr seen name (·.setTimestamps atime_sec mtime_sec))
  | .sfsRename old_name new_name _ => s.rename seen old_name new_name
  | .exchange old_name new_name => (s, s.exchange seen old_name new_name)
  | .sfsWrite i start_block size =>
    if (s.disk i).flags && (s.disk i).start_block = start_block then
      (s, s.edit i ((s.disk i).resize size))
    else (s, .finish)
  | .truncateFd i size =>
    (s.commit (fun k => k = i) (update s.disk i ((s.disk i).resize size)), .finish)
  -- the sector is read and written without the lock
  | .sfsFdChown i uid gid => (s, s.edit i ((s.disk i).setAttrs (·.chown uid gid)))

/-! ## 4. Steps -/

/-- A sector is brought up to date: it is read now, and written by the next step if it changed. -/
def syncSector (σ start_block nlink : Nat) (todo : List Todo) : TaskState :=
  if (List.finRange MAX_FILES).any fun i => sectorOf i = σ && s.disk.linked start_block i then
    .writes (.write ⟨σ, fun i => sectorOf i = σ && s.disk.linked start_block i,
      s.disk.syncLinks start_block nlink⟩ :: todo)
  else .writes todo

def runTask (t : Nat) (task : Task) : Vol :=
  match task.state with
  | .scan again next seen =>
    let seen := s.disk.readSector seen next
    s.setTask t task.call
      (if next + 1 < ROOT_DIR_BLOCKS then .scan again (next + 1) seen
        else task.call.afterScan again seen)
  | .locked seen =>
    ((s.lockSection task.call seen).1).setTask t task.call (s.lockSection task.call seen).2
  | .writes [] => s.setTask t task.call .finish
  | .writes (.write c :: todo) => (s.writeBack c).setTask t task.call (.writes todo)
  | .writes (.sync σ start_block nlink :: todo) =>
    s.setTask t task.call (s.syncSector σ start_block nlink todo)
  | .done _ => s

end Vol

inductive Input where
  | begin (call : Call)
  | run (t : Nat)
  /-- Other calls open and close files. -/
  | setOpen (i : Slot) (n : Nat)

def Vol.step (s : Vol) : Input → Vol
  | .begin call => { s with tasks := s.tasks ++ [⟨call, call.begin⟩] }
  | .run t =>
    match s.tasks[t]? with
    | none => s
    | some task => s.runTask t task
  | .setOpen i n => s.setOpen i n

/-- A directory without two active entries of one name, and no calls. -/
def sfsTasks : Machine Vol Input where
  start s := s.expected = s.disk ∧ s.tasks = [] ∧
    ∀ i j, (s.disk i).flags = true → (s.disk j).flags = true →
      (s.disk i).name = (s.disk j).name → i = j
  step := Vol.step

/-- The copies that a call is still to write back. -/
def TaskState.copies : TaskState → List Copy
  | .writes todo => todo.filterMap fun
    | .write c => some c
    | .sync .. => none
  | _ => []

end Zigk.Sfs
