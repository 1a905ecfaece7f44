/-
  Subject:   SFS (fs/sfs/alloc.zig, ops.zig): the blocks of a volume and who gets them.

  * `DirEntry`, `SfsFile`, `SFS` -- the directory, the open files, the superblock's counters, the
    bitmap;
  * `allocateBlock`, `freeBlock` -- the allocator over the bitmap; `growBlocks` -- the one over
    `next_free_block`, which does not look at the bitmap;
  * `sfsOpen` ... `sfsRename2` -- the operations; `Op`, `step` -- one after the other.

  Every operation runs from its first to its last lock section, and the device never fails. A call
  that finds no memory before it changed anything is no step. `lost` is set where the kernel stops
  on an index past the bitmap cache, or where data of a directory's descriptor go over the
  volume's own sectors: nothing is said about the volume from there on.
  Left out: the data, permissions and owners, times, the legacy read-only format, `unmount`.
-/
import Mathlib.Algebra.Ring.Nat
import Mathlib.Data.List.FinRange

namespace Zigk.Sfs

open Function

/-! ## 1. The volume -/

def SECTOR_SIZE : Nat := 512
def MAX_FILES : Nat := 64
def ROOT_DIR_BLOCKS : Nat := (MAX_FILES * 128 + SECTOR_SIZE - 1) / SECTOR_SIZE
def BITMAP_BLOCKS : Nat := 4
def DATA_START_BLOCK : Nat := 1 + BITMAP_BLOCKS + ROOT_DIR_BLOCKS

/-- `total_blocks` of `format`. -/
def TOTAL_BLOCKS : Nat := 32768

/-- The bits of the bitmap: one for each of the first blocks, not for each block. -/
def BITMAP_BITS : Nat := BITMAP_BLOCKS * SECTOR_SIZE * 8

def U32_MAX : Nat := 2 ^ 32 - 1

abbrev Slot := Fin MAX_FILES

instance : NeZero MAX_FILES := ⟨nofun⟩

abbrev Name := List (BitVec 8)

/-- The type bits of a `mode`. -/
inductive FileType where
  | none | S_IFREG | S_IFDIR | S_IFLNK
  deriving DecidableEq, Repr

structure DirEntry where
  name : Name := []
  start_block : Nat := 0
  size : Nat := 0
  /-- `flags == 1`: active. -/
  flags : Bool := false
  mode : FileType := .none
  nlink : Nat := 0
  /-- The number of the file, given at its creation. The volume has no inodes and does not store
      it: it tells entries that are linked together from others. -/
  file : Nat := 0

namespace DirEntry

def isRegularFile (e : DirEntry) : Bool := e.mode = .S_IFREG
def isDirectory (e : DirEntry) : Bool := e.mode = .S_IFDIR

/-- Links of an entry, of which 0 stands for one. -/
def effective_nlink (e : DirEntry) : Nat := if e.nlink = 0 then 1 else e.nlink

def setSize (e : DirEntry) (size : Nat) : DirEntry := { e with size := size }
def setName (e : DirEntry) (name : Name) : DirEntry := { e with name := name }
def setNlink (e : DirEntry) (nlink : Nat) : DirEntry := { e with nlink := nlink }
def clear (e : DirEntry) : DirEntry := { e with flags := false, name := [] }

end DirEntry

structure DeferredDeleteInfo where
  start_block : Nat := 0
  block_count : Nat := 0

/-- An open file, with the position of its descriptor. -/
structure SfsFile where
  start_block : Nat
  size : Nat
  entry_idx : Slot
  mode : FileType
  position : Nat := 0
  /-- Opened as the root directory, which has no entry. -/
  root : Bool := false
  file : Nat := 0

def SfsFile.setSize (f : SfsFile) (size : Nat) : SfsFile := { f with size := size }
def SfsFile.seekTo (f : SfsFile) (position : Nat) : SfsFile := { f with position := position }

/-- A directory has no blocks: data of its descriptor past the first sector go over the bitmap and
    the directory. -/
def SfsFile.overwrites (f : SfsFile) (last : Nat) : Bool := f.start_block = 0 && 512 < last

structure SFS where
  free_blocks : Nat
  next_free_block : Nat
  file_count : Nat
  /-- The bit of block `DATA_START_BLOCK + r`. -/
  bitmap : Nat → Bool
  dir : Slot → DirEntry
  open_counts : Slot → Nat
  pending_delete : Slot → Bool
  deferred_info : Slot → DeferredDeleteInfo
  files : List SfsFile
  next_file : Nat
  /-- The blocks that an allocator handed out in the current operation. -/
  handed : List Nat
  lost : Bool

inductive VfsError where
  | NotFound | AccessDenied | NameTooLong | IOError | NoMemory | InvalidPath | AlreadyExists
  | NotSupported | NotDirectory | IsDirectory | Busy | TooLarge
  /-- The error numbers of `write` and `seek`. -/
  | ENOSPC | EFBIG | EINVAL
  deriving DecidableEq, Repr

abbrev Outcome (α : Type) := SFS × Except VfsError α

/-- `format`. -/
def format : SFS where
  free_blocks := TOTAL_BLOCKS - DATA_START_BLOCK
  next_free_block := DATA_START_BLOCK
  file_count := 0
  bitmap _ := false
  dir _ := {}
  open_counts _ := 0
  pending_delete _ := false
  deferred_info _ := {}
  files := []
  next_file := 0
  handed := []
  lost := false

/-- The blocks of a file of a size: an empty one has a block too. -/
def blocks (size : Nat) : Nat := if size = 0 then 1 else (size + 511) / 512

namespace SFS

variable (s : SFS)

def setEntry (i : Slot) (e : DirEntry) : SFS := { s with dir := update s.dir i e }
def setDir (d : Slot → DirEntry) : SFS := { s with dir := d }
def setFile (k : Nat) (f : SfsFile) : SFS := { s with files := s.files.set k f }
def setCount (i : Slot) (n : Nat) : SFS :=
  { s with open_counts := update s.open_counts i n }
def setPending (i : Slot) (pending : Bool) (info : DeferredDeleteInfo) : SFS :=
  { s with
    pending_delete := update s.pending_delete i pending
    deferred_info := update s.deferred_info i info }
def setFileCount (n : Nat) : SFS := { s with file_count := n }
def setNextFree (n : Nat) : SFS := { s with next_free_block := n }
def setBits (bitmap : Nat → Bool) (free : Nat) : SFS :=
  { s with bitmap := bitmap, free_blocks := free }
def lose : SFS := { s with lost := true }

/-! ## 2. The allocators -/

/-- The first clear bit from bit `r` on, among `n`. -/
def scan (bitmap : Nat → Bool) : Nat → Nat → Option Nat
  | 0, _ => none
  | n + 1, r => if bitmap r then scan bitmap n (r + 1) else some r

def allocateBlock : Option (Nat × SFS) :=
  match scan s.bitmap BITMAP_BITS 0 with
  | none => none
  | some r =>
    if TOTAL_BLOCKS ≤ DATA_START_BLOCK + r then none
    else some (DATA_START_BLOCK + r,
      { s.setBits (update s.bitmap r true) (s.free_blocks - 1) with
        handed := [DATA_START_BLOCK + r] })

/-- A block before the data is an error that every caller ignores. The bit of a block past the
    bitmap would be in a sector of the directory, and its byte past the cache. -/
def freeBlock (block_num : Nat) : SFS :=
  if block_num < DATA_START_BLOCK then s
  else if BITMAP_BITS ≤ block_num - DATA_START_BLOCK then s.lose
  else s.setBits (update s.bitmap (block_num - DATA_START_BLOCK) false)
    (min (s.free_blocks + 1) U32_MAX)

def freeBlocks (start_block : Nat) : Nat → SFS
  | 0 => s
  | count + 1 => (freeBlocks start_block count).freeBlock (start_block + count)

/-- The checks of `sfsWrite` and `truncateFd` before a file grows to `requested` blocks: it must
    end at `next_free_block`, unless it is empty, and there must be room. -/
def refusesGrowth (f : SfsFile) (requested : Nat) : Bool :=
  (f.start_block + blocks f.size ≠ s.next_free_block && f.size ≠ 0) ||
    s.free_blocks < requested - blocks f.size ||
    TOTAL_BLOCKS < s.next_free_block + (requested - blocks f.size)

/-- The growth: the new blocks come from `next_free_block`, and no bit is set. -/
def growBlocks (f : SfsFile) (requested : Nat) : SFS :=
  let added := requested - blocks f.size
  { s with
    next_free_block := s.next_free_block + added
    free_blocks := s.free_blocks - added
    handed := (List.range added).map (s.next_free_block + ·) }

/-! ## 3. Names and slots -/

/-- ".." occurs in the name. -/
def hasDots : Name → Bool
  | a :: b :: l => (a = 0x2E#8 && b = 0x2E#8) || hasDots (b :: l)
  | _ => false

def isValidFilename (name : Name) : Bool :=
  !name.isEmpty && !hasDots name && !name.contains 0x2F#8 && !name.contains 0x5C#8 &&
    name.all fun c => 0x20 ≤ c.toNat && c.toNat ≠ 0x7F

/-- A path without its leading slash. -/
def stripSlash (path : Name) : Name := if path.head? = some 0x2F#8 then path.tail else path

def isRoot (name : Name) : Bool := name = [] || name = [0x2E#8]

def hasName (name : Name) (i : Slot) : Bool := (s.dir i).flags && (s.dir i).name = name

/-- The first and the last active entry of a name: loops that stop there, and loops that go on. -/
def lookup (name : Name) : Option Slot := (List.finRange MAX_FILES).find? (s.hasName name)
def lookupLast (name : Name) : Option Slot :=
  (List.finRange MAX_FILES).reverse.find? (s.hasName name)

def freeSlot : Option Slot := (List.finRange MAX_FILES).find? fun i => !(s.dir i).flags

/-! ## 4. Open files -/

/-- What the heap gives during an `open`: the file's context and its descriptor. -/
structure Heap where
  file_ctx : Bool
  file_fd : Bool

def install (f : SfsFile) : SFS := { s with files := s.files ++ [f] }

/-- The descriptor of the root directory: its `entry_idx` is that of the first slot, whose
    `open_counts` stays as it is. -/
def rootFile : SfsFile where
  start_block := 0
  size := 0
  entry_idx := 0
  mode := .S_IFDIR
  root := true

def fileOf (i : Slot) (position : Nat) : SfsFile where
  start_block := (s.dir i).start_block
  size := (s.dir i).size
  entry_idx := i
  mode := (s.dir i).mode
  position := position
  file := (s.dir i).file

def O_CREAT : Nat := 0o100
def O_TRUNC : Nat := 0o1000
def O_APPEND : Nat := 0o2000
def O_ACCMODE : Nat := 0o3

/-- `O_TRUNC` of a file opened for writing: the entry's size is 0, and its blocks stay. -/
def truncEntry (i : Slot) (flags : Nat) : SFS :=
  if flags &&& O_TRUNC ≠ 0 ∧ ¬ (s.dir i).isDirectory = true ∧
      (flags &&& O_ACCMODE = 1 ∨ flags &&& O_ACCMODE = 2) then
    s.setEntry i ((s.dir i).setSize 0)
  else s

/-- `sfsOpen` of a name with an entry. -/
def openEntry (i : Slot) (flags : Nat) (heap : Heap) : Outcome Unit :=
  let e := s.dir i
  if ¬ e.isDirectory = true ∧
      (e.start_block < DATA_START_BLOCK ∨ TOTAL_BLOCKS ≤ e.start_block) then (s, .error .IOError)
  else if ¬ e.isDirectory = true ∧ (TOTAL_BLOCKS - e.start_block) * 512 < e.size then
    (s, .error .IOError)
  else
    let s := s.truncEntry i flags
    if !heap.file_ctx then (s, .error .NoMemory)
    else if s.pending_delete i then (s, .error .NotFound)
    else if s.open_counts i = U32_MAX then (s, .error .NoMemory)
    else if !heap.file_fd then (s, .error .NoMemory)
    else
      let position := if flags &&& O_APPEND ≠ 0 ∧ ¬ e.isDirectory = true then (s.dir i).size else 0
      ((s.setCount i (s.open_counts i + 1)).install (s.fileOf i position), .ok ())

/-- A new entry, as `sfsOpen`, `sfsMkdir` and `sfsSymlink` write it. -/
def newEntry (name : Name) (start_block size : Nat) (mode : FileType) : DirEntry where
  name := name
  start_block := start_block
  size := size
  flags := true
  mode := mode
  nlink := 1
  file := s.next_file

def addEntry (i : Slot) (e : DirEntry) : SFS :=
  { s.setEntry i e with
    file_count := s.file_count + 1
    next_file := s.next_file + 1 }

/-- `sfsOpen` of a new name. The slot of a file that was unlinked while open is a free one. A
    failure after the entry is written gives its block back. -/
def createEntry (name : Name) (heap : Heap) : Outcome Unit :=
  match s.allocateBlock with
  | none => (s, .error .NoMemory)
  | some (start_block, s) =>
    match s.freeSlot with
    | none => (s.freeBlock start_block, .error .NoMemory)
    | some i =>
      if MAX_FILES ≤ s.file_count then (s.freeBlock start_block, .error .NoMemory)
      else
        let s := ((s.addEntry i (s.newEntry name start_block 0 .S_IFREG)).setPending i false
          {}).setCount i 1
        if heap.file_ctx && heap.file_fd then (s.install (s.fileOf i 0), .ok ())
        else ((s.setCount i 0).freeBlock start_block, .error .NoMemory)

def sfsOpen (path : Name) (flags : Nat) (heap : Heap) : Outcome Unit :=
  let name := stripSlash path
  if isRoot name then
    if heap.file_ctx && heap.file_fd then (s.install rootFile, .ok ()) else (s, .error .NoMemory)
  else if !isValidFilename name then (s, .error .AccessDenied)
  else if 32 ≤ name.length then (s, .error .NameTooLong)
  else match s.lookup name with
    | some i => s.openEntry i flags heap
    | none =>
      if flags &&& O_CREAT ≠ 0 then s.createEntry name heap else (s, .error .NotFound)

/-- `sfsClose`: the last descriptor of an unlinked file frees its blocks. -/
def sfsClose (k : Nat) (f : SfsFile) : SFS :=
  let i := f.entry_idx
  let s : SFS := { s.setCount i (s.open_counts i - 1) with files := s.files.eraseIdx k }
  if s.open_counts i = 0 ∧ s.pending_delete i = true then
    let info := s.deferred_info i
    (s.setPending i false {}).freeBlocks info.start_block info.block_count
  else s

/-- The entry still is the one of the file. -/
def matchesEntry (f : SfsFile) : Bool :=
  (s.dir f.entry_idx).flags && (s.dir f.entry_idx).start_block = f.start_block

/-- `refreshSizeFromDisk`, and the size of `refreshMetadataFromDisk`. -/
def refreshSizeFromDisk (f : SfsFile) : Option Nat :=
  if s.matchesEntry f && (s.dir f.entry_idx).size ≤ TOTAL_BLOCKS * 512 then
    some (s.dir f.entry_idx).size
  else none

def sfsRead (k : Nat) (f : SfsFile) (len : Nat) : Outcome Nat :=
  match s.refreshSizeFromDisk f with
  | none => (s, .ok 0)
  | some current_size =>
    let f := if current_size < f.size then
      (f.setSize current_size).seekTo (min f.position current_size) else f
    let s := s.setFile k f
    if f.size ≤ f.position then (s, .ok 0)
    else
      let to_read := min len (f.size - f.position)
      if TOTAL_BLOCKS ≤ f.start_block + f.position / 512 ∨
          0 < to_read ∧ TOTAL_BLOCKS ≤ f.start_block + (f.position + to_read - 1) / 512 then
        (s, .error .IOError)
      else (s.setFile k (f.seekTo (f.position + to_read)), .ok to_read)

def sfsSeek (k : Nat) (f : SfsFile) (offset : Int) (whence : Nat) : Outcome Nat :=
  match whence with
  | 0 => go offset
  | 1 => go (f.position + offset)
  | 2 => go (f.size + offset)
  | _ => (s, .error .EINVAL)
where
  go (new_pos : Int) : Outcome Nat :=
    if new_pos < 0 then (s, .error .EINVAL)
    else if (U32_MAX : Int) < new_pos then (s, .error .EFBIG)
    else (s.setFile k (f.seekTo new_pos.toNat), .ok new_pos.toNat)

/-- The entry of the file has its size. -/
def storeSize (f : SfsFile) : SFS :=
  s.setEntry f.entry_idx ((s.dir f.entry_idx).setSize f.size)

/-- `sfsWrite` once the blocks are there: the gap before the position is filled, the data are
    written, and then the position and the sizes. -/
def writeData (k : Nat) (f : SfsFile) (len : Nat) : Outcome Nat :=
  if f.overwrites (f.position + len) then (s.lose, .ok len)
  else if f.size < f.position ∧ TOTAL_BLOCKS ≤ f.start_block + (f.position - 1) / 512 then
    (s, .error .IOError)
  else
    let f := if f.size < f.position then f.setSize f.position else f
    let s := s.setFile k f
    if 0 < len ∧ TOTAL_BLOCKS ≤ f.start_block + (f.position + len - 1) / 512 then
      (s, .error .IOError)
    else
      let f := f.seekTo (f.position + len)
      if f.size < f.position then
        let f := f.setSize f.position
        let s := s.setFile k f
        (if s.matchesEntry f then s.storeSize f else s, .ok len)
      else (s.setFile k f, .ok len)

def sfsWrite (k : Nat) (f : SfsFile) (len : Nat) : Outcome Nat :=
  let new_blocks_needed := (f.position + len + 511) / 512
  if U32_MAX < new_blocks_needed then (s, .error .EFBIG)
  else if blocks f.size < new_blocks_needed then
    if s.refusesGrowth f new_blocks_needed then (s, .error .ENOSPC)
    else (s.growBlocks f new_blocks_needed).writeData k f len
  else s.writeData k f len

/-- The new bytes are 0, and the entry in the file's slot gets the size, whatever entry it is. -/
def fillTo (k : Nat) (f : SfsFile) (new_size : Nat) : SFS :=
  if f.overwrites new_size then s.lose
  else (s.setFile k (f.setSize new_size)).storeSize (f.setSize new_size)

/-- The extension of `truncateFd`; a length that overflows when it is rounded up stops the
    kernel. -/
def extend (k : Nat) (f : SfsFile) (new_size : Nat) : Outcome Unit :=
  if U32_MAX < new_size + 511 then (s.lose, .ok ())
  else if blocks f.size < (new_size + 511) / 512 then
    if s.refusesGrowth f ((new_size + 511) / 512) then (s, .error .IOError)
    else ((s.growBlocks f ((new_size + 511) / 512)).fillTo k f new_size, .ok ())
  else (s.fillTo k f new_size, .ok ())

/-- The other way: the blocks past the new end are freed, and `next_free_block` goes back if the
    file ended there. -/
def shrink (k : Nat) (f : SfsFile) (new_size : Nat) : SFS :=
  let current := blocks f.size
  let requested := blocks new_size
  let g := (f.setSize new_size).seekTo (min f.position new_size)
  let cut (s : SFS) : SFS := (s.setFile k g).storeSize g
  if requested < current then
    let s := if f.start_block + current = s.next_free_block then
      s.setNextFree (f.start_block + requested) else s
    (cut s).freeBlocks (f.start_block + requested) (current - requested)
  else cut s

def truncateFd (k : Nat) (f : SfsFile) (length : Nat) : Outcome Unit :=
  if U32_MAX < length then (s, .error .TooLarge)
  else if f.size < length then s.extend k f length
  else (s.shrink k f length, .ok ())

/-- `sys_fallocate` with mode 0. -/
def sysFallocate (k : Nat) (f : SfsFile) (offset len : Nat) : Outcome Unit :=
  let current_size := (s.refreshSizeFromDisk f).getD f.size
  if current_size < offset + len then s.truncateFd k f (offset + len) else (s, .ok ())

/-! ## 5. The directory -/

/-- The end of an entry in `sfsUnlink` and of the target of `sfsRename`: its blocks are freed, or
    with the last `close`, whatever other links there are. -/
def removeEntry (i : Slot) : SFS :=
  let e := s.dir i
  let s := s.setFileCount (s.file_count - 1)
  if 0 < s.open_counts i then
    (s.setEntry i e.clear).setPending i true ⟨e.start_block, blocks e.size⟩
  else
    (s.setEntry i { e.clear with start_block := 0, size := 0 }).freeBlocks e.start_block
      (blocks e.size)

/-- The links of the active entries that start at a block. -/
def syncLinks (start_block nlink : Nat) : SFS :=
  s.setDir fun i =>
    if (s.dir i).flags && (s.dir i).start_block = start_block then (s.dir i).setNlink nlink
    else s.dir i

/-- The end of one of several links in `sfsUnlink`. -/
def dropLink (i : Slot) : SFS :=
  let e := s.dir i
  ((s.setEntry i e.clear).syncLinks e.start_block (e.effective_nlink - 1)).setFileCount
    (s.file_count - 1)

def sfsUnlink (path : Name) : Outcome Unit :=
  let name := stripSlash path
  if !isValidFilename name then (s, .error .AccessDenied)
  else if 32 ≤ name.length then (s, .error .NotFound)
  else match s.lookup name with
    | none => (s, .error .NotFound)
    | some i =>
      if 1 < (s.dir i).effective_nlink ∧ ¬ 0 < s.open_counts i then (s.dropLink i, .ok ())
      else (s.removeEntry i, .ok ())

def sfsMkdir (path : Name) : Outcome Unit :=
  let name := stripSlash path
  if !isValidFilename name then (s, .error .AccessDenied)
  else if 32 ≤ name.length ∨ name = [0x2E#8] then (s, .error .InvalidPath)
  else match s.lookup name with
    | some _ => (s, .error .AlreadyExists)
    | none =>
      match s.freeSlot with
      | none => (s, .error .NoMemory)
      | some i =>
        if MAX_FILES ≤ s.file_count then (s, .error .NoMemory)
        else (s.addEntry i (s.newEntry name 0 0 .S_IFDIR), .ok ())

def sfsRmdir (path : Name) : Outcome Unit :=
  let name := stripSlash path
  if !isValidFilename name then (s, .error .AccessDenied)
  else if 32 ≤ name.length then (s, .error .NotFound)
  else if name = [0x2E#8] then (s, .error .AccessDenied)
  else match s.lookup name with
    | none => (s, .error .NotFound)
    | some i =>
      if !(s.dir i).isDirectory then (s, .error .NotDirectory)
      else if 0 < s.open_counts i then (s, .error .Busy)
      else
        let e := { (s.dir i).clear with start_block := 0, size := 0, mode := .none }
        ((s.setEntry i e).setFileCount (s.file_count - 1), .ok ())

/-- The checks of two names; `none` where both are good. -/
def checkNames (old_name new_name : Name) : Option VfsError :=
  if !isValidFilename old_name || !isValidFilename new_name then some .AccessDenied
  else if 32 ≤ old_name.length then some .NotFound
  else if 32 ≤ new_name.length then some .InvalidPath
  else none

def sfsLink (old_path new_path : Name) : Outcome Unit :=
  let old_name := stripSlash old_path
  let new_name := stripSlash new_path
  match checkNames old_name new_name with
  | some err => (s, .error err)
  | none =>
    match s.lookup new_name, s.lookupLast old_name, s.freeSlot with
    | some _, _, _ => (s, .error .AlreadyExists)
    | none, none, _ => (s, .error .NotFound)
    | none, some _, none => (s, .error .NoMemory)
    | none, some old, some i =>
      let e := s.dir old
      if !e.isRegularFile then (s, .error .AccessDenied)
      else if MAX_FILES ≤ s.file_count then (s, .error .NoMemory)
      else
        let nlink := e.effective_nlink + 1
        (((s.setEntry i ((e.setName new_name).setNlink nlink)).syncLinks e.start_block
          nlink).setFileCount (s.file_count + 1), .ok ())

/-- `sfsSymlink`: the block is allocated first, and given back on every way out. -/
def sfsSymlink (target linkpath : Name) : Outcome Unit :=
  let linkname := stripSlash linkpath
  if !isValidFilename linkname then (s, .error .AccessDenied)
  else if 32 ≤ linkname.length then (s, .error .NameTooLong)
  else if target.length = 0 then (s, .error .NotFound)
  else if 511 < target.length then (s, .error .NameTooLong)
  else match s.allocateBlock with
    | none => (s, .error .NoMemory)
    | some (start_block, s) =>
      match s.lookup linkname, s.freeSlot with
      | some _, _ => (s.freeBlock start_block, .error .AlreadyExists)
      | none, none => (s.freeBlock start_block, .error .NoMemory)
      | none, some i =>
        if MAX_FILES ≤ s.file_count then (s.freeBlock start_block, .error .NoMemory)
        else
          (s.addEntry i (s.newEntry linkname start_block target.length .S_IFLNK), .ok ())

/-- `sfsRename` of the entry `i`, once the names are looked up. -/
def renameEntry (i : Slot) (target : Option Slot) (new_name : Name) : Outcome Unit :=
  match target with
  | none => (s.setEntry i ((s.dir i).setName new_name), .ok ())
  | some j =>
    if (s.dir j).isDirectory then (s, .error .IsDirectory)
    else
      let s := s.removeEntry j
      (s.setEntry i ((s.dir i).setName new_name), .ok ())

def sfsRename (old_path new_path : Name) : Outcome Unit :=
  let old_name := stripSlash old_path
  let new_name := stripSlash new_path
  match checkNames old_name new_name with
  | some err => (s, .error err)
  | none =>
    if old_name = new_name then (s, .ok ())
    else match s.lookupLast old_name with
      | none => (s, .error .NotFound)
      | some i => s.renameEntry i (s.lookupLast new_name) new_name

def RENAME_NOREPLACE : Nat := 1
def RENAME_EXCHANGE : Nat := 2

def exchange (i j : Slot) : SFS :=
  (s.setEntry i ((s.dir i).setName (s.dir j).name)).setEntry j ((s.dir j).setName (s.dir i).name)

def sfsRename2 (old_path new_path : Name) (flags : Nat) : Outcome Unit :=
  let old_name := stripSlash old_path
  let new_name := stripSlash new_path
  match checkNames old_name new_name with
  | some err => (s, .error err)
  | none =>
    if old_name = new_name then (s, .ok ())
    else if flags = 0 then s.sfsRename old_path new_path
    else if 4 ≤ flags then (s, .error .NotSupported)
    else match s.lookupLast old_name, s.lookupLast new_name with
      | none, _ => (s, .error .NotFound)
      | some i, target =>
        if flags &&& RENAME_NOREPLACE ≠ 0 then
          if target.isSome then (s, .error .AlreadyExists) else s.sfsRename old_path new_path
        else match target with
          | none => (s, .error .NotFound)
          | some j => (s.exchange i j, .ok ())

end SFS

/-! ## 6. Runs -/

/-- An operation, with the descriptor it is called on (its place in the list of open ones). -/
inductive Op where
  | sfsOpen (path : Name) (flags : Nat) (heap : SFS.Heap)
  | sfsClose (k : Nat)
  | sfsRead (k len : Nat)
  | sfsSeek (k : Nat) (offset : Int) (whence : Nat)
  | sfsWrite (k len : Nat)
  | sfsTruncate (k length : Nat)
  | sysFallocate (k offset len : Nat)
  | sfsUnlink (path : Name)
  | sfsMkdir (path : Name)
  | sfsRmdir (path : Name)
  | sfsLink (old_path new_path : Name)
  | sfsSymlink (target linkpath : Name)
  | sfsRename (old_path new_path : Name)
  | sfsRename2 (old_path new_path : Name) (flags : Nat)

namespace SFS

/-- A call on the descriptor in place `k`. -/
def onFile (s : SFS) (k : Nat) (call : SfsFile → SFS) : SFS :=
  match s.files[k]? with
  | none => s
  | some f => call f

def perform (s : SFS) : Op → SFS
  | .sfsOpen path flags heap => (s.sfsOpen path flags heap).1
  | .sfsClose k => s.onFile k fun f => s.sfsClose k f
  | .sfsRead k len => s.onFile k fun f => (s.sfsRead k f len).1
  | .sfsSeek k offset whence => s.onFile k fun f => (s.sfsSeek k f offset whence).1
  | .sfsWrite k len => s.onFile k fun f => (s.sfsWrite k f len).1
  | .sfsTruncate k length => s.onFile k fun f => (s.truncateFd k f length).1
  | .sysFallocate k offset len => s.onFile k fun f => (s.sysFallocate k f offset len).1
  | .sfsUnlink path => (s.sfsUnlink path).1
  | .sfsMkdir path => (s.sfsMkdir path).1
  | .sfsRmdir path => (s.sfsRmdir path).1
  | .sfsLink old_path new_path => (s.sfsLink old_path new_path).1
  | .sfsSymlink target linkpath => (s.sfsSymlink target linkpath).1
  | .sfsRename old_path new_path => (s.sfsRename old_path new_path).1
  | .sfsRename2 old_path new_path flags => (s.sfsRename2 old_path new_path flags).1

/-- The state before an operation, with nothing handed out yet. -/
def begin (s : SFS) : SFS := { s with handed := [] }

def step (s : SFS) (op : Op) : SFS := if s.lost then s.begin else s.begin.perform op

end SFS

end Zigk.Sfs
