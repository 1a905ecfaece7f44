/-
  Subject:   SFS (fs/sfs/alloc.zig): `allocateBlock` and `freeBlock`, interleaved at sector I/O and
             the lock, on a device that may fail.

  * `Superblock`, `validateSuperblock`, `format` -- the layout of a volume;
  * `AllocPhase`, `FreePhase`, `Task` -- where a call stands between two accesses to the device or
    two sections of `alloc_lock`;
  * `Vol.step` -- one sector read or written, or one lock section, of any call; an input says
    whether the device, or the heap, serves it.

  A failed write leaves the sector as it was. The contents of a cache that is not valid are never
  read and are left out, as are the other fields of the superblock. The checked sums of block
  numbers do not overflow: there are at most 65536 bits, and the data start before block 64.
  `freeBlocks` is a caller of `freeBlock`, for one block after the other.
-/
import Zigk.Base.Bitmap
import Zigk.Base.Machine
import Zigk.Fs.Sfs

namespace Zigk.SfsAlloc

open Zigk.Sfs (SECTOR_SIZE MAX_FILES ROOT_DIR_BLOCKS BITMAP_BLOCKS DATA_START_BLOCK U32_MAX)

/-! ## 1. The layout of a volume -/

structure Superblock where
  block_size : Nat
  total_blocks : Nat
  file_count : Nat
  free_blocks : Nat
  bitmap_start : Nat
  bitmap_blocks : Nat
  root_dir_start : Nat
  data_start : Nat
  next_free_block : Nat
  deriving DecidableEq, Repr

/-- The superblock that `format` writes. -/
def format : Superblock where
  block_size := SECTOR_SIZE
  total_blocks := 32768
  file_count := 0
  free_blocks := 32768 - DATA_START_BLOCK
  bitmap_start := 1
  bitmap_blocks := BITMAP_BLOCKS
  root_dir_start := 1 + BITMAP_BLOCKS
  data_start := DATA_START_BLOCK
  next_free_block := DATA_START_BLOCK

def validateSuperblock (sb : Superblock) : Bool :=
  if sb.block_size ≠ SECTOR_SIZE then false
  else if sb.total_blocks = 0 ∨ sb.total_blocks > 4 * 1024 * 1024 then false
  else if sb.bitmap_start ≠ 1 then false
  else if sb.bitmap_blocks = 0 ∨ sb.bitmap_blocks > 16 then false
  else if sb.root_dir_start ≠ sb.bitmap_start + sb.bitmap_blocks then false
  else if sb.data_start ≠ sb.root_dir_start + ROOT_DIR_BLOCKS then false
  else if sb.data_start ≥ sb.total_blocks then false
  else if sb.free_blocks > sb.total_blocks - sb.data_start then false
  else if sb.file_count > MAX_FILES then false
  else if sb.next_free_block > sb.total_blocks then false
  else true

namespace Superblock

variable (sb : Superblock)

/-- The bit of a block, counted from `data_start`. -/
def rel (block_num : Nat) : Nat := block_num - sb.data_start

/-- The sector of a bit, by the byte it lies in. -/
def lba (rel : Nat) : Nat := sb.bitmap_start + rel / 8 / 512

def bytes : Nat := sb.bitmap_blocks * 512

/-- The bits of the bitmap. -/
def bits : Nat := sb.bytes * 8

end Superblock

/-- The place of a bit in its sector: `byte_in_block` and `bit_idx`. -/
def bitInSector (rel : Nat) : Nat := rel / 8 % 512 * 8 + rel % 8

def scanByte (byte : BitVec 8) : Option Nat :=
  (List.range 8).find? fun bit => byte &&& (1#8 <<< bit) = 0#8

/-- The first byte that is not all ones, from index `idx` on, and its first clear bit. -/
def scan : Bitmap → Nat → Option (Nat × Nat)
  | [], _ => none
  | byte :: rest, idx =>
    if byte ≠ 0xFF#8 then
      match scanByte byte with
      | some bit => some (idx, bit)
      | none => scan rest (idx + 1)
    else scan rest (idx + 1)

/-! ## 2. Calls under way -/

inductive SfsError where
  | IOError | ENOSPC | InvalidBlock
  deriving DecidableEq, Repr

inductive AllocPhase where
  | start
  /-- The bitmap is read under the lock, sector `next` first. -/
  | load (next : Nat) (bitmap_buf : Bitmap)
  | write (block_num lba : Nat) (sector_data : Bitmap)
  /-- The write failed: the cache and the counter are still to be put back. -/
  | rollback (block_num : Nat)
  | superblock (block_num : Nat)
  /-- The superblock's write failed: only the counter is put back. -/
  | undo
  | done (result : Except SfsError Nat)
  deriving DecidableEq

inductive FreePhase where
  | start
  | write (lba : Nat) (sector_buf : Bitmap)
  /-- The lock section: the cache and the counter. -/
  | account
  | superblock
  | done (result : Except SfsError Unit)
  /-- The byte lies past the cache. -/
  | panicked
  deriving DecidableEq

inductive Task where
  | allocateBlock (phase : AllocPhase)
  | freeBlock (block_num : Nat) (phase : FreePhase)
  deriving DecidableEq

/-- `bitmap_cache` and `bitmap_cache_valid`. -/
inductive Cache where
  | absent
  | cold
  | valid (bitmap : Bitmap)
  deriving DecidableEq

structure Vol where
  sb : Superblock
  /-- The superblock in sector 0. -/
  stored : Superblock
  /-- The other sectors. -/
  disk : Nat → Bitmap
  cache : Cache := .absent
  /-- The call that keeps `alloc_lock` over its I/O. -/
  lock : Option Nat := none
  tasks : List Task := []
  /-- History: the bits as the lock sections leave them. No call reads it. -/
  books : Nat → Bool
  /-- History: the blocks that callers were given and have not given back. -/
  held : List Nat := []

namespace Vol

variable (s : Vol)

def setTask (t : Nat) (task : Task) : Vol := { s with tasks := s.tasks.set t task }
def setCache (m : Bitmap) : Vol := { s with cache := .valid m }
def setLock (lock : Option Nat) : Vol := { s with lock := lock }
def setFree (n : Nat) : Vol := { s with sb := { s.sb with free_blocks := n } }
def setBook (rel : Nat) (b : Bool) : Vol := { s with books := Function.update s.books rel b }
def setHeld (held : List Nat) : Vol := { s with held := held }
def writeSector (lba : Nat) (buf : Bitmap) : Vol :=
  { s with disk := Function.update s.disk lba buf }
def updateSuperblock : Vol := { s with stored := s.sb }

/-- `free_blocks + 1`, at most the largest number. -/
def credit : Vol := s.setFree (min (s.sb.free_blocks + 1) U32_MAX)

/-- A bit of the cache is cleared, if the cache is valid. -/
def clearCache (rel : Nat) : Vol :=
  match s.cache with
  | .valid m => s.setCache (m.clearBit rel)
  | _ => s

/-- The bitmap was loaded: a cache that there is becomes valid. -/
def loaded (m : Bitmap) : Vol :=
  match s.cache with
  | .absent => s
  | _ => s.setCache m

/-! ## 3. `allocateBlock` -/

/-- The section of the lock that takes a block, once there is a bitmap. A block past the end of
    the volume is put back. -/
def allocate (t : Nat) (bitmap_buf : Bitmap) : Vol :=
  match scan bitmap_buf 0 with
  | none => s.setTask t (.allocateBlock (.done (.error .ENOSPC)))
  | some (idx, bit) =>
    let rel := idx * 8 + bit
    if s.sb.total_blocks ≤ s.sb.data_start + rel then
      s.setTask t (.allocateBlock (.done (.error .ENOSPC)))
    else
      let buf := bitmap_buf.setBit rel
      let sector_data := (buf.drop (idx / 512 * 512)).take 512
      let s' := (s.setFree (s.sb.free_blocks - 1)).setBook rel true
      (match s.cache with
        | .absent => s'
        | _ => s'.setCache buf).setTask t
          (.allocateBlock (.write (s.sb.data_start + rel) (s.sb.bitmap_start + idx / 512)
            sector_data))

/-- A step of `allocateBlock`. A lock section waits while another call has the lock. -/
def runAlloc (t : Nat) (ok : Bool) : AllocPhase → Vol
  | .start =>
    if s.lock.isSome then s
    else match s.cache with
      | .valid m => s.allocate t m
      | .cold => (s.setLock (some t)).setTask t (.allocateBlock (.load 0 []))
      | .absent =>
        if ok then (s.setLock (some t)).setTask t (.allocateBlock (.load 0 []))
        else s.setTask t (.allocateBlock (.done (.error .IOError)))
  | .load next bitmap_buf =>
    if !ok then (s.setLock none).setTask t (.allocateBlock (.done (.error .IOError)))
    else
      let buf := bitmap_buf ++ s.disk (s.sb.bitmap_start + next)
      if next + 1 < s.sb.bitmap_blocks then s.setTask t (.allocateBlock (.load (next + 1) buf))
      else ((s.setLock none).loaded buf).allocate t buf
  | .write block_num lba sector_data =>
    if ok then
      (s.writeSector lba sector_data).setTask t (.allocateBlock (.superblock block_num))
    else s.setTask t (.allocateBlock (.rollback block_num))
  | .rollback block_num =>
    if s.lock.isSome then s
    else ((s.clearCache (s.sb.rel block_num)).credit.setBook (s.sb.rel block_num) false).setTask t
      (.allocateBlock (.done (.error .IOError)))
  | .superblock block_num =>
    if ok then (s.updateSuperblock.setHeld (block_num :: s.held)).setTask t
      (.allocateBlock (.done (.ok block_num)))
    else s.setTask t (.allocateBlock .undo)
  | .undo =>
    if s.lock.isSome then s else s.credit.setTask t (.allocateBlock (.done (.error .IOError)))
  | .done _ => s

/-! ## 4. `freeBlock` -/

/-- The byte of a bit lies past the cache. -/
def pastCache (rel : Nat) : Bool :=
  match s.cache with
  | .valid m => m.length ≤ rel / 8
  | _ => false

/-- The call fails before it wrote: the block stays with its caller. -/
def failFree (t block_num : Nat) : Vol :=
  (s.setHeld (block_num :: s.held)).setTask t (.freeBlock block_num (.done (.error .IOError)))

def runFree (t block_num : Nat) (ok : Bool) : FreePhase → Vol
  | .start =>
    if block_num < s.sb.data_start then
      s.setTask t (.freeBlock block_num (.done (.error .InvalidBlock)))
    else
      let lba := s.sb.lba (s.sb.rel block_num)
      if ok then s.setTask t (.freeBlock block_num
        (.write lba ((s.disk lba).clearBit (bitInSector (s.sb.rel block_num)))))
      else s.failFree t block_num
  | .write lba sector_buf =>
    if ok then (s.writeSector lba sector_buf).setTask t (.freeBlock block_num .account)
    else s.failFree t block_num
  | .account =>
    if s.lock.isSome then s
    else
      let rel := s.sb.rel block_num
      if s.pastCache rel then s.setTask t (.freeBlock block_num .panicked)
      else ((s.clearCache rel).credit.setBook rel false).setTask t
        (.freeBlock block_num .superblock)
  | .superblock =>
    if ok then s.updateSuperblock.setTask t (.freeBlock block_num (.done (.ok ())))
    else s.setTask t (.freeBlock block_num (.done (.error .IOError)))
  | .done _ | .panicked => s

def runTask (t : Nat) (ok : Bool) : Task → Vol
  | .allocateBlock phase => s.runAlloc t ok phase
  | .freeBlock block_num phase => s.runFree t block_num ok phase

end Vol

/-! ## 5. Runs -/

inductive Input where
  | allocateBlock
  | freeBlock (block_num : Nat)
  /-- A step of a call; `ok` where the device, or the heap, serves it. -/
  | run (t : Nat) (ok : Bool)

def Vol.step (s : Vol) : Input → Vol
  | .allocateBlock => { s with tasks := s.tasks ++ [.allocateBlock .start] }
  | .freeBlock block_num =>
    { s with
      tasks := s.tasks ++ [.freeBlock block_num .start]
      held := s.held.erase block_num }
  | .run t ok =>
    match s.tasks[t]? with
    | none => s
    | some task => s.runTask t ok task

/-- The calls on a volume, from a state on. -/
def allocator (s₀ : Vol) : Machine Vol Input where
  start s := s = s₀
  step := Vol.step

/-! ## 6. What a step uses -/

inductive Access where
  | sector (lba : Nat)
  /-- Sector 0, by `updateSuperblock`. -/
  | superblock
  | cacheByte (idx : Nat)
  /-- The sector's worth of the bitmap from a byte on. -/
  | cacheSlice (idx : Nat)
  deriving DecidableEq

namespace Vol

variable (s : Vol)

/-- The slice that a lock section copies, if it finds a block. -/
def slices (bitmap_buf : Bitmap) : List Access :=
  match scan bitmap_buf 0 with
  | none => []
  | some (idx, _) => [.cacheByte idx, .cacheSlice (idx / 512 * 512)]

/-- The byte of the cache that a lock section clears. -/
def cleared (block_num : Nat) : List Access :=
  match s.cache with
  | .valid _ => [.cacheByte (s.sb.rel block_num / 8)]
  | _ => []

/-- What the next step of a call uses of the device and the bitmap. -/
def accesses : Task → List Access
  | .allocateBlock .start =>
    match s.cache with
    | .valid m => slices m
    | _ => []
  | .allocateBlock (.load next bitmap_buf) =>
    .sector (s.sb.bitmap_start + next) ::
      if next + 1 < s.sb.bitmap_blocks then []
      else slices (bitmap_buf ++ s.disk (s.sb.bitmap_start + next))
  | .allocateBlock (.write _ lba _) => [.sector lba]
  | .allocateBlock (.rollback block_num) => s.cleared block_num
  | .allocateBlock (.superblock _) => [.superblock]
  | .freeBlock block_num .start =>
    if block_num < s.sb.data_start then [] else [.sector (s.sb.lba (s.sb.rel block_num))]
  | .freeBlock _ (.write lba _) => [.sector lba]
  | .freeBlock block_num .account => s.cleared block_num
  | .freeBlock _ .superblock => [.superblock]
  | _ => []

end Vol

/-- The sector is one of the bitmap's, the place lies in the bitmap. -/
def Superblock.InBounds (sb : Superblock) : Access → Prop
  | .sector lba => sb.bitmap_start ≤ lba ∧ lba < sb.bitmap_start + sb.bitmap_blocks
  | .superblock => True
  | .cacheByte idx => idx < sb.bytes
  | .cacheSlice idx => idx + 512 ≤ sb.bytes

end Zigk.SfsAlloc
