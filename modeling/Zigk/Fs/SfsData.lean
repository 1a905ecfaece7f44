/-
  Subject:   THE DATA OF ONE SFS FILE (fs/sfs/ops.zig, io.zig): `sfsRead` and `sfsWrite` down to the
             sectors.

  * `FileData` -- the device, the counters of the superblock, the file's entry and its descriptors;
  * `readLoop`, `sfsRead` -- sector by sector, or up to 32 sectors at once;
  * `gapFill`, `writeLoop`, `sfsWrite` -- the gap before the position, the first sectors at once,
    and the others through a buffer;
  * `RefFile` -- what a file is: bytes up to a size, zero where nothing was written.

  The file's blocks follow one another from `start_block` on, and its descriptors keep a size of
  their own. The superblock and the directory lie before the first data block: what is written
  there is kept apart. At most 2^22 blocks make a volume, so that no sum leaves its 32 bits.
-/
import Mathlib.Algebra.Ring.Nat
import Zigk.Base.Machine
import Zigk.Base.Sectors

namespace Zigk.SfsData

open Circular Sectors

def MAX_BATCH_SECTORS : Nat := 32

inductive Errno where
  | IOError | ENOMEM | ENOSPC | EFBIG
  deriving DecidableEq, Repr

/-! ## 1. What a file is -/

structure RefFile where
  size : Nat
  byte : Nat → UInt8

namespace RefFile

def write (r : RefFile) (pos : Nat) (data : List UInt8) : RefFile where
  size := max r.size (pos + data.length)
  byte := copyTo r.byte pos data

def read (r : RefFile) (pos len : Nat) : List UInt8 := copyFrom r.byte pos (min len (r.size - pos))

end RefFile

/-! ## 2. The file on its volume -/

/-- A descriptor: the size that the file had at its last look, and the position. -/
structure SfsFile where
  size : Nat
  position : Nat

structure FileData (D : Type) where
  /-- The device, as one run of bytes. -/
  disk : Nat → UInt8
  total_blocks : Nat
  next_free_block : Nat
  free_blocks : Nat
  start_block : Nat
  /-- `size` in the directory entry. -/
  entry_size : Nat
  fds : D → Option SfsFile
  /-- History: the file as it should be, and what each read gave, with what it should give. -/
  reference : RefFile
  reads : List (Except Errno (List UInt8) × List UInt8) := []

/-- The blocks of a file of a size: an empty one has a block too. -/
def blocks (size : Nat) : Nat := if size = 0 then 1 else (size + 511) / 512

namespace FileData

variable {D : Type} (s : FileData D)

/-- The sector of a place in the file. -/
def block (pos : Nat) : Nat := s.start_block + pos / 512

def setDisk (disk : Nat → UInt8) : FileData D := { s with disk := disk }

def setFd [DecidableEq D] (k : D) (f : SfsFile) : FileData D :=
  { s with fds := Function.update s.fds k (some f) }

/-! ## 3. Reading -/

/-- `sfsRead`, sector by sector. Each round reads a byte at least, so that the first argument can be
    their number. -/
def readLoop (file_blocks : Nat) : Nat → Nat → Nat → Except Errno (List UInt8)
  | 0, _, _ => .ok []
  | fuel + 1, pos, n =>
    if n = 0 then .ok []
    else if file_blocks ≤ pos / 512 then .ok []
    else if s.total_blocks ≤ s.block pos then .error .IOError
    else
      let chunk := min n (512 - pos % 512)
      let sector := read 512 s.disk (s.block pos)
      match readLoop file_blocks fuel (pos + chunk) (n - chunk) with
      | .ok data => .ok ((sector.drop (pos % 512)).take chunk ++ data)
      | .error e => .error e

def sectorCount (pos n : Nat) : Nat := (pos + n + 511) / 512 - pos / 512

/-- All sectors of a read into one buffer. -/
def readBatch (pos n : Nat) : List UInt8 :=
  ((readMany 512 s.disk (s.block pos) (sectorCount pos n)).drop (pos % 512)).take n

/-- `refreshSizeFromDisk`. -/
def refreshSizeFromDisk : Option Nat :=
  if s.total_blocks * 512 < s.entry_size then none else some s.entry_size

/-- The size of the descriptor follows that of the entry when the file has become shorter. -/
def refreshed (f : SfsFile) (current_size : Nat) : SfsFile :=
  if current_size < f.size then ⟨current_size, min f.position current_size⟩ else f

/-- The bytes of a read of `to_read` bytes that lie in the file; `alloc`: the heap has a buffer. -/
def readData (f : SfsFile) (to_read : Nat) (alloc : Bool) : Except Errno (List UInt8) :=
  if blocks f.size ≤ f.position / 512 then .ok []
  else if s.total_blocks ≤ s.block f.position then .error .IOError
  else if 1 < sectorCount f.position to_read ∧
      sectorCount f.position to_read ≤ MAX_BATCH_SECTORS then
    if !alloc then .error .ENOMEM
    else if s.total_blocks ≤ s.block f.position + sectorCount f.position to_read - 1 then
      .error .IOError
    else .ok (s.readBatch f.position to_read)
  else s.readLoop (blocks f.size) to_read f.position to_read

def sfsRead [DecidableEq D] (k : D) (f : SfsFile) (len : Nat) (alloc : Bool) :
    FileData D × Except Errno (List UInt8) :=
  match s.refreshSizeFromDisk with
  | none => (s, .ok [])
  | some current_size =>
    let f := refreshed f current_size
    let s := s.setFd k f
    if f.size ≤ f.position then (s, .ok [])
    else
      match s.readData f (min len (f.size - f.position)) alloc with
      | .ok data => (s.setFd k ⟨f.size, f.position + data.length⟩, .ok data)
      | .error e => (s, .error e)

/-! ## 4. Writing -/

/-- The checks before the file grows to `requested` blocks. -/
def refusesGrowth (f : SfsFile) (requested : Nat) : Bool :=
  (s.start_block + blocks f.size ≠ s.next_free_block && f.size ≠ 0) ||
    s.free_blocks < requested - blocks f.size ||
    s.total_blocks < s.next_free_block + (requested - blocks f.size)

def growBlocks (f : SfsFile) (requested : Nat) : FileData D :=
  { s with
    next_free_block := s.next_free_block + (requested - blocks f.size)
    free_blocks := s.free_blocks - (requested - blocks f.size) }

/-- The gap up to `gap_end` is filled: a sector of which a part stays is read before. The device
    with the bytes written so far, and whether the end was reached. -/
def gapFill (gap_end : Nat) : Nat → (Nat → UInt8) → Nat → (Nat → UInt8) × Bool
  | 0, disk, _ => (disk, true)
  | fuel + 1, disk, fill_pos =>
    if gap_end ≤ fill_pos then (disk, true)
    else if s.total_blocks ≤ s.block fill_pos then (disk, false)
    else
      let off := fill_pos % 512
      let zero_sector := if off ≠ 0 ∨ gap_end - fill_pos < 512 - off then
        read 512 disk (s.block fill_pos) else List.replicate 512 0
      let n := min (512 - off) (gap_end - fill_pos)
      gapFill gap_end fuel
        (write 512 disk (s.block fill_pos) (overlay zero_sector off (List.replicate n 0)))
        (fill_pos + n)

def writeLoop : Nat → (Nat → UInt8) → Nat → List UInt8 → (Nat → UInt8) × Bool
  | 0, disk, _, _ => (disk, true)
  | fuel + 1, disk, pos, buf =>
    if buf.length = 0 then (disk, true)
    else if s.total_blocks ≤ s.block pos then (disk, false)
    else
      let chunk := min buf.length (512 - pos % 512)
      let sector := overlay (read 512 disk (s.block pos)) (pos % 512) (buf.take chunk)
      writeLoop fuel (write 512 disk (s.block pos) sector) (pos + chunk) (buf.drop chunk)

/-- The sectors that are written at once: of a write that begins with one. -/
def fullSectors (pos len : Nat) : Nat :=
  if pos % 512 = 0 ∧ 1024 ≤ len then min (len / 512) MAX_BATCH_SECTORS else 0

/-- The bytes of a write, the device before them. -/
def writeBytes (disk : Nat → UInt8) (pos : Nat) (buf : List UInt8) : (Nat → UInt8) × Bool :=
  let full := fullSectors pos buf.length
  if 0 < full ∧ s.total_blocks ≤ s.block pos + full - 1 then (disk, false)
  else
    let disk := writeMany 512 disk (s.block pos) (buf.take (full * 512)) full
    s.writeLoop buf.length disk (pos + full * 512) (buf.drop (full * 512))

variable [DecidableEq D]

/-- `sfsWrite` once the blocks are there. -/
def writeData (k : D) (f : SfsFile) (buf : List UInt8) : FileData D × Except Errno Nat :=
  let (disk, filled) := if f.size < f.position then
    s.gapFill f.position (f.position - f.size) s.disk f.size else (s.disk, true)
  if !filled then (s.setDisk disk, .error .IOError)
  else
    let f : SfsFile := ⟨max f.size f.position, f.position⟩
    let (disk, done) := s.writeBytes disk f.position buf
    let s := (s.setDisk disk).setFd k f
    if !done then (s, .error .IOError)
    else
      let position := f.position + buf.length
      if f.size < position then
        ({ s with entry_size := position }.setFd k ⟨position, position⟩, .ok buf.length)
      else (s.setFd k ⟨f.size, position⟩, .ok buf.length)

def sfsWrite (k : D) (f : SfsFile) (buf : List UInt8) : FileData D × Except Errno Nat :=
  let new_blocks_needed := (f.position + buf.length + 511) / 512
  if 2 ^ 32 ≤ new_blocks_needed then (s, .error .EFBIG)
  else if blocks f.size < new_blocks_needed then
    if s.refusesGrowth f new_blocks_needed then (s, .error .ENOSPC)
    else (s.growBlocks f new_blocks_needed).writeData k f buf
  else s.writeData k f buf

end FileData

/-! ## 5. Runs -/

inductive DataInput (D : Type) where
  /-- `append`: `O_APPEND`, which sets the position once. -/
  | open (k : D) (append : Bool)
  | close (k : D)
  | seek (k : D) (pos : Nat)
  | read (k : D) (len : Nat) (alloc : Bool)
  | write (k : D) (buf : List UInt8)

section Machine

variable {D : Type} [DecidableEq D]

def FileData.recordRead (s : FileData D) (x : FileData D × Except Errno (List UInt8))
    (expected : List UInt8) : FileData D :=
  { x.1 with reads := s.reads ++ [(x.2, expected)] }

def FileData.recordWrite (s : FileData D) (x : FileData D × Except Errno Nat) (pos : Nat)
    (buf : List UInt8) : FileData D :=
  match x.2 with
  | .ok _ => { x.1 with reference := s.reference.write pos buf }
  | .error _ => x.1

/-- A write of no bytes does not come to the file system. -/
def dataStep (s : FileData D) : DataInput D → FileData D
  | .open k append =>
    match s.fds k with
    | none => s.setFd k ⟨s.entry_size, if append then s.entry_size else 0⟩
    | some _ => s
  | .close k => { s with fds := Function.update s.fds k none }
  | .seek k pos =>
    match s.fds k with
    | some f => if pos < 2 ^ 32 then s.setFd k ⟨f.size, pos⟩ else s
    | none => s
  | .read k len alloc =>
    match s.fds k with
    | some f => s.recordRead (s.sfsRead k f len alloc) (s.reference.read f.position len)
    | none => s
  | .write k buf =>
    match s.fds k with
    | some f => if buf = [] then s else s.recordWrite (s.sfsWrite k f buf) f.position buf
    | none => s

/-- A file with any contents, whose blocks `sfsOpen` accepts; nobody has opened it. -/
def dataMachine (D : Type) [DecidableEq D] : Machine (FileData D) (DataInput D) where
  start s := s.start_block < s.total_blocks ∧
    s.entry_size ≤ (s.total_blocks - s.start_block) * 512 ∧ (∀ k, s.fds k = none) ∧
    s.reads = [] ∧ s.reference = ⟨s.entry_size, fun i =>
      if i < s.entry_size then s.disk (s.start_block * 512 + i) else 0⟩
  step := dataStep

end Machine

end Zigk.SfsData
