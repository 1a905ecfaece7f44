/-
  Subject:   THE KERNEL HEAP'S FREE-LIST ALLOCATOR (mm/heap.zig): blocks with a header and a
             footer in the memory they manage, a doubly linked list of the free ones.

  Memory is a map from addresses to 64-bit words; every access of the allocator is to a whole
  word at a multiple of 8, and so is the border of every payload. A header at `a` has its words at
  `a` (size and flag), `a + 8` and `a + 16` (the links), `a + 24` (the magic number); a footer
  ends its block with the size and the canary. A null pointer is the word 0.

  The functions stop where the kernel build panics and where a safety check of the language does.
  The search for a block follows the links in memory; its number of rounds is bounded by
  `free_block_count`, and a search that would need more stops with `Trap.fuel`.

  Left out: the lock (held by every function from its first to its last access), the slab
  allocator in front, the console, the header's padding.
-/
import Zigk.Base.Checked
import Mathlib.Data.BitVec

namespace Zigk.Mm

abbrev ALIGNMENT : Nat := 64
abbrev MIN_BLOCK_SIZE : Nat := 128
abbrev HEADER_SIZE : Nat := 64
abbrev FOOTER_SIZE : Nat := 16
abbrev ALLOCATOR_MAGIC : Nat := 0x484541505F5F5A4B
abbrev HEAP_CANARY_DEFAULT : BitVec 64 := 0xDEADBEEFCAFEBABE#64
abbrev MAX_ALLOC_SIZE : Nat := 1024 * 1024 * 1024

def alignBackward (n : Nat) : Nat := n - n % ALIGNMENT

def alignForward (n : Nat) : Nat := alignBackward (n + (ALIGNMENT - 1))

structure Heap where
  mem : Nat → Nat
  heapStart : Nat := 0
  heapEnd : Nat := 0
  freeListHead : Option Nat := none
  allocatedBytes : Nat := 0
  allocationCount : Nat := 0
  freeBlockCount : Nat := 0
  heapCanary : Nat := 0xDEADBEEFCAFEBABE
  initialized : Bool := false

/-- A returned slice: its address and its length. -/
structure Slice where
  ptr : Nat
  len : Nat
  deriving DecidableEq, Repr

/-! ## 1. Headers and footers -/

/-- The pointer a word holds. -/
def ptr (w : Nat) : Option Nat := if w = 0 then none else some w

/-- The word of a pointer. -/
def word (p : Option Nat) : Nat := p.getD 0

namespace Heap

def store (h : Heap) (a v : Nat) : Heap := { h with mem := Function.update h.mem a v }

def getSize (h : Heap) (block : Nat) : Nat := h.mem block - h.mem block % 2

def setSize (h : Heap) (block size : Nat) : Heap :=
  h.store block (h.mem block % 2 + (size - size % 2))

def isAllocated (h : Heap) (block : Nat) : Bool := h.mem block % 2 != 0

def setAllocated (h : Heap) (block : Nat) (allocated : Bool) : Heap :=
  h.store block (if allocated then h.mem block - h.mem block % 2 + 1
    else h.mem block - h.mem block % 2)

def prevFree (h : Heap) (block : Nat) : Option Nat := ptr (h.mem (block + 8))
def nextFree (h : Heap) (block : Nat) : Option Nat := ptr (h.mem (block + 16))
def setPrevFree (h : Heap) (block : Nat) (p : Option Nat) : Heap := h.store (block + 8) (word p)
def setNextFree (h : Heap) (block : Nat) (p : Option Nat) : Heap := h.store (block + 16) (word p)

def magic (h : Heap) (block : Nat) : Nat := h.mem (block + 24)
def setMagic (h : Heap) (block : Nat) : Heap := h.store (block + 24) ALLOCATOR_MAGIC

def getFooter (h : Heap) (block : Nat) : Nat := block + h.getSize block - FOOTER_SIZE

def setFooter (h : Heap) (footer size : Nat) : Heap :=
  (h.store footer size).store (footer + 8) h.heapCanary

def getPayload (block : Nat) : Nat := block + HEADER_SIZE

def getNextBlock (h : Heap) (block : Nat) : Option Nat :=
  let nextAddr := block + h.getSize block
  if nextAddr ≥ h.heapEnd then none else some nextAddr

/-- The block before, found through its footer; `none` also where footer or header look corrupt. -/
def getPrevBlock (h : Heap) (block : Nat) : Option Nat :=
  if block ≤ h.heapStart then none
  else if block < h.heapStart + FOOTER_SIZE then none
  else
    let footer := block - FOOTER_SIZE
    let size := h.mem footer
    if h.mem (footer + 8) ≠ h.heapCanary then none
    else if size > block ∨ size < MIN_BLOCK_SIZE then none
    else
      let prevAddr := block - size
      if prevAddr < h.heapStart then none
      else if h.magic prevAddr ≠ ALLOCATOR_MAGIC then none
      else if h.getSize prevAddr ≠ size then none
      else some prevAddr

/-! ## 2. The free list -/

def addToFreeList (h : Heap) (block : Nat) : Heap :=
  let h := h.setPrevFree block none
  let h := h.setNextFree block h.freeListHead
  let h := match h.freeListHead with
    | some head => h.setPrevFree head (some block)
    | none => h
  { h with
    freeListHead := some block
    freeBlockCount := h.freeBlockCount + 1 }

def removeFromFreeList (h : Heap) (block : Nat) : Heap :=
  let h := match h.prevFree block with
    | some prev => h.setNextFree prev (h.nextFree block)
    | none => { h with freeListHead := h.nextFree block }
  let h := match h.nextFree block with
    | some next => h.setPrevFree next (h.prevFree block)
    | none => h
  let h := (h.setPrevFree block none).setNextFree block none
  { h with freeBlockCount := h.freeBlockCount - 1 }

/-! ## 3. Initialisation -/

/-- The canary of this boot, from hardware entropy (0 where there is none) and the time stamp. -/
def initCanary (hwEntropy tsc : BitVec 64) : BitVec 64 :=
  let canary := HEAP_CANARY_DEFAULT ^^^ hwEntropy ^^^ tsc ^^^ (tsc >>> 17) ^^^ (tsc <<< 31)
  if canary = 0 then HEAP_CANARY_DEFAULT else canary

/-- `init` with the two random words; a region that is too small leaves the heap as it was but
    for its bounds. -/
def init (h : Heap) (hwEntropy tsc : BitVec 64) (start size : Nat) : Except Trap Heap := do
  if h.initialized then return h
  let canary := (initCanary hwEntropy tsc).toNat
  if start + (ALIGNMENT - 1) ≥ 2 ^ 64 then throw .integerOverflow
  let heapStart := alignForward start
  let adjustedSize ← Trap.sub size (heapStart - start)
  let heapEnd := heapStart + alignBackward adjustedSize
  if heapEnd ≥ 2 ^ 64 then throw .integerOverflow
  if heapStart + MIN_BLOCK_SIZE ≥ 2 ^ 64 then throw .integerOverflow
  let h := { h with heapStart := heapStart, heapEnd := heapEnd, heapCanary := canary }
  if heapEnd ≤ heapStart + MIN_BLOCK_SIZE then return h
  if heapStart = 0 then throw .nullPointer
  let blockSize := heapEnd - heapStart
  let h := h.store heapStart blockSize
  let h := (h.setPrevFree heapStart none).setNextFree heapStart none
  let h := h.setMagic heapStart
  let h := h.setFooter (h.getFooter heapStart) blockSize
  return { h with
    freeListHead := some heapStart
    freeBlockCount := 1
    allocatedBytes := 0
    allocationCount := 0
    initialized := true }

/-! ## 4. Allocation -/

/-- The size of the block that a request takes. -/
def minSize (size : Nat) : Nat :=
  max (alignForward (size + (HEADER_SIZE + FOOTER_SIZE))) MIN_BLOCK_SIZE

/-- The first block of the list that is large enough. -/
def firstFit (h : Heap) (minSize : Nat) : Nat → Option Nat → Except Trap (Option Nat)
  | _, none => .ok none
  | 0, some _ => .error .fuel
  | rounds + 1, some block =>
    if h.getSize block ≥ minSize then .ok (some block)
    else h.firstFit minSize rounds (h.nextFree block)

/-- The rest of a split block becomes a free block of its own. -/
def splitRest (h : Heap) (newBlock remaining : Nat) : Heap :=
  let h := h.store newBlock remaining
  let h := h.setAllocated newBlock false
  let h := (h.setPrevFree newBlock none).setNextFree newBlock none
  let h := h.setMagic newBlock
  let h := h.setFooter (h.getFooter newBlock) remaining
  h.addToFreeList newBlock

/-- The block, off the free list, made an allocated one: split where the rest can stand alone. -/
def carve (h : Heap) (block requiredSize remaining : Nat) : Heap :=
  if remaining ≥ MIN_BLOCK_SIZE then
    let h := ((h.setSize block requiredSize).setAllocated block true).setMagic block
    let h := h.setFooter (h.getFooter block) requiredSize
    h.splitRest (block + requiredSize) remaining
  else
    let h := h.setAllocated block true
    h.setFooter (h.getFooter block) (h.getSize block)

def allocateFromBlock (h : Heap) (block requiredSize : Nat) : Except Trap (Heap × Slice) := do
  let blockSize := h.getSize block
  let h := h.removeFromFreeList block
  let remaining ← Trap.sub blockSize requiredSize
  let h := h.carve block requiredSize remaining
  let payloadSize ← Trap.sub (h.getSize block) (HEADER_SIZE + FOOTER_SIZE)
  return ({ h with
    allocatedBytes := h.allocatedBytes + payloadSize
    allocationCount := h.allocationCount + 1 }, ⟨getPayload block, payloadSize⟩)

def allocFromFreeList (h : Heap) (size : Nat) : Except Trap (Heap × Option Slice) := do
  if !h.initialized ∨ size = 0 then return (h, none)
  if size > MAX_ALLOC_SIZE then return (h, none)
  match ← h.firstFit (minSize size) h.freeBlockCount h.freeListHead with
  | some block =>
    let (h, slice) ← h.allocateFromBlock block (minSize size)
    return (h, some slice)
  | none => return (h, none)

/-! ## 5. Freeing -/

/-- A free neighbour at `block` of the size its header says: it leaves the free list, and its size
    is added to `size`. `side` is the neighbour's name in the panics. -/
def absorb (h : Heap) (side : String) (block size : Nat) : Except Trap (Heap × Nat) :=
  let blockSize := h.getSize block
  if blockSize < MIN_BLOCK_SIZE ∨ blockSize > h.heapEnd - h.heapStart then
    .error (.panic ("Heap: Corrupt " ++ side ++ " block size {d}") [blockSize])
  else if size + blockSize ≥ 2 ^ 64 then
    .error (.panic ("Heap: Coalesce overflow with " ++ side ++ " block") [])
  else .ok (h.removeFromFreeList block, size + blockSize)

/-- Try to coalesce with the next block. -/
def coalesceNext (h : Heap) (header size : Nat) : Except Trap (Heap × Nat) :=
  match h.getNextBlock header with
  | none => .ok (h, size)
  | some next =>
    if h.magic next ≠ ALLOCATOR_MAGIC then
      .error (.panic "Heap: Corrupt next block magic at {x}" [next])
    else if h.isAllocated next then .ok (h, size)
    else h.absorb "next" next size

/-- Try to coalesce with the previous block; the third component is the block that has the
    memory now. -/
def coalescePrev (h : Heap) (header size : Nat) : Except Trap (Heap × Nat × Nat) :=
  match h.getPrevBlock header with
  | none => .ok (h, size, header)
  | some prev =>
    if h.magic prev ≠ ALLOCATOR_MAGIC then
      .error (.panic "Heap: Corrupt prev block magic at {x}" [prev])
    else if h.isAllocated prev then .ok (h, size, header)
    else do
      let (h, size) ← h.absorb "prev" prev size
      return (h, size, prev)

/-- The checks of `freeToFreeList` on the block of the freed payload. -/
def checkFreed (h : Heap) (ptrAddr header : Nat) : Except Trap Unit := do
  let blockSize := h.getSize header
  if header + blockSize ≥ 2 ^ 64 then
    throw (.panic "Heap: Corruption detected! Block size overflow at {x}" [ptrAddr])
  if blockSize < MIN_BLOCK_SIZE ∨ header + blockSize > h.heapEnd then
    throw (.panic "Heap: Corruption detected! Invalid block size {d} at {x}" [blockSize, ptrAddr])
  if h.mem (h.getFooter header) ≠ blockSize ∨ h.mem (h.getFooter header + 8) ≠ h.heapCanary then
    throw (.panic "Heap: Corruption detected! Footer mismatch at {x}" [ptrAddr])

/-- `debug` is the build mode: a double free panics in debug builds only. -/
def freeToFreeList (debug : Bool) (h : Heap) (ptrAddr : Nat) : Except Trap Heap := do
  if !h.initialized then return h
  if ptrAddr < h.heapStart + HEADER_SIZE ∨ ptrAddr ≥ h.heapEnd then return h
  let header := ptrAddr - HEADER_SIZE
  if h.magic header ≠ ALLOCATOR_MAGIC then
    throw (.panic "Heap: Corruption detected! Invalid magic {x} at {x}" [h.magic header, ptrAddr])
  if !h.isAllocated header then
    if debug then throw (.panic "Heap: Double-free detected - possible exploit attempt" [])
    return h
  h.checkFreed ptrAddr header
  let blockSize := h.getSize header
  let payloadSize ← Trap.sub blockSize (HEADER_SIZE + FOOTER_SIZE)
  let h := { h with
    allocatedBytes :=
      if h.allocatedBytes ≥ payloadSize then h.allocatedBytes - payloadSize else h.allocatedBytes
    allocationCount := h.allocationCount - 1 }
  let h := h.setAllocated header false
  let (h, size) ← h.coalesceNext header blockSize
  let (h, size, block) ← h.coalescePrev header size
  let h := (h.setSize block size).setAllocated block false
  let h := h.setFooter (h.getFooter block) size
  return h.addToFreeList block

/-! ## 6. The integrity check -/

/-- The loop of `checkIntegrity` from an address on. -/
def integrityFrom (h : Heap) (addr : Nat) : Bool :=
  if addr < h.heapEnd then
    if h.magic addr ≠ ALLOCATOR_MAGIC then false
    else if h.getSize addr < MIN_BLOCK_SIZE ∨ addr + h.getSize addr > h.heapEnd then false
    else if h.mem (h.getFooter addr) ≠ h.getSize addr ∨
        h.mem (h.getFooter addr + 8) ≠ h.heapCanary then false
    else h.integrityFrom (addr + h.getSize addr)
  else true
  termination_by h.heapEnd - addr
  decreasing_by
    have : MIN_BLOCK_SIZE = 128 := rfl
    omega

def checkIntegrity (h : Heap) : Bool :=
  if !h.initialized then true else h.integrityFrom h.heapStart

end Heap

end Zigk.Mm
