/-
  Subject:   THE PHYSICAL PAGE ALLOCATOR (mm/pmm.zig): one bit and one reference count a page.

  Every function is an `Except Trap`: it stops where the code panics and where a safety check of
  the language does (an index past the end, a subtraction below zero, the three-bit counter of
  `allocPage` past seven). Addresses and page numbers are natural numbers; the sums that
  the code checks are checked here, the others stay far below 2^64 because `total_pages` does.

  Left out: the lock (every function holds it from its first to its last access), the console,
  and what lies in the pages.
-/
import Zigk.Base.Bitmap
import Zigk.Base.Checked

namespace Zigk.Mm

/-! ## 1. Pages and the memory map -/

abbrev PAGE_SIZE : Nat := 4096

def isPageAligned (addr : Nat) : Bool := addr % PAGE_SIZE == 0

def pageAlignDown (addr : Nat) : Nat := addr - addr % PAGE_SIZE

def pageAlignUp (addr : Nat) : Option Nat :=
  if addr + (PAGE_SIZE - 1) < 2 ^ 64 then some (pageAlignDown (addr + (PAGE_SIZE - 1))) else none

/-- The types of memory the allocator tells apart; `other` is every other code. -/
inductive MemoryType where
  | Conventional
  | other (code : Nat)
  deriving DecidableEq, Repr

structure MemoryDescriptor where
  type : MemoryType
  physStart : Nat
  numPages : Nat
  deriving DecidableEq, Repr

namespace MemoryDescriptor

/-- `std.math.mul(u64, entry.num_pages, PAGE_SIZE)`. -/
def length (e : MemoryDescriptor) : Option Nat :=
  if e.numPages * PAGE_SIZE < 2 ^ 64 then some (e.numPages * PAGE_SIZE) else none

/-- `std.math.add(u64, entry.phys_start, length)`. -/
def endAddr (e : MemoryDescriptor) : Option Nat := do
  let length ← e.length
  if e.physStart + length < 2 ^ 64 then some (e.physStart + length) else none

end MemoryDescriptor

/-! ## 2. The state and its bits -/

structure Pmm where
  bitmap : Bitmap := []
  refcounts : List Nat := []
  totalPages : Nat := 0
  freePages : Nat := 0
  allocatedPages : Nat := 0
  searchHint : Nat := 0
  memoryStart : Nat := 0
  memoryEnd : Nat := 0
  initialized : Bool := false
  deriving DecidableEq, Repr

abbrev U16_MAX : Nat := 65535

namespace Pmm

def setBit (s : Pmm) (page : Nat) : Except Trap Pmm :=
  if page / 8 ≥ s.bitmap.length then .error (.panic "PMM: bitmap overflow in setBit" [])
  else .ok { s with bitmap := s.bitmap.setBit page }

def clearBit (s : Pmm) (page : Nat) : Except Trap Pmm :=
  if page / 8 ≥ s.bitmap.length then .error (.panic "PMM: bitmap overflow in clearBit" [])
  else .ok { s with bitmap := s.bitmap.clearBit page }

def isBitSet (s : Pmm) (page : Nat) : Except Trap Bool :=
  if page / 8 ≥ s.bitmap.length then .error (.panic "PMM: bitmap overflow in isBitSet" [])
  else .ok (s.bitmap.bit page)

/-- `refcounts[page]`. -/
def refcount (s : Pmm) (page : Nat) : Except Trap Nat :=
  match s.refcounts[page]? with
  | some n => .ok n
  | none => .error .indexOutOfBounds

/-- `refcounts[page] = n`. -/
def setRefcount (s : Pmm) (page n : Nat) : Except Trap Pmm :=
  if page < s.refcounts.length then .ok { s with refcounts := s.refcounts.set page n }
  else .error .indexOutOfBounds

/-- `setBit(page); refcounts[page] = 1`, which every allocation does to its pages. -/
def occupy (s : Pmm) (page : Nat) : Except Trap Pmm := do
  let s ← s.setBit page
  s.setRefcount page 1

/-- `free_pages -= n; allocated_pages += n`. -/
def countAllocated (s : Pmm) (n : Nat) : Except Trap Pmm := do
  let freePages ← Trap.sub s.freePages n
  .ok { s with freePages := freePages, allocatedPages := s.allocatedPages + n }

/-! ## 3. Initialisation -/

inductive InitError where
  | AlreadyInitialized
  | NoMemoryForBitmap
  deriving DecidableEq, Repr

/-- The first pass's sum over the usable memory, an addition that the language checks. -/
def usableMemory (memmap : List MemoryDescriptor) : Except Trap Nat :=
  memmap.foldlM (fun usable e =>
    match e.length, e.endAddr with
    | some length, some _ =>
      if e.type = .Conventional then
        if usable + length < 2 ^ 64 then .ok (usable + length) else .error .integerOverflow
      else .ok usable
    | _, _ => .ok usable) 0

def lowestUsable (memmap : List MemoryDescriptor) : Nat :=
  memmap.foldl (fun lowest e =>
    match e.endAddr with
    | some _ => if e.type = .Conventional ∧ e.physStart < lowest then e.physStart else lowest
    | none => lowest) 0xFFFFFFFFFFFFFFFF

def highestUsableEnd (memmap : List MemoryDescriptor) : Nat :=
  memmap.foldl (fun highest e =>
    match e.endAddr with
    | some endAddr =>
      if e.type = .Conventional ∧ endAddr > highest then endAddr else highest
    | none => highest) 0

def bitmapSize (totalPages : Nat) : Nat := (totalPages + 7) / 8

/-- Bitmap and reference counts, the counts aligned to two bytes. -/
def totalMetadata (totalPages : Nat) : Nat :=
  (bitmapSize totalPages + 1) / 2 * 2 + totalPages * 2

/-- The second pass: the first usable region from 1 MB on with room for the metadata. -/
def metadataPhys (memmap : List MemoryDescriptor) (totalMetadata : Nat) : Option Nat :=
  memmap.findSome? fun e => do
    let regionSize ← e.length
    if totalMetadata + PAGE_SIZE * 32 < 2 ^ 64 ∧ e.type = .Conventional ∧
        regionSize ≥ totalMetadata + PAGE_SIZE * 32 ∧ e.physStart ≥ 0x100000 then
      pageAlignUp e.physStart
    else none

/-- The pages the third pass goes through for one entry. -/
def regionPages (e : MemoryDescriptor) : List Nat :=
  if e.type = .Conventional then
    match e.endAddr, pageAlignUp e.physStart with
    | some regionEnd, some regionStart =>
      let startPage := regionStart / PAGE_SIZE
      let endPage := pageAlignDown regionEnd / PAGE_SIZE
      List.range' startPage (endPage - startPage)
    | _, _ => []
  else []

/-- `clearBit(page); refcounts[page] = 0; free_pages += 1`. -/
def markFree (s : Pmm) (page : Nat) : Except Trap Pmm := do
  let s ← s.clearBit page
  let s ← s.setRefcount page 0
  .ok { s with freePages := s.freePages + 1 }

/-- One page of `reserveRange`. -/
def reserve (s : Pmm) (p : Nat) : Except Trap Pmm := do
  if p < s.totalPages then
    if !(← s.isBitSet p) then
      let s ← s.occupy p
      .ok { s with freePages := s.freePages - 1 }
    else s.setRefcount p 1
  else .ok s

def reserveRange (s : Pmm) (start count : Nat) : Except Trap Pmm :=
  (List.range' start count).foldlM reserve s

/-- The third pass, the three reservations and the hint, once the metadata has its place. -/
def initPages (s : Pmm) (memmap : List MemoryDescriptor) (metadata : Nat) : Except Trap Pmm := do
  let s ← memmap.foldlM (fun s e => (regionPages e).foldlM markFree s) s
  let s ← s.reserveRange 0 1
  let metadataPages := (totalMetadata s.totalPages + (PAGE_SIZE - 1)) / PAGE_SIZE
  let s ← s.reserveRange (metadata / PAGE_SIZE) metadataPages
  let s ← s.reserveRange (0x100000 / PAGE_SIZE) ((0x400000 - 0x100000) / PAGE_SIZE)
  let startPage := s.memoryStart / PAGE_SIZE
  .ok { s with
    searchHint := if startPage / 8 ≥ bitmapSize s.totalPages then 0 else startPage / 8
    initialized := true }

def init (s : Pmm) (memmap : List MemoryDescriptor) : Except Trap (Except InitError Pmm) := do
  if s.initialized then return .error .AlreadyInitialized
  let _ ← usableMemory memmap
  let memoryEnd := highestUsableEnd memmap
  let totalPages := memoryEnd / PAGE_SIZE
  match metadataPhys memmap (totalMetadata totalPages) with
  | none => return .error .NoMemoryForBitmap
  | some metadata =>
    let s ← initPages
      { s with
        bitmap := List.replicate (bitmapSize totalPages) (BitVec.allOnes 8)
        refcounts := List.replicate totalPages 1
        totalPages := totalPages
        memoryStart := lowestUsable memmap
        memoryEnd := memoryEnd } memmap metadata
    return .ok s

/-! ## 4. Allocation -/

def allocSpecificPage (s : Pmm) (physAddr : Nat) : Except Trap (Pmm × Bool) := do
  if !s.initialized then return (s, false)
  if !isPageAligned physAddr then return (s, false)
  let page := physAddr / PAGE_SIZE
  if page ≥ s.totalPages then return (s, false)
  if ← s.isBitSet page then return (s, false)
  let s ← s.occupy page
  let s ← s.countAllocated 1
  return (s, true)

/-- The inner loop of `allocPage`, over the bits of one byte. Its counter has three bits. -/
def scanByte (s : Pmm) (byteIdx bit : Nat) : Except Trap (Option Nat) :=
  let pageNum := byteIdx * 8 + bit
  if pageNum ≥ s.totalPages then .ok none
  else
    match s.isBitSet pageNum with
    | .error t => .error t
    | .ok false => .ok (some pageNum)
    | .ok true => if bit < 7 then s.scanByte byteIdx (bit + 1) else .error .integerOverflow
  termination_by 7 - bit

/-- The search of `allocPage` from a byte on, around the end of the bitmap up to the hint. -/
def search (s : Pmm) (byteIdx : Nat) (wrapped : Bool) : Except Trap (Option Nat) :=
  if h : byteIdx < s.bitmap.length then
    let hit := if s.bitmap[byteIdx] ≠ BitVec.allOnes 8 then s.scanByte byteIdx 0 else .ok none
    match hit with
    | .error t => .error t
    | .ok (some page) => .ok (some page)
    | .ok none =>
      if byteIdx + 1 ≥ s.bitmap.length then
        if wrapped then .ok none
        else if s.searchHint = 0 then .ok none
        else s.search 0 true
      else if wrapped ∧ byteIdx + 1 ≥ s.searchHint then .ok none
      else s.search (byteIdx + 1) wrapped
  else .error .indexOutOfBounds
  termination_by (if wrapped then 0 else s.bitmap.length + 1) + (s.bitmap.length - byteIdx)
  decreasing_by
    · simp_all
      omega
    · omega

def allocPage (s : Pmm) : Except Trap (Pmm × Option Nat) := do
  if !s.initialized then return (s, none)
  if s.freePages = 0 then return (s, none)
  match ← s.search s.searchHint false with
  | some page =>
    let s ← s.occupy page
    let s ← s.countAllocated 1
    return ({ s with searchHint := page / 8 }, some (page * PAGE_SIZE))
  | none => return ({ s with searchHint := 0 }, none)

/-- The first of the `count` pages from `start` on that is in use: the inner loop of
    `allocPages`. -/
def firstInUse (s : Pmm) (start : Nat) : Nat → Except Trap (Option Nat)
  | 0 => .ok none
  | count + 1 =>
    match s.isBitSet start with
    | .error t => .error t
    | .ok true => .ok (some start)
    | .ok false => s.firstInUse (start + 1) count

theorem firstInUse_ge {s : Pmm} {start count p : Nat} (h : s.firstInUse start count = .ok (some p)) :
    start ≤ p := by
  induction count generalizing start with
  | zero => cases h
  | succ count ih =>
    rw [firstInUse] at h
    split at h
    · cases h
    · cases h
      exact Nat.le_refl _
    · exact Nat.le_of_succ_le (ih h)

/-- The outer loop of `allocPages`: the start of the first run of `count` free pages. -/
def findRun (s : Pmm) (count startPage : Nat) : Except Trap (Option Nat) :=
  if startPage + count ≤ s.totalPages then
    match _h : s.firstInUse startPage count with
    | .error t => .error t
    | .ok none => .ok (some startPage)
    | .ok (some p) => s.findRun count (p + 1)
  else .ok none
  termination_by s.totalPages + 1 - startPage
  decreasing_by
    have := firstInUse_ge _h
    omega

/-- One page of the allocation phase of `allocPages`. -/
def occupyFree (s : Pmm) (page : Nat) : Except Trap Pmm := do
  if ← s.isBitSet page then
    .error (.panic "PMM: allocPages found bit set during allocation phase" [])
  else s.occupy page

def allocPages (s : Pmm) (count : Nat) : Except Trap (Pmm × Option Nat) := do
  if !s.initialized ∨ count = 0 then return (s, none)
  if s.freePages < count then return (s, none)
  match ← s.findRun count 0 with
  | some startPage =>
    let s ← (List.range' startPage count).foldlM occupyFree s
    let s ← s.countAllocated count
    return (s, some (startPage * PAGE_SIZE))
  | none => return (s, none)

/-! ## 5. Reference counts -/

def refPage (s : Pmm) (physAddr : Nat) : Except Trap Pmm := do
  if !s.initialized then return s
  let page := physAddr / PAGE_SIZE
  if page ≥ s.totalPages then return s
  let n ← s.refcount page
  if n = U16_MAX then .error (.panic "PMM: Refcount overflow for page {x}" [physAddr])
  else s.setRefcount page (n + 1)

/-- `debug` is the build mode: a double free panics in debug builds only. -/
def freePage (debug : Bool) (s : Pmm) (physAddr : Nat) : Except Trap Pmm := do
  if !s.initialized then return s
  if !isPageAligned physAddr then return s
  let page := physAddr / PAGE_SIZE
  if page ≥ s.totalPages then return s
  if !(← s.isBitSet page) then
    if debug then .error (.panic "PMM: Double-free detected - possible exploit attempt" [])
    else return s
  else
    let n ← s.refcount page
    if n = 0 then .error (.panic "PMM: Refcount underflow for page {x}" [physAddr])
    else
      let s ← s.setRefcount page (n - 1)
      if n - 1 = 0 then
        let s ← s.clearBit page
        return { s with freePages := s.freePages + 1, allocatedPages := s.allocatedPages - 1 }
      else return s

end Pmm

end Zigk.Mm
