/-
  Subject:   THE MEMORY CALLS OF A PROCESS AND ITS LIMIT (sys/syscall/memory/memory.zig, and the
             VMA list of mm/user_vmm.zig).

  * `AddressSpace` -- the list of a process, its heap, `rss_current` and `rlimit_as`;
  * `mmap`, `munmapLocked`, `expandHeap`, `shrinkHeap`, `mremap` -- what happens to the list;
  * `sys_mmap`, `sys_munmap`, `sys_mremap`, `sys_brk` -- the calls, with their accounting.

  The calls are `Except Trap`: where `alignForward` overflows the kernel stops. What the allocators
  and the file say comes with the call. Left out: page tables and frames, and `total_mapped`, which
  nothing reads.
-/
import Zigk.Base.Machine
import Zigk.Mm.Pmm

namespace Zigk.Mm.Areas

def PROT_READ : Nat := 0x1
def PROT_WRITE : Nat := 0x2

def MAP_SHARED : Nat := 0x01
def MAP_PRIVATE : Nat := 0x02
def MAP_FIXED : Nat := 0x10
def MAP_ANONYMOUS : Nat := 0x20
def MAP_DEVICE : Nat := 0x1000

def MREMAP_MAYMOVE : Nat := 1
def MREMAP_FIXED : Nat := 2

def USER_MMAP_START : Nat := 0x0000_1000_0000_0000
def USER_MMAP_END : Nat := 0x0000_7FFF_FFFF_FFFF
def USER_SPACE_END : Nat := 0x0000_7FFF_FFFF_FFFF

def maxInt : Nat := 2 ^ 64 - 1

inductive Errno where
  | EPERM
  | EBADF
  | ENOMEM
  | EFAULT
  | ENODEV
  | EINVAL
  | ENOSYS
  deriving DecidableEq, Repr

/-- A number rounded up to whole pages; `alignForward` adds before it rounds down. -/
def roundUp (n : Nat) : Nat := pageAlignDown (n + (PAGE_SIZE - 1))

def alignForward (n : Nat) : Except Trap Nat :=
  match pageAlignUp n with
  | some m => .ok m
  | none => .error .integerOverflow

/-- `@truncate` to a `u32`. -/
def truncate (n : Nat) : Nat := n % 2 ^ 32

/-! ## 1. VMAs -/

inductive VmaType where
  | Anonymous
  | File
  | Device
  deriving DecidableEq, Repr

/-- Who made a VMA: one of the memory calls, the DMA calls of the two kinds, or something else. -/
inductive Maker where
  | memory
  | dma
  | iommu
  | other
  deriving DecidableEq, Repr

/-- `stop` is exclusive. `made` is history: who made this VMA, or one that it was a part of. -/
structure Area where
  start : Nat
  stop : Nat
  prot : Nat
  flags : Nat
  vma_type : VmaType
  made : Maker
  deriving DecidableEq, Repr

namespace Area

variable (v : Area)

def size : Nat := v.stop - v.start

def contains (addr : Nat) : Bool := v.start ≤ addr && addr < v.stop

def overlaps (start stop : Nat) : Bool := v.start < stop && start < v.stop

end Area

/-- The VMAs come one after another, and none is empty. -/
structure Ordered (l : List Area) : Prop where
  apart : l.Pairwise fun v w => v.stop ≤ w.start
  solid : ∀ v ∈ l, v.start < v.stop

structure AddressSpace where
  /-- Sorted by start. -/
  vmas : List Area
  mmap_base : Nat
  heap_start : Nat
  heap_break : Nat
  rss_current : Nat := 0
  rlimit_as : Nat
  deriving DecidableEq, Repr

/-- What the allocators say to a call: whether all pages can be had and mapped, and whether a VMA
    can be had. -/
structure Memory where
  pages : Bool
  vma : Bool
  deriving DecidableEq, Repr

/-! ## 2. The list -/

def insertVma (vma : Area) : List Area → List Area
  | [] => [vma]
  | c :: l => if vma.start < c.start then vma :: c :: l else c :: insertVma vma l

def findOverlappingVma (start stop : Nat) (l : List Area) : Option Area :=
  l.find? fun v => v.overlaps start stop

/-- `findFreeRange`, from a search address on. -/
def freeFrom (size : Nat) : Nat → List Area → Option Nat
  | search_addr, [] =>
    if search_addr > maxInt - size then none
    else if search_addr + size ≤ USER_MMAP_END then some search_addr
    else none
  | search_addr, v :: l =>
    if search_addr > maxInt - size then none
    else if search_addr + size ≤ v.start then some search_addr
    else freeFrom size v.stop l

/-- The first VMA of that kind becomes others, or none. -/
def replaceFirst (p : Area → Bool) (f : Area → List Area) : List Area → List Area
  | [] => []
  | v :: l => if p v then f v ++ l else v :: replaceFirst p f l

/-- The loop of `munmapLocked`. A split needs a VMA for its right part, which goes into the list
    behind the left one; without it the loop ends there. -/
def unmapVmas (granted : Bool) (addr end_addr : Nat) : List Area → List Area × Bool
  | [] => ([], true)
  | v :: l =>
    if v.overlaps addr end_addr then
      if addr ≤ v.start ∧ end_addr ≥ v.stop then unmapVmas granted addr end_addr l
      else if addr ≤ v.start then
        let r := unmapVmas granted addr end_addr l
        ({ v with start := min end_addr v.stop } :: r.1, r.2)
      else if end_addr ≥ v.stop then
        let r := unmapVmas granted addr end_addr l
        ({ v with stop := max addr v.start } :: r.1, r.2)
      else if granted then
        let r := unmapVmas granted addr end_addr l
        (insertVma { v with start := end_addr, vma_type := .Anonymous }
          ({ v with stop := addr } :: r.1), r.2)
      else (v :: l, false)
    else
      let r := unmapVmas granted addr end_addr l
      (v :: r.1, r.2)

namespace AddressSpace

variable (s : AddressSpace)

def setVmas (vmas : List Area) : AddressSpace := { s with vmas := vmas }

def findFreeRange (size : Nat) : Option Nat := freeFrom size s.mmap_base s.vmas

/-! ## 3. `UserVmm` -/

/-- The address of a mapping: the one that was asked for, or a free one. -/
def mapAddr (addr aligned_len flags : Nat) : Except Errno Nat :=
  if flags &&& MAP_FIXED ≠ 0 then
    if !isPageAligned addr then .error .EINVAL
    else if addr > maxInt - aligned_len then .error .ENOMEM
    else if addr < USER_MMAP_START ∨ addr + aligned_len > USER_MMAP_END then .error .ENOMEM
    else if (findOverlappingVma addr (addr + aligned_len) s.vmas).isSome then .error .ENOMEM
    else .ok addr
  else
    match s.findFreeRange aligned_len with
    | none => .error .ENOMEM
    | some a => .ok a

/-- Anonymous memory. -/
def mmap (addr len prot flags : Nat) (mem : Memory) :
    Except Trap (AddressSpace × Except Errno Nat) := do
  if flags &&& MAP_ANONYMOUS = 0 then return (s, .error .ENOSYS)
  if len = 0 then return (s, .error .EINVAL)
  let aligned_len ← alignForward len
  match s.mapAddr addr aligned_len flags with
  | .error e => return (s, .error e)
  | .ok a =>
    if mem.vma then
      return (s.setVmas (insertVma ⟨a, a + aligned_len, prot, flags, .Anonymous, .memory⟩
        s.vmas), .ok a)
    else return (s, .error .ENOMEM)

def munmapLocked (addr len : Nat) (mem : Memory) :
    Except Trap (AddressSpace × Except Errno Unit) := do
  if !isPageAligned addr then return (s, .error .EINVAL)
  if len = 0 then return (s, .error .EINVAL)
  let aligned_len ← alignForward len
  if addr > maxInt - aligned_len then return (s, .error .EINVAL)
  match unmapVmas mem.vma addr (addr + aligned_len) s.vmas with
  | (vmas, true) => return (s.setVmas vmas, .ok ())
  | (vmas, false) => return (s.setVmas vmas, .error .ENOMEM)

/-- The new VMA of `expandHeap`. -/
def heapVma (old_brk new_brk : Nat) (mem : Memory) : AddressSpace × Except Errno Unit :=
  if mem.vma then
    (s.setVmas (insertVma
      ⟨old_brk, new_brk, PROT_READ ||| PROT_WRITE, MAP_PRIVATE ||| MAP_ANONYMOUS, .Anonymous,
        .memory⟩ s.vmas), .ok ())
  else (s, .error .ENOMEM)

/-- The VMA that ends at the break and is like a heap is extended. -/
def expandHeap (old_brk new_brk : Nat) (mem : Memory) : AddressSpace × Except Errno Unit :=
  if new_brk ≤ old_brk then (s, .ok ())
  else if !mem.pages then (s, .error .ENOMEM)
  else
    let check_addr := if old_brk > 0 then old_brk - 1 else 0
    match findOverlappingVma check_addr old_brk s.vmas with
    | some vma =>
      if vma.stop = old_brk ∧ vma.prot = PROT_READ ||| PROT_WRITE ∧
          vma.flags = MAP_PRIVATE ||| MAP_ANONYMOUS then
        (s.setVmas (replaceFirst (fun v => v.overlaps check_addr old_brk)
          (fun v => [{ v with stop := new_brk }]) s.vmas), .ok ())
      else s.heapVma old_brk new_brk mem
    | none => s.heapVma old_brk new_brk mem

/-- The first VMA in the range is cut, or removed if it starts there. -/
def shrinkHeap (old_brk new_brk : Nat) : AddressSpace :=
  if new_brk ≥ old_brk then s
  else
    s.setVmas (replaceFirst (fun v => v.overlaps new_brk old_brk)
      (fun v => if v.start ≥ new_brk then [] else [{ v with stop := new_brk }]) s.vmas)

/-- Whether the range behind `old_end` is free. -/
def canGrowInPlace (old_end new_end : Nat) : Bool :=
  (findOverlappingVma old_end new_end s.vmas).isNone && !(new_end > USER_MMAP_END)

def mremap (old_addr old_size new_size flags : Nat) (mem : Memory) :
    Except Trap (AddressSpace × Except Errno Nat) := do
  if !isPageAligned old_addr then return (s, .error .EINVAL)
  let aligned_old_size ← alignForward old_size
  let aligned_new_size ← alignForward new_size
  if old_addr > maxInt - aligned_old_size then return (s, .error .EINVAL)
  if old_addr > maxInt - aligned_new_size then return (s, .error .ENOMEM)
  let old_end := old_addr + aligned_old_size
  let new_end := old_addr + aligned_new_size
  match s.vmas.find? fun v => v.contains old_addr with
  | none => return (s, .error .EFAULT)
  | some v =>
    if old_end > v.stop then return (s, .error .EFAULT)
    if aligned_new_size ≤ aligned_old_size then
      return (s.setVmas (replaceFirst (fun v => v.contains old_addr)
        (fun v => [{ v with stop := new_end }]) s.vmas), .ok old_addr)
    if s.canGrowInPlace old_end new_end then
      if !mem.pages then return (s, .error .ENOMEM)
      return (s.setVmas (replaceFirst (fun v => v.contains old_addr)
        (fun v => [{ v with stop := new_end }]) s.vmas), .ok old_addr)
    if flags &&& 1 = 0 then return (s, .error .ENOMEM)
    match s.findFreeRange aligned_new_size with
    | none => return (s, .error .ENOMEM)
    | some new_addr =>
      if !mem.pages then return (s, .error .ENOMEM)
      -- the VMA is removed as a whole, also if the old range is a part of it
      let rest := replaceFirst (fun v => v.contains old_addr) (fun _ => []) s.vmas
      if !mem.vma then return (s.setVmas rest, .error .ENOMEM)
      return (s.setVmas (insertVma
        ⟨new_addr, new_addr + aligned_new_size, v.prot, v.flags, .Anonymous, .memory⟩
        rest), .ok new_addr)

/-! ## 4. The calls -/

/-- What the file says to `mmap`: whether it has an address, and how large the region is. -/
structure Region where
  hasPhys : Bool
  actual_size : Nat
  deriving DecidableEq, Repr

/-- The half of `sys_mmap` that maps a file. -/
def mmapFile (aligned_len prot : Nat) (file : Except Errno (Nat → Region)) (mem : Memory) :
    Except Trap (AddressSpace × Except Errno Nat) := do
  match file with
  | .error e => return (s, .error e)
  | .ok mmap_fn =>
    let r := mmap_fn aligned_len
    if !r.hasPhys then return (s, .error .EINVAL)
    if r.actual_size = 0 then return (s, .error .EINVAL)
    let map_size ← alignForward r.actual_size
    match s.findFreeRange map_size with
    | none => return (s, .error .ENOMEM)
    | some virt_addr =>
      if !mem.pages then return (s, .error .ENOMEM)
      if !mem.vma then return (s, .error .ENOMEM)
      let s := s.setVmas (insertVma
        ⟨virt_addr, virt_addr + map_size, truncate prot, MAP_SHARED ||| MAP_DEVICE, .Anonymous,
          .memory⟩ s.vmas)
      return ({ s with rss_current := s.rss_current + map_size }, .ok virt_addr)

/-- The limit as `sys_mmap` and `sys_brk` check it. -/
def exceeds (size : Nat) : Bool :=
  s.rss_current + size > maxInt || s.rss_current + size > s.rlimit_as

def sys_mmap (addr len prot flags : Nat) (file : Except Errno (Nat → Region)) (mem : Memory) :
    Except Trap (AddressSpace × Except Errno Nat) := do
  if len = 0 then return (s, .error .EINVAL)
  let aligned_len ← alignForward len
  if s.exceeds aligned_len then return (s, .error .ENOMEM)
  if flags &&& MAP_ANONYMOUS ≠ 0 then
    match ← s.mmap addr len (truncate prot) (truncate flags) mem with
    | (s, .ok a) => return ({ s with rss_current := s.rss_current + aligned_len }, .ok a)
    | (s, .error .EINVAL) => return (s, .error .EINVAL)
    | (s, .error _) => return (s, .error .ENOMEM)
  else s.mmapFile aligned_len prot file mem

def sys_munmap (addr len : Nat) (mem : Memory) :
    Except Trap (AddressSpace × Except Errno Nat) := do
  match ← s.munmapLocked addr len mem with
  | (s, .ok ()) =>
    let aligned_len ← alignForward len
    return ({ s with rss_current := s.rss_current - aligned_len }, .ok 0)
  | (s, .error _) => return (s, .error .EINVAL)

def sys_mremap (old_addr old_size new_size flags : Nat) (mem : Memory) :
    Except Trap (AddressSpace × Except Errno Nat) := do
  if old_size = 0 ∨ new_size = 0 then return (s, .error .EINVAL)
  if !isPageAligned old_addr then return (s, .error .EINVAL)
  if flags &&& MREMAP_FIXED ≠ 0 then return (s, .error .EINVAL)
  if flags ≠ flags &&& MREMAP_MAYMOVE then return (s, .error .EINVAL)
  s.mremap old_addr old_size new_size (truncate flags) mem

def sys_brk (brk : Nat) (mem : Memory) : Except Trap (AddressSpace × Except Errno Nat) := do
  if brk = 0 then return (s, .ok s.heap_break)
  if brk < s.heap_start then return (s, .error .EINVAL)
  if brk > USER_SPACE_END then return (s, .ok s.heap_break)
  if brk > s.heap_break ∧ s.exceeds (brk - s.heap_break) then return (s, .error .ENOMEM)
  let current_break_aligned ← alignForward s.heap_break
  let new_break_aligned ← alignForward brk
  if new_break_aligned > USER_SPACE_END then return (s, .ok s.heap_break)
  if new_break_aligned > current_break_aligned then
    if (findOverlappingVma current_break_aligned new_break_aligned s.vmas).isSome then
      return (s, .error .ENOMEM)
    match s.expandHeap current_break_aligned new_break_aligned mem with
    | (s, .error _) => return (s, .error .ENOMEM)
    | (s, .ok ()) =>
      return ({ s with
          rss_current := s.rss_current + (new_break_aligned - current_break_aligned)
          heap_break := new_break_aligned }, .ok new_break_aligned)
  else if new_break_aligned < current_break_aligned then
    let s := s.shrinkHeap current_break_aligned new_break_aligned
    return ({ s with
        rss_current := s.rss_current - (current_break_aligned - new_break_aligned)
        heap_break := new_break_aligned }, .ok new_break_aligned)
  else return ({ s with heap_break := new_break_aligned }, .ok new_break_aligned)

end AddressSpace

/-! ## 5. Runs -/

inductive MemoryCall where
  | mmap (addr len prot flags : Nat) (file : Except Errno (Nat → AddressSpace.Region))
    (mem : Memory)
  | munmap (addr len : Nat) (mem : Memory)
  | mremap (old_addr old_size new_size flags : Nat) (mem : Memory)
  | brk (brk : Nat) (mem : Memory)

namespace AddressSpace

def call (s : AddressSpace) : MemoryCall → Except Trap (AddressSpace × Except Errno Nat)
  | .mmap addr len prot flags file mem => s.sys_mmap addr len prot flags file mem
  | .munmap addr len mem => s.sys_munmap addr len mem
  | .mremap old_addr old_size new_size flags mem =>
    s.sys_mremap old_addr old_size new_size flags mem
  | .brk brk mem => s.sys_brk brk mem

end AddressSpace

/-- A process as the loader leaves it: with VMAs that none of the calls has made. -/
def memoryCalls : Machine (Except Trap AddressSpace) MemoryCall where
  start r := ∃ s, r = .ok s ∧ Ordered s.vmas ∧ (∀ v ∈ s.vmas, v.made ≠ .memory) ∧ s.rss_current = 0
  step r c := r >>= fun s => Prod.fst <$> s.call c

end Zigk.Mm.Areas
