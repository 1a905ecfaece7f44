/-
  Subject:   MEMFDS AND THEIR MAPPINGS (sys/syscall/memory/memory.zig, the memfd half of sys_mmap,
             and munmap of mm/user_vmm.zig).

  Three parties: the page allocator, the memfds with their buffers of frames, and the processes
  with their VMAs and page tables. A memfd mapping takes no count on its frames: its VMA has
  `MAP_DEVICE`, which keeps munmap from freeing them.

  A memfd is named by its place in `memfds`; a closed one stays there without references. The
  page table of a process is a map from virtual page numbers to frame numbers. The call
  `mmap` gets with it what the rest of the process decides: the free range found for it, and
  whether the page tables and the VMA could be allocated.

  Left out: the bytes in the buffers; VMAs of other kinds, which cover other addresses. The
  frames that anything else owns are `others`; it takes them from the allocator and gives them
  back as it likes.
-/
import Zigk.Mm.PmmInvariant

namespace Zigk.Mm

open Function

/-! ## 1. Memfds -/

structure MemfdState where
  /-- `buffer` is not null. -/
  hasBuffer : Bool := false
  physAddr : Nat := 0
  capacity : Nat := 0
  size : Nat := 0
  refCount : Nat := 1
  /-- Of the file descriptor. -/
  position : Nat := 0
  deriving DecidableEq, Repr

abbrev MAP_SHARED : Nat := 0x01
abbrev MAP_DEVICE : Nat := 0x1000

/-- A virtual memory area; `stop` is exclusive. -/
structure Vma where
  start : Nat
  stop : Nat
  prot : Nat
  flags : Nat
  deriving DecidableEq, Repr

structure Process where
  vmas : List Vma := []
  /-- Virtual page number to frame number. -/
  pt : Nat → Option Nat := fun _ => none
  rssCurrent : Nat := 0
  rlimitAs : Nat := 0

structure Memfds where
  pmm : Pmm
  memfds : List MemfdState := []
  procs : Nat → Process := fun _ => {}
  others : List Nat := []

def pageAlignLen (len : Nat) : Nat := pageAlignDown (len + (PAGE_SIZE - 1))

/-- `freePage` of `count` pages from an address on. -/
def freeFrames (debug : Bool) (pmm : Pmm) (physAddr count : Nat) : Except Trap Pmm :=
  (List.range count).foldlM (fun pmm i => Pmm.freePage debug pmm (physAddr + i * PAGE_SIZE)) pmm

namespace MemfdState

/-- `false` is `error.ENOMEM`. -/
def ensureCapacity (debug : Bool) (pmm : Pmm) (m : MemfdState) (newCap : Nat) :
    Except Trap (Pmm × MemfdState × Bool) := do
  if newCap ≤ m.capacity then return (pmm, m, true)
  if newCap + (PAGE_SIZE - 1) ≥ 2 ^ 64 then throw .integerOverflow
  let alignedCap := pageAlignLen newCap
  match ← pmm.allocPages (alignedCap / PAGE_SIZE) with
  | (pmm, none) => return (pmm, m, false)
  | (pmm, some newPhys) =>
    let pmm ←
      if m.hasBuffer then freeFrames debug pmm m.physAddr (m.capacity / PAGE_SIZE) else pure pmm
    return (pmm, { m with hasBuffer := true, physAddr := newPhys, capacity := alignedCap }, true)

def truncate (debug : Bool) (pmm : Pmm) (m : MemfdState) (newSize : Nat) :
    Except Trap (Pmm × MemfdState) := do
  if newSize > m.size then
    let (pmm, m, ok) ← m.ensureCapacity debug pmm newSize
    if ok then return (pmm, { m with size := newSize }) else return (pmm, m)
  else return (pmm, { m with size := newSize })

def ref (m : MemfdState) : MemfdState := { m with refCount := m.refCount + 1 }

/-- The last reference frees the buffer. -/
def unref (debug : Bool) (pmm : Pmm) (m : MemfdState) : Except Trap (Pmm × MemfdState) := do
  let pmm ←
    if m.refCount = 1 then freeFrames debug pmm m.physAddr (m.capacity / PAGE_SIZE) else pure pmm
  return (pmm, { m with refCount := m.refCount - 1 })

def memfdWrite (debug : Bool) (pmm : Pmm) (m : MemfdState) (len : Nat) :
    Except Trap (Pmm × MemfdState) := do
  let m := m.ref
  let writeEnd := m.position + len
  let (pmm, m, ok) ← m.ensureCapacity debug pmm writeEnd
  let m :=
    if ok && m.hasBuffer then
      { m with
        size := if writeEnd > m.size then writeEnd else m.size
        position := m.position + len }
    else m
  m.unref debug pmm

def memfdTruncate (debug : Bool) (pmm : Pmm) (m : MemfdState) (length : Nat) :
    Except Trap (Pmm × MemfdState) := do
  let (pmm, m) ← m.ref.truncate debug pmm length
  m.unref debug pmm

/-- Address and size of the buffer; no buffer is address 0. -/
def memfdMmap (m : MemfdState) : Nat × Nat :=
  if m.hasBuffer then (m.physAddr, m.capacity) else (0, 0)

end MemfdState

/-! ## 2. Mappings -/

namespace Vma

def overlaps (v : Vma) (start stop : Nat) : Bool := v.start < stop && start < v.stop

def pageCount (v : Vma) : Nat := (v.stop - v.start) / PAGE_SIZE

end Vma

/-- A page table without its entries for the pages of `len` bytes from `start` on. -/
def unmapRange (pt : Nat → Option Nat) (start len : Nat) : Nat → Option Nat := fun v =>
  if start / PAGE_SIZE ≤ v ∧ v < start / PAGE_SIZE + len / PAGE_SIZE then none else pt v

/-- `mapRange`: the frames from `physAddr` on at the pages from `virt` on. -/
def mapRange (pt : Nat → Option Nat) (virt physAddr size : Nat) : Nat → Option Nat := fun v =>
  if virt / PAGE_SIZE ≤ v ∧ v < virt / PAGE_SIZE + size / PAGE_SIZE then
    some (physAddr / PAGE_SIZE + (v - virt / PAGE_SIZE))
  else pt v

/-- Unmaps the pages of a VMA, and frees their frames unless they are a device's. -/
def freeVmaPages (debug : Bool) (pmm : Pmm) (pt : Nat → Option Nat) (v : Vma) :
    Except Trap (Pmm × (Nat → Option Nat)) :=
  (List.range v.pageCount).foldlM (fun (s : Pmm × (Nat → Option Nat)) i => do
    let page := v.start / PAGE_SIZE + i
    match s.2 page with
    | none => return s
    | some frame =>
      let pt := update s.2 page none
      if v.flags &&& MAP_DEVICE = 0 then
        let pmm ← Pmm.freePage debug s.1 (frame * PAGE_SIZE)
        return (pmm, pt)
      else return (s.1, pt)) (pmm, pt)

/-- The loop of `munmapLocked` over the VMAs. With `oom` the VMA for the right part of a split
    cannot be had, and the loop ends there. -/
def munmapVmas (debug oom : Bool) (addr endAddr : Nat) (pmm : Pmm) (pt : Nat → Option Nat) :
    List Vma → Except Trap (Pmm × (Nat → Option Nat) × List Vma × Bool)
  | [] => return (pmm, pt, [], true)
  | v :: vmas => do
      if v.overlaps addr endAddr then
        if addr ≤ v.start ∧ endAddr ≥ v.stop then
          let (pmm, pt) ← freeVmaPages debug pmm pt v
          munmapVmas debug oom addr endAddr pmm pt vmas
        else if addr ≤ v.start then
          let unmapEnd := min endAddr v.stop
          let pt := unmapRange pt v.start (unmapEnd - v.start)
          let (pmm, pt, vmas, ok) ← munmapVmas debug oom addr endAddr pmm pt vmas
          return (pmm, pt, { v with start := unmapEnd } :: vmas, ok)
        else if endAddr ≥ v.stop then
          let unmapStart := max addr v.start
          let pt := unmapRange pt unmapStart (v.stop - unmapStart)
          let (pmm, pt, vmas, ok) ← munmapVmas debug oom addr endAddr pmm pt vmas
          return (pmm, pt, { v with stop := unmapStart } :: vmas, ok)
        else if oom then return (pmm, pt, v :: vmas, false)
        else
          let pt := unmapRange pt addr (endAddr - addr)
          let (pmm, pt, vmas, ok) ← munmapVmas debug oom addr endAddr pmm pt vmas
          return (pmm, pt, { v with stop := addr } :: { v with start := endAddr } :: vmas, ok)
      else
        let (pmm, pt, vmas, ok) ← munmapVmas debug oom addr endAddr pmm pt vmas
        return (pmm, pt, v :: vmas, ok)

def munmap (debug oom : Bool) (pmm : Pmm) (p : Process) (addr len : Nat) :
    Except Trap (Pmm × Process) := do
  if !isPageAligned addr then return (pmm, p)
  if len = 0 then return (pmm, p)
  let alignedLen := pageAlignLen len
  if addr > 2 ^ 64 - 1 - alignedLen then return (pmm, p)
  let (pmm, pt, vmas, ok) ← munmapVmas debug oom addr (addr + alignedLen) pmm p.pt p.vmas
  let p := { p with pt := pt, vmas := vmas }
  if ok then return (pmm, { p with rssCurrent := p.rssCurrent - alignedLen }) else return (pmm, p)

/-- The VMA list is sorted by start. -/
def insertVma (vma : Vma) : List Vma → List Vma
  | [] => [vma]
  | v :: vmas => if vma.start < v.start then vma :: v :: vmas else v :: insertVma vma vmas

/-- What an `mmap` call meets in the rest of its process: the range found for it, the number of
    pages after which `mapPage` fails, and whether the VMA could be allocated. -/
structure MmapEnv where
  virt : Option Nat
  fails : Option Nat
  vma : Bool
  deriving DecidableEq, Repr

/-- `sys_mmap` of a memfd. -/
def sysMmap (env : MmapEnv) (m : MemfdState) (p : Process) (len prot : Nat) : Process :=
  if len = 0 then p
  else if p.rssCurrent + pageAlignLen len > p.rlimitAs then p
  else
    let (physAddr, actualSize) := m.memfdMmap
    if physAddr = 0 ∨ actualSize = 0 then p
    else
      let mapSize := pageAlignLen actualSize
      match env.virt with
      | none => p
      | some virt =>
        match env.fails with
        | some mapped =>
          { p with pt := unmapRange p.pt virt (min (mapped * PAGE_SIZE) mapSize) }
        | none =>
          let pt := mapRange p.pt virt physAddr mapSize
          if !env.vma then { p with pt := unmapRange pt virt mapSize }
          else
            { p with
              pt := pt
              vmas := insertVma ⟨virt, virt + mapSize, prot, MAP_SHARED ||| MAP_DEVICE⟩ p.vmas
              rssCurrent := p.rssCurrent + mapSize }

/-! ## 3. Runs -/

inductive MemfdEvent where
  | create
  | seek (m pos : Nat)
  | write (m len : Nat)
  | truncate (m length : Nat)
  | close (m : Nat)
  | mmap (env : MmapEnv) (m proc len prot : Nat)
  | munmap (oom : Bool) (proc addr len : Nat)
  | otherAlloc
  | otherFree (frame : Nat)
  deriving DecidableEq, Repr

namespace Memfds

/-- An operation on the memfd `i`, where that still has a file descriptor. -/
def onMemfd (s : Memfds) (i : Nat) (f : Pmm → MemfdState → Except Trap (Pmm × MemfdState)) :
    Except Trap Memfds :=
  match s.memfds[i]? with
  | none => .ok s
  | some m =>
    if m.refCount = 0 then .ok s
    else do
      let (pmm, m) ← f s.pmm m
      return { s with pmm := pmm, memfds := s.memfds.set i m }

def mmap (s : Memfds) (env : MmapEnv) (i proc len prot : Nat) : Memfds :=
  match s.memfds[i]? with
  | none => s
  | some m =>
    if m.refCount = 0 then s
    else { s with procs := update s.procs proc (sysMmap env m (s.procs proc) len prot) }

def handle (debug : Bool) (s : Memfds) : MemfdEvent → Except Trap Memfds
  | .create => .ok { s with memfds := s.memfds ++ [{}] }
  | .seek i pos => s.onMemfd i fun pmm m => .ok (pmm, { m with position := pos })
  | .write i len => s.onMemfd i fun pmm m => m.memfdWrite debug pmm len
  | .truncate i length => s.onMemfd i fun pmm m => m.memfdTruncate debug pmm length
  | .close i => s.onMemfd i fun pmm m => m.unref debug pmm
  | .mmap env i proc len prot => .ok (s.mmap env i proc len prot)
  | .munmap oom proc addr len => do
      let (pmm, p) ← Mm.munmap debug oom s.pmm (s.procs proc) addr len
      return { s with pmm := pmm, procs := update s.procs proc p }
  | .otherAlloc => do
      match ← s.pmm.allocPage with
      | (pmm, some a) => return { s with pmm := pmm, others := a / PAGE_SIZE :: s.others }
      | (pmm, none) => return { s with pmm := pmm }
  | .otherFree frame =>
    if frame ∈ s.others then do
      let pmm ← Pmm.freePage debug s.pmm (frame * PAGE_SIZE)
      return { s with pmm := pmm, others := s.others.erase frame }
    else .ok s

end Memfds

/-- The system from an initialised allocator on, before the first memfd. Processes may have any
    limit. -/
def memfdMachine (debug : Bool) : Machine (Except Trap Memfds) MemfdEvent where
  start r := ∃ memmap pmm, ∃ limit : Nat → Nat, MemmapOk memmap ∧
    Pmm.init {} memmap = .ok (.ok pmm) ∧
    r = .ok { pmm := pmm, procs := fun p => { rlimitAs := limit p } }
  step r e := r >>= fun s => s.handle debug e

end Zigk.Mm
