/-
  Subject:   THE DMA BUFFERS OF A PROCESS (sys/syscall/memory/mmio.zig, with `munmapLocked` of
             mm/user_vmm.zig and the domains of mm/iommu/domain.zig).

  * `DmaProcess` -- the VMAs, the frames behind them, the accounts, and what the IOMMU maps;
  * `munmapLocked` -- with the frames that it returns, and the ones that it leaves behind;
  * `allocDmaBuffer`, `freeDmaBuffer` -- device addresses;
  * `sys_alloc_dma`, `sys_free_dma`, `sys_alloc_iommu_dma`, `sys_free_iommu_dma`, `sys_munmap`;
  * `dmaCalls` -- a process that makes them in any order.

  What the allocators and the hardware say comes with a call. The PMM hands out only frames that
  nobody holds; what it makes of a frame that it gets a second time is its own matter. Left out: the
  contents of buffers, `total_mapped`, the accounting of `sys_munmap` (`AddressSpace.sys_munmap`),
  and which IOVAs are free: what is proved holds whatever address the allocator gives.
-/
import Zigk.Mm.AddressSpace

namespace Zigk.Mm.Dma

open Areas

def MAX_DMA_PAGES_PER_ALLOC : Nat := 16384

structure DeviceBdf where
  bus : Nat
  device : Nat
  func : Nat
  deriving DecidableEq, Repr

def DeviceBdf.fromRaw (raw : Nat) : DeviceBdf :=
  ⟨raw >>> 8 % 2 ^ 8, raw >>> 3 &&& 0x1F, raw &&& 0x7⟩

structure IommuDmaCapability where
  bdf : DeviceBdf
  max_size : Nat
  iommu_required : Bool
  deriving DecidableEq, Repr

inductive Capability where
  | DmaMemory (max_pages : Nat)
  | IommuDma (cap : IommuDmaCapability)
  | other
  deriving DecidableEq, Repr

/-- A page of device addresses that a domain maps. Each device has a domain of its own. -/
structure Mapping where
  bdf : DeviceBdf
  page : Nat
  frame : Nat
  deriving DecidableEq, Repr

/-- The pages of a range, or the frames. -/
def pagesFrom (addr count : Nat) : List Nat := (List.range count).map fun i => addr + i * PAGE_SIZE

/-- Where a page table of a domain looks for an address. -/
def ioPage (iova : Nat) : Nat := iova / PAGE_SIZE % 2 ^ 36

/-- `m` is where the domain of `bdf` looks for one of the pages. -/
def Mapping.within (bdf : DeviceBdf) (iova count : Nat) (m : Mapping) : Bool :=
  m.bdf = bdf && (pagesFrom iova count).any fun a => m.page = ioPage a

/-- What a call that allocates hears: whether the pointer is good, which frames there are, whether
    page tables and a VMA can be had, and whether the result can be written. Then the IOMMU: the
    device address, how many pages can be mapped there, and whether the IOTLB was invalidated, after
    the mapping and after its end. -/
structure Answers where
  access : Bool
  phys : Option Nat
  pages : Bool
  vma : Bool
  copied : Bool
  iova : Option Nat
  mappable : Nat
  invalidated : Bool
  undone : Bool
  deriving DecidableEq, Repr

structure DmaProcess where
  vmas : List Area
  mmap_base : Nat
  /-- The page tables of the process. -/
  translate : Nat → Option Nat
  capabilities : List Capability
  dma_allocated_pages : Nat := 0
  iommu_allocated_bytes : Nat := 0
  /-- Whether there is an IOMMU. -/
  isAvailable : Bool
  /-- The tables of the domains, and what the IOTLB may still hold. -/
  mapped : List Mapping := []
  stale : List Mapping := []
  /-- History: the frames that were obtained for DMA, the ones that were returned, and the ones that
      a device could reach when they were. -/
  taken : List Nat := []
  returned : List Nat := []
  early : List Nat := []

def ofDma (m : Maker) : Bool := m = .dma || m = .iommu

/-- A VMA of one of the DMA calls. -/
def isDma (v : Area) : Bool := ofDma v.made

def pagesOf (v : Area) : List Nat :=
  pagesFrom v.start (v.size / PAGE_SIZE)

namespace DmaProcess

variable (s : DmaProcess)

def getDmaCapabilityLimit : Nat :=
  (s.capabilities.findSome? fun
    | .DmaMemory max_pages => some max_pages
    | _ => none).getD 0

def getIommuDmaCapability (bdf : DeviceBdf) : Option IommuDmaCapability :=
  s.capabilities.findSome? fun
    | .IommuDma cap => if cap.bdf = bdf then some cap else none
    | _ => none

/-! ## 1. Frames and pages -/

/-- The frames behind a VMA. -/
def frames (v : Area) : List Nat := (pagesOf v).filterMap s.translate

/-- The frames behind the VMAs of some makers. -/
def framesOf (q : Maker → Bool) : List Nat := (s.vmas.filter fun v => q v.made).flatMap s.frames

/-- Whether a device can reach a frame. -/
def reaches (frame : Nat) : Bool := (s.mapped ++ s.stale).any fun m => m.frame = frame

/-- Frames go back to the PMM. -/
def giveBack (fs : List Nat) : DmaProcess :=
  { s with returned := s.returned ++ fs, early := s.early ++ fs.filter s.reaches }

def freePages (phys count : Nat) : DmaProcess := s.giveBack (pagesFrom phys count)

/-- The PMM answers with frames that nobody holds, if it does. -/
def allocZeroedPages (count : Nat) : Option Nat → Option (DmaProcess × Nat)
  | some phys =>
    if isPageAligned phys &&
        (pagesFrom phys count).all fun f => s.taken.count f ≤ s.returned.count f then
      some ({ s with taken := s.taken ++ pagesFrom phys count }, phys)
    else none
  | none => none

def findFreeRange (size : Nat) : Option Nat := freeFrom size s.mmap_base s.vmas

/-- Whether `mapRange` goes through; if not, it maps nothing. -/
def canMap (virt count : Nat) (pages : Bool) : Bool :=
  pages && isPageAligned virt && (pagesFrom virt count).all fun a => (s.translate a).isNone

def mapRange (virt phys size : Nat) : DmaProcess :=
  { s with translate := fun a =>
      if virt ≤ a ∧ a < virt + size then some (phys + (a - virt)) else s.translate a }

def unmapRange (start stop : Nat) : DmaProcess :=
  { s with translate := fun a => if start ≤ a ∧ a < stop then none else s.translate a }

/-- The VMA of a buffer. -/
def bufferVma (virt size : Nat) (made : Maker) : Area :=
  ⟨virt, virt + size, PROT_READ ||| PROT_WRITE, MAP_SHARED ||| MAP_ANONYMOUS, .Device, made⟩

/-- From the frames to the VMA, as both calls do it. On failure the frames are returned. -/
def placeBuffer (page_count : Nat) (made : Maker) (ans : Answers) :
    DmaProcess × Except Errno (Nat × Nat) :=
  let size := page_count * PAGE_SIZE
  match s.allocZeroedPages page_count ans.phys with
  | none => (s, .error .ENOMEM)
  | some (s, phys_addr) =>
    match s.findFreeRange size with
    | none => (s.freePages phys_addr page_count, .error .ENOMEM)
    | some virt_addr =>
      if !s.canMap virt_addr page_count ans.pages then
        (s.freePages phys_addr page_count, .error .ENOMEM)
      else
        let s := s.mapRange virt_addr phys_addr size
        if !ans.vma then
          ((s.unmapRange virt_addr (virt_addr + size)).freePages phys_addr page_count,
            .error .ENOMEM)
        else
          ({ s with vmas := insertVma (bufferVma virt_addr size made) s.vmas },
            .ok (virt_addr, phys_addr))

/-- `removeVma` and the pages behind it, without the frames. -/
def withdraw (virt_addr size : Nat) (made : Maker) : DmaProcess :=
  { s with vmas := s.vmas.erase (bufferVma virt_addr size made) }.unmapRange virt_addr
    (virt_addr + size)

/-! ## 2. `munmapLocked` -/

/-- What the loop unmaps: a VMA as a whole, or a part of one. -/
def unmapped (granted : Bool) (addr end_addr : Nat) : List Area → List (Area × Bool)
  | [] => []
  | v :: l =>
    if v.overlaps addr end_addr then
      if addr ≤ v.start ∧ end_addr ≥ v.stop then (v, true) :: unmapped granted addr end_addr l
      else if addr ≤ v.start ∨ end_addr ≥ v.stop ∨ granted then
        ({ v with start := max addr v.start, stop := min end_addr v.stop }, false) ::
          unmapped granted addr end_addr l
      else []
    else unmapped granted addr end_addr l

/-- The frames of DMA among those that are returned. Of a part of a VMA none is. -/
def released (gone : List (Area × Bool)) : List Nat :=
  (gone.filter fun p => p.2 && p.1.flags &&& MAP_DEVICE = 0 && isDma p.1).flatMap fun p =>
    s.frames p.1

/-- The page tables without the pieces. -/
def clear (gone : List (Area × Bool)) : DmaProcess :=
  { s with translate := fun a => if gone.any (fun p => p.1.contains a) then none else s.translate a }

def munmapLocked (addr len : Nat) (granted : Bool) :
    Except Trap (DmaProcess × Except Errno Unit) := do
  if !isPageAligned addr then return (s, .error .EINVAL)
  if len = 0 then return (s, .error .EINVAL)
  let aligned_len ← Areas.alignForward len
  if addr > maxInt - aligned_len then return (s, .error .EINVAL)
  let gone := unmapped granted addr (addr + aligned_len) s.vmas
  let r := unmapVmas granted addr (addr + aligned_len) s.vmas
  return ({ (s.clear gone).giveBack (s.released gone) with vmas := r.1 },
    if r.2 then .ok () else .error .ENOMEM)

/-! ## 3. The IOMMU -/

/-- Entries that go away, or are written over, stay in the IOTLB. -/
def unmapIova (bdf : DeviceBdf) (iova count : Nat) : DmaProcess :=
  { s with
    mapped := s.mapped.filter fun m => !m.within bdf iova count
    stale := s.mapped.filter (Mapping.within bdf iova count) ++ s.stale }

def mapIova (bdf : DeviceBdf) (iova phys count : Nat) : DmaProcess :=
  let t := s.unmapIova bdf iova count
  { t with
    mapped := (List.range count).map
      (fun i => ⟨bdf, ioPage (iova + i * PAGE_SIZE), phys + i * PAGE_SIZE⟩) ++ t.mapped }

def invalidateIotlb (bdf : DeviceBdf) : DmaProcess :=
  { s with stale := s.stale.filter fun m => m.bdf ≠ bdf }

/-- A mapping that fails halfway stays as far as it came; the IOVA is free again. -/
def allocDmaBuffer (bdf : DeviceBdf) (phys count : Nat) (ans : Answers) :
    DmaProcess × Option Nat :=
  match ans.iova with
  | none => (s, none)
  | some iova =>
    let s := s.mapIova bdf iova phys (min ans.mappable count)
    if ans.mappable < count then (s, none)
    else if ans.invalidated then (s.invalidateIotlb bdf, some iova)
    else (s.unmapIova bdf iova count, none)

def freeDmaBuffer (bdf : DeviceBdf) (iova count : Nat) (invalidated : Bool) : DmaProcess :=
  let s := s.unmapIova bdf iova count
  if invalidated then s.invalidateIotlb bdf else s

/-! ## 4. The calls -/

def subPages (count : Nat) : DmaProcess :=
  { s with dma_allocated_pages := (s.dma_allocated_pages + 2 ^ 32 - count) % 2 ^ 32 }

def subBytes (size : Nat) : DmaProcess :=
  { s with iommu_allocated_bytes := (s.iommu_allocated_bytes + 2 ^ 64 - size) % 2 ^ 64 }

def sys_alloc_dma (page_count : Nat) (ans : Answers) :
    Except Trap (DmaProcess × Except Errno Unit) := do
  if page_count > MAX_DMA_PAGES_PER_ALLOC then return (s, .error .EINVAL)
  if page_count = 0 then return (s, .error .EINVAL)
  if !ans.access then return (s, .error .EFAULT)
  let new_pages := s.dma_allocated_pages + page_count
  if new_pages ≥ 2 ^ 32 then throw .integerOverflow
  if new_pages > s.getDmaCapabilityLimit then return (s, .error .EPERM)
  let size := page_count * PAGE_SIZE
  match { s with dma_allocated_pages := new_pages }.placeBuffer page_count .dma ans with
  | (s, .error e) => return (s.subPages page_count, .error e)
  | (s, .ok (virt_addr, phys_addr)) =>
    if ans.copied then return (s, .ok ())
    -- the handler returns the frames, and after it the `errdefer` does
    let s := (s.withdraw virt_addr size .dma).freePages phys_addr page_count
    return ((s.freePages phys_addr page_count).subPages page_count, .error .EFAULT)

/-- The checks of both calls that free. -/
def findDmaVma (virt_addr size : Nat) : Option Area :=
  match findOverlappingVma virt_addr (virt_addr + size) s.vmas with
  | none => none
  | some vma =>
    if vma.vma_type ≠ .Device then none
    else if vma.flags &&& MAP_DEVICE ≠ 0 then none
    else if vma.flags &&& MAP_ANONYMOUS = 0 then none
    else if vma.start ≠ virt_addr ∨ vma.stop ≠ virt_addr + size then none
    else some vma

def sys_free_dma (debug : Bool) (virt_addr size : Nat) (granted : Bool) :
    Except Trap (DmaProcess × Except Errno Unit) := do
  if size = 0 then return (s, .error .EINVAL)
  if virt_addr + size ≥ 2 ^ 64 then throw .integerOverflow
  if (s.findDmaVma virt_addr size).isNone then return (s, .error .EINVAL)
  match ← s.munmapLocked virt_addr size granted with
  | (s, .error _) => return (s, .error .EINVAL)
  | (s, .ok ()) =>
    let page_count := (size + PAGE_SIZE - 1) / PAGE_SIZE
    if debug && s.dma_allocated_pages < page_count then
      throw (.panic "sys_free_dma: dma_allocated_pages underflow - accounting bug" [])
    return (s.subPages page_count, .ok ())

def sys_alloc_iommu_dma (page_count device_bdf : Nat) (ans : Answers) :
    Except Trap (DmaProcess × Except Errno Unit) := do
  let bdf := DeviceBdf.fromRaw device_bdf
  if page_count > MAX_DMA_PAGES_PER_ALLOC then return (s, .error .EINVAL)
  if page_count = 0 then return (s, .error .EINVAL)
  if !ans.access then return (s, .error .EFAULT)
  match s.getIommuDmaCapability bdf with
  | none => return (s, .error .EPERM)
  | some cap =>
    let size := page_count * PAGE_SIZE
    let new_bytes := s.iommu_allocated_bytes + size
    if new_bytes ≥ 2 ^ 64 then throw .integerOverflow
    if new_bytes > cap.max_size then return (s, .error .EPERM)
    match { s with iommu_allocated_bytes := new_bytes }.placeBuffer page_count .iommu ans with
    | (s, .error e) => return (s.subBytes size, .error e)
    | (s, .ok (virt_addr, phys_addr)) =>
      let (s, iova) := if s.isAvailable then s.allocDmaBuffer bdf phys_addr page_count ans
        else (s, none)
      if iova.isNone && cap.iommu_required then
        let s := (s.withdraw virt_addr size .iommu).freePages phys_addr page_count
        return (s.subBytes size, .error .ENOMEM)
      if ans.copied then return (s, .ok ())
      let s := match iova with
        | some a => s.freeDmaBuffer bdf a page_count ans.undone
        | none => s
      let s := (s.withdraw virt_addr size .iommu).freePages phys_addr page_count
      return ((s.freePages phys_addr page_count).subBytes size, .error .EFAULT)

def sys_free_iommu_dma (debug : Bool) (virt_addr size device_bdf dma_addr : Nat)
    (granted invalidated : Bool) : Except Trap (DmaProcess × Except Errno Unit) := do
  let bdf := DeviceBdf.fromRaw device_bdf
  if size = 0 then return (s, .error .EINVAL)
  if (s.getIommuDmaCapability bdf).isNone then return (s, .error .EPERM)
  if virt_addr + size ≥ 2 ^ 64 then throw .integerOverflow
  if (s.findDmaVma virt_addr size).isNone then return (s, .error .EINVAL)
  let page_count := (size + PAGE_SIZE - 1) / PAGE_SIZE
  if s.isAvailable && dma_addr + page_count * PAGE_SIZE ≥ 2 ^ 64 then throw .integerOverflow
  -- where this fails, the comment says, the frames are leaked; but the unmapping returns them
  let s := if s.isAvailable then s.freeDmaBuffer bdf dma_addr page_count invalidated else s
  match ← s.munmapLocked virt_addr size granted with
  | (s, .error _) => return (s, .error .EINVAL)
  | (s, .ok ()) =>
    if debug && s.iommu_allocated_bytes < size then
      throw (.panic "sys_free_iommu_dma: iommu_allocated_bytes underflow - accounting bug" [])
    return (s.subBytes size, .ok ())

def sys_munmap (addr len : Nat) (granted : Bool) :
    Except Trap (DmaProcess × Except Errno Unit) := do
  match ← s.munmapLocked addr len granted with
  | (s, .ok ()) => return (s, .ok ())
  | (s, .error _) => return (s, .error .EINVAL)

end DmaProcess

/-! ## 5. Runs -/

inductive DmaCall where
  | allocDma (page_count : Nat) (ans : Answers)
  | freeDma (virt_addr size : Nat) (granted : Bool)
  | allocIommuDma (page_count device_bdf : Nat) (ans : Answers)
  | freeIommuDma (virt_addr size device_bdf dma_addr : Nat) (granted invalidated : Bool)
  | munmap (addr len : Nat) (granted : Bool)

namespace DmaProcess

def call (debug : Bool) (s : DmaProcess) : DmaCall → Except Trap (DmaProcess × Except Errno Unit)
  | .allocDma page_count ans => s.sys_alloc_dma page_count ans
  | .freeDma virt_addr size granted => s.sys_free_dma debug virt_addr size granted
  | .allocIommuDma page_count device_bdf ans => s.sys_alloc_iommu_dma page_count device_bdf ans
  | .freeIommuDma virt_addr size device_bdf dma_addr granted invalidated =>
    s.sys_free_iommu_dma debug virt_addr size device_bdf dma_addr granted invalidated
  | .munmap addr len granted => s.sys_munmap addr len granted

/-- A process before its first DMA call. -/
structure Fresh (s : DmaProcess) : Prop where
  ordered : Ordered s.vmas
  none : ∀ v ∈ s.vmas, isDma v = false
  pages : s.dma_allocated_pages = 0
  bytes : s.iommu_allocated_bytes = 0
  mapped : s.mapped = []
  stale : s.stale = []
  taken : s.taken = []
  returned : s.returned = []
  early : s.early = []

end DmaProcess

def dmaCalls (debug : Bool) : Machine (Except Trap DmaProcess) DmaCall where
  start r := ∃ s, r = .ok s ∧ s.Fresh
  step r c := r >>= fun s => Prod.fst <$> s.call debug c

end Zigk.Mm.Dma
