/-
  Subject:   SHARED MEMORY SEGMENTS (ipc/shm.zig) and the address spaces they are attached to
             (munmap and deinit of mm/user_vmm.zig, the device half of copyUserVmm of lifecycle.zig).

  `shmat` and `shmdt` take the lock twice and work on the address space in between, without it. A
  call is therefore a sequence of steps, `Call` is where it stands, and the steps of all calls,
  of threads of one process too, interleave.

  Processes and segments are named by their places, the place of a process that is gone is empty.
  Of an address space there are the attachments only; the VMAs of other kinds cover other
  addresses, and what is owned by anything else than a segment is `others`. Attached pages are
  eagerly mapped: a frame of the table needs no fault.

  Left out: the bytes, the times (`getCurrentTime` is 0) and the copy out of `IPC_STAT`.
-/
import Zigk.Ipc.Perm
import Zigk.Mm.Memfd

namespace Zigk.Ipc

open Mm (Pmm Vma PAGE_SIZE MAP_SHARED MAP_DEVICE isPageAligned pageAlignDown pageAlignLen mapRange
  unmapRange insertVma freeFrames freeVmaPages munmapVmas)

/-! ## 1. State -/

def SHMMNI : Nat := 128
def SHMMAX : Nat := 0x2000000
def SHMMIN : Nat := 1

def SHM_RDONLY : BitVec 32 := 0o10000#32
def SHM_RND : BitVec 32 := 0o20000#32

structure ShmSegment where
  id : BitVec 32 := 0
  key : BitVec 32 := 0
  perm : IpcPerm := ⟨0, 0, 0, 0, 0, 0, 0⟩
  size : Nat := 0
  /-- Set with `in_use`. -/
  phys_pages : Nat := 0
  num_pages : Nat := 0
  attach_count : Nat := 0
  cpid : BitVec 32 := 0
  lpid : BitVec 32 := 0
  marked_for_deletion : Bool := false
  in_use : Bool := false
  deriving DecidableEq, Repr

/-- The attachments of a process: its VMAs, and the frame of a page. -/
structure Space where
  vmas : List Vma := []
  pt : Nat → Option Nat := fun _ => none

/-- Where a call of a thread of process `p` stands. -/
inductive Call where
  | finished
  /-- `shmat` has looked at the segment `i`. -/
  | attaching (p : Nat) (proc : Cred) (i : Nat) (seq : BitVec 16) (shmaddr : Nat)
      (shmflg : BitVec 32) (phys_addr num_pages : Nat)
  /-- `shmat` has mapped it at `virt`, and not counted yet. -/
  | attached (p : Nat) (proc : Cred) (i : Nat) (seq : BitVec 16) (virt map_size : Nat)
  /-- `shmdt` has found the segment `i` at `virt`. -/
  | detaching (p : Nat) (proc : Cred) (i virt size : Nat)
  /-- `shmdt` has unmapped it, and not counted yet. -/
  | detached (p : Nat) (proc : Cred) (i : Nat)
  deriving DecidableEq, Repr

structure Shm where
  pmm : Pmm
  segments : List ShmSegment := List.replicate SHMMNI {}
  seq_counter : BitVec 16 := 0
  procs : List (Option Space) := []
  calls : List Call := []
  others : List Nat := []

namespace Shm

def space? (s : Shm) (p : Nat) : Option Space := (s.procs[p]?).join

def setSpace (s : Shm) (p : Nat) (sp : Space) : Shm := { s with procs := s.procs.set p (some sp) }

def setSegment (s : Shm) (i : Nat) (seg : ShmSegment) : Shm :=
  { s with segments := s.segments.set i seg }

def setCall (s : Shm) (k : Nat) (c : Call) : Shm := { s with calls := s.calls.set k c }

end Shm

/-! ## 2. user_vmm.zig and lifecycle.zig -/

/-- `translate`. -/
def Space.translate (sp : Space) (virt : Nat) : Option Nat :=
  (sp.pt (virt / PAGE_SIZE)).map fun f => f * PAGE_SIZE + virt % PAGE_SIZE

/-- `false` is an error number. -/
def Space.munmap (debug oom : Bool) (pmm : Pmm) (sp : Space) (addr len : Nat) :
    Except Trap (Pmm × Space × Bool) := do
  if !isPageAligned addr then return (pmm, sp, false)
  if len = 0 then return (pmm, sp, false)
  let alignedLen := pageAlignLen len
  if addr > 2 ^ 64 - 1 - alignedLen then return (pmm, sp, false)
  let (pmm, pt, vmas, ok) ← munmapVmas debug oom addr (addr + alignedLen) pmm sp.pt sp.vmas
  return (pmm, ⟨vmas, pt⟩, ok)

/-- The VMAs and the pages in them; with `MAP_DEVICE` the frames are shared. -/
def Space.copy (sp : Space) : Space where
  vmas := sp.vmas
  pt v := if sp.vmas.any fun w => w.start / PAGE_SIZE ≤ v && v < w.stop / PAGE_SIZE then sp.pt v
    else none

/-- `deinit`; the table has no page outside the VMAs. -/
def Space.deinit (debug : Bool) (pmm : Pmm) (sp : Space) : Except Trap Pmm := do
  let (pmm, _) ← sp.vmas.foldlM (fun (s : Pmm × (Nat → Option Nat)) v =>
    freeVmaPages debug s.1 s.2 v) (pmm, sp.pt)
  return pmm

/-! ## 3. shm.zig -/

def ShmSegment.named (seg : ShmSegment) (key : BitVec 32) : Bool :=
  seg.in_use && seg.key = key && !seg.marked_for_deletion

def Shm.existing (s : Shm) (key : BitVec 32) : Option ShmSegment :=
  if key = IPC_PRIVATE then none else s.segments.find? (·.named key)

/-- The next sequence number; there is no 0. -/
def nextSeq (seq_counter : BitVec 16) : BitVec 16 :=
  if seq_counter + 1 = 0 then 1 else seq_counter + 1

/-- The new segment, in the first free place. -/
def shmCreate (s : Shm) (key : BitVec 32) (size : Nat) (flags : BitVec 32) (proc : Cred) :
    Except Trap (Shm × Except IpcError (BitVec 32)) :=
  match s.segments.findIdx? fun seg => !seg.in_use with
  | none => .ok (s, .error .ENOSPC)
  | some idx => do
      let num_pages := (size + (PAGE_SIZE - 1)) / PAGE_SIZE
      match ← s.pmm.allocPages num_pages with
      | (pmm, none) => return ({ s with pmm := pmm }, .error .ENOMEM)
      | (pmm, some phys_addr) =>
        let seq := nextSeq s.seq_counter
        let id := makeId idx seq
        let seg : ShmSegment := {
          id := id
          key := key
          perm := ⟨key, proc.euid, proc.egid, proc.euid, proc.egid,
            (flags &&& 0o777#32).setWidth 16, seq⟩
          size := size
          phys_pages := phys_addr
          num_pages := num_pages
          attach_count := 0
          cpid := proc.pid
          lpid := 0
          marked_for_deletion := false
          in_use := true }
        return ({ s with pmm := pmm, seq_counter := seq }.setSegment idx seg, .ok id)

def shmget (s : Shm) (key : BitVec 32) (size : Nat) (flags : BitVec 32) (proc : Cred) :
    Except Trap (Shm × Except IpcError (BitVec 32)) :=
  if size < SHMMIN ∨ size > SHMMAX then .ok (s, .error .EINVAL)
  else
    match s.existing key with
    | some seg =>
      if flags &&& IPC_EXCL ≠ 0 ∧ flags &&& IPC_CREAT ≠ 0 then .ok (s, .error .EEXIST)
      else if checkAccess seg.perm proc .read then .ok (s, .ok seg.id)
      else .ok (s, .error .EACCES)
    | none =>
      if flags &&& IPC_CREAT = 0 ∧ key ≠ IPC_PRIVATE then .ok (s, .error .ENOENT)
      else shmCreate s key size flags proc

/-- The segment of an id. -/
def Shm.lookup (s : Shm) (id : BitVec 32) : Option ShmSegment :=
  match s.segments[idToIndex id]? with
  | none => none
  | some seg => if seg.in_use && seg.perm.seq = idToSeq id then some seg else none

/-- The first pass of `shmat` through the lock. -/
def shmatCheck (s : Shm) (p : Nat) (proc : Cred) (id : BitVec 32) (shmaddr : Nat)
    (shmflg : BitVec 32) : Except IpcError Call :=
  match s.lookup id with
  | none => .error .EINVAL
  | some seg =>
    if seg.marked_for_deletion then .error .EIDRM
    else if checkAccess seg.perm proc (if shmflg &&& SHM_RDONLY ≠ 0 then .read else .write) then
      .ok (.attaching p proc (idToIndex id) (idToSeq id) shmaddr shmflg seg.phys_pages
        seg.num_pages)
    else .error .EACCES

/-- What `shmat` meets in the rest of its process: the free range found for it, and whether the
    page tables and the VMA could be allocated. -/
structure AttachEnv where
  virt : Option Nat
  tables : Bool
  vma : Bool
  deriving DecidableEq, Repr

/-- Some page of the range is mapped already. -/
def Space.taken (sp : Space) (virt num_pages : Nat) : Bool :=
  (List.range num_pages).any fun k => (sp.pt (virt / PAGE_SIZE + k)).isSome

def shmatAddr (env : AttachEnv) (shmaddr : Nat) (shmflg : BitVec 32) : Except IpcError Nat :=
  if shmaddr = 0 then
    match env.virt with
    | some virt => .ok virt
    | none => .error .ENOMEM
  else
    let virt := if shmflg &&& SHM_RND ≠ 0 then pageAlignDown shmaddr else shmaddr
    if isPageAligned virt then .ok virt else .error .EINVAL

/-- The work of `shmat` on the address space. A `mapRange` that fails unmaps what it has mapped,
    and this was not mapped before. -/
def shmatMap (env : AttachEnv) (sp : Space) (shmaddr : Nat) (shmflg : BitVec 32)
    (phys_addr num_pages : Nat) : Except Trap (Space × Except IpcError Nat) :=
  match shmatAddr env shmaddr shmflg with
  | .error e => .ok (sp, .error e)
  | .ok virt =>
    let map_size := num_pages * PAGE_SIZE
    if !isPageAligned virt || !env.tables || sp.taken virt num_pages then .ok (sp, .error .ENOMEM)
    else if virt + map_size ≥ 2 ^ 64 then .error .integerOverflow
    else
      let pt := mapRange sp.pt virt phys_addr map_size
      if env.vma then
        let prot := if shmflg &&& SHM_RDONLY ≠ 0 then 1 else 3
        let vma : Vma := ⟨virt, virt + map_size, prot, MAP_SHARED ||| MAP_DEVICE⟩
        .ok (⟨insertVma vma sp.vmas, pt⟩, .ok virt)
      else .ok ({ sp with pt := unmapRange pt virt map_size }, .error .ENOMEM)

/-- The second pass of `shmat` through the lock. -/
def shmatCount (debug oom : Bool) (s : Shm) (p : Nat) (proc : Cred) (i : Nat) (seq : BitVec 16)
    (virt map_size : Nat) : Except Trap Shm :=
  match s.segments[i]?, s.space? p with
  | some seg, some sp =>
    if !seg.in_use || seg.perm.seq ≠ seq then do
      let (pmm, sp, _) ← sp.munmap debug oom s.pmm virt map_size
      return { s with pmm := pmm }.setSpace p sp
    else if seg.attach_count + 1 ≥ 2 ^ 32 then .error .integerOverflow
    else
      .ok (s.setSegment i { seg with attach_count := seg.attach_count + 1, lpid := proc.pid })
  | _, _ => .ok s

/-- `shmdt` finds the VMA and, in the first pass through the lock, the segment. -/
def shmdtFind (s : Shm) (p : Nat) (sp : Space) (proc : Cred) (shmaddr : Nat) :
    Except Trap (Except IpcError Call) :=
  if shmaddr + 1 ≥ 2 ^ 64 then .error .integerOverflow
  else
    match sp.vmas.find? (·.overlaps shmaddr (shmaddr + 1)) with
    | none => .ok (.error .EINVAL)
    | some vma =>
      match s.segments.findIdx? fun seg =>
          seg.in_use && sp.translate shmaddr = some seg.phys_pages with
      | none => .ok (.error .EINVAL)
      | some i => .ok (.ok (.detaching p proc i shmaddr (vma.stop - vma.start)))

/-- The frames go back, the place is free. -/
def Shm.release (debug : Bool) (s : Shm) (i : Nat) (seg : ShmSegment) : Except Trap Shm := do
  let pmm ← freeFrames debug s.pmm seg.phys_pages seg.num_pages
  return { s with pmm := pmm }.setSegment i { seg with in_use := false }

/-- The second pass of `shmdt` through the lock. -/
def shmdtCount (debug : Bool) (s : Shm) (proc : Cred) (i : Nat) : Except Trap Shm :=
  match s.segments[i]? with
  | none => .ok s
  | some seg =>
    let seg := { seg with attach_count := seg.attach_count - 1, lpid := proc.pid }
    if seg.marked_for_deletion && seg.attach_count = 0 then s.release debug i seg
    else .ok (s.setSegment i seg)

inductive ShmCmd where
  | IPC_STAT (copied : Bool)
  /-- Owner, group and mode the caller wants, if they can be read. -/
  | IPC_SET (ds : Option (BitVec 32 × BitVec 32 × BitVec 16))
  | IPC_RMID
  | other
  deriving DecidableEq, Repr

def shmctl (debug : Bool) (s : Shm) (id : BitVec 32) (cmd : ShmCmd) (proc : Cred) :
    Except Trap (Shm × Except IpcError Nat) :=
  match s.lookup id with
  | none => .ok (s, .error .EINVAL)
  | some seg =>
    match cmd with
    | .IPC_STAT copied =>
      if !checkAccess seg.perm proc .read then .ok (s, .error .EACCES)
      else if copied then .ok (s, .ok 0)
      else .ok (s, .error .EFAULT)
    | .IPC_SET ds =>
      if !isOwnerOrCreator seg.perm proc.euid then .ok (s, .error .EPERM)
      else
        match ds with
        | none => .ok (s, .error .EFAULT)
        | some (uid, gid, mode) =>
          let perm := { seg.perm with uid := uid, gid := gid, mode := mode &&& 0o777#16 }
          .ok (s.setSegment (idToIndex id) { seg with perm := perm }, .ok 0)
    | .IPC_RMID =>
      if !isOwnerOrCreator seg.perm proc.euid then .ok (s, .error .EPERM)
      else if seg.attach_count = 0 then do
        let s ← s.release debug (idToIndex id) seg
        return (s, .ok 0)
      else
        .ok (s.setSegment (idToIndex id)
          { seg with marked_for_deletion := true, key := 0xFFFFFFFF#32 }, .ok 0)
    | .other => .ok (s, .error .EINVAL)

/-! ## 4. Runs -/

inductive ShmEvent where
  | shmget (proc : Cred) (key : BitVec 32) (size : Nat) (flags : BitVec 32)
  | shmat (p : Nat) (proc : Cred) (id : BitVec 32) (shmaddr : Nat) (shmflg : BitVec 32)
  | shmdt (p : Nat) (proc : Cred) (shmaddr : Nat)
  /-- The call `k` takes its next step; with `oom` a VMA that is split has no second half. -/
  | advance (k : Nat) (env : AttachEnv) (oom : Bool)
  | shmctl (proc : Cred) (id : BitVec 32) (cmd : ShmCmd)
  | munmap (p addr len : Nat) (oom : Bool)
  | fork (p : Nat) (ok : Bool)
  | exit (p : Nat)
  | otherAlloc
  | otherFree (frame : Nat)
  deriving DecidableEq, Repr

/-- The call is one of the process. -/
def Call.of (p : Nat) : Call → Bool
  | .finished => false
  | .attaching q .. => q = p
  | .attached q .. => q = p
  | .detaching q .. => q = p
  | .detached q .. => q = p

namespace Shm

/-- The next step of the call `k`. -/
def advance (debug : Bool) (s : Shm) (k : Nat) (env : AttachEnv) (oom : Bool) : Except Trap Shm :=
  match s.calls[k]? with
  | none => .ok s
  | some .finished => .ok s
  | some (.attaching p proc i seq shmaddr shmflg phys_addr num_pages) =>
    match s.space? p with
    | none => .ok s
    | some sp => do
        match ← shmatMap env sp shmaddr shmflg phys_addr num_pages with
        | (sp, .error _) => return (s.setSpace p sp).setCall k .finished
        | (sp, .ok virt) =>
          return (s.setSpace p sp).setCall k
            (.attached p proc i seq virt (num_pages * PAGE_SIZE))
  | some (.attached p proc i seq virt map_size) => do
      let s ← shmatCount debug oom s p proc i seq virt map_size
      return s.setCall k .finished
  | some (.detaching p proc i virt size) =>
    match s.space? p with
    | none => .ok s
    | some sp => do
        match ← sp.munmap debug oom s.pmm virt size with
        | (pmm, sp, true) =>
          return ({ s with pmm := pmm }.setSpace p sp).setCall k (.detached p proc i)
        | (pmm, sp, false) => return ({ s with pmm := pmm }.setSpace p sp).setCall k .finished
  | some (.detached _ proc i) => do
      let s ← shmdtCount debug s proc i
      return s.setCall k .finished

def handle (debug : Bool) (s : Shm) : ShmEvent → Except Trap Shm
  | .shmget proc key size flags => do
      let (s, _) ← shmget s key size flags proc
      return s
  | .shmat p proc id shmaddr shmflg =>
    match s.space? p with
    | none => .ok s
    | some _ =>
      match shmatCheck s p proc id shmaddr shmflg with
      | .error _ => .ok s
      | .ok c => .ok { s with calls := s.calls ++ [c] }
  | .shmdt p proc shmaddr =>
    match s.space? p with
    | none => .ok s
    | some sp => do
        match ← shmdtFind s p sp proc shmaddr with
        | .error _ => return s
        | .ok c => return { s with calls := s.calls ++ [c] }
  | .advance k env oom => s.advance debug k env oom
  | .shmctl proc id cmd => do
      let (s, _) ← shmctl debug s id cmd proc
      return s
  | .munmap p addr len oom =>
    match s.space? p with
    | none => .ok s
    | some sp => do
        let (pmm, sp, _) ← sp.munmap debug oom s.pmm addr len
        return { s with pmm := pmm }.setSpace p sp
  | .fork p ok =>
    match s.space? p with
    | none => .ok s
    | some sp => if ok then .ok { s with procs := s.procs ++ [some sp.copy] } else .ok s
  | .exit p =>
    -- a process is destroyed after its last thread
    match s.space? p with
    | none => .ok s
    | some sp =>
      if s.calls.any (·.of p) then .ok s
      else do
        let pmm ← sp.deinit debug s.pmm
        return { s with pmm := pmm, procs := s.procs.set p none }
  | .otherAlloc => do
      match ← s.pmm.allocPage with
      | (pmm, some a) => return { s with pmm := pmm, others := a / PAGE_SIZE :: s.others }
      | (pmm, none) => return { s with pmm := pmm }
  | .otherFree frame =>
    if frame ∈ s.others then do
      let pmm ← Pmm.freePage debug s.pmm (frame * PAGE_SIZE)
      return { s with pmm := pmm, others := s.others.erase frame }
    else .ok s

end Shm

/-- The system from an allocator `pmm` on, before the first segment, with any number of processes. -/
def shmMachine (debug : Bool) (pmm : Pmm) : Machine (Except Trap Shm) ShmEvent where
  start r := ∃ n, r = .ok { pmm := pmm, procs := List.replicate n (some {}) }
  step r e := r >>= fun s => s.handle debug e

end Zigk.Ipc
