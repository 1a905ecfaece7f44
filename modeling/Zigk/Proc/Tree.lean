/-
  Subject:   THE PROCESS TREE (proc/process/types.zig, manager.zig and lifecycle.zig, the scans of
             sys_wait4 and sys_waitid of syscall/process/process.zig, the process part of
             exitWithStatus of sched/scheduler.zig).

  Process structs live in memory under their addresses and are linked by raw pointers: `parent`,
  `first_child`, `next_sibling`. An access to a struct that was freed stops the model
  (`Trap.nullPointer`), as does a loop that goes round more often than there are structs
  (`Trap.fuel`): neither is a behaviour the source provides for.

  * `addChildLocked`, `removeChildLocked` -- the child list of a process;
  * `allocatePid`, `findProcessByPidLocked`, `findFrom` -- the search of the tree for a free PID;
  * `createProcess`, `forkProcess`, `exit`, `destroyProcess`;
  * `wait4Scan`, `waitidScan`, `reap` -- a parent claims a zombie under the tree lock, then drops
    its last reference.
-/
import Zigk.Base.Checked

namespace Zigk.Proc.Tree

/-! ## 1. types.zig -/

inductive ProcessState where
  | Running
  | Zombie
  | Dead
  deriving DecidableEq, Repr

/-- The fields of a process that its place in the tree, its exit and the wait for it look at. -/
structure Process where
  pid : BitVec 32
  pgid : BitVec 32
  sid : BitVec 32
  parent : Option Nat := none
  firstChild : Option Nat := none
  nextSibling : Option Nat := none
  state : ProcessState := .Running
  exitStatus : BitVec 32 := 0
  /-- The number of threads; the highest bit is set while an execve is under way. -/
  refcount : BitVec 32 := 1
  deriving DecidableEq, Repr

def EXECVE_IN_PROGRESS_BIT : BitVec 32 := 0x80000000#32
def REFCOUNT_MASK : BitVec 32 := ~~~EXECVE_IN_PROGRESS_BIT

/-- The process structs by their addresses, and the globals of manager.zig. -/
structure ProcTable where
  procs : Nat → Option Process
  /-- The addresses of the structs, in no order that matters: the bound on the loops. -/
  allocated : List Nat
  initProcess : Option Nat
  processCount : BitVec 32
  nextPid : BitVec 32

namespace ProcTable

/-- Before the first process. -/
def boot : ProcTable := ⟨fun _ => none, [], none, 0, 1⟩

def get (s : ProcTable) (p : Nat) : Except Trap Process :=
  match s.procs p with
  | some x => .ok x
  | none => .error .nullPointer

def set (s : ProcTable) (p : Nat) (x : Process) : ProcTable :=
  { s with procs := Function.update s.procs p (some x) }

def modify (s : ProcTable) (p : Nat) (f : Process → Process) : Except Trap ProcTable := do
  let x ← s.get p
  return s.set p (f x)

def rounds (s : ProcTable) : Nat := s.allocated.length

def addChildLocked (s : ProcTable) (self child : Nat) : Except Trap ProcTable := do
  let s ← s.modify child fun c => { c with parent := some self }
  let q ← s.get self
  let s ← s.modify child fun c => { c with nextSibling := q.firstChild }
  s.modify self fun q => { q with firstChild := some child }

def addChild (s : ProcTable) (self child : Nat) : Except Trap ProcTable :=
  s.addChildLocked self child

/-- The loop of `removeChildLocked`: from `curr` on to the sibling before `child`. -/
def unlinkAfter (child : Nat) : Nat → Option Nat → ProcTable → Except Trap ProcTable
  | _, none, s => .ok s
  | 0, some _, _ => .error .fuel
  | n + 1, some c, s => do
      let x ← s.get c
      if x.nextSibling = some child then
        let ch ← s.get child
        s.modify c fun x => { x with nextSibling := ch.nextSibling }
      else unlinkAfter child n x.nextSibling s

def removeChildLocked (s : ProcTable) (self child : Nat) : Except Trap ProcTable := do
  let s ← s.modify child fun c => { c with parent := none }
  let q ← s.get self
  let s ←
    if q.firstChild = some child then do
      let c ← s.get child
      s.modify self fun q => { q with firstChild := c.nextSibling }
    else unlinkAfter child s.rounds q.firstChild s
  s.modify child fun c => { c with nextSibling := none }

def removeChild (s : ProcTable) (self child : Nat) : Except Trap ProcTable :=
  s.removeChildLocked self child

/-- Decrement the reference count; `true` if the process should be freed. -/
def unref (s : ProcTable) (p : Nat) : Except Trap (ProcTable × Bool) := do
  let x ← s.get p
  let threadCount := x.refcount &&& REFCOUNT_MASK
  if threadCount = 0 then .error (.panic "Process: unref on zero refcount" [])
  else
    return (s.set p { x with
      refcount := x.refcount &&& EXECVE_IN_PROGRESS_BIT ||| (threadCount - 1) }, threadCount = 1)

/-- Transition to zombie state. -/
def exitWithStatus (s : ProcTable) (p : Nat) (status : BitVec 32) : Except Trap ProcTable :=
  s.modify p fun x => { x with exitStatus := status, state := .Zombie }

/-! ## 2. manager.zig -/

/-- `findInTree` and its loop: the children from `child` on, each with what is below it. -/
def findFrom (s : ProcTable) (target : BitVec 32) : Nat → Option Nat → Except Trap (Option Nat)
  | _, none => .ok none
  | 0, some _ => .error .fuel
  | n + 1, some c => do
      let x ← s.get c
      if x.pid = target then return some c
      else
        match ← s.findFrom target n x.firstChild with
        | some found => return some found
        | none => s.findFrom target n x.nextSibling

def findProcessByPidLocked (s : ProcTable) (target : BitVec 32) : Except Trap (Option Nat) :=
  match s.initProcess with
  | some init => do
      let x ← s.get init
      if x.pid = target then return some init
      else s.findFrom target s.rounds x.firstChild
  | none => .ok none

/-- `n` attempts from `next_pid` on, which wraps round and leaves out 0. -/
def allocatePidFrom : Nat → ProcTable → Except Trap (ProcTable × BitVec 32)
  | 0, _ => .error (.panic "Process: PID space exhausted" [])
  | n + 1, s => do
      let candidate := if s.nextPid = 0 then 1 else s.nextPid
      let s := { s with nextPid := candidate + 1 }
      match ← s.findProcessByPidLocked candidate with
      | none => return (s, candidate)
      | some _ => allocatePidFrom n s

def allocatePid (s : ProcTable) : Except Trap (ProcTable × BitVec 32) :=
  s.allocatePidFrom (s.processCount.toNat + 2)

/-! ## 3. lifecycle.zig -/

/-- A process struct is placed at the free address `a`. -/
def alloc (s : ProcTable) (a : Nat) (x : Process) : ProcTable :=
  { s.set a x with allocated := a :: s.allocated }

/-- Add to the process tree: without a parent under init, the very first process as init. -/
def enterTree (s : ProcTable) (a : Nat) (parent : Option Nat) : Except Trap ProcTable :=
  match parent, s.initProcess with
  | some p, _ => s.addChild p a
  | none, some init => s.addChild init a
  | none, none => .ok { s with initProcess := some a }

/-- `createProcess`, when its resources could be had; the struct is placed at `a`. -/
def createProcess (s : ProcTable) (a : Nat) (parent : Option Nat) : Except Trap ProcTable := do
  let (s, pid) ← s.allocatePid
  let s := s.alloc a { pid := pid, pgid := pid, sid := pid }
  let s ← s.enterTree a parent
  return { s with processCount := s.processCount + 1 }

/-- `forkProcess`, when its resources could be had; the struct is placed at `a`. -/
def forkProcess (s : ProcTable) (a parent : Nat) : Except Trap ProcTable := do
  let (s, pid) ← s.allocatePid
  let q ← s.get parent
  let s := s.alloc a { pid := pid, pgid := q.pgid, sid := q.sid }
  let s ← s.addChild parent a
  return { s with processCount := s.processCount + 1 }

/-- `forkProcess` where the list of capabilities cannot be copied: the PID is used up, and the
    struct that was to hold it is never linked to anything. -/
def forkProcessUnfinished (s : ProcTable) : Except Trap ProcTable := do
  let (s, _) ← s.allocatePid
  return s

/-- Hand the children from `child` on to init, one by one. -/
def reparentFrom (init : Nat) : Nat → Option Nat → ProcTable → Except Trap ProcTable
  | _, none, s => .ok s
  | 0, some _, _ => .error .fuel
  | n + 1, some c, s => do
      let x ← s.get c
      let s ← s.modify c fun x => { x with nextSibling := none }
      let s ← s.addChildLocked init c
      reparentFrom init n x.nextSibling s

/-- Orphan the children from `child` on. -/
def orphanFrom : Nat → Option Nat → ProcTable → Except Trap ProcTable
  | _, none, s => .ok s
  | 0, some _, _ => .error .fuel
  | n + 1, some c, s => do
      let x ← s.get c
      let s ← s.modify c fun x => { x with parent := none, nextSibling := none }
      orphanFrom n x.nextSibling s

def clearFirstChild (s : ProcTable) (p : Nat) : Except Trap ProcTable :=
  s.modify p fun x => { x with firstChild := none }

/-- Reparent the children of `proc` to init. -/
def reparentChildren (s : ProcTable) (proc : Nat) : Except Trap ProcTable := do
  let x ← s.get proc
  if x.firstChild = none then return s
  else
    match s.initProcess with
    | some init =>
      if init ≠ proc then
        let s ← reparentFrom init s.rounds x.firstChild s
        s.clearFirstChild proc
      else
        let s ← orphanFrom s.rounds x.firstChild s
        s.clearFirstChild proc
    | none =>
      let s ← orphanFrom s.rounds x.firstChild s
      s.clearFirstChild proc

/-- Remove from the list of the parent, which a reaped process is no longer in. -/
def leaveParent (s : ProcTable) (proc : Nat) : Except Trap ProcTable := do
  let x ← s.get proc
  match x.parent with
  | some parent => s.removeChild parent proc
  | none => return s

/-- The struct of `proc` is given back. -/
def free (s : ProcTable) (proc : Nat) : ProcTable :=
  { s with procs := Function.update s.procs proc none, allocated := s.allocated.erase proc }

def destroyProcess (s : ProcTable) (proc : Nat) : Except Trap ProcTable := do
  let s ← s.modify proc fun x => { x with state := .Dead }
  let s ← s.leaveParent proc
  let s ← s.reparentChildren proc
  let s := s.free proc
  return { s with processCount := if s.processCount = 0 then 0 else s.processCount - 1 }

/-- The process part of `sched.exitWithStatus`: what the death of one of its threads does to the
    process. -/
def threadExit (s : ProcTable) (p : Nat) (status : BitVec 32) : Except Trap ProcTable := do
  let x ← s.get p
  if x.state ≠ .Zombie ∧ x.state ≠ .Dead ∧ x.refcount &&& 0x7FFFFFFF#32 = 1 then
    return s.set p { x with exitStatus := status, state := .Zombie }
  else return s

/-- `exit` of a thread of `p`, with the `sched.exitWithStatus` at its end. -/
def exit (s : ProcTable) (p : Nat) (status : BitVec 32) : Except Trap ProcTable := do
  let x ← s.get p
  let s ←
    if x.refcount &&& 0x7FFFFFFF#32 = 1 then s.exitWithStatus p status
    else do
      let (s, _) ← s.unref p
      return s
  s.threadExit p status

/-! ## 4. process.zig: sys_wait4 and sys_waitid -/

/-- Does the child `c` match the pid argument of wait4? -/
def wait4Matches (current : Process) (targetPid : BitVec 32) (c : Process) : Except Trap Bool :=
  if targetPid = -1 then .ok true
  else if 0 < targetPid.toInt then .ok (c.pid = targetPid)
  else if targetPid = 0 then .ok (c.pgid = current.pgid)
  else if targetPid = BitVec.intMin 32 then .error .integerOverflow
  else .ok (c.pgid = -targetPid)

def P_ALL : BitVec 64 := 0
def P_PID : BitVec 64 := 1
def P_PGID : BitVec 64 := 2

/-- Does the child `c` match the id arguments of waitid? -/
def waitidMatches (current : Process) (idtype id : BitVec 64) (c : Process) : Bool :=
  if idtype = P_ALL then true
  else if idtype = P_PID then c.pid = id.setWidth 32
  else if idtype = P_PGID then
    if id = 0 then c.pgid = current.pgid else c.pgid = id.setWidth 32
  else false

/-- The loop of both scans from `child` on: the first matching zombie, if any, and whether any
    child matched. -/
def scanFrom (s : ProcTable) (isMatch : Process → Except Trap Bool) (takes : Process → Bool) :
    Nat → Option Nat → Bool → Except Trap (Option Nat × Bool)
  | _, none, any => .ok (none, any)
  | 0, some _, _ => .error .fuel
  | n + 1, some c, any => do
      let x ← s.get c
      if ← isMatch x then
        if takes x then return (some c, true)
        else s.scanFrom isMatch takes n x.nextSibling true
      else s.scanFrom isMatch takes n x.nextSibling any

/-- The section of `sys_wait4` under the tree lock: a zombie that is found is claimed. -/
def wait4Scan (s : ProcTable) (self : Nat) (targetPid : BitVec 32) :
    Except Trap (ProcTable × Option Nat × Bool) := do
  let current ← s.get self
  let (zombie, any) ← s.scanFrom (wait4Matches current targetPid) (fun x => x.state = .Zombie)
    s.rounds current.firstChild false
  match zombie with
  | some c => return (← s.removeChildLocked self c, some c, any)
  | none => return (s, none, any)

def WNOHANG : BitVec 64 := 1
def WSTOPPED : BitVec 64 := 2
def WEXITED : BitVec 64 := 4
def WCONTINUED : BitVec 64 := 8
def WNOWAIT : BitVec 64 := 0x01000000

/-- The section of `sys_waitid` under the tree lock: a zombie that is found is claimed, except
    under WNOWAIT. -/
def waitidScan (s : ProcTable) (self : Nat) (idtype id options : BitVec 64) :
    Except Trap (ProcTable × Option Nat × Bool) := do
  let current ← s.get self
  let (zombie, any) ← s.scanFrom (fun c => .ok (waitidMatches current idtype id c))
    (fun x => options &&& WEXITED ≠ 0 ∧ x.state = .Zombie) s.rounds current.firstChild false
  match zombie with
  | some c =>
    if options &&& WNOWAIT = 0 then return (← s.removeChildLocked self c, some c, any)
    else return (s, some c, any)
  | none => return (s, none, any)

/-- What both calls do with a claimed zombie in the end. -/
def reap (s : ProcTable) (zombie : Nat) : Except Trap ProcTable := do
  let (s, free) ← s.unref zombie
  if free then s.destroyProcess zombie else return s

end ProcTable

end Zigk.Proc.Tree
