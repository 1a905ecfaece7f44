/-
  Subject:   FORK ON X86_64 (sys_fork and copyThreadState of sys/syscall/core/execution.zig,
             forkProcess and destroyProcess of proc/process/lifecycle.zig, createUserThread of
             proc/thread.zig, doPerCpuSchedule, handleFpuAccess, _syscall_entry and isr_common).

  A thread has the interrupt frame on its kernel stack as a field, since `kernel_rsp` of a thread
  that waits to be scheduled points to it. Processes and threads are named by their place in
  `processes` and `threads`; a freed one leaves its place empty. Child lists are lists.

  The FPU is switched lazily: `CR0.TS` makes the next access trap, and `handleFpuAccess` loads the
  buffer of the thread, if that has used the FPU before.
-/
import Mathlib.Data.List.Basic

namespace Zigk.Proc

abbrev Word := BitVec 64

/-- The image of the FPU registers. -/
abbrev FpuState := List (BitVec 8)

/-! ## 1. Frames -/

/-- What `_syscall_entry` pushes. -/
structure SyscallFrame where
  r15 : Word
  r14 : Word
  r13 : Word
  r12 : Word
  rbp : Word
  rbx : Word
  r9 : Word
  r8 : Word
  r10 : Word
  rdx : Word
  rsi : Word
  rdi : Word
  rax : Word
  rcx : Word
  r11 : Word
  userRsp : Word
  deriving DecidableEq, Repr

namespace SyscallFrame

def getReturnRip (f : SyscallFrame) : Word := f.rcx

def getUserRsp (f : SyscallFrame) : Word := f.userRsp

def setReturnValue (f : SyscallFrame) (value : Word) : SyscallFrame := { f with rax := value }

end SyscallFrame

/-- What `isr_common` pops. -/
structure InterruptFrame where
  r15 : Word
  r14 : Word
  r13 : Word
  r12 : Word
  r11 : Word
  r10 : Word
  r9 : Word
  r8 : Word
  rdi : Word
  rsi : Word
  rbp : Word
  rdx : Word
  rcx : Word
  rbx : Word
  rax : Word
  vector : Word := 0
  errorCode : Word := 0
  rip : Word
  cs : Word
  rflags : Word
  rsp : Word
  ss : Word
  deriving DecidableEq, Repr

/-! ## 2. Threads and processes -/

structure SigAction where
  handler : Word := 0
  flags : Word := 0
  restorer : Word := 0
  mask : Word := 0
  deriving DecidableEq, Repr

structure StackT where
  sp : Word := 0
  flags : Int := 2
  size : Word := 0
  deriving DecidableEq, Repr

structure Thread where
  /-- The frame at `kernel_rsp`. -/
  kernelFrame : InterruptFrame
  userStackTop : Word
  cr3 : Word
  fpuStateBuffer : FpuState
  fpuUsed : Bool := false
  fsBase : Word := 0
  process : Option Nat
  sigmask : Word := 0
  pendingSignals : Word := 0
  signalActions : List SigAction := List.replicate 64 {}
  alternateStack : StackT := {}
  parent : Option Nat := none
  children : List Nat := []
  deriving DecidableEq, Repr

inductive ProcState where
  | Running
  | Zombie
  | Dead
  deriving DecidableEq, Repr

/-- The defaults are those of memory that is allocated and not filled in yet. -/
structure Process where
  pid : Nat := 0
  parent : Option Nat := none
  children : List Nat := []
  state : ProcState := .Running
  cr3 : Word := 0
  deriving DecidableEq, Repr

structure KernelState where
  processes : List (Option Process) := []
  threads : List (Option Thread) := []
  /-- The ready queue. -/
  ready : List Nat := []
  processCount : Nat := 0
  initProcess : Nat := 0
  activeThreadCount : Nat := 0
  deriving DecidableEq, Repr

namespace KernelState

def process? (k : KernelState) (p : Nat) : Option Process := (k.processes[p]?).join

def thread? (k : KernelState) (t : Nat) : Option Thread := (k.threads[t]?).join

/-- A write through a pointer to a process. -/
def setProcess (k : KernelState) (p : Nat) (f : Process → Process) : KernelState :=
  { k with processes := k.processes.modify p (Option.map f) }

def setThread (k : KernelState) (t : Nat) (f : Thread → Thread) : KernelState :=
  { k with threads := k.threads.modify t (Option.map f) }

end KernelState

/-- A kernel without pointers to processes that were never allocated. -/
structure Kernel extends KernelState where
  attached : ∀ t p, (toKernelState.thread? t).bind Thread.process = some p → p < processes.length
  init : initProcess < processes.length

/-! ## 3. The FPU -/

structure Cpu where
  fpuRegs : FpuState
  /-- `CR0.TS`. -/
  taskSwitched : Bool
  /-- The `IA32_FS_BASE` register. -/
  fsBase : Word
  deriving DecidableEq, Repr

/-- An access to the FPU by the current thread, with `handleFpuAccess` where it traps. -/
def handleFpuAccess (c : Cpu) (t : Thread) : Cpu × Thread :=
  if !c.taskSwitched then (c, t)
  else if t.fpuUsed then ({ c with taskSwitched := false, fpuRegs := t.fpuStateBuffer }, t)
  else ({ c with taskSwitched := false }, { t with fpuUsed := true })

/-- `fpu.saveState`, which is itself an access. -/
def saveState (c : Cpu) (t : Thread) : Cpu × Thread :=
  let (c, t) := handleFpuAccess c t
  (c, { t with fpuStateBuffer := c.fpuRegs })

/-- What a thread finds in the FPU registers at its next access. -/
def fpuSeen (c : Cpu) (t : Thread) : FpuState := (handleFpuAccess c t).1.fpuRegs

/-! ## 4. Creation and destruction -/

/-- What fails: the copies of `forkProcess`, and the allocations of `createUserThread`. -/
structure ForkEnv where
  fdTable : Bool := true
  /-- The copied address space, by its page table. -/
  vmm : Option Word := some 0
  process : Bool := true
  capabilities : Bool := true
  /-- The build option `max-threads`. -/
  maxThreads : Nat := 64
  kernelStack : Bool := true
  /-- The size of the buffer. -/
  fpuBuffer : Option Nat := some 512
  thread : Bool := true
  /-- The number `allocatePid` finds. -/
  pid : Nat := 2
  deriving DecidableEq, Repr

namespace KernelState

/-- `Process.addChild`. -/
def addChild (k : KernelState) (parent child : Nat) : KernelState :=
  (k.setProcess child fun c => { c with parent := some parent }).setProcess parent fun p =>
    { p with children := child :: p.children }

/-- The search of `removeChildLocked` along the siblings. -/
def removeSibling (child : Nat) : List Nat → List Nat
  | [] => []
  | c :: cs => if c = child then cs else c :: removeSibling child cs

/-- `Process.removeChild`. -/
def removeChild (k : KernelState) (parent child : Nat) : KernelState :=
  (k.setProcess child fun c => { c with parent := none }).setProcess parent fun p =>
    { p with children := removeSibling child p.children }

/-- The child processes of a process go to init, or to nobody where it is init itself. -/
def reparentChildren (k : KernelState) (proc : Nat) : KernelState :=
  match k.process? proc with
  | none => k
  | some p =>
    let k := p.children.foldl (fun k c =>
      if k.initProcess ≠ proc then k.addChild k.initProcess c
      else k.setProcess c fun c => { c with parent := none }) k
    if p.children = [] then k else k.setProcess proc fun p => { p with children := [] }

/-- `sched.detachProcess`. -/
def detachProcess (k : KernelState) (proc : Nat) : KernelState :=
  { k with
    threads := k.threads.map fun t =>
      t.map fun t => if t.process = some proc then { t with process := none } else t }

def destroyProcess (k : KernelState) (proc : Nat) : KernelState :=
  let k := k.setProcess proc fun p => { p with state := .Dead }
  let k :=
    match (k.process? proc).bind Process.parent with
    | some parent => k.removeChild parent proc
    | none => k
  let k := k.reparentChildren proc
  let k := k.detachProcess proc
  { k with
    processes := k.processes.set proc none
    processCount := k.processCount - 1 }

/-- `none` is an error. The struct is allocated before the capabilities are cloned into it, and
    that allocation has no `errdefer`. -/
def forkProcess (env : ForkEnv) (k : KernelState) (parent : Nat) : KernelState × Option Nat :=
  if !env.fdTable then (k, none)
  else
    match env.vmm with
    | none => (k, none)
    | some cr3 =>
      if !env.process then (k, none)
      else
        let child := k.processes.length
        if !env.capabilities then ({ k with processes := k.processes ++ [some ({} : Process)] }, none)
        else
          let p : Process := { pid := env.pid, cr3 := cr3 }
          let k := { k with processes := k.processes ++ [some p] }
          let k := k.addChild parent child
          ({ k with processCount := k.processCount + 1 }, some child)

end KernelState

abbrev USER_CODE : Word := 0x23
abbrev USER_DATA : Word := 0x1b

/-- `setupUserStack`: the first frame of a user thread. -/
def setupUserStack (entry userStackTop : Word) : InterruptFrame :=
  { r15 := 0, r14 := 0, r13 := 0, r12 := 0, r11 := 0, r10 := 0, r9 := 0, r8 := 0, rdi := 0,
    rsi := 0, rbp := 0, rdx := 0, rcx := 0, rbx := 0, rax := 0, rip := entry, cs := USER_CODE,
    rflags := 0x202, rsp := userStackTop, ss := USER_DATA }

/-- The buffer of a new thread: FCW 0x037F and MXCSR 0x1F80. -/
def initialFpu (size : Nat) : FpuState :=
  ((((List.replicate size 0).set 24 0x80).set 25 0x1F).set 0 0x7F).set 1 0x03

namespace KernelState

/-- `none` is an error. Whatever was allocated before the step that fails is freed again. -/
def createUserThread (env : ForkEnv) (k : KernelState) (entry cr3 userStackTop : Word)
    (process : Nat) : KernelState × Option Nat :=
  if k.activeThreadCount ≥ env.maxThreads then (k, none)
  else if !env.kernelStack then (k, none)
  else
    match env.fpuBuffer with
    | none => (k, none)
    | some size =>
      if !env.thread then (k, none)
      else
        let t : Thread :=
          { kernelFrame := setupUserStack entry userStackTop
            userStackTop := userStackTop
            cr3 := cr3
            fpuStateBuffer := initialFpu size
            process := some process }
        ({ k with
            threads := k.threads ++ [some t]
            activeThreadCount := k.activeThreadCount + 1 }, some k.threads.length)

end KernelState

/-! ## 5. Fork -/

/-- `copyThreadState` on x86_64. -/
def copyThreadState (f : SyscallFrame) (parent child : Thread) : Thread :=
  { child with
    kernelFrame :=
      { r15 := f.r15, r14 := f.r14, r13 := f.r13, r12 := f.r12, r11 := 0, r10 := f.r10, r9 := f.r9,
        r8 := f.r8, rdi := f.rdi, rsi := f.rsi, rbp := f.rbp, rdx := f.rdx, rcx := f.rax, rbx := 0,
        rax := f.rax, rip := f.getReturnRip, cs := 0x23, rflags := 0x202, rsp := f.getUserRsp,
        ss := 0x1b }
    fsBase := parent.fsBase }

/-- `setForkChildReturn`. -/
def setForkChildReturn (child : Thread) : Thread :=
  { child with kernelFrame := { child.kernelFrame with rax := 0 } }

inductive Errno where
  | ENOMEM
  | ESRCH
  deriving DecidableEq, Repr

namespace KernelState

/-- `getCurrentProcess`: that of the current thread, or init. -/
def currentProcess (k : KernelState) (current : Option Nat) : Nat :=
  ((current.bind k.thread?).bind Thread.process).getD k.initProcess

/-- `thread.addChild`. -/
def addChildThread (k : KernelState) (parent child : Nat) : KernelState :=
  (k.setThread child fun c => { c with parent := some parent }).setThread parent fun p =>
    { p with children := child :: p.children }

/-- `sched.addThread`. -/
def addThread (k : KernelState) (t : Nat) : KernelState := { k with ready := k.ready ++ [t] }

/-- `sys_fork` from the save of the FPU state on: the thread `i` gets a child thread in the process
    just forked. -/
def forkThread (env : ForkEnv) (k : KernelState) (c : Cpu) (i : Nat) (parent : Thread)
    (childProc : Nat) (f : SyscallFrame) : KernelState × Cpu × Except Errno Nat :=
  let (c, parent) := if parent.fpuUsed then saveState c parent else (c, parent)
  let k := k.setThread i fun _ => parent
  let cr3 := ((k.process? childProc).map Process.cr3).getD 0
  match k.createUserThread env 0 cr3 parent.userStackTop childProc with
  | (k, none) => (k.destroyProcess childProc, c, .error .ENOMEM)
  | (k, some child) =>
    let k := k.setThread child fun t => setForkChildReturn (copyThreadState f parent t)
    let k := k.addChildThread i child
    (k.addThread child, c, .ok (((k.process? childProc).map Process.pid).getD 0))

/-- `sys_fork` on a CPU with its current thread. -/
def sysFork (env : ForkEnv) (k : KernelState) (c : Cpu) (current : Option Nat) (f : SyscallFrame) :
    KernelState × Cpu × Except Errno Nat :=
  match k.forkProcess env (k.currentProcess current) with
  | (k, none) => (k, c, .error .ENOMEM)
  | (k, some childProc) =>
    match current.bind fun i => (k.thread? i).map fun t => (i, t) with
    | none => (k.destroyProcess childProc, c, .error .ESRCH)
    | some (i, parent) => k.forkThread env c i parent childProc f

end KernelState

/-! ## 6. The way back to user mode -/

/-- What a program in user mode has. -/
structure UserState where
  rax : Word
  rbx : Word
  rcx : Word
  rdx : Word
  rsi : Word
  rdi : Word
  rbp : Word
  rsp : Word
  r8 : Word
  r9 : Word
  r10 : Word
  r11 : Word
  r12 : Word
  r13 : Word
  r14 : Word
  r15 : Word
  rip : Word
  rflags : Word
  cs : Word
  ss : Word
  fsBase : Word
  fpu : FpuState
  sigmask : Word
  signalActions : List SigAction
  alternateStack : StackT
  deriving DecidableEq, Repr

/-- The upper bits of an address, as `sar $47` leaves them. -/
def upper (a : Word) : Word := a.sshiftRight 47

/-- All zeros or all ones above. -/
def isCanonical (a : Word) : Bool := upper a = 0 || upper a = BitVec.allOnes 64

/-- The flags that SYSRET loads from R11. -/
def sysretFlags (r11 : Word) : Word := r11 &&& 0x3C7FD7 ||| 2

/-- The end of `_syscall_entry`. An address that is not canonical goes by IRETQ, which faults. -/
def syscallReturn (c : Cpu) (t : Thread) (f : SyscallFrame) : Option UserState :=
  if !isCanonical f.rcx then none
  else some
    { rax := f.rax, rbx := f.rbx, rcx := f.rcx, rdx := f.rdx, rsi := f.rsi, rdi := f.rdi,
      rbp := f.rbp, rsp := f.userRsp, r8 := 0, r9 := 0, r10 := upper f.rcx, r11 := f.r11,
      r12 := f.r12, r13 := f.r13, r14 := f.r14, r15 := f.r15, rip := f.rcx,
      rflags := sysretFlags f.r11, cs := USER_CODE, ss := USER_DATA, fsBase := c.fsBase,
      fpu := fpuSeen c t, sigmask := t.sigmask, signalActions := t.signalActions,
      alternateStack := t.alternateStack }

/-- A CPU with its current thread, whose FS base is in the register. -/
structure Running where
  cpu : Cpu
  current : Option Thread
  fsBase : cpu.fsBase = (current.map Thread.fsBase).getD 0

/-- The CPU after the outgoing thread has its FPU state saved. -/
def saveOutgoing (s : Running) : Cpu :=
  match s.current with
  | some curr => if curr.fpuUsed then (saveState s.cpu curr).1 else s.cpu
  | none => s.cpu

/-- `doPerCpuSchedule` where it chooses another thread. -/
def switchTo (s : Running) (next : Thread) : Cpu :=
  let c := saveOutgoing s
  let c :=
    if next.fsBase ≠ (s.current.map Thread.fsBase).getD 0 then { c with fsBase := next.fsBase }
    else c
  { c with taskSwitched := true }

/-- The end of `isr_common`: the frame of the thread is popped. -/
def interruptReturn (c : Cpu) (t : Thread) : Option UserState :=
  let f := t.kernelFrame
  if !isCanonical f.rip then none
  else some
    { rax := f.rax, rbx := f.rbx, rcx := f.rcx, rdx := f.rdx, rsi := f.rsi, rdi := f.rdi,
      rbp := f.rbp, rsp := f.rsp, r8 := f.r8, r9 := f.r9, r10 := f.r10, r11 := f.r11, r12 := f.r12,
      r13 := f.r13, r14 := f.r14, r15 := f.r15, rip := f.rip, rflags := f.rflags, cs := f.cs,
      ss := f.ss, fsBase := c.fsBase, fpu := fpuSeen c t, sigmask := t.sigmask,
      signalActions := t.signalActions, alternateStack := t.alternateStack }

end Zigk.Proc
