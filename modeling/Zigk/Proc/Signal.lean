/-
  Subject:   SIGNALS OF A THREAD (proc/signal.zig, sys/syscall/process/signals.zig, the signal sets
             and the queue of uapi/process/signal.zig, and the bounds check of user_mem.zig).

  Both encoders of the signal frame are here, for the interrupt frame and for the frame of a
  system call, and `sysRtSigreturn`, their one decoder. They place the parts of the frame in the
  same way; that part is `pushFrame`.

  A thread that does not come back is the value `Stop.exit`, a panic of the kernel `Stop.trap`.
  `sched.block` is a point where the thread gives up the processor: the functions that contain it
  are cut there.
-/
import Zigk.Base.ByteMemory
import Zigk.Base.Checked
import Zigk.Proc.Fork

namespace Zigk.Proc

/-! ## 1. Signal sets -/

abbrev SigSet := Word

abbrev SIG_BLOCK : Word := 0
abbrev SIG_UNBLOCK : Word := 1
abbrev SIG_SETMASK : Word := 2

abbrev SIG_DFL : Word := 0
abbrev SIG_IGN : Word := 1

abbrev SIGBUS : Nat := 7
abbrev SIGKILL : Nat := 9
abbrev SIGSEGV : Nat := 11
abbrev SIGCONT : Nat := 18
abbrev SIGSTOP : Nat := 19
abbrev SIGTSTP : Nat := 20
abbrev SIGTTIN : Nat := 21
abbrev SIGTTOU : Nat := 22
abbrev SIGSYS : Nat := 31

abbrev SA_SIGINFO : Word := 0x00000004
abbrev SA_ONSTACK : Word := 0x08000000
abbrev SA_NODEFER : Word := 0x40000000

abbrev SS_ONSTACK : BitVec 32 := 1
abbrev SS_DISABLE : BitVec 32 := 2

inductive SigDefaultAction where
  | Terminate
  | Core
  | Ignore
  | Stop
  | Continue
  deriving DecidableEq, Repr

def getDefaultAction (signum : Nat) : SigDefaultAction :=
  if signum ∈ [17, 23, 28] then .Ignore
  else if signum ∈ [19, 20, 21, 22] then .Stop
  else if signum = 18 then .Continue
  else if signum ∈ [3, 4, 5, 6, 7, 8, 11, 24, 25, 31] then .Core
  else .Terminate

/-- The bit of a signal. -/
def sigBit (sig : Nat) : SigSet := 1 <<< (sig - 1)

def sigismember (set : SigSet) (sig : Nat) : Bool :=
  if sig = 0 ∨ sig > 64 then false else (set &&& sigBit sig) != 0

def sigdelset (set : SigSet) (sig : Nat) : SigSet :=
  if sig = 0 ∨ sig > 64 then set else set &&& ~~~ sigBit sig

/-- The lowest bit that is set; 64 where none is. -/
def ctz (w : Word) : Nat := ((List.range 64).find? fun i => w.getLsbD i).getD 64

/-! ## 2. Queued information -/

structure KernelSigInfo where
  signo : Nat
  code : Int
  pid : BitVec 32
  uid : BitVec 32
  value : Word
  syscallNr : Int := 0
  deriving DecidableEq, Repr

abbrev SI_USER : Int := 0
abbrev SI_KERNEL : Int := 0x80
abbrev SI_QUEUE : Int := -1
abbrev SI_TIMER : Int := -2
abbrev SI_TKILL : Int := -6

abbrev SIGINFO_QUEUE_CAPACITY : Nat := 32

/-- The ring. `tail` is where the next entry goes. -/
structure SigInfoQueue where
  entries : Nat → KernelSigInfo
  head : Nat
  tail : Nat
  count : Nat
  head_lt : head < SIGINFO_QUEUE_CAPACITY
  count_le : count ≤ SIGINFO_QUEUE_CAPACITY
  tail_eq : tail = (head + count) % SIGINFO_QUEUE_CAPACITY

namespace SigInfoQueue

def init : SigInfoQueue where
  entries := fun _ => ⟨0, 0, 0, 0, 0, 0⟩
  head := 0
  tail := 0
  count := 0
  head_lt := by decide
  count_le := by decide
  tail_eq := rfl

/-- The place of the `i`-th entry. -/
def slot (q : SigInfoQueue) (i : Nat) : Nat := (q.head + i) % SIGINFO_QUEUE_CAPACITY

/-- The entries from the oldest on. -/
def items (q : SigInfoQueue) : List KernelSigInfo :=
  (List.range q.count).map fun i => q.entries (q.slot i)

/-- `none`: the queue is full. -/
def enqueue (q : SigInfoQueue) (info : KernelSigInfo) : Option SigInfoQueue :=
  if h : q.count ≥ SIGINFO_QUEUE_CAPACITY then none
  else some
    { q with
      entries := fun k => if k = q.tail then info else q.entries k
      tail := (q.tail + 1) % SIGINFO_QUEUE_CAPACITY
      count := q.count + 1
      count_le := by omega
      tail_eq := by rw [q.tail_eq, Nat.mod_add_mod, Nat.add_assoc] }

/-- The entries after the `i`-th one move one place towards the head, one after the other. -/
def compact (q : SigInfoQueue) (entries : Nat → KernelSigInfo) (j : Nat) : Nat → (Nat → KernelSigInfo)
  | 0 => entries
  | n + 1 =>
    q.compact (fun k => if k = q.slot j then entries (q.slot (j + 1)) else entries k) (j + 1) n

/-- The queue without its `i`-th entry. -/
def removeAt (q : SigInfoQueue) (i : Nat) : SigInfoQueue :=
  { q with
    entries := q.compact q.entries i (q.count - 1 - i)
    count := q.count - 1
    tail := (q.head + (q.count - 1)) % SIGINFO_QUEUE_CAPACITY
    count_le := by have := q.count_le; omega
    tail_eq := rfl }

/-- The search from the head: the place of the first entry with the number. -/
def findSignal (q : SigInfoQueue) (signo : Nat) : Option Nat :=
  (List.range q.count).find? fun i => (q.entries (q.slot i)).signo = signo

def dequeueBySignal (q : SigInfoQueue) (signo : Nat) : Option KernelSigInfo × SigInfoQueue :=
  match q.findSignal signo with
  | none => (none, q)
  | some i => (some (q.entries (q.slot i)), q.removeAt i)

def hasSignal (q : SigInfoQueue) (signo : Nat) : Bool := (q.findSignal signo).isSome

end SigInfoQueue

/-! ## 3. The thread -/

inductive RunState where
  | Ready
  | Running
  | Blocked
  deriving DecidableEq, Repr

structure SigThread extends Thread where
  savedSigmask : SigSet := 0
  hasSavedSigmask : Bool := false
  siginfoQueue : SigInfoQueue := .init
  state : RunState := .Running
  stopped : Bool := false

namespace SigThread

/-- What happened to the FPU state of the thread. -/
def withThread (t : SigThread) (th : Thread) : SigThread := { t with toThread := th }

/-- The mask that `rt_sigreturn` is to restore. -/
def returnMask (t : SigThread) : SigSet :=
  if t.hasSavedSigmask then t.savedSigmask else t.sigmask

def action (t : SigThread) (signum : Nat) : SigAction := t.signalActions.getD (signum - 1) {}

end SigThread

/-- Why a function does not return. -/
inductive Stop where
  | trap (t : Trap)
  | exit (status : Nat)
  deriving DecidableEq, Repr

inductive SigErrno where
  | EINVAL
  | EFAULT
  | EINTR
  | EAGAIN
  | EPERM
  | ESRCH
  deriving DecidableEq, Repr

/-! ## 4. User memory -/

abbrev USER_SPACE_START : Nat := 0x400000
abbrev USER_SPACE_END : Nat := 0x7FFFFFFFFFFF

/-- `isValidUserPtr`; `isValidUserAccess` checks nothing more. -/
def isValidUserPtr (ptr len : Nat) : Bool :=
  if ptr = 0 then false
  else if len = 0 then true
  else if ptr < USER_SPACE_START ∨ ptr > USER_SPACE_END then false
  else if ptr + len ≥ 2 ^ 64 then false
  else decide (ptr + len ≤ USER_SPACE_END + 1)

/-- `none` is a fault. What was copied before it is not kept. -/
def copyToUser (m : ByteMemory) (addr : Nat) (l : List (BitVec 8)) : Option ByteMemory :=
  if isValidUserPtr addr l.length && m.covers addr l.length then some (m.write addr l) else none

def copyFromUser (m : ByteMemory) (addr len : Nat) : Option (List (BitVec 8)) :=
  if isValidUserPtr addr len && m.covers addr len then some (m.read addr len) else none

def readWords (m : ByteMemory) (addr n : Nat) : Option (List Word) :=
  (copyFromUser m addr (8 * n)).map fun l => ByteMemory.toWords l n

def readWord (m : ByteMemory) (addr : Word) : Option Word :=
  (readWords m addr.toNat 1).map fun l => l.getD 0 0

def writeWords (m : ByteMemory) (addr : Nat) (l : List Word) : Option ByteMemory :=
  copyToUser m addr (ByteMemory.ofWords l)

/-! ## 5. The signal frame -/

structure MContext where
  r8 : Word
  r9 : Word
  r10 : Word
  r11 : Word
  r12 : Word
  r13 : Word
  r14 : Word
  r15 : Word
  rdi : Word
  rsi : Word
  rbp : Word
  rbx : Word
  rdx : Word
  rax : Word
  rcx : Word
  rsp : Word
  rip : Word
  rflags : Word
  cs : BitVec 16
  gs : BitVec 16
  fs : BitVec 16
  err : Word
  trapno : Word
  oldmask : SigSet
  cr2 : Word
  fpstate : Word
  ss : Word
  deriving DecidableEq, Repr

structure UContext where
  flags : Word
  link : Word
  stack : StackT
  mcontext : MContext
  sigmask : SigSet
  deriving DecidableEq, Repr

namespace UContext

/-- The words of the struct: its paddings and the reserved ones are zero. -/
def toWords (u : UContext) : List Word :=
  let mc := u.mcontext
  [u.flags, u.link, u.stack.sp, (BitVec.ofInt 32 u.stack.flags).setWidth 64, u.stack.size,
    mc.r8, mc.r9, mc.r10, mc.r11, mc.r12, mc.r13, mc.r14, mc.r15, mc.rdi, mc.rsi, mc.rbp, mc.rbx,
    mc.rdx, mc.rax, mc.rcx, mc.rsp, mc.rip, mc.rflags,
    mc.cs.setWidth 64 ||| mc.gs.setWidth 64 <<< 16 ||| mc.fs.setWidth 64 <<< 32,
    mc.err, mc.trapno, mc.oldmask, mc.cr2, mc.fpstate] ++
  List.replicate 8 0 ++ [mc.ss, u.sigmask] ++ List.replicate 16 0

def ofWords (l : List Word) : UContext where
  flags := l.getD 0 0
  link := l.getD 1 0
  stack :=
    { sp := l.getD 2 0, flags := ((l.getD 3 0).setWidth 32).toInt, size := l.getD 4 0 }
  mcontext :=
    { r8 := l.getD 5 0, r9 := l.getD 6 0, r10 := l.getD 7 0, r11 := l.getD 8 0,
      r12 := l.getD 9 0, r13 := l.getD 10 0, r14 := l.getD 11 0, r15 := l.getD 12 0,
      rdi := l.getD 13 0, rsi := l.getD 14 0, rbp := l.getD 15 0, rbx := l.getD 16 0,
      rdx := l.getD 17 0, rax := l.getD 18 0, rcx := l.getD 19 0, rsp := l.getD 20 0,
      rip := l.getD 21 0, rflags := l.getD 22 0, cs := (l.getD 23 0).setWidth 16,
      gs := (l.getD 23 0 >>> 16).setWidth 16, fs := (l.getD 23 0 >>> 32).setWidth 16,
      err := l.getD 24 0, trapno := l.getD 25 0, oldmask := l.getD 26 0, cr2 := l.getD 27 0,
      fpstate := l.getD 28 0, ss := l.getD 37 0 }
  sigmask := l.getD 38 0

/-- `@sizeOf(UContext)`. -/
abbrev size : Nat := 440

end UContext

abbrev SIGINFO_SIZE : Nat := 128

/-- `& ~(n - 1)` for a power of two. -/
def alignDown (n a : Nat) : Nat := a - a % n

/-- An addition with the check of the language. -/
def addChecked (a b : Nat) : Except Trap Nat :=
  if a + b < 2 ^ 64 then .ok (a + b) else .error .integerOverflow

/-- The stack a handler runs on: the top, and whether it is the alternate one. -/
def handlerStack (rsp : Nat) (action : SigAction) (alt : StackT) : Except Trap (Nat × Bool) :=
  if action.flags &&& SA_ONSTACK ≠ 0 ∧ BitVec.ofInt 32 alt.flags &&& SS_DISABLE = 0 then
    if rsp < alt.sp.toNat then do
      let top ← addChecked alt.sp.toNat alt.size.toNat
      return (top, true)
    else do
      let top ← addChecked alt.sp.toNat alt.size.toNat
      return if rsp < top then (rsp, false) else (top, true)
  else return (rsp, false)

/-- Where the parts of a frame are, from the top down. -/
structure FrameLayout where
  fpstate : Nat
  siginfo : Nat
  ucontext : Nat
  sp : Nat
  deriving DecidableEq, Repr

/-- `alternate_stack` as the context has it. -/
def stackInfo (t : SigThread) (usingAltstack : Bool) : StackT :=
  if usingAltstack then
    { t.alternateStack with
      flags := (BitVec.ofInt 32 t.alternateStack.flags ||| SS_ONSTACK).toInt }
  else t.alternateStack

/-- Two halves of a word. -/
def pair (lo hi : BitVec 32) : Word := lo.setWidth 64 ||| hi.setWidth 64 <<< 32

/-- The words of the `siginfo_t`, with the conversion of the value to 32 bits. -/
def siginfoWords (si : KernelSigInfo) : Except Trap (List Word) :=
  let low := si.value &&& 0xFFFFFFFF
  if si.signo ≠ SIGSYS ∧ low.toNat ≥ 2 ^ 31 then .error .integerOverflow
  else
    let valueInt := if si.signo = SIGSYS then BitVec.ofInt 32 si.syscallNr else low.setWidth 32
    .ok ([pair (BitVec.ofNat 32 si.signo) 0, pair (BitVec.ofInt 32 si.code) 0, pair si.pid si.uid, 0,
      pair valueInt 0, si.value] ++ List.replicate 10 0)

/-- The context of the code that a signal interrupts: everything but where the FPU state is and
    the signal masks. -/
abbrev SavedRegs := (fpstate : Word) → (oldmask : SigSet) → MContext

/-- A write to the user stack, which ends the thread where it faults. -/
def orFault {α : Type} : Option α → Except Stop α
  | some a => .ok a
  | none => .error (.exit (128 + 11))

def orTrap {α : Type} : Except Trap α → Except Stop α
  | .ok a => .ok a
  | .error e => .error (.trap e)

/-- `siginfo_t` above the context, for a handler that takes one. -/
def reserveSiginfo (action : SigAction) (sp : Nat) : Except Trap (Nat × Nat) :=
  if action.flags &&& SA_SIGINFO ≠ 0 then do
    let sp ← Trap.sub sp SIGINFO_SIZE
    return (alignDown 16 sp, alignDown 16 sp)
  else return (0, sp)

def writeSiginfo (m : ByteMemory) (action : SigAction) (addr : Nat) (si : KernelSigInfo) :
    Except Stop ByteMemory :=
  if action.flags &&& SA_SIGINFO ≠ 0 then do
    let words ← orTrap (siginfoWords si)
    orFault (writeWords m addr words)
  else return m

/-- The FPU state goes to the buffer of a thread that has used the FPU. -/
def saveFpu (c : Cpu) (t : SigThread) : Cpu × SigThread :=
  if t.fpuUsed then ((saveState c t.toThread).1, t.withThread (saveState c t.toThread).2)
  else (c, t)

/-- Both `setupSignalFrame`s up to the return address: below a red zone the FPU state, the
    `siginfo_t`, the context and the return address. -/
def pushFrame (c : Cpu) (t : SigThread) (m : ByteMemory) (rsp : Word) (signum : Nat)
    (action : SigAction) (siginfo : Option KernelSigInfo) (regs : SavedRegs) :
    Except Stop (Cpu × SigThread × ByteMemory × FrameLayout) := do
  let (sp, usingAltstack) ← orTrap (handlerStack rsp.toNat action t.alternateStack)
  let sp ← orTrap (Trap.sub sp 128)
  let sp := alignDown 16 sp
  let c' := (saveFpu c t).1
  let t := (saveFpu c t).2
  let sp ← orTrap (Trap.sub sp t.fpuStateBuffer.length)
  let fpstate := alignDown 64 sp
  let m ← orFault (copyToUser m fpstate t.fpuStateBuffer)
  let (siginfoSp, sp) ← orTrap (reserveSiginfo action fpstate)
  let sp ← orTrap (Trap.sub sp UContext.size)
  let ucontext := alignDown 16 sp
  let u : UContext :=
    { flags := 0, link := 0, stack := stackInfo t usingAltstack,
      mcontext := regs (BitVec.ofNat 64 fpstate) t.returnMask, sigmask := t.returnMask }
  let m ← orFault (writeWords m ucontext u.toWords)
  let m ← writeSiginfo m action siginfoSp (siginfo.getD ⟨signum, SI_USER, 0, 0, 0, 0⟩)
  let sp ← orTrap (Trap.sub ucontext 8)
  let m ← orFault (writeWords m sp [action.restorer])
  return (c', t, m, ⟨fpstate, siginfoSp, ucontext, sp⟩)

/-- The mask while the handler runs. -/
def handlerMask (t : SigThread) (signum : Nat) (action : SigAction) : SigThread :=
  { t with
    sigmask :=
      if action.flags &&& SA_NODEFER = 0 then t.sigmask ||| action.mask ||| sigBit signum
      else t.sigmask ||| action.mask
    hasSavedSigmask := false }

def setupSignalFrame (c : Cpu) (cr2 : Word) (t : SigThread) (m : ByteMemory) (f : InterruptFrame)
    (signum : Nat) (action : SigAction) (siginfo : Option KernelSigInfo) :
    Except Stop (Cpu × SigThread × ByteMemory × InterruptFrame) := do
  let (c, t, m, l) ← pushFrame c t m f.rsp signum action siginfo fun fpstate oldmask =>
    { r15 := f.r15, r14 := f.r14, r13 := f.r13, r12 := f.r12, r11 := f.r11, r10 := f.r10,
      r9 := f.r9, r8 := f.r8, rdi := f.rdi, rsi := f.rsi, rbp := f.rbp, rbx := f.rbx, rdx := f.rdx,
      rcx := f.rcx, rax := f.rax, rip := f.rip, cs := f.cs.setWidth 16, rflags := f.rflags,
      rsp := f.rsp, ss := f.ss, gs := 0, fs := 0, err := f.errorCode, trapno := f.vector,
      oldmask := oldmask, cr2 := if signum = SIGSEGV ∨ signum = SIGBUS then cr2 else 0,
      fpstate := fpstate }
  let f := { f with rip := action.handler, rsp := BitVec.ofNat 64 l.sp, rdi := BitVec.ofNat 64 signum }
  let f :=
    if action.flags &&& SA_SIGINFO ≠ 0 then
      { f with rsi := BitVec.ofNat 64 l.siginfo, rdx := BitVec.ofNat 64 l.ucontext }
    else f
  let f := { f with rflags := f.rflags &&& ~~~ 0x400 }
  return (c, handlerMask t signum action, m, f)

def setupSignalFrameForSyscall (c : Cpu) (t : SigThread) (m : ByteMemory) (f : SyscallFrame)
    (signum : Nat) (action : SigAction) (siginfo : Option KernelSigInfo) :
    Except Stop (Cpu × SigThread × ByteMemory × SyscallFrame) := do
  let (c, t, m, l) ← pushFrame c t m f.getUserRsp signum action siginfo fun fpstate oldmask =>
    { r15 := f.r15, r14 := f.r14, r13 := f.r13, r12 := f.r12, r11 := f.r11, r10 := f.r10,
      r9 := f.r9, r8 := f.r8, rdi := f.rdi, rsi := f.rsi, rbp := f.rbp, rbx := f.rbx, rdx := f.rdx,
      rcx := f.rcx, rax := f.rax, rip := f.getReturnRip, cs := 0x23, rflags := f.r11,
      rsp := f.getUserRsp, ss := 0x1b, gs := 0, fs := 0, err := 0, trapno := 0,
      oldmask := oldmask, cr2 := 0, fpstate := fpstate }
  let f :=
    { f with rcx := action.handler, userRsp := BitVec.ofNat 64 l.sp, rdi := BitVec.ofNat 64 signum }
  let f :=
    if action.flags &&& SA_SIGINFO ≠ 0 then
      { f with rsi := BitVec.ofNat 64 l.siginfo, rdx := BitVec.ofNat 64 l.ucontext }
    else f
  let f := { f with r11 := f.r11 &&& ~~~ 0x400 }
  return (c, handlerMask t signum action, m, f)

/-! ## 6. Delivery -/

/-- The lowest pending signal that is not blocked, with its information; its bit is cleared. -/
def takeSignal (t : SigThread) : Option (Nat × Option KernelSigInfo × SigThread) :=
  let pending := t.pendingSignals &&& ~~~ t.sigmask
  if pending = 0 then none
  else
    let bit := ctz pending
    let (info, q) := t.siginfoQueue.dequeueBySignal (bit + 1)
    some (bit + 1, info,
      { t with pendingSignals := t.pendingSignals &&& ~~~ ((1 : Word) <<< bit), siginfoQueue := q })

/-- `handleDefaultAction`. A thread that stops blocks here, and has `stopped` cleared when it is
    resumed. -/
def handleDefaultAction (t : SigThread) (signum : Nat) : Except Stop SigThread :=
  match getDefaultAction signum with
  | .Ignore => .ok t
  | .Stop => .ok { t with stopped := false }
  | .Continue => .ok { t with stopped := false }
  | .Core | .Terminate => .error (.exit (128 + signum))

/-- The hook of the interrupt dispatcher on the way back to user mode. -/
def checkSignals (c : Cpu) (cr2 : Word) (t : SigThread) (m : ByteMemory) (f : InterruptFrame) :
    Except Stop (Cpu × SigThread × ByteMemory × InterruptFrame) :=
  match takeSignal t with
  | none => .ok (c, t, m, f)
  | some (signum, info, t) =>
    let action := t.action signum
    if action.handler = SIG_DFL then do
      let t ← handleDefaultAction t signum
      return (c, t, m, f)
    else if action.handler = SIG_IGN then .ok (c, t, m, f)
    else setupSignalFrame c cr2 t m f signum action info

/-- The deferred part of `checkSignalsOnSyscallExit`. -/
def restoreSavedMask (t : SigThread) : SigThread :=
  if t.hasSavedSigmask then { t with sigmask := t.savedSigmask, hasSavedSigmask := false } else t

def checkSignalsOnSyscallExit (c : Cpu) (t : SigThread) (m : ByteMemory) (f : SyscallFrame) :
    Except Stop (Cpu × SigThread × ByteMemory × SyscallFrame) :=
  match takeSignal t with
  | none => .ok (c, restoreSavedMask t, m, f)
  | some (signum, info, t) =>
    let action := t.action signum
    if action.handler = SIG_DFL then do
      let t ← handleDefaultAction t signum
      return (c, restoreSavedMask t, m, f)
    else if action.handler = SIG_IGN then .ok (c, restoreSavedMask t, m, f)
    else do
      let (c, t, m, f) ← setupSignalFrameForSyscall c t m f signum action info
      return (c, restoreSavedMask t, m, f)

/-! ## 7. System calls -/

/-- `none` where the number is none of the three. -/
def changeMask (how : Word) (mask set : SigSet) : Option SigSet :=
  if how = SIG_BLOCK then some (mask ||| set)
  else if how = SIG_UNBLOCK then some (mask &&& ~~~ set)
  else if how = SIG_SETMASK then some set
  else none

/-- SIGKILL and SIGSTOP cannot be blocked. -/
def unblockable (mask : SigSet) : SigSet := sigdelset (sigdelset mask SIGKILL) SIGSTOP

/-- A copy out to a pointer that may be null. -/
def writeOut (m : ByteMemory) (ptr : Word) (l : List Word) : Except SigErrno ByteMemory :=
  if ptr = 0 then .ok m
  else
    match writeWords m ptr.toNat l with
    | none => .error .EFAULT
    | some m => .ok m

def sysRtSigprocmask (t : SigThread) (m : ByteMemory) (how setPtr oldsetPtr sigsetsize : Word) :
    SigThread × ByteMemory × Except SigErrno Nat :=
  if sigsetsize ≠ 8 then (t, m, .error .EINVAL)
  else
    match writeOut m oldsetPtr [t.sigmask] with
    | .error e => (t, m, .error e)
    | .ok m =>
      if setPtr = 0 then (t, m, .ok 0)
      else
        match readWord m setPtr with
        | none => (t, m, .error .EFAULT)
        | some set =>
          match changeMask how t.sigmask set with
          | none => (t, m, .error .EINVAL)
          | some mask => ({ t with sigmask := unblockable mask }, m, .ok 0)

def SigAction.toWords (a : SigAction) : List Word := [a.handler, a.flags, a.restorer, a.mask]

def SigAction.ofWords (l : List Word) : SigAction :=
  ⟨l.getD 0 0, l.getD 1 0, l.getD 2 0, l.getD 3 0⟩

def sysRtSigaction (t : SigThread) (m : ByteMemory) (signum actPtr oldactPtr sigsetsize : Word) :
    SigThread × ByteMemory × Except SigErrno Nat :=
  let n := signum.toNat
  if sigsetsize ≠ 8 then (t, m, .error .EINVAL)
  else if n = 0 ∨ n > 64 then (t, m, .error .EINVAL)
  else if n = SIGKILL ∨ n = SIGSTOP then (t, m, .error .EINVAL)
  else
    match writeOut m oldactPtr (t.action n).toWords with
    | .error e => (t, m, .error e)
    | .ok m =>
      if actPtr = 0 then (t, m, .ok 0)
      else
        match readWords m actPtr.toNat 4 with
        | none => (t, m, .error .EFAULT)
        | some l =>
          ({ t with signalActions := t.signalActions.set (n - 1) (SigAction.ofWords l) }, m, .ok 0)

/-- `sys_rt_sigsuspend` up to the point where the thread may block: the mask it had, which the
    call keeps meanwhile, and whether it blocks. -/
def sysRtSigsuspend (t : SigThread) (m : ByteMemory) (maskPtr sigsetsize : Word) :
    SigThread × Except SigErrno (SigSet × Bool) :=
  if sigsetsize ≠ 8 then (t, .error .EINVAL)
  else
    match readWord m maskPtr with
    | none => (t, .error .EFAULT)
    | some newMask =>
      ({ t with sigmask := unblockable newMask },
        .ok (t.sigmask, t.pendingSignals &&& ~~~ newMask = 0))

/-- The rest of `sys_rt_sigsuspend`, which ends in EINTR. -/
def sigsuspendWoken (t : SigThread) (oldMask : SigSet) : SigThread :=
  { t with savedSigmask := oldMask, hasSavedSigmask := true }

abbrev SAFE_RFLAGS_MASK : Word := 0xCD5
abbrev REQUIRED_RFLAGS : Word := 0x202

/-- What `rt_sigreturn` does with the place of the FPU state. -/
def restoreFpu (c : Cpu) (t : SigThread) (m : ByteMemory) (fpstate : Word) :
    Except Stop (Cpu × SigThread) :=
  let size := t.fpuStateBuffer.length
  if fpstate = 0 ∨ !isValidUserPtr fpstate.toNat size then .ok (c, t)
  else do
    let l ← orFault (copyFromUser m fpstate.toNat size)
    let t := { t with fpuStateBuffer := l, fpuUsed := true }
    return ({ (handleFpuAccess c t.toThread).1 with fpuRegs := l }, t)

/-- The frame is restored before the address to return to is checked, and nobody returns to it
    where that check fails. -/
def sysRtSigreturn (c : Cpu) (t : SigThread) (m : ByteMemory) (f : SyscallFrame) :
    Except Stop (Cpu × SigThread × SyscallFrame) := do
  let l ← orFault (readWords m f.getUserRsp.toNat (UContext.size / 8))
  let u := UContext.ofWords l
  let mc := u.mcontext
  if !isValidUserPtr mc.rip.toNat 1 then .error (.exit (128 + 11))
  else do
    let f : SyscallFrame :=
      { r15 := mc.r15, r14 := mc.r14, r13 := mc.r13, r12 := mc.r12, r10 := mc.r10, r9 := mc.r9,
        r8 := mc.r8, rdi := mc.rdi, rsi := mc.rsi, rbp := mc.rbp, rbx := mc.rbx, rdx := mc.rdx,
        rax := mc.rax, rcx := mc.rip, userRsp := mc.rsp,
        r11 := mc.rflags &&& SAFE_RFLAGS_MASK ||| REQUIRED_RFLAGS }
    let t := { t with fsBase := mc.fs.setWidth 64, sigmask := u.sigmask }
    let (c, t) ← restoreFpu c t m mc.fpstate
    return (c, t, f)

/-! ## 8. Senders -/

/-- Where a full queue drops the information. -/
def enqueueOrDrop (q : SigInfoQueue) (info : KernelSigInfo) : SigInfoQueue :=
  (q.enqueue info).getD q

/-- `sched.unblock`. -/
def unblock (t : SigThread) : SigThread := { t with state := .Ready }

def setPending (t : SigThread) (signum : Nat) : SigThread :=
  { t with pendingSignals := t.pendingSignals ||| sigBit signum }

def isPending (t : SigThread) (signum : Nat) : Bool := t.pendingSignals &&& sigBit signum ≠ 0

/-- Real-time signals queue every instance, standard ones only the first. -/
def queues (t : SigThread) (signum : Nat) : Bool := signum ≥ 32 || !isPending t signum

def wake (t : SigThread) : SigThread :=
  if t.state = .Blocked ∧ !t.stopped then unblock t else t

/-- A stopped thread is resumed. -/
def resume (t : SigThread) : SigThread :=
  if t.stopped then
    let t := { t with stopped := false }
    if t.state = .Blocked then unblock t else t
  else t

/-- The signals that stop a thread where it has no handler for them. -/
def stopsThread (t : SigThread) (signum : Nat) : Bool :=
  signum ∈ [SIGSTOP, SIGTSTP, SIGTTIN, SIGTTOU] &&
    (signum = SIGSTOP || (t.action signum).handler = SIG_DFL)

def stopThread (t : SigThread) : SigThread :=
  { t with
    stopped := true
    state := if t.state = .Running ∨ t.state = .Ready then .Blocked else t.state }

/-- The information is queued before the bit is set. -/
def deliverSignalToThreadWithInfo (t : SigThread) (signum : Nat) (info : Option KernelSigInfo) :
    SigThread :=
  let t := if signum = SIGCONT then resume t else t
  if stopsThread t signum then stopThread t
  else
    let t :=
      if queues t signum then
        { t with
          siginfoQueue :=
            enqueueOrDrop t.siginfoQueue (info.getD ⟨signum, SI_KERNEL, 0, 0, 0, 0⟩) }
      else t
    wake (setPending t signum)

/-- The end of `sys_rt_sigqueueinfo` and of `sys_rt_tgsigqueueinfo`, which report a full queue. -/
def queueSignal (t : SigThread) (signum : Nat) (info : KernelSigInfo) :
    SigThread × Except SigErrno Nat :=
  if queues t signum then
    match t.siginfoQueue.enqueue info with
    | none => (t, .error .EAGAIN)
    | some q => (wake (setPending { t with siginfoQueue := q } signum), .ok 0)
  else (wake (setPending t signum), .ok 0)

/-- A POSIX timer that expires sets the bit first. -/
def posixTimerSignal (t : SigThread) (signo : Nat) (value : Word) : SigThread :=
  let t := setPending t signo
  { t with siginfoQueue := enqueueOrDrop t.siginfoQueue ⟨signo, SI_TIMER, 0, 0, value, 0⟩ }

/-! ## 9. Consumers without a handler -/

/-- `tryDequeueSignal` of `rt_sigtimedwait`. -/
def tryDequeueSignal (t : SigThread) (waitSet : SigSet) : Option (KernelSigInfo × SigThread) :=
  let matching := t.pendingSignals &&& waitSet
  if matching = 0 then none
  else
    let bit := ctz matching
    let signo := bit + 1
    let (info, q) := t.siginfoQueue.dequeueBySignal signo
    let clears := if signo ≥ 32 then !q.hasSignal signo else true
    let pending :=
      if clears then t.pendingSignals &&& ~~~ ((1 : Word) <<< bit) else t.pendingSignals
    some (info.getD ⟨signo, SI_USER, 0, 0, 0, 0⟩, { t with pendingSignals := pending, siginfoQueue := q })

/-- What a read of a signalfd with a mask takes. -/
def signalfdTake (t : SigThread) (mask : SigSet) : Option (Nat × Option KernelSigInfo × SigThread) :=
  let pending := t.pendingSignals &&& mask
  if pending = 0 then none
  else
    let bit := ctz pending
    let (info, q) := t.siginfoQueue.dequeueBySignal (bit + 1)
    some (bit + 1, info,
      { t with pendingSignals := t.pendingSignals &&& ~~~ ((1 : Word) <<< bit), siginfoQueue := q })

end Zigk.Proc
