/-
  Subject:   THE SCHEDULER: threads, wait queues, ready queues, the sleep list, and what every CPU
             does with them.

  Sections under a lock are atomic. Where a function runs through several of them it is one step
  for each: `wakeUp` and `futex.wake` pop a thread under the lock of its queue and make it ready
  under the lock of the scheduler; `doPerCpuSchedule` puts the current thread back and takes the
  next one.

  * `Thread`, `Scheduler` -- wait queues and ready queues are intrusive (Zigk.Base.Queues), the
    sleep list is its list of threads;
  * `block`, `unblock`, `waitOn`, `waitOnWithTimeout`, `sleepForTicks`, `wakeSleeper`, `exit`,
    `putBack`, `takeNext` and the others -- the functions of scheduler.zig, queue.zig and cpu.zig;
  * `scheduler` -- the machine of all CPUs; `booted`, a concrete start.
-/
import Mathlib.Algebra.Ring.Nat
import Zigk.Base.Machine
import Zigk.Base.Queues

namespace Zigk.Sched

open Function List

/-! ## 1. Threads and queues -/

abbrev ThreadId := Nat

abbrev CpuId := Nat

inductive ThreadState where
  | Ready | Running | Blocked | Zombie
  deriving DecidableEq, Repr

inductive FutexWakeupReason where
  | none | woken | timeout
  deriving DecidableEq, Repr

def BUCKET_COUNT : Nat := 256

def MAX_CPUS : Nat := 16

/-- The wait queues: those of the futex buckets and all others. -/
inductive QueueId where
  | futex (bucket : Fin BUCKET_COUNT)
  | other (n : Nat)
  deriving DecidableEq, Repr

structure Thread where
  state : ThreadState := .Ready
  parent : Option ThreadId := none
  wakeTime : Nat := 0
  pendingWakeup : Bool := false
  wait4Waiting : Bool := false
  stopped : Bool := false
  cpuAffinity : Nat := 0xFFFFFFFF
  lastCpu : CpuId := 0
  futexWakeupReason : FutexWakeupReason := .none
  futexBucket : Option (Fin BUCKET_COUNT) := none
  deriving DecidableEq, Repr

/-- What a CPU is in the middle of, between two locked sections. -/
inductive CpuPc where
  | running
  /-- In `doPerCpuSchedule`, after the current thread was put back. -/
  | switching
  /-- In `wakeUp` or `futex.wake`, with the thread it has popped. -/
  | waking (t : ThreadId)
  deriving DecidableEq, Repr

structure Scheduler where
  threads : ThreadId → Thread
  waits : Queues QueueId ThreadId
  ready : Queues CpuId ThreadId
  sleepList : List ThreadId
  tickCount : Nat
  current : CpuId → Option ThreadId
  idle : CpuId → ThreadId
  initialized : CpuId → Bool
  activeCpuCount : Nat
  pc : CpuId → CpuPc

namespace Scheduler

def mapThread (s : Scheduler) (t : ThreadId) (f : Thread → Thread) : Scheduler :=
  { s with threads := update s.threads t (f (s.threads t)) }

def setState (s : Scheduler) (t : ThreadId) (st : ThreadState) : Scheduler :=
  s.mapThread t fun th => { th with state := st }

def state (s : Scheduler) (t : ThreadId) : ThreadState := (s.threads t).state

/-! ## 2. Ready queues (cpu.zig) -/

/-- The thread may run on the CPU. -/
def allows (s : Scheduler) (t : ThreadId) (c : CpuId) : Bool :=
  (s.threads t).cpuAffinity == 0xFFFFFFFF || (s.threads t).cpuAffinity.testBit c

def getTargetCpu (s : Scheduler) (c : CpuId) (t : ThreadId) : CpuId :=
  let last := (s.threads t).lastCpu
  if last < MAX_CPUS ∧ s.initialized last = true ∧ s.allows t last = true then last else c

def addToReadyQueue (s : Scheduler) (c : CpuId) (t : ThreadId) : Scheduler :=
  let s := s.setState t .Ready
  { s with ready := s.ready.append (s.getTargetCpu c t) t }

/-- `stealFromOtherCpu()` with `attempts` left; `free`: the locks that `tryAcquire` gets. -/
def steal (s : Scheduler) (c : CpuId) (free : CpuId → Bool) :
    Nat → CpuId → Queues CpuId ThreadId → Queues CpuId ThreadId × Option ThreadId
  | 0, _, ready => (ready, none)
  | attempts + 1, victim, ready =>
    let next := (victim + 1) % MAX_CPUS
    if victim ≠ c ∧ s.initialized victim = true ∧ free victim = true then
      match ready.popLast victim with
      | (ready', some t) =>
        if s.allows t c then (ready', some t)
        else s.steal c free attempts next (ready'.append victim t)
      | (_, none) => s.steal c free attempts next ready
    else s.steal c free attempts next ready

def stealFromOtherCpu (s : Scheduler) (c : CpuId) (free : CpuId → Bool) :
    Queues CpuId ThreadId × Option ThreadId :=
  s.steal c free s.activeCpuCount ((c + 1) % s.activeCpuCount) s.ready

def removeFromReadyQueue (s : Scheduler) (c : CpuId) (free : CpuId → Bool) :
    Queues CpuId ThreadId × Option ThreadId :=
  match s.ready.popFirst c with
  | (ready, some t) => (ready, some t)
  | (_, none) => s.stealFromOtherCpu c free

/-! ## 3. Wait queues (queue.zig) -/

/-- `WaitQueue.append()`. -/
def append (s : Scheduler) (q : QueueId) (t : ThreadId) : Scheduler :=
  { s with waits := s.waits.append q t }

/-- `WaitQueue.pop()`. -/
def pop (s : Scheduler) (q : QueueId) : Scheduler × Option ThreadId :=
  match s.waits.popFirst q with
  | (waits, t) => ({ s with waits := waits }, t)

/-- `WaitQueue.removeThread()`. -/
def removeThread (s : Scheduler) (q : QueueId) (t : ThreadId) : Scheduler × Bool :=
  if s.waits.holds q t then ({ s with waits := s.waits.remove q t }, true) else (s, false)

/-! ## 4. The sleep list -/

/-- The place in a list sorted by wake time: before the first thread that wakes no earlier. -/
def insertBy (wake : ThreadId → Nat) (t : ThreadId) : List ThreadId → List ThreadId
  | [] => [t]
  | u :: l => if wake t ≤ wake u then t :: u :: l else u :: insertBy wake t l

def insertSleepThread (s : Scheduler) (t : ThreadId) : Scheduler :=
  { s with sleepList := insertBy (fun u => (s.threads u).wakeTime) t s.sleepList }

def removeFromSleepList (s : Scheduler) (t : ThreadId) : Scheduler :=
  { s.mapThread t fun th => { th with wakeTime := 0 } with sleepList := s.sleepList.erase t }

/-! ## 5. Blocking and waking (scheduler.zig) -/

/-- The largest `u64`. -/
def maxTick : Nat := 2 ^ 64 - 1

/-- `block()` of the thread that runs on `c`. -/
def block (s : Scheduler) (t : ThreadId) : Scheduler :=
  if (s.threads t).pendingWakeup then s.mapThread t fun th => { th with pendingWakeup := false }
  else (s.removeFromSleepList t).mapThread t fun th => { th with state := .Blocked, wakeTime := 0 }

def unblock (s : Scheduler) (c : CpuId) (t : ThreadId) : Scheduler :=
  if s.state t = .Blocked then (s.removeFromSleepList t).addToReadyQueue c t
  else if s.state t = .Running then s.mapThread t fun th => { th with pendingWakeup := true }
  else s

def waitOn (s : Scheduler) (q : QueueId) (t : ThreadId) : Scheduler :=
  (s.append q t).setState t .Blocked

def waitOnWithTimeout (s : Scheduler) (q : QueueId) (ticks : Nat)
    (bucket : Option (Fin BUCKET_COUNT)) (t : ThreadId) : Scheduler :=
  let s := (s.append q t).setState t .Blocked
  if 0 < ticks then
    (s.mapThread t fun th => { th with
      wakeTime := min (s.tickCount + ticks) maxTick
      futexBucket := bucket
      futexWakeupReason := .none }).insertSleepThread t
  else
    s.mapThread t fun th => { th with wakeTime := 0, futexBucket := none, futexWakeupReason := .none }

def sleepForTicks (s : Scheduler) (ticks : Nat) (t : ThreadId) : Scheduler :=
  if ticks = 0 then s
  else
    ((s.removeFromSleepList t).mapThread t fun th => { th with
      state := .Blocked
      wakeTime := if maxTick - s.tickCount < ticks then maxTick else s.tickCount + ticks
      }).insertSleepThread t

def cancelTimeoutAndWake (s : Scheduler) (c : CpuId) (t : ThreadId) : Scheduler :=
  if s.state t ≠ .Blocked then s
  else
    let s := if (s.threads t).wakeTime ≠ 0 then s.removeFromSleepList t else s
    (s.mapThread t fun th => { th with
      futexBucket := none
      futexWakeupReason := .woken }).addToReadyQueue c t

/-- The end of a round of `wakeSleepingThreads`: a thread that is still blocked becomes ready. -/
def readySleeper (s : Scheduler) (c : CpuId) (t : ThreadId) : Scheduler :=
  if s.state t = .Blocked then s.addToReadyQueue c t else s

/-- One round of `wakeSleepingThreads(now)`; `free`: whether `tryAcquire` gets the bucket's lock. -/
def wakeSleeper (s : Scheduler) (c : CpuId) (now : Nat) (free : Bool) : Scheduler :=
  match s.sleepList with
  | [] => s
  | t :: _ =>
    if now < (s.threads t).wakeTime then s
    else
      let s := s.removeFromSleepList t
      match (s.threads t).futexBucket with
      | none => s.readySleeper c t
      | some b =>
        if free then
          ((s.removeThread (.futex b) t).1.mapThread t fun th => { th with
            futexWakeupReason := .timeout
            futexBucket := none }).readySleeper c t
        else (s.mapThread t fun th => { th with wakeTime := now + 1 }).insertSleepThread t

/-- An alarm of the thread `t` expires. -/
def expireAlarm (s : Scheduler) (c : CpuId) (t : ThreadId) : Scheduler :=
  if s.state t = .Blocked then s.unblock c t else s

/-- `exitWithStatus()`: the thread leaves its CPU and wakes its parent. -/
def exit (s : Scheduler) (c : CpuId) (t : ThreadId) : Scheduler :=
  let s := s.setState t .Zombie
  let s := { s with current := update s.current c none }
  match (s.threads t).parent with
  | none => s
  | some parent =>
    if s.state parent = .Blocked then s.addToReadyQueue c parent
    else if s.state parent = .Running ∧ (s.threads parent).wait4Waiting = true then
      s.mapThread parent fun th => { th with pendingWakeup := true }
    else s

/-! ## 6. `doPerCpuSchedule` -/

/-- The current thread, still running and not the idle thread, goes back to its queue. -/
def putBack (s : Scheduler) (c : CpuId) : Scheduler :=
  match s.current c with
  | some t => if s.state t = .Running ∧ t ≠ s.idle c then s.addToReadyQueue c t else s
  | none => s

def switchTo (s : Scheduler) (c : CpuId) (t : ThreadId) : Scheduler :=
  { s.mapThread t fun th => { th with lastCpu := c, state := .Running } with
    current := update s.current c (some t)
    pc := update s.pc c .running }

/-- The next thread is taken; a stopped one is left blocked and another is looked for. -/
def takeNext (s : Scheduler) (c : CpuId) (free : CpuId → Bool) : Scheduler :=
  match s.removeFromReadyQueue c free with
  | (ready, some t) =>
    let s := { s with ready := ready }
    if (s.threads t).stopped then s.setState t .Blocked else s.switchTo c t
  | (ready, none) => { s with ready := ready }.switchTo c (s.idle c)

end Scheduler

/-! ## 7. All CPUs -/

inductive Op where
  /-- Calls of the thread that runs on the CPU. -/
  | block
  | sleepForTicks (ticks : Nat)
  | waitOn (q : QueueId)
  | waitOnWithTimeout (q : QueueId) (ticks : Nat) (bucket : Option (Fin BUCKET_COUNT))
  | exit
  /-- Calls of the running thread or of an interrupt handler. -/
  | unblock (t : ThreadId)
  | removeThread (q : QueueId) (t : ThreadId)
  | pop (q : QueueId)
  /-- `wakeUp` makes the thread it has popped ready. -/
  | readyPopped
  /-- `futex.wake` makes the thread it has popped ready. -/
  | cancelTimeoutAndWake
  /-- The timer interrupt: the tick, sleepers, alarms, and the switch in two steps. -/
  | tick
  | wakeSleeper (now : Nat) (free : Bool)
  | expireAlarm (t : ThreadId)
  | putBack
  | takeNext (free : CpuId → Bool)
  /-- Another interrupt: a thread that has halted in `block()` goes on. -/
  | interrupt
  /-- Signals stop and continue a thread; `wait4` sets its flag. -/
  | setStopped (t : ThreadId) (b : Bool)
  | setWait4Waiting (t : ThreadId) (b : Bool)

/-- A call of the current thread; the idle thread only halts. -/
def callOf (s : Scheduler) (c : CpuId) (f : ThreadId → Scheduler) : Scheduler :=
  match s.current c with
  | some t => if t = s.idle c then s else f t
  | none => s

/-- A step of a CPU that is not in the middle of something. -/
def runOp (s : Scheduler) (c : CpuId) : Op → Scheduler
  | .block => callOf s c s.block
  | .sleepForTicks ticks => callOf s c (s.sleepForTicks ticks)
  | .waitOn q => callOf s c (s.waitOn q)
  | .waitOnWithTimeout q ticks bucket => callOf s c (s.waitOnWithTimeout q ticks bucket)
  | .exit => callOf s c (s.exit c)
  | .unblock t => s.unblock c t
  | .removeThread q t => (s.removeThread q t).1
  | .pop q =>
    match s.pop q with
    | (s', some t) => { s' with pc := update s'.pc c (.waking t) }
    | (s', none) => s'
  | .tick => { s with tickCount := s.tickCount + 1 }
  | .wakeSleeper now free => s.wakeSleeper c now free
  | .expireAlarm t => s.expireAlarm c t
  | .putBack => { s.putBack c with pc := update s.pc c .switching }
  | .setStopped t b => s.mapThread t fun th => { th with stopped := b }
  | .setWait4Waiting t b => s.mapThread t fun th => { th with wait4Waiting := b }
  | _ => s

/-- What the CPU is in the middle of comes first. -/
def schedStep (s : Scheduler) (i : CpuId × Op) : Scheduler :=
  match s.pc i.1, i.2 with
  | .running, op => runOp s i.1 op
  | .switching, .takeNext free => s.takeNext i.1 free
  | .waking t, .readyPopped =>
    { s.addToReadyQueue i.1 t with pc := update s.pc i.1 .running }
  | .waking t, .cancelTimeoutAndWake =>
    { s.cancelTimeoutAndWake i.1 t with pc := update s.pc i.1 .running }
  | _, _ => s

/-- Before the first thread blocks: some threads are ready, every CPU runs its idle thread. -/
structure Boots (s : Scheduler) : Prop where
  waits : s.waits = .empty
  ready : ∃ R, s.ready.Reads R ∧ ∀ t, (∃ c, t ∈ R c) ↔ s.state t = .Ready
  sleepers : s.sleepList = []
  idle : ∀ c, s.current c = some (s.idle c) ∧ s.state (s.idle c) = .Running
  distinct : ∀ c d, s.idle c = s.idle d → c = d
  running : ∀ t, s.state t ≠ .Blocked
  pc : ∀ c, s.pc c = .running

def scheduler : Machine Scheduler (CpuId × Op) := ⟨Boots, schedStep⟩

/-- Two CPUs; the threads 1 and 2 are ready on the first one. -/
def booted : Scheduler :=
  { threads := fun t =>
      { state := if 1000 ≤ t then .Running else if t = 1 ∨ t = 2 then .Ready else .Zombie }
    waits := .empty
    ready := (Queues.empty.append 0 1).append 0 2
    sleepList := []
    tickCount := 0
    current := fun c => some (1000 + c)
    idle := fun c => 1000 + c
    initialized := fun c => decide (c < 2)
    activeCpuCount := 2
    pc := fun _ => .running }

theorem booted_boots : scheduler.start booted := by
  have h1 := Queues.Reads.append (q := 0) (p := 1) (Queues.reads_empty (Q := CpuId) (P := ThreadId))
    fun _ => not_mem_nil
  have h2 := h1.append (q := 0) (p := 2) fun c => by
    by_cases e : c = 0
    · rw [e, update_self]
      decide
    · rw [update_of_ne e]
      exact not_mem_nil
  refine ⟨rfl, ⟨_, h2, fun t => ⟨?_, fun ht => ⟨0, ?_⟩⟩⟩, rfl, fun c => ⟨rfl, ?_⟩, fun c d e => ?_,
    fun t => ?_, fun _ => rfl⟩
  · rintro ⟨c, hc⟩
    by_cases e : c = 0
    · rw [e, update_self, update_self] at hc
      have ht : t = 1 ∨ t = 2 := by simpa using hc
      rcases ht with rfl | rfl <;> rfl
    · rw [update_of_ne e, update_of_ne e] at hc
      exact (not_mem_nil hc).elim
  · rw [update_self, update_self]
    change (if 1000 ≤ t then ThreadState.Running else if t = 1 ∨ t = 2 then .Ready else .Zombie) = _
      at ht
    split at ht
    · cases ht
    · split at ht
      · simpa using ‹t = 1 ∨ t = 2›
      · cases ht
  · exact if_pos (Nat.le_add_right _ _)
  · exact Nat.add_left_cancel e
  · change (if 1000 ≤ t then ThreadState.Running else if t = 1 ∨ t = 2 then .Ready else .Zombie) ≠ _
    split
    · decide
    · split <;> decide

end Zigk.Sched
