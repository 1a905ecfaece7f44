/-
  Subject:   FUTEX WAKE AGAINST FUTEX TIMEOUT: the wake path and the timeout path hold different
             locks, and each of their accesses is a step of its own.

  `wake` holds the lock of its bucket and, for each thread it pops, the lock of the scheduler; the
  timer interrupt holds the sleep lock and tries the lock of the bucket. `wakers b` is the `wake`
  that holds the lock of the bucket `b`, `ticker` the interrupt that holds the sleep lock; how many
  CPUs there are is open, and so is which of them takes a ready thread.

  * `Futexes`, `FutexOp`, `futexStep` -- the machine;
  * `Outcomes` -- which waits were counted by a `wake`, and what `wait` returned;
  * `Accounting` -- a wait that was counted does not time out, and a thread that is out of `wait` is
    in no bucket and not on the sleep list;
  * `KeepsOutcomes` -- where a step keeps it: no CPU takes the timeout path and another the wake path
    with one thread (`clash`), a thread that a CPU still has in hand does not wait again, and only a
    `wake` or a timeout makes a thread ready that waits;
  * **`futexOutcomes`** -- in every run of such steps.
-/
import Zigk.Proc.Futex

namespace Zigk.Futex

open Function List Option Bool
open Sched

/-! ## 1. The machine -/

/-- Where a `wake` is, between two accesses. -/
inductive WakePc where
  | loop
  /-- `t` is popped; next comes the look at its state and its `wake_time`. -/
  | popped (t : ThreadId)
  /-- `t` has a `wake_time`; next it leaves the sleep list. -/
  | unsleeping (t : ThreadId)
  /-- Next `t` gets its reason and becomes ready. -/
  | finishing (t : ThreadId)
  deriving DecidableEq, Repr

structure Waker where
  cpu : CpuId
  left : Nat
  woken : Nat := 0
  pc : WakePc := .loop
  deriving DecidableEq, Repr

/-- Where `wakeSleepingThreads` is, between two accesses. -/
inductive TickPc where
  | loop
  /-- `t` has left the sleep list; next comes the look at its `futex_bucket`. -/
  | detached (t : ThreadId)
  /-- `futex_bucket` was `b`; next comes the try for its lock. -/
  | tries (t : ThreadId) (b : Fin BUCKET_COUNT)
  /-- The lock of `b` is held; next `t` leaves the bucket and gets its reason. -/
  | expiring (t : ThreadId) (b : Fin BUCKET_COUNT)
  /-- Next `t` becomes ready, if it is blocked. -/
  | expired (t : ThreadId)
  deriving DecidableEq, Repr

structure Ticker where
  cpu : CpuId
  now : Nat
  pc : TickPc := .loop
  deriving DecidableEq, Repr

structure Futexes where
  sched : Scheduler
  /-- The thread has called `wait` and not returned from it. -/
  inWait : ThreadId → Bool
  wakers : Fin BUCKET_COUNT → Option Waker
  ticker : Option Ticker
  /-- The bucket whose `wake` holds the lock of the scheduler. -/
  schedLock : Option (Fin BUCKET_COUNT)

open Futexes

inductive FutexOp where
  | wait (t : ThreadId) (b : Fin BUCKET_COUNT) (ticks : Nat)
  /-- `wait` goes on after the sleep, and returns. -/
  | returned (t : ThreadId)
  | wake (c : CpuId) (b : Fin BUCKET_COUNT) (count : Nat)
  /-- The next access of the `wake` in `b`. -/
  | waker (b : Fin BUCKET_COUNT)
  | tick (c : CpuId) (now : Nat)
  /-- The next access of the timer interrupt. -/
  | ticker
  /-- Someone, an alarm for instance, calls `unblock`. -/
  | unblock (c : CpuId) (t : ThreadId)
  /-- A CPU takes a thread from its own queue, or steals one. -/
  | take (c : CpuId) (steals : Bool)
  /-- A thread is put back by its CPU. -/
  | preempt (c : CpuId) (t : ThreadId)
  deriving DecidableEq, Repr

namespace Futexes

def tickPc (w : Futexes) : Option TickPc := w.ticker.map Ticker.pc

def wakePc (w : Futexes) (b : Fin BUCKET_COUNT) : Option WakePc := (w.wakers b).map Waker.pc

/-- The lock of a bucket is free. -/
def bucketFree (w : Futexes) (b : Fin BUCKET_COUNT) : Bool :=
  (w.wakers b).isNone && match w.tickPc with
    | some (.expiring _ b') => decide (b' ≠ b)
    | _ => true

def setWaker (w : Futexes) (b : Fin BUCKET_COUNT) (k : Option Waker) : Futexes :=
  { w with wakers := update w.wakers b k }

/-- The next thread of the loop of `wake`. -/
def goOn (w : Futexes) (b : Fin BUCKET_COUNT) (k : Waker) : Futexes :=
  w.setWaker b (some { k with left := k.left - 1, woken := k.woken + 1, pc := .loop })

/-- One access of `wake` and `cancelTimeoutAndWake`. -/
def wakerStep (w : Futexes) (b : Fin BUCKET_COUNT) (k : Waker) : Futexes :=
  match k.pc with
  | .loop =>
    if k.left = 0 then w.setWaker b none
    else
      match w.sched.pop (.futex b) with
      | (s, some t) => { w with sched := s }.setWaker b (some { k with pc := .popped t })
      | (_, none) => w.setWaker b none
  | .popped t =>
    if w.schedLock.isSome then w
    else if w.sched.state t ≠ .Blocked then w.goOn b k
    else
      { w with schedLock := some b }.setWaker b (some { k with
        pc := if (w.sched.threads t).wakeTime ≠ 0 then .unsleeping t else .finishing t })
  | .unsleeping t =>
    if w.ticker.isSome then w
    else
      { w with sched := w.sched.removeFromSleepList t }.setWaker b
        (some { k with pc := .finishing t })
  | .finishing t =>
    { w with
      sched := (w.sched.mapThread t fun th => { th with
        futexBucket := none
        futexWakeupReason := .woken }).addToReadyQueue k.cpu t
      schedLock := none }.goOn b k

/-- One access of `wakeSleepingThreads`. -/
def tickerStep (w : Futexes) (k : Ticker) : Futexes :=
  match k.pc with
  | .loop =>
    match w.sched.sleepList with
    | [] => { w with ticker := none }
    | t :: _ =>
      if k.now < (w.sched.threads t).wakeTime then { w with ticker := none }
      else
        { w with
          sched := w.sched.removeFromSleepList t
          ticker := some { k with pc := .detached t } }
  | .detached t =>
    match (w.sched.threads t).futexBucket with
    | some b => { w with ticker := some { k with pc := .tries t b } }
    | none => { w with ticker := some { k with pc := .expired t } }
  | .tries t b =>
    if (w.wakers b).isNone then { w with ticker := some { k with pc := .expiring t b } }
    else
      { w with
        sched := (w.sched.mapThread t fun th => { th with
          wakeTime := k.now + 1 }).insertSleepThread t
        ticker := some { k with pc := .loop } }
  | .expiring t b =>
    { w with
      sched := (w.sched.removeThread (.futex b) t).1.mapThread t fun th => { th with
        futexWakeupReason := .timeout
        futexBucket := none }
      ticker := some { k with pc := .expired t } }
  | .expired t =>
    { w with
      sched := w.sched.readySleeper k.cpu t
      ticker := some { k with pc := .loop } }

/-- The first thread of a ready queue, or the last one, runs. -/
def takeReady (w : Futexes) (c : CpuId) (steals : Bool) : Futexes :=
  match if steals then w.sched.ready.popLast c else w.sched.ready.popFirst c with
  | (ready, some t) => { w with sched := { w.sched with ready := ready }.setState t .Running }
  | (_, none) => w

end Futexes

/-- A running thread may call `wait`; it takes the locks of the bucket and of the scheduler, and the
    sleep lock for a timeout. -/
def Futexes.mayWait (w : Futexes) (t : ThreadId) (b : Fin BUCKET_COUNT) (ticks : Nat) : Prop :=
  w.sched.state t = .Running ∧ w.inWait t = false ∧ w.bucketFree b = true ∧ w.schedLock = none ∧
    (ticks = 0 ∨ w.ticker = none)

instance (w : Futexes) (t : ThreadId) (b : Fin BUCKET_COUNT) (ticks : Nat) :
    Decidable (w.mayWait t b ticks) := inferInstanceAs (Decidable (_ ∧ _ ∧ _ ∧ _ ∧ _))

/-- `wait` returns when the thread runs again. -/
def Futexes.mayReturn (w : Futexes) (t : ThreadId) : Prop :=
  w.sched.state t = .Running ∧ w.inWait t = true

instance (w : Futexes) (t : ThreadId) : Decidable (w.mayReturn t) :=
  inferInstanceAs (Decidable (_ ∧ _))

/-- A step that finds a lock taken leaves the state as it is. -/
def futexStep (w : Futexes) : FutexOp → Futexes
  | .wait t b ticks =>
    if w.mayWait t b ticks then
      { w with
        sched := w.sched.waitOnWithTimeout (.futex b) ticks (if 0 < ticks then some b else none) t
        inWait := update w.inWait t true }
    else w
  | .returned t =>
    if w.mayReturn t then
      { w with inWait := update w.inWait t false }
    else w
  | .wake c b count =>
    if w.bucketFree b = true then w.setWaker b (some { cpu := c, left := count }) else w
  | .waker b =>
    match w.wakers b with
    | some k => w.wakerStep b k
    | none => w
  | .tick c now =>
    if w.ticker = none then { w with ticker := some { cpu := c, now := now } } else w
  | .ticker =>
    match w.ticker with
    | some k => w.tickerStep k
    | none => w
  | .unblock c t =>
    if w.schedLock = none ∧ w.ticker = none then { w with sched := w.sched.unblock c t } else w
  | .take c steals => w.takeReady c steals
  | .preempt c t =>
    if w.sched.state t = .Running then { w with sched := w.sched.addToReadyQueue c t } else w

/-- Before the first call of `wait`. -/
structure Quiet (w : Futexes) : Prop where
  waits : w.sched.waits = .empty
  ready : ∃ R, w.sched.ready.Reads R ∧ ∀ {c t}, t ∈ R c → w.sched.state t = .Ready
  sleepers : w.sched.sleepList = []
  awake : ∀ t, w.sched.state t ≠ .Blocked
  outside : ∀ t, w.inWait t = false
  wakers : ∀ b, w.wakers b = none
  ticker : w.ticker = none
  schedLock : w.schedLock = none

/-! ## 2. What the waits were worth -/

/-- A return of `wait`: whether a `wake` had counted the thread, and whether it was `TimedOut`. -/
structure Return where
  thread : ThreadId
  counted : Bool
  timedOut : Bool
  deriving DecidableEq, Repr

structure Outcomes where
  /-- A `wake` has popped the thread in its present `wait`. -/
  counted : ThreadId → Bool := fun _ => false
  returns : List Return := []

/-- The thread that the `wake` in `b` pops next. -/
def Futexes.popsNext (w : Futexes) (b : Fin BUCKET_COUNT) : Option ThreadId :=
  match w.wakers b with
  | some k => if k.pc = .loop ∧ k.left ≠ 0 then (w.sched.pop (.futex b)).2 else none
  | none => none

def timedOut (s : Scheduler) (t : ThreadId) : Bool :=
  match afterWait s t with
  | .error (.error .TimedOut) => true
  | _ => false

def noteOutcomes (h : Outcomes) (w : Futexes) : FutexOp → Outcomes
  | .wait t b ticks =>
    if w.mayWait t b ticks then { h with counted := update h.counted t false } else h
  | .returned t =>
    if w.mayReturn t then
      { h with returns := h.returns ++ [⟨t, h.counted t, timedOut w.sched t⟩] }
    else h
  | .waker b =>
    match w.popsNext b with
    | some t => { h with counted := update h.counted t true }
    | none => h
  | _ => h

def futexes : Machine Futexes FutexOp := ⟨Quiet, futexStep⟩

def timing : Machine (Futexes × Outcomes) FutexOp := futexes.track {} noteOutcomes

/-! ## 3. The law -/

/-- The thread that an access of `wake` is about. -/
def WakePc.thread : WakePc → Option ThreadId
  | .loop => none
  | .popped t | .unsleeping t | .finishing t => some t

def TickPc.thread : TickPc → Option ThreadId
  | .loop => none
  | .detached t | .tries t _ | .expiring t _ | .expired t => some t

/-- The timer interrupt is in the middle of a round for `t`. -/
def Futexes.Handled (w : Futexes) (t : ThreadId) : Prop :=
  ∃ p, w.tickPc = some p ∧ p.thread = some t

/-- Some `wake` is in the middle of waking `t`. -/
def Futexes.Waking (w : Futexes) (t : ThreadId) : Prop :=
  ∃ b p, w.wakePc b = some p ∧ p.thread = some t

structure Accounting (v : Futexes × Outcomes) : Prop where
  /-- A `wait` whose thread was counted by a `wake` did not return `TimedOut`. -/
  outcome : ∀ r ∈ v.2.returns, r.counted = true → r.timedOut = false
  /-- A thread that was counted is on its way back, and its `wait` will not return `TimedOut`. -/
  delivered : ∀ t, v.1.inWait t = true → v.2.counted t = true → ¬ v.1.Waking t →
    v.1.sched.state t ≠ .Blocked ∧ timedOut v.1.sched t = false
  /-- After `wait` the thread is in no bucket and not on the sleep list. -/
  outside : ∀ t, v.1.inWait t = false →
    (∀ b, ¬ v.1.sched.WaitsIn (.futex b) t) ∧ t ∉ v.1.sched.sleepList

/-- **A step that keeps the outcomes.** -/
def KeepsOutcomes (v : Futexes × Outcomes) : FutexOp → Prop
  | .wait t _ _ => ¬ v.1.Handled t
  | .unblock _ t => v.1.sched.state t ≠ .Blocked
  | .ticker =>
    ∀ t, v.1.tickPc = some (.detached t) → (v.1.sched.threads t).futexBucket ≠ none →
      ∀ b, v.1.wakePc b ≠ some (.finishing t)
  | .waker b =>
    ∀ t, v.1.wakePc b = some (.popped t) → (v.1.sched.threads t).wakeTime = 0 →
      ∀ b', v.1.tickPc ≠ some (.tries t b')
  | _ => True

/-! ## 4. Where a thread is -/

/-- Where a thread is on its way through `wait`. -/
inductive Stage where
  | out
  | linked (b : Fin BUCKET_COUNT)
  | popped (b : Fin BUCKET_COUNT)
  | unsleeping (b : Fin BUCKET_COUNT)
  | finishing (b : Fin BUCKET_COUNT)
  | woken
  | timedOut

/-- The stage of the thread that a `wake` in `b` has in hand. -/
def WakePc.stage (b : Fin BUCKET_COUNT) : WakePc → Stage
  | .loop => .out
  | .popped _ => .popped b
  | .unsleeping _ => .unsleeping b
  | .finishing _ => .finishing b

/-- The lock of the scheduler is held. -/
def WakePc.locks : WakePc → Bool
  | .unsleeping _ | .finishing _ => true
  | _ => false

/-- A `wake` has the thread in hand. -/
def Stage.held : Stage → Bool
  | .popped _ | .unsleeping _ | .finishing _ => true
  | _ => false

variable {p : WakePc} {k : Waker}

theorem held_stage {t : ThreadId} (hp : p.thread = some t) (b : Fin BUCKET_COUNT) :
    (p.stage b).held = true := by
  cases p with
  | loop => cases hp
  | popped t => rfl
  | unsleeping t => rfl
  | finishing t => rfl

section Place

variable (w : Futexes) (t : ThreadId)

/-- The timeout of a thread that waits in `b`: it has none, it is pending, or the interrupt handles
    it. -/
inductive Timed (b : Fin BUCKET_COUNT) : Prop where
  | forever (hb : (w.sched.threads t).futexBucket = none) (hl : t ∉ w.sched.sleepList)
      (hw : (w.sched.threads t).wakeTime = 0) (hh : ¬ w.Handled t)
  | pending (hb : (w.sched.threads t).futexBucket = some b) (hl : t ∈ w.sched.sleepList)
      (hw : (w.sched.threads t).wakeTime ≠ 0) (hh : ¬ w.Handled t)
  | handled (hb : (w.sched.threads t).futexBucket = some b) (hl : t ∉ w.sched.sleepList)
      (hw : (w.sched.threads t).wakeTime = 0) {p : TickPc} (hp : w.tickPc = some p)
      (hh : p = .detached t ∨ p = .tries t b ∨ p = .expiring t b)

/-- The interrupt passes the thread by: what it still does has no effect on it. -/
inductive Passing : Prop where
  | free (hh : ¬ w.Handled t)
  | expired (hp : w.tickPc = some (.expired t))
  | detached (hp : w.tickPc = some (.detached t)) (hb : (w.sched.threads t).futexBucket = none)

variable (counted : Bool) (W : QueueId → List ThreadId)

/-- What holds of a thread at each stage. -/
inductive At : Stage → Prop where
  | out (hW : ∀ q, t ∉ W q) (hs : w.sched.state t ≠ .Blocked) (hl : t ∉ w.sched.sleepList)
      (hi : w.inWait t = false) (hh : Passing w t) : At .out
  | linked {b : Fin BUCKET_COUNT} (hW : t ∈ W (.futex b)) (hs : w.sched.state t = .Blocked)
      (hi : w.inWait t = true) (hc : counted = false)
      (hr : (w.sched.threads t).futexWakeupReason = .none) (ht : Timed w t b) : At (.linked b)
  | popped {b : Fin BUCKET_COUNT} (hW : ∀ q, t ∉ W q) (hs : w.sched.state t = .Blocked)
      (hi : w.inWait t = true) (hp : w.wakePc b = some (.popped t))
      (hr : (w.sched.threads t).futexWakeupReason = .none) (ht : Timed w t b) : At (.popped b)
  | unsleeping {b : Fin BUCKET_COUNT} (hW : ∀ q, t ∉ W q) (hs : w.sched.state t = .Blocked)
      (hi : w.inWait t = true) (hp : w.wakePc b = some (.unsleeping t))
      (hr : (w.sched.threads t).futexWakeupReason = .none) (ht : Timed w t b) : At (.unsleeping b)
  | finishing {b : Fin BUCKET_COUNT} (hW : ∀ q, t ∉ W q) (hs : w.sched.state t = .Blocked)
      (hi : w.inWait t = true) (hp : w.wakePc b = some (.finishing t))
      (hr : (w.sched.threads t).futexWakeupReason = .none) (hl : t ∉ w.sched.sleepList)
      (hh : w.Handled t → w.tickPc = some (.detached t) ∧
        (w.sched.threads t).futexBucket ≠ none) : At (.finishing b)
  | woken (hW : ∀ q, t ∉ W q) (hs : w.sched.state t ≠ .Blocked) (hi : w.inWait t = true)
      (hr : (w.sched.threads t).futexWakeupReason ≠ .timeout) (hl : t ∉ w.sched.sleepList)
      (hh : Passing w t) : At .woken
  | timedOut (hW : ∀ q, t ∉ W q) (hi : w.inWait t = true) (hc : counted = false)
      (hr : (w.sched.threads t).futexWakeupReason = .timeout) (hl : t ∉ w.sched.sleepList)
      (hh : w.sched.state t = .Blocked ∧ w.tickPc = some (.expired t) ∨
        w.sched.state t ≠ .Blocked ∧ ¬ w.Handled t) : At .timedOut

end Place

/-- What the stage of a thread looks at is the same in two states. -/
structure Same (w w' : Futexes) (h h' : Outcomes) (W W' : QueueId → List ThreadId) (t : ThreadId) :
    Prop where
  blocked : w'.sched.state t = .Blocked ↔ w.sched.state t = .Blocked
  bucket : (w'.sched.threads t).futexBucket = (w.sched.threads t).futexBucket
  reason : (w'.sched.threads t).futexWakeupReason = (w.sched.threads t).futexWakeupReason
  wakeTime : (w'.sched.threads t).wakeTime = (w.sched.threads t).wakeTime
  waits : ∀ q, t ∈ W' q ↔ t ∈ W q
  sleeps : t ∈ w'.sched.sleepList ↔ t ∈ w.sched.sleepList
  inWait : w'.inWait t = w.inWait t
  counted : h'.counted t = h.counted t
  tick : ∀ {p}, p.thread = some t → (w'.tickPc = some p ↔ w.tickPc = some p)
  wake : ∀ {b p}, p.thread = some t → w.wakePc b = some p → w'.wakePc b = some p

variable {w w' : Futexes} {h h' : Outcomes} {W W' : QueueId → List ThreadId} {t u : ThreadId}
  {b : Fin BUCKET_COUNT}

theorem Same.handled (hs : Same w w' h h' W W' t) : w'.Handled t ↔ w.Handled t :=
  exists_congr fun _ => and_congr_left fun hp => hs.tick hp

theorem Same.timed (hs : Same w w' h h' W W' t) (ht : Timed w t b) : Timed w' t b := by
  cases ht with
  | forever hb hl hw hh =>
    exact .forever (hs.bucket.trans hb) (mt hs.sleeps.mp hl) (hs.wakeTime.trans hw)
      (mt hs.handled.mp hh)
  | pending hb hl hw hh =>
    exact .pending (hs.bucket.trans hb) (hs.sleeps.mpr hl) (hs.wakeTime.symm ▸ hw)
      (mt hs.handled.mp hh)
  | handled hb hl hw hp hh =>
    refine .handled (hs.bucket.trans hb) (mt hs.sleeps.mp hl) (hs.wakeTime.trans hw)
      ((hs.tick ?_).mpr hp) hh
    rcases hh with rfl | rfl | rfl <;> rfl

theorem Same.passing (hs : Same w w' h h' W W' t) (ht : Passing w t) : Passing w' t := by
  cases ht with
  | free hh => exact .free (mt hs.handled.mp hh)
  | expired hp => exact .expired ((hs.tick rfl).mpr hp)
  | detached hp hb => exact .detached ((hs.tick rfl).mpr hp) (hs.bucket.trans hb)

/-- **A step that a thread does not take part in leaves its stage.** -/
theorem At.same {σ : Stage} (ha : At w t (h.counted t) W σ) (hs : Same w w' h h' W W' t) :
    At w' t (h'.counted t) W' σ := by
  have hno : (∀ q, t ∉ W q) → ∀ q, t ∉ W' q := fun hW q => mt (hs.waits q).mp (hW q)
  rw [hs.counted]
  cases ha with
  | out hW hst hl hi hh =>
    exact .out (hno hW) (mt hs.blocked.mp hst) (mt hs.sleeps.mp hl) (hs.inWait.trans hi) (hs.passing hh)
  | linked hW hst hi hc hr ht =>
    exact .linked ((hs.waits _).mpr hW) (hs.blocked.mpr hst) (hs.inWait.trans hi) hc
      (hs.reason.trans hr) (hs.timed ht)
  | popped hW hst hi hp hr ht =>
    exact .popped (hno hW) (hs.blocked.mpr hst) (hs.inWait.trans hi) (hs.wake rfl hp)
      (hs.reason.trans hr) (hs.timed ht)
  | unsleeping hW hst hi hp hr ht =>
    exact .unsleeping (hno hW) (hs.blocked.mpr hst) (hs.inWait.trans hi) (hs.wake rfl hp)
      (hs.reason.trans hr) (hs.timed ht)
  | finishing hW hst hi hp hr hl hh =>
    refine .finishing (hno hW) (hs.blocked.mpr hst) (hs.inWait.trans hi) (hs.wake rfl hp)
      (hs.reason.trans hr) (mt hs.sleeps.mp hl) fun hin => ?_
    obtain ⟨hp, hb⟩ := hh (hs.handled.mp hin)
    exact ⟨(hs.tick rfl).mpr hp, hs.bucket.symm ▸ hb⟩
  | woken hW hst hi hr hl hh =>
    exact .woken (hno hW) (mt hs.blocked.mp hst) (hs.inWait.trans hi) (hs.reason.symm ▸ hr)
      (mt hs.sleeps.mp hl) (hs.passing hh)
  | timedOut hW hi hc hr hl hh =>
    refine .timedOut (hno hW) (hs.inWait.trans hi) hc (hs.reason.trans hr) (mt hs.sleeps.mp hl) ?_
    rcases hh with ⟨hb, hp⟩ | ⟨hb, hn⟩
    · exact .inl ⟨hs.blocked.mpr hb, (hs.tick rfl).mpr hp⟩
    · exact .inr ⟨mt hs.blocked.mp hb, mt hs.handled.mp hn⟩

/-! ## 5. The invariant -/

structure OutcomesInv (w : Futexes) (h : Outcomes) (W : QueueId → List ThreadId)
    (R : CpuId → List ThreadId) (σ : ThreadId → Stage) : Prop where
  waits : w.sched.waits.Reads W
  ready : w.sched.ready.Reads R
  readies : ∀ {c t}, t ∈ R c → w.sched.state t = .Ready
  sleepers : w.sched.sleepList.Nodup
  place : ∀ t, At w t (h.counted t) W (σ t)
  /-- A thread that a `wake` has in hand is at that stage. -/
  wakers : ∀ {b p t}, w.wakePc b = some p → p.thread = some t → σ t = p.stage b
  /-- The locks of the scheduler and of a bucket have one holder. -/
  schedLock : ∀ {b p}, w.wakePc b = some p → p.locks = true → w.schedLock = some b
  locked : ∀ {t b}, w.tickPc = some (.expiring t b) → w.wakers b = none
  outcome : ∀ r ∈ h.returns, r.counted = true → r.timedOut = false

variable {R : CpuId → List ThreadId} {σ : ThreadId → Stage}

theorem timedOut_iff (s : Scheduler) (t : ThreadId) :
    timedOut s t = true ↔ (s.threads t).futexWakeupReason = .timeout := by
  unfold timedOut afterWait
  split <;> simp_all

theorem OutcomesInv.accounting (hv : OutcomesInv w h W R σ) :
    Accounting (w, h) := by
  refine ⟨hv.outcome, fun t hi hc hn => ?_, fun t hi => ?_⟩
  · have ha := hv.place t
    generalize σ t = st at ha
    cases ha with
    | out _ _ _ hi' _ => rw [hi'] at hi; cases hi
    | linked _ _ _ hc' _ _ => rw [hc'] at hc; cases hc
    | popped _ _ _ hp _ _ => exact absurd ⟨_, _, hp, rfl⟩ hn
    | unsleeping _ _ _ hp _ _ => exact absurd ⟨_, _, hp, rfl⟩ hn
    | finishing _ _ _ hp _ _ _ => exact absurd ⟨_, _, hp, rfl⟩ hn
    | woken _ hs _ hr _ _ =>
      exact ⟨hs, eq_false_iff.mpr (mt (timedOut_iff _ t).mp hr)⟩
    | timedOut _ _ hc' _ _ _ => rw [hc'] at hc; cases hc
  have ha := hv.place t
  generalize σ t = st at ha
  cases ha with
  | out hW _ hl _ _ =>
    exact ⟨fun b hm => hW _ ((Links.linked_reaches_iff (hv.waits.linked _)).mp hm), hl⟩
  | linked _ _ hi' _ _ _ => rw [hi'] at hi; cases hi
  | popped _ _ hi' _ _ _ => rw [hi'] at hi; cases hi
  | unsleeping _ _ hi' _ _ _ => rw [hi'] at hi; cases hi
  | finishing _ _ hi' _ _ _ _ => rw [hi'] at hi; cases hi
  | woken _ _ hi' _ _ _ => rw [hi'] at hi; cases hi
  | timedOut _ hi' _ _ _ _ => rw [hi'] at hi; cases hi

/-! ## 6. The steps of the threads -/

variable {R' : CpuId → List ThreadId}

/-- A step in which one thread changes its stage. -/
theorem OutcomesInv.change (hv : OutcomesInv w h W R σ)
    {a : Stage} (hplace : At w' t (h'.counted t) W' a)
    (hother : ∀ u, u ≠ t → Same w w' h h' W W' u) (hwaits : w'.sched.waits.Reads W')
    (hready : w'.sched.ready.Reads R') (hreadies : ∀ {c u}, u ∈ R' c → w'.sched.state u = .Ready)
    (hsleep : w'.sched.sleepList.Nodup)
    (hwakers : ∀ {b p u}, w'.wakePc b = some p → p.thread = some u → update σ t a u = p.stage b)
    (hlock : ∀ {b p}, w'.wakePc b = some p → p.locks = true → w'.schedLock = some b)
    (hlocked : ∀ {t b}, w'.tickPc = some (.expiring t b) → w'.wakers b = none)
    (hout : ∀ r ∈ h'.returns, r.counted = true → r.timedOut = false) :
    OutcomesInv w' h' W' R' (update σ t a) := by
  refine ⟨hwaits, hready, hreadies, hsleep, fun u => ?_, hwakers, hlock, hlocked, hout⟩
  by_cases e : u = t
  · rw [e, update_self]
    exact hplace
  · rw [update_of_ne e]
    exact (hv.place u).same (hother u e)

/-- No `wake` has the thread in hand, before and after. -/
theorem OutcomesInv.keepWakers (hv : OutcomesInv w h W R σ)
    (hheld : (σ t).held = false) (st : Stage) {b : Fin BUCKET_COUNT} {u : ThreadId}
    (hp : w.wakePc b = some p) (hu : p.thread = some u) : update σ t st u = p.stage b := by
  have hst := hv.wakers hp hu
  have hne : u ≠ t := by
    rintro rfl
    rw [hst, held_stage hu] at hheld
    cases hheld
  rw [update_of_ne hne]
  exact hst

/-- A thread the scheduler's data of which are the same. -/
theorem Same.of_threads (hth : w'.sched.threads u = w.sched.threads u)
    (hW : ∀ q, u ∈ W' q ↔ u ∈ W q) (hl : u ∈ w'.sched.sleepList ↔ u ∈ w.sched.sleepList)
    (hi : w'.inWait u = w.inWait u) (hc : h'.counted u = h.counted u)
    (htick : ∀ {p}, p.thread = some u → (w'.tickPc = some p ↔ w.tickPc = some p))
    (hwake : ∀ {b p}, p.thread = some u → w.wakePc b = some p → w'.wakePc b = some p) :
    Same w w' h h' W W' u := by
  refine ⟨?_, congrArg _ hth, congrArg _ hth, congrArg _ hth, hW, hl, hi, hc, htick, hwake⟩
  unfold Scheduler.state
  rw [hth]

theorem mem_update_append_of_ne {q q' : QueueId} (hne : u ≠ t) :
    u ∈ update W q (W q ++ [t]) q' ↔ u ∈ W q' := by
  by_cases e : q' = q
  · rw [e, update_self, mem_append, mem_singleton]
    exact or_iff_left hne
  · rw [update_of_ne e]

theorem mem_update_erase_of_ne {q q' : QueueId} (hne : u ≠ t) :
    u ∈ update W q ((W q).erase t) q' ↔ u ∈ W q' := by
  by_cases e : q' = q
  · rw [e, update_self, mem_erase_of_ne hne]
  · rw [update_of_ne e]

/-- The invariant, with some reading of the queues and some stages. -/
def Sound (v : Futexes × Outcomes) : Prop := ∃ W R σ, OutcomesInv v.1 v.2 W R σ

/-- What `waitOnWithTimeout` leaves. -/
structure Waits (s s' : Scheduler) (q : QueueId) (ticks : Nat) (bucket : Option (Fin BUCKET_COUNT))
    (t : ThreadId) : Prop where
  others : ∀ u, u ≠ t → s'.threads u = s.threads u
  blocked : s'.state t = .Blocked
  reason : (s'.threads t).futexWakeupReason = .none
  bucket : (s'.threads t).futexBucket = if 0 < ticks then bucket else none
  wakeTime : (s'.threads t).wakeTime = 0 ↔ ticks = 0
  waits : s'.waits = s.waits.append q t
  ready : s'.ready = s.ready
  sleeps : ∃ wake, s'.sleepList = if 0 < ticks then Scheduler.insertBy wake t s.sleepList else s.sleepList

theorem waitOnWithTimeout_waits (s : Scheduler) (q : QueueId) (ticks : Nat)
    (bucket : Option (Fin BUCKET_COUNT)) (t : ThreadId) :
    Waits s (s.waitOnWithTimeout q ticks bucket t) q ticks bucket t := by
  have hother : ∀ (f g : Thread → Thread) (u : ThreadId), u ≠ t →
      (((s.append q t).mapThread t f).mapThread t g).threads u = s.threads u := by
    intro f g u hu
    rw [threads_mapThread_of_ne _ _ _ hu, threads_mapThread_of_ne _ _ _ hu]
    rfl
  have hself : ∀ f g : Thread → Thread,
      (((s.append q t).mapThread t f).mapThread t g).threads t = g (f (s.threads t)) := by
    intro f g
    rw [threads_mapThread_self, threads_mapThread_self]
    rfl
  unfold Scheduler.waitOnWithTimeout Scheduler.setState
  by_cases hticks : 0 < ticks
  · simp only [if_pos hticks]
    have htime : min (s.tickCount + ticks) Scheduler.maxTick ≠ 0 := by
      unfold Scheduler.maxTick
      omega
    have hthread := hself (fun th => { th with state := .Blocked }) fun th => { th with
      wakeTime := min (s.tickCount + ticks) Scheduler.maxTick
      futexBucket := bucket
      futexWakeupReason := .none }
    refine ⟨fun u hu => ?_, congrArg Thread.state hthread, congrArg Thread.futexWakeupReason hthread,
      ?_, ?_, rfl, rfl, ⟨_, (if_pos hticks).symm⟩⟩
    · rw [threads_insertSleepThread]
      exact hother _ _ u hu
    · rw [if_pos hticks]
      exact congrArg Thread.futexBucket hthread
    · refine iff_of_false (fun h => htime ?_) (Nat.pos_iff_ne_zero.mp hticks)
      exact (congrArg Thread.wakeTime hthread).symm.trans h
  · simp only [if_neg hticks]
    have hthread := hself (fun th => { th with state := .Blocked }) fun th => { th with
      wakeTime := 0
      futexBucket := none
      futexWakeupReason := .none }
    refine ⟨hother _ _, congrArg Thread.state hthread, congrArg Thread.futexWakeupReason hthread,
      ?_, ?_, rfl, rfl, ⟨fun _ => 0, (if_neg hticks).symm⟩⟩
    · rw [if_neg hticks]
      exact congrArg Thread.futexBucket hthread
    · exact iff_of_true (congrArg Thread.wakeTime hthread) (Nat.eq_zero_of_not_pos hticks)

/-- A running thread that is not inside `wait` is out. -/
theorem OutcomesInv.is_out (hv : OutcomesInv w h W R σ)
    (hin : w.inWait t = false) : σ t = .out ∧ (∀ q, t ∉ W q) ∧ t ∉ w.sched.sleepList := by
  have ha := hv.place t
  generalize σ t = st at ha
  cases ha with
  | out hW _ hl _ _ => exact ⟨rfl, hW, hl⟩
  | linked _ _ hi _ _ _ => rw [hi] at hin; cases hin
  | popped _ _ hi _ _ _ => rw [hi] at hin; cases hin
  | unsleeping _ _ hi _ _ _ => rw [hi] at hin; cases hin
  | finishing _ _ hi _ _ _ _ => rw [hi] at hin; cases hin
  | woken _ _ hi _ _ _ => rw [hi] at hin; cases hin
  | timedOut _ hi _ _ _ _ => rw [hi] at hin; cases hin

theorem OutcomesInv.wait (hv : OutcomesInv w h W R σ)
    (hk : ¬ w.Handled t) (b : Fin BUCKET_COUNT) (ticks : Nat) :
    Sound (futexStep w (.wait t b ticks), noteOutcomes h w (.wait t b ticks)) := by
  unfold futexStep noteOutcomes
  by_cases hm : w.mayWait t b ticks
  · simp only [if_pos hm]
    obtain ⟨hrun, hin, -, -, -⟩ := hm
    obtain ⟨hout, hW, hl⟩ := hv.is_out hin
    have hs := waitOnWithTimeout_waits w.sched (.futex b) ticks (if 0 < ticks then some b else none) t
    obtain ⟨wake, hsleeps⟩ := hs.sleeps
    have hperm := insertBy_perm wake t w.sched.sleepList
    refine ⟨_, R, _, hv.change (t := t) (a := .linked b) ?_ (fun u hu => .of_threads (hs.others u hu)
      (fun q => mem_update_append_of_ne hu) ?_ (update_of_ne hu _ _)
      (update_of_ne hu _ _) (fun _ => Iff.rfl) fun _ hp => hp)
      (hs.waits ▸ hv.waits.append hW) (hs.ready ▸ hv.ready) (fun {c u} hu => ?_) ?_
      (hv.keepWakers (by rw [hout]; rfl) _) hv.schedLock hv.locked hv.outcome⟩
    · refine .linked ?_ hs.blocked (update_self _ _ _) (update_self _ _ _) hs.reason ?_
      · rw [update_self]
        exact mem_append_right _ (.head _)
      by_cases hticks : 0 < ticks
      · refine .pending ?_ ?_ ?_ hk
        · exact hs.bucket.trans (by rw [if_pos hticks, if_pos hticks])
        · rw [hsleeps, if_pos hticks]
          exact hperm.mem_iff.mpr (.head _)
        · exact fun he => Nat.pos_iff_ne_zero.mp hticks (hs.wakeTime.mp he)
      · refine .forever ?_ ?_ (hs.wakeTime.mpr (Nat.eq_zero_of_not_pos hticks)) hk
        · exact hs.bucket.trans (if_neg hticks)
        · rw [hsleeps, if_neg hticks]
          exact hl
    · rw [hsleeps]
      split
      · rw [hperm.mem_iff, mem_cons]
        exact or_iff_right hu
      · rfl
    · have hready := hv.readies hu
      have hne : u ≠ t := by
        rintro rfl
        rw [hrun] at hready
        cases hready
      exact (congrArg Thread.state (hs.others u hne)).trans hready
    · rw [hsleeps]
      split
      · exact nodup_insertBy hv.sleepers hl
      · exact hv.sleepers
  · simp only [if_neg hm]
    exact ⟨W, R, σ, hv⟩

theorem OutcomesInv.returned (hv : OutcomesInv w h W R σ) (t : ThreadId) :
    Sound (futexStep w (.returned t), noteOutcomes h w (.returned t)) := by
  unfold futexStep noteOutcomes
  by_cases hm : w.mayReturn t
  · simp only [if_pos hm]
    obtain ⟨hrun, hin⟩ := hm
    have hnb : w.sched.state t ≠ .Blocked := by
      rw [hrun]
      decide
    have hstage : (σ t).held = false ∧ (∀ q, t ∉ W q) ∧ t ∉ w.sched.sleepList ∧ Passing w t ∧
        (h.counted t = true → timedOut w.sched t = false) := by
      have ha := hv.place t
      generalize σ t = st at ha
      cases ha with
      | out _ _ _ hi _ => rw [hi] at hin; cases hin
      | linked _ hs _ _ _ _ => exact absurd hs hnb
      | popped _ hs _ _ _ _ => exact absurd hs hnb
      | unsleeping _ hs _ _ _ _ => exact absurd hs hnb
      | finishing _ hs _ _ _ _ _ => exact absurd hs hnb
      | woken hW _ _ hr hl hh =>
        exact ⟨rfl, hW, hl, hh, fun _ => eq_false_iff.mpr (mt (timedOut_iff _ t).mp hr)⟩
      | timedOut hW _ hc _ hl hh =>
        refine ⟨rfl, hW, hl, .free ?_, fun hc' => by rw [hc] at hc'; cases hc'⟩
        rcases hh with ⟨hb, -⟩ | ⟨-, hn⟩
        · exact absurd hb hnb
        · exact hn
    obtain ⟨hheld, hW, hl, hpass, hret⟩ := hstage
    refine ⟨W, R, _, hv.change (t := t) (a := .out) ?_ (fun u hu => .of_threads rfl (fun _ => Iff.rfl)
      Iff.rfl (update_of_ne hu _ _) rfl (fun _ => Iff.rfl) fun _ hp => hp) hv.waits hv.ready
      hv.readies hv.sleepers (hv.keepWakers hheld _) hv.schedLock hv.locked fun r hr => ?_⟩
    · refine .out hW hnb hl (update_self _ _ _) ?_
      cases hpass with
      | free hh => exact .free hh
      | expired hp => exact .expired hp
      | detached hp hb => exact .detached hp hb
    · rcases mem_append.mp hr with hr | hr
      · exact hv.outcome r hr
      · rw [mem_singleton.mp hr]
        exact hret
  · simp only [if_neg hm]
    exact ⟨W, R, σ, hv⟩

variable {s' : Scheduler} {b' : Fin BUCKET_COUNT}

/-- A thread that is not blocked gets another state that is not blocked. -/
theorem Same.awake {v : Thread} (hs : w.sched.state t ≠ .Blocked)
    (hth : s'.threads t = v) (hs' : v.state ≠ .Blocked)
    (hb : v.futexBucket = (w.sched.threads t).futexBucket)
    (hr : v.futexWakeupReason = (w.sched.threads t).futexWakeupReason)
    (hw : v.wakeTime = (w.sched.threads t).wakeTime)
    (hl : s'.sleepList = w.sched.sleepList) : Same w { w with sched := s' } h h W W t := by
  subst hth
  exact ⟨iff_of_false hs' hs, hb, hr, hw, fun _ => Iff.rfl, by rw [hl], rfl, rfl, fun _ => Iff.rfl,
    fun _ hp => hp⟩

/-- A step on the scheduler's data that leaves every stage. -/
theorem OutcomesInv.still (hv : OutcomesInv w h W R σ)
    (hsame : ∀ u, Same w { w with sched := s' } h h W W u)
    (hwaits : s'.waits = w.sched.waits) (hready : s'.ready.Reads R')
    (hreadies : ∀ {c u}, u ∈ R' c → s'.state u = .Ready)
    (hsleep : s'.sleepList = w.sched.sleepList) : Sound ({ w with sched := s' }, h) := by
  refine ⟨W, R', σ, hwaits ▸ hv.waits, hready, hreadies, ?_, fun u => (hv.place u).same (hsame u),
    hv.wakers, hv.schedLock, hv.locked, hv.outcome⟩
  rw [hsleep]
  exact hv.sleepers

/-- The ready queues after a thread was appended. -/
theorem readies_append {s : Scheduler} {k : CpuId} (hR : ∀ {c u}, u ∈ R c → s.state u = .Ready)
    (hst : s'.state = update s.state t .Ready) {c : CpuId}
    (hu : u ∈ update R k (R k ++ [t]) c) : s'.state u = .Ready := by
  rw [hst]
  by_cases e : u = t
  · rw [e, update_self]
  · rw [update_of_ne e]
    obtain ⟨d, hd⟩ := (mem_update_append.mp ⟨c, hu⟩).resolve_right e
    exact hR hd

theorem OutcomesInv.preempt (hv : OutcomesInv w h W R σ) (c : CpuId)
    (t : ThreadId) : Sound (futexStep w (.preempt c t), h) := by
  unfold futexStep
  by_cases hr : w.sched.state t = .Running
  · simp only [if_pos hr]
    have hst := state_addToReadyQueue w.sched t c
    have hR : ∀ d, t ∉ R d := fun d hd => by
      have hready := hv.readies hd
      rw [hr] at hready
      cases hready
    refine hv.still (fun u => ?_) rfl (hv.ready.append hR)
      (fun hu => readies_append hv.readies hst hu) rfl
    by_cases e : u = t
    · subst e
      exact .awake (by rw [hr]; decide) (threads_setState_self w.sched u .Ready)
        nofun rfl rfl rfl rfl
    · exact .of_threads (threads_setState_of_ne w.sched t .Ready e) (fun _ => Iff.rfl) Iff.rfl rfl rfl
        (fun _ => Iff.rfl) fun _ hp => hp
  · simp only [if_neg hr]
    exact ⟨W, R, σ, hv⟩

/-- A CPU takes a thread. -/
theorem OutcomesInv.take (hv : OutcomesInv w h W R σ) (c : CpuId)
    (steals : Bool) : Sound (futexStep w (.take c steals), h) := by
  have htaken : ∃ R', Taken R (if steals then w.sched.ready.popLast c else w.sched.ready.popFirst c).1
      (if steals then w.sched.ready.popLast c else w.sched.ready.popFirst c).2 R' := by
    cases steals with
    | true =>
      rcases eq_nil_or_concat' (R c) with hl | ⟨l, u, hl⟩
      · exact ⟨R, by simpa [hv.ready.popLast_nil hl] using Taken.none hv.ready⟩
      · have ht := taken_popLast hv.ready hl
        exact ⟨_, by simpa [(hv.ready.popLast hl).1] using ht⟩
    | false =>
      cases hl : R c with
      | nil => exact ⟨R, by simpa [hv.ready.popFirst_nil hl] using Taken.none hv.ready⟩
      | cons u l =>
        have ht := taken_popFirst hv.ready hl
        exact ⟨_, by simpa [(hv.ready.popFirst hl).1] using ht⟩
  obtain ⟨R', ht⟩ := htaken
  change Sound (w.takeReady c steals, h)
  unfold Futexes.takeReady
  generalize (if steals then w.sched.ready.popLast c else w.sched.ready.popFirst c) = r at ht
  obtain ⟨m, o⟩ := r
  cases o with
  | none => exact ⟨W, R, σ, hv⟩
  | some t =>
    obtain ⟨d, hd⟩ := ht.found t rfl
    have hready := hv.readies hd
    have hst : ({ w.sched with ready := m }.setState t .Running).state =
        update w.sched.state t .Running := state_setState { w.sched with ready := m } t .Running
    refine hv.still (fun u => ?_) rfl ht.reads (fun {c u} hu => ?_) rfl
    · by_cases e : u = t
      · subst e
        exact .awake (by rw [hready]; decide)
          (threads_setState_self { w.sched with ready := m } u .Running) nofun rfl rfl rfl rfl
      · exact .of_threads (threads_setState_of_ne { w.sched with ready := m } t .Running e)
          (fun _ => Iff.rfl) Iff.rfl rfl rfl (fun _ => Iff.rfl) fun _ hp => hp
    · obtain ⟨hu', hne⟩ := (ht.mem u).mp ⟨c, hu⟩
      obtain ⟨e, he⟩ := hu'
      rw [hst, update_of_ne fun e => hne (congrArg some e.symm)]
      exact hv.readies he

/-- `unblock` of a thread that is not blocked leaves a token at most. -/
theorem OutcomesInv.unblock (hv : OutcomesInv w h W R σ)
    (hk : w.sched.state t ≠ .Blocked) (c : CpuId) : Sound (futexStep w (.unblock c t), h) := by
  unfold futexStep
  by_cases hlock : w.schedLock = none ∧ w.ticker = none
  · simp only [if_pos hlock]
    unfold Scheduler.unblock
    rw [if_neg hk]
    by_cases hr : w.sched.state t = .Running
    · rw [if_pos hr]
      have hst : (w.sched.mapThread t fun th => { th with pendingWakeup := true }).state =
          w.sched.state := (state_mapThread _ _ _).trans (update_eq_self _ _)
      refine hv.still (fun u => ?_) rfl hv.ready (fun hu => hst ▸ hv.readies hu) rfl
      by_cases e : u = t
      · subst e
        exact .awake hk (threads_mapThread_self w.sched u fun th => { th with pendingWakeup := true })
          hk rfl rfl rfl rfl
      · exact .of_threads
          (threads_mapThread_of_ne w.sched t (fun th => { th with pendingWakeup := true }) e)
          (fun _ => Iff.rfl) Iff.rfl rfl rfl (fun _ => Iff.rfl) fun _ hp => hp
    · rw [if_neg hr]
      exact ⟨W, R, σ, hv⟩
  · simp only [if_neg hlock]
    exact ⟨W, R, σ, hv⟩

/-! ## 7. The steps of `wake` and of the interrupt -/

theorem wakePc_eq {k : Option Waker} (hk : w.wakers b = k) : w.wakePc b = k.map Waker.pc := by
  unfold wakePc
  rw [hk]

theorem wakePc_setWaker (w : Futexes) (b : Fin BUCKET_COUNT) (k : Waker) :
    (w.setWaker b (some k)).wakePc b = some k.pc := by
  unfold Futexes.wakePc Futexes.setWaker
  simp only [update_self, map_some]

theorem popsNext_none (hk : w.wakers b = some k) (hpc : k.pc ≠ .loop ∨ k.left = 0) :
    w.popsNext b = none := by
  unfold popsNext
  rw [hk]
  exact if_neg fun h => hpc.elim (fun h' => h' h.1) h.2

theorem popsNext_loop (hk : w.wakers b = some k) (hpc : k.pc = .loop)
    (hleft : k.left ≠ 0) : w.popsNext b = (w.sched.pop (.futex b)).2 := by
  unfold popsNext
  rw [hk]
  exact if_pos ⟨hpc, hleft⟩

/-- The thread that a `wake` has or gets in hand. -/
def Takes (σ : ThreadId → Stage) (k : Waker) (t : ThreadId) : Prop :=
  k.pc.thread = some t ∨ k.pc.thread = none ∧ (σ t).held = false

/-- No other `wake` has it in hand. -/
theorem OutcomesInv.takes_ne (hv : OutcomesInv w h W R σ)
    (hk : w.wakers b = some k) (htake : Takes σ k t)
    (hb : b' ≠ b) (hp : w.wakePc b' = some p) (hu : p.thread = some u) : u ≠ t := by
  rintro rfl
  have h₁ := hv.wakers hp hu
  rcases htake with ht | ⟨-, hheld⟩
  · have h₂ := hv.wakers (wakePc_eq hk) ht
    rw [h₁] at h₂
    cases p <;> cases hpc : k.pc <;> rw [hpc] at h₂ ht <;> cases h₂ <;> first
      | exact hb rfl
      | cases hu
  · rw [h₁, held_stage hu] at hheld
    cases hheld

/-- The `wake` in `b` has made an access, about that thread. -/
theorem OutcomesInv.wakers_update (hv : OutcomesInv w h W R σ)
    (hk : w.wakers b = some k) (htake : Takes σ k t) {k' : Waker} {st : Stage}
    (hst : k'.pc.thread = none ∨ k'.pc.thread = some t ∧ st = k'.pc.stage b)
    (hp : ((update w.wakers b (some k')) b').map Waker.pc = some p)
    (hu : p.thread = some u) : update σ t st u = p.stage b' := by
  by_cases e : b' = b
  · subst e
    rw [update_self] at hp
    cases hp
    rcases hst with hn | ⟨ht, rfl⟩
    · rw [hn] at hu
      cases hu
    · rw [ht] at hu
      rw [← Option.some.inj hu, update_self]
  · rw [update_of_ne e] at hp
    rw [update_of_ne (hv.takes_ne hk htake e hp hu)]
    exact hv.wakers hp hu

theorem OutcomesInv.wake_update (hk : w.wakers b = some k)
    (htake : Takes σ k t) (k' : Waker) (hne : u ≠ t)
    (hu : p.thread = some u) (hp : w.wakePc b' = some p) :
    ((update w.wakers b (some k')) b').map Waker.pc = some p := by
  by_cases e : b' = b
  · subst e
    rw [wakePc_eq hk] at hp
    cases hp
    rcases htake with ht | ⟨hn, -⟩
    · exact absurd (Option.some.inj (hu.symm.trans ht)) hne
    · rw [hu] at hn
      cases hn
  · rw [update_of_ne e]
    exact hp

section

variable (hv : OutcomesInv w h W R σ)
include hv

/-- The lock of a bucket that the interrupt holds is free of a `wake`. -/
theorem OutcomesInv.locked_update
    (hk : w.wakers b = some k) (k' : Option Waker) {u : ThreadId}
    (hp : w.tickPc = some (.expiring u b')) : update w.wakers b k' b' = none := by
  have hnone := hv.locked hp
  rw [update_of_ne]
  · exact hnone
  · rintro rfl
    rw [hk] at hnone
    cases hnone

theorem OutcomesInv.lock_update
    {k' : Option Waker} {l : Option (Fin BUCKET_COUNT)}
    (hother : ∀ b', b' ≠ b → w.schedLock = some b' → l = some b')
    (hself : ∀ k₁, k' = some k₁ → k₁.pc.locks = true → l = some b)
    (hp : ((update w.wakers b k') b').map Waker.pc = some p)
    (hl : p.locks = true) : l = some b' := by
  by_cases e : b' = b
  · subst e
    rw [update_self] at hp
    obtain ⟨k₁, hk₁, rfl⟩ := map_eq_some_iff.mp hp
    exact hself k₁ hk₁ hl
  · rw [update_of_ne e] at hp
    exact hother b' e (hv.schedLock hp hl)

/-- The `wake` in `b` ends. -/
theorem OutcomesInv.endWake
    (hk : w.wakers b = some k) (hpc : k.pc = .loop) : Sound (w.setWaker b none, h) := by
  have hother : ∀ {b' p}, (w.setWaker b none).wakePc b' = some p → w.wakePc b' = some p := by
    intro b' p hp
    by_cases e : b' = b
    · subst e
      rw [wakePc_eq (update_self _ _ _)] at hp
      cases hp
    · rwa [wakePc_eq (update_of_ne e _ _)] at hp
  refine ⟨W, R, σ, hv.waits, hv.ready, hv.readies, hv.sleepers, fun u => (hv.place u).same ?_,
    fun hp => hv.wakers (hother hp), fun hp => hv.schedLock (hother hp), fun hp => ?_, hv.outcome⟩
  · refine .of_threads rfl (fun _ => Iff.rfl) Iff.rfl rfl rfl (fun _ => Iff.rfl) fun {b' p} hu hp => ?_
    rw [← hp]
    refine wakePc_eq (update_of_ne ?_ _ _)
    rintro rfl
    rw [wakePc_eq hk] at hp
    cases hp
    rw [hpc] at hu
    cases hu
  · exact hv.locked_update hk none hp

/-- The `wake` in `b` pops a thread. -/
theorem OutcomesInv.pops
    (hk : w.wakers b = some k) (hpc : k.pc = .loop) {l : List ThreadId}
    (hl : W (.futex b) = t :: l) :
    Sound ({ w with sched := { w.sched with waits := w.sched.waits.remove (.futex b) t } }.setWaker b
      (some { k with pc := .popped t }), { h with counted := update h.counted t true }) := by
  have hmem : t ∈ W (.futex b) := by
    rw [hl]
    exact .head _
  have hout := hv.waits.out_of_erase hmem
  have hlinked : σ t = .linked b ∧ w.sched.state t = .Blocked ∧ w.inWait t = true ∧
      (w.sched.threads t).futexWakeupReason = .none ∧ Timed w t b := by
    have ha := hv.place t
    generalize σ t = st at ha
    cases ha with
    | out hW _ _ _ _ => exact absurd hmem (hW _)
    | linked hW hs hi _ hr ht =>
      cases hv.waits.apart hW hmem
      exact ⟨rfl, hs, hi, hr, ht⟩
    | popped hW _ _ _ _ _ => exact absurd hmem (hW _)
    | unsleeping hW _ _ _ _ _ => exact absurd hmem (hW _)
    | finishing hW _ _ _ _ _ _ => exact absurd hmem (hW _)
    | woken hW _ _ _ _ _ => exact absurd hmem (hW _)
    | timedOut hW _ _ _ _ _ => exact absurd hmem (hW _)
  obtain ⟨hst, hs, hi, hr, ht⟩ := hlinked
  have htake : Takes σ k t := .inr ⟨by rw [hpc]; rfl, by rw [hst]; rfl⟩
  refine ⟨_, R, _, hv.change (t := t) (a := .popped b) ?_ (fun u hu => .of_threads rfl
    (fun _ => mem_update_erase_of_ne hu) Iff.rfl rfl (update_of_ne hu _ _) (fun _ => Iff.rfl)
    fun hp => OutcomesInv.wake_update hk htake _ hu hp) (hv.waits.remove hmem) hv.ready hv.readies hv.sleepers
    (hv.wakers_update hk htake (.inr ⟨rfl, rfl⟩)) (hv.lock_update (fun _ _ h => h) fun k₁ hk₁ hl => ?_) (hv.locked_update hk _) hv.outcome⟩
  · refine .popped hout hs hi (wakePc_setWaker _ _ _) hr ?_
    cases ht with
    | forever hb hl hw hh => exact .forever hb hl hw hh
    | pending hb hl hw hh => exact .pending hb hl hw hh
    | handled hb hl hw hp hh => exact .handled hb hl hw hp hh
  · cases hk₁
    cases hl

/-- What is known of a thread that a `wake` has popped. -/
theorem OutcomesInv.popped_place
    (hp : w.wakePc b = some (.popped t)) : σ t = .popped b ∧ (∀ q, t ∉ W q) ∧
      w.sched.state t = .Blocked ∧ w.inWait t = true ∧
      (w.sched.threads t).futexWakeupReason = .none ∧ Timed w t b := by
  have hst := hv.wakers hp rfl
  have ha := hv.place t
  rw [hst] at ha
  cases ha with
  | popped hW hs hi _ hr ht => exact ⟨hst, hW, hs, hi, hr, ht⟩

/-- It has no timeout pending: it is finished next. -/
theorem OutcomesInv.looks
    (hk : w.wakers b = some k) (hpc : k.pc = .popped t) (hlock : w.schedLock = none)
    (hkeeps : (w.sched.threads t).wakeTime = 0 → ∀ b', w.tickPc ≠ some (.tries t b')) :
    Sound ({ w with schedLock := some b }.setWaker b (some { k with
      pc := if (w.sched.threads t).wakeTime ≠ 0 then .unsleeping t else .finishing t }), h) := by
  obtain ⟨hst, hW, hs, hi, hr, ht⟩ := hv.popped_place ((wakePc_eq hk).trans (congrArg some hpc))
  have hlocks : ∀ b', b' ≠ b → w.schedLock = some b' → some b = some b' := by
    intro b' _ hl
    rw [hlock] at hl
    cases hl
  have htake : Takes σ k t := .inl (by rw [hpc]; rfl)
  by_cases hw : (w.sched.threads t).wakeTime ≠ 0
  · rw [if_pos hw]
    refine ⟨W, R, _, hv.change (t := t) (a := .unsleeping b) ?_ (fun u hu => .of_threads rfl
      (fun _ => Iff.rfl) Iff.rfl rfl rfl (fun _ => Iff.rfl) fun hp => OutcomesInv.wake_update hk htake _ hu hp) hv.waits hv.ready hv.readies
      hv.sleepers (hv.wakers_update hk htake (.inr ⟨rfl, rfl⟩)) (hv.lock_update hlocks fun _ _ _ => rfl) (hv.locked_update hk _) hv.outcome⟩
    refine .unsleeping hW hs hi (wakePc_setWaker _ _ _) hr ?_
    cases ht with
    | forever hb hl hw hh => exact .forever hb hl hw hh
    | pending hb hl hw hh => exact .pending hb hl hw hh
    | handled hb hl hw hp hh => exact .handled hb hl hw hp hh
  rw [if_neg hw]
  have hw := not_not.mp hw
  refine ⟨W, R, _, hv.change (t := t) (a := .finishing b) ?_ (fun u hu => .of_threads rfl
    (fun _ => Iff.rfl) Iff.rfl rfl rfl (fun _ => Iff.rfl) fun hp => OutcomesInv.wake_update hk htake _ hu hp) hv.waits hv.ready hv.readies
    hv.sleepers (hv.wakers_update hk htake (.inr ⟨rfl, rfl⟩)) (hv.lock_update hlocks fun _ _ _ => rfl) (hv.locked_update hk _) hv.outcome⟩
  cases ht with
  | forever _ hl _ hh =>
    exact .finishing hW hs hi (wakePc_setWaker _ _ _) hr hl fun hin => absurd hin hh
  | pending _ _ hw' _ => exact absurd hw hw'
  | handled hb hl _ hp hh =>
    refine .finishing hW hs hi (wakePc_setWaker _ _ _) hr hl fun _ => ?_
    rcases hh with rfl | rfl | rfl
    · exact ⟨hp, fun he => nomatch hb.symm.trans he⟩
    · exact absurd hp (hkeeps hw b)
    · have hnone := hv.locked hp
      rw [hk] at hnone
      cases hnone

/-- The thread leaves the sleep list. -/
theorem OutcomesInv.unsleeps
    (hk : w.wakers b = some k) (hpc : k.pc = .unsleeping t) (hticker : w.ticker = none) :
    Sound ({ w with sched := w.sched.removeFromSleepList t }.setWaker b
      (some { k with pc := .finishing t }), h) := by
  have hp := (wakePc_eq hk).trans (congrArg some hpc)
  have hst := hv.wakers hp rfl
  have hlock : w.schedLock = some b := hv.schedLock hp rfl
  have ha := hv.place t
  rw [hst] at ha
  cases ha with
  | unsleeping hW hs hi _ hr ht =>
    have htake : Takes σ k t := .inl (by rw [hpc]; rfl)
    have hstate := state_removeFromSleepList w.sched t
    have hth : (w.sched.removeFromSleepList t).threads t =
        { w.sched.threads t with wakeTime := 0 } := update_self _ _ _
    refine ⟨W, R, _, hv.change (t := t) (a := .finishing b) ?_ (fun u hu => .of_threads
      (update_of_ne hu _ _) (fun _ => Iff.rfl) (mem_erase_of_ne hu) rfl rfl
      (fun _ => Iff.rfl) fun hp => OutcomesInv.wake_update hk htake _ hu hp) hv.waits hv.ready (fun hu => hstate ▸ hv.readies hu)
      (hv.sleepers.erase t) (hv.wakers_update hk htake (.inr ⟨rfl, rfl⟩)) (hv.lock_update (fun _ _ h => h) fun _ _ _ => hlock)
      (hv.locked_update hk _) hv.outcome⟩
    refine .finishing hW (hstate ▸ hs) hi (wakePc_setWaker _ _ _) ?_
      hv.sleepers.not_mem_erase fun hin => ?_
    · exact (congrArg Thread.futexWakeupReason hth).trans hr
    obtain ⟨p, hp, -⟩ := hin
    have hnone : w.tickPc = none := by
      unfold Futexes.tickPc
      rw [hticker]
      rfl
    cases hnone.symm.trans hp

/-- The thread gets its reason and becomes ready. -/
theorem OutcomesInv.finishes
    (hk : w.wakers b = some k) (hpc : k.pc = .finishing t) :
    Sound ({ w with
      sched := (w.sched.mapThread t fun th => { th with
        futexBucket := none
        futexWakeupReason := .woken }).addToReadyQueue k.cpu t
      schedLock := none }.goOn b k, h) := by
  have hp := (wakePc_eq hk).trans (congrArg some hpc)
  have hst := hv.wakers hp rfl
  have hlock : w.schedLock = some b := hv.schedLock hp rfl
  have ha := hv.place t
  rw [hst] at ha
  cases ha with
  | finishing hW hs hi _ hr hl hh =>
    set s₁ := w.sched.mapThread t fun th => { th with futexBucket := none, futexWakeupReason := .woken }
    have hst₁ : s₁.state = w.sched.state :=
      (state_mapThread _ _ _).trans (update_eq_self _ _)
    have hstate : (s₁.addToReadyQueue k.cpu t).state = update w.sched.state t .Ready :=
      (state_addToReadyQueue _ _ _).trans (by rw [hst₁])
    have hth : (s₁.addToReadyQueue k.cpu t).threads t =
        { w.sched.threads t with
          state := .Ready, futexBucket := none, futexWakeupReason := .woken } := by
      refine (threads_setState_self s₁ t .Ready).trans ?_
      rw [threads_mapThread_self]
    have hother : ∀ u, u ≠ t → (s₁.addToReadyQueue k.cpu t).threads u = w.sched.threads u := by
      intro u hu
      exact (threads_setState_of_ne s₁ t .Ready hu).trans (update_of_ne hu _ _)
    have hR : ∀ d, t ∉ R d := fun d hd => by
      have hready := hv.readies hd
      rw [hs] at hready
      cases hready
    have htake : Takes σ k t := .inl (by rw [hpc]; rfl)
    refine ⟨W, _, _, hv.change (t := t) (a := .woken) ?_ (fun u hu => .of_threads (hother u hu)
      (fun _ => Iff.rfl) Iff.rfl rfl rfl (fun _ => Iff.rfl) fun hp => OutcomesInv.wake_update hk htake _ hu hp) hv.waits
      (hv.ready.append hR) (fun hu => readies_append hv.readies hstate hu) hv.sleepers
      (hv.wakers_update hk htake (.inl rfl)) (hv.lock_update (fun b' hb' hl => ?_) fun k₁ hk₁ hl => ?_) (hv.locked_update hk _) hv.outcome⟩
    · refine .woken hW ?_ hi ?_ hl ?_
      · exact fun he => nomatch (congrArg Thread.state hth).symm.trans he
      · exact fun he => nomatch (congrArg Thread.futexWakeupReason hth).symm.trans he
      · by_cases hin : w.Handled t
        · exact .detached (hh hin).1 (congrArg Thread.futexBucket hth)
        · exact .free hin
    · rw [hlock] at hl
      exact absurd (Option.some.inj hl).symm hb'
    · cases hk₁
      cases hl

/-- **Every access of a `wake` keeps the invariant.** -/
theorem OutcomesInv.wakerStep
    (hkeeps : KeepsOutcomes (w, h) (.waker b)) :
    Sound (futexStep w (.waker b), noteOutcomes h w (.waker b)) := by
  change Sound (match w.wakers b with
    | some k => w.wakerStep b k
    | none => w, match w.popsNext b with
    | some t => { h with counted := update h.counted t true }
    | none => h)
  cases hk : w.wakers b with
  | none =>
    rw [show w.popsNext b = none by unfold Futexes.popsNext; rw [hk]]
    exact ⟨W, R, σ, hv⟩
  | some k =>
    simp only
    unfold Futexes.wakerStep
    cases hpc : k.pc with
    | loop =>
      simp only
      by_cases hleft : k.left = 0
      · rw [if_pos hleft, popsNext_none hk (.inr hleft)]
        exact hv.endWake hk hpc
      rw [if_neg hleft, popsNext_loop hk hpc hleft]
      unfold Scheduler.pop
      cases hl : W (.futex b) with
      | nil =>
        rw [hv.waits.popFirst_nil hl]
        exact hv.endWake hk hpc
      | cons t l =>
        rw [(hv.waits.popFirst hl).1]
        exact hv.pops hk hpc hl
    | popped t =>
      rw [popsNext_none hk (.inl (by rw [hpc]; nofun))]
      by_cases hlock : w.schedLock.isSome = true
      · simp only [if_pos hlock]
        exact ⟨W, R, σ, hv⟩
      · have hp := (wakePc_eq hk).trans (congrArg some hpc)
        simp only [if_neg hlock, if_neg (not_not.mpr (hv.popped_place hp).2.2.1)]
        exact hv.looks hk hpc (not_isSome_iff_eq_none.mp hlock) (hkeeps t hp)
    | unsleeping t =>
      rw [popsNext_none hk (.inl (by rw [hpc]; nofun))]
      by_cases htick : w.ticker.isSome = true
      · simp only [if_pos htick]
        exact ⟨W, R, σ, hv⟩
      · simp only [if_neg htick]
        exact hv.unsleeps hk hpc (not_isSome_iff_eq_none.mp htick)
    | finishing t =>
      rw [popsNext_none hk (.inl (by rw [hpc]; nofun))]
      exact hv.finishes hk hpc

end

/-! ### The interrupt -/

/-- The tick has made an access about `t`, before and after; the others see nothing of it. -/
theorem tick_other {p p' : Option TickPc} (hp : ∀ q, p = some q → q.thread = none ∨ q.thread = some t)
    (hp' : ∀ q, p' = some q → q.thread = none ∨ q.thread = some t) (hne : u ≠ t) {q : TickPc}
    (hq : q.thread = some u) : p' = some q ↔ p = some q := by
  have hno : ∀ {o : Option TickPc}, (∀ q, o = some q → q.thread = none ∨ q.thread = some t) →
      o ≠ some q := by
    intro o ho he
    rcases ho q he with hn | ht
    · rw [hq] at hn
      cases hn
    · exact hne (Option.some.inj (hq.symm.trans ht))
  exact iff_of_false (hno hp') (hno hp)

theorem tickPc_eq {k : Ticker} (hk : w.ticker = some k) : w.tickPc = some k.pc := by
  unfold tickPc
  rw [hk]
  rfl

/-- An access of the interrupt about the thread `t`, which stays in or changes to the stage `a`. -/
theorem OutcomesInv.ticks (hv : OutcomesInv w h W R σ) {k k' : Ticker}
    (hk : w.ticker = some k) {a : Stage}
    (hplace : At { w with sched := s', ticker := some k' } t (h.counted t) W' a)
    (hpc : k.pc.thread = none ∨ k.pc.thread = some t)
    (hpc' : k'.pc.thread = none ∨ k'.pc.thread = some t)
    (hth : ∀ u, u ≠ t → s'.threads u = w.sched.threads u)
    (hW : ∀ u, u ≠ t → ∀ q, u ∈ W' q ↔ u ∈ W q)
    (hl : ∀ u, u ≠ t → (u ∈ s'.sleepList ↔ u ∈ w.sched.sleepList)) (hwaits : s'.waits.Reads W')
    (hready : s'.ready.Reads R') (hreadies : ∀ {c u}, u ∈ R' c → s'.state u = .Ready)
    (hsleep : s'.sleepList.Nodup) (hst : a = σ t ∨ (σ t).held = false)
    (hlocked : ∀ u b, k'.pc = .expiring u b → w.wakers b = none) :
    Sound ({ w with sched := s', ticker := some k' }, h) := by
  refine ⟨W', R', _, hv.change hplace (fun u hu => .of_threads (hth u hu) (hW u hu) (hl u hu) rfl rfl
    (fun hq => ?_) fun _ hp => hp) hwaits hready hreadies hsleep ?_ hv.schedLock (fun hp => ?_) hv.outcome⟩
  · refine tick_other (t := t) (fun q hq => ?_) (fun q hq => ?_) hu hq
    · rw [tickPc_eq hk] at hq
      exact Option.some.inj hq ▸ hpc
    · exact Option.some.inj hq ▸ hpc'
  · rcases hst with rfl | hheld
    · rw [update_eq_self]
      exact hv.wakers
    · exact hv.keepWakers hheld a
  · exact hlocked _ _ (Option.some.inj hp)

/-- The bucket of a thread whose timeout counts. -/
def Stage.timed : Stage → Option (Fin BUCKET_COUNT)
  | .linked b | .popped b | .unsleeping b => some b
  | _ => none

section Inversion

variable {c : Bool} {σ : Stage}

/-- A thread whose timeout counts has it in another state of its timeout. -/
theorem At.retime (ha : At w t c W σ) (hσ : σ.timed = some b) {v : Thread}
    (hth : w'.sched.threads t = v) (hb : v.state = w.sched.state t)
    (hr : v.futexWakeupReason = (w.sched.threads t).futexWakeupReason)
    (hi : w'.inWait = w.inWait) (hwk : w'.wakers = w.wakers) (hT : Timed w' t b) :
    At w' t c W σ := by
  subst hth
  have hpc : ∀ b, w'.wakePc b = w.wakePc b := fun b => by
    unfold wakePc
    rw [hwk]
  cases ha with
  | linked hW hs hi' hc hr' _ =>
    cases hσ
    exact .linked hW (hb.trans hs) (hi ▸ hi') hc (hr.trans hr') hT
  | popped hW hs hi' hp hr' _ =>
    cases hσ
    exact .popped hW (hb.trans hs) (hi ▸ hi') ((hpc _).trans hp) (hr.trans hr') hT
  | unsleeping hW hs hi' hp hr' _ =>
    cases hσ
    exact .unsleeping hW (hb.trans hs) (hi ▸ hi') ((hpc _).trans hp) (hr.trans hr') hT
  | _ => cases hσ

/-- A thread on the sleep list has a timeout that counts. -/
theorem At.of_sleeping (ha : At w t c W σ) (hl : t ∈ w.sched.sleepList) :
    ∃ b, σ.timed = some b ∧ (w.sched.threads t).futexBucket = some b := by
  have htimed : ∀ b, Timed w t b → (w.sched.threads t).futexBucket = some b := by
    intro b ht
    cases ht with
    | forever _ hl' _ _ => exact absurd hl hl'
    | pending hb _ _ _ => exact hb
    | handled hb _ _ _ _ => exact hb
  cases ha with
  | out _ _ hl' _ _ => exact absurd hl hl'
  | linked _ _ _ _ _ ht => exact ⟨_, rfl, htimed _ ht⟩
  | popped _ _ _ _ _ ht => exact ⟨_, rfl, htimed _ ht⟩
  | unsleeping _ _ _ _ _ ht => exact ⟨_, rfl, htimed _ ht⟩
  | finishing _ _ _ _ _ hl' _ => exact absurd hl hl'
  | woken _ _ _ _ hl' _ => exact absurd hl hl'
  | timedOut _ _ _ _ hl' _ => exact absurd hl hl'

/-- The timeout of a thread that the interrupt handles. -/
theorem Timed.of_handled (ht : Timed w t b) (hh : w.Handled t) :
    (w.sched.threads t).futexBucket = some b ∧ t ∉ w.sched.sleepList ∧
      (w.sched.threads t).wakeTime = 0 ∧
      (w.tickPc = some (.detached t) ∨ w.tickPc = some (.tries t b) ∨
        w.tickPc = some (.expiring t b)) := by
  cases ht with
  | forever _ _ _ hn => exact absurd hh hn
  | pending _ _ _ hn => exact absurd hh hn
  | handled hb hl hw hp hh =>
    refine ⟨hb, hl, hw, ?_⟩
    rcases hh with rfl | rfl | rfl
    · exact .inl hp
    · exact .inr (.inl hp)
    · exact .inr (.inr hp)

/-- A thread that the interrupt handles: its timeout counts, or a `wake` is about to finish it, or
    the interrupt passes it by, or it has expired. -/
theorem At.of_handled (ha : At w t c W σ) (hh : w.Handled t) :
    (∃ b, σ.timed = some b ∧ Timed w t b) ∨
    (∃ b, w.wakePc b = some (.finishing t) ∧ w.tickPc = some (.detached t) ∧
      (w.sched.threads t).futexBucket ≠ none) ∨
    (σ.timed = none ∧ σ.held = false ∧ w.sched.state t ≠ .Blocked ∧ Passing w t) ∨
    (σ = .timedOut ∧ w.sched.state t = .Blocked ∧ w.tickPc = some (.expired t)) := by
  cases ha with
  | out _ hs _ _ hp => exact .inr (.inr (.inl ⟨rfl, rfl, hs, hp⟩))
  | linked _ _ _ _ _ ht => exact .inl ⟨_, rfl, ht⟩
  | popped _ _ _ _ _ ht => exact .inl ⟨_, rfl, ht⟩
  | unsleeping _ _ _ _ _ ht => exact .inl ⟨_, rfl, ht⟩
  | finishing _ _ _ hp _ _ hd => exact .inr (.inl ⟨_, hp, hd hh⟩)
  | woken _ hs _ _ _ hp => exact .inr (.inr (.inl ⟨rfl, rfl, hs, hp⟩))
  | timedOut _ _ _ _ _ hd =>
    rcases hd with hd | ⟨-, hn⟩
    · exact .inr (.inr (.inr ⟨rfl, hd⟩))
    · exact absurd hh hn

/-- The interrupt passes by a thread that is out or woken, before and after its access. -/
theorem At.repass (ha : At w t c W σ) (hσ : σ.timed = none) (hheld : σ.held = false)
    (hs : w.sched.state t ≠ .Blocked) (hsched : w'.sched = w.sched) (hi : w'.inWait = w.inWait)
    (hP : Passing w' t) (hh : ¬ w'.Handled t ∨ σ ≠ .timedOut) : At w' t c W σ := by
  cases ha with
  | out hW _ hl hi' _ => exact .out hW (hsched ▸ hs) (hsched ▸ hl) (hi ▸ hi') hP
  | linked => cases hσ
  | popped => cases hσ
  | unsleeping => cases hσ
  | finishing => cases hheld
  | woken hW _ hi' hr hl _ => exact .woken hW (hsched ▸ hs) (hi ▸ hi') (hsched ▸ hr) (hsched ▸ hl) hP
  | timedOut hW hi' hc hr hl _ =>
    exact .timedOut hW (hi ▸ hi') hc (hsched ▸ hr) (hsched ▸ hl)
      (.inr ⟨hsched ▸ hs, hh.resolve_right fun h => h rfl⟩)

end Inversion

section

variable (hv : OutcomesInv w h W R σ)
include hv

/-- The round is over. -/
theorem OutcomesInv.endTick {k : Ticker}
    (hk : w.ticker = some k) (hpc : k.pc = .loop) : Sound ({ w with ticker := none }, h) := by
  refine ⟨W, R, σ, hv.waits, hv.ready, hv.readies, hv.sleepers, fun u => (hv.place u).same ?_,
    hv.wakers, hv.schedLock, (fun hp => nomatch hp), hv.outcome⟩
  refine .of_threads rfl (fun _ => Iff.rfl) Iff.rfl rfl rfl (fun {q} hq => ?_) fun _ hp => hp
  rw [tickPc_eq hk, hpc]
  refine iff_of_false nofun fun he => ?_
  cases he
  cases hq

/-- A thread that is due leaves the sleep list. -/
theorem OutcomesInv.detaches {k : Ticker}
    (hk : w.ticker = some k) (hpc : k.pc = .loop) (hl : t ∈ w.sched.sleepList) :
    Sound ({ w with
      sched := w.sched.removeFromSleepList t
      ticker := some { k with pc := .detached t } }, h) := by
  obtain ⟨b, hσ, hb⟩ := (hv.place t).of_sleeping hl
  have hstate := state_removeFromSleepList w.sched t
  have hth : (w.sched.removeFromSleepList t).threads t =
      { w.sched.threads t with wakeTime := 0 } := update_self _ _ _
  refine hv.ticks hk (t := t) (a := σ t) ?_ (.inl (by rw [hpc]; rfl)) (.inr rfl)
    (fun u hu => update_of_ne hu _ _) (fun _ _ _ => Iff.rfl)
    (fun u hu => mem_erase_of_ne hu) hv.waits hv.ready (fun hu => hstate ▸ hv.readies hu)
    (hv.sleepers.erase t) (.inl rfl) fun u b he => nomatch he
  exact (hv.place t).retime hσ hth rfl rfl rfl rfl
    (.handled ((congrArg Thread.futexBucket hth).trans hb) hv.sleepers.not_mem_erase
      (congrArg Thread.wakeTime hth) rfl (.inl rfl))

/-- The look at `futex_bucket`. -/
theorem OutcomesInv.readsBucket {k : Ticker}
    (hk : w.ticker = some k) (hpc : k.pc = .detached t)
    (hkeeps : (w.sched.threads t).futexBucket ≠ none → ∀ b, w.wakePc b ≠ some (.finishing t)) :
    Sound (match (w.sched.threads t).futexBucket with
      | some b => { w with ticker := some { k with pc := .tries t b } }
      | none => { w with ticker := some { k with pc := .expired t } }, h) := by
  have hp : w.tickPc = some (.detached t) := (tickPc_eq hk).trans (congrArg some hpc)
  have hh : w.Handled t := ⟨_, hp, rfl⟩
  cases hb : (w.sched.threads t).futexBucket with
  | some b =>
    refine hv.ticks hk (t := t) (a := σ t) ?_ (.inr (by rw [hpc]; rfl)) (.inr rfl) (fun _ _ => rfl)
      (fun _ _ _ => Iff.rfl) (fun _ _ => Iff.rfl) hv.waits hv.ready hv.readies hv.sleepers (.inl rfl)
      fun u b he => nomatch he
    rcases (hv.place t).of_handled hh with ⟨b', hσ, ht⟩ | ⟨b', hfin, -⟩ | ⟨-, -, -, hP⟩ | ⟨-, -, he⟩
    · obtain ⟨hb', hl, hw, -⟩ := ht.of_handled hh
      have hbb := Option.some.inj (hb.symm.trans hb')
      exact (hv.place t).retime hσ rfl rfl rfl rfl rfl (.handled hb' hl hw rfl (.inr (.inl (by rw [hbb]))))
    · exact absurd hfin (hkeeps (by rw [hb]; nofun) b')
    · cases hP with
      | free hn => exact absurd hh hn
      | expired he => cases hp.symm.trans he
      | detached _ hn => cases hb.symm.trans hn
    · cases hp.symm.trans he
  | none =>
    refine hv.ticks hk (t := t) (a := σ t) ?_ (.inr (by rw [hpc]; rfl)) (.inr rfl) (fun _ _ => rfl)
      (fun _ _ _ => Iff.rfl) (fun _ _ => Iff.rfl) hv.waits hv.ready hv.readies hv.sleepers (.inl rfl)
      fun u b he => nomatch he
    rcases (hv.place t).of_handled hh with ⟨b', -, ht⟩ | ⟨b', -, -, hne⟩ | ⟨hσ, hheld, hs, -⟩ |
      ⟨-, -, he⟩
    · cases hb.symm.trans (ht.of_handled hh).1
    · exact absurd hb hne
    · refine (hv.place t).repass hσ hheld hs rfl rfl (.expired rfl) (.inr fun he => ?_)
      have ha := hv.place t
      rw [he] at ha
      cases ha with
      | timedOut _ _ _ _ _ hd =>
        rcases hd with ⟨hs', -⟩ | ⟨-, hn⟩
        · exact hs hs'
        · exact hn hh
    · cases hp.symm.trans he

/-- A thread that the interrupt has read the bucket of. -/
theorem OutcomesInv.tries_place
    (hp : w.tickPc = some (.tries t b) ∨ w.tickPc = some (.expiring t b)) :
    (σ t).timed = some b ∧ Timed w t b := by
  have hh : w.Handled t := by
    rcases hp with hp | hp
    · exact ⟨_, hp, rfl⟩
    · exact ⟨_, hp, rfl⟩
  have hno : ∀ q, w.tickPc = some q → q = .tries t b ∨ q = .expiring t b := by
    intro q hq
    rcases hp with hp | hp
    · exact .inl (Option.some.inj (hq.symm.trans hp))
    · exact .inr (Option.some.inj (hq.symm.trans hp))
  rcases (hv.place t).of_handled hh with ⟨b', hσ, ht⟩ | ⟨-, -, hd, -⟩ | ⟨-, -, -, hP⟩ | ⟨-, -, he⟩
  · rcases (ht.of_handled hh).2.2.2 with h' | h' | h'
    · rcases hno _ h' with he | he <;> cases he
    · rcases hno _ h' with he | he
      · cases he
        exact ⟨hσ, ht⟩
      · cases he
    · rcases hno _ h' with he | he
      · cases he
      · cases he
        exact ⟨hσ, ht⟩
  · rcases hno _ hd with he | he <;> cases he
  · cases hP with
    | free hn => exact absurd hh hn
    | expired he' => rcases hno _ he' with he | he <;> cases he
    | detached he' _ => rcases hno _ he' with he | he <;> cases he
  · rcases hno _ he with he | he <;> cases he

/-- The try for the lock of the bucket: without it the thread goes back on the sleep list. -/
theorem OutcomesInv.triesLock {k : Ticker}
    (hk : w.ticker = some k) (hpc : k.pc = .tries t b) :
    Sound (if (w.wakers b).isNone then { w with ticker := some { k with pc := .expiring t b } }
      else
        { w with
          sched := (w.sched.mapThread t fun th => { th with
            wakeTime := k.now + 1 }).insertSleepThread t
          ticker := some { k with pc := .loop } }, h) := by
  have hp : w.tickPc = some (.tries t b) := (tickPc_eq hk).trans (congrArg some hpc)
  obtain ⟨hσ, ht⟩ := hv.tries_place (.inl hp)
  obtain ⟨hb, hl, hw, -⟩ := ht.of_handled ⟨_, hp, rfl⟩
  by_cases hfree : (w.wakers b).isNone = true
  · rw [if_pos hfree]
    refine hv.ticks hk (t := t) (a := σ t) ?_ (.inr (by rw [hpc]; rfl)) (.inr rfl) (fun _ _ => rfl)
      (fun _ _ _ => Iff.rfl) (fun _ _ => Iff.rfl) hv.waits hv.ready hv.readies hv.sleepers (.inl rfl)
      fun u b' he => ?_
    · exact (hv.place t).retime hσ rfl rfl rfl rfl rfl (.handled hb hl hw rfl (.inr (.inr rfl)))
    · cases he
      exact isNone_iff_eq_none.mp hfree
  rw [if_neg hfree]
  set s₁ := w.sched.mapThread t fun th => { th with wakeTime := k.now + 1 }
  have hth : (s₁.insertSleepThread t).threads t = { w.sched.threads t with wakeTime := k.now + 1 } :=
    threads_mapThread_self w.sched t fun th => { th with wakeTime := k.now + 1 }
  have hother : ∀ u, u ≠ t → (s₁.insertSleepThread t).threads u = w.sched.threads u := fun u hu =>
    threads_mapThread_of_ne w.sched t (fun th => { th with wakeTime := k.now + 1 }) hu
  have hstate : (s₁.insertSleepThread t).state = w.sched.state := by
    funext u
    by_cases e : u = t
    · rw [e]
      exact (congrArg Thread.state hth).trans rfl
    · exact congrArg Thread.state (hother u e)
  have hperm := insertBy_perm (fun u => (s₁.threads u).wakeTime) t w.sched.sleepList
  refine hv.ticks hk (t := t) (a := σ t) ?_ (.inr (by rw [hpc]; rfl)) (.inl rfl)
    hother (fun _ _ _ => Iff.rfl) (fun u hu => ?_)
    hv.waits hv.ready (fun hu => hstate ▸ hv.readies hu) (nodup_insertBy hv.sleepers hl) (.inl rfl)
    fun u b' he => nomatch he
  · refine (hv.place t).retime hσ hth rfl rfl rfl rfl (.pending
      ((congrArg Thread.futexBucket hth).trans hb) (hperm.mem_iff.mpr (.head _)) ?_ ?_)
    · exact fun he => nomatch (congrArg Thread.wakeTime hth).symm.trans he
    · rintro ⟨q, hq, ht⟩
      cases hq
      cases ht
  · exact hperm.mem_iff.trans (mem_cons.trans (or_iff_right hu))

/-- With the lock of the bucket held, the thread leaves the bucket and has timed out. -/
theorem OutcomesInv.expires {k : Ticker}
    (hk : w.ticker = some k) (hpc : k.pc = .expiring t b) :
    Sound ({ w with
      sched := (w.sched.removeThread (.futex b) t).1.mapThread t fun th => { th with
        futexWakeupReason := .timeout
        futexBucket := none }
      ticker := some { k with pc := .expired t } }, h) := by
  have hp : w.tickPc = some (.expiring t b) := (tickPc_eq hk).trans (congrArg some hpc)
  have hnone := hv.locked hp
  obtain ⟨hσ, ht⟩ := hv.tries_place (.inr hp)
  obtain ⟨-, hl, -, -⟩ := ht.of_handled ⟨_, hp, rfl⟩
  have hno : ∀ p, w.wakePc b ≠ some p := by
    intro p he
    rw [wakePc_eq hnone] at he
    cases he
  have hlinked : σ t = .linked b ∧ t ∈ W (.futex b) ∧ w.sched.state t = .Blocked ∧
      w.inWait t = true ∧ h.counted t = false := by
    have ha := hv.place t
    generalize σ t = st at ha hσ
    cases ha with
    | linked hW hs hi hc _ _ =>
      cases hσ
      exact ⟨rfl, hW, hs, hi, hc⟩
    | popped _ _ _ hp' _ _ =>
      cases hσ
      exact absurd hp' (hno _)
    | unsleeping _ _ _ hp' _ _ =>
      cases hσ
      exact absurd hp' (hno _)
    | _ => cases hσ
  obtain ⟨hst, hmem, hs, hi, hc⟩ := hlinked
  have hremove : w.sched.removeThread (.futex b) t =
      ({ w.sched with waits := w.sched.waits.remove (.futex b) t }, true) := by
    exact if_pos ((hv.waits.holds_iff fun q hq => hv.waits.apart hq hmem).mpr hmem)
  rw [hremove]
  set s₀ : Scheduler := { w.sched with waits := w.sched.waits.remove (.futex b) t }
  have hstate : (s₀.mapThread t fun th => { th with
      futexWakeupReason := .timeout
      futexBucket := none }).state = w.sched.state :=
    (state_mapThread s₀ t _).trans (update_eq_self _ _)
  have hth : (s₀.mapThread t fun th => { th with
      futexWakeupReason := .timeout
      futexBucket := none }).threads t =
      { w.sched.threads t with futexWakeupReason := .timeout, futexBucket := none } :=
    threads_mapThread_self s₀ t _
  have hout := hv.waits.out_of_erase hmem
  refine hv.ticks hk (t := t) (a := .timedOut) ?_ (.inr (by rw [hpc]; rfl)) (.inr rfl)
    (fun u hu => threads_mapThread_of_ne s₀ t _ hu) (fun _ hu _ => mem_update_erase_of_ne hu)
    (fun _ _ => Iff.rfl) (hv.waits.remove hmem) hv.ready (fun hu => hstate ▸ hv.readies hu) hv.sleepers
    (.inr (by rw [hst]; rfl)) fun u b' he => nomatch he
  exact .timedOut hout hi hc (congrArg Thread.futexWakeupReason hth) hl (.inl ⟨hstate ▸ hs, rfl⟩)

/-- The end of the round for a thread. -/
theorem OutcomesInv.readies_expired {k : Ticker}
    (hk : w.ticker = some k) (hpc : k.pc = .expired t) :
    Sound ({ w with
      sched := w.sched.readySleeper k.cpu t
      ticker := some { k with pc := .loop } }, h) := by
  have hp : w.tickPc = some (.expired t) := (tickPc_eq hk).trans (congrArg some hpc)
  have hh : w.Handled t := ⟨_, hp, rfl⟩
  have hfree : ∀ s' : Scheduler, ¬ Futexes.Handled
      { w with sched := s', ticker := some { k with pc := .loop } } t := by
    rintro s' ⟨q, hq, ht⟩
    cases hq
    cases ht
  rcases (hv.place t).of_handled hh with ⟨b, -, ht⟩ | ⟨-, -, hd, -⟩ | ⟨hσ, hheld, hs, -⟩ | ⟨hσ, hs, -⟩
  · rcases (ht.of_handled hh).2.2.2 with h' | h' | h' <;> cases h'.symm.trans hp
  · cases hd.symm.trans hp
  · have hsame : w.sched.readySleeper k.cpu t = w.sched := if_neg hs
    rw [hsame]
    refine hv.ticks hk (t := t) (a := σ t) ?_ (.inr (by rw [hpc]; rfl)) (.inl rfl) (fun _ _ => rfl)
      (fun _ _ _ => Iff.rfl) (fun _ _ => Iff.rfl) hv.waits hv.ready hv.readies hv.sleepers (.inl rfl)
      fun u b he => nomatch he
    exact (hv.place t).repass hσ hheld hs rfl rfl (.free (hfree _)) (.inl (hfree _))
  have hready : w.sched.readySleeper k.cpu t = w.sched.addToReadyQueue k.cpu t := if_pos hs
  have hst := state_addToReadyQueue w.sched t k.cpu
  have hth := threads_setState_self w.sched t .Ready
  rw [hready]
  have hR : ∀ d, t ∉ R d := fun d hd => by
    have hready := hv.readies hd
    rw [hs] at hready
    cases hready
  refine hv.ticks hk (t := t) (a := .timedOut) ?_ (.inr (by rw [hpc]; rfl)) (.inl rfl)
    (fun u hu => threads_setState_of_ne w.sched t .Ready hu) (fun _ _ _ => Iff.rfl)
    (fun _ _ => Iff.rfl) hv.waits (hv.ready.append hR) (fun hu => readies_append hv.readies hst hu)
    hv.sleepers (.inl hσ.symm) fun u b he => nomatch he
  have ha := hv.place t
  rw [hσ] at ha
  cases ha with
  | timedOut hW hi hc hr hl _ =>
    refine .timedOut hW hi hc ((congrArg Thread.futexWakeupReason hth).trans hr) hl
      (.inr ⟨fun he => ?_, hfree _⟩)
    cases (congrArg Thread.state hth).symm.trans he

/-- **Every access of the interrupt keeps the invariant.** -/
theorem OutcomesInv.tickerStep
    (hkeeps : KeepsOutcomes (w, h) .ticker) : Sound (futexStep w .ticker, h) := by
  change Sound (match w.ticker with
    | some k => w.tickerStep k
    | none => w, h)
  cases hk : w.ticker with
  | none => exact ⟨W, R, σ, hv⟩
  | some k =>
    simp only
    unfold Futexes.tickerStep
    cases hpc : k.pc with
    | loop =>
      cases hl : w.sched.sleepList with
      | nil => exact hv.endTick hk hpc
      | cons t l =>
        by_cases hdue : k.now < (w.sched.threads t).wakeTime
        · simp only [if_pos hdue]
          exact hv.endTick hk hpc
        · simp only [if_neg hdue]
          exact hv.detaches hk hpc (by rw [hl]; exact .head _)
    | detached t =>
      exact hv.readsBucket hk hpc (hkeeps t ((tickPc_eq hk).trans (congrArg some hpc)))
    | tries t b => exact hv.triesLock hk hpc
    | expiring t b => exact hv.expires hk hpc
    | expired t => exact hv.readies_expired hk hpc

/-! ## 8. Every run -/

theorem OutcomesInv.startWake (c : CpuId)
    (b : Fin BUCKET_COUNT) (count : Nat) : Sound (futexStep w (.wake c b count), h) := by
  unfold futexStep
  by_cases hfree : w.bucketFree b = true
  · simp only [if_pos hfree]
    obtain ⟨hnone, htick⟩ := and_eq_true_iff.mp hfree
    have hnone := isNone_iff_eq_none.mp hnone
    have hother : ∀ {b' p}, (w.setWaker b (some { cpu := c, left := count })).wakePc b' = some p →
        p ≠ .loop → w.wakePc b' = some p := by
      intro b' p hp hne
      by_cases e : b' = b
      · subst e
        rw [wakePc_setWaker] at hp
        exact absurd (Option.some.inj hp).symm hne
      · rwa [wakePc_eq (update_of_ne e _ _)] at hp
    refine ⟨W, R, σ, hv.waits, hv.ready, hv.readies, hv.sleepers, fun u => (hv.place u).same ?_,
      fun hp hu => hv.wakers (hother hp fun he => by rw [he] at hu; cases hu) hu,
      fun hp hl => hv.schedLock (hother hp fun he => by rw [he] at hl; cases hl) hl,
      fun {u b'} hp => ?_, hv.outcome⟩
    · refine .of_threads rfl (fun _ => Iff.rfl) Iff.rfl rfl rfl (fun _ => Iff.rfl) fun {b' p} hu hp => ?_
      rw [← hp]
      refine wakePc_eq (update_of_ne ?_ _ _)
      rintro rfl
      rw [wakePc_eq hnone] at hp
      cases hp
    · have hp : w.tickPc = some (.expiring u b') := hp
      rw [hp] at htick
      exact (update_of_ne (of_decide_eq_true htick) _ _).trans (hv.locked hp)
  · simp only [if_neg hfree]
    exact ⟨W, R, σ, hv⟩

theorem OutcomesInv.startTick (c : CpuId)
    (now : Nat) : Sound (futexStep w (.tick c now), h) := by
  unfold futexStep
  by_cases hfree : w.ticker = none
  · simp only [if_pos hfree]
    have hnone : w.tickPc = none := by
      unfold Futexes.tickPc
      rw [hfree]
      rfl
    refine ⟨W, R, σ, hv.waits, hv.ready, hv.readies, hv.sleepers, fun u => (hv.place u).same ?_,
      hv.wakers, hv.schedLock, (fun hp => by cases hp), hv.outcome⟩
    refine .of_threads rfl (fun _ => Iff.rfl) Iff.rfl rfl rfl (fun {q} hq => ?_) fun _ hp => hp
    rw [hnone]
    refine iff_of_false (fun he => ?_) nofun
    cases he
    cases hq
  · simp only [if_neg hfree]
    exact ⟨W, R, σ, hv⟩

end

theorem Sound.step {v : Futexes × Outcomes} {op : FutexOp} (hv : Sound v) (hk : KeepsOutcomes v op) :
    Sound (timing.step v op) := by
  obtain ⟨W, R, σ, hv⟩ := hv
  cases op with
  | wait t b ticks => exact hv.wait hk b ticks
  | returned t => exact hv.returned t
  | wake c b count => exact hv.startWake c b count
  | waker b => exact hv.wakerStep hk
  | tick c now => exact hv.startTick c now
  | ticker => exact hv.tickerStep hk
  | unblock c t => exact hv.unblock hk c
  | take c steals => exact hv.take c steals
  | preempt c t => exact hv.preempt c t

theorem Quiet.sound (hq : Quiet w) : Sound (w, {}) := by
  obtain ⟨R, hR, hready⟩ := hq.ready
  have hwake : ∀ b, w.wakePc b = none := fun b => wakePc_eq (hq.wakers b)
  have htick : w.tickPc = none := by
    unfold Futexes.tickPc
    rw [hq.ticker]
    rfl
  refine ⟨fun _ => [], R, fun _ => .out, hq.waits ▸ Queues.reads_empty, hR, hready,
    by rw [hq.sleepers]; exact nodup_nil, fun t => ?_, fun hp => ?_, fun hp => ?_, fun hp => ?_,
    fun r hr => absurd hr not_mem_nil⟩
  · refine .out (fun _ => not_mem_nil) (hq.awake t) ?_ (hq.outside t) (.free ?_)
    · rw [hq.sleepers]
      exact not_mem_nil
    · rintro ⟨p, hp, -⟩
      cases htick.symm.trans hp
  · cases (hwake _).symm.trans hp
  · cases (hwake _).symm.trans hp
  · cases htick.symm.trans hp

/-- Two ready threads, and nobody waits. -/
def quiet : Futexes :=
  { sched := booted
    inWait := fun _ => false
    wakers := fun _ => none
    ticker := none
    schedLock := none }

theorem quiet_quiet : Quiet quiet := by
  obtain ⟨-, ⟨R, hR, hmem⟩, -, -, -, hblocked, -⟩ := booted_boots
  exact ⟨rfl, ⟨R, hR, fun ht => (hmem _).mp ⟨_, ht⟩⟩, rfl, hblocked, fun _ => rfl, fun _ => rfl, rfl, rfl⟩

theorem quiet_timing : timing.start (quiet, {}) := ⟨quiet_quiet, rfl⟩

def bucket0 : Fin BUCKET_COUNT := ⟨0, by decide⟩

/-- Thread 1 waits with a timeout, and a `wake` reaches it before the timeout. -/
def wokenInTime : List FutexOp :=
  [.take 0 false, .wait 1 bucket0 1, .wake 0 bucket0 1, .waker bucket0, .waker bucket0, .waker bucket0,
    .waker bucket0, .waker bucket0, .take 0 false, .take 0 false, .returned 1]

theorem wokenInTime_keeps : timing.Along KeepsOutcomes (quiet, {}) wokenInTime := by
  refine ⟨trivial, ?_, trivial, ?_, ?_, ?_, ?_, ?_, trivial, trivial, trivial, trivial⟩
  · rintro ⟨p, hp, -⟩
    cases hp
  all_goals
    intro _ _ _ _ he
    cases he

/-- Thread 1 waits with a timeout. The interrupt takes it off the sleep list and reads its bucket; a
    `wake` on another CPU pops it and makes it ready; the interrupt goes on. -/
def wakeInsideTick : List FutexOp :=
  [.take 0 false, .wait 1 bucket0 1, .tick 1 1, .ticker, .ticker, .wake 0 bucket0 1, .waker bucket0,
    .waker bucket0, .waker bucket0, .waker bucket0, .ticker, .ticker, .ticker, .ticker,
    .take 0 false, .take 0 false, .returned 1]

end Zigk.Futex
