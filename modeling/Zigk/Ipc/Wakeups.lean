/-
  Subject:   WAKEUPS OF SEMAPHORES AND MESSAGE QUEUES: who waits, who is woken, who is forgotten.

  All calls of the two services by any number of threads. A call is one pass through the lock;
  a call that cannot go on is put to sleep in a wait queue of its object, first in, first out, and
  after it has been woken it makes a new pass. Only the pending calls are kept: whose they are
  plays no part.

  * `IpcState`, `ipcStep` -- the tables, the calls asleep and the calls woken;
  * `Provided`, `reserved`, `leftover` -- what the woken calls will still do for, or against, those
    that sleep; `Heeds` -- **the calls that wake, or leave awake, enough**.
-/
import Zigk.Ipc.Sem
import Zigk.Ipc.MsgQueues

namespace Zigk.Ipc

/-! ## 1. Calls, sleepers and wait queues -/

/-- A call between two passes: what it needs for the next one. -/
inductive IpcCall where
  | semop (id : BitVec 32) (sops : List SemBuf) (proc : SemProcess)
  | snd (id : BitVec 32) (m : Message) (msgflg : BitVec 32) (proc : Cred)
  | rcv (id : BitVec 32) (args : RcvArgs) (proc : Cred)

/-- The wait queues: one of a set, two of a message queue. -/
inductive Chan where
  | sem (i : Nat)
  | send (i : Nat)
  | recv (i : Nat)
  deriving DecidableEq

/-- Where a call goes to sleep. -/
def IpcCall.chan : IpcCall → Chan
  | .semop id _ _ => .sem (idToIndex id)
  | .snd id _ _ _ => .send (idToIndex id)
  | .rcv id _ _ => .recv (idToIndex id)

structure IpcState (P : Type) where
  sems : SemTable := {}
  msgs : MsgTable P := {}
  asleep : Chan → List IpcCall := fun _ => []
  woken : List IpcCall := []
  stopped : Bool := false

variable {P : Type} [DecidableEq P]

/-- `sched.waitOn` -/
def IpcState.waitOn (s : IpcState P) (c : Chan) (k : IpcCall) : IpcState P :=
  { s with asleep := Function.update s.asleep c (s.asleep c ++ [k]) }

/-- `wakeUp` on a wait queue. -/
def IpcState.wakeUp (s : IpcState P) (c : Chan) (w : Wake) : IpcState P :=
  { s with
    asleep := Function.update s.asleep c (w.split (s.asleep c)).2
    woken := s.woken ++ (w.split (s.asleep c)).1 }

def IpcState.stop (s : IpcState P) : IpcState P := { s with stopped := true }

/-! ## 2. The passes -/

def passSemop (s : IpcState P) (id : BitVec 32) (sops : List SemBuf) (proc : SemProcess) :
    IpcState P :=
  let r := semop s.sems id sops proc
  match r.attempt with
  | .blocked => s.waitOn (.sem (idToIndex id)) (.semop id sops proc)
  | .trap _ => s.stop
  | _ => { s with sems := r.table }.wakeUp (.sem (idToIndex id)) r.wake

def passSnd (debug : Bool) (s : IpcState P) (id : BitVec 32) (m : Message) (msgflg : BitVec 32)
    (proc : Cred) (alloc : Option P) : IpcState P :=
  let r := sndAttempt debug s.msgs id m msgflg proc alloc
  match r.attempt with
  | .blocked => s.waitOn (.send (idToIndex id)) (.snd id m msgflg proc)
  | .trap _ => s.stop
  | _ => { s with msgs := r.table }.wakeUp (.recv (idToIndex id)) r.wake

def passRcv (s : IpcState P) (id : BitVec 32) (args : RcvArgs) (proc : Cred) : IpcState P :=
  let r := msgrcv s.msgs id args proc
  match r.attempt with
  | .blocked => s.waitOn (.recv (idToIndex id)) (.rcv id args proc)
  | .trap _ => s.stop
  | _ => { s with msgs := r.table }.wakeUp (.send (idToIndex id)) r.wake

/-- A command on a set, with its wakeup. -/
def semCommand (s : IpcState P) (id : BitVec 32) (r : SemTable × Except IpcError Wake) :
    IpcState P :=
  match r.2 with
  | .ok w => { s with sems := r.1 }.wakeUp (.sem (idToIndex id)) w
  | .error _ => s

/-- The adjustments of a process that exits. -/
def exitUndo (s : IpcState P) (entries : List SemUndo) : IpcState P :=
  match applySemUndo s.sems entries with
  | .ok (t, slots) =>
    slots.foldl (fun s i => s.wakeUp (.sem i.val) .everybody) { s with sems := t }
  | .error _ => s.stop

def removeQueue (s : IpcState P) (id : BitVec 32) (proc : Cred) : IpcState P :=
  let r := msgRmid s.msgs id proc
  match r.attempt with
  | .trap _ => s.stop
  | _ => ({ s with msgs := r.table }.wakeUp (.send (idToIndex id)) r.wake).wakeUp
      (.recv (idToIndex id)) r.wake

/-- A step: a first pass of a call, a command, or a further pass of the call that stands at `n`
    among the woken ones. A sender starts with its message copied; the answers of the heap and of
    the memory of a receiver belong to the pass. -/
inductive IpcStep (P : Type) where
  | semget (key : BitVec 32) (nsems : Nat) (flags : BitVec 32) (proc : Cred) (alloc : Bool)
  | semop (id : BitVec 32) (sops : List SemBuf) (proc : SemProcess)
  | semSetval (id : BitVec 32) (semnum arg : Nat) (proc : Cred)
  | semRmid (id : BitVec 32) (proc : Cred)
  | semUndo (entries : List SemUndo)
  | msgget (key flags : BitVec 32) (proc : Cred)
  | snd (id : BitVec 32) (m : Message) (msgflg : BitVec 32) (proc : Cred) (alloc : Option P)
  | rcv (id : BitVec 32) (args : RcvArgs) (proc : Cred)
  | msgSet (id : BitVec 32) (buf : Option MsgSetBuf) (proc : Cred)
  | msgRmid (id : BitVec 32) (proc : Cred)
  | again (n : Nat) (alloc : Option P) (header bytes : Bool)

/-- The call at `n` leaves the woken ones. -/
def IpcState.resume (s : IpcState P) (n : Nat) : IpcState P :=
  { s with woken := s.woken.eraseIdx n }

def RcvArgs.with (args : RcvArgs) (header bytes : Bool) : RcvArgs :=
  { args with header := header, bytes := bytes }

def passAgain (debug : Bool) (s : IpcState P) (n : Nat) (alloc : Option P) (header bytes : Bool) :
    IpcState P :=
  match s.woken[n]? with
  | none => s
  | some (.semop id sops proc) => passSemop (s.resume n) id sops proc
  | some (.snd id m msgflg proc) => passSnd debug (s.resume n) id m msgflg proc alloc
  | some (.rcv id args proc) => passRcv (s.resume n) id (args.with header bytes) proc

def ipcStep (debug : Bool) (s : IpcState P) (op : IpcStep P) : IpcState P :=
  if s.stopped then s
  else
    match op with
    | .semget key nsems flags proc alloc =>
      { s with sems := (semget s.sems key nsems flags proc alloc).1 }
    | .semop id sops proc => passSemop s id sops proc
    | .semSetval id semnum arg proc => semCommand s id (semSetval s.sems id semnum arg proc)
    | .semRmid id proc => semCommand s id (semRmid s.sems id proc)
    | .semUndo entries => exitUndo s entries
    | .msgget key flags proc => { s with msgs := (msgget s.msgs key flags proc).1 }
    | .snd id m msgflg proc alloc => passSnd debug s id m msgflg proc alloc
    | .rcv id args proc => passRcv s id args proc
    | .msgSet id buf proc => { s with msgs := (msgSet s.msgs id buf proc).table }
    | .msgRmid id proc => removeQueue s id proc
    | .again n alloc header bytes => passAgain debug s n alloc header bytes

def ipcMachine (P : Type) [DecidableEq P] (debug : Bool) : Machine (IpcState P) (IpcStep P) where
  start s := s = {}
  step s op := ipcStep debug s op

/-! ## 3. No wakeup is lost -/

/-- The messages from an address on, along the links. -/
def MsgTable.walk (t : MsgTable P) : Nat → Option P → List Message
  | n + 1, some p =>
    match t.heap.lookup p with
    | some msg => msg.message :: t.walk n msg.next
    | none => []
  | _, _ => []

/-- The messages in a queue. -/
def MsgTable.sequence (t : MsgTable P) (i : Fin MSGMNI) : List Message :=
  t.walk t.heap.entries.length (t.queues i).head

/-- No call is in progress: every one is asleep or over. -/
def IpcState.Quiet (s : IpcState P) : Prop := s.woken = [] ∧ s.stopped = false

/-- **Nobody sleeps who could go on**: no pending operations that would proceed, no message that
    fits, no receiver whose selector matches a message in the queue. -/
structure NoneLost (s : IpcState P) : Prop where
  sem : ∀ i id sops proc, .semop id sops proc ∈ s.asleep (.sem i) →
    (semop s.sems id sops proc).attempt ≠ .done ()
  send : ∀ (i : Fin MSGMNI) id m msgflg proc, .snd id m msgflg proc ∈ s.asleep (.send i) →
    (s.msgs.queues i).qbytes + m.size > (s.msgs.queues i).qbytes_max
  recv : ∀ (i : Fin MSGMNI) id args proc, .rcv id args proc ∈ s.asleep (.recv i) →
    ∀ m ∈ s.msgs.sequence i, Matches args.msgtyp m = false

/-! ## 4. What the woken calls will do -/

/-- The values of a set. -/
def SemTable.vals (t : SemTable) (idx : Fin SEMMNI) : List Nat :=
  values ((t.sem_sets idx).sems.getD [])

/-- Operations that have to wait on these values. -/
def Stuck (vals : List Nat) (sops : List SemBuf) : Prop := ∃ sop ∈ sops, ¬sop.Meets (sop.value vals)

/-- Operations that wake everybody. -/
def Adds (sops : List SemBuf) : Prop := ∃ sop ∈ sops, 0 < sop.sem_op

/-- The values after operations that do not add. -/
def lowered (vals : List Nat) (sops : List SemBuf) : List Nat :=
  sops.foldl (fun vals sop => vals.modify sop.sem_num (· - (-sop.sem_op).toNat)) vals

/-- The operations of the woken calls on the set `i`. -/
def IpcCall.array (i : Nat) : IpcCall → Option (List SemBuf)
  | .semop id sops _ => if idToIndex id = i then some sops else none
  | _ => none

def arrays (W : List IpcCall) (i : Nat) : List (List SemBuf) := W.filterMap (IpcCall.array i)

/-- **A sleeping array is provided for**: it has to wait, or a woken one goes through that wakes it
    or after which it has to wait. -/
def Provided (vals : List Nat) (W : List (List SemBuf)) (sops : List SemBuf) : Prop :=
  Stuck vals sops ∨ ∃ w ∈ W, ¬Stuck vals w ∧ (Adds w ∨ Stuck (lowered vals w) sops)

/-- The sizes of the messages of the woken senders. -/
def IpcCall.size? (i : Nat) : IpcCall → Option Nat
  | .snd id m _ _ => if idToIndex id = i then some m.size else none
  | _ => none

/-- The bytes that the woken senders will take if they all find room. -/
def reserved (W : List IpcCall) (i : Nat) : Nat := (W.filterMap (IpcCall.size? i)).sum

/-- The selectors of the woken receivers. -/
def IpcCall.selector (i : Nat) : IpcCall → Option (BitVec 64)
  | .rcv id args _ => if idToIndex id = i then some args.msgtyp else none
  | _ => none

def selectors (W : List IpcCall) (i : Nat) : List (BitVec 64) :=
  W.filterMap (IpcCall.selector i)

/-- What is left of a sequence after receivers, one after another. -/
def leftover (ms : List Message) (o : List (BitVec 64)) : List Message :=
  o.foldl (fun ms msgtyp => ms.eraseP (Matches msgtyp)) ms

/-! The sleepers of a wait queue are served: -/

def ServedSem (vals : List Nat) (W : List (List SemBuf)) (l : List IpcCall) : Prop :=
  ∀ id sops proc, .semop id sops proc ∈ l → Provided vals W sops

/-- The messages do not fit with those of the woken senders. -/
def ServedSnd (qbytes limit : Nat) (l : List IpcCall) : Prop :=
  ∀ id m msgflg proc, .snd id m msgflg proc ∈ l → qbytes + m.size > limit

/-- In whatever order the woken receivers go on, they leave no message that matches. -/
def ServedRcv (ms : List Message) (W : List (BitVec 64)) (l : List IpcCall) : Prop :=
  ∀ id args proc, .rcv id args proc ∈ l → ∀ o, o.Perm W → ∀ m ∈ leftover ms o,
    Matches args.msgtyp m = false

/-! ## 5. The calls that wake, or leave awake, enough -/

/-- `s.woken` without the call itself. -/
def HeedsSemop (s : IpcState P) (id : BitVec 32) (sops : List SemBuf) (proc : SemProcess) : Prop :=
  ∀ idx : Fin SEMMNI, idx.val = idToIndex id →
    let l := s.asleep (.sem idx)
    match s.sems.enter id sops proc.cred with
    | .error _ => ServedSem (s.sems.vals idx) (arrays s.woken idx) l
    | .ok _ => ¬Stuck (s.sems.vals idx) sops → ¬Adds sops →
        ServedSem (lowered (s.sems.vals idx) sops) (arrays s.woken idx) l

/-- The first sleeper is woken, the others are not. -/
def HeedsSetval (s : IpcState P) (id : BitVec 32) (semnum arg : Nat) (proc : Cred) : Prop :=
  ∀ idx, s.sems.lookup id .EINVAL = .ok idx → semnum < (s.sems.sem_sets idx).nsems →
    checkAccess (s.sems.sem_sets idx).perm proc .write = true → arg ≤ SEMVMX →
    let l := s.asleep (.sem idx)
    ServedSem ((s.sems.vals idx).set semnum arg) (arrays (s.woken ++ l.take 1) idx) (l.drop 1)

/-- The message of a sender finds room and a place on the heap. -/
def GoesIn (s : IpcState P) (id : BitVec 32) (m : Message) (proc : Cred) (alloc : Option P)
    (idx : Fin MSGMNI) : Prop :=
  s.msgs.enter id proc .write = .ok idx ∧
    (s.msgs.queues idx).qbytes + m.size ≤ (s.msgs.queues idx).qbytes_max ∧
    (s.msgs.create alloc).isSome

/-- A sender that goes in wakes the first receiver; one that does not leaves its bytes to the
    other woken senders. -/
def HeedsSnd (s : IpcState P) (id : BitVec 32) (m : Message) (proc : Cred) (alloc : Option P) :
    Prop :=
  ∀ idx : Fin MSGMNI, idx.val = idToIndex id →
    let q := s.msgs.queues idx
    let l := s.asleep (.recv idx)
    (GoesIn s id m proc alloc idx →
      ServedRcv (s.msgs.sequence idx ++ [m]) (selectors (s.woken ++ l.take 1) idx) (l.drop 1)) ∧
    (¬GoesIn s id m proc alloc idx →
      ServedSnd (q.qbytes + reserved s.woken idx) q.qbytes_max (s.asleep (.send idx)))

/-- A receiver that gets a message wakes the first sender; one that fails may leave the messages
    in another order, to the other woken receivers. -/
def HeedsRcv (s : IpcState P) (id : BitVec 32) (args : RcvArgs) (proc : Cred) : Prop :=
  ∀ idx : Fin MSGMNI, idx.val = idToIndex id →
    let q := s.msgs.queues idx
    let ms := s.msgs.sequence idx
    let l := s.asleep (.send idx)
    match s.msgs.enter id proc .read with
    | .error _ => ServedRcv ms (selectors s.woken idx) (s.asleep (.recv idx))
    | .ok _ => args.msgtyp ≠ BitVec.intMin 64 → ∀ m, ms.find? (Matches args.msgtyp) = some m →
        ((refusal args m.size).isSome → ServedRcv (m :: ms.eraseP (Matches args.msgtyp))
          (selectors s.woken idx) (s.asleep (.recv idx))) ∧
        (refusal args m.size = none →
          ServedSnd (q.qbytes - m.size + reserved (s.woken ++ l.take 1) idx) q.qbytes_max (l.drop 1))

/-- A new limit wakes nobody. -/
def HeedsSet (s : IpcState P) (id : BitVec 32) (buf : Option MsgSetBuf) (proc : Cred) : Prop :=
  ∀ idx ds, s.msgs.owned id proc = .ok idx → buf = some ds →
    ServedSnd ((s.msgs.queues idx).qbytes + reserved s.woken idx) ds.qbytes (s.asleep (.send idx))

/-- **The steps after which the woken calls still do for every sleeper what can be done.** -/
def Heeds (s : IpcState P) : IpcStep P → Prop
  | .semop id sops proc => HeedsSemop s id sops proc
  | .semSetval id semnum arg proc => HeedsSetval s id semnum arg proc
  | .snd id m _ proc alloc => HeedsSnd s id m proc alloc
  | .rcv id args proc => HeedsRcv s id args proc
  | .msgSet id buf proc => HeedsSet s id buf proc
  | .again n alloc header bytes =>
    match s.woken[n]? with
    | none => True
    | some (.semop id sops proc) => HeedsSemop (s.resume n) id sops proc
    | some (.snd id m _ proc) => HeedsSnd (s.resume n) id m proc alloc
    | some (.rcv id args proc) => HeedsRcv (s.resume n) id (args.with header bytes) proc
  | _ => True

end Zigk.Ipc
