/-
  Subject:   MESSAGE QUEUES: the linked lists of `msgsnd` and `msgrcv`, and sequences of messages.

  * `msgget`, `msgsnd`, `msgrcv`, `msgSet`, `msgRmid` -- msg.zig; a message is an object of the
    heap, a queue its first and its last message; a call is one pass through the lock;
  * `specCall` -- what a message queue is for: `msgsnd` appends, `msgrcv` takes out the message
    its selector names, a call that fails leaves the sequence.
-/
import Mathlib.Data.List.AList
import Zigk.Base.Forward
import Zigk.Base.Machine
import Zigk.Ipc.Perm

namespace Zigk.Ipc

open Function

/-! ## 1. msg.zig -/

def MSGMNI : Nat := 128
def MSGMAX : Nat := 8192
def MSGMNB : Nat := 16384

def MSG_NOERROR : BitVec 32 := 0o10000#32

/-- `IPC_NOWAIT`, in the flags of these calls. -/
def MSG_NOWAIT : BitVec 32 := 0o4000#32

/-- A message as its sender means it. -/
structure Message where
  mtype : BitVec 64
  data : List UInt8
  deriving DecidableEq, Repr

abbrev Message.size (m : Message) : Nat := m.data.length

structure KernelMsg (P : Type) where
  mtype : BitVec 64
  data : List UInt8
  next : Option P

def KernelMsg.message {P : Type} (msg : KernelMsg P) : Message := ⟨msg.mtype, msg.data⟩

structure MsgQueue (P : Type) where
  id : BitVec 32 := 0
  key : BitVec 32 := 0
  perm : IpcPerm := ⟨0, 0, 0, 0, 0, 0, 0⟩
  head : Option P := none
  tail : Option P := none
  qnum : Nat := 0
  qbytes : Nat := 0
  qbytes_max : Nat := MSGMNB
  lspid : BitVec 32 := 0
  lrpid : BitVec 32 := 0
  in_use : Bool := false

/-- The queues, and the messages on the heap under their addresses. -/
structure MsgTable (P : Type) where
  queues : Fin MSGMNI → MsgQueue P := fun _ => {}
  msg_seq : BitVec 16 := 0
  heap : AList fun _ : P => KernelMsg P := ∅

/-- One pass of a call: the threads it wakes wait for the other end of the queue. -/
structure MsgResult (P α : Type) where
  table : MsgTable P
  attempt : Attempt α
  wake : Wake := .nobody

variable {P : Type}

def MsgTable.setQueue (t : MsgTable P) (i : Fin MSGMNI) (q : MsgQueue P) : MsgTable P :=
  { t with queues := update t.queues i q }

@[simp] theorem MsgTable.setQueue_self (t : MsgTable P) (i : Fin MSGMNI) (q : MsgQueue P) :
    (t.setQueue i q).queues i = q := update_self _ _ _

theorem MsgTable.setQueue_ne (t : MsgTable P) {i j : Fin MSGMNI} (h : j ≠ i) (q : MsgQueue P) :
    (t.setQueue i q).queues j = t.queues j := update_of_ne h _ _

def MsgTable.findKey (t : MsgTable P) (key : BitVec 32) : Option (Fin MSGMNI) :=
  if key = IPC_PRIVATE then none
  else (List.finRange MSGMNI).find? fun i => (t.queues i).in_use && (t.queues i).key = key

def MsgTable.findFree (t : MsgTable P) : Option (Fin MSGMNI) :=
  (List.finRange MSGMNI).find? fun i => !(t.queues i).in_use

def msgget (t : MsgTable P) (key flags : BitVec 32) (proc : Cred) :
    MsgTable P × Except IpcError (BitVec 32) :=
  match t.findKey key with
  | some i =>
    let q := t.queues i
    if flags &&& IPC_EXCL ≠ 0 ∧ flags &&& IPC_CREAT ≠ 0 then (t, .error .EEXIST)
    else if checkAccess q.perm proc .read then (t, .ok q.id)
    else (t, .error .EACCES)
  | none =>
    if flags &&& IPC_CREAT = 0 ∧ key ≠ IPC_PRIVATE then (t, .error .ENOENT)
    else
      match t.findFree with
      | none => (t, .error .ENOSPC)
      | some idx =>
        let seq := t.msg_seq + 1
        let id := makeId idx.val seq
        let q : MsgQueue P := {
          id := id
          key := key
          perm := ⟨key, proc.euid, proc.egid, proc.euid, proc.egid,
            (flags &&& 0o777#32).setWidth 16, seq⟩
          in_use := true }
        ({ t.setQueue idx q with msg_seq := seq }, .ok id)

/-- The queue of an id that is not stale; `gone` is the error for one that is. -/
def MsgTable.lookup (t : MsgTable P) (id : BitVec 32) (gone : IpcError) :
    Except IpcError (Fin MSGMNI) :=
  if h : idToIndex id < MSGMNI then
    let q := t.queues ⟨idToIndex id, h⟩
    if !q.in_use || q.perm.seq != idToSeq id then .error gone else .ok ⟨idToIndex id, h⟩
  else .error .EINVAL

/-- The queue that a pass of `msgsnd` or `msgrcv` works on. -/
def MsgTable.enter (t : MsgTable P) (id : BitVec 32) (proc : Cred) (mode : AccessMode) :
    Except IpcError (Fin MSGMNI) :=
  match t.lookup id .EIDRM with
  | .error e => .error e
  | .ok i => if checkAccess (t.queues i).perm proc mode then .ok i else .error .EACCES

/-! ### Links -/

variable [DecidableEq P]

/-- A pointer is followed; without a message behind it the model stops. -/
def MsgTable.deref (t : MsgTable P) (p : P) : Except Trap (KernelMsg P) :=
  match t.heap.lookup p with
  | some msg => .ok msg
  | none => .error .nullPointer

/-- `msg.next = next` -/
def MsgTable.setNext (t : MsgTable P) (p : P) (next : Option P) : Except Trap (MsgTable P) := do
  let msg ← t.deref p
  return { t with heap := t.heap.insert p { msg with next := next } }

/-- What comes after `prev`, or at the head of the queue, is now `next`. -/
def MsgTable.link (t : MsgTable P) (i : Fin MSGMNI) (prev next : Option P) :
    Except Trap (MsgTable P) :=
  match prev with
  | some b => t.setNext b next
  | none => .ok (t.setQueue i { t.queues i with head := next })

/-- A new message at the tail, with the counters. -/
def MsgTable.enqueue (t : MsgTable P) (i : Fin MSGMNI) (p : P) (m : Message) (pid : BitVec 32) :
    Except Trap (MsgTable P) := do
  let t := { t with heap := t.heap.insert p ⟨m.mtype, m.data, none⟩ }
  let t ← t.link i (t.queues i).tail (some p)
  let q := t.queues i
  return t.setQueue i { q with
    tail := some p
    qnum := q.qnum + 1
    qbytes := q.qbytes + m.size
    lspid := pid }

/-- A message leaves the list; `prev` is the one before it. -/
def MsgTable.unlink (t : MsgTable P) (i : Fin MSGMNI) (prev : Option P) (p : P)
    (msg : KernelMsg P) : Except Trap (MsgTable P) := do
  let t ← t.link i prev msg.next
  let q := t.queues i
  return t.setQueue i { q with tail := if q.tail = some p then prev else q.tail }

/-- "Put message back at front". -/
def MsgTable.putBack (t : MsgTable P) (i : Fin MSGMNI) (p : P) : Except Trap (MsgTable P) := do
  let t ← t.setNext p (t.queues i).head
  let q := t.queues i
  return t.setQueue i { q with head := some p, tail := q.tail.or (some p) }

/-! ### Sending -/

/-- The arguments of a sender, with what is read from its memory: `none` where that fails. -/
structure SndArgs where
  msgsz : Nat
  msgflg : BitVec 32
  header : Option (BitVec 64)
  bytes : Option (Nat → UInt8)

/-- A call gives up after its data has been allocated. The data is freed by hand and once more by
    the `errdefer`, and a double free stops a debug build. -/
def giveUp {α : Type} (debug : Bool) (size : Nat) (e : IpcError) : Attempt α :=
  if debug ∧ 0 < size then .trap (.panic "Heap: Double-free detected - possible exploit attempt" [])
  else .error e

/-- The checks of `msgsnd` up to the allocation of its data: the type of the message. -/
def sndHeader (args : SndArgs) (room : Bool) : Except IpcError (BitVec 64) :=
  if args.msgsz > MSGMAX then .error .EINVAL
  else
    match args.header with
    | none => .error .EFAULT
    | some mtype =>
      if mtype.toInt ≤ 0 then .error .EINVAL
      else if room then .ok mtype
      else .error .ENOMEM

/-- The address of a new message. The heap gives no address of a message it still holds. -/
def MsgTable.create (t : MsgTable P) (alloc : Option P) : Option P :=
  alloc.filter fun p => p ∉ t.heap

/-- One pass of the loop of `msgsnd`. -/
def sndAttempt (debug : Bool) (t : MsgTable P) (id : BitVec 32) (m : Message) (msgflg : BitVec 32)
    (proc : Cred) (alloc : Option P) : MsgResult P Unit :=
  match t.enter id proc .write with
  | .error e => ⟨t, giveUp debug m.size e, .nobody⟩
  | .ok i =>
    let q := t.queues i
    if q.qbytes + m.size > q.qbytes_max then
      ⟨t, if msgflg &&& MSG_NOWAIT ≠ 0 then giveUp debug m.size .EAGAIN else .blocked, .nobody⟩
    else
      match t.create alloc with
      | none => ⟨t, giveUp debug m.size .ENOMEM, .nobody⟩
      | some p =>
        match t.enqueue i p m proc.pid with
        | .error trap => ⟨t, .trap trap, .nobody⟩
        | .ok t' => ⟨t', .done (), .first⟩

/-- `msgsnd` up to the end of the first pass; `room` and `alloc` are the answers of the heap. -/
def msgsnd (debug : Bool) (t : MsgTable P) (id : BitVec 32) (args : SndArgs) (proc : Cred)
    (room : Bool) (alloc : Option P) : MsgResult P Unit :=
  match sndHeader args room with
  | .error e => ⟨t, .error e, .nobody⟩
  | .ok mtype =>
    match args.bytes with
    | none => ⟨t, giveUp debug args.msgsz .EFAULT, .nobody⟩
    | some byte =>
      sndAttempt debug t id ⟨mtype, (List.range args.msgsz).map byte⟩ args.msgflg proc alloc

/-! ### Receiving -/

/-- The arguments of a receiver: which of the two writes to its memory work. -/
structure RcvArgs where
  msgsz : Nat
  msgtyp : BitVec 64
  msgflg : BitVec 32
  header : Bool := true
  bytes : Bool := true

/-- What a receiver gets. -/
structure Delivery where
  mtype : BitVec 64
  data : List UInt8
  deriving DecidableEq, Repr

/-- The selector on one message; the negation is one of `i64`. -/
def matchesType (msgtyp mtype : BitVec 64) : Except Trap Bool :=
  if msgtyp = 0 then .ok true
  else if msgtyp.toInt > 0 then .ok (mtype = msgtyp)
  else if msgtyp = BitVec.intMin 64 then .error .integerOverflow
  else .ok (mtype.toInt ≤ -msgtyp.toInt)

/-- The search along the list: the message before, the address and the message. -/
def search (t : MsgTable P) (msgtyp : BitVec 64) :
    Nat → Option P → Option P → Except Trap (Option (Option P × P × KernelMsg P))
  | _, _, none => .ok none
  | 0, _, some _ => .error .fuel
  | n + 1, prev, some p => do
      let msg ← t.deref p
      let found ← matchesType msgtyp msg.mtype
      if found then .ok (some (prev, p, msg)) else search t msgtyp n (some p) msg.next

/-- Why a message that was found cannot be handed over. -/
def refusal (args : RcvArgs) (size : Nat) : Option IpcError :=
  if size > args.msgsz ∧ args.msgflg &&& MSG_NOERROR = 0 then some .E2BIG
  else if !args.header then some .EFAULT
  else if !args.bytes then some .EFAULT
  else none

/-- The counters and the heap after a message has been handed over. -/
def MsgTable.discard (t : MsgTable P) (i : Fin MSGMNI) (p : P) (msg : KernelMsg P)
    (pid : BitVec 32) : Except Trap (MsgTable P) := do
  let q := t.queues i
  let qnum ← Trap.sub q.qnum 1
  let qbytes ← Trap.sub q.qbytes msg.data.length
  let t := t.setQueue i { q with qnum := qnum, qbytes := qbytes, lrpid := pid }
  return { t with heap := t.heap.erase p }

/-- The message found is taken out, and handed over or put back. -/
def deliver (t : MsgTable P) (i : Fin MSGMNI) (prev : Option P) (p : P) (msg : KernelMsg P)
    (args : RcvArgs) (pid : BitVec 32) : Except Trap (MsgResult P Delivery) := do
  let t ← t.unlink i prev p msg
  match refusal args msg.data.length with
  | some e => do
      let t ← t.putBack i p
      return ⟨t, .error e, .nobody⟩
  | none => do
      let t ← t.discard i p msg pid
      return ⟨t, .done ⟨msg.mtype, msg.data.take args.msgsz⟩, .first⟩

/-- One pass of the loop of `msgrcv`; no list is longer than the heap. -/
def msgrcv (t : MsgTable P) (id : BitVec 32) (args : RcvArgs) (proc : Cred) :
    MsgResult P Delivery :=
  match t.enter id proc .read with
  | .error e => ⟨t, .error e, .nobody⟩
  | .ok i =>
    match search t args.msgtyp t.heap.entries.length none (t.queues i).head with
    | .error trap => ⟨t, .trap trap, .nobody⟩
    | .ok none =>
      ⟨t, if args.msgflg &&& MSG_NOWAIT ≠ 0 then .error .ENOMSG else .blocked, .nobody⟩
    | .ok (some (prev, p, msg)) =>
      match deliver t i prev p msg args proc.pid with
      | .error trap => ⟨t, .trap trap, .nobody⟩
      | .ok r => r

/-! ### Control -/

/-- The buffer of `IPC_SET`: owner, group, mode and limit. -/
structure MsgSetBuf where
  uid : BitVec 32
  gid : BitVec 32
  mode : BitVec 16
  qbytes : Nat

/-- The queue that a command for owners works on. -/
def MsgTable.owned (t : MsgTable P) (id : BitVec 32) (proc : Cred) :
    Except IpcError (Fin MSGMNI) :=
  match t.lookup id .EINVAL with
  | .error e => .error e
  | .ok i => if isOwnerOrCreator (t.queues i).perm proc.euid then .ok i else .error .EPERM

/-- `msgctl` with `IPC_SET`. -/
def msgSet (t : MsgTable P) (id : BitVec 32) (buf : Option MsgSetBuf) (proc : Cred) :
    MsgResult P Unit :=
  match t.owned id proc with
  | .error e => ⟨t, .error e, .nobody⟩
  | .ok i =>
    match buf with
    | none => ⟨t, .error .EFAULT, .nobody⟩
    | some ds =>
      let q := t.queues i
      let perm := { q.perm with uid := ds.uid, gid := ds.gid, mode := ds.mode &&& 0o777#16 }
      ⟨t.setQueue i { q with perm := perm, qbytes_max := ds.qbytes }, .done (), .nobody⟩

/-- "Free all queued messages". -/
def freeAll : Nat → AList (fun _ : P => KernelMsg P) → Option P →
    Except Trap (AList fun _ : P => KernelMsg P)
  | _, heap, none => .ok heap
  | 0, _, some _ => .error .fuel
  | n + 1, heap, some p =>
    match heap.lookup p with
    | none => .error .nullPointer
    | some msg => freeAll n (heap.erase p) msg.next

/-- `msgctl` with `IPC_RMID`; both ends of the queue are woken. -/
def msgRmid (t : MsgTable P) (id : BitVec 32) (proc : Cred) : MsgResult P Unit :=
  match t.owned id proc with
  | .error e => ⟨t, .error e, .nobody⟩
  | .ok i =>
    let q := t.queues i
    match freeAll t.heap.entries.length t.heap q.head with
    | .error trap => ⟨t, .trap trap, .nobody⟩
    | .ok heap =>
      ⟨{ t.setQueue i { q with in_use := false, head := none, tail := none } with heap := heap },
        .done (), .everybody⟩

/-! ## 2. Calls -/

inductive MsgCall (P : Type) where
  | get (key flags : BitVec 32) (proc : Cred)
  | snd (id : BitVec 32) (args : SndArgs) (proc : Cred) (room : Bool) (alloc : Option P)
  | rcv (id : BitVec 32) (args : RcvArgs) (proc : Cred)
  | set (id : BitVec 32) (buf : Option MsgSetBuf) (proc : Cred)
  | rmid (id : BitVec 32) (proc : Cred)

inductive MsgReply where
  | id (r : Except IpcError (BitVec 32))
  | over (r : Attempt Unit)
  | message (r : Attempt Delivery)

/-- A call: the table after it and the answer. -/
def MsgTable.call (debug : Bool) (t : MsgTable P) : MsgCall P → MsgTable P × MsgReply
  | .get key flags proc => ((msgget t key flags proc).1, .id (msgget t key flags proc).2)
  | .snd id args proc room alloc =>
    let r := msgsnd debug t id args proc room alloc
    (r.table, .over r.attempt)
  | .rcv id args proc => ((msgrcv t id args proc).table, .message (msgrcv t id args proc).attempt)
  | .set id buf proc => ((msgSet t id buf proc).table, .over (msgSet t id buf proc).attempt)
  | .rmid id proc => ((msgRmid t id proc).table, .over (msgRmid t id proc).attempt)

/-- The queues under any calls; a stop of the kernel leaves them as they are. -/
def msgMachine (P : Type) [DecidableEq P] (debug : Bool) : Machine (MsgTable P) (MsgCall P) where
  start t := t = {}
  step t c := (t.call debug c).1

/-! ## 3. Sequences of messages -/

/-- The sequence in each queue. -/
abbrev Sequences := Fin MSGMNI → List Message

def totalSize (ms : List Message) : Nat := (ms.map Message.size).sum

/-- **The message a selector names**: any, one of a type, one of the lowest type up to a bound. -/
def Names (msgtyp : BitVec 64) (ms : List Message) (m : Message) : Bool :=
  if msgtyp = 0 then true
  else if msgtyp.toInt > 0 then m.mtype = msgtyp
  else m.mtype.toInt ≤ -msgtyp.toInt ∧
    ∀ m' ∈ ms, m'.mtype.toInt ≤ -msgtyp.toInt → m.mtype.toInt ≤ m'.mtype.toInt

/-- **A message is received**: the first one the selector names leaves the sequence; a call that
    fails or waits leaves the sequence as it is. -/
def specRcv (args : RcvArgs) (ms : List Message) : Attempt Delivery × List Message :=
  match ms.find? (Names args.msgtyp ms) with
  | none => (if args.msgflg &&& MSG_NOWAIT ≠ 0 then .error .ENOMSG else .blocked, ms)
  | some m =>
    match refusal args m.size with
    | some e => (.error e, ms)
    | none => (.done ⟨m.mtype, m.data.take args.msgsz⟩, ms.eraseP (Names args.msgtyp ms))

/-- **A message is sent**: it is appended if it fits and the heap has a `place` for it. -/
def specSnd (limit : Nat) (msgflg : BitVec 32) (place : Bool) (m : Message) (ms : List Message) :
    Attempt Unit × List Message :=
  if totalSize ms + m.size > limit then
    (if msgflg &&& MSG_NOWAIT ≠ 0 then .error .EAGAIN else .blocked, ms)
  else if place then (.done (), ms ++ [m])
  else (.error .ENOMEM, ms)

/-- A sender whose data has been allocated. -/
def specSender (t : MsgTable P) (Q : Sequences) (id : BitVec 32) (args : SndArgs) (proc : Cred)
    (alloc : Option P) (mtype : BitVec 64) : Sequences × Attempt Unit :=
  match args.bytes with
  | none => (Q, .error .EFAULT)
  | some byte =>
    match t.enter id proc .write with
    | .error e => (Q, .error e)
    | .ok i =>
      let m : Message := ⟨mtype, (List.range args.msgsz).map byte⟩
      let r := specSnd (t.queues i).qbytes_max args.msgflg (t.create alloc).isSome m (Q i)
      (update Q i r.2, r.1)

/-- Every call on sequences. The table is asked for the ids, the permissions and the limits. -/
def specCall (t : MsgTable P) (Q : Sequences) : MsgCall P → Sequences × MsgReply
  | .get key flags proc => (Q, .id (msgget t key flags proc).2)
  | .snd id args proc room alloc =>
    match sndHeader args room with
    | .error e => (Q, .over (.error e))
    | .ok mtype =>
      let r := specSender t Q id args proc alloc mtype
      (r.1, .over r.2)
  | .rcv id args proc =>
    match t.enter id proc .read with
    | .error e => (Q, .message (.error e))
    | .ok i =>
      let r := specRcv args (Q i)
      (update Q i r.2, .message r.1)
  | .set id buf proc => (Q, .over (msgSet t id buf proc).attempt)
  | .rmid id proc =>
    match t.owned id proc with
    | .error e => (Q, .over (.error e))
    | .ok i => (update Q i [], .over (.done ()))

end Zigk.Ipc
