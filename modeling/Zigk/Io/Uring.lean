/-
  Subject:   IO_URING (syscall/io_uring/instance.zig, submission.zig, ops.zig, request.zig,
             ring.zig, completion.zig, enter.zig): one instance, its rings and its requests.

  * `SharedMemory`, `Request`, `IoUring` -- what the user can rewrite, a request of the pool, the
    instance with the pool's counter and the history of its SQEs, CQEs and requests;
  * `alloc`, `freeRequest`, `initBounceBuffer`, `finalizeBounceBuffer`, `freeInstance`;
  * `processReadOp` ... `processSqe` -- the operations;
  * `run` -- the next step of the call in progress; `Input`, `step` -- the calls one after another,
    with the user's writes and the completions anywhere between their steps.

  A request is known by its id: a slot of the pool is handed out again only after it was freed, as
  long as no request is freed twice. Left out: the return values, wakeups and blocking (a wait
  drains and looks again), what the operations do outside.
-/
import Mathlib.Algebra.Ring.Nat
import Zigk.Base.SwapRemove
import Zigk.Io.Request

namespace Zigk.Uring

open Function
open Zigk.Io (IoResult IoRequestState)

/-! ## 1. The instance -/

def MAX_RING_ENTRIES : Nat := 256
def MAX_REQUESTS : Nat := 256
def U32_MAX : Nat := 2 ^ 32 - 1
def I32_MAX : Nat := 2 ^ 31 - 1

def IORING_OP_NOP : Nat := 0
def IORING_OP_TIMEOUT : Nat := 11
def IORING_OP_ACCEPT : Nat := 13
def IORING_OP_ASYNC_CANCEL : Nat := 14
def IORING_OP_CONNECT : Nat := 17
def IORING_OP_OPENAT : Nat := 18
def IORING_OP_CLOSE : Nat := 19
def IORING_OP_READ : Nat := 22
def IORING_OP_WRITE : Nat := 23
def IORING_OP_SEND : Nat := 26
def IORING_OP_RECV : Nat := 27

structure Sqe where
  opcode : Nat
  fd : Int := 0
  addr : Nat := 0
  len : Nat := 0
  off : Nat := 0
  user_data : Nat
  deriving DecidableEq

structure Cqe where
  user_data : Nat
  res : Int
  flags : Nat
  deriving DecidableEq

/-- The two rings and the SQE array. -/
structure SharedMemory where
  sq_head : BitVec 32
  sq_tail : BitVec 32
  sq_array : Nat → BitVec 32
  sqes : Nat → Sqe
  cq_head : BitVec 32
  cq_tail : BitVec 32
  cqes : Nat → Cqe

inductive UserWrite where
  | sq_head (v : BitVec 32)
  | sq_tail (v : BitVec 32)
  | sq_array (i : Nat) (v : BitVec 32)
  | sqe (i : Nat) (v : Sqe)
  | cq_head (v : BitVec 32)
  | cq_tail (v : BitVec 32)
  | cqe (i : Nat) (v : Cqe)

def SharedMemory.write (m : SharedMemory) : UserWrite → SharedMemory
  | .sq_head v => { m with sq_head := v }
  | .sq_tail v => { m with sq_tail := v }
  | .sq_array i v => { m with sq_array := update m.sq_array i v }
  | .sqe i v => { m with sqes := update m.sqes i v }
  | .cq_head v => { m with cq_head := v }
  | .cq_tail v => { m with cq_tail := v }
  | .cqe i v => { m with cqes := update m.cqes i v }

inductive IoOpType where
  | noop | socket_accept | socket_connect | socket_read | socket_write | keyboard_read | timer
  deriving DecidableEq, Repr

structure Request where
  op : IoOpType := .noop
  user_data : Nat := 0
  user_buf_ptr : Nat := 0
  user_buf_len : Nat := 0
  /-- `bounce_buf` is set. -/
  bounce_buf : Bool := false
  state : IoRequestState := .idle
  /-- An error is its negative number. -/
  result : IoResult Int := .pending
  /-- The SQE it was made for, by its place among all that were consumed. -/
  sqe : Nat := 0

namespace Request

def setState (q : Request) (state : IoRequestState) : Request := { q with state := state }
def setResult (q : Request) (result : IoResult Int) : Request := { q with result := result }

/-- `complete()`: from a request that waits only. -/
def complete (q : Request) (result : IoResult Int) : Request :=
  if q.state.open then { q with state := .completed, result := result } else q

/-- The `res` of a CQE that is posted with the operation. -/
def immediateRes (q : Request) : Int :=
  match q.result with
  | .success n => min n I32_MAX
  | .err e => e
  | _ => 0

/-- The `res` of a CQE that is posted for a completed request. -/
def completionRes (q : Request) : Int :=
  match q.result with
  | .success n => min n I32_MAX
  | .err e => e
  | .cancelled => -125
  | .pending => 0

end Request

/-- The arguments of `io_uring_enter`. -/
structure Enter where
  to_submit : Nat
  min_complete : Nat := 0
  getevents : Bool := false
  sqes_ptr : Nat := 0
  cqes_ptr : Nat := 0

/-- The head of a loop, where a call goes on after an SQE or a request. -/
inductive Loop where
  | submit (c : Enter) (submitted : Nat) (head tail : BitVec 32)
  | copySqes (c : Enter) (i count : Nat)
  | drain (c : Enter) (i : Nat)

inductive Stage where
  | check | write | advance
  deriving DecidableEq

structure Posting where
  user_data : Nat
  res : Int
  sqe : Nat

/-- Where the call in progress stands. -/
inductive Pc where
  | user
  | loadHead (c : Enter)
  | loadTail (c : Enter) (head : BitVec 32)
  | loop (l : Loop)
  | load (c : Enter) (submitted : Nat) (head tail : BitVec 32) (sqe_idx : Nat)
  /-- SQE number `n` is in the kernel's memory. -/
  | process (sqe : Sqe) (n : Nat) (l : Loop)
  /-- Before `addPendingRequest`. -/
  | queue (r n : Nat) (l : Loop)
  /-- In `addCqe`, and then the request is freed if there is one. -/
  | post (stage : Stage) (p : Posting) (r : Option Nat) (l : Loop)
  | free (r : Nat) (l : Loop)
  | waited (c : Enter)
  | copyStart (c : Enter)
  | copyCqes (i count : Nat)
  /-- The kernel has stopped, with an SQE in hand or without. -/
  | panic (n : Option Nat)

structure IoUring where
  sq_ring_entries : Nat
  mem : SharedMemory
  pending_requests : List Nat
  allocated : Bool
  requests : Nat → Request
  next_id : Nat
  /-- Requests of the pool in use, by this instance and by others. -/
  allocated_count : Nat
  others : Nat
  pc : Pc
  /-- History: the `user_data` of each SQE consumed, the SQE and `user_data` of each CQE written,
      the SQEs whose requests went with the instance, the requests freed, the bounce buffers
      allocated and freed (by their requests), and each index used with the size of its ring. -/
  consumed : List Nat
  posted : List (Nat × Nat)
  abandoned : List Nat
  freed : List Nat
  buffers : List Nat
  buffersFreed : List Nat
  used : List (Nat × Nat)

namespace IoUring

variable (s : IoUring)

def goto (pc : Pc) : IoUring := { s with pc := pc }
def setMem (m : SharedMemory) : IoUring := { s with mem := m }
def setRequest (r : Nat) (q : Request) : IoUring :=
  { s with requests := update s.requests r q }
def setPending (l : List Nat) : IoUring := { s with pending_requests := l }
def use (i size : Nat) : IoUring := { s with used := s.used ++ [(i, size)] }

def cq_ring_entries : Nat := s.sq_ring_entries * 2

/-- `cqReady`: the difference wraps. -/
def cqReady : Nat := (s.mem.cq_tail - s.mem.cq_head).toNat

def cqHasSpace : Bool := s.cqReady < s.cq_ring_entries

/-! ## 2. Requests and buffers -/

def alloc (op : IoOpType) (user_data n : Nat) : Option (Nat × IoUring) :=
  if MAX_REQUESTS ≤ s.allocated_count then none
  else some (s.next_id,
    { s.setRequest s.next_id { op := op, user_data := user_data, sqe := n } with
      next_id := s.next_id + 1
      allocated_count := s.allocated_count + 1 })

/-- The request is as `init` makes it, and its buffer forgotten. -/
def freeRequest (r : Nat) : IoUring :=
  { s.setRequest r {} with
    allocated_count := s.allocated_count - 1
    freed := s.freed ++ [r] }

/-- `initBounceBuffer`, where the user's buffer can be accessed and the heap has room. -/
def initBounceBuffer (r : Nat) (sqe : Sqe) : IoUring :=
  if sqe.len = 0 then
    s.setRequest r { s.requests r with bounce_buf := false, user_buf_ptr := sqe.addr,
                                       user_buf_len := 0 }
  else
    { s.setRequest r { s.requests r with bounce_buf := true, user_buf_ptr := sqe.addr,
                                         user_buf_len := sqe.len } with
      buffers := s.buffers ++ [r] }

/-- The buffer is freed. -/
def dropBounce (r : Nat) : IoUring :=
  if (s.requests r).bounce_buf then
    { s.setRequest r { s.requests r with bounce_buf := false } with
      buffersFreed := s.buffersFreed ++ [r] }
  else s

/-- Whether what was read has to go back to the user. -/
def copiesBack (q : Request) : Bool :=
  q.bounce_buf && (q.op = .socket_read || q.op = .keyboard_read) && q.user_buf_ptr ≠ 0 &&
    match q.result with
    | .success n => 0 < min n q.user_buf_len
    | _ => false

def finalizeBounceBuffer (r : Nat) (access : Bool) : IoUring :=
  if copiesBack (s.requests r) && !access then
    (s.setRequest r ((s.requests r).setResult (.err (-14)))).dropBounce r
  else s.dropBounce r

/-- The instance goes, and each pending request with it. -/
def freeInstance (access : Bool) : IoUring :=
  let t := s.pending_requests.foldl (fun t r => (t.finalizeBounceBuffer r access).freeRequest r) s
  { t with
    pending_requests := []
    allocated := false
    abandoned := s.abandoned ++ s.pending_requests.map fun r => (s.requests r).sqe }

/-! ## 3. The operations -/

/-- What a call meets outside the instance. -/
inductive Call where
  /-- The request waits for its completion. -/
  | waits
  /-- It is over, with the request still `idle`: what `complete()` says is lost. -/
  | completes
  | fails
  deriving DecidableEq

structure Answer where
  /-- The user's memory can be accessed, and the heap has room. -/
  access : Bool := true
  call : Call := .waits
  /-- What the system call behind an operation returns. -/
  res : Int := 0
  /-- `close` of the ring's own last descriptor. -/
  closesRing : Bool := false
  /-- What the user's array of SQEs holds. -/
  sqe : Sqe := ⟨0, 0, 0, 0, 0, 0⟩

/-- A CQE for an SQE, after which request `r` is freed. -/
def reply (sqe : Sqe) (n : Nat) (res : Int) (r : Option Nat) (l : Loop) : IoUring :=
  s.goto (.post .check ⟨sqe.user_data, res, n⟩ r l)

/-- The error of an operation becomes `EINVAL`. -/
def fail (sqe : Sqe) (n : Nat) (l : Loop) : IoUring := s.reply sqe n (-22) none l

variable (a : Answer) (sqe : Sqe) (n : Nat) (l : Loop)

def processReadOp : IoUring :=
  match s.alloc .keyboard_read sqe.user_data n with
  | none => s.fail sqe n l
  | some (r, s) =>
    if sqe.len ≠ 0 ∧ a.access = false then (s.freeRequest r).fail sqe n l
    else
      let s := s.initBounceBuffer r sqe
      match a.call with
      | .waits => (s.setRequest r ((s.requests r).setState .pending)).goto (.queue r n l)
      | _ =>
        let s := s.finalizeBounceBuffer r a.access
        s.reply sqe n (s.requests r).immediateRes (some r) l

/-- A socket operation once its request is there. The call returns `true` for what is over and
    `false` for what waits; it is read the other way. A failure frees the request, and so does the
    `errdefer` behind it. -/
def socketCall (r : Nat) : IoUring :=
  match a.call with
  | .fails => (((s.dropBounce r).freeRequest r).freeRequest r).fail sqe n l
  | .completes => s.goto (.queue r n l)
  | .waits =>
    let s := s.finalizeBounceBuffer r a.access
    s.reply sqe n (s.requests r).immediateRes (some r) l

def processAcceptOp : IoUring :=
  if sqe.fd < 0 then s.goto (.panic (some n))
  else match s.alloc .socket_accept sqe.user_data n with
    | none => s.fail sqe n l
    | some (r, s) => s.socketCall a sqe n l r

def processConnectOp : IoUring :=
  if sqe.fd < 0 then s.goto (.panic (some n))
  else match s.alloc .socket_connect sqe.user_data n with
    | none => s.fail sqe n l
    | some (r, s) =>
      if a.access = false then ((s.freeRequest r).freeRequest r).fail sqe n l
      else s.socketCall a sqe n l r

/-- `processRecvOp` and `processSendOp`. -/
def transferOp (op : IoOpType) : IoUring :=
  if sqe.fd < 0 then s.goto (.panic (some n))
  else match s.alloc op sqe.user_data n with
    | none => s.fail sqe n l
    | some (r, s) =>
      if sqe.len ≠ 0 ∧ a.access = false then (s.freeRequest r).fail sqe n l
      else (s.initBounceBuffer r sqe).socketCall a sqe n l r

def processRecvOp : IoUring := s.transferOp a sqe n l .socket_read
def processSendOp : IoUring := s.transferOp a sqe n l .socket_write

def processTimeoutOp : IoUring :=
  match s.alloc .timer sqe.user_data n with
  | none => s.fail sqe n l
  | some (r, s) =>
    if sqe.addr = 0 then s.reply sqe n 0 (some r) l
    else if a.access = false then ((s.freeRequest r).freeRequest r).fail sqe n l
    else (s.setRequest r ((s.requests r).setState .pending)).goto (.queue r n l)

def processWriteOp : IoUring :=
  if sqe.fd < 0 then s.reply sqe n (-9) none l
  else if a.access = false then s.reply sqe n (-14) none l
  else s.reply sqe n a.res none l

def processOpenatOp : IoUring := s.reply sqe n a.res none l

/-- Where the ring itself is closed, the next access to it is to address 0. -/
def processCloseOp : IoUring :=
  if sqe.fd < 0 then s.reply sqe n (-9) none l
  else if a.closesRing then (s.freeInstance a.access).goto (.panic (some n))
  else s.reply sqe n a.res none l

/-- The first pending request of the `user_data` that can be cancelled. -/
def processAsyncCancelOp : IoUring :=
  match s.pending_requests.find? fun r =>
      (s.requests r).user_data = sqe.addr && (s.requests r).state = .pending with
  | none => s.reply sqe n (-2) none l
  | some r =>
    (s.setRequest r (((s.requests r).setState .cancelled).setResult .cancelled)).reply sqe n 0
      none l

def processSqe : IoUring :=
  if sqe.opcode = IORING_OP_NOP then s.reply sqe n 0 none l
  else if sqe.opcode = IORING_OP_READ then s.processReadOp a sqe n l
  else if sqe.opcode = IORING_OP_WRITE then s.processWriteOp a sqe n l
  else if sqe.opcode = IORING_OP_ACCEPT then s.processAcceptOp a sqe n l
  else if sqe.opcode = IORING_OP_CONNECT then s.processConnectOp a sqe n l
  else if sqe.opcode = IORING_OP_RECV then s.processRecvOp a sqe n l
  else if sqe.opcode = IORING_OP_SEND then s.processSendOp a sqe n l
  else if sqe.opcode = IORING_OP_TIMEOUT then s.processTimeoutOp a sqe n l
  else if sqe.opcode = IORING_OP_OPENAT then s.processOpenatOp a sqe n l
  else if sqe.opcode = IORING_OP_CLOSE then s.processCloseOp a sqe n l
  else if sqe.opcode = IORING_OP_ASYNC_CANCEL then s.processAsyncCancelOp sqe n l
  else s.fail sqe n l

/-- `addPendingRequest`; with a full list the request is freed twice, and the buffer of a
    `socket_write` not at all. -/
def addPendingRequest (r : Nat) : IoUring :=
  if MAX_RING_ENTRIES ≤ s.pending_requests.length then
    let q := s.requests r
    let t := if q.op = .socket_write then s else s.finalizeBounceBuffer r a.access
    ((t.freeRequest r).freeRequest r).goto (.post .check ⟨q.user_data, -22, n⟩ none l)
  else (s.setPending (s.pending_requests ++ [r])).goto (.loop l)

/-! ## 4. A call, step by step -/

/-- SQE number `consumed.length` is taken. -/
def consume : IoUring :=
  { s with
    consumed := s.consumed ++ [sqe.user_data]
    pc := .process sqe s.consumed.length l }

/-- After the SQEs: the wait, or the return. -/
def submitted (c : Enter) : IoUring :=
  if c.getevents then
    if U32_MAX < c.min_complete then s.goto (.panic none) else s.goto (.loop (.drain c 0))
  else s.goto .user

def runLoop : IoUring :=
  match l with
  | .submit c submitted head tail =>
    if submitted < c.to_submit ∧ head ≠ tail then
      let idx := head.toNat &&& (s.sq_ring_entries - 1)
      (s.use idx s.sq_ring_entries).goto
        (.load c submitted head tail ((s.mem.sq_array idx).toNat &&& (s.sq_ring_entries - 1)))
    else (s.setMem { s.mem with sq_head := head }).submitted c
  | .copySqes c i count =>
    if i < count then
      if a.access = false then s.goto .user else s.consume a.sqe (.copySqes c (i + 1) count)
    else s.submitted c
  | .drain c i =>
    match s.pending_requests[i]? with
    | none => s.goto (.waited c)
    | some r =>
      if (s.requests r).state.done then
        -- nobody else looks at the list: the request leaves it here
        let t := (s.finalizeBounceBuffer r a.access).setPending (swapRemove s.pending_requests i)
        let q := t.requests r
        t.goto (.post .check ⟨q.user_data, q.completionRes, q.sqe⟩ (some r) (.drain c i))
      else s.goto (.loop (.drain c (i + 1)))

/-- Where a post leads. -/
def afterPost (r : Option Nat) (l : Loop) : Pc :=
  match r with
  | none => .loop l
  | some r => .free r l

def run : IoUring :=
  match s.pc with
  | .user | .panic _ => s
  | .loadHead c => s.goto (.loadTail c s.mem.sq_head)
  | .loadTail c head => s.goto (.loop (.submit c 0 head s.mem.sq_tail))
  | .loop l => s.runLoop a l
  | .load c submitted head tail sqe_idx =>
    let l := .submit c (submitted + 1) (head + 1) tail
    if s.sq_ring_entries ≤ sqe_idx then
      let t := s.consume ⟨0, 0, 0, 0, 0, 0⟩ l
      t.fail ⟨0, 0, 0, 0, 0, 0⟩ s.consumed.length l
    else (s.use sqe_idx s.sq_ring_entries).consume (s.mem.sqes sqe_idx) l
  | .process sqe n l => s.processSqe a sqe n l
  | .queue r n l => s.addPendingRequest a n l r
  | .post .check p r l =>
    if s.cqHasSpace then s.goto (.post .write p r l) else s.goto (afterPost r l)
  | .post .write p r l =>
    let idx := s.mem.cq_tail.toNat &&& (s.cq_ring_entries - 1)
    let m := { s.mem with cqes := update s.mem.cqes idx ⟨p.user_data, p.res, 0⟩ }
    let t := (s.use idx s.cq_ring_entries).setMem m
    { t with posted := s.posted ++ [(p.sqe, p.user_data)], pc := .post .advance p r l }
  | .post .advance _ r l =>
    (s.setMem { s.mem with cq_tail := s.mem.cq_tail + 1 }).goto (afterPost r l)
  | .free r l => (s.freeRequest r).goto (.loop l)
  | .waited c =>
    if s.cqReady < c.min_complete then s.goto (.loop (.drain c 0))
    else if c.cqes_ptr ≠ 0 ∧ 0 < c.min_complete then s.goto (.copyStart c)
    else s.goto .user
  | .copyStart c =>
    let copy_count := min s.cqReady c.min_complete
    if copy_count = 0 ∨ a.access = false then s.goto .user else s.goto (.copyCqes 0 copy_count)
  | .copyCqes i count =>
    if i < count then
      let t := s.use (s.mem.cq_head.toNat &&& (s.cq_ring_entries - 1)) s.cq_ring_entries
      if a.access = false then t.goto .user
      else (t.setMem { s.mem with cq_head := s.mem.cq_head + 1 }).goto (.copyCqes (i + 1) count)
    else s.goto .user

/-- `sys_io_uring_enter`, up to its first access to the rings. -/
def enter (c : Enter) : IoUring :=
  if c.to_submit = 0 then s.submitted c
  else if c.sqes_ptr = 0 then s.goto (.loadHead c)
  else if a.access = false then s
  else s.goto (.loop (.copySqes c 0 (min c.to_submit s.sq_ring_entries)))

end IoUring

/-! ## 5. Runs -/

inductive Input where
  | enter (c : Enter) (a : IoUring.Answer)
  | close (access : Bool)
  | run (a : IoUring.Answer)
  | user (w : UserWrite)
  /-- From another context: a request is taken up, or over. -/
  | begin (r : Nat)
  | complete (r : Nat) (result : IoResult Int)
  /-- Others take a request from the pool, or give one back. -/
  | poolTake
  | poolGive

namespace IoUring

/-- No call is in progress and the descriptor is open. -/
def ready (s : IoUring) : Bool :=
  match s.pc with
  | .user => s.allocated
  | _ => false

def step (s : IoUring) : Input → IoUring
  | .enter c a => if s.ready then s.enter a c else s
  | .close access => if s.ready then s.freeInstance access else s
  | .run a => s.run a
  | .user w => s.setMem (s.mem.write w)
  | .begin r =>
    if (s.requests r).state = .pending then
      s.setRequest r ((s.requests r).setState .in_progress)
    else s
  | .complete r result => s.setRequest r ((s.requests r).complete result)
  | .poolTake =>
    if MAX_REQUESTS ≤ s.allocated_count then s
    else { s with allocated_count := s.allocated_count + 1, others := s.others + 1 }
  | .poolGive =>
    if s.others = 0 then s
    else { s with allocated_count := s.allocated_count - 1, others := s.others - 1 }

end IoUring

end Zigk.Uring
