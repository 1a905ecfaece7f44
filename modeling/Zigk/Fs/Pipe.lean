/-
  Subject:   PIPES (kernel/fs/pipe.zig): one pipe, its ring, its sleepers and its asynchronous
             requests.

  * `Pipe` -- the ring, the two ends, the slots of the sleepers and of the requests, the threads
    inside of a call, and the history of the bytes;
  * `advance`, `put` -- the two copies of the ring; `serveRead`, `serveWrite` -- what a call does
    for the request of the other side;
  * `readSection`, `writeSection`, `readAsync`, `writeAsync`, `readFromPipeBuffer`,
    `writeToPipeBuffer`, `peekPipeBuffer`, `closeRead`, `closeWrite` -- what is done under the lock;
  * `pipeStep` -- the calls of all threads, from one section to the next, and what the scheduler and
    the owners of requests do between them.

  Between the release of the lock and the end of `block()` a thread has the interrupts off: it is
  not preempted. Left out: descriptors and handles (a wrong end is refused before the lock), SIGPIPE,
  which the source does not send, and `poll`.
-/
import Zigk.Base.Circular
import Zigk.Io.Request
import Zigk.Proc.Park

namespace Zigk.Fs

open Function
open Sched Io

def PIPE_BUF_SIZE : Nat := 4096

inductive PipeError where
  | EPIPE | EAGAIN | ENOMEM
  deriving DecidableEq, Repr

/-- The parts of an `IoRequest` that a pipe uses. -/
structure AsyncRequest where
  state : IoRequestState := .idle
  result : IoResult PipeError := .pending
  /-- The bounce buffer: `buf_len` is its length. -/
  buf : List UInt8 := []

/-- Where a thread stands in `pipeRead` or `pipeWrite`. -/
inductive PipeCall where
  /-- At the head of the loop. -/
  | read (len : Nat)
  /-- Before the first look at the readers. -/
  | writeCheck (buf : List UInt8)
  | write (buf : List UInt8) (written : Nat)
  /-- Waiting: before the look at the flag, before `block()`, or inside. -/
  | readWait (len : Nat) (w : WaitStage)
  | writeWait (buf : List UInt8) (written : Nat) (w : WaitStage)
  deriving DecidableEq

structure Pipe (T R : Type) where
  buffer : Nat → UInt8
  read_pos : Nat := 0
  write_pos : Nat := 0
  data_len : Nat := 0
  readers : Nat := 1
  writers : Nat := 1
  blocked_readers : Option T := none
  blocked_writers : Option T := none
  reader_woken : Bool := false
  writer_woken : Bool := false
  pending_read : Option R := none
  pending_write : Option R := none
  parks : T → Park := fun _ => {}
  calls : T → Option PipeCall := fun _ => none
  requests : R → AsyncRequest := fun _ => {}
  /-- History: the bytes taken from writers and given to readers, what the write in progress has
      put in, and of each call and request the bytes that it moved with what was reported of it. -/
  accepted : List UInt8 := []
  delivered : List UInt8 := []
  moved : T → List UInt8 := fun _ => []
  reports : List (List UInt8 × IoResult PipeError) := []

namespace Pipe

variable {T R : Type} (s : Pipe T R)

/-! ## 1. The ring -/

def space : Nat := PIPE_BUF_SIZE - s.data_len

/-- The next `n` bytes, copied out. -/
def copyOut (n : Nat) : List UInt8 := Circular.load PIPE_BUF_SIZE s.buffer s.read_pos n

/-- They are taken. -/
def advance (n : Nat) : Pipe T R :=
  { s with
    read_pos := (s.read_pos + n) % PIPE_BUF_SIZE
    data_len := s.data_len - n
    delivered := s.delivered ++ s.copyOut n }

def put (data : List UInt8) : Pipe T R :=
  { s with
    buffer := Circular.store PIPE_BUF_SIZE s.buffer s.write_pos data
    write_pos := (s.write_pos + data.length) % PIPE_BUF_SIZE
    data_len := s.data_len + data.length
    accepted := s.accepted ++ data }

def report (moved : List UInt8) (result : IoResult PipeError) : Pipe T R :=
  { s with reports := s.reports ++ [(moved, result)] }

/-! ## 2. Sleepers and requests -/

section Threads

variable [DecidableEq T]

def setCall (t : T) (c : Option PipeCall) : Pipe T R :=
  { s with calls := update s.calls t c }

def setPark (t : T) (p : Park) : Pipe T R := { s with parks := update s.parks t p }

def setMoved (t : T) (moved : List UInt8) : Pipe T R :=
  { s with moved := update s.moved t moved }

/-- `sched.unblock`. -/
def unblock (t : T) : Pipe T R := s.setPark t (s.parks t).unblock

def wakeReader : Pipe T R :=
  match s.blocked_readers with
  | some t => { s with blocked_readers := none, reader_woken := true }.unblock t
  | none => s

def wakeWriter : Pipe T R :=
  match s.blocked_writers with
  | some t => { s with blocked_writers := none, writer_woken := true }.unblock t
  | none => s

/-- A call returns. -/
def ret (t : T) (moved : List UInt8) (result : IoResult PipeError) : Pipe T R :=
  (s.report moved result).setCall t none

end Threads

section Requests

variable [DecidableEq R]

def setRequest (r : R) (q : AsyncRequest) : Pipe T R :=
  { s with requests := update s.requests r q }

/-- `request.complete`: from a request that waits only. -/
def complete (r : R) (moved : List UInt8) (result : IoResult PipeError) : Pipe T R :=
  if (s.requests r).state.open then
    (s.setRequest r { s.requests r with state := .completed, result := result }).report moved result
  else s

/-- What a read does for the pending write. -/
def serveWrite : Pipe T R :=
  match s.pending_write with
  | some r =>
    if 0 < s.space then
      let data := (s.requests r).buf.take s.space
      (({ s with pending_write := none }).put data).complete r data (.success data.length)
    else s
  | none => s

/-- What a write does for the pending read. -/
def serveRead : Pipe T R :=
  match s.pending_read with
  | some r =>
    let q := s.requests r
    let n := min q.buf.length s.data_len
    let data := s.copyOut n
    ((({ s with pending_read := none }).advance n).setRequest r
      { q with buf := data ++ q.buf.drop n }).complete r data (.success n)
  | none => s

end Requests

variable [DecidableEq T] [DecidableEq R]

/-! ## 3. Under the lock -/

/-- One round of `pipeRead`; `nonblock` is the flag of the descriptor. -/
def readSection (t : T) (len : Nat) (nonblock : Bool) : Pipe T R :=
  if 0 < s.data_len then
    let n := min len s.data_len
    (((s.advance n).serveWrite).wakeWriter).ret t (s.copyOut n) (.success n)
  else if s.writers = 0 then s.ret t [] (.success 0)
  else if nonblock then s.ret t [] (.err .EAGAIN)
  else { s with blocked_readers := some t, reader_woken := false }.setCall t
    (some (.readWait len .check))

/-- `pipeWrite` returns what it has put in so far, or else the error. -/
def stopWrite (t : T) (written : Nat) (e : PipeError) : Pipe T R :=
  if 0 < written then s.ret t (s.moved t) (.success written) else s.ret t (s.moved t) (.err e)

/-- One round of `pipeWrite`. -/
def writeSection (t : T) (buf : List UInt8) (written : Nat) (nonblock : Bool) : Pipe T R :=
  if s.readers = 0 then s.stopWrite t written .EPIPE
  else if 0 < s.space then
    let to_write := min (buf.length - written) s.space
    let data := (buf.drop written).take to_write
    let s' := (((s.put data).serveRead).wakeReader).setMoved t (s.moved t ++ data)
    if written + to_write < buf.length then s'.setCall t (some (.write buf (written + to_write)))
    else s'.ret t (s'.moved t) (.success (written + to_write))
  else if nonblock then s.stopWrite t written .EAGAIN
  else { s with blocked_writers := some t, writer_woken := false }.setCall t
    (some (.writeWait buf written .check))

/-- A thread that waits: it looks at the flag, makes its `block()`, or goes back to the head of
    its loop; `wait` is its call at a stage. -/
def waitNext (t : T) (woken : Bool) (again : PipeCall) (wait : WaitStage → PipeCall) :
    WaitStage → Pipe T R
  | .check => s.setCall t (some (if woken then again else wait .before))
  | .before => (s.setPark t (s.parks t).block).setCall t
      (some (if (s.parks t).pending then again else wait .inBlock))
  | .inBlock => s.setCall t (some again)

/-- The next section of a thread that runs. -/
def next (t : T) (nonblock : Bool) : PipeCall → Pipe T R
  | .read len => s.readSection t len nonblock
  | .writeCheck buf =>
    if s.readers = 0 then s.ret t (s.moved t) (.err .EPIPE) else s.setCall t (some (.write buf 0))
  | .write buf written => s.writeSection t buf written nonblock
  | .readWait len w => s.waitNext t s.reader_woken (.read len) (.readWait len) w
  | .writeWait buf written w =>
    s.waitNext t s.writer_woken (.write buf written) (.writeWait buf written) w

/-- `alloc`: the heap has room for the bounce buffer. -/
def readAsync (r : R) (len : Nat) (alloc : Bool) : Pipe T R :=
  if 0 < s.data_len then
    let n := min len s.data_len
    (s.advance n).complete r (s.copyOut n) (.success n)
  else if s.writers = 0 then s.complete r [] (.success 0)
  else if s.pending_read.isSome then s.report [] (.err .EAGAIN)
  else if alloc then
    { s with pending_read := some r }.setRequest r { s.requests r with buf := List.replicate len 0 }
  else s.report [] (.err .ENOMEM)

def writeAsync (r : R) (buf : List UInt8) (alloc : Bool) : Pipe T R :=
  if s.readers = 0 then s.complete r [] (.err .EPIPE)
  else if 0 < s.space then
    let data := buf.take s.space
    (s.put data).complete r data (.success data.length)
  else if s.pending_write.isSome then s.report [] (.err .EAGAIN)
  else if alloc then
    { s with pending_write := some r }.setRequest r { s.requests r with buf := buf }
  else s.report [] (.err .ENOMEM)

def readFromPipeBuffer (len : Nat) : Pipe T R :=
  if s.data_len = 0 then s.report [] (.success 0)
  else
    let n := min len s.data_len
    ((s.advance n).wakeWriter).report (s.copyOut n) (.success n)

def writeToPipeBuffer (buf : List UInt8) : Pipe T R :=
  if s.readers = 0 ∨ s.space = 0 then s.report [] (.success 0)
  else
    let data := buf.take s.space
    ((s.put data).wakeReader).report data (.success data.length)

/-- The bytes are copied and stay. -/
def peekPipeBuffer (len : Nat) : Pipe T R :=
  let n := min len s.data_len
  s.report (s.copyOut n) (.success n)

/-- The request of the other side ends; its bounce buffer is freed. -/
def drop (r : R) (result : IoResult PipeError) : Pipe T R :=
  (s.setRequest r { s.requests r with buf := [] }).complete r [] result

/-- `pipeClose` of the read end. -/
def closeRead : Pipe T R :=
  let s := { s with readers := s.readers - 1 }
  let s := match s.pending_write with
    | some r => { s with pending_write := none }.drop r (.err .EPIPE)
    | none => s
  s.wakeWriter

/-- `pipeClose` of the write end. -/
def closeWrite : Pipe T R :=
  let s := { s with writers := s.writers - 1 }
  let s := match s.pending_read with
    | some r => { s with pending_read := none }.drop r (.success 0)
    | none => s
  s.wakeReader

/-- A thread that runs outside of the two calls. -/
def idle (t : T) : Bool := s.calls t = none ∧ (s.parks t).state = .Running

/-- A thread with the interrupts off. -/
def masked (t : T) : Bool :=
  match s.calls t with
  | some (.readWait _ w) | some (.writeWait _ _ w) => w ≠ .inBlock
  | _ => false

end Pipe

/-! ## 4. Runs -/

inductive PipeInput (T R : Type) where
  | read (t : T) (len : Nat)
  | write (t : T) (buf : List UInt8)
  /-- The thread goes on; `nonblock` is the flag of its descriptor now. -/
  | next (t : T) (nonblock : Bool)
  | readAsync (r : R) (len : Nat) (alloc : Bool)
  | writeAsync (r : R) (buf : List UInt8) (alloc : Bool)
  | readFromPipeBuffer (len : Nat)
  | writeToPipeBuffer (buf : List UInt8)
  | peekPipeBuffer (len : Nat)
  | closeRead
  | closeWrite
  /-- The owner of a request, or whoever cancels it. -/
  | request (r : R) (state : IoRequestState)
  | preempt (t : T)
  | dispatch (t : T)
  /-- A wakeup from elsewhere, such as a signal. -/
  | unblock (t : T)

section Machine

variable {T R : Type} [DecidableEq T] [DecidableEq R]

def pipeStep (s : Pipe T R) : PipeInput T R → Pipe T R
  | .read t len =>
    if s.idle t then
      if len = 0 then s.report [] (.success 0) else s.setCall t (some (.read len))
    else s
  | .write t buf =>
    if s.idle t then
      if buf.length = 0 then s.report [] (.success 0)
      else (s.setMoved t []).setCall t (some (.writeCheck buf))
    else s
  | .next t nonblock =>
    match s.calls t with
    | some c => if (s.parks t).state = .Running then s.next t nonblock c else s
    | none => s
  | .readAsync r len alloc => s.readAsync r len alloc
  | .writeAsync r buf alloc => s.writeAsync r buf alloc
  | .readFromPipeBuffer len => s.readFromPipeBuffer len
  | .writeToPipeBuffer buf => s.writeToPipeBuffer buf
  | .peekPipeBuffer len => s.peekPipeBuffer len
  | .closeRead => if 0 < s.readers then s.closeRead else s
  | .closeWrite => if 0 < s.writers then s.closeWrite else s
  | .request r state => s.setRequest r { s.requests r with state := state }
  | .preempt t => if s.masked t then s else s.setPark t (s.parks t).preempt
  | .dispatch t => s.setPark t (s.parks t).dispatch
  | .unblock t => s.unblock t

/-- `Pipe.init`, with any threads that do not use it yet and any requests. -/
def pipeMachine (T R : Type) [DecidableEq T] [DecidableEq R] :
    Machine (Pipe T R) (PipeInput T R) where
  start s := ∃ buffer parks requests, s = { buffer := buffer, parks := parks, requests := requests }
  step := pipeStep

end Machine

end Zigk.Fs
