/-
  Subject:   UNIX SOCKETS (transport/socket/unix_socket.zig, syscall/net/net.zig): the pools of
             sockets and of pairs, and who holds a pair.

  * `UnixSocketPair`, `UnixSocket`, `PathEntry`, `UnixDomain` -- the two pools, the path registry,
    the descriptors and the calls in progress;
  * `next` -- the sections of the calls, each under its lock; `unixStep` -- all calls of all
    processes;
  * `refs` -- the references to a pair, of which a slot in an accept queue has two; `holders` --
    the same with one for such a slot;
  * **`pairLifetime`** -- the counts, in every run; `pairLifetime_refuted` -- a queued connection
    counts one more than its holders.

  A call goes on with the index of its socket, also when the descriptor is closed meanwhile. An
  accept queue is the list of its ring: it never holds more than its ring (`queue_fits`).
  Left out: credentials, the paths of the peers, wakeups, and the way out of a `socketpair` that
  fails after it took its pair (it clears `allocated` twice).
-/
import Mathlib.Algebra.Order.BigOperators.Group.Finset
import Mathlib.Algebra.Ring.Nat
import Zigk.Base.Machine
import Zigk.Base.RefCount

namespace Zigk.Unix

open Function List Bool

/-! ## 1. The pools -/

def MAX_UNIX_SOCKET_PAIRS : Nat := 256
def MAX_UNIX_SOCKETS : Nat := 256
def FULL_ACCEPT_QUEUE_SIZE : Nat := 8

abbrev PairIdx := Fin MAX_UNIX_SOCKET_PAIRS
abbrev SocketIdx := Fin MAX_UNIX_SOCKETS

instance : NeZero MAX_UNIX_SOCKET_PAIRS := ⟨nofun⟩
instance : NeZero MAX_UNIX_SOCKETS := ⟨nofun⟩

inductive SockType where
  | SOCK_STREAM | SOCK_DGRAM
  deriving DecidableEq, Repr

inductive How where
  | SHUT_RD | SHUT_WR | SHUT_RDWR
  deriving DecidableEq, Repr

structure UnixSocketPair where
  refcount : Nat := 0
  shutdown_0 : Bool := false
  shutdown_1 : Bool := false
  read_shutdown_0 : Bool := false
  read_shutdown_1 : Bool := false
  allocated : Bool := false

namespace UnixSocketPair

variable (p : UnixSocketPair)

def shutdownWrite (endpoint : Fin 2) : UnixSocketPair :=
  if endpoint = 0 then { p with shutdown_0 := true } else { p with shutdown_1 := true }

def shutdownRead (endpoint : Fin 2) : UnixSocketPair :=
  if endpoint = 0 then { p with read_shutdown_0 := true } else { p with read_shutdown_1 := true }

/-- `sys_shutdown` of an end from `socketpair`. -/
def shutdown (endpoint : Fin 2) (how : How) : UnixSocketPair :=
  let p := if how = .SHUT_RD ∨ how = .SHUT_RDWR then p.shutdownRead endpoint else p
  if how = .SHUT_WR ∨ how = .SHUT_RDWR then p.shutdownWrite endpoint else p

def setCount (n : Nat) (allocated : Bool) : UnixSocketPair :=
  { p with refcount := n, allocated := allocated }

/-- `releasePair`: the end is shut down, and the pair is free with its last reference. -/
def release (endpoint : Fin 2) : UnixSocketPair :=
  (p.shutdownWrite endpoint).setCount (p.refcount - 1) (p.allocated && p.refcount - 1 ≠ 0)

end UnixSocketPair

inductive UnixSocketState where
  | Unbound | Bound | Listening | Connected | Disconnected
  deriving DecidableEq, Repr

/-- A path, or a name of the abstract namespace. -/
structure UnixPath where
  path : List (BitVec 8)
  is_abstract : Bool
  deriving DecidableEq, Repr

structure UnixSocket where
  sock_type : SockType := .SOCK_STREAM
  state : UnixSocketState := .Unbound
  bound_path : Option UnixPath := none
  accept_queue : List PairIdx := []
  backlog : Nat := 0
  pair : Option PairIdx := none
  endpoint : Fin 2 := 0
  blocking : Bool := true
  refcount : Nat := 0
  generation : BitVec 32 := 0
  allocated : Bool := false

open UnixSocket

def UnixSocket.init (sock_type : SockType) (blocking : Bool) (generation : BitVec 32) :
    UnixSocket where
  sock_type := sock_type
  blocking := blocking
  refcount := 1
  generation := generation
  allocated := true

structure PathEntry where
  path : UnixPath
  socket_idx : SocketIdx
  generation : BitVec 32

/-- A descriptor: of a socket, or of one end of a `socketpair`. -/
inductive File where
  | full (idx : SocketIdx) (generation : BitVec 32)
  | half (pair : PairIdx) (endpoint : Fin 2)
  deriving DecidableEq

/-- Where a call stands. -/
inductive Call where
  /-- `socket` and `socketpair`, before the descriptors are installed. -/
  | socketInstall (idx : SocketIdx)
  | pairInstall (pair : PairIdx)
  | pairSecond (pair : PairIdx)
  | bind (idx : SocketIdx) (path : UnixPath)
  | bindRegister (idx : SocketIdx) (path : UnixPath)
  | bindFinish (idx : SocketIdx) (path : UnixPath)
  | listen (idx : SocketIdx) (backlog : Nat)
  /-- `accept`: at the head of its loop, with a pair out of the queue, with its own reference only,
      with a new socket, and before the descriptor is installed. -/
  | accept (idx : SocketIdx)
  | acceptRelease (idx : SocketIdx) (pair : PairIdx)
  | acceptAllocate (idx : SocketIdx) (pair : PairIdx)
  | acceptSetup (idx new : SocketIdx) (pair : PairIdx)
  | acceptInstall (new : SocketIdx)
  | connect (idx : SocketIdx) (path : UnixPath)
  | connectLookup (idx : SocketIdx) (path : UnixPath)
  | connectAcquire (idx target : SocketIdx) (generation : BitVec 32)
  | connectQueue (idx target : SocketIdx) (generation : BitVec 32)
  | connectFinish (idx target : SocketIdx) (pair : PairIdx)
  | shutdown (idx : SocketIdx) (how : How)
  /-- `closeSocket`, `releaseSocket`, and what that does outside of the lock. -/
  | close (idx : SocketIdx)
  | release (idx : SocketIdx)
  | unregister (path : UnixPath)
  deriving DecidableEq

structure UnixDomain where
  pairs : PairIdx → UnixSocketPair := fun _ => {}
  sockets : SocketIdx → UnixSocket := fun _ => {}
  path_registry : List PathEntry := []
  next_generation : BitVec 32 := 1
  files : List File := []
  calls : List Call := []

namespace UnixDomain

variable (s : UnixDomain)

def setPair (p : PairIdx) (v : UnixSocketPair) : UnixDomain :=
  { s with pairs := update s.pairs p v }

def setSocket (i : SocketIdx) (k : UnixSocket) : UnixDomain :=
  { s with sockets := update s.sockets i k }

def addFile (f : File) : UnixDomain := { s with files := f :: s.files }
def endFile (f : File) : UnixDomain := { s with files := s.files.erase f }
def addCall (c : Call) : UnixDomain := { s with calls := c :: s.calls }
def endCall (c : Call) : UnixDomain := { s with calls := s.calls.erase c }

/-- The free slot that `allocatePair` takes. -/
def freePair : Option PairIdx :=
  (List.finRange MAX_UNIX_SOCKET_PAIRS).find? fun p => !(s.pairs p).allocated

def freeSocket : Option SocketIdx :=
  (List.finRange MAX_UNIX_SOCKETS).find? fun i => !(s.sockets i).allocated

/-- `UnixSocketPair.initInPlace`; `connect` adds the reference of the queue at once. -/
def initPair (p : PairIdx) (refcount : Nat) : UnixDomain :=
  s.setPair p { refcount := refcount, allocated := true }

/-- `UnixSocket.init` with the next generation; `socket` sets the mode at once. -/
def initSocket (i : SocketIdx) (t : SockType) (blocking : Bool) : UnixDomain :=
  { s.setSocket i (.init t blocking s.next_generation) with
    next_generation := s.next_generation + 1 }

def releasePair (p : PairIdx) (endpoint : Fin 2) : UnixDomain :=
  s.setPair p ((s.pairs p).release endpoint)

/-! ### The path registry -/

def lookupPath (path : UnixPath) : Option PathEntry :=
  s.path_registry.find? fun e => e.path = path

def canRegister (path : UnixPath) : Bool :=
  (s.lookupPath path).isNone ∧ s.path_registry.length < MAX_UNIX_SOCKETS

def setRegistry (l : List PathEntry) : UnixDomain := { s with path_registry := l }

def registerPath (path : UnixPath) (i : SocketIdx) : UnixDomain :=
  s.setRegistry (s.path_registry ++ [⟨path, i, (s.sockets i).generation⟩])

def unregisterPath (path : UnixPath) : UnixDomain :=
  s.setRegistry (s.path_registry.eraseP fun e => e.path = path)

/-! ### The sections -/

/-- `closeSocket`: every queued connection gets an end of file, and gives one reference back. -/
def drain : UnixDomain → List PairIdx → UnixDomain
  | s, [] => s
  | s, p :: rest => (s.releasePair p 1).drain rest

def closePair (i : SocketIdx) : UnixDomain :=
  match (s.sockets i).pair with
  | some p => s.releasePair p (s.sockets i).endpoint
  | none => s

/-- The section of `closeSocket` under the lock of the socket. -/
def closeSocket (i : SocketIdx) : UnixDomain :=
  ((s.closePair i).drain (s.sockets i).accept_queue).setSocket i
    { s.sockets i with pair := none, accept_queue := [], state := .Disconnected }

/-- The connected socket of `connect` and of `accept`. -/
def connected (i : SocketIdx) (p : PairIdx) (endpoint : Fin 2) (blocking : Bool) : UnixSocket :=
  { s.sockets i with
    pair := some p, endpoint := endpoint, state := .Connected, blocking := blocking }

/-- The next section of a call; `ok` says whether it gets the memory, or the descriptor, that it
    needs. -/
def next (c : Call) (ok : Bool) : UnixDomain :=
  match c with
  | .socketInstall i =>
    if ok then (s.endCall c).addFile (.full i (s.sockets i).generation)
    else (s.endCall c).addCall (.release i)
  | .pairInstall p => ((s.endCall c).addFile (.half p 0)).addCall (.pairSecond p)
  | .pairSecond p => (s.endCall c).addFile (.half p 1)
  | .bind i path =>
    if (s.sockets i).state = .Unbound then (s.endCall c).addCall (.bindRegister i path)
    else s.endCall c
  | .bindRegister i path =>
    if s.canRegister path then ((s.endCall c).registerPath path i).addCall (.bindFinish i path)
    else s.endCall c
  | .bindFinish i path =>
    if (s.sockets i).state = .Unbound ∧ ok then
      (s.endCall c).setSocket i { s.sockets i with bound_path := some path, state := .Bound }
    else (s.endCall c).unregisterPath path
  | .listen i backlog =>
    if (s.sockets i).sock_type = .SOCK_STREAM ∧ (s.sockets i).state = .Bound then
      (s.endCall c).setSocket i
        { s.sockets i with
          backlog := max 1 (min backlog FULL_ACCEPT_QUEUE_SIZE), state := .Listening }
    else s.endCall c
  | .accept i =>
    if (s.sockets i).state = .Listening then
      match (s.sockets i).accept_queue with
      | p :: rest =>
        ((s.endCall c).setSocket i { s.sockets i with accept_queue := rest }).addCall
          (.acceptRelease i p)
      -- the thread waits, and comes back to the head of the loop
      | [] => if (s.sockets i).blocking then s else s.endCall c
    else s.endCall c
  | .acceptRelease i p =>
    ((s.endCall c).setPair p
      ((s.pairs p).setCount ((s.pairs p).refcount - 1) (s.pairs p).allocated)).addCall
        (.acceptAllocate i p)
  | .acceptAllocate i p =>
    match s.freeSocket with
    | some j => ((s.endCall c).initSocket j .SOCK_STREAM true).addCall (.acceptSetup i j p)
    | none => (s.endCall c).releasePair p 1
  | .acceptSetup i j p =>
    ((s.endCall c).setSocket j (s.connected j p 1 (s.sockets i).blocking)).addCall
      (.acceptInstall j)
  | .acceptInstall j =>
    if ok then (s.endCall c).addFile (.full j (s.sockets j).generation)
    else (s.endCall c).addCall (.close j)
  | .connect i path =>
    if (s.sockets i).sock_type = .SOCK_STREAM ∧
        ((s.sockets i).state = .Unbound ∨ (s.sockets i).state = .Bound) then
      (s.endCall c).addCall (.connectLookup i path)
    else s.endCall c
  | .connectLookup i path =>
    match s.lookupPath path with
    | some e => (s.endCall c).addCall (.connectAcquire i e.socket_idx e.generation)
    | none => s.endCall c
  | .connectAcquire i t generation =>
    if (s.sockets t).allocated then
      ((s.endCall c).setSocket t
        { s.sockets t with refcount := (s.sockets t).refcount + 1 }).addCall
          (.connectQueue i t generation)
    else s.endCall c
  | .connectQueue i t generation =>
    if (s.sockets t).state = .Listening ∧ (s.sockets t).generation = generation ∧
        (s.sockets t).accept_queue.length < (s.sockets t).backlog then
      match s.freePair with
      | some p =>
        (((s.endCall c).initPair p 3).setSocket t
          { s.sockets t with accept_queue := (s.sockets t).accept_queue ++ [p] }).addCall
            (.connectFinish i t p)
      | none => (s.endCall c).addCall (.release t)
    else (s.endCall c).addCall (.release t)
  | .connectFinish i t p =>
    ((s.endCall c).setSocket i (s.connected i p 0 (s.sockets i).blocking)).addCall (.release t)
  | .shutdown i how =>
    match (s.sockets i).state, (s.sockets i).pair with
    | .Connected, some p =>
      if how = .SHUT_RD then s.endCall c
      else (s.endCall c).setPair p ((s.pairs p).shutdownWrite (s.sockets i).endpoint)
    | _, _ => s.endCall c
  | .close i => ((s.endCall c).closeSocket i).addCall (.release i)
  | .release i =>
    if (s.sockets i).refcount - 1 = 0 then
      let s' := (s.endCall c).setSocket i { s.sockets i with refcount := 0, allocated := false }
      match (s.sockets i).bound_path with
      | some path => s'.addCall (.unregister path)
      | none => s'
    else (s.endCall c).setSocket i { s.sockets i with refcount := (s.sockets i).refcount - 1 }
  | .unregister path => (s.endCall c).unregisterPath path

/-- A call on a descriptor begins with the socket of its generation. -/
def begin (f : File) (call : SocketIdx → Call) : UnixDomain :=
  match f with
  | .full i generation =>
    if f ∈ s.files ∧ (s.sockets i).allocated ∧ (s.sockets i).generation = generation then
      s.addCall (call i)
    else s
  | .half _ _ => s

/-- The last reference to a descriptor is closed. -/
def closeFile (f : File) : UnixDomain :=
  match f with
  | .full i generation =>
    if (s.sockets i).allocated ∧ (s.sockets i).generation = generation then
      (s.endFile f).addCall (.close i)
    else s.endFile f
  | .half p endpoint => (s.endFile f).releasePair p endpoint

end UnixDomain

inductive UnixStep where
  | socket (t : SockType) (nonblock : Bool)
  | socketpair
  | bind (f : File) (path : UnixPath)
  | listen (f : File) (backlog : Nat)
  | accept (f : File)
  | connect (f : File) (path : UnixPath)
  | shutdown (f : File) (how : How)
  | close (f : File)
  /-- A call goes on. -/
  | next (c : Call) (ok : Bool)

def unixStep (s : UnixDomain) : UnixStep → UnixDomain
  | .socket t nonblock =>
    match s.freeSocket with
    | some i => (s.initSocket i t !nonblock).addCall (.socketInstall i)
    | none => s
  | .socketpair =>
    match s.freePair with
    | some p => (s.initPair p 2).addCall (.pairInstall p)
    | none => s
  | .bind f path => s.begin f (.bind · path)
  | .listen f backlog => s.begin f (.listen · backlog)
  | .accept f => s.begin f .accept
  | .connect f path => s.begin f (.connect · path)
  | .shutdown f how =>
    match f with
    | .half p endpoint =>
      if f ∈ s.files then s.setPair p ((s.pairs p).shutdown endpoint how) else s
    | .full _ _ => s.begin f (.shutdown · how)
  | .close f => if f ∈ s.files then s.closeFile f else s
  | .next c ok => if c ∈ s.calls then s.next c ok else s

def unixMachine : Machine UnixDomain UnixStep where
  start s := s = {}
  step := unixStep

/-! ### The ring of an accept queue -/

/-- No queue is longer than its ring. -/
def Fits (s : UnixDomain) : Prop :=
  ∀ i, (s.sockets i).backlog ≤ FULL_ACCEPT_QUEUE_SIZE ∧
    (s.sockets i).accept_queue.length ≤ FULL_ACCEPT_QUEUE_SIZE

namespace Fits

variable {s : UnixDomain}

theorem same (h : Fits s) {s' : UnixDomain} (hs : s'.sockets = s.sockets) : Fits s' :=
  fun i => hs ▸ h i

theorem written (h : Fits s) {s' : UnixDomain} {i : SocketIdx} {k : UnixSocket}
    (hs : s'.sockets = update s.sockets i k)
    (hk : k.backlog ≤ FULL_ACCEPT_QUEUE_SIZE ∧
      k.accept_queue.length ≤ FULL_ACCEPT_QUEUE_SIZE) : Fits s' := fun j => by
  rw [hs]
  by_cases e : j = i
  · rwa [e, update_self]
  · rw [update_of_ne e]
    exact h j

theorem drain (h : Fits s) (l : List PairIdx) : Fits (s.drain l) := by
  induction l generalizing s with
  | nil => exact h
  | cons p rest ih => exact ih (h.same rfl)

theorem closeSocket (h : Fits s) (i : SocketIdx) : Fits (s.closeSocket i) := by
  have hp : Fits (s.closePair i) := by
    unfold UnixDomain.closePair
    split
    · exact h.same rfl
    · exact h
  exact (hp.drain _).written rfl ⟨(h i).1, Nat.zero_le _⟩

theorem next (h : Fits s) (c : Call) (ok : Bool) : Fits (s.next c ok) := by
  cases c with
  | bindFinish i path =>
    rw [UnixDomain.next]
    split_ifs
    · exact h.written rfl (h i)
    · exact h.same rfl
  | listen i backlog =>
    rw [UnixDomain.next]
    split_ifs
    · refine h.written rfl ⟨?_, (h i).2⟩
      exact Nat.max_le.2 ⟨by decide, Nat.min_le_right ..⟩
    · exact h.same rfl
  | accept i =>
    rw [UnixDomain.next]
    split
    · split
      · next p rest hq =>
          have hlen := (h i).2
          rw [hq] at hlen
          exact h.written rfl ⟨(h i).1, (Nat.le_succ rest.length).trans hlen⟩
      · split_ifs
        · exact h
        · exact h.same rfl
    · exact h.same rfl
  | acceptAllocate i p =>
    rw [UnixDomain.next]
    split
    · exact h.written rfl ⟨Nat.zero_le _, Nat.zero_le _⟩
    · exact h.same rfl
  | acceptSetup i j p => exact h.written rfl (h j)
  | connectAcquire i t generation =>
    rw [UnixDomain.next]
    split_ifs
    · exact h.written rfl (h t)
    · exact h.same rfl
  | connectQueue i t generation =>
    rw [UnixDomain.next]
    split
    · next hroom =>
        split
        · refine h.written rfl ⟨(h t).1, ?_⟩
          have hlt := Nat.lt_of_lt_of_le hroom.2.2 (h t).1
          rw [length_append]
          exact hlt
        · exact h.same rfl
    · exact h.same rfl
  | connectFinish i t p => exact h.written rfl (h i)
  | close i =>
    have hc : Fits (s.endCall (.close i)) := h.same rfl
    exact (hc.closeSocket i).same rfl
  | release i =>
    rw [UnixDomain.next]
    split_ifs
    · simp only
      split <;> exact h.written rfl (h i)
    · exact h.written rfl (h i)
  | socketInstall i =>
    rw [UnixDomain.next]
    split_ifs <;> exact h.same rfl
  | pairInstall p => exact h.same rfl
  | pairSecond p => exact h.same rfl
  | bind i path =>
    rw [UnixDomain.next]
    split_ifs <;> exact h.same rfl
  | bindRegister i path =>
    rw [UnixDomain.next]
    split_ifs <;> exact h.same rfl
  | acceptRelease i p => exact h.same rfl
  | acceptInstall j =>
    rw [UnixDomain.next]
    split_ifs <;> exact h.same rfl
  | connect i path =>
    rw [UnixDomain.next]
    split_ifs <;> exact h.same rfl
  | connectLookup i path =>
    rw [UnixDomain.next]
    split <;> exact h.same rfl
  | shutdown i how =>
    rw [UnixDomain.next]
    split
    · split_ifs <;> exact h.same rfl
    · exact h.same rfl
  | unregister path => exact h.same rfl

theorem begin (h : Fits s) (f : File) (call : SocketIdx → Call) : Fits (s.begin f call) := by
  unfold UnixDomain.begin
  split
  · split_ifs <;> exact h.same rfl
  · exact h

theorem step (h : Fits s) (i : UnixStep) : Fits (unixStep s i) := by
  cases i with
  | socket t nonblock =>
    rw [unixStep]
    split
    · exact h.written rfl ⟨Nat.zero_le _, Nat.zero_le _⟩
    · exact h
  | socketpair =>
    rw [unixStep]
    split
    · exact h.same rfl
    · exact h
  | bind f path => exact h.begin f (.bind · path)
  | listen f backlog => exact h.begin f (.listen · backlog)
  | accept f => exact h.begin f .accept
  | connect f path => exact h.begin f (.connect · path)
  | shutdown f how =>
    cases f with
    | full i generation => exact h.begin (.full i generation) (.shutdown · how)
    | half p endpoint =>
      rw [unixStep]
      split_ifs
      · exact h.same rfl
      · exact h
  | close f =>
    rw [unixStep]
    split_ifs
    · cases f with
      | full i generation =>
        rw [UnixDomain.closeFile]
        split_ifs <;> exact h.same rfl
      | half p endpoint => exact h.same rfl
    · exact h
  | next c ok =>
    rw [unixStep]
    split_ifs
    · exact h.next c ok
    · exact h

end Fits

/-- **No accept queue is ever longer than its ring.** -/
theorem queue_fits {s : UnixDomain} (hs : unixMachine.Reachable s) : Fits s := by
  refine hs.invariant ?_ fun s i _ h _ => h.step i
  rintro s rfl
  exact fun _ => ⟨Nat.zero_le _, Nat.zero_le _⟩

/-! ## 2. Who holds a pair -/

/-- The references of a call in progress to the pairs, and to the sockets. -/
def Call.refs : Call → PairIdx → Nat
  | .pairInstall p => refsTo p 2
  | .pairSecond p => refsTo p 1
  | .acceptRelease _ p => refsTo p 2
  | .acceptAllocate _ p => refsTo p 1
  | .acceptSetup _ _ p => refsTo p 1
  | .connectFinish _ _ p => refsTo p 1
  | _ => 0

def Call.owners : Call → SocketIdx → Nat
  | .socketInstall i => refsTo i 1
  | .acceptSetup _ j _ => refsTo j 1
  | .acceptInstall j => refsTo j 1
  | .connectQueue _ t _ => refsTo t 1
  | .connectFinish _ t _ => refsTo t 1
  | .close i => refsTo i 1
  | .release i => refsTo i 1
  | _ => 0

def File.refs : File → PairIdx → Nat
  | .half p _ => refsTo p 1
  | .full _ _ => 0

def File.owners : File → SocketIdx → Nat
  | .full i _ => refsTo i 1
  | .half _ _ => 0

/-- The end of a socket, and the slots in its queue, which count `slot` each. -/
def UnixSocket.holds (slot : Nat) (k : UnixSocket) (p : PairIdx) : Nat :=
  (if k.pair = some p then 1 else 0) + slot * k.accept_queue.count p

namespace UnixDomain

variable (s : UnixDomain)

/-- What calls and descriptors hold. -/
def inUse (call : Call → Nat) (file : File → Nat) : Nat :=
  (s.calls.map call).sum + (s.files.map file).sum

def heldBy (slot : Nat) (p : PairIdx) : Nat :=
  s.inUse (Call.refs · p) (File.refs · p) +
    ∑ i, if (s.sockets i).allocated then (s.sockets i).holds slot p else 0

/-- Descriptors, calls in progress and slots in accept queues. -/
def holders (p : PairIdx) : Nat := s.heldBy 1 p

/-- The same, where a slot stands for two: for itself, and for the end that `accept` hands out. -/
def refs (p : PairIdx) : Nat := s.heldBy 2 p

def owners (i : SocketIdx) : Nat := s.inUse (Call.owners · i) (File.owners · i)

def pairOf (i : SocketIdx) (p : PairIdx) : Nat := if (s.sockets i).pair = some p then 1 else 0

/-- The references that a section gives up without a release: those kept for the ends that
    `accept` would have handed out, when a listener closes with connections in its queue; that of an
    end which is overwritten, or which a `connect` sets in a socket that was freed meanwhile; and
    those of a socket that is freed with them. -/
def dropped : Call → PairIdx → Nat
  | .close i => fun p => (s.sockets i).accept_queue.count p
  | .acceptSetup _ j _ => s.pairOf j
  | .connectFinish i _ p =>
    if (s.sockets i).allocated then s.pairOf i else s.pairOf i + refsTo p 1
  | .release i => if (s.sockets i).refcount - 1 = 0 then (s.sockets i).holds 2 else 0
  | _ => 0

end UnixDomain

/-- The references given up so far. -/
def lostAfter (lost : PairIdx → Nat) (s : UnixDomain) : UnixStep → PairIdx → Nat
  | .next c _ => if c ∈ s.calls then lost + s.dropped c else lost
  | _ => lost

def unixTracked : Machine (UnixDomain × (PairIdx → Nat)) UnixStep :=
  unixMachine.track 0 lostAfter

/-- While none of its references was given up, a pair counts its references, and it is allocated
    as long as there are any. A free pair has no reference at all. -/
structure PairLaw (x : UnixDomain × (PairIdx → Nat)) (p : PairIdx) : Prop where
  count : x.2 p = 0 → (x.1.pairs p).allocated = true → (x.1.pairs p).refcount = x.1.refs p
  last : x.2 p = 0 → ((x.1.pairs p).allocated = true ↔ 0 < x.1.refs p)
  free : (x.1.pairs p).allocated = false → x.1.refs p = 0

/-! ## 3. The accounts -/

/-- All that names a pair, freed sockets included. -/
def UnixDomain.total (s : UnixDomain) (p : PairIdx) : Nat :=
  s.inUse (Call.refs · p) (File.refs · p) + ∑ i, (s.sockets i).holds 2 p

/-- The accounts inside a section, with the references to pairs and to sockets that the section has
    in hand; `n` references are held by nobody any more. -/
structure Accounts (s : UnixDomain) (given hand : PairIdx → Nat) (own : SocketIdx → Nat) :
    Prop where
  pairs : ∀ p, ∃ n, RefCount (s.pairs p).allocated (s.pairs p).refcount (s.total p + n + hand p) ∧
    (given p = 0 → n = 0)
  sockets : ∀ i, RefCount (s.sockets i).allocated (s.sockets i).refcount (s.owners i + own i)
  files : ∀ i generation, .full i generation ∈ s.files → (s.sockets i).generation = generation
  clean : ∀ p, given p = 0 → ∀ i, (s.sockets i).allocated = false → (s.sockets i).holds 2 p = 0

namespace Accounts

variable {s s' : UnixDomain} {given hand hand' : PairIdx → Nat} {own own' : SocketIdx → Nat}
  {c : Call} {f : File} {p : PairIdx} {i : SocketIdx}

/-- What is in hand, and what calls and descriptors hold, is written in another way. -/
theorem moved (h : Accounts s given hand own) (hpairs : s'.pairs = s.pairs)
    (hsockets : s'.sockets = s.sockets)
    (hrefs : ∀ p, s'.inUse (Call.refs · p) (File.refs · p) + hand' p =
      s.inUse (Call.refs · p) (File.refs · p) + hand p)
    (howners : ∀ i, s'.owners i + own' i = s.owners i + own i)
    (hfiles : ∀ i generation, .full i generation ∈ s'.files →
      (s.sockets i).generation = generation) : Accounts s' given hand' own' where
  pairs p := by
    obtain ⟨n, hn, hz⟩ := h.pairs p
    have heq : s'.total p + n + hand' p = s.total p + n + hand p := by
      have := hrefs p
      unfold UnixDomain.total
      rw [hsockets]
      omega
    refine ⟨n, ?_, hz⟩
    rw [hpairs, heq]
    exact hn
  sockets i := by
    rw [hsockets, howners i]
    exact h.sockets i
  files := by
    rw [hsockets]
    exact hfiles
  clean := by
    rw [hsockets]
    exact h.clean

theorem congr (h : Accounts s given hand own) (hh : ∀ p, hand p = hand' p)
    (ho : ∀ i, own i = own' i) : Accounts s given hand' own' :=
  h.moved rfl rfl (fun p => by rw [hh]) (fun i => by rw [ho]) h.files

theorem inUse_endCall (hc : c ∈ s.calls) (call : Call → Nat) (file : File → Nat) :
    s.inUse call file = (s.endCall c).inUse call file + call c := by
  unfold UnixDomain.inUse
  rw [← sum_map_erase call hc]
  simp only [UnixDomain.endCall]
  omega

theorem inUse_endFile (hf : f ∈ s.files) (call : Call → Nat) (file : File → Nat) :
    s.inUse call file = (s.endFile f).inUse call file + file f := by
  unfold UnixDomain.inUse
  rw [← sum_map_erase file hf]
  simp only [UnixDomain.endFile]
  omega

theorem inUse_addCall (s : UnixDomain) (c : Call) (call : Call → Nat) (file : File → Nat) :
    (s.addCall c).inUse call file = s.inUse call file + call c := by
  simp only [UnixDomain.inUse, UnixDomain.addCall, map_cons, sum_cons]
  omega

theorem inUse_addFile (s : UnixDomain) (f : File) (call : Call → Nat) (file : File → Nat) :
    (s.addFile f).inUse call file = s.inUse call file + file f := by
  simp only [UnixDomain.inUse, UnixDomain.addFile, map_cons, sum_cons]
  omega

/-- A section takes over what its call holds. -/
theorem take (h : Accounts s given hand own) (hc : c ∈ s.calls) :
    Accounts (s.endCall c) given (hand + c.refs) (own + c.owners) := by
  refine h.moved rfl rfl (fun p => ?_) (fun i => ?_) h.files
  · rw [inUse_endCall hc, Pi.add_apply]
    omega
  · unfold UnixDomain.owners
    rw [inUse_endCall hc, Pi.add_apply]
    omega

/-- The call goes on, or another one begins, with what the section has in hand for it. -/
theorem put (h : Accounts s given (hand + c.refs) (own + c.owners)) :
    Accounts (s.addCall c) given hand own := by
  refine h.moved rfl rfl (fun p => ?_) (fun i => ?_) h.files
  · rw [inUse_addCall, Pi.add_apply]
    omega
  · unfold UnixDomain.owners
    rw [inUse_addCall, Pi.add_apply]
    omega

theorem takeFile (h : Accounts s given hand own) (hf : f ∈ s.files) :
    Accounts (s.endFile f) given (hand + f.refs) (own + f.owners) := by
  refine h.moved rfl rfl (fun p => ?_) (fun i => ?_) fun j generation hj =>
    h.files j generation (mem_of_mem_erase hj)
  · rw [inUse_endFile hf, Pi.add_apply]
    omega
  · unfold UnixDomain.owners
    rw [inUse_endFile hf, Pi.add_apply]
    omega

theorem putFile (h : Accounts s given (hand + f.refs) (own + f.owners))
    (hgen : ∀ i generation, f = .full i generation → (s.sockets i).generation = generation) :
    Accounts (s.addFile f) given hand own := by
  refine h.moved rfl rfl (fun p => ?_) (fun i => ?_) fun j generation hj => ?_
  · rw [inUse_addFile, Pi.add_apply]
    omega
  · unfold UnixDomain.owners
    rw [inUse_addFile, Pi.add_apply]
    omega
  · rcases mem_cons.1 hj with hj | hj
    · exact hgen j generation hj.symm
    · exact h.files j generation hj

/-- References in hand are given up. -/
theorem lose {d : PairIdx → Nat} (h : Accounts s given (hand + d) own) :
    Accounts s (given + d) hand own where
  pairs p := by
    obtain ⟨n, hn, hz⟩ := h.pairs p
    have heq : s.total p + n + (hand + d) p = s.total p + (n + d p) + hand p := by
      rw [Pi.add_apply]
      omega
    refine ⟨n + d p, heq ▸ hn, fun hg => ?_⟩
    rw [Pi.add_apply] at hg
    have := hz (Nat.eq_zero_of_add_eq_zero_right hg)
    omega
  sockets := h.sockets
  files := h.files
  clean p hg := h.clean p (Nat.eq_zero_of_add_eq_zero_right hg)

/-- Nothing else is said about more pairs. -/
theorem giveUp (h : Accounts s given hand own) (d : PairIdx → Nat) :
    Accounts s (given + d) hand own where
  pairs p := by
    obtain ⟨n, hn, hz⟩ := h.pairs p
    exact ⟨n, hn, fun hg => hz (Nat.eq_zero_of_add_eq_zero_right hg)⟩
  sockets := h.sockets
  files := h.files
  clean p hg := h.clean p (Nat.eq_zero_of_add_eq_zero_right hg)

/-- A pair is written; its count changes with the references in hand. -/
theorem setPair (h : Accounts s given hand own) {v : UnixSocketPair}
    (hv : ∀ n, RefCount (s.pairs p).allocated (s.pairs p).refcount (n + hand p) →
      RefCount v.allocated v.refcount (n + hand' p)) (hne : ∀ q, q ≠ p → hand' q = hand q) :
    Accounts (s.setPair p v) given hand' own where
  pairs q := by
    obtain ⟨n, hn, hz⟩ := h.pairs q
    refine ⟨n, ?_, hz⟩
    by_cases e : q = p
    · subst e
      have hself : (s.setPair q v).pairs q = v := update_self ..
      rw [hself]
      exact hv _ hn
    · have hother : (s.setPair p v).pairs q = s.pairs q := update_of_ne e ..
      rw [hother, hne q e]
      exact hn
  sockets := h.sockets
  files := h.files
  clean := h.clean

/-- The count of the pair stays as it is. -/
theorem keepPair (h : Accounts s given hand own) {v : UnixSocketPair}
    (halloc : v.allocated = (s.pairs p).allocated) (hcount : v.refcount = (s.pairs p).refcount) :
    Accounts (s.setPair p v) given hand own :=
  h.setPair (fun n hn => by rwa [halloc, hcount]) fun _ _ => rfl

theorem shutdownWrite_kept (v : UnixSocketPair) (endpoint : Fin 2) :
    (v.shutdownWrite endpoint).allocated = v.allocated ∧
      (v.shutdownWrite endpoint).refcount = v.refcount := by
  unfold UnixSocketPair.shutdownWrite
  split <;> exact ⟨rfl, rfl⟩

theorem shutdown_kept (v : UnixSocketPair) (endpoint : Fin 2) (how : How) :
    (v.shutdown endpoint how).allocated = v.allocated ∧
      (v.shutdown endpoint how).refcount = v.refcount := by
  have hread : (v.shutdownRead endpoint).allocated = v.allocated ∧
      (v.shutdownRead endpoint).refcount = v.refcount := by
    unfold UnixSocketPair.shutdownRead
    split <;> exact ⟨rfl, rfl⟩
  unfold UnixSocketPair.shutdown
  split_ifs
  · rw [(shutdownWrite_kept ..).1, (shutdownWrite_kept ..).2]
    exact hread
  · exact hread
  · exact shutdownWrite_kept ..
  · exact ⟨rfl, rfl⟩

/-- `releasePair` gives one reference back. -/
theorem releasePair (h : Accounts s given (hand + refsTo p 1) own) (endpoint : Fin 2) :
    Accounts (s.releasePair p endpoint) given hand own := by
  refine h.setPair (fun n hn => ?_) fun q hq => ?_
  · rw [Pi.add_apply, refsTo_self, ← Nat.add_assoc] at hn
    exact hn.release
  · rw [Pi.add_apply, refsTo_ne hq, Nat.add_zero]

/-- `accept` gives the reference of the queue back, and keeps that of its own end. -/
theorem dropPair (h : Accounts s given (hand + refsTo p 2) own) :
    Accounts (s.setPair p ((s.pairs p).setCount ((s.pairs p).refcount - 1) (s.pairs p).allocated))
      given (hand + refsTo p 1) own := by
  refine h.setPair (fun n hn => ?_) fun q hq => ?_
  · rw [Pi.add_apply, refsTo_self] at hn ⊢
    exact RefCount.drop hn (by omega)
  · rw [Pi.add_apply, Pi.add_apply, refsTo_ne hq, refsTo_ne hq]

section

variable (h : Accounts s given hand own)
include h

/-- A socket is written; `hand` has what the new one holds, and gets what the old one held. -/
theorem writeSocket {k : UnixSocket}
    (hk : ∀ n, RefCount (s.sockets i).allocated (s.sockets i).refcount (n + own i) →
      RefCount k.allocated k.refcount (n + own' i)) (hne : ∀ j, j ≠ i → own' j = own j)
    (hgen : ∀ generation, .full i generation ∈ s.files → k.generation = generation)
    (hheld : ∀ p, hand p + (s.sockets i).holds 2 p = hand' p + k.holds 2 p)
    (hclean : ∀ p, given p = 0 → k.allocated = false → k.holds 2 p = 0) :
    Accounts (s.setSocket i k) given hand' own' := by
  have hself : (s.setSocket i k).sockets i = k := update_self ..
  have hother : ∀ j, j ≠ i → (s.setSocket i k).sockets j = s.sockets j := fun j hj =>
    update_of_ne hj ..
  exact {
    pairs := fun p => by
      obtain ⟨n, hn, hz⟩ := h.pairs p
      have hsum := sum_update (fun k : UnixSocket => k.holds 2 p) s.sockets i k
      have heq : s.total p + n + hand p = (s.setSocket i k).total p + n + hand' p := by
        have := hheld p
        unfold UnixDomain.total UnixDomain.setSocket
        simp only [UnixDomain.inUse] at hsum ⊢
        omega
      exact ⟨n, heq ▸ hn, hz⟩
    sockets := fun j => by
      by_cases e : j = i
      · rw [e, hself]
        exact hk _ (h.sockets i)
      · rw [hother j e, hne j e]
        exact h.sockets j
    files := fun j generation hj => by
      by_cases e : j = i
      · rw [e, hself]
        exact hgen generation (e ▸ hj)
      · rw [hother j e]
        exact h.files j generation hj
    clean := fun p hg j hj => by
      by_cases e : j = i
      · rw [e, hself] at hj ⊢
        exact hclean p hg hj
      · rw [hother j e] at hj ⊢
        exact h.clean p hg j hj }

/-- The count of the socket stays as it is. -/
theorem setSocket {k : UnixSocket}
    (halloc : k.allocated = (s.sockets i).allocated) (hcount : k.refcount = (s.sockets i).refcount)
    (hgen : k.generation = (s.sockets i).generation)
    (hheld : ∀ p, hand p + (s.sockets i).holds 2 p = hand' p + k.holds 2 p)
    (hclean : ∀ p, given p = 0 → (s.sockets i).allocated = false → k.holds 2 p = 0) :
    Accounts (s.setSocket i k) given hand' own :=
  h.writeSocket (fun n hn => by rwa [halloc, hcount]) (fun _ _ => rfl)
    (fun generation hf => hgen.trans (h.files i generation hf)) hheld
    (fun p hg ha => hclean p hg (halloc ▸ ha))

/-- Neither the count nor what the socket holds changes. -/
theorem keepSocket {k : UnixSocket}
    (halloc : k.allocated = (s.sockets i).allocated) (hcount : k.refcount = (s.sockets i).refcount)
    (hgen : k.generation = (s.sockets i).generation) (hpair : k.pair = (s.sockets i).pair)
    (hqueue : k.accept_queue = (s.sockets i).accept_queue) :
    Accounts (s.setSocket i k) given hand own := by
  have hk : k.holds 2 = (s.sockets i).holds 2 := by
    funext p
    unfold holds
    rw [hpair, hqueue]
  refine h.setSocket halloc hcount hgen (fun p => by rw [hk]) fun p hg ha => ?_
  rw [hk]
  exact h.clean p hg i ha

/-- Whose slot is free has no descriptor. -/
theorem noFile (hi : (s.sockets i).allocated = false)
    (generation : BitVec 32) : .full i generation ∉ s.files := by
  intro hf
  have hzero := (h.sockets i).free hi
  have hpos : s.owners i = _ + _ := inUse_endFile hf ..
  have hone : (File.full i generation).owners i = 1 := refsTo_self i 1
  omega

/-- A free socket is taken; what it still held is held by nobody. -/
theorem initSocket (hi : (s.sockets i).allocated = false) (t : SockType) (blocking : Bool) :
    Accounts (s.initSocket i t blocking) given hand (own + refsTo i 1) := by
  have hw : Accounts (s.initSocket i t blocking) given (hand + (s.sockets i).holds 2)
      (own + refsTo i 1) := by
    have hset : Accounts (s.setSocket i (.init t blocking s.next_generation)) given
        (hand + (s.sockets i).holds 2) (own + refsTo i 1) := by
      refine h.writeSocket (fun n hn => ?_) (fun j hj => ?_)
        (fun generation hf => absurd hf (h.noFile hi generation)) (fun p => ?_)
        (fun _ _ ha => nomatch ha)
      · have hzero := hn.free hi
        rw [Pi.add_apply, refsTo_self, ← Nat.add_assoc, hzero]
        exact .fresh Nat.one_pos
      · rw [Pi.add_apply, refsTo_ne hj, Nat.add_zero]
      · simp [holds, init]
    exact hset.moved rfl rfl (fun _ => rfl) (fun _ => rfl) hset.files
  refine ⟨fun p => ?_, hw.sockets, hw.files, hw.clean⟩
  obtain ⟨n, hn, hz⟩ := hw.pairs p
  refine ⟨n + (s.sockets i).holds 2 p, ?_, fun hg => ?_⟩
  · have heq : ∀ m, m + n + (hand + (s.sockets i).holds 2) p =
        m + (n + (s.sockets i).holds 2 p) + hand p := fun m => by
      rw [Pi.add_apply]
      omega
    exact heq _ ▸ hn
  · rw [hz hg, h.clean p hg i hi]

/-- A free pair is taken. -/
theorem initPair (hp : (s.pairs p).allocated = false) {n : Nat}
    (hn : 0 < n) : Accounts (s.initPair p n) given (hand + refsTo p n) own := by
  refine h.setPair (fun m hm => ?_) fun q hq => ?_
  · have hzero := hm.free hp
    rw [Pi.add_apply, refsTo_self, ← Nat.add_assoc, hzero, Nat.zero_add]
    exact .fresh hn
  · rw [Pi.add_apply, refsTo_ne hq, Nat.add_zero]

/-- `acquireSocket`. -/
theorem retainSocket (hi : (s.sockets i).allocated = true) :
    Accounts (s.setSocket i { s.sockets i with refcount := (s.sockets i).refcount + 1 }) given hand
      (own + refsTo i 1) := by
  refine h.writeSocket (fun n hn => ?_) (fun j hj => ?_)
    (fun generation hf => h.files i generation hf) (fun p => rfl) fun p hg ha => ?_
  · rw [Pi.add_apply, refsTo_self, ← Nat.add_assoc]
    exact hn.retain hi
  · rw [Pi.add_apply, refsTo_ne hj, Nat.add_zero]
  · exact h.clean p hg i ha

end

/-- The last owner of a socket goes, and what the socket holds is given up. -/
theorem freeSocket (h : Accounts s given hand (own + refsTo i 1))
    (hlast : (s.sockets i).refcount - 1 = 0) :
    Accounts (s.setSocket i { s.sockets i with refcount := 0, allocated := false })
      (given + (s.sockets i).holds 2) hand own := by
  refine (h.giveUp _).writeSocket (fun n hn => ?_) (fun j hj => ?_)
    (fun generation hf => h.files i generation hf) (fun p => rfl) fun p hg _ => ?_
  · rw [Pi.add_apply, refsTo_self, ← Nat.add_assoc] at hn
    have hcount := hn.count_eq (Nat.succ_pos _)
    exact ⟨nofun, fun _ => by omega⟩
  · rw [Pi.add_apply, refsTo_ne hj, Nat.add_zero]
  · exact Nat.eq_zero_of_add_eq_zero_left hg

/-- An owner goes, and others stay. -/
theorem releaseSocket (h : Accounts s given hand (own + refsTo i 1))
    (hlast : (s.sockets i).refcount - 1 ≠ 0) :
    Accounts (s.setSocket i { s.sockets i with refcount := (s.sockets i).refcount - 1 }) given hand
      own := by
  refine h.writeSocket (fun n hn => ?_) (fun j hj => ?_)
    (fun generation hf => h.files i generation hf) (fun p => rfl) fun p hg ha => ?_
  · rw [Pi.add_apply, refsTo_self, ← Nat.add_assoc] at hn
    have hr := hn.release
    rwa [decide_eq_true hlast, Bool.and_true] at hr
  · rw [Pi.add_apply, refsTo_ne hj, Nat.add_zero]
  · exact h.clean p hg i ha

/-- Who owns a socket finds it allocated. -/
theorem owned (h : Accounts s given hand (own + refsTo i 1)) :
    (s.sockets i).allocated = true := by
  refine (h.sockets i).used_of_pos ?_
  rw [Pi.add_apply, refsTo_self]
  omega

theorem drain {l : List PairIdx} (h : Accounts s given (hand + (l.count ·)) own) :
    Accounts (s.drain l) given hand own := by
  induction l generalizing s with
  | nil => exact h
  | cons p rest ih =>
    refine ih (releasePair (h.congr (fun q => ?_) fun _ => rfl) 1)
    by_cases e : q = p
    · subst e
      simp only [Pi.add_apply, count_cons_self, refsTo_self]
      omega
    · simp only [Pi.add_apply, count_cons_of_ne (Ne.symm e), refsTo_ne e]
      omega

theorem drain_setSocket (s : UnixDomain) (i : SocketIdx) (k : UnixSocket) (l : List PairIdx) :
    (s.drain l).setSocket i k = (s.setSocket i k).drain l := by
  induction l generalizing s with
  | nil => rfl
  | cons p rest ih => exact ih _

/-- A socket is closed: of each queued connection one reference is given back, and one is lost. -/
theorem closeSocket (h : Accounts s given hand own) (i : SocketIdx) :
    Accounts (s.closeSocket i) (given + ((s.sockets i).accept_queue.count ·)) hand own := by
  unfold UnixDomain.closeSocket
  rw [drain_setSocket]
  have hset : ∀ {hand'}, (∀ p, hand p + (s.sockets i).holds 2 p = hand' p) →
      Accounts (s.setSocket i { s.sockets i with
        pair := none, accept_queue := [], state := .Disconnected }) given hand' own := fun hh =>
    h.setSocket rfl rfl rfl (fun p => by rw [hh p]; rfl) fun _ _ _ => rfl
  refine lose (drain ?_)
  unfold UnixDomain.closePair
  cases hp : (s.sockets i).pair with
  | none =>
    refine hset fun p => ?_
    simp only [holds, hp, Pi.add_apply, reduceCtorEq, if_false]
    omega
  | some q =>
    refine releasePair (hset fun p => ?_) _
    by_cases e : p = q
    · subst e
      simp only [holds, hp, if_true, Pi.add_apply, refsTo_self]
      omega
    · have hne : ¬some q = some p := fun h => e (Option.some.inj h).symm
      simp only [holds, hp, Pi.add_apply, refsTo_ne e, if_neg hne]
      omega

/-- A socket gets a pair; the one it had is lost. -/
theorem connected (h : Accounts s given (hand + refsTo p 1) own)
    (hfree : ∀ q, given q = 0 → (s.sockets i).allocated = false → refsTo p 1 q = 0)
    (endpoint : Fin 2) (blocking : Bool) :
    Accounts (s.setSocket i (s.connected i p endpoint blocking)) (given + s.pairOf i) hand own := by
  have hk : ∀ q, (s.connected i p endpoint blocking).holds 2 q =
      refsTo p 1 q + 2 * (s.sockets i).accept_queue.count q := by
    intro q
    unfold holds UnixDomain.connected refsTo
    simp only [Option.some.injEq, eq_comm]
  have hold : ∀ q, (s.sockets i).holds 2 q =
      s.pairOf i q + 2 * (s.sockets i).accept_queue.count q := fun _ => rfl
  refine lose (h.setSocket rfl rfl rfl (fun q => ?_) fun q hg ha => ?_)
  · rw [hk, hold]
    simp only [Pi.add_apply]
    omega
  have hzero := h.clean q hg i ha
  rw [hold] at hzero
  rw [hk, hfree q hg ha]
  omega

section

variable (h : Accounts s given 0 0)
include h

/-- The call goes on with what it holds. -/
theorem goto (hc : c ∈ s.calls) {c' : Call} (hr : c'.refs = c.refs)
    (ho : c'.owners = c.owners) : Accounts ((s.endCall c).addCall c') given 0 0 := by
  refine put ?_
  rw [hr, ho]
  exact h.take hc

/-- A call that holds nothing ends. -/
theorem finish (hc : c ∈ s.calls) (hr : c.refs = 0)
    (ho : c.owners = 0) : Accounts (s.endCall c) given 0 0 := by
  have ht := h.take hc
  rw [hr, ho] at ht
  exact ht

theorem accept {i : SocketIdx} (hc : .accept i ∈ s.calls) (ok : Bool) :
    Accounts (s.next (.accept i) ok) given 0 0 := by
  have hf := h.finish hc rfl rfl
  rw [UnixDomain.next]
  by_cases hst : (s.sockets i).state = .Listening
  · rw [if_pos hst]
    cases hq : (s.sockets i).accept_queue with
    | nil =>
      simp only
      split_ifs
      · exact h
      · exact hf
    | cons p rest =>
      -- the two references of the slot go to the call
      refine put (hf.setSocket rfl rfl rfl (fun q => ?_) fun q hg ha => ?_)
      · have hold : ((s.endCall (.accept i)).sockets i).holds 2 q =
            s.pairOf i q + 2 * (p :: rest).count q := by
          rw [← hq]
          rfl
        have hnew : ({ s.sockets i with accept_queue := rest } : UnixSocket).holds 2 q =
          s.pairOf i q + 2 * rest.count q := rfl
        rw [hold, hnew]
        by_cases e : q = p
        · subst e
          simp only [Call.refs, Pi.add_apply, Pi.zero_apply, count_cons_self, refsTo_self]
          omega
        · simp only [Call.refs, Pi.add_apply, Pi.zero_apply, refsTo_ne e,
            count_cons_of_ne (Ne.symm e)]
          omega
      · have hzero : s.pairOf i q + 2 * (s.sockets i).accept_queue.count q = 0 := h.clean q hg i ha
        have hcount : rest.count q ≤ (s.sockets i).accept_queue.count q := by
          rw [hq]
          exact count_le_count_cons
        have hnew : ({ s.sockets i with accept_queue := rest } : UnixSocket).holds 2 q =
          s.pairOf i q + 2 * rest.count q := rfl
        omega
  · rw [if_neg hst]
    exact hf

theorem connectQueue {i t : SocketIdx} {generation : BitVec 32}
    (hc : .connectQueue i t generation ∈ s.calls) (ok : Bool) :
    Accounts (s.next (.connectQueue i t generation) ok) given 0 0 := by
  have ht : Accounts (s.endCall (.connectQueue i t generation)) given 0 (0 + refsTo t 1) :=
    h.take hc
  have hused := ht.owned
  have hback : Accounts ((s.endCall (.connectQueue i t generation)).addCall (.release t)) given
    0 0 := h.goto hc rfl rfl
  rw [UnixDomain.next]
  split_ifs
  · cases hp : s.freePair with
    | none => exact hback
    | some p =>
      have hfree : (s.pairs p).allocated = false := by
        have := find?_some hp
        rwa [not_eq_true'] at this
      -- of the three references two go to the slot, and one to the call
      have hinit := ht.initPair (p := p) hfree (n := 3) (by omega)
      refine put (hinit.setSocket rfl rfl rfl (fun q => ?_) fun q _ ha => ?_)
      · have hold : (s.sockets t).holds 2 q =
          s.pairOf t q + 2 * (s.sockets t).accept_queue.count q := rfl
        have hnew : ({ s.sockets t with accept_queue := (s.sockets t).accept_queue ++ [p] } :
            UnixSocket).holds 2 q =
          s.pairOf t q + 2 * ((s.sockets t).accept_queue ++ [p]).count q := rfl
        change _ + (s.sockets t).holds 2 q = _
        rw [hold, hnew, count_append]
        by_cases e : q = p
        · subst e
          simp only [Call.refs, Pi.add_apply, Pi.zero_apply, refsTo_self, count_singleton_self]
          omega
        · have hz : [p].count q = 0 := List.count_eq_zero.2 fun hm => e (mem_singleton.1 hm)
          simp only [Call.refs, Pi.add_apply, Pi.zero_apply, refsTo_ne e, hz]
          omega
      · exact nomatch hused.symm.trans ha
  · exact hback

/-- **A section keeps the accounts**, up to the references that it gives up. -/
theorem next (hc : c ∈ s.calls) (ok : Bool) :
    Accounts (s.next c ok) (given + s.dropped c) 0 0 := by
  have ht := h.take hc
  cases c with
  | socketInstall i =>
    rw [UnixDomain.next]
    split_ifs
    · refine putFile (f := .full i _) ht fun j generation hj => ?_
      obtain ⟨rfl, rfl⟩ := File.full.inj hj
      rfl
    · exact h.goto hc rfl rfl
  | pairInstall p =>
    refine put (putFile (f := .half p 0) (ht.congr (fun q => ?_) fun _ => rfl) nofun)
    by_cases e : q = p
    · subst e
      simp [Call.refs, File.refs, refsTo_self]
    · simp [Call.refs, File.refs, refsTo_ne e]
  | pairSecond p => exact putFile (f := .half p 1) ht nofun
  | bind i path =>
    change Accounts _ given 0 0
    rw [UnixDomain.next]
    split_ifs
    · exact h.goto hc rfl rfl
    · exact h.finish hc rfl rfl
  | bindRegister i path =>
    rw [UnixDomain.next]
    split_ifs
    · have hg : Accounts ((s.endCall (.bindRegister i path)).addCall (.bindFinish i path)) given
        0 0 := h.goto hc rfl rfl
      exact hg.moved rfl rfl (fun _ => rfl) (fun _ => rfl) hg.files
    · exact h.finish hc rfl rfl
  | bindFinish i path =>
    have hf := h.finish hc rfl rfl
    change Accounts _ given 0 0
    rw [UnixDomain.next]
    split_ifs
    · exact hf.keepSocket rfl rfl rfl rfl rfl
    · exact hf.moved rfl rfl (fun _ => rfl) (fun _ => rfl) hf.files
  | listen i backlog =>
    have hf := h.finish hc rfl rfl
    rw [UnixDomain.next]
    split_ifs
    · exact hf.keepSocket rfl rfl rfl rfl rfl
    · exact hf
  | accept i => exact h.accept hc ok
  | acceptRelease i p =>
    have htwo : Accounts (s.endCall (.acceptRelease i p)) given (0 + refsTo p 2) 0 := ht
    exact put (c := .acceptAllocate i p) htwo.dropPair
  | acceptAllocate i p =>
    change Accounts _ given 0 0
    rw [UnixDomain.next]
    cases hj : s.freeSocket with
    | none =>
      have hone : Accounts (s.endCall (.acceptAllocate i p)) given (0 + refsTo p 1) 0 := ht
      exact hone.releasePair 1
    | some j =>
      have hfree : (s.sockets j).allocated = false := by
        have := find?_some hj
        rwa [not_eq_true'] at this
      exact put (c := .acceptSetup i j p) (ht.initSocket hfree .SOCK_STREAM true)
  | acceptSetup i j p =>
    have hone : Accounts (s.endCall (.acceptSetup i j p)) given (0 + refsTo p 1)
      (0 + refsTo j 1) := ht
    have hused := hone.owned
    exact put (c := .acceptInstall j) (hone.connected
      (fun q _ ha => nomatch hused.symm.trans ha) 1 (s.sockets i).blocking)
  | acceptInstall j =>
    rw [UnixDomain.next]
    split_ifs
    · refine putFile (f := .full j _) ht fun i generation hi => ?_
      obtain ⟨rfl, rfl⟩ := File.full.inj hi
      rfl
    · exact h.goto hc rfl rfl
  | connect i path =>
    change Accounts _ given 0 0
    rw [UnixDomain.next]
    split_ifs
    · exact h.goto hc rfl rfl
    · exact h.finish hc rfl rfl
  | connectLookup i path =>
    rw [UnixDomain.next]
    split
    · exact h.goto hc rfl rfl
    · exact h.finish hc rfl rfl
  | connectAcquire i t generation =>
    have hf := h.finish hc rfl rfl
    change Accounts _ given 0 0
    rw [UnixDomain.next]
    split_ifs with ha
    · exact put (c := .connectQueue i t generation) (hf.retainSocket ha)
    · exact hf
  | connectQueue i t generation => exact h.connectQueue hc ok
  | connectFinish i t p =>
    have hset : ∀ {g : PairIdx → Nat}, Accounts (s.endCall (.connectFinish i t p)) g
        (0 + refsTo p 1) (0 + refsTo t 1) →
        (∀ q, g q = 0 → (s.sockets i).allocated = false → refsTo p 1 q = 0) →
          Accounts (s.next (.connectFinish i t p) ok) (g + s.pairOf i) 0 0 := fun hg hfree =>
      put (c := .release t) (hg.connected hfree 0 (s.sockets i).blocking)
    by_cases ha : (s.sockets i).allocated = true
    · have hd : s.dropped (.connectFinish i t p) = s.pairOf i := if_pos ha
      rw [hd]
      exact hset ht fun q _ hn => nomatch ha.symm.trans hn
    have hd : s.dropped (.connectFinish i t p) = refsTo p 1 + s.pairOf i :=
      (if_neg ha).trans (funext fun _ => Nat.add_comm ..)
    have hsum : given + (refsTo p 1 + s.pairOf i) = given + refsTo p 1 + s.pairOf i :=
      funext fun _ => (Nat.add_assoc ..).symm
    rw [hd, hsum]
    exact hset (ht.giveUp _) fun q hg _ => Nat.eq_zero_of_add_eq_zero_left hg
  | shutdown i how =>
    have hf := h.finish hc rfl rfl
    rw [UnixDomain.next]
    split
    · split_ifs
      · exact hf
      · exact hf.keepPair (shutdownWrite_kept ..).1 (shutdownWrite_kept ..).2
    · exact hf
  | close i => exact put (c := .release i) (closeSocket ht i)
  | release i =>
    have hone : Accounts (s.endCall (.release i)) given 0 (0 + refsTo i 1) := ht
    rw [UnixDomain.next]
    by_cases hlast : (s.sockets i).refcount - 1 = 0
    · have hd : s.dropped (.release i) = (s.sockets i).holds 2 := if_pos hlast
      have hfree := hone.freeSocket hlast
      rw [if_pos hlast, hd]
      cases (s.sockets i).bound_path with
      | none => exact hfree
      | some path => exact put (c := .unregister path) hfree
    · have hd : s.dropped (.release i) = 0 := if_neg hlast
      rw [if_neg hlast, hd]
      exact hone.releaseSocket hlast
  | unregister path =>
    have hf := h.finish hc rfl rfl
    exact hf.moved rfl rfl (fun _ => rfl) (fun _ => rfl) hf.files

/-- A call begins that holds nothing. -/
theorem begin (f : File) (call : SocketIdx → Call)
    (hr : ∀ i, (call i).refs = 0) (ho : ∀ i, (call i).owners = 0) :
    Accounts (s.begin f call) given 0 0 := by
  unfold UnixDomain.begin
  split
  · next i generation =>
      split_ifs
      · refine put ?_
        rw [hr, ho]
        exact h
      · exact h
  · exact h

theorem closeFile (hf : f ∈ s.files) :
    Accounts (s.closeFile f) given 0 0 := by
  have ht := h.takeFile hf
  cases f with
  | full i generation =>
    have hone : Accounts (s.endFile (.full i generation)) given 0 (0 + refsTo i 1) := ht
    have hused : (s.sockets i).allocated = true := hone.owned
    have hgen := h.files i generation hf
    have heq : s.closeFile (.full i generation) =
      (s.endFile (.full i generation)).addCall (.close i) := if_pos ⟨hused, hgen⟩
    rw [heq]
    exact put (c := .close i) ht
  | half p endpoint =>
    have hone : Accounts (s.endFile (.half p endpoint)) given (0 + refsTo p 1) 0 := ht
    exact hone.releasePair endpoint

/-- **Every step keeps the accounts.** -/
theorem step (i : UnixStep) :
    Accounts (unixStep s i) (lostAfter given s i) 0 0 := by
  cases i with
  | socket t nonblock =>
    rw [unixStep]
    cases hi : s.freeSocket with
    | none => exact h
    | some i =>
      have hfree : (s.sockets i).allocated = false := by
        have := find?_some hi
        rwa [not_eq_true'] at this
      exact put (c := .socketInstall i) (h.initSocket hfree t !nonblock)
  | socketpair =>
    rw [unixStep]
    cases hp : s.freePair with
    | none => exact h
    | some p =>
      have hfree : (s.pairs p).allocated = false := by
        have := find?_some hp
        rwa [not_eq_true'] at this
      exact put (c := .pairInstall p) (h.initPair hfree (by omega))
  | bind f path => exact h.begin f (.bind · path) (fun _ => rfl) fun _ => rfl
  | listen f backlog => exact h.begin f (.listen · backlog) (fun _ => rfl) fun _ => rfl
  | accept f => exact h.begin f .accept (fun _ => rfl) fun _ => rfl
  | connect f path => exact h.begin f (.connect · path) (fun _ => rfl) fun _ => rfl
  | shutdown f how =>
    cases f with
    | full i generation => 
      exact h.begin (.full i generation) (.shutdown · how) (fun _ => rfl) fun _ => rfl
    | half p endpoint =>
      rw [unixStep]
      split_ifs
      · exact h.keepPair (shutdown_kept ..).1 (shutdown_kept ..).2
      · exact h
  | close f =>
    rw [unixStep]
    split_ifs with hf
    · exact h.closeFile hf
    · exact h
  | next c ok =>
    rw [unixStep, lostAfter]
    by_cases hc : c ∈ s.calls
    · rw [if_pos hc, if_pos hc]
      exact h.next hc ok
    · rw [if_neg hc, if_neg hc]
      exact h

/-- Where no reference was given up, nothing but the holders of a pair names it. -/
theorem total_eq (hg : given p = 0) : s.total p = s.refs p := by
  unfold UnixDomain.total UnixDomain.refs UnixDomain.heldBy
  refine congrArg _ (Finset.sum_congr rfl fun i _ => ?_)
  cases ha : (s.sockets i).allocated with
  | true => rfl
  | false => exact h.clean p hg i ha

end

theorem refs_le (s : UnixDomain) (p : PairIdx) : s.refs p ≤ s.total p := by
  refine Nat.add_le_add_left (Finset.sum_le_sum fun i _ => ?_) _
  split_ifs
  · exact Nat.le_refl _
  · exact Nat.zero_le _

/-- **The accounts give the law.** -/
theorem law {x : UnixDomain × (PairIdx → Nat)} (h : Accounts x.1 x.2 0 0) (p : PairIdx) :
    PairLaw x p := by
  obtain ⟨n, hn, hz⟩ := h.pairs p
  have hall : x.2 p = 0 → RefCount (x.1.pairs p).allocated (x.1.pairs p).refcount (x.1.refs p) := by
    intro hg
    have heq : x.1.total p + n + (0 : PairIdx → Nat) p = x.1.refs p := by
      rw [hz hg, h.total_eq hg, Pi.zero_apply, Nat.add_zero, Nat.add_zero]
    exact heq ▸ hn
  exact {
    count := fun hg ha => ((hall hg).held ha).1
    last := fun hg => ⟨fun ha => ((hall hg).held ha).2, fun hp => (hall hg).used_of_pos hp⟩
    free := fun ha => by
      have hzero := Nat.eq_zero_of_add_eq_zero_right (Nat.eq_zero_of_add_eq_zero_right (hn.free ha))
      exact Nat.eq_zero_of_le_zero (hzero ▸ refs_le x.1 p) }

end Accounts

def somePath : UnixPath := ⟨[47, 115], false⟩

/-- A listener, and a client that has connected. -/
def connectRun : List UnixStep :=
  [.socket .SOCK_STREAM false, .next (.socketInstall 0) true,
    .bind (.full 0 1) somePath, .next (.bind 0 somePath) true,
    .next (.bindRegister 0 somePath) true, .next (.bindFinish 0 somePath) true,
    .listen (.full 0 1) 5, .next (.listen 0 5) true,
    .socket .SOCK_STREAM false, .next (.socketInstall 1) true,
    .connect (.full 1 2) somePath, .next (.connect 1 somePath) true,
    .next (.connectLookup 1 somePath) true, .next (.connectAcquire 1 0 1) true,
    .next (.connectQueue 1 0 1) true, .next (.connectFinish 1 0 0) true, .next (.release 0) true]

def acceptRun : List UnixStep :=
  [.accept (.full 0 1), .next (.accept 0) true, .next (.acceptRelease 0 0) true,
    .next (.acceptAllocate 0 0) true, .next (.acceptSetup 0 2 0) true,
    .next (.acceptInstall 2) true]

theorem noSockets : unixTracked.Reachable ({}, 0) := .start ⟨rfl, rfl⟩

/-- After `connect` one connection is queued. -/
theorem queue_fits_connected : ∃ s, Fits s ∧ (s.sockets 0).accept_queue.length = 1 := by
  have hstart : unixMachine.Reachable {} := .start rfl
  exact ⟨_, queue_fits (hstart.exec connectRun), by decide +kernel⟩

end Zigk.Unix
