/-
  Subject:   THE TABLES OF THE TCP MODULE (state.zig) and what its entry points do with them.

  A TCB is named by its generation, which is never given out twice. The memory is a map from names
  to TCBs; `half_open_next` and `half_open_prev` of all TCBs are the links of one intrusive list.

  * `allocateTcb`, `freeTcb`, `findTcbIp`, `findListeningTcbIp`, `evictOldestHalfOpenTcbUnlocked`
    -- the functions of state.zig;
  * `admitSyn`, `processListenPacket`, `receiveFor`, `processPacket` -- an incoming segment;
    `connectIp`, `listenIp`, `processTimers`, `handleIcmpErrorIp`, `call` -- the other entries;
  * `tcpModule` -- the module as a machine, one entry after the other.

  What happens to the TCB itself is the business of `handle`. Lookup in the hash table is lookup in
  the list of its entries, newest first: equal keys share a bucket, and buckets grow at the front.
-/
import Zigk.Base.Intrusive
import Zigk.Tcp.Connection

namespace Zigk.Tcp

open List

/-! ## 1. The state -/

abbrev TcbId := Nat

structure Module where
  tcb : TcbId → Tcb
  pool : List TcbId
  hash : List TcbId
  listenTcbs : List TcbId
  halfOpen : Links TcbId
  halfOpenCount : Nat
  generation : Nat
  now : Nat
  msPerTick : Nat
  panicked : Bool

/-- `init`. -/
def Module.init (ticksPerSec : Nat) : Module where
  tcb _ := Tcb.init
  pool := []
  hash := []
  listenTcbs := []
  halfOpen := .empty
  halfOpenCount := 0
  generation := 0
  now := 0
  msPerTick := tickLength ticksPerSec
  panicked := false

deriving instance DecidableEq for Endpoints

def Tcb.endpoints (t : Tcb) : Endpoints := ⟨t.localAddr, t.localPort, t.remoteAddr, t.remotePort⟩

/-- The connection a packet belongs to, seen from here. -/
def Packet.endpoints (p : Packet) : Endpoints :=
  match p.ip with
  | .v4 _ _ _ src dst => ⟨.v4 dst, p.tcp.dstPort, .v4 src, p.tcp.srcPort⟩
  | .v6 _ _ _ _ src dst => ⟨.v6 dst, p.tcp.dstPort, .v6 src, p.tcp.srcPort⟩

/-- What an entry point meets: the environment of each TCB, the mutexes other CPUs hold, whether
    the heap has room for a TCB, the sequence number `generateIsnIp` yields, and whether a new
    connection waits in the accept queue. -/
structure Surroundings where
  env : TcbId → Env := fun _ => {}
  busy : TcbId → Bool := fun _ => false
  create : Bool := true
  iss : Seq := 0
  queued : Bool := true

namespace Module

/-! ## 2. The functions of state.zig -/

def env (m : Module) (s : Surroundings) (i : TcbId) : Env :=
  { s.env i with now := m.now, msPerTick := m.msPerTick }

def put (m : Module) (i : TcbId) (t : Tcb) : Module := { m with tcb := Function.update m.tcb i t }

/-- `allocateTcb`, with the addresses its callers write next. -/
def allocateTcb (m : Module) (create : Bool) (e : Endpoints) : Option (TcbId × Module) :=
  if m.pool.length ≥ MAX_TCBS then none
  else if create then
    let i := m.generation + 1
    some (i, { m.put i (newTcb e m.now i) with pool := m.pool ++ [i], generation := i })
  else none

/-- A TCB leaves the half-open list. -/
def leaveHalfOpen (m : Module) (i : TcbId) : Module :=
  { m with halfOpen := m.halfOpen.remove i, halfOpenCount := m.halfOpenCount - 1 }

/-- The search through `tcb_pool` or `listen_tcbs`, and the `swapRemove` of what was found. -/
def removeFrom (l : List TcbId) (i : TcbId) : List TcbId :=
  if i ∈ l then swapRemove l (l.idxOf i) else l

/-- `freeTcb`. `reset` writes the initial values into the memory, its links included. -/
def freeTcb (m : Module) (i : TcbId) : Module :=
  let m := if (m.tcb i).state = .SynReceived then m.leaveHalfOpen i else m
  { m.put i Tcb.init with
    hash := m.hash.erase i
    listenTcbs := removeFrom m.listenTcbs i
    pool := removeFrom m.pool i
    halfOpen := (m.halfOpen.setNext i none).setPrev i none }

def insertTcbIntoHash (m : Module) (i : TcbId) : Module := { m with hash := i :: m.hash }

def findTcbIp (m : Module) (e : Endpoints) : Option TcbId :=
  m.hash.find? fun i => decide ((m.tcb i).endpoints = e)

/-- The first of the least loaded listeners. -/
def leastLoaded (m : Module) (l : List TcbId) : Option TcbId :=
  l.foldl (fun best i =>
    match best with
    | none => some i
    | some b =>
      if (m.tcb i).listenAcceptCount < (m.tcb b).listenAcceptCount then some i else some b) none

end Module

/-- A listener bound to this address takes connections to the other one. -/
def IpAddr.wildcardFor (a b : IpAddr) : Bool :=
  a.isUnspecified && match a with
    | .none => true
    | .v4 _ => b.isV4
    | .v6 _ => b.isV6

namespace Module

def findListeningTcbIp (m : Module) (localPort : BitVec 16) (localAddr : IpAddr) : Option TcbId :=
  let l := m.listenTcbs.filter fun i =>
    decide ((m.tcb i).localPort = localPort) && decide ((m.tcb i).state = .Listen)
  let exact := l.filter fun i => decide ((m.tcb i).localAddr = localAddr)
  let wild := l.filter fun i =>
    decide ((m.tcb i).localAddr ≠ localAddr) && (m.tcb i).localAddr.wildcardFor localAddr
  (m.leastLoaded exact).or (m.leastLoaded wild)

/-- The flag tells whether a TCB was evicted. -/
def evictOldestHalfOpenTcbUnlocked (m : Module) (busy : TcbId → Bool) : Module × Bool :=
  match m.halfOpen.head with
  | none => (m, false)
  | some i =>
    if (m.tcb i).state ≠ .SynReceived then ({ m with halfOpen := m.halfOpen.remove i }, false)
    else if busy i then (m, false)
    else ((m.put i { m.tcb i with closing := true }).freeTcb i, true)

/-! ## 3. An incoming segment -/

/-- A handler is done with a TCB; the flag tells whether the TCB is to be freed. -/
def settle (m : Module) (i : TcbId) (r : Ctx × Bool) : Module :=
  let m := { m.put i r.1.tcb with panicked := m.panicked || r.1.panicked }
  if r.2 then m.freeTcb i else m

/-- The limit on half-open connections. The flag tells whether there is room for one more. -/
def makeRoom (m : Module) (busy : TcbId → Bool) : Module × Bool :=
  if m.halfOpenCount ≥ MAX_HALF_OPEN then m.evictOldestHalfOpenTcbUnlocked busy else (m, true)

/-- What `processListenPacket` does in one piece under the state lock: make room, allocate, fill in,
    insert. -/
def admitSyn (m : Module) (s : Surroundings) (listener : Tcb) (p : Packet) : Module × Option TcbId :=
  let r := m.makeRoom s.busy
  if r.2 then
    match r.1.allocateTcb s.create p.endpoints with
    | none => (r.1, none)
    | some (i, m) =>
      let m := m.put i (passiveTcb (m.tcb i) listener p s.iss)
      let m := { m with
        halfOpenCount := m.halfOpenCount + 1
        halfOpen := m.halfOpen.insertTail i }
      (m.insertTcbIntoHash i, some i)
  else (r.1, none)

/-- The SYN-ACK. Where it does not get out the TCB is freed again. -/
def answer (m : Module) (s : Surroundings) (i : TcbId) (p : Packet) : Module :=
  let r := answerSyn (m.env s i) { tcb := m.tcb i } p
  m.settle i (r.1, !r.2)

/-- `processListenPacket` and `processListenPacket6`. -/
def processListenPacket (m : Module) (s : Surroundings) (l : TcbId) (p : Packet) : Module :=
  if opensConnection p then
    match m.admitSyn s (m.tcb l) p with
    | (m, none) => m
    | (m, some i) => m.answer s i p
  else m

/-- The listener of the socket `parent` counts a connection it took. -/
def countAccept (m : Module) (parent : Option Nat) : Module :=
  match m.listenTcbs.find? fun l =>
      decide ((m.tcb l).parentSocket = parent) && decide ((m.tcb l).state = .Listen) with
  | some l => m.put l { m.tcb l with listenAcceptCount := (m.tcb l).listenAcceptCount + 1 }
  | none => m

/-- `handleSynReceivedEstablished`, behind `processSynReceivedLocked`. -/
def acceptOrReset (m : Module) (s : Surroundings) (i : TcbId) (c : Ctx) : Module :=
  let r := handleSynReceivedEstablished (m.env s i) c
  let m := m.settle i (r.1, decide (r.2 = .FreeTcb))
  if decide (r.2 = .Continue) && s.queued then m.countAccept c.tcb.parentSocket else m

/-- A segment for a known TCB. -/
def receiveFor (m : Module) (s : Surroundings) (i : TcbId) (p : Packet) : Module :=
  let c : Ctx := { tcb := m.tcb i }
  if (m.tcb i).closing then m
  else if (m.tcb i).state = .SynReceived then
    let r := processSynReceivedLocked (m.env s i) c p
    if r.2 then (m.leaveHalfOpen i).acceptOrReset s i r.1 else m.settle i (r.1, false)
  else
    let r := processEstablishedPacket (m.env s i) c p
    m.settle i (r.1, decide (r.2 = .FreeTcb))

/-- `processPacket` and `processPacket6`. A segment nobody waits for is answered by a RST. -/
def processPacket (m : Module) (s : Surroundings) (p : Packet) : Module :=
  if p.valid then
    match m.findTcbIp p.endpoints with
    | some i => m.receiveFor s i p
    | none =>
      match m.findListeningTcbIp p.endpoints.localPort p.endpoints.localAddr with
      | some l => if (m.tcb l).closing then m else m.processListenPacket s l p
      | none => m
  else m

/-! ## 4. The other entry points -/

/-- `connectIp`, then the settings of the socket. -/
def connectIp (m : Module) (s : Surroundings) (e : Endpoints) (o : SocketSettings) : Module :=
  match m.findTcbIp e with
  | some _ => m
  | none =>
    match m.allocateTcb s.create e with
    | none => m
    | some (i, m) =>
      let m := (m.put i (activeTcb (m.tcb i) s.iss)).insertTcbIntoHash i
      let r := sendFirstSyn (m.env s i) { tcb := m.tcb i }
      m.settle i (if r.2 then r.1.upd o.apply else r.1, !r.2)

/-- `listenIp`; `append` tells whether the heap has room for one more listener. -/
def listenIp (m : Module) (s : Surroundings) (localAddr : IpAddr) (localPort : BitVec 16) (sock : Nat)
    (append : Bool) : Module :=
  match m.allocateTcb s.create ⟨localAddr, localPort, .none, 0⟩ with
  | none => m
  | some (i, m) =>
    let m := m.put i { m.tcb i with state := .Listen, parentSocket := some sock }
    if append then { m with listenTcbs := m.listenTcbs ++ [i] } else m.freeTcb i

/-- The body of the loop of `processTimers`, for the TCB at place `n` of the pool. -/
def timersAt (m : Module) (s : Surroundings) (n : Nat) : Module :=
  match m.pool[n]? with
  | none => m
  | some i => if s.busy i then m else m.settle i (processTcbTimers (m.env s i) { tcb := m.tcb i })

/-- The loop runs backward: a removal fills the place with a TCB that was already visited. -/
def timersBelow (m : Module) (s : Surroundings) : Nat → Module
  | 0 => m
  | n + 1 => (m.timersAt s n).timersBelow s n

/-- `tick`, then `processTimers`. -/
def processTimers (m : Module) (s : Surroundings) : Module :=
  let m := { m with now := m.now + m.msPerTick }
  m.timersBelow s m.pool.length

def handleIcmpErrorIp (m : Module) (e : Endpoints) (icmpType : Nat) (seqNum : Option Seq) : Module :=
  match m.findTcbIp e with
  | none => m
  | some i => m.settle i (handleIcmpError { tcb := m.tcb i } icmpType seqNum)

end Module

/-- The calls of the socket layer. -/
def Event.isCall : Event → Bool
  | .packet _ | .tick _ | .icmp .. => false
  | _ => true

/-- A call on the TCB of a socket. -/
def Module.call (m : Module) (s : Surroundings) (i : TcbId) (e : Event) : Module :=
  if e.isCall && decide (i ∈ m.pool) then m.settle i (handle (m.env s i) (m.tcb i) e) else m

/-! ## 5. The machine -/

inductive ModuleEvent where
  | segment (p : Packet)
  | tick
  | icmp (e : Endpoints) (icmpType : Nat) (seqNum : Option Seq)
  | connect (e : Endpoints) (o : SocketSettings)
  | listen (localAddr : IpAddr) (localPort : BitVec 16) (sock : Nat) (append : Bool)
  | call (i : TcbId) (e : Event)

def moduleEntry (m : Module) (s : Surroundings) : ModuleEvent → Module
  | .segment p => m.processPacket s p
  | .tick => m.processTimers s
  | .icmp e icmpType seqNum => m.handleIcmpErrorIp e icmpType seqNum
  | .connect e o => m.connectIp s e o
  | .listen a port sock append => m.listenIp s a port sock append
  | .call i e => m.call s i e

def moduleStep (m : Module) (x : Surroundings × ModuleEvent) : Module :=
  if m.panicked then m else moduleEntry m x.1 x.2

def tcpModule : Machine Module (Surroundings × ModuleEvent) where
  start m := ∃ ticksPerSec, m = Module.init ticksPerSec
  step := moduleStep

/-! ## 6. Removal from a table -/

section Tables

variable {l : List TcbId} {i : TcbId}

/-- The element found is the one removed. -/
theorem removeFrom_perm (h : i ∈ l) : (i :: Module.removeFrom l i).Perm l := by
  have hlt := idxOf_lt_length_of_mem h
  have hp := swapRemove_perm l hlt
  rw [getElem_idxOf hlt] at hp
  rw [Module.removeFrom, if_pos h]
  exact hp

theorem nodup_removeFrom (h : l.Nodup) : (Module.removeFrom l i).Nodup := by
  by_cases hi : i ∈ l
  · exact (nodup_cons.mp ((removeFrom_perm hi).nodup_iff.mpr h)).2
  · rw [Module.removeFrom, if_neg hi]
    exact h

theorem mem_removeFrom (h : l.Nodup) {j : TcbId} :
    j ∈ Module.removeFrom l i ↔ j ∈ l ∧ j ≠ i := by
  by_cases hi : i ∈ l
  · have hp := removeFrom_perm hi
    have hnot := (nodup_cons.mp (hp.nodup_iff.mpr h)).1
    rw [← hp.mem_iff, mem_cons]
    constructor
    · intro hj
      exact ⟨.inr hj, fun e => hnot (e ▸ hj)⟩
    · rintro ⟨hj, hne⟩
      exact hj.resolve_left hne
  · rw [Module.removeFrom, if_neg hi]
    exact ⟨fun hj => ⟨hj, fun e => hi (e ▸ hj)⟩, And.left⟩

/-- The places before the one removed keep their elements. -/
theorem getElem?_removeFrom (h : l.Nodup) {n k : Nat} (hn : l[n]? = some i) (hk : k < n) :
    (Module.removeFrom l i)[k]? = l[k]? := by
  obtain ⟨hlt, rfl⟩ := List.getElem?_eq_some_iff.mp hn
  have hlast : l.getLast? ≠ none := by
    intro hnone
    rw [getLast?_eq_none_iff.mp hnone] at hlt
    exact absurd hlt (Nat.not_lt_zero n)
  obtain ⟨a, ha⟩ := Option.ne_none_iff_exists'.mp hlast
  rw [Module.removeFrom, if_pos (getElem_mem hlt), h.idxOf_getElem n hlt]
  simp only [swapRemove, ha]
  rw [getElem?_dropLast, if_pos (by rw [length_set]; omega), getElem?_set_ne (by omega)]

end Tables

/-! ## 7. Frames -/

namespace Module

variable (m : Module) (i : TcbId)

@[simp] theorem freeTcb_pool : (m.freeTcb i).pool = removeFrom m.pool i := by
  unfold freeTcb
  split <;> rfl

@[simp] theorem freeTcb_hash : (m.freeTcb i).hash = m.hash.erase i := by
  unfold freeTcb
  split <;> rfl

@[simp] theorem freeTcb_listenTcbs : (m.freeTcb i).listenTcbs = removeFrom m.listenTcbs i := by
  unfold freeTcb
  split <;> rfl

@[simp] theorem freeTcb_generation : (m.freeTcb i).generation = m.generation := by
  unfold freeTcb
  split <;> rfl

theorem freeTcb_tcb : (m.freeTcb i).tcb = Function.update m.tcb i Tcb.init := by
  unfold freeTcb
  split <;> rfl

@[simp] theorem freeTcb_env (s : Surroundings) (j : TcbId) : (m.freeTcb i).env s j = m.env s j := by
  unfold freeTcb
  split <;> rfl

/-- Where a handler does not free its TCB only the TCB changes. -/
theorem settle_kept (c : Ctx) :
    m.settle i (c, false) = { m.put i c.tcb with panicked := m.panicked || c.panicked } := rfl

theorem settle_freed (c : Ctx) :
    m.settle i (c, true) = { m.put i c.tcb with panicked := m.panicked || c.panicked }.freeTcb i := rfl

end Module

end Zigk.Tcp
