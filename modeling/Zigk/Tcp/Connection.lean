/-
  Subject:   ONE CONNECTION AS A MACHINE: the life of a TCB from its first segment to its end.

  * `Conn` -- the TCB, the clock, and the history the laws speak about: what the application has
    written and read, and every segment handed to the senders, in order;
  * `Event` -- everything that can happen to the TCB: a packet for its addresses, a call of the
    socket layer, a timer tick (with the mutex free or busy), an ICMP error;
  * `connection` -- the machine, started by `connectIp` or by a SYN on a listening socket.

  `received` is what `recv` returned. A freed TCB, and the kernel after a failed bounds check, do
  nothing any more (`live = false`).
-/
import Zigk.Base.Machine
import Zigk.Tcp.Timers

namespace Zigk.Tcp

open Serial (dist place)

/-! ## 1. States and events -/

structure Conn where
  tcb : Tcb
  now : Nat
  msPerTick : Nat
  live : Bool
  written : List Byte
  received : List Byte
  log : List Segment

inductive Event where
  | packet (p : Packet)
  | send (data : List Byte)
  | recv (bufLen : Nat)
  | shutdown
  | close
  | setsockopt (o : SockOpt)
  /-- A thread blocks on the connection. -/
  | block (thread : Nat)
  | tick (busy : Bool)
  | icmp (icmpType : Nat) (seqNum : Option Seq)

/-! ## 2. One event -/

/-- What the TCP module does with the TCB. The flag tells whether the TCB is freed. `processTimers`
    passes over a TCB whose mutex is taken. -/
def handle (env : Env) (t : Tcb) : Event → Ctx × Bool
  | .packet p =>
    let r := processPacket env { tcb := t } p
    (r.1, decide (r.2 = .FreeTcb))
  | .send data => ((send env { tcb := t } data).1, false)
  | .recv bufLen => ((recv env { tcb := t } bufLen).1, false)
  | .shutdown => (sendFinPacket env { tcb := t }, false)
  | .close => (close env { tcb := t }, true)
  | .setsockopt o => (setsockopt env { tcb := t } o, false)
  | .block thread => ({ tcb := { t with blockedThread := some thread } }, false)
  | .tick busy => if busy then ({ tcb := t }, false) else processTcbTimers env { tcb := t }
  | .icmp icmpType seqNum => handleIcmpError { tcb := t } icmpType seqNum

/-- What `send` accepted. -/
def Event.accepted (env : Env) (t : Tcb) : Event → List Byte
  | .send data =>
    match (Tcp.send env { tcb := t } data).2 with
    | .ok n => data.take n
    | .error _ => []
  | _ => []

/-- What `recv` returned. -/
def Event.returned (env : Env) (t : Tcb) : Event → List Byte
  | .recv bufLen =>
    match (Tcp.recv env { tcb := t } bufLen).2 with
    | .ok l => l
    | .error _ => []
  | _ => []

/-- The clock after `tcp.tick`, which comes before `processTimers` in every tick. -/
def Conn.clock (k : Conn) : Event → Nat
  | .tick _ => k.now + k.msPerTick
  | _ => k.now

/-- The environment of an event, with the clock of the connection. -/
def Conn.env (k : Conn) (i : Env × Event) : Env :=
  { i.1 with now := k.clock i.2, msPerTick := k.msPerTick }

def connStep (k : Conn) (i : Env × Event) : Conn :=
  if k.live then
    let r := handle (k.env i) k.tcb i.2
    { k with
      tcb := r.1.tcb
      now := k.clock i.2
      live := !r.2 && !r.1.panicked
      written := k.written ++ i.2.accepted (k.env i) k.tcb
      received := k.received ++ i.2.returned (k.env i) k.tcb
      log := k.log ++ segments r.1.out }
  else k

/-! ## 3. Opening -/

/-- What `allocateTcb` and its callers know of a new TCB. -/
structure Endpoints where
  localAddr : IpAddr
  localPort : BitVec 16
  remoteAddr : IpAddr
  remotePort : BitVec 16

/-- `allocateTcb`, with the addresses its callers write next. -/
def newTcb (e : Endpoints) (now generation : Nat) : Tcb :=
  { Tcb.init with
    localAddr := e.localAddr
    localPort := e.localPort
    remoteAddr := e.remoteAddr
    remotePort := e.remotePort
    createdAt := now
    generation := generation }

/-- What the socket hands to the TCB of its connection after `connectIp`. -/
structure SocketSettings where
  sock : Nat
  nodelay : Bool
  rcvBufSize : Nat
  sndBufSize : Nat

def SocketSettings.apply (o : SocketSettings) (t : Tcb) : Tcb :=
  { t with
    parentSocket := some o.sock
    nodelay := o.nodelay
    rcvBufSize := o.rcvBufSize
    sndBufSize := o.sndBufSize }

/-- A connection at its birth, after the call that sent its first segment. -/
def Conn.born (now msPerTick : Nat) (c : Ctx) : Conn where
  tcb := c.tcb
  now := now
  msPerTick := msPerTick
  live := true
  written := []
  received := []
  log := segments c.out

/-- `connectIp`, then the settings of the socket. The flag tells whether the SYN got out. -/
def openActive (env : Env) (now msPerTick : Nat) (t0 : Tcb) (iss : Seq) (o : SocketSettings) :
    Conn × Bool :=
  let r := sendFirstSyn env { tcb := activeTcb t0 iss }
  (Conn.born now msPerTick (r.1.upd o.apply), r.2)

/-- `processListenPacket`. The flag tells whether the SYN-ACK got out. -/
def openPassive (env : Env) (now msPerTick : Nat) (t0 listener : Tcb) (p : Packet) (iss : Seq) :
    Conn × Bool :=
  let r := answerSyn env { tcb := passiveTcb t0 listener p iss } p
  (Conn.born now msPerTick r.1, r.2)

/-- `init` sets the milliseconds of a tick to `1000 / ticks_per_sec`, and to 1 where that is 0. -/
def tickLength (ticksPerSec : Nat) : Nat :=
  if ticksPerSec = 0 then 1 else if 1000 / ticksPerSec = 0 then 1 else 1000 / ticksPerSec

/-- The connections at their start. -/
inductive Opens : Conn → Prop where
  | active (env : Env) (now generation ticksPerSec : Nat) (e : Endpoints) (iss : Seq)
      (o : SocketSettings) {k : Conn}
      (h : openActive env now (tickLength ticksPerSec) (newTcb e now generation) iss o = (k, true)) :
      Opens k
  | passive (env : Env) (now generation ticksPerSec : Nat) (e : Endpoints) (listener : Tcb)
      (p : Packet) (iss : Seq) {k : Conn} (hv : p.valid = true) (ho : opensConnection p = true)
      (h : openPassive env now (tickLength ticksPerSec) (newTcb e now generation) listener p iss =
        (k, true)) : Opens k

def connection : Machine Conn (Env × Event) where
  start := Opens
  step := connStep

/-! ## 4. What a new connection looks like -/

instance : NeZero BUFFER_SIZE := ⟨nofun⟩

/-- The stream variables of a TCB before any data. -/
def freshCore (state : TcpState) (iss irs rcvNxt : Seq) (sackOk : Bool) (parent : Option Nat) :
    Core where
  state := state
  closing := false
  retransCount := 0
  snd := { iss := iss, sndUna := iss, sndNxt := iss + 1, send := .empty 0 }
  rcv :=
    { irs := irs, rcvNxt := rcvNxt, recv := .empty 0, oooBlocks := [], sackOk := sackOk,
      rcvSackBlocks := [], parentSocket := parent }

theorem sendFirstSyn_core (env : Env) (c : Ctx) : (sendFirstSyn env c).1.tcb.core = c.tcb.core := by
  rw [← sendSyn_core env c]
  unfold sendFirstSyn
  simp only
  split <;> rfl

theorem answerSyn_core (env : Env) (c : Ctx) (p : Packet) :
    ∃ k, (answerSyn env c p).1.tcb.core = { c.tcb.core with rcv.sackOk := k } := by
  have h : ∃ k, (sendSynAckWithOptions env c (some (parseOptions p))).1.tcb.core =
      { c.tcb.core with rcv.sackOk := k } := by
    unfold sendSynAckWithOptions
    split
    · exact ⟨_, rfl⟩
    · exact ⟨_, buildSynOptions_core c.tcb true (some (parseOptions p)) env.timestamp⟩
  obtain ⟨k, h⟩ := h
  refine ⟨k, ?_⟩
  rw [← h]
  unfold answerSyn
  simp only
  split <;> rfl

/-- A SYN and a SYN-ACK carry no data, no FIN and no SACK ranges. -/
theorem sendFirstSyn_adds (env : Env) (c : Ctx) :
    c.Adds (fun s => s.Control ∧ sackRanges s.options = []) (sendFirstSyn env c).1 := by
  have h : c.Adds (fun s => s.Control ∧ sackRanges s.options = []) (sendSyn env c).1 := by
    unfold sendSyn
    split
    · exact .rfl
    · exact .trans (.of_out_eq rfl)
        (.emit_segment ⟨⟨rfl, rfl⟩, sackRanges_buildSynOptions _ _ _ _⟩)
  unfold sendFirstSyn
  simp only
  split
  · exact h.trans (.of_out_eq rfl)
  · exact h

theorem answerSyn_adds (env : Env) (c : Ctx) (p : Packet) :
    c.Adds (fun s => s.Control ∧ sackRanges s.options = []) (answerSyn env c p).1 := by
  have h : c.Adds (fun s => s.Control ∧ sackRanges s.options = [])
      (sendSynAckWithOptions env c (some (parseOptions p))).1 := by
    unfold sendSynAckWithOptions
    split
    · exact .rfl
    · exact .trans (.of_out_eq rfl)
        (.emit_segment ⟨⟨rfl, rfl⟩, sackRanges_buildSynOptions _ _ _ _⟩)
  unfold answerSyn
  simp only
  split
  · exact h.trans (.of_out_eq rfl)
  · exact h

theorem Ctx.Adds.segments {P : Segment → Prop} {c c' : Ctx} (h : c.Adds P c') (h0 : c.out = []) :
    ∀ s ∈ segments c'.out, P s := by
  obtain ⟨l, e, hl⟩ := h
  rw [e, h0]
  exact hl

/-- What the handshake leaves of `passiveTcb`. -/
theorem passiveTcb_core (e : Endpoints) (now gen : Nat) (listener : Tcb) (p : Packet) (iss : Seq) :
    ∃ k, (passiveTcb (newTcb e now gen) listener p iss).core =
      freshCore .SynReceived iss p.tcp.seqNum (p.tcp.seqNum + 1) k listener.parentSocket := by
  obtain ⟨k, hk⟩ := takeListenOptions_core
    { newTcb e now gen with
      irs := p.tcp.seqNum
      rcvNxt := p.tcp.seqNum + 1
      iss := iss
      sndNxt := iss + 1
      sndUna := iss
      sndWnd := p.tcp.window.toNat } p
  refine ⟨k, ?_⟩
  have h : (passiveTcb (newTcb e now gen) listener p iss).core =
      { (takeListenOptions { newTcb e now gen with
          irs := p.tcp.seqNum
          rcvNxt := p.tcp.seqNum + 1
          iss := iss
          sndNxt := iss + 1
          sndUna := iss
          sndWnd := p.tcp.window.toNat } p).core with
        state := .SynReceived
        rcv.parentSocket := listener.parentSocket } := rfl
  rw [h, hk]
  rfl

/-- A connection before any data: the numbers of the handshake, empty rings, an empty queue. -/
structure Fresh (k : Conn) : Prop where
  core : ∃ st iss irs rcvNxt sackOk parent, (st = .SynSent ∨ st = .SynReceived ∧ rcvNxt = irs + 1) ∧
    k.tcb.core = freshCore st iss irs rcvNxt sackOk parent
  live : k.live = true
  written : k.written = []
  received : k.received = []
  log : ∀ s ∈ k.log, s.Control ∧ sackRanges s.options = []

/-- A new connection looks like one. -/
theorem Opens.fresh {k : Conn} (h : Opens k) : Fresh k := by
  cases h with
  | active env now gen tps e iss o h =>
    simp only [openActive, Prod.mk.injEq] at h
    obtain ⟨rfl, -⟩ := h
    have hc := sendFirstSyn_core env { tcb := activeTcb (newTcb e now gen) iss }
    refine ⟨⟨.SynSent, iss, 0, 0, false, some o.sock, .inl rfl, ?_⟩, rfl, rfl, rfl, ?_⟩
    · show { (sendFirstSyn env { tcb := activeTcb (newTcb e now gen) iss }).1.tcb.core with
        rcv.parentSocket := some o.sock } = _
      rw [hc]
      rfl
    · exact (sendFirstSyn_adds env _).segments rfl
  | passive env now gen tps e listener p iss hv ho h =>
    simp only [openPassive, Prod.mk.injEq] at h
    obtain ⟨rfl, -⟩ := h
    obtain ⟨k1, h1⟩ := passiveTcb_core e now gen listener p iss
    obtain ⟨k2, h2⟩ := answerSyn_core env { tcb := passiveTcb (newTcb e now gen) listener p iss } p
    refine ⟨⟨.SynReceived, iss, p.tcp.seqNum, p.tcp.seqNum + 1, k2, listener.parentSocket,
      .inr ⟨rfl, rfl⟩, ?_⟩, rfl, rfl, rfl, ?_⟩
    · refine h2.trans ?_
      simp only [h1]
      rfl
    · exact (answerSyn_adds env _ p).segments rfl

/-! ## 5. One step, seen from outside -/

section Step

variable {k : Conn} {i : Env × Event}

/-- After the end nothing happens. -/
theorem connStep_dead (h : k.live = false) : connStep k i = k := by
  rw [connStep, if_neg (by rw [h]; decide)]

theorem connStep_live (h : k.live = true) :
    connStep k i =
      { k with
        tcb := (handle (k.env i) k.tcb i.2).1.tcb
        now := k.clock i.2
        live := !(handle (k.env i) k.tcb i.2).2 && !(handle (k.env i) k.tcb i.2).1.panicked
        written := k.written ++ i.2.accepted (k.env i) k.tcb
        received := k.received ++ i.2.returned (k.env i) k.tcb
        log := k.log ++ segments (handle (k.env i) k.tcb i.2).1.out } := by
  rw [connStep, if_pos h]

/-- Only `send` accepts data. -/
theorem accepted_eq_nil {env : Env} {t : Tcb} {e : Event} (h : ∀ data, e ≠ .send data) :
    e.accepted env t = [] := by
  cases e with
  | send data => exact absurd rfl (h data)
  | packet | recv | shutdown | close | setsockopt | block | tick | icmp => rfl

/-- A step ends in a live connection only where the TCB was not freed. -/
theorem not_freed (h : k.live = true) (h' : (connStep k i).live = true) :
    (handle (k.env i) k.tcb i.2).2 = false := by
  rw [connStep_live h] at h'
  simp only [Bool.and_eq_true, Bool.not_eq_true'] at h'
  exact h'.1

/-- What holds of the old segments and of those a step sends holds of all. -/
theorem log_step {P : Segment → Prop} (h : k.live = true) (hold : ∀ s ∈ k.log, P s)
    (hnew : Ctx.Adds P { tcb := k.tcb } (handle (k.env i) k.tcb i.2).1) :
    ∀ s ∈ (connStep k i).log, P s := by
  intro s hs
  rw [connStep_live h, List.mem_append] at hs
  rcases hs with hs | hs
  · exact hold s hs
  · exact hnew.segments rfl s hs

end Step

/-! ## 6. A connection for concrete runs -/

/-- An IPv4 segment without options, as the IP layer hands it on. -/
def plainSegment (flags : Flags) (seq ack : Seq) (window : BitVec 16) (payload : List Byte) :
    Packet where
  ip := .v4 5 0 (.ofNat 16 (40 + payload.length)) 1 2
  tcp :=
    { srcPort := 80, dstPort := 4000, seqNum := seq, ackNum := ack, dataOffset := 5, flags := flags,
      window := window }
  rest := payload

/-- The client side of a connection with initial sequence number 100, its SYN sent. -/
def plainClient (ticksPerSec : Nat) : Conn :=
  (openActive {} 0 (tickLength ticksPerSec) (newTcb ⟨.v4 2, 4000, .v4 1, 80⟩ 0 1) 100
    ⟨0, false, 0, 0⟩).1

theorem plainClient_opens (ticksPerSec : Nat) : Opens (plainClient ticksPerSec) :=
  .active {} 0 1 ticksPerSec ⟨.v4 2, 4000, .v4 1, 80⟩ 100 ⟨0, false, 0, 0⟩ rfl

/-- The SYN-ACK that opens the client, from a peer with initial sequence number 500. -/
def plainSynAck (window : BitVec 16) : Env × Event :=
  ({}, .packet (plainSegment { syn := true, ack := true } 500 101 window []))

end Zigk.Tcp
