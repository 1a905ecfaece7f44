/-
  Subject:   SENDING: what one call of the TCP module reads from outside, what it hands out, and
             the segments it builds (tx/segment.zig, tx/control.zig).

  A function of the code that works on a TCB becomes a function on a `Ctx`: the TCB together with
  what the call has handed out so far. What lies outside the TCP module is read from an `Env`:

  * the clock, the path MTU caches, the timestamp counter, pending requests of the socket layer;
  * whether the `k`-th thing handed out reaches the wire (`link`): interface, buffers and the
    driver; an unresolved IPv6 neighbour (`ready = false`) keeps every segment of an IPv6
    connection in.

  A segment is recorded when it is handed to `sendSegment` (or to one of the functions that build
  options), with `sent` telling whether it got out. `held` is no part of the segment: it records
  the out-of-order blocks held at that moment.
-/
import Zigk.Tcp.Options

namespace Zigk.Tcp

/-! ## 1. Environment, effects, context -/

structure Env where
  /-- `connection_timestamp`, milliseconds. -/
  now : Nat := 0
  msPerTick : Nat := 1
  link : Nat → Bool := fun _ => true
  ready : Bool := true
  /-- `lookupPmtu` for the IPv4 address of the peer (0 for an IPv6 connection). -/
  pmtu : Nat := 1500
  pmtu6 : Nat := 1500
  /-- What `nextTimestamp` yields. -/
  timestamp : Seq := 0
  /-- An asynchronous receive waits on the socket (`completePendingRecv` succeeds). -/
  pendingRecv : Bool := false
  /-- The listening socket takes the new connection (`completePendingAccept` or
      `queueAcceptConnection` succeeds). -/
  accepts : Bool := true

structure Segment where
  flags : Flags
  seq : Seq
  ack : Seq
  window : Nat
  options : List Byte
  data : List Byte
  sent : Bool
  held : List OooBlock

inductive Effect where
  | segment (s : Segment)
  | wake (thread : Nat)
  | connectDone (socket : Nat) (ok : Bool)
  | recvDone (socket : Nat) (data : List Byte)

/-- The segments among the effects, in order. -/
def segments : List Effect → List Segment
  | [] => []
  | .segment s :: l => s :: segments l
  | _ :: l => segments l

@[simp] theorem segments_append (l l' : List Effect) :
    segments (l ++ l') = segments l ++ segments l' := by
  induction l with
  | nil => rfl
  | cons e l ih => cases e <;> simp [segments, ih]

@[simp] theorem segments_segment (s : Segment) : segments [.segment s] = [s] := rfl
structure Ctx where
  tcb : Tcb
  out : List Effect := []
  /-- A bounds check failed: the kernel stops. -/
  panicked : Bool := false

def Ctx.upd (c : Ctx) (f : Tcb → Tcb) : Ctx := { c with tcb := f c.tcb }

def Ctx.emit (c : Ctx) (e : Effect) : Ctx := { c with out := c.out ++ [e] }

/-- Waking the thread that is blocked on the connection. -/
def Ctx.wakeBlocked (c : Ctx) : Ctx :=
  match c.tcb.blockedThread with
  | some thread => (c.emit (.wake thread)).upd fun t => { t with blockedThread := none }
  | none => c

/-! ## 2. The senders -/

/-- The segment `sendSegment` builds, for both address families, and whether it gets out. -/
def buildSegment (env : Env) (c : Ctx) (flags : Flags) (seq ack : Seq) (data : List Byte) :
    Segment where
  flags := flags
  seq := seq
  ack := ack
  window := c.tcb.currentRecvWindow
  options := []
  data := data
  sent := decide (data.length ≤ MAX_TCP_PAYLOAD) && env.link c.out.length &&
    (!c.tcb.isIpv6 || env.ready)
  held := c.tcb.oooBlocks

/-- `sendSegment`. -/
def sendSegment (env : Env) (c : Ctx) (flags : Flags) (seq ack : Seq) (data : List Byte) :
    Ctx × Bool :=
  let s := buildSegment env c flags seq ack data
  (c.emit (.segment s), s.sent)

/-- A header with options and no payload, as `sendSyn`, `sendSynAckWithOptions` and
    `sendAckWithOptions` build it. -/
def sendWithOptions (env : Env) (c : Ctx) (flags : Flags) (seq ack : Seq) (options : List Byte) :
    Ctx × Bool :=
  let s := { buildSegment env c flags seq ack [] with
    options := options
    sent := env.link c.out.length }
  (c.emit (.segment s), s.sent)

/-- `sendSyn`. The IPv6 variant gives up before it builds the options. -/
def sendSyn (env : Env) (c : Ctx) : Ctx × Bool :=
  if c.tcb.isIpv6 && !env.ready then (c, false)
  else
    let (options, t) := buildSynOptions c.tcb false none env.timestamp
    sendWithOptions env { c with tcb := t } { syn := true } t.iss 0 options

/-- `sendSynAckWithOptions`; `sendSynAck` is the call without peer options. -/
def sendSynAckWithOptions (env : Env) (c : Ctx) (peerOpts : Option TcpOptions) : Ctx × Bool :=
  if c.tcb.isIpv6 && !env.ready then (c, false)
  else
    let (options, t) := buildSynOptions c.tcb true peerOpts env.timestamp
    sendWithOptions env { c with tcb := t } { syn := true, ack := true } t.iss t.rcvNxt options

/-- `sendAck`: with a SACK option where blocks are held. -/
def sendAck (env : Env) (c : Ctx) : Ctx × Bool :=
  let c := c.upd fun t => { t with ackPending := false, ackDue := 0 }
  if c.tcb.sackOk && decide (0 < c.tcb.rcvSackBlocks.length) then
    if c.tcb.isIpv6 && !env.ready then (c, false)
    else sendWithOptions env c { ack := true } c.tcb.sndNxt c.tcb.rcvNxt (buildSackOptions c.tcb)
  else sendSegment env c { ack := true } c.tcb.sndNxt c.tcb.rcvNxt []

/-- `sendFin`. -/
def sendFin (env : Env) (c : Ctx) : Ctx × Bool :=
  sendSegment env c { fin := true, ack := true } c.tcb.sndNxt c.tcb.rcvNxt []

/-- `sendRst`. -/
def sendRst (env : Env) (c : Ctx) : Ctx × Bool :=
  sendSegment env c { rst := true } c.tcb.sndNxt 0 []

/-! ## 3. What a call adds to the output -/

/-- From `c` to `c'` the output only grows, by segments with the property `P`. -/
def Ctx.Adds (P : Segment → Prop) (c c' : Ctx) : Prop :=
  ∃ l, c'.out = c.out ++ l ∧ ∀ s ∈ segments l, P s

namespace Ctx.Adds

variable {P Q : Segment → Prop} {c c' c'' : Ctx}

theorem rfl : Adds P c c := ⟨[], by simp, by simp [segments]⟩

theorem of_out_eq (h : c'.out = c.out) : Adds P c c' := ⟨[], by simp [h], by simp [segments]⟩

theorem trans (h : Adds P c c') (h' : Adds P c' c'') : Adds P c c'' := by
  obtain ⟨l, e, hl⟩ := h
  obtain ⟨l', e', hl'⟩ := h'
  refine ⟨l ++ l', by rw [e', e, List.append_assoc], fun s hs => ?_⟩
  rw [segments_append, List.mem_append] at hs
  exact hs.elim (hl s) (hl' s)

theorem mono (h : Adds P c c') (hPQ : ∀ s, P s → Q s) : Adds Q c c' := by
  obtain ⟨l, e, hl⟩ := h
  exact ⟨l, e, fun s hs => hPQ s (hl s hs)⟩

theorem emit_segment {s : Segment} (h : P s) : Adds P c (c.emit (.segment s)) :=
  ⟨[.segment s], Eq.refl _, by simpa using h⟩

end Ctx.Adds

/-- A segment without payload and without FIN. -/
def Segment.Control (s : Segment) : Prop := s.data = [] ∧ s.flags.fin = false

/-- What a segment says about the receive side of the TCB `t` it was built from: it acknowledges
    `rcv_nxt`, its SACK option is the list of blocks the TCB keeps for it. -/
def Segment.Reports (t : Tcb) (s : Segment) : Prop :=
  sackRanges s.options = [] ∨
    t.sackOk = true ∧ sackRanges s.options = t.rcvSackBlocks.take OOO_SLOTS ∧
      s.ack = t.rcvNxt ∧ s.held = t.oooBlocks

section Senders

variable (env : Env) (c : Ctx)

@[simp] theorem upd_tcb (f : Tcb → Tcb) : (c.upd f).tcb = f c.tcb := rfl
@[simp] theorem upd_out (f : Tcb → Tcb) : (c.upd f).out = c.out := rfl
@[simp] theorem wakeBlocked_core : c.wakeBlocked.tcb.core = c.tcb.core := by
  unfold Ctx.wakeBlocked
  split <;> rfl

theorem wakeBlocked_adds (P : Segment → Prop) : c.Adds P c.wakeBlocked := by
  unfold Ctx.wakeBlocked
  split
  · exact ⟨_, rfl, by simp [segments]⟩
  · exact .rfl

/-- An acknowledgement changes nothing but the delayed-ACK timer. -/
theorem sendAck_tcb : (sendAck env c).1.tcb = { c.tcb with ackPending := false, ackDue := 0 } := by
  unfold sendAck
  simp only
  split_ifs <;> rfl

@[simp] theorem sendAck_core : (sendAck env c).1.tcb.core = c.tcb.core := by
  rw [sendAck_tcb]
  rfl

theorem sendAck_adds :
    c.Adds (fun s => s.Control ∧ s.Reports c.tcb) (sendAck env c).1 := by
  unfold sendAck
  simp only
  split_ifs with h hr
  · exact .of_out_eq rfl
  · refine ⟨_, rfl, fun s hs => ?_⟩
    rw [segments_segment, List.mem_singleton] at hs
    subst hs
    have hk : c.tcb.sackOk = true := by
      simp only [upd_tcb, Bool.and_eq_true] at h
      exact h.1
    refine ⟨⟨rfl, rfl⟩, .inr ⟨hk, ?_, rfl, rfl⟩⟩
    rw [sackRanges_buildSackOptions]
    simp only [upd_tcb, hk, if_true]
  · refine ⟨_, rfl, fun s hs => ?_⟩
    rw [segments_segment, List.mem_singleton] at hs
    subst hs
    exact ⟨⟨rfl, rfl⟩, .inl rfl⟩

theorem sendRst_adds : c.Adds (fun s => s.Control ∧ sackRanges s.options = []) (sendRst env c).1 :=
  .emit_segment ⟨⟨rfl, rfl⟩, rfl⟩

/-- Building SYN options writes only what the handshake negotiates. -/
theorem buildSynOptions_core (t : Tcb) (isSynAck : Bool) (o : Option TcpOptions) (ts : Seq) :
    (buildSynOptions t isSynAck o ts).2.core =
      { t.core with
        rcv.sackOk := t.sackOk || (isSynAck && o.any (·.sackPermitted)) } := by
  cases o with
  | none => cases isSynAck <;> simp [buildSynOptions, Tcb.core]
  | some o =>
    cases isSynAck <;> cases h1 : o.wscalePresent <;> cases h2 : o.sackPermitted <;>
      cases h3 : o.timestampPresent <;> simp [buildSynOptions, Tcb.core, h1, h2, h3]

theorem sendSyn_core : (sendSyn env c).1.tcb.core = c.tcb.core := by
  unfold sendSyn
  split
  · rfl
  · show (buildSynOptions c.tcb false none env.timestamp).2.core = _
    rw [buildSynOptions_core]
    simp [Tcb.core]

theorem sendSynAck_core : (sendSynAckWithOptions env c none).1.tcb.core = c.tcb.core := by
  unfold sendSynAckWithOptions
  split
  · rfl
  · show (buildSynOptions c.tcb true none env.timestamp).2.core = _
    rw [buildSynOptions_core]
    simp [Tcb.core]

end Senders

end Zigk.Tcp
