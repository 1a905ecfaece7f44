/-
  Subject:   THE RECEIVE PATH OF ONE CONNECTION (rx/root.zig, rx/syn.zig, rx/listen.zig): from a
             packet that was found to belong to a TCB to what is done with it.

  * `Packet.valid` -- what `processPacket` and `processPacket6` check before they look for a TCB;
  * `acceptable`, `pawsRejects` -- the tests in front of the state handlers;
  * `processSynSent`, `processSynReceivedLocked` -- the two halves of the handshake.

  The half-open list and the tables are the module's (Zigk/Tcp/Module.lean).
-/
import Zigk.Tcp.Established

namespace Zigk.Tcp

open Serial (dist place)

/-! ## 1. Validation -/

/-- The checks of `processPacket` (IPv4) and `processPacket6` (IPv6) on the packet itself. -/
def Packet.valid (p : Packet) : Bool :=
  decide (TCP_HEADER_SIZE ≤ p.tcp.getDataOffset) &&
    (match p.ip with
      | .v4 .. =>
        decide (p.ip.getHeaderLength ≤ p.ip.getTotalLength) &&
          decide (p.ip.getTotalLength - p.ip.getHeaderLength ≤ p.segmentLen)
      | .v6 _ _ payloadLength _ _ _ => decide (payloadLength.toNat ≤ p.segmentLen)) &&
    p.checksumOk && !(p.isBroadcast || p.isMulticast)

/-- The timestamp test: an acknowledgement with an old timestamp is dropped silently. -/
def pawsRejects (t : Tcb) (p : Packet) : Bool :=
  t.tsOk && p.tcp.flags.ack && (parseOptions p).timestampPresent &&
    seqLt (parseOptions p).tsVal t.tsRecent

/-- The timestamp of a segment that covers `rcv_nxt` is remembered. -/
def noteTimestamp (t : Tcb) (p : Packet) : Tcb :=
  if t.tsOk && p.tcp.flags.ack && (parseOptions p).timestampPresent &&
      seqLte p.tcp.seqNum t.rcvNxt &&
      seqGt (place p.tcp.seqNum (calculateSegmentLength p)) t.rcvNxt then
    { t with tsRecent := (parseOptions p).tsVal }
  else t

/-- The acceptability test on the sequence number. -/
def acceptable (t : Tcb) (p : Packet) : Bool :=
  let seq := p.tcp.seqNum
  let segLen := calculateSegmentLength p
  let rcvWnd := t.currentRecvWindow
  if segLen = 0 then
    if rcvWnd = 0 then decide (seq = t.rcvNxt) else decide (dist t.rcvNxt seq < rcvWnd)
  else if rcvWnd = 0 then false
  else
    decide (dist t.rcvNxt seq < rcvWnd) ||
      decide (dist t.rcvNxt (place seq segLen - 1) < rcvWnd)

/-! ## 2. The handshake -/

/-- `handleRst`. -/
def handleRst (c : Ctx) : Ctx × RxAction :=
  ((c.upd fun t => { t with state := .Closed }).wakeBlocked, .FreeTcb)

def completePendingConnect (c : Ctx) (ok : Bool) : Ctx :=
  match c.tcb.parentSocket with
  | some sock => c.emit (.connectDone sock ok)
  | none => c

/-- What the peer's SYN announces, as `processSynSent` takes it over. -/
def takeSynOptions (t : Tcb) (p : Packet) : Tcb :=
  let o := parseOptions p
  let t := if o.mssPresent then { t with mss := o.mss } else t
  let t :=
    if o.wscalePresent && decide (t.rcvWscale > 0) then
      { t with sndWscale := o.wscale, wscaleOk := true }
    else { t with sndWscale := 0, rcvWscale := 0, wscaleOk := false }
  let t := if o.sackPermitted then { t with sackOk := true } else t
  let t := if o.timestampPresent then { t with tsOk := true, tsRecent := o.tsVal } else t
  let rawWindow := p.tcp.window.toNat
  { t with sndWnd := if t.wscaleOk then rawWindow <<< min t.sndWscale 14 else rawWindow }

/-- `processSynSent`. A SYN without ACK also leads to Established. -/
def processSynSent (env : Env) (c : Ctx) (p : Packet) : Ctx × RxAction :=
  if !p.tcp.flags.syn then (c, .Continue)
  else if p.tcp.flags.ack && decide (p.tcp.ackNum ≠ c.tcb.iss + 1) then
    let c := (sendRst env c).1.upd fun t => { t with state := .Closed }
    ((completePendingConnect c false).wakeBlocked, .FreeTcb)
  else
    let c := c.upd fun t => if p.tcp.flags.ack then { t with sndUna := p.tcp.ackNum } else t
    let c := c.upd fun t => { t with irs := p.tcp.seqNum, rcvNxt := p.tcp.seqNum + 1 }
    let c := c.upd fun t => takeSynOptions t p
    let c := c.upd fun t =>
      { t with state := .Established, retransTimer := 0, retransCount := 0 }
    ((sendAck env (completePendingConnect c true).wakeBlocked).1, .Continue)

/-- `processSynReceivedLocked`. The flag tells whether the connection is established. -/
def processSynReceivedLocked (env : Env) (c : Ctx) (p : Packet) : Ctx × Bool :=
  if !p.tcp.flags.ack then (c, false)
  else if p.tcp.ackNum ≠ c.tcb.iss + 1 then ((sendRst env c).1, false)
  else
    (c.upd fun t =>
      { t with
        sndUna := p.tcp.ackNum
        state := .Established
        retransTimer := 0
        retransCount := 0 }, true)

/-- `handleSynReceivedEstablished`: the listening socket takes the connection, or it is reset. -/
def handleSynReceivedEstablished (env : Env) (c : Ctx) : Ctx × RxAction :=
  if c.tcb.parentSocket.isSome && env.accepts then (c, .Continue)
  else ((sendRst env c).1, .FreeTcb)

/-! ## 3. The dispatch -/

/-- The state handlers, behind the tests. -/
def dispatch (env : Env) (c : Ctx) (p : Packet) : Ctx × RxAction :=
  match c.tcb.state with
  | .Established => (processEstablished env c p, .Continue)
  | .FinWait1 => (processFinWait1 env c p, .Continue)
  | .FinWait2 => (processFinWait2 env c p, .Continue)
  | .CloseWait => (processCloseWait c p, .Continue)
  | .Closing => (processClosing env c p, .Continue)
  | .LastAck => processLastAck c p
  | .TimeWait => (processTimeWait env c p, .Continue)
  | _ => (c, .Continue)

/-- A segment that is not acceptable is answered with an ACK, unless it is a RST at `rcv_nxt`. -/
def rejectSegment (env : Env) (c : Ctx) (p : Packet) : Ctx :=
  if p.tcp.flags.rst && decide (p.tcp.seqNum = c.tcb.rcvNxt) then c else (sendAck env c).1

/-- `processEstablishedPacket`. -/
def processEstablishedPacket (env : Env) (c : Ctx) (p : Packet) : Ctx × RxAction :=
  if c.tcb.state = .SynSent then
    if p.tcp.flags.rst then handleRst c else processSynSent env c p
  else if pawsRejects c.tcb p then (c, .Continue)
  else
    let ok := acceptable c.tcb p
    let c := c.upd fun t => noteTimestamp t p
    if !ok then (rejectSegment env c p, .Continue)
    else if p.tcp.flags.rst then
      if p.tcp.seqNum = c.tcb.rcvNxt then handleRst c else ((sendAck env c).1, .Continue)
    else dispatch env c p

/-- A packet for a known TCB, as both entry points handle it. `FreeTcb` means that the TCB is
    freed afterwards. -/
def processSegment (env : Env) (c : Ctx) (p : Packet) : Ctx × RxAction :=
  if c.tcb.closing then (c, .Continue)
  else if c.tcb.state = .SynReceived then
    let r := processSynReceivedLocked env c p
    if r.2 then handleSynReceivedEstablished env r.1 else (r.1, .Continue)
  else processEstablishedPacket env c p

/-- `processPacket` and `processPacket6` on a packet whose addresses belong to the TCB. -/
def processPacket (env : Env) (c : Ctx) (p : Packet) : Ctx × RxAction :=
  if p.valid then processSegment env c p else (c, .Continue)

/-! ## 4. The passive side -/

/-- The options of a SYN, as `processListenPacket` takes them over. -/
def takeListenOptions (t : Tcb) (p : Packet) : Tcb :=
  let o := parseOptions p
  let t := { t with mss := if o.mssPresent then o.mss else DEFAULT_MSS }
  let t := if o.wscalePresent then { t with sndWscale := o.wscale, wscaleOk := true } else t
  let t := if o.sackPermitted then { t with sackOk := true } else t
  let t := if o.timestampPresent then { t with tsOk := true, tsRecent := o.tsVal } else t
  { t with sndWnd := if t.wscaleOk then t.sndWnd <<< min t.sndWscale 14 else t.sndWnd }

/-- The TCB `processListenPacket` fills in: `t0` is the newly allocated one, with its addresses,
    `listener` the listening one, `iss` the generated sequence number. -/
def passiveTcb (t0 listener : Tcb) (p : Packet) (iss : Seq) : Tcb :=
  let t :=
    { t0 with
      irs := p.tcp.seqNum
      rcvNxt := p.tcp.seqNum + 1
      iss := iss
      sndNxt := iss + 1
      sndUna := iss
      sndWnd := p.tcp.window.toNat }
  { takeListenOptions t p with
    parentSocket := listener.parentSocket
    nodelay := listener.nodelay
    state := .SynReceived }

/-- Only a SYN without ACK and RST opens a connection on a listening socket. -/
def opensConnection (p : Packet) : Bool := !p.tcp.flags.rst && !p.tcp.flags.ack && p.tcp.flags.syn

/-- The SYN-ACK of a new passive connection; the flag tells whether it got out. If so the
    retransmission timer runs, if not the TCB is freed again. -/
def answerSyn (env : Env) (c : Ctx) (p : Packet) : Ctx × Bool :=
  let r := sendSynAckWithOptions env c (some (parseOptions p))
  if r.2 then (r.1.upd fun t => { t with retransTimer := 1 }, true) else r

/-! ## 5. What the tests and the handshake do -/

@[simp] theorem noteTimestamp_core (t : Tcb) (p : Packet) : (noteTimestamp t p).core = t.core := by
  unfold noteTimestamp
  split <;> rfl

/-- The payload a handler sees is a beginning of the payload. -/
theorem seen_beginning (p : Packet) : p.seen <+: p.payload := List.take_prefix _ _

@[simp] theorem completePendingConnect_tcb (c : Ctx) (ok : Bool) :
    (completePendingConnect c ok).tcb = c.tcb := by
  unfold completePendingConnect
  split <;> rfl

theorem completePendingConnect_adds (c : Ctx) (ok : Bool) (P : Segment → Prop) :
    c.Adds P (completePendingConnect c ok) := by
  unfold completePendingConnect
  split
  · exact ⟨_, rfl, by simp [segments]⟩
  · exact .rfl

/-- The options of a SYN change no stream variable but the SACK permission. -/
theorem takeSynOptions_core (t : Tcb) (p : Packet) :
    ∃ k, (takeSynOptions t p).core = { t.core with rcv.sackOk := k } := by
  unfold takeSynOptions
  simp only
  split_ifs <;> exact ⟨_, rfl⟩

theorem takeListenOptions_core (t : Tcb) (p : Packet) :
    ∃ k, (takeListenOptions t p).core = { t.core with rcv.sackOk := k } := by
  unfold takeListenOptions
  simp only
  split_ifs <;> exact ⟨_, rfl⟩

/-- The TCB is reset: its state is Closed, its streams are as they were. -/
theorem handleRst_core (c : Ctx) :
    (handleRst c).1.tcb.core = { c.tcb.core with state := .Closed } := by
  rw [handleRst, wakeBlocked_core]
  rfl

theorem handleRst_adds (c : Ctx) (P : Segment → Prop) : c.Adds P (handleRst c).1 :=
  (Ctx.Adds.of_out_eq rfl).trans (wakeBlocked_adds (c.upd _) P)

end Zigk.Tcp
