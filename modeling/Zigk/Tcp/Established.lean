/-
  Subject:   SEGMENTS ON A SYNCHRONISED CONNECTION (rx/established.zig): the handler of the
             Established state in its five phases, and the handlers of the closing states.

  `processEstablished` is one long function in the source; here each part of it is a function:

  * `sackPhase` -- the peer's SACK blocks; `ackPhase` -- the acknowledgement; `windowPhase` --
    the peer's window; `dataPhase` -- the payload; `finPhase` -- FIN and the delayed ACK;
  * the acknowledgement of new data ends in a call of `transmitPendingData`, and so does a
    duplicate ACK in fast recovery: `ackForward` and `dupAckCount` are what comes before it.

  Section 4 says what the phases do to the stream variables (`Core`) and to the output.
-/
import Zigk.Tcp.Queue
import Zigk.Tcp.Transmit

namespace Zigk.Tcp

open Serial (dist place)

inductive RxAction where
  | Continue
  | FreeTcb
  deriving DecidableEq

/-! ## 1. Acknowledgement and window -/

/-- `updateSackBlocks`: an empty or reversed range is replaced by `[0, 0)`. -/
def updateSackBlocks (t : Tcb) (opts : TcpOptions) : Tcb :=
  { t with
    sackBlocks := opts.sackBlocks.map fun b => if seqLt b.start b.stop then b else ⟨0, 0⟩ }

/-- `trimSackBlocks`. -/
def trimSackBlocks (t : Tcb) : Tcb :=
  { t with
    sackBlocks := t.sackBlocks.filter fun b => seqGte b.stop t.sndUna && seqLt b.start t.sndNxt }

def sackPhase (t : Tcb) (p : Packet) : Tcb :=
  if t.sackOk then
    if 0 < (parseOptions p).sackBlocks.length then updateSackBlocks t (parseOptions p)
    else if p.tcp.flags.ack then { t with sackBlocks := [] }
    else t
  else t

/-- The round-trip sample of an acknowledgement, where one is being timed. -/
def sampleRtt (env : Env) (t : Tcb) (ack : Seq) : Tcb :=
  if t.rttSeq ≠ 0 ∧ seqGte ack t.rttSeq then
    let t := if env.now ≥ t.rttStart then t.updateRto (env.now - t.rttStart) else t
    { t with rttSeq := 0 }
  else t

/-- The acknowledgement frees its bytes: `snd_una` and the read position of the send ring move on
    together. -/
def advanceUna (t : Tcb) (ack : Seq) : Tcb :=
  { t with sndUna := ack, send := t.send.advance (dist t.sndUna ack) }

def stopRetransTimer (t : Tcb) : Tcb :=
  if t.sndUna = t.sndNxt then { t with retransTimer := 0 } else t

def noteAck (env : Env) (ack : Seq) (t : Tcb) : Tcb :=
  sampleRtt env { t with dupAckCount := 0, lastAck := ack } ack

/-- A partial acknowledgement in fast recovery retransmits before anything else moves. -/
def partialRetransmit (env : Env) (c : Ctx) (ack : Seq) : Ctx :=
  if c.tcb.fastRecovery && seqLt ack c.tcb.recover then retransmitLoss env c else c

def settleAck (ack : Seq) (ackedBytes : Nat) (t : Tcb) : Tcb :=
  trimSackBlocks (stopRetransTimer (Reno.onAck (advanceUna t ack) ackedBytes))

/-- A new acknowledgement, up to the call of `transmitPendingData`. -/
def ackForward (env : Env) (c : Ctx) (ack : Seq) : Ctx :=
  let c := c.upd (noteAck env ack)
  let ackedBytes := min (dist c.tcb.sndUna ack) (dist c.tcb.sndUna c.tcb.sndNxt)
  (partialRetransmit env c ack).upd (settleAck ack ackedBytes)

/-- A duplicate acknowledgement, up to the retransmission or the call of
    `transmitPendingData`. -/
def countDupAck (t : Tcb) : Tcb :=
  let t := { t with dupAckCount := t.dupAckCount + 1 }
  Reno.onDupAck t t.dupAckCount

def dupAck (env : Env) (c : Ctx) : Ctx :=
  let wasInRecovery := c.tcb.fastRecovery
  let c := c.upd countDupAck
  if !wasInRecovery && c.tcb.fastRecovery then (retransmitLoss env c).upd armRetransTimer
  else if c.tcb.fastRecovery then transmitPendingData env c
  else c

/-- The segment acknowledges something new: `snd_una < ack ≤ snd_nxt`. -/
def acksNew (t : Tcb) (p : Packet) : Bool :=
  p.tcp.flags.ack && (seqGt p.tcp.ackNum t.sndUna && seqLte p.tcp.ackNum t.sndNxt)

/-- The segment is a duplicate acknowledgement: nothing new, no data, neither SYN nor FIN. -/
def isDupAck (t : Tcb) (p : Packet) : Bool :=
  p.tcp.flags.ack && decide (p.tcp.ackNum = t.sndUna) &&
    decide (p.ip.getHeaderLength ≤ p.ip.getTotalLength) &&
    decide (p.ipPayloadLen ≤ p.tcp.getDataOffset) && !p.tcp.flags.syn && !p.tcp.flags.fin

/-- The acknowledgement. The flag tells whether `processEstablished` returns here: the IP header
    announces less than its own length. -/
def ackPhase (env : Env) (c : Ctx) (p : Packet) : Ctx × Bool :=
  if acksNew c.tcb p then (transmitPendingData env (ackForward env c p.tcp.ackNum), false)
  else if p.tcp.flags.ack && decide (p.tcp.ackNum = c.tcb.sndUna) then
    if p.ip.getTotalLength < p.ip.getHeaderLength then (c, true)
    else
      let hasData := p.ipPayloadLen > p.tcp.getDataOffset
      if ¬hasData ∧ p.tcp.flags.syn = false ∧ p.tcp.flags.fin = false then (dupAck env c, false)
      else (c, false)
  else (c, false)

/-- The peer's window, taken from the newest segment. -/
def windowPhase (t : Tcb) (p : Packet) : Tcb :=
  let seq := p.tcp.seqNum
  if p.tcp.flags.ack &&
      (seqGt seq t.sndWl1 || (decide (seq = t.sndWl1) && seqGte p.tcp.ackNum t.sndWl2)) then
    let rawWindow := p.tcp.window.toNat
    { t with
      sndWl2 := p.tcp.ackNum
      sndWnd := if t.wscaleOk then rawWindow <<< min t.sndWscale 14 else rawWindow
      sndWl1 := seq }
  else t

/-! ## 2. Payload and FIN -/

/-- The payload as the handler sees it: as much as the IP header seems to announce, as far as the
    packet reaches. -/
def Packet.seen (p : Packet) : List Byte := p.payload.take (p.ipPayloadLen - p.tcp.getDataOffset)

def scheduleAck (env : Env) (c : Ctx) (immediate : Bool) : Ctx :=
  if immediate then (sendAck env c).1
  else if !c.tcb.ackPending then
    c.upd fun t => { t with ackPending := true, ackDue := env.now + TCP_DELAYED_ACK_MS }
  else (sendAck env c).1

/-- An asynchronous receive on the parent socket takes the data instead of the ring. -/
def deliversAsync (env : Env) (t : Tcb) : Bool := t.parentSocket.isSome && env.pendingRecv

/-- How much of in-order data is taken: all of it by an asynchronous receive, else what fits. -/
def takeLen (env : Env) (t : Tcb) (data : List Byte) : Nat :=
  if deliversAsync env t then data.length else min data.length t.recvSpace

/-- In-order data goes to the ring, or to the asynchronous receive. -/
def takeData (env : Env) (t : Tcb) (data : List Byte) : Tcb :=
  { t with
    recv := if deliversAsync env t then t.recv
      else t.recv.pushAll (data.take (min data.length t.recvSpace))
    rcvNxt := place t.rcvNxt (takeLen env t data) }

/-- In-order data. The flag is `delivered_data`. -/
def inOrder (env : Env) (c : Ctx) (data : List Byte) : Ctx × Bool :=
  let async := deliversAsync env c.tcb
  let len := takeLen env c.tcb data
  let c := match c.tcb.parentSocket with
    | some sock => if async then c.emit (.recvDone sock data) else c
    | none => c
  let c := c.upd fun t => takeData env t data
  let c := if decide (0 < len) && !async then c.wakeBlocked else c
  let r := drainOutOfOrder c.tcb
  ({ c with tcb := r.1 }, decide (0 < len) || r.2)

/-- The payload. The flag is `delivered_data`. -/
def dataPhase (env : Env) (c : Ctx) (p : Packet) : Ctx × Bool :=
  if p.seen = [] then (c, false)
  else if p.tcp.seqNum = c.tcb.rcvNxt then inOrder env c p.seen
  else
    let c := c.upd fun t => (storeOutOfOrder t p.tcp.seqNum p.seen).1
    (scheduleAck env c true, false)

/-- FIN, or else the delayed acknowledgement of what was delivered. -/
def finPhase (env : Env) (c : Ctx) (p : Packet) (delivered : Bool) : Ctx :=
  if p.tcp.flags.fin then
    let c := c.upd fun t => { t with rcvNxt := t.rcvNxt + 1, state := .CloseWait }
    (sendAck env c.wakeBlocked).1
  else if delivered || p.tcp.flags.syn then scheduleAck env c false
  else c

/-- `processEstablished`. It always returns `.Continue`. -/
def processEstablished (env : Env) (c : Ctx) (p : Packet) : Ctx :=
  let c := c.upd fun t => sackPhase t p
  let r := ackPhase env c p
  if r.2 then r.1
  else
    let c := r.1.upd fun t => windowPhase t p
    if p.ip.getTotalLength < p.ip.getHeaderLength then c
    else
      let d := dataPhase env c p
      finPhase env d.1 p d.2

/-! ## 3. The closing states -/

/-- `processCloseWait`: unlike `processEstablished` it does not free the acknowledged bytes. -/
def processCloseWait (c : Ctx) (p : Packet) : Ctx :=
  if acksNew c.tcb p then c.upd fun t => { t with sndUna := p.tcp.ackNum } else c

/-- The segment acknowledges exactly `snd_nxt`, the test of the states that have sent a FIN. -/
def acksAll (t : Tcb) (p : Packet) : Bool := p.tcp.flags.ack && decide (p.tcp.ackNum = t.sndNxt)

def processLastAck (c : Ctx) (p : Packet) : Ctx × RxAction :=
  if acksAll c.tcb p then (c.upd fun t => { t with state := .Closed }, .FreeTcb)
  else (c, .Continue)

def processFinWait1 (env : Env) (c : Ctx) (p : Packet) : Ctx :=
  if acksAll c.tcb p then
    if p.tcp.flags.fin then
      (sendAck env (c.upd fun t => { t with
        rcvNxt := t.rcvNxt + 1, state := .TimeWait, retransTimer := 0, createdAt := env.now })).1
    else c.upd fun t => { t with state := .FinWait2, retransTimer := 0 }
  else if p.tcp.flags.fin then
    (sendAck env (c.upd fun t => { t with rcvNxt := t.rcvNxt + 1, state := .Closing })).1
  else c

def processFinWait2 (env : Env) (c : Ctx) (p : Packet) : Ctx :=
  if p.tcp.flags.fin then
    (sendAck env (c.upd fun t => { t with
      rcvNxt := t.rcvNxt + 1, state := .TimeWait, createdAt := env.now })).1
  else c

def processClosing (env : Env) (c : Ctx) (p : Packet) : Ctx :=
  if acksAll c.tcb p then
    c.upd fun t => { t with state := .TimeWait, retransTimer := 0, createdAt := env.now }
  else c

def processTimeWait (env : Env) (c : Ctx) (p : Packet) : Ctx :=
  if p.tcp.flags.rst then c
  else if p.tcp.flags.fin then (sendAck env (c.upd fun t => { t with createdAt := env.now })).1
  else c

/-! ## 4. What the phases do -/

@[simp] theorem sackPhase_core (t : Tcb) (p : Packet) : (sackPhase t p).core = t.core := by
  unfold sackPhase
  split_ifs <;> rfl

@[simp] theorem windowPhase_core (t : Tcb) (p : Packet) : (windowPhase t p).core = t.core := by
  unfold windowPhase
  simp only
  split <;> rfl

@[simp] theorem sampleRtt_core (env : Env) (t : Tcb) (ack : Seq) :
    (sampleRtt env t ack).core = t.core := by
  unfold sampleRtt
  split
  · simp only
    split
    · unfold Tcb.updateRto
      simp only
      split <;> rfl
    · rfl
  · rfl

@[simp] theorem stopRetransTimer_core (t : Tcb) : (stopRetransTimer t).core = t.core := by
  unfold stopRetransTimer
  split <;> rfl

@[simp] theorem trimSackBlocks_core (t : Tcb) : (trimSackBlocks t).core = t.core := rfl

@[simp] theorem countDupAck_core (t : Tcb) : (countDupAck t).core = t.core := by
  rw [countDupAck, Reno.onDupAck_core]
  rfl

/-- A retransmitted piece of the send ring of `t`, under the number of its place. -/
def Retransmits (t : Tcb) (s : Segment) : Prop :=
  ∃ off len, s.Piece t off len ∧ s.seq = place t.sndUna off

/-- Pieces of a ring and their numbers depend on the send stream only. -/
theorem Retransmits.congr {t t' : Tcb} (h : t'.core.snd = t.core.snd) {s : Segment}
    (hs : Retransmits t' s) : Retransmits t s := by
  have hsend : t'.send = t.send := congrArg (·.send) h
  have huna : t'.sndUna = t.sndUna := congrArg (·.sndUna) h
  obtain ⟨off, len, ⟨h1, h2, h3, h4⟩, h5⟩ := hs
  exact ⟨off, len, ⟨hsend ▸ h1, hsend ▸ h2, h3, h4⟩, huna ▸ h5⟩

theorem retransmitLoss_adds (env : Env) (c : Ctx) :
    c.Adds (Retransmits c.tcb) (retransmitLoss env c) := by
  rcases (retransmitFromSeq_cases env c (selectRetransmitSeq env c.tcb)).2 with
    h | ⟨off, len, s, hout, hp, hs⟩
  · exact .of_out_eq h
  refine ⟨[.segment s], hout, fun s' hs' => ?_⟩
  rw [segments_segment, List.mem_singleton] at hs'
  subst hs'
  exact ⟨off, len, hp, hs⟩

@[simp] theorem noteAck_core (env : Env) (ack : Seq) (t : Tcb) :
    (noteAck env ack t).core = t.core := by
  rw [noteAck, sampleRtt_core]
  rfl

theorem partialRetransmit_core (env : Env) (c : Ctx) (ack : Seq) :
    (partialRetransmit env c ack).tcb.core = c.tcb.core := by
  unfold partialRetransmit
  split
  · exact retransmitLoss_core env c
  · rfl

theorem partialRetransmit_adds (env : Env) (c : Ctx) (ack : Seq) :
    c.Adds (Retransmits c.tcb) (partialRetransmit env c ack) := by
  unfold partialRetransmit
  split
  · exact retransmitLoss_adds env c
  · exact .rfl

theorem settleAck_core (ack : Seq) (n : Nat) (t : Tcb) : (settleAck ack n t).core =
      { t.core with
        snd.sndUna := ack
        snd.send := t.core.snd.send.advance (dist t.core.snd.sndUna ack) } := by
  rw [settleAck, trimSackBlocks_core, stopRetransTimer_core, Reno.onAck_core]
  rfl

/-- **A new acknowledgement** moves `snd_una` and the send ring on by the same distance, and
    nothing else; before that it may retransmit. -/
theorem ackForward_core (env : Env) (c : Ctx) (ack : Seq) : (ackForward env c ack).tcb.core =
      { c.tcb.core with
        snd.sndUna := ack
        snd.send := c.tcb.send.advance (dist c.tcb.sndUna ack) } := by
  rw [ackForward, upd_tcb, settleAck_core, partialRetransmit_core, upd_tcb, noteAck_core]
  rfl

theorem ackForward_adds (env : Env) (c : Ctx) (ack : Seq) :
    c.Adds (Retransmits c.tcb) (ackForward env c ack) := by
  have h := partialRetransmit_adds env (c.upd (noteAck env ack)) ack
  exact .trans (.of_out_eq rfl)
    ((h.mono fun s hs => hs.congr (congrArg Core.snd (noteAck_core env ack c.tcb))).trans (.of_out_eq rfl))

/-- A duplicate acknowledgement changes no stream variable before it may call
    `transmitPendingData`. -/
theorem dupAck_cases (env : Env) (c : Ctx) :
    ∃ c', c'.tcb.core = c.tcb.core ∧ c.Adds (Retransmits c.tcb) c' ∧ (dupAck env c = c' ∨
        (c.tcb.fastRecovery = true ∧ c'.tcb = countDupAck c.tcb ∧
          dupAck env c = transmitPendingData env c')) := by
  have hc : (c.upd countDupAck).tcb.core = c.tcb.core := countDupAck_core c.tcb
  have hq : c.Adds (Retransmits c.tcb) (c.upd countDupAck) := .of_out_eq rfl
  have hr : c.Adds (Retransmits c.tcb) (retransmitLoss env (c.upd countDupAck)) :=
    hq.trans ((retransmitLoss_adds env (c.upd countDupAck)).mono fun s hs => hs.congr (congrArg Core.snd hc))
  unfold dupAck
  simp only
  split
  · refine ⟨(retransmitLoss env (c.upd countDupAck)).upd armRetransTimer, ?_, ?_, .inl rfl⟩
    · rw [upd_tcb, armRetransTimer_core, retransmitLoss_core, hc]
    · exact hr.trans (.of_out_eq (upd_out _ _))
  split
  · rename_i h1 h2
    have hf : c.tcb.fastRecovery = true := by
      cases hw : c.tcb.fastRecovery with
      | true => rfl
      | false => exact absurd (by rw [hw, h2]; rfl) h1
    exact ⟨c.upd countDupAck, hc, hq, .inr ⟨hf, rfl, rfl⟩⟩
  · exact ⟨c.upd countDupAck, hc, hq, .inl rfl⟩

/-- **What the acknowledgement phase can do**: a new acknowledgement followed by a call of
    `transmitPendingData`; or no stream variable changes, pieces may be retransmitted, and a call
    of `transmitPendingData` may follow (a duplicate ACK in fast recovery). -/
theorem ackPhase_cases (env : Env) (c : Ctx) (p : Packet) : (acksNew c.tcb p = true ∧
      ackPhase env c p = (transmitPendingData env (ackForward env c p.tcp.ackNum), false)) ∨
    acksNew c.tcb p = false ∧ ∃ c', c'.tcb.core = c.tcb.core ∧ c.Adds (Retransmits c.tcb) c' ∧
      ((ackPhase env c p).1 = c' ∨
        (isDupAck c.tcb p = true ∧ c.tcb.fastRecovery = true ∧ c'.tcb = countDupAck c.tcb ∧
          (ackPhase env c p).1 = transmitPendingData env c')) := by
  unfold ackPhase
  cases hn : acksNew c.tcb p with
  | true => exact .inl ⟨rfl, rfl⟩
  | false =>
    refine .inr ⟨rfl, ?_⟩
    simp only [Bool.false_eq_true, if_false]
    split
    · rename_i ha
      split
      · exact ⟨c, rfl, .rfl, .inl rfl⟩
      rename_i hl
      split
      · rename_i hd
        have hdup : isDupAck c.tcb p = true := by
          simp only [Bool.and_eq_true, decide_eq_true_eq] at ha
          simp only [isDupAck, ha.1, ha.2, hd.2.1, hd.2.2, Bool.not_false, Bool.and_true,
            Bool.true_and, Bool.and_eq_true, decide_eq_true_eq, true_and]
          exact ⟨by omega, by have := hd.1; omega⟩
        obtain ⟨c', h1, h2, h3⟩ := dupAck_cases env c
        refine ⟨c', h1, h2, h3.imp id ?_⟩
        rintro ⟨h4, h5, h6⟩
        exact ⟨hdup, h4, h5, h6⟩
      · exact ⟨c, rfl, .rfl, .inl rfl⟩
    · exact ⟨c, rfl, .rfl, .inl rfl⟩

/-- The phase returns early only where the IP header announces less than its own length. -/
theorem ackPhase_early {env : Env} {c : Ctx} {p : Packet} (h : (ackPhase env c p).2 = true) :
    p.ip.getTotalLength < p.ip.getHeaderLength := by
  unfold ackPhase at h
  simp only at h
  split_ifs at h
  assumption

/-! ## 5. What the receive phases do -/

/-- A scheduled acknowledgement changes no stream variable. -/
theorem scheduleAck_core (env : Env) (c : Ctx) (immediate : Bool) :
    (scheduleAck env c immediate).tcb.core = c.tcb.core := by
  unfold scheduleAck
  split_ifs
  · exact sendAck_core env c
  · rfl
  · exact sendAck_core env c

theorem scheduleAck_adds (env : Env) (c : Ctx) (immediate : Bool) :
    c.Adds (fun s => s.Control ∧ s.Reports c.tcb) (scheduleAck env c immediate) := by
  unfold scheduleAck
  split_ifs
  · exact sendAck_adds env c
  · exact .of_out_eq rfl
  · exact sendAck_adds env c

/-- What an acknowledgement reports depends on the receive stream only. -/
theorem Segment.Reports.congr {t t' : Tcb} (h : t'.core.rcv = t.core.rcv) {s : Segment}
    (hs : s.Reports t') : s.Reports t := by
  have h1 : t'.sackOk = t.sackOk := congrArg (·.sackOk) h
  have h2 : t'.rcvSackBlocks = t.rcvSackBlocks := congrArg (·.rcvSackBlocks) h
  have h3 : t'.rcvNxt = t.rcvNxt := congrArg (·.rcvNxt) h
  have h4 : t'.oooBlocks = t.oooBlocks := congrArg (·.oooBlocks) h
  simpa only [Segment.Reports, h1, h2, h3, h4] using hs

/-- **In-order data**: taken, then the queue is drained; only the thread to wake may differ. -/
theorem inOrder_cases (env : Env) (c : Ctx) (data : List Byte) :
    ∃ t, t.core = (takeData env c.tcb data).core ∧
      (inOrder env c data).1.tcb = (drainOutOfOrder t).1 ∧
      (∀ P, c.Adds P (inOrder env c data).1) := by
  have hasync : ∀ P, c.Adds P (match c.tcb.parentSocket with
      | some sock => if deliversAsync env c.tcb then c.emit (.recvDone sock data) else c
      | none => c) := by
    intro P
    split
    · split
      · exact ⟨_, rfl, by simp [segments]⟩
      · exact .rfl
    · exact .rfl
  have htcb : (match c.tcb.parentSocket with
      | some sock => if deliversAsync env c.tcb then c.emit (.recvDone sock data) else c
      | none => c).tcb = c.tcb := by
    split
    · split <;> rfl
    · rfl
  unfold inOrder
  simp only
  generalize (match c.tcb.parentSocket with
      | some sock => if deliversAsync env c.tcb then c.emit (.recvDone sock data) else c
      | none => c) = c1 at hasync htcb ⊢
  split
  · refine ⟨_, ?_, rfl, fun P => ?_⟩
    · rw [wakeBlocked_core, upd_tcb, htcb]
    · exact ((hasync P).trans (.of_out_eq rfl)).trans
        ((wakeBlocked_adds (c1.upd fun t => takeData env t data) P).trans (.of_out_eq rfl))
  · refine ⟨_, ?_, rfl, fun P => (hasync P).trans (.of_out_eq rfl)⟩
    rw [upd_tcb, htcb]

/-- **What the payload phase can do**: nothing; take in-order data and drain; or store the
    segment and acknowledge at once. -/
theorem dataPhase_cases (env : Env) (c : Ctx) (p : Packet) :
    (p.seen = [] ∧ dataPhase env c p = (c, false)) ∨
    (p.seen ≠ [] ∧ p.tcp.seqNum = c.tcb.rcvNxt ∧ ∃ t, t.core = (takeData env c.tcb p.seen).core ∧
        (dataPhase env c p).1.tcb = (drainOutOfOrder t).1 ∧
        ∀ P, c.Adds P (dataPhase env c p).1) ∨
    (p.seen ≠ [] ∧ p.tcp.seqNum ≠ c.tcb.rcvNxt ∧
      ∃ t, t = (storeOutOfOrder c.tcb p.tcp.seqNum p.seen).1 ∧
        (dataPhase env c p).1.tcb.core = t.core ∧
        c.Adds (fun s => s.Control ∧ s.Reports t) (dataPhase env c p).1) := by
  unfold dataPhase
  split
  · exact .inl ⟨by assumption, rfl⟩
  split
  · exact .inr (.inl ⟨by assumption, by assumption, inOrder_cases env c p.seen⟩)
  · refine .inr (.inr ⟨by assumption, by assumption, _, rfl, ?_, ?_⟩)
    · exact scheduleAck_core env _ true
    · exact .trans (.of_out_eq rfl) (scheduleAck_adds env (c.upd _) true)

/-- **What the FIN phase can do**: step over the FIN, or change no stream variable. -/
theorem finPhase_cases (env : Env) (c : Ctx) (p : Packet) (d : Bool) :
    (p.tcp.flags.fin = true ∧ ∃ t, t = { c.tcb with rcvNxt := c.tcb.rcvNxt + 1, state := .CloseWait } ∧
      (finPhase env c p d).tcb.core = t.core ∧
      c.Adds (fun s => s.Control ∧ s.Reports t) (finPhase env c p d)) ∨
    (p.tcp.flags.fin = false ∧ (finPhase env c p d).tcb.core = c.tcb.core ∧
      c.Adds (fun s => s.Control ∧ s.Reports c.tcb) (finPhase env c p d)) := by
  unfold finPhase
  cases hf : p.tcp.flags.fin with
  | true =>
    refine .inl ⟨rfl, _, rfl, ?_, ?_⟩
    · simp only [if_true]
      rw [sendAck_core, wakeBlocked_core]
      rfl
    simp only [if_true]
    generalize hc : (c.upd fun t => { t with rcvNxt := t.rcvNxt + 1, state := .CloseWait }) = c1
    have ht : c1.tcb = { c.tcb with rcvNxt := c.tcb.rcvNxt + 1, state := .CloseWait } := by
      rw [← hc]
      rfl
    have ho : c1.out = c.out := by
      rw [← hc]
      rfl
    rw [← ht]
    have hw : c1.wakeBlocked.tcb.core.rcv = c1.tcb.core.rcv :=
      congrArg Core.rcv (wakeBlocked_core c1)
    exact (Ctx.Adds.of_out_eq ho).trans ((wakeBlocked_adds c1 _).trans
      ((sendAck_adds env c1.wakeBlocked).mono fun s hs => ⟨hs.1, hs.2.congr hw⟩))
  | false =>
    refine .inr ⟨rfl, ?_, ?_⟩ <;> simp only [Bool.false_eq_true, if_false] <;> split
    · exact scheduleAck_core env c false
    · rfl
    · exact scheduleAck_adds env c false
    · exact .rfl

end Zigk.Tcp
