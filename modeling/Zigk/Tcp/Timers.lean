/-
  Subject:   TIMERS AND ICMP ERRORS on one connection (timers.zig).

  `processTimers` visits every TCB whose mutex is free; `processTcbTimers` is the body of that
  loop for one TCB, in its order: state timeouts, delayed ACK, persist timer, retransmission
  timer. Its flag tells whether the TCB is freed.

  * `retransmitOnTimeout` -- what is sent again, by state: Established and CloseWait go back to
    `snd_una` or retransmit by SACK, LastAck sends a FIN, the other closing states nothing.
-/
import Zigk.Tcp.Receive
import Zigk.Tcp.Api

namespace Zigk.Tcp

open Serial (dist place)

/-! ## 1. Timeouts by state -/

/-- `getStateTimeout`, milliseconds; 0 means no timeout. -/
def getStateTimeout : TcpState → Nat
  | .Closed => 0
  | .Listen => 0
  | .SynSent => 75000
  | .SynReceived => 75000
  | .Established => 7200000
  | .CloseWait => 60000
  | .LastAck => 60000
  | .FinWait1 | .FinWait2 | .Closing => 60000
  | .TimeWait => 120000

abbrev ORPHAN_TIMEOUT : Nat := 30000

/-- The TCB is too old for its state, or an orphan for too long. -/
def expires (env : Env) (t : Tcb) : Bool :=
  let age := env.now - t.createdAt
  (t.parentSocket.isNone && decide (t.state ≠ .Listen) && decide (age > ORPHAN_TIMEOUT)) ||
    (decide (getStateTimeout t.state > 0) && decide (age > getStateTimeout t.state))

/-- The TCB is given up: closed, and the thread blocked on it is woken. -/
def giveUp (c : Ctx) : Ctx :=
  (c.upd fun t => { t with state := .Closed, closing := true }).wakeBlocked

/-! ## 2. Delayed ACK and persist timer -/

/-- `sendAck` clears the two fields itself, the timer clears them once more. -/
def delayedAck (env : Env) (c : Ctx) : Ctx :=
  if c.tcb.ackPending && decide (env.now ≥ c.tcb.ackDue) then
    (sendAck env c).1.upd fun t => { t with ackPending := false, ackDue := 0 }
  else c

/-- The persist timer runs while the peer's window is closed, data waits and nothing is being
    retransmitted; when it fires, the byte at the read position of the ring is sent as a probe
    under `snd_una`. -/
def persistStep (env : Env) (c : Ctx) : Ctx :=
  let t := c.tcb
  if t.sndWnd = 0 ∧ t.send.used > 0 ∧ t.retransTimer = 0 ∧
      (t.state = .Established ∨ t.state = .CloseWait) then
    if t.persistTimer = 0 then c.upd fun t => { t with persistTimer := 1, persistBackoff := 0 }
    else
      let timer := t.persistTimer + env.msPerTick
      let probeInterval := min (t.rtoMs <<< min t.persistBackoff 6) 60000
      if timer > probeInterval then
        let c := c.upd fun t =>
          { t with
            persistTimer := 1
            persistBackoff := if t.persistBackoff < 6 then t.persistBackoff + 1 else t.persistBackoff }
        (sendSegment env c { ack := true } c.tcb.sndUna c.tcb.rcvNxt (c.tcb.send.slice 0 1)).1
      else c.upd fun t => { t with persistTimer := timer }
  else if t.sndWnd > 0 then c.upd fun t => { t with persistTimer := 0, persistBackoff := 0 }
  else c

/-! ## 3. Retransmission -/

/-- The retransmission timer runs and reaches its timeout in this tick. -/
def timesOut (env : Env) (t : Tcb) : Bool :=
  decide (t.retransTimer ≠ 0) && decide (t.retransTimer + env.msPerTick > t.rtoMs)

/-- The timeout is the one that uses the retries up. -/
def exhausted (env : Env) (t : Tcb) : Bool :=
  timesOut env t && decide (t.retransCount + 1 ≥ MAX_RETRIES)

def sendsBySack (t : Tcb) : Bool := t.sackOk && decide (0 < t.sackBlocks.length)

/-- Go-back-N: the send cursor returns to the oldest unacknowledged number. -/
def rewind (t : Tcb) : Tcb := { t with sndNxt := t.sndUna }

/-- What a retransmission timeout sends, by state. -/
def retransmitOnTimeout (env : Env) (c : Ctx) : Ctx :=
  match c.tcb.state with
  | .SynSent => (sendSyn env c).1
  | .SynReceived => (sendSynAckWithOptions env c none).1
  | .Established | .CloseWait =>
    if sendsBySack c.tcb then retransmitLoss env c
    else transmitPendingData env (c.upd rewind)
  | .LastAck => (sendFin env c).1
  | _ => c

/-- Backing off: the timeout doubles, the timer starts again, the window collapses. -/
def backOff (t : Tcb) : Tcb :=
  Reno.onTimeout { t with
    retransCount := t.retransCount + 1
    rtoMs := min (t.rtoMs * 2) MAX_RTO_MS
    retransTimer := 1 }

def runTimer (env : Env) (t : Tcb) : Tcb := { t with retransTimer := t.retransTimer + env.msPerTick }

/-- The retransmission timer. The flag tells whether the TCB is freed. -/
def retransStep (env : Env) (c : Ctx) : Ctx × Bool :=
  if c.tcb.retransTimer = 0 then (c, false)
  else if timesOut env c.tcb then
    if exhausted env c.tcb then
      (giveUp (c.upd fun t => { runTimer env t with retransCount := t.retransCount + 1 }), true)
    else (retransmitOnTimeout env (c.upd backOff), false)
  else (c.upd (runTimer env), false)

/-- The body of `processTimers` for one TCB. The flag tells whether the TCB is freed. -/
def processTcbTimers (env : Env) (c : Ctx) : Ctx × Bool :=
  if expires env c.tcb then (giveUp c, true)
  else retransStep env (persistStep env (delayedAck env c))

/-! ## 4. ICMP errors -/

/-- The quoted sequence number of an ICMP error lies outside `[snd_una, snd_nxt]`. -/
def icmpOutside (t : Tcb) (seqNum : Option Seq) : Bool :=
  seqNum.any fun seq => seqLt seq t.sndUna || seqGt seq t.sndNxt

/-- An ICMP error that aborts the TCB: Destination Unreachable, any code, during the handshake. -/
def icmpAborts (t : Tcb) (icmpType : Nat) (seqNum : Option Seq) : Bool :=
  !icmpOutside t seqNum && decide (icmpType = 3) &&
    (decide (t.state = .SynSent) || decide (t.state = .SynReceived))

/-- `handleIcmpError` and `handleIcmpErrorIp`; the code plays no role, since a hard error on a
    synchronised connection is ignored as well. The flag tells whether the TCB is freed. -/
def handleIcmpError (c : Ctx) (icmpType : Nat) (seqNum : Option Seq) : Ctx × Bool :=
  if icmpAborts c.tcb icmpType seqNum then
    ((c.upd fun t => { t with state := .Closed }).wakeBlocked, true)
  else (c, false)

/-! ## 5. What they do -/

theorem giveUp_adds (c : Ctx) (P : Segment → Prop) : c.Adds P (giveUp c) :=
  (Ctx.Adds.of_out_eq rfl).trans (wakeBlocked_adds (c.upd _) P)

theorem giveUp_iss (c : Ctx) : (giveUp c).tcb.iss = c.tcb.iss :=
  congrArg (·.snd.iss) (wakeBlocked_core (c.upd _))

theorem delayedAck_core (env : Env) (c : Ctx) : (delayedAck env c).tcb.core = c.tcb.core := by
  unfold delayedAck
  split
  · exact sendAck_core env c
  · rfl

theorem delayedAck_adds (env : Env) (c : Ctx) :
    c.Adds (fun s => s.Control ∧ s.Reports c.tcb) (delayedAck env c) := by
  unfold delayedAck
  split
  · exact (sendAck_adds env c).trans (.of_out_eq rfl)
  · exact .rfl

theorem persistStep_core (env : Env) (c : Ctx) : (persistStep env c).tcb.core = c.tcb.core := by
  unfold persistStep
  simp only
  split_ifs <;> rfl

/-- A probe is a retransmission of the first buffered byte. -/
theorem persistStep_adds (env : Env) (c : Ctx) :
    c.Adds (Retransmits c.tcb) (persistStep env c) := by
  unfold persistStep
  simp only
  split_ifs with h
  · exact .of_out_eq rfl
  · refine .emit_segment ⟨0, 1, ⟨by omega, ?_, rfl, rfl⟩, ?_⟩
    · exact RingBuf.slice_eq c.tcb.send (by omega)
    · exact (Serial.place_zero _).symm
  · exact .of_out_eq rfl
  · exact .of_out_eq rfl
  · exact .rfl

@[simp] theorem backOff_core (t : Tcb) :
    (backOff t).core = { t.core with retransCount := t.retransCount + 1 } := rfl

/-- **What a retransmission timeout can do**: nothing to the streams (with a SYN or pieces of the
    ring sent); go back to `snd_una` and call `transmitPendingData`; or, in LastAck, send a FIN
    under `snd_nxt`. -/
theorem retransmitOnTimeout_cases (env : Env) (c : Ctx) :
    ((retransmitOnTimeout env c).tcb.core = c.tcb.core ∧
      c.Adds (fun s => Retransmits c.tcb s ∨ s.Control ∧ sackRanges s.options = [])
        (retransmitOnTimeout env c)) ∨
    ((c.tcb.state = .Established ∨ c.tcb.state = .CloseWait) ∧ sendsBySack c.tcb = false ∧
      retransmitOnTimeout env c = transmitPendingData env (c.upd rewind)) ∨
    (c.tcb.state = .LastAck ∧ (retransmitOnTimeout env c).tcb = c.tcb ∧
      c.Adds (FinOf c.tcb) (retransmitOnTimeout env c)) := by
  have hloss : c.Adds (fun s => Retransmits c.tcb s ∨ s.Control ∧ sackRanges s.options = [])
      (retransmitLoss env c) := (retransmitLoss_adds env c).mono fun s hs => .inl hs
  unfold retransmitOnTimeout
  split
  · refine .inl ⟨sendSyn_core env c, ?_⟩
    unfold sendSyn
    split
    · exact .rfl
    · exact .trans (.of_out_eq rfl)
        (.emit_segment (.inr ⟨⟨rfl, rfl⟩, sackRanges_buildSynOptions _ _ _ _⟩))
  · refine .inl ⟨sendSynAck_core env c, ?_⟩
    unfold sendSynAckWithOptions
    split
    · exact .rfl
    · exact .trans (.of_out_eq rfl)
        (.emit_segment (.inr ⟨⟨rfl, rfl⟩, sackRanges_buildSynOptions _ _ _ _⟩))
  · split
    · exact .inl ⟨retransmitLoss_core env c, hloss⟩
    · rename_i hs hk
      exact .inr (.inl ⟨.inl hs, by simpa using hk, rfl⟩)
  · split
    · exact .inl ⟨retransmitLoss_core env c, hloss⟩
    · rename_i hs hk
      exact .inr (.inl ⟨.inr hs, by simpa using hk, rfl⟩)
  · exact .inr (.inr ⟨by assumption, rfl, sendFin_adds env c⟩)
  · exact .inl ⟨rfl, .rfl⟩

end Zigk.Tcp
