/-
  Subject:   CONGESTION CONTROL AND DATA TRANSMISSION (congestion/reno.zig, tx/data.zig).

  * `Reno.onAck`, `Reno.onTimeout`, `Reno.onDupAck` -- each touches congestion variables only
    (the `_core` lemmas);
  * `sendLen` -- how much `transmitPendingData` decides to send, or `none` where one of its gates
    holds the data back;
  * `transmitPendingData`, `retransmitFromSeq`, `retransmitLoss` -- what they read from the send
    ring and under which number they send it. **The first reads at the read position of the ring
    and numbers with `snd_nxt`; the second reads at the offset of the number it sends.**
-/
import Zigk.Tcp.Segment

namespace Zigk.Tcp

open Serial (dist place)

/-! ## 1. Reno -/

namespace Reno

def capCwnd (t : Tcb) : Nat := min t.cwnd MAX_CWND

/-- `std.math.add` that saturates. -/
def satAdd (a b : Nat) : Nat := min (a + b) 4294967295

def onAck (t : Tcb) (ackedBytes : Nat) : Tcb :=
  if t.fastRecovery then
    let t :=
      if seqGte t.sndUna t.recover then { t with fastRecovery := false, cwnd := t.ssthresh }
      else { t with cwnd := t.ssthresh + t.mss }
    { t with cwnd := capCwnd t }
  else
    let t :=
      if t.cwnd < t.ssthresh then { t with cwnd := satAdd t.cwnd (min ackedBytes t.mss) }
      else { t with cwnd := satAdd t.cwnd (max 1 (t.mss * t.mss / t.cwnd)) }
    { t with cwnd := capCwnd t }

def flightSize (t : Tcb) : Nat := dist t.sndUna t.sndNxt

def onTimeout (t : Tcb) : Tcb :=
  { t with
    ssthresh := max (flightSize t / 2) (2 * t.mss)
    cwnd := t.mss
    fastRecovery := false
    rttSeq := 0 }

def onDupAck (t : Tcb) (dupCount : BitVec 8) : Tcb :=
  if dupCount = 3 && !t.fastRecovery then
    let ssthresh := max (flightSize t / 2) (2 * t.mss)
    { t with
      ssthresh := ssthresh
      cwnd := min (ssthresh + 3 * t.mss) MAX_CWND
      fastRecovery := true
      recover := t.sndNxt }
  else if t.fastRecovery then { t with cwnd := min (satAdd t.cwnd t.mss) MAX_CWND }
  else t

@[simp] theorem onAck_core (t : Tcb) (n : Nat) : (onAck t n).core = t.core := by
  unfold onAck
  simp only
  split_ifs <;> rfl

@[simp] theorem onDupAck_core (t : Tcb) (n : BitVec 8) : (onDupAck t n).core = t.core := by
  unfold onDupAck
  simp only
  split_ifs <;> rfl

end Reno

/-! ## 2. Segment length and effective MSS -/

/-- The payload length that `calculateSegmentLength` and `processEstablished` derive from the IP
    header: they read it as an IPv4 header. -/
def Packet.ipPayloadLen (p : Packet) : Nat := p.ip.getTotalLength - p.ip.getHeaderLength

/-- `calculateSegmentLength`: data, with SYN and FIN counting one each. -/
def calculateSegmentLength (p : Packet) : Nat :=
  p.ipPayloadLen - p.tcp.getDataOffset + (if p.tcp.flags.syn then 1 else 0) +
    (if p.tcp.flags.fin then 1 else 0)

/-- `ipv4.getEffectiveMss` for the IPv4 address of the peer. -/
def Env.getEffectiveMss (env : Env) : Nat := if env.pmtu > 40 then env.pmtu - 40 else 536

/-- `pmtu6.getEffectiveMss6`. -/
def Env.getEffectiveMss6 (env : Env) : Nat := if env.pmtu6 > 60 then env.pmtu6 - 60 else 1220

/-- The segment size of `transmitPendingData`: per address family. -/
def effectiveMss (env : Env) (t : Tcb) : Nat :=
  min t.mss (if t.isIpv6 then env.getEffectiveMss6 else env.getEffectiveMss)

/-- The segment size of the retransmission path: always through the IPv4 cache. -/
def retransmitMss (env : Env) (t : Tcb) : Nat := min t.mss env.getEffectiveMss

/-! ## 3. New data -/

/-- How many bytes `transmitPendingData` sends, or `none` where it returns before sending: state,
    empty ring, window, Nagle, cork, silly-window avoidance, nothing to send. -/
def sendLen (env : Env) (t : Tcb) : Option Nat :=
  if t.state ≠ .Established ∧ t.state ≠ .CloseWait then none
  else
    let buffered := t.send.used
    if buffered = 0 then none
    else
      let mss := effectiveMss env t
      let effWnd := min t.sndWnd t.cwnd
      let flightSize := dist t.sndUna t.sndNxt
      if flightSize ≥ effWnd then none
      else
        let maxSend := min (effWnd - flightSize) mss
        let len := min buffered maxSend
        if !t.nodelay && decide (flightSize > 0) && decide (len < mss) then none
        else if t.tcpCork && decide (len < mss) then none
        else
          let halfWnd := if t.sndWnd > 1 then t.sndWnd / 2 else 1
          if len < mss ∧ len < halfWnd ∧ len ≠ buffered then none
          else if len = 0 then none
          else some len

/-- Timing a segment for the round-trip estimate, unless one is being timed. -/
def startRtt (env : Env) (len : Nat) (t : Tcb) : Tcb :=
  if t.rttSeq = 0 then { t with rttSeq := place t.sndNxt len, rttStart := env.now } else t

def armRetransTimer (t : Tcb) : Tcb :=
  { t with retransTimer := if t.retransTimer = 0 then 1 else t.retransTimer }

/-- `transmitPendingData`. A segment longer than `data_buf` (the peer's MSS and the path MTU may
    both exceed it) fails the bounds check of the copy. -/
def transmitPendingData (env : Env) (c : Ctx) : Ctx :=
  match sendLen env c.tcb with
  | none => c
  | some len =>
    if MAX_TCP_PAYLOAD < len then { c with panicked := true }
    else
      let data := c.tcb.send.slice 0 len
      let c := c.upd (startRtt env len)
      let r := sendSegment env c { ack := true, psh := true } c.tcb.sndNxt c.tcb.rcvNxt data
      if r.2 then r.1.upd fun t => armRetransTimer { t with sndNxt := place t.sndNxt len }
      else r.1

/-! ## 4. Retransmission -/

def seqCoveredBySack (t : Tcb) (seq : Seq) : Bool :=
  t.sackBlocks.any fun block => seqBetween seq block.start block.stop

/-- The loop of `selectRetransmitSeq`. Every turn goes on by a whole segment, so the flight size
    bounds the number of turns. -/
def selectFrom (env : Env) (t : Tcb) : Nat → Seq → Seq
  | 0, _ => t.sndUna
  | fuel + 1, seq =>
    if seqLt seq t.sndNxt then
      if seqCoveredBySack t seq then selectFrom env t fuel (place seq (retransmitMss env t))
      else seq
    else t.sndUna

def selectRetransmitSeq (env : Env) (t : Tcb) : Seq :=
  if !t.sackOk || t.sackBlocks.length = 0 then t.sndUna
  else selectFrom env t (dist t.sndUna t.sndNxt + 1) t.sndUna

/-- `retransmitFromSeq`. -/
def retransmitFromSeq (env : Env) (c : Ctx) (seq : Seq) : Ctx :=
  let c := c.upd fun t => { t with rttSeq := 0 }
  let buffered := c.tcb.send.used
  let offset := dist c.tcb.sndUna seq
  if buffered = 0 then c
  else if offset ≥ buffered then c
  else
    let len := min (buffered - offset) (retransmitMss env c.tcb)
    if len = 0 then c
    else if MAX_TCP_PAYLOAD < len then { c with panicked := true }
    else
      let r := sendSegment env c { ack := true } seq c.tcb.rcvNxt (c.tcb.send.slice offset len)
      if r.2 then r.1.upd armRetransTimer else r.1

def retransmitLoss (env : Env) (c : Ctx) : Ctx :=
  retransmitFromSeq env c (selectRetransmitSeq env c.tcb)

/-! ## 5. What they do -/

/-- A piece of the send ring: `s` carries `len` buffered bytes from offset `off` on. -/
structure Segment.Piece (t : Tcb) (off len : Nat) (s : Segment) : Prop where
  inside : off + len ≤ t.send.used
  data : s.data = (t.send.contents.drop off).take len
  notFin : s.flags.fin = false
  noOptions : s.options = []

@[simp] theorem startRtt_core (env : Env) (len : Nat) (t : Tcb) :
    (startRtt env len t).core = t.core := by
  unfold startRtt
  split <;> rfl

@[simp] theorem armRetransTimer_core (t : Tcb) : (armRetransTimer t).core = t.core := rfl

section Laws

variable (env : Env) (c : Ctx)

/-- `transmitPendingData` never sends more than is buffered. -/
theorem sendLen_le {env : Env} {t : Tcb} {len : Nat} (h : sendLen env t = some len) :
    0 < len ∧ len ≤ t.send.used := by
  unfold sendLen at h
  simp only at h
  split_ifs at h <;> simp only [Option.some.injEq] at h <;> omega

theorem sendLen_state {env : Env} {t : Tcb} {len : Nat} (h : sendLen env t = some len) :
    t.state = .Established ∨ t.state = .CloseWait := by
  unfold sendLen at h
  by_contra hs
  rw [if_pos (by simpa [not_or] using hs)] at h
  cases h

/-- **All that `transmitPendingData` can do**: nothing, stop the kernel, or hand over one piece
    from the FRONT of the ring under the number `snd_nxt`, which moves on if it got out. -/
theorem transmitPendingData_cases : ((transmitPendingData env c).tcb.core = c.tcb.core ∧
      (transmitPendingData env c).out = c.out) ∨
    ∃ len s, sendLen env c.tcb = some len ∧ (transmitPendingData env c).out = c.out ++ [.segment s] ∧
      s.Piece c.tcb 0 len ∧ s.seq = c.tcb.sndNxt ∧ s.flags.psh = true ∧
      (transmitPendingData env c).tcb.core =
        { c.tcb.core with
          snd.sndNxt := if s.sent then place c.tcb.sndNxt len else c.tcb.sndNxt } := by
  unfold transmitPendingData
  split
  · exact .inl ⟨rfl, rfl⟩
  rename_i len hlen
  split
  · exact .inl ⟨rfl, rfl⟩
  right
  have hle := (sendLen_le hlen).2
  have hd : c.tcb.send.slice 0 len = (c.tcb.send.contents.drop 0).take len :=
    RingBuf.slice_eq c.tcb.send (by omega)
  have hn : (startRtt env len c.tcb).sndNxt = c.tcb.sndNxt :=
    congrArg (·.snd.sndNxt) (startRtt_core env len c.tcb)
  let c1 := c.upd (startRtt env len)
  let s := buildSegment env c1 { ack := true, psh := true } c1.tcb.sndNxt c1.tcb.rcvNxt
    (c.tcb.send.slice 0 len)
  refine ⟨len, s, hlen, ?_, ⟨by omega, hd, rfl, rfl⟩, hn, rfl, ?_⟩
  · show (if s.sent then _ else _ : Ctx).out = _
    split <;> rfl
  show (if s.sent then _ else _ : Ctx).tcb.core = _
  split
  · show ({ (startRtt env len c.tcb).core with
        snd.sndNxt := place (startRtt env len c.tcb).sndNxt len } : Core) = _
    rw [startRtt_core, hn]
  · exact startRtt_core env len c.tcb

/-- **All that `retransmitFromSeq` can do**: it changes no stream variable, and hands over at most
    one piece, from the offset of its number in the ring. -/
theorem retransmitFromSeq_cases (seq : Seq) : (retransmitFromSeq env c seq).tcb.core = c.tcb.core ∧
      ((retransmitFromSeq env c seq).out = c.out ∨
        ∃ off len s, (retransmitFromSeq env c seq).out = c.out ++ [.segment s] ∧
          s.Piece c.tcb off len ∧ s.seq = place c.tcb.sndUna off) := by
  unfold retransmitFromSeq
  simp only
  split
  · exact ⟨rfl, .inl rfl⟩
  split
  · exact ⟨rfl, .inl rfl⟩
  split
  · exact ⟨rfl, .inl rfl⟩
  split
  · exact ⟨rfl, .inl rfl⟩
  rename_i h0 hoff h1 h2
  let c1 := c.upd fun t => { t with rttSeq := 0 }
  let off := dist c.tcb.sndUna seq
  let len := min (c.tcb.send.used - off) (retransmitMss env c1.tcb)
  let s := buildSegment env c1 { ack := true } seq c1.tcb.rcvNxt (c.tcb.send.slice off len)
  have hin : off + len ≤ c.tcb.send.used := by
    have : ¬ off ≥ c.tcb.send.used := hoff
    omega
  refine ⟨?_, .inr ⟨off, len, s, ?_, ⟨hin, RingBuf.slice_eq _ hin, rfl, rfl⟩, ?_⟩⟩
  · show (if s.sent then _ else _ : Ctx).tcb.core = _
    split <;> rfl
  · show (if s.sent then _ else _ : Ctx).out = _
    split <;> rfl
  · exact (Serial.add_dist c.tcb.sndUna seq).symm

theorem retransmitLoss_core : (retransmitLoss env c).tcb.core = c.tcb.core :=
  (retransmitFromSeq_cases env c _).1

end Laws

end Zigk.Tcp
