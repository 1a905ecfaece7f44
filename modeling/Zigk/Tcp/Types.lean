/-
  Subject:   THE DATA OF THE TCP MODULE: constants, headers, received packets and the transmission
             control block (constants.zig, types.zig, core/addr.zig, core/packet.zig).

  * sequence numbers are 32-bit words compared by the sign of their difference (`seqLt` and its
    relatives are the comparisons of Zigk/Base/Serial.lean at 32 bits); `place a n` is the code's
    `a +% n`, `dist a b` its `b -% a` as a number;
  * the two circular buffers are `RingBuf`s: `send_head`/`send_tail` and `recv_head`/`recv_tail`
    are their positions;
  * the fixed arrays with a count beside them (`ooo_blocks`, `sack_blocks`, `rcv_sack_blocks`)
    are lists; the count is the length;
  * sizes, windows and times are natural numbers; no sum the code forms with them reaches its
    word size (a sample or an age of a connection is bounded by the two-hour state timeout).

  Left out: the mutex, the hash chain and half-open links (they belong to the module state), the
  type of service, and `rcv_wnd`, which nothing reads.
-/
import Zigk.Base.Serial
import Zigk.Base.Ring

namespace Zigk.Tcp

open Serial (dist place)

/-! ## 1. Constants -/

abbrev TCP_HEADER_SIZE : Nat := 20
abbrev MAX_TCP_PAYLOAD : Nat := 1460
abbrev DEFAULT_MSS : Nat := 1460
abbrev MIN_MSS : Nat := 536
abbrev TCP_MAX_WSCALE : Nat := 14
abbrev TCP_MAX_OPTIONS_SIZE : Nat := 40
abbrev BUFFER_SIZE : Nat := 8192
abbrev INITIAL_CWND : Nat := 14600
abbrev MAX_CWND : Nat := 4 * BUFFER_SIZE
abbrev INITIAL_RTO_MS : Nat := 1000
abbrev MAX_RTO_MS : Nat := 64000
abbrev MAX_RETRIES : Nat := 8
abbrev TCP_DELAYED_ACK_MS : Nat := 200
abbrev MAX_TCBS : Nat := 256
abbrev MAX_HALF_OPEN : Nat := 128

/-- Slots of the out-of-order queue and of the two SACK block arrays. -/
abbrev OOO_SLOTS : Nat := 4

/-! ## 2. Sequence numbers -/

abbrev Seq := BitVec 32
abbrev Byte := UInt8

def seqLt (a b : Seq) : Bool := Serial.lt a b
def seqLte (a b : Seq) : Bool := Serial.le a b
def seqGt (a b : Seq) : Bool := Serial.gt a b
def seqGte (a b : Seq) : Bool := Serial.ge a b

/-- `seq` in the range `[low, high)`. -/
def seqBetween (seq low high : Seq) : Bool := seqGte seq low && seqLt seq high

theorem seqGte_iff {a b : Seq} : seqGte a b = true ↔ dist b a < 2 ^ 31 := by
  rw [seqGte, Serial.ge_iff]
  omega

theorem seqGt_iff {a b : Seq} : seqGt a b = true ↔ 0 < dist b a ∧ dist b a < 2 ^ 31 := by
  rw [seqGt, Serial.gt_iff]
  omega

theorem seqLte_iff {a b : Seq} : seqLte a b = true ↔ dist b a = 0 ∨ 2 ^ 31 ≤ dist b a := by
  rw [seqLte, Serial.le_iff]
  omega

/-- An acknowledgement between `snd_una` and `snd_nxt`, in distances. -/
theorem dist_le_of_seqLte {una ack nxt : Seq} (hf : dist una nxt < 2 ^ 31)
    (hg : seqGt ack una = true) (hl : seqLte ack nxt = true) :
    0 < dist una ack ∧ dist una ack ≤ dist una nxt := by
  obtain ⟨h0, h1⟩ := seqGt_iff.mp hg
  refine ⟨h0, ?_⟩
  by_contra hn
  have hd := Serial.dist_sub (a := una) (b := nxt) (c := ack) (by omega)
  have := seqLte_iff.mp hl
  omega

/-! ## 3. Addresses, headers and received packets -/

inductive IpAddr where
  | none
  | v4 (ip : BitVec 32)
  | v6 (ip : BitVec 128)
  deriving DecidableEq

def IpAddr.isV4 : IpAddr → Bool
  | .v4 _ => true
  | _ => false

def IpAddr.isV6 : IpAddr → Bool
  | .v6 _ => true
  | _ => false

def IpAddr.isUnspecified : IpAddr → Bool
  | .none => true
  | .v4 ip => ip == 0
  | .v6 ip => ip == 0

structure Flags where
  fin : Bool := false
  syn : Bool := false
  rst : Bool := false
  psh : Bool := false
  ack : Bool := false
  urg : Bool := false
  deriving DecidableEq

/-- The TCP header without its options. -/
structure TcpHeader where
  srcPort : BitVec 16
  dstPort : BitVec 16
  seqNum : Seq
  ackNum : Seq
  /-- Header length in 32-bit words. -/
  dataOffset : BitVec 4
  flags : Flags
  window : BitVec 16

/-- `getDataOffset`: the header length in bytes, options included. -/
def TcpHeader.getDataOffset (h : TcpHeader) : Nat := h.dataOffset.toNat * 4

/-- The IP header in front of a segment. `extLen` counts the bytes of IPv6 extension headers
    between the IPv6 header and the TCP header. -/
inductive IpHeader where
  | v4 (ihl : BitVec 4) (tos : BitVec 8) (totalLength : BitVec 16) (src dst : BitVec 32)
  | v6 (trafficClass : BitVec 8) (flowLabel : BitVec 20) (payloadLength : BitVec 16)
      (extLen : Nat) (src dst : BitVec 128)

open IpHeader

/-- The first four bytes of an IP header, in network order, as one number: version, header
    length, type of service and total length for IPv4; version, traffic class and flow label for
    IPv6. -/
def IpHeader.firstWord : IpHeader → Nat
  | .v4 ihl tos totalLength _ _ =>
    ((4 * 16 + ihl.toNat) * 256 + tos.toNat) * 65536 + totalLength.toNat
  | .v6 trafficClass flowLabel _ _ _ _ => (6 * 256 + trafficClass.toNat) * 1048576 + flowLabel.toNat

/-- `Ipv4Header.getHeaderLength` on the bytes at the IP offset: the low half of byte 0. -/
def IpHeader.getHeaderLength (h : IpHeader) : Nat := h.firstWord / 16777216 % 16 * 4

/-- `Ipv4Header.getTotalLength` on the bytes at the IP offset: bytes 2 and 3. -/
def IpHeader.getTotalLength (h : IpHeader) : Nat := h.firstWord % 65536

theorem getHeaderLength_v4 (ihl : BitVec 4) (tos : BitVec 8) (tl : BitVec 16) (s d : BitVec 32) :
    (v4 ihl tos tl s d).getHeaderLength = ihl.toNat * 4 := by
  have h1 := ihl.isLt
  have h2 := tos.isLt
  have h3 := tl.isLt
  simp only [getHeaderLength, firstWord]
  omega

theorem getTotalLength_v4 (ihl : BitVec 4) (tos : BitVec 8) (tl : BitVec 16) (s d : BitVec 32) :
    (v4 ihl tos tl s d).getTotalLength = tl.toNat := by
  have h3 := tl.isLt
  simp only [getTotalLength, firstWord]
  omega

/-- Read as an IPv4 header, an IPv6 header has the high half of the traffic class as its length … -/
theorem getHeaderLength_v6 (tc : BitVec 8) (fl : BitVec 20) (pl : BitVec 16) (e : Nat)
    (s d : BitVec 128) : (v6 tc fl pl e s d).getHeaderLength = tc.toNat / 16 * 4 := by
  have h1 := tc.isLt
  have h2 := fl.isLt
  simp only [getHeaderLength, firstWord]
  omega

/-- … and the low 16 bits of the flow label as its total length. -/
theorem getTotalLength_v6 (tc : BitVec 8) (fl : BitVec 20) (pl : BitVec 16) (e : Nat)
    (s d : BitVec 128) : (v6 tc fl pl e s d).getTotalLength = fl.toNat % 65536 := by
  simp only [getTotalLength, firstWord]
  omega

/-- A received packet as the IP layer hands it on: `rest` is everything from the end of the fixed
    TCP header to `pkt.len`, so the options come first in it and then the payload. `checksumOk`
    is the outcome of the checksum over the segment and the pseudo header. -/
structure Packet where
  ip : IpHeader
  tcp : TcpHeader
  rest : List Byte
  isBroadcast : Bool := false
  isMulticast : Bool := false
  checksumOk : Bool := true

/-- The bytes from the transport offset to `pkt.len`. -/
def Packet.segmentLen (p : Packet) : Nat := TCP_HEADER_SIZE + p.rest.length

/-- The bytes after the TCP header and its options. -/
def Packet.payload (p : Packet) : List Byte := p.rest.drop (p.tcp.getDataOffset - TCP_HEADER_SIZE)

/-- What the IP layer guarantees: it cuts `pkt.len` to the length the IP header announces. -/
def Packet.Trimmed (p : Packet) : Prop :=
  match p.ip with
  | .v4 ihl _ totalLength _ _ => totalLength.toNat = ihl.toNat * 4 + p.segmentLen
  | .v6 _ _ payloadLength extLen _ _ => payloadLength.toNat = extLen + p.segmentLen

/-! ## 4. The transmission control block -/

inductive TcpState where
  | Closed | Listen | SynSent | SynReceived | Established | FinWait1 | FinWait2 | CloseWait
  | Closing | LastAck | TimeWait
  deriving DecidableEq

/-- A half-open range of sequence numbers, `[start, stop)`. -/
structure SackBlock where
  start : Seq
  stop : Seq
  deriving DecidableEq

structure OooBlock where
  start : Seq
  data : List Byte
  deriving DecidableEq

def OooBlock.len (b : OooBlock) : Nat := b.data.length

/-- The number just after the last byte of a stored block. -/
def OooBlock.stop (b : OooBlock) : Seq := place b.start b.len

structure Tcb where
  localAddr : IpAddr
  localPort : BitVec 16
  remoteAddr : IpAddr
  remotePort : BitVec 16
  state : TcpState
  closing : Bool
  sndUna : Seq
  sndNxt : Seq
  sndWnd : Nat
  iss : Seq
  sndWl1 : Seq
  sndWl2 : Seq
  rcvNxt : Seq
  irs : Seq
  rtoMs : Nat
  retransCount : Nat
  /-- Milliseconds since the timer was started; 0 means not running. -/
  retransTimer : Nat
  mss : Nat
  sndWscale : Nat
  rcvWscale : Nat
  wscaleOk : Bool
  sackOk : Bool
  sackBlocks : List SackBlock
  rcvSackBlocks : List SackBlock
  oooBlocks : List OooBlock
  tsOk : Bool
  tsRecent : Seq
  tsVal : Seq
  send : RingBuf Byte BUFFER_SIZE
  recv : RingBuf Byte BUFFER_SIZE
  parentSocket : Option Nat
  blockedThread : Option Nat
  createdAt : Nat
  cwnd : Nat
  ssthresh : Nat
  srtt : Nat
  rttvar : Nat
  rttSeq : Seq
  rttStart : Nat
  lastAck : Seq
  dupAckCount : BitVec 8
  fastRecovery : Bool
  recover : Seq
  ackPending : Bool
  ackDue : Nat
  nodelay : Bool
  rcvBufSize : Nat
  sndBufSize : Nat
  tcpCork : Bool
  persistTimer : Nat
  persistBackoff : Nat
  generation : Nat
  listenAcceptCount : Nat

/-- `Tcb.init`. -/
def Tcb.init : Tcb where
  localAddr := .none
  localPort := 0
  remoteAddr := .none
  remotePort := 0
  state := .Closed
  closing := false
  sndUna := 0
  sndNxt := 0
  sndWnd := 0
  iss := 0
  sndWl1 := 0
  sndWl2 := 0
  rcvNxt := 0
  irs := 0
  rtoMs := INITIAL_RTO_MS
  retransCount := 0
  retransTimer := 0
  mss := DEFAULT_MSS
  sndWscale := 0
  rcvWscale := 0
  wscaleOk := false
  sackOk := false
  sackBlocks := []
  rcvSackBlocks := []
  oooBlocks := []
  tsOk := false
  tsRecent := 0
  tsVal := 0
  send := .empty 0
  recv := .empty 0
  parentSocket := none
  blockedThread := none
  createdAt := 0
  cwnd := INITIAL_CWND
  ssthresh := 65535
  srtt := 0
  rttvar := 750 * 4
  rttSeq := 0
  rttStart := 0
  lastAck := 0
  dupAckCount := 0
  fastRecovery := false
  recover := 0
  ackPending := false
  ackDue := 0
  nodelay := false
  rcvBufSize := 0
  sndBufSize := 0
  tcpCork := false
  persistTimer := 0
  persistBackoff := 0
  generation := 0
  listenAcceptCount := 0

namespace Tcb

/-- `updateRto`: Jacobson/Karels with scaled variables, `rttSample` in milliseconds. -/
def updateRto (t : Tcb) (rttSample : Nat) : Tcb :=
  let t :=
    if t.srtt = 0 then { t with srtt := rttSample * 8, rttvar := rttSample / 2 * 4 }
    else
      let srttVal := t.srtt / 8
      let diff := if rttSample > srttVal then rttSample - srttVal else srttVal - rttSample
      { t with
        rttvar := t.rttvar - t.rttvar / 4 + diff
        srtt := t.srtt - t.srtt / 8 + rttSample }
  { t with rtoMs := max 1000 (min (t.srtt / 8 + t.rttvar) MAX_RTO_MS) }

def isIpv6 (t : Tcb) : Bool := t.localAddr.isV6 && t.remoteAddr.isV6

def sendBufferLimit (t : Tcb) : Nat :=
  if t.sndBufSize = 0 then BUFFER_SIZE else min t.sndBufSize BUFFER_SIZE

/-- `sendBufferSpace`: one slot stays free, so the send ring is never written full. -/
def sendBufferSpace (t : Tcb) : Nat :=
  if t.send.used + 1 ≥ t.sendBufferLimit then 0 else t.sendBufferLimit - t.send.used - 1

/-- `recvBufferAvailable`: there is no such free slot on the receive side. -/
def recvBufferAvailable (t : Tcb) : Nat := t.recv.used

/-- The room in the receive ring as the receive path computes it. -/
def recvSpace (t : Tcb) : Nat :=
  if t.recvBufferAvailable ≥ BUFFER_SIZE then 0 else BUFFER_SIZE - t.recvBufferAvailable

/-- The receive buffer as `SO_RCVBUF` caps it. -/
def effectiveBuf (t : Tcb) : Nat :=
  if t.rcvBufSize = 0 then BUFFER_SIZE else min t.rcvBufSize BUFFER_SIZE

/-- The room below the cap, or 0 where less than the silly-window floor is free. -/
def effectiveSpace (t : Tcb) : Nat :=
  let space := t.effectiveBuf - min t.recvBufferAvailable t.effectiveBuf
  let swsFloor := min (t.effectiveBuf / 2) t.mss
  if space ≥ swsFloor then space else 0

/-- `currentRecvWindow`: right-shifted when scaling was negotiated. -/
def currentRecvWindow (t : Tcb) : Nat :=
  let scaled := if t.wscaleOk then t.effectiveSpace >>> t.rcvWscale else t.effectiveSpace
  min scaled 65535

theorem sendBufferSpace_lt (t : Tcb) (h : 0 < t.sendBufferSpace) :
    t.send.used + t.sendBufferSpace < BUFFER_SIZE := by
  have hl : t.sendBufferLimit ≤ BUFFER_SIZE := by
    unfold sendBufferLimit
    split <;> omega
  unfold sendBufferSpace at h ⊢
  split at h
  · omega
  · rename_i hu
    rw [if_neg hu]
    omega

theorem recvSpace_eq (t : Tcb) : t.recvSpace = BUFFER_SIZE - t.recv.used := by
  have h := t.recv.used_lt
  unfold recvSpace recvBufferAvailable
  split <;> omega

theorem recvSpace_pos (t : Tcb) : 0 < t.recvSpace := by
  have h := t.recv.used_lt
  rw [recvSpace_eq]
  omega

theorem effectiveSpace_le (t : Tcb) : t.effectiveSpace ≤ t.recvSpace := by
  have hb : t.effectiveBuf ≤ BUFFER_SIZE := by
    unfold effectiveBuf
    split <;> omega
  rw [recvSpace_eq]
  unfold effectiveSpace recvBufferAvailable
  simp only
  split <;> omega

/-- The window never promises more than the room in the receive ring. -/
theorem currentRecvWindow_le (t : Tcb) : t.currentRecvWindow ≤ t.recvSpace := by
  have hs : t.effectiveSpace >>> t.rcvWscale ≤ t.effectiveSpace := by
    rw [Nat.shiftRight_eq_div_pow]
    exact Nat.div_le_self _ _
  refine le_trans (Nat.min_le_left _ _) (le_trans ?_ t.effectiveSpace_le)
  split
  · exact hs
  · exact le_rfl

end Tcb

/-! ## 5. What the connection laws speak about -/

/-- The send stream: its numbers and what the application has written and the peer not yet
    acknowledged. -/
structure SendCore where
  iss : Seq
  sndUna : Seq
  sndNxt : Seq
  send : RingBuf Byte BUFFER_SIZE

/-- The receive stream: its numbers, the ring for the application, the out-of-order queue. -/
structure RecvCore where
  irs : Seq
  rcvNxt : Seq
  recv : RingBuf Byte BUFFER_SIZE
  oooBlocks : List OooBlock
  sackOk : Bool
  rcvSackBlocks : List SackBlock
  parentSocket : Option Nat

/-- The part of a TCB that the stream laws speak about. Everything else (windows, congestion
    control, timers, round-trip estimation) may decide WHETHER something is sent, never WHAT. -/
structure Core where
  state : TcpState
  closing : Bool
  retransCount : Nat
  snd : SendCore
  rcv : RecvCore

def Tcb.core (t : Tcb) : Core where
  state := t.state
  closing := t.closing
  retransCount := t.retransCount
  snd := { iss := t.iss, sndUna := t.sndUna, sndNxt := t.sndNxt, send := t.send }
  rcv :=
    { irs := t.irs, rcvNxt := t.rcvNxt, recv := t.recv, oooBlocks := t.oooBlocks,
      sackOk := t.sackOk, rcvSackBlocks := t.rcvSackBlocks, parentSocket := t.parentSocket }

end Zigk.Tcp
