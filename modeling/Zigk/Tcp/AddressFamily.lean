/-
  Subject:   ONE SEGMENT IN AN IPV4 AND IN AN IPV6 PACKET.

  The handlers take the length of the payload from the bytes at the IP offset, read as an IPv4
  header. For IPv6 these are the traffic class and the flow label.

  * `Arrival.inside` -- a segment with either header; `Agrees` -- both packets do the same to a
    TCB, and the payload has its real length;
  * `processPacket_congr` -- the payload length and one comparison are all that a handler sees of
    an IP header;
  * **`addressFamily`** -- the two agree exactly where the flow label happens to announce the
    segment; `addressFamily_refuted` -- three bytes with an empty flow label.
-/
import Zigk.Tcp.Connection

namespace Zigk.Tcp

open Packet

/-! ## 1. A segment in two packets -/

/-- A segment as it arrives, without its IP header. -/
structure Arrival where
  tcp : TcpHeader
  rest : List Byte
  isBroadcast : Bool := false
  isMulticast : Bool := false
  checksumOk : Bool := true

def Arrival.inside (a : Arrival) (ip : IpHeader) : Packet where
  ip := ip
  tcp := a.tcp
  rest := a.rest
  isBroadcast := a.isBroadcast
  isMulticast := a.isMulticast
  checksumOk := a.checksumOk

/-- What `processPacket` and `processPacket6` return for a packet that belongs to the TCB. -/
def handled (t : Tcb) (p : Packet) : Bool := p.valid && !t.closing

/-- The lengths in the IP header matter: the packet gets past the handshake. -/
def UsesLengths (t : Tcb) (p : Packet) : Prop :=
  handled t p = true ∧ t.state ≠ .SynSent ∧ t.state ≠ .SynReceived

/-- `processEstablished` gives up on a header that announces less than its own length. -/
def givesUp (t : Tcb) (ip : IpHeader) : Prop :=
  t.state = .Established ∧ ip.getTotalLength < ip.getHeaderLength

/-- The payload length as the handlers take it from the IP header. -/
def Packet.payloadLength (p : Packet) : Nat := p.ipPayloadLen - p.tcp.getDataOffset

/-- **The packet `p6` is processed as `p` is**, and its payload has the length it has. -/
structure Agrees (env : Env) (t : Tcb) (p p6 : Packet) : Prop where
  processed : processPacket env { tcb := t } p6 = processPacket env { tcb := t } p
  returned : handled t p6 = handled t p
  length : UsesLengths t p6 → p6.payloadLength = p6.payload.length ∧ ¬ givesUp t p6.ip

section Arrival

variable (env : Env) (t : Tcb) (c : Ctx) (a : Arrival) {ip ip6 : IpHeader}

/-! ## 2. What a handler sees of an IP header -/

theorem calculateSegmentLength_inside
    (hlen : (a.inside ip6).payloadLength = (a.inside ip).payloadLength) :
    calculateSegmentLength (a.inside ip6) = calculateSegmentLength (a.inside ip) := by
  unfold payloadLength at hlen
  unfold calculateSegmentLength
  rw [hlen]
  rfl

theorem seen_inside (hlen : (a.inside ip6).payloadLength = (a.inside ip).payloadLength) :
    (a.inside ip6).seen = (a.inside ip).seen := by
  unfold payloadLength at hlen
  unfold seen
  rw [hlen]
  rfl

theorem hasData_iff (p : Packet) : p.ipPayloadLen > p.tcp.getDataOffset ↔ 0 < p.payloadLength := by
  unfold payloadLength
  omega

theorem ackPhase_inside (hlen : (a.inside ip6).payloadLength = (a.inside ip).payloadLength)
    (h : ¬ ip.getTotalLength < ip.getHeaderLength)
    (h6 : ¬ ip6.getTotalLength < ip6.getHeaderLength) :
    ackPhase env c (a.inside ip6) = ackPhase env c (a.inside ip) := by
  unfold ackPhase
  simp only [hasData_iff, hlen]
  rw [if_neg (show ¬ (a.inside ip6).ip.getTotalLength < (a.inside ip6).ip.getHeaderLength from h6),
    if_neg (show ¬ (a.inside ip).ip.getTotalLength < (a.inside ip).ip.getHeaderLength from h)]
  rfl

theorem processEstablished_inside
    (hlen : (a.inside ip6).payloadLength = (a.inside ip).payloadLength)
    (h : ¬ ip.getTotalLength < ip.getHeaderLength)
    (h6 : ¬ ip6.getTotalLength < ip6.getHeaderLength) :
    processEstablished env c (a.inside ip6) = processEstablished env c (a.inside ip) := by
  have hdata : ∀ c, dataPhase env c (a.inside ip6) = dataPhase env c (a.inside ip) := by
    intro c
    unfold dataPhase
    rw [seen_inside a hlen]
    rfl
  unfold processEstablished
  simp only [ackPhase_inside env _ a hlen h h6, hdata]
  rw [if_neg (show ¬ (a.inside ip6).ip.getTotalLength < (a.inside ip6).ip.getHeaderLength from h6),
    if_neg (show ¬ (a.inside ip).ip.getTotalLength < (a.inside ip).ip.getHeaderLength from h)]
  rfl

theorem dispatch_inside (hlen : (a.inside ip6).payloadLength = (a.inside ip).payloadLength)
    (h : ¬ givesUp c.tcb ip) (h6 : ¬ givesUp c.tcb ip6) :
    dispatch env c (a.inside ip6) = dispatch env c (a.inside ip) := by
  unfold dispatch
  cases hs : c.tcb.state with
  | Established =>
    exact congrArg (·, RxAction.Continue) (processEstablished_inside env c a hlen
      (fun hlt => h ⟨hs, hlt⟩) fun hlt => h6 ⟨hs, hlt⟩)
  | Closed | Listen | SynSent | SynReceived | FinWait1 | FinWait2 | CloseWait | Closing | LastAck
  | TimeWait => rfl

theorem processEstablishedPacket_inside
    (hlen : (a.inside ip6).payloadLength = (a.inside ip).payloadLength)
    (h : ¬ givesUp c.tcb ip) (h6 : ¬ givesUp c.tcb ip6) :
    processEstablishedPacket env c (a.inside ip6) =
      processEstablishedPacket env c (a.inside ip) := by
  have hcalc := calculateSegmentLength_inside a hlen
  have hacceptable : ∀ t, acceptable t (a.inside ip6) = acceptable t (a.inside ip) := by
    intro t
    unfold acceptable
    rw [hcalc]
    rfl
  have hnote : ∀ t, noteTimestamp t (a.inside ip6) = noteTimestamp t (a.inside ip) := by
    intro t
    unfold noteTimestamp
    rw [hcalc]
    rfl
  -- the timestamp does not change the state
  have hstate : (noteTimestamp c.tcb (a.inside ip)).state = c.tcb.state :=
    congrArg Core.state (noteTimestamp_core c.tcb _)
  have hdispatch := dispatch_inside env (c.upd fun t => noteTimestamp t (a.inside ip)) a hlen
    (fun hg => h ⟨hstate.symm.trans hg.1, hg.2⟩) fun hg => h6 ⟨hstate.symm.trans hg.1, hg.2⟩
  unfold processEstablishedPacket
  simp only [hacceptable, hnote, hdispatch]
  rfl

/-- **The payload length is all that the processing of a packet takes from its IP header**, but for
    what makes `processEstablished` give up. -/
theorem processSegment_inside
    (hlen : c.tcb.state ≠ .SynSent → c.tcb.state ≠ .SynReceived →
      (a.inside ip6).payloadLength = (a.inside ip).payloadLength ∧ ¬ givesUp c.tcb ip ∧
        ¬ givesUp c.tcb ip6) :
    processSegment env c (a.inside ip6) = processSegment env c (a.inside ip) := by
  unfold processSegment
  by_cases hreceived : c.tcb.state = .SynReceived
  · rw [if_pos hreceived, if_pos hreceived]
    rfl
  rw [if_neg hreceived, if_neg hreceived]
  by_cases hsent : c.tcb.state = .SynSent
  · unfold processEstablishedPacket
    rw [if_pos hsent, if_pos hsent]
    rfl
  · obtain ⟨hlen, h, h6⟩ := hlen hsent hreceived
    rw [processEstablishedPacket_inside env c a hlen h h6]

theorem processPacket_not_handled {p : Packet} (h : handled t p = false) :
    processPacket env { tcb := t } p = ({ tcb := t }, .Continue) := by
  unfold handled at h
  unfold processPacket processSegment
  cases hv : p.valid with
  | false => rfl
  | true =>
    have hc : t.closing = true := by simpa [hv] using h
    rw [if_pos rfl, if_pos hc]

/-! ## 3. The two headers -/

variable {ihl : BitVec 4} {tos trafficClass : BitVec 8} {totalLength payloadLength : BitVec 16}
  {flowLabel : BitVec 20} {extLen : Nat} {src dst : BitVec 32} {src6 dst6 : BitVec 128}

/-- The flow label and the traffic class of an IPv6 header, read as lengths, announce the payload,
    and to an established connection also a header. -/
def Announces (state : TcpState) (trafficClass : BitVec 8) (flowLabel : BitVec 20) : Prop :=
  flowLabel.toNat % 65536 - trafficClass.toNat / 16 * 4 - a.tcp.getDataOffset =
      a.rest.length - (a.tcp.getDataOffset - TCP_HEADER_SIZE) ∧
    (state = .Established → trafficClass.toNat / 16 * 4 ≤ flowLabel.toNat % 65536)

theorem payload_length (ip : IpHeader) : (a.inside ip).payload.length =
    a.rest.length - (a.tcp.getDataOffset - TCP_HEADER_SIZE) := List.length_drop

theorem valid_v4 (h : (a.inside (.v4 ihl tos totalLength src dst)).Trimmed) :
    (a.inside (.v4 ihl tos totalLength src dst)).valid =
      (decide (TCP_HEADER_SIZE ≤ a.tcp.getDataOffset) && a.checksumOk &&
        !(a.isBroadcast || a.isMulticast)) := by
  have h : totalLength.toNat = ihl.toNat * 4 + (TCP_HEADER_SIZE + a.rest.length) := h
  unfold valid segmentLen Arrival.inside
  dsimp only
  rw [getHeaderLength_v4, getTotalLength_v4, decide_eq_true (show ihl.toNat * 4 ≤ _ by omega),
    decide_eq_true (show totalLength.toNat - ihl.toNat * 4 ≤ _ by omega), Bool.and_true,
    Bool.and_true]

theorem valid_v6
    (h : (a.inside (.v6 trafficClass flowLabel payloadLength extLen src6 dst6)).Trimmed) :
    (a.inside (.v6 trafficClass flowLabel payloadLength extLen src6 dst6)).valid =
      (decide (TCP_HEADER_SIZE ≤ a.tcp.getDataOffset) && decide (extLen = 0) && a.checksumOk &&
        !(a.isBroadcast || a.isMulticast)) := by
  have h : payloadLength.toNat = extLen + (TCP_HEADER_SIZE + a.rest.length) := h
  have hfits : payloadLength.toNat ≤ TCP_HEADER_SIZE + a.rest.length ↔ extLen = 0 := by omega
  unfold valid segmentLen Arrival.inside
  dsimp only
  rw [decide_eq_decide.2 hfits]

theorem payloadLength_v4 (h : (a.inside (.v4 ihl tos totalLength src dst)).Trimmed)
    (hoffset : TCP_HEADER_SIZE ≤ a.tcp.getDataOffset) :
    (a.inside (.v4 ihl tos totalLength src dst)).payloadLength =
        a.rest.length - (a.tcp.getDataOffset - TCP_HEADER_SIZE) ∧
      ¬ givesUp t (.v4 ihl tos totalLength src dst) := by
  have h : totalLength.toNat = ihl.toNat * 4 + (TCP_HEADER_SIZE + a.rest.length) := h
  unfold payloadLength ipPayloadLen givesUp Arrival.inside
  dsimp only
  rw [getHeaderLength_v4, getTotalLength_v4]
  simp only [TCP_HEADER_SIZE] at h hoffset ⊢
  omega

theorem payloadLength_v6 :
    (a.inside (.v6 trafficClass flowLabel payloadLength extLen src6 dst6)).payloadLength =
        a.rest.length - (a.tcp.getDataOffset - TCP_HEADER_SIZE) ∧
      ¬ givesUp t (.v6 trafficClass flowLabel payloadLength extLen src6 dst6) ↔
    Announces a t.state trafficClass flowLabel := by
  unfold Packet.payloadLength Packet.ipPayloadLen givesUp Announces Arrival.inside
  dsimp only
  rw [getHeaderLength_v6, getTotalLength_v6, not_and, not_lt]

/-- **A segment in an IPv6 packet is processed as in an IPv4 packet exactly where the IPv6 header,
    read as an IPv4 header, announces its payload**, if its lengths are looked at, and no extension
    header stands in front of it. -/
theorem addressFamily
    (h : (a.inside (.v4 ihl tos totalLength src dst)).Trimmed)
    (h6 : (a.inside (.v6 trafficClass flowLabel payloadLength extLen src6 dst6)).Trimmed) :
    Agrees env t (a.inside (.v4 ihl tos totalLength src dst))
        (a.inside (.v6 trafficClass flowLabel payloadLength extLen src6 dst6)) ↔
      (handled t (a.inside (.v4 ihl tos totalLength src dst)) = true →
        extLen = 0 ∧ (t.state = .SynSent ∨ t.state = .SynReceived ∨
          Announces a t.state trafficClass flowLabel)) := by
  set p := a.inside (.v4 ihl tos totalLength src dst) with hp
  set p6 := a.inside (.v6 trafficClass flowLabel payloadLength extLen src6 dst6) with hp6
  have hvalid := valid_v4 a h
  have hvalid6 := valid_v6 a h6
  have hpayload : p6.payload.length = a.rest.length - (a.tcp.getDataOffset - TCP_HEADER_SIZE) :=
    payload_length a p6.ip
  -- an IPv6 packet that passes the checks has no extension headers
  have hchecks : p6.valid = true ↔ p.valid = true ∧ extLen = 0 := by
    rw [hvalid, hvalid6]
    simp only [Bool.and_eq_true, decide_eq_true_eq]
    tauto
  constructor
  · intro hagrees hhandled
    have hhandled6 : handled t p6 = true := hagrees.returned.trans hhandled
    refine ⟨(hchecks.1 (Bool.and_eq_true_iff.1 hhandled6).1).2, ?_⟩
    by_cases hsent : t.state = .SynSent
    · exact .inl hsent
    by_cases hreceived : t.state = .SynReceived
    · exact .inr (.inl hreceived)
    · have hlength := hagrees.length ⟨hhandled6, hsent, hreceived⟩
      rw [hpayload] at hlength
      exact .inr (.inr ((payloadLength_v6 t a).1 hlength))
  · intro hcond
    cases hhandled : handled t p with
    | false =>
      have hhandled6 : handled t p6 = false := by
        refine Bool.eq_false_of_not_eq_true fun h6 => ?_
        obtain ⟨hv6, hc⟩ := Bool.and_eq_true_iff.1 h6
        have hhandled' : handled t p = true := Bool.and_eq_true_iff.2 ⟨(hchecks.1 hv6).1, hc⟩
        rw [hhandled] at hhandled'
        cases hhandled'
      refine ⟨?_, hhandled6.trans hhandled.symm, fun hu => ?_⟩
      · rw [processPacket_not_handled env t hhandled, processPacket_not_handled env t hhandled6]
      · exact absurd hu.1 (by rw [hhandled6]; exact Bool.false_ne_true)
    | true =>
      obtain ⟨hext, hannounces⟩ := hcond hhandled
      have hv : p.valid = true := (Bool.and_eq_true_iff.1 hhandled).1
      have hv6 : p6.valid = true := hchecks.2 ⟨hv, hext⟩
      have hoffset : TCP_HEADER_SIZE ≤ a.tcp.getDataOffset := by
        rw [hvalid] at hv
        simp only [Bool.and_eq_true, decide_eq_true_eq] at hv
        exact hv.1.1
      obtain ⟨hlen, hgives⟩ := payloadLength_v4 t a h hoffset
      have hread : t.state ≠ .SynSent → t.state ≠ .SynReceived →
          p6.payloadLength = a.rest.length - (a.tcp.getDataOffset - TCP_HEADER_SIZE) ∧
            ¬ givesUp t p6.ip := fun hsent hreceived =>
        (payloadLength_v6 t a).2 ((hannounces.resolve_left hsent).resolve_left hreceived)
      refine ⟨?_, ?_, fun hu => ?_⟩
      · unfold processPacket
        rw [if_pos hv6, if_pos hv]
        exact processSegment_inside env { tcb := t } a fun hsent hreceived =>
          ⟨(hread hsent hreceived).1.trans hlen.symm, hgives, (hread hsent hreceived).2⟩
      · unfold handled
        rw [hv6, hv]
      · rw [hpayload]
        exact hread hu.2.1 hu.2.2

end Arrival

/-! ## 4. Three bytes -/

/-- Three bytes for a connection that waits for them. -/
def threeBytes : Arrival where
  tcp :=
    { srcPort := 1
      dstPort := 2
      seqNum := 0
      ackNum := 0
      dataOffset := 5
      flags := { psh := true }
      window := 0 }
  rest := [1, 2, 3]

def waiting : Tcb := { Tcb.init with state := .Established }

/-- The flow label has the length of the segment. -/
theorem addressFamily_threeBytes :
    Agrees {} waiting (threeBytes.inside (.v4 5 0 43 1 2))
      (threeBytes.inside (.v6 0 23 23 0 1 2)) := by
  have h : (threeBytes.inside (.v4 5 0 43 1 2)).Trimmed := rfl
  have h6 : (threeBytes.inside (.v6 0 23 23 0 1 2)).Trimmed := rfl
  refine (addressFamily {} waiting threeBytes h h6).2 fun _ => ⟨rfl, .inr (.inr ?_)⟩
  exact ⟨by decide, fun _ => by decide⟩

/-- With an empty flow label nothing arrives. -/
theorem addressFamily_refuted : ¬ ∀ (env : Env) (t : Tcb) (a : Arrival) (ihl : BitVec 4)
    (tos trafficClass : BitVec 8) (totalLength payloadLength : BitVec 16) (flowLabel : BitVec 20)
    (extLen : Nat) (src dst : BitVec 32) (src6 dst6 : BitVec 128),
    (a.inside (.v4 ihl tos totalLength src dst)).Trimmed →
    (a.inside (.v6 trafficClass flowLabel payloadLength extLen src6 dst6)).Trimmed →
    Agrees env t (a.inside (.v4 ihl tos totalLength src dst))
      (a.inside (.v6 trafficClass flowLabel payloadLength extLen src6 dst6)) := by
  intro h
  have hagrees := h {} waiting threeBytes 5 0 0 43 23 0 0 1 2 1 2 rfl rfl
  have hnext : (processPacket {} { tcb := waiting }
        (threeBytes.inside (.v6 0 0 23 0 1 2))).1.tcb.rcvNxt ≠
      (processPacket {} { tcb := waiting } (threeBytes.inside (.v4 5 0 43 1 2))).1.tcb.rcvNxt := by
    decide +kernel
  exact hnext (congrArg (·.1.tcb.rcvNxt) hagrees.processed)

end Zigk.Tcp
