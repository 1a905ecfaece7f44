/-
  Subject:   WHAT ONE EVENT CAN DO TO A CONNECTION, its send stream above all.

  The laws about the send stream never look into the handlers again; they use

  * `reachesHandler` -- the tests a packet passes before the handler of the state sees it;
    `processPacket_handler`, `processPacket_other` -- what happens where it does and where not;
  * `SendStep`, **`handle_send`** -- all an event can do to the send stream, and what it sends.

  `SendPoint` names the TCBs on which `transmitPendingData` is called.
-/
import Zigk.Tcp.Connection

namespace Zigk.Tcp

open Bool Zigk.Tcp.Core

open Serial (dist place)

/-! ## 1. Packets in front of the handlers -/

/-- The packet passes every test and is handed to the handler of the state. -/
def reachesHandler (t : Tcb) (p : Packet) : Bool :=
  p.valid && !t.closing && decide (t.state ≠ .SynSent ∧ t.state ≠ .SynReceived) &&
    !pawsRejects t p && acceptable t p && !p.tcp.flags.rst

variable {p : Packet}

theorem processPacket_handler (env : Env) {c : Ctx} (h : reachesHandler c.tcb p = true) :
    processPacket env c p = dispatch env (c.upd fun t => noteTimestamp t p) p := by
  simp only [reachesHandler, and_eq_true, not_eq_true', decide_eq_true_eq] at h
  obtain ⟨⟨⟨⟨⟨hv, hc⟩, hs⟩, hp⟩, ha⟩, hr⟩ := h
  rw [processPacket, if_pos hv, processSegment, if_neg (by rw [hc]; decide), if_neg hs.2,
    processEstablishedPacket, if_neg hs.1, if_neg (by rw [hp]; decide)]
  simp only [ha, hr, Bool.not_true, false_eq_true, if_false]

/-- The SYN of the peer in SynSent, with or without the right acknowledgement. -/
def opensActive (t : Tcb) (p : Packet) : Bool :=
  decide (t.state = .SynSent) && p.tcp.flags.syn && !p.tcp.flags.rst &&
    (!p.tcp.flags.ack || decide (p.tcp.ackNum = t.iss + 1))

variable {t : Tcb}

theorem opensActive_state (h : opensActive t p = true) :
    t.state = .SynSent := by
  simp only [opensActive, and_eq_true, decide_eq_true_eq] at h
  exact h.1.1.1

/-- The acknowledgement of the SYN-ACK in SynReceived. -/
def opensPassive (t : Tcb) (p : Packet) : Bool :=
  decide (t.state = .SynReceived) && p.tcp.flags.ack && decide (p.tcp.ackNum = t.iss + 1)

/-- A segment that acknowledges without a word about data. -/
def Segment.Answers (t : Tcb) (s : Segment) : Prop := s.Control ∧ s.Reports t

theorem Segment.Answers.congr {t' : Tcb} (h : t'.core.rcv = t.core.rcv) {s : Segment}
    (hs : s.Answers t') : s.Answers t := ⟨hs.1, hs.2.congr h⟩

theorem sendAck_answers (env : Env) (c : Ctx) : c.Adds (Segment.Answers c.tcb) (sendAck env c).1 :=
  sendAck_adds env c

theorem sendRst_answers (env : Env) (c : Ctx) : c.Adds (Segment.Answers c.tcb) (sendRst env c).1 :=
  (sendRst_adds env c).mono fun _ h => ⟨h.1, .inl h.2⟩

/-- **All an active opening can do** with a packet that is no RST: answer it, give up, or open. -/
theorem processSynSent_cases (env : Env) (c : Ctx) (p : Packet) (hs : c.tcb.state = .SynSent)
    (hr : p.tcp.flags.rst = false) :
    (processSynSent env c p = (c, .Continue)) ∨
    ((processSynSent env c p).2 = .FreeTcb ∧ (processSynSent env c p).1.tcb.iss = c.tcb.iss ∧
      c.Adds (Segment.Answers c.tcb) (processSynSent env c p).1) ∨
    (opensActive c.tcb p = true ∧ (processSynSent env c p).2 = .Continue ∧
      ∃ k, (processSynSent env c p).1.tcb.core =
        { c.tcb.core with
          state := .Established
          retransCount := 0
          snd.sndUna := if p.tcp.flags.ack then c.tcb.iss + 1 else c.tcb.sndUna
          rcv.irs := p.tcp.seqNum
          rcv.rcvNxt := p.tcp.seqNum + 1
          rcv.sackOk := k } ∧
        c.Adds (Segment.Answers (processSynSent env c p).1.tcb) (processSynSent env c p).1) := by
  unfold processSynSent
  cases hsyn : p.tcp.flags.syn with
  | false => exact .inl (if_pos rfl)
  | true =>
    right
    simp only [Bool.not_true, false_eq_true, if_false]
    split
    · refine .inl ⟨rfl, ?_, ?_⟩
      · refine (congrArg (·.snd.iss) (wakeBlocked_core _)).trans ?_
        rw [completePendingConnect_tcb]
        rfl
      have hclosed : (sendRst env c).1.Adds (Segment.Answers c.tcb)
          ((sendRst env c).1.upd fun t => { t with state := .Closed }) := .of_out_eq rfl
      exact ((sendRst_answers env c).trans hclosed).trans
        ((completePendingConnect_adds _ false _).trans (wakeBlocked_adds _ _))
    rename_i hack
    have hopens : opensActive c.tcb p = true ∧
        (p.tcp.flags.ack = true → p.tcp.ackNum = c.tcb.iss + 1) := by
      cases ha : p.tcp.flags.ack with
      | true => simpa [opensActive, hs, hsyn, hr, ha] using hack
      | false => simp [opensActive, hs, hsyn, hr, ha]
    generalize hc1 : (c.upd fun t => if p.tcp.flags.ack then { t with sndUna := p.tcp.ackNum } else t) = c1
    have h1 : c1.tcb.core = { c.tcb.core with
        snd.sndUna := if p.tcp.flags.ack then c.tcb.iss + 1 else c.tcb.sndUna } := by
      rw [← hc1, upd_tcb]
      cases ha : p.tcp.flags.ack with
      | true => simp only [if_true, ← hopens.2 ha]; rfl
      | false => rfl
    generalize hc2 : (c1.upd fun t => { t with irs := p.tcp.seqNum, rcvNxt := p.tcp.seqNum + 1 }) = c2
    have h2 : c2.tcb.core =
        { c1.tcb.core with rcv.irs := p.tcp.seqNum, rcv.rcvNxt := p.tcp.seqNum + 1 } := by
      rw [← hc2]
      rfl
    obtain ⟨k, hk⟩ := takeSynOptions_core c2.tcb p
    generalize hc3 : ((c2.upd fun t => takeSynOptions t p).upd fun t =>
      { t with state := .Established, retransTimer := 0, retransCount := 0 }) = c3
    have h3 : c3.tcb.core = { c2.tcb.core with
        state := .Established, retransCount := 0, rcv.sackOk := k } := by
      have e : c3.tcb.core = { (takeSynOptions c2.tcb p).core with
          state := .Established, retransCount := 0 } := by
        rw [← hc3]
        rfl
      rw [e, hk]
    have hout : c.Adds (Segment.Answers c3.tcb) c3 := by
      refine .of_out_eq ?_
      rw [← hc3, ← hc2, ← hc1]
      rfl
    have hwake : (completePendingConnect c3 true).wakeBlocked.tcb.core = c3.tcb.core := by
      rw [wakeBlocked_core, completePendingConnect_tcb]
    have hcore := (sendAck_core env (completePendingConnect c3 true).wakeBlocked).trans hwake
    refine .inr ⟨hopens.1, rfl, k, ?_, ?_⟩
    · rw [hcore, h3, h2, h1]
    have hadds := ((hout.trans (completePendingConnect_adds c3 true _)).trans
      (wakeBlocked_adds _ _)).trans ((sendAck_answers env _).mono fun s hs =>
        hs.congr (congrArg rcv hwake))
    exact hadds.mono fun s hs => hs.congr (congrArg rcv hcore).symm

/-- **All a packet can do that does not reach the handler of the state**: be answered, end the
    connection, or complete the handshake. -/
theorem processPacket_other (env : Env) (c : Ctx) (p : Packet) (h : reachesHandler c.tcb p = false) :
    ((processPacket env c p).2 = .Continue ∧ (processPacket env c p).1.tcb.core = c.tcb.core ∧
      c.Adds (Segment.Answers c.tcb) (processPacket env c p).1) ∨
    ((processPacket env c p).2 = .FreeTcb ∧ (processPacket env c p).1.tcb.iss = c.tcb.iss ∧
      c.Adds (Segment.Answers c.tcb) (processPacket env c p).1) ∨
    (opensActive c.tcb p = true ∧ (processPacket env c p).2 = .Continue ∧
      ∃ k, (processPacket env c p).1.tcb.core =
        { c.tcb.core with
          state := .Established
          retransCount := 0
          snd.sndUna := if p.tcp.flags.ack then c.tcb.iss + 1 else c.tcb.sndUna
          rcv.irs := p.tcp.seqNum
          rcv.rcvNxt := p.tcp.seqNum + 1
          rcv.sackOk := k } ∧
        c.Adds (Segment.Answers (processPacket env c p).1.tcb) (processPacket env c p).1) ∨
    (opensPassive c.tcb p = true ∧ (processPacket env c p).2 = .Continue ∧
      (processPacket env c p).1.tcb.core =
        { c.tcb.core with state := .Established, retransCount := 0, snd.sndUna := c.tcb.iss + 1 } ∧
      (processPacket env c p).1.out = c.out) := by
  unfold processPacket
  cases hv : p.valid with
  | false => exact .inl ⟨rfl, rfl, .rfl⟩
  | true =>
  simp only [if_true]
  unfold processSegment
  cases hcl : c.tcb.closing with
  | true => exact .inl ⟨rfl, rfl, .rfl⟩
  | false =>
  simp only [false_eq_true, if_false]
  split
  · rename_i hs
    -- SynReceived: the listening socket may still refuse the connection
    unfold processSynReceivedLocked
    cases ha : p.tcp.flags.ack with
    | false => exact .inl ⟨rfl, rfl, .rfl⟩
    | true =>
    simp only [Bool.not_true, false_eq_true, if_false]
    split
    · exact .inl ⟨rfl, rfl, sendRst_answers env c⟩
    rename_i hack
    simp only [if_true]
    unfold handleSynReceivedEstablished
    split
    · refine .inr (.inr (.inr ⟨?_, rfl, ?_, rfl⟩))
      · simpa [opensPassive, hs, ha] using hack
      · have e : p.tcp.ackNum = c.tcb.iss + 1 := by simpa using hack
        rw [← e]
        rfl
    · exact .inr (.inl ⟨rfl, rfl, .emit_segment ⟨⟨rfl, rfl⟩, .inl rfl⟩⟩)
  rename_i hsr
  unfold processEstablishedPacket
  split
  · rename_i hss
    cases hr : p.tcp.flags.rst with
    | true =>
      simp only [if_true]
      exact .inr (.inl ⟨rfl, congrArg (·.snd.iss) (handleRst_core c), handleRst_adds c _⟩)
    | false =>
      simp only [false_eq_true, if_false]
      rcases processSynSent_cases env c p hss hr with h1 | h1 | h1
      · exact .inl (by rw [h1]; exact ⟨rfl, rfl, .rfl⟩)
      · exact .inr (.inl h1)
      · exact .inr (.inr (.inl h1))
  rename_i hss
  split
  · exact .inl ⟨rfl, rfl, .rfl⟩
  rename_i hp
  have hcore := noteTimestamp_core c.tcb p
  have hcong : ∀ s : Segment, s.Answers (noteTimestamp c.tcb p) → s.Answers c.tcb :=
    fun s hs => hs.congr (congrArg rcv hcore)
  have hack : c.Adds (Segment.Answers c.tcb)
      (sendAck env (c.upd fun t => noteTimestamp t p)).1 :=
    .trans (.of_out_eq rfl) ((sendAck_answers env (c.upd fun t => noteTimestamp t p)).mono hcong)
  have hackc : (sendAck env (c.upd fun t => noteTimestamp t p)).1.tcb.core = c.tcb.core :=
    (sendAck_core env _).trans hcore
  simp only
  split
  · refine .inl ⟨rfl, ?_⟩
    unfold rejectSegment
    split
    · exact ⟨hcore, .of_out_eq rfl⟩
    · exact ⟨hackc, hack⟩
  rename_i hok
  split
  · split
    · refine .inr (.inl ⟨rfl, ?_, ?_⟩)
      · exact (congrArg (·.snd.iss) (handleRst_core (c.upd fun t => noteTimestamp t p))).trans
          (congrArg (·.snd.iss) hcore :)
      exact .trans (.of_out_eq rfl) (handleRst_adds (c.upd fun t => noteTimestamp t p) _)
    · exact .inl ⟨rfl, hackc, hack⟩
  · rename_i hrst
    -- everything passed: the packet does reach the handler
    simp only [Bool.not_eq_true, not_eq_false'] at hok hrst hp
    simp [reachesHandler, hv, hcl, hss, hsr, hp, hok, hrst] at h

/-! ## 2. The handlers -/

/-- Where a packet leads from the states that wait for the end of the connection. -/
def nextState (t : Tcb) (p : Packet) : TcpState :=
  match t.state with
  | .FinWait1 =>
    if acksAll t p then if p.tcp.flags.fin then .TimeWait else .FinWait2
    else if p.tcp.flags.fin then .Closing else .FinWait1
  | .FinWait2 => if p.tcp.flags.fin then .TimeWait else .FinWait2
  | .Closing => if acksAll t p then .TimeWait else .Closing
  | .LastAck => if acksAll t p then .Closed else .LastAck
  | s => s

/-- A FIN that one of the half-closed states steps over. -/
def takesFin (t : Tcb) (p : Packet) : Bool :=
  p.tcp.flags.fin && decide (t.state = .FinWait1 ∨ t.state = .FinWait2)

/-- **The states other than Established and CloseWait**: a packet moves the state on, and `rcv_nxt`
    over a FIN; no data is taken and no stream variable changes. -/
theorem dispatch_closing (env : Env) (c : Ctx) (p : Packet) (h1 : c.tcb.state ≠ .Established)
    (h2 : c.tcb.state ≠ .CloseWait) :
    (dispatch env c p).1.tcb.core =
        { c.tcb.core with
          state := nextState c.tcb p
          rcv.rcvNxt := if takesFin c.tcb p then c.tcb.rcvNxt + 1 else c.tcb.rcvNxt } ∧
      c.Adds (Segment.Answers (dispatch env c p).1.tcb) (dispatch env c p).1 := by
  -- an ACK sent after a change of the TCB speaks about the changed TCB
  have hack : ∀ f : Tcb → Tcb, c.Adds (Segment.Answers (sendAck env (c.upd f)).1.tcb)
      (sendAck env (c.upd f)).1 := fun f =>
    .trans (.of_out_eq rfl) ((sendAck_answers env (c.upd f)).mono fun s hs =>
      hs.congr (congrArg rcv (sendAck_core env (c.upd f))).symm)
  have stay : ∀ c' : Ctx, c'.tcb.core = c.tcb.core → c.Adds (Segment.Answers c.tcb) c' →
      nextState c.tcb p = c.tcb.state → takesFin c.tcb p = false →
      c'.tcb.core = { c.tcb.core with
          state := nextState c.tcb p
          rcv.rcvNxt := if takesFin c.tcb p then c.tcb.rcvNxt + 1 else c.tcb.rcvNxt } ∧
        c.Adds (Segment.Answers c'.tcb) c' := by
    intro c' hc ha hn ht
    refine ⟨?_, ha.mono fun s hs => hs.congr (congrArg rcv hc).symm⟩
    rw [hn, ht]
    exact hc
  unfold dispatch
  cases hs : c.tcb.state with
  | Established => exact absurd hs h1
  | CloseWait => exact absurd hs h2
  | FinWait1 =>
    simp only [processFinWait1]
    cases ha : acksAll c.tcb p <;> cases hf : p.tcp.flags.fin <;>
      simp only [false_eq_true, if_false, if_true]
    · exact stay c rfl .rfl (by simp [nextState, hs, ha, hf]) (by simp [takesFin, hf])
    · refine ⟨(sendAck_core env _).trans ?_, hack _⟩
      simp only [nextState, takesFin, hs, ha, hf]
      rfl
    · refine ⟨?_, .of_out_eq rfl⟩
      simp only [nextState, takesFin, hs, ha, hf]
      rfl
    · refine ⟨(sendAck_core env _).trans ?_, hack _⟩
      simp only [nextState, takesFin, hs, ha, hf]
      rfl
  | FinWait2 =>
    simp only [processFinWait2]
    cases hf : p.tcp.flags.fin <;> simp only [false_eq_true, if_false, if_true]
    · exact stay c rfl .rfl (by simp [nextState, hs, hf]) (by simp [takesFin, hf])
    · refine ⟨(sendAck_core env _).trans ?_, hack _⟩
      simp only [nextState, takesFin, hs, hf]
      rfl
  | Closing =>
    simp only [processClosing]
    cases ha : acksAll c.tcb p <;> simp only [false_eq_true, if_false, if_true]
    · exact stay c rfl .rfl (by simp [nextState, hs, ha]) (by simp [takesFin, hs])
    refine ⟨?_, .of_out_eq rfl⟩
    have ht : takesFin c.tcb p = false := by simp [takesFin, hs]
    rw [ht, nextState, hs, ha]
    rfl
  | LastAck =>
    simp only [processLastAck]
    cases ha : acksAll c.tcb p <;> simp only [false_eq_true, if_false, if_true]
    · exact stay c rfl .rfl (by simp [nextState, hs, ha]) (by simp [takesFin, hs])
    refine ⟨?_, .of_out_eq rfl⟩
    have ht : takesFin c.tcb p = false := by simp [takesFin, hs]
    rw [ht, nextState, hs, ha]
    rfl
  | TimeWait =>
    have ht : takesFin c.tcb p = false := by simp [takesFin, hs]
    have hn : nextState c.tcb p = c.tcb.state := by simp [nextState, hs]
    simp only [processTimeWait]
    cases hr : p.tcp.flags.rst <;> cases hf : p.tcp.flags.fin <;>
      simp only [false_eq_true, if_false, if_true]
    · exact stay c rfl .rfl hn ht
    · exact stay _ (sendAck_core env _)
        (.trans (.of_out_eq rfl) (sendAck_answers env (c.upd fun t => { t with createdAt := env.now })))
        hn ht
    · exact stay c rfl .rfl hn ht
    · exact stay c rfl .rfl hn ht
  | Closed | Listen | SynSent | SynReceived =>
    exact stay c rfl .rfl (by simp [nextState, hs]) (by simp [takesFin, hs])

/-- In these states only the acknowledgement of the FIN in LastAck ends the connection. -/
theorem dispatch_freed (env : Env) (c : Ctx) (p : Packet) (h : (dispatch env c p).2 = .FreeTcb) :
    (dispatch env c p).1.tcb.iss = c.tcb.iss ∧ (dispatch env c p).1.out = c.out := by
  unfold dispatch at h ⊢
  split at h <;> first | cases h | skip
  unfold processLastAck at h ⊢
  split at h
  · rename_i ha
    rw [if_pos ha]
    exact ⟨rfl, rfl⟩
  · cases h

/-- The TCB as the phases of `processEstablished` find it. -/
def seenTcb (t : Tcb) (p : Packet) : Tcb := sackPhase (noteTimestamp t p) p

@[simp] theorem seenTcb_core (t : Tcb) (p : Packet) : (seenTcb t p).core = t.core := by
  rw [seenTcb, sackPhase_core, noteTimestamp_core]

/-- Which ACK numbers are new depends on the send stream only. -/
theorem acksNew_congr {t' : Tcb} (h : t'.core.snd = t.core.snd) (p : Packet) :
    acksNew t' p = acksNew t p := by
  have h1 : t'.sndUna = t.sndUna := congrArg (·.sndUna) h
  have h2 : t'.sndNxt = t.sndNxt := congrArg (·.sndNxt) h
  rw [acksNew, acksNew, h1, h2]

/-- `transmitPendingData` moves nothing but `snd_nxt`. -/
theorem transmitPendingData_core (env : Env) (c : Ctx) :
    ∃ n, (transmitPendingData env c).tcb.core = { c.tcb.core with snd.sndNxt := n } := by
  rcases transmitPendingData_cases env c with ⟨h, -⟩ | ⟨len, s, -, -, -, -, -, h⟩
  · exact ⟨c.tcb.sndNxt, h⟩
  · exact ⟨_, h⟩

theorem transmitPendingData_adds (env : Env) (c : Ctx) :
    c.Adds (fun s => s.options = []) (transmitPendingData env c) := by
  rcases transmitPendingData_cases env c with ⟨-, h⟩ | ⟨len, s, -, h, hp, -⟩
  · exact .of_out_eq h
  refine ⟨[.segment s], h, fun s' hs' => ?_⟩
  rw [segments_segment, List.mem_singleton] at hs'
  rw [hs']
  exact hp.noOptions

/-- The acknowledgement phase touches the send stream only, and sends no options. -/
theorem ackPhase_keeps (env : Env) (c : Ctx) (p : Packet) :
    (∃ snd, (ackPhase env c p).1.tcb.core = { c.tcb.core with snd := snd }) ∧
      c.Adds (fun s => s.options = []) (ackPhase env c p).1 := by
  have hre : ∀ s, Retransmits c.tcb s → s.options = [] := fun s ⟨_, _, hp, _⟩ => hp.noOptions
  rcases ackPhase_cases env c p with ⟨-, h⟩ | ⟨-, c1, hc1, ha1, h | ⟨-, -, -, h⟩⟩
  · obtain ⟨n, hn⟩ := transmitPendingData_core env (ackForward env c p.tcp.ackNum)
    rw [h]
    refine ⟨⟨{ (ackForward env c p.tcp.ackNum).tcb.core.snd with sndNxt := n }, ?_⟩, ?_⟩
    · rw [hn, ackForward_core]
    · exact ((ackForward_adds env c p.tcp.ackNum).mono hre).trans (transmitPendingData_adds env _)
  · rw [h]
    exact ⟨⟨c.tcb.core.snd, hc1⟩, ha1.mono hre⟩
  · obtain ⟨n, hn⟩ := transmitPendingData_core env c1
    rw [h]
    refine ⟨⟨{ c1.tcb.core.snd with sndNxt := n }, ?_⟩, ?_⟩
    · rw [hn, hc1]
    · exact (ha1.mono hre).trans (transmitPendingData_adds env c1)

/-- **The Established handler**: after the acknowledgement phase the payload and the FIN, unless
    the IP header announces less than its own length. `c1` is the context before the payload. -/
theorem processEstablished_cases (env : Env) (c : Ctx) (p : Packet) :
    ∃ c1, c1.tcb.core = (ackPhase env (c.upd fun t => sackPhase t p) p).1.tcb.core ∧
      c1.out = (ackPhase env (c.upd fun t => sackPhase t p) p).1.out ∧
      ((p.ip.getTotalLength < p.ip.getHeaderLength ∧ processEstablished env c p = c1) ∨
        (p.ip.getHeaderLength ≤ p.ip.getTotalLength ∧
          processEstablished env c p = finPhase env (dataPhase env c1 p).1 p (dataPhase env c1 p).2)) := by
  unfold processEstablished
  simp only
  split
  · rename_i he
    exact ⟨_, rfl, rfl, .inl ⟨ackPhase_early he, rfl⟩⟩
  refine ⟨(ackPhase env (c.upd fun t => sackPhase t p) p).1.upd fun t => windowPhase t p,
    windowPhase_core _ p, rfl, ?_⟩
  split
  · exact .inl ⟨by assumption, rfl⟩
  · exact .inr ⟨by omega, rfl⟩

/-! ## 3. The send stream -/

/-- The states in which nothing is written or transmitted any more. -/
def NoData (s : TcpState) : Prop :=
  s ≠ .SynSent ∧ s ≠ .SynReceived ∧ s ≠ .Established ∧ s ≠ .CloseWait

/-- The changes of state that do not concern the send stream. -/
def Quiet (s s' : TcpState) : Prop :=
  s' = s ∨ (s = .Established ∧ s' = .CloseWait) ∨ (NoData s ∧ NoData s')

/-- The retransmission timer of LastAck sends the FIN once more. -/
def finTimeout (env : Env) (t : Tcb) : Bool :=
  decide (t.state = .LastAck) && !expires env t && timesOut env t && !exhausted env t

/-- The retransmission timer goes back to `snd_una`: no SACK blocks of the peer stand in the way. -/
def goesBack (env : Env) (t : Tcb) : Bool :=
  decide (t.state = .Established ∨ t.state = .CloseWait) && !expires env t && timesOut env t &&
    !exhausted env t && !sendsBySack t

/-- The retransmission timeouts that an event brings: one, where the timer runs out. -/
def timeouts (env : Env) (t : Tcb) : Event → Nat
  | .tick false => if !expires env t && timesOut env t then 1 else 0
  | _ => 0

/-- The event makes the module send a FIN. -/
def SendsFin (env : Env) (t : Tcb) (e : Event) : Prop :=
  (e = .shutdown ∨ e = .close) ∧
      (t.state = .SynReceived ∨ t.state = .Established ∨ t.state = .CloseWait) ∨
    e = .tick false ∧ finTimeout env t = true

/-- `SendPoint env t e t'`: handling `e` on the TCB `t` calls `transmitPendingData` on `t'`. -/
inductive SendPoint (env : Env) (t : Tcb) : Event → Tcb → Prop where
  | ack {p : Packet} (h : reachesHandler t p = true) (hs : t.state = .Established)
      (hn : acksNew t p = true) :
      SendPoint env t (.packet p) (ackForward env { tcb := seenTcb t p } p.tcp.ackNum).tcb
  | dupAck {p : Packet} (h : reachesHandler t p = true) (hs : t.state = .Established)
      (hd : isDupAck t p = true) (hf : t.fastRecovery = true) :
      SendPoint env t (.packet p) (countDupAck (seenTcb t p))
  | send {data : List Byte} {n : Nat} (hs : t.state = .Established ∨ t.state = .CloseWait)
      (h0 : t.send.used + n < BUFFER_SIZE) (hn : n ≤ data.length)
      (h : (Tcp.send env { tcb := t } data).2 = .ok n) :
      SendPoint env t (.send data) { t with send := t.send.pushAll (data.take n) }
  | uncork : SendPoint env t (.setsockopt (.cork false)) { t with tcpCork := false }
  | timeout (h : goesBack env t = true) :
      SendPoint env t (.tick false)
        (rewind (backOff (persistStep env (delayedAck env { tcb := t })).tcb))

/-- **All an event can do to the send stream** of a TCB that it does not free. -/
inductive SendStep (env : Env) (t : Tcb) (e : Event) (c' : Ctx) : Prop where
  | quiet (acc : e.accepted env t = []) (snd : c'.tcb.core.snd = t.core.snd)
      (count : c'.tcb.retransCount = t.retransCount + timeouts env t e) (state : Quiet t.state c'.tcb.state)
      (adds : Ctx.Adds (fun s => s.Control ∨ Retransmits t s) { tcb := t } c')
  | opens (p : Packet) (he : e = .packet p) (h : opensActive t p = true ∨ opensPassive t p = true)
      (state : c'.tcb.state = .Established) (count : c'.tcb.retransCount = 0)
      (snd : c'.tcb.core.snd =
        { t.core.snd with sndUna := if p.tcp.flags.ack then t.iss + 1 else t.sndUna })
      (adds : Ctx.Adds Segment.Control { tcb := t } c')
  | transmits (c1 : Ctx) (point : SendPoint env t e c1.tcb)
      (adds1 : Ctx.Adds (fun s => s.Control ∨ Retransmits t s) { tcb := t } c1)
      (snd : c'.tcb.core.snd = (transmitPendingData env c1).tcb.core.snd)
      (count : c'.tcb.retransCount = t.retransCount + timeouts env t e) (state : Quiet t.state c'.tcb.state)
      (adds : (transmitPendingData env c1).Adds Segment.Control c')
  | closeWaitAck (p : Packet) (he : e = .packet p) (h : reachesHandler t p = true)
      (hs : t.state = .CloseWait) (hn : acksNew t p = true)
      (snd : c'.tcb.core.snd = { t.core.snd with sndUna := p.tcp.ackNum })
      (count : c'.tcb.retransCount = t.retransCount) (state : c'.tcb.state = .CloseWait) (out : c'.out = [])
  | fin (h : SendsFin env t e) (he : e = .shutdown)
      (snd : c'.tcb.core.snd = { t.core.snd with sndNxt := t.sndNxt + 1 })
      (count : c'.tcb.retransCount = t.retransCount) (state : c'.tcb.state = .FinWait1 ∨ c'.tcb.state = .LastAck)
      (adds : Ctx.Adds (FinOf t) { tcb := t } c')
  | finAgain (h : SendsFin env t e) (he : e = .tick false) (hs : t.state = .LastAck)
      (snd : c'.tcb.core.snd = t.core.snd)
      (count : c'.tcb.retransCount = t.retransCount + timeouts env t e) (state : c'.tcb.state = .LastAck)
      (adds : Ctx.Adds (fun s => s.Control ∨ Retransmits t s ∨ FinOf t s) { tcb := t } c')

/-- Behind the acknowledgement phase the Established handler leaves the send stream alone. -/
theorem processEstablished_snd (env : Env) (c : Ctx) (p : Packet)
    (hs : c.tcb.state = .Established) :
    (processEstablished env c p).tcb.core.snd =
        (ackPhase env (c.upd fun t => sackPhase t p) p).1.tcb.core.snd ∧
      ((processEstablished env c p).tcb.state = .Established ∨
        (processEstablished env c p).tcb.state = .CloseWait) ∧
      (processEstablished env c p).tcb.retransCount = c.tcb.retransCount ∧
      (ackPhase env (c.upd fun t => sackPhase t p) p).1.Adds Segment.Control
        (processEstablished env c p) := by
  obtain ⟨c1, h1, hout, hcase⟩ := processEstablished_cases env c p
  obtain ⟨⟨snd, hsnd⟩, -⟩ := ackPhase_keeps env (c.upd fun t => sackPhase t p) p
  have hst : c1.tcb.state = .Established := by
    have e : c1.tcb.core.state = (sackPhase c.tcb p).core.state := by
      rw [h1, hsnd]
      rfl
    rw [sackPhase_core] at e
    exact e.trans hs
  have hct : c1.tcb.retransCount = c.tcb.retransCount := by
    have e : c1.tcb.core.retransCount = (sackPhase c.tcb p).core.retransCount := by
      rw [h1, hsnd]
      rfl
    rwa [sackPhase_core] at e
  rw [← h1]
  rcases hcase with ⟨-, h⟩ | ⟨-, h⟩ <;> rw [h]
  · exact ⟨rfl, .inl hst, hct, .of_out_eq hout⟩
  -- the payload touches the receive side, the FIN the state
  have hd : (dataPhase env c1 p).1.tcb.core.snd = c1.tcb.core.snd ∧
      (dataPhase env c1 p).1.tcb.state = c1.tcb.state ∧
      (dataPhase env c1 p).1.tcb.retransCount = c1.tcb.retransCount ∧
      c1.Adds Segment.Control (dataPhase env c1 p).1 := by
    rcases dataPhase_cases env c1 p with ⟨-, e⟩ | ⟨-, -, t, ht, e, ha⟩ | ⟨-, -, t, ht, e, ha⟩
    · rw [e]
      exact ⟨rfl, rfl, rfl, .rfl⟩
    · have hro := (recvOnly_drain t).core
      rw [← e, ht] at hro
      exact ⟨(congrArg Core.snd hro :), (congrArg Core.state hro :),
        (congrArg Core.retransCount hro :), ha _⟩
    · have hro := (recvOnly_store c1.tcb p.tcp.seqNum p.seen).core
      rw [← ht, ← e] at hro
      exact ⟨(congrArg Core.snd hro :), (congrArg Core.state hro :),
        (congrArg Core.retransCount hro :), ha.mono fun s hs => hs.1⟩
  have hadds : (ackPhase env (c.upd fun t => sackPhase t p) p).1.Adds Segment.Control
      (dataPhase env c1 p).1 := .trans (.of_out_eq hout) hd.2.2.2
  rcases finPhase_cases env (dataPhase env c1 p).1 p (dataPhase env c1 p).2 with
    ⟨-, t, ht, e, ha⟩ | ⟨-, e, ha⟩
  · refine ⟨?_, .inr ?_, ?_, hadds.trans (ha.mono fun s hs => hs.1)⟩
    · rw [e, ht]
      exact hd.1
    · refine (congrArg Core.state e).trans ?_
      rw [ht]
      rfl
    · refine (congrArg Core.retransCount e).trans ?_
      rw [ht]
      exact hd.2.2.1.trans hct
  · refine ⟨?_, .inl ?_, ?_, hadds.trans (ha.mono fun s hs => hs.1)⟩
    · rw [e]
      exact hd.1
    · exact (congrArg Core.state e).trans (hd.2.1.trans hst)
    · exact (congrArg Core.retransCount e).trans (hd.2.2.1.trans hct)

theorem quiet_noData {s s' : TcpState} (h : Quiet s s') : NoData s' ↔ NoData s := by
  rcases h with rfl | ⟨rfl, rfl⟩ | ⟨h1, h2⟩
  · exact Iff.rfl
  · simp [NoData]
  · exact ⟨fun _ => h1, fun _ => h2⟩

theorem reachesHandler_state (h : reachesHandler t p = true) :
    t.state ≠ .SynSent ∧ t.state ≠ .SynReceived := by
  simp only [reachesHandler, and_eq_true, decide_eq_true_eq] at h
  exact h.1.1.1.2

theorem noData_nextState (p : Packet) (h : NoData t.state) : NoData (nextState t p) := by
  unfold nextState
  cases hs : t.state with
  | SynSent => exact absurd hs h.1
  | SynReceived => exact absurd hs h.2.1
  | Established => exact absurd hs h.2.2.1
  | CloseWait => exact absurd hs h.2.2.2
  | FinWait1 => simp only; split <;> split <;> simp [NoData]
  | FinWait2 => simp only; split <;> simp [NoData]
  | Closing => simp only; split <;> simp [NoData]
  | LastAck => simp only; split <;> simp [NoData]
  | Closed | Listen | TimeWait => simp [NoData]

variable {env : Env}

theorem goesBack_state (h : goesBack env t = true) :
    t.state = .Established ∨ t.state = .CloseWait := by
  simp only [goesBack, and_eq_true, decide_eq_true_eq] at h
  exact h.1.1.1.1

/-- The packet reaches the Established handler. -/
theorem established_send (env : Env) (h : reachesHandler t p = true) (hs : t.state = .Established) :
    SendStep env t (.packet p)
      (processEstablished env { tcb := noteTimestamp t p } p) := by
  have hst : (noteTimestamp t p).state = .Established :=
    (congrArg state (noteTimestamp_core t p)).trans hs
  obtain ⟨hsnd, hstate, hct, hadds⟩ := processEstablished_snd env { tcb := noteTimestamp t p } p hst
  have hcount : (processEstablished env { tcb := noteTimestamp t p } p).tcb.retransCount =
      t.retransCount + timeouts env t (.packet p) :=
    hct.trans (congrArg retransCount (noteTimestamp_core t p))
  have hq : Quiet t.state (processEstablished env { tcb := noteTimestamp t p } p).tcb.state := by
    rw [hs]
    exact hstate.imp id fun h => .inl ⟨rfl, h⟩
  have hseen : (seenTcb t p).core = t.core := seenTcb_core t p
  have hre : ∀ s, Retransmits (seenTcb t p) s → s.Control ∨ Retransmits t s :=
    fun s hs => .inr (hs.congr (congrArg snd hseen))
  change (processEstablished env { tcb := noteTimestamp t p } p).tcb.core.snd =
    (ackPhase env { tcb := seenTcb t p } p).1.tcb.core.snd at hsnd
  change (ackPhase env { tcb := seenTcb t p } p).1.Adds _ _ at hadds
  have hnew : acksNew (seenTcb t p) p = acksNew t p := acksNew_congr (congrArg snd hseen) p
  rcases ackPhase_cases env { tcb := seenTcb t p } p with
    ⟨hn, e⟩ | ⟨-, c1, hc1, ha1, e | ⟨hd, hf, htcb, e⟩⟩
  · rw [e] at hsnd hadds
    have hfw := (ackForward_adds env { tcb := seenTcb t p } p.tcp.ackNum).mono hre
    rw [hnew] at hn
    exact .transmits (ackForward env { tcb := seenTcb t p } p.tcp.ackNum) (.ack h hs hn) hfw hsnd
      hcount hq hadds
  · rw [e] at hsnd hadds
    refine .quiet rfl ?_ hcount hq ((ha1.mono hre).trans (hadds.mono fun s hs => .inl hs))
    rw [hsnd, hc1]
    exact congrArg snd hseen
  rw [e] at hsnd hadds
  have hdup : isDupAck t p = true := by
    have h1 : (seenTcb t p).sndUna = t.sndUna := congrArg (·.snd.sndUna) hseen
    rw [← hd]
    simp only [isDupAck, h1]
  have hfast : t.fastRecovery = true := by
    rw [← hf]
    simp only [seenTcb, sackPhase, noteTimestamp]
    split_ifs <;> rfl
  refine .transmits c1 ?_ (ha1.mono hre) hsnd hcount hq hadds
  rw [htcb]
  exact .dupAck h hs hdup hfast

/-- The packet reaches another handler. -/
theorem packet_send (env : Env) (t : Tcb) (p : Packet)
    (h : (processPacket env { tcb := t } p).2 = .Continue) :
    SendStep env t (.packet p) (processPacket env { tcb := t } p).1 := by
  cases hr : reachesHandler t p with
  | true =>
    rw [processPacket_handler env (c := { tcb := t }) hr]
    have hst : (noteTimestamp t p).state = t.state := congrArg state (noteTimestamp_core t p)
    have hsnd : (noteTimestamp t p).core.snd = t.core.snd :=
      congrArg snd (noteTimestamp_core t p)
    have hct : (noteTimestamp t p).retransCount = t.retransCount :=
      congrArg retransCount (noteTimestamp_core t p)
    show SendStep env t (.packet p) (dispatch env { tcb := noteTimestamp t p } p).1
    by_cases he : t.state = .Established
    · simp only [dispatch, hst, he]
      exact established_send env hr he
    by_cases hcw : t.state = .CloseWait
    · simp only [dispatch, hst, hcw]
      unfold processCloseWait
      split
      · rename_i hn
        rw [acksNew_congr hsnd] at hn
        refine .closeWaitAck p rfl hr hcw hn ?_ hct (hst.trans hcw) rfl
        show ({ (noteTimestamp t p).core.snd with sndUna := p.tcp.ackNum } : SendCore) = _
        rw [hsnd]
      · exact .quiet rfl hsnd hct (.inl hst) (.of_out_eq rfl)
    obtain ⟨hcore, hadds⟩ := dispatch_closing env { tcb := noteTimestamp t p } p
      (by rw [hst]; exact he) (by rw [hst]; exact hcw)
    obtain ⟨h1, h2⟩ := reachesHandler_state hr
    have hnd : NoData t.state := ⟨h1, h2, he, hcw⟩
    refine .quiet rfl ?_ ?_ ?_ ?_
    · rw [hcore]
      exact hsnd
    · exact (congrArg retransCount hcore).trans hct
    · refine .inr (.inr ⟨hnd, ?_⟩)
      have hstate : (dispatch env { tcb := noteTimestamp t p } p).1.tcb.state =
          nextState (noteTimestamp t p) p := congrArg state hcore
      rw [hstate]
      exact noData_nextState p (by rw [hst]; exact hnd)
    · exact .trans (.of_out_eq rfl) (hadds.mono fun s hs => .inl hs.1)
  | false =>
    rcases processPacket_other env { tcb := t } p hr with
      ⟨-, hcore, hadds⟩ | ⟨hf, -⟩ | ⟨ho, -, k, hcore, hadds⟩ | ⟨ho, -, hcore, hout⟩
    · exact .quiet rfl (congrArg snd hcore) (congrArg retransCount hcore)
        (.inl (congrArg state hcore)) (hadds.mono fun s hs => .inl hs.1)
    · rw [h] at hf
      cases hf
    · refine .opens p rfl (.inl ho) (congrArg state hcore) (congrArg retransCount hcore)
        ?_ (hadds.mono fun s hs => hs.1)
      rw [hcore]
    · have ha : p.tcp.flags.ack = true := by
        simp only [opensPassive, and_eq_true] at ho
        exact ho.1.2
      refine .opens p rfl (.inr ho) (congrArg state hcore) (congrArg retransCount hcore)
        ?_ (.of_out_eq hout)
      rw [hcore, if_pos ha]

/-- The delayed ACK and the persist timer leave the retransmission timer alone. -/
theorem persistStep_timer (env : Env) (c : Ctx) :
    timesOut env (persistStep env (delayedAck env c)).tcb = timesOut env c.tcb ∧
      exhausted env (persistStep env (delayedAck env c)).tcb = exhausted env c.tcb ∧
      sendsBySack (persistStep env (delayedAck env c)).tcb = sendsBySack c.tcb := by
  have h1 : ∀ c : Ctx, (persistStep env c).tcb.retransTimer = c.tcb.retransTimer ∧
      (persistStep env c).tcb.rtoMs = c.tcb.rtoMs ∧
      sendsBySack (persistStep env c).tcb = sendsBySack c.tcb := by
    intro c
    unfold persistStep
    simp only
    split_ifs <;> exact ⟨rfl, rfl, rfl⟩
  have h2 : (delayedAck env c).tcb.retransTimer = c.tcb.retransTimer ∧
      (delayedAck env c).tcb.rtoMs = c.tcb.rtoMs ∧
      sendsBySack (delayedAck env c).tcb = sendsBySack c.tcb := by
    unfold delayedAck
    split
    · rw [upd_tcb, sendAck_tcb]
      exact ⟨rfl, rfl, rfl⟩
    · exact ⟨rfl, rfl, rfl⟩
  have hc : (persistStep env (delayedAck env c)).tcb.retransCount = c.tcb.retransCount :=
    congrArg retransCount ((persistStep_core env _).trans (delayedAck_core env c))
  have ht := (h1 (delayedAck env c)).1.trans h2.1
  have hr := (h1 (delayedAck env c)).2.1.trans h2.2.1
  refine ⟨?_, ?_, (h1 (delayedAck env c)).2.2.trans h2.2.2⟩
  · rw [timesOut, timesOut, ht, hr]
  · rw [exhausted, exhausted, timesOut, timesOut, ht, hr, hc]

/-- What the timers before the retransmission timer send. -/
theorem persistStep_sends (env : Env) (t : Tcb) :
    Ctx.Adds (fun s => s.Answers t ∨ Retransmits t s) { tcb := t }
      (persistStep env (delayedAck env { tcb := t })) := by
  have hd := delayedAck_core env { tcb := t }
  refine .trans ((delayedAck_adds env { tcb := t }).mono fun s hs => .inl hs) ?_
  exact (persistStep_adds env (delayedAck env { tcb := t })).mono fun s hs =>
    .inr (hs.congr (congrArg snd hd))

theorem tick_send (env : Env) (t : Tcb) (h : (processTcbTimers env { tcb := t }).2 = false) :
    SendStep env t (.tick false) (processTcbTimers env { tcb := t }).1 := by
  have hx : expires env t = false := by
    cases hx : expires env t with
    | false => rfl
    | true =>
      unfold processTcbTimers at h
      rw [if_pos hx] at h
      cases h
  have hsends := (persistStep_sends env t).mono fun s h => h.imp_left And.left
  have hcore : (persistStep env (delayedAck env { tcb := t })).tcb.core = t.core :=
    (persistStep_core env _).trans (delayedAck_core env { tcb := t })
  obtain ⟨htime, hexh, hsack⟩ := persistStep_timer env { tcb := t }
  have hct : (persistStep env (delayedAck env { tcb := t })).tcb.retransCount = t.retransCount :=
    congrArg retransCount hcore
  have hp : ∀ c', (c' = (persistStep env (delayedAck env { tcb := t })).upd backOff) →
      c'.tcb.core.snd = t.core.snd ∧ c'.tcb.retransCount = t.retransCount + 1 ∧
        c'.tcb.state = t.state ∧ sendsBySack c'.tcb = sendsBySack t := by
    rintro c' rfl
    refine ⟨?_, ?_, ?_, hsack⟩
    · rw [upd_tcb, backOff_core]
      exact (congrArg snd hcore :)
    · exact (congrArg retransCount (backOff_core _)).trans (congrArg (· + 1) hct)
    · exact (congrArg state (backOff_core _)).trans (congrArg state hcore :)
  unfold processTcbTimers at h ⊢
  rw [if_neg (by rw [hx]; decide)] at h ⊢
  unfold retransStep at h ⊢
  split at h
  · rename_i h0
    rw [if_pos h0]
    have hto : timesOut env t = false := by
      rw [← htime, timesOut, h0]
      rfl
    refine .quiet rfl (congrArg snd hcore) ?_ (.inl (congrArg state hcore)) hsends
    rw [timeouts, hto, Bool.and_false, if_neg (by decide)]
    exact hct
  rename_i h0
  rw [if_neg h0]
  split at h
  · rename_i hto
    rw [if_pos hto]
    split at h
    · cases h
    rename_i hex
    rw [if_neg hex]
    generalize hc3 : (persistStep env (delayedAck env { tcb := t })).upd backOff = c3 at *
    obtain ⟨hsnd, hcnt, hst, hsk⟩ := hp c3 rfl
    have hone : timeouts env t (.tick false) = 1 := by
      rw [timeouts, hx, ← htime, hto]
      rfl
    rw [Bool.not_eq_true] at hex
    have hs3 : Ctx.Adds (fun s => s.Control ∨ Retransmits t s) { tcb := t } c3 := by
      rw [← hc3]
      exact hsends.trans (.of_out_eq rfl)
    rcases retransmitOnTimeout_cases env c3 with ⟨hk, ha⟩ | ⟨hs, hk, e⟩ | ⟨hs, e, ha⟩
    · refine .quiet rfl ?_ ?_ (.inl ((congrArg state hk).trans hst)) (hs3.trans (ha.mono ?_))
      · rw [hk, hsnd]
      · rw [hone]
        exact (congrArg retransCount hk).trans hcnt
      · exact fun s hs => hs.elim (fun h => .inr (h.congr hsnd)) fun h => .inl h.1
    · rw [e]
      rw [hst] at hs
      refine .transmits (c3.upd rewind) ?_ (hs3.trans (.of_out_eq rfl)) rfl ?_ ?_ .rfl
      · rw [← hc3]
        refine .timeout ?_
        simp only [goesBack, hs, hx, ← htime, hto, ← hexh, hex, ← hsk, hk, decide_true,
          Bool.not_false, Bool.and_true]
      · obtain ⟨n, hn⟩ := transmitPendingData_core env (c3.upd rewind)
        rw [hone]
        exact (congrArg retransCount hn).trans hcnt
      · obtain ⟨n, hn⟩ := transmitPendingData_core env (c3.upd rewind)
        exact .inl ((congrArg state hn).trans hst)
    · rw [hst] at hs
      have hfin : finTimeout env t = true := by
        simp only [finTimeout, hs, hx, ← htime, hto, ← hexh, hex, decide_true, Bool.not_false,
          Bool.and_true]
      have hall : Ctx.Adds (fun s => s.Control ∨ Retransmits t s ∨ FinOf t s) { tcb := t }
          (retransmitOnTimeout env c3) :=
        (hs3.mono fun s h => h.imp id .inl).trans
          (ha.mono fun s h => .inr (.inr (h.congr hsnd)))
      refine .finAgain (.inr ⟨rfl, hfin⟩) rfl hs ?_ ?_ ?_ hall
      · rw [e]
        exact hsnd
      · rw [e, hone]
        exact hcnt
      · rw [e]
        exact hst.trans hs
  · rename_i hto
    rw [if_neg hto]
    refine .quiet rfl (congrArg snd hcore) ?_ (.inl (congrArg state hcore))
      (hsends.trans (.of_out_eq rfl))
    rw [Bool.not_eq_true, htime] at hto
    rw [timeouts, hto, Bool.and_false, if_neg (by decide)]
    exact hct

theorem packet_continues (h : (handle env t (.packet p)).2 = false) :
    (processPacket env { tcb := t } p).2 = .Continue := by
  cases hr : (processPacket env { tcb := t } p).2 with
  | Continue => rfl
  | FreeTcb =>
    simp only [handle, hr] at h
    cases h

theorem icmp_ignored {icmpType : Nat} {seqNum : Option Seq}
    (h : (handle env t (.icmp icmpType seqNum)).2 = false) :
    (handle env t (.icmp icmpType seqNum)).1 = { tcb := t } := by
  simp only [handle] at h ⊢
  unfold handleIcmpError at h ⊢
  split at h
  · cases h
  · rename_i hn
    rw [if_neg hn]

/-- A call that writes a field and lets out what can go. -/
theorem SendStep.flush {e : Event} {f : Tcb → Tcb}
    (point : SendPoint env t e (f t)) (hstate : (f t).core.state = t.state)
    (hcount : (f t).core.retransCount = t.retransCount + timeouts env t e) :
    SendStep env t e (transmitPendingData env (Ctx.upd { tcb := t } f)) := by
  obtain ⟨m, hm⟩ := transmitPendingData_core env (Ctx.upd { tcb := t } f)
  exact .transmits (Ctx.upd { tcb := t } f) point (.of_out_eq rfl) rfl
    ((congrArg retransCount hm :).trans hcount)
    (.inl ((congrArg state hm :).trans hstate)) .rfl

/-- **What an event does to the send stream** of a TCB that lives on. -/
theorem handle_send (env : Env) (t : Tcb) (e : Event) (h : (handle env t e).2 = false) :
    SendStep env t e (handle env t e).1 := by
  cases e with
  | packet p => exact packet_send env t p (packet_continues h)
  | send data =>
    simp only [handle]
    rcases send_cases env { tcb := t } data with ⟨e, hn⟩ | ⟨n, h0, hlen, hu, hs, e⟩
    · rw [e]
      refine .quiet ?_ rfl rfl (.inl rfl) .rfl
      unfold Event.accepted
      simp only
      split
      · rename_i n hok
        rw [hn n hok, List.take_zero]
      · rfl
    · have h2 : (send env { tcb := t } data).2 = .ok n := by rw [e]
      rw [e]
      exact .flush (.send hs hu hlen h2) rfl rfl
  | recv bufLen =>
    simp only [handle]
    rcases recv_cases env { tcb := t } bufLen with ⟨e, -⟩ | ⟨n, -, -, t', ht', hc, ha⟩
    · rw [e]
      exact .quiet rfl rfl rfl (.inl rfl) .rfl
    refine .quiet rfl ?_ ?_ (.inl ?_) (ha.mono fun s hs => .inl hs.1)
    · rw [hc, ht']
      rfl
    · refine (congrArg retransCount hc).trans ?_
      rw [ht']
      rfl
    · refine (congrArg state hc).trans ?_
      rw [ht']
      rfl
  | shutdown =>
    simp only [handle]
    rcases sendFinPacket_cases env { tcb := t } with e | ⟨hs, hc, ha⟩
    · rw [e]
      exact .quiet rfl rfl rfl (.inl rfl) .rfl
    refine .fin (.inl ⟨.inl rfl, ?_⟩) rfl ?_ (congrArg retransCount hc) ?_ ha
    · rcases hs with hs | hs | hs
      · exact .inr (.inl hs)
      · exact .inl hs
      · exact .inr (.inr hs)
    · rw [hc]
    · have hst := congrArg state hc
      split at hst
      · exact .inr hst
      · exact .inl hst
  | close => cases h
  | setsockopt o =>
    simp only [handle]
    rcases setsockopt_cases env { tcb := t } o with ⟨hc, ho⟩ | ⟨rfl, e⟩
    · exact .quiet rfl (congrArg snd hc) (congrArg retransCount hc)
        (.inl (congrArg state hc)) (.of_out_eq ho)
    · rw [e]
      exact .flush .uncork rfl rfl
  | block thread => exact .quiet rfl rfl rfl (.inl rfl) .rfl
  | tick busy =>
    cases busy with
    | true => exact .quiet rfl rfl rfl (.inl rfl) .rfl
    | false => exact tick_send env t h
  | icmp icmpType seqNum =>
    rw [icmp_ignored h]
    exact .quiet rfl rfl rfl (.inl rfl) .rfl

theorem retransStep_freed {c : Ctx} (h : (retransStep env c).2 = true) (P : Segment → Prop) :
    c.Adds P (retransStep env c).1 ∧ (retransStep env c).1.tcb.iss = c.tcb.iss := by
  unfold retransStep at h ⊢
  split at h
  · cases h
  rename_i h0
  rw [if_neg h0]
  split at h
  · rename_i hto
    rw [if_pos hto]
    split at h
    · rename_i hex
      rw [if_pos hex]
      generalize hc1 : (c.upd fun t => { runTimer env t with retransCount := t.retransCount + 1 }) = c1
      have hout : c1.out = c.out := by
        rw [← hc1]
        rfl
      refine ⟨.trans (.of_out_eq hout) (giveUp_adds c1 P), (giveUp_iss c1).trans ?_⟩
      rw [← hc1]
      rfl
    · cases h
  · cases h

/-- **What an event sends that frees the TCB**: at most the FIN of `close` besides
    acknowledgements and retransmissions. -/
theorem handle_freed (env : Env) (t : Tcb) (e : Event) (h : (handle env t e).2 = true) :
    Ctx.Adds (fun s => s.Answers t ∨ Retransmits t s ∨ SendsFin env t e ∧ FinOf t s) { tcb := t }
        (handle env t e).1 ∧ (handle env t e).1.tcb.iss = t.iss ∧ e.accepted env t = [] := by
  cases e with
  | packet p =>
    have hf : (processPacket env { tcb := t } p).2 = .FreeTcb := by simpa [handle] using h
    show Ctx.Adds _ _ (processPacket env { tcb := t } p).1 ∧
      (processPacket env { tcb := t } p).1.tcb.iss = t.iss ∧ _
    cases hr : reachesHandler t p with
    | true =>
      rw [processPacket_handler env (c := { tcb := t }) hr] at hf ⊢
      obtain ⟨hi, ho⟩ := dispatch_freed env _ p hf
      exact ⟨.of_out_eq ho, hi.trans (congrArg (·.snd.iss) (noteTimestamp_core t p)), rfl⟩
    | false =>
      rcases processPacket_other env { tcb := t } p hr with
        ⟨hc, -⟩ | ⟨-, hi, ha⟩ | ⟨-, hc, -⟩ | ⟨-, hc, -⟩
      · rw [hf] at hc
        cases hc
      · exact ⟨ha.mono fun s hs => .inl hs, hi, rfl⟩
      · rw [hf] at hc
        cases hc
      · rw [hf] at hc
        cases hc
  | close =>
    refine ⟨?_, close_iss env _, rfl⟩
    rcases close_adds env { tcb := t } with ho | ⟨hs, ha⟩
    · exact .of_out_eq ho
    · exact ha.mono fun s hf => .inr (.inr ⟨.inl ⟨.inr rfl, hs⟩, hf⟩)
  | tick busy =>
    cases busy with
    | true => cases h
    | false =>
      simp only [handle, false_eq_true, if_false] at h ⊢
      unfold processTcbTimers at h ⊢
      split
      · exact ⟨giveUp_adds _ _, giveUp_iss _, rfl⟩
      rename_i hx
      rw [if_neg hx] at h
      have hs := (persistStep_sends env t).mono fun s h =>
        (h.imp id .inl : s.Answers t ∨ Retransmits t s ∨ SendsFin env t (.tick false) ∧ FinOf t s)
      obtain ⟨ha, hi⟩ := retransStep_freed h
        fun s => s.Answers t ∨ Retransmits t s ∨ SendsFin env t (.tick false) ∧ FinOf t s
      refine ⟨hs.trans ha, hi.trans ?_, rfl⟩
      exact congrArg (·.snd.iss) ((persistStep_core env _).trans (delayedAck_core env _))
  | icmp icmpType seqNum =>
    simp only [handle]
    unfold handleIcmpError
    split
    · refine ⟨.trans (.of_out_eq rfl) (wakeBlocked_adds _ _), ?_, rfl⟩
      exact congrArg (·.snd.iss) (wakeBlocked_core _)
    · exact ⟨.rfl, rfl, rfl⟩
  | send data => cases h
  | recv bufLen => cases h
  | shutdown => cases h
  | setsockopt o => cases h
  | block thread => cases h

end Zigk.Tcp
