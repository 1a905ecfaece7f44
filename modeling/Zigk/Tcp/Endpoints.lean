/-
  Subject:   WHAT NO HANDLER TOUCHES: the addresses of its TCB, under which it was entered in the
             hash table; and its time of creation, unless it is counted anew.

  One lemma per function of the receive path, of the timers and of the socket layer, in the order of
  the source. `Tcb.fixed` -- what the senders leave alone; `Ages` -- the handlers, which also leave
  the state: `created_at` is set to the present where TimeWait begins, and nowhere else but in
  TimeWait. `handle_ages` is the whole of it; `processEstablishedPacket_endpoints`,
  `processTcbTimers_endpoints` and `answerSyn_endpoints` are what the tables use.
-/
import Zigk.Tcp.Module
import Zigk.Tcp.WindowSteps

namespace Zigk.Tcp

/-- What the senders leave alone. -/
def Tcb.fixed (t : Tcb) : Endpoints × Nat × TcpState := (t.endpoints, t.createdAt, t.state)

/-- The addresses stay. So does the time of creation, unless it is the present one; it is where
    TimeWait begins. -/
structure Ages (env : Env) (t t' : Tcb) : Prop where
  endpoints : t'.endpoints = t.endpoints
  created : t'.createdAt = t.createdAt ∧ (t'.state = .TimeWait → t.state = .TimeWait) ∨
    t'.createdAt = env.now

namespace Ages

variable {env : Env} {t t' t'' : Tcb}

theorem of_fixed (h : t'.fixed = t.fixed) : Ages env t t' := ⟨congrArg (·.1) h,
    .inl ⟨congrArg (·.2.1) h, fun hs => (congrArg (·.2.2) h : t'.state = t.state).symm.trans hs⟩⟩

/-- Into a state that is not TimeWait. -/
theorem moved (h : (t'.endpoints, t'.createdAt) = (t.endpoints, t.createdAt))
    (hs : t'.state ≠ .TimeWait) : Ages env t t' :=
  ⟨congrArg (·.1) h, .inl ⟨congrArg (·.2) h, fun e => absurd e hs⟩⟩

theorem trans (h : Ages env t t') (h' : Ages env t' t'') : Ages env t t'' := by
  refine ⟨h'.endpoints.trans h.endpoints, ?_⟩
  rcases h'.created with ⟨hc, hs⟩ | hc
  · exact h.created.imp (fun h => ⟨hc.trans h.1, h.2 ∘ hs⟩) hc.trans
  · exact .inr hc

theorem then_fixed {u : Tcb} (h : Ages env t u) (h' : t'.fixed = u.fixed) : Ages env t t' :=
  h.trans (.of_fixed h')

end Ages

section Endpoints

variable (env : Env) (c : Ctx)

/-! ## 1. Senders -/

@[simp] theorem wakeBlocked_fixed : c.wakeBlocked.tcb.fixed = c.tcb.fixed := by
  unfold Ctx.wakeBlocked
  split <;> rfl

@[simp] theorem sendAck_fixed : (sendAck env c).1.tcb.fixed = c.tcb.fixed := by
  rw [sendAck_tcb]
  rfl

@[simp] theorem buildSynOptions_fixed (t : Tcb) (isSynAck : Bool) (o : Option TcpOptions)
    (ts : Seq) : (buildSynOptions t isSynAck o ts).2.fixed = t.fixed := by
  unfold buildSynOptions
  cases o with
  | none => cases isSynAck <;> rfl
  | some o =>
    simp only
    split_ifs <;> rfl

@[simp] theorem sendSyn_fixed : (sendSyn env c).1.tcb.fixed = c.tcb.fixed := by
  unfold sendSyn
  split
  · rfl
  · exact buildSynOptions_fixed c.tcb false none env.timestamp

@[simp] theorem sendSynAck_fixed (o : Option TcpOptions) :
    (sendSynAckWithOptions env c o).1.tcb.fixed = c.tcb.fixed := by
  unfold sendSynAckWithOptions
  split
  · rfl
  · exact buildSynOptions_fixed c.tcb true o env.timestamp

@[simp] theorem transmitPendingData_fixed :
    (transmitPendingData env c).tcb.fixed = c.tcb.fixed := by
  have hrtt : ∀ n, (startRtt env n c.tcb).fixed = c.tcb.fixed := by
    intro n
    unfold startRtt
    split <;> rfl
  unfold transmitPendingData
  split
  · rfl
  split
  · rfl
  · simp only
    split <;> exact hrtt _

@[simp] theorem retransmitFromSeq_fixed (seq : Seq) :
    (retransmitFromSeq env c seq).tcb.fixed = c.tcb.fixed := by
  unfold retransmitFromSeq
  simp only
  split_ifs <;> rfl

@[simp] theorem retransmitLoss_fixed :
    (retransmitLoss env c).tcb.fixed = c.tcb.fixed :=
  retransmitFromSeq_fixed env c _

/-! ## 2. The handlers -/

@[simp] theorem sackPhase_fixed (t : Tcb) (p : Packet) :
    (sackPhase t p).fixed = t.fixed := by
  unfold sackPhase
  split_ifs <;> rfl

@[simp] theorem windowPhase_fixed (t : Tcb) (p : Packet) :
    (windowPhase t p).fixed = t.fixed := by
  unfold windowPhase
  simp only
  split <;> rfl

@[simp] theorem noteTimestamp_fixed (t : Tcb) (p : Packet) :
    (noteTimestamp t p).fixed = t.fixed := by
  unfold noteTimestamp
  split <;> rfl

@[simp] theorem noteAck_fixed (ack : Seq) (t : Tcb) :
    (noteAck env ack t).fixed = t.fixed := by
  unfold noteAck sampleRtt
  split
  · simp only
    split
    · unfold Tcb.updateRto
      simp only
      split <;> rfl
    · rfl
  · rfl

@[simp] theorem onAck_fixed (t : Tcb) (n : Nat) : (Reno.onAck t n).fixed = t.fixed := by
  unfold Reno.onAck
  simp only
  split_ifs <;> rfl

@[simp] theorem settleAck_fixed (ack : Seq) (n : Nat) (t : Tcb) :
    (settleAck ack n t).fixed = t.fixed := by
  have h : (settleAck ack n t).fixed = (Reno.onAck (advanceUna t ack) n).fixed := by
    unfold settleAck stopRetransTimer
    split <;> rfl
  rw [h, onAck_fixed]
  rfl

@[simp] theorem countDupAck_fixed (t : Tcb) : (countDupAck t).fixed = t.fixed := by
  unfold countDupAck Reno.onDupAck
  simp only
  split_ifs <;> rfl

@[simp] theorem ackForward_fixed (ack : Seq) :
    (ackForward env c ack).tcb.fixed = c.tcb.fixed := by
  unfold ackForward partialRetransmit
  simp only
  split
  · rw [upd_tcb, settleAck_fixed, retransmitLoss_fixed, upd_tcb, noteAck_fixed]
  · rw [upd_tcb, settleAck_fixed, upd_tcb, noteAck_fixed]

@[simp] theorem dupAck_fixed : (dupAck env c).tcb.fixed = c.tcb.fixed := by
  have hc := countDupAck_fixed c.tcb
  have harm : ∀ t : Tcb, (armRetransTimer t).fixed = t.fixed := fun _ => rfl
  unfold dupAck
  simp only
  split
  · rw [upd_tcb, harm, retransmitLoss_fixed]
    exact hc
  split
  · exact (transmitPendingData_fixed env _).trans hc
  · exact hc

@[simp] theorem ackPhase_fixed (p : Packet) :
    (ackPhase env c p).1.tcb.fixed = c.tcb.fixed := by
  unfold ackPhase
  split
  · rw [transmitPendingData_fixed, ackForward_fixed]
  split
  · split
    · rfl
    simp only
    split
    · exact dupAck_fixed env c
    · rfl
  · rfl

@[simp] theorem scheduleAck_fixed (immediate : Bool) :
    (scheduleAck env c immediate).tcb.fixed = c.tcb.fixed := by
  unfold scheduleAck
  split
  · exact sendAck_fixed env c
  split
  · rfl
  · exact sendAck_fixed env c

theorem drainFrom_fixed (fuel : Nat) (t : Tcb) :
    (drainFrom fuel t).1.fixed = t.fixed := by
  induction fuel generalizing t with
  | zero => rfl
  | succ fuel ih =>
    unfold drainFrom
    split
    · rfl
    rename_i t' ht
    refine (ih t').trans ?_
    unfold drainOne at ht
    split at ht
    · cases ht
    split at ht
    · cases ht
    split_ifs at ht
    cases ht
    rfl

@[simp] theorem dataPhase_fixed (p : Packet) :
    (dataPhase env c p).1.tcb.fixed = c.tcb.fixed := by
  unfold dataPhase
  split
  · rfl
  split
  · obtain ⟨b, hb⟩ := inOrder_tcb env c p.seen
    rw [hb]
    exact drainFrom_fixed _ _
  refine (scheduleAck_fixed env _ true).trans ?_
  rcases storeOutOfOrder_cases c.tcb p.tcp.seqNum p.seen with e | ⟨-, e⟩
  · rw [upd_tcb, e]
  · rw [upd_tcb, e]
    rfl

theorem finPhase_ages (p : Packet) (d : Bool) : Ages env c.tcb (finPhase env c p d).tcb := by
  unfold finPhase
  split
  · refine .then_fixed (u := { c.tcb with rcvNxt := c.tcb.rcvNxt + 1, state := .CloseWait })
      (.moved rfl nofun) ?_
    exact (sendAck_fixed env _).trans (wakeBlocked_fixed _)
  split
  · exact .of_fixed (scheduleAck_fixed env c false)
  · exact .of_fixed rfl

theorem processEstablished_ages (p : Packet) :
    Ages env c.tcb (processEstablished env c p).tcb := by
  have hack : (ackPhase env (c.upd fun t => sackPhase t p) p).1.tcb.fixed = c.tcb.fixed := by
    rw [ackPhase_fixed, upd_tcb, sackPhase_fixed]
  have hwindow : ((ackPhase env (c.upd fun t => sackPhase t p) p).1.upd fun t =>
      windowPhase t p).tcb.fixed = c.tcb.fixed := by
    rw [upd_tcb, windowPhase_fixed, hack]
  unfold processEstablished
  simp only
  split
  · exact .of_fixed hack
  split
  · exact .of_fixed hwindow
  · exact .trans (.of_fixed ((dataPhase_fixed env _ p).trans hwindow)) (finPhase_ages env _ p _)

theorem handleRst_ages : Ages env c.tcb (handleRst c).1.tcb :=
  .then_fixed (u := { c.tcb with state := .Closed }) (.moved rfl nofun) (wakeBlocked_fixed _)

@[simp] theorem takeSynOptions_fixed (t : Tcb) (p : Packet) :
    (takeSynOptions t p).fixed = t.fixed := by
  unfold takeSynOptions
  simp only
  split_ifs <;> rfl

theorem processSynSent_ages (p : Packet) : Ages env c.tcb (processSynSent env c p).1.tcb := by
  unfold processSynSent
  split
  · exact .of_fixed rfl
  split
  · refine .then_fixed (u := { c.tcb with state := .Closed }) (.moved rfl nofun) ?_
    rw [wakeBlocked_fixed, completePendingConnect_tcb]
    rfl
  have hack : (if p.tcp.flags.ack then { c.tcb with sndUna := p.tcp.ackNum } else c.tcb).fixed =
      c.tcb.fixed := by split <;> rfl
  have hopt := (takeSynOptions_fixed { (if p.tcp.flags.ack then
    { c.tcb with sndUna := p.tcp.ackNum } else c.tcb) with
      irs := p.tcp.seqNum, rcvNxt := p.tcp.seqNum + 1 } p).trans hack
  refine .trans (.of_fixed hopt) (.then_fixed (u := { takeSynOptions _ p with
    state := .Established, retransTimer := 0, retransCount := 0 }) (.moved rfl nofun) ?_)
  rw [sendAck_fixed, wakeBlocked_fixed, completePendingConnect_tcb]
  rfl

theorem dispatch_ages (p : Packet) : Ages env c.tcb (dispatch env c p).1.tcb := by
  have hack : ∀ t, Ages env c.tcb t → Ages env c.tcb (sendAck env { c with tcb := t }).1.tcb :=
    fun t h => h.then_fixed (sendAck_fixed env { c with tcb := t })
  unfold dispatch
  split
  · exact processEstablished_ages env c p
  · unfold processFinWait1
    split_ifs
    · exact hack _ ⟨rfl, .inr rfl⟩
    · exact .moved rfl nofun
    · exact hack _ (.moved rfl nofun)
    · exact .of_fixed rfl
  · unfold processFinWait2
    split_ifs
    · exact hack _ ⟨rfl, .inr rfl⟩
    · exact .of_fixed rfl
  · unfold processCloseWait
    split <;> exact .of_fixed rfl
  · unfold processClosing
    split
    · exact ⟨rfl, .inr rfl⟩
    · exact .of_fixed rfl
  · unfold processLastAck
    split
    · exact .moved rfl nofun
    · exact .of_fixed rfl
  · unfold processTimeWait
    split_ifs
    · exact .of_fixed rfl
    · exact hack _ ⟨rfl, .inr rfl⟩
    · exact .of_fixed rfl
  · exact .of_fixed rfl

theorem processEstablishedPacket_ages (p : Packet) :
    Ages env c.tcb (processEstablishedPacket env c p).1.tcb := by
  have hn : Ages env c.tcb (c.upd fun t => noteTimestamp t p).tcb :=
    .of_fixed (noteTimestamp_fixed c.tcb p)
  unfold processEstablishedPacket
  split
  · split
    · exact handleRst_ages env c
    · exact processSynSent_ages env c p
  split
  · exact .of_fixed rfl
  simp only
  split
  · unfold rejectSegment
    split
    · exact hn
    · exact hn.then_fixed (sendAck_fixed env _)
  split
  · split
    · exact hn.trans (handleRst_ages env _)
    · exact hn.then_fixed (sendAck_fixed env _)
  · exact hn.trans (dispatch_ages env _ p)

/-- **A segment leaves the addresses of its TCB alone.** -/
theorem processEstablishedPacket_endpoints (p : Packet) :
    (processEstablishedPacket env c p).1.tcb.endpoints = c.tcb.endpoints :=
  (processEstablishedPacket_ages env c p).endpoints

theorem processSynReceivedLocked_ages (p : Packet) :
    Ages env c.tcb (processSynReceivedLocked env c p).1.tcb := by
  unfold processSynReceivedLocked
  split_ifs
  · exact .of_fixed rfl
  · exact .of_fixed rfl
  · exact .moved rfl nofun

@[simp] theorem processSynReceivedLocked_endpoints (p : Packet) :
    (processSynReceivedLocked env c p).1.tcb.endpoints = c.tcb.endpoints :=
  (processSynReceivedLocked_ages env c p).endpoints

theorem processPacket_ages (p : Packet) : Ages env c.tcb (processPacket env c p).1.tcb := by
  unfold processPacket processSegment handleSynReceivedEstablished
  split
  · split
    · exact .of_fixed rfl
    split
    · have hs := processSynReceivedLocked_ages env c p
      simp only
      split
      · split <;> exact hs
      · exact hs
    · exact processEstablishedPacket_ages env c p
  · exact .of_fixed rfl

@[simp] theorem answerSyn_fixed (p : Packet) :
    (answerSyn env c p).1.tcb.fixed = c.tcb.fixed := by
  unfold answerSyn
  simp only
  split <;> exact sendSynAck_fixed env c _

theorem answerSyn_endpoints (p : Packet) : (answerSyn env c p).1.tcb.endpoints = c.tcb.endpoints :=
  congrArg (·.1) (answerSyn_fixed env c p)

@[simp] theorem sendFirstSyn_fixed : (sendFirstSyn env c).1.tcb.fixed = c.tcb.fixed := by
  unfold sendFirstSyn
  simp only
  split <;> exact sendSyn_fixed env c

theorem sendFirstSyn_endpoints : (sendFirstSyn env c).1.tcb.endpoints = c.tcb.endpoints :=
  congrArg (·.1) (sendFirstSyn_fixed env c)

theorem passiveTcb_created (t0 listener : Tcb) (p : Packet) (iss : Seq) :
    ((passiveTcb t0 listener p iss).endpoints, (passiveTcb t0 listener p iss).createdAt) =
      (t0.endpoints, t0.createdAt) := by
  unfold passiveTcb takeListenOptions
  simp only
  split_ifs <;> rfl

theorem passiveTcb_endpoints (t0 listener : Tcb) (p : Packet) (iss : Seq) :
    (passiveTcb t0 listener p iss).endpoints = t0.endpoints :=
  congrArg (·.1) (passiveTcb_created t0 listener p iss)

/-! ## 3. The timers -/

@[simp] theorem retransmitOnTimeout_fixed :
    (retransmitOnTimeout env c).tcb.fixed = c.tcb.fixed := by
  unfold retransmitOnTimeout
  split
  · exact sendSyn_fixed env c
  · exact sendSynAck_fixed env c none
  · split
    · exact retransmitLoss_fixed env c
    · exact transmitPendingData_fixed env _
  · split
    · exact retransmitLoss_fixed env c
    · exact transmitPendingData_fixed env _
  · rfl
  · rfl

theorem giveUp_ages {t : Tcb} (h : c.tcb.fixed = t.fixed) : Ages env t (giveUp c).tcb :=
  .trans (.of_fixed h) (.then_fixed (u := { c.tcb with state := .Closed, closing := true })
    (.moved rfl nofun) (wakeBlocked_fixed _))

theorem processTcbTimers_ages : Ages env c.tcb (processTcbTimers env c).1.tcb := by
  have hd : (delayedAck env c).tcb.fixed = c.tcb.fixed := by
    unfold delayedAck
    split
    · exact sendAck_fixed env c
    · rfl
  have hp : (persistStep env (delayedAck env c)).tcb.fixed = c.tcb.fixed := by
    rw [← hd]
    unfold persistStep
    simp only
    split_ifs <;> rfl
  unfold processTcbTimers
  split
  · exact giveUp_ages env c rfl
  unfold retransStep
  split
  · exact .of_fixed hp
  split
  · split
    · exact giveUp_ages env _ hp
    · exact .of_fixed ((retransmitOnTimeout_fixed env _).trans hp)
  · exact .of_fixed hp

/-- **So do the timers.** -/
@[simp] theorem processTcbTimers_endpoints :
    (processTcbTimers env c).1.tcb.endpoints = c.tcb.endpoints :=
  (processTcbTimers_ages env c).endpoints

/-! ## 4. Every event -/

/-- **An event leaves the addresses alone**, and `created_at` unless TimeWait begins or goes on. -/
theorem handle_ages (t : Tcb) (e : Event) : Ages env t (handle env t e).1.tcb := by
  cases e with
  | packet p => exact processPacket_ages env { tcb := t } p
  | send data =>
    show Ages env t (send env { tcb := t } data).1.tcb
    rcases send_cases env { tcb := t } data with ⟨e, -⟩ | ⟨n, -, -, -, -, e⟩ <;> rw [e]
    · exact .of_fixed rfl
    · exact .of_fixed (transmitPendingData_fixed env _)
  | recv bufLen =>
    show Ages env t (recv env { tcb := t } bufLen).1.tcb
    unfold recv windowUpdate
    simp only
    split_ifs
    · exact .of_fixed rfl
    · exact .of_fixed ((sendAck_fixed env _).trans rfl)
    · exact .of_fixed rfl
    · exact .of_fixed rfl
  | shutdown =>
    show Ages env t (sendFinPacket env { tcb := t }).tcb
    unfold sendFinPacket
    split
    · exact .of_fixed rfl
    split
    · exact .moved rfl nofun
    · exact .moved rfl nofun
    · exact .moved rfl nofun
    · exact .of_fixed rfl
  | close =>
    show Ages env t (close env { tcb := t }).tcb
    unfold close
    simp only
    split <;> exact .moved rfl nofun
  | setsockopt o =>
    show Ages env t (setsockopt env { tcb := t } o).tcb
    cases o with
    | cork on =>
      unfold setsockopt
      simp only
      split
      · exact .of_fixed rfl
      · exact .of_fixed (transmitPendingData_fixed env _)
    | nodelay | rcvbuf | sndbuf => exact .of_fixed rfl
  | block thread => exact .of_fixed rfl
  | tick busy =>
    cases busy with
    | true => exact .of_fixed rfl
    | false => exact processTcbTimers_ages env { tcb := t }
  | icmp icmpType seqNum =>
    show Ages env t (handleIcmpError { tcb := t } icmpType seqNum).1.tcb
    unfold handleIcmpError
    split
    · exact .then_fixed (u := { t with state := .Closed }) (.moved rfl nofun) (wakeBlocked_fixed _)
    · exact .of_fixed rfl

end Endpoints

end Zigk.Tcp
