/-
  Subject:   WHAT ONE EVENT CAN DO TO THE RECEIVE STREAM of a connection.

  * `RecvStep`, **`handle_recv`** -- all an event can do to `rcv_nxt`, the receive ring and the
    out-of-order queue, and what it reports about them;
  * `handle_state`, `opened_recv` -- where an event leads, and what an active opening sets.

  Only a segment in Established takes data: a `DataStep` and a `FinStep` (`established_recv`).
-/
import Zigk.Tcp.Steps

namespace Zigk.Tcp

open Zigk.Tcp.Core

open Serial (dist place)

/-! ## 1. What there is to do -/

/-- **What the payload of a segment does in Established**: nothing; go to the ring, followed by the
    stored blocks that the drain takes; be refused by the queue; be stored. -/
inductive DataStep (env : Env) (t : Tcb) (p : Packet) (t' : Tcb) : Prop where
  | empty (hd : p.seen = []) (rcv : t'.core.rcv = t.core.rcv)
  | taken (hd : p.seen ≠ []) (hs : p.tcp.seqNum = t.rcvNxt) (l rest : List OooBlock)
      (drains : Drains t.oooBlocks (takeData env t p.seen).rcvNxt (takeData env t p.seen).recv.used l)
      (perm : (l ++ rest).Perm t.oooBlocks)
      (rcv : t'.core.rcv =
        (updateRcvSackBlocks (takeBlocks (takeData env t p.seen) l rest)).core.rcv)
  | refused (hd : p.seen ≠ []) (hs : p.tcp.seqNum ≠ t.rcvNxt) (rcv : t'.core.rcv = t.core.rcv)
  | stored (hd : p.seen ≠ []) (hs : p.tcp.seqNum ≠ t.rcvNxt) (st : Stored t p.tcp.seqNum p.seen)
      (rcv : t'.core.rcv = (updateRcvSackBlocks
        { t with oooBlocks := t.oooBlocks ++ [⟨p.tcp.seqNum, p.seen⟩] }).core.rcv)

/-- After the payload the FIN: `rcv_nxt` steps over it, wherever it stands. -/
inductive FinStep (p : Packet) (t t' : Tcb) : Prop where
  | fin (hf : p.tcp.flags.fin = true) (rcv : t'.core.rcv = { t.core.rcv with rcvNxt := t.rcvNxt + 1 })
      (state : t'.state = .CloseWait)
  | stays (hf : p.tcp.flags.fin = false) (rcv : t'.core.rcv = t.core.rcv)
      (state : t'.state = .Established)

/-- **All an event can do to the receive stream** of a TCB that it does not free. -/
inductive RecvStep (env : Env) (t : Tcb) (e : Event) (c' : Ctx) : Prop where
  | quiet (ret : e.returned env t = []) (rcv : c'.tcb.core.rcv = t.core.rcv)
      (adds : Ctx.Adds (Segment.Reports t) { tcb := t } c')
  | opens (p : Packet) (he : e = .packet p) (h : opensActive t p = true) (k : Bool)
      (rcv : c'.tcb.core.rcv =
        { t.core.rcv with irs := p.tcp.seqNum, rcvNxt := p.tcp.seqNum + 1, sackOk := k })
      (adds : Ctx.Adds (Segment.Reports c'.tcb) { tcb := t } c')
  | read (n : Nat) (hn : n ≤ t.recv.used) (ret : e.returned env t = t.recv.contents.take n)
      (rcv : c'.tcb.core.rcv = { t.core.rcv with recv := t.recv.advance n })
      (adds : Ctx.Adds (Segment.Reports t) { tcb := t } c')
  | segment (p : Packet) (he : e = .packet p) (h : reachesHandler t p = true)
      (hs : t.state = .Established) (hlen : p.ip.getHeaderLength ≤ p.ip.getTotalLength) (t1 : Tcb)
      (data : DataStep env t p t1) (fin : FinStep p t1 c'.tcb)
      (adds : Ctx.Adds (fun s => s.Reports t ∨ s.Reports t1 ∨ s.Reports c'.tcb) { tcb := t } c')
  | fin (p : Packet) (he : e = .packet p) (h : reachesHandler t p = true)
      (hf : takesFin t p = true) (rcv : c'.tcb.core.rcv = { t.core.rcv with rcvNxt := t.rcvNxt + 1 })
      (adds : Ctx.Adds (Segment.Reports c'.tcb) { tcb := t } c')

/-! ## 2. A segment in Established -/

/-- A segment without options reports nothing. -/
theorem reports_of_options {t : Tcb} {s : Segment} (h : s.options = []) : s.Reports t := by
  left
  rw [h]
  exact sackRanges_nil

theorem Retransmits.reports {t t' : Tcb} {s : Segment} (h : Retransmits t s) : s.Reports t' := by
  obtain ⟨off, len, hp, -⟩ := h
  exact reports_of_options hp.noOptions

section Congruence

variable {t t' : Tcb} (h : t'.core.rcv = t.core.rcv)

include h

/-- Taking blocks and updating the SACK blocks work on the receive stream alone. -/
theorem takeBlocks_congr (l rest : List OooBlock) :
    (updateRcvSackBlocks (takeBlocks t' l rest)).core.rcv =
      (updateRcvSackBlocks (takeBlocks t l rest)).core.rcv := by
  have e : ∀ u : Tcb, (updateRcvSackBlocks (takeBlocks u l rest)).core.rcv =
      (fun r : RecvCore => { r with
        recv := r.recv.pushAll (blockData l)
        rcvNxt := place r.rcvNxt (blockData l).length
        oooBlocks := rest
        rcvSackBlocks :=
          if !r.sackOk || rest.length = 0 then []
          else ((rest.filter fun b => b.len ≠ 0).map fun b => ⟨b.start, b.stop⟩).take OOO_SLOTS })
      u.core.rcv := fun _ => rfl
  rw [e, e, h]

theorem storeBlock_congr (b : OooBlock) :
    (updateRcvSackBlocks { t' with oooBlocks := t'.oooBlocks ++ [b] }).core.rcv =
      (updateRcvSackBlocks { t with oooBlocks := t.oooBlocks ++ [b] }).core.rcv := by
  have hooo : t'.oooBlocks = t.oooBlocks := congrArg RecvCore.oooBlocks h
  have hb := takeBlocks_congr h [] (t.oooBlocks ++ [b])
  simp only [takeBlocks, blockData_nil, List.length_nil, Serial.place_zero, RingBuf.pushAll] at hb
  rw [hooo]
  exact hb

theorem takeData_congr (env : Env) (data : List Byte) :
    (takeData env t' data).core.rcv = (takeData env t data).core.rcv := by
  have e : ∀ u : Tcb, (takeData env u data).core.rcv =
      (fun r : RecvCore =>
        let async := r.parentSocket.isSome && env.pendingRecv
        let space := if r.recv.used ≥ BUFFER_SIZE then 0 else BUFFER_SIZE - r.recv.used
        { r with
          recv := if async then r.recv else r.recv.pushAll (data.take (min data.length space))
          rcvNxt := place r.rcvNxt (if async then data.length else min data.length space) })
      u.core.rcv := fun _ => rfl
  rw [e, e, h]

end Congruence

/-- The payload phase is such a step. -/
theorem dataPhase_step (env : Env) {t : Tcb} {c : Ctx} (h : c.tcb.core.rcv = t.core.rcv)
    (hq : QueueOk t.oooBlocks) (p : Packet) :
    DataStep env t p (dataPhase env c p).1.tcb ∧
      c.Adds (Segment.Reports (dataPhase env c p).1.tcb) (dataPhase env c p).1 := by
  have hnxt : c.tcb.rcvNxt = t.rcvNxt := congrArg (·.rcvNxt) h
  have hooo : c.tcb.oooBlocks = t.oooBlocks := congrArg (·.oooBlocks) h
  rcases dataPhase_cases env c p with ⟨hd, e⟩ | ⟨hd, hs, t2, ht2, e, ha⟩ | ⟨hd, hs, t2, ht2, e, ha⟩
  · rw [e]
    exact ⟨.empty hd h, .rfl⟩
  · refine ⟨?_, ha _⟩
    have hrcv : t2.core.rcv = (takeData env t p.seen).core.rcv :=
      (congrArg rcv ht2).trans (takeData_congr h env p.seen)
    have h1 : t2.oooBlocks = t.oooBlocks := congrArg RecvCore.oooBlocks hrcv
    have h2 : t2.rcvNxt = (takeData env t p.seen).rcvNxt := congrArg RecvCore.rcvNxt hrcv
    have h3 : t2.recv = (takeData env t p.seen).recv := congrArg RecvCore.recv hrcv
    obtain ⟨l, rest, hdr, hp, e2⟩ := drain_spec (t := t2) (by rw [h1]; exact hq)
    rw [h1, h2, h3] at hdr
    rw [h1] at hp
    rw [e, e2]
    exact .taken hd (hs.trans hnxt) l rest hdr hp (takeBlocks_congr hrcv l rest)
  · have hs' : p.tcp.seqNum ≠ t.rcvNxt := fun h => hs (h.trans hnxt.symm)
    have hrcv : (dataPhase env c p).1.tcb.core.rcv = t2.core.rcv := congrArg rcv e
    refine ⟨?_, ha.mono fun s h => h.2.congr hrcv.symm⟩
    rcases storeOutOfOrder_cases c.tcb p.tcp.seqNum p.seen with e2 | ⟨hst, e2⟩ <;> rw [e2] at ht2
    · rw [ht2] at hrcv
      exact .refused hd hs' (hrcv.trans h)
    rw [ht2] at hrcv
    refine .stored hd hs' ⟨hst.nonempty, hst.small, ?_, ?_⟩ (hrcv.trans (storeBlock_congr h _))
    · rw [← hooo]
      exact hst.room
    · rw [← hooo]
      exact hst.free

/-- **A segment in Established**: its payload and its FIN, unless the IP header announces less than
    its own length. -/
theorem established_recv (env : Env) {t : Tcb} {p : Packet} (hr : reachesHandler t p = true)
    (hs : t.state = .Established) (hq : QueueOk t.oooBlocks) :
    (p.ip.getTotalLength < p.ip.getHeaderLength ∧
      (processPacket env { tcb := t } p).1.tcb.core.rcv = t.core.rcv ∧
      (processPacket env { tcb := t } p).1.tcb.state = .Established ∧
      Ctx.Adds (Segment.Reports t) { tcb := t } (processPacket env { tcb := t } p).1) ∨
    (p.ip.getHeaderLength ≤ p.ip.getTotalLength ∧
      ∃ t1, DataStep env t p t1 ∧ FinStep p t1 (processPacket env { tcb := t } p).1.tcb ∧
        Ctx.Adds (fun s => s.Reports t ∨ s.Reports t1 ∨
          s.Reports (processPacket env { tcb := t } p).1.tcb) { tcb := t }
          (processPacket env { tcb := t } p).1) := by
  have hst : (noteTimestamp t p).state = .Established :=
    (congrArg state (noteTimestamp_core t p)).trans hs
  have e : (processPacket env { tcb := t } p).1 =
      processEstablished env { tcb := noteTimestamp t p } p := by
    rw [processPacket_handler env (c := { tcb := t }) hr]
    simp only [dispatch, upd_tcb, hst]
    rfl
  rw [e]
  obtain ⟨c1, h1, hout, hcase⟩ := processEstablished_cases env { tcb := noteTimestamp t p } p
  obtain ⟨⟨snd, hsnd⟩, hadds⟩ := ackPhase_keeps env { tcb := seenTcb t p } p
  change c1.tcb.core = (ackPhase env { tcb := seenTcb t p } p).1.tcb.core at h1
  change c1.out = (ackPhase env { tcb := seenTcb t p } p).1.out at hout
  have hc1 : c1.tcb.core = { t.core with snd := snd } := by
    rw [h1, hsnd]
    show ({ (seenTcb t p).core with snd := snd } : Core) = _
    rw [seenTcb_core]
  have hrcv : c1.tcb.core.rcv = t.core.rcv := by rw [hc1]
  have hstate : c1.tcb.state = .Established := (congrArg state hc1).trans hs
  have hsent : Ctx.Adds (Segment.Reports t) { tcb := t } c1 := by
    obtain ⟨l, hl, hs⟩ := hadds
    exact ⟨l, hout.trans hl, fun s h => reports_of_options (hs s h)⟩
  rcases hcase with ⟨hlen, e⟩ | ⟨hlen, e⟩ <;> rw [e]
  · exact .inl ⟨hlen, hrcv, hstate, hsent⟩
  obtain ⟨hdata, hdadds⟩ := dataPhase_step env hrcv hq p
  refine .inr ⟨hlen, _, hdata, ?_⟩
  have hdstate : (dataPhase env c1 p).1.tcb.state = .Established := by
    rcases dataPhase_cases env c1 p with ⟨-, e⟩ | ⟨-, -, t2, ht2, e, -⟩ | ⟨-, -, t2, ht2, e, -⟩
    · rw [e]
      exact hstate
    · have h := (congrArg state (recvOnly_drain t2).core :)
      rw [← e] at h
      exact (h.trans (congrArg state ht2 :)).trans hstate
    · have h := (congrArg state (recvOnly_store c1.tcb p.tcp.seqNum p.seen).core :)
      rw [← ht2] at h
      exact ((congrArg state e :).trans h).trans hstate
  have hall : Ctx.Adds (fun s => s.Reports t ∨ s.Reports (dataPhase env c1 p).1.tcb) { tcb := t }
      (dataPhase env c1 p).1 :=
    (hsent.mono fun s h => .inl h).trans (hdadds.mono fun s h => .inr h)
  rcases finPhase_cases env (dataPhase env c1 p).1 p (dataPhase env c1 p).2 with
    ⟨hf, t2, ht2, e2, ha⟩ | ⟨hf, e2, ha⟩
  · rw [ht2] at e2 ha
    refine ⟨.fin hf (congrArg rcv e2) (congrArg state e2), ?_⟩
    exact (hall.mono fun s h => h.imp id .inl).trans
      (ha.mono fun s h => .inr (.inr (h.2.congr (congrArg rcv e2).symm)))
  · refine ⟨.stays hf (congrArg rcv e2) ((congrArg state e2).trans hdstate), ?_⟩
    exact (hall.mono fun s h => h.imp id .inl).trans (ha.mono fun s h => .inr (.inl h.2))

/-! ## 3. Every event is such a step -/

theorem packet_recv (env : Env) (t : Tcb) (p : Packet) (hq : QueueOk t.oooBlocks)
    (h : (processPacket env { tcb := t } p).2 = .Continue) :
    RecvStep env t (.packet p) (processPacket env { tcb := t } p).1 := by
  cases hr : reachesHandler t p with
  | true =>
    by_cases he : t.state = .Established
    · rcases established_recv env hr he hq with ⟨-, hrcv, -, ha⟩ | ⟨hlen, t1, hd, hf, ha⟩
      · exact .quiet rfl hrcv ha
      · exact .segment p rfl hr he hlen t1 hd hf ha
    rw [processPacket_handler env (c := { tcb := t }) hr]
    have hcore := noteTimestamp_core t p
    have hst : (noteTimestamp t p).state = t.state := congrArg state hcore
    have hrcv : (noteTimestamp t p).core.rcv = t.core.rcv := congrArg rcv hcore
    show RecvStep env t (.packet p) (dispatch env { tcb := noteTimestamp t p } p).1
    by_cases hcw : t.state = .CloseWait
    · simp only [dispatch, hst, hcw]
      unfold processCloseWait
      split <;> exact .quiet rfl hrcv (.of_out_eq rfl)
    obtain ⟨hd, hadds⟩ := dispatch_closing env { tcb := noteTimestamp t p } p
      (by rw [hst]; exact he) (by rw [hst]; exact hcw)
    have htf : takesFin (noteTimestamp t p) p = takesFin t p := by rw [takesFin, takesFin, hst]
    have hnxt : (noteTimestamp t p).rcvNxt = t.rcvNxt := congrArg RecvCore.rcvNxt hrcv
    simp only [htf, hnxt] at hd
    have hadds' : Ctx.Adds (Segment.Reports (dispatch env { tcb := noteTimestamp t p } p).1.tcb)
        { tcb := t } (dispatch env { tcb := noteTimestamp t p } p).1 :=
      .trans (.of_out_eq rfl) (hadds.mono fun s hs => hs.2)
    cases hf : takesFin t p with
    | true =>
      rw [hf] at hd
      refine .fin p rfl hr hf ?_ hadds'
      rw [hd]
      show ({ (noteTimestamp t p).core.rcv with rcvNxt := t.rcvNxt + 1 } : RecvCore) = _
      rw [hrcv]
    | false =>
      rw [hf] at hd
      have e : (dispatch env { tcb := noteTimestamp t p } p).1.tcb.core.rcv = t.core.rcv := by
        rw [hd]
        show ({ (noteTimestamp t p).core.rcv with rcvNxt := t.rcvNxt } : RecvCore) = _
        rw [hrcv]
        rfl
      exact .quiet rfl e (hadds'.mono fun s hs => hs.congr e)
  | false =>
    rcases processPacket_other env { tcb := t } p hr with
      ⟨-, hcore, hadds⟩ | ⟨hf, -⟩ | ⟨ho, -, k, hcore, hadds⟩ | ⟨ho, -, hcore, hout⟩
    · exact .quiet rfl (congrArg rcv hcore) (hadds.mono fun s hs => hs.2)
    · rw [h] at hf
      cases hf
    · refine .opens p rfl ho k ?_ (hadds.mono fun s hs => hs.2)
      rw [hcore]
    · refine .quiet rfl ?_ (.of_out_eq hout)
      rw [hcore]

/-- The timers leave the receive stream alone. -/
theorem tick_recv (env : Env) (t : Tcb) :
    ((processTcbTimers env { tcb := t }).2 = false →
        (processTcbTimers env { tcb := t }).1.tcb.core.rcv = t.core.rcv) ∧
      Ctx.Adds (Segment.Reports t) { tcb := t } (processTcbTimers env { tcb := t }).1 := by
  have hcore : (persistStep env (delayedAck env { tcb := t })).tcb.core = t.core :=
    (persistStep_core env _).trans (delayedAck_core env { tcb := t })
  have hsends : Ctx.Adds (Segment.Reports t) { tcb := t }
      (persistStep env (delayedAck env { tcb := t })) :=
    (persistStep_sends env t).mono fun s hs => hs.elim And.right Retransmits.reports
  unfold processTcbTimers
  split
  · exact ⟨nofun, giveUp_adds _ _⟩
  unfold retransStep
  split
  · exact ⟨fun _ => congrArg rcv hcore, hsends⟩
  split
  · split
    · exact ⟨nofun, hsends.trans (.trans (.of_out_eq rfl) (giveUp_adds (Ctx.upd _ _) _))⟩
    generalize hc3 : (persistStep env (delayedAck env { tcb := t })).upd backOff = c3
    have hrcv : c3.tcb.core.rcv = t.core.rcv := by
      rw [← hc3, upd_tcb, backOff_core]
      exact (congrArg rcv hcore :)
    have hs3 : Ctx.Adds (Segment.Reports t) { tcb := t } c3 := by
      rw [← hc3]
      exact hsends.trans (.of_out_eq rfl)
    rcases retransmitOnTimeout_cases env c3 with ⟨hk, ha⟩ | ⟨-, -, e⟩ | ⟨-, e, ha⟩
    · refine ⟨fun _ => ?_, hs3.trans (ha.mono fun s hs => ?_)⟩
      · rw [hk, hrcv]
      · exact hs.elim (fun h => h.reports) fun h => .inl h.2
    · obtain ⟨n, hn⟩ := transmitPendingData_core env (c3.upd rewind)
      rw [e]
      refine ⟨fun _ => ?_, (hs3.trans (.of_out_eq rfl)).trans
        ((transmitPendingData_adds env (c3.upd rewind)).mono fun s hs => reports_of_options hs)⟩
      rw [hn]
      exact hrcv
    · refine ⟨fun _ => ?_, hs3.trans (ha.mono fun s hs => reports_of_options hs.options)⟩
      rw [e]
      exact hrcv
  · exact ⟨fun _ => congrArg rcv hcore, hsends.trans (.of_out_eq rfl)⟩

variable {env : Env} {e : Event}

theorem RecvStep.flush {t : Tcb} {f : Tcb → Tcb}
    (hret : e.returned env t = []) (hrcv : (f t).core.rcv = t.core.rcv) :
    RecvStep env t e (transmitPendingData env (Ctx.upd { tcb := t } f)) := by
  obtain ⟨m, hm⟩ := transmitPendingData_core env (Ctx.upd { tcb := t } f)
  exact .quiet hret ((congrArg rcv hm :).trans hrcv) (.trans (.of_out_eq rfl)
    ((transmitPendingData_adds env _).mono fun s hs => reports_of_options hs))

/-- **What an event does to the receive stream** of a TCB that lives on. -/
theorem handle_recv (env : Env) (t : Tcb) (e : Event) (hq : QueueOk t.oooBlocks)
    (h : (handle env t e).2 = false) :
    RecvStep env t e (handle env t e).1 := by
  cases e with
  | packet p => exact packet_recv env t p hq (packet_continues h)
  | send data =>
    simp only [handle]
    rcases send_cases env { tcb := t } data with ⟨e, -⟩ | ⟨n, -, -, -, -, e⟩
    · rw [e]
      exact .quiet rfl rfl .rfl
    · rw [e]
      exact .flush rfl rfl
  | recv bufLen =>
    rcases recv_cases env { tcb := t } bufLen with ⟨e, hl⟩ | ⟨n, hn, hl, t', ht', hc, ha⟩
    · refine .quiet ?_ (congrArg (fun c => c.tcb.core.rcv) e) (.of_out_eq (congrArg Ctx.out e))
      unfold Event.returned
      simp only
      split
      · exact hl _ (by assumption)
      · rfl
    refine .read n hn ?_ ?_ (ha.mono fun s hs => ?_)
    · rw [Event.returned, hl]
    · refine (congrArg rcv hc).trans ?_
      rw [ht']
      rfl
    · refine hs.2.imp id fun hr => ?_
      rw [ht'] at hr
      exact hr
  | shutdown =>
    simp only [handle]
    rcases sendFinPacket_cases env { tcb := t } with e | ⟨-, hc, ha⟩
    · rw [e]
      exact .quiet rfl rfl .rfl
    · exact .quiet rfl (by rw [hc]) (ha.mono fun s hs => reports_of_options hs.options)
  | close => cases h
  | setsockopt o =>
    simp only [handle]
    rcases setsockopt_cases env { tcb := t } o with ⟨hc, ho⟩ | ⟨rfl, e⟩
    · exact .quiet rfl (congrArg rcv hc) (.of_out_eq ho)
    · rw [e]
      exact .flush rfl rfl
  | block thread => exact .quiet rfl rfl .rfl
  | tick busy =>
    cases busy with
    | true => exact .quiet rfl rfl .rfl
    | false => exact .quiet rfl ((tick_recv env t).1 h) (tick_recv env t).2
  | icmp icmpType seqNum =>
    rw [icmp_ignored h]
    exact .quiet rfl rfl .rfl

/-- **What an event reports that frees the TCB**, and that it returns nothing. -/
theorem handle_recv_freed (env : Env) (t : Tcb) (e : Event) (h : (handle env t e).2 = true) :
    Ctx.Adds (Segment.Reports t) { tcb := t } (handle env t e).1 ∧ e.returned env t = [] := by
  obtain ⟨ha, -⟩ := handle_freed env t e h
  refine ⟨ha.mono fun s hs => ?_, ?_⟩
  · rcases hs with hs | hs | ⟨-, hs⟩
    · exact hs.2
    · exact hs.reports
    · exact reports_of_options hs.options
  · cases e with
    | recv bufLen => cases h
    | _ => rfl

/-- **Where an event leads**: on within the states of `Quiet`, out of the handshake, or to one of
    the states behind a FIN of this side. -/
theorem handle_state {t : Tcb} (h : (handle env t e).2 = false) :
    Quiet t.state (handle env t e).1.tcb.state ∨
      (∃ p, e = .packet p ∧ (opensActive t p = true ∨ opensPassive t p = true) ∧
        (handle env t e).1.tcb.state = .Established) ∨
      (handle env t e).1.tcb.state = .FinWait1 ∨ (handle env t e).1.tcb.state = .LastAck := by
  cases handle_send env t e h with
  | quiet acc snd count state adds => exact .inl state
  | opens p he ho state count snd adds => exact .inr (.inl ⟨p, he, ho, state⟩)
  | transmits c1 point adds1 snd count state adds => exact .inl state
  | closeWaitAck p he hr hs hn snd count state out => exact .inl (.inl (state.trans hs.symm))
  | fin hf he snd count state adds => exact .inr (.inr state)
  | finAgain hf he hs snd count state adds => exact .inl (.inl (state.trans hs.symm))

/-- No event leads back to SynSent. -/
theorem handle_keepsOpen {t : Tcb} (h : (handle env t e).2 = false)
    (hs : (handle env t e).1.tcb.state = .SynSent) : t.state = .SynSent := by
  rcases handle_state h with (hq | ⟨-, hq⟩ | ⟨-, hn⟩) | ⟨p, -, -, hst⟩ | hst | hst
  · exact hq.symm.trans hs
  · rw [hs] at hq
    cases hq
  · exact absurd hs hn.1
  · rw [hs] at hst
    cases hst
  · rw [hs] at hst
    cases hst
  · rw [hs] at hst
    cases hst

/-- Nothing leads into SynReceived. -/
theorem handle_synReceived {t : Tcb} (h : (handle env t e).2 = false)
    (hs : (handle env t e).1.tcb.state = .SynReceived) : t.state = .SynReceived := by
  rcases handle_state h with (hq | ⟨-, hq⟩ | ⟨-, hn⟩) | ⟨p, -, -, hst⟩ | hst | hst
  · exact hq.symm.trans hs
  · rw [hs] at hq
    cases hq
  · exact absurd hs hn.2.1
  all_goals
    rw [hs] at hst
    cases hst

/-- The opening of an active connection sets the numbers of the receive stream. -/
theorem opened_recv {t : Tcb} {p : Packet} (hs : t.state = .SynSent)
    (h : (handle env t (.packet p)).2 = false)
    (hs' : (handle env t (.packet p)).1.tcb.state = .Established) :
    ∃ k, (handle env t (.packet p)).1.tcb.core.rcv =
      { t.core.rcv with irs := p.tcp.seqNum, rcvNxt := p.tcp.seqNum + 1, sackOk := k } := by
  have hr : reachesHandler t p = false := by
    cases hr : reachesHandler t p with
    | false => rfl
    | true => exact absurd hs (reachesHandler_state hr).1
  change (processPacket env { tcb := t } p).1.tcb.state = .Established at hs'
  rcases processPacket_other env { tcb := t } p hr with
    ⟨-, hcore, -⟩ | ⟨hf, -⟩ | ⟨-, -, k, hcore, -⟩ | ⟨ho, -⟩
  · have hsame : (processPacket env { tcb := t } p).1.tcb.state = t.state :=
      congrArg state hcore
    rw [hsame, hs] at hs'
    cases hs'
  · simp only [handle, hf, decide_true] at h
    cases h
  · exact ⟨k, congrArg rcv hcore⟩
  · simp only [opensPassive, Bool.and_eq_true, decide_eq_true_eq] at ho
    rw [hs] at ho
    cases ho.1.1

end Zigk.Tcp
